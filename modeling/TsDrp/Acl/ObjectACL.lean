import TsDrp.Applier.Replay

/-!
# The access control list

`ObjectACL` keeps for every listed peer the groups it belongs to and its public
key.  A vertex of the ACL names a method and its arguments freely, so a call is
modelled for every name and every argument: besides `grant`, `revoke` and
`setKey` the queries, the resolver and the methods every object inherits can be
called, and these change nothing.
-/

namespace TsDrp

inductive ACLGroup where
  | admin
  | finality
  | writer
deriving DecidableEq

/-- The group that an argument is `===` to. -/
def ACLGroup.ofValue : JsValue → Option ACLGroup
  | .string text =>
    if text = "ADMIN" then some admin
    else if text = "FINALITY" then some finality
    else if text = "WRITER" then some writer
    else none
  | _ => none

inductive ACLConflictResolution where
  | grantWins
  | revokeWins
deriving DecidableEq

/-- Which of two conflicting operations goes, by whether the left one is a grant. -/
def ACLConflictResolution.drops (mode : ACLConflictResolution) (leftGrants : Bool) : ActionType :=
  match mode, leftGrants with
  | .grantWins, true => .dropRight
  | .grantWins, false => .dropLeft
  | .revokeWins, true => .dropLeft
  | .revokeWins, false => .dropRight

structure PeerPermissions where
  blsPublicKey : JsValue
  permissions : List ACLGroup

def getPeerPermissions : PeerPermissions where
  blsPublicKey := .string ""
  permissions := []

namespace PeerPermissions

variable (peer : PeerPermissions)

def add (group : ACLGroup) : PeerPermissions :=
  { peer with
    permissions := if group ∈ peer.permissions then peer.permissions else peer.permissions ++ [group] }

def delete (group : ACLGroup) : PeerPermissions :=
  { peer with permissions := peer.permissions.filter (· ≠ group) }

variable {peer}

@[simp]
theorem mem_add {group other : ACLGroup} :
    other ∈ (peer.add group).permissions ↔ other ∈ peer.permissions ∨ other = group := by
  unfold add
  dsimp only
  split
  · constructor
    · exact Or.inl
    · rintro (mem | rfl)
      · exact mem
      · assumption
  · simp

@[simp]
theorem mem_delete {group other : ACLGroup} :
    other ∈ (peer.delete group).permissions ↔ other ∈ peer.permissions ∧ other ≠ group := by
  simp [delete]

end PeerPermissions

/--
The list without the runtime context, whose caller is an argument of the calls.
Arguments are not checked to be strings, so any value can become a key.
-/
structure ObjectACL where
  permissionless : Bool
  conflictResolution : ACLConflictResolution
  authorizedPeers : List (JsValue × PeerPermissions)

namespace ObjectACL

def create (admins : List String) (permissionless : Bool)
    (conflictResolution : Option ACLConflictResolution) : ObjectACL where
  permissionless := permissionless
  conflictResolution := conflictResolution.getD .revokeWins
  authorizedPeers := admins.eraseDups.map fun adminId =>
    (.string adminId,
      { getPeerPermissions with
        permissions := [.admin, .finality] ++ if permissionless then [] else [.writer] })

variable (acl : ObjectACL)

def get (peerId : JsValue) : Option PeerPermissions :=
  (acl.authorizedPeers.find? fun entry => entry.1.sameValueZero peerId).map (·.2)

def modify (change : PeerPermissions → PeerPermissions) (peerId : JsValue) :
    List (JsValue × PeerPermissions) → List (JsValue × PeerPermissions)
  | [] => []
  | entry :: rest =>
    if entry.1.sameValueZero peerId then (entry.1, change entry.2) :: rest
    else entry :: modify change peerId rest

/-- `_authorizedPeers.get(peerId)?.permissions.has(group) ?? false` -/
def has (peerId : JsValue) (group : ACLGroup) : Bool :=
  ((acl.get peerId).map fun peer => decide (group ∈ peer.permissions)).getD false

def queryIsAdmin (peerId : JsValue) : Bool := acl.has peerId .admin

def queryIsFinalitySigner (peerId : JsValue) : Bool := acl.has peerId .finality

def queryIsWriter (peerId : JsValue) : Bool := acl.permissionless || acl.has peerId .writer

/-- The signers, with their keys, in the order of the map. -/
def queryGetFinalitySigners : List (JsValue × JsValue) :=
  (acl.authorizedPeers.filter fun entry => decide (ACLGroup.finality ∈ entry.2.permissions)).map
    fun entry => (entry.1, entry.2.blsPublicKey)

def addPermission (peerId : JsValue) (group : ACLGroup) : ObjectACL × Bool :=
  match acl.get peerId with
  | none =>
    ({ acl with
      authorizedPeers := acl.authorizedPeers ++ [(peerId, getPeerPermissions.add group)] }, true)
  | some peer =>
    ({ acl with authorizedPeers := modify (·.add group) peerId acl.authorizedPeers },
      group ∉ peer.permissions)

def grant (caller : String) (peerId group : JsValue) : Except JsError (ObjectACL × Bool) :=
  if !acl.queryIsAdmin (.string caller) then
    .error (.error "Only admin peers can grant permissions.")
  else
    match ACLGroup.ofValue group with
    | some .admin => .ok (acl.addPermission peerId .admin)
    | some .finality => .ok (acl.addPermission peerId .finality)
    | some .writer =>
      if acl.permissionless then
        .error (.error "Cannot grant write permissions to a peer in permissionless mode.")
      else .ok (acl.addPermission peerId .writer)
    | none => .error (.error "Invalid group.")

def deletePermission (peerId : JsValue) (group : ACLGroup) : ObjectACL × Bool :=
  ({ acl with authorizedPeers := modify (·.delete group) peerId acl.authorizedPeers },
    acl.has peerId group)

def revoke (caller : String) (peerId group : JsValue) : Except JsError (ObjectACL × Bool) :=
  if !acl.queryIsAdmin (.string caller) then
    .error (.error "Only admin peers can revoke permissions.")
  else if acl.queryIsAdmin peerId then
    .error (.error "Cannot revoke permissions from a peer with admin privileges.")
  else
    match ACLGroup.ofValue group with
    | some .admin => .ok (acl, false)
    | some .finality => .ok (acl.deletePermission peerId .finality)
    | some .writer => .ok (acl.deletePermission peerId .writer)
    | none => .error (.error "Invalid group.")

def setKey (caller : String) (blsPublicKey : JsValue) : Except JsError (ObjectACL × Bool) :=
  if !acl.queryIsFinalitySigner (.string caller) then
    .error (.error "Only finality signers can set their BLS public key.")
  else
    match acl.get (.string caller) with
    | none =>
      .ok ({ acl with
        authorizedPeers := acl.authorizedPeers ++
          [(.string caller, { getPeerPermissions with blsPublicKey })] }, true)
    | some peer =>
      .ok ({ acl with
        authorizedPeers := modify (fun peer => { peer with blsPublicKey }) (.string caller)
          acl.authorizedPeers }, !peer.blsPublicKey.deepEqual blsPublicKey)

/--
What `resolveConflicts` does with arguments that are no vertices.  Its answer is
thrown away, but it may raise an exception.
-/
def resolveConflictsOf (args : List JsValue) : Except JsError Unit := do
  let vertices := args.headD .undefined
  let left ← (← vertices.item 0).member "operation"
  if !left.truthy then return
  let right ← (← vertices.item 1).member "operation"
  if !right.truthy then return
  let leftType ← left.member "opType"
  let rightType ← right.member "opType"
  if leftType.strictEquals (.string "setKey") || rightType.strictEquals (.string "setKey") ||
      leftType.strictEquals rightType then return
  let _ ← (← left.member "value").item 0
  let _ ← (← right.member "value").item 0
  return

/-- The methods that change nothing, with what they ask of their arguments. -/
def callOther (method : String) (args : List JsValue) : Except JsError Unit :=
  if method ∈ ["query_getFinalitySigners", "query_isAdmin", "query_isFinalitySigner",
      "query_isWriter", "query_getPeerKey", "isPrototypeOf", "toString", "toLocaleString",
      "valueOf"] then .ok ()
  else if method ∈ ["hasOwnProperty", "propertyIsEnumerable", "__lookupGetter__",
      "__lookupSetter__"] then
    if (args.headD .undefined).hasText then .ok ()
    else .error (.typeError "Cannot convert object to primitive value")
  else if method = "resolveConflicts" then resolveConflictsOf args
  else if method ∈ ["__defineGetter__", "__defineSetter__"] then
    .error (.typeError ("Object.prototype." ++ method ++ ": Expecting function"))
  else if method = "constructor" then
    .error (.typeError "Class constructor ObjectACL cannot be invoked without 'new'")
  else .error (.typeError (method ++ " is not a function"))

def invoke (caller method : String) (args : List JsValue) : Except JsError (ObjectACL × Bool) :=
  if method = "grant" then acl.grant caller (args.headD .undefined) (args[1]?.getD .undefined)
  else if method = "revoke" then acl.revoke caller (args.headD .undefined) (args[1]?.getD .undefined)
  else if method = "setKey" then acl.setKey caller (args.headD .undefined)
  else (callOther method args).map fun _ => (acl, false)

/-- `callDRP` on the list. -/
def call (caller method : String) (value : JsValue) : Except JsError (ObjectACL × Bool) :=
  value.spread >>= acl.invoke caller method

def resolveOperations (mode : ACLConflictResolution) (left right : Operation) :
    Except JsError ActionType :=
  if left.opType = "setKey" ∨ right.opType = "setKey" then .ok .nop
  else if left.opType = right.opType then .ok .nop
  else do
    let leftTarget ← left.value.first
    let rightTarget ← right.value.first
    return if leftTarget.strictEquals rightTarget then
      mode.drops (left.opType = "grant") else .nop

def resolveConflicts (mode : ACLConflictResolution) : ResolveConflictFn :=
  resolveFirstTwo (resolveOperations mode)

end ObjectACL

def Operation.target (operation : Operation) : JsValue :=
  match operation.value.spread with
  | .ok args => args.headD .undefined
  | .error _ => .undefined

def Operation.group (operation : Operation) : Option ACLGroup :=
  match operation.value.spread with
  | .ok args => ACLGroup.ofValue (args[1]?.getD .undefined)
  | .error _ => none

namespace ObjectACL

section Membership

variable {acl : ObjectACL} {peerId : JsValue} {group other : ACLGroup} {peer : String}

theorem has_eq_true : acl.has peerId group = true ↔
    ∃ found, acl.get peerId = some found ∧ group ∈ found.permissions := by
  unfold has
  cases acl.get peerId <;> simp

section Modify

variable {change : PeerPermissions → PeerPermissions}

theorem find?_modify_self (entries : List (JsValue × PeerPermissions)) :
    (modify change (.string peer) entries).find? (fun entry => entry.1.sameValueZero (.string peer)) =
      (entries.find? fun entry => entry.1.sameValueZero (.string peer)).map
        fun entry => (entry.1, change entry.2) := by
  induction entries with
  | nil => rfl
  | cons entry rest ih =>
    rw [modify]
    split
    case isTrue same => simp [same]
    case isFalse different => simp [different, ih]

theorem find?_modify_of_ne (different : peerId ≠ .string peer)
    (entries : List (JsValue × PeerPermissions)) :
    (modify change peerId entries).find? (fun entry => entry.1.sameValueZero (.string peer)) =
      entries.find? fun entry => entry.1.sameValueZero (.string peer) := by
  induction entries with
  | nil => rfl
  | cons entry rest ih =>
    rw [modify]
    split
    case isTrue same =>
      have notPeer : entry.1.sameValueZero (.string peer) = false := by
        rw [Bool.eq_false_iff]
        intro isPeer
        rw [JsValue.sameValueZero_string_right isPeer] at same
        exact different (JsValue.sameValueZero_string_left same)
      simp [notPeer]
    case isFalse => rw [List.find?_cons, List.find?_cons, ih]

theorem has_modify_self :
    ({ acl with authorizedPeers := modify change (.string peer) acl.authorizedPeers } : ObjectACL).has
        (.string peer) group = true ↔
      ∃ found, acl.get (.string peer) = some found ∧ group ∈ (change found).permissions := by
  rw [has_eq_true, get, get, find?_modify_self]
  cases acl.authorizedPeers.find? (fun entry => entry.1.sameValueZero (.string peer)) <;> simp

theorem has_modify_of_ne (different : peerId ≠ .string peer) :
    ({ acl with authorizedPeers := modify change peerId acl.authorizedPeers } : ObjectACL).has
      (.string peer) group = acl.has (.string peer) group := by
  rw [has, has, get, get, find?_modify_of_ne different]

end Modify

theorem has_addPermission : (acl.addPermission peerId group).1.has (.string peer) other = true ↔
    acl.has (.string peer) other = true ∨ (peerId = .string peer ∧ other = group) := by
  unfold addPermission
  cases found : acl.get peerId with
  | none =>
    rw [has_eq_true, has_eq_true]
    simp only [get, List.find?_append]
    by_cases same : peerId = .string peer
    · subst same
      have absent := Option.map_eq_none_iff.mp found
      simp [absent, getPeerPermissions, JsValue.sameValueZero_string]
    · have notPeer : peerId.sameValueZero (.string peer) = false := by
        rw [Bool.eq_false_iff]
        exact fun isPeer => same (JsValue.sameValueZero_string_right isPeer)
      simp [same, notPeer]
  | some permissions =>
    by_cases same : peerId = .string peer
    · subst same
      rw [has_modify_self, has_eq_true]
      simp [found]
    · rw [has_modify_of_ne same]
      simp [same]

theorem has_deletePermission :
    (acl.deletePermission peerId group).1.has (.string peer) other = true ↔
      acl.has (.string peer) other = true ∧ ¬(peerId = .string peer ∧ other = group) := by
  unfold deletePermission
  by_cases same : peerId = .string peer
  · subst same
    rw [has_modify_self, has_eq_true]
    cases acl.get (.string peer) <;> simp
  · rw [has_modify_of_ne same]
    simp [same]

theorem has_setKey {key : JsValue} {caller : String} :
    ({ acl with
      authorizedPeers := modify (fun peer => { peer with blsPublicKey := key }) (.string caller)
        acl.authorizedPeers } : ObjectACL).has (.string peer) group = acl.has (.string peer) group := by
  by_cases same : caller = peer
  · subst same
    rw [Bool.eq_iff_iff, has_modify_self, has_eq_true]
  · exact has_modify_of_ne (by simpa using same)

end Membership

section Call

variable {acl next : ObjectACL} {caller : String} {operation : Operation} {changed : Bool}

theorem grant_eq_ok {peerId group : JsValue} {granted : ObjectACL × Bool} :
    acl.grant caller peerId group = .ok granted ↔
      acl.has (.string caller) .admin = true ∧ ∃ added, ACLGroup.ofValue group = some added ∧
        (added = .writer → acl.permissionless = false) ∧ acl.addPermission peerId added = granted := by
  unfold grant queryIsAdmin
  cases acl.has (.string caller) .admin with
  | false => simp
  | true =>
    rcases ACLGroup.ofValue group with _ | added
    · simp
    · cases added <;> cases acl.permissionless <;> simp

theorem revoke_eq_ok {peerId group : JsValue} {revoked : ObjectACL × Bool} :
    acl.revoke caller peerId group = .ok revoked ↔
      acl.has (.string caller) .admin = true ∧ acl.has peerId .admin = false ∧
        ∃ deleted, ACLGroup.ofValue group = some deleted ∧
          (if deleted = .admin then (acl, false) else acl.deletePermission peerId deleted) =
            revoked := by
  unfold revoke queryIsAdmin
  cases acl.has (.string caller) .admin with
  | false => simp
  | true =>
    cases acl.has peerId .admin with
    | true => simp
    | false =>
      rcases ACLGroup.ofValue group with _ | deleted
      · simp
      · cases deleted <;> simp

theorem setKey_eq_ok {key : JsValue} {set : ObjectACL × Bool} :
    acl.setKey caller key = .ok set ↔
      acl.has (.string caller) .finality = true ∧ ∃ found, acl.get (.string caller) = some found ∧
        ({ acl with
          authorizedPeers := modify (fun peer => { peer with blsPublicKey := key }) (.string caller)
            acl.authorizedPeers }, !found.blsPublicKey.deepEqual key) = set := by
  unfold setKey queryIsFinalitySigner
  cases signer : acl.has (.string caller) .finality with
  | false => simp
  | true =>
    rcases has_eq_true.mp signer with ⟨found, lookup, _⟩
    simp [lookup]

section

variable (called : acl.call caller operation.opType operation.value = .ok (next, changed))
include called

theorem call_cases : (operation.opType = "grant" ∧ acl.has (.string caller) .admin = true ∧
        ∃ group, operation.group = some group ∧ next = (acl.addPermission operation.target group).1) ∨
      (operation.opType = "revoke" ∧ acl.has (.string caller) .admin = true ∧
        acl.has operation.target .admin = false ∧ ∃ group, operation.group = some group ∧
          next = if group = .admin then acl else (acl.deletePermission operation.target group).1) ∨
      (operation.opType = "setKey" ∧ acl.has (.string caller) .finality = true ∧
        next = { acl with
          authorizedPeers := modify (fun peer => { peer with blsPublicKey := operation.target })
            (.string caller) acl.authorizedPeers }) ∨
      (operation.opType ≠ "grant" ∧ operation.opType ≠ "revoke" ∧ operation.opType ≠ "setKey" ∧
        next = acl) := by
  rcases Outcome.bind_eq_ok.mp called with ⟨args, spread, invoked⟩
  have target : operation.target = args.headD .undefined := by rw [Operation.target, spread]
  have group : operation.group = ACLGroup.ofValue (args[1]?.getD .undefined) := by
    rw [Operation.group, spread]
  rw [target, group]
  unfold invoke at invoked
  split at invoked
  case isTrue isGrant =>
    rcases grant_eq_ok.mp invoked with ⟨admin, added, isGroup, _, same⟩
    exact Or.inl ⟨isGrant, admin, added, isGroup, (congrArg Prod.fst same).symm⟩
  case isFalse notGrant =>
    split at invoked
    case isTrue isRevoke =>
      rcases revoke_eq_ok.mp invoked with ⟨admin, notAdmin, deleted, isGroup, same⟩
      have state := congrArg Prod.fst same
      rw [apply_ite Prod.fst] at state
      exact Or.inr (Or.inl ⟨isRevoke, admin, notAdmin, deleted, isGroup, state.symm⟩)
    case isFalse notRevoke =>
      split at invoked
      case isTrue isSetKey =>
        rcases setKey_eq_ok.mp invoked with ⟨signer, found, _, same⟩
        exact Or.inr (Or.inr (Or.inl ⟨isSetKey, signer, (congrArg Prod.fst same).symm⟩))
      case isFalse notSetKey =>
        rcases Outcome.map_eq_ok.mp invoked with ⟨_, _, same⟩
        cases same
        exact Or.inr (Or.inr (Or.inr ⟨notGrant, notRevoke, notSetKey, rfl⟩))

theorem permissionless_of_call : next.permissionless = acl.permissionless := by
  rcases call_cases called with ⟨_, _, group, _, rfl⟩ | ⟨_, _, _, group, _, rfl⟩ | ⟨_, _, rfl⟩ |
    ⟨_, _, _, rfl⟩
  · unfold addPermission
    split <;> rfl
  · split <;> rfl
  · rfl
  · rfl

theorem exists_call {other : ObjectACL} (mode : other.permissionless = acl.permissionless)
    (admin : operation.opType = "grant" ∨ operation.opType = "revoke" →
      other.has (.string caller) .admin = true)
    (notAdmin : operation.opType = "revoke" → other.has operation.target .admin = false)
    (signer : operation.opType = "setKey" → other.has (.string caller) .finality = true) :
    ∃ result, other.call caller operation.opType operation.value = .ok result := by
  rcases Outcome.bind_eq_ok.mp called with ⟨args, spread, invoked⟩
  have target : operation.target = args.headD .undefined := by rw [Operation.target, spread]
  rw [target] at notAdmin
  rw [call, spread, Outcome.ok_bind]
  unfold invoke at invoked ⊢
  split at invoked
  case isTrue isGrant =>
    rcases grant_eq_ok.mp invoked with ⟨_, added, isGroup, allowed, _⟩
    rw [if_pos isGrant]
    exact ⟨_, grant_eq_ok.mpr ⟨admin (Or.inl isGrant), added, isGroup,
      fun isWriter => mode.trans (allowed isWriter), rfl⟩⟩
  case isFalse notGrant =>
    rw [if_neg notGrant]
    split at invoked
    case isTrue isRevoke =>
      rcases revoke_eq_ok.mp invoked with ⟨_, _, deleted, isGroup, _⟩
      rw [if_pos isRevoke]
      exact ⟨_, revoke_eq_ok.mpr ⟨admin (Or.inr isRevoke), notAdmin isRevoke, deleted, isGroup, rfl⟩⟩
    case isFalse notRevoke =>
      rw [if_neg notRevoke]
      split at invoked
      case isTrue isSetKey =>
        rcases has_eq_true.mp (signer isSetKey) with ⟨found, lookup, _⟩
        rw [if_pos isSetKey]
        exact ⟨_, setKey_eq_ok.mpr ⟨signer isSetKey, found, lookup, rfl⟩⟩
      case isFalse notSetKey =>
        rcases Outcome.map_eq_ok.mp invoked with ⟨_, run, _⟩
        rw [if_neg notSetKey, run]
        exact ⟨_, rfl⟩

end

end Call

end ObjectACL

end TsDrp
