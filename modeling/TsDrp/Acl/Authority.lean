import TsDrp.Acl.ObjectACL
import TsDrp.Applier.HeldStates

/-!
# Where permissions come from

Whoever is listed with a group has it from the genesis or from a grant in the
graph, whose author is an admin of the genesis or was made one by a chain of
grants that starts there.  This is an invariant of the ACL states a replica
holds, because a grant only succeeds for a caller that is listed as an admin.  It
fails of the snapshot that a merge leaves behind when the finality store cannot
sort the signers: the grant that made one of them is not in the graph.
-/

namespace TsDrp

open HashGraph ObjectACL

def ObjectACL.Lists (acl : ObjectACL) (key : JsValue) (group : ACLGroup) : Prop :=
  ∃ peer, (key, peer) ∈ acl.authorizedPeers ∧ group ∈ peer.permissions

def Vertex.Grants (vertex : Vertex) (key : JsValue) (group : ACLGroup) : Prop :=
  ∃ operation, vertex.operation = some operation ∧ operation.drpType ≠ "DRP" ∧
    operation.opType = "grant" ∧ (key = operation.target ∨ key.sameValueZero operation.target = true) ∧
    operation.group = some group

/-- An admin of the genesis, or a peer that a chain of grants among the vertices leads to. -/
inductive Authority (genesis : ObjectACL) (vertices : List Vertex) : (peer : String) → Prop where
  | genesis {peer : String} (admin : genesis.Lists (.string peer) .admin) :
      Authority genesis vertices peer
  | granted {peer : String} {vertex : Vertex} (mem : vertex ∈ vertices)
      (grants : vertex.Grants (.string peer) .admin) (author : Authority genesis vertices vertex.peerId) :
      Authority genesis vertices peer

/-- The key has the group from the genesis or by a grant of somebody with authority. -/
def Entitled (genesis : ObjectACL) (vertices : List Vertex) (key : JsValue) (group : ACLGroup) : Prop :=
  genesis.Lists key group ∨
    ∃ vertex ∈ vertices, vertex.Grants key group ∧ Authority genesis vertices vertex.peerId

namespace ObjectACL

variable {acl : ObjectACL} {peerId key : JsValue} {group other : ACLGroup}

theorem lists_of_has {peer : String} (has : acl.has (.string peer) group = true) :
    acl.Lists (.string peer) group := by
  rcases has_eq_true.mp has with ⟨found, lookup, mem⟩
  rcases Option.map_eq_some_iff.mp lookup with ⟨entry, first, rfl⟩
  rcases entry with ⟨key, found⟩
  have isPeer := List.find?_some first
  obtain rfl : key = .string peer := JsValue.sameValueZero_string_right isPeer
  exact ⟨found, List.mem_of_find?_eq_some first, mem⟩

theorem mem_modify {change : PeerPermissions → PeerPermissions} {peer : PeerPermissions}
    {entries : List (JsValue × PeerPermissions)} (mem : (key, peer) ∈ modify change peerId entries) :
    (key, peer) ∈ entries ∨
      key.sameValueZero peerId = true ∧ ∃ old, (key, old) ∈ entries ∧ peer = change old := by
  induction entries with
  | nil => exact Or.inl mem
  | cons entry rest ih =>
    rw [modify] at mem
    split at mem
    case isTrue same =>
      rcases List.mem_cons.mp mem with isChanged | old
      · cases isChanged
        exact Or.inr ⟨same, entry.2, List.mem_cons_self, rfl⟩
      · exact Or.inl (.tail _ old)
    case isFalse =>
      rcases List.mem_cons.mp mem with rfl | later
      · exact Or.inl List.mem_cons_self
      · rcases ih later with old | ⟨same, old, oldMem, isChanged⟩
        · exact Or.inl (.tail _ old)
        · exact Or.inr ⟨same, old, .tail _ oldMem, isChanged⟩

theorem lists_of_modify {change : PeerPermissions → PeerPermissions}
    (shrinks : ∀ peer, (change peer).permissions ⊆ peer.permissions)
    (listed : ({ acl with authorizedPeers := modify change peerId acl.authorizedPeers } :
      ObjectACL).Lists key group) : acl.Lists key group := by
  rcases listed with ⟨peer, mem, hasGroup⟩
  rcases mem_modify mem with old | ⟨_, old, oldMem, rfl⟩
  · exact ⟨peer, old, hasGroup⟩
  · exact ⟨old, oldMem, shrinks old hasGroup⟩

theorem lists_of_addPermission (listed : (acl.addPermission peerId group).1.Lists key other) :
    acl.Lists key other ∨
      (key = peerId ∨ key.sameValueZero peerId = true) ∧ other = group := by
  rcases listed with ⟨peer, mem, hasGroup⟩
  unfold addPermission at mem
  split at mem
  · rcases List.mem_append.mp mem with old | new
    · exact Or.inl ⟨peer, old, hasGroup⟩
    · cases List.mem_singleton.mp new
      rcases PeerPermissions.mem_add.mp hasGroup with inNew | same
      · cases inNew
      · exact Or.inr ⟨Or.inl rfl, same⟩
  · rcases mem_modify mem with old | ⟨same, old, oldMem, rfl⟩
    · exact Or.inl ⟨peer, old, hasGroup⟩
    · rcases PeerPermissions.mem_add.mp hasGroup with inOld | isAdded
      · exact Or.inl ⟨old, oldMem, inOld⟩
      · exact Or.inr ⟨Or.inr same, isAdded⟩

end ObjectACL

section Authority

variable {genesis acl : ObjectACL} {vertices more : List Vertex} {key : JsValue} {group : ACLGroup}

theorem Authority.mono {peer : String} (authority : Authority genesis vertices peer)
    (subset : vertices ⊆ more) : Authority genesis more peer := by
  induction authority with
  | genesis admin => exact .genesis admin
  | granted mem grants _ ih => exact .granted (subset mem) grants ih

theorem Entitled.mono (entitled : Entitled genesis vertices key group) (subset : vertices ⊆ more) :
    Entitled genesis more key group := by
  rcases entitled with fromGenesis | ⟨vertex, mem, grants, author⟩
  · exact Or.inl fromGenesis
  · exact Or.inr ⟨vertex, subset mem, grants, author.mono subset⟩

def Lawful (genesis : ObjectACL) (vertices : List Vertex) (acl : ObjectACL) : Prop :=
  ∀ key group, acl.Lists key group → Entitled genesis vertices key group

theorem Lawful.authority (lawful : Lawful genesis vertices acl) {peer : String}
    (admin : acl.has (.string peer) .admin = true) : Authority genesis vertices peer := by
  rcases lawful _ _ (lists_of_has admin) with listed | ⟨vertex, mem, grants, author⟩
  · exact .genesis listed
  · exact .granted mem grants author

theorem Lawful.call (lawful : Lawful genesis vertices acl) {vertex : Vertex} {operation : Operation}
    (mem : vertex ∈ vertices) (found : vertex.operation = some operation)
    (notDRP : operation.drpType ≠ "DRP") {next : ObjectACL} {changed : Bool}
    (called : acl.call vertex.peerId operation.opType operation.value = .ok (next, changed)) :
    Lawful genesis vertices next := by
  intro key group listed
  rcases call_cases called with ⟨isGrant, admin, granted, isGroup, rfl⟩ |
    ⟨_, _, _, revoked, _, rfl⟩ | ⟨_, _, rfl⟩ | ⟨_, _, _, rfl⟩
  · rcases lists_of_addPermission listed with old | ⟨isTarget, rfl⟩
    · exact lawful key group old
    · exact Or.inr ⟨vertex, mem, ⟨operation, found, notDRP, isGrant, isTarget, isGroup⟩,
        lawful.authority admin⟩
  · split at listed
    · exact lawful key group listed
    · apply lawful key group
      apply lists_of_modify _ listed
      intro peer other inDeleted
      exact (PeerPermissions.mem_delete.mp inDeleted).1
  · apply lawful key group
    apply lists_of_modify _ listed
    exact fun _ _ inOld => inOld
  · exact lawful key group listed

end Authority

section Replica

variable {Drp : Type} {env : Environment Drp ObjectACL}

theorem aclInvariant_lawful (code : env.code.callACL = call) (genesis : ObjectACL) :
    ACLInvariant env (Lawful genesis) where
  mono := fun subset lawful key group listed => (lawful key group listed).mono subset
  call := by
    intro vertices vertex operation acl next changed mem found notDRP lawful called
    rw [code] at called
    exact lawful.call mem found notDRP called

/--
At any moment of any run, in the live object, the checkpoints and the snapshots
of the graph's vertices, whoever is listed with a group has it from the genesis or
by a grant in the graph whose author is an admin of the genesis or was reached from
one by a chain of grants.  In the snapshot of a vertex outside the graph the same
holds when that vertex, known by the hash of its content, is counted.
-/
theorem no_privilege_escalation (code : env.code.callACL = call)
    (binding : ContentBinding env.computeHash) {genesis : ReplayState Drp ObjectACL}
    {applier : DRPVertexApplier Drp ObjectACL} (reachable : applier.Reachable env genesis) :
    (∀ acl key group, applier.GraphACL acl → acl.Lists key group →
      Entitled genesis.aclState applier.hashGraph.vertices key group) ∧
    ∀ hash acl, applier.states.aclStates hash = some acl → hash ∉ applier.hashGraph.hashes →
      ∃ vertex : Vertex, vertex.hash = hash ∧ vertex.Hashed env.computeHash ∧
        ∀ key group, acl.Lists key group →
          Entitled genesis.aclState (applier.hashGraph.vertices ++ [vertex]) key group := by
  have kept := reachable.kept (aclInvariant_lawful code genesis.aclState) binding
    fun _ _ listed => Or.inl listed
  exact ⟨fun acl key group held listed => kept.held held key group listed,
    fun _ _ found absent => kept.outside found absent⟩

def ObjectACL.Retains (acl genesis : ObjectACL) : Prop :=
  acl.permissionless = genesis.permissionless ∧ ∀ peer group,
    genesis.has (.string peer) .admin = true → genesis.has (.string peer) group = true →
      acl.has (.string peer) group = true

theorem aclInvariant_retains (code : env.code.callACL = call) (genesis : ObjectACL) :
    ACLInvariant env fun _ acl => acl.Retains genesis where
  mono := fun _ retains => retains
  call := by
    intro _ _ operation acl next changed _ _ _ retains called
    rw [code] at called
    refine ⟨(permissionless_of_call called).trans retains.1, fun peer group admin has => ?_⟩
    have before := retains.2 peer group admin has
    rcases call_cases called with ⟨_, _, _, _, rfl⟩ | ⟨_, _, notAdmin, _, _, rfl⟩ |
      ⟨_, _, rfl⟩ | ⟨_, _, _, rfl⟩
    · exact has_addPermission.mpr (Or.inl before)
    · split
      · exact before
      · refine has_deletePermission.mpr ⟨before, ?_⟩
        rintro ⟨isTarget, _⟩
        rw [isTarget, retains.2 peer .admin admin admin] at notAdmin
        cases notAdmin
    · exact has_setKey.trans before
    · exact before

/--
No run takes from an admin of the genesis a group that the genesis gave, and none
changes whether everybody may write: not in the live object, and not in a snapshot
or a checkpoint.
-/
theorem genesis_admins_keep_groups (code : env.code.callACL = call)
    (binding : ContentBinding env.computeHash) {genesis : ReplayState Drp ObjectACL}
    {applier : DRPVertexApplier Drp ObjectACL} (reachable : applier.Reachable env genesis)
    {acl : ObjectACL} (held : applier.HeldACL acl) : acl.Retains genesis.aclState := by
  have kept := reachable.kept (aclInvariant_retains code genesis.aclState) binding
    ⟨rfl, fun _ _ _ has => has⟩
  cases held with
  | live => exact kept.held .live
  | @snapshot hash _ found =>
    by_cases present : hash ∈ applier.hashGraph.hashes
    · exact kept.held (.snapshot present found)
    · rcases kept.outside found present with ⟨_, _, _, retains⟩
      exact retains
  | checkpoint mem => exact kept.held (.checkpoint mem)

end Replica

namespace AclExample

def environment (mode : ACLConflictResolution) (names : List ((String × List Hash) × Hash)) :
    Environment (List String) ObjectACL where
  options := {
    semanticsTypeDRP := some .pair
    resolveConflictsACL := some (resolveConflicts mode)
    resolveConflictsDRP := none }
  semantics := Option.some_ne_none _
  code := {
    callDRP := fun log _ method _ => .ok (log ++ [method], true)
    callACL := call
    isWriter := fun acl peerId => acl.queryIsWriter (.string peerId)
    finalitySigners := queryGetFinalitySigners }
  computeHash := NamedHash.namedHash names
  fuel := 0

def vertex (hash peerId : String) (type : DrpType) (opType : String) (args : List String)
    (dependencies : List Hash) : Vertex where
  hash := hash
  peerId := peerId
  operation := some { drpType := type.text, opType, value := .array (args.map .string) }
  dependencies := dependencies
  timestamp := 0

def genesis : ReplayState (List String) ObjectACL := ⟨[], .create ["alice"] false none⟩

/-- The admin makes another one, who grants the right to write. -/
def chain : List Vertex :=
  [vertex "g" "alice" .acl "grant" ["bob", "ADMIN"] [rootHash],
    vertex "h" "bob" .acl "grant" ["carol", "WRITER"] ["g"]]

def textless : JsValue := .object [("toString", .number (.finite (.ofInt 1 Double.one_small)))]

def unsortable : Vertex where
  hash := "g"
  peerId := "alice"
  operation := some { drpType := "ACL", opType := "grant", value := .array [textless, .string "FINALITY"] }
  dependencies := [rootHash]
  timestamp := 0

def chainNames : List ((String × List Hash) × Hash) :=
  [(("alice", [rootHash]), "g"), (("bob", ["g"]), "h")]

def merged (names : List ((String × List Hash) × Hash)) (batch : List Vertex) :
    DRPVertexApplier (List String) ObjectACL × Except JsError ApplyResult :=
  (DRPVertexApplier.create "carol" 256 genesis).applyVertices (environment .revokeWins names)
    (batch.map fun vertex => (0, vertex))

theorem reachable_merged (names : List ((String × List Hash) × Hash)) (batch : List Vertex) :
    (merged names batch).1.Reachable (environment .revokeWins names) genesis :=
  DRPVertexApplier.Reachable.applyVertices ⟨"carol", 256, .refl⟩ _

end AclExample

open AclExample in
theorem no_privilege_escalation_chain :
    Entitled genesis.aclState (merged chainNames chain).1.hashGraph.vertices (.string "carol")
      .writer := by
  have binding : ContentBinding (NamedHash.namedHash chainNames) :=
    NamedHash.contentBinding_namedHash (by decide) (by decide +kernel)
  exact (no_privilege_escalation rfl binding (reachable_merged chainNames chain)).1 _ _ _ .live
    (lists_of_has (by decide +kernel))

open AclExample in
/--
The admin makes an object a signer whose own `toString` hides the method: the
snapshot of the grant lists the object, and the merge ends before the grant is
in the graph.
-/
theorem unsortable_signer_escapes_graph :
    (merged chainNames [unsortable]).2 = .error (.typeError "Cannot convert object to primitive value") ∧
    (merged chainNames [unsortable]).1.hashGraph.vertices = [rootVertex] ∧
    ∃ acl, (merged chainNames [unsortable]).1.states.aclStates "g" = some acl ∧ acl.Lists textless .finality ∧
      ¬Entitled genesis.aclState (merged chainNames [unsortable]).1.hashGraph.vertices textless .finality := by
  have outcome : (merged chainNames [unsortable]).2 =
      .error (.typeError "Cannot convert object to primitive value") ∧
    (merged chainNames [unsortable]).1.hashGraph.vertices = [rootVertex] := by decide +kernel
  have stored : (merged chainNames [unsortable]).1.states.aclStates "g" = some
      { genesis.aclState with authorizedPeers := genesis.aclState.authorizedPeers ++
        [(textless, ⟨.string "", [.finality]⟩)] } := rfl
  refine ⟨outcome.1, outcome.2, _, stored, ⟨_, List.mem_append_right _ List.mem_cons_self, by decide⟩, ?_⟩
  rw [outcome.2]
  rintro (⟨peer, mem, _⟩ | ⟨vertex, mem, ⟨operation, found, notDRP, isGrant, _⟩, _⟩)
  · cases List.mem_singleton.mp mem
  · cases List.mem_singleton.mp mem
    cases found
    revert isGrant
    decide

open AclExample in
theorem genesis_admins_keep_groups_chain :
    (merged chainNames chain).1.live.aclState.Retains genesis.aclState := by
  have binding : ContentBinding (NamedHash.namedHash chainNames) :=
    NamedHash.contentBinding_namedHash (by decide) (by decide +kernel)
  exact genesis_admins_keep_groups rfl binding (reachable_merged chainNames chain) .live

end TsDrp
