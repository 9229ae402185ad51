import TsDrp.Acl.ObjectACL
import TsDrp.Applier.FullReplay
import TsDrp.Linearize.PairRestrict

/-!
# Replaying the operations of the access control list

After a replay a peer belongs to a group if its last grant is not followed by a
revocation, or if it belonged to the group before and nothing was revoked.  And
the conflicts of the list are of the kind that the scan decides once and for
all: what loses is always a grant, or always a revocation.
-/

namespace TsDrp

open HashGraph ACLConflictResolution

def Vertex.Does (vertex : Vertex) (method peer : String) (group : ACLGroup) : Prop :=
  ∃ operation, vertex.operation = some operation ∧ operation.opType = method ∧
    operation.target = .string peer ∧ operation.group = some group

/-- The vertex calls a method of the list about a peer. -/
def Vertex.Targets (vertex : Vertex) (method peer : String) : Prop :=
  ∃ operation, vertex.operation = some operation ∧ operation.opType = method ∧
    operation.target = .string peer

theorem Vertex.Does.targets {vertex : Vertex} {method peer : String} {group : ACLGroup}
    (does : vertex.Does method peer group) : vertex.Targets method peer := by
  rcases does with ⟨operation, found, isMethod, target, _⟩
  exact ⟨operation, found, isMethod, target⟩

def Vertex.Removes (vertex : Vertex) (peer : String) (group : ACLGroup) : Prop :=
  vertex.Does "revoke" peer group ∧ group ≠ .admin

namespace ObjectACL

variable {acl next : ObjectACL} {vertex : Vertex} {peer : String} {group : ACLGroup}

theorem has_applyVertex (applied : applyVertex ObjectACL.call acl vertex = .ok next) :
    next.has (.string peer) group = true ↔
      (acl.has (.string peer) group = true ∧ ¬vertex.Removes peer group) ∨
        vertex.Does "grant" peer group := by
  unfold applyVertex at applied
  split at applied
  case h_1 => cases applied
  case h_2 operation found =>
    have does : ∀ method group, vertex.Does method peer group ↔ operation.opType = method ∧
        operation.target = .string peer ∧ operation.group = some group := by
      intro method group
      simp [Vertex.Does, found]
    rcases Outcome.map_eq_ok.mp applied with ⟨⟨_, changed⟩, called, rfl⟩
    rw [Vertex.Removes, does, does]
    rcases call_cases called with ⟨isGrant, _, granted, isGroup, rfl⟩ |
      ⟨isRevoke, _, _, revoked, isGroup, rfl⟩ | ⟨isSetKey, _, rfl⟩ | ⟨notGrant, notRevoke, _, rfl⟩
    · rw [has_addPermission]
      simp [isGrant, isGroup, @eq_comm _ granted group]
    · split
      case isTrue isAdmin =>
        subst isAdmin
        simp only [isRevoke, isGroup, Option.some.injEq]
        constructor
        · intro has
          refine Or.inl ⟨has, ?_⟩
          rintro ⟨⟨_, _, rfl⟩, notAdmin⟩
          exact notAdmin rfl
        · rintro (⟨has, _⟩ | ⟨impossible, _⟩)
          · exact has
          · simp at impossible
      case isFalse notAdmin =>
        rw [has_deletePermission]
        simp only [isRevoke, isGroup, Option.some.injEq]
        constructor
        · rintro ⟨has, other⟩
          refine Or.inl ⟨has, ?_⟩
          rintro ⟨⟨_, isTarget, rfl⟩, _⟩
          exact other ⟨isTarget, rfl⟩
        · rintro (⟨has, other⟩ | ⟨impossible, _⟩)
          · refine ⟨has, ?_⟩
            rintro ⟨isTarget, rfl⟩
            exact other ⟨⟨trivial, isTarget, rfl⟩, notAdmin⟩
          · simp at impossible
    · rw [has_setKey]
      simp [isSetKey]
    · simp [notGrant, notRevoke]

theorem permissionless_applyVertex (applied : applyVertex ObjectACL.call acl vertex = .ok next) :
    next.permissionless = acl.permissionless := by
  unfold applyVertex at applied
  split at applied
  case h_1 => cases applied
  case h_2 operation found =>
    rcases Outcome.map_eq_ok.mp applied with ⟨⟨_, changed⟩, called, rfl⟩
    exact permissionless_of_call called

variable {vertices : List Vertex} {final : ObjectACL}

section

variable (run : applyVertices ObjectACL.call acl vertices = .ok final)
include run

theorem permissionless_applyVertices : final.permissionless = acl.permissionless := by
  induction vertices generalizing acl with
  | nil =>
    cases run
    rfl
  | cons vertex rest ih =>
    rcases Outcome.bind_eq_ok.mp run with ⟨next, applied, run⟩
    exact (ih run).trans (permissionless_applyVertex applied)

theorem has_applyVertices : final.has (.string peer) group = true ↔
      (acl.has (.string peer) group = true ∧ ∀ vertex ∈ vertices, ¬vertex.Removes peer group) ∨
        ∃ before vertex after, vertices = before ++ vertex :: after ∧
          vertex.Does "grant" peer group ∧ ∀ later ∈ after, ¬later.Removes peer group := by
  induction vertices generalizing acl with
  | nil =>
    cases run
    simp
  | cons vertex rest ih =>
    rcases Outcome.bind_eq_ok.mp run with ⟨next, applied, run⟩
    rw [ih run, has_applyVertex applied]
    constructor
    · rintro (⟨⟨has, notHere⟩ | granted, notLater⟩ | ⟨before, found, after, rfl, granted, notLater⟩)
      · exact Or.inl ⟨has, List.forall_mem_cons.mpr ⟨notHere, notLater⟩⟩
      · exact Or.inr ⟨[], vertex, rest, rfl, granted, notLater⟩
      · exact Or.inr ⟨vertex :: before, found, after, rfl, granted, notLater⟩
    · rintro (⟨has, never⟩ | ⟨before, found, after, shape, granted, notLater⟩)
      · rcases List.forall_mem_cons.mp never with ⟨notHere, notLater⟩
        exact Or.inl ⟨Or.inl ⟨has, notHere⟩, notLater⟩
      · rcases List.cons_eq_append_iff.mp shape with ⟨rfl, first⟩ | ⟨middle, rfl, later⟩
        · cases first
          exact Or.inl ⟨Or.inr granted, notLater⟩
        · exact Or.inr ⟨middle, found, after, later, granted, notLater⟩

theorem has_admin_applyVertices : final.has (.string peer) .admin = true ↔
      acl.has (.string peer) .admin = true ∨ ∃ vertex ∈ vertices, vertex.Does "grant" peer .admin := by
  rw [has_applyVertices run]
  have notRemoved : ∀ vertex : Vertex, ¬vertex.Removes peer .admin := fun _ removes => removes.2 rfl
  constructor
  · rintro (⟨has, _⟩ | ⟨before, vertex, after, rfl, granted, _⟩)
    · exact Or.inl has
    · exact Or.inr ⟨vertex, List.mem_append_right _ List.mem_cons_self, granted⟩
  · rintro (has | ⟨vertex, mem, granted⟩)
    · exact Or.inl ⟨has, fun vertex _ => notRemoved vertex⟩
    · rcases List.append_of_mem mem with ⟨before, after, rfl⟩
      exact Or.inr ⟨before, vertex, after, rfl, granted, fun later _ => notRemoved later⟩

end

end ObjectACL

/-- The object's access control list is an `ObjectACL`, with its resolver. -/
structure Environment.UsesObjectACL {Drp : Type} (env : Environment Drp ObjectACL)
    (mode : ACLConflictResolution) : Prop where
  call : env.code.callACL = ObjectACL.call
  isWriter : env.code.isWriter = fun acl peerId => acl.queryIsWriter (.string peerId)
  resolver : env.options.resolveConflictsACL = some (ObjectACL.resolveConflicts mode)

section Conflicts

def GraphOptions.answer (options : GraphOptions) (left right : Vertex) : Except JsError ActionType :=
  (options.resolveConflicts [left, right]).map (·.action)

/-- Whichever of the two comes first, the first argument is neither dropped nor moved. -/
structure GraphOptions.Spares (options : GraphOptions) (spared other : Vertex) : Prop where
  left : options.answer spared other ≠ .ok .dropLeft
  right : options.answer other spared ≠ .ok .dropRight
  leftSwap : options.answer spared other ≠ .ok .swap
  rightSwap : options.answer other spared ≠ .ok .swap

variable {options : GraphOptions} {mode : ACLConflictResolution} {left right : Vertex}
  {leftOperation rightOperation : Operation}

theorem answer_of_acl (resolver : options.resolveConflictsACL = some (ObjectACL.resolveConflicts mode))
    (leftFound : left.operation = some leftOperation) (rightFound : right.operation = some rightOperation)
    (isACL : leftOperation.drpType = "ACL") :
    options.answer left right = ObjectACL.resolveOperations mode leftOperation rightOperation := by
  have drpType : left.drpType = some "ACL" := by rw [Vertex.drpType, leftFound, ← isACL]; rfl
  rw [GraphOptions.answer, GraphOptions.resolveConflicts, if_pos drpType, resolver]
  simp only [Option.getD_some, ObjectACL.resolveConflicts, resolveFirstTwo, leftFound, rightFound]
  cases ObjectACL.resolveOperations mode leftOperation rightOperation <;> rfl

def ACLConflictResolution.loser : ACLConflictResolution → String
  | .grantWins => "revoke"
  | .revokeWins => "grant"

def ACLConflictResolution.winner : ACLConflictResolution → String
  | .grantWins => "grant"
  | .revokeWins => "revoke"

/-- The first operation is dropped when it is concurrent with the second. -/
def ACLConflictResolution.loses (mode : ACLConflictResolution) (left right : Operation) : Bool :=
  left.opType = mode.loser && right.opType = mode.winner && left.target.strictEquals right.target

/-- An operation that can write the list, with a peer for the target of a grant or a revocation. -/
structure Operation.Writes (operation : Operation) : Prop where
  method : operation.opType = "grant" ∨ operation.opType = "revoke" ∨ operation.opType = "setKey"
  named : operation.opType ≠ "setKey" → ∃ peer, operation.target = .string peer

theorem first_of_target {operation : Operation} {peer : String}
    (target : operation.target = .string peer) : operation.value.first = .ok (.string peer) := by
  unfold Operation.target at target
  split at target
  case h_1 args spread => rw [JsValue.first_of_spread spread, target]
  case h_2 => cases target

theorem resolveOperations_eq (leftWrites : leftOperation.Writes) (rightWrites : rightOperation.Writes) :
    ObjectACL.resolveOperations mode leftOperation rightOperation =
      .ok (if mode.loses leftOperation rightOperation then .dropLeft
        else if mode.loses rightOperation leftOperation then .dropRight else .nop) := by
  have loserWinner : mode.loser ≠ mode.winner := by cases mode <;> decide
  have notSetKey : mode.loser ≠ "setKey" ∧ mode.winner ≠ "setKey" := by cases mode <;> decide
  unfold ObjectACL.resolveOperations
  split
  case isTrue isSetKey =>
    rcases isSetKey with isSetKey | isSetKey <;>
      simp [loses, isSetKey, notSetKey.1.symm, notSetKey.2.symm]
  case isFalse notKey =>
    rcases not_or.mp notKey with ⟨leftNotKey, rightNotKey⟩
    rcases leftWrites.named leftNotKey with ⟨leftPeer, leftTarget⟩
    rcases rightWrites.named rightNotKey with ⟨rightPeer, rightTarget⟩
    split
    case isTrue same =>
      have none : ∀ first second : Operation, first.opType = second.opType →
          mode.loses first second = false := by
        intro first second same
        unfold loses
        by_cases isLoser : first.opType = mode.loser
        · simp [isLoser, ← same, loserWinner]
        · simp [isLoser]
      rw [none _ _ same, none _ _ same.symm]
      rfl
    case isFalse different =>
      rw [first_of_target leftTarget, first_of_target rightTarget]
      simp only [Outcome.ok_bind, Outcome.pure_eq_ok, JsValue.strictEquals_string]
      have leftMethod := leftWrites.method
      have rightMethod := rightWrites.method
      simp only [leftNotKey, rightNotKey, or_false] at leftMethod rightMethod
      rcases leftMethod with isGrant | isRevoke
      · have isRevoke := rightMethod.resolve_left fun isGrant' => different (isGrant.trans isGrant'.symm)
        cases mode <;> by_cases same : leftPeer = rightPeer <;>
          simp [loses, loser, winner,
            drops, isGrant, isRevoke, leftTarget, rightTarget,
            @eq_comm _ rightPeer leftPeer, same]
      · have isGrant := rightMethod.resolve_right fun isRevoke' =>
          different (isRevoke.trans isRevoke'.symm)
        cases mode <;> by_cases same : leftPeer = rightPeer <;>
          simp [loses, loser, winner,
            drops, isGrant, isRevoke, leftTarget, rightTarget,
            @eq_comm _ rightPeer leftPeer, same]

end Conflicts

namespace HashGraph

variable {options : GraphOptions} {graph : HashGraph} {members : List Hash} {chosen : Vertex → Bool}

def selects (graph : HashGraph) (chosen : Vertex → Bool) (hash : Hash) : Bool :=
  (graph.getVertex hash).any chosen

theorem selects_eq {hash : Hash} {vertex : Vertex} (found : graph.getVertex hash = some vertex) :
    graph.selects chosen hash = chosen vertex := by
  simp [selects, found]

theorem Past.exists_created (past : graph.Past members) {hash : Hash}
    (mem : hash ∈ members.filter (· ≠ rootHash)) :
    ∃ vertex ∈ graph.created, graph.getVertex hash = some vertex := by
  rcases List.mem_filter.mp mem with ⟨inMembers, notRoot⟩
  exact HashGraph.exists_created (past.present hash inMembers) (by simpa using notRoot)

theorem Past.created_of_linearizeVertices {fuel : ℕ} {vertices : List Vertex}
    (past : graph.Past members) (wellFormed : graph.WellFormed)
    (pair : options.semanticsTypeDRP = some .pair)
    (linearized : linearizeVertices options graph fuel rootHash members = .ok vertices)
    {vertex : Vertex} (mem : vertex ∈ vertices) : vertex ∈ graph.created := by
  have notRoot := past.ne_root_of_linearizeVertices wellFormed pair linearized mem
  have found := (past.mem_linearizeVertices wellFormed linearized mem).2
  exact List.mem_filter.mpr ⟨mem_of_getVertex found, by simpa using notRoot⟩

theorem pairAction_eq_answer {left right : Hash} {leftVertex rightVertex : Vertex}
    (leftFound : graph.getVertex left = some leftVertex)
    (rightFound : graph.getVertex right = some rightVertex) :
    pairAction options graph left right = options.answer leftVertex rightVertex := by
  simp only [pairAction, leftFound, rightFound, GraphOptions.answer]

theorem Past.spares (past : graph.Past members)
    (apart : ∀ vertex ∈ graph.created, ∀ other ∈ graph.created, chosen vertex = true →
      chosen other = false → graph.MayAsk options vertex.hash other.hash → options.Spares vertex other)
    (swapless : ∀ vertex ∈ graph.created, ∀ other ∈ graph.created, chosen vertex = true →
      chosen other = true → graph.MayAsk options vertex.hash other.hash →
        options.answer vertex other ≠ .ok .swap) :
    PairScan.Spares (graph.heard options) (graph.selects chosen)
      (members.filter (· ≠ rootHash)) := by
  refine ⟨fun hash mem other otherMem => ?_, fun hash mem other otherMem => ?_,
    fun hash mem other otherMem => ?_⟩
  all_goals
    rcases past.exists_created mem with ⟨vertex, vertexMem, vertexFound⟩
    rcases past.exists_created otherMem with ⟨otherVertex, otherVertexMem, otherFound⟩
    rw [selects_eq vertexFound]
    cases getVertex_hash vertexFound
    cases getVertex_hash otherFound
  · rw [selects_eq otherFound]
    intro isChosen notChosen
    refine heard_ne ActionType.noConfusion fun may => ?_
    rw [pairAction_eq_answer vertexFound otherFound]
    exact (apart vertex vertexMem otherVertex otherVertexMem isChosen notChosen may).left
  · rw [selects_eq otherFound]
    intro isChosen notChosen
    refine heard_ne ActionType.noConfusion fun may => ?_
    rw [pairAction_eq_answer otherFound vertexFound]
    exact (apart vertex vertexMem otherVertex otherVertexMem isChosen notChosen may.symm).right
  · intro isChosen
    refine ⟨heard_ne ActionType.noConfusion fun may => ?_,
      heard_ne ActionType.noConfusion fun may => ?_⟩
    · rw [pairAction_eq_answer vertexFound otherFound]
      cases otherChosen : chosen otherVertex with
      | true => exact swapless vertex vertexMem otherVertex otherVertexMem isChosen otherChosen may
      | false =>
        exact (apart vertex vertexMem otherVertex otherVertexMem isChosen otherChosen may).leftSwap
    · rw [pairAction_eq_answer otherFound vertexFound]
      cases otherChosen : chosen otherVertex with
      | true => exact swapless otherVertex otherVertexMem vertex vertexMem otherChosen isChosen may
      | false =>
        exact (apart vertex vertexMem otherVertex otherVertexMem isChosen otherChosen
          may.symm).rightSwap

end HashGraph

end TsDrp
