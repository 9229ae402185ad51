import TsDrp.Replication

/-!
# Which half of the object a vertex belongs to

The type of an operation is a string of its author's choice, and four places of
the code read it: the acceptance of a vertex with its permission check, the split
of a linearization for a replay, and the choice of the resolver and of its flag.
They agree on the two types that local calls produce and on no other: an unknown
type is accepted as an operation on the DRP and replayed on the ACL.
-/

namespace TsDrp

open ObjectCode

def GraphOptions.resolverOf (options : GraphOptions) : DrpType → Option ResolveConflictFn
  | .acl => options.resolveConflictsACL
  | .drp => options.resolveConflictsDRP

/--
Whatever the methods, the resolvers and the states: the vertex is accepted,
replayed and resolved as an operation on the given half.
-/
structure DispatchedTo (Drp Acl : Type) (vertex : Vertex) (half : DrpType) : Prop where
  accepted : ∀ (code : ObjectCode Drp Acl) (start : ReplayState Drp Acl) (linearized : List Vertex),
    code.stage start linearized vertex vertex.isACL =
      code.stage start linearized vertex (half = .acl)
  replayed : ∀ (code : ObjectCode Drp Acl) (state : ReplayState Drp Acl),
    code.replay state [vertex] = (code.applyFn state vertex (half = .acl)).map (·.1)
  split : ∀ vertices : List Vertex, vertex ∈ vertices →
    (vertex ∈ (splitOperation vertices).1 ↔ half = .drp) ∧
      (vertex ∈ (splitOperation vertices).2 ↔ half = .acl)
  resolved : ∀ (options : GraphOptions) (rest : List Vertex),
    options.resolveConflicts (vertex :: rest) =
      (options.resolverOf half).getD GraphOptions.resolveNoConflicts (vertex :: rest)
  flagged : ∀ options : GraphOptions,
    options.hasCustomConflictResolver vertex.drpType = (options.resolverOf half).isSome

section Dispatch

variable {Drp Acl : Type} {vertex : Vertex}

theorem dispatchedTo_of_text {operation : Operation} (found : vertex.operation = some operation)
    {half : DrpType} (type : operation.drpType = half.text) : DispatchedTo Drp Acl vertex half := by
  have drpType : vertex.drpType = some half.text := by rw [Vertex.drpType, found, ← type]; rfl
  refine ⟨fun code start linearized => ?_, fun code state => ?_, fun vertices mem => ?_,
    fun options rest => ?_, fun options => ?_⟩
  · cases half <;> simp [Vertex.isACL, drpType, DrpType.text]
  · cases half with
    | acl =>
      have split : splitOperation [vertex] = ([], [vertex]) := by
        simp [splitOperation, Vertex.isDRP, found, drpType, DrpType.text]
      simp only [replay, split, applyVertices, applyVertex, applyFn, found]
      cases code.callACL state.aclState vertex.peerId operation.opType operation.value <;> rfl
    | drp =>
      have split : splitOperation [vertex] = ([vertex], []) := by
        simp [splitOperation, Vertex.isDRP, found, drpType, DrpType.text]
      simp only [replay, split, applyVertices, applyVertex, applyFn, found]
      cases code.callDRP state.drpState vertex.peerId operation.opType operation.value <;> rfl
  · cases half <;> simp [splitOperation, Vertex.isDRP, found, drpType, mem, DrpType.text]
  · cases half <;>
      simp [GraphOptions.resolveConflicts, GraphOptions.resolverOf, drpType, DrpType.text]
  · cases half <;>
      simp [GraphOptions.hasCustomConflictResolver, GraphOptions.resolverOf, drpType, DrpType.text]

def onlyDRP (Drp Acl : Type) : ObjectCode Drp Acl where
  callDRP := fun state _ _ _ => .ok (state, true)
  callACL := fun _ _ _ _ => .error (.error "refused")
  isWriter := fun _ _ => true
  finalitySigners := fun _ => []

theorem not_dispatchedTo {operation : Operation} (found : vertex.operation = some operation)
    (unknown : ¬vertex.KnownType) (state : ReplayState Drp Acl) (half : DrpType) :
    ¬DispatchedTo Drp Acl vertex half := by
  intro dispatched
  rcases not_or.mp unknown with ⟨notACL, notDRP⟩
  have split : splitOperation [vertex] = ([], [vertex]) := by
    simp [splitOperation, Vertex.isDRP, found, notDRP]
  have accepted := dispatched.accepted (onlyDRP Drp Acl) state []
  have replayed := dispatched.replayed (onlyDRP Drp Acl) state
  cases half with
  | acl =>
    simp [stage, replay_nil, validateWriterPermission, applyFn, found, onlyDRP, notACL] at accepted
  | drp =>
    simp [replay, split, applyVertices, applyVertex, applyFn, found, onlyDRP] at replayed

variable {env : Environment Drp Acl} {applier next : DRPVertexApplier Drp Acl} {now : ℤ}

/--
A vertex accepted by the remote pipeline is executed, permission-checked,
replayed and resolved as an operation on one and the same half of the object
exactly if its type is one of the two that local calls produce.
-/
theorem dispatch_agrees_iff
    (accepted : applier.applyVertexPipeline env now vertex vertex.isACL = .ok next) :
    (∃ half, DispatchedTo Drp Acl vertex half) ↔ vertex.KnownType := by
  rcases DRPVertexApplier.applyVertexPipeline_eq_ok accepted with ⟨_, _, _, _, _, run, _⟩
  rcases exists_operation_of_stage run with ⟨operation, found⟩
  constructor
  · rintro ⟨half, dispatched⟩
    by_contra unknown
    exact not_dispatchedTo found unknown applier.live half dispatched
  · intro known
    have drpType : vertex.drpType = some operation.drpType := by rw [Vertex.drpType, found]; rfl
    rw [Vertex.KnownType, drpType, Option.some.injEq, Option.some.injEq] at known
    rcases known with isACL | isDRP
    · exact ⟨.acl, dispatchedTo_of_text found isACL⟩
    · exact ⟨.drp, dispatchedTo_of_text found isDRP⟩

end Dispatch

namespace DispatchExample

def environment : Environment (List String) (List String) where
  options := { semanticsTypeDRP := some .pair, resolveConflictsACL := none, resolveConflictsDRP := none }
  semantics := Option.some_ne_none _
  code := {
    callDRP := fun log _ method _ => .ok (log ++ [method], true)
    callACL := fun log _ method _ => .ok (log ++ [method], true)
    isWriter := fun _ _ => true
    finalitySigners := fun _ => [] }
  computeHash := NamedHash.namedHash [(("p", [HashGraph.rootHash]), "v")]
  fuel := 0

def replica : DRPVertexApplier (List String) (List String) := .create "r" 256 ⟨[], []⟩

def vertex (drpType : String) : Vertex where
  hash := "v"
  peerId := "p"
  operation := some { drpType, opType := "set", value := .array [] }
  dependencies := [HashGraph.rootHash]
  timestamp := 0

end DispatchExample

open DispatchExample in
theorem dispatch_agrees_drp : ∃ half, DispatchedTo (List String) (List String) (vertex "DRP") half := by
  have accepted : ∃ next, replica.applyVertexPipeline environment 0 (vertex "DRP")
      ((vertex "DRP").drpType = some "ACL") = .ok next := ⟨_, rfl⟩
  rcases accepted with ⟨next, accepted⟩
  exact (dispatch_agrees_iff accepted).mpr (Or.inr rfl)

open DispatchExample in
/--
A vertex of an unknown type is accepted by a merge: the snapshot it is accepted
with has the call on the DRP, the live object after the merge's replay has it on
the ACL.
-/
theorem unknown_type_is_replayed_elsewhere :
    (replica.applyVertices environment [(0, vertex "other")]).2 = .ok ⟨true, [], []⟩ ∧
    (replica.applyVertices environment [(0, vertex "other")]).1.states.drpStates "v" =
      some ["set"] ∧
    (replica.applyVertices environment [(0, vertex "other")]).1.states.aclStates "v" = some [] ∧
    (replica.applyVertices environment [(0, vertex "other")]).1.live = ⟨[], ["set"]⟩ := by
  refine ⟨?_, ?_, ?_, ?_⟩ <;> decide +kernel

end TsDrp
