import TsDrp.Linearize.Vertices

/-!
# Replaying operations

An object is a DRP and an ACL with the code of their methods.  Replaying a list
of vertices runs the ACL operations first and the DRP operations after them,
each list in order.
-/

namespace TsDrp

/--
The methods of the two halves of an object, called by name with the caller in
the context and a clone of the arguments.  A call returns the new state and
whether the tracked object has changed.  An object without a DRP is one whose
DRP calls do nothing.
-/
structure ObjectCode (Drp Acl : Type) where
  callDRP : Drp → (caller method : String) → JsValue → Except JsError (Drp × Bool)
  callACL : Acl → (caller method : String) → JsValue → Except JsError (Acl × Bool)
  /-- `query_isWriter` -/
  isWriter : Acl → (peerId : String) → Bool
  /-- `query_getFinalitySigners`, with the keys of the signers. -/
  finalitySigners : Acl → List (JsValue × JsValue)

@[ext]
structure ReplayState (Drp Acl : Type) where
  drpState : Drp
  aclState : Acl
deriving DecidableEq

section ApplyVertices

variable {State : Type} (call : State → String → String → JsValue → Except JsError (State × Bool))

def applyVertex (state : State) (vertex : Vertex) : Except JsError State :=
  match vertex.operation with
  | none => .error (.error "Operation is undefined")
  | some operation =>
    (call state vertex.peerId operation.opType operation.value).map (·.1)

/-- `processSequentially`, which stops at the first exception. -/
def applyVertices : State → List Vertex → Except JsError State
  | state, [] => .ok state
  | state, vertex :: rest => applyVertex call state vertex >>= fun state => applyVertices state rest

@[simp]
theorem applyVertices_nil (state : State) : applyVertices call state [] = .ok state := rfl

theorem applyVertices_append (state : State) (first second : List Vertex) :
    applyVertices call state (first ++ second) =
      (applyVertices call state first >>= fun state => applyVertices call state second) := by
  induction first generalizing state with
  | nil => rfl
  | cons vertex rest ih =>
    rw [List.cons_append, applyVertices, applyVertices]
    cases applyVertex call state vertex with
    | error error => rfl
    | ok next => exact ih next

end ApplyVertices

/-- The value of `isACL` that a remote vertex is handled with. -/
abbrev Vertex.isACL (vertex : Vertex) : Bool := vertex.drpType = some "ACL"

/-- Whether `splitOperation` sends an operation to the DRP; any other type goes to the ACL. -/
def Vertex.isDRP (vertex : Vertex) : Bool := vertex.drpType = some "DRP"

def splitOperation (vertices : List Vertex) : List Vertex × List Vertex :=
  let operations := vertices.filter (·.operation.isSome)
  (operations.filter (·.isDRP), operations.filter (!·.isDRP))

theorem mem_splitOperation_acl {vertices : List Vertex} {vertex : Vertex} :
    vertex ∈ (splitOperation vertices).2 ↔ vertex ∈ vertices ∧
      ∃ operation, vertex.operation = some operation ∧ operation.drpType ≠ "DRP" := by
  simp only [splitOperation, List.mem_filter, Vertex.isDRP, and_assoc, Bool.not_eq_eq_eq_not,
    Bool.not_true, decide_eq_false_iff_not]
  apply and_congr_right
  intro _
  rw [Vertex.drpType]
  cases vertex.operation <;> simp

theorem filter_splitOperation_acl (vertices : List Vertex) (chosen : Vertex → Bool) :
    (splitOperation vertices).2.filter chosen = (splitOperation (vertices.filter chosen)).2 := by
  simp only [splitOperation, List.filter_filter]
  apply List.filter_congr
  intro vertex _
  cases chosen vertex <;> simp

theorem splitOperation_append (first second : List Vertex) :
    splitOperation (first ++ second) =
      ((splitOperation first).1 ++ (splitOperation second).1,
        (splitOperation first).2 ++ (splitOperation second).2) := by
  simp [splitOperation]

namespace ObjectCode

variable {Drp Acl : Type} (code : ObjectCode Drp Acl)

/-- The ACL operations of a linearization, and then its DRP operations. -/
def replay (state : ReplayState Drp Acl) (vertices : List Vertex) :
    Except JsError (ReplayState Drp Acl) :=
  match applyVertices code.callACL state.aclState (splitOperation vertices).2 with
  | .error error => .error error
  | .ok aclState =>
    (applyVertices code.callDRP state.drpState (splitOperation vertices).1).map fun drpState =>
      { drpState, aclState }

theorem replay_nil (state : ReplayState Drp Acl) : code.replay state [] = .ok state := rfl

theorem replay_eq_ok {state final : ReplayState Drp Acl} {vertices : List Vertex} :
    code.replay state vertices = .ok final ↔
      applyVertices code.callACL state.aclState (splitOperation vertices).2 = .ok final.aclState ∧
        applyVertices code.callDRP state.drpState (splitOperation vertices).1 =
          .ok final.drpState := by
  unfold replay
  cases applyVertices code.callACL state.aclState (splitOperation vertices).2 with
  | error error => simp
  | ok aclState =>
    cases applyVertices code.callDRP state.drpState (splitOperation vertices).1 with
    | error error => simp
    | ok drpState =>
      simp only [Outcome.map_ok, Except.ok.injEq]
      constructor
      · rintro rfl
        exact ⟨rfl, rfl⟩
      · rintro ⟨sameACL, sameDRP⟩
        exact ReplayState.ext sameDRP sameACL

theorem replay_append {state middle : ReplayState Drp Acl} {first : List Vertex}
    (replayed : code.replay state first = .ok middle) (second : List Vertex) :
    code.replay state (first ++ second) = code.replay middle second := by
  obtain ⟨aclReplayed, drpReplayed⟩ := (code.replay_eq_ok).mp replayed
  unfold replay
  rw [splitOperation_append, applyVertices_append, applyVertices_append, aclReplayed, drpReplayed]
  rfl

end ObjectCode

end TsDrp
