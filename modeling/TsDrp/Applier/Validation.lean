import TsDrp.HashGraph.Growth
import TsDrp.Library.Outcome

/-!
# Validating a vertex

The checks a vertex passes before anything is executed: its hash, its
dependencies, and its timestamp against the dependencies and against the clock.
The first check that fails decides the error.
-/

namespace TsDrp

/-- `computeHash` of a peer, an operation, dependencies and a timestamp. -/
abbrev ComputeHash := String → Option Operation → List Hash → ℤ → Hash

def futureToleranceMs : ℤ := 60000

abbrev Vertex.Hashed (computeHash : ComputeHash) (vertex : Vertex) : Prop :=
  vertex.hash = computeHash vertex.peerId vertex.operation vertex.dependencies vertex.timestamp

def validateVertexHash (computeHash : ComputeHash) (vertex : Vertex) : Except JsError Unit :=
  if vertex.hash = computeHash vertex.peerId vertex.operation vertex.dependencies vertex.timestamp then
    .ok ()
  else .error (.invalidHash ("Invalid hash for vertex " ++ vertex.hash))

def validateVertexTimestamp (a b : ℤ) (hash : Hash) : Except JsError Unit :=
  if futureToleranceMs < a - b then
    .error (.invalidTimestamp ("Vertex " ++ hash ++ " has invalid timestamp " ++ toString a ++ " - " ++
      toString b ++ " = " ++ toString (a - b) ++ " > " ++ toString futureToleranceMs))
  else .ok ()

/-- The body of the loop of `validateVertexDependencies`. -/
def validateDependency (vertex : Vertex) (graph : HashGraph) (dependency : Hash) :
    Except JsError Unit :=
  match graph.getVertex dependency with
  | none => .error (.invalidDependencies
      ("Vertex " ++ vertex.hash ++ " has invalid dependency " ++ dependency ++ "."))
  | some depVertex => validateVertexTimestamp depVertex.timestamp vertex.timestamp vertex.hash

def validateVertexDependencies (vertex : Vertex) (graph : HashGraph) : Except JsError Unit :=
  if vertex.dependencies = [] then
    .error (.invalidDependencies ("Vertex " ++ vertex.hash ++ " has no dependencies."))
  else forM vertex.dependencies (validateDependency vertex graph)

/-- The error of the validation result is raised by the caller. -/
def validateVertex (computeHash : ComputeHash) (vertex : Vertex) (graph : HashGraph)
    (currentTimeStamp : ℤ) (skipHashValidation : Bool) : Except JsError Unit := do
  if skipHashValidation then pure () else validateVertexHash computeHash vertex
  validateVertexDependencies vertex graph
  validateVertexTimestamp vertex.timestamp currentTimeStamp vertex.hash

/-- `instanceof` one of the three validation errors. -/
def JsError.isValidationFailure : JsError → Bool
  | invalidHash _ | invalidDependencies _ | invalidTimestamp _ => true
  | _ => false

section Validation

variable {computeHash : ComputeHash} {vertex : Vertex} {graph : HashGraph} {now : ℤ}

theorem validateVertexHash_eq_ok :
    validateVertexHash computeHash vertex = .ok () ↔ vertex.Hashed computeHash := by
  unfold validateVertexHash
  split <;> simp_all [Vertex.Hashed]

theorem validateVertexTimestamp_eq_ok {a b : ℤ} {hash : Hash} :
    validateVertexTimestamp a b hash = .ok () ↔ a - b ≤ futureToleranceMs := by
  unfold validateVertexTimestamp
  split
  · simp only [reduceCtorEq, false_iff]
    omega
  · simp only [true_iff]
    omega

theorem validateDependency_eq_ok {dependency : Hash} :
    validateDependency vertex graph dependency = .ok () ↔
      ∃ depVertex, graph.getVertex dependency = some depVertex ∧
        depVertex.timestamp - vertex.timestamp ≤ futureToleranceMs := by
  unfold validateDependency
  cases graph.getVertex dependency with
  | none => simp
  | some depVertex => simp [validateVertexTimestamp_eq_ok]

theorem validateVertex_eq_ok {skipHashValidation : Bool} :
    validateVertex computeHash vertex graph now skipHashValidation = .ok () ↔
      (skipHashValidation = true ∨ vertex.Hashed computeHash) ∧ vertex.dependencies ≠ [] ∧
      (∀ dependency ∈ vertex.dependencies, ∃ depVertex,
        graph.getVertex dependency = some depVertex ∧
          depVertex.timestamp - vertex.timestamp ≤ futureToleranceMs) ∧
      vertex.timestamp - now ≤ futureToleranceMs := by
  have dependencies : validateVertexDependencies vertex graph = .ok () ↔
      vertex.dependencies ≠ [] ∧ ∀ dependency ∈ vertex.dependencies, ∃ depVertex,
        graph.getVertex dependency = some depVertex ∧
          depVertex.timestamp - vertex.timestamp ≤ futureToleranceMs := by
    unfold validateVertexDependencies
    split
    case isTrue empty => simp [empty]
    case isFalse nonempty =>
      simp only [Outcome.forM_eq_ok, validateDependency_eq_ok, ne_eq, nonempty, not_false_eq_true,
        true_and]
  unfold validateVertex
  cases skipHashValidation with
  | false =>
    simp only [Bool.false_eq_true, if_false, Outcome.then_eq_ok, dependencies,
      validateVertexHash_eq_ok, validateVertexTimestamp_eq_ok, false_or, and_assoc]
  | true =>
    simp only [if_true, Outcome.then_eq_ok, dependencies,
      validateVertexTimestamp_eq_ok, true_or, true_and, and_assoc]

theorem isValidationFailure_of_timestamp {a b : ℤ} {hash : Hash} {error : JsError}
    (failed : validateVertexTimestamp a b hash = .error error) : error.isValidationFailure = true := by
  unfold validateVertexTimestamp at failed
  split at failed
  · cases failed
    rfl
  · cases failed

theorem isValidationFailure_of_validateVertex {skipHashValidation : Bool} {error : JsError}
    (failed : validateVertex computeHash vertex graph now skipHashValidation = .error error) :
    error.isValidationFailure = true := by
  have behindHash : (validateVertexDependencies vertex graph >>= fun _ =>
      validateVertexTimestamp vertex.timestamp now vertex.hash) = .error error →
        error.isValidationFailure = true := by
    intro failed
    rcases Outcome.bind_eq_error.mp failed with dependencies | ⟨_, _, timestamp⟩
    · unfold validateVertexDependencies at dependencies
      split at dependencies
      · cases dependencies
        rfl
      · rcases Outcome.exists_of_forM_eq_error dependencies with ⟨dependency, _, failed⟩
        unfold validateDependency at failed
        split at failed
        · cases failed
          rfl
        · exact isValidationFailure_of_timestamp failed
    · exact isValidationFailure_of_timestamp timestamp
  unfold validateVertex at failed
  cases skipHashValidation with
  | true => exact behindHash failed
  | false =>
    rcases Outcome.bind_eq_error.mp failed with hash | ⟨_, _, failed⟩
    · unfold validateVertexHash at hash
      split at hash
      · cases hash
      · cases hash
        rfl
    · exact behindHash failed

theorem hashed_of_validateVertex (valid : validateVertex computeHash vertex graph now false = .ok ()) :
    vertex.Hashed computeHash :=
  (validateVertex_eq_ok.mp valid).1.resolve_left Bool.false_ne_true

theorem present_of_validateVertex {skipHashValidation : Bool}
    (valid : validateVertex computeHash vertex graph now skipHashValidation = .ok ()) :
    ∀ dependency ∈ vertex.dependencies, dependency ∈ graph.hashes := by
  intro dependency mem
  rcases (validateVertex_eq_ok.mp valid).2.2.1 dependency mem with ⟨depVertex, found, _⟩
  exact HashGraph.getVertex_isSome_iff.mp (by rw [found]; rfl)

end Validation

end TsDrp
