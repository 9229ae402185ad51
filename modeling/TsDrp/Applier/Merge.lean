import TsDrp.Applier.Pipeline

/-!
# Merging a batch of vertices

`applyVertices` runs the remote pipeline on the vertices of a batch one by one
and sorts those that fail validation into missing and invalid ones.  Missing
vertices all of whose unresolved dependencies turn out to be invalid are then
moved to the invalid ones.  At the end the frontier is replayed and becomes the
live object.  Any other exception ends the merge where it stands.
-/

namespace TsDrp

def maxKnownInvalidVertexHashes : ℕ := 10000

/-- The set as it was filled; the oldest entry makes room for a new one. -/
def rememberInvalidVertexHash (known : List Hash) (hash : Hash) : List Hash :=
  if hash ∈ known then known
  else if (known ++ [hash]).length ≤ maxKnownInvalidVertexHashes then known ++ [hash]
  else (known ++ [hash]).tail

structure ApplyResult where
  applied : Bool
  missing : List Hash
  invalid : List Hash
deriving DecidableEq

/-- The replica during a merge, with the merge's own variables. -/
structure Merging (Drp Acl : Type) where
  applier : DRPVertexApplier Drp Acl
  missing : List Hash
  invalid : List Hash
  missingVertices : Hash → Option Vertex
  batchInvalidVertexHashes : List Hash

def HashGraph.unresolvedDependencies (graph : HashGraph) (vertex : Vertex) : List Hash :=
  vertex.dependencies.filter fun dependency => !graph.has dependency

namespace DRPVertexApplier

variable {Drp Acl : Type} {env : Environment Drp Acl} {applier next : DRPVertexApplier Drp Acl}
  {vertex : Vertex} {state : ReplayState Drp Acl}

theorem finishVertex_eq_ok : applier.finishVertex env vertex state = .ok next ↔
    env.code.initializeFinalityStore state.aclState = .ok () ∧ next = applier.commit vertex state := by
  unfold finishVertex
  cases env.code.initializeFinalityStore state.aclState <;> simp [eq_comm]

theorem finishVertex_eq_error {thrown : Thrown Drp Acl} :
    applier.finishVertex env vertex state = .error thrown ↔
      env.code.initializeFinalityStore state.aclState = .error thrown.error ∧
        thrown.applier = applier.assignState vertex state := by
  rcases thrown with ⟨error, applier⟩
  unfold finishVertex
  cases env.code.initializeFinalityStore state.aclState <;> simp [eq_comm]

end DRPVertexApplier

namespace Merging

variable {Drp Acl : Type} (env : Environment Drp Acl) (merging : Merging Drp Acl)

def start (applier : DRPVertexApplier Drp Acl) : Merging Drp Acl where
  applier := applier
  missing := []
  invalid := []
  missingVertices := fun _ => none
  batchInvalidVertexHashes := []

/-- Vertices without an operation, roots and present vertices are passed over without a report. -/
def skips (vertex : Vertex) : Bool :=
  match vertex.operation with
  | none => true
  | some operation => operation.opType = "-1" || merging.applier.hashGraph.has vertex.hash

def hasGenuinelyMissingDependency (error : JsError) (vertex : Vertex) : Bool :=
  let unresolved := merging.applier.hashGraph.unresolvedDependencies vertex
  match error with
  | .invalidDependencies _ =>
    unresolved ≠ [] ∧ ¬∀ dependency ∈ unresolved,
      dependency ∈ merging.applier.knownInvalidVertexHashes
  | _ => false

def markMissing (vertex : Vertex) : Merging Drp Acl :=
  { merging with
    missing := merging.missing ++ [vertex.hash]
    missingVertices := Function.update merging.missingVertices vertex.hash (some vertex) }

def markInvalid (hash : Hash) : Merging Drp Acl :=
  { merging with
    invalid := merging.invalid ++ [hash]
    batchInvalidVertexHashes := merging.batchInvalidVertexHashes ++ [hash]
    applier := { merging.applier with
      knownInvalidVertexHashes :=
        rememberInvalidVertexHash merging.applier.knownInvalidVertexHashes hash } }

/-- The `catch` of the loop: what is no validation failure is raised again. -/
def catchError (vertex : Vertex) (error : JsError) : Except (Thrown Drp Acl) (Merging Drp Acl) :=
  if error.isValidationFailure then
    .ok (if merging.hasGenuinelyMissingDependency error vertex then merging.markMissing vertex
      else merging.markInvalid vertex.hash)
  else .error { error, applier := merging.applier }

/-- What becomes of a vertex once its pipeline has run on detached copies. -/
def settle (vertex : Vertex) (staged : Except JsError (ReplayState Drp Acl × Bool)) :
    Except (Thrown Drp Acl) (Merging Drp Acl) :=
  match staged with
  | .ok staged =>
    -- What the finality store raises is no validation failure.
    (merging.applier.finishVertex env vertex staged.1).map fun applier => { merging with applier }
  | .error error => merging.catchError vertex error

/-- The body of the loop over the batch, for a vertex the clock `now` is read for. -/
def applyOne (now : ℤ) (vertex : Vertex) : Except (Thrown Drp Acl) (Merging Drp Acl) :=
  if merging.skips vertex then .ok merging
  else merging.settle env vertex
    (merging.applier.stageVertex env now vertex vertex.isACL)

/-- The loop over the batch; each vertex comes with the clock read for it. -/
def applyEach : Merging Drp Acl → List (ℤ × Vertex) → Except (Thrown Drp Acl) (Merging Drp Acl)
  | merging, [] => .ok merging
  | merging, (now, vertex) :: rest =>
    merging.applyOne env now vertex >>= fun next => applyEach next rest

def isNewlyInvalid (hash : Hash) : Bool :=
  match merging.missingVertices hash with
  | none => false
  | some vertex =>
    let unresolved := merging.applier.hashGraph.unresolvedDependencies vertex
    unresolved ≠ [] ∧ ∀ dependency ∈ unresolved,
      dependency ∈ merging.applier.knownInvalidVertexHashes ∨
        dependency ∈ merging.batchInvalidVertexHashes

def reject (hash : Hash) : Merging Drp Acl :=
  { merging.markInvalid hash with
    missingVertices := Function.update merging.missingVertices hash none }

/-- One round: the newly invalid vertices are rejected together. -/
def rejectAll (newlyInvalid : List Hash) : Merging Drp Acl :=
  { newlyInvalid.foldl reject merging with
    missing := merging.missing.filter fun hash => hash ∉ newlyInvalid }

/-- The rounds that move missing vertices to the invalid ones, as many as are allowed. -/
def settleMissing : ℕ → Merging Drp Acl → Merging Drp Acl
  | 0, merging => merging
  | rounds + 1, merging =>
    let newlyInvalid := merging.missing.filter merging.isNewlyInvalid
    if newlyInvalid = [] then merging else settleMissing rounds (merging.rejectAll newlyInvalid)

def result : ApplyResult where
  applied := merging.missing.isEmpty && merging.invalid.isEmpty
  missing := merging.missing
  invalid := merging.invalid

variable {env merging}

theorem applyOne_cases {now : ℤ} {vertex : Vertex} {next : Merging Drp Acl}
    (applied : merging.applyOne env now vertex = .ok next) :
    (merging.skips vertex = true ∧ next = merging) ∨
      (merging.skips vertex = false ∧ ∃ staged,
        merging.applier.stageVertex env now vertex vertex.isACL = .ok staged ∧
        next = { merging with applier := merging.applier.commit vertex staged.1 }) ∨
      (merging.skips vertex = false ∧ ∃ error,
        merging.applier.stageVertex env now vertex vertex.isACL = .error error ∧
        error.isValidationFailure = true ∧
        next = if merging.hasGenuinelyMissingDependency error vertex then merging.markMissing vertex
          else merging.markInvalid vertex.hash) := by
  unfold applyOne at applied
  split at applied
  case isTrue skipped =>
    cases applied
    exact Or.inl ⟨skipped, rfl⟩
  case isFalse notSkipped =>
    rw [Bool.not_eq_true] at notSkipped
    cases staged : merging.applier.stageVertex env now vertex vertex.isACL with
    | ok staged' =>
      rw [staged] at applied
      rcases Outcome.map_eq_ok.mp applied with ⟨applier, finished, rfl⟩
      rw [DRPVertexApplier.finishVertex_eq_ok.mp finished |>.2]
      exact Or.inr (Or.inl ⟨notSkipped, staged', rfl, rfl⟩)
    | error error =>
      rw [staged] at applied
      unfold settle catchError at applied
      simp only at applied
      split at applied
      case isTrue failure =>
        cases applied
        exact Or.inr (Or.inr ⟨notSkipped, error, rfl, failure, rfl⟩)
      case isFalse => cases applied

theorem applyOne_eq_error {now : ℤ} {vertex : Vertex} {thrown : Thrown Drp Acl}
    (failed : merging.applyOne env now vertex = .error thrown) :
    merging.skips vertex = false ∧
      ((∃ error, merging.applier.stageVertex env now vertex vertex.isACL =
          .error error ∧ thrown = { error, applier := merging.applier }) ∨
        ∃ staged, merging.applier.stageVertex env now vertex vertex.isACL =
            .ok staged ∧
          env.code.initializeFinalityStore staged.1.aclState = .error thrown.error ∧
          thrown.applier = merging.applier.assignState vertex staged.1) := by
  unfold applyOne at failed
  split at failed
  case isTrue => cases failed
  case isFalse notSkipped =>
    refine ⟨by simpa using notSkipped, ?_⟩
    cases staged : merging.applier.stageVertex env now vertex vertex.isACL with
    | ok staged' =>
      rw [staged] at failed
      rcases DRPVertexApplier.finishVertex_eq_error.mp (Outcome.map_eq_error.mp failed) with ⟨init, same⟩
      exact Or.inr ⟨staged', rfl, init, same⟩
    | error error =>
      rw [staged] at failed
      unfold settle catchError at failed
      simp only at failed
      split at failed
      case isTrue => cases failed
      case isFalse =>
        cases failed
        exact Or.inl ⟨error, rfl, rfl⟩

theorem same_of_applyOne_eq_error {now : ℤ} {vertex : Vertex} {thrown : Thrown Drp Acl}
    (failed : merging.applyOne env now vertex = .error thrown) :
    thrown.applier.hashGraph = merging.applier.hashGraph ∧
      thrown.applier.knownInvalidVertexHashes = merging.applier.knownInvalidVertexHashes := by
  rcases applyOne_eq_error failed with ⟨_, ⟨_, _, rfl⟩ | ⟨_, _, _, same⟩⟩
  · exact ⟨rfl, rfl⟩
  · rw [same]
    exact ⟨rfl, rfl⟩

theorem notMem_of_not_skips {vertex : Vertex} (notSkipped : merging.skips vertex = false) :
    vertex.hash ∉ merging.applier.hashGraph.hashes := by
  unfold skips at notSkipped
  split at notSkipped
  · cases notSkipped
  · simpa [HashGraph.has] using (Bool.or_eq_false_iff.mp notSkipped).2

theorem applyEach_invariant {Holds : Merging Drp Acl → Prop} {batch : List (ℤ × Vertex)}
    (step : ∀ merging next entry, entry ∈ batch → Holds merging →
      merging.applyOne env entry.1 entry.2 = .ok next → Holds next)
    (start : Holds merging) :
    (∃ final, applyEach env merging batch = .ok final ∧ Holds final) ∨
      ∃ last thrown, applyEach env merging batch = .error thrown ∧ Holds last ∧
        ∃ entry ∈ batch, last.applyOne env entry.1 entry.2 = .error thrown := by
  induction batch generalizing merging with
  | nil => exact Or.inl ⟨merging, rfl, start⟩
  | cons entry rest ih =>
    rw [applyEach]
    cases applied : merging.applyOne env entry.1 entry.2 with
    | error thrown => exact Or.inr ⟨merging, thrown, rfl, start, entry, List.mem_cons_self, applied⟩
    | ok next =>
      rw [Outcome.ok_bind]
      rcases ih (fun merging next entry mem => step merging next entry (.tail _ mem))
        (step merging next entry List.mem_cons_self start applied) with
        returned | ⟨last, thrown, looped, held, failing, mem, failed⟩
      · exact Or.inl returned
      · exact Or.inr ⟨last, thrown, looped, held, failing, .tail _ mem, failed⟩

theorem applyEach_of_known {batch : List (ℤ × Vertex)}
    (known : ∀ entry ∈ batch, entry.2.hash ∈ merging.applier.hashGraph.hashes) :
    applyEach env merging batch = .ok merging := by
  induction batch with
  | nil => rfl
  | cons entry rest ih =>
    rw [List.forall_mem_cons] at known
    have skipped : merging.skips entry.2 = true := by
      unfold skips
      split
      · rfl
      · simp [HashGraph.has, known.1]
    rw [applyEach, applyOne, if_pos skipped]
    exact ih known.2

theorem exists_known_settleMissing (rounds : ℕ) (merging : Merging Drp Acl) :
    ∃ known, (settleMissing rounds merging).applier =
      { merging.applier with knownInvalidVertexHashes := known } := by
  have rejected : ∀ (hashes : List Hash) (merging : Merging Drp Acl),
      ∃ known, (hashes.foldl reject merging).applier =
        { merging.applier with knownInvalidVertexHashes := known } := by
    intro hashes
    induction hashes with
    | nil => exact fun merging => ⟨merging.applier.knownInvalidVertexHashes, rfl⟩
    | cons hash rest ih =>
      intro merging
      rcases ih (merging.reject hash) with ⟨known, same⟩
      exact ⟨known, same⟩
  induction rounds generalizing merging with
  | zero => exact ⟨merging.applier.knownInvalidVertexHashes, rfl⟩
  | succ rounds ih =>
    rw [settleMissing]
    split
    · exact ⟨merging.applier.knownInvalidVertexHashes, rfl⟩
    · rcases rejected (merging.missing.filter merging.isNewlyInvalid) merging with ⟨_, same⟩
      rcases ih (merging.rejectAll (merging.missing.filter merging.isNewlyInvalid)) with
        ⟨known, same'⟩
      refine ⟨known, same'.trans ?_⟩
      rw [rejectAll, same]

end Merging

namespace DRPVertexApplier

variable {Drp Acl : Type} (env : Environment Drp Acl) (applier : DRPVertexApplier Drp Acl)

/--
The frontier is replayed into the live object.  The ACL is written before the
DRP is replayed, so an exception of the DRP leaves a new ACL with an old DRP.
-/
def replayFrontier : Except (Thrown Drp Acl) (DRPVertexApplier Drp Acl) :=
  match applier.getReplay env applier.hashGraph.frontier with
  | .error error => .error { error, applier }
  | .ok replay =>
    let (drpVertices, aclVertices) := splitOperation replay.linearizedVertices
    match TsDrp.applyVertices env.code.callACL replay.state.aclState aclVertices with
    | .error error => .error { error, applier }
    | .ok aclState =>
      let applier := { applier with live := { applier.live with aclState } }
      match TsDrp.applyVertices env.code.callDRP replay.state.drpState drpVertices with
      | .error error => .error { error, applier }
      | .ok drpState => .ok { applier with live := { applier.live with drpState } }

/-- A merge without interruption, with the replica and the result it returns. -/
def mergeVertices (batch : List (ℤ × Vertex)) :
    Except (Thrown Drp Acl) (DRPVertexApplier Drp Acl × ApplyResult) := do
  let merging ← Merging.applyEach env (.start applier) batch
  let merging := merging.settleMissing batch.length
  let applier ← merging.applier.replayFrontier env
  return (applier.advanceCheckpointIfNeeded, merging.result)

/-- The replica after a merge, and what the call returned or raised. -/
def applyVertices (batch : List (ℤ × Vertex)) :
    DRPVertexApplier Drp Acl × Except JsError ApplyResult :=
  match applier.mergeVertices env batch with
  | .error thrown => (thrown.applier, .error thrown.error)
  | .ok (applier, result) => (applier, .ok result)

variable {env applier}

theorem replayFrontier_eq_ok {next : DRPVertexApplier Drp Acl} :
    applier.replayFrontier env = .ok next ↔
      ∃ state, (applier.getReplay env applier.hashGraph.frontier >>= fun replay =>
            env.code.replay replay.state replay.linearizedVertices) = .ok state ∧
        next = { applier with live := state } := by
  unfold replayFrontier
  cases applier.getReplay env applier.hashGraph.frontier with
  | error error => simp
  | ok replay =>
    simp only [Outcome.ok_bind, ObjectCode.replay]
    cases TsDrp.applyVertices env.code.callACL replay.state.aclState
        (splitOperation replay.linearizedVertices).2 with
    | error error => simp
    | ok aclState =>
      cases TsDrp.applyVertices env.code.callDRP replay.state.drpState
          (splitOperation replay.linearizedVertices).1 with
      | error error => simp
      | ok drpState => simp [eq_comm]

theorem replayFrontier_eq_error {thrown : Thrown Drp Acl}
    (failed : applier.replayFrontier env = .error thrown) :
    thrown.applier = applier ∨ ∃ replay aclState,
      applier.getReplay env applier.hashGraph.frontier = .ok replay ∧
      TsDrp.applyVertices env.code.callACL replay.state.aclState
        (splitOperation replay.linearizedVertices).2 = .ok aclState ∧
      thrown.applier = { applier with live := { applier.live with aclState } } := by
  unfold replayFrontier at failed
  cases found : applier.getReplay env applier.hashGraph.frontier with
  | error error =>
    rw [found] at failed
    cases failed
    exact Or.inl rfl
  | ok replay =>
    simp only [found] at failed
    cases aclRun : TsDrp.applyVertices env.code.callACL replay.state.aclState
        (splitOperation replay.linearizedVertices).2 with
    | error error =>
      simp only [aclRun] at failed
      cases failed
      exact Or.inl rfl
    | ok aclState =>
      simp only [aclRun] at failed
      split at failed
      · cases failed
        exact Or.inr ⟨replay, aclState, rfl, aclRun, rfl⟩
      · cases failed

theorem applyVertices_cases (env : Environment Drp Acl) (applier : DRPVertexApplier Drp Acl)
    (batch : List (ℤ × Vertex)) :
    (∃ thrown, Merging.applyEach env (.start applier) batch = .error thrown ∧
        applier.applyVertices env batch = (thrown.applier, .error thrown.error)) ∨
      ∃ merging, Merging.applyEach env (.start applier) batch = .ok merging ∧
        ((∃ thrown,
            (merging.settleMissing batch.length).applier.replayFrontier env = .error thrown ∧
            applier.applyVertices env batch = (thrown.applier, .error thrown.error)) ∨
          ∃ next, (merging.settleMissing batch.length).applier.replayFrontier env = .ok next ∧
            applier.applyVertices env batch =
              (next.advanceCheckpointIfNeeded, .ok (merging.settleMissing batch.length).result)) := by
  unfold applyVertices mergeVertices
  cases looped : Merging.applyEach env (.start applier) batch with
  | error thrown => exact Or.inl ⟨thrown, rfl, rfl⟩
  | ok merging =>
    refine Or.inr ⟨merging, rfl, ?_⟩
    simp only [Outcome.ok_bind]
    cases (merging.settleMissing batch.length).applier.replayFrontier env with
    | error thrown => exact Or.inl ⟨thrown, rfl, rfl⟩
    | ok next => exact Or.inr ⟨next, rfl, rfl⟩

theorem applyVertices_eq_ok {batch : List (ℤ × Vertex)} {result : ApplyResult}
    (returned : (applier.applyVertices env batch).2 = .ok result) :
    ∃ merging next, Merging.applyEach env (.start applier) batch = .ok merging ∧
      (merging.settleMissing batch.length).applier.replayFrontier env = .ok next ∧
      (applier.applyVertices env batch).1 = next.advanceCheckpointIfNeeded ∧
      result = (merging.settleMissing batch.length).result := by
  rcases applyVertices_cases env applier batch with
    ⟨thrown, _, run⟩ | ⟨merging, looped, ⟨thrown, _, run⟩ | ⟨next, replayed, run⟩⟩
  · rw [run] at returned
    cases returned
  · rw [run] at returned
    cases returned
  · rw [run] at returned ⊢
    cases returned
    exact ⟨merging, next, looped, replayed, rfl, rfl⟩

end DRPVertexApplier

end TsDrp
