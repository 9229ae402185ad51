import TsDrp.Applier.Pipeline

/-!
# What the pipelines raise

Behind its validation a pipeline runs the linearizer, the conflict resolvers and
the methods of the object.  The exceptions of the linearizer and of the writer
check are plain errors; all others are those of the resolvers and the methods.
-/

namespace TsDrp

open MultipleScan

open Outcome (FailsOnlyWith)

section Linearization

variable {allowed : JsError → Prop} (plain : ∀ message, allowed (.error message))
  (diverges : allowed .diverges)

include plain diverges

variable {options : GraphOptions}
  (resolvers : ∀ vertices, FailsOnlyWith allowed (options.resolveConflicts vertices))

include resolvers

omit plain in
theorem failsOnlyWith_pairOrder (graph : HashGraph) (fuel : ℕ) (origin : Hash) (order : List Hash) :
    FailsOnlyWith allowed (pairOrder options graph fuel origin order) := by
  have answers (left right : Hash) : FailsOnlyWith allowed (pairAction options graph left right) := by
    unfold pairAction
    split
    · exact (resolvers _).map _
    · exact .ok _
  have sweeps (causality : LegacyCausalityMatrix) (anchor : Hash) (later : List Slot) :
      FailsOnlyWith allowed
        (PairScan.sweep (pairAction options graph) causality anchor later) := by
    induction later with
    | nil => exact .ok _
    | cons slot rest ih =>
      rw [PairScan.sweep]
      split
      · exact ih.map _
      · apply (answers _ _).bind
        intro answer _
        cases answer with
        | nop => exact ih.map _
        | dropLeft => exact .ok _
        | dropRight => exact ih.map _
        | swap => exact .ok _
        | drop => exact ih.map _
  have scans (fuel : ℕ) : ∀ (causality : LegacyCausalityMatrix) (anchor : Hash)
      (seen later : List Slot), FailsOnlyWith allowed
        (PairScan.scanAnchor (pairAction options graph) fuel causality anchor seen later) := by
    induction fuel using Nat.strong_induction_on with
    | h fuel ih =>
      intro causality anchor seen later
      unfold PairScan.scanAnchor
      apply (sweeps _ _ _).bind
      intro outcome _
      cases outcome with
      | finished dropped later => exact .ok _
      | swapped moving later =>
        cases fuel with
        | zero => exact .error diverges
        | succ fuel => exact ih fuel fuel.lt_succ_self _ _ _ _
  have loops (count : ℕ) : ∀ (causality : LegacyCausalityMatrix) (slots : List Slot),
      FailsOnlyWith allowed
        (PairScan.loop (pairAction options graph) fuel origin count causality slots) := by
    induction count with
    | zero => exact fun _ _ => .ok _
    | succ count ih =>
      intro causality slots
      cases slots with
      | nil => exact .ok _
      | cons slot later =>
        rw [PairScan.loop]
        split
        · exact ih _ _
        · apply (scans _ _ _ _ _).bind
          intro scanned _
          apply (ih _ _).bind
          exact fun rest _ => .ok _
  unfold pairOrder
  split
  · exact loops _ _ _
  · exact .ok _

omit plain in
theorem failsOnlyWith_multipleOrder (graph : HashGraph) (fuel : ℕ) (origin : Hash)
    (order : List Hash) :
    FailsOnlyWith allowed (multipleOrder options graph fuel origin order) := by
  have advances (causality : LegacyCausalityMatrix) (anchor : IndexedSlot)
      (todo : List IndexedSlot) : ∀ indices : Hash → Option ℕ, FailsOnlyWith allowed
        (advance (multipleAction options graph) causality anchor indices todo) := by
    induction todo with
    | nil => exact fun _ => .ok _
    | cons slot rest ih =>
      intro indices
      rw [advance]
      split
      · exact (ih _).map _
      · apply (resolvers _).bind
        intro answer _
        split
        · exact (ih _).map _
        · exact .ok _
  have scans (fuel : ℕ) : ∀ (causality : LegacyCausalityMatrix) (anchor : IndexedSlot)
      (indices : Hash → Option ℕ) (seen todo : List IndexedSlot), FailsOnlyWith allowed
        (scanAnchor (multipleAction options graph) causality fuel anchor indices seen
          todo) := by
    induction fuel using Nat.strong_induction_on with
    | h fuel ih =>
      intro causality anchor indices seen todo
      unfold scanAnchor
      apply (advances _ _ _ _).bind
      intro round _
      cases round with
      | finished indices => exact .ok _
      | stopped indices answer passed todo =>
        dsimp only
        split
        · exact .ok _
        · cases fuel with
          | zero => exact .error diverges
          | succ fuel => exact ih fuel fuel.lt_succ_self _ _ _ _ _
  have loops (causality : LegacyCausalityMatrix) (count : ℕ) :
      ∀ (indices : Hash → Option ℕ) (slots : List IndexedSlot), FailsOnlyWith allowed
        (loop (multipleAction options graph) causality fuel origin count indices
          slots) := by
    induction count with
    | zero => exact fun _ _ => .ok _
    | succ count ih =>
      intro indices slots
      cases slots with
      | nil => exact .ok _
      | cons slot later =>
        rw [loop]
        split
        · exact ih _ _
        · apply (scans _ _ _ _ _ _).bind
          intro scanned _
          apply (ih _ _).bind
          exact fun rest _ => .ok _
  unfold multipleOrder
  split
  · exact loops _ _ _ _
  · exact .ok _

theorem failsOnlyWith_linearizeVertices (graph : HashGraph) (fuel : ℕ) (origin : Hash)
    (subgraph : List Hash) :
    FailsOnlyWith allowed (linearizeVertices options graph fuel origin subgraph) := by
  unfold linearizeVertices
  split
  · apply (HashGraph.failsOnlyWith_dfs plain graph origin subgraph).bind
    intro order _
    apply (failsOnlyWith_pairOrder diverges resolvers graph fuel origin order).bind
    exact fun kept _ => .ok _
  · apply (HashGraph.failsOnlyWith_dfs plain graph origin subgraph).bind
    intro order _
    apply (failsOnlyWith_multipleOrder diverges resolvers graph fuel origin order).bind
    exact fun kept _ => .ok _
  · exact .ok _

theorem failsOnlyWith_getReplay {Drp Acl : Type} (graph : HashGraph) (fuel : ℕ)
    (checkpoints : List (LinearizationCheckpoint Drp Acl)) (dependencies : List Hash) :
    FailsOnlyWith allowed (getReplay options graph fuel checkpoints dependencies) := by
  unfold getReplay
  induction checkpoints.reverse with
  | nil => exact .error (plain _)
  | cons checkpoint rest ih =>
    rw [getReplayFrom]
    split
    · split
      · exact ih
      · exact (failsOnlyWith_linearizeVertices plain diverges resolvers _ _ _ _).map _
    · exact ih

end Linearization

section Methods

variable {allowed : JsError → Prop} (plain : ∀ message, allowed (.error message))

include plain

theorem failsOnlyWith_applyVertices {State : Type}
    {call : State → String → String → JsValue → Except JsError (State × Bool)}
    (calls : ∀ state caller method value, FailsOnlyWith allowed (call state caller method value))
    (state : State) (vertices : List Vertex) :
    FailsOnlyWith allowed (applyVertices call state vertices) := by
  induction vertices generalizing state with
  | nil => exact .ok _
  | cons vertex rest ih =>
    rw [applyVertices]
    refine FailsOnlyWith.bind ?_ fun next _ => ih next
    unfold applyVertex
    split
    · exact .error (plain _)
    · exact (calls _ _ _ _).map _

variable {Drp Acl : Type} {code : ObjectCode Drp Acl}
  (acl : ∀ state caller method value, FailsOnlyWith allowed (code.callACL state caller method value))
  (drp : ∀ state caller method value, FailsOnlyWith allowed (code.callDRP state caller method value))

include acl drp

theorem failsOnlyWith_stage (start : ReplayState Drp Acl) (linearizedVertices : List Vertex)
    (vertex : Vertex) (isACL : Bool) :
    FailsOnlyWith allowed (code.stage start linearizedVertices vertex isACL) := by
  have replayed : FailsOnlyWith allowed (code.replay start linearizedVertices) := by
    have aclRun := failsOnlyWith_applyVertices plain acl start.aclState
      (splitOperation linearizedVertices).2
    unfold ObjectCode.replay
    split
    case h_1 error failed => exact .error (aclRun error failed)
    case h_2 => exact (failsOnlyWith_applyVertices plain drp _ _).map _
  apply replayed.bind
  intro state _
  refine FailsOnlyWith.bind ?_ fun _ _ => ?_
  · unfold ObjectCode.validateWriterPermission
    split
    · exact .ok _
    · split
      · exact .ok _
      · exact .error (plain _)
  · unfold ObjectCode.applyFn
    split
    · exact .error (plain _)
    · split
      · exact (acl _ _ _ _).map _
      · exact (drp _ _ _ _).map _

end Methods

theorem failsOnlyWith_getLCA {Drp Acl : Type} {env : Environment Drp Acl} {allowed : JsError → Prop}
    (plain : ∀ message, allowed (.error message)) (diverges : allowed .diverges)
    (resolvers : ∀ vertices, FailsOnlyWith allowed (env.options.resolveConflicts vertices))
    (applier : DRPVertexApplier Drp Acl) (vertex : Vertex) :
    FailsOnlyWith allowed (applier.getLCA env vertex) := by
  have replayed := (failsOnlyWith_getReplay plain diverges resolvers applier.hashGraph env.fuel
    applier.checkpoints vertex.dependencies).map
      fun replay => (replay.state, replay.linearizedVertices)
  unfold DRPVertexApplier.getLCA
  dsimp only
  split
  case h_1 dependency _ =>
    split
    case isTrue both =>
      rcases Option.isSome_iff_exists.mp both.1 with ⟨drpState, drp⟩
      rcases Option.isSome_iff_exists.mp both.2 with ⟨aclState, acl⟩
      simp only [DRPObjectStateManager.fromHash, drp, acl]
      exact .ok _
    case isFalse => exact replayed
  case h_2 => exact replayed

/-- The methods and the resolvers of the object raise only exceptions that are allowed. -/
structure Environment.RaisesOnly {Drp Acl : Type} (env : Environment Drp Acl)
    (allowed : JsError → Prop) : Prop where
  acl : ∀ state caller method value, FailsOnlyWith allowed
    (env.code.callACL state caller method value)
  drp : ∀ state caller method value, FailsOnlyWith allowed
    (env.code.callDRP state caller method value)
  resolvers : ∀ vertices, FailsOnlyWith allowed (env.options.resolveConflicts vertices)

/-- None is one of the validation. -/
abbrev Environment.KeepsToItself {Drp Acl : Type} (env : Environment Drp Acl) : Prop :=
  env.RaisesOnly (·.isValidationFailure = false)

theorem Environment.KeepsToItself.validateVertex_eq_error {Drp Acl : Type}
    {env : Environment Drp Acl} (keeps : env.KeepsToItself) {applier : DRPVertexApplier Drp Acl}
    {now : ℤ} {vertex : Vertex} {isACL : Bool} {error : JsError}
    (failed : applier.stageVertex env now vertex isACL = .error error)
    (failure : error.isValidationFailure = true) :
    validateVertex env.computeHash vertex applier.hashGraph now false = .error error := by
  have lca : FailsOnlyWith (·.isValidationFailure = false) (applier.getLCA env vertex) := by
    apply failsOnlyWith_getLCA _ _ keeps.resolvers
    · exact fun _ => rfl
    · rfl
  rcases Outcome.bind_eq_error.mp failed with here | ⟨_, _, later⟩
  · exact here
  · have behind : error.isValidationFailure = false := by
      refine lca.bind (fun found _ => ?_) error later
      apply failsOnlyWith_stage _ keeps.acl keeps.drp
      exact fun _ => rfl
    rw [failure] at behind
    cases behind

end TsDrp
