import TsDrp.Applier.FullReplay
import TsDrp.Applier.Merge

/-!
# What a replica has recorded

A replica is recorded when every snapshot and every checkpoint holds the replay
of its own past, and consistent when the live object is the replay of the
frontier as well.  The remote pipeline keeps the record; a local call and a
merge that returns keep or restore consistency.
-/

namespace TsDrp

open HashGraph Outcome

def Vertex.KnownType (vertex : Vertex) : Prop :=
  vertex.drpType = some "ACL" ∨ vertex.drpType = some "DRP"

namespace ObjectCode

variable {Drp Acl : Type} {code : ObjectCode Drp Acl}

theorem validateWriterPermission_eq_ok {acl : Acl} {vertex : Vertex} {isACL : Bool} :
    code.validateWriterPermission acl vertex isACL = .ok () ↔
      isACL = true ∨ code.isWriter acl vertex.peerId = true := by
  unfold validateWriterPermission
  cases isACL <;> cases code.isWriter acl vertex.peerId <;> simp

section

variable {start : ReplayState Drp Acl} {linearizedVertices : List Vertex} {vertex : Vertex}
  {isACL : Bool} {staged : ReplayState Drp Acl × Bool}

theorem stage_eq_ok : code.stage start linearizedVertices vertex isACL = .ok staged ↔
      ∃ state, code.replay start linearizedVertices = .ok state ∧
        (isACL = true ∨ code.isWriter state.aclState vertex.peerId = true) ∧
        code.applyFn state vertex isACL = .ok staged := by
  unfold stage
  rw [bind_eq_ok]
  apply exists_congr
  intro state
  rw [then_eq_ok, validateWriterPermission_eq_ok]

theorem exists_operation_of_stage
    (run : code.stage start linearizedVertices vertex isACL = .ok staged) :
    ∃ operation, vertex.operation = some operation := by
  rcases stage_eq_ok.mp run with ⟨_, _, _, applied⟩
  cases found : vertex.operation with
  | none =>
    rw [applyFn, found] at applied
    cases applied
  | some operation => exact ⟨operation, rfl⟩

end

theorem replay_of_applyFn {state next : ReplayState Drp Acl} {vertex : Vertex} {changed : Bool}
    (known : vertex.KnownType)
    (applied : code.applyFn state vertex vertex.isACL = .ok (next, changed)) :
    code.replay state [vertex] = .ok next := by
  rw [code.replay_eq_ok]
  cases operation : vertex.operation with
  | none =>
    rw [applyFn, operation] at applied
    cases applied
  | some operation' =>
    have type : vertex.drpType = some operation'.drpType := by rw [Vertex.drpType, operation]; rfl
    rw [applyFn, operation] at applied
    rcases known with isACL | isDRP
    · have split : splitOperation [vertex] = ([], [vertex]) := by
        simp [splitOperation, Vertex.isDRP, operation, isACL]
      simp only [Vertex.isACL, isACL, decide_true, if_true] at applied
      rcases map_eq_ok.mp applied with ⟨called, run, same⟩
      cases same
      simp [split, applyVertices, applyVertex, operation, run]
    · have split : splitOperation [vertex] = ([vertex], []) := by
        simp [splitOperation, Vertex.isDRP, operation, isDRP]
      have notACL : vertex.isACL = false := by simp [isDRP]
      simp only [notACL, Bool.false_eq_true, if_false] at applied
      rcases map_eq_ok.mp applied with ⟨called, run, same⟩
      cases same
      simp [split, applyVertices, applyVertex, operation, run]

end ObjectCode

namespace LinearizationCheckpoint

variable {Drp Acl : Type} {env : Environment Drp Acl} {genesis : ReplayState Drp Acl}
  {checkpoint : LinearizationCheckpoint Drp Acl}

theorem Baked.of_extends {graph after : HashGraph}
    (baked : checkpoint.Baked env.options env.code genesis env.fuel graph)
    (wellFormed : graph.WellFormed) (extends_ : Extends graph after) :
    checkpoint.Baked env.options env.code genesis env.fuel after := by
  rcases baked.taken with ⟨earlier, grown, upTo, sameFrontier, sameOrigin⟩
  refine ⟨⟨earlier, grown, upTo.trans extends_, sameFrontier, sameOrigin⟩, ?_⟩
  have same := env.replayOf_within genesis (.of_extends extends_) wellFormed
    (wellFormed.of_extends extends_) (List.ne_nil_of_mem baked.cut.originMem) baked.cut.present
  exact same.symm.trans baked.baked

end LinearizationCheckpoint

namespace DRPVertexApplier

variable {Drp Acl : Type} {env : Environment Drp Acl} {genesis : ReplayState Drp Acl}
  {applier : DRPVertexApplier Drp Acl}

theorem applyVertexPipeline_eq_ok {now : ℤ} {vertex : Vertex} {isACL : Bool}
    {next : DRPVertexApplier Drp Acl}
    (accepted : applier.applyVertexPipeline env now vertex isACL = .ok next) :
    ∃ start linearizedVertices staged,
      validateVertex env.computeHash vertex applier.hashGraph now false = .ok () ∧
      applier.getLCA env vertex = .ok (start, linearizedVertices) ∧
      env.code.stage start linearizedVertices vertex isACL = .ok staged ∧
      next = applier.commit vertex staged.1 := by
  unfold applyVertexPipeline at accepted
  split at accepted
  case h_1 => cases accepted
  case h_2 staged run =>
    rcases then_eq_ok.mp run with ⟨valid, run⟩
    rcases bind_eq_ok.mp run with ⟨⟨start, linearizedVertices⟩, found, run⟩
    exact ⟨start, linearizedVertices, staged, valid, found, run, (finishVertex_eq_ok.mp accepted).2⟩

/-- Snapshots of vertices that are not in the graph are never read. -/
structure Recorded (env : Environment Drp Acl) (genesis : ReplayState Drp Acl)
    (applier : DRPVertexApplier Drp Acl) : Prop where
  grown : applier.hashGraph.Grown
  root : applier.checkpoints.head? = some (.root genesis)
  baked : ∀ checkpoint ∈ applier.checkpoints,
    checkpoint.Baked env.options env.code genesis env.fuel applier.hashGraph
  snapshots : ∀ hash ∈ applier.hashGraph.hashes, ∀ drpState aclState,
    applier.states.drpStates hash = some drpState → applier.states.aclStates hash = some aclState →
      env.replayOf genesis applier.hashGraph [hash] = .ok { drpState, aclState }

theorem Recorded.of_same (recorded : applier.Recorded env genesis)
    {other : DRPVertexApplier Drp Acl} (hashGraph : other.hashGraph = applier.hashGraph)
    (checkpoints : other.checkpoints = applier.checkpoints)
    (states : other.states = applier.states) : other.Recorded env genesis := by
  refine ⟨hashGraph ▸ recorded.grown, checkpoints ▸ recorded.root, ?_, ?_⟩
  · rw [hashGraph, checkpoints]
    exact recorded.baked
  · rw [hashGraph, states]
    exact recorded.snapshots

/-- Moreover the live object is the replay of the frontier. -/
structure Consistent (env : Environment Drp Acl) (genesis : ReplayState Drp Acl)
    (applier : DRPVertexApplier Drp Acl) : Prop extends Recorded env genesis applier where
  live : env.replayOf genesis applier.hashGraph applier.hashGraph.frontier = .ok applier.live

theorem Recorded.root_mem (recorded : applier.Recorded env genesis) :
    .root genesis ∈ applier.checkpoints :=
  List.mem_of_head? recorded.root

theorem consistent_create (env : Environment Drp Acl) (genesis : ReplayState Drp Acl)
    (peerId : String) (checkpointSuffixSize : ℕ) :
    (create peerId checkpointSuffixSize genesis).Consistent env genesis := by
  have replayed := env.replayOf_root genesis initial_wellFormed
  refine ⟨⟨.refl, rfl, fun checkpoint mem => ?_, fun hash _ drpState aclState drp acl => ?_⟩, replayed⟩
  · cases List.mem_singleton.mp mem
    exact ⟨⟨.initial, .refl, .refl, rfl, rfl⟩, replayed⟩
  · simp only [create, DRPObjectStateManager.create] at drp acl
    split at drp
    case isTrue isRoot =>
      rw [if_pos isRoot] at acl
      cases drp
      cases acl
      subst isRoot
      exact replayed
    case isFalse => cases drp

section

variable (recorded : applier.Recorded env genesis)
  (swaps : env.options.SwapsAreFinal applier.hashGraph)
include recorded swaps

theorem Recorded.getReplay_replay {dependencies : List Hash} (nonempty : dependencies ≠ [])
    (present : ∀ hash ∈ dependencies, hash ∈ applier.hashGraph.hashes) :
    (applier.getReplay env dependencies >>= fun replay =>
        env.code.replay replay.state replay.linearizedVertices) =
      env.replayOf genesis applier.hashGraph dependencies := by
  have wellFormed := recorded.grown.wellFormed
  apply TsDrp.getReplay_replay wellFormed nonempty present recorded.root_mem recorded.baked
  intro checkpoint mem
  have cut := (recorded.baked checkpoint mem).cut
  exact swaps.swapsSettle wellFormed (List.ne_nil_of_mem cut.originMem) cut.present

theorem Recorded.getLCA_replay {vertex : Vertex} (nonempty : vertex.dependencies ≠ [])
    (present : ∀ hash ∈ vertex.dependencies, hash ∈ applier.hashGraph.hashes) :
    (applier.getLCA env vertex >>= fun found => env.code.replay found.1 found.2) =
      env.replayOf genesis applier.hashGraph vertex.dependencies := by
  have replayed : ((applier.getReplay env vertex.dependencies).map fun replay =>
      (replay.state, replay.linearizedVertices)) >>= (fun found => env.code.replay found.1 found.2) =
      env.replayOf genesis applier.hashGraph vertex.dependencies := by
    rw [← recorded.getReplay_replay swaps nonempty present]
    cases applier.getReplay env vertex.dependencies <;> rfl
  unfold getLCA
  simp only
  split
  case h_2 => exact replayed
  case h_1 dependency single =>
    split
    case isFalse => exact replayed
    case isTrue both =>
      rcases Option.isSome_iff_exists.mp both.1 with ⟨drpState, drp⟩
      rcases Option.isSome_iff_exists.mp both.2 with ⟨aclState, acl⟩
      have mem : dependency ∈ applier.hashGraph.hashes := present dependency (by simp [single])
      rw [single, recorded.snapshots dependency mem drpState aclState drp acl]
      simp only [DRPObjectStateManager.fromHash, drp, acl]
      rfl

end

section Commit

variable {vertex : Vertex} {state : ReplayState Drp Acl}

theorem Recorded.commit (recorded : applier.Recorded env genesis)
    (admissible : applier.hashGraph.Admissible vertex)
    (replayed : env.replayOf genesis (applier.hashGraph.addVertex vertex) [vertex.hash] = .ok state) :
    (applier.commit vertex state).Recorded env genesis := by
  have wellFormed := recorded.grown.wellFormed
  have extends_ : Extends applier.hashGraph (applier.hashGraph.addVertex vertex) :=
    .single ⟨vertex, admissible, rfl⟩
  refine ⟨recorded.grown.trans extends_, recorded.root, fun checkpoint mem => ?_,
    fun hash mem drpState aclState drp acl => ?_⟩
  · exact (recorded.baked checkpoint mem).of_extends wellFormed extends_
  · simp only [DRPVertexApplier.commit, DRPObjectStateManager.setStates] at mem drp acl ⊢
    by_cases same : hash = vertex.hash
    · subst same
      rw [Function.update_self] at drp acl
      cases drp
      cases acl
      exact replayed
    · rw [Function.update_of_ne same] at drp acl
      have present : hash ∈ applier.hashGraph.hashes := by
        simpa [hashes_addVertex admissible.fresh, same] using mem
      rw [← recorded.snapshots hash present drpState aclState drp acl]
      exact (env.replayOf_within genesis (Within.of_extends extends_) wellFormed
        (wellFormed.addVertex admissible) (List.cons_ne_nil _ _) (by simpa using present)).symm

theorem Recorded.assignState (recorded : applier.Recorded env genesis)
    (fresh : vertex.hash ∉ applier.hashGraph.hashes) :
    (applier.assignState vertex state).Recorded env genesis := by
  refine ⟨recorded.grown, recorded.root, recorded.baked, fun hash mem drpState aclState drp acl => ?_⟩
  have different : hash ≠ vertex.hash := fun same => fresh (same ▸ mem)
  simp only [DRPVertexApplier.assignState, DRPObjectStateManager.setStates,
    Function.update_of_ne different] at drp acl
  exact recorded.snapshots hash mem drpState aclState drp acl

theorem Recorded.replayOf_stageVertex (recorded : applier.Recorded env genesis)
    (admissible : applier.hashGraph.Admissible vertex) (known : vertex.KnownType)
    (swaps : env.options.SwapsAreFinal (applier.hashGraph.addVertex vertex)) {now : ℤ}
    {changed : Bool}
    (staged : applier.stageVertex env now vertex vertex.isACL =
      .ok (state, changed)) :
    env.replayOf genesis (applier.hashGraph.addVertex vertex) [vertex.hash] = .ok state := by
  have wellFormed := recorded.grown.wellFormed
  have within : applier.hashGraph.Within (applier.hashGraph.addVertex vertex) :=
    .of_extends (.single ⟨vertex, admissible, rfl⟩)
  rcases then_eq_ok.mp staged with ⟨_, staged⟩
  rcases bind_eq_ok.mp staged with ⟨⟨start, linearizedVertices⟩, found, staged⟩
  rcases ObjectCode.stage_eq_ok.mp staged with ⟨base, replayed, _, applied⟩
  have lca := recorded.getLCA_replay
    (swaps.of_within within wellFormed (wellFormed.addVertex admissible)) admissible.nonempty
    admissible.present
  rw [found, ok_bind, replayed] at lca
  rw [env.replayOf_addVertex genesis wellFormed admissible swaps lca.symm]
  exact ObjectCode.replay_of_applyFn known applied

end Commit

section AdvanceCheckpoint

@[simp]
theorem hashGraph_advanceCheckpointIfNeeded :
    applier.advanceCheckpointIfNeeded.hashGraph = applier.hashGraph := by
  unfold advanceCheckpointIfNeeded
  split <;> rfl

@[simp]
theorem live_advanceCheckpointIfNeeded :
    applier.advanceCheckpointIfNeeded.live = applier.live := by
  unfold advanceCheckpointIfNeeded
  split <;> rfl

@[simp]
theorem peerId_advanceCheckpointIfNeeded :
    applier.advanceCheckpointIfNeeded.peerId = applier.peerId := by
  unfold advanceCheckpointIfNeeded
  split <;> rfl

theorem Consistent.advanceCheckpointIfNeeded (consistent : applier.Consistent env genesis) :
    applier.advanceCheckpointIfNeeded.Consistent env genesis := by
  have wellFormed := consistent.grown.wellFormed
  unfold DRPVertexApplier.advanceCheckpointIfNeeded
  split
  · exact consistent
  · refine ⟨⟨consistent.grown, head?_pushCheckpoint consistent.root, fun checkpoint mem => ?_,
      fun hash mem drpState aclState drp acl => ?_⟩, consistent.live⟩
    · rcases mem_of_mem_pushCheckpoint mem with old | rfl
      · exact consistent.baked checkpoint old
      · exact ⟨⟨applier.hashGraph, consistent.grown, .refl, rfl, rfl⟩, consistent.live⟩
    · simp only [pruneSnapshots, DRPObjectStateManager.prune, Option.ite_none_right_eq_some] at drp acl
      exact consistent.snapshots hash mem drpState aclState drp.2 acl.2

end AdvanceCheckpoint

section CallFn

variable {call : DRPProxyChainArgs}

theorem callFn_cases (env : Environment Drp Acl) (applier : DRPVertexApplier Drp Acl)
    (call : DRPProxyChainArgs) :
    (∃ outcome, applier.callFn env call = (applier, none, outcome) ∨
        applier.callFn env call = (applier.advanceCheckpointIfNeeded, none, outcome)) ∨
      ∃ state, validateVertex env.computeHash (applier.createVertex env call)
          applier.hashGraph call.validated true = .ok () ∧
        env.code.stage applier.live [] (applier.createVertex env call)
          (call.type = .acl) = .ok (state, true) ∧
        applier.callFn env call =
          ((applier.advanceCheckpointIfNeeded.assign state (call.type = .acl)).commit
            (applier.createVertex env call) state,
            some (applier.createVertex env call),
            env.code.initializeFinalityStore state.aclState) := by
  unfold callFn
  simp only [live_advanceCheckpointIfNeeded]
  cases validateVertex env.computeHash (applier.createVertex env call)
      applier.hashGraph call.validated true with
  | error error => exact Or.inl ⟨.error error, Or.inl rfl⟩
  | ok value =>
    cases env.code.stage applier.live [] (applier.createVertex env call) (call.type = .acl) with
    | error error => exact Or.inl ⟨.error error, Or.inr rfl⟩
    | ok staged =>
      rcases staged with ⟨state, changed⟩
      cases changed with
      | false => exact Or.inl ⟨.ok (), Or.inr rfl⟩
      | true => exact Or.inr ⟨state, rfl, rfl, rfl⟩

@[simp]
theorem createVertex_advanceCheckpointIfNeeded :
    applier.advanceCheckpointIfNeeded.createVertex env call = applier.createVertex env call := by
  simp [createVertex]

theorem knownType_createVertex :
    (applier.createVertex env call).KnownType := by
  rcases call with ⟨_, _, type, _, _⟩
  cases type with
  | acl => exact Or.inl rfl
  | drp => exact Or.inr rfl

theorem isACL_createVertex :
    (applier.createVertex env call).isACL = decide (call.type = .acl) := by
  rcases call with ⟨_, _, type, _, _⟩
  cases type <;> rfl

section

variable (wellFormed : applier.hashGraph.WellFormed)
  (fresh : (applier.createVertex env call).hash ∉ applier.hashGraph.hashes)
include wellFormed fresh

theorem admissible_createVertex :
    applier.hashGraph.Admissible (applier.createVertex env call) where
  fresh := fresh
  nonempty := wellFormed.frontier_ne_nil
  nodup := wellFormed.frontierNodup
  present := wellFormed.frontier_present
  antichain := wellFormed.frontier_antichain

theorem frontier_addVertex_createVertex :
    (applier.hashGraph.addVertex (applier.createVertex env call)).frontier =
      [(applier.createVertex env call).hash] := by
  have notHead : (applier.createVertex env call).hash ∉
      applier.hashGraph.frontier := fun mem => fresh (wellFormed.frontier_present _ mem)
  exact frontier_addVertex_of_eq rfl notHead

end

@[simp]
theorem hashGraph_assign (state : ReplayState Drp Acl) (isACL : Bool) :
    (applier.assign state isACL).hashGraph = applier.hashGraph := by
  cases isACL <;> rfl

@[simp]
theorem peerId_assign (state : ReplayState Drp Acl) (isACL : Bool) :
    (applier.assign state isACL).peerId = applier.peerId := by
  cases isACL <;> rfl

theorem Recorded.assign (recorded : applier.Recorded env genesis) (state : ReplayState Drp Acl)
    (isACL : Bool) : (applier.assign state isACL).Recorded env genesis := by
  cases isACL <;> exact recorded.of_same rfl rfl rfl

theorem live_assign {vertex : Vertex} {isACL changed : Bool} {state : ReplayState Drp Acl}
    (applied : env.code.applyFn applier.live vertex isACL = .ok (state, changed)) :
    (applier.assign state isACL).live = state := by
  unfold ObjectCode.applyFn at applied
  split at applied
  case h_1 => cases applied
  case h_2 =>
    cases isACL with
    | true =>
      rcases map_eq_ok.mp applied with ⟨called, _, same⟩
      cases same
      rfl
    | false =>
      rcases map_eq_ok.mp applied with ⟨called, _, same⟩
      cases same
      rfl

theorem Consistent.commit_createVertex (consistent : applier.Consistent env genesis)
    (fresh : (applier.createVertex env call).hash ∉ applier.hashGraph.hashes)
    (swaps : env.options.SwapsAreFinal
      (applier.hashGraph.addVertex (applier.createVertex env call)))
    {state : ReplayState Drp Acl} {changed : Bool}
    (staged : env.code.stage applier.live [] (applier.createVertex env call)
      (call.type = .acl) = .ok (state, changed)) :
    ((applier.assign state (call.type = .acl)).commit
      (applier.createVertex env call) state).Consistent env genesis := by
  have wellFormed := consistent.grown.wellFormed
  have admissible := admissible_createVertex wellFormed fresh
  rcases ObjectCode.stage_eq_ok.mp staged with ⟨base, replayed, _, applied⟩
  cases replayed
  have replayed : env.replayOf genesis (applier.hashGraph.addVertex (applier.createVertex env call))
        [(applier.createVertex env call).hash] = .ok state := by
    rw [env.replayOf_addVertex genesis wellFormed admissible swaps consistent.live]
    rw [← isACL_createVertex] at applied
    exact ObjectCode.replay_of_applyFn knownType_createVertex applied
  have sameGraph := @hashGraph_assign _ _ applier state (call.type = .acl)
  have recorded := consistent.toRecorded.assign state (call.type = .acl)
  rw [← sameGraph] at admissible replayed
  refine ⟨recorded.commit admissible replayed, ?_⟩
  change env.replayOf genesis ((applier.assign state (call.type = .acl)).hashGraph.addVertex _)
    ((applier.assign state (call.type = .acl)).hashGraph.addVertex _).frontier =
      .ok (applier.assign state (call.type = .acl)).live
  rw [live_assign applied, ← replayed]
  congr 1
  rw [sameGraph]
  exact frontier_addVertex_createVertex wellFormed fresh

end CallFn

section Merge

/-- What is asked of a vertex before it is accepted, beyond what the pipeline checks. -/
structure Orderly (options : GraphOptions) (graph : HashGraph) (vertex : Vertex) : Prop where
  nodup : vertex.dependencies.Nodup
  antichain : ∀ first ∈ vertex.dependencies, ∀ second ∈ vertex.dependencies,
    ¬graph.Precedes first second
  known : vertex.KnownType
  swaps : options.SwapsAreFinal (graph.addVertex vertex)

theorem Orderly.admissible {vertex : Vertex} {now : ℤ} {isACL : Bool}
    {staged : ReplayState Drp Acl × Bool}
    (orderly : Orderly env.options applier.hashGraph vertex)
    (fresh : vertex.hash ∉ applier.hashGraph.hashes)
    (run : applier.stageVertex env now vertex isACL = .ok staged) :
    applier.hashGraph.Admissible vertex := by
  rcases then_eq_ok.mp run with ⟨valid, _⟩
  exact ⟨fresh, (validateVertex_eq_ok.mp valid).2.1, orderly.nodup, present_of_validateVertex valid,
    orderly.antichain⟩

theorem Recorded.applyOne {merging next : Merging Drp Acl} {now : ℤ} {vertex : Vertex}
    (recorded : merging.applier.Recorded env genesis)
    (orderly : ∀ staged,
      merging.applier.stageVertex env now vertex vertex.isACL = .ok staged →
        Orderly env.options merging.applier.hashGraph vertex)
    (applied : merging.applyOne env now vertex = .ok next) :
    next.applier.Recorded env genesis := by
  rcases Merging.applyOne_cases applied with
    ⟨_, rfl⟩ | ⟨notSkipped, ⟨state, changed⟩, staged, rfl⟩ | ⟨_, _, _, _, rfl⟩
  · exact recorded
  · have ordered := orderly (state, changed) staged
    have admissible := ordered.admissible (Merging.notMem_of_not_skips notSkipped) staged
    exact recorded.commit admissible
      (recorded.replayOf_stageVertex admissible ordered.known ordered.swaps staged)
  · split
    · exact recorded
    · exact recorded.of_same rfl rfl rfl

theorem Recorded.settleMissing {merging : Merging Drp Acl}
    (recorded : merging.applier.Recorded env genesis) (rounds : ℕ) :
    (merging.settleMissing rounds).applier.Recorded env genesis := by
  rcases Merging.exists_known_settleMissing rounds merging with ⟨known, same⟩
  rw [same]
  exact recorded.of_same rfl rfl rfl

theorem Recorded.replayFrontier {next : DRPVertexApplier Drp Acl}
    (recorded : applier.Recorded env genesis)
    (swaps : env.options.SwapsAreFinal applier.hashGraph)
    (replayed : applier.replayFrontier env = .ok next) : next.Consistent env genesis := by
  have wellFormed := recorded.grown.wellFormed
  rcases replayFrontier_eq_ok.mp replayed with ⟨state, run, rfl⟩
  rw [recorded.getReplay_replay swaps wellFormed.frontier_ne_nil wellFormed.frontier_present] at run
  exact ⟨recorded.of_same rfl rfl rfl, run⟩

end Merge

end DRPVertexApplier

end TsDrp
