import TsDrp.Replication

/-!
# The ACL states a replica holds

A replica holds ACL states in its live object, its snapshots and its
checkpoints.  What the calls of the graph's own vertices keep of an ACL holds of
all of them at every moment of every run, whatever vertices and batches the
replica is fed and however its merges end, with one exception: a merge that the
finality store ends leaves the snapshot of a vertex that is not in the graph.
-/

namespace TsDrp

open HashGraph Outcome Merging

namespace DRPVertexApplier

variable {Drp Acl : Type}

/--
One write of a replica: a local call, one vertex of a merge, up to its end or to
an exception, the end of a merge's loop, the replay of the frontier up to its end or to an exception, and
the checkpoint taken after it.
-/
inductive Step (env : Environment Drp Acl) :
    DRPVertexApplier Drp Acl → DRPVertexApplier Drp Acl → Prop where
  | call (applier : DRPVertexApplier Drp Acl) (call : DRPProxyChainArgs) :
      Step env applier (applier.callFn env call).1
  | vertex (merging next : Merging Drp Acl) (now : ℤ) (vertex : Vertex)
      (applied : merging.applyOne env now vertex = .ok next) : Step env merging.applier next.applier
  | abort (merging : Merging Drp Acl) (thrown : Thrown Drp Acl) (now : ℤ) (vertex : Vertex)
      (failed : merging.applyOne env now vertex = .error thrown) :
      Step env merging.applier thrown.applier
  | settle (merging : Merging Drp Acl) (rounds : ℕ) :
      Step env merging.applier (merging.settleMissing rounds).applier
  | replay (applier next : DRPVertexApplier Drp Acl) (replayed : applier.replayFrontier env = .ok next) :
      Step env applier next
  | interrupt (applier : DRPVertexApplier Drp Acl) (thrown : Thrown Drp Acl)
      (failed : applier.replayFrontier env = .error thrown) : Step env applier thrown.applier
  | advance (applier : DRPVertexApplier Drp Acl) : Step env applier applier.advanceCheckpointIfNeeded

/-- What a replica can come to when it is fed anything. -/
def Reachable (env : Environment Drp Acl) (genesis : ReplayState Drp Acl)
    (applier : DRPVertexApplier Drp Acl) : Prop :=
  ∃ peerId checkpointSuffixSize,
    Relation.ReflTransGen (Step env) (create peerId checkpointSuffixSize genesis) applier

/-- The ACL states in the live object, the snapshots and the checkpoints. -/
inductive HeldACL (applier : DRPVertexApplier Drp Acl) : Acl → Prop where
  | live : HeldACL applier applier.live.aclState
  | snapshot {hash : Hash} {acl : Acl} (kept : applier.states.aclStates hash = some acl) :
      HeldACL applier acl
  | checkpoint {checkpoint : LinearizationCheckpoint Drp Acl} (mem : checkpoint ∈ applier.checkpoints) :
      HeldACL applier checkpoint.state.aclState

/-- Those among them that are not the snapshot of a vertex outside the graph. -/
inductive GraphACL (applier : DRPVertexApplier Drp Acl) : Acl → Prop where
  | live : GraphACL applier applier.live.aclState
  | snapshot {hash : Hash} {acl : Acl} (present : hash ∈ applier.hashGraph.hashes)
      (kept : applier.states.aclStates hash = some acl) : GraphACL applier acl
  | checkpoint {checkpoint : LinearizationCheckpoint Drp Acl} (mem : checkpoint ∈ applier.checkpoints) :
      GraphACL applier checkpoint.state.aclState

variable {env : Environment Drp Acl} {genesis : ReplayState Drp Acl}
  {applier : DRPVertexApplier Drp Acl}

theorem steps_applyVertices (env : Environment Drp Acl) (applier : DRPVertexApplier Drp Acl)
    (batch : List (ℤ × Vertex)) :
    Relation.ReflTransGen (Step env) applier (applier.applyVertices env batch).1 := by
  have loop := @applyEach_invariant _ _ env (.start applier)
    (fun merging => Relation.ReflTransGen (Step env) applier merging.applier) batch
    (fun merging next entry _ steps applied => steps.tail (.vertex merging next _ _ applied)) .refl
  rcases applyVertices_cases env applier batch with
    ⟨thrown, looped, run⟩ | ⟨merging, looped, ending⟩
  · rw [run]
    rw [looped] at loop
    rcases loop with ⟨_, impossible, _⟩ | ⟨last, _, same, steps, entry, _, failed⟩
    · cases impossible
    · cases same
      exact steps.tail (.abort last _ _ _ failed)
  · rw [looped] at loop
    rcases loop with ⟨_, same, steps⟩ | ⟨_, _, impossible, _⟩
    · cases same
      have settled := steps.tail (.settle merging batch.length)
      rcases ending with ⟨thrown, failed, run⟩ | ⟨next, replayed, run⟩
      · rw [run]
        exact settled.tail (.interrupt _ thrown failed)
      · rw [run]
        exact (settled.tail (.replay _ next replayed)).tail (.advance next)
    · cases impossible

theorem Reachable.applyVertices (reachable : applier.Reachable env genesis)
    (batch : List (ℤ × Vertex)) : (applier.applyVertices env batch).1.Reachable env genesis := by
  rcases reachable with ⟨peerId, checkpointSuffixSize, steps⟩
  exact ⟨peerId, checkpointSuffixSize, steps.trans (steps_applyVertices env applier batch)⟩

end DRPVertexApplier

/-- The vertices in the order of their insertion, each with its hash and after its dependencies. -/
structure HashGraph.Layered (computeHash : ComputeHash) (graph : HashGraph) : Prop where
  nodup : graph.hashes.Nodup
  hashed : ∀ vertex ∈ graph.vertices, vertex.hash ≠ rootHash → vertex.Hashed computeHash
  earlier : ∀ before vertex after, graph.vertices = before ++ vertex :: after →
    ∀ hash ∈ vertex.dependencies, hash ∈ before.map (·.hash)
  latest : ∃ before last, graph.vertices = before ++ [last] ∧ last.hash ∈ graph.frontier

namespace HashGraph

variable {computeHash : ComputeHash} {graph : HashGraph} {vertex : Vertex}

theorem layered_initial (computeHash : ComputeHash) : initial.Layered computeHash where
  nodup := List.nodup_singleton _
  hashed := by
    intro vertex mem notRoot
    rw [List.mem_singleton.mp mem] at notRoot
    exact absurd rfl notRoot
  earlier := by
    intro before vertex after shape hash mem
    have isRoot : vertex ∈ initial.vertices := by
      rw [shape]
      exact List.mem_append_right _ List.mem_cons_self
    rw [List.mem_singleton.mp isRoot] at mem
    cases mem
  latest := ⟨[], rootVertex, rfl, List.mem_cons_self⟩

theorem Layered.addVertex (layered : graph.Layered computeHash) (fresh : vertex.hash ∉ graph.hashes)
    (present : ∀ hash ∈ vertex.dependencies, hash ∈ graph.hashes) (hashed : vertex.Hashed computeHash) :
    (graph.addVertex vertex).Layered computeHash := by
  have vertices := vertices_addVertex fresh
  refine ⟨?_, fun other mem notRoot => ?_, fun before other after shape hash mem => ?_, ?_⟩
  · rw [hashes_addVertex fresh]
    refine List.nodup_append.mpr ⟨layered.nodup, List.nodup_singleton _, ?_⟩
    rintro hash mem other isNew rfl
    exact fresh (List.mem_singleton.mp isNew ▸ mem)
  · rw [vertices] at mem
    rcases List.mem_append.mp mem with old | new
    · exact layered.hashed other old notRoot
    · rw [List.mem_singleton.mp new]
      exact hashed
  · rw [vertices] at shape
    rcases List.eq_nil_or_concat after with rfl | ⟨rest, last, rfl⟩
    · have split := List.append_inj' shape rfl
      cases List.singleton_inj.mp split.2
      rw [← split.1]
      exact present hash mem
    · rw [List.concat_eq_append, ← List.cons_append, ← List.append_assoc] at shape
      exact layered.earlier before other rest (List.append_inj' shape rfl).1 hash mem
  · refine ⟨graph.vertices, vertex, vertices, List.mem_filter.mpr ⟨?_, ?_⟩⟩
    · exact List.mem_append_right _ List.mem_cons_self
    · simpa using fun mem => fresh (present vertex.hash mem)

end HashGraph

namespace DRPVertexApplier

variable {Drp Acl : Type} {env : Environment Drp Acl} {applier : DRPVertexApplier Drp Acl}

theorem fresh_createVertex (layered : applier.hashGraph.Layered env.computeHash)
    (binding : ContentBinding env.computeHash) (call : DRPProxyChainArgs) :
    (applier.createVertex env call).hash ∉ applier.hashGraph.hashes := by
  intro mem
  rcases List.mem_map.mp mem with ⟨vertex, vertexMem, sameHash⟩
  rcases layered.latest with ⟨before, last, vertices, isHead⟩
  have notRoot : vertex.hash ≠ rootHash := by
    rw [sameHash]
    exact binding.notRoot (List.ne_nil_of_mem isHead)
  rw [layered.hashed vertex vertexMem notRoot] at sameHash
  rcases List.append_of_mem vertexMem with ⟨prior, later, shape⟩
  have onFrontier : last.hash ∈ vertex.dependencies := by
    rw [(binding.binds sameHash).2]
    exact isHead
  have inPrior := layered.earlier prior vertex later shape last.hash onFrontier
  have inRest : last.hash ∈ (vertex :: later).map (·.hash) := by
    have lastOfAll : (vertex :: later).getLast (List.cons_ne_nil _ _) = last := by
      have same := congrArg List.getLast? (shape.symm.trans vertices)
      rw [List.getLast?_append_of_ne_nil _ (List.cons_ne_nil _ _), List.getLast?_concat,
        List.getLast?_eq_some_getLast (List.cons_ne_nil _ _)] at same
      exact Option.some.inj same
    exact List.mem_map_of_mem (lastOfAll ▸ List.getLast_mem _)
  have nodup := layered.nodup
  rw [hashes, shape, List.map_append] at nodup
  exact List.disjoint_of_nodup_append nodup inPrior inRest

end DRPVertexApplier

/-- What the operations on the list keep; those with the type of the DRP are none. -/
structure ACLInvariant {Drp Acl : Type} (env : Environment Drp Acl)
    (Holds : List Vertex → Acl → Prop) : Prop where
  mono : ∀ {vertices more : List Vertex} {acl : Acl}, vertices ⊆ more → Holds vertices acl →
    Holds more acl
  call : ∀ {vertices : List Vertex} {vertex : Vertex} {operation : Operation} {acl next : Acl}
    {changed : Bool}, vertex ∈ vertices → vertex.operation = some operation →
      operation.drpType ≠ "DRP" → Holds vertices acl →
      env.code.callACL acl vertex.peerId operation.opType operation.value = .ok (next, changed) →
        Holds vertices next

namespace ACLInvariant

variable {Drp Acl : Type} {env : Environment Drp Acl} {Holds : List Vertex → Acl → Prop}

variable {vertices list : List Vertex} (invariant : ACLInvariant env Holds)
include invariant

theorem applyVertices
    (listed : ∀ vertex ∈ list, vertex ∈ vertices ∧
      ∃ operation, vertex.operation = some operation ∧ operation.drpType ≠ "DRP")
    {acl final : Acl} (holds : Holds vertices acl)
    (run : TsDrp.applyVertices env.code.callACL acl list = .ok final) : Holds vertices final := by
  induction list generalizing acl with
  | nil =>
    cases run
    exact holds
  | cons vertex rest ih =>
    rcases bind_eq_ok.mp run with ⟨next, applied, run⟩
    refine ih (fun _ mem => listed _ (.tail _ mem)) ?_ run
    rcases listed vertex List.mem_cons_self with ⟨mem, operation, found, notDRP⟩
    rw [applyVertex, found] at applied
    rcases map_eq_ok.mp applied with ⟨⟨_, _⟩, called, rfl⟩
    exact invariant.call mem found notDRP holds called

theorem applySplit (subset : list ⊆ vertices) {acl final : Acl} (holds : Holds vertices acl)
    (run : TsDrp.applyVertices env.code.callACL acl (splitOperation list).2 = .ok final) :
    Holds vertices final :=
  invariant.applyVertices
    (fun _ mem => (mem_splitOperation_acl.mp mem).imp_left fun inList => subset inList) holds run

theorem stage (subset : list ⊆ vertices) {vertex : Vertex} {start : ReplayState Drp Acl} {isACL : Bool}
    (notDRP : isACL = true → vertex.drpType ≠ some "DRP") {staged : ReplayState Drp Acl × Bool}
    (holds : Holds vertices start.aclState)
    (run : env.code.stage start list vertex isACL = .ok staged) :
    Holds (vertices ++ [vertex]) staged.1.aclState := by
  rcases ObjectCode.stage_eq_ok.mp run with ⟨state, replayed, _, applied⟩
  have replayed := invariant.mono (List.subset_append_left _ [vertex])
    (invariant.applySplit subset holds (env.code.replay_eq_ok.mp replayed).1)
  unfold ObjectCode.applyFn at applied
  split at applied
  case h_1 => cases applied
  case h_2 operation found =>
    split at applied
    case isTrue isACL =>
      rcases map_eq_ok.mp applied with ⟨⟨_, _⟩, called, rfl⟩
      refine invariant.call (List.mem_append_right _ List.mem_cons_self) found ?_ replayed called
      simpa [Vertex.drpType, found] using notDRP isACL
    case isFalse =>
      rcases map_eq_ok.mp applied with ⟨_, _, rfl⟩
      exact replayed

end ACLInvariant

namespace DRPVertexApplier

variable {Drp Acl : Type} {env : Environment Drp Acl} {Holds : List Vertex → Acl → Prop}
  {applier : DRPVertexApplier Drp Acl}

/--
The ACL states have the property, those of vertices outside the graph when the
vertex is counted.
-/
structure Kept (env : Environment Drp Acl) (Holds : List Vertex → Acl → Prop)
    (applier : DRPVertexApplier Drp Acl) : Prop where
  layered : applier.hashGraph.Layered env.computeHash
  held : ∀ {acl}, applier.GraphACL acl → Holds applier.hashGraph.vertices acl
  outside : ∀ {hash acl}, applier.states.aclStates hash = some acl → hash ∉ applier.hashGraph.hashes →
    ∃ vertex : Vertex, vertex.hash = hash ∧ vertex.Hashed env.computeHash ∧
      Holds (applier.hashGraph.vertices ++ [vertex]) acl

theorem kept_create {genesis : ReplayState Drp Acl} (peerId : String) (checkpointSuffixSize : ℕ)
    (holds : Holds [rootVertex] genesis.aclState) :
    (create peerId checkpointSuffixSize genesis).Kept env Holds := by
  refine ⟨layered_initial _, fun isHeld => ?_, fun found absent => ?_⟩
  · cases isHeld with
    | live => exact holds
    | snapshot _ kept =>
      simp only [create, DRPObjectStateManager.create, Option.ite_none_right_eq_some] at kept
      cases kept.2
      exact holds
    | checkpoint mem =>
      cases List.mem_singleton.mp mem
      exact holds
  · simp only [create, DRPObjectStateManager.create, Option.ite_none_right_eq_some] at found
    cases found.1
    exact absurd List.mem_cons_self absent

theorem Kept.withLive (kept : applier.Kept env Holds) {live : ReplayState Drp Acl}
    (holds : Holds applier.hashGraph.vertices live.aclState) :
    ({ applier with live } : DRPVertexApplier Drp Acl).Kept env Holds := by
  refine ⟨kept.layered, fun isHeld => ?_, kept.outside⟩
  cases isHeld with
  | live => exact holds
  | snapshot present found => exact kept.held (.snapshot present found)
  | checkpoint mem => exact kept.held (.checkpoint mem)

theorem Kept.withKnown (kept : applier.Kept env Holds) (known : List Hash) :
    ({ applier with knownInvalidVertexHashes := known } : DRPVertexApplier Drp Acl).Kept env Holds := by
  refine ⟨kept.layered, fun isHeld => ?_, kept.outside⟩
  cases isHeld with
  | live => exact kept.held .live
  | snapshot present found => exact kept.held (.snapshot present found)
  | checkpoint mem => exact kept.held (.checkpoint mem)

theorem Kept.advanceCheckpointIfNeeded (kept : applier.Kept env Holds) :
    applier.advanceCheckpointIfNeeded.Kept env Holds := by
  unfold DRPVertexApplier.advanceCheckpointIfNeeded
  split
  · exact kept
  · refine ⟨kept.layered, fun isHeld => ?_, fun found absent => ?_⟩
    · cases isHeld with
      | live => exact kept.held .live
      | snapshot present found =>
        simp only [pruneSnapshots, DRPObjectStateManager.prune, Option.ite_none_right_eq_some] at found
        exact kept.held (.snapshot present found.2)
      | checkpoint mem =>
        rcases mem_of_mem_pushCheckpoint mem with old | rfl
        · exact kept.held (.checkpoint old)
        · exact kept.held .live
    · simp only [pruneSnapshots, DRPObjectStateManager.prune, Option.ite_none_right_eq_some] at found
      exact kept.outside found.2 absent

variable {vertex : Vertex}

theorem Kept.commit (kept : applier.Kept env Holds) (invariant : ACLInvariant env Holds)
    (fresh : vertex.hash ∉ applier.hashGraph.hashes)
    (present : ∀ hash ∈ vertex.dependencies, hash ∈ applier.hashGraph.hashes)
    (hashed : vertex.Hashed env.computeHash) {state : ReplayState Drp Acl}
    (holds : Holds (applier.hashGraph.vertices ++ [vertex]) state.aclState) :
    (applier.commit vertex state).Kept env Holds := by
  have vertices := vertices_addVertex fresh
  have hashes := hashes_addVertex fresh
  have old : ∀ {acl}, applier.GraphACL acl → Holds (applier.hashGraph.vertices ++ [vertex]) acl :=
    fun isHeld => invariant.mono (List.subset_append_left _ _) (kept.held isHeld)
  refine ⟨kept.layered.addVertex fresh present hashed, fun isHeld => ?_, fun {hash _} found absent => ?_⟩
  · rw [DRPVertexApplier.commit, vertices]
    cases isHeld with
    | live => exact old .live
    | @snapshot hash _ isPresent found =>
      simp only [DRPVertexApplier.commit, DRPObjectStateManager.setStates] at isPresent found
      by_cases same : hash = vertex.hash
      · subst same
        rw [Function.update_self] at found
        cases found
        exact holds
      · rw [Function.update_of_ne same] at found
        exact old (.snapshot (by simpa [hashes, same] using isPresent) found)
    | checkpoint mem => exact old (.checkpoint mem)
  · simp only [DRPVertexApplier.commit, DRPObjectStateManager.setStates, hashes, List.mem_append,
      List.mem_singleton, not_or] at found absent
    rw [Function.update_of_ne absent.2] at found
    rcases kept.outside found absent.1 with ⟨other, same, hashed, holds⟩
    refine ⟨other, same, hashed, invariant.mono (fun _ mem => ?_) holds⟩
    rw [DRPVertexApplier.commit, vertices]
    exact List.mem_append.mpr ((List.mem_append.mp mem).imp_left (List.mem_append_left _))

theorem Kept.assignState (kept : applier.Kept env Holds)
    (fresh : vertex.hash ∉ applier.hashGraph.hashes)
    (hashed : vertex.Hashed env.computeHash) {state : ReplayState Drp Acl}
    (holds : Holds (applier.hashGraph.vertices ++ [vertex]) state.aclState) :
    (applier.assignState vertex state).Kept env Holds := by
  refine ⟨kept.layered, fun isHeld => ?_, fun {hash _} found absent => ?_⟩
  · cases isHeld with
    | live => exact kept.held .live
    | @snapshot hash _ present found =>
      have different : hash ≠ vertex.hash := fun same => fresh (same ▸ present)
      simp only [DRPVertexApplier.assignState, DRPObjectStateManager.setStates,
        Function.update_of_ne different] at found
      exact kept.held (.snapshot present found)
    | checkpoint mem => exact kept.held (.checkpoint mem)
  · simp only [DRPVertexApplier.assignState, DRPObjectStateManager.setStates] at found
    by_cases same : hash = vertex.hash
    · subst same
      rw [Function.update_self] at found
      cases found
      exact ⟨vertex, rfl, hashed, holds⟩
    · rw [Function.update_of_ne same] at found
      exact kept.outside found absent

theorem Kept.getReplay (kept : applier.Kept env Holds) {dependencies : List Hash}
    {replay : Replay Drp Acl}
    (found : applier.getReplay env dependencies = .ok replay) :
    Holds applier.hashGraph.vertices replay.state.aclState ∧
      replay.linearizedVertices ⊆ applier.hashGraph.vertices := by
  rcases mem_of_getReplay found with ⟨⟨checkpoint, mem, same⟩, vertices⟩
  rw [← same]
  exact ⟨kept.held (.checkpoint mem), vertices⟩

theorem Kept.getLCA (kept : applier.Kept env Holds) {start : ReplayState Drp Acl}
    {linearizedVertices : List Vertex}
    (present : ∀ hash ∈ vertex.dependencies, hash ∈ applier.hashGraph.hashes)
    (found : applier.getLCA env vertex = .ok (start, linearizedVertices)) :
    Holds applier.hashGraph.vertices start.aclState ∧
      linearizedVertices ⊆ applier.hashGraph.vertices := by
  have replayed : ((applier.getReplay env vertex.dependencies).map fun replay =>
      (replay.state, replay.linearizedVertices)) = .ok (start, linearizedVertices) →
      Holds applier.hashGraph.vertices start.aclState ∧
        linearizedVertices ⊆ applier.hashGraph.vertices := by
    intro replayed
    rcases map_eq_ok.mp replayed with ⟨replay, run, same⟩
    cases same
    exact kept.getReplay run
  unfold DRPVertexApplier.getLCA at found
  simp only at found
  split at found
  case h_2 => exact replayed found
  case h_1 dependency single =>
    split at found
    case isFalse => exact replayed (single ▸ found)
    case isTrue both =>
      rcases map_eq_ok.mp found with ⟨state, snapshot, same⟩
      cases same
      unfold DRPObjectStateManager.fromHash at snapshot
      split at snapshot
      · cases snapshot
        exact ⟨kept.held (.snapshot (present dependency (by simp [single])) ‹_›), List.nil_subset _⟩
      · cases snapshot

theorem Kept.stageVertex (kept : applier.Kept env Holds) (invariant : ACLInvariant env Holds) {now : ℤ}
    {staged : ReplayState Drp Acl × Bool}
    (run : applier.stageVertex env now vertex vertex.isACL = .ok staged) :
    Holds (applier.hashGraph.vertices ++ [vertex]) staged.1.aclState := by
  rcases then_eq_ok.mp run with ⟨valid, run⟩
  rcases bind_eq_ok.mp run with ⟨⟨start, linearizedVertices⟩, found, run⟩
  rcases kept.getLCA (present_of_validateVertex valid) found with ⟨holds, subset⟩
  refine invariant.stage subset (fun isACL => ?_) holds run
  rw [of_decide_eq_true isACL]
  decide

theorem Kept.applyOne {merging next : Merging Drp Acl} {now : ℤ}
    (kept : merging.applier.Kept env Holds) (invariant : ACLInvariant env Holds)
    (applied : merging.applyOne env now vertex = .ok next) : next.applier.Kept env Holds := by
  rcases applyOne_cases applied with
    ⟨_, rfl⟩ | ⟨notSkipped, staged, run, rfl⟩ | ⟨_, _, _, _, rfl⟩
  · exact kept
  · rcases then_eq_ok.mp run with ⟨valid, _⟩
    exact kept.commit invariant (notMem_of_not_skips notSkipped) (present_of_validateVertex valid)
      (hashed_of_validateVertex valid) (kept.stageVertex invariant run)
  · split
    · exact kept
    · exact kept.withKnown _

theorem Kept.abort {merging : Merging Drp Acl} {thrown : Thrown Drp Acl} {now : ℤ}
    (kept : merging.applier.Kept env Holds) (invariant : ACLInvariant env Holds)
    (failed : merging.applyOne env now vertex = .error thrown) : thrown.applier.Kept env Holds := by
  rcases applyOne_eq_error failed with ⟨notSkipped, ⟨_, _, rfl⟩ | ⟨staged, run, _, same⟩⟩
  · exact kept
  · rcases then_eq_ok.mp run with ⟨valid, _⟩
    rw [same]
    exact kept.assignState (notMem_of_not_skips notSkipped) (hashed_of_validateVertex valid)
      (kept.stageVertex invariant run)

section

variable (kept : applier.Kept env Holds) (invariant : ACLInvariant env Holds)
include kept invariant

theorem Kept.callFn (binding : ContentBinding env.computeHash) (call : DRPProxyChainArgs) :
    (applier.callFn env call).1.Kept env Holds := by
  rcases callFn_cases env applier call with
    ⟨outcome, run | run⟩ | ⟨state, valid, staged, run⟩
  · rw [run]
    exact kept
  · rw [run]
    exact kept.advanceCheckpointIfNeeded
  · rw [run]
    have fresh := fresh_createVertex kept.layered binding call
    have advanced := kept.advanceCheckpointIfNeeded
    have notDRP : decide (call.type = .acl) = true →
        (applier.createVertex env call).drpType ≠ some "DRP" := by
      cases same : call.type <;> simp [createVertex, Vertex.drpType, DrpType.text, same]
    have holds := invariant.stage (List.nil_subset _) notDRP (kept.held .live) staged
    -- The live object takes over a state that counts the new vertex already, so the vertex is
    -- committed first.
    have committed := advanced.commit invariant (by simpa using fresh)
      (by simpa using present_of_validateVertex valid) rfl (by simpa using holds)
    have live : Holds (applier.advanceCheckpointIfNeeded.commit
        (applier.createVertex env call) state).hashGraph.vertices
          ((applier.advanceCheckpointIfNeeded.assign state (call.type = .acl)).live.aclState) := by
      cases call.type with
      | acl =>
        rw [DRPVertexApplier.commit, hashGraph_advanceCheckpointIfNeeded, vertices_addVertex fresh]
        exact holds
      | drp => exact committed.held .live
    have assigned := committed.withLive live
    rcases call with ⟨_, _, type, _, _⟩
    cases type <;> exact assigned

theorem Kept.replayFrontier :
    (∀ next, applier.replayFrontier env = .ok next → next.Kept env Holds) ∧
      ∀ thrown, applier.replayFrontier env = .error thrown → thrown.applier.Kept env Holds := by
  constructor
  · intro next replayed
    rcases replayFrontier_eq_ok.mp replayed with ⟨state, run, rfl⟩
    rcases bind_eq_ok.mp run with ⟨replay, found, run⟩
    rcases kept.getReplay found with ⟨holds, subset⟩
    exact kept.withLive (invariant.applySplit subset holds (env.code.replay_eq_ok.mp run).1)
  · intro thrown failed
    rcases replayFrontier_eq_error failed with same | ⟨replay, aclState, found, run, same⟩
    · rw [same]
      exact kept
    · rcases kept.getReplay found with ⟨holds, subset⟩
      rw [same]
      exact kept.withLive (invariant.applySplit subset holds run)

theorem Kept.step {next : DRPVertexApplier Drp Acl} (binding : ContentBinding env.computeHash)
    (step : Step env applier next) : next.Kept env Holds := by
  cases step with
  | call _ call =>
    exact kept.callFn invariant binding call
  | vertex merging next now vertex applied => exact kept.applyOne invariant applied
  | abort merging thrown now vertex failed => exact kept.abort invariant failed
  | settle merging rounds =>
    rcases exists_known_settleMissing rounds merging with ⟨known, same⟩
    rw [same]
    exact kept.withKnown known
  | replay _ next replayed => exact (kept.replayFrontier invariant).1 next replayed
  | interrupt _ thrown failed => exact (kept.replayFrontier invariant).2 thrown failed
  | advance => exact kept.advanceCheckpointIfNeeded

end

theorem Reachable.kept {genesis : ReplayState Drp Acl} (reachable : applier.Reachable env genesis)
    (invariant : ACLInvariant env Holds) (binding : ContentBinding env.computeHash)
    (holds : Holds [rootVertex] genesis.aclState) : applier.Kept env Holds := by
  rcases reachable with ⟨peerId, checkpointSuffixSize, steps⟩
  induction steps with
  | refl => exact kept_create peerId checkpointSuffixSize holds
  | tail _ step ih => exact ih.step invariant binding step

variable {later : DRPVertexApplier Drp Acl}

theorem Step.hashGraph (step : Step env applier later)
    (layered : applier.hashGraph.Layered env.computeHash) (binding : ContentBinding env.computeHash) :
    later.hashGraph = applier.hashGraph ∨ ∃ vertex : Vertex, vertex.hash ∉ applier.hashGraph.hashes ∧
      (∀ hash ∈ vertex.dependencies, hash ∈ applier.hashGraph.hashes) ∧
      vertex.Hashed env.computeHash ∧ later.hashGraph = applier.hashGraph.addVertex vertex := by
  cases step with
  | call _ call =>
    rcases callFn_cases env applier call with
      ⟨_, run | run⟩ | ⟨state, valid, _, run⟩
    · exact Or.inl (by rw [run])
    · exact Or.inl (by simp [run])
    · refine Or.inr ⟨_, fresh_createVertex layered binding call, present_of_validateVertex valid, rfl, ?_⟩
      rw [run]
      cases call.type <;> simp [commit, assign]
  | vertex merging next now vertex applied =>
    rcases applyOne_cases applied with ⟨_, rfl⟩ | ⟨notSkipped, _, run, rfl⟩ | ⟨_, _, _, _, rfl⟩
    · exact Or.inl rfl
    · rcases then_eq_ok.mp run with ⟨valid, _⟩
      exact Or.inr ⟨vertex, notMem_of_not_skips notSkipped, present_of_validateVertex valid,
        hashed_of_validateVertex valid, rfl⟩
    · left
      split <;> rfl
  | abort merging thrown now vertex failed =>
    exact Or.inl (same_of_applyOne_eq_error failed).1
  | settle merging rounds =>
    rcases exists_known_settleMissing rounds merging with ⟨_, same⟩
    exact Or.inl (by rw [same])
  | replay _ _ replayed =>
    rcases replayFrontier_eq_ok.mp replayed with ⟨_, _, rfl⟩
    exact Or.inl rfl
  | interrupt _ thrown failed =>
    rcases replayFrontier_eq_error failed with same | ⟨_, _, _, _, same⟩ <;>
      exact Or.inl (by rw [same])
  | advance => exact Or.inl (by simp)

theorem layered_of_steps (layered : applier.hashGraph.Layered env.computeHash)
    (binding : ContentBinding env.computeHash)
    (steps : Relation.ReflTransGen (Step env) applier later) :
    later.hashGraph.Layered env.computeHash := by
  induction steps with
  | refl => exact layered
  | tail _ step ih =>
    rcases step.hashGraph ih binding with same | ⟨vertex, fresh, present, hashed, same⟩
    · rw [same]
      exact ih
    · rw [same]
      exact ih.addVertex fresh present hashed

/--
Whatever a replica is fed and however its merges end, it keeps the vertices it has,
unchanged and in their order, and adds new ones behind them, each under the hash of
its content and after its dependencies.
-/
theorem history_is_append_only {genesis : ReplayState Drp Acl}
    (binding : ContentBinding env.computeHash) (reachable : applier.Reachable env genesis)
    (steps : Relation.ReflTransGen (Step env) applier later) :
    applier.hashGraph.vertices <+: later.hashGraph.vertices ∧
      later.hashGraph.Layered env.computeHash := by
  rcases reachable with ⟨_, _, begun⟩
  have layered := layered_of_steps (layered_initial _) binding begun
  refine ⟨?_, layered_of_steps layered binding steps⟩
  induction steps with
  | refl => exact List.prefix_rfl
  | tail earlier step ih =>
    have layered := layered_of_steps layered binding earlier
    rcases step.hashGraph layered binding with same | ⟨vertex, fresh, _, _, same⟩
    · rw [same]
      exact ih
    · rw [same, vertices_addVertex fresh]
      exact ih.trans (List.prefix_append _ _)

end DRPVertexApplier

open SwapExample DRPVertexApplier in
theorem DRPVertexApplier.history_is_append_only_called :
    [rootVertex] <+: ((create "p" 256 ⟨[], ()⟩).callFn (environment addFirst)
      ⟨0, 0, .drp, "mul", []⟩).1.hashGraph.vertices :=
  (history_is_append_only contentBinding_names ⟨"p", 256, .refl⟩
    (.single (.call _ ⟨0, 0, .drp, "mul", []⟩))).1

end TsDrp
