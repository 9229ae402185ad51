import TsDrp.Applier.Consistency
import TsDrp.Library.Json

/-!
# Replicas of one object

Any number of replicas, one for each peer, make local calls and merge batches of
vertices that have been created so far.  The graph of everything created is kept
beside the replicas: every replica holds a causally closed part of it, and that
part alone decides the replica's state.
-/

namespace TsDrp

open HashGraph

/--
The hash of a vertex determines its peer and its dependencies, and is the root's
hash for no vertex that has dependencies.
-/
structure ContentBinding (computeHash : ComputeHash) : Prop where
  binds : ∀ {peerId peerId' operation operation' dependencies dependencies' timestamp timestamp'},
    computeHash peerId operation dependencies timestamp =
        computeHash peerId' operation' dependencies' timestamp' →
      peerId = peerId' ∧ dependencies = dependencies'
  notRoot : ∀ {peerId operation dependencies timestamp}, dependencies ≠ [] →
    computeHash peerId operation dependencies timestamp ≠ rootHash

theorem HashGraph.Within.orderly {graph whole : HashGraph} (within : graph.Within whole)
    (wholeFormed : whole.WellFormed) (wellFormed : graph.WellFormed) {vertex : Vertex}
    (mem : vertex ∈ whole.vertices) (fresh : vertex.hash ∉ graph.hashes) :
    vertex ∈ whole.created ∧ vertex.dependencies.Nodup ∧
      ∀ first ∈ vertex.dependencies, ∀ second ∈ vertex.dependencies,
        ¬graph.Precedes first second := by
  have dependencies : whole.dependenciesOf vertex.hash = vertex.dependencies :=
    dependenciesOf_eq (getVertex_of_mem wholeFormed.nodup mem)
  refine ⟨List.mem_filter.mpr ⟨mem, ?_⟩, ?_, ?_⟩
  · have notRoot : vertex.hash ≠ rootHash := fun same => fresh (same ▸ wellFormed.rootHash_mem)
    simpa using notRoot
  · rw [← dependencies]
    exact wholeFormed.dependenciesNodup vertex.hash
  · intro first firstMem second secondMem precedes
    rw [← dependencies] at firstMem secondMem
    exact wholeFormed.antichain vertex.hash first firstMem second secondMem
      (within.precedes_of_within wholeFormed precedes)

/-- The replicas by their peers, and the graph of all vertices created so far. -/
structure World (Drp Acl : Type) where
  history : HashGraph
  replica : String → DRPVertexApplier Drp Acl

namespace World

variable {Drp Acl : Type}

/-- New replicas; each decides for itself how many vertices lie between checkpoints. -/
def start (checkpointSuffixSize : String → ℕ) (genesis : ReplayState Drp Acl) : World Drp Acl where
  history := .initial
  replica := fun peer => .create peer (checkpointSuffixSize peer) genesis

section Steps

variable (env : Environment Drp Acl) (world : World Drp Acl) (peer : String)

def setReplica (applier : DRPVertexApplier Drp Acl) : World Drp Acl :=
  { world with replica := Function.update world.replica peer applier }

def call (call : DRPProxyChainArgs) :
    World Drp Acl :=
  let (applier, added, _) := (world.replica peer).callFn env call
  { history := match added with
      | some vertex => world.history.addVertex vertex
      | none => world.history
    replica := Function.update world.replica peer applier }

def merge (batch : List (ℤ × Vertex)) : World Drp Acl :=
  world.setReplica peer ((world.replica peer).applyVertices env batch).1

theorem call_cases (call : DRPProxyChainArgs) :
    (world.call env peer call = world.setReplica peer (world.replica peer) ∨
      world.call env peer call =
        world.setReplica peer (world.replica peer).advanceCheckpointIfNeeded) ∨
      ∃ state,
        env.code.stage (world.replica peer).live []
          ((world.replica peer).createVertex env call) (call.type = .acl) = .ok (state, true) ∧
        world.call env peer call =
          { history := world.history.addVertex
              ((world.replica peer).createVertex env call)
            replica := Function.update world.replica peer
              (((world.replica peer).advanceCheckpointIfNeeded.assign state (call.type = .acl)).commit
                ((world.replica peer).createVertex env call) state) } := by
  unfold World.call
  rcases DRPVertexApplier.callFn_cases env (world.replica peer) call with
    ⟨outcome, run | run⟩ | ⟨state, _, staged, run⟩
  · left
    left
    simp [run, setReplica]
  · left
    right
    simp [run, setReplica]
  · right
    refine ⟨state, staged, ?_⟩
    simp only [run]

end Steps

/-- A local call, or a merge of created vertices that returns. -/
inductive Step (env : Environment Drp Acl) : World Drp Acl → World Drp Acl → Prop where
  | call (world : World Drp Acl) (peer : String) (call : DRPProxyChainArgs) :
      Step env world (world.call env peer call)
  | merge (world : World Drp Acl) (peer : String) (batch : List (ℤ × Vertex)) (result : ApplyResult)
      (known : ∀ entry ∈ batch, entry.2 ∈ world.history.vertices)
      (returned : ((world.replica peer).applyVertices env batch).2 = .ok result) :
      Step env world (world.merge env peer batch)

def Reachable (env : Environment Drp Acl) (checkpointSuffixSize : String → ℕ)
    (genesis : ReplayState Drp Acl) : World Drp Acl → Prop :=
  Relation.ReflTransGen (Step env) (start checkpointSuffixSize genesis)

structure Traced (env : Environment Drp Acl) (world : World Drp Acl) : Prop where
  grown : world.history.Grown
  peers : ∀ peer, (world.replica peer).peerId = peer
  replicaGrown : ∀ peer, (world.replica peer).hashGraph.Grown
  within : ∀ peer, (world.replica peer).hashGraph.Within world.history
  known : ∀ vertex ∈ world.history.created, vertex.KnownType
  hashed : ∀ vertex ∈ world.history.created, vertex.Hashed env.computeHash
  own : ∀ vertex ∈ world.history.created,
    vertex ∈ (world.replica vertex.peerId).hashGraph.vertices

variable {env : Environment Drp Acl} {world : World Drp Acl}

theorem traced_start (env : Environment Drp Acl) (checkpointSuffixSize : String → ℕ)
    (genesis : ReplayState Drp Acl) : (start checkpointSuffixSize genesis).Traced env where
  grown := .refl
  peers := fun _ => rfl
  replicaGrown := fun _ => .refl
  within := fun _ _ mem => mem
  known := by
    intro vertex mem
    cases mem
  hashed := by
    intro vertex mem
    cases mem
  own := by
    intro vertex mem
    cases mem

theorem Traced.orderly {graph : HashGraph} (traced : world.Traced env)
    (within : graph.Within world.history) (wellFormed : graph.WellFormed) {vertex : Vertex}
    (mem : vertex ∈ world.history.vertices) (fresh : vertex.hash ∉ graph.hashes) :
    vertex ∈ world.history.created ∧ vertex.dependencies.Nodup ∧
      ∀ first ∈ vertex.dependencies, ∀ second ∈ vertex.dependencies,
        ¬graph.Precedes first second :=
  within.orderly traced.grown.wellFormed wellFormed mem fresh

theorem within_addVertex {graph whole : HashGraph} (within : graph.Within whole) {vertex : Vertex}
    (fresh : vertex.hash ∉ graph.hashes) (mem : vertex ∈ whole.vertices) :
    (graph.addVertex vertex).Within whole := by
  intro other otherMem
  rw [vertices_addVertex fresh] at otherMem
  rcases List.mem_append.mp otherMem with old | new
  · exact within other old
  · exact List.mem_singleton.mp new ▸ mem

/--
A replica has grown, and the history perhaps with it: what is new in the history
was created by the replica's own peer.
-/
theorem Traced.grow (traced : world.Traced env) {peer : String} {history : HashGraph}
    {applier : DRPVertexApplier Drp Acl} (historyGrown : history.Grown)
    (extended : world.history.Within history) (peerId : applier.peerId = peer)
    (grown : applier.hashGraph.Grown) (within : applier.hashGraph.Within history)
    (keeps : (world.replica peer).hashGraph.Within applier.hashGraph)
    (new : ∀ vertex ∈ history.created, vertex ∈ world.history.created ∨
      vertex.KnownType ∧ vertex.Hashed env.computeHash ∧ vertex.peerId = peer ∧ vertex ∈ applier.hashGraph.vertices) :
    Traced env { history, replica := Function.update world.replica peer applier } := by
  refine ⟨historyGrown, ?_, ?_, ?_, fun vertex mem => ?_, fun vertex mem => ?_, fun vertex mem => ?_⟩
  · exact (Function.forall_update_iff _ fun peer (applier : DRPVertexApplier Drp Acl) =>
      applier.peerId = peer).mpr ⟨peerId, fun other _ => traced.peers other⟩
  · exact (Function.forall_update_iff _ fun _ (applier : DRPVertexApplier Drp Acl) =>
      applier.hashGraph.Grown).mpr ⟨grown, fun other _ => traced.replicaGrown other⟩
  · exact (Function.forall_update_iff _ fun _ (applier : DRPVertexApplier Drp Acl) =>
      applier.hashGraph.Within history).mpr
        ⟨within, fun other _ vertex mem => extended vertex (traced.within other vertex mem)⟩
  · rcases new vertex mem with old | ⟨known, _⟩
    · exact traced.known vertex old
    · exact known
  · rcases new vertex mem with old | ⟨_, hashed, _⟩
    · exact traced.hashed vertex old
    · exact hashed
  · rcases new vertex mem with old | ⟨_, _, samePeer, present⟩
    · have present := traced.own vertex old
      by_cases same : vertex.peerId = peer
      · subst same
        simp only [Function.update_self]
        exact keeps vertex present
      · simp only [Function.update_of_ne same]
        exact present
    · subst samePeer
      simp only [Function.update_self]
      exact present

section

variable (traced : world.Traced env) (binding : ContentBinding env.computeHash) (peer : String)
include traced binding peer

theorem Traced.fresh_createVertex (call : DRPProxyChainArgs) :
    ((world.replica peer).createVertex env call).hash ∉ world.history.hashes := by
  have wellFormed := (traced.replicaGrown peer).wellFormed
  intro mem
  rcases List.mem_map.mp mem with ⟨vertex, vertexMem, sameHash⟩
  have notRoot : vertex.hash ≠ rootHash := by
    rw [sameHash]
    exact binding.notRoot wellFormed.frontier_ne_nil
  have vertexCreated : vertex ∈ world.history.created :=
    List.mem_filter.mpr ⟨vertexMem, by simpa using notRoot⟩
  rw [traced.hashed vertex vertexCreated] at sameHash
  rcases binding.binds sameHash with ⟨samePeer, onFrontier⟩
  have own := traced.own vertex vertexCreated
  rw [samePeer, traced.peers peer] at own
  -- The vertex would depend on a head that comes after it.
  rcases wellFormed.exists_frontier_above (hash_mem_of_mem own) with ⟨head, headMem, precedes⟩
  have dependency : (world.replica peer).hashGraph.Dependency head vertex.hash := by
    rw [Dependency, dependenciesOf_eq (getVertex_of_mem wellFormed.nodup own), onFrontier]
    exact headMem
  exact wellFormed.acyclic vertex.hash (.tail' precedes dependency)

theorem Traced.admissible_createVertex (call : DRPProxyChainArgs) :
    world.history.Admissible ((world.replica peer).createVertex env call) := by
  have wellFormed := (traced.replicaGrown peer).wellFormed
  have within := traced.within peer
  refine ⟨traced.fresh_createVertex binding peer call,
    wellFormed.frontier_ne_nil, wellFormed.frontierNodup, fun hash mem => ?_,
    fun first firstMem second secondMem precedes => ?_⟩
  · exact within.mem_hashes (wellFormed.frontier_present hash mem)
  · have inReplica := wellFormed.frontier_present second secondMem
    exact wellFormed.frontier_antichain first firstMem second secondMem
      ((within.precedes_iff wellFormed traced.grown.wellFormed inReplica).mpr precedes)

theorem Traced.call (call : DRPProxyChainArgs) : (world.call env peer call).Traced env := by
  have admissible := traced.admissible_createVertex binding peer call
  have wellFormed := (traced.replicaGrown peer).wellFormed
  have unchanged : ∀ applier : DRPVertexApplier Drp Acl,
      applier.peerId = (world.replica peer).peerId →
      applier.hashGraph = (world.replica peer).hashGraph →
        (world.setReplica peer applier).Traced env := by
    intro applier samePeer sameGraph
    apply traced.grow traced.grown (fun _ mem => mem) (samePeer.trans (traced.peers peer))
    · exact sameGraph ▸ traced.replicaGrown peer
    · exact sameGraph ▸ traced.within peer
    · intro vertex mem
      rwa [sameGraph]
    · exact fun vertex mem => Or.inl mem
  rcases world.call_cases env peer call with
    (run | run) | ⟨state, _, run⟩
  · rw [run]
    exact unchanged _ rfl rfl
  · rw [run]
    exact unchanged _ (by simp) (by simp)
  · rw [run]
    have fresh : ((world.replica peer).createVertex env call).hash ∉
        (world.replica peer).hashGraph.hashes :=
      fun mem => admissible.fresh ((traced.within peer).mem_hashes mem)
    have historyExtends : Extends world.history (world.history.addVertex
        ((world.replica peer).createVertex env call)) :=
      .single ⟨_, admissible, rfl⟩
    have replicaExtends : Extends (world.replica peer).hashGraph
        ((world.replica peer).hashGraph.addVertex ((world.replica peer).createVertex env call)) :=
      .single ⟨_, DRPVertexApplier.admissible_createVertex wellFormed fresh, rfl⟩
    have sameGraph : ((((world.replica peer).advanceCheckpointIfNeeded.assign state
        (call.type = .acl))).commit ((world.replica peer).createVertex env call)
          state).hashGraph = (world.replica peer).hashGraph.addVertex
            ((world.replica peer).createVertex env call) := by
      simp [DRPVertexApplier.commit]
    have added := mem_vertices_addVertex admissible.fresh
    apply traced.grow (traced.grown.trans historyExtends) (.of_extends historyExtends)
    · simp [DRPVertexApplier.commit, traced.peers peer]
    · rw [sameGraph]
      exact (traced.replicaGrown peer).trans replicaExtends
    · rw [sameGraph]
      refine within_addVertex (fun vertex mem => ?_) fresh added
      exact Within.of_extends historyExtends vertex (traced.within peer vertex mem)
    · rw [sameGraph]
      exact .of_extends replicaExtends
    · intro vertex mem
      rcases List.mem_filter.mp mem with ⟨present, notRoot⟩
      rw [vertices_addVertex admissible.fresh] at present
      rcases List.mem_append.mp present with old | new
      · exact Or.inl (List.mem_filter.mpr ⟨old, notRoot⟩)
      · rw [List.mem_singleton.mp new]
        refine Or.inr ⟨DRPVertexApplier.knownType_createVertex, rfl, traced.peers peer, ?_⟩
        rw [sameGraph, vertices_addVertex fresh]
        exact List.mem_append_right _ List.mem_cons_self

end

section Merge

variable {genesis : ReplayState Drp Acl} {peer : String}

structure Tracks (env : Environment Drp Acl) (genesis : ReplayState Drp Acl) (world : World Drp Acl)
    (peer : String) (applier : DRPVertexApplier Drp Acl) : Prop where
  peerId : applier.peerId = peer
  grows : Extends (world.replica peer).hashGraph applier.hashGraph
  within : applier.hashGraph.Within world.history
  recorded : env.options.SwapsAreFinal world.history → applier.Recorded env genesis

theorem Tracks.of_same {applier other : DRPVertexApplier Drp Acl}
    (tracks : Tracks env genesis world peer applier) (peerId : other.peerId = applier.peerId)
    (hashGraph : other.hashGraph = applier.hashGraph)
    (checkpoints : other.checkpoints = applier.checkpoints)
    (states : other.states = applier.states) : Tracks env genesis world peer other where
  peerId := peerId.trans tracks.peerId
  grows := hashGraph ▸ tracks.grows
  within := hashGraph ▸ tracks.within
  recorded := fun swaps => (tracks.recorded swaps).of_same hashGraph checkpoints states

theorem Tracks.applyOne (traced : world.Traced env) {merging next : Merging Drp Acl} {now : ℤ}
    {vertex : Vertex} (tracks : Tracks env genesis world peer merging.applier)
    (mem : vertex ∈ world.history.vertices)
    (applied : merging.applyOne env now vertex = .ok next) :
    Tracks env genesis world peer next.applier := by
  have wellFormed := (traced.replicaGrown peer).wellFormed.of_extends tracks.grows
  rcases Merging.applyOne_cases applied with
    ⟨_, rfl⟩ | ⟨notSkipped, staged, run, rfl⟩ | ⟨_, _, _, _, rfl⟩
  · exact tracks
  · have fresh := Merging.notMem_of_not_skips notSkipped
    rcases Outcome.then_eq_ok.mp run with ⟨valid, _⟩
    rcases traced.orderly tracks.within wellFormed mem fresh with ⟨isCreated, nodup, antichain⟩
    have admissible : merging.applier.hashGraph.Admissible vertex :=
      ⟨fresh, (validateVertex_eq_ok.mp valid).2.1, nodup, present_of_validateVertex valid, antichain⟩
    have within := within_addVertex tracks.within fresh mem
    refine ⟨tracks.peerId, tracks.grows.tail ⟨vertex, admissible, rfl⟩, within, fun swaps => ?_⟩
    have final := swaps.of_within within (wellFormed.addVertex admissible) traced.grown.wellFormed
    exact (tracks.recorded swaps).applyOne
      (fun _ _ => ⟨nodup, antichain, traced.known vertex isCreated, final⟩) applied
  · split
    · exact tracks
    · exact tracks.of_same rfl rfl rfl rfl

end Merge

/-- With swaps that are final, moreover, every replica is consistent. -/
structure Sound (env : Environment Drp Acl) (genesis : ReplayState Drp Acl) (world : World Drp Acl) :
    Prop extends Traced env world where
  consistent : env.options.SwapsAreFinal world.history →
    ∀ peer, (world.replica peer).Consistent env genesis

theorem sound_start (env : Environment Drp Acl) (checkpointSuffixSize : String → ℕ)
    (genesis : ReplayState Drp Acl) : (start checkpointSuffixSize genesis).Sound env genesis :=
  ⟨traced_start env checkpointSuffixSize genesis, fun _ _ =>
    DRPVertexApplier.consistent_create env genesis _ _⟩

section Sound

variable {genesis : ReplayState Drp Acl} {next : World Drp Acl}

theorem consistent_update (consistent : ∀ peer, (world.replica peer).Consistent env genesis)
    (peer : String) {applier : DRPVertexApplier Drp Acl} (new : applier.Consistent env genesis) :
    ∀ other, (Function.update world.replica peer applier other).Consistent env genesis :=
  (Function.forall_update_iff _ fun _ (applier : DRPVertexApplier Drp Acl) =>
    applier.Consistent env genesis).mpr ⟨new, fun other _ => consistent other⟩

theorem Sound.call (sound : world.Sound env genesis) (binding : ContentBinding env.computeHash)
    (peer : String) (call : DRPProxyChainArgs) :
    (world.call env peer call).Sound env genesis := by
  refine ⟨sound.toTraced.call binding peer call, ?_⟩
  rcases world.call_cases env peer call with
    (run | run) | ⟨state, staged, run⟩
  · rw [run]
    exact fun swaps => consistent_update (sound.consistent swaps) peer (sound.consistent swaps peer)
  · rw [run]
    exact fun swaps => consistent_update (sound.consistent swaps) peer
      (sound.consistent swaps peer).advanceCheckpointIfNeeded
  · rw [run]
    intro swaps
    have admissible := sound.toTraced.admissible_createVertex binding peer call
    have extended : world.history.Within (world.history.addVertex
        ((world.replica peer).createVertex env call)) :=
      .of_extends (.single ⟨_, admissible, rfl⟩)
    have wellFormed := sound.grown.wellFormed
    have grown := wellFormed.addVertex admissible
    have consistent := sound.consistent (swaps.of_within extended wellFormed grown)
    have fresh : ((world.replica peer).createVertex env call).hash ∉
        (world.replica peer).hashGraph.hashes :=
      fun mem => admissible.fresh ((sound.within peer).mem_hashes mem)
    have added := mem_vertices_addVertex admissible.fresh
    have replicaFormed := (sound.replicaGrown peer).wellFormed
    have replicaSwaps := swaps.of_within (within_addVertex
      (fun vertex mem => extended vertex (sound.within peer vertex mem)) fresh added)
      (replicaFormed.addVertex (DRPVertexApplier.admissible_createVertex replicaFormed fresh)) grown
    apply consistent_update consistent
    have committed := (consistent peer).advanceCheckpointIfNeeded.commit_createVertex
      (by simpa using fresh) (by simpa using replicaSwaps) (by simpa using staged)
    simpa using committed

theorem Sound.merge (sound : world.Sound env genesis) {peer : String} {batch : List (ℤ × Vertex)}
    {result : ApplyResult} (known : ∀ entry ∈ batch, entry.2 ∈ world.history.vertices)
    (returned : ((world.replica peer).applyVertices env batch).2 = .ok result) :
    (world.merge env peer batch).Sound env genesis := by
  have start : Tracks env genesis world peer (Merging.start (world.replica peer)).applier :=
    ⟨sound.peers peer, .refl, sound.within peer, fun swaps => (sound.consistent swaps peer).toRecorded⟩
  rcases DRPVertexApplier.applyVertices_eq_ok returned with
    ⟨merging, replica, looped, replayed, final, _⟩
  have tracks : Tracks env genesis world peer merging.applier := by
    rcases @Merging.applyEach_invariant _ _ env _
        (fun merging => Tracks env genesis world peer merging.applier) batch
        (fun _ _ entry mem tracks applied =>
          tracks.applyOne sound.toTraced (known entry mem) applied) start with
      ⟨final, same, tracks⟩ | ⟨_, _, failed, _⟩
    · rw [looped] at same
      cases same
      exact tracks
    · rw [looped] at failed
      cases failed
  have settled : Tracks env genesis world peer (merging.settleMissing batch.length).applier := by
    rcases Merging.exists_known_settleMissing batch.length merging with ⟨known, same⟩
    rw [same]
    exact tracks.of_same rfl rfl rfl rfl
  rcases DRPVertexApplier.replayFrontier_eq_ok.mp replayed with ⟨state, _, sameReplica⟩
  have sameGraph : replica.advanceCheckpointIfNeeded.hashGraph =
      (merging.settleMissing batch.length).applier.hashGraph := by
    rw [DRPVertexApplier.hashGraph_advanceCheckpointIfNeeded, sameReplica]
  rw [World.merge, final, setReplica]
  refine ⟨sound.toTraced.grow sound.grown (fun _ mem => mem) ?_ ?_ ?_ ?_ fun _ mem => Or.inl mem,
    fun swaps => ?_⟩
  · rw [DRPVertexApplier.peerId_advanceCheckpointIfNeeded, sameReplica]
    exact settled.peerId
  · rw [sameGraph]
    exact (sound.replicaGrown peer).trans settled.grows
  · rw [sameGraph]
    exact settled.within
  · rw [sameGraph]
    exact .of_extends settled.grows
  · apply consistent_update (sound.consistent swaps)
    have recorded := settled.recorded swaps
    exact (recorded.replayFrontier (swaps.of_within settled.within recorded.grown.wellFormed
      sound.grown.wellFormed) replayed).advanceCheckpointIfNeeded

theorem Sound.step (sound : world.Sound env genesis) (binding : ContentBinding env.computeHash)
    (step : Step env world next) : next.Sound env genesis := by
  cases step with
  | call peer call =>
    exact sound.call binding peer call
  | merge peer batch result known returned => exact sound.merge known returned

theorem Reachable.sound {checkpointSuffixSize : String → ℕ}
    (reachable : Reachable env checkpointSuffixSize genesis world)
    (binding : ContentBinding env.computeHash) : world.Sound env genesis := by
  induction reachable with
  | refl => exact sound_start env checkpointSuffixSize genesis
  | tail _ step ih => exact ih.step binding step

theorem Traced.same_replay (traced : world.Traced env) {left right : String}
    (same : ∀ hash, hash ∈ (world.replica left).hashGraph.hashes ↔
      hash ∈ (world.replica right).hashGraph.hashes) :
    (∀ hash, hash ∈ (world.replica left).hashGraph.frontier ↔
      hash ∈ (world.replica right).hashGraph.frontier) ∧
    env.replayOf genesis (world.replica left).hashGraph (world.replica left).hashGraph.frontier =
      env.replayOf genesis (world.replica right).hashGraph
        (world.replica right).hashGraph.frontier := by
  have history := traced.grown.wellFormed
  have leftFormed := (traced.replicaGrown left).wellFormed
  have rightFormed := (traced.replicaGrown right).wellFormed
  have sameVertex : ∀ hash ∈ (world.replica left).hashGraph.hashes,
      (world.replica left).hashGraph.getVertex hash =
        (world.replica right).hashGraph.getVertex hash := by
    intro hash mem
    rw [← (traced.within left).getVertex_eq history mem,
      (traced.within right).getVertex_eq history ((same hash).mp mem)]
  have sameDependency : ∀ earlier later, (world.replica left).hashGraph.Dependency earlier later ↔
      (world.replica right).hashGraph.Dependency earlier later := by
    intro earlier later
    constructor
    · intro dependency
      have mem := dependency.later_mem
      exact ((traced.within right).dependency_iff history ((same later).mp mem)).mpr
        (((traced.within left).dependency_iff history mem).mp dependency)
    · intro dependency
      have mem := dependency.later_mem
      exact ((traced.within left).dependency_iff history ((same later).mpr mem)).mpr
        (((traced.within right).dependency_iff history mem).mp dependency)
  refine ⟨fun hash => ?_, ?_⟩
  · rw [leftFormed.frontier, rightFormed.frontier, same hash]
    simp only [sameDependency]
  · apply env.replayOf_congr genesis leftFormed rightFormed leftFormed.frontier_ne_nil
      rightFormed.frontier_ne_nil leftFormed.frontier_present rightFormed.frontier_present
    · intro hash
      rw [leftFormed.mem_causalPast_frontier, rightFormed.mem_causalPast_frontier, same hash]
    · intro hash mem
      exact sameVertex hash (leftFormed.mem_causalPast_frontier.mp mem)

/--
Strong eventual consistency.  In every run in which a vertex that a swap brings
forward conflicts with no other created vertex, two replicas that hold the same
vertices have the same frontier, the same live ACL and the same live DRP.
-/
theorem same_vertices_same_state {checkpointSuffixSize : String → ℕ}
    (binding : ContentBinding env.computeHash)
    (reachable : Reachable env checkpointSuffixSize genesis world)
    (swaps : env.options.SwapsAreFinal world.history) (left right : String)
    (same : ∀ hash, hash ∈ (world.replica left).hashGraph.hashes ↔
      hash ∈ (world.replica right).hashGraph.hashes) :
    (∀ hash, hash ∈ (world.replica left).hashGraph.frontier ↔
      hash ∈ (world.replica right).hashGraph.frontier) ∧
    (world.replica left).live.aclState = (world.replica right).live.aclState ∧
    (world.replica left).live.drpState = (world.replica right).live.drpState := by
  have sound := reachable.sound binding
  rcases @Traced.same_replay _ _ env world genesis sound.toTraced left right same with
    ⟨sameFrontier, sameReplay⟩
  rw [(sound.consistent swaps left).live, (sound.consistent swaps right).live] at sameReplay
  have sameLive := Except.ok.inj sameReplay
  exact ⟨sameFrontier, congrArg ReplayState.aclState sameLive, congrArg ReplayState.drpState sameLive⟩

end Sound

end World

namespace NamedHash

/-- There are no numbers in the texts used here. -/
def noNumbers : Json.NumberFormat Empty where
  text := Empty.elim
  injective := fun number => number.elim
  nonempty := fun number => number.elim
  chars := fun number => number.elim

def spelled (peerId : String) (dependencies : List Hash) : Hash :=
  .ofList (Json.text noNumbers (.array ((peerId :: dependencies).map .string)))

/-- A hash function that gives short names to some vertices and spells out the others. -/
def namedHash (names : List ((String × List Hash) × Hash)) : ComputeHash :=
  fun peerId _ dependencies _ =>
    (names.lookup (peerId, dependencies)).getD (spelled peerId dependencies)

theorem spelled_inj {peerId peerId' : String} {dependencies dependencies' : List Hash}
    (same : spelled peerId dependencies = spelled peerId' dependencies') :
    peerId = peerId' ∧ dependencies = dependencies' := by
  have delimited : Json.Delimited [] := fun char mem => by cases mem
  have sameText := congrArg (· ++ []) (String.ofList_injective same)
  have sameArray := (Json.text_append_inj noNumbers _ _ delimited delimited sameText).1
  have injective : Function.Injective (Json.string : String → Json Empty) :=
    fun _ _ same => by cases same; rfl
  exact List.cons.inj (List.map_injective_iff.mpr injective (Json.array.inj sameArray))

theorem contentBinding_namedHash {names : List ((String × List Hash) × Hash)}
    (nodup : (names.map (·.2)).Nodup)
    (short : ∀ entry ∈ names, entry.2.toList.head? ≠ some '[' ∧ entry.2 ≠ rootHash) :
    ContentBinding (namedHash names) := by
  have named : ∀ {key name}, names.lookup key = some name → (key, name) ∈ names := by
    intro key name found
    rcases List.lookup_eq_some_iff.mp found with ⟨before, after, rfl, _⟩
    exact List.mem_append_right _ List.mem_cons_self
  have spelledHead : ∀ peerId dependencies,
      (spelled peerId dependencies).toList.head? = some '[' := by
    simp [spelled, Json.text]
  refine ⟨fun {peerId peerId' _ _ dependencies dependencies' _ _} same => ?_,
    fun {peerId _ dependencies _} _ same => ?_⟩
  · unfold namedHash at same
    cases found : names.lookup (peerId, dependencies) with
    | none =>
      cases found' : names.lookup (peerId', dependencies') with
      | none =>
        rw [found, found'] at same
        exact spelled_inj same
      | some name =>
        rw [found, found', Option.getD_none, Option.getD_some] at same
        exact absurd (same ▸ spelledHead peerId dependencies) (short _ (named found')).1
    | some name =>
      cases found' : names.lookup (peerId', dependencies') with
      | none =>
        rw [found, found', Option.getD_none, Option.getD_some] at same
        exact absurd (same ▸ spelledHead peerId' dependencies') (short _ (named found)).1
      | some name' =>
        rw [found, found', Option.getD_some, Option.getD_some] at same
        have sameEntry := List.inj_on_of_nodup_map nodup (named found) (named found') same
        exact Prod.mk.inj (Prod.mk.inj sameEntry).1
  · unfold namedHash at same
    cases found : names.lookup (peerId, dependencies) with
    | none =>
      rw [found, Option.getD_none] at same
      have head := spelledHead peerId dependencies
      rw [same] at head
      exact absurd head (by decide)
    | some name =>
      rw [found, Option.getD_some] at same
      exact (short _ (named found)).2 same

end NamedHash

namespace SwapExample

open NamedHash

def names : List ((String × List Hash) × Hash) :=
  [(("p", [rootHash]), "a"), (("q", [rootHash]), "b"), (("r", [rootHash]), "c"),
    (("p", ["a", "b", "c"]), "m")]

def environment (resolve : ResolveConflictFn) : Environment (List String) Unit where
  options := withResolver resolve
  semantics := Option.some_ne_none _
  code := recorder
  computeHash := namedHash names
  fuel := 3

theorem contentBinding_names : ContentBinding (namedHash names) :=
  contentBinding_namedHash (by decide) (by decide +kernel)

def received (env : Environment (List String) Unit) (world : World (List String) Unit)
    (peer : String) : Except JsError ApplyResult :=
  ((world.replica peer).applyVertices env
    (world.history.vertices.map fun vertex => (0, vertex))).2

def deliver (env : Environment (List String) Unit) (peer : String)
    (world : World (List String) Unit) : World (List String) Unit :=
  world.merge env peer (world.history.vertices.map fun vertex => (0, vertex))

def concurrent (env : Environment (List String) Unit) : World (List String) Unit :=
  (((World.start (fun _ => 256) ⟨[], ()⟩).call env "p" ⟨0, 0, .drp, "mul", []⟩).call env
    "q" ⟨0, 0, .drp, "inc", []⟩).call env "r" ⟨0, 0, .drp, "add", []⟩

def continued (env : Environment (List String) Unit) : World (List String) Unit :=
  (deliver env "p" (concurrent env)).call env "p" ⟨0, 0, .drp, "inc", []⟩

def delivered (env : Environment (List String) Unit) : World (List String) Unit :=
  deliver env "q" (continued env)

theorem deliver_step {env : Environment (List String) Unit} {world : World (List String) Unit}
    {peer : String} {result : ApplyResult} (returned : received env world peer = .ok result) :
    World.Step env world (deliver env peer world) := by
  refine .merge world peer _ result (fun entry mem => ?_) returned
  rcases List.mem_map.mp mem with ⟨vertex, vertexMem, rfl⟩
  exact vertexMem

theorem delivered_reachable {env : Environment (List String) Unit} {first second : ApplyResult}
    (firstReturned : received env (concurrent env) "p" = .ok first)
    (secondReturned : received env (continued env) "q" = .ok second) :
    World.Reachable env (fun _ => 256) ⟨[], ()⟩ (delivered env) := by
  have created : World.Reachable env (fun _ => 256) ⟨[], ()⟩ (concurrent env) :=
    .tail (.tail (.tail .refl (.call _ "p" ⟨0, 0, .drp, "mul", []⟩)) (.call _ "q" ⟨0, 0, .drp, "inc", []⟩))
      (.call _ "r" ⟨0, 0, .drp, "add", []⟩)
  exact .tail (.tail (.tail created (deliver_step firstReturned)) (.call _ "p" ⟨0, 0, .drp, "inc", []⟩))
    (deliver_step secondReturned)

end SwapExample

open SwapExample in
theorem same_vertices_same_state_addFirst :
    ((delivered (environment addFirst)).replica "p").live.drpState =
      ((delivered (environment addFirst)).replica "q").live.drpState := by
  have reachable := @delivered_reachable (environment addFirst) ⟨true, [], []⟩ ⟨true, [], []⟩
    (by decide +kernel) (by decide +kernel)
  have swaps : (environment addFirst).options.SwapsAreFinal
      (delivered (environment addFirst)).history := by
    intro _ _
    decide +kernel
  have same : List.Perm ((delivered (environment addFirst)).replica "p").hashGraph.hashes
      ((delivered (environment addFirst)).replica "q").hashGraph.hashes := by decide +kernel
  exact (World.same_vertices_same_state contentBinding_names reachable swaps "p" "q"
    fun _ => same.mem_iff).2.2

open SwapExample in
/--
A resolver that swaps and then drops: the call of `p` builds on a state without
the multiplication, which `q` keeps when it replays everything from the root.
-/
theorem swap_separates_replicas :
    World.Reachable (environment addOnly) (fun _ => 256) ⟨[], ()⟩
      (delivered (environment addOnly)) ∧
    (∀ hash, hash ∈ ((delivered (environment addOnly)).replica "p").hashGraph.hashes ↔
      hash ∈ ((delivered (environment addOnly)).replica "q").hashGraph.hashes) ∧
    ((delivered (environment addOnly)).replica "p").live.drpState = ["add", "inc", "inc"] ∧
    ((delivered (environment addOnly)).replica "q").live.drpState = ["add", "inc", "mul", "inc"] := by
  have same : List.Perm ((delivered (environment addOnly)).replica "p").hashGraph.hashes
      ((delivered (environment addOnly)).replica "q").hashGraph.hashes := by decide +kernel
  refine ⟨@delivered_reachable (environment addOnly) ⟨true, [], []⟩ ⟨true, [], []⟩
    (by decide +kernel) (by decide +kernel), fun _ => same.mem_iff, ?_, ?_⟩
  · decide +kernel
  · decide +kernel

end TsDrp
