import TsDrp.Replication

/-!
# Acceptance against the own past

A vertex is checked and run on the replay of its causal past, whichever replica
and pipeline does it: a local call on the live object, the remote pipeline on a
snapshot or on a replay from a checkpoint.  Whether it is accepted depends on
that past alone.
-/

namespace TsDrp

open HashGraph

/-- The operation of the vertex ran on the replay of the vertex's own past. -/
def Environment.AcceptedOnPast {Drp Acl : Type} (env : Environment Drp Acl)
    (genesis : ReplayState Drp Acl) (graph : HashGraph) (vertex : Vertex) : Prop :=
  ∃ base staged, env.replayOf genesis graph vertex.dependencies = .ok base ∧
    env.code.stage base [] vertex vertex.isACL = .ok staged

section Accepted

variable {Drp Acl : Type} {env : Environment Drp Acl} {genesis : ReplayState Drp Acl}

instance (graph : HashGraph) (vertex : Vertex) :
    Decidable (env.AcceptedOnPast genesis graph vertex) :=
  decidable_of_iff
    ((env.replayOf genesis graph vertex.dependencies >>= fun base =>
      env.code.stage base [] vertex vertex.isACL).toBool = true) <| by
    unfold Environment.AcceptedOnPast
    cases env.replayOf genesis graph vertex.dependencies with
    | error error => simp [Except.toBool]
    | ok base =>
      rw [Outcome.ok_bind]
      cases run : env.code.stage base [] vertex vertex.isACL with
      | error error => simp [Except.toBool, run]
      | ok staged => simp [Except.toBool, run, -Prod.exists]

theorem Environment.AcceptedOnPast.of_within {graph whole : HashGraph} {vertex : Vertex}
    (accepted : env.AcceptedOnPast genesis graph vertex) (within : graph.Within whole)
    (wellFormed : graph.WellFormed) (wholeFormed : whole.WellFormed)
    (nonempty : vertex.dependencies ≠ [])
    (present : ∀ dependency ∈ vertex.dependencies, dependency ∈ graph.hashes) :
    env.AcceptedOnPast genesis whole vertex := by
  rcases accepted with ⟨base, staged, replayed, run⟩
  rw [env.replayOf_within genesis within wellFormed wholeFormed nonempty present] at replayed
  exact ⟨base, staged, replayed, run⟩

/--
In every run of replicas that make local calls and merge each other's vertices,
each vertex was accepted on the replay of its own past.
-/
theorem World.Reachable.accepted {world : World Drp Acl} {checkpointSuffixSize : String → ℕ}
    (reachable : World.Reachable env checkpointSuffixSize genesis world)
    (binding : ContentBinding env.computeHash) (swaps : env.options.SwapsAreFinal world.history) :
    ∀ vertex ∈ world.history.created, env.AcceptedOnPast genesis world.history vertex := by
  induction reachable with
  | refl =>
    intro vertex mem
    cases mem
  | @tail world next reachable step ih =>
    cases step with
    | merge peer batch result known returned => exact ih swaps
    | call peer call =>
      have sound := World.Reachable.sound reachable binding
      rcases world.call_cases env peer call with
        (run | run) | ⟨state, staged, run⟩
      · rw [run] at swaps ⊢
        exact ih swaps
      · rw [run] at swaps ⊢
        exact ih swaps
      · rw [run] at swaps ⊢
        intro vertex mem
        have admissible :=
          sound.toTraced.admissible_createVertex binding peer call
        have wellFormed := sound.grown.wellFormed
        have grown := wellFormed.addVertex admissible
        have extended : world.history.Within (world.history.addVertex
            ((world.replica peer).createVertex env call)) :=
          .of_extends (.single ⟨_, admissible, rfl⟩)
        rcases List.mem_filter.mp mem with ⟨present, notRoot⟩
        rw [vertices_addVertex admissible.fresh] at present
        rcases List.mem_append.mp present with old | new
        · have found := dependenciesOf_eq (getVertex_of_mem wellFormed.nodup old)
          have accepted := ih (swaps.of_within extended wellFormed grown) vertex
            (List.mem_filter.mpr ⟨old, notRoot⟩)
          apply accepted.of_within extended wellFormed grown
          · rw [← found]
            exact wellFormed.nonempty _ (hash_mem_of_mem old) (by simpa using notRoot)
          · intro dependency dependencyMem
            rw [← found] at dependencyMem
            exact wellFormed.present dependencyMem
        · -- The new vertex ran on the live object, which is the replay of the frontier.
          rw [List.mem_singleton.mp new]
          have live := (sound.consistent (swaps.of_within extended wellFormed grown) peer).live
          have replicaFormed := (sound.replicaGrown peer).wellFormed
          rw [env.replayOf_within genesis (sound.within peer) replicaFormed wellFormed
            replicaFormed.frontier_ne_nil replicaFormed.frontier_present] at live
          have accepted : env.AcceptedOnPast genesis world.history
              ((world.replica peer).createVertex env call) := by
            refine ⟨_, (state, true), live, ?_⟩
            rw [DRPVertexApplier.isACL_createVertex]
            exact staged
          exact accepted.of_within extended wellFormed grown admissible.nonempty
            admissible.present

end Accepted

namespace DRPVertexApplier

variable {Drp Acl : Type} {env : Environment Drp Acl} {genesis : ReplayState Drp Acl}
  {applier : DRPVertexApplier Drp Acl} {vertex : Vertex} {now : ℤ}

theorem Recorded.stageVertex_eq_ok (recorded : applier.Recorded env genesis)
    (swaps : env.options.SwapsAreFinal applier.hashGraph)
    (valid : validateVertex env.computeHash vertex applier.hashGraph now false = .ok ())
    {base : ReplayState Drp Acl} {staged : ReplayState Drp Acl × Bool}
    (replayed : env.replayOf genesis applier.hashGraph vertex.dependencies = .ok base)
    (run : env.code.stage base [] vertex vertex.isACL = .ok staged) :
    applier.stageVertex env now vertex vertex.isACL = .ok staged := by
  have lca := recorded.getLCA_replay swaps (validateVertex_eq_ok.mp valid).2.1
    (present_of_validateVertex valid)
  rw [replayed] at lca
  rcases Outcome.bind_eq_ok.mp lca with ⟨⟨start, linearizedVertices⟩, found, replayed⟩
  rcases ObjectCode.stage_eq_ok.mp run with ⟨_, same, permitted, applied⟩
  cases same
  rw [stageVertex, valid, Outcome.ok_bind, found, Outcome.ok_bind]
  exact ObjectCode.stage_eq_ok.mpr ⟨base, replayed, permitted, applied⟩

end DRPVertexApplier

end TsDrp
