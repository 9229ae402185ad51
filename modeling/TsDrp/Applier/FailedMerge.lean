import TsDrp.Acl.Authority
import TsDrp.Applier.Acceptance

/-!
# Merges that fail

A merge adds the vertices of its batch to the graph one by one and rebuilds the
live object only at its end.  An exception in between leaves vertices in the
graph that the live object has not seen, and later local calls record states
that lack them.  A batch in which no vertex raises an exception after another
one was accepted, and whose vertices can be replayed, leaves the replica
consistent, whether the merge returns or not.
-/

namespace TsDrp

open HashGraph Merging

/-- A later moment of the graph, at which none but the given vertices have been added. -/
structure HashGraph.GrownBy (graph : HashGraph) (vertices : List Vertex) (after : HashGraph) :
    Prop where
  grows : Extends graph after
  new : ∀ vertex ∈ after.vertices, vertex ∈ graph.vertices ∨ vertex ∈ vertices

section

variable {graph after : HashGraph} {vertices : List Vertex} (grown : graph.GrownBy vertices after)
include grown

theorem HashGraph.GrownBy.mono {more : List Vertex} (subset : vertices ⊆ more) :
    graph.GrownBy more after :=
  ⟨grown.grows, fun vertex mem => (grown.new vertex mem).imp_right fun mem => subset mem⟩

theorem HashGraph.GrownBy.addVertex {vertex : Vertex} (admissible : after.Admissible vertex) :
    graph.GrownBy (vertices ++ [vertex]) (after.addVertex vertex) := by
  refine ⟨grown.grows.tail ⟨vertex, admissible, rfl⟩, fun other mem => ?_⟩
  rw [vertices_addVertex admissible.fresh, List.mem_append] at mem
  rcases mem with old | new
  · exact (grown.new other old).imp_right (List.mem_append_left _)
  · exact Or.inr (List.mem_append_right _ new)

theorem HashGraph.GrownBy.cases_head :
    after = graph ∨ ∃ vertex ∈ vertices, graph.Admissible vertex ∧
      Extends (graph.addVertex vertex) after := by
  rcases Relation.ReflTransGen.cases_head grown.grows with same | ⟨next, ⟨vertex, admissible, rfl⟩, rest⟩
  · exact Or.inl same.symm
  · have added := mem_vertices_addVertex admissible.fresh
    rcases grown.new vertex (Within.of_extends rest vertex added) with old | new
    · exact absurd (hash_mem_of_mem old) admissible.fresh
    · exact Or.inr ⟨vertex, new, admissible, rest⟩

end

theorem HashGraph.GrownBy.eq_of_singleton {graph after : HashGraph} {vertex : Vertex}
    (grown : graph.GrownBy [vertex] after) :
    after = graph ∨ graph.Admissible vertex ∧ after = graph.addVertex vertex := by
  rcases grown.cases_head with same | ⟨other, mem, admissible, rest⟩
  · exact Or.inl same
  · cases List.mem_singleton.mp mem
    refine Or.inr ⟨admissible, ?_⟩
    have again : (graph.addVertex vertex).GrownBy [vertex] after := by
      refine ⟨rest, fun other mem => (grown.new other mem).imp_left fun old => ?_⟩
      rw [vertices_addVertex admissible.fresh]
      exact List.mem_append_left _ old
    rcases again.cases_head with same | ⟨other, mem, twice, _⟩
    · exact same
    · cases List.mem_singleton.mp mem
      refine absurd ?_ twice.fresh
      rw [hashes_addVertex admissible.fresh]
      exact List.mem_append_right _ List.mem_cons_self

namespace DRPVertexApplier

variable {Drp Acl : Type}

/--
A batch that does no harm, in terms of the graph before the merge: at every
moment the merge can come to, a vertex that passes the validation is orderly and,
once a vertex has been added, runs on its past to a list whose signers can be
sorted; and what has been added can be replayed.
-/
structure Careful (env : Environment Drp Acl) (genesis : ReplayState Drp Acl) (graph : HashGraph)
    (batch : List (ℤ × Vertex)) : Prop where
  swaps : env.options.SwapsAreFinal graph
  orderly : ∀ before entry rest, batch = before ++ entry :: rest →
    ∀ after, graph.GrownBy (before.map (·.2)) after → entry.2.hash ∉ after.hashes →
      validateVertex env.computeHash entry.2 after entry.1 false = .ok () →
        Orderly env.options after entry.2
  runs : ∀ before entry rest, batch = before ++ entry :: rest →
    ∀ after, graph.GrownBy (before.map (·.2)) after → after ≠ graph → entry.2.hash ∉ after.hashes →
      validateVertex env.computeHash entry.2 after entry.1 false = .ok () →
        ∃ base staged, env.replayOf genesis after entry.2.dependencies = .ok base ∧
          env.code.stage base [] entry.2 entry.2.isACL = .ok staged ∧
          env.code.initializeFinalityStore staged.1.aclState = .ok ()
  replays : ∀ after, graph.GrownBy (batch.map (·.2)) after →
    ∃ state, env.replayOf genesis after after.frontier = .ok state

theorem careful_singleton {env : Environment Drp Acl} {genesis : ReplayState Drp Acl}
    {graph : HashGraph} {now : ℤ} {vertex : Vertex} (swaps : env.options.SwapsAreFinal graph)
    (orderly : Orderly env.options graph vertex)
    (replays : ∃ state, env.replayOf genesis graph graph.frontier = .ok state)
    (added : ∃ state, env.replayOf genesis (graph.addVertex vertex)
      (graph.addVertex vertex).frontier = .ok state) :
    Careful env genesis graph [(now, vertex)] := by
  have first : ∀ {before entry rest after}, [(now, vertex)] = before ++ entry :: rest →
      graph.GrownBy (before.map (·.2)) after → after = graph ∧ entry.2 = vertex := by
    intro before entry rest after split grown
    rcases List.cons_eq_append_iff.mp split with ⟨rfl, same⟩ | ⟨_, rfl, impossible⟩
    · cases same
      rcases grown.cases_head with same | ⟨_, mem, _⟩
      · exact ⟨same, rfl⟩
      · cases mem
    · simp at impossible
  refine ⟨swaps, ?_, ?_, ?_⟩
  · intro before entry rest split after grown _ _
    rcases first split grown with ⟨rfl, same⟩
    rw [same]
    exact orderly
  · intro before entry rest split after grown different
    exact absurd (first split grown).1 different
  · intro after grown
    rcases grown.eq_of_singleton with rfl | ⟨_, rfl⟩
    · exact replays
    · exact added

/-- The replica in the loop of a merge, when some of the batch has been gone through. -/
structure Underway (env : Environment Drp Acl) (genesis : ReplayState Drp Acl)
    (applier : DRPVertexApplier Drp Acl) (before : List (ℤ × Vertex))
    (current : DRPVertexApplier Drp Acl) : Prop where
  recorded : current.Recorded env genesis
  swaps : env.options.SwapsAreFinal current.hashGraph
  grown : applier.hashGraph.GrownBy (before.map (·.2)) current.hashGraph
  live : current.live = applier.live

variable {env : Environment Drp Acl} {genesis : ReplayState Drp Acl}
  {applier : DRPVertexApplier Drp Acl} {batch before rest : List (ℤ × Vertex)}

section

variable {merging : Merging Drp Acl}
  (underway : Underway env genesis applier before merging.applier)
  (careful : Careful env genesis applier.hashGraph batch)
include underway careful

theorem Underway.exists_applyOne {entry : ℤ × Vertex} (split : batch = before ++ entry :: rest)
    (different : merging.applier.hashGraph ≠ applier.hashGraph) :
    ∃ next, merging.applyOne env entry.1 entry.2 = .ok next := by
  unfold applyOne
  split
  · exact ⟨_, rfl⟩
  · rename_i notSkipped
    have fresh := notMem_of_not_skips (Bool.not_eq_true _ ▸ notSkipped)
    cases valid : validateVertex env.computeHash entry.2 merging.applier.hashGraph entry.1 false with
    | error failure =>
      have isFailure := isValidationFailure_of_validateVertex valid
      have staged : merging.applier.stageVertex env entry.1 entry.2
          entry.2.isACL = .error failure := by
        rw [stageVertex, valid]
        rfl
      rw [staged, settle, catchError, if_pos isFailure]
      exact ⟨_, rfl⟩
    | ok _ =>
      rcases careful.runs before entry rest split _ underway.grown different fresh valid with
        ⟨base, staged, replayed, run, initialized⟩
      rw [underway.recorded.stageVertex_eq_ok underway.swaps valid replayed run, settle,
        finishVertex_eq_ok.mpr ⟨initialized, rfl⟩]
      exact ⟨_, rfl⟩

theorem Underway.applyOne {entry : ℤ × Vertex} (split : batch = before ++ entry :: rest) :
    (∃ next, merging.applyOne env entry.1 entry.2 = .ok next ∧
        Underway env genesis applier (before ++ [entry]) next.applier) ∨
      ∃ thrown, merging.applyOne env entry.1 entry.2 = .error thrown ∧
        Underway env genesis applier before thrown.applier ∧
        thrown.applier.hashGraph = applier.hashGraph := by
  have passed : ∀ {current : DRPVertexApplier Drp Acl}, Underway env genesis applier before current →
      Underway env genesis applier (before ++ [entry]) current := by
    intro current underway
    refine ⟨underway.recorded, underway.swaps, underway.grown.mono ?_, underway.live⟩
    rw [List.map_append]
    exact List.subset_append_left _ _
  cases applied : merging.applyOne env entry.1 entry.2 with
  | ok next =>
    refine Or.inl ⟨next, rfl, ?_⟩
    rcases applyOne_cases applied with
      ⟨_, rfl⟩ | ⟨notSkipped, ⟨state, changed⟩, staged, rfl⟩ | ⟨_, _, _, _, rfl⟩
    · exact passed underway
    · have fresh := notMem_of_not_skips notSkipped
      rcases Outcome.then_eq_ok.mp staged with ⟨valid, _⟩
      have orderly := careful.orderly before entry rest split _ underway.grown fresh valid
      have admissible := orderly.admissible fresh staged
      refine ⟨underway.recorded.applyOne (fun _ _ => orderly) applied, orderly.swaps, ?_,
        underway.live⟩
      rw [List.map_append]
      exact underway.grown.addVertex admissible
    · split
      · exact passed underway
      · exact passed ⟨underway.recorded.of_same rfl rfl rfl, underway.swaps, underway.grown,
          underway.live⟩
  | error thrown =>
    rcases applyOne_eq_error applied with ⟨notSkipped, reason⟩
    have fresh := notMem_of_not_skips notSkipped
    have unchanged : merging.applier.hashGraph = applier.hashGraph := by
      by_contra different
      rcases underway.exists_applyOne careful split different with ⟨next, returns⟩
      rw [applied] at returns
      cases returns
    refine Or.inr ⟨thrown, rfl, ?_⟩
    rcases reason with ⟨_, _, rfl⟩ | ⟨staged, _, _, same⟩
    · exact ⟨underway, unchanged⟩
    · rw [same]
      exact ⟨⟨underway.recorded.assignState fresh, underway.swaps, underway.grown, underway.live⟩,
        unchanged⟩

theorem Underway.applyEach (split : batch = before ++ rest) :
    (∃ final, applyEach env merging rest = .ok final ∧
        Underway env genesis applier batch final.applier) ∨
      ∃ thrown before, applyEach env merging rest = .error thrown ∧
        Underway env genesis applier before thrown.applier ∧
        thrown.applier.hashGraph = applier.hashGraph := by
  induction rest generalizing before merging with
  | nil =>
    rw [List.append_nil] at split
    exact Or.inl ⟨merging, rfl, split ▸ underway⟩
  | cons entry rest ih =>
    rcases underway.applyOne careful split with ⟨next, applied, underway⟩ | ⟨thrown, applied, same⟩
    · rw [applyEach, applied]
      exact ih underway (by rw [split, List.append_assoc, List.singleton_append])
    · rw [applyEach, applied]
      exact Or.inr ⟨thrown, before, rfl, same⟩

end

theorem Consistent.applyVertices (consistent : applier.Consistent env genesis)
    (careful : Careful env genesis applier.hashGraph batch) :
    (applier.applyVertices env batch).1.Consistent env genesis := by
  have start : Underway env genesis applier [] (start applier).applier :=
    ⟨consistent.toRecorded, careful.swaps, ⟨.refl, fun _ mem => Or.inl mem⟩, rfl⟩
  have loop := start.applyEach careful rfl
  rcases applyVertices_cases env applier batch with
    ⟨thrown, looped, run⟩ | ⟨merging, looped, ending⟩
  · rw [run]
    rw [looped] at loop
    rcases loop with ⟨_, impossible, _⟩ | ⟨_, before, same, underway, sameGraph⟩
    · cases impossible
    · cases same
      refine ⟨underway.recorded, ?_⟩
      rw [underway.live, sameGraph]
      exact consistent.live
  · rw [looped] at loop
    rcases loop with ⟨_, same, underway⟩ | ⟨_, _, impossible, _⟩
    · cases same
      have recorded := underway.recorded.settleMissing batch.length
      rcases exists_known_settleMissing batch.length merging with ⟨known, sameApplier⟩
      have sameGraph : (merging.settleMissing batch.length).applier.hashGraph =
          merging.applier.hashGraph := by rw [sameApplier]
      have swaps := underway.swaps
      rw [← sameGraph] at swaps
      rcases careful.replays _ underway.grown with ⟨state, replayed⟩
      rw [← sameGraph] at replayed
      have wellFormed := recorded.grown.wellFormed
      rcases ending with ⟨thrown, failed, run⟩ | ⟨next, returned, run⟩
      · have returns := replayFrontier_eq_ok.mpr ⟨state, (recorded.getReplay_replay swaps
          wellFormed.frontier_ne_nil wellFormed.frontier_present).trans replayed, rfl⟩
        rw [failed] at returns
        cases returns
      · rw [run]
        exact (recorded.replayFrontier swaps returned).advanceCheckpointIfNeeded
    · cases impossible

theorem Consistent.callFn (consistent : applier.Consistent env genesis)
    (layered : applier.hashGraph.Layered env.computeHash) (binding : ContentBinding env.computeHash)
    (call : DRPProxyChainArgs)
    (swaps : env.options.SwapsAreFinal
      (applier.hashGraph.addVertex (applier.createVertex env call))) :
    (applier.callFn env call).1.Consistent env genesis := by
  rcases callFn_cases env applier call with
    ⟨_, run | run⟩ | ⟨state, _, staged, run⟩
  · rw [run]
    exact consistent
  · rw [run]
    exact consistent.advanceCheckpointIfNeeded
  · rw [run]
    have fresh := fresh_createVertex layered binding call
    have committed := consistent.advanceCheckpointIfNeeded.commit_createVertex
      (by simpa using fresh) (by simpa using swaps) (by simpa using staged)
    simpa using committed

/-- A local call whose swaps are final, or a merge of a careful batch. -/
inductive CarefulStep (env : Environment Drp Acl) (genesis : ReplayState Drp Acl) :
    DRPVertexApplier Drp Acl → DRPVertexApplier Drp Acl → Prop where
  | call (applier : DRPVertexApplier Drp Acl) (call : DRPProxyChainArgs)
      (swaps : env.options.SwapsAreFinal
        (applier.hashGraph.addVertex (applier.createVertex env call))) :
      CarefulStep env genesis applier (applier.callFn env call).1
  | merge (applier : DRPVertexApplier Drp Acl) (batch : List (ℤ × Vertex))
      (careful : Careful env genesis applier.hashGraph batch) :
      CarefulStep env genesis applier (applier.applyVertices env batch).1

end DRPVertexApplier

namespace AclExample

def pairGenesis : ReplayState (List String) ObjectACL := ⟨[], .create ["alice", "bob"] false none⟩

def failNames : List ((String × List Hash) × Hash) :=
  [(("alice", [rootHash]), "v"), (("mallory", [rootHash]), "w"), (("bob", ["v"]), "m")]

def permitted : Vertex := vertex "v" "alice" .drp "add" [] [rootHash]

def forbidden : Vertex := vertex "w" "mallory" .drp "inc" [] [rootHash]

def bystander : DRPVertexApplier (List String) ObjectACL := .create "bob" 256 pairGenesis

def after (applier : DRPVertexApplier (List String) ObjectACL) (batch : List Vertex) :
    DRPVertexApplier (List String) ObjectACL × Except JsError ApplyResult :=
  applier.applyVertices (environment .revokeWins failNames) (batch.map fun vertex => (0, vertex))

def calling (applier : DRPVertexApplier (List String) ObjectACL) :
    DRPVertexApplier (List String) ObjectACL :=
  (applier.callFn (environment .revokeWins failNames) ⟨0, 0, .drp, "mul", []⟩).1

theorem orderly_failNames {graph : HashGraph} {vertex : Vertex} (known : vertex.KnownType)
    (dependencies : vertex.dependencies = [rootHash]) (wellFormed : graph.WellFormed)
    (swaps : (environment .revokeWins failNames).options.SwapsAreFinal (graph.addVertex vertex)) :
    DRPVertexApplier.Orderly (environment .revokeWins failNames).options graph vertex := by
  refine ⟨?_, ?_, known, swaps⟩
  · rw [dependencies]
    exact List.nodup_singleton _
  · rw [dependencies]
    intro first firstMem second secondMem
    rw [List.mem_singleton.mp firstMem, List.mem_singleton.mp secondMem]
    exact wellFormed.acyclic _

end AclExample

end TsDrp
