import TsDrp.Applier.Checkpoint
import TsDrp.HashGraph.Admission

/-!
# Replaying from a checkpoint

A replay from a checkpoint is a replay from the root, provided the swaps in the
past of the checkpoint settle.  Without that proviso a swap that hands the row
of a head of the checkpoint to another vertex changes what the rest of the
prefix does, and the two replays differ.
-/

namespace TsDrp

open HashGraph

/-- `[...frontier].sort()[0]` -/
def leastHash (frontier : List Hash) : Hash := (frontier.insertionSort (· ≤ ·)).headD ""

namespace HashGraph

theorem WellFormed.frontier_ne_nil {graph : HashGraph} (wellFormed : graph.WellFormed) :
    graph.frontier ≠ [] := by
  have nonempty : graph.hashes ≠ [] := List.ne_nil_of_mem wellFormed.rootHash_mem
  have lastMem := List.getLast_mem nonempty
  refine List.ne_nil_of_mem ((wellFormed.frontier (graph.hashes.getLast nonempty)).mpr
    ⟨lastMem, fun later dependency => ?_⟩)
  -- A child of the vertex inserted last would have been inserted after it.
  have ranked := wellFormed.ranked dependency
  have bound := List.idxOf_lt_length_of_mem dependency.later_mem
  have lastRank : graph.rank (graph.hashes.getLast nonempty) = graph.hashes.length - 1 := by
    rw [rank, List.getLast_eq_getElem]
    exact wellFormed.nodup.idxOf_getElem _ _
  rw [lastRank] at ranked
  unfold rank at ranked
  omega

theorem leastHash_mem {frontier : List Hash} (nonempty : frontier ≠ []) :
    leastHash frontier ∈ frontier := by
  rw [leastHash]
  have mem : ∀ {hash}, hash ∈ frontier.insertionSort (· ≤ ·) → hash ∈ frontier :=
    (List.mem_insertionSort _).mp
  cases sorted : frontier.insertionSort (· ≤ ·) with
  | nil =>
    have length := List.length_insertionSort (· ≤ ·) frontier
    rw [sorted] at length
    exact absurd (List.length_eq_zero_iff.mp length.symm) nonempty
  | cons first rest =>
    rw [sorted] at mem
    exact mem List.mem_cons_self

theorem WellFormed.cut_of_extends {earlier graph : HashGraph} (wellFormed : earlier.WellFormed)
    (extends_ : Extends earlier graph) : graph.Cut earlier.frontier (leastHash earlier.frontier) where
  originMem := leastHash_mem wellFormed.frontier_ne_nil
  nodup := wellFormed.frontierNodup
  present := fun hash mem =>
    (getVertex_of_extends extends_ ((wellFormed.frontier hash).mp mem).1).1
  antichain := by
    intro first firstMem second secondMem precedes
    have present := ((wellFormed.frontier second).mp secondMem).1
    have earlierPrecedes := (wellFormed.precedes_of_extends extends_ present).mp precedes
    obtain ⟨middle, dependency, _⟩ := Relation.TransGen.head'_iff.mp earlierPrecedes
    exact ((wellFormed.frontier first).mp firstMem).2 middle dependency

/--
Under pair semantics, the swaps in the past of a frontier settle with respect to
its heads.  Nothing is asked where no two concurrent vertices are answered `Swap`.
-/
def SwapsSettle (graph : HashGraph) (options : GraphOptions) (frontier : List Hash) : Prop :=
  options.semanticsTypeDRP = some .pair → graph.MaySwap options (graph.causalPast frontier) →
    PairScan.SwapsSettle (pairAction options graph) frontier
      ((graph.causalPast frontier).filter (· ≠ rootHash))

end HashGraph

namespace LinearizationCheckpoint

variable {Drp Acl : Type}

def root (genesis : ReplayState Drp Acl) : LinearizationCheckpoint Drp Acl where
  frontier := [rootHash]
  origin := rootHash
  vertexCount := 1
  state := genesis

/-- A checkpoint taken at an earlier moment, with the replay of its past as its state. -/
structure Baked (options : GraphOptions) (code : ObjectCode Drp Acl) (genesis : ReplayState Drp Acl)
    (fuel : ℕ) (graph : HashGraph) (checkpoint : LinearizationCheckpoint Drp Acl) : Prop where
  taken : ∃ earlier, earlier.Grown ∧ Extends earlier graph ∧
    checkpoint.frontier = earlier.frontier ∧ checkpoint.origin = leastHash earlier.frontier
  baked : (linearizeVertices options graph fuel rootHash
      (graph.causalPast checkpoint.frontier) >>= code.replay genesis) = .ok checkpoint.state

theorem Baked.cut {options : GraphOptions} {code : ObjectCode Drp Acl}
    {genesis : ReplayState Drp Acl} {fuel : ℕ} {graph : HashGraph}
    {checkpoint : LinearizationCheckpoint Drp Acl}
    (baked : checkpoint.Baked options code genesis fuel graph) :
    graph.Cut checkpoint.frontier checkpoint.origin := by
  obtain ⟨earlier, grown, extends_, sameFrontier, sameOrigin⟩ := baked.taken
  rw [sameFrontier, sameOrigin]
  exact grown.wellFormed.cut_of_extends extends_

end LinearizationCheckpoint

section CheckpointReplay

variable {Drp Acl : Type} {options : GraphOptions} {code : ObjectCode Drp Acl}
  {genesis : ReplayState Drp Acl} {graph : HashGraph} {fuel : ℕ} {dependencies : List Hash}

theorem HashGraph.Cut.linearizeVertices_append {boundary subgraph : List Hash} {origin : Hash}
    (cut : graph.Cut boundary origin) (wellFormed : graph.WellFormed) (nonempty : dependencies ≠ [])
    (present : ∀ hash ∈ dependencies, hash ∈ graph.hashes)
    (settle : graph.SwapsSettle options boundary)
    (covers : graph.dependenciesCover dependencies boundary = true)
    (collected : graph.collectSuffixSubgraph dependencies boundary origin = some subgraph) :
    linearizeVertices options graph fuel rootHash (graph.causalPast dependencies) = (do
      let kept ← linearizeVertices options graph fuel rootHash (graph.causalPast boundary)
      let behind ← linearizeVertices options graph fuel origin subgraph
      return kept ++ behind) :=
  (cut.barrier wellFormed nonempty present covers collected).linearizeVertices_append wellFormed
    (fun _ mem notHead => Cut.isHead wellFormed mem notHead) settle fuel

theorem getReplay_eq (options : GraphOptions) (fuel : ℕ) (wellFormed : graph.WellFormed)
    (present : ∀ hash ∈ dependencies, hash ∈ graph.hashes)
    {checkpoints : List (LinearizationCheckpoint Drp Acl)}
    (root : .root genesis ∈ checkpoints) :
    ∃ checkpoint ∈ checkpoints, ∃ subgraph,
      graph.dependenciesCover dependencies checkpoint.frontier = true ∧
      graph.collectSuffixSubgraph dependencies checkpoint.frontier checkpoint.origin =
        some subgraph ∧
      getReplay options graph fuel checkpoints dependencies =
        checkpoint.replay options graph fuel subgraph := by
  rcases getReplayFrom_cases options graph fuel dependencies checkpoints.reverse with
    ⟨checkpoint, mem, found⟩ | none
  · exact ⟨checkpoint, List.mem_reverse.mp mem, found⟩
  · exfalso
    rcases none _ (List.mem_reverse.mpr root) with notCovered | notCollected
    · have covers := wellFormed.dependenciesCover_root present
      simp only [LinearizationCheckpoint.root] at notCovered
      rw [covers] at notCovered
      cases notCovered
    · have collected := wellFormed.collectSuffixSubgraph_root present
      simp only [LinearizationCheckpoint.root] at notCollected
      rw [collected] at notCollected
      cases notCollected

theorem replay_from_checkpoint {boundary subgraph : List Hash} {origin : Hash}
    {state : ReplayState Drp Acl}
    (split : linearizeVertices options graph fuel rootHash
        (graph.causalPast dependencies) = (do
      let kept ← linearizeVertices options graph fuel rootHash (graph.causalPast boundary)
      let behind ← linearizeVertices options graph fuel origin subgraph
      return kept ++ behind))
    (baked : (linearizeVertices options graph fuel rootHash
      (graph.causalPast boundary) >>= code.replay genesis) = .ok state) :
    (linearizeVertices options graph fuel origin subgraph >>= code.replay state) =
      (linearizeVertices options graph fuel rootHash (graph.causalPast dependencies) >>=
        code.replay genesis) := by
  obtain ⟨kept, keptRun, replayed⟩ := Outcome.bind_eq_ok.mp baked
  rw [split, keptRun, Outcome.ok_bind]
  cases linearizeVertices options graph fuel origin subgraph with
  | error error => rfl
  | ok behind => exact (code.replay_append replayed behind).symm

theorem getReplay_replay (wellFormed : graph.WellFormed) (nonempty : dependencies ≠ [])
    (present : ∀ hash ∈ dependencies, hash ∈ graph.hashes)
    {checkpoints : List (LinearizationCheckpoint Drp Acl)}
    (root : .root genesis ∈ checkpoints)
    (baked : ∀ checkpoint ∈ checkpoints, checkpoint.Baked options code genesis fuel graph)
    (settle : ∀ checkpoint ∈ checkpoints, graph.SwapsSettle options checkpoint.frontier) :
    (getReplay options graph fuel checkpoints dependencies >>= fun replay =>
        code.replay replay.state replay.linearizedVertices) =
      (linearizeVertices options graph fuel rootHash (graph.causalPast dependencies) >>=
        code.replay genesis) := by
  rcases getReplay_eq options fuel wellFormed present root with
    ⟨checkpoint, mem, subgraph, covers, collected, run⟩
  rw [← replay_from_checkpoint ((baked checkpoint mem).cut.linearizeVertices_append wellFormed
    nonempty present (settle checkpoint mem) covers collected) (baked checkpoint mem).baked, run,
    LinearizationCheckpoint.replay]
  cases linearizeVertices options graph fuel checkpoint.origin subgraph <;> rfl

/--
Checkpointed replay equals full replay where the swaps settle.  The
linearization of a past splits at every checkpoint whose suffix is collected; a
replay always finds a checkpoint; and whichever it picks, it leads to the state
of the replay from the root.
-/
theorem checkpointed_replay_eq_full_replay (grown : graph.Grown) (nonempty : dependencies ≠ [])
    (present : ∀ hash ∈ dependencies, hash ∈ graph.hashes)
    {checkpoints : List (LinearizationCheckpoint Drp Acl)}
    (root : .root genesis ∈ checkpoints)
    (baked : ∀ checkpoint ∈ checkpoints, checkpoint.Baked options code genesis fuel graph)
    (settle : ∀ checkpoint ∈ checkpoints, graph.SwapsSettle options checkpoint.frontier) :
    (∀ checkpoint ∈ checkpoints, ∀ subgraph,
      graph.dependenciesCover dependencies checkpoint.frontier = true →
      graph.collectSuffixSubgraph dependencies checkpoint.frontier checkpoint.origin =
        some subgraph →
      linearizeVertices options graph fuel rootHash (graph.causalPast dependencies) = (do
        let kept ← linearizeVertices options graph fuel rootHash
          (graph.causalPast checkpoint.frontier)
        let behind ← linearizeVertices options graph fuel checkpoint.origin subgraph
        return kept ++ behind)) ∧
    (∃ checkpoint ∈ checkpoints, ∃ subgraph,
      getReplay options graph fuel checkpoints dependencies =
        checkpoint.replay options graph fuel subgraph) ∧
    (getReplay options graph fuel checkpoints dependencies >>= fun replay =>
        code.replay replay.state replay.linearizedVertices) =
      (linearizeVertices options graph fuel rootHash (graph.causalPast dependencies) >>=
        code.replay genesis) := by
  have wellFormed := grown.wellFormed
  rcases getReplay_eq options fuel wellFormed present root with
    ⟨checkpoint, mem, subgraph, _, _, run⟩
  refine ⟨fun checkpoint mem subgraph covers collected => ?_, ⟨checkpoint, mem, subgraph, run⟩,
    getReplay_replay wellFormed nonempty present root baked settle⟩
  exact (baked checkpoint mem).cut.linearizeVertices_append wellFormed nonempty present
    (settle checkpoint mem) covers collected

namespace SwapExample

def vertex (hash opType : String) (dependencies : List Hash) : Vertex where
  hash := hash
  peerId := "peer"
  operation := some { drpType := "DRP", opType, value := .array [] }
  dependencies := dependencies
  timestamp := 0

def recorder : ObjectCode (List String) Unit where
  callDRP := fun log _ method _ => .ok (log ++ [method], true)
  callACL := fun acl _ _ _ => .ok (acl, false)
  isWriter := fun _ _ => true
  finalitySigners := fun _ => [(.string "q", .string "KQ"), (.string "p", .string "KP")]

def withResolver (resolve : ResolveConflictFn) : GraphOptions where
  semanticsTypeDRP := some .pair
  resolveConflictsACL := none
  resolveConflictsDRP := some resolve

def earlier : HashGraph := initial.addVertices
  [vertex "a" "mul" [rootHash], vertex "b" "inc" [rootHash],
    vertex "c" "add" [rootHash]]

def merged : HashGraph := earlier.addVertices [vertex "m" "inc" ["a", "b", "c"]]

theorem earlier_grown : earlier.Grown :=
  initial_wellFormed.extends_addVertices (by decide +kernel)

theorem earlier_extends_merged : Extends earlier merged :=
  earlier_grown.wellFormed.extends_addVertices (by decide +kernel)

def addFirst : ResolveConflictFn := fun vertices =>
  match vertices.map (·.operation.map (·.opType)) with
  | [some "mul", some "add"] => .ok { action := .swap }
  | _ => .ok { action := .nop }

def addOnly : ResolveConflictFn := fun vertices =>
  match vertices.map (·.operation.map (·.opType)) with
  | [some "mul", some "add"] => .ok { action := .swap }
  | [some "add", some "mul"] => .ok { action := .dropRight }
  | _ => .ok { action := .nop }

def checkpoint : LinearizationCheckpoint (List String) Unit where
  frontier := earlier.frontier
  origin := leastHash earlier.frontier
  vertexCount := 4
  state := ⟨["add", "inc", "mul"], ()⟩

end SwapExample

open SwapExample in
theorem checkpointed_replay_addFirst :
    (getReplay (withResolver addFirst) merged 3 [.root ⟨[], ()⟩, checkpoint] ["m"] >>= fun replay =>
        recorder.replay replay.state replay.linearizedVertices) =
      (linearizeVertices (withResolver addFirst) merged 3 rootHash
        (merged.causalPast ["m"]) >>= recorder.replay ⟨[], ()⟩) := by
  have grown : merged.Grown := earlier_grown.trans earlier_extends_merged
  refine (checkpointed_replay_eq_full_replay grown (by decide) (by decide +kernel)
    List.mem_cons_self ?_ ?_).2.2
  · intro found mem
    rcases List.mem_pair.mp mem with rfl | rfl
    · exact ⟨⟨.initial, .refl, grown, rfl, by decide +kernel⟩, by decide +kernel⟩
    · exact ⟨⟨earlier, earlier_grown, earlier_extends_merged, rfl, rfl⟩, by decide +kernel⟩
  · intro found mem _ _
    rcases List.mem_pair.mp mem with rfl | rfl
    · unfold PairScan.SwapsSettle
      decide +kernel
    · unfold PairScan.SwapsSettle
      decide +kernel

open SwapExample in
/--
A resolver that swaps and then drops: the swap hands the row of the head `a` to
`c`.  In the full replay `a` has a child, so `c` counts as related to it and the
multiplication survives; in the replay up to the checkpoint it is dropped.
-/
theorem swap_changes_checkpointed_replay :
    earlier.Grown ∧ Extends earlier merged ∧
    merged.dependenciesCover ["m"] earlier.frontier = true ∧
    merged.collectSuffixSubgraph ["m"] earlier.frontier (leastHash earlier.frontier) =
      some ["a", "m"] ∧
    (linearizeVertices (withResolver addOnly) merged 3 rootHash
      (merged.causalPast ["m"])).map (·.map (·.hash)) = .ok ["c", "b", "a", "m"] ∧
    (linearizeVertices (withResolver addOnly) merged 3 rootHash
      (merged.causalPast earlier.frontier)).map (·.map (·.hash)) = .ok ["c", "b"] ∧
    (linearizeVertices (withResolver addOnly) merged 3 "a" ["a", "m"]).map (·.map (·.hash)) =
      .ok ["m"] :=
  ⟨earlier_grown, earlier_extends_merged, by decide +kernel, by decide +kernel, by decide +kernel,
    by decide +kernel, by decide +kernel⟩

end CheckpointReplay

end TsDrp
