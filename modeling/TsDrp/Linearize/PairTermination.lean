import TsDrp.Linearize.PairSorting
import Mathlib.Data.Finset.Card

/-!
# Scans with acyclic swaps

Every `Swap` sends the loop over `j` back to its start and spoils the causality
matrix, so neither the position nor the matrix says how far the scan is.  What
falls is the anchor: it goes down the relation of the swaps, and without a cycle
it cannot go down more often than there are vertices.
-/

namespace TsDrp

/-- A relation without cycles into finitely many values only goes down. -/
theorem exists_descent {Value : Type} {relation : Value → Value → Prop} {targets : List Value}
    (finite : ∀ {upper lower}, relation upper lower → lower ∈ targets)
    (acyclic : ∀ value, ¬Relation.TransGen relation value value) :
    ∃ depth : Value → ℕ, (∀ {upper lower}, relation upper lower → depth lower < depth upper) ∧
      ∀ value, depth value ≤ targets.length := by
  classical
  refine ⟨fun value => (targets.toFinset.filter (Relation.TransGen relation value)).card, ?_, ?_⟩
  · intro upper lower step
    refine Finset.card_lt_card (Finset.ssubset_iff_of_subset ?_ |>.mpr ⟨lower, ?_, ?_⟩)
    · intro value below
      rw [Finset.mem_filter] at below ⊢
      exact ⟨below.1, .head step below.2⟩
    · exact Finset.mem_filter.mpr ⟨List.mem_toFinset.mpr (finite step), .single step⟩
    · exact fun below => acyclic lower (Finset.mem_filter.mp below).2
  · intro value
    exact (Finset.card_filter_le _ _).trans (List.toFinset_card_le _)

namespace PairScan

variable {action : Hash → Hash → Except JsError ActionType} {depth : Hash → ℕ}
  (answers : ∀ left right, ∃ answer, action left right = .ok answer)
  (descends : ∀ {left right}, action left right = .ok .swap → depth right < depth left)
include answers descends

/-- The loop over `j` swaps at most as often as its first anchor is deep. -/
theorem exists_scanAnchor (causality : LegacyCausalityMatrix) (anchor : Hash)
    (seen later : List Slot) :
    ∃ scanned, ∀ fuel ≥ depth anchor,
      scanAnchor action fuel causality anchor seen later = .ok scanned := by
  induction below : depth anchor using Nat.strong_induction_on
    generalizing causality anchor seen later with
  | _ bound ih =>
    rcases @exists_sweep action causality anchor later fun _ _ _ => answers _ _ with
      ⟨outcome, swept⟩
    rcases sweep_cases swept with ⟨dropped, later', rfl, _⟩ |
      ⟨moving, later', _, _, rfl, _, _, isSwap, _⟩
    · refine ⟨{ anchor, dropped, later := seen ++ later', causality }, fun fuel _ => ?_⟩
      rw [scanAnchor, swept, Outcome.ok_bind]
    · have less := descends isSwap
      rw [below] at less
      rcases ih (depth moving) less (causality.swapReachablePredecessors anchor moving) moving
        ((seen ++ later').take 1) ((seen ++ later').drop 1) rfl with ⟨scanned, run⟩
      refine ⟨scanned, fun fuel enough => ?_⟩
      cases fuel with
      | zero => omega
      | succ fuel =>
        rw [scanAnchor, swept, Outcome.ok_bind]
        exact run fuel (by omega)

theorem exists_loop {bound : ℕ} (bounded : ∀ hash, depth hash ≤ bound) (origin : Hash)
    (count : ℕ) (causality : LegacyCausalityMatrix) (slots : List Slot) :
    ∃ kept, ∀ fuel ≥ bound, loop action fuel origin count causality slots = .ok kept := by
  induction count generalizing causality slots with
  | zero => exact ⟨[], fun _ _ => rfl⟩
  | succ count ih =>
    cases slots with
    | nil => exact ⟨[], fun _ _ => rfl⟩
    | cons slot later =>
      by_cases skipped : slot.hash = origin ∨ slot.dropped
      · rcases ih causality later with ⟨kept, run⟩
        refine ⟨kept, fun fuel enough => ?_⟩
        rw [loop, if_pos skipped, run fuel enough]
      · rcases exists_scanAnchor answers descends causality slot.hash [] later with ⟨scanned, scan⟩
        rcases ih scanned.causality scanned.later with ⟨rest, run⟩
        refine ⟨if scanned.dropped then rest else scanned.anchor :: rest, fun fuel enough => ?_⟩
        rw [loop, if_neg skipped, scan fuel ((bounded _).trans enough), Outcome.ok_bind,
          run fuel enough]
        rfl

end PairScan

/-- The resolver answers `Swap` about the vertices of two hashes. -/
def Swaps (options : GraphOptions) (graph : HashGraph) (left right : Hash) : Prop :=
  pairAction options graph left right = .ok .swap

instance (options : GraphOptions) (graph : HashGraph) :
    DecidableRel (Swaps options graph) := fun _ _ => by unfold Swaps; infer_instance

namespace HashGraph

variable {options : GraphOptions} {graph : HashGraph}

theorem mem_hashes_of_swaps {left right : Hash} (swaps : Swaps options graph left right) :
    left ∈ graph.hashes ∧ right ∈ graph.hashes := by
  unfold Swaps pairAction at swaps
  cases leftFound : graph.getVertex left with
  | none => rw [leftFound] at swaps; cases swaps
  | some leftVertex =>
    cases rightFound : graph.getVertex right with
    | none => rw [leftFound, rightFound] at swaps; cases swaps
    | some rightVertex =>
      exact ⟨getVertex_isSome_iff.mp (leftFound ▸ rfl), getVertex_isSome_iff.mp (rightFound ▸ rfl)⟩

theorem exists_pairAction
    (answers : ∀ left ∈ graph.vertices, ∀ right ∈ graph.vertices,
      ∃ answer, options.resolveConflicts [left, right] = .ok answer) (left right : Hash) :
    ∃ answer, pairAction options graph left right = .ok answer := by
  unfold pairAction
  split
  · rename_i leftVertex rightVertex leftFound rightFound
    rcases answers leftVertex (List.mem_of_find?_eq_some leftFound) rightVertex
      (List.mem_of_find?_eq_some rightFound) with ⟨answer, answered⟩
    rw [answered]
    exact ⟨_, rfl⟩
  · exact ⟨_, rfl⟩

/--
With a resolver that always answers and whose swaps have no cycle a
linearization ends: either the topological sort refuses the subgraph, or the
scan returns with no more swaps for an anchor than there are vertices.
-/
theorem acyclic_swaps_terminate (origin : Hash) (subgraph : List Hash)
    (answers : ∀ left ∈ graph.vertices, ∀ right ∈ graph.vertices,
      ∃ answer, options.resolveConflicts [left, right] = .ok answer)
    (acyclic : ∀ hash, ¬Relation.TransGen (Swaps options graph) hash hash) :
    (∃ vertices, ∀ fuel ≥ graph.vertices.length,
      linearizePairSemantics options graph fuel origin subgraph = .ok vertices) ∨
    ∃ message, ∀ fuel,
      linearizePairSemantics options graph fuel origin subgraph = .error (.error message) := by
  cases sorted : graph.dfsTopologicalSortIterative origin subgraph with
  | error error =>
    right
    have plain : Outcome.FailsOnlyWith (fun error => ∃ message, error = .error message)
        (graph.dfsTopologicalSortIterative origin subgraph) :=
      failsOnlyWith_dfs (fun message => ⟨message, rfl⟩) graph origin subgraph
    rcases plain error sorted with ⟨message, rfl⟩
    refine ⟨message, fun fuel => ?_⟩
    rw [linearizePairSemantics, sorted, Outcome.error_bind]
  | ok order =>
    left
    rcases exists_descent (fun swaps => (mem_hashes_of_swaps swaps).2) acyclic with ⟨depth, descends, bounded⟩
    have bounded : ∀ hash, depth hash ≤ graph.vertices.length := by
      simpa [hashes] using bounded
    rcases PairScan.exists_loop (exists_pairAction answers) descends bounded origin order.length
      (LegacyCausalityMatrix.build graph order) (PairScan.slots order) with ⟨kept, run⟩
    by_cases needed : needsConflictResolution options graph origin order
    · refine ⟨kept.filterMap graph.getVertex, fun fuel enough => ?_⟩
      rw [linearizePairSemantics, sorted, Outcome.ok_bind, pairOrder, if_pos needed,
        run fuel enough]
      rfl
    · refine ⟨(order.filter (· ≠ origin)).filterMap graph.getVertex, fun fuel _ => ?_⟩
      rw [linearizePairSemantics, sorted, Outcome.ok_bind, pairOrder, if_neg needed]
      rfl

end HashGraph

open AddMulExample HashGraph in
theorem acyclic_swaps_terminate_scattered :
    Swaps options scattered "a" "b" ∧
    ((∃ vertices, ∀ fuel ≥ scattered.vertices.length,
      linearizePairSemantics options scattered fuel rootHash scattered.hashes = .ok vertices) ∨
    ∃ message, ∀ fuel, linearizePairSemantics options scattered fuel rootHash scattered.hashes =
      .error (.error message)) := by
  have apart : ∀ left ∈ scattered.hashes, ∀ right ∈ scattered.hashes,
      Swaps options scattered left right → ∀ next ∈ scattered.hashes,
        ¬Swaps options scattered right next := by
    decide +kernel
  have answers : ∀ left ∈ scattered.vertices, ∀ right ∈ scattered.vertices,
      (options.resolveConflicts [left, right]).toBool = true := by
    decide +kernel
  refine ⟨by decide +kernel, acyclic_swaps_terminate rootHash scattered.hashes ?_ ?_⟩
  · intro left leftMem right rightMem
    exact Outcome.exists_of_toBool (answers left leftMem right rightMem)
  · intro hash cycle
    rcases Relation.TransGen.tail'_iff.mp cycle with ⟨before, _, first⟩
    rcases Relation.TransGen.head'_iff.mp cycle with ⟨after, second, _⟩
    have firstMem := mem_hashes_of_swaps first
    exact apart before firstMem.1 hash firstMem.2 first after (mem_hashes_of_swaps second).2 second

end TsDrp
