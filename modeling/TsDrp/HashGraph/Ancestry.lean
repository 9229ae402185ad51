import TsDrp.HashGraph.Representation
import Mathlib.Algebra.Order.BigOperators.Group.List
import Mathlib.Algebra.Ring.Nat

/-!
# Causality queries

A query without the bit sets searches the dependencies of either vertex for the
other.  The search may meet a vertex several times, but every turn lowers the
number of turns that what is queued can still take.
-/

namespace TsDrp

namespace HashGraph

variable {graph : HashGraph}

/-- The turns that the search can take over a vertex and, down to a depth, what precedes it. -/
def turns (graph : HashGraph) : ℕ → Hash → ℕ
  | 0, _ => 1
  | depth + 1, hash => ((graph.dependenciesOf hash).map (graph.turns depth)).sum + 1

theorem turns_mono (hash : Hash) : Monotone fun depth => graph.turns depth hash := by
  apply monotone_nat_of_le_succ
  intro depth
  induction depth generalizing hash with
  | zero => simp [turns]
  | succ depth ih =>
    apply Nat.succ_le_succ
    apply List.sum_le_sum
    intro dependency _
    exact ih dependency

def turnsOf (graph : HashGraph) (queue : List Hash) : ℕ :=
  (queue.map fun hash => graph.turns (graph.rank hash) hash).sum

theorem Coherent.turnsOf_dependencies_lt (coherent : graph.Coherent) (hash : Hash) :
    graph.turnsOf (graph.dependenciesOf hash) < graph.turns (graph.rank hash) hash := by
  cases isRank : graph.rank hash with
  | zero =>
    have first : graph.dependenciesOf hash = [] := by
      apply List.eq_nil_iff_forall_not_mem.mpr
      intro dependency mem
      have ranked := coherent.ranked mem
      omega
    simp [turnsOf, turns, first]
  | succ depth =>
    apply Nat.lt_succ_of_le
    apply List.sum_le_sum
    intro dependency mem
    have ranked := coherent.ranked mem
    apply turns_mono
    omega

/-- A path down from what the search has passed meets the queue, unless it meets the target. -/
theorem exists_queued {target : Hash} {queue visited : List Hash} (missed : target ∉ visited)
    (closed : ∀ later ∈ visited, ∀ earlier, graph.Dependency earlier later →
      earlier ∈ visited ∨ earlier ∈ queue)
    {hash : Hash} (precedes : graph.PrecedesEq target hash) (passed : hash ∈ visited) :
    ∃ queued ∈ queue, graph.PrecedesEq target queued := by
  induction precedes with
  | refl => exact absurd passed missed
  | tail upTo dependency ih =>
    rcases closed _ passed _ dependency with older | queued
    · exact ih older
    · exact ⟨_, queued, upTo⟩

theorem Coherent.bfsLoop_eq (coherent : graph.Coherent) {target : Hash} {fuel : ℕ}
    {queue visited : List Hash} (enough : graph.turnsOf queue ≤ fuel) (missed : target ∉ visited)
    (closed : ∀ later ∈ visited, ∀ earlier, graph.Dependency earlier later →
      earlier ∈ visited ∨ earlier ∈ queue)
    {answer : Bool} (decides : answer = true ↔ ∃ hash ∈ queue, graph.PrecedesEq target hash) :
    graph.bfsLoop target fuel queue visited = .ok answer := by
  induction fuel generalizing queue visited with
  | zero =>
    cases queue with
    | nil => simp_all [bfsLoop]
    | cons current queue =>
      have positive := coherent.turnsOf_dependencies_lt current
      simp only [turnsOf, List.map_cons, List.sum_cons] at enough positive
      omega
  | succ fuel ih =>
    cases queue with
    | nil => simp_all [bfsLoop]
    | cons current queue =>
      rw [bfsLoop]
      split
      case isTrue isTarget =>
        rw [decides.mpr ⟨current, List.mem_cons_self, isTarget ▸ .refl⟩]
      case isFalse notTarget =>
        have closedAfter : ∀ later ∈ current :: visited, ∀ earlier, graph.Dependency earlier later →
            earlier ∈ current :: visited ∨ earlier ∈ queue ++
              (graph.dependenciesOf current).filter (· ∉ current :: visited) := by
          intro later passed earlier dependency
          rcases List.mem_cons.mp passed with rfl | passed
          · by_cases older : earlier ∈ later :: visited
            · exact Or.inl older
            · exact Or.inr (List.mem_append_right _
                (List.mem_filter.mpr ⟨dependency, decide_eq_true older⟩))
          · have := closed later passed earlier dependency
            grind
        have missedAfter : target ∉ current :: visited := by
          simp [missed, Ne.symm notTarget]
        refine ih ?_ missedAfter closedAfter (decides.trans ⟨?_, ?_⟩)
        · have lower := coherent.turnsOf_dependencies_lt current
          have fewer := (List.filter_sublist (p := (· ∉ current :: visited))
            (l := graph.dependenciesOf current)).map
              (fun hash => graph.turns (graph.rank hash) hash) |>.sum_le_sum (by simp)
          simp only [turnsOf, List.map_cons, List.map_append, List.sum_cons, List.sum_append]
            at enough lower fewer ⊢
          omega
        · rintro ⟨hash, mem, precedes⟩
          rcases List.mem_cons.mp mem with rfl | mem
          · exact exists_queued missedAfter closedAfter precedes List.mem_cons_self
          · exact ⟨hash, List.mem_append_left _ mem, precedes⟩
        · rintro ⟨hash, mem, precedes⟩
          rcases List.mem_append.mp mem with mem | mem
          · exact ⟨hash, List.mem_cons_of_mem _ mem, precedes⟩
          · exact ⟨current, List.mem_cons_self, precedes.tail (List.mem_filter.mp mem).1⟩

theorem Coherent.areCausallyRelatedUsingBFS_eq (coherent : graph.Coherent) {hash1 hash2 : Hash}
    {fuel : ℕ} (enough : graph.turnsOf [hash1] ≤ fuel ∧ graph.turnsOf [hash2] ≤ fuel)
    {answer : Bool}
    (decides : answer = true ↔ graph.PrecedesEq hash1 hash2 ∨ graph.PrecedesEq hash2 hash1) :
    graph.areCausallyRelatedUsingBFS fuel hash1 hash2 = .ok answer := by
  unfold areCausallyRelatedUsingBFS
  split
  case isTrue same =>
    rw [decides.mpr (Or.inl (same ▸ .refl))]
  case isFalse =>
    classical
    have search : ∀ start target, graph.turnsOf [start] ≤ fuel →
        graph.bfsLoop target fuel [start] [] = .ok (decide (graph.PrecedesEq target start)) := by
      intro start target enough
      apply coherent.bfsLoop_eq enough <;> simp
    rw [search _ _ enough.1, search _ _ enough.2]
    by_cases precedes : graph.PrecedesEq hash2 hash1
    · simp_all [bind, Except.bind, pure, Except.pure]
    · have answered : answer = decide (graph.PrecedesEq hash1 hash2) := by
        rw [Bool.eq_iff_iff, decides]
        simp [precedes]
      simp [bind, Except.bind, precedes, answered]

end HashGraph

/--
After any run of additions of accepted vertices, sorts and queries the search ends
and finds out whether one of two vertices is or precedes the other.
-/
theorem IndexedGraph.search_decides_ancestry (fuel : ℕ) (calls : List IndexedGraph.Call)
    (accepted : IndexedGraph.Obeys IndexedGraph.Accepts fuel .new calls) (hash1 hash2 : Hash) :
    let graph := calls.foldl (IndexedGraph.step fuel) .new
    ∃ answer bound, (answer = true ↔ graph.PrecedesEq hash1 hash2 ∨ graph.PrecedesEq hash2 hash1) ∧
      ∀ enough ≥ bound, graph.areCausallyRelatedUsingBFS enough hash1 hash2 = .ok answer := by
  intro graph
  have exact_ : graph.Exact := accepted.invariant
    (fun _ _ exact_ accepts => exact_.step fuel accepts) IndexedGraph.exact_new
  classical
  refine ⟨decide _, graph.turnsOf [hash1] + graph.turnsOf [hash2], decide_eq_true_iff, ?_⟩
  intro enough isEnough
  exact exact_.coherent.areCausallyRelatedUsingBFS_eq (by omega) decide_eq_true_iff

open RedundantExample IndexedGraph in
theorem IndexedGraph.search_decides_ancestry_redundant :
    ∃ answer bound, (answer = true ↔ (calls.foldl (step 0) .new).PrecedesEq "a" "b" ∨
        (calls.foldl (step 0) .new).PrecedesEq "b" "a") ∧
      ∀ enough ≥ bound,
        (calls.foldl (step 0) .new).areCausallyRelatedUsingBFS enough "a" "b" = .ok answer := by
  have accepted : Obeys Accepts 0 .new calls := by
    refine ⟨.of_validateVertex computeHash 0 true ?_ ?_, trivial,
      .of_validateVertex computeHash 0 true ?_ ?_, trivial, trivial⟩ <;> decide +kernel
  exact search_decides_ancestry 0 calls accepted "a" "b"

end TsDrp
