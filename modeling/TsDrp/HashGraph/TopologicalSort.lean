import TsDrp.HashGraph.Growth
import TsDrp.Library.DepthFirst
import TsDrp.Library.Outcome
import TsDrp.Library.Worklist
import Mathlib.Data.List.Sort

/-!
# The depth-first topological sort

`dfsTopologicalSortIterative` fills an array of the size of the subgraph from
the back and stops when it is full.  On a well-formed graph it stops exactly
when its stack is empty, so it computes the depth-first order of
`TsDrp.Library.DepthFirst`.
-/

namespace TsDrp

open DepthFirst

namespace HashGraph

/-- `(this.forwardEdges.get(node) ?? []).sort()` -/
def sortedEdges (graph : HashGraph) (node : Hash) : List Hash :=
  (graph.forwardEdges node).insertionSort (· ≤ ·)

/--
The local variables of the loop.  The top of the stack comes first, and the
filled end of the array is the list `result`.
-/
structure DfsState where
  stack : List Hash
  visited : List Hash
  processing : List Hash
  result : List Hash

/--
The loop, with the number of free slots of the array.  The stack cannot run dry
before the array is full, since every member was found reachable.
-/
def dfsLoop (graph : HashGraph) (subgraph : List Hash) :
    ℕ → ℕ → DfsState → Except JsError (List Hash)
  | _, 0, state => .ok state.result
  | 0, _ + 1, _ => .error .diverges
  | fuel + 1, free + 1, state =>
    match state.stack with
    | [] => .ok state.result
    | node :: rest =>
      if node ∈ state.visited then
        dfsLoop graph subgraph fuel free
          { state with
            stack := rest
            processing := state.processing.filter (· ≠ node)
            result := node :: state.result }
      else if (graph.sortedEdges node).any (· ∈ node :: state.processing) then
        .error (.error "Graph contains a cycle!")
      else
        let pushed := (graph.sortedEdges node).filter fun neighbor =>
          neighbor ∈ subgraph ∧ neighbor ∉ node :: state.visited
        dfsLoop graph subgraph fuel (free + 1)
          { state with
            stack := pushed.reverse ++ node :: rest
            visited := node :: state.visited
            processing := node :: state.processing }

def edgesWithin (graph : HashGraph) (subgraph : List Hash) (node : Hash) : List Hash :=
  (graph.forwardEdges node).filter (· ∈ subgraph)

/-- The members met from the origin along forward edges inside the subgraph. -/
def reachableFrom (graph : HashGraph) (origin : Hash) (subgraph : List Hash) : List Hash :=
  Worklist.search (graph.edgesWithin subgraph)
    (Worklist.budget (graph.edgesWithin subgraph) subgraph [origin]) [origin] []

def dfsTopologicalSortIterative (graph : HashGraph) (origin : Hash) (subgraph : List Hash) :
    Except JsError (List Hash) :=
  if origin ∉ subgraph then
    .error (.error ("Topological subgraph does not contain origin " ++ origin))
  else
    let reachable := graph.reachableFrom origin subgraph
    let unreachable := subgraph.filter fun hash => hash ∉ reachable
    if unreachable ≠ [] then
      .error (.error ("Topological subgraph contains " ++ toString unreachable.length ++
        " member(s) unreachable from origin " ++ origin ++ ": " ++
        ", ".intercalate (unreachable.take 3)))
    else do
      let result ← graph.dfsLoop subgraph (2 * subgraph.length) subgraph.length
        { stack := [origin], visited := [], processing := [], result := [] }
      -- A vertex scheduled twice may have taken the origin's slot.
      if origin ∈ result then return result else return result.set 0 origin

section Exceptions

open Outcome (FailsOnlyWith)

variable {allowed : JsError → Prop} (plain : ∀ message, allowed (.error message))
include plain

/-- A turn of the loop fills a slot or visits another member, whatever the graph is. -/
theorem failsOnlyWith_dfsLoop (graph : HashGraph) {subgraph : List Hash} (fuel free : ℕ)
    (state : DfsState) (nodup : state.visited.Nodup) (visited : state.visited ⊆ subgraph)
    (stacked : state.stack ⊆ subgraph)
    (enough : free + subgraph.length ≤ fuel + state.visited.length) :
    FailsOnlyWith allowed (graph.dfsLoop subgraph fuel free state) := by
  induction fuel generalizing free state with
  | zero =>
    have bound := nodup.length_le_of_subset visited
    obtain rfl : free = 0 := by omega
    exact .ok _
  | succ fuel ih =>
    cases free with
    | zero => exact .ok _
    | succ free =>
      rw [dfsLoop]
      cases shape : state.stack with
      | nil => exact .ok _
      | cons node rest =>
        rw [shape, List.cons_subset] at stacked
        dsimp only
        split
        · exact ih _ _ nodup visited stacked.2 (by dsimp only; omega)
        · rename_i unvisited
          split
          · exact .error (plain _)
          · refine ih _ _ (List.nodup_cons.mpr ⟨unvisited, nodup⟩)
              (List.cons_subset.mpr ⟨stacked.1, visited⟩) ?_
              (by simp only [List.length_cons]; omega)
            refine List.append_subset.mpr ⟨?_, List.cons_subset.mpr stacked⟩
            intro neighbor mem
            simp only [List.mem_reverse, List.mem_filter, decide_eq_true_eq] at mem
            exact mem.2.1

theorem failsOnlyWith_dfs (graph : HashGraph) (origin : Hash) (subgraph : List Hash) :
    FailsOnlyWith allowed (graph.dfsTopologicalSortIterative origin subgraph) := by
  unfold dfsTopologicalSortIterative
  split
  · exact .error (plain _)
  · rename_i originMem
    dsimp only
    split
    · exact .error (plain _)
    · apply (failsOnlyWith_dfsLoop plain graph _ _ _ List.nodup_nil (List.nil_subset _)
        (by simpa using originMem) (by simp only [List.length_nil]; omega)).bind
      intro result _
      split <;> exact .ok _

end Exceptions

def successors (graph : HashGraph) (subgraph : List Hash) (node : Hash) : List Hash :=
  (graph.sortedEdges node).filter (· ∈ subgraph)

section Successors

variable {graph : HashGraph} {subgraph : List Hash}

section

variable (wellFormed : graph.WellFormed)
include wellFormed

theorem mem_sortedEdges {node child : Hash} :
    child ∈ graph.sortedEdges node ↔ graph.Dependency node child := by
  rw [sortedEdges, (List.perm_insertionSort _ _).mem_iff, wellFormed.edges]

theorem mem_successors {node child : Hash} :
    child ∈ graph.successors subgraph node ↔ graph.Dependency node child ∧ child ∈ subgraph := by
  simp [successors, mem_sortedEdges wellFormed]

theorem sortedEdges_nodup (node : Hash) : (graph.sortedEdges node).Nodup :=
  (List.perm_insertionSort _ _).nodup_iff.mpr (wellFormed.edgesNodup node)

theorem below_precedes {upper lower : Hash}
    (below : Below (graph.successors subgraph) upper lower) :
    graph.Precedes upper lower := by
  induction below with
  | single edge => exact .single ((mem_successors wellFormed).mp edge).1
  | tail _ edge ih => exact ih.tail ((mem_successors wellFormed).mp edge).1

theorem WellFormed.antichained (subgraph : List Hash) :
    Antichained (graph.successors subgraph) where
  acyclic := fun node below => wellFormed.acyclic node (below_precedes wellFormed below)
  nodup := fun node => (sortedEdges_nodup wellFormed node).filter _
  antichain := by
    intro upper lower node below upperEdge lowerEdge
    exact wellFormed.antichain node upper ((mem_successors wellFormed).mp upperEdge).1 lower
      ((mem_successors wellFormed).mp lowerEdge).1 (below_precedes wellFormed below)

end

end Successors

/--
The reverse postorder of the recursive depth-first search from the origin, which visits the
children inside the subgraph from the greatest hash to the least.
-/
def reversePostorder (graph : HashGraph) (origin : Hash) (subgraph : List Hash) : List Hash :=
  (visit (graph.successors subgraph) subgraph.length ([], []) origin).2

def DfsState.of (stack processing : List Hash) (found : List Hash × List Hash) : DfsState :=
  ⟨stack, found.1, processing, found.2⟩

def Fills (graph : HashGraph) (subgraph : List Hash) (slots : ℕ) (before after : DfsState) : Prop :=
  ∀ fuel free, graph.dfsLoop subgraph (fuel + 2 * slots) (free + slots) before =
    graph.dfsLoop subgraph fuel free after

theorem Fills.trans {graph : HashGraph} {subgraph : List Hash} {slots more : ℕ}
    {before middle after : DfsState} (first : graph.Fills subgraph slots before middle)
    (second : graph.Fills subgraph more middle after) :
    graph.Fills subgraph (slots + more) before after := by
  intro fuel free
  have fuelEq : fuel + 2 * (slots + more) = fuel + 2 * more + 2 * slots := by omega
  have freeEq : free + (slots + more) = free + more + slots := by omega
  rw [fuelEq, freeEq, first, second]

section

variable {graph : HashGraph} {subgraph : List Hash} (wellFormed : graph.WellFormed)
include wellFormed

theorem WellFormed.not_any_processing {node : Hash} {processing : List Hash}
    (above : ∀ hash ∈ processing, graph.Precedes hash node) :
    (graph.sortedEdges node).any (· ∈ node :: processing) = false := by
  rw [List.any_eq_false]
  intro child mem inProcessing
  have dependency := (mem_sortedEdges wellFormed).mp mem
  rcases List.mem_cons.mp (by simpa using inProcessing) with rfl | old
  · exact wellFormed.acyclic child (.single dependency)
  · exact wellFormed.acyclic child ((above child old).tail dependency)

theorem WellFormed.fills_visit {depth : ℕ} {found : List Hash × List Hash} {node : Hash}
    {processing : List Hash} (rest : List Hash) (mem : node ∈ subgraph)
    (unvisited : node ∉ found.1) (above : ∀ hash ∈ processing, graph.Precedes hash node)
    (enough : (subgraph.filter (· ∉ found.1)).length ≤ depth) :
    ∃ slots, (visit (graph.successors subgraph) depth found node).2.length =
        found.2.length + slots ∧
      graph.Fills subgraph slots (.of (node :: rest) processing found)
        (.of rest processing (visit (graph.successors subgraph) depth found node)) := by
  induction depth generalizing found node processing rest with
  | zero =>
    have fewer := length_unvisited_lt mem unvisited
    omega
  | succ depth ih =>
    have room := Nat.le_of_lt_succ
      (Nat.lt_of_lt_of_le (length_unvisited_lt mem unvisited) enough)
    -- The pending children are searched one after the other, and none meets a later one.
    have folded : ∀ (pending : List Hash) (found : List Hash × List Hash),
        (∀ child ∈ pending, child ∈ subgraph ∧ child ∉ found.1 ∧ graph.Dependency node child) →
        (pending.Pairwise fun first second =>
          ¬Reaches (graph.successors subgraph) first second) →
        (subgraph.filter (· ∉ found.1)).length ≤ depth →
        ∃ slots, (pending.foldl (visit (graph.successors subgraph) depth)
            found).2.length = found.2.length + slots ∧
          graph.Fills subgraph slots (.of (pending ++ node :: rest) (node :: processing) found)
            (.of (node :: rest) (node :: processing)
              (pending.foldl (visit (graph.successors subgraph) depth) found)) := by
      intro pending
      induction pending with
      | nil => exact fun found _ _ _ => ⟨0, rfl, fun _ _ => rfl⟩
      | cons first others inner =>
        intro found inside apart room
        rcases List.pairwise_cons.mp apart with ⟨firstApart, othersApart⟩
        rcases inside first List.mem_cons_self with ⟨firstMem, firstUnvisited, dependency⟩
        have firstAbove : ∀ hash ∈ node :: processing, graph.Precedes hash first := by
          intro hash hashMem
          rcases List.mem_cons.mp hashMem with rfl | old
          · exact .single dependency
          · exact (above hash old).tail dependency
        rcases ih (others ++ node :: rest) firstMem firstUnvisited firstAbove room with
          ⟨slots, length, fills⟩
        have othersInside : ∀ child ∈ others, child ∈ subgraph ∧
            child ∉ (visit (graph.successors subgraph) depth found first).1 ∧
            graph.Dependency node child := by
          intro child childMem
          rcases inside child (.tail _ childMem) with ⟨childIn, childUnvisited, childDependency⟩
          refine ⟨childIn, fun seen => ?_, childDependency⟩
          rcases mem_visit seen with old | reaches
          · exact childUnvisited old
          · exact firstApart child childMem reaches
        rcases inner _ othersInside othersApart ((length_unvisited_mono
          (subset_visit depth found first)).trans room) with
          ⟨more, moreLength, moreFills⟩
        refine ⟨slots + more, ?_, fills.trans moreFills⟩
        rw [List.foldl_cons, moreLength, length, Nat.add_assoc]
    have inside : ∀ child ∈ ((graph.successors subgraph node).filter (· ∉ node :: found.1)).reverse,
        child ∈ subgraph ∧ child ∉ node :: found.1 ∧ graph.Dependency node child := by
      intro child childMem
      rw [List.mem_reverse, List.mem_filter, mem_successors wellFormed, decide_eq_true_eq] at childMem
      exact ⟨childMem.1.2, childMem.2, childMem.1.1⟩
    have apart : ((graph.successors subgraph node).filter (· ∉ node :: found.1)).reverse.Pairwise
        fun first second => ¬Reaches (graph.successors subgraph) first second := by
      have antichained := wellFormed.antichained subgraph
      rw [List.pairwise_reverse]
      refine List.Pairwise.imp_of_mem ?_ ((antichained.nodup node).filter _)
      intro first second firstMem secondMem different
      exact antichained.not_reaches (List.mem_of_mem_filter secondMem)
        (List.mem_of_mem_filter firstMem) different
    rcases folded _ (node :: found.1, found.2) inside apart room with ⟨slots, length, fills⟩
    rw [← List.filter_reverse, foldl_visit_filter _ (List.Subset.refl _)] at length fills
    rw [visit_succ unvisited]
    refine ⟨slots + 1, by rw [List.length_cons, length, Nat.add_assoc], fun fuel free => ?_⟩
    have pushed : (graph.sortedEdges node).filter (fun neighbor =>
        neighbor ∈ subgraph ∧ neighbor ∉ node :: found.1) =
          (graph.successors subgraph node).filter (· ∉ node :: found.1) := by
      rw [successors, List.filter_filter]
      exact List.filter_congr fun neighbor _ => by simp [Bool.and_comm]
    have seen : node ∈ ((graph.successors subgraph node).reverse.foldl
        (visit (graph.successors subgraph) depth) (node :: found.1, found.2)).1 :=
      subset_foldl_visit _ (node :: found.1, found.2) List.mem_cons_self
    have unprocessed : node ∉ processing := fun old => wellFormed.acyclic node (above node old)
    have searched := fills (fuel + 1) (free + 1)
    rw [show fuel + 2 * (slots + 1) = fuel + 1 + 2 * slots + 1 by omega,
      show free + (slots + 1) = free + slots + 1 by omega, DfsState.of, dfsLoop]
    simp only [unvisited, if_false, wellFormed.not_any_processing above, Bool.false_eq_true, pushed]
    rw [show free + slots + 1 = free + 1 + slots by omega, ← List.filter_reverse]
    refine searched.trans ?_
    have left : (node :: processing).filter (· ≠ node) = processing := by
      rw [List.filter_cons_of_neg (by simp), List.filter_eq_self]
      intro hash old
      rw [decide_eq_true_eq]
      rintro rfl
      exact unprocessed old
    rw [DfsState.of, dfsLoop]
    simp only [seen, if_true, left, DfsState.of]

end

/-- The members of a subgraph that can be met from an origin without leaving it. -/
def ReachesWithin (graph : HashGraph) (subgraph : List Hash) : Hash → Hash → Prop :=
  Relation.ReflTransGen fun earlier later => graph.Dependency earlier later ∧ later ∈ subgraph

section

variable {graph : HashGraph} {subgraph : List Hash} {origin : Hash} (wellFormed : graph.WellFormed)
include wellFormed

theorem WellFormed.mem_reachableFrom {hash : Hash} (originMem : origin ∈ subgraph) :
    hash ∈ graph.reachableFrom origin subgraph ↔ graph.ReachesWithin subgraph origin hash := by
  have edge : ∀ earlier later, Worklist.Edge (graph.edgesWithin subgraph) earlier later ↔
      graph.Dependency earlier later ∧ later ∈ subgraph := by
    intro earlier later
    simp [Worklist.Edge, edgesWithin, wellFormed.edges]
  rw [reachableFrom, Worklist.mem_search_budget]
  · simp only [List.mem_singleton, exists_eq_left]
    have same : Worklist.Edge (graph.edgesWithin subgraph) =
        fun earlier later => graph.Dependency earlier later ∧ later ∈ subgraph := by
      funext earlier later
      exact propext (edge earlier later)
    rw [Worklist.Reaches, same, ReachesWithin]
  · intro node _ successor mem
    exact ((edge node successor).mp mem).2
  · simpa using originMem

theorem WellFormed.reachesWithin_iff {hash : Hash} :
    Reaches (graph.successors subgraph) origin hash ↔
      graph.ReachesWithin subgraph origin hash := by
  have same : Edge (graph.successors subgraph) =
      fun earlier later => graph.Dependency earlier later ∧ later ∈ subgraph := by
    funext earlier later
    exact propext (mem_successors wellFormed)
  rw [Reaches, same, ReachesWithin]

theorem WellFormed.sound_postorder (originMem : origin ∈ subgraph)
    (reachable : ∀ hash ∈ subgraph, graph.ReachesWithin subgraph origin hash) {depth : ℕ}
    (enough : subgraph.length ≤ depth) :
    Sound (graph.successors subgraph)
        (visit (graph.successors subgraph) depth ([], []) origin) ∧
      (∀ hash, hash ∈ (visit (graph.successors subgraph) depth ([], []) origin).2 ↔
        hash ∈ subgraph) ∧
      ∃ rest, (visit (graph.successors subgraph) depth ([], []) origin).2 =
        origin :: rest := by
  have closed : ∀ node ∈ subgraph, ∀ successor ∈ graph.successors subgraph node,
      successor ∈ subgraph := fun _ _ _ mem => ((mem_successors wellFormed).mp mem).2
  rcases sound_visit closed (wellFormed.antichained subgraph).acyclic originMem enough with
    ⟨sound, listed, first⟩
  refine ⟨sound, fun hash => ?_, first⟩
  rw [listed, wellFormed.reachesWithin_iff]
  refine ⟨fun reaches => ?_, reachable hash⟩
  rcases Relation.ReflTransGen.cases_tail reaches with rfl | ⟨_, _, edge⟩
  · exact originMem
  · exact edge.2

/--
The sort of a subgraph all of which is reachable is its reverse postorder, which
a deeper recursion does not change.
-/
theorem WellFormed.sort_eq_visit (nodup : subgraph.Nodup) (originMem : origin ∈ subgraph)
    (reachable : ∀ hash ∈ subgraph, graph.ReachesWithin subgraph origin hash) {depth : ℕ}
    (enough : subgraph.length ≤ depth) :
    graph.dfsTopologicalSortIterative origin subgraph =
      .ok (visit (graph.successors subgraph) depth ([], []) origin).2 := by
  rcases wellFormed.sound_postorder originMem reachable enough with ⟨sound, members, _⟩
  have length := ((List.perm_ext_iff_of_nodup sound.nodup nodup).mpr members).length_eq
  have none : (subgraph.filter fun hash => hash ∉ graph.reachableFrom origin subgraph) = [] := by
    rw [List.filter_eq_nil_iff]
    intro hash mem
    simp [(wellFormed.mem_reachableFrom originMem).mpr (reachable hash mem)]
  rcases @WellFormed.fills_visit graph subgraph wellFormed depth ([], []) origin [] [] originMem
    (by simp) (by simp) (by simpa using enough) with ⟨slots, filled, fills⟩
  have loop : graph.dfsLoop subgraph (2 * subgraph.length) subgraph.length
      { stack := [origin], visited := [], processing := [], result := [] } =
        .ok (visit (graph.successors subgraph) depth ([], []) origin).2 := by
    have slotsEq : slots = subgraph.length := by simpa [length] using filled.symm
    simpa [slotsEq, dfsLoop, DfsState.of] using fills 0 0
  have originListed := (members origin).mpr originMem
  unfold dfsTopologicalSortIterative
  simp only [originMem, not_true_eq_false, if_false, none, ne_eq, loop]
  simp [bind, Except.bind, pure, Except.pure, originListed]

end

end HashGraph

end TsDrp
