import TsDrp.Linearize.Multiple

/-!
# Linearizing vertices

`linearizeVertices` of a causally closed set depends on the set and its vertices
alone, and it splits at a causal barrier.
-/

namespace TsDrp

open Outcome

/-- A graph without a semantics linearizes to nothing. -/
def linearizeVertices (options : GraphOptions) (graph : HashGraph) (fuel : ℕ) (origin : Hash)
    (subgraph : List Hash) : Except JsError (List Vertex) :=
  match options.semanticsTypeDRP with
  | some .pair => linearizePairSemantics options graph fuel origin subgraph
  | some .multiple => linearizeMultipleSemantics options graph fuel origin subgraph
  | none => .ok []

namespace HashGraph

open PairScan

variable {options : GraphOptions} {graph : HashGraph} {fuel : ℕ}

def scanOrder (options : GraphOptions) (graph : HashGraph) (fuel : ℕ) (origin : Hash)
    (order : List Hash) : Except JsError (List Hash) :=
  match options.semanticsTypeDRP with
  | some .pair => pairOrder options graph fuel origin order
  | some .multiple => multipleOrder options graph fuel origin order
  | none => .ok []

theorem linearizeVertices_eq {origin : Hash} {subgraph order : List Hash}
    (sorted : graph.dfsTopologicalSortIterative origin subgraph = .ok order) :
    linearizeVertices options graph fuel origin subgraph =
      (graph.scanOrder options fuel origin order).map fun kept => kept.filterMap graph.getVertex := by
  unfold linearizeVertices scanOrder
  split
  · rw [linearizePairSemantics, sorted, ok_bind]
    cases pairOrder options graph fuel origin order <;> rfl
  · rw [linearizeMultipleSemantics, sorted, ok_bind]
    cases multipleOrder options graph fuel origin order <;> rfl
  · rfl

theorem mem_of_filterMap_getVertex {kept : List Hash} {vertex : Vertex}
    (mem : vertex ∈ kept.filterMap graph.getVertex) : vertex ∈ graph.vertices := by
  rcases List.mem_filterMap.mp mem with ⟨hash, _, found⟩
  exact mem_of_getVertex found

section

variable {origin : Hash} {subgraph : List Hash} {vertices : List Vertex} {vertex : Vertex}

theorem mem_of_linearizePairSemantics
    (linearized : linearizePairSemantics options graph fuel origin subgraph = .ok vertices)
    (mem : vertex ∈ vertices) : vertex ∈ graph.vertices := by
  rcases bind_eq_ok.mp linearized with ⟨order, _, scanned⟩
  rcases bind_eq_ok.mp scanned with ⟨kept, _, same⟩
  cases same
  exact mem_of_filterMap_getVertex mem

theorem mem_of_linearizeVertices
    (linearized : linearizeVertices options graph fuel origin subgraph = .ok vertices)
    (mem : vertex ∈ vertices) : vertex ∈ graph.vertices := by
  unfold linearizeVertices at linearized
  split at linearized
  · exact mem_of_linearizePairSemantics linearized mem
  · rw [linearizeMultipleSemantics] at linearized
    rcases bind_eq_ok.mp linearized with ⟨order, _, scanned⟩
    rcases bind_eq_ok.mp scanned with ⟨kept, _, same⟩
    cases same
    exact mem_of_filterMap_getVertex mem
  · cases linearized
    simp at mem

end

theorem scanOrder_subperm {origin : Hash} {order kept : List Hash}
    (scanned : graph.scanOrder options fuel origin order = .ok kept) : kept.Subperm order := by
  have plain : (order.filter (· ≠ origin)).Subperm order := (List.filter_sublist).subperm
  unfold scanOrder at scanned
  split at scanned
  · rw [pairOrder_eq_loop] at scanned
    simpa using loop_subperm scanned
  · unfold multipleOrder at scanned
    split at scanned
    · simpa using (MultipleScan.loop_sublist scanned).subperm
    · cases scanned
      exact plain
  · cases scanned
    exact List.nil_subperm

theorem scanOrder_congr {other : HashGraph} {origin : Hash} {order : List Hash}
    (nodup : (origin :: order).Nodup)
    (present : ∀ hash ∈ origin :: order, hash ∈ graph.hashes)
    (same : ∀ hash ∈ origin :: order, graph.getVertex hash = other.getVertex hash) :
    graph.scanOrder options fuel origin (origin :: order) =
      other.scanOrder options fuel origin (origin :: order) := by
  unfold scanOrder
  split
  · exact pairOrder_congr nodup same fuel origin
  · exact multipleOrder_congr nodup present same fuel
  · rfl

theorem scanOrder_origin (origin : Hash) :
    graph.scanOrder options fuel origin [origin] = .ok [] := by
  unfold scanOrder
  split
  · rw [pairOrder_eq_loop, loop_origin]
    rfl
  · unfold multipleOrder
    split
    · rw [MultipleScan.loop_origin]
      rfl
    · simp
  · rfl

theorem scanOrder_singleton (semantics : options.semanticsTypeDRP ≠ none) {origin hash : Hash}
    (different : hash ≠ origin) :
    graph.scanOrder options fuel origin [origin, hash] = .ok [hash] := by
  unfold scanOrder
  cases found : options.semanticsTypeDRP with
  | none => exact absurd found semantics
  | some kind =>
    cases kind with
    | pair =>
      change pairOrder options graph fuel origin [origin, hash] = _
      rw [pairOrder_eq_loop, loop_origin, List.length_singleton, slots, List.map_singleton, loop,
        if_neg (by simpa using different), scanAnchor, sweep]
      rfl
    | multiple =>
      change multipleOrder options graph fuel origin [origin, hash] = _
      unfold multipleOrder
      split
      · rw [MultipleScan.loop_origin, List.length_singleton, MultipleScan.slotsFrom_cons,
          MultipleScan.loop, if_neg (by simpa using different), MultipleScan.scanAnchor]
        rfl
      · simp [different]

theorem Past.linearizeVertices_congr {other : HashGraph} {members members' : List Hash}
    (past : graph.Past members) (otherPast : other.Past members') (wellFormed : graph.WellFormed)
    (otherWellFormed : other.WellFormed) (sameMembers : ∀ hash, hash ∈ members ↔ hash ∈ members')
    (same : ∀ hash ∈ members, graph.getVertex hash = other.getVertex hash) :
    linearizeVertices options graph fuel rootHash members =
      linearizeVertices options other fuel rootHash members' := by
  obtain ⟨order, sorted, causalOrder⟩ := past.exists_dfs wellFormed
  have sorted' := past.dfs_congr otherPast wellFormed otherWellFormed sameMembers fun hash mem => by
    rw [dependenciesOf, dependenciesOf, same hash mem]
  rw [sorted] at sorted'
  have sameOrder : ∀ hash ∈ order, graph.getVertex hash = other.getVertex hash :=
    fun hash mem => same hash ((causalOrder.mem hash).mp mem)
  have scans : graph.scanOrder options fuel rootHash order =
      other.scanOrder options fuel rootHash order := by
    obtain ⟨rest, shape⟩ := causalOrder.head
    rw [shape]
    refine scanOrder_congr (shape ▸ causalOrder.nodup) (fun hash mem => ?_) (shape ▸ sameOrder)
    exact past.present hash ((causalOrder.mem hash).mp (shape ▸ mem))
  rw [linearizeVertices_eq sorted, linearizeVertices_eq sorted'.symm, ← scans]
  cases scanned : graph.scanOrder options fuel rootHash order with
  | error error => rfl
  | ok kept =>
    rw [map_ok, map_ok]
    congr 1
    refine List.filterMap_congr fun hash mem => sameOrder hash ?_
    exact (scanOrder_subperm scanned).subset mem

theorem Interval.exists_scan {origin : Hash} {members : List Hash}
    (interval : graph.Interval origin members) (wellFormed : graph.WellFormed)
    {vertices : List Vertex}
    (linearized : linearizePairSemantics options graph fuel origin members = .ok vertices) :
    ∃ rest kept, graph.dfsTopologicalSortIterative origin members = .ok (origin :: rest) ∧
      graph.CausalOrder origin members (origin :: rest) ∧
      (∀ hash ∈ rest, hash ∈ members.filter (· ≠ origin)) ∧
      loop (pairAction options graph) fuel origin rest.length
        (LegacyCausalityMatrix.build graph (origin :: rest)) (slots rest) = .ok kept ∧
      vertices = kept.filterMap graph.getVertex := by
  obtain ⟨order, sorted, causalOrder⟩ := interval.exists_dfs wellFormed
  obtain ⟨rest, shape⟩ := causalOrder.head
  rw [shape] at sorted causalOrder
  rw [linearizePairSemantics, sorted, ok_bind] at linearized
  obtain ⟨kept, scanned, linearized⟩ := bind_eq_ok.mp linearized
  cases linearized
  refine ⟨rest, kept, sorted, causalOrder, fun hash mem => ?_, ?_, rfl⟩
  · have different : hash ≠ origin := by
      rintro rfl
      exact (List.nodup_cons.mp causalOrder.nodup).1 mem
    exact List.mem_filter.mpr ⟨(causalOrder.mem hash).mp (.tail _ mem), by simpa using different⟩
  · rw [pairOrder_eq_loop] at scanned
    rw [← scanned]
    exact (loop_origin fuel origin rest).symm

theorem Past.mem_linearizeVertices {members : List Hash} (past : graph.Past members)
    (wellFormed : graph.WellFormed) {vertices : List Vertex}
    (linearized : linearizeVertices options graph fuel rootHash members = .ok vertices)
    {vertex : Vertex} (mem : vertex ∈ vertices) :
    vertex.hash ∈ members ∧ graph.getVertex vertex.hash = some vertex := by
  obtain ⟨order, sorted, causalOrder⟩ := past.exists_dfs wellFormed
  rw [linearizeVertices_eq sorted] at linearized
  obtain ⟨kept, scanned, rfl⟩ := map_eq_ok.mp linearized
  obtain ⟨hash, hashMem, found⟩ := List.mem_filterMap.mp mem
  rw [getVertex_hash found]
  exact ⟨(causalOrder.mem hash).mp ((scanOrder_subperm scanned).subset hashMem),
    found⟩

/--
Linearizing a whole is linearizing the past of a causal barrier and then the
rest from its origin.  Under pair semantics the swaps inside the past must
settle; multiple semantics never swaps.
-/
theorem CausalBarrier.linearizeVertices_append {past whole subgraph heads : List Hash}
    {origin : Hash} (barrier : graph.CausalBarrier past whole origin subgraph)
    (wellFormed : graph.WellFormed)
    (isHead : ∀ hash ∈ past, hash ∉ heads → ∃ later ∈ past, graph.Precedes hash later)
    (settle : options.semanticsTypeDRP = some .pair → graph.MaySwap options past →
      SwapsSettle (pairAction options graph) heads (past.filter (· ≠ rootHash))) (fuel : ℕ) :
    linearizeVertices options graph fuel rootHash whole = (do
      let kept ← linearizeVertices options graph fuel rootHash past
      let behind ← linearizeVertices options graph fuel origin subgraph
      return kept ++ behind) := by
  obtain ⟨order, rest, pastSorted, wholeSorted, restSorted, pastOrder, wholeOrder⟩ :=
    barrier.exists_orders wellFormed
  rw [linearizeVertices_eq pastSorted, linearizeVertices_eq wholeSorted,
    linearizeVertices_eq restSorted]
  have split : graph.scanOrder options fuel rootHash (order ++ rest) = (do
      let kept ← graph.scanOrder options fuel rootHash order
      let behind ← graph.scanOrder options fuel origin (origin :: rest)
      return kept ++ behind) := by
    unfold scanOrder
    cases semantics : options.semanticsTypeDRP with
    | none => rfl
    | some kind =>
      cases kind with
      | pair =>
        exact barrier.pairOrder_append wellFormed pastOrder wholeOrder isHead (settle semantics)
          fuel
      | multiple => exact barrier.multipleOrder_append wellFormed pastOrder wholeOrder fuel
  rw [split]
  cases graph.scanOrder options fuel rootHash order with
  | error error => rfl
  | ok kept =>
    cases graph.scanOrder options fuel origin (origin :: rest) with
    | error error => rfl
    | ok behind => simp

end HashGraph

end TsDrp
