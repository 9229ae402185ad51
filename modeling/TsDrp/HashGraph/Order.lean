import TsDrp.HashGraph.TopologicalSort

/-!
# The order of a causally closed set

On a causally closed set the sort lists every vertex after its ancestors.  The
order depends on the set and its dependencies alone, it restricts to causally
closed subsets, and it splits at a causal barrier: when every vertex outside a
closed set descends from all of that set, the order of the whole is the order of
the set followed by the order of the rest.
-/

namespace TsDrp

open DepthFirst

namespace HashGraph

/-- The vertices that precede or equal one of the heads. -/
def causalPast (graph : HashGraph) (heads : List Hash) : List Hash :=
  Worklist.search graph.dependenciesOf
    (Worklist.budget graph.dependenciesOf (heads ++ graph.hashes) heads) heads []

/-- A causally closed set of vertices with the root. -/
structure Past (graph : HashGraph) (members : List Hash) : Prop where
  nodup : members.Nodup
  root : rootHash ∈ members
  present : ∀ hash ∈ members, hash ∈ graph.hashes
  closed : ∀ {earlier later}, graph.Dependency earlier later → later ∈ members → earlier ∈ members

structure CausalOrder (graph : HashGraph) (origin : Hash) (members order : List Hash) : Prop where
  nodup : order.Nodup
  mem : ∀ hash, hash ∈ order ↔ hash ∈ members
  ordered : order.Pairwise fun earlier later => ¬graph.Precedes later earlier
  head : ∃ rest, order = origin :: rest

theorem CausalOrder.mem_rest {graph : HashGraph} {past whole order rest : List Hash} {origin : Hash}
    (pastOrder : graph.CausalOrder origin past order)
    (wholeOrder : graph.CausalOrder origin whole (order ++ rest)) {hash : Hash} :
    hash ∈ rest ↔ hash ∈ whole ∧ hash ∉ past := by
  rw [← wholeOrder.mem, ← pastOrder.mem]
  constructor
  · intro mem
    refine ⟨List.mem_append_right _ mem, fun inOrder => ?_⟩
    exact (List.nodup_append.mp wholeOrder.nodup).2.2 hash inOrder hash mem rfl
  · rintro ⟨inWhole, notPast⟩
    exact (List.mem_append.mp inWhole).resolve_left notPast

section CausalPast

variable {graph : HashGraph} {heads : List Hash}

theorem reaches_dependenciesOf {head hash : Hash} :
    Worklist.Reaches graph.dependenciesOf head hash ↔ graph.PrecedesEq hash head := by
  rw [PrecedesEq, ← Relation.reflTransGen_swap]
  rfl

theorem WellFormed.mem_causalPast (wellFormed : graph.WellFormed) {hash : Hash} :
    hash ∈ graph.causalPast heads ↔ ∃ head ∈ heads, graph.PrecedesEq hash head := by
  rw [causalPast, Worklist.mem_search_budget]
  · simp only [reaches_dependenciesOf]
  · intro node _ dependency mem
    exact List.mem_append_right _ (wellFormed.present mem)
  · intro head mem
    exact List.mem_append_left _ mem

theorem WellFormed.causalPast_past (wellFormed : graph.WellFormed) (nonempty : heads ≠ [])
    (present : ∀ head ∈ heads, head ∈ graph.hashes) : graph.Past (graph.causalPast heads) where
  nodup := Worklist.search_nodup _ _ _ List.nodup_nil
  root := by
    obtain ⟨head, mem⟩ := List.exists_mem_of_ne_nil _ nonempty
    exact wellFormed.mem_causalPast.mpr ⟨head, mem, wellFormed.root_precedesEq (present head mem)⟩
  present := by
    intro hash mem
    obtain ⟨head, headMem, precedes⟩ := wellFormed.mem_causalPast.mp mem
    exact wellFormed.precedesEq_mem_left precedes (present head headMem)
  closed := by
    intro earlier later dependency mem
    obtain ⟨head, headMem, precedes⟩ := wellFormed.mem_causalPast.mp mem
    exact wellFormed.mem_causalPast.mpr ⟨head, headMem, .head dependency precedes⟩

end CausalPast

theorem idxOf_lt_of_pairwise {relation : Hash → Hash → Prop} {order : List Hash}
    (ordered : order.Pairwise fun earlier later => ¬relation later earlier)
    (irreflexive : ∀ hash, ¬relation hash hash) {earlier later : Hash} (mem : earlier ∈ order)
    (laterMem : later ∈ order) (related : relation earlier later) :
    order.idxOf earlier < order.idxOf later := by
  by_contra notBefore
  rcases Nat.lt_or_eq_of_le (Nat.le_of_not_lt notBefore) with isBefore | same
  · have bound := List.idxOf_lt_length_iff.mpr mem
    have notAfter := List.pairwise_iff_getElem.mp ordered _ _ (isBefore.trans bound) bound isBefore
    rw [List.getElem_idxOf, List.getElem_idxOf] at notAfter
    exact notAfter related
  · rw [List.idxOf_inj laterMem] at same
    exact irreflexive earlier (same ▸ related)

/-- A convex set of vertices all of which are reached from the origin without leaving the set. -/
structure Interval (graph : HashGraph) (origin : Hash) (members : List Hash) : Prop where
  nodup : members.Nodup
  originMem : origin ∈ members
  reachable : ∀ hash ∈ members, graph.ReachesWithin members origin hash
  convex : ∀ {earlier middle later}, earlier ∈ members → later ∈ members →
    graph.PrecedesEq earlier middle → graph.Dependency middle later → middle ∈ members

namespace Interval

variable {graph : HashGraph} {origin : Hash} {members : List Hash}

theorem below_of_precedes (interval : graph.Interval origin members) (wellFormed : graph.WellFormed)
    {earlier later : Hash} (precedes : graph.Precedes earlier later) (mem : earlier ∈ members)
    (laterMem : later ∈ members) : Below (graph.successors members) earlier later := by
  induction precedes with
  | single dependency => exact .single ((mem_successors wellFormed).mpr ⟨dependency, laterMem⟩)
  | tail upTo dependency ih =>
    have middleMem := interval.convex mem laterMem upTo.to_reflTransGen dependency
    exact (ih middleMem).tail ((mem_successors wellFormed).mpr ⟨dependency, laterMem⟩)

theorem present (interval : graph.Interval origin members) {hash : Hash} (mem : hash ∈ members)
    (notOrigin : hash ≠ origin) : hash ∈ graph.hashes := by
  rcases (interval.reachable hash mem).cases_tail with same | ⟨_, _, edge⟩
  · exact absurd same notOrigin
  · exact edge.1.later_mem

theorem exists_dfs (interval : graph.Interval origin members) (wellFormed : graph.WellFormed) :
    ∃ order, graph.dfsTopologicalSortIterative origin members = .ok order ∧
      graph.CausalOrder origin members order := by
  rcases wellFormed.sound_postorder interval.originMem interval.reachable le_rfl with
    ⟨sound, mem, first⟩
  refine ⟨_, wellFormed.sort_eq_visit interval.nodup interval.originMem interval.reachable le_rfl,
    sound.nodup, mem, ?_, first⟩
  refine List.Pairwise.imp_of_mem ?_ sound.ordered
  intro earlier later earlierMem laterMem notBelow precedes
  exact notBelow (interval.below_of_precedes wellFormed precedes ((mem later).mp laterMem)
    ((mem earlier).mp earlierMem))

end Interval

namespace Past

variable {graph : HashGraph} {members : List Hash}

theorem precedes_mem (past : graph.Past members) {earlier later : Hash}
    (precedes : graph.Precedes earlier later) (mem : later ∈ members) : earlier ∈ members := by
  induction precedes with
  | single dependency => exact past.closed dependency mem
  | tail _ dependency ih => exact ih (past.closed dependency mem)

section

variable (past : graph.Past members) (wellFormed : graph.WellFormed)
include past wellFormed

theorem reachesWithin {hash : Hash} (mem : hash ∈ members) :
    graph.ReachesWithin members rootHash hash := by
  have path := wellFormed.root_precedesEq (past.present hash mem)
  induction path with
  | refl => exact .refl
  | tail _ dependency ih => exact (ih (past.closed dependency mem)).tail ⟨dependency, mem⟩

theorem interval : graph.Interval rootHash members :=
  ⟨past.nodup, past.root, fun _ mem => past.reachesWithin wellFormed mem,
    fun _ laterMem _ dependency => past.closed dependency laterMem⟩

theorem exists_dfs : ∃ order, graph.dfsTopologicalSortIterative rootHash members = .ok order ∧
    graph.CausalOrder rootHash members order :=
  (past.interval wellFormed).exists_dfs wellFormed

theorem sort_eq_visit {depth : ℕ} (enough : members.length ≤ depth) :
    graph.dfsTopologicalSortIterative rootHash members =
      .ok (visit (graph.successors members) depth ([], []) rootHash).2 :=
  wellFormed.sort_eq_visit past.nodup past.root (fun _ mem => past.reachesWithin wellFormed mem) enough

end

end Past

section Congruence

theorem sorted_ext {first second : List Hash} (firstSorted : first.Pairwise (· ≤ ·))
    (secondSorted : second.Pairwise (· ≤ ·)) (firstNodup : first.Nodup)
    (secondNodup : second.Nodup) (same : ∀ hash, hash ∈ first ↔ hash ∈ second) :
    first = second :=
  ((List.perm_ext_iff_of_nodup firstNodup secondNodup).mpr same).eq_of_pairwise'
    firstSorted secondSorted

theorem successors_sorted (graph : HashGraph) (subgraph : List Hash) (node : Hash) :
    (graph.successors subgraph node).Pairwise (· ≤ ·) :=
  (List.pairwise_insertionSort _ _).filter _

theorem successors_nodup {graph : HashGraph} (wellFormed : graph.WellFormed)
    (subgraph : List Hash) (node : Hash) : (graph.successors subgraph node).Nodup :=
  (wellFormed.antichained subgraph).nodup node

variable {graph other : HashGraph} {members members' : List Hash}

theorem successors_congr (wellFormed : graph.WellFormed) (otherWellFormed : other.WellFormed)
    (sameMembers : ∀ hash, hash ∈ members ↔ hash ∈ members')
    (sameDependencies : ∀ hash ∈ members, graph.dependenciesOf hash = other.dependenciesOf hash) :
    graph.successors members = other.successors members' := by
  funext node
  refine sorted_ext (successors_sorted _ _ _) (successors_sorted _ _ _)
    (successors_nodup wellFormed _ _) (successors_nodup otherWellFormed _ _) ?_
  intro child
  rw [mem_successors wellFormed, mem_successors otherWellFormed, ← sameMembers child]
  refine and_congr_left fun mem => ?_
  rw [Dependency, Dependency, sameDependencies child mem]

theorem Past.dfs_congr (past : graph.Past members) (otherPast : other.Past members')
    (wellFormed : graph.WellFormed) (otherWellFormed : other.WellFormed)
    (sameMembers : ∀ hash, hash ∈ members ↔ hash ∈ members')
    (sameDependencies : ∀ hash ∈ members, graph.dependenciesOf hash = other.dependenciesOf hash) :
    graph.dfsTopologicalSortIterative rootHash members =
      other.dfsTopologicalSortIterative rootHash members' := by
  rw [past.sort_eq_visit wellFormed (Nat.le_add_right _ members'.length),
    otherPast.sort_eq_visit otherWellFormed (Nat.le_add_left _ members.length),
    successors_congr wellFormed otherWellFormed sameMembers sameDependencies]

end Congruence

section Restriction

variable {graph : HashGraph} {members whole : List Hash}

theorem successors_restrict (subset : ∀ hash ∈ members, hash ∈ whole) :
    restrict (graph.successors whole) (fun hash => decide (hash ∈ members)) =
      graph.successors members := by
  funext node
  unfold restrict successors
  rw [List.filter_filter]
  apply List.filter_congr
  intro child _
  by_cases mem : child ∈ members
  · simp [mem, subset child mem]
  · simp [mem]

theorem Past.dfs_filter (past : graph.Past members) (wholePast : graph.Past whole)
    (wellFormed : graph.WellFormed) (subset : ∀ hash ∈ members, hash ∈ whole) {order : List Hash}
    (sorted : graph.dfsTopologicalSortIterative rootHash whole = .ok order) :
    graph.dfsTopologicalSortIterative rootHash members =
      .ok (order.filter fun hash => decide (hash ∈ members)) := by
  have outside : Separate (graph.successors whole)
      (fun hash => decide (hash ∈ members)) rootHash := by
    intro node _ notMem child mem
    simp only [decide_eq_false_iff_not] at notMem ⊢
    exact fun childMem => notMem (past.closed ((mem_successors wellFormed).mp mem).1 childMem)
  have filtered := @within_visit _ _ _ (members.length + whole.length) ([], []) _ _ outside
  rw [if_pos (by simpa using past.root), successors_restrict subset] at filtered
  rw [wholePast.sort_eq_visit wellFormed (Nat.le_add_left _ members.length)] at sorted
  rw [past.sort_eq_visit wellFormed (Nat.le_add_right _ whole.length), ← Except.ok.inj sorted]
  exact congrArg Except.ok (congrArg Prod.snd filtered).symm

end Restriction

/--
A closed set `past` of the closed set `whole`, with an origin among its heads,
such that every vertex of the rest descends from all of `past`.
-/
structure CausalBarrier (graph : HashGraph) (past whole : List Hash) (origin : Hash)
    (subgraph : List Hash) : Prop where
  pastClosed : graph.Past past
  wholeClosed : graph.Past whole
  subset : ∀ hash ∈ past, hash ∈ whole
  nodup : subgraph.Nodup
  mem : ∀ hash, hash ∈ subgraph ↔ hash = origin ∨ (hash ∈ whole ∧ hash ∉ past)
  originMem : origin ∈ past
  maximal : ∀ hash ∈ past, ¬graph.Precedes origin hash
  separates : ∀ later ∈ whole, later ∉ past → ∀ earlier ∈ past, graph.Precedes earlier later

namespace CausalBarrier

variable {graph : HashGraph} {past whole subgraph : List Hash} {origin : Hash}

abbrev beyond (past : List Hash) (hash : Hash) : Bool := decide (hash ∉ past)

abbrev children (graph : HashGraph) (past whole : List Hash) (node : Hash) : List Hash :=
  (graph.successors whole node).filter (beyond past)

theorem mem_children (wellFormed : graph.WellFormed) {node child : Hash} :
    child ∈ children graph past whole node ↔
      graph.Dependency node child ∧ child ∈ whole ∧ child ∉ past := by
  simp [mem_successors wellFormed, and_assoc]

section

variable (barrier : graph.CausalBarrier past whole origin subgraph) (wellFormed : graph.WellFormed)
include barrier wellFormed

theorem maximal_of_child {node child : Hash} (dependency : graph.Dependency node child)
    (childWhole : child ∈ whole) (childBehind : child ∉ past) {later : Hash} (mem : later ∈ past) :
    ¬graph.Precedes node later := by
  intro precedes
  have laterPrecedes := barrier.separates child childWhole childBehind later mem
  obtain ⟨last, upTo, lastDependency⟩ := Relation.TransGen.tail'_iff.mp laterPrecedes
  exact wellFormed.antichain child node dependency last lastDependency
    (precedes.trans_left upTo)

theorem child_of_maximal {node head child : Hash} (nodeMem : node ∈ past)
    (dependency : graph.Dependency node child) (childWhole : child ∈ whole)
    (childBehind : child ∉ past) (headMem : head ∈ past)
    (headMaximal : ∀ hash ∈ past, ¬graph.Precedes head hash) : graph.Dependency head child := by
  have headPrecedes := barrier.separates child childWhole childBehind head headMem
  obtain ⟨last, upTo, lastDependency⟩ := Relation.TransGen.tail'_iff.mp headPrecedes
  by_cases lastPast : last ∈ past
  · rcases Relation.reflTransGen_iff_eq_or_transGen.mp upTo with same | strict
    · rwa [← same]
    · exact absurd strict (headMaximal last lastPast)
  · -- Another dependency behind the barrier would descend from `node`.
    have lastWhole := barrier.wholeClosed.closed lastDependency childWhole
    have nodePrecedes := barrier.separates last lastWhole lastPast node nodeMem
    exact absurd nodePrecedes (wellFormed.antichain child node dependency last lastDependency)

theorem children_eq {node : Hash} (nodeMem : node ∈ past)
    (nonempty : children graph past whole node ≠ []) :
    children graph past whole node = children graph past whole origin := by
  obtain ⟨witness, witnessMem⟩ := List.exists_mem_of_ne_nil _ nonempty
  obtain ⟨witnessDependency, witnessWhole, witnessBehind⟩ := (mem_children wellFormed).mp witnessMem
  refine sorted_ext ((successors_sorted _ _ _).filter _) ((successors_sorted _ _ _).filter _)
    ((successors_nodup wellFormed _ _).filter _) ((successors_nodup wellFormed _ _).filter _) ?_
  intro child
  rw [mem_children wellFormed, mem_children wellFormed]
  refine and_congr_left fun ⟨childWhole, childBehind⟩ => ⟨fun dependency => ?_, fun dependency => ?_⟩
  · exact barrier.child_of_maximal wellFormed nodeMem dependency childWhole childBehind
      barrier.originMem barrier.maximal
  · exact barrier.child_of_maximal wellFormed barrier.originMem dependency childWhole childBehind
      nodeMem fun hash mem => barrier.maximal_of_child wellFormed witnessDependency witnessWhole
        witnessBehind mem

theorem depthFirst :
    Barrier (graph.successors whole) (beyond past) (children graph past whole origin) where
  closed := by
    intro node behind child mem
    simp only [decide_eq_true_eq] at behind ⊢
    exact fun childMem => behind (barrier.pastClosed.closed ((mem_successors wellFormed).mp mem).1 childMem)
  entry := by
    intro node notBehind
    have nodeMem : node ∈ past := by simpa using notBehind
    exact (eq_or_ne _ []).imp id fun nonempty => barrier.children_eq wellFormed nodeMem nonempty
  heads := by
    intro upper node _ nodeNotBehind upperChildren _ below
    obtain ⟨child, mem⟩ := List.exists_mem_of_ne_nil _ upperChildren
    obtain ⟨dependency, childWhole, childBehind⟩ := (mem_children wellFormed).mp mem
    exact barrier.maximal_of_child wellFormed dependency childWhole childBehind
      (by simpa using nodeNotBehind) (below_precedes wellFormed below)

omit wellFormed in
theorem restrict_successors :
    restrict (graph.successors subgraph) (beyond past) =
      restrict (graph.successors whole) (beyond past) := by
  funext node
  unfold restrict successors
  rw [List.filter_filter, List.filter_filter]
  apply List.filter_congr
  intro child _
  by_cases mem : child ∈ past
  · simp [mem]
  · have notOrigin : child ≠ origin := by
      rintro rfl
      exact mem barrier.originMem
    simp [mem, barrier.mem child, notOrigin]

omit wellFormed in
theorem reachesWithin {hash : Hash} (mem : hash ∈ subgraph) :
    graph.ReachesWithin subgraph origin hash := by
  rcases (barrier.mem hash).mp mem with rfl | ⟨inWhole, behind⟩
  · exact .refl
  · have path := barrier.separates hash inWhole behind origin barrier.originMem
    clear mem
    induction path with
    | single dependency =>
      exact .single ⟨dependency, (barrier.mem _).mpr (Or.inr ⟨inWhole, behind⟩)⟩
    | tail upTo dependency ih =>
      have middleWhole := barrier.wholeClosed.closed dependency inWhole
      have middleBehind := fun middleMem => barrier.maximal _ middleMem upTo
      exact (ih middleWhole middleBehind).tail
        ⟨dependency, (barrier.mem _).mpr (Or.inr ⟨inWhole, behind⟩)⟩

theorem sort_eq_cons :
    graph.dfsTopologicalSortIterative origin subgraph = .ok (origin :: (behind (graph.successors whole)
      (beyond past) (children graph past whole origin) whole).2) := by
  have originMem : origin ∈ subgraph := (barrier.mem origin).mpr (Or.inl rfl)
  have reachable : ∀ hash ∈ subgraph, graph.ReachesWithin subgraph origin hash :=
    fun hash mem => barrier.reachesWithin mem
  have smaller : subgraph.length ≤ whole.length + 1 := by
    refine Nat.le_succ_of_le (barrier.nodup.length_le_of_subset fun hash mem => ?_)
    rcases (barrier.mem hash).mp mem with rfl | behind
    · exact barrier.subset hash barrier.originMem
    · exact behind.1
  have separate : ∀ child ∈ graph.successors subgraph origin, Separate
      (graph.successors subgraph) (beyond past) child := by
    intro child edge other reaches notBehind
    have below := Relation.TransGen.head' edge reaches
    rcases Relation.TransGen.tail'_iff.mp below with ⟨_, _, lastEdge⟩
    rcases (barrier.mem other).mp ((mem_successors wellFormed).mp lastEdge).2 with rfl | behind
    · exact absurd (below_precedes wellFormed below) (wellFormed.acyclic other)
    · exact absurd behind.2 (by simpa using notBehind)
  rcases wellFormed.sound_postorder originMem reachable smaller with ⟨sound, members, rest, shape⟩
  have entered := @within_visit_outside _ _ _ whole.length ([], []) _ origin
    (by simp [barrier.originMem]) (by simp) separate
  have entry := congrFun barrier.restrict_successors origin
  rw [restrict, restrict] at entry
  rw [barrier.restrict_successors, entry] at entered
  have nodup := sound.nodup
  rw [shape, List.nodup_cons] at nodup
  have restBehind : rest.filter (beyond past) = rest := by
    rw [List.filter_eq_self]
    intro hash mem
    have inSubgraph := (members hash).mp (shape ▸ List.mem_cons_of_mem _ mem)
    rcases (barrier.mem hash).mp inSubgraph with rfl | behind
    · exact absurd mem nodup.1
    · exact decide_eq_true behind.2
  have listed : (visit (graph.successors subgraph) (whole.length + 1) ([], [])
      origin).2.filter (beyond past) = _ := congrArg Prod.snd entered
  rw [shape, List.filter_cons_of_neg (by simp [barrier.originMem]), restBehind] at listed
  rw [wellFormed.sort_eq_visit barrier.nodup originMem reachable smaller, shape, listed]
  rfl

theorem filter_order {order : List Hash}
    (sorted : graph.dfsTopologicalSortIterative rootHash whole = .ok order) :
    order.filter (beyond past) = (behind (graph.successors whole) (beyond past)
      (children graph past whole origin) whole).2 := by
  rw [barrier.wholeClosed.sort_eq_visit wellFormed le_rfl] at sorted
  rw [← Except.ok.inj sorted]
  exact (barrier.depthFirst wellFormed).filter_visit (wellFormed.antichained whole).acyclic
    (fun _ _ _ mem => ((mem_successors wellFormed).mp mem).2) barrier.wholeClosed.root
    (by simp [barrier.pastClosed.root]) rfl (wellFormed.reachesWithin_iff.mpr
      (barrier.wholeClosed.reachesWithin wellFormed (barrier.subset _ barrier.originMem))) le_rfl

theorem exists_orders :
    ∃ order rest, graph.dfsTopologicalSortIterative rootHash past = .ok order ∧
      graph.dfsTopologicalSortIterative rootHash whole = .ok (order ++ rest) ∧
      graph.dfsTopologicalSortIterative origin subgraph = .ok (origin :: rest) ∧
      graph.CausalOrder rootHash past order ∧
      graph.CausalOrder rootHash whole (order ++ rest) := by
  rcases barrier.wholeClosed.exists_dfs wellFormed with ⟨order, sorted, causalOrder⟩
  rcases barrier.pastClosed.exists_dfs wellFormed with ⟨pastOrder, pastSorted, pastCausal⟩
  have restricted := barrier.pastClosed.dfs_filter barrier.wholeClosed wellFormed barrier.subset sorted
  have fromOrigin := barrier.sort_eq_cons wellFormed
  rw [← barrier.filter_order wellFormed sorted] at fromOrigin
  have whole_eq : order = order.filter (fun hash => decide (hash ∈ past)) ++
      order.filter (beyond past) := by
    have ordered : order.Pairwise fun earlier later =>
        ¬(beyond past earlier = true ∧ beyond past later = false) := by
      refine List.Pairwise.imp_of_mem ?_ causalOrder.ordered
      rintro earlier later earlierMem _ notPrecedes ⟨behind, inPast⟩
      exact notPrecedes (barrier.separates earlier ((causalOrder.mem earlier).mp earlierMem)
        (by simpa using behind) later (by simpa using inPast))
    simpa using eq_filter_append_filter ordered
  rw [restricted] at pastSorted
  cases pastSorted
  refine ⟨_, _, restricted, ?_, fromOrigin, pastCausal, ?_⟩
  · rw [← whole_eq]
    exact sorted
  · rw [← whole_eq]
    exact causalOrder

end

end CausalBarrier

end HashGraph

end TsDrp
