import TsDrp.Applier.Pipeline

/-!
# Replaying from the root

The state that the past of some vertices replays to.  It depends on that past
alone, and a vertex added on top of a past contributes its own operation last.
-/

namespace TsDrp

namespace HashGraph

variable {graph : HashGraph}

def created (graph : HashGraph) : List Vertex :=
  graph.vertices.filter fun vertex => vertex.hash ≠ rootHash

theorem exists_created {hash : Hash} (mem : hash ∈ graph.hashes) (notRoot : hash ≠ rootHash) :
    ∃ vertex ∈ graph.created, graph.getVertex hash = some vertex := by
  rcases exists_getVertex mem with ⟨vertex, found⟩
  refine ⟨vertex, ?_, found⟩
  rw [created, List.mem_filter, decide_eq_true_eq, getVertex_hash found]
  exact ⟨mem_of_getVertex found, notRoot⟩

theorem WellFormed.exists_frontier_above (wellFormed : graph.WellFormed) {hash : Hash}
    (mem : hash ∈ graph.hashes) : ∃ head ∈ graph.frontier, graph.PrecedesEq hash head := by
  -- The induction is on the number of vertices inserted after this one.
  induction after : graph.hashes.length - graph.rank hash using Nat.strong_induction_on
    generalizing hash with
  | _ after ih =>
    by_cases isHead : ∀ later, ¬graph.Dependency hash later
    · exact ⟨hash, (wellFormed.frontier hash).mpr ⟨mem, isHead⟩, .refl⟩
    · push Not at isHead
      rcases isHead with ⟨later, dependency⟩
      have ranked := wellFormed.ranked dependency
      have bound : graph.rank later < graph.hashes.length :=
        List.idxOf_lt_length_of_mem dependency.later_mem
      rcases ih (graph.hashes.length - graph.rank later) (by omega) dependency.later_mem rfl with
        ⟨head, headMem, precedes⟩
      exact ⟨head, headMem, .head dependency precedes⟩

theorem WellFormed.frontier_present (wellFormed : graph.WellFormed) :
    ∀ hash ∈ graph.frontier, hash ∈ graph.hashes :=
  fun hash mem => ((wellFormed.frontier hash).mp mem).1

theorem WellFormed.mem_causalPast_frontier (wellFormed : graph.WellFormed) {hash : Hash} :
    hash ∈ graph.causalPast graph.frontier ↔ hash ∈ graph.hashes := by
  rw [wellFormed.mem_causalPast]
  constructor
  · rintro ⟨head, headMem, precedes⟩
    exact wellFormed.precedesEq_mem_left precedes (wellFormed.frontier_present head headMem)
  · exact wellFormed.exists_frontier_above

theorem WellFormed.frontier_antichain (wellFormed : graph.WellFormed) :
    ∀ first ∈ graph.frontier, ∀ second ∈ graph.frontier, ¬graph.Precedes first second := by
  intro first firstMem second _ precedes
  rcases Relation.TransGen.head'_iff.mp precedes with ⟨middle, dependency, _⟩
  exact ((wellFormed.frontier first).mp firstMem).2 middle dependency

theorem frontier_addVertex_of_eq {vertex : Vertex} (onTop : vertex.dependencies = graph.frontier)
    (notHead : vertex.hash ∉ graph.frontier) : (graph.addVertex vertex).frontier = [vertex.hash] := by
  have passed : graph.frontier.filter (fun hash => hash ∉ graph.frontier) = [] :=
    List.filter_eq_nil_iff.mpr (by simp)
  simp only [addVertex, onTop, List.filter_append, passed, List.nil_append]
  simpa using notHead

theorem WellFormed.mem_causalPast_addVertex (wellFormed : graph.WellFormed) {vertex : Vertex}
    (admissible : graph.Admissible vertex) {hash : Hash} :
    hash ∈ (graph.addVertex vertex).causalPast [vertex.hash] ↔
      hash = vertex.hash ∨ hash ∈ (graph.addVertex vertex).causalPast vertex.dependencies := by
  have grown := wellFormed.addVertex admissible
  have dependency_iff : ∀ earlier, (graph.addVertex vertex).Dependency earlier vertex.hash ↔
      earlier ∈ vertex.dependencies := by
    intro earlier
    rw [Dependency, dependenciesOf_addVertex_self admissible.fresh]
  rw [grown.mem_causalPast, grown.mem_causalPast]
  simp only [List.mem_singleton, exists_eq_left]
  constructor
  · intro precedes
    rcases Relation.ReflTransGen.cases_tail precedes with same | ⟨last, upTo, dependency⟩
    · exact Or.inl same.symm
    · exact Or.inr ⟨last, (dependency_iff last).mp dependency, upTo⟩
  · rintro (rfl | ⟨last, mem, upTo⟩)
    · exact .refl
    · exact upTo.tail ((dependency_iff last).mpr mem)

end HashGraph

open HashGraph

theorem HashGraph.MaySwap.of_within {options : GraphOptions} {graph whole : HashGraph}
    (within : graph.Within whole) (wellFormed : graph.WellFormed) (wholeFormed : whole.WellFormed)
    (may : graph.MaySwap options graph.hashes) : whole.MaySwap options whole.hashes := by
  rcases may with ⟨left, leftMem, right, rightMem, ⟨different, notBefore, notAfter⟩, isSwap⟩
  refine ⟨left, within.mem_hashes leftMem, right, within.mem_hashes rightMem, ⟨different, ?_, ?_⟩, ?_⟩
  · rwa [← within.precedes_iff wellFormed wholeFormed rightMem]
  · rwa [← within.precedes_iff wellFormed wholeFormed leftMem]
  · rwa [pairAction, within.getVertex_eq wholeFormed leftMem, within.getVertex_eq wholeFormed rightMem]

/--
Under pair semantics, a vertex that a swap brings forward conflicts with no other
vertex.  Nothing is asked where no two concurrent vertices are answered `Swap`.
-/
def GraphOptions.SwapsAreFinal (options : GraphOptions) (graph : HashGraph) : Prop :=
  options.semanticsTypeDRP = some .pair → graph.MaySwap options graph.hashes →
    ∀ left ∈ graph.created, ∀ right ∈ graph.created, ∀ other ∈ graph.created,
      left.hash ≠ right.hash → other.hash ≠ right.hash →
      (options.resolveConflicts [left, right]).map (·.action) = .ok .swap →
        (options.resolveConflicts [right, other]).map (·.action) = .ok .nop

theorem GraphOptions.SwapsAreFinal.of_within {options : GraphOptions} {graph whole : HashGraph}
    (swaps : options.SwapsAreFinal whole) (within : graph.Within whole)
    (wellFormed : graph.WellFormed) (wholeFormed : whole.WellFormed) :
    options.SwapsAreFinal graph := by
  have created : ∀ vertex ∈ graph.created, vertex ∈ whole.created := by
    intro vertex mem
    rcases List.mem_filter.mp mem with ⟨present, notRoot⟩
    exact List.mem_filter.mpr ⟨within vertex present, notRoot⟩
  intro pair may left leftMem right rightMem other otherMem
  exact swaps pair (may.of_within within wellFormed wholeFormed) left (created left leftMem) right
    (created right rightMem) other (created other otherMem)

theorem GraphOptions.SwapsAreFinal.swapsSettle {options : GraphOptions} {graph : HashGraph}
    (swaps : options.SwapsAreFinal graph) (wellFormed : graph.WellFormed) {frontier : List Hash}
    (nonempty : frontier ≠ []) (present : ∀ hash ∈ frontier, hash ∈ graph.hashes) :
    graph.SwapsSettle options frontier := by
  intro pair may left leftMem right rightMem different isSwap
  have found : ∀ hash ∈ (graph.causalPast frontier).filter (· ≠ rootHash),
      ∃ vertex ∈ graph.created, graph.getVertex hash = some vertex := by
    intro hash mem
    rcases List.mem_filter.mp mem with ⟨inPast, notRoot⟩
    rcases exists_getVertex ((wellFormed.causalPast_past nonempty present).present hash inPast) with
      ⟨vertex, found⟩
    refine ⟨vertex, List.mem_filter.mpr ⟨mem_of_getVertex found, ?_⟩, found⟩
    rw [getVertex_hash found]
    exact notRoot
  rcases found left leftMem with ⟨leftVertex, leftCreated, leftFound⟩
  rcases found right rightMem with ⟨rightVertex, rightCreated, rightFound⟩
  refine Or.inr fun other otherMem otherDifferent => ?_
  rcases found other otherMem with ⟨otherVertex, otherCreated, otherFound⟩
  simp only [pairAction, leftFound, rightFound, otherFound] at isSwap ⊢
  refine swaps pair may.all leftVertex leftCreated rightVertex rightCreated otherVertex otherCreated
    ?_ ?_ isSwap
  · rwa [getVertex_hash leftFound, getVertex_hash rightFound]
  · rwa [getVertex_hash otherFound, getVertex_hash rightFound]

namespace Environment

variable {Drp Acl : Type} (env : Environment Drp Acl) (genesis : ReplayState Drp Acl)

/-- The state that the past of some vertices replays to from the root. -/
def replayOf (graph : HashGraph) (heads : List Hash) : Except JsError (ReplayState Drp Acl) :=
  linearizeVertices env.options graph env.fuel rootHash (graph.causalPast heads) >>=
    env.code.replay genesis

section Congruence

variable {graph other : HashGraph} {heads : List Hash}

theorem replayOf_congr (wellFormed : graph.WellFormed) (otherWellFormed : other.WellFormed)
    {heads' : List Hash} (nonempty : heads ≠ []) (nonempty' : heads' ≠ [])
    (present : ∀ hash ∈ heads, hash ∈ graph.hashes)
    (present' : ∀ hash ∈ heads', hash ∈ other.hashes)
    (samePast : ∀ hash, hash ∈ graph.causalPast heads ↔ hash ∈ other.causalPast heads')
    (same : ∀ hash ∈ graph.causalPast heads, graph.getVertex hash = other.getVertex hash) :
    env.replayOf genesis graph heads = env.replayOf genesis other heads' := by
  rw [replayOf, replayOf]
  congr 1
  exact (wellFormed.causalPast_past nonempty present).linearizeVertices_congr
    (otherWellFormed.causalPast_past nonempty' present') wellFormed otherWellFormed samePast same

theorem replayOf_within (within : graph.Within other) (wellFormed : graph.WellFormed)
    (otherWellFormed : other.WellFormed) (nonempty : heads ≠ [])
    (present : ∀ hash ∈ heads, hash ∈ graph.hashes) :
    env.replayOf genesis graph heads = env.replayOf genesis other heads := by
  apply env.replayOf_congr genesis wellFormed otherWellFormed nonempty nonempty present
  · exact fun hash mem => within.mem_hashes (present hash mem)
  · intro hash
    rw [wellFormed.mem_causalPast, otherWellFormed.mem_causalPast]
    apply exists_congr
    intro head
    apply and_congr_right
    intro mem
    exact within.precedesEq_iff wellFormed otherWellFormed (present head mem)
  · intro hash mem
    have inGraph := (wellFormed.causalPast_past nonempty present).present hash mem
    exact (within.getVertex_eq otherWellFormed inGraph).symm

end Congruence

theorem replayOf_root {graph : HashGraph} (wellFormed : graph.WellFormed) :
    env.replayOf genesis graph [rootHash] = .ok genesis := by
  have present : ∀ hash ∈ [rootHash], hash ∈ graph.hashes := by simpa using wellFormed.rootHash_mem
  rcases (wellFormed.causalPast_past (List.cons_ne_nil _ _) present).exists_dfs wellFormed with
    ⟨order, sorted, causalOrder⟩
  have onlyRoot : order = [rootHash] := by
    apply List.perm_singleton.mp
    apply (List.perm_ext_iff_of_nodup causalOrder.nodup (List.nodup_singleton _)).mpr
    intro hash
    rw [causalOrder.mem, wellFormed.mem_causalPast_root, List.mem_singleton]
  rw [replayOf, linearizeVertices_eq sorted, onlyRoot, scanOrder_origin]
  rfl

section AddVertex

variable {graph : HashGraph} {vertex : Vertex}

section

variable (wellFormed : graph.WellFormed) (admissible : graph.Admissible vertex)
include wellFormed admissible

theorem barrier_addVertex {origin : Hash} (originMem : origin ∈ vertex.dependencies) :
    (graph.addVertex vertex).CausalBarrier ((graph.addVertex vertex).causalPast vertex.dependencies)
      ((graph.addVertex vertex).causalPast [vertex.hash]) origin [origin, vertex.hash] := by
  have grown := wellFormed.addVertex admissible
  have hashes := hashes_addVertex admissible.fresh
  have present : ∀ hash ∈ vertex.dependencies, hash ∈ (graph.addVertex vertex).hashes := by
    intro hash mem
    rw [hashes]
    exact List.mem_append_left _ (admissible.present hash mem)
  have selfPresent : ∀ hash ∈ [vertex.hash], hash ∈ (graph.addVertex vertex).hashes := by
    simp [hashes]
  have dependency : ∀ hash ∈ vertex.dependencies,
      (graph.addVertex vertex).Dependency hash vertex.hash := by
    intro hash mem
    rw [Dependency, dependenciesOf_addVertex_self admissible.fresh]
    exact mem
  have precedes : ∀ hash ∈ (graph.addVertex vertex).causalPast vertex.dependencies,
      (graph.addVertex vertex).Precedes hash vertex.hash := by
    intro hash mem
    rcases grown.mem_causalPast.mp mem with ⟨last, lastMem, upTo⟩
    exact .tail' upTo (dependency last lastMem)
  have notPast : vertex.hash ∉ (graph.addVertex vertex).causalPast vertex.dependencies :=
    fun mem => grown.acyclic _ (precedes _ mem)
  have inPast := grown.mem_causalPast_self originMem
  refine ⟨grown.causalPast_past admissible.nonempty present,
    grown.causalPast_past (List.cons_ne_nil _ _) selfPresent, fun hash mem => ?_, ?_, fun hash => ?_,
    inPast, fun hash mem originPrecedes => ?_, fun later laterMem laterBehind earlier mem => ?_⟩
  · exact (wellFormed.mem_causalPast_addVertex admissible).mpr (Or.inr mem)
  · have different : origin ≠ vertex.hash := fun same => notPast (same ▸ inPast)
    simpa using different
  · rw [wellFormed.mem_causalPast_addVertex admissible]
    constructor
    · intro mem
      rcases List.mem_pair.mp mem with rfl | rfl
      · exact Or.inl rfl
      · exact Or.inr ⟨Or.inl rfl, notPast⟩
    · rintro (rfl | ⟨rfl | mem, behind⟩)
      · exact List.mem_cons_self
      · exact List.mem_pair.mpr (Or.inr rfl)
      · exact absurd mem behind
  · rcases grown.mem_causalPast.mp mem with ⟨last, lastMem, upTo⟩
    exact grown.antichain vertex.hash origin (dependency origin originMem) last
      (dependency last lastMem) (originPrecedes.trans_left upTo)
  · rcases (wellFormed.mem_causalPast_addVertex admissible).mp laterMem with rfl | mem'
    · exact precedes earlier mem
    · exact absurd mem' laterBehind

theorem linearizeVertices_addVertex (swaps : env.options.SwapsAreFinal (graph.addVertex vertex)) :
    linearizeVertices env.options (graph.addVertex vertex) env.fuel rootHash
        ((graph.addVertex vertex).causalPast [vertex.hash]) =
      (linearizeVertices env.options (graph.addVertex vertex) env.fuel rootHash
        ((graph.addVertex vertex).causalPast vertex.dependencies)).map (· ++ [vertex]) := by
  have grown := wellFormed.addVertex admissible
  rcases List.exists_mem_of_ne_nil _ admissible.nonempty with ⟨origin, originMem⟩
  have barrier := barrier_addVertex wellFormed admissible originMem
  have present : ∀ hash ∈ vertex.dependencies, hash ∈ (graph.addVertex vertex).hashes := by
    intro hash mem
    rw [hashes_addVertex admissible.fresh]
    exact List.mem_append_left _ (admissible.present hash mem)
  have different : vertex.hash ≠ origin := by
    rintro rfl
    exact admissible.fresh (admissible.present _ originMem)
  have behind : linearizeVertices env.options (graph.addVertex vertex) env.fuel origin
      [origin, vertex.hash] = .ok [vertex] := by
    rcases barrier.exists_orders grown with ⟨order, rest, _, _, sorted, pastOrder, wholeOrder⟩
    have isRest : ∀ hash, hash ∈ rest ↔ hash = vertex.hash := by
      intro hash
      rw [pastOrder.mem_rest wholeOrder, wellFormed.mem_causalPast_addVertex admissible]
      constructor
      · rintro ⟨rfl | mem, notPast⟩
        · rfl
        · exact absurd mem notPast
      · rintro rfl
        refine ⟨Or.inl rfl, fun mem => ?_⟩
        have inSubgraph := (barrier.mem vertex.hash).mp (List.mem_pair.mpr (Or.inr rfl))
        rcases inSubgraph with same | ⟨_, notPast⟩
        · exact different same
        · exact notPast mem
    have single : rest = [vertex.hash] :=
      List.perm_singleton.mp ((List.perm_ext_iff_of_nodup
        (List.nodup_append.mp wholeOrder.nodup).2.1 (List.nodup_singleton _)).mpr
          (by simpa using isRest))
    rw [linearizeVertices_eq sorted, single, scanOrder_singleton env.semantics different,
      Outcome.map_ok, List.filterMap_cons, getVertex_addVertex_self admissible.fresh]
    rfl
  rw [barrier.linearizeVertices_append grown (fun _ mem notHead => Cut.isHead grown mem notHead)
    (swaps.swapsSettle grown admissible.nonempty present) env.fuel, behind]
  cases linearizeVertices env.options (graph.addVertex vertex) env.fuel rootHash
    ((graph.addVertex vertex).causalPast vertex.dependencies) <;> rfl

theorem replayOf_addVertex (swaps : env.options.SwapsAreFinal (graph.addVertex vertex))
    {state : ReplayState Drp Acl}
    (replayed : env.replayOf genesis graph vertex.dependencies = .ok state) :
    env.replayOf genesis (graph.addVertex vertex) [vertex.hash] = env.code.replay state [vertex] := by
  have within : graph.Within (graph.addVertex vertex) :=
    .of_extends (.single ⟨vertex, admissible, rfl⟩)
  rw [env.replayOf_within genesis within wellFormed (wellFormed.addVertex admissible)
    admissible.nonempty admissible.present] at replayed
  rcases Outcome.bind_eq_ok.mp replayed with ⟨kept, linearized, keptReplayed⟩
  rw [replayOf, env.linearizeVertices_addVertex wellFormed admissible swaps, linearized]
  exact env.code.replay_append keptReplayed [vertex]

end

end AddVertex

end Environment

end TsDrp
