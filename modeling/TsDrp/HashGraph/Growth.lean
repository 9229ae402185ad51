import TsDrp.HashGraph.Basic
import Mathlib.Data.List.Nodup
import Mathlib.Tactic.Common

/-!
# Well-formed hash graphs

What every graph grown from the root satisfies: unique hashes, dependency lists
that are antichains of earlier vertices, and forward edges and frontier that
agree with the dependencies.
-/

namespace TsDrp

namespace HashGraph

def rank (graph : HashGraph) (hash : Hash) : ℕ := graph.hashes.idxOf hash

/--
Unique hashes, dependency lists of earlier vertices, repetitions allowed, and
forward edges and a frontier that agree with them.
-/
structure Coherent (graph : HashGraph) : Prop where
  nodup : graph.hashes.Nodup
  root : graph.getVertex rootHash = some rootVertex
  nonempty : ∀ hash ∈ graph.hashes, hash ≠ rootHash → graph.dependenciesOf hash ≠ []
  present : ∀ {earlier later}, graph.Dependency earlier later → earlier ∈ graph.hashes
  ranked : ∀ {earlier later}, graph.Dependency earlier later →
    graph.rank earlier < graph.rank later
  edges : ∀ earlier later, (graph.forwardEdges earlier).count later =
    (graph.dependenciesOf later).count earlier
  frontier : ∀ hash, hash ∈ graph.frontier ↔
    hash ∈ graph.hashes ∧ ∀ later, ¬graph.Dependency hash later
  frontierNodup : graph.frontier.Nodup

structure WellFormed (graph : HashGraph) : Prop where
  nodup : graph.hashes.Nodup
  root : graph.getVertex rootHash = some rootVertex
  nonempty : ∀ hash ∈ graph.hashes, hash ≠ rootHash → graph.dependenciesOf hash ≠ []
  dependenciesNodup : ∀ hash, (graph.dependenciesOf hash).Nodup
  antichain : ∀ hash, ∀ first ∈ graph.dependenciesOf hash, ∀ second ∈ graph.dependenciesOf hash,
    ¬graph.Precedes first second
  present : ∀ {earlier later}, graph.Dependency earlier later → earlier ∈ graph.hashes
  ranked : ∀ {earlier later}, graph.Dependency earlier later →
    graph.rank earlier < graph.rank later
  edges : ∀ earlier later, later ∈ graph.forwardEdges earlier ↔ graph.Dependency earlier later
  edgesNodup : ∀ hash, (graph.forwardEdges hash).Nodup
  frontier : ∀ hash, hash ∈ graph.frontier ↔
    hash ∈ graph.hashes ∧ ∀ later, ¬graph.Dependency hash later
  frontierNodup : graph.frontier.Nodup

section Lookup

variable {graph : HashGraph} {hash : Hash} {vertex : Vertex}

theorem getVertex_hash (found : graph.getVertex hash = some vertex) : vertex.hash = hash := by
  simpa using List.find?_some found

theorem mem_of_getVertex (found : graph.getVertex hash = some vertex) :
    vertex ∈ graph.vertices :=
  List.mem_of_find?_eq_some found

theorem getVertex_isSome_iff : (graph.getVertex hash).isSome ↔ hash ∈ graph.hashes := by
  simp [getVertex, hashes]

theorem exists_getVertex (mem : hash ∈ graph.hashes) :
    ∃ vertex, graph.getVertex hash = some vertex :=
  Option.isSome_iff_exists.mp (getVertex_isSome_iff.mpr mem)

theorem getVertex_eq_none (absent : hash ∉ graph.hashes) : graph.getVertex hash = none := by
  rw [← Option.not_isSome_iff_eq_none, getVertex_isSome_iff]
  exact absent

theorem dependenciesOf_eq (found : graph.getVertex hash = some vertex) :
    graph.dependenciesOf hash = vertex.dependencies := by
  simp [dependenciesOf, found]

theorem Dependency.later_mem {earlier later : Hash} (dependency : graph.Dependency earlier later) :
    later ∈ graph.hashes := by
  by_contra absent
  simp [Dependency, dependenciesOf, getVertex_eq_none absent] at dependency

theorem hash_mem_of_mem (mem : vertex ∈ graph.vertices) : vertex.hash ∈ graph.hashes :=
  List.mem_map_of_mem mem

theorem getVertex_of_mem (nodup : graph.hashes.Nodup) (mem : vertex ∈ graph.vertices) :
    graph.getVertex vertex.hash = some vertex := by
  obtain ⟨found, shape⟩ := exists_getVertex (hash_mem_of_mem mem)
  have same : found.hash = vertex.hash := getVertex_hash shape
  have foundMem := mem_of_getVertex shape
  rw [shape, List.inj_on_of_nodup_map nodup foundMem mem same]

end Lookup

theorem Concurrent.symm {graph : HashGraph} {left right : Hash}
    (concurrent : graph.Concurrent left right) : graph.Concurrent right left :=
  ⟨concurrent.1.symm, concurrent.2.2, concurrent.2.1⟩

section AddVertex

variable {graph : HashGraph} {vertex : Vertex}

section

variable {hash earlier later : Hash} (fresh : vertex.hash ∉ graph.hashes)
include fresh

theorem vertices_addVertex :
    (graph.addVertex vertex).vertices = graph.vertices ++ [vertex] := by
  have absent : graph.vertices.any (·.hash = vertex.hash) = false := by
    rw [List.any_eq_false]
    intro old mem same
    have sameHash : old.hash = vertex.hash := by simpa using same
    exact fresh (sameHash ▸ hash_mem_of_mem mem)
  simp [addVertex, setVertex, absent]

theorem mem_vertices_addVertex : vertex ∈ (graph.addVertex vertex).vertices := by
  rw [vertices_addVertex fresh]
  exact List.mem_append_right _ List.mem_cons_self

theorem hashes_addVertex :
    (graph.addVertex vertex).hashes = graph.hashes ++ [vertex.hash] := by
  simp [hashes, vertices_addVertex fresh]

theorem getVertex_addVertex_self :
    (graph.addVertex vertex).getVertex vertex.hash = some vertex := by
  have none : graph.vertices.find? (fun old => old.hash = vertex.hash) = none :=
    getVertex_eq_none fresh
  simp [getVertex, vertices_addVertex fresh, List.find?_append, none]

theorem getVertex_addVertex_of_ne (different : hash ≠ vertex.hash) :
    (graph.addVertex vertex).getVertex hash = graph.getVertex hash := by
  simp [getVertex, vertices_addVertex fresh, List.find?_append, different.symm]

theorem dependenciesOf_addVertex_self :
    (graph.addVertex vertex).dependenciesOf vertex.hash = vertex.dependencies :=
  dependenciesOf_eq (getVertex_addVertex_self fresh)

theorem dependenciesOf_addVertex_of_ne (different : hash ≠ vertex.hash) :
    (graph.addVertex vertex).dependenciesOf hash = graph.dependenciesOf hash := by
  simp [dependenciesOf, getVertex_addVertex_of_ne fresh different]

theorem dependency_addVertex_iff :
    (graph.addVertex vertex).Dependency earlier later ↔
      (later = vertex.hash ∧ earlier ∈ vertex.dependencies) ∨ graph.Dependency earlier later := by
  by_cases same : later = vertex.hash
  · subst same
    have none : ¬graph.Dependency earlier vertex.hash := fun dependency =>
      fresh dependency.later_mem
    simp [Dependency, dependenciesOf_addVertex_self fresh] at none ⊢
    simp [none]
  · simp [Dependency, dependenciesOf_addVertex_of_ne fresh same, same]

end

theorem foldl_addForwardEdge (hash : Hash) (dependencies : List Hash)
    (edges : Hash → List Hash) (earlier : Hash) :
    dependencies.foldl (addForwardEdge hash) edges earlier =
      edges earlier ++ List.replicate (dependencies.count earlier) hash := by
  induction dependencies generalizing edges with
  | nil => simp
  | cons head rest ih =>
    rw [List.foldl_cons, ih]
    by_cases same : head = earlier
    · subst same
      simp [addForwardEdge, List.replicate_succ]
    · simp [addForwardEdge, same, Ne.symm same]

theorem forwardEdges_addVertex (earlier : Hash) :
    (graph.addVertex vertex).forwardEdges earlier = graph.forwardEdges earlier ++
      List.replicate (vertex.dependencies.count earlier) vertex.hash :=
  foldl_addForwardEdge _ _ _ _

theorem precedes_addVertex_iff (coherent : graph.Coherent)
    (fresh : vertex.hash ∉ graph.hashes) {earlier later : Hash} (present : later ∈ graph.hashes) :
    (graph.addVertex vertex).Precedes earlier later ↔ graph.Precedes earlier later := by
  constructor
  · intro precedes
    induction precedes using Relation.TransGen.head_induction_on with
    | single dependency =>
      rcases (dependency_addVertex_iff fresh).mp dependency with ⟨rfl, _⟩ | old
      · exact absurd present fresh
      · exact .single old
    | head dependency _ ih =>
      rcases (dependency_addVertex_iff fresh).mp dependency with ⟨rfl, _⟩ | old
      · -- The new vertex would have to precede an old one.
        exfalso
        have first : graph.Precedes vertex.hash later := ih
        obtain ⟨middle, firstStep, _⟩ := Relation.TransGen.head'_iff.mp first
        exact fresh (coherent.present firstStep)
      · exact .head old ih
  · intro precedes
    induction precedes with
    | single old => exact .single ((dependency_addVertex_iff fresh).mpr (Or.inr old))
    | tail _ old ih =>
      exact (ih (coherent.present old)).tail
        ((dependency_addVertex_iff fresh).mpr (Or.inr old))

end AddVertex

namespace Coherent

section

variable {graph : HashGraph} (coherent : graph.Coherent)
include coherent

theorem rootHash_mem : rootHash ∈ graph.hashes :=
  getVertex_isSome_iff.mp (by simp [coherent.root])

theorem dependenciesOf_root : graph.dependenciesOf rootHash = [] :=
  dependenciesOf_eq coherent.root

theorem rank_lt_of_precedes {earlier later : Hash} (precedes : graph.Precedes earlier later) :
    graph.rank earlier < graph.rank later := by
  induction precedes with
  | single dependency => exact coherent.ranked dependency
  | tail _ dependency ih => exact ih.trans (coherent.ranked dependency)

theorem acyclic (hash : Hash) : ¬graph.Precedes hash hash := fun precedes =>
  lt_irrefl _ (coherent.rank_lt_of_precedes precedes)

theorem precedes_mem_left {earlier later : Hash} (precedes : graph.Precedes earlier later) :
    earlier ∈ graph.hashes := by
  obtain ⟨_, dependency, _⟩ := Relation.TransGen.head'_iff.mp precedes
  exact coherent.present dependency

theorem precedesEq_mem_left {earlier later : Hash} (precedes : graph.PrecedesEq earlier later)
    (present : later ∈ graph.hashes) : earlier ∈ graph.hashes := by
  rcases Relation.reflTransGen_iff_eq_or_transGen.mp precedes with rfl | strict
  · exact present
  · exact coherent.precedes_mem_left strict

theorem root_precedesEq {hash : Hash} (present : hash ∈ graph.hashes) :
    graph.PrecedesEq rootHash hash := by
  induction measure : graph.rank hash using Nat.strong_induction_on generalizing hash with
  | _ rank ih =>
    by_cases isRoot : hash = rootHash
    · rw [isRoot]
    · obtain ⟨dependency, mem⟩ :=
        List.exists_mem_of_ne_nil _ (coherent.nonempty hash present isRoot)
      have lower : graph.rank dependency < rank := by
        rw [← measure]
        exact coherent.ranked mem
      exact (ih _ lower (coherent.present mem) rfl).tail mem

end

end Coherent

namespace WellFormed

section

variable {graph : HashGraph} (wellFormed : graph.WellFormed)
include wellFormed

theorem coherent : graph.Coherent where
  nodup := wellFormed.nodup
  root := wellFormed.root
  nonempty := wellFormed.nonempty
  present := wellFormed.present
  ranked := wellFormed.ranked
  edges := by
    intro earlier later
    rw [(wellFormed.edgesNodup earlier).count, (wellFormed.dependenciesNodup later).count]
    exact if_congr (wellFormed.edges earlier later) rfl rfl
  frontier := wellFormed.frontier
  frontierNodup := wellFormed.frontierNodup

theorem rootHash_mem : rootHash ∈ graph.hashes := wellFormed.coherent.rootHash_mem

theorem dependenciesOf_root : graph.dependenciesOf rootHash = [] :=
  wellFormed.coherent.dependenciesOf_root

theorem acyclic (hash : Hash) : ¬graph.Precedes hash hash := wellFormed.coherent.acyclic hash

theorem precedesEq_mem_left {earlier later : Hash} (precedes : graph.PrecedesEq earlier later)
    (present : later ∈ graph.hashes) : earlier ∈ graph.hashes :=
  wellFormed.coherent.precedesEq_mem_left precedes present

theorem root_precedesEq {hash : Hash} (present : hash ∈ graph.hashes) :
    graph.PrecedesEq rootHash hash :=
  wellFormed.coherent.root_precedesEq present

end

theorem of_coherent {graph : HashGraph} (coherent : graph.Coherent)
    (dependenciesNodup : ∀ hash, (graph.dependenciesOf hash).Nodup)
    (antichain : ∀ hash, ∀ first ∈ graph.dependenciesOf hash, ∀ second ∈ graph.dependenciesOf hash,
      ¬graph.Precedes first second) : graph.WellFormed where
  nodup := coherent.nodup
  root := coherent.root
  nonempty := coherent.nonempty
  dependenciesNodup := dependenciesNodup
  antichain := antichain
  present := coherent.present
  ranked := coherent.ranked
  edges := by
    intro earlier later
    rw [Dependency, ← List.count_pos_iff, ← List.count_pos_iff, coherent.edges]
  edgesNodup := by
    intro hash
    rw [List.nodup_iff_count_le_one]
    intro later
    rw [coherent.edges]
    exact List.nodup_iff_count_le_one.mp (dependenciesNodup later) hash
  frontier := coherent.frontier
  frontierNodup := coherent.frontierNodup

end WellFormed

theorem dependenciesOf_initial (hash : Hash) : initial.dependenciesOf hash = [] := by
  by_cases isRoot : rootHash = hash <;>
    simp [dependenciesOf, getVertex, initial, rootVertex, isRoot]

theorem not_dependency_initial (earlier later : Hash) : ¬initial.Dependency earlier later := by
  simp [Dependency, dependenciesOf_initial]

theorem hashes_initial : initial.hashes = [rootHash] := rfl

theorem initial_coherent : initial.Coherent where
  nodup := by simp [hashes_initial]
  root := by simp [getVertex, initial, rootVertex]
  nonempty := by
    intro hash mem notRoot
    rw [hashes_initial, List.mem_singleton] at mem
    exact absurd mem notRoot
  present := fun dependency => absurd dependency (not_dependency_initial _ _)
  ranked := fun dependency => absurd dependency (not_dependency_initial _ _)
  edges := by
    intro earlier later
    rw [dependenciesOf_initial]
    rfl
  frontier := by
    intro hash
    rw [hashes_initial]
    simp [not_dependency_initial, show initial.frontier = [rootHash] from rfl]
  frontierNodup := by simp [initial]

theorem initial_wellFormed : initial.WellFormed :=
  .of_coherent initial_coherent (by simp [dependenciesOf_initial]) (by simp [dependenciesOf_initial])

/-- A new vertex with a non-empty list of present dependencies, as the validation asks for. -/
structure Attachable (graph : HashGraph) (vertex : Vertex) : Prop where
  fresh : vertex.hash ∉ graph.hashes
  nonempty : vertex.dependencies ≠ []
  present : ∀ dependency ∈ vertex.dependencies, dependency ∈ graph.hashes

theorem Admissible.attachable {graph : HashGraph} {vertex : Vertex}
    (admissible : graph.Admissible vertex) : graph.Attachable vertex :=
  ⟨admissible.fresh, admissible.nonempty, admissible.present⟩

theorem Coherent.addVertex {graph : HashGraph} (coherent : graph.Coherent)
    {vertex : Vertex} (attachable : graph.Attachable vertex) :
    (graph.addVertex vertex).Coherent := by
  have fresh := attachable.fresh
  have notRoot : rootHash ≠ vertex.hash := by
    intro same
    exact fresh (same ▸ coherent.rootHash_mem)
  have newHashes := hashes_addVertex fresh
  refine ⟨?_, ?_, ?_, ?_, ?_, ?_, ?_, ?_⟩
  · rw [newHashes]
    exact List.nodup_append.mpr ⟨coherent.nodup, by simp, by
      rintro first mem second secondMem rfl
      rw [List.mem_singleton] at secondMem
      exact fresh (secondMem ▸ mem)⟩
  · rw [getVertex_addVertex_of_ne fresh notRoot]
    exact coherent.root
  · intro hash mem hashNotRoot
    by_cases same : hash = vertex.hash
    · rw [same, dependenciesOf_addVertex_self fresh]
      exact attachable.nonempty
    · rw [dependenciesOf_addVertex_of_ne fresh same]
      rw [newHashes] at mem
      exact coherent.nonempty hash (by simpa [same] using mem) hashNotRoot
  · intro earlier later dependency
    rw [newHashes]
    rcases (dependency_addVertex_iff fresh).mp dependency with ⟨_, mem⟩ | old
    · exact List.mem_append_left _ (attachable.present earlier mem)
    · exact List.mem_append_left _ (coherent.present old)
  · intro earlier later dependency
    unfold rank
    rw [newHashes]
    rcases (dependency_addVertex_iff fresh).mp dependency with ⟨rfl, mem⟩ | old
    · have earlierMem := attachable.present earlier mem
      rw [List.idxOf_append_of_mem earlierMem, List.idxOf_append_of_notMem fresh]
      exact Nat.lt_add_right _ (List.idxOf_lt_length_of_mem earlierMem)
    · rw [List.idxOf_append_of_mem (coherent.present old), List.idxOf_append_of_mem old.later_mem]
      exact coherent.ranked old
  · intro earlier later
    rw [forwardEdges_addVertex, List.count_append, coherent.edges, List.count_replicate]
    by_cases same : later = vertex.hash
    · rw [same, dependenciesOf_addVertex_self fresh]
      have unknown : graph.dependenciesOf vertex.hash = [] := by
        simp [dependenciesOf, getVertex_eq_none fresh]
      simp [unknown]
    · rw [dependenciesOf_addVertex_of_ne fresh same]
      simp [Ne.symm same]
  · intro hash
    have frontierEq : (graph.addVertex vertex).frontier =
        (graph.frontier ++ [vertex.hash]).filter fun hash => hash ∉ vertex.dependencies := rfl
    rw [frontierEq, newHashes]
    simp only [List.mem_filter, List.mem_append, List.mem_singleton, decide_eq_true_eq,
      coherent.frontier]
    constructor
    · rintro ⟨⟨present, last⟩ | rfl, notMem⟩
      · refine ⟨Or.inl present, ?_⟩
        intro later dependency
        rcases (dependency_addVertex_iff fresh).mp dependency with ⟨_, mem⟩ | old
        · exact notMem mem
        · exact last later old
      · refine ⟨Or.inr rfl, ?_⟩
        intro later dependency
        rcases (dependency_addVertex_iff fresh).mp dependency with ⟨_, mem⟩ | old
        · exact notMem mem
        · exact fresh (coherent.present old)
    · rintro ⟨present | rfl, last⟩
      · refine ⟨Or.inl ⟨present, fun later old => last later ?_⟩, fun mem => ?_⟩
        · exact (dependency_addVertex_iff fresh).mpr (Or.inr old)
        · exact last vertex.hash ((dependency_addVertex_iff fresh).mpr (Or.inl ⟨rfl, mem⟩))
      · refine ⟨Or.inr rfl, fun mem => ?_⟩
        exact fresh (attachable.present _ mem)
  · apply List.Nodup.filter
    refine List.nodup_append.mpr ⟨coherent.frontierNodup, by simp, ?_⟩
    rintro first mem second secondMem rfl
    rw [List.mem_singleton] at secondMem
    subst secondMem
    exact fresh ((coherent.frontier _).mp mem).1

theorem WellFormed.addVertex {graph : HashGraph} (wellFormed : graph.WellFormed)
    {vertex : Vertex} (admissible : graph.Admissible vertex) :
    (graph.addVertex vertex).WellFormed := by
  have fresh := admissible.fresh
  have coherent := wellFormed.coherent
  refine .of_coherent (coherent.addVertex admissible.attachable) ?_ ?_
  · intro hash
    by_cases same : hash = vertex.hash
    · rw [same, dependenciesOf_addVertex_self fresh]
      exact admissible.nodup
    · rw [dependenciesOf_addVertex_of_ne fresh same]
      exact wellFormed.dependenciesNodup hash
  · intro hash first firstMem second secondMem
    by_cases same : hash = vertex.hash
    · rw [same, dependenciesOf_addVertex_self fresh] at firstMem secondMem
      rw [precedes_addVertex_iff coherent fresh (admissible.present second secondMem)]
      exact admissible.antichain first firstMem second secondMem
    · rw [dependenciesOf_addVertex_of_ne fresh same] at firstMem secondMem
      rw [precedes_addVertex_iff coherent fresh (coherent.present secondMem)]
      exact wellFormed.antichain hash first firstMem second secondMem

theorem WellFormed.of_extends {before after : HashGraph} (wellFormed : before.WellFormed)
    (extends_ : Extends before after) : after.WellFormed := by
  induction extends_ with
  | refl => exact wellFormed
  | tail _ added ih =>
    obtain ⟨vertex, admissible, rfl⟩ := added
    exact ih.addVertex admissible

theorem Grown.wellFormed {graph : HashGraph} (grown : graph.Grown) : graph.WellFormed :=
  initial_wellFormed.of_extends grown

theorem getVertex_of_extends {before after : HashGraph} (extends_ : Extends before after) {hash : Hash}
    (present : hash ∈ before.hashes) :
    hash ∈ after.hashes ∧ after.getVertex hash = before.getVertex hash := by
  induction extends_ with
  | refl => exact ⟨present, rfl⟩
  | tail _ added ih =>
    obtain ⟨vertex, admissible, rfl⟩ := added
    have different : hash ≠ vertex.hash := by
      rintro rfl
      exact admissible.fresh ih.1
    rw [hashes_addVertex admissible.fresh, getVertex_addVertex_of_ne admissible.fresh different]
    exact ⟨List.mem_append_left _ ih.1, ih.2⟩

theorem WellFormed.precedes_of_extends {before after : HashGraph} (wellFormed : before.WellFormed)
    (extends_ : Extends before after) {earlier later : Hash} (present : later ∈ before.hashes) :
    after.Precedes earlier later ↔ before.Precedes earlier later := by
  induction extends_ with
  | refl => rfl
  | tail rest added ih =>
    obtain ⟨vertex, admissible, rfl⟩ := added
    have presentMiddle := (getVertex_of_extends rest present).1
    rw [precedes_addVertex_iff (wellFormed.of_extends rest).coherent admissible.fresh presentMiddle]
    exact ih

def Within (graph whole : HashGraph) : Prop := ∀ vertex ∈ graph.vertices, vertex ∈ whole.vertices

namespace Within

variable {graph whole : HashGraph}

theorem of_extends (extends_ : Extends graph whole) : graph.Within whole := by
  intro vertex mem
  induction extends_ with
  | refl => exact mem
  | tail _ added ih =>
    rcases added with ⟨other, admissible, rfl⟩
    rw [vertices_addVertex admissible.fresh]
    exact List.mem_append_left _ ih

theorem mem_hashes (within : graph.Within whole) {hash : Hash} (mem : hash ∈ graph.hashes) :
    hash ∈ whole.hashes := by
  rcases List.mem_map.mp mem with ⟨vertex, vertexMem, rfl⟩
  exact hash_mem_of_mem (within vertex vertexMem)

theorem getVertex_eq (within : graph.Within whole) (wellFormed : whole.WellFormed) {hash : Hash}
    (mem : hash ∈ graph.hashes) : whole.getVertex hash = graph.getVertex hash := by
  rcases exists_getVertex mem with ⟨vertex, found⟩
  have present := getVertex_of_mem wellFormed.nodup (within vertex (mem_of_getVertex found))
  rw [found, ← present, getVertex_hash found]

section

variable {earlier later : Hash} (within : graph.Within whole)
include within

theorem dependency_iff (wellFormed : whole.WellFormed) (mem : later ∈ graph.hashes) :
    graph.Dependency earlier later ↔ whole.Dependency earlier later := by
  rw [Dependency, Dependency, dependenciesOf, dependenciesOf, within.getVertex_eq wellFormed mem]

theorem precedesEq_iff (wellFormed : graph.WellFormed) (wholeWellFormed : whole.WellFormed)
    (mem : later ∈ graph.hashes) :
    graph.PrecedesEq earlier later ↔ whole.PrecedesEq earlier later := by
  constructor
  · intro precedes
    exact Relation.ReflTransGen.mono (fun _ _ dependency =>
      (within.dependency_iff wholeWellFormed dependency.later_mem).mp dependency) _ _ precedes
  · intro precedes
    induction precedes using Relation.ReflTransGen.head_induction_on with
    | refl => exact .refl
    | head dependency _ ih =>
      have middleMem := wellFormed.precedesEq_mem_left ih mem
      exact .head ((within.dependency_iff wholeWellFormed middleMem).mpr dependency) ih

theorem precedes_iff (wellFormed : graph.WellFormed) (wholeWellFormed : whole.WellFormed)
    (mem : later ∈ graph.hashes) : graph.Precedes earlier later ↔ whole.Precedes earlier later := by
  rw [Precedes, Precedes, Relation.TransGen.tail'_iff, Relation.TransGen.tail'_iff]
  apply exists_congr
  intro middle
  rw [within.dependency_iff wholeWellFormed mem]
  apply and_congr_left
  intro dependency
  have middleMem := wellFormed.present ((within.dependency_iff wholeWellFormed mem).mpr dependency)
  exact within.precedesEq_iff wellFormed wholeWellFormed middleMem

theorem precedes_of_within (wholeWellFormed : whole.WellFormed)
    (precedes : graph.Precedes earlier later) : whole.Precedes earlier later :=
  Relation.TransGen.mono (fun _ _ dependency =>
    (within.dependency_iff wholeWellFormed dependency.later_mem).mp dependency) _ _ precedes

end

end Within

end HashGraph

end TsDrp
