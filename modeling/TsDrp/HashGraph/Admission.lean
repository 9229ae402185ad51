import TsDrp.Applier.Validation
import TsDrp.HashGraph.Order

/-!
# Checking that a graph has grown from the root

Admissibility is decided by walking the causal past, so that the growth of a
concrete graph can be evaluated.  The validation of a vertex asks for less: it
lets repeated dependencies and dependencies that precede each other pass, and
the sort of a graph with such a vertex can list the vertex twice in the place of
another one.
-/

namespace TsDrp

namespace HashGraph

def admits (graph : HashGraph) (vertex : Vertex) : Bool :=
  decide (vertex.hash ∉ graph.hashes) && decide (vertex.dependencies ≠ []) &&
    decide vertex.dependencies.Nodup &&
    (vertex.dependencies.all fun dependency => decide (dependency ∈ graph.hashes)) &&
    vertex.dependencies.all fun second =>
      vertex.dependencies.all fun first =>
        decide (first ∉ graph.causalPast (graph.dependenciesOf second))

def addVertices (graph : HashGraph) (vertices : List Vertex) : HashGraph :=
  vertices.foldl addVertex graph

/-- Whether every vertex is admissible in its turn. -/
def admitsAll : HashGraph → List Vertex → Bool
  | _, [] => true
  | graph, vertex :: rest => graph.admits vertex && admitsAll (graph.addVertex vertex) rest

section

variable {graph : HashGraph} (wellFormed : graph.WellFormed)
include wellFormed

theorem WellFormed.mem_causalPast_dependencies {earlier later : Hash} :
    earlier ∈ graph.causalPast (graph.dependenciesOf later) ↔ graph.Precedes earlier later := by
  rw [wellFormed.mem_causalPast, Precedes, Relation.TransGen.tail'_iff]
  exact exists_congr fun middle => and_comm

theorem WellFormed.admissible_of_admits {vertex : Vertex} (admitted : graph.admits vertex = true) :
    graph.Admissible vertex := by
  simp only [admits, Bool.and_eq_true, decide_eq_true_eq, List.all_eq_true,
    wellFormed.mem_causalPast_dependencies] at admitted
  obtain ⟨⟨⟨⟨fresh, nonempty⟩, nodup⟩, present⟩, antichain⟩ := admitted
  exact ⟨fresh, nonempty, nodup, present,
    fun first firstMem second secondMem => antichain second secondMem first firstMem⟩

theorem WellFormed.extends_addVertices {vertices : List Vertex}
    (admitted : graph.admitsAll vertices = true) : Extends graph (graph.addVertices vertices) := by
  induction vertices generalizing graph with
  | nil => exact .refl
  | cons vertex rest ih =>
    rw [admitsAll, Bool.and_eq_true] at admitted
    have admissible := wellFormed.admissible_of_admits admitted.1
    exact .head ⟨vertex, admissible, rfl⟩ (ih (wellFormed.addVertex admissible) admitted.2)

theorem WellFormed.past_hashes : graph.Past graph.hashes :=
  ⟨wellFormed.nodup, wellFormed.rootHash_mem, fun _ mem => mem,
    fun dependency _ => wellFormed.present dependency⟩

end

/--
An accepted vertex with a duplicate-free list of dependencies none of which
precedes another: the sort of the whole graph from the root lists every vertex
once and after its dependencies.
-/
theorem accepted_vertex_keeps_order {graph : HashGraph} (grown : graph.Grown)
    {computeHash : ComputeHash} {now : ℤ} {skipHashValidation : Bool} {vertex : Vertex}
    (fresh : vertex.hash ∉ graph.hashes)
    (accepted : validateVertex computeHash vertex graph now skipHashValidation = .ok ())
    (nodup : vertex.dependencies.Nodup)
    (antichain : ∀ first ∈ vertex.dependencies, ∀ second ∈ vertex.dependencies,
      ¬graph.Precedes first second) :
    ∃ order, (graph.addVertex vertex).dfsTopologicalSortIterative rootHash
        (graph.addVertex vertex).hashes = .ok order ∧
      order.Perm (graph.hashes ++ [vertex.hash]) ∧
      ∀ earlier later, (graph.addVertex vertex).Dependency earlier later →
        order.idxOf earlier < order.idxOf later := by
  have admissible : graph.Admissible vertex :=
    ⟨fresh, (validateVertex_eq_ok.mp accepted).2.1, nodup, present_of_validateVertex accepted, antichain⟩
  have wellFormed := grown.wellFormed.addVertex admissible
  rcases wellFormed.past_hashes.exists_dfs wellFormed with ⟨order, sorted, causalOrder⟩
  refine ⟨order, sorted, ?_, fun earlier later dependency => ?_⟩
  · rw [← hashes_addVertex fresh]
    exact (List.perm_ext_iff_of_nodup causalOrder.nodup wellFormed.nodup).mpr causalOrder.mem
  · exact idxOf_lt_of_pairwise causalOrder.ordered wellFormed.acyclic
      ((causalOrder.mem earlier).mpr (wellFormed.present dependency))
      ((causalOrder.mem later).mpr dependency.later_mem) (.single dependency)

end HashGraph

namespace RedundantExample

open HashGraph

def vertex (hash : Hash) (dependencies : List Hash) : Vertex where
  hash := hash
  peerId := "p"
  operation := some { drpType := "DRP", opType := "set", value := .array [] }
  dependencies := dependencies
  timestamp := 0

def computeHash : ComputeHash := fun _ _ dependencies _ =>
  if dependencies = [rootHash] then "a"
  else if dependencies = ["a"] then "c"
  else "b"

def chain : HashGraph := initial.addVertices [vertex "a" [rootHash], vertex "c" ["a"]]

def fork : HashGraph := chain.addVertices [vertex "d" ["a"]]

end RedundantExample

open RedundantExample HashGraph in
theorem accepted_vertex_keeps_order_fork :
    ∃ order, (fork.addVertex (vertex "b" ["c", "d"])).dfsTopologicalSortIterative rootHash
        (fork.addVertex (vertex "b" ["c", "d"])).hashes = .ok order ∧
      order.Perm [rootHash, "a", "c", "d", "b"] ∧
      ∀ earlier later, (fork.addVertex (vertex "b" ["c", "d"])).Dependency earlier later →
        order.idxOf earlier < order.idxOf later := by
  have chained : chain.Grown := initial_wellFormed.extends_addVertices (by decide +kernel)
  have grown : fork.Grown :=
    chained.trans (chained.wellFormed.extends_addVertices (by decide +kernel))
  have accepted : validateVertex computeHash (vertex "b" ["c", "d"]) fork 0 false = .ok () := by
    decide +kernel
  have admits : fork.admits (vertex "b" ["c", "d"]) = true := by decide +kernel
  exact accepted_vertex_keeps_order grown (by decide +kernel) accepted (by decide)
    (grown.wellFormed.admissible_of_admits admits).antichain

open RedundantExample HashGraph in
/--
A vertex that names a dependency twice, and one that names a dependency and an
ancestor of it: the sort lists the new vertex twice and the vertex `a` not at
all, and in the second case the new vertex before its dependency.
-/
theorem redundant_dependencies_erase_vertex :
    chain.Grown ∧
    validateVertex computeHash (vertex "b" ["a", "a"]) chain 0 false = .ok () ∧
    (chain.addVertex (vertex "b" ["a", "a"])).dfsTopologicalSortIterative rootHash
      (chain.addVertex (vertex "b" ["a", "a"])).hashes = .ok [rootHash, "b", "b", "c"] ∧
    validateVertex computeHash (vertex "b" ["a", "c"]) chain 0 false = .ok () ∧
    (chain.addVertex (vertex "b" ["a", "c"])).dfsTopologicalSortIterative rootHash
      (chain.addVertex (vertex "b" ["a", "c"])).hashes = .ok [rootHash, "b", "c", "b"] := by
  refine ⟨initial_wellFormed.extends_addVertices (by decide +kernel), ?_, ?_, ?_, ?_⟩ <;>
    decide +kernel

end TsDrp
