import TsDrp.HashGraph.Admission

/-!
# The canonical order

The stack of `dfsTopologicalSortIterative` is both the list of what is left to do and the way
back.  On a graph whose dependency lists are antichains no vertex is pending twice, and the
loop returns the reverse postorder of the recursive search.  The children are sorted, so the
order does not depend on the order in which the vertices came.
-/

namespace TsDrp.HashGraph

variable {graph : HashGraph} {origin : Hash} {subgraph : List Hash}

theorem WellFormed.dependenciesOf_congr {other : HashGraph} (otherWellFormed : other.WellFormed)
    (same : other.vertices.Perm graph.vertices) (hash : Hash) :
    graph.dependenciesOf hash = other.dependenciesOf hash := by
  have sameHashes : other.hashes.Perm graph.hashes := same.map _
  by_cases present : hash ∈ graph.hashes
  · rcases exists_getVertex present with ⟨vertex, found⟩
    have otherFound := getVertex_of_mem otherWellFormed.nodup
      (same.mem_iff.mpr (mem_of_getVertex found))
    rw [getVertex_hash found] at otherFound
    rw [dependenciesOf_eq found, dependenciesOf_eq otherFound]
  · have otherAbsent : hash ∉ other.hashes := fun mem => present (sameHashes.mem_iff.mp mem)
    simp [dependenciesOf, getVertex_eq_none present, getVertex_eq_none otherAbsent]

/--
The sort of a subgraph all of which is reached from the origin inside it returns the reverse
postorder of the recursive search.  The order lists every member once, first the origin, and
every member after its dependencies that are members.  Any graph with the same vertices,
added in whatever order, and any enumeration of the same subgraph give the same order.
-/
theorem sort_is_reverse_postorder (wellFormed : graph.WellFormed) (nodup : subgraph.Nodup)
    (originMem : origin ∈ subgraph)
    (reachable : ∀ hash ∈ subgraph, graph.ReachesWithin subgraph origin hash) :
    graph.dfsTopologicalSortIterative origin subgraph =
        .ok (graph.reversePostorder origin subgraph) ∧
      (graph.reversePostorder origin subgraph).Perm subgraph ∧
      (graph.reversePostorder origin subgraph).head? = some origin ∧
      (∀ earlier ∈ subgraph, ∀ later ∈ subgraph, graph.Dependency earlier later →
        (graph.reversePostorder origin subgraph).idxOf earlier <
          (graph.reversePostorder origin subgraph).idxOf later) ∧
      ∀ other : HashGraph, other.WellFormed → other.vertices.Perm graph.vertices →
        ∀ members : List Hash, members.Perm subgraph →
          other.dfsTopologicalSortIterative origin members =
            .ok (graph.reversePostorder origin subgraph) := by
  rcases wellFormed.sound_postorder originMem reachable le_rfl with ⟨sound, mem, rest, shape⟩
  refine ⟨wellFormed.sort_eq_visit nodup originMem reachable le_rfl,
    (List.perm_ext_iff_of_nodup sound.nodup nodup).mpr mem, ?_, ?_, ?_⟩
  · rw [reversePostorder, shape, List.head?_cons]
  · intro earlier earlierMem later laterMem dependency
    exact idxOf_lt_of_pairwise sound.ordered (wellFormed.antichained subgraph).acyclic
      ((mem earlier).mpr earlierMem) ((mem later).mpr laterMem)
      (.single ((mem_successors wellFormed).mpr ⟨dependency, laterMem⟩))
  · intro other otherWellFormed same members sameMembers
    have sameDependencies := otherWellFormed.dependenciesOf_congr same
    have sameSuccessors := successors_congr wellFormed otherWellFormed
      (fun hash => sameMembers.mem_iff.symm) fun hash _ => sameDependencies hash
    have sameEdge : ∀ earlier later, graph.Dependency earlier later ∧ later ∈ subgraph →
        other.Dependency earlier later ∧ later ∈ members := by
      intro earlier later edge
      refine ⟨?_, sameMembers.mem_iff.mpr edge.2⟩
      rw [Dependency, ← sameDependencies]
      exact edge.1
    rw [otherWellFormed.sort_eq_visit (sameMembers.nodup_iff.mpr nodup)
      (sameMembers.mem_iff.mpr originMem) (fun hash mem => Relation.ReflTransGen.mono sameEdge
        _ _ (reachable hash (sameMembers.mem_iff.mp mem))) le_rfl]
    rw [reversePostorder, ← sameSuccessors, sameMembers.length_eq]

open RedundantExample in
theorem sort_is_reverse_postorder_diamond :
    (initial.addVertices [vertex "a" [rootHash], vertex "b" [rootHash],
      vertex "c" ["b", "a"]]).dfsTopologicalSortIterative rootHash [rootHash, "a", "b", "c"] =
        .ok [rootHash, "a", "b", "c"] := by
  have grown : (initial.addVertices [vertex "a" [rootHash], vertex "b" [rootHash],
      vertex "c" ["b", "a"]]).Grown := initial_wellFormed.extends_addVertices (by decide +kernel)
  have past := grown.wellFormed.past_hashes
  exact (sort_is_reverse_postorder grown.wellFormed past.nodup past.root fun hash mem =>
    past.reachesWithin grown.wellFormed mem).1.trans (by decide +kernel)

end TsDrp.HashGraph
