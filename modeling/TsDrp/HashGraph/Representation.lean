import TsDrp.HashGraph.Admission
import TsDrp.HashGraph.Indexed
import Mathlib.Order.Bounds.Basic

/-!
# The representation of a hash graph

The frontier, the forward edges, the order of the vertices and the distances say
the same about the dependencies after every run of additions, sorts and queries.
A vertex may repeat dependencies and may name some that precede others.
-/

namespace TsDrp

namespace HashGraph

inductive PathToRoot (Dependency : Hash → Hash → Prop) : ℕ → Hash → Prop where
  | root : PathToRoot Dependency 0 rootHash
  | step {length : ℕ} {earlier later : Hash} (dependency : Dependency earlier later)
      (path : PathToRoot Dependency length earlier) : PathToRoot Dependency (length + 1) later

/--
The length of a shortest path to the root, and the first dependency in the list
that lies on one; the root has no dependency.
-/
def Nearest (graph : HashGraph) (hash : Hash) (record : VertexDistance) : Prop :=
  ∃ length : ℕ, record.distance = length ∧ IsLeast { n | PathToRoot graph.Dependency n hash } length ∧
    ((hash = rootHash ∧ record.closestDependency = none) ∨
      ∃ before closest after n, graph.dependenciesOf hash = before ++ closest :: after ∧
        record.closestDependency = some closest ∧ length = n + 1 ∧ PathToRoot graph.Dependency n closest ∧
        ∀ other ∈ before, ¬PathToRoot graph.Dependency n other)

variable {graph : HashGraph} {vertex : Vertex}

theorem pathToRoot_addVertex (coherent : graph.Coherent) (fresh : vertex.hash ∉ graph.hashes)
    {length : ℕ} {hash : Hash} (present : hash ∈ graph.hashes) :
    PathToRoot (graph.addVertex vertex).Dependency length hash ↔ PathToRoot graph.Dependency length hash := by
  constructor
  · intro path
    induction path with
    | root => exact .root
    | step dependency _ ih =>
      rcases (dependency_addVertex_iff fresh).mp dependency with ⟨rfl, _⟩ | old
      · exact absurd present fresh
      · exact .step old (ih (coherent.present old))
  · intro path
    induction path with
    | root => exact .root
    | step old _ ih =>
      exact .step ((dependency_addVertex_iff fresh).mpr (Or.inr old)) (ih (coherent.present old))

theorem pathToRoot_addVertex_self (coherent : graph.Coherent) (attachable : graph.Attachable vertex)
    {length : ℕ} : PathToRoot (graph.addVertex vertex).Dependency length vertex.hash ↔
      ∃ n, ∃ dependency ∈ vertex.dependencies, length = n + 1 ∧ PathToRoot graph.Dependency n dependency := by
  constructor
  · intro path
    generalize same : vertex.hash = hash at path
    cases path with
    | root => exact absurd (same ▸ coherent.rootHash_mem) attachable.fresh
    | step dependency path =>
      subst same
      rw [Dependency, dependenciesOf_addVertex_self attachable.fresh] at dependency
      exact ⟨_, _, dependency, rfl, (pathToRoot_addVertex coherent attachable.fresh
        (attachable.present _ dependency)).mp path⟩
  · rintro ⟨n, dependency, mem, rfl, path⟩
    refine .step ?_ ((pathToRoot_addVertex coherent attachable.fresh
      (attachable.present dependency mem)).mpr path)
    rw [Dependency, dependenciesOf_addVertex_self attachable.fresh]
    exact mem

end HashGraph

namespace IndexedGraph

open HashGraph

theorem foldl_closer {vertexDistances : Hash → Option VertexDistance} {distanceOf : Hash → ℕ}
    {dependencies : List Hash} (nonempty : dependencies ≠ [])
    (known : ∀ dependency ∈ dependencies, ∃ closest,
      vertexDistances dependency = some ⟨distanceOf dependency, closest⟩) :
    ∃ before closest after, dependencies = before ++ closest :: after ∧
      dependencies.foldl (closer vertexDistances) ⟨⊤, some ""⟩ =
        ⟨distanceOf closest + 1, some closest⟩ ∧
      (∀ other ∈ before, distanceOf closest < distanceOf other) ∧
      ∀ other ∈ dependencies, distanceOf closest ≤ distanceOf other := by
  induction dependencies using List.reverseRecOn with
  | nil => exact absurd rfl nonempty
  | append_singleton earlier last ih =>
    rcases known last (List.mem_append_right _ (List.mem_singleton_self _)) with ⟨_, lastKnown⟩
    rw [List.foldl_append, List.foldl_cons, List.foldl_nil]
    by_cases empty : earlier = []
    · subst empty
      refine ⟨[], last, [], rfl, ?_, by simp, by simp⟩
      rw [List.foldl_nil, closer, lastKnown]
      exact if_pos (WithTop.coe_lt_top (distanceOf last + 1))
    · rcases ih empty fun dependency mem => known dependency (List.mem_append_left _ mem) with
        ⟨before, closest, after, shape, folded, isFirst, isLeast⟩
      rw [folded, closer, lastKnown]
      dsimp only
      have compared : ((distanceOf last : WithTop ℕ) + 1 < (distanceOf closest : WithTop ℕ) + 1) ↔
          distanceOf last < distanceOf closest :=
        (@WithTop.coe_lt_coe ℕ (distanceOf closest + 1) (distanceOf last + 1) _).trans
          Nat.succ_lt_succ_iff
      by_cases less : distanceOf last < distanceOf closest
      · rw [if_pos (compared.mpr less)]
        refine ⟨earlier, last, [], rfl, rfl, fun other mem => ?_, fun other mem => ?_⟩
        · exact less.trans_le (isLeast other mem)
        · rcases List.mem_append.mp mem with old | new
          · exact (less.trans_le (isLeast other old)).le
          · rw [List.mem_singleton.mp new]
      · rw [if_neg (mt compared.mp less)]
        refine ⟨before, closest, after ++ [last], by simp [shape], rfl, isFirst, fun other mem => ?_⟩
        rcases List.mem_append.mp mem with old | new
        · exact isLeast other old
        · rw [List.mem_singleton.mp new]
          exact Nat.le_of_not_lt less

/-- What is kept beside the dependencies agrees with them. -/
structure Exact (graph : IndexedGraph) : Prop where
  coherent : graph.toHashGraph.Coherent
  distances : ∀ hash ∈ graph.hashes, ∃ record, graph.vertexDistances hash = some record ∧
    graph.Nearest hash record

theorem exact_new : new.Exact where
  coherent := initial_coherent
  distances := by
    intro hash mem
    rw [List.mem_singleton.mp mem]
    refine ⟨⟨0, none⟩, rfl, 0, rfl, ⟨.root, fun _ _ => Nat.zero_le _⟩, ?_⟩
    exact Or.inl ⟨rfl, rfl⟩

theorem Exact.nearest_addVertex {graph : IndexedGraph} (exact_ : graph.Exact) {vertex : Vertex}
    (fresh : vertex.hash ∉ graph.hashes) {hash : Hash} {record : VertexDistance}
    (present : hash ∈ graph.hashes) (nearest : graph.Nearest hash record) :
    (graph.toHashGraph.addVertex vertex).Nearest hash record := by
  have path := @pathToRoot_addVertex graph.toHashGraph vertex exact_.coherent fresh
  have different : hash ≠ vertex.hash := by
    rintro rfl
    exact fresh present
  rcases nearest with ⟨length, isLength, shortest, closest⟩
  refine ⟨length, isLength, ?_, closest.imp_right ?_⟩
  · simpa only [path present] using shortest
  · rintro ⟨before, closest, after, n, shape, isClosest, isNext, closestPath, isFirst⟩
    have inside : ∀ dependency ∈ before ++ closest :: after, dependency ∈ graph.hashes := by
      rw [← shape]
      exact fun dependency mem => exact_.coherent.present mem
    refine ⟨before, closest, after, n, ?_, isClosest, isNext, ?_, fun other mem => ?_⟩
    · rw [dependenciesOf_addVertex_of_ne fresh different, shape]
    · exact (path (inside closest (by simp))).mpr closestPath
    · rw [path (inside other (List.mem_append_left _ mem))]
      exact isFirst other mem

theorem Exact.addVertex {graph : IndexedGraph} (exact_ : graph.Exact) {vertex : Vertex}
    (attachable : graph.Attachable vertex) : (graph.addVertex vertex).Exact where
  coherent := exact_.coherent.addVertex attachable
  distances := by
    intro hash mem
    have fresh := attachable.fresh
    by_cases same : hash = vertex.hash
    · subst same
      have recorded : ∀ dependency ∈ vertex.dependencies, ∃ length closest,
          graph.vertexDistances dependency = some ⟨(length : ℕ), closest⟩ ∧
            IsLeast { n | PathToRoot graph.Dependency n dependency } length := by
        intro dependency depMem
        rcases exact_.distances dependency (attachable.present dependency depMem) with
          ⟨⟨_, closest⟩, found, length, rfl, shortest, _⟩
        exact ⟨length, closest, found, shortest⟩
      choose! distanceOf closestOf found shortest using recorded
      rcases foldl_closer attachable.nonempty fun dependency mem => ⟨_, found dependency mem⟩ with
        ⟨before, closest, after, shape, folded, isFirst, isLeast⟩
      have closestMem : closest ∈ vertex.dependencies := by simp [shape]
      have path := @pathToRoot_addVertex graph.toHashGraph vertex exact_.coherent fresh
      refine ⟨_, Function.update_self .., distanceOf closest + 1, by rw [folded]; rfl, ⟨?_, ?_⟩, ?_⟩
      · exact (pathToRoot_addVertex_self exact_.coherent attachable).mpr
          ⟨_, closest, closestMem, rfl, (shortest closest closestMem).1⟩
      · intro length isPath
        rcases (pathToRoot_addVertex_self exact_.coherent attachable).mp isPath with
          ⟨n, dependency, depMem, rfl, depPath⟩
        exact Nat.succ_le_succ ((isLeast dependency depMem).trans
          ((shortest dependency depMem).2 depPath))
      · refine Or.inr ⟨before, closest, after, distanceOf closest, ?_, by rw [folded], rfl, ?_, ?_⟩
        · exact (dependenciesOf_addVertex_self fresh).trans shape
        · exact (path (attachable.present closest closestMem)).mpr (shortest closest closestMem).1
        · intro other otherMem otherPath
          have inList : other ∈ vertex.dependencies := shape ▸ List.mem_append_left _ otherMem
          have bound := (shortest other inList).2
            ((path (attachable.present other inList)).mp otherPath)
          exact absurd (isFirst other otherMem) (Nat.not_lt.mpr bound)
    · have old : hash ∈ graph.hashes := by
        have added := hashes_addVertex fresh ▸ mem
        simpa [same] using added
      rcases exact_.distances hash old with ⟨record, found, nearest⟩
      exact ⟨record, (Function.update_of_ne same ..).trans found,
        exact_.nearest_addVertex fresh old nearest⟩

section Sorting

variable (graph : IndexedGraph)

structure Resorts (later : IndexedGraph) : Prop where
  vertices : later.vertices = graph.vertices
  frontier : later.frontier = graph.frontier
  forwardEdges : ∀ node, (later.forwardEdges node).Perm (graph.forwardEdges node)
  vertexDistances : later.vertexDistances = graph.vertexDistances

variable {graph}

theorem Resorts.of_marks {later marked : IndexedGraph} (resorts : graph.Resorts later)
    (sameGraph : marked.toHashGraph = later.toHashGraph)
    (sameDistances : marked.vertexDistances = later.vertexDistances) : graph.Resorts marked := by
  refine ⟨?_, ?_, ?_, sameDistances.trans resorts.vertexDistances⟩
  · rw [sameGraph]
    exact resorts.vertices
  · rw [sameGraph]
    exact resorts.frontier
  · rw [sameGraph]
    exact resorts.forwardEdges

theorem markVertex_eq (graph : IndexedGraph) (entry : Hash × ℕ) :
    (graph.markVertex entry).toHashGraph = graph.toHashGraph ∧
      (graph.markVertex entry).vertexDistances = graph.vertexDistances := by
  unfold markVertex
  refine List.foldlRecOn (motive := fun later : IndexedGraph =>
    later.toHashGraph = graph.toHashGraph ∧ later.vertexDistances = graph.vertexDistances) _ _
    ⟨rfl, rfl⟩ ?_
  intro later same dep _
  unfold markDependency
  split <;> exact same

theorem updateBitsets_eq (graph : IndexedGraph) (result : List Hash) :
    (graph.updateBitsets result).toHashGraph = graph.toHashGraph ∧
      (graph.updateBitsets result).vertexDistances = graph.vertexDistances := by
  refine List.foldlRecOn (motive := fun later : IndexedGraph =>
    later.toHashGraph = graph.toHashGraph ∧ later.vertexDistances = graph.vertexDistances) _ _
    ⟨rfl, rfl⟩ ?_
  intro later same entry _
  have marked := markVertex_eq later entry
  exact ⟨marked.1.trans same.1, marked.2.trans same.2⟩

theorem resorts_topologicalSort (graph : IndexedGraph) (update : Bool) (origin : Hash)
    (subgraph : List Hash) : graph.Resorts (graph.topologicalSort update origin subgraph).2 := by
  have sorted : graph.Resorts { graph with forwardEdges := graph.edgesAfterSort origin subgraph } := by
    refine ⟨rfl, rfl, fun node => ?_, rfl⟩
    dsimp only [edgesAfterSort]
    split
    · exact List.perm_insertionSort _ _
    · exact .refl _
  unfold topologicalSort
  split
  · dsimp only
    split
    · have same := updateBitsets_eq { graph with forwardEdges := graph.edgesAfterSort origin subgraph }
      exact sorted.of_marks (same _).1 (same _).2
    · exact sorted
  · exact sorted

theorem resorts_query (graph : IndexedGraph) (fuel : ℕ) (hash1 hash2 : Hash) :
    graph.Resorts (graph.areCausallyRelatedUsingBitsets fuel hash1 hash2).2 := by
  have unchanged : graph.Resorts graph := ⟨rfl, rfl, fun _ => .refl _, rfl⟩
  have sorted := graph.resorts_topologicalSort true rootHash graph.hashes
  unfold areCausallyRelatedUsingBitsets
  split
  · exact unchanged
  · split
    · exact unchanged
    · split
      · rename_i shape
        rw [shape] at sorted
        exact sorted
      · rename_i shape
        rw [shape] at sorted
        exact sorted

theorem Exact.of_resorts {later : IndexedGraph} (exact_ : graph.Exact)
    (resorts : graph.Resorts later) : later.Exact := by
  rcases later with ⟨⟨vertices, frontier, forwardEdges⟩, vertexDistances⟩
  rcases resorts with ⟨rfl, rfl, perm, rfl⟩
  rcases exact_ with ⟨⟨nodup, root, nonempty, present, ranked, edges, inFrontier, frontierNodup⟩, distances⟩
  refine ⟨⟨nodup, root, nonempty, present, ranked, ?_, inFrontier, frontierNodup⟩, ?_⟩
  · intro earlier later
    exact ((perm earlier).count_eq later).trans (edges earlier later)
  · exact distances

end Sorting

/-- A vertex is added only if it is new and its dependencies are present. -/
def Accepts (graph : IndexedGraph) : Call → Prop
  | .addVertex vertex => graph.Attachable vertex
  | _ => True

theorem Exact.step {graph : IndexedGraph} (exact_ : graph.Exact) (fuel : ℕ) {call : Call}
    (accepts : graph.Accepts call) : (graph.step fuel call).Exact := by
  cases call with
  | addVertex vertex => exact exact_.addVertex accepts
  | topologicalSort update origin subgraph =>
    exact exact_.of_resorts (graph.resorts_topologicalSort update origin subgraph)
  | areCausallyRelatedUsingBitsets hash1 hash2 =>
    exact exact_.of_resorts (graph.resorts_query fuel hash1 hash2)

end IndexedGraph

theorem HashGraph.Attachable.of_validateVertex {graph : HashGraph} {vertex : Vertex}
    (computeHash : ComputeHash) (now : ℤ) (skipHashValidation : Bool)
    (fresh : vertex.hash ∉ graph.hashes)
    (accepted : validateVertex computeHash vertex graph now skipHashValidation = .ok ()) :
    graph.Attachable vertex :=
  ⟨fresh, (validateVertex_eq_ok.mp accepted).2.1, present_of_validateVertex accepted⟩

/--
After any run of additions of accepted vertices, sorts and queries the frontier
lists once the vertices that no vertex depends on, the forward edges of a hash
list every vertex as often as the hash stands among its dependencies, every
vertex comes after its dependencies, and the distances are those of shortest
paths, with the first dependency on one.
-/
theorem IndexedGraph.representation_stays_exact (fuel : ℕ) (calls : List IndexedGraph.Call)
    (accepted : IndexedGraph.Obeys IndexedGraph.Accepts fuel .new calls) :
    let graph := calls.foldl (IndexedGraph.step fuel) .new
    (graph.frontier.Nodup ∧ ∀ hash, hash ∈ graph.frontier ↔
      hash ∈ graph.hashes ∧ ∀ vertex ∈ graph.vertices, hash ∉ vertex.dependencies) ∧
    (∀ dependency, (∀ vertex ∈ graph.vertices, (graph.forwardEdges dependency).count vertex.hash =
      vertex.dependencies.count dependency) ∧
      ∀ hash ∈ graph.forwardEdges dependency, hash ∈ graph.hashes) ∧
    (graph.hashes.Nodup ∧ ∀ before vertex after, graph.vertices = before ++ vertex :: after →
      ∀ dependency ∈ vertex.dependencies, dependency ∈ before.map (·.hash)) ∧
    ∀ hash ∈ graph.hashes, ∃ record, graph.vertexDistances hash = some record ∧
      graph.Nearest hash record := by
  intro graph
  have exact_ : graph.Exact := accepted.invariant
    (fun _ _ exact_ accepts => exact_.step fuel accepts) IndexedGraph.exact_new
  have coherent := exact_.coherent
  have found : ∀ vertex ∈ graph.vertices, graph.dependenciesOf vertex.hash = vertex.dependencies :=
    fun vertex mem => HashGraph.dependenciesOf_eq (HashGraph.getVertex_of_mem coherent.nodup mem)
  refine ⟨⟨coherent.frontierNodup, fun hash => ?_⟩, fun dependency => ⟨fun vertex mem => ?_,
    fun hash mem => ?_⟩, ⟨coherent.nodup, fun before vertex after shape dependency mem => ?_⟩,
    exact_.distances⟩
  · rw [coherent.frontier]
    refine and_congr_right fun _ => ⟨fun last vertex mem isDependency => ?_, fun last later dependency => ?_⟩
    · exact last vertex.hash (show hash ∈ graph.dependenciesOf vertex.hash by rwa [found vertex mem])
    · rcases HashGraph.exists_getVertex dependency.later_mem with ⟨vertex, isVertex⟩
      rw [HashGraph.Dependency, HashGraph.dependenciesOf_eq isVertex] at dependency
      exact last vertex (HashGraph.mem_of_getVertex isVertex) dependency
  · rw [coherent.edges, found vertex mem]
  · rw [← List.count_pos_iff, coherent.edges, List.count_pos_iff] at mem
    exact HashGraph.Dependency.later_mem mem
  · have hashes : graph.hashes = before.map (·.hash) ++ vertex.hash :: after.map (·.hash) := by
      rw [HashGraph.hashes, shape, List.map_append, List.map_cons]
    have isDependency : graph.Dependency dependency vertex.hash := by
      rwa [HashGraph.Dependency, found vertex (by simp [shape])]
    have nodup := coherent.nodup
    rw [hashes, List.nodup_append] at nodup
    have ranked := coherent.ranked isDependency
    rw [HashGraph.rank, HashGraph.rank, hashes] at ranked
    by_contra absent
    rw [List.idxOf_append_of_notMem absent, List.idxOf_append_of_notMem
      fun early => nodup.2.2 _ early _ List.mem_cons_self rfl, List.idxOf_cons_self] at ranked
    omega

namespace RedundantExample

def calls : List IndexedGraph.Call :=
  [.addVertex (vertex "a" [HashGraph.rootHash]),
    .topologicalSort true HashGraph.rootHash [HashGraph.rootHash, "a"],
    .addVertex (vertex "b" [HashGraph.rootHash, "a", HashGraph.rootHash]),
    .areCausallyRelatedUsingBitsets "a" "b"]

end RedundantExample

open RedundantExample IndexedGraph in
theorem IndexedGraph.representation_stays_exact_redundant :
    (calls.foldl (step 0) .new).frontier = ["b"] ∧
      ∀ hash ∈ (calls.foldl (step 0) .new).hashes, ∃ record,
        (calls.foldl (step 0) .new).vertexDistances hash = some record ∧
          (calls.foldl (step 0) .new).Nearest hash record := by
  have accepted : Obeys Accepts 0 .new calls := by
    refine ⟨.of_validateVertex computeHash 0 true ?_ ?_, trivial,
      .of_validateVertex computeHash 0 true ?_ ?_, trivial, trivial⟩ <;> decide +kernel
  exact ⟨by decide +kernel, (representation_stays_exact 0 calls accepted).2.2.2⟩

end TsDrp
