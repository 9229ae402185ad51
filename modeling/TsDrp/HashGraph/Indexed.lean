import TsDrp.Applier.Validation
import TsDrp.Finality.BitSet
import TsDrp.HashGraph.TopologicalSort
import Mathlib.Algebra.Order.Monoid.WithTop
import Mathlib.Algebra.Ring.Nat
import Mathlib.Data.Nat.Basic

/-!
# The indexes of a hash graph

Beside the vertices, the frontier and the forward edges a graph keeps the
distance of every vertex from the root and, once a sort has been asked for them,
the bit sets of the predecessors.  A sort leaves the forward edges of what it
has visited sorted, since it sorts the arrays in place.

All that is kept for the vertices is updated with every vertex, and stays exact
whatever vertices come and whatever is sorted in between.
-/

namespace TsDrp

/-- `Number.MAX_VALUE`, which no number of vertices comes near, is `⊤`. -/
structure VertexDistance where
  distance : WithTop ℕ
  closestDependency : Option Hash

/-- A hash graph with its private fields. -/
structure IndexedGraph extends HashGraph where
  vertexDistances : Hash → Option VertexDistance
  arePredecessorsFresh : Bool
  arePredecessorsScoped : Bool
  reachablePredecessors : Hash → Option BitSet
  topoSortedIndex : Hash → Option ℕ
  currentBitsetSize : ℕ

namespace HashGraph

/-- The vertices that the loop of the sort has visited when it ends, also with an exception. -/
def dfsVisited (graph : HashGraph) (subgraph : List Hash) : ℕ → ℕ → DfsState → List Hash
  | _, 0, state => state.visited
  | 0, _ + 1, state => state.visited
  | fuel + 1, free + 1, state =>
    match state.stack with
    | [] => state.visited
    | node :: rest =>
      if node ∈ state.visited then
        dfsVisited graph subgraph fuel free
          { state with
            stack := rest
            processing := state.processing.filter (· ≠ node)
            result := node :: state.result }
      else if (graph.sortedEdges node).any (· ∈ node :: state.processing) then
        node :: state.visited
      else
        let pushed := (graph.sortedEdges node).filter fun neighbor =>
          neighbor ∈ subgraph ∧ neighbor ∉ node :: state.visited
        dfsVisited graph subgraph fuel (free + 1)
          { state with
            stack := pushed.reverse ++ node :: rest
            visited := node :: state.visited
            processing := node :: state.processing }

/-- The forward edges when `dfsTopologicalSortIterative` has sorted those it went along. -/
def edgesAfterSort (graph : HashGraph) (origin : Hash) (subgraph : List Hash) (node : Hash) :
    List Hash :=
  if origin ∈ subgraph ∧ (∀ hash ∈ subgraph, hash ∈ graph.reachableFrom origin subgraph) ∧
      node ∈ graph.dfsVisited subgraph (2 * subgraph.length) subgraph.length
        { stack := [origin], visited := [], processing := [], result := [] } then
    graph.sortedEdges node
  else graph.forwardEdges node

/--
The loop of `_areCausallyRelatedUsingBFS`.  The queue is what lies behind its
head; a splice only drops what lies before it.
-/
def bfsLoop (graph : HashGraph) (target : Hash) : ℕ → List Hash → List Hash → Except JsError Bool
  | _, [], _ => .ok false
  | 0, _ :: _, _ => .error .diverges
  | fuel + 1, current :: queue, visited =>
    if current = target then .ok true
    else
      bfsLoop graph target fuel
        (queue ++ (graph.dependenciesOf current).filter (· ∉ current :: visited))
        (current :: visited)

def areCausallyRelatedUsingBFS (graph : HashGraph) (fuel : ℕ) (hash1 hash2 : Hash) :
    Except JsError Bool :=
  if hash1 = hash2 then .ok true
  else do
    if ← graph.bfsLoop hash2 fuel [hash1] [] then return true
    else graph.bfsLoop hash1 fuel [hash2] []

end HashGraph

namespace IndexedGraph

def new : IndexedGraph where
  toHashGraph := HashGraph.initial
  vertexDistances := Function.update (fun _ => none) HashGraph.rootHash (some ⟨0, none⟩)
  arePredecessorsFresh := false
  arePredecessorsScoped := false
  reachablePredecessors := fun _ => none
  topoSortedIndex := fun _ => none
  currentBitsetSize := 1

def closer (vertexDistances : Hash → Option VertexDistance) (vertexDistance : VertexDistance)
    (dep : Hash) : VertexDistance :=
  match vertexDistances dep with
  | some depDistance =>
    if depDistance.distance + 1 < vertexDistance.distance then ⟨depDistance.distance + 1, some dep⟩
    else vertexDistance
  | none => vertexDistance

def addVertex (graph : IndexedGraph) (vertex : Vertex) : IndexedGraph :=
  { graph with
    toHashGraph := graph.toHashGraph.addVertex vertex
    vertexDistances := Function.update graph.vertexDistances vertex.hash
      (some (vertex.dependencies.foldl (closer graph.vertexDistances) ⟨⊤, some ""⟩))
    arePredecessorsFresh := false
    arePredecessorsScoped := false }

/-- Double the size until it is enough, at most as often as the first number says. -/
def doubled : ℕ → ℕ → ℕ → ℕ
  | 0, size, _ => size
  | fuel + 1, size, length => if size < length then doubled fuel (2 * size) length else size

/-- What the loop over the dependencies of a vertex does with one of them. -/
def markDependency (hash : Hash) (graph : IndexedGraph) (dep : Hash) : IndexedGraph :=
  match graph.reachablePredecessors dep, graph.topoSortedIndex dep with
  | some depReachable, some depIndex =>
    let depReachable := depReachable.set depIndex true
    let marked := Function.update graph.reachablePredecessors dep (some depReachable)
    { graph with
      reachablePredecessors := match marked hash with
        | some reachable => Function.update marked hash (some (reachable.or depReachable))
        | none => marked }
  | _, _ => graph

def markVertex (graph : IndexedGraph) (entry : Hash × ℕ) : IndexedGraph :=
  (graph.dependenciesOf entry.1).foldl (markDependency entry.1)
    { graph with
      topoSortedIndex := Function.update graph.topoSortedIndex entry.1 (some entry.2)
      reachablePredecessors := Function.update graph.reachablePredecessors entry.1
        (some (BitSet.ofLength graph.currentBitsetSize)) }

/-- What `topologicalSort` does with an order when the bit sets are to be updated. -/
def updateBitsets (graph : IndexedGraph) (result : List Hash) : IndexedGraph :=
  let isFullGraph := result.length = graph.vertices.length ∧ ∀ hash ∈ result, graph.has hash
  let marked := result.zipIdx.foldl markVertex
    { graph with
      reachablePredecessors := fun _ => none
      topoSortedIndex := fun _ => none
      currentBitsetSize := doubled result.length graph.currentBitsetSize result.length }
  { marked with arePredecessorsFresh := isFullGraph, arePredecessorsScoped := ¬isFullGraph }

def topologicalSort (graph : IndexedGraph) (update : Bool) (origin : Hash) (subgraph : List Hash) :
    Except JsError (List Hash) × IndexedGraph :=
  let sorted := { graph with forwardEdges := graph.edgesAfterSort origin subgraph }
  match graph.dfsTopologicalSortIterative origin subgraph with
  | .ok result => (.ok result, if update then sorted.updateBitsets result else sorted)
  | .error error => (.error error, sorted)

def cacheContains (graph : IndexedGraph) (hash1 hash2 : Hash) : Bool :=
  (graph.reachablePredecessors hash1).isSome && (graph.reachablePredecessors hash2).isSome &&
    (graph.topoSortedIndex hash1).isSome && (graph.topoSortedIndex hash2).isSome

def readBitsets (graph : IndexedGraph) (fuel : ℕ) (hash1 hash2 : Hash) : Except JsError Bool :=
  match graph.reachablePredecessors hash1, graph.reachablePredecessors hash2,
    graph.topoSortedIndex hash1, graph.topoSortedIndex hash2 with
  | some reachable1, some reachable2, some index1, some index2 =>
    .ok (reachable1.get index2 || reachable2.get index1)
  | _, _, _, _ => graph.areCausallyRelatedUsingBFS fuel hash1 hash2

def areCausallyRelatedUsingBitsets (graph : IndexedGraph) (fuel : ℕ) (hash1 hash2 : Hash) :
    Except JsError Bool × IndexedGraph :=
  if hash1 = hash2 then (.ok true, graph)
  else if graph.arePredecessorsFresh ||
      (graph.arePredecessorsScoped && graph.cacheContains hash1 hash2) then
    (graph.readBitsets fuel hash1 hash2, graph)
  else
    match graph.topologicalSort true HashGraph.rootHash graph.hashes with
    | (.ok _, graph) => (graph.readBitsets fuel hash1 hash2, graph)
    | (.error error, graph) => (.error error, graph)

inductive Call where
  | addVertex (vertex : Vertex)
  | topologicalSort (update : Bool) (origin : Hash) (subgraph : List Hash)
  | areCausallyRelatedUsingBitsets (hash1 hash2 : Hash)

def step (fuel : ℕ) (graph : IndexedGraph) : Call → IndexedGraph
  | .addVertex vertex => graph.addVertex vertex
  | .topologicalSort update origin subgraph => (graph.topologicalSort update origin subgraph).2
  | .areCausallyRelatedUsingBitsets hash1 hash2 =>
    (graph.areCausallyRelatedUsingBitsets fuel hash1 hash2).2

def Obeys (allowed : IndexedGraph → Call → Prop) (fuel : ℕ) : IndexedGraph → List Call → Prop
  | _, [] => True
  | graph, call :: rest => allowed graph call ∧ Obeys allowed fuel (graph.step fuel call) rest

theorem Obeys.invariant {allowed : IndexedGraph → Call → Prop} {fuel : ℕ}
    {holds : IndexedGraph → Prop}
    (kept : ∀ graph call, holds graph → allowed graph call → holds (graph.step fuel call))
    {graph : IndexedGraph} {calls : List Call} (obeys : Obeys allowed fuel graph calls)
    (initially : holds graph) : holds (calls.foldl (step fuel) graph) := by
  induction calls generalizing graph with
  | nil => exact initially
  | cons call rest ih => exact ih obeys.2 (kept graph call initially obeys.1)

end IndexedGraph

end TsDrp
