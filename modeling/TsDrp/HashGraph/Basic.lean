import TsDrp.JsValue
import Mathlib.Data.List.Basic
import Mathlib.Logic.Function.Basic
import Mathlib.Data.String.Basic

/-!
# Vertices and the hash graph

The graph of operations of one object.  A vertex names the vertices it depends
on by hash; the graph also keeps the forward edges and the frontier of vertices
nobody depends on.  Adding a vertex never checks anything: what a vertex has to
satisfy is checked by the pipelines before it is added.

Hashes are hexadecimal digests, which JavaScript's `sort` orders as Lean orders
strings.  The distances that `getLCA` uses are not kept: the applier replays
from checkpoints and no longer asks for them.
-/

namespace TsDrp

abbrev Hash := String

structure Operation where
  drpType : String
  opType : String
  value : JsValue
deriving DecidableEq

/-- A vertex without its signature, which only the network layer reads. -/
structure Vertex where
  hash : Hash
  peerId : String
  operation : Option Operation
  dependencies : List Hash
  timestamp : ℤ
deriving DecidableEq

namespace Vertex

/-- The optional chain `vertex.operation?.drpType`. -/
def drpType (vertex : Vertex) : Option String := vertex.operation.map (·.drpType)

end Vertex

inductive ActionType where
  | nop
  | dropLeft
  | dropRight
  | swap
  | drop
deriving DecidableEq

inductive SemanticsType where
  | pair
  | multiple
deriving DecidableEq

/-- The hashes are only read for the action `drop` of multiple semantics. -/
structure ResolveConflictsType where
  action : ActionType
  vertices : List Hash := []

abbrev ResolveConflictFn := List Vertex → Except JsError ResolveConflictsType

/-- A resolver that reads the first two vertices and answers `Nop` if one has no operation. -/
def resolveFirstTwo (resolve : Operation → Operation → Except JsError ActionType) :
    ResolveConflictFn
  | [] => .error (.typeError "Cannot read properties of undefined (reading 'operation')")
  | [left] =>
    match left.operation with
    | none => .ok { action := .nop }
    | some _ => .error (.typeError "Cannot read properties of undefined (reading 'operation')")
  | left :: right :: _ =>
    match left.operation, right.operation with
    | some left, some right => (resolve left right).map fun action => { action }
    | _, _ => .ok { action := .nop }

structure GraphOptions where
  semanticsTypeDRP : Option SemanticsType
  resolveConflictsACL : Option ResolveConflictFn
  resolveConflictsDRP : Option ResolveConflictFn

namespace GraphOptions

def resolveNoConflicts : ResolveConflictFn := fun _ => .ok { action := .nop }

def hasCustomConflictResolver (options : GraphOptions) (drpType : Option String) : Bool :=
  if drpType = some "ACL" then options.resolveConflictsACL.isSome
  else options.resolveConflictsDRP.isSome

/-- The resolver is chosen by the type of the first vertex alone. -/
def resolveConflicts (options : GraphOptions) : ResolveConflictFn
  | [] => .error (.typeError "Cannot read properties of undefined (reading 'operation')")
  | first :: rest =>
    if first.drpType = some "ACL" then
      options.resolveConflictsACL.getD resolveNoConflicts (first :: rest)
    else
      options.resolveConflictsDRP.getD resolveNoConflicts (first :: rest)

theorem resolveConflicts_of_plain {options : GraphOptions} {first : Vertex}
    (plain : options.hasCustomConflictResolver first.drpType = false) (rest : List Vertex) :
    options.resolveConflicts (first :: rest) = .ok { action := .nop } := by
  unfold hasCustomConflictResolver at plain
  rw [resolveConflicts]
  split <;> simp_all [resolveNoConflicts]

end GraphOptions

/--
The vertices in the order of their insertion, the frontier, and the forward
edges; a hash without forward edges has the empty list.
-/
structure HashGraph where
  vertices : List Vertex
  frontier : List Hash
  forwardEdges : Hash → List Hash

namespace HashGraph

def rootHash : Hash := "425d2b1f5243dbf23c685078034b06fbfa71dc31dcce30f614e28023f140ff13"

def rootVertex : Vertex where
  hash := rootHash
  peerId := ""
  operation := some { drpType := "", opType := "-1", value := .undefined }
  dependencies := []
  timestamp := -1

def initial : HashGraph where
  vertices := [rootVertex]
  frontier := [rootHash]
  forwardEdges := fun _ => []

def hashes (graph : HashGraph) : List Hash := graph.vertices.map (·.hash)

def has (graph : HashGraph) (hash : Hash) : Bool := hash ∈ graph.hashes

def getVertex (graph : HashGraph) (hash : Hash) : Option Vertex :=
  graph.vertices.find? fun vertex => vertex.hash = hash

/-- `vertices.get(hash)?.dependencies ?? []` -/
def dependenciesOf (graph : HashGraph) (hash : Hash) : List Hash :=
  ((graph.getVertex hash).map (·.dependencies)).getD []

/-- `vertices.set(vertex.hash, vertex)`: a present key keeps its place. -/
def setVertex (vertices : List Vertex) (vertex : Vertex) : List Vertex :=
  if vertices.any (·.hash = vertex.hash) then
    vertices.map fun old => if old.hash = vertex.hash then vertex else old
  else vertices ++ [vertex]

def addForwardEdge (hash : Hash) (edges : Hash → List Hash) (dependency : Hash) :
    Hash → List Hash :=
  Function.update edges dependency (edges dependency ++ [hash])

def addVertex (graph : HashGraph) (vertex : Vertex) : HashGraph where
  vertices := setVertex graph.vertices vertex
  frontier := (graph.frontier ++ [vertex.hash]).filter fun hash => hash ∉ vertex.dependencies
  forwardEdges := vertex.dependencies.foldl (addForwardEdge vertex.hash) graph.forwardEdges

def Dependency (graph : HashGraph) (earlier later : Hash) : Prop :=
  earlier ∈ graph.dependenciesOf later

abbrev Precedes (graph : HashGraph) : Hash → Hash → Prop :=
  Relation.TransGen graph.Dependency

abbrev PrecedesEq (graph : HashGraph) : Hash → Hash → Prop :=
  Relation.ReflTransGen graph.Dependency

def Concurrent (graph : HashGraph) (left right : Hash) : Prop :=
  left ≠ right ∧ ¬graph.Precedes left right ∧ ¬graph.Precedes right left

/--
A new vertex with a non-empty, duplicate-free list of present dependencies none
of which is a causal ancestor of another, as `createVertex` makes them with the
default frontier.
-/
structure Admissible (graph : HashGraph) (vertex : Vertex) : Prop where
  fresh : vertex.hash ∉ graph.hashes
  nonempty : vertex.dependencies ≠ []
  nodup : vertex.dependencies.Nodup
  present : ∀ dependency ∈ vertex.dependencies, dependency ∈ graph.hashes
  antichain : ∀ first ∈ vertex.dependencies, ∀ second ∈ vertex.dependencies,
    ¬graph.Precedes first second

/-- The second graph is a later moment in the growth of the first. -/
abbrev Extends : HashGraph → HashGraph → Prop :=
  Relation.ReflTransGen fun before after =>
    ∃ vertex, before.Admissible vertex ∧ after = before.addVertex vertex

def Grown (graph : HashGraph) : Prop := Extends initial graph

end HashGraph

end TsDrp
