import TsDrp.Applier.CheckpointReplay

/-!
# The pipelines of one replica

A local call creates a vertex on the current frontier and runs it on a clone of
the live object; a remote vertex runs on the state its dependencies replay to.
Both work on detached copies until the operation has run and only then write
the live object, the snapshots and the graph.  What a pipeline computes and what
it commits are therefore separate functions here.

Of the finality store only its constructor matters here: it sorts the signers,
which raises an exception if one of them has no text.  A remote vertex has its
snapshot by then and is not yet in the graph; a vertex of a local call is in both.
The notifications do not feed back and are left out.
-/

namespace TsDrp

/-- What all replicas of an object share.  Its semantics is the DRP's or else the ACL's. -/
structure Environment (Drp Acl : Type) where
  options : GraphOptions
  semantics : options.semanticsTypeDRP ≠ none
  code : ObjectCode Drp Acl
  computeHash : ComputeHash
  /-- How many swaps an anchor of the pair scan is observed for. -/
  fuel : ℕ

inductive DrpType where
  | acl
  | drp
deriving DecidableEq

def DrpType.text : DrpType → String
  | acl => "ACL"
  | drp => "DRP"

/-- A call of a method, with the readings of the clock when its vertex is created and validated. -/
structure DRPProxyChainArgs where
  created : ℤ
  validated : ℤ
  type : DrpType
  prop : String
  args : List JsValue

structure DRPObjectStateManager (Drp Acl : Type) where
  drpStates : Hash → Option Drp
  aclStates : Hash → Option Acl

namespace DRPObjectStateManager

variable {Drp Acl : Type} (states : DRPObjectStateManager Drp Acl)

def create (genesis : ReplayState Drp Acl) : DRPObjectStateManager Drp Acl where
  drpStates := fun hash => if hash = HashGraph.rootHash then some genesis.drpState else none
  aclStates := fun hash => if hash = HashGraph.rootHash then some genesis.aclState else none

/-- `setACLState` and `setDRPState` of one hash. -/
def setStates (hash : Hash) (state : ReplayState Drp Acl) : DRPObjectStateManager Drp Acl where
  drpStates := Function.update states.drpStates hash (some state.drpState)
  aclStates := Function.update states.aclStates hash (some state.aclState)

def fromHash (hash : Hash) : Except JsError (ReplayState Drp Acl) :=
  match states.drpStates hash, states.aclStates hash with
  | some drpState, some aclState => .ok { drpState, aclState }
  | _, _ => .error (.stateNotFound ("State " ++ hash ++ " not found"))

def prune (hashes : List Hash) : DRPObjectStateManager Drp Acl where
  drpStates := fun hash => if hash ∈ hashes then states.drpStates hash else none
  aclStates := fun hash => if hash ∈ hashes then states.aclStates hash else none

end DRPObjectStateManager

namespace ObjectCode

variable {Drp Acl : Type} (code : ObjectCode Drp Acl)

/-- Operations on the ACL check their caller themselves. -/
def validateWriterPermission (acl : Acl) (vertex : Vertex) (isACL : Bool) : Except JsError Unit :=
  if isACL then .ok ()
  else if code.isWriter acl vertex.peerId then .ok ()
  else .error (.error ("Not a writer " ++ vertex.peerId))

/-- The operation on its half of the object, and whether it changed it. -/
def applyFn (state : ReplayState Drp Acl) (vertex : Vertex) (isACL : Bool) :
    Except JsError (ReplayState Drp Acl × Bool) :=
  match vertex.operation with
  | none => .error (.error "Operation is undefined")
  | some operation =>
    if isACL then
      (code.callACL state.aclState vertex.peerId operation.opType operation.value).map
        fun called => ({ state with aclState := called.1 }, called.2)
    else
      (code.callDRP state.drpState vertex.peerId operation.opType operation.value).map
        fun called => ({ state with drpState := called.1 }, called.2)

/-- `computeOperation`, `validateWriterPermission` and `applyFn`, on detached copies. -/
def stage (start : ReplayState Drp Acl) (linearizedVertices : List Vertex) (vertex : Vertex)
    (isACL : Bool) : Except JsError (ReplayState Drp Acl × Bool) := do
  let state ← code.replay start linearizedVertices
  code.validateWriterPermission state.aclState vertex isACL
  code.applyFn state vertex isACL

/-- `initializeFinalityStore` of a new vertex, with the list after its operation. -/
def initializeFinalityStore (acl : Acl) : Except JsError Unit :=
  if JsValue.sortable ((code.finalitySigners acl).map (·.1)) then .ok ()
  else .error (.typeError "Cannot convert object to primitive value")

end ObjectCode

def maxCheckpoints : ℕ := 32

/--
A replica: its graph, the live object, the snapshots and checkpoints it replays
from, and the hashes of vertices it has found invalid, the oldest first.  There
is always a checkpoint.
-/
structure DRPVertexApplier (Drp Acl : Type) where
  peerId : String
  checkpointSuffixSize : ℕ
  hashGraph : HashGraph
  live : ReplayState Drp Acl
  states : DRPObjectStateManager Drp Acl
  checkpoints : List (LinearizationCheckpoint Drp Acl)
  knownInvalidVertexHashes : List Hash
  checkpointed : checkpoints ≠ []

/-- An exception and the replica it leaves behind. -/
structure Thrown (Drp Acl : Type) where
  error : JsError
  applier : DRPVertexApplier Drp Acl

namespace DRPVertexApplier

variable {Drp Acl : Type} (env : Environment Drp Acl) (applier : DRPVertexApplier Drp Acl)

def create (peerId : String) (checkpointSuffixSize : ℕ) (genesis : ReplayState Drp Acl) :
    DRPVertexApplier Drp Acl where
  peerId := peerId
  checkpointSuffixSize := checkpointSuffixSize
  hashGraph := .initial
  live := genesis
  states := .create genesis
  checkpoints := [.root genesis]
  knownInvalidVertexHashes := []
  checkpointed := List.cons_ne_nil _ _

def latest : LinearizationCheckpoint Drp Acl := applier.checkpoints.getLast applier.checkpointed

def retained : List Hash :=
  HashGraph.rootHash :: (applier.checkpoints.flatMap (·.frontier) ++
    applier.hashGraph.hashes.drop applier.latest.vertexCount)

def pruneSnapshots : DRPVertexApplier Drp Acl :=
  { applier with states := applier.states.prune applier.retained }

def checkpoint : LinearizationCheckpoint Drp Acl where
  frontier := applier.hashGraph.frontier
  origin := leastHash applier.hashGraph.frontier
  vertexCount := applier.hashGraph.vertices.length
  state := applier.live

/-- `checkpoints.push`, and `checkpoints.splice(1, 1)` when there are too many. -/
def pushCheckpoint (checkpoints : List (LinearizationCheckpoint Drp Acl))
    (checkpoint : LinearizationCheckpoint Drp Acl) : List (LinearizationCheckpoint Drp Acl) :=
  if maxCheckpoints < (checkpoints ++ [checkpoint]).length then
    (checkpoints ++ [checkpoint]).eraseIdx 1
  else checkpoints ++ [checkpoint]

section

variable {checkpoints : List (LinearizationCheckpoint Drp Acl)}

theorem mem_of_mem_pushCheckpoint {checkpoint found : LinearizationCheckpoint Drp Acl}
    (mem : found ∈ pushCheckpoint checkpoints checkpoint) :
    found ∈ checkpoints ∨ found = checkpoint := by
  rw [← List.mem_singleton, ← List.mem_append]
  unfold pushCheckpoint at mem
  split at mem
  · exact List.mem_of_mem_eraseIdx mem
  · exact mem

theorem head?_pushCheckpoint {checkpoint first : LinearizationCheckpoint Drp Acl}
    (head : checkpoints.head? = some first) :
    (pushCheckpoint checkpoints checkpoint).head? = some first := by
  rcases List.head?_eq_some_iff.mp head with ⟨rest, rfl⟩
  unfold pushCheckpoint
  split
  · cases rest <;> rfl
  · rfl

theorem pushCheckpoint_ne_nil (nonempty : checkpoints ≠ [])
    (checkpoint : LinearizationCheckpoint Drp Acl) :
    pushCheckpoint checkpoints checkpoint ≠ [] := by
  rcases List.exists_cons_of_ne_nil nonempty with ⟨first, rest, rfl⟩
  have head : (pushCheckpoint (first :: rest) checkpoint).head? = some first :=
    head?_pushCheckpoint rfl
  intro empty
  rw [empty] at head
  cases head

end

def advanceCheckpointIfNeeded : DRPVertexApplier Drp Acl :=
  if applier.hashGraph.vertices.length < applier.latest.vertexCount + applier.checkpointSuffixSize then
    applier
  else
    pruneSnapshots
      { applier with
        checkpoints := pushCheckpoint applier.checkpoints applier.checkpoint
        checkpointed := pushCheckpoint_ne_nil applier.checkpointed _ }

def getReplay (dependencies : List Hash) : Except JsError (Replay Drp Acl) :=
  TsDrp.getReplay env.options applier.hashGraph env.fuel applier.checkpoints dependencies

/--
Where the replay of the past of a remote vertex starts, and what is replayed
from there: the snapshot of a single dependency if it has one.
-/
def getLCA (vertex : Vertex) : Except JsError (ReplayState Drp Acl × List Vertex) :=
  let replayed := (applier.getReplay env vertex.dependencies).map fun replay =>
    (replay.state, replay.linearizedVertices)
  match vertex.dependencies with
  | [dependency] =>
    if (applier.states.drpStates dependency).isSome ∧
        (applier.states.aclStates dependency).isSome then
      (applier.states.fromHash dependency).map fun state => (state, [])
    else replayed
  | _ => replayed

def assignState (vertex : Vertex) (state : ReplayState Drp Acl) : DRPVertexApplier Drp Acl :=
  { applier with states := applier.states.setStates vertex.hash state }

/-- `assignState` and `addVertexToHashGraph`. -/
def commit (vertex : Vertex) (state : ReplayState Drp Acl) : DRPVertexApplier Drp Acl :=
  { applier with
    states := applier.states.setStates vertex.hash state
    hashGraph := applier.hashGraph.addVertex vertex }

/-- The stages `assignState`, `initializeFinalityStore` and `addVertexToHashGraph` of a remote vertex. -/
def finishVertex (vertex : Vertex) (state : ReplayState Drp Acl) :
    Except (Thrown Drp Acl) (DRPVertexApplier Drp Acl) :=
  match env.code.initializeFinalityStore state.aclState with
  | .error error => .error { error, applier := applier.assignState vertex state }
  | .ok () => .ok (applier.commit vertex state)

/-- Everything the remote pipeline does before it commits. -/
def stageVertex (now : ℤ) (vertex : Vertex) (isACL : Bool) :
    Except JsError (ReplayState Drp Acl × Bool) := do
  validateVertex env.computeHash vertex applier.hashGraph now false
  let (start, linearizedVertices) ← applier.getLCA env vertex
  env.code.stage start linearizedVertices vertex isACL

/-- The remote pipeline on a vertex that the clock `now` is read for. -/
def applyVertexPipeline (now : ℤ) (vertex : Vertex) (isACL : Bool) :
    Except (Thrown Drp Acl) (DRPVertexApplier Drp Acl) :=
  match applier.stageVertex env now vertex isACL with
  | .error error => .error { error, applier }
  | .ok staged => applier.finishVertex env vertex staged.1

/-- A vertex of this peer on the current frontier, for a call of the method `prop`. -/
def createVertex (call : DRPProxyChainArgs) : Vertex :=
  let operation : Operation :=
    { drpType := call.type.text, opType := call.prop, value := .array call.args }
  { hash := env.computeHash applier.peerId (some operation) applier.hashGraph.frontier call.created
    peerId := applier.peerId
    operation := some operation
    dependencies := applier.hashGraph.frontier
    timestamp := call.created }

/-- The live object takes over the half an operation has run on. -/
def assign (state : ReplayState Drp Acl) (isACL : Bool) : DRPVertexApplier Drp Acl :=
  if isACL then { applier with live := { applier.live with aclState := state.aclState } }
  else { applier with live := { applier.live with drpState := state.drpState } }

/--
The stages of a local call from `equal` on: the replica, the vertex that was
added to it, and whether the call returns.
-/
def finishCall (vertex : Vertex) (isACL : Bool) (staged : ReplayState Drp Acl × Bool) :
    DRPVertexApplier Drp Acl × Option Vertex × Except JsError Unit :=
  if staged.2 then
    ((applier.assign staged.1 isACL).commit vertex staged.1, some vertex,
      env.code.initializeFinalityStore staged.1.aclState)
  else (applier, none, .ok ())

/--
A method call on the live object.  A call that changes nothing creates no vertex;
a checkpoint it has taken stays even if the method raises an exception.
-/
def callFn (call : DRPProxyChainArgs) :
    DRPVertexApplier Drp Acl × Option Vertex × Except JsError Unit :=
  let vertex := applier.createVertex env call
  match validateVertex env.computeHash vertex applier.hashGraph call.validated true with
  | .error error => (applier, none, .error error)
  | .ok () =>
    let applier := applier.advanceCheckpointIfNeeded
    match env.code.stage applier.live [] vertex (call.type = .acl) with
    | .error error => (applier, none, .error error)
    | .ok staged => applier.finishCall env vertex (call.type = .acl) staged

end DRPVertexApplier

end TsDrp
