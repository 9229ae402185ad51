import TsDrp.Applier.Acceptance
import TsDrp.Applier.Errors
import TsDrp.Finality.Store

/-!
# What the replicas note about a vertex

Behind the validation either pipeline takes the object that a vertex builds on,
checks the writer against the access control list of that object and runs the
operation; a snapshot and the finality signers are then stored for the vertex.
The snapshots are pruned later, so each replica is given notes of what its
pipelines did.  In every run the notes that any two replicas have of one vertex
agree, and they are what a replay of the vertex's causal past gives.
-/

namespace TsDrp

open HashGraph
open Outcome (FailsOnlyWith)

/--
One run of a pipeline behind the validation: the object that the writer was
checked against and that the operation ran on, and the snapshot that was stored,
if one was.
-/
structure Attempt (Drp Acl : Type) where
  vertex : Vertex
  base : Except JsError (ReplayState Drp Acl)
  snapshot : Option (ReplayState Drp Acl)

def Attempt.verdict {Drp Acl : Type} (code : ObjectCode Drp Acl) (attempt : Attempt Drp Acl) :
    Except JsError (Except JsError Unit) :=
  attempt.base.map fun base => code.validateWriterPermission base.aclState attempt.vertex
    attempt.vertex.isACL

section Attempts

variable {Drp Acl : Type} (env : Environment Drp Acl)

namespace DRPVertexApplier

variable (applier : DRPVertexApplier Drp Acl)

/-- What a local call does behind the validation. -/
def callAttempts (call : DRPProxyChainArgs) :
    List (Attempt Drp Acl) :=
  let vertex := applier.createVertex env call
  match validateVertex env.computeHash vertex applier.hashGraph call.validated true with
  | .error _ => []
  | .ok () =>
    [{ vertex
       base := .ok applier.live
       snapshot := match env.code.stage applier.live [] vertex (call.type = .acl) with
        | .ok (state, true) => some state
        | _ => none }]

/-- What the remote pipeline does behind the validation. -/
def remoteAttempts (now : ℤ) (vertex : Vertex) : List (Attempt Drp Acl) :=
  match validateVertex env.computeHash vertex applier.hashGraph now false with
  | .error _ => []
  | .ok () =>
    [{ vertex
       base := applier.getLCA env vertex >>= fun found => env.code.replay found.1 found.2
       snapshot := match applier.stageVertex env now vertex vertex.isACL with
        | .ok (state, _) => some state
        | .error _ => none }]

end DRPVertexApplier

def Merging.attempts : Merging Drp Acl → List (ℤ × Vertex) → List (Attempt Drp Acl)
  | _, [] => []
  | merging, (now, vertex) :: rest =>
    (if merging.skips vertex then [] else merging.applier.remoteAttempts env now vertex) ++
      match merging.applyOne env now vertex with
      | .error _ => []
      | .ok next => attempts next rest

end Attempts

namespace FinalityStore

variable {Key Signature : Type}

def signerIndices (store : FinalityStore Signature) (hash : Hash) : Option (List JsValue) :=
  (store.states hash).map (·.signerIndices)

def signerIndex (store : FinalityStore Signature) (hash : Hash) (peerId : String) : Option ℕ :=
  (store.states hash).bind (·.indexOf peerId)

theorem signerIndex_eq (store : FinalityStore Signature) (hash : Hash) (peerId : String) :
    store.signerIndex hash peerId = (store.signerIndices hash).bind (·.idxOf? (.string peerId)) := by
  unfold signerIndex signerIndices
  rw [Option.bind_map]
  rfl

theorem signerIndices_update (store : FinalityStore Signature) (hash : Hash)
    (state : FinalityState Signature) :
    signerIndices { states := Function.update store.states hash (some state) } =
      Function.update store.signerIndices hash (some state.signerIndices) := by
  funext other
  unfold signerIndices
  dsimp only
  by_cases same : other = hash
  · subst same
    rw [Function.update_self, Function.update_self, Option.map_some]
  · rw [Function.update_of_ne same, Function.update_of_ne same]

theorem signerIndices_initializeState {store : FinalityStore Signature} {hash : Hash}
    (absent : store.signerIndices hash = none) (signers : List (JsValue × JsValue)) :
    (store.initializeState hash signers).signerIndices =
      Function.update store.signerIndices hash (some (FinalityState.sortedPeerIds signers)) := by
  have absentState : store.states hash = none := Option.map_eq_none_iff.mp absent
  rw [initializeState, absentState]
  exact signerIndices_update ..

theorem signerIndices_attempt (store : FinalityStore Signature) (hash : Hash)
    {change : FinalityState Signature → Except FinalityError (FinalityState Signature)}
    (same : ∀ state next, change state = .ok next → next.signerIndices = state.signerIndices) :
    (store.attempt hash change).1.signerIndices = store.signerIndices := by
  unfold attempt
  split
  · rfl
  · rename_i state found
    split
    · rename_i next changed
      have signers : store.signerIndices hash = some next.signerIndices := by
        rw [signerIndices, found, Option.map_some, same state next changed]
      rw [signerIndices_update, ← signers, Function.update_eq_self]
    · rfl

theorem signerIndices_addSignature {bls : Bls Key Signature} {peerId : String}
    {signature : Signature} {verify : Bool} (state next : FinalityState Signature)
    (added : state.addSignature bls peerId signature verify = .ok next) :
    next.signerIndices = state.signerIndices := by
  unfold FinalityState.addSignature at added
  split at added
  · cases added
  · dsimp only at added
    split at added
    · cases added
    · split at added
      · cases added
        rfl
      · split at added
        · rcases Outcome.bind_eq_ok.mp added with ⟨_, _, checked⟩
          split at checked
          · cases checked
          · cases checked
            rfl
        · cases added
          rfl

theorem signerIndices_addSignatures (bls : Bls Key Signature) (store : FinalityStore Signature)
    (peerId : String) (attestations : List (Attestation Signature)) (verify : Bool) :
    (store.addSignatures bls peerId attestations verify).1.signerIndices = store.signerIndices := by
  unfold addSignatures
  refine List.foldlRecOn (motive := fun done : FinalityStore Signature × List (Attestation Signature) =>
    done.1.signerIndices = store.signerIndices) attestations _ rfl fun done same attestation _ => ?_
  exact (signerIndices_attempt _ _ signerIndices_addSignature).trans same

theorem signerIndices_mergeSignatures (bls : Bls Key Signature) (store : FinalityStore Signature)
    (attestations : List (AggregatedAttestation Signature)) :
    (store.mergeSignatures bls attestations).1.signerIndices = store.signerIndices := by
  unfold mergeSignatures
  refine List.foldlRecOn (motive := fun done : FinalityStore Signature × ℕ × ℕ =>
    done.1.signerIndices = store.signerIndices) attestations _ rfl fun done same attestation _ => ?_
  have merged : (done.1.attempt attestation.data (·.merge bls attestation)).1.signerIndices =
      done.1.signerIndices := by
    apply signerIndices_attempt
    intro state next merged
    rcases FinalityState.merge_cases merged with ⟨_, _, _, _, _, _, rfl⟩
    exact (FinalityState.combine_cases bls state _ _ _).1.2.2
  dsimp only
  split
  · exact merged.trans same
  · exact merged.trans same

end FinalityStore

/-- The runs of a replica's pipelines in their order, and its finality store. -/
structure Notes (Drp Acl Signature : Type) where
  attempts : List (Attempt Drp Acl)
  finality : FinalityStore Signature

/-- The signers of a vertex in the order of their indices, if the store can be initialised. -/
def ObjectCode.peerIds {Drp Acl : Type} (code : ObjectCode Drp Acl) (acl : Acl) :
    Option (List JsValue) :=
  match code.initializeFinalityStore acl with
  | .ok () => some (FinalityState.sortedPeerIds (code.finalitySigners acl))
  | .error _ => none

def Notes.add {Drp Acl Signature : Type} (code : ObjectCode Drp Acl)
    (notes : Notes Drp Acl Signature) (attempt : Attempt Drp Acl) : Notes Drp Acl Signature where
  attempts := notes.attempts ++ [attempt]
  finality := match attempt.snapshot with
    | none => notes.finality
    | some state =>
      match code.initializeFinalityStore state.aclState with
      | .ok () =>
        notes.finality.initializeState attempt.vertex.hash (code.finalitySigners state.aclState)
      | .error _ => notes.finality

theorem Notes.signerIndices_add {Drp Acl Signature : Type} {notes : Notes Drp Acl Signature}
    {vertex : Vertex} (absent : notes.finality.signerIndices vertex.hash = none)
    (code : ObjectCode Drp Acl) (base : Except JsError (ReplayState Drp Acl))
    (state : ReplayState Drp Acl) :
    (notes.add code { vertex, base, snapshot := some state }).finality.signerIndices =
      Function.update notes.finality.signerIndices vertex.hash (code.peerIds state.aclState) := by
  simp only [add, ObjectCode.peerIds]
  cases code.initializeFinalityStore state.aclState with
  | ok _ => exact FinalityStore.signerIndices_initializeState absent _
  | error _ => exact (absent ▸ Function.update_eq_self vertex.hash notes.finality.signerIndices).symm

structure Journal (Drp Acl Signature : Type) where
  world : World Drp Acl
  notes : String → Notes Drp Acl Signature

namespace Journal

variable {Drp Acl Key Signature : Type}

def start (checkpointSuffixSize : String → ℕ) (genesis : ReplayState Drp Acl) :
    Journal Drp Acl Signature where
  world := .start checkpointSuffixSize genesis
  notes := fun _ => { attempts := [], finality := { states := fun _ => none } }

section Steps

variable (env : Environment Drp Acl) (journal : Journal Drp Acl Signature) (peer : String)

def note (world : World Drp Acl) (attempts : List (Attempt Drp Acl)) :
    Journal Drp Acl Signature where
  world := world
  notes := Function.update journal.notes peer (attempts.foldl (·.add env.code) (journal.notes peer))

def call (call : DRPProxyChainArgs) :
    Journal Drp Acl Signature :=
  journal.note env peer (journal.world.call env peer call)
    ((journal.world.replica peer).callAttempts env call)

def merge (batch : List (ℤ × Vertex)) : Journal Drp Acl Signature :=
  journal.note env peer (journal.world.merge env peer batch)
    (Merging.attempts env (.start (journal.world.replica peer)) batch)

def setFinality (finality : FinalityStore Signature) : Journal Drp Acl Signature :=
  { journal with
    notes := Function.update journal.notes peer { journal.notes peer with finality } }

end Steps

/-- A local call, a merge of created vertices that returns, or attestations for a finality store. -/
inductive Step (env : Environment Drp Acl) (bls : Bls Key Signature) :
    Journal Drp Acl Signature → Journal Drp Acl Signature → Prop where
  | call (journal : Journal Drp Acl Signature) (peer : String) (call : DRPProxyChainArgs) :
      Step env bls journal (journal.call env peer call)
  | merge (journal : Journal Drp Acl Signature) (peer : String) (batch : List (ℤ × Vertex))
      (result : ApplyResult) (known : ∀ entry ∈ batch, entry.2 ∈ journal.world.history.vertices)
      (returned : ((journal.world.replica peer).applyVertices env batch).2 = .ok result) :
      Step env bls journal (journal.merge env peer batch)
  | addSignatures (journal : Journal Drp Acl Signature) (peer signer : String)
      (attestations : List (Attestation Signature)) (verify : Bool) :
      Step env bls journal (journal.setFinality peer
        ((journal.notes peer).finality.addSignatures bls signer attestations verify).1)
  | mergeSignatures (journal : Journal Drp Acl Signature) (peer : String)
      (attestations : List (AggregatedAttestation Signature)) :
      Step env bls journal (journal.setFinality peer
        ((journal.notes peer).finality.mergeSignatures bls attestations).1)

def Reachable (env : Environment Drp Acl) (bls : Bls Key Signature)
    (checkpointSuffixSize : String → ℕ) (genesis : ReplayState Drp Acl) : Journal Drp Acl Signature → Prop :=
  Relation.ReflTransGen (Step env bls) (start checkpointSuffixSize genesis)

variable {env : Environment Drp Acl} {bls : Bls Key Signature}
  {checkpointSuffixSize : String → ℕ} {genesis : ReplayState Drp Acl}
  {journal next : Journal Drp Acl Signature}

theorem Reachable.world (reachable : Reachable env bls checkpointSuffixSize genesis journal) :
    World.Reachable env checkpointSuffixSize genesis journal.world := by
  induction reachable with
  | refl => exact .refl
  | tail _ step ih =>
    cases step with
    | call peer call => exact ih.tail (.call ..)
    | merge peer batch result known returned => exact ih.tail (.merge _ _ _ result known returned)
    | addSignatures => exact ih
    | mergeSignatures => exact ih

end Journal

structure Attempt.BasedOn {Drp Acl : Type} (env : Environment Drp Acl)
    (genesis : ReplayState Drp Acl) (history : HashGraph) (attempt : Attempt Drp Acl) : Prop where
  nonempty : attempt.vertex.dependencies ≠ []
  present : ∀ hash ∈ attempt.vertex.dependencies, hash ∈ history.hashes
  base : attempt.base = env.replayOf genesis history attempt.vertex.dependencies
  snapshot : ∀ state, attempt.snapshot = some state → ∃ base, attempt.base = .ok base ∧
    env.code.validateWriterPermission base.aclState attempt.vertex
      attempt.vertex.isACL = .ok () ∧
    env.code.replay base [attempt.vertex] = .ok state

theorem Attempt.BasedOn.of_extends {Drp Acl : Type} {env : Environment Drp Acl}
    {genesis : ReplayState Drp Acl} {history later : HashGraph} {attempt : Attempt Drp Acl}
    (based : attempt.BasedOn env genesis history) (wellFormed : history.WellFormed)
    (extends_ : Extends history later) : attempt.BasedOn env genesis later := by
  have within := Within.of_extends extends_
  refine ⟨based.nonempty, fun hash mem => within.mem_hashes (based.present hash mem), ?_,
    based.snapshot⟩
  rw [based.base]
  exact env.replayOf_within genesis within wellFormed (wellFormed.of_extends extends_)
    based.nonempty based.present

/-- The notes of a replica are complete, and true of the vertices' pasts. -/
structure Noted {Drp Acl Signature : Type} (env : Environment Drp Acl) (genesis : ReplayState Drp Acl)
    (history graph : HashGraph) (notes : Notes Drp Acl Signature) : Prop where
  based : env.options.SwapsAreFinal history → ∀ attempt ∈ notes.attempts,
    attempt.BasedOn env genesis history
  inserted : ∀ attempt ∈ notes.attempts, attempt.snapshot ≠ none → attempt.vertex ∈ graph.vertices
  noted : ∀ vertex ∈ graph.created, ∃ attempt ∈ notes.attempts, attempt.vertex = vertex ∧
    attempt.snapshot ≠ none
  signed : ∀ attempt ∈ notes.attempts, ∀ state, attempt.snapshot = some state →
    notes.finality.signerIndices attempt.vertex.hash = env.code.peerIds state.aclState
  known : ∀ hash, notes.finality.signerIndices hash ≠ none → hash ∈ graph.hashes

namespace Noted

variable {Drp Acl Signature : Type} {env : Environment Drp Acl}
  {genesis : ReplayState Drp Acl} {history graph : HashGraph} {notes : Notes Drp Acl Signature} {vertex : Vertex}
  {base : Except JsError (ReplayState Drp Acl)} {state : ReplayState Drp Acl}

section

variable (noted : Noted env genesis history graph notes)
include noted

theorem of_extends {later : HashGraph} (wellFormed : history.WellFormed)
    (extends_ : Extends history later) : Noted env genesis later graph notes :=
  { noted with
    based := fun swaps attempt mem =>
      (noted.based (swaps.of_within (.of_extends extends_) wellFormed
        (wellFormed.of_extends extends_)) attempt mem).of_extends wellFormed extends_ }

theorem setFinality {finality : FinalityStore Signature}
    (same : finality.signerIndices = notes.finality.signerIndices) :
    Noted env genesis history graph { notes with finality } where
  based := noted.based
  inserted := noted.inserted
  noted := noted.noted
  signed := same ▸ noted.signed
  known := same ▸ noted.known

theorem reject
    (based : env.options.SwapsAreFinal history →
      Attempt.BasedOn env genesis history { vertex, base, snapshot := none }) :
    Noted env genesis history graph
      (notes.add env.code { vertex, base, snapshot := none }) := by
  refine ⟨?_, ?_, ?_, ?_, noted.known⟩
  · intro swaps
    exact List.forall_mem_append.mpr
      ⟨noted.based swaps, List.forall_mem_singleton.mpr (based swaps)⟩
  · exact List.forall_mem_append.mpr
      ⟨noted.inserted, List.forall_mem_singleton.mpr fun inserted => absurd rfl inserted⟩
  · intro earlier mem
    rcases noted.noted earlier mem with ⟨attempt, attemptMem, found⟩
    exact ⟨attempt, List.mem_append_left _ attemptMem, found⟩
  · refine List.forall_mem_append.mpr ⟨noted.signed, List.forall_mem_singleton.mpr ?_⟩
    intro state inserted
    cases inserted

theorem insert
    (based : env.options.SwapsAreFinal history →
      Attempt.BasedOn env genesis history { vertex, base, snapshot := some state })
    (fresh : vertex.hash ∉ graph.hashes) :
    Noted env genesis history (graph.addVertex vertex)
      (notes.add env.code { vertex, base, snapshot := some state }) := by
  have absent : notes.finality.signerIndices vertex.hash = none := by
    by_contra present
    exact fresh (noted.known _ present)
  have indices := Notes.signerIndices_add absent env.code base state
  refine ⟨?_, ?_, ?_, ?_, ?_⟩
  · intro swaps
    exact List.forall_mem_append.mpr
      ⟨noted.based swaps, List.forall_mem_singleton.mpr (based swaps)⟩
  · rw [vertices_addVertex fresh]
    refine List.forall_mem_append.mpr ⟨?_, List.forall_mem_singleton.mpr ?_⟩
    · intro attempt mem inserted
      exact List.mem_append_left _ (noted.inserted attempt mem inserted)
    · intro _
      exact List.mem_append_right _ List.mem_cons_self
  · intro other mem
    rcases List.mem_filter.mp mem with ⟨present, notRoot⟩
    rw [vertices_addVertex fresh] at present
    rcases List.mem_append.mp present with old | new
    · rcases noted.noted other (List.mem_filter.mpr ⟨old, notRoot⟩) with
        ⟨attempt, attemptMem, found⟩
      exact ⟨attempt, List.mem_append_left _ attemptMem, found⟩
    · exact ⟨_, List.mem_append_right _ List.mem_cons_self, (List.mem_singleton.mp new).symm,
        Option.some_ne_none _⟩
  · rw [indices]
    refine List.forall_mem_append.mpr ⟨?_, List.forall_mem_singleton.mpr ?_⟩
    · intro attempt mem stored inserted
      have other : attempt.vertex.hash ≠ vertex.hash := by
        intro same
        have present := noted.inserted attempt mem (inserted ▸ Option.some_ne_none _)
        exact fresh (same ▸ hash_mem_of_mem present)
      rw [Function.update_of_ne other]
      exact noted.signed attempt mem stored inserted
    · intro stored inserted
      cases inserted
      exact Function.update_self ..
  · intro hash present
    rw [indices] at present
    rw [hashes_addVertex fresh]
    by_cases same : hash = vertex.hash
    · exact List.mem_append_right _ (List.mem_singleton.mpr same)
    · rw [Function.update_of_ne same] at present
      exact List.mem_append_left _ (noted.known hash present)

end

end Noted

namespace World

variable {Drp Acl Signature : Type} {env : Environment Drp Acl}
  {genesis : ReplayState Drp Acl} {world : World Drp Acl}
  {peer : String} {notes : Notes Drp Acl Signature}

section

variable {call : DRPProxyChainArgs}

theorem call_eq_setReplica (env : Environment Drp Acl)
    (noVertex : ((world.replica peer).callFn env call).2.1 = none) :
    world.call env peer call = world.setReplica peer ((world.replica peer).callFn env call).1 := by
  unfold World.call setReplica
  simp only [noVertex]

theorem call_eq_of_added (env : Environment Drp Acl) {vertex : Vertex}
    (added : ((world.replica peer).callFn env call).2.1 = some vertex) :
    world.call env peer call =
      { history := world.history.addVertex vertex
        replica := Function.update world.replica peer
          ((world.replica peer).callFn env call).1 } := by
  unfold World.call
  simp only [added]

end

theorem Sound.basedOn_call (sound : world.Sound env genesis)
    (swaps : env.options.SwapsAreFinal world.history) (call : DRPProxyChainArgs)
    {snapshot : Option (ReplayState Drp Acl)}
    (stored : ∀ state, snapshot = some state →
      env.code.stage (world.replica peer).live []
        ((world.replica peer).createVertex env call) (call.type = .acl) = .ok (state, true)) :
    Attempt.BasedOn env genesis world.history
      { vertex := (world.replica peer).createVertex env call
        base := .ok (world.replica peer).live
        snapshot } := by
  have wellFormed := (sound.replicaGrown peer).wellFormed
  have within := sound.within peer
  refine ⟨wellFormed.frontier_ne_nil,
    fun hash mem => within.mem_hashes (wellFormed.frontier_present hash mem), ?_, ?_⟩
  · rw [← (sound.consistent swaps peer).live]
    exact env.replayOf_within genesis within wellFormed sound.grown.wellFormed
      wellFormed.frontier_ne_nil wellFormed.frontier_present
  · intro state inserted
    rcases ObjectCode.stage_eq_ok.mp (stored state inserted) with ⟨base, same, permitted, applied⟩
    cases same
    rw [← DRPVertexApplier.isACL_createVertex] at permitted applied
    exact ⟨_, rfl, ObjectCode.validateWriterPermission_eq_ok.mpr permitted,
      ObjectCode.replay_of_applyFn DRPVertexApplier.knownType_createVertex applied⟩

theorem Tracks.basedOn {applier : DRPVertexApplier Drp Acl} (traced : world.Traced env)
    (tracks : Tracks env genesis world peer applier)
    (swaps : env.options.SwapsAreFinal world.history) {now : ℤ} {vertex : Vertex}
    (mem : vertex ∈ world.history.vertices) (fresh : vertex.hash ∉ applier.hashGraph.hashes)
    (valid : validateVertex env.computeHash vertex applier.hashGraph now false = .ok ())
    {snapshot : Option (ReplayState Drp Acl)}
    (stored : ∀ state, snapshot = some state → ∃ changed,
      applier.stageVertex env now vertex vertex.isACL = .ok (state, changed)) :
    Attempt.BasedOn env genesis world.history
      { vertex
        base := applier.getLCA env vertex >>= fun found => env.code.replay found.1 found.2
        snapshot } := by
  have recorded := tracks.recorded swaps
  have wellFormed := recorded.grown.wellFormed
  have nonempty := (validateVertex_eq_ok.mp valid).2.1
  have present := present_of_validateVertex valid
  have known := traced.known vertex (traced.orderly tracks.within wellFormed mem fresh).1
  refine ⟨nonempty, fun hash mem => tracks.within.mem_hashes (present hash mem), ?_, ?_⟩
  · rw [recorded.getLCA_replay
      (swaps.of_within tracks.within wellFormed traced.grown.wellFormed) nonempty present]
    exact env.replayOf_within genesis tracks.within wellFormed traced.grown.wellFormed nonempty
      present
  · intro state inserted
    rcases stored state inserted with ⟨changed, staged⟩
    rcases Outcome.then_eq_ok.mp staged with ⟨_, staged⟩
    rcases Outcome.bind_eq_ok.mp staged with ⟨⟨start, linearizedVertices⟩, found, staged⟩
    rcases ObjectCode.stage_eq_ok.mp staged with ⟨base, replayed, permitted, applied⟩
    refine ⟨base, ?_, ObjectCode.validateWriterPermission_eq_ok.mpr permitted,
      ObjectCode.replay_of_applyFn known applied⟩
    rw [found, Outcome.ok_bind]
    exact replayed

section

variable {merging : Merging Drp Acl} (traced : world.Traced env)
  (tracks : Tracks env genesis world peer merging.applier)
  (noted : Noted env genesis world.history merging.applier.hashGraph notes)
include traced tracks noted

theorem Tracks.noted_applyOne {next : Merging Drp Acl} {now : ℤ} {vertex : Vertex}
    (mem : vertex ∈ world.history.vertices) (applied : merging.applyOne env now vertex = .ok next) :
    Noted env genesis world.history next.applier.hashGraph
      ((if merging.skips vertex then [] else merging.applier.remoteAttempts env now vertex).foldl
        (·.add env.code) notes) := by
  rcases Merging.applyOne_cases applied with
    ⟨skipped, rfl⟩ | ⟨notSkipped, ⟨state, changed⟩, staged, rfl⟩ |
      ⟨notSkipped, error, failed, _, rfl⟩
  · rw [if_pos skipped]
    exact noted
  · have fresh := Merging.notMem_of_not_skips notSkipped
    rcases Outcome.then_eq_ok.mp staged with ⟨valid, _⟩
    rw [if_neg (by simp [notSkipped]), DRPVertexApplier.remoteAttempts, valid]
    simp only [staged]
    refine noted.insert (fun swaps => ?_) fresh
    apply tracks.basedOn traced swaps mem fresh valid
    intro stored same
    cases same
    exact ⟨changed, staged⟩
  · have fresh := Merging.notMem_of_not_skips notSkipped
    have sameGraph : (if merging.hasGenuinelyMissingDependency error vertex then
        merging.markMissing vertex else merging.markInvalid vertex.hash).applier.hashGraph =
          merging.applier.hashGraph := by
      split <;> rfl
    rw [sameGraph, if_neg (by simp [notSkipped]), DRPVertexApplier.remoteAttempts]
    cases valid : validateVertex env.computeHash vertex merging.applier.hashGraph now false with
    | error => exact noted
    | ok =>
      simp only [failed]
      refine noted.reject fun swaps => ?_
      apply tracks.basedOn traced swaps mem fresh valid
      intro stored same
      cases same

theorem Tracks.noted_applyEach {final : Merging Drp Acl} {batch : List (ℤ × Vertex)}
    (known : ∀ entry ∈ batch, entry.2 ∈ world.history.vertices)
    (looped : Merging.applyEach env merging batch = .ok final) :
    Noted env genesis world.history final.applier.hashGraph
      ((Merging.attempts env merging batch).foldl (·.add env.code) notes) := by
  induction batch generalizing merging notes with
  | nil =>
    cases looped
    exact noted
  | cons entry rest ih =>
    rcases entry with ⟨now, vertex⟩
    rw [List.forall_mem_cons] at known
    rw [Merging.applyEach] at looped
    rw [Merging.attempts, List.foldl_append]
    cases applied : merging.applyOne env now vertex with
    | error error =>
      rw [applied] at looped
      cases looped
    | ok next =>
      rw [applied] at looped
      exact ih (tracks.applyOne traced known.1 applied)
        (tracks.noted_applyOne traced noted known.1 applied) known.2 looped

end

end World

namespace DRPVertexApplier

variable {Drp Acl : Type}

theorem callAttempts_cases (env : Environment Drp Acl) (applier : DRPVertexApplier Drp Acl)
    (call : DRPProxyChainArgs) :
    ((applier.callAttempts env call = [] ∨ applier.callAttempts env call =
          [{ vertex := applier.createVertex env call
             base := .ok applier.live
             snapshot := none }]) ∧
      (applier.callFn env call).1.hashGraph = applier.hashGraph ∧
      (applier.callFn env call).2.1 = none) ∨
    ∃ state,
      env.code.stage applier.live [] (applier.createVertex env call)
        (call.type = .acl) = .ok (state, true) ∧
      applier.callAttempts env call =
        [{ vertex := applier.createVertex env call
           base := .ok applier.live
           snapshot := some state }] ∧
      (applier.callFn env call).1.hashGraph =
        applier.hashGraph.addVertex (applier.createVertex env call) ∧
      (applier.callFn env call).2.1 = some (applier.createVertex env call) := by
  unfold callFn callAttempts
  simp only [live_advanceCheckpointIfNeeded]
  cases validateVertex env.computeHash (applier.createVertex env call)
      applier.hashGraph call.validated true with
  | error error => exact Or.inl ⟨Or.inl rfl, rfl, rfl⟩
  | ok value =>
    cases env.code.stage applier.live [] (applier.createVertex env call) (call.type = .acl) with
    | error error => exact Or.inl ⟨Or.inr rfl, by simp, rfl⟩
    | ok staged =>
      rcases staged with ⟨state, changed⟩
      cases changed with
      | false => exact Or.inl ⟨Or.inr rfl, by simp [finishCall], rfl⟩
      | true => exact Or.inr ⟨state, rfl, rfl, by simp [finishCall, commit], rfl⟩

end DRPVertexApplier

namespace Journal

variable {Drp Acl Key Signature : Type} {env : Environment Drp Acl} {bls : Bls Key Signature}
  {checkpointSuffixSize : String → ℕ} {genesis : ReplayState Drp Acl}
  {journal next : Journal Drp Acl Signature}

def AllNoted (env : Environment Drp Acl) (genesis : ReplayState Drp Acl) (journal : Journal Drp Acl Signature) : Prop :=
  ∀ peer, Noted env genesis journal.world.history (journal.world.replica peer).hashGraph
    (journal.notes peer)

theorem AllNoted.update (noted : journal.AllNoted env genesis)
    (wellFormed : journal.world.history.WellFormed) {history : HashGraph}
    (extends_ : Extends journal.world.history history) {peer : String}
    {applier : DRPVertexApplier Drp Acl} {notes : Notes Drp Acl Signature}
    (new : Noted env genesis history applier.hashGraph notes) :
    AllNoted env genesis
      { world := { history, replica := Function.update journal.world.replica peer applier }
        notes := Function.update journal.notes peer notes } := by
  intro other
  by_cases same : other = peer
  · subst same
    simp only [Function.update_self]
    exact new
  · simp only [Function.update_of_ne same]
    exact (noted other).of_extends wellFormed extends_

theorem AllNoted.call (noted : journal.AllNoted env genesis)
    (sound : journal.world.Sound env genesis) (binding : ContentBinding env.computeHash)
    (peer : String) (call : DRPProxyChainArgs) :
    (journal.call env peer call).AllNoted env genesis := by
  have wellFormed := sound.grown.wellFormed
  unfold Journal.call note
  rcases (journal.world.replica peer).callAttempts_cases env call with
    ⟨attempts, sameGraph, noVertex⟩ | ⟨state, staged, attempts, addedGraph, added⟩
  · rw [World.call_eq_setReplica env noVertex, World.setReplica]
    apply noted.update wellFormed .refl
    rw [sameGraph]
    rcases attempts with none | refused
    · rw [none]
      exact noted peer
    · rw [refused]
      refine (noted peer).reject fun swaps => ?_
      exact sound.basedOn_call swaps call fun _ same => by cases same
  · have admissible := sound.toTraced.admissible_createVertex binding peer call
    have extends_ : Extends journal.world.history (journal.world.history.addVertex
        ((journal.world.replica peer).createVertex env call)) :=
      .single ⟨_, admissible, rfl⟩
    have fresh : ((journal.world.replica peer).createVertex env call).hash ∉
        (journal.world.replica peer).hashGraph.hashes :=
      fun mem => admissible.fresh ((sound.within peer).mem_hashes mem)
    rw [World.call_eq_of_added env added]
    apply noted.update wellFormed extends_
    rw [addedGraph, attempts]
    refine ((noted peer).of_extends wellFormed extends_).insert (fun swaps => ?_) fresh
    refine Attempt.BasedOn.of_extends ?_ wellFormed extends_
    apply sound.basedOn_call
      (swaps.of_within (.of_extends extends_) wellFormed (wellFormed.of_extends extends_))
    intro stored same
    cases same
    exact staged

theorem AllNoted.merge (noted : journal.AllNoted env genesis)
    (sound : journal.world.Sound env genesis) {peer : String} {batch : List (ℤ × Vertex)}
    {result : ApplyResult} (known : ∀ entry ∈ batch, entry.2 ∈ journal.world.history.vertices)
    (returned : ((journal.world.replica peer).applyVertices env batch).2 = .ok result) :
    (journal.merge env peer batch).AllNoted env genesis := by
  have start : World.Tracks env genesis journal.world peer
      (Merging.start (journal.world.replica peer)).applier :=
    ⟨sound.peers peer, .refl, sound.within peer,
      fun swaps => (sound.consistent swaps peer).toRecorded⟩
  rcases DRPVertexApplier.applyVertices_eq_ok returned with
    ⟨merging, replica, looped, replayed, final, _⟩
  rcases Merging.exists_known_settleMissing batch.length merging with ⟨_, settled⟩
  rcases DRPVertexApplier.replayFrontier_eq_ok.mp replayed with ⟨state, _, sameReplica⟩
  have sameGraph : ((journal.world.replica peer).applyVertices env batch).1.hashGraph =
      merging.applier.hashGraph := by
    rw [final, DRPVertexApplier.hashGraph_advanceCheckpointIfNeeded, sameReplica, settled]
  unfold Journal.merge note World.merge World.setReplica
  apply noted.update sound.grown.wellFormed .refl
  rw [sameGraph]
  exact start.noted_applyEach sound.toTraced (noted peer) known looped

theorem AllNoted.setFinality (noted : journal.AllNoted env genesis) {peer : String}
    {finality : FinalityStore Signature}
    (same : finality.signerIndices = (journal.notes peer).finality.signerIndices) :
    (journal.setFinality peer finality).AllNoted env genesis := by
  refine (Function.forall_update_iff journal.notes fun other notes =>
    Noted env genesis journal.world.history (journal.world.replica other).hashGraph
      notes).mpr ⟨(noted peer).setFinality same, fun other _ => noted other⟩

theorem Reachable.allNoted (reachable : Reachable env bls checkpointSuffixSize genesis journal)
    (binding : ContentBinding env.computeHash) : journal.AllNoted env genesis := by
  induction reachable with
  | refl =>
    intro peer
    refine ⟨?_, ?_, ?_, ?_, fun _ present => absurd rfl present⟩
    · intro _ attempt mem
      cases mem
    · intro attempt mem
      cases mem
    · intro vertex mem
      cases mem
    · intro attempt mem
      cases mem
  | tail reachable step ih =>
    have sound := (Reachable.world reachable).sound binding
    cases step with
    | call peer call =>
      exact ih.call sound binding peer call
    | merge peer batch result known returned => exact ih.merge sound known returned
    | addSignatures peer signer attestations verify =>
      exact ih.setFinality (FinalityStore.signerIndices_addSignatures ..)
    | mergeSignatures peer attestations =>
      exact ih.setFinality (FinalityStore.signerIndices_mergeSignatures ..)

end Journal

/-- `instanceof StateNotFoundError` -/
def JsError.isStateNotFound : JsError → Bool
  | stateNotFound _ => true
  | _ => false

/-- The methods and the resolvers of the object do not raise `StateNotFoundError` themselves. -/
abbrev Environment.RaisesNoStateNotFound {Drp Acl : Type} (env : Environment Drp Acl) : Prop :=
  env.RaisesOnly (·.isStateNotFound = false)

namespace Environment.RaisesNoStateNotFound

variable {Drp Acl : Type} {env : Environment Drp Acl} (quiet : env.RaisesNoStateNotFound)
  (applier : DRPVertexApplier Drp Acl)

theorem validateVertex (vertex : Vertex) (graph : HashGraph) (now : ℤ) (skipHashValidation : Bool) :
    FailsOnlyWith (·.isStateNotFound = false)
      (TsDrp.validateVertex env.computeHash vertex graph now skipHashValidation) := by
  intro error failed
  have failure := isValidationFailure_of_validateVertex failed
  cases error with
  | stateNotFound message => cases failure
  | _ => rfl

theorem initializeFinalityStore (acl : Acl) :
    FailsOnlyWith (·.isStateNotFound = false) (env.code.initializeFinalityStore acl) := by
  unfold ObjectCode.initializeFinalityStore
  split
  · exact .ok _
  · exact .error rfl

include quiet

theorem stageVertex (now : ℤ) (vertex : Vertex) (isACL : Bool) :
    FailsOnlyWith (·.isStateNotFound = false) (applier.stageVertex env now vertex isACL) := by
  apply (validateVertex vertex applier.hashGraph now false).bind
  intro _ _
  refine FailsOnlyWith.bind ?_ fun found _ => ?_
  · apply failsOnlyWith_getLCA _ _ quiet.resolvers
    · exact fun _ => rfl
    · rfl
  · exact failsOnlyWith_stage (fun _ => rfl) quiet.acl quiet.drp _ _ _ _

theorem applyVertexPipeline (now : ℤ) (vertex : Vertex) (isACL : Bool) :
    FailsOnlyWith (·.error.isStateNotFound = false)
      (applier.applyVertexPipeline env now vertex isACL) := by
  unfold DRPVertexApplier.applyVertexPipeline
  split
  case h_1 error failed => exact .error (quiet.stageVertex applier now vertex isACL error failed)
  case h_2 staged _ =>
    intro thrown failed
    have failed := (DRPVertexApplier.finishVertex_eq_error.mp failed).1
    exact initializeFinalityStore _ thrown.error failed

theorem callFn (call : DRPProxyChainArgs) :
    FailsOnlyWith (·.isStateNotFound = false) (applier.callFn env call).2.2 := by
  unfold DRPVertexApplier.callFn
  dsimp only
  split
  case h_1 error failed => exact .error (validateVertex _ _ _ _ error failed)
  case h_2 =>
    split
    case h_1 error failed =>
      exact .error (failsOnlyWith_stage (fun _ => rfl) quiet.acl quiet.drp _ _ _ _ error failed)
    case h_2 =>
      unfold DRPVertexApplier.finishCall
      split
      · exact initializeFinalityStore _
      · exact .ok _

end Environment.RaisesNoStateNotFound

/--
In every run in which a vertex that a swap brings forward conflicts with no other
created vertex, the writer of a vertex is checked against the replay of the
vertex's past, by every replica that checks it.  The replicas that hold a vertex
have all accepted its writer and stored the same snapshot for it, the replay of
its past followed by the vertex itself, and number its finality signers alike.
No pipeline misses a state.
-/
theorem past_decides_vertex {Drp Acl Key Signature : Type} {env : Environment Drp Acl} {bls : Bls Key Signature}
    {checkpointSuffixSize : String → ℕ} {genesis : ReplayState Drp Acl}
    {journal : Journal Drp Acl Signature} (binding : ContentBinding env.computeHash)
    (quiet : env.RaisesNoStateNotFound)
    (reachable : Journal.Reachable env bls checkpointSuffixSize genesis journal)
    (swaps : env.options.SwapsAreFinal journal.world.history) :
    (∀ peer, ∀ attempt ∈ (journal.notes peer).attempts,
      attempt.base = env.replayOf genesis journal.world.history attempt.vertex.dependencies) ∧
    (∀ vertex ∈ journal.world.history.created, ∃ base state,
      env.replayOf genesis journal.world.history vertex.dependencies = .ok base ∧
      env.code.replay base [vertex] = .ok state ∧
      ∀ peer, vertex ∈ (journal.world.replica peer).hashGraph.vertices →
        (∃ attempt ∈ (journal.notes peer).attempts,
          attempt.vertex = vertex ∧ attempt.snapshot = some state) ∧
        (∀ attempt ∈ (journal.notes peer).attempts, attempt.vertex = vertex →
          attempt.verdict env.code = .ok (.ok ()) ∧
          ∀ stored, attempt.snapshot = some stored → stored = state) ∧
        ∀ signer, (journal.notes peer).finality.signerIndex vertex.hash signer =
          (env.code.peerIds state.aclState).bind (·.idxOf? (.string signer))) ∧
    ∀ (applier : DRPVertexApplier Drp Acl) (error : JsError), error.isStateNotFound = true →
      (∀ now vertex isACL thrown, applier.applyVertexPipeline env now vertex isACL = .error thrown →
        thrown.error ≠ error) ∧
      ∀ call, (applier.callFn env call).2.2 ≠ .error error := by
  have sound := (Journal.Reachable.world reachable).sound binding
  have noted := Journal.Reachable.allNoted reachable binding
  have based := fun peer => (noted peer).based swaps
  refine ⟨fun peer attempt mem => (based peer attempt mem).base, fun vertex isCreated => ?_,
    fun applier error isStateNotFound => ⟨fun now vertex isACL thrown failed same => ?_,
      fun call failed => ?_⟩⟩
  · -- The peer that created the vertex has inserted it.
    have own := sound.own vertex isCreated
    have notRoot := (List.mem_filter.mp isCreated).2
    rcases (noted vertex.peerId).noted vertex (List.mem_filter.mpr ⟨own, notRoot⟩) with
      ⟨first, firstMem, rfl, inserted⟩
    rcases Option.ne_none_iff_exists'.mp inserted with ⟨state, stored⟩
    rcases (based _ first firstMem).snapshot state stored with ⟨base, ran, permitted, replayed⟩
    have past : env.replayOf genesis journal.world.history first.vertex.dependencies = .ok base :=
      (based _ first firstMem).base.symm.trans ran
    have agrees : ∀ peer, ∀ attempt ∈ (journal.notes peer).attempts,
        attempt.vertex = first.vertex → attempt.base = .ok base ∧
          ∀ stored, attempt.snapshot = some stored → stored = state := by
      intro peer attempt mem same
      have ranOn : attempt.base = .ok base := by
        rw [(based peer attempt mem).base, same, past]
      refine ⟨ranOn, fun later laterStored => ?_⟩
      rcases (based peer attempt mem).snapshot later laterStored with
        ⟨other, sameBase, _, laterReplayed⟩
      rw [ranOn] at sameBase
      cases sameBase
      rw [same, replayed] at laterReplayed
      exact (Except.ok.inj laterReplayed).symm
    refine ⟨base, state, past, replayed, fun peer held => ?_⟩
    rcases (noted peer).noted first.vertex (List.mem_filter.mpr ⟨held, notRoot⟩) with
      ⟨attempt, mem, same, attemptInserted⟩
    rcases Option.ne_none_iff_exists'.mp attemptInserted with ⟨later, laterStored⟩
    have sameState := (agrees peer attempt mem same).2 later laterStored
    subst sameState
    refine ⟨⟨attempt, mem, same, laterStored⟩, fun other otherMem otherSame => ⟨?_, ?_⟩, ?_⟩
    · rw [Attempt.verdict, (agrees peer other otherMem otherSame).1, otherSame]
      exact congrArg Except.ok permitted
    · exact (agrees peer other otherMem otherSame).2
    · intro signer
      rw [FinalityStore.signerIndex_eq, ← same, (noted peer).signed attempt mem later laterStored]
  · subst same
    rw [quiet.applyVertexPipeline applier now vertex isACL thrown failed] at isStateNotFound
    cases isStateNotFound
  · rw [quiet.callFn applier call error failed] at isStateNotFound
    cases isStateNotFound

namespace JournalExample

open NamedHash SwapExample

def names : List ((String × List Hash) × Hash) := SwapExample.names ++ [(("q", ["m"]), "n")]

def environment (resolve : ResolveConflictFn) : Environment (List String) Unit :=
  { SwapExample.environment resolve with computeHash := namedHash names }

def anySignature : Bls Unit Unit where
  publicKey := fun _ => .ok ()
  verify := fun _ _ _ => true
  verifyAggregate := fun _ _ _ => true
  aggregateSignatures := fun _ => ()

def deliver (env : Environment (List String) Unit) (peer : String)
    (journal : Journal (List String) Unit Unit) : Journal (List String) Unit Unit :=
  journal.merge env peer (journal.world.history.vertices.map fun vertex => (0, vertex))

def concurrent (env : Environment (List String) Unit) : Journal (List String) Unit Unit :=
  (((Journal.start (fun _ => 256) ⟨[], ()⟩).call env "p" ⟨0, 0, .drp, "mul", []⟩).call env
    "q" ⟨0, 0, .drp, "inc", []⟩).call env "r" ⟨0, 0, .drp, "add", []⟩

def continued (env : Environment (List String) Unit) : Journal (List String) Unit Unit :=
  (deliver env "p" (concurrent env)).call env "p" ⟨0, 0, .drp, "inc", []⟩

def answered (env : Environment (List String) Unit) : Journal (List String) Unit Unit :=
  (deliver env "q" (continued env)).call env "q" ⟨0, 0, .drp, "dec", []⟩

def delivered (env : Environment (List String) Unit) : Journal (List String) Unit Unit :=
  deliver env "p" (answered env)

def snapshots (journal : Journal (List String) Unit Unit) (peer : String) (hash : Hash) :
    List (List String) :=
  ((journal.notes peer).attempts.filter (·.vertex.hash = hash)).filterMap fun attempt =>
    attempt.snapshot.map (·.drpState)

theorem contentBinding_names : ContentBinding (namedHash names) :=
  contentBinding_namedHash (by decide) (by decide +kernel)

theorem deliver_step {env : Environment (List String) Unit}
    {journal : Journal (List String) Unit Unit} {peer : String} {result : ApplyResult}
    (returned : received env journal.world peer = .ok result) :
    Journal.Step env anySignature journal (deliver env peer journal) := by
  refine .merge journal peer _ result (fun entry mem => ?_) returned
  rcases List.mem_map.mp mem with ⟨vertex, vertexMem, rfl⟩
  exact vertexMem

theorem delivered_reachable {env : Environment (List String) Unit} {result : ApplyResult}
    (first : received env (concurrent env).world "p" = .ok result)
    (second : received env (continued env).world "q" = .ok result)
    (third : received env (answered env).world "p" = .ok result) :
    Journal.Reachable env anySignature (fun _ => 256) ⟨[], ()⟩ (delivered env) := by
  have created : Journal.Reachable env anySignature (fun _ => 256) ⟨[], ()⟩
      (concurrent env) :=
    .tail (.tail (.tail .refl (.call _ "p" ⟨0, 0, .drp, "mul", []⟩)) (.call _ "q" ⟨0, 0, .drp, "inc", []⟩))
      (.call _ "r" ⟨0, 0, .drp, "add", []⟩)
  have merged : Journal.Reachable env anySignature (fun _ => 256) ⟨[], ()⟩
      (continued env) := .tail (.tail created (deliver_step first)) (.call _ "p" ⟨0, 0, .drp, "inc", []⟩)
  exact .tail (.tail (.tail merged (deliver_step second)) (.call _ "q" ⟨0, 0, .drp, "dec", []⟩))
    (deliver_step third)

theorem quiet_addFirst : (environment addFirst).RaisesNoStateNotFound where
  acl := fun _ _ _ _ => .ok _
  drp := fun _ _ _ _ => .ok _
  resolvers := by
    intro vertices
    unfold GraphOptions.resolveConflicts
    split
    · exact .error rfl
    · split
      · exact .ok _
      · change FailsOnlyWith _ (addFirst _)
        unfold addFirst
        split <;> exact .ok _

end JournalExample

open SwapExample (addFirst addOnly) in
open JournalExample in
theorem past_decides_vertex_addFirst :
    ∃ state : ReplayState (List String) Unit, ∀ peer ∈ ["p", "q"],
      ∃ attempt ∈ ((delivered (environment addFirst)).notes peer).attempts,
        attempt.vertex.hash = "n" ∧ attempt.snapshot = some state := by
  have reachable := @delivered_reachable (environment addFirst) ⟨true, [], []⟩ (by decide +kernel)
    (by decide +kernel) (by decide +kernel)
  have swaps : (environment addFirst).options.SwapsAreFinal
      (delivered (environment addFirst)).world.history := by
    intro _ _
    decide +kernel
  have held : ∃ vertex ∈ (delivered (environment addFirst)).world.history.created,
      vertex.hash = "n" ∧ ∀ peer ∈ ["p", "q"],
        vertex ∈ ((delivered (environment addFirst)).world.replica peer).hashGraph.vertices := by
    decide +kernel
  rcases held with ⟨vertex, isCreated, named, held⟩
  rcases (past_decides_vertex contentBinding_names quiet_addFirst reachable swaps).2.1 vertex
    isCreated with ⟨_, state, _, _, noted⟩
  refine ⟨state, fun peer mem => ?_⟩
  rcases (noted peer (held peer mem)).1 with ⟨attempt, attemptMem, same, stored⟩
  exact ⟨attempt, attemptMem, same ▸ named, stored⟩

open SwapExample (addFirst addOnly) in
open JournalExample in
/--
A resolver that swaps and then drops: the peer that makes the last call has
replayed the whole past, in which the multiplication comes back, while the other
peer builds on the snapshot of the vertex below, which lacks it.
-/
theorem swap_separates_snapshots :
    Journal.Reachable (environment addOnly) anySignature (fun _ => 256)
      ⟨[], ()⟩ (delivered (environment addOnly)) ∧
    snapshots (delivered (environment addOnly)) "q" "n" =
      [["add", "inc", "mul", "inc", "dec"]] ∧
    snapshots (delivered (environment addOnly)) "p" "n" =
      [["add", "inc", "inc", "dec"]] := by
  refine ⟨@delivered_reachable (environment addOnly) ⟨true, [], []⟩
    (by decide +kernel) (by decide +kernel) (by decide +kernel), ?_, ?_⟩
  · decide +kernel
  · decide +kernel

end TsDrp
