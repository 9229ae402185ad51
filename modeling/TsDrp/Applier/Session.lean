import TsDrp.Applier.Merge
import TsDrp.Library.Cooperative

/-!
# Operations in flight on one replica

`applyVertices` waits for the pipeline of every vertex, for the replay of the
ACL and for the replay of the DRP, and an asynchronous method makes a local call
wait as well.  In between, other merges and local calls go on with the same
replica.  What a pipeline or a replay computes while it waits is computed on
copies that nobody else sees, so a call that waits is described by what it has
computed and has not written yet.
-/

namespace TsDrp

open Merging

/-- A vertex of a batch, with the clock read for it and whether its pipeline has to wait. -/
structure Entry where
  now : ℤ
  suspends : Bool
  vertex : Vertex

/-- The local variables of one call of `applyVertices`, which returns a promise. -/
structure MergeLocals where
  promise : ℕ
  length : ℕ
  /-- Whether the replay of the DRP at the end has to wait. -/
  suspends : Bool
  missing : List Hash
  invalid : List Hash
  missingVertices : Hash → Option Vertex
  batchInvalidVertexHashes : List Hash
  newVertices : List Vertex

namespace MergeLocals

variable {Drp Acl : Type} (locals : MergeLocals)

def on (applier : DRPVertexApplier Drp Acl) : Merging Drp Acl where
  applier := applier
  missing := locals.missing
  invalid := locals.invalid
  missingVertices := locals.missingVertices
  batchInvalidVertexHashes := locals.batchInvalidVertexHashes

def update (merging : Merging Drp Acl) : MergeLocals :=
  { locals with
    missing := merging.missing
    invalid := merging.invalid
    missingVertices := merging.missingVertices
    batchInvalidVertexHashes := merging.batchInvalidVertexHashes }

def push (vertex : Vertex) : MergeLocals :=
  { locals with newVertices := locals.newVertices ++ [vertex] }

end MergeLocals

inductive Task (Drp Acl : Type) where
  /-- A merge has added a vertex and waits before it goes on with the rest. -/
  | scanning (locals : MergeLocals) (rest : List Entry)
  /-- A method of a vertex, or of its past, is asynchronous. -/
  | applying (locals : MergeLocals) (vertex : Vertex)
      (staged : Except JsError (ReplayState Drp Acl × Bool)) (rest : List Entry)
  /-- The frontier has been read and the ACL replayed. -/
  | replaying (locals : MergeLocals) (aclState : Acl) (replay : Replay Drp Acl)
  /-- The ACL has been written and the DRP replayed. -/
  | writing (locals : MergeLocals) (drpRun : Except JsError Drp)
  /-- The method of a local call is asynchronous. -/
  | calling (vertex : Vertex) (type : DrpType)
      (staged : Except JsError (ReplayState Drp Acl × Bool))

/--
What a call returned or raised, with the vertex it has added; a merge notifies
of its new vertices.
-/
inductive Settled where
  | call (outcome : Option Vertex × Except JsError Unit)
  | merge (outcome : Except JsError (ApplyResult × List Vertex))

def Settled.accepted : Settled → List Vertex
  | call (some vertex, _) => [vertex]
  | merge (.ok (_, newVertices)) => newVertices
  | _ => []

def Settled.threw : Settled → Bool
  | call outcome => !outcome.2.toBool
  | merge outcome => !outcome.toBool

inductive Progress (Drp Acl : Type) where
  | waits (task : Task Drp Acl)
  | settles (outcome : Settled)

inductive Request where
  | call (suspends : Bool) (call : DRPProxyChainArgs)
  | merge (promise : ℕ) (suspends : Bool) (vertices : List Entry)

/-- The replica and what has become of the calls that are no longer in flight. -/
structure Session (Drp Acl : Type) where
  applier : DRPVertexApplier Drp Acl
  settled : List Settled

namespace Session

variable {Drp Acl : Type} (env : Environment Drp Acl)

abbrev Segment (Drp Acl : Type) := DRPVertexApplier Drp Acl × Progress Drp Acl

def endLoop (locals : MergeLocals) (applier : DRPVertexApplier Drp Acl) : Segment Drp Acl :=
  let merging := (locals.on applier).settleMissing locals.length
  let applier := merging.applier
  match applier.getReplay env applier.hashGraph.frontier with
  | .error error => (applier, .settles (.merge (.error error)))
  | .ok replay =>
    match applyVertices env.code.callACL replay.state.aclState
        (splitOperation replay.linearizedVertices).2 with
    | .error error => (applier, .settles (.merge (.error error)))
    | .ok aclState => (applier, .waits (.replaying (locals.update merging) aclState replay))

/--
What becomes of a vertex once its pipeline has run.  An accepted vertex makes
the merge wait; after a failed validation the loop goes on at once.
-/
def settleVertex (locals : MergeLocals) (vertex : Vertex)
    (staged : Except JsError (ReplayState Drp Acl × Bool)) (rest : List Entry)
    (goOn : MergeLocals → DRPVertexApplier Drp Acl → Segment Drp Acl)
    (applier : DRPVertexApplier Drp Acl) : Segment Drp Acl :=
  match (locals.on applier).settle env vertex staged with
  | .error thrown => (thrown.applier, .settles (.merge (.error thrown.error)))
  | .ok merging =>
    match staged with
    | .ok _ => (merging.applier, .waits (.scanning ((locals.update merging).push vertex) rest))
    | .error _ => goOn (locals.update merging) merging.applier

/-- The loop over the batch, up to the point where it waits. -/
def scan : List Entry → MergeLocals → DRPVertexApplier Drp Acl → Segment Drp Acl
  | [], locals, applier => endLoop env locals applier
  | entry :: rest, locals, applier =>
    if (locals.on applier).skips entry.vertex then scan rest locals applier
    else
      let staged := applier.stageVertex env entry.now entry.vertex
        entry.vertex.isACL
      -- A vertex that fails the validation is never waited for.
      if entry.suspends ∧ validateVertex env.computeHash entry.vertex applier.hashGraph entry.now
          false = .ok () then
        (applier, .waits (.applying locals entry.vertex staged rest))
      else settleVertex env locals entry.vertex staged rest (scan rest) applier

def endCall (vertex : Vertex) (type : DrpType)
    (staged : Except JsError (ReplayState Drp Acl × Bool)) (applier : DRPVertexApplier Drp Acl) :
    Segment Drp Acl :=
  match staged with
  | .error error => (applier, .settles (.call (none, .error error)))
  | .ok staged =>
    let (applier, outcome) := applier.finishCall env vertex (type = .acl) staged
    (applier, .settles (.call outcome))

/-- A local call up to the end of its method, if that is synchronous; those of the ACL are. -/
def beginCall (suspends : Bool) (call : DRPProxyChainArgs) (applier : DRPVertexApplier Drp Acl) :
    Segment Drp Acl :=
  let vertex := applier.createVertex env call
  match validateVertex env.computeHash vertex applier.hashGraph call.validated true with
  | .error error => (applier, .settles (.call (none, .error error)))
  | .ok () =>
    let applier := applier.advanceCheckpointIfNeeded
    let staged := env.code.stage applier.live [] vertex (call.type = .acl)
    if suspends ∧ call.type = .drp then (applier, .waits (.calling vertex call.type staged))
    else endCall env vertex call.type staged applier

/-- `Object.assign` of the replayed ACL, and the replay of the DRP. -/
def writeACL (locals : MergeLocals) (aclState : Acl) (replay : Replay Drp Acl)
    (applier : DRPVertexApplier Drp Acl) : Segment Drp Acl :=
  let applier := { applier with live := { applier.live with aclState } }
  let drpRun := applyVertices env.code.callDRP replay.state.drpState
    (splitOperation replay.linearizedVertices).1
  match drpRun, locals.suspends with
  | .error error, false => (applier, .settles (.merge (.error error)))
  | _, _ => (applier, .waits (.writing locals drpRun))

/-- `Object.assign` of the replayed DRP, and the end of the merge. -/
def writeDRP (locals : MergeLocals) (drpRun : Except JsError Drp)
    (applier : DRPVertexApplier Drp Acl) : Segment Drp Acl :=
  match drpRun with
  | .error error => (applier, .settles (.merge (.error error)))
  | .ok drpState =>
    let applier := { applier with live := { applier.live with drpState } }
    (applier.advanceCheckpointIfNeeded,
      .settles (.merge (.ok ((locals.on applier).result, locals.newVertices))))

def newMerge (promise : ℕ) (suspends : Bool) (vertices : List Entry) : MergeLocals where
  promise := promise
  length := vertices.length
  suspends := suspends
  missing := []
  invalid := []
  missingVertices := fun _ => none
  batchInvalidVertexHashes := []
  newVertices := []

def begin (request : Request) (applier : DRPVertexApplier Drp Acl) : Segment Drp Acl :=
  match request with
  | .call suspends call =>
    beginCall env suspends call applier
  | .merge promise suspends vertices =>
    scan env vertices (newMerge promise suspends vertices) applier

def goOn (task : Task Drp Acl) (applier : DRPVertexApplier Drp Acl) : Segment Drp Acl :=
  match task with
  | .scanning locals rest => scan env rest locals applier
  | .applying locals vertex staged rest =>
    settleVertex env locals vertex staged rest (scan env rest) applier
  | .replaying locals aclState replay => writeACL env locals aclState replay applier
  | .writing locals drpRun => writeDRP locals drpRun applier
  | .calling vertex type staged => endCall env vertex type staged applier

def record (session : Session Drp Acl) : Segment Drp Acl → Session Drp Acl × Option (Task Drp Acl)
  | (applier, .waits task) => ({ session with applier }, some task)
  | (applier, .settles outcome) => ({ applier, settled := session.settled ++ [outcome] }, none)

/-- The calls on one replica; which of them goes on is up to the event loop. -/
def program : Cooperative.Program (Session Drp Acl) (Task Drp Acl) Request Unit where
  start := fun request session => session.record (begin env request session.applier)
  resume := fun _ task session => session.record (goOn env task session.applier)

end Session

def DRPVertexApplier.withKnown {Drp Acl : Type} (applier : DRPVertexApplier Drp Acl)
    (known : List Hash) : DRPVertexApplier Drp Acl :=
  { applier with knownInvalidVertexHashes := known }

/-- The same call of `applyVertices`, which has accepted no further vertex. -/
structure MergeLocals.Continues (locals next : MergeLocals) : Prop where
  promise : next.promise = locals.promise
  newVertices : next.newVertices = locals.newVertices

namespace Session

variable {Drp Acl : Type} {env : Environment Drp Acl} {applier : DRPVertexApplier Drp Acl}
  {locals next : MergeLocals} {rest : List Entry}

variable (env applier) in
def replayedFrontier : Except JsError (ReplayState Drp Acl) :=
  applier.getReplay env applier.hashGraph.frontier >>=
    fun replay => env.code.replay replay.state replay.linearizedVertices

/-- The DRP operations of a replay whose ACL operations have led to `aclState`. -/
def drpReplay (env : Environment Drp Acl) (replay : Replay Drp Acl) : Except JsError Drp :=
  applyVertices env.code.callDRP replay.state.drpState (splitOperation replay.linearizedVertices).1

theorem endLoop_cases (env : Environment Drp Acl) (locals : MergeLocals)
    (applier : DRPVertexApplier Drp Acl) :
    ∃ known, (∃ error, replayedFrontier env applier = .error error ∧
        endLoop env locals applier = (applier.withKnown known, .settles (.merge (.error error)))) ∨
      ∃ next aclState replay, locals.Continues next ∧
        replayedFrontier env applier =
          (drpReplay env replay).map (fun drpState => { drpState, aclState }) ∧
        endLoop env locals applier =
          (applier.withKnown known, .waits (.replaying next aclState replay)) := by
  rcases exists_known_settleMissing locals.length (locals.on applier) with ⟨known, same⟩
  have same : ((locals.on applier).settleMissing locals.length).applier = applier.withKnown known :=
    same
  refine ⟨known, ?_⟩
  unfold endLoop replayedFrontier
  have sameReplay : (applier.withKnown known).getReplay env = applier.getReplay env := rfl
  simp only [same, sameReplay]
  simp only [DRPVertexApplier.withKnown]
  cases applier.getReplay env applier.hashGraph.frontier with
  | error error => exact Or.inl ⟨error, rfl, rfl⟩
  | ok replay =>
    simp only [Outcome.ok_bind, ObjectCode.replay]
    cases applyVertices env.code.callACL replay.state.aclState
        (splitOperation replay.linearizedVertices).2 with
    | error error => exact Or.inl ⟨error, rfl, rfl⟩
    | ok aclState =>
      exact Or.inr ⟨locals.update ((locals.on applier).settleMissing locals.length), aclState,
        replay, ⟨rfl, rfl⟩, rfl, rfl⟩

theorem writeACL_cases (env : Environment Drp Acl) (locals : MergeLocals) (aclState : Acl)
    (replay : Replay Drp Acl) (applier : DRPVertexApplier Drp Acl) :
    (∃ error, drpReplay env replay = .error error ∧ writeACL env locals aclState replay applier =
        ({ applier with live := { applier.live with aclState } }, .settles (.merge (.error error)))) ∨
      writeACL env locals aclState replay applier =
        ({ applier with live := { applier.live with aclState } },
          .waits (.writing locals (drpReplay env replay))) := by
  unfold writeACL drpReplay
  cases applyVertices env.code.callDRP replay.state.drpState
      (splitOperation replay.linearizedVertices).1 with
  | ok drpState => exact Or.inr rfl
  | error error =>
    cases locals.suspends with
    | false => exact Or.inl ⟨error, rfl, rfl⟩
    | true => exact Or.inr rfl

theorem beginCall_cases (env : Environment Drp Acl) (suspends : Bool) (call : DRPProxyChainArgs)
    (applier : DRPVertexApplier Drp Acl) :
    (∃ error, beginCall env suspends call applier =
        (applier, .settles (.call (none, .error error)))) ∨
      validateVertex env.computeHash (applier.createVertex env call)
          applier.hashGraph call.validated true = .ok () ∧
        ((suspends = true ∧ call.type = .drp) ∧ beginCall env suspends call applier =
              (applier.advanceCheckpointIfNeeded,
                .waits (.calling (applier.createVertex env call) call.type
                  (env.code.stage applier.advanceCheckpointIfNeeded.live []
                    (applier.createVertex env call) (call.type = .acl)))) ∨
          ¬(suspends = true ∧ call.type = .drp) ∧ beginCall env suspends call applier =
              endCall env (applier.createVertex env call) call.type
                (env.code.stage applier.advanceCheckpointIfNeeded.live []
                  (applier.createVertex env call) (call.type = .acl))
                applier.advanceCheckpointIfNeeded) := by
  simp only [beginCall]
  cases validateVertex env.computeHash (applier.createVertex env call)
      applier.hashGraph call.validated true with
  | error error => exact Or.inl ⟨error, rfl⟩
  | ok _ =>
    refine Or.inr ⟨rfl, ?_⟩
    by_cases waits : suspends = true ∧ call.type = .drp
    · exact Or.inl ⟨waits, if_pos waits⟩
    · exact Or.inr ⟨waits, if_neg waits⟩

variable (env applier) in
/-- The loop goes on behind an entry without a change of the graph. -/
def PassedOver (entry : Entry) : Prop :=
  (start applier).skips entry.vertex = true ∨
    ∃ error, applier.stageVertex env entry.now entry.vertex entry.vertex.isACL = .error error

variable (env applier locals rest) in
/-- Everything the loop can come to from one point where it waits to the next. -/
inductive Scanned : Segment Drp Acl → Prop where
  | throws (known : List Hash) (error : JsError) (entry : Entry) (mem : entry ∈ rest)
      (unskipped : (start applier).skips entry.vertex = false)
      (failed : applier.stageVertex env entry.now entry.vertex entry.vertex.isACL = .error error)
      (raised : error.isValidationFailure = false) :
      Scanned (applier.withKnown known, .settles (.merge (.error error)))
  | unfinished (known : List Hash) (error : JsError) (entry : Entry)
      (staged : ReplayState Drp Acl × Bool) (mem : entry ∈ rest)
      (unskipped : (start applier).skips entry.vertex = false)
      (run : applier.stageVertex env entry.now entry.vertex
        entry.vertex.isACL = .ok staged)
      (failed : env.code.initializeFinalityStore staged.1.aclState = .error error) :
      Scanned ((applier.withKnown known).assignState entry.vertex staged.1,
        .settles (.merge (.error error)))
  | suspends (known : List Hash) (next : MergeLocals) (before after : List Entry) (entry : Entry)
      (split : rest = before ++ entry :: after) (passed : ∀ other ∈ before, PassedOver env applier other)
      (continues : locals.Continues next)
      (unskipped : (start applier).skips entry.vertex = false)
      (valid : validateVertex env.computeHash entry.vertex applier.hashGraph entry.now false = .ok ()) :
      Scanned (applier.withKnown known, .waits (.applying next entry.vertex
        (applier.stageVertex env entry.now entry.vertex entry.vertex.isACL) after))
  | commits (known : List Hash) (next : MergeLocals) (before after : List Entry) (entry : Entry)
      (staged : ReplayState Drp Acl × Bool)
      (split : rest = before ++ entry :: after) (passed : ∀ other ∈ before, PassedOver env applier other)
      (continues : locals.Continues next)
      (unskipped : (start applier).skips entry.vertex = false)
      (run : applier.stageVertex env entry.now entry.vertex
        entry.vertex.isACL = .ok staged) :
      Scanned ((applier.withKnown known).commit entry.vertex staged.1,
        .waits (.scanning (next.push entry.vertex) after))
  | ends (known : List Hash) (next : MergeLocals) (passed : ∀ other ∈ rest, PassedOver env applier other)
      (continues : locals.Continues next) :
      Scanned (endLoop env next (applier.withKnown known))

theorem Scanned.cons {known : List Hash} {entry : Entry} {segment : Segment Drp Acl}
    (scanned : Scanned env (applier.withKnown known) next rest segment)
    (continues : locals.Continues next) (passed : PassedOver env applier entry) :
    Scanned env applier locals (entry :: rest) segment := by
  have continued : ∀ {last : MergeLocals}, next.Continues last → locals.Continues last :=
    fun further => ⟨further.promise.trans continues.promise,
      further.newVertices.trans continues.newVertices⟩
  cases scanned with
  | throws known error other mem unskipped failed raised =>
    exact .throws known error other (.tail _ mem) unskipped failed raised
  | unfinished known error other staged mem unskipped run failed =>
    exact .unfinished known error other staged (.tail _ mem) unskipped run failed
  | suspends known last before after other split passedBefore further unskipped valid =>
    refine .suspends known last (entry :: before) after other (by rw [split]; rfl) ?_
      (continued further) unskipped valid
    exact List.forall_mem_cons.mpr ⟨passed, passedBefore⟩
  | commits known last before after other staged split passedBefore further unskipped run =>
    refine .commits known last (entry :: before) after other staged (by rw [split]; rfl) ?_
      (continued further) unskipped run
    exact List.forall_mem_cons.mpr ⟨passed, passedBefore⟩
  | ends known last passedAll further =>
    exact .ends known last (List.forall_mem_cons.mpr ⟨passed, passedAll⟩) (continued further)

theorem settleVertex_ok (env : Environment Drp Acl) (locals : MergeLocals) (vertex : Vertex)
    (staged : ReplayState Drp Acl × Bool) (rest : List Entry)
    (goOn : MergeLocals → DRPVertexApplier Drp Acl → Segment Drp Acl)
    (applier : DRPVertexApplier Drp Acl) :
    (∃ error, env.code.initializeFinalityStore staged.1.aclState = .error error ∧
      settleVertex env locals vertex (.ok staged) rest goOn applier =
        (applier.assignState vertex staged.1, .settles (.merge (.error error)))) ∨
      settleVertex env locals vertex (.ok staged) rest goOn applier =
        (applier.commit vertex staged.1, .waits (.scanning (locals.push vertex) rest)) := by
  simp only [settleVertex, settle, DRPVertexApplier.finishVertex]
  cases env.code.initializeFinalityStore staged.1.aclState with
  | error error => exact Or.inl ⟨error, rfl, rfl⟩
  | ok _ => exact Or.inr rfl

theorem settleVertex_error (env : Environment Drp Acl) (locals : MergeLocals) (vertex : Vertex) (error : JsError)
    (rest : List Entry) (goOn : MergeLocals → DRPVertexApplier Drp Acl → Segment Drp Acl)
    (applier : DRPVertexApplier Drp Acl) :
    (error.isValidationFailure = false ∧
      settleVertex env locals vertex (.error error) rest goOn applier =
        (applier, .settles (.merge (.error error)))) ∨
      ∃ known next, locals.Continues next ∧
        settleVertex env locals vertex (.error error) rest goOn applier =
          goOn next (applier.withKnown known) := by
  simp only [settleVertex, settle, catchError]
  by_cases failure : error.isValidationFailure = true
  · right
    simp only [if_pos failure]
    split
    · exact ⟨applier.knownInvalidVertexHashes, locals.update ((locals.on applier).markMissing vertex),
        ⟨rfl, rfl⟩, rfl⟩
    · exact ⟨rememberInvalidVertexHash applier.knownInvalidVertexHashes vertex.hash,
        locals.update ((locals.on applier).markInvalid vertex.hash), ⟨rfl, rfl⟩, rfl⟩
  · left
    rw [if_neg failure]
    exact ⟨Bool.eq_false_of_not_eq_true failure, rfl⟩

theorem scanned_scan (env : Environment Drp Acl) (rest : List Entry) (locals : MergeLocals)
    (applier : DRPVertexApplier Drp Acl) :
    Scanned env applier locals rest (scan env rest locals applier) := by
  induction rest generalizing locals applier with
  | nil =>
    exact .ends applier.knownInvalidVertexHashes locals (fun _ mem => nomatch mem) ⟨rfl, rfl⟩
  | cons entry rest ih =>
    rw [scan]
    split
    case isTrue skipped =>
      exact (ih locals (applier.withKnown applier.knownInvalidVertexHashes)).cons ⟨rfl, rfl⟩
        (Or.inl skipped)
    case isFalse unskipped =>
      have unskipped : (start applier).skips entry.vertex = false :=
        Bool.not_eq_true _ ▸ unskipped
      simp only
      split
      case isTrue waits =>
        exact .suspends applier.knownInvalidVertexHashes locals [] rest entry rfl
          (fun _ mem => nomatch mem) ⟨rfl, rfl⟩ unskipped waits.2
      case isFalse =>
        cases run : applier.stageVertex env entry.now entry.vertex
            entry.vertex.isACL with
        | ok staged =>
          rcases settleVertex_ok env locals entry.vertex staged rest (scan env rest) applier with
            ⟨error, failed, same⟩ | same
          · rw [same]
            exact .unfinished applier.knownInvalidVertexHashes error entry staged List.mem_cons_self
              unskipped run failed
          · rw [same]
            exact .commits applier.knownInvalidVertexHashes locals [] rest entry staged rfl
              (fun _ mem => nomatch mem) ⟨rfl, rfl⟩ unskipped run
        | error error =>
          rcases settleVertex_error env locals entry.vertex error rest (scan env rest) applier with
            ⟨raised, same⟩ | ⟨known, next, continues, same⟩
          · rw [same]
            exact .throws applier.knownInvalidVertexHashes error entry List.mem_cons_self unskipped
              run raised
          · rw [same]
            exact (ih next (applier.withKnown known)).cons continues (Or.inr ⟨error, run⟩)

section Alone

/-- A call that goes on without interruption from a segment to its end. -/
inductive Alone (env : Environment Drp Acl) :
    Segment Drp Acl → DRPVertexApplier Drp Acl × Settled → Prop where
  | settles (applier : DRPVertexApplier Drp Acl) (outcome : Settled) :
      Alone env (applier, .settles outcome) (applier, outcome)
  | waits {applier : DRPVertexApplier Drp Acl} {task : Task Drp Acl}
      {final : DRPVertexApplier Drp Acl × Settled} (alone : Alone env (goOn env task applier) final) :
      Alone env (applier, .waits task) final

theorem Alone.run {segment : Segment Drp Acl} {final : DRPVertexApplier Drp Acl × Settled}
    (alone : Alone env segment final) (session : Session Drp Acl) :
    ∃ rounds, (program env).run ⟨(session.record segment).1, (session.record segment).2.toList⟩
        (List.replicate rounds (.resume 0 ())) =
      ⟨{ applier := final.1, settled := session.settled ++ [final.2] }, []⟩ := by
  induction alone generalizing session with
  | settles applier outcome => exact ⟨0, rfl⟩
  | @waits applier task final _ ih =>
    rcases ih { session with applier } with ⟨rounds, run⟩
    refine ⟨rounds + 1, ?_⟩
    rw [List.replicate_succ]
    exact run

def finished (newVertices : List Vertex) :
    Except (Thrown Drp Acl) (DRPVertexApplier Drp Acl × ApplyResult) →
      DRPVertexApplier Drp Acl × Settled
  | .error thrown => (thrown.applier, .merge (.error thrown.error))
  | .ok (applier, result) => (applier, .merge (.ok (result, newVertices)))

def mergeEnd (env : Environment Drp Acl) (length : ℕ) (merging : Merging Drp Acl) :
    Except (Thrown Drp Acl) (DRPVertexApplier Drp Acl × ApplyResult) :=
  ((merging.settleMissing length).applier.replayFrontier env).map fun applier =>
    (applier.advanceCheckpointIfNeeded, (merging.settleMissing length).result)

theorem alone_endLoop (locals : MergeLocals) (applier : DRPVertexApplier Drp Acl) :
    Alone env (endLoop env locals applier)
      (finished locals.newVertices (mergeEnd env locals.length (locals.on applier))) := by
  unfold endLoop mergeEnd DRPVertexApplier.replayFrontier
  simp only
  cases ((locals.on applier).settleMissing locals.length).applier.getReplay env
      ((locals.on applier).settleMissing locals.length).applier.hashGraph.frontier with
  | error error => exact .settles _ _
  | ok replay =>
    simp only
    cases applyVertices env.code.callACL replay.state.aclState
        (splitOperation replay.linearizedVertices).2 with
    | error error => exact .settles _ _
    | ok aclState =>
      apply Alone.waits
      simp only [goOn, writeACL]
      cases applyVertices env.code.callDRP replay.state.drpState
          (splitOperation replay.linearizedVertices).1 with
      | ok drpState => exact .waits (.settles _ _)
      | error error =>
        cases (locals.update ((locals.on applier).settleMissing locals.length)).suspends with
        | false => exact .settles _ _
        | true => exact .waits (.settles _ _)

theorem alone_scan (rest : List Entry) (locals : MergeLocals) (applier : DRPVertexApplier Drp Acl) :
    ∃ newVertices, Alone env (scan env rest locals applier) (finished newVertices
      (applyEach env (locals.on applier) (rest.map fun entry => (entry.now, entry.vertex)) >>=
        mergeEnd env locals.length)) := by
  induction rest generalizing locals applier with
  | nil => exact ⟨locals.newVertices, alone_endLoop locals applier⟩
  | cons entry rest ih =>
    rw [scan, List.map_cons, applyEach, applyOne]
    split
    case isTrue => exact ih locals applier
    case isFalse =>
      have settled : ∃ newVertices, Alone env
          (settleVertex env locals entry.vertex (applier.stageVertex env entry.now entry.vertex
            entry.vertex.isACL) rest (scan env rest) applier)
          (finished newVertices
            ((locals.on applier).settle env entry.vertex (applier.stageVertex env entry.now
                entry.vertex entry.vertex.isACL) >>= (fun next =>
              applyEach env next (rest.map fun entry => (entry.now, entry.vertex))) >>=
              mergeEnd env locals.length)) := by
        unfold settleVertex
        cases (locals.on applier).settle env entry.vertex (applier.stageVertex env entry.now
            entry.vertex entry.vertex.isACL) with
        | error error => exact ⟨[], .settles _ _⟩
        | ok merging =>
          cases applier.stageVertex env entry.now entry.vertex
              entry.vertex.isACL with
          | error error => exact ih (locals.update merging) merging.applier
          | ok staged =>
            rcases ih ((locals.update merging).push entry.vertex) merging.applier with
              ⟨newVertices, alone⟩
            exact ⟨newVertices, .waits alone⟩
      simp only
      split
      · rcases settled with ⟨newVertices, alone⟩
        exact ⟨newVertices, .waits alone⟩
      · exact settled

theorem finished_mergeVertices (newVertices : List Vertex) (batch : List (ℤ × Vertex)) :
    finished newVertices (applier.mergeVertices env batch) =
      ((applier.applyVertices env batch).1,
        .merge ((applier.applyVertices env batch).2.map fun result => (result, newVertices))) := by
  unfold DRPVertexApplier.applyVertices
  cases applier.mergeVertices env batch <;> rfl

/-- An uninterrupted merge is the sequential one. -/
theorem run_merge_alone (session : Session Drp Acl) (promise : ℕ) (suspends : Bool)
    (vertices : List Entry) :
    ∃ rounds newVertices, (program env).run ⟨session, []⟩
        (.start (.merge promise suspends vertices) :: List.replicate rounds (.resume 0 ())) =
      ⟨{ applier := (session.applier.applyVertices env
            (vertices.map fun entry => (entry.now, entry.vertex))).1
         settled := session.settled ++ [.merge ((session.applier.applyVertices env
            (vertices.map fun entry => (entry.now, entry.vertex))).2.map fun result =>
              (result, newVertices))] }, []⟩ := by
  rcases @alone_scan _ _ env vertices (newMerge promise suspends vertices) session.applier with
    ⟨newVertices, alone⟩
  have same : applyEach env ((newMerge promise suspends vertices).on session.applier)
        (vertices.map fun entry => (entry.now, entry.vertex)) >>= mergeEnd env vertices.length =
      session.applier.mergeVertices env (vertices.map fun entry => (entry.now, entry.vertex)) := by
    unfold DRPVertexApplier.mergeVertices
    rw [List.length_map]
    apply bind_congr
    intro merging
    simp only [mergeEnd]
    cases (merging.settleMissing vertices.length).applier.replayFrontier env <;> rfl
  have alone : Alone env (scan env vertices (newMerge promise suspends vertices) session.applier)
      (finished newVertices (session.applier.mergeVertices env
        (vertices.map fun entry => (entry.now, entry.vertex)))) := same ▸ alone
  rw [finished_mergeVertices] at alone
  rcases alone.run session with ⟨rounds, run⟩
  exact ⟨rounds, newVertices, run⟩

theorem beginCall_eq_callFn {suspends : Bool} {call : DRPProxyChainArgs}
    (synchronous : ¬(suspends = true ∧ call.type = .drp)) :
    beginCall env suspends call applier = ((applier.callFn env call).1,
        .settles (.call (applier.callFn env call).2)) := by
  unfold beginCall DRPVertexApplier.callFn
  simp only [if_neg synchronous]
  cases validateVertex env.computeHash (applier.createVertex env call)
      applier.hashGraph call.validated true with
  | error error => rfl
  | ok _ =>
    simp only [endCall]
    cases env.code.stage applier.advanceCheckpointIfNeeded.live []
        (applier.createVertex env call) (call.type = .acl) <;> rfl

end Alone

end Session

end TsDrp
