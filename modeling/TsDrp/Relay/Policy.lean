import Mathlib.Data.List.Sort
import TsDrp.Library.EventRun
import TsDrp.Library.Obligations
import TsDrp.Relay.Reservation

/-!
# The relay policy in operation

`acquire`, `refresh` and `replace` are queued and run one at a time.  Each waits
for its candidate source, for the calls of up to eight workers that inspect
relays and ask them for reservations, and for releases.  A call to a relay is
abandoned when its deadline passes or its signal is aborted; the relay may still
answer it later.  `stop` waits for what was queued before it and releases
everything that is left in the table.

A run is driven by what happens outside: the clock, the callers, the signals, the
candidate source and the relays.  An event that does not fit the state does
nothing.  Which candidates the source comes up with is left to the events, and so
is which of them it reports as eligible for the degraded overflow, since a source
that was abandoned may go on to do both.
-/

namespace TsDrp

inductive RelayTransport where
  | quicV1
  | tcp
  | wss
  | webtransport
  | webrtcDirect
deriving DecidableEq

structure RelayPolicyOptions where
  limits : RelayPolicyLimits := {}
  addressTransport : String → Option RelayTransport
  allowed : List RelayTransport
  hasFallback : Bool := false
  /-- The source is a composite one with an eligible overflow tier. -/
  hasDegradedOverflow : Bool := false

def selectAddress (options : RelayPolicyOptions) (addresses : List String) : Option String :=
  options.allowed.findSome? fun transport =>
    addresses.find? fun address => options.addressTransport address = some transport

/-- The statuses of attempts; an attempt that was aborted has failed as `aborted`. -/
inductive AttemptStatus where
  | dialRefused
  | dialTimeout
  | duplicate
  | invalidCandidate
  | noCompatibleAddress
  | noHop
  | operatorLimit
  | releaseFailed
  | reserved
  | sourceFailed
  | sourceTimeout
  | transportRateLimited
  | failed (failure : RelayReservationFailure)
deriving DecidableEq

/-- An attempt without its times. -/
structure RelayAttempt where
  candidate : RelayCandidate
  status : AttemptStatus
  address : Option String := none
  hopAdvertised : Bool := false
  identifyProtocols : List String := []
  reservationStatus : Option ℕ := none
  retryAfterMs : Option ℕ := none
deriving DecidableEq

inductive InspectionOutcome where
  | aborted
  | connected
  | refused
  | timeout
deriving DecidableEq

structure RelayInspection where
  outcome : InspectionOutcome
  hopAdvertised : Bool
  protocols : List String
deriving DecidableEq

def circuitRelayV2HopProtocol : String := "/libp2p/circuit/relay/0.2.0/hop"

/-- What a call to a relay is rejected with, and what a signal is aborted with. -/
inductive RelayError where
  | deadline
  | connectionLost
  | transportRateLimit (retryAfterMs : ℕ)
  | other
deriving DecidableEq

def deadlineFailure (error : RelayError) (aborted : Bool) : RelayReservationFailure :=
  if aborted then .aborted
  else match error with
    | .connectionLost => .connectionFailed
    | .deadline => .timeout
    | _ => .refused

def deadlineDialStatus (error : RelayError) (aborted : Bool) : AttemptStatus :=
  if aborted then .failed .aborted
  else match error with
    | .deadline => .dialTimeout
    | _ => .dialRefused

def errorStatus (error : RelayError) (aborted : Bool) : AttemptStatus :=
  match error with
  | .transportRateLimit _ => .transportRateLimited
  | _ => .failed (deadlineFailure error aborted)

inductive FallbackStatus where
  | aborted
  | accepted
  | empty
  | stale
  | timeout
deriving DecidableEq

structure DnsaddrFallbackResult where
  address : Option String := none
  expiresAtMs : Option ℤ := none
  status : FallbackStatus
deriving DecidableEq

inductive RelayTerminal where
  | aborted
  | exhausted
  | ownedFallback
  | reserved
deriving DecidableEq

structure RelayPolicyResult where
  attempts : List RelayAttempt
  fallback : Option DnsaddrFallbackResult
  operatorGroups : List String
  reservations : List ActiveRelayReservation
  terminal : RelayTerminal
deriving DecidableEq

inductive AcquireStage where
  /-- The primary sources of a composite source. -/
  | primary
  /-- Its overflow sources. -/
  | overflow
  /-- Any other source. -/
  | only
deriving DecidableEq

def AcquireStage.allowFallback : AcquireStage → Bool
  | primary => false
  | overflow | only => true

def AcquireStage.allowDegradedOverflow : AcquireStage → Bool
  | overflow => true
  | primary | only => false

structure Acquiring where
  stage : AcquireStage
  pending : List RelayCandidate
  cursor : ℕ

structure RelayCall where
  excludedOperatorGroup : Option String := none
  attempts : List RelayAttempt := []
  /-- Why the caller has aborted, if they have. -/
  signal : Option RelayError
  /-- The same for the signal that the deadline of a pass aborts as well. -/
  boundedSignal : Option RelayError := none

/-- A caller's signal is aborted once, and the signal of a pass with it. -/
def RelayCall.abort (call : RelayCall) (reason : RelayError) : RelayCall :=
  { call with
    signal := call.signal <|> some reason
    boundedSignal := call.boundedSignal <|> some reason }

def RelayCall.exceedTotal (call : RelayCall) : RelayCall :=
  { call with boundedSignal := call.boundedSignal <|> some .deadline }

/-- Where a worker waits; an attempt is what it will report. -/
inductive RelayWorker where
  | starting
  | fetching
  | inspecting (candidate : RelayCandidate) (address : String)
  | reserving (attempt : RelayAttempt)
  /-- The relay has answered, and the worker has not gone on yet. -/
  | answered (attempt : RelayAttempt) (response : RelayReservationWireResponse)
  | releasing (attempt : RelayAttempt)
  /-- The reservation is entered once the surplus one has been dropped. -/
  | dropping (attempt : RelayAttempt) (reservation : ActiveRelayReservation)
      (release : Option RelayCandidate)
  | done

def RelayWorker.Idle : RelayWorker → Prop
  | .answered _ _ | .dropping _ _ _ => False
  | _ => True

def RelayWorker.waiting : RelayWorker → Option ActiveRelayReservation
  | .dropping _ reservation _ => some reservation
  | _ => none

inductive WorkerEvent where
  | resume
  | inspected (inspection : RelayInspection)
  | fails (error : RelayError)
  /-- The signal, or else a deadline, ends the wait, while the call goes on. -/
  | abandons
  | answers (response : RelayReservationWireResponse)
  | released (succeeded : Bool)
deriving DecidableEq

abbrev ClientLog := List (Obligation String)

structure WorkerSegment where
  policy : RelayPolicy
  worker : RelayWorker
  cursor : ℕ
  attempts : List RelayAttempt := []
  log : ClientLog := []
  abandoned : List RelayCandidate := []

section Workers

variable (options : RelayPolicyOptions) (now : ℤ) (call : RelayCall) (acquiring : Acquiring)
  (policy : RelayPolicy)

def WorkerSegment.report (attempt : RelayAttempt) : WorkerSegment where
  policy := policy
  worker := .fetching
  cursor := acquiring.cursor
  attempts := [attempt]

def groupIsFull (candidate : RelayCandidate) : Bool :=
  options.limits.maxPerOperatorGroup ≤ policy.operatorCount candidate &&
    !policy.isAnonymousOverflowCandidate candidate acquiring.stage.allowDegradedOverflow

/-- `attemptCandidate` up to the inspection. -/
def attemptCandidate (candidate : RelayCandidate) : WorkerSegment :=
  let policy := { policy with
    attemptedPeerIds := policy.attemptedPeerIds.insert candidate.peerId }
  let acquiring := { acquiring with cursor := acquiring.cursor + 1 }
  if policy.has candidate.peerId then
    .report acquiring policy { candidate, status := .duplicate }
  else if call.excludedOperatorGroup = some candidate.operatorGroup then
    .report acquiring policy { candidate, status := .operatorLimit }
  else if groupIsFull options acquiring policy candidate then
    .report acquiring policy { candidate, status := .operatorLimit }
  else match selectAddress options candidate.addresses with
    | none => .report acquiring policy { candidate, status := .noCompatibleAddress }
    | some address =>
      { policy, worker := .inspecting candidate address, cursor := acquiring.cursor }

def fetchCandidate : WorkerSegment :=
  if call.boundedSignal.isSome ||
      policy.requirementsMet options.limits acquiring.stage.allowDegradedOverflow then
    { policy, worker := .done, cursor := acquiring.cursor }
  else match acquiring.pending[acquiring.cursor]? with
    | none => { policy, worker := .done, cursor := acquiring.cursor }
    | some candidate => attemptCandidate options call acquiring policy candidate

def failedAttempt (attempt : RelayAttempt) (error : RelayError) : RelayAttempt :=
  { attempt with
    status := errorStatus error call.signal.isSome
    retryAfterMs := match error with
      | .transportRateLimit retryAfterMs => some retryAfterMs
      | _ => none }

/-- The relay has been inspected; once the signal is aborted it is not asked. -/
def inspectCandidate (candidate : RelayCandidate) (address : String)
    (inspection : RelayInspection) : WorkerSegment :=
  let attempt : RelayAttempt :=
    { candidate
      status := .noHop
      address := some address
      hopAdvertised := inspection.hopAdvertised
      identifyProtocols := inspection.protocols }
  match inspection.outcome with
  | .timeout => .report acquiring policy { attempt with status := .dialTimeout }
  | .aborted => .report acquiring policy { attempt with status := .failed .aborted }
  | .refused => .report acquiring policy { attempt with status := .dialRefused }
  | .connected =>
    if !inspection.hopAdvertised ||
        !inspection.protocols.contains circuitRelayV2HopProtocol then
      .report acquiring policy attempt
    else match call.boundedSignal with
      | some reason => .report acquiring policy (failedAttempt call attempt reason)
      | none => { policy, worker := .reserving attempt, cursor := acquiring.cursor }

def failInspection (candidate : RelayCandidate) (address : String) (error : RelayError) :
    WorkerSegment :=
  .report acquiring policy
    { candidate
      status := deadlineDialStatus error call.signal.isSome
      address := some address }

/-- The relay has answered; it holds a reservation if the status is `OK`. -/
def receiveAnswer (attempt : RelayAttempt) (response : RelayReservationWireResponse) :
    WorkerSegment where
  policy := policy
  worker := .answered attempt response
  cursor := acquiring.cursor
  log := if response.status = reservationOk then [.incurred attempt.candidate.peerId] else []

def releaseCandidate (attempt : RelayAttempt) : WorkerSegment where
  policy := policy
  worker := .releasing attempt
  cursor := acquiring.cursor
  log := [.discharged attempt.candidate.peerId]

def keepReservation (attempt : RelayAttempt) (reservation : ActiveRelayReservation) :
    WorkerSegment :=
  .report acquiring (policy.keep reservation acquiring.stage.allowDegradedOverflow)
    { attempt with status := .reserved }

def dropSurplus (attempt : RelayAttempt) (reservation : ActiveRelayReservation)
    (peerId : String) : WorkerSegment :=
  let (policy, release) := policy.drop peerId
  { policy
    worker := .dropping attempt reservation release
    cursor := acquiring.cursor
    log := release.toList.map fun candidate => .discharged candidate.peerId }

/-- The table may have changed while the relay was asked. -/
def acceptReservation (attempt : RelayAttempt) (reservation : ActiveRelayReservation) :
    WorkerSegment :=
  if policy.has attempt.candidate.peerId then
    releaseCandidate acquiring policy { attempt with status := .duplicate }
  else if groupIsFull options acquiring policy attempt.candidate ||
      policy.requirementsMet options.limits acquiring.stage.allowDegradedOverflow then
    releaseCandidate acquiring policy { attempt with status := .operatorLimit }
  else if policy.active.size < options.limits.requiredReservations then
    keepReservation acquiring policy attempt reservation
  else match policy.surplus with
    | none => keepReservation acquiring policy attempt reservation
    | some surplus => dropSurplus acquiring policy attempt reservation surplus.candidate.peerId

def settleAnswer (attempt : RelayAttempt) (response : RelayReservationWireResponse) :
    WorkerSegment :=
  let attempt := { attempt with reservationStatus := some response.status }
  match decodeRelayReservationResponse response now with
  | .failed failure => .report acquiring policy { attempt with status := .failed failure }
  | .accepted expiresAtMs limit =>
    acceptReservation options acquiring policy attempt
      { candidate := attempt.candidate, expiresAtMs, limit, reservedAtMs := now }

/-- The next segment of a worker, if the event is one it waits for; the answer of a relay
comes too late once the signal is aborted. -/
def stepWorker (worker : RelayWorker) (event : WorkerEvent) : Option WorkerSegment :=
  match worker, event, call.boundedSignal with
  | .starting, .resume, _ | .fetching, .resume, _ =>
    some (fetchCandidate options call acquiring policy)
  -- The signal may have been aborted since the inspector has answered.
  | .inspecting candidate address, .inspected inspection, _ =>
    some (inspectCandidate call acquiring policy candidate address inspection)
  | .inspecting candidate address, .fails error, none =>
    some (failInspection call acquiring policy candidate address error)
  | .inspecting candidate address, .abandons, reason =>
    some (failInspection call acquiring policy candidate address (reason.getD .deadline))
  | .reserving attempt, .answers response, none =>
    some (receiveAnswer acquiring policy attempt response)
  | .reserving attempt, .fails error, none =>
    some (.report acquiring policy (failedAttempt call attempt error))
  | .reserving attempt, .abandons, reason =>
    some { WorkerSegment.report acquiring policy
        (failedAttempt call attempt (reason.getD .deadline)) with
      abandoned := [attempt.candidate] }
  | .answered attempt response, .resume, _ =>
    some (settleAnswer options now acquiring policy attempt response)
  | .releasing attempt, .released succeeded, _ =>
    some (.report acquiring (policy.settleRelease attempt.candidate succeeded)
      (if succeeded then attempt else { attempt with status := .releaseFailed }))
  | .dropping attempt reservation none, .resume, _ =>
    some (keepReservation acquiring policy attempt reservation)
  | .dropping attempt reservation (some surplus), .released succeeded, _ =>
    some (keepReservation acquiring (policy.settleRelease surplus succeeded) attempt reservation)
  | _, _, _ => none

/-- A reservation that a worker may enter: the relay has just granted it, or it waits for the
surplus one to be dropped. -/
inductive RelayWorker.Offers : RelayWorker → ActiveRelayReservation → Prop
  | answered {attempt : RelayAttempt} {response : RelayReservationWireResponse} {expiresAtMs : ℤ}
      {limit : ReservationLimit}
      (decoded : decodeRelayReservationResponse response now = .accepted expiresAtMs limit) :
      Offers (.answered attempt response)
        { candidate := attempt.candidate, expiresAtMs, limit, reservedAtMs := now }
  | dropping {attempt : RelayAttempt} {reservation : ActiveRelayReservation}
      {release : Option RelayCandidate} :
      Offers (.dropping attempt reservation release) reservation

inductive WorkerMove : RelayWorker → WorkerSegment → Prop
  /-- Neither before nor afterwards has the worker heard from a relay. -/
  | quiet {worker : RelayWorker} {segment : WorkerSegment} (before : worker.Idle)
      (after : segment.worker.Idle) (table : segment.policy.SameTable policy)
      (log : segment.log = []) : WorkerMove worker segment
  | answered {attempt : RelayAttempt} {response : RelayReservationWireResponse} :
      WorkerMove (.reserving attempt) (receiveAnswer acquiring policy attempt response)
  | refused {attempt reported : RelayAttempt} {response : RelayReservationWireResponse}
      {failure : RelayReservationFailure}
      (decoded : decodeRelayReservationResponse response now = .failed failure) :
      WorkerMove (.answered attempt response) (.report acquiring policy reported)
  | released {attempt reported : RelayAttempt} {response : RelayReservationWireResponse}
      (same : reported.candidate = attempt.candidate) :
      WorkerMove (.answered attempt response) (releaseCandidate acquiring policy reported)
  | dropped {attempt reported : RelayAttempt} {response : RelayReservationWireResponse}
      {reservation : ActiveRelayReservation} {peerId : String}
      (offers : RelayWorker.Offers now (.answered attempt response) reservation) :
      WorkerMove (.answered attempt response)
        (dropSurplus acquiring policy reported reservation peerId)
  | kept {worker : RelayWorker} {base : RelayPolicy} {reported : RelayAttempt}
      {reservation : ActiveRelayReservation} (offers : worker.Offers now reservation)
      (table : base.SameTable policy) :
      WorkerMove worker (keepReservation acquiring base reported reservation)

variable {options now call acquiring policy}

theorem WorkerMove.report {worker : RelayWorker} {base : RelayPolicy} {position : Acquiring}
    {attempt : RelayAttempt} (before : worker.Idle) (table : base.SameTable policy) :
    WorkerMove now acquiring policy worker (.report position base attempt) :=
  .quiet before trivial table rfl

theorem workerMove_attemptCandidate {worker : RelayWorker} (before : worker.Idle)
    (candidate : RelayCandidate) : WorkerMove now acquiring policy worker
      (attemptCandidate options call acquiring policy candidate) := by
  have table : ({ policy with attemptedPeerIds := policy.attemptedPeerIds.insert candidate.peerId } :
      RelayPolicy).SameTable policy := ⟨rfl, rfl, rfl⟩
  unfold attemptCandidate
  dsimp only
  split
  · exact .report before table
  · split
    · exact .report before table
    · split
      · exact .report before table
      · split
        · exact .report before table
        · exact .quiet before trivial table rfl

theorem workerMove_fetchCandidate {worker : RelayWorker} (before : worker.Idle) :
    WorkerMove now acquiring policy worker (fetchCandidate options call acquiring policy) := by
  unfold fetchCandidate
  split
  · exact .quiet before trivial ⟨rfl, rfl, rfl⟩ rfl
  · split
    · exact .quiet before trivial ⟨rfl, rfl, rfl⟩ rfl
    · exact workerMove_attemptCandidate before _

theorem workerMove_inspectCandidate (candidate : RelayCandidate) (address : String)
    (inspection : RelayInspection) :
    WorkerMove now acquiring policy (.inspecting candidate address)
      (inspectCandidate call acquiring policy candidate address inspection) := by
  unfold inspectCandidate
  dsimp only
  split
  · exact .report trivial ⟨rfl, rfl, rfl⟩
  · exact .report trivial ⟨rfl, rfl, rfl⟩
  · exact .report trivial ⟨rfl, rfl, rfl⟩
  · split
    · exact .report trivial ⟨rfl, rfl, rfl⟩
    · split
      · exact .report trivial ⟨rfl, rfl, rfl⟩
      · exact .quiet trivial trivial ⟨rfl, rfl, rfl⟩ rfl

theorem workerMove_acceptReservation {attempt reported : RelayAttempt}
    {response : RelayReservationWireResponse} {reservation : ActiveRelayReservation}
    (same : reported.candidate = attempt.candidate)
    (offers : RelayWorker.Offers now (.answered attempt response) reservation) :
    WorkerMove now acquiring policy (.answered attempt response)
      (acceptReservation options acquiring policy reported reservation) := by
  unfold acceptReservation
  split
  · exact .released same
  · split
    · exact .released same
    · split
      · exact .kept offers ⟨rfl, rfl, rfl⟩
      · split
        · exact .kept offers ⟨rfl, rfl, rfl⟩
        · exact .dropped offers

theorem workerMove_settleAnswer (attempt : RelayAttempt) (response : RelayReservationWireResponse) :
    WorkerMove now acquiring policy (.answered attempt response)
      (settleAnswer options now acquiring policy attempt response) := by
  unfold settleAnswer
  dsimp only
  split
  case h_1 failure decoded => exact .refused decoded
  case h_2 expiresAtMs limit decoded =>
      exact workerMove_acceptReservation rfl (.answered decoded)

theorem workerMove_of_stepWorker {worker : RelayWorker} {event : WorkerEvent}
    {segment : WorkerSegment}
    (stepped : stepWorker options now call acquiring policy worker event = some segment) :
    WorkerMove now acquiring policy worker segment := by
  unfold stepWorker at stepped
  split at stepped <;> cases stepped
  · exact workerMove_fetchCandidate trivial
  · exact workerMove_fetchCandidate trivial
  · exact workerMove_inspectCandidate _ _ _
  · exact .report trivial ⟨rfl, rfl, rfl⟩
  · exact .report trivial ⟨rfl, rfl, rfl⟩
  · exact .answered
  · exact .report trivial ⟨rfl, rfl, rfl⟩
  · exact .quiet trivial trivial ⟨rfl, rfl, rfl⟩ rfl
  · exact workerMove_settleAnswer _ _
  · exact .report trivial ⟨rfl, rfl, rfl⟩
  · exact .kept .dropping ⟨rfl, rfl, rfl⟩
  · exact .kept .dropping ⟨rfl, rfl, rfl⟩

theorem WorkerMove.stopped_eq {worker : RelayWorker} {segment : WorkerSegment}
    (moved : WorkerMove now acquiring policy worker segment) :
    segment.policy.stopped = policy.stopped := by
  cases moved with
  | quiet _ _ table => exact table.stopped
  | answered | refused | released => rfl
  | dropped => exact RelayPolicy.stopped_drop
  | kept _ table => exact table.stopped

end Workers

inductive RelayPhase where
  /-- `replace` drops the lost relay; if it had a reservation, its release is awaited. -/
  | replacing (release : Option RelayCandidate)
  /-- `refresh` is about to look at a reservation. -/
  | refreshing (position : ℕ) (failures : List String)
  | refreshWaiting (reservation : ActiveRelayReservation) (position : ℕ) (failures : List String)
  | refreshAnswered (reservation : ActiveRelayReservation)
      (response : RelayReservationWireResponse) (position : ℕ) (failures : List String)
  | dropping (release : Option RelayCandidate) (failures rest : List String)
  | collecting (stage : AcquireStage)
  | working (acquiring : Acquiring) (workers : List RelayWorker)
  | primaryDone (result : RelayPolicyResult)
  | fallingBack
  | returning (result : RelayPolicyResult)

inductive RelayRequest where
  | acquire
  | refresh
  | replace (peerId : String) (excludedOperatorGroup : Option String)
deriving DecidableEq

/-- What waits for its turn; `stop` waits as well, but is not counted as an operation. -/
inductive RelayQueued where
  | operation (request : RelayRequest)
  | stop
deriving DecidableEq

/-- A result, when it was returned and which relays were taken from the degraded overflow then. -/
structure RelayReturn where
  result : RelayPolicyResult
  atMs : ℤ
  degradedOverflowPeerIds : List String
deriving DecidableEq

structure RelayRun where
  policy : RelayPolicy
  now : ℤ
  queue : List RelayQueued
  running : Option (RelayCall × RelayPhase)
  /-- For every `stop` that has had its turn, the releases it waits for. -/
  stops : List (List RelayCandidate)
  hasStopped : Bool
  /-- The calls of `reserve` that were abandoned and have not been answered. -/
  abandoned : List RelayCandidate
  log : ClientLog
  returned : List RelayReturn

inductive RelayEvent where
  | tick (now : ℤ)
  | request (request : RelayRequest)
  | stop
  /-- The next in the queue has its turn; the signal may be aborted already. -/
  | turn (signal : Option RelayError)
  | abort (reason : RelayError)
  | totalDeadline
  | eligible (peerId : String)
  | collected (pool : List RelayCandidate) (attempts : List RelayAttempt)
  | resume
  | released (succeeded : Bool)
  | answers (response : RelayReservationWireResponse)
  | fails (error : RelayError)
  | abandons
  /-- The fallback answers, or its call ends with an error. -/
  | fallback (outcome : Option DnsaddrFallbackResult)
  | worker (index : ℕ) (event : WorkerEvent)
  /-- A call of `reserve` that was abandoned is answered, or rejected. -/
  | lateAnswer (index : ℕ) (response : Option RelayReservationWireResponse)
  | stopReleased (stop index : ℕ) (succeeded : Bool)
  | stopReturns (stop : ℕ)
deriving DecidableEq

def maxQueuedOperations : ℕ := 32

namespace RelayRun

def start : RelayRun where
  policy := .create
  now := 0
  queue := []
  running := none
  stops := []
  hasStopped := false
  abandoned := []
  log := []
  returned := []

section Operations

variable (options : RelayPolicyOptions) (run : RelayRun) (call : RelayCall)

def enter (phase : RelayPhase) : RelayRun := { run with running := some (call, phase) }

def result (terminal : RelayTerminal) (fallback : Option DnsaddrFallbackResult) :
    RelayPolicyResult where
  attempts := call.attempts
  fallback := fallback
  operatorGroups :=
    (run.policy.active.values.map (·.candidate.operatorGroup)).dedup.insertionSort (· ≤ ·)
  reservations := run.policy.active.values
  terminal := terminal

def finish (terminal : RelayTerminal) : RelayRun :=
  run.enter call (.returning (run.result call terminal none))

/-- `drop`, up to the answer of the client. -/
def drop (peerId : String) : RelayRun × Option RelayCandidate :=
  let (policy, release) := run.policy.drop peerId
  ({ run with
      policy
      log := run.log ++ release.toList.map fun candidate => .discharged candidate.peerId }, release)

def collectAndAcquire : RelayRun :=
  if options.hasDegradedOverflow then
    if call.signal.isSome then run.finish call .aborted
    else if run.policy.requirementsMet options.limits true then run.finish call .reserved
    else run.enter call (.collecting .primary)
  else run.enter call (.collecting .only)

/-- `acquireFromPool` creates its workers. -/
def acquireFromPool (stage : AcquireStage) (pool : List RelayCandidate) : RelayRun :=
  let pending := pool.filter fun candidate =>
    !run.policy.has candidate.peerId && !run.policy.attemptedPeerIds.contains candidate.peerId
  run.enter { call with boundedSignal := call.signal }
    (.working { stage, pending, cursor := 0 }
      (List.replicate (min options.limits.maxConcurrentReservations pending.length) .starting))

def leave (stage : AcquireStage) (terminal : RelayTerminal) : RelayRun :=
  match stage with
  | .primary => run.enter call (.primaryDone (run.result call terminal none))
  | .overflow | .only => run.finish call terminal

def endPass (stage : AcquireStage) : RelayRun :=
  if run.policy.requirementsMet options.limits stage.allowDegradedOverflow then
    run.leave call stage .reserved
  else if call.signal.isSome then run.leave call stage .aborted
  else if !stage.allowFallback || !options.hasFallback then run.leave call stage .exhausted
  else run.enter call .fallingBack

/-- `tryFallback`; an offer without an address or a future expiry is stale. -/
def tryFallback (outcome : Option DnsaddrFallbackResult) : DnsaddrFallbackResult :=
  match call.signal, outcome with
  | some _, _ => { status := .aborted }
  | none, none => { status := .timeout }
  | none, some offer =>
    if offer.status = .accepted ∧
        (offer.address = none ∨ offer.expiresAtMs.all (· ≤ run.now) = true) then
      { status := .stale }
    else offer

def endFallback (outcome : Option DnsaddrFallbackResult) : RelayRun :=
  let fallback := run.tryFallback call outcome
  let terminal : RelayTerminal := match fallback.status with
    | .aborted => .aborted
    | .accepted => .ownedFallback
    | _ => .exhausted
  run.enter call (.returning (run.result call terminal (some fallback)))

/-- `refresh` drops the next relay it has failed for, or goes on. -/
def dropNext (failures rest : List String) : RelayRun :=
  match rest with
  | peerId :: rest =>
    let (run, release) := run.drop peerId
    run.enter call (.dropping release failures rest)
  | [] =>
    if failures = [] then run.finish call .reserved
    else collectAndAcquire options
      { run with policy := { run.policy with attemptedPeerIds := failures } } call

def refreshFail (reservation : ActiveRelayReservation) (error : RelayError) (position : ℕ)
    (failures : List String) : RelayRun :=
  let status := errorStatus error call.signal.isSome
  let call := { call with
    attempts := call.attempts ++ [{ candidate := reservation.candidate, status }] }
  if status = .failed .aborted then run.finish call .aborted
  else run.enter call (.refreshing (position + 1) (failures ++ [reservation.candidate.peerId]))

/-- The body of the loop of `refresh` up to the call to the relay. -/
def refreshNext (position : ℕ) (failures : List String) : RelayRun :=
  match run.policy.active.values[position]? with
  | none => run.dropNext options call failures failures
  | some reservation =>
    if options.limits.refreshBeforeExpiryMs < reservation.expiresAtMs - run.now then
      run.enter call (.refreshing (position + 1) failures)
    else match call.signal with
      | some reason => run.refreshFail call reservation reason position failures
      | none => run.enter call (.refreshWaiting reservation position failures)

/-- The rest of the body with the relay's answer. -/
def refreshSettle (reservation : ActiveRelayReservation) (response : RelayReservationWireResponse)
    (position : ℕ) (failures : List String) : RelayRun :=
  let attempt (status : AttemptStatus) : RelayAttempt :=
    { candidate := reservation.candidate, status, reservationStatus := some response.status }
  match decodeRelayReservationResponse response run.now with
  | .failed failure =>
    run.enter { call with attempts := call.attempts ++ [attempt (.failed failure)] }
      (.refreshing (position + 1) (failures ++ [reservation.candidate.peerId]))
  | .accepted expiresAtMs limit =>
    let refreshed : ActiveRelayReservation :=
      { candidate := reservation.candidate, expiresAtMs, limit, reservedAtMs := run.now }
    enter { run with policy := run.policy.refresh refreshed }
      { call with attempts := call.attempts ++ [attempt .reserved] }
      (.refreshing (position + 1) failures)

def begin (request : RelayRequest) (signal : Option RelayError) : RelayRun :=
  match request with
  | .acquire =>
    collectAndAcquire options { run with policy := { run.policy with attemptedPeerIds := [] } }
      { signal }
  | .refresh => run.enter { signal } (.refreshing 0 [])
  | .replace peerId excludedOperatorGroup =>
    let (run, release) := run.drop peerId
    enter { run with policy := { run.policy with attemptedPeerIds := [peerId] } }
      { excludedOperatorGroup, signal } (.replacing release)

/-- `stop`, up to the answers of the clients. -/
def releaseAll : RelayRun :=
  let candidates := run.policy.active.values.map (·.candidate) ++ run.policy.pendingReleases.values
  { run with
    policy := { run.policy with active := .empty, pendingReleases := .empty }
    stops := run.stops ++ [candidates]
    log := run.log ++ candidates.map fun candidate => .discharged candidate.peerId }

def endStop (stop : ℕ) : RelayRun :=
  { run with
    policy := { RelayPolicy.create with active := run.policy.active, stopped := run.policy.stopped }
    stops := run.stops.eraseIdx stop
    hasStopped := true }

def queuedOperations : ℕ :=
  run.queue.countP (· ≠ .stop) + if run.running.isSome then 1 else 0

def takeTurn (signal : Option RelayError) : RelayRun :=
  match run.running, run.queue with
  | none, .stop :: queue => releaseAll { run with queue }
  | none, .operation request :: queue =>
    if run.policy.stopped then { run with queue }
    else begin options { run with queue } request signal
  | _, _ => run

def advanceWorker (acquiring : Acquiring) (workers : List RelayWorker) (index : ℕ)
    (event : WorkerEvent) : RelayRun :=
  match workers[index]? with
  | none => run
  | some worker =>
    match stepWorker options run.now call acquiring run.policy worker event with
    | none => run
    | some segment =>
      enter
        { run with
          policy := segment.policy
          log := run.log ++ segment.log
          abandoned := run.abandoned ++ segment.abandoned }
        { call with attempts := call.attempts ++ segment.attempts }
        (.working { acquiring with cursor := segment.cursor } (workers.set index segment.worker))

def resume (phase : RelayPhase) : RelayRun :=
  match phase with
  | .replacing none => run.collectAndAcquire options call
  | .refreshing position failures => run.refreshNext options call position failures
  | .refreshAnswered reservation response position failures =>
    run.refreshSettle call reservation response position failures
  | .dropping none failures rest => run.dropNext options call failures rest
  | .working acquiring workers =>
    if workers.all fun worker => worker matches .done then
      run.endPass options call acquiring.stage
    else run
  | .primaryDone result =>
    if run.policy.requirementsMet options.limits false || call.signal.isSome then
      run.enter call (.returning result)
    else
      enter { run with policy := { run.policy with degradedOverflowEligiblePeerIds := [] } } call
        (.collecting .overflow)
  | .returning result =>
    { run with
      running := none
      returned := run.returned ++
        [{ result, atMs := run.now, degradedOverflowPeerIds := run.policy.degradedOverflowPeerIds }] }
  | _ => run

def settleRelease (phase : RelayPhase) (succeeded : Bool) : RelayRun :=
  match phase with
  | .replacing (some candidate) =>
    collectAndAcquire options
      { run with policy := run.policy.settleRelease candidate succeeded } call
  | .dropping (some candidate) failures rest =>
    dropNext options { run with policy := run.policy.settleRelease candidate succeeded } call
      failures rest
  | _ => run

/-- The call of `refresh` is over; the relay's answer comes too late once the signal is
aborted. -/
def refreshReturns (reservation : ActiveRelayReservation) (position : ℕ)
    (failures : List String) (event : RelayEvent) : RelayRun :=
  match event, call.signal with
  | .answers response, none =>
    run.enter call (.refreshAnswered reservation response position failures)
  | .fails error, none => run.refreshFail call reservation error position failures
  | .abandons, reason =>
    run.refreshFail call reservation (reason.getD .deadline) position failures
  | _, _ => run

def stepCall (phase : RelayPhase) (event : RelayEvent) : RelayRun :=
  match event, phase with
  | .abort reason, phase => run.enter (call.abort reason) phase
  | .totalDeadline, phase => run.enter call.exceedTotal phase
  | .collected pool attempts, .collecting stage =>
    run.acquireFromPool options { call with attempts := call.attempts ++ attempts } stage pool
  | .resume, phase => run.resume options call phase
  | .released succeeded, phase => run.settleRelease options call phase succeeded
  | event, .refreshWaiting reservation position failures =>
    run.refreshReturns call reservation position failures event
  | .fallback outcome, .fallingBack => run.endFallback call outcome
  | .worker index event, .working acquiring workers =>
    run.advanceWorker options call acquiring workers index event
  | _, _ => run

/-- An abandoned call of `reserve` is over; nobody looks at the answer. -/
def settleAbandoned (index : ℕ) (response : Option RelayReservationWireResponse) : RelayRun :=
  match run.abandoned[index]? with
  | none => run
  | some candidate =>
    { run with
      abandoned := run.abandoned.eraseIdx index
      log := run.log ++ if response.any (·.status = reservationOk) then
        [.incurred candidate.peerId] else [] }

def settleStop (stop index : ℕ) (succeeded : Bool) : RelayRun :=
  match run.stops[stop]? with
  | none => run
  | some candidates =>
    match candidates[index]? with
    | none => run
    | some candidate =>
      { run with
        policy := run.policy.settleRelease candidate succeeded
        stops := run.stops.set stop (candidates.eraseIdx index) }

end Operations

/-- The workers of a pass are started one after the other, before anything else can happen to it. -/
def startsFirst (phase : RelayPhase) (event : RelayEvent) : Bool :=
  match phase with
  | .working _ workers =>
    (workers.findIdx? fun worker => worker matches .starting).any (event ≠ .worker · .resume)
  | _ => false

def step (options : RelayPolicyOptions) (run : RelayRun) (event : RelayEvent) : RelayRun :=
  match event with
  | .tick now => { run with now := max run.now now }
  | .request request =>
    if maxQueuedOperations ≤ run.queuedOperations then run
    else { run with queue := run.queue ++ [.operation request] }
  | .stop => { run with
      policy := { run.policy with stopped := true }
      queue := run.queue ++ [.stop] }
  | .turn signal => run.takeTurn options signal
  | .eligible peerId => { run with policy := { run.policy with
      degradedOverflowEligiblePeerIds :=
        run.policy.degradedOverflowEligiblePeerIds.insert peerId } }
  | .lateAnswer index response => run.settleAbandoned index response
  | .stopReleased stop index succeeded => run.settleStop stop index succeeded
  | .stopReturns stop => if run.stops[stop]? = some [] then run.endStop stop else run
  | event =>
    match run.running with
    | none => run
    | some (call, phase) =>
      if startsFirst phase event then run else run.stepCall options call phase event

def after (options : RelayPolicyOptions) (events : List RelayEvent) : RelayRun :=
  events.foldl (step options) start

end RelayRun

end TsDrp
