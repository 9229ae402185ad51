import TsDrp.Relay.Policy

/-!
# What one event does to the table of reservations

A worker enters a reservation at once, or after a surplus one has been dropped and released;
the table may change in between.  Everything that an event can do is listed once, first for a
worker and then for the operation that runs, with what it means for the table, for the
attempts and for what the operation does next.
-/

namespace TsDrp

def RelayWorker.drops : RelayWorker → Bool
  | .dropping _ _ _ => true
  | _ => false

/-- The reservation that a worker enters because the surplus one has been dropped. -/
def RelayWorker.entersOn : RelayWorker → WorkerEvent → Option ActiveRelayReservation
  | .dropping _ reservation none, .resume => some reservation
  | .dropping _ reservation (some _), .released _ => some reservation
  | _, _ => none

inductive TableMove (options : RelayPolicyOptions) (acquiring : Acquiring) (policy : RelayPolicy) :
    RelayWorker → WorkerSegment → Prop where
  | quiet {worker : RelayWorker} {segment : WorkerSegment} (before : worker.drops = false)
      (after : segment.worker.drops = false) (same : segment.policy.active = policy.active) :
      TableMove options acquiring policy worker segment
  | entered {base : RelayPolicy} {attempt reported : RelayAttempt}
      {response : RelayReservationWireResponse} {reservation : ActiveRelayReservation}
      (candidate : reservation.candidate = reported.candidate)
      (absent : policy.has reservation.candidate.peerId = false)
      (room : groupIsFull options acquiring policy reservation.candidate = false)
      (same : base.active = policy.active) :
      TableMove options acquiring policy (.answered attempt response)
        (keepReservation acquiring base reported reservation)
  | madeRoom {attempt reported : RelayAttempt} {response : RelayReservationWireResponse}
      {reservation surplus : ActiveRelayReservation}
      (candidate : reservation.candidate = reported.candidate)
      (found : policy.surplus = some surplus) :
      TableMove options acquiring policy (.answered attempt response)
        (dropSurplus acquiring policy reported reservation surplus.candidate.peerId)
  | enteredLate {base : RelayPolicy} {attempt : RelayAttempt} {reservation : ActiveRelayReservation}
      {release : Option RelayCandidate} (same : base.active = policy.active) :
      TableMove options acquiring policy (.dropping attempt reservation release)
        (keepReservation acquiring base attempt reservation)

section Workers

variable {options : RelayPolicyOptions} {now : ℤ} {call : RelayCall} {acquiring : Acquiring}
  {policy : RelayPolicy} {worker : RelayWorker} {segment : WorkerSegment}

theorem tableMove_settleAnswer (attempt : RelayAttempt) (response : RelayReservationWireResponse) :
    TableMove options acquiring policy (.answered attempt response)
      (settleAnswer options now acquiring policy attempt response) := by
  unfold settleAnswer
  dsimp only
  split
  · exact .quiet rfl rfl rfl
  · unfold acceptReservation
    split
    · exact .quiet rfl rfl rfl
    · rename_i absent
      split
      · exact .quiet rfl rfl rfl
      · rename_i room
        rw [Bool.not_eq_true, Bool.or_eq_false_iff] at room
        have entered := fun reported reservation candidate absent room =>
          @TableMove.entered options acquiring policy policy attempt reported response reservation
            candidate absent room rfl
        split
        · exact entered _ _ rfl (Bool.eq_false_iff.mpr absent) room.1
        · split
          · exact entered _ _ rfl (Bool.eq_false_iff.mpr absent) room.1
          · exact .madeRoom rfl ‹_›

theorem WorkerMove.tableMove (moved : WorkerMove now acquiring policy worker segment)
    (idle : worker.Idle) : TableMove options acquiring policy worker segment := by
  have notDrops : ∀ worker : RelayWorker, worker.Idle → worker.drops = false := by
    intro worker idle
    cases worker with
    | dropping => exact idle.elim
    | _ => rfl
  cases moved with
  | quiet before after table => exact .quiet (notDrops _ before) (notDrops _ after) table.active
  | answered => exact .quiet rfl rfl rfl
  | refused | released | dropped => exact idle.elim
  | kept offers => cases offers <;> exact idle.elim

theorem tableMove_of_stepWorker {event : WorkerEvent}
    (stepped : stepWorker options now call acquiring policy worker event = some segment) :
    TableMove options acquiring policy worker segment := by
  have moved := workerMove_of_stepWorker stepped
  cases worker with
  | answered attempt response =>
    cases event with
    | resume =>
      cases stepped
      exact tableMove_settleAnswer attempt response
    | _ => cases stepped
  | dropping attempt reservation release =>
    cases release <;> cases event <;> cases stepped
    · exact .enteredLate rfl
    · exact .enteredLate rfl
  | _ => exact moved.tableMove trivial

theorem entersOn_of_stepWorker {event : WorkerEvent}
    (stepped : stepWorker options now call acquiring policy worker event = some segment)
    (drops : worker.drops = true) : worker.entersOn event = worker.waiting := by
  cases worker with
  | dropping attempt reservation release => cases release <;> cases event <;> first | rfl | cases stepped
  | _ => cases drops

end Workers

namespace RelayPhase

/-- The relays that a `refresh` has failed for so far. -/
def failed : RelayPhase → List String
  | .refreshing _ failures | .refreshWaiting _ _ failures | .refreshAnswered _ _ _ failures
  | .dropping _ failures _ => failures
  | _ => []

def Refreshes : RelayPhase → Prop
  | .refreshing _ _ | .refreshWaiting _ _ _ | .refreshAnswered _ _ _ _ => True
  | _ => False

def Acquires : RelayPhase → Prop
  | .refreshing _ _ | .refreshWaiting _ _ _ | .refreshAnswered _ _ _ _ | .dropping _ _ _
  | .replacing _ => False
  | _ => True

def droppers : RelayPhase → ℕ
  | .working _ workers => workers.countP RelayWorker.drops
  | _ => 0

def Over : RelayPhase → Prop
  | .replacing _ | .dropping _ _ [] | .fallingBack | .primaryDone _ => True
  | .refreshing _ failures => failures = []
  | .working _ workers => ∀ worker ∈ workers, worker = .done
  | _ => False

end RelayPhase

namespace RelayRun

/-- The caller has aborted, and `refresh` is about to give up. -/
def GivesUp (options : RelayPolicyOptions) (run : RelayRun) (call : RelayCall) : RelayPhase → Prop
  | .refreshWaiting _ _ _ => call.signal.isSome
  | .refreshing position _ => call.signal.isSome ∧
      ∃ reservation ∈ run.policy.active.values[position]?,
        reservation.expiresAtMs - run.now ≤ options.limits.refreshBeforeExpiryMs
  | _ => False

inductive CallMove (options : RelayPolicyOptions) (run : RelayRun) (call : RelayCall)
    (event : RelayEvent) : RelayPhase → RelayRun → Prop where
  | stays {phase : RelayPhase} : CallMove options run call event phase run
  | signalled {phase : RelayPhase} {later : RelayCall} (attempts : later.attempts = call.attempts) :
      CallMove options run call event phase (run.enter later phase)
  | collects {phase : RelayPhase} {policy : RelayPolicy} {stage : AcquireStage} (isOver : phase.Over)
      (same : policy.active = run.policy.active) :
      CallMove options run call event phase (enter { run with policy } call (.collecting stage))
  | concludes {phase : RelayPhase} {policy : RelayPolicy} {terminal : RelayTerminal}
      {fallback : Option DnsaddrFallbackResult} (isOver : phase.Over)
      (same : policy.active = run.policy.active) :
      CallMove options run call event phase
        (enter { run with policy } call (.returning (result { run with policy } call terminal fallback)))
  | parks {acquiring : Acquiring} {workers : List RelayWorker} {terminal : RelayTerminal}
      (isOver : (RelayPhase.working acquiring workers).Over) :
      CallMove options run call event (.working acquiring workers)
        (run.enter call (.primaryDone (run.result call terminal none)))
  | fallsBack {acquiring : Acquiring} {workers : List RelayWorker}
      (isOver : (RelayPhase.working acquiring workers).Over) :
      CallMove options run call event (.working acquiring workers) (run.enter call .fallingBack)
  | passes {result : RelayPolicyResult} :
      CallMove options run call event (.primaryDone result) (run.enter call (.returning result))
  | returns {result : RelayPolicyResult} {entry : RelayReturn} (isResult : entry.result = result) :
      CallMove options run call event (.returning result)
        { run with running := none, returned := run.returned ++ [entry] }
  | fetched {stage : AcquireStage} {pool : List RelayCandidate} {attempts : List RelayAttempt} :
      CallMove options run call event (.collecting stage)
        (run.acquireFromPool options { call with attempts := call.attempts ++ attempts } stage pool)
  | worker {acquiring : Acquiring} {workers : List RelayWorker} {index : ℕ} {worker : RelayWorker}
      {segment : WorkerSegment} {log : ClientLog} {abandoned : List RelayCandidate}
      (isEvent : ∃ inner, event = .worker index inner ∧
        (worker.drops = true → worker.entersOn inner = worker.waiting)) (found : workers[index]? = some worker)
      (moved : TableMove options acquiring run.policy worker segment) :
      CallMove options run call event (.working acquiring workers)
        (enter { run with policy := segment.policy, log, abandoned }
          { call with attempts := call.attempts ++ segment.attempts }
          (.working { acquiring with cursor := segment.cursor } (workers.set index segment.worker)))
  | skips {position : ℕ} {failures : List String} :
      CallMove options run call event (.refreshing position failures)
        (run.enter call (.refreshing (position + 1) failures))
  | asks {position : ℕ} {failures : List String} {reservation : ActiveRelayReservation}
      (found : run.policy.active.values[position]? = some reservation) :
      CallMove options run call event (.refreshing position failures)
        (run.enter call (.refreshWaiting reservation position failures))
  | hears {position : ℕ} {failures : List String} {reservation : ActiveRelayReservation}
      {response : RelayReservationWireResponse} :
      CallMove options run call event (.refreshWaiting reservation position failures)
        (run.enter call (.refreshAnswered reservation response position failures))
  | fails {phase : RelayPhase} {position : ℕ} {attempt : RelayAttempt} (isRefresh : phase.Refreshes) :
      CallMove options run call event phase
        (run.enter { call with attempts := call.attempts ++ [attempt] }
          (.refreshing position (phase.failed ++ [attempt.candidate.peerId])))
  | aborts {phase : RelayPhase} {later : RelayCall} (isRefresh : phase.Refreshes)
      (givesUp : run.GivesUp options call phase) :
      CallMove options run call event phase
        (run.enter later (.returning (run.result later .aborted none)))
  | refreshed {position : ℕ} {failures : List String} {reservation later : ActiveRelayReservation}
      {response : RelayReservationWireResponse} {attempt : RelayAttempt}
      (same : later.candidate = reservation.candidate) :
      CallMove options run call event (.refreshAnswered reservation response position failures)
        (enter { run with policy := run.policy.refresh later }
          { call with attempts := call.attempts ++ [attempt] } (.refreshing (position + 1) failures))
  | drops {phase : RelayPhase} {policy : RelayPolicy} {peerId : String} {failures rest : List String}
      (pending : (∃ release, phase = .dropping release failures (peerId :: rest)) ∨
        ∃ position, phase = .refreshing position failures ∧ failures = peerId :: rest)
      (same : policy.active = run.policy.active) :
      CallMove options run call event phase
        ((drop { run with policy } peerId).1.enter call
          (.dropping (drop { run with policy } peerId).2 failures rest))

section Moves

variable {options : RelayPolicyOptions} {run : RelayRun} {call : RelayCall} {event : RelayEvent}
  {phase : RelayPhase}

theorem callMove_collectAndAcquire {policy : RelayPolicy} (isOver : phase.Over)
    (same : policy.active = run.policy.active) :
    CallMove options run call event phase (collectAndAcquire options { run with policy } call) := by
  unfold collectAndAcquire
  split
  · split
    · exact .concludes isOver same
    · split
      · exact .concludes isOver same
      · exact .collects isOver same
  · exact .collects isOver same

theorem callMove_refreshFail {reservation : ActiveRelayReservation} {error : RelayError}
    {position : ℕ} (isRefresh : phase.Refreshes)
    (givesUp : call.signal.isSome → run.GivesUp options call phase) :
    CallMove options run call event phase
      (run.refreshFail call reservation error position phase.failed) := by
  unfold refreshFail
  dsimp only
  split
  case isTrue aborted =>
    refine .aborts isRefresh (givesUp ?_)
    cases signal : call.signal with
    | none => cases error <;> simp [signal, errorStatus, deadlineFailure] at aborted
    | some => rfl
  case isFalse => exact .fails isRefresh

theorem callMove_dropNext {policy : RelayPolicy} {failures rest : List String}
    (same : policy.active = run.policy.active)
    (isPhase : (∃ release, phase = .dropping release failures rest) ∨
      ∃ position, phase = .refreshing position failures ∧ failures = rest) :
    CallMove options run call event phase (dropNext options { run with policy } call failures rest) := by
  have isOver : rest = [] → phase.Over := by
    rintro rfl
    rcases isPhase with ⟨release, rfl⟩ | ⟨position, rfl, rfl⟩
    · trivial
    · rfl
  unfold dropNext
  split
  · exact .drops isPhase same
  · split
    · exact .concludes (isOver rfl) same
    · exact callMove_collectAndAcquire (isOver rfl) same

theorem callMove_resume : CallMove options run call event phase (run.resume options call phase) := by
  cases phase with
  | replacing release =>
    cases release with
    | none => exact callMove_collectAndAcquire trivial rfl
    | some => exact .stays
  | refreshing position failures =>
    change CallMove options run call event _ (run.refreshNext options call position failures)
    unfold refreshNext
    split
    · exact callMove_dropNext rfl (Or.inr ⟨position, rfl, rfl⟩)
    · rename_i reservation found
      split
      · exact .skips
      · rename_i due
        split
        · exact @callMove_refreshFail options run call _ (.refreshing position failures) _ _ _ trivial
            fun aborted => ⟨aborted, reservation, found, by omega⟩
        · exact .asks found
  | refreshWaiting | collecting | fallingBack => exact .stays
  | refreshAnswered reservation response position failures =>
    change CallMove options run call event _
      (run.refreshSettle call reservation response position failures)
    unfold refreshSettle
    dsimp only
    split
    · exact @CallMove.fails options run call _ (.refreshAnswered reservation response position
        failures) _ ⟨reservation.candidate, _, _, _, _, _, _⟩ trivial
    · exact .refreshed rfl
  | dropping release failures rest =>
    cases release with
    | none => exact callMove_dropNext rfl (Or.inl ⟨none, rfl⟩)
    | some => exact .stays
  | working acquiring workers =>
    change CallMove options run call event _ (if _ then _ else _)
    split
    case isTrue done =>
      have isOver : (RelayPhase.working acquiring workers).Over := by
        intro worker mem
        have isDone := List.all_eq_true.mp done worker mem
        cases worker with
        | done => rfl
        | _ => cases isDone
      have leaves : ∀ terminal, CallMove options run call event (.working acquiring workers)
          (run.leave call acquiring.stage terminal) := by
        intro terminal
        unfold leave
        split
        · exact .parks isOver
        · exact .concludes isOver rfl
        · exact .concludes isOver rfl
      unfold endPass
      split
      · exact leaves _
      · split
        · exact leaves _
        · split
          · exact leaves _
          · exact .fallsBack isOver
    case isFalse => exact .stays
  | primaryDone result =>
    change CallMove options run call event _ (if _ then _ else _)
    split
    · exact .passes
    · exact .collects trivial rfl
  | returning result => exact .returns rfl

theorem callMove_of_stepCall :
    CallMove options run call event phase (run.stepCall options call phase event) := by
  unfold stepCall
  split
  · exact .signalled rfl
  · exact .signalled rfl
  · exact .fetched
  · exact callMove_resume
  · rename_i succeeded phase
    unfold settleRelease
    split
    · exact callMove_collectAndAcquire trivial rfl
    · exact callMove_dropNext rfl (Or.inl ⟨_, rfl⟩)
    · exact .stays
  · unfold refreshReturns
    split
    · exact .hears
    · exact @callMove_refreshFail options run call _ (.refreshWaiting _ _ _) _ _ _ trivial id
    · exact @callMove_refreshFail options run call _ (.refreshWaiting _ _ _) _ _ _ trivial id
    · exact .stays
  · exact .concludes trivial rfl
  · unfold advanceWorker
    split
    · exact .stays
    · split
      · exact .stays
      · exact .worker ⟨_, rfl, entersOn_of_stepWorker ‹_›⟩ ‹_› (tableMove_of_stepWorker ‹_›)
  · exact .stays

inductive StepMove (options : RelayPolicyOptions) (run : RelayRun) (event : RelayEvent) :
    RelayRun → Prop where
  | aside {next : RelayRun} (active : next.policy.active = run.policy.active)
      (running : next.running = run.running) (returned : next.returned = run.returned) :
      StepMove options run event next
  | clears {queue : List RelayQueued} (idle : run.running = none) :
      StepMove options run event (releaseAll { run with queue })
  | acquires {queue : List RelayQueued} {policy : RelayPolicy} {call : RelayCall}
      {phase : RelayPhase} (idle : run.running = none) (same : policy.active = run.policy.active)
      (isPhase : phase.Acquires) :
      StepMove options run event (enter { run with queue, policy } call phase)
  | refreshes {queue : List RelayQueued} {call : RelayCall} (idle : run.running = none) :
      StepMove options run event (enter { run with queue } call (.refreshing 0 []))
  | replaces {queue : List RelayQueued} {policy : RelayPolicy} {peerId : String} {log : ClientLog}
      {call : RelayCall} {release : Option RelayCandidate} (idle : run.running = none)
      (same : policy.active = (run.policy.drop peerId).1.active) :
      StepMove options run event (enter { run with queue, policy, log } call (.replacing release))
  | goesOn {call : RelayCall} {phase : RelayPhase} {next : RelayRun}
      (running : run.running = some (call, phase))
      (moved : CallMove options run call event phase next) : StepMove options run event next

theorem begin_acquire (signal : Option RelayError) :
    ∃ policy call phase, begin options run .acquire signal = enter { run with policy } call phase ∧
      policy.active = run.policy.active ∧ phase.Acquires := by
  change ∃ policy call phase, collectAndAcquire options _ _ = _ ∧ _
  unfold collectAndAcquire
  split
  · split
    · exact ⟨_, _, _, rfl, rfl, trivial⟩
    · split
      · exact ⟨_, _, _, rfl, rfl, trivial⟩
      · exact ⟨_, _, _, rfl, rfl, trivial⟩
  · exact ⟨_, _, _, rfl, rfl, trivial⟩

theorem stepMove_begin {queue : List RelayQueued} {request : RelayRequest}
    {signal : Option RelayError} (idle : run.running = none) :
    StepMove options run event (begin options { run with queue } request signal) := by
  cases request with
  | acquire =>
    rcases @begin_acquire options { run with queue } signal with
      ⟨policy, call, phase, same, active, isPhase⟩
    rw [same]
    exact .acquires idle active isPhase
  | refresh => exact .refreshes idle
  | replace peerId => exact .replaces idle rfl

theorem stepMove (options : RelayPolicyOptions) (run : RelayRun) (event : RelayEvent) :
    StepMove options run event (run.step options event) := by
  unfold step
  split
  · exact .aside rfl rfl rfl
  · split
    · exact .aside rfl rfl rfl
    · exact .aside rfl rfl rfl
  · exact .aside rfl rfl rfl
  · unfold takeTurn
    split
    · exact .clears ‹_›
    · split
      · exact .aside rfl rfl rfl
      · exact stepMove_begin ‹_›
    · exact .aside rfl rfl rfl
  · exact .aside rfl rfl rfl
  · unfold settleAbandoned
    split <;> exact .aside rfl rfl rfl
  · unfold settleStop
    split
    · exact .aside rfl rfl rfl
    · split <;> exact .aside rfl rfl rfl
  · split <;> exact .aside rfl rfl rfl
  · split
    · exact .aside rfl rfl rfl
    · split
      · exact .aside rfl rfl rfl
      · exact .goesOn ‹_› callMove_of_stepCall

theorem CallMove.keyed {next : RelayRun} (moved : CallMove options run call event phase next)
    (keyed : run.policy.Keyed) : next.policy.Keyed := by
  cases moved with
  | stays | signalled | parks | fallsBack | passes | returns | fetched | skips | asks | hears | fails
  | aborts => exact keyed
  | collects _ same | concludes _ same => exact keyed.of_active same
  | refreshed => exact keyed.entered rfl
  | drops _ same => exact (keyed.of_active same).drop
  | worker _ _ moved =>
    cases moved with
    | quiet _ _ same => exact keyed.of_active same
    | entered _ _ _ same => exact keyed.entered (RelayPolicy.entered_keep same)
    | madeRoom => exact keyed.drop
    | enteredLate same => exact keyed.entered (RelayPolicy.entered_keep same)

theorem keyed_step (keyed : run.policy.Keyed) : (run.step options event).policy.Keyed := by
  have moved := stepMove options run event
  generalize run.step options event = next at moved
  cases moved with
  | aside same => exact keyed.of_active same
  | clears => exact fun _ _ found => (nomatch found)
  | acquires _ same => exact keyed.of_active same
  | refreshes => exact keyed
  | replaces _ same => exact keyed.drop.of_active same
  | goesOn _ moved => exact moved.keyed keyed

theorem keyed_foldl (events : List RelayEvent) (keyed : run.policy.Keyed) :
    (events.foldl (step options) run).policy.Keyed := by
  induction events generalizing run with
  | nil => exact keyed
  | cons event events ih => exact ih (keyed_step keyed)

theorem keyed_after (options : RelayPolicyOptions) (events : List RelayEvent) :
    (after options events).policy.Keyed :=
  keyed_foldl events fun _ _ found => nomatch found

theorem after_append_cons (before during : List RelayEvent) (event : RelayEvent) :
    after options (before ++ event :: during) =
      during.foldl (step options) ((after options before).step options event) :=
  List.foldl_append

theorem after_append_cons_concat (before during : List RelayEvent) (event last : RelayEvent) :
    after options (before ++ event :: during ++ [last]) =
      (during.foldl (step options) ((after options before).step options event)).step options last := by
  rw [← after_append_cons]
  exact List.foldl_append

theorem returned_step : (run.step options event).returned = run.returned ∨
    ∃ call result entry, run.running = some (call, .returning result) ∧ entry.result = result ∧
      run.step options event = { run with running := none, returned := run.returned ++ [entry] } := by
  have moved := stepMove options run event
  generalize run.step options event = next at moved
  cases moved with
  | aside _ _ same => exact Or.inl same
  | clears | acquires | refreshes | replaces => exact Or.inl rfl
  | goesOn running moved =>
    cases moved with
    | returns isResult => exact Or.inr ⟨_, _, _, running, isResult, rfl⟩
    | _ => exact Or.inl rfl

theorem returning_of_returned_step {before : List RelayReturn} {entry : RelayReturn}
    (unreturned : run.returned = before)
    (returns : (run.step options event).returned = before ++ [entry]) :
    ∃ call, run.running = some (call, .returning entry.result) := by
  subst unreturned
  rcases @returned_step options run event with same | ⟨call, _, found, returning, rfl, ended⟩
  · exact absurd (same.symm.trans returns) (by simp)
  · rw [ended] at returns
    cases List.append_cancel_left returns
    exact ⟨call, returning⟩

theorem returned_extends (events : List RelayEvent) :
    run.returned <+: (events.foldl (step options) run).returned := by
  induction events generalizing run with
  | nil => exact List.prefix_rfl
  | cons event events ih =>
    refine List.IsPrefix.trans ?_ ih
    rcases @returned_step options run event with same | ⟨_, _, _, _, _, same⟩
    · rw [same]
    · rw [same]
      exact List.prefix_append _ _

theorem while_running {guard : RelayRun → RelayEvent → Prop}
    (property : RelayPolicy → RelayCall → RelayPhase → Prop)
    (congr : ∀ policy other call phase, other.active = policy.active →
      property policy call phase → property other call phase)
    (goesOn : ∀ run event call phase next, guard run event → run.policy.Keyed →
      run.running = some (call, phase) → property run.policy call phase →
      CallMove options run call event phase next → next.returned = run.returned →
      ∃ later last, next.running = some (later, last) ∧ property next.policy later last)
    {events : List RelayEvent} (guarded : EventRun.Guarded (step options) guard run events)
    (keyed : run.policy.Keyed) (running : run.running = some (call, phase))
    (holds : property run.policy call phase)
    (unreturned : (events.foldl (step options) run).returned = run.returned) :
    ∃ later last, (events.foldl (step options) run).running = some (later, last) ∧
      property (events.foldl (step options) run).policy later last := by
  induction events generalizing run call phase with
  | nil => exact ⟨call, phase, running, holds⟩
  | cons event events ih =>
    rw [List.foldl_cons] at unreturned ⊢
    have same : (run.step options event).returned = run.returned := by
      have first := @returned_extends options run [event]
      have rest := @returned_extends options (run.step options event) events
      rw [unreturned] at rest
      exact (first.eq_of_length (le_antisymm first.length_le rest.length_le)).symm
    have goes : ∃ later last, (run.step options event).running = some (later, last) ∧
        property (run.step options event).policy later last := by
      have moved := stepMove options run event
      generalize run.step options event = next at same moved
      have busy : run.running ≠ none := by simp [running]
      cases moved with
      | aside active still =>
        exact ⟨call, phase, still.trans running, congr _ _ _ _ active holds⟩
      | clears idle | acquires idle | refreshes idle | replaces idle => exact (busy idle).elim
      | goesOn still moved =>
        cases running.symm.trans still
        exact goesOn _ _ _ _ _ guarded.1 keyed running holds moved same
    rcases goes with ⟨later, last, running, holds⟩
    exact ih guarded.2 (keyed_step keyed) running holds (unreturned.trans same.symm)

end Moves

end RelayRun

end TsDrp
