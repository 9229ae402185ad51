import TsDrp.Relay.Policy

/-!
# What happens to the reservations that relays grant

A relay that has answered `OK` holds a reservation until it is asked to release
it.  The policy answers for it through its table, or through a worker that has the
answer in hand; `stop` releases the table once nothing runs any more.  Two answers
escape: one that comes after the call was abandoned, which nobody looks at, and
one whose expiry or limits cannot be used, which is reported as a failure.
-/

namespace TsDrp

open Obligation RelayPolicy

namespace RelayWorker

def holds : RelayWorker → Option String
  | .answered attempt response =>
    if response.status = reservationOk then some attempt.candidate.peerId else none
  | .dropping _ reservation _ => some reservation.candidate.peerId
  | _ => none

theorem Idle.holds_eq_none {worker : RelayWorker} (idle : worker.Idle) : worker.holds = none := by
  cases worker with
  | answered | dropping => exact idle.elim
  | _ => rfl

theorem Offers.eq_of_holds {now : ℤ} {worker : RelayWorker} {reservation : ActiveRelayReservation}
    {peerId : String} (offers : worker.Offers now reservation)
    (held : worker.holds = some peerId) : peerId = reservation.candidate.peerId := by
  cases offers with
  | answered =>
    rw [holds] at held
    split at held
    · exact (Option.some.inj held).symm
    · cases held
  | dropping => exact (Option.some.inj held).symm

def heldBy (workers : List RelayWorker) : List String := workers.filterMap holds

variable {workers : List RelayWorker} {index : ℕ} {worker next : RelayWorker} {peerId : String}

theorem heldBy_set (found : workers[index]? = some worker)
    (held : peerId ∈ heldBy workers) :
    worker.holds = some peerId ∨ peerId ∈ heldBy (workers.set index next) := by
  rcases List.mem_filterMap.mp held with ⟨holder, mem, holds⟩
  rcases List.mem_iff_getElem?.mp mem with ⟨position, at_position⟩
  by_cases same : index = position
  · rw [same, at_position] at found
    cases found
    exact Or.inl holds
  · refine Or.inr (List.mem_filterMap.mpr ⟨holder, ?_, holds⟩)
    refine List.mem_iff_getElem?.mpr ⟨position, ?_⟩
    rw [List.getElem?_set_ne same]
    exact at_position

theorem heldBy_eq_nil (finished : (workers.all fun worker => worker matches .done) = true) :
    heldBy workers = [] := by
  rw [heldBy, List.filterMap_eq_nil_iff]
  intro worker mem
  have done := List.all_eq_true.mp finished worker mem
  cases worker with
  | done => rfl
  | _ => cases done

theorem mem_heldBy_set (found : workers[index]? = some worker)
    (holds : next.holds = some peerId) : peerId ∈ heldBy (workers.set index next) := by
  refine List.mem_filterMap.mpr ⟨next, ?_, holds⟩
  rcases List.getElem?_eq_some_iff.mp found with ⟨inside, _⟩
  exact List.mem_set inside next

end RelayWorker

/-- Every reservation that is not released is in the table or in the hands of a worker. -/
structure Accounted (policy : RelayPolicy) (log : ClientLog) (held : List String) : Prop where
  keyed : policy.Keyed
  owed : ∀ peerId, Owed log peerId → policy.has peerId = true ∨ peerId ∈ held

namespace Accounted

variable {policy after : RelayPolicy} {log : ClientLog} {held : List String}

theorem of_active (accounted : Accounted policy log held) (active : after.active = policy.active) :
    Accounted after log held := by
  refine ⟨?_, ?_⟩
  · unfold RelayPolicy.Keyed
    rw [active]
    exact accounted.keyed
  · intro peerId owed
    rw [has, active]
    exact accounted.owed peerId owed

theorem drop (accounted : Accounted policy log held) (peerId : String) :
    Accounted (policy.drop peerId).1
      (log ++ (policy.drop peerId).2.toList.map fun candidate => .discharged candidate.peerId)
      held := by
  refine ⟨accounted.keyed.drop, ?_⟩
  intro owing owed
  rcases owed_append_discharged owed with ⟨old, unreleased⟩
  rcases accounted.owed owing old with present | inHand
  · refine Or.inl (has_drop.mpr ⟨present, ?_⟩)
    rintro rfl
    rcases release_of_has_drop present with ⟨candidate, released⟩
    refine unreleased candidate ?_ (accounted.keyed.peerId_of_drop released)
    rw [released]
    exact List.mem_singleton_self _
  · exact Or.inr inHand

variable {now : ℤ} {acquiring : Acquiring} {workers : List RelayWorker} {worker : RelayWorker}
  {index : ℕ} {segment : WorkerSegment}

theorem workerMove (accounted : Accounted policy log (RelayWorker.heldBy workers))
    (found : workers[index]? = some worker)
    (usable : ∀ attempt response failure, worker = .answered attempt response →
      decodeRelayReservationResponse response now = .failed failure →
      response.status ≠ reservationOk)
    (moved : WorkerMove now acquiring policy worker segment) :
    Accounted segment.policy (log ++ segment.log)
      (RelayWorker.heldBy (workers.set index segment.worker)) := by
  -- What was in the hands of another worker still is.
  have others : ∀ peerId, Owed log peerId → policy.has peerId = true ∨
      worker.holds = some peerId ∨
      peerId ∈ RelayWorker.heldBy (workers.set index segment.worker) := by
    intro peerId owed
    rcases accounted.owed peerId owed with present | inHand
    · exact Or.inl present
    · exact Or.inr (RelayWorker.heldBy_set found inHand)
  cases moved with
  | quiet before after table log =>
    rw [log, List.append_nil]
    refine (Accounted.mk accounted.keyed ?_).of_active table.active
    intro peerId owed
    rcases others peerId owed with present | holds | inHand
    · exact Or.inl present
    · rw [before.holds_eq_none] at holds
      cases holds
    · exact Or.inr inHand
  | @answered attempt response =>
    refine ⟨accounted.keyed, ?_⟩
    intro peerId owed
    have old : Owed log peerId → policy.has peerId = true ∨ peerId ∈
        RelayWorker.heldBy (workers.set index (.answered attempt response)) := by
      intro owed
      rcases others peerId owed with present | holds | inHand
      · exact Or.inl present
      · cases holds
      · exact Or.inr inHand
    rw [receiveAnswer] at owed
    dsimp only at owed
    split at owed
    case isTrue granted =>
      rcases owed_append_incurred owed with owed | rfl
      · exact old owed
      · exact Or.inr (RelayWorker.mem_heldBy_set found (if_pos granted))
    case isFalse =>
      rw [List.append_nil] at owed
      exact old owed
  | @refused attempt reported response failure decoded =>
    refine ⟨accounted.keyed, ?_⟩
    intro peerId owed
    rw [WorkerSegment.report, List.append_nil] at owed
    rcases others peerId owed with present | holds | inHand
    · exact Or.inl present
    · rw [RelayWorker.holds, if_neg (usable _ _ _ rfl decoded)] at holds
      cases holds
    · exact Or.inr inHand
  | @released attempt reported response same =>
    refine ⟨accounted.keyed, ?_⟩
    intro peerId owed
    have owed : Owed (log ++ [reported.candidate].map fun candidate =>
        .discharged candidate.peerId) peerId := owed
    rcases owed_append_discharged owed with ⟨old, unreleased⟩
    rcases others peerId old with present | holds | inHand
    · exact Or.inl present
    · rw [RelayWorker.holds] at holds
      split at holds
      · rw [← Option.some.inj holds, ← same] at unreleased
        exact absurd rfl (unreleased _ List.mem_cons_self)
      · cases holds
    · exact Or.inr inHand
  | @dropped attempt reported response reservation dropped offers =>
    refine Accounted.drop (Accounted.mk accounted.keyed ?_) dropped
    intro peerId owed
    rcases others peerId owed with present | holds | inHand
    · exact Or.inl present
    · refine Or.inr (RelayWorker.mem_heldBy_set found ?_)
      rw [offers.eq_of_holds holds]
      rfl
    · exact Or.inr inHand
  | @kept worker base reported reservation offers table =>
    have same : base.has = policy.has := by
      funext peerId
      rw [has, table.active, has]
    have entered : RelayPolicy.Entered
        (base.keep reservation acquiring.stage.allowDegradedOverflow) base reservation := rfl
    refine ⟨(accounted.of_active table.active).keyed.entered entered, ?_⟩
    intro peerId owed
    rw [keepReservation, WorkerSegment.report, List.append_nil] at owed
    rcases others peerId owed with present | holds | inHand
    · exact Or.inl (entered.has_iff.mpr (Or.inr (same ▸ present)))
    · exact Or.inl (entered.has_iff.mpr (Or.inl (offers.eq_of_holds holds)))
    · exact Or.inr inHand

end Accounted

def RelayPhase.held : RelayPhase → List String
  | .working _ workers => RelayWorker.heldBy workers
  | _ => []

namespace RelayRun

def held (run : RelayRun) : List String :=
  match run.running with
  | none => []
  | some (_, phase) => phase.held

structure SameFrame (before after : RelayRun) : Prop where
  queue : after.queue = before.queue
  stops : after.stops = before.stops
  hasStopped : after.hasStopped = before.hasStopped
  stopped : after.policy.stopped = before.policy.stopped

structure Keeps (before after : RelayRun) : Prop extends SameFrame before after where
  accounted : Accounted before.policy before.log [] → Accounted after.policy after.log []

/-- The operation goes on, and no worker has anything in hand. -/
structure Continues (before after : RelayRun) : Prop where
  keeps : before.Keeps after
  free : after.held = []

section Steps

variable {run middle last : RelayRun} {call : RelayCall} {options : RelayPolicyOptions}

theorem Keeps.continues (first : run.Keeps middle) (second : middle.Continues last) :
    run.Continues last where
  keeps :=
    { queue := second.keeps.queue.trans first.queue
      stops := second.keeps.stops.trans first.stops
      hasStopped := second.keeps.hasStopped.trans first.hasStopped
      stopped := second.keeps.stopped.trans first.stopped
      accounted := fun accounted => second.keeps.accounted (first.accounted accounted) }
  free := second.free

theorem Continues.of_sameTable {policy : RelayPolicy}
    (continues : Continues { run with policy } last) (table : policy.SameTable run.policy) :
    run.Continues last := by
  refine Keeps.continues ?_ continues
  exact
    { queue := rfl
      stops := rfl
      hasStopped := rfl
      stopped := table.stopped
      accounted := fun accounted => accounted.of_active table.active }

theorem keeps_drop (peerId : String) : run.Keeps (run.drop peerId).1 where
  queue := rfl
  stops := rfl
  hasStopped := rfl
  stopped := stopped_drop
  accounted := fun accounted => accounted.drop peerId

theorem continues_enter {phase : RelayPhase} (free : phase.held = []) :
    run.Continues (run.enter call phase) where
  keeps :=
    { queue := rfl
      stops := rfl
      hasStopped := rfl
      stopped := rfl
      accounted := id }
  free := free

theorem continues_collectAndAcquire : run.Continues (run.collectAndAcquire options call) := by
  unfold collectAndAcquire
  split
  · split
    · exact continues_enter rfl
    · split
      · exact continues_enter rfl
      · exact continues_enter rfl
  · exact continues_enter rfl

theorem continues_acquireFromPool (stage : AcquireStage) (pool : List RelayCandidate) :
    run.Continues (run.acquireFromPool options call stage pool) := by
  apply continues_enter
  change (List.replicate _ RelayWorker.starting).filterMap RelayWorker.holds = []
  rw [List.filterMap_replicate_of_none rfl]

theorem continues_leave (stage : AcquireStage) (terminal : RelayTerminal) :
    run.Continues (run.leave call stage terminal) := by
  cases stage <;> exact continues_enter rfl

theorem continues_endPass (stage : AcquireStage) :
    run.Continues (run.endPass options call stage) := by
  unfold endPass
  split
  · exact continues_leave stage _
  · split
    · exact continues_leave stage _
    · split
      · exact continues_leave stage _
      · exact continues_enter rfl

theorem continues_dropNext (failures rest : List String) :
    run.Continues (run.dropNext options call failures rest) := by
  unfold dropNext
  split
  · exact (keeps_drop _).continues (continues_enter rfl)
  · split
    · exact continues_enter rfl
    · exact continues_collectAndAcquire.of_sameTable ⟨rfl, rfl, rfl⟩

theorem continues_refreshFail (reservation : ActiveRelayReservation) (error : RelayError)
    (position : ℕ) (failures : List String) :
    run.Continues (run.refreshFail call reservation error position failures) := by
  unfold refreshFail
  dsimp only
  split
  · exact continues_enter rfl
  · exact continues_enter rfl

theorem continues_refreshNext (position : ℕ) (failures : List String) :
    run.Continues (run.refreshNext options call position failures) := by
  unfold refreshNext
  split
  · exact continues_dropNext failures failures
  · split
    · exact continues_enter rfl
    · split
      · exact continues_refreshFail _ _ _ _
      · exact continues_enter rfl

theorem keeps_refresh (reservation : ActiveRelayReservation) :
    run.Keeps { run with policy := run.policy.refresh reservation } where
  queue := rfl
  stops := rfl
  hasStopped := rfl
  stopped := rfl
  accounted := by
    intro accounted
    have entered : (run.policy.refresh reservation).Entered run.policy reservation := rfl
    refine ⟨accounted.keyed.entered entered, ?_⟩
    intro peerId owed
    rcases accounted.owed peerId owed with present | inHand
    · exact Or.inl (entered.has_iff.mpr (Or.inr present))
    · exact Or.inr inHand

theorem continues_refreshSettle (reservation : ActiveRelayReservation)
    (response : RelayReservationWireResponse) (position : ℕ) (failures : List String) :
    run.Continues (run.refreshSettle call reservation response position failures) := by
  unfold refreshSettle
  dsimp only
  split
  · exact continues_enter rfl
  · exact (keeps_refresh _).continues (continues_enter rfl)

theorem continues_begin (request : RelayRequest) (signal : Option RelayError) :
    run.Continues (run.begin options request signal) := by
  cases request with
  | acquire => exact continues_collectAndAcquire.of_sameTable ⟨rfl, rfl, rfl⟩
  | refresh => exact continues_enter rfl
  | replace peerId excludedOperatorGroup =>
    apply (keeps_drop peerId).continues
    exact Continues.of_sameTable (continues_enter rfl) ⟨rfl, rfl, rfl⟩

/-- An event of the operation that runs loses no reservation, if it meets a condition. -/
structure Advances (used : Prop) (before after : RelayRun) : Prop
    extends SameFrame before after where
  accounted : used → Accounted before.policy before.log before.held →
    Accounted after.policy after.log after.held

variable {used : Prop}

theorem Advances.refl : Advances used run run := ⟨⟨rfl, rfl, rfl, rfl⟩, fun _ => id⟩

theorem Continues.advances (continues : run.Continues last) (free : run.held = []) :
    Advances used run last where
  toSameFrame := continues.keeps.toSameFrame
  accounted := by
    rw [free, continues.free]
    exact fun _ => continues.keeps.accounted

theorem held_of_running {phase : RelayPhase} (running : run.running = some (call, phase)) :
    run.held = phase.held := by
  rw [held, running]

def answerInHand (run : RelayRun) (index : ℕ) : Option RelayReservationWireResponse :=
  match run.running with
  | some (_, .working _ workers) =>
    match workers[index]? with
    | some (.answered _ response) => some response
    | _ => none
  | _ => none

/-- The two answers that escape do not occur: an abandoned call is not answered `OK`, and an `OK`
that a worker goes on with can be used. -/
def AnswersUsed (run : RelayRun) : RelayEvent → Prop
  | .lateAnswer _ response => ∀ answer ∈ response, answer.status ≠ reservationOk
  | .worker index .resume => ∀ response ∈ run.answerInHand index, response.status = reservationOk →
      (decodeRelayReservationResponse response run.now).isAccepted = true
  | _ => True

instance (run : RelayRun) : (event : RelayEvent) → Decidable (run.AnswersUsed event)
  | .lateAnswer _ response =>
    inferInstanceAs (Decidable (∀ answer ∈ response, answer.status ≠ reservationOk))
  | .worker index .resume =>
    inferInstanceAs (Decidable (∀ response ∈ run.answerInHand index,
      response.status = reservationOk →
        (decodeRelayReservationResponse response run.now).isAccepted = true))
  | .worker _ (.inspected _) | .worker _ (.fails _) | .worker _ .abandons
  | .worker _ (.answers _) | .worker _ (.released _) => .isTrue trivial
  | .tick _ | .request _ | .stop | .turn _ | .abort _ | .totalDeadline | .eligible _
  | .collected _ _ | .resume | .released _ | .answers _ | .fails _ | .abandons | .fallback _
  | .stopReleased _ _ _ | .stopReturns _ => .isTrue trivial

theorem advances_advanceWorker {acquiring : Acquiring} {workers : List RelayWorker} {index : ℕ}
    {event : WorkerEvent} (running : run.running = some (call, .working acquiring workers)) :
    Advances (run.AnswersUsed (.worker index event)) run
      (run.advanceWorker options call acquiring workers index event) := by
  unfold advanceWorker
  split
  · exact .refl
  · rename_i worker found
    split
    · exact .refl
    · rename_i segment stepped
      have moved := workerMove_of_stepWorker stepped
      refine ⟨⟨rfl, rfl, rfl, moved.stopped_eq⟩, ?_⟩
      rw [held_of_running running]
      intro used accounted
      refine accounted.workerMove found ?_ moved
      rintro attempt response failure rfl decoded granted
      cases event with
      | resume =>
        have inHand : run.answerInHand index = some response := by
          rw [answerInHand, running]
          dsimp only
          rw [found]
        have accepted := used response inHand granted
        rw [decoded] at accepted
        cases accepted
      | _ => cases stepped

theorem advances_resume {phase : RelayPhase} (running : run.running = some (call, phase)) :
    Advances used run (run.resume options call phase) := by
  have free := held_of_running running
  unfold resume
  split
  · exact continues_collectAndAcquire.advances free
  · exact (continues_refreshNext _ _).advances free
  · exact (continues_refreshSettle _ _ _ _).advances free
  · exact (continues_dropNext _ _).advances free
  · split
    case isTrue finished =>
      apply (continues_endPass _).advances
      rw [free]
      exact RelayWorker.heldBy_eq_nil finished
    case isFalse => exact .refl
  · split
    · exact (continues_enter rfl).advances free
    · exact Continues.advances (Continues.of_sameTable (continues_enter rfl) ⟨rfl, rfl, rfl⟩) free
  · refine ⟨⟨rfl, rfl, rfl, rfl⟩, ?_⟩
    rw [free]
    exact fun _ => id
  · exact .refl

theorem advances_settleRelease {phase : RelayPhase} {succeeded : Bool}
    (running : run.running = some (call, phase)) :
    Advances used run (run.settleRelease options call phase succeeded) := by
  have free := held_of_running running
  unfold settleRelease
  split
  · apply Continues.advances _ free
    exact continues_collectAndAcquire.of_sameTable sameTable_settleRelease
  · apply Continues.advances _ free
    exact (continues_dropNext _ _).of_sameTable sameTable_settleRelease
  · exact .refl

theorem advances_refreshReturns {reservation : ActiveRelayReservation} {position : ℕ}
    {failures : List String} {event : RelayEvent} (free : run.held = []) :
    Advances used run (run.refreshReturns call reservation position failures event) := by
  unfold refreshReturns
  split
  · exact (continues_enter rfl).advances free
  · exact (continues_refreshFail _ _ _ _).advances free
  · exact (continues_refreshFail _ _ _ _).advances free
  · exact .refl

theorem advances_reenter {phase : RelayPhase} (running : run.running = some (call, phase))
    {next : RelayCall} : Advances used run (run.enter next phase) where
  toSameFrame := ⟨rfl, rfl, rfl, rfl⟩
  accounted := by
    rw [held_of_running running]
    exact fun _ => id

theorem advances_stepCall {phase : RelayPhase} {event : RelayEvent}
    (running : run.running = some (call, phase)) :
    Advances (run.AnswersUsed event) run (run.stepCall options call phase event) := by
  unfold stepCall
  split
  · exact advances_reenter running
  · exact advances_reenter running
  · exact (continues_acquireFromPool _ _).advances (held_of_running running)
  · exact advances_resume running
  · exact advances_settleRelease running
  · exact advances_refreshReturns (held_of_running running)
  · exact (continues_enter rfl).advances (held_of_running running)
  · exact advances_advanceWorker running
  · exact .refl

structure Stopping (run : RelayRun) : Prop where
  marked : RelayQueued.stop ∈ run.queue → run.policy.stopped = true
  ended : run.stops ≠ [] ∨ run.hasStopped = true →
    run.policy.stopped = true ∧ run.running = none

theorem ne_nil_of_settled {stop : ℕ} (settled : run.stops[stop]? = some []) : run.stops ≠ [] := by
  intro none
  rw [none] at settled
  cases settled

theorem stopping_start : start.Stopping where
  marked := fun mem => nomatch mem
  ended := by
    rintro (waiting | returned)
    · exact absurd rfl waiting
    · cases returned

namespace Stopping

variable (stopping : run.Stopping)
include stopping

theorem of_frame (frame : run.SameFrame last) (running : last.running = run.running) :
    last.Stopping where
  marked := by
    rw [frame.queue, frame.stopped]
    exact stopping.marked
  ended := by
    rw [frame.stops, frame.hasStopped, frame.stopped, running]
    exact stopping.ended

theorem advance {phase : RelayPhase} (running : run.running = some (call, phase))
    (frame : run.SameFrame last) : last.Stopping where
  marked := by
    rw [frame.queue, frame.stopped]
    exact stopping.marked
  ended := by
    rw [frame.stops, frame.hasStopped]
    intro ended
    rw [(stopping.ended ended).2] at running
    cases running

theorem tail {first : RelayQueued} {queue : List RelayQueued} (queued : run.queue = first :: queue) :
    Stopping { run with queue } where
  marked := by
    intro mem
    apply stopping.marked
    rw [queued]
    exact List.mem_cons_of_mem _ mem
  ended := stopping.ended

theorem takeTurn (signal : Option RelayError) : (run.takeTurn options signal).Stopping := by
  unfold RelayRun.takeTurn
  split
  case h_1 queue idle first =>
    have stopped := stopping.marked (by rw [first]; exact List.mem_cons_self)
    exact ⟨fun _ => stopped, fun _ => ⟨stopped, idle⟩⟩
  case h_2 request queue idle first =>
    split
    case isTrue => exact stopping.tail first
    case isFalse running =>
      have continues : Continues { run with queue }
          (begin options { run with queue } request signal) := continues_begin request signal
      refine ⟨?_, ?_⟩
      · rw [continues.keeps.queue, continues.keeps.stopped]
        exact (stopping.tail first).marked
      · rw [continues.keeps.stops, continues.keeps.hasStopped]
        intro ended
        exact absurd (stopping.ended ended).1 running
  case h_3 => exact stopping

theorem settleStop (stop index : ℕ) (succeeded : Bool) :
    (run.settleStop stop index succeeded).Stopping := by
  unfold RelayRun.settleStop
  split
  · exact stopping
  · split
    · exact stopping
    · refine ⟨stopping.marked, ?_⟩
      rintro (waiting | returned)
      · exact stopping.ended (Or.inl fun none => waiting (by rw [none]; rfl))
      · exact stopping.ended (Or.inr returned)

theorem step (event : RelayEvent) : (run.step options event).Stopping := by
  unfold RelayRun.step
  split
  · exact stopping.of_frame ⟨rfl, rfl, rfl, rfl⟩ rfl
  · split
    · exact stopping
    · refine ⟨?_, stopping.ended⟩
      intro mem
      rcases List.mem_append.mp mem with old | new
      · exact stopping.marked old
      · cases List.mem_singleton.mp new
  · exact ⟨fun _ => rfl, fun ended => ⟨rfl, (stopping.ended ended).2⟩⟩
  · exact stopping.takeTurn _
  · exact stopping.of_frame ⟨rfl, rfl, rfl, rfl⟩ rfl
  · unfold settleAbandoned
    split
    · exact stopping
    · exact stopping.of_frame ⟨rfl, rfl, rfl, rfl⟩ rfl
  · exact stopping.settleStop _ _ _
  · split
    case isTrue settled => exact ⟨stopping.marked, fun _ =>
        stopping.ended (Or.inl (ne_nil_of_settled settled))⟩
    case isFalse => exact stopping
  · split
    · exact stopping
    · split
      · exact stopping
      · exact stopping.advance ‹_› (advances_stepCall ‹_›).toSameFrame

end Stopping

/-- Nothing is lost, and once a `stop` has had its turn nothing is owed. -/
structure NothingLost (run : RelayRun) : Prop where
  accounted : Accounted run.policy run.log run.held
  released : run.stops ≠ [] ∨ run.hasStopped = true → ∀ peerId, ¬Owed run.log peerId

theorem nothingLost_start : start.NothingLost where
  accounted := ⟨fun _ _ found => (nomatch found), fun _ owed => (not_owed_nil owed).elim⟩
  released := fun _ _ owed => not_owed_nil owed

namespace NothingLost

variable (lost : run.NothingLost)
include lost

theorem of_same (active : last.policy.active = run.policy.active) (log : last.log = run.log)
    (running : last.running = run.running)
    (ended : last.stops ≠ [] ∨ last.hasStopped = true →
      run.stops ≠ [] ∨ run.hasStopped = true) : last.NothingLost where
  accounted := by
    rw [log, held, running]
    exact lost.accounted.of_active active
  released := by
    rw [log]
    exact fun stopped => lost.released (ended stopped)

theorem releaseAll (idle : run.running = none) : run.releaseAll.NothingLost := by
  have nothing : ∀ peerId, ¬Owed run.releaseAll.log peerId := by
    intro peerId owed
    rcases owed_append_discharged owed with ⟨old, unreleased⟩
    rcases lost.accounted.owed peerId old with present | inHand
    · rcases Option.isSome_iff_exists.mp present with ⟨reservation, found⟩
      refine unreleased reservation.candidate ?_ (lost.accounted.keyed _ _ found)
      apply List.mem_append_left
      exact List.mem_map_of_mem (InsertionMap.mem_values.mpr ⟨peerId, found⟩)
    · rw [held, idle] at inHand
      cases inHand
  refine ⟨⟨fun _ _ found => (nomatch found), ?_⟩, fun _ => nothing⟩
  exact fun peerId owed => (nothing peerId owed).elim

theorem begin (stopping : run.Stopping) (idle : run.running = none)
    (running : ¬run.policy.stopped = true) (request : RelayRequest)
    (signal : Option RelayError) : (run.begin options request signal).NothingLost := by
  have continues : run.Continues (run.begin options request signal) :=
    continues_begin request signal
  refine ⟨?_, ?_⟩
  · rw [continues.free]
    apply continues.keeps.accounted
    have accounted := lost.accounted
    rw [held, idle] at accounted
    exact accounted
  · rw [continues.keeps.stops, continues.keeps.hasStopped]
    exact fun ended => absurd (stopping.ended ended).1 running

theorem takeTurn (stopping : run.Stopping) (signal : Option RelayError) :
    (run.takeTurn options signal).NothingLost := by
  unfold RelayRun.takeTurn
  split
  case h_1 queue idle first =>
    have tail : NothingLost { run with queue } := lost.of_same rfl rfl rfl id
    exact tail.releaseAll idle
  case h_2 request queue idle first =>
    have tail : NothingLost { run with queue } := lost.of_same rfl rfl rfl id
    split
    case isTrue => exact tail
    case isFalse running => exact tail.begin (stopping.tail first) idle running request signal
  case h_3 => exact lost

theorem settleAbandoned {index : ℕ} {response : Option RelayReservationWireResponse}
    (refused : ∀ answer ∈ response, answer.status ≠ reservationOk) :
    (run.settleAbandoned index response).NothingLost := by
  have nothing : response.any (·.status = reservationOk) = false := by
    cases response with
    | none => rfl
    | some answer => exact decide_eq_false (refused answer rfl)
  unfold RelayRun.settleAbandoned
  split
  · exact lost
  · refine lost.of_same rfl ?_ rfl id
    simp [nothing]

theorem settleStop (stop index : ℕ) (succeeded : Bool) :
    (run.settleStop stop index succeeded).NothingLost := by
  unfold RelayRun.settleStop
  split
  · exact lost
  · split
    · exact lost
    · refine lost.of_same rfl rfl rfl ?_
      simp

theorem stepCall (stopping : run.Stopping) {phase : RelayPhase} {event : RelayEvent}
    (running : run.running = some (call, phase)) (used : run.AnswersUsed event) :
    (run.stepCall options call phase event).NothingLost := by
  have advances : Advances (run.AnswersUsed event) run (run.stepCall options call phase event) :=
    advances_stepCall running
  refine ⟨advances.accounted used lost.accounted, ?_⟩
  rw [advances.stops, advances.hasStopped]
  intro ended
  rw [(stopping.ended ended).2] at running
  cases running

theorem step (stopping : run.Stopping) {event : RelayEvent} (used : run.AnswersUsed event) :
    (run.step options event).NothingLost := by
  unfold RelayRun.step
  split
  · exact lost.of_same rfl rfl rfl id
  · split
    · exact lost
    · exact lost.of_same rfl rfl rfl id
  · exact lost.of_same rfl rfl rfl id
  · exact lost.takeTurn stopping _
  · exact lost.of_same rfl rfl rfl id
  · exact lost.settleAbandoned used
  · exact lost.settleStop _ _ _
  · split
    case isTrue settled =>
      exact lost.of_same rfl rfl rfl fun _ => Or.inl (ne_nil_of_settled settled)
    case isFalse => exact lost
  · split
    · exact lost
    · split
      · exact lost
      · exact lost.stepCall stopping ‹_› used

end NothingLost

end Steps

/--
Once a `stop` has returned, every relay that has granted a reservation was asked
afterwards to release it, if no abandoned call was answered `OK` and every `OK`
could be used.
-/
theorem stop_releases_reservations (options : RelayPolicyOptions) (events : List RelayEvent)
    (used : EventRun.Guarded (step options) AnswersUsed start events)
    (stopped : (after options events).hasStopped = true) (peerId : String)
    (before rest : ClientLog)
    (granted : (after options events).log = before ++ .incurred peerId :: rest) :
    .discharged peerId ∈ rest := by
  have kept : (after options events).Stopping ∧ (after options events).NothingLost :=
    used.invariant (fun run => run.Stopping ∧ run.NothingLost)
      (fun _ event used kept => ⟨kept.1.step event, kept.2.step kept.1 used⟩)
      ⟨stopping_start, nothingLost_start⟩
  by_contra unreleased
  exact kept.2.released (Or.inr stopped) peerId ⟨before, rest, granted, unreleased⟩

namespace LeakExample

def options : RelayPolicyOptions where
  addressTransport := fun _ => some .wss
  allowed := [.wss]

def relay : RelayCandidate where
  peerId := "relay"
  operatorGroup := "a"
  addresses := ["/dns4/relay/tcp/443/wss"]

def asked : List RelayEvent :=
  [.request .acquire, .turn none, .collected [relay] [], .worker 0 .resume,
    .worker 0 (.inspected
      { outcome := .connected, hopAdvertised := true, protocols := [circuitRelayV2HopProtocol] })]

def ended : List RelayEvent :=
  [.worker 0 .resume, .resume, .resume, .stop, .turn none]

def granted (expire : ℤ) : RelayReservationWireResponse where
  status := reservationOk
  expire := some (.integer expire)

def released : List RelayEvent :=
  asked ++ [.worker 0 (.answers (granted 10)), .worker 0 .resume] ++ ended ++
    [.stopReleased 0 0 true, .stopReturns 0]

def late : RelayRun :=
  after options (asked ++ [.worker 0 .abandons] ++ ended ++
    [.stopReturns 0, .lateAnswer 0 (some (granted 10))])

def unusable : RelayRun :=
  after options (asked ++ [.worker 0 (.answers (granted 0)), .worker 0 .resume] ++ ended ++
    [.stopReturns 0])

def NothingOpen (run : RelayRun) : Prop :=
  run.hasStopped = true ∧ run.running.isNone ∧ run.abandoned = [] ∧ run.stops = []

instance (run : RelayRun) : Decidable (NothingOpen run) := inferInstanceAs (Decidable (_ ∧ _))

end LeakExample

open LeakExample in
theorem stop_releases_reservations_kept :
    (after options released).hasStopped = true ∧ ∃ rest,
      (after options released).log = .incurred "relay" :: rest ∧ .discharged "relay" ∈ rest := by
  have log : (after options released).log = [.incurred "relay", .discharged "relay"] := by
    decide +kernel
  exact ⟨by decide +kernel, _, log, stop_releases_reservations options released (by decide +kernel)
    (by decide +kernel) "relay" [] _ log⟩

open LeakExample in
/-- Both relays keep their reservations for good. -/
theorem late_and_unusable_reservations_leak :
    (NothingOpen late ∧ late.log = [.incurred "relay"]) ∧
      (NothingOpen unusable ∧ unusable.log = [.incurred "relay"]) := by
  decide +kernel

end RelayRun

end TsDrp
