import TsDrp.Relay.Operations
import TsDrp.Relay.Requirements

/-!
# Workers that change the table at the same time

A worker looks at the table before it drops a surplus reservation, waits for the
release, and then enters its own reservation without looking again.  Whether an
operator keeps within its cap, and whether an `acquire` ends with at least what it
began with, is decided by what the table holds when the worker goes on.  A
`refresh` drops the relays that have refused it after it has asked all of them,
and a caller who aborts before that gets them back as active.
-/

namespace TsDrp

open InsertionMap

namespace RelayPolicy

variable {policy after : RelayPolicy} {peerId group : String}
  {reservation extra : ActiveRelayReservation}

def countIn (policy : RelayPolicy) (group : String) : ℕ :=
  policy.active.values.countP (·.candidate.operatorGroup = group)

theorem countIn_drop_le : (policy.drop peerId).1.countIn group ≤ policy.countIn group := by
  unfold drop
  split
  · exact le_rfl
  · exact (List.filter_sublist.map _).countP_le

theorem Entered.countIn_le (entered : after.Entered policy reservation) :
    after.countIn group ≤ policy.countIn group +
      if reservation.candidate.operatorGroup = group then 1 else 0 := by
  rw [countIn, entered]
  refine (countP_values_set_le _).trans (le_of_eq ?_)
  simp only [decide_eq_true_eq, countIn]

theorem countIn_refresh {old : ActiveRelayReservation}
    (found : policy.active.get reservation.candidate.peerId = some old)
    (same : reservation.candidate = old.candidate) :
    (policy.refresh reservation).countIn group = policy.countIn group := by
  have counted : ∀ values : List ActiveRelayReservation,
      values.countP (·.candidate.operatorGroup = group) =
        (values.map (·.candidate.operatorGroup)).countP (· = group) := by
    intro values
    rw [List.countP_map]
    rfl
  rw [countIn, counted, operatorGroups_refresh found same.symm, ← counted, countIn]

theorem Keyed.surplus (keyed : policy.Keyed) (found : policy.surplus = some extra) :
    policy.active.get extra.candidate.peerId = some extra ∧
      1 < policy.countIn extra.candidate.operatorGroup := by
  have crowded := List.find?_some found
  rcases mem_values.mp (List.mem_of_find?_eq_some found) with ⟨peerId, present⟩
  refine ⟨?_, of_decide_eq_true crowded⟩
  rw [keyed _ _ present]
  exact present

theorem perm_drop (found : policy.active.get peerId = some reservation) :
    policy.active.values.Perm (reservation :: (policy.drop peerId).1.active.values) := by
  rw [drop, found]
  exact (perm_delete found).map Prod.snd

theorem Entered.values_eq (entered : after.Entered policy reservation)
    (absent : policy.has reservation.candidate.peerId = false) :
    after.active.values = policy.active.values ++ [reservation] := by
  rw [has, Option.isSome_eq_false_iff, Option.isNone_iff_eq_none] at absent
  rw [values, entered, entries_set absent, List.map_append]
  rfl

def Capped (policy : RelayPolicy) (cap : ℕ) : Prop :=
  ∀ group, group ≠ "unknown" → policy.countIn group ≤ cap

namespace Capped

variable {cap : ℕ} (capped : policy.Capped cap)
include capped

theorem of_active (same : after.active = policy.active) : after.Capped cap := by
  unfold Capped countIn
  rw [same]
  exact capped

theorem drop : (policy.drop peerId).1.Capped cap :=
  fun group known => countIn_drop_le.trans (capped group known)

theorem refresh {old : ActiveRelayReservation}
    (found : policy.active.get reservation.candidate.peerId = some old)
    (same : reservation.candidate = old.candidate) : (policy.refresh reservation).Capped cap := by
  intro group known
  rw [countIn_refresh found same]
  exact capped group known

theorem entered (entered : after.Entered policy reservation)
    (room : reservation.candidate.operatorGroup = "unknown" ∨
      policy.operatorCount reservation.candidate < cap) : after.Capped cap := by
  intro group known
  refine entered.countIn_le.trans ?_
  split
  · rename_i same
    subst same
    exact room.resolve_left known
  · exact capped group known

end Capped

/-- The table of an operation that began with another one: nothing is missing but what waits to
be entered, and no group has been lost. -/
structure Holds (policy base : RelayPolicy) (waiting : ℕ) : Prop where
  size : base.active.values.length ≤ policy.active.values.length + waiting
  groups : ∀ held ∈ base.active.values, ∃ reservation ∈ policy.active.values,
    reservation.candidate.operatorGroup = held.candidate.operatorGroup

namespace Holds

variable {base : RelayPolicy} {waiting : ℕ}

theorem of_active (holds : policy.Holds base waiting) (same : after.active = policy.active) :
    after.Holds base waiting := by
  rcases holds with ⟨size, groups⟩
  rw [← same] at size groups
  exact ⟨size, groups⟩

theorem mono (holds : policy.Holds base waiting) {more : ℕ} (le : waiting ≤ more) :
    policy.Holds base more :=
  ⟨holds.size.trans (Nat.add_le_add_left le _), holds.groups⟩

theorem entered (holds : policy.Holds base (waiting + 1)) (entered : after.Entered policy reservation)
    (absent : policy.has reservation.candidate.peerId = false) : after.Holds base waiting := by
  have values := entered.values_eq absent
  refine ⟨?_, ?_⟩
  · have size := holds.size
    rw [values, List.length_append, List.length_singleton]
    omega
  · intro held mem
    rcases holds.groups held mem with ⟨other, present, same⟩
    rw [values]
    exact ⟨other, List.mem_append_left _ present, same⟩

theorem drop (holds : policy.Holds base waiting) (keyed : policy.Keyed)
    (found : policy.surplus = some extra) :
    (policy.drop extra.candidate.peerId).1.Holds base (waiting + 1) := by
  rcases keyed.surplus found with ⟨present, crowded⟩
  have perm := perm_drop present
  refine ⟨?_, ?_⟩
  · have size := holds.size
    rw [perm.length_eq, List.length_cons] at size
    omega
  · intro held mem
    rcases holds.groups held mem with ⟨other, active, same⟩
    rcases List.mem_cons.mp (perm.subset active) with rfl | left
    · rw [countIn, perm.countP_eq, List.countP_cons, if_pos (decide_eq_true rfl)] at crowded
      rcases List.countP_pos_iff.mp (Nat.lt_of_succ_lt_succ crowded) with ⟨another, left, grouped⟩
      exact ⟨another, left, (of_decide_eq_true grouped).trans same⟩
    · exact ⟨other, left, same⟩

end Holds

end RelayPolicy

namespace RelayPhase

def Listed (policy : RelayPolicy) : RelayPhase → Prop
  | .refreshWaiting reservation _ _ | .refreshAnswered reservation _ _ _ =>
    policy.active.get reservation.candidate.peerId = some reservation
  | _ => True

theorem droppers_of_over {phase : RelayPhase} (isOver : phase.Over) : phase.droppers = 0 := by
  cases phase with
  | working acquiring workers =>
    apply List.countP_eq_zero.mpr
    intro worker mem
    rw [isOver worker mem]
    exact Bool.false_ne_true
  | _ => rfl

def Renewed (peerId : String) (attempts : List RelayAttempt)
    (reservations : List ActiveRelayReservation) : Prop :=
  (∀ reservation ∈ reservations, reservation.candidate.peerId ≠ peerId) ∨
    ∃ attempt ∈ attempts, attempt.candidate.peerId = peerId ∧ attempt.status = .reserved

theorem Renewed.more {peerId : String} {attempts : List RelayAttempt}
    {reservations : List ActiveRelayReservation} {position : ℕ}
    (renewed : Renewed peerId (attempts.drop position) reservations) (later : List RelayAttempt) :
    Renewed peerId ((attempts ++ later).drop position) reservations := by
  rcases renewed with gone | ⟨attempt, mem, again⟩
  · exact Or.inl gone
  · rw [List.drop_append]
    exact Or.inr ⟨attempt, List.mem_append_left _ mem, again⟩

def Refused (peerId : String) (position : ℕ) (policy : RelayPolicy)
    (call : RelayCall) : RelayPhase → Prop
  | .refreshing _ failures | .refreshWaiting _ _ failures | .refreshAnswered _ _ _ failures =>
    peerId ∈ failures
  | .dropping _ _ rest =>
    peerId ∈ rest ∨ Renewed peerId (call.attempts.drop position) policy.active.values
  | .replacing _ => False
  | .collecting _ | .fallingBack => Renewed peerId (call.attempts.drop position) policy.active.values
  | .working _ workers => Renewed peerId (call.attempts.drop position) policy.active.values ∧
      ∀ attempt reservation release, .dropping attempt reservation release ∈ workers →
        reservation.candidate = attempt.candidate
  | .primaryDone result => Renewed peerId (call.attempts.drop position) policy.active.values ∧
      Renewed peerId (result.attempts.drop position) result.reservations
  | .returning result => Renewed peerId (result.attempts.drop position) result.reservations

section

variable {peerId : String} {position : ℕ} {policy : RelayPolicy} {call : RelayCall}
  {phase : RelayPhase} (refused : phase.Refused peerId position policy call)
include refused

theorem Refused.congr {after : RelayPolicy} (same : after.active = policy.active) :
    phase.Refused peerId position after call := by
  cases phase with
  | collecting | fallingBack | working | primaryDone | dropping =>
    unfold Refused
    rw [same]
    exact refused
  | _ => exact refused

theorem Refused.mem_failed (isRefresh : phase.Refreshes) : peerId ∈ phase.failed := by
  cases phase with
  | refreshing | refreshWaiting | refreshAnswered => exact refused
  | _ => exact isRefresh.elim

theorem Refused.renewed (isOver : phase.Over) :
    Renewed peerId (call.attempts.drop position) policy.active.values := by
  cases phase with
  | replacing => exact refused.elim
  | refreshing =>
    cases isOver
    cases refused
  | dropping _ _ rest =>
    cases rest with
    | nil => exact refused.resolve_left List.not_mem_nil
    | cons => exact isOver.elim
  | working | primaryDone => exact refused.1
  | fallingBack => exact refused
  | _ => exact isOver.elim

end

end RelayPhase

namespace RelayRun

namespace ConcurrencyExample

def limited (cap reservations groups : ℕ) : RelayPolicyOptions :=
  { LeakExample.options with
    limits := { maxPerOperatorGroup := cap, requiredReservations := reservations
                requiredOperatorGroups := groups } }

def relay (peerId operatorGroup : String) : RelayCandidate :=
  { LeakExample.relay with peerId, operatorGroup }

def pooled (pool : List RelayCandidate) : List RelayEvent :=
  [.collected pool [], .worker 0 .resume, .worker 1 .resume]

def acquire (pool : List RelayCandidate) : List RelayEvent :=
  [.request .acquire, .turn none] ++ pooled pool

def granted (index : ℕ) : List RelayEvent :=
  [.worker index (.inspected
      { outcome := .connected, hopAdvertised := true, protocols := [circuitRelayV2HopProtocol] }),
    .worker index (.answers (LeakExample.granted 10))]

def kept (index : ℕ) : List RelayEvent := granted index ++ [.worker index .resume]

def entersAlone : List RelayEvent :=
  acquire [relay "h1" "h", relay "h2" "h", relay "g" "g"] ++ kept 0 ++ kept 1 ++
    [.worker 0 .resume] ++ kept 0 ++ [.worker 0 (.released true)]

def makesRoom : List RelayEvent :=
  acquire [relay "h1" "h", relay "h2" "h", relay "g0" "g", relay "g1" "g", relay "g2" "g"] ++
    kept 0 ++ kept 1 ++ [.worker 0 .resume, .worker 1 .resume] ++ kept 0 ++ [.worker 0 .resume] ++
    granted 1 ++ granted 0 ++ [.worker 1 .resume]

def crowded : List RelayEvent :=
  acquire [relay "a1" "a", relay "a2" "a", relay "a3" "a", relay "a4" "a"] ++ kept 0 ++ kept 1 ++
    [.worker 0 .resume, .worker 1 .resume] ++ granted 0 ++ granted 1 ++
    [.worker 0 .resume, .worker 1 .resume, .worker 0 (.released true), .worker 0 .resume,
      .worker 1 .resume, .resume, .resume, .request .acquire]

def replaced : List RelayEvent :=
  pooled [relay "k" "b"] ++ kept 0 ++ [.worker 0 (.released true), .worker 0 .resume, .resume]

def refused : List RelayEvent :=
  acquire [relay "a" "a", relay "b" "b"] ++ kept 0 ++ kept 1 ++
    [.worker 0 .resume, .worker 1 .resume, .resume, .resume, .request .refresh, .turn none, .resume,
      .answers { status := 200 }]

def refreshedEntry : RelayReturn where
  result :=
    { attempts :=
        [{ candidate := relay "a" "a", status := .failed .refused, reservationStatus := some 200 },
          { candidate := relay "b" "b", status := .reserved, reservationStatus := some reservationOk }]
      fallback := none
      operatorGroups := ["b"]
      reservations := [{ candidate := relay "b" "b"
                         expiresAtMs := 20000
                         limit := { dataBytes := none, durationSeconds := none }
                         reservedAtMs := 0 }]
      terminal := .exhausted }
  atMs := 0
  degradedOverflowPeerIds := []

end ConcurrencyExample

variable {options : RelayPolicyOptions} {run next : RelayRun} {call : RelayCall}
  {phase : RelayPhase} {event : RelayEvent}

def entersLate (run : RelayRun) : RelayEvent → Option ActiveRelayReservation
  | .worker index event =>
    match run.running with
    | some (_, .working _ workers) => workers[index]?.bind (·.entersOn event)
    | _ => none
  | _ => none

/-- A worker that has waited finds room in the operator group. -/
def FindsRoom (options : RelayPolicyOptions) (run : RelayRun) (event : RelayEvent) : Prop :=
  ∀ reservation ∈ run.entersLate event, reservation.candidate.operatorGroup = "unknown" ∨
    run.policy.operatorCount reservation.candidate < options.limits.maxPerOperatorGroup

/-- A worker that has waited does not find its relay in the table. -/
def FindsNew (run : RelayRun) (event : RelayEvent) : Prop :=
  ∀ reservation ∈ run.entersLate event, run.policy.has reservation.candidate.peerId = false

instance : Decidable (run.FindsRoom options event) :=
  inferInstanceAs (Decidable (∀ reservation ∈ run.entersLate event, _ ∨ _))

instance : Decidable (run.FindsNew event) :=
  inferInstanceAs (Decidable (∀ reservation ∈ run.entersLate event, _ = _))

theorem entersLate_worker {acquiring : Acquiring} {workers : List RelayWorker} {index : ℕ}
    {worker : RelayWorker} {inner : WorkerEvent}
    (running : run.running = some (call, .working acquiring workers))
    (found : workers[index]? = some worker) :
    run.entersLate (.worker index inner) = worker.entersOn inner := by
  rw [entersLate, running]
  dsimp only
  rw [found]
  rfl

theorem hasRoom_of_not_groupIsFull {acquiring : Acquiring} {policy : RelayPolicy}
    {candidate : RelayCandidate} (room : groupIsFull options acquiring policy candidate = false) :
    candidate.operatorGroup = "unknown" ∨
      policy.operatorCount candidate < options.limits.maxPerOperatorGroup := by
  rw [groupIsFull, Bool.and_eq_false_iff, decide_eq_false_iff_not, Nat.not_le,
    Bool.not_eq_false'] at room
  rcases room with room | anonymous
  · exact Or.inr room
  · simp only [RelayPolicy.isAnonymousOverflowCandidate, Bool.and_eq_true, decide_eq_true_eq]
      at anonymous
    exact Or.inl anonymous.1.2

def Lists (run : RelayRun) : Prop :=
  ∀ call phase, run.running = some (call, phase) → phase.Listed run.policy

theorem lists_enter (listed : phase.Listed run.policy) : (run.enter call phase).Lists := by
  intro call phase running
  cases running
  exact listed

theorem CallMove.capped (moved : CallMove options run call event phase next)
    (room : run.FindsRoom options event) (running : run.running = some (call, phase))
    (keyed : run.policy.Keyed) (lists : run.Lists)
    (capped : run.policy.Capped options.limits.maxPerOperatorGroup) :
    next.Lists ∧ next.policy.Capped options.limits.maxPerOperatorGroup := by
  have listed := lists _ _ running
  cases moved with
  | stays => exact ⟨lists, capped⟩
  | signalled | hears => exact ⟨lists_enter listed, capped⟩
  | parks | fallsBack | passes | fetched | skips | fails | aborts =>
    exact ⟨lists_enter trivial, capped⟩
  | returns => exact ⟨fun _ _ idle => (nomatch idle), capped⟩
  | collects _ same | concludes _ same => exact ⟨lists_enter trivial, capped.of_active same⟩
  | asks found =>
    rcases mem_values.mp (List.mem_of_getElem? found) with ⟨peerId, present⟩
    refine ⟨lists_enter ?_, capped⟩
    change run.policy.active.get _ = _
    rw [keyed _ _ present]
    exact present
  | refreshed same => exact ⟨lists_enter trivial, capped.refresh (same ▸ listed) same⟩
  | drops _ same => exact ⟨lists_enter trivial, (capped.of_active same).drop⟩
  | worker isEvent found moved =>
    refine ⟨lists_enter trivial, ?_⟩
    cases moved with
    | quiet _ _ same => exact capped.of_active same
    | entered _ _ notFull same =>
      exact capped.entered (RelayPolicy.entered_keep same) (hasRoom_of_not_groupIsFull notFull)
    | madeRoom => exact capped.drop
    | enteredLate same =>
      rcases isEvent with ⟨inner, rfl, enters⟩
      exact capped.entered (RelayPolicy.entered_keep same)
        (room _ ((entersLate_worker running found).trans (enters rfl)))

theorem capped_step (room : run.FindsRoom options event) (keyed : run.policy.Keyed)
    (lists : run.Lists) (capped : run.policy.Capped options.limits.maxPerOperatorGroup) :
    (run.step options event).Lists ∧
      (run.step options event).policy.Capped options.limits.maxPerOperatorGroup := by
  have moved := stepMove options run event
  generalize run.step options event = next at moved
  cases moved with
  | aside active running =>
    refine ⟨?_, capped.of_active active⟩
    intro call phase found
    rw [running] at found
    have listed := lists call phase found
    cases phase with
    | refreshWaiting | refreshAnswered =>
      change next.policy.active.get _ = _
      rw [active]
      exact listed
    | _ => trivial
  | clears idle =>
    refine ⟨?_, fun _ _ => Nat.zero_le _⟩
    intro call phase running
    rw [show run.running = some (call, phase) from running] at idle
    cases idle
  | @acquires queue policy call phase _ same isPhase =>
    refine ⟨lists_enter ?_, capped.of_active same⟩
    cases phase with
    | refreshWaiting | refreshAnswered => exact isPhase.elim
    | _ => trivial
  | refreshes => exact ⟨lists_enter trivial, capped⟩
  | replaces _ same => exact ⟨lists_enter trivial, capped.drop.of_active same⟩
  | goesOn running moved => exact moved.capped room running keyed lists capped

/--
No operator but the unknown one ever has more reservations than its cap, if every worker that
has waited for a surplus reservation to be dropped finds room in the operator's group.
-/
theorem operator_groups_stay_capped (options : RelayPolicyOptions) (events : List RelayEvent)
    (room : EventRun.Guarded (step options) (FindsRoom options) start events) (group : String)
    (known : group ≠ "unknown") :
    (after options events).policy.active.values.countP (·.candidate.operatorGroup = group) ≤
      options.limits.maxPerOperatorGroup := by
  have kept : (after options events).policy.Keyed ∧ (after options events).Lists ∧
      (after options events).policy.Capped options.limits.maxPerOperatorGroup := by
    apply room.invariant fun run => run.policy.Keyed ∧ run.Lists ∧
      run.policy.Capped options.limits.maxPerOperatorGroup
    · intro run event room kept
      exact ⟨keyed_step kept.1, capped_step room kept.1 kept.2.1 kept.2.2⟩
    · exact ⟨fun _ _ found => (nomatch found), fun _ _ running => (nomatch running),
        fun _ _ => Nat.zero_le _⟩
  exact kept.2.2 group known

open ConcurrencyExample in
theorem operator_groups_stay_capped_released :
    (after (limited 2 2 2) entersAlone).policy.active.values.countP
      (·.candidate.operatorGroup = "g") ≤ (limited 2 2 2).limits.maxPerOperatorGroup :=
  operator_groups_stay_capped (limited 2 2 2) entersAlone (by decide +kernel) "g" (by decide)

open ConcurrencyExample in
/-- Another worker takes the last place of the group while the first one waits. -/
theorem operator_group_exceeds_cap :
    (after (limited 2 3 3)
      (makesRoom ++ [.worker 0 .resume, .worker 1 (.released true)])).policy.active.values.countP
        (·.candidate.operatorGroup = "g") = 3 := by
  decide +kernel

section Ground

theorem droppers_set {workers : List RelayWorker} {index : ℕ} {worker later : RelayWorker}
    (found : workers[index]? = some worker) :
    (workers.set index later).countP RelayWorker.drops + worker.drops.toNat =
      workers.countP RelayWorker.drops + later.drops.toNat := by
  rcases List.getElem?_eq_some_iff.mp found with ⟨bound, rfl⟩
  have counted := @List.boole_getElem_le_countP _ RelayWorker.drops workers index bound
  rw [List.countP_set bound, Bool.toNat, Bool.toNat, Bool.cond_eq_ite, Bool.cond_eq_ite]
  omega

theorem CallMove.holds {base : RelayPolicy} (moved : CallMove options run call event phase next)
    (new : run.FindsNew event) (keyed : run.policy.Keyed)
    (running : run.running = some (call, phase))
    (holds : phase.Acquires ∧ run.policy.Holds base phase.droppers)
    (unreturned : next.returned = run.returned) :
    ∃ later last, next.running = some (later, last) ∧
      last.Acquires ∧ next.policy.Holds base last.droppers := by
  rcases holds with ⟨acquires, holds⟩
  have ended : phase.Over → run.policy.Holds base 0 := by
    intro isOver
    rw [RelayPhase.droppers_of_over isOver] at holds
    exact holds
  cases moved with
  | stays => exact ⟨call, phase, running, acquires, holds⟩
  | signalled => exact ⟨_, phase, rfl, acquires, holds⟩
  | collects isOver same | concludes isOver same =>
    exact ⟨_, _, rfl, trivial, (ended isOver).of_active same⟩
  | parks isOver | fallsBack isOver => exact ⟨_, _, rfl, trivial, ended isOver⟩
  | passes => exact ⟨_, _, rfl, trivial, holds⟩
  | returns => exact absurd unreturned (by simp)
  | fetched =>
    refine ⟨_, _, rfl, trivial, ?_⟩
    have none : ∀ count, (List.replicate count RelayWorker.starting).countP RelayWorker.drops = 0 := by
      intro count
      rw [List.countP_replicate]
      rfl
    rw [RelayPhase.droppers, none]
    exact holds
  | skips | asks | hears | refreshed => exact acquires.elim
  | fails isRefresh | aborts isRefresh =>
    cases phase <;> first | exact acquires.elim | exact isRefresh.elim
  | drops pending =>
    rcases pending with ⟨release, rfl⟩ | ⟨position, rfl, _⟩
    · exact acquires.elim
    · exact acquires.elim
  | @worker acquiring workers index worker segment _ _ isEvent found moved =>
    refine ⟨_, _, rfl, trivial, ?_⟩
    have counted := @droppers_set _ _ _ segment.worker found
    change segment.policy.Holds base ((workers.set index segment.worker).countP _)
    change run.policy.Holds base (workers.countP _) at holds
    cases moved with
    | quiet before after same =>
      rw [before, after] at counted
      rw [show (workers.set index _).countP RelayWorker.drops = _ from counted]
      exact holds.of_active same
    | entered _ absent _ same =>
      rw [show (workers.set index _).countP RelayWorker.drops = _ from counted]
      exact (holds.mono (Nat.le_succ _)).entered (RelayPolicy.entered_keep same) absent
    | madeRoom _ surplus =>
      rw [show (workers.set index _).countP RelayWorker.drops = _ from counted]
      exact holds.drop keyed surplus
    | enteredLate same =>
      rcases isEvent with ⟨inner, rfl, enters⟩
      rw [show workers.countP RelayWorker.drops = _ from counted.symm] at holds
      exact holds.entered (RelayPolicy.entered_keep same)
        (new _ ((entersLate_worker running found).trans (enters rfl)))

theorem step_turn {request : RelayRequest} (next : run.nextRequest = some request)
    (signal : Option RelayError) : run.running = none ∧ ∃ queue,
      run.step options (.turn signal) = begin options { run with queue } request signal := by
  unfold nextRequest at next
  split at next
  · rename_i first queue idle waiting
    split at next
    · cases next
    · rename_i active
      cases next
      refine ⟨idle, queue, ?_⟩
      change run.takeTurn options signal = _
      rw [takeTurn, idle, waiting]
      exact if_neg active
  · cases next

theorem holds_of_returns {begun : RelayRun} {during : List RelayEvent} {signal : Option RelayError}
    (keyed : begun.policy.Keyed) (begins : begun.nextRequest = some .acquire)
    (new : EventRun.Guarded (step options) FindsNew (begun.step options (.turn signal)) during)
    (isRun : during.foldl (step options) (begun.step options (.turn signal)) = run)
    (unreturned : run.returned = begun.returned)
    (returns : (run.step options event).returned ≠ begun.returned) :
    (run.step options event).policy.Holds begun.policy 0 := by
  rcases step_turn begins signal with ⟨_, queue, turned⟩
  rcases @begin_acquire options { begun with queue } signal with
    ⟨policy, call, phase, entered, same, acquires⟩
  rw [turned, entered] at new isRun
  have fresh : policy.Holds begun.policy phase.droppers := by
    refine RelayPolicy.Holds.of_active ⟨Nat.le_add_right _ _, ?_⟩ same
    exact fun held mem => ⟨held, mem, rfl⟩
  rcases while_running
      (fun policy _ phase => phase.Acquires ∧ policy.Holds begun.policy phase.droppers)
      (fun _ _ _ _ same held => ⟨held.1, held.2.of_active same⟩)
      (fun _ _ _ _ _ new keyed running held moved => moved.holds new keyed running held) new
      (keyed.of_active same) rfl ⟨acquires, fresh⟩ (isRun ▸ unreturned) with
    ⟨later, ending, running, _, holds⟩
  rw [isRun] at running holds
  rcases @returned_step options run event with same | ⟨_, _, _, returning, _, ended⟩
  · exact absurd (same.trans unreturned) returns
  · cases running.symm.trans returning
    rw [ended]
    exact holds

/--
When an `acquire` returns, the table has at least as many reservations as when it began, and one
for every operator group that had one, if no worker that has waited for a surplus reservation to
be dropped finds its relay in the table.
-/
theorem acquire_keeps_ground (options : RelayPolicyOptions) (before during : List RelayEvent)
    (signal : Option RelayError) (last : RelayEvent)
    (begins : (after options before).nextRequest = some .acquire)
    (new : EventRun.Guarded (step options) FindsNew
      ((after options before).step options (.turn signal)) during)
    (unreturned : (after options (before ++ .turn signal :: during)).returned =
      (after options before).returned)
    (returns : (after options (before ++ .turn signal :: during ++ [last])).returned ≠
      (after options before).returned) :
    (after options before).policy.active.size ≤
        (after options (before ++ .turn signal :: during ++ [last])).policy.active.size ∧
      ∀ held ∈ (after options before).policy.active.values,
        ∃ reservation ∈
            (after options (before ++ .turn signal :: during ++ [last])).policy.active.values,
          reservation.candidate.operatorGroup = held.candidate.operatorGroup := by
  rw [after_append_cons_concat] at returns ⊢
  rw [after_append_cons] at unreturned
  rcases holds_of_returns (keyed_after options before) begins new rfl unreturned returns with
    ⟨size, groups⟩
  rw [values, values, List.length_map, List.length_map] at size
  exact ⟨size, groups⟩

open ConcurrencyExample in
theorem acquire_keeps_ground_crowded :
    (after (limited 3 2 2) crowded).policy.active.size ≤
      (after (limited 3 2 2) (crowded ++ .turn none :: replaced ++ [.resume])).policy.active.size :=
  (acquire_keeps_ground (limited 3 2 2) crowded replaced none .resume (by decide +kernel)
    (by decide +kernel) (by decide +kernel) (by decide +kernel)).1

open ConcurrencyExample in
/-- Two workers that were given the same relay each drop a reservation for it. -/
theorem acquire_loses_ground :
    (after (limited 3 2 2) crowded).policy.active.size = 3 ∧
      (after (limited 3 2 2) (crowded ++ .turn none :: pooled [relay "k" "b", relay "k" "b"] ++
        granted 0 ++ granted 1 ++ [.worker 0 .resume, .worker 1 .resume, .worker 0 (.released true),
          .worker 1 (.released true), .worker 0 .resume, .worker 1 .resume, .resume,
          .resume])).policy.active.size = 2 := by
  decide +kernel

end Ground

section Refusals

/-- The relay that an event makes refuse a refresh: it rejects the call, or does not answer in
time, or its answer is no reservation. -/
def refuses (run : RelayRun) (event : RelayEvent) : Option String :=
  match run.running, event with
  | some (call, .refreshWaiting reservation _ _), .fails _
  | some (call, .refreshWaiting reservation _ _), .abandons =>
    if call.signal.isSome then none else some reservation.candidate.peerId
  | some (_, .refreshAnswered reservation response _ _), .resume =>
    if (decodeRelayReservationResponse response run.now).isAccepted then none
    else some reservation.candidate.peerId
  | _, _ => none

def attempts (run : RelayRun) : List RelayAttempt := run.running.elim [] (·.1.attempts)

/-- The caller does not abort a `refresh` that has failed for a relay before it is through. -/
def GivesUpEarly (options : RelayPolicyOptions) (run : RelayRun) (_ : RelayEvent) : Prop :=
  ∀ running ∈ run.running, run.GivesUp options running.1 running.2 → running.2.failed = []

instance : Decidable (run.GivesUp options call phase) :=
  match phase with
  | .refreshWaiting _ _ _ => inferInstanceAs (Decidable (_ = true))
  | .refreshing _ _ => inferInstanceAs (Decidable (_ ∧ ∃ _ ∈ _, _ ≤ _))
  | .replacing _ | .refreshAnswered _ _ _ _ | .dropping _ _ _ | .collecting _ | .working _ _
  | .primaryDone _ | .fallingBack | .returning _ => .isFalse id

instance : Decidable (run.GivesUpEarly options event) :=
  inferInstanceAs (Decidable (∀ running ∈ run.running, _ → _ = []))

theorem renewed_entered {peerId : String} {position : ℕ} {policy after : RelayPolicy}
    {attempts : List RelayAttempt} {attempt : RelayAttempt} {reservation : ActiveRelayReservation}
    (renewed : RelayPhase.Renewed peerId (attempts.drop position) policy.active.values)
    (begun : position ≤ attempts.length) (entered : after.Entered policy reservation)
    (same : reservation.candidate = attempt.candidate) (reserved : attempt.status = .reserved) :
    RelayPhase.Renewed peerId ((attempts ++ [attempt]).drop position) after.active.values := by
  by_cases again : reservation.candidate.peerId = peerId
  · refine Or.inr ⟨attempt, ?_, same ▸ again, reserved⟩
    rw [List.drop_append_of_le_length begun]
    exact List.mem_append_right _ (List.mem_singleton_self _)
  · rcases renewed.more [attempt] with gone | later
    · refine Or.inl ?_
      intro found mem
      rcases mem_values.mp mem with ⟨other, present⟩
      rw [entered, get_set] at present
      split at present
      · cases present
        exact again
      · exact gone found (mem_values.mpr ⟨other, present⟩)
    · exact Or.inr later

theorem renewed_drop {peerId other : String} {attempts : List RelayAttempt} {policy : RelayPolicy}
    (renewed : RelayPhase.Renewed peerId attempts policy.active.values) :
    RelayPhase.Renewed peerId attempts (policy.drop other).1.active.values := by
  rcases renewed with gone | again
  · refine Or.inl ?_
    intro found mem
    rcases mem_values.mp mem with ⟨key, present⟩
    exact gone found (mem_values.mpr ⟨key, RelayPolicy.get_drop present⟩)
  · exact Or.inr again

theorem refused_worker {peerId : String} {position index : ℕ} {acquiring later : Acquiring}
    {policy : RelayPolicy} {workers : List RelayWorker} {worker : RelayWorker}
    {segment : WorkerSegment} (moved : TableMove options acquiring policy worker segment)
    (found : workers[index]? = some worker) (begun : position ≤ call.attempts.length)
    (refused : (RelayPhase.working acquiring workers).Refused peerId position policy call) :
    (RelayPhase.working later (workers.set index segment.worker)).Refused peerId position
      segment.policy { call with attempts := call.attempts ++ segment.attempts } := by
  rcases refused with ⟨renewed, waiting⟩
  have others : ∀ attempt reservation release,
      (segment.worker = .dropping attempt reservation release →
        reservation.candidate = attempt.candidate) →
      .dropping attempt reservation release ∈ workers.set index segment.worker →
      reservation.candidate = attempt.candidate := by
    intro attempt reservation release own mem
    rcases List.mem_or_eq_of_mem_set mem with old | new
    · exact waiting attempt reservation release old
    · exact own new.symm
  cases moved with
  | quiet _ after same =>
    rw [← same] at renewed
    refine ⟨renewed.more _, fun attempt reservation release => others _ _ _ ?_⟩
    intro drops
    rw [drops] at after
    cases after
  | entered candidate _ _ same =>
    exact ⟨renewed_entered renewed begun (RelayPolicy.entered_keep same) candidate rfl,
      fun _ _ _ => others _ _ _ nofun⟩
  | madeRoom candidate =>
    refine ⟨(renewed_drop renewed).more _, fun _ _ _ => others _ _ _ ?_⟩
    intro drops
    cases drops
    exact candidate
  | enteredLate same =>
    have candidate := waiting _ _ _ (List.mem_of_getElem? found)
    exact ⟨renewed_entered renewed begun (RelayPolicy.entered_keep same) candidate rfl,
      fun _ _ _ => others _ _ _ nofun⟩

theorem CallMove.refused {peerId : String} {position : ℕ}
    (moved : CallMove options run call event phase next)
    (early : run.GivesUpEarly options event) (keyed : run.policy.Keyed)
    (running : run.running = some (call, phase))
    (refused : position ≤ call.attempts.length ∧ phase.Refused peerId position run.policy call)
    (unreturned : next.returned = run.returned) :
    ∃ later last, next.running = some (later, last) ∧
      position ≤ later.attempts.length ∧ last.Refused peerId position next.policy later := by
  rcases refused with ⟨begun, refused⟩
  have more : ∀ attempts, position ≤ (call.attempts ++ attempts).length := fun attempts =>
    begun.trans (List.length_append ▸ Nat.le_add_right _ _)
  cases moved with
  | stays => exact ⟨call, phase, running, begun, refused⟩
  | signalled attempts =>
    refine ⟨_, phase, rfl, attempts ▸ begun, ?_⟩
    cases phase with
    | collecting | fallingBack | working | primaryDone | dropping =>
      unfold RelayPhase.Refused
      rw [attempts]
      exact refused
    | _ => exact refused
  | collects isOver same =>
    refine ⟨_, _, rfl, begun, ?_⟩
    have renewed := refused.renewed isOver
    rw [← same] at renewed
    exact renewed
  | concludes isOver same =>
    refine ⟨_, _, rfl, begun, ?_⟩
    have renewed := refused.renewed isOver
    rw [← same] at renewed
    exact renewed
  | parks isOver => exact ⟨_, _, rfl, begun, refused.1, refused.1⟩
  | fallsBack isOver => exact ⟨_, _, rfl, begun, refused.1⟩
  | passes => exact ⟨_, _, rfl, begun, refused.2⟩
  | returns => exact absurd unreturned (by simp)
  | fetched =>
    refine ⟨_, _, rfl, more _, refused.more _, ?_⟩
    intro attempt reservation release mem
    cases List.eq_of_mem_replicate mem
  | skips | asks | hears => exact ⟨_, _, rfl, begun, refused⟩
  | fails isRefresh =>
    exact ⟨_, _, rfl, more _, List.mem_append_left _ (refused.mem_failed isRefresh)⟩
  | aborts isRefresh givesUp =>
    have mem := refused.mem_failed isRefresh
    rw [early _ running givesUp] at mem
    cases mem
  | refreshed => exact ⟨_, _, rfl, more _, refused⟩
  | @drops _ _ other failures rest pending same =>
    refine ⟨_, _, rfl, begun, ?_⟩
    have waits : peerId ∈ other :: rest ∨
        RelayPhase.Renewed peerId (call.attempts.drop position) run.policy.active.values := by
      rcases pending with ⟨release, rfl⟩ | ⟨_, rfl, rfl⟩
      · exact refused
      · exact Or.inl refused
    rw [List.mem_cons, ← same] at waits
    rcases waits with (rfl | waits) | renewed
    · exact Or.inr (Or.inl (RelayPolicy.absent_drop (keyed.of_active same)))
    · exact Or.inl waits
    · exact Or.inr (renewed_drop renewed)
  | worker _ found moved => exact ⟨_, _, rfl, more _, refused_worker moved found begun refused⟩

theorem step_refuses {peerId : String} (refuses : run.refuses event = some peerId) :
    ∃ (call : RelayCall) (attempt : RelayAttempt) (position : ℕ) (failures : List String),
      run.attempts = call.attempts ∧ run.step options event =
        run.enter { call with attempts := call.attempts ++ [attempt] }
          (.refreshing position (failures ++ [peerId])) := by
  unfold RelayRun.refuses at refuses
  rcases running : run.running with _ | ⟨call, phase⟩
  · rw [running] at refuses
    cases event <;> cases refuses
  rw [running] at refuses
  refine ⟨call, ?_⟩
  have sofar : run.attempts = call.attempts := by
    rw [RelayRun.attempts, running]
    rfl
  suffices stepped : ∃ attempt position failures, run.step options event =
      run.enter { call with attempts := call.attempts ++ [attempt] }
        (.refreshing position (failures ++ [peerId])) by
    rcases stepped with ⟨attempt, position, failures, stepped⟩
    exact ⟨attempt, position, failures, sofar, stepped⟩
  rcases call with ⟨excluded, attempts, signal, bounded⟩
  cases phase with
  | refreshWaiting reservation position failures =>
    cases event with
    | fails error =>
      cases signal <;> cases refuses
      simp only [step, running]
      cases error <;> exact ⟨_, position + 1, failures, rfl⟩
    | abandons =>
      cases signal <;> cases refuses
      simp only [step, running]
      exact ⟨_, position + 1, failures, rfl⟩
    | _ => cases refuses
  | refreshAnswered reservation response position failures =>
    cases event with
    | resume =>
      simp only [step, running]
      change ∃ attempt later failed, run.refreshSettle _ _ _ _ _ = _
      unfold refreshSettle
      dsimp only at refuses ⊢
      cases decoded : decodeRelayReservationResponse response run.now with
      | accepted =>
        rw [decoded] at refuses
        cases refuses
      | failed =>
        rw [decoded] at refuses
        cases refuses
        exact ⟨_, position + 1, failures, rfl⟩
    | _ => cases refuses
  | _ => cases event <;> cases refuses

/--
When a `refresh` returns, a relay that has refused it is not listed as active, unless it has been
reserved again since, if the caller does not abort while `refresh` asks the other relays.
-/
theorem refused_refresh_not_listed (options : RelayPolicyOptions) (before during : List RelayEvent)
    (event last : RelayEvent) (peerId : String) (entry : RelayReturn)
    (refuses : (after options before).refuses event = some peerId)
    (early : EventRun.Guarded (step options) (GivesUpEarly options)
      ((after options before).step options event) during)
    (unreturned : (after options (before ++ event :: during)).returned =
      (after options before).returned)
    (returns : (after options (before ++ event :: during ++ [last])).returned =
      (after options before).returned ++ [entry]) :
    (∀ reservation ∈ entry.result.reservations, reservation.candidate.peerId ≠ peerId) ∨
      ∃ attempt ∈ entry.result.attempts.drop (after options before).attempts.length,
        attempt.candidate.peerId = peerId ∧ attempt.status = .reserved := by
  rw [after_append_cons_concat] at returns
  rw [after_append_cons] at unreturned
  rcases @step_refuses options _ _ _ refuses with
    ⟨call, attempt, position, failures, sofar, stepped⟩
  rw [sofar]
  rw [stepped] at early unreturned returns
  have grown : call.attempts.length ≤ (call.attempts ++ [attempt]).length :=
    List.length_append ▸ Nat.le_add_right _ _
  rcases while_running
      (fun policy later phase => call.attempts.length ≤ later.attempts.length ∧
        phase.Refused peerId call.attempts.length policy later)
      (fun _ _ _ _ same held => ⟨held.1, held.2.congr same⟩)
      (fun _ _ _ _ _ early keyed running held moved => moved.refused early keyed running held) early
      (keyed_after options before) rfl
      ⟨grown, List.mem_append_right _ (List.mem_singleton_self _)⟩ unreturned with
    ⟨later, ending, still, _, refused⟩
  rcases returning_of_returned_step unreturned returns with ⟨_, returning⟩
  cases still.symm.trans returning
  exact refused

open ConcurrencyExample in
theorem refused_refresh_not_listed_dropped :
    (∀ reservation ∈ refreshedEntry.result.reservations, reservation.candidate.peerId ≠ "a") ∨
      ∃ attempt ∈ refreshedEntry.result.attempts.drop 0,
        attempt.candidate.peerId = "a" ∧ attempt.status = .reserved :=
  refused_refresh_not_listed (limited 1 2 2) refused [.resume, .answers (LeakExample.granted 20),
      .resume, .resume, .released true, .collected [] [], .resume] .resume .resume "a" refreshedEntry
    (by decide +kernel) (by decide +kernel) (by decide +kernel) (by decide +kernel)

open ConcurrencyExample in
/-- The caller aborts while the second relay is asked, and gets the first one back as active. -/
theorem refused_refresh_listed_after_abort :
    (after (limited 1 2 2) refused).refuses .resume = some "a" ∧
      ∃ entry ∈ (after (limited 1 2 2) (refused ++ [.resume, .resume, .abort .other, .abandons,
          .resume])).returned.getLast?,
        entry.result.terminal = .aborted ∧
          (∃ reservation ∈ entry.result.reservations, reservation.candidate.peerId = "a") ∧
          ∀ attempt ∈ entry.result.attempts, attempt.status ≠ .reserved := by
  decide +kernel

end Refusals

end RelayRun

end TsDrp
