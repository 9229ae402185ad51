import TsDrp.Relay.Leaks

/-!
# What a result `reserved` promises

The table is large enough, its relays belong to enough known operators or one of
them comes from the degraded overflow, and no reservation has expired.  The
passes over a pool look at the first two when they end.  Only `refresh` looks at
the expiry of an entry that is already in the table, and one that has nothing to
refresh looks at nothing else, so that the promise is kept when the entries that
an operation does not renew or drop stay alive while it runs and `refresh` starts
from a table that is good enough.
-/

namespace TsDrp

open InsertionMap

namespace RelayPolicy

def Live (policy : RelayPolicy) (now : ℤ) : Prop :=
  ∀ reservation ∈ policy.active.values, now < reservation.expiresAtMs

instance (policy : RelayPolicy) (now : ℤ) : Decidable (policy.Live now) :=
  inferInstanceAs (Decidable (∀ reservation ∈ policy.active.values, now < reservation.expiresAtMs))

variable {policy after : RelayPolicy} {limits : RelayPolicyLimits} {now : ℤ} {peerId : String}
  {reservation old : ActiveRelayReservation} {allowDegradedOverflow : Bool}

theorem Live.drop (live : policy.Live now) : (policy.drop peerId).1.Live now := by
  intro found mem
  rcases mem_values.mp mem with ⟨other, present⟩
  exact live found (mem_values.mpr ⟨other, get_drop present⟩)

theorem absent_drop (keyed : policy.Keyed) :
    ∀ found ∈ (policy.drop peerId).1.active.values, found.candidate.peerId ≠ peerId := by
  intro found mem
  rcases mem_values.mp mem with ⟨key, present⟩
  have dropped : (policy.drop peerId).1.has key = true :=
    Option.isSome_iff_exists.mpr ⟨found, present⟩
  rw [keyed _ _ (get_drop present)]
  exact (has_drop.mp dropped).2

theorem Live.entered (live : policy.Live now) (entered : after.Entered policy reservation)
    (unexpired : now < reservation.expiresAtMs) : after.Live now := by
  intro found mem
  rcases mem_values.mp mem with ⟨other, present⟩
  rw [entered, get_set] at present
  split at present
  · cases present
    exact unexpired
  · exact live found (mem_values.mpr ⟨other, present⟩)

theorem requirementsMet_true (met : policy.requirementsMet limits allowDegradedOverflow = true) :
    policy.requirementsMet limits true = true := by
  cases allowDegradedOverflow with
  | true => exact met
  | false =>
    unfold requirementsMet at met ⊢
    split at met
    · cases met
    · rename_i enough
      rw [if_neg enough]
      rw [Bool.false_and, Bool.or_false] at met
      rw [met, Bool.true_or]

theorem requirementsMet_congr (active : after.active = policy.active)
    (degraded : after.degradedOverflowPeerIds = policy.degradedOverflowPeerIds) :
    after.requirementsMet limits true = policy.requirementsMet limits true := by
  have same : after.has = policy.has := by
    funext peerId
    rw [has, active, has]
  rw [requirementsMet, active, degraded, same, requirementsMet]

theorem operatorGroups_refresh (found : policy.active.get reservation.candidate.peerId = some old)
    (same : old.candidate = reservation.candidate) :
    (policy.refresh reservation).active.values.map (·.candidate.operatorGroup) =
      policy.active.values.map (·.candidate.operatorGroup) :=
  map_values_set found (by rw [same])

theorem requirementsMet_refresh (found : policy.active.get reservation.candidate.peerId = some old)
    (same : old.candidate = reservation.candidate) :
    (policy.refresh reservation).requirementsMet limits true =
      policy.requirementsMet limits true := by
  have size : (policy.refresh reservation).active.size = policy.active.size := by
    change (policy.active.set _ _).size = _
    rw [size_set, found, if_neg (Option.some_ne_none _), Nat.add_zero]
  have groups : knownGroups (policy.refresh reservation).active.values =
      knownGroups policy.active.values := by
    rw [knownGroups, operatorGroups_refresh found same, knownGroups]
  have present : (policy.refresh reservation).has = policy.has := by
    funext peerId
    have entered : (policy.refresh reservation).Entered policy reservation := rfl
    rw [Bool.eq_iff_iff, entered.has_iff]
    constructor
    · rintro (rfl | old)
      · rw [has, found]
        rfl
      · exact old
    · exact Or.inr
  unfold requirementsMet
  rw [size, groups, present]
  rfl

end RelayPolicy

/-- The requirements of the policy hold for a list of reservations. -/
structure RelayReturn.MeetsRequirements (returned : RelayReturn) (limits : RelayPolicyLimits) :
    Prop where
  unexpired : ∀ reservation ∈ returned.result.reservations,
    returned.atMs < reservation.expiresAtMs
  enough : limits.requiredReservations ≤ returned.result.reservations.length
  diverse : limits.requiredOperatorGroups ≤
      (RelayPolicy.knownGroups returned.result.reservations).length ∨
    ∃ reservation ∈ returned.result.reservations,
      reservation.candidate.peerId ∈ returned.degradedOverflowPeerIds

theorem RelayPolicy.meetsRequirements {policy : RelayPolicy} {limits : RelayPolicyLimits} {now : ℤ}
    (keyed : policy.Keyed) (live : policy.Live now)
    (met : policy.requirementsMet limits true = true) {result : RelayPolicyResult}
    (same : result.reservations = policy.active.values) :
    RelayReturn.MeetsRequirements
      { result, atMs := now, degradedOverflowPeerIds := policy.degradedOverflowPeerIds } limits := by
  unfold RelayPolicy.requirementsMet at met
  split at met
  · cases met
  · rename_i enough
    refine ⟨?_, ?_, ?_⟩
    · dsimp only
      rw [same]
      exact live
    · dsimp only
      rw [same, values, List.length_map]
      exact Nat.le_of_not_lt enough
    · dsimp only
      rw [same]
      rw [Bool.true_and, Bool.or_eq_true, decide_eq_true_eq, List.any_eq_true] at met
      rcases met with known | ⟨peerId, degraded, present⟩
      · exact Or.inl known
      · rcases Option.isSome_iff_exists.mp present with ⟨reservation, found⟩
        refine Or.inr ⟨reservation, mem_values.mpr ⟨peerId, found⟩, ?_⟩
        rw [keyed _ _ found]
        exact degraded

def RelayPolicy.peerIds (policy : RelayPolicy) : List String :=
  policy.active.values.map (·.candidate.peerId)

/-- The relays that the operation has still to renew or to drop, or does not answer for. -/
def RelayPhase.excused (policy : RelayPolicy) : RelayPhase → List String
  | .refreshing position failures | .refreshWaiting _ position failures
  | .refreshAnswered _ _ position failures => failures ++ policy.peerIds.drop position
  | .dropping _ _ rest => rest
  | .returning result => if result.terminal = .reserved then [] else policy.peerIds
  | _ => []

def RelayPhase.Live (policy : RelayPolicy) (now : ℤ) (phase : RelayPhase) : Prop :=
  ∀ reservation ∈ policy.active.values,
    reservation.candidate.peerId ∈ phase.excused policy ∨ now < reservation.expiresAtMs

theorem RelayPhase.Live.congr {policy after : RelayPolicy} {now : ℤ} {phase : RelayPhase}
    (live : phase.Live policy now) (active : after.active = policy.active) : phase.Live after now := by
  have same : phase.excused after = phase.excused policy := by
    cases phase <;> simp only [excused, RelayPolicy.peerIds, active]
  rw [Live, active, same]
  exact live

def RelayPhase.waiting : RelayPhase → List ActiveRelayReservation
  | .working _ workers => workers.filterMap RelayWorker.waiting
  | _ => []

/-- What is known in a phase when the entries of the table stay alive. -/
def RelayPhase.Sound (limits : RelayPolicyLimits) (policy : RelayPolicy) (now : ℤ) :
    RelayPhase → Prop
  | .refreshing _ failures => failures = [] → policy.requirementsMet limits true = true
  | .refreshWaiting reservation position failures | .refreshAnswered reservation _ position failures =>
    policy.active.values[position]? = some reservation ∧
      (failures = [] → policy.requirementsMet limits true = true)
  | .dropping _ failures _ => failures ≠ []
  | .working _ workers =>
    ∀ reservation ∈ workers.filterMap RelayWorker.waiting, now < reservation.expiresAtMs
  | .primaryDone result | .returning result => result.terminal = .reserved →
      result.reservations = policy.active.values ∧ policy.requirementsMet limits true = true
  | .replacing _ | .collecting _ | .fallingBack => True

section

variable {limits : RelayPolicyLimits} {policy : RelayPolicy} {now : ℤ} {phase : RelayPhase}
  (sound : phase.Sound limits policy now)
include sound

theorem RelayPhase.Sound.congr {after : RelayPolicy} (active : after.active = policy.active)
    (degraded : after.degradedOverflowPeerIds = policy.degradedOverflowPeerIds) :
    phase.Sound limits after now := by
  cases phase with
  | replacing | collecting | fallingBack => trivial
  | dropping | working => exact sound
  | refreshing | refreshWaiting | refreshAnswered | primaryDone | returning =>
    simpa only [Sound, active, RelayPolicy.requirementsMet_congr active degraded] using sound

theorem RelayPhase.Sound.tick {later : ℤ}
    (waiting : ∀ reservation ∈ phase.waiting, later < reservation.expiresAtMs) :
    phase.Sound limits policy later := by
  cases phase with
  | working => exact waiting
  | _ => exact sound

end

namespace RelayRun

structure Kept (options : RelayPolicyOptions) (run : RelayRun) : Prop where
  keyed : run.policy.Keyed
  returned : ∀ entry ∈ run.returned, entry.result.terminal = .reserved →
    entry.MeetsRequirements options.limits

/-- Between two events of an operation that answers for the whole table. -/
structure Ready (options : RelayPolicyOptions) (run : RelayRun) : Prop extends Kept options run where
  live : run.policy.Live run.now

/-- Between two events of a `refresh` that has come to this position. -/
structure Renewing (options : RelayPolicyOptions) (run : RelayRun) (position : ℕ)
    (failures : List String) : Prop extends Kept options run where
  live : (RelayPhase.refreshing position failures).Live run.policy run.now
  met : failures = [] → run.policy.requirementsMet options.limits true = true

structure Upheld (options : RelayPolicyOptions) (run : RelayRun) : Prop extends Kept options run where
  running : ∀ call phase, run.running = some (call, phase) →
    phase.Live run.policy run.now ∧ phase.Sound options.limits run.policy run.now

section Steps

variable {run : RelayRun} {call : RelayCall} {options : RelayPolicyOptions}

theorem Upheld.ready (upheld : run.Upheld options) {phase : RelayPhase}
    (running : run.running = some (call, phase))
    (strict : phase.excused run.policy = []) : run.Ready options where
  toKept := upheld.toKept
  live := by
    have live := (upheld.running call phase running).1
    simpa only [RelayPhase.Live, RelayPolicy.Live, strict, List.not_mem_nil, false_or] using live

namespace Kept

variable (kept : run.Kept options)
include kept

theorem enter {phase : RelayPhase} (live : phase.Live run.policy run.now)
    (sound : phase.Sound options.limits run.policy run.now) :
    (run.enter call phase).Upheld options where
  toKept := ⟨kept.keyed, kept.returned⟩
  running := by
    intro entered phase running
    cases running
    exact ⟨live, sound⟩

theorem sameTable {policy : RelayPolicy} (table : policy.SameTable run.policy) :
    Kept options { run with policy } where
  keyed := by
    unfold RelayPolicy.Keyed
    dsimp only
    rw [table.active]
    exact kept.keyed
  returned := kept.returned

theorem finish_aborted : (run.finish call .aborted).Upheld options := by
  apply kept.enter
  · exact fun _ mem => Or.inl (List.mem_map_of_mem mem)
  · exact fun reserved => nomatch reserved

end Kept

namespace Ready

variable (ready : run.Ready options)
include ready

theorem enter {phase : RelayPhase} (sound : phase.Sound options.limits run.policy run.now) :
    (run.enter call phase).Upheld options :=
  ready.toKept.enter (fun reservation mem => Or.inr (ready.live reservation mem)) sound

theorem sameTable {policy : RelayPolicy} (table : policy.SameTable run.policy) :
    Ready options { run with policy } where
  toKept := ready.toKept.sameTable table
  live := by
    unfold RelayPolicy.Live
    dsimp only
    rw [table.active]
    exact ready.live

theorem finish {terminal : RelayTerminal}
    (met : terminal = .reserved → run.policy.requirementsMet options.limits true = true) :
    (run.finish call terminal).Upheld options :=
  ready.enter fun reserved => ⟨rfl, met reserved⟩

theorem collectAndAcquire : (run.collectAndAcquire options call).Upheld options := by
  unfold RelayRun.collectAndAcquire
  split
  · split
    · exact ready.finish (fun reserved => nomatch reserved)
    · split
      case isTrue met => exact ready.finish fun _ => met
      case isFalse => exact ready.enter trivial
  · exact ready.enter trivial

theorem acquireFromPool (stage : AcquireStage) (pool : List RelayCandidate) :
    (run.acquireFromPool options call stage pool).Upheld options := by
  apply ready.enter
  intro reservation mem
  rw [List.filterMap_replicate_of_none rfl] at mem
  cases mem

theorem leave (stage : AcquireStage) {terminal : RelayTerminal}
    (met : terminal = .reserved → run.policy.requirementsMet options.limits true = true) :
    (run.leave call stage terminal).Upheld options := by
  cases stage with
  | primary => exact ready.enter fun reserved => ⟨rfl, met reserved⟩
  | overflow | only => exact ready.finish met

theorem endPass (stage : AcquireStage) : (run.endPass options call stage).Upheld options := by
  unfold RelayRun.endPass
  split
  case isTrue met => exact ready.leave stage fun _ => RelayPolicy.requirementsMet_true met
  case isFalse =>
    split
    · exact ready.leave stage (fun reserved => nomatch reserved)
    · split
      · exact ready.leave stage (fun reserved => nomatch reserved)
      · exact ready.enter trivial

theorem endFallback (outcome : Option DnsaddrFallbackResult) :
    (run.endFallback call outcome).Upheld options := by
  apply ready.enter
  intro reserved
  unfold RelayRun.result at reserved
  cases status : (run.tryFallback call outcome).status <;> simp [status] at reserved

theorem workerMove {acquiring : Acquiring} {worker : RelayWorker} {segment : WorkerSegment}
    (waiting : ∀ reservation ∈ worker.waiting, run.now < reservation.expiresAtMs)
    (moved : WorkerMove run.now acquiring run.policy worker segment) :
    Ready options { run with policy := segment.policy } ∧
      ∀ reservation ∈ segment.worker.waiting, run.now < reservation.expiresAtMs := by
  have unexpired : ∀ reservation, worker.Offers run.now reservation →
      run.now < reservation.expiresAtMs := by
    intro reservation offers
    cases offers with
    | answered decoded => exact lt_of_decode_eq_accepted decoded
    | dropping => exact waiting _ rfl
  cases moved with
  | quiet _ idle table =>
    refine ⟨ready.sameTable table, ?_⟩
    intro reservation mem
    generalize segment.worker = next at idle mem
    cases next with
    | answered | dropping => exact idle.elim
    | _ => cases mem
  | answered | refused | released =>
    refine ⟨ready.sameTable ⟨rfl, rfl, rfl⟩, ?_⟩
    intro reservation mem
    cases mem
  | dropped offers =>
    refine ⟨⟨⟨ready.keyed.drop, ready.returned⟩, ready.live.drop⟩, ?_⟩
    intro reservation mem
    cases mem
    exact unexpired _ offers
  | kept offers table =>
    have same := ready.sameTable table
    refine ⟨⟨⟨same.keyed.entered rfl, ready.returned⟩,
      same.live.entered rfl (unexpired _ offers)⟩, ?_⟩
    intro reservation mem
    cases mem

end Ready

theorem Kept.dropNext (kept : run.Kept options) {failures rest : List String}
    (live : ∀ reservation ∈ run.policy.active.values,
      reservation.candidate.peerId ∈ rest ∨ run.now < reservation.expiresAtMs)
    (pending : rest ≠ [] → failures ≠ [])
    (met : failures = [] → run.policy.requirementsMet options.limits true = true) :
    (run.dropNext options call failures rest).Upheld options := by
  unfold RelayRun.dropNext
  split
  · rename_i peerId rest
    have dropped : (run.drop peerId).1.Kept options := ⟨kept.keyed.drop, kept.returned⟩
    apply dropped.enter
    · intro reservation mem
      rcases mem_values.mp mem with ⟨other, present⟩
      have old := mem_values.mpr ⟨other, RelayPolicy.get_drop present⟩
      rcases live reservation old with listed | alive
      · exact Or.inl (List.mem_of_ne_of_mem (RelayPolicy.absent_drop kept.keyed _ mem) listed)
      · exact Or.inr alive
    · exact pending (List.cons_ne_nil _ _)
  · have ready : run.Ready options :=
      ⟨kept, fun reservation mem => (live reservation mem).resolve_left List.not_mem_nil⟩
    split
    case isTrue none => exact ready.finish fun _ => met none
    case isFalse =>
      apply Ready.collectAndAcquire
      exact ready.sameTable ⟨rfl, rfl, rfl⟩

namespace Renewing

variable {position : ℕ} {failures : List String} (renewing : run.Renewing options position failures)
include renewing

theorem refreshNone (none : run.policy.active.values[position]? = none) :
    (run.dropNext options call failures failures).Upheld options := by
  apply renewing.toKept.dropNext _ id renewing.met
  have passed : run.policy.peerIds.drop position = [] := by
    apply List.drop_eq_nil_of_le
    rw [RelayPolicy.peerIds, List.length_map]
    exact List.getElem?_eq_none_iff.mp none
  intro reservation mem
  have live := renewing.live reservation mem
  rwa [RelayPhase.excused, passed, List.append_nil] at live

variable {reservation : ActiveRelayReservation}
  (here : run.policy.active.values[position]? = some reservation)
include here

omit renewing in
theorem peerIds_drop : run.policy.peerIds.drop position =
    reservation.candidate.peerId :: run.policy.peerIds.drop (position + 1) := by
  rcases List.getElem?_eq_some_iff.mp here with ⟨bound, rfl⟩
  have bound' : position < run.policy.peerIds.length := by
    rwa [RelayPolicy.peerIds, List.length_map]
  rw [List.drop_eq_getElem_cons bound']
  simp [RelayPolicy.peerIds]

theorem get : run.policy.active.get reservation.candidate.peerId = some reservation := by
  rcases mem_values.mp (List.mem_of_getElem? here) with ⟨peerId, present⟩
  rw [renewing.keyed _ _ present]
  exact present

theorem fails : (run.enter call (.refreshing (position + 1)
    (failures ++ [reservation.candidate.peerId]))).Upheld options := by
  apply renewing.toKept.enter
  · intro other mem
    have live := renewing.live other mem
    rwa [RelayPhase.excused, peerIds_drop here, List.append_cons] at live
  · exact fun none => (List.concat_ne_nil _ _ none).elim

theorem refreshFail {error : RelayError} :
    (run.refreshFail call reservation error position failures).Upheld options := by
  unfold RelayRun.refreshFail
  dsimp only
  split
  · exact renewing.toKept.finish_aborted
  · exact renewing.fails here

/-- The entry at the position is alive, in the table or in what becomes of it. -/
theorem passes {policy : RelayPolicy} (keyed : policy.Keyed)
    (peerIds : policy.peerIds = run.policy.peerIds)
    (alive : ∀ peerId found, policy.active.get peerId = some found → run.now < found.expiresAtMs ∨
      peerId ≠ reservation.candidate.peerId ∧ run.policy.active.get peerId = some found)
    (met : failures = [] → policy.requirementsMet options.limits true = true) :
    (enter { run with policy } call (.refreshing (position + 1) failures)).Upheld options := by
  have kept : Kept options { run with policy } := ⟨keyed, renewing.returned⟩
  refine kept.enter ?_ met
  intro found mem
  rcases mem_values.mp mem with ⟨peerId, present⟩
  rcases alive peerId found present with alive | ⟨different, old⟩
  · exact Or.inr alive
  · have live := renewing.live found (mem_values.mpr ⟨peerId, old⟩)
    rw [RelayPhase.excused, peerIds_drop here] at live
    rw [RelayPhase.excused, peerIds]
    simpa [keyed _ _ present, different] using live

theorem refreshSettle {response : RelayReservationWireResponse} :
    (run.refreshSettle call reservation response position failures).Upheld options := by
  unfold RelayRun.refreshSettle
  dsimp only
  split
  · exact renewing.fails here
  · rename_i expiresAtMs limit decoded
    have old := renewing.get here
    apply renewing.passes here
    · exact renewing.keyed.entered rfl
    · exact map_values_set old rfl
    · intro peerId found present
      change (run.policy.active.set _ _).get peerId = _ at present
      rw [get_set] at present
      split at present
      · cases present
        exact Or.inl (lt_of_decode_eq_accepted decoded)
      · exact Or.inr ⟨‹_›, present⟩
    · intro none
      exact Eq.trans (RelayPolicy.requirementsMet_refresh old rfl) (renewing.met none)

omit here in
theorem refreshNext : (run.refreshNext options call position failures).Upheld options := by
  unfold RelayRun.refreshNext
  split
  · exact renewing.refreshNone ‹_›
  · rename_i reservation here
    split
    case isTrue early =>
      refine renewing.passes here renewing.keyed rfl (fun peerId found present => ?_) renewing.met
      by_cases same : peerId = reservation.candidate.peerId
      · rw [same, renewing.get here] at present
        cases present
        exact Or.inl (by omega)
      · exact Or.inr ⟨same, present⟩
    case isFalse =>
      split
      · exact renewing.refreshFail here
      · exact renewing.toKept.enter renewing.live ⟨here, renewing.met⟩

end Renewing

/-- The table without the relay that a `replace` gives up. -/
def RelayRequest.keeps (policy : RelayPolicy) : RelayRequest → RelayPolicy
  | .replace peerId _ => (policy.drop peerId).1
  | .acquire | .refresh => policy

theorem Kept.begin (kept : run.Kept options) (request : RelayRequest) (signal : Option RelayError)
    (live : request ≠ .refresh → (RelayRequest.keeps run.policy request).Live run.now)
    (met : request = .refresh → run.policy.requirementsMet options.limits true = true) :
    (run.begin options request signal).Upheld options := by
  cases request with
  | acquire =>
    have ready : run.Ready options := ⟨kept, live (by decide)⟩
    apply Ready.collectAndAcquire
    exact ready.sameTable ⟨rfl, rfl, rfl⟩
  | refresh =>
    apply kept.enter
    · exact fun reservation mem => Or.inl (List.mem_map_of_mem mem)
    · exact fun _ => met rfl
  | replace peerId excludedOperatorGroup =>
    have ready : (run.drop peerId).1.Ready options :=
      ⟨⟨kept.keyed.drop, kept.returned⟩, live (fun same => nomatch same)⟩
    apply Ready.enter
    · exact ready.sameTable ⟨rfl, rfl, rfl⟩
    · trivial

namespace Upheld

variable (upheld : run.Upheld options)
include upheld

theorem of_same {last : RelayRun} (active : last.policy.active = run.policy.active)
    (degraded : last.policy.degradedOverflowPeerIds = run.policy.degradedOverflowPeerIds)
    (now : last.now = run.now) (running : last.running = run.running)
    (returned : last.returned = run.returned) : last.Upheld options where
  keyed := by
    unfold RelayPolicy.Keyed
    rw [active]
    exact upheld.keyed
  running := by
    intro call phase found
    rw [running] at found
    rcases upheld.running call phase found with ⟨live, sound⟩
    rw [now]
    exact ⟨live.congr active, sound.congr active degraded⟩
  returned := by
    rw [returned]
    exact upheld.returned

variable {phase : RelayPhase} (running : run.running = some (call, phase))
include running

theorem reenter {next : RelayCall} : (run.enter next phase).Upheld options :=
  upheld.toKept.enter (upheld.running call phase running).1 (upheld.running call phase running).2

theorem advanceWorker {acquiring : Acquiring} {workers : List RelayWorker} {index : ℕ}
    {event : WorkerEvent} (working : phase = .working acquiring workers) :
    (run.advanceWorker options call acquiring workers index event).Upheld options := by
  subst working
  unfold RelayRun.advanceWorker
  split
  · exact upheld
  · rename_i worker found
    split
    · exact upheld
    · rename_i segment stepped
      have waiting : ∀ reservation ∈ worker.waiting, run.now < reservation.expiresAtMs := by
        intro reservation mem
        exact (upheld.running _ _ running).2 reservation
          (List.mem_filterMap.mpr ⟨worker, List.mem_of_getElem? found, mem⟩)
      rcases (upheld.ready running rfl).workerMove waiting (workerMove_of_stepWorker stepped) with
        ⟨ready, entering⟩
      apply Ready.enter
      · exact ⟨⟨ready.keyed, ready.returned⟩, ready.live⟩
      intro reservation mem
      rcases List.mem_filterMap.mp mem with ⟨holder, present, waits⟩
      rcases List.mem_or_eq_of_mem_set present with old | rfl
      · exact (upheld.running _ _ running).2 reservation (List.mem_filterMap.mpr ⟨holder, old, waits⟩)
      · exact entering reservation waits

theorem resume : (run.resume options call phase).Upheld options := by
  have ready := upheld.ready running
  rcases upheld.running call phase running with ⟨live, sound⟩
  unfold RelayRun.resume
  split
  · exact (ready rfl).collectAndAcquire
  · exact Renewing.refreshNext ⟨upheld.toKept, live, sound⟩
  · exact Renewing.refreshSettle ⟨upheld.toKept, live, sound.2⟩ sound.1
  · exact upheld.toKept.dropNext live (fun _ => sound) fun none => (sound none).elim
  · split
    · exact (ready rfl).endPass _
    · exact upheld
  · split
    · exact (ready rfl).enter sound
    · apply Ready.enter
      · exact (ready rfl).sameTable ⟨rfl, rfl, rfl⟩
      · trivial
  · refine ⟨⟨upheld.keyed, ?_⟩, fun _ _ running => (nomatch running)⟩
    intro entry mem reserved
    rcases List.mem_append.mp mem with old | new
    · exact upheld.returned entry old reserved
    · cases List.mem_singleton.mp new
      rcases sound reserved with ⟨same, met⟩
      have strict : (RelayPhase.returning _).excused run.policy = [] := if_pos reserved
      exact RelayPolicy.meetsRequirements upheld.keyed (upheld.ready running strict).live met same
  · exact upheld

theorem settleRelease (succeeded : Bool) :
    (run.settleRelease options call phase succeeded).Upheld options := by
  have ready := upheld.ready running
  rcases upheld.running call phase running with ⟨live, sound⟩
  unfold RelayRun.settleRelease
  split
  · exact ((ready rfl).sameTable RelayPolicy.sameTable_settleRelease).collectAndAcquire
  · apply (upheld.toKept.sameTable RelayPolicy.sameTable_settleRelease).dropNext
    · exact live.congr RelayPolicy.sameTable_settleRelease.active
    · exact fun _ => sound
    · exact fun none => (sound none).elim
  · exact upheld

theorem refreshReturns {reservation : ActiveRelayReservation} {position : ℕ}
    {failures : List String} {event : RelayEvent}
    (waiting : phase = .refreshWaiting reservation position failures) :
    (run.refreshReturns call reservation position failures event).Upheld options := by
  subst waiting
  rcases upheld.running _ _ running with ⟨live, here, met⟩
  have renewing : run.Renewing options position failures := ⟨upheld.toKept, live, met⟩
  unfold RelayRun.refreshReturns
  split
  · exact upheld.toKept.enter live ⟨here, met⟩
  · exact renewing.refreshFail here
  · exact renewing.refreshFail here
  · exact upheld

theorem stepCall (event : RelayEvent) : (run.stepCall options call phase event).Upheld options := by
  have ready := upheld.ready running
  unfold RelayRun.stepCall
  split
  · exact upheld.reenter running
  · exact upheld.reenter running
  · exact (ready rfl).acquireFromPool _ _
  · exact upheld.resume running
  · exact upheld.settleRelease running _
  · exact upheld.refreshReturns running rfl
  · exact (ready rfl).endFallback _
  · exact upheld.advanceWorker running rfl
  · exact upheld

end Upheld

def nextRequest (run : RelayRun) : Option RelayRequest :=
  match run.running, run.queue with
  | none, .operation request :: _ => if run.policy.stopped then none else some request
  | _, _ => none

/-- What an operation keeps is alive when it begins, and the table is good enough for a `refresh`. -/
def BeginsLive (options : RelayPolicyOptions) (run : RelayRun) : Prop :=
  ∀ request ∈ run.nextRequest,
    (request ≠ .refresh → (RelayRequest.keeps run.policy request).Live run.now) ∧
    (request = .refresh → run.policy.requirementsMet options.limits true = true)

/-- The clock does not pass an expiry that the operation does not look after. -/
def TicksLive (run : RelayRun) (now : ℤ) : Prop :=
  ∀ running ∈ run.running, running.2.Live run.policy now ∧
    ∀ reservation ∈ running.2.waiting, now < reservation.expiresAtMs

def StaysLive (options : RelayPolicyOptions) (run : RelayRun) : RelayEvent → Prop
  | .turn _ => run.BeginsLive options
  | .tick now => run.TicksLive now
  | _ => True

instance (options : RelayPolicyOptions) (run : RelayRun) :
    (event : RelayEvent) → Decidable (run.StaysLive options event)
  | .turn _ => inferInstanceAs (Decidable (∀ request ∈ run.nextRequest, _ ∧ _))
  | .tick now => inferInstanceAs (Decidable (∀ running ∈ run.running,
      (∀ reservation ∈ run.policy.active.values, _ ∨ now < reservation.expiresAtMs) ∧
      ∀ reservation ∈ running.2.waiting, now < reservation.expiresAtMs))
  | .request _ | .stop | .abort _ | .totalDeadline | .eligible _ | .collected _ _ | .resume
  | .released _ | .answers _ | .fails _ | .abandons | .fallback _ | .worker _ _ | .lateAnswer _ _
  | .stopReleased _ _ _ | .stopReturns _ => .isTrue trivial

theorem Upheld.tick (upheld : run.Upheld options) {now : ℤ}
    (stays : run.StaysLive options (.tick now)) :
    Upheld options { run with now := max run.now now } where
  keyed := upheld.keyed
  running := by
    intro call phase running
    rcases upheld.running call phase running with ⟨live, sound⟩
    rcases stays (call, phase) running with ⟨later, waiting⟩
    rcases le_total run.now now with after | before
    · dsimp only
      rw [max_eq_right after]
      exact ⟨later, sound.tick waiting⟩
    · dsimp only
      rw [max_eq_left before]
      exact ⟨live, sound⟩
  returned := upheld.returned

theorem Upheld.takeTurn (upheld : run.Upheld options) {signal : Option RelayError}
    (stays : run.StaysLive options (.turn signal)) :
    (run.takeTurn options signal).Upheld options := by
  unfold RelayRun.takeTurn
  split
  case h_1 queue idle first =>
    refine ⟨⟨fun _ _ found => (nomatch found), upheld.returned⟩, ?_⟩
    intro call phase running
    rw [show run.running = some (call, phase) from running] at idle
    cases idle
  case h_2 request queue idle first =>
    split
    case isTrue => exact upheld.of_same rfl rfl rfl rfl rfl
    case isFalse running =>
      have next : run.nextRequest = some request := by
        rw [nextRequest, idle, first]
        exact if_neg running
      rcases stays request next with ⟨live, met⟩
      have kept : Kept options { run with queue } := ⟨upheld.keyed, upheld.returned⟩
      exact kept.begin request signal live met
  case h_3 => exact upheld

theorem Upheld.step (upheld : run.Upheld options) (stopping : run.Stopping) {event : RelayEvent}
    (stays : run.StaysLive options event) : (run.step options event).Upheld options := by
  unfold RelayRun.step
  split
  · exact upheld.tick stays
  · split
    · exact upheld
    · exact upheld.of_same rfl rfl rfl rfl rfl
  · exact upheld.of_same rfl rfl rfl rfl rfl
  · exact upheld.takeTurn stays
  · exact upheld.of_same rfl rfl rfl rfl rfl
  · unfold settleAbandoned
    split
    · exact upheld
    · exact upheld.of_same rfl rfl rfl rfl rfl
  · unfold settleStop
    split
    · exact upheld
    · split
      · exact upheld
      · exact upheld.of_same rfl rfl rfl rfl rfl
  · split
    case isTrue settled =>
      -- The degraded overflow is forgotten, but nothing runs that could rely on it.
      have idle := (stopping.ended (Or.inl (ne_nil_of_settled settled))).2
      refine ⟨⟨upheld.keyed, upheld.returned⟩, ?_⟩
      intro call phase running
      rw [show run.running = some (call, phase) from running] at idle
      cases idle
    case isFalse => exact upheld
  · split
    · exact upheld
    · split
      · exact upheld
      · exact upheld.stepCall ‹_› _

end Steps

theorem upheld_start (options : RelayPolicyOptions) : start.Upheld options where
  keyed := fun _ _ found => nomatch found
  running := fun _ _ running => nomatch running
  returned := fun _ mem => nomatch mem

/--
Whatever a call returns as `reserved` meets the requirements when it is returned,
if the entries that an operation does not renew or drop are alive when it begins
and stay so while it runs, and the table is good enough when a `refresh` begins.
-/
theorem reserved_meets_requirements (options : RelayPolicyOptions) (events : List RelayEvent)
    (stays : EventRun.Guarded (step options) (StaysLive options) start events) (entry : RelayReturn)
    (returned : entry ∈ (after options events).returned)
    (reserved : entry.result.terminal = .reserved) :
    entry.MeetsRequirements options.limits := by
  have kept : (after options events).Stopping ∧ (after options events).Upheld options :=
    stays.invariant (fun run => run.Stopping ∧ run.Upheld options)
      (fun _ event stays kept => ⟨kept.1.step event, kept.2.step kept.1 stays⟩)
      ⟨stopping_start, upheld_start options⟩
  exact kept.2.returned entry returned reserved

namespace RequirementsExample

open LeakExample

def options : RelayPolicyOptions :=
  { LeakExample.options with limits := { requiredOperatorGroups := 1, requiredReservations := 1 } }

def acquired : List RelayEvent :=
  asked ++ [.worker 0 (.answers (granted 10)), .worker 0 .resume,
    .worker 0 .resume, .resume, .resume]

def entry : RelayReturn where
  result :=
    { attempts := [{ candidate := relay
                     status := .reserved
                     address := some "/dns4/relay/tcp/443/wss"
                     hopAdvertised := true
                     identifyProtocols := [circuitRelayV2HopProtocol]
                     reservationStatus := some reservationOk }]
      fallback := none
      operatorGroups := ["a"]
      reservations := [{ candidate := relay
                         expiresAtMs := 10000
                         limit := { dataBytes := none, durationSeconds := none }
                         reservedAtMs := 0 }]
      terminal := .reserved }
  atMs := 0
  degradedOverflowPeerIds := []

end RequirementsExample

open RequirementsExample in
theorem reserved_meets_requirements_acquired :
    entry ∈ (after options acquired).returned ∧ entry.MeetsRequirements options.limits :=
  have returned : entry ∈ (after options acquired).returned := by decide +kernel
  ⟨returned, reserved_meets_requirements options acquired (by decide +kernel) entry returned rfl⟩

open RequirementsExample in
/-- A `refresh` of an empty table says `reserved`, and so does an `acquire` that finds only an
expired reservation. -/
theorem reserved_without_live_reservations :
    (∃ entry ∈ (after options [.request .refresh, .turn none, .resume, .resume]).returned,
      entry.result.terminal = .reserved ∧ entry.result.reservations = []) ∧
    (∃ entry ∈ (after options (acquired ++ [.tick 20000, .request .acquire, .turn none,
        .collected [] [], .resume, .resume])).returned,
      entry.result.terminal = .reserved ∧
        ∃ reservation ∈ entry.result.reservations, reservation.expiresAtMs ≤ entry.atMs) := by
  decide +kernel

end RelayRun

end TsDrp
