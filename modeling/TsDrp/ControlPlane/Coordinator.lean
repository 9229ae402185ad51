import Mathlib.Data.Nat.Notation
import TsDrp.ControlPlane.Health
import TsDrp.Library.EventRun

/-!
# The coordinator of recoveries

A coordinator that has been started observes the health of the control plane
when its timer fires and when it is told of a status.  An observation may be
discarded because a recovery is active or the next one is not due yet; it still
becomes the status that later ones are compared with.  The timer is set again by
whatever deals with an observation, and by the end of a recovery, but not by a
timer that could not read the status.
-/

namespace TsDrp.ControlPlane

structure CoordinatorOptions where
  /-- The host has given a function `readStatus`. -/
  readsStatus : Bool
  recoveryBackoffMs : ℤ
  startupGraceMs : ℤ := 1000

structure RecoveryOperationResult where
  id : String
  terminal : RecoveryTerminal
deriving DecidableEq

/-- What a recovery has come to: whether there was a plan for the fault, and how its operations
have ended. -/
structure RecoveryResult where
  planned : Bool
  terminal : RecoveryTerminal
  operations : List RecoveryOperationResult
deriving DecidableEq

def RecoveryResult.failedAttempts (result : RecoveryResult) (fault : RecoveryFault) :
    List RecoveryAttemptId :=
  if !result.planned || result.terminal = .succeeded then []
  else (result.operations.filter (·.terminal ≠ .succeeded)).map fun operation =>
    { action := fault.action, id := operation.id, terminal := operation.terminal }

/-- The last two fields are not of the source: the last observation that was not discarded, and
those discarded since. -/
structure Coordinator where
  started : Bool
  lastObservedStatus : Option HealthSnapshot
  nextRecoveryAtMs : ℤ
  observationTimer : Bool
  activeRecoveries : List RecoveryFault
  failedRecoveryAttempts : List RecoveryAttemptId
  now : ℤ
  processed : Option HealthSnapshot
  discarded : List HealthSnapshot
deriving DecidableEq

inductive Observation where
  /-- The coordinator is not started. -/
  | ignored
  | healthy
  /-- A recovery is active. -/
  | superseded
  /-- The next recovery is not due. -/
  | early
  | reported (state : HealthState)
  | recovers (fault : RecoveryFault)
deriving DecidableEq

/-- A status may be read in vain, if `readStatus` throws. -/
inductive CoordinatorEvent where
  | tick (now : ℤ)
  | start (read : Option HealthSnapshot)
  | stop
  | status (status : HealthSnapshot)
  | fires (read : Option HealthSnapshot)
  /-- A recovery has left its failed attempts behind, and is still counted as active. -/
  | recovered (index : ℕ) (result : RecoveryResult)
  | finishes (index : ℕ)
deriving DecidableEq

namespace Coordinator

def create : Coordinator where
  started := false
  lastObservedStatus := none
  nextRecoveryAtMs := 0
  observationTimer := false
  activeRecoveries := []
  failedRecoveryAttempts := []
  now := 0
  processed := none
  discarded := []

section Methods

variable (options : CoordinatorOptions) (coordinator : Coordinator)

def scheduleObservation : Coordinator :=
  if options.readsStatus && coordinator.started then { coordinator with observationTimer := true }
  else coordinator

def judge (status : HealthSnapshot) : Observation :=
  if !coordinator.started then .ignored
  else if status.state = .healthy then .healthy
  else if coordinator.activeRecoveries ≠ [] then .superseded
  else if coordinator.now < coordinator.nextRecoveryAtMs then .early
  else match classifyObservedFault status coordinator.lastObservedStatus with
    | none => .reported status.state
    | some fault => .recovers fault

def observe (status : HealthSnapshot) : Coordinator :=
  let passedOver := { coordinator with
    lastObservedStatus := some status
    discarded := coordinator.discarded ++ [status] }
  let observed := { coordinator with
    lastObservedStatus := some status
    processed := some status
    discarded := [] }
  match coordinator.judge status with
  | .ignored => coordinator
  | .superseded => passedOver
  | .early => passedOver.scheduleObservation options
  | .healthy | .reported _ => observed.scheduleObservation options
  | .recovers fault => { observed with activeRecoveries := coordinator.activeRecoveries ++ [fault] }

/-- What is read is observed; if nothing can be read, only an event is emitted. -/
def observeRead : Option HealthSnapshot → Coordinator
  | some status => coordinator.observe options status
  | none => coordinator

def start (read : Option HealthSnapshot) : Coordinator :=
  if coordinator.started then coordinator
  else
    let coordinator := { coordinator with
      started := true
      nextRecoveryAtMs := coordinator.now + options.startupGraceMs }
    (if options.readsStatus then coordinator.observeRead options read
      else coordinator).scheduleObservation options

/-- One event; one that does not fit the state does nothing. -/
def step (event : CoordinatorEvent) : Coordinator :=
  match event with
  | .tick now => { coordinator with now }
  | .start read => coordinator.start options read
  | .stop => { coordinator with started := false, observationTimer := false }
  | .status status => coordinator.observe options status
  | .fires read =>
    if coordinator.observationTimer then
      { coordinator with observationTimer := false }.observeRead options read
    else coordinator
  | .recovered index result =>
    match coordinator.activeRecoveries[index]? with
    | none => coordinator
    | some fault =>
      { coordinator with failedRecoveryAttempts := result.failedAttempts fault }
  | .finishes index =>
    if index < coordinator.activeRecoveries.length then
      { coordinator with
        activeRecoveries := coordinator.activeRecoveries.eraseIdx index
        nextRecoveryAtMs := coordinator.now + options.recoveryBackoffMs }.scheduleObservation options
    else coordinator

end Methods

def after (options : CoordinatorOptions) (events : List CoordinatorEvent) : Coordinator :=
  events.foldl (step options) create

namespace CoordinatorExample

def defaults : CoordinatorOptions where
  readsStatus := true
  recoveryBackoffMs := 1000

def reservation : LiveReservation where
  operatorGroup := "a"
  relayId := "relay"

def input : HealthInput where
  authenticatedDrpPeerIds := []
  connectedBootstrapPeerIds := []
  healthyBackendCount := 1
  liveReservations := [reservation]
  authenticatedPeerCount := 0
  operatorGroupCount := 0
  transportCount := 0
  objectSynchronization := .synchronized
  fresh := true
  replicaAvailability := .available
  replicaCount := 1
  subscribedObjectCount := some 0
  directConnections := 0
  relayedConnections := 0

def lost : HealthInput := { input with liveReservations := [] }

def unreplaced : List CoordinatorEvent :=
  [.start none, .tick 1000, .fires (some (lost.aggregate 1000)),
    .recovered 0 { planned := true, terminal := .exhausted
                   operations := [{ id := "relay:unknown", terminal := .failed }] },
    .finishes 0, .tick 2000]

def indirect : HealthInput := { input with directConnectionFailedPeerIds := ["peer"] }

def changing : HealthInput :=
  { input with
    liveReservations := [reservation, { operatorGroup := "b", relayId := "other" }]
    fresh := false }

def watched : List CoordinatorEvent :=
  [.start (some (input.aggregate 0)), .status (changing.aggregate 0), .tick 1000]

end CoordinatorExample

/-- A timer reads the status, unless a recovery is active. -/
def ReadsStatus (coordinator : Coordinator) (event : CoordinatorEvent) : Prop :=
  event = .fires none → coordinator.activeRecoveries ≠ []

instance (coordinator : Coordinator) (event : CoordinatorEvent) :
    Decidable (coordinator.ReadsStatus event) :=
  inferInstanceAs (Decidable (_ → _))

/-- Something will make the coordinator observe again. -/
def Watches (coordinator : Coordinator) : Prop :=
  coordinator.started = true →
    coordinator.observationTimer = true ∨ coordinator.activeRecoveries ≠ []

variable {options : CoordinatorOptions} {coordinator : Coordinator} {status : HealthSnapshot}

/-- What an observation has come to, and why. -/
inductive Judged (coordinator : Coordinator) (status : HealthSnapshot) : Observation → Prop where
  | ignored (idle : coordinator.started = false) : Judged coordinator status .ignored
  | healthy : Judged coordinator status .healthy
  | superseded (active : coordinator.activeRecoveries ≠ []) : Judged coordinator status .superseded
  | early : Judged coordinator status .early
  | reported : Judged coordinator status (.reported status.state)
  | recovers {fault : RecoveryFault}
      (found : classifyObservedFault status coordinator.lastObservedStatus = some fault) :
      Judged coordinator status (.recovers fault)

theorem judged : coordinator.Judged status (coordinator.judge status) := by
  unfold judge
  split
  case isTrue idle => exact .ignored (by simpa using idle)
  case isFalse =>
    split
    · exact .healthy
    · split
      · exact .superseded ‹_›
      · split
        · exact .early
        · split
          · exact .reported
          · exact .recovers ‹_›

section Watching

variable (reads : options.readsStatus = true)
include reads

theorem watches_scheduleObservation : (coordinator.scheduleObservation options).Watches := by
  unfold scheduleObservation
  rw [reads]
  split
  case isTrue => exact fun _ => Or.inl rfl
  case isFalse idle => exact fun started => (idle started).elim

theorem watches_observe : (coordinator.observe options status).Watches := by
  have judged := @judged coordinator status
  unfold observe
  generalize coordinator.judge status = observation at judged
  cases judged with
  | ignored idle =>
    intro started
    cases idle.symm.trans started
  | superseded active => exact fun _ => Or.inr active
  | early | healthy | reported => exact watches_scheduleObservation reads
  | recovers => exact fun _ => Or.inr (List.concat_ne_nil _ _)

theorem Watches.step {event : CoordinatorEvent} (watches : coordinator.Watches)
    (readable : coordinator.ReadsStatus event) : (coordinator.step options event).Watches := by
  cases event with
  | tick => exact watches
  | recovered =>
    dsimp only [Coordinator.step]
    split
    · exact watches
    · exact watches
  | start read =>
    change (coordinator.start options read).Watches
    unfold start
    split
    · exact watches
    · exact watches_scheduleObservation reads
  | stop => exact fun started => nomatch started
  | status => exact watches_observe reads
  | fires read =>
    change Watches (if _ then _ else _)
    split
    · cases read with
      | some => exact watches_observe reads
      | none => exact fun _ => Or.inr (readable rfl)
    · exact watches
  | finishes =>
    change Watches (if _ then _ else _)
    split
    · exact watches_scheduleObservation reads
    · exact watches

end Watching

/--
Between a start and the next stop a timer is pending or a recovery is active, if every timer that
fires while no recovery is active can read the status.
-/
theorem observation_goes_on (options : CoordinatorOptions) (events : List CoordinatorEvent)
    (reads : options.readsStatus = true)
    (readable : EventRun.Guarded (step options) ReadsStatus create events)
    (started : (after options events).started = true) :
    (after options events).observationTimer = true ∨ (after options events).activeRecoveries ≠ [] :=
  readable.invariant Watches (fun _ _ readable watches => watches.step reads readable)
    (fun started => nomatch started) started

open CoordinatorExample in
theorem observation_goes_on_read :
    (after defaults [.start none, .fires (some (input.aggregate 0))]).observationTimer = true ∨
      (after defaults [.start none, .fires (some (input.aggregate 0))]).activeRecoveries ≠ [] :=
  observation_goes_on defaults [.start none, .fires (some (input.aggregate 0))] rfl (by decide) rfl

open CoordinatorExample in
/-- A single `readStatus` that throws ends the observation. -/
theorem observation_ends_when_status_throws :
    (after defaults [.start none, .fires none]).started = true ∧
      (after defaults [.start none, .fires none]).observationTimer = false ∧
      (after defaults [.start none, .fires none]).activeRecoveries = [] := by
  decide

/-- The status as the node reads it: the failed attempts are fed back. -/
def readStatus (coordinator : Coordinator) (input : HealthInput) : HealthSnapshot :=
  { input with failedRecoveryAttempts := coordinator.failedRecoveryAttempts }.aggregate coordinator.now

/--
Outside recoveries and back-off, a status that is healthy but for the attempts fed back is reported
as healthy or starts a recovery exactly when no failed attempt is left, or the node shows a fault
that is not among the required signals.
-/
theorem recovering_ends_iff (options : CoordinatorOptions) (events : List CoordinatorEvent)
    (input : HealthInput) (started : (after options events).started = true)
    (idle : (after options events).activeRecoveries = [])
    (due : (after options events).nextRecoveryAtMs ≤ (after options events).now)
    (healthy : ({ input with failedRecoveryAttempts := [] }.aggregate
      (after options events).now).state = .healthy) :
    ((after options events).judge ((after options events).readStatus input) = .healthy ∨
      ∃ fault,
        (after options events).judge ((after options events).readStatus input) = .recovers fault) ↔
      (after options events).failedRecoveryAttempts = [] ∨ input.ShowsFault := by
  generalize after options events = coordinator at *
  have signals : input.allRequiredSignalsHealthy = true := by
    change (if input.allRequiredSignalsHealthy then HealthState.healthy else .degraded) = _ at healthy
    split at healthy
    · assumption
    · cases healthy
  by_cases left : coordinator.failedRecoveryAttempts = []
  · have isHealthy : (coordinator.readStatus input).state = .healthy := by
      rw [readStatus, left]
      exact healthy
    simp [judge, started, isHealthy, left]
  · have isRecovering : (coordinator.readStatus input).state = .recovering := if_pos left
    have classified := @classify_aggregate_isSome_iff
      { input with failedRecoveryAttempts := coordinator.failedRecoveryAttempts } coordinator.now
      coordinator.lastObservedStatus signals
    change (classifyObservedFault (coordinator.readStatus input) _).isSome = true ↔ input.ShowsFault
      at classified
    rw [← classified]
    cases found : classifyObservedFault (coordinator.readStatus input)
        coordinator.lastObservedStatus with
    | none => simp [judge, started, isRecovering, idle, Int.not_lt.mpr due, found, left]
    | some fault => simp [judge, started, isRecovering, idle, Int.not_lt.mpr due, found]

open CoordinatorExample in
theorem recovering_ends_indirect :
    (after defaults unreplaced).failedRecoveryAttempts ≠ [] ∧
      ((after defaults unreplaced).judge ((after defaults unreplaced).readStatus indirect) = .healthy ∨
        ∃ fault, (after defaults unreplaced).judge ((after defaults unreplaced).readStatus indirect) =
          .recovers fault) :=
  ⟨by decide, (recovering_ends_iff defaults unreplaced indirect rfl rfl (by decide) (by decide)).mpr
    (Or.inr (Or.inl (List.cons_ne_nil _ _)))⟩

open CoordinatorExample in
/-- After a relay could not be replaced, the node is well again, but every observation reports
`recovering` and changes nothing. -/
theorem recovering_is_a_trap :
    let trapped := after defaults (unreplaced ++
      [.fires (some ({ input with failedRecoveryAttempts := [{ action := .replaceRelay
                                                               id := "relay:unknown"
                                                               terminal := .failed }] }.aggregate
        2000))])
    trapped.activeRecoveries = [] ∧ trapped.nextRecoveryAtMs ≤ trapped.now ∧
      (input.aggregate 2000).state = .healthy ∧
      trapped.judge (trapped.readStatus input) = .reported .recovering ∧
      trapped.observe defaults (trapped.readStatus input) = trapped := by
  decide

/-- The status that later ones are compared with is the last one discarded, or the last one that
was not if nothing was discarded since. -/
def Compares (coordinator : Coordinator) : Prop :=
  coordinator.lastObservedStatus = coordinator.discarded.getLast?.or coordinator.processed

theorem compares_scheduleObservation (compares : coordinator.Compares) :
    (coordinator.scheduleObservation options).Compares := by
  unfold scheduleObservation
  split
  · exact compares
  · exact compares

theorem Compares.observe (compares : coordinator.Compares) :
    (coordinator.observe options status).Compares := by
  have passedOver : { coordinator with
      lastObservedStatus := some status
      discarded := coordinator.discarded ++ [status] }.Compares := by simp [Compares]
  unfold Coordinator.observe
  cases coordinator.judge status with
  | ignored => exact compares
  | superseded => exact passedOver
  | early => exact compares_scheduleObservation passedOver
  | healthy | reported => exact compares_scheduleObservation rfl
  | recovers => exact rfl

theorem Compares.observeRead {read : Option HealthSnapshot} (compares : coordinator.Compares) :
    (coordinator.observeRead options read).Compares := by
  cases read with
  | none => exact compares
  | some => exact compares.observe

theorem Compares.step {event : CoordinatorEvent} (compares : coordinator.Compares) :
    (coordinator.step options event).Compares := by
  cases event with
  | tick | stop => exact compares
  | status => exact compares.observe
  | start read =>
    change (coordinator.start options read).Compares
    unfold start
    split
    · exact compares
    · apply compares_scheduleObservation
      split
      · exact Compares.observeRead compares
      · exact compares
  | fires read =>
    change Compares (if _ then _ else _)
    split
    · exact Compares.observeRead compares
    · exact compares
  | recovered =>
    dsimp only [Coordinator.step]
    split
    · exact compares
    · exact compares
  | finishes =>
    change Compares (if _ then _ else _)
    split
    · exact compares_scheduleObservation compares
    · exact compares

theorem compares_after (options : CoordinatorOptions) (events : List CoordinatorEvent) :
    (after options events).Compares :=
  List.foldlRecOn events _ rfl fun _ compares _ _ => compares.step

/-- Nothing was discarded, or the first reservation of what was discarded last is one of those
that were live before. -/
def Remembers (discarded : List HealthSnapshot) (processed : HealthSnapshot) : Prop :=
  ∀ last ∈ discarded.getLast?, ∃ first ∈ last.liveReservations.head?,
    first.relayId ∈ processed.liveReservations.map (·.relayId)

/--
Suppose a reservation was live in the last observation that was not discarded, and one without live
reservations starts a recovery from a lost relay.  The relay it names is one that was live then
exactly when the observations discarded since remember it.
-/
theorem lost_relay_is_named_iff (options : CoordinatorOptions) (events : List CoordinatorEvent)
    (processed status : HealthSnapshot) (relay : LiveReservation) (lost : Option LiveReservation)
    (observed : (after options events).processed = some processed)
    (live : relay ∈ processed.liveReservations) (gone : status.liveReservations = [])
    (recovers : (after options events).judge status = .recovers (.relayDisconnected lost)) :
    (∃ named, lost = some named ∧ named.relayId ∈ processed.liveReservations.map (·.relayId)) ↔
      Remembers (after options events).discarded processed := by
  have compares := compares_after options events
  generalize after options events = coordinator at *
  have judged := @judged coordinator status
  rw [recovers] at judged
  cases judged with
  | recovers found =>
    have isFirst : ∀ reservations : List LiveReservation, (reservations.find? fun lost =>
        !status.liveReservations.any (·.relayId = lost.relayId)) = reservations.head? := by
      intro reservations
      rw [gone]
      cases reservations <;> rfl
    rw [lost_of_classify found, compares, observed]
    simp only [isFirst, Remembers]
    cases coordinator.discarded.getLast? with
    | none =>
      cases reservations : processed.liveReservations with
      | nil => simp [reservations] at live
      | cons first rest => simp [reservations]
    | some last => simp

open CoordinatorExample in
theorem lost_relay_is_named_remembered :
    (after defaults watched).discarded ≠ [] ∧ ∃ named, some reservation = some named ∧
      named.relayId ∈ (input.aggregate 0).liveReservations.map (·.relayId) := by
  refine ⟨by decide, (lost_relay_is_named_iff defaults watched (input.aggregate 0)
    (lost.aggregate 1000) reservation _ (by decide) (by decide) rfl (by decide)).mpr ?_⟩
  unfold Remembers
  decide

open CoordinatorExample in
/-- The loss is seen before the next recovery is due: the discarded observation takes the place of
the one with the relay, and the recovery does not know what was lost. -/
theorem lost_relay_is_forgotten :
    let forgetful := after defaults [.start (some (input.aggregate 0)), .status (lost.aggregate 0),
      .tick 1000]
    forgetful.processed = some (input.aggregate 0) ∧
      forgetful.judge (lost.aggregate 1000) = .recovers (.relayDisconnected none) := by
  decide

end Coordinator

end TsDrp.ControlPlane
