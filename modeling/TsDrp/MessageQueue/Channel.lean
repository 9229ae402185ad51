import TsDrp.JsValue
import TsDrp.Library.EventRun
import Mathlib.Data.List.Infix
import Mathlib.Data.List.Range

/-!
# The message channel

A channel hands values from senders to receivers.  It keeps three queues: the
buffer, the senders that wait because the buffer is full, and the receivers that
wait because there is nothing to take.  A call that waits holds a deferred
promise; here a deferred promise is the index of the call that returned it.

A receiver takes the head of the buffer and leaves the waiting senders where they
are, so there may be room in the buffer while a sender still waits.  A value sent
in such a moment overtakes those that wait.
-/

namespace TsDrp.MessageQueue

universe u v

inductive ChannelError where
  /-- `ChannelClosedError` -/
  | closed
  /-- `Error` -/
  | unexpectedUndefined
deriving DecidableEq

def ChannelError.message : ChannelError → String
  | closed => "Channel is closed"
  | unexpectedUndefined => "Unexpected undefined value in channel"

inductive Promise (α : Type u) where
  | pending
  | fulfilled (value : α)
  | rejected (error : ChannelError)
deriving DecidableEq

namespace Promise

variable {α : Type u}

def resolve (value : α) : Promise α → Promise α
  | pending => fulfilled value
  | settled => settled

def reject (error : ChannelError) : Promise α → Promise α
  | pending => rejected error
  | settled => settled

def value? : Promise α → Option α
  | fulfilled value => some value
  | _ => none

end Promise

/-- A sender that waits, with the index of the `send` call as its deferred promise. -/
structure BlockedSend (α : Type u) where
  value : α
  signal : ℕ
deriving DecidableEq

structure Channel (α : Type u) where
  capacity : JsNumber
  values : List α
  sends : List (BlockedSend α)
  /-- The `receive` calls that wait. -/
  receives : List ℕ
  isClosed : Bool
deriving DecidableEq

/-- `this.values.length < this.options.capacity` -/
def Channel.hasRoom {α : Type u} (channel : Channel α) : Bool :=
  channel.capacity.gtInt channel.values.length

/-- A channel with the promises that its `send` and `receive` calls returned so far. -/
structure Calls (α : Type u) where
  channel : Channel α
  sent : List (Promise Unit)
  received : List (Promise α)
deriving DecidableEq

/-- A call on the channel; `undefined` is sent as `none`. -/
inductive Call (α : Type u) where
  | send (value : Option α)
  | receive
deriving DecidableEq

namespace Calls

variable {α : Type u}

/-- A new channel; the default capacity is 1000. -/
def new (capacity : Option JsNumber) : Calls α where
  channel :=
    { capacity := capacity.getD (.finite (Double.ofInt 1000 (by decide)))
      values := []
      sends := []
      receives := []
      isClosed := false }
  sent := []
  received := []

def send (value : Option α) (calls : Calls α) : Calls α :=
  let channel := calls.channel
  if channel.isClosed then
    { calls with sent := calls.sent ++ [.rejected .closed] }
  else
    match value with
    | none => { calls with sent := calls.sent ++ [.rejected .unexpectedUndefined] }
    | some value =>
      match channel.receives with
      | recv :: receives =>
        { channel := { channel with receives }
          sent := calls.sent ++ [.fulfilled ()]
          received := calls.received.modify recv (Promise.resolve value) }
      | [] =>
        if channel.hasRoom then
          { calls with
            channel := { channel with values := channel.values ++ [value] }
            sent := calls.sent ++ [.fulfilled ()] }
        else
          let blocked : BlockedSend α := { value, signal := calls.sent.length }
          { calls with
            channel := { channel with sends := channel.sends ++ [blocked] }
            sent := calls.sent ++ [.pending] }

/-- The buffer never holds `undefined`, so the second check of `receive` cannot fail. -/
def receive (calls : Calls α) : Calls α :=
  let channel := calls.channel
  if channel.isClosed then
    { calls with received := calls.received ++ [.rejected .closed] }
  else
    match channel.values with
    | value :: values =>
      { calls with
        channel := { channel with values }
        received := calls.received ++ [.fulfilled value] }
    | [] =>
      match channel.sends with
      | send :: sends =>
        { channel := { channel with sends }
          sent := calls.sent.modify send.signal (Promise.resolve ())
          received := calls.received ++ [.fulfilled send.value] }
      | [] =>
        { calls with
          channel := { channel with receives := channel.receives ++ [calls.received.length] }
          received := calls.received ++ [.pending] }

section Branches

variable {calls : Calls α} {value : α}

section

variable (isOpen : calls.channel.isClosed = false)
include isOpen

theorem send_none :
    calls.send none = { calls with sent := calls.sent ++ [.rejected .unexpectedUndefined] } := by
  simp [send, isOpen]

theorem send_of_receives {recv : ℕ} {receives : List ℕ}
    (waits : calls.channel.receives = recv :: receives) : calls.send (some value) =
      { channel := { calls.channel with receives }
        sent := calls.sent ++ [.fulfilled ()]
        received := calls.received.modify recv (Promise.resolve value) } := by
  simp [send, isOpen, waits]

theorem send_of_room (receives : calls.channel.receives = [])
    (room : calls.channel.hasRoom = true) : calls.send (some value) =
      { calls with
        channel := { calls.channel with values := calls.channel.values ++ [value] }
        sent := calls.sent ++ [.fulfilled ()] } := by
  simp [send, isOpen, receives, room]

theorem send_of_full (receives : calls.channel.receives = [])
    (full : calls.channel.hasRoom = false) : calls.send (some value) =
      { calls with
        channel :=
          { calls.channel with sends := calls.channel.sends ++ [⟨value, calls.sent.length⟩] }
        sent := calls.sent ++ [.pending] } := by
  simp [send, isOpen, receives, full]

theorem receive_cases : (∃ value values, calls.channel.values = value :: values ∧
      calls.receive =
        { calls with
          channel := { calls.channel with values }
          received := calls.received ++ [.fulfilled value] }) ∨
    (∃ blocked sends, calls.channel.values = [] ∧ calls.channel.sends = blocked :: sends ∧
      calls.receive =
        { channel := { calls.channel with sends }
          sent := calls.sent.modify blocked.signal (Promise.resolve ())
          received := calls.received ++ [.fulfilled blocked.value] }) ∨
    (calls.channel.values = [] ∧ calls.channel.sends = [] ∧
      calls.receive =
        { calls with
          channel :=
            { calls.channel with receives := calls.channel.receives ++ [calls.received.length] }
          received := calls.received ++ [.pending] }) := by
  cases values : calls.channel.values with
  | cons value rest =>
    left
    exact ⟨value, rest, rfl, by simp [receive, isOpen, values]⟩
  | nil =>
    right
    cases sends : calls.channel.sends with
    | cons blocked rest =>
      left
      exact ⟨blocked, rest, rfl, rfl, by simp [receive, isOpen, values, sends]⟩
    | nil =>
      right
      exact ⟨rfl, rfl, by simp [receive, isOpen, values, sends]⟩

end

end Branches

/-- Whoever waits is turned away and the buffer is dropped. -/
def close (calls : Calls α) : Calls α where
  channel := { calls.channel with isClosed := true, values := [], sends := [], receives := [] }
  sent := calls.channel.sends.foldl
    (fun sent send => sent.modify send.signal (Promise.reject .closed)) calls.sent
  received := calls.channel.receives.foldl
    (fun received recv => received.modify recv (Promise.reject .closed)) calls.received

def start (calls : Calls α) : Calls α :=
  if calls.channel.isClosed then
    { calls with
      channel := { calls.channel with isClosed := false, values := [], sends := [], receives := [] } }
  else calls

def perform (calls : Calls α) : Call α → Calls α
  | .send value => calls.send value
  | .receive => calls.receive

def run (calls : Calls α) (actions : List (Call α)) : Calls α :=
  actions.foldl perform calls

/-- The values given to the `receive` calls made since a moment, in the order of the calls. -/
def deliveredSince (earlier : Calls α) (calls : Calls α) : List α :=
  (calls.received.drop earlier.received.length).filterMap Promise.value?

/-- An open channel with nothing buffered and nobody waiting. -/
structure Fresh (calls : Calls α) : Prop where
  values : calls.channel.values = []
  sends : calls.channel.sends = []
  receives : calls.channel.receives = []
  isOpen : calls.channel.isClosed = false

theorem fresh_new (capacity : Option JsNumber) : (new capacity : Calls α).Fresh :=
  ⟨rfl, rfl, rfl, rfl⟩

theorem fresh_start_close (calls : Calls α) : calls.close.start.Fresh :=
  ⟨rfl, rfl, rfl, rfl⟩

def NoOvertaking (calls : Calls α) : Call α → Prop
  | .send (some _) => calls.channel.sends = [] ∨ calls.channel.hasRoom = false
  | _ => True

instance [DecidableEq α] (calls : Calls α) (call : Call α) : Decidable (calls.NoOvertaking call) := by
  unfold NoOvertaking
  split <;> infer_instance

/-- No `send` call of the run meets room in the buffer while another sender waits. -/
abbrev Patient (calls : Calls α) (actions : List (Call α)) : Prop :=
  EventRun.Guarded perform NoOvertaking calls actions

end Calls

/-- The values of the `send` calls that are not turned away with an error. -/
def sentValues {α : Type u} : List (Call α) → List α
  | [] => []
  | .send (some value) :: rest => value :: sentValues rest
  | _ :: rest => sentValues rest

theorem sentValues_cons {α : Type u} (call : Call α) (rest : List (Call α)) :
    sentValues (call :: rest) = sentValues [call] ++ sentValues rest := by
  cases call with
  | send value => cases value <;> rfl
  | receive => rfl

section Order

variable {α : Type u} {earlier : List (Promise α)} {sent taken : List α} {waiting : ℕ}
  {calls : Calls α}

/--
Of the values sent so far some were taken and the rest is queued, the buffer
before the senders that wait.  Receivers wait only while nothing is queued.
-/
structure Conserves (earlier : List (Promise α)) (sent taken : List α) (waiting : ℕ)
    (calls : Calls α) : Prop where
  isOpen : calls.channel.isClosed = false
  received : calls.received =
    earlier ++ taken.map .fulfilled ++ List.replicate waiting .pending
  receives : calls.channel.receives = List.range' (earlier.length + taken.length) waiting
  sent : sent = taken ++ calls.channel.values ++ calls.channel.sends.map BlockedSend.value
  idle : waiting ≠ 0 → calls.channel.values = [] ∧ calls.channel.sends = []

theorem Calls.Fresh.conserves (fresh : calls.Fresh) : Conserves calls.received [] [] 0 calls where
  isOpen := fresh.isOpen
  received := by simp
  receives := by simp [fresh.receives]
  sent := by simp [fresh.values, fresh.sends]
  idle := fun absurd => (absurd rfl).elim

namespace Conserves

theorem resolve_first (value : α) :
    (earlier ++ taken.map Promise.fulfilled ++
        List.replicate (waiting + 1) Promise.pending).modify
          (earlier.length + taken.length) (Promise.resolve value) =
      earlier ++ (taken ++ [value]).map .fulfilled ++ List.replicate waiting .pending := by
  have length : (earlier ++ taken.map Promise.fulfilled).length =
      earlier.length + taken.length := by simp
  rw [List.replicate_succ, List.modify_eq_take_cons_drop (by simp), List.getElem_append_right
    (by simp), List.take_left' length, List.drop_append, List.drop_eq_nil_of_le (by omega)]
  simp [Promise.resolve]

section

variable (conserves : Conserves earlier sent taken waiting calls)
include conserves

theorem send (value : α) (patient : calls.NoOvertaking (.send (some value))) :
    ∃ taken waiting, Conserves earlier (sent ++ [value]) taken waiting (calls.send (some value)) := by
  cases waiting with
  | succ waiting =>
    rcases conserves.idle (Nat.succ_ne_zero waiting) with ⟨values, sends⟩
    have receives := conserves.receives
    rw [List.range'_succ] at receives
    rw [Calls.send_of_receives conserves.isOpen receives]
    refine ⟨taken ++ [value], waiting, conserves.isOpen, ?_, ?_, ?_, fun _ => ⟨values, sends⟩⟩
    · exact conserves.received ▸ resolve_first value
    · simp [Nat.add_assoc]
    · simp [conserves.sent, values, sends]
  | zero =>
    have receives : calls.channel.receives = [] := conserves.receives
    cases room : calls.channel.hasRoom with
    | true =>
      have sends : calls.channel.sends = [] := by simpa [Calls.NoOvertaking, room] using patient
      rw [Calls.send_of_room conserves.isOpen receives room]
      refine ⟨taken, 0, conserves.isOpen, conserves.received, receives, ?_, by simp⟩
      simp [conserves.sent, sends]
    | false =>
      rw [Calls.send_of_full conserves.isOpen receives room]
      refine ⟨taken, 0, conserves.isOpen, conserves.received, receives, ?_, by simp⟩
      simp [conserves.sent]

theorem receive : ∃ taken waiting, Conserves earlier sent taken waiting calls.receive := by
  rcases Calls.receive_cases conserves.isOpen with
    ⟨value, values, queued, eq⟩ | ⟨send, sends, empty, queued, eq⟩ | ⟨empty, empty', eq⟩
  · have none : waiting = 0 := by
      by_contra some
      simp [(conserves.idle some).1] at queued
    subst none
    refine ⟨taken ++ [value], 0, ?_⟩
    rw [eq]
    refine ⟨conserves.isOpen, ?_, conserves.receives, ?_, by simp⟩
    · simp [conserves.received]
    · simp [conserves.sent, queued]
  · have none : waiting = 0 := by
      by_contra some
      simp [(conserves.idle some).2] at queued
    subst none
    refine ⟨taken ++ [send.value], 0, ?_⟩
    rw [eq]
    refine ⟨conserves.isOpen, ?_, conserves.receives, ?_, by simp⟩
    · simp [conserves.received]
    · simp [conserves.sent, queued, empty]
  · refine ⟨taken, waiting + 1, ?_⟩
    rw [eq]
    refine ⟨conserves.isOpen, ?_, ?_, conserves.sent, fun _ => ⟨empty, empty'⟩⟩
    · simp [conserves.received, List.replicate_succ']
    · simp [conserves.receives, conserves.received, List.range'_concat, Nat.add_assoc]

theorem perform (call : Call α) (patient : calls.NoOvertaking call) : ∃ taken waiting,
      Conserves earlier (sent ++ sentValues [call]) taken waiting (calls.perform call) := by
  cases call with
  | send value =>
    cases value with
    | some value => exact conserves.send value patient
    | none =>
      refine ⟨taken, waiting, ?_⟩
      have eq : calls.perform (.send none) = _ := Calls.send_none conserves.isOpen
      rw [eq]
      simpa [sentValues] using
        ⟨conserves.isOpen, conserves.received, conserves.receives, conserves.sent, conserves.idle⟩
  | receive => simpa [sentValues, Calls.perform] using conserves.receive

end

theorem run (conserves : Conserves earlier sent taken waiting calls) {actions : List (Call α)}
    (patient : calls.Patient actions) :
    ∃ taken waiting,
      Conserves earlier (sent ++ sentValues actions) taken waiting (calls.run actions) := by
  induction actions generalizing sent taken waiting calls with
  | nil => exact ⟨taken, waiting, by simpa [sentValues, Calls.run] using conserves⟩
  | cons call rest ih =>
    rcases patient with ⟨first, patient⟩
    rcases conserves.perform call first with ⟨taken, waiting, conserves⟩
    rcases ih conserves patient with ⟨taken, waiting, conserves⟩
    refine ⟨taken, waiting, ?_⟩
    rwa [List.append_assoc, ← sentValues_cons] at conserves

theorem deliveredSince_eq {first : Calls α}
    (conserves : Conserves first.received sent taken waiting calls) :
    Calls.deliveredSince first calls = taken := by
  simp [Calls.deliveredSince, conserves.received, List.filterMap_append, Promise.value?,
    List.filterMap_map, Function.comp_def]

end Conserves

/--
From an open channel that is new or was reopened, the values delivered to the
`receive` calls are the first of those sent, in the order of the `send` calls.
-/
theorem delivered_in_order_of_sends (first : Calls α) (fresh : first.Fresh)
    (actions : List (Call α)) (patient : first.Patient actions) :
    Calls.deliveredSince first (first.run actions) <+: sentValues actions := by
  rcases fresh.conserves.run patient with ⟨taken, waiting, conserves⟩
  rw [conserves.deliveredSince_eq]
  exact ⟨_, by simpa using conserves.sent.symm⟩

end Order

def single : Calls ℕ := Calls.new (some (.finite (Double.ofInt 1 Double.one_small)))

theorem delivered_in_order_of_sends_blocked :
    let actions : List (Call ℕ) :=
      [.send (some 1), .send (some 2), .receive, .receive, .receive, .send (some 3)]
    single.Patient actions ∧ Calls.deliveredSince single (single.run actions) = [1, 2, 3] ∧
      Calls.deliveredSince single (single.run actions) <+: sentValues actions :=
  ⟨by decide +kernel, by decide +kernel,
    delivered_in_order_of_sends single (Calls.fresh_new _) _ (by decide +kernel)⟩

/--
The second sender waits.  The first receiver takes the buffered value and leaves
room, which the third sender fills before the second one is served.
-/
theorem later_send_overtakes_blocked_send :
    let actions : List (Call ℕ) :=
      [.send (some 1), .send (some 2), .receive, .send (some 3), .receive]
    Calls.deliveredSince single (single.run actions) = [1, 3] ∧ sentValues actions = [1, 2, 3] ∧
      ¬ Calls.deliveredSince single (single.run actions) <+: sentValues actions := by
  refine ⟨by decide +kernel, rfl, by decide +kernel⟩

section Waiting

/-- The promises that are not settled are those in the queue, each once. -/
def Held {β : Type u} (promises : List (Promise β)) (queue : List ℕ) : Prop :=
  queue.Nodup ∧ ∀ index, promises[index]? = some .pending ↔ index ∈ queue

namespace Held

variable {β : Type u} {promises : List (Promise β)} {queue : List ℕ} {settle : Promise β → Promise β}

theorem settled (held : Held promises queue) {promise : Promise β} (isSettled : promise ≠ .pending) :
    Held (promises ++ [promise]) queue := by
  refine ⟨held.1, fun index => ?_⟩
  rw [← held.2, List.getElem?_append]
  grind

theorem waits (held : Held promises queue) :
    Held (promises ++ [.pending]) (queue ++ [promises.length]) := by
  have inside : ∀ index ∈ queue, index < promises.length := fun index mem =>
    (List.getElem?_eq_some_iff.mp ((held.2 index).mpr mem)).1
  refine ⟨by grind [held.1], fun index => ?_⟩
  rw [List.mem_append, ← held.2, List.getElem?_append]
  grind

theorem first {index : ℕ} (held : Held promises (index :: queue))
    (settles : ∀ promise, settle promise ≠ .pending) : Held (promises.modify index settle) queue := by
  refine ⟨held.1.of_cons, fun other => ?_⟩
  have := held.2 other
  have := held.1
  rw [List.getElem?_modify]
  grind

theorem all {γ : Type v} {waiting : List γ} {place : γ → ℕ} (held : Held promises (waiting.map place))
    (settles : ∀ promise, settle promise ≠ .pending) :
    Held (waiting.foldl (fun promises call => promises.modify (place call) settle) promises) [] := by
  induction waiting generalizing promises with
  | nil => exact held
  | cons call rest ih => exact ih (held.first settles)

end Held

theorem resolve_ne {β : Type u} (value : β) (promise : Promise β) :
    promise.resolve value ≠ .pending := by
  cases promise <;> simp [Promise.resolve]

theorem reject_ne {β : Type u} (promise : Promise β) : promise.reject .closed ≠ .pending := by
  cases promise <;> simp [Promise.reject]

variable {α : Type u}

inductive Action (α : Type u) where
  | call (call : Call α)
  | close
  | start

def Calls.act (calls : Calls α) : Action α → Calls α
  | .call call => calls.perform call
  | .close => calls.close
  | .start => calls.start

/-- Every call that waits is in its queue, and none waits for what is there. -/
structure Calls.Attended (calls : Calls α) : Prop where
  senders : Held calls.sent (calls.channel.sends.map BlockedSend.signal)
  receivers : Held calls.received calls.channel.receives
  idle : calls.channel.receives = [] ∨ calls.channel.values = [] ∧ calls.channel.sends = []
  room : ∀ place < calls.channel.values.length, calls.channel.capacity.gtInt place = true
  closed : calls.channel.isClosed = true → calls.channel.values = [] ∧ calls.channel.sends = [] ∧
    calls.channel.receives = []

namespace Calls.Attended

variable {calls : Calls α} (attended : calls.Attended)
include attended

theorem send (value : Option α) : (calls.send value).Attended := by
  cases isOpen : calls.channel.isClosed with
  | true =>
    simp only [Calls.send, isOpen, if_true]
    exact { attended with senders := attended.senders.settled (by simp) }
  | false =>
    cases value with
    | none =>
      rw [send_none isOpen]
      exact { attended with senders := attended.senders.settled (by simp) }
    | some value =>
      cases waiting : calls.channel.receives with
      | cons recv receives =>
        have queues := attended.idle.resolve_left (by simp [waiting])
        rw [send_of_receives isOpen waiting]
        exact ⟨attended.senders.settled (by simp),
          (waiting ▸ attended.receivers).first (resolve_ne value), Or.inr queues, attended.room,
          by simp [isOpen]⟩
      | nil =>
        cases room : calls.channel.hasRoom with
        | true =>
          rw [send_of_room isOpen waiting room]
          refine ⟨attended.senders.settled (by simp), attended.receivers, Or.inl waiting, ?_,
            by simp [isOpen]⟩
          intro place inside
          rcases Nat.lt_succ_iff_lt_or_eq.mp (by simpa using inside) with inside | rfl
          · exact attended.room place inside
          · exact room
        | false =>
          rw [send_of_full isOpen waiting room]
          exact ⟨by simpa using attended.senders.waits, attended.receivers, Or.inl waiting,
            attended.room, by simp [isOpen]⟩

theorem receive : calls.receive.Attended := by
  cases isOpen : calls.channel.isClosed with
  | true =>
    simp only [Calls.receive, isOpen, if_true]
    exact { attended with receivers := attended.receivers.settled (by simp) }
  | false =>
    have idle := attended.idle
    rcases receive_cases isOpen with ⟨value, values, queued, same⟩ |
      ⟨blocked, sends, empty, queued, same⟩ | ⟨empty, nobody, same⟩
    · have room := attended.room
      rw [queued] at idle room
      rw [same]
      exact ⟨attended.senders, attended.receivers.settled (by simp), Or.inl (by simpa using idle),
        fun place inside => room place (Nat.lt_succ_of_lt inside), by simp [isOpen]⟩
    · have senders := attended.senders
      rw [queued] at idle senders
      rw [same]
      exact ⟨senders.first (resolve_ne ()), attended.receivers.settled (by simp),
        Or.inl (by simpa using idle), attended.room, by simp [isOpen]⟩
    · rw [same]
      exact ⟨attended.senders, attended.receivers.waits, Or.inr ⟨empty, nobody⟩, attended.room,
        by simp [isOpen]⟩

theorem close : calls.close.Attended := by
  have receivers := attended.receivers
  rw [← List.map_id calls.channel.receives] at receivers
  exact ⟨attended.senders.all reject_ne, receivers.all reject_ne, Or.inl rfl, by simp [Calls.close],
    fun _ => ⟨rfl, rfl, rfl⟩⟩

theorem start : calls.start.Attended := by
  unfold Calls.start
  split
  · rename_i isClosed
    rcases attended.closed isClosed with ⟨_, sends, receives⟩
    have senders := attended.senders
    have receivers := attended.receivers
    rw [sends] at senders
    rw [receives] at receivers
    exact ⟨senders, receivers, Or.inl rfl, by simp, by simp⟩
  · exact attended

end Calls.Attended

/--
Whatever is called, closed and started on a new channel, a `send` or `receive` call is
unsettled exactly if it stands in its queue, and it stands there once.  A closed channel
has no unsettled call, a receiver waits only while there is nothing to take, and before
every value in the buffer there are fewer values than the capacity.
-/
theorem waiting_calls_are_attended (capacity : Option JsNumber) (actions : List (Action α)) :
    (actions.foldl Calls.act (Calls.new capacity : Calls α)).Attended := by
  refine List.foldlRecOn (motive := fun calls : Calls α => calls.Attended) _ _ ?_ ?_
  · refine ⟨⟨.nil, ?_⟩, ⟨.nil, ?_⟩, Or.inl rfl, ?_, ?_⟩ <;> simp [Calls.new]
  · intro calls attended action _
    rcases action with (value | _) | _ | _
    · exact attended.send value
    · exact attended.receive
    · exact attended.close
    · exact attended.start

end Waiting

end TsDrp.MessageQueue
