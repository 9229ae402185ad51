import Mathlib.Data.Nat.Basic
import TsDrp.Library.EventRun

/-!
# The interval runner

Every `start` begins a chain: an execution of the function, a timer, the next
execution and so on.  An execution may be suspended for as long as it likes.
When it goes on, it looks only at whether the runner is running, so that a chain
that was stopped while its function was suspended lives on if the runner has been
started again in between.  The runner has one chain when it is only started while
no execution is suspended.
-/

namespace TsDrp

inductive RunnerChain where
  | executing
  | scheduled
  | ended
deriving DecidableEq

/-- The chains are numbered by their starts.  `intervalId` is the last timer that was set and not
cleared, named by its chain; it may have fired. -/
structure IntervalRunner where
  running : Bool
  intervalId : Option ℕ
  chains : List RunnerChain

inductive RunnerOutcome where
  | returned (result : Bool)
  | thrown
deriving DecidableEq

inductive RunnerEvent where
  | start
  | stop
  | fires (chain : ℕ)
  | settles (chain : ℕ) (outcome : RunnerOutcome)
deriving DecidableEq

inductive RunnerEffect where
  | begins (chain : ℕ)
  | schedules (chain : ℕ)
  | stops (chain : ℕ)
deriving DecidableEq

def RunnerEffect.chain : RunnerEffect → ℕ
  | begins chain | schedules chain | stops chain => chain

namespace IntervalRunner

def create : IntervalRunner where
  running := false
  intervalId := none
  chains := []

section Methods

variable (runner : IntervalRunner)

def clearTimeout : Option ℕ → List RunnerChain
  | some chain =>
    if runner.chains[chain]? = some .scheduled then runner.chains.set chain .ended
    else runner.chains
  | none => runner.chains

/-- `stop` of a runner that does not run changes nothing, whether it throws or not. -/
def stop : IntervalRunner :=
  if runner.running then
    { running := false, intervalId := none, chains := runner.clearTimeout runner.intervalId }
  else runner

def scheduleNext (chain : ℕ) : IntervalRunner × List RunnerEffect :=
  if runner.running then
    ({ runner with chains := runner.chains.set chain .executing }, [.begins chain])
  else ({ runner with chains := runner.chains.set chain .ended }, [])

/-- `start` throws if the runner is running. -/
def start : IntervalRunner × List RunnerEffect :=
  if runner.running then (runner, [])
  else scheduleNext { runner with running := true, chains := runner.chains ++ [.ended] }
    runner.chains.length

def settle (chain : ℕ) : RunnerOutcome → IntervalRunner × List RunnerEffect
  | .returned true =>
    if runner.running then
      ({ runner with
          intervalId := some chain
          chains := runner.chains.set chain .scheduled }, [.schedules chain])
    else ({ runner with chains := runner.chains.set chain .ended }, [])
  | .returned false | .thrown =>
    ({ runner.stop with chains := runner.stop.chains.set chain .ended },
      if runner.running then [.stops chain] else [])

def step (event : RunnerEvent) : IntervalRunner × List RunnerEffect :=
  match event with
  | .start => runner.start
  | .stop => (runner.stop, [])
  | .fires chain =>
    if runner.chains[chain]? = some .scheduled then runner.scheduleNext chain else (runner, [])
  | .settles chain outcome =>
    if runner.chains[chain]? = some .executing then runner.settle chain outcome else (runner, [])

def run (events : List RunnerEvent) : IntervalRunner :=
  events.foldl (fun runner event => (runner.step event).1) runner

def StartsQuietly (event : RunnerEvent) : Prop :=
  event = .start → runner.running = false → .executing ∉ runner.chains

instance (event : RunnerEvent) : Decidable (runner.StartsQuietly event) :=
  inferInstanceAs (Decidable (_ → _ → _))

abbrev Quiet : List RunnerEvent → Prop :=
  EventRun.Guarded (fun runner event => (runner.step event).1) StartsQuietly runner

inductive Move : RunnerEvent → IntervalRunner × List RunnerEffect → Prop where
  | stays {event : RunnerEvent} : Move event (runner, [])
  | starts {effect : RunnerEffect} (idle : runner.running = false)
      (own : effect.chain = runner.chains.length) :
      Move .start ({ runner with running := true, chains := runner.chains ++ [.executing] }, [effect])
  | stops {event : RunnerEvent} : Move event (runner.stop, [])
  | goesOn {event : RunnerEvent} {chain : ℕ} {state : RunnerChain} {intervalId : Option ℕ}
      {effects : List RunnerEffect} (alive : ∃ state ≠ .ended, runner.chains[chain]? = some state)
      (timer : state = .scheduled → runner.running = true ∧ intervalId = some chain)
      (own : ∀ effect ∈ effects, effect.chain = chain ∧ runner.running = true) :
      Move event ({ runner with intervalId, chains := runner.chains.set chain state }, effects)
  | givesUp {event : RunnerEvent} {chain : ℕ} {effects : List RunnerEffect}
      (alive : ∃ state ≠ .ended, runner.chains[chain]? = some state)
      (own : ∀ effect ∈ effects, effect.chain = chain ∧ runner.running = true) :
      Move event ({ runner.stop with chains := runner.stop.chains.set chain .ended }, effects)

/-- Only the chain of the last start is alive, and its timer can be cleared. -/
structure OneChain : Prop where
  last : ∀ chain, ∀ state ≠ .ended, runner.chains[chain]? = some state →
    chain + 1 = runner.chains.length
  scheduled : ∀ chain, runner.chains[chain]? = some .scheduled →
    runner.running = true ∧ runner.intervalId = some chain

end Methods

variable {runner : IntervalRunner} {chain : ℕ} {event : RunnerEvent} {events : List RunnerEvent}

theorem move_settle {outcome : RunnerOutcome} (suspended : runner.chains[chain]? = some .executing) :
    runner.Move event (runner.settle chain outcome) := by
  have alive : ∃ state ≠ .ended, runner.chains[chain]? = some state := ⟨_, by decide, suspended⟩
  have own : ∀ effect ∈ if runner.running then [RunnerEffect.stops chain] else [],
      effect.chain = chain ∧ runner.running = true := by
    split
    · simpa [RunnerEffect.chain]
    · exact fun _ mem => (nomatch mem)
  unfold settle
  split
  · split
    case isTrue running => exact .goesOn alive (fun _ => ⟨running, rfl⟩) (by simpa [RunnerEffect.chain])
    case isFalse => exact .goesOn alive nofun (fun _ mem => nomatch mem)
  · exact .givesUp alive own
  · exact .givesUp alive own

theorem move_step : runner.Move event (runner.step event) := by
  cases event with
  | start =>
    dsimp only [step, start]
    split
    case isTrue => exact .stays
    case isFalse idle =>
      simp only [scheduleNext, if_pos, List.set_append_right, le_refl, Nat.sub_self, List.set_cons_zero]
      exact .starts (Bool.eq_false_iff.mpr idle) rfl
  | stop => exact .stops
  | fires chain =>
    dsimp only [step, scheduleNext]
    split
    case isTrue waiting =>
      have alive : ∃ state ≠ .ended, runner.chains[chain]? = some state := ⟨_, by decide, waiting⟩
      split
      · exact .goesOn alive nofun (by simpa [RunnerEffect.chain])
      · exact .goesOn alive nofun (fun _ mem => nomatch mem)
    case isFalse => exact .stays
  | settles chain outcome =>
    dsimp only [step]
    split
    case isTrue suspended => exact move_settle suspended
    case isFalse => exact .stays

theorem length_stop : runner.stop.chains.length = runner.chains.length := by
  unfold stop clearTimeout
  split
  · dsimp only
    split
    · split
      · exact List.length_set
      · rfl
    · rfl
  · rfl

theorem running_stop : runner.stop.running = false := by
  unfold stop
  split
  · rfl
  · exact Bool.eq_false_iff.mpr ‹_›

namespace OneChain

variable (only : runner.OneChain)
include only

theorem set (last : chain + 1 = runner.chains.length) {state : RunnerChain} {running : Bool}
    {intervalId : Option ℕ}
    (scheduled : state = .scheduled → running = true ∧ intervalId = some chain) :
    OneChain { running, intervalId, chains := runner.chains.set chain state } := by
  have lives : ∀ index, ∀ value ≠ .ended, (runner.chains.set chain state)[index]? = some value →
      index = chain ∧ value = state := by
    intro index value alive found
    by_cases same : chain = index
    · rw [same, List.getElem?_set_self (by omega)] at found
      exact ⟨same.symm, (Option.some.inj found).symm⟩
    · rw [List.getElem?_set_ne same] at found
      have := only.last index value alive found
      omega
  refine ⟨?_, ?_⟩
  · intro index value alive found
    rw [(lives index value alive found).1, List.length_set]
    exact last
  · intro index found
    rcases lives index _ (by decide) found with ⟨rfl, isState⟩
    exact scheduled isState.symm

theorem stop : runner.stop.OneChain := by
  unfold IntervalRunner.stop
  split
  · cases timer : runner.intervalId with
    | some chain =>
      dsimp only [clearTimeout]
      split
      case isTrue waiting => exact only.set (only.last chain _ (by decide) waiting) nofun
      case isFalse fired =>
        refine ⟨only.last, ?_⟩
        intro index found
        cases timer.symm.trans (only.scheduled index found).2
        exact (fired found).elim
    | none =>
      refine ⟨only.last, ?_⟩
      intro index found
      cases timer.symm.trans (only.scheduled index found).2
  · exact only

theorem start (quiet : .executing ∉ runner.chains) (idle : runner.running = false) :
    OneChain { runner with running := true, chains := runner.chains ++ [.executing] } := by
  have lives : ∀ index, ∀ value ≠ .ended,
      (runner.chains ++ [RunnerChain.executing])[index]? = some value →
        index = runner.chains.length ∧ value = .executing := by
    intro index value alive found
    by_cases old : index < runner.chains.length
    · rw [List.getElem?_append_left old] at found
      cases value with
      | executing => exact (quiet (List.mem_of_getElem? found)).elim
      | scheduled => cases idle.symm.trans (only.scheduled index found).1
      | ended => exact (alive rfl).elim
    · rw [List.getElem?_append_right (by omega), List.getElem?_singleton] at found
      split at found
      · exact ⟨by omega, (Option.some.inj found).symm⟩
      · cases found
  refine ⟨?_, ?_⟩
  · intro index value alive found
    rw [(lives index value alive found).1, List.length_append, List.length_singleton]
  · intro index found
    cases (lives index _ (by decide) found).2

theorem step (quiet : runner.StartsQuietly event) : (runner.step event).1.OneChain := by
  have moved := @move_step runner event
  generalize runner.step event = next at moved
  cases moved with
  | stays => exact only
  | starts idle => exact only.start (quiet rfl idle) idle
  | stops => exact only.stop
  | goesOn alive timer =>
    rcases alive with ⟨state, alive, found⟩
    exact only.set (only.last _ state alive found) timer
  | givesUp alive =>
    rcases alive with ⟨state, alive, found⟩
    exact only.stop.set ((only.last _ state alive found).trans length_stop.symm) nofun

theorem run (quiet : runner.Quiet events) : (runner.run events).OneChain :=
  quiet.invariant OneChain (fun _ _ quiet only => only.step quiet) only

/-- Whatever a chain does, it is the last one of a running runner, or it is just started. -/
theorem effect {effect : RunnerEffect} (acts : effect ∈ (runner.step event).2) :
    effect.chain + 1 = runner.chains.length ∧ runner.running = true ∨
      effect.chain = runner.chains.length ∧ event = .start := by
  have moved := @move_step runner event
  generalize runner.step event = next at acts moved
  cases moved with
  | stays | stops => cases acts
  | starts idle own =>
    cases List.mem_singleton.mp acts
    exact Or.inr ⟨own, rfl⟩
  | goesOn alive _ own | givesUp alive own =>
    rcases alive with ⟨state, alive, found⟩
    rw [(own effect acts).1]
    exact Or.inl ⟨only.last _ state alive found, (own effect acts).2⟩

end OneChain

theorem step_grows : (runner.step event).1.chains.length = runner.chains.length ∧
      ((runner.step event).1.running = true → runner.running = true) ∨
    event = .start ∧ (runner.step event).1.chains.length = runner.chains.length + 1 := by
  have moved := @move_step runner event
  generalize runner.step event = next at moved
  have stopped : runner.stop.running = true → runner.running = true := fun running => by
    cases running_stop.symm.trans running
  cases moved with
  | stays => exact Or.inl ⟨rfl, id⟩
  | starts => exact Or.inr ⟨rfl, List.length_append⟩
  | stops => exact Or.inl ⟨length_stop, stopped⟩
  | goesOn => exact Or.inl ⟨List.length_set, id⟩
  | givesUp => exact Or.inl ⟨List.length_set.trans length_stop, stopped⟩

theorem run_grows {chains : ℕ} (known : chains ≤ runner.chains.length)
    (idle : runner.running = true → chains < runner.chains.length) :
    chains ≤ (runner.run events).chains.length ∧
      ((runner.run events).running = true → chains < (runner.run events).chains.length) := by
  induction events generalizing runner with
  | nil => exact ⟨known, idle⟩
  | cons event events ih =>
    change _ ≤ ((runner.step event).1.run events).chains.length ∧ _
    rcases @step_grows runner event with ⟨same, still⟩ | ⟨_, grown⟩
    · refine ih (same ▸ known) fun running => ?_
      rw [same]
      exact idle (still running)
    · exact ih (by omega) fun _ => by omega

theorem running_run (idle : runner.running = false) (unstarted : .start ∉ events) :
    (runner.run events).running = false := by
  induction events generalizing runner with
  | nil => exact idle
  | cons event events ih =>
    rw [List.mem_cons, not_or] at unstarted
    refine ih (Bool.eq_false_iff.mpr fun running => ?_) unstarted.2
    rcases @step_grows runner event with ⟨_, still⟩ | ⟨isStart, _⟩
    · cases idle.symm.trans (still running)
    · exact unstarted.1 isStart.symm

/--
A runner that is only started while no execution is suspended has one chain: whatever begins or
schedules an execution or stops the runner is the chain of the last start.  After a `stop` no
earlier chain does so any more, and none at all before the next start.
-/
theorem runner_has_one_chain (events : List RunnerEvent) (quiet : create.Quiet events)
    (event : RunnerEvent) (effect : RunnerEffect)
    (acts : effect ∈ ((create.run events).step event).2) :
    (event ≠ .start → effect.chain + 1 = (create.run events).chains.length) ∧
      ∀ before during, events = before ++ .stop :: during →
        (create.run before).chains.length ≤ effect.chain ∧ (.start ∈ during ∨ event = .start) := by
  have only : create.OneChain := ⟨fun _ _ _ found => (nomatch found), fun _ found => (nomatch found)⟩
  have acting := (only.run quiet).effect acts
  refine ⟨?_, ?_⟩
  · intro running
    rcases acting with ⟨last, _⟩ | ⟨_, isStart⟩
    · exact last
    · exact (running isStart).elim
  · rintro before during rfl
    have resumed : create.run (before ++ .stop :: during) = (create.run before).stop.run during :=
      List.foldl_append
    rw [resumed] at acting
    have grown := @run_grows (create.run before).stop during _ (Nat.le_of_eq length_stop.symm)
      fun running => by cases running_stop.symm.trans running
    rcases acting with ⟨last, running⟩ | ⟨new, isStart⟩
    · refine ⟨?_, Or.inl ?_⟩
      · have more := grown.2 running
        omega
      · by_contra unstarted
        cases (running_run running_stop unstarted).symm.trans running
    · exact ⟨new ▸ grown.1, Or.inr isStart⟩

theorem runner_has_one_chain_restarted :
    (RunnerEvent.fires 1 ≠ .start → 1 + 1 =
        (create.run [.start, .stop, .settles 0 (.returned true), .start,
          .settles 1 (.returned true)]).chains.length) ∧
      ∀ before during, [.start, .stop, .settles 0 (.returned true), .start,
          .settles 1 (.returned true)] = before ++ .stop :: during →
        (create.run before).chains.length ≤ 1 ∧ (.start ∈ during ∨ RunnerEvent.fires 1 = .start) :=
  runner_has_one_chain [.start, .stop, .settles 0 (.returned true), .start,
    .settles 1 (.returned true)] (by decide) (.fires 1) (.begins 1) (by decide)

/-- A chain that was stopped while its function was suspended: it schedules another execution or
stops the runner that was started again, and both chains go on. -/
theorem stopped_chain_goes_on :
    ((create.run [.start, .stop, .start]).step (.settles 0 (.returned true))).2 = [.schedules 0] ∧
      ((create.run [.start, .stop, .start]).step (.settles 0 .thrown)).2 = [.stops 0] ∧
      ∀ chain < 2, ((create.run [.start, .stop, .start, .settles 0 (.returned true),
        .settles 1 (.returned true)]).step (.fires chain)).2 = [.begins chain] := by
  decide

end IntervalRunner

end TsDrp
