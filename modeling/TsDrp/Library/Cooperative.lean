import Mathlib.Data.List.Pairwise
import Mathlib.Data.List.Perm.Basic

/-!
# Cooperative tasks on a shared state

An asynchronous call runs in segments.  Each segment reads and writes the shared
state without interruption and ends where the call waits for something; what
other calls do meanwhile is arbitrary.  A program says what the first segment of
a request and the next segment of a waiting task do.  A run is a list of actions,
each of which names the call that goes on.

The rule for invariants is the one of rely and guarantee: an assertion about the
shared state, one about each waiting task, and one that keeps any two waiting
tasks apart are kept by a run if every action that may be taken keeps them.
-/

namespace Cooperative

universe u v w x

/-- What a call does up to its first suspension point, and from one to the next. -/
structure Program (Shared : Type u) (Task : Type v) (Request : Type w) (Event : Type x) where
  start : Request → Shared → Shared × Option Task
  resume : Event → Task → Shared → Shared × Option Task

structure Config (Shared : Type u) (Task : Type v) where
  shared : Shared
  tasks : List Task

/-- A new call, or the event that one of the waiting tasks goes on with. -/
inductive Action (Request : Type w) (Event : Type x) where
  | start (request : Request)
  | resume (index : ℕ) (event : Event)
deriving DecidableEq

variable {Shared : Type u} {Task : Type v} {Request : Type w} {Event : Type x}

/-- The waiting tasks that an action leaves alone. -/
def Config.others (config : Config Shared Task) : Action Request Event → List Task
  | .start _ => config.tasks
  | .resume index _ => config.tasks.eraseIdx index

theorem Config.mem_tasks_iff {config : Config Shared Task} {index : ℕ} {task other : Task}
    (found : config.tasks[index]? = some task) :
    other ∈ config.tasks ↔ other = task ∨ other ∈ config.tasks.eraseIdx index := by
  rcases List.getElem?_eq_some_iff.mp found with ⟨inside, rfl⟩
  rw [← (List.getElem_cons_eraseIdx_perm inside).mem_iff, List.mem_cons]

namespace Program

section Runs

variable (program : Program Shared Task Request Event)

/-- The segment of an action: the new shared state and the task that waits afterwards. -/
def effect (config : Config Shared Task) : Action Request Event → Option (Shared × Option Task)
  | .start request => some (program.start request config.shared)
  | .resume index event =>
    config.tasks[index]?.map fun task => program.resume event task config.shared

/-- An action for a task that does not exist does nothing. -/
def step (config : Config Shared Task) (action : Action Request Event) : Config Shared Task :=
  match program.effect config action with
  | none => config
  | some (shared, task) => { shared, tasks := config.others action ++ task.toList }

def run (config : Config Shared Task) (actions : List (Action Request Event)) :
    Config Shared Task :=
  actions.foldl program.step config

/-- Every action of the run is permitted in the configuration it is taken in. -/
def Permits (permitted : Config Shared Task → Action Request Event → Prop) :
    Config Shared Task → List (Action Request Event) → Prop
  | _, [] => True
  | config, action :: rest =>
    permitted config action ∧ Permits permitted (program.step config action) rest

/-- Whether every action is permitted can be decided along the run. -/
def decidePermits (permitted : Config Shared Task → Action Request Event → Prop)
    [∀ config action, Decidable (permitted config action)] :
    ∀ config actions, Decidable (program.Permits permitted config actions)
  | _, [] => inferInstanceAs (Decidable True)
  | config, action :: rest =>
    have := decidePermits permitted (program.step config action) rest
    inferInstanceAs (Decidable (_ ∧ _))

instance {permitted : Config Shared Task → Action Request Event → Prop}
    [∀ config action, Decidable (permitted config action)] (config : Config Shared Task)
    (actions : List (Action Request Event)) : Decidable (program.Permits permitted config actions) :=
  program.decidePermits permitted config actions

end Runs

variable {program : Program Shared Task Request Event}
  {permitted : Config Shared Task → Action Request Event → Prop} {config : Config Shared Task}
  {actions : List (Action Request Event)}

theorem permits_append {before after : List (Action Request Event)} :
    program.Permits permitted config (before ++ after) ↔
      program.Permits permitted config before ∧
        program.Permits permitted (program.run config before) after := by
  induction before generalizing config with
  | nil => exact (iff_of_eq (true_and _)).symm
  | cons action rest ih => exact (and_congr_right fun _ => ih).trans and_assoc.symm

theorem Permits.and_mem {Among : Action Request Event → Prop}
    (permits : program.Permits permitted config actions) (among : ∀ action ∈ actions, Among action) :
    program.Permits (fun config action => permitted config action ∧ Among action) config
      actions := by
  induction actions generalizing config with
  | nil => trivial
  | cons action rest ih =>
    rw [List.forall_mem_cons] at among
    exact ⟨⟨permits.1, among.1⟩, ih permits.2 among.2⟩

theorem permits_of_forall_mem {Among : Action Request Event → Prop}
    (among : ∀ action ∈ actions, Among action) :
    program.Permits (fun _ action => Among action) config actions := by
  induction actions generalizing config with
  | nil => trivial
  | cons action rest ih =>
    rw [List.forall_mem_cons] at among
    exact ⟨among.1, ih among.2⟩

theorem run_invariant {Holds : Config Shared Task → Prop}
    (preserved : ∀ config action, Holds config → permitted config action →
      Holds (program.step config action))
    (start : Holds config) (permits : program.Permits permitted config actions) :
    Holds (program.run config actions) := by
  induction actions generalizing config with
  | nil => exact start
  | cons action rest ih =>
    rcases permits with ⟨allowed, permits⟩
    exact ih (preserved config action start allowed) permits

/-- An assertion about the shared state, one about each waiting task, and one about any two. -/
structure Outline (Holds : Shared → Prop) (Owns : Shared → Task → Prop) (Apart : Task → Task → Prop)
    (config : Config Shared Task) : Prop where
  shared : Holds config.shared
  owns : ∀ task ∈ config.tasks, Owns config.shared task
  apart : config.tasks.Pairwise Apart

variable {Holds : Shared → Prop} {Owns : Shared → Task → Prop} {Apart : Task → Task → Prop}

theorem Outline.apart_others (outline : Outline Holds Owns Apart config)
    (symmetric : ∀ {task other}, Apart task other → Apart other task)
    {index : ℕ} {task other : Task} (found : config.tasks[index]? = some task)
    (mem : other ∈ config.tasks.eraseIdx index) : Apart task other := by
  rcases List.getElem?_eq_some_iff.mp found with ⟨inside, rfl⟩
  have perm := List.getElem_cons_eraseIdx_perm inside
  have apart := (perm.pairwise_iff symmetric).mpr outline.apart
  exact List.rel_of_pairwise_cons apart mem

/--
The rule of rely and guarantee.  A segment keeps the assertion about the shared
state, interferes with none of the waiting tasks, and leaves its own task, if it
waits again, with its assertion and apart from the others.
-/
theorem run_outline
    (guarantee : ∀ config action shared task, Outline Holds Owns Apart config →
      permitted config action → program.effect config action = some (shared, task) →
        Holds shared ∧ (∀ other ∈ config.others action, Owns shared other) ∧
          ∀ new ∈ task, Owns shared new ∧ ∀ other ∈ config.others action, Apart other new)
    (start : Outline Holds Owns Apart config)
    (permits : program.Permits permitted config actions) :
    Outline Holds Owns Apart (program.run config actions) := by
  apply run_invariant _ start permits
  intro config action outline allowed
  unfold step
  cases effect : program.effect config action with
  | none => exact outline
  | some result =>
    rcases result with ⟨shared, task⟩
    rcases guarantee config action shared task outline allowed effect with ⟨holds, rely, new⟩
    have apart : (config.others action).Pairwise Apart := by
      cases action with
      | start request => exact outline.apart
      | resume index event => exact outline.apart.sublist (List.eraseIdx_sublist _ _)
    refine ⟨holds, fun waiting mem => ?_, ?_⟩
    · rcases List.mem_append.mp mem with old | mem
      · exact rely waiting old
      · exact (new waiting (Option.mem_toList.mp mem)).1
    · refine List.pairwise_append.mpr ⟨apart, ?_, fun other old waiting mem => ?_⟩
      · cases task <;> simp
      · exact (new waiting (Option.mem_toList.mp mem)).2 other old

end Program

/-- What is asked of a call when it starts and of a waiting task when an event lets it go on. -/
structure Guard (Shared : Type u) (Task : Type v) (Request : Type w) (Event : Type x) where
  start : Shared → Request → Prop
  resume : Shared → Event → Task → Prop

def Guard.Allows (guard : Guard Shared Task Request Event) (config : Config Shared Task) :
    Action Request Event → Prop
  | .start request => guard.start config.shared request
  | .resume index event =>
    match config.tasks[index]? with
    | some task => guard.resume config.shared event task
    | none => True

instance (guard : Guard Shared Task Request Event)
    [∀ shared request, Decidable (guard.start shared request)]
    [∀ shared event task, Decidable (guard.resume shared event task)] (config : Config Shared Task)
    (action : Action Request Event) : Decidable (guard.Allows config action) :=
  match action with
  | .start request => inferInstanceAs (Decidable (guard.start config.shared request))
  | .resume index event => by
      unfold Guard.Allows
      dsimp only
      split <;> infer_instance

/--
A program whose guarded segments keep an assertion about the shared state and, for every
task that waits, one about the task.
-/
structure Program.Keeps (program : Program Shared Task Request Event)
    (guard : Guard Shared Task Request Event) (Holds : Shared → Prop)
    (Owns : Shared → Task → Prop) : Prop where
  start : ∀ shared request, Holds shared → guard.start shared request →
    Holds (program.start request shared).1 ∧
      (∀ task, Owns shared task → Owns (program.start request shared).1 task) ∧
      ∀ new ∈ (program.start request shared).2, Owns (program.start request shared).1 new
  resume : ∀ shared event task, Holds shared → Owns shared task →
    guard.resume shared event task →
    Holds (program.resume event task shared).1 ∧
      (∀ other, Owns shared other → Owns (program.resume event task shared).1 other) ∧
      ∀ new ∈ (program.resume event task shared).2, Owns (program.resume event task shared).1 new

theorem Program.Keeps.run {program : Program Shared Task Request Event}
    {guard : Guard Shared Task Request Event} {Holds : Shared → Prop} {Owns : Shared → Task → Prop}
    (keeps : program.Keeps guard Holds Owns) {config : Config Shared Task}
    (holds : Holds config.shared) (owns : ∀ task ∈ config.tasks, Owns config.shared task)
    {actions : List (Action Request Event)} (permits : program.Permits guard.Allows config actions) :
    Holds (program.run config actions).shared := by
  have start : Program.Outline Holds Owns (fun _ _ => True) config :=
    ⟨holds, owns, List.pairwise_of_forall fun _ _ => trivial⟩
  refine (Program.run_outline (fun config action shared task outline allowed effect => ?_) start
    permits).shared
  cases action with
  | start request =>
    have same : program.start request config.shared = (shared, task) := Option.some.inj effect
    rcases keeps.start config.shared request outline.shared allowed with ⟨holds, others, new⟩
    rw [same] at holds others new
    exact ⟨holds, fun other mem => others other (outline.owns other mem),
      fun waiting isNew => ⟨new waiting isNew, fun _ _ => trivial⟩⟩
  | resume index event =>
    rcases Option.map_eq_some_iff.mp effect with ⟨current, found, same⟩
    have isAllowed : guard.resume config.shared event current := by
      rwa [Guard.Allows, found] at allowed
    rcases keeps.resume config.shared event current outline.shared
      (outline.owns current (List.mem_of_getElem? found)) isAllowed with ⟨holds, others, new⟩
    rw [same] at holds others new
    exact ⟨holds, fun other mem => others other (outline.owns other (List.mem_of_mem_eraseIdx mem)),
      fun waiting isNew => ⟨new waiting isNew, fun _ _ => trivial⟩⟩

section Both

variable {Shared' : Type u} {Task' : Type v} {Request' : Type w} {Event' : Type x}

/-- Two programs side by side, each on its own state; their calls interleave. -/
def Program.both (first : Program Shared Task Request Event)
    (second : Program Shared' Task' Request' Event') :
    Program (Shared × Shared') (Task ⊕ Task') (Request ⊕ Request') (Event ⊕ Event') where
  start := fun request shared =>
    match request with
    | .inl request =>
      let started := first.start request shared.1
      ((started.1, shared.2), started.2.map .inl)
    | .inr request =>
      let started := second.start request shared.2
      ((shared.1, started.1), started.2.map .inr)
  resume := fun event task shared =>
    match event, task with
    | .inl event, .inl task =>
      let resumed := first.resume event task shared.1
      ((resumed.1, shared.2), resumed.2.map .inl)
    | .inr event, .inr task =>
      let resumed := second.resume event task shared.2
      ((shared.1, resumed.1), resumed.2.map .inr)
    | _, task => (shared, some task)

def Guard.both (first : Guard Shared Task Request Event)
    (second : Guard Shared' Task' Request' Event') :
    Guard (Shared × Shared') (Task ⊕ Task') (Request ⊕ Request') (Event ⊕ Event') where
  start := fun shared => Sum.elim (first.start shared.1) (second.start shared.2)
  resume := fun shared event task =>
    match event, task with
    | .inl event, .inl task => first.resume shared.1 event task
    | .inr event, .inr task => second.resume shared.2 event task
    | _, _ => True

instance (first : Guard Shared Task Request Event) (second : Guard Shared' Task' Request' Event')
    [∀ shared request, Decidable (first.start shared request)]
    [∀ shared request, Decidable (second.start shared request)] (shared : Shared × Shared')
    (request : Request ⊕ Request') : Decidable ((first.both second).start shared request) :=
  match request with
  | .inl request => inferInstanceAs (Decidable (first.start shared.1 request))
  | .inr request => inferInstanceAs (Decidable (second.start shared.2 request))

instance (first : Guard Shared Task Request Event) (second : Guard Shared' Task' Request' Event')
    [∀ shared event task, Decidable (first.resume shared event task)]
    [∀ shared event task, Decidable (second.resume shared event task)] (shared : Shared × Shared')
    (event : Event ⊕ Event') (task : Task ⊕ Task') :
    Decidable ((first.both second).resume shared event task) :=
  match event, task with
  | .inl event, .inl task => inferInstanceAs (Decidable (first.resume shared.1 event task))
  | .inr event, .inr task => inferInstanceAs (Decidable (second.resume shared.2 event task))
  | .inl _, .inr _ | .inr _, .inl _ => .isTrue trivial

theorem Program.Keeps.both {first : Program Shared Task Request Event}
    {second : Program Shared' Task' Request' Event'} {guard : Guard Shared Task Request Event}
    {guard' : Guard Shared' Task' Request' Event'} {Holds : Shared → Prop}
    {Owns : Shared → Task → Prop} {Holds' : Shared' → Prop} {Owns' : Shared' → Task' → Prop}
    (keeps : first.Keeps guard Holds Owns) (keeps' : second.Keeps guard' Holds' Owns') :
    (first.both second).Keeps (guard.both guard') (fun shared => Holds shared.1 ∧ Holds' shared.2)
      (fun shared => Sum.elim (Owns shared.1) (Owns' shared.2)) where
  start := by
    rintro ⟨shared, shared'⟩ request ⟨holds, holds'⟩ allowed
    cases request with
    | inl request =>
      rcases keeps.start shared request holds allowed with ⟨kept, others, new⟩
      refine ⟨⟨kept, holds'⟩, fun task owns => ?_, fun task isNew => ?_⟩
      · cases task with
        | inl task => exact others task owns
        | inr task => exact owns
      · rcases Option.map_eq_some_iff.mp isNew with ⟨waiting, isWaiting, rfl⟩
        exact new waiting isWaiting
    | inr request =>
      rcases keeps'.start shared' request holds' allowed with ⟨kept, others, new⟩
      refine ⟨⟨holds, kept⟩, fun task owns => ?_, fun task isNew => ?_⟩
      · cases task with
        | inl task => exact owns
        | inr task => exact others task owns
      · rcases Option.map_eq_some_iff.mp isNew with ⟨waiting, isWaiting, rfl⟩
        exact new waiting isWaiting
  resume := by
    rintro ⟨shared, shared'⟩ event task ⟨holds, holds'⟩ owns allowed
    have waits : ∀ new ∈ some task, Sum.elim (Owns shared) (Owns' shared') new := by
      intro new isNew
      cases Option.mem_some.mp isNew
      exact owns
    cases event with
    | inl event =>
      cases task with
      | inl task =>
        rcases keeps.resume shared event task holds owns allowed with ⟨kept, others, new⟩
        refine ⟨⟨kept, holds'⟩, fun task owns => ?_, fun task isNew => ?_⟩
        · cases task with
          | inl task => exact others task owns
          | inr task => exact owns
        · rcases Option.map_eq_some_iff.mp isNew with ⟨waiting, isWaiting, rfl⟩
          exact new waiting isWaiting
      | inr task => exact ⟨⟨holds, holds'⟩, fun _ owns => owns, waits⟩
    | inr event =>
      cases task with
      | inl task => exact ⟨⟨holds, holds'⟩, fun _ owns => owns, waits⟩
      | inr task =>
        rcases keeps'.resume shared' event task holds' owns allowed with ⟨kept, others, new⟩
        refine ⟨⟨holds, kept⟩, fun task owns => ?_, fun task isNew => ?_⟩
        · cases task with
          | inl task => exact owns
          | inr task => exact others task owns
        · rcases Option.map_eq_some_iff.mp isNew with ⟨waiting, isWaiting, rfl⟩
          exact new waiting isWaiting

end Both

end Cooperative
