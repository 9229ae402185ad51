import Mathlib.Tactic.Common

/-!
# Computations that may raise an exception

Peeling a sequence of fallible steps apart, and comparing two runs that raise
the same exceptions and return related values.
-/

universe u v w x

namespace Outcome

variable {Error : Type u} {First Second Value : Type v} {Other : Type w}
  {run : Except Error First} {next : First → Except Error Second} {change : First → Other}
  {raised : Error}

theorem bind_eq_ok {value : Second} :
    (run >>= next) = .ok value ↔ ∃ middle, run = .ok middle ∧ next middle = .ok value := by
  cases run <;> simp [bind, Except.bind]

theorem then_eq_ok {check : Except Error PUnit.{v + 1}} {next : PUnit → Except Error Value}
    {value : Value} :
    (check >>= next) = .ok value ↔ check = .ok ⟨⟩ ∧ next ⟨⟩ = .ok value := by
  cases check <;> simp [bind, Except.bind]

theorem bind_eq_error :
    (run >>= next) = .error raised ↔
      run = .error raised ∨ ∃ middle, run = .ok middle ∧ next middle = .error raised := by
  cases run <;> simp [bind, Except.bind]

theorem map_eq_ok {value : Other} :
    run.map change = .ok value ↔ ∃ middle, run = .ok middle ∧ change middle = value := by
  cases run <;> simp [Except.map]

theorem map_eq_error : run.map change = .error raised ↔ run = .error raised := by
  cases run <;> simp [Except.map]

@[simp]
theorem ok_bind (value : First) (next : First → Except Error Second) :
    ((.ok value : Except Error First) >>= next) = next value := rfl

@[simp]
theorem error_bind (error : Error) (next : First → Except Error Second) :
    ((.error error : Except Error First) >>= next) = .error error := rfl

@[simp]
theorem pure_eq_ok (value : Value) : (pure value : Except Error Value) = .ok value := rfl

@[simp]
theorem map_ok (change : First → Other) (value : First) :
    (.ok value : Except Error First).map change = .ok (change value) := rfl

@[simp]
theorem map_error (change : First → Other) (error : Error) :
    (.error error : Except Error First).map change = .error error := rfl

theorem ok_ne_error {value : Value} : (.ok value : Except Error Value) ≠ .error raised :=
  fun same => nomatch same

theorem bind_ne_error (first : run ≠ .error raised)
    (second : ∀ middle, run = .ok middle → next middle ≠ .error raised) :
    (run >>= next) ≠ .error raised := by
  intro failed
  rcases bind_eq_error.mp failed with here | ⟨middle, returned, later⟩
  · exact first here
  · exact second middle returned later

def FailsOnlyWith (allowed : Error → Prop) (run : Except Error Value) : Prop :=
  ∀ error, run = .error error → allowed error

namespace FailsOnlyWith

variable {allowed : Error → Prop}

theorem ok (value : Value) : FailsOnlyWith allowed (.ok value : Except Error Value) :=
  fun _ failed => nomatch failed

theorem error {error : Error} (isAllowed : allowed error) :
    FailsOnlyWith allowed (.error error : Except Error Value) := by
  intro raised failed
  cases failed
  exact isAllowed

theorem bind (first : FailsOnlyWith allowed run)
    (second : ∀ middle, run = .ok middle → FailsOnlyWith allowed (next middle)) :
    FailsOnlyWith allowed (run >>= next) := by
  intro raised failed
  rcases bind_eq_error.mp failed with here | ⟨middle, returned, later⟩
  · exact first raised here
  · exact second middle returned raised later

theorem map (first : FailsOnlyWith allowed run) (change : First → Other) :
    FailsOnlyWith allowed (run.map change) := by
  cases run with
  | ok value => exact .ok _
  | error raised => exact .error (first raised rfl)

end FailsOnlyWith

theorem exists_of_toBool {run : Except Error Value} (returns : run.toBool = true) :
    ∃ value, run = .ok value := by
  cases run with
  | error error => cases returns
  | ok value => exact ⟨value, rfl⟩

section

variable {Entry : Type v} {entries : List Entry}

theorem forM_eq_ok {check : Entry → Except Error PUnit.{w + 1}} :
    forM entries check = .ok ⟨⟩ ↔ ∀ entry ∈ entries, check entry = .ok ⟨⟩ := by
  induction entries with
  | nil => simp
  | cons entry rest ih =>
    rw [List.forM_cons, then_eq_ok, List.forall_mem_cons, ← ih]

theorem mapM_returns_iff {Result : Type w} {change : Entry → Except Error Result} :
    (∃ results, entries.mapM change = .ok results) ↔
      ∀ entry ∈ entries, ∃ result, change entry = .ok result := by
  induction entries with
  | nil => simp
  | cons entry rest ih =>
    rw [List.forall_mem_cons, ← ih]
    simp only [List.mapM_cons, bind_eq_ok, pure_eq_ok]
    constructor
    · rintro ⟨_, result, first, results, others, _⟩
      exact ⟨⟨result, first⟩, results, others⟩
    · rintro ⟨⟨result, first⟩, results, others⟩
      exact ⟨_, result, first, results, others, rfl⟩

theorem length_of_mapM_eq_ok {Result : Type w} {change : Entry → Except Error Result}
    {results : List Result} (returned : entries.mapM change = .ok results) :
    results.length = entries.length := by
  induction entries generalizing results with
  | nil =>
    cases returned
    rfl
  | cons entry rest ih =>
    simp only [List.mapM_cons, bind_eq_ok, pure_eq_ok] at returned
    rcases returned with ⟨_, _, others, returned, same⟩
    cases same
    rw [List.length_cons, List.length_cons, ih returned]

theorem exists_of_forM_eq_error {check : Entry → Except Error PUnit.{w + 1}}
    (failed : forM entries check = .error raised) :
    ∃ entry ∈ entries, check entry = .error raised := by
  induction entries with
  | nil => cases failed
  | cons entry rest ih =>
    rw [List.forM_cons] at failed
    rcases bind_eq_error.mp failed with here | ⟨_, _, later⟩
    · exact ⟨entry, List.mem_cons_self, here⟩
    · rcases ih later with ⟨found, mem, failed⟩
      exact ⟨found, .tail _ mem, failed⟩

end

/-- Two runs that raise the same exception, or return related values. -/
inductive Related (relation : Value → Other → Prop) :
    Except Error Value → Except Error Other → Prop where
  | ok {left : Value} {right : Other} (holds : relation left right) :
      Related relation (.ok left) (.ok right)
  | error (error : Error) : Related relation (.error error) (.error error)

namespace Related

variable {relation weaker : Value → Other → Prop} {left : Except Error Value}
  {right : Except Error Other}

theorem cases (related : Related relation left right) :
    (∃ error, left = .error error ∧ right = .error error) ∨
      ∃ value other, left = .ok value ∧ right = .ok other ∧ relation value other := by
  cases related with
  | ok holds => exact Or.inr ⟨_, _, rfl, rfl, holds⟩
  | error error => exact Or.inl ⟨error, rfl, rfl⟩

theorem mono (implies : ∀ value other, relation value other → weaker value other)
    (related : Related relation left right) : Related weaker left right := by
  cases related with
  | ok holds => exact .ok (implies _ _ holds)
  | error error => exact .error error

theorem map {Next : Type w} {Next' : Type x} {after : Next → Next' → Prop} {change : Value → Next}
    {change' : Other → Next'} (related : Related relation left right)
    (changes : ∀ value other, relation value other → after (change value) (change' other)) :
    Related after (left.map change) (right.map change') := by
  cases related with
  | ok holds => exact .ok (changes _ _ holds)
  | error error => exact .error error

end Related

end Outcome
