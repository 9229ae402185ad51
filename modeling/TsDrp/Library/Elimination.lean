import Mathlib.Data.List.Basic
import Mathlib.Data.List.Pairwise
import Mathlib.Tactic.Common

/-!
# Elimination along a list

Every entry that is still in the list challenges all those after it, until it
loses a duel.  The entries that are left at the end have no quarrel with each
other, and each of the others has lost against an entry that was then still in
the list.  Since a survivor has met everybody who was in the list with it, an
entry that has a quarrel with a survivor eliminates nobody behind it.
-/

namespace Elimination

universe u

/-- How a duel between an entry and a later one ends. -/
inductive Verdict where
  | peace
  | loses
  | wins
deriving DecidableEq

variable {Entry : Type u} {duel : Entry → Entry → Verdict}

/-- Whether the challenger has lost, and the entries after it that are left. -/
def challenge (duel : Entry → Entry → Verdict) (challenger : Entry) : List Entry → Bool × List Entry
  | [] => (false, [])
  | entry :: rest =>
    match duel challenger entry with
    | .peace => ((challenge duel challenger rest).1, entry :: (challenge duel challenger rest).2)
    | .wins => challenge duel challenger rest
    | .loses => (true, entry :: rest)

section Challenge

variable {challenger entry other : Entry} {rest : List Entry}

@[simp]
theorem challenge_nil : challenge duel challenger [] = (false, []) := rfl

@[simp]
theorem challenge_of_peace (peace : duel challenger entry = .peace) :
    challenge duel challenger (entry :: rest) =
      ((challenge duel challenger rest).1, entry :: (challenge duel challenger rest).2) := by
  rw [challenge, peace]

@[simp]
theorem challenge_of_wins (wins : duel challenger entry = .wins) :
    challenge duel challenger (entry :: rest) = challenge duel challenger rest := by
  rw [challenge, wins]

@[simp]
theorem challenge_of_loses (loses : duel challenger entry = .loses) :
    challenge duel challenger (entry :: rest) = (true, entry :: rest) := by
  rw [challenge, loses]

theorem challenge_sublist (duel : Entry → Entry → Verdict) (challenger : Entry) (rest : List Entry) :
    (challenge duel challenger rest).2.Sublist rest := by
  induction rest with
  | nil => exact .slnil
  | cons entry rest ih =>
    cases verdict : duel challenger entry with
    | peace => simpa [verdict] using ih
    | wins => simpa [verdict] using ih.cons entry
    | loses => simp [verdict]

theorem peace_of_challenge (stays : (challenge duel challenger rest).1 = false)
    (mem : other ∈ (challenge duel challenger rest).2) : duel challenger other = .peace := by
  induction rest with
  | nil => cases mem
  | cons entry rest ih =>
    cases verdict : duel challenger entry with
    | peace =>
      rw [challenge_of_peace verdict] at stays mem
      rcases List.mem_cons.mp mem with rfl | mem
      · exact verdict
      · exact ih stays mem
    | wins =>
      rw [challenge_of_wins verdict] at stays mem
      exact ih stays mem
    | loses =>
      rw [challenge_of_loses verdict] at stays
      cases stays

theorem exists_loses_of_challenge (goes : (challenge duel challenger rest).1 = true) :
    ∃ winner ∈ rest, duel challenger winner = .loses := by
  induction rest with
  | nil => cases goes
  | cons entry rest ih =>
    cases verdict : duel challenger entry with
    | peace =>
      rw [challenge_of_peace verdict] at goes
      rcases ih goes with ⟨winner, mem, loses⟩
      exact ⟨winner, .tail _ mem, loses⟩
    | wins =>
      rw [challenge_of_wins verdict] at goes
      rcases ih goes with ⟨winner, mem, loses⟩
      exact ⟨winner, .tail _ mem, loses⟩
    | loses => exact ⟨entry, List.mem_cons_self, verdict⟩

variable {before : Entry → Entry → Prop}

theorem wins_of_challenge (ordered : rest.Pairwise before)
    (asymm : ∀ {first second}, before first second → ¬before second first) {gone : Entry}
    (mem : gone ∈ rest) (goes : gone ∉ (challenge duel challenger rest).2) :
    duel challenger gone = .wins ∧
      ∀ passed ∈ (challenge duel challenger rest).2, before passed gone →
        duel challenger passed = .peace := by
  induction rest with
  | nil => cases mem
  | cons entry rest ih =>
    rcases List.pairwise_cons.mp ordered with ⟨entryBefore, restOrdered⟩
    cases verdict : duel challenger entry with
    | peace =>
      rw [challenge_of_peace verdict] at goes ⊢
      rcases List.mem_cons.mp mem with rfl | mem
      · exact absurd List.mem_cons_self goes
      rcases ih restOrdered mem (fun inRest => goes (.tail _ inRest)) with ⟨wins, passes⟩
      refine ⟨wins, fun passed passedMem isBefore => ?_⟩
      rcases List.mem_cons.mp passedMem with rfl | passedMem
      · exact verdict
      · exact passes passed passedMem isBefore
    | wins =>
      rw [challenge_of_wins verdict] at goes ⊢
      rcases List.mem_cons.mp mem with rfl | mem
      · refine ⟨verdict, fun passed passedMem isBefore => ?_⟩
        have after := entryBefore passed ((challenge_sublist _ _ _).subset passedMem)
        exact absurd isBefore (asymm after)
      · exact ih restOrdered mem goes
    | loses =>
      rw [challenge_of_loses verdict] at goes
      exact absurd mem goes

end Challenge

/-- The entries that are left when everybody still in the list has challenged the others. -/
def survivors (duel : Entry → Entry → Verdict) : List Entry → List Entry
  | [] => []
  | entry :: rest =>
    if (challenge duel entry rest).1 then survivors duel (challenge duel entry rest).2
    else entry :: survivors duel (challenge duel entry rest).2
termination_by entries => entries.length
decreasing_by all_goals exact Nat.lt_succ_of_le (challenge_sublist _ _ _).length_le

section Survivors

variable {entry : Entry} {rest entries : List Entry}

@[simp]
theorem survivors_nil : survivors duel [] = [] := by rw [survivors]

theorem survivors_of_goes (goes : (challenge duel entry rest).1 = true) :
    survivors duel (entry :: rest) = survivors duel (challenge duel entry rest).2 := by
  rw [survivors, if_pos goes]

theorem survivors_of_stays (stays : (challenge duel entry rest).1 = false) :
    survivors duel (entry :: rest) = entry :: survivors duel (challenge duel entry rest).2 := by
  rw [survivors, if_neg (by simp [stays])]

theorem survivors_sublist (duel : Entry → Entry → Verdict) (entries : List Entry) :
    (survivors duel entries).Sublist entries := by
  induction entries using survivors.induct duel with
  | case1 => simp
  | case2 entry rest goes ih =>
    rw [survivors_of_goes goes]
    exact (ih.trans (challenge_sublist _ _ _)).cons entry
  | case3 entry rest stays ih =>
    rw [survivors_of_stays (by simpa using stays)]
    exact (ih.trans (challenge_sublist _ _ _)).cons_cons entry

theorem survivors_pairwise (duel : Entry → Entry → Verdict) (entries : List Entry) :
    (survivors duel entries).Pairwise fun earlier later => duel earlier later = .peace := by
  induction entries using survivors.induct duel with
  | case1 => simp
  | case2 entry rest goes ih =>
    rw [survivors_of_goes goes]
    exact ih
  | case3 entry rest stays ih =>
    have stays : (challenge duel entry rest).1 = false := by simpa using stays
    rw [survivors_of_stays stays]
    refine List.pairwise_cons.mpr ⟨fun other mem => ?_, ih⟩
    exact peace_of_challenge stays ((survivors_sublist _ _).subset mem)

def Defeats (duel : Entry → Entry → Verdict) (before : Entry → Entry → Prop) (winner loser : Entry) :
    Prop :=
  (before winner loser ∧ duel winner loser = .wins) ∨ (before loser winner ∧ duel loser winner = .loses)

/-- Two entries that have no quarrel, whichever comes first. -/
def AtPeace (duel : Entry → Entry → Verdict) (before : Entry → Entry → Prop) (first second : Entry) :
    Prop :=
  (before first second → duel first second = .peace) ∧
    (before second first → duel second first = .peace)

variable {before : Entry → Entry → Prop}

/--
Whoever is eliminated has lost against an entry that is at peace with all other
survivors before the loser.
-/
theorem exists_defeats (ordered : entries.Pairwise before)
    (asymm : ∀ {first second}, before first second → ¬before second first) {loser : Entry}
    (mem : loser ∈ entries) (goes : loser ∉ survivors duel entries) :
    ∃ winner ∈ entries, Defeats duel before winner loser ∧
      ∀ survivor ∈ survivors duel entries, before survivor loser → survivor ≠ winner →
        AtPeace duel before survivor winner := by
  induction entries using survivors.induct duel with
  | case1 => cases mem
  | case2 entry rest entryGoes ih =>
    rcases List.pairwise_cons.mp ordered with ⟨entryBefore, restOrdered⟩
    have sublist := challenge_sublist duel entry rest
    rw [survivors_of_goes entryGoes] at goes ⊢
    rcases List.mem_cons.mp mem with rfl | mem
    · rcases exists_loses_of_challenge entryGoes with ⟨winner, winnerMem, loses⟩
      refine ⟨winner, .tail _ winnerMem, Or.inr ⟨entryBefore winner winnerMem, loses⟩, ?_⟩
      intro survivor survivorMem isBefore
      have after := entryBefore survivor (((survivors_sublist _ _).trans sublist).subset survivorMem)
      exact absurd isBefore (asymm after)
    · by_cases left : loser ∈ (challenge duel entry rest).2
      · rcases ih (restOrdered.sublist sublist) left goes with ⟨winner, winnerMem, spec⟩
        exact ⟨winner, .tail _ (sublist.subset winnerMem), spec⟩
      · rcases wins_of_challenge restOrdered asymm mem left with ⟨wins, passes⟩
        refine ⟨entry, List.mem_cons_self, Or.inl ⟨entryBefore loser mem, wins⟩, ?_⟩
        intro survivor survivorMem isBefore _
        have survivorLeft := (survivors_sublist _ _).subset survivorMem
        have after := entryBefore survivor (sublist.subset survivorLeft)
        exact ⟨fun isBefore => absurd isBefore (asymm after),
          fun _ => passes survivor survivorLeft isBefore⟩
  | case3 entry rest entryStays ih =>
    have entryStays : (challenge duel entry rest).1 = false := by simpa using entryStays
    rcases List.pairwise_cons.mp ordered with ⟨entryBefore, restOrdered⟩
    have sublist := challenge_sublist duel entry rest
    rw [survivors_of_stays entryStays, List.mem_cons, not_or] at goes
    rw [survivors_of_stays entryStays]
    have mem := (List.mem_cons.mp mem).resolve_left goes.1
    by_cases left : loser ∈ (challenge duel entry rest).2
    · rcases ih (restOrdered.sublist sublist) left goes.2 with ⟨winner, winnerMem, defeats, peace⟩
      refine ⟨winner, .tail _ (sublist.subset winnerMem), defeats, ?_⟩
      intro survivor survivorMem isBefore different
      rcases List.mem_cons.mp survivorMem with rfl | survivorMem
      · have after := entryBefore winner (sublist.subset winnerMem)
        exact ⟨fun _ => peace_of_challenge entryStays winnerMem,
          fun isBefore => absurd isBefore (asymm after)⟩
      · exact peace survivor survivorMem isBefore different
    · rcases wins_of_challenge restOrdered asymm mem left with ⟨wins, passes⟩
      refine ⟨entry, List.mem_cons_self, Or.inl ⟨entryBefore loser mem, wins⟩, ?_⟩
      intro survivor survivorMem isBefore different
      have survivorMem := (List.mem_cons.mp survivorMem).resolve_left different
      have survivorLeft := (survivors_sublist _ _).subset survivorMem
      have after := entryBefore survivor (sublist.subset survivorLeft)
      exact ⟨fun isBefore => absurd isBefore (asymm after),
        fun _ => passes survivor survivorLeft isBefore⟩

end Survivors

end Elimination
