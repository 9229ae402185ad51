import Mathlib.Data.List.Basic

/-!
# Obligations that are incurred and discharged

A list of entries, each of which incurs or discharges the obligation of a key.
A key is owed for when it was incurred and has not been discharged since.
-/

universe u v

inductive Obligation (Key : Type u) where
  | incurred (key : Key)
  | discharged (key : Key)
deriving DecidableEq

namespace Obligation

variable {Key : Type u} {entries more : List (Obligation Key)} {key other : Key}

def Owed (entries : List (Obligation Key)) (key : Key) : Prop :=
  ∃ before after, entries = before ++ .incurred key :: after ∧ .discharged key ∉ after

theorem not_owed_nil : ¬Owed [] key := by
  rintro ⟨before, after, split, _⟩
  cases before <;> cases split

theorem Owed.of_append (owed : Owed (entries ++ more) key) :
    (Owed entries key ∧ .discharged key ∉ more) ∨ Owed more key := by
  rcases owed with ⟨before, after, split, undischarged⟩
  rcases List.append_eq_append_iff.mp split with ⟨rest, rfl, new⟩ | ⟨rest, rfl, old⟩
  · exact Or.inr ⟨rest, after, new, undischarged⟩
  · cases rest with
    | nil => exact Or.inr ⟨[], after, old.symm, undischarged⟩
    | cons entry rest =>
      cases old
      refine Or.inl ⟨⟨before, rest, rfl, ?_⟩, ?_⟩
      · exact fun mem => undischarged (List.mem_append_left _ mem)
      · exact fun mem => undischarged (List.mem_append_right _ mem)

theorem owed_append_incurred :
    Owed (entries ++ [.incurred other]) key → Owed entries key ∨ key = other := by
  intro owed
  rcases owed.of_append with ⟨old, _⟩ | new
  · exact Or.inl old
  · rcases new with ⟨before, after, split, _⟩
    cases before with
    | nil =>
      cases split
      exact Or.inr rfl
    | cons entry rest => cases rest <;> cases split

theorem owed_append_discharged {Item : Type v} {items : List Item} {of : Item → Key}
    (owed : Owed (entries ++ items.map fun item => .discharged (of item)) key) :
    Owed entries key ∧ ∀ item ∈ items, of item ≠ key := by
  rcases owed.of_append with ⟨old, undischarged⟩ | new
  · refine ⟨old, fun item mem same => undischarged ?_⟩
    rw [← same]
    exact List.mem_map_of_mem mem
  · rcases new with ⟨before, after, split, _⟩
    have mem : Obligation.incurred key ∈ items.map fun item => .discharged (of item) := by
      rw [split]
      exact List.mem_append_right _ List.mem_cons_self
    rcases List.mem_map.mp mem with ⟨_, _, same⟩
    cases same

end Obligation
