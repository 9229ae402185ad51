import Mathlib.Data.Finset.Card
import Mathlib.Data.Option.Basic

/-!
# Maps in the order of insertion

A finite map whose entries are listed in the order in which their keys came in,
as the maps of JavaScript are: a key that is set again keeps its place, and one
that is deleted and set again moves to the end.  The keys of the list are
distinct, so looking a key up and finding its entry in the list are the same.
-/

universe u v w

structure InsertionMap (Key : Type u) (Value : Type v) where
  entries : List (Key × Value)
  nodup : (entries.map Prod.fst).Nodup

namespace InsertionMap

variable {Key : Type u} {Value : Type v}

def empty : InsertionMap Key Value := ⟨[], List.nodup_nil⟩

instance : Inhabited (InsertionMap Key Value) := ⟨empty⟩

section Operations

variable (map : InsertionMap Key Value)

def size : ℕ := map.entries.length

def values : List Value := map.entries.map Prod.snd

def filter (keep : Key × Value → Bool) : InsertionMap Key Value :=
  ⟨map.entries.filter keep, map.nodup.sublist (List.filter_sublist.map _)⟩

variable [DecidableEq Key] (key : Key)

def get : Option Value := (map.entries.find? fun entry => entry.1 = key).map Prod.snd

def delete : InsertionMap Key Value := map.filter fun entry => entry.1 ≠ key

def setEntries (value : Value) : List (Key × Value) :=
  if key ∈ map.entries.map Prod.fst then
    map.entries.map fun entry => if entry.1 = key then (key, value) else entry
  else map.entries ++ [(key, value)]

theorem nodup_setEntries (value : Value) : ((map.setEntries key value).map Prod.fst).Nodup := by
  unfold setEntries
  split
  case isTrue =>
    have same : (map.entries.map fun entry => if entry.1 = key then (key, value) else entry).map
        Prod.fst = map.entries.map Prod.fst := by
      rw [List.map_map]
      apply List.map_congr_left
      intro entry _
      by_cases sameKey : entry.1 = key <;> simp [sameKey]
    rw [same]
    exact map.nodup
  case isFalse absent =>
    rw [List.map_append]
    exact map.nodup.append (List.nodup_singleton _) (by simpa using absent)

def set (value : Value) : InsertionMap Key Value :=
  ⟨map.setEntries key value, map.nodup_setEntries key value⟩

end Operations

variable {map : InsertionMap Key Value} [DecidableEq Key] {key other : Key} {value : Value}

theorem get_eq_some_iff : map.get key = some value ↔ (key, value) ∈ map.entries := by
  unfold get
  constructor
  · intro found
    rcases Option.map_eq_some_iff.mp found with ⟨entry, first, rfl⟩
    have sameKey : entry.1 = key := by simpa using List.find?_some first
    rw [← sameKey]
    exact List.mem_of_find?_eq_some first
  · intro mem
    have present : (map.entries.find? fun entry => entry.1 = key).isSome := by
      rw [List.find?_isSome]
      exact ⟨_, mem, by simp⟩
    rcases Option.isSome_iff_exists.mp present with ⟨entry, first⟩
    have sameKey : entry.1 = key := by simpa using List.find?_some first
    have same := List.inj_on_of_nodup_map map.nodup (List.mem_of_find?_eq_some first) mem sameKey
    rw [first, same]
    rfl

theorem get_eq_none_iff : map.get key = none ↔ key ∉ map.entries.map Prod.fst := by
  rw [Option.eq_none_iff_forall_ne_some]
  simp [get_eq_some_iff]

@[simp]
theorem get_empty : (empty : InsertionMap Key Value).get key = none := rfl

theorem get_set_self : (map.set key value).get key = some value := by
  rw [get_eq_some_iff]
  unfold set setEntries
  split
  case isTrue present =>
    rcases List.mem_map.mp present with ⟨entry, mem, sameKey⟩
    exact List.mem_map.mpr ⟨entry, mem, if_pos sameKey⟩
  case isFalse => exact List.mem_append_right _ List.mem_cons_self

theorem mem_set_of_ne (different : other ≠ key) {found : Value} :
    (other, found) ∈ (map.set key value).entries ↔ (other, found) ∈ map.entries := by
  unfold set setEntries
  split
  case isTrue =>
    rw [List.mem_map]
    constructor
    · rintro ⟨entry, mem, same⟩
      split at same
      case isTrue =>
        cases same
        exact absurd rfl different
      case isFalse => exact same ▸ mem
    · intro mem
      exact ⟨_, mem, if_neg different⟩
  case isFalse => simp [different]

theorem get_set_of_ne (different : other ≠ key) : (map.set key value).get other = map.get other := by
  apply Option.ext
  intro found
  rw [get_eq_some_iff, get_eq_some_iff, mem_set_of_ne different]

theorem get_set : (map.set key value).get other = if other = key then some value else map.get other := by
  split
  case isTrue same =>
    rw [same]
    exact get_set_self
  case isFalse different => exact get_set_of_ne different

theorem mem_values : value ∈ map.values ↔ ∃ key, map.get key = some value := by
  simp [values, get_eq_some_iff]

theorem size_eq_card {keys : Finset Key} (present : ∀ key, key ∈ keys ↔ (map.get key).isSome) :
    map.size = keys.card := by
  have same : (map.entries.map Prod.fst).toFinset = keys := by
    ext key
    rw [List.mem_toFinset, present, ← not_iff_not, ← get_eq_none_iff, Option.not_isSome_iff_eq_none]
  rw [← same, List.toFinset_card_of_nodup map.nodup, List.length_map, size]

theorem size_set : (map.set key value).size = map.size + if map.get key = none then 1 else 0 := by
  change (map.setEntries key value).length = _
  unfold setEntries
  split
  case isTrue present =>
    have found : map.get key ≠ none := fun absent => get_eq_none_iff.mp absent present
    rw [if_neg found, List.length_map, size, Nat.add_zero]
  case isFalse absent =>
    rw [if_pos (get_eq_none_iff.mpr absent), List.length_append, List.length_singleton, size]

theorem map_values_set {Image : Type w} {image : Value → Image} {old : Value}
    (found : map.get key = some old) (same : image value = image old) :
    (map.set key value).values.map image = map.values.map image := by
  have present : key ∈ map.entries.map Prod.fst :=
    List.mem_map_of_mem (get_eq_some_iff.mp found)
  change ((map.setEntries key value).map Prod.snd).map image = (map.entries.map Prod.snd).map image
  rw [setEntries, if_pos present, List.map_map, List.map_map, List.map_map]
  apply List.map_congr_left
  intro entry mem
  by_cases sameKey : entry.1 = key
  · have get : map.get key = some entry.2 := by
      rw [get_eq_some_iff, ← sameKey]
      exact mem
    rw [found] at get
    simp [sameKey, same, Option.some.inj get]
  · simp [sameKey]

theorem size_delete_le : (map.delete key).size ≤ map.size :=
  List.length_filter_le _ _

theorem get_filter_eq_some {keep : Key × Value → Bool} :
    (map.filter keep).get key = some value ↔ map.get key = some value ∧ keep (key, value) = true := by
  rw [get_eq_some_iff, get_eq_some_iff]
  exact List.mem_filter

theorem get_delete_self : (map.delete key).get key = none := by
  rw [get_eq_none_iff]
  simp [delete, filter]

theorem get_delete_of_ne (different : other ≠ key) : (map.delete key).get other = map.get other := by
  apply Option.ext
  intro found
  rw [delete, get_filter_eq_some]
  simp [different]

theorem perm_delete (found : map.get key = some value) :
    map.entries.Perm ((key, value) :: (map.delete key).entries) := by
  have absent : (key, value) ∉ (map.delete key).entries := by simp [delete, filter]
  rw [List.perm_ext_iff_of_nodup (map.nodup.of_map _)
    (List.nodup_cons.mpr ⟨absent, (map.delete key).nodup.of_map _⟩)]
  rintro ⟨other, held⟩
  rw [List.mem_cons, ← get_eq_some_iff, ← get_eq_some_iff]
  by_cases same : other = key
  · simp [same, found, get_delete_self, eq_comm]
  · simp [same, get_delete_of_ne same]

theorem entries_set (absent : map.get key = none) :
    (map.set key value).entries = map.entries ++ [(key, value)] :=
  if_neg (get_eq_none_iff.mp absent)

theorem entries_delete_set : ((map.set key value).delete key).entries = (map.delete key).entries := by
  change (map.setEntries key value).filter _ = map.entries.filter _
  unfold setEntries
  split
  · induction map.entries with
    | nil => rfl
    | cons entry rest ih => by_cases same : entry.1 = key <;> simp_all
  · simp

theorem countP_values_set_le (property : Value → Bool) :
    (map.set key value).values.countP property ≤
      map.values.countP property + if property value then 1 else 0 := by
  have renewed := (perm_delete (@get_set_self _ _ map _ key value)).map Prod.snd
  rw [values, renewed.countP_eq, entries_delete_set, List.map_cons, List.countP_cons]
  exact Nat.add_le_add_right ((List.filter_sublist.map _).countP_le) _

end InsertionMap
