import Mathlib.Tactic.Common

/-!
# Bit sets

A bit set is an array of 32-bit words.  A position outside the array reads as
`false` and is not written.  On the wire the words are written byte by byte, the
lowest byte first.
-/

namespace TsDrp

inductive FinalityError where
  /-- `Error` -/
  | error (message : String)
  | rangeError (message : String)
  /-- A public key that cannot be decoded; the text is that of the library. -/
  | malformedKey
deriving DecidableEq

structure BitSet where
  data : List (BitVec 32)
deriving DecidableEq

namespace BitSet

/-- `Math.ceil(bits / 32)` -/
def wordCount (bits : ℕ) : ℕ := (bits + 31) / 32

def ofLength (bits : ℕ) : BitSet := ⟨List.replicate (wordCount bits) 0⟩

/-- `getUint32` at every fourth byte, little-endian. -/
def wordsOf : List (BitVec 8) → List (BitVec 32)
  | first :: second :: third :: fourth :: rest =>
    (fourth ++ third ++ second ++ first : BitVec 32) :: wordsOf rest
  | _ => []

/-- `new BitSet(bits, bytes)` -/
def ofBytes (bits : ℕ) (bytes : List (BitVec 8)) : Except FinalityError BitSet :=
  if bytes.length ≠ wordCount bits * 4 then
    .error (.rangeError ("Expected " ++ toString (wordCount bits * 4) ++ " bytes, received " ++
      toString bytes.length))
  else .ok ⟨wordsOf bytes⟩

def bytesOf (word : BitVec 32) : List (BitVec 8) :=
  [word.extractLsb' 0 8, word.extractLsb' 8 8, word.extractLsb' 16 8, word.extractLsb' 24 8]

def toBytes (bitSet : BitSet) : List (BitVec 8) := bitSet.data.flatMap bytesOf

def set (bitSet : BitSet) (index : ℕ) (value : Bool) : BitSet where
  data := bitSet.data.modify (index / 32) fun word =>
    if value then word ||| (1#32 <<< (index % 32)) else word &&& ~~~(1#32 <<< (index % 32))

def get (bitSet : BitSet) (index : ℕ) : Bool :=
  bitSet.data.getD (index / 32) 0 &&& (1#32 <<< (index % 32)) ≠ 0

def or (bitSet other : BitSet) : BitSet where
  data := bitSet.data.mapIdx fun index word => word ||| other.data.getD index 0

theorem get_eq (bitSet : BitSet) (index : ℕ) :
    bitSet.get index = (bitSet.data.getD (index / 32) 0).getLsbD (index % 32) := by
  have small : index % 32 < 32 := Nat.mod_lt _ (by decide)
  rw [get, ← BitVec.twoPow_eq, BitVec.and_twoPow]
  cases bit : (bitSet.data.getD (index / 32) 0).getLsbD (index % 32) with
  | false => simp
  | true =>
    have nonzero : BitVec.twoPow 32 (index % 32) ≠ 0 := by
      intro zero
      have read := congrArg (fun word => BitVec.getLsbD word (index % 32)) zero
      simp [small] at read
    simpa using nonzero

@[simp]
theorem get_ofLength (bits index : ℕ) : (ofLength bits).get index = false := by
  rw [get_eq, ofLength, List.getD_eq_getElem?_getD, List.getElem?_replicate]
  split <;> simp

theorem get_set (bitSet : BitSet) (index : ℕ) (value : Bool) (other : ℕ) :
    (bitSet.set index value).get other =
      if other = index ∧ index / 32 < bitSet.data.length then value else bitSet.get other := by
  have small : other % 32 < 32 := Nat.mod_lt _ (by decide)
  have indexSmall : index % 32 < 32 := Nat.mod_lt _ (by decide)
  have sameIndex : index / 32 = other / 32 → index % 32 = other % 32 → other = index := by omega
  rw [get_eq, get_eq, set, List.getD_eq_getElem?_getD, List.getElem?_modify, List.getD_eq_getElem?_getD]
  cases found : bitSet.data[other / 32]? with
  | none =>
    have outside := List.getElem?_eq_none_iff.mp found
    rw [if_neg (by rintro ⟨rfl, inside⟩; omega)]
    rfl
  | some word =>
    have inside : other / 32 < bitSet.data.length := (List.getElem?_eq_some_iff.mp found).1
    by_cases sameWord : index / 32 = other / 32
    · by_cases sameBit : index % 32 = other % 32
      · have same := sameIndex sameWord sameBit
        rw [if_pos ⟨same, sameWord ▸ inside⟩]
        cases value <;> simp [sameWord, sameBit, small]
      · rw [if_neg (by rintro ⟨rfl, _⟩; exact sameBit rfl)]
        cases value <;> simp [sameWord, small] <;> grind
    · rw [if_neg (by rintro ⟨rfl, _⟩; exact sameWord rfl)]
      simp [sameWord]

@[simp]
theorem length_set (bitSet : BitSet) (index : ℕ) (value : Bool) :
    (bitSet.set index value).data.length = bitSet.data.length := List.length_modify ..

theorem get_of_get_or {bitSet other : BitSet} {index : ℕ} (read : (bitSet.or other).get index = true) :
    bitSet.get index = true ∨ other.get index = true := by
  rw [get_eq, or, List.getD_eq_getElem?_getD, List.getElem?_mapIdx] at read
  rw [get_eq, get_eq, List.getD_eq_getElem?_getD]
  cases found : bitSet.data[index / 32]? with
  | none => simp [found] at read
  | some word => simpa [found] using read

theorem get_eq_false {bitSet : BitSet} {index : ℕ} (outside : bitSet.data.length ≤ index / 32) :
    bitSet.get index = false := by
  rw [get_eq, List.getD_eq_getElem?_getD, List.getElem?_eq_none outside]
  simp

theorem length_wordsOf {count : ℕ} {bytes : List (BitVec 8)} (length : bytes.length = count * 4) :
    (wordsOf bytes).length = count := by
  induction count generalizing bytes with
  | zero =>
    have empty : bytes = [] := List.eq_nil_of_length_eq_zero (by omega)
    rw [empty]
    rfl
  | succ count ih =>
    rcases bytes with _ | ⟨first, _ | ⟨second, _ | ⟨third, _ | ⟨fourth, rest⟩⟩⟩⟩
    case cons.cons.cons.cons =>
      have restLength : rest.length = count * 4 := by
        simp only [List.length_cons] at length
        omega
      rw [wordsOf, List.length_cons, ih restLength]
    all_goals
      simp only [List.length_cons, List.length_nil] at length
      omega

theorem length_of_ofBytes {bits : ℕ} {bytes : List (BitVec 8)} {bitSet : BitSet}
    (decoded : ofBytes bits bytes = .ok bitSet) :
    bytes.length = wordCount bits * 4 ∧ bitSet.data.length = wordCount bits := by
  unfold ofBytes at decoded
  split at decoded
  · cases decoded
  · rename_i length
    rw [ne_eq, not_not] at length
    cases decoded
    exact ⟨length, length_wordsOf length⟩

theorem append_bytes (word : BitVec 32) :
    (word.extractLsb' 24 8 ++ word.extractLsb' 16 8 ++ word.extractLsb' 8 8 ++
      word.extractLsb' 0 8 : BitVec 32) = word := by
  apply BitVec.eq_of_getLsbD_eq
  intro index small
  simp only [BitVec.getLsbD_append, BitVec.getLsbD_extractLsb']
  grind

theorem wordsOf_flatMap_bytesOf (data : List (BitVec 32)) :
    wordsOf (data.flatMap bytesOf) = data := by
  induction data with
  | nil => rfl
  | cons word rest ih =>
    rw [List.flatMap_cons, bytesOf, List.cons_append, List.cons_append, List.cons_append,
      List.cons_append, List.nil_append, wordsOf, ih, append_bytes]

theorem ofBytes_toBytes {bits : ℕ} {bitSet : BitSet} (length : bitSet.data.length = wordCount bits) :
    ofBytes bits bitSet.toBytes = .ok bitSet := by
  have byteLength : bitSet.toBytes.length = wordCount bits * 4 := by
    rw [toBytes, ← length]
    induction bitSet.data with
    | nil => rfl
    | cons word rest ih =>
      rw [List.flatMap_cons, List.length_append, ih, List.length_cons]
      simp only [bytesOf, List.length_cons, List.length_nil]
      omega
  rw [ofBytes, if_neg (by simp [byteLength]), toBytes, wordsOf_flatMap_bytesOf]

/-- The loop that clears the positions from `start` up to `stop`. -/
def clear (bitSet : BitSet) (start stop : ℕ) : BitSet :=
  (List.range' start (stop - start)).foldl (fun bitSet index => bitSet.set index false) bitSet

theorem foldl_set_false (indices : List ℕ) (bitSet : BitSet) :
    (indices.foldl (fun bitSet index => bitSet.set index false) bitSet).data.length =
        bitSet.data.length ∧
      ∀ index, (indices.foldl (fun bitSet index => bitSet.set index false) bitSet).get index =
        (decide (index ∉ indices) && bitSet.get index) := by
  induction indices generalizing bitSet with
  | nil => simp
  | cons head rest ih =>
    rcases ih (bitSet.set head false) with ⟨length, read⟩
    refine ⟨length.trans (length_set ..), fun index => ?_⟩
    rw [List.foldl_cons, read, get_set]
    by_cases same : index = head
    · subst same
      by_cases inside : index / 32 < bitSet.data.length
      · simp [inside]
      · simp [inside, get_eq_false (Nat.not_lt.mp inside)]
    · simp [same]

theorem length_clear (bitSet : BitSet) (start stop : ℕ) :
    (bitSet.clear start stop).data.length = bitSet.data.length := (foldl_set_false _ _).1

theorem get_clear {bitSet : BitSet} {start stop : ℕ} (whole : bitSet.data.length * 32 ≤ stop)
    (index : ℕ) : (bitSet.clear start stop).get index = (decide (index < start) && bitSet.get index) := by
  rw [clear, (foldl_set_false _ _).2]
  simp only [List.mem_range'_1]
  by_cases early : index < start
  · simp [early]
  · by_cases inside : index < stop
    · have cleared : start ≤ index ∧ index < start + (stop - start) := by omega
      simp [early, cleared]
    · rw [get_eq_false (by omega)]
      simp

theorem exists_get (bits : ℕ) (selected : ℕ → Bool) :
    ∃ bitSet : BitSet, bitSet.data.length = wordCount bits ∧
      ∀ index < bits, bitSet.get index = selected index := by
  have upTo : ∀ count ≤ bits, ∃ bitSet : BitSet, bitSet.data.length = wordCount bits ∧
      ∀ index < count, bitSet.get index = selected index := by
    intro count
    induction count with
    | zero => exact fun _ => ⟨ofLength bits, List.length_replicate, fun _ impossible => by omega⟩
    | succ count ih =>
      intro bound
      rcases ih (by omega) with ⟨bitSet, length, read⟩
      refine ⟨bitSet.set count (selected count), (length_set ..).trans length, fun index small => ?_⟩
      rw [get_set, length]
      by_cases same : index = count
      · subst same
        rw [if_pos ⟨rfl, by unfold wordCount; omega⟩]
      · rw [if_neg fun both => same both.1]
        exact read index (by omega)
  exact upTo bits (Nat.le_refl bits)

end BitSet

end TsDrp
