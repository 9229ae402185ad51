import TsDrp.JsValue
import TsDrp.Library.Outcome

/-!
# The protobuf reader

Relays answer in protobuf, which the client reads by hand.  A message is a list of fields; each
has a tag with its number and its wire type, and a variable-length integer or a length and that
many bytes.  Of the wire types only these two are read.

The reader works on the bytes from its offset on.  It inverts the standard encoding, and of any
bytes whatever it accepts only those that are headers and values one after the other.
-/

namespace TsDrp.Protobuf

/-- `Number(value)` of a natural number: the nearest double, of two the even one. -/
def toNumber (value : ℕ) : ℕ :=
  let shift := value.log2 - 52
  let kept := value >>> shift
  let lost := value % 2 ^ shift
  if 2 ^ shift < 2 * lost ∨ (2 ^ shift = 2 * lost ∧ kept % 2 = 1) then (kept + 1) <<< shift
  else kept <<< shift

/-- The loop of `readVarint`, with the value read so far. -/
def readVarintFrom (value shift : ℕ) : List UInt8 → Except JsError (ℕ × List UInt8)
  | [] => .error (.error "invalid Relay v2 protobuf varint")
  | byte :: rest =>
    if 63 < shift then .error (.error "invalid Relay v2 protobuf varint")
    else
      let value := value ||| (byte &&& 0x7f).toNat <<< shift
      if byte &&& 0x80 = 0 then .ok (value, rest) else readVarintFrom value (shift + 7) rest

/-- The value and the bytes from `next` on. -/
def readVarint (bytes : List UInt8) : Except JsError (ℕ × List UInt8) := readVarintFrom 0 0 bytes

/-- The wire type 0 goes with an integer and the wire type 2 with bytes. -/
inductive FieldValue where
  | varint (value : ℕ)
  | bytes (value : List UInt8)
deriving DecidableEq

structure ProtobufField where
  field : ℕ
  value : FieldValue
deriving DecidableEq

/--
One turn of the loop.  A length that passes the first check is at most the number of all bytes,
so its conversion to a number is exact.
-/
def readField (byteLength : ℕ) (bytes : List UInt8) :
    Except JsError (ProtobufField × List UInt8) := do
  let (tag, afterTag) ← readVarint bytes
  let field := toNumber (tag >>> 3)
  let wire := tag &&& 7
  if field < 1 ∨ (wire ≠ 0 ∧ wire ≠ 2) then
    .error (.error "unsupported Relay v2 protobuf field")
  else if wire = 0 then
    let (scalar, next) ← readVarint afterTag
    .ok (⟨field, .varint scalar⟩, next)
  else
    let (length, next) ← readVarint afterTag
    if byteLength < length then .error (.error "invalid Relay v2 protobuf length")
    else if next.length < length then .error (.error "truncated Relay v2 protobuf field")
    else .ok (⟨field, .bytes (next.take length)⟩, next.drop length)

/-- The loop of `decodeProtobufFields`, which ends when no bytes are left. -/
def readFields (byteLength : ℕ) : ℕ → List UInt8 → Except JsError (List ProtobufField)
  | _, [] => .ok []
  | 0, _ :: _ => .error .diverges
  | turns + 1, bytes => do
      let (field, rest) ← readField byteLength bytes
      let fields ← readFields byteLength turns rest
      .ok (field :: fields)

def decodeProtobufFields (bytes : List UInt8) : Except JsError (List ProtobufField) :=
  readFields bytes.length bytes.length bytes

/-! ## The standard encoding -/

/-- Seven bits to a byte, the lowest first, and the high bit on all but the last. -/
def encodeVarint (value : ℕ) : List UInt8 :=
  if value < 128 then [.ofNat value] else .ofNat (value % 128 + 128) :: encodeVarint (value / 128)
termination_by value

def FieldValue.wire : FieldValue → ℕ
  | .varint _ => 0
  | .bytes _ => 2

def FieldValue.encode : FieldValue → List UInt8
  | .varint value => encodeVarint value
  | .bytes value => encodeVarint value.length ++ value

def ProtobufField.encode (field : ProtobufField) : List UInt8 :=
  encodeVarint (8 * field.field + field.value.wire) ++ field.value.encode

/-- The fields that the format has; a byte array has fewer than `2 ^ 53` bytes. -/
structure ProtobufField.Encodable (field : ProtobufField) : Prop where
  positive : 1 ≤ field.field
  small : field.field < 2 ^ 29
  varint : ∀ value, field.value = .varint value → value < 2 ^ 64
  bytes : ∀ value, field.value = .bytes value → value.length < 2 ^ 53

/-- The bytes that a field takes from the input as they are. -/
def ProtobufField.payload (field : ProtobufField) : List UInt8 :=
  match field.value with
  | .varint _ => []
  | .bytes value => value

section Varint

theorem toNumber_of_lt {value : ℕ} (small : value < 2 ^ 53) : toNumber value = value := by
  have shift : value.log2 - 52 = 0 := by
    by_cases zero : value = 0
    · simp [zero]
    · have bound := (Nat.log2_lt zero).mpr small
      omega
  simp [toNumber, shift, Nat.mod_one]

theorem low_bits (digit : Fin 128) :
    (UInt8.ofNat digit &&& 0x7f).toNat = digit ∧ UInt8.ofNat digit &&& 0x80 = 0 ∧
      (UInt8.ofNat (digit + 128) &&& 0x7f).toNat = digit ∧
      UInt8.ofNat (digit + 128) &&& 0x80 ≠ 0 := by
  revert digit
  decide +kernel

theorem or_shiftLeft {value shift : ℕ} (small : value < 2 ^ shift) (digit : ℕ) :
    value ||| digit <<< shift = value + 2 ^ shift * digit := by
  rw [Nat.shiftLeft_eq, Nat.mul_comm, Nat.or_comm, ← Nat.two_pow_add_eq_or_of_lt small]
  omega

theorem readVarintFrom_encode {free value shift number : ℕ} (rest : List UInt8)
    (room : shift + 7 * free = 63) (read : value < 2 ^ shift)
    (fits : number < 2 ^ (7 * free + 7)) :
    readVarintFrom value shift (encodeVarint number ++ rest) =
      .ok (value + 2 ^ shift * number, rest) := by
  have inTime : ¬63 < shift := by omega
  rw [encodeVarint]
  by_cases last : number < 128
  · rcases low_bits ⟨number, last⟩ with ⟨digit, isLast, _⟩
    rw [if_pos last, List.singleton_append, readVarintFrom, if_neg inTime, digit, if_pos isLast,
      or_shiftLeft read]
  · rcases low_bits ⟨number % 128, Nat.mod_lt _ (by decide)⟩ with ⟨_, _, digit, goesOn⟩
    rw [if_neg last, List.cons_append, readVarintFrom, if_neg inTime, digit, if_neg goesOn,
      or_shiftLeft read]
    cases free with
    | zero =>
      rw [Nat.mul_zero, Nat.zero_add] at fits
      omega
    | succ free =>
      have later : 2 ^ (shift + 7) = 2 ^ shift * 128 := Nat.pow_add ..
      have grown : value + 2 ^ shift * (number % 128) < 2 ^ (shift + 7) := by
        have digitBound : number % 128 ≤ 127 := by omega
        have bound := Nat.mul_le_mul_left (2 ^ shift) digitBound
        omega
      have smaller : number / 128 < 2 ^ (7 * free + 7) := by
        rw [Nat.div_lt_iff_lt_mul (by decide)]
        calc number < 2 ^ (7 * (free + 1) + 7) := fits
          _ = 2 ^ (7 * free + 7) * 128 := Nat.pow_add ..
      rw [readVarintFrom_encode rest (by omega) grown smaller, later, Nat.mul_assoc, Nat.add_assoc,
        ← Nat.mul_add, Nat.mod_add_div]
termination_by free

theorem readVarint_encode {number : ℕ} (rest : List UInt8) (fits : number < 2 ^ 64) :
    readVarint (encodeVarint number ++ rest) = .ok (number, rest) := by
  have read := @readVarintFrom_encode 9 0 0 number rest rfl (by decide)
    (fits.trans (by decide))
  rw [Nat.zero_add, Nat.pow_zero, Nat.one_mul] at read
  exact read

theorem encodeVarint_ne_nil (number : ℕ) : encodeVarint number ≠ [] := by
  rw [encodeVarint]
  split <;> simp

theorem readVarintFrom_cases (value shift : ℕ) (bytes : List UInt8) :
    (∃ message, readVarintFrom value shift bytes = .error (.error message)) ∨
      ∃ number header rest, readVarintFrom value shift bytes = .ok (number, rest) ∧ header ≠ [] ∧
        bytes = header ++ rest := by
  induction bytes generalizing value shift with
  | nil => exact Or.inl ⟨_, rfl⟩
  | cons byte bytes ih =>
    rw [readVarintFrom]
    split
    · exact Or.inl ⟨_, rfl⟩
    · dsimp only
      split
      · exact Or.inr ⟨_, [byte], bytes, rfl, by simp, rfl⟩
      · rcases ih _ _ with failed | ⟨number, header, rest, read, _, same⟩
        · exact Or.inl failed
        · exact Or.inr ⟨number, byte :: header, rest, read, by simp, by rw [same, List.cons_append]⟩

end Varint

section Fields

variable {byteLength : ℕ} {bytes rest : List UInt8} {field : ProtobufField}

theorem tag_parts {number wire : ℕ} (isWire : wire < 8) :
    (8 * number + wire) >>> 3 = number ∧ (8 * number + wire) &&& 7 = wire := by
  rw [Nat.shiftRight_eq_div_pow, show 7 = 2 ^ 3 - 1 from rfl, Nat.and_two_pow_sub_one_eq_mod]
  omega

theorem readField_encode (encodable : field.Encodable) (rest : List UInt8)
    (within : (field.encode ++ rest).length ≤ byteLength) :
    readField byteLength (field.encode ++ rest) = .ok (field, rest) := by
  rcases encodable with ⟨positive, small, varint, isBytes⟩
  rcases field with ⟨number, value⟩
  dsimp only at positive small varint isBytes
  have isWire : value.wire < 8 := by cases value <;> simp [FieldValue.wire]
  rcases @tag_parts number value.wire isWire with ⟨isNumber, tagWire⟩
  have tag := @readVarint_encode (8 * number + value.wire) (value.encode ++ rest) (by omega)
  have number_eq : toNumber number = number := toNumber_of_lt (small.trans (by decide))
  have notZero : ¬number < 1 := by omega
  rw [readField, ProtobufField.encode, List.append_assoc, tag, Outcome.ok_bind]
  dsimp only
  rw [isNumber, tagWire, number_eq]
  cases value with
  | varint value =>
    have scalar := readVarint_encode rest (varint value rfl)
    simp [FieldValue.wire, FieldValue.encode, scalar, notZero]
  | bytes value =>
    have length := readVarint_encode (value ++ rest) ((isBytes value rfl).trans (by decide))
    have inside : ¬byteLength < value.length := by
      simp only [ProtobufField.encode, FieldValue.encode, List.length_append] at within
      omega
    simp [FieldValue.wire, FieldValue.encode, length, notZero, inside]

theorem readField_cases (byteLength : ℕ) (bytes : List UInt8) :
    (∃ message, readField byteLength bytes = .error (.error message)) ∨
      ∃ field header rest, readField byteLength bytes = .ok (field, rest) ∧ header ≠ [] ∧
        bytes = header ++ field.payload ++ rest := by
  unfold readField readVarint
  rcases readVarintFrom_cases 0 0 bytes with ⟨message, failed⟩ |
    ⟨tag, header, afterTag, read, nonempty, rfl⟩
  · rw [failed]
    exact Or.inl ⟨message, rfl⟩
  rw [read, Outcome.ok_bind]
  dsimp only
  split
  · exact Or.inl ⟨_, rfl⟩
  rcases readVarintFrom_cases 0 0 afterTag with ⟨message, failed⟩ |
    ⟨number, more, next, read, _, rfl⟩
  · rw [failed]
    exact Or.inl ⟨message, by split <;> rfl⟩
  rw [read, Outcome.ok_bind, Outcome.ok_bind]
  dsimp only
  split
  · exact Or.inr ⟨_, header ++ more, next, rfl, by simp [nonempty], by simp [ProtobufField.payload]⟩
  · split
    · exact Or.inl ⟨_, rfl⟩
    · split
      · exact Or.inl ⟨_, rfl⟩
      · exact Or.inr ⟨_, header ++ more, next.drop number, rfl, by simp [nonempty],
          by simp [ProtobufField.payload]⟩

theorem readFields_cons (nonempty : bytes ≠ []) (turns : ℕ) :
    readFields byteLength (turns + 1) bytes = (do
      let (field, rest) ← readField byteLength bytes
      let fields ← readFields byteLength turns rest
      .ok (field :: fields)) := by
  cases bytes with
  | nil => exact absurd rfl nonempty
  | cons => rfl

theorem readFields_encode {turns : ℕ} (fields : List ProtobufField)
    (encodable : ∀ field ∈ fields, field.Encodable)
    (within : (fields.flatMap ProtobufField.encode).length ≤ byteLength)
    (enough : (fields.flatMap ProtobufField.encode).length ≤ turns) :
    readFields byteLength turns (fields.flatMap ProtobufField.encode) = .ok fields := by
  induction fields generalizing turns with
  | nil => cases turns <;> rfl
  | cons field fields ih =>
    rw [List.flatMap_cons] at within enough ⊢
    have first := readField_encode (encodable field List.mem_cons_self) _ within
    have nonempty : field.encode ≠ [] := by simp [ProtobufField.encode, encodeVarint_ne_nil]
    have positive := List.length_pos_iff.mpr nonempty
    simp only [List.length_append] at within enough
    cases turns with
    | zero => omega
    | succ turns =>
      have later := @ih turns (fun other mem => encodable other (List.mem_cons_of_mem _ mem))
        (by omega) (by omega)
      rw [readFields_cons (by simp [nonempty]), first, Outcome.ok_bind]
      dsimp only
      rw [later, Outcome.ok_bind]

/-- The headers and the values that a list of fields was read from. -/
def segments (headers : List (List UInt8)) (fields : List ProtobufField) : List UInt8 :=
  (List.zipWith (fun header field => header ++ field.payload) headers fields).flatten

theorem readFields_cases {turns : ℕ} (enough : bytes.length ≤ turns) :
    (∃ message, readFields byteLength turns bytes = .error (.error message)) ∨
      ∃ fields headers, readFields byteLength turns bytes = .ok fields ∧
        headers.length = fields.length ∧ bytes = segments headers fields := by
  induction turns generalizing bytes with
  | zero =>
    rw [List.eq_nil_of_length_eq_zero (Nat.le_zero.mp enough)]
    exact Or.inr ⟨[], [], rfl, rfl, rfl⟩
  | succ turns ih =>
    by_cases empty : bytes = []
    · rw [empty]
      exact Or.inr ⟨[], [], rfl, rfl, rfl⟩
    rw [readFields_cons empty]
    rcases readField_cases byteLength bytes with ⟨message, failed⟩ |
      ⟨field, header, rest, read, nonempty, rfl⟩
    · rw [failed]
      exact Or.inl ⟨message, rfl⟩
    · have positive := List.length_pos_iff.mpr nonempty
      simp only [List.length_append] at enough
      rw [read, Outcome.ok_bind]
      dsimp only
      rcases @ih rest (by omega) with ⟨message, failed⟩ | ⟨fields, headers, ended, length, same⟩
      · rw [failed]
        exact Or.inl ⟨message, rfl⟩
      · rw [ended]
        refine Or.inr ⟨field :: fields, header :: headers, rfl, by simp [length], ?_⟩
        change _ = header ++ field.payload ++ segments headers fields
        rw [← same]

end Fields

/--
The reader returns exactly the fields that were encoded.  For any bytes it raises an error or
returns fields whose bytes follow one another in the input, each after its header, up to the end.
-/
theorem protobuf_reader_inverts_encoding :
    (∀ fields : List ProtobufField, (∀ field ∈ fields, field.Encodable) →
      decodeProtobufFields (fields.flatMap ProtobufField.encode) = .ok fields) ∧
    ∀ bytes, (∃ message, decodeProtobufFields bytes = .error (.error message)) ∨
      ∃ fields headers, decodeProtobufFields bytes = .ok fields ∧
        headers.length = fields.length ∧ bytes = segments headers fields := by
  refine ⟨fun fields encodable => ?_, fun bytes => readFields_cases (Nat.le_refl _)⟩
  exact readFields_encode fields encodable (Nat.le_refl _) (Nat.le_refl _)

theorem protobuf_reader_inverts_encoding_two :
    decodeProtobufFields [0x28, 0xac, 0x02, 0x1a, 0x02, 0x08, 0x01] =
      .ok [⟨5, .varint 300⟩, ⟨3, .bytes [0x08, 0x01]⟩] := by
  have read := protobuf_reader_inverts_encoding.1 [⟨5, .varint 300⟩, ⟨3, .bytes [0x08, 0x01]⟩] (by
    intro field mem
    simp only [List.mem_cons, List.not_mem_nil, or_false] at mem
    rcases mem with rfl | rfl
    · exact ⟨by decide, by decide, fun value same => by cases same; decide, fun _ same => nomatch same⟩
    · exact ⟨by decide, by decide, fun _ same => (nomatch same), fun value same => by
        cases same; decide⟩)
  simpa [ProtobufField.encode, FieldValue.encode, FieldValue.wire, encodeVarint] using read

end TsDrp.Protobuf
