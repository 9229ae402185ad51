import Mathlib.Algebra.Order.Group.Unbundled.Abs
import Mathlib.Data.Int.Log
import Mathlib.Data.Rat.Floor
import Mathlib.Order.WithBot

/-!
# JavaScript values and errors

The plain data an operation can carry: what `google.protobuf.Value` decodes to
and, of what a local caller may pass, numbers, texts, dense arrays and plain
objects; sets, maps, dates, functions, typed and sparse arrays are no such data.
Equality is the language's own: `===` for the conflict resolvers, and the
equality of map keys.  A call clones its arguments, so an array or an object is
never identical to one met before.

Strings are sequences of Unicode scalars.
-/

namespace TsDrp

/-- The rationals that are finite IEEE 754 doubles. -/
def IsDouble (value : ℚ) : Prop :=
  ∃ mantissa exponent : ℤ, |mantissa| < 2 ^ 53 ∧ -1074 ≤ exponent ∧ exponent ≤ 971 ∧
    value = mantissa * 2 ^ exponent

/-- A finite number other than negative zero. -/
structure Double where
  value : ℚ
  representable : IsDouble value
deriving DecidableEq

theorem isDouble_intCast (value : ℤ) (small : |value| < 2 ^ 53) : IsDouble value :=
  ⟨value, 0, small, by omega, by omega, by simp⟩

theorem isDouble_scaled {mantissa exponent : ℤ}
    (small : |mantissa| < 2 ^ 53 ∧ -1074 ≤ exponent ∧ exponent ≤ 971) :
    IsDouble (mantissa * 2 ^ exponent) :=
  ⟨mantissa, exponent, small.1, small.2.1, small.2.2, rfl⟩

theorem Double.zero_small : |(0 : ℤ)| < 2 ^ 53 := by decide

theorem Double.one_small : |(1 : ℤ)| < 2 ^ 53 := by decide

theorem Double.two_small : |(2 : ℤ)| < 2 ^ 53 := by decide

def Double.ofInt (value : ℤ) (small : |value| < 2 ^ 53) : Double :=
  ⟨value, isDouble_intCast value small⟩

inductive JsNumber where
  | nan
  | infinity (negative : Bool)
  | negativeZero
  | finite (double : Double)
deriving DecidableEq

inductive JsValue where
  | undefined
  | null
  | bool (value : Bool)
  | number (value : JsNumber)
  | string (value : String)
  | array (elements : List JsValue)
  | object (fields : List (String × JsValue))

namespace JsValue

mutual

def same : JsValue → JsValue → Bool
  | undefined, undefined | null, null => true
  | bool left, bool right => left = right
  | number left, number right => left = right
  | string left, string right => left = right
  | array left, array right => sameElements left right
  | object left, object right => sameFields left right
  | _, _ => false

def sameElements : List JsValue → List JsValue → Bool
  | [], [] => true
  | left :: lefts, right :: rights => same left right && sameElements lefts rights
  | _, _ => false

def sameFields : List (String × JsValue) → List (String × JsValue) → Bool
  | [], [] => true
  | (key, left) :: lefts, (key', right) :: rights =>
    decide (key = key') && same left right && sameFields lefts rights
  | _, _ => false

end

mutual

theorem same_iff (left right : JsValue) : same left right = true ↔ left = right := by
  cases left <;> cases right <;> simp [same]
  case array.array => exact sameElements_iff _ _
  case object.object => exact sameFields_iff _ _

theorem sameElements_iff (lefts rights : List JsValue) :
    sameElements lefts rights = true ↔ lefts = rights := by
  cases lefts with
  | nil => cases rights <;> simp [sameElements]
  | cons left lefts =>
    cases rights with
    | nil => simp [sameElements]
    | cons right rights => simp [sameElements, same_iff left right, sameElements_iff lefts rights]

theorem sameFields_iff (lefts rights : List (String × JsValue)) :
    sameFields lefts rights = true ↔ lefts = rights := by
  cases lefts with
  | nil => cases rights <;> simp [sameFields]
  | cons left lefts =>
    rcases left with ⟨key, left⟩
    cases rights with
    | nil => simp [sameFields]
    | cons right rights =>
      rcases right with ⟨key', right⟩
      simp [sameFields, same_iff left right, sameFields_iff lefts rights]

end

instance : DecidableEq JsValue := fun left right => decidable_of_iff _ (same_iff left right)

end JsValue

/-- The UTF-16 code units of a text, by which `sort` orders texts. -/
def utf16 (text : String) : List ℕ :=
  text.toList.flatMap fun char =>
    if char.toNat < 0x10000 then [char.toNat]
    else [0xD800 + (char.toNat - 0x10000) / 0x400, 0xDC00 + (char.toNat - 0x10000) % 0x400]

/-- The characters that `trim` removes. -/
def isBlank (char : Char) : Bool :=
  (9 ≤ char.toNat && char.toNat ≤ 13) || (0x2000 ≤ char.toNat && char.toNat ≤ 0x200A) ||
    char.toNat ∈ [0x20, 0xA0, 0x1680, 0x2028, 0x2029, 0x202F, 0x205F, 0x3000, 0xFEFF]

def trim (text : List Char) : List Char :=
  ((text.dropWhile isBlank).reverse.dropWhile isBlank).reverse

/-- The exceptions the modelled code raises, by their class and message. -/
inductive JsError where
  /-- `Error` -/
  | error (message : String)
  /-- `TypeError`, raised by the language itself -/
  | typeError (message : String)
  | invalidHash (message : String)
  | invalidDependencies (message : String)
  | invalidTimestamp (message : String)
  | stateNotFound (message : String)
  /-- No exception: the call ran longer than it was observed. -/
  | diverges
deriving DecidableEq

namespace JsNumber

def isZero : JsNumber → Bool
  | negativeZero => true
  | finite double => double.value = 0
  | _ => false

/-- `===` on numbers: `NaN` differs from itself and the two zeros are equal. -/
def strictEquals (left right : JsNumber) : Bool :=
  match left, right with
  | nan, _ => false
  | left, right => (left.isZero && right.isZero) || left = right

def place (value : ℚ) : WithBot (WithTop ℚ) := (value : WithTop ℚ)

/-- The place of a number in the order of numbers; `NaN` has none. -/
def extended : JsNumber → Option (WithBot (WithTop ℚ))
  | nan => none
  | infinity true => some ⊥
  | infinity false => some ⊤
  | negativeZero => some (place 0)
  | finite double => some (place double.value)

def le (left right : JsNumber) : Bool :=
  match left.extended, right.extended with
  | some left, some right => left ≤ right
  | _, _ => false

def lt (left right : JsNumber) : Bool :=
  match left.extended, right.extended with
  | some left, some right => left < right
  | _, _ => false

/-- `number <= value` for an integer. -/
def leInt (number : JsNumber) (value : ℤ) : Bool :=
  match number.extended with
  | some number => number ≤ place value
  | none => false

/-- `value < number` for an integer. -/
def gtInt (number : JsNumber) (value : ℤ) : Bool :=
  match number.extended with
  | some number => place value < number
  | none => false

/-- The value of a number for which `Number.isSafeInteger` holds. -/
def toSafeInteger : JsNumber → Option ℤ
  | negativeZero => some 0
  | finite double =>
    if double.value.den = 1 ∧ |double.value.num| < 2 ^ 53 then some double.value.num else none
  | _ => none

theorem extended_of_toSafeInteger {number : JsNumber} {value : ℤ}
    (safe : number.toSafeInteger = some value) :
    number.extended = some (place value) := by
  cases number with
  | nan => cases safe
  | infinity negative => cases safe
  | negativeZero =>
    cases safe
    simp [extended]
  | finite double =>
    simp only [toSafeInteger, Option.ite_none_right_eq_some, Option.some.injEq] at safe
    rcases safe with ⟨⟨whole, _⟩, rfl⟩
    have same : double.value = double.value.num := (Rat.den_eq_one_iff _).mp whole |>.symm
    simp only [extended]
    rw [← same]

section

variable {left right : JsNumber} {first second : ℤ} (safe : left.toSafeInteger = some first)
  (safe' : right.toSafeInteger = some second)
include safe safe'

theorem lt_of_toSafeInteger : left.lt right = true ↔ first < second := by
  rw [lt, extended_of_toSafeInteger safe, extended_of_toSafeInteger safe']
  simp only [place, WithBot.coe_lt_coe, WithTop.coe_lt_coe, decide_eq_true_eq]
  exact Rat.intCast_lt_intCast

theorem le_of_toSafeInteger : left.le right = true ↔ first ≤ second := by
  rw [le, extended_of_toSafeInteger safe, extended_of_toSafeInteger safe']
  simp only [place, WithBot.coe_le_coe, WithTop.coe_le_coe, decide_eq_true_eq]
  exact Rat.intCast_le_intCast

end

def roundHalfEven (value : ℚ) : ℤ :=
  let rest := value - value.floor
  if rest < 1 / 2 ∨ rest = 1 / 2 ∧ value.floor % 2 = 0 then value.floor else value.floor + 1

/-- The double nearest to a rational, of two the one with an even mantissa. -/
def ofRat (value : ℚ) : JsNumber :=
  let exponent := max (Int.log 2 |value| - 52) (-1074)
  let mantissa := roundHalfEven (value / 2 ^ exponent)
  let (mantissa, exponent) :=
    if |mantissa| < 2 ^ 53 then (mantissa, exponent) else (mantissa / 2, exponent + 1)
  if small : |mantissa| < 2 ^ 53 ∧ -1074 ≤ exponent ∧ exponent ≤ 971 then
    finite ⟨mantissa * 2 ^ exponent, isDouble_scaled small⟩
  else infinity (value < 0)

/-- The digits before the exponent, if so many suffice, and the place of the decimal point. -/
def digits (value : ℚ) (count : ℕ) : Option (ℕ × ℤ) :=
  let place := Int.log 10 value + 1
  let scaled := value / 10 ^ (place - count)
  let nearest : List ℤ := if scaled - scaled.floor ≤ 1 / 2 then [scaled.floor, scaled.floor + 1]
    else [scaled.floor + 1, scaled.floor]
  (nearest.find? fun digits : ℤ => ofRat (digits * 10 ^ (place - count)) = ofRat value).map fun digits =>
    if digits = 10 ^ count then (10 ^ (count - 1), place + 1) else (digits.toNat, place)

def decimalText (digits : List Char) (place : ℤ) : List Char :=
  if digits.length ≤ place ∧ place ≤ 21 then
    digits ++ List.replicate (place.toNat - digits.length) '0'
  else if 0 < place ∧ place ≤ 21 then digits.take place.toNat ++ '.' :: digits.drop place.toNat
  else if -6 < place ∧ place ≤ 0 then '0' :: '.' :: (List.replicate (-place).toNat '0' ++ digits)
  else digits.take 1 ++ (if digits.length = 1 then [] else '.' :: digits.drop 1) ++
    'e' :: (if place < 1 then '-' else '+') :: (place - 1).natAbs.repr.toList

/-- `Number.prototype.toString` -/
def text : JsNumber → String
  | nan => "NaN"
  | infinity negative => if negative then "-Infinity" else "Infinity"
  | negativeZero => "0"
  | finite double =>
    match (List.range 17).findSome? fun count => digits |double.value| (count + 1) with
    | none => "0"
    | some (digits, place) =>
      .ofList ((if double.value < 0 then ['-'] else []) ++ decimalText digits.repr.toList place)

example : (ofRat (1 / 3)).text = "0.3333333333333333" := by decide +kernel

def digitValue (char : Char) : ℕ :=
  if char.isDigit then char.toNat - 48
  else if char.isAlpha then char.toLower.toNat - 87
  else 36

def readDigits (base : ℕ) (digits : List Char) : Option ℕ :=
  if digits ≠ [] ∧ digits.all (digitValue · < base) then
    some (digits.foldl (fun value digit => value * base + digitValue digit) 0)
  else none

/-- What follows the digits of a decimal: nothing, or an exponent. -/
def readExponent : List Char → Option ℤ
  | [] => some 0
  | mark :: rest =>
    if mark.toLower ≠ 'e' then none
    else match rest with
      | '-' :: digits => (readDigits 10 digits).map fun exponent => -(exponent : ℤ)
      | '+' :: digits => (readDigits 10 digits).map fun exponent => (exponent : ℤ)
      | digits => (readDigits 10 digits).map fun exponent => (exponent : ℤ)

def readDecimal (text : List Char) : Option ℚ :=
  let whole := text.takeWhile Char.isDigit
  let (fraction, rest) := match text.dropWhile Char.isDigit with
    | '.' :: rest => (rest.takeWhile Char.isDigit, rest.dropWhile Char.isDigit)
    | rest => ([], rest)
  match readDigits 10 (whole ++ fraction), readExponent rest with
  | some mantissa, some exponent => some (mantissa * 10 ^ (exponent - fraction.length))
  | _, _ => none

def readSigned (negative : Bool) (text : List Char) : JsNumber :=
  if text = "Infinity".toList then infinity negative
  else match readDecimal text with
    | none => nan
    | some value =>
      if !negative then ofRat value
      else if (ofRat value).isZero then negativeZero
      else ofRat (-value)

def radix : Char → Option ℕ
  | 'x' | 'X' => some 16
  | 'o' | 'O' => some 8
  | 'b' | 'B' => some 2
  | _ => none

/-- `Number(text)` -/
def ofText (text : String) : JsNumber :=
  match trim text.toList with
  | [] => ofRat 0
  | '-' :: rest => readSigned true rest
  | '+' :: rest => readSigned false rest
  | first :: rest =>
    match rest.head?.bind radix with
    | none => readSigned false (first :: rest)
    | some base =>
      match readDigits base rest.tail with
      | some value => if first = '0' then ofRat value else nan
      | none => nan

example : ofText " 0x1F " = ofRat 31 ∧ ofText "-1.5e1" = ofRat (-15) ∧ ofText "1 2" = nan := by
  decide +kernel

end JsNumber

namespace JsValue

/-- `===`; arrays and objects of different vertices are never identical. -/
def strictEquals : JsValue → JsValue → Bool
  | undefined, undefined => true
  | null, null => true
  | bool left, bool right => left = right
  | number left, number right => left.strictEquals right
  | string left, string right => left = right
  | _, _ => false

/-- Equality of map keys: as `===`, except that `NaN` is one key. -/
def sameValueZero : JsValue → JsValue → Bool
  | number .nan, number .nan => true
  | left, right => left.strictEquals right

/-- What an object holds under a name. -/
def fieldOf (fields : List (String × JsValue)) (name : String) : Option JsValue :=
  (fields.find? fun field => field.1 = name).map (·.2)

/-- The property `"0"`, as in `value[0]`. -/
def first : JsValue → Except JsError JsValue
  | undefined => .error (.typeError "Cannot read properties of undefined (reading '0')")
  | null => .error (.typeError "Cannot read properties of null (reading '0')")
  | bool _ => .ok undefined
  | number _ => .ok undefined
  | string text => .ok (match text.toList with
      | [] => undefined
      | letter :: _ => string (String.singleton letter))
  | array elements => .ok (elements.headD undefined)
  | object fields => .ok ((fieldOf fields "0").getD undefined)

/-- The arguments of a call `method(...value)`. -/
def spread : JsValue → Except JsError (List JsValue)
  | array elements => .ok elements
  | string text => .ok (text.toList.map fun letter => string (String.singleton letter))
  | _ => .error (.typeError "Spread syntax requires ...iterable[Symbol.iterator] to be a function")

/-- `value[index]`, of which `first` is the case of index zero. -/
def item (index : ℕ) : JsValue → Except JsError JsValue
  | undefined => .error (.typeError
    ("Cannot read properties of undefined (reading '" ++ toString index ++ "')"))
  | null => .error (.typeError ("Cannot read properties of null (reading '" ++ toString index ++ "')"))
  | bool _ => .ok undefined
  | number _ => .ok undefined
  | string text => .ok ((text.toList[index]?.map fun letter =>
    string (String.singleton letter)).getD undefined)
  | array elements => .ok (elements[index]?.getD undefined)
  | object fields => .ok ((fieldOf fields (toString index)).getD undefined)

/-- `value.name`, for a name that no prototype has. -/
def member (name : String) : JsValue → Except JsError JsValue
  | undefined => .error (.typeError ("Cannot read properties of undefined (reading '" ++ name ++ "')"))
  | null => .error (.typeError ("Cannot read properties of null (reading '" ++ name ++ "')"))
  | object fields => .ok ((fieldOf fields name).getD undefined)
  | _ => .ok undefined

/-- Whether a condition on the value holds. -/
def truthy : JsValue → Bool
  | undefined => false
  | null => false
  | bool value => value
  | number .nan => false
  | number value => !value.isZero
  | string text => text ≠ ""
  | array _ => true
  | object _ => true

mutual

/-- Whether the value converts to a property key; a field `toString` hides the method. -/
def hasText : JsValue → Bool
  | array elements => haveText elements
  | object fields => !fields.any fun field => field.1 = "toString"
  | _ => true

def haveText : List JsValue → Bool
  | [] => true
  | element :: rest => hasText element && haveText rest

end

mutual

/-- `String(value)`, where there is such a text. -/
def text : JsValue → String
  | undefined => "undefined"
  | null => "null"
  | bool value => if value then "true" else "false"
  | number value => value.text
  | string value => value
  | array elements => .intercalate "," (elementTexts elements)
  | object _ => "[object Object]"

def elementTexts : List JsValue → List String
  | [] => []
  | undefined :: rest | null :: rest => "" :: elementTexts rest
  | element :: rest => text element :: elementTexts rest

end

def isUndefined : JsValue → Bool
  | undefined => true
  | _ => false

/-- Whether `values.sort()` returns: where two values are defined, it needs the texts of all such. -/
def sortable (values : List JsValue) : Bool :=
  let compared := values.filter (!·.isUndefined)
  compared.length < 2 || compared.all hasText

mutual

/-- `deepEqual`, which compares numbers as map keys are compared. -/
def deepEqual : JsValue → JsValue → Bool
  | array left, right =>
    match right with
    | array right => deepEqualElements left right
    | _ => false
  | object left, right =>
    match right with
    | object right => left.length = right.length && deepEqualFields left right
    | _ => false
  | left, right => left.sameValueZero right

def deepEqualElements : List JsValue → List JsValue → Bool
  | [], right => right.isEmpty
  | left :: rest, right =>
    match right with
    | [] => false
    | other :: others => deepEqual left other && deepEqualElements rest others

def deepEqualFields : List (String × JsValue) → List (String × JsValue) → Bool
  | [], _ => true
  | (name, value) :: rest, right =>
    (match fieldOf right name with
      | none => false
      | some other => deepEqual value other) && deepEqualFields rest right

end

end JsValue

namespace JsNumber

theorem strictEquals_iff {left right : JsNumber} : left.strictEquals right = true ↔
    left ≠ nan ∧ (left.isZero = true ∧ right.isZero = true ∨ left = right) := by
  cases left <;> simp [strictEquals]

theorem strictEquals_comm (left right : JsNumber) :
    left.strictEquals right = right.strictEquals left := by
  rw [Bool.eq_iff_iff, strictEquals_iff, strictEquals_iff]
  cases left <;> cases right <;> simp [isZero, and_comm, eq_comm]

theorem strictEquals_trans {left middle right : JsNumber} (first : left.strictEquals middle = true)
    (second : middle.strictEquals right = true) : left.strictEquals right = true := by
  rw [strictEquals_iff] at first second ⊢
  refine ⟨first.1, ?_⟩
  rcases first.2 with ⟨leftZero, middleZero⟩ | rfl
  · rcases second.2 with ⟨_, rightZero⟩ | rfl
    · exact Or.inl ⟨leftZero, rightZero⟩
    · exact Or.inl ⟨leftZero, middleZero⟩
  · exact second.2

end JsNumber

namespace JsValue

theorem strictEquals_comm (left right : JsValue) :
    left.strictEquals right = right.strictEquals left := by
  cases left <;> cases right <;> simp [strictEquals, JsNumber.strictEquals_comm, eq_comm]

theorem strictEquals_trans {left middle right : JsValue} (first : left.strictEquals middle = true)
    (second : middle.strictEquals right = true) : left.strictEquals right = true := by
  cases left <;> cases middle <;> simp only [strictEquals, Bool.false_eq_true] at first <;>
    cases right <;> simp_all [strictEquals]
  exact JsNumber.strictEquals_trans first second

theorem sameValueZero_iff {left right : JsValue} : left.sameValueZero right = true ↔
    left.strictEquals right = true ∨ left = number .nan ∧ right = number .nan := by
  unfold sameValueZero
  split
  case h_1 => simp
  case h_2 notNaN =>
    constructor
    · exact Or.inl
    · rintro (same | ⟨rfl, rfl⟩)
      · exact same
      · exact absurd rfl (notNaN rfl)

theorem ne_nan_of_strictEquals {left right : JsValue} (same : left.strictEquals right = true) :
    left ≠ number .nan := by
  rintro rfl
  cases right <;> simp [strictEquals, JsNumber.strictEquals] at same

theorem sameValueZero_comm (left right : JsValue) :
    left.sameValueZero right = right.sameValueZero left := by
  rw [Bool.eq_iff_iff, sameValueZero_iff, sameValueZero_iff, strictEquals_comm left right,
    and_comm (a := left = _)]

theorem sameValueZero_trans {left middle right : JsValue}
    (first : left.sameValueZero middle = true) (second : middle.sameValueZero right = true) :
    left.sameValueZero right = true := by
  rw [sameValueZero_iff] at first second ⊢
  rcases first with first | ⟨rfl, rfl⟩
  · rcases second with second | ⟨rfl, rfl⟩
    · exact Or.inl (strictEquals_trans first second)
    · rw [strictEquals_comm] at first
      exact absurd rfl (ne_nan_of_strictEquals first)
  · rcases second with second | ⟨_, rfl⟩
    · exact absurd rfl (ne_nan_of_strictEquals second)
    · exact Or.inr ⟨rfl, rfl⟩

@[simp]
theorem strictEquals_string (left right : String) :
    (string left).strictEquals (string right) = decide (left = right) := rfl

@[simp]
theorem sameValueZero_string (left right : String) :
    (string left).sameValueZero (string right) = decide (left = right) := rfl

theorem sameValueZero_string_left {text : String} {key : JsValue}
    (same : (string text).sameValueZero key = true) : key = string text := by
  cases key <;> simp_all [sameValueZero, strictEquals]

theorem sameValueZero_string_right {text : String} {key : JsValue}
    (same : key.sameValueZero (string text) = true) : key = string text := by
  cases key <;> simp_all [sameValueZero, strictEquals]

theorem strictEquals_string_left {text : String} {value : JsValue}
    (same : (string text).strictEquals value = true) : value = string text := by
  cases value <;> simp_all [strictEquals]

theorem first_of_spread {value : JsValue} {args : List JsValue} (spread : value.spread = .ok args) :
    value.first = .ok (args.headD undefined) := by
  cases value with
  | array elements =>
    cases spread
    rfl
  | string text =>
    cases spread
    rw [first]
    cases text.toList <;> rfl
  | undefined => cases spread
  | null => cases spread
  | bool => cases spread
  | number => cases spread
  | object => cases spread

end JsValue

end TsDrp
