import Mathlib.Tactic.Common
import Mathlib.Data.List.Basic

/-!
# JSON texts

The text of a JSON value without white space, as a list of characters, and its
unique readability: whatever may follow a value in a longer text, the text
determines the value and what follows it.

Numbers are of any type with a format that is injective and stays within the
characters JSON allows for numbers.
-/

universe u

inductive Json (Number : Type u) where
  | null
  | bool (value : Bool)
  | number (value : Number)
  | string (value : String)
  | array (elements : List (Json Number))
  | object (members : List (String × Json Number))

namespace Json

def quotationMark : Char := Char.ofNat 0x22

def backslash : Char := Char.ofNat 0x5c

def leftBrace : Char := Char.ofNat 0x7b

def rightBrace : Char := Char.ofNat 0x7d

section Strings

def hexDigit (value : ℕ) : Char := Char.ofNat (if value < 10 then 48 + value else 87 + value)

/-- The letter that stands for a character behind a backslash. -/
def shorthand (char : Char) : Option Char :=
  if char = quotationMark ∨ char = backslash then some char
  else match char.toNat with
    | 8 => some 'b'
    | 9 => some 't'
    | 10 => some 'n'
    | 12 => some 'f'
    | 13 => some 'r'
    | _ => none

def escape (char : Char) : List Char :=
  match shorthand char with
  | some letter => [backslash, letter]
  | none =>
    if char.toNat < 32 then
      [backslash, 'u', '0', '0', hexDigit (char.toNat / 16), hexDigit (char.toNat % 16)]
    else [char]

def escapeAll (chars : List Char) : List Char := chars.flatMap escape

def quote (text : String) : List Char :=
  quotationMark :: (escapeAll text.toList ++ [quotationMark])

def hexValue (char : Char) : ℕ := if char.toNat < 58 then char.toNat - 48 else char.toNat - 87

/-- The character that a letter behind a backslash stands for. -/
def longhand (letter : Char) : Char :=
  match letter with
  | 'b' => Char.ofNat 8
  | 't' => Char.ofNat 9
  | 'n' => Char.ofNat 10
  | 'f' => Char.ofNat 12
  | 'r' => Char.ofNat 13
  | _ => letter

/-- Reading one character back. -/
def unescape : List Char → Option (Char × List Char)
  | [] => none
  | first :: rest =>
    if first = backslash then
      match rest with
      | 'u' :: _ :: _ :: high :: low :: rest =>
        some (Char.ofNat (16 * hexValue high + hexValue low), rest)
      | letter :: rest => some (longhand letter, rest)
      | [] => none
    else some (first, rest)

theorem hexValue_hexDigit : ∀ value < 16, hexValue (hexDigit value) = value := by decide

theorem shorthand_cases (char : Char) :
    (∃ letter, shorthand char = some letter ∧ letter ≠ 'u' ∧ longhand letter = char) ∨
      shorthand char = none ∧ char ≠ quotationMark ∧ char ≠ backslash := by
  unfold shorthand
  split
  case isTrue special =>
    rcases special with rfl | rfl
    · exact Or.inl ⟨_, rfl, by decide, by decide⟩
    · exact Or.inl ⟨_, rfl, by decide, by decide⟩
  case isFalse plain =>
    have ofNat : ∀ {code}, char.toNat = code → Char.ofNat code = char := by
      rintro _ rfl
      exact Char.ofNat_toNat char
    rw [not_or] at plain
    split
    case h_1 code => exact Or.inl ⟨_, rfl, by decide, ofNat code⟩
    case h_2 code => exact Or.inl ⟨_, rfl, by decide, ofNat code⟩
    case h_3 code => exact Or.inl ⟨_, rfl, by decide, ofNat code⟩
    case h_4 code => exact Or.inl ⟨_, rfl, by decide, ofNat code⟩
    case h_5 code => exact Or.inl ⟨_, rfl, by decide, ofNat code⟩
    case h_6 => exact Or.inr ⟨rfl, plain⟩

theorem unescape_escape (char : Char) (rest : List Char) :
    unescape (escape char ++ rest) = some (char, rest) := by
  unfold escape
  rcases shorthand_cases char with ⟨letter, short, notU, long⟩ | ⟨short, _, notBackslash⟩
  · rw [short]
    simp only [List.cons_append, List.nil_append, unescape, if_true]
    split
    case h_1 shape => exact absurd (List.cons.inj shape).1 notU
    case h_2 shape =>
      cases shape
      rw [long]
    case h_3 shape => cases shape
  · rw [short]
    simp only
    split
    case isTrue control =>
      simp only [List.cons_append, List.nil_append, unescape, if_true]
      rw [hexValue_hexDigit _ (by omega), hexValue_hexDigit _ (by omega), Nat.div_add_mod,
        Char.ofNat_toNat]
    case isFalse => simp [unescape, notBackslash]

theorem escape_append_inj {first second : Char} {rest rest' : List Char}
    (same : escape first ++ rest = escape second ++ rest') : first = second ∧ rest = rest' := by
  have read := unescape_escape first rest
  rw [same, unescape_escape] at read
  cases read
  exact ⟨rfl, rfl⟩

theorem escape_append_ne (char : Char) (rest tail : List Char) :
    escape char ++ rest ≠ quotationMark :: tail := by
  unfold escape
  rcases shorthand_cases char with ⟨letter, short, _⟩ | ⟨short, notQuote, _⟩
  · rw [short]
    intro same
    exact absurd (List.cons.inj same).1 (by decide)
  · rw [short]
    simp only
    split
    · intro same
      exact absurd (List.cons.inj same).1 (by decide)
    · intro same
      exact notQuote (List.cons.inj same).1

theorem escapeAll_append_inj {first second rest rest' : List Char}
    (same : escapeAll first ++ quotationMark :: rest = escapeAll second ++ quotationMark :: rest') :
    first = second ∧ rest = rest' := by
  induction first generalizing second with
  | nil =>
    cases second with
    | nil => exact ⟨rfl, (List.cons.inj same).2⟩
    | cons char chars =>
      rw [escapeAll, escapeAll, List.flatMap_cons, List.append_assoc] at same
      exact absurd same.symm (escape_append_ne char _ _)
  | cons char chars ih =>
    cases second with
    | nil =>
      rw [escapeAll, escapeAll, List.flatMap_cons, List.append_assoc] at same
      exact absurd same (escape_append_ne char _ _)
    | cons char' chars' =>
      rw [escapeAll, escapeAll, List.flatMap_cons, List.flatMap_cons, List.append_assoc,
        List.append_assoc] at same
      rcases escape_append_inj same with ⟨rfl, sameRest⟩
      rcases ih sameRest with ⟨rfl, sameTail⟩
      exact ⟨rfl, sameTail⟩

theorem quote_append_inj {text text' : String} {rest rest' : List Char}
    (same : quote text ++ rest = quote text' ++ rest') : text = text' ∧ rest = rest' := by
  simp only [quote, List.cons_append, List.append_assoc, List.nil_append] at same
  rcases escapeAll_append_inj (List.cons.inj same).2 with ⟨sameChars, sameRest⟩
  exact ⟨String.toList_injective sameChars, sameRest⟩

end Strings

section Numbers

def isNumberChar (char : Char) : Bool :=
  char.isDigit || char = '-' || char = '+' || char = '.' || char = 'e'

def Delimited (rest : List Char) : Prop := ∀ char ∈ rest.head?, isNumberChar char = false

theorem delimited_cons {char : Char} (rest : List Char) (delimiter : isNumberChar char = false) :
    Delimited (char :: rest) := by
  intro found mem
  cases mem
  exact delimiter

theorem takeWhile_append_delimited {chars rest : List Char}
    (all : ∀ char ∈ chars, isNumberChar char = true) (delimited : Delimited rest) :
    (chars ++ rest).takeWhile isNumberChar = chars := by
  rw [List.takeWhile_append_of_pos all]
  cases rest with
  | nil => simp
  | cons char rest => simp [delimited char rfl]

structure NumberFormat (Number : Type u) where
  text : Number → List Char
  injective : Function.Injective text
  nonempty : ∀ number, text number ≠ []
  chars : ∀ number, ∀ char ∈ text number, isNumberChar char = true

theorem NumberFormat.append_inj {Number : Type u} (format : NumberFormat Number)
    {first second : Number} {rest rest' : List Char} (delimited : Delimited rest)
    (delimited' : Delimited rest') (same : format.text first ++ rest = format.text second ++ rest') :
    first = second ∧ rest = rest' := by
  have sameText : format.text first = format.text second := by
    rw [← takeWhile_append_delimited (format.chars first) delimited,
      ← takeWhile_append_delimited (format.chars second) delimited', same]
  rw [sameText] at same
  exact ⟨format.injective sameText, List.append_cancel_left same⟩

end Numbers

section Text

variable {Number : Type u} (format : NumberFormat Number)

def dropComma : List Char → List Char
  | ',' :: rest => rest
  | rest => rest

mutual

def text : Json Number → List Char
  | .null => ['n', 'u', 'l', 'l']
  | .bool true => ['t', 'r', 'u', 'e']
  | .bool false => ['f', 'a', 'l', 's', 'e']
  | .number value => format.text value
  | .string value => quote value
  | .array elements => '[' :: dropComma (textElements elements)
  | .object members => leftBrace :: dropComma (textMembers members)

def textElements : List (Json Number) → List Char
  | [] => [']']
  | element :: rest => ',' :: (text element ++ textElements rest)

/-- The members of an object, each after a comma, and its closing brace. -/
def textMembers : List (String × Json Number) → List Char
  | [] => [rightBrace]
  | (key, value) :: rest => ',' :: (quote key ++ ':' :: (text value ++ textMembers rest))

end

/-- Which kind of value a text starts like. -/
def kind (char : Char) : ℕ :=
  if char = 'n' then 0 else if char = 't' ∨ char = 'f' then 1 else if char = quotationMark then 2
  else if char = '[' then 3 else if char = leftBrace then 4 else if isNumberChar char then 5 else 6

def shape : Json Number → ℕ
  | .null => 0
  | .bool _ => 1
  | .string _ => 2
  | .array _ => 3
  | .object _ => 4
  | .number _ => 5

theorem kind_of_isNumberChar {char : Char} (isNumber : isNumberChar char = true) : kind char = 5 := by
  have other : ∀ {other : Char}, isNumberChar other = false → char ≠ other := by
    rintro _ notNumber rfl
    rw [isNumber] at notNumber
    cases notNumber
  have notN : char ≠ 'n' := other (by decide)
  have notT : char ≠ 't' := other (by decide)
  have notF : char ≠ 'f' := other (by decide)
  have notQuote : char ≠ quotationMark := other (by decide)
  have notBracket : char ≠ '[' := other (by decide)
  have notBrace : char ≠ leftBrace := other (by decide)
  simp [kind, notN, notT, notF, notQuote, notBracket, notBrace, isNumber]

theorem exists_text_cons (value : Json Number) :
    ∃ char rest, text format value = char :: rest ∧ kind char = value.shape := by
  cases value with
  | null => exact ⟨_, _, rfl, rfl⟩
  | bool value => cases value <;> exact ⟨_, _, rfl, rfl⟩
  | number value =>
    rcases List.exists_cons_of_ne_nil (format.nonempty value) with ⟨char, rest, shape⟩
    refine ⟨char, rest, shape, kind_of_isNumberChar (format.chars value char ?_)⟩
    rw [shape]
    exact List.mem_cons_self
  | string value => exact ⟨_, _, rfl, rfl⟩
  | array elements => exact ⟨_, _, rfl, rfl⟩
  | object members => exact ⟨_, _, rfl, rfl⟩

theorem shape_eq_of_text {first second : Json Number} {rest rest' : List Char}
    (same : text format first ++ rest = text format second ++ rest') :
    first.shape = second.shape := by
  rcases exists_text_cons format first with ⟨char, tail, isText, isKind⟩
  rcases exists_text_cons format second with ⟨char', tail', isText', isKind'⟩
  rw [isText, isText'] at same
  rw [← isKind, ← isKind', (List.cons.inj same).1]

theorem text_append_ne (value : Json Number) (rest tail : List Char) :
    text format value ++ rest ≠ ']' :: tail := by
  rcases exists_text_cons format value with ⟨char, tail', isText, isKind⟩
  have isOther : kind ']' = 6 := by decide
  rw [isText]
  intro same
  rw [(List.cons.inj same).1, isOther] at isKind
  cases value <;> cases isKind

theorem dropComma_textElements_inj {first second : List (Json Number)} {rest rest' : List Char}
    (same : dropComma (textElements format first) ++ rest =
      dropComma (textElements format second) ++ rest') :
    textElements format first ++ rest = textElements format second ++ rest' := by
  cases first with
  | nil =>
    cases second with
    | nil => exact same
    | cons element elements =>
      rw [textElements, textElements, dropComma, List.append_assoc] at same
      exact absurd same.symm (text_append_ne format element _ _)
  | cons element elements =>
    cases second with
    | nil =>
      rw [textElements, textElements, dropComma, List.append_assoc] at same
      exact absurd same (text_append_ne format element _ _)
    | cons element' elements' => exact congrArg (',' :: ·) same

theorem dropComma_textMembers_inj {first second : List (String × Json Number)}
    {rest rest' : List Char}
    (same : dropComma (textMembers format first) ++ rest =
      dropComma (textMembers format second) ++ rest') :
    textMembers format first ++ rest = textMembers format second ++ rest' := by
  cases first with
  | nil =>
    cases second with
    | nil => exact same
    | cons member members => exact absurd (List.cons.inj same).1 (by decide)
  | cons member members =>
    cases second with
    | nil => exact absurd (List.cons.inj same).1 (by decide)
    | cons member' members' => exact congrArg (',' :: ·) same

theorem delimited_textElements (elements : List (Json Number)) (rest : List Char) :
    Delimited (textElements format elements ++ rest) := by
  cases elements with
  | nil => exact delimited_cons _ (by decide)
  | cons element elements => exact delimited_cons _ (by decide)

theorem delimited_textMembers (members : List (String × Json Number)) (rest : List Char) :
    Delimited (textMembers format members ++ rest) := by
  cases members with
  | nil => exact delimited_cons _ (by decide)
  | cons member members => exact delimited_cons _ (by decide)

mutual

theorem text_append_inj : ∀ (first second : Json Number) {rest rest' : List Char},
    Delimited rest → Delimited rest' → text format first ++ rest = text format second ++ rest' →
      first = second ∧ rest = rest'
  | .null, second, _, _, _, _, same => by
      have sameShape := shape_eq_of_text format same
      cases second with
      | null => exact ⟨rfl, List.append_cancel_left same⟩
      | bool | number | string | array | object => cases sameShape
  | .bool value, second, _, _, _, _, same => by
      have sameShape := shape_eq_of_text format same
      cases second with
      | bool value' => cases value <;> cases value' <;> simp_all [text]
      | null | number | string | array | object => cases sameShape
  | .number value, second, _, _, delimited, delimited', same => by
      have sameShape := shape_eq_of_text format same
      cases second with
      | number value' =>
        rcases format.append_inj delimited delimited' same with ⟨rfl, sameRest⟩
        exact ⟨rfl, sameRest⟩
      | null | bool | string | array | object => cases sameShape
  | .string value, second, _, _, _, _, same => by
      have sameShape := shape_eq_of_text format same
      cases second with
      | string value' =>
        rcases quote_append_inj same with ⟨rfl, sameRest⟩
        exact ⟨rfl, sameRest⟩
      | null | bool | number | array | object => cases sameShape
  | .array elements, second, _, _, _, _, same => by
      have sameShape := shape_eq_of_text format same
      cases second with
      | array elements' =>
        rcases textElements_append_inj elements elements'
          (dropComma_textElements_inj format (List.cons.inj same).2) with ⟨rfl, sameRest⟩
        exact ⟨rfl, sameRest⟩
      | null | bool | number | string | object => cases sameShape
  | .object members, second, _, _, _, _, same => by
      have sameShape := shape_eq_of_text format same
      cases second with
      | object members' =>
        rcases textMembers_append_inj members members'
          (dropComma_textMembers_inj format (List.cons.inj same).2) with ⟨rfl, sameRest⟩
        exact ⟨rfl, sameRest⟩
      | null | bool | number | string | array => cases sameShape

theorem textElements_append_inj : ∀ (first second : List (Json Number)) {rest rest' : List Char},
    textElements format first ++ rest = textElements format second ++ rest' →
      first = second ∧ rest = rest'
  | [], second, _, _, same => by
      cases second with
      | nil => exact ⟨rfl, (List.cons.inj same).2⟩
      | cons element elements => exact absurd (List.cons.inj same).1 (by decide)
  | element :: elements, second, _, _, same => by
      cases second with
      | nil => exact absurd (List.cons.inj same).1 (by decide)
      | cons element' elements' =>
        simp only [textElements, List.cons_append, List.append_assoc, List.cons.injEq,
          true_and] at same
        rcases text_append_inj element element' (delimited_textElements format elements _)
          (delimited_textElements format elements' _) same with ⟨rfl, sameRest⟩
        rcases textElements_append_inj elements elements' sameRest with ⟨rfl, sameTail⟩
        exact ⟨rfl, sameTail⟩

theorem textMembers_append_inj :
    ∀ (first second : List (String × Json Number)) {rest rest' : List Char},
    textMembers format first ++ rest = textMembers format second ++ rest' →
      first = second ∧ rest = rest'
  | [], second, _, _, same => by
      cases second with
      | nil => exact ⟨rfl, (List.cons.inj same).2⟩
      | cons member members => exact absurd (List.cons.inj same).1 (by decide)
  | (key, value) :: members, second, _, _, same => by
      cases second with
      | nil => exact absurd (List.cons.inj same).1 (by decide)
      | cons member' members' =>
        rcases member' with ⟨key', value'⟩
        simp only [textMembers, List.cons_append, List.append_assoc, List.cons.injEq,
          true_and] at same
        rcases quote_append_inj same with ⟨rfl, sameValue⟩
        rcases text_append_inj value value' (delimited_textMembers format members _)
          (delimited_textMembers format members' _) (List.cons.inj sameValue).2 with ⟨rfl, sameRest⟩
        rcases textMembers_append_inj members members' sameRest with ⟨rfl, sameTail⟩
        exact ⟨rfl, sameTail⟩

end

end Text

end Json
