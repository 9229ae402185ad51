import TsDrp.JsValue
import TsDrp.Library.Json

/-!
# The JSON of a value

What `JSON.stringify` makes of a value.  `NaN`, the infinities and an undefined
element become `null`, negative zero becomes zero, and an undefined field is left
out; all other values can be read back from their JSON.
-/

namespace TsDrp

namespace JsValue

mutual

/-- What `JSON.stringify` writes for a value inside an array or under a key. -/
def toJson : JsValue → Json Double
  | undefined => .null
  | null => .null
  | bool value => .bool value
  | number (.finite double) => .number double
  | number .negativeZero => .number (.ofInt 0 Double.zero_small)
  | number .nan => .null
  | number (.infinity _) => .null
  | string value => .string value
  | array elements => .array (toJsonElements elements)
  | object fields => .object (toJsonFields fields)

def toJsonElements : List JsValue → List (Json Double)
  | [] => []
  | element :: rest => element.toJson :: toJsonElements rest

/-- Undefined fields are left out. -/
def toJsonFields : List (String × JsValue) → List (String × Json Double)
  | [] => []
  | (key, value) :: rest =>
    if value.isUndefined then toJsonFields rest else (key, value.toJson) :: toJsonFields rest

end

mutual

/-- Values that JSON keeps: no undefined, no negative zero, only finite numbers. -/
def Clean : JsValue → Prop
  | undefined => False
  | number (.finite _) => True
  | number _ => False
  | array elements => CleanElements elements
  | object fields => CleanFields fields
  | _ => True

def CleanElements : List JsValue → Prop
  | [] => True
  | element :: rest => element.Clean ∧ CleanElements rest

def CleanFields : List (String × JsValue) → Prop
  | [] => True
  | (_, value) :: rest => value.Clean ∧ CleanFields rest

end

mutual

def ofJson : Json Double → JsValue
  | .null => null
  | .bool value => bool value
  | .number double => number (.finite double)
  | .string value => string value
  | .array elements => array (ofJsonElements elements)
  | .object members => object (ofJsonMembers members)

def ofJsonElements : List (Json Double) → List JsValue
  | [] => []
  | element :: rest => ofJson element :: ofJsonElements rest

def ofJsonMembers : List (String × Json Double) → List (String × JsValue)
  | [] => []
  | (key, value) :: rest => (key, ofJson value) :: ofJsonMembers rest

end

mutual

theorem clean_ofJson : ∀ json : Json Double, (ofJson json).Clean
  | .null => trivial
  | .bool _ => trivial
  | .number _ => trivial
  | .string _ => trivial
  | .array elements => cleanElements_ofJsonElements elements
  | .object members => cleanFields_ofJsonMembers members

theorem cleanElements_ofJsonElements : ∀ elements : List (Json Double),
    CleanElements (ofJsonElements elements)
  | [] => trivial
  | element :: rest => ⟨clean_ofJson element, cleanElements_ofJsonElements rest⟩

theorem cleanFields_ofJsonMembers : ∀ members : List (String × Json Double),
    CleanFields (ofJsonMembers members)
  | [] => trivial
  | (_, value) :: rest => ⟨clean_ofJson value, cleanFields_ofJsonMembers rest⟩

end

theorem isUndefined_eq_false_of_clean {value : JsValue} (clean : value.Clean) :
    value.isUndefined = false := by
  cases value with
  | undefined => exact clean.elim
  | null | bool | number | string | array | object => rfl

mutual

theorem ofJson_toJson : ∀ value : JsValue, value.Clean → ofJson value.toJson = value
  | undefined, clean => clean.elim
  | null, _ => rfl
  | bool _, _ => rfl
  | number (.finite _), _ => rfl
  | number .negativeZero, clean => clean.elim
  | number .nan, clean => clean.elim
  | number (.infinity _), clean => clean.elim
  | string _, _ => rfl
  | array elements, clean => congrArg array (ofJsonElements_toJsonElements elements clean)
  | object fields, clean => congrArg object (ofJsonMembers_toJsonFields fields clean)

theorem ofJsonElements_toJsonElements : ∀ elements : List JsValue, CleanElements elements →
    ofJsonElements (toJsonElements elements) = elements
  | [], _ => rfl
  | element :: rest, clean => congrArg₂ List.cons (ofJson_toJson element clean.1)
      (ofJsonElements_toJsonElements rest clean.2)

theorem ofJsonMembers_toJsonFields : ∀ fields : List (String × JsValue), CleanFields fields →
    ofJsonMembers (toJsonFields fields) = fields
  | [], _ => rfl
  | (key, value) :: rest, clean => by
      rw [toJsonFields, isUndefined_eq_false_of_clean clean.1, if_neg Bool.false_ne_true,
        ofJsonMembers, ofJson_toJson value clean.1, ofJsonMembers_toJsonFields rest clean.2]

end

mutual

theorem toJson_ofJson : ∀ json : Json Double, (ofJson json).toJson = json
  | .null => rfl
  | .bool _ => rfl
  | .number _ => rfl
  | .string _ => rfl
  | .array elements => congrArg Json.array (toJsonElements_ofJsonElements elements)
  | .object members => congrArg Json.object (toJsonFields_ofJsonMembers members)

theorem toJsonElements_ofJsonElements : ∀ elements : List (Json Double),
    toJsonElements (ofJsonElements elements) = elements
  | [] => rfl
  | element :: rest => congrArg₂ List.cons (toJson_ofJson element)
      (toJsonElements_ofJsonElements rest)

theorem toJsonFields_ofJsonMembers : ∀ members : List (String × Json Double),
    toJsonFields (ofJsonMembers members) = members
  | [] => rfl
  | (key, value) :: rest => by
      rw [ofJsonMembers, toJsonFields, isUndefined_eq_false_of_clean (clean_ofJson value),
        if_neg Bool.false_ne_true, toJson_ofJson value, toJsonFields_ofJsonMembers rest]

end

theorem eq_of_toJson_eq {first second : JsValue} (clean : first.Clean) (clean' : second.Clean)
    (same : first.toJson = second.toJson) : first = second := by
  rw [← ofJson_toJson first clean, ← ofJson_toJson second clean', same]

end JsValue

end TsDrp
