import Mathlib
import TsDrp.JsonValue
import TsDrp.Replication

/-!
# The hash of a vertex

`computeHash` is a digest of a JSON text.  The text determines the peer, the
dependencies, the timestamp and the types of the operation, and the JSON of the
operation's value.  The value itself it determines only where JSON keeps it:
`NaN`, the infinities and an undefined element are written like `null`, negative
zero like zero, and an undefined field not at all.
-/

namespace TsDrp

open HashGraph

open Json

section Content

variable (format : NumberFormat Double)

/-- The key order is that of the constructors of operations; an undefined value is left out. -/
def Operation.toJson (operation : Operation) : Json Double :=
  .object (JsValue.toJsonFields [("drpType", .string operation.drpType),
    ("opType", .string operation.opType), ("value", operation.value)])

def hashesText (hashes : List Hash) : List Char := text format (.array (hashes.map .string))

def key (name : String) : List Char := quote name ++ [':']

/-- Everything behind the operation. -/
def tailText (peerId : String) (dependencies : List Hash) (timestamp : ℤ) : List Char :=
  key "deps" ++ (hashesText format dependencies ++ ',' :: (key "peerId" ++ (quote peerId ++
    ',' :: (key "timestamp" ++ ((toString timestamp).toList ++ [rightBrace])))))

/-- The text that is hashed; an undefined operation is left out. -/
def contentText (peerId : String) (operation : Option (Json Double)) (dependencies : List Hash)
    (timestamp : ℤ) : List Char :=
  match operation with
  | none => leftBrace :: tailText format peerId dependencies timestamp
  | some operation => leftBrace :: (key "operation" ++ (text format operation ++
      ',' :: tailText format peerId dependencies timestamp))

def rootText : List Char :=
  contentText format "" (some (.object [("type", .string "-1"), ("value", .null)])) [] (-1)

/-- `computeHash`, for a digest of a text and the number format of the language. -/
def computeHash (sha256 : String → Hash) : ComputeHash :=
  fun peerId operation dependencies timestamp => sha256 (.ofList
    (contentText format peerId (operation.map (·.toJson)) dependencies timestamp))

variable {format}

section

variable {peerId peerId' : String} {dependencies dependencies' : List Hash}
  {timestamp timestamp' : ℤ}

theorem tailText_inj
    (same : tailText format peerId dependencies timestamp =
      tailText format peerId' dependencies' timestamp') :
    peerId = peerId' ∧ dependencies = dependencies' ∧ timestamp = timestamp' := by
  rcases text_append_inj format _ _ (delimited_cons _ (by decide)) (delimited_cons _ (by decide))
    (List.append_cancel_left same) with ⟨sameArray, same⟩
  rcases quote_append_inj (List.append_cancel_left (List.cons.inj same).2) with ⟨samePeer, same⟩
  have sameText := List.append_cancel_right (List.append_cancel_left (List.cons.inj same).2)
  -- It is for `Int.repr_injective`, of the standard library, that the whole of Mathlib is imported.
  refine ⟨samePeer, ?_, Int.repr_injective (String.toList_injective sameText)⟩
  have injective : Function.Injective (Json.string : String → Json Double) :=
    fun _ _ same => by cases same; rfl
  exact List.map_injective_iff.mpr injective (Json.array.inj sameArray)

theorem contentText_inj {operation operation' : Option (Json Double)}
    (same : contentText format peerId operation dependencies timestamp =
      contentText format peerId' operation' dependencies' timestamp') :
    peerId = peerId' ∧ operation = operation' ∧ dependencies = dependencies' ∧
      timestamp = timestamp' := by
  have otherKey : ∀ (rest rest' : List Char), key "deps" ++ rest ≠ key "operation" ++ rest' := by
    intro rest rest' same
    simp only [key, List.append_assoc] at same
    exact absurd (quote_append_inj same).1 (by decide)
  cases operation with
  | none =>
    cases operation' with
    | none =>
      rcases tailText_inj (List.cons.inj same).2 with ⟨samePeer, sameDependencies, sameTime⟩
      exact ⟨samePeer, rfl, sameDependencies, sameTime⟩
    | some operation' => exact absurd (List.cons.inj same).2 (otherKey _ _)
  | some operation =>
    cases operation' with
    | none => exact absurd (List.cons.inj same).2.symm (otherKey _ _)
    | some operation' =>
      have same := List.append_cancel_left (List.cons.inj same).2
      rcases text_append_inj format _ _ (delimited_cons _ (by decide))
        (delimited_cons _ (by decide)) same with ⟨rfl, sameTail⟩
      rcases tailText_inj (List.cons.inj sameTail).2 with
        ⟨samePeer, sameDependencies, sameTime⟩
      exact ⟨samePeer, rfl, sameDependencies, sameTime⟩

end

variable {sha256 : String → Hash}

theorem computeHash_inj (injective : Function.Injective sha256) {peerId peerId' : String}
    {operation operation' : Option Operation} {dependencies dependencies' : List Hash}
    {timestamp timestamp' : ℤ}
    (same : computeHash format sha256 peerId operation dependencies timestamp =
      computeHash format sha256 peerId' operation' dependencies' timestamp') :
    peerId = peerId' ∧ operation.map (·.toJson) = operation'.map (·.toJson) ∧
      dependencies = dependencies' ∧ timestamp = timestamp' :=
  contentText_inj (String.ofList_injective (injective same))

end Content

theorem contentBinding_computeHash {format : NumberFormat Double} {sha256 : String → Hash}
    (injective : Function.Injective sha256) (root : sha256 (.ofList (rootText format)) = rootHash) :
    ContentBinding (computeHash format sha256) where
  binds := by
    intro _ _ _ _ _ _ _ _ same
    rcases computeHash_inj injective same with ⟨samePeer, _, sameDependencies, _⟩
    exact ⟨samePeer, sameDependencies⟩
  notRoot := by
    intro peerId operation dependencies timestamp nonempty same
    rw [← root] at same
    rcases contentText_inj (String.ofList_injective (injective same)) with ⟨_, _, none, _⟩
    exact nonempty none

end TsDrp
