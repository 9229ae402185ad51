import TsDrp.HashBinding
import TsDrp.Linearize.PairSurvivors
import Mathlib.Data.Finset.Max

/-!
# The map of the blueprints

A map with `set` and `delete`.  Of a `set` and a concurrent `delete` of the same
key the mode decides, and of two concurrent `set`s the one with the larger hash
of its value stays; both stay where the hashes are equal.  With `SetWins` a
`delete` that follows a `set` can so be dropped for another `set` that is dropped
in its turn, or that stays beside the first.
-/

namespace TsDrp

open JsValue Outcome

inductive MapConflictResolution where
  | setWins
  | deleteWins
deriving DecidableEq

/-- The answer about a `set` and a `delete`. -/
def MapConflictResolution.drops : MapConflictResolution → (leftSets : Bool) → ActionType
  | .setWins, leftSets => if leftSets then .dropRight else .dropLeft
  | .deleteWins, leftSets => if leftSets then .dropLeft else .dropRight

/-- The entries of the map, the oldest key first. -/
structure MapDRP where
  conflictResolution : MapConflictResolution
  map : List (JsValue × JsValue)
deriving DecidableEq

namespace MapDRP

def new (conflictResolution : Option MapConflictResolution) : MapDRP where
  conflictResolution := conflictResolution.getD .setWins
  map := []

def storedKey : JsValue → JsValue
  | .number .negativeZero => .number (.finite (.ofInt 0 Double.zero_small))
  | key => key

section Methods

variable (drp : MapDRP)

def queryHas (key : JsValue) : Bool := drp.map.any fun entry => entry.1.sameValueZero key

def queryGet (key : JsValue) : JsValue :=
  ((drp.map.find? fun entry => entry.1.sameValueZero key).map (·.2)).getD .undefined

/-- The new map, and whether that is a change. -/
def set (key value : JsValue) : MapDRP × Bool :=
  if drp.queryHas key then
    ({ drp with
      map := drp.map.map fun entry => if entry.1.sameValueZero key then (entry.1, value) else entry },
      !(drp.queryGet key).deepEqual value)
  else ({ drp with map := drp.map ++ [(storedKey key, value)] }, true)

def delete (key : JsValue) : MapDRP × Bool :=
  ({ drp with map := drp.map.filter fun entry => !entry.1.sameValueZero key }, drp.queryHas key)

end Methods

/-- The conversion of `|` and `<<` to 32 bits with a sign. -/
def toInt32 (value : ℤ) : ℤ := value.bmod (2 ^ 32)

def hexText (value : ℤ) : String :=
  if value < 0 then "-" ++ String.ofList (Nat.toDigits 16 value.natAbs)
  else String.ofList (Nat.toDigits 16 value.natAbs)

def computeHash (data : String) : String :=
  hexText ((utf16 data).foldl (fun hash char => toInt32 (toInt32 (hash * 32) - hash + char)) 0)

/-- `_computeHash(JSON.stringify(value))`; there is no text for `undefined`. -/
def hashValue (format : Json.NumberFormat Double) (value : JsValue) : Except JsError String :=
  if value.isUndefined then
    .error (.typeError "Cannot read properties of undefined (reading 'length')")
  else .ok (computeHash (.ofList (value.toJson.text format)))

section Resolver

variable (format : Json.NumberFormat Double) (mode : MapConflictResolution)

/-- `this._computeHash(JSON.stringify(value[1]))` -/
def valueHash (operation : Operation) : Except JsError String :=
  operation.value.item 1 >>= hashValue format

def resolveOperations (left right : Operation) : Except JsError ActionType := do
  let leftKey ← left.value.first
  let rightKey ← right.value.first
  if !leftKey.strictEquals rightKey then return .nop
  if left.opType = "delete" ∧ right.opType = "delete" then return .nop
  if left.opType = "set" ∧ right.opType = "set" then
    let leftHash ← valueHash format left
    let rightHash ← valueHash format right
    return if rightHash < leftHash then .dropRight
      else if leftHash < rightHash then .dropLeft else .nop
  return mode.drops (left.opType = "set")

def resolveConflicts : ResolveConflictFn := resolveFirstTwo (resolveOperations format mode)

end Resolver

/--
`callDRP` on the map.  The methods other than `set` and `delete` change nothing;
whether one of them throws is left to `callOther`.
-/
def call (callOther : MapDRP → String → List JsValue → Except JsError Unit) (drp : MapDRP)
    (_caller method : String) (value : JsValue) : Except JsError (MapDRP × Bool) :=
  value.spread >>= fun args =>
    if method = "set" then .ok (drp.set (args.headD .undefined) (args[1]?.getD .undefined))
    else if method = "delete" then .ok (drp.delete (args.headD .undefined))
    else (callOther drp method args).map fun _ => (drp, false)

section Entries

variable {drp : MapDRP} {key other value : JsValue}

theorem sameValueZero_storedKey (key other : JsValue) :
    (storedKey key).sameValueZero other = key.sameValueZero other := by
  unfold storedKey
  split
  · have zero : (number (.finite (.ofInt 0 Double.zero_small))).sameValueZero
        (.number .negativeZero) = true := by
      decide
    rw [Bool.eq_iff_iff]
    exact ⟨sameValueZero_trans (sameValueZero_comm _ _ ▸ zero),
      sameValueZero_trans zero⟩
  · rfl

theorem queryHas_congr (same : key.sameValueZero other = true) :
    drp.queryHas key = drp.queryHas other := by
  have same' : other.sameValueZero key = true := sameValueZero_comm _ _ ▸ same
  unfold queryHas
  congr 1
  funext entry
  rw [Bool.eq_iff_iff]
  exact ⟨fun found => sameValueZero_trans found same,
    fun found => sameValueZero_trans found same'⟩

theorem queryHas_set : (drp.set key value).1.queryHas other =
    (key.sameValueZero other || drp.queryHas other) := by
  unfold set
  split
  · rename_i present
    have same : ((drp.map.map fun entry => if entry.1.sameValueZero key then (entry.1, value) else entry).any
        fun entry => entry.1.sameValueZero other) = drp.queryHas other := by
      rw [List.any_map, queryHas]
      congr 1
      funext entry
      rw [Function.comp_apply]
      split <;> rfl
    change _ = (_ || _)
    rw [queryHas]
    rw [same]
    cases isSame : key.sameValueZero other with
    | true => rw [← queryHas_congr isSame, present, Bool.true_or]
    | false => rfl
  · simp only [queryHas, List.any_append, List.any_cons, List.any_nil, Bool.or_false,
      sameValueZero_storedKey]
    exact Bool.or_comm _ _

theorem queryHas_delete : (drp.delete key).1.queryHas other =
    (!key.sameValueZero other && drp.queryHas other) := by
  rw [delete, queryHas, List.any_filter, queryHas]
  cases isSame : key.sameValueZero other with
  | true =>
    rw [Bool.not_true, Bool.false_and, List.any_eq_false]
    intro entry _ found
    rw [Bool.and_eq_true, Bool.not_eq_true'] at found
    have isKey := sameValueZero_trans found.2 (sameValueZero_comm _ _ ▸ isSame)
    rw [found.1] at isKey
    cases isKey
  | false =>
    rw [Bool.not_false, Bool.true_and]
    congr 1
    funext entry
    cases found : entry.1.sameValueZero other with
    | false => rw [Bool.and_false]
    | true =>
      have notKey : entry.1.sameValueZero key = false := by
        rw [Bool.eq_false_iff]
        intro isKey
        have same := sameValueZero_trans (sameValueZero_comm _ _ ▸ isKey) found
        rw [isSame] at same
        cases same
      rw [notKey]
      rfl

end Entries

structure IsCall (operation : Operation) (args : List JsValue) : Prop where
  isDRP : operation.drpType = "DRP"
  method : operation.opType = "set" ∨ operation.opType = "delete"
  value : operation.value = .array args

def Calls (vertex : Vertex) (method : String) (key : JsValue) : Prop :=
  ∃ operation args, vertex.operation = some operation ∧ IsCall operation args ∧
    operation.opType = method ∧ (args.headD .undefined).sameValueZero key = true

section Replay

variable {callOther : MapDRP → String → List JsValue → Except JsError Unit} {drp : MapDRP}
  {key : JsValue} {vertex : Vertex} {operation : Operation} {args : List JsValue}

theorem IsCall.calls_iff (call : IsCall operation args) (found : vertex.operation = some operation)
    (method : String) : Calls vertex method key ↔
      operation.opType = method ∧ (args.headD .undefined).sameValueZero key = true := by
  constructor
  · rintro ⟨_, args', found', call', isMethod, isKey⟩
    cases found.symm.trans found'
    cases call.value.symm.trans call'.value
    exact ⟨isMethod, isKey⟩
  · rintro ⟨isMethod, isKey⟩
    exact ⟨operation, args, found, call, isMethod, isKey⟩

theorem IsCall.exists_applyVertex (isCall : IsCall operation args)
    (found : vertex.operation = some operation) (drp : MapDRP) (key : JsValue) :
    ∃ next, applyVertex (call callOther) drp vertex = .ok next ∧
      (next.queryHas key = true →
        Calls vertex "set" key ∨ drp.queryHas key = true ∧ ¬Calls vertex "delete" key) := by
  rw [applyVertex, found]
  dsimp only
  rw [call, isCall.value, spread, ok_bind, isCall.calls_iff found, isCall.calls_iff found]
  rcases isCall.method with isSet | isDelete
  · rw [if_pos isSet]
    refine ⟨_, rfl, fun present => ?_⟩
    rw [queryHas_set, Bool.or_eq_true] at present
    rcases present with same | present
    · exact Or.inl ⟨isSet, same⟩
    · refine Or.inr ⟨present, fun isDelete => ?_⟩
      rw [isSet] at isDelete
      exact absurd isDelete.1 (by decide)
  · rw [if_neg (by rw [isDelete]; decide), if_pos isDelete]
    refine ⟨_, rfl, fun present => ?_⟩
    rw [queryHas_delete, Bool.and_eq_true, Bool.not_eq_true'] at present
    refine Or.inr ⟨present.2, fun isDelete => ?_⟩
    rw [present.1] at isDelete
    cases isDelete.2

theorem exists_applyVertices {vertices : List Vertex}
    (calls : ∀ vertex ∈ vertices, ∃ operation args, vertex.operation = some operation ∧
      IsCall operation args) (drp : MapDRP) (key : JsValue) :
    ∃ final, applyVertices (call callOther) drp vertices = .ok final ∧
      (final.queryHas key = true →
        (drp.queryHas key = true ∧ ∀ vertex ∈ vertices,
          ¬Calls vertex "set" key ∧ ¬Calls vertex "delete" key) ∨
        ∃ before setter after, vertices = before ++ setter :: after ∧ Calls setter "set" key ∧
          ∀ vertex ∈ after, ¬Calls vertex "set" key ∧ ¬Calls vertex "delete" key) := by
  induction vertices generalizing drp with
  | nil => exact ⟨drp, rfl, fun present => Or.inl ⟨present, fun _ mem => absurd mem List.not_mem_nil⟩⟩
  | cons vertex rest ih =>
    rcases calls vertex List.mem_cons_self with ⟨operation, args, found, isCall⟩
    rcases @IsCall.exists_applyVertex callOther _ _ _ isCall found drp key with
      ⟨next, applied, kept⟩
    rcases ih (fun vertex mem => calls vertex (.tail _ mem)) next with ⟨final, restApplied, present⟩
    refine ⟨final, by rw [applyVertices, applied, ok_bind, restApplied], fun has => ?_⟩
    rcases present has with ⟨nextHas, silent⟩ | ⟨before, setter, after, rfl, sets, silent⟩
    · by_cases sets : Calls vertex "set" key
      · exact Or.inr ⟨[], vertex, rest, rfl, sets, silent⟩
      · rcases kept nextHas with sets' | ⟨drpHas, notDeleted⟩
        · exact absurd sets' sets
        · exact Or.inl ⟨drpHas, List.forall_mem_cons.mpr ⟨⟨sets, notDeleted⟩, silent⟩⟩
    · exact Or.inr ⟨vertex :: before, setter, after, rfl, sets, silent⟩

end Replay

section Answers

variable {format : Json.NumberFormat Double} {mode : MapConflictResolution} {left right : Operation}
  {leftArgs rightArgs : List JsValue}

abbrev sameKey (left right : List JsValue) : Bool :=
  (left.headD .undefined).strictEquals (right.headD .undefined)

/-- With `SetWins` the first operation costs the second its place. -/
def Beats (format : Json.NumberFormat Double) (winner loser : Operation) : Prop :=
  winner.opType = "set" ∧ (loser.opType = "delete" ∨ loser.opType = "set" ∧
    ∃ winnerHash loserHash, valueHash format winner = .ok winnerHash ∧
      valueHash format loser = .ok loserHash ∧ loserHash < winnerHash)

section

variable (leftCall : IsCall left leftArgs) (rightCall : IsCall right rightArgs)
include leftCall rightCall

theorem resolveOperations_of_different_keys
    (different : sameKey leftArgs rightArgs = false) :
    resolveOperations format mode left right = .ok .nop := by
  simp only [resolveOperations, leftCall.value, rightCall.value, first, ok_bind,
    different, Bool.not_false, if_true]
  rfl

theorem resolveOperations_of_same_key
    (same : sameKey leftArgs rightArgs = true) :
    resolveOperations format mode left right =
      if left.opType = "set" then
        if right.opType = "set" then
          valueHash format left >>= fun leftHash => valueHash format right >>= fun rightHash =>
            .ok (if rightHash < leftHash then .dropRight
              else if leftHash < rightHash then .dropLeft else .nop)
        else .ok (mode.drops true)
      else if right.opType = "set" then .ok (mode.drops false) else .ok .nop := by
  simp only [resolveOperations, leftCall.value, rightCall.value, first, ok_bind,
    same, Bool.not_true, Bool.false_eq_true, if_false]
  rcases leftCall.method with leftSets | leftDeletes
  · rcases rightCall.method with rightSets | rightDeletes
    · simp [leftSets, rightSets]
    · simp [leftSets, rightDeletes]
  · rcases rightCall.method with rightSets | rightDeletes
    · simp [leftDeletes, rightSets]
    · simp [leftDeletes, rightDeletes]

theorem beats_of_resolveOperations {answer : ActionType}
    (answered : resolveOperations format .setWins left right = .ok answer) : (answer = .dropLeft →
      sameKey leftArgs rightArgs = true ∧
        Beats format right left) ∧
    (answer = .dropRight →
      sameKey leftArgs rightArgs = true ∧
        Beats format left right) := by
  cases same : sameKey leftArgs rightArgs with
  | false =>
    rw [resolveOperations_of_different_keys leftCall rightCall same] at answered
    cases answered
    simp
  | true =>
    rw [resolveOperations_of_same_key leftCall rightCall same] at answered
    rcases leftCall.method with leftSets | leftDeletes
    · rcases rightCall.method with rightSets | rightDeletes
      · rw [if_pos leftSets, if_pos rightSets] at answered
        rcases bind_eq_ok.mp answered with ⟨leftHash, leftHashed, answered⟩
        rcases bind_eq_ok.mp answered with ⟨rightHash, rightHashed, answered⟩
        cases answered
        constructor
        · intro isDropLeft
          refine ⟨rfl, rightSets, Or.inr ⟨leftSets, _, _, rightHashed, leftHashed, ?_⟩⟩
          by_contra notSmaller
          rw [if_neg notSmaller] at isDropLeft
          split at isDropLeft <;> cases isDropLeft
        · intro isDropRight
          refine ⟨rfl, leftSets, Or.inr ⟨rightSets, _, _, leftHashed, rightHashed, ?_⟩⟩
          by_contra notSmaller
          rw [if_neg notSmaller] at isDropRight
          split at isDropRight <;> cases isDropRight
      · rw [if_pos leftSets, if_neg (by rw [rightDeletes]; decide)] at answered
        cases answered
        exact ⟨nofun, fun _ => ⟨rfl, leftSets, Or.inl rightDeletes⟩⟩
    · rw [if_neg (by rw [leftDeletes]; decide)] at answered
      rcases rightCall.method with rightSets | rightDeletes
      · rw [if_pos rightSets] at answered
        cases answered
        exact ⟨fun _ => ⟨rfl, rightSets, Or.inl leftDeletes⟩, nofun⟩
      · rw [if_neg (by rw [rightDeletes]; decide)] at answered
        cases answered
        exact ⟨nofun, nofun⟩

end

/-- The values of two `set`s of the same key have hashes. -/
def Hashed (format : Json.NumberFormat Double) (left right : Operation) : Prop :=
  ∃ leftHash rightHash, valueHash format left = .ok leftHash ∧ valueHash format right = .ok rightHash

theorem dropsAtMost_resolveOperations (leftCall : IsCall left leftArgs)
    (rightCall : IsCall right rightArgs)
    (hashed : left.opType = "set" → right.opType = "set" →
      sameKey leftArgs rightArgs = true →
        Hashed format left right) :
    ActionType.DropsAtMost (resolveOperations format mode left right) := by
  have drops : ∀ leftSets, ActionType.DropsAtMost (.ok (mode.drops leftSets)) := by
    intro leftSets
    cases mode <;> cases leftSets <;> simp [ActionType.DropsAtMost, MapConflictResolution.drops]
  cases same : sameKey leftArgs rightArgs with
  | false => exact Or.inl (resolveOperations_of_different_keys leftCall rightCall same)
  | true =>
    rw [resolveOperations_of_same_key leftCall rightCall same]
    split
    · rename_i leftSets
      split
      · rename_i rightSets
        rcases hashed leftSets rightSets same with ⟨leftHash, rightHash, leftHashed, rightHashed⟩
        rw [leftHashed, rightHashed, ok_bind, ok_bind]
        unfold ActionType.DropsAtMost
        split_ifs <;> simp
      · exact drops true
    · split
      · exact drops false
      · exact Or.inl rfl

theorem resolveOperations_ne_nop (leftCall : IsCall left leftArgs) (rightCall : IsCall right rightArgs)
    (leftSets : left.opType = "set") (rightSets : right.opType = "set")
    (same : sameKey leftArgs rightArgs = true)
    {leftHash rightHash : String} (leftHashed : valueHash format left = .ok leftHash)
    (rightHashed : valueHash format right = .ok rightHash) (different : leftHash ≠ rightHash) :
    resolveOperations format mode left right ≠ .ok .nop := by
  rw [resolveOperations_of_same_key leftCall rightCall same, if_pos leftSets, if_pos rightSets,
    leftHashed, rightHashed, ok_bind, ok_bind]
  rcases lt_or_gt_of_ne different with smaller | larger
  · rw [if_neg (lt_asymm smaller), if_pos smaller]
    simp
  · rw [if_pos larger]
    simp

end Answers

section History

open HashGraph

variable {options : GraphOptions} {format : Json.NumberFormat Double} {graph : HashGraph}
  {key : JsValue}

def OnlyCalls (graph : HashGraph) : Prop :=
  ∀ vertex ∈ graph.created, ∃ operation args, vertex.operation = some operation ∧
    IsCall operation args

/--
The values of concurrent `set`s of one key have hashes, and the hashes differ if
the key is the given one.
-/
def Untied (format : Json.NumberFormat Double) (graph : HashGraph) (key : JsValue) : Prop :=
  ∀ left ∈ graph.created, ∀ right ∈ graph.created, graph.Concurrent left.hash right.hash →
    ∀ leftOperation leftArgs rightOperation rightArgs, left.operation = some leftOperation →
      right.operation = some rightOperation → IsCall leftOperation leftArgs →
      IsCall rightOperation rightArgs → leftOperation.opType = "set" → rightOperation.opType = "set" →
      sameKey leftArgs rightArgs = true →
      ∃ leftHash rightHash, valueHash format leftOperation = .ok leftHash ∧
        valueHash format rightOperation = .ok rightHash ∧
        ((leftArgs.headD .undefined).sameValueZero key = true → leftHash ≠ rightHash)

theorem pairAction_eq (wellFormed : graph.WellFormed)
    (resolver : options.resolveConflictsDRP = some (resolveConflicts format .setWins))
    {left right : Vertex} (leftMem : left ∈ graph.created) (rightMem : right ∈ graph.created)
    {leftOperation rightOperation : Operation} {leftArgs : List JsValue}
    (leftIs : left.operation = some leftOperation) (rightIs : right.operation = some rightOperation)
    (leftCall : IsCall leftOperation leftArgs) :
    pairAction options graph left.hash right.hash =
      resolveOperations format .setWins leftOperation rightOperation := by
  have leftFound := getVertex_of_mem wellFormed.nodup (List.mem_of_mem_filter leftMem)
  have rightFound := getVertex_of_mem wellFormed.nodup (List.mem_of_mem_filter rightMem)
  have notACL : left.drpType ≠ some "ACL" := by
    rw [Vertex.drpType, leftIs]
    change some leftOperation.drpType ≠ _
    rw [leftCall.isDRP]
    decide
  simp only [pairAction, leftFound, rightFound, GraphOptions.resolveConflicts, notACL, if_false,
    resolver, Option.getD_some, resolveConflicts, resolveFirstTwo, leftIs, rightIs]
  cases resolveOperations format .setWins leftOperation rightOperation <;> rfl

section Survivors

variable (wellFormed : graph.WellFormed)
  (resolver : options.resolveConflictsDRP = some (resolveConflicts format .setWins))
  (onlyCalls : OnlyCalls graph) (untied : Untied format graph key)

include wellFormed resolver

theorem beats_of_dropsFor {winner loser : Vertex} (winnerMem : winner ∈ graph.created)
    (loserMem : loser ∈ graph.created) {winnerOperation loserOperation : Operation}
    {winnerArgs loserArgs : List JsValue} (winnerIs : winner.operation = some winnerOperation)
    (loserIs : loser.operation = some loserOperation) (winnerCall : IsCall winnerOperation winnerArgs)
    (loserCall : IsCall loserOperation loserArgs)
    (drops : DropsFor options graph winner.hash loser.hash) :
    sameKey winnerArgs loserArgs = true ∧
      Beats format winnerOperation loserOperation := by
  rcases drops.2 with answered | answered
  · rw [pairAction_eq wellFormed resolver loserMem winnerMem loserIs winnerIs loserCall] at answered
    rw [sameKey, strictEquals_comm]
    exact (beats_of_resolveOperations loserCall winnerCall answered).1 rfl
  · rw [pairAction_eq wellFormed resolver winnerMem loserMem winnerIs loserIs winnerCall] at answered
    exact (beats_of_resolveOperations winnerCall loserCall answered).2 rfl

include onlyCalls untied

theorem onlyDrops : OnlyDrops options graph graph.hashes := by
  have interval := wellFormed.past_hashes.interval wellFormed
  intro left leftMem right rightMem concurrent
  rcases exists_created leftMem (interval.ne_origin_of_concurrent rightMem concurrent) with
    ⟨leftVertex, leftCreated, leftFound⟩
  rcases exists_created rightMem (interval.ne_origin_of_concurrent leftMem concurrent.symm) with
    ⟨rightVertex, rightCreated, rightFound⟩
  cases getVertex_hash leftFound
  cases getVertex_hash rightFound
  rcases onlyCalls leftVertex leftCreated with ⟨leftOperation, leftArgs, leftIs, leftCall⟩
  rcases onlyCalls rightVertex rightCreated with ⟨rightOperation, rightArgs, rightIs, rightCall⟩
  rw [pairAction_eq wellFormed resolver leftCreated rightCreated leftIs rightIs leftCall]
  apply dropsAtMost_resolveOperations leftCall rightCall
  intro leftSets rightSets same
  rcases untied leftVertex leftCreated rightVertex rightCreated concurrent leftOperation leftArgs
    rightOperation rightArgs leftIs rightIs leftCall rightCall leftSets rightSets same with
    ⟨leftHash, rightHash, leftHashed, rightHashed, _⟩
  exact ⟨leftHash, rightHash, leftHashed, rightHashed⟩

omit onlyCalls in
theorem pairAction_ne_nop {left right : Vertex} (leftMem : left ∈ graph.created)
    (rightMem : right ∈ graph.created) (concurrent : graph.Concurrent left.hash right.hash)
    (leftSets : Calls left "set" key) (rightSets : Calls right "set" key) (notNaN : key ≠ .number .nan) :
    pairAction options graph left.hash right.hash ≠ .ok .nop := by
  rcases leftSets with ⟨leftOperation, leftArgs, leftIs, leftCall, leftMethod, leftKey⟩
  rcases rightSets with ⟨rightOperation, rightArgs, rightIs, rightCall, rightMethod, rightKey⟩
  have equal : ∀ {other : JsValue}, other.sameValueZero key = true → other.strictEquals key = true := by
    intro other same
    rcases sameValueZero_iff.mp same with same | ⟨_, isNaN⟩
    · exact same
    · exact absurd isNaN notNaN
  have same : sameKey leftArgs rightArgs = true :=
    strictEquals_trans (equal leftKey) (strictEquals_comm _ _ ▸ equal rightKey)
  rcases untied left leftMem right rightMem concurrent leftOperation leftArgs rightOperation rightArgs
    leftIs rightIs leftCall rightCall leftMethod rightMethod same with
    ⟨leftHash, rightHash, leftHashed, rightHashed, different⟩
  rw [pairAction_eq wellFormed resolver leftMem rightMem leftIs rightIs leftCall]
  exact resolveOperations_ne_nop leftCall rightCall leftMethod rightMethod same leftHashed rightHashed
    (different leftKey)

def hashOf (format : Json.NumberFormat Double) (vertex : Vertex) : String :=
  match vertex.operation with
  | none => ""
  | some operation =>
    match valueHash format operation with
    | .ok hash => hash
    | .error _ => ""

omit wellFormed resolver onlyCalls untied in
theorem hashOf_eq {vertex : Vertex} {operation : Operation} {hash : String}
    (found : vertex.operation = some operation) (hashed : valueHash format operation = .ok hash) :
    hashOf format vertex = hash := by
  rw [hashOf, found]
  dsimp only
  rw [hashed]

/--
A call of the key behind a `set` that survives is dropped for another `set` of
the key behind it, with a larger hash if the call was a `set` itself.
-/
theorem exists_later_set {order kept : List Hash}
    (orderMem : ∀ hash ∈ order, hash ∈ graph.hashes ∧ hash ≠ rootHash)
    (survivors : Survivors options graph order kept) {setter call : Vertex}
    (setterMem : setter ∈ graph.created) (callMem : call ∈ graph.created) (setterKept : setter.hash ∈ kept)
    (sets : Calls setter "set" key) (inOrder : call.hash ∈ order) (omitted : call.hash ∉ kept)
    (precedes : graph.Precedes setter.hash call.hash)
    (calls : Calls call "set" key ∨ Calls call "delete" key) :
    ∃ later ∈ graph.created, later.hash ∈ order ∧ Calls later "set" key ∧
      graph.Precedes setter.hash later.hash ∧
      (Calls call "set" key → hashOf format call < hashOf format later) := by
  rcases survivors.omitted call.hash inOrder omitted with ⟨winner, winnerMem, drops, quiet⟩
  rcases exists_created (orderMem winner winnerMem).1 (orderMem winner winnerMem).2 with
    ⟨later, laterMem, laterFound⟩
  cases getVertex_hash laterFound
  rcases onlyCalls call callMem with ⟨callOperation, callArgs, callIs, isCall⟩
  rcases onlyCalls later laterMem with ⟨laterOperation, laterArgs, laterIs, laterCall⟩
  rcases beats_of_dropsFor wellFormed resolver laterMem callMem laterIs callIs laterCall isCall drops with
    ⟨same, laterSets, beaten⟩
  have callKey : (callArgs.headD .undefined).sameValueZero key = true := by
    rcases calls with calls | calls
    · exact ((isCall.calls_iff callIs _).mp calls).2
    · exact ((isCall.calls_iff callIs _).mp calls).2
  have laterKey : (laterArgs.headD .undefined).sameValueZero key = true :=
    sameValueZero_trans (sameValueZero_iff.mpr (Or.inl same)) callKey
  have laterSetsKey : Calls later "set" key := (laterCall.calls_iff laterIs _).mpr ⟨laterSets, laterKey⟩
  have notNaN : key ≠ .number .nan := by
    rintro rfl
    rcases sameValueZero_iff.mp laterKey with isNaN | ⟨isNaN, _⟩
    · rw [strictEquals_comm] at isNaN
      exact ne_nan_of_strictEquals isNaN rfl
    · exact ne_nan_of_strictEquals same isNaN
  refine ⟨later, laterMem, winnerMem, laterSetsKey, ?_, fun callSets => ?_⟩
  · by_contra notBehind
    have notSame : setter.hash ≠ later.hash := by
      intro sameHash
      rw [sameHash] at precedes
      exact drops.1.2.2 precedes
    have notBefore : ¬graph.Precedes later.hash setter.hash :=
      fun before => drops.1.2.2 (before.trans precedes)
    have concurrent : graph.Concurrent setter.hash later.hash := ⟨notSame, notBehind, notBefore⟩
    rcases quiet setter.hash setterKept precedes concurrent with answered | answered
    · exact pairAction_ne_nop wellFormed resolver untied setterMem laterMem concurrent sets
        laterSetsKey notNaN answered
    · exact pairAction_ne_nop wellFormed resolver untied laterMem setterMem concurrent.symm
        laterSetsKey sets notNaN answered
  · rcases beaten with isDelete | ⟨_, laterHash, callHash, laterHashed, callHashed, smaller⟩
    · have isSet := ((isCall.calls_iff callIs _).mp callSets).1
      rw [isDelete] at isSet
      exact absurd isSet (by decide)
    · rwa [hashOf_eq callIs callHashed, hashOf_eq laterIs laterHashed]

/-- No `set` of the key that is deleted behind it is the last survivor that calls the key. -/
theorem calls_behind_survivor {order before after : List Hash} {setter deleter : Vertex}
    (orderMem : ∀ hash, hash ∈ order ↔ hash ∈ graph.hashes ∧ hash ≠ rootHash)
    (ordered : order.Pairwise fun earlier later => ¬graph.Precedes later earlier)
    (survivors : Survivors options graph order (before ++ setter.hash :: after))
    (setterMem : setter ∈ graph.created) (sets : Calls setter "set" key)
    (deleterMem : deleter ∈ graph.created) (deletes : Calls deleter "delete" key)
    (precedes : graph.Precedes setter.hash deleter.hash) :
    ∃ call ∈ graph.created, call.hash ∈ after ∧
      (Calls call "set" key ∨ Calls call "delete" key) := by
  classical
  by_contra silent
  have inOrder : ∀ call ∈ graph.created, call.hash ∈ order := by
    intro call mem
    rcases List.mem_filter.mp mem with ⟨inGraph, notRoot⟩
    exact (orderMem call.hash).mpr ⟨hash_mem_of_mem inGraph, by simpa using notRoot⟩
  have behind : ∀ call ∈ graph.created, graph.Precedes setter.hash call.hash →
      Calls call "set" key ∨ Calls call "delete" key → call.hash ∉ before ++ setter.hash :: after := by
    intro call mem precedes calls kept
    have keptOrdered := ordered.sublist survivors.sublist
    rw [List.pairwise_append] at keptOrdered
    rcases List.mem_append.mp kept with inBefore | inRest
    · exact keptOrdered.2.2 call.hash inBefore setter.hash List.mem_cons_self precedes
    · rcases List.mem_cons.mp inRest with same | inAfter
      · exact wellFormed.acyclic call.hash (same ▸ precedes)
      · exact silent ⟨call, mem, inAfter, calls⟩
  have next := fun call mem precedes calls =>
    exists_later_set wellFormed resolver onlyCalls untied (fun hash => (orderMem hash).mp) survivors
      setterMem mem (List.mem_append_right _ List.mem_cons_self) sets (inOrder call mem)
      (behind call mem precedes calls) precedes calls
  -- Of the `set`s of the key behind the survivor, take one with the largest hash.
  rcases next deleter deleterMem precedes (Or.inr deletes) with
    ⟨first, firstMem, _, firstSets, firstBehind, _⟩
  rcases Finset.exists_max_image
    (graph.created.toFinset.filter fun call => Calls call "set" key ∧
      graph.Precedes setter.hash call.hash) (hashOf format)
    ⟨first, by simp [firstMem, firstSets, firstBehind]⟩ with ⟨largest, largestMem, isLargest⟩
  rw [Finset.mem_filter, List.mem_toFinset] at largestMem
  rcases next largest largestMem.1 largestMem.2.2 (Or.inl largestMem.2.1) with
    ⟨later, laterMem, _, laterSets, laterBehind, larger⟩
  have bound := isLargest later (by simp [laterMem, laterSets, laterBehind])
  exact absurd (larger largestMem.2.1) (not_lt_of_ge bound)

end Survivors

end History

end MapDRP

open MapDRP HashGraph in
/--
Where every `set` of a key has a `delete` of it among its descendants, the key is
absent after the replay of the linearized graph from the empty map, if concurrent
`set`s of the key have values with different hashes.
-/
theorem deleted_key_stays_deleted {graph : HashGraph} (grown : graph.Grown)
    {options : GraphOptions} (pair : options.semanticsTypeDRP = some .pair)
    {format : Json.NumberFormat Double}
    (resolver : options.resolveConflictsDRP = some (MapDRP.resolveConflicts format .setWins))
    (onlyCalls : MapDRP.OnlyCalls graph) {key : JsValue} (untied : MapDRP.Untied format graph key)
    (deleted : ∀ setter ∈ graph.created, Calls setter "set" key →
      ∃ deleter ∈ graph.created, Calls deleter "delete" key ∧
        graph.Precedes setter.hash deleter.hash) (fuel : ℕ)
    (callOther : MapDRP → String → List JsValue → Except JsError Unit) :
    ∃ vertices final, linearizeVertices options graph fuel rootHash graph.hashes = .ok vertices ∧
      applyVertices (MapDRP.call callOther) (MapDRP.new (some .setWins)) (splitOperation vertices).1 =
        .ok final ∧
      final.queryHas key = false := by
  have wellFormed := grown.wellFormed
  have interval := wellFormed.past_hashes.interval wellFormed
  rcases interval.exists_survivors wellFormed (onlyDrops wellFormed resolver onlyCalls untied) fuel with
    ⟨order, kept, sorted, causalOrder, linearized, survivors⟩
  have orderMem : ∀ hash, hash ∈ order ↔ hash ∈ graph.hashes ∧ hash ≠ rootHash := by
    intro hash
    rw [← causalOrder.mem hash, List.mem_cons]
    constructor
    · intro mem
      refine ⟨Or.inr mem, ?_⟩
      rintro rfl
      exact (List.nodup_cons.mp causalOrder.nodup).1 mem
    · exact fun mem => mem.1.resolve_left mem.2
  have isCreated : ∀ vertex ∈ kept.filterMap graph.getVertex, vertex ∈ graph.created := by
    intro vertex mem
    rcases List.mem_filterMap.mp mem with ⟨hash, inKept, found⟩
    rcases (orderMem hash).mp (survivors.sublist.subset inKept) with ⟨_, notRoot⟩
    rw [created, List.mem_filter, decide_eq_true_eq, getVertex_hash found]
    exact ⟨mem_of_getVertex found, notRoot⟩
  have sameHashes := @map_hash_filterMap_getVertex graph kept fun hash mem =>
    ((orderMem hash).mp (survivors.sublist.subset mem)).1
  have areDRP : (splitOperation (kept.filterMap graph.getVertex)).1 = kept.filterMap graph.getVertex := by
    rw [splitOperation, List.filter_filter, List.filter_eq_self]
    intro vertex mem
    rcases onlyCalls vertex (isCreated vertex mem) with ⟨operation, args, found, call⟩
    simp [Vertex.isDRP, Vertex.drpType, found, call.isDRP]
  rcases @exists_applyVertices callOther _ (fun vertex mem => onlyCalls vertex (isCreated vertex mem))
    (MapDRP.new (some .setWins)) key with ⟨final, applied, present⟩
  refine ⟨_, final, ?_, areDRP ▸ applied, ?_⟩
  · rw [linearizeVertices, pair]
    exact linearized
  · rw [Bool.eq_false_iff]
    intro has
    rcases present has with ⟨inNew, _⟩ | ⟨before, setter, after, split, sets, silent⟩
    · cases inNew
    · have setterMem := isCreated setter (by rw [split]; exact List.mem_append_right _ List.mem_cons_self)
      rcases deleted setter setterMem sets with ⟨deleter, deleterMem, deletes, precedes⟩
      rw [split, List.map_append, List.map_cons] at sameHashes
      rcases calls_behind_survivor wellFormed resolver onlyCalls untied orderMem
        (List.pairwise_cons.mp causalOrder.ordered).2 (sameHashes ▸ survivors) setterMem sets deleterMem
        deletes precedes with ⟨call, callMem, inAfter, calls⟩
      rcases List.mem_map.mp inAfter with ⟨other, otherMem, sameHash⟩
      have otherCreated := isCreated other
        (by rw [split]; exact List.mem_append_right _ (.tail _ otherMem))
      have same : other = call := by
        have otherFound := getVertex_of_mem wellFormed.nodup (List.mem_of_mem_filter otherCreated)
        rw [sameHash, getVertex_of_mem wellFormed.nodup (List.mem_of_mem_filter callMem)] at otherFound
        exact (Option.some.inj otherFound).symm
      subst same
      exact calls.elim (silent other otherMem).1 (silent other otherMem).2

namespace MapExample

open HashGraph MapDRP

def options : GraphOptions where
  semanticsTypeDRP := some .pair
  resolveConflictsACL := none
  resolveConflictsDRP := some (MapDRP.resolveConflicts BindingExample.exactFormat .setWins)

def vertex (hash : Hash) (opType : String) (args : List String) (dependencies : List Hash) : Vertex where
  hash := hash
  peerId := "p"
  operation := some { drpType := "DRP", opType, value := .array (args.map .string) }
  dependencies := dependencies
  timestamp := 0

def branches (value : String) : HashGraph := initial.addVertices
  [vertex "a" "set" ["k", "v"] [rootHash], vertex "b" "set" ["k", value] [rootHash],
    vertex "c" "delete" ["k"] ["a"], vertex "d" "delete" ["k"] ["b"]]

theorem branches_grown : (branches "v").Grown ∧ (branches "w").Grown :=
  ⟨initial_wellFormed.extends_addVertices (by decide +kernel),
    initial_wellFormed.extends_addVertices (by decide +kernel)⟩

theorem created_branches (value : String) : (branches value).created =
    [vertex "a" "set" ["k", "v"] [rootHash], vertex "b" "set" ["k", value] [rootHash],
      vertex "c" "delete" ["k"] ["a"], vertex "d" "delete" ["k"] ["b"]] := rfl

theorem branches_onlyCalls (value : String) : OnlyCalls (branches value) := by
  intro call mem
  rw [created_branches] at mem
  simp only [List.mem_cons, List.not_mem_nil, or_false] at mem
  rcases mem with rfl | rfl | rfl | rfl
  · exact ⟨_, _, rfl, rfl, Or.inl rfl, rfl⟩
  · exact ⟨_, _, rfl, rfl, Or.inl rfl, rfl⟩
  · exact ⟨_, _, rfl, rfl, Or.inr rfl, rfl⟩
  · exact ⟨_, _, rfl, rfl, Or.inr rfl, rfl⟩

theorem branches_deleted (value : String) : ∀ setter ∈ (branches value).created,
    Calls setter "set" (.string "k") → ∃ deleter ∈ (branches value).created,
      Calls deleter "delete" (.string "k") ∧ (branches value).Precedes setter.hash deleter.hash := by
  intro setter mem sets
  rw [created_branches] at mem ⊢
  simp only [List.mem_cons, List.not_mem_nil, or_false] at mem
  have notDelete : ∀ hash args dependencies,
      ¬Calls (vertex hash "delete" args dependencies) "set" (.string "k") := by
    rintro hash args dependencies ⟨operation, _, found, _, isSet, _⟩
    cases found
    exact absurd (show "delete" = "set" from isSet) (by decide)
  have dependencies : (branches value).dependenciesOf "c" = ["a"] ∧
      (branches value).dependenciesOf "d" = ["b"] := ⟨rfl, rfl⟩
  rcases mem with rfl | rfl | rfl | rfl
  · exact ⟨vertex "c" "delete" ["k"] ["a"], by simp,
      ⟨_, _, rfl, ⟨rfl, Or.inr rfl, rfl⟩, rfl, rfl⟩,
      .single (dependencies.1 ▸ List.mem_cons_self)⟩
  · exact ⟨vertex "d" "delete" ["k"] ["b"], by simp,
      ⟨_, _, rfl, ⟨rfl, Or.inr rfl, rfl⟩, rfl, rfl⟩,
      .single (dependencies.2 ▸ List.mem_cons_self)⟩
  · exact absurd sets (notDelete _ _ _)
  · exact absurd sets (notDelete _ _ _)

theorem branches_untied : Untied BindingExample.exactFormat (branches "w") (.string "k") := by
  have setter : ∀ call ∈ (branches "w").created, ∀ operation, call.operation = some operation →
      operation.opType = "set" →
      call.hash = "a" ∧ valueHash BindingExample.exactFormat operation = .ok "8e0e" ∨
        call.hash = "b" ∧ valueHash BindingExample.exactFormat operation = .ok "8e2d" := by
    intro call mem operation found isSet
    rw [created_branches] at mem
    simp only [List.mem_cons, List.not_mem_nil, or_false] at mem
    rcases mem with rfl | rfl | rfl | rfl <;> cases found
    · exact Or.inl ⟨rfl, by decide +kernel⟩
    · exact Or.inr ⟨rfl, by decide +kernel⟩
    · exact absurd isSet (by decide)
    · exact absurd isSet (by decide)
  intro left leftMem right rightMem concurrent leftOperation _ rightOperation _ leftIs rightIs _ _
    leftSets rightSets _
  rcases setter left leftMem leftOperation leftIs leftSets with
    ⟨leftHash, leftHashed⟩ | ⟨leftHash, leftHashed⟩
  · rcases setter right rightMem rightOperation rightIs rightSets with
      ⟨rightHash, rightHashed⟩ | ⟨rightHash, rightHashed⟩
    · exact absurd (leftHash.trans rightHash.symm) concurrent.1
    · exact ⟨_, _, leftHashed, rightHashed, fun _ => by decide⟩
  · rcases setter right rightMem rightOperation rightIs rightSets with
      ⟨rightHash, rightHashed⟩ | ⟨rightHash, rightHashed⟩
    · exact ⟨_, _, leftHashed, rightHashed, fun _ => by decide⟩
    · exact absurd (leftHash.trans rightHash.symm) concurrent.1

def noOther : MapDRP → String → List JsValue → Except JsError Unit :=
  fun _ method _ => .error (.typeError (method ++ " is not a function"))

end MapExample

open MapExample HashGraph in
theorem deleted_key_stays_deleted_branches :
    ∃ vertices final,
      linearizeVertices options (branches "w") 0 rootHash (branches "w").hashes = .ok vertices ∧
      applyVertices (MapDRP.call noOther) (MapDRP.new (some .setWins)) (splitOperation vertices).1 =
        .ok final ∧
      final.queryHas (.string "k") = false :=
  deleted_key_stays_deleted branches_grown.2 rfl rfl (branches_onlyCalls "w") branches_untied
    (branches_deleted "w") 0 noOther

open MapExample HashGraph in
/--
Two peers set a key to one value, and each deletes it.  The resolver is silent
about the two `set`s, and each of them costs the other's `delete` its place: both
survive, and the key is there.
-/
theorem equal_values_revive_deleted_key :
    (branches "v").Grown ∧ MapDRP.OnlyCalls (branches "v") ∧
    (∀ setter ∈ (branches "v").created, MapDRP.Calls setter "set" (.string "k") →
      ∃ deleter ∈ (branches "v").created, MapDRP.Calls deleter "delete" (.string "k") ∧
        (branches "v").Precedes setter.hash deleter.hash) ∧
    ∃ vertices final,
      linearizeVertices options (branches "v") 0 rootHash (branches "v").hashes = .ok vertices ∧
      applyVertices (MapDRP.call noOther) (MapDRP.new (some .setWins)) (splitOperation vertices).1 =
        .ok final ∧
      final.queryHas (.string "k") = true := by
  have replayed : (linearizeVertices options (branches "v") 0 rootHash (branches "v").hashes >>=
      fun vertices => applyVertices (MapDRP.call noOther) (MapDRP.new (some .setWins))
        (splitOperation vertices).1) = .ok ⟨.setWins, [(.string "k", .string "v")]⟩ := by
    decide +kernel
  rcases bind_eq_ok.mp replayed with ⟨vertices, linearized, applied⟩
  exact ⟨branches_grown.1, branches_onlyCalls "v", branches_deleted "v", vertices, _, linearized,
    applied, rfl⟩

end TsDrp
