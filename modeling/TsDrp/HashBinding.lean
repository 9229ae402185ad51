import TsDrp.VertexHash

/-!
# What the hash of an accepted vertex binds

Two accepted vertices with one hash agree in everything but the operation's
value, and in the value as far as JSON tells values apart.
-/

namespace TsDrp

open HashGraph Json DRPVertexApplier

/-- Some replica of some object with this hash function accepts the vertex. -/
inductive Accepted (format : NumberFormat Double) (sha256 : String → Hash) (vertex : Vertex) :
    Prop where
  | localCall {Drp Acl : Type} (env : Environment Drp Acl)
      (hashes : env.computeHash = computeHash format sha256) (applier : DRPVertexApplier Drp Acl)
      (call : DRPProxyChainArgs)
      (added : (applier.callFn env call).2.1 = some vertex)
  | remote {Drp Acl : Type} (env : Environment Drp Acl)
      (hashes : env.computeHash = computeHash format sha256) (applier : DRPVertexApplier Drp Acl)
      (now : ℤ) (next : DRPVertexApplier Drp Acl)
      (returned : applier.applyVertexPipeline env now vertex vertex.isACL = .ok next)

section Accepted

variable {format : NumberFormat Double} {sha256 : String → Hash} {vertex : Vertex}

theorem Accepted.hashed (accepted : Accepted format sha256 vertex) :
    vertex.operation.isSome ∧ vertex.hash = computeHash format sha256 vertex.peerId vertex.operation
      vertex.dependencies vertex.timestamp := by
  cases accepted with
  | localCall env hashes applier call added =>
    rcases callFn_cases env applier call with
      ⟨outcome, run | run⟩ | ⟨state, _, _, run⟩
    · rw [run] at added
      cases added
    · rw [run] at added
      cases added
    · rw [run] at added
      cases added
      exact ⟨rfl, congrFun (congrFun (congrFun (congrFun hashes _) _) _) _⟩
  | remote env hashes applier now next returned =>
    rcases applyVertexPipeline_eq_ok returned with ⟨_, _, _, valid, _, run, _⟩
    rcases ObjectCode.exists_operation_of_stage run with ⟨operation, found⟩
    refine ⟨by rw [found]; rfl, ?_⟩
    rw [← hashes]
    exact hashed_of_validateVertex valid

theorem Accepted.eq_of_hash_eq {other : Vertex} (injective : Function.Injective sha256)
    (accepted : Accepted format sha256 vertex) (accepted' : Accepted format sha256 other)
    (same : vertex.hash = other.hash) :
    vertex.peerId = other.peerId ∧ vertex.dependencies = other.dependencies ∧
      vertex.timestamp = other.timestamp ∧ ∃ operation operation',
        vertex.operation = some operation ∧ other.operation = some operation' ∧
          operation.toJson = operation'.toJson := by
  rcases accepted.hashed with ⟨isSome, hashed⟩
  rcases accepted'.hashed with ⟨isSome', hashed'⟩
  rw [hashed, hashed'] at same
  rcases computeHash_inj injective same with ⟨samePeer, sameJson, sameDependencies, sameTime⟩
  rcases Option.isSome_iff_exists.mp isSome with ⟨operation, found⟩
  rcases Option.isSome_iff_exists.mp isSome' with ⟨operation', found'⟩
  rw [found, found'] at sameJson
  exact ⟨samePeer, sameDependencies, sameTime, operation, operation', found, found',
    Option.some.inj sameJson⟩

end Accepted

def JsValue.Kept (value : JsValue) : Prop := value = .undefined ∨ value.Clean

section Operation

variable {operation other : Operation}

theorem Operation.toJson_of_undefined (undefined : operation.value = .undefined) :
    operation.toJson = .object [("drpType", .string operation.drpType),
      ("opType", .string operation.opType)] := by
  simp [Operation.toJson, undefined, JsValue.toJsonFields, JsValue.isUndefined, JsValue.toJson]

theorem Operation.toJson_of_defined (defined : operation.value.isUndefined = false) :
    operation.toJson = .object [("drpType", .string operation.drpType),
      ("opType", .string operation.opType), ("value", operation.value.toJson)] := by
  have strings : ∀ text, (JsValue.string text).isUndefined = false := fun _ => rfl
  simp [Operation.toJson, defined, strings, JsValue.toJsonFields, JsValue.toJson]

theorem Operation.eq_of_toJson_eq (kept : operation.value.Kept) (kept' : other.value.Kept)
    (same : operation.toJson = other.toJson) : operation = other := by
  rcases operation with ⟨drpType, opType, value⟩
  rcases other with ⟨drpType', opType', value'⟩
  rcases kept with undefined | clean
  · rcases kept' with undefined' | clean'
    · rw [toJson_of_undefined undefined, toJson_of_undefined undefined'] at same
      simp only at undefined undefined'
      simp_all
    · rw [toJson_of_undefined undefined,
        toJson_of_defined (JsValue.isUndefined_eq_false_of_clean clean')] at same
      simp at same
  · rcases kept' with undefined' | clean'
    · rw [toJson_of_undefined undefined',
        toJson_of_defined (JsValue.isUndefined_eq_false_of_clean clean)] at same
      simp at same
    · rw [toJson_of_defined (JsValue.isUndefined_eq_false_of_clean clean),
        toJson_of_defined (JsValue.isUndefined_eq_false_of_clean clean')] at same
      simp only [Json.object.injEq, List.cons.injEq, Prod.mk.injEq, true_and, Json.string.injEq,
        and_true] at same
      rcases same with ⟨rfl, rfl, sameValue⟩
      exact congrArg _ (JsValue.eq_of_toJson_eq clean clean' sameValue)

end Operation

namespace BindingExample

variable (format : NumberFormat Double) (sha256 : String → Hash)

def environment : Environment Unit Unit where
  options := { semanticsTypeDRP := some .pair, resolveConflictsACL := none, resolveConflictsDRP := none }
  semantics := Option.some_ne_none _
  code := {
    callDRP := fun state _ _ _ => .ok (state, true)
    callACL := fun state _ _ _ => .ok (state, true)
    isWriter := fun _ _ => true
    finalitySigners := fun _ => [] }
  computeHash := computeHash format sha256
  fuel := 0

def sample (value : JsValue) : Vertex :=
  let operation : Operation := { drpType := "DRP", opType := "set", value }
  { hash := computeHash format sha256 "peer" (some operation) [rootHash] 0
    peerId := "peer"
    operation := some operation
    dependencies := [rootHash]
    timestamp := 0 }

theorem accepted_sample (value : JsValue) : Accepted format sha256 (sample format sha256 value) := by
  have staged : stageVertex (environment format sha256)
      (.create "replica" 256 ⟨(), ()⟩) 0 (sample format sha256 value) false = .ok (⟨(), ()⟩, true) := by
    refine Outcome.then_eq_ok.mpr ⟨validateVertex_eq_ok.mpr ⟨Or.inr rfl, by simp [sample], ?_, ?_⟩, rfl⟩
    · intro dependency mem
      cases List.mem_singleton.mp mem
      exact ⟨rootVertex, rfl, by simp [sample, rootVertex, futureToleranceMs]⟩
    · simp [sample, futureToleranceMs]
  refine .remote (environment format sha256) rfl (.create "replica" 256 ⟨(), ()⟩) 0
    (commit (.create "replica" 256 ⟨(), ()⟩) (sample format sha256 value) ⟨(), ()⟩) ?_
  have isDRP : (sample format sha256 value).isACL = false := rfl
  rw [applyVertexPipeline, isDRP, staged]
  exact finishVertex_eq_ok.mpr ⟨rfl, rfl⟩

end BindingExample

open BindingExample in
/--
The hash of accepted vertices whose operations carry plain data binds their
content, provided exactly that the values are ones JSON keeps.
-/
theorem hash_binds_content_iff {format : NumberFormat Double} {sha256 : String → Hash}
    (injective : Function.Injective sha256) {allowed : JsValue → Prop}
    (allows : ∀ value : JsValue, value.Kept → allowed value) :
    (∀ first second : Vertex, Accepted format sha256 first → Accepted format sha256 second →
      (∀ operation ∈ first.operation, allowed operation.value) →
      (∀ operation ∈ second.operation, allowed operation.value) → first.hash = second.hash →
        first.peerId = second.peerId ∧ first.timestamp = second.timestamp ∧
          first.dependencies = second.dependencies ∧ first.operation = second.operation) ↔
      ∀ value : JsValue, allowed value → value.Kept := by
  constructor
  · intro binds value isAllowed
    by_cases undefined : value.isUndefined
    · exact Or.inl (by cases value <;> first | rfl | cases undefined)
    · -- The clean value with the same JSON has the same hash.
      rw [Bool.not_eq_true] at undefined
      have clean := JsValue.clean_ofJson value.toJson
      have sameJson : (JsValue.ofJson value.toJson).toJson = value.toJson :=
        JsValue.toJson_ofJson value.toJson
      have sameHash : (sample format sha256 value).hash =
          (sample format sha256 (.ofJson value.toJson)).hash := by
        simp only [sample, computeHash, Option.map_some]
        rw [Operation.toJson_of_defined undefined,
          Operation.toJson_of_defined (JsValue.isUndefined_eq_false_of_clean clean), sameJson]
      have same := (binds _ _ (accepted_sample format sha256 value)
        (accepted_sample format sha256 (.ofJson value.toJson)) (by simpa [sample] using isAllowed)
        (by simpa [sample] using allows _ (Or.inr clean)) sameHash).2.2.2
      simp only [sample, Option.some.injEq, Operation.mk.injEq, true_and] at same
      rw [same]
      exact Or.inr clean
  · intro kept first second accepted accepted' firstAllowed secondAllowed sameHash
    rcases accepted.eq_of_hash_eq injective accepted' sameHash with
      ⟨samePeer, sameDependencies, sameTime, operation, operation', found, found', sameJson⟩
    refine ⟨samePeer, sameTime, sameDependencies, ?_⟩
    rw [found, found', Operation.eq_of_toJson_eq (kept _ (firstAllowed operation found))
      (kept _ (secondAllowed operation' found')) sameJson]

namespace BindingExample

theorem isDigit_of_mem_repr {value : ℕ} {char : Char} (mem : char ∈ value.repr.toList) :
    char.isDigit = true := by
  rw [Nat.repr_eq_ofList_toDigits, String.toList_ofList] at mem
  exact Nat.isDigit_of_mem_toDigits (by omega) (by omega) mem

theorem isDigit_or_minus_of_mem_repr {value : ℤ} {char : Char} (mem : char ∈ value.repr.toList) :
    char.isDigit = true ∨ char = '-' := by
  rw [Int.repr_eq_if] at mem
  split at mem
  · exact Or.inl (isDigit_of_mem_repr mem)
  · rw [String.toList_append] at mem
    rcases List.mem_append.mp mem with sign | digit
    · exact Or.inr (List.mem_singleton.mp sign)
    · exact Or.inl (isDigit_of_mem_repr digit)

/-- The exact value of a double as a numerator and a denominator. -/
def exactFormat : NumberFormat Double where
  text := fun double => double.value.num.repr.toList ++ 'e' :: double.value.den.repr.toList
  injective := by
    intro first second same
    have notSign : 'e' ∉ first.value.num.repr.toList := by
      intro mem
      rcases isDigit_or_minus_of_mem_repr mem with digit | minus
      · cases digit
      · cases minus
    have notDigit : 'e' ∉ first.value.den.repr.toList := by
      intro mem
      cases isDigit_of_mem_repr mem
    rcases (List.append_cons_inj_of_notMem notSign notDigit).mp same with ⟨sameNum, _, sameDen⟩
    have sameValue : first.value = second.value :=
      Rat.ext (Int.repr_injective (String.toList_injective sameNum))
        (Nat.repr_inj.mp (String.toList_injective sameDen))
    cases first
    cases second
    simp only at sameValue
    subst sameValue
    rfl
  nonempty := by simp
  chars := by
    intro double char mem
    unfold isNumberChar
    rcases List.mem_append.mp mem with numerator | rest
    · rcases isDigit_or_minus_of_mem_repr numerator with digit | rfl
      · simp [digit]
      · decide
    · rcases List.mem_cons.mp rest with rfl | denominator
      · decide
      · simp [isDigit_of_mem_repr denominator]

end BindingExample

open BindingExample in
theorem hash_binds_kept_content :
    (∀ first second : Vertex, Accepted exactFormat id first → Accepted exactFormat id second →
      (∀ operation ∈ first.operation, operation.value.Kept) →
      (∀ operation ∈ second.operation, operation.value.Kept) → first.hash = second.hash →
        first.peerId = second.peerId ∧ first.timestamp = second.timestamp ∧
          first.dependencies = second.dependencies ∧ first.operation = second.operation) ↔
      ∀ value : JsValue, value.Kept → value.Kept :=
  hash_binds_content_iff Function.injective_id fun _ kept => kept

open BindingExample in
/-- A list with `NaN` and a list with an infinity are accepted under one hash. -/
theorem nan_and_infinity_share_hash :
    Accepted exactFormat id (sample exactFormat id (.array [.number .nan])) ∧
    Accepted exactFormat id (sample exactFormat id (.array [.number (.infinity false)])) ∧
    (sample exactFormat id (.array [.number .nan])).hash =
      (sample exactFormat id (.array [.number (.infinity false)])).hash ∧
    (sample exactFormat id (.array [.number .nan])).operation ≠
      (sample exactFormat id (.array [.number (.infinity false)])).operation :=
  ⟨accepted_sample _ _ _, accepted_sample _ _ _, rfl, by simp [sample]⟩

end TsDrp
