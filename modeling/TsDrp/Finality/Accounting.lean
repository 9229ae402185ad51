import TsDrp.Finality.Store

/-!
# Counting signatures

The count of a finality state is kept beside its bits: a new signature sets one bit
and adds one, and an attestation is adopted, added, or left aside, each with its own
arithmetic.  Here the two methods are written as the statements that change the
object in place, so that an exception finds the object as the statements before it
have left it.  Over any sequence of calls the count is the number of set bits, and
it never decreases.
-/

namespace TsDrp

open BitSet

section Counting

variable {Entry : Type} {first second : Entry → Bool}

theorem countP_or_of_disjoint {entries : List Entry}
    (disjoint : ∀ entry ∈ entries, ¬ (first entry = true ∧ second entry = true)) :
    entries.countP (fun entry => first entry || second entry) =
      entries.countP first + entries.countP second := by
  induction entries with
  | nil => rfl
  | cons head rest ih =>
    have apart := disjoint head List.mem_cons_self
    have counted := ih fun entry member => disjoint entry (List.mem_cons_of_mem head member)
    simp only [List.countP_cons, counted]
    cases isFirst : first head <;> cases isSecond : second head
    · simp
    · simp
      omega
    · simp
      omega
    · exact absurd ⟨isFirst, isSecond⟩ apart

end Counting

namespace BitSet

def count (bitSet : BitSet) : ℕ := (List.range (bitSet.data.length * 32)).countP bitSet.get

def countBelow (bitSet : BitSet) (bound : ℕ) : ℕ := (List.range bound).countP bitSet.get

theorem le_wordCount (bits : ℕ) : bits ≤ wordCount bits * 32 := by
  unfold wordCount
  omega

theorem countBelow_of_le {bitSet : BitSet} {bound wider : ℕ} (le : bound ≤ wider)
    (clear : ∀ index, bound ≤ index → bitSet.get index = false) :
    bitSet.countBelow wider = bitSet.countBelow bound := by
  rcases Nat.exists_eq_add_of_le le with ⟨rest, rfl⟩
  have none : (List.map (fun index => bound + index) (List.range rest)).countP bitSet.get = 0 := by
    apply List.countP_eq_zero.mpr
    intro index member
    rcases List.mem_map.mp member with ⟨offset, _, rfl⟩
    rw [clear _ (Nat.le_add_right bound offset)]
    exact Bool.false_ne_true
  rw [countBelow, List.range_add, List.countP_append, none, Nat.add_zero, countBelow]

theorem countBelow_ofLength (bits bound : ℕ) : (ofLength bits).countBelow bound = 0 := by
  apply List.countP_eq_zero.mpr
  intro index _
  simp

theorem countBelow_set {bitSet : BitSet} {index bound : ℕ} (clear : bitSet.get index = false)
    (small : index < bound) (inside : index / 32 < bitSet.data.length) :
    (bitSet.set index true).countBelow bound = bitSet.countBelow bound + 1 := by
  have split : (bitSet.set index true).countBelow bound =
      (List.range bound).countP fun other => bitSet.get other || other == index := by
    apply List.countP_congr
    intro other _
    rw [get_set]
    by_cases same : other = index
    · rw [if_pos ⟨same, inside⟩]
      simp [same]
    · rw [if_neg fun both => same both.1]
      simp [same]
  have apart : ∀ other ∈ List.range bound, ¬ (bitSet.get other = true ∧ (other == index) = true) := by
    rintro other _ ⟨isSet, same⟩
    rw [eq_of_beq same, clear] at isSet
    cases isSet
  have one : (List.range bound).countP (· == index) = 1 :=
    List.count_eq_one_of_mem List.nodup_range (List.mem_range.mpr small)
  rw [split, countP_or_of_disjoint apart, one, countBelow]

theorem get_or {bitSet other : BitSet} {index : ℕ} (inside : index / 32 < bitSet.data.length) :
    (bitSet.or other).get index = (bitSet.get index || other.get index) := by
  rw [get_eq, get_eq, get_eq, or, List.getD_eq_getElem?_getD, List.getElem?_mapIdx,
    List.getD_eq_getElem?_getD, List.getElem?_eq_getElem inside]
  simp [inside]

theorem length_or (bitSet other : BitSet) : (bitSet.or other).data.length = bitSet.data.length :=
  List.length_mapIdx

theorem countBelow_or {bitSet other : BitSet} {bound : ℕ}
    (apart : (List.range bound).countP (fun index => bitSet.get index && other.get index) = 0)
    (inside : bound ≤ bitSet.data.length * 32) :
    (bitSet.or other).countBelow bound = bitSet.countBelow bound + other.countBelow bound := by
  have union : (bitSet.or other).countBelow bound =
      (List.range bound).countP fun index => bitSet.get index || other.get index := by
    apply List.countP_congr
    intro index member
    have small := List.mem_range.mp member
    rw [get_or (by omega)]
  have disjoint : ∀ index ∈ List.range bound,
      ¬ (bitSet.get index = true ∧ other.get index = true) := by
    intro index member both
    apply List.countP_eq_zero.mp apart index member
    rw [both.1, both.2]
    rfl
  rw [union, countP_or_of_disjoint disjoint, countBelow, countBelow]

end BitSet

namespace FinalityState

variable {Key Signature : Type}

abbrev Method (Signature Value : Type) := EStateM FinalityError (FinalityState Signature) Value

namespace Method

/-- A function of a library that may throw; it does not touch the object. -/
def call {Value : Type} (result : Except FinalityError Value) : Method Signature Value :=
  match result with
  | .ok value => pure value
  | .error error => throw error

@[simp]
theorem run_call_ok {Value : Type} (value : Value) (state : FinalityState Signature) :
    (call (.ok value) : Method Signature Value).run state = .ok value state := rfl

@[simp]
theorem run_call_error {Value : Type} (error : FinalityError) (state : FinalityState Signature) :
    (call (.error error) : Method Signature Value).run state = .error error state := rfl

variable (bls : Bls Key Signature)

/-- The statements of `addSignature`. -/
def addSignature (peerId : String) (signature : Signature)
    (verify : Bool) : Method Signature Unit := do
  let this ← get
  match this.indexOf peerId with
  | none => throw (.error "Peer not found in signer list")
  | some index =>
    let credential := this.signerCredentials[index]?.getD .undefined
    if !credential.truthy then throw (.error "Signer credentials not found")
    if this.aggregationBits.get index then return
    if verify then
      let publicKey ← call (bls.publicKey credential)
      if !bls.verify publicKey this.data signature then throw (.error "Invalid signature")
    modify fun this => { this with aggregationBits := this.aggregationBits.set index true }
    modify fun this => { this with
      signature := some (match this.signature with
        | none => signature
        | some held => bls.aggregateSignatures [held, signature]) }
    modify fun this => { this with numberOfSignatures := this.numberOfSignatures + 1 }

def adopt (aggregationBits : BitSet) (signature : Signature) (remoteCount : ℕ) :
    Method Signature Unit := do
  modify fun this => { this with aggregationBits }
  modify fun this => { this with signature := some signature }
  modify fun this => { this with numberOfSignatures := remoteCount }

/-- The statements of `merge` after the verification. -/
def combine (aggregationBits : BitSet) (signature : Signature)
    (remoteCount : ℕ) : Method Signature Unit := do
  let this ← get
  match this.signature with
  | none => adopt aggregationBits signature remoteCount
  | some held =>
    let overlapCount := (List.range this.signerCredentials.length).countP fun index =>
      this.aggregationBits.get index && aggregationBits.get index
    if overlapCount = 0 then
      modify fun this => { this with aggregationBits := this.aggregationBits.or aggregationBits }
      modify fun this => { this with
        signature := some (bls.aggregateSignatures [held, signature]) }
      modify fun this => { this with numberOfSignatures := this.numberOfSignatures + remoteCount }
      return
    if overlapCount = this.numberOfSignatures ∨
        (overlapCount < remoteCount ∧ this.numberOfSignatures < remoteCount) then
      adopt aggregationBits signature remoteCount

/-- The statements of `merge`. -/
def merge (attestation : AggregatedAttestation Signature) :
    Method Signature Unit := do
  let this ← get
  if this.data ≠ attestation.data then throw (.error "Hash mismatch")
  let claimed ← call (ofBytes this.signerCredentials.length attestation.aggregationBits)
  let aggregationBits := claimed.clear this.signerCredentials.length
    (attestation.aggregationBits.length * 8)
  let publicKeys ← call ((select this.signerCredentials aggregationBits.get).mapM bls.publicKey)
  if !bls.verifyAggregate publicKeys this.data attestation.signature then
    throw (.error "Invalid signature")
  combine bls aggregationBits attestation.signature publicKeys.length

/-- A method that throws before it changes anything or returns with its changes made. -/
def ofChange (change : FinalityState Signature → Except FinalityError (FinalityState Signature)) :
    Method Signature Unit := fun state =>
  match change state with
  | .ok next => .ok () next
  | .error error => .error error state

theorem addSignature_eq (peerId : String) (signature : Signature)
    (verify : Bool) :
    addSignature bls peerId signature verify =
      ofChange fun state => state.addSignature bls peerId signature verify := by
  funext state
  change (addSignature bls peerId signature verify).run state = _
  unfold addSignature ofChange FinalityState.addSignature
  cases found : state.indexOf peerId with
  | none => simp [found]
  | some index =>
    by_cases present : (state.signerCredentials[index]?.getD .undefined).truthy = true
    · by_cases already : state.aggregationBits.get index = true
      · simp [found, present, already]
      · cases verify with
        | false => cases held : state.signature <;> simp [found, present, already, record, held]
        | true =>
          cases decoded : bls.publicKey (state.signerCredentials[index]?.getD .undefined) with
          | error error => simp [found, present, already, decoded]
          | ok publicKey =>
            by_cases verified : bls.verify publicKey state.data signature = true
            · cases held : state.signature <;>
                simp [found, present, already, decoded, verified, record, held]
            · simp [found, present, already, decoded, verified]
    · simp [found, present]

theorem run_combine (state : FinalityState Signature)
    (aggregationBits : BitSet) (signature : Signature) (remoteCount : ℕ) :
    (combine bls aggregationBits signature remoteCount).run state =
      .ok () (state.combine bls aggregationBits signature remoteCount) := by
  unfold combine FinalityState.combine
  cases held : state.signature with
  | none => simp [held, adopt, FinalityState.adopt]
  | some aggregate =>
    by_cases apart : (List.range state.signerCredentials.length).countP (fun index =>
        state.aggregationBits.get index && aggregationBits.get index) = 0
    · simp only [EStateM.run_bind, EStateM.run_get, held]
      rw [if_pos apart, if_pos apart]
      rfl
    · simp only [EStateM.run_bind, EStateM.run_get, held]
      rw [if_neg apart, if_neg apart]
      split
      · rfl
      · rfl

theorem merge_eq (attestation : AggregatedAttestation Signature) :
    merge bls attestation = ofChange fun state => state.merge bls attestation := by
  funext state
  change (merge bls attestation).run state = _
  unfold merge ofChange FinalityState.merge
  by_cases sameData : state.data = attestation.data
  · cases decoded : ofBytes state.signerCredentials.length attestation.aggregationBits with
    | error error => simp [sameData, decoded]
    | ok claimed =>
      cases keysDecoded : (select state.signerCredentials (claimed.clear
          state.signerCredentials.length (attestation.aggregationBits.length * 8)).get).mapM
            bls.publicKey with
      | error error => simp [sameData, decoded, keysDecoded]
      | ok publicKeys =>
        by_cases verified :
            bls.verifyAggregate publicKeys attestation.data attestation.signature = true
        · simp [sameData, decoded, keysDecoded, verified, run_combine]
        · simp [sameData, decoded, keysDecoded, verified]
  · simp [sameData]

end Method

variable (bls : Bls Key Signature)

inductive Call (Signature : Type) where
  | addSignature (peerId : String) (signature : Signature) (verify : Bool)
  | merge (attestation : AggregatedAttestation Signature)

def Call.perform : Call Signature → Method Signature Unit
  | .addSignature peerId signature verify => Method.addSignature bls peerId signature verify
  | .merge attestation => Method.merge bls attestation

def afterCall (state : FinalityState Signature) (call : Call Signature) :
    FinalityState Signature :=
  match (call.perform bls).run state with
  | .ok _ next => next
  | .error _ next => next

def afterCalls (state : FinalityState Signature)
    (calls : List (Call Signature)) : FinalityState Signature :=
  calls.foldl (afterCall bls) state

def Call.change (call : Call Signature) (state : FinalityState Signature) :
    Except FinalityError (FinalityState Signature) :=
  match call with
  | .addSignature peerId signature verify => state.addSignature bls peerId signature verify
  | .merge attestation => state.merge bls attestation

theorem Call.perform_eq (call : Call Signature) :
    call.perform bls = Method.ofChange (call.change bls) := by
  cases call with
  | addSignature peerId signature verify => exact Method.addSignature_eq bls peerId signature verify
  | merge attestation => exact Method.merge_eq bls attestation

variable {bls} in
theorem Call.perform_error {call : Call Signature}
    {state next : FinalityState Signature} {error : FinalityError}
    (thrown : (call.perform bls).run state = .error error next) : next = state := by
  rw [call.perform_eq] at thrown
  change Method.ofChange (call.change bls) state = .error error next at thrown
  unfold Method.ofChange at thrown
  split at thrown
  · cases thrown
  · cases thrown
    rfl

theorem afterCall_cases (state : FinalityState Signature)
    (call : Call Signature) :
    state.afterCall bls call = state ∨ call.change bls state = .ok (state.afterCall bls call) := by
  unfold afterCall
  rw [call.perform_eq]
  change (match Method.ofChange (call.change bls) state with
    | .ok _ next => next
    | .error _ next => next) = state ∨ call.change bls state = .ok (
      match Method.ofChange (call.change bls) state with
      | .ok _ next => next
      | .error _ next => next)
  unfold Method.ofChange
  cases call.change bls state with
  | ok next => exact Or.inr rfl
  | error error => exact Or.inl rfl

structure Accounted (state : FinalityState Signature) : Prop where
  fits : state.signerCredentials.length ≤ state.aggregationBits.data.length * 32
  clear : ∀ index, state.signerCredentials.length ≤ index → state.aggregationBits.get index = false
  counted : state.numberOfSignatures =
    state.aggregationBits.countBelow state.signerCredentials.length
  unsigned : state.signature = none → state.numberOfSignatures = 0

namespace Accounted

variable {bls} {state : FinalityState Signature}

theorem length_credentials_le (signers : List (JsValue × JsValue)) :
    (credentials signers).length ≤ (sortedPeerIds signers).length := by
  have filtered := List.length_filter_le (!·.isUndefined) ((sorted signers).map (·.2))
  rw [sortedPeerIds, List.length_map]
  rwa [List.length_map] at filtered

theorem create (hash : Hash) (signers : List (JsValue × JsValue)) :
    (FinalityState.create hash signers : FinalityState Signature).Accounted where
  fits := by
    have fewer := length_credentials_le signers
    have enough := le_wordCount (sortedPeerIds signers).length
    change (credentials signers).length ≤
      (List.replicate (wordCount (sortedPeerIds signers).length) 0).length * 32
    rw [List.length_replicate]
    omega
  clear := fun _ _ => get_ofLength ..
  counted := (countBelow_ofLength ..).symm
  unsigned := fun _ => rfl

theorem record (accounted : state.Accounted) {index : ℕ} (signature : Signature)
    (listed : index < state.signerCredentials.length)
    (fresh : state.aggregationBits.get index = false) :
    (state.record bls index signature).Accounted where
  fits := by
    change _ ≤ (state.aggregationBits.set index true).data.length * 32
    rw [length_set]
    exact accounted.fits
  clear := by
    intro other beyond
    change (state.aggregationBits.set index true).get other = false
    have beyond : state.signerCredentials.length ≤ other := beyond
    rw [get_set, if_neg (by rintro ⟨rfl, _⟩; omega)]
    exact accounted.clear other beyond
  counted := by
    have inside : index / 32 < state.aggregationBits.data.length := by
      have fits := accounted.fits
      omega
    have added := countBelow_set fresh listed inside
    change state.numberOfSignatures + 1 =
      (state.aggregationBits.set index true).countBelow state.signerCredentials.length
    rw [added, accounted.counted]
  unsigned := fun none => nomatch none

theorem adopt (state : FinalityState Signature) {aggregationBits : BitSet} (signature : Signature)
    (fits : state.signerCredentials.length ≤ aggregationBits.data.length * 32)
    (clear : ∀ index, state.signerCredentials.length ≤ index → aggregationBits.get index = false) :
    (state.adopt aggregationBits signature
      (aggregationBits.countBelow state.signerCredentials.length)).Accounted where
  fits := fits
  clear := clear
  counted := rfl
  unsigned := fun none => nomatch none

theorem combine (accounted : state.Accounted) {aggregationBits : BitSet} (signature : Signature)
    (fits : state.signerCredentials.length ≤ aggregationBits.data.length * 32)
    (clear : ∀ index, state.signerCredentials.length ≤ index → aggregationBits.get index = false) :
    (state.combine bls aggregationBits signature
      (aggregationBits.countBelow state.signerCredentials.length)).Accounted := by
  unfold FinalityState.combine
  split
  · exact adopt state signature fits clear
  · rename_i held
    dsimp only
    split
    · rename_i apart
      refine ⟨?_, ?_, ?_, fun none => nomatch none⟩
      · change _ ≤ (state.aggregationBits.or aggregationBits).data.length * 32
        rw [length_or]
        exact accounted.fits
      · intro index beyond
        have beyond : state.signerCredentials.length ≤ index := beyond
        change (state.aggregationBits.or aggregationBits).get index = false
        apply Bool.eq_false_iff.mpr
        intro read
        rcases get_of_get_or read with own | theirs
        · rw [accounted.clear index beyond] at own
          cases own
        · rw [clear index beyond] at theirs
          cases theirs
      · change state.numberOfSignatures + _ =
          (state.aggregationBits.or aggregationBits).countBelow state.signerCredentials.length
        rw [countBelow_or apart accounted.fits, accounted.counted]
    · split
      · exact adopt state signature fits clear
      · exact accounted

end Accounted

section Calls

variable {bls} {state next : FinalityState Signature}

theorem length_select (credentials : List JsValue) (bits : BitSet) :
    (select credentials bits.get).length = bits.countBelow credentials.length := by
  rw [select, List.length_map, ← List.countP_eq_length_filter, countBelow,
    List.range_eq_range', ← List.zipIdx_map_snd 0 credentials, List.countP_map]
  rfl

theorem merge_effect {attestation : AggregatedAttestation Signature}
    (merged : state.merge bls attestation = .ok next) :
    ∃ aggregationBits : BitSet,
      state.signerCredentials.length ≤ aggregationBits.data.length * 32 ∧
      (∀ index, state.signerCredentials.length ≤ index → aggregationBits.get index = false) ∧
      next = state.combine bls aggregationBits attestation.signature
        (aggregationBits.countBelow state.signerCredentials.length) := by
  rcases merge_cases merged with ⟨claimed, publicKeys, _, decoded, keysDecoded, _, rfl⟩
  rcases length_of_ofBytes decoded with ⟨byteLength, wordLength⟩
  refine ⟨claimed.clear state.signerCredentials.length (attestation.aggregationBits.length * 8),
    ?_, ?_, ?_⟩
  · rw [length_clear, wordLength]
    exact le_wordCount _
  · intro index beyond
    rw [get_clear (by omega)]
    simp [Nat.not_lt.mpr beyond]
  · rw [Outcome.length_of_mapM_eq_ok keysDecoded, length_select]

theorem Accounted.le_combine (accounted : state.Accounted) (aggregationBits : BitSet)
    (signature : Signature) :
    state.numberOfSignatures ≤ (state.combine bls aggregationBits signature
      (aggregationBits.countBelow state.signerCredentials.length)).numberOfSignatures := by
  unfold FinalityState.combine
  split
  · rename_i unsigned
    rw [accounted.unsigned unsigned]
    exact Nat.zero_le _
  · dsimp only
    split
    · exact Nat.le_add_right _ _
    · split
      · rename_i better
        have shared : (List.range state.signerCredentials.length).countP (fun index =>
            state.aggregationBits.get index && aggregationBits.get index) ≤
            aggregationBits.countBelow state.signerCredentials.length := by
          apply List.countP_mono_left
          intro index _ both
          exact (Bool.and_eq_true _ _ ▸ both).2
        change state.numberOfSignatures ≤ aggregationBits.countBelow state.signerCredentials.length
        rcases better with covers | ⟨_, more⟩
        · rw [← covers]
          exact shared
        · exact Nat.le_of_lt more
      · exact Nat.le_refl _

theorem Accounted.change (accounted : state.Accounted) {call : Call Signature}
    (changed : call.change bls state = .ok next) :
    next.Accounted ∧ state.SameSigners next ∧
      state.numberOfSignatures ≤ next.numberOfSignatures := by
  cases call with
  | addSignature peerId signature verify =>
    rcases addSignature_cases changed with rfl | ⟨index, credential, _, found, fresh, _, rfl⟩
    · exact ⟨accounted, ⟨rfl, rfl, rfl⟩, Nat.le_refl _⟩
    · have listed := (List.getElem?_eq_some_iff.mp found).1
      exact ⟨accounted.record signature listed fresh, sameSigners_record index signature,
        Nat.le_succ _⟩
  | merge attestation =>
    rcases merge_effect changed with ⟨aggregationBits, fits, clear, rfl⟩
    exact ⟨accounted.combine _ fits clear, (combine_cases ..).1,
      accounted.le_combine aggregationBits _⟩

variable (bls)

theorem Accounted.afterCall (accounted : state.Accounted)
    (call : Call Signature) :
    (state.afterCall bls call).Accounted ∧ state.SameSigners (state.afterCall bls call) ∧
      state.numberOfSignatures ≤ (state.afterCall bls call).numberOfSignatures := by
  rcases afterCall_cases bls state call with same | changed
  · rw [same]
    exact ⟨accounted, ⟨rfl, rfl, rfl⟩, Nat.le_refl _⟩
  · exact accounted.change changed

theorem Accounted.afterCalls (accounted : state.Accounted)
    (calls : List (Call Signature)) :
    (state.afterCalls bls calls).Accounted ∧ state.SameSigners (state.afterCalls bls calls) ∧
      state.numberOfSignatures ≤ (state.afterCalls bls calls).numberOfSignatures := by
  induction calls generalizing state with
  | nil => exact ⟨accounted, ⟨rfl, rfl, rfl⟩, Nat.le_refl _⟩
  | cons call rest ih =>
    rcases accounted.afterCall bls call with ⟨kept, ⟨sameData, sameCredentials, sameIndices⟩, grows⟩
    rcases ih kept with ⟨after, ⟨sameData', sameCredentials', sameIndices'⟩, grows'⟩
    exact ⟨after, ⟨sameData'.trans sameData, sameCredentials'.trans sameCredentials,
      sameIndices'.trans sameIndices⟩, grows.trans grows'⟩

theorem Accounted.count_eq (accounted : state.Accounted) :
    state.numberOfSignatures = state.aggregationBits.count := by
  rw [accounted.counted]
  exact (countBelow_of_le accounted.fits accounted.clear).symm

end Calls

end FinalityState

namespace FinalityStore

variable {Signature : Type}

/-- `Math.ceil(signerCredentials.length * finalityThreshold)`, of the number of credentials. -/
def getQuorum (store : FinalityStore Signature) (quorumOf : ℕ → JsNumber) (hash : Hash) :
    Option JsNumber :=
  (store.states hash).map fun state => quorumOf state.signerCredentials.length

def getNumberOfSignatures (store : FinalityStore Signature) (hash : Hash) : Option ℕ :=
  (store.states hash).map (·.numberOfSignatures)

/-- `count >= quorum` -/
def reaches (count : ℕ) : JsNumber → Bool
  | .nan => false
  | .infinity negative => negative
  | .negativeZero => true
  | .finite quorum => quorum.value ≤ count

def isFinalized (store : FinalityStore Signature) (quorumOf : ℕ → JsNumber) (hash : Hash) :
    Option Bool :=
  match store.getNumberOfSignatures hash, store.getQuorum quorumOf hash with
  | some numberOfSignatures, some quorum => some (reaches numberOfSignatures quorum)
  | _, _ => none

theorem reaches_mono {few many : ℕ} (le : few ≤ many) {quorum : JsNumber}
    (reached : reaches few quorum = true) : reaches many quorum = true := by
  cases quorum with
  | finite quorum =>
    have below : quorum.value ≤ (few : ℚ) := of_decide_eq_true reached
    have wider : (few : ℚ) ≤ (many : ℚ) := by exact_mod_cast le
    exact decide_eq_true (below.trans wider)
  | _ => exact reached

theorem isFinalized_eq {store : FinalityStore Signature} {hash : Hash}
    {state : FinalityState Signature} (held : store.states hash = some state)
    (quorumOf : ℕ → JsNumber) :
    store.isFinalized quorumOf hash =
      some (reaches state.numberOfSignatures (quorumOf state.signerCredentials.length)) := by
  rw [isFinalized, getNumberOfSignatures, getQuorum, held]
  rfl

end FinalityStore

namespace FinalityState

variable {Key Signature : Type}

/--
After every sequence of calls the count is the number of set bits, no bit is set
beyond the signers, a call that throws changes nothing, no further calls lower the
count or take finality back, and the bits are read back from their bytes.
-/
theorem accounting_exact (bls : Bls Key Signature) (quorumOf : ℕ → JsNumber) (hash : Hash)
    (signers : List (JsValue × JsValue)) (calls : List (Call Signature)) :
    let state := (create hash signers).afterCalls bls calls
    state.numberOfSignatures = state.aggregationBits.count ∧
    (∀ index, signers.length ≤ index → state.aggregationBits.get index = false) ∧
    (∀ (call : Call Signature) (error : FinalityError) (next : FinalityState Signature),
      (call.perform bls).run state = .error error next → next = state) ∧
    (∀ further : List (Call Signature),
      state.numberOfSignatures ≤ (state.afterCalls bls further).numberOfSignatures ∧
      ∀ before after : FinalityStore Signature, before.states hash = some state →
        after.states hash = some (state.afterCalls bls further) →
        before.isFinalized quorumOf hash = some true →
        after.isFinalized quorumOf hash = some true) ∧
    ∀ bits, wordCount bits = state.aggregationBits.data.length →
      ofBytes bits state.aggregationBits.toBytes = .ok state.aggregationBits := by
  intro state
  have fresh : (create hash signers : FinalityState Signature).Accounted := .create hash signers
  rcases fresh.afterCalls bls calls with ⟨accounted, ⟨_, sameCredentials, _⟩, _⟩
  change state.Accounted at accounted
  change state.signerCredentials = credentials signers at sameCredentials
  have fewer : state.signerCredentials.length ≤ signers.length := by
    have listed := Accounted.length_credentials_le signers
    have sorted : (sortedPeerIds signers).length = signers.length := by
      rw [sortedPeerIds, List.length_map, sorted, List.length_insertionSort]
    rw [sameCredentials, ← sorted]
    exact listed
  refine ⟨accounted.count_eq, ?_, ?_, ?_, ?_⟩
  · intro index beyond
    exact accounted.clear index (fewer.trans beyond)
  · intro call error next thrown
    exact Call.perform_error thrown
  · intro further
    rcases accounted.afterCalls bls further with ⟨_, ⟨_, credentialsKept, _⟩, grows⟩
    refine ⟨grows, fun before after heldBefore heldAfter finalized => ?_⟩
    rw [FinalityStore.isFinalized_eq heldBefore, Option.some.injEq] at finalized
    rw [FinalityStore.isFinalized_eq heldAfter, credentialsKept,
      FinalityStore.reaches_mono grows finalized]
  · intro bits sameSize
    exact ofBytes_toBytes sameSize.symm

end FinalityState

end TsDrp
