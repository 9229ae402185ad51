import TsDrp.Acl.ObjectACL
import TsDrp.Finality.BitSet

/-!
# The finality store

For every vertex the store keeps who may attest it, which of them have, and the
sum of their signatures.  The signers of a vertex are those of the access control
list at that vertex, in the order of the texts of their ids.  An attestation received from
the network is checked against the keys of the signers it claims, and what does
not pass is logged and forgotten.
-/

namespace TsDrp

structure Bls (Key Signature : Type) where
  /-- A credential as a key: its base64 text decoded and read as a point. -/
  publicKey : JsValue → Except FinalityError Key
  verify : Key → Hash → Signature → Bool
  verifyAggregate : List Key → Hash → Signature → Bool
  aggregateSignatures : List Signature → Signature

structure Attestation (Signature : Type) where
  data : Hash
  signature : Signature

structure AggregatedAttestation (Signature : Type) where
  data : Hash
  aggregationBits : List (BitVec 8)
  signature : Signature

/-- The indices of the signers are their positions in the sorted list of ids. -/
structure FinalityState (Signature : Type) where
  data : Hash
  signerCredentials : List JsValue
  signerIndices : List JsValue
  aggregationBits : BitSet
  signature : Option Signature
  numberOfSignatures : ℕ

namespace FinalityState

variable {Key Signature : Type}

/-- The order of `sort`: by the UTF-16 code units of the texts, with `undefined` at the end. -/
def sortsBefore (left right : JsValue) : Bool :=
  right.isUndefined || !left.isUndefined && decide (utf16 left.text ≤ utf16 right.text)

def sorted (signers : List (JsValue × JsValue)) : List (JsValue × JsValue) :=
  signers.insertionSort fun left right => sortsBefore left.1 right.1

def sortedPeerIds (signers : List (JsValue × JsValue)) : List JsValue := (sorted signers).map (·.1)

/-- The keys in the order of the ids, without those that are `undefined`. -/
def credentials (signers : List (JsValue × JsValue)) : List JsValue :=
  ((sorted signers).map (·.2)).filter (!·.isUndefined)

/-- `new FinalityState(hash, signers)`, for signers that can be sorted. -/
def create (hash : Hash) (signers : List (JsValue × JsValue)) : FinalityState Signature where
  data := hash
  signerCredentials := credentials signers
  signerIndices := sortedPeerIds signers
  aggregationBits := .ofLength (sortedPeerIds signers).length
  signature := none
  numberOfSignatures := 0

/-- `signerIndices.get(peerId)` -/
def indexOf (state : FinalityState Signature) (peerId : String) : Option ℕ :=
  state.signerIndices.idxOf? (.string peerId)

def record (bls : Bls Key Signature) (state : FinalityState Signature) (index : ℕ)
    (signature : Signature) : FinalityState Signature :=
  { state with
    aggregationBits := state.aggregationBits.set index true
    signature := some (match state.signature with
      | none => signature
      | some held => bls.aggregateSignatures [held, signature])
    numberOfSignatures := state.numberOfSignatures + 1 }

def addSignature (bls : Bls Key Signature) (state : FinalityState Signature) (peerId : String)
    (signature : Signature) (verify : Bool) :
    Except FinalityError (FinalityState Signature) := do
  match state.indexOf peerId with
  | none => .error (.error "Peer not found in signer list")
  | some index =>
    let credential := state.signerCredentials[index]?.getD .undefined
    if !credential.truthy then .error (.error "Signer credentials not found")
    else if state.aggregationBits.get index then .ok state
    else if verify then
      let publicKey ← bls.publicKey credential
      if !bls.verify publicKey state.data signature then .error (.error "Invalid signature")
      else .ok (state.record bls index signature)
    else .ok (state.record bls index signature)

def select (credentials : List JsValue) (selected : ℕ → Bool) : List JsValue :=
  (credentials.zipIdx.filter fun entry => selected entry.2).map (·.1)

def adopt (state : FinalityState Signature) (aggregationBits : BitSet) (signature : Signature)
    (count : ℕ) : FinalityState Signature :=
  { state with aggregationBits, signature := some signature, numberOfSignatures := count }

/-- What to do with a verified aggregate of `remoteCount` signers. -/
def combine (bls : Bls Key Signature) (state : FinalityState Signature) (aggregationBits : BitSet)
    (signature : Signature) (remoteCount : ℕ) : FinalityState Signature :=
  match state.signature with
  | none => state.adopt aggregationBits signature remoteCount
  | some held =>
    let overlapCount := (List.range state.signerCredentials.length).countP fun index =>
      state.aggregationBits.get index && aggregationBits.get index
    if overlapCount = 0 then
      { state with
        aggregationBits := state.aggregationBits.or aggregationBits
        signature := some (bls.aggregateSignatures [held, signature])
        numberOfSignatures := state.numberOfSignatures + remoteCount }
    else if overlapCount = state.numberOfSignatures ∨
        (overlapCount < remoteCount ∧ state.numberOfSignatures < remoteCount) then
      state.adopt aggregationBits signature remoteCount
    else state

def merge (bls : Bls Key Signature) (state : FinalityState Signature)
    (attestation : AggregatedAttestation Signature) :
    Except FinalityError (FinalityState Signature) := do
  if state.data ≠ attestation.data then .error (.error "Hash mismatch")
  else
    let claimed ← BitSet.ofBytes state.signerCredentials.length attestation.aggregationBits
    let aggregationBits := claimed.clear state.signerCredentials.length
      (attestation.aggregationBits.length * 8)
    let publicKeys ← (select state.signerCredentials aggregationBits.get).mapM bls.publicKey
    if !bls.verifyAggregate publicKeys state.data attestation.signature then
      .error (.error "Invalid signature")
    else .ok (state.combine bls aggregationBits attestation.signature publicKeys.length)

end FinalityState

structure FinalityStore (Signature : Type) where
  states : Hash → Option (FinalityState Signature)

namespace FinalityStore

variable {Key Signature : Type}

def initializeState (store : FinalityStore Signature) (hash : Hash)
    (signers : List (JsValue × JsValue)) : FinalityStore Signature :=
  match store.states hash with
  | some _ => store
  | none => { states := Function.update store.states hash (some (.create hash signers)) }

theorem states_initializeState {store : FinalityStore Signature} {hash : Hash}
    (absent : store.states hash = none) (signers : List (JsValue × JsValue)) :
    (store.initializeState hash signers).states hash = some (.create hash signers) := by
  rw [initializeState, absent]
  exact Function.update_self ..

def signed (store : FinalityStore Signature) (peerId : String) (hash : Hash) : Option Bool :=
  (store.states hash).bind fun state => (state.indexOf peerId).map state.aggregationBits.get

/-- Change the state of a vertex, if there is one and the change raises no exception. -/
def attempt (store : FinalityStore Signature) (hash : Hash)
    (change : FinalityState Signature → Except FinalityError (FinalityState Signature)) :
    FinalityStore Signature × Bool :=
  match store.states hash with
  | none => (store, true)
  | some state =>
    match change state with
    | .ok next => ({ states := Function.update store.states hash (some next) }, true)
    | .error _ => (store, false)

/-- The store and the attestations that were added; those of unknown vertices count as added. -/
def addSignatures (bls : Bls Key Signature) (store : FinalityStore Signature) (peerId : String)
    (attestations : List (Attestation Signature)) (verify : Bool) :
    FinalityStore Signature × List (Attestation Signature) :=
  attestations.foldl
    (fun done attestation =>
      let attempted := done.1.attempt attestation.data fun state =>
        state.addSignature bls peerId attestation.signature verify
      (attempted.1, if attempted.2 then done.2 ++ [attestation] else done.2))
    (store, [])

/-- The store and the numbers of accepted and discarded attestations. -/
def mergeSignatures (bls : Bls Key Signature) (store : FinalityStore Signature)
    (attestations : List (AggregatedAttestation Signature)) : FinalityStore Signature × ℕ × ℕ :=
  attestations.foldl
    (fun done attestation =>
      let attempted := done.1.attempt attestation.data (·.merge bls attestation)
      if (done.1.states attestation.data).isSome && attempted.2 then
        (attempted.1, done.2.1 + 1, done.2.2)
      else (attempted.1, done.2.1, done.2.2 + 1))
    (store, 0, 0)

end FinalityStore

namespace FinalityState

variable {Key Signature : Type} {bls : Bls Key Signature} {state next : FinalityState Signature}

def SameSigners (state next : FinalityState Signature) : Prop :=
  next.data = state.data ∧ next.signerCredentials = state.signerCredentials ∧
    next.signerIndices = state.signerIndices

theorem addSignature_cases {peerId : String} {signature : Signature} {verify : Bool}
    (added : state.addSignature bls peerId signature verify = .ok next) :
    next = state ∨ ∃ index credential, state.indexOf peerId = some index ∧
      state.signerCredentials[index]? = some credential ∧
      state.aggregationBits.get index = false ∧
      (verify = true → ∃ publicKey, bls.publicKey credential = .ok publicKey ∧
        bls.verify publicKey state.data signature = true) ∧
      next = state.record bls index signature := by
  unfold addSignature at added
  cases found : state.indexOf peerId with
  | none =>
    rw [found] at added
    cases added
  | some index =>
    rw [found] at added
    dsimp only at added
    cases credentialFound : state.signerCredentials[index]? with
    | none =>
      rw [credentialFound] at added
      cases added
    | some credential =>
      rw [credentialFound, Option.getD_some] at added
      split at added
      · cases added
      · split at added
        · cases added
          exact Or.inl rfl
        · rename_i fresh
          refine Or.inr ⟨index, credential, rfl, credentialFound, Bool.eq_false_iff.mpr fresh, ?_⟩
          split at added
          · rcases Outcome.bind_eq_ok.mp added with ⟨publicKey, decoded, added⟩
            split at added
            · cases added
            · rename_i verified
              cases added
              exact ⟨fun _ => ⟨publicKey, decoded, by simpa using verified⟩, rfl⟩
          · rename_i unverified
            cases added
            exact ⟨fun verified => absurd verified unverified, rfl⟩

theorem merge_cases {attestation : AggregatedAttestation Signature}
    (merged : state.merge bls attestation = .ok next) :
    ∃ claimed publicKeys, state.data = attestation.data ∧
      BitSet.ofBytes state.signerCredentials.length attestation.aggregationBits = .ok claimed ∧
      (select state.signerCredentials (claimed.clear state.signerCredentials.length
        (attestation.aggregationBits.length * 8)).get).mapM bls.publicKey = .ok publicKeys ∧
      bls.verifyAggregate publicKeys state.data attestation.signature = true ∧
      next = state.combine bls (claimed.clear state.signerCredentials.length
        (attestation.aggregationBits.length * 8)) attestation.signature publicKeys.length := by
  unfold merge at merged
  split at merged
  · cases merged
  · rename_i sameData
    rcases Outcome.bind_eq_ok.mp merged with ⟨claimed, decoded, merged⟩
    rcases Outcome.bind_eq_ok.mp merged with ⟨publicKeys, keysDecoded, merged⟩
    split at merged
    · cases merged
    · rename_i verified
      cases merged
      exact ⟨claimed, publicKeys, not_not.mp sameData, decoded, keysDecoded, by simpa using verified,
        rfl⟩

theorem sameSigners_record (index : ℕ) (signature : Signature) :
    state.SameSigners (state.record bls index signature) := ⟨rfl, rfl, rfl⟩

theorem combine_cases (bls : Bls Key Signature) (state : FinalityState Signature)
    (aggregationBits : BitSet) (signature : Signature) (remoteCount : ℕ) :
    state.SameSigners (state.combine bls aggregationBits signature remoteCount) ∧
      ∀ index, (state.combine bls aggregationBits signature remoteCount).aggregationBits.get index =
          true →
        state.aggregationBits.get index = true ∨ aggregationBits.get index = true := by
  unfold combine
  split
  · exact ⟨⟨rfl, rfl, rfl⟩, fun _ read => Or.inr read⟩
  · dsimp only
    split
    · exact ⟨⟨rfl, rfl, rfl⟩, fun _ read => BitSet.get_of_get_or read⟩
    · split
      · exact ⟨⟨rfl, rfl, rfl⟩, fun _ read => Or.inr read⟩
      · exact ⟨⟨rfl, rfl, rfl⟩, fun _ read => Or.inl read⟩

end FinalityState

end TsDrp
