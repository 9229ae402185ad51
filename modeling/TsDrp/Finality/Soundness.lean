import TsDrp.Finality.Store
import TsDrp.Library.LinearSignatures

/-!
# Attestations and the keys behind them

Signers register their keys themselves.  An aggregate is checked against the sum
of the keys of the signers it claims, so a key that contains the negative of
another signer's makes the sum one that the adversary can sign for alone.  A flag
of an honest signer proves that it has signed exactly if no set of listed keys
that contains the signer's own cancels the signer's secret.
-/

namespace TsDrp

open LinearSignatures BitSet

variable {Scalar Party : Type} [CommRing Scalar] [DecidableEq Party]

section Invariant

variable {publicKey : JsValue → Except FinalityError (Key Scalar Party)} {peerOf : Party → String}

open Classical in
variable (publicKey) in
/-- The library over a group whose logarithms are formal. -/
noncomputable def groupBls : Bls (Key Scalar Party) (Signature Scalar Party Hash) where
  publicKey := publicKey
  verify := fun key message signature => decide (signature = sign key message)
  verifyAggregate := fun keys message signature => decide (signature = sign keys.sum message)
  aggregateSignatures := List.sum

omit [DecidableEq Party] in
theorem verify_groupBls {key : Key Scalar Party} {message : Hash}
    {signature : Signature Scalar Party Hash} :
    (groupBls publicKey).verify key message signature = true ↔ signature = sign key message := by
  simp [groupBls]

omit [DecidableEq Party] in
theorem verifyAggregate_groupBls {keys : List (Key Scalar Party)} {message : Hash}
    {signature : Signature Scalar Party Hash} :
    (groupBls publicKey).verifyAggregate keys message signature = true ↔
      signature = sign keys.sum message := by
  simp [groupBls]

structure FinalityWorld (Scalar Party : Type) where
  store : FinalityStore (Signature Scalar Party Hash)
  signed : Hash → Party → Prop

namespace FinalityWorld

def initial : FinalityWorld Scalar Party where
  store := { states := fun _ => none }
  signed := fun _ _ => False

variable (publicKey) (allowed : Hash → List (JsValue × JsValue) → Prop)

/--
An honest party signs, a vertex comes with its signers, or attestations arrive;
whoever sends them can compute the signatures.
-/
inductive Step : FinalityWorld Scalar Party → FinalityWorld Scalar Party → Prop where
  | sign (world : FinalityWorld Scalar Party) (hash : Hash) (party : Party) :
      Step world { world with
        signed := fun other signer => world.signed other signer ∨ other = hash ∧ signer = party }
  | created (world : FinalityWorld Scalar Party) {hash : Hash} {signers : List (JsValue × JsValue)}
      (isAllowed : allowed hash signers) :
      Step world { world with store := world.store.initializeState hash signers }
  | addSignatures (world : FinalityWorld Scalar Party) (peerId : String)
      {attestations : List (Attestation (Signature Scalar Party Hash))}
      (computable : ∀ attestation ∈ attestations, Computable world.signed attestation.signature) :
      Step world { world with
        store := (world.store.addSignatures (groupBls publicKey) peerId attestations true).1 }
  | mergeSignatures (world : FinalityWorld Scalar Party)
      {attestations : List (AggregatedAttestation (Signature Scalar Party Hash))}
      (computable : ∀ attestation ∈ attestations, Computable world.signed attestation.signature) :
      Step world { world with
        store := (world.store.mergeSignatures (groupBls publicKey) attestations).1 }

def Reachable (world : FinalityWorld Scalar Party) : Prop :=
  Relation.ReflTransGen (Step publicKey allowed) initial world

/-- A flagged bit of an honest party's peer means that the party has signed. -/
def Attested (peerOf : Party → String) (world : FinalityWorld Scalar Party) : Prop :=
  ∀ hash party, world.store.signed (peerOf party) hash = some true → world.signed hash party

end FinalityWorld

variable (publicKey peerOf) in
/--
No set of listed keys that contains the one at the position of an honest party
cancels that party's secret.
-/
def NoRogueKeys (credentials peerIds : List JsValue) : Prop :=
  ∀ party index, peerIds.idxOf? (.string (peerOf party)) = some index → index < credentials.length →
    ∀ selected : ℕ → Bool, selected index = true → ∀ keys,
      (FinalityState.select credentials selected).mapM publicKey = .ok keys → keys.sum.2 party ≠ 0

variable (publicKey peerOf) in
def SignersSound (signers : List (JsValue × JsValue)) : Prop :=
  NoRogueKeys publicKey peerOf (FinalityState.credentials signers)
    (FinalityState.sortedPeerIds signers)

namespace FinalityState

theorem select_congr {credentials : List JsValue} {selected other : ℕ → Bool}
    (same : ∀ index < credentials.length, selected index = other index) :
    select credentials selected = select credentials other := by
  unfold select
  congr 1
  apply List.filter_congr
  intro entry mem
  have bounds := List.mem_zipIdx mem
  exact same entry.2 (by omega)

theorem select_singleton {credentials : List JsValue} {index : ℕ} {credential : JsValue}
    (found : credentials[index]? = some credential) :
    select credentials (fun other => decide (other = index)) = [credential] := by
  have shifted : ∀ (credentials : List JsValue) (start : ℕ), credentials[index - start]? =
      some credential → start ≤ index →
      ((credentials.zipIdx start).filter fun entry => decide (entry.2 = index)).map (·.1) =
        [credential] := by
    intro credentials
    induction credentials with
    | nil => simp
    | cons head rest ih =>
      intro start found bound
      rw [List.zipIdx_cons]
      by_cases here : start = index
      · subst here
        rw [Nat.sub_self, List.getElem?_cons_zero, Option.some.injEq] at found
        have none : (rest.zipIdx (start + 1)).filter (fun entry => decide (entry.2 = start)) = [] := by
          rw [List.filter_eq_nil_iff]
          intro entry mem
          have bounds := List.mem_zipIdx mem
          simp only [decide_eq_true_eq]
          omega
        rw [List.filter_cons_of_pos (by simp), none, found]
        rfl
      · have next : index - start = index - (start + 1) + 1 := by omega
        rw [next, List.getElem?_cons_succ] at found
        rw [List.filter_cons_of_neg (by simpa using here)]
        exact ih (start + 1) found (by omega)
  exact shifted credentials 0 found (Nat.zero_le _)

end FinalityState

variable {signed : Hash → Party → Prop}

variable (publicKey peerOf signed) in
/-- A state whose keys cannot be cancelled and whose flags of honest parties are deserved. -/
structure FinalityState.Sound (hash : Hash) (state : FinalityState (Signature Scalar Party Hash)) : Prop where
  data : state.data = hash
  keys : NoRogueKeys publicKey peerOf state.signerCredentials state.signerIndices
  flagged : ∀ party index, state.indexOf (peerOf party) = some index →
    state.aggregationBits.get index = true → signed hash party

namespace FinalityState.Sound

variable {hash : Hash} {state next : FinalityState (Signature Scalar Party Hash)}

omit [DecidableEq Party] in
theorem mono {later : Hash → Party → Prop} (more : ∀ hash party, signed hash party → later hash party)
    (sound : state.Sound publicKey peerOf signed hash) : state.Sound publicKey peerOf later hash :=
  ⟨sound.data, sound.keys, fun party index found read => more _ _ (sound.flagged party index found read)⟩

omit [DecidableEq Party] in
theorem create {signers : List (JsValue × JsValue)} (signersSound : SignersSound publicKey peerOf signers) :
    (FinalityState.create hash signers).Sound publicKey peerOf signed hash := by
  refine ⟨rfl, signersSound, fun party index _ read => ?_⟩
  rw [FinalityState.create, get_ofLength] at read
  cases read

omit [DecidableEq Party] in
theorem of_flags (sound : state.Sound publicKey peerOf signed hash) (same : state.SameSigners next)
    (flags : ∀ party index, state.indexOf (peerOf party) = some index →
      next.aggregationBits.get index = true →
      state.aggregationBits.get index = true ∨ signed hash party) :
    next.Sound publicKey peerOf signed hash := by
  rcases same with ⟨sameData, sameCredentials, sameIndices⟩
  refine ⟨sameData.trans sound.data, ?_, fun party index found read => ?_⟩
  · rw [sameCredentials, sameIndices]
    exact sound.keys
  · rw [FinalityState.indexOf, sameIndices] at found
    exact (flags party index found read).elim (sound.flagged party index found) id

section

variable (sound : state.Sound publicKey peerOf signed hash)
include sound

theorem signed_of_verified {party : Party} {index : ℕ}
    (found : state.indexOf (peerOf party) = some index)
    (inside : index < state.signerCredentials.length) (selected : ℕ → Bool)
    (isSelected : selected index = true) {keys : List (Key Scalar Party)}
    (decoded : (FinalityState.select state.signerCredentials selected).mapM publicKey = .ok keys)
    (computable : Computable signed (sign keys.sum hash)) : signed hash party := by
  apply computable.hasSigned
  rw [sign_self]
  exact sound.keys party index found inside selected isSelected keys decoded

theorem addSignature {peerId : String} {signature : Signature Scalar Party Hash}
    (computable : Computable signed signature)
    (added : state.addSignature (groupBls publicKey) peerId signature true = .ok next) :
    next.Sound publicKey peerOf signed hash := by
  rcases FinalityState.addSignature_cases added with
    rfl | ⟨index, credential, _, credentialFound, _, checked, rfl⟩
  · exact sound
  · rcases checked rfl with ⟨key, decoded, verified⟩
    refine sound.of_flags (FinalityState.sameSigners_record ..) fun party other otherFound read => ?_
    rw [FinalityState.record, get_set] at read
    split at read
    · rename_i isNew
      rcases isNew with ⟨rfl, _⟩
      right
      have isSignature : signature = sign key hash := by
        rw [← sound.data]
        exact verify_groupBls.mp verified
      rw [isSignature, ← List.sum_singleton (x := key)] at computable
      refine sound.signed_of_verified otherFound (List.getElem?_eq_some_iff.mp credentialFound).1
        (fun position => decide (position = other)) (by simp) ?_ computable
      rw [FinalityState.select_singleton credentialFound]
      exact congrArg (· >>= fun key => pure [key]) decoded
    · exact Or.inl read

theorem merge {attestation : AggregatedAttestation (Signature Scalar Party Hash)}
    (computable : Computable signed attestation.signature)
    (merged : state.merge (groupBls publicKey) attestation = .ok next) :
    next.Sound publicKey peerOf signed hash := by
  rcases FinalityState.merge_cases merged with
    ⟨claimed, keys, _, claimedDecoded, decoded, verified, rfl⟩
  rcases FinalityState.combine_cases (groupBls publicKey) state
    (claimed.clear state.signerCredentials.length (attestation.aggregationBits.length * 8))
    attestation.signature keys.length with ⟨sameSigners, flags⟩
  have isSignature : attestation.signature = sign keys.sum hash := by
    rw [← sound.data]
    exact verifyAggregate_groupBls.mp verified
  rw [isSignature] at computable
  refine sound.of_flags sameSigners fun party index found read => (flags index read).imp_right ?_
  intro isSelected
  have lengths := length_of_ofBytes claimedDecoded
  have inside := isSelected
  rw [get_clear (by omega), Bool.and_eq_true, decide_eq_true_eq] at inside
  exact sound.signed_of_verified found inside.1 _ isSelected decoded computable

end

end FinalityState.Sound

variable (publicKey peerOf signed) in
def FinalityStore.Sound (store : FinalityStore (Signature Scalar Party Hash)) : Prop :=
  ∀ hash state, store.states hash = some state → state.Sound publicKey peerOf signed hash

namespace FinalityStore.Sound

variable {store : FinalityStore (Signature Scalar Party Hash)}

omit [DecidableEq Party] in
theorem update (sound : store.Sound publicKey peerOf signed) {hash : Hash}
    {next : FinalityState (Signature Scalar Party Hash)}
    (nextSound : next.Sound publicKey peerOf signed hash) :
    FinalityStore.Sound publicKey peerOf signed
      { states := Function.update store.states hash (some next) } := by
  intro other state found
  dsimp only at found
  by_cases same : other = hash
  · subst same
    rw [Function.update_self] at found
    cases found
    exact nextSound
  · rw [Function.update_of_ne same] at found
    exact sound other state found

omit [DecidableEq Party] in
theorem initializeState (sound : store.Sound publicKey peerOf signed) {hash : Hash}
    {signers : List (JsValue × JsValue)} (signersSound : SignersSound publicKey peerOf signers) :
    (store.initializeState hash signers).Sound publicKey peerOf signed := by
  unfold FinalityStore.initializeState
  split
  · exact sound
  · exact sound.update (.create signersSound)

omit [DecidableEq Party] in
theorem attempt (sound : store.Sound publicKey peerOf signed) {hash : Hash}
    {change : FinalityState (Signature Scalar Party Hash) →
      Except FinalityError (FinalityState (Signature Scalar Party Hash))}
    (changes : ∀ state next, state.Sound publicKey peerOf signed hash → change state = .ok next →
      next.Sound publicKey peerOf signed hash) :
    (store.attempt hash change).1.Sound publicKey peerOf signed := by
  unfold FinalityStore.attempt
  split
  · exact sound
  · rename_i state found
    split
    · rename_i next changed
      exact sound.update (changes state next (sound hash state found) changed)
    · exact sound

theorem addSignatures (sound : store.Sound publicKey peerOf signed) (peerId : String)
    {attestations : List (Attestation (Signature Scalar Party Hash))}
    (computable : ∀ attestation ∈ attestations, Computable signed attestation.signature) :
    (store.addSignatures (groupBls publicKey) peerId attestations true).1.Sound publicKey peerOf
      signed := by
  refine List.foldlRecOn attestations _
    (motive := fun done : FinalityStore (Signature Scalar Party Hash) ×
      List (Attestation (Signature Scalar Party Hash)) => done.1.Sound publicKey peerOf signed) sound ?_
  intro done doneSound attestation mem
  exact doneSound.attempt fun state next stateSound added =>
    stateSound.addSignature (computable attestation mem) added

theorem mergeSignatures (sound : store.Sound publicKey peerOf signed)
    {attestations : List (AggregatedAttestation (Signature Scalar Party Hash))}
    (computable : ∀ attestation ∈ attestations, Computable signed attestation.signature) :
    (store.mergeSignatures (groupBls publicKey) attestations).1.Sound publicKey peerOf signed := by
  refine List.foldlRecOn attestations _
    (motive := fun done : FinalityStore (Signature Scalar Party Hash) × ℕ × ℕ =>
      done.1.Sound publicKey peerOf signed) sound ?_
  intro done doneSound attestation mem
  have attempted : (done.1.attempt attestation.data
      (·.merge (groupBls publicKey) attestation)).1.Sound publicKey peerOf signed :=
    doneSound.attempt fun state next stateSound merged =>
      stateSound.merge (computable attestation mem) merged
  dsimp only
  split <;> exact attempted

end FinalityStore.Sound

section

variable {allowed : Hash → List (JsValue × JsValue) → Prop} {world : FinalityWorld Scalar Party}
  (signersSound : ∀ hash signers, allowed hash signers → SignersSound publicKey peerOf signers)
  (reachable : world.Reachable publicKey allowed)
include signersSound reachable

theorem FinalityWorld.Reachable.sound : world.store.Sound publicKey peerOf world.signed := by
  induction reachable with
  | refl =>
    intro hash state impossible
    cases impossible
  | tail _ step sound =>
    cases step with
    | sign hash party =>
      exact fun other state found => (sound other state found).mono fun _ _ => Or.inl
    | created isAllowed => exact sound.initializeState (signersSound _ _ isAllowed)
    | addSignatures peerId computable => exact sound.addSignatures peerId computable
    | mergeSignatures computable => exact sound.mergeSignatures computable

theorem FinalityWorld.Reachable.attested : world.Attested peerOf := by
  intro hash party flagged
  rcases Option.bind_eq_some_iff.mp flagged with ⟨state, found, flagged⟩
  rcases Option.map_eq_some_iff.mp flagged with ⟨index, indexFound, read⟩
  exact (reachable.sound signersSound hash state found).flagged party index indexFound read

end

theorem FinalityWorld.Reachable.sign {allowed : Hash → List (JsValue × JsValue) → Prop}
    {world : FinalityWorld Scalar Party} (reachable : world.Reachable publicKey allowed) (hash : Hash)
    (parties : List Party) :
    FinalityWorld.Reachable publicKey allowed { world with
      signed := fun other signer => world.signed other signer ∨ other = hash ∧ signer ∈ parties } := by
  induction parties with
  | nil => simpa using reachable
  | cons party rest ih =>
    have oneMore : (fun other signer => world.signed other signer ∨
        other = hash ∧ signer ∈ party :: rest) = fun other signer =>
          (world.signed other signer ∨ other = hash ∧ signer ∈ rest) ∨
            other = hash ∧ signer = party := by
      funext other signer
      rw [List.mem_cons, eq_iff_iff]
      tauto
    rw [oneMore]
    exact ih.tail (.sign _ hash party)

theorem FinalityState.merge_create {Key Signature : Type} {bls : Bls Key Signature} {hash : Hash}
    {signers : List (JsValue × JsValue)} {signature : Signature} {aggregationBits : List (BitVec 8)}
    {claimed : BitSet} {keys : List Key}
    (decoded : ofBytes (credentials signers).length aggregationBits = .ok claimed)
    (keysDecoded : (select (credentials signers) claimed.get).mapM bls.publicKey = .ok keys)
    (verified : bls.verifyAggregate keys hash signature = true) :
    ∃ next, (FinalityState.create hash signers).merge bls { data := hash, aggregationBits, signature } =
        .ok next ∧ next.signerIndices = sortedPeerIds signers ∧
      ∀ index < (credentials signers).length,
        next.aggregationBits.get index = claimed.get index := by
  have lengths := length_of_ofBytes decoded
  have cleared : ∀ index < (credentials signers).length, (claimed.clear (credentials signers).length
      (aggregationBits.length * 8)).get index = claimed.get index := by
    intro index inside
    rw [get_clear (by omega)]
    simp [inside]
  rw [← select_congr cleared] at keysDecoded
  refine ⟨(FinalityState.create hash signers).adopt (claimed.clear (credentials signers).length
    (aggregationBits.length * 8)) signature keys.length, ?_, rfl, cleared⟩
  simp [merge, FinalityState.create, decoded, keysDecoded, verified, combine]

theorem FinalityStore.mergeSignatures_singleton {Key Signature : Type} {bls : Bls Key Signature}
    {store : FinalityStore Signature} {attestation : AggregatedAttestation Signature}
    {state next : FinalityState Signature} (found : store.states attestation.data = some state)
    (merged : state.merge bls attestation = .ok next) :
    (store.mergeSignatures bls [attestation]).1 =
      { states := Function.update store.states attestation.data (some next) } := by
  simp [mergeSignatures, attempt, found, merged]

end Invariant

/--
In every run a flagged honest party has signed, exactly if no vertex has signers
whose keys can cancel the secret of an honest one.
-/
theorem honest_flags_prove_signatures_iff [Fintype Party]
    (publicKey : JsValue → Except FinalityError (Key Scalar Party)) (peerOf : Party → String)
    (allowed : Hash → List (JsValue × JsValue) → Prop) :
    (∀ world : FinalityWorld Scalar Party, world.Reachable publicKey allowed → world.Attested peerOf) ↔
      ∀ hash signers, allowed hash signers → SignersSound publicKey peerOf signers := by
  classical
  constructor
  · intro attested hash signers isAllowed party index found inside selected isSelected keys decoded cancels
    rcases exists_get (FinalityState.credentials signers).length selected with
      ⟨claimed, length, read⟩
    rw [← FinalityState.select_congr read] at decoded
    rcases FinalityState.merge_create (ofBytes_toBytes length) decoded
      (@verifyAggregate_groupBls _ _ _ publicKey keys hash _ |>.mpr rfl) with
      ⟨next, merged, sameIndices, flags⟩
    have others : ∃ parties : List Party, ∀ other, other ∈ parties ↔ keys.sum.2 other ≠ 0 :=
      ⟨(Finset.univ.filter fun other => keys.sum.2 other ≠ 0).toList, by simp⟩
    rcases others with ⟨parties, memParties⟩
    -- Everybody whose secret is left in the sum signs, and the adversary adds it up.
    have start : FinalityWorld.Reachable publicKey allowed (FinalityWorld.initial : FinalityWorld Scalar Party) :=
      .refl
    have prepared := FinalityWorld.Reachable.sign (start.tail (.created _ isAllowed)) hash parties
    have computable : ∀ attestation ∈ [AggregatedAttestation.mk hash claimed.toBytes (sign keys.sum hash)],
        Computable (fun other signer => False ∨ other = hash ∧ signer ∈ parties) attestation.signature := by
      intro attestation mem
      rw [List.mem_singleton.mp mem]
      exact computable_sign fun other involved => Or.inr ⟨rfl, (memParties other).mpr involved⟩
    have forged := attested _ (prepared.tail (.mergeSignatures _ computable)) hash party
    have present := @FinalityStore.states_initializeState _
      (FinalityWorld.initial : FinalityWorld Scalar Party).store hash rfl signers
    have indexFound : next.indexOf (peerOf party) = some index := by
      rw [FinalityState.indexOf, sameIndices]
      exact found
    rw [FinalityStore.mergeSignatures_singleton present merged, FinalityStore.signed] at forged
    rcases forged (by simp [indexFound, flags index inside, read index inside, isSelected]) with
      impossible | ⟨_, hasSigned⟩
    · exact impossible
    · exact (memParties party).mp hasSigned cancels
  · exact fun signersSound world reachable => reachable.attested signersSound

namespace RogueExample

def publicKey : JsValue → Except FinalityError (Key ℤ Unit)
  | .string text =>
    if text = "KA" then .ok (keyOf ())
    else if text = "KM" then .ok ((1, 0) - keyOf ())
    else .error .malformedKey
  | _ => .error .malformedKey

def registered : Except JsError ObjectACL := do
  let acl := ObjectACL.create ["alice", "mallory"] false none
  let (acl, _) ← acl.setKey "alice" (.string "KA")
  let (acl, _) ← acl.setKey "mallory" (.string "KM")
  return acl

def signers : List (JsValue × JsValue) :=
  [(.string "alice", .string "KA"), (.string "mallory", .string "KM")]

def forged : AggregatedAttestation (Signature ℤ Unit Hash) where
  data := "v"
  aggregationBits := [3, 0, 0, 0]
  signature := sign (1, 0) "v"

def allowed (_ : Hash) (signers : List (JsValue × JsValue)) : Prop :=
  ∃ acl, registered = .ok acl ∧ signers = acl.queryGetFinalitySigners

end RogueExample

open RogueExample in
/--
A signer registers the negative of another's key plus a key whose secret it
knows: it alone signs for both, and the other is flagged without having signed
anything.
-/
theorem rogue_key_forges_attestation :
    ∃ world : FinalityWorld ℤ Unit, world.Reachable publicKey allowed ∧
      world.store.signed "alice" "v" = some true ∧ ∀ hash party, ¬world.signed hash party := by
  have registration : allowed "v" signers := ⟨_, rfl, rfl⟩
  have start : FinalityWorld.Reachable publicKey allowed
    (FinalityWorld.initial : FinalityWorld ℤ Unit) := .refl
  have decoded : ofBytes (FinalityState.credentials signers).length [3, 0, 0, 0] =
      .ok ⟨[3]⟩ := rfl
  have keysDecoded : (FinalityState.select (FinalityState.credentials signers)
      (mk [3]).get).mapM (groupBls publicKey).publicKey =
        .ok [keyOf (), (1, 0) - keyOf ()] := rfl
  have verified : (groupBls publicKey).verifyAggregate [keyOf (), (1, 0) - keyOf ()] "v"
      (sign (1, 0) "v") = true := by
    rw [verifyAggregate_groupBls]
    simp
  rcases FinalityState.merge_create decoded keysDecoded verified with
    ⟨next, merged, sameIndices, flags⟩
  have computable : ∀ attestation ∈ [forged],
      Computable (FinalityWorld.initial : FinalityWorld ℤ Unit).signed attestation.signature := by
    intro attestation mem
    rw [List.mem_singleton.mp mem]
    exact .own 1 "v"
  refine ⟨_, (start.tail (.created _ registration)).tail (.mergeSignatures _ computable), ?_,
    fun hash party => id⟩
  have present := @FinalityStore.states_initializeState _
    (FinalityWorld.initial : FinalityWorld ℤ Unit).store "v" rfl signers
  have indexFound : next.indexOf "alice" = some 0 := by
    rw [FinalityState.indexOf, sameIndices]
    rfl
  have flagged : next.aggregationBits.get 0 = true := flags 0 (by decide)
  have recorded := @FinalityStore.mergeSignatures_singleton _ _ _ _ forged _ _ present merged
  rw [FinalityStore.signed]
  dsimp only
  rw [recorded]
  simp [forged, indexFound, flagged]

end TsDrp
