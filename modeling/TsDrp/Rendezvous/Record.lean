import Mathlib.Algebra.Ring.Nat
import Mathlib.Data.List.Lex
import Mathlib.Data.List.Sort
import TsDrp.JsonValue
import TsDrp.Library.InsertionMap
import TsDrp.Library.Outcome

/-!
# Rendezvous records and their validation

A peer publishes where it can be reached in signed records of a short lifetime.
`RecordValidator.validate` checks the shape, the limits, the times, the canonical
form and the signature of an untrusted record, then its sequence number against
the replay ledger, then its addresses and the admission decision, and enters the
sequence into the ledger at the very end.  It waits twice on the way, for the
signature and for the addresses, so it is given here as three functions.

Multiaddresses, keys and signatures are those of other libraries and enter
through an environment; what the address policy says about an address depends
on the name service and is an input of the last function.
-/

namespace TsDrp

namespace Rendezvous

def peerNamespacePrefix : String := "drp-network:v1:"

def roomNamespacePrefix : String := "drp-room:v1:"

/-- The characters `A-Z`, `a-z`, `0-9`, `_` and `-`. -/
def isBase64Url (char : Char) : Bool := char.isAlphanum || char = '_' || char = '-'

/-- One of the two prefixes, and 22 to 86 characters behind it. -/
def isValidRendezvousNamespace (namespaceName : String) : Bool :=
  [peerNamespacePrefix, roomNamespacePrefix].any fun start =>
    let entropy := namespaceName.toList.drop start.toList.length
    start.toList.isPrefixOf namespaceName.toList && 22 ≤ entropy.length && entropy.length ≤ 86 &&
      entropy.all isBase64Url

def recordKind : String := "ts-drp-rendezvous-record"

def supportedCapabilities : List String :=
  ["drp-gossipsub", "webrtc", "relay-client", "relay-hop-v2-service"]

structure SignedDrpRecordV1 where
  kind : String
  version : JsNumber
  namespaceName : String
  peerId : String
  publicKey : String
  addresses : List String
  capabilities : List String
  sequence : JsNumber
  issuedAtMs : JsNumber
  expiresAtMs : JsNumber
  signature : String
deriving DecidableEq

inductive RecordRejectionCode where
  | admissionRejected
  | admissionRequired
  | expired
  | invalidAddress
  | invalidNamespace
  | invalidPeerId
  | invalidPublicKey
  | invalidSequence
  | invalidShape
  | invalidSignature
  | invalidTime
  | issuedInFuture
  | namespaceMismatch
  | nonCanonical
  | oversized
  | peerIdMismatch
  | replayCapacityExceeded
  | replayedSequence
  | ttlOutOfRange
  | tooManyAddresses
  | tooManyCapabilities
  | unsafeAddress
  | unsupportedCapability
  | unsupportedVersion
deriving DecidableEq

def RecordRejectionCode.text : RecordRejectionCode → String
  | admissionRejected => "admission-rejected"
  | admissionRequired => "admission-required"
  | expired => "expired"
  | invalidAddress => "invalid-address"
  | invalidNamespace => "invalid-namespace"
  | invalidPeerId => "invalid-peer-id"
  | invalidPublicKey => "invalid-public-key"
  | invalidSequence => "invalid-sequence"
  | invalidShape => "invalid-shape"
  | invalidSignature => "invalid-signature"
  | invalidTime => "invalid-time"
  | issuedInFuture => "issued-in-future"
  | namespaceMismatch => "namespace-mismatch"
  | nonCanonical => "non-canonical"
  | oversized => "oversized"
  | peerIdMismatch => "peer-id-mismatch"
  | replayCapacityExceeded => "replay-capacity-exceeded"
  | replayedSequence => "replayed-sequence"
  | ttlOutOfRange => "ttl-out-of-range"
  | tooManyAddresses => "too-many-addresses"
  | tooManyCapabilities => "too-many-capabilities"
  | unsafeAddress => "unsafe-address"
  | unsupportedCapability => "unsupported-capability"
  | unsupportedVersion => "unsupported-version"

structure RejectedRecord where
  code : RecordRejectionCode
  detail : Option String
deriving DecidableEq

def reject (code : RecordRejectionCode) : RejectedRecord := ⟨code, none⟩

def rejectWith (code : RecordRejectionCode) (detail : String) : RejectedRecord := ⟨code, some detail⟩

def ensure {Rejection : Type} (condition : Prop) [Decidable condition] (rejection : Rejection) :
    Except Rejection Unit :=
  if condition then .ok () else .error rejection

def orReject {Rejection Value : Type} (value : Option Value) (rejection : Rejection) :
    Except Rejection Value :=
  match value with
  | some value => .ok value
  | none => .error rejection

/-- A decision on who may register; the mode is checked where it is used. -/
structure AdmissionDecision where
  accepted : Bool
  mode : String
  reason : Option String
deriving DecidableEq

def isAdmissionMode (mode : String) : Bool :=
  mode = "open" || mode = "invite" || mode = "allowlist" || mode = "proof-of-work"

structure RecordValidationContext where
  admission : Option AdmissionDecision
  expectedNamespace : String
deriving DecidableEq

structure AcceptedRecord where
  admissionMode : String
  canonicalBytes : ℕ
  record : SignedDrpRecordV1
deriving DecidableEq

structure RecordLimits where
  maxAddresses : ℕ
  maxCapabilities : ℕ
  maxClockSkewMs : ℕ
  maxRecordBytes : ℕ
  maxReplayEntries : ℕ
  maxResponseRecords : ℕ
  maxTtlMs : ℕ
  minTtlMs : ℕ
deriving DecidableEq

def defaultRecordLimits : RecordLimits where
  maxAddresses := 8
  maxCapabilities := 4
  maxClockSkewMs := 30000
  maxRecordBytes := 8192
  maxReplayEntries := 4096
  maxResponseRecords := 64
  maxTtlMs := 300000
  minTtlMs := 10000

/-- The limits under their names, in the order of the defaults. -/
def RecordLimits.named (limits : RecordLimits) : List (String × ℕ) :=
  [("maxAddresses", limits.maxAddresses), ("maxCapabilities", limits.maxCapabilities),
    ("maxClockSkewMs", limits.maxClockSkewMs), ("maxRecordBytes", limits.maxRecordBytes),
    ("maxReplayEntries", limits.maxReplayEntries),
    ("maxResponseRecords", limits.maxResponseRecords), ("maxTtlMs", limits.maxTtlMs),
    ("minTtlMs", limits.minTtlMs)]

def validateLimits (limits : RecordLimits) : Except String RecordLimits := do
  forM limits.named fun limit => ensure (1 ≤ limit.2 ∧ limit.2 < 2 ^ 53)
    (limit.1 ++ " must be a positive safe integer")
  ensure (limits.maxAddresses ≤ 64) "maxAddresses cannot exceed 64"
  ensure (limits.maxCapabilities ≤ supportedCapabilities.length)
    ("maxCapabilities cannot exceed " ++ toString supportedCapabilities.length)
  ensure (limits.maxClockSkewMs ≤ 300000) "maxClockSkewMs cannot exceed 300000"
  ensure (limits.maxRecordBytes ≤ 16384) "maxRecordBytes cannot exceed 16384"
  ensure (limits.maxReplayEntries ≤ 65536) "maxReplayEntries cannot exceed 65536"
  ensure (limits.maxResponseRecords ≤ 256) "maxResponseRecords cannot exceed 256"
  ensure (limits.maxTtlMs ≤ 900000) "maxTtlMs cannot exceed 900000"
  ensure (limits.minTtlMs ≤ limits.maxTtlMs) "minTtlMs cannot exceed maxTtlMs"
  return limits

example : (validateLimits defaultRecordLimits).toOption = some defaultRecordLimits := by
  decide +kernel

section Parsing

def textOf : JsValue → Option String
  | .string text => some text
  | _ => none

def textsOf : JsValue → Option (List String)
  | .array elements => elements.mapM textOf
  | _ => none

def numberOf : JsValue → Option JsNumber
  | .number value => some value
  | _ => none

/-- The eleven fields of a record and no others, each of its type. -/
def readRecord (fields : List (String × JsValue)) : Option SignedDrpRecordV1 := do
  let field (name : String) := JsValue.fieldOf fields name
  guard (fields.length = 11)
  return {
    kind := ← field "kind" >>= textOf
    version := ← field "version" >>= numberOf
    namespaceName := ← field "namespace" >>= textOf
    peerId := ← field "peerId" >>= textOf
    publicKey := ← field "publicKey" >>= textOf
    addresses := ← field "addresses" >>= textsOf
    capabilities := ← field "capabilities" >>= textsOf
    sequence := ← field "sequence" >>= numberOf
    issuedAtMs := ← field "issuedAtMs" >>= numberOf
    expiresAtMs := ← field "expiresAtMs" >>= numberOf
    signature := ← field "signature" >>= textOf }

def parseRecord (input : JsValue) : Except RejectedRecord SignedDrpRecordV1 :=
  match input with
  | .object fields => orReject (readRecord fields) (reject .invalidShape)
  | _ => .error (reject .invalidShape)

theorem textOf_eq_some {value : JsValue} {text : String} :
    textOf value = some text ↔ value = .string text := by
  cases value <;> simp [textOf]

theorem numberOf_eq_some {value : JsValue} {number : JsNumber} :
    numberOf value = some number ↔ value = .number number := by
  cases value <;> simp [numberOf]

/-- What the parser has read under the names that identify a record. -/
structure ReadFrom (fields : List (String × JsValue)) (record : SignedDrpRecordV1) : Prop where
  namespaceName : JsValue.fieldOf fields "namespace" = some (.string record.namespaceName)
  peerId : JsValue.fieldOf fields "peerId" = some (.string record.peerId)
  signature : JsValue.fieldOf fields "signature" = some (.string record.signature)
  sequence : JsValue.fieldOf fields "sequence" = some (.number record.sequence)
  expiresAtMs : JsValue.fieldOf fields "expiresAtMs" = some (.number record.expiresAtMs)

theorem readFrom_of_parseRecord {fields : List (String × JsValue)} {record : SignedDrpRecordV1}
    (parsed : parseRecord (.object fields) = .ok record) : ReadFrom fields record := by
  have read : readRecord fields = some record := by
    unfold parseRecord orReject at parsed
    dsimp only at parsed
    split at parsed
    · rename_i found
      cases parsed
      exact found
    · cases parsed
  unfold readRecord at read
  simp only [Option.bind_eq_bind, Option.bind_eq_some_iff, textOf_eq_some, numberOf_eq_some,
    exists_eq_right] at read
  rcases read with ⟨_, _, _, _, _, _, namespaceName, hasNamespace, peerId, hasPeerId, _, _, _, _, _,
    _, sequence, hasSequence, _, _, expiresAtMs, hasExpiresAtMs, signature, hasSignature, read⟩
  cases read
  exact ⟨hasNamespace, hasPeerId, hasSignature, hasSequence, hasExpiresAtMs⟩

end Parsing

/-- The record as the untrusted value it arrives as. -/
def SignedDrpRecordV1.toValue (record : SignedDrpRecordV1) : JsValue :=
  .object [("addresses", .array (record.addresses.map .string)),
    ("capabilities", .array (record.capabilities.map .string)),
    ("expiresAtMs", .number record.expiresAtMs), ("issuedAtMs", .number record.issuedAtMs),
    ("kind", .string record.kind), ("namespace", .string record.namespaceName),
    ("peerId", .string record.peerId), ("publicKey", .string record.publicKey),
    ("sequence", .number record.sequence), ("signature", .string record.signature),
    ("version", .number record.version)]

theorem textsOf_array (texts : List String) :
    textsOf (.array (texts.map .string)) = some texts := by
  rw [textsOf]
  induction texts with
  | nil => rfl
  | cons text rest ih =>
    rw [List.map_cons, List.mapM_cons, ih]
    rfl

theorem parseRecord_toValue (record : SignedDrpRecordV1) :
    parseRecord record.toValue = .ok record := by
  simp [parseRecord, SignedDrpRecordV1.toValue, readRecord, JsValue.fieldOf, textsOf_array, textOf,
    numberOf, orReject]

/-- An address taken apart: its canonical text and its components with their values. -/
structure Multiaddr where
  text : String
  components : List (String × Option String)

/-- What the record module takes from other libraries. -/
structure RecordEnvironment (Key : Type) where
  format : Json.NumberFormat Double
  /-- `multiaddr(address)`, or the message of the exception. -/
  multiaddr : String → Except String Multiaddr
  decodeCanonicalBase64Url : String → Option (List UInt8)
  publicKeyFromProtobuf : List UInt8 → Option Key
  keyType : Key → String
  /-- `peerIdFromString` does not throw. -/
  isPeerId : String → Bool
  peerIdFromPublicKey : Key → String
  verify : Key → String → List UInt8 → Bool

/-- `[...new Set(texts)].sort()` -/
def sortedSet (texts : List String) : List String :=
  texts.eraseDups.insertionSort fun left right => utf16 left ≤ utf16 right

section Validation

variable {Key : Type} (env : RecordEnvironment Key)

/-- The payload with canonical addresses and capabilities, or the message of an exception. -/
def canonicalizePayload (record : SignedDrpRecordV1) : Except String SignedDrpRecordV1 := do
  let addresses ← record.addresses.mapM fun address => (env.multiaddr address).map (·.text)
  return { record with
    kind := recordKind
    version := .finite (.ofInt 1 Double.one_small)
    addresses := sortedSet addresses
    capabilities := sortedSet record.capabilities }

/-- The text of the payload, in its fixed order and without the signature. -/
def payloadText (payload : SignedDrpRecordV1) : String :=
  .ofList (Json.text env.format (JsValue.toJson (.object [("kind", .string payload.kind),
    ("version", .number payload.version), ("namespace", .string payload.namespaceName),
    ("peerId", .string payload.peerId), ("publicKey", .string payload.publicKey),
    ("addresses", .array (payload.addresses.map .string)),
    ("capabilities", .array (payload.capabilities.map .string)),
    ("sequence", .number payload.sequence), ("issuedAtMs", .number payload.issuedAtMs),
    ("expiresAtMs", .number payload.expiresAtMs)])))

def textsText (texts : List String) : List Char :=
  Json.text env.format (.array (texts.map .string))

def isCanonical (record canonical : SignedDrpRecordV1) : Bool :=
  textsText env record.addresses = textsText env canonical.addresses ∧
    textsText env record.capabilities = textsText env canonical.capabilities

def byteLength (value : JsValue) : ℕ := ((Json.text env.format value.toJson).map Char.utf8Size).sum

/-- A record that waits for its signature to be verified, with what was read of it. -/
structure Candidate (Key : Type) where
  record : SignedDrpRecordV1
  context : RecordValidationContext
  serializedBytes : ℕ
  sequence : ℤ
  expiresAtMs : ℤ
  now : ℤ
  publicKey : Key
  payload : String
  signature : List UInt8

def checkNumbers (limits : RecordLimits) (record : SignedDrpRecordV1) (now : ℤ) :
    Except RejectedRecord (ℤ × ℤ) := do
  let sequence ← orReject record.sequence.toSafeInteger (reject .invalidSequence)
  ensure (0 ≤ sequence) (reject .invalidSequence)
  let issuedAtMs ← orReject record.issuedAtMs.toSafeInteger (reject .invalidTime)
  let expiresAtMs ← orReject record.expiresAtMs.toSafeInteger (reject .invalidTime)
  ensure (issuedAtMs < expiresAtMs) (reject .invalidTime)
  let ttlMs := expiresAtMs - issuedAtMs
  ensure (limits.minTtlMs ≤ ttlMs ∧ ttlMs ≤ limits.maxTtlMs)
    (rejectWith .ttlOutOfRange (toString ttlMs ++ " ms"))
  ensure (issuedAtMs ≤ now + limits.maxClockSkewMs) (reject .issuedInFuture)
  ensure (now < expiresAtMs) (reject .expired)
  return (sequence, expiresAtMs)

def checkIdentity (record : SignedDrpRecordV1) :
    Except RejectedRecord (Key × String × List UInt8) := do
  let canonical ← (canonicalizePayload env record).mapError fun _ => reject .invalidAddress
  ensure (isCanonical env record canonical) (reject .nonCanonical)
  let publicKey ← orReject
    (env.decodeCanonicalBase64Url record.publicKey >>= env.publicKeyFromProtobuf)
    (reject .invalidPublicKey)
  ensure (env.keyType publicKey = "Ed25519" ∨ env.keyType publicKey = "secp256k1")
    (rejectWith .invalidPublicKey "unsupported key type")
  ensure (env.isPeerId record.peerId) (reject .invalidPeerId)
  ensure (env.peerIdFromPublicKey publicKey = record.peerId) (reject .peerIdMismatch)
  let signature ← orReject (env.decodeCanonicalBase64Url record.signature) (reject .invalidSignature)
  let payload ← (canonicalizePayload env canonical).mapError (rejectWith .invalidSignature)
  return (publicKey, payloadText env payload, signature)

/-- Everything `validate` does before it waits for the signature. -/
def check (limits : RecordLimits) (input : JsValue) (context : RecordValidationContext) (now : ℤ) :
    Except RejectedRecord (Candidate Key) := do
  let record ← parseRecord input
  let serializedBytes := byteLength env input
  ensure (serializedBytes ≤ limits.maxRecordBytes) (rejectWith .oversized
    (toString serializedBytes ++ "/" ++ toString limits.maxRecordBytes ++ " bytes"))
  ensure (record.kind = recordKind ∧
    record.version.strictEquals (.finite (.ofInt 1 Double.one_small))) (reject .unsupportedVersion)
  ensure (isValidRendezvousNamespace record.namespaceName) (reject .invalidNamespace)
  ensure (record.namespaceName = context.expectedNamespace) (reject .namespaceMismatch)
  ensure (record.addresses.length ≤ limits.maxAddresses) (rejectWith .tooManyAddresses
    (toString record.addresses.length ++ "/" ++ toString limits.maxAddresses))
  ensure (record.capabilities.length ≤ limits.maxCapabilities) (rejectWith .tooManyCapabilities
    (toString record.capabilities.length ++ "/" ++ toString limits.maxCapabilities))
  ensure (record.capabilities.all (· ∈ supportedCapabilities)) (reject .unsupportedCapability)
  ensure ("drp-gossipsub" ∈ record.capabilities)
    (rejectWith .unsupportedCapability "drp-gossipsub capability is required")
  let (sequence, expiresAtMs) ← checkNumbers limits record now
  let (publicKey, payload, signature) ← checkIdentity env record
  return { record, context, serializedBytes, sequence, expiresAtMs, now, publicKey, payload, signature }

/-- What the address policy says about an address, for browsers or for nodes. -/
structure AddressDecision where
  dialable : Bool
  reasons : List String

/-- The body of the loop over the addresses of a record. -/
def validateAddress (record : SignedDrpRecordV1)
    (evaluate : String → AddressDecision × AddressDecision) (address : String) :
    Except RejectedRecord Unit := do
  let parsed ← (env.multiaddr address).mapError fun _ => reject .invalidAddress
  ensure (parsed.text = address) (rejectWith .nonCanonical "non-canonical multiaddr")
  let peerComponents := parsed.components.filter fun component => component.1 = "p2p"
  ensure ((peerComponents.getLast?.bind (·.2)) = some record.peerId)
    (rejectWith .invalidAddress "last p2p component must match record peer")
  let (browser, node) := evaluate address
  let reasons := (browser.reasons ++ node.reasons).eraseDups
  let isUnsafe := reasons.any fun reason =>
    "scope-".toList.isPrefixOf reason.toList || reason = "dns-rebinding-risk"
  ensure (browser.dialable ∨ node.dialable)
    (rejectWith (if isUnsafe then .unsafeAddress else .invalidAddress) (",".intercalate reasons))

def validateAddresses (record : SignedDrpRecordV1)
    (evaluate : String → AddressDecision × AddressDecision) : Except RejectedRecord Unit := do
  ensure (record.addresses ≠ []) (rejectWith .invalidAddress "at least one address is required")
  forM record.addresses (validateAddress env record evaluate)

/-- What the ledger remembers of the last record of a peer in a namespace. -/
structure ReplayEntry where
  expiresAtMs : ℤ
  sequence : ℤ

def Candidate.entry (candidate : Candidate Key) : ReplayEntry where
  expiresAtMs := candidate.expiresAtMs
  sequence := candidate.sequence

structure RecordValidator where
  limits : RecordLimits
  sequences : InsertionMap String ReplayEntry

def SignedDrpRecordV1.sequenceKey (record : SignedDrpRecordV1) : String :=
  record.namespaceName ++ "\x00" ++ record.peerId

namespace RecordValidator

variable (validator : RecordValidator) (candidate : Candidate Key)

def create (limits : RecordLimits) : Except String RecordValidator :=
  (validateLimits limits).map fun limits => { limits, sequences := .empty }

def sweepExpiredReplayState (now : ℤ) : RecordValidator :=
  { validator with sequences := validator.sequences.filter fun entry => now < entry.2.expiresAtMs }

/-- What is done once the signature was found valid, before the addresses are resolved. -/
def checkSequence : RecordValidator × Except RejectedRecord Unit :=
  let validator := validator.sweepExpiredReplayState candidate.now
  (validator, match validator.sequences.get candidate.record.sequenceKey with
    | some prior => ensure (prior.sequence < candidate.sequence) (rejectWith .replayedSequence
        (toString candidate.sequence ++ " <= " ++ toString prior.sequence))
    | none => ensure (validator.sequences.size < validator.limits.maxReplayEntries)
        (rejectWith .replayCapacityExceeded (toString validator.sequences.size ++ "/" ++
          toString validator.limits.maxReplayEntries)))

def remember : RecordValidator :=
  { validator with
    sequences := validator.sequences.set candidate.record.sequenceKey candidate.entry }

/-- What is done once the addresses are resolved; an accepted record enters the ledger. -/
def conclude (evaluate : String → AddressDecision × AddressDecision) :
    RecordValidator × Except RejectedRecord AcceptedRecord :=
  match validateAddresses env candidate.record evaluate, candidate.context.admission with
  | .error rejection, _ => (validator, .error rejection)
  | .ok (), none => (validator, .error (reject .admissionRequired))
  | .ok (), some admission =>
    if isAdmissionMode admission.mode ∧ admission.accepted then
      (validator.remember candidate,
        .ok { admissionMode := admission.mode, canonicalBytes := candidate.serializedBytes,
              record := candidate.record })
    else (validator, .error { code := .admissionRejected, detail := admission.reason })

/-- The whole of `validate`, when nothing else uses the validator meanwhile. -/
def validate (input : JsValue) (context : RecordValidationContext) (now : ℤ)
    (evaluate : String → AddressDecision × AddressDecision) :
    RecordValidator × Except RejectedRecord AcceptedRecord :=
  match check env validator.limits input context now with
  | .error rejection => (validator, .error rejection)
  | .ok candidate =>
    if env.verify candidate.publicKey candidate.payload candidate.signature then
      match validator.checkSequence candidate with
      | (validator, .error rejection) => (validator, .error rejection)
      | (validator, .ok ()) => validator.conclude env candidate evaluate
    else (validator, .error (reject .invalidSignature))

end RecordValidator

end Validation

section Inversion

variable {Key : Type} {env : RecordEnvironment Key}

@[simp]
theorem ensure_eq_ok {Rejection : Type} {condition : Prop} [Decidable condition]
    {rejection : Rejection} {value : Unit} : ensure condition rejection = .ok value ↔ condition := by
  unfold ensure
  split <;> simp_all

@[simp]
theorem orReject_eq_ok {Rejection Value : Type} {value : Option Value} {rejection : Rejection}
    {found : Value} : orReject value rejection = .ok found ↔ value = some found := by
  cases value <;> simp [orReject]

theorem checkNumbers_eq_ok {limits : RecordLimits} {record : SignedDrpRecordV1}
    {now sequence expiresAtMs : ℤ}
    (checked : checkNumbers limits record now = .ok (sequence, expiresAtMs)) :
    record.sequence.toSafeInteger = some sequence ∧
      record.expiresAtMs.toSafeInteger = some expiresAtMs ∧ now < expiresAtMs := by
  simp only [checkNumbers, Outcome.bind_eq_ok, ensure_eq_ok, orReject_eq_ok, Outcome.pure_eq_ok,
    exists_const] at checked
  rcases checked with ⟨_, sequence, _, _, _, _, expires, _, _, _, fresh, same⟩
  cases same
  exact ⟨sequence, expires, fresh⟩

theorem check_eq_ok {limits : RecordLimits} {input : JsValue} {context : RecordValidationContext}
    {now : ℤ} {candidate : Candidate Key} (checked : check env limits input context now = .ok candidate) :
    parseRecord input = .ok candidate.record ∧ candidate.context = context ∧ candidate.now = now ∧
      candidate.record.namespaceName = context.expectedNamespace ∧
      isValidRendezvousNamespace candidate.record.namespaceName = true ∧
      candidate.record.sequence.toSafeInteger = some candidate.sequence ∧
      candidate.record.expiresAtMs.toSafeInteger = some candidate.expiresAtMs ∧
      now < candidate.expiresAtMs := by
  simp only [check, Outcome.bind_eq_ok, ensure_eq_ok, Outcome.pure_eq_ok, exists_const] at checked
  rcases checked with ⟨record, parsed, _, _, valid, expected, _, _, _, _, ⟨sequence, expiresAtMs⟩,
    numbers, _, _, same⟩
  cases same
  rcases checkNumbers_eq_ok numbers with ⟨safe, expires, fresh⟩
  exact ⟨parsed, rfl, rfl, expected, valid, safe, expires, fresh⟩

theorem zero_notMem_of_isValid {namespaceName : String}
    (valid : isValidRendezvousNamespace namespaceName = true) :
    Char.ofNat 0 ∉ namespaceName.toList := by
  simp only [isValidRendezvousNamespace, List.any_cons, List.any_nil, Bool.or_false,
    Bool.or_eq_true, Bool.and_eq_true, decide_eq_true_eq, List.isPrefixOf_iff_prefix] at valid
  have split : ∀ start : List Char, Char.ofNat 0 ∉ start → start <+: namespaceName.toList →
      (namespaceName.toList.drop start.length).all isBase64Url = true →
        Char.ofNat 0 ∉ namespaceName.toList := by
    intro start clean begins entropy mem
    rcases begins with ⟨rest, whole⟩
    rw [← whole, List.drop_left] at entropy
    rw [← whole, List.mem_append] at mem
    rcases mem with inStart | inRest
    · exact clean inStart
    · exact absurd (List.all_eq_true.mp entropy _ inRest) (by decide)
  rcases valid with ⟨⟨⟨begins, _⟩, _⟩, entropy⟩ | ⟨⟨⟨begins, _⟩, _⟩, entropy⟩
  · exact split _ (by decide) begins entropy
  · exact split _ (by decide) begins entropy

theorem sequenceKey_inj {record other : SignedDrpRecordV1}
    (valid : isValidRendezvousNamespace record.namespaceName = true)
    (valid' : isValidRendezvousNamespace other.namespaceName = true)
    (same : record.sequenceKey = other.sequenceKey) :
    record.namespaceName = other.namespaceName ∧ record.peerId = other.peerId := by
  have sameChars : record.namespaceName.toList ++ Char.ofNat 0 :: record.peerId.toList =
      other.namespaceName.toList ++ Char.ofNat 0 :: other.peerId.toList := by
    simpa [SignedDrpRecordV1.sequenceKey, String.toList_append] using congrArg String.toList same
  have upTo : ∀ {chars rest : List Char}, Char.ofNat 0 ∉ chars →
      (chars ++ Char.ofNat 0 :: rest).takeWhile (· ≠ Char.ofNat 0) = chars := by
    intro chars rest clean
    rw [List.takeWhile_append_of_pos]
    · simp
    · intro char mem
      have other : char ≠ Char.ofNat 0 := fun same => clean (same ▸ mem)
      simpa using other
  have sameName : record.namespaceName.toList = other.namespaceName.toList := by
    rw [← upTo (zero_notMem_of_isValid valid), sameChars, upTo (zero_notMem_of_isValid valid')]
  rw [sameName] at sameChars
  have samePeer := (List.cons.inj (List.append_cancel_left sameChars)).2
  exact ⟨String.toList_injective sameName, String.toList_injective samePeer⟩

namespace RecordValidator

variable {validator : RecordValidator} {candidate : Candidate Key}
  {evaluate : String → AddressDecision × AddressDecision}

theorem conclude_cases :
    (∃ rejection, validator.conclude env candidate evaluate = (validator, .error rejection)) ∨
      ∃ mode, validator.conclude env candidate evaluate = (validator.remember candidate,
        .ok ⟨mode, candidate.serializedBytes, candidate.record⟩) := by
  unfold conclude
  split
  · exact Or.inl ⟨_, rfl⟩
  · exact Or.inl ⟨_, rfl⟩
  · split
    · exact Or.inr ⟨_, rfl⟩
    · exact Or.inl ⟨_, rfl⟩

theorem lt_of_checkSequence (passed : (validator.checkSequence candidate).2 = .ok ())
    {prior : ReplayEntry} (found : (validator.sweepExpiredReplayState candidate.now).sequences.get
      candidate.record.sequenceKey = some prior) : prior.sequence < candidate.sequence := by
  simp only [checkSequence, found] at passed
  exact ensure_eq_ok.mp passed

end RecordValidator

end Inversion

end Rendezvous

end TsDrp
