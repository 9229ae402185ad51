import TsDrp.HashBinding
import TsDrp.Rendezvous.Reconciliation

/-!
# Decoding an invite

An invite is a signed envelope with contacts, registry endpoints and a
capability.  `decodeInvite` takes an untrusted text apart, rebuilds the payload
in its canonical field order, checks the signature over it, and then applies the
expiry, the endpoint policy and the record validator.  What goes wrong is meant
to surface as an `InviteDecodeError`.

The shape check looks at the list of contacts but not into it, and the payload
is rebuilt outside of any handler.  A contact on which rebuilding throws is the
only way to another error.

Base64, UTF-8, JSON, keys and URLs are those of other libraries and enter through
an environment, and so does the record validator, with whatever state it keeps.
-/

namespace TsDrp.Rendezvous

open Outcome

namespace Invite

open JsValue (fieldOf)

def inviteKind : String := "ts-drp-rendezvous-invite"

def maxContacts : ℕ := 8

def maxInviteBytes : ℕ := 128 * 1024

inductive InviteDecodeErrorCode where
  | expired
  | invalidContact
  | invalidEndpoint
  | invalidIssuerSignature
  | invalidShape
deriving DecidableEq

def InviteDecodeErrorCode.text : InviteDecodeErrorCode → String
  | expired => "expired"
  | invalidContact => "invalid-contact"
  | invalidEndpoint => "invalid-endpoint"
  | invalidIssuerSignature => "invalid-issuer-signature"
  | invalidShape => "invalid-shape"

inductive InviteFailure where
  | inviteDecodeError (code : InviteDecodeErrorCode)
  | reconciliation (error : ReconciliationCapacityError)
  /-- An exception of the language that no handler caught. -/
  | uncaught (error : JsError)
deriving DecidableEq

structure Url where
  username : String
  password : String
  search : String
  hash : String
  protocol : String
  hostname : String

/-- What the invite module takes from other libraries; `none` stands for an exception. -/
structure InviteEnvironment (Key : Type) where
  format : Json.NumberFormat Double
  localeLe : String → String → Bool
  baseDecode : String → Option (List UInt8)
  baseEncode : List UInt8 → String
  /-- `decoder.decode`, which is fatal. -/
  decodeText : List UInt8 → Option String
  parse : String → Option JsValue
  publicKeyFromProtobuf : List UInt8 → Option Key
  keyType : Key → String
  verify : Key → String → List UInt8 → Option Bool
  /-- `new URL` -/
  url : String → Option Url

/-- The payload after the shape check, which leaves the contacts as they are. -/
structure InvitePayloadV1 where
  contacts : List JsValue
  expiresAtMs : JsNumber
  issuedAtMs : JsNumber
  membershipCapability : String
  namespaceName : String
  registryEndpoints : List String

/-- The envelope; its kind and its version are fixed. -/
structure InviteWireV1 where
  issuerPublicKey : String
  payload : InvitePayloadV1
  signature : String

structure VerifiedInvite where
  contacts : List ValidatedDrpRecord
  expiresAtMs : JsNumber
  issuedAtMs : JsNumber
  issuerPublicKey : String
  membershipCapability : String
  namespaceName : String
  registryEndpoints : List String
deriving DecidableEq

/-- The clock is read once.  A validator may change with every record it sees, and is taken not to
throw. -/
structure InviteDecodeOptions (Validator : Type) where
  allowInsecureLoopbackFixture : Bool
  now : JsNumber
  validatorFactory : Validator
  validate : JsValue → RecordValidationContext → Validator →
    Validator × Except RejectedRecord AcceptedRecord

def isExactObject (expectedKeys : List String) : JsValue → Option (List (String × JsValue))
  | .object fields =>
    if fields.length = expectedKeys.length ∧
        expectedKeys.all fun key => fields.any fun field => field.1 = key then some fields
    else none
  | _ => none

def safeNumberOf (value : JsValue) : Option JsNumber := do
  let number ← numberOf value
  guard number.toSafeInteger.isSome
  return number

def elementsOf : JsValue → Option (List JsValue)
  | .array elements => some elements
  | _ => none

/-- `isPayload`, with the payload it recognises. -/
def isPayload (value : JsValue) : Option InvitePayloadV1 := do
  let fields ← isExactObject ["contacts", "expiresAtMs", "issuedAtMs", "membershipCapability",
    "namespace", "registryEndpoints"] value
  let contacts ← fieldOf fields "contacts" >>= elementsOf
  guard (contacts.length ≤ maxContacts)
  let expiresAtMs ← fieldOf fields "expiresAtMs" >>= safeNumberOf
  let issuedAtMs ← fieldOf fields "issuedAtMs" >>= safeNumberOf
  guard (issuedAtMs.lt expiresAtMs)
  let membershipCapability ← fieldOf fields "membershipCapability" >>= textOf
  guard (membershipCapability ≠ "")
  let namespaceName ← fieldOf fields "namespace" >>= textOf
  let registryEndpoints ← fieldOf fields "registryEndpoints" >>= textsOf
  return { contacts, expiresAtMs, issuedAtMs, membershipCapability, namespaceName,
           registryEndpoints }

section Decoding

variable {Key Validator : Type} (env : InviteEnvironment Key)
  (options : InviteDecodeOptions Validator)

def decodeCanonicalBase64Url (value : String) : Option (List UInt8) := do
  let bytes ← env.baseDecode value
  guard (env.baseEncode bytes = value)
  return bytes

/-- The body of `parseWire`, whose every exception becomes `invalid-shape`. -/
def readWire (encoded : String) : Option InviteWireV1 := do
  let bytes ← decodeCanonicalBase64Url env encoded
  guard (bytes.length ≤ maxInviteBytes)
  let value ← env.decodeText bytes >>= env.parse
  let fields ← isExactObject ["issuerPublicKey", "kind", "payload", "signature", "version"] value
  let kind ← fieldOf fields "kind"
  guard (kind.strictEquals (.string inviteKind))
  let version ← fieldOf fields "version"
  guard (version.strictEquals (.number (.finite (.ofInt 1 Double.one_small))))
  let issuerPublicKey ← fieldOf fields "issuerPublicKey" >>= textOf
  let signature ← fieldOf fields "signature" >>= textOf
  let payload ← fieldOf fields "payload" >>= isPayload
  return { issuerPublicKey, payload, signature }

def parseWire (encoded : String) : Except InviteFailure InviteWireV1 :=
  orReject (readWire env encoded) (.inviteDecodeError .invalidShape)

/-- `[...record.name]` -/
def spreadMember (record : JsValue) (name : String) : Except JsError JsValue := do
  let value ← record.member name
  return .array (← value.spread.mapError fun _ => .typeError ("record." ++ name ++ " is not iterable"))

def canonicalizeContact (contact : JsValue) : Except JsError JsValue := do
  return .object [("kind", ← contact.member "kind"), ("version", ← contact.member "version"),
    ("namespace", ← contact.member "namespace"), ("peerId", ← contact.member "peerId"),
    ("publicKey", ← contact.member "publicKey"),
    ("addresses", ← spreadMember contact "addresses"),
    ("capabilities", ← spreadMember contact "capabilities"),
    ("sequence", ← contact.member "sequence"), ("issuedAtMs", ← contact.member "issuedAtMs"),
    ("expiresAtMs", ← contact.member "expiresAtMs"), ("signature", ← contact.member "signature")]

def canonicalizePayload (payload : InvitePayloadV1) : Except JsError InvitePayloadV1 := do
  let contacts ← payload.contacts.mapM canonicalizeContact
  return { payload with contacts }

/-- The text whose bytes are signed: the envelope in its fixed order, without the signature. -/
def canonicalUnsignedEnvelope (wire : InviteWireV1) : Except JsError String := do
  let payload ← canonicalizePayload wire.payload
  return .ofList (Json.text env.format (JsValue.toJson (.object [("kind", .string inviteKind),
    ("version", .number (.finite (.ofInt 1 Double.one_small))),
    ("issuerPublicKey", .string wire.issuerPublicKey),
    ("payload", .object [("contacts", .array payload.contacts),
      ("expiresAtMs", .number payload.expiresAtMs), ("issuedAtMs", .number payload.issuedAtMs),
      ("membershipCapability", .string payload.membershipCapability),
      ("namespace", .string payload.namespaceName),
      ("registryEndpoints", .array (payload.registryEndpoints.map .string))])])))

def decodeIssuer (value : String) : Except InviteFailure Key := do
  let key ← orReject (decodeCanonicalBase64Url env value >>= env.publicKeyFromProtobuf)
    (.inviteDecodeError .invalidIssuerSignature)
  ensure (env.keyType key = "Ed25519" ∨ env.keyType key = "secp256k1")
    (.inviteDecodeError .invalidIssuerSignature)
  return key

def decodeSignature (value : String) : Except InviteFailure (List UInt8) :=
  orReject (decodeCanonicalBase64Url env value) (.inviteDecodeError .invalidIssuerSignature)

/-- The handler around `issuer.verify` catches what building the signed bytes throws as well. -/
def verifyIssuer (issuer : Key) (wire : InviteWireV1) (signature : List UInt8) :
    Except InviteFailure Unit := do
  let envelope ← (canonicalUnsignedEnvelope env wire).mapError fun _ =>
    .inviteDecodeError .invalidIssuerSignature
  let verified ← orReject (env.verify issuer envelope signature)
    (.inviteDecodeError .invalidIssuerSignature)
  ensure verified (.inviteDecodeError .invalidIssuerSignature)

def isAllowedEndpoint (endpoint : String) : Bool :=
  match env.url endpoint with
  | none => false
  | some url =>
    if url.username ≠ "" ∨ url.password ≠ "" ∨ url.search ≠ "" ∨ url.hash ≠ "" then false
    else if url.protocol = "https:" then true
    else
      let loopback := url.hostname = "127.0.0.1" ∨ url.hostname = "localhost" ∨
        url.hostname = "[::1]"
      options.allowInsecureLoopbackFixture ∧ loopback ∧ url.protocol = "http:"

def contactContext (namespaceName : String) : RecordValidationContext where
  admission := some { accepted := true, mode := "invite", reason := none }
  expectedNamespace := namespaceName

def acceptContacts (namespaceName : String) : List JsValue → Validator →
    Except InviteFailure (List ValidatedDrpRecord)
  | [], _ => .ok []
  | contact :: rest, validator => do
      let (validator, result) := options.validate contact (contactContext namespaceName) validator
      let accepted ← result.mapError fun _ => .inviteDecodeError .invalidContact
      let others ← acceptContacts namespaceName rest validator
      return { admissionMode := accepted.admissionMode, record := accepted.record,
               sourceEndpointId := "invite" } :: others

def validateContacts (contacts : List JsValue) (namespaceName : String) :
    Except InviteFailure (List ValidatedDrpRecord) := do
  let accepted ← acceptContacts options namespaceName contacts options.validatorFactory
  (reconcileValidatedRecords env.localeLe (some maxContacts) (.infinity true) [accepted]).mapError
    .reconciliation

/-- Everything after the payload was rebuilt. -/
def checkInvite (wire : InviteWireV1) (canonicalPayload : InvitePayloadV1) :
    Except InviteFailure VerifiedInvite := do
  let issuer ← decodeIssuer env wire.issuerPublicKey
  let signature ← decodeSignature env wire.signature
  verifyIssuer env issuer { wire with payload := canonicalPayload } signature
  ensure (canonicalPayload.expiresAtMs.le options.now = false) (.inviteDecodeError .expired)
  ensure (canonicalPayload.registryEndpoints.all (isAllowedEndpoint env options))
    (.inviteDecodeError .invalidEndpoint)
  let contacts ← validateContacts env options canonicalPayload.contacts
    canonicalPayload.namespaceName
  return { contacts
           expiresAtMs := canonicalPayload.expiresAtMs
           issuedAtMs := canonicalPayload.issuedAtMs
           issuerPublicKey := wire.issuerPublicKey
           membershipCapability := canonicalPayload.membershipCapability
           namespaceName := canonicalPayload.namespaceName
           registryEndpoints := canonicalPayload.registryEndpoints }

def decodeInvite (encoded : String) : Except InviteFailure VerifiedInvite := do
  let wire ← parseWire env encoded
  let canonicalPayload ← (canonicalizePayload wire.payload).mapError .uncaught
  checkInvite env options wire canonicalPayload

end Decoding

section Rebuilding

def isIterable : JsValue → Bool
  | .array _ => true
  | .string _ => true
  | _ => false

/-- An object under whose keys `addresses` and `capabilities` there is something to spread. -/
def isSpreadable : JsValue → Bool
  | .object fields =>
    (fieldOf fields "addresses").any isIterable && (fieldOf fields "capabilities").any isIterable
  | _ => false

theorem spread_returns_iff (value : JsValue) (error : JsError → JsError) :
    (∃ elements, value.spread.mapError error = .ok elements) ↔ isIterable value = true := by
  cases value <;> simp [JsValue.spread, Except.mapError, isIterable]

theorem spreadMember_returns_iff (fields : List (String × JsValue)) (name : String) :
    (∃ value, spreadMember (.object fields) name = .ok value) ↔
      (fieldOf fields name).any isIterable = true := by
  have read : (JsValue.object fields).member name = .ok ((fieldOf fields name).getD .undefined) := rfl
  simp only [spreadMember, read, ok_bind, bind_eq_ok, pure_eq_ok]
  constructor
  · rintro ⟨_, elements, spread, _⟩
    have iterable := (spread_returns_iff _ _).mp ⟨elements, spread⟩
    cases found : fieldOf fields name with
    | none => simp [found, isIterable] at iterable
    | some value => simpa [found] using iterable
  · intro iterable
    cases found : fieldOf fields name with
    | none => simp [found] at iterable
    | some value =>
      rcases (spread_returns_iff value _).mpr (by simpa [found] using iterable) with
        ⟨elements, spread⟩
      exact ⟨_, elements, spread, rfl⟩

theorem canonicalizeContact_returns_iff (contact : JsValue) :
    (∃ canonical, canonicalizeContact contact = .ok canonical) ↔ isSpreadable contact = true := by
  cases contact with
  | object fields =>
    have read (name : String) : (JsValue.object fields).member name =
        .ok ((fieldOf fields name).getD .undefined) := rfl
    simp only [canonicalizeContact, read, ok_bind, bind_eq_ok, pure_eq_ok,
      isSpreadable, Bool.and_eq_true, ← spreadMember_returns_iff]
    constructor
    · rintro ⟨_, addresses, returned, capabilities, returned', _⟩
      exact ⟨⟨addresses, returned⟩, capabilities, returned'⟩
    · rintro ⟨⟨addresses, returned⟩, capabilities, returned'⟩
      exact ⟨_, addresses, returned, capabilities, returned', rfl⟩
  | undefined | null | bool | number | string | array =>
    simp [canonicalizeContact, spreadMember, JsValue.member, JsValue.spread, Except.mapError,
      isSpreadable]

theorem canonicalizePayload_returns_iff (payload : InvitePayloadV1) :
    (∃ canonical, canonicalizePayload payload = .ok canonical) ↔
      ∀ contact ∈ payload.contacts, isSpreadable contact = true := by
  simp only [canonicalizePayload, bind_eq_ok, pure_eq_ok]
  have each : (∃ contacts, payload.contacts.mapM canonicalizeContact = .ok contacts) ↔
      ∀ contact ∈ payload.contacts, isSpreadable contact = true := by
    simp only [mapM_returns_iff, canonicalizeContact_returns_iff]
  rw [← each]
  constructor
  · rintro ⟨_, contacts, returned, _⟩
    exact ⟨contacts, returned⟩
  · rintro ⟨contacts, returned⟩
    exact ⟨_, contacts, returned, rfl⟩

theorem length_contacts_canonicalizePayload {payload canonical : InvitePayloadV1}
    (rebuilt : canonicalizePayload payload = .ok canonical) :
    canonical.contacts.length = payload.contacts.length := by
  simp only [canonicalizePayload, bind_eq_ok, pure_eq_ok] at rebuilt
  rcases rebuilt with ⟨contacts, returned, same⟩
  cases same
  exact length_of_mapM_eq_ok returned

end Rebuilding

section Errors

variable {Key Validator : Type} {env : InviteEnvironment Key}
  {options : InviteDecodeOptions Validator}

def IsInviteDecodeError (failure : InviteFailure) : Prop :=
  ∃ code, failure = .inviteDecodeError code

theorem failsOnlyWith_ensure {condition : Prop} [Decidable condition]
    (code : InviteDecodeErrorCode) :
    FailsOnlyWith IsInviteDecodeError (ensure condition (.inviteDecodeError code)) := by
  unfold ensure
  split
  · exact .ok ()
  · exact .error ⟨code, rfl⟩

theorem failsOnlyWith_orReject {Value : Type} (value : Option Value)
    (code : InviteDecodeErrorCode) :
    FailsOnlyWith IsInviteDecodeError (orReject value (.inviteDecodeError code)) := by
  cases value with
  | some value => exact .ok value
  | none => exact .error ⟨code, rfl⟩

theorem failsOnlyWith_mapError {Error Value : Type} (run : Except Error Value)
    (code : InviteDecodeErrorCode) :
    FailsOnlyWith IsInviteDecodeError (run.mapError fun _ => .inviteDecodeError code) := by
  cases run with
  | ok value => exact .ok value
  | error error => exact .error ⟨code, rfl⟩

theorem failsOnlyWith_acceptContacts (namespaceName : String) (contacts : List JsValue)
    (validator : Validator) :
    FailsOnlyWith IsInviteDecodeError
      (acceptContacts options namespaceName contacts validator) := by
  induction contacts generalizing validator with
  | nil => exact .ok []
  | cons contact rest ih =>
    apply FailsOnlyWith.bind (failsOnlyWith_mapError _ _)
    intro accepted _
    apply FailsOnlyWith.bind (ih _)
    intro others _
    exact .ok _

theorem length_of_acceptContacts_eq_ok {namespaceName : String} {contacts : List JsValue}
    {validator : Validator} {accepted : List ValidatedDrpRecord}
    (returned : acceptContacts options namespaceName contacts validator = .ok accepted) :
    accepted.length = contacts.length := by
  induction contacts generalizing validator accepted with
  | nil =>
    cases returned
    rfl
  | cons contact rest ih =>
    rcases bind_eq_ok.mp returned with ⟨first, _, returned⟩
    rcases bind_eq_ok.mp returned with ⟨others, returnedRest, same⟩
    cases same
    rw [List.length_cons, List.length_cons, ih returnedRest]

theorem failsOnlyWith_validateContacts {contacts : List JsValue} (namespaceName : String)
    (few : contacts.length ≤ maxContacts) :
    FailsOnlyWith IsInviteDecodeError (validateContacts env options contacts namespaceName) := by
  apply FailsOnlyWith.bind (failsOnlyWith_acceptContacts _ _ _)
  intro accepted returned
  have fits : accepted.length ≤ maxContacts := by
    rw [length_of_acceptContacts_eq_ok returned]
    exact few
  rcases reconcileValidatedRecords_returns env.localeLe (.infinity true) fits with ⟨kept, returned⟩
  rw [returned]
  exact .ok kept

theorem failsOnlyWith_checkInvite (wire : InviteWireV1) {payload : InvitePayloadV1}
    (few : payload.contacts.length ≤ maxContacts) :
    FailsOnlyWith IsInviteDecodeError (checkInvite env options wire payload) := by
  have issuer : FailsOnlyWith IsInviteDecodeError (decodeIssuer env wire.issuerPublicKey) := by
    apply FailsOnlyWith.bind (failsOnlyWith_orReject _ _)
    intro key _
    apply FailsOnlyWith.bind (failsOnlyWith_ensure _)
    exact fun _ _ => .ok key
  have signed (key : Key) (signature : List UInt8) :
      FailsOnlyWith IsInviteDecodeError (verifyIssuer env key { wire with payload } signature) := by
    apply FailsOnlyWith.bind (failsOnlyWith_mapError _ _)
    intro envelope _
    apply FailsOnlyWith.bind (failsOnlyWith_orReject _ _)
    exact fun verified _ => failsOnlyWith_ensure _
  apply issuer.bind
  intro key _
  apply FailsOnlyWith.bind (failsOnlyWith_orReject _ _)
  intro signature _
  apply (signed key signature).bind
  intro _ _
  apply FailsOnlyWith.bind (failsOnlyWith_ensure _)
  intro _ _
  apply FailsOnlyWith.bind (failsOnlyWith_ensure _)
  intro _ _
  apply (failsOnlyWith_validateContacts _ few).bind
  exact fun contacts _ => .ok _

theorem contacts_le_of_parseWire {encoded : String} {wire : InviteWireV1}
    (parsed : parseWire env encoded = .ok wire) : wire.payload.contacts.length ≤ maxContacts := by
  simp only [parseWire, orReject_eq_ok, readWire, Option.bind_eq_bind, Option.bind_eq_some_iff,
    Option.pure_def, Option.some.injEq, Option.guard_eq_some'] at parsed
  rcases parsed with ⟨_, _, _, _, _, _, _, _, _, _, _, _, _, _, _, _, _, _, _, _, payload,
    ⟨value, _, recognised⟩, rfl⟩
  simp only [isPayload, Option.bind_eq_bind, Option.bind_eq_some_iff, Option.pure_def,
    Option.some.injEq, Option.guard_eq_some'] at recognised
  rcases recognised with ⟨_, _, contacts, _, _, few, _, _, _, _, _, _, _, _, _, _, _, _, _, _, rfl⟩
  exact few

/--
Decoding fails only with the typed error if and only if every contact of the
envelope can be rebuilt: it is an object whose `addresses` and `capabilities` are
arrays or strings.
-/
theorem decodeInvite_fails_typed_iff (env : InviteEnvironment Key)
    (options : InviteDecodeOptions Validator) (encoded : String) :
    (∀ failure, decodeInvite env options encoded = .error failure →
        ∃ code, failure = .inviteDecodeError code) ↔
      ∀ wire, parseWire env encoded = .ok wire →
        ∀ contact ∈ wire.payload.contacts, isSpreadable contact = true := by
  constructor
  · intro typed wire parsed
    rw [← canonicalizePayload_returns_iff]
    cases rebuilt : canonicalizePayload wire.payload with
    | ok canonical => exact ⟨canonical, rfl⟩
    | error error =>
      have failed : decodeInvite env options encoded = .error (.uncaught error) := by
        simp only [decodeInvite, parsed, rebuilt, ok_bind]
        rfl
      rcases typed _ failed with ⟨code, same⟩
      cases same
  · intro spreadable
    apply FailsOnlyWith.bind (failsOnlyWith_orReject _ _)
    intro wire parsed
    rcases (canonicalizePayload_returns_iff _).mpr (spreadable wire parsed) with
      ⟨canonical, rebuilt⟩
    rw [rebuilt]
    apply failsOnlyWith_checkInvite
    rw [length_contacts_canonicalizePayload rebuilt]
    exact contacts_le_of_parseWire parsed

end Errors

namespace Example

def envelope (contact : JsValue) : JsValue :=
  .object [("issuerPublicKey", .string "AA"), ("kind", .string inviteKind),
    ("payload", .object [("contacts", .array [contact]),
      ("expiresAtMs", .number (.finite (.ofInt 2 Double.two_small))),
      ("issuedAtMs", .number (.finite (.ofInt 1 Double.one_small))),
      ("membershipCapability", .string "capability"), ("namespace", .string "room"),
      ("registryEndpoints", .array [])]),
    ("signature", .string "AA"), ("version", .number (.finite (.ofInt 1 Double.one_small)))]

def environment (contact : JsValue) : InviteEnvironment Unit where
  format := BindingExample.exactFormat
  localeLe := fun _ _ => true
  baseDecode := fun text => if text = "AA" then some [0] else none
  baseEncode := fun _ => "AA"
  decodeText := fun _ => some "envelope"
  parse := fun _ => some (envelope contact)
  publicKeyFromProtobuf := fun _ => some ()
  keyType := fun _ => "Ed25519"
  verify := fun _ _ _ => some true
  url := fun _ => none

def options : InviteDecodeOptions Unit where
  allowInsecureLoopbackFixture := false
  now := .finite (.ofInt 1 Double.one_small)
  validatorFactory := ()
  validate := fun _ _ _ => ((), .error (reject .invalidShape))

/-- `null` cannot be read and an empty object has nothing to spread, both outside of any handler. -/
theorem contact_escapes_handlers :
    decodeInvite (environment .null) options "AA" =
        .error (.uncaught (.typeError "Cannot read properties of null (reading 'kind')")) ∧
      decodeInvite (environment (.object [])) options "AA" =
        .error (.uncaught (.typeError "record.addresses is not iterable")) :=
  ⟨rfl, rfl⟩

end Example

end Invite

end TsDrp.Rendezvous
