import TsDrp.Library.Cooperative
import TsDrp.Rendezvous.Record

/-!
# Admission by proof of work

An `AdmissionPolicy` in proof-of-work mode hands out challenges and admits who
returns one with a counter that makes its digest small enough.  An evaluation
looks the challenge up and tests that it is unused, then waits for a tag and for
a digest, and only then marks it as used.  The challenge is an object that the
waiting evaluation holds on to, whatever becomes of the map of challenges; the
objects are listed here, and the map refers to them by their places.
-/

namespace TsDrp.Rendezvous

open Cooperative

structure ProofOfWorkChallengeV1 where
  clientId : String
  difficultyBits : ℕ
  expiresAtMs : ℤ
  issuedAtMs : ℤ
  namespaceName : String
  nonce : String
  peerId : String
  tag : String

structure ProofOfWorkLimits where
  challengeTtlMs : ℕ
  maxDifficultyBits : ℕ
  maxIterations : ℕ
  maxOutstandingChallenges : ℕ
  minDifficultyBits : ℕ
  pressureStep : ℕ

def defaultProofOfWorkLimits : ProofOfWorkLimits where
  challengeTtlMs := 30000
  maxDifficultyBits := 15
  maxIterations := 262144
  maxOutstandingChallenges := 128
  minDifficultyBits := 8
  pressureStep := 16

structure StoredChallenge where
  challenge : ProofOfWorkChallengeV1
  used : Bool

/-- The digests the policy is built on; the secret is part of the first. -/
structure ProofEnvironment where
  hmacBase64Url : String → String
  sha256 : String → List UInt8

/-- The challenges that were ever stored, and the places of those in the map, by nonce. -/
structure AdmissionPolicy where
  limits : ProofOfWorkLimits
  stored : List StoredChallenge
  proofChallenges : InsertionMap String ℕ

inductive RegistryRejectionCode where
  | admissionRejected
  | clientCapacityExceeded
  | endpointUnavailable
  | invalidClient
  | namespaceCapacityExceeded
  | proofChallengeCapacity
  | proofChallengeExpired
  | proofChallengeInvalid
  | proofChallengeReplayed
  | quotaExceeded
  | rateLimited
  | recordRejected
  | responseCapExceeded
deriving DecidableEq

structure RegistryRejection where
  code : RegistryRejectionCode
  detail : Option String
deriving DecidableEq

/-- `CLIENT_ID_PATTERN`: one to 64 characters of the alphabet of `base64url`. -/
def isClientId (clientId : String) : Bool :=
  1 ≤ clientId.toList.length && clientId.toList.length ≤ 64 && clientId.toList.all isBase64Url

def member (name : String) (value : List Char) : List Char :=
  Json.quote name ++ ':' :: value

/-- `JSON.stringify` of a challenge without its tag, up to the closing brace. -/
def unsignedMembers (challenge : ProofOfWorkChallengeV1) : List Char :=
  (([',']).intercalate [member "clientId" (Json.quote challenge.clientId),
    member "difficultyBits" (toString challenge.difficultyBits).toList,
    member "expiresAtMs" (toString challenge.expiresAtMs).toList,
    member "issuedAtMs" (toString challenge.issuedAtMs).toList,
    member "kind" (Json.quote "ts-drp-registry-proof"),
    member "namespace" (Json.quote challenge.namespaceName),
    member "nonce" (Json.quote challenge.nonce), member "peerId" (Json.quote challenge.peerId),
    member "version" ['1']])

def unsignedText (challenge : ProofOfWorkChallengeV1) : String :=
  .ofList (Json.leftBrace :: (unsignedMembers challenge ++ [Json.rightBrace]))

/-- `JSON.stringify` of a challenge with its tag. -/
def challengeText (challenge : ProofOfWorkChallengeV1) : String :=
  .ofList (Json.leftBrace :: (unsignedMembers challenge ++
    ',' :: (member "tag" (Json.quote challenge.tag) ++ [Json.rightBrace])))

def hasLeadingZeroBits : List UInt8 → ℕ → Bool
  | [], remaining => remaining = 0
  | byte :: rest, remaining =>
    if remaining = 0 then true
    else if byte.toNat >>> (8 - min 8 remaining) ≠ 0 then false
    else hasLeadingZeroBits rest (remaining - min 8 remaining)

/--
What a client presents.  Of the challenge that it returns the policy reads the
nonce, if that is a string, and the JSON text.
-/
structure ProofOfWorkCredential where
  nonce : Option String
  challengeText : String
  counter : JsNumber

/-- A request to be admitted; the other kind of credential is an invitation. -/
structure AdmissionRequest where
  clientId : String
  credential : Option ProofOfWorkCredential
  namespaceName : String
  peerId : String

def grant : AdmissionDecision := ⟨true, "proof-of-work", none⟩

def refuse (reason : String) : AdmissionDecision := ⟨false, "proof-of-work", some reason⟩

namespace AdmissionPolicy

variable (env : ProofEnvironment) (policy : AdmissionPolicy)

def find (nonce : String) : Option (ℕ × StoredChallenge) := do
  let place ← policy.proofChallenges.get nonce
  let stored ← policy.stored[place]?
  return (place, stored)

def sweepChallenges (now : ℤ) : AdmissionPolicy :=
  { policy with proofChallenges := policy.proofChallenges.filter fun entry =>
      match policy.stored[entry.2]? with
      | none => false
      | some stored => now < stored.challenge.expiresAtMs }

/-- The unused challenge of a client that is found first. -/
def outstanding (namespaceName clientId peerId : String) : Option StoredChallenge :=
  (policy.proofChallenges.values.filterMap (policy.stored[·]?)).find? fun stored =>
    !stored.used && stored.challenge.clientId = clientId && stored.challenge.peerId = peerId &&
      stored.challenge.namespaceName = namespaceName

def difficultyBits : ℕ :=
  min policy.limits.maxDifficultyBits
    (policy.limits.minDifficultyBits + policy.proofChallenges.size / policy.limits.pressureStep)

/--
The first part of `issueChallenge`: an outstanding challenge is returned again, a
new one waits for its tag.  The clock is read for the sweep and for the times.
-/
def beginIssue (namespaceName clientId peerId nonce : String) (swept issuedAtMs : ℤ) :
    AdmissionPolicy × Except RegistryRejection (ProofOfWorkChallengeV1 ⊕ ProofOfWorkChallengeV1) :=
  if ¬isClientId clientId ∨ clientId ≠ peerId then
    (policy, .error ⟨.proofChallengeInvalid, some "invalid challenge binding"⟩)
  else
    let policy := policy.sweepChallenges swept
    match policy.outstanding namespaceName clientId peerId with
    | some stored => (policy, .ok (.inl stored.challenge))
    | none =>
      if policy.limits.maxOutstandingChallenges ≤ policy.proofChallenges.size then
        (policy, .error ⟨.proofChallengeCapacity, none⟩)
      else (policy, .ok (.inr
        { clientId, difficultyBits := policy.difficultyBits
          expiresAtMs := issuedAtMs + policy.limits.challengeTtlMs, issuedAtMs, namespaceName, nonce
          peerId, tag := "" }))

/-- The rest of `issueChallenge`, once the tag is there. -/
def finishIssue (challenge : ProofOfWorkChallengeV1) : AdmissionPolicy × ProofOfWorkChallengeV1 :=
  let challenge := { challenge with tag := env.hmacBase64Url (unsignedText challenge) }
  ({ policy with
      stored := policy.stored ++ [{ challenge, used := false }]
      proofChallenges := policy.proofChallenges.set challenge.nonce policy.stored.length },
    challenge)

def Matches (request : AdmissionRequest) (credential : ProofOfWorkCredential)
    (challenge : ProofOfWorkChallengeV1) : Prop :=
  challengeText challenge = credential.challengeText ∧
    challenge.namespaceName = request.namespaceName ∧ challenge.clientId = request.clientId ∧
    challenge.peerId = request.peerId

instance (request : AdmissionRequest) (credential : ProofOfWorkCredential)
    (challenge : ProofOfWorkChallengeV1) : Decidable (Matches request credential challenge) :=
  inferInstanceAs (Decidable (_ ∧ _))

/-- The first part of `verifyProof`: a decision, or the challenge with its place and the counter. -/
def beginVerify (request : AdmissionRequest) (now : ℤ) :
    AdmissionPolicy × Except AdmissionDecision (ℕ × ProofOfWorkChallengeV1 × ℤ) :=
  match request.credential with
  | none => (policy, .error (refuse "proof-missing"))
  | some credential =>
    match credential.nonce.bind policy.find with
    | none => (policy, .error (refuse "proof-challenge-invalid"))
    | some (place, stored) =>
      if stored.used then (policy, .error (refuse "proof-challenge-replayed"))
      else if stored.challenge.expiresAtMs ≤ now then
        ({ policy with proofChallenges := policy.proofChallenges.delete stored.challenge.nonce },
          .error (refuse "proof-challenge-expired"))
      else
        match credential.counter.toSafeInteger with
        | none => (policy, .error (refuse "proof-challenge-invalid"))
        | some counter =>
          if Matches request credential stored.challenge ∧ 0 ≤ counter ∧
              counter < policy.limits.maxIterations then
            (policy, .ok (place, stored.challenge, counter))
          else (policy, .error (refuse "proof-challenge-invalid"))

def markUsed (place : ℕ) : AdmissionPolicy :=
  { policy with stored := policy.stored.modify place fun stored => { stored with used := true } }

end AdmissionPolicy

def ProofEnvironment.authentic (env : ProofEnvironment) (challenge : ProofOfWorkChallengeV1) : Bool :=
  challenge.tag = env.hmacBase64Url (unsignedText challenge)

def ProofEnvironment.solves (env : ProofEnvironment) (challenge : ProofOfWorkChallengeV1)
    (counter : ℤ) : Bool :=
  hasLeadingZeroBits (env.sha256 (challengeText challenge ++ ":" ++ toString counter))
    challenge.difficultyBits

/-- A challenge that waits for its tag, or an evaluation that waits for a tag or a digest. -/
inductive Admitting where
  | issuing (challenge : ProofOfWorkChallengeV1)
  | tagging (place : ℕ) (challenge : ProofOfWorkChallengeV1) (counter : ℤ)
  | digesting (place : ℕ) (challenge : ProofOfWorkChallengeV1) (counter : ℤ)

/-- A policy, the challenges it has returned, and its decisions with the nonces they are about. -/
structure PolicyRun where
  policy : AdmissionPolicy
  issued : List (Except RegistryRejection ProofOfWorkChallengeV1)
  decisions : List (Option String × AdmissionDecision)

/-- A call with the readings of the clock it makes, and the nonce that is drawn for it. -/
inductive PolicyRequest where
  | issueChallenge (namespaceName clientId peerId nonce : String) (swept issuedAtMs : ℤ)
  | evaluate (request : AdmissionRequest) (now : ℤ)

/-- A digest is there, or its computation has failed with an exception. -/
inductive PolicyEvent where
  | settled
  | failed

namespace PolicyRun

variable (run : PolicyRun)

def issues (result : Except RegistryRejection ProofOfWorkChallengeV1) : PolicyRun :=
  { run with issued := run.issued ++ [result] }

def decides (nonce : Option String) (decision : AdmissionDecision) : PolicyRun :=
  { run with decisions := run.decisions ++ [(nonce, decision)] }

/-- The decisions by which a nonce was admitted. -/
def admissions (nonce : String) : List (Option String × AdmissionDecision) :=
  run.decisions.filter fun decided => decided.1 = some nonce ∧ decided.2.accepted

end PolicyRun

section Program

variable (env : ProofEnvironment)

def beginAdmission (request : PolicyRequest) (run : PolicyRun) : PolicyRun × Option Admitting :=
  match request with
  | .issueChallenge namespaceName clientId peerId nonce swept issuedAtMs =>
    let begun := run.policy.beginIssue namespaceName clientId peerId nonce swept issuedAtMs
    let run := { run with policy := begun.1 }
    match begun.2 with
    | .error rejection => (run.issues (.error rejection), none)
    | .ok (.inl challenge) => (run.issues (.ok challenge), none)
    | .ok (.inr challenge) => (run, some (.issuing challenge))
  | .evaluate request now =>
    let begun := run.policy.beginVerify request now
    let run := { run with policy := begun.1 }
    match begun.2 with
    | .error decision => (run.decides (request.credential.bind (·.nonce)) decision, none)
    | .ok (place, challenge, counter) => (run, some (.tagging place challenge counter))

def continueAdmission (event : PolicyEvent) (task : Admitting) (run : PolicyRun) :
    PolicyRun × Option Admitting :=
  match event, task with
  | .failed, _ => (run, none)
  | .settled, .issuing challenge =>
    let finished := run.policy.finishIssue env challenge
    ({ run with policy := finished.1 }.issues (.ok finished.2), none)
  | .settled, .tagging place challenge counter =>
    if env.authentic challenge then (run, some (.digesting place challenge counter))
    else (run.decides (some challenge.nonce) (refuse "proof-challenge-invalid"), none)
  | .settled, .digesting place challenge counter =>
    if env.solves challenge counter then
      ({ run with policy := run.policy.markUsed place }.decides (some challenge.nonce) grant, none)
    else (run.decides (some challenge.nonce) (refuse "proof-insufficient"), none)

/-- Calls of `issueChallenge` and `evaluate` on one policy in proof-of-work mode. -/
def admission : Program PolicyRun Admitting PolicyRequest PolicyEvent where
  start := beginAdmission
  resume := continueAdmission env

def unusedPolicy (limits : ProofOfWorkLimits) : Config PolicyRun Admitting where
  shared := { policy := { limits, stored := [], proofChallenges := .empty }, issued := [], decisions := [] }
  tasks := []

end Program

def Admitting.evaluates : Admitting → Option (ℕ × ProofOfWorkChallengeV1 × ℤ)
  | .issuing _ => none
  | .tagging place challenge counter => some (place, challenge, counter)
  | .digesting place challenge counter => some (place, challenge, counter)

def Admitting.pendingNonce : Admitting → Option String
  | .issuing challenge => some challenge.nonce
  | _ => none

def AdmissionPolicy.presented (policy : AdmissionPolicy) (request : AdmissionRequest) :
    Option (ℕ × ProofOfWorkChallengeV1 × ℤ) := do
  let credential ← request.credential
  let (place, stored) ← credential.nonce.bind policy.find
  let counter ← credential.counter.toSafeInteger
  return (place, stored.challenge, counter)

/--
A nonce that is drawn was never drawn before.  A request with a counter that
solves its challenge comes while no other one that solves it is under way.
-/
def Exclusive (env : ProofEnvironment) (config : Config PolicyRun Admitting) :
    Action PolicyRequest PolicyEvent → Prop
  | .start (.issueChallenge _ _ _ nonce _ _) =>
    (∀ stored ∈ config.shared.policy.stored, stored.challenge.nonce ≠ nonce) ∧
      ∀ task ∈ config.tasks, task.pendingNonce ≠ some nonce
  | .start (.evaluate request _) =>
    ∀ presented ∈ config.shared.policy.presented request,
      env.solves presented.2.1 presented.2.2 = true →
        ∀ task ∈ config.tasks, ∀ other ∈ task.evaluates, other.1 = presented.1 →
          env.solves other.2.1 other.2.2 = false
  | .resume _ _ => True

instance (env : ProofEnvironment) (config : Config PolicyRun Admitting)
    (action : Action PolicyRequest PolicyEvent) : Decidable (Exclusive env config action) := by
  unfold Exclusive
  split <;> infer_instance

section Cases

variable {env : ProofEnvironment} {policy : AdmissionPolicy}

theorem beginIssue_cases (policy : AdmissionPolicy) (namespaceName clientId peerId nonce : String)
    (swept issuedAtMs : ℤ) :
    ∃ next outcome, next.stored = policy.stored ∧
      policy.beginIssue namespaceName clientId peerId nonce swept issuedAtMs = (next, outcome) ∧
      ∀ challenge, outcome = .ok (.inr challenge) → challenge.nonce = nonce := by
  unfold AdmissionPolicy.beginIssue
  split
  case isTrue => exact ⟨policy, _, rfl, rfl, by simp⟩
  case isFalse =>
    dsimp only
    split
    case h_1 stored _ => exact ⟨policy.sweepChallenges swept, _, rfl, rfl, by simp⟩
    case h_2 =>
      split
      case isTrue => exact ⟨policy.sweepChallenges swept, _, rfl, rfl, by simp⟩
      case isFalse =>
        refine ⟨policy.sweepChallenges swept, _, rfl, rfl, fun challenge same => ?_⟩
        cases same
        rfl

/--
Everything the first part of `verifyProof` can do: it refuses, or goes on with an
unused challenge that the request presents.
-/
theorem beginVerify_cases (policy : AdmissionPolicy) (request : AdmissionRequest) (now : ℤ) :
    (∃ next reason, next.stored = policy.stored ∧
      policy.beginVerify request now = (next, .error (refuse reason))) ∨
    ∃ place challenge counter,
      policy.presented request = some (place, challenge, counter) ∧
      policy.stored[place]? = some ⟨challenge, false⟩ ∧
      policy.beginVerify request now = (policy, .ok (place, challenge, counter)) := by
  unfold AdmissionPolicy.beginVerify
  split
  case h_1 => exact Or.inl ⟨policy, _, rfl, rfl⟩
  case h_2 credential presents =>
    split
    case h_1 => exact Or.inl ⟨policy, _, rfl, rfl⟩
    case h_2 place stored found =>
      split
      case isTrue => exact Or.inl ⟨policy, _, rfl, rfl⟩
      case isFalse unused =>
        split
        case isTrue =>
          refine Or.inl ⟨_, _, ?_, rfl⟩
          rfl
        case isFalse =>
          split
          case h_1 => exact Or.inl ⟨policy, _, rfl, rfl⟩
          case h_2 counter safe =>
            split
            case isFalse => exact Or.inl ⟨policy, _, rfl, rfl⟩
            case isTrue =>
              refine Or.inr ⟨place, stored.challenge, counter, ?_, ?_, rfl⟩
              · simp [AdmissionPolicy.presented, presents, found, safe]
              · rcases Option.bind_eq_some_iff.mp found with ⟨nonce, _, found⟩
                simp only [AdmissionPolicy.find, Option.bind_eq_bind, Option.bind_eq_some_iff,
                  Option.pure_def, Option.some.injEq, Prod.mk.injEq] at found
                rcases found with ⟨_, _, _, stored', rfl, rfl⟩
                rw [stored', ← Bool.eq_false_iff.mpr unused]

end Cases

section Invariant

variable {env : ProofEnvironment} {run : PolicyRun}

structure PolicyRun.Sound (run : PolicyRun) : Prop where
  nonces : (run.policy.stored.map (·.challenge.nonce)).Nodup
  once : ∀ nonce, (run.admissions nonce).length ≤ 1
  used : ∀ nonce, run.admissions nonce ≠ [] →
    ∃ stored ∈ run.policy.stored, stored.challenge.nonce = nonce ∧ stored.used = true

def PolicyRun.Owns (env : ProofEnvironment) (run : PolicyRun) (task : Admitting) : Prop :=
  (∀ nonce ∈ task.pendingNonce, ∀ stored ∈ run.policy.stored, stored.challenge.nonce ≠ nonce) ∧
    ∀ evaluated ∈ task.evaluates, ∃ stored, run.policy.stored[evaluated.1]? = some stored ∧
      stored.challenge = evaluated.2.1 ∧
      (env.solves evaluated.2.1 evaluated.2.2 = true → stored.used = false)

/-- Two calls do not store the same nonce, and do not both solve one challenge. -/
def Admitting.Apart (env : ProofEnvironment) (task other : Admitting) : Prop :=
  (∀ nonce ∈ task.pendingNonce, other.pendingNonce ≠ some nonce) ∧
    ∀ evaluated ∈ task.evaluates, ∀ evaluated' ∈ other.evaluates, evaluated.1 = evaluated'.1 →
      env.solves evaluated.2.1 evaluated.2.2 = true →
        env.solves evaluated'.2.1 evaluated'.2.2 = false

theorem Admitting.Apart.symm {task other : Admitting} (apart : task.Apart env other) :
    other.Apart env task := by
  refine ⟨fun nonce pending pending' => apart.1 nonce pending' pending,
    fun evaluated mem evaluated' mem' samePlace solves => ?_⟩
  by_contra solves'
  have fails := apart.2 evaluated' mem' evaluated mem samePlace.symm (Bool.not_eq_false _ ▸ solves')
  rw [solves] at fails
  cases fails

@[simp]
theorem admissions_decides_refuse (nonce : Option String) (reason named : String) :
    (run.decides nonce (refuse reason)).admissions named = run.admissions named := by
  simp [PolicyRun.decides, PolicyRun.admissions, refuse]

theorem admissions_decides_grant (nonce named : String) :
    (run.decides (some nonce) grant).admissions named =
      run.admissions named ++ if nonce = named then [(some nonce, grant)] else [] := by
  by_cases same : nonce = named <;>
    simp [PolicyRun.decides, PolicyRun.admissions, grant, same]

theorem PolicyRun.Sound.of_same {other : PolicyRun} (sound : run.Sound)
    (stored : other.policy.stored = run.policy.stored)
    (admissions : ∀ nonce, other.admissions nonce = run.admissions nonce) : other.Sound := by
  refine ⟨stored ▸ sound.nonces, fun nonce => admissions nonce ▸ sound.once nonce, fun nonce => ?_⟩
  rw [admissions, stored]
  exact sound.used nonce

theorem PolicyRun.Owns.of_same {other : PolicyRun} {task : Admitting} (owns : run.Owns env task)
    (stored : other.policy.stored = run.policy.stored) : other.Owns env task := by
  unfold PolicyRun.Owns
  rw [stored]
  exact owns

theorem PolicyRun.Sound.finishIssue (sound : run.Sound) {challenge : ProofOfWorkChallengeV1}
    (fresh : ∀ stored ∈ run.policy.stored, stored.challenge.nonce ≠ challenge.nonce)
    (result : Except RegistryRejection ProofOfWorkChallengeV1) :
    ({ run with policy := (run.policy.finishIssue env challenge).1 }.issues result).Sound := by
  refine ⟨?_, sound.once, fun nonce some => ?_⟩
  · simp only [PolicyRun.issues, AdmissionPolicy.finishIssue, List.map_append, List.map_cons,
      List.map_nil]
    refine sound.nonces.append (List.nodup_singleton _) (List.disjoint_singleton.mpr fun mem => ?_)
    rcases List.mem_map.mp mem with ⟨stored, storedMem, same⟩
    exact fresh stored storedMem same
  · rcases sound.used nonce some with ⟨stored, mem, facts⟩
    exact ⟨stored, List.mem_append_left _ mem, facts⟩

theorem PolicyRun.Owns.finishIssue {task : Admitting} (owns : run.Owns env task)
    {challenge : ProofOfWorkChallengeV1} (apart : task.pendingNonce ≠ some challenge.nonce)
    (result : Except RegistryRejection ProofOfWorkChallengeV1) :
    ({ run with policy := (run.policy.finishIssue env challenge).1 }.issues result).Owns env task := by
  refine ⟨fun nonce pending stored mem => ?_, fun evaluated mem => ?_⟩
  · rcases List.mem_append.mp mem with old | new
    · exact owns.1 nonce pending stored old
    · rw [List.mem_singleton.mp new]
      exact fun same => apart (pending.trans (congrArg some same.symm))
  · rcases owns.2 evaluated mem with ⟨stored, found, facts⟩
    refine ⟨stored, ?_, facts⟩
    exact (List.getElem?_append_left (List.getElem?_eq_some_iff.mp found).1).trans found

theorem getElem?_markUsed (policy : AdmissionPolicy) (place index : ℕ) :
    (policy.markUsed place).stored[index]? = policy.stored[index]?.map fun stored =>
      if place = index then { stored with used := true } else stored := by
  simp only [AdmissionPolicy.markUsed, List.getElem?_modify]
  cases policy.stored[index]? with
  | none => rfl
  | some stored => by_cases same : place = index <;> simp [same]

theorem nonces_markUsed (policy : AdmissionPolicy) (place : ℕ) :
    (policy.markUsed place).stored.map (·.challenge.nonce) =
      policy.stored.map (·.challenge.nonce) := by
  apply List.ext_getElem?
  intro index
  rw [List.getElem?_map, List.getElem?_map, getElem?_markUsed, Option.map_map]
  congr 1
  funext stored
  by_cases same : place = index <;> simp [same]

theorem PolicyRun.Sound.markUsed (sound : run.Sound) {place : ℕ} {stored : StoredChallenge}
    (found : run.policy.stored[place]? = some stored) (unused : stored.used = false) :
    ({ run with policy := run.policy.markUsed place }.decides (some stored.challenge.nonce)
      Rendezvous.grant).Sound := by
  have marked : ∀ {index : ℕ} {other : StoredChallenge}, run.policy.stored[index]? = some other →
      other.used = true ∨ index = place →
        ∃ stored ∈ (run.policy.markUsed place).stored,
          stored.challenge.nonce = other.challenge.nonce ∧ stored.used = true := by
    intro index other found used
    refine ⟨if place = index then { other with used := true } else other, ?_, ?_⟩
    · apply List.mem_of_getElem?
      rw [getElem?_markUsed, found, Option.map_some]
    · split
      case isTrue => exact ⟨rfl, rfl⟩
      case isFalse different => exact ⟨rfl, used.resolve_right fun same => different same.symm⟩
  have unadmitted : run.admissions stored.challenge.nonce = [] := by
    by_contra admitted
    rcases sound.used _ admitted with ⟨other, mem, sameNonce, used⟩
    have same := List.inj_on_of_nodup_map sound.nonces mem (List.mem_of_getElem? found) sameNonce
    rw [same, unused] at used
    cases used
  refine ⟨?_, fun nonce => ?_, fun nonce admitted => ?_⟩
  · change ((run.policy.markUsed place).stored.map _).Nodup
    rw [nonces_markUsed]
    exact sound.nonces
  · rw [admissions_decides_grant, List.length_append]
    split
    case isTrue same =>
      change (run.admissions nonce).length + 1 ≤ 1
      rw [← same, unadmitted]
      exact le_rfl
    case isFalse => exact sound.once nonce
  · rw [admissions_decides_grant] at admitted
    split at admitted
    case isTrue same => exact same ▸ marked found (Or.inr rfl)
    case isFalse =>
      rw [List.append_nil] at admitted
      rcases sound.used nonce admitted with ⟨other, mem, rfl, used⟩
      rcases List.mem_iff_getElem?.mp mem with ⟨index, at_⟩
      exact marked at_ (Or.inl used)

theorem PolicyRun.Owns.markUsed {task : Admitting} (owns : run.Owns env task) {place : ℕ}
    (apart : ∀ evaluated ∈ task.evaluates, place = evaluated.1 →
      env.solves evaluated.2.1 evaluated.2.2 = false) (nonce : Option String) :
    ({ run with policy := run.policy.markUsed place }.decides nonce Rendezvous.grant).Owns env
      task := by
  refine ⟨fun pending isPending stored mem => ?_, fun evaluated mem => ?_⟩
  · have sameNonces := nonces_markUsed run.policy place
    have present : stored.challenge.nonce ∈
        (run.policy.markUsed place).stored.map (·.challenge.nonce) := List.mem_map_of_mem mem
    rw [sameNonces] at present
    rcases List.mem_map.mp present with ⟨other, otherMem, sameNonce⟩
    rw [← sameNonce]
    exact owns.1 pending isPending other otherMem
  · rcases owns.2 evaluated mem with ⟨stored, found, sameChallenge, unused⟩
    change ∃ stored, (run.policy.markUsed place).stored[evaluated.1]? = some stored ∧ _
    rw [getElem?_markUsed, found, Option.map_some]
    refine ⟨_, rfl, ?_, fun solves => ?_⟩
    · split <;> exact sameChallenge
    · split
      case isTrue same =>
        rw [apart evaluated mem same] at solves
        cases solves
      case isFalse => exact unused solves

abbrev Accountable (env : ProofEnvironment) (config : Config PolicyRun Admitting) : Prop :=
  Program.Outline PolicyRun.Sound (PolicyRun.Owns env) (Admitting.Apart env) config

variable {config : Config PolicyRun Admitting} {shared : PolicyRun} {task : Option Admitting}

section

variable (outline : Accountable env config)
include outline

theorem Accountable.of_same (stored : shared.policy.stored = config.shared.policy.stored)
    (admissions : ∀ nonce, shared.admissions nonce = config.shared.admissions nonce) :
    shared.Sound ∧ ∀ other ∈ config.tasks, shared.Owns env other :=
  ⟨outline.shared.of_same stored admissions,
    fun other mem => (outline.owns other mem).of_same stored⟩

theorem guarantee_beginIssue {namespaceName clientId peerId nonce : String} {swept issuedAtMs : ℤ}
    (exclusive : Exclusive env config
      (.start (.issueChallenge namespaceName clientId peerId nonce swept issuedAtMs)))
    (begun : beginAdmission (.issueChallenge namespaceName clientId peerId nonce swept issuedAtMs)
      config.shared = (shared, task)) :
    (shared.Sound ∧ ∀ other ∈ config.tasks, shared.Owns env other) ∧
      ∀ new ∈ task, shared.Owns env new ∧ ∀ other ∈ config.tasks, other.Apart env new := by
  rcases exclusive with ⟨unstored, undrawn⟩
  rcases beginIssue_cases config.shared.policy namespaceName clientId peerId nonce swept
    issuedAtMs with ⟨next, outcome, stored, run, sameNonce⟩
  simp only [beginAdmission, run] at begun
  cases outcome with
  | error rejection =>
    cases begun
    exact ⟨outline.of_same stored fun _ => rfl, by simp⟩
  | ok result =>
    cases result with
    | inl challenge =>
      cases begun
      exact ⟨outline.of_same stored fun _ => rfl, by simp⟩
    | inr challenge =>
      cases begun
      refine ⟨outline.of_same stored fun _ => rfl, fun new isNew => ?_⟩
      cases Option.mem_some.mp isNew
      have drawn := sameNonce challenge rfl
      refine ⟨⟨fun pending isPending other mem => ?_, fun _ mem => nomatch mem⟩,
        fun other mem => ⟨fun pending isPending same => ?_, fun _ _ _ mem => nomatch mem⟩⟩
      · cases Option.some.inj isPending
        rw [stored] at mem
        rw [drawn]
        exact unstored other mem
      · cases Option.some.inj same
        rw [drawn] at isPending
        exact undrawn other mem isPending

theorem guarantee_beginVerify {request : AdmissionRequest} {now : ℤ}
    (exclusive : Exclusive env config (.start (.evaluate request now)))
    (begun : beginAdmission (.evaluate request now) config.shared = (shared, task)) :
    (shared.Sound ∧ ∀ other ∈ config.tasks, shared.Owns env other) ∧
      ∀ new ∈ task, shared.Owns env new ∧ ∀ other ∈ config.tasks, other.Apart env new := by
  rcases beginVerify_cases config.shared.policy request now with
    ⟨next, reason, stored, run⟩ | ⟨place, challenge, counter, presented, found, run⟩
  · simp only [beginAdmission, run] at begun
    cases begun
    exact ⟨outline.of_same stored fun nonce => admissions_decides_refuse _ _ _, by simp⟩
  · simp only [beginAdmission, run] at begun
    cases begun
    refine ⟨⟨outline.shared, outline.owns⟩, fun new isNew => ?_⟩
    cases Option.mem_some.mp isNew
    refine ⟨⟨fun _ mem => (nomatch mem), fun evaluated mem => ?_⟩,
      fun other mem => ⟨fun _ _ same => (nomatch same), fun evaluated isOther current mem' => ?_⟩⟩
    · cases Option.some.inj mem
      exact ⟨_, found, rfl, fun _ => rfl⟩
    · cases Option.some.inj mem'
      intro samePlace solves
      by_contra solved
      have fails := exclusive _ presented (Bool.eq_true_of_not_eq_false solved) other mem evaluated
        isOther samePlace
      rw [fails] at solves
      cases solves

theorem guarantee_continueAdmission {index : ℕ} {event : PolicyEvent} {current : Admitting}
    (found : config.tasks[index]? = some current)
    (continued : continueAdmission env event current config.shared = (shared, task)) :
    (shared.Sound ∧ ∀ other ∈ config.tasks.eraseIdx index, shared.Owns env other) ∧
      ∀ new ∈ task, shared.Owns env new ∧
        ∀ other ∈ config.tasks.eraseIdx index, other.Apart env new := by
  have owns := outline.owns current (List.mem_of_getElem? found)
  have waiting : ∀ other ∈ config.tasks.eraseIdx index, config.shared.Owns env other :=
    fun other mem => outline.owns other (List.mem_of_mem_eraseIdx mem)
  have apart : ∀ other ∈ config.tasks.eraseIdx index, current.Apart env other :=
    fun other mem => outline.apart_others Admitting.Apart.symm found mem
  have refused : ∀ nonce reason,
      (config.shared.decides nonce (refuse reason)).Sound ∧
        ∀ other ∈ config.tasks.eraseIdx index,
          (config.shared.decides nonce (refuse reason)).Owns env other := by
    intro nonce reason
    exact ⟨outline.shared.of_same rfl fun _ => admissions_decides_refuse _ _ _,
      fun other mem => (waiting other mem).of_same rfl⟩
  cases event with
  | failed =>
    cases continued
    exact ⟨⟨outline.shared, waiting⟩, by simp⟩
  | settled =>
    cases current with
    | issuing challenge =>
      cases continued
      refine ⟨⟨outline.shared.finishIssue (owns.1 _ rfl) _, fun other mem => ?_⟩, by simp⟩
      exact (waiting other mem).finishIssue ((apart other mem).1 _ rfl) _
    | tagging place challenge counter =>
      simp only [continueAdmission] at continued
      split at continued
      · cases continued
        refine ⟨⟨outline.shared, waiting⟩, fun new isNew => ?_⟩
        cases Option.mem_some.mp isNew
        exact ⟨owns, fun other mem => (apart other mem).symm⟩
      · cases continued
        exact ⟨refused _ _, by simp⟩
    | digesting place challenge counter =>
      simp only [continueAdmission] at continued
      split at continued
      case isTrue solves =>
        cases continued
        rcases owns.2 _ rfl with ⟨stored, held, rfl, unused⟩
        refine ⟨⟨outline.shared.markUsed held (unused solves), fun other mem => ?_⟩, by simp⟩
        refine (waiting other mem).markUsed (fun evaluated isOther samePlace => ?_) _
        exact (apart other mem).2 _ rfl evaluated isOther samePlace solves
      case isFalse =>
        cases continued
        exact ⟨refused _ _, by simp⟩

end

/--
A challenge admits at most once.  In every run in which no nonce is drawn twice
and no two evaluations that solve one challenge overlap, each nonce leads to at
most one accepted decision.
-/
theorem challenge_admits_at_most_once {limits : ProofOfWorkLimits}
    {actions : List (Action PolicyRequest PolicyEvent)}
    (permits : (admission env).Permits (Exclusive env) (unusedPolicy limits) actions)
    (nonce : String) :
    (((admission env).run (unusedPolicy limits) actions).shared.admissions nonce).length ≤ 1 := by
  have start : Accountable env (unusedPolicy limits) := by
    refine ⟨⟨?_, ?_, ?_⟩, ?_, .nil⟩ <;> simp [unusedPolicy, PolicyRun.admissions]
  have outline : Accountable env ((admission env).run (unusedPolicy limits) actions) := by
    refine Program.run_outline (fun config action shared task outline exclusive effect => ?_) start
      permits
    rw [← and_assoc]
    cases action with
    | start request =>
      cases request with
      | issueChallenge => exact guarantee_beginIssue outline exclusive (Option.some.inj effect)
      | evaluate => exact guarantee_beginVerify outline exclusive (Option.some.inj effect)
    | resume index event =>
      rcases Option.map_eq_some_iff.mp effect with ⟨current, found, continued⟩
      exact guarantee_continueAdmission outline found continued
  exact outline.shared.once nonce

end Invariant

namespace ProofExample

def environment : ProofEnvironment where
  hmacBase64Url := fun _ => "tag"
  sha256 := fun _ => List.replicate 32 0

def challenge : ProofOfWorkChallengeV1 where
  clientId := "alice"
  difficultyBits := 8
  expiresAtMs := 30000
  issuedAtMs := 0
  namespaceName := "room"
  nonce := "nonce"
  peerId := "alice"
  tag := "tag"

def issue : List (Action PolicyRequest PolicyEvent) :=
  [.start (.issueChallenge "room" "alice" "alice" "nonce" 0 0), .resume 0 .settled]

def present : Action PolicyRequest PolicyEvent :=
  .start (.evaluate ⟨"alice", some ⟨some "nonce", challengeText challenge, .negativeZero⟩, "room",
    "alice"⟩ 1000)

def admitted (actions : List (Action PolicyRequest PolicyEvent)) : ℕ :=
  (((admission environment).run (unusedPolicy defaultProofOfWorkLimits) actions).shared.admissions
    "nonce").length

end ProofExample

open ProofExample in
theorem challenge_admits_at_most_once_in_turn :
    admitted (issue ++ [present, .resume 0 .settled, .resume 0 .settled, present]) = 1 ∧
    admitted (issue ++ [present, .resume 0 .settled, .resume 0 .settled, present]) ≤ 1 :=
  ⟨by decide +kernel, challenge_admits_at_most_once (by decide +kernel) "nonce"⟩

open ProofExample in
/-- Two evaluations that both test the challenge before either marks it are both accepted. -/
theorem overlapping_proofs_admit_twice :
    admitted (issue ++ [present, present, .resume 0 .settled, .resume 0 .settled,
      .resume 0 .settled, .resume 0 .settled]) = 2 := by
  decide +kernel

end TsDrp.Rendezvous
