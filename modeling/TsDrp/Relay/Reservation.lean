import TsDrp.Library.InsertionMap

/-!
# Relay reservations

A relay answers a reservation request with a status, an expiry in seconds and
perhaps limits.  Only a status `OK` with an expiry in the future and limits that
are safe integers counts as a reservation.  The table of reservations meets the
requirements of the policy when it is large enough and its relays belong to
enough known operators, or when one of them was taken from the degraded overflow.
-/

namespace TsDrp

/-- A number of a response: a bigint or an integral number, or a number that is not integral. -/
inductive WireNumber where
  | integer (value : ℤ)
  | other
deriving DecidableEq

def maxSafeInteger : ℤ := 9007199254740991

/-- `safeNumber`, without a value where it is `NaN`. -/
def safeNumber : WireNumber → Option ℤ
  | .integer value => if 0 ≤ value ∧ value ≤ maxSafeInteger then some value else none
  | .other => none

/-- The optional parts of `reservation` and `limit` are fields of their own. -/
structure RelayReservationWireResponse where
  status : ℕ
  expire : Option WireNumber := none
  reservationExpire : Option WireNumber := none
  limitData : Option WireNumber := none
  limitDuration : Option WireNumber := none
deriving DecidableEq

inductive RelayReservationFailure where
  | aborted
  | connectionFailed
  | malformedResponse
  | noReservation
  | permissionDenied
  | refused
  | resourceLimit
  | timeout
  | unexpectedResponse
deriving DecidableEq

def reservationOk : ℕ := 100

def statusFailure (status : ℕ) : RelayReservationFailure :=
  match status with
  | 200 => .refused
  | 201 => .resourceLimit
  | 202 => .permissionDenied
  | 203 => .connectionFailed
  | 204 => .noReservation
  | 400 => .malformedResponse
  | _ => .unexpectedResponse

structure ReservationLimit where
  dataBytes : Option ℤ
  durationSeconds : Option ℤ
deriving DecidableEq

inductive DecodedReservation where
  | accepted (expiresAtMs : ℤ) (limit : ReservationLimit)
  | failed (failure : RelayReservationFailure)
deriving DecidableEq

def DecodedReservation.isAccepted : DecodedReservation → Bool
  | .accepted _ _ => true
  | .failed _ => false

def decodeLimit : Option WireNumber → Option (Option ℤ)
  | none => some none
  | some number => (safeNumber number).map some

def decodeRelayReservationResponse (response : RelayReservationWireResponse) (nowMs : ℤ) :
    DecodedReservation :=
  if response.status ≠ reservationOk then .failed (statusFailure response.status)
  else match response.reservationExpire <|> response.expire with
    | none => .failed .malformedResponse
    | some expiration =>
      match safeNumber expiration with
      | none => .failed .noReservation
      | some seconds =>
        if maxSafeInteger < seconds * 1000 ∨ seconds * 1000 ≤ nowMs then .failed .noReservation
        else match decodeLimit response.limitData, decodeLimit response.limitDuration with
          | some dataBytes, some durationSeconds =>
            .accepted (seconds * 1000) { dataBytes, durationSeconds }
          | _, _ => .failed .malformedResponse

theorem lt_of_decode_eq_accepted {response : RelayReservationWireResponse} {nowMs expiresAtMs : ℤ}
    {limit : ReservationLimit}
    (decoded : decodeRelayReservationResponse response nowMs = .accepted expiresAtMs limit) :
    nowMs < expiresAtMs := by
  unfold decodeRelayReservationResponse at decoded
  split at decoded
  · cases decoded
  · split at decoded
    · cases decoded
    · split at decoded
      · cases decoded
      · split at decoded
        · cases decoded
        · rename_i usable
          split at decoded
          · cases decoded
            omega
          · cases decoded

structure RelayCandidate where
  peerId : String
  operatorGroup : String
  hasOperatorEvidence : Bool := false
  addresses : List String := []
deriving DecidableEq

structure ActiveRelayReservation where
  candidate : RelayCandidate
  expiresAtMs : ℤ
  limit : ReservationLimit
  reservedAtMs : ℤ
deriving DecidableEq

structure RelayPolicyLimits where
  maxConcurrentReservations : ℕ := 2
  maxPerOperatorGroup : ℕ := 1
  refreshBeforeExpiryMs : ℕ := 30000
  requiredOperatorGroups : ℕ := 2
  requiredReservations : ℕ := 2

/-- The fields of the policy that its operations share; the sets are lists. -/
structure RelayPolicy where
  active : InsertionMap String ActiveRelayReservation
  attemptedPeerIds : List String
  degradedOverflowEligiblePeerIds : List String
  degradedOverflowPeerIds : List String
  pendingReleases : InsertionMap String RelayCandidate
  stopped : Bool

namespace RelayPolicy

def create : RelayPolicy where
  active := .empty
  attemptedPeerIds := []
  degradedOverflowEligiblePeerIds := []
  degradedOverflowPeerIds := []
  pendingReleases := .empty
  stopped := false

variable (policy : RelayPolicy)

def has (peerId : String) : Bool := (policy.active.get peerId).isSome

def knownGroups (reservations : List ActiveRelayReservation) : List String :=
  ((reservations.map (·.candidate.operatorGroup)).filter (· ≠ "unknown")).dedup

def requirementsMet (limits : RelayPolicyLimits) (allowDegradedOverflow : Bool) : Bool :=
  if policy.active.size < limits.requiredReservations then false
  else limits.requiredOperatorGroups ≤ (knownGroups policy.active.values).length ||
    (allowDegradedOverflow && policy.degradedOverflowPeerIds.any policy.has)

def operatorCount (candidate : RelayCandidate) : ℕ :=
  policy.active.values.countP (·.candidate.operatorGroup = candidate.operatorGroup)

def isAnonymousOverflowCandidate (candidate : RelayCandidate) (allowDegradedOverflow : Bool) : Bool :=
  allowDegradedOverflow && policy.degradedOverflowEligiblePeerIds.contains candidate.peerId &&
    candidate.operatorGroup = "unknown" && !candidate.hasOperatorEvidence

def surplus : Option ActiveRelayReservation :=
  policy.active.values.find? fun active => 1 < policy.operatorCount active.candidate

/-- The table without a relay, and the reservation that has to be released. -/
def drop (peerId : String) : RelayPolicy × Option RelayCandidate :=
  match policy.active.get peerId with
  | none => (policy, none)
  | some reservation =>
    ({ policy with
        active := policy.active.delete peerId
        degradedOverflowPeerIds := policy.degradedOverflowPeerIds.filter (· ≠ peerId) },
      some reservation.candidate)

def settleRelease (candidate : RelayCandidate) (succeeded : Bool) : RelayPolicy :=
  { policy with
    pendingReleases := if succeeded then policy.pendingReleases.delete candidate.peerId
      else policy.pendingReleases.set candidate.peerId candidate }

def keep (reservation : ActiveRelayReservation) (allowDegradedOverflow : Bool) : RelayPolicy :=
  { policy with
    active := policy.active.set reservation.candidate.peerId reservation
    degradedOverflowPeerIds :=
      if policy.isAnonymousOverflowCandidate reservation.candidate allowDegradedOverflow then
        policy.degradedOverflowPeerIds.insert reservation.candidate.peerId
      else policy.degradedOverflowPeerIds }

def refresh (reservation : ActiveRelayReservation) : RelayPolicy :=
  { policy with active := policy.active.set reservation.candidate.peerId reservation }

structure SameTable (policy other : RelayPolicy) : Prop where
  active : policy.active = other.active
  degraded : policy.degradedOverflowPeerIds = other.degradedOverflowPeerIds
  stopped : policy.stopped = other.stopped

def Keyed : Prop :=
  ∀ peerId reservation, policy.active.get peerId = some reservation →
    reservation.candidate.peerId = peerId

variable {policy} {peerId other : String} {reservation : ActiveRelayReservation}

theorem sameTable_settleRelease {candidate : RelayCandidate} {succeeded : Bool} :
    (policy.settleRelease candidate succeeded).SameTable policy :=
  ⟨rfl, rfl, rfl⟩

theorem has_drop : (policy.drop peerId).1.has other = true ↔
    policy.has other = true ∧ other ≠ peerId := by
  unfold drop
  split
  case h_1 absent =>
    refine ⟨fun found => ⟨found, ?_⟩, fun found => found.1⟩
    rintro rfl
    rw [has, absent] at found
    cases found
  case h_2 =>
    rw [has, has]
    dsimp only
    by_cases same : other = peerId
    · rw [same, InsertionMap.get_delete_self]
      simp
    · rw [InsertionMap.get_delete_of_ne same]
      simp [same]

theorem stopped_drop : (policy.drop peerId).1.stopped = policy.stopped := by
  unfold drop
  split <;> rfl

theorem get_drop {found : ActiveRelayReservation}
    (present : (policy.drop peerId).1.active.get other = some found) :
    policy.active.get other = some found := by
  unfold drop at present
  split at present
  · exact present
  · exact (InsertionMap.get_filter_eq_some.mp present).1

theorem Keyed.peerId_of_drop (keyed : policy.Keyed) {candidate : RelayCandidate}
    (released : (policy.drop peerId).2 = some candidate) : candidate.peerId = peerId := by
  unfold drop at released
  split at released
  · cases released
  · rename_i found
    cases released
    exact keyed _ _ found

theorem release_of_has_drop (present : policy.has peerId = true) :
    ∃ candidate, (policy.drop peerId).2 = some candidate := by
  rcases Option.isSome_iff_exists.mp present with ⟨reservation, found⟩
  exact ⟨reservation.candidate, by rw [drop, found]⟩

theorem Keyed.drop (keyed : policy.Keyed) : (policy.drop peerId).1.Keyed :=
  fun _ _ present => keyed _ _ (get_drop present)

def Entered (after before : RelayPolicy) (reservation : ActiveRelayReservation) : Prop :=
  after.active = before.active.set reservation.candidate.peerId reservation

variable {after : RelayPolicy}

theorem Keyed.entered (keyed : policy.Keyed) (entered : after.Entered policy reservation) :
    after.Keyed := by
  intro peerId found present
  rw [entered, InsertionMap.get_set] at present
  split at present
  case isTrue same =>
    cases present
    exact same.symm
  case isFalse => exact keyed _ _ present

theorem Keyed.of_active (keyed : policy.Keyed) (same : after.active = policy.active) : after.Keyed := by
  unfold Keyed
  rw [same]
  exact keyed

theorem entered_keep {base : RelayPolicy} {allowDegradedOverflow : Bool}
    (same : base.active = policy.active) :
    (base.keep reservation allowDegradedOverflow).Entered policy reservation := by
  rw [Entered, ← same]
  rfl

theorem Entered.has_iff (entered : after.Entered policy reservation) :
    after.has other = true ↔ other = reservation.candidate.peerId ∨ policy.has other = true := by
  rw [has, entered, InsertionMap.get_set]
  split
  case isTrue same => simp [same]
  case isFalse different => simp [different, has]

end RelayPolicy

end TsDrp
