import Mathlib.Data.Int.Notation

/-!
# The health of the control plane

The aggregator judges what a node has observed of its peers, its relays and its
rendezvous backends, together with the operations that the last recovery has
failed in: as long as there are any, the state is `recovering`.  The coordinator
looks for a fault in a status that is not healthy; some faults are seen only in
comparison with the status observed before.  Optional lists that are missing are
read as empty ones.
-/

namespace TsDrp.ControlPlane

inductive RecoveryAction where
  | continueRegistries
  | fallbackRendezvous
  | fallbackRouter
  | replaceRelay
  | retainRelayed
  | retainRegistries
  | syncAnotherPeer
  | boundedRetry
deriving DecidableEq

inductive RecoveryTerminal where
  | aborted
  | deadline
  | exhausted
  | failed
  | succeeded
deriving DecidableEq

structure RecoveryAttemptId where
  action : RecoveryAction
  id : String
  terminal : RecoveryTerminal
deriving DecidableEq

inductive HealthReason where
  | delegatedRouterFailed
  | dhtUnavailable
  | directConnectionFailed
  | failedRecoveryAttempts
  | insufficientMeshDiversity
  | noActiveTraffic
  | noAuthenticatedDrpPeer
  | noHealthyBackend
  | noLiveReservation
  | noRendezvousReplica
  | objectsNotSynchronized
  | rendezvousStale
deriving DecidableEq

inductive HealthState where
  | degraded
  | healthy
  | recovering
deriving DecidableEq

structure LiveReservation where
  operatorGroup : String
  relayId : String
deriving DecidableEq

inductive BackendStatus where
  | empty
  | failed
  | succeeded
deriving DecidableEq

structure Backend where
  id : String
  status : BackendStatus
deriving DecidableEq

inductive ReplicaAvailability where
  | available
  | partly
  | unavailable
deriving DecidableEq

inductive ObjectSynchronization where
  | behind
  | synchronized
  | unknown
deriving DecidableEq

/-- The records `meshDiversity`, `rendezvous`, `routing` and `traffic` are flattened. -/
structure HealthInput where
  authenticatedDrpPeerIds : List String
  connectedBootstrapPeerIds : List String
  directConnectionFailedPeerIds : List String := []
  failedRecoveryAttempts : List RecoveryAttemptId := []
  lostAuthenticatedPeerIds : List String := []
  healthyBackendCount : ℤ
  liveReservations : List LiveReservation
  authenticatedPeerCount : ℤ
  operatorGroupCount : ℤ
  transportCount : ℤ
  objectSynchronization : ObjectSynchronization
  backends : List Backend := []
  fresh : Bool
  replicaAvailability : ReplicaAvailability
  replicaCount : ℤ
  failedRouterIds : List String := []
  subscribedObjectCount : Option ℤ := none
  directConnections : ℤ
  relayedConnections : ℤ
deriving DecidableEq

structure HealthSnapshot extends HealthInput where
  observedAtMs : ℤ
  reasons : List HealthReason
  state : HealthState
deriving DecidableEq

namespace HealthInput

variable (input : HealthInput)

def requiresPeerHealth : Bool := input.subscribedObjectCount ≠ some 0

def dhtAnchorFailed : Bool :=
  input.backends.any fun backend => backend.id = "dht-anchor" && backend.status = .failed

def reasons : List HealthReason :=
  let reasonIf (condition : Bool) (reason : HealthReason) := if condition then [reason] else []
  reasonIf (input.requiresPeerHealth && input.authenticatedDrpPeerIds = []) .noAuthenticatedDrpPeer ++
    reasonIf (input.objectSynchronization = .behind) .objectsNotSynchronized ++
    reasonIf (!input.fresh) .rendezvousStale ++
    reasonIf (input.replicaAvailability = .unavailable || input.replicaCount ≤ 0)
      .noRendezvousReplica ++
    reasonIf (input.healthyBackendCount ≤ 0) .noHealthyBackend ++
    reasonIf (input.liveReservations = []) .noLiveReservation ++
    reasonIf (input.requiresPeerHealth && input.directConnections + input.relayedConnections ≤ 0)
      .noActiveTraffic ++
    reasonIf (input.requiresPeerHealth && (input.authenticatedPeerCount ≤ 0 ||
      input.operatorGroupCount ≤ 0 || input.transportCount ≤ 0)) .insufficientMeshDiversity ++
    reasonIf (input.failedRecoveryAttempts ≠ []) .failedRecoveryAttempts ++
    reasonIf (input.failedRouterIds ≠ []) .delegatedRouterFailed ++
    reasonIf (input.directConnectionFailedPeerIds ≠ []) .directConnectionFailed ++
    reasonIf input.dhtAnchorFailed .dhtUnavailable

def allRequiredSignalsHealthy : Bool :=
  (!input.requiresPeerHealth || input.authenticatedDrpPeerIds ≠ []) &&
    input.objectSynchronization ≠ .behind && input.fresh &&
    input.replicaAvailability ≠ .unavailable && 0 < input.replicaCount &&
    0 < input.healthyBackendCount && input.liveReservations ≠ [] &&
    (!input.requiresPeerHealth || (0 < input.authenticatedPeerCount &&
      0 < input.operatorGroupCount && 0 < input.transportCount)) &&
    input.failedRouterIds = [] &&
    (!input.requiresPeerHealth || 0 < input.directConnections + input.relayedConnections)

def aggregate (now : ℤ) : HealthSnapshot :=
  { input with
    observedAtMs := now
    reasons := input.reasons
    state := if input.failedRecoveryAttempts ≠ [] then .recovering
      else if input.allRequiredSignalsHealthy then .healthy else .degraded }

end HealthInput

inductive RecoveryFault where
  | registryFailed (backendId : String) (remainingBackendIds : List String)
  | allRegistriesFailed
  | delegatedRouterFailed (routerId : String)
  | relayDisconnected (lost : Option LiveReservation)
  | directConnectionFailed (peerId : String)
  | dhtUnavailable
  | peerDisappeared (peerId : String) (authenticatedAlternates : List String)
  | everythingUnavailable
deriving DecidableEq

def RecoveryFault.action : RecoveryFault → RecoveryAction
  | registryFailed _ _ => .continueRegistries
  | allRegistriesFailed => .fallbackRendezvous
  | delegatedRouterFailed _ => .fallbackRouter
  | relayDisconnected _ => .replaceRelay
  | directConnectionFailed _ => .retainRelayed
  | dhtUnavailable => .retainRegistries
  | peerDisappeared _ _ => .syncAnotherPeer
  | everythingUnavailable => .boundedRetry

/-- The part of `classifyObservedFault` that looks at the registries among the backends. -/
def classifyRegistries (backends : List Backend) : Option RecoveryFault :=
  let registryBackends := backends.filter fun backend =>
    !(["cache", "dht-anchor", "invite", "peer-exchange"].contains backend.id)
  let failedBackends := registryBackends.filter (·.status = .failed)
  let healthyBackends := registryBackends.filter (·.status ≠ .failed)
  match failedBackends, healthyBackends with
  | [failed], _ :: _ => some (.registryFailed failed.id (healthyBackends.map (·.id)))
  | _ :: _, [] => some .allRegistriesFailed
  | _, _ => none

def faultIf (condition : Prop) [Decidable condition] (fault : RecoveryFault) : Option RecoveryFault :=
  if condition then some fault else none

def classifyObservedFault (status : HealthSnapshot) (previous : Option HealthSnapshot) :
    Option RecoveryFault :=
  faultIf (status.subscribedObjectCount ≠ some 0 ∧ status.authenticatedDrpPeerIds = [] ∧
      status.directConnections + status.relayedConnections = 0) .everythingUnavailable <|>
    status.failedRouterIds.head?.map .delegatedRouterFailed <|>
    status.directConnectionFailedPeerIds.head?.map .directConnectionFailed <|>
    faultIf (.dhtUnavailable ∈ status.reasons) .dhtUnavailable <|>
    classifyRegistries status.backends <|>
    (if status.objectSynchronization = .behind then
      status.lostAuthenticatedPeerIds.head?.map (.peerDisappeared · status.authenticatedDrpPeerIds)
    else none) <|>
    faultIf (.noLiveReservation ∈ status.reasons)
      (.relayDisconnected (previous.bind fun previous => previous.liveReservations.find? fun lost =>
        !status.liveReservations.any (·.relayId = lost.relayId))) <|>
    faultIf (.noHealthyBackend ∈ status.reasons ∨ .rendezvousStale ∈ status.reasons ∨
      .noRendezvousReplica ∈ status.reasons) .allRegistriesFailed <|>
    (if status.objectSynchronization = .behind then
      (previous.bind fun previous => previous.authenticatedDrpPeerIds.find? fun peerId =>
        !status.authenticatedDrpPeerIds.contains peerId).map
          (.peerDisappeared · status.authenticatedDrpPeerIds)
    else none)

/-- A fault that a node may show although all required signals are healthy. -/
def HealthInput.ShowsFault (input : HealthInput) : Prop :=
  input.directConnectionFailedPeerIds ≠ [] ∨ input.dhtAnchorFailed = true ∨
    (classifyRegistries input.backends).isSome = true

theorem classify_aggregate_isSome_iff {input : HealthInput} {now : ℤ}
    {previous : Option HealthSnapshot} (healthy : input.allRequiredSignalsHealthy = true) :
    (classifyObservedFault (input.aggregate now) previous).isSome = true ↔ input.ShowsFault := by
  simp only [HealthInput.allRequiredSignalsHealthy, Bool.and_eq_true, Bool.or_eq_true,
    decide_eq_true_eq, Bool.not_eq_true', HealthInput.requiresPeerHealth, decide_eq_false_iff_not,
    ne_eq, Decidable.not_not] at healthy
  have outage : ¬(¬input.subscribedObjectCount = some 0 ∧ input.authenticatedDrpPeerIds = [] ∧
      input.directConnections + input.relayedConnections = 0) := fun shown =>
    healthy.1.1.1.1.1.1.1.1.1.elim shown.1 (· shown.2.1)
  have replicas : ¬input.replicaCount ≤ 0 := by omega
  have backends : ¬input.healthyBackendCount ≤ 0 := by omega
  simp [classifyObservedFault, HealthInput.aggregate, faultIf, HealthInput.reasons, healthy, outage,
    replicas, backends, HealthInput.ShowsFault]

theorem classifyRegistries_ne_relayDisconnected (backends : List Backend)
    (lost : Option LiveReservation) :
    classifyRegistries backends ≠ some (.relayDisconnected lost) := by
  unfold classifyRegistries
  dsimp only
  split <;> simp

theorem lost_of_classify {status : HealthSnapshot} {previous : Option HealthSnapshot}
    {lost : Option LiveReservation}
    (found : classifyObservedFault status previous = some (.relayDisconnected lost)) :
    lost = previous.bind fun previous => previous.liveReservations.find? fun lost =>
      !status.liveReservations.any (·.relayId = lost.relayId) := by
  simp only [classifyObservedFault, Option.orElse_eq_orElse, ← Option.or_eq_orElse,
    Option.or_eq_some_iff, faultIf] at found
  rcases found with outage | ⟨_, router | ⟨_, direct | ⟨_, dht | ⟨_, registries | ⟨_, peer | ⟨_,
    relay | ⟨_, registries | ⟨_, peer⟩⟩⟩⟩⟩⟩⟩⟩
  · simp at outage
  · simp at router
  · simp at direct
  · simp at dht
  · exact (classifyRegistries_ne_relayDisconnected _ _ registries).elim
  · simp at peer
  · split at relay
    · cases relay
      rfl
    · cases relay
  · simp at registries
  · split at peer
    · rcases Option.map_eq_some_iff.mp peer with ⟨_, _, same⟩
      cases same
    · cases peer

end TsDrp.ControlPlane
