import TsDrp.Rendezvous.Registry

/-!
# The capacity of a registry

A registration is checked against the quotas before it waits for the admission policy
and for the validator, and is stored afterwards without another look; a challenge is
counted before it waits for its tag and is stored afterwards; and a request that is
rejected for its rate has been counted under its namespace already.  Calls that
overlap, and clients that go on after they were rejected, therefore exceed the limits.
-/

namespace TsDrp.Rendezvous

open Cooperative RegistryServer InsertionMap

/-- `validateRegistryLimits`, for the limits that the server uses. -/
def RegistryLimits.isValid (limits : RegistryLimits) : Bool :=
  1 ≤ limits.maxClients && limits.maxClients ≤ 4096 &&
    (1 ≤ limits.maxNamespaces && limits.maxNamespaces ≤ 1024) &&
    (1 ≤ limits.maxRecordsPerClient && limits.maxRecordsPerClient ≤ 64) &&
    (1 ≤ limits.maxRecordsPerNamespace && limits.maxRecordsPerNamespace ≤ 256) &&
    (1 ≤ limits.maxRequestsPerNamespaceWindow && limits.maxRequestsPerNamespaceWindow ≤ 1000) &&
    (1 ≤ limits.maxRequestsPerWindow && limits.maxRequestsPerWindow ≤ 1000) &&
    (1 ≤ limits.maxResponseRecords && limits.maxResponseRecords ≤ 256) &&
    (1 ≤ limits.requestWindowMs && limits.requestWindowMs ≤ 3600000)

namespace RegistryServer

variable {server : RegistryServer}

structure WithinLimits (server : RegistryServer) : Prop where
  namespaces : server.records.size ≤ server.limits.maxNamespaces
  perNamespace : ∀ namespaceName place, server.records.get namespaceName = some place →
    (server.mapAt place).size ≤ server.limits.maxRecordsPerNamespace
  perClient : ∀ clientId, server.countClientRecords clientId ≤ server.limits.maxRecordsPerClient
  tracked : ∀ clientId window, server.clientWindows.get clientId = some window →
    window.namespaceCounts.size ≤ server.limits.maxRequestsPerWindow

/-- The quota checks of `register` on the server as it is now. -/
def HasRoom (server : RegistryServer) (request : RegistrationRequest) : Prop :=
  (server.lookup request.record.namespaceName request.record.peerId).isSome ∨
    ((server.records.get request.record.namespaceName).isSome ∨
        server.records.size < server.limits.maxNamespaces) ∧
      ((server.records.get request.record.namespaceName).map fun place =>
        (server.mapAt place).size).getD 0 < server.limits.maxRecordsPerNamespace ∧
      server.countClientRecords request.clientId < server.limits.maxRecordsPerClient

instance (server : RegistryServer) (request : RegistrationRequest) :
    Decidable (server.HasRoom request) :=
  inferInstanceAs (Decidable (_ ∨ _))

def TracksNamespace (server : RegistryServer) (clientId namespaceName : String) (now : ℤ) : Prop :=
  ∀ window ∈ server.clientWindows.get clientId, server.windowIsOver window now = true ∨
    window.namespaceCounts.size < server.limits.maxRequestsPerWindow ∨
    (window.namespaceCounts.get namespaceName).isSome

instance (server : RegistryServer) (clientId namespaceName : String) (now : ℤ) :
    Decidable (server.TracksNamespace clientId namespaceName now) := by
  unfold TracksNamespace
  infer_instance

def OwnedByPeers (server : RegistryServer) : Prop :=
  ∀ namespaceName peerId stored, server.lookup namespaceName peerId = some stored →
    stored.clientId = peerId

def namespacesOf (server : RegistryServer) (peerId : String) : Finset String :=
  (server.records.entries.filter fun entry =>
    ((server.mapAt entry.2).get peerId).isSome).map Prod.fst |>.toFinset

theorem mem_namespacesOf {namespaceName peerId : String} :
    namespaceName ∈ server.namespacesOf peerId ↔ (server.lookup namespaceName peerId).isSome := by
  simp only [namespacesOf, List.mem_toFinset, List.mem_map, List.mem_filter]
  constructor
  · rintro ⟨⟨_, place⟩, ⟨listed, found⟩, rfl⟩
    rw [lookup, get_eq_some_iff.mpr listed]
    exact found
  · intro found
    rw [lookup] at found
    cases current : server.records.get namespaceName with
    | none =>
      rw [current] at found
      cases found
    | some place =>
      rw [current] at found
      exact ⟨(namespaceName, place), ⟨get_eq_some_iff.mp current, found⟩, rfl⟩

theorem length_filter_client {records : InsertionMap String StoredRecord}
    (owned : ∀ peerId stored, records.get peerId = some stored → stored.clientId = peerId)
    (clientId : String) :
    (records.values.filter fun stored => stored.clientId = clientId).length =
      if (records.get clientId).isSome then 1 else 0 := by
  have byKey : records.entries.filter (fun entry => entry.2.clientId = clientId) =
      records.entries.filter fun entry => entry.1 = clientId := by
    apply List.filter_congr
    intro entry mem
    rw [owned entry.1 entry.2 (get_eq_some_iff.mpr mem)]
  have counted : (records.entries.filter fun entry => entry.1 = clientId).length =
      (records.entries.map Prod.fst).count clientId := by
    rw [List.count_eq_countP, List.countP_map, List.countP_eq_length_filter]
    congr 2
  rw [values, List.filter_map, List.length_map]
  change (records.entries.filter fun entry => entry.2.clientId = clientId).length = _
  rw [byKey, counted]
  cases found : records.get clientId with
  | none => exact List.count_eq_zero.mpr (get_eq_none_iff.mp found)
  | some stored =>
    exact List.count_eq_one_of_mem records.nodup
      (List.mem_map_of_mem (get_eq_some_iff.mp found))

theorem countClientRecords_eq (owned : server.OwnedByPeers) (clientId : String) :
    server.countClientRecords clientId = (server.namespacesOf clientId).card := by
  have inMap : ∀ entry ∈ server.records.entries, ∀ peerId stored,
      (server.mapAt entry.2).get peerId = some stored → stored.clientId = peerId := by
    intro entry listed peerId stored found
    apply owned entry.1 peerId stored
    rw [lookup, get_eq_some_iff.mpr listed]
    exact found
  have sum : ∀ entries : List (String × ℕ), (∀ entry ∈ entries, entry ∈ server.records.entries) →
      (entries.map fun entry => ((server.mapAt entry.2).values.filter fun stored =>
        stored.clientId = clientId).length).sum =
      (entries.filter fun entry => ((server.mapAt entry.2).get clientId).isSome).length := by
    intro entries listed
    induction entries with
    | nil => rfl
    | cons entry rest ih =>
      rw [List.map_cons, List.sum_cons, ih fun other mem => listed other (List.mem_cons_of_mem _ mem),
        length_filter_client (inMap entry (listed entry List.mem_cons_self)), List.filter_cons]
      split
      · rw [List.length_cons, Nat.add_comm]
      · rw [Nat.zero_add]
  have nodup : ((server.records.entries.filter fun entry =>
      ((server.mapAt entry.2).get clientId).isSome).map Prod.fst).Nodup :=
    server.records.nodup.sublist (List.filter_sublist.map _)
  rw [countClientRecords, values, List.map_map, namespacesOf,
    List.toFinset_card_of_nodup nodup, List.length_map]
  exact sum _ fun _ mem => mem

end RegistryServer

section Steps

variable {limits : RegistryLimits} {server : RegistryServer} {request : RegistrationRequest}
  {namespaceRecords : Option ℕ} {accepted : AcceptedRecord}

structure HoldsMap (server : RegistryServer) (registration : Registration) : Prop where
  ownClient : registration.request.clientId = registration.request.record.peerId
  inside : ∀ place ∈ registration.namespaceRecords, place < server.maps.length
  own : ∀ place ∈ registration.namespaceRecords, ∀ namespaceName,
    server.records.get namespaceName = some place →
      namespaceName = registration.request.record.namespaceName

theorem lookup_of_store (wellFormed : server.WellFormed)
    (inside : ∀ place ∈ namespaceRecords, place < server.maps.length)
    (own : ∀ place ∈ namespaceRecords, ∀ namespaceName,
      server.records.get namespaceName = some place → namespaceName = request.record.namespaceName)
    {namespaceName peerId : String} {stored : StoredRecord}
    (found : (server.store request namespaceRecords accepted).lookup namespaceName peerId =
      some stored) :
    (namespaceName = request.record.namespaceName ∧ peerId = request.record.peerId ∧
        stored.clientId = request.clientId) ∨
      server.lookup namespaceName peerId = some stored := by
  rcases lookup_eq_some.mp found with ⟨place, records, current, held, got⟩
  cases namespaceRecords with
  | some held' =>
    simp only [store, List.getElem?_modify] at current held
    by_cases same : held' = place
    · have isOwn := own held' rfl namespaceName (same ▸ current)
      rcases Option.map_eq_some_iff.mp held with ⟨before, before_eq, changed⟩
      rw [if_pos same] at changed
      subst changed
      rw [get_set] at got
      split at got
      case isTrue samePeer =>
        cases got
        exact Or.inl ⟨isOwn, samePeer, rfl⟩
      case isFalse =>
        exact Or.inr (lookup_eq_some.mpr ⟨place, before, current, before_eq, got⟩)
    · rcases Option.map_eq_some_iff.mp held with ⟨before, before_eq, changed⟩
      rw [if_neg same] at changed
      subst changed
      exact Or.inr (lookup_eq_some.mpr ⟨place, before, current, before_eq, got⟩)
  | none =>
    simp only [store, get_set] at current held
    split at current
    case isTrue sameName =>
      cases current
      rw [List.getElem?_append_right (Nat.le_refl _), Nat.sub_self] at held
      cases held
      rw [get_set] at got
      split at got
      case isTrue samePeer =>
        cases got
        exact Or.inl ⟨sameName, samePeer, rfl⟩
      case isFalse => cases got
    case isFalse =>
      rw [List.getElem?_append_left (wellFormed.inside _ _ current)] at held
      exact Or.inr (lookup_eq_some.mpr ⟨place, records, current, held, got⟩)

theorem lookup_of_sweepExpired {now : ℤ} {namespaceName peerId : String} {stored : StoredRecord}
    (found : (server.sweepExpired now).lookup namespaceName peerId = some stored) :
    server.lookup namespaceName peerId = some stored := by
  rcases lookup_eq_some.mp found with ⟨place, records, current, held, found⟩
  have listed := (get_filter_eq_some.mp current).1
  simp only [sweepExpired, List.getElem?_mapIdx] at held
  rcases Option.map_eq_some_iff.mp held with ⟨before, before_eq, changed⟩
  split at changed
  · subst changed
    exact lookup_eq_some.mpr ⟨place, before, listed, before_eq,
      (get_filter_eq_some.mp found).1⟩
  · subst changed
    exact lookup_eq_some.mpr ⟨place, before, listed, before_eq, found⟩

def RegistryServer.peersOf (server : RegistryServer) (namespaceName : String) : Finset String :=
  match server.records.get namespaceName with
  | none => ∅
  | some place => ((server.mapAt place).entries.map Prod.fst).toFinset

theorem mem_peersOf {namespaceName peerId : String} :
    peerId ∈ server.peersOf namespaceName ↔ (server.lookup namespaceName peerId).isSome := by
  unfold peersOf lookup
  cases server.records.get namespaceName with
  | none => simp
  | some place =>
    rw [List.mem_toFinset, Option.bind_some, ← not_iff_not, ← get_eq_none_iff,
      Option.not_isSome_iff_eq_none]

theorem card_peersOf {namespaceName : String} :
    (server.peersOf namespaceName).card = ((server.records.get namespaceName).map fun place =>
      (server.mapAt place).size).getD 0 := by
  unfold peersOf
  cases server.records.get namespaceName with
  | none => rfl
  | some place =>
    rw [Option.map_some, Option.getD_some,
      List.toFinset_card_of_nodup (server.mapAt place).nodup, List.length_map]
    rfl

structure RegistryServer.Kept (server : RegistryServer) (limits : RegistryLimits) : Prop where
  wellFormed : server.WellFormed
  owned : server.OwnedByPeers
  limited : server.limits = limits
  valid : limits.isValid = true
  within : server.WithinLimits

theorem RegistryLimits.pos_of_isValid {limits : RegistryLimits} (valid : limits.isValid = true) :
    1 ≤ limits.maxRecordsPerNamespace ∧ 1 ≤ limits.maxRequestsPerWindow := by
  simp only [isValid, Bool.and_eq_true, decide_eq_true_eq] at valid
  omega

theorem RegistryServer.WithinLimits.of_lookup (within : server.WithinLimits) {next : RegistryServer}
    (owned : server.OwnedByPeers) (owned' : next.OwnedByPeers) (sameLimits : next.limits = server.limits)
    (sameWindows : next.clientWindows = server.clientWindows)
    (namespaces : next.records.size ≤ server.limits.maxNamespaces)
    (perNamespace : ∀ namespaceName, (next.peersOf namespaceName).card ≤
      max (server.peersOf namespaceName).card server.limits.maxRecordsPerNamespace)
    (perClient : ∀ clientId, (next.namespacesOf clientId).card ≤
      max (server.namespacesOf clientId).card server.limits.maxRecordsPerClient) :
    next.WithinLimits where
  namespaces := by rwa [sameLimits]
  perNamespace := by
    intro namespaceName place current
    have bound := perNamespace namespaceName
    rw [card_peersOf, current, Option.map_some, Option.getD_some] at bound
    rw [sameLimits]
    have before : (server.peersOf namespaceName).card ≤ server.limits.maxRecordsPerNamespace := by
      rw [card_peersOf]
      cases found : server.records.get namespaceName with
      | none => exact Nat.zero_le _
      | some place => exact within.perNamespace namespaceName place found
    omega
  perClient := by
    intro clientId
    have bound := perClient clientId
    have before := within.perClient clientId
    rw [countClientRecords_eq owned] at before
    rw [countClientRecords_eq owned', sameLimits]
    omega
  tracked := by
    rw [sameLimits, sameWindows]
    exact within.tracked

theorem RegistryServer.Kept.sweepExpired (kept : server.Kept limits) (now : ℤ) :
    (server.sweepExpired now).Kept limits := by
  have owned : (server.sweepExpired now).OwnedByPeers :=
    fun namespaceName peerId stored found => kept.owned _ _ _ (lookup_of_sweepExpired found)
  have fewer : ∀ {namespaceName peerId},
      ((server.sweepExpired now).lookup namespaceName peerId).isSome →
        (server.lookup namespaceName peerId).isSome := by
    intro namespaceName peerId isSome
    rcases Option.isSome_iff_exists.mp isSome with ⟨stored, found⟩
    rw [lookup_of_sweepExpired found]
    rfl
  refine ⟨kept.wellFormed.sweepExpired now, owned, kept.limited, kept.valid,
    kept.within.of_lookup kept.owned owned rfl rfl ?_ ?_ ?_⟩
  · exact (List.length_filter_le _ _).trans kept.within.namespaces
  · intro namespaceName
    apply le_max_of_le_left
    apply Finset.card_le_card
    intro peerId mem
    exact mem_peersOf.mpr (fewer (mem_peersOf.mp mem))
  · intro clientId
    apply le_max_of_le_left
    apply Finset.card_le_card
    intro namespaceName mem
    exact mem_namespacesOf.mpr (fewer (mem_namespacesOf.mp mem))

theorem card_le_of_subset_insert {before after : Finset String} (added : String) {bound : ℕ}
    (subset : ∀ entry ∈ after, entry = added ∨ entry ∈ before)
    (room : added ∈ before ∨ before.card < bound) : after.card ≤ max before.card bound := by
  rcases room with known | room
  · apply le_max_of_le_left
    apply Finset.card_le_card
    intro entry mem
    rcases subset entry mem with rfl | old
    · exact known
    · exact old
  · apply le_max_of_le_right
    have inserted : after ⊆ insert added before := by
      intro entry mem
      exact Finset.mem_insert.mpr (subset entry mem)
    exact (Finset.card_le_card inserted).trans ((Finset.card_insert_le _ _).trans room)

theorem RegistryServer.Kept.store (kept : server.Kept limits) {registration : Registration}
    (holds : HoldsMap server registration) (room : server.HasRoom registration.request)
    (accepted : AcceptedRecord) :
    (server.store registration.request registration.namespaceRecords accepted).Kept limits := by
  have cases : ∀ {namespaceName peerId stored},
      (server.store registration.request registration.namespaceRecords accepted).lookup namespaceName
        peerId = some stored → _ :=
    fun found => lookup_of_store kept.wellFormed holds.inside holds.own found
  have owned : (server.store registration.request registration.namespaceRecords
      accepted).OwnedByPeers := by
    intro namespaceName peerId stored found
    rcases cases found with ⟨_, rfl, sameClient⟩ | old
    · exact sameClient.trans holds.ownClient
    · exact kept.owned _ _ _ old
  have more : ∀ {namespaceName peerId},
      ((server.store registration.request registration.namespaceRecords accepted).lookup namespaceName
        peerId).isSome →
      (namespaceName = registration.request.record.namespaceName ∧
          peerId = registration.request.record.peerId) ∨
        (server.lookup namespaceName peerId).isSome := by
    intro namespaceName peerId isSome
    rcases Option.isSome_iff_exists.mp isSome with ⟨stored, found⟩
    rcases cases found with ⟨sameName, samePeer, _⟩ | old
    · exact Or.inl ⟨sameName, samePeer⟩
    · rw [old]
      exact Or.inr rfl
  refine ⟨kept.wellFormed.store, owned, ?_, kept.valid, ?_⟩
  · cases registration.namespaceRecords <;> exact kept.limited
  · refine kept.within.of_lookup kept.owned owned ?_ ?_ ?_ ?_ ?_
    · cases registration.namespaceRecords <;> rfl
    · cases registration.namespaceRecords <;> rfl
    · cases registration.namespaceRecords with
      | some place => exact kept.within.namespaces
      | none =>
        change (server.records.set _ _).size ≤ _
        rw [size_set]
        have within := kept.within.namespaces
        split
        case isTrue absent =>
          rcases room with known | ⟨known | free, _⟩
          · rw [lookup, absent] at known
            cases known
          · rw [absent] at known
            cases known
          · omega
        case isFalse => omega
    · intro namespaceName
      by_cases sameName : namespaceName = registration.request.record.namespaceName
      · subst sameName
        refine card_le_of_subset_insert registration.request.record.peerId ?_ ?_
        · intro peerId mem
          rcases more (mem_peersOf.mp mem) with ⟨_, samePeer⟩ | old
          · exact Or.inl samePeer
          · exact Or.inr (mem_peersOf.mpr old)
        · rcases room with known | ⟨_, free, _⟩
          · exact Or.inl (mem_peersOf.mpr known)
          · right
            rw [card_peersOf]
            exact free
      · apply le_max_of_le_left
        apply Finset.card_le_card
        intro peerId mem
        rcases more (mem_peersOf.mp mem) with ⟨same, _⟩ | old
        · exact absurd same sameName
        · exact mem_peersOf.mpr old
    · intro clientId
      by_cases samePeer : clientId = registration.request.record.peerId
      · subst samePeer
        refine card_le_of_subset_insert registration.request.record.namespaceName ?_ ?_
        · intro namespaceName mem
          rcases more (mem_namespacesOf.mp mem) with ⟨sameName, _⟩ | old
          · exact Or.inl sameName
          · exact Or.inr (mem_namespacesOf.mpr old)
        · rcases room with known | ⟨_, _, free⟩
          · exact Or.inl (mem_namespacesOf.mpr known)
          · right
            rw [holds.ownClient, countClientRecords_eq kept.owned] at free
            exact free
      · apply le_max_of_le_left
        apply Finset.card_le_card
        intro namespaceName mem
        rcases more (mem_namespacesOf.mp mem) with ⟨_, same⟩ | old
        · exact absurd same samePeer
        · exact mem_namespacesOf.mpr old

inductive Consumed (server : RegistryServer) (clientId namespaceName : String) (now : ℤ) :
    RegistryServer × Option RegistryRejection → Prop where
  | invalid (notAnId : isClientId clientId = false) :
      Consumed server clientId namespaceName now (server, some ⟨.invalidClient, none⟩)
  | full (absent : (server.dropWindows now).clientWindows.get clientId = none)
      (full : server.limits.maxClients ≤ (server.dropWindows now).clientWindows.size) :
      Consumed server clientId namespaceName now
        (server.dropWindows now, some ⟨.clientCapacityExceeded, none⟩)
  | opened (absent : (server.dropWindows now).clientWindows.get clientId = none)
      (proper : isClientId clientId = true) :
      Consumed server clientId namespaceName now
        ((server.dropWindows now).setWindow clientId
          (openWindow namespaceName now), none)
  | counted {window : ClientWindow} (found : server.clientWindows.get clientId = some window)
      (runs : server.windowIsOver window now = false) :
      Consumed server clientId namespaceName now
        ((server.dropWindows now).setWindow clientId
            (countRequest window namespaceName),
          if server.limits.maxRequestsPerWindow < window.count + 1 ∨
              server.limits.maxRequestsPerNamespaceWindow <
                (window.namespaceCounts.get namespaceName).getD 0 + 1 then
            some ⟨.rateLimited, none⟩
          else none)

theorem consumeRequest_consumed (server : RegistryServer) (clientId namespaceName : String)
    (now : ℤ) :
    Consumed server clientId namespaceName now
      (server.consumeRequest clientId namespaceName now) := by
  unfold consumeRequest
  split
  case isTrue notAnId => exact .invalid (Bool.eq_false_iff.mpr notAnId)
  case isFalse proper =>
    dsimp only
    split
    case h_1 absent =>
      split
      case isTrue full => exact .full absent full
      case isFalse => exact .opened absent (not_not.mp proper)
    case h_2 window found =>
      rcases get_filter_eq_some.mp found with ⟨found', runs⟩
      have runs' : server.windowIsOver window now = false := by simpa using runs
      rw [if_neg (by
        change ¬ server.windowIsOver window now = true
        simp [runs'])]
      have counted := @Consumed.counted server clientId namespaceName now window found' runs'
      have same : ((countRequest window namespaceName).namespaceCounts.get
          namespaceName).getD 0 = (window.namespaceCounts.get namespaceName).getD 0 + 1 := by
        rw [countRequest, get_set_self, Option.getD_some]
      rw [same]
      exact counted

theorem RegistryServer.Kept.of_windows (kept : server.Kept limits)
    {clientWindows : InsertionMap String ClientWindow}
    (tracked : ∀ clientId window, clientWindows.get clientId = some window →
      window.namespaceCounts.size ≤ server.limits.maxRequestsPerWindow) :
    RegistryServer.Kept { server with clientWindows } limits where
  wellFormed := ⟨kept.wellFormed.inside, kept.wellFormed.apart⟩
  owned := kept.owned
  limited := kept.limited
  valid := kept.valid
  within := ⟨kept.within.namespaces, kept.within.perNamespace, kept.within.perClient, tracked⟩

theorem RegistryServer.Kept.consumeRequest (kept : server.Kept limits) {clientId namespaceName : String}
    {now : ℤ} (tracks : server.TracksNamespace clientId namespaceName now) :
    (server.consumeRequest clientId namespaceName now).1.Kept limits := by
  have dropped : ∀ other window, (server.dropWindows now).clientWindows.get other = some window →
      window.namespaceCounts.size ≤ server.limits.maxRequestsPerWindow :=
    fun other window found =>
      kept.within.tracked other window (get_filter_eq_some.mp found).1
  have set : ∀ window : ClientWindow,
      window.namespaceCounts.size ≤ server.limits.maxRequestsPerWindow →
        ((server.dropWindows now).setWindow clientId window).Kept limits := by
    intro window small
    apply kept.of_windows
    intro other held found
    rw [get_set] at found
    split at found
    · cases found
      exact small
    · exact dropped other held found
  have positive := (RegistryLimits.pos_of_isValid kept.valid).2
  rw [← kept.limited] at positive
  have consumed := consumeRequest_consumed server clientId namespaceName now
  revert consumed
  generalize server.consumeRequest clientId namespaceName now = result
  intro consumed
  cases consumed with
  | invalid notAnId => exact kept
  | full absent full => exact kept.of_windows dropped
  | opened absent proper => exact set _ positive
  | @counted window found runs =>
    apply set
    change (window.namespaceCounts.set _ _).size ≤ _
    have small := kept.within.tracked clientId window found
    rw [size_set]
    rcases tracks window found with ended | free | known
    · rw [runs] at ended
      cases ended
    · split <;> omega
    · rw [if_neg (Option.ne_none_iff_isSome.mpr known)]
      exact small

end Steps

section Program

variable {Key : Type} {env : RecordEnvironment Key} {localeLe : String → String → Bool}
  {limits : RegistryLimits}

def Registering.registration : Registering Key → Registration
  | .admitting registration => registration
  | .validating registration _ => registration
  | .validated registration _ => registration

/-- Requests find room for their namespace, and registrations find room when they are stored. -/
def registryGuard (Key : Type) :
    Guard RegistryRun (Registering Key) RegistryRequest RegistryEvent where
  start := fun run request =>
    match request with
    | .register request consumed _ false => request.clientId = request.record.peerId →
      run.server.TracksNamespace request.clientId request.record.namespaceName consumed
    | .discover clientId namespaceName _ consumed _ false =>
      run.server.TracksNamespace clientId namespaceName consumed
    | _ => True
  resume := fun run event task =>
    match event, task with
    | .settled, .validated registration (.ok _) => run.server.HasRoom registration.request
    | _, _ => True

instance (run : RegistryRun) (request : RegistryRequest) :
    Decidable ((registryGuard Key).start run request) := by
  unfold registryGuard
  dsimp only
  split <;> infer_instance

instance (run : RegistryRun) (event : RegistryEvent) (task : Registering Key) :
    Decidable ((registryGuard Key).resume run event task) := by
  unfold registryGuard
  dsimp only
  split <;> infer_instance

theorem HoldsMap.of_fewer {server next : RegistryServer} {registration : Registration}
    (holds : HoldsMap server registration) (longer : server.maps.length ≤ next.maps.length)
    (fewer : ∀ namespaceName place, next.records.get namespaceName = some place →
      server.records.get namespaceName = some place ∨ server.maps.length ≤ place) :
    HoldsMap next registration where
  ownClient := holds.ownClient
  inside := fun place mem => (holds.inside place mem).trans_le longer
  own := by
    intro place mem namespaceName current
    rcases fewer namespaceName place current with old | new
    · exact holds.own place mem namespaceName old
    · exact absurd (holds.inside place mem) (Nat.not_lt.mpr new)

def LeavesMaps (server next : RegistryServer) : Prop :=
  ∀ registration, HoldsMap server registration → HoldsMap next registration

theorem leavesMaps_of_same {server next : RegistryServer} (maps : next.maps = server.maps)
    (records : next.records = server.records) : LeavesMaps server next := by
  intro registration holds
  apply holds.of_fewer
  · rw [maps]
  · intro namespaceName place current
    rw [records] at current
    exact Or.inl current

theorem leavesMaps_consumeRequest (server : RegistryServer) (clientId namespaceName : String)
    (now : ℤ) : LeavesMaps server (server.consumeRequest clientId namespaceName now).1 := by
  rcases consumeRequest_fst server clientId namespaceName now with ⟨windows, same⟩
  rw [same]
  exact leavesMaps_of_same rfl rfl

theorem leavesMaps_sweepExpired (server : RegistryServer) (now : ℤ) :
    LeavesMaps server (server.sweepExpired now) := by
  intro registration holds
  apply holds.of_fewer
  · rw [sweepExpired, List.length_mapIdx]
  · intro namespaceName place current
    exact Or.inl (get_filter_eq_some.mp current).1

theorem leavesMaps_store (server : RegistryServer) (request : RegistrationRequest)
    (namespaceRecords : Option ℕ) (accepted : AcceptedRecord) :
    LeavesMaps server (server.store request namespaceRecords accepted) := by
  intro registration holds
  cases namespaceRecords with
  | some place =>
    apply holds.of_fewer
    · rw [store, List.length_modify]
    · exact fun namespaceName place current => Or.inl current
  | none =>
    apply holds.of_fewer
    · rw [store, List.length_append]
      exact Nat.le_add_right _ _
    · intro namespaceName place current
      change (server.records.set _ _).get namespaceName = some place at current
      rw [get_set] at current
      split at current
      · cases current
        exact Or.inr (Nat.le_refl _)
      · exact Or.inl current

def KeepsServer (limits : RegistryLimits) (server : RegistryServer)
    (part : RegistryRun × Option (Registering Key)) : Prop :=
  part.1.server.Kept limits ∧ LeavesMaps server part.1.server ∧
    ∀ new ∈ part.2, HoldsMap part.1.server new.registration

theorem keepsServer_begin {run : RegistryRun} {request : RegistryRequest} (kept : run.server.Kept limits)
    (allowed : (registryGuard Key).start run request) :
    KeepsServer limits run.server (@beginRegistry Key localeLe request run) := by
  have counts : ∀ {clientId namespaceName now server rejected},
      run.server.TracksNamespace clientId namespaceName now →
      run.server.consumeRequest clientId namespaceName now = (server, rejected) →
        server.Kept limits ∧ LeavesMaps run.server server := by
    intro clientId namespaceName now server rejected tracks consumed
    have kept' := kept.consumeRequest tracks
    have leaves := leavesMaps_consumeRequest run.server clientId namespaceName now
    rw [consumed] at kept' leaves
    exact ⟨kept', leaves⟩
  have sweeps : ∀ {server : RegistryServer} (now : ℤ), server.Kept limits ∧ LeavesMaps run.server server →
      (server.sweepExpired now).Kept limits ∧ LeavesMaps run.server (server.sweepExpired now) := by
    intro server now holds
    exact ⟨holds.1.sweepExpired now, fun registration before =>
      leavesMaps_sweepExpired server now registration (holds.2 registration before)⟩
  have same : run.server.Kept limits ∧ LeavesMaps run.server run.server := ⟨kept, fun _ holds => holds⟩
  have ends : ∀ {next : RegistryRun}, next.server.Kept limits ∧ LeavesMaps run.server next.server →
      KeepsServer limits run.server (next, (none : Option (Registering Key))) :=
    fun holds => ⟨holds.1, holds.2, by simp⟩
  unfold beginRegistry
  split
  · exact ends same
  · exact ends same
  · split
    · exact ends same
    · rename_i ownClient
      split
      case h_1 consumed => exact ends (counts (allowed (not_not.mp ownClient)) consumed)
      case h_2 server consumed =>
        have swept := fun now => sweeps now (counts (allowed (not_not.mp ownClient)) consumed)
        dsimp only
        split
        · exact ends (swept _)
        · refine ⟨(swept _).1, (swept _).2, fun new isNew => ?_⟩
          cases Option.mem_some.mp isNew
          exact ⟨not_not.mp ownClient, (swept _).1.wellFormed.inside _,
            fun place current namespaceName found =>
              (swept _).1.wellFormed.apart _ _ place found current⟩
  · split
    case h_1 consumed => exact ends (counts allowed consumed)
    case h_2 server consumed =>
      have swept := fun now => sweeps now (counts allowed consumed)
      dsimp only
      split
      · exact ends (swept _)
      · exact ends (swept _)

theorem keepsServer_follow {run : RegistryRun} {registration : Registration}
    (part : ValidatorRun × Option (Validating Key)) (kept : run.server.Kept limits)
    (holds : HoldsMap run.server registration) :
    KeepsServer limits run.server (followValidation registration part run) := by
  have same : ∀ validator, RegistryServer.Kept { run.server with validator } limits := by
    intro validator
    exact ⟨⟨kept.wellFormed.inside, kept.wellFormed.apart⟩, kept.owned, kept.limited,
      kept.valid, ⟨kept.within.namespaces, kept.within.perNamespace, kept.within.perClient, kept.within.tracked⟩⟩
  have leavesMaps : ∀ validator, LeavesMaps run.server { run.server with validator } :=
    fun validator => leavesMaps_of_same rfl rfl
  unfold followValidation
  dsimp only
  split
  · refine ⟨same _, leavesMaps _, fun new isNew => ?_⟩
    cases Option.mem_some.mp isNew
    exact leavesMaps _ _ holds
  · refine ⟨same _, leavesMaps _, fun new isNew => ?_⟩
    cases Option.mem_some.mp isNew
    exact leavesMaps _ _ holds
  · exact ⟨same _, leavesMaps _, by simp⟩

theorem keepsServer_continue {run : RegistryRun} {event : RegistryEvent} {task : Registering Key}
    (kept : run.server.Kept limits) (holds : HoldsMap run.server task.registration)
    (allowed : (registryGuard Key).resume run event task) :
    KeepsServer limits run.server (continueRegister env event task run) := by
  have still : KeepsServer limits run.server (run, some task) := by
    refine ⟨kept, fun _ holds => holds, fun new isNew => ?_⟩
    cases Option.mem_some.mp isNew
    exact holds
  unfold continueRegister
  split
  · exact ⟨kept, fun _ holds => holds, by simp⟩
  · exact keepsServer_follow _ kept holds
  · exact keepsServer_follow _ kept holds
  · rename_i registration result
    cases result with
    | error rejected => exact ⟨kept, fun _ holds => holds, by simp [finishRegister]⟩
    | ok accepted =>
      exact ⟨kept.store holds allowed accepted, leavesMaps_store _ _ _ _, by simp⟩
  · exact still

theorem registry_keeps :
    (registry env localeLe).Keeps (registryGuard Key) (fun run => run.server.Kept limits)
      (fun run task => HoldsMap run.server task.registration) where
  start := by
    intro run request kept allowed
    rcases @keepsServer_begin _ localeLe limits run request kept allowed with ⟨kept', leavesMaps, new⟩
    exact ⟨kept', fun task holds => leavesMaps _ holds, new⟩
  resume := by
    intro run event task kept holds allowed
    rcases keepsServer_continue kept holds allowed with ⟨kept', leavesMaps, new⟩
    exact ⟨kept', fun task holds => leavesMaps _ holds, new⟩

end Program

section Challenges

/-- A challenge finds room when its tag is there, or replaces one with its nonce. -/
def challengeGuard : Guard PolicyRun Admitting PolicyRequest PolicyEvent where
  start := fun _ _ => True
  resume := fun run event task =>
    match event, task with
    | .settled, .issuing challenge => (run.policy.proofChallenges.get challenge.nonce).isSome ∨
        run.policy.proofChallenges.size < run.policy.limits.maxOutstandingChallenges
    | _, _ => True

instance (run : PolicyRun) (request : PolicyRequest) :
    Decidable (challengeGuard.start run request) :=
  inferInstanceAs (Decidable True)

instance (run : PolicyRun) (event : PolicyEvent) (task : Admitting) :
    Decidable (challengeGuard.resume run event task) := by
  unfold challengeGuard
  dsimp only
  split <;> infer_instance

def AdmissionPolicy.Bounded (policy : AdmissionPolicy) (limits : ProofOfWorkLimits) : Prop :=
  policy.limits = limits ∧ policy.proofChallenges.size ≤ limits.maxOutstandingChallenges

variable {policy : AdmissionPolicy} {limits : ProofOfWorkLimits}

section

variable (bounded : policy.Bounded limits)
include bounded

theorem AdmissionPolicy.Bounded.filter (keep : String × ℕ → Bool) : AdmissionPolicy.Bounded
      { policy with proofChallenges := policy.proofChallenges.filter keep } limits :=
  ⟨bounded.1, (List.length_filter_le _ _).trans bounded.2⟩

theorem AdmissionPolicy.Bounded.beginIssue (namespaceName clientId peerId nonce : String)
    (swept issuedAtMs : ℤ) :
    (policy.beginIssue namespaceName clientId peerId nonce swept issuedAtMs).1.Bounded limits := by
  unfold AdmissionPolicy.beginIssue
  split
  · exact bounded
  · dsimp only
    split
    · exact bounded.filter _
    · split
      · exact bounded.filter _
      · exact bounded.filter _

theorem AdmissionPolicy.Bounded.beginVerify (request : AdmissionRequest) (now : ℤ) :
    (policy.beginVerify request now).1.Bounded limits := by
  unfold AdmissionPolicy.beginVerify
  split
  · exact bounded
  · split
    · exact bounded
    · split
      · exact bounded
      · split
        · exact bounded.filter _
        · split
          · exact bounded
          · split
            · exact bounded
            · exact bounded

theorem AdmissionPolicy.Bounded.finishIssue (env : ProofEnvironment)
    {challenge : ProofOfWorkChallengeV1}
    (room : (policy.proofChallenges.get challenge.nonce).isSome ∨
      policy.proofChallenges.size < policy.limits.maxOutstandingChallenges) :
    (policy.finishIssue env challenge).1.Bounded limits := by
  refine ⟨bounded.1, ?_⟩
  change (policy.proofChallenges.set _ _).size ≤ _
  have within := bounded.2
  rw [size_set]
  rcases room with known | free
  · rw [if_neg (Option.ne_none_iff_isSome.mpr known)]
    exact within
  · rw [bounded.1] at free
    split <;> omega

end

theorem admission_keeps (env : ProofEnvironment) :
    (admission env).Keeps challengeGuard (fun run => run.policy.Bounded limits)
      (fun _ _ => True) where
  start := by
    intro run request bounded _
    refine ⟨?_, fun _ _ => trivial, fun _ _ => trivial⟩
    cases request with
    | issueChallenge namespaceName clientId peerId nonce swept issuedAtMs =>
      have begun := bounded.beginIssue namespaceName clientId peerId nonce swept issuedAtMs
      change (beginAdmission _ run).1.policy.Bounded limits
      unfold beginAdmission
      dsimp only
      split <;> exact begun
    | evaluate request now =>
      have begun := bounded.beginVerify request now
      change (beginAdmission _ run).1.policy.Bounded limits
      unfold beginAdmission
      dsimp only
      split <;> exact begun
  resume := by
    intro run event task bounded _ allowed
    refine ⟨?_, fun _ _ => trivial, fun _ _ => trivial⟩
    change (continueAdmission env event task run).1.policy.Bounded limits
    unfold continueAdmission
    split
    · exact bounded
    · exact bounded.finishIssue env allowed
    · split
      · exact bounded
      · exact bounded
    · split
      · exact bounded
      · exact bounded

end Challenges

section Service

variable {Key : Type}

/-- Calls of `register` and `discover` on a server and of `issueChallenge` on its policy. -/
def registryCalls (env : RecordEnvironment Key) (proofs : ProofEnvironment)
    (localeLe : String → String → Bool) :
    Program (RegistryRun × PolicyRun) (Registering Key ⊕ Admitting)
      (RegistryRequest ⊕ PolicyRequest) (RegistryEvent ⊕ PolicyEvent) :=
  (registry env localeLe).both (admission proofs)

def idleRegistry (Key : Type) (id : String) (limits : RegistryLimits) (validatorLimits : RecordLimits)
    (proofLimits : ProofOfWorkLimits) :
    Config (RegistryRun × PolicyRun) (Registering Key ⊕ Admitting) :=
  ⟨(.idle id limits validatorLimits, (unusedPolicy proofLimits).shared), []⟩

abbrev ServerAction := Action (RegistryRequest ⊕ PolicyRequest) (RegistryEvent ⊕ PolicyEvent)

/-- Whatever is stored or tracked finds room at that moment. -/
def FindsRoom : Config (RegistryRun × PolicyRun) (Registering Key ⊕ Admitting) →
    ServerAction → Prop :=
  ((registryGuard Key).both challengeGuard).Allows

instance (config : Config (RegistryRun × PolicyRun) (Registering Key ⊕ Admitting))
    (action : ServerAction) : Decidable (FindsRoom config action) :=
  inferInstanceAs (Decidable (((registryGuard Key).both challengeGuard).Allows config action))

theorem idle_kept (id : String) {limits : RegistryLimits} (validatorLimits : RecordLimits)
    (valid : limits.isValid = true) :
    (RegistryRun.idle id limits validatorLimits).server.Kept limits where
  wellFormed := ⟨by simp [RegistryRun.idle], by simp [RegistryRun.idle]⟩
  owned := by
    intro namespaceName peerId stored found
    cases found
  limited := rfl
  valid := valid
  within := ⟨Nat.zero_le _, by simp [RegistryRun.idle], fun _ => Nat.zero_le _,
    by simp [RegistryRun.idle]⟩

/--
The limits of a registry hold in every state that its calls can reach in any
interleaving, if whatever is stored or tracked finds room at that moment.
-/
theorem registry_stays_within_limits {env : RecordEnvironment Key} {proofs : ProofEnvironment}
    {localeLe : String → String → Bool} {id : String} {limits : RegistryLimits}
    {validatorLimits : RecordLimits} {proofLimits : ProofOfWorkLimits}
    {actions : List ServerAction}
    (valid : limits.isValid = true)
    (permits : (registryCalls env proofs localeLe).Permits FindsRoom
      (idleRegistry Key id limits validatorLimits proofLimits) actions) :
    let reached := ((registryCalls env proofs localeLe).run
      (idleRegistry Key id limits validatorLimits proofLimits) actions).shared
    reached.1.server.limits = limits ∧ reached.1.server.WithinLimits ∧
      reached.2.policy.proofChallenges.size ≤ proofLimits.maxOutstandingChallenges := by
  have keeps := (@registry_keeps _ env localeLe limits).both (@admission_keeps proofLimits proofs)
  have idle : (idleRegistry Key id limits validatorLimits proofLimits).shared.1.server.Kept limits ∧
      (idleRegistry Key id limits validatorLimits proofLimits).shared.2.policy.Bounded proofLimits :=
    ⟨idle_kept id validatorLimits valid, rfl, Nat.zero_le _⟩
  have kept := keeps.run idle (by simp [idleRegistry]) permits
  exact ⟨kept.1.limited, kept.1.within, kept.2.2⟩

end Service

namespace CapacityExample

open LedgerExample RegistryExample

def limits : RegistryLimits :=
  { defaultRegistryLimits with maxNamespaces := 1, maxRecordsPerClient := 1, maxRequestsPerWindow := 2 }

def proofLimits : ProofOfWorkLimits :=
  { defaultProofOfWorkLimits with maxOutstandingChallenges := 1, pressureStep := 1 }

def elsewhere : SignedDrpRecordV1 :=
  { first with namespaceName := "drp-room:v1:BAAAAAAAAAAAAAAAAAAAAA" }

def atServer : Action RegistryRequest RegistryEvent → ServerAction
  | .start request => .start (.inl request)
  | .resume index event => .resume index (.inl event)

def askFor (namespaceName : String) : ServerAction :=
  .start (.inl (.discover "carol" namespaceName none 100000 100000 false))

def issueTo (peerId nonce : String) : ServerAction :=
  .start (.inr (.issueChallenge room peerId peerId nonce 100000 100000))

def tagged : ServerAction :=
  .resume 0 (.inr .settled)

def calls : Program (RegistryRun × PolicyRun) (Registering String ⊕ Admitting)
    (RegistryRequest ⊕ PolicyRequest) (RegistryEvent ⊕ PolicyEvent) :=
  registryCalls environment ⟨id, fun _ => []⟩ fun left right => utf16 left ≤ utf16 right

def idle : Config (RegistryRun × PolicyRun) (Registering String ⊕ Admitting) :=
  idleRegistry String "endpoint" limits defaultRecordLimits proofLimits

def reached (actions : List ServerAction) : RegistryRun × PolicyRun :=
  (calls.run idle actions).shared

def overlapping : List ServerAction :=
  ([register first, register elsewhere] ++ events.flatMap fun event => [event, event]).map atServer

end CapacityExample

open LedgerExample RegistryExample CapacityExample in
theorem registry_stays_within_limits_in_turn :
    (reached ((register first :: events).map atServer ++
      [askFor room, issueTo "bob" "nonce", tagged])).1.server.records.size = 1 ∧
    (reached ((register first :: events).map atServer ++
      [askFor room, issueTo "bob" "nonce", tagged])).1.server.WithinLimits := by
  have permits : calls.Permits FindsRoom idle ((register first :: events).map atServer ++
      [askFor room, issueTo "bob" "nonce", tagged]) := by decide +kernel
  unfold calls idle at permits
  have within := registry_stays_within_limits (by decide) permits
  refine ⟨by decide +kernel, ?_⟩
  unfold reached calls idle
  exact within.2.1

open LedgerExample RegistryExample CapacityExample in
/--
Two registrations of `alice` in two rooms overlap, and both are stored.  A client that is
rejected for its rate is tracked for another namespace all the same.  Two peers ask for
challenges before the first one has its tag.
-/
theorem registry_exceeds_limits :
    limits.maxNamespaces < (reached overlapping).1.server.records.size ∧
    limits.maxRecordsPerClient < (reached overlapping).1.server.countClientRecords "alice" ∧
    ((reached [askFor "a", askFor "b", askFor "c"]).1.server.clientWindows.get "carol").any
      (fun window => limits.maxRequestsPerWindow < window.namespaceCounts.size) = true ∧
    proofLimits.maxOutstandingChallenges < (reached [issueTo "alice" "first",
      issueTo "bob" "second", tagged, tagged]).2.policy.proofChallenges.size := by
  refine ⟨by decide +kernel, by decide +kernel, by decide +kernel, by decide +kernel⟩

end TsDrp.Rendezvous
