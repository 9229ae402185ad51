import TsDrp.Rendezvous.Admission
import TsDrp.Rendezvous.ReplayLedger

/-!
# The registry server

A `RegistryServer` keeps the records of a namespace in a map of their own.
`register` looks the map of its namespace up, waits for the admission policy and
for the validator, and writes into the map that it found, or into a new one if
there was none; `discover` reads a map in one go.  Both sweep expired records out
of all maps first and drop maps that have become empty.  The maps are objects
that a waiting registration holds on to; they are listed here, and namespaces
refer to them by their places.  What the policy decides and what the validator
waits for are inputs.
-/

namespace TsDrp.Rendezvous

open Cooperative InsertionMap

structure RegistryLimits where
  maxClients : ℕ
  maxNamespaces : ℕ
  maxRecordsPerClient : ℕ
  maxRecordsPerNamespace : ℕ
  maxRequestsPerNamespaceWindow : ℕ
  maxRequestsPerWindow : ℕ
  maxResponseRecords : ℕ
  requestWindowMs : ℕ

/-- `DEFAULT_REGISTRY_LIMITS`, as far as the server uses them. -/
def defaultRegistryLimits : RegistryLimits where
  maxClients := 256
  maxNamespaces := 64
  maxRecordsPerClient := 8
  maxRecordsPerNamespace := 64
  maxRequestsPerNamespaceWindow := 15
  maxRequestsPerWindow := 30
  maxResponseRecords := 64
  requestWindowMs := 60000

structure StoredRecord where
  admissionMode : String
  clientId : String
  record : SignedDrpRecordV1

structure ClientWindow where
  count : ℕ
  namespaceCounts : InsertionMap String ℕ
  startedAtMs : ℤ

structure RegistrationRequest where
  clientId : String
  record : SignedDrpRecordV1

structure RegistrationReceipt where
  admissionMode : String
  endpointId : String
  expiresAtMs : JsNumber
  refreshed : Bool
  sequence : JsNumber
deriving DecidableEq

structure RegistryRecordEnvelope where
  admissionMode : String
  record : SignedDrpRecordV1
deriving DecidableEq

/-- The maps that ever held records, and the places of those of the namespaces. -/
structure RegistryServer where
  id : String
  limits : RegistryLimits
  validator : RecordValidator
  clientWindows : InsertionMap String ClientWindow
  maps : List (InsertionMap String StoredRecord)
  records : InsertionMap String ℕ

namespace RegistryServer

variable (server : RegistryServer)

def openWindow (namespaceName : String) (now : ℤ) : ClientWindow where
  count := 1
  namespaceCounts := empty.set namespaceName 1
  startedAtMs := now

def countRequest (window : ClientWindow) (namespaceName : String) : ClientWindow :=
  { window with
    count := window.count + 1
    namespaceCounts := window.namespaceCounts.set namespaceName
      ((window.namespaceCounts.get namespaceName).getD 0 + 1) }

def windowIsOver (window : ClientWindow) (now : ℤ) : Bool :=
  server.limits.requestWindowMs ≤ now - window.startedAtMs

def setWindow (clientId : String) (window : ClientWindow) : RegistryServer :=
  { server with clientWindows := server.clientWindows.set clientId window }

def dropWindows (now : ℤ) : RegistryServer :=
  { server with
    clientWindows := server.clientWindows.filter fun entry => !server.windowIsOver entry.2 now }

def consumeRequest (clientId namespaceName : String) (now : ℤ) :
    RegistryServer × Option RegistryRejection :=
  if ¬isClientId clientId then (server, some ⟨.invalidClient, none⟩)
  else
    let server := server.dropWindows now
    match server.clientWindows.get clientId with
    | none =>
      if server.limits.maxClients ≤ server.clientWindows.size then
        (server, some ⟨.clientCapacityExceeded, none⟩)
      else (server.setWindow clientId (openWindow namespaceName now), none)
    | some existing =>
      if server.windowIsOver existing now then
        (server.setWindow clientId (openWindow namespaceName now), none)
      else
        let window := countRequest existing namespaceName
        let namespaceCount := (window.namespaceCounts.get namespaceName).getD 0
        (server.setWindow clientId window,
          if server.limits.maxRequestsPerWindow < window.count ∨
              server.limits.maxRequestsPerNamespaceWindow < namespaceCount then
            some ⟨.rateLimited, none⟩
          else none)

def sweepMap (now : ℤ) (records : InsertionMap String StoredRecord) :
    InsertionMap String StoredRecord :=
  records.filter fun entry => !entry.2.record.expiresAtMs.leInt now

def sweepExpired (now : ℤ) : RegistryServer :=
  let maps := server.maps.mapIdx fun place records =>
    if place ∈ server.records.values then sweepMap now records else records
  { server with
    maps := maps
    records := server.records.filter fun entry =>
      match maps[entry.2]? with
      | none => false
      | some records => 0 < records.size }

def mapAt (place : ℕ) : InsertionMap String StoredRecord := server.maps[place]?.getD .empty

def lookup (namespaceName peerId : String) : Option StoredRecord :=
  (server.records.get namespaceName).bind fun place => (server.mapAt place).get peerId

def countClientRecords (clientId : String) : ℕ :=
  (server.records.values.map fun place =>
    ((server.mapAt place).values.filter fun stored => stored.clientId = clientId).length).sum

/-- The checks of `register` before it waits for the first time. -/
def checkRegistration (request : RegistrationRequest) : Option RegistryRejection :=
  let namespaceRecords := server.records.get request.record.namespaceName
  match server.lookup request.record.namespaceName request.record.peerId with
  | some existing =>
    if request.record.sequence.le existing.record.sequence then
      some ⟨.recordRejected, some "replayed-sequence"⟩
    else none
  | none =>
    if namespaceRecords = none ∧ server.limits.maxNamespaces ≤ server.records.size then
      some ⟨.namespaceCapacityExceeded, none⟩
    else if server.limits.maxRecordsPerNamespace ≤
        (namespaceRecords.map fun place => (server.mapAt place).size).getD 0 then
      some ⟨.quotaExceeded, some "namespace record quota"⟩
    else if server.limits.maxRecordsPerClient ≤ server.countClientRecords request.clientId then
      some ⟨.quotaExceeded, some "client record quota"⟩
    else none

/-- The record is written into the map that was found, or into a new one. -/
def store (request : RegistrationRequest) (namespaceRecords : Option ℕ)
    (accepted : AcceptedRecord) : RegistryServer :=
  let stored : StoredRecord := ⟨accepted.admissionMode, request.clientId, accepted.record⟩
  match namespaceRecords with
  | some place =>
    { server with maps := server.maps.modify place (·.set request.record.peerId stored) }
  | none =>
    { server with
      maps := server.maps ++ [empty.set request.record.peerId stored]
      records := server.records.set request.record.namespaceName server.maps.length }

/-- A snapshot of a namespace, or of one peer in it, in the order of the locale. -/
def snapshot (localeLe : String → String → Bool) (namespaceName : String)
    (targetPeerId : Option String) : Except RegistryRejection (List RegistryRecordEnvelope) :=
  let records := ((server.records.get namespaceName).map fun place =>
    (server.mapAt place).values).getD []
  let records := records.filter fun stored =>
    targetPeerId.all fun target => stored.record.peerId = target
  if server.limits.maxResponseRecords < records.length then .error ⟨.responseCapExceeded, none⟩
  else .ok ((records.insertionSort fun left right =>
    localeLe left.record.peerId right.record.peerId = true).map fun stored =>
      ⟨stored.admissionMode, stored.record⟩)

end RegistryServer

/-- A call of `register` that waits: its request, the map it has found and the record in it. -/
structure Registration where
  request : RegistrationRequest
  namespaceRecords : Option ℕ
  refreshed : Bool

/-- A registration waits for the policy, for the validator, or for its turn to store. -/
inductive Registering (Key : Type) where
  | admitting (registration : Registration)
  | validating (registration : Registration) (validation : Validating Key)
  | validated (registration : Registration) (result : Except RejectedRecord AcceptedRecord)

inductive Observation where
  | swept (now : ℤ)
  | registered (record : SignedDrpRecordV1) (receipt : RegistrationReceipt)
  | rejected (rejection : RegistryRejection)
  | discovered (namespaceName : String) (targetPeerId : Option String)
      (records : List RegistryRecordEnvelope)
deriving DecidableEq

structure RegistryRun where
  server : RegistryServer
  log : List Observation

/-- A call with the two readings of the clock it makes, and whether its signal is aborted. -/
inductive RegistryRequest where
  | register (request : RegistrationRequest) (consumed swept : ℤ) (aborted : Bool)
  | discover (clientId namespaceName : String) (targetPeerId : Option String) (consumed swept : ℤ)
      (aborted : Bool)

/-- What a registration waits for; an abortion or an exception ends the call. -/
inductive RegistryEvent where
  | aborted
  | decided (admission : AdmissionDecision) (now : ℤ)
  | validation (event : ValidateEvent)
  | settled

namespace RegistryRun

variable (run : RegistryRun)

def observes (observation : Observation) : RegistryRun :=
  { run with log := run.log ++ [observation] }

def stores (registration : Registration) (accepted : AcceptedRecord) : RegistryRun :=
  { run with
    server := run.server.store registration.request registration.namespaceRecords accepted }

def idle (id : String) (limits : RegistryLimits) (validatorLimits : RecordLimits) : RegistryRun where
  server := { id, limits, validator := { limits := validatorLimits, sequences := .empty },
              clientWindows := .empty, maps := [], records := .empty }
  log := []

end RegistryRun

section Program

variable {Key : Type} (env : RecordEnvironment Key) (localeLe : String → String → Bool)

def beginRegistry (request : RegistryRequest) (run : RegistryRun) :
    RegistryRun × Option (Registering Key) :=
  match request with
  | .register _ _ _ true => (run, none)
  | .discover _ _ _ _ _ true => (run, none)
  | .register request consumed swept false =>
    if request.clientId ≠ request.record.peerId then
      (run.observes (.rejected ⟨.invalidClient,
        some "registration rate key must equal the signed Peer ID"⟩), none)
    else
      match run.server.consumeRequest request.clientId request.record.namespaceName consumed with
      | (server, some rejection) => ({ run with server }.observes (.rejected rejection), none)
      | (server, none) =>
        let server := server.sweepExpired swept
        let run := { run with server }.observes (.swept swept)
        match server.checkRegistration request with
        | some rejection => (run.observes (.rejected rejection), none)
        | none => (run, some (.admitting
            { request, namespaceRecords := server.records.get request.record.namespaceName
              refreshed := (server.lookup request.record.namespaceName
                request.record.peerId).isSome }))
  | .discover clientId namespaceName targetPeerId consumed swept false =>
    match run.server.consumeRequest clientId namespaceName consumed with
    | (server, some rejection) => ({ run with server }.observes (.rejected rejection), none)
    | (server, none) =>
      let server := server.sweepExpired swept
      let run := { run with server }.observes (.swept swept)
      match server.snapshot localeLe namespaceName targetPeerId with
      | .error rejection => (run.observes (.rejected rejection), none)
      | .ok records => (run.observes (.discovered namespaceName targetPeerId records), none)

def followValidation (registration : Registration) (part : ValidatorRun × Option (Validating Key))
    (run : RegistryRun) : RegistryRun × Option (Registering Key) :=
  let run := { run with server := { run.server with validator := part.1.validator } }
  match part.2, part.1.returned with
  | some validation, _ => (run, some (.validating registration validation))
  | none, result :: _ => (run, some (.validated registration result))
  | none, [] => (run, none)

/-- What `register` does with the result of the validation. -/
def finishRegister (registration : Registration) (result : Except RejectedRecord AcceptedRecord)
    (run : RegistryRun) : RegistryRun :=
  let request := registration.request
  match result with
  | .error rejected => run.observes (.rejected
      ⟨if rejected.code = .admissionRejected then .admissionRejected else .recordRejected,
        some rejected.code.text⟩)
  | .ok accepted =>
    (run.stores registration accepted).observes (.registered request.record
      { admissionMode := accepted.admissionMode, endpointId := run.server.id
        expiresAtMs := request.record.expiresAtMs, refreshed := registration.refreshed
        sequence := request.record.sequence })

/-- The parts of `register` behind its suspension points and those of the validation. -/
def continueRegister (event : RegistryEvent) (task : Registering Key) (run : RegistryRun) :
    RegistryRun × Option (Registering Key) :=
  match task, event with
  | _, .aborted => (run, none)
  | .admitting registration, .decided admission now =>
    let record := registration.request.record
    followValidation registration (beginValidate env
      ⟨record.toValue, ⟨some admission, record.namespaceName⟩, now, false⟩
      ⟨run.server.validator, now, []⟩) run
  | .validating registration validation, .validation event =>
    followValidation registration (continueValidate env event validation
      ⟨run.server.validator, 0, []⟩) run
  | .validated registration result, .settled => (finishRegister registration result run, none)
  | task, _ => (run, some task)

def registry : Program RegistryRun (Registering Key) RegistryRequest RegistryEvent where
  start := beginRegistry localeLe
  resume := continueRegister env

end Program

section Specification

def Observation.Ends (observation : Observation) (record : SignedDrpRecordV1) : Prop :=
  match observation with
  | .swept now => record.expiresAtMs.leInt now = true
  | .registered later _ => later.namespaceName = record.namespaceName ∧
      later.peerId = record.peerId ∧ record.sequence.lt later.sequence = true
  | _ => False

/-- The record was accepted, and nothing has ended it since. -/
def Outstanding (log : List Observation) (record : SignedDrpRecordV1) : Prop :=
  ∃ before receipt after, log = before ++ .registered record receipt :: after ∧
    ∀ observation ∈ after, ¬observation.Ends record

/-- A discovery that returns records returns all outstanding ones it asks for. -/
def FindsOutstanding (log : List Observation) : Prop :=
  ∀ before namespaceName targetPeerId records after,
    log = before ++ .discovered namespaceName targetPeerId records :: after →
      ∀ record, Outstanding before record → record.namespaceName = namespaceName →
        (∀ target ∈ targetPeerId, record.peerId = target) → record ∈ records.map (·.record)

/--
When a registration is stored, its namespace still has the map that was found for
it, or still none, and the record of the peer in it has a lower sequence.
-/
def StillCurrent {Key : Type} (config : Config RegistryRun (Registering Key)) :
    Action RegistryRequest RegistryEvent → Prop
  | .resume index .settled =>
    match config.tasks[index]? with
    | some (.validated registration (.ok _)) =>
      let record := registration.request.record
      config.shared.server.records.get record.namespaceName = registration.namespaceRecords ∧
        ∀ existing ∈ config.shared.server.lookup record.namespaceName record.peerId,
          existing.record.sequence.lt record.sequence = true
    | _ => True
  | _ => True

instance {Key : Type} (config : Config RegistryRun (Registering Key))
    (action : Action RegistryRequest RegistryEvent) : Decidable (StillCurrent config action) := by
  unfold StillCurrent
  split
  · split <;> infer_instance
  · infer_instance

theorem log_cut {log before after : List Observation} {observation other : Observation}
    (whole : log ++ [observation] = before ++ other :: after) :
    (log = before ∧ observation = other ∧ after = []) ∨
      ∃ rest, log = before ++ other :: rest ∧ after = rest ++ [observation] := by
  rcases List.eq_nil_or_concat' after with rfl | ⟨rest, last, rfl⟩
  · rcases List.append_inj' whole rfl with ⟨same, sameLast⟩
    exact Or.inl ⟨same, List.singleton_inj.mp sameLast, rfl⟩
  · rw [← List.cons_append, ← List.append_assoc] at whole
    rcases List.append_inj' whole rfl with ⟨same, sameLast⟩
    exact Or.inr ⟨rest, same, by rw [sameLast]⟩

theorem outstanding_concat {log : List Observation} {observation : Observation}
    {record : SignedDrpRecordV1} (outstanding : Outstanding (log ++ [observation]) record) :
    (∃ receipt, observation = .registered record receipt) ∨
      Outstanding log record ∧ ¬observation.Ends record := by
  rcases outstanding with ⟨before, receipt, after, whole, unended⟩
  rcases log_cut whole with ⟨_, last, _⟩ | ⟨rest, earlier, rfl⟩
  · exact Or.inl ⟨receipt, last⟩
  · refine Or.inr ⟨⟨before, receipt, rest, earlier, fun other mem => ?_⟩, ?_⟩
    · exact unended other (List.mem_append_left _ mem)
    · exact unended _ (List.mem_append_right _ List.mem_cons_self)

theorem FindsOutstanding.concat {log : List Observation} {observation : Observation}
    (finds : FindsOutstanding log)
    (last : ∀ namespaceName targetPeerId records,
      observation = .discovered namespaceName targetPeerId records →
        ∀ record, Outstanding log record → record.namespaceName = namespaceName →
          (∀ target ∈ targetPeerId, record.peerId = target) → record ∈ records.map (·.record)) :
    FindsOutstanding (log ++ [observation]) := by
  intro before namespaceName targetPeerId records after whole
  rcases log_cut whole with ⟨rfl, same, _⟩ | ⟨rest, earlier, _⟩
  · exact last _ _ _ same
  · exact finds _ _ _ _ rest earlier

end Specification

section Server

variable {server : RegistryServer}

/-- The maps of the namespaces exist, and no two namespaces share one. -/
structure RegistryServer.WellFormed (server : RegistryServer) : Prop where
  inside : ∀ namespaceName place, server.records.get namespaceName = some place →
    place < server.maps.length
  apart : ∀ namespaceName other place, server.records.get namespaceName = some place →
    server.records.get other = some place → namespaceName = other

theorem consumeRequest_fst (server : RegistryServer) (clientId namespaceName : String) (now : ℤ) :
    ∃ clientWindows, (server.consumeRequest clientId namespaceName now).1 =
      { server with clientWindows } := by
  unfold RegistryServer.consumeRequest
  split
  · exact ⟨_, rfl⟩
  · dsimp only
    split
    · split <;> exact ⟨_, rfl⟩
    · split <;> exact ⟨_, rfl⟩

theorem lookup_eq_some {namespaceName peerId : String} {stored : StoredRecord} :
    server.lookup namespaceName peerId = some stored ↔
      ∃ place records, server.records.get namespaceName = some place ∧
        server.maps[place]? = some records ∧ records.get peerId = some stored := by
  unfold RegistryServer.lookup RegistryServer.mapAt
  constructor
  · intro found
    rcases Option.bind_eq_some_iff.mp found with ⟨place, current, found⟩
    cases held : server.maps[place]? with
    | none =>
      rw [held] at found
      cases found
    | some records =>
      rw [held] at found
      exact ⟨place, records, current, held, found⟩
  · rintro ⟨place, records, current, held, found⟩
    rw [current, Option.bind_some, held]
    exact found

theorem lookup_sweepExpired {namespaceName peerId : String} {stored : StoredRecord} {now : ℤ}
    (found : server.lookup namespaceName peerId = some stored)
    (fresh : ¬stored.record.expiresAtMs.leInt now = true) :
    (server.sweepExpired now).lookup namespaceName peerId = some stored := by
  rcases lookup_eq_some.mp found with ⟨place, records, current, held, found⟩
  have kept : (RegistryServer.sweepMap now records).get peerId = some stored :=
    get_filter_eq_some.mpr ⟨found, by simpa using fresh⟩
  have swept : (server.sweepExpired now).maps[place]? = some (RegistryServer.sweepMap now records) := by
    have listed : place ∈ server.records.values :=
      List.mem_map.mpr ⟨_, get_eq_some_iff.mp current, rfl⟩
    simp [RegistryServer.sweepExpired, List.getElem?_mapIdx, held, listed]
  refine lookup_eq_some.mpr ⟨place, _, get_filter_eq_some.mpr ⟨current, ?_⟩, swept, kept⟩
  change (match (server.sweepExpired now).maps[place]? with
    | none => false
    | some records => decide (0 < records.size)) = true
  rw [swept]
  exact decide_eq_true (List.length_pos_of_mem (get_eq_some_iff.mp kept))

theorem RegistryServer.WellFormed.sweepExpired (wellFormed : server.WellFormed) (now : ℤ) :
    (server.sweepExpired now).WellFormed := by
  have current : ∀ namespaceName place,
      (server.sweepExpired now).records.get namespaceName = some place →
        server.records.get namespaceName = some place :=
    fun namespaceName place found => (get_filter_eq_some.mp found).1
  refine ⟨fun namespaceName place found => ?_, fun namespaceName other place found found' => ?_⟩
  · rw [RegistryServer.sweepExpired, List.length_mapIdx]
    exact wellFormed.inside namespaceName place (current namespaceName place found)
  · exact wellFormed.apart _ _ _ (current _ _ found) (current _ _ found')

variable {request : RegistrationRequest} {namespaceRecords : Option ℕ} {accepted : AcceptedRecord}

theorem RegistryServer.WellFormed.store (wellFormed : server.WellFormed) :
    (server.store request namespaceRecords accepted).WellFormed := by
  cases namespaceRecords with
  | some place =>
    refine ⟨fun namespaceName place found => ?_, wellFormed.apart⟩
    rw [RegistryServer.store, List.length_modify]
    exact wellFormed.inside namespaceName place found
  | none =>
    -- The place of the new map lies behind those of all others.
    have cases : ∀ {namespaceName place},
        (server.records.set request.record.namespaceName server.maps.length).get namespaceName =
          some place →
        (namespaceName = request.record.namespaceName ∧ place = server.maps.length) ∨
          server.records.get namespaceName = some place ∧ place < server.maps.length := by
      intro namespaceName place found
      rw [get_set] at found
      split at found
      case isTrue same => exact Or.inl ⟨same, (Option.some.inj found).symm⟩
      case isFalse => exact Or.inr ⟨found, wellFormed.inside _ _ found⟩
    refine ⟨fun namespaceName place found => ?_, fun namespaceName other place found found' => ?_⟩
    · rw [RegistryServer.store, List.length_append, List.length_singleton]
      rcases cases found with ⟨_, rfl⟩ | ⟨_, inside⟩
      · exact Nat.lt_succ_self _
      · exact Nat.lt_succ_of_lt inside
    · rcases cases found with ⟨rfl, new⟩ | ⟨old, inside⟩ <;>
        rcases cases found' with ⟨rfl, new'⟩ | ⟨old', inside'⟩
      · rfl
      · omega
      · omega
      · exact wellFormed.apart _ _ _ old old'

theorem lookup_store (wellFormed : server.WellFormed)
    (current : server.records.get request.record.namespaceName = namespaceRecords)
    (namespaceName peerId : String) :
    (server.store request namespaceRecords accepted).lookup namespaceName peerId =
      if namespaceName = request.record.namespaceName ∧ peerId = request.record.peerId then
        some ⟨accepted.admissionMode, request.clientId, accepted.record⟩
      else server.lookup namespaceName peerId := by
  unfold RegistryServer.lookup RegistryServer.mapAt
  cases namespaceRecords with
  | some place =>
    have inside := wellFormed.inside _ _ current
    by_cases sameName : namespaceName = request.record.namespaceName
    · subst sameName
      simp [RegistryServer.store, current, List.getElem?_modify, inside, get_set]
    · cases held : server.records.get namespaceName with
      | none => simp [RegistryServer.store, held, sameName]
      | some other =>
        have different : place ≠ other := by
          rintro rfl
          exact sameName (wellFormed.apart _ _ _ held current)
        simp [RegistryServer.store, held, sameName, List.getElem?_modify, different]
  | none =>
    by_cases sameName : namespaceName = request.record.namespaceName
    · subst sameName
      simp [RegistryServer.store, current, get_set]
    · cases held : server.records.get namespaceName with
      | none => simp [RegistryServer.store, held, sameName, get_set]
      | some other =>
        have inside := wellFormed.inside _ _ held
        simp [RegistryServer.store, held, sameName, get_set, List.getElem?_append_left inside]

theorem mem_snapshot {localeLe : String → String → Bool} {namespaceName peerId : String}
    {targetPeerId : Option String} {records : List RegistryRecordEnvelope} {stored : StoredRecord}
    (taken : server.snapshot localeLe namespaceName targetPeerId = .ok records)
    (found : server.lookup namespaceName peerId = some stored)
    (target : ∀ target ∈ targetPeerId, stored.record.peerId = target) :
    stored.record ∈ records.map (·.record) := by
  rcases lookup_eq_some.mp found with ⟨place, held, current, isHeld, found⟩
  simp only [RegistryServer.snapshot, RegistryServer.mapAt, current, Option.map_some, isHeld,
    Option.getD_some] at taken
  split at taken
  · cases taken
  · cases taken
    rw [List.map_map, List.mem_map]
    refine ⟨stored, (List.mem_insertionSort _).mpr (List.mem_filter.mpr ⟨?_, ?_⟩), rfl⟩
    · exact List.mem_map.mpr ⟨_, get_eq_some_iff.mp found, rfl⟩
    · cases targetPeerId with
      | none => rfl
      | some wanted => simpa using target wanted rfl

end Server

section Invariant

variable {Key : Type} {env : RecordEnvironment Key} {localeLe : String → String → Bool}

structure RegistryRun.Sound (run : RegistryRun) : Prop where
  wellFormed : run.server.WellFormed
  stored : ∀ record, Outstanding run.log record → ∃ stored,
    run.server.lookup record.namespaceName record.peerId = some stored ∧ stored.record = record
  finds : FindsOutstanding run.log

def Registering.IsAbout : Registering Key → Prop
  | .admitting _ => True
  | .validating registration (.verifying candidate) => candidate.record = registration.request.record
  | .validating registration (.resolving candidate) => candidate.record = registration.request.record
  | .validated registration result =>
    ∀ accepted, result = .ok accepted → accepted.record = registration.request.record

variable {run next : RegistryRun} {task : Option (Registering Key)}

section

variable (sound : run.Sound)
include sound

theorem RegistryRun.Sound.of_same (maps : next.server.maps = run.server.maps)
    (records : next.server.records = run.server.records) (log : next.log = run.log) :
    next.Sound := by
  have lookup : ∀ namespaceName peerId,
      next.server.lookup namespaceName peerId = run.server.lookup namespaceName peerId := by
    intro namespaceName peerId
    simp only [RegistryServer.lookup, RegistryServer.mapAt, maps, records]
  refine ⟨⟨?_, ?_⟩, ?_, ?_⟩
  · rw [maps, records]
    exact sound.wellFormed.inside
  · rw [records]
    exact sound.wellFormed.apart
  · rw [log]
    intro record outstanding
    rw [lookup]
    exact sound.stored record outstanding
  · rw [log]
    exact sound.finds

theorem RegistryRun.Sound.rejected (rejection : RegistryRejection) :
    (run.observes (.rejected rejection)).Sound := by
  refine ⟨sound.wellFormed, fun record outstanding => ?_, sound.finds.concat nofun⟩
  rcases outstanding_concat outstanding with ⟨_, same⟩ | ⟨outstanding, _⟩
  · cases same
  · exact sound.stored record outstanding

theorem RegistryRun.Sound.swept (now : ℤ) :
    ({ run with server := run.server.sweepExpired now }.observes (.swept now)).Sound := by
  refine ⟨sound.wellFormed.sweepExpired now, fun record outstanding => ?_, sound.finds.concat nofun⟩
  rcases outstanding_concat outstanding with ⟨_, same⟩ | ⟨outstanding, fresh⟩
  · cases same
  · rcases sound.stored record outstanding with ⟨stored, found, rfl⟩
    exact ⟨stored, lookup_sweepExpired found fresh, rfl⟩

theorem RegistryRun.Sound.discovered {namespaceName : String} {targetPeerId : Option String}
    {records : List RegistryRecordEnvelope}
    (taken : run.server.snapshot localeLe namespaceName targetPeerId = .ok records) :
    (run.observes (.discovered namespaceName targetPeerId records)).Sound := by
  refine ⟨sound.wellFormed, fun record outstanding => ?_, sound.finds.concat ?_⟩
  · rcases outstanding_concat outstanding with ⟨_, same⟩ | ⟨outstanding, _⟩
    · cases same
    · exact sound.stored record outstanding
  · intro _ _ _ same record outstanding isOf target
    cases same
    rcases sound.stored record outstanding with ⟨stored, found, rfl⟩
    rw [isOf] at found
    exact mem_snapshot taken found target

theorem RegistryRun.Sound.registered {registration : Registration} {accepted : AcceptedRecord}
    {receipt : RegistrationReceipt}
    (current : run.server.records.get registration.request.record.namespaceName =
      registration.namespaceRecords)
    (higher : ∀ existing ∈ run.server.lookup registration.request.record.namespaceName
      registration.request.record.peerId,
        existing.record.sequence.lt registration.request.record.sequence = true)
    (isAbout : accepted.record = registration.request.record) :
    ((run.stores registration accepted).observes
      (.registered registration.request.record receipt)).Sound := by
  refine ⟨sound.wellFormed.store, fun record outstanding => ?_, sound.finds.concat nofun⟩
  change ∃ stored, (run.server.store _ _ _).lookup _ _ = some stored ∧ _
  rw [lookup_store sound.wellFormed current]
  rcases outstanding_concat outstanding with ⟨_, same⟩ | ⟨outstanding, unended⟩
  · cases same
    exact ⟨_, if_pos ⟨rfl, rfl⟩, isAbout⟩
  · rcases sound.stored record outstanding with ⟨stored, found, rfl⟩
    refine ⟨stored, ?_, rfl⟩
    rw [if_neg, found]
    rintro ⟨sameName, samePeer⟩
    rw [sameName, samePeer] at found
    exact unended ⟨sameName.symm, samePeer.symm, higher stored found⟩

theorem RegistryRun.Sound.begin {request : RegistryRequest}
    (begun : beginRegistry localeLe request run = (next, task)) :
    next.Sound ∧ ∀ new ∈ task, new.IsAbout := by
  have counted : ∀ {clientId namespaceName consumed server rejected},
      run.server.consumeRequest clientId namespaceName consumed = (server, rejected) →
        RegistryRun.Sound { run with server } := by
    intro clientId namespaceName consumed server rejected counted
    rcases consumeRequest_fst run.server clientId namespaceName consumed with ⟨windows, same⟩
    rw [counted] at same
    rw [show server = { run.server with clientWindows := windows } from same]
    exact sound.of_same rfl rfl rfl
  unfold beginRegistry at begun
  split at begun
  · cases begun
    exact ⟨sound, by simp⟩
  · cases begun
    exact ⟨sound, by simp⟩
  · split at begun
    · cases begun
      exact ⟨sound.rejected _, by simp⟩
    · split at begun
      case h_1 consumed =>
        cases begun
        exact ⟨(counted consumed).rejected _, by simp⟩
      case h_2 server consumed =>
        dsimp only at begun
        split at begun
        · cases begun
          exact ⟨((counted consumed).swept _).rejected _, by simp⟩
        · cases begun
          refine ⟨(counted consumed).swept _, fun new isNew => ?_⟩
          cases Option.mem_some.mp isNew
          trivial
  · split at begun
    case h_1 consumed =>
      cases begun
      exact ⟨(counted consumed).rejected _, by simp⟩
    case h_2 server consumed =>
      dsimp only at begun
      split at begun
      case h_1 =>
        cases begun
        exact ⟨((counted consumed).swept _).rejected _, by simp⟩
      case h_2 taken =>
        cases begun
        exact ⟨RegistryRun.Sound.discovered ((counted consumed).swept _) taken, by simp⟩

theorem RegistryRun.Sound.follow {registration : Registration}
    {part : ValidatorRun × Option (Validating Key)}
    (waits : ∀ validation ∈ part.2, (Registering.validating registration validation).IsAbout)
    (returns : ∀ result ∈ part.1.returned, ∀ accepted, result = .ok accepted →
      accepted.record = registration.request.record)
    (followed : followValidation registration part run = (next, task)) :
    next.Sound ∧ ∀ new ∈ task, new.IsAbout := by
  unfold followValidation at followed
  dsimp only at followed
  split at followed
  case h_1 validation waiting =>
    cases followed
    refine ⟨sound.of_same rfl rfl rfl, fun new isNew => ?_⟩
    cases Option.mem_some.mp isNew
    exact waits validation waiting
  case h_2 result rest _ returned =>
    cases followed
    refine ⟨sound.of_same rfl rfl rfl, fun new isNew => ?_⟩
    cases Option.mem_some.mp isNew
    exact returns result (returned ▸ List.mem_cons_self)
  case h_3 =>
    cases followed
    exact ⟨sound.of_same rfl rfl rfl, by simp⟩

end

theorem RegistryRun.Sound.continue {config : Config RegistryRun (Registering Key)} {index : ℕ}
    {event : RegistryEvent} {current : Registering Key} (sound : config.shared.Sound)
    (isAbout : current.IsAbout) (permitted : StillCurrent config (.resume index event))
    (found : config.tasks[index]? = some current)
    (continued : continueRegister env event current config.shared = (next, task)) :
    next.Sound ∧ ∀ new ∈ task, new.IsAbout := by
  unfold continueRegister at continued
  split at continued
  case h_1 =>
    cases continued
    exact ⟨sound, by simp⟩
  case h_2 registration admission now =>
    refine sound.follow ?_ ?_ continued <;>
      rcases beginValidate_cases ⟨registration.request.record.toValue,
        ⟨some admission, registration.request.record.namespaceName⟩, now, false⟩
        ⟨config.shared.server.validator, now, []⟩ with run | ⟨rejection, run⟩ | ⟨candidate, checked, run⟩
    all_goals rw [run]
    · simp
    · simp
    · intro validation waiting
      cases Option.mem_some.mp waiting
      have parsed := (check_eq_ok checked).1
      rw [parseRecord_toValue] at parsed
      exact (Except.ok.inj parsed).symm
    · simp
    · simp [ValidatorRun.returns]
    · simp
  case h_3 registration validation event =>
    refine sound.follow ?_ ?_ continued <;>
      rcases continueValidate_cases event validation ⟨config.shared.server.validator, 0, []⟩ with
        ⟨waiting, same, run⟩ | ⟨rejection, run⟩ |
          ⟨candidate, rfl, ⟨rejection, run⟩ | ⟨passed, run⟩⟩ | ⟨candidate, mode, rfl, run⟩
    all_goals rw [run]
    · rcases same with rfl | rfl
      · simp
      · intro again isSame
        cases Option.mem_some.mp isSame
        exact isAbout
    · simp
    · simp
    · intro again isSame
      cases Option.mem_some.mp isSame
      exact isAbout
    · simp
    · simp
    · simp [ValidatorRun.returns]
    · simp [ValidatorRun.returns]
    · simp
    · intro result mem accepted same
      cases List.mem_singleton.mp mem
      cases same
      exact isAbout
  case h_4 registration result =>
    cases continued
    refine ⟨?_, by simp⟩
    cases result with
    | error rejected => exact sound.rejected _
    | ok accepted =>
      rw [StillCurrent, found] at permitted
      exact sound.registered permitted.1 permitted.2 (isAbout accepted rfl)
  case h_5 =>
    cases continued
    refine ⟨sound, fun new isNew => ?_⟩
    cases Option.mem_some.mp isNew
    exact isAbout

/--
No accepted registration is lost.  If registrations are still current when they
are stored, every discovery that returns records returns each record it asks for
that was accepted before and has neither expired nor been replaced since.
-/
theorem accepted_registrations_are_found {id : String} {limits : RegistryLimits}
    {validatorLimits : RecordLimits} {actions : List (Action RegistryRequest RegistryEvent)}
    (permits : (registry env localeLe).Permits StillCurrent
      ⟨.idle id limits validatorLimits, []⟩ actions) :
    FindsOutstanding
      ((registry env localeLe).run ⟨.idle id limits validatorLimits, []⟩ actions).shared.log := by
  have idle : Program.Outline RegistryRun.Sound (fun _ task => task.IsAbout) (fun _ _ => True)
      (⟨.idle id limits validatorLimits, []⟩ : Config RegistryRun (Registering Key)) := by
    refine ⟨⟨⟨by simp [RegistryRun.idle], by simp [RegistryRun.idle]⟩, ?_, ?_⟩, by simp, .nil⟩
    · rintro record ⟨before, receipt, after, whole, _⟩
      simp [RegistryRun.idle] at whole
    · intro before namespaceName targetPeerId records after whole
      simp [RegistryRun.idle] at whole
  refine (Program.run_outline (fun config action shared task outline permitted effect => ?_) idle
    permits).shared.finds
  have others : ∀ other ∈ config.others action, other.IsAbout := by
    intro other mem
    cases action with
    | start request => exact outline.owns other mem
    | resume index event => exact outline.owns other (List.mem_of_mem_eraseIdx mem)
  have result : shared.Sound ∧ ∀ new ∈ task, new.IsAbout := by
    cases action with
    | start request => exact outline.shared.begin (Option.some.inj effect)
    | resume index event =>
      rcases Option.map_eq_some_iff.mp effect with ⟨current, found, continued⟩
      exact outline.shared.continue (outline.owns current (List.mem_of_getElem? found)) permitted
        found continued
  exact ⟨result.1, others, fun new isNew => ⟨result.2 new isNew, fun _ _ => trivial⟩⟩

end Invariant

namespace RegistryExample

open LedgerExample

def ofBob : SignedDrpRecordV1 :=
  record "bob" first.sequence first.issuedAtMs first.expiresAtMs

def register (record : SignedDrpRecordV1) : Action RegistryRequest RegistryEvent :=
  .start (.register ⟨record.peerId, record⟩ 100000 100000 false)

def events : List (Action RegistryRequest RegistryEvent) :=
  [.resume 0 (.decided ⟨true, "open", none⟩ 100000), .resume 0 (.validation .verified),
    .resume 0 (.validation (.resolved fun _ => (⟨true, []⟩, ⟨true, []⟩))), .resume 0 .settled]

def ask : Action RegistryRequest RegistryEvent :=
  .start (.discover "carol" room none 101000 101000 false)

def observed (actions : List (Action RegistryRequest RegistryEvent)) : List Observation :=
  ((registry environment fun left right => utf16 left ≤ utf16 right).run
    ⟨.idle "endpoint" defaultRegistryLimits defaultRecordLimits, []⟩ actions).shared.log

def receipt (record : SignedDrpRecordV1) : RegistrationReceipt :=
  ⟨"open", "endpoint", record.expiresAtMs, false, record.sequence⟩

end RegistryExample

open LedgerExample RegistryExample in
theorem accepted_registrations_are_found_in_turn :
    FindsOutstanding (observed (register first :: events ++ register ofBob :: events ++ [ask])) :=
  accepted_registrations_are_found (by decide +kernel)

open LedgerExample RegistryExample in
/--
`alice` and `bob` register in a room that is still unknown.  Neither call finds a
map, each makes one of its own, and the second one replaces the first: `alice` is
told that the registration was accepted, and is not found.
-/
theorem overlapping_registrations_lose_one :
    observed ([register first, register ofBob] ++
        events.flatMap (fun event => [event, event]) ++ [ask]) =
      [.swept 100000, .swept 100000, .registered first (receipt first),
        .registered ofBob (receipt ofBob), .swept 101000,
        .discovered room none [⟨"open", ofBob⟩]] ∧
    ¬FindsOutstanding (observed ([register first, register ofBob] ++
        events.flatMap (fun event => [event, event]) ++ [ask])) := by
  have log : observed ([register first, register ofBob] ++
      events.flatMap (fun event => [event, event]) ++ [ask]) =
    [.swept 100000, .swept 100000, .registered first (receipt first),
      .registered ofBob (receipt ofBob), .swept 101000,
      .discovered room none [⟨"open", ofBob⟩]] := by decide +kernel
  refine ⟨log, fun finds => ?_⟩
  have outstanding : Outstanding [.swept 100000, .swept 100000, .registered first (receipt first),
      .registered ofBob (receipt ofBob), .swept 101000] first := by
    refine ⟨[.swept 100000, .swept 100000], receipt first,
      [.registered ofBob (receipt ofBob), .swept 101000], rfl, fun observation mem => ?_⟩
    fin_cases mem
    · rintro ⟨_, samePeer, _⟩
      exact absurd samePeer (by decide)
    · unfold Observation.Ends
      decide
  have found := finds _ room none _ [] log first outstanding rfl (by simp)
  exact absurd found (by decide)

end TsDrp.Rendezvous
