import TsDrp.Rendezvous.RegistryCapacity

/-!
# The registry behind HTTP

The HTTP service takes the peer id that a registration names as the client whose
budget the request is counted against, and the registry counts the request before the
validator has looked at its signature.  Whoever sends registrations in the name of a
peer therefore uses up the budget of that peer.  Discoveries are counted against the
address they come from.
-/

namespace TsDrp.Rendezvous

open Cooperative RegistryServer InsertionMap
open JsValue (fieldOf)

/--
A request whose body was read, or the status it has if that fails, and the two readings
of the clock for it.  A namespace that is not a text is a key of its own in the maps of the
registry; which one is given with the request.
-/
structure HttpRequest where
  method : String
  url : String
  contentType : Option String
  contentLength : Option String
  remoteAddress : Option String
  body : Except ℕ JsValue
  otherKey : String
  consumed : ℤ
  swept : ℤ

inductive RegistryCall where
  | register (peerId : String) (record : JsValue)
  | discover (clientId namespaceName : String) (targetPeerId : Option String)

def isJsonContentType (value : Option String) : Bool :=
  match value with
  | none => false
  | some value =>
    (trim (value.toList.takeWhile (· ≠ ';'))).map Char.toLower = "application/json".toList

/-- No header counts as zero; `none` is a header that is not a proper length. -/
def parseContentLength (value : Option String) : Option ℕ :=
  match value with
  | none => some 0
  | some value =>
    if value.toList ≠ [] ∧ value.toList.all Char.isDigit then
      let length := value.toList.foldl (fun sum digit => sum * 10 + (digit.toNat - '0'.toNat)) 0
      if length < 2 ^ 53 then some length else none
    else none

def maxRequestBytes : ℕ := 64 * 1024

def transportClientId (request : HttpRequest) : String :=
  let address := request.remoteAddress.getD "unknown"
  let safe := address.toList.map fun char => if isBase64Url char then char else '-'
  "http-" ++ .ofList (safe.take 59)

def handleRequest (request : HttpRequest) : Except (ℕ × RegistryRejectionCode) RegistryCall :=
  if request.method ≠ "POST" then .error (405, .endpointUnavailable)
  else if request.url ≠ "/v1/register" ∧ request.url ≠ "/v1/discover" then
    .error (404, .endpointUnavailable)
  else if ¬isJsonContentType request.contentType then .error (415, .recordRejected)
  else
    match parseContentLength request.contentLength with
    | none => .error (400, .recordRejected)
    | some contentLength =>
      if maxRequestBytes < contentLength then .error (413, .recordRejected)
      else if request.url = "/v1/register" then
        match request.body with
        | .error status => .error (status, .endpointUnavailable)
        | .ok (.object body) =>
          match fieldOf body "record" with
          | some (.object record) =>
            match fieldOf record "peerId" with
            | some (.string peerId) => .ok (.register peerId (.object record))
            | _ => .error (400, .recordRejected)
          | _ => .error (400, .recordRejected)
        | .ok _ => .error (400, .recordRejected)
      else
        match request.body with
        | .error status => .error (status, .endpointUnavailable)
        | .ok (.object body) =>
          match fieldOf body "namespace", fieldOf body "targetPeerId" with
          | some (.string namespaceName), none =>
            .ok (.discover (transportClientId request) namespaceName none)
          | some (.string namespaceName), some (.string targetPeerId) =>
            .ok (.discover (transportClientId request) namespaceName (some targetPeerId))
          | _, _ => .error (400, .recordRejected)
        | .ok _ => .error (400, .recordRejected)

section Signatures

variable {Key : Type} (env : RecordEnvironment Key)

def signedBy (record : JsValue) (peerId : String) : Bool :=
  match parseRecord record with
  | .error _ => false
  | .ok record =>
    match checkIdentity env record with
    | .error _ => false
    | .ok (publicKey, payload, signature) =>
      record.peerId = peerId && env.verify publicKey payload signature

end Signatures

/-- A registration that the registry has counted, and what the count has led to. -/
structure Received where
  peerId : String
  namespaceName : String
  now : ℤ
  isSigned : Bool
  rejected : Option RegistryRejection
deriving DecidableEq

structure ServiceRun where
  registry : RegistryRun
  received : List Received

section Program

variable {Key : Type} (env : RecordEnvironment Key) (localeLe : String → String → Bool)

def countedUnder (request : HttpRequest) (record : JsValue) : String :=
  match record with
  | .object fields =>
    match fieldOf fields "namespace" with
    | some (.string namespaceName) => namespaceName
    | _ => request.otherKey
  | _ => request.otherKey

/--
`register` with a value that is not a record.  It is counted, and records that have
expired are swept; the validator rejects it in the end, and nothing is stored.
-/
def registerMalformed (request : HttpRequest) (peerId namespaceName : String)
    (run : RegistryRun) : RegistryRun :=
  match run.server.consumeRequest peerId namespaceName request.consumed with
  | (server, some rejection) => { run with server }.observes (.rejected rejection)
  | (server, none) =>
    { run with server := server.sweepExpired request.swept }.observes (.swept request.swept)

def ServiceRun.receives (run : ServiceRun) (request : HttpRequest) (peerId : String)
    (record : JsValue) : List Received :=
  run.received ++ [{
    peerId
    namespaceName := countedUnder request record
    now := request.consumed
    isSigned := signedBy env record peerId
    rejected := (run.registry.server.consumeRequest peerId (countedUnder request record)
      request.consumed).2 }]

/-- A request up to the first suspension point of the registry. -/
def beginService (request : HttpRequest) (run : ServiceRun) :
    ServiceRun × Option (Registering Key) :=
  match handleRequest request with
  | .error _ => (run, none)
  | .ok (.discover clientId namespaceName targetPeerId) =>
    let begun := beginRegistry localeLe
      (.discover clientId namespaceName targetPeerId request.consumed request.swept false)
      run.registry
    ({ run with registry := begun.1 }, begun.2)
  | .ok (.register peerId record) =>
    let received := run.receives env request peerId record
    match parseRecord record with
    | .error _ =>
      ({ registry := registerMalformed request peerId (countedUnder request record) run.registry
         received }, none)
    | .ok record =>
      let begun := beginRegistry localeLe
        (.register ⟨peerId, record⟩ request.consumed request.swept false) run.registry
      ({ registry := begun.1, received }, begun.2)

def service : Program ServiceRun (Registering Key) HttpRequest RegistryEvent where
  start := beginService env localeLe
  resume := fun event task run =>
    let continued := continueRegister env event task run.registry
    ({ run with registry := continued.1 }, continued.2)

end Program

section Windows

variable {Key : Type} {env : RecordEnvironment Key} {localeLe : String → String → Bool}

theorem handleRequest_cases {request : HttpRequest} {call : RegistryCall}
    (handled : handleRequest request = .ok call) :
    (∃ peerId fields, call = .register peerId (.object fields) ∧
      fieldOf fields "peerId" = some (.string peerId)) ∨
    ∃ namespaceName targetPeerId,
      call = .discover (transportClientId request) namespaceName targetPeerId := by
  unfold handleRequest at handled
  split at handled
  · cases handled
  split at handled
  · cases handled
  split at handled
  · cases handled
  split at handled
  · cases handled
  split at handled
  · cases handled
  split at handled
  · left
    split at handled
    · cases handled
    · split at handled
      · split at handled
        · rename_i found
          cases handled
          exact ⟨_, _, rfl, found⟩
        · cases handled
      · cases handled
    · cases handled
  · right
    split at handled
    · cases handled
    · split at handled
      · cases handled
        exact ⟨_, _, rfl⟩
      · cases handled
        exact ⟨_, _, rfl⟩
      · cases handled
    · cases handled

theorem windows_continueRegister (event : RegistryEvent) (task : Registering Key)
    (run : RegistryRun) :
    (continueRegister env event task run).1.server.clientWindows = run.server.clientWindows ∧
      (continueRegister env event task run).1.server.limits = run.server.limits := by
  have follows : ∀ (registration : Registration) (part : ValidatorRun × Option (Validating Key)),
      (followValidation registration part run).1.server.clientWindows = run.server.clientWindows ∧
        (followValidation registration part run).1.server.limits = run.server.limits := by
    intro registration part
    unfold followValidation
    dsimp only
    split <;> exact ⟨rfl, rfl⟩
  unfold continueRegister
  split
  · exact ⟨rfl, rfl⟩
  · exact follows _ _
  · exact follows _ _
  · rename_i registration result
    cases result with
    | error rejected => exact ⟨rfl, rfl⟩
    | ok accepted =>
      change (run.server.store _ _ _).clientWindows = _ ∧ (run.server.store _ _ _).limits = _
      unfold store
      cases registration.namespaceRecords <;> exact ⟨rfl, rfl⟩
  · exact ⟨rfl, rfl⟩

/-- The request is counted for the client, under the same limits. -/
structure Counts (server next : RegistryServer) (clientId namespaceName : String) (now : ℤ) : Prop where
  windows : next.clientWindows = (server.consumeRequest clientId namespaceName now).1.clientWindows
  limits : next.limits = server.limits

theorem counts_of_consumeRequest {server next : RegistryServer} {clientId namespaceName : String}
    {now : ℤ} {outcome : Option RegistryRejection}
    (result : server.consumeRequest clientId namespaceName now = (next, outcome)) :
    Counts server next clientId namespaceName now := by
  rcases consumeRequest_fst server clientId namespaceName now with ⟨windows, counted⟩
  refine ⟨?_, ?_⟩
  · rw [result]
  · rw [result] at counted
    cases counted
    rfl

theorem counts_register (request : RegistrationRequest) (consumed swept : ℤ) (run : RegistryRun)
    (own : request.clientId = request.record.peerId) :
    Counts run.server (@beginRegistry Key localeLe (.register request consumed swept false) run).1.server
      request.clientId request.record.namespaceName consumed := by
  unfold beginRegistry
  dsimp only
  rw [if_neg (not_not.mpr own)]
  split
  case h_1 server rejection result => exact counts_of_consumeRequest result
  case h_2 server result =>
    have counted := counts_of_consumeRequest result
    split <;> exact ⟨counted.windows, counted.limits⟩

theorem counts_discover (clientId namespaceName : String) (targetPeerId : Option String)
    (consumed swept : ℤ) (run : RegistryRun) :
    Counts run.server (@beginRegistry Key localeLe
      (.discover clientId namespaceName targetPeerId consumed swept false) run).1.server
      clientId namespaceName consumed := by
  unfold beginRegistry
  dsimp only
  split
  case h_1 server rejection result => exact counts_of_consumeRequest result
  case h_2 server result =>
    have counted := counts_of_consumeRequest result
    split <;> exact ⟨counted.windows, counted.limits⟩

theorem counts_registerMalformed (request : HttpRequest) (peerId namespaceName : String)
    (run : RegistryRun) :
    Counts run.server (registerMalformed request peerId namespaceName run).server peerId
      namespaceName request.consumed := by
  unfold registerMalformed
  split
  case h_1 server rejection result => exact counts_of_consumeRequest result
  case h_2 server result =>
    have counted := counts_of_consumeRequest result
    exact ⟨counted.windows, counted.limits⟩

/--
What a step of the service does to the windows and to the list of registrations; a step
that begins something has a request.
-/
inductive Serves (env : RecordEnvironment Key) (begun : Option HttpRequest)
    (run next : ServiceRun) : Prop where
  | nothing (sameWindows : next.registry.server.clientWindows = run.registry.server.clientWindows)
      (sameLimits : next.registry.server.limits = run.registry.server.limits)
      (sameList : next.received = run.received)
  | discovers (request : HttpRequest) (namespaceName : String)
      (counts : Counts run.registry.server next.registry.server (transportClientId request)
        namespaceName request.consumed)
      (sameList : next.received = run.received)
  | registers (request : HttpRequest) (isBegun : request ∈ begun) (peerId : String)
      (record : JsValue)
      (handled : handleRequest request = .ok (.register peerId record))
      (counts : Counts run.registry.server next.registry.server peerId (countedUnder request record)
        request.consumed)
      (list : next.received = run.receives env request peerId record)

theorem serves_begin (request : HttpRequest) (run : ServiceRun) :
    Serves env (some request) run (beginService env localeLe request run).1 := by
  unfold beginService
  split
  · exact .nothing rfl rfl rfl
  case h_2 clientId namespaceName targetPeerId handled =>
    rcases handleRequest_cases handled with ⟨_, _, impossible, _⟩ | ⟨_, _, same⟩
    · cases impossible
    cases same
    have counts := @counts_discover Key localeLe (transportClientId request) namespaceName
      targetPeerId request.consumed request.swept run.registry
    dsimp only
    refine .discovers request namespaceName ?_ rfl
    dsimp only
    exact counts
  case h_3 peerId record handled =>
    rcases handleRequest_cases handled with ⟨_, fields, same, named⟩ | ⟨_, _, impossible⟩
    swap
    · cases impossible
    cases same
    dsimp only
    split
    case h_1 =>
      refine .registers request rfl peerId (.object fields) handled ?_ rfl
      exact counts_registerMalformed request peerId _ run.registry
    case h_2 record parsed =>
      have read := readFrom_of_parseRecord parsed
      have own : peerId = record.peerId :=
        JsValue.string.inj (Option.some.inj (named.symm.trans read.peerId))
      have under : countedUnder request (.object fields) = record.namespaceName := by
        rw [countedUnder, read.namespaceName]
      have counts := @counts_register Key localeLe ⟨peerId, record⟩ request.consumed request.swept
        run.registry own
      refine .registers request rfl peerId (.object fields) handled ?_ rfl
      rw [under]
      exact counts

end Windows

section Budget

def signedOf (peerId : String) (entries : List Received) : ℕ :=
  entries.countP fun entry => entry.peerId = peerId ∧ entry.isSigned

def signedFor (peerId namespaceName : String) (entries : List Received) : ℕ :=
  entries.countP fun entry =>
    entry.peerId = peerId ∧ entry.isSigned ∧ entry.namespaceName = namespaceName

/--
Since a registration of the peer that is less than a window old, its own registrations
have reached one of the limits.
-/
def BudgetSpent (limits : RegistryLimits) (peerId namespaceName : String) (now : ℤ)
    (before : List Received) : Prop :=
  ∃ earlier opening recent, before = earlier ++ opening :: recent ∧
    opening.peerId = peerId ∧ opening.isSigned = true ∧
    now - opening.now < limits.requestWindowMs ∧
    (limits.maxRequestsPerWindow ≤ signedOf peerId (opening :: recent) ∨
      limits.maxRequestsPerNamespaceWindow ≤ signedFor peerId namespaceName (opening :: recent))

/-- A registration signed by the peer is rejected for its rate only once the budget is spent. -/
def LimitedByOwner (limits : RegistryLimits) (peerId : String) (received : List Received) : Prop :=
  ∀ before request after, received = before ++ request :: after → request.peerId = peerId →
    request.isSigned = true → request.rejected = some ⟨.rateLimited, none⟩ →
      BudgetSpent limits peerId request.namespaceName request.now before

def CountsOwner (peerId : String) (received : List Received) (window : ClientWindow) : Prop :=
  ∃ earlier opening recent, received = earlier ++ opening :: recent ∧
    opening.peerId = peerId ∧ opening.isSigned = true ∧ window.startedAtMs = opening.now ∧
    window.count = signedOf peerId (opening :: recent) ∧
    ∀ namespaceName, (window.namespaceCounts.get namespaceName).getD 0 =
      signedFor peerId namespaceName (opening :: recent)

variable {limits : RegistryLimits} {peerId : String} {received : List Received} {entry : Received}

theorem signedOf_concat (entries : List Received) :
    signedOf peerId (entries ++ [entry]) =
      signedOf peerId entries + if entry.peerId = peerId ∧ entry.isSigned then 1 else 0 := by
  simp [signedOf, List.countP_append, List.countP_cons]

theorem signedFor_concat (namespaceName : String) (entries : List Received) :
    signedFor peerId namespaceName (entries ++ [entry]) =
      signedFor peerId namespaceName entries +
        if entry.peerId = peerId ∧ entry.isSigned ∧ entry.namespaceName = namespaceName then 1
        else 0 := by
  simp [signedFor, List.countP_append, List.countP_cons]

theorem CountsOwner.other {window : ClientWindow} (counts : CountsOwner peerId received window)
    (other : entry.peerId ≠ peerId) : CountsOwner peerId (received ++ [entry]) window := by
  rcases counts with ⟨earlier, opening, recent, rfl, own, signed, started, counted, each⟩
  refine ⟨earlier, opening, recent ++ [entry], by simp, own, signed, started, ?_, ?_⟩
  · rw [← List.cons_append, signedOf_concat, if_neg fun both => other both.1]
    exact counted
  · intro namespaceName
    rw [← List.cons_append, signedFor_concat, if_neg fun both => other both.1]
    exact each namespaceName

theorem CountsOwner.opened (own : entry.peerId = peerId) (signed : entry.isSigned = true) :
    CountsOwner peerId (received ++ [entry])
      (openWindow entry.namespaceName entry.now) := by
  refine ⟨received, entry, [], rfl, own, signed, rfl, ?_, ?_⟩
  · simp [signedOf, own, signed, openWindow]
  · intro namespaceName
    by_cases same : namespaceName = entry.namespaceName
    · subst same
      simp [signedFor, own, signed, openWindow, get_set]
    · have different : entry.namespaceName ≠ namespaceName := fun equal => same equal.symm
      simp [signedFor, different, openWindow, get_set, same]

theorem CountsOwner.counted {window : ClientWindow} (counts : CountsOwner peerId received window)
    (own : entry.peerId = peerId) (signed : entry.isSigned = true) :
    CountsOwner peerId (received ++ [entry])
      (countRequest window entry.namespaceName) := by
  rcases counts with ⟨earlier, opening, recent, rfl, isOwn, isSigned, started, counted, each⟩
  refine ⟨earlier, opening, recent ++ [entry], by simp, isOwn, isSigned, started, ?_, ?_⟩
  · rw [← List.cons_append, signedOf_concat, if_pos ⟨own, signed⟩]
    exact congrArg (· + 1) counted
  · intro namespaceName
    rw [← List.cons_append, signedFor_concat, ← each namespaceName]
    change ((window.namespaceCounts.set _ _).get namespaceName).getD 0 = _
    rw [get_set]
    by_cases same : namespaceName = entry.namespaceName
    · subst same
      simp [own, signed]
    · have different : entry.namespaceName ≠ namespaceName := fun equal => same equal.symm
      simp [same, different]

theorem CountsOwner.spent {window : ClientWindow} (counts : CountsOwner peerId received window)
    {namespaceName : String} {now : ℤ} (runs : now - window.startedAtMs < limits.requestWindowMs)
    (full : limits.maxRequestsPerWindow < window.count + 1 ∨
      limits.maxRequestsPerNamespaceWindow <
        (window.namespaceCounts.get namespaceName).getD 0 + 1) :
    BudgetSpent limits peerId namespaceName now received := by
  rcases counts with ⟨earlier, opening, recent, whole, own, signed, started, counted, each⟩
  refine ⟨earlier, opening, recent, whole, own, signed, by rwa [← started], ?_⟩
  rw [← counted, ← each namespaceName]
  rcases full with full | full
  · exact Or.inl (Nat.lt_succ_iff.mp full)
  · exact Or.inr (Nat.lt_succ_iff.mp full)

theorem LimitedByOwner.concat (limited : LimitedByOwner limits peerId received)
    (last : entry.peerId = peerId → entry.isSigned = true →
      entry.rejected = some ⟨.rateLimited, none⟩ →
        BudgetSpent limits peerId entry.namespaceName entry.now received) :
    LimitedByOwner limits peerId (received ++ [entry]) := by
  intro before request after whole own signed rejected
  rcases List.eq_nil_or_concat' after with rfl | ⟨rest, final, rfl⟩
  · rcases List.append_inj' whole rfl with ⟨rfl, sameLast⟩
    cases List.singleton_inj.mp sameLast
    exact last own signed rejected
  · rw [← List.cons_append, ← List.append_assoc] at whole
    rcases List.append_inj' whole rfl with ⟨same, _⟩
    exact limited before request rest same own signed rejected

end Budget

section Runs

variable {Key : Type} {env : RecordEnvironment Key} {localeLe : String → String → Bool}
  {limits : RegistryLimits} {peerId : String} {run next : ServiceRun}

/-- What holds of the budget of a peer whose registrations are all signed by it. -/
structure Budgeted (limits : RegistryLimits) (peerId : String) (run : ServiceRun) : Prop where
  limited : run.registry.server.limits = limits
  proper : ∀ window, run.registry.server.clientWindows.get peerId = some window →
    isClientId peerId = true
  counts : ∀ window, run.registry.server.clientWindows.get peerId = some window →
    CountsOwner peerId run.received window
  justified : LimitedByOwner limits peerId run.received

theorem get_consumeRequest_of_ne {server : RegistryServer} {clientId namespaceName : String}
    {now : ℤ} (other : peerId ≠ clientId) {window : ClientWindow}
    (found : (server.consumeRequest clientId namespaceName now).1.clientWindows.get peerId =
      some window) : server.clientWindows.get peerId = some window := by
  have consumed := consumeRequest_consumed server clientId namespaceName now
  revert found consumed
  generalize server.consumeRequest clientId namespaceName now = result
  intro found consumed
  have dropped : (server.dropWindows now).clientWindows.get peerId = some window →
      server.clientWindows.get peerId = some window :=
    fun found => (get_filter_eq_some.mp found).1
  cases consumed with
  | invalid notAnId => exact found
  | full absent full => exact dropped found
  | opened absent proper => exact dropped ((get_set_of_ne other).symm.trans found)
  | counted found' runs => exact dropped ((get_set_of_ne other).symm.trans found)

theorem Budgeted.own (budgeted : Budgeted limits peerId run) {entry : Received}
    (own : entry.peerId = peerId) (signed : entry.isSigned = true)
    (rejected : entry.rejected = (run.registry.server.consumeRequest peerId entry.namespaceName
      entry.now).2) :
    (∀ window, (run.registry.server.consumeRequest peerId entry.namespaceName
        entry.now).1.clientWindows.get peerId = some window →
      isClientId peerId = true ∧ CountsOwner peerId (run.received ++ [entry]) window) ∧
    LimitedByOwner limits peerId (run.received ++ [entry]) := by
  have consumed := consumeRequest_consumed run.registry.server peerId entry.namespaceName entry.now
  revert rejected consumed
  generalize run.registry.server.consumeRequest peerId entry.namespaceName entry.now = result
  intro rejected consumed
  cases consumed with
  | invalid notAnId =>
    refine ⟨fun window found => ?_, budgeted.justified.concat fun _ _ isLimited => ?_⟩
    · rw [budgeted.proper window found] at notAnId
      cases notAnId
    · rw [rejected] at isLimited
      cases isLimited
  | full absent full =>
    refine ⟨fun window found => ?_, budgeted.justified.concat fun _ _ isLimited => ?_⟩
    · cases absent.symm.trans found
    · rw [rejected] at isLimited
      cases isLimited
  | opened absent proper =>
    refine ⟨fun window found => ?_, budgeted.justified.concat fun _ _ isLimited => ?_⟩
    · have same : openWindow entry.namespaceName entry.now = window :=
        Option.some.inj (get_set_self.symm.trans found)
      rw [← same]
      exact ⟨proper, .opened own signed⟩
    · rw [rejected] at isLimited
      cases isLimited
  | @counted window found runs =>
    refine ⟨fun next isNext => ?_, budgeted.justified.concat fun _ _ isLimited => ?_⟩
    · have same : countRequest window entry.namespaceName = next :=
        Option.some.inj (get_set_self.symm.trans isNext)
      rw [← same]
      exact ⟨budgeted.proper window found, (budgeted.counts window found).counted own signed⟩
    · rw [rejected] at isLimited
      dsimp only at isLimited
      split at isLimited
      · rename_i full
        rw [budgeted.limited] at full
        refine (budgeted.counts window found).spent ?_ full
        rw [windowIsOver, budgeted.limited] at runs
        simpa using runs
      · cases isLimited

/-- A registration of the peer itself, or none in its name. -/
def SignsAs (env : RecordEnvironment Key) (peerId : String) :
    Action HttpRequest RegistryEvent → Prop
  | .start request =>
    match handleRequest request with
    | .ok (.register named record) => named = peerId → signedBy env record peerId = true
    | _ => True
  | .resume _ _ => True

instance (env : RecordEnvironment Key) (peerId : String)
    (action : Action HttpRequest RegistryEvent) : Decidable (SignsAs env peerId action) := by
  unfold SignsAs
  split
  · split <;> infer_instance
  · infer_instance

theorem Budgeted.serves (budgeted : Budgeted limits peerId run) {begun : Option HttpRequest}
    (serves : Serves env begun run next)
    (noAddress : ∀ request, transportClientId request ≠ peerId)
    (signs : ∀ request ∈ begun, ∀ record, handleRequest request = .ok (.register peerId record) →
      signedBy env record peerId = true) :
    Budgeted limits peerId next := by
  cases serves with
  | nothing sameWindows sameLimits sameList =>
    refine ⟨sameLimits.trans budgeted.limited, ?_, ?_, ?_⟩
    · rw [sameWindows]
      exact budgeted.proper
    · rw [sameWindows, sameList]
      exact budgeted.counts
    · rw [sameList]
      exact budgeted.justified
  | discovers request namespaceName serverCounts sameList =>
    have kept : ∀ window, next.registry.server.clientWindows.get peerId = some window →
        run.registry.server.clientWindows.get peerId = some window := by
      intro window found
      rw [serverCounts.windows] at found
      exact get_consumeRequest_of_ne (noAddress request).symm found
    refine ⟨serverCounts.limits.trans budgeted.limited, fun window found => ?_, fun window found => ?_, ?_⟩
    · exact budgeted.proper window (kept window found)
    · rw [sameList]
      exact budgeted.counts window (kept window found)
    · rw [sameList]
      exact budgeted.justified
  | registers request isBegun named record handled serverCounts list =>
    by_cases own : named = peerId
    · subst own
      have signed := signs request isBegun record handled
      rcases @Budgeted.own _ _ _ budgeted ⟨named, countedUnder request record, request.consumed,
        signedBy env record named, (run.registry.server.consumeRequest named
          (countedUnder request record) request.consumed).2⟩ rfl signed rfl with ⟨counts, justified⟩
      have found : ∀ window, next.registry.server.clientWindows.get named = some window → _ :=
        fun window found => counts window (serverCounts.windows ▸ found)
      refine ⟨serverCounts.limits.trans budgeted.limited, fun window isWindow => (found window isWindow).1,
        fun window isWindow => ?_, ?_⟩
      · rw [list]
        exact (found window isWindow).2
      · rw [list]
        exact justified
    · have kept : ∀ window, next.registry.server.clientWindows.get peerId = some window →
          run.registry.server.clientWindows.get peerId = some window := by
        intro window found
        rw [serverCounts.windows] at found
        exact get_consumeRequest_of_ne (Ne.symm own) found
      refine ⟨serverCounts.limits.trans budgeted.limited, fun window found => ?_, fun window found => ?_, ?_⟩
      · exact budgeted.proper window (kept window found)
      · rw [list]
        exact (budgeted.counts window (kept window found)).other own
      · rw [list]
        exact budgeted.justified.concat fun isOwn => absurd isOwn own

theorem Budgeted.step {config : Config ServiceRun (Registering Key)}
    {action : Action HttpRequest RegistryEvent} (budgeted : Budgeted limits peerId config.shared)
    (noAddress : ∀ request, transportClientId request ≠ peerId)
    (signs : SignsAs env peerId action) :
    Budgeted limits peerId ((service env localeLe).step config action).shared := by
  unfold Program.step
  cases action with
  | start request =>
    refine budgeted.serves (serves_begin request config.shared) noAddress ?_
    intro begun isBegun record handled
    cases Option.mem_some.mp isBegun
    rw [SignsAs, handled] at signs
    exact signs rfl
  | resume index event =>
    cases found : config.tasks[index]? with
    | none =>
      rw [Program.effect, found]
      exact budgeted
    | some task =>
      rw [Program.effect, found]
      rcases windows_continueRegister event task config.shared.registry with ⟨windows, limits⟩
      have serves : Serves env none config.shared
          ((service env localeLe).resume event task config.shared).1 :=
        .nothing windows limits rfl
      apply budgeted.serves serves noAddress
      intro begun isBegun
      cases isBegun

def idleService (Key : Type) (id : String) (limits : RegistryLimits)
    (validatorLimits : RecordLimits) : Config ServiceRun (Registering Key) :=
  ⟨⟨.idle id limits validatorLimits, []⟩, []⟩

theorem transportClientId_ne (request : HttpRequest)
    (notAnAddress : ¬ "http-".toList.isPrefixOf peerId.toList = true) :
    transportClientId request ≠ peerId := by
  rintro rfl
  apply notAnAddress
  rw [transportClientId, String.toList_append]
  exact List.isPrefixOf_iff_prefix.mpr (List.prefix_append _ _)

/--
The budget of a peer is spent by its owner only.  If every registration in the name of a
peer is signed by it, its window counts exactly its own registrations, and one of them is
rejected for its rate only if those before it in the window have reached a limit.
-/
theorem budget_is_spent_by_owner {id : String} {validatorLimits : RecordLimits}
    {actions : List (Action HttpRequest RegistryEvent)}
    (notAnAddress : ¬ "http-".toList.isPrefixOf peerId.toList = true)
    (signs : ∀ action ∈ actions, SignsAs env peerId action) :
    let reached := ((service env localeLe).run (idleService Key id limits validatorLimits)
      actions).shared
    LimitedByOwner limits peerId reached.received ∧
      ∀ window, reached.registry.server.clientWindows.get peerId = some window →
        CountsOwner peerId reached.received window := by
  have idle : Budgeted limits peerId (idleService Key id limits validatorLimits).shared :=
    ⟨rfl, by simp [idleService, RegistryRun.idle], by simp [idleService, RegistryRun.idle],
      by simp [idleService, LimitedByOwner]⟩
  have kept : Budgeted limits peerId
      ((service env localeLe).run (idleService Key id limits validatorLimits) actions).shared := by
    refine @Program.run_invariant _ _ _ _ _ _ _ _ (fun config => Budgeted limits peerId config.shared)
      (fun config action budgeted isSigned => ?_) idle (Program.permits_of_forall_mem signs)
    exact budgeted.step (fun request => transportClientId_ne request notAnAddress) isSigned
  exact ⟨kept.justified, kept.counts⟩

end Runs

namespace ServiceExample

open LedgerExample

def limits : RegistryLimits := { defaultRegistryLimits with maxRequestsPerWindow := 1 }

def post (record : JsValue) (now : ℤ) : Action HttpRequest RegistryEvent :=
  .start
    { method := "POST"
      url := "/v1/register"
      contentType := some "application/json"
      contentLength := none
      remoteAddress := some "192.0.2.1"
      body := .ok (.object [("record", record)])
      otherKey := ""
      consumed := now
      swept := now }

def unsigned : JsValue := .object [("peerId", .string "alice")]

def localeLe (left right : String) : Bool := utf16 left ≤ utf16 right

def reached (actions : List (Action HttpRequest RegistryEvent)) : ServiceRun :=
  ((service environment localeLe).run (idleService String "endpoint" limits defaultRecordLimits)
    actions).shared

end ServiceExample

open LedgerExample ServiceExample in
theorem budget_is_spent_by_owner_twice :
    (reached [post first.toValue 100000, post refreshed.toValue 101000]).received.map
      (fun entry => (entry.isSigned, entry.rejected)) =
        [(true, none), (true, some ⟨.rateLimited, none⟩)] ∧
    LimitedByOwner limits "alice"
      (reached [post first.toValue 100000, post refreshed.toValue 101000]).received := by
  have signs : ∀ action ∈ [post first.toValue 100000, post refreshed.toValue 101000],
      SignsAs environment "alice" action := by decide +kernel
  have limited := @budget_is_spent_by_owner String environment localeLe limits "alice" "endpoint"
    defaultRecordLimits _ (by decide) signs
  refine ⟨by decide +kernel, ?_⟩
  unfold reached
  exact limited.1

open LedgerExample ServiceExample in
/--
Somebody sends a record that only names `alice`.  The record is not even well formed, but
the first registration that `alice` signs is rejected for its rate.
-/
theorem budget_is_spent_by_others :
    (reached [post unsigned 100000, post first.toValue 101000]).received =
      [⟨"alice", "", 100000, false, none⟩,
        ⟨"alice", room, 101000, true, some ⟨.rateLimited, none⟩⟩] ∧
    ¬ LimitedByOwner limits "alice"
      (reached [post unsigned 100000, post first.toValue 101000]).received := by
  have whole : (reached [post unsigned 100000, post first.toValue 101000]).received =
      [⟨"alice", "", 100000, false, none⟩] ++
        [⟨"alice", room, 101000, true, some ⟨.rateLimited, none⟩⟩] := by decide +kernel
  refine ⟨whole, fun limited => ?_⟩
  rcases limited _ _ [] whole rfl rfl rfl with ⟨earlier, opening, recent, before, _, signed, _⟩
  have isUnsigned : opening ∈ [(⟨"alice", "", 100000, false, none⟩ : Received)] := by
    rw [before]
    simp
  rw [List.mem_singleton.mp isUnsigned] at signed
  cases signed

end TsDrp.Rendezvous
