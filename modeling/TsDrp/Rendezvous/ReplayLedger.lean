import TsDrp.HashBinding
import TsDrp.Library.Cooperative
import TsDrp.Rendezvous.Record

/-!
# The replay ledger of a validator

Many validations of one `RecordValidator` can be under way at once.  Each reads
the clock at its beginning, compares its sequence with the ledger after its
signature was verified, and writes the ledger after its addresses were resolved.
Entries leave the ledger when their own record has expired.
-/

namespace TsDrp.Rendezvous

open Cooperative

/-- A validation that waits for its signature or for its addresses. -/
inductive Validating (Key : Type) where
  | verifying (candidate : Candidate Key)
  | resolving (candidate : Candidate Key)

structure ValidatorRun where
  validator : RecordValidator
  clock : ℤ
  returned : List (Except RejectedRecord AcceptedRecord)

/-- The arguments of a call, the clock it reads, and whether its signal is aborted already. -/
structure ValidateRequest where
  input : JsValue
  context : RecordValidationContext
  now : ℤ
  aborted : Bool

/-- What a validation waits for; an abortion ends the call with an exception. -/
inductive ValidateEvent where
  | aborted
  | verified
  | failed (message : Option String)
  | resolved (evaluate : String → AddressDecision × AddressDecision)

namespace ValidatorRun

variable (run : ValidatorRun)

def returns (result : Except RejectedRecord AcceptedRecord) : ValidatorRun :=
  { run with returned := run.returned ++ [result] }

def accepted : List SignedDrpRecordV1 :=
  run.returned.filterMap fun result => result.toOption.map (·.record)

def acceptedFor (namespaceName peerId : String) : List SignedDrpRecordV1 :=
  run.accepted.filter fun record => record.namespaceName = namespaceName ∧ record.peerId = peerId

end ValidatorRun

def unused {Key : Type} (limits : RecordLimits) (clock : ℤ) : Config ValidatorRun (Validating Key) where
  shared := { validator := { limits, sequences := .empty }, clock, returned := [] }
  tasks := []

section Program

variable {Key : Type} (env : RecordEnvironment Key)

def beginValidate (request : ValidateRequest) (run : ValidatorRun) :
    ValidatorRun × Option (Validating Key) :=
  if request.aborted then (run, none)
  else
    let run := { run with clock := request.now }
    match check env run.validator.limits request.input request.context request.now with
    | .error rejection => (run.returns (.error rejection), none)
    | .ok candidate => (run, some (.verifying candidate))

/-- The parts behind the two suspension points of `validate`. -/
def continueValidate (event : ValidateEvent) (task : Validating Key) (run : ValidatorRun) :
    ValidatorRun × Option (Validating Key) :=
  match task, event with
  | _, .aborted => (run, none)
  | .verifying candidate, .verified =>
    if env.verify candidate.publicKey candidate.payload candidate.signature then
      let run' := { run with validator := (run.validator.checkSequence candidate).1 }
      match (run.validator.checkSequence candidate).2 with
      | .error rejection => (run'.returns (.error rejection), none)
      | .ok () => (run', some (.resolving candidate))
    else (run.returns (.error (reject .invalidSignature)), none)
  | .verifying _, .failed message => (run.returns (.error ⟨.invalidSignature, message⟩), none)
  | .resolving candidate, .resolved evaluate =>
    let concluded := run.validator.conclude env candidate evaluate
    ({ run with validator := concluded.1 }.returns concluded.2, none)
  | task, _ => (run, some task)

def validation : Program ValidatorRun (Validating Key) ValidateRequest ValidateEvent where
  start := beginValidate env
  resume := continueValidate env

end Program

section Cases

variable {Key : Type} {env : RecordEnvironment Key}

theorem beginValidate_cases (request : ValidateRequest) (run : ValidatorRun) :
    beginValidate env request run = (run, none) ∨
      (∃ rejection, beginValidate env request run =
        ({ run with clock := request.now }.returns (.error rejection), none)) ∨
      ∃ candidate, check env run.validator.limits request.input request.context request.now =
          .ok candidate ∧
        beginValidate env request run =
          ({ run with clock := request.now }, some (.verifying candidate)) := by
  unfold beginValidate
  split
  · exact Or.inl rfl
  · cases checked : check env run.validator.limits request.input request.context request.now with
    | error rejection => exact Or.inr (Or.inl ⟨rejection, by simp only [checked]⟩)
    | ok candidate => exact Or.inr (Or.inr ⟨candidate, rfl, by simp only [checked]⟩)

theorem continueValidate_cases (event : ValidateEvent) (task : Validating Key) (run : ValidatorRun) :
    (∃ next, (next = none ∨ next = some task) ∧ continueValidate env event task run = (run, next)) ∨
    (∃ rejection, continueValidate env event task run = (run.returns (.error rejection), none)) ∨
    (∃ candidate, task = .verifying candidate ∧
      ((∃ rejection, continueValidate env event task run =
        ({ run with validator := run.validator.sweepExpiredReplayState candidate.now }.returns
          (.error rejection), none)) ∨
      (run.validator.checkSequence candidate).2 = .ok () ∧
        continueValidate env event task run =
          ({ run with validator := run.validator.sweepExpiredReplayState candidate.now },
            some (.resolving candidate)))) ∨
    ∃ candidate mode, task = .resolving candidate ∧
      continueValidate env event task run =
        ({ run with validator := run.validator.remember candidate }.returns
          (.ok ⟨mode, candidate.serializedBytes, candidate.record⟩), none) := by
  unfold continueValidate
  split
  · exact Or.inl ⟨none, Or.inl rfl, rfl⟩
  case h_2 candidate =>
    split
    · cases passed : (run.validator.checkSequence candidate).2 with
      | error rejection => exact Or.inr (Or.inr (Or.inl ⟨candidate, rfl, Or.inl ⟨rejection, rfl⟩⟩))
      | ok value => exact Or.inr (Or.inr (Or.inl ⟨candidate, rfl, Or.inr ⟨passed, rfl⟩⟩))
    · exact Or.inr (Or.inl ⟨_, rfl⟩)
  · exact Or.inr (Or.inl ⟨_, rfl⟩)
  case h_4 candidate evaluate =>
    rcases @RecordValidator.conclude_cases _ env run.validator candidate evaluate with
      ⟨rejection, concluded⟩ | ⟨mode, concluded⟩
    · exact Or.inr (Or.inl ⟨rejection, by rw [concluded]⟩)
    · exact Or.inr (Or.inr (Or.inr ⟨candidate, mode, rfl, by rw [concluded]⟩))
  · exact Or.inl ⟨some task, Or.inr rfl, rfl⟩

end Cases

theorem run_validation_alone {Key : Type} (env : RecordEnvironment Key) (run : ValidatorRun)
    (input : JsValue) (context : RecordValidationContext) (now : ℤ)
    (evaluate : String → AddressDecision × AddressDecision) :
    (validation env).run ⟨run, []⟩
        [.start ⟨input, context, now, false⟩, .resume 0 .verified, .resume 0 (.resolved evaluate)] =
      ⟨{ validator := (run.validator.validate env input context now evaluate).1
         clock := now
         returned := run.returned ++ [(run.validator.validate env input context now evaluate).2] },
        []⟩ := by
  unfold RecordValidator.validate
  cases checked : check env run.validator.limits input context now with
  | error rejection =>
    simp [Program.run, Program.step, Program.effect, validation, beginValidate, checked,
      ValidatorRun.returns, Config.others]
  | ok candidate =>
    by_cases verified : env.verify candidate.publicKey candidate.payload candidate.signature = true
    · rcases passed : run.validator.checkSequence candidate with ⟨next, rejection | value⟩ <;>
        simp [Program.run, Program.step, Program.effect, validation, beginValidate, checked,
          continueValidate, verified, passed, ValidatorRun.returns, Config.others]
    · simp [Program.run, Program.step, Program.effect, validation, beginValidate, checked,
        continueValidate, verified, ValidatorRun.returns, Config.others]

/-- The peer and namespace whose ledger entry a validation is about to write. -/
def Validating.target {Key : Type} : Validating Key → Option (String × String)
  | .verifying _ => none
  | .resolving candidate => some (candidate.record.namespaceName, candidate.record.peerId)

/-- A record with the same or a higher sequence of a peer never expires earlier. -/
def ExpiryFollowsSequence (submitted : List SignedDrpRecordV1) : Prop :=
  ∀ record ∈ submitted, ∀ other ∈ submitted, record.namespaceName = other.namespaceName →
    record.peerId = other.peerId → record.sequence.le other.sequence = true →
      record.expiresAtMs.le other.expiresAtMs = true

/--
The clock does not go back.  A validation that passes the comparison of sequences
is about one of the given records, which has not expired yet, and no other one of
the same peer and namespace is about to write.
-/
def Spaced {Key : Type} (env : RecordEnvironment Key) (submitted : List SignedDrpRecordV1)
    (config : Config ValidatorRun (Validating Key)) :
    Action ValidateRequest ValidateEvent → Prop
  | .start request => request.aborted = false → config.shared.clock ≤ request.now
  | .resume index event =>
    match config.tasks[index]? with
    | some (.verifying candidate) =>
      ((continueValidate env event (.verifying candidate) config.shared).2.bind
          Validating.target).isSome →
        candidate.record ∈ submitted ∧ config.shared.clock < candidate.expiresAtMs ∧
          ∀ other ∈ config.tasks.eraseIdx index,
            other.target ≠ some (candidate.record.namespaceName, candidate.record.peerId)
    | _ => True

instance {Key : Type} (env : RecordEnvironment Key) (submitted : List SignedDrpRecordV1)
    (config : Config ValidatorRun (Validating Key)) (action : Action ValidateRequest ValidateEvent) :
    Decidable (Spaced env submitted config action) := by
  unfold Spaced
  split
  · infer_instance
  · split <;> infer_instance

structure Carries (submitted : List SignedDrpRecordV1) (record : SignedDrpRecordV1)
    (entry : ReplayEntry) : Prop where
  submitted : record ∈ submitted
  valid : isValidRendezvousNamespace record.namespaceName = true
  sequence : record.sequence.toSafeInteger = some entry.sequence
  expires : record.expiresAtMs.toSafeInteger = some entry.expiresAtMs

section Invariant

variable {Key : Type} {env : RecordEnvironment Key} {submitted : List SignedDrpRecordV1}

structure ValidatorRun.Sound (submitted : List SignedDrpRecordV1) (run : ValidatorRun) : Prop where
  increasing : ∀ namespaceName peerId, (run.acceptedFor namespaceName peerId).Pairwise
    fun earlier later => earlier.sequence.lt later.sequence = true
  carried : ∀ record ∈ run.accepted, ∃ entry, Carries submitted record entry
  ledger : ∀ key entry, run.validator.sequences.get key = some entry →
    ∃ record, record.sequenceKey = key ∧ Carries submitted record entry
  remembered : ∀ record ∈ run.accepted, ∀ entry, Carries submitted record entry →
    entry.expiresAtMs ≤ run.clock ∨ ∃ held,
      run.validator.sequences.get record.sequenceKey = some held ∧ entry.sequence ≤ held.sequence

def ValidatorRun.Owns (submitted : List SignedDrpRecordV1) (run : ValidatorRun) :
    Validating Key → Prop
  | .verifying candidate =>
    (candidate.record ∈ submitted → Carries submitted candidate.record candidate.entry) ∧
      candidate.now ≤ run.clock
  | .resolving candidate => Carries submitted candidate.record candidate.entry ∧
      ∀ record ∈ run.acceptedFor candidate.record.namespaceName candidate.record.peerId,
        record.sequence.lt candidate.record.sequence = true

def Validating.Apart (task other : Validating Key) : Prop :=
  ∀ target, task.target = some target → other.target ≠ some target

theorem Validating.Apart.symm {task other : Validating Key} (apart : task.Apart other) :
    other.Apart task :=
  fun target writes writes' => apart target writes' writes

variable {run : ValidatorRun} {candidate : Candidate Key}

@[simp]
theorem accepted_returns_error (rejection : RejectedRecord) :
    (run.returns (.error rejection)).accepted = run.accepted := by
  simp [ValidatorRun.returns, ValidatorRun.accepted, Except.toOption]

@[simp]
theorem accepted_returns_ok (result : AcceptedRecord) :
    (run.returns (.ok result)).accepted = run.accepted ++ [result.record] := by
  simp [ValidatorRun.returns, ValidatorRun.accepted, Except.toOption]

theorem mem_acceptedFor {namespaceName peerId : String} {record : SignedDrpRecordV1} :
    record ∈ run.acceptedFor namespaceName peerId ↔
      record ∈ run.accepted ∧ record.namespaceName = namespaceName ∧ record.peerId = peerId := by
  simp [ValidatorRun.acceptedFor]

theorem ValidatorRun.Sound.of_same {other : ValidatorRun} (sound : run.Sound submitted)
    (accepted : other.accepted = run.accepted) (sequences : other.validator = run.validator)
    (clock : run.clock ≤ other.clock) : other.Sound submitted := by
  refine ⟨fun namespaceName peerId => ?_, ?_, ?_, ?_⟩
  · rw [ValidatorRun.acceptedFor, accepted]
    exact sound.increasing namespaceName peerId
  · rw [accepted]
    exact sound.carried
  · rw [sequences]
    exact sound.ledger
  · rw [accepted, sequences]
    intro record mem entry carries
    rcases sound.remembered record mem entry carries with expired | held
    · exact Or.inl (expired.trans clock)
    · exact Or.inr held

theorem ValidatorRun.Owns.of_same {other : ValidatorRun} {task : Validating Key}
    (owns : run.Owns submitted task) (accepted : other.accepted = run.accepted)
    (clock : run.clock ≤ other.clock) : other.Owns submitted task := by
  cases task with
  | verifying candidate => exact ⟨owns.1, owns.2.trans clock⟩
  | resolving candidate =>
    refine ⟨owns.1, ?_⟩
    rw [ValidatorRun.acceptedFor, accepted]
    exact owns.2

theorem Carries.expires_le (ordered : ExpiryFollowsSequence submitted)
    {record other : SignedDrpRecordV1} {entry held : ReplayEntry}
    (carries : Carries submitted record entry) (carries' : Carries submitted other held)
    (sameKey : record.sequenceKey = other.sequenceKey) (le : entry.sequence ≤ held.sequence) :
    entry.expiresAtMs ≤ held.expiresAtMs := by
  rcases sequenceKey_inj carries.valid carries'.valid sameKey with ⟨sameName, samePeer⟩
  have follows := ordered record carries.submitted other carries'.submitted sameName samePeer
    ((JsNumber.le_of_toSafeInteger carries.sequence carries'.sequence).mpr le)
  exact (JsNumber.le_of_toSafeInteger carries.expires carries'.expires).mp follows

theorem ValidatorRun.Sound.sweep (sound : run.Sound submitted)
    (ordered : ExpiryFollowsSequence submitted) {now : ℤ} (read : now ≤ run.clock) :
    ValidatorRun.Sound submitted
      { run with validator := run.validator.sweepExpiredReplayState now } := by
  refine ⟨sound.increasing, sound.carried, fun key entry found => ?_,
    fun record mem entry carries => ?_⟩
  · exact sound.ledger key entry (InsertionMap.get_filter_eq_some.mp found).1
  · rcases sound.remembered record mem entry carries with expired | ⟨held, found, le⟩
    · exact Or.inl expired
    · by_cases fresh : now < held.expiresAtMs
      · refine Or.inr ⟨held, InsertionMap.get_filter_eq_some.mpr ⟨found, ?_⟩, le⟩
        simpa using fresh
      · -- What the sweep deletes has expired, and so has everything below its sequence.
        rcases sound.ledger _ held found with ⟨other, sameKey, carries'⟩
        have expires := carries.expires_le ordered carries' sameKey.symm le
        left
        exact expires.trans ((not_lt.mp fresh).trans read)

theorem ValidatorRun.Sound.lt_of_checkSequence (sound : run.Sound submitted)
    (ordered : ExpiryFollowsSequence submitted)
    (carries : Carries submitted candidate.record candidate.entry)
    (read : candidate.now ≤ run.clock) (fresh : run.clock < candidate.expiresAtMs)
    (passed : (run.validator.checkSequence candidate).2 = .ok ()) :
    ∀ record ∈ run.acceptedFor candidate.record.namespaceName candidate.record.peerId,
      record.sequence.lt candidate.record.sequence = true := by
  intro record mem
  rcases mem_acceptedFor.mp mem with ⟨isAccepted, sameName, samePeer⟩
  have sameKey : record.sequenceKey = candidate.record.sequenceKey := by
    rw [SignedDrpRecordV1.sequenceKey, SignedDrpRecordV1.sequenceKey, sameName, samePeer]
  rcases sound.carried record isAccepted with ⟨entry, carried⟩
  rw [JsNumber.lt_of_toSafeInteger carried.sequence carries.sequence]
  by_contra notLower
  have later := carries.expires_le ordered carried sameKey.symm (not_lt.mp notLower)
  rcases (sound.sweep ordered read).remembered record isAccepted entry carried with
    expired | ⟨held, found, le⟩
  · exact absurd (later.trans expired) (not_le.mpr fresh)
  · rw [sameKey] at found
    have lower := RecordValidator.lt_of_checkSequence passed found
    exact notLower (le.trans_lt lower)

theorem ValidatorRun.Sound.accept (sound : run.Sound submitted)
    (owns : run.Owns submitted (.resolving candidate)) (mode : String) :
    ValidatorRun.Sound submitted
      ({ run with validator := run.validator.remember candidate }.returns
        (.ok ⟨mode, candidate.serializedBytes, candidate.record⟩)) := by
  rcases owns with ⟨carries, higher⟩
  refine ⟨fun namespaceName peerId => ?_, fun record mem => ?_, fun key entry found => ?_,
    fun record mem entry carried => ?_⟩
  · rw [ValidatorRun.acceptedFor, accepted_returns_ok, List.filter_append, List.pairwise_append]
    refine ⟨sound.increasing namespaceName peerId, ?_, fun earlier earlierMem later laterMem => ?_⟩
    · exact (List.pairwise_singleton _ _).filter _
    · rcases List.mem_filter.mp laterMem with ⟨isNew, sameTarget⟩
      rw [List.mem_singleton.mp isNew] at sameTarget ⊢
      rcases of_decide_eq_true sameTarget with ⟨rfl, rfl⟩
      exact higher earlier earlierMem
  · rw [accepted_returns_ok] at mem
    rcases List.mem_append.mp mem with old | new
    · exact sound.carried record old
    · rw [List.mem_singleton.mp new]
      exact ⟨_, carries⟩
  · change (run.validator.sequences.set _ _).get key = some entry at found
    rw [InsertionMap.get_set] at found
    split at found
    case isTrue same =>
      cases found
      exact ⟨candidate.record, same.symm, carries⟩
    case isFalse => exact sound.ledger key entry found
  · rw [accepted_returns_ok] at mem
    change _ ∨ ∃ held, (run.validator.sequences.set _ _).get record.sequenceKey = some held ∧ _
    by_cases sameKey : record.sequenceKey = candidate.record.sequenceKey
    · right
      refine ⟨candidate.entry, by rw [sameKey, InsertionMap.get_set_self], ?_⟩
      rcases List.mem_append.mp mem with old | new
      · rcases sequenceKey_inj carried.valid carries.valid sameKey with ⟨sameName, samePeer⟩
        have lower := higher record (mem_acceptedFor.mpr ⟨old, sameName, samePeer⟩)
        exact ((JsNumber.lt_of_toSafeInteger carried.sequence carries.sequence).mp lower).le
      · have same := carried.sequence
        rw [List.mem_singleton.mp new, carries.sequence] at same
        exact (Option.some.inj same).symm.le
    · rcases List.mem_append.mp mem with old | new
      · rw [InsertionMap.get_set_of_ne sameKey]
        exact sound.remembered record old entry carried
      · exact absurd (congrArg SignedDrpRecordV1.sequenceKey (List.mem_singleton.mp new)) sameKey

theorem ValidatorRun.Owns.accept {task : Validating Key} (owns : run.Owns submitted task)
    (apart : task.target ≠ some (candidate.record.namespaceName, candidate.record.peerId))
    {validator : RecordValidator} (mode : String) :
    ({ run with validator }.returns
      (.ok ⟨mode, candidate.serializedBytes, candidate.record⟩)).Owns submitted task := by
  cases task with
  | verifying candidate => exact owns
  | resolving other =>
    refine ⟨owns.1, fun record mem => ?_⟩
    rcases mem_acceptedFor.mp mem with ⟨isAccepted, sameName, samePeer⟩
    rw [accepted_returns_ok] at isAccepted
    rcases List.mem_append.mp isAccepted with old | new
    · exact owns.2 record (mem_acceptedFor.mpr ⟨old, sameName, samePeer⟩)
    · rw [List.mem_singleton.mp new] at sameName samePeer
      refine absurd ?_ apart
      rw [Validating.target, ← sameName, ← samePeer]

variable {config : Config ValidatorRun (Validating Key)} {shared : ValidatorRun}
  {task : Option (Validating Key)}

abbrev Undisturbed (submitted : List SignedDrpRecordV1)
    (config : Config ValidatorRun (Validating Key)) : Prop :=
  Program.Outline (ValidatorRun.Sound submitted) (ValidatorRun.Owns submitted) Validating.Apart config

theorem Undisturbed.of_same (outline : Undisturbed submitted config)
    (accepted : shared.accepted = config.shared.accepted)
    (validator : shared.validator = config.shared.validator)
    (clock : config.shared.clock ≤ shared.clock) :
    shared.Sound submitted ∧ ∀ other ∈ config.tasks, shared.Owns submitted other :=
  ⟨outline.shared.of_same accepted validator clock,
    fun other mem => (outline.owns other mem).of_same accepted clock⟩

theorem guarantee_start {request : ValidateRequest} (outline : Undisturbed submitted config)
    (spaced : Spaced env submitted config (.start request))
    (begun : beginValidate env request config.shared = (shared, task)) :
    (shared.Sound submitted ∧ ∀ other ∈ config.tasks, shared.Owns submitted other) ∧
      ∀ new ∈ task, shared.Owns submitted new ∧ new.target = none := by
  by_cases aborted : request.aborted = true
  · have run : beginValidate env request config.shared = (config.shared, none) := if_pos aborted
    cases run.symm.trans begun
    exact ⟨⟨outline.shared, outline.owns⟩, by simp⟩
  · have clock := spaced (Bool.eq_false_iff.mpr aborted)
    rcases @beginValidate_cases _ env request config.shared with
      run | ⟨rejection, run⟩ | ⟨candidate, checked, run⟩
    · cases run.symm.trans begun
      exact ⟨⟨outline.shared, outline.owns⟩, by simp⟩
    · cases run.symm.trans begun
      exact ⟨outline.of_same (accepted_returns_error rejection) rfl clock, by simp⟩
    · cases run.symm.trans begun
      rcases check_eq_ok checked with ⟨_, _, read, _, valid, sequence, expires, _⟩
      refine ⟨outline.of_same rfl rfl clock, fun new isNew => ?_⟩
      cases Option.mem_some.mp isNew
      exact ⟨⟨fun only => ⟨only, valid, sequence, expires⟩, read.le⟩, rfl⟩

theorem guarantee_resume (ordered : ExpiryFollowsSequence submitted) {index : ℕ}
    {event : ValidateEvent} {current : Validating Key} (outline : Undisturbed submitted config)
    (spaced : Spaced env submitted config (.resume index event))
    (found : config.tasks[index]? = some current)
    (continued : continueValidate env event current config.shared = (shared, task)) :
    (shared.Sound submitted ∧ ∀ other ∈ config.tasks.eraseIdx index, shared.Owns submitted other) ∧
      ∀ new ∈ task, shared.Owns submitted new ∧
        ∀ other ∈ config.tasks.eraseIdx index, other.Apart new := by
  have owns := outline.owns current (List.mem_of_getElem? found)
  have waiting : ∀ other ∈ config.tasks.eraseIdx index, other ∈ config.tasks :=
    fun other mem => List.mem_of_mem_eraseIdx mem
  have apart : ∀ other ∈ config.tasks.eraseIdx index, current.Apart other :=
    fun other mem => outline.apart_others Validating.Apart.symm found mem
  rcases @continueValidate_cases _ env event current config.shared with
    ⟨next, same, run⟩ | ⟨rejection, run⟩ | ⟨candidate, rfl, ⟨rejection, run⟩ | ⟨passed, run⟩⟩ |
      ⟨candidate, mode, rfl, run⟩
  · cases run.symm.trans continued
    refine ⟨⟨outline.shared, fun other mem => outline.owns other (waiting other mem)⟩,
      fun new isNew => ?_⟩
    rcases same with rfl | rfl
    · cases isNew
    · cases Option.mem_some.mp isNew
      exact ⟨owns, fun other mem => (apart other mem).symm⟩
  · cases run.symm.trans continued
    rcases outline.of_same (accepted_returns_error rejection) rfl le_rfl with ⟨sound, others⟩
    exact ⟨⟨sound, fun other mem => others other (waiting other mem)⟩, by simp⟩
  · cases run.symm.trans continued
    have swept := outline.shared.sweep ordered owns.2
    refine ⟨⟨swept.of_same (accepted_returns_error rejection) rfl le_rfl, fun other mem => ?_⟩,
      by simp⟩
    exact (outline.owns other (waiting other mem)).of_same (accepted_returns_error rejection) le_rfl
  · cases run.symm.trans continued
    rw [Spaced, found] at spaced
    rcases spaced (by rw [run]; rfl) with ⟨only, fresh, alone⟩
    have carries := owns.1 only
    refine ⟨⟨outline.shared.sweep ordered owns.2, fun other mem => ?_⟩, fun new isNew => ?_⟩
    · exact (outline.owns other (waiting other mem)).of_same rfl le_rfl
    · cases Option.mem_some.mp isNew
      refine ⟨⟨carries, ?_⟩, fun other mem target writes writes' => ?_⟩
      · exact outline.shared.lt_of_checkSequence ordered carries owns.2 fresh passed
      · exact alone other mem (writes.trans writes'.symm)
  · cases run.symm.trans continued
    refine ⟨⟨outline.shared.accept owns mode, fun other mem => ?_⟩, by simp⟩
    exact (outline.owns other (waiting other mem)).accept (apart other mem _ rfl) mode

theorem undisturbed_unused (limits : RecordLimits) (clock : ℤ) :
    Undisturbed submitted (unused limits clock : Config ValidatorRun (Validating Key)) := by
  refine ⟨⟨fun _ _ => .nil, ?_, ?_, ?_⟩, ?_, .nil⟩ <;> simp [unused, ValidatorRun.accepted]

theorem undisturbed_run (ordered : ExpiryFollowsSequence submitted)
    {actions : List (Action ValidateRequest ValidateEvent)} (outline : Undisturbed submitted config)
    (permits : (validation env).Permits (Spaced env submitted) config actions) :
    Undisturbed submitted ((validation env).run config actions) := by
  refine Program.run_outline (fun config action shared task outline spaced effect => ?_) outline
    permits
  cases action with
  | start request =>
    rcases guarantee_start outline spaced (Option.some.inj effect) with
      ⟨⟨sound, others⟩, new⟩
    refine ⟨sound, others, fun waiting mem => ⟨(new waiting mem).1, ?_⟩⟩
    intro other _ target _ writes
    rw [(new waiting mem).2] at writes
    cases writes
  | resume index event =>
    rcases Option.map_eq_some_iff.mp effect with ⟨current, found, continued⟩
    rcases guarantee_resume ordered outline spaced found continued with ⟨⟨sound, others⟩, new⟩
    exact ⟨sound, others, new⟩

/--
Replay protection.  If records of a peer expire in the order of their sequences,
and its validations neither overlap between comparison and write nor outlast
their records, the sequences accepted for the peer in a namespace increase.
-/
theorem accepted_sequences_increase (ordered : ExpiryFollowsSequence submitted)
    {limits : RecordLimits} {clock : ℤ} {actions : List (Action ValidateRequest ValidateEvent)}
    (permits : (validation env).Permits (Spaced env submitted) (unused limits clock) actions)
    (namespaceName peerId : String) :
    (((validation env).run (unused limits clock) actions).shared.acceptedFor
      namespaceName peerId).Pairwise
        fun earlier later => earlier.sequence.lt later.sequence = true :=
  (undisturbed_run ordered (undisturbed_unused limits clock) permits).shared.increasing
    namespaceName peerId

end Invariant

/-- The times a producer gives to a record that it issues or retires its peer with. -/
def producedTimes (retiring : Bool) (nowMs ttlMs : ℤ) : ℤ × ℤ :=
  let expiresAtMs := if retiring then nowMs + 5000 else nowMs + ttlMs
  let issuedAtMs := if retiring then expiresAtMs - defaultRecordLimits.minTtlMs else nowMs
  (issuedAtMs, expiresAtMs)

namespace LedgerExample

def environment : RecordEnvironment String where
  format := BindingExample.exactFormat
  multiaddr := fun address =>
    let parts := (address.toList.splitOn '/').map String.ofList
    .ok { text := address, components := parts.zip (parts.tail.map some) }
  decodeCanonicalBase64Url := fun text => some (text.toList.map fun char => char.toNat.toUInt8)
  publicKeyFromProtobuf := fun bytes =>
    some (.ofList (bytes.map fun byte => Char.ofNat byte.toNat))
  keyType := fun _ => "Ed25519"
  isPeerId := fun _ => true
  peerIdFromPublicKey := id
  verify := fun _ _ _ => true

def room : String := "drp-room:v1:AAAAAAAAAAAAAAAAAAAAAA"

def record (peerId : String) (sequence issuedAtMs expiresAtMs : JsNumber) : SignedDrpRecordV1 where
  kind := recordKind
  version := .finite (.ofInt 1 Double.one_small)
  namespaceName := room
  peerId := peerId
  publicKey := peerId
  addresses := ["/dns4/" ++ peerId ++ "/tcp/443/wss/p2p/" ++ peerId]
  capabilities := ["drp-gossipsub"]
  sequence := sequence
  issuedAtMs := issuedAtMs
  expiresAtMs := expiresAtMs
  signature := "signature"

def first : SignedDrpRecordV1 := record "alice" (.finite (.ofInt 1 Double.one_small))
  (.finite (.ofInt 100000 (by decide))) (.finite (.ofInt 400000 (by decide)))

def retired : SignedDrpRecordV1 := record "alice" (.finite (.ofInt 2 Double.two_small))
  (.finite (.ofInt 96000 (by decide))) (.finite (.ofInt 106000 (by decide)))

def refreshed : SignedDrpRecordV1 := record "alice" (.finite (.ofInt 2 Double.two_small))
  (.finite (.ofInt 101000 (by decide))) (.finite (.ofInt 401000 (by decide)))

def submit (record : SignedDrpRecordV1) (now : ℤ) : List (Action ValidateRequest ValidateEvent) :=
  [.start ⟨record.toValue, ⟨some ⟨true, "open", none⟩, room⟩, now, false⟩, .resume 0 .verified,
    .resume 0 (.resolved fun _ => (⟨true, []⟩, ⟨true, []⟩))]

def validated (actions : List (Action ValidateRequest ValidateEvent)) : ValidatorRun :=
  ((validation environment).run (unused defaultRecordLimits 0) actions).shared

end LedgerExample

open LedgerExample in
theorem accepted_sequences_increase_refreshed :
    ((validated (submit first 100000 ++ submit refreshed 101000)).acceptedFor room "alice").Pairwise
      fun earlier later => earlier.sequence.lt later.sequence = true := by
  have ordered : ExpiryFollowsSequence [first, refreshed] := by
    unfold ExpiryFollowsSequence
    decide +kernel
  exact accepted_sequences_increase ordered (by decide +kernel) room "alice"

open LedgerExample in
/--
A record of `alice` is accepted, then the one that retires the peer.  When that
one has expired the ledger forgets it, and the older record, which lives on, is
accepted a second time.
-/
theorem retirement_is_forgotten :
    producedTimes false 100000 300000 = (100000, 400000) ∧
    producedTimes true 101000 300000 = (96000, 106000) ∧
    ((validated (submit first 100000 ++ submit retired 101000 ++ submit first 107000)).acceptedFor
      room "alice").map (·.sequence.toSafeInteger) = [some 1, some 2, some 1] ∧
    ¬((validated (submit first 100000 ++ submit retired 101000 ++ submit first 107000)).acceptedFor
      room "alice").Pairwise fun earlier later => earlier.sequence.lt later.sequence = true := by
  have sequences : ((validated (submit first 100000 ++ submit retired 101000 ++
      submit first 107000)).acceptedFor room "alice").map (·.sequence.toSafeInteger) =
        [some 1, some 2, some 1] := by decide +kernel
  refine ⟨by decide, by decide, sequences, fun increasing => ?_⟩
  simp only [List.map_eq_cons_iff, List.map_eq_nil_iff] at sequences
  rcases sequences with ⟨earlier, _, same, one, _, _, rfl, _, later, _, rfl, one', _⟩
  rw [same] at increasing
  have lower := List.rel_of_pairwise_cons increasing (List.mem_cons_of_mem _ List.mem_cons_self)
  exact absurd ((JsNumber.lt_of_toSafeInteger one one').mp lower) (lt_irrefl 1)

end TsDrp.Rendezvous
