import TsDrp.Rendezvous.Record
import Mathlib.Data.Finset.Card

/-!
# Reconciliation of validated records

`reconcileValidatedRecords` unites the answers of several sources.  It keeps the
record with the highest sequence of every peer, drops expired records, and drops
a peer altogether once two records with different signatures share its highest
sequence.  A peer beyond the cap makes it throw.
-/

namespace TsDrp.Rendezvous

open InsertionMap

structure ValidatedDrpRecord where
  admissionMode : String
  record : SignedDrpRecordV1
  sourceEndpointId : String
deriving DecidableEq

/-- The error with the message `reconciled record cap exceeded`. -/
inductive ReconciliationCapacityError where
  | exceeded
deriving DecidableEq

/-- The maps of the loop of `reconcileValidatedRecords`. -/
structure Reconciliation where
  candidates : InsertionMap String ValidatedDrpRecord
  conflictedPeerIds : List String

def reconcileCandidate (maximum : Option ℕ) (now : JsNumber) (state : Reconciliation)
    (candidate : ValidatedDrpRecord) : Except ReconciliationCapacityError Reconciliation :=
  let peerId := candidate.record.peerId
  let kept := { state with candidates := state.candidates.set peerId candidate }
  if candidate.record.expiresAtMs.le now ∨ peerId ∈ state.conflictedPeerIds then .ok state
  else
    match state.candidates.get peerId with
    | none => if maximum.any (· ≤ state.candidates.size) then .error .exceeded else .ok kept
    | some existing =>
      if existing.record.sequence.lt candidate.record.sequence then .ok kept
      else if candidate.record.sequence.strictEquals existing.record.sequence ∧
          candidate.record.signature ≠ existing.record.signature then
        .ok { candidates := state.candidates.delete peerId
              conflictedPeerIds := peerId :: state.conflictedPeerIds }
      else .ok state

/-- Without a `maximum` there is no cap; `localeLe` is the order of the locale. -/
def reconcileValidatedRecords (localeLe : String → String → Bool) (maximum : Option ℕ)
    (now : JsNumber) (recordSets : List (List ValidatedDrpRecord)) :
    Except ReconciliationCapacityError (List ValidatedDrpRecord) :=
  (recordSets.flatten.foldlM (reconcileCandidate maximum now) ⟨.empty, []⟩).map fun state =>
    state.candidates.values.insertionSort fun left right =>
      localeLe left.record.peerId right.record.peerId = true

theorem exists_reconcileCandidate {maximum : ℕ} (now : JsNumber) {state : Reconciliation}
    (candidate : ValidatedDrpRecord) (room : state.candidates.size < maximum) :
    ∃ next, reconcileCandidate (some maximum) now state candidate = .ok next ∧
      next.candidates.size ≤ state.candidates.size + 1 := by
  have set : (state.candidates.set candidate.record.peerId candidate).size ≤
      state.candidates.size + 1 := by
    rw [size_set]
    split <;> omega
  by_cases skipped : candidate.record.expiresAtMs.le now = true ∨
      candidate.record.peerId ∈ state.conflictedPeerIds
  · exact ⟨state, if_pos skipped, by omega⟩
  · simp only [reconcileCandidate, if_neg skipped]
    cases state.candidates.get candidate.record.peerId with
    | none =>
      have fits : ¬ (some maximum).any (· ≤ state.candidates.size) = true := by simpa using room
      exact ⟨_, if_neg fits, set⟩
    | some existing =>
      dsimp only
      split
      · exact ⟨_, rfl, set⟩
      · split
        · exact ⟨_, rfl, size_delete_le.trans (Nat.le_succ _)⟩
        · exact ⟨_, rfl, Nat.le_succ _⟩

theorem reconcileValidatedRecords_returns (localeLe : String → String → Bool) {maximum : ℕ}
    (now : JsNumber) {records : List ValidatedDrpRecord} (few : records.length ≤ maximum) :
    ∃ kept, reconcileValidatedRecords localeLe (some maximum) now [records] = .ok kept := by
  have loop : ∀ (rest : List ValidatedDrpRecord) (state : Reconciliation),
      state.candidates.size + rest.length ≤ maximum →
        ∃ final, rest.foldlM (reconcileCandidate (some maximum) now) state = .ok final := by
    intro rest
    induction rest with
    | nil => exact fun state _ => ⟨state, rfl⟩
    | cons candidate rest ih =>
      intro state room
      rw [List.length_cons] at room
      have free : state.candidates.size < maximum := by omega
      rcases exists_reconcileCandidate now candidate free with ⟨next, taken, size⟩
      rw [List.foldlM_cons, taken]
      exact ih next (by omega)
  rcases loop records ⟨.empty, []⟩ (by simpa [size, empty] using few) with
    ⟨final, returned⟩
  rw [reconcileValidatedRecords, List.flatten_singleton, returned]
  exact ⟨_, rfl⟩

def SignedDrpRecordV1.rank (record : SignedDrpRecordV1) : ℤ := record.sequence.toSafeInteger.getD 0

theorem sequence_lt_iff {record other : SignedDrpRecordV1}
    (safe : record.sequence.toSafeInteger.isSome) (safe' : other.sequence.toSafeInteger.isSome) :
    record.sequence.lt other.sequence = true ↔ record.rank < other.rank := by
  rcases Option.isSome_iff_exists.mp safe with ⟨sequence, safe⟩
  rcases Option.isSome_iff_exists.mp safe' with ⟨sequence', safe'⟩
  rw [JsNumber.lt_of_toSafeInteger safe safe', SignedDrpRecordV1.rank, SignedDrpRecordV1.rank, safe,
    safe', Option.getD_some, Option.getD_some]

theorem Reconciliation.nodup_peers {state : Reconciliation} (known : ∀ peerId kept,
      state.candidates.get peerId = some kept → kept.record.peerId = peerId) :
    (state.candidates.values.map fun candidate => candidate.record.peerId).Nodup := by
  have keys : state.candidates.values.map (fun candidate => candidate.record.peerId) =
      state.candidates.entries.map Prod.fst := by
    rw [values, List.map_map]
    apply List.map_congr_left
    intro entry mem
    exact known entry.1 entry.2 (get_eq_some_iff.mpr mem)
  rw [keys]
  exact state.candidates.nodup

end TsDrp.Rendezvous
