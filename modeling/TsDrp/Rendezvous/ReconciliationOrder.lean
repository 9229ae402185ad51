import TsDrp.Rendezvous.Reconciliation

/-!
# Reconciliation and the order of the records

The loop of `reconcileValidatedRecords` sees the records one after the other.  A
peer is dropped for good once two signatures for one sequence have been met, be it
the highest sequence or a lower one, and a peer that is dropped makes room under
the cap.  What the loop gives therefore depends on the order in which the records
arrive, except in three cases: all peers fit under the cap and no peer with a record
to give has two signatures for a sequence or two records with the same one; too many
peers never have a conflict; or there is no room at all.  One record may come from
several sources.
-/

namespace TsDrp

open Outcome

namespace JsNumber

theorem place_inj {left right : ℚ} : place left = place right ↔ left = right := by
  simp [place]

theorem place_ne_top {value : ℚ} : place value ≠ ⊤ :=
  fun equal => WithTop.coe_ne_top (WithBot.coe_injective equal)

theorem place_ne_bot {value : ℚ} : place value ≠ ⊥ := WithBot.coe_ne_bot

theorem strictEquals_iff_extended {left right : JsNumber} :
    left.strictEquals right = true ↔ left.extended ≠ none ∧ left.extended = right.extended := by
  have finite_inj : ∀ first second : Double, first.value = second.value → first = second := by
    rintro ⟨value, _⟩ ⟨_, _⟩ rfl
    rfl
  rw [strictEquals_iff]
  cases left with
  | nan => simp [extended]
  | infinity negative =>
    cases negative <;> cases right with
    | infinity negative => cases negative <;> simp [isZero, extended]
    | _ => simp [isZero, extended, place_ne_top.symm, place_ne_bot.symm]
  | negativeZero =>
    cases right with
    | finite double => simp [isZero, extended, place_inj, eq_comm]
    | infinity negative => cases negative <;> simp [isZero, extended, place_ne_top, place_ne_bot]
    | _ => simp [isZero, extended]
  | finite double =>
    cases right with
    | finite double' =>
      simp only [ne_eq, reduceCtorEq, not_false_eq_true, isZero, decide_eq_true_eq, true_and,
        extended, Option.some.injEq, place_inj, finite.injEq]
      constructor
      · rintro (⟨zero, zero'⟩ | rfl)
        · rw [zero, zero']
        · rfl
      · intro same
        exact Or.inr (finite_inj _ _ same)
    | infinity negative => cases negative <;> simp [isZero, extended, place_ne_top, place_ne_bot]
    | negativeZero => simp [isZero, extended, place_inj]
    | nan => simp [isZero, extended]

theorem strictEquals_of_toSafeInteger {left right : JsNumber} {first second : ℤ}
    (safe : left.toSafeInteger = some first) (safe' : right.toSafeInteger = some second) :
    left.strictEquals right = true ↔ first = second := by
  rw [strictEquals_iff_extended, extended_of_toSafeInteger safe, extended_of_toSafeInteger safe',
    Option.some.injEq, place_inj, Rat.intCast_inj]
  simp

end JsNumber

namespace Rendezvous

def freshRecords (now : JsNumber) (records : List ValidatedDrpRecord) : List ValidatedDrpRecord :=
  records.filter fun candidate => !candidate.record.expiresAtMs.le now

section Choice

variable (records : List ValidatedDrpRecord)

/-- Two signatures of a peer for one sequence. -/
def Conflicted (peerId : String) : Prop :=
  ∃ first ∈ records, ∃ second ∈ records, first.record.peerId = peerId ∧
    second.record.peerId = peerId ∧ first.record.rank = second.record.rank ∧
    first.record.signature ≠ second.record.signature

instance (peerId : String) :
    Decidable (Conflicted records peerId) := by
  unfold Conflicted
  infer_instance

/-- The highest sequence of its peer, without another signature for that sequence. -/
def Chosen (candidate : ValidatedDrpRecord) : Prop :=
  candidate ∈ records ∧ ∀ other ∈ records, other.record.peerId = candidate.record.peerId →
    other.record.rank < candidate.record.rank ∨
      other.record.rank = candidate.record.rank ∧
        other.record.signature = candidate.record.signature

instance (candidate : ValidatedDrpRecord) :
    Decidable (Chosen records candidate) := by
  unfold Chosen
  infer_instance

def peers : Finset String :=
  (records.map fun candidate => candidate.record.peerId).toFinset

variable {records} in
theorem mem_peers {peerId : String} :
    peerId ∈ peers records ↔ ∃ candidate ∈ records, candidate.record.peerId = peerId := by
  simp [peers]

def unconflictedPeers : Finset String :=
  (peers records).filter fun peerId => ¬ Conflicted records peerId

/--
A peer with a record to give has no two signatures for any sequence, and it is the same
record wherever it comes from.
-/
def OneChoice : Prop :=
  ∀ candidate ∈ records, Chosen records candidate →
    ¬ Conflicted records candidate.record.peerId ∧ ∀ other ∈ records, Chosen records other →
      other.record.peerId = candidate.record.peerId → other.record = candidate.record

instance : Decidable (OneChoice records) := by
  unfold OneChoice
  infer_instance

end Choice

structure Usable (now : JsNumber) (records : List ValidatedDrpRecord) : Prop where
  fresh : ∀ candidate ∈ records, candidate.record.expiresAtMs.le now = false
  safe : ∀ candidate ∈ records, candidate.record.sequence.toSafeInteger.isSome

theorem Usable.of_subset {now : JsNumber} {records some : List ValidatedDrpRecord}
    (usable : Usable now records) (subset : some ⊆ records) : Usable now some :=
  ⟨fun candidate mem => usable.fresh candidate (subset mem),
    fun candidate mem => usable.safe candidate (subset mem)⟩

section Standing

variable {seen rest : List ValidatedDrpRecord} {candidate kept : ValidatedDrpRecord}
  {peerId : String}

inductive Standing where
  | absent
  | held (kept : ValidatedDrpRecord)
  | dropped

def Standing.given : Standing → Option ValidatedDrpRecord
  | .held kept => some kept
  | _ => none

def Standing.after (standing : Standing) (candidate : ValidatedDrpRecord) : Standing :=
  match standing with
  | .absent => .held candidate
  | .held kept =>
    if kept.record.rank < candidate.record.rank then .held candidate
    else if candidate.record.rank = kept.record.rank ∧
        candidate.record.signature ≠ kept.record.signature then .dropped
    else .held kept
  | .dropped => .dropped

def standing (peerId : String) (seen : List ValidatedDrpRecord) : Standing :=
  (seen.filter fun candidate => candidate.record.peerId = peerId).foldl Standing.after .absent

theorem standing_append (peerId : String) (seen more : List ValidatedDrpRecord) :
    standing peerId (seen ++ more) = (more.filter fun candidate =>
      candidate.record.peerId = peerId).foldl Standing.after (standing peerId seen) := by
  rw [standing, List.filter_append, List.foldl_append]
  rfl

theorem standing_own (seen : List ValidatedDrpRecord) (candidate : ValidatedDrpRecord) :
    standing candidate.record.peerId (seen ++ [candidate]) =
      (standing candidate.record.peerId seen).after candidate := by
  simp [standing_append]

theorem standing_other (seen : List ValidatedDrpRecord)
    (other : candidate.record.peerId ≠ peerId) :
    standing peerId (seen ++ [candidate]) = standing peerId seen := by
  simp [standing_append, other]

theorem foldl_after_held (below : ∀ other ∈ rest, other.record.rank < kept.record.rank ∨
      other.record.rank = kept.record.rank ∧ other.record.signature = kept.record.signature) :
    rest.foldl Standing.after (.held kept) = .held kept := by
  induction rest with
  | nil => rfl
  | cons other rest ih =>
    rw [List.forall_mem_cons] at below
    have stays : (Standing.held kept).after other = .held kept := by
      rcases below.1 with lower | ⟨equal, agree⟩
      · simp [Standing.after, lower.asymm, lower.ne]
      · simp [Standing.after, equal, agree]
    rw [List.foldl_cons, stays, ih below.2]

theorem standing_first (chosen : Chosen (candidate :: rest) candidate) :
    standing candidate.record.peerId (candidate :: rest) = .held candidate := by
  rw [standing, List.filter_cons_of_pos (by simp), List.foldl_cons]
  apply foldl_after_held
  intro other mem
  rcases List.mem_filter.mp mem with ⟨mem, samePeer⟩
  exact chosen.2 other (.tail _ mem) (of_decide_eq_true samePeer)

theorem standing_dropped (dropped : standing peerId seen = .dropped)
    (more : List ValidatedDrpRecord) : standing peerId (seen ++ more) = .dropped := by
  rw [standing_append, dropped]
  induction more.filter fun candidate => candidate.record.peerId = peerId with
  | nil => rfl
  | cons other rest ih => exact ih

structure ConflictPair (first second : ValidatedDrpRecord) : Prop where
  samePeer : second.record.peerId = first.record.peerId
  sameRank : first.record.rank = second.record.rank
  differ : first.record.signature ≠ second.record.signature

theorem ConflictPair.dropped {first second : ValidatedDrpRecord}
    (pair : ConflictPair first second)
    (notHeld : (standing first.record.peerId seen).given = none) :
    standing first.record.peerId (seen ++ [first, second]) = .dropped := by
  have both : standing first.record.peerId (seen ++ [first, second]) =
      ((standing first.record.peerId seen).after first).after second := by
    simp [standing_append, pair.samePeer]
  rw [both]
  cases stands : standing first.record.peerId seen with
  | absent => simp [Standing.after, pair.sameRank, pair.differ.symm]
  | held kept => simp [stands, Standing.given] at notHeld
  | dropped => rfl

theorem Conflicted.append (conflicted : Conflicted seen peerId) (more : List ValidatedDrpRecord) :
    Conflicted (seen ++ more) peerId := by
  rcases conflicted with ⟨first, isFirst, second, isSecond, rest⟩
  exact ⟨first, List.mem_append_left _ isFirst, second, List.mem_append_left _ isSecond, rest⟩

theorem Chosen.append (chosen : Chosen seen kept)
    (below : candidate.record.peerId = kept.record.peerId →
      candidate.record.rank < kept.record.rank ∨
        candidate.record.rank = kept.record.rank ∧
          candidate.record.signature = kept.record.signature) :
    Chosen (seen ++ [candidate]) kept := by
  refine ⟨List.mem_append_left _ chosen.1, fun other mem samePeer => ?_⟩
  rcases List.mem_append.mp mem with old | new
  · exact chosen.2 other old samePeer
  · rw [List.mem_singleton] at new
    subst new
    exact below samePeer

theorem Chosen.last (above : ∀ other ∈ seen, other.record.peerId = candidate.record.peerId →
      other.record.rank < candidate.record.rank) :
    Chosen (seen ++ [candidate]) candidate := by
  refine ⟨List.mem_append_right _ List.mem_cons_self, fun other mem samePeer => ?_⟩
  rcases List.mem_append.mp mem with old | new
  · exact Or.inl (above other old samePeer)
  · rw [List.mem_singleton] at new
    subst new
    exact Or.inr ⟨rfl, rfl⟩

def Standing.Sound (seen : List ValidatedDrpRecord) (peerId : String) : Standing → Prop
  | .absent => ∀ candidate ∈ seen, candidate.record.peerId ≠ peerId
  | .held kept => kept.record.peerId = peerId ∧ Chosen seen kept
  | .dropped => Conflicted seen peerId

theorem Standing.Sound.own {standing : Standing}
    (sound : standing.Sound seen candidate.record.peerId) :
    (standing.after candidate).Sound (seen ++ [candidate]) candidate.record.peerId := by
  cases standing with
  | absent => exact ⟨rfl, Chosen.last fun other mem same => absurd same (sound other mem)⟩
  | dropped => exact Conflicted.append sound _
  | held kept =>
    rcases sound with ⟨samePeer, chosen⟩
    unfold Standing.after
    dsimp only
    split
    case isTrue higher =>
      refine ⟨rfl, Chosen.last fun other mem same => ?_⟩
      rcases chosen.2 other mem (same.trans samePeer.symm) with lower | ⟨equal, _⟩
      · exact lower.trans higher
      · rwa [equal]
    case isFalse notHigher =>
      split
      case isTrue conflict =>
        exact ⟨kept, List.mem_append_left _ chosen.1, candidate,
          List.mem_append_right _ List.mem_cons_self, samePeer, rfl, conflict.1.symm,
          conflict.2.symm⟩
      case isFalse agree =>
        refine ⟨samePeer, chosen.append fun _ => ?_⟩
        rcases lt_or_eq_of_le (not_lt.mp notHigher) with lower | equal
        · exact Or.inl lower
        · exact Or.inr ⟨equal, not_not.mp fun differ => agree ⟨equal, differ⟩⟩

theorem Standing.Sound.other {standing : Standing} (sound : standing.Sound seen peerId)
    (other : candidate.record.peerId ≠ peerId) : standing.Sound (seen ++ [candidate]) peerId := by
  cases standing with
  | absent =>
    intro later mem
    rcases List.mem_append.mp mem with old | new
    · exact sound later old
    · rwa [List.mem_singleton.mp new]
  | held kept =>
    exact ⟨sound.1, sound.2.append fun same => absurd (same.trans sound.1) other⟩
  | dropped => exact Conflicted.append sound _

theorem standing_sound (peerId : String) (seen : List ValidatedDrpRecord) :
    (standing peerId seen).Sound seen peerId := by
  induction seen using List.reverseRecOn with
  | nil => exact fun _ mem => absurd mem List.not_mem_nil
  | append_singleton seen candidate ih =>
    by_cases own : candidate.record.peerId = peerId
    · subst own
      rw [standing_own]
      exact ih.own
    · rw [standing_other seen own]
      exact ih.other own

theorem sound_of_standing {stands : Standing} (same : standing peerId seen = stands) :
    stands.Sound seen peerId := same ▸ standing_sound peerId seen

theorem OneChoice.exists_held_iff (oneChoice : OneChoice seen) {record : SignedDrpRecordV1} :
    (∃ kept, standing record.peerId seen = .held kept ∧ kept.record = record) ↔
      ∃ candidate, Chosen seen candidate ∧ candidate.record = record := by
  constructor
  · rintro ⟨kept, held, isRecord⟩
    exact ⟨kept, (sound_of_standing held).2, isRecord⟩
  · rintro ⟨candidate, chosen, rfl⟩
    rcases oneChoice candidate chosen.1 chosen with ⟨unconflicted, unique⟩
    cases stands : standing candidate.record.peerId seen with
    | absent => exact absurd rfl (sound_of_standing stands candidate chosen.1)
    | held kept =>
      have sound := sound_of_standing stands
      exact ⟨kept, rfl, unique kept sound.2.1 sound.2 sound.1⟩
    | dropped => exact absurd (sound_of_standing stands) unconflicted

def heldPeers (seen : List ValidatedDrpRecord) : Finset String :=
  (peers seen).filter fun peerId => (standing peerId seen).given.isSome

theorem mem_heldPeers : peerId ∈ heldPeers seen ↔ (standing peerId seen).given.isSome := by
  rw [heldPeers, Finset.mem_filter, and_iff_right_iff_imp]
  intro held
  cases stands : standing peerId seen with
  | held kept =>
    have sound := sound_of_standing stands
    exact mem_peers.mpr ⟨kept, sound.2.1, sound.1⟩
  | _ => simp [stands, Standing.given] at held

theorem mem_heldPeers_append (held : peerId ∈ heldPeers (seen ++ [candidate])) :
    peerId ∈ heldPeers seen ∨
      peerId = candidate.record.peerId ∧ standing candidate.record.peerId seen = .absent := by
  rw [mem_heldPeers] at held ⊢
  by_cases own : candidate.record.peerId = peerId
  · subst own
    rw [standing_own] at held
    cases stands : standing candidate.record.peerId seen with
    | absent => exact Or.inr ⟨rfl, rfl⟩
    | held kept => exact Or.inl rfl
    | dropped => simp [stands, Standing.after, Standing.given] at held
  · rw [standing_other seen own] at held
    exact Or.inl held

end Standing

section Overflow

variable {maximum : Option ℕ} {seen rest : List ValidatedDrpRecord}
  {candidate : ValidatedDrpRecord}

def Exceeds (maximum : Option ℕ) (seen : List ValidatedDrpRecord) (candidate : ValidatedDrpRecord) :
    Prop :=
  standing candidate.record.peerId seen = .absent ∧ ∃ cap ∈ maximum, cap ≤ (heldPeers seen).card

def Overflows (maximum : Option ℕ) (seen : List ValidatedDrpRecord) :
    List ValidatedDrpRecord → Prop
  | [] => False
  | candidate :: rest =>
    Exceeds maximum seen candidate ∨ Overflows maximum (seen ++ [candidate]) rest

theorem overflows_append (seen first second : List ValidatedDrpRecord) :
    Overflows maximum seen (first ++ second) ↔
      Overflows maximum seen first ∨ Overflows maximum (seen ++ first) second := by
  induction first generalizing seen with
  | nil => simp [Overflows]
  | cons candidate first ih => simp [Overflows, ih, or_assoc]

theorem Exceeds.card_lt (exceeds : Exceeds maximum seen candidate) {listed : Finset String}
    (subset : heldPeers seen ⊆ listed) (mem : candidate.record.peerId ∈ listed) :
    ∃ cap ∈ maximum, cap < listed.card := by
  rcases exceeds with ⟨absent, cap, capped, full⟩
  refine ⟨cap, capped, Nat.lt_of_le_of_lt full (Finset.card_lt_card ⟨subset, fun all => ?_⟩)⟩
  have held := mem_heldPeers.mp (all mem)
  simp [absent, Standing.given] at held

theorem card_lt_of_overflows (overflows : Overflows maximum seen rest) :
    ∃ cap ∈ maximum, cap < (peers (seen ++ rest)).card := by
  induction rest generalizing seen with
  | nil => exact overflows.elim
  | cons candidate rest ih =>
    rcases overflows with exceeds | overflows
    · apply exceeds.card_lt
      · intro peerId held
        rcases mem_peers.mp (Finset.mem_filter.mp held).1 with ⟨kept, mem, samePeer⟩
        exact mem_peers.mpr ⟨kept, List.mem_append_left _ mem, samePeer⟩
      · exact mem_peers.mpr ⟨candidate, by simp, rfl⟩
    · simpa using ih overflows

theorem card_heldPeers_le (fits : ¬ Overflows maximum seen rest) {cap : ℕ} (capped : cap ∈ maximum)
    (within : (heldPeers seen).card ≤ cap) : (heldPeers (seen ++ rest)).card ≤ cap := by
  induction rest generalizing seen with
  | nil => rwa [List.append_nil]
  | cons candidate rest ih =>
    rw [Overflows, not_or] at fits
    rw [← List.singleton_append, ← List.append_assoc]
    apply ih fits.2
    by_cases absent : standing candidate.record.peerId seen = .absent
    · have room : (heldPeers seen).card < cap :=
        Nat.lt_of_not_le fun full => fits.1 ⟨absent, cap, capped, full⟩
      have more : heldPeers (seen ++ [candidate]) ⊆
          insert candidate.record.peerId (heldPeers seen) := by
        intro peerId held
        exact Finset.mem_insert.mpr ((mem_heldPeers_append held).symm.imp_left And.left)
      exact (Finset.card_le_card more).trans ((Finset.card_insert_le _ _).trans room)
    · refine (Finset.card_le_card fun peerId held => ?_).trans within
      exact (mem_heldPeers_append held).resolve_right fun new => absent new.2

theorem pairs_dropped (room : ∀ cap ∈ maximum, 0 < cap)
    (pairs : List (ValidatedDrpRecord × ValidatedDrpRecord))
    (conflicting : ∀ pair ∈ pairs, ConflictPair pair.1 pair.2) (empty : heldPeers seen = ∅) :
    ¬ Overflows maximum seen (pairs.flatMap fun pair => [pair.1, pair.2]) ∧
      ∀ pair ∈ pairs, standing pair.1.record.peerId
        (seen ++ pairs.flatMap fun pair => [pair.1, pair.2]) = .dropped := by
  induction pairs generalizing seen with
  | nil => simp [Overflows]
  | cons pair rest ih =>
    rw [List.forall_mem_cons] at conflicting
    have notHeld : ∀ peerId, (standing peerId seen).given = none := by
      intro peerId
      rw [← Option.not_isSome_iff_eq_none, ← mem_heldPeers, empty]
      exact Finset.notMem_empty _
    have dropped := conflicting.1.dropped (notHeld _)
    have empty' : heldPeers (seen ++ [pair.1, pair.2]) = ∅ := by
      rw [Finset.eq_empty_iff_forall_notMem]
      intro peerId held
      rw [mem_heldPeers] at held
      by_cases own : pair.1.record.peerId = peerId
      · subst own
        simp [dropped, Standing.given] at held
      · simp [standing_append, conflicting.1.samePeer, own, notHeld] at held
    have one : ¬ Overflows maximum seen [pair.1, pair.2] := by
      rintro (⟨_, cap, capped, full⟩ | ⟨absent, _⟩ | none)
      · rw [empty, Finset.card_empty] at full
        exact absurd (room cap capped) (Nat.not_lt.mpr full)
      · exact absurd conflicting.1.samePeer.symm
          (sound_of_standing absent pair.1 (by simp))
      · exact none
    rcases ih conflicting.2 empty' with ⟨fits, later⟩
    rw [List.flatMap_cons, overflows_append, not_or, ← List.append_assoc, List.forall_mem_cons]
    exact ⟨⟨one, fits⟩, standing_dropped dropped _, later⟩

theorem unconflicted_fit {all : List ValidatedDrpRecord} (subset : seen ++ rest ⊆ all)
    (few : ∀ cap ∈ maximum, (unconflictedPeers all).card ≤ cap)
    (dropped : ∀ peerId, Conflicted all peerId → standing peerId seen = .dropped) :
    ¬ Overflows maximum seen rest := by
  induction rest generalizing seen with
  | nil => exact not_false
  | cons candidate rest ih =>
    have free : ∀ later ∈ seen ++ candidate :: rest,
        standing later.record.peerId seen ≠ .dropped →
          later.record.peerId ∈ unconflictedPeers all := by
      intro later mem notDropped
      exact Finset.mem_filter.mpr ⟨mem_peers.mpr ⟨later, subset mem, rfl⟩,
        fun conflicted => notDropped (dropped _ conflicted)⟩
    rintro (exceeds | overflows)
    · have tooMany := exceeds.card_lt (fun peerId held => ?_)
        (free candidate (by simp) (by simp [exceeds.1]))
      · rcases tooMany with ⟨cap, capped, tooMany⟩
        exact absurd (few cap capped) (Nat.not_le.mpr tooMany)
      · rw [mem_heldPeers] at held
        cases stands : standing peerId seen with
        | held kept =>
          rcases sound_of_standing stands with ⟨rfl, chosen⟩
          exact free kept (List.mem_append_left _ chosen.1) (by simp [stands])
        | _ => simp [stands, Standing.given] at held
    · refine ih ?_ (fun peerId conflicted => standing_dropped (dropped peerId conflicted) _) overflows
      rwa [List.append_assoc]

end Overflow

section Loop

variable {maximum : Option ℕ} {now : JsNumber} {state next : Reconciliation}
  {seen rest order records : List ValidatedDrpRecord} {candidate : ValidatedDrpRecord}

structure Represents (state : Reconciliation) (seen : List ValidatedDrpRecord) : Prop where
  held : ∀ peerId, state.candidates.get peerId = (standing peerId seen).given
  dropped : ∀ peerId, peerId ∈ state.conflictedPeerIds ↔ standing peerId seen = .dropped

theorem represents_start : Represents ⟨.empty, []⟩ [] where
  held := fun _ => rfl
  dropped := fun _ => by simp [standing]

theorem strictEquals_iff_rank {record other : SignedDrpRecordV1}
    (safe : record.sequence.toSafeInteger.isSome) (safe' : other.sequence.toSafeInteger.isSome) :
    record.sequence.strictEquals other.sequence = true ↔ record.rank = other.rank := by
  rcases Option.isSome_iff_exists.mp safe with ⟨sequence, safe⟩
  rcases Option.isSome_iff_exists.mp safe' with ⟨sequence', safe'⟩
  rw [JsNumber.strictEquals_of_toSafeInteger safe safe', SignedDrpRecordV1.rank,
    SignedDrpRecordV1.rank, safe, safe', Option.getD_some, Option.getD_some]

namespace Represents

section

variable (represents : Represents state seen)
include represents

theorem size_eq : state.candidates.size = (heldPeers seen).card :=
  InsertionMap.size_eq_card fun peerId => by rw [mem_heldPeers, represents.held]

theorem mem_values : candidate ∈ state.candidates.values ↔
    standing candidate.record.peerId seen = .held candidate := by
  rw [InsertionMap.mem_values]
  constructor
  · rintro ⟨peerId, found⟩
    rw [represents.held] at found
    cases stands : standing peerId seen with
    | held kept =>
      rw [stands] at found
      cases found
      rw [(sound_of_standing stands).1, stands]
    | _ => simp [stands, Standing.given] at found
  · intro held
    exact ⟨_, by rw [represents.held, held]; rfl⟩

theorem nodup_peers :
    (state.candidates.values.map fun candidate => candidate.record.peerId).Nodup := by
  apply Reconciliation.nodup_peers
  intro peerId kept found
  rw [represents.held] at found
  cases stands : standing peerId seen with
  | held other =>
    rw [stands] at found
    cases found
    exact (sound_of_standing stands).1
  | _ => simp [stands, Standing.given] at found

theorem nodup_records : ((state.candidates.values.map (·.record)).map (·.peerId)).Nodup := by
  rw [List.map_map]
  exact represents.nodup_peers

theorem of_turn
    (own : next.candidates.get candidate.record.peerId =
      ((standing candidate.record.peerId seen).after candidate).given)
    (ownDropped : candidate.record.peerId ∈ next.conflictedPeerIds ↔
      (standing candidate.record.peerId seen).after candidate = .dropped)
    (others : ∀ peerId ≠ candidate.record.peerId,
      next.candidates.get peerId = state.candidates.get peerId ∧
        (peerId ∈ next.conflictedPeerIds ↔ peerId ∈ state.conflictedPeerIds)) :
    Represents next (seen ++ [candidate]) := by
  constructor
  · intro peerId
    by_cases same : peerId = candidate.record.peerId
    · rw [same, standing_own, own]
    · rw [standing_other seen (Ne.symm same), (others peerId same).1, represents.held]
  · intro peerId
    by_cases same : peerId = candidate.record.peerId
    · rw [same, standing_own, ownDropped]
    · rw [standing_other seen (Ne.symm same), (others peerId same).2, represents.dropped]

theorem turn (usable : Usable now (seen ++ [candidate])) :
    (Exceeds maximum seen candidate ∧
      reconcileCandidate maximum now state candidate = .error .exceeded) ∨
    (¬ Exceeds maximum seen candidate ∧ ∃ next,
      reconcileCandidate maximum now state candidate = .ok next ∧
        Represents next (seen ++ [candidate])) := by
  have fresh := usable.fresh candidate (by simp)
  have safe := usable.safe candidate (by simp)
  have found := represents.held candidate.record.peerId
  have conflicted := represents.dropped candidate.record.peerId
  have others : ∀ peerId ≠ candidate.record.peerId,
      (state.candidates.set candidate.record.peerId candidate).get peerId =
          state.candidates.get peerId ∧
        (peerId ∈ state.conflictedPeerIds ↔ peerId ∈ state.conflictedPeerIds) :=
    fun peerId other => ⟨InsertionMap.get_set_of_ne other, .rfl⟩
  have notExceeds : standing candidate.record.peerId seen ≠ .absent →
      ¬ Exceeds maximum seen candidate := fun present exceeds => present exceeds.1
  unfold reconcileCandidate
  dsimp only
  cases stands : standing candidate.record.peerId seen with
  | absent =>
    rw [stands] at found conflicted
    have full : maximum.any (· ≤ state.candidates.size) = true ↔ Exceeds maximum seen candidate := by
      rw [Option.any_eq_true, represents.size_eq, Exceeds]
      simp [stands]
    rw [if_neg (by simp [fresh, conflicted]), found]
    dsimp only [Standing.given]
    by_cases exceeds : Exceeds maximum seen candidate
    · exact Or.inl ⟨exceeds, if_pos (full.mpr exceeds)⟩
    · refine Or.inr ⟨exceeds, _, if_neg (mt full.mp exceeds), represents.of_turn ?_ ?_ others⟩
      · rw [stands]
        exact InsertionMap.get_set_self
      · simp [stands, conflicted, Standing.after]
  | dropped =>
    rw [stands] at found conflicted
    refine Or.inr ⟨notExceeds (by simp [stands]), state, ?_, ?_⟩
    · rw [if_pos (Or.inr (conflicted.mpr rfl))]
    · apply represents.of_turn
      · rw [stands]
        exact found
      · rw [stands]
        exact conflicted
      · exact fun peerId _ => ⟨rfl, .rfl⟩
  | held kept =>
    have safe' := usable.safe kept (List.mem_append_left _ (sound_of_standing stands).2.1)
    refine Or.inr ⟨notExceeds (by simp [stands]), ?_⟩
    rw [stands] at found conflicted
    rw [if_neg (by simp [fresh, conflicted]), found]
    simp only [Standing.given, sequence_lt_iff safe' safe, strictEquals_iff_rank safe safe']
    split
    case isTrue higher =>
      refine ⟨_, rfl, represents.of_turn ?_ ?_ others⟩
      · simp [stands, Standing.after, higher, Standing.given, InsertionMap.get_set_self]
      · simp [stands, Standing.after, higher, conflicted]
    case isFalse notHigher =>
      split
      case isTrue conflict =>
        refine ⟨_, rfl, represents.of_turn ?_ ?_ fun peerId other => ?_⟩
        · simp [stands, Standing.after, conflict, Standing.given, InsertionMap.get_delete_self]
        · simp [stands, Standing.after, conflict]
        · exact ⟨InsertionMap.get_delete_of_ne other, by simp [other]⟩
      case isFalse agree =>
        refine ⟨_, rfl, represents.of_turn ?_ ?_ fun peerId _ => ⟨rfl, .rfl⟩⟩
        · rw [stands, Standing.after, if_neg notHigher, if_neg agree, found]
        · simp [stands, Standing.after, notHigher, agree, conflicted]

end

theorem loop (represents : Represents state seen) (usable : Usable now (seen ++ rest)) :
    (Overflows maximum seen rest ∧
      rest.foldlM (reconcileCandidate maximum now) state = .error .exceeded) ∨
    (¬ Overflows maximum seen rest ∧ ∃ final,
      rest.foldlM (reconcileCandidate maximum now) state = .ok final ∧
        Represents final (seen ++ rest)) := by
  induction rest generalizing state seen with
  | nil => exact Or.inr ⟨not_false, state, rfl, by rwa [List.append_nil]⟩
  | cons candidate rest ih =>
    have whole : seen ++ [candidate] ++ rest = seen ++ candidate :: rest := by simp
    rw [← whole] at usable ⊢
    rw [List.foldlM_cons, Overflows, not_or]
    rcases @turn maximum now state seen candidate represents
      (usable.of_subset (List.subset_append_left _ _)) with
      ⟨exceeds, thrown⟩ | ⟨fits, next, taken, represents⟩
    · rw [thrown]
      exact Or.inl ⟨Or.inl exceeds, rfl⟩
    · rw [taken, ok_bind]
      rcases ih represents usable with ⟨overflows, thrown⟩ | ⟨fits', final⟩
      · exact Or.inl ⟨Or.inr overflows, thrown⟩
      · exact Or.inr ⟨⟨fits, fits'⟩, final⟩

end Represents

def reconcileAll (maximum : Option ℕ) (now : JsNumber) (order : List ValidatedDrpRecord) :
    Except ReconciliationCapacityError Reconciliation :=
  order.foldlM (reconcileCandidate maximum now) ⟨.empty, []⟩

theorem reconcileAll_of_overflows (usable : Usable now order)
    (overflows : Overflows maximum [] order) :
    reconcileAll maximum now order = .error .exceeded := by
  rcases represents_start.loop usable with ⟨_, thrown⟩ | ⟨fits, _⟩
  · exact thrown
  · exact absurd overflows fits

theorem exists_reconcileAll (usable : Usable now order) (fits : ¬ Overflows maximum [] order) :
    ∃ final, reconcileAll maximum now order = .ok final ∧ Represents final order := by
  rcases represents_start.loop usable with ⟨overflows, _⟩ | ⟨_, ended⟩
  · exact absurd overflows fits
  · exact ended

theorem foldlM_freshRecords (maximum : Option ℕ) (now : JsNumber)
    (records : List ValidatedDrpRecord) (state : Reconciliation) :
    records.foldlM (reconcileCandidate maximum now) state =
      (freshRecords now records).foldlM (reconcileCandidate maximum now) state := by
  induction records generalizing state with
  | nil => rfl
  | cons candidate rest ih =>
    cases expired : candidate.record.expiresAtMs.le now with
    | true =>
      have passedOver : reconcileCandidate maximum now state candidate = .ok state := by
        unfold reconcileCandidate
        exact if_pos (Or.inl expired)
      have same : freshRecords now (candidate :: rest) = freshRecords now rest :=
        List.filter_cons_of_neg (by simp [expired])
      rw [List.foldlM_cons, passedOver, ok_bind, ih, same]
    | false =>
      rw [freshRecords, List.filter_cons_of_pos (by simp [expired]), List.foldlM_cons,
        List.foldlM_cons]
      cases reconcileCandidate maximum now state candidate with
      | error error => rfl
      | ok next =>
        rw [ok_bind, ok_bind]
        exact ih next

end Loop

section Orders

variable {records order : List ValidatedDrpRecord}

theorem exists_perm_append {front : List ValidatedDrpRecord} (nodup : front.Nodup)
    (subset : front ⊆ order) : ∃ rest, (front ++ rest).Perm order := by
  rcases List.subperm_of_subset nodup subset with ⟨listed, perm, sublist⟩
  rcases sublist.exists_perm_append with ⟨rest, whole⟩
  exact ⟨rest, (perm.symm.append_right rest).trans whole.symm⟩

section SameRecords

variable {others : List ValidatedDrpRecord} (perm : order.Perm others)
include perm

theorem chosen_congr (candidate : ValidatedDrpRecord) :
    Chosen order candidate ↔ Chosen others candidate := by
  simp only [Chosen, perm.mem_iff]

theorem conflicted_congr (peerId : String) : Conflicted order peerId ↔ Conflicted others peerId := by
  simp only [Conflicted, perm.mem_iff]

theorem oneChoice_congr : OneChoice order ↔ OneChoice others := by
  simp only [OneChoice, chosen_congr perm, conflicted_congr perm, perm.mem_iff]

theorem peers_congr : peers order = peers others := by
  ext peerId
  simp only [mem_peers, perm.mem_iff]

theorem unconflictedPeers_congr : unconflictedPeers order = unconflictedPeers others := by
  ext peerId
  simp only [unconflictedPeers, Finset.mem_filter, peers_congr perm, conflicted_congr perm]

end SameRecords

/-- How `localeCompare` orders the peers of some records: different peers never tie. -/
structure OrdersPeers (localeLe : String → String → Bool) (records : List ValidatedDrpRecord) :
    Prop where
  total : ∀ left right, localeLe left right = true ∨ localeLe right left = true
  trans : ∀ left middle right, localeLe left middle = true → localeLe middle right = true →
    localeLe left right = true
  apart : ∀ left ∈ records, ∀ right ∈ records,
    localeLe left.record.peerId right.record.peerId = true →
    localeLe right.record.peerId left.record.peerId = true →
    left.record.peerId = right.record.peerId

theorem OrdersPeers.insertionSort_eq {localeLe : String → String → Bool}
    (ordersPeers : OrdersPeers localeLe records) {left right : List SignedDrpRecordV1}
    (listed : left ⊆ records.map (·.record)) (nodup : (left.map (·.peerId)).Nodup)
    (nodup' : (right.map (·.peerId)).Nodup) (same : ∀ record, record ∈ left ↔ record ∈ right) :
    (left.insertionSort fun first second => localeLe first.peerId second.peerId = true) =
      right.insertionSort fun first second => localeLe first.peerId second.peerId = true := by
  let relation : SignedDrpRecordV1 → SignedDrpRecordV1 → Prop := fun first second =>
    localeLe first.peerId second.peerId = true
  have : Std.Total relation := ⟨fun first second => ordersPeers.total _ _⟩
  have : IsTrans SignedDrpRecordV1 relation :=
    ⟨fun first second third => ordersPeers.trans _ _ _⟩
  have perm : left.Perm right := (List.perm_ext_iff_of_nodup nodup.of_map nodup'.of_map).mpr same
  have sortedPerm : (left.insertionSort relation).Perm (right.insertionSort relation) :=
    (List.perm_insertionSort relation left).trans
      (perm.trans (List.perm_insertionSort relation right).symm)
  apply List.Perm.eq_of_pairwise _ (List.pairwise_insertionSort relation left)
    (List.pairwise_insertionSort relation right) sortedPerm
  intro first second isFirst isSecond le le'
  have firstListed := (List.mem_insertionSort relation).mp isFirst
  have secondListed := (same second).mpr ((List.mem_insertionSort relation).mp isSecond)
  rcases List.mem_map.mp (listed firstListed) with ⟨candidate, mem, rfl⟩
  rcases List.mem_map.mp (listed secondListed) with ⟨other, otherMem, rfl⟩
  exact List.inj_on_of_nodup_map nodup firstListed secondListed
    (ordersPeers.apart candidate mem other otherMem le le')

end Orders

/--
The result does not depend on the order of the records or on their grouping, and is as
described.  From which source a record was taken does not count.
-/
def IndependentOfOrder (localeLe : String → String → Bool) (maximum : Option ℕ) (now : JsNumber)
    (records : List ValidatedDrpRecord) : Prop :=
  ∃ result, (∀ recordSets : List (List ValidatedDrpRecord), recordSets.flatten.Perm records →
      (reconcileValidatedRecords localeLe maximum now recordSets).map (·.map (·.record)) = result) ∧
    ∀ kept, result = .ok kept → (kept.map (·.peerId)).Nodup ∧
      ∀ record, record ∈ kept ↔
        ∃ candidate, Chosen (freshRecords now records) candidate ∧ candidate.record = record

/--
All peers fit under the cap and each has at most one record to give, or too many peers
are without a conflict, or nothing fits at all.
-/
def OrderIsIrrelevant (maximum : Option ℕ) (fresh : List ValidatedDrpRecord) : Prop :=
  ((∀ cap ∈ maximum, (peers fresh).card ≤ cap) ∧ OneChoice fresh) ∨
    (∃ cap ∈ maximum, cap < (unconflictedPeers fresh).card) ∨ (0 ∈ maximum ∧ fresh ≠ [])

section Independence

variable {localeLe : String → String → Bool} {maximum : Option ℕ} {now : JsNumber}
  {records fresh order : List ValidatedDrpRecord}

/-- The maps at the end of the loop, as a sorted list. -/
def giveCandidates (localeLe : String → String → Bool) (state : Reconciliation) :
    List ValidatedDrpRecord :=
  state.candidates.values.insertionSort fun left right =>
    localeLe left.record.peerId right.record.peerId = true

theorem mem_giveCandidates {state : Reconciliation} {candidate : ValidatedDrpRecord} :
    candidate ∈ giveCandidates localeLe state ↔ candidate ∈ state.candidates.values :=
  List.mem_insertionSort _

def giveRecords (localeLe : String → String → Bool) (state : Reconciliation) :
    List SignedDrpRecordV1 :=
  (giveCandidates localeLe state).map (·.record)

theorem giveRecords_eq (localeLe : String → String → Bool) (state : Reconciliation) :
    giveRecords localeLe state = (state.candidates.values.map (·.record)).insertionSort
      fun left right => localeLe left.peerId right.peerId = true :=
  List.map_insertionSort _ _ _ _ fun _ _ _ _ => Iff.rfl

theorem mem_giveRecords {state : Reconciliation} {seen : List ValidatedDrpRecord}
    (represents : Represents state seen) {record : SignedDrpRecordV1} :
    record ∈ giveRecords localeLe state ↔
      ∃ kept, standing record.peerId seen = .held kept ∧ kept.record = record := by
  simp only [giveRecords, List.mem_map, mem_giveCandidates, represents.mem_values]
  constructor
  · rintro ⟨kept, held, rfl⟩
    exact ⟨kept, held, rfl⟩
  · rintro ⟨kept, held, rfl⟩
    exact ⟨kept, held, rfl⟩

theorem reconcileValidatedRecords_eq (recordSets : List (List ValidatedDrpRecord)) :
    reconcileValidatedRecords localeLe maximum now recordSets =
      (reconcileAll maximum now (freshRecords now recordSets.flatten)).map
        (giveCandidates localeLe) := by
  rw [reconcileAll, ← foldlM_freshRecords]
  rfl

theorem unconflictedPeers_subset : unconflictedPeers order ⊆ heldPeers order := by
  intro peerId mem
  rcases Finset.mem_filter.mp mem with ⟨listed, unconflicted⟩
  rcases mem_peers.mp listed with ⟨candidate, mem, samePeer⟩
  rw [mem_heldPeers]
  cases stands : standing peerId order with
  | absent => exact absurd samePeer (sound_of_standing stands candidate mem)
  | held kept => rfl
  | dropped => exact absurd (sound_of_standing stands) unconflicted

section

variable (usable : Usable now fresh) (perm : order.Perm fresh)
include usable perm

theorem order_exceeds
    (tooMany : (∃ cap ∈ maximum, cap < (unconflictedPeers fresh).card) ∨
      (0 ∈ maximum ∧ fresh ≠ [])) : reconcileAll maximum now order = .error .exceeded := by
  apply reconcileAll_of_overflows (usable.of_subset perm.subset)
  by_contra fits
  rcases tooMany with ⟨cap, capped, tooMany⟩ | ⟨noRoom, nonempty⟩
  · have within := card_heldPeers_le fits capped (Nat.zero_le cap)
    have held := Finset.card_le_card (@unconflictedPeers_subset order)
    rw [unconflictedPeers_congr perm] at held
    rw [List.nil_append] at within
    omega
  · cases order with
    | nil => exact nonempty (List.nil_perm.mp perm)
    | cons candidate rest => exact fits (Or.inl ⟨rfl, 0, noRoom, Nat.zero_le _⟩)

theorem order_fits (fits : ∀ cap ∈ maximum, (peers fresh).card ≤ cap) :
    ∃ final, reconcileAll maximum now order = .ok final ∧ Represents final order := by
  apply exists_reconcileAll (usable.of_subset perm.subset)
  intro overflows
  rcases card_lt_of_overflows overflows with ⟨cap, capped, tooMany⟩
  rw [List.nil_append, peers_congr perm] at tooMany
  exact absurd (fits cap capped) (Nat.not_le.mpr tooMany)

end

theorem independentOfOrder (ordersPeers : OrdersPeers localeLe records)
    (usable : Usable now (freshRecords now records))
    (irrelevant : OrderIsIrrelevant maximum (freshRecords now records)) :
    IndependentOfOrder localeLe maximum now records := by
  have freshPerm : ∀ {recordSets : List (List ValidatedDrpRecord)}, recordSets.flatten.Perm records →
      (freshRecords now recordSets.flatten).Perm (freshRecords now records) :=
    fun perm => perm.filter _
  rcases irrelevant with ⟨fits, oneChoice⟩ | tooMany
  · rcases order_fits usable (.refl _) fits with ⟨final, ended, represents⟩
    have values : ∀ record, record ∈ giveRecords localeLe final ↔
        ∃ candidate, Chosen (freshRecords now records) candidate ∧ candidate.record = record :=
      fun _ => (mem_giveRecords represents).trans oneChoice.exists_held_iff
    refine ⟨.ok (giveRecords localeLe final), fun recordSets perm => ?_, fun kept same => ?_⟩
    · rcases order_fits usable (freshPerm perm) fits with ⟨final', ended', represents'⟩
      have values' : ∀ record, record ∈ giveRecords localeLe final' ↔
          ∃ candidate, Chosen (freshRecords now records) candidate ∧ candidate.record = record := by
        intro record
        have oneChoice' := (oneChoice_congr (freshPerm perm)).mpr oneChoice
        rw [mem_giveRecords represents', oneChoice'.exists_held_iff]
        simp only [chosen_congr (freshPerm perm)]
      have sameRecords : ∀ record, record ∈ giveRecords localeLe final' ↔
          record ∈ giveRecords localeLe final := fun record => (values' record).trans (values record).symm
      rw [reconcileValidatedRecords_eq, ended', map_ok, map_ok]
      change Except.ok (giveRecords localeLe final') = _
      simp only [giveRecords_eq, List.mem_insertionSort] at sameRecords values' ⊢
      congr 1
      apply ordersPeers.insertionSort_eq _ represents'.nodup_records represents.nodup_records sameRecords
      intro record mem
      rcases (values' record).mp mem with ⟨candidate, chosen, rfl⟩
      exact List.mem_map_of_mem (List.mem_of_mem_filter chosen.1)
    · cases same
      refine ⟨?_, values⟩
      rw [giveRecords_eq]
      exact ((List.perm_insertionSort _ _).map _).nodup_iff.mpr represents.nodup_records
  · refine ⟨.error .exceeded, fun recordSets perm => ?_, fun kept same => nomatch same⟩
    rw [reconcileValidatedRecords_eq, order_exceeds usable (freshPerm perm) tooMany,
      map_error, map_error]

section Necessity

theorem result_of_order {result : Except ReconciliationCapacityError (List SignedDrpRecordV1)}
    (same : ∀ recordSets : List (List ValidatedDrpRecord), recordSets.flatten.Perm records →
      (reconcileValidatedRecords localeLe maximum now recordSets).map (·.map (·.record)) = result)
    (perm : order.Perm (freshRecords now records)) :
    (reconcileAll maximum now order).map (giveRecords localeLe) = result := by
  let expired := records.filter fun candidate => candidate.record.expiresAtMs.le now
  have whole : [order ++ expired].flatten.Perm records := by
    rw [List.flatten_singleton]
    have parts := List.filter_append_perm (fun candidate : ValidatedDrpRecord =>
      !candidate.record.expiresAtMs.le now) records
    simp only [Bool.not_not] at parts
    exact (perm.append_right _).trans parts
  have fresh : freshRecords now [order ++ expired].flatten = order := by
    rw [List.flatten_singleton, freshRecords, List.filter_append]
    have all : order.filter (fun candidate => !candidate.record.expiresAtMs.le now) = order :=
      List.filter_eq_self.mpr fun candidate mem => (List.mem_filter.mp (perm.subset mem)).2
    have none : expired.filter (fun candidate => !candidate.record.expiresAtMs.le now) = [] := by
      apply List.filter_eq_nil_iff.mpr
      intro candidate mem
      simp [(List.mem_filter.mp mem).2]
    rw [all, none, List.append_nil]
  rw [← same _ whole, reconcileValidatedRecords_eq, fresh]
  cases reconcileAll maximum now order <;> rfl

theorem exists_order_overflows {cap : ℕ} (capped : cap ∈ maximum)
    (tooMany : cap < (peers fresh).card) :
    ∃ order : List ValidatedDrpRecord, order.Perm fresh ∧ Overflows maximum [] order := by
  let different : ValidatedDrpRecord → ValidatedDrpRecord → Prop := fun left right =>
    left.record.peerId ≠ right.record.peerId
  -- One record of every peer comes first.
  let front := fresh.pwFilter different
  have sublist : front.Sublist fresh := List.pwFilter_sublist fresh
  have nodup : (front.map fun candidate => candidate.record.peerId).Nodup :=
    List.pairwise_map.mpr (List.pairwise_pwFilter fresh)
  rcases sublist.exists_perm_append with ⟨rest, perm⟩
  refine ⟨front ++ rest, perm.symm, (overflows_append [] front rest).mpr (Or.inl ?_)⟩
  by_contra fits
  have within := card_heldPeers_le fits capped (Nat.zero_le cap)
  have all : peers fresh ⊆ heldPeers front := by
    intro peerId mem
    rcases mem_peers.mp mem with ⟨candidate, mem, samePeer⟩
    rw [mem_heldPeers]
    cases stands : standing peerId front with
    | absent =>
      have none : ∀ other ∈ fresh, different candidate other := by
        refine (@List.forall_mem_pwFilter _ different _ ?_ candidate fresh).mp ?_
        · intro left middle right apart
          by_cases same : left.record.peerId = middle.record.peerId
          · exact Or.inr fun same' => apart (same.trans same')
          · exact Or.inl same
        · intro other isFront same
          exact sound_of_standing stands other isFront (same.symm.trans samePeer)
      exact absurd rfl (none candidate mem)
    | held kept => rfl
    | dropped =>
      rcases sound_of_standing stands with ⟨first, isFirst, second, isSecond, same, same', _, differ⟩
      have equal := List.inj_on_of_nodup_map nodup isFirst isSecond (same.trans same'.symm)
      exact absurd (by rw [equal]) differ
  have more := Finset.card_le_card all
  rw [List.nil_append] at within
  omega

/-- The conflicts can all come first, and leave room for the peers without one. -/
theorem exists_order_fits (room : ∀ cap ∈ maximum, 0 < cap)
    (few : ∀ cap ∈ maximum, (unconflictedPeers fresh).card ≤ cap) :
    ∃ order : List ValidatedDrpRecord, order.Perm fresh ∧ ¬ Overflows maximum [] order := by
  let conflicts := (peers fresh).filter (Conflicted fresh)
  have each : ∀ peerId : conflicts, ∃ pair : ValidatedDrpRecord × ValidatedDrpRecord,
      (∀ candidate ∈ [pair.1, pair.2], candidate ∈ fresh ∧ candidate.record.peerId = peerId) ∧
        ConflictPair pair.1 pair.2 := by
    intro peerId
    rcases (Finset.mem_filter.mp peerId.2).2 with
      ⟨first, isFirst, second, isSecond, same, same', sameRank, differ⟩
    exact ⟨(first, second), by simp [isFirst, isSecond, same, same'],
      same'.trans same.symm, sameRank, differ⟩
  choose pair ofPeer inConflict using each
  let pairs := conflicts.attach.toList.map pair
  let front := pairs.flatMap fun pair => [pair.1, pair.2]
  have nodup : front.Nodup := by
    apply List.nodup_flatMap.mpr
    refine ⟨fun both mem => ?_, List.pairwise_map.mpr ((Finset.nodup_toList _).imp ?_)⟩
    · rcases List.mem_map.mp mem with ⟨peerId, _, rfl⟩
      rw [List.nodup_cons, List.mem_singleton]
      refine ⟨fun same => ?_, List.nodup_singleton _⟩
      exact (inConflict peerId).differ (congrArg (fun entry => entry.record.signature) same)
    · intro left right different candidate isLeft isRight
      apply different
      apply Subtype.ext
      rw [← (ofPeer left candidate isLeft).2, ← (ofPeer right candidate isRight).2]
  have subset : front ⊆ fresh := by
    intro candidate mem
    rcases List.mem_flatMap.mp mem with ⟨both, isPair, mem⟩
    rcases List.mem_map.mp isPair with ⟨peerId, _, rfl⟩
    exact (ofPeer peerId candidate mem).1
  have conflicting : ∀ both ∈ pairs, ConflictPair both.1 both.2 := by
    intro both mem
    rcases List.mem_map.mp mem with ⟨peerId, _, rfl⟩
    exact inConflict peerId
  rcases exists_perm_append nodup subset with ⟨rest, perm⟩
  rcases @pairs_dropped maximum [] room pairs conflicting rfl with ⟨fits, dropped⟩
  refine ⟨front ++ rest, perm, fun overflows => ?_⟩
  rcases (overflows_append [] front rest).mp overflows with early | late
  · exact fits early
  · refine unconflicted_fit perm.subset few (fun peerId conflicted => ?_) late
    have listed : peerId ∈ conflicts := by
      refine Finset.mem_filter.mpr ⟨?_, conflicted⟩
      rcases conflicted with ⟨first, isFirst, _, _, same, _⟩
      exact mem_peers.mpr ⟨first, isFirst, same⟩
    have isDropped := dropped (pair ⟨peerId, listed⟩)
      (List.mem_map_of_mem (Finset.mem_toList.mpr (Finset.mem_attach _ _)))
    rwa [(ofPeer ⟨peerId, listed⟩ _ List.mem_cons_self).2] at isDropped

variable {result : Except ReconciliationCapacityError (List SignedDrpRecordV1)}
  (usable : Usable now fresh)
  (same : ∀ order : List ValidatedDrpRecord, order.Perm fresh →
    (reconcileAll maximum now order).map (giveRecords localeLe) = result)
include usable same

theorem held_of_orders (fits : ∀ cap ∈ maximum, (peers fresh).card ≤ cap)
    {order' : List ValidatedDrpRecord} (perm : order.Perm fresh) (perm' : order'.Perm fresh)
    {candidate : ValidatedDrpRecord}
    (held : standing candidate.record.peerId order = .held candidate) :
    ∃ kept, standing candidate.record.peerId order' = .held kept ∧
      kept.record = candidate.record := by
  rcases order_fits usable perm fits with ⟨final, ended, represents⟩
  rcases order_fits usable perm' fits with ⟨final', ended', represents'⟩
  have first := same order perm
  have second := same order' perm'
  rw [ended, map_ok] at first
  rw [ended', map_ok] at second
  have lists : giveRecords localeLe final = giveRecords localeLe final' :=
    Except.ok.inj (first.trans second.symm)
  rw [← mem_giveRecords represents', ← lists, mem_giveRecords represents]
  exact ⟨candidate, held, rfl⟩

theorem oneChoice_of_same (fits : ∀ cap ∈ maximum, (peers fresh).card ≤ cap) : OneChoice fresh := by
  have first : ∀ {candidate}, Chosen fresh candidate →
      standing candidate.record.peerId (candidate :: fresh.erase candidate) = .held candidate := by
    intro candidate chosen
    exact standing_first ((chosen_congr (List.perm_cons_erase chosen.1).symm candidate).mpr chosen)
  intro candidate _ chosen
  have always : ∀ {order : List ValidatedDrpRecord}, order.Perm fresh →
      ∃ kept, standing candidate.record.peerId order = .held kept ∧ kept.record = candidate.record :=
    fun perm => held_of_orders usable same fits (List.perm_cons_erase chosen.1).symm perm
      (first chosen)
  refine ⟨?_, fun other _ chosen' samePeer => ?_⟩
  · rintro ⟨left, isLeft, right, isRight, ofLeft, ofRight, sameRank, differ⟩
    have pair : ConflictPair left right := ⟨ofRight.trans ofLeft.symm, sameRank, differ⟩
    have nodup : [left, right].Nodup := by
      rw [List.nodup_cons, List.mem_singleton]
      refine ⟨fun equal => differ (by rw [equal]), List.nodup_singleton right⟩
    have subset : [left, right] ⊆ fresh := by simp [isLeft, isRight]
    rcases exists_perm_append nodup subset with ⟨rest, perm⟩
    have dropped := standing_dropped (@ConflictPair.dropped [] left right pair rfl) rest
    rw [ofLeft] at dropped
    rcases always perm with ⟨_, held, _⟩
    cases dropped.symm.trans held
  · have held := first chosen'
    rw [samePeer] at held
    rcases always (List.perm_cons_erase chosen'.1).symm with ⟨kept, held', isRecord⟩
    rw [Standing.held.inj (held.symm.trans held'), isRecord]

theorem orderIsIrrelevant : OrderIsIrrelevant maximum fresh := by
  by_cases fits : ∀ cap ∈ maximum, (peers fresh).card ≤ cap
  · exact Or.inl ⟨fits, oneChoice_of_same usable same fits⟩
  · right
    simp only [not_forall, not_le] at fits
    rcases fits with ⟨cap, capped, tooMany⟩
    by_cases few : (unconflictedPeers fresh).card ≤ cap
    · right
      by_cases noRoom : cap = 0
      · subst noRoom
        refine ⟨capped, fun empty => ?_⟩
        rw [empty] at tooMany
        exact absurd tooMany (Nat.not_lt_zero _)
      · have onlyCap : ∀ other ∈ maximum, other = cap := fun other mem => Option.mem_unique mem capped
        rcases exists_order_overflows capped tooMany with ⟨order, perm, overflows⟩
        rcases exists_order_fits (fun other mem => by rw [onlyCap other mem]; omega)
          (fun other mem => by rw [onlyCap other mem]; exact few) with ⟨order', perm', fits⟩
        rcases exists_reconcileAll (usable.of_subset perm'.subset) fits with ⟨final, ended, _⟩
        have thrown := reconcileAll_of_overflows (usable.of_subset perm.subset) overflows
        have first := same order perm
        have second := same order' perm'
        rw [thrown, map_error] at first
        rw [ended, map_ok] at second
        cases first.trans second.symm
    · exact Or.inl ⟨cap, capped, Nat.lt_of_not_le few⟩

end Necessity

/--
The records of a reconciliation are the same for every order and grouping if and only if
order is irrelevant to the loop.
-/
theorem reconciliation_independent_iff (localeLe : String → String → Bool) (maximum : Option ℕ)
    (now : JsNumber) (records : List ValidatedDrpRecord)
    (ordersPeers : OrdersPeers localeLe records)
    (safe : ∀ candidate ∈ records, candidate.record.sequence.toSafeInteger.isSome) :
    IndependentOfOrder localeLe maximum now records ↔
      OrderIsIrrelevant maximum (freshRecords now records) := by
  have usable : Usable now (freshRecords now records) := by
    refine ⟨fun candidate mem => ?_, fun candidate mem => ?_⟩
    · simpa using (List.mem_filter.mp mem).2
    · exact safe candidate (List.mem_of_mem_filter mem)
  constructor
  · rintro ⟨result, same, _⟩
    exact orderIsIrrelevant usable fun order perm => result_of_order same perm
  · exact independentOfOrder ordersPeers usable

end Independence

/--
Whatever the order and the grouping of the records: what a reconciliation returns are
fresh records, each with the highest fresh sequence of its peer, one for a peer and no
more than the cap allows, and no peer is missing that has not signed twice for a sequence.
-/
theorem reconciliation_gives_chosen_records (localeLe : String → String → Bool)
    (maximum : Option ℕ) (now : JsNumber) (recordSets : List (List ValidatedDrpRecord))
    (safe : ∀ candidate ∈ recordSets.flatten, candidate.record.sequence.toSafeInteger.isSome)
    {given : List ValidatedDrpRecord}
    (returned : reconcileValidatedRecords localeLe maximum now recordSets = .ok given) :
    let fresh := freshRecords now recordSets.flatten
    (∀ candidate ∈ given, Chosen fresh candidate) ∧
      (given.map fun candidate => candidate.record.peerId).Nodup ∧
      (∀ cap ∈ maximum, given.length ≤ cap) ∧
      ∀ peerId ∈ peers fresh, Conflicted fresh peerId ∨
        ∃ candidate ∈ given, candidate.record.peerId = peerId := by
  intro fresh
  have usable : Usable now fresh := by
    refine ⟨fun candidate mem => ?_, fun candidate mem => ?_⟩
    · simpa using (List.mem_filter.mp mem).2
    · exact safe candidate (List.mem_of_mem_filter mem)
  rw [reconcileValidatedRecords_eq] at returned
  by_cases overflows : Overflows maximum [] fresh
  · rw [reconcileAll_of_overflows usable overflows] at returned
    cases returned
  · rcases exists_reconcileAll usable overflows with ⟨final, looped, represents⟩
    rw [looped] at returned
    cases returned
    have perm : (giveCandidates localeLe final).Perm final.candidates.values :=
      List.perm_insertionSort _ _
    refine ⟨fun candidate mem => ?_, ?_, fun cap capped => ?_, fun peerId mem => ?_⟩
    · exact (sound_of_standing (represents.mem_values.mp (mem_giveCandidates.mp mem))).2
    · exact (perm.map _).nodup_iff.mpr represents.nodup_peers
    · have fits := card_heldPeers_le overflows capped (Nat.zero_le _)
      rw [List.nil_append, ← represents.size_eq] at fits
      simpa [perm.length_eq, InsertionMap.values, InsertionMap.size] using fits
    · rcases mem_peers.mp mem with ⟨candidate, seen, samePeer⟩
      cases stands : standing peerId fresh with
      | absent => exact absurd samePeer (sound_of_standing stands candidate seen)
      | dropped => exact Or.inl (sound_of_standing stands)
      | held kept =>
        have isPeer := (sound_of_standing stands).1
        have held := represents.mem_values.mpr (isPeer ▸ stands)
        exact Or.inr ⟨kept, mem_giveCandidates.mpr held, isPeer⟩

namespace ReconciliationExample

def number (value : Fin 4096) : JsNumber := .finite (.ofInt value (by grind))

def validated (peerId : String) (sequence : JsNumber) (signature : String) : ValidatedDrpRecord where
  admissionMode := "open"
  sourceEndpointId := "endpoint"
  record :=
    { kind := recordKind
      version := number 1
      namespaceName := "drp-room:v1:AAAAAAAAAAAAAAAAAAAAAA"
      peerId
      publicKey := peerId
      addresses := []
      capabilities := []
      sequence
      issuedAtMs := number 1000
      expiresAtMs := number 2000
      signature }

def first : ValidatedDrpRecord := validated "alice" (number 1) "first"

def other : ValidatedDrpRecord := validated "alice" (number 1) "other"

def latest : ValidatedDrpRecord := validated "alice" (number 2) "latest"

def relayed : ValidatedDrpRecord := { latest with sourceEndpointId := "another" }

def ofBob : ValidatedDrpRecord := validated "bob" (number 1) "bob"

def localeLe (left right : String) : Bool := left ≤ right

theorem ordersPeers (records : List ValidatedDrpRecord) : OrdersPeers localeLe records where
  total := by
    intro left right
    simpa [localeLe] using String.le_total left right
  trans := by
    intro left middle right first second
    simp only [localeLe, decide_eq_true_eq] at first second ⊢
    exact String.le_trans first second
  apart := by
    intro left _ right _ first second
    simp only [localeLe, decide_eq_true_eq] at first second
    exact String.le_antisymm first second

end ReconciliationExample

open ReconciliationExample in
theorem reconciliation_independent_iff_sources :
    (∀ candidate ∈ [first, latest, ofBob, relayed], candidate.record.sequence.toSafeInteger.isSome) ∧
      IndependentOfOrder localeLe none (number 1500) [first, latest, ofBob, relayed] := by
  have safe : ∀ candidate ∈ [first, latest, ofBob, relayed],
      candidate.record.sequence.toSafeInteger.isSome := by decide +kernel
  exact ⟨safe, (reconciliation_independent_iff localeLe none (number 1500) _ (ordersPeers _)
    safe).mpr (Or.inl ⟨by simp, by decide +kernel⟩)⟩

open ReconciliationExample in
/--
Two signatures of `alice` for an outdated sequence cost `alice` the latest record if
they come before it and nothing if they come after it; and with a cap of one they make
room for `bob` if they come before `bob`, and end in an error otherwise.
-/
theorem reconciliation_depends_on_order :
    reconcileValidatedRecords localeLe none (number 1500) [[first, other], [latest]] = .ok [] ∧
    reconcileValidatedRecords localeLe none (number 1500) [[latest], [first, other]] =
      .ok [latest] ∧
    reconcileValidatedRecords localeLe (some 1) (number 1500) [[first, other, ofBob]] =
      .ok [ofBob] ∧
    reconcileValidatedRecords localeLe (some 1) (number 1500) [[first, ofBob, other]] =
      .error .exceeded ∧
    ¬ IndependentOfOrder localeLe none (number 1500) [first, other, latest] := by
  have before : reconcileValidatedRecords localeLe none (number 1500) [[first, other], [latest]] =
      .ok [] := by decide +kernel
  have after : reconcileValidatedRecords localeLe none (number 1500) [[latest], [first, other]] =
      .ok [latest] := by decide +kernel
  refine ⟨before, after, by decide +kernel, by decide +kernel, ?_⟩
  rintro ⟨result, same, _⟩
  have one := same [[first, other], [latest]] (.refl _)
  have two := same [[latest], [first, other]] (by decide +kernel)
  rw [before] at one
  rw [after] at two
  cases one.trans two.symm

open ReconciliationExample in
theorem reconciliation_gives_chosen_records_other :
    reconcileValidatedRecords localeLe (some 1) (number 1500) [[first, other], [ofBob]] =
        .ok [ofBob] ∧ [ofBob].length ≤ 1 := by
  have returned : reconcileValidatedRecords localeLe (some 1) (number 1500)
      [[first, other], [ofBob]] = .ok [ofBob] := by decide +kernel
  exact ⟨returned, (reconciliation_gives_chosen_records localeLe (some 1) (number 1500) _
    (by decide +kernel) returned).2.2.1 1 rfl⟩

end Rendezvous

end TsDrp
