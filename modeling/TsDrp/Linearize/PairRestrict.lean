import TsDrp.Linearize.PairSwapless

/-!
# Vertices the scan of others does not touch

Some entries of the order are spared by all the others: no answer about a pair
of one of them and another entry drops or moves it.  What the pair scan keeps of
the spared entries is then what it keeps when it is run on them alone.  If among
themselves the entries that lose never win, a spared entry is kept exactly if it
loses against no concurrent one.
-/

namespace TsDrp

open Outcome LegacyCausalityMatrix

namespace PairScan

variable {action : Hash → Hash → Except JsError ActionType}
  {causality causality' : LegacyCausalityMatrix} {spared : Hash → Bool} {members : List Hash}

structure Spares (action : Hash → Hash → Except JsError ActionType) (spared : Hash → Bool)
    (members : List Hash) : Prop where
  left : ∀ hash ∈ members, ∀ other ∈ members, spared hash = true → spared other = false →
    action hash other ≠ .ok .dropLeft
  right : ∀ hash ∈ members, ∀ other ∈ members, spared hash = true → spared other = false →
    action other hash ≠ .ok .dropRight
  swapless : ∀ hash ∈ members, ∀ other ∈ members, spared hash = true →
    action hash other ≠ .ok .swap ∧ action other hash ≠ .ok .swap

def restrict (spared : Hash → Bool) (slots : List Slot) : List Slot :=
  slots.filter fun slot => spared slot.hash

theorem restrict_cons_spared {slot : Slot} (isSpared : spared slot.hash = true) (rest : List Slot) :
    restrict spared (slot :: rest) = slot :: restrict spared rest := by
  simp [restrict, isSpared]

theorem restrict_cons_other {slot : Slot} (notSpared : spared slot.hash = false)
    (rest : List Slot) : restrict spared (slot :: rest) = restrict spared rest := by
  simp [restrict, notSpared]

theorem restrict_append (first second : List Slot) :
    restrict spared (first ++ second) = restrict spared first ++ restrict spared second :=
  List.filter_append ..

def SameRelations (spared : Hash → Bool) (members : List Hash)
    (causality causality' : LegacyCausalityMatrix) : Prop :=
  ∀ hash ∈ members, ∀ other ∈ members, spared hash = true → spared other = true → hash ≠ other →
    causality.areRelated hash other = causality'.areRelated hash other

theorem sweep_spared {anchor : Hash} (spares : Spares action spared members)
    (same : SameRelations spared members causality causality') (anchorMem : anchor ∈ members)
    (anchorSpared : spared anchor = true) {later : List Slot}
    (laterMem : ∀ slot ∈ later, slot.hash ∈ members) (different : anchor ∉ later.map (·.hash))
    {outcome : Sweep} (swept : sweep action causality anchor later = .ok outcome) :
    ∃ dropped later', outcome = .finished dropped later' ∧
      sweep action causality' anchor (restrict spared later) =
        .ok (.finished dropped (restrict spared later')) := by
  induction later generalizing outcome with
  | nil =>
    cases swept
    exact ⟨false, [], rfl, rfl⟩
  | cons slot rest ih =>
    have slotMem := laterMem slot List.mem_cons_self
    rw [List.map_cons, List.mem_cons, not_or] at different
    have continued := fun {outcome} =>
      @ih (fun slot mem => laterMem slot (.tail _ mem)) different.2 outcome
    rw [sweep] at swept
    cases slotSpared : spared slot.hash with
    | true =>
      rw [restrict_cons_spared slotSpared, sweep,
        ← same anchor anchorMem slot.hash slotMem anchorSpared slotSpared different.1]
      -- All branches but one put a slot with the same hash in front of the rest's sweep.
      have passed : ∀ slot' : Slot, spared slot'.hash = true →
          (sweep action causality anchor rest).map (Sweep.cons slot') = .ok outcome →
          ∃ dropped later', outcome = .finished dropped later' ∧
            (sweep action causality' anchor (restrict spared rest)).map (Sweep.cons slot') =
              .ok (.finished dropped (restrict spared later')) := by
        intro slot' isSpared swept
        rcases map_eq_ok.mp swept with ⟨inner, innerSwept, rfl⟩
        rcases continued innerSwept with ⟨dropped, later', rfl, run⟩
        refine ⟨dropped, slot' :: later', rfl, ?_⟩
        rw [run, restrict_cons_spared isSpared]
        rfl
      split at swept
      case isTrue skipped =>
        rw [if_pos skipped]
        exact passed slot slotSpared swept
      case isFalse notSkipped =>
        rw [if_neg notSkipped]
        rcases bind_eq_ok.mp swept with ⟨answer, answered, swept⟩
        rw [answered, ok_bind]
        cases answer with
        | nop => exact passed slot slotSpared swept
        | drop => exact passed slot slotSpared swept
        | dropRight => exact passed { slot with dropped := true } slotSpared swept
        | dropLeft =>
          cases swept
          exact ⟨true, slot :: rest, rfl, by rw [restrict_cons_spared slotSpared]⟩
        | swap =>
          exact absurd answered (spares.swapless anchor anchorMem slot.hash slotMem
            anchorSpared).1
    | false =>
      rw [restrict_cons_other slotSpared]
      have passed : ∀ slot' : Slot, spared slot'.hash = false →
          (sweep action causality anchor rest).map (Sweep.cons slot') = .ok outcome →
          ∃ dropped later', outcome = .finished dropped later' ∧
            sweep action causality' anchor (restrict spared rest) =
              .ok (.finished dropped (restrict spared later')) := by
        intro slot' notSpared swept
        rcases map_eq_ok.mp swept with ⟨inner, innerSwept, rfl⟩
        rcases continued innerSwept with ⟨dropped, later', rfl, run⟩
        refine ⟨dropped, slot' :: later', rfl, ?_⟩
        rw [run, restrict_cons_other notSpared]
      split at swept
      · exact passed slot slotSpared swept
      · rcases bind_eq_ok.mp swept with ⟨answer, answered, swept⟩
        cases answer with
        | nop => exact passed slot slotSpared swept
        | drop => exact passed slot slotSpared swept
        | dropRight => exact passed { slot with dropped := true } slotSpared swept
        | dropLeft =>
          exact absurd answered
            (spares.left anchor anchorMem slot.hash slotMem anchorSpared slotSpared)
        | swap =>
          exact absurd answered (spares.swapless anchor anchorMem slot.hash slotMem
            anchorSpared).1

theorem sweep_other {anchor : Hash} (spares : Spares action spared members)
    (anchorMem : anchor ∈ members) (notSpared : spared anchor = false) {later : List Slot}
    (laterMem : ∀ slot ∈ later, slot.hash ∈ members) {outcome : Sweep}
    (swept : sweep action causality anchor later = .ok outcome) :
    (∃ dropped later', outcome = .finished dropped later' ∧
        restrict spared later' = restrict spared later) ∨
      ∃ moving later', outcome = .swapped moving later' ∧ spared moving = false ∧
        restrict spared later' = restrict spared later := by
  induction later generalizing outcome with
  | nil =>
    cases swept
    exact Or.inl ⟨false, [], rfl, rfl⟩
  | cons slot rest ih =>
    have slotMem := laterMem slot List.mem_cons_self
    have continued := fun {outcome} => @ih (fun slot mem => laterMem slot (.tail _ mem)) outcome
    have passed : ∀ slot' : Slot, restrict spared [slot'] = restrict spared [slot] →
        (sweep action causality anchor rest).map (Sweep.cons slot') = .ok outcome →
        (∃ dropped later', outcome = .finished dropped later' ∧
            restrict spared later' = restrict spared (slot :: rest)) ∨
          ∃ moving later', outcome = .swapped moving later' ∧ spared moving = false ∧
            restrict spared later' = restrict spared (slot :: rest) := by
      intro slot' sameSlot swept
      have front : ∀ later', restrict spared later' = restrict spared rest →
          restrict spared (slot' :: later') = restrict spared (slot :: rest) := by
        intro later' sameRest
        change restrict spared ([slot'] ++ later') = restrict spared ([slot] ++ rest)
        rw [restrict_append, restrict_append, sameSlot, sameRest]
      rcases map_eq_ok.mp swept with ⟨inner, innerSwept, rfl⟩
      rcases continued innerSwept with ⟨dropped, later', rfl, sameRest⟩ |
        ⟨moving, later', rfl, movingOther, sameRest⟩
      · exact Or.inl ⟨dropped, slot' :: later', rfl, front later' sameRest⟩
      · exact Or.inr ⟨moving, slot' :: later', rfl, movingOther, front later' sameRest⟩
    rw [sweep] at swept
    split at swept
    · exact passed slot rfl swept
    · rcases bind_eq_ok.mp swept with ⟨answer, answered, swept⟩
      cases answer with
      | nop => exact passed slot rfl swept
      | drop => exact passed slot rfl swept
      | dropLeft =>
        cases swept
        exact Or.inl ⟨true, slot :: rest, rfl, rfl⟩
      | dropRight =>
        have slotOther : spared slot.hash = false := by
          rw [Bool.eq_false_iff]
          exact fun isSpared => spares.right slot.hash slotMem anchor anchorMem isSpared notSpared
            answered
        exact passed { slot with dropped := true } (by simp [restrict, slotOther]) swept
      | swap =>
        have slotOther : spared slot.hash = false := by
          rw [Bool.eq_false_iff]
          exact fun isSpared =>
            (spares.swapless slot.hash slotMem anchor anchorMem isSpared).2 answered
        cases swept
        refine Or.inr ⟨slot.hash, _, rfl, slotOther, ?_⟩
        rw [restrict_cons_other slotOther, restrict_cons_other notSpared]

theorem SameRelations.swap {left right : Hash} (leftOther : spared left = false)
    (rightOther : spared right = false) :
    SameRelations spared members (causality.swapReachablePredecessors left right) causality := by
  intro hash _ other _ isSpared otherSpared _
  by_cases found : (causality.indexByHash left).isSome ∧ (causality.indexByHash right).isSome
  · have fixed : ∀ hash, spared hash = true → Equiv.swap left right hash = hash := by
      intro hash isSpared
      apply Equiv.swap_apply_of_ne_of_ne
      · rintro rfl
        rw [leftOther] at isSpared
        cases isSpared
      · rintro rfl
        rw [rightOther] at isSpared
        cases isSpared
    rw [areRelated, areRelated,
      causality.bit_swap found.1 found.2, causality.bit_swap found.1 found.2, fixed hash isSpared,
      fixed other otherSpared]
  · have unchanged : causality.swapReachablePredecessors left right = causality := by
      unfold swapReachablePredecessors
      split
      · simp_all
      · rfl
    rw [unchanged]

theorem SameRelations.trans {first second third : LegacyCausalityMatrix}
    (firstSecond : SameRelations spared members first second)
    (secondThird : SameRelations spared members second third) :
    SameRelations spared members first third :=
  fun hash mem other otherMem isSpared otherSpared different =>
    (firstSecond hash mem other otherMem isSpared otherSpared different).trans
      (secondThird hash mem other otherMem isSpared otherSpared different)

theorem scanAnchor_other (spares : Spares action spared members) {fuel : ℕ} {anchor : Hash}
    {seen later : List Slot} (anchorMem : anchor ∈ members) (notSpared : spared anchor = false)
    (slotsMem : ∀ slot ∈ seen ++ later, slot.hash ∈ members) {scanned : Anchored}
    (run : scanAnchor action fuel causality anchor seen later = .ok scanned) :
    spared scanned.anchor = false ∧
      restrict spared scanned.later = restrict spared (seen ++ later) ∧
      SameRelations spared members scanned.causality causality := by
  induction fuel using Nat.strong_induction_on generalizing causality anchor seen later with
  | _ fuel ih =>
    rw [scanAnchor] at run
    rcases bind_eq_ok.mp run with ⟨outcome, swept, run⟩
    have laterMem : ∀ slot ∈ later, slot.hash ∈ members :=
      fun slot mem => slotsMem slot (List.mem_append_right _ mem)
    have hashes := sweep_cases swept
    rcases sweep_other spares anchorMem notSpared laterMem swept with
      ⟨dropped, later', rfl, sameLater⟩ | ⟨moving, later', rfl, movingOther, sameLater⟩
    · cases run
      refine ⟨notSpared, ?_, fun _ _ _ _ _ _ _ => rfl⟩
      rw [restrict_append, restrict_append, sameLater]
    · cases fuel with
      | zero => cases run
      | succ fuel =>
        rcases hashes with ⟨_, _, impossible, _⟩ | ⟨_, _, before, after, same, split, moved, _⟩
        · cases impossible
        · cases same
          have members' : ∀ slot ∈ seen ++ later', slot.hash ∈ members := by
            intro slot mem
            rcases List.mem_append.mp mem with inSeen | inLater
            · exact slotsMem slot (List.mem_append_left _ inSeen)
            · have hashMem : slot.hash ∈ before ++ anchor :: after :=
                moved ▸ List.mem_map_of_mem inLater
              have known : ∀ hash ∈ before ++ moving :: after, hash ∈ members := by
                rw [← split]
                intro hash mem
                rcases List.mem_map.mp mem with ⟨old, oldMem, rfl⟩
                exact laterMem old oldMem
              rcases List.mem_append.mp hashMem with inBefore | inRest
              · exact known _ (List.mem_append_left _ inBefore)
              · rcases List.mem_cons.mp inRest with isAnchor | inAfter
                · rw [isAnchor]
                  exact anchorMem
                · exact known _ (List.mem_append_right _ (.tail _ inAfter))
          have movingMem : moving ∈ members := by
            have mem : moving ∈ later.map (·.hash) := by
              rw [split]
              exact List.mem_append_right _ List.mem_cons_self
            rcases List.mem_map.mp mem with ⟨slot, slotMem, rfl⟩
            exact laterMem slot slotMem
          rcases ih fuel fuel.lt_succ_self movingMem movingOther
            (by rwa [List.take_append_drop]) run with ⟨anchorOther, sameSlots, sameRelations⟩
          refine ⟨anchorOther, ?_, sameRelations.trans (.swap notSpared movingOther)⟩
          rw [sameSlots, List.take_append_drop, restrict_append, restrict_append, sameLater]

/-- What the scan keeps of the spared entries it keeps of them alone. -/
theorem loop_restrict (spares : Spares action spared members) {fuel fuel' : ℕ} {origin : Hash}
    {slots : List Slot} (slotsMem : ∀ slot ∈ slots, slot.hash ∈ members)
    (nodup : (slots.map (·.hash)).Nodup) (same : SameRelations spared members causality causality')
    {kept : List Hash} (run : loop action fuel origin slots.length causality slots = .ok kept) :
    loop action fuel' origin (restrict spared slots).length causality' (restrict spared slots) =
      .ok (kept.filter spared) := by
  induction count : slots.length generalizing slots causality kept with
  | zero =>
    cases List.eq_nil_of_length_eq_zero count
    cases run
    rfl
  | succ count' ih =>
    cases slots with
    | nil => cases count
    | cons slot later =>
      have length : later.length = count' := Nat.succ.inj count
      have laterMem : ∀ slot ∈ later, slot.hash ∈ members :=
        fun slot mem => slotsMem slot (.tail _ mem)
      have slotMem := slotsMem slot List.mem_cons_self
      rw [List.map_cons, List.nodup_cons] at nodup
      rw [List.length_cons, loop] at run
      split at run
      case isTrue skipped =>
        have continued := ih laterMem nodup.2 same run length
        cases slotSpared : spared slot.hash with
        | true =>
          rw [restrict_cons_spared slotSpared, List.length_cons, loop, if_pos skipped]
          exact continued
        | false =>
          rw [restrict_cons_other slotSpared]
          exact continued
      case isFalse notSkipped =>
        rcases bind_eq_ok.mp run with ⟨scanned, scan, run⟩
        rcases bind_eq_ok.mp run with ⟨rest, restRun, run⟩
        have scannedLength := scanAnchor_length scan
        rw [List.nil_append] at scannedLength
        have scannedNodup : (scanned.later.map (·.hash)).Nodup :=
          (List.nodup_cons.mp ((scanAnchor_perm scan).nodup_iff.mpr (List.nodup_cons.mpr nodup))).2
        have scannedMem : ∀ slot ∈ scanned.later, slot.hash ∈ members := by
          intro found foundMem
          have hashMem : found.hash ∈ slot.hash :: later.map (·.hash) :=
            (scanAnchor_perm scan).subset (.tail _ (List.mem_map_of_mem foundMem))
          rcases List.mem_cons.mp hashMem with isSlot | inLater
          · rw [isSlot]
            exact slotMem
          · rcases List.mem_map.mp inLater with ⟨old, oldMem, sameHash⟩
            rw [← sameHash]
            exact laterMem old oldMem
        rw [← scannedLength] at restRun
        cases slotSpared : spared slot.hash with
        | true =>
          rw [scanAnchor] at scan
          rcases bind_eq_ok.mp scan with ⟨outcome, swept, scan⟩
          rcases sweep_spared spares same slotMem slotSpared laterMem nodup.1 swept with
            ⟨dropped, later', rfl, sparedSwept⟩
          cases scan
          have continued := ih scannedMem scannedNodup same restRun (scannedLength.trans length)
          have sameLength : (restrict spared later).length = (restrict spared later').length := by
            rcases sweep_cases sparedSwept with ⟨_, _, same, sameHashes⟩ | ⟨_, _, _, _, same, _⟩
            · cases same
              simpa using (congrArg List.length sameHashes).symm
            · cases same
          rw [restrict_cons_spared slotSpared, List.length_cons, loop, if_neg notSkipped,
            scanAnchor, sparedSwept, ok_bind, ok_bind, sameLength]
          simp only [List.nil_append] at continued ⊢
          rw [continued]
          cases run
          cases dropped <;> simp [slotSpared]
        | false =>
          rcases scanAnchor_other spares slotMem slotSpared laterMem scan with
            ⟨anchorOther, sameSlots, sameRelations⟩
          have continued := ih scannedMem scannedNodup (sameRelations.trans same) restRun
            (scannedLength.trans length)
          rw [List.nil_append] at sameSlots
          rw [restrict_cons_other slotSpared, ← sameSlots, continued]
          cases run
          split <;> simp [anchorOther]

/-- The answers go by who loses against whom, and who loses wins against nobody. -/
structure Decided (action : Hash → Hash → Except JsError ActionType) (loses : Hash → Hash → Bool)
    (members : List Hash) : Prop where
  answer : ∀ left ∈ members, ∀ right ∈ members, action left right =
    .ok (if loses left right then .dropLeft else if loses right left then .dropRight else .nop)
  final : ∀ hash ∈ members, ∀ winner ∈ members, loses hash winner = true →
    ∀ other ∈ members, loses other hash = false

section Decided

variable {loses : Hash → Hash → Bool}

def losesTo (loses : Hash → Hash → Bool) (causality : LegacyCausalityMatrix) (hash winner : Hash) :
    Bool :=
  !causality.areRelated hash winner && loses hash winner

/-- The flag a winning anchor gives to an entry after it. -/
def mark (loses : Hash → Hash → Bool) (causality : LegacyCausalityMatrix) (anchor : Hash)
    (slot : Slot) : Slot :=
  if losesTo loses causality slot.hash anchor then { slot with dropped := true } else slot

/-- Positions of members of which the dropped ones win against nobody. -/
def Settled (loses : Hash → Hash → Bool) (members : List Hash) (slots : List Slot) : Prop :=
  ∀ slot ∈ slots, slot.hash ∈ members ∧
    (slot.dropped = true → ∀ other ∈ members, loses other slot.hash = false)

section

variable {anchor : Hash} {later : List Slot} (decided : Decided action loses members)
  (anchorMem : anchor ∈ members) (settled : Settled loses members later)
include decided anchorMem settled

theorem sweep_loser (lost : later.any fun slot => losesTo loses causality anchor slot.hash) :
    sweep action causality anchor later = .ok (.finished true later) := by
  rcases List.any_eq_true.mp lost with ⟨winner, winnerMem, beatenByWinner⟩
  have winnerLoses := (Bool.and_eq_true_iff.mp beatenByWinner).2
  have harmless := decided.final anchor anchorMem winner.hash (settled winner winnerMem).1 winnerLoses
  clear winnerMem beatenByWinner winnerLoses
  induction later with
  | nil => simp at lost
  | cons slot rest ih =>
    rw [List.any_cons, Bool.or_eq_true] at lost
    have slotMem := (settled slot List.mem_cons_self).1
    have restSettled : Settled loses members rest := fun slot mem => settled slot (.tail _ mem)
    rw [sweep]
    split
    case isTrue skipped =>
      have notHere : losesTo loses causality anchor slot.hash = false := by
        rcases Bool.or_eq_true_iff.mp skipped with dropped | related
        · simp [losesTo, (settled slot List.mem_cons_self).2 dropped anchor anchorMem]
        · simp [losesTo, related]
      rw [ih restSettled (lost.resolve_left (by simp [notHere]))]
      rfl
    case isFalse notSkipped =>
      rw [decided.answer anchor anchorMem slot.hash slotMem, ok_bind]
      by_cases loses_ : loses anchor slot.hash = true
      · rw [if_pos loses_]
      · have notHere : losesTo loses causality anchor slot.hash = false := by simp [losesTo, loses_]
        rw [if_neg loses_, if_neg (by simp [harmless slot.hash slotMem])]
        simp only
        rw [ih restSettled (lost.resolve_left (by simp [notHere]))]
        rfl

theorem sweep_winner
    (won : later.any (fun slot => losesTo loses causality anchor slot.hash) = false) :
    sweep action causality anchor later =
      .ok (.finished false (later.map (mark loses causality anchor))) := by
  induction later with
  | nil => rfl
  | cons slot rest ih =>
    rw [List.any_cons, Bool.or_eq_false_iff] at won
    have slotMem := (settled slot List.mem_cons_self).1
    have continued := ih (fun slot mem => settled slot (.tail _ mem)) won.2
    rw [sweep]
    split
    case isTrue skipped =>
      have unmarked : mark loses causality anchor slot = slot := by
        unfold mark
        split
        case isTrue beats_ =>
          rcases Bool.or_eq_true_iff.mp skipped with dropped | related
          · cases slot
            simp_all
          · rw [areRelated_comm] at related
            simp [losesTo, related] at beats_
        case isFalse => rfl
      rw [continued, List.map_cons, unmarked]
      rfl
    case isFalse notSkipped =>
      rw [Bool.not_eq_true, Bool.or_eq_false_iff] at notSkipped
      have notLost : loses anchor slot.hash = false := by simpa [losesTo, notSkipped.2] using won.1
      have related : causality.areRelated slot.hash anchor = false := by
        rw [areRelated_comm]
        exact notSkipped.2
      rw [decided.answer anchor anchorMem slot.hash slotMem, ok_bind, if_neg (by simp [notLost])]
      by_cases wins : loses slot.hash anchor = true
      · rw [if_pos wins, continued, List.map_cons, mark, if_pos (by simp [losesTo, related, wins])]
        rfl
      · rw [if_neg wins, continued, List.map_cons, mark, if_neg (by simp [losesTo, wins])]
        rfl

end

@[simp]
theorem hash_mark (anchor : Hash) (slot : Slot) :
    (mark loses causality anchor slot).hash = slot.hash := by
  unfold mark
  split <;> rfl

theorem dropped_mark (anchor : Hash) (slot : Slot) :
    (mark loses causality anchor slot).dropped =
      (slot.dropped || losesTo loses causality slot.hash anchor) := by
  unfold mark
  split <;> simp_all

def survives (loses : Hash → Hash → Bool) (causality : LegacyCausalityMatrix) (slots : List Slot)
    (slot : Slot) : Bool :=
  !slot.dropped && !slots.any fun other => losesTo loses causality slot.hash other.hash

theorem mem_survivors {order : List Hash} {hash : Hash} :
    hash ∈ ((slots order).filter (survives loses causality (slots order))).map (·.hash) ↔
      hash ∈ order ∧ ∀ other ∈ order, losesTo loses causality hash other = false := by
  simp [slots, survives, and_comm]

theorem survives_cons_of_harmless {slot : Slot} {slots : List Slot} (settled : Settled loses members slots)
    (harmless : ∀ other ∈ members, loses other slot.hash = false) :
    slots.filter (survives loses causality (slot :: slots)) =
      slots.filter (survives loses causality slots) := by
  apply List.filter_congr
  intro other mem
  simp [survives, losesTo, harmless other.hash (settled other mem).1]

theorem Settled.mark (decided : Decided action loses members) {anchor : Hash}
    (anchorMem : anchor ∈ members) {slots : List Slot} (settled : Settled loses members slots) :
    Settled loses members (slots.map (mark loses causality anchor)) := by
  intro marked mem
  rcases List.mem_map.mp mem with ⟨old, oldMem, rfl⟩
  rw [hash_mark, dropped_mark, Bool.or_eq_true]
  refine ⟨(settled old oldMem).1, ?_⟩
  rintro (dropped | isBeaten)
  · exact (settled old oldMem).2 dropped
  · exact decided.final old.hash (settled old oldMem).1 anchor anchorMem
      (Bool.and_eq_true_iff.mp isBeaten).2

theorem filter_survives_mark (slot : Slot) (slots : List Slot) :
    (slots.map (mark loses causality slot.hash)).filter
        (survives loses causality (slots.map (mark loses causality slot.hash))) =
      (slots.filter (survives loses causality (slot :: slots))).map
        (mark loses causality slot.hash) := by
  rw [List.filter_map]
  congr 1
  apply List.filter_congr
  intro other _
  simp only [Function.comp_def, survives, dropped_mark, hash_mark, List.any_map, List.any_cons,
    Bool.not_or, Bool.and_assoc]

theorem Decided.not_self (decided : Decided action loses members) {hash : Hash}
    (mem : hash ∈ members) : loses hash hash = false := by
  rw [Bool.eq_false_iff]
  intro self
  have harmless := decided.final hash mem hash mem self hash mem
  rw [self] at harmless
  cases harmless

/-- The scan keeps the entries that lose against no unrelated one. -/
theorem loop_decided (decided : Decided action loses members) {fuel : ℕ} {origin : Hash}
    {slots : List Slot} (settled : Settled loses members slots)
    (notOrigin : ∀ slot ∈ slots, slot.hash ≠ origin) :
    loop action fuel origin slots.length causality slots =
      .ok ((slots.filter (survives loses causality slots)).map (·.hash)) := by
  induction count : slots.length generalizing slots with
  | zero =>
    cases List.eq_nil_of_length_eq_zero count
    rfl
  | succ count' ih =>
    cases slots with
    | nil => cases count
    | cons slot later =>
      have length : later.length = count' := Nat.succ.inj count
      have slotMem := (settled slot List.mem_cons_self).1
      have laterSettled : Settled loses members later := fun slot mem => settled slot (.tail _ mem)
      have laterOrigin : ∀ slot ∈ later, slot.hash ≠ origin :=
        fun slot mem => notOrigin slot (.tail _ mem)
      rw [loop]
      split
      case isTrue skipped =>
        have dropped := skipped.resolve_left (notOrigin slot List.mem_cons_self)
        have harmless := (settled slot List.mem_cons_self).2 dropped
        rw [ih laterSettled laterOrigin length, List.filter_cons_of_neg (by simp [survives,
          dropped]), survives_cons_of_harmless laterSettled harmless]
      case isFalse notSkipped =>
        rw [scanAnchor]
        cases lost : later.any fun other => losesTo loses causality slot.hash other.hash with
        | true =>
          rcases List.any_eq_true.mp lost with ⟨winner, winnerMem, isBeaten⟩
          have harmless := decided.final slot.hash slotMem winner.hash
            (laterSettled winner winnerMem).1 (Bool.and_eq_true_iff.mp isBeaten).2
          rw [sweep_loser decided slotMem laterSettled lost, ok_bind, ok_bind,
            List.nil_append, ih laterSettled laterOrigin length,
            List.filter_cons_of_neg (by simp [survives, lost]),
            survives_cons_of_harmless laterSettled harmless]
          rfl
        | false =>
          have markedOrigin : ∀ marked ∈ later.map (mark loses causality slot.hash),
              marked.hash ≠ origin := by
            intro marked mem
            rcases List.mem_map.mp mem with ⟨old, oldMem, rfl⟩
            rw [hash_mark]
            exact laterOrigin old oldMem
          have slotSurvives : survives loses causality (slot :: later) slot = true := by
            rw [survives, List.any_cons, lost, losesTo, decided.not_self slotMem]
            simp [(not_or.mp notSkipped).2]
          rw [sweep_winner decided slotMem laterSettled lost, ok_bind, ok_bind,
            List.nil_append, ih (laterSettled.mark decided slotMem) markedOrigin
              (by simpa using length), List.filter_cons_of_pos slotSurvives,
            filter_survives_mark]
          simp [Function.comp_def]

end Decided

end PairScan

namespace HashGraph

open PairScan LegacyCausalityMatrix

variable {options : GraphOptions} {graph : HashGraph} {fuel : ℕ} {members : List Hash}
  {spared : Hash → Bool}

theorem Interval.exists_kept {origin : Hash} {vertices : List Vertex}
    (interval : graph.Interval origin members) (wellFormed : graph.WellFormed)
    (spares : Spares (graph.heard options) spared (members.filter (· ≠ origin)))
    (linearized : linearizePairSemantics options graph fuel origin members = .ok vertices) :
    ∃ rest kept : List Hash, graph.dfsTopologicalSortIterative origin members = .ok (origin :: rest) ∧
      graph.CausalOrder origin members (origin :: rest) ∧
      (∀ hash ∈ kept, hash ∈ members.filter (· ≠ origin)) ∧
      vertices = kept.filterMap graph.getVertex ∧
      ∀ causality,
        SameRelations spared (members.filter (· ≠ origin)) (build graph (origin :: rest)) causality →
        loop (graph.heard options) 0 origin (rest.filter spared).length causality
          (slots (rest.filter spared)) = .ok (kept.filter spared) := by
  rcases interval.exists_scan wellFormed linearized with
    ⟨rest, kept, sorted, causalOrder, restMem, scan, rfl⟩
  have slotsMem : ∀ slot ∈ slots rest, slot.hash ∈ members.filter (· ≠ origin) :=
    fun slot mem => restMem slot.hash (hash_mem_of_mem_slots mem)
  have keptMem : ∀ hash ∈ kept, hash ∈ members.filter (· ≠ origin) := by
    intro hash mem
    have subset := (loop_subperm scan).subset mem
    rw [map_hash_slots] at subset
    exact restMem hash subset
  refine ⟨rest, kept, sorted, causalOrder, keptMem, rfl, fun causality same => ?_⟩
  have nodup := (List.nodup_cons.mp causalOrder.nodup).2
  rw [← interval.loop_heard wellFormed causalOrder nodup fun hash mem =>
    List.mem_of_mem_filter (restMem hash mem), ← length_slots] at scan
  have restricted := @loop_restrict _ _ causality _ _ spares fuel 0 origin _ slotsMem
    (by simpa using nodup) same _ scan
  have sameSlots : restrict spared (slots rest) = slots (rest.filter spared) := by
    rw [restrict, slots, slots, List.filter_map]
    rfl
  rw [sameSlots, length_slots] at restricted
  exact restricted

theorem Past.ne_root_of_linearizeVertices {vertices : List Vertex} (past : graph.Past members)
    (wellFormed : graph.WellFormed) (pair : options.semanticsTypeDRP = some .pair)
    (linearized : linearizeVertices options graph fuel rootHash members = .ok vertices)
    {vertex : Vertex} (mem : vertex ∈ vertices) : vertex.hash ≠ rootHash := by
  have spares : Spares (graph.heard options) (fun _ => false) (members.filter (· ≠ rootHash)) := by
    refine ⟨?_, ?_, ?_⟩ <;>
    · intro _ _ _ _ impossible
      cases impossible
  rw [linearizeVertices, pair] at linearized
  rcases (past.interval wellFormed).exists_kept wellFormed spares linearized with
    ⟨_, kept, _, _, keptMem, rfl, _⟩
  rcases List.mem_filterMap.mp mem with ⟨hash, inKept, found⟩
  rw [getVertex_hash found]
  simpa using (List.mem_filter.mp (keptMem hash inKept)).2

theorem filterMap_getVertex_filter (graph : HashGraph) (kept : List Hash) (spared : Hash → Bool) :
    (kept.filterMap graph.getVertex).filter (fun vertex => spared vertex.hash) =
      (kept.filter spared).filterMap graph.getVertex := by
  induction kept with
  | nil => rfl
  | cons hash rest ih =>
    cases found : graph.getVertex hash with
    | none =>
      rw [List.filterMap_cons_none found, ih, List.filter_cons]
      split
      · rw [List.filterMap_cons_none found]
      · rfl
    | some vertex =>
      rw [List.filterMap_cons_some found, List.filter_cons, List.filter_cons,
        getVertex_hash found, ih]
      split
      · rw [List.filterMap_cons_some found]
      · rfl

/-- Two closed sets, one inside the other, keep the same of what is spared in both. -/
theorem Past.filter_linearizeVertices {whole : List Hash} (past : graph.Past members)
    (wholePast : graph.Past whole) (wellFormed : graph.WellFormed)
    (subset : ∀ hash ∈ members, hash ∈ whole) (pair : options.semanticsTypeDRP = some .pair)
    (spares : Spares (graph.heard options) spared (whole.filter (· ≠ rootHash)))
    (inside : ∀ hash ∈ whole, spared hash = true → hash ∈ members)
    {vertices wholeVertices : List Vertex}
    (linearized : linearizeVertices options graph fuel rootHash members = .ok vertices)
    (wholeLinearized : linearizeVertices options graph fuel rootHash whole = .ok wholeVertices) :
    wholeVertices.filter (fun vertex => spared vertex.hash) =
      vertices.filter fun vertex => spared vertex.hash := by
  have fewer : ∀ hash ∈ members.filter (· ≠ rootHash), hash ∈ whole.filter (· ≠ rootHash) := by
    intro hash mem
    rcases List.mem_filter.mp mem with ⟨inMembers, notOrigin⟩
    exact List.mem_filter.mpr ⟨subset hash inMembers, notOrigin⟩
  have spares' : Spares (graph.heard options) spared (members.filter (· ≠ rootHash)) :=
    ⟨fun hash mem other otherMem => spares.left hash (fewer hash mem) other (fewer other otherMem),
      fun hash mem other otherMem => spares.right hash (fewer hash mem) other (fewer other otherMem),
      fun hash mem other otherMem =>
        spares.swapless hash (fewer hash mem) other (fewer other otherMem)⟩
  rw [linearizeVertices, pair] at linearized wholeLinearized
  rcases (past.interval wellFormed).exists_kept wellFormed spares' linearized with
    ⟨rest, kept, sorted, causalOrder, _, rfl, scan⟩
  rcases (wholePast.interval wellFormed).exists_kept wellFormed spares wholeLinearized with
    ⟨wholeRest, wholeKept, wholeSorted, wholeCausal, _, rfl, wholeScan⟩
  have restricted := past.dfs_filter wholePast wellFormed subset wholeSorted
  rw [sorted, List.filter_cons_of_pos (by simpa using past.root)] at restricted
  have orders : rest = wholeRest.filter fun hash => decide (hash ∈ members) :=
    (List.cons.inj (Except.ok.inj restricted)).2
  have sameOrder : wholeRest.filter spared = rest.filter spared := by
    rw [orders, List.filter_filter]
    apply List.filter_congr
    intro hash mem
    cases isSpared : spared hash with
    | false => rfl
    | true => simp [inside hash ((wholeCausal.mem hash).mp (.tail _ mem)) isSpared]
  have sameRelations : SameRelations spared (whole.filter (· ≠ rootHash))
      (build graph (rootHash :: wholeRest)) (build graph (rootHash :: rest)) := by
    intro hash mem other otherMem isSpared otherSpared different
    have inWhole := (List.mem_filter.mp mem).1
    have otherInWhole := (List.mem_filter.mp otherMem).1
    rw [Bool.eq_iff_iff, wholePast.areRelated_build wellFormed wholeCausal inWhole otherInWhole different,
      past.areRelated_build wellFormed causalOrder (inside hash inWhole isSpared)
        (inside other otherInWhole otherSpared) different]
  have sameKept := wholeScan (build graph (rootHash :: rest)) sameRelations
  rw [sameOrder, scan (build graph (rootHash :: rest)) fun _ _ _ _ _ _ _ => rfl] at sameKept
  rw [filterMap_getVertex_filter, filterMap_getVertex_filter, Except.ok.inj sameKept]

theorem map_hash_filterMap_getVertex {kept : List Hash}
    (present : ∀ hash ∈ kept, hash ∈ graph.hashes) :
    (kept.filterMap graph.getVertex).map (·.hash) = kept := by
  induction kept with
  | nil => rfl
  | cons hash rest ih =>
    rcases exists_getVertex (present hash List.mem_cons_self) with ⟨vertex, found⟩
    rw [List.filterMap_cons_some found, List.map_cons, getVertex_hash found,
      ih fun hash mem => present hash (.tail _ mem)]

/--
Where losers never win, a linearization keeps the spared vertices that lose
against no concurrent one, in the order of the sort.
-/
theorem Past.linearizeVertices_decided (past : graph.Past members) (wellFormed : graph.WellFormed)
    (pair : options.semanticsTypeDRP = some .pair)
    (spares : Spares (graph.heard options) spared (members.filter (· ≠ rootHash)))
    (notRoot : spared rootHash = false) {loses : Hash → Hash → Bool}
    (decided : Decided (pairAction options graph) loses (members.filter spared))
    {vertices : List Vertex}
    (linearized : linearizeVertices options graph fuel rootHash members = .ok vertices) :
    ∃ order, graph.dfsTopologicalSortIterative rootHash members = .ok order ∧
      graph.CausalOrder rootHash members order ∧
      ((vertices.filter fun vertex => spared vertex.hash).map (·.hash)).Sublist order ∧
      ∀ hash ∈ members, spared hash = true → (hash ∈ vertices.map (·.hash) ↔
        ∀ other ∈ members, spared other = true → graph.Concurrent hash other →
          loses hash other = false) := by
  rw [linearizeVertices, pair] at linearized
  rcases (past.interval wellFormed).exists_kept wellFormed spares linearized with
    ⟨rest, kept, sorted, causalOrder, keptMem, rfl, scan⟩
  have present : ∀ hash ∈ kept, hash ∈ graph.hashes :=
    fun hash mem => past.present hash (List.mem_of_mem_filter (keptMem hash mem))
  have sparedMem : ∀ {hash}, hash ∈ rest.filter spared ↔ hash ∈ members.filter spared := by
    intro hash
    rw [List.mem_filter, List.mem_filter, ← causalOrder.mem, List.mem_cons]
    refine and_congr_left fun isSpared => (or_iff_right ?_).symm
    rintro rfl
    rw [notRoot] at isSpared
    cases isSpared
  have settled : PairScan.Settled loses (members.filter spared) (slots (rest.filter spared)) := by
    intro slot mem
    refine ⟨sparedMem.mp (hash_mem_of_mem_slots mem), fun dropped => ?_⟩
    rcases List.mem_map.mp mem with ⟨_, _, rfl⟩
    cases dropped
  have notOrigin : ∀ slot ∈ slots (rest.filter spared), slot.hash ≠ rootHash := by
    intro slot mem isRoot
    have isSpared := (List.mem_filter.mp (hash_mem_of_mem_slots mem)).2
    rw [isRoot, notRoot] at isSpared
    cases isSpared
  have scanned := scan (build graph (rootHash :: rest)) fun _ _ _ _ _ _ _ => rfl
  rw [(past.interval wellFormed).loop_heard wellFormed causalOrder
    ((List.nodup_cons.mp causalOrder.nodup).2.filter _)
    fun hash mem => List.mem_of_mem_filter (sparedMem.mp mem), ← length_slots,
    loop_decided decided settled notOrigin] at scanned
  have keptSpared := (Except.ok.inj scanned).symm
  refine ⟨rootHash :: rest, sorted, causalOrder, ?_, fun hash mem isSpared => ?_⟩
  · rw [filterMap_getVertex_filter, map_hash_filterMap_getVertex fun hash mem =>
      present hash (List.mem_of_mem_filter mem), keptSpared]
    have sublist := (List.filter_sublist (l := slots (rest.filter spared))
      (p := survives loses (build graph (rootHash :: rest)) (slots (rest.filter spared)))).map (·.hash)
    rw [map_hash_slots] at sublist
    exact sublist.trans (List.filter_sublist.trans (List.sublist_cons_self _ _))
  · have inKept : hash ∈ kept ↔ hash ∈ kept.filter spared := by simp [isSpared]
    rw [map_hash_filterMap_getVertex present, inKept, keptSpared, mem_survivors]
    have inOrder : hash ∈ rest.filter spared := sparedMem.mpr (List.mem_filter.mpr ⟨mem, isSpared⟩)
    constructor
    · rintro ⟨_, unbeaten⟩ other otherMem otherSpared ⟨different, notBefore, notAfter⟩
      have notBeaten := unbeaten other (sparedMem.mpr (List.mem_filter.mpr ⟨otherMem, otherSpared⟩))
      have unrelated : (build graph (rootHash :: rest)).areRelated hash other = false := by
        rw [Bool.eq_false_iff, ne_eq,
          past.areRelated_build wellFormed causalOrder mem otherMem different]
        exact not_or.mpr ⟨notBefore, notAfter⟩
      simpa [losesTo, unrelated] using notBeaten
    · intro unbeaten
      refine ⟨inOrder, fun other otherMem => ?_⟩
      rcases List.mem_filter.mp (sparedMem.mp otherMem) with ⟨otherMem, otherSpared⟩
      rw [losesTo, Bool.and_eq_false_imp]
      intro unrelated
      by_cases different : hash = other
      · subst different
        exact decided.not_self (List.mem_filter.mpr ⟨mem, isSpared⟩)
      · have notRelated : ¬(build graph (rootHash :: rest)).areRelated hash other = true := by
          simpa using unrelated
        rw [past.areRelated_build wellFormed causalOrder mem otherMem different, not_or] at notRelated
        exact unbeaten other otherMem otherSpared ⟨different, notRelated.1, notRelated.2⟩

end HashGraph

end TsDrp
