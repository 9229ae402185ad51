import TsDrp.Linearize.Pair

/-!
# Pair semantics behind a causal barrier

Two scans side by side: one of a causally closed set alone, one of the set with
further vertices behind it, all of which descend from the whole set.  The second
scan never compares across the barrier, so it does to the set what the first
scan does, with one exception.  In the second scan the heads of the set have
children and therefore hold their own bit.  A `Swap` can hand such a row to
another vertex, which then counts as related to the head.
-/

namespace TsDrp

open HashGraph LegacyCausalityMatrix

namespace PairScan

/--
Whenever the resolver answers `Swap` on two of the members, neither is a head,
or the vertex brought forward is answered `Nop` against every other member.
-/
def SwapsSettle (action : Hash → Hash → Except JsError ActionType) (heads members : List Hash) :
    Prop :=
  ∀ left ∈ members, ∀ right ∈ members, left ≠ right → action left right = .ok .swap →
    (left ∉ heads ∧ right ∉ heads) ∨
      ∀ other ∈ members, other ≠ right → action right other = .ok .nop

/-- No two members the matrix does not relate are answered `Swap`. -/
def Swapless (action : Hash → Hash → Except JsError ActionType) (causality : LegacyCausalityMatrix)
    (members : List Hash) : Prop :=
  ∀ left ∈ members, ∀ right ∈ members, left ≠ right → causality.areRelated left right = false →
    action left right ≠ .ok .swap

def Sweep.append (tail : List Slot) : Sweep → Sweep
  | .finished dropped later => .finished dropped (later ++ tail)
  | .swapped moving later => .swapped moving (later ++ tail)

theorem Sweep.append_cons (slot : Slot) (tail : List Slot) (outcome : Sweep) :
    (outcome.cons slot).append tail = (outcome.append tail).cons slot := by
  cases outcome <;> rfl

/-- The vertices of the tail have everything live in their rows. -/
structure Covered (live tail : List Hash) (causality causality' : LegacyCausalityMatrix) :
    Prop where
  found : ∀ hash ∈ live, (causality.indexByHash hash).isSome
  found' : ∀ hash ∈ live, (causality'.indexByHash hash).isSome
  behind : ∀ hash ∈ live, ∀ later ∈ tail, causality'.bit later hash = true

/-- The matrices agree on the live hashes, up to the own bits of heads. -/
def Agree (heads live : List Hash) (causality causality' : LegacyCausalityMatrix) : Prop :=
  ∀ row ∈ live, ∀ column ∈ live, row ≠ column ∨ column ∉ heads →
    causality.bit row column = causality'.bit row column

section Simulation

variable {action action' : Hash → Hash → Except JsError ActionType}
  {causality causality' : LegacyCausalityMatrix}

theorem Covered.subset {live live' tail : List Hash} (covered : Covered live tail causality causality')
    (subset : ∀ hash ∈ live', hash ∈ live) : Covered live' tail causality causality' where
  found := fun hash mem => covered.found hash (subset hash mem)
  found' := fun hash mem => covered.found' hash (subset hash mem)
  behind := fun hash mem => covered.behind hash (subset hash mem)

theorem Agree.subset {heads live live' : List Hash} (agree : Agree heads live causality causality')
    (subset : ∀ hash ∈ live', hash ∈ live) : Agree heads live' causality causality' :=
  fun row rowMem column columnMem => agree row (subset row rowMem) column (subset column columnMem)

theorem Agree.areRelated {heads live : List Hash} (agree : Agree heads live causality causality')
    {left right : Hash} (leftMem : left ∈ live) (rightMem : right ∈ live)
    (different : left ≠ right) :
    causality.areRelated left right = causality'.areRelated left right := by
  unfold LegacyCausalityMatrix.areRelated
  rw [agree left leftMem right rightMem (Or.inl different),
    agree right rightMem left leftMem (Or.inl different.symm)]

theorem Covered.areRelated {live tail : List Hash} (covered : Covered live tail causality causality')
    {hash later : Hash} (mem : hash ∈ live) (laterMem : later ∈ tail) :
    causality'.areRelated hash later = true := by
  unfold LegacyCausalityMatrix.areRelated
  rw [covered.behind hash mem later laterMem, Bool.or_true]

theorem sweep_behind {anchor : Hash} {tail : List Slot}
    (behind : ∀ slot ∈ tail, causality'.areRelated anchor slot.hash = true) :
    sweep action' causality' anchor tail = .ok (.finished false tail) := by
  induction tail with
  | nil => rfl
  | cons slot rest ih =>
    have here := behind slot List.mem_cons_self
    rw [sweep, here, Bool.or_true, if_pos rfl, ih fun slot mem => behind slot (.tail _ mem)]
    rfl

theorem sweep_append {anchor : Hash} {later tail : List Slot}
    (sameAction : ∀ slot ∈ later, action anchor slot.hash = action' anchor slot.hash)
    (sameRelated : ∀ slot ∈ later,
      causality.areRelated anchor slot.hash = causality'.areRelated anchor slot.hash ∨
        action anchor slot.hash = .ok .nop)
    (behind : ∀ slot ∈ tail, causality'.areRelated anchor slot.hash = true) :
    sweep action' causality' anchor (later ++ tail) =
      (sweep action causality anchor later).map (Sweep.append tail) := by
  induction later with
  | nil => exact sweep_behind behind
  | cons slot rest ih =>
    have rest_eq := ih (fun slot mem => sameAction slot (.tail _ mem))
      (fun slot mem => sameRelated slot (.tail _ mem))
    have passed : ∀ slot' : Slot,
        (sweep action' causality' anchor (rest ++ tail)).map (Sweep.cons slot') =
          ((sweep action causality anchor rest).map (Sweep.cons slot')).map
            (Sweep.append tail) := by
      intro slot'
      rw [rest_eq]
      cases sweep action causality anchor rest with
      | error error => rfl
      | ok outcome => simp [Sweep.append_cons]
    have answers := sameAction slot List.mem_cons_self
    rw [List.cons_append, sweep, sweep]
    rcases sameRelated slot List.mem_cons_self with related | isNop
    · rw [← related, ← answers]
      split
      · exact passed slot
      · cases action anchor slot.hash with
        | error error => rfl
        | ok answer =>
          cases answer with
          | nop => exact passed slot
          | dropLeft => rfl
          | dropRight => exact passed { slot with dropped := true }
          | swap => rfl
          | drop => exact passed slot
    · -- An inert anchor does the same whether or not the pair counts as related.
      rw [← answers, isNop]
      simp only [Outcome.ok_bind, ite_self]
      exact passed slot

structure SameRows (tail : List Hash) (before after : LegacyCausalityMatrix) : Prop where
  index : after.indexByHash = before.indexByHash
  bit : ∀ row ∈ tail, ∀ column, after.bit row column = before.bit row column

theorem SameRows.refl (tail : List Hash) (causality : LegacyCausalityMatrix) :
    SameRows tail causality causality := ⟨rfl, fun _ _ _ => rfl⟩

theorem SameRows.trans {tail : List Hash} {first second third : LegacyCausalityMatrix}
    (before : SameRows tail first second) (after : SameRows tail second third) :
    SameRows tail first third :=
  ⟨after.index.trans before.index,
    fun row mem column => (after.bit row mem column).trans (before.bit row mem column)⟩

theorem SameRows.swap {tail : List Hash} {left right : Hash}
    (leftFound : (causality.indexByHash left).isSome)
    (rightFound : (causality.indexByHash right).isSome) (leftLive : left ∉ tail)
    (rightLive : right ∉ tail) :
    SameRows tail causality (causality.swapReachablePredecessors left right) := by
  refine ⟨indexByHash_swap _ _ _, fun row mem column => ?_⟩
  have notLeft : row ≠ left := fun same => leftLive (same ▸ mem)
  have notRight : row ≠ right := fun same => rightLive (same ▸ mem)
  rw [causality.bit_swap leftFound rightFound, Equiv.swap_apply_of_ne_of_ne notLeft notRight]

theorem Covered.swap {live tail : List Hash} (covered : Covered live tail causality causality')
    {left right : Hash} (leftMem : left ∈ live) (rightMem : right ∈ live) (leftLive : left ∉ tail)
    (rightLive : right ∉ tail) :
    Covered live tail (causality.swapReachablePredecessors left right)
      (causality'.swapReachablePredecessors left right) where
  found := fun hash mem => by
    rw [indexByHash_swap]
    exact covered.found hash mem
  found' := fun hash mem => by
    rw [indexByHash_swap]
    exact covered.found' hash mem
  behind := fun hash mem later laterMem => by
    have rows := SameRows.swap (covered.found' left leftMem) (covered.found' right rightMem) leftLive
      rightLive
    rw [rows.bit later laterMem hash]
    exact covered.behind hash mem later laterMem

section

variable {heads live tail : List Hash} {left right : Hash}
  (agree : Agree heads live causality causality')
  (covered : Covered live tail causality causality') (leftMem : left ∈ live)
  (rightMem : right ∈ live)
include agree covered leftMem rightMem

theorem Agree.swap (leftHead : left ∉ heads) (rightHead : right ∉ heads) :
    Agree heads live (causality.swapReachablePredecessors left right)
      (causality'.swapReachablePredecessors left right) := by
  intro row rowMem column columnMem allowed
  rw [causality.bit_swap (covered.found left leftMem) (covered.found right rightMem),
    causality'.bit_swap (covered.found' left leftMem) (covered.found' right rightMem)]
  have swappedMem : Equiv.swap left right row ∈ live := by
    rw [Equiv.swap_apply_def]
    split
    · exact rightMem
    · split
      · exact leftMem
      · exact rowMem
  apply agree _ swappedMem column columnMem
  by_cases isHead : column ∈ heads
  · left
    have different : row ≠ column := by simpa [isHead] using allowed
    have columnLeft : column ≠ left := fun same => leftHead (same ▸ isHead)
    have columnRight : column ≠ right := fun same => rightHead (same ▸ isHead)
    rw [Equiv.swap_apply_def]
    split
    · exact columnRight.symm
    · split
      · exact columnLeft.symm
      · exact different
  · exact Or.inr isHead

theorem Agree.swap_settled {live' : List Hash} (subset : ∀ hash ∈ live', hash ∈ live)
    (gone : right ∉ live') : Agree heads live' (causality.swapReachablePredecessors left right)
      (causality'.swapReachablePredecessors left right) := by
  intro row rowMem column columnMem allowed
  rw [causality.bit_swap (covered.found left leftMem) (covered.found right rightMem),
    causality'.bit_swap (covered.found' left leftMem) (covered.found' right rightMem)]
  have columnRight : right ≠ column := fun same => gone (same ▸ columnMem)
  have rowRight : row ≠ right := fun same => gone (same ▸ rowMem)
  by_cases isLeft : row = left
  · subst isLeft
    rw [Equiv.swap_apply_left]
    exact agree right rightMem column (subset column columnMem) (Or.inl columnRight)
  · rw [Equiv.swap_apply_of_ne_of_ne isLeft rowRight]
    exact agree row (subset row rowMem) column (subset column columnMem) allowed

end

structure Parallel (heads : List Hash) (tail : List Slot) (start : LegacyCausalityMatrix)
    (scanned scanned' : Anchored) : Prop where
  anchor : scanned'.anchor = scanned.anchor
  dropped : scanned'.dropped = scanned.dropped
  later : scanned'.later = scanned.later ++ tail
  covered : Covered (scanned.later.map (·.hash)) (tail.map (·.hash)) scanned.causality
    scanned'.causality
  agree : Agree heads (scanned.later.map (·.hash)) scanned.causality scanned'.causality
  sameRows : SameRows (tail.map (·.hash)) start scanned'.causality

structure Aligned (action : Hash → Hash → Except JsError ActionType) (heads members : List Hash)
    (tail : List Slot) (anchor : Hash) (rest : List Slot)
    (causality causality' : LegacyCausalityMatrix) : Prop where
  nodup : (anchor :: rest.map (·.hash)).Nodup
  inside : ∀ hash ∈ anchor :: rest.map (·.hash), hash ∈ members
  covered : Covered (anchor :: rest.map (·.hash)) (tail.map (·.hash)) causality causality'
  agree : Agree heads (rest.map (·.hash)) causality causality'
  anchorAgree : Agree heads (anchor :: rest.map (·.hash)) causality causality' ∨
    ∀ other ∈ members, other ≠ anchor → action anchor other = .ok .nop

section

variable {heads members : List Hash} {tail : List Slot} {anchor : Hash}

theorem Aligned.notMem_tail {rest : List Slot} {hash : Hash}
    (outside : ∀ slot ∈ tail, slot.hash ∉ members)
    (aligned : Aligned action heads members tail anchor rest causality causality')
    (mem : hash ∈ anchor :: rest.map (·.hash)) : hash ∉ tail.map (·.hash) := by
  intro inTail
  obtain ⟨slot, slotMem, rfl⟩ := List.mem_map.mp inTail
  exact outside slot slotMem (aligned.inside _ mem)

theorem Aligned.ne_anchor {rest : List Slot} {hash : Hash}
    (aligned : Aligned action heads members tail anchor rest causality causality')
    (mem : hash ∈ rest.map (·.hash)) : hash ≠ anchor :=
  fun same => (List.nodup_cons.mp aligned.nodup).1 (same ▸ mem)

theorem Aligned.swap_sameRows {rest : List Slot} {moving : Hash}
    (outside : ∀ slot ∈ tail, slot.hash ∉ members)
    (aligned : Aligned action heads members tail anchor rest causality causality')
    (movingMem : moving ∈ anchor :: rest.map (·.hash)) : SameRows (tail.map (·.hash)) causality'
      (causality'.swapReachablePredecessors anchor moving) :=
  SameRows.swap (aligned.covered.found' anchor List.mem_cons_self)
    (aligned.covered.found' moving movingMem) (aligned.notMem_tail outside List.mem_cons_self)
    (aligned.notMem_tail outside movingMem)

theorem Aligned.swap {seen later later' : List Slot} {moving : Hash} {before after : List Hash}
    (settle : SwapsSettle action heads members) (outside : ∀ slot ∈ tail, slot.hash ∉ members)
    (aligned : Aligned action heads members tail anchor (seen ++ later) causality causality')
    (split : later.map (·.hash) = before ++ moving :: after)
    (moved : later'.map (·.hash) = before ++ anchor :: after)
    (isSwap : action anchor moving = .ok .swap) :
    Aligned action heads members tail moving (seen ++ later')
      (causality.swapReachablePredecessors anchor moving)
      (causality'.swapReachablePredecessors anchor moving) := by
  have perm : (moving :: (seen ++ later').map (·.hash)).Perm
      (anchor :: (seen ++ later).map (·.hash)) := by
    rw [List.map_append, List.map_append, split, moved, ← List.append_assoc, ← List.append_assoc]
    exact (List.perm_middle.cons _).trans
      ((List.Perm.swap _ _ _).trans (List.perm_middle.symm.cons _))
  have nodup := perm.nodup_iff.mpr aligned.nodup
  have anchorMem : anchor ∈ anchor :: (seen ++ later).map (·.hash) := List.mem_cons_self
  have movingMem : moving ∈ anchor :: (seen ++ later).map (·.hash) :=
    perm.mem_iff.mp List.mem_cons_self
  have different : moving ≠ anchor := aligned.ne_anchor (by simp [split])
  have agree : Agree heads (anchor :: (seen ++ later).map (·.hash)) causality causality' := by
    refine aligned.anchorAgree.resolve_right fun inert => ?_
    rw [inert moving (aligned.inside moving movingMem) different] at isSwap
    cases isSwap
  have restAgree := agree.swap_settled aligned.covered anchorMem movingMem
    (fun hash mem => perm.mem_iff.mp (List.mem_cons_of_mem _ mem)) (List.nodup_cons.mp nodup).1
  refine ⟨nodup, fun hash mem => aligned.inside hash (perm.mem_iff.mp mem), ?_, restAgree, ?_⟩
  · exact (aligned.covered.swap anchorMem movingMem (aligned.notMem_tail outside anchorMem)
      (aligned.notMem_tail outside movingMem)).subset fun hash mem => perm.mem_iff.mp mem
  · rcases settle anchor (aligned.inside anchor anchorMem) moving
      (aligned.inside moving movingMem) different.symm isSwap with ⟨anchorHead, movingHead⟩ | inert
    · exact Or.inl ((agree.swap aligned.covered anchorMem movingMem anchorHead movingHead).subset
        fun hash mem => perm.mem_iff.mp mem)
    · exact Or.inr inert

theorem Aligned.sweep_eq {seen later : List Slot}
    (sameAction : ∀ left ∈ members, ∀ right ∈ members, left ≠ right →
      action left right = action' left right)
    (aligned : Aligned action heads members tail anchor (seen ++ later) causality causality') :
    sweep action' causality' anchor (later ++ tail) =
      (sweep action causality anchor later).map (Sweep.append tail) := by
  have laterMem : ∀ slot ∈ later, slot.hash ∈ (seen ++ later).map (·.hash) := fun slot mem =>
    List.mem_map_of_mem (List.mem_append_right _ mem)
  have member : ∀ slot ∈ later, slot.hash ∈ members := fun slot mem =>
    aligned.inside _ (List.mem_cons_of_mem _ (laterMem slot mem))
  have different : ∀ slot ∈ later, slot.hash ≠ anchor := fun slot mem =>
    aligned.ne_anchor (laterMem slot mem)
  apply sweep_append
  · intro slot mem
    exact sameAction _ (aligned.inside _ List.mem_cons_self) _ (member slot mem)
      (different slot mem).symm
  · intro slot mem
    refine aligned.anchorAgree.imp (fun agree => ?_)
      fun inert => inert _ (member slot mem) (different slot mem)
    exact agree.areRelated List.mem_cons_self (List.mem_cons_of_mem _ (laterMem slot mem))
      (different slot mem).symm
  · exact fun slot mem => aligned.covered.areRelated List.mem_cons_self (List.mem_map_of_mem mem)

theorem Aligned.finished {seen later later' : List Slot} (dropped : Bool)
    (aligned : Aligned action heads members tail anchor (seen ++ later) causality causality')
    (same : later'.map (·.hash) = later.map (·.hash)) : Parallel heads tail causality'
      { anchor, dropped, later := seen ++ later', causality }
      { anchor, dropped, later := seen ++ (later' ++ tail), causality := causality' } where
  anchor := rfl
  dropped := rfl
  later := (List.append_assoc _ _ _).symm
  covered := by
    refine aligned.covered.subset fun hash mem => List.mem_cons_of_mem _ ?_
    rwa [List.map_append, same, ← List.map_append] at mem
  agree := by
    refine aligned.agree.subset fun hash mem => ?_
    rwa [List.map_append, same, ← List.map_append] at mem
  sameRows := .refl _ _

theorem scanAnchor_parallel
    (settle : Swapless action causality members ∨ SwapsSettle action heads members)
    (sameAction : ∀ left ∈ members, ∀ right ∈ members, left ≠ right →
      action left right = action' left right)
    (outside : ∀ slot ∈ tail, slot.hash ∉ members) (fuel : ℕ) {seen later : List Slot}
    (aligned : Aligned action heads members tail anchor (seen ++ later) causality causality') :
    Outcome.Related (Parallel heads tail causality')
      (scanAnchor action fuel causality anchor seen later)
      (scanAnchor action' fuel causality' anchor seen (later ++ tail)) := by
  induction fuel using Nat.strong_induction_on generalizing causality causality' anchor seen later with
  | _ fuel ih =>
    rw [scanAnchor, scanAnchor, aligned.sweep_eq sameAction]
    cases swept : sweep action causality anchor later with
    | error error => exact .error error
    | ok outcome =>
      rcases sweep_cases swept with ⟨dropped, later', rfl, same⟩ |
        ⟨moving, later', before, after, rfl, split, moved, isSwap, unrelated⟩
      · exact .ok (aligned.finished dropped same)
      · have movingMem : moving ∈ (seen ++ later).map (·.hash) := by simp [split]
        have settle : SwapsSettle action heads members := by
          refine settle.resolve_left fun swapless => ?_
          exact swapless anchor (aligned.inside _ List.mem_cons_self) moving
            (aligned.inside _ (List.mem_cons_of_mem _ movingMem)) (aligned.ne_anchor movingMem).symm
            unrelated isSwap
        cases fuel with
        | zero => exact .error _
        | succ fuel =>
          have next := aligned.swap settle outside split moved isSwap
          obtain ⟨first, rest, shape⟩ : ∃ first rest, seen ++ later' = first :: rest := by
            refine List.exists_cons_of_ne_nil fun empty => ?_
            have nothing := congrArg (List.map (·.hash)) (List.append_eq_nil_iff.mp empty).2
            rw [moved] at nothing
            simp at nothing
          have rows := aligned.swap_sameRows outside (List.mem_cons_of_mem _ movingMem)
          rw [shape] at next
          have continued := @ih fuel fuel.lt_succ_self _ _ moving (Or.inr settle) [first] rest next
          simp only [Outcome.map_ok, Outcome.ok_bind, Sweep.append, ← List.append_assoc, shape]
          refine continued.mono fun scanned scanned' parallel => ?_
          exact { parallel with sameRows := rows.trans parallel.sameRows }

end

theorem Swapless.sweep_finished {members : List Hash} (swapless : Swapless action causality members)
    {anchor : Hash} (anchorMem : anchor ∈ members) {later : List Slot}
    (laterMem : ∀ hash ∈ later.map (·.hash), hash ∈ members) (different : anchor ∉ later.map (·.hash))
    {outcome : Sweep} (swept : sweep action causality anchor later = .ok outcome) :
    ∃ dropped later', outcome = .finished dropped later' ∧
      later'.map (·.hash) = later.map (·.hash) := by
  rcases sweep_cases swept with finished |
    ⟨moving, later', before, after, _, split, _, isSwap, unrelated⟩
  · exact finished
  · have movingMem : moving ∈ later.map (·.hash) := by
      rw [split]
      exact List.mem_append_right _ List.mem_cons_self
    refine absurd isSwap (swapless anchor anchorMem moving (laterMem moving movingMem) ?_ unrelated)
    rintro rfl
    exact different movingMem

theorem Swapless.causality_scanAnchor {members : List Hash}
    (swapless : Swapless action causality members) {anchor : Hash} (anchorMem : anchor ∈ members)
    {later : List Slot} (laterMem : ∀ hash ∈ later.map (·.hash), hash ∈ members)
    (different : anchor ∉ later.map (·.hash)) {fuel : ℕ} {seen : List Slot} {scanned : Anchored}
    (scan : scanAnchor action fuel causality anchor seen later = .ok scanned) :
    scanned.causality = causality := by
  rw [scanAnchor] at scan
  rcases Outcome.bind_eq_ok.mp scan with ⟨outcome, swept, scan⟩
  rcases swapless.sweep_finished anchorMem laterMem different swept with ⟨dropped, later', rfl, _⟩
  cases scan
  rfl

/-- The scan of the whole is the scan of the past followed by the scan of the tail. -/
theorem loop_append {heads members : List Hash} {tail : List Slot}
    (settle : Swapless action causality members ∨ SwapsSettle action heads members)
    (sameAction : ∀ left ∈ members, ∀ right ∈ members, left ≠ right →
      action left right = action' left right)
    (outside : ∀ slot ∈ tail, slot.hash ∉ members) {fuel tailCount : ℕ} {origin origin' : Hash}
    (sameOrigin : ∀ hash ∈ members, hash = origin ↔ hash = origin')
    {start : LegacyCausalityMatrix} {behind : Except JsError (List Hash)}
    (tailRun : ∀ final, SameRows (tail.map (·.hash)) start final →
      loop action' fuel origin' tailCount final tail = behind)
    {count : ℕ} {slots : List Slot} (length : slots.length = count)
    (nodup : (slots.map (·.hash)).Nodup) (inside : ∀ slot ∈ slots, slot.hash ∈ members)
    (covered : Covered (slots.map (·.hash)) (tail.map (·.hash)) causality causality')
    (agree : Agree heads (slots.map (·.hash)) causality causality')
    (sameRows : SameRows (tail.map (·.hash)) start causality') :
    loop action' fuel origin' (count + tailCount) causality' (slots ++ tail) = (do
      let kept ← loop action fuel origin count causality slots
      let rest ← behind
      return kept ++ rest) := by
  induction count generalizing causality causality' slots with
  | zero =>
    rw [List.length_eq_zero_iff.mp length, List.nil_append, Nat.zero_add, tailRun _ sameRows]
    cases behind <;> rfl
  | succ count ih =>
    cases slots with
    | nil => simp at length
    | cons slot later =>
      have laterLength : later.length = count := by simpa using length
      have laterNodup := (List.nodup_cons.mp nodup).2
      have slotMem := inside slot List.mem_cons_self
      have skips : (slot.hash = origin' ∨ slot.dropped = true) ↔
          (slot.hash = origin ∨ slot.dropped = true) :=
        or_congr (sameOrigin _ slotMem).symm Iff.rfl
      rw [Nat.add_right_comm, List.cons_append, loop, loop]
      by_cases skip : slot.hash = origin ∨ slot.dropped = true
      · rw [if_pos skip, if_pos (skips.mpr skip)]
        exact ih settle laterLength laterNodup (fun slot mem => inside slot (.tail _ mem))
          (covered.subset fun hash mem => .tail _ mem) (agree.subset fun hash mem => .tail _ mem)
          sameRows
      · rw [if_neg skip, if_neg fun skip' => skip (skips.mp skip')]
        have aligned : Aligned action heads members tail slot.hash ([] ++ later) causality
            causality' := by
          refine ⟨nodup, ?_, covered, agree.subset fun hash mem => .tail _ mem, Or.inl agree⟩
          intro hash mem
          obtain ⟨found, foundMem, rfl⟩ := List.mem_map.mp (show hash ∈ (slot :: later).map _ from mem)
          exact inside found foundMem
        rcases (scanAnchor_parallel settle sameAction outside fuel aligned).cases with
          ⟨error, scan, scan'⟩ | ⟨scanned, scanned', scan, scan', parallel⟩
        · rw [scan, scan']
          rfl
        · have perm := scanAnchor_perm scan
          rw [List.nil_append] at perm
          have settle' : Swapless action scanned.causality members ∨
              SwapsSettle action heads members := by
            refine settle.imp_left fun swapless => ?_
            rw [swapless.causality_scanAnchor slotMem ?_ (List.nodup_cons.mp nodup).1 scan]
            · exact swapless
            · exact fun hash mem => aligned.inside hash (.tail _ mem)
          have rest := ih settle' (by rw [scanAnchor_length scan]; exact laterLength)
            (List.nodup_cons.mp (perm.nodup_iff.mpr nodup)).2
            (fun found mem => aligned.inside _
              (perm.mem_iff.mp (.tail _ (List.mem_map_of_mem mem))))
            parallel.covered parallel.agree (sameRows.trans parallel.sameRows)
          rw [scan, scan', Outcome.ok_bind, Outcome.ok_bind, parallel.later, rest,
            parallel.dropped, parallel.anchor]
          cases loop action fuel origin count scanned.causality scanned.later with
          | error error => rfl
          | ok kept =>
            cases behind with
            | error error => rfl
            | ok rest => cases scanned.dropped <;> rfl

theorem loop_congr {order : List Hash} {fuel : ℕ} {origin origin' : Hash}
    (sameAction : ∀ left ∈ order, ∀ right ∈ order, left ≠ right →
      action left right = action' left right)
    (sameOrigin : ∀ hash ∈ order, hash = origin ↔ hash = origin') (nodup : order.Nodup)
    (covered : Covered order [] causality causality') (agree : Agree [] order causality causality') :
    loop action' fuel origin' order.length causality' (slots order) =
      loop action fuel origin order.length causality (slots order) := by
  have settle : SwapsSettle action [] order := fun _ _ _ _ _ _ =>
    Or.inl ⟨List.not_mem_nil, List.not_mem_nil⟩
  have split : loop action' fuel origin' (order.length + 0) causality' (slots order ++ []) = (do
      let kept ← loop action fuel origin order.length causality (slots order)
      let rest ← .ok []
      return kept ++ rest) := by
    apply loop_append (Or.inr settle) sameAction (by simp) sameOrigin (fun _ _ => rfl) (length_slots order)
    · rwa [map_hash_slots]
    · exact fun slot mem => hash_mem_of_mem_slots mem
    · rwa [map_hash_slots]
    · rwa [map_hash_slots]
    · exact .refl _ _
  rw [List.append_nil, Nat.add_zero] at split
  rw [split]
  cases loop action fuel origin order.length causality (slots order) <;> simp

theorem loop_origin (fuel : ℕ) (origin : Hash) (order : List Hash) :
    loop action fuel origin (origin :: order).length causality (slots (origin :: order)) =
      loop action fuel origin order.length causality (slots order) := by
  rw [List.length_cons, slots, List.map_cons, loop, if_pos (Or.inl rfl), slots]

theorem sweep_inert {anchor : Hash} (inert : ∀ other, action anchor other = .ok .nop)
    (later : List Slot) : sweep action causality anchor later = .ok (.finished false later) := by
  induction later with
  | nil => rfl
  | cons slot rest ih =>
    rw [sweep, inert, ih]
    simp [Sweep.cons]

theorem loop_inert {fuel : ℕ} {origin : Hash} {order : List Hash}
    (inert : ∀ hash ∈ order, hash ≠ origin → ∀ other, action hash other = .ok .nop) :
    loop action fuel origin order.length causality (slots order) =
      .ok (order.filter (· ≠ origin)) := by
  induction order with
  | nil => rfl
  | cons hash rest ih =>
    have continued := ih fun hash mem => inert hash (.tail _ mem)
    rw [List.length_cons, slots, List.map_cons, loop]
    rw [slots] at continued
    by_cases isOrigin : hash = origin
    · rw [if_pos (Or.inl isOrigin), continued]
      simp [isOrigin]
    · have nop := inert hash List.mem_cons_self isOrigin
      rw [if_neg (by simp [isOrigin]), scanAnchor, sweep_inert nop]
      simp [continued, isOrigin]

end Simulation

end PairScan

section PairOrder

open PairScan

variable {options : GraphOptions} {graph : HashGraph}

/-- Two concurrent members are answered `Swap`, without which no swap ever happens. -/
def HashGraph.MaySwap (graph : HashGraph) (options : GraphOptions) (members : List Hash) : Prop :=
  ∃ left ∈ members, ∃ right ∈ members,
    graph.Concurrent left right ∧ pairAction options graph left right = .ok .swap

theorem HashGraph.MaySwap.all {members : List Hash} (may : graph.MaySwap options members) :
    graph.MaySwap options graph.hashes := by
  rcases may with ⟨left, _, right, _, concurrent, isSwap⟩
  have answered := isSwap
  unfold pairAction at answered
  split at answered
  case h_1 leftFound rightFound =>
    exact ⟨left, getVertex_isSome_iff.mp (leftFound ▸ rfl), right,
      getVertex_isSome_iff.mp (rightFound ▸ rfl), concurrent, isSwap⟩
  case h_2 => cases answered

theorem HashGraph.Interval.swapless {origin : Hash} {members order : List Hash}
    (interval : graph.Interval origin members) (wellFormed : graph.WellFormed)
    (causalOrder : graph.CausalOrder origin members order)
    (noSwap : ¬graph.MaySwap options members) :
    Swapless (pairAction options graph) (build graph order) members := by
  intro left leftMem right rightMem different unrelated isSwap
  have concurrent := interval.concurrent wellFormed causalOrder leftMem rightMem different unrelated
  exact noSwap ⟨left, leftMem, right, rightMem, concurrent, isSwap⟩

theorem pairAction_eq_nop {left right : Hash}
    (plain : options.hasCustomConflictResolver
      ((graph.getVertex left).bind (·.drpType)) = false) :
    pairAction options graph left right = .ok .nop := by
  unfold pairAction
  split
  case h_1 leftVertex rightVertex found _ =>
    rw [found, Option.bind_some] at plain
    rw [GraphOptions.resolveConflicts_of_plain plain]
    rfl
  case h_2 => rfl

theorem pairOrder_eq_loop (fuel : ℕ) (origin : Hash) (order : List Hash) :
    pairOrder options graph fuel origin order =
      PairScan.loop (pairAction options graph) fuel origin order.length
        (build graph order) (slots order) := by
  unfold pairOrder
  split
  · rfl
  · rename_i notNeeded
    rw [loop_inert]
    intro hash mem notOrigin other
    exact pairAction_eq_nop (plain_of_not_needed notNeeded hash mem notOrigin)

section

variable {past whole subgraph order rest : List Hash} {origin : Hash}
  (barrier : graph.CausalBarrier past whole origin subgraph) (wellFormed : graph.WellFormed)
  (pastOrder : graph.CausalOrder rootHash past order)
  (wholeOrder : graph.CausalOrder rootHash whole (order ++ rest))
include barrier wellFormed pastOrder wholeOrder

theorem HashGraph.CausalBarrier.loop_rest (fuel : ℕ) {final : LegacyCausalityMatrix}
    (sameRows : SameRows rest (build graph (order ++ rest)) final) :
    PairScan.loop (pairAction options graph) fuel rootHash rest.length final (slots rest) =
      pairOrder options graph fuel origin (origin :: rest) := by
  rw [pairOrder_eq_loop, loop_origin]
  apply loop_congr (fun _ _ _ _ _ => rfl)
  · exact fun hash => barrier.eq_origin_iff_of_mem_rest pastOrder wholeOrder
  · exact (List.nodup_append.mp wholeOrder.nodup).2.1
  · refine ⟨fun hash mem => ?_, fun hash mem => ?_, fun _ _ _ inNil => absurd inNil List.not_mem_nil⟩
    · exact indexByHash_build_isSome.mpr (.tail _ mem)
    · rw [sameRows.index]
      exact indexByHash_build_isSome.mpr (List.mem_append_right _ mem)
  · intro row rowMem column columnMem _
    rw [sameRows.bit row rowMem column]
    exact barrier.bit_rest wellFormed pastOrder wholeOrder rowMem columnMem

theorem HashGraph.CausalBarrier.pairOrder_append {heads : List Hash}
    (isHead : ∀ hash ∈ past, hash ∉ heads → ∃ later ∈ past, graph.Precedes hash later)
    (settle : graph.MaySwap options past →
      SwapsSettle (pairAction options graph) heads (past.filter (· ≠ rootHash)))
    (fuel : ℕ) : pairOrder options graph fuel rootHash (order ++ rest) = (do
      let kept ← pairOrder options graph fuel rootHash order
      let behind ← pairOrder options graph fuel origin (origin :: rest)
      return kept ++ behind) := by
  have tailRun : ∀ final, SameRows rest (build graph (order ++ rest)) final →
      PairScan.loop (pairAction options graph) fuel rootHash rest.length final
        (slots rest) = pairOrder options graph fuel origin (origin :: rest) :=
    fun _ sameRows => barrier.loop_rest wellFormed pastOrder wholeOrder fuel sameRows
  obtain ⟨members, rfl⟩ := pastOrder.head
  have rootless := List.nodup_cons.mp pastOrder.nodup
  have memberOf : ∀ hash ∈ members, hash ∈ rootHash :: members := fun hash mem =>
    List.mem_cons_of_mem _ mem
  have settle : Swapless (pairAction options graph)
        (build graph (rootHash :: members))
        (past.filter (· ≠ rootHash)) ∨
      SwapsSettle (pairAction options graph) heads (past.filter (· ≠ rootHash)) := by
    refine (Classical.em (graph.MaySwap options past)).symm.imp (fun noSwap => ?_) settle
    have swapless := (barrier.pastClosed.interval wellFormed).swapless wellFormed pastOrder noSwap
    exact fun left leftMem right rightMem => swapless left (List.mem_of_mem_filter leftMem) right
      (List.mem_of_mem_filter rightMem)
  -- Both scans skip the root.
  rw [pairOrder_eq_loop, pairOrder_eq_loop _ _ (rootHash :: members), List.cons_append,
    loop_origin, loop_origin, List.length_append, slots_append]
  apply loop_append settle (fun _ _ _ _ _ => rfl)
  · intro slot mem inPast
    exact ((pastOrder.mem_rest wholeOrder).mp (hash_mem_of_mem_slots mem)).2
      (List.mem_filter.mp inPast).1
  · exact fun _ _ => Iff.rfl
  · rw [map_hash_slots]
    exact tailRun
  · exact length_slots _
  · rw [map_hash_slots]
    exact rootless.2
  · intro slot mem
    have hashMem := hash_mem_of_mem_slots mem
    refine List.mem_filter.mpr ⟨(pastOrder.mem _).mp (memberOf _ hashMem), ?_⟩
    have notRoot : slot.hash ≠ rootHash := fun isRoot => rootless.1 (isRoot ▸ hashMem)
    simpa using notRoot
  · rw [map_hash_slots, map_hash_slots]
    refine ⟨fun hash mem => ?_, fun hash mem => ?_, fun hash mem later laterMem => ?_⟩
    · exact indexByHash_build_isSome.mpr (memberOf hash mem)
    · exact indexByHash_build_isSome.mpr
        (List.mem_append_left _ (memberOf hash mem))
    · exact barrier.bit_behind wellFormed pastOrder wholeOrder laterMem (memberOf hash mem)
  · rw [map_hash_slots]
    intro row rowMem column columnMem plain
    refine barrier.bit_past wellFormed pastOrder wholeOrder (memberOf row rowMem)
      (memberOf column columnMem) (plain.imp id ?_)
    exact isHead column ((pastOrder.mem column).mp (memberOf column columnMem))
  · exact .refl _ _

end

theorem pairOrder_congr {other : HashGraph} {order : List Hash} (nodup : order.Nodup)
    (same : ∀ hash ∈ order, graph.getVertex hash = other.getVertex hash) (fuel : ℕ)
    (origin : Hash) :
    pairOrder options graph fuel origin order = pairOrder options other fuel origin order := by
  have sameBuild : build graph order = build other order :=
    build_congr fun hash mem => by
      rw [dependenciesOf, dependenciesOf, same hash mem]
  rw [pairOrder_eq_loop, pairOrder_eq_loop, sameBuild]
  apply loop_congr
  · intro left leftMem right rightMem _
    rw [pairAction, pairAction, same left leftMem, same right rightMem]
  · exact fun _ _ => Iff.rfl
  · exact nodup
  · refine ⟨fun hash mem => ?_, fun hash mem => ?_, fun _ _ _ inNil => absurd inNil List.not_mem_nil⟩
    · exact indexByHash_build_isSome.mpr mem
    · exact indexByHash_build_isSome.mpr mem
  · exact fun _ _ _ _ _ => rfl

end PairOrder

end TsDrp
