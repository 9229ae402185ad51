import TsDrp.Linearize.PairSplit

/-!
# Linearization with multiple semantics

Here the resolver sees an anchor, the entry at `j` and every later entry
unrelated to all of them, and may drop any of them by hash.  Positions are
remembered in a map that lives through the whole scan.  After `Drop` the loop
stays at the same `j`, and any action other than `Drop` and `Nop` repeats the
same turn for ever.
-/

namespace TsDrp

open HashGraph LegacyCausalityMatrix Outcome

/-- A position of the order with its index and its flag in `dropped`. -/
structure IndexedSlot where
  index : ℕ
  hash : Hash
  dropped : Bool
deriving DecidableEq

/-- The resolver's answer; every hash of an order is present. -/
def multipleAction (options : GraphOptions) (graph : HashGraph) (hashes : List Hash) :
    Except JsError ResolveConflictsType :=
  options.resolveConflicts (hashes.filterMap graph.getVertex)

namespace MultipleScan

/-- The order with nothing dropped, counted from `start`. -/
def slotsFrom (start : ℕ) (order : List Hash) : List IndexedSlot :=
  (order.zipIdx start).map fun entry => { index := entry.2, hash := entry.1, dropped := false }

/-- The loop over `k`. -/
def gather (causality : LegacyCausalityMatrix) (concurrentOps : List IndexedSlot) :
    List IndexedSlot → List IndexedSlot
  | [] => concurrentOps
  | slot :: rest =>
    if slot.dropped || concurrentOps.any fun operation =>
        causality.areRelated operation.hash slot.hash then
      gather causality concurrentOps rest
    else
      gather causality (concurrentOps ++ [slot]) rest

/-- `indices.set(hash, index)` for every operation. -/
def register (indices : Hash → Option ℕ) (concurrentOps : List IndexedSlot) : Hash → Option ℕ :=
  concurrentOps.foldl
    (fun indices slot => Function.update indices slot.hash (some slot.index)) indices

/-- How the loop over `j` goes on until it stops advancing. -/
inductive Round where
  | finished (indices : Hash → Option ℕ)
  | stopped (indices : Hash → Option ℕ) (answer : ResolveConflictsType)
      (passed todo : List IndexedSlot)

def Round.cons (slot : IndexedSlot) : Round → Round
  | .finished indices => .finished indices
  | .stopped indices answer passed todo => .stopped indices answer (slot :: passed) todo

/-- The loop over `j` as long as it moves on. -/
def advance (resolve : List Hash → Except JsError ResolveConflictsType)
    (causality : LegacyCausalityMatrix) (anchor : IndexedSlot) :
    (Hash → Option ℕ) → List IndexedSlot → Except JsError Round
  | indices, [] => .ok (.finished indices)
  | indices, slot :: rest =>
    if causality.areRelated anchor.hash slot.hash || slot.dropped then
      (advance resolve causality anchor indices rest).map (Round.cons slot)
    else
      let concurrentOps := gather causality [anchor, slot] rest
      resolve (concurrentOps.map (·.hash)) >>= fun answer =>
        match answer.action with
        | .nop =>
          (advance resolve causality anchor (register indices concurrentOps) rest).map
            (Round.cons slot)
        | _ => .ok (.stopped (register indices concurrentOps) answer [] (slot :: rest))

def droppedBy (answer : ResolveConflictsType) : List Hash :=
  match answer.action with
  | .drop => answer.vertices
  | _ => []

/-- `dropped[indices.get(hash) || -1] = true`, which has no effect at index `0`. -/
def mark (indices : Hash → Option ℕ) (hashes : List Hash) (slot : IndexedSlot) : IndexedSlot :=
  { slot with
    dropped := slot.dropped ||
      (decide (slot.index ≠ 0) && hashes.any fun hash => indices hash = some slot.index) }

structure Anchored where
  dropped : Bool
  later : List IndexedSlot
  indices : Hash → Option ℕ

/-- The loop over `j`; the fuel bounds the turns that do not advance. -/
def scanAnchor (resolve : List Hash → Except JsError ResolveConflictsType)
    (causality : LegacyCausalityMatrix) (fuel : ℕ) (anchor : IndexedSlot)
    (indices : Hash → Option ℕ) (seen todo : List IndexedSlot) : Except JsError Anchored :=
  advance resolve causality anchor indices todo >>= fun round =>
    match round with
    | .finished indices => .ok { dropped := anchor.dropped, later := seen ++ todo, indices }
    | .stopped indices answer passed todo =>
      let marked := mark indices (droppedBy answer)
      if (marked anchor).dropped then
        .ok { dropped := true, later := (seen ++ passed ++ todo).map marked, indices }
      else
        match fuel with
        | 0 => .error .diverges
        | fuel + 1 =>
          scanAnchor resolve causality fuel (marked anchor) indices
            ((seen ++ passed).map marked) (todo.map marked)

/-- The loop over `i`, with the number of positions left. -/
def loop (resolve : List Hash → Except JsError ResolveConflictsType)
    (causality : LegacyCausalityMatrix) (fuel : ℕ) (origin : Hash) :
    ℕ → (Hash → Option ℕ) → List IndexedSlot → Except JsError (List Hash)
  | 0, _, _ => .ok []
  | _ + 1, _, [] => .ok []
  | count + 1, indices, slot :: later =>
    if slot.hash = origin ∨ slot.dropped then
      loop resolve causality fuel origin count indices later
    else do
      let scanned ← scanAnchor resolve causality fuel slot indices [] later
      let rest ← loop resolve causality fuel origin count scanned.indices scanned.later
      return if scanned.dropped then rest else slot.hash :: rest

end MultipleScan

def multipleOrder (options : GraphOptions) (graph : HashGraph) (fuel : ℕ) (origin : Hash)
    (order : List Hash) : Except JsError (List Hash) :=
  if needsConflictResolution options graph origin order then
    MultipleScan.loop (multipleAction options graph) (build graph order) fuel
      origin order.length (fun _ => none) (MultipleScan.slotsFrom 0 order)
  else
    .ok (order.filter (· ≠ origin))

def linearizeMultipleSemantics (options : GraphOptions) (graph : HashGraph) (fuel : ℕ)
    (origin : Hash) (subgraph : List Hash) : Except JsError (List Vertex) := do
  let order ← graph.dfsTopologicalSortIterative origin subgraph
  let result ← multipleOrder options graph fuel origin order
  return result.filterMap graph.getVertex

namespace MultipleScan

section Simulation

variable {resolve resolve' : List Hash → Except JsError ResolveConflictsType}
  {causality causality' : LegacyCausalityMatrix}

/-- The slot of the same hash in an array that starts `offset` positions earlier. -/
def shift (offset : ℕ) (slot : IndexedSlot) : IndexedSlot :=
  { slot with index := slot.index + offset }

/-- The second map knows what the first knows, at shifted positions, and nothing of the tail. -/
structure Indexed (offset bound : ℕ) (indices indices' : Hash → Option ℕ) : Prop where
  shifted : ∀ hash index, index ≠ 0 → (indices' hash = some (index + offset) ↔ indices hash = some index)
  bounded : ∀ hash index, indices' hash = some index → index < bound

/-- The matrices agree on the members, all of which the tail is related to. -/
structure Agree (members tail : List Hash) (causality causality' : LegacyCausalityMatrix) :
    Prop where
  related : ∀ left ∈ members, ∀ right ∈ members, left ≠ right →
    causality.areRelated left right = causality'.areRelated left right
  behind : ∀ hash ∈ members, ∀ later ∈ tail, causality'.areRelated hash later = true

structure Setting (resolve resolve' : List Hash → Except JsError ResolveConflictsType)
    (members : List Hash) (tail : List IndexedSlot) (bound : ℕ)
    (causality causality' : LegacyCausalityMatrix) : Prop where
  sameResolve : ∀ hashes, (∀ hash ∈ hashes, hash ∈ members) → resolve hashes = resolve' hashes
  agree : Agree members (tail.map (·.hash)) causality causality'
  tailBound : ∀ slot ∈ tail, bound ≤ slot.index

/-- Slots of members at positions that the tail does not reach. -/
def Inside (members : List Hash) (offset bound : ℕ) (slots : List IndexedSlot) : Prop :=
  ∀ slot ∈ slots, slot.hash ∈ members ∧ slot.index ≠ 0 ∧ slot.index + offset < bound

section

variable {offset bound : ℕ} {indices indices' : Hash → Option ℕ}
  (indexed : Indexed offset bound indices indices')
include indexed

theorem Indexed.update {slot : IndexedSlot} (inBound : slot.index + offset < bound) :
    Indexed offset bound (Function.update indices slot.hash (some slot.index))
      (Function.update indices' slot.hash (some (slot.index + offset))) where
  shifted := by
    intro hash index positive
    by_cases same : hash = slot.hash
    · simp [same]
    · rw [Function.update_of_ne same, Function.update_of_ne same]
      exact indexed.shifted hash index positive
  bounded := by
    intro hash index found
    by_cases same : hash = slot.hash
    · rw [same, Function.update_self, Option.some.injEq] at found
      omega
    · rw [Function.update_of_ne same] at found
      exact indexed.bounded hash index found

theorem Indexed.register {members : List Hash} {operations : List IndexedSlot}
    (inside : Inside members offset bound operations) :
    Indexed offset bound (register indices operations)
      (register indices' (operations.map (shift offset))) := by
  induction operations generalizing indices indices' with
  | nil => exact indexed
  | cons slot rest ih =>
    exact ih (indexed.update (inside slot List.mem_cons_self).2.2)
      fun slot mem => inside slot (.tail _ mem)

end

variable {members : List Hash} {tail : List IndexedSlot} {offset bound : ℕ}

theorem gather_behind {operation : IndexedSlot} {operations : List IndexedSlot}
    (behind : ∀ slot ∈ tail, causality'.areRelated operation.hash slot.hash = true) :
    gather causality' (operation :: operations) tail = operation :: operations := by
  induction tail with
  | nil => rfl
  | cons slot rest ih =>
    rw [gather, if_pos, ih fun slot mem => behind slot (.tail _ mem)]
    simp [behind slot List.mem_cons_self]

theorem gather_shift (agree : Agree members (tail.map (·.hash)) causality causality')
    {operation : IndexedSlot} {operations todo : List IndexedSlot}
    (inside : ∀ slot ∈ operation :: operations ++ todo, slot.hash ∈ members)
    (nodup : ((operation :: operations ++ todo).map (·.hash)).Nodup) :
    gather causality' ((operation :: operations).map (shift offset))
        (todo.map (shift offset) ++ tail) =
      (gather causality (operation :: operations) todo).map (shift offset) := by
  induction todo generalizing operations with
  | nil =>
    refine gather_behind fun slot mem => agree.behind _ ?_ _ (List.mem_map_of_mem mem)
    exact inside operation (by simp)
  | cons slot rest ih =>
    have slotMem : slot.hash ∈ members := inside slot (by simp)
    have sameAny : ((operation :: operations).map (shift offset)).any
          (fun operation => causality'.areRelated operation.hash slot.hash) =
        (operation :: operations).any
          fun operation => causality.areRelated operation.hash slot.hash := by
      rw [List.any_map, Bool.eq_iff_iff, List.any_eq_true, List.any_eq_true]
      refine exists_congr fun found => and_congr_right fun mem => ?_
      have different : found.hash ≠ slot.hash := by
        rw [List.map_append, List.nodup_append] at nodup
        exact nodup.2.2 _ (List.mem_map_of_mem mem) _ (by simp)
      rw [agree.related _ (inside found (List.mem_append_left _ mem)) _ slotMem different]
      rfl
    change gather causality' ((operation :: operations).map (shift offset))
      (shift offset slot :: (rest.map (shift offset) ++ tail)) = _
    rw [gather, gather]
    have sameTest : ((shift offset slot).dropped ||
          ((operation :: operations).map (shift offset)).any
            fun operation => causality'.areRelated operation.hash (shift offset slot).hash) =
        (slot.dropped || (operation :: operations).any
          fun operation => causality.areRelated operation.hash slot.hash) :=
      congrArg (slot.dropped || ·) sameAny
    rw [sameTest]
    split
    · refine ih (fun found mem => inside found ?_) ?_
      · exact List.mem_append.mpr ((List.mem_append.mp mem).imp_right (.tail _))
      · refine nodup.sublist (List.Sublist.map _ ?_)
        exact (List.sublist_cons_self _ _).append_left _
    · have shape : (operation :: operations).map (shift offset) ++ [shift offset slot] =
          (operation :: (operations ++ [slot])).map (shift offset) := by simp
      rw [shape, List.cons_append]
      refine ih (fun found mem => inside found ?_) ?_
      · simpa using mem
      · simpa using nodup

inductive RoundsMatch (tail : List IndexedSlot) (offset bound : ℕ)
    (slots : List IndexedSlot) : Round → Round → Prop where
  | finished {indices indices'} (indexed : Indexed offset bound indices indices') :
      RoundsMatch tail offset bound slots (.finished indices) (.finished indices')
  | stopped {indices indices' answer passed todo} (indexed : Indexed offset bound indices indices')
      (split : passed ++ todo = slots) :
      RoundsMatch tail offset bound slots (.stopped indices answer passed todo)
        (.stopped indices' answer (passed.map (shift offset)) (todo.map (shift offset) ++ tail))

theorem RoundsMatch.cons {slots : List IndexedSlot} {round round' : Round} (slot : IndexedSlot)
    (rounds : RoundsMatch tail offset bound slots round round') :
    RoundsMatch tail offset bound (slot :: slots) (round.cons slot)
      (round'.cons (shift offset slot)) := by
  cases rounds with
  | finished indexed => exact .finished indexed
  | stopped indexed split => exact .stopped indexed (by simp [split])

theorem advance_behind {anchor : IndexedSlot} {indices : Hash → Option ℕ}
    (behind : ∀ slot ∈ tail, causality'.areRelated anchor.hash slot.hash = true) :
    advance resolve' causality' anchor indices tail = .ok (.finished indices) := by
  induction tail with
  | nil => rfl
  | cons slot rest ih =>
    rw [advance, if_pos, ih fun slot mem => behind slot (.tail _ mem)]
    · rfl
    · simp [behind slot List.mem_cons_self]

theorem mem_gather {operations todo : List IndexedSlot} {slot : IndexedSlot}
    (mem : slot ∈ gather causality operations todo) : slot ∈ operations ++ todo := by
  induction todo generalizing operations with
  | nil => simpa [gather] using mem
  | cons head rest ih =>
    rw [gather] at mem
    split at mem
    · exact List.mem_append.mpr ((List.mem_append.mp (ih mem)).imp_right (.tail _))
    · simpa using ih mem

theorem gather_cons (operation : IndexedSlot) (operations todo : List IndexedSlot) :
    ∃ more, gather causality (operation :: operations) todo = operation :: more := by
  induction todo generalizing operations with
  | nil => exact ⟨operations, rfl⟩
  | cons slot rest ih =>
    rw [gather]
    split
    · exact ih operations
    · exact ih (operations ++ [slot])

@[simp]
theorem map_hash_shift (offset : ℕ) (slots : List IndexedSlot) :
    (slots.map (shift offset)).map (·.hash) = slots.map (·.hash) := by
  rw [List.map_map]
  rfl

theorem advance_match
    (setting : Setting resolve resolve' members tail bound causality causality')
    {anchor : IndexedSlot} {todo : List IndexedSlot} {indices indices' : Hash → Option ℕ}
    (inside : Inside members offset bound (anchor :: todo))
    (nodup : ((anchor :: todo).map (·.hash)).Nodup)
    (indexed : Indexed offset bound indices indices') :
    Outcome.Related (RoundsMatch tail offset bound todo)
      (advance resolve causality anchor indices todo)
      (advance resolve' causality' (shift offset anchor) indices'
        (todo.map (shift offset) ++ tail)) := by
  have anchorMem := (inside anchor List.mem_cons_self).1
  induction todo generalizing indices indices' with
  | nil =>
    have behind : ∀ slot ∈ tail, causality'.areRelated (shift offset anchor).hash slot.hash = true :=
      fun slot mem => setting.agree.behind _ anchorMem _ (List.mem_map_of_mem mem)
    rw [List.map_nil, List.nil_append, advance_behind behind]
    exact .ok (.finished indexed)
  | cons slot rest ih =>
    have slotMem := (inside slot (by simp)).1
    have different : anchor.hash ≠ slot.hash := by
      simp only [List.map_cons, List.nodup_cons, List.mem_cons, not_or] at nodup
      exact nodup.1.1
    have restInside : Inside members offset bound (anchor :: rest) := fun found mem =>
      inside found (List.mem_cons.mpr ((List.mem_cons.mp mem).imp_right (.tail _)))
    have restNodup : ((anchor :: rest).map (·.hash)).Nodup := by
      refine nodup.sublist (List.Sublist.map _ ?_)
      exact (List.sublist_cons_self _ _).cons_cons _
    have passed : ∀ {indices indices'}, Indexed offset bound indices indices' →
        Outcome.Related (RoundsMatch tail offset bound (slot :: rest))
          ((advance resolve causality anchor indices rest).map (Round.cons slot))
          ((advance resolve' causality' (shift offset anchor) indices'
            (rest.map (shift offset) ++ tail)).map (Round.cons (shift offset slot))) :=
      fun indexed => (ih restInside restNodup indexed).map fun _ _ rounds => rounds.cons slot
    change Outcome.Related _ _ (advance resolve' causality' (shift offset anchor) indices'
      (shift offset slot :: (rest.map (shift offset) ++ tail)))
    have sameTest : (causality'.areRelated (shift offset anchor).hash (shift offset slot).hash ||
        (shift offset slot).dropped) =
        (causality.areRelated anchor.hash slot.hash || slot.dropped) := by
      rw [setting.agree.related _ anchorMem _ slotMem different]
      rfl
    rw [advance, advance, sameTest]
    split
    · exact passed indexed
    · have gathered : gather causality' [shift offset anchor, shift offset slot]
            (rest.map (shift offset) ++ tail) =
          (gather causality [anchor, slot] rest).map (shift offset) :=
        @gather_shift _ _ _ _ offset setting.agree anchor [slot] rest
          (fun found mem => (inside found mem).1) nodup
      have gatheredInside : Inside members offset bound (gather causality [anchor, slot] rest) :=
        fun found mem => inside found (mem_gather mem)
      have registered := indexed.register gatheredInside
      have sameAnswer := setting.sameResolve ((gather causality [anchor, slot] rest).map (·.hash))
        (by
          intro hash mem
          obtain ⟨found, foundMem, rfl⟩ := List.mem_map.mp mem
          exact (gatheredInside found foundMem).1)
      simp only [gathered, map_hash_shift, ← sameAnswer]
      cases resolve ((gather causality [anchor, slot] rest).map (·.hash)) with
      | error error => exact .error error
      | ok answer =>
        simp only [ok_bind]
        cases action : answer.action with
        | nop => exact passed registered
        | dropLeft => exact .ok (.stopped registered rfl)
        | dropRight => exact .ok (.stopped registered rfl)
        | swap => exact .ok (.stopped registered rfl)
        | drop => exact .ok (.stopped registered rfl)

section

variable {indices indices' : Hash → Option ℕ} {slot : IndexedSlot}
  (indexed : Indexed offset bound indices indices') (hashes : List Hash)
include indexed hashes

theorem mark_shift (positive : slot.index ≠ 0) :
    mark indices' hashes (shift offset slot) = shift offset (mark indices hashes slot) := by
  simp [mark, shift, indexed.shifted _ _ positive, positive]

theorem mark_tail (beyond : bound ≤ slot.index) : mark indices' hashes slot = slot := by
  have unknown : hashes.any (fun hash => indices' hash = some slot.index) = false := by
    rw [List.any_eq_false]
    intro hash _ found
    have below := indexed.bounded hash slot.index (by simpa using found)
    omega
  simp [mark, unknown]

end

@[simp]
theorem mark_hash (indices : Hash → Option ℕ) (hashes : List Hash) (slot : IndexedSlot) :
    (mark indices hashes slot).hash = slot.hash := rfl

@[simp]
theorem mark_index (indices : Hash → Option ℕ) (hashes : List Hash) (slot : IndexedSlot) :
    (mark indices hashes slot).index = slot.index := rfl

section

variable {indices indices' : Hash → Option ℕ} (indexed : Indexed offset bound indices indices')
  (hashes : List Hash)
include indexed hashes

theorem map_mark_shift {slots : List IndexedSlot} (inside : Inside members offset bound slots) :
    (slots.map (shift offset)).map (mark indices' hashes) =
      (slots.map (mark indices hashes)).map (shift offset) := by
  rw [List.map_map, List.map_map]
  exact List.map_congr_left fun slot mem => mark_shift indexed hashes (inside slot mem).2.1

theorem map_mark_tail (beyond : ∀ slot ∈ tail, bound ≤ slot.index) :
    tail.map (mark indices' hashes) = tail :=
  (List.map_congr_left fun slot mem => mark_tail indexed hashes (beyond slot mem)).trans
    (List.map_id _)

end

def key (slot : IndexedSlot) : ℕ × Hash := (slot.index, slot.hash)

theorem map_key_mark (indices : Hash → Option ℕ) (hashes : List Hash) (slots : List IndexedSlot) :
    (slots.map (mark indices hashes)).map key = slots.map key := by
  rw [List.map_map]
  rfl

theorem map_hash_of_map_key {slots slots' : List IndexedSlot}
    (same : slots.map key = slots'.map key) : slots.map (·.hash) = slots'.map (·.hash) := by
  have second := congrArg (List.map Prod.snd) same
  rwa [List.map_map, List.map_map] at second

theorem Inside.of_map_key {slots slots' : List IndexedSlot}
    (inside : Inside members offset bound slots) (same : slots'.map key = slots.map key) :
    Inside members offset bound slots' := by
  intro slot mem
  have keyMem : key slot ∈ slots.map key := same ▸ List.mem_map_of_mem mem
  obtain ⟨old, oldMem, sameKey⟩ := List.mem_map.mp keyMem
  obtain ⟨sameIndex, sameHash⟩ := Prod.mk.inj sameKey
  have held := inside old oldMem
  rwa [sameHash, sameIndex] at held

theorem advance_split {anchor : IndexedSlot} {indices indices' : Hash → Option ℕ}
    {todo passed rest : List IndexedSlot} {answer : ResolveConflictsType}
    (advanced : advance resolve causality anchor indices todo =
      .ok (.stopped indices' answer passed rest)) : passed ++ rest = todo := by
  induction todo generalizing indices passed with
  | nil => cases advanced
  | cons slot later ih =>
    have passedOn : ∀ {indices}, (advance resolve causality anchor indices later).map
        (Round.cons slot) = .ok (.stopped indices' answer passed rest) →
        passed ++ rest = slot :: later := by
      intro indices advanced
      obtain ⟨round, inner, isCons⟩ := map_eq_ok.mp advanced
      cases round with
      | finished => cases isCons
      | stopped =>
        cases isCons
        rw [List.cons_append, ih inner]
    rw [advance] at advanced
    split at advanced
    · exact passedOn advanced
    · obtain ⟨given, _, advanced⟩ := bind_eq_ok.mp advanced
      cases action : given.action <;> rw [action] at advanced
      case nop => exact passedOn advanced
      all_goals
        cases advanced
        rfl

theorem scanAnchor_key {fuel : ℕ} {anchor : IndexedSlot} {indices : Hash → Option ℕ}
    {seen todo : List IndexedSlot} {scanned : Anchored}
    (run : scanAnchor resolve causality fuel anchor indices seen todo = .ok scanned) :
    scanned.later.map key = (seen ++ todo).map key := by
  induction fuel using Nat.strong_induction_on generalizing anchor indices seen todo with
  | _ fuel ih =>
    rw [scanAnchor] at run
    obtain ⟨round, advanced, run⟩ := bind_eq_ok.mp run
    cases round with
    | finished =>
      cases run
      rfl
    | stopped indices answer passed rest =>
      simp only at run
      split at run
      · cases run
        rw [map_key_mark, List.append_assoc, advance_split advanced]
      · cases fuel with
        | zero => cases run
        | succ fuel =>
          rw [ih fuel fuel.lt_succ_self run, ← List.map_append, map_key_mark,
            List.append_assoc, advance_split advanced]

structure Matching (tail : List IndexedSlot) (offset bound : ℕ) (scanned scanned' : Anchored) :
    Prop where
  dropped : scanned'.dropped = scanned.dropped
  later : scanned'.later = scanned.later.map (shift offset) ++ tail
  indexed : Indexed offset bound scanned.indices scanned'.indices

theorem scanAnchor_match
    (setting : Setting resolve resolve' members tail bound causality causality') (fuel : ℕ)
    {anchor : IndexedSlot} {seen todo : List IndexedSlot} {indices indices' : Hash → Option ℕ}
    (inside : Inside members offset bound (anchor :: (seen ++ todo)))
    (nodup : ((anchor :: (seen ++ todo)).map (·.hash)).Nodup)
    (indexed : Indexed offset bound indices indices') :
    Outcome.Related (Matching tail offset bound)
      (scanAnchor resolve causality fuel anchor indices seen todo)
      (scanAnchor resolve' causality' fuel (shift offset anchor) indices' (seen.map (shift offset))
        (todo.map (shift offset) ++ tail)) := by
  induction fuel using Nat.strong_induction_on generalizing anchor seen todo indices indices' with
  | _ fuel ih =>
    have advanceInside : Inside members offset bound (anchor :: todo) := fun slot mem =>
      inside slot (List.mem_cons.mpr ((List.mem_cons.mp mem).imp_right (List.mem_append_right _)))
    have advanceNodup : ((anchor :: todo).map (·.hash)).Nodup :=
      nodup.sublist (((List.sublist_append_right _ _).cons_cons _).map _)
    rw [scanAnchor, scanAnchor]
    rcases (advance_match setting advanceInside advanceNodup indexed).cases with
      ⟨error, advanced, advanced'⟩ | ⟨round, round', advanced, advanced', rounds⟩
    · rw [advanced, advanced']
      exact .error error
    · rw [advanced, advanced']
      cases rounds with
      | finished indexed => exact .ok ⟨rfl, by simp, indexed⟩
      | @stopped indices indices' answer passed rest indexed split =>
        have wholeInside : Inside members offset bound (seen ++ passed ++ rest) := by
          rw [List.append_assoc, split]
          exact fun slot mem => inside slot (.tail _ mem)
        have markAnchor := mark_shift indexed (droppedBy answer)
          (inside anchor List.mem_cons_self).2.1
        simp only [ok_bind, markAnchor]
        change Outcome.Related _ (if (mark indices (droppedBy answer) anchor).dropped then _ else _)
          (if (mark indices (droppedBy answer) anchor).dropped then _ else _)
        split
        · refine .ok ⟨rfl, ?_, indexed⟩
          simp only
          rw [← List.append_assoc, ← List.map_append, ← List.map_append, List.map_append,
            map_mark_shift indexed _ wholeInside, map_mark_tail indexed _ setting.tailBound]
        · cases fuel with
          | zero => exact .error _
          | succ fuel =>
            have sameKeys : ((anchor :: (seen ++ passed ++ rest)).map
                (mark indices (droppedBy answer))).map key =
                (anchor :: (seen ++ todo)).map key := by
              rw [map_key_mark, List.append_assoc, split]
            have continued := @ih fuel fuel.lt_succ_self
              (mark indices (droppedBy answer) anchor)
              ((seen ++ passed).map (mark indices (droppedBy answer)))
              (rest.map (mark indices (droppedBy answer))) indices indices'
              (by
                rw [← List.map_append, ← List.map_cons]
                exact inside.of_map_key sameKeys)
              (by
                rw [← List.map_append, ← List.map_cons, map_hash_of_map_key sameKeys]
                exact nodup)
              indexed
            have seenInside : Inside members offset bound (seen ++ passed) := fun slot mem =>
              wholeInside slot (List.mem_append_left _ mem)
            have restInside : Inside members offset bound rest := fun slot mem =>
              wholeInside slot (List.mem_append_right _ mem)
            have restMarked : (rest.map (shift offset) ++ tail).map
                (mark indices' (droppedBy answer)) =
                (rest.map (mark indices (droppedBy answer))).map (shift offset) ++ tail := by
              rw [List.map_append, map_mark_shift indexed _ restInside,
                map_mark_tail indexed _ setting.tailBound]
            simp only
            rw [← List.map_append, map_mark_shift indexed _ seenInside, restMarked]
            exact continued

theorem loop_append (setting : Setting resolve resolve' members tail bound causality causality')
    {fuel tailCount : ℕ} {origin origin' : Hash}
    (sameOrigin : ∀ hash ∈ members, hash = origin ↔ hash = origin')
    {behind : Except JsError (List Hash)}
    (tailRun : ∀ indices', (∀ hash index, indices' hash = some index → index < bound) →
      loop resolve' causality' fuel origin' tailCount indices' tail = behind)
    {count : ℕ} {slots : List IndexedSlot} {indices indices' : Hash → Option ℕ}
    (length : slots.length = count) (inside : Inside members offset bound slots)
    (nodup : (slots.map (·.hash)).Nodup) (indexed : Indexed offset bound indices indices') :
    loop resolve' causality' fuel origin' (count + tailCount) indices'
        (slots.map (shift offset) ++ tail) = (do
      let kept ← loop resolve causality fuel origin count indices slots
      let rest ← behind
      return kept ++ rest) := by
  induction count generalizing slots indices indices' with
  | zero =>
    rw [List.length_eq_zero_iff.mp length, List.map_nil, List.nil_append, Nat.zero_add,
      tailRun indices' indexed.bounded]
    cases behind <;> rfl
  | succ count ih =>
    cases slots with
    | nil => simp at length
    | cons slot later =>
      have laterLength : later.length = count := by simpa using length
      have laterInside : Inside members offset bound later := fun found mem =>
        inside found (.tail _ mem)
      have skips : ((shift offset slot).hash = origin' ∨ (shift offset slot).dropped = true) ↔
          (slot.hash = origin ∨ slot.dropped = true) :=
        or_congr (sameOrigin _ (inside slot List.mem_cons_self).1).symm Iff.rfl
      rw [Nat.add_right_comm, List.map_cons, List.cons_append, loop, loop]
      by_cases skip : slot.hash = origin ∨ slot.dropped = true
      · rw [if_pos skip, if_pos (skips.mpr skip)]
        exact ih laterLength laterInside (List.nodup_cons.mp nodup).2 indexed
      · rw [if_neg skip, if_neg fun skip' => skip (skips.mp skip')]
        rcases (@scanAnchor_match _ _ _ _ _ _ offset _ setting fuel slot [] later _ _ inside nodup
          indexed).cases with ⟨error, scan, scan'⟩ | ⟨scanned, scanned', scan, scan', matching⟩
        · rw [List.map_nil] at scan'
          rw [scan, scan']
          rfl
        · rw [List.map_nil] at scan'
          have keys := scanAnchor_key scan
          rw [List.nil_append] at keys
          have rest := ih (by simpa [laterLength] using congrArg List.length keys)
            (laterInside.of_map_key keys)
            (by
              rw [map_hash_of_map_key keys]
              exact (List.nodup_cons.mp nodup).2)
            matching.indexed
          rw [scan, scan', ok_bind, ok_bind, matching.later, rest, matching.dropped]
          cases loop resolve causality fuel origin count scanned.indices scanned.later with
          | error error => rfl
          | ok kept =>
            cases behind with
            | error error => rfl
            | ok rest => cases scanned.dropped <;> rfl


@[simp]
theorem map_hash_slotsFrom (start : ℕ) (order : List Hash) :
    (slotsFrom start order).map (·.hash) = order := by
  rw [slotsFrom, List.map_map]
  exact List.zipIdx_map_fst start order

@[simp]
theorem length_slotsFrom (start : ℕ) (order : List Hash) :
    (slotsFrom start order).length = order.length := by
  simp [slotsFrom]

theorem slotsFrom_cons (start : ℕ) (hash : Hash) (order : List Hash) :
    slotsFrom start (hash :: order) =
      { index := start, hash, dropped := false } :: slotsFrom (start + 1) order := by
  simp [slotsFrom]

theorem slotsFrom_append (start : ℕ) (first second : List Hash) :
    slotsFrom start (first ++ second) =
      slotsFrom start first ++ slotsFrom (start + first.length) second := by
  simp [slotsFrom, List.zipIdx_append]

theorem map_shift_slotsFrom (start offset : ℕ) (order : List Hash) :
    (slotsFrom start order).map (shift offset) = slotsFrom (start + offset) order := by
  induction order generalizing start with
  | nil => rfl
  | cons hash rest ih =>
    rw [slotsFrom_cons, slotsFrom_cons, List.map_cons, ih, Nat.add_right_comm]
    rfl

theorem mem_slotsFrom {start : ℕ} {order : List Hash} {slot : IndexedSlot}
    (mem : slot ∈ slotsFrom start order) :
    slot.hash ∈ order ∧ start ≤ slot.index ∧ slot.index < start + order.length := by
  obtain ⟨entry, entryMem, rfl⟩ := List.mem_map.mp mem
  have bounds := List.mem_zipIdx entryMem
  exact ⟨List.fst_mem_of_mem_zipIdx entryMem, bounds.1, bounds.2.1⟩

theorem slotsFrom_inside {start : ℕ} {order : List Hash} (positive : start ≠ 0)
    (bounds : start + order.length + offset ≤ bound) :
    Inside order offset bound (slotsFrom start order) := by
  intro slot mem
  have facts := mem_slotsFrom mem
  exact ⟨facts.1, by omega, by omega⟩

theorem loop_shift {order : List Hash} {fuel start offset : ℕ} {origin origin' : Hash}
    (sameResolve : ∀ hashes, (∀ hash ∈ hashes, hash ∈ order) → resolve hashes = resolve' hashes)
    (related : ∀ left ∈ order, ∀ right ∈ order, left ≠ right →
      causality.areRelated left right = causality'.areRelated left right)
    (sameOrigin : ∀ hash ∈ order, hash = origin ↔ hash = origin') (nodup : order.Nodup)
    (positive : start ≠ 0) {indices' : Hash → Option ℕ}
    (unknown : ∀ hash index, indices' hash = some index → index ≤ offset) :
    loop resolve' causality' fuel origin' order.length indices' (slotsFrom (start + offset) order) =
      loop resolve causality fuel origin order.length (fun _ => none) (slotsFrom start order) := by
  have setting : Setting resolve resolve' order [] (start + order.length + offset) causality
      causality' :=
    ⟨sameResolve, ⟨related, fun _ _ _ inNil => absurd inNil List.not_mem_nil⟩,
      fun _ inNil => absurd inNil List.not_mem_nil⟩
  have indexed : Indexed offset (start + order.length + offset) (fun _ => none) indices' := by
    refine ⟨fun hash index notZero => ⟨fun found => ?_, fun found => by cases found⟩,
      fun hash index found => ?_⟩
    · have below := unknown hash _ found
      omega
    · have below := unknown hash index found
      omega
  have split : loop resolve' causality' fuel origin' (order.length + 0) indices'
        ((slotsFrom start order).map (shift offset) ++ []) = (do
      let kept ← loop resolve causality fuel origin order.length (fun _ => none)
        (slotsFrom start order)
      let rest ← .ok []
      return kept ++ rest) := by
    refine loop_append setting sameOrigin (fun _ _ => rfl) (length_slotsFrom _ _)
      (slotsFrom_inside positive le_rfl) ?_ indexed
    rwa [map_hash_slotsFrom]
  rw [List.append_nil, Nat.add_zero, map_shift_slotsFrom] at split
  rw [split]
  cases loop resolve causality fuel origin order.length (fun _ => none) (slotsFrom start order) <;>
    simp

theorem loop_origin (fuel : ℕ) (origin : Hash) (order : List Hash) :
    loop resolve causality fuel origin (origin :: order).length (fun _ => none)
        (slotsFrom 0 (origin :: order)) =
      loop resolve causality fuel origin order.length (fun _ => none) (slotsFrom 1 order) := by
  rw [List.length_cons, slotsFrom_cons, loop, if_pos (Or.inl rfl)]

theorem advance_inert {anchor : IndexedSlot}
    (inert : ∀ others, ∃ answer, resolve (anchor.hash :: others) = .ok answer ∧ answer.action = .nop)
    (indices : Hash → Option ℕ) (todo : List IndexedSlot) :
    ∃ indices', advance resolve causality anchor indices todo = .ok (.finished indices') := by
  induction todo generalizing indices with
  | nil => exact ⟨indices, rfl⟩
  | cons slot rest ih =>
    rw [advance]
    split
    · obtain ⟨indices', advanced⟩ := ih indices
      exact ⟨indices', by rw [advanced]; rfl⟩
    · obtain ⟨more, shape⟩ : ∃ more, gather causality [anchor, slot] rest = anchor :: more :=
        gather_cons _ _ _
      obtain ⟨answer, answered, isNop⟩ := inert (more.map (·.hash))
      obtain ⟨indices', advanced⟩ := ih (register indices (anchor :: more))
      refine ⟨indices', ?_⟩
      simp only [shape, List.map_cons, answered, ok_bind, isNop, advanced]
      rfl

theorem loop_inert {fuel start : ℕ} {origin : Hash} {order : List Hash}
    (inert : ∀ hash ∈ order, hash ≠ origin → ∀ others, ∃ answer,
      resolve (hash :: others) = .ok answer ∧ answer.action = .nop) (indices : Hash → Option ℕ) :
    loop resolve causality fuel origin order.length indices (slotsFrom start order) =
      .ok (order.filter (· ≠ origin)) := by
  induction order generalizing start indices with
  | nil => rfl
  | cons hash rest ih =>
    have continued := fun indices => @ih (start + 1) (fun hash mem => inert hash (.tail _ mem))
      indices
    rw [List.length_cons, slotsFrom_cons, loop]
    by_cases isOrigin : hash = origin
    · rw [if_pos (Or.inl isOrigin), continued]
      simp [isOrigin]
    · obtain ⟨indices', advanced⟩ := @advance_inert resolve causality
        { index := start, hash, dropped := false } (inert hash List.mem_cons_self isOrigin) indices
        (slotsFrom (start + 1) rest)
      rw [if_neg (by simp [isOrigin]), scanAnchor, advanced]
      simp [continued, isOrigin]

theorem loop_sublist {fuel count : ℕ} {origin : Hash} {slots : List IndexedSlot}
    {indices : Hash → Option ℕ} {kept : List Hash}
    (run : loop resolve causality fuel origin count indices slots = .ok kept) :
    kept.Sublist (slots.map (·.hash)) := by
  induction count generalizing slots indices kept with
  | zero =>
    cases run
    exact List.nil_sublist _
  | succ count ih =>
    cases slots with
    | nil =>
      cases run
      exact List.nil_sublist _
    | cons slot later =>
      rw [loop] at run
      split at run
      · exact (ih run).cons _
      · obtain ⟨scanned, scan, run⟩ := bind_eq_ok.mp run
        obtain ⟨rest, restRun, run⟩ := bind_eq_ok.mp run
        have below := ih restRun
        have keys := scanAnchor_key scan
        rw [List.nil_append] at keys
        rw [map_hash_of_map_key keys] at below
        cases run
        split
        · exact below.cons _
        · exact below.cons_cons _

end Simulation

end MultipleScan

section MultipleOrder

open MultipleScan

variable {options : GraphOptions} {graph : HashGraph}

theorem multipleAction_eq_nop {hash : Hash} (present : hash ∈ graph.hashes)
    (plain : options.hasCustomConflictResolver
      ((graph.getVertex hash).bind (·.drpType)) = false) (others : List Hash) :
    ∃ answer, multipleAction options graph (hash :: others) = .ok answer ∧
      answer.action = .nop := by
  obtain ⟨vertex, found⟩ := exists_getVertex present
  rw [found, Option.bind_some] at plain
  rw [multipleAction, List.filterMap_cons_some found]
  exact ⟨{ action := .nop }, GraphOptions.resolveConflicts_of_plain plain _, rfl⟩

theorem multipleOrder_eq_loop {order : List Hash} (present : ∀ hash ∈ order, hash ∈ graph.hashes)
    (fuel : ℕ) (origin : Hash) :
    multipleOrder options graph fuel origin order =
      MultipleScan.loop (multipleAction options graph) (build graph order) fuel
        origin order.length (fun _ => none) (slotsFrom 0 order) := by
  unfold multipleOrder
  split
  · rfl
  · rename_i notNeeded
    rw [MultipleScan.loop_inert]
    intro hash mem notOrigin
    exact multipleAction_eq_nop (present hash mem) (plain_of_not_needed notNeeded hash mem notOrigin)

theorem HashGraph.CausalBarrier.multipleOrder_append {past whole subgraph order rest : List Hash}
    {origin : Hash} (barrier : graph.CausalBarrier past whole origin subgraph)
    (wellFormed : graph.WellFormed)
    (pastOrder : graph.CausalOrder rootHash past order)
    (wholeOrder : graph.CausalOrder rootHash whole (order ++ rest)) (fuel : ℕ) :
    multipleOrder options graph fuel rootHash (order ++ rest) = (do
      let kept ← multipleOrder options graph fuel rootHash order
      let behind ← multipleOrder options graph fuel origin (origin :: rest)
      return kept ++ behind) := by
  have wholePresent : ∀ hash ∈ order ++ rest, hash ∈ graph.hashes := fun hash mem =>
    barrier.wholeClosed.present hash ((wholeOrder.mem hash).mp mem)
  have restPresent : ∀ hash ∈ origin :: rest, hash ∈ graph.hashes := by
    intro hash mem
    rcases List.mem_cons.mp mem with rfl | mem
    · exact barrier.pastClosed.present _ barrier.originMem
    · exact wholePresent hash (List.mem_append_right _ mem)
  rw [multipleOrder_eq_loop wholePresent,
    multipleOrder_eq_loop fun hash mem => wholePresent hash (List.mem_append_left _ mem),
    multipleOrder_eq_loop restPresent]
  obtain ⟨members, rfl⟩ := pastOrder.head
  have rootless := List.nodup_cons.mp pastOrder.nodup
  have memberOf : ∀ hash ∈ members, hash ∈ rootHash :: members := fun hash mem =>
    List.mem_cons_of_mem _ mem
  -- All scans skip their origin, which stands at index 0.
  rw [List.cons_append, loop_origin, loop_origin, loop_origin, List.length_append, slotsFrom_append]
  have setting : Setting (multipleAction options graph) (multipleAction options graph) members
      (slotsFrom (1 + members.length) rest) (1 + members.length)
      (build graph (rootHash :: members))
      (build graph (rootHash :: members ++ rest)) := by
    refine ⟨fun _ _ => rfl, ⟨fun left leftMem right rightMem different => ?_,
      fun hash mem later laterMem => ?_⟩, fun slot mem => (mem_slotsFrom mem).2.1⟩
    · unfold areRelated
      rw [barrier.bit_past wellFormed pastOrder wholeOrder (memberOf left leftMem)
          (memberOf right rightMem) (Or.inl different),
        barrier.bit_past wellFormed pastOrder wholeOrder (memberOf right rightMem)
          (memberOf left leftMem) (Or.inl different.symm)]
    · rw [map_hash_slotsFrom] at laterMem
      rw [areRelated,
        barrier.bit_behind wellFormed pastOrder wholeOrder laterMem (memberOf hash mem), Bool.or_true]
  have tailRun : ∀ indices' : Hash → Option ℕ,
      (∀ hash index, indices' hash = some index → index < 1 + members.length) →
      MultipleScan.loop (multipleAction options graph)
          (build graph (rootHash :: members ++ rest)) fuel
          rootHash rest.length indices' (slotsFrom (1 + members.length) rest) =
        MultipleScan.loop (multipleAction options graph)
          (build graph (origin :: rest)) fuel origin rest.length (fun _ => none)
          (slotsFrom 1 rest) := by
    intro indices' bounded
    refine loop_shift (fun _ _ => rfl) (fun left leftMem right rightMem _ => ?_)
      (fun hash => barrier.eq_origin_iff_of_mem_rest pastOrder wholeOrder)
      (List.nodup_append.mp wholeOrder.nodup).2.1 one_ne_zero
      (fun hash index found => by have below := bounded hash index found; omega)
    · unfold areRelated
      rw [barrier.bit_rest wellFormed pastOrder wholeOrder leftMem rightMem,
        barrier.bit_rest wellFormed pastOrder wholeOrder rightMem leftMem]
  have split := @MultipleScan.loop_append _ _ _ _ members _ 0 _ setting fuel rest.length
    rootHash rootHash (fun _ _ => Iff.rfl) _ tailRun members.length
    (slotsFrom 1 members) (fun _ => none) (fun _ => none) (length_slotsFrom _ _)
    (slotsFrom_inside one_ne_zero le_rfl)
    (by
      rw [map_hash_slotsFrom]
      exact rootless.2)
    ⟨by simp, by simp⟩
  rw [map_shift_slotsFrom] at split
  exact split

theorem multipleOrder_congr {other : HashGraph} {order : List Hash} {origin : Hash}
    (nodup : (origin :: order).Nodup)
    (present : ∀ hash ∈ origin :: order, hash ∈ graph.hashes)
    (same : ∀ hash ∈ origin :: order, graph.getVertex hash = other.getVertex hash) (fuel : ℕ) :
    multipleOrder options graph fuel origin (origin :: order) =
      multipleOrder options other fuel origin (origin :: order) := by
  have otherPresent : ∀ hash ∈ origin :: order, hash ∈ other.hashes := by
    intro hash mem
    rw [← getVertex_isSome_iff, ← same hash mem, getVertex_isSome_iff]
    exact present hash mem
  have sameBuild : build graph (origin :: order) =
      build other (origin :: order) :=
    build_congr fun hash mem => by
      rw [dependenciesOf, dependenciesOf, same hash mem]
  rw [multipleOrder_eq_loop present, multipleOrder_eq_loop otherPresent, sameBuild, loop_origin,
    loop_origin]
  refine @loop_shift _ _ _ _ order fuel 1 0 origin origin ?_ (fun _ _ _ _ _ => rfl)
    (fun _ _ => Iff.rfl) (List.nodup_cons.mp nodup).2 one_ne_zero (fun _ => none) (by simp)
  intro hashes members
  rw [multipleAction, multipleAction]
  congr 1
  exact List.filterMap_congr fun hash mem => (same hash (.tail _ (members hash mem))).symm

end MultipleOrder

end TsDrp
