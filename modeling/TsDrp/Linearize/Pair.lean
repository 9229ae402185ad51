import TsDrp.Linearize.Causality

/-!
# Linearization with pair semantics

The scan takes the entries of the topological order one after the other as
anchors and asks the resolver about every later entry that is neither dropped
nor related to the anchor.  The array is cut at the anchor: what lies before it
is never read again, and `later` holds the positions after it.
-/

namespace TsDrp

/-- A position of the order with its flag in `dropped`. -/
structure Slot where
  hash : Hash
  dropped : Bool
deriving DecidableEq

/-- The resolver's answer; a pair with an absent vertex is passed over like `Nop`. -/
def pairAction (options : GraphOptions) (graph : HashGraph) (left right : Hash) :
    Except JsError ActionType :=
  match graph.getVertex left, graph.getVertex right with
  | some leftVertex, some rightVertex =>
    (options.resolveConflicts [leftVertex, rightVertex]).map (·.action)
  | _, _ => .ok .nop

namespace PairScan

def slots (order : List Hash) : List Slot := order.map fun hash => { hash, dropped := false }

@[simp]
theorem map_hash_slots (order : List Hash) : (slots order).map (·.hash) = order := by
  rw [slots, List.map_map]
  exact List.map_id _

@[simp]
theorem length_slots (order : List Hash) : (slots order).length = order.length := List.length_map _

theorem slots_append (first second : List Hash) :
    slots (first ++ second) = slots first ++ slots second := List.map_append

theorem hash_mem_of_mem_slots {order : List Hash} {slot : Slot} (mem : slot ∈ slots order) :
    slot.hash ∈ order := by
  rw [← map_hash_slots order]
  exact List.mem_map_of_mem mem

inductive Sweep where
  /-- The end of the order, or the anchor was dropped. -/
  | finished (dropped : Bool) (later : List Slot)
  /-- The anchor has taken the place of `moving`, which becomes the anchor. -/
  | swapped (moving : Hash) (later : List Slot)

def Sweep.cons (slot : Slot) : Sweep → Sweep
  | .finished dropped later => .finished dropped (slot :: later)
  | .swapped moving later => .swapped moving (slot :: later)

/-- The loop over `j` up to its end or to the next `Swap`. -/
def sweep (action : Hash → Hash → Except JsError ActionType) (causality : LegacyCausalityMatrix)
    (anchor : Hash) : List Slot → Except JsError Sweep
  | [] => .ok (.finished false [])
  | slot :: rest =>
    if slot.dropped || causality.areRelated anchor slot.hash then
      (sweep action causality anchor rest).map (Sweep.cons slot)
    else
      action anchor slot.hash >>= fun answer =>
        match answer with
        | .dropLeft => .ok (.finished true (slot :: rest))
        | .dropRight =>
          (sweep action causality anchor rest).map (Sweep.cons { slot with dropped := true })
        | .swap => .ok (.swapped slot.hash ({ hash := anchor, dropped := false } :: rest))
        | .nop | .drop => (sweep action causality anchor rest).map (Sweep.cons slot)

/-- The entry at position `i` when the loop over `j` is over, and what follows it. -/
structure Anchored where
  anchor : Hash
  dropped : Bool
  later : List Slot
  causality : LegacyCausalityMatrix

/--
The loop over `j` for one anchor.  The fuel bounds the number of `Swap`s, each
of which starts the loop again at the second position after the anchor.
-/
def scanAnchor (action : Hash → Hash → Except JsError ActionType) (fuel : ℕ)
    (causality : LegacyCausalityMatrix) (anchor : Hash) (seen later : List Slot) :
    Except JsError Anchored :=
  sweep action causality anchor later >>= fun outcome =>
    match outcome with
    | .finished dropped later => .ok { anchor, dropped, later := seen ++ later, causality }
    | .swapped moving later =>
      match fuel with
      | 0 => .error .diverges
      | fuel + 1 =>
        -- `j = i + 1`, and the loop's own `j++` passes over that position.
        scanAnchor action fuel (causality.swapReachablePredecessors anchor moving) moving
          ((seen ++ later).take 1) ((seen ++ later).drop 1)

/-- The loop over `i`, with the number of positions left. -/
def loop (action : Hash → Hash → Except JsError ActionType) (fuel : ℕ) (origin : Hash) :
    ℕ → LegacyCausalityMatrix → List Slot → Except JsError (List Hash)
  | 0, _, _ => .ok []
  | _ + 1, _, [] => .ok []
  | count + 1, causality, slot :: later =>
    if slot.hash = origin ∨ slot.dropped then
      loop action fuel origin count causality later
    else do
      let scanned ← scanAnchor action fuel causality slot.hash [] later
      let rest ← loop action fuel origin count scanned.causality scanned.later
      return if scanned.dropped then rest else scanned.anchor :: rest

section Spec

variable {action : Hash → Hash → Except JsError ActionType} {causality : LegacyCausalityMatrix}

theorem sweep_cases {anchor : Hash} {later : List Slot} {outcome : Sweep}
    (swept : sweep action causality anchor later = .ok outcome) :
    (∃ dropped later', outcome = .finished dropped later' ∧
        later'.map (·.hash) = later.map (·.hash)) ∨
      ∃ moving later' before after, outcome = .swapped moving later' ∧
        later.map (·.hash) = before ++ moving :: after ∧
        later'.map (·.hash) = before ++ anchor :: after ∧
        action anchor moving = .ok .swap ∧ causality.areRelated anchor moving = false := by
  induction later generalizing outcome with
  | nil =>
    cases swept
    exact Or.inl ⟨false, [], rfl, rfl⟩
  | cons slot rest ih =>
    -- All branches but two put a slot with the same hash in front of the rest's sweep.
    have passed : ∀ slot' : Slot, slot'.hash = slot.hash →
        (sweep action causality anchor rest).map (Sweep.cons slot') = .ok outcome →
        (∃ dropped later', outcome = .finished dropped later' ∧
            later'.map (·.hash) = (slot :: rest).map (·.hash)) ∨
          ∃ moving later' before after, outcome = .swapped moving later' ∧
            (slot :: rest).map (·.hash) = before ++ moving :: after ∧
            later'.map (·.hash) = before ++ anchor :: after ∧
            action anchor moving = .ok .swap ∧ causality.areRelated anchor moving = false := by
      intro slot' sameHash swept
      obtain ⟨inner, innerSwept, rfl⟩ := Outcome.map_eq_ok.mp swept
      rcases ih innerSwept with ⟨dropped, later', rfl, same⟩ |
        ⟨moving, later', before, after, rfl, split, moved, isSwap⟩
      · exact Or.inl ⟨dropped, slot' :: later', rfl, by simp [sameHash, same]⟩
      · exact Or.inr ⟨moving, slot' :: later', slot.hash :: before, after, rfl,
          by simp [split], by simp [sameHash, moved], isSwap⟩
    rw [sweep] at swept
    by_cases skipped : slot.dropped || causality.areRelated anchor slot.hash
    · rw [if_pos skipped] at swept
      exact passed slot rfl swept
    · rw [if_neg skipped] at swept
      obtain ⟨answer, answered, swept⟩ := Outcome.bind_eq_ok.mp swept
      cases answer with
      | nop => exact passed slot rfl swept
      | dropLeft =>
        cases swept
        exact Or.inl ⟨true, slot :: rest, rfl, rfl⟩
      | dropRight => exact passed { slot with dropped := true } rfl swept
      | swap =>
        cases swept
        have compared := (Bool.or_eq_false_iff.mp (Bool.not_eq_true _ ▸ skipped)).2
        exact Or.inr ⟨slot.hash, _, [], rest.map (·.hash), rfl, rfl, rfl, answered, compared⟩
      | drop => exact passed slot rfl swept

section

variable {fuel : ℕ} {anchor : Hash} {seen later : List Slot} {scanned : Anchored}
  (run : scanAnchor action fuel causality anchor seen later = .ok scanned)
include run

theorem scanAnchor_perm : (scanned.anchor :: scanned.later.map (·.hash)).Perm
      (anchor :: (seen ++ later).map (·.hash)) := by
  induction fuel using Nat.strong_induction_on generalizing causality anchor seen later with
  | _ fuel ih =>
    rw [scanAnchor] at run
    obtain ⟨outcome, swept, run⟩ := Outcome.bind_eq_ok.mp run
    rcases sweep_cases swept with ⟨dropped, later', rfl, same⟩ |
      ⟨moving, later', before, after, rfl, split, moved, _⟩
    · cases run
      simp [same]
    · cases fuel with
      | zero => cases run
      | succ fuel =>
        refine (ih fuel fuel.lt_succ_self run).trans ?_
        rw [List.take_append_drop, List.map_append, List.map_append, split, moved,
          ← List.append_assoc, ← List.append_assoc]
        exact (List.perm_middle.cons _).trans
          ((List.Perm.swap _ _ _).trans (List.perm_middle.symm.cons _))

theorem scanAnchor_length : scanned.later.length = (seen ++ later).length := by
  simpa using (scanAnchor_perm run).length_eq

end

theorem loop_subperm {fuel count : ℕ} {origin : Hash} {slots : List Slot} {kept : List Hash}
    (run : loop action fuel origin count causality slots = .ok kept) :
    kept.Subperm (slots.map (·.hash)) := by
  induction count generalizing causality slots kept with
  | zero =>
    cases run
    exact List.nil_subperm
  | succ count ih =>
    cases slots with
    | nil =>
      cases run
      exact List.nil_subperm
    | cons slot later =>
      rw [loop] at run
      split at run
      · exact (ih run).cons_right _
      · obtain ⟨scanned, scan, run⟩ := Outcome.bind_eq_ok.mp run
        obtain ⟨rest, restRun, run⟩ := Outcome.bind_eq_ok.mp run
        have perm := scanAnchor_perm scan
        have below := ih restRun
        rw [List.nil_append] at perm
        cases run
        refine List.Subperm.trans ?_ perm.subperm
        split
        · exact below.cons_right _
        · exact (List.subperm_cons _).mpr below

end Spec

end PairScan

def needsConflictResolution (options : GraphOptions) (graph : HashGraph) (origin : Hash)
    (order : List Hash) : Bool :=
  order.any fun hash =>
    decide (hash ≠ origin) &&
      options.hasCustomConflictResolver ((graph.getVertex hash).bind (·.drpType))

theorem plain_of_not_needed {options : GraphOptions} {graph : HashGraph} {origin : Hash}
    {order : List Hash} (notNeeded : ¬needsConflictResolution options graph origin order = true) :
    ∀ hash ∈ order, hash ≠ origin →
      options.hasCustomConflictResolver ((graph.getVertex hash).bind (·.drpType)) = false := by
  simpa [needsConflictResolution] using notNeeded

def pairOrder (options : GraphOptions) (graph : HashGraph) (fuel : ℕ) (origin : Hash)
    (order : List Hash) : Except JsError (List Hash) :=
  if needsConflictResolution options graph origin order then
    PairScan.loop (pairAction options graph) fuel origin order.length
      (LegacyCausalityMatrix.build graph order) (PairScan.slots order)
  else
    .ok (order.filter (· ≠ origin))

def linearizePairSemantics (options : GraphOptions) (graph : HashGraph) (fuel : ℕ) (origin : Hash)
    (subgraph : List Hash) : Except JsError (List Vertex) := do
  let order ← graph.dfsTopologicalSortIterative origin subgraph
  let result ← pairOrder options graph fuel origin order
  return result.filterMap graph.getVertex

end TsDrp
