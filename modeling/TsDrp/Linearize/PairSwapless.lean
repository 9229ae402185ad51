import TsDrp.Linearize.Vertices

/-!
# Which pairs the scan asks about

A scan in which nothing is moved leaves the causality matrix as it was built.
It then asks about concurrent vertices only, it needs no fuel, and it returns if
every answer does.  Once a swap has handed the row of a vertex to another one,
causally ordered vertices may be asked about too.
-/

namespace TsDrp

namespace PairScan

variable {action action' : Hash → Hash → Except JsError ActionType}
  {causality : LegacyCausalityMatrix} {members : List Hash}

theorem sweep_congr {anchor : Hash} {later : List Slot}
    (same : ∀ slot ∈ later, causality.areRelated anchor slot.hash = false →
      action anchor slot.hash = action' anchor slot.hash) :
    sweep action causality anchor later = sweep action' causality anchor later := by
  induction later with
  | nil => rfl
  | cons slot rest ih =>
    have continued := ih fun slot mem => same slot (.tail _ mem)
    rw [sweep, sweep, continued]
    by_cases skipped : slot.dropped || causality.areRelated anchor slot.hash
    · rw [if_pos skipped, if_pos skipped]
    · have unrelated := (Bool.or_eq_false_iff.mp (Bool.not_eq_true _ ▸ skipped)).2
      rw [if_neg skipped, if_neg skipped, same slot List.mem_cons_self unrelated]

theorem Swapless.loop_congr (swapless : Swapless action causality members)
    (same : ∀ left ∈ members, ∀ right ∈ members, left ≠ right →
      causality.areRelated left right = false → action left right = action' left right)
    {fuel fuel' count : ℕ} {origin : Hash} {slots : List Slot} (nodup : (slots.map (·.hash)).Nodup)
    (slotsMem : ∀ hash ∈ slots.map (·.hash), hash ∈ members) :
    loop action fuel origin count causality slots = loop action' fuel' origin count causality slots := by
  induction count generalizing slots with
  | zero => rfl
  | succ count ih =>
    cases slots with
    | nil => rfl
    | cons slot later =>
      rw [List.map_cons, List.nodup_cons] at nodup
      have slotMem := slotsMem slot.hash List.mem_cons_self
      have laterMem : ∀ hash ∈ later.map (·.hash), hash ∈ members :=
        fun hash mem => slotsMem hash (.tail _ mem)
      have sameSweep : sweep action causality slot.hash later =
          sweep action' causality slot.hash later := by
        apply sweep_congr
        intro other mem
        have hashMem := List.mem_map_of_mem (f := (·.hash)) mem
        refine same slot.hash slotMem other.hash (laterMem other.hash hashMem) ?_
        exact fun same => nodup.1 (same ▸ hashMem)
      rw [loop, loop, ih nodup.2 laterMem, scanAnchor, scanAnchor, ← sameSweep]
      cases swept : sweep action causality slot.hash later with
      | error error => rfl
      | ok outcome =>
        rcases swapless.sweep_finished slotMem laterMem nodup.1 swept with
          ⟨dropped, later', rfl, sameHashes⟩
        have continued := ih (sameHashes ▸ nodup.2) fun hash mem => laterMem hash (sameHashes ▸ mem)
        rw [Outcome.ok_bind, Outcome.ok_bind]
        dsimp only
        rw [Outcome.ok_bind, Outcome.ok_bind, List.nil_append, continued]

theorem exists_sweep {anchor : Hash} {later : List Slot}
    (answers : ∀ slot ∈ later, causality.areRelated anchor slot.hash = false →
      ∃ answer, action anchor slot.hash = .ok answer) :
    ∃ outcome, sweep action causality anchor later = .ok outcome := by
  induction later with
  | nil => exact ⟨_, rfl⟩
  | cons slot rest ih =>
    rcases ih fun slot mem => answers slot (.tail _ mem) with ⟨outcome, swept⟩
    rw [sweep, swept]
    by_cases skipped : slot.dropped || causality.areRelated anchor slot.hash
    · rw [if_pos skipped]
      exact ⟨_, rfl⟩
    · have unrelated := (Bool.or_eq_false_iff.mp (Bool.not_eq_true _ ▸ skipped)).2
      rcases answers slot List.mem_cons_self unrelated with ⟨answer, answered⟩
      rw [if_neg skipped, answered, Outcome.ok_bind]
      cases answer <;> exact ⟨_, rfl⟩

theorem Swapless.exists_loop (swapless : Swapless action causality members)
    (answers : ∀ left ∈ members, ∀ right ∈ members, left ≠ right →
      causality.areRelated left right = false → ∃ answer, action left right = .ok answer)
    {fuel count : ℕ} {origin : Hash} {slots : List Slot} (nodup : (slots.map (·.hash)).Nodup)
    (slotsMem : ∀ hash ∈ slots.map (·.hash), hash ∈ members) :
    ∃ kept, loop action fuel origin count causality slots = .ok kept := by
  induction count generalizing slots with
  | zero => exact ⟨_, rfl⟩
  | succ count ih =>
    cases slots with
    | nil => exact ⟨_, rfl⟩
    | cons slot later =>
      have slotMem := slotsMem slot.hash List.mem_cons_self
      have laterMem : ∀ hash ∈ later.map (·.hash), hash ∈ members :=
        fun hash mem => slotsMem hash (.tail _ mem)
      rw [List.map_cons, List.nodup_cons] at nodup
      rw [loop]
      split
      · exact ih nodup.2 laterMem
      · have returns : ∃ outcome, sweep action causality slot.hash later = .ok outcome := by
          apply exists_sweep
          intro other mem
          have hashMem := List.mem_map_of_mem (f := (·.hash)) mem
          apply answers slot.hash slotMem other.hash (laterMem other.hash hashMem)
          intro same
          exact nodup.1 (same ▸ hashMem)
        rcases returns with ⟨outcome, swept⟩
        rcases swapless.sweep_finished slotMem laterMem nodup.1 swept with
          ⟨dropped, later', rfl, sameHashes⟩
        rcases ih (sameHashes ▸ nodup.2) (fun hash mem => laterMem hash (sameHashes ▸ mem)) with
          ⟨rest, restRun⟩
        rw [scanAnchor, swept, Outcome.ok_bind]
        dsimp only
        rw [Outcome.ok_bind, List.nil_append, restRun]
        exact ⟨_, rfl⟩

end PairScan

namespace HashGraph

open PairScan LegacyCausalityMatrix

variable {options : GraphOptions} {graph : HashGraph} {left right : Hash}

/-- The pairs a scan may ask about: the concurrent ones, and all where a swap can happen. -/
def MayAsk (graph : HashGraph) (options : GraphOptions) (left right : Hash) : Prop :=
  graph.Concurrent left right ∨ left ≠ right ∧ graph.MaySwap options graph.hashes

theorem MayAsk.symm (may : graph.MayAsk options left right) : graph.MayAsk options right left :=
  may.imp (fun concurrent => ⟨concurrent.1.symm, concurrent.2.2, concurrent.2.1⟩)
    fun may => ⟨may.1.symm, may.2⟩

theorem not_mayAsk (noSwap : ∀ left ∈ graph.hashes, ∀ right ∈ graph.hashes,
      pairAction options graph left right ≠ .ok .swap)
    (related : left ∈ graph.dependenciesOf right ∨ right ∈ graph.dependenciesOf left) :
    ¬graph.MayAsk options left right := by
  rintro (⟨_, notBefore, notAfter⟩ | ⟨_, other, otherMem, another, anotherMem, _, isSwap⟩)
  · rcases related with before | after
    · exact notBefore (.single before)
    · exact notAfter (.single after)
  · exact noSwap other otherMem another anotherMem isSwap

open Classical in
/-- The answers about the pairs a scan may ask about, with `Nop` for all others. -/
noncomputable def heard (graph : HashGraph) (options : GraphOptions) (left right : Hash) :
    Except JsError ActionType :=
  if graph.MayAsk options left right then pairAction options graph left right else .ok .nop

theorem heard_of_mayAsk (may : graph.MayAsk options left right) :
    graph.heard options left right = pairAction options graph left right := if_pos may

theorem heard_ne {answer : ActionType} (notNop : answer ≠ .nop)
    (asked : graph.MayAsk options left right → pairAction options graph left right ≠ .ok answer) :
    graph.heard options left right ≠ .ok answer := by
  unfold heard
  split
  · rename_i may
    exact asked may
  · intro isNop
    exact notNop (Except.ok.inj isNop).symm

/-- A scan hears the answers about the pairs it may ask about, and no others. -/
theorem Interval.loop_heard {origin : Hash} {members order list : List Hash}
    (interval : graph.Interval origin members) (wellFormed : graph.WellFormed)
    (causalOrder : graph.CausalOrder origin members order) (nodup : list.Nodup)
    (subset : ∀ hash ∈ list, hash ∈ members) (fuel : ℕ) :
    loop (graph.heard options) fuel origin list.length (build graph order) (slots list) =
      loop (pairAction options graph) fuel origin list.length (build graph order) (slots list) := by
  by_cases may : graph.MaySwap options graph.hashes
  · apply loop_congr (fun left _ right _ different => (heard_of_mayAsk (Or.inr ⟨different, may⟩)).symm)
      (fun _ _ => Iff.rfl) nodup _ fun _ _ _ _ _ => rfl
    have indexed : ∀ hash ∈ list, ((build graph order).indexByHash hash).isSome :=
      fun hash mem => indexByHash_build_isSome.mpr ((causalOrder.mem hash).mpr (subset hash mem))
    exact ⟨indexed, indexed, fun _ _ _ inNil => absurd inNil List.not_mem_nil⟩
  · have swapless := interval.swapless wellFormed causalOrder (mt MaySwap.all may)
    refine (swapless.loop_congr ?_ (by simpa using nodup) (by simpa using subset)).symm
    intro left leftMem right rightMem different unrelated
    exact (heard_of_mayAsk (Or.inl (interval.concurrent wellFormed causalOrder leftMem rightMem
      different unrelated))).symm

end HashGraph

end TsDrp
