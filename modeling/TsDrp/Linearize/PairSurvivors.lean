import TsDrp.Library.Elimination
import TsDrp.Linearize.PairRestrict
import Mathlib.Data.List.Pairwise

/-!
# What a resolver that only drops leaves

Where every concurrent pair is answered `Nop`, `DropLeft` or `DropRight`, the
scan is an elimination along the topological order.  Its survivors are a part of
the order without conflicts, and every omitted vertex has been dropped for a
concurrent one.
-/

namespace TsDrp

def ActionType.DropsAtMost (answer : Except JsError ActionType) : Prop :=
  answer = .ok .nop ∨ answer = .ok .dropLeft ∨ answer = .ok .dropRight

namespace PairScan

open Elimination

variable {action : Hash → Hash → Except JsError ActionType} {causality : LegacyCausalityMatrix}

def verdictOf : ActionType → Verdict
  | .dropLeft => .loses
  | .dropRight => .wins
  | _ => .peace

/-- How the question about an anchor and a later entry ends, with peace among related entries. -/
def verdict (action : Hash → Hash → Except JsError ActionType) (causality : LegacyCausalityMatrix)
    (left right : Hash) : Verdict :=
  if causality.areRelated left right then .peace
  else
    match action left right with
    | .ok answer => verdictOf answer
    | .error _ => .peace

section

variable {left right : Hash}

theorem verdict_of_related (related : causality.areRelated left right = true) :
    verdict action causality left right = .peace := by
  rw [verdict, if_pos related]

theorem verdict_of_unrelated {answer : ActionType}
    (unrelated : causality.areRelated left right = false)
    (answered : action left right = .ok answer) :
    verdict action causality left right = verdictOf answer := by
  rw [verdict, if_neg (by simp [unrelated]), answered]

theorem of_verdict_ne_peace (quarrel : verdict action causality left right ≠ .peace) :
    causality.areRelated left right = false ∧ ∃ answer, action left right = .ok answer ∧
      verdict action causality left right = verdictOf answer := by
  cases related : causality.areRelated left right with
  | true => exact absurd (verdict_of_related related) quarrel
  | false =>
    cases answered : action left right with
    | error error => simp [verdict, related, answered] at quarrel
    | ok answer => exact ⟨rfl, answer, rfl, verdict_of_unrelated related answered⟩

theorem of_verdict_eq_loses (loses : verdict action causality left right = .loses) :
    causality.areRelated left right = false ∧ action left right = .ok .dropLeft := by
  rcases of_verdict_ne_peace (by rw [loses]; decide) with ⟨unrelated, answer, answered, same⟩
  rw [loses] at same
  cases answer with
  | dropLeft => exact ⟨unrelated, answered⟩
  | _ => cases same

theorem of_verdict_eq_wins (wins : verdict action causality left right = .wins) :
    causality.areRelated left right = false ∧ action left right = .ok .dropRight := by
  rcases of_verdict_ne_peace (by rw [wins]; decide) with ⟨unrelated, answer, answered, same⟩
  rw [wins] at same
  cases answer with
  | dropRight => exact ⟨unrelated, answered⟩
  | _ => cases same

theorem nop_of_verdict_eq_peace (peace : verdict action causality left right = .peace)
    (unrelated : causality.areRelated left right = false)
    (drops : ActionType.DropsAtMost (action left right)) : action left right = .ok .nop := by
  rcases drops with answered | answered | answered
  · exact answered
  · rw [verdict_of_unrelated unrelated answered] at peace
    cases peace
  · rw [verdict_of_unrelated unrelated answered] at peace
    cases peace

end

def alive (slots : List Slot) : List Hash := (slots.filter fun slot => !slot.dropped).map (·.hash)

theorem alive_cons_of_dropped {slot : Slot} (dropped : slot.dropped = true) (rest : List Slot) :
    alive (slot :: rest) = alive rest := by
  simp [alive, dropped]

theorem alive_cons_of_kept {slot : Slot} (kept : slot.dropped = false) (rest : List Slot) :
    alive (slot :: rest) = slot.hash :: alive rest := by
  simp [alive, kept]

theorem alive_slots (order : List Hash) : alive (slots order) = order := by
  induction order with
  | nil => rfl
  | cons hash rest ih =>
    rw [slots, List.map_cons, alive_cons_of_kept rfl]
    exact congrArg (hash :: ·) ih

theorem sweep_eq_challenge {anchor : Hash} {later : List Slot}
    (drops : ∀ slot ∈ later, causality.areRelated anchor slot.hash = false →
      ActionType.DropsAtMost (action anchor slot.hash)) :
    ∃ later', sweep action causality anchor later =
        .ok (.finished (challenge (verdict action causality) anchor (alive later)).1 later') ∧
      later'.map (·.hash) = later.map (·.hash) ∧
      alive later' = (challenge (verdict action causality) anchor (alive later)).2 := by
  induction later with
  | nil => exact ⟨[], rfl, rfl, rfl⟩
  | cons slot rest ih =>
    rcases ih fun slot mem => drops slot (.tail _ mem) with ⟨rest', swept, sameHashes, sameAlive⟩
    rw [sweep, swept]
    cases isDropped : slot.dropped with
    | true =>
      refine ⟨slot :: rest', ?_, by simp [sameHashes], ?_⟩
      · rw [alive_cons_of_dropped isDropped]
        rfl
      · rw [alive_cons_of_dropped isDropped, alive_cons_of_dropped isDropped, sameAlive]
    | false =>
      rw [alive_cons_of_kept isDropped, Bool.false_or]
      cases related : causality.areRelated anchor slot.hash with
      | true =>
        rw [challenge_of_peace (verdict_of_related related)]
        refine ⟨slot :: rest', rfl, by simp [sameHashes], ?_⟩
        rw [alive_cons_of_kept isDropped, sameAlive]
      | false =>
        rcases drops slot List.mem_cons_self related with answered | answered | answered
        · rw [challenge_of_peace (verdict_of_unrelated related answered), answered]
          refine ⟨slot :: rest', rfl, by simp [sameHashes], ?_⟩
          rw [alive_cons_of_kept isDropped, sameAlive]
        · rw [challenge_of_loses (verdict_of_unrelated related answered), answered]
          exact ⟨slot :: rest, rfl, rfl, alive_cons_of_kept isDropped rest⟩
        · rw [challenge_of_wins (verdict_of_unrelated related answered), answered]
          refine ⟨{ slot with dropped := true } :: rest', rfl, by simp [sameHashes], ?_⟩
          rw [alive_cons_of_dropped rfl, sameAlive]

/-- A scan that only drops keeps the survivors of the entries that are not dropped yet. -/
theorem loop_eq_survivors {members : List Hash} {origin : Hash}
    (drops : ∀ left ∈ members, ∀ right ∈ members, left ≠ right →
      causality.areRelated left right = false → ActionType.DropsAtMost (action left right))
    {fuel count : ℕ} {slots : List Slot} (nodup : (slots.map (·.hash)).Nodup)
    (slotsMem : ∀ hash ∈ slots.map (·.hash), hash ∈ members)
    (notOrigin : origin ∉ slots.map (·.hash)) (enough : slots.length ≤ count) :
    loop action fuel origin count causality slots =
      .ok (survivors (verdict action causality) (alive slots)) := by
  induction count generalizing slots with
  | zero =>
    rw [List.length_eq_zero_iff.mp (Nat.le_zero.mp enough)]
    simp [loop, alive]
  | succ count ih =>
    cases slots with
    | nil => simp [loop, alive]
    | cons slot later =>
      rw [List.map_cons, List.nodup_cons] at nodup
      rw [List.map_cons, List.mem_cons, not_or] at notOrigin
      have slotMem := slotsMem slot.hash List.mem_cons_self
      have laterMem : ∀ hash ∈ later.map (·.hash), hash ∈ members :=
        fun hash mem => slotsMem hash (.tail _ mem)
      have enough : later.length ≤ count := Nat.le_of_succ_le_succ enough
      rw [loop]
      cases isDropped : slot.dropped with
      | true =>
        rw [if_pos (Or.inr rfl), alive_cons_of_dropped isDropped]
        exact ih nodup.2 laterMem notOrigin.2 enough
      | false =>
        have swept : ∀ other ∈ later, causality.areRelated slot.hash other.hash = false →
            ActionType.DropsAtMost (action slot.hash other.hash) := by
          intro other mem
          have otherMem := List.mem_map_of_mem (f := (·.hash)) mem
          apply drops slot.hash slotMem other.hash (laterMem other.hash otherMem)
          intro same
          exact nodup.1 (same ▸ otherMem)
        rcases sweep_eq_challenge swept with ⟨later', swept, sameHashes, sameAlive⟩
        have length : later'.length = later.length := by
          simpa using congrArg List.length sameHashes
        have continued := @ih later' (sameHashes ▸ nodup.2) (sameHashes ▸ laterMem)
          (sameHashes ▸ notOrigin.2) (length ▸ enough)
        rw [if_neg (by simp [Ne.symm notOrigin.1]), alive_cons_of_kept isDropped, scanAnchor,
          swept, Outcome.ok_bind]
        dsimp only
        rw [Outcome.ok_bind, List.nil_append, continued, Outcome.ok_bind, sameAlive]
        cases goes : (challenge (verdict action causality) slot.hash (alive later)).1 with
        | true => rw [survivors_of_goes goes]; rfl
        | false => rw [survivors_of_stays goes]; rfl

end PairScan

namespace HashGraph

open PairScan LegacyCausalityMatrix Elimination

variable {options : GraphOptions} {graph : HashGraph} {origin : Hash} {members : List Hash}

/-- Every concurrent pair of the members is answered, and nothing is moved. -/
def OnlyDrops (options : GraphOptions) (graph : HashGraph) (members : List Hash) : Prop :=
  ∀ left ∈ members, ∀ right ∈ members, graph.Concurrent left right →
    ActionType.DropsAtMost (pairAction options graph left right)

/-- Whichever of the two comes first, the resolver drops the second argument for the first. -/
def DropsFor (options : GraphOptions) (graph : HashGraph) (winner loser : Hash) : Prop :=
  graph.Concurrent loser winner ∧
    (pairAction options graph loser winner = .ok .dropLeft ∨
      pairAction options graph winner loser = .ok .dropRight)

/--
What a scan has kept of an order: no conflict is left, and every omitted vertex
was dropped for one that conflicts with no survivor among its ancestors.
-/
structure Survivors (options : GraphOptions) (graph : HashGraph) (order kept : List Hash) : Prop where
  sublist : kept.Sublist order
  peaceful : kept.Pairwise fun earlier later => graph.Concurrent earlier later →
    pairAction options graph earlier later = .ok .nop
  omitted : ∀ hash ∈ order, hash ∉ kept → ∃ winner ∈ order, DropsFor options graph winner hash ∧
    ∀ survivor ∈ kept, graph.Precedes survivor hash → graph.Concurrent survivor winner →
      pairAction options graph survivor winner = .ok .nop ∨
        pairAction options graph winner survivor = .ok .nop

theorem Interval.ne_origin_of_concurrent (interval : graph.Interval origin members)
    {hash other : Hash} (otherMem : other ∈ members)
    (concurrent : graph.Concurrent hash other) : hash ≠ origin := by
  rintro rfl
  have reaches := interval.reachable other otherMem
  have path : graph.PrecedesEq hash other :=
    Relation.ReflTransGen.mono (fun _ _ edge => edge.1) _ _ reaches
  rcases Relation.reflTransGen_iff_eq_or_transGen.mp path with same | precedes
  · exact concurrent.1 same.symm
  · exact concurrent.2.1 precedes

theorem Survivors.nop_of_concurrent {order kept : List Hash}
    (survivors : Survivors options graph order kept) {left right : Hash} (leftKept : left ∈ kept)
    (rightKept : right ∈ kept) (concurrent : graph.Concurrent left right) :
    pairAction options graph left right = .ok .nop ∨ pairAction options graph right left = .ok .nop := by
  have quiet : kept.Pairwise fun first second => graph.Concurrent first second →
      pairAction options graph first second = .ok .nop ∨
        pairAction options graph second first = .ok .nop :=
    survivors.peaceful.imp fun answered concurrent => Or.inl (answered concurrent)
  have symmetric : Std.Symm fun first second => graph.Concurrent first second →
      pairAction options graph first second = .ok .nop ∨
        pairAction options graph second first = .ok .nop :=
    ⟨fun first second answered concurrent => (answered concurrent.symm).symm⟩
  exact quiet.forall leftKept rightKept concurrent.1 concurrent

section Elimination

variable {order : List Hash} (interval : graph.Interval origin members) (wellFormed : graph.WellFormed)
  (onlyDrops : OnlyDrops options graph members)
  (causalOrder : graph.CausalOrder origin members (origin :: order))

include interval wellFormed causalOrder

theorem Interval.unrelated {left right : Hash} (leftMem : left ∈ members) (rightMem : right ∈ members)
    (concurrent : graph.Concurrent left right) :
    (build graph (origin :: order)).areRelated left right = false := by
  rw [Bool.eq_false_iff]
  intro related
  rw [interval.areRelated_build wellFormed causalOrder leftMem rightMem concurrent.1] at related
  exact related.elim concurrent.2.1 concurrent.2.2

include onlyDrops

theorem Interval.nop_of_peace {left right : Hash} (leftMem : left ∈ members) (rightMem : right ∈ members)
    (concurrent : graph.Concurrent left right)
    (peace : verdict (pairAction options graph) (build graph (origin :: order)) left right = .peace) :
    pairAction options graph left right = .ok .nop := by
  apply nop_of_verdict_eq_peace peace
  · exact interval.unrelated wellFormed causalOrder leftMem rightMem concurrent
  · exact onlyDrops left leftMem right rightMem concurrent

theorem Interval.loop_eq_survivors (fuel : ℕ) :
    loop (pairAction options graph) fuel origin order.length (build graph (origin :: order))
        (slots order) =
      .ok (survivors (verdict (pairAction options graph) (build graph (origin :: order))) order) := by
  rcases List.nodup_cons.mp causalOrder.nodup with ⟨notOrigin, nodup⟩
  have orderMem : ∀ hash ∈ order, hash ∈ members :=
    fun hash mem => (causalOrder.mem hash).mp (.tail _ mem)
  rw [PairScan.loop_eq_survivors ?_ ?_ ?_ ?_ (length_slots order).le, alive_slots]
  · exact order
  · intro left leftMem right rightMem different isUnrelated
    apply onlyDrops left (orderMem left leftMem) right (orderMem right rightMem)
    exact interval.concurrent wellFormed causalOrder (orderMem left leftMem) (orderMem right rightMem)
      different isUnrelated
  · rwa [map_hash_slots]
  · rw [map_hash_slots]
    exact fun _ => id
  · rwa [map_hash_slots]

theorem Interval.survivors :
    Survivors options graph order
      (survivors (verdict (pairAction options graph) (build graph (origin :: order))) order) := by
  have orderMem : ∀ hash ∈ order, hash ∈ members :=
    fun hash mem => (causalOrder.mem hash).mp (.tail _ mem)
  have nodup := (List.nodup_cons.mp causalOrder.nodup).2
  have positions : order.Pairwise fun first second => order.idxOf first < order.idxOf second := by
    apply List.pairwise_iff_getElem.mpr
    intro first second _ _ isBefore
    rwa [nodup.idxOf_getElem, nodup.idxOf_getElem]
  have sublist := survivors_sublist
    (verdict (pairAction options graph) (build graph (origin :: order))) order
  refine ⟨sublist, List.Pairwise.imp_of_mem ?_ (survivors_pairwise _ _), ?_⟩
  · intro earlier later mem laterMem peace concurrent
    exact interval.nop_of_peace wellFormed onlyDrops causalOrder (orderMem _ (sublist.subset mem))
      (orderMem _ (sublist.subset laterMem)) concurrent peace
  · intro hash mem notKept
    rcases exists_defeats positions Nat.lt_asymm mem notKept with ⟨winner, winnerMem, defeats, peace⟩
    have drops : DropsFor options graph winner hash := by
      rcases defeats with ⟨isBefore, wins⟩ | ⟨isBefore, loses⟩
      · rcases of_verdict_eq_wins wins with ⟨isUnrelated, answered⟩
        refine ⟨.symm (interval.concurrent wellFormed causalOrder (orderMem _ winnerMem)
          (orderMem _ mem) ?_ isUnrelated), Or.inr answered⟩
        rintro rfl
        exact Nat.lt_irrefl _ isBefore
      · rcases of_verdict_eq_loses loses with ⟨isUnrelated, answered⟩
        refine ⟨interval.concurrent wellFormed causalOrder (orderMem _ mem) (orderMem _ winnerMem) ?_
          isUnrelated, Or.inl answered⟩
        rintro rfl
        exact Nat.lt_irrefl _ isBefore
    refine ⟨winner, winnerMem, drops, fun survivor kept precedes concurrent => ?_⟩
    have survivorMem := sublist.subset kept
    have isBefore := idxOf_lt_of_pairwise (List.pairwise_cons.mp causalOrder.ordered).2
      wellFormed.acyclic survivorMem mem precedes
    have atPeace := peace survivor kept isBefore concurrent.1
    rcases Nat.lt_or_gt_of_ne (mt (List.idxOf_inj survivorMem).mp concurrent.1) with first | second
    · exact Or.inl (interval.nop_of_peace wellFormed onlyDrops causalOrder (orderMem _ survivorMem)
        (orderMem _ winnerMem) concurrent (atPeace.1 first))
    · exact Or.inr (interval.nop_of_peace wellFormed onlyDrops causalOrder (orderMem _ winnerMem)
        (orderMem _ survivorMem) concurrent.symm (atPeace.2 second))

end Elimination

theorem Interval.exists_survivors (interval : graph.Interval origin members)
    (wellFormed : graph.WellFormed) (onlyDrops : OnlyDrops options graph members) (fuel : ℕ) :
    ∃ order kept, graph.dfsTopologicalSortIterative origin members = .ok (origin :: order) ∧
      graph.CausalOrder origin members (origin :: order) ∧
      linearizePairSemantics options graph fuel origin members =
        .ok (kept.filterMap graph.getVertex) ∧
      Survivors options graph order kept := by
  rcases interval.exists_dfs wellFormed with ⟨order, sorted, causalOrder⟩
  rcases causalOrder.head with ⟨order, shape⟩
  rw [shape] at sorted causalOrder
  refine ⟨order, _, sorted, causalOrder, ?_, interval.survivors wellFormed onlyDrops causalOrder⟩
  rw [linearizePairSemantics, sorted, Outcome.ok_bind, pairOrder_eq_loop, loop_origin,
    interval.loop_eq_survivors wellFormed onlyDrops causalOrder]
  rfl

end HashGraph

end TsDrp
