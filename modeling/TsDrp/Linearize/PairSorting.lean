import TsDrp.Linearize.PairCausal

/-!
# Sorting by swaps

On pairwise concurrent vertices a resolver that answers `Swap` where the second
vertex is smaller than the first sorts.  The scan of an anchor ends with a
minimal entry in the anchor's place.  After a swap the loop starts again at the
second position behind the anchor, and the entry that it passes over is not
smaller than the new anchor: it was compared with an anchor that is larger, or
it is that anchor.
-/

namespace TsDrp

namespace PairScan

variable {action : Hash → Hash → Except JsError ActionType} {smaller : Hash → Hash → Prop}
  [DecidableRel smaller] {members : List Hash} {causality : LegacyCausalityMatrix}

/-- The answer is `Swap` if the right entry is smaller than the left one, and `Nop` otherwise. -/
def Sorts (action : Hash → Hash → Except JsError ActionType) (smaller : Hash → Hash → Prop)
    [DecidableRel smaller] (members : List Hash) : Prop :=
  ∀ left ∈ members, ∀ right ∈ members,
    action left right = .ok (if smaller right left then .swap else .nop)

/-- A matrix with a row for every entry in which no entry is marked. -/
structure Unrelated (causality : LegacyCausalityMatrix) (members : List Hash) : Prop where
  found : ∀ hash ∈ members, (causality.indexByHash hash).isSome
  bit : ∀ row ∈ members, ∀ column ∈ members, causality.bit row column = false

section

variable {left right : Hash} (unrelated : Unrelated causality members) (leftMem : left ∈ members)
  (rightMem : right ∈ members)
include unrelated leftMem rightMem

theorem Unrelated.areRelated : causality.areRelated left right = false := by
  rw [LegacyCausalityMatrix.areRelated, unrelated.bit left leftMem right rightMem,
    unrelated.bit right rightMem left leftMem]
  rfl

theorem Unrelated.swap : Unrelated (causality.swapReachablePredecessors left right) members := by
  refine ⟨fun hash mem => ?_, fun row rowMem column columnMem => ?_⟩
  · rw [LegacyCausalityMatrix.indexByHash_swap]
    exact unrelated.found hash mem
  · rw [causality.bit_swap (unrelated.found left leftMem) (unrelated.found right rightMem)]
    apply unrelated.bit _ ?_ column columnMem
    rw [Equiv.swap_apply_def]
    split_ifs
    · exact rightMem
    · exact leftMem
    · exact rowMem

end

theorem Sorts.sweep_cases (sorts : Sorts action smaller members)
    (unrelated : Unrelated causality members) {anchor : Hash} (anchorMem : anchor ∈ members)
    {later : List Hash} (laterMem : ∀ hash ∈ later, hash ∈ members) :
    ((∀ hash ∈ later, ¬smaller hash anchor) ∧
        sweep action causality anchor (slots later) = .ok (.finished false (slots later))) ∨
      ∃ before moving after, later = before ++ moving :: after ∧ smaller moving anchor ∧
        (∀ hash ∈ before, ¬smaller hash anchor) ∧
        sweep action causality anchor (slots later) =
          .ok (.swapped moving (slots (before ++ anchor :: after))) := by
  induction later with
  | nil => exact Or.inl ⟨fun _ mem => absurd mem List.not_mem_nil, rfl⟩
  | cons hash rest ih =>
    have hashMem := laterMem hash List.mem_cons_self
    have answered := sorts anchor anchorMem hash hashMem
    have asked : sweep action causality anchor (slots (hash :: rest)) =
        if smaller hash anchor then .ok (.swapped hash (slots (anchor :: rest)))
        else (sweep action causality anchor (slots rest)).map
          (Sweep.cons { hash, dropped := false }) := by
      rw [slots, List.map_cons, sweep, unrelated.areRelated anchorMem hashMem, answered]
      by_cases isSmaller : smaller hash anchor
      · rw [if_pos isSmaller, if_pos isSmaller]
        rfl
      · rw [if_neg isSmaller, if_neg isSmaller]
        rfl
    rw [asked]
    by_cases isSmaller : smaller hash anchor
    · right
      refine ⟨[], hash, rest, rfl, isSmaller, fun _ mem => absurd mem List.not_mem_nil, ?_⟩
      rw [if_pos isSmaller]
      rfl
    · rw [if_neg isSmaller]
      rcases ih fun other mem => laterMem other (.tail _ mem) with ⟨minimal, swept⟩ |
        ⟨before, moving, after, rfl, movingSmaller, passed, swept⟩
      · left
        refine ⟨List.forall_mem_cons.mpr ⟨isSmaller, minimal⟩, ?_⟩
        rw [swept]
        rfl
      · right
        refine ⟨hash :: before, moving, after, rfl, movingSmaller,
          List.forall_mem_cons.mpr ⟨isSmaller, passed⟩, ?_⟩
        rw [swept]
        rfl

variable [IsStrictOrder Hash smaller]

theorem countP_lt_of_swap {anchor moving : Hash} {before after : List Hash}
    (isSmaller : smaller moving anchor) :
    (before ++ anchor :: after).countP (fun hash => smaller hash moving) <
      (before ++ moving :: after).countP fun hash => smaller hash anchor := by
  have fewer : ∀ hashes : List Hash, hashes.countP (fun hash => smaller hash moving) ≤
      hashes.countP fun hash => smaller hash anchor := by
    intro hashes
    apply List.countP_mono_left
    intro hash _ below
    simp only [decide_eq_true_eq] at below ⊢
    exact IsTrans.trans _ _ _ below isSmaller
  have notBelow : ¬smaller anchor moving := asymm isSmaller
  have first := fewer before
  have second := fewer after
  simp only [List.countP_append, List.countP_cons, notBelow, isSmaller, decide_true, decide_false,
    if_true, Bool.false_eq_true, if_false]
  omega

omit [DecidableRel smaller] in
theorem not_smaller_of_passed_over {anchor moving : Hash} {seen before after : List Hash}
    (isSmaller : smaller moving anchor) (passed : ∀ hash ∈ seen, ¬smaller hash anchor)
    (notSmaller : ∀ hash ∈ before, ¬smaller hash anchor) :
    ∀ hash ∈ (seen ++ (before ++ anchor :: after)).take 1, ¬smaller hash moving := by
  intro hash inHead
  have notBelow : ¬smaller hash anchor → ¬smaller hash moving :=
    fun notBelow below => notBelow (IsTrans.trans _ _ _ below isSmaller)
  cases seen with
  | cons first rest =>
    rw [List.cons_append, List.take_succ_cons, List.take_zero, List.mem_singleton] at inHead
    exact notBelow (passed hash (inHead ▸ List.mem_cons_self))
  | nil =>
    cases before with
    | cons first rest =>
      rw [List.nil_append, List.cons_append, List.take_succ_cons, List.take_zero,
        List.mem_singleton] at inHead
      exact notBelow (notSmaller hash (inHead ▸ List.mem_cons_self))
    | nil =>
      rw [List.nil_append, List.nil_append, List.take_succ_cons, List.take_zero,
        List.mem_singleton] at inHead
      exact inHead ▸ asymm isSmaller

/-- The scan of an anchor puts a minimal entry in its place. -/
theorem Sorts.exists_scanAnchor (sorts : Sorts action smaller members) {fuel : ℕ} {anchor : Hash}
    {seen later : List Hash} (unrelated : Unrelated causality members)
    (mem : ∀ hash ∈ anchor :: (seen ++ later), hash ∈ members)
    (passed : ∀ hash ∈ seen, ¬smaller hash anchor)
    (enough : (seen ++ later).countP (fun hash => smaller hash anchor) ≤ fuel) :
    ∃ least rest causality', scanAnchor action fuel causality anchor (slots seen) (slots later) =
        .ok { anchor := least, dropped := false, later := slots rest, causality := causality' } ∧
      (least :: rest).Perm (anchor :: (seen ++ later)) ∧ (∀ hash ∈ rest, ¬smaller hash least) ∧
      Unrelated causality' members := by
  induction fuel using Nat.strong_induction_on generalizing causality anchor seen later with
  | _ fuel ih =>
    have anchorMem := mem anchor List.mem_cons_self
    rcases sorts.sweep_cases unrelated anchorMem
      (fun hash inLater => mem hash (.tail _ (List.mem_append_right _ inLater))) with
      ⟨minimal, swept⟩ | ⟨before, moving, after, rfl, isSmaller, notSmaller, swept⟩
    · refine ⟨anchor, seen ++ later, causality, ?_, .refl _, ?_, unrelated⟩
      · rw [scanAnchor, swept, Outcome.ok_bind, slots_append]
      · intro hash inRest
        rcases List.mem_append.mp inRest with inSeen | inLater
        · exact passed hash inSeen
        · exact minimal hash inLater
    · have movingMem : moving ∈ members := mem moving (by simp)
      have fewer := @countP_lt_of_swap smaller _ _ _ _ (seen ++ before) after isSmaller
      rw [List.append_assoc, List.append_assoc] at fewer
      cases fuel with
      | zero => omega
      | succ fuel =>
        have perm : (moving :: (seen ++ (before ++ anchor :: after))).Perm
            (anchor :: (seen ++ (before ++ moving :: after))) := by
          rw [← List.append_assoc, ← List.append_assoc]
          exact (List.perm_middle.cons _).trans
            ((List.Perm.swap _ _ _).trans (List.perm_middle.symm.cons _))
        have split := List.take_append_drop 1 (seen ++ (before ++ anchor :: after))
        rcases @ih fuel fuel.lt_succ_self _ moving
          ((seen ++ (before ++ anchor :: after)).take 1)
          ((seen ++ (before ++ anchor :: after)).drop 1) (unrelated.swap anchorMem movingMem)
          (by
            rw [split]
            exact fun hash inList => mem hash (perm.subset inList))
          (not_smaller_of_passed_over isSmaller passed notSmaller) (by rw [split]; omega) with
          ⟨least, rest, causality', run, restPerm, minimal, unrelated'⟩
        refine ⟨least, rest, causality', ?_, (split ▸ restPerm).trans perm, minimal, unrelated'⟩
        rw [scanAnchor, swept, Outcome.ok_bind]
        dsimp only
        rw [← slots_append, ← run]
        simp [slots, List.map_take]

theorem Sorts.exists_loop (sorts : Sorts action smaller members) {fuel : ℕ} {origin : Hash}
    {order : List Hash} (unrelated : Unrelated causality members)
    (mem : ∀ hash ∈ order, hash ∈ members) (notOrigin : origin ∉ members)
    (enough : order.length ≤ fuel) :
    ∃ sorted, loop action fuel origin order.length causality (slots order) = .ok sorted ∧
      sorted.Perm order ∧ sorted.Pairwise fun earlier later => ¬smaller later earlier := by
  induction length : order.length generalizing order causality with
  | zero =>
    cases List.length_eq_zero_iff.mp length
    exact ⟨[], rfl, .refl _, .nil⟩
  | succ count ih =>
    cases order with
    | nil => cases length
    | cons hash rest =>
      have length : rest.length = count := Nat.succ.inj length
      have hashMem := mem hash List.mem_cons_self
      have notSkipped : ¬(hash = origin ∨ false = true) := by
        rintro (rfl | impossible)
        · exact notOrigin hashMem
        · cases impossible
      have bound : rest.countP (fun other => smaller other hash) ≤ fuel := by
        apply List.countP_le_length.trans
        rw [List.length_cons] at enough
        omega
      rcases @Sorts.exists_scanAnchor _ _ _ _ _ _ sorts fuel hash [] rest unrelated mem
        (fun _ inNil => absurd inNil List.not_mem_nil) bound with
        ⟨least, rest', causality', scanned, perm, minimal, unrelated'⟩
      have sameLength : rest'.length = rest.length := by simpa using perm.length_eq
      have enough : rest'.length ≤ fuel := by
        rw [List.length_cons] at enough
        omega
      rcases ih unrelated' (fun other inRest => mem other (perm.subset (.tail _ inRest))) enough
        (sameLength.trans length) with ⟨sorted, run, sortedPerm, ordered⟩
      refine ⟨least :: sorted, ?_, (sortedPerm.cons least).trans perm, ?_⟩
      · rw [slots, List.map_cons, loop, if_neg notSkipped]
        change (scanAnchor action fuel causality hash (slots []) (slots rest) >>= fun scanned => _) = _
        rw [scanned, Outcome.ok_bind, run]
        rfl
      · apply List.pairwise_cons.mpr
        exact ⟨fun other inSorted => minimal other (sortedPerm.subset inSorted), ordered⟩

end PairScan

namespace HashGraph

open PairScan LegacyCausalityMatrix

variable {options : GraphOptions} {graph : HashGraph} {origin : Hash} {members : List Hash}

/-- An origin and pairwise concurrent children of it. -/
structure Siblings (graph : HashGraph) (origin : Hash) (members : List Hash) : Prop where
  nodup : members.Nodup
  originMem : origin ∈ members
  child : ∀ hash ∈ members, hash ≠ origin → graph.Dependency origin hash
  concurrent : ∀ left ∈ members, ∀ right ∈ members, left ≠ origin → right ≠ origin → left ≠ right →
    graph.Concurrent left right

section

variable (siblings : graph.Siblings origin members) (wellFormed : graph.WellFormed)
include siblings wellFormed

theorem Siblings.not_precedes {earlier later : Hash} (mem : earlier ∈ members)
    (laterMem : later ∈ members) (notOrigin : earlier ≠ origin) :
    ¬graph.Precedes earlier later := by
  intro precedes
  by_cases same : earlier = later
  · exact wellFormed.acyclic earlier (same ▸ precedes)
  · by_cases isOrigin : later = origin
    · apply wellFormed.acyclic origin
      exact .head (siblings.child earlier mem notOrigin) (isOrigin ▸ precedes)
    · exact (siblings.concurrent earlier mem later laterMem notOrigin isOrigin same).2.1 precedes

theorem Siblings.interval : graph.Interval origin members := by
  refine ⟨siblings.nodup, siblings.originMem, fun hash mem => ?_, ?_⟩
  · by_cases isOrigin : hash = origin
    · exact isOrigin ▸ .refl
    · exact .single ⟨siblings.child hash mem isOrigin, mem⟩
  · intro earlier middle later mem laterMem upTo dependency
    have precedes : graph.Precedes earlier later := .tail' upTo dependency
    have isOrigin : earlier = origin := by
      by_contra notOrigin
      exact siblings.not_precedes wellFormed mem laterMem notOrigin precedes
    subst isOrigin
    -- What lies between the origin and its child is the origin: dependencies are an antichain.
    rcases Relation.reflTransGen_iff_eq_or_transGen.mp upTo with rfl | below
    · exact mem
    · have notOrigin : later ≠ earlier := by
        rintro rfl
        exact wellFormed.acyclic later precedes
      exact absurd below (wellFormed.antichain later _ (siblings.child later laterMem notOrigin) _
        dependency)

theorem Siblings.unrelated {order : List Hash}
    (causalOrder : graph.CausalOrder origin members (origin :: order)) :
    Unrelated (build graph (origin :: order)) order := by
  have causal := (siblings.interval wellFormed).causalList wellFormed causalOrder
  have orderMem : ∀ hash ∈ order, hash ∈ members ∧ hash ≠ origin := by
    intro hash mem
    refine ⟨(causalOrder.mem hash).mp (.tail _ mem), ?_⟩
    rintro rfl
    exact (List.nodup_cons.mp causalOrder.nodup).1 mem
  refine ⟨fun hash mem => indexByHash_build_isSome.mpr (.tail _ mem), ?_⟩
  intro row rowMem column columnMem
  rw [Bool.eq_false_iff]
  intro marked
  rcases (causal.bit_build (.tail _ rowMem) (.tail _ columnMem)).mp marked with precedes | ⟨_, child⟩
  · exact siblings.not_precedes wellFormed (orderMem column columnMem).1 (orderMem row rowMem).1
      (orderMem column columnMem).2 precedes
  · rcases child with ⟨child, childMem, dependency⟩
    exact siblings.not_precedes wellFormed (orderMem row rowMem).1 ((causalOrder.mem child).mp childMem)
      (orderMem row rowMem).2 (.single dependency)

theorem Siblings.exists_sorted {smaller : Hash → Hash → Prop} [DecidableRel smaller]
    [IsStrictOrder Hash smaller]
    (sorts : Sorts (pairAction options graph) smaller (members.filter (· ≠ origin))) {fuel : ℕ}
    (enough : members.length ≤ fuel) :
    ∃ vertices, linearizePairSemantics options graph fuel origin members = .ok vertices ∧
      (vertices.map (·.hash)).Perm (members.filter (· ≠ origin)) ∧
      vertices.Pairwise fun earlier later => ¬smaller later.hash earlier.hash := by
  have interval := siblings.interval wellFormed
  rcases interval.exists_dfs wellFormed with ⟨order, sorted, causalOrder⟩
  rcases causalOrder.head with ⟨order, shape⟩
  rw [shape] at sorted causalOrder
  rcases List.nodup_cons.mp causalOrder.nodup with ⟨notOrigin, nodup⟩
  have orderMem : ∀ hash, hash ∈ order ↔ hash ∈ members.filter (· ≠ origin) := by
    intro hash
    rw [List.mem_filter, ← causalOrder.mem hash, List.mem_cons, decide_eq_true_eq]
    constructor
    · intro mem
      refine ⟨Or.inr mem, ?_⟩
      rintro rfl
      exact notOrigin mem
    · exact fun mem => mem.1.resolve_left mem.2
  have perm : order.Perm (members.filter (· ≠ origin)) :=
    (List.perm_ext_iff_of_nodup nodup (siblings.nodup.filter _)).mpr orderMem
  have bound : order.length ≤ fuel := by
    rw [perm.length_eq]
    exact (List.length_filter_le _ _).trans enough
  have sortsOrder : Sorts (pairAction options graph) smaller order :=
    fun left leftMem right rightMem =>
      sorts left ((orderMem left).mp leftMem) right ((orderMem right).mp rightMem)
  rcases sortsOrder.exists_loop (siblings.unrelated wellFormed causalOrder) (fun _ => id) notOrigin
    bound with ⟨kept, run, keptPerm, ordered⟩
  have sameHashes := @map_hash_filterMap_getVertex graph kept fun hash mem => by
    rcases List.mem_filter.mp (perm.subset (keptPerm.subset mem)) with ⟨inMembers, notOrigin⟩
    exact interval.present inMembers (by simpa using notOrigin)
  refine ⟨kept.filterMap graph.getVertex, ?_, ?_, ?_⟩
  · rw [linearizePairSemantics, sorted, Outcome.ok_bind, pairOrder_eq_loop, loop_origin, run]
    rfl
  · rw [sameHashes]
    exact keptPerm.trans perm
  · rwa [← sameHashes, List.pairwise_map] at ordered

end

end HashGraph

namespace AddMulDRP

open HashGraph PairScan

variable {options : GraphOptions} {graph : HashGraph} {origin : Hash} {members : List Hash}

def calls (graph : HashGraph) (method : String) (hash : Hash) : Bool :=
  (graph.getVertex hash).any fun vertex => vertex.operation.any fun operation =>
    operation.opType = method

def Smaller (graph : HashGraph) (left right : Hash) : Prop :=
  calls graph "add" left = true ∧ calls graph "mul" right = true

instance (graph : HashGraph) : DecidableRel (Smaller graph) :=
  fun _ _ => inferInstanceAs (Decidable (_ ∧ _))

theorem not_add_and_mul (graph : HashGraph) (hash : Hash) :
    ¬(calls graph "add" hash = true ∧ calls graph "mul" hash = true) := by
  rintro ⟨isAdd, isMul⟩
  unfold calls at isAdd isMul
  cases found : graph.getVertex hash with
  | none => simp [found] at isAdd
  | some vertex =>
    cases isOperation : vertex.operation with
    | none => simp [found, isOperation] at isAdd
    | some operation =>
      simp only [found, isOperation, Option.any_some, decide_eq_true_eq] at isAdd isMul
      rw [isAdd] at isMul
      exact absurd isMul (by decide)

instance (graph : HashGraph) : IsStrictOrder Hash (Smaller graph) where
  irrefl hash := not_add_and_mul graph hash
  trans _ middle _ left right := absurd ⟨right.1, left.2⟩ (not_add_and_mul graph middle)

/-- A call of `add` or `mul`, under a hash that is a text with characters. -/
def IsCall (vertex : Vertex) : Prop :=
  vertex.hash ≠ "" ∧ ∃ operation, vertex.operation = some operation ∧ operation.drpType = "DRP" ∧
    (operation.opType = "add" ∨ operation.opType = "mul")

def OnlyCalls (graph : HashGraph) (origin : Hash) (members : List Hash) : Prop :=
  ∀ vertex ∈ graph.vertices, vertex.hash ∈ members → vertex.hash ≠ origin → IsCall vertex

theorem calls_eq {hash : Hash} {vertex : Vertex} {operation : Operation}
    (found : graph.getVertex hash = some vertex) (isOperation : vertex.operation = some operation)
    (method : String) : calls graph method hash = decide (operation.opType = method) := by
  simp [calls, found, isOperation]

theorem resolveConflicts_eq {left right : Vertex} {leftOperation rightOperation : Operation}
    (leftHash : left.hash ≠ "") (rightHash : right.hash ≠ "")
    (leftIs : left.operation = some leftOperation) (rightIs : right.operation = some rightOperation)
    (sameOperation : left.hash = right.hash → leftOperation = rightOperation) :
    resolveConflicts [left, right] =
      .ok { action := if rightOperation.opType = "add" ∧ leftOperation.opType = "mul" then .swap
        else .nop } := by
  by_cases same : left.hash = right.hash
  · have notBoth : ¬(rightOperation.opType = "add" ∧ leftOperation.opType = "mul") := by
      rw [sameOperation same]
      rintro ⟨isAdd, isMul⟩
      rw [isAdd] at isMul
      exact absurd isMul (by decide)
    simp [resolveConflicts, same, notBoth]
  · simp only [resolveConflicts, leftHash, rightHash, same, leftIs, rightIs, Option.map_some,
      Option.getD_some, or_self, if_false]
    by_cases swaps : rightOperation.opType = "add" ∧ leftOperation.opType = "mul"
    · rw [if_pos swaps, if_pos swaps.symm]
    · rw [if_neg swaps, if_neg (mt And.symm swaps)]

theorem OnlyCalls.sorts (onlyCalls : OnlyCalls graph origin members)
    (interval : graph.Interval origin members)
    (resolver : options.resolveConflictsDRP = some resolveConflicts) :
    Sorts (pairAction options graph) (Smaller graph) (members.filter (· ≠ origin)) := by
  have call : ∀ hash ∈ members.filter (· ≠ origin), ∃ vertex operation,
      graph.getVertex hash = some vertex ∧ vertex.hash ≠ "" ∧ vertex.operation = some operation ∧
      operation.drpType = "DRP" := by
    intro hash mem
    rcases List.mem_filter.mp mem with ⟨inMembers, notOrigin⟩
    have notOrigin : hash ≠ origin := by simpa using notOrigin
    rcases exists_getVertex (interval.present inMembers notOrigin) with ⟨vertex, found⟩
    cases getVertex_hash found
    rcases onlyCalls vertex (mem_of_getVertex found) inMembers notOrigin with
      ⟨nonempty, operation, isOperation, isDRP, _⟩
    exact ⟨vertex, operation, found, nonempty, isOperation, isDRP⟩
  intro left leftMem right rightMem
  rcases call left leftMem with ⟨leftVertex, leftOperation, leftFound, leftHash, leftIs, isDRP⟩
  rcases call right rightMem with ⟨rightVertex, rightOperation, rightFound, rightHash, rightIs, _⟩
  have notACL : leftVertex.drpType ≠ some "ACL" := by
    rw [Vertex.drpType, leftIs]
    change some leftOperation.drpType ≠ _
    rw [isDRP]
    decide
  have sameOperation : leftVertex.hash = rightVertex.hash → leftOperation = rightOperation := by
    intro same
    rw [getVertex_hash leftFound, getVertex_hash rightFound] at same
    subst same
    cases leftFound.symm.trans rightFound
    exact Option.some.inj (leftIs.symm.trans rightIs)
  simp only [pairAction, leftFound, rightFound, GraphOptions.resolveConflicts, notACL, if_false,
    resolver, Option.getD_some, resolveConflicts_eq leftHash rightHash leftIs rightIs sameOperation,
    Smaller, calls_eq leftFound leftIs, calls_eq rightFound rightIs, decide_eq_true_eq]
  rfl

theorem eq_filter_append_filter {first : Vertex → Bool} {vertices : List Vertex}
    (ordered : vertices.Pairwise fun earlier later => ¬(first later = true ∧ first earlier = false)) :
    vertices = vertices.filter first ++ vertices.filter fun vertex => !first vertex := by
  induction vertices with
  | nil => rfl
  | cons vertex rest ih =>
    rcases List.pairwise_cons.mp ordered with ⟨notBefore, restOrdered⟩
    cases isFirst : first vertex with
    | true =>
      rw [List.filter_cons_of_pos isFirst, List.filter_cons_of_neg (by simp [isFirst]),
        List.cons_append, ← ih restOrdered]
    | false =>
      have none : ∀ other ∈ rest, first other = false := by
        intro other mem
        rw [Bool.eq_false_iff]
        exact fun isFirst' => notBefore other mem ⟨isFirst', isFirst⟩
      rw [List.filter_eq_nil_iff.mpr (by simpa [isFirst] using none), List.nil_append,
        List.filter_eq_self.mpr (by simpa [isFirst] using none)]

end AddMulDRP

namespace AddMulExample

open HashGraph

def scattered : HashGraph := initial.addVertices
  [vertex "a" "mul" [rootHash], vertex "b" "add" [rootHash], vertex "c" "mul" [rootHash],
    vertex "d" "add" [rootHash]]

theorem scattered_grown : scattered.Grown := initial_wellFormed.extends_addVertices (by decide +kernel)

theorem scattered_siblings : scattered.Siblings rootHash scattered.hashes := by
  have wellFormed := scattered_grown.wellFormed
  have unrelated : ∀ left ∈ scattered.hashes, ∀ right ∈ scattered.hashes, left ≠ rootHash →
      left ∉ scattered.causalPast (scattered.dependenciesOf right) := by
    decide +kernel
  have children : ∀ hash ∈ scattered.hashes, hash ≠ rootHash →
      rootHash ∈ scattered.dependenciesOf hash := by
    decide +kernel
  refine ⟨by decide +kernel, by decide +kernel, children, ?_⟩
  intro left leftMem right rightMem leftNotRoot rightNotRoot different
  rw [Concurrent, ← wellFormed.mem_causalPast_dependencies, ← wellFormed.mem_causalPast_dependencies]
  exact ⟨different, unrelated left leftMem right rightMem leftNotRoot,
    unrelated right rightMem left leftMem rightNotRoot⟩

theorem scattered_onlyCalls : AddMulDRP.OnlyCalls scattered rootHash scattered.hashes := by
  intro call mem _ notRoot
  have vertices : scattered.vertices =
      [initial.vertices.head (by decide), vertex "a" "mul" [rootHash], vertex "b" "add" [rootHash],
        vertex "c" "mul" [rootHash], vertex "d" "add" [rootHash]] := rfl
  rw [vertices] at mem
  simp only [List.mem_cons, List.not_mem_nil, or_false] at mem
  rcases mem with rfl | rfl | rfl | rfl | rfl
  · exact absurd rfl notRoot
  · exact ⟨by decide, _, rfl, rfl, Or.inr rfl⟩
  · exact ⟨by decide, _, rfl, rfl, Or.inl rfl⟩
  · exact ⟨by decide, _, rfl, rfl, Or.inr rfl⟩
  · exact ⟨by decide, _, rfl, rfl, Or.inl rfl⟩

end AddMulExample

end TsDrp
