import TsDrp.HashGraph.Admission
import TsDrp.Linearize.PairRestrict

/-!
# Causality under swaps

A `Swap` exchanges the anchor with an entry that may lie far behind it, and the
entries in between keep their places: one that descends from the anchor comes to
lie before it.  Where a swap is only answered on vertices such that whatever
descends from the first descends from the second, and whatever precedes the
second precedes the first, nothing related lies in between, and the rows that the
swap exchanges have nothing to say about the entries still to come.
-/

namespace TsDrp

namespace PairScan

variable {action : Hash → Hash → Except JsError ActionType} {precedes : Hash → Hash → Prop}
  {members : List Hash} {causality : LegacyCausalityMatrix}

/-- Swaps of unrelated entries carry neither of them past an entry related to it. -/
structure Fits (action : Hash → Hash → Except JsError ActionType) (precedes : Hash → Hash → Prop)
    (members : List Hash) : Prop where
  descendants : ∀ left ∈ members, ∀ right ∈ members, left ≠ right → ¬precedes left right →
    ¬precedes right left → action left right = .ok .swap →
      ∀ other ∈ members, precedes left other → precedes right other
  ancestors : ∀ left ∈ members, ∀ right ∈ members, left ≠ right → ¬precedes left right →
    ¬precedes right left → action left right = .ok .swap →
      ∀ other ∈ members, precedes other right → precedes other left

structure Upright (precedes : Hash → Hash → Prop) (members : List Hash)
    (causality : LegacyCausalityMatrix) (hashes : List Hash) : Prop where
  nodup : hashes.Nodup
  inside : ∀ hash ∈ hashes, hash ∈ members
  found : ∀ hash ∈ hashes, (causality.indexByHash hash).isSome
  ordered : hashes.Pairwise fun earlier later => ¬precedes later earlier
  related : ∀ earlier ∈ hashes, ∀ later ∈ hashes, precedes earlier later →
    causality.bit later earlier = true

theorem Upright.tail {hash : Hash} {hashes : List Hash}
    (upright : Upright precedes members causality (hash :: hashes)) :
    Upright precedes members causality hashes :=
  ⟨(List.nodup_cons.mp upright.nodup).2, fun other mem => upright.inside other (.tail _ mem),
    fun other mem => upright.found other (.tail _ mem), (List.pairwise_cons.mp upright.ordered).2,
    fun earlier earlierMem later laterMem =>
      upright.related earlier (.tail _ earlierMem) later (.tail _ laterMem)⟩

theorem Upright.not_precedes {hashes : List Hash}
    (upright : Upright precedes members causality hashes) {left right : Hash}
    (leftMem : left ∈ hashes) (rightMem : right ∈ hashes)
    (unrelated : causality.areRelated left right = false) :
    ¬precedes left right ∧ ¬precedes right left := by
  rcases Bool.or_eq_false_iff.mp unrelated with ⟨notLeft, notRight⟩
  constructor
  · intro before
    rw [upright.related left leftMem right rightMem before] at notRight
    cases notRight
  · intro before
    rw [upright.related right rightMem left leftMem before] at notLeft
    cases notLeft

section

variable (fits : Fits action precedes members) (irreflexive : ∀ hash, ¬precedes hash hash)
include fits irreflexive

/-- A swap that fits keeps the rest of the scan in causal order. -/
theorem Upright.swap {anchor moving : Hash} {before after : List Hash}
    (upright : Upright precedes members causality (anchor :: (before ++ moving :: after)))
    (isSwap : action anchor moving = .ok .swap)
    (unrelated : causality.areRelated anchor moving = false) :
    Upright precedes members (causality.swapReachablePredecessors anchor moving)
      (moving :: (before ++ anchor :: after)) := by
  have perm : (moving :: (before ++ anchor :: after)).Perm (anchor :: (before ++ moving :: after)) :=
    (List.perm_middle.cons _).trans ((List.Perm.swap _ _ _).trans (List.perm_middle.symm.cons _))
  have anchorMem : anchor ∈ anchor :: (before ++ moving :: after) := List.mem_cons_self
  have movingMem : moving ∈ anchor :: (before ++ moving :: after) :=
    .tail _ (List.mem_append_right _ List.mem_cons_self)
  have different : anchor ≠ moving := by
    rintro rfl
    exact (List.nodup_cons.mp upright.nodup).1 (List.mem_append_right _ List.mem_cons_self)
  rcases upright.not_precedes anchorMem movingMem unrelated with ⟨notBefore, notAfter⟩
  have anchorIn := upright.inside anchor anchorMem
  have movingIn := upright.inside moving movingMem
  have descendants := fits.descendants anchor anchorIn moving movingIn different notBefore notAfter isSwap
  have ancestors := fits.ancestors anchor anchorIn moving movingIn different notBefore notAfter isSwap
  rcases List.pairwise_cons.mp upright.ordered with ⟨firstOrdered, restOrdered⟩
  rcases List.pairwise_append.mp restOrdered with ⟨beforeOrdered, behindOrdered, acrossOrdered⟩
  rcases List.pairwise_cons.mp behindOrdered with ⟨movingOrdered, afterOrdered⟩
  -- Nothing that is still to come precedes the anchor, and so nothing precedes the moved entry.
  have noneBefore : ∀ other ∈ anchor :: (before ++ moving :: after), ¬precedes other anchor := by
    intro other mem
    rcases List.mem_cons.mp mem with rfl | inRest
    · exact irreflexive _
    · exact firstOrdered other inRest
  have noneBeforeMoving : ∀ other ∈ anchor :: (before ++ moving :: after), ¬precedes other moving :=
    fun other mem precedesMoving =>
      noneBefore other mem (ancestors other (upright.inside other mem) precedesMoving)
  refine ⟨perm.nodup_iff.mpr upright.nodup, fun hash mem => upright.inside hash (perm.mem_iff.mp mem),
    ?_, ?_, ?_⟩
  · intro hash mem
    rw [LegacyCausalityMatrix.indexByHash_swap]
    exact upright.found hash (perm.mem_iff.mp mem)
  · refine List.pairwise_cons.mpr ⟨fun other mem => ?_, List.pairwise_append.mpr
      ⟨beforeOrdered, List.pairwise_cons.mpr ⟨fun other mem => ?_, afterOrdered⟩, ?_⟩⟩
    · exact noneBeforeMoving other (perm.mem_iff.mp (.tail _ mem))
    · exact firstOrdered other (List.mem_append_right _ (.tail _ mem))
    · intro earlier earlierMem later laterMem
      rcases List.mem_cons.mp laterMem with rfl | inAfter
      · intro descends
        have inMembers := upright.inside earlier (.tail _ (List.mem_append_left _ earlierMem))
        exact acrossOrdered earlier earlierMem moving List.mem_cons_self
          (descendants earlier inMembers descends)
      · exact acrossOrdered earlier earlierMem later (.tail _ inAfter)
  · intro earlier earlierMem later laterMem before
    have earlierMem := perm.mem_iff.mp earlierMem
    have notAnchor : later ≠ anchor := by
      rintro rfl
      exact noneBefore earlier earlierMem before
    have notMoving : later ≠ moving := by
      rintro rfl
      exact noneBeforeMoving earlier earlierMem before
    rw [LegacyCausalityMatrix.bit_swap _ (upright.found anchor anchorMem)
      (upright.found moving movingMem), Equiv.swap_apply_of_ne_of_ne notAnchor notMoving]
    exact upright.related earlier earlierMem later (perm.mem_iff.mp laterMem) before

theorem scanAnchor_upright {fuel : ℕ} {anchor : Hash} {seen later : List Slot}
    (upright : Upright precedes members causality (anchor :: (seen ++ later).map (·.hash)))
    {scanned : Anchored} (run : scanAnchor action fuel causality anchor seen later = .ok scanned) :
    Upright precedes members scanned.causality
      (scanned.anchor :: scanned.later.map (·.hash)) := by
  induction fuel using Nat.strong_induction_on generalizing causality anchor seen later with
  | _ fuel ih =>
    rw [scanAnchor] at run
    rcases Outcome.bind_eq_ok.mp run with ⟨outcome, swept, run⟩
    rcases sweep_cases swept with ⟨dropped, later', rfl, same⟩ |
      ⟨moving, later', before, after, rfl, split, moved, isSwap, unrelated⟩
    · cases run
      rw [List.map_append] at upright
      simpa [same] using upright
    · cases fuel with
      | zero => cases run
      | succ fuel =>
        rw [List.map_append, split, ← List.append_assoc] at upright
        have swapped := upright.swap fits irreflexive isSwap unrelated
        rw [List.append_assoc, ← moved, ← List.map_append] at swapped
        exact ih fuel fuel.lt_succ_self (by rwa [List.take_append_drop]) run

theorem loop_upright {fuel count : ℕ} {origin : Hash} {slots : List Slot}
    (upright : Upright precedes members causality (slots.map (·.hash))) {kept : List Hash}
    (run : loop action fuel origin count causality slots = .ok kept) :
    kept.Pairwise fun earlier later => ¬precedes later earlier := by
  induction count generalizing causality slots kept with
  | zero =>
    cases run
    exact .nil
  | succ count ih =>
    cases slots with
    | nil =>
      cases run
      exact .nil
    | cons slot later =>
      rw [loop] at run
      split at run
      · exact ih upright.tail run
      · rcases Outcome.bind_eq_ok.mp run with ⟨scanned, scan, run⟩
        rcases Outcome.bind_eq_ok.mp run with ⟨rest, restRun, run⟩
        have next := scanAnchor_upright fits irreflexive upright scan
        have ordered := ih next.tail restRun
        cases run
        split
        · exact ordered
        · refine List.pairwise_cons.mpr ⟨fun other mem => ?_, ordered⟩
          exact (List.pairwise_cons.mp next.ordered).1 other ((loop_subperm restRun).subset mem)

end

end PairScan

namespace HashGraph

open PairScan LegacyCausalityMatrix

variable {options : GraphOptions} {graph : HashGraph} {fuel : ℕ} {origin : Hash} {members : List Hash}

/--
A linearization with pair semantics lists no vertex twice and no vertex before an
ancestor, where swaps of concurrent vertices carry neither past a relative.
-/
theorem linearization_respects_causality (grown : graph.Grown)
    (interval : graph.Interval origin members)
    (fits : Fits (pairAction options graph) graph.Precedes (members.filter (· ≠ origin)))
    {vertices : List Vertex}
    (linearized : linearizePairSemantics options graph fuel origin members = .ok vertices) :
    (vertices.map (·.hash)).Nodup ∧
      vertices.Pairwise fun earlier later => ¬graph.Precedes later.hash earlier.hash := by
  have wellFormed := grown.wellFormed
  rcases interval.exists_scan wellFormed linearized with
    ⟨rest, kept, _, causalOrder, restMem, scan, rfl⟩
  have causal := interval.causalList wellFormed causalOrder
  have keptSubperm := loop_subperm scan
  rw [map_hash_slots] at keptSubperm
  have restNodup := (List.nodup_cons.mp causalOrder.nodup).2
  have upright : Upright graph.Precedes (members.filter (· ≠ origin))
      (build graph (origin :: rest)) ((slots rest).map (·.hash)) := by
    rw [map_hash_slots]
    refine ⟨restNodup, restMem, fun hash mem => ?_, (List.pairwise_cons.mp causalOrder.ordered).2, ?_⟩
    · exact indexByHash_build_isSome.mpr (.tail _ mem)
    · intro earlier earlierMem later laterMem precedes
      exact (causal.bit_build (.tail _ laterMem) (.tail _ earlierMem)).mpr (Or.inl precedes)
  have ordered := loop_upright fits wellFormed.acyclic upright scan
  have present : ∀ hash ∈ kept, hash ∈ graph.hashes := by
    intro hash mem
    rcases List.mem_filter.mp (restMem hash (keptSubperm.subset mem)) with ⟨inMembers, notOrigin⟩
    exact interval.present inMembers (by simpa using notOrigin)
  have sameHashes := map_hash_filterMap_getVertex present
  constructor
  · rcases keptSubperm with ⟨sublist, perm, isSublist⟩
    rw [sameHashes, ← perm.nodup_iff]
    exact isSublist.nodup restNodup
  · rw [← sameHashes, List.pairwise_map] at ordered
    exact ordered

end HashGraph

/-- The resolver of `AddMulDRP`: of concurrent operations the additions come first. -/
def AddMulDRP.resolveConflicts : ResolveConflictFn
  | left :: right :: _ =>
    if left.hash = "" ∨ right.hash = "" ∨ left.hash = right.hash then .ok { action := .nop }
    else
      let leftOp := (left.operation.map (·.opType)).getD ""
      let rightOp := (right.operation.map (·.opType)).getD ""
      if leftOp = "mul" ∧ rightOp = "add" then .ok { action := .swap } else .ok { action := .nop }
  | _ => .ok { action := .nop }

namespace AddMulExample

open HashGraph

def options : GraphOptions where
  semanticsTypeDRP := some .pair
  resolveConflictsACL := none
  resolveConflictsDRP := some AddMulDRP.resolveConflicts

def vertex (hash : Hash) (opType : String) (dependencies : List Hash) : Vertex where
  hash := hash
  peerId := "p"
  operation := some
    { drpType := "DRP", opType, value := .array [.number (.finite (.ofInt 2 Double.two_small))] }
  dependencies := dependencies
  timestamp := 0

def joined : HashGraph := initial.addVertices
  [vertex "a" "mul" [rootHash], vertex "b" "add" [rootHash], vertex "c" "mul" ["a", "b"]]

def forked : HashGraph := initial.addVertices
  [vertex "a" "mul" [rootHash], vertex "b" "add" ["a"], vertex "c" "add" [rootHash]]

theorem grown_joined : joined.Grown := initial_wellFormed.extends_addVertices (by decide +kernel)

theorem fits_joined : PairScan.Fits (pairAction options joined) joined.Precedes
    (joined.hashes.filter (· ≠ rootHash)) := by
  have swaps : ∀ left ∈ joined.hashes.filter (· ≠ rootHash),
      ∀ right ∈ joined.hashes.filter (· ≠ rootHash),
      right ∉ joined.causalPast (joined.dependenciesOf left) →
      pairAction options joined left right = .ok .swap → left = "a" ∧ right = "b" := by
    decide +kernel
  have wellFormed := grown_joined.wellFormed
  constructor
  · intro left leftMem right rightMem _ _ notAfter isSwap other otherMem
    rw [← wellFormed.mem_causalPast_dependencies] at notAfter
    rcases swaps left leftMem right rightMem notAfter isSwap with ⟨rfl, rfl⟩
    rw [← wellFormed.mem_causalPast_dependencies, ← wellFormed.mem_causalPast_dependencies]
    revert other
    decide +kernel
  · intro left leftMem right rightMem _ _ notAfter isSwap other otherMem precedes
    rw [← wellFormed.mem_causalPast_dependencies] at notAfter
    rcases swaps left leftMem right rightMem notAfter isSwap with ⟨rfl, rfl⟩
    rw [← wellFormed.mem_causalPast_dependencies] at precedes ⊢
    exact precedes

end AddMulExample

open AddMulExample HashGraph in
theorem linearization_respects_causality_joined :
    ∃ vertices, linearizePairSemantics options joined 9 rootHash joined.hashes = .ok vertices ∧
      vertices.map (·.hash) = ["b", "a", "c"] ∧
      (vertices.map (·.hash)).Nodup ∧
      vertices.Pairwise fun earlier later => ¬joined.Precedes later.hash earlier.hash := by
  have interval := grown_joined.wellFormed.past_hashes.interval grown_joined.wellFormed
  have hashes : (linearizePairSemantics options joined 9 rootHash joined.hashes).map
      (·.map (·.hash)) = .ok ["b", "a", "c"] := by
    decide +kernel
  rcases Outcome.map_eq_ok.mp hashes with ⟨vertices, linearized, same⟩
  exact ⟨vertices, linearized, same,
    linearization_respects_causality grown_joined interval fits_joined linearized⟩

open AddMulExample HashGraph in
/--
With the resolver of `AddMulDRP` a vertex is listed before its own dependency:
the addition `c` takes the place of `a`, and `b`, which depends on `a`, stays
where it is.
-/
theorem swap_moves_vertex_behind_descendant :
    forked.Grown ∧
    (linearizePairSemantics options forked 9 rootHash forked.hashes).map (·.map (·.hash)) =
      .ok ["c", "b", "a"] ∧
    forked.Dependency "a" "b" := by
  refine ⟨initial_wellFormed.extends_addVertices (by decide +kernel), ?_, ?_⟩
  · decide +kernel
  · show "a" ∈ forked.dependenciesOf "b"
    decide +kernel

end TsDrp
