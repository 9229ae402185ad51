import TsDrp.Acl.ObjectACL
import TsDrp.HashGraph.Admission
import TsDrp.Linearize.PairRestrict

/-!
# Pairs of an ACL and a DRP vertex

The resolver for two concurrent vertices is chosen by the type of the earlier
one, so that the access control list is asked about operations of the DRP and
compares their first arguments with the peers it knows.  The DRP vertices that
survive are those of a linearization in which mixed pairs are answered `Nop`,
where no answer about a mixed pair drops the DRP vertex.
-/

namespace TsDrp

open ActionType

namespace GraphOptions

/-- A resolver that is not asked about a vertex of the list and one of the DRP. -/
def ignoreMixed (resolver : ResolveConflictFn) : ResolveConflictFn
  | left :: right :: rest =>
    if (left.drpType = some "ACL") = (right.drpType = some "ACL") then resolver (left :: right :: rest)
    else .ok { action := .nop }
  | vertices => resolver vertices

/-- The same resolvers, with every mixed pair answered `Nop`. -/
def ignoringMixedPairs (options : GraphOptions) : GraphOptions where
  semanticsTypeDRP := options.semanticsTypeDRP
  resolveConflictsACL := options.resolveConflictsACL.map ignoreMixed
  resolveConflictsDRP := options.resolveConflictsDRP.map ignoreMixed

theorem resolveConflicts_ignoringMixedPairs (options : GraphOptions) (left right : Vertex) :
    options.ignoringMixedPairs.resolveConflicts [left, right] =
      if (left.drpType = some "ACL") = (right.drpType = some "ACL") then
        options.resolveConflicts [left, right]
      else .ok { action := .nop } := by
  have asked : ∀ resolver : Option ResolveConflictFn,
      (resolver.map ignoreMixed).getD resolveNoConflicts [left, right] =
        if (left.drpType = some "ACL") = (right.drpType = some "ACL") then
          resolver.getD resolveNoConflicts [left, right]
        else .ok { action := .nop } := by
    intro resolver
    cases resolver with
    | none => exact (ite_self _).symm
    | some resolver => rfl
  rw [resolveConflicts.eq_2, resolveConflicts.eq_2, ignoringMixedPairs, asked, asked]
  split_ifs <;> rfl

end GraphOptions

namespace HashGraph

def isACL (graph : HashGraph) (hash : Hash) : Bool :=
  (graph.getVertex hash).bind (·.drpType) = some "ACL"

theorem isACL_eq {graph : HashGraph} {hash : Hash} {vertex : Vertex}
    (found : graph.getVertex hash = some vertex) :
    graph.isACL hash = decide (vertex.drpType = some "ACL") := by
  rw [isACL, found]
  rfl

end HashGraph

theorem pairAction_ignoringMixedPairs (options : GraphOptions) (graph : HashGraph) (left right : Hash) :
    pairAction options.ignoringMixedPairs graph left right =
      if graph.isACL left = graph.isACL right then pairAction options graph left right
      else .ok .nop := by
  unfold pairAction
  cases leftFound : graph.getVertex left with
  | none => exact (ite_self _).symm
  | some leftVertex =>
    cases rightFound : graph.getVertex right with
    | none => exact (ite_self _).symm
    | some rightVertex =>
      dsimp only
      rw [GraphOptions.resolveConflicts_ignoringMixedPairs, HashGraph.isACL_eq leftFound,
        HashGraph.isACL_eq rightFound]
      simp only [decide_eq_decide, eq_iff_iff]
      split_ifs <;> rfl

theorem ObjectACL.action_cases {mode : ACLConflictResolution} {vertices : List Vertex}
    {answer : ResolveConflictsType}
    (answered : ObjectACL.resolveConflicts mode vertices = .ok answer) :
    answer.action = .nop ∨ answer.action = .dropLeft ∨ answer.action = .dropRight := by
  unfold ObjectACL.resolveConflicts resolveFirstTwo at answered
  split at answered
  · cases answered
  · split at answered
    · cases answered
      exact Or.inl rfl
    · cases answered
  · split at answered
    · rcases Outcome.map_eq_ok.mp answered with ⟨action, resolved, rfl⟩
      unfold ObjectACL.resolveOperations at resolved
      split at resolved
      · cases resolved
        exact Or.inl rfl
      · split at resolved
        · cases resolved
          exact Or.inl rfl
        · rcases Outcome.bind_eq_ok.mp resolved with ⟨leftTarget, _, resolved⟩
          rcases Outcome.bind_eq_ok.mp resolved with ⟨rightTarget, _, resolved⟩
          cases resolved
          unfold ACLConflictResolution.drops
          split_ifs
          · split <;> simp
          · exact Or.inl rfl
    · cases answered
      exact Or.inl rfl

def GraphOptions.SwapsNothing (options : GraphOptions) : Prop :=
  ∀ vertices answer, options.resolveConflicts vertices = .ok answer → answer.action ≠ .swap

theorem GraphOptions.swapsNothing_of_objectACL {options : GraphOptions} {mode : ACLConflictResolution}
    (acl : options.resolveConflictsACL = some (ObjectACL.resolveConflicts mode))
    (drp : ∀ resolver ∈ options.resolveConflictsDRP, ∀ vertices answer,
      resolver vertices = .ok answer → answer.action ≠ .swap) : options.SwapsNothing := by
  intro vertices answer answered
  unfold resolveConflicts at answered
  split at answered
  · cases answered
  · split at answered
    · rw [acl, Option.getD_some] at answered
      rcases ObjectACL.action_cases answered with same | same | same <;> rw [same] <;>
        exact noConfusion
    · cases custom : options.resolveConflictsDRP with
      | none =>
        rw [custom, Option.getD_none, resolveNoConflicts] at answered
        cases answered
        exact noConfusion
      | some resolver =>
        rw [custom, Option.getD_some] at answered
        exact drp resolver custom _ _ answered

theorem GraphOptions.SwapsNothing.pairAction_ne {options : GraphOptions}
    (swapsNothing : options.SwapsNothing) (graph : HashGraph) (left right : Hash) :
    pairAction options graph left right ≠ .ok .swap := by
  unfold pairAction
  split
  · intro isSwap
    rcases Outcome.map_eq_ok.mp isSwap with ⟨answer, answered, same⟩
    exact swapsNothing _ answer answered same
  · intro impossible
    cases impossible

namespace HashGraph

open PairScan LegacyCausalityMatrix

variable {options : GraphOptions} {graph : HashGraph} {origin : Hash} {members : List Hash}

/-- No answer about a concurrent mixed pair drops the vertex of the DRP. -/
def SparesDRP (options : GraphOptions) (graph : HashGraph) (members : List Hash) : Prop :=
  ∀ left ∈ members, ∀ right ∈ members, graph.Concurrent left right →
    (graph.isACL left = true → graph.isACL right = false →
      pairAction options graph left right ≠ .ok .dropRight) ∧
    (graph.isACL left = false → graph.isACL right = true →
      pairAction options graph left right ≠ .ok .dropLeft)

theorem mayAsk_iff_of_swapless
    (swapless : ∀ left right, pairAction options graph left right ≠ .ok .swap) {left right : Hash} :
    graph.MayAsk options left right ↔ graph.Concurrent left right := by
  refine or_iff_left ?_
  rintro ⟨_, _, _, _, _, _, isSwap⟩
  exact swapless _ _ isSwap

theorem SparesDRP.spares (sparesDRP : SparesDRP options graph members)
    (swapless : ∀ left right, pairAction options graph left right ≠ .ok .swap) :
    Spares (graph.heard options) (fun hash => !graph.isACL hash) (members.filter (· ≠ origin)) := by
  refine ⟨?_, ?_, ?_⟩
  · intro hash mem other otherMem isDRP notDRP
    refine heard_ne noConfusion fun may => ?_
    exact (sparesDRP hash (List.mem_of_mem_filter mem) other (List.mem_of_mem_filter otherMem)
      ((mayAsk_iff_of_swapless swapless).mp may)).2 (by simpa using isDRP) (by simpa using notDRP)
  · intro hash mem other otherMem isDRP notDRP
    refine heard_ne noConfusion fun may => ?_
    exact (sparesDRP other (List.mem_of_mem_filter otherMem) hash (List.mem_of_mem_filter mem)
      ((mayAsk_iff_of_swapless swapless).mp may)).1 (by simpa using notDRP) (by simpa using isDRP)
  · intro hash _ other _ _
    exact ⟨heard_ne noConfusion fun _ => swapless hash other,
      heard_ne noConfusion fun _ => swapless other hash⟩

theorem filter_drpType (wellFormed : graph.WellFormed) (kept : List Hash) :
    (kept.filterMap graph.getVertex).filter (fun vertex => vertex.drpType ≠ some "ACL") =
      (kept.filter fun hash => !graph.isACL hash).filterMap graph.getVertex := by
  rw [← filterMap_getVertex_filter]
  apply List.filter_congr
  intro vertex mem
  rcases List.mem_filterMap.mp mem with ⟨hash, _, found⟩
  rw [isACL_eq (getVertex_of_mem wellFormed.nodup (mem_of_getVertex found)), ← decide_not]

theorem pairAction_ignoringMixedPairs_ne_swap
    (swapless : ∀ left right, pairAction options graph left right ≠ .ok .swap) (left right : Hash) :
    pairAction options.ignoringMixedPairs graph left right ≠ .ok .swap := by
  rw [pairAction_ignoringMixedPairs]
  split
  · exact swapless left right
  · exact fun impossible => noConfusion (Except.ok.inj impossible)

theorem sparesDRP_ignoringMixedPairs (options : GraphOptions) (graph : HashGraph)
    (members : List Hash) : SparesDRP options.ignoringMixedPairs graph members := by
  intro left _ right _ _
  rw [pairAction_ignoringMixedPairs]
  constructor <;>
  · intro leftType rightType
    rw [leftType, rightType, if_neg (by decide)]
    exact fun impossible => noConfusion (Except.ok.inj impossible)

theorem Interval.exists_linearization (interval : graph.Interval origin members)
    (wellFormed : graph.WellFormed)
    (swapless : ∀ left right, pairAction options graph left right ≠ .ok .swap)
    (answers : ∀ left ∈ members, ∀ right ∈ members, graph.Concurrent left right →
      ∃ answer, pairAction options graph left right = .ok answer) (fuel : ℕ) :
    ∃ vertices, linearizePairSemantics options graph fuel origin members = .ok vertices := by
  rcases interval.exists_dfs wellFormed with ⟨order, sorted, causalOrder⟩
  have scanSwapless : Swapless (pairAction options graph) (build graph order) members :=
    fun left _ right _ _ _ => swapless left right
  have returns : ∃ kept, loop (pairAction options graph) fuel origin order.length
      (build graph order) (slots order) = .ok kept := by
    refine scanSwapless.exists_loop (fun left leftMem right rightMem different unrelated => ?_) ?_
      fun hash mem => ?_
    · exact answers left leftMem right rightMem
        (interval.concurrent wellFormed causalOrder leftMem rightMem different unrelated)
    · rw [map_hash_slots]
      exact causalOrder.nodup
    · rw [map_hash_slots] at mem
      exact (causalOrder.mem hash).mp mem
  rcases returns with ⟨kept, scan⟩
  rw [linearizePairSemantics, sorted, Outcome.ok_bind, pairOrder_eq_loop, scan]
  exact ⟨_, rfl⟩

/--
The vertices of the DRP that survive a linearization, and their order, are those
of the linearization that answers every mixed pair with `Nop`, where no answer
about a concurrent mixed pair drops the vertex of the DRP.  Both linearizations
return if every concurrent pair is answered.
-/
theorem acl_vertices_spare_drp_vertices (grown : graph.Grown)
    (interval : graph.Interval origin members) {mode : ACLConflictResolution}
    (acl : options.resolveConflictsACL = some (ObjectACL.resolveConflicts mode))
    (drp : ∀ resolver ∈ options.resolveConflictsDRP, ∀ vertices answer,
      resolver vertices = .ok answer → answer.action ≠ .swap)
    (sparesDRP : SparesDRP options graph members) (fuel : ℕ) :
    (∀ vertices unmixed, linearizePairSemantics options graph fuel origin members = .ok vertices →
      linearizePairSemantics options.ignoringMixedPairs graph fuel origin members = .ok unmixed →
      vertices.filter (fun vertex => vertex.drpType ≠ some "ACL") =
        unmixed.filter fun vertex => vertex.drpType ≠ some "ACL") ∧
    ((∀ left ∈ members, ∀ right ∈ members, graph.Concurrent left right →
        ∃ answer, pairAction options graph left right = .ok answer) →
      (∃ vertices, linearizePairSemantics options graph fuel origin members = .ok vertices) ∧
      ∃ unmixed, linearizePairSemantics options.ignoringMixedPairs graph fuel origin members =
        .ok unmixed) := by
  have wellFormed := grown.wellFormed
  have swapless := (GraphOptions.swapsNothing_of_objectACL acl drp).pairAction_ne graph
  have swapless' := pairAction_ignoringMixedPairs_ne_swap swapless
  refine ⟨fun vertices unmixed linearized linearized' => ?_, fun answers => ⟨?_, ?_⟩⟩
  · rcases interval.exists_kept wellFormed (sparesDRP.spares swapless) linearized with
      ⟨rest, kept, sorted, causalOrder, _, rfl, scan⟩
    rcases interval.exists_kept wellFormed
      ((sparesDRP_ignoringMixedPairs options graph members).spares swapless') linearized' with
      ⟨rest', kept', sorted', _, _, rfl, scan'⟩
    rw [sorted] at sorted'
    cases sorted'
    -- On the vertices of the DRP alone the two resolvers answer alike.
    have same : ∀ left ∈ rest.filter (fun hash => !graph.isACL hash),
        ∀ right ∈ rest.filter (fun hash => !graph.isACL hash), left ≠ right →
        graph.heard options left right = graph.heard options.ignoringMixedPairs left right := by
      intro left leftMem right rightMem _
      have leftDRP := (List.mem_filter.mp leftMem).2
      have rightDRP := (List.mem_filter.mp rightMem).2
      rw [Bool.not_eq_true'] at leftDRP rightDRP
      have sameAsked : graph.MayAsk options left right ↔
          graph.MayAsk options.ignoringMixedPairs left right :=
        (mayAsk_iff_of_swapless swapless).trans (mayAsk_iff_of_swapless swapless').symm
      by_cases may : graph.MayAsk options left right
      · rw [heard_of_mayAsk may, heard_of_mayAsk (sameAsked.mp may), pairAction_ignoringMixedPairs,
          leftDRP, rightDRP, if_pos rfl]
      · rw [heard, heard, if_neg may, if_neg fun asked => may (sameAsked.mpr asked)]
    have indexed : ∀ hash ∈ rest.filter (fun hash => !graph.isACL hash),
        ((build graph (origin :: rest)).indexByHash hash).isSome :=
      fun hash mem => indexByHash_build_isSome.mpr (.tail _ (List.mem_of_mem_filter mem))
    have sameScan := @loop_congr _ _ (build graph (origin :: rest)) (build graph (origin :: rest)) _ 0
      origin origin same (fun _ _ => Iff.rfl)
      ((List.nodup_cons.mp causalOrder.nodup).2.filter _)
      ⟨indexed, indexed, fun _ _ _ inNil => absurd inNil List.not_mem_nil⟩ fun _ _ _ _ _ => rfl
    rw [scan _ fun _ _ _ _ _ _ _ => rfl, scan' _ fun _ _ _ _ _ _ _ => rfl] at sameScan
    rw [filter_drpType wellFormed, filter_drpType wellFormed, Except.ok.inj sameScan.symm]
  · exact interval.exists_linearization wellFormed swapless answers fuel
  · refine interval.exists_linearization wellFormed swapless' ?_ fuel
    intro left leftMem right rightMem concurrent
    rw [pairAction_ignoringMixedPairs]
    split
    · exact answers left leftMem right rightMem concurrent
    · exact ⟨_, rfl⟩

end HashGraph

namespace MixedExample

open HashGraph

def vertex (hash : Hash) (drpType opType : String) (args : List String) : Vertex where
  hash := hash
  peerId := "p"
  operation := some { drpType, opType, value := .array (args.map .string) }
  dependencies := [rootHash]
  timestamp := 0

def lastWins : ResolveConflictFn
  | left :: right :: _ =>
    if left.operation.map (·.opType) = right.operation.map (·.opType) then .ok { action := .dropLeft }
    else .ok { action := .nop }
  | _ => .ok { action := .nop }

def options : GraphOptions where
  semanticsTypeDRP := some .pair
  resolveConflictsACL := some (ObjectACL.resolveConflicts .revokeWins)
  resolveConflictsDRP := some lastWins

def quiet : HashGraph := initial.addVertices
  [vertex "a" "ACL" "revoke" ["bob", "WRITER"], vertex "b" "DRP" "set" ["x"],
    vertex "c" "DRP" "set" ["y"]]

def namesake : HashGraph := initial.addVertices
  [vertex "a" "ACL" "revoke" ["bob", "WRITER"], vertex "b" "DRP" "set" ["bob"]]

theorem grown_quiet : quiet.Grown := initial_wellFormed.extends_addVertices (by decide +kernel)

theorem lastWins_ne_swap (vertices : List Vertex) (answer : ResolveConflictsType)
    (answered : lastWins vertices = .ok answer) : answer.action ≠ .swap := by
  unfold lastWins at answered
  split at answered
  · split at answered <;>
    · cases answered
      exact noConfusion
  · cases answered
    exact noConfusion

theorem sparesDRP_quiet : SparesDRP options quiet quiet.hashes := by
  have spared : ∀ left ∈ quiet.hashes, ∀ right ∈ quiet.hashes,
      (quiet.isACL left = true → quiet.isACL right = false →
        pairAction options quiet left right ≠ .ok .dropRight) ∧
      (quiet.isACL left = false → quiet.isACL right = true →
        pairAction options quiet left right ≠ .ok .dropLeft) := by
    decide +kernel
  exact fun left leftMem right rightMem _ => spared left leftMem right rightMem

end MixedExample

open MixedExample HashGraph in
theorem acl_vertices_spare_drp_vertices_quiet :
    (∀ vertices unmixed, linearizePairSemantics options quiet 0 rootHash quiet.hashes = .ok vertices →
      linearizePairSemantics options.ignoringMixedPairs quiet 0 rootHash quiet.hashes = .ok unmixed →
      vertices.filter (fun vertex => vertex.drpType ≠ some "ACL") =
        unmixed.filter fun vertex => vertex.drpType ≠ some "ACL") ∧
    (linearizePairSemantics options quiet 0 rootHash quiet.hashes).map (·.map (·.hash)) =
      .ok ["a", "c"] := by
  have interval := grown_quiet.wellFormed.past_hashes.interval grown_quiet.wellFormed
  constructor
  · refine (acl_vertices_spare_drp_vertices grown_quiet interval rfl ?_ sparesDRP_quiet 0).1
    rintro _ ⟨⟩
    exact lastWins_ne_swap
  · decide +kernel

open MixedExample HashGraph in
/--
The revocation of a peer drops a concurrent write whose first argument is the
name of that peer.
-/
theorem revoke_drops_drp_vertex :
    namesake.Grown ∧
    (linearizePairSemantics options namesake 0 rootHash namesake.hashes).map (·.map (·.hash)) =
      .ok ["a"] ∧
    (linearizePairSemantics options.ignoringMixedPairs namesake 0 rootHash namesake.hashes).map
      (·.map (·.hash)) = .ok ["a", "b"] := by
  refine ⟨initial_wellFormed.extends_addVertices (by decide +kernel), ?_, ?_⟩ <;> decide +kernel

end TsDrp
