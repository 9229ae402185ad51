import TsDrp.Acl.Authority
import TsDrp.Acl.History

/-!
# Who influences permissions

Two replays are compared: that of a graph, and that of the graph with further
vertices of peers who are not admins.  What such a peer adds to the list's own
operations does nothing to the groups, but its vertices take part in the
resolution of conflicts: a query typed as an operation on the list, or a call of
the DRP with a peer as its first argument, makes the resolver drop a concurrent
grant.  Where a set of vertices of the graph with all operations on the list in
it is not dropped or moved by any other vertex, the two replays agree.
-/

namespace TsDrp

open HashGraph Outcome

namespace ObjectACL

variable {acl acl' final final' : ObjectACL} {vertices : List Vertex} {peer : String}
  {group : ACLGroup}

theorem admin_of_does (run : applyVertices ObjectACL.call acl vertices = .ok final) {vertex : Vertex}
    (mem : vertex ∈ vertices) {method : String} (isMethod : method = "grant" ∨ method = "revoke")
    (does : vertex.Does method peer group) : final.has (.string vertex.peerId) .admin = true := by
  rcases List.append_of_mem mem with ⟨before, after, rfl⟩
  rw [applyVertices_append] at run
  rcases bind_eq_ok.mp run with ⟨here, _, run⟩
  refine (has_admin_applyVertices run).mpr (Or.inl ?_)
  rcases bind_eq_ok.mp run with ⟨next, applied, _⟩
  rcases does with ⟨operation, found, rfl, _⟩
  rw [applyVertex, found] at applied
  rcases map_eq_ok.mp applied with ⟨⟨_, changed⟩, called, _⟩
  rcases call_cases called with ⟨_, admin, _⟩ | ⟨_, admin, _⟩ | ⟨isKey, _⟩ | ⟨notGrant, notRevoke, _⟩
  · exact admin
  · exact admin
  · rw [isKey] at isMethod
    exact absurd isMethod (by decide)
  · exact absurd isMethod (not_or.mpr ⟨notGrant, notRevoke⟩)

theorem has_applyVertices_filter {counts : Vertex → Bool}
    (idle : ∀ vertex ∈ vertices, counts vertex = false →
      ¬vertex.Removes peer group ∧ ¬vertex.Does "grant" peer group)
    (run : applyVertices ObjectACL.call acl vertices = .ok final)
    (run' : applyVertices ObjectACL.call acl' (vertices.filter counts) = .ok final')
    (same : acl.has (.string peer) group = acl'.has (.string peer) group) :
    final.has (.string peer) group = final'.has (.string peer) group := by
  induction vertices generalizing acl acl' with
  | nil =>
    cases run
    cases run'
    exact same
  | cons vertex rest ih =>
    rcases bind_eq_ok.mp run with ⟨next, applied, run⟩
    have restIdle := fun other mem => idle other (.tail _ mem)
    cases isCounted : counts vertex with
    | true =>
      rw [List.filter_cons_of_pos isCounted] at run'
      rcases bind_eq_ok.mp run' with ⟨next', applied', run'⟩
      apply ih restIdle run run'
      rw [Bool.eq_iff_iff, has_applyVertex applied, has_applyVertex applied', same]
    | false =>
      rw [List.filter_cons_of_neg (by simp [isCounted])] at run'
      apply ih restIdle run run'
      rcases idle vertex List.mem_cons_self isCounted with ⟨keeps, grantsNothing⟩
      rw [← same, Bool.eq_iff_iff, has_applyVertex applied]
      simp [keeps, grantsNothing]

end ObjectACL

/--
A set of created vertices of the graph, with all that a replay runs on the list
in it, that no other vertex of the whole drops or moves where it can be asked
about the two.
-/
structure Shielded (options : GraphOptions) (graph whole : HashGraph) (shielded : Vertex → Bool) :
    Prop where
  notRoot : shielded rootVertex = false
  inside : ∀ vertex ∈ whole.created, shielded vertex = true → vertex ∈ graph.vertices
  covers : ∀ vertex ∈ graph.created, vertex.drpType ≠ some "DRP" → shielded vertex = true
  apart : ∀ vertex ∈ whole.created, ∀ other ∈ whole.created, shielded vertex = true →
    shielded other = false → whole.MayAsk options vertex.hash other.hash →
      options.Spares vertex other
  swapless : ∀ vertex ∈ whole.created, ∀ other ∈ whole.created, shielded vertex = true →
    shielded other = true → whole.MayAsk options vertex.hash other.hash →
      options.answer vertex other ≠ .ok .swap

section Extension

variable {options : GraphOptions} {graph whole : HashGraph} {fuel : ℕ}

theorem HashGraph.Within.past_frontier (within : graph.Within whole) (wellFormed : graph.WellFormed)
    (wholeFormed : whole.WellFormed) : whole.Past (graph.causalPast graph.frontier) := by
  have past := wellFormed.causalPast_past wellFormed.frontier_ne_nil wellFormed.frontier_present
  refine ⟨past.nodup, past.root, fun hash mem => within.mem_hashes (past.present hash mem), ?_⟩
  intro earlier later dependency mem
  exact past.closed ((within.dependency_iff wholeFormed (past.present later mem)).mpr dependency) mem

theorem Shielded.filter_linearizeVertices {shielded : Vertex → Bool}
    (shield : Shielded options graph whole shielded) (pair : options.semanticsTypeDRP = some .pair)
    (within : graph.Within whole) (wellFormed : graph.WellFormed) (wholeFormed : whole.WellFormed)
    {vertices wholeVertices : List Vertex}
    (linearized : linearizeVertices options graph fuel rootHash (graph.causalPast graph.frontier) =
      .ok vertices)
    (wholeLinearized : linearizeVertices options whole fuel rootHash
      (whole.causalPast whole.frontier) = .ok wholeVertices) :
    wholeVertices.filter shielded = vertices.filter shielded := by
  have past := wellFormed.causalPast_past wellFormed.frontier_ne_nil wellFormed.frontier_present
  have inner := within.past_frontier wellFormed wholeFormed
  have outer := wholeFormed.causalPast_past wholeFormed.frontier_ne_nil wholeFormed.frontier_present
  have innerLinearized : linearizeVertices options whole fuel rootHash
      (graph.causalPast graph.frontier) = .ok vertices := by
    rw [← linearized]
    refine inner.linearizeVertices_congr past wholeFormed wellFormed (fun _ => Iff.rfl) ?_
    exact fun hash mem => within.getVertex_eq wholeFormed (past.present hash mem)
  have notRoot : whole.selects shielded rootHash = false := by
    rw [selects_eq wholeFormed.root, shield.notRoot]
  have inside : ∀ hash ∈ whole.causalPast whole.frontier, whole.selects shielded hash = true →
      hash ∈ graph.causalPast graph.frontier := by
    intro hash mem isShielded
    have different : hash ≠ rootHash := by
      rintro rfl
      rw [notRoot] at isShielded
      cases isShielded
    rcases outer.exists_created (List.mem_filter.mpr ⟨mem, by simpa using different⟩) with
      ⟨vertex, isCreated, found⟩
    rw [selects_eq found] at isShielded
    rw [wellFormed.mem_causalPast_frontier, ← getVertex_hash found]
    exact hash_mem_of_mem (shield.inside vertex isCreated isShielded)
  have subset : ∀ hash ∈ graph.causalPast graph.frontier, hash ∈ whole.causalPast whole.frontier :=
    fun hash mem => wholeFormed.mem_causalPast_frontier.mpr (inner.present hash mem)
  have same := inner.filter_linearizeVertices outer wholeFormed subset pair
    (outer.spares shield.apart shield.swapless) inside innerLinearized wholeLinearized
  have selected : ∀ {members list}, whole.Past members →
      linearizeVertices options whole fuel rootHash members = .ok list →
        list.filter (fun vertex => whole.selects shielded vertex.hash) = list.filter shielded := by
    intro members list past linearized
    apply List.filter_congr
    intro vertex mem
    exact selects_eq (past.mem_linearizeVertices wholeFormed linearized mem).2
  rwa [selected outer wholeLinearized, selected inner innerLinearized] at same

end Extension

namespace AclExample

def administered : HashGraph := HashGraph.initial.addVertices
  [vertex "g" "alice" .acl "grant" ["bob", "FINALITY"] [rootHash],
    vertex "w" "alice" .acl "grant" ["bob", "WRITER"] ["g"],
    vertex "h" "alice" .acl "grant" ["carol", "WRITER"] ["w"]]

def uses : List Vertex :=
  [vertex "s" "bob" .acl "setKey" ["key"] ["w"], vertex "d" "carol" .drp "set" ["carol"] ["h"]]

def used : HashGraph := administered.addVertices uses

theorem administered_grown : administered.Grown :=
  initial_wellFormed.extends_addVertices (by decide +kernel)

theorem administered_extends_used : Extends administered used :=
  administered_grown.wellFormed.extends_addVertices (by decide +kernel)

def grants (vertex : Vertex) : Bool := vertex.hash ∈ ["g", "w", "h"]

theorem shielded_grants :
    Shielded (environment .revokeWins []).options administered used grants := by
  have noSwap : ∀ left ∈ used.hashes, ∀ right ∈ used.hashes,
      pairAction (environment .revokeWins []).options used left right ≠ .ok .swap := by
    decide +kernel
  -- The grant to `carol` is answered against the call, but never asked about.
  have answers : ∀ vertex ∈ used.created, ∀ other ∈ used.created, grants vertex = true →
      ((environment .revokeWins []).options.answer vertex other = .ok .nop ∧
        (environment .revokeWins []).options.answer other vertex = .ok .nop) ∨
      vertex.hash ∈ used.dependenciesOf other.hash ∨ other.hash ∈ used.dependenciesOf vertex.hash := by
    decide +kernel
  refine ⟨by decide, ?_, by decide +kernel, fun first firstMem second secondMem isGrant _ may => ?_,
    fun first firstMem second secondMem isGrant _ may => ?_⟩
  · have created : used.created = administered.created ++ uses := rfl
    intro vertex mem isGrant
    rw [created, List.mem_append] at mem
    rcases mem with old | new
    · exact List.mem_of_mem_filter old
    · simp only [uses, List.mem_cons, List.not_mem_nil, or_false] at new
      rcases new with rfl | rfl <;> exact absurd isGrant (by decide)
  · rcases answers first firstMem second secondMem isGrant with ⟨left, right⟩ | related
    · refine ⟨?_, ?_, ?_, ?_⟩ <;> simp [left, right]
    · exact absurd may (not_mayAsk noSwap related)
  · rcases answers first firstMem second secondMem isGrant with ⟨left, _⟩ | related
    · simp [left]
    · exact absurd may (not_mayAsk noSwap related)

def replayed (graph : HashGraph) : Except JsError ObjectACL := do
  let vertices ← linearizeVertices (environment .revokeWins []).options graph 0 rootHash
    (graph.causalPast graph.frontier)
  applyVertices ObjectACL.call genesis.aclState (splitOperation vertices).2

def grant : Vertex := vertex "g" "alice" .acl "grant" ["bob", "WRITER"] [rootHash]

def query : Vertex := vertex "q" "mallory" .acl "query_isAdmin" ["bob"] [rootHash]

def queryNames : List ((String × List Hash) × Hash) :=
  [(("alice", [rootHash]), "g"), (("mallory", [rootHash]), "q")]

end AclExample

end TsDrp
