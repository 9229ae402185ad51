import TsDrp.Acl.Replayable
import TsDrp.Linearize.PairSurvivors

/-!
# Linearizations without conflicts

A resolver that only drops leaves a set of vertices without conflicts.  For the
access control list that means: of a grant and a concurrent revocation of the
same peer the one that wins is always kept, and the other is never.
-/

namespace TsDrp

def Vertex.IsACLCall (vertex : Vertex) : Prop :=
  ∃ operation, vertex.operation = some operation ∧ operation.drpType = "ACL" ∧ operation.Writes

namespace HashGraph

open PairScan

variable {options : GraphOptions} {graph : HashGraph} {origin : Hash} {members : List Hash}
  {mode : ACLConflictResolution}

/-- The members behind the origin are calls on the access control list. -/
def OnlyACLCalls (graph : HashGraph) (origin : Hash) (members : List Hash) : Prop :=
  ∀ vertex ∈ graph.vertices, vertex.hash ∈ members → vertex.hash ≠ origin → vertex.IsACLCall

section

variable (calls : OnlyACLCalls graph origin members) (interval : graph.Interval origin members)
  (resolver : options.resolveConflictsACL = some (ObjectACL.resolveConflicts mode))
include calls interval resolver

theorem OnlyACLCalls.pairAction_eq {left right : Hash} (leftMem : left ∈ members)
    (rightMem : right ∈ members) (concurrent : graph.Concurrent left right) :
    ∃ leftVertex leftOperation rightVertex rightOperation,
      graph.getVertex left = some leftVertex ∧ leftVertex.operation = some leftOperation ∧
      graph.getVertex right = some rightVertex ∧ rightVertex.operation = some rightOperation ∧
      pairAction options graph left right =
        .ok (if mode.loses leftOperation rightOperation then .dropLeft
          else if mode.loses rightOperation leftOperation then .dropRight else .nop) := by
  have notOrigin := interval.ne_origin_of_concurrent rightMem concurrent
  have notOrigin' := interval.ne_origin_of_concurrent leftMem concurrent.symm
  rcases exists_getVertex (interval.present leftMem notOrigin) with ⟨leftVertex, leftFound⟩
  rcases exists_getVertex (interval.present rightMem notOrigin') with ⟨rightVertex, rightFound⟩
  cases getVertex_hash leftFound
  cases getVertex_hash rightFound
  rcases calls leftVertex (mem_of_getVertex leftFound) leftMem notOrigin with
    ⟨leftOperation, leftIs, isACL, leftWrites⟩
  rcases calls rightVertex (mem_of_getVertex rightFound) rightMem notOrigin' with
    ⟨rightOperation, rightIs, _, rightWrites⟩
  refine ⟨leftVertex, leftOperation, rightVertex, rightOperation, leftFound, leftIs, rightFound,
    rightIs, ?_⟩
  rw [pairAction_eq_answer leftFound rightFound, answer_of_acl resolver leftIs rightIs isACL,
    resolveOperations_eq leftWrites rightWrites]

theorem OnlyACLCalls.onlyDrops : OnlyDrops options graph members := by
  intro left leftMem right rightMem concurrent
  rcases calls.pairAction_eq interval resolver leftMem rightMem concurrent with
    ⟨_, leftOperation, _, rightOperation, _, _, _, _, answered⟩
  rw [answered]
  split
  · exact Or.inr (Or.inl rfl)
  · split
    · exact Or.inr (Or.inr rfl)
    · exact Or.inl rfl

theorem OnlyACLCalls.loses_of_dropsFor {winner loser : Hash} (winnerMem : winner ∈ members)
    (loserMem : loser ∈ members) (drops : DropsFor options graph winner loser) {vertex : Vertex}
    {operation : Operation} (found : graph.getVertex loser = some vertex)
    (isOperation : vertex.operation = some operation) : operation.opType = mode.loser := by
  have method : ∀ {other : Operation}, mode.loses operation other = true →
      operation.opType = mode.loser := by
    intro other lost
    simp only [ACLConflictResolution.loses, Bool.and_eq_true, decide_eq_true_eq] at lost
    exact lost.1.1
  rcases drops with ⟨concurrent, answered | answered⟩
  · rcases calls.pairAction_eq interval resolver loserMem winnerMem concurrent with
      ⟨left, leftOperation, _, rightOperation, leftFound, leftIs, _, _, same⟩
    cases found.symm.trans leftFound
    cases isOperation.symm.trans leftIs
    rw [answered] at same
    split at same
    · exact method (by assumption)
    · split at same <;> cases same
  · rcases calls.pairAction_eq interval resolver winnerMem loserMem concurrent.symm with
      ⟨_, leftOperation, right, rightOperation, _, _, rightFound, rightIs, same⟩
    cases found.symm.trans rightFound
    cases isOperation.symm.trans rightIs
    rw [answered] at same
    split at same
    · cases same
    · split at same
      · exact method (by assumption)
      · cases same

theorem OnlyACLCalls.ne_nop_of_targets {loser winner : Vertex}
    (loserFound : graph.getVertex loser.hash = some loser)
    (winnerFound : graph.getVertex winner.hash = some winner) (loserMem : loser.hash ∈ members)
    (winnerMem : winner.hash ∈ members) (concurrent : graph.Concurrent loser.hash winner.hash)
    {peer : String} (loserTargets : loser.Targets mode.loser peer)
    (winnerTargets : winner.Targets mode.winner peer) :
    pairAction options graph loser.hash winner.hash ≠ .ok .nop ∧
      pairAction options graph winner.hash loser.hash ≠ .ok .nop := by
  rcases loserTargets with ⟨loserOperation, loserIs, loserMethod, loserTarget⟩
  rcases winnerTargets with ⟨winnerOperation, winnerIs, winnerMethod, winnerTarget⟩
  have lost : mode.loses loserOperation winnerOperation = true := by
    simp [ACLConflictResolution.loses, loserMethod, winnerMethod, loserTarget, winnerTarget]
  constructor
  · rcases calls.pairAction_eq interval resolver loserMem winnerMem concurrent with
      ⟨left, leftOperation, right, rightOperation, leftFound, leftIs, rightFound, rightIs, answered⟩
    cases loserFound.symm.trans leftFound
    cases winnerFound.symm.trans rightFound
    cases loserIs.symm.trans leftIs
    cases winnerIs.symm.trans rightIs
    rw [answered, if_pos lost]
    simp
  · rcases calls.pairAction_eq interval resolver winnerMem loserMem concurrent.symm with
      ⟨left, leftOperation, right, rightOperation, leftFound, leftIs, rightFound, rightIs, answered⟩
    cases winnerFound.symm.trans leftFound
    cases loserFound.symm.trans rightFound
    cases winnerIs.symm.trans leftIs
    cases loserIs.symm.trans rightIs
    rw [answered, if_pos lost]
    split <;> simp

theorem OnlyACLCalls.winner_kept {order kept : List Hash}
    (survivors : Survivors options graph order kept) (orderMem : ∀ hash ∈ order, hash ∈ members)
    {winner : Vertex} {peer : String} (found : graph.getVertex winner.hash = some winner)
    (mem : winner.hash ∈ order) (targets : winner.Targets mode.winner peer) :
    winner.hash ∈ kept := by
  by_contra omitted
  rcases survivors.omitted winner.hash mem omitted with ⟨other, otherMem, drops, _⟩
  rcases targets with ⟨operation, isOperation, method, _⟩
  have isLoser := calls.loses_of_dropsFor interval resolver (orderMem _ otherMem) (orderMem _ mem)
    drops found isOperation
  have different : mode.loser ≠ mode.winner := by cases mode <;> decide
  exact different (isLoser.symm.trans method)

end

/--
A linearization of an interval with a resolver that only drops is a part of the
depth-first order.  Of two concurrent survivors the resolver answers `Nop`, and
every omitted vertex has a concurrent one for which it is dropped.  Where the
vertices are calls of `grant`, `revoke` and `setKey`, no call of the winning
method is omitted, and no call of the losing method that survives is concurrent
with a call of the winning method about the same peer.
-/
theorem pair_survivors_are_conflict_free (grown : graph.Grown)
    (interval : graph.Interval origin members) (fuel : ℕ) :
    (∀ options, OnlyDrops options graph members →
      ∃ order vertices, graph.dfsTopologicalSortIterative origin members = .ok (origin :: order) ∧
        linearizePairSemantics options graph fuel origin members = .ok vertices ∧
        (vertices.map (·.hash)).Sublist order ∧
        (vertices.Pairwise fun earlier later => graph.Concurrent earlier.hash later.hash →
          options.answer earlier later = .ok .nop) ∧
        ∀ hash ∈ order, hash ∉ vertices.map (·.hash) →
          ∃ winner ∈ order, DropsFor options graph winner hash) ∧
    ∀ options mode, options.resolveConflictsACL = some (ObjectACL.resolveConflicts mode) →
      OnlyACLCalls graph origin members →
      ∃ vertices, linearizePairSemantics options graph fuel origin members = .ok vertices ∧
        ∀ winner ∈ graph.vertices, winner.hash ∈ members → winner.hash ≠ origin →
          ∀ peer, winner.Targets mode.winner peer →
            winner ∈ vertices ∧ ∀ loser ∈ vertices, loser.Targets mode.loser peer →
              ¬graph.Concurrent loser.hash winner.hash := by
  have wellFormed := grown.wellFormed
  have present : ∀ {order}, graph.CausalOrder origin members (origin :: order) →
      ∀ hash ∈ order, hash ∈ graph.hashes := by
    intro order causalOrder hash mem
    apply interval.present ((causalOrder.mem hash).mp (.tail _ mem))
    rintro rfl
    exact (List.nodup_cons.mp causalOrder.nodup).1 mem
  constructor
  · intro options onlyDrops
    rcases interval.exists_survivors wellFormed onlyDrops fuel with
      ⟨order, kept, sorted, causalOrder, linearized, survivors⟩
    have sameHashes := map_hash_filterMap_getVertex fun hash mem =>
      present causalOrder hash (survivors.sublist.subset mem)
    refine ⟨order, _, sorted, linearized, ?_, ?_, ?_⟩
    · rw [sameHashes]
      exact survivors.sublist
    · have peaceful := survivors.peaceful
      rw [← sameHashes, List.pairwise_map] at peaceful
      refine List.Pairwise.imp_of_mem ?_ peaceful
      intro earlier later mem laterMem quiet concurrent
      rcases List.mem_filterMap.mp mem with ⟨hash, _, found⟩
      rcases List.mem_filterMap.mp laterMem with ⟨hash', _, found'⟩
      cases getVertex_hash found
      cases getVertex_hash found'
      rw [← pairAction_eq_answer found found']
      exact quiet concurrent
    · intro hash mem omitted
      rw [sameHashes] at omitted
      rcases survivors.omitted hash mem omitted with ⟨winner, winnerMem, drops, _⟩
      exact ⟨winner, winnerMem, drops⟩
  · intro options mode resolver calls
    rcases interval.exists_survivors wellFormed (calls.onlyDrops interval resolver) fuel with
      ⟨order, kept, sorted, causalOrder, linearized, survivors⟩
    have orderMem : ∀ hash ∈ order, hash ∈ members :=
      fun hash mem => (causalOrder.mem hash).mp (.tail _ mem)
    refine ⟨_, linearized, fun winner mem inMembers notOrigin peer targets => ?_⟩
    have found := getVertex_of_mem wellFormed.nodup mem
    have inOrder : winner.hash ∈ order :=
      (List.mem_cons.mp ((causalOrder.mem winner.hash).mpr inMembers)).resolve_left notOrigin
    have kept := calls.winner_kept interval resolver survivors orderMem found inOrder targets
    refine ⟨List.mem_filterMap.mpr ⟨_, kept, found⟩, fun loser loserMem loserTargets concurrent => ?_⟩
    rcases List.mem_filterMap.mp loserMem with ⟨hash, loserKept, loserFound⟩
    cases getVertex_hash loserFound
    have loud := calls.ne_nop_of_targets interval resolver loserFound found
      (orderMem _ (survivors.sublist.subset loserKept)) inMembers concurrent loserTargets targets
    exact (survivors.nop_of_concurrent loserKept kept concurrent).elim loud.1 loud.2

end HashGraph

namespace AclExample

open HashGraph

def disputed : HashGraph := initial.addVertices
  [vertex "g" "alice" .acl "grant" ["bob", "FINALITY"] [rootHash],
    vertex "r" "alice" .acl "revoke" ["bob", "FINALITY"] [rootHash],
    vertex "s" "bob" .acl "setKey" ["key"] ["g"]]

theorem disputed_grown : disputed.Grown := initial_wellFormed.extends_addVertices (by decide +kernel)

theorem disputed_onlyACLCalls : OnlyACLCalls disputed rootHash disputed.hashes := by
  intro call mem _ notRoot
  have vertices : disputed.vertices =
      [initial.vertices.head (by decide), vertex "g" "alice" .acl "grant" ["bob", "FINALITY"] [rootHash],
        vertex "r" "alice" .acl "revoke" ["bob", "FINALITY"] [rootHash],
        vertex "s" "bob" .acl "setKey" ["key"] ["g"]] := rfl
  rw [vertices] at mem
  simp only [List.mem_cons, List.not_mem_nil, or_false] at mem
  rcases mem with rfl | rfl | rfl | rfl
  · exact absurd rfl notRoot
  · exact ⟨_, rfl, rfl, Or.inl rfl, fun _ => ⟨"bob", rfl⟩⟩
  · exact ⟨_, rfl, rfl, Or.inr (Or.inl rfl), fun _ => ⟨"bob", rfl⟩⟩
  · exact ⟨_, rfl, rfl, Or.inr (Or.inr rfl), fun notKey => absurd rfl notKey⟩

end AclExample

open AclExample HashGraph in
theorem pair_survivors_are_conflict_free_disputed :
    ∃ order vertices,
      disputed.dfsTopologicalSortIterative rootHash disputed.hashes = .ok (rootHash :: order) ∧
      linearizePairSemantics (environment .revokeWins []).options disputed 0 rootHash disputed.hashes =
        .ok vertices ∧
      vertices.map (·.hash) = ["s", "r"] ∧
      (vertices.map (·.hash)).Sublist order ∧
      (∃ winner ∈ order, DropsFor (environment .revokeWins []).options disputed winner "g") ∧
      vertex "r" "alice" .acl "revoke" ["bob", "FINALITY"] [rootHash] ∈ vertices := by
  have interval := disputed_grown.wellFormed.past_hashes.interval disputed_grown.wellFormed
  rcases pair_survivors_are_conflict_free disputed_grown interval 0 with ⟨general, acl⟩
  rcases general (environment .revokeWins []).options
    (disputed_onlyACLCalls.onlyDrops interval (usesObjectACL .revokeWins []).resolver) with
    ⟨order, vertices, sorted, linearized, sublist, _, omitted⟩
  rcases acl (environment .revokeWins []).options .revokeWins (usesObjectACL .revokeWins []).resolver
    disputed_onlyACLCalls with ⟨vertices', linearized', winners⟩
  have order' : disputed.dfsTopologicalSortIterative rootHash disputed.hashes =
      .ok [rootHash, "g", "s", "r"] := by
    decide +kernel
  have hashes : (linearizePairSemantics (environment .revokeWins []).options disputed 0 rootHash
      disputed.hashes).map (·.map (·.hash)) = .ok ["s", "r"] := by
    decide +kernel
  cases sorted.symm.trans order'
  cases linearized.symm.trans linearized'
  rw [linearized, Outcome.map_ok, Except.ok.injEq] at hashes
  refine ⟨_, vertices, sorted, linearized, hashes, sublist, ?_, ?_⟩
  · apply omitted "g" (by decide)
    rw [hashes]
    decide
  · exact (winners (vertex "r" "alice" .acl "revoke" ["bob", "FINALITY"] [rootHash]) (by decide +kernel)
      (by decide +kernel) (by decide) "bob" ⟨_, rfl, rfl, rfl⟩).1

end TsDrp
