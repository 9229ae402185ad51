import TsDrp.Acl.Authority
import TsDrp.Acl.History
import TsDrp.Applier.Acceptance

/-!
# Replaying accepted operations of the access control list

Every operation is checked against its own causal past when it is accepted, and
is replayed after concurrent operations and without ancestors that a conflict
has dropped.  It can fail there: a key is set by a signer whose permission was
revoked concurrently, or an admin acts whose grant was dropped.  Where no grant
of the right to administer and no key is concurrent with a revocation of the
same peer, and nothing but a grant or a revocation costs one its place, every
closed set of accepted operations replays.
-/

namespace TsDrp

open HashGraph

/-- The methods that write the list, called on the list. -/
def Vertex.writesACL (vertex : Vertex) : Bool :=
  match vertex.operation with
  | none => false
  | some operation =>
    operation.drpType = "ACL" &&
      (operation.opType = "grant" || operation.opType = "revoke" || operation.opType = "setKey")

theorem Vertex.writesACL_eq_true {vertex : Vertex} : vertex.writesACL = true ↔
    ∃ operation, vertex.operation = some operation ∧ operation.drpType = "ACL" ∧
      (operation.opType = "grant" ∨ operation.opType = "revoke" ∨ operation.opType = "setKey") := by
  unfold writesACL
  cases vertex.operation <;> simp [or_assoc]

/-- No conflict that could take from an operation what it was accepted with. -/
structure Undisputed (options : GraphOptions) (mode : ACLConflictResolution) (graph : HashGraph) :
    Prop where
  known : ∀ vertex ∈ graph.created, vertex.KnownType
  named : ∀ vertex ∈ graph.created, ∀ operation, vertex.operation = some operation →
    operation.drpType = "ACL" → operation.opType = "grant" ∨ operation.opType = "revoke" →
      ∃ peer, operation.target = .string peer
  spared : ∀ vertex ∈ graph.created, ∀ other ∈ graph.created, vertex.writesACL = true →
    other.writesACL = false → graph.MayAsk options vertex.hash other.hash →
      options.Spares vertex other
  admins : mode = .revokeWins → ∀ grant ∈ graph.created, ∀ revocation ∈ graph.created,
    grant.writesACL = true → revocation.writesACL = true → ∀ peer, grant.Does "grant" peer .admin →
      revocation.Targets "revoke" peer → ¬graph.Concurrent grant.hash revocation.hash
  keys : ∀ key ∈ graph.created, ∀ revocation ∈ graph.created, key.writesACL = true →
    revocation.writesACL = true → (∃ operation, key.operation = some operation ∧
      operation.opType = "setKey") → revocation.Targets "revoke" key.peerId →
        ¬graph.Concurrent key.hash revocation.hash

/-- Accepted vertices of an object with an `ObjectACL` and pair semantics. -/
structure AcceptedHistory {Drp : Type} (env : Environment Drp ObjectACL) (mode : ACLConflictResolution)
    (genesis : ReplayState Drp ObjectACL) (graph : HashGraph) : Prop where
  uses : env.UsesObjectACL mode
  pair : env.options.semanticsTypeDRP = some .pair
  grown : graph.Grown
  accepted : ∀ vertex ∈ graph.created, env.AcceptedOnPast genesis graph vertex
  undisputed : Undisputed env.options mode graph

namespace AcceptedHistory

variable {Drp : Type} {env : Environment Drp ObjectACL} {mode : ACLConflictResolution}
  {genesis : ReplayState Drp ObjectACL} {graph : HashGraph}

def loses (mode : ACLConflictResolution) (vertex other : Vertex) : Bool :=
  match vertex.operation, other.operation with
  | some operation, some otherOperation => mode.loses operation otherOperation
  | _, _ => false

section

variable (history : AcceptedHistory env mode genesis graph)
include history

theorem exists_call {vertex : Vertex} (mem : vertex ∈ graph.created) {operation : Operation}
    (found : vertex.operation = some operation) (isACL : operation.drpType = "ACL") :
    ∃ vertices acl result,
      linearizeVertices env.options graph env.fuel rootHash (graph.causalPast vertex.dependencies) =
        .ok vertices ∧
      applyVertices ObjectACL.call genesis.aclState (splitOperation vertices).2 = .ok acl ∧
      acl.call vertex.peerId operation.opType operation.value = .ok result := by
  rcases history.accepted vertex mem with ⟨base, staged, replayed, run⟩
  rcases Outcome.bind_eq_ok.mp replayed with ⟨vertices, linearized, replayed⟩
  rcases ObjectCode.stage_eq_ok.mp run with ⟨_, same, _, applied⟩
  cases same
  have aclReplayed := (env.code.replay_eq_ok.mp replayed).1
  have drpType : vertex.drpType = some "ACL" := by rw [Vertex.drpType, found, ← isACL]; rfl
  rw [ObjectCode.applyFn, found] at applied
  simp only [Vertex.isACL, drpType, decide_true, if_true] at applied
  rcases Outcome.map_eq_ok.mp applied with ⟨result, called, _⟩
  rw [history.uses.call] at aclReplayed called
  exact ⟨vertices, base.aclState, result, linearized, aclReplayed, called⟩

theorem writes {vertex : Vertex} (mem : vertex ∈ graph.created)
    (isWrite : vertex.writesACL = true) :
    ∃ operation, vertex.operation = some operation ∧ operation.drpType = "ACL" ∧ operation.Writes := by
  rcases Vertex.writesACL_eq_true.mp isWrite with ⟨operation, found, isACL, method⟩
  refine ⟨operation, found, isACL, method, fun notKey => ?_⟩
  apply history.undisputed.named vertex mem operation found isACL
  rcases method with isGrant | isRevoke | isKey
  · exact Or.inl isGrant
  · exact Or.inr isRevoke
  · exact absurd isKey notKey

theorem answer_eq {left right : Vertex} (leftMem : left ∈ graph.created)
    (rightMem : right ∈ graph.created) (leftWrites : left.writesACL = true)
    (rightWrites : right.writesACL = true) : env.options.answer left right =
      .ok (if loses mode left right then .dropLeft
        else if loses mode right left then .dropRight else .nop) := by
  rcases history.writes leftMem leftWrites with ⟨leftOperation, leftFound, isACL, leftWrites⟩
  rcases history.writes rightMem rightWrites with ⟨rightOperation, rightFound, _, rightWrites⟩
  rw [answer_of_acl history.uses.resolver leftFound rightFound isACL,
    resolveOperations_eq leftWrites rightWrites]
  simp only [loses, leftFound, rightFound]

end

theorem loses_final {vertex winner other : Vertex} (lost : loses mode vertex winner = true) :
    loses mode other vertex = false := by
  have loserWinner : mode.loser ≠ mode.winner := by cases mode <;> decide
  unfold loses at lost ⊢
  split at lost
  case h_1 operation _ found _ =>
    have isLoser : operation.opType = mode.loser := by
      simp only [ACLConflictResolution.loses, Bool.and_eq_true, decide_eq_true_eq] at lost
      exact lost.1.1
    rw [found]
    split
    case h_1 => simp_all [ACLConflictResolution.loses]
    case h_2 => rfl
  case h_2 => cases lost

theorem targets_of_grant_loses {vertex other : Vertex} {peer : String}
    (grants : vertex.Targets "grant" peer) (lost : loses mode vertex other = true) :
    mode = .revokeWins ∧ other.Targets "revoke" peer := by
  rcases grants with ⟨operation, found, isGrant, target⟩
  rw [loses, found] at lost
  split at lost
  case h_1 _ otherOperation same otherFound =>
    cases same
    simp only [ACLConflictResolution.loses, isGrant, target, Bool.and_eq_true, decide_eq_true_eq] at lost
    have isRevokeWins : mode = .revokeWins := by
      cases mode with
      | grantWins => exact absurd lost.1.1 (by decide)
      | revokeWins => rfl
    subst isRevokeWins
    have same := JsValue.strictEquals_string_left lost.2
    exact ⟨rfl, otherOperation, otherFound, lost.1.2, same⟩
  case h_2 => cases lost

theorem loses_of_targets {grant revocation : Vertex} {peer : String}
    (grants : grant.Targets "grant" peer) (revokes : revocation.Targets "revoke" peer) :
    loses mode grant revocation = true ∨ loses mode revocation grant = true := by
  rcases grants with ⟨operation, found, isGrant, target⟩
  rcases revokes with ⟨otherOperation, otherFound, isRevoke, otherTarget⟩
  rw [loses, loses, found, otherFound]
  cases mode with
  | grantWins =>
    right
    simp [ACLConflictResolution.loses, ACLConflictResolution.loser, ACLConflictResolution.winner,
      isGrant, isRevoke, target, otherTarget]
  | revokeWins =>
    left
    simp [ACLConflictResolution.loses, ACLConflictResolution.loser, ACLConflictResolution.winner,
      isGrant, isRevoke, target, otherTarget]

theorem hash_ne_of_methods (history : AcceptedHistory env mode genesis graph) {vertex other : Vertex}
    (mem : vertex ∈ graph.created) (otherMem : other ∈ graph.created)
    {operation otherOperation : Operation} (found : vertex.operation = some operation)
    (otherFound : other.operation = some otherOperation)
    (different : operation.opType ≠ otherOperation.opType) : vertex.hash ≠ other.hash := by
  intro same
  have nodup := history.grown.wellFormed.nodup
  have lookup := getVertex_of_mem nodup (List.mem_of_mem_filter mem)
  rw [same, getVertex_of_mem nodup (List.mem_of_mem_filter otherMem)] at lookup
  cases lookup
  rw [found] at otherFound
  cases otherFound
  exact different rfl

section Chronicle

variable {members : List Hash}

def losesHash (mode : ACLConflictResolution) (graph : HashGraph) (hash other : Hash) : Bool :=
  match graph.getVertex hash, graph.getVertex other with
  | some vertex, some otherVertex => loses mode vertex otherVertex
  | _, _ => false

theorem losesHash_eq {hash other : Hash} {vertex otherVertex : Vertex}
    (found : graph.getVertex hash = some vertex) (otherFound : graph.getVertex other = some otherVertex) :
    losesHash mode graph hash other = loses mode vertex otherVertex := by
  rw [losesHash, found, otherFound]

section

variable (history : AcceptedHistory env mode genesis graph)
include history

theorem selects_root : graph.selects (·.writesACL) rootHash = false := by
  rw [selects_eq history.grown.wellFormed.root]
  rfl

theorem exists_write (past : graph.Past members) {hash : Hash}
    (mem : hash ∈ members.filter (graph.selects (·.writesACL))) :
    ∃ vertex ∈ graph.created, graph.getVertex hash = some vertex ∧ vertex.writesACL = true := by
  rcases List.mem_filter.mp mem with ⟨inMembers, isChosen⟩
  have notRoot : hash ≠ rootHash := by
    rintro rfl
    rw [history.selects_root] at isChosen
    cases isChosen
  rcases past.exists_created (List.mem_filter.mpr ⟨inMembers, by simpa using notRoot⟩) with
    ⟨vertex, vertexMem, found⟩
  rw [selects_eq found] at isChosen
  exact ⟨vertex, vertexMem, found, isChosen⟩

theorem decided (past : graph.Past members) :
    PairScan.Decided (pairAction env.options graph) (losesHash mode graph)
      (members.filter (graph.selects (·.writesACL))) := by
  refine ⟨fun left leftMem right rightMem => ?_, fun hash mem winner winnerMem lost other otherMem => ?_⟩
  · rcases history.exists_write past leftMem with ⟨leftVertex, leftCreated, leftFound, leftWrites⟩
    rcases history.exists_write past rightMem with ⟨rightVertex, rightCreated, rightFound, rightWrites⟩
    rw [pairAction_eq_answer leftFound rightFound, losesHash_eq leftFound rightFound,
      losesHash_eq rightFound leftFound,
      history.answer_eq leftCreated rightCreated leftWrites rightWrites]
  · rcases history.exists_write past mem with ⟨vertex, _, found, _⟩
    rcases history.exists_write past winnerMem with ⟨winnerVertex, _, winnerFound, _⟩
    rcases history.exists_write past otherMem with ⟨otherVertex, _, otherFound, _⟩
    rw [losesHash_eq found winnerFound] at lost
    rw [losesHash_eq otherFound found]
    exact loses_final lost

end

/-- The replayed operations of the list in a closed set: what is among them and in which order. -/
structure Chronicle (mode : ACLConflictResolution) (graph : HashGraph) (members : List Hash)
    (list : List Vertex) (order : List Hash) : Prop where
  sorted : graph.dfsTopologicalSortIterative rootHash members = .ok order
  causal : graph.CausalOrder rootHash members order
  created : ∀ vertex ∈ list, vertex ∈ graph.created ∧ vertex.hash ∈ members ∧
    ∃ operation, vertex.operation = some operation ∧ operation.drpType = "ACL"
  sublist : ((list.filter (·.writesACL)).map (·.hash)).Sublist order
  kept : ∀ vertex ∈ graph.created, vertex.hash ∈ members → vertex.writesACL = true →
    (vertex ∈ list ↔ ∀ other ∈ graph.created, other.hash ∈ members → other.writesACL = true →
      graph.Concurrent vertex.hash other.hash → loses mode vertex other = false)

theorem exists_chronicle (history : AcceptedHistory env mode genesis graph)
    (past : graph.Past members) {vertices : List Vertex}
    (linearized : linearizeVertices env.options graph env.fuel rootHash members = .ok vertices) :
    ∃ order, Chronicle mode graph members (splitOperation vertices).2 order := by
  have wellFormed := history.grown.wellFormed
  have spares := past.spares history.undisputed.spared
    fun vertex mem other otherMem isWrite otherWrite _ => by
      rw [history.answer_eq mem otherMem isWrite otherWrite]
      split
      · simp
      · split <;> simp
  rcases past.linearizeVertices_decided wellFormed history.pair spares history.selects_root
    (history.decided past) linearized with ⟨order, sorted, causal, sublist, kept⟩
  have listed : ∀ vertex ∈ vertices, vertex.hash ∈ members ∧
      graph.getVertex vertex.hash = some vertex :=
    fun vertex mem => past.mem_linearizeVertices wellFormed linearized mem
  have sameFilter : (splitOperation vertices).2.filter (·.writesACL) =
      vertices.filter fun vertex => graph.selects (·.writesACL) vertex.hash := by
    unfold splitOperation
    simp only [List.filter_filter]
    apply List.filter_congr
    intro vertex mem
    rw [selects_eq (listed vertex mem).2]
    cases isWrite : vertex.writesACL with
    | false => rfl
    | true =>
      rcases Vertex.writesACL_eq_true.mp isWrite with ⟨operation, found, isACL, _⟩
      simp [Vertex.isDRP, Vertex.drpType, found, isACL]
  refine ⟨order, sorted, causal, fun vertex mem => ?_, sameFilter ▸ sublist,
    fun vertex mem inMembers isWrite => ?_⟩
  · rcases mem_splitOperation_acl.mp mem with ⟨mem, operation, found, notDRP⟩
    have isCreated := past.created_of_linearizeVertices wellFormed history.pair linearized mem
    refine ⟨isCreated, (listed vertex mem).1, operation, found, ?_⟩
    have known := history.undisputed.known vertex isCreated
    simpa [Vertex.KnownType, Vertex.drpType, found, notDRP] using known
  · have found := getVertex_of_mem wellFormed.nodup (List.mem_of_mem_filter mem)
    rcases Vertex.writesACL_eq_true.mp isWrite with ⟨operation, isOperation, isACL, _⟩
    have inList : vertex ∈ (splitOperation vertices).2 ↔ vertex.hash ∈ vertices.map (·.hash) := by
      rw [mem_splitOperation_acl]
      constructor
      · exact fun mem => List.mem_map_of_mem mem.1
      · intro mem
        rcases List.mem_map.mp mem with ⟨other, otherMem, same⟩
        have otherFound := (listed other otherMem).2
        rw [same, found] at otherFound
        cases otherFound
        exact ⟨otherMem, operation, isOperation, by simp [isACL]⟩
    rw [inList, kept vertex.hash inMembers (by rwa [selects_eq found])]
    constructor
    · intro unbeaten other otherCreated otherMem otherWrite concurrent
      have otherFound := getVertex_of_mem wellFormed.nodup (List.mem_of_mem_filter otherCreated)
      rw [← losesHash_eq found otherFound]
      exact unbeaten other.hash otherMem (by rwa [selects_eq otherFound]) concurrent
    · intro unbeaten other otherMem isChosen concurrent
      rcases history.exists_write past (List.mem_filter.mpr ⟨otherMem, isChosen⟩) with
        ⟨otherVertex, otherCreated, otherFound, otherWrite⟩
      rw [losesHash_eq found otherFound]
      rw [← getVertex_hash otherFound] at otherMem concurrent
      exact unbeaten otherVertex otherCreated otherMem otherWrite concurrent

section

variable {list : List Vertex} {order : List Hash}
  (chronicle : Chronicle mode graph members list order)
include chronicle

theorem Chronicle.writes_of_targets {vertex : Vertex} (mem : vertex ∈ list) {method peer : String}
    (targets : vertex.Targets method peer) (isWrite : method = "grant" ∨ method = "revoke") :
    vertex.writesACL = true := by
  rcases targets with ⟨operation, found, rfl, _⟩
  rcases (chronicle.created vertex mem).2.2 with ⟨same, sameFound, isACL⟩
  rw [found] at sameFound
  cases sameFound
  exact Vertex.writesACL_eq_true.mpr ⟨operation, found, isACL, by tauto⟩

theorem Chronicle.ordered {before after : List Vertex} {vertex : Vertex}
    (shape : list = before ++ vertex :: after) (isWrite : vertex.writesACL = true) :
    (∀ other ∈ before, other.writesACL = true → ¬graph.Precedes vertex.hash other.hash) ∧
      ∀ other ∈ after, other.writesACL = true → ¬graph.Precedes other.hash vertex.hash := by
  have pairwise := chronicle.causal.ordered.sublist chronicle.sublist
  rw [shape, List.filter_append, List.filter_cons_of_pos isWrite, List.pairwise_map,
    List.pairwise_append, List.pairwise_cons] at pairwise
  rcases pairwise with ⟨_, ⟨later, _⟩, earlier⟩
  constructor
  · intro other mem otherWrite
    exact earlier other (List.mem_filter.mpr ⟨mem, otherWrite⟩) vertex List.mem_cons_self
  · intro other mem otherWrite
    exact later other (List.mem_filter.mpr ⟨mem, otherWrite⟩)

theorem Chronicle.pair_sublist {before after : List Vertex} {first second : Vertex}
    (shape : list = before ++ first :: after) (mem : second ∈ after)
    (firstWrite : first.writesACL = true) (secondWrite : second.writesACL = true) :
    [first.hash, second.hash].Sublist order := by
  refine List.Sublist.trans ?_ chronicle.sublist
  rw [shape, List.filter_append, List.filter_cons_of_pos firstWrite, List.map_append, List.map_cons]
  refine List.Sublist.trans (List.Sublist.cons_cons _ ?_) (List.sublist_append_right _ _)
  exact List.singleton_sublist.mpr (List.mem_map_of_mem (List.mem_filter.mpr ⟨mem, secondWrite⟩))

end

theorem not_pair_sublist_both {order : List Hash} (nodup : order.Nodup) {first second : Hash}
    (forward : [first, second].Sublist order) (backward : [second, first].Sublist order) : False := by
  induction order with
  | nil => cases forward
  | cons hash rest ih =>
    rw [List.nodup_cons] at nodup
    cases forward with
    | cons _ forward =>
      cases backward with
      | cons _ backward => exact ih nodup.2 forward backward
      | cons_cons _ backward => exact nodup.1 (forward.subset (.tail _ List.mem_cons_self))
    | cons_cons _ forward =>
      cases backward with
      | cons _ backward => exact nodup.1 (backward.subset (.tail _ List.mem_cons_self))
      | cons_cons _ _ => exact nodup.1 (forward.subset List.mem_cons_self)

end Chronicle

/--
A replayed vertex in its place: the operations replayed before and after it, and
those it was accepted after.
-/
structure Placed (mode : ACLConflictResolution) (genesis : ObjectACL) (graph : HashGraph)
    (members : List Hash) (vertex : Vertex) (operation : Operation) (before after own : List Vertex)
    (acl ownAcl : ObjectACL) : Prop where
  past : graph.Past members
  chronicle : ∃ order, Chronicle mode graph members (before ++ vertex :: after) order ∧
    ∃ ownOrder, Chronicle mode graph (graph.causalPast vertex.dependencies) own ownOrder ∧
      ownOrder.Sublist order
  precedes : ∀ hash, hash ∈ graph.causalPast vertex.dependencies ↔ graph.Precedes hash vertex.hash
  found : vertex.operation = some operation
  run : applyVertices ObjectACL.call genesis before = .ok acl
  ownRun : applyVertices ObjectACL.call genesis own = .ok ownAcl
  called : ∃ result, ownAcl.call vertex.peerId operation.opType operation.value = .ok result

section Placed

variable {members : List Hash} {vertex : Vertex} {operation : Operation}
  {before after own : List Vertex} {acl ownAcl : ObjectACL} {peer : String} {group : ACLGroup}

theorem exists_placed (history : AcceptedHistory env mode genesis graph) (past : graph.Past members)
    {vertices : List Vertex}
    (linearized : linearizeVertices env.options graph env.fuel rootHash members = .ok vertices)
    (shape : (splitOperation vertices).2 = before ++ vertex :: after)
    (run : applyVertices ObjectACL.call genesis.aclState before = .ok acl) :
    ∃ operation own ownAcl,
      Placed mode genesis.aclState graph members vertex operation before after own acl ownAcl := by
  have wellFormed := history.grown.wellFormed
  rcases history.exists_chronicle past linearized with ⟨order, chronicle⟩
  rw [shape] at chronicle
  rcases chronicle.created vertex (List.mem_append_right _ List.mem_cons_self) with
    ⟨isCreated, inMembers, operation, found, isACL⟩
  have inGraph := List.mem_of_mem_filter isCreated
  have dependencies : graph.dependenciesOf vertex.hash = vertex.dependencies :=
    dependenciesOf_eq (getVertex_of_mem wellFormed.nodup inGraph)
  have precedes : ∀ hash, hash ∈ graph.causalPast vertex.dependencies ↔
      graph.Precedes hash vertex.hash := by
    intro hash
    rw [← dependencies]
    exact wellFormed.mem_causalPast_dependencies
  have ownPast : graph.Past (graph.causalPast vertex.dependencies) := by
    rw [← dependencies]
    apply wellFormed.causalPast_past
    · exact wellFormed.nonempty vertex.hash (hash_mem_of_mem inGraph)
        (by simpa using (List.mem_filter.mp isCreated).2)
    · exact fun hash mem => wellFormed.present mem
  rcases history.exists_call isCreated found isACL with
    ⟨ownVertices, ownAcl, result, ownLinearized, ownRun, called⟩
  rcases history.exists_chronicle ownPast ownLinearized with ⟨ownOrder, ownChronicle⟩
  have restricted := ownPast.dfs_filter past wellFormed
    (fun hash mem => past.precedes_mem ((precedes hash).mp mem) inMembers) chronicle.sorted
  rw [ownChronicle.sorted] at restricted
  have sublist : ownOrder.Sublist order := by
    rw [Except.ok.inj restricted]
    exact List.filter_sublist
  exact ⟨operation, _, ownAcl, past, ⟨order, chronicle, ownOrder, ownChronicle, sublist⟩, precedes,
    found, run, ownRun, result, called⟩

namespace Placed

section

variable {other : Vertex}
  (placed : Placed mode genesis.aclState graph members vertex operation before after own acl ownAcl)
include placed

theorem created : vertex ∈ graph.created ∧ vertex.hash ∈ members := by
  rcases placed.chronicle with ⟨_, chronicle, _⟩
  rcases chronicle.created vertex (List.mem_append_right _ List.mem_cons_self) with
    ⟨isCreated, inMembers, _⟩
  exact ⟨isCreated, inMembers⟩

theorem mem_own (mem : other ∈ before ++ vertex :: after) (isWrite : other.writesACL = true)
    (precedes : graph.Precedes other.hash vertex.hash) : other ∈ own := by
  rcases placed.chronicle with ⟨_, chronicle, _, ownChronicle, _⟩
  rcases chronicle.created other mem with ⟨isCreated, inMembers, _⟩
  rw [ownChronicle.kept other isCreated ((placed.precedes _).mpr precedes) isWrite]
  intro rival rivalCreated rivalMem
  exact (chronicle.kept other isCreated inMembers isWrite).mp mem rival rivalCreated
    (placed.past.precedes_mem ((placed.precedes _).mp rivalMem) placed.created.2)

theorem mem_before (vertexWrite : vertex.writesACL = true)
    (acyclic : ¬graph.Precedes vertex.hash vertex.hash) (mem : other ∈ before ++ vertex :: after)
    (isWrite : other.writesACL = true) (precedes : graph.Precedes other.hash vertex.hash) :
    other ∈ before := by
  rcases placed.chronicle with ⟨_, chronicle, _⟩
  rcases List.mem_append.mp mem with inBefore | inRest
  · exact inBefore
  · rcases List.mem_cons.mp inRest with rfl | inAfter
    · exact absurd precedes acyclic
    · exact absurd precedes ((chronicle.ordered rfl vertexWrite).2 other inAfter isWrite)

theorem precedes_of_before (vertexWrite : vertex.writesACL = true) (mem : other ∈ before)
    (isWrite : other.writesACL = true) (different : other.hash ≠ vertex.hash)
    (notConcurrent : ¬graph.Concurrent vertex.hash other.hash) :
    graph.Precedes other.hash vertex.hash := by
  rcases placed.chronicle with ⟨_, chronicle, _⟩
  have notAfter := (chronicle.ordered rfl vertexWrite).1 other mem isWrite
  by_contra notBefore
  exact notConcurrent ⟨different.symm, notAfter, notBefore⟩

end

section

variable (history : AcceptedHistory env mode genesis graph)
  (placed : Placed mode genesis.aclState graph members vertex operation before after own acl ownAcl)
include history placed

theorem admin
    (isWrite : vertex.writesACL = true) (admin : ownAcl.has (.string vertex.peerId) .admin = true) :
    acl.has (.string vertex.peerId) .admin = true := by
  rcases placed.chronicle with ⟨_, chronicle, _, ownChronicle, _⟩
  rw [ObjectACL.has_admin_applyVertices placed.run]
  rcases (ObjectACL.has_admin_applyVertices placed.ownRun).mp admin with atGenesis | ⟨grant, mem, grants⟩
  · exact Or.inl atGenesis
  · have grantWrite := ownChronicle.writes_of_targets mem grants.targets (Or.inl rfl)
    rcases ownChronicle.created grant mem with ⟨isCreated, inOwn, _⟩
    have precedes := (placed.precedes _).mp inOwn
    have inMembers := placed.past.precedes_mem precedes placed.created.2
    refine Or.inr ⟨grant, ?_, grants⟩
    apply placed.mem_before isWrite (history.grown.wellFormed.acyclic _) _ grantWrite precedes
    rw [chronicle.kept grant isCreated inMembers grantWrite]
    intro rival rivalCreated _ rivalWrite concurrent
    rw [Bool.eq_false_iff]
    intro lost
    rcases targets_of_grant_loses grants.targets lost with ⟨revokeWins, revokes⟩
    exact history.undisputed.admins revokeWins grant isCreated rival rivalCreated grantWrite rivalWrite
      vertex.peerId grants revokes concurrent

theorem notAdmin (isWrite : vertex.writesACL = true) {peer : String}
    (revokes : vertex.Targets "revoke" peer) (notAdmin : ownAcl.has (.string peer) .admin = false) :
    acl.has (.string peer) .admin = false := by
  rcases placed.chronicle with ⟨_, chronicle, _⟩
  rcases placed.created with ⟨isCreated, inMembers⟩
  rw [Bool.eq_false_iff] at notAdmin ⊢
  intro admin
  apply notAdmin
  rw [ObjectACL.has_admin_applyVertices placed.ownRun]
  rcases (ObjectACL.has_admin_applyVertices placed.run).mp admin with atGenesis | ⟨grant, mem, grants⟩
  · exact Or.inl atGenesis
  · have grantInList : grant ∈ before ++ vertex :: after := List.mem_append_left _ mem
    have grantWrite := chronicle.writes_of_targets grantInList grants.targets (Or.inl rfl)
    rcases chronicle.created grant grantInList with ⟨grantCreated, grantMem, _⟩
    have different : grant.hash ≠ vertex.hash := by
      rcases grants with ⟨_, grantFound, isGrant, _⟩
      rcases revokes with ⟨_, found, isRevoke, _⟩
      exact history.hash_ne_of_methods grantCreated isCreated grantFound found
        (by rw [isGrant, isRevoke]; decide)
    refine Or.inr ⟨grant, placed.mem_own grantInList grantWrite ?_, grants⟩
    apply placed.precedes_of_before isWrite mem grantWrite different
    -- A concurrent grant and the revocation would not both have been kept.
    intro concurrent
    rcases @loses_of_targets mode grant vertex peer grants.targets revokes with lost | lost
    · have unbeaten := (chronicle.kept grant grantCreated grantMem grantWrite).mp grantInList vertex
        isCreated inMembers isWrite concurrent.symm
      rw [lost] at unbeaten
      cases unbeaten
    · have unbeaten := (chronicle.kept vertex isCreated inMembers isWrite).mp
        (List.mem_append_right _ List.mem_cons_self) grant grantCreated grantMem grantWrite concurrent
      rw [lost] at unbeaten
      cases unbeaten

section

variable (isWrite : vertex.writesACL = true) (isKey : operation.opType = "setKey")
include isWrite isKey

theorem mem_own_of_revokes {revocation : Vertex} (mem : revocation ∈ before)
    (revokes : revocation.Targets "revoke" vertex.peerId) : revocation ∈ own := by
  rcases placed.chronicle with ⟨_, chronicle, _⟩
  have inList : revocation ∈ before ++ vertex :: after := List.mem_append_left _ mem
  rcases placed.created with ⟨isCreated, _⟩
  rcases chronicle.created revocation inList with ⟨revocationCreated, _, _⟩
  have revocationWrite := chronicle.writes_of_targets inList revokes (Or.inr rfl)
  have different : revocation.hash ≠ vertex.hash := by
    rcases revokes with ⟨_, found, isRevoke, _⟩
    exact history.hash_ne_of_methods revocationCreated isCreated found placed.found
      (by rw [isRevoke, isKey]; decide)
  apply placed.mem_own inList revocationWrite
  apply placed.precedes_of_before isWrite mem revocationWrite different
  exact history.undisputed.keys vertex isCreated revocation revocationCreated isWrite revocationWrite
    ⟨operation, placed.found, isKey⟩ revokes

theorem mem_before_of_grants {grant : Vertex} (mem : grant ∈ own)
    (grants : grant.Targets "grant" vertex.peerId) : grant ∈ before := by
  rcases placed.chronicle with ⟨_, chronicle, _, ownChronicle, _⟩
  rcases placed.created with ⟨isCreated, inMembers⟩
  rcases ownChronicle.created grant mem with ⟨grantCreated, inOwn, _⟩
  have grantWrite := ownChronicle.writes_of_targets mem grants (Or.inl rfl)
  have precedes := (placed.precedes _).mp inOwn
  have grantMem := placed.past.precedes_mem precedes inMembers
  apply placed.mem_before isWrite (history.grown.wellFormed.acyclic _) _ grantWrite precedes
  rw [chronicle.kept grant grantCreated grantMem grantWrite]
  intro rival rivalCreated _ rivalWrite concurrent
  rw [Bool.eq_false_iff]
  intro lost
  rcases targets_of_grant_loses grants lost with ⟨_, revokes⟩
  -- The rival comes after the key, and so after the grant, or it is in the key's own past.
  have different : vertex.hash ≠ rival.hash := by
    rcases revokes with ⟨_, found, isRevoke, _⟩
    exact history.hash_ne_of_methods isCreated rivalCreated placed.found found
      (by rw [isRevoke, isKey]; decide)
  apply history.undisputed.keys vertex isCreated rival rivalCreated isWrite rivalWrite
    ⟨operation, placed.found, isKey⟩ revokes
  refine ⟨different, fun keyFirst => concurrent.2.1 (precedes.trans keyFirst), fun rivalFirst => ?_⟩
  have unbeaten := (ownChronicle.kept grant grantCreated inOwn grantWrite).mp mem rival rivalCreated
    ((placed.precedes _).mpr rivalFirst) rivalWrite concurrent
  rw [lost] at unbeaten
  cases unbeaten

theorem signer
    (signer : ownAcl.has (.string vertex.peerId) .finality = true) :
    acl.has (.string vertex.peerId) .finality = true := by
  rw [ObjectACL.has_applyVertices placed.run]
  rcases (ObjectACL.has_applyVertices placed.ownRun).mp signer with
    ⟨atGenesis, never⟩ | ⟨first, grant, rest, shape, grants, notLater⟩
  · refine Or.inl ⟨atGenesis, fun revocation mem removes => ?_⟩
    exact never revocation (placed.mem_own_of_revokes history isWrite isKey mem removes.1.targets)
      removes
  · have inOwn : grant ∈ own := shape ▸ List.mem_append_right _ List.mem_cons_self
    have inBefore := placed.mem_before_of_grants history isWrite isKey inOwn grants.targets
    rcases List.append_of_mem inBefore with ⟨earlier, later, rfl⟩
    refine Or.inr ⟨earlier, grant, later, rfl, grants, fun revocation mem removes => ?_⟩
    have revocationMem : revocation ∈ earlier ++ grant :: later :=
      List.mem_append_right _ (.tail _ mem)
    have revocationOwn := placed.mem_own_of_revokes history isWrite isKey revocationMem removes.1.targets
    rw [shape] at revocationOwn
    rcases List.mem_append.mp revocationOwn with inFirst | inRest
    · -- The two lists would have the grant and the revocation in opposite orders.
      rcases placed.chronicle with ⟨order, chronicle, ownOrder, ownChronicle, sublist⟩
      have grantWrite := ownChronicle.writes_of_targets inOwn grants.targets (Or.inl rfl)
      have revocationWrite := ownChronicle.writes_of_targets (shape ▸ revocationOwn)
        removes.1.targets (Or.inr rfl)
      rcases List.append_of_mem inFirst with ⟨start, middle, rfl⟩
      have backward := ownChronicle.pair_sublist (shape.trans (List.append_assoc _ _ _))
        (List.mem_append_right _ List.mem_cons_self) revocationWrite grantWrite
      have forward := chronicle.pair_sublist (List.append_assoc _ _ _)
        (List.mem_append_left _ mem) grantWrite revocationWrite
      exact not_pair_sublist_both chronicle.causal.nodup forward (backward.trans sublist)
    · rcases List.mem_cons.mp inRest with rfl | inRest
      · rcases grants with ⟨_, found, isGrant, _⟩
        rcases removes.1 with ⟨_, found', isRevoke, _⟩
        rw [found] at found'
        cases found'
        rw [isGrant] at isRevoke
        exact absurd isRevoke (by decide)
      · exact notLater revocation inRest removes

end

theorem exists_applyVertex : ∃ next, applyVertex ObjectACL.call acl vertex = .ok next := by
  rcases placed.chronicle with ⟨_, chronicle, _⟩
  rcases chronicle.created vertex (List.mem_append_right _ List.mem_cons_self) with
    ⟨isCreated, _, same, sameFound, isACL⟩
  have found := placed.found
  rw [found] at sameFound
  cases sameFound
  rcases placed.called with ⟨⟨ownNext, changed⟩, called⟩
  have isWrite : operation.opType = "grant" ∨ operation.opType = "revoke" ∨
      operation.opType = "setKey" → vertex.writesACL = true :=
    fun method => Vertex.writesACL_eq_true.mpr ⟨operation, found, isACL, method⟩
  have sameMode : acl.permissionless = ownAcl.permissionless := by
    rw [ObjectACL.permissionless_applyVertices placed.run,
      ObjectACL.permissionless_applyVertices placed.ownRun]
  have runs : ∃ result, acl.call vertex.peerId operation.opType operation.value = .ok result := by
    apply ObjectACL.exists_call called sameMode
    · intro method
      apply placed.admin history (isWrite (by tauto))
      rcases ObjectACL.call_cases called with ⟨_, admin, _⟩ | ⟨_, admin, _⟩ | ⟨isKey, _⟩ |
        ⟨notGrant, notRevoke, _⟩
      · exact admin
      · exact admin
      · rw [isKey] at method
        exact absurd method (by decide)
      · exact absurd method (not_or.mpr ⟨notGrant, notRevoke⟩)
    · intro isRevoke
      rcases history.undisputed.named vertex isCreated operation found isACL (Or.inr isRevoke) with
        ⟨peer, target⟩
      rw [target]
      apply placed.notAdmin history (isWrite (by tauto)) ⟨operation, found, isRevoke, target⟩
      rcases ObjectACL.call_cases called with ⟨isGrant, _⟩ | ⟨_, _, notAdmin, _⟩ | ⟨isKey, _⟩ |
        ⟨_, notRevoke, _⟩
      · rw [isRevoke] at isGrant
        exact absurd isGrant (by decide)
      · rwa [target] at notAdmin
      · rw [isRevoke] at isKey
        exact absurd isKey (by decide)
      · exact absurd isRevoke notRevoke
    · intro isKey
      apply placed.signer history (isWrite (by tauto)) isKey
      rcases ObjectACL.call_cases called with ⟨isGrant, _⟩ | ⟨isRevoke, _⟩ | ⟨_, signer, _⟩ |
        ⟨_, _, notKey, _⟩
      · rw [isKey] at isGrant
        exact absurd isGrant (by decide)
      · rw [isKey] at isRevoke
        exact absurd isRevoke (by decide)
      · exact signer
      · exact absurd isKey notKey
  rcases runs with ⟨result, run⟩
  exact ⟨result.1, by rw [applyVertex, found]; simp only [run, Outcome.map_ok]⟩

end

end Placed

end Placed

end AcceptedHistory

namespace AclExample

theorem usesObjectACL (mode : ACLConflictResolution) (names : List ((String × List Hash) × Hash)) :
    (environment mode names).UsesObjectACL mode := ⟨rfl, rfl, rfl⟩

def peacefulVertices : List Vertex :=
  [vertex "g" "alice" .acl "grant" ["bob", "FINALITY"] [rootHash],
    vertex "s" "bob" .acl "setKey" ["key"] ["g"],
    vertex "w" "alice" .acl "grant" ["dave", "WRITER"] ["g"],
    vertex "d" "dave" .drp "set" ["dave"] ["w"],
    vertex "x" "alice" .acl "revoke" ["dave", "WRITER"] ["d"]]

def peaceful : HashGraph := HashGraph.initial.addVertices peacefulVertices

theorem undisputed_peaceful :
    Undisputed (environment .revokeWins []).options .revokeWins peaceful := by
  have noSwap : ∀ left ∈ peaceful.hashes, ∀ right ∈ peaceful.hashes,
      pairAction (environment .revokeWins []).options peaceful left right ≠ .ok .swap := by
    decide +kernel
  -- The grant to `dave` and its revocation are answered against the call, but never asked about.
  have spared : ∀ vertex ∈ peaceful.created, ∀ other ∈ peaceful.created, vertex.writesACL = true →
      other.writesACL = false →
        ((environment .revokeWins []).options.answer vertex other = .ok .nop ∧
          (environment .revokeWins []).options.answer other vertex = .ok .nop) ∨
        vertex.hash ∈ peaceful.dependenciesOf other.hash ∨
          other.hash ∈ peaceful.dependenciesOf vertex.hash := by
    decide +kernel
  have created : peaceful.created = peacefulVertices := rfl
  have noAdmins : ∀ grant ∈ peaceful.created, ∀ peer, ¬grant.Does "grant" peer .admin := by
    simp [created, peacefulVertices, Vertex.Does, vertex, Operation.group, JsValue.spread, ACLGroup.ofValue]
  have revoked : ∀ key ∈ peaceful.created, ∀ revocation ∈ peaceful.created,
      ¬((∃ operation, key.operation = some operation ∧ operation.opType = "setKey") ∧
        revocation.Targets "revoke" key.peerId) := by
    simp [created, peacefulVertices, Vertex.Targets, vertex, Operation.target, JsValue.spread]
  refine ⟨?_, ?_, fun first firstMem second secondMem isWrite notWrite may => ?_, ?_, ?_⟩
  · simp [created, peacefulVertices, Vertex.KnownType, Vertex.drpType, vertex, DrpType.text]
  · simp [created, peacefulVertices, vertex, DrpType.text, Operation.target, JsValue.spread]
  · rcases spared first firstMem second secondMem isWrite notWrite with ⟨left, right⟩ | related
    · refine ⟨?_, ?_, ?_, ?_⟩ <;> simp [left, right]
    · exact absurd may (not_mayAsk noSwap related)
  · exact fun _ grant grantMem _ _ _ _ peer does => absurd does (noAdmins grant grantMem peer)
  · exact fun key keyMem revocation mem _ _ isKey targets =>
      absurd ⟨isKey, targets⟩ (revoked key keyMem revocation mem)

theorem acceptedHistory_peaceful :
    AcceptedHistory (environment .revokeWins []) .revokeWins genesis peaceful where
  uses := usesObjectACL .revokeWins []
  pair := rfl
  grown := initial_wellFormed.extends_addVertices (by decide +kernel)
  accepted := by decide +kernel
  undisputed := undisputed_peaceful

def raceNames : List ((String × List Hash) × Hash) :=
  [(("alice", [rootHash]), "g"), (("bob", ["g"]), "s"), (("alice", ["g"]), "r")]

def everything (world : World (List String) ObjectACL) : List (ℤ × Vertex) :=
  world.history.vertices.map fun vertex => (0, vertex)

def signed : World (List String) ObjectACL :=
  let granted := (World.start (fun _ => 256) genesis).call (environment .revokeWins raceNames) "alice"
    ⟨0, 0, .acl, "grant", [.string "bob", .string "FINALITY"]⟩
  granted.merge (environment .revokeWins raceNames) "bob" (everything granted)

def raced : World (List String) ObjectACL :=
  (signed.call (environment .revokeWins raceNames) "bob" ⟨0, 0, .acl, "setKey", [.string "key"]⟩).call
    (environment .revokeWins raceNames) "alice" ⟨0, 0, .acl, "revoke", [.string "bob", .string "FINALITY"]⟩

theorem raced_reachable :
    World.Reachable (environment .revokeWins raceNames) (fun _ => 256) genesis raced := by
  have merged : World.Step (environment .revokeWins raceNames) _ signed :=
    .merge _ "bob" _ ⟨true, [], []⟩ (fun entry mem => by
      rcases List.mem_map.mp mem with ⟨vertex, vertexMem, rfl⟩
      exact vertexMem) (by decide +kernel)
  exact .tail (.tail (.tail (.tail .refl (.call _ "alice" ⟨0, 0, .acl, "grant", _⟩)) merged)
    (.call _ "bob" ⟨0, 0, .acl, "setKey", _⟩)) (.call _ "alice" ⟨0, 0, .acl, "revoke", _⟩)

def informed : DRPVertexApplier (List String) ObjectACL × Except JsError ApplyResult :=
  (raced.replica "carol").applyVertices (environment .revokeWins raceNames) (everything raced)

end AclExample

end TsDrp
