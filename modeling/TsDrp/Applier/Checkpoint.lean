import TsDrp.Applier.Replay

/-!
# Linearization checkpoints

A checkpoint keeps the state at a frontier the graph once had.  A replay starts
at the latest checkpoint whose frontier lies in the past of the requested
dependencies and is a causal barrier before everything else in that past.
-/

namespace TsDrp

structure LinearizationCheckpoint (Drp Acl : Type) where
  frontier : List Hash
  origin : Hash
  vertexCount : ℕ
  state : ReplayState Drp Acl

namespace HashGraph

/--
Whether every dependency descends from the whole boundary.  The walk of the
source stops as soon as it has met the boundary, which does not change the
answer.
-/
def dependenciesCover (graph : HashGraph) (dependencies boundary : List Hash) : Bool :=
  if dependencies.dedup.length = boundary.length ∧ ∀ hash ∈ boundary, hash ∈ dependencies then true
  else
    dependencies.all fun descendant =>
      boundary.all fun hash => hash ∈ graph.causalPast [descendant]

def dependenciesAbove (graph : HashGraph) (boundary : List Hash) (hash : Hash) : List Hash :=
  if hash ∈ boundary then [] else graph.dependenciesOf hash

/-- The set `subgraph` of the source: the origin, then what the walk meets above the boundary. -/
def suffixMembers (graph : HashGraph) (dependencies boundary : List Hash) (origin : Hash) :
    List Hash :=
  (Worklist.search (graph.dependenciesAbove boundary)
    (Worklist.budget (graph.dependenciesAbove boundary) (dependencies.reverse ++ graph.hashes)
      dependencies.reverse) dependencies.reverse []).reverse.filter
    fun hash => hash ∉ boundary ∧ hash ≠ origin

def edgesAbove (graph : HashGraph) (boundary subgraph : List Hash) (hash : Hash) : List Hash :=
  (graph.forwardEdges hash).filter fun child => child ∈ boundary ∨ child ∈ subgraph

def reachableAbove (graph : HashGraph) (boundary subgraph : List Hash) (head : Hash) : List Hash :=
  Worklist.search (graph.edgesAbove boundary subgraph)
    (Worklist.budget (graph.edgesAbove boundary subgraph) (head :: (boundary ++ subgraph)) [head])
    [head] []

/-- The subgraph, unless one of its members does not descend from every head. -/
def collectSuffixSubgraph (graph : HashGraph) (dependencies boundary : List Hash) (origin : Hash) :
    Option (List Hash) :=
  let members := graph.suffixMembers dependencies boundary origin
  let subgraph := origin :: members
  if boundary.any fun head =>
      members.any fun hash => hash ∉ graph.reachableAbove boundary subgraph head then
    none
  else
    some subgraph

/--
A frontier the graph once had, with its origin: present vertices none of which
is a causal ancestor of another.
-/
structure Cut (graph : HashGraph) (frontier : List Hash) (origin : Hash) : Prop where
  originMem : origin ∈ frontier
  nodup : frontier.Nodup
  present : ∀ hash ∈ frontier, hash ∈ graph.hashes
  antichain : ∀ first ∈ frontier, ∀ second ∈ frontier, ¬graph.Precedes first second

section Specification

variable {graph : HashGraph} {dependencies boundary : List Hash} {origin : Hash}

theorem Cut.causalPast_past (cut : graph.Cut boundary origin) (wellFormed : graph.WellFormed) :
    graph.Past (graph.causalPast boundary) :=
  wellFormed.causalPast_past (List.ne_nil_of_mem cut.originMem) cut.present

theorem WellFormed.mem_causalPast_self (wellFormed : graph.WellFormed) {hash : Hash}
    (mem : hash ∈ boundary) : hash ∈ graph.causalPast boundary :=
  wellFormed.mem_causalPast.mpr ⟨hash, mem, .refl⟩

theorem Cut.maximal (cut : graph.Cut boundary origin) (wellFormed : graph.WellFormed)
    {head hash : Hash} (headMem : head ∈ boundary) (mem : hash ∈ graph.causalPast boundary) :
    ¬graph.Precedes head hash := by
  obtain ⟨last, lastMem, upTo⟩ := wellFormed.mem_causalPast.mp mem
  exact fun precedes => cut.antichain head headMem last lastMem (precedes.trans_left upTo)

theorem Cut.isHead (wellFormed : graph.WellFormed) {hash : Hash}
    (mem : hash ∈ graph.causalPast boundary) (notHead : hash ∉ boundary) :
    ∃ later ∈ graph.causalPast boundary, graph.Precedes hash later := by
  obtain ⟨last, lastMem, upTo⟩ := wellFormed.mem_causalPast.mp mem
  refine ⟨last, wellFormed.mem_causalPast_self lastMem, ?_⟩
  rcases Relation.reflTransGen_iff_eq_or_transGen.mp upTo with same | strict
  · exact absurd (same ▸ lastMem) notHead
  · exact strict

theorem precedesEq_of_dependenciesCover (wellFormed : graph.WellFormed)
    (nonempty : dependencies ≠ []) (covers : graph.dependenciesCover dependencies boundary = true)
    {head : Hash} (mem : head ∈ boundary) :
    ∃ dependency ∈ dependencies, graph.PrecedesEq head dependency := by
  unfold dependenciesCover at covers
  split at covers
  · rename_i same
    exact ⟨head, same.2 head mem, .refl⟩
  · obtain ⟨dependency, dependencyMem⟩ := List.exists_mem_of_ne_nil _ nonempty
    rw [List.all_eq_true] at covers
    have inPast := List.all_eq_true.mp (covers dependency dependencyMem) head mem
    obtain ⟨last, lastMem, upTo⟩ := wellFormed.mem_causalPast.mp (by simpa using inPast)
    rw [List.mem_singleton] at lastMem
    exact ⟨dependency, dependencyMem, lastMem ▸ upTo⟩

theorem mem_suffixMembers (wellFormed : graph.WellFormed) {hash : Hash} :
    hash ∈ graph.suffixMembers dependencies boundary origin ↔
      (∃ dependency ∈ dependencies,
        Worklist.Reaches (graph.dependenciesAbove boundary) dependency hash) ∧
      hash ∉ boundary ∧ hash ≠ origin := by
  rw [suffixMembers, List.mem_filter, List.mem_reverse, Worklist.mem_search_budget]
  · simp
  · intro node _ dependency mem
    unfold dependenciesAbove at mem
    split at mem
    · simp at mem
    · exact List.mem_append_right _ (wellFormed.present mem)
  · intro node mem
    exact List.mem_append_left _ mem

theorem precedesEq_of_reachesAbove {start hash : Hash}
    (reaches : Worklist.Reaches (graph.dependenciesAbove boundary) start hash) :
    graph.PrecedesEq hash start := by
  induction reaches with
  | refl => exact .refl
  | tail _ edge ih =>
    refine .head ?_ ih
    unfold Worklist.Edge dependenciesAbove at edge
    split at edge
    · simp at edge
    · exact edge

theorem reachesAbove_of_precedesEq (wellFormed : graph.WellFormed) {start hash : Hash}
    (precedes : graph.PrecedesEq hash start) (above : hash ∉ graph.causalPast boundary) :
    Worklist.Reaches (graph.dependenciesAbove boundary) start hash := by
  induction precedes using Relation.ReflTransGen.head_induction_on with
  | refl => exact .refl
  | @head earlier later dependency _ ih =>
    have laterAbove : later ∉ graph.causalPast boundary := by
      intro laterMem
      obtain ⟨head, headMem, upTo⟩ := wellFormed.mem_causalPast.mp laterMem
      exact above (wellFormed.mem_causalPast.mpr ⟨head, headMem, .head dependency upTo⟩)
    refine (ih laterAbove).tail ?_
    have notBoundary : later ∉ boundary := fun mem =>
      laterAbove (wellFormed.mem_causalPast_self mem)
    unfold Worklist.Edge dependenciesAbove
    rw [if_neg notBoundary]
    exact dependency

theorem mem_reachableAbove {subgraph : List Hash} {head hash : Hash} :
    hash ∈ graph.reachableAbove boundary subgraph head ↔
      Worklist.Reaches (graph.edgesAbove boundary subgraph) head hash := by
  rw [reachableAbove, Worklist.mem_search_budget]
  · simp
  · intro node _ child childMem
    have inside := (List.mem_filter.mp childMem).2
    simpa using Or.inr (by simpa using inside)
  · simp

theorem precedesEq_of_mem_reachableAbove (wellFormed : graph.WellFormed) {subgraph : List Hash}
    {head hash : Hash} (mem : hash ∈ graph.reachableAbove boundary subgraph head) :
    graph.PrecedesEq head hash := by
  have reaches := mem_reachableAbove.mp mem
  clear mem
  induction reaches with
  | refl => exact .refl
  | tail _ edge ih =>
    refine ih.tail ?_
    exact (wellFormed.edges _ _).mp (List.mem_filter.mp edge).1

theorem mem_of_collectSuffixSubgraph {subgraph : List Hash}
    (collected : graph.collectSuffixSubgraph dependencies boundary origin = some subgraph) :
    subgraph = origin :: graph.suffixMembers dependencies boundary origin ∧
      ∀ head ∈ boundary, ∀ hash ∈ graph.suffixMembers dependencies boundary origin,
        hash ∈ graph.reachableAbove boundary subgraph head := by
  unfold collectSuffixSubgraph at collected
  simp only at collected
  split at collected
  · cases collected
  · rename_i allReachable
    cases collected
    refine ⟨rfl, fun head headMem hash mem => ?_⟩
    simp only [List.any_eq_true, not_exists, not_and, decide_eq_true_eq, Decidable.not_not] at allReachable
    exact allReachable head headMem hash mem

theorem Cut.barrier (cut : graph.Cut boundary origin) (wellFormed : graph.WellFormed)
    (nonempty : dependencies ≠ []) (present : ∀ hash ∈ dependencies, hash ∈ graph.hashes)
    (covers : graph.dependenciesCover dependencies boundary = true) {subgraph : List Hash}
    (collected : graph.collectSuffixSubgraph dependencies boundary origin = some subgraph) :
    graph.CausalBarrier (graph.causalPast boundary) (graph.causalPast dependencies) origin
      subgraph := by
  obtain ⟨rfl, reachable⟩ := mem_of_collectSuffixSubgraph collected
  -- Every member of the suffix comes after every head.
  have after : ∀ hash ∈ graph.suffixMembers dependencies boundary origin, ∀ head ∈ boundary,
      graph.Precedes head hash := by
    intro hash mem head headMem
    have upTo := precedesEq_of_mem_reachableAbove wellFormed (reachable head headMem hash mem)
    rcases Relation.reflTransGen_iff_eq_or_transGen.mp upTo with same | strict
    · exact absurd (same ▸ headMem) ((mem_suffixMembers wellFormed).mp mem).2.1
    · exact strict
  have notPast : ∀ hash ∈ graph.suffixMembers dependencies boundary origin,
      hash ∉ graph.causalPast boundary := by
    intro hash mem inPast
    exact cut.maximal wellFormed cut.originMem inPast (after hash mem origin cut.originMem)
  have memIff : ∀ hash, hash ∈ graph.suffixMembers dependencies boundary origin ↔
      hash ∈ graph.causalPast dependencies ∧ hash ∉ graph.causalPast boundary := by
    intro hash
    constructor
    · intro mem
      obtain ⟨⟨dependency, dependencyMem, reaches⟩, _⟩ := (mem_suffixMembers wellFormed).mp mem
      exact ⟨wellFormed.mem_causalPast.mpr
        ⟨dependency, dependencyMem, precedesEq_of_reachesAbove reaches⟩, notPast hash mem⟩
    · rintro ⟨inWhole, above⟩
      obtain ⟨dependency, dependencyMem, upTo⟩ := wellFormed.mem_causalPast.mp inWhole
      refine (mem_suffixMembers wellFormed).mpr ⟨⟨dependency, dependencyMem,
        reachesAbove_of_precedesEq wellFormed upTo above⟩, fun mem => ?_, fun same => ?_⟩
      · exact above (wellFormed.mem_causalPast_self mem)
      · exact above (same ▸ wellFormed.mem_causalPast_self cut.originMem)
  refine ⟨cut.causalPast_past wellFormed, wellFormed.causalPast_past nonempty present, ?_, ?_, ?_,
    wellFormed.mem_causalPast_self cut.originMem, ?_, ?_⟩
  · intro hash mem
    obtain ⟨head, headMem, upTo⟩ := wellFormed.mem_causalPast.mp mem
    obtain ⟨dependency, dependencyMem, further⟩ :=
      precedesEq_of_dependenciesCover wellFormed nonempty covers headMem
    exact wellFormed.mem_causalPast.mpr ⟨dependency, dependencyMem, upTo.trans further⟩
  · refine List.nodup_cons.mpr ⟨fun mem => ?_, ?_⟩
    · exact ((mem_suffixMembers wellFormed).mp mem).2.2 rfl
    · exact (List.nodup_reverse.mpr (Worklist.search_nodup _ _ _ List.nodup_nil)).filter _
  · intro hash
    rw [List.mem_cons, memIff]
  · exact fun hash mem => cut.maximal wellFormed cut.originMem mem
  · intro later inWhole above earlier inPast
    obtain ⟨head, headMem, upTo⟩ := wellFormed.mem_causalPast.mp inPast
    exact Relation.TransGen.trans_right upTo
      (after later ((memIff later).mpr ⟨inWhole, above⟩) head headMem)

end Specification

section Root

variable {graph : HashGraph} {dependencies : List Hash}

theorem WellFormed.mem_causalPast_root (wellFormed : graph.WellFormed) {hash : Hash} :
    hash ∈ graph.causalPast [rootHash] ↔ hash = rootHash := by
  rw [wellFormed.mem_causalPast]
  simp only [List.mem_singleton, exists_eq_left]
  constructor
  · intro upTo
    rcases Relation.reflTransGen_iff_eq_or_transGen.mp upTo with same | strict
    · exact same.symm
    · obtain ⟨last, _, dependency⟩ := Relation.TransGen.tail'_iff.mp strict
      rw [Dependency, wellFormed.dependenciesOf_root] at dependency
      simp at dependency
  · rintro rfl
    exact .refl

theorem WellFormed.dependenciesCover_root (wellFormed : graph.WellFormed)
    (present : ∀ hash ∈ dependencies, hash ∈ graph.hashes) :
    graph.dependenciesCover dependencies [rootHash] = true := by
  unfold dependenciesCover
  split
  · rfl
  · rw [List.all_eq_true]
    intro descendant mem
    have inPast : rootHash ∈ graph.causalPast [descendant] := wellFormed.mem_causalPast.mpr
      ⟨descendant, List.mem_singleton_self _, wellFormed.root_precedesEq (present descendant mem)⟩
    simpa using inPast

theorem WellFormed.collectSuffixSubgraph_root (wellFormed : graph.WellFormed)
    (present : ∀ hash ∈ dependencies, hash ∈ graph.hashes) :
    graph.collectSuffixSubgraph dependencies [rootHash] rootHash =
      some (rootHash :: graph.suffixMembers dependencies [rootHash] rootHash) := by
  have reachable : ∀ hash, (∃ dependency ∈ dependencies, graph.PrecedesEq hash dependency) →
      Worklist.Reaches (graph.edgesAbove [rootHash]
        (rootHash :: graph.suffixMembers dependencies [rootHash] rootHash)) rootHash hash := by
    rintro hash ⟨dependency, dependencyMem, upTo⟩
    have path := wellFormed.root_precedesEq
      (wellFormed.precedesEq_mem_left upTo (present dependency dependencyMem))
    induction path with
    | refl => exact .refl
    | @tail middle last _ edge ih =>
      refine (ih (.head edge upTo)).tail ?_
      have notRoot : last ≠ rootHash := by
        rintro rfl
        rw [Dependency, wellFormed.dependenciesOf_root] at edge
        simp at edge
      have inSuffix : last ∈ graph.suffixMembers dependencies [rootHash] rootHash := by
        refine (mem_suffixMembers wellFormed).mpr ⟨⟨dependency, dependencyMem, ?_⟩, by simpa, notRoot⟩
        exact reachesAbove_of_precedesEq wellFormed upTo
          fun inPast => notRoot (wellFormed.mem_causalPast_root.mp inPast)
      exact List.mem_filter.mpr ⟨(wellFormed.edges _ _).mpr edge, by simp [inSuffix]⟩
  unfold collectSuffixSubgraph
  simp only
  rw [if_neg]
  simp only [List.any_eq_true, List.mem_singleton, exists_eq_left, not_exists, not_and,
    decide_eq_true_eq, Decidable.not_not]
  intro hash mem
  obtain ⟨⟨dependency, dependencyMem, reaches⟩, _⟩ := (mem_suffixMembers wellFormed).mp mem
  exact mem_reachableAbove.mpr
    (reachable hash ⟨dependency, dependencyMem, precedesEq_of_reachesAbove reaches⟩)

end Root

end HashGraph

structure Replay (Drp Acl : Type) where
  origin : Hash
  state : ReplayState Drp Acl
  linearizedVertices : List Vertex

section GetReplay

variable {Drp Acl : Type}

abbrev LinearizationCheckpoint.replay (checkpoint : LinearizationCheckpoint Drp Acl)
    (options : GraphOptions) (graph : HashGraph) (fuel : ℕ) (subgraph : List Hash) :
    Except JsError (Replay Drp Acl) :=
  (linearizeVertices options graph fuel checkpoint.origin subgraph).map fun vertices =>
    { origin := checkpoint.origin
      state := checkpoint.state
      linearizedVertices := vertices }

/-- The checkpoints still to be tried, the latest first. -/
def getReplayFrom (options : GraphOptions) (graph : HashGraph) (fuel : ℕ)
    (dependencies : List Hash) :
    List (LinearizationCheckpoint Drp Acl) → Except JsError (Replay Drp Acl)
  | [] => .error (.error "No valid linearization checkpoint")
  | checkpoint :: rest =>
    if graph.dependenciesCover dependencies checkpoint.frontier then
      match graph.collectSuffixSubgraph dependencies checkpoint.frontier checkpoint.origin with
      | none => getReplayFrom options graph fuel dependencies rest
      | some subgraph => checkpoint.replay options graph fuel subgraph
    else
      getReplayFrom options graph fuel dependencies rest

def getReplay (options : GraphOptions) (graph : HashGraph) (fuel : ℕ)
    (checkpoints : List (LinearizationCheckpoint Drp Acl)) (dependencies : List Hash) :
    Except JsError (Replay Drp Acl) :=
  getReplayFrom options graph fuel dependencies checkpoints.reverse

theorem getReplayFrom_cases (options : GraphOptions) (graph : HashGraph) (fuel : ℕ)
    (dependencies : List Hash) (checkpoints : List (LinearizationCheckpoint Drp Acl)) :
    (∃ checkpoint ∈ checkpoints, ∃ subgraph,
        graph.dependenciesCover dependencies checkpoint.frontier = true ∧
        graph.collectSuffixSubgraph dependencies checkpoint.frontier checkpoint.origin =
          some subgraph ∧
        getReplayFrom options graph fuel dependencies checkpoints =
          checkpoint.replay options graph fuel subgraph) ∨
      ∀ checkpoint ∈ checkpoints,
        graph.dependenciesCover dependencies checkpoint.frontier = false ∨
        graph.collectSuffixSubgraph dependencies checkpoint.frontier checkpoint.origin = none := by
  induction checkpoints with
  | nil => exact Or.inr fun _ inNil => absurd inNil List.not_mem_nil
  | cons checkpoint rest ih =>
    have skipped : (graph.dependenciesCover dependencies checkpoint.frontier = false ∨
        graph.collectSuffixSubgraph dependencies checkpoint.frontier checkpoint.origin = none) →
        getReplayFrom options graph fuel dependencies (checkpoint :: rest) =
          getReplayFrom options graph fuel dependencies rest := by
      rintro (notCovered | notCollected)
      · rw [getReplayFrom, notCovered]
        rfl
      · rw [getReplayFrom, notCollected]
        exact ite_self _
    by_cases unusable : graph.dependenciesCover dependencies checkpoint.frontier = false ∨
        graph.collectSuffixSubgraph dependencies checkpoint.frontier checkpoint.origin = none
    · rcases ih with ⟨found, mem, subgraph, covers, collected, run⟩ | none
      · exact Or.inl ⟨found, .tail _ mem, subgraph, covers, collected,
          (skipped unusable).trans run⟩
      · refine Or.inr fun found mem => ?_
        rcases List.mem_cons.mp mem with rfl | mem
        · exact unusable
        · exact none found mem
    · obtain ⟨covers, collects⟩ := not_or.mp unusable
      rw [Bool.not_eq_false] at covers
      obtain ⟨subgraph, collected⟩ := Option.ne_none_iff_exists'.mp collects
      refine Or.inl ⟨checkpoint, List.mem_cons_self, subgraph, covers, collected, ?_⟩
      rw [getReplayFrom, covers, if_pos rfl, collected]

theorem mem_of_getReplay {options : GraphOptions} {graph : HashGraph} {fuel : ℕ}
    {dependencies : List Hash} {checkpoints : List (LinearizationCheckpoint Drp Acl)}
    {replay : Replay Drp Acl}
    (found : getReplay options graph fuel checkpoints dependencies = .ok replay) :
    (∃ checkpoint ∈ checkpoints, checkpoint.state = replay.state) ∧
      ∀ vertex ∈ replay.linearizedVertices, vertex ∈ graph.vertices := by
  have tried : ∀ checkpoints, getReplayFrom options graph fuel dependencies checkpoints = .ok replay →
      (∃ checkpoint ∈ checkpoints, checkpoint.state = replay.state) ∧
        ∀ vertex ∈ replay.linearizedVertices, vertex ∈ graph.vertices := by
    intro checkpoints
    induction checkpoints with
    | nil =>
      intro found
      cases found
    | cons checkpoint rest ih =>
      intro found
      have later : getReplayFrom options graph fuel dependencies rest = .ok replay →
          (∃ found ∈ checkpoint :: rest, found.state = replay.state) ∧
            ∀ vertex ∈ replay.linearizedVertices, vertex ∈ graph.vertices := by
        intro found
        rcases ih found with ⟨⟨used, mem, same⟩, vertices⟩
        exact ⟨⟨used, .tail _ mem, same⟩, vertices⟩
      rw [getReplayFrom] at found
      split at found
      · split at found
        · exact later found
        · rcases Outcome.map_eq_ok.mp found with ⟨vertices, linearized, same⟩
          cases same
          exact ⟨⟨checkpoint, List.mem_cons_self, rfl⟩,
            fun vertex mem => HashGraph.mem_of_linearizeVertices linearized mem⟩
      · exact later found
  rcases tried _ found with ⟨⟨checkpoint, mem, same⟩, vertices⟩
  exact ⟨⟨checkpoint, List.mem_reverse.mp mem, same⟩, vertices⟩

end GetReplay

end TsDrp
