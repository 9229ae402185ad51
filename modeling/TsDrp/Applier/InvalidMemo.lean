import TsDrp.Applier.Errors
import TsDrp.Applier.Report
import TsDrp.HashBinding

/-!
# The memo of invalid hashes

A replica remembers the hashes of the vertices it has refused and refuses what
depends on them.  The memo is kept under the hash a vertex claims.  A vertex with
a forged content therefore puts the hash of a genuine vertex into the memo, and
so does a vertex whose timestamp is ahead of the receiver's clock; both can be
accepted later.
-/

namespace TsDrp

open HashGraph

/-- The hash binds the timestamp as well. -/
structure TimedBinding (computeHash : ComputeHash) : Prop extends ContentBinding computeHash where
  timed : ∀ {peerId peerId' operation operation' dependencies dependencies' timestamp timestamp'},
    computeHash peerId operation dependencies timestamp =
        computeHash peerId' operation' dependencies' timestamp' →
      timestamp = timestamp'

/-- What the validation asks of a vertex that claims the hash of its content, the clock apart. -/
structure HashGraph.Supports (graph : HashGraph) (vertex : Vertex) : Prop where
  nonempty : vertex.dependencies ≠ []
  present : ∀ dependency ∈ vertex.dependencies, ∃ depVertex,
    graph.getVertex dependency = some depVertex ∧
      depVertex.timestamp - vertex.timestamp ≤ futureToleranceMs

/--
No vertex with the hash can be accepted, now or later: no content has it, or that
of the vertex given depends on nothing, on a vertex too far ahead, or on absent
vertices that cannot be accepted.
-/
inductive HashGraph.Doomed (computeHash : ComputeHash) (graph : HashGraph) : Hash → Prop where
  | unclaimed {hash : Hash} (claimed : ∀ vertex : Vertex, vertex.Hashed computeHash →
      vertex.hash ≠ hash) : Doomed computeHash graph hash
  | groundless (vertex : Vertex) (hashed : vertex.Hashed computeHash)
      (empty : vertex.dependencies = []) : Doomed computeHash graph vertex.hash
  | early (vertex : Vertex) (hashed : vertex.Hashed computeHash) {dependency : Hash}
      (mem : dependency ∈ vertex.dependencies) {depVertex : Vertex}
      (found : graph.getVertex dependency = some depVertex)
      (ahead : futureToleranceMs < depVertex.timestamp - vertex.timestamp) :
      Doomed computeHash graph vertex.hash
  | orphan (vertex : Vertex) (hashed : vertex.Hashed computeHash) {dependency : Hash}
      (mem : dependency ∈ vertex.dependencies) (absent : dependency ∉ graph.hashes)
      (doomed : ∀ other ∈ vertex.dependencies, other ∉ graph.hashes →
        Doomed computeHash graph other) :
      Doomed computeHash graph vertex.hash

structure HashGraph.Refuses (computeHash : ComputeHash) (graph : HashGraph) (hash : Hash) : Prop where
  absent : hash ∉ graph.hashes
  doomed : graph.Doomed computeHash hash

theorem timedBinding_computeHash {format : Json.NumberFormat Double} {sha256 : String → Hash}
    (injective : Function.Injective sha256) (root : sha256 (.ofList (rootText format)) = rootHash) :
    TimedBinding (computeHash format sha256) where
  toContentBinding := contentBinding_computeHash injective root
  timed := fun same => (computeHash_inj injective same).2.2.2

section Doomed

variable {computeHash : ComputeHash} {graph : HashGraph} {hash : Hash} {vertex : Vertex}

theorem Vertex.Hashed.same (hashed : vertex.Hashed computeHash) {other : Vertex}
    (hashed' : other.Hashed computeHash) (binding : TimedBinding computeHash)
    (same : vertex.hash = other.hash) :
    vertex.dependencies = other.dependencies ∧ vertex.timestamp = other.timestamp := by
  rw [hashed, hashed'] at same
  exact ⟨(binding.binds same).2, binding.timed same⟩

section

variable (doomed : graph.Doomed computeHash hash) (binding : TimedBinding computeHash)
  (hashed : vertex.Hashed computeHash)
include doomed binding hashed

theorem HashGraph.Doomed.not_supports (same : vertex.hash = hash) : ¬ graph.Supports vertex := by
  intro supports
  cases doomed with
  | unclaimed claimed => exact claimed vertex hashed same
  | groundless other hashed' empty =>
    apply supports.nonempty
    rw [(hashed.same hashed' binding same).1, empty]
  | early other hashed' mem found ahead =>
    rcases hashed.same hashed' binding same with ⟨dependencies, timestamp⟩
    rcases supports.present _ (dependencies ▸ mem) with ⟨depVertex, found', behind⟩
    rw [found] at found'
    cases found'
    rw [timestamp] at behind
    exact absurd ahead (not_lt.mpr behind)
  | orphan other hashed' mem absent doomed =>
    rw [← (hashed.same hashed' binding same).1] at mem
    rcases supports.present _ mem with ⟨depVertex, found, _⟩
    exact absent (getVertex_isSome_iff.mp (by rw [found]; rfl))

theorem HashGraph.Doomed.addVertex (fresh : vertex.hash ∉ graph.hashes)
    (supports : graph.Supports vertex) : (graph.addVertex vertex).Doomed computeHash hash := by
  have kept {other : Hash} (absent : other ∉ (graph.addVertex vertex).hashes) :
      other ∉ graph.hashes := by
    rw [hashes_addVertex fresh] at absent
    exact fun mem => absent (List.mem_append_left _ mem)
  induction doomed with
  | unclaimed claimed => exact .unclaimed claimed
  | groundless other hashed' empty => exact .groundless other hashed' empty
  | @early other hashed' dependency mem depVertex found ahead =>
    have different : dependency ≠ vertex.hash := by
      rintro rfl
      exact fresh (getVertex_isSome_iff.mp (by rw [found]; rfl))
    exact .early other hashed' mem ((getVertex_addVertex_of_ne fresh different).trans found) ahead
  | @orphan other hashed' dependency mem absent doomed ih =>
    refine .orphan other hashed' mem ?_ fun next nextMem nextAbsent =>
      ih next nextMem (kept nextAbsent)
    rw [hashes_addVertex fresh, List.mem_append, List.mem_singleton, not_or]
    refine ⟨absent, fun same => ?_⟩
    exact (doomed _ mem absent).not_supports binding hashed same.symm supports

end

theorem HashGraph.Refuses.addVertex (refuses : graph.Refuses computeHash hash)
    (binding : TimedBinding computeHash) (hashed : vertex.Hashed computeHash)
    (fresh : vertex.hash ∉ graph.hashes) (supports : graph.Supports vertex) :
    (graph.addVertex vertex).Refuses computeHash hash := by
  refine ⟨?_, refuses.doomed.addVertex binding hashed fresh supports⟩
  rw [hashes_addVertex fresh, List.mem_append, List.mem_singleton, not_or]
  exact ⟨refuses.absent,
    fun same => refuses.doomed.not_supports binding hashed same.symm supports⟩

def HashGraph.Grows (computeHash : ComputeHash) : HashGraph → HashGraph → Prop :=
  Relation.ReflTransGen fun before after => ∃ vertex : Vertex, vertex.Hashed computeHash ∧
    vertex.hash ∉ before.hashes ∧ before.Supports vertex ∧ after = before.addVertex vertex

theorem HashGraph.Refuses.grows {later : HashGraph} (refuses : graph.Refuses computeHash hash)
    (binding : TimedBinding computeHash) (grows : Grows computeHash graph later) :
    later.Refuses computeHash hash := by
  induction grows with
  | refl => exact refuses
  | tail _ step ih =>
    rcases step with ⟨vertex, hashed, fresh, supports, rfl⟩
    exact ih.addVertex binding hashed fresh supports

end Doomed

section Validation

variable {computeHash : ComputeHash} {graph : HashGraph} {vertex : Vertex} {now : ℤ}

theorem supports_of_validateVertex {skipHashValidation : Bool}
    (valid : validateVertex computeHash vertex graph now skipHashValidation = .ok ()) :
    graph.Supports vertex :=
  ⟨(validateVertex_eq_ok.mp valid).2.1, (validateVertex_eq_ok.mp valid).2.2.1⟩

theorem validateVertex_eq_error {error : JsError}
    (failed : validateVertex computeHash vertex graph now false = .error error) :
    (¬ vertex.Hashed computeHash ∧ ∃ message, error = .invalidHash message) ∨
    vertex.Hashed computeHash ∧
      (vertex.dependencies = [] ∨
        (∃ dependency ∈ vertex.dependencies, dependency ∉ graph.hashes ∧
          ∃ message, error = .invalidDependencies message) ∨
        (∃ dependency ∈ vertex.dependencies, ∃ depVertex,
          graph.getVertex dependency = some depVertex ∧
            futureToleranceMs < depVertex.timestamp - vertex.timestamp ∧
            ∃ message, error = .invalidTimestamp message) ∨
        futureToleranceMs < vertex.timestamp - now) := by
  have timestamp {a b : ℤ} {hash : Hash} {error : JsError}
      (failed : validateVertexTimestamp a b hash = .error error) :
      futureToleranceMs < a - b ∧ ∃ message, error = .invalidTimestamp message := by
    unfold validateVertexTimestamp at failed
    split at failed
    · cases failed
      exact ⟨‹_›, _, rfl⟩
    · cases failed
  rcases Outcome.bind_eq_error.mp failed with hash | ⟨_, passed, failed⟩
  · left
    unfold validateVertexHash at hash
    split at hash
    · cases hash
    · cases hash
      exact ⟨‹_›, _, rfl⟩
  · right
    refine ⟨validateVertexHash_eq_ok.mp passed, ?_⟩
    rcases Outcome.bind_eq_error.mp failed with dependencies | ⟨_, _, ahead⟩
    · unfold validateVertexDependencies at dependencies
      split at dependencies
      case isTrue empty => exact Or.inl empty
      case isFalse =>
        right
        rcases Outcome.exists_of_forM_eq_error dependencies with ⟨dependency, mem, failed⟩
        unfold validateDependency at failed
        cases found : graph.getVertex dependency with
        | none =>
          simp only [found] at failed
          cases failed
          left
          refine ⟨dependency, mem, fun present => ?_, _, rfl⟩
          have isSome := getVertex_isSome_iff.mpr present
          rw [found] at isSome
          cases isSome
        | some depVertex =>
          simp only [found] at failed
          rcases timestamp failed with ⟨ahead, message⟩
          exact Or.inr (Or.inl ⟨dependency, mem, depVertex, found, ahead, message⟩)
    · exact Or.inr (Or.inr (Or.inr (timestamp ahead).1))

end Validation

/--
An entry of a batch that claims the hash of its own content and is not ahead of
the clock, or claims a hash that no content has.
-/
def Candid (computeHash : ComputeHash) (entry : ℤ × Vertex) : Prop :=
  (∀ vertex : Vertex, vertex.Hashed computeHash → vertex.hash ≠ entry.2.hash) ∨
    entry.2.Hashed computeHash ∧ entry.2.timestamp - entry.1 ≤ futureToleranceMs

namespace Merging

variable {Drp Acl : Type} {env : Environment Drp Acl} {merging next : Merging Drp Acl}

/-- Everything a merge has refused so far is refused for good. -/
structure Sifted (env : Environment Drp Acl) (merging : Merging Drp Acl) : Prop where
  layered : merging.applier.hashGraph.Layered env.computeHash
  rooted : rootHash ∈ merging.applier.hashGraph.hashes
  known : ∀ hash ∈ merging.applier.knownInvalidVertexHashes,
    merging.applier.hashGraph.Refuses env.computeHash hash
  invalid : ∀ hash ∈ merging.invalid, merging.applier.hashGraph.Refuses env.computeHash hash
  batch : ∀ hash ∈ merging.batchInvalidVertexHashes,
    merging.applier.hashGraph.Refuses env.computeHash hash
  missing : ∀ hash vertex, merging.missingVertices hash = some vertex →
    vertex.hash = hash ∧ vertex.Hashed env.computeHash ∧ hash ≠ rootHash

theorem mem_of_mem_remember {known : List Hash} {hash other : Hash}
    (mem : other ∈ rememberInvalidVertexHash known hash) : other ∈ known ∨ other = hash := by
  rw [← List.mem_singleton, ← List.mem_append]
  unfold rememberInvalidVertexHash at mem
  split at mem
  · exact List.mem_append_left _ mem
  · split at mem
    · exact mem
    · exact List.mem_of_mem_tail mem

section

variable (sifted : merging.Sifted env)
include sifted

theorem Sifted.markInvalid {hash : Hash}
    (refuses : merging.applier.hashGraph.Refuses env.computeHash hash) :
    (merging.markInvalid hash).Sifted env := by
  refine ⟨sifted.layered, sifted.rooted, fun other mem => ?_, fun other mem => ?_,
    fun other mem => ?_, sifted.missing⟩
  · rcases mem_of_mem_remember mem with old | rfl
    · exact sifted.known other old
    · exact refuses
  · rcases List.mem_append.mp mem with old | new
    · exact sifted.invalid other old
    · exact List.mem_singleton.mp new ▸ refuses
  · rcases List.mem_append.mp mem with old | new
    · exact sifted.batch other old
    · exact List.mem_singleton.mp new ▸ refuses

theorem Sifted.refuses_orphan {vertex : Vertex} (binding : TimedBinding env.computeHash)
    (hashed : vertex.Hashed env.computeHash) (notRoot : vertex.hash ≠ rootHash)
    (unresolved : merging.applier.hashGraph.unresolvedDependencies vertex ≠ [])
    (refused : ∀ dependency ∈ merging.applier.hashGraph.unresolvedDependencies vertex,
      merging.applier.hashGraph.Refuses env.computeHash dependency) :
    merging.applier.hashGraph.Refuses env.computeHash vertex.hash := by
  have isUnresolved {dependency : Hash} :
      dependency ∈ merging.applier.hashGraph.unresolvedDependencies vertex ↔
        dependency ∈ vertex.dependencies ∧ dependency ∉ merging.applier.hashGraph.hashes := by
    simp [HashGraph.unresolvedDependencies, HashGraph.has]
  rcases List.exists_mem_of_ne_nil _ unresolved with ⟨dependency, mem⟩
  rcases isUnresolved.mp mem with ⟨depends, absent⟩
  refine ⟨fun present => ?_, .orphan vertex hashed depends absent fun other otherMem otherAbsent =>
    (refused other (isUnresolved.mpr ⟨otherMem, otherAbsent⟩)).doomed⟩
  -- A present vertex with this hash would have the same dependencies, all of them present.
  rcases List.mem_map.mp present with ⟨found, foundMem, sameHash⟩
  have foundHashed := sifted.layered.hashed found foundMem (sameHash ▸ notRoot)
  rw [← (Vertex.Hashed.same foundHashed hashed binding sameHash).1] at depends
  rcases List.append_of_mem foundMem with ⟨before, after, shape⟩
  apply absent
  rw [HashGraph.hashes, shape, List.map_append]
  exact List.mem_append_left _ (sifted.layered.earlier before found after shape _ depends)

theorem Sifted.applyOne (keeps : env.KeepsToItself) (binding : TimedBinding env.computeHash)
    {now : ℤ} {vertex : Vertex} (candid : Candid env.computeHash (now, vertex))
    (applied : merging.applyOne env now vertex = .ok next) : next.Sifted env := by
  rcases applyOne_cases applied with
    ⟨_, rfl⟩ | ⟨notSkipped, staged, run, rfl⟩ | ⟨notSkipped, error, run, failure, rfl⟩
  · exact sifted
  · have fresh := notMem_of_not_skips notSkipped
    have valid := (Outcome.then_eq_ok.mp run).1
    have hashed : vertex.Hashed env.computeHash :=
      hashed_of_validateVertex valid
    have supports := supports_of_validateVertex valid
    refine ⟨sifted.layered.addVertex fresh (present_of_validateVertex valid) hashed, ?_,
      fun hash mem => (sifted.known hash mem).addVertex binding hashed fresh supports,
      fun hash mem => (sifted.invalid hash mem).addVertex binding hashed fresh supports,
      fun hash mem => (sifted.batch hash mem).addVertex binding hashed fresh supports,
      sifted.missing⟩
    change rootHash ∈ (merging.applier.hashGraph.addVertex vertex).hashes
    rw [hashes_addVertex fresh]
    exact List.mem_append_left _ sifted.rooted
  · have fresh := notMem_of_not_skips notSkipped
    have notRoot : vertex.hash ≠ rootHash := fun same => fresh (same ▸ sifted.rooted)
    have failed := keeps.validateVertex_eq_error run failure
    split
    case isTrue missing =>
      have hashed : vertex.Hashed env.computeHash := by
        rcases validateVertex_eq_error failed with ⟨_, message, rfl⟩ | ⟨hashed, _⟩
        · cases missing
        · exact hashed
      refine ⟨sifted.layered, sifted.rooted, sifted.known, sifted.invalid, sifted.batch, ?_⟩
      intro hash other found
      by_cases same : hash = vertex.hash
      · subst same
        cases (Function.update_self ..).symm.trans found
        exact ⟨rfl, hashed, notRoot⟩
      · exact sifted.missing hash other ((Function.update_of_ne same ..).symm.trans found)
    case isFalse notMissing =>
      apply sifted.markInvalid
      rcases candid with unclaimed | ⟨hashed, onTime⟩
      · exact ⟨fresh, .unclaimed unclaimed⟩
      · rcases validateVertex_eq_error failed with ⟨notHashed, _⟩ | ⟨_, empty |
          ⟨dependency, mem, absent, message, rfl⟩ | ⟨dependency, mem, depVertex, found, ahead, _⟩ |
          ahead⟩
        · exact absurd hashed notHashed
        · exact ⟨fresh, .groundless vertex hashed empty⟩
        · have unresolved : merging.applier.hashGraph.unresolvedDependencies vertex ≠ [] :=
            List.ne_nil_of_mem (List.mem_filter.mpr ⟨mem, by simpa [HashGraph.has] using absent⟩)
          have allKnown : ∀ other ∈ merging.applier.hashGraph.unresolvedDependencies vertex,
              other ∈ merging.applier.knownInvalidVertexHashes := by
            simpa [hasGenuinelyMissingDependency, unresolved] using notMissing
          exact sifted.refuses_orphan binding hashed notRoot unresolved fun other otherMem =>
            sifted.known other (allKnown other otherMem)
        · exact ⟨fresh, .early vertex hashed mem found ahead⟩
        · exact absurd onTime (not_le.mpr ahead)

theorem Sifted.reject {hash : Hash}
    (refuses : merging.applier.hashGraph.Refuses env.computeHash hash) :
    (merging.reject hash).Sifted env := by
  have marked := sifted.markInvalid refuses
  refine ⟨marked.layered, marked.rooted, marked.known, marked.invalid, marked.batch, ?_⟩
  intro other vertex found
  by_cases same : other = hash
  · subst same
    cases (Function.update_self ..).symm.trans found
  · exact sifted.missing other vertex ((Function.update_of_ne same ..).symm.trans found)

theorem Sifted.refuses_of_isNewlyInvalid (binding : TimedBinding env.computeHash) {hash : Hash}
    (newlyInvalid : merging.isNewlyInvalid hash = true) :
    merging.applier.hashGraph.Refuses env.computeHash hash := by
  unfold isNewlyInvalid at newlyInvalid
  split at newlyInvalid
  · cases newlyInvalid
  case h_2 vertex found =>
    rcases sifted.missing hash vertex found with ⟨rfl, hashed, notRoot⟩
    rcases of_decide_eq_true newlyInvalid with ⟨unresolved, invalid⟩
    refine sifted.refuses_orphan binding hashed notRoot unresolved fun dependency mem => ?_
    rcases invalid dependency mem with known | batch
    · exact sifted.known dependency known
    · exact sifted.batch dependency batch

theorem Sifted.rejectAll {newlyInvalid : List Hash}
    (refused : ∀ hash ∈ newlyInvalid, merging.applier.hashGraph.Refuses env.computeHash hash) :
    (merging.rejectAll newlyInvalid).Sifted env := by
  have rejected : (newlyInvalid.foldl Merging.reject merging).Sifted env := by
    induction newlyInvalid generalizing merging with
    | nil => exact sifted
    | cons hash rest ih =>
      refine ih (sifted.reject (refused hash List.mem_cons_self)) fun other mem => ?_
      exact refused other (.tail _ mem)
  exact ⟨rejected.layered, rejected.rooted, rejected.known, rejected.invalid, rejected.batch,
    rejected.missing⟩

theorem Sifted.settleMissing (binding : TimedBinding env.computeHash) (rounds : ℕ) :
    (settleMissing rounds merging).Sifted env := by
  induction rounds generalizing merging with
  | zero => exact sifted
  | succ rounds ih =>
    rw [Merging.settleMissing]
    split
    · exact sifted
    · refine ih (sifted.rejectAll fun hash mem => ?_)
      exact sifted.refuses_of_isNewlyInvalid binding (List.mem_filter.mp mem).2

end

theorem grows_applyOne {now : ℤ} {vertex : Vertex}
    (applied : merging.applyOne env now vertex = .ok next) :
    Grows env.computeHash merging.applier.hashGraph next.applier.hashGraph := by
  rcases applyOne_cases applied with ⟨_, rfl⟩ | ⟨notSkipped, staged, run, rfl⟩ | ⟨_, _, _, _, rfl⟩
  · exact .refl
  · have valid := (Outcome.then_eq_ok.mp run).1
    exact .single ⟨vertex, hashed_of_validateVertex valid,
      notMem_of_not_skips notSkipped, supports_of_validateVertex valid, rfl⟩
  · split <;> exact .refl

end Merging

namespace DRPVertexApplier

variable {Drp Acl : Type} {env : Environment Drp Acl} {applier : DRPVertexApplier Drp Acl}

structure Wary (env : Environment Drp Acl) (applier : DRPVertexApplier Drp Acl) : Prop where
  layered : applier.hashGraph.Layered env.computeHash
  rooted : rootHash ∈ applier.hashGraph.hashes
  known : ∀ hash ∈ applier.knownInvalidVertexHashes,
    applier.hashGraph.Refuses env.computeHash hash

theorem wary_create (env : Environment Drp Acl) (peerId : String) (checkpointSuffixSize : ℕ)
    (genesis : ReplayState Drp Acl) : (create peerId checkpointSuffixSize genesis).Wary env :=
  ⟨layered_initial _, List.mem_cons_self, fun _ mem => absurd mem List.not_mem_nil⟩

theorem Wary.of_same {other : DRPVertexApplier Drp Acl} (wary : applier.Wary env)
    (graph : other.hashGraph = applier.hashGraph)
    (known : other.knownInvalidVertexHashes = applier.knownInvalidVertexHashes) :
    other.Wary env := by
  refine ⟨graph ▸ wary.layered, graph ▸ wary.rooted, fun hash mem => ?_⟩
  rw [graph]
  exact wary.known hash (known ▸ mem)

theorem Wary.sifted_start (wary : applier.Wary env) : (Merging.start applier).Sifted env :=
  ⟨wary.layered, wary.rooted, wary.known, fun _ mem => absurd mem List.not_mem_nil,
    fun _ mem => absurd mem List.not_mem_nil, fun _ _ found => nomatch found⟩

theorem wary_of_sifted {merging : Merging Drp Acl} (sifted : merging.Sifted env) :
    merging.applier.Wary env :=
  ⟨sifted.layered, sifted.rooted, sifted.known⟩

theorem Wary.exists_merging (wary : applier.Wary env) (keeps : env.KeepsToItself)
    (binding : TimedBinding env.computeHash) {batch : List (ℤ × Vertex)}
    (candid : ∀ entry ∈ batch, Candid env.computeHash entry) :
    ∃ merging : Merging Drp Acl, merging.Sifted env ∧
      (applier.applyVertices env batch).1.hashGraph = merging.applier.hashGraph ∧
      (applier.applyVertices env batch).1.knownInvalidVertexHashes =
        merging.applier.knownInvalidVertexHashes ∧
      Grows env.computeHash applier.hashGraph merging.applier.hashGraph ∧
      ∀ result, (applier.applyVertices env batch).2 = .ok result →
        result.invalid = merging.invalid := by
  have loop := @Merging.applyEach_invariant _ _ env (.start applier)
    (fun merging => merging.Sifted env ∧
      Grows env.computeHash applier.hashGraph merging.applier.hashGraph) batch
    (fun merging next entry mem holds applied =>
      ⟨holds.1.applyOne keeps binding (candid entry mem) applied,
        holds.2.trans (Merging.grows_applyOne applied)⟩) ⟨wary.sifted_start, .refl⟩
  rcases applyVertices_cases env applier batch with
    ⟨thrown, looped, run⟩ | ⟨merging, looped, ending⟩
  · rw [looped] at loop
    rcases loop with ⟨_, impossible, _⟩ |
      ⟨last, error, same, ⟨sifted, grows⟩, entry, _, failed⟩
    · cases impossible
    · cases same
      rw [run]
      rcases Merging.same_of_applyOne_eq_error failed with ⟨sameGraph, sameKnown⟩
      exact ⟨last, sifted, sameGraph, sameKnown, grows, fun _ returned => nomatch returned⟩
  · rw [looped] at loop
    rcases loop with ⟨_, same, sifted, grows⟩ | ⟨_, _, impossible, _⟩
    · cases same
      have settled := sifted.settleMissing binding batch.length
      rcases Merging.exists_known_settleMissing batch.length merging with ⟨known, same⟩
      have sameGraph : (merging.settleMissing batch.length).applier.hashGraph =
          merging.applier.hashGraph := by rw [same]
      refine ⟨_, settled, ?_⟩
      rw [sameGraph]
      rcases ending with ⟨thrown, failed, run⟩ | ⟨next, replayed, run⟩
      · rw [run]
        rcases replayFrontier_eq_error failed with sameReplica | ⟨_, _, _, _, sameReplica⟩
        · rw [sameReplica]
          exact ⟨sameGraph, rfl, grows, fun _ returned => nomatch returned⟩
        · rw [sameReplica]
          exact ⟨sameGraph, rfl, grows, fun _ returned => nomatch returned⟩
      · rw [run]
        rcases replayFrontier_eq_ok.mp replayed with ⟨state, _, rfl⟩
        refine ⟨?_, knownInvalidVertexHashes_advanceCheckpointIfNeeded, grows, ?_⟩
        · exact hashGraph_advanceCheckpointIfNeeded.trans sameGraph
        · intro result returned
          cases returned
          rfl
    · cases impossible

inductive Input where
  | call (call : DRPProxyChainArgs)
  | merge (batch : List (ℤ × Vertex))

def Input.Candid (computeHash : ComputeHash) : Input → Prop
  | .call .. => True
  | .merge batch => ∀ entry ∈ batch, TsDrp.Candid computeHash entry

/-- The replica after a call or a merge, however it ends. -/
def serve (env : Environment Drp Acl) (applier : DRPVertexApplier Drp Acl) :
    Input → DRPVertexApplier Drp Acl
  | .call call =>
    (applier.callFn env call).1
  | .merge batch => (applier.applyVertices env batch).1

def serveAll (env : Environment Drp Acl) (applier : DRPVertexApplier Drp Acl)
    (inputs : List Input) : DRPVertexApplier Drp Acl :=
  inputs.foldl (serve env) applier

theorem Wary.callFn (wary : applier.Wary env) (binding : TimedBinding env.computeHash)
    (call : DRPProxyChainArgs) :
    (applier.callFn env call).1.Wary env ∧ Grows env.computeHash applier.hashGraph
        (applier.callFn env call).1.hashGraph := by
  have sameGraph := @hashGraph_advanceCheckpointIfNeeded _ _ applier
  have sameKnown := @knownInvalidVertexHashes_advanceCheckpointIfNeeded _ _ applier
  rcases callFn_cases env applier call with
    ⟨outcome, run | run⟩ | ⟨state, valid, staged, run⟩
  · rw [run]
    exact ⟨wary, .refl⟩
  · rw [run]
    refine ⟨wary.of_same sameGraph sameKnown, ?_⟩
    rw [sameGraph]
    exact .refl
  · have fresh := fresh_createVertex wary.layered binding.toContentBinding call
    have supports := supports_of_validateVertex valid
    have hashed : (applier.createVertex env call).Hashed env.computeHash := rfl
    have graph : (applier.callFn env call).1.hashGraph =
        applier.hashGraph.addVertex (applier.createVertex env call) := by
      rw [run]
      change (applier.advanceCheckpointIfNeeded.assign state _).hashGraph.addVertex _ = _
      rw [hashGraph_assign, sameGraph]
    have known : (applier.callFn env call).1.knownInvalidVertexHashes =
        applier.knownInvalidVertexHashes := by
      rw [run]
      cases call.type <;> exact sameKnown
    refine ⟨⟨?_, ?_, ?_⟩, ?_⟩
    · rw [graph]
      exact wary.layered.addVertex fresh (present_of_validateVertex valid) hashed
    · rw [graph, hashes_addVertex fresh]
      exact List.mem_append_left _ wary.rooted
    · rw [graph, known]
      exact fun hash mem => (wary.known hash mem).addVertex binding hashed fresh supports
    · rw [graph]
      exact .single ⟨_, hashed, fresh, supports, rfl⟩

theorem Wary.serve (wary : applier.Wary env) (keeps : env.KeepsToItself)
    (binding : TimedBinding env.computeHash) {input : Input}
    (candid : input.Candid env.computeHash) :
    (applier.serve env input).Wary env ∧
      Grows env.computeHash applier.hashGraph (applier.serve env input).hashGraph := by
  cases input with
  | call call =>
    exact wary.callFn binding call
  | merge batch =>
    rcases wary.exists_merging keeps binding candid with
      ⟨merging, sifted, graph, known, grows, _⟩
    exact ⟨(wary_of_sifted sifted).of_same graph known, graph ▸ grows⟩

theorem Wary.serveAll (wary : applier.Wary env) (keeps : env.KeepsToItself)
    (binding : TimedBinding env.computeHash) {inputs : List Input}
    (candid : ∀ input ∈ inputs, input.Candid env.computeHash) :
    (applier.serveAll env inputs).Wary env ∧
      Grows env.computeHash applier.hashGraph (applier.serveAll env inputs).hashGraph := by
  induction inputs generalizing applier with
  | nil => exact ⟨wary, .refl⟩
  | cons input rest ih =>
    rcases wary.serve keeps binding (candid input List.mem_cons_self) with ⟨served, grows⟩
    rcases ih served fun other mem => candid other (.tail _ mem) with ⟨final, grows'⟩
    exact ⟨final, grows.trans grows'⟩

end DRPVertexApplier

open DRPVertexApplier in
/--
Of a replica that is fed candid entries no vertex is ever accepted whose hash was
in the memo.  A vertex that a merge reports as invalid depends on nothing, or on a
vertex too far ahead of it, or else some of its dependencies are absent and none
of the absent ones ever arrives.
-/
theorem known_invalid_hashes_are_final {Drp Acl : Type} {env : Environment Drp Acl}
    (keeps : env.KeepsToItself) (binding : TimedBinding env.computeHash) (peerId : String)
    (checkpointSuffixSize : ℕ) (genesis : ReplayState Drp Acl) (inputs later : List Input)
    (candid : ∀ input ∈ inputs ++ later, input.Candid env.computeHash) :
    (∀ hash ∈ ((create peerId checkpointSuffixSize genesis).serveAll env
          inputs).knownInvalidVertexHashes,
        hash ∉ ((create peerId checkpointSuffixSize genesis).serveAll env
          (inputs ++ later)).hashGraph.hashes) ∧
      ∀ batch result, (∀ entry ∈ batch, Candid env.computeHash entry) →
        (((create peerId checkpointSuffixSize genesis).serveAll env inputs).applyVertices env
          batch).2 = .ok result →
        ∀ entry ∈ batch, entry.2.hash ∈ result.invalid → entry.2.Hashed env.computeHash →
          let merged := (((create peerId checkpointSuffixSize genesis).serveAll env
            inputs).applyVertices env batch).1
          let final := merged.serveAll env later
          entry.2.dependencies = [] ∨
            (∃ dependency ∈ entry.2.dependencies, ∃ depVertex,
              merged.hashGraph.getVertex dependency = some depVertex ∧
                futureToleranceMs < depVertex.timestamp - entry.2.timestamp) ∨
            (∃ dependency ∈ entry.2.dependencies, dependency ∉ merged.hashGraph.hashes) ∧
              ∀ dependency ∈ entry.2.dependencies, dependency ∉ merged.hashGraph.hashes →
                dependency ∉ final.hashGraph.hashes := by
  have first := (wary_create env peerId checkpointSuffixSize genesis).serveAll keeps binding
    fun input mem => candid input (List.mem_append_left later mem)
  have candidLater : ∀ input ∈ later, input.Candid env.computeHash :=
    fun input mem => candid input (List.mem_append_right inputs mem)
  refine ⟨fun hash mem => ?_, fun batch result candidBatch returned entry _ reported hashed => ?_⟩
  · have grows := (first.1.serveAll keeps binding candidLater).2
    rw [serveAll, List.foldl_append]
    exact ((first.1.known hash mem).grows binding grows).absent
  · rcases first.1.exists_merging keeps binding candidBatch with
      ⟨merging, sifted, graph, known, _, invalid⟩
    have merged : (((create peerId checkpointSuffixSize genesis).serveAll env
        inputs).applyVertices env batch).1.Wary env := (wary_of_sifted sifted).of_same graph known
    have grows := (merged.serveAll keeps binding candidLater).2
    have refused := sifted.invalid _ (invalid result returned ▸ reported)
    rw [← graph] at refused
    generalize sameHash : entry.2.hash = hash at refused
    cases refused.doomed with
    | unclaimed claimed => exact absurd sameHash (claimed _ hashed)
    | groundless vertex hashed' empty =>
      left
      rw [(hashed.same hashed' binding sameHash).1, empty]
    | early vertex hashed' mem found ahead =>
      rcases hashed.same hashed' binding sameHash with ⟨dependencies, timestamp⟩
      right
      left
      exact ⟨_, dependencies ▸ mem, _, found, timestamp ▸ ahead⟩
    | orphan vertex hashed' mem absent doomed =>
      rw [(hashed.same hashed' binding sameHash).1]
      right
      right
      refine ⟨⟨_, mem, absent⟩, fun dependency mem absent => ?_⟩
      exact (HashGraph.Refuses.grows ⟨absent, doomed dependency mem absent⟩ binding grows).absent

namespace MemoExample

def digest : String ≃ Hash := Equiv.swap (.ofList (rootText BindingExample.exactFormat)) rootHash

def environment (computeHash : ComputeHash) : Environment (List String) Unit where
  options :=
    { semanticsTypeDRP := some .pair, resolveConflictsACL := none, resolveConflictsDRP := none }
  semantics := Option.some_ne_none _
  code := SwapExample.recorder
  computeHash := computeHash
  fuel := 0

theorem keepsToItself_environment (computeHash : ComputeHash) :
    (environment computeHash).KeepsToItself where
  acl := fun _ _ _ _ => .ok _
  drp := fun _ _ _ _ => .ok _
  resolvers := by
    intro vertices
    cases vertices with
    | nil => exact .error rfl
    | cons first rest =>
      rw [GraphOptions.resolveConflicts]
      split <;> exact .ok _

def writtenOut : ComputeHash := computeHash BindingExample.exactFormat digest

theorem timedBinding_writtenOut : TimedBinding writtenOut :=
  timedBinding_computeHash digest.injective (Equiv.swap_apply_left _ _)

def shortName : ComputeHash := NamedHash.namedHash [(("alice", [rootHash]), "a")]

def vertex (computeHash : ComputeHash) (dependencies : List Hash) (timestamp : ℤ) : Vertex :=
  let operation : Operation := { drpType := "DRP", opType := "add", value := .array [] }
  { hash := computeHash "alice" (some operation) dependencies timestamp
    peerId := "alice"
    operation := some operation
    dependencies
    timestamp }

def genuine : Vertex := vertex shortName [rootHash] 0

def forged : Vertex := { genuine with peerId := "mallory" }

def ahead : Vertex := vertex shortName [rootHash] 60001

def replica : DRPVertexApplier (List String) Unit := .create "bob" 256 ⟨[], ()⟩

end MemoExample

open MemoExample DRPVertexApplier in
theorem known_invalid_hashes_are_final_groundless :
    let groundless := vertex writtenOut [] 0
    let env := environment writtenOut
    (replica.serveAll env [.merge [(0, groundless)]]).knownInvalidVertexHashes =
        [groundless.hash] ∧
      groundless.hash ∉ (replica.serveAll env ([.merge [(0, groundless)]] ++
        [.merge [(1, groundless)]])).hashGraph.hashes := by
  intro groundless env
  have candid (now : ℤ) (late : groundless.timestamp - now ≤ futureToleranceMs) :
      (Input.merge [(now, groundless)]).Candid env.computeHash := by
    intro entry entryMem
    cases List.mem_singleton.mp entryMem
    exact Or.inr ⟨rfl, late⟩
  refine ⟨by decide +kernel, (known_invalid_hashes_are_final (keepsToItself_environment writtenOut)
    timedBinding_writtenOut "bob" 256 ⟨[], ()⟩ _ _ fun input mem => ?_).1 _ (by decide +kernel)⟩
  rcases List.mem_append.mp mem with mem | mem
  · cases List.mem_singleton.mp mem
    exact candid 0 (by decide)
  · cases List.mem_singleton.mp mem
    exact candid 1 (by decide)

open MemoExample DRPVertexApplier in
/--
A forged vertex puts the hash of a genuine one into the memo, and a vertex ahead
of the clock its own.  Both are accepted from the next batch.
-/
theorem refused_hashes_are_accepted_later :
    let env := environment shortName
    (genuine.hash ∈ (replica.serveAll env [.merge [(0, forged)]]).knownInvalidVertexHashes ∧
      genuine.hash ∈ (replica.serveAll env
        [.merge [(0, forged)], .merge [(0, genuine)]]).hashGraph.hashes) ∧
    ahead.hash ∈ (replica.serveAll env [.merge [(0, ahead)]]).knownInvalidVertexHashes ∧
      ahead.hash ∈ (replica.serveAll env
        [.merge [(0, ahead)], .merge [(1, ahead)]]).hashGraph.hashes := by
  decide +kernel

end TsDrp
