import TsDrp.Acl.Authority

/-!
# What a merge reports

A merge that returns lists the vertices it could not place as missing or as
invalid.  A vertex without an operation, or with the operation of a root, is
passed over in silence.  Of the others each is in the graph or in one of the
lists, and in only one of the three if its hash is submitted once.  A vertex is
missing because of what the graph lacked when its turn came: a later vertex of
the same batch can supply it.
-/

namespace TsDrp

open HashGraph

def Vertex.Reportable (vertex : Vertex) : Prop :=
  ∃ operation, vertex.operation = some operation ∧ operation.opType ≠ "-1"

/-- What the result of a merge says about the batch and the replica that the merge leaves. -/
structure ApplyResult.Accounts {Drp Acl : Type} (result : ApplyResult) (batch : List (ℤ × Vertex))
    (final : DRPVertexApplier Drp Acl) : Prop where
  placed : ∀ entry ∈ batch, entry.2.Reportable →
    entry.2.hash ∈ final.hashGraph.hashes ∨ entry.2.hash ∈ result.missing ∨
      entry.2.hash ∈ result.invalid
  missing : ∀ hash ∈ result.missing, ∃ entry ∈ batch, entry.2.hash = hash ∧ entry.2.Reportable ∧
    ((∀ dependency ∈ entry.2.dependencies, dependency ∈ final.hashGraph.hashes) ∨
      ∃ dependency ∈ entry.2.dependencies, dependency ∉ final.hashGraph.hashes ∧
        dependency ∉ final.knownInvalidVertexHashes ∧ dependency ∉ result.invalid)
  invalid : ∀ hash ∈ result.invalid, ∃ entry ∈ batch, entry.2.hash = hash ∧ entry.2.Reportable
  applied : result.applied = true ↔ result.missing = [] ∧ result.invalid = []
  distinct : ∀ hash, (batch.map (·.2.hash)).count hash ≤ 1 →
    (hash ∈ result.missing → hash ∉ final.hashGraph.hashes ∧ hash ∉ result.invalid) ∧
    (hash ∈ result.invalid → hash ∉ final.hashGraph.hashes)
  present : result.applied = true →
    ∀ entry ∈ batch, entry.2.Reportable → entry.2.hash ∈ final.hashGraph.hashes
  complete : (batch.map (·.2.hash)).Nodup →
    (∀ entry ∈ batch, entry.2.Reportable → entry.2.hash ∈ final.hashGraph.hashes) →
      result.applied = true

namespace Merging

variable {Drp Acl : Type} {env : Environment Drp Acl} {merging next : Merging Drp Acl}
  {before : List (ℤ × Vertex)} {now : ℤ} {vertex : Vertex}

/-- The merge's own variables when some of the batch has been gone through. -/
structure Classified (before : List (ℤ × Vertex)) (merging : Merging Drp Acl) : Prop where
  placed : ∀ entry ∈ before, entry.2.Reportable →
    entry.2.hash ∈ merging.applier.hashGraph.hashes ∨ entry.2.hash ∈ merging.missing ∨
      entry.2.hash ∈ merging.invalid
  missing : ∀ hash ∈ merging.missing, ∃ entry ∈ before, entry.2.hash = hash ∧ entry.2.Reportable ∧
    merging.missingVertices hash = some entry.2
  invalid : ∀ hash ∈ merging.invalid, ∃ entry ∈ before, entry.2.hash = hash ∧ entry.2.Reportable
  batch : merging.batchInvalidVertexHashes = merging.invalid
  few : merging.missing.length ≤ before.length
  missingApart : ∀ hash ∈ merging.missing, (before.map (·.2.hash)).count hash ≤ 1 →
    hash ∉ merging.applier.hashGraph.hashes ∧ hash ∉ merging.invalid
  invalidApart : ∀ hash ∈ merging.invalid, (before.map (·.2.hash)).count hash ≤ 1 →
    hash ∉ merging.applier.hashGraph.hashes

theorem classified_start (applier : DRPVertexApplier Drp Acl) :
    (start applier).Classified [] := by
  refine ⟨?_, ?_, ?_, rfl, le_refl _, ?_, ?_⟩
  · intro entry mem
    cases mem
  · intro hash mem
    cases mem
  · intro hash mem
    cases mem
  · intro hash mem
    cases mem
  · intro hash mem
    cases mem

theorem reportable_of_not_skips (notSkipped : merging.skips vertex = false) : vertex.Reportable := by
  unfold skips at notSkipped
  split at notSkipped
  case h_1 => cases notSkipped
  case h_2 operation found =>
    refine ⟨operation, found, ?_⟩
    simpa using (Bool.or_eq_false_iff.mp notSkipped).1

theorem mem_of_skips (skipped : merging.skips vertex = true) (reportable : vertex.Reportable) :
    vertex.hash ∈ merging.applier.hashGraph.hashes := by
  rcases reportable with ⟨operation, found, notRoot⟩
  simpa [skips, found, notRoot, HashGraph.has] using skipped

section

variable (classified : merging.Classified before)
include classified

theorem Classified.once_before {entry : ℤ × Vertex} {hash : Hash}
    (once : ((before ++ [entry]).map (·.2.hash)).count hash ≤ 1) :
    (before.map (·.2.hash)).count hash ≤ 1 ∧
      (hash ∈ merging.missing ∨ hash ∈ merging.invalid → hash ≠ entry.2.hash) := by
  rw [List.map_append, List.count_append] at once
  refine ⟨by omega, ?_⟩
  rintro listed rfl
  have before : entry.2.hash ∈ before.map (·.2.hash) := by
    rcases listed with listed | listed
    · rcases classified.missing _ listed with ⟨earlier, earlierMem, same, _⟩
      exact same ▸ List.mem_map_of_mem earlierMem
    · rcases classified.invalid _ listed with ⟨earlier, earlierMem, same, _⟩
      exact same ▸ List.mem_map_of_mem earlierMem
  have earlier := List.count_pos_iff.mpr before
  rw [List.map_singleton, List.count_singleton_self] at once
  omega

theorem Classified.invalid_append (entry : ℤ × Vertex) :
    ∀ hash ∈ merging.invalid, ∃ found ∈ before ++ [entry],
      found.2.hash = hash ∧ found.2.Reportable := by
  intro hash mem
  rcases classified.invalid hash mem with ⟨found, foundMem, facts⟩
  exact ⟨found, List.mem_append_left _ foundMem, facts⟩

theorem Classified.missing_append (entry : ℤ × Vertex) :
    ∀ hash ∈ merging.missing, ∃ found ∈ before ++ [entry],
      found.2.hash = hash ∧ found.2.Reportable ∧ merging.missingVertices hash = some found.2 := by
  intro hash mem
  rcases classified.missing hash mem with ⟨found, foundMem, facts⟩
  exact ⟨found, List.mem_append_left _ foundMem, facts⟩

theorem Classified.few_append (entry : ℤ × Vertex) :
    merging.missing.length ≤ (before ++ [entry]).length := by
  have few := classified.few
  rw [List.length_append]
  omega

theorem Classified.skip (skipped : merging.skips vertex = true) :
    merging.Classified (before ++ [(now, vertex)]) := by
  refine ⟨fun entry mem reportable => ?_, classified.missing_append _, classified.invalid_append _,
    classified.batch, classified.few_append _, fun hash mem once => ?_, fun hash mem once => ?_⟩
  · rcases List.mem_append.mp mem with old | new
    · exact classified.placed entry old reportable
    · rw [List.mem_singleton.mp new] at reportable ⊢
      exact Or.inl (mem_of_skips skipped reportable)
  · exact classified.missingApart hash mem (classified.once_before once).1
  · exact classified.invalidApart hash mem (classified.once_before once).1

theorem Classified.commit (fresh : vertex.hash ∉ merging.applier.hashGraph.hashes)
    (state : ReplayState Drp Acl) :
    ({ merging with applier := merging.applier.commit vertex state } : Merging Drp Acl).Classified
      (before ++ [(now, vertex)]) := by
  have hashes : (merging.applier.commit vertex state).hashGraph.hashes =
      merging.applier.hashGraph.hashes ++ [vertex.hash] := hashes_addVertex fresh
  refine ⟨fun entry mem reportable => ?_, classified.missing_append _, classified.invalid_append _,
    classified.batch, classified.few_append _, fun hash mem once => ?_, fun hash mem once => ?_⟩
  · rw [hashes]
    rcases List.mem_append.mp mem with old | new
    · exact (classified.placed entry old reportable).imp_left (List.mem_append_left _)
    · rw [List.mem_singleton.mp new]
      exact Or.inl (List.mem_append_right _ List.mem_cons_self)
  · rcases classified.once_before once with ⟨once, other⟩
    rcases classified.missingApart hash mem once with ⟨absent, notInvalid⟩
    refine ⟨?_, notInvalid⟩
    rw [hashes, List.mem_append, List.mem_singleton, not_or]
    exact ⟨absent, other (Or.inl mem)⟩
  · rcases classified.once_before once with ⟨once, other⟩
    rw [hashes, List.mem_append, List.mem_singleton, not_or]
    exact ⟨classified.invalidApart hash mem once, other (Or.inr mem)⟩

theorem Classified.markMissing (fresh : vertex.hash ∉ merging.applier.hashGraph.hashes)
    (reportable : vertex.Reportable) :
    (merging.markMissing vertex).Classified (before ++ [(now, vertex)]) := by
  refine ⟨fun entry mem isReportable => ?_, fun hash mem => ?_, classified.invalid_append _,
    classified.batch, ?_, fun hash mem once => ?_, fun hash mem once => ?_⟩
  · rcases List.mem_append.mp mem with old | new
    · exact (classified.placed entry old isReportable).imp_right
        (Or.imp_left (List.mem_append_left _))
    · rw [List.mem_singleton.mp new]
      exact Or.inr (Or.inl (List.mem_append_right _ List.mem_cons_self))
  · by_cases same : hash = vertex.hash
    · subst same
      exact ⟨(now, vertex), List.mem_append_right _ List.mem_cons_self, rfl, reportable,
        Function.update_self ..⟩
    · have old : hash ∈ merging.missing := by
        rcases List.mem_append.mp mem with old | new
        · exact old
        · exact absurd (List.mem_singleton.mp new) same
      rcases classified.missing_append (now, vertex) hash old with ⟨found, foundMem, isHash, facts, kept⟩
      exact ⟨found, foundMem, isHash, facts, (Function.update_of_ne same ..).trans kept⟩
  · have few := classified.few
    simp only [Merging.markMissing, List.length_append, List.length_singleton]
    omega
  · rcases classified.once_before once with ⟨once, other⟩
    rcases List.mem_append.mp mem with old | new
    · exact classified.missingApart hash old once
    · have isNew := List.mem_singleton.mp new
      exact ⟨isNew ▸ fresh, fun listed => other (Or.inr listed) isNew⟩
  · exact classified.invalidApart hash mem (classified.once_before once).1

theorem Classified.markInvalid (fresh : vertex.hash ∉ merging.applier.hashGraph.hashes)
    (reportable : vertex.Reportable) :
    (merging.markInvalid vertex.hash).Classified (before ++ [(now, vertex)]) := by
  refine ⟨fun entry mem isReportable => ?_, classified.missing_append _, fun hash mem => ?_, ?_,
    classified.few_append _, fun hash mem once => ?_, fun hash mem once => ?_⟩
  · rcases List.mem_append.mp mem with old | new
    · exact (classified.placed entry old isReportable).imp_right
        (Or.imp_right (List.mem_append_left _))
    · rw [List.mem_singleton.mp new]
      exact Or.inr (Or.inr (List.mem_append_right _ List.mem_cons_self))
  · rcases List.mem_append.mp mem with old | new
    · exact classified.invalid_append _ hash old
    · exact ⟨(now, vertex), List.mem_append_right _ List.mem_cons_self,
        (List.mem_singleton.mp new).symm, reportable⟩
  · simp only [Merging.markInvalid, classified.batch]
  · rcases classified.once_before once with ⟨once, other⟩
    rcases classified.missingApart hash mem once with ⟨absent, notInvalid⟩
    refine ⟨absent, fun listed => ?_⟩
    rcases List.mem_append.mp listed with old | new
    · exact notInvalid old
    · exact other (Or.inl mem) (List.mem_singleton.mp new)
  · rcases List.mem_append.mp mem with old | new
    · exact classified.invalidApart hash old (classified.once_before once).1
    · rw [List.mem_singleton.mp new]
      exact fresh

theorem Classified.applyOne (applied : merging.applyOne env now vertex = .ok next) :
    next.Classified (before ++ [(now, vertex)]) := by
  rcases applyOne_cases applied with
    ⟨skipped, rfl⟩ | ⟨notSkipped, staged, _, rfl⟩ | ⟨notSkipped, _, _, _, rfl⟩
  · exact classified.skip skipped
  · exact classified.commit (notMem_of_not_skips notSkipped) staged.1
  · have fresh := notMem_of_not_skips notSkipped
    have reportable := reportable_of_not_skips notSkipped
    split
    · exact classified.markMissing fresh reportable
    · exact classified.markInvalid fresh reportable

theorem Classified.applyEach {rest : List (ℤ × Vertex)} {final : Merging Drp Acl}
    (looped : applyEach env merging rest = .ok final) : final.Classified (before ++ rest) := by
  induction rest generalizing before merging with
  | nil =>
    cases looped
    rwa [List.append_nil]
  | cons entry rest ih =>
    rw [Merging.applyEach] at looped
    cases applied : merging.applyOne env entry.1 entry.2 with
    | error error =>
      rw [applied] at looped
      cases looped
    | ok next =>
      rw [applied] at looped
      have through := ih (classified.applyOne applied) looped
      rwa [List.append_assoc, List.singleton_append] at through

end

theorem foldl_reject (hashes : List Hash) (merging : Merging Drp Acl) :
    (hashes.foldl reject merging).invalid = merging.invalid ++ hashes ∧
    (hashes.foldl reject merging).batchInvalidVertexHashes =
      merging.batchInvalidVertexHashes ++ hashes ∧
    (∀ hash, hash ∉ hashes →
      (hashes.foldl reject merging).missingVertices hash = merging.missingVertices hash) ∧
    (hashes.foldl reject merging).applier.hashGraph = merging.applier.hashGraph := by
  induction hashes generalizing merging with
  | nil => simp
  | cons hash rest ih =>
    rcases ih (merging.reject hash) with ⟨invalid, batch, kept, graph⟩
    rw [List.foldl_cons, invalid, batch, graph]
    refine ⟨by simp [reject, markInvalid], by simp [reject, markInvalid], fun other notMem => ?_, rfl⟩
    rw [List.mem_cons, not_or] at notMem
    exact (kept other notMem.2).trans (Function.update_of_ne notMem.1 ..)

theorem Classified.rejectAll (classified : merging.Classified before) {newlyInvalid : List Hash}
    (subset : newlyInvalid ⊆ merging.missing) : (merging.rejectAll newlyInvalid).Classified before := by
  rcases foldl_reject newlyInvalid merging with ⟨invalid, batch, kept, graph⟩
  have stays : ∀ {hash}, hash ∈ (merging.rejectAll newlyInvalid).missing ↔
      hash ∈ merging.missing ∧ hash ∉ newlyInvalid := by
    simp [Merging.rejectAll]
  have invalidated : (merging.rejectAll newlyInvalid).invalid = merging.invalid ++ newlyInvalid :=
    invalid
  have sameGraph : (merging.rejectAll newlyInvalid).applier.hashGraph =
      merging.applier.hashGraph := graph
  refine ⟨fun entry mem reportable => ?_, fun hash mem => ?_, fun hash mem => ?_, ?_, ?_,
    fun hash mem once => ?_, fun hash mem once => ?_⟩
  · rw [sameGraph, invalidated, stays]
    rcases classified.placed entry mem reportable with present | missing | invalid
    · exact Or.inl present
    · by_cases moved : entry.2.hash ∈ newlyInvalid
      · exact Or.inr (Or.inr (List.mem_append_right _ moved))
      · exact Or.inr (Or.inl ⟨missing, moved⟩)
    · exact Or.inr (Or.inr (List.mem_append_left _ invalid))
  · rcases stays.mp mem with ⟨missing, notMoved⟩
    rcases classified.missing hash missing with ⟨entry, entryMem, same, reportable, found⟩
    exact ⟨entry, entryMem, same, reportable, (kept hash notMoved).trans found⟩
  · rw [invalidated] at mem
    rcases List.mem_append.mp mem with old | moved
    · exact classified.invalid hash old
    · rcases classified.missing hash (subset moved) with ⟨entry, entryMem, same, reportable, _⟩
      exact ⟨entry, entryMem, same, reportable⟩
  · rw [invalidated, ← classified.batch]
    exact batch
  · exact (List.length_filter_le _ _).trans classified.few
  · rcases stays.mp mem with ⟨missing, notMoved⟩
    rcases classified.missingApart hash missing once with ⟨absent, notInvalid⟩
    rw [sameGraph, invalidated, List.mem_append, not_or]
    exact ⟨absent, notInvalid, notMoved⟩
  · rw [sameGraph]
    rw [invalidated] at mem
    rcases List.mem_append.mp mem with old | moved
    · exact classified.invalidApart hash old once
    · exact (classified.missingApart hash (subset moved) once).1

theorem Classified.settleMissing (classified : merging.Classified before) {rounds : ℕ}
    (enough : merging.missing.length ≤ rounds) :
    (settleMissing rounds merging).Classified before ∧
      ∀ hash ∈ (settleMissing rounds merging).missing,
        (settleMissing rounds merging).isNewlyInvalid hash = false := by
  induction rounds generalizing merging with
  | zero =>
    refine ⟨classified, fun hash mem => ?_⟩
    rw [Merging.settleMissing, List.length_eq_zero_iff.mp (Nat.le_zero.mp enough)] at mem
    cases mem
  | succ rounds ih =>
    rw [Merging.settleMissing]
    split
    case isTrue settled =>
      refine ⟨classified, fun hash mem => ?_⟩
      simpa using List.filter_eq_nil_iff.mp settled hash mem
    case isFalse newly =>
      apply ih (classified.rejectAll (List.filter_subset_self _))
      -- Each round takes at least one hash off the list.
      rcases List.exists_mem_of_ne_nil _ newly with ⟨hash, mem⟩
      have shorter : (merging.rejectAll (merging.missing.filter merging.isNewlyInvalid)).missing.length
          < merging.missing.length :=
        List.length_filter_lt_length_iff_exists.mpr
          ⟨hash, List.mem_of_mem_filter mem, by simpa using mem⟩
      omega

theorem Classified.unresolved (classified : merging.Classified before) {hash : Hash}
    (mem : hash ∈ merging.missing) (settled : merging.isNewlyInvalid hash = false) :
    ∃ entry ∈ before, entry.2.hash = hash ∧ entry.2.Reportable ∧
      ((∀ dependency ∈ entry.2.dependencies, dependency ∈ merging.applier.hashGraph.hashes) ∨
        ∃ dependency ∈ entry.2.dependencies, dependency ∉ merging.applier.hashGraph.hashes ∧
          dependency ∉ merging.applier.knownInvalidVertexHashes ∧
          dependency ∉ merging.invalid) := by
  rcases classified.missing hash mem with ⟨entry, entryMem, same, reportable, found⟩
  refine ⟨entry, entryMem, same, reportable, ?_⟩
  have unresolved : ∀ {dependency},
      dependency ∈ merging.applier.hashGraph.unresolvedDependencies entry.2 ↔
        dependency ∈ entry.2.dependencies ∧ dependency ∉ merging.applier.hashGraph.hashes := by
    simp [HashGraph.unresolvedDependencies, HashGraph.has]
  simp only [isNewlyInvalid, found, classified.batch, decide_eq_false_iff_not, not_and, not_forall,
    not_or] at settled
  by_cases complete : merging.applier.hashGraph.unresolvedDependencies entry.2 = []
  · refine Or.inl fun dependency dependencyMem => ?_
    by_contra absent
    have isUnresolved := unresolved.mpr ⟨dependencyMem, absent⟩
    rw [complete] at isUnresolved
    cases isUnresolved
  · rcases settled complete with ⟨dependency, isUnresolved, unknown⟩
    rcases unresolved.mp isUnresolved with ⟨dependencyMem, absent⟩
    exact Or.inr ⟨dependency, dependencyMem, absent, unknown⟩

end Merging

namespace DRPVertexApplier

variable {Drp Acl : Type} {env : Environment Drp Acl} {applier : DRPVertexApplier Drp Acl}

@[simp]
theorem knownInvalidVertexHashes_advanceCheckpointIfNeeded :
    applier.advanceCheckpointIfNeeded.knownInvalidVertexHashes =
      applier.knownInvalidVertexHashes := by
  unfold advanceCheckpointIfNeeded
  split <;> rfl

/--
A merge that returns accounts for every vertex of its batch: one with an
operation is in the graph or listed, a listed one was submitted with an operation,
a missing one had no known reason to be refused, and a hash that was submitted
once is in the graph or in one list only.  `applied` implies that all are in the
graph, and the converse holds where no hash was submitted twice.
-/
theorem merge_accounts_for_every_vertex {batch : List (ℤ × Vertex)} {result : ApplyResult}
    (returned : (applier.applyVertices env batch).2 = .ok result) :
    result.Accounts batch (applier.applyVertices env batch).1 := by
  rcases applyVertices_eq_ok returned with ⟨merging, next, looped, replayed, final, rfl⟩
  have looped := (Merging.classified_start applier).applyEach looped
  rw [List.nil_append] at looped
  rcases looped.settleMissing looped.few with ⟨classified, settled⟩
  rcases replayFrontier_eq_ok.mp replayed with ⟨state, _, same⟩
  have hashGraph : (applier.applyVertices env batch).1.hashGraph =
      (merging.settleMissing batch.length).applier.hashGraph := by
    rw [final, hashGraph_advanceCheckpointIfNeeded, same]
  have known : (applier.applyVertices env batch).1.knownInvalidVertexHashes =
      (merging.settleMissing batch.length).applier.knownInvalidVertexHashes := by
    rw [final, knownInvalidVertexHashes_advanceCheckpointIfNeeded, same]
  have applied : (merging.settleMissing batch.length).result.applied = true ↔
      (merging.settleMissing batch.length).missing = [] ∧
        (merging.settleMissing batch.length).invalid = [] := by
    simp [Merging.result]
  refine ⟨?_, ?_, classified.invalid, applied, fun hash once => ⟨fun mem => ?_, fun mem => ?_⟩, ?_, ?_⟩
  · rw [hashGraph]
    exact classified.placed
  · rw [hashGraph, known]
    exact fun hash mem => classified.unresolved mem (settled hash mem)
  · rw [hashGraph]
    exact classified.missingApart hash mem once
  · rw [hashGraph]
    exact classified.invalidApart hash mem once
  · rw [applied, hashGraph]
    rintro ⟨noMissing, noInvalid⟩ entry mem reportable
    rcases classified.placed entry mem reportable with present | listed | listed
    · exact present
    · rw [noMissing] at listed
      cases listed
    · rw [noInvalid] at listed
      cases listed
  · rw [applied, hashGraph]
    intro nodup present
    have once := List.nodup_iff_count_le_one.mp nodup
    refine ⟨List.eq_nil_iff_forall_not_mem.mpr fun hash mem => ?_,
      List.eq_nil_iff_forall_not_mem.mpr fun hash mem => ?_⟩
    · rcases classified.missing hash mem with ⟨entry, entryMem, rfl, reportable, _⟩
      exact (classified.missingApart _ mem (once _)).1 (present entry entryMem reportable)
    · rcases classified.invalid hash mem with ⟨entry, entryMem, rfl, reportable⟩
      exact classified.invalidApart _ mem (once _) (present entry entryMem reportable)

end DRPVertexApplier

namespace AclExample

def familyNames : List ((String × List Hash) × Hash) :=
  [(("alice", [rootHash]), "p"), (("alice", ["p"]), "c"), (("alice", ["x"]), "o")]

def parent : Vertex := vertex "p" "alice" .drp "add" [] [rootHash]

def child : Vertex := vertex "c" "alice" .drp "inc" [] ["p"]

def orphan : Vertex := vertex "o" "alice" .drp "inc" [] ["x"]

def blank : Vertex := { child with operation := none, dependencies := [rootHash], hash := "b" }

def submitted (batch : List Vertex) :
    DRPVertexApplier (List String) ObjectACL × Except JsError ApplyResult :=
  (DRPVertexApplier.create "bob" 256 genesis).applyVertices (environment .revokeWins familyNames)
    (batch.map fun vertex => (0, vertex))

end AclExample

open AclExample in
theorem merge_accounts_for_orphan :
    (submitted [parent, orphan]).2 = .ok ⟨false, ["o"], []⟩ ∧
    (⟨false, ["o"], []⟩ : ApplyResult).Accounts [(0, parent), (0, orphan)]
      (submitted [parent, orphan]).1 := by
  have returned : (submitted [parent, orphan]).2 = .ok ⟨false, ["o"], []⟩ := by decide +kernel
  exact ⟨returned, DRPVertexApplier.merge_accounts_for_every_vertex returned⟩

open AclExample in
/--
A vertex before its dependency is missing although the merge ends with the
dependency in the graph; submitted again behind it, it is in the graph and still
listed.  A vertex without an operation is nowhere, and the merge counts as
applied.
-/
theorem merge_misreports_order_and_blanks :
    (submitted [child, parent]).2 = .ok ⟨false, ["c"], []⟩ ∧
    (submitted [child, parent]).1.hashGraph.hashes = [rootHash, "p"] ∧
    child.dependencies = ["p"] ∧
    (submitted [child, parent, child]).2 = .ok ⟨false, ["c"], []⟩ ∧
    (submitted [child, parent, child]).1.hashGraph.hashes = [rootHash, "p", "c"] ∧
    (submitted [blank]).2 = .ok ⟨true, [], []⟩ ∧
    (submitted [blank]).1.hashGraph.hashes = [rootHash] := by
  refine ⟨?_, ?_, ?_, ?_, ?_, ?_, ?_⟩ <;> decide +kernel

end TsDrp
