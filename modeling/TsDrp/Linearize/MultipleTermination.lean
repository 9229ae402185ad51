import TsDrp.Acl.MixedPairs

/-!
# Termination with multiple semantics

A turn of the inner loop that does not advance has to drop something: then one
entry less is left to ask about, and the number of positions bounds the turns.
The loop advances on `Nop` and drops on `Drop`; any other answer repeats the turn
with the same question.  The resolver of the access control list knows no `Drop`:
asked about two of its operations that conflict, it answers `DropLeft` or
`DropRight`, and the loop does not end.
-/

namespace TsDrp

open Outcome ObjectACL

namespace MultipleScan

variable {resolve : List Hash → Except JsError ResolveConflictsType}
  {causality : LegacyCausalityMatrix} {members : List Hash}

/-- An answer after which the loop has less to do: an exception, `Nop`, or the loss of a vertex. -/
def MovesOn (group : List Hash) : Except JsError ResolveConflictsType → Prop
  | .error error => error ≠ .diverges
  | .ok answer =>
    answer.action = .nop ∨ answer.action = .drop ∧ ∃ hash ∈ answer.vertices, hash ∈ group

/-- Every group led by two unrelated members moves the loop on. -/
def Progresses (resolve : List Hash → Except JsError ResolveConflictsType)
    (causality : LegacyCausalityMatrix) (members : List Hash) : Prop :=
  ∀ anchor ∈ members, ∀ moving ∈ members, anchor ≠ moving →
    causality.areRelated anchor moving = false → ∀ more, (∀ hash ∈ more, hash ∈ members) →
      MovesOn (anchor :: moving :: more) (resolve (anchor :: moving :: more))

section Gather

variable {operations todo : List IndexedSlot}

theorem gather_eq_append (causality : LegacyCausalityMatrix) (operations todo : List IndexedSlot) :
    ∃ more, gather causality operations todo = operations ++ more ∧ more.Sublist todo ∧
      ∀ slot ∈ more, slot.dropped = false := by
  induction todo generalizing operations with
  | nil => exact ⟨[], by simp [gather], List.Sublist.refl [], by simp⟩
  | cons slot rest ih =>
    rw [gather]
    split
    · rcases ih operations with ⟨more, shape, sublist, undropped⟩
      exact ⟨more, shape, sublist.cons _, undropped⟩
    · rename_i added
      have notDropped : slot.dropped = false := by
        rw [Bool.or_eq_true, not_or, Bool.not_eq_true] at added
        exact added.1
      rcases ih (operations ++ [slot]) with ⟨more, shape, sublist, undropped⟩
      refine ⟨slot :: more, by rw [shape, List.append_assoc]; rfl, sublist.cons_cons _, ?_⟩
      intro other mem
      rcases List.mem_cons.mp mem with rfl | inMore
      · exact notDropped
      · exact undropped other inMore

theorem register_of_not_mem {indices : Hash → Option ℕ} {hash : Hash}
    (absent : hash ∉ operations.map (·.hash)) : register indices operations hash = indices hash := by
  induction operations generalizing indices with
  | nil => rfl
  | cons slot rest ih =>
    rw [List.map_cons, List.mem_cons, not_or] at absent
    change register (Function.update indices slot.hash (some slot.index)) rest hash = _
    rw [ih absent.2, Function.update_of_ne absent.1]

theorem register_of_mem {indices : Hash → Option ℕ} (nodup : (operations.map (·.hash)).Nodup)
    {slot : IndexedSlot} (mem : slot ∈ operations) :
    register indices operations slot.hash = some slot.index := by
  induction operations generalizing indices with
  | nil => cases mem
  | cons head rest ih =>
    rw [List.map_cons, List.nodup_cons] at nodup
    change register (Function.update indices head.hash (some head.index)) rest slot.hash = _
    rcases List.mem_cons.mp mem with rfl | inRest
    · rw [register_of_not_mem nodup.1, Function.update_self]
    · exact ih nodup.2 inRest

end Gather

def Drops (indices : Hash → Option ℕ) (answer : ResolveConflictsType) (slot : IndexedSlot) : Prop :=
  slot.hash ∈ droppedBy answer ∧ indices slot.hash = some slot.index

theorem Drops.dropped_mark {indices : Hash → Option ℕ} {answer : ResolveConflictsType}
    {slot : IndexedSlot} (drops : Drops indices answer slot) (positive : slot.index ≠ 0) :
    (mark indices (droppedBy answer) slot).dropped = true := by
  rw [mark, Bool.or_eq_true, Bool.and_eq_true, decide_eq_true_eq, List.any_eq_true]
  exact Or.inr ⟨positive, slot.hash, drops.1, by simpa using drops.2⟩

/-- What the loop over `j` asks about, and what an answer that is no exception does. -/
theorem Progresses.group (progresses : Progresses resolve causality members)
    {anchor slot : IndexedSlot} (undropped : anchor.dropped = false) (slotUndropped : slot.dropped = false)
    (unrelated : causality.areRelated anchor.hash slot.hash = false) {todo : List IndexedSlot}
    (inside : ∀ hash ∈ (anchor :: slot :: todo).map (·.hash), hash ∈ members)
    (nodup : ((anchor :: slot :: todo).map (·.hash)).Nodup) (indices : Hash → Option ℕ) :
    resolve ((gather causality [anchor, slot] todo).map (·.hash)) ≠ .error .diverges ∧
      ∀ answer, resolve ((gather causality [anchor, slot] todo).map (·.hash)) = .ok answer →
        answer.action = .nop ∨ answer.action = .drop ∧
          ∃ found ∈ anchor :: slot :: todo, found.dropped = false ∧
            Drops (register indices (gather causality [anchor, slot] todo)) answer found := by
  rcases gather_eq_append causality [anchor, slot] todo with ⟨more, shape, moreSublist, moreUndropped⟩
  have groupSublist : ([anchor, slot] ++ more).Sublist (anchor :: slot :: todo) :=
    (moreSublist.cons_cons slot).cons_cons anchor
  have groupUndropped : ∀ operation ∈ [anchor, slot] ++ more, operation.dropped = false := by
    intro operation mem
    rcases List.mem_append.mp mem with inPair | inMore
    · simp only [List.mem_cons, List.not_mem_nil, or_false] at inPair
      rcases inPair with rfl | rfl
      · exact undropped
      · exact slotUndropped
    · exact moreUndropped operation inMore
  have different : anchor.hash ≠ slot.hash := by
    rw [List.map_cons, List.map_cons, List.nodup_cons, List.mem_cons, not_or] at nodup
    exact nodup.1.1
  have movesOn := progresses anchor.hash (inside _ List.mem_cons_self) slot.hash
    (inside _ (.tail _ List.mem_cons_self)) different unrelated (more.map (·.hash)) fun hash mem =>
      inside hash (.tail _ (.tail _ ((moreSublist.map (·.hash)).subset mem)))
  change MovesOn (([anchor, slot] ++ more).map (·.hash))
    (resolve (([anchor, slot] ++ more).map (·.hash))) at movesOn
  rw [shape]
  refine ⟨fun diverges => ?_, fun answer answered => ?_⟩
  · rw [diverges] at movesOn
    exact movesOn rfl
  · rw [answered] at movesOn
    refine movesOn.imp_right fun ⟨isDrop, hash, dropped, inGroup⟩ => ⟨isDrop, ?_⟩
    rcases List.mem_map.mp inGroup with ⟨operation, operationMem, rfl⟩
    refine ⟨operation, groupSublist.subset operationMem, groupUndropped operation operationMem, ?_, ?_⟩
    · rw [droppedBy, isDrop]
      exact dropped
    · exact register_of_mem ((groupSublist.map _).nodup nodup) operationMem

def Useful (anchor : IndexedSlot) (outcome : Except JsError Round) : Prop :=
  outcome ≠ .error .diverges ∧ ∀ indices answer passed rest,
    outcome = .ok (.stopped indices answer passed rest) →
      ∃ slot ∈ anchor :: rest, slot.dropped = false ∧ Drops indices answer slot

theorem Useful.map_cons {anchor slot : IndexedSlot} {outcome : Except JsError Round}
    (useful : Useful anchor outcome) : Useful anchor (outcome.map (Round.cons slot)) := by
  rcases useful with ⟨returns, stops⟩
  cases outcome with
  | error error =>
    refine ⟨fun same => returns (congrArg _ (Except.error.inj same)), fun _ _ _ _ impossible => ?_⟩
    cases impossible
  | ok round =>
    refine ⟨fun impossible => ?_, fun indices answer passed rest same => ?_⟩
    · cases impossible
    · cases round with
      | finished => cases same
      | stopped =>
        cases same
        exact stops _ _ _ _ rfl

theorem Progresses.advance (progresses : Progresses resolve causality members)
    {anchor : IndexedSlot} (undropped : anchor.dropped = false) {todo : List IndexedSlot}
    (inside : ∀ hash ∈ (anchor :: todo).map (·.hash), hash ∈ members)
    (nodup : ((anchor :: todo).map (·.hash)).Nodup) (indices : Hash → Option ℕ) :
    Useful anchor (advance resolve causality anchor indices todo) := by
  induction todo generalizing indices with
  | nil =>
    refine ⟨ok_ne_error, fun _ _ _ _ impossible => ?_⟩
    cases impossible
  | cons slot todo ih =>
    have sublist : ((anchor :: todo).map (·.hash)).Sublist ((anchor :: slot :: todo).map (·.hash)) :=
      ((List.sublist_cons_self slot todo).cons_cons anchor).map _
    have continued := ih (fun hash mem => inside hash (sublist.subset mem)) (sublist.nodup nodup)
    rw [MultipleScan.advance]
    split
    · exact (continued indices).map_cons
    · rename_i asked
      rw [Bool.not_eq_true, Bool.or_eq_false_iff] at asked
      rcases progresses.group undropped asked.2 asked.1 inside nodup indices with ⟨returns, answers⟩
      dsimp only
      cases answered : resolve ((gather causality [anchor, slot] todo).map (·.hash)) with
      | error error =>
        rw [answered] at returns
        refine ⟨fun same => returns (congrArg _ (Except.error.inj same)), fun _ _ _ _ same => ?_⟩
        cases same
      | ok answer =>
        rw [ok_bind]
        rcases answers answer answered with isNop | ⟨isDrop, found, foundMem, drops⟩
        · rw [isNop]
          exact (continued _).map_cons
        · rw [isDrop]
          refine ⟨fun impossible => ?_, fun _ _ _ _ same => ?_⟩
          · cases impossible
          · cases same
            exact ⟨found, foundMem, drops⟩

def remaining (slots : List IndexedSlot) : ℕ := slots.countP fun slot => !slot.dropped

theorem remaining_mark_lt {indices : Hash → Option ℕ} {hashes : List Hash} {slots : List IndexedSlot}
    {slot : IndexedSlot} (mem : slot ∈ slots) (undropped : slot.dropped = false)
    (dropped : (mark indices hashes slot).dropped = true) :
    remaining (slots.map (mark indices hashes)) < remaining slots := by
  rcases List.append_of_mem mem with ⟨before, after, rfl⟩
  have fewer : ∀ slots : List IndexedSlot,
      slots.countP (fun slot => !(mark indices hashes slot).dropped) ≤
        slots.countP fun slot => !slot.dropped := by
    intro slots
    apply List.countP_mono_left
    intro other _ stays
    simp only [mark, Bool.not_eq_true', Bool.or_eq_false_iff] at stays
    simp [stays.1]
  have fewerBefore := fewer before
  have fewerAfter := fewer after
  simp only [remaining, List.countP_map, List.countP_append, List.countP_cons, Function.comp_def,
    undropped, dropped]
  simp
  omega

/-- The loop over `j` ends where its fuel is not less than the positions to be asked about. -/
theorem Progresses.scanAnchor (progresses : Progresses resolve causality members) {fuel : ℕ}
    {anchor : IndexedSlot} (undropped : anchor.dropped = false) {seen todo : List IndexedSlot}
    (inside : ∀ hash ∈ (anchor :: todo).map (·.hash), hash ∈ members)
    (nodup : ((anchor :: todo).map (·.hash)).Nodup)
    (positive : ∀ slot ∈ anchor :: todo, slot.index ≠ 0) (indices : Hash → Option ℕ)
    (enough : remaining todo ≤ fuel) :
    scanAnchor resolve causality fuel anchor indices seen todo ≠ .error .diverges := by
  induction fuel using Nat.strong_induction_on generalizing anchor indices seen todo with
  | _ fuel ih =>
    rcases progresses.advance undropped inside nodup indices with ⟨returns, stops⟩
    rw [MultipleScan.scanAnchor]
    refine bind_ne_error returns fun round advanced => ?_
    cases round with
    | finished => exact ok_ne_error
    | stopped indices' answer passed rest =>
      rcases stops indices' answer passed rest advanced with ⟨slot, slotMem, slotUndropped, drops⟩
      have sublist : (anchor :: rest).Sublist (anchor :: todo) := by
        rw [← advance_split advanced]
        exact (List.sublist_append_right passed rest).cons_cons anchor
      have dropped := drops.dropped_mark (positive slot (sublist.subset slotMem))
      dsimp only
      split
      · exact ok_ne_error
      · rename_i anchorStays
        have inRest : slot ∈ rest := by
          rcases List.mem_cons.mp slotMem with rfl | inRest
          · exact absurd dropped anchorStays
          · exact inRest
        have less := remaining_mark_lt inRest slotUndropped dropped
        have fewer : remaining rest ≤ remaining todo := sublist.of_cons_cons.countP_le
        cases fuel with
        | zero => omega
        | succ fuel =>
          have sameHashes : (mark indices' (droppedBy answer) anchor ::
              rest.map (mark indices' (droppedBy answer))).map (·.hash) =
                (anchor :: rest).map (·.hash) := by
            simp [Function.comp_def]
          refine ih fuel fuel.lt_succ_self (Bool.eq_false_iff.mpr anchorStays) ?_ ?_ ?_ _
            (by omega)
          · rw [sameHashes]
            exact fun hash mem => inside hash ((sublist.map _).subset mem)
          · rw [sameHashes]
            exact (sublist.map _).nodup nodup
          · rw [← List.map_cons]
            intro marked mem
            rcases List.mem_map.mp mem with ⟨old, oldMem, rfl⟩
            exact positive old (sublist.subset oldMem)

theorem Progresses.loop (progresses : Progresses resolve causality members) {fuel count : ℕ}
    {origin : Hash} {slots : List IndexedSlot}
    (inside : ∀ hash ∈ slots.map (·.hash), hash ∈ members) (nodup : (slots.map (·.hash)).Nodup)
    (positive : ∀ slot ∈ slots, slot.index ≠ 0) (indices : Hash → Option ℕ)
    (enough : slots.length ≤ fuel) :
    loop resolve causality fuel origin count indices slots ≠ .error .diverges := by
  induction count generalizing slots indices with
  | zero => exact ok_ne_error
  | succ count ih =>
    cases slots with
    | nil => exact ok_ne_error
    | cons slot later =>
      have laterInside : ∀ hash ∈ later.map (·.hash), hash ∈ members :=
        fun hash mem => inside hash (.tail _ mem)
      have laterNodup := (List.nodup_cons.mp nodup).2
      have laterEnough : later.length ≤ fuel := Nat.le_of_succ_le enough
      rw [MultipleScan.loop]
      split
      · exact ih laterInside laterNodup (fun slot mem => positive slot (.tail _ mem)) _ laterEnough
      · rename_i isAnchor
        rw [not_or, Bool.not_eq_true] at isAnchor
        have bound : remaining later ≤ fuel := List.countP_le_length.trans laterEnough
        refine bind_ne_error
          (progresses.scanAnchor isAnchor.2 inside nodup positive indices bound)
          fun scanned scan => bind_ne_error ?_ fun _ _ => ok_ne_error
        have keys := scanAnchor_key scan
        rw [List.nil_append] at keys
        have sameHashes := map_hash_of_map_key keys
        have sameLength := congrArg List.length keys
        rw [List.length_map, List.length_map] at sameLength
        refine ih (sameHashes ▸ laterInside) (sameHashes ▸ laterNodup) (fun found mem => ?_) _
          (sameLength ▸ laterEnough)
        have keyMem : key found ∈ later.map key := keys ▸ List.mem_map_of_mem mem
        rcases List.mem_map.mp keyMem with ⟨old, oldMem, sameKey⟩
        rw [← (Prod.mk.inj sameKey).1]
        exact positive old (.tail _ oldMem)

theorem scanAnchor_diverges {anchor slot : IndexedSlot} {rest : List IndexedSlot}
    (undropped : anchor.dropped = false) (slotUndropped : slot.dropped = false)
    (unrelated : causality.areRelated anchor.hash slot.hash = false) {answer : ResolveConflictsType}
    (answered : resolve ((gather causality [anchor, slot] rest).map (·.hash)) = .ok answer)
    (notNop : answer.action ≠ .nop) (notDrop : answer.action ≠ .drop) (fuel : ℕ)
    (indices : Hash → Option ℕ) (seen : List IndexedSlot) :
    scanAnchor resolve causality fuel anchor indices seen (slot :: rest) = .error .diverges := by
  have nothing : droppedBy answer = [] := by
    unfold droppedBy
    split
    · rename_i isDrop
      exact absurd isDrop notDrop
    · rfl
  have unmarked : ∀ indices, mark indices (droppedBy answer) = id := by
    intro indices
    funext slot
    rw [nothing, mark]
    simp
  have stops : ∀ indices, advance resolve causality anchor indices (slot :: rest) =
      .ok (.stopped (register indices (gather causality [anchor, slot] rest)) answer [] (slot :: rest)) := by
    intro indices
    rw [advance, unrelated, slotUndropped, if_neg (by decide)]
    dsimp only
    rw [answered, ok_bind]
    split
    · rename_i isNop
      exact absurd isNop notNop
    · rfl
  induction fuel generalizing indices seen with
  | zero =>
    rw [scanAnchor, stops, ok_bind]
    simp [unmarked, undropped]
  | succ fuel ih =>
    rw [scanAnchor, stops, ok_bind]
    simp only [unmarked, id_eq, undropped, Bool.false_eq_true, if_false, List.append_nil, List.map_id]
    exact ih _ _

end MultipleScan

theorem ObjectACL.resolveConflicts_ne_diverges (mode : ACLConflictResolution) (vertices : List Vertex) :
    resolveConflicts mode vertices ≠ .error .diverges := by
  have firsts : ∀ value : JsValue, value.first ≠ .error .diverges := by
    intro value
    unfold JsValue.first
    split <;> simp
  have operations : ∀ left right, resolveOperations mode left right ≠ .error .diverges := by
    intro left right
    unfold resolveOperations
    split_ifs
    · exact ok_ne_error
    · exact ok_ne_error
    · refine bind_ne_error (firsts left.value) fun _ _ => ?_
      exact bind_ne_error (firsts right.value) fun _ _ => ok_ne_error
  unfold resolveConflicts resolveFirstTwo
  split
  · simp
  · split <;> simp
  · split
    · rename_i left right _ _
      intro failed
      cases resolved : resolveOperations mode left right with
      | error error =>
        rw [resolved] at failed
        exact operations left right (resolved.trans (congrArg _ (Except.error.inj failed)))
      | ok action =>
        rw [resolved] at failed
        cases failed
    · exact ok_ne_error

/-- A resolver that answers `Nop`, or `Drop` with some of the vertices it was given. -/
def DropsGiven (resolver : ResolveConflictFn) : Prop :=
  ∀ vertices, ∃ answer, resolver vertices = .ok answer ∧
    (answer.action = .nop ∨ answer.action = .drop ∧ answer.vertices ≠ [] ∧
      ∀ hash ∈ answer.vertices, hash ∈ vertices.map (·.hash))

namespace HashGraph

open MultipleScan LegacyCausalityMatrix

variable {options : GraphOptions} {graph : HashGraph} {origin : Hash} {members : List Hash}

/-- The access control list has nothing to drop of a concurrent pair led by one of its vertices. -/
def Uncontested (options : GraphOptions) (graph : HashGraph) (members : List Hash) : Prop :=
  ∀ left ∈ members, ∀ right ∈ members, graph.Concurrent left right → graph.isACL left = true →
    pairAction options graph left right ≠ .ok .dropLeft ∧
      pairAction options graph left right ≠ .ok .dropRight

theorem Interval.progresses (interval : graph.Interval origin members) (wellFormed : graph.WellFormed)
    {order : List Hash} (causalOrder : graph.CausalOrder origin members order)
    {mode : ACLConflictResolution}
    (acl : options.resolveConflictsACL = some (resolveConflicts mode))
    (drp : ∀ resolver ∈ options.resolveConflictsDRP, DropsGiven resolver)
    (uncontested : Uncontested options graph members) :
    Progresses (multipleAction options graph) (build graph order) (members.filter (· ≠ origin)) := by
  intro anchor anchorMem moving movingMem different unrelated more moreMem
  have present : ∀ hash ∈ members.filter (· ≠ origin), hash ∈ graph.hashes := by
    intro hash mem
    rcases List.mem_filter.mp mem with ⟨inMembers, notOrigin⟩
    exact interval.present inMembers (by simpa using notOrigin)
  rcases exists_getVertex (present anchor anchorMem) with ⟨anchorVertex, anchorFound⟩
  rcases exists_getVertex (present moving movingMem) with ⟨movingVertex, movingFound⟩
  have anchorIn := (List.mem_filter.mp anchorMem).1
  have movingIn := (List.mem_filter.mp movingMem).1
  have concurrent := interval.concurrent wellFormed causalOrder anchorIn movingIn different unrelated
  have given : multipleAction options graph (anchor :: moving :: more) =
      options.resolveConflicts (anchorVertex :: movingVertex :: more.filterMap graph.getVertex) := by
    rw [multipleAction, List.filterMap_cons_some anchorFound, List.filterMap_cons_some movingFound]
  rw [given, GraphOptions.resolveConflicts]
  split
  · rename_i isACL
    rw [acl, Option.getD_some]
    -- The answer is the one about the first two vertices alone.
    have asPair : pairAction options graph anchor moving = (resolveConflicts mode
        (anchorVertex :: movingVertex :: more.filterMap graph.getVertex)).map (·.action) := by
      rw [pairAction, anchorFound, movingFound]
      dsimp only
      rw [GraphOptions.resolveConflicts, if_pos isACL, acl]
      rfl
    have uncontestedHere := uncontested anchor anchorIn moving movingIn concurrent
      (by rw [isACL_eq anchorFound, isACL]; rfl)
    rw [asPair] at uncontestedHere
    cases answered : resolveConflicts mode
        (anchorVertex :: movingVertex :: more.filterMap graph.getVertex) with
    | error error =>
      rintro rfl
      exact resolveConflicts_ne_diverges _ _ answered
    | ok answer =>
      rw [answered, map_ok] at uncontestedHere
      rcases action_cases answered with isNop | isLeft | isRight
      · exact Or.inl isNop
      · exact absurd (congrArg _ isLeft) uncontestedHere.1
      · exact absurd (congrArg _ isRight) uncontestedHere.2
  · cases custom : options.resolveConflictsDRP with
    | none => exact Or.inl rfl
    | some resolver =>
      rcases drp resolver custom (anchorVertex :: movingVertex :: more.filterMap graph.getVertex) with
        ⟨answer, answered, action⟩
      rw [Option.getD_some, answered]
      rcases action with isNop | ⟨isDrop, nonempty, subset⟩
      · exact Or.inl isNop
      refine Or.inr ⟨isDrop, ?_⟩
      rcases List.exists_mem_of_ne_nil _ nonempty with ⟨hash, mem⟩
      have sameHashes := map_hash_filterMap_getVertex fun hash mem => present hash (moreMem hash mem)
      have given := subset hash mem
      rw [List.map_cons, List.map_cons, getVertex_hash anchorFound, getVertex_hash movingFound,
        sameHashes] at given
      exact ⟨hash, mem, given⟩

/--
With multiple semantics a linearization ends where the access control list finds
nothing to drop: it returns or raises an exception of a resolver, with as many
turns for every anchor as there are vertices.
-/
theorem multiple_semantics_terminates (grown : graph.Grown) (interval : graph.Interval origin members)
    {mode : ACLConflictResolution}
    (acl : options.resolveConflictsACL = some (resolveConflicts mode))
    (drp : ∀ resolver ∈ options.resolveConflictsDRP, DropsGiven resolver)
    (uncontested : Uncontested options graph members) {fuel : ℕ} (enough : members.length ≤ fuel) :
    linearizeMultipleSemantics options graph fuel origin members ≠ .error .diverges := by
  have wellFormed := grown.wellFormed
  rcases interval.exists_dfs wellFormed with ⟨order, sorted, causalOrder⟩
  have progresses := interval.progresses wellFormed causalOrder acl drp uncontested
  rcases causalOrder.head with ⟨rest, shape⟩
  rw [linearizeMultipleSemantics, sorted, ok_bind]
  refine bind_ne_error ?_ fun _ _ => ok_ne_error
  unfold multipleOrder
  split
  · rw [shape] at causalOrder progresses ⊢
    rw [MultipleScan.loop_origin]
    have restMem : ∀ hash ∈ rest, hash ∈ members.filter (· ≠ origin) := by
      intro hash mem
      refine List.mem_filter.mpr ⟨(causalOrder.mem hash).mp (.tail _ mem), ?_⟩
      rw [decide_eq_true_eq]
      rintro rfl
      exact (List.nodup_cons.mp causalOrder.nodup).1 mem
    have sameLength : (origin :: rest).length = members.length :=
      ((List.perm_ext_iff_of_nodup causalOrder.nodup interval.nodup).mpr causalOrder.mem).length_eq
    refine progresses.loop ?_ ?_ (fun slot mem => ?_) _ ?_
    · rw [map_hash_slotsFrom]
      exact restMem
    · rw [map_hash_slotsFrom]
      exact (List.nodup_cons.mp causalOrder.nodup).2
    · have bounds := mem_slotsFrom mem
      omega
    · rw [length_slotsFrom]
      rw [List.length_cons] at sameLength
      omega
  · exact ok_ne_error

theorem multipleOrder_sublist {fuel : ℕ} {order result : List Hash}
    (returned : multipleOrder options graph fuel origin order = .ok result) :
    result.Sublist order := by
  unfold multipleOrder at returned
  split at returned
  · simpa using MultipleScan.loop_sublist returned
  · cases returned
    exact List.filter_sublist

theorem map_hash_filterMap_sublist (graph : HashGraph) (hashes : List Hash) :
    ((hashes.filterMap graph.getVertex).map (·.hash)).Sublist hashes := by
  induction hashes with
  | nil => exact .slnil
  | cons hash rest ih =>
    cases found : graph.getVertex hash with
    | none => simpa [found] using ih.cons hash
    | some vertex => simpa [found, getVertex_hash found] using ih

/--
Whatever the resolver answers, a linearization with multiple semantics lists vertices of
the subgraph, each at most once and none behind a vertex that depends on it.
-/
theorem multiple_semantics_respects_causality (grown : graph.Grown)
    (interval : graph.Interval origin members) {fuel : ℕ} {vertices : List Vertex}
    (returned : linearizeMultipleSemantics options graph fuel origin members = .ok vertices) :
    vertices ⊆ graph.vertices ∧ vertices.map (·.hash) ⊆ members ∧ (vertices.map (·.hash)).Nodup ∧
      (vertices.map (·.hash)).Pairwise fun earlier later => ¬graph.Precedes later earlier := by
  rcases interval.exists_dfs grown.wellFormed with ⟨order, sorted, causalOrder⟩
  rw [linearizeMultipleSemantics, sorted, ok_bind] at returned
  rcases bind_eq_ok.mp returned with ⟨result, scanned, same⟩
  cases same
  have sublist := (graph.map_hash_filterMap_sublist result).trans (multipleOrder_sublist scanned)
  refine ⟨?_, fun hash mem => (causalOrder.mem hash).mp (sublist.subset mem),
    causalOrder.nodup.sublist sublist, causalOrder.ordered.sublist sublist⟩
  intro vertex mem
  rcases List.mem_filterMap.mp mem with ⟨_, _, found⟩
  exact mem_of_getVertex found

end HashGraph

namespace MultipleExample

open HashGraph MixedExample

def dropFirst : ResolveConflictFn
  | [] => .ok { action := .nop }
  | first :: _ => .ok { action := .drop, vertices := [first.hash] }

def options : GraphOptions where
  semanticsTypeDRP := some .multiple
  resolveConflictsACL := some (resolveConflicts .revokeWins)
  resolveConflictsDRP := some dropFirst

def contested : HashGraph := initial.addVertices
  [vertex "a" "ACL" "grant" ["bob", "WRITER"], vertex "b" "ACL" "revoke" ["bob", "WRITER"]]

theorem dropsGiven_dropFirst : DropsGiven dropFirst := by
  intro vertices
  cases vertices with
  | nil => exact ⟨_, rfl, Or.inl rfl⟩
  | cons first rest => exact ⟨_, rfl, Or.inr ⟨rfl, by simp, by simp⟩⟩

end MultipleExample

open MultipleExample MixedExample HashGraph in
theorem multiple_semantics_terminates_quiet :
    linearizeMultipleSemantics MultipleExample.options quiet 4 rootHash quiet.hashes ≠
        .error .diverges ∧
      (linearizeMultipleSemantics MultipleExample.options quiet 4 rootHash quiet.hashes).map
        (·.map (·.hash)) = .ok ["a", "c"] := by
  have interval := grown_quiet.wellFormed.past_hashes.interval grown_quiet.wellFormed
  have uncontested : ∀ left ∈ quiet.hashes, ∀ right ∈ quiet.hashes, quiet.isACL left = true →
      pairAction MultipleExample.options quiet left right ≠ .ok .dropLeft ∧
        pairAction MultipleExample.options quiet left right ≠ .ok .dropRight := by
    decide +kernel
  constructor
  · refine multiple_semantics_terminates grown_quiet interval rfl ?_ ?_ (by decide)
    · rintro _ ⟨⟩
      exact dropsGiven_dropFirst
    · exact fun left leftMem right rightMem _ => uncontested left leftMem right rightMem
  · decide +kernel

open MultipleExample MultipleScan HashGraph in
/-- A concurrent grant and revocation of one permission: the linearization never ends. -/
theorem contested_permission_diverges :
    contested.Grown ∧ ∀ fuel,
      linearizeMultipleSemantics MultipleExample.options contested fuel rootHash contested.hashes =
        .error .diverges := by
  refine ⟨initial_wellFormed.extends_addVertices (by decide +kernel), fun fuel => ?_⟩
  have sorted : contested.dfsTopologicalSortIterative rootHash contested.hashes =
      .ok [rootHash, "a", "b"] := by
    decide +kernel
  have unrelated : (LegacyCausalityMatrix.build contested [rootHash, "a", "b"]).areRelated "a" "b" =
      false := by
    decide +kernel
  have answered : multipleAction MultipleExample.options contested ["a", "b"] =
      .ok { action := .dropLeft } := rfl
  have stuck := @scanAnchor_diverges (multipleAction MultipleExample.options contested)
    (LegacyCausalityMatrix.build contested [rootHash, "a", "b"]) ⟨1, "a", false⟩ ⟨2, "b", false⟩ [] rfl rfl
    unrelated _ answered (by decide) (by decide) fuel (fun _ => none) []
  rw [linearizeMultipleSemantics, sorted, ok_bind, multipleOrder, if_pos (by decide +kernel),
    MultipleScan.loop_origin]
  change MultipleScan.loop _ _ fuel rootHash 2 _ [⟨1, "a", false⟩, ⟨2, "b", false⟩] >>= _ = _
  rw [MultipleScan.loop, if_neg (by decide), stuck]
  rfl

open MultipleExample MixedExample HashGraph in
theorem multiple_semantics_respects_causality_quiet :
    ∃ vertices, linearizeMultipleSemantics MultipleExample.options quiet 4 rootHash quiet.hashes =
        .ok vertices ∧ (vertices.map (·.hash)).Nodup := by
  have returned : linearizeMultipleSemantics MultipleExample.options quiet 4 rootHash quiet.hashes =
    .ok (["a", "c"].filterMap quiet.getVertex) := by decide +kernel
  exact ⟨_, returned, (multiple_semantics_respects_causality grown_quiet
    (grown_quiet.wellFormed.past_hashes.interval grown_quiet.wellFormed) returned).2.2.1⟩

end TsDrp
