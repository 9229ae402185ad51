import Mathlib.Data.List.Basic
import Mathlib.Data.List.Induction
import Mathlib.Data.List.Nodup
import Mathlib.Logic.Relation
import Mathlib.Tactic.Common

/-!
# Depth-first topological order

A recursive depth-first search that puts a node in front of the result when its
successors are searched.  Without cycles the result lists every reachable node
once, each before its successors.  What a search finds in a set that nobody
outside leads into is the search of that set, and behind a barrier every search
finds the same order.
-/

namespace DepthFirst

universe u

variable {Node : Type u}

def Edge (next : Node → List Node) (node successor : Node) : Prop :=
  successor ∈ next node

abbrev Below (next : Node → List Node) : Node → Node → Prop :=
  Relation.TransGen (Edge next)

abbrev Reaches (next : Node → List Node) : Node → Node → Prop :=
  Relation.ReflTransGen (Edge next)

/--
No cycles, no repeated successors, and no node is a successor both of `node`
and of something below `node`.
-/
structure Antichained (next : Node → List Node) : Prop where
  acyclic : ∀ node, ¬Below next node node
  nodup : ∀ node, (next node).Nodup
  antichain : ∀ {upper lower node}, Below next upper lower →
    node ∈ next upper → node ∉ next lower

theorem Antichained.not_reaches {next : Node → List Node} (antichained : Antichained next)
    {node first second : Node} (firstEdge : first ∈ next node) (secondEdge : second ∈ next node)
    (different : second ≠ first) : ¬Reaches next first second := by
  intro reaches
  rcases reaches.cases_tail with same | ⟨parent, upTo, edge⟩
  · exact different same
  · exact antichained.antichain (Relation.TransGen.head' firstEdge upTo) secondEdge edge

/-- The visited nodes and the result. -/
abbrev Found (Node : Type u) := List Node × List Node

variable [DecidableEq Node]

/--
The search as a recursive function.  A visit searches the successors from the last to the
first and then puts the node in front of the result.  The number bounds the depth.
-/
def visit (next : Node → List Node) : ℕ → Found Node → Node → Found Node
  | 0, found, _ => found
  | depth + 1, found, node =>
    if node ∈ found.1 then found
    else
      let searched := (next node).reverse.foldl (visit next depth) (node :: found.1, found.2)
      (searched.1, node :: searched.2)

/-- The search of all successors of a node that is visited first. -/
abbrev searched (next : Node → List Node) (depth : ℕ) (found : Found Node) (node : Node) : Found Node :=
  (next node).reverse.foldl (visit next depth) (node :: found.1, found.2)

variable {next : Node → List Node} {depth : ℕ} {found : Found Node}

theorem visit_of_mem {node : Node} (seen : node ∈ found.1) :
    visit next depth found node = found := by
  cases depth with
  | zero => rfl
  | succ depth => simp [visit, seen]

theorem visit_succ {node : Node} (unvisited : node ∉ found.1) :
    visit next (depth + 1) found node =
      ((searched next depth found node).1, node :: (searched next depth found node).2) := by
  simp [visit, unvisited]

theorem subset_visit (depth : ℕ) (found : Found Node) (node : Node) :
    found.1 ⊆ (visit next depth found node).1 := by
  induction depth generalizing found node with
  | zero => exact List.Subset.refl _
  | succ depth ih =>
    by_cases seen : node ∈ found.1
    · rw [visit_of_mem seen]
      exact List.Subset.refl _
    · rw [visit_succ seen]
      refine List.foldlRecOn (motive := fun later : Found Node => found.1 ⊆ later.1) _ _
        (List.subset_cons_self node found.1) ?_
      exact fun later held successor _ => List.Subset.trans held (ih later successor)

theorem subset_foldl_visit (nodes : List Node) (found : Found Node) :
    found.1 ⊆ (nodes.foldl (visit next depth) found).1 :=
  List.foldlRecOn (motive := fun later : Found Node => found.1 ⊆ later.1) _ _ (List.Subset.refl _)
    fun later held node _ => List.Subset.trans held (subset_visit depth later node)

theorem mem_visit_self (depth : ℕ) (found : Found Node) (node : Node) :
    node ∈ (visit next (depth + 1) found node).1 := by
  by_cases seen : node ∈ found.1
  · rw [visit_of_mem seen]
    exact seen
  · rw [visit_succ seen]
    exact subset_foldl_visit _ (node :: found.1, found.2) List.mem_cons_self

theorem mem_foldl_visit {nodes : List Node} {node : Node} (mem : node ∈ nodes) :
    node ∈ (nodes.foldl (visit next (depth + 1)) found).1 := by
  rcases List.append_of_mem mem with ⟨before, after, rfl⟩
  rw [List.foldl_append, List.foldl_cons]
  exact subset_foldl_visit _ _ (mem_visit_self depth _ node)

theorem mem_visit {node other : Node} (mem : other ∈ (visit next depth found node).1) :
    other ∈ found.1 ∨ Reaches next node other := by
  induction depth generalizing found node with
  | zero => exact Or.inl mem
  | succ depth ih =>
    by_cases seen : node ∈ found.1
    · rw [visit_of_mem seen] at mem
      exact Or.inl mem
    · rw [visit_succ seen] at mem
      refine List.foldlRecOn (motive := fun later : Found Node => other ∈ later.1 →
        other ∈ found.1 ∨ Reaches next node other) (next node).reverse (visit next depth)
        (b := (node :: found.1, found.2)) ?_ ?_ mem
      · intro old
        rcases List.mem_cons.mp old with rfl | old
        · exact Or.inr .refl
        · exact Or.inl old
      · intro later held successor edge met
        rcases ih met with old | reaches
        · exact held old
        · exact Or.inr (.head (List.mem_reverse.mp edge) reaches)

theorem foldl_visit_filter {seen : List Node} (nodes : List Node) (subset : seen ⊆ found.1) :
    (nodes.filter (· ∉ seen)).foldl (visit next depth) found =
      nodes.foldl (visit next depth) found := by
  induction nodes generalizing found with
  | nil => rfl
  | cons node rest ih =>
    by_cases mem : node ∈ seen
    · rw [List.filter_cons_of_neg (by simpa using mem), List.foldl_cons, visit_of_mem (subset mem)]
      exact ih subset
    · rw [List.filter_cons_of_pos (by simpa using mem), List.foldl_cons, List.foldl_cons]
      exact ih (List.Subset.trans subset (subset_visit depth found node))

section Members

variable {members : List Node}

theorem length_unvisited_mono {seen later : List Node} (subset : seen ⊆ later) :
    (members.filter (· ∉ later)).length ≤ (members.filter (· ∉ seen)).length := by
  refine (List.monotone_filter_right members ?_).length_le
  intro other fresh
  simp only [decide_eq_true_eq] at fresh ⊢
  exact fun old => fresh (subset old)

theorem length_unvisited_lt {seen : List Node} {node : Node} (mem : node ∈ members)
    (unvisited : node ∉ seen) :
    (members.filter (· ∉ node :: seen)).length < (members.filter (· ∉ seen)).length := by
  have split : members.filter (· ∉ node :: seen) =
      (members.filter (· ∉ seen)).filter (· ≠ node) := by
    rw [List.filter_filter]
    apply List.filter_congr
    intro other _
    simp [not_or]
  rw [split, List.length_filter_lt_length_iff_exists]
  exact ⟨node, List.mem_filter.mpr ⟨mem, by simpa using unvisited⟩, by simp⟩

variable (closed : ∀ node ∈ members, ∀ successor ∈ next node, successor ∈ members)
include closed

omit closed in
theorem foldl_visit_congr {depth' : ℕ} {nodes : List Node}
    (same : ∀ later : Found Node, found.1 ⊆ later.1 → ∀ node ∈ nodes,
      visit next depth later node = visit next depth' later node) :
    nodes.foldl (visit next depth) found = nodes.foldl (visit next depth') found := by
  induction nodes generalizing found with
  | nil => rfl
  | cons first rest ih =>
    rw [List.foldl_cons, List.foldl_cons, same found (List.Subset.refl _) first List.mem_cons_self]
    refine ih fun later subset node mem => same later ?_ node (.tail _ mem)
    exact List.Subset.trans (subset_visit depth' found first) subset

theorem visit_eq_of_enough {depth' : ℕ} {node : Node} (mem : node ∈ members)
    (enough : (members.filter (· ∉ found.1)).length ≤ depth)
    (enough' : (members.filter (· ∉ found.1)).length ≤ depth') :
    visit next depth found node = visit next depth' found node := by
  induction depth generalizing depth' found node with
  | zero =>
    have empty := List.eq_nil_of_length_eq_zero (Nat.le_zero.mp enough)
    have seen : node ∈ found.1 := by simpa using List.filter_eq_nil_iff.mp empty node mem
    rw [visit_of_mem seen, visit_of_mem seen]
  | succ depth ih =>
    by_cases seen : node ∈ found.1
    · rw [visit_of_mem seen, visit_of_mem seen]
    have fewer := length_unvisited_lt mem seen
    cases depth' with
    | zero => omega
    | succ depth' =>
      have same : searched next depth found node = searched next depth' found node := by
        apply foldl_visit_congr
        intro later subset successor edge
        have left := @length_unvisited_mono _ _ members _ _ subset
        exact ih (closed node mem successor (List.mem_reverse.mp edge))
          (Nat.le_of_lt_succ (Nat.lt_of_lt_of_le (Nat.lt_of_le_of_lt left fewer) enough))
          (Nat.le_of_lt_succ (Nat.lt_of_lt_of_le (Nat.lt_of_le_of_lt left fewer) enough'))
      rw [visit_succ seen, visit_succ seen, same]

/-! ## The finished order -/

omit closed in
/-- What is listed is visited, with all its successors, and stands before them. -/
structure Sound (next : Node → List Node) (found : Found Node) : Prop where
  nodup : found.2.Nodup
  visited : ∀ node ∈ found.2, node ∈ found.1
  closed : ∀ node ∈ found.2, ∀ successor ∈ next node, successor ∈ found.2
  ordered : found.2.Pairwise fun earlier later => ¬Below next later earlier

omit [DecidableEq Node] closed in
theorem Sound.reaches (sound : Sound next found) {node other : Node} (mem : node ∈ found.2)
    (reaches : Reaches next node other) : other ∈ found.2 := by
  induction reaches with
  | refl => exact mem
  | tail _ edge ih => exact sound.closed _ ih _ edge

omit [DecidableEq Node] closed in
theorem Sound.cons (sound : Sound next found) {node : Node} (visited : node ∈ found.1)
    (unlisted : node ∉ found.2) (searched : ∀ successor ∈ next node, successor ∈ found.2) :
    Sound next (found.1, node :: found.2) where
  nodup := List.nodup_cons.mpr ⟨unlisted, sound.nodup⟩
  visited := by
    intro other mem
    rcases List.mem_cons.mp mem with rfl | old
    · exact visited
    · exact sound.visited other old
  closed := by
    intro other mem successor edge
    rcases List.mem_cons.mp mem with rfl | old
    · exact .tail _ (searched successor edge)
    · exact .tail _ (sound.closed other old successor edge)
  ordered := List.pairwise_cons.mpr
    ⟨fun _ mem below => unlisted (sound.reaches mem below.to_reflTransGen), sound.ordered⟩

/-- What a search makes of what was found before: all that it visits it lists. -/
structure Grows (next : Node → List Node) (found later : Found Node) : Prop
    extends Sound next later where
  seen : found.1 ⊆ later.1
  listed : found.2 ⊆ later.2
  fresh : ∀ node ∈ later.1, node ∈ found.1 ∨ node ∈ later.2
  unseen : ∀ node ∈ later.2, node ∈ found.2 ∨ node ∉ found.1

omit [DecidableEq Node] closed in
theorem Sound.grows (sound : Sound next found) : Grows next found found :=
  ⟨sound, List.Subset.refl _, List.Subset.refl _, fun _ mem => Or.inl mem,
    fun _ mem => Or.inl mem⟩

omit [DecidableEq Node] closed in
theorem Grows.trans {middle later : Found Node} (first : Grows next found middle)
    (second : Grows next middle later) : Grows next found later where
  toSound := second.toSound
  seen := List.Subset.trans first.seen second.seen
  listed := List.Subset.trans first.listed second.listed
  fresh := by
    intro node mem
    rcases second.fresh node mem with old | new
    · exact (first.fresh node old).imp_right fun mem => second.listed mem
    · exact Or.inr new
  unseen := by
    intro node mem
    rcases second.unseen node mem with old | new
    · exact first.unseen node old
    · exact Or.inr fun old => new (first.seen old)

theorem Sound.visit (acyclic : ∀ node, ¬Below next node node) (sound : Sound next found)
    {node : Node} (mem : node ∈ members)
    (enough : (members.filter (· ∉ found.1)).length ≤ depth)
    (apart : ∀ other, Reaches next node other → other ∈ found.1 → other ∈ found.2) :
    Grows next found (visit next depth found node) ∧ node ∈ (visit next depth found node).2 := by
  induction depth generalizing found node with
  | zero =>
    have empty := List.eq_nil_of_length_eq_zero (Nat.le_zero.mp enough)
    have seen : node ∈ found.1 := by simpa using List.filter_eq_nil_iff.mp empty node mem
    exact ⟨sound.grows, apart node .refl seen⟩
  | succ depth ih =>
    by_cases seen : node ∈ found.1
    · rw [visit_of_mem seen]
      exact ⟨sound.grows, apart node .refl seen⟩
    have room := Nat.le_of_lt_succ (Nat.lt_of_lt_of_le (length_unvisited_lt mem seen) enough)
    have apartBelow : ∀ successor ∈ next node, ∀ other, Reaches next successor other →
        other ∈ node :: found.1 → other ∈ found.2 := by
      intro successor edge other reaches old
      rcases List.mem_cons.mp old with rfl | old
      · exact absurd (Relation.TransGen.head' edge reaches) (acyclic other)
      · exact apart other (.head edge reaches) old
    -- One successor after the other is searched.
    have folded : ∀ nodes : List Node, (∀ successor ∈ nodes, successor ∈ next node) →
        Grows next (node :: found.1, found.2)
          (nodes.foldl (DepthFirst.visit next depth) (node :: found.1, found.2)) ∧
        ∀ successor ∈ nodes, successor ∈
          (nodes.foldl (DepthFirst.visit next depth) (node :: found.1, found.2)).2 := by
      intro nodes
      induction nodes using List.reverseRecOn with
      | nil =>
        intro _
        have started : Sound next (node :: found.1, found.2) :=
          ⟨sound.nodup, fun _ mem => .tail _ (sound.visited _ mem), sound.closed, sound.ordered⟩
        exact ⟨started.grows, fun _ mem => nomatch mem⟩
      | append_singleton before successor inner =>
        intro inside
        have edge := inside successor (List.mem_append_right _ (List.mem_singleton_self _))
        rcases inner fun other mem => inside other (List.mem_append_left _ mem) with ⟨grows, listed⟩
        rw [List.foldl_append, List.foldl_cons, List.foldl_nil]
        have stillApart : ∀ other, Reaches next successor other → other ∈
            (before.foldl (DepthFirst.visit next depth) (node :: found.1, found.2)).1 → other ∈
            (before.foldl (DepthFirst.visit next depth) (node :: found.1, found.2)).2 := by
          intro other reaches met
          rcases grows.fresh other met with old | new
          · exact grows.listed (apartBelow successor edge other reaches old)
          · exact new
        rcases ih grows.toSound (closed node mem successor edge)
          (Nat.le_trans (length_unvisited_mono grows.seen) room) stillApart with ⟨more, self⟩
        refine ⟨grows.trans more, ?_⟩
        intro other mem
        rcases List.mem_append.mp mem with old | last
        · exact more.listed (listed other old)
        · rw [List.mem_singleton.mp last]
          exact self
    rcases folded (next node).reverse fun _ mem => List.mem_reverse.mp mem with ⟨grows, listed⟩
    rw [visit_succ seen]
    have unlisted : node ∉ (searched next depth found node).2 := by
      intro mem
      rcases grows.unseen node mem with old | new
      · exact seen (sound.visited node old)
      · exact new List.mem_cons_self
    have finished := grows.toSound.cons (grows.seen List.mem_cons_self) unlisted
      fun successor edge => listed successor (List.mem_reverse.mpr edge)
    refine ⟨⟨finished, ?_, ?_, ?_, ?_⟩, List.mem_cons_self⟩
    · exact List.Subset.trans (List.subset_cons_self _ _) grows.seen
    · exact List.Subset.trans grows.listed (List.subset_cons_self _ _)
    · intro other met
      rcases grows.fresh other met with old | new
      · rcases List.mem_cons.mp old with rfl | old
        · exact Or.inr List.mem_cons_self
        · exact Or.inl old
      · exact Or.inr (.tail _ new)
    · intro other mem
      rcases List.mem_cons.mp mem with rfl | mem
      · exact Or.inr seen
      · exact (grows.unseen other mem).imp_right fun new old => new (.tail _ old)

theorem sound_visit (acyclic : ∀ node, ¬Below next node node) {origin : Node}
    (mem : origin ∈ members) (enough : members.length ≤ depth) :
    Sound next (visit next depth ([], []) origin) ∧
      (∀ node, node ∈ (visit next depth ([], []) origin).2 ↔ Reaches next origin node) ∧
      ∃ rest, (visit next depth ([], []) origin).2 = origin :: rest := by
  have started : Sound next ([], []) := ⟨.nil, by simp, by simp, .nil⟩
  rcases started.visit closed acyclic mem (by simpa using enough) (by simp) with ⟨grows, listed⟩
  refine ⟨grows.toSound, fun node => ⟨fun found => ?_, grows.toSound.reaches listed⟩, ?_⟩
  · exact (mem_visit (grows.visited node found)).resolve_left (by simp)
  · cases depth with
    | zero => cases listed
    | succ depth => exact ⟨_, by rw [visit_succ (by simp)]⟩

end Members

/-! ## Restriction -/

def restrict (next : Node → List Node) (keep : Node → Bool) (node : Node) : List Node :=
  (next node).filter keep

def within (keep : Node → Bool) (found : Found Node) : Found Node :=
  (found.1.filter keep, found.2.filter keep)

/-- Below the node nothing outside the set leads into it. -/
def Separate (next : Node → List Node) (keep : Node → Bool) (node : Node) : Prop :=
  ∀ other, Reaches next node other → keep other = false →
    ∀ successor ∈ next other, keep successor = false

section Restriction

variable {keep : Node → Bool}

omit [DecidableEq Node] in
theorem Separate.successor {node successor : Node} (separate : Separate next keep node)
    (edge : successor ∈ next node) : Separate next keep successor :=
  fun other reaches => separate other (.head edge reaches)

omit [DecidableEq Node] in
theorem within_cons_of_not {node : Node} (out : keep node = false) (seen listed : List Node) :
    within keep (node :: seen, listed) = within keep (seen, listed) := by
  simp [within, out]

omit [DecidableEq Node] in
theorem within_foldl {search search' : Found Node → Node → Found Node}
    {nodes : List Node}
    (one : ∀ node ∈ nodes, ∀ found, within keep (search found node) =
      if keep node then search' (within keep found) node else within keep found) :
    within keep (nodes.foldl search found) = (nodes.filter keep).foldl search' (within keep found) := by
  induction nodes generalizing found with
  | nil => rfl
  | cons node rest ih =>
    rw [List.foldl_cons, ih fun other mem => one other (.tail _ mem),
      one node List.mem_cons_self, List.filter_cons]
    split <;> rfl

theorem within_visit {node : Node} (separate : Separate next keep node) :
    within keep (visit next depth found node) =
      if keep node then visit (restrict next keep) depth (within keep found) node
      else within keep found := by
  induction depth generalizing found node with
  | zero => split <;> rfl
  | succ depth ih =>
    have folded : within keep (searched next depth found node) =
        ((next node).reverse.filter keep).foldl (visit (restrict next keep) depth)
          (within keep (node :: found.1, found.2)) :=
      within_foldl fun successor edge found => ih (separate.successor (List.mem_reverse.mp edge))
    by_cases seen : node ∈ found.1
    · rw [visit_of_mem seen]
      split
      · rename_i kept
        rw [visit_of_mem (List.mem_filter.mpr ⟨seen, kept⟩)]
      · rfl
    · rw [visit_succ seen]
      cases kept : keep node with
      | true =>
        have unseen : node ∉ (within keep found).1 := fun mem => seen (List.mem_of_mem_filter mem)
        have started : within keep (node :: found.1, found.2) =
            (node :: (within keep found).1, (within keep found).2) := by
          simp [within, kept]
        rw [started] at folded
        rw [if_pos rfl, visit_succ unseen, searched, searched, restrict, ← List.filter_reverse, ← folded]
        simp [within, kept]
      | false =>
        have none : (next node).reverse.filter keep = [] := by
          rw [List.filter_eq_nil_iff]
          intro successor edge
          rw [separate node .refl kept successor (List.mem_reverse.mp edge)]
          exact Bool.false_ne_true
        rw [none, List.foldl_nil, within_cons_of_not kept] at folded
        rw [if_neg Bool.false_ne_true, ← folded]
        simp [within, kept]

theorem within_visit_outside {node : Node} (out : keep node = false) (unseen : node ∉ found.1)
    (separate : ∀ successor ∈ next node, Separate next keep successor) :
    within keep (visit next (depth + 1) found node) =
      ((next node).filter keep).reverse.foldl (visit (restrict next keep) depth)
        (within keep found) := by
  have folded : within keep (searched next depth found node) =
      ((next node).reverse.filter keep).foldl (visit (restrict next keep) depth)
        (within keep (node :: found.1, found.2)) :=
    within_foldl fun successor edge found =>
      within_visit (separate successor (List.mem_reverse.mp edge))
  rw [within_cons_of_not out] at folded
  rw [← List.filter_reverse, ← folded, visit_succ unseen]
  simp [within, out]

end Restriction

/-! ## Behind a barrier -/

/--
A barrier between the nodes above (`lower node = false`) and those below: whoever
above has successors below has exactly the list `entry` of them, and no two of
these heads are ordered.
-/
structure Barrier (next : Node → List Node) (lower : Node → Bool) (entry : List Node) : Prop where
  closed : ∀ node, lower node = true → ∀ successor ∈ next node, lower successor = true
  entry : ∀ node, lower node = false →
    (next node).filter lower = [] ∨ (next node).filter lower = entry
  heads : ∀ {upper node}, lower upper = false → lower node = false →
    (next upper).filter lower ≠ [] → (next node).filter lower ≠ [] → ¬Below next upper node

abbrev behind (next : Node → List Node) (lower : Node → Bool) (entry members : List Node) : Found Node :=
  entry.reverse.foldl (visit (restrict next lower) members.length) ([], [])

section Barrier

variable {lower : Node → Bool} {entry members : List Node} (barrier : Barrier next lower entry)
include barrier

omit [DecidableEq Node] in
theorem Barrier.below {node deeper : Node} (isLower : lower node = true)
    (reaches : Reaches next node deeper) : lower deeper = true := by
  induction reaches with
  | refl => exact isLower
  | tail _ edge ih => exact barrier.closed _ ih _ edge

omit [DecidableEq Node] in
theorem Barrier.separate {head successor : Node} (upper : lower head = false)
    (isHead : (next head).filter lower ≠ []) (edge : successor ∈ next head) :
    Separate next lower successor := by
  intro other reaches otherUpper deeper deeperEdge
  by_contra isLower
  refine barrier.heads upper otherUpper isHead ?_ (Relation.TransGen.head' edge reaches)
  exact List.ne_nil_of_mem (List.mem_filter.mpr ⟨deeperEdge, by simpa using isLower⟩)

theorem Barrier.within_visit
    (closed : ∀ node ∈ members, ∀ successor ∈ next node, successor ∈ members)
    {node : Node} (mem : node ∈ members) (upper : lower node = false)
    (enough : (members.filter (· ∉ found.1)).length ≤ depth)
    (before : within lower found = ([], []) ∨ within lower found = behind next lower entry members) :
    within lower (visit next depth found node) = ([], []) ∨
      within lower (visit next depth found node) = behind next lower entry members := by
  induction depth generalizing found node with
  | zero => exact before
  | succ depth ih =>
    by_cases seen : node ∈ found.1
    · rw [visit_of_mem seen]
      exact before
    have room := Nat.le_of_lt_succ (Nat.lt_of_lt_of_le (length_unvisited_lt mem seen) enough)
    by_cases head : (next node).filter lower = []
    · -- All successors lie above the barrier.
      have same : within lower (visit next (depth + 1) found node) =
          within lower (searched next depth found node) := by
        rw [visit_succ seen]
        simp [within, upper]
      rw [same]
      refine (List.foldlRecOn (motive := fun later : Found Node =>
        node :: found.1 ⊆ later.1 ∧ (within lower later = ([], []) ∨ within lower later =
          behind next lower entry members)) _ _
        (b := (node :: found.1, found.2)) ⟨List.Subset.refl _, ?_⟩ ?_).2
      · rw [within_cons_of_not upper]
        exact before
      · intro later held successor edge
        have successorEdge := List.mem_reverse.mp edge
        refine ⟨List.Subset.trans held.1 (subset_visit depth later successor), ?_⟩
        refine ih (closed node mem successor successorEdge) ?_
          (Nat.le_trans (length_unvisited_mono held.1) room) held.2
        exact Bool.eq_false_iff.mpr (List.filter_eq_nil_iff.mp head successor successorEdge)
    · right
      rw [within_visit_outside upper seen fun _ edge => barrier.separate upper head edge,
        (barrier.entry node upper).resolve_left head]
      rcases before with nothing | all
      · -- The first head starts the search behind the barrier.
        rw [nothing]
        apply foldl_visit_congr
        intro later _ successor edge
        have unseen : ∀ other, lower other = true → other ∉ node :: found.1 := by
          intro other isLower old
          rcases List.mem_cons.mp old with rfl | old
          · exact Bool.false_ne_true (upper.symm.trans isLower)
          · have listed : other ∈ (within lower found).1 := List.mem_filter.mpr ⟨old, isLower⟩
            rw [nothing] at listed
            cases listed
        have fewer : (members.filter lower).length ≤ depth := by
          refine Nat.le_trans (List.monotone_filter_right members ?_).length_le room
          exact fun other isLower => decide_eq_true (unseen other isLower)
        have successorMem : successor ∈ members.filter lower := by
          rw [List.mem_reverse, ← (barrier.entry node upper).resolve_left head,
            List.mem_filter] at edge
          exact List.mem_filter.mpr ⟨closed node mem successor edge.1, edge.2⟩
        refine @visit_eq_of_enough _ _ (restrict next lower) _ _ (members.filter lower) ?_ _ _
          successorMem (Nat.le_trans (List.length_filter_le _ _) fewer)
          (Nat.le_trans (List.length_filter_le _ _) (List.length_filter_le _ _))
        intro other otherMem deeper deeperEdge
        rw [restrict, List.mem_filter] at deeperEdge
        exact List.mem_filter.mpr ⟨closed other (List.mem_of_mem_filter otherMem) deeper
          deeperEdge.1, deeperEdge.2⟩
      · -- Every later head finds its successors behind the barrier visited.
        have visited : ∀ successor ∈ entry.reverse, successor ∈ (behind next lower entry members).1 := by
          intro successor edge
          unfold behind
          cases size : members.length with
          | zero => rw [List.eq_nil_of_length_eq_zero size] at mem; cases mem
          | succ size => exact mem_foldl_visit edge
        rw [all]
        refine (foldl_visit_filter entry.reverse (List.Subset.refl _)).symm.trans ?_
        have none : entry.reverse.filter (· ∉ (behind next lower entry members).1) = [] := by
          rw [List.filter_eq_nil_iff]
          intro successor edge
          rw [decide_eq_true_eq, not_not]
          exact visited successor edge
        rw [none, List.foldl_nil]

theorem Barrier.filter_visit (acyclic : ∀ node, ¬Below next node node)
    (closed : ∀ node ∈ members, ∀ successor ∈ next node, successor ∈ members)
    {root head : Node} (mem : root ∈ members) (rootUpper : lower root = false)
    (headEntry : (next head).filter lower = entry) (reachable : Reaches next root head)
    (enough : members.length ≤ depth) :
    (visit next depth ([], []) root).2.filter lower =
      (behind next lower entry members).2 := by
  rcases sound_visit closed acyclic mem enough with ⟨_, listed, _⟩
  rcases @Barrier.within_visit _ _ next depth ([], []) lower entry members barrier closed root mem
    rootUpper (by simpa using enough) (Or.inl rfl) with nothing | all
  · have empty : (visit next depth ([], []) root).2.filter lower = [] := congrArg Prod.snd nothing
    have noEntry : entry = [] := by
      rw [← headEntry, List.filter_eq_nil_iff]
      intro successor edge
      exact List.filter_eq_nil_iff.mp empty successor ((listed successor).mpr (reachable.tail edge))
    rw [empty, noEntry]
    rfl
  · exact congrArg Prod.snd all

end Barrier

omit [DecidableEq Node] in
theorem eq_filter_append_filter {lower : Node → Bool} {nodes : List Node}
    (ordered : nodes.Pairwise fun earlier later =>
      ¬(lower earlier = true ∧ lower later = false)) :
    nodes = nodes.filter (fun node => !lower node) ++ nodes.filter lower := by
  induction nodes with
  | nil => rfl
  | cons head rest ih =>
    obtain ⟨headOrdered, restOrdered⟩ := List.pairwise_cons.mp ordered
    cases isLower : lower head with
    | false =>
      simp only [List.filter_cons, isLower, Bool.not_false, if_true, Bool.false_eq_true,
        if_false, List.cons_append]
      rw [← ih restOrdered]
    | true =>
      have allLower : ∀ node ∈ rest, lower node = true := by
        intro node mem
        have notUpper := headOrdered node mem
        simpa [isLower] using notUpper
      have none : rest.filter (fun node => !lower node) = [] := by
        rw [List.filter_eq_nil_iff]
        intro node mem
        simp [allLower node mem]
      have all : rest.filter lower = rest := List.filter_eq_self.mpr allLower
      simp [isLower, none, all]

end DepthFirst
