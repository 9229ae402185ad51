import Mathlib.Logic.Relation
import Mathlib.Algebra.Ring.Nat
import Mathlib.Data.List.Basic
import Mathlib.Tactic.Common

/-!
# Worklist search

The loop that pops a node from a stack, skips it when it was visited, and else
visits it and pushes its successors.  With enough fuel the visited nodes are
the nodes reachable from the stack.
-/

namespace Worklist

universe u

variable {Node : Type u}

def Edge (next : Node → List Node) (node successor : Node) : Prop :=
  successor ∈ next node

abbrev Reaches (next : Node → List Node) : Node → Node → Prop :=
  Relation.ReflTransGen (Edge next)

variable [DecidableEq Node]

/-- The visited nodes when the stack, whose top comes first, has been worked off. -/
def search (next : Node → List Node) : ℕ → List Node → List Node → List Node
  | 0, _, visited => visited
  | _ + 1, [], visited => visited
  | fuel + 1, node :: rest, visited =>
    if node ∈ visited then
      search next fuel rest visited
    else
      search next fuel ((next node).reverse ++ rest) (node :: visited)

/-- The successors that the unvisited members can still push. -/
def pending (next : Node → List Node) (members visited : List Node) : ℕ :=
  ((members.filter fun node => node ∉ visited).map fun node => (next node).length).sum

/-- Enough fuel to work off a stack inside `members`. -/
def budget (next : Node → List Node) (members stack : List Node) : ℕ :=
  stack.length + (members.map fun node => (next node).length).sum

variable {next : Node → List Node}

theorem pending_cons (head : Node) (rest visited : List Node) :
    pending next (head :: rest) visited =
      (if head ∈ visited then 0 else (next head).length) + pending next rest visited := by
  by_cases seen : head ∈ visited <;> simp [pending, seen]

theorem pending_visit_le (members visited : List Node) (node : Node) :
    pending next members (node :: visited) ≤ pending next members visited := by
  induction members with
  | nil => simp [pending]
  | cons head rest ih =>
    rw [pending_cons, pending_cons]
    by_cases seen : head ∈ visited
    · simpa [seen] using ih
    · by_cases same : head = node
      · simp [same]
        omega
      · simp [same, seen]
        omega

theorem pending_visit {members visited : List Node} {node : Node} (mem : node ∈ members)
    (unvisited : node ∉ visited) :
    pending next members (node :: visited) + (next node).length ≤ pending next members visited := by
  induction members with
  | nil => simp at mem
  | cons head rest ih =>
    have shrink : pending next rest (node :: visited) ≤ pending next rest visited :=
      pending_visit_le rest visited node
    rw [pending_cons, pending_cons]
    by_cases same : head = node
    · subst same
      simp [unvisited]
      omega
    · have inRest : node ∈ rest := by
        rcases List.mem_cons.mp mem with rfl | inRest
        · exact absurd rfl same
        · exact inRest
      have fewer := ih inRest
      by_cases seen : head ∈ visited
      · simp [seen]
        omega
      · simp [seen, same]
        omega

/--
The invariant of the loop: what is visited stays visited, is reachable from the
start, and has its successors visited or on the stack.
-/
theorem mem_search {members : List Node}
    (closed : ∀ node ∈ members, ∀ successor ∈ next node, successor ∈ members) :
    ∀ (fuel : ℕ) (stack visited : List Node),
      (∀ node ∈ stack, node ∈ members) →
      stack.length + pending next members visited ≤ fuel →
      (∀ node ∈ visited, ∀ successor ∈ next node, successor ∈ visited ∨ successor ∈ stack) →
      ∀ node, node ∈ search next fuel stack visited ↔
        node ∈ visited ∨ ∃ start ∈ stack, Reaches next start node := by
  intro fuel
  induction fuel with
  | zero =>
    intro stack visited _ enough _ node
    have empty : stack = [] := List.length_eq_zero_iff.mp (by omega)
    simp [search, empty]
  | succ fuel ih =>
    intro stack visited inside enough explored node
    cases stack with
    | nil => simp [search]
    | cons top rest =>
      simp only [List.length_cons] at enough
      by_cases seen : top ∈ visited
      · have exploredRest : ∀ node ∈ visited, ∀ successor ∈ next node,
            successor ∈ visited ∨ successor ∈ rest := by
          intro other mem successor edge
          rcases explored other mem successor edge with old | stacked
          · exact Or.inl old
          · rcases List.mem_cons.mp stacked with rfl | inRest
            · exact Or.inl seen
            · exact Or.inr inRest
        rw [search, if_pos seen, ih rest visited
          (fun other mem => inside other (List.mem_cons_of_mem _ mem)) (by omega) exploredRest]
        constructor
        · rintro (old | ⟨start, mem, reaches⟩)
          · exact Or.inl old
          · exact Or.inr ⟨start, List.mem_cons_of_mem _ mem, reaches⟩
        · rintro (old | ⟨start, mem, reaches⟩)
          · exact Or.inl old
          · rcases List.mem_cons.mp mem with rfl | inRest
            · -- Following the path from the visited node, it is visited or leaves over the stack.
              clear mem
              have leaves : ∀ target, Reaches next start target →
                  target ∈ visited ∨ ∃ entry ∈ rest, Reaches next entry target := by
                intro target path
                induction path with
                | refl => exact Or.inl seen
                | tail _ edge held =>
                  rcases held with old | ⟨entry, mem, path⟩
                  · rcases exploredRest _ old _ edge with old | stacked
                    · exact Or.inl old
                    · exact Or.inr ⟨_, stacked, .refl⟩
                  · exact Or.inr ⟨entry, mem, path.tail edge⟩
              exact leaves node reaches
            · exact Or.inr ⟨start, inRest, reaches⟩
      · have topMem := inside top List.mem_cons_self
        have cheaper : pending next members (top :: visited) + (next top).length ≤
            pending next members visited := pending_visit topMem seen
        have insideNext : ∀ other ∈ (next top).reverse ++ rest, other ∈ members := by
          intro other mem
          rcases List.mem_append.mp mem with pushed | old
          · exact closed top topMem other (List.mem_reverse.mp pushed)
          · exact inside other (List.mem_cons_of_mem _ old)
        have exploredNext : ∀ node ∈ top :: visited, ∀ successor ∈ next node,
            successor ∈ top :: visited ∨ successor ∈ (next top).reverse ++ rest := by
          intro other mem successor edge
          rcases List.mem_cons.mp mem with rfl | old
          · exact Or.inr (List.mem_append_left _ (List.mem_reverse.mpr edge))
          · rcases explored other old successor edge with oldSuccessor | stacked
            · exact Or.inl (List.mem_cons_of_mem _ oldSuccessor)
            · rcases List.mem_cons.mp stacked with rfl | inRest
              · exact Or.inl List.mem_cons_self
              · exact Or.inr (List.mem_append_right _ inRest)
        rw [search, if_neg seen, ih _ _ insideNext
          (by simp only [List.length_append, List.length_reverse]; omega) exploredNext]
        constructor
        · rintro (mem | ⟨start, mem, reaches⟩)
          · rcases List.mem_cons.mp mem with rfl | old
            · exact Or.inr ⟨node, List.mem_cons_self, .refl⟩
            · exact Or.inl old
          · rcases List.mem_append.mp mem with pushed | old
            · exact Or.inr ⟨top, List.mem_cons_self,
                .head (List.mem_reverse.mp pushed) reaches⟩
            · exact Or.inr ⟨start, List.mem_cons_of_mem _ old, reaches⟩
        · rintro (old | ⟨start, mem, reaches⟩)
          · exact Or.inl (List.mem_cons_of_mem _ old)
          · rcases List.mem_cons.mp mem with rfl | inRest
            · rcases Relation.ReflTransGen.cases_head reaches with rfl | ⟨second, edge, path⟩
              · exact Or.inl List.mem_cons_self
              · exact Or.inr ⟨second, List.mem_append_left _ (List.mem_reverse.mpr edge), path⟩
            · exact Or.inr ⟨start, List.mem_append_right _ inRest, reaches⟩

theorem mem_search_budget {members stack : List Node}
    (closed : ∀ node ∈ members, ∀ successor ∈ next node, successor ∈ members)
    (inside : ∀ node ∈ stack, node ∈ members) {node : Node} :
    node ∈ search next (budget next members stack) stack [] ↔
      ∃ start ∈ stack, Reaches next start node := by
  rw [mem_search closed _ stack [] inside (by simp [budget, pending]) (by simp)]
  simp

theorem search_nodup : ∀ (fuel : ℕ) (stack visited : List Node), visited.Nodup →
    (search next fuel stack visited).Nodup := by
  intro fuel
  induction fuel with
  | zero => intro _ _ nodup; exact nodup
  | succ fuel ih =>
    intro stack visited nodup
    cases stack with
    | nil => exact nodup
    | cons top rest =>
      rw [search]
      split
      · exact ih _ _ nodup
      · rename_i unvisited
        exact ih _ _ (List.nodup_cons.mpr ⟨unvisited, nodup⟩)

end Worklist
