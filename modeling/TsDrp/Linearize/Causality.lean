import TsDrp.HashGraph.Order
import Mathlib.Data.List.Induction
import Mathlib.Data.List.Nodup
import Mathlib.Data.Nat.Bitwise
import Mathlib.Logic.Equiv.Basic
import Mathlib.Tactic.Common

/-!
# The causality matrix of a linearization

Rows are found by hash and hold one bit per position of the initial order.  The
rows are filled along the order, and on the way a dependency marks its own
position in its own row.  A swap exchanges two rows and leaves the columns, so
after a swap a hash answers with the ancestors of another.
-/

namespace TsDrp

/--
A row is a natural number whose binary digits are the words of the source's
array.  Every index belongs to one hash and has a row.
-/
structure LegacyCausalityMatrix where
  indexByHash : Hash → Option ℕ
  rows : List ℕ
  injective : ∀ {left right index}, indexByHash left = some index →
    indexByHash right = some index → left = right
  bounded : ∀ {hash index}, indexByHash hash = some index → index < rows.length

namespace LegacyCausalityMatrix

/-- `indexByHash.set(order[index], index)` for every index. -/
def indexOf (order : List Hash) : Hash → Option ℕ :=
  order.zipIdx.foldl (fun index entry => Function.update index entry.1 (some entry.2)) fun _ => none

def addDependency (indexByHash : Hash → Option ℕ) (destination : ℕ) (rows : List ℕ)
    (dependency : Hash) : List ℕ :=
  match indexByHash dependency with
  | none => rows
  | some source =>
    let marked := rows.modify source (· ||| 1 <<< source)
    marked.modify destination (· ||| marked.getD source 0)

def addVertex (graph : HashGraph) (indexByHash : Hash → Option ℕ) (rows : List ℕ)
    (entry : Hash × ℕ) : List ℕ :=
  (graph.dependenciesOf entry.1).foldl (addDependency indexByHash entry.2) rows

def buildRows (graph : HashGraph) (order : List Hash) : List ℕ :=
  order.zipIdx.foldl (addVertex graph (indexOf order)) (List.replicate order.length 0)

theorem indexOf_concat (order : List Hash) (last : Hash) :
    indexOf (order ++ [last]) = Function.update (indexOf order) last (some order.length) := by
  simp [indexOf, List.zipIdx_append]

theorem getElem?_of_indexOf {order : List Hash} {hash : Hash} {index : ℕ}
    (found : indexOf order hash = some index) : order[index]? = some hash := by
  induction order using List.reverseRecOn with
  | nil => simp [indexOf] at found
  | append_singleton order last ih =>
    rw [indexOf_concat] at found
    by_cases same : hash = last
    · subst same
      rw [Function.update_self, Option.some.injEq] at found
      subst found
      simp
    · rw [Function.update_of_ne same] at found
      have earlier := ih found
      obtain ⟨bound, _⟩ := List.getElem?_eq_some_iff.mp earlier
      rw [List.getElem?_append_left bound]
      exact earlier

theorem indexOf_isSome_iff {order : List Hash} {hash : Hash} :
    (indexOf order hash).isSome ↔ hash ∈ order := by
  induction order using List.reverseRecOn with
  | nil => simp [indexOf]
  | append_singleton order last ih =>
    rw [indexOf_concat]
    by_cases same : hash = last
    · simp [same]
    · rw [Function.update_of_ne same, ih]
      simp [same]

theorem indexOf_getElem {order : List Hash} (nodup : order.Nodup) {index : ℕ}
    (bound : index < order.length) : indexOf order order[index] = some index := by
  obtain ⟨found, shape⟩ := Option.isSome_iff_exists.mp
    (indexOf_isSome_iff.mpr (List.getElem_mem bound))
  obtain ⟨foundBound, same⟩ := List.getElem?_eq_some_iff.mp (getElem?_of_indexOf shape)
  rw [shape, (nodup.getElem_inj_iff).mp same]

theorem length_addDependency (indexByHash : Hash → Option ℕ) (destination : ℕ) (rows : List ℕ)
    (dependency : Hash) :
    (addDependency indexByHash destination rows dependency).length = rows.length := by
  unfold addDependency
  cases indexByHash dependency <;> simp

theorem length_foldl_addDependency (indexByHash : Hash → Option ℕ) (destination : ℕ)
    (dependencies : List Hash) (rows : List ℕ) :
    (dependencies.foldl (addDependency indexByHash destination) rows).length = rows.length := by
  induction dependencies generalizing rows with
  | nil => rfl
  | cons head rest ih => rw [List.foldl_cons, ih, length_addDependency]

theorem length_foldl_addVertex (graph : HashGraph) (indexByHash : Hash → Option ℕ)
    (entries : List (Hash × ℕ)) (rows : List ℕ) :
    (entries.foldl (addVertex graph indexByHash) rows).length = rows.length := by
  induction entries generalizing rows with
  | nil => rfl
  | cons head rest ih => rw [List.foldl_cons, ih, addVertex, length_foldl_addDependency]

def build (graph : HashGraph) (order : List Hash) : LegacyCausalityMatrix where
  indexByHash := indexOf order
  rows := buildRows graph order
  injective := by
    intro left right index leftFound rightFound
    exact Option.some.inj ((getElem?_of_indexOf leftFound).symm.trans (getElem?_of_indexOf rightFound))
  bounded := by
    intro hash index found
    rw [buildRows, length_foldl_addVertex, List.length_replicate]
    exact (List.getElem?_eq_some_iff.mp (getElem?_of_indexOf found)).1

theorem foldl_addVertex_congr {graph other : HashGraph} (indexByHash : Hash → Option ℕ)
    (entries : List (Hash × ℕ)) (rows : List ℕ)
    (same : ∀ entry ∈ entries, graph.dependenciesOf entry.1 = other.dependenciesOf entry.1) :
    entries.foldl (addVertex graph indexByHash) rows =
      entries.foldl (addVertex other indexByHash) rows := by
  induction entries generalizing rows with
  | nil => rfl
  | cons head rest ih =>
    rw [List.foldl_cons, List.foldl_cons, addVertex, addVertex, same head List.mem_cons_self,
      ih _ fun entry mem => same entry (.tail _ mem)]

theorem build_congr {graph other : HashGraph} {order : List Hash}
    (same : ∀ hash ∈ order, graph.dependenciesOf hash = other.dependenciesOf hash) :
    build graph order = build other order := by
  have rows : buildRows graph order = buildRows other order := by
    refine foldl_addVertex_congr _ _ _ fun entry mem => same entry.1 ?_
    exact List.fst_mem_of_mem_zipIdx mem
  simp only [build, rows]

/-- The bit of one hash in the row of another; `false` when either is not in the order. -/
def bit (matrix : LegacyCausalityMatrix) (row column : Hash) : Bool :=
  match matrix.indexByHash row, matrix.indexByHash column with
  | some rowIndex, some columnIndex => (matrix.rows.getD rowIndex 0).testBit columnIndex
  | _, _ => false

def areRelated (matrix : LegacyCausalityMatrix) (left right : Hash) : Bool :=
  matrix.bit left right || matrix.bit right left

def swapReachablePredecessors (matrix : LegacyCausalityMatrix) (left right : Hash) :
    LegacyCausalityMatrix :=
  match matrix.indexByHash left, matrix.indexByHash right with
  | some leftIndex, some rightIndex =>
    { matrix with
      rows := (matrix.rows.set leftIndex (matrix.rows.getD rightIndex 0)).set rightIndex
        (matrix.rows.getD leftIndex 0)
      bounded := by
        intro hash index found
        rw [List.length_set, List.length_set]
        exact matrix.bounded found }
  | _, _ => matrix

theorem areRelated_comm (matrix : LegacyCausalityMatrix) (left right : Hash) :
    matrix.areRelated left right = matrix.areRelated right left := Bool.or_comm _ _

@[simp]
theorem indexByHash_swap (matrix : LegacyCausalityMatrix) (left right : Hash) :
    (matrix.swapReachablePredecessors left right).indexByHash = matrix.indexByHash := by
  unfold swapReachablePredecessors
  split <;> rfl

theorem bit_swap (matrix : LegacyCausalityMatrix) {left right : Hash}
    (leftFound : (matrix.indexByHash left).isSome) (rightFound : (matrix.indexByHash right).isSome)
    (row column : Hash) :
    (matrix.swapReachablePredecessors left right).bit row column =
      matrix.bit (Equiv.swap left right row) column := by
  obtain ⟨leftIndex, leftAt⟩ := Option.isSome_iff_exists.mp leftFound
  obtain ⟨rightIndex, rightAt⟩ := Option.isSome_iff_exists.mp rightFound
  have leftBound := matrix.bounded leftAt
  have rightBound := matrix.bounded rightAt
  have rows : (matrix.swapReachablePredecessors left right).rows =
      (matrix.rows.set leftIndex (matrix.rows.getD rightIndex 0)).set rightIndex
        (matrix.rows.getD leftIndex 0) := by
    simp [swapReachablePredecessors, leftAt, rightAt]
  unfold bit
  rw [indexByHash_swap, rows]
  by_cases isRight : row = right
  · subst isRight
    rw [Equiv.swap_apply_right, leftAt, rightAt]
    cases matrix.indexByHash column with
    | none => rfl
    | some columnIndex => simp [List.getD_eq_getElem?_getD, rightBound]
  · by_cases isLeft : row = left
    · subst isLeft
      have different : rightIndex ≠ leftIndex := by
        intro same
        exact isRight (matrix.injective leftAt (same ▸ rightAt))
      rw [Equiv.swap_apply_left, leftAt, rightAt]
      cases matrix.indexByHash column with
      | none => rfl
      | some columnIndex =>
        simp [List.getD_eq_getElem?_getD, leftBound, different]
    · rw [Equiv.swap_apply_of_ne_of_ne isLeft isRight]
      cases rowAt : matrix.indexByHash row with
      | none => rfl
      | some rowIndex =>
        have notLeft : leftIndex ≠ rowIndex := by
          rintro rfl
          exact isLeft (matrix.injective rowAt leftAt)
        have notRight : rightIndex ≠ rowIndex := by
          rintro rfl
          exact isRight (matrix.injective rowAt rightAt)
        cases matrix.indexByHash column with
        | none => rfl
        | some columnIndex =>
          simp [List.getD_eq_getElem?_getD, notLeft, notRight]

section Build

variable {order : List Hash}

def rowBit (order : List Hash) (rows : List ℕ) (row column : Hash) : Bool :=
  match indexOf order row, indexOf order column with
  | some rowIndex, some columnIndex => (rows.getD rowIndex 0).testBit columnIndex
  | _, _ => false

theorem rowBit_build (graph : HashGraph) (row column : Hash) :
    (build graph order).bit row column = rowBit order (buildRows graph order) row column := rfl

theorem getD_modify {rows : List ℕ} {source : ℕ} (bound : source < rows.length) (change : ℕ → ℕ)
    (index : ℕ) :
    (rows.modify source change).getD index 0 =
      if source = index then change (rows.getD index 0) else rows.getD index 0 := by
  by_cases same : source = index
  · subst same
    simp [List.getD_eq_getElem?_getD, bound]
  · simp [List.getD_eq_getElem?_getD, same]

theorem testBit_or_shift (row source column : ℕ) :
    (row ||| 1 <<< source).testBit column = (row.testBit column || decide (source = column)) := by
  rw [Nat.testBit_or, Nat.one_shiftLeft, Nat.testBit_two_pow]

theorem rowBit_addDependency {rows : List ℕ} {destination dependency : Hash} {index : ℕ}
    (length : rows.length = order.length) (destinationAt : indexOf order destination = some index)
    (dependencyMem : dependency ∈ order) (different : dependency ≠ destination)
    {row column : Hash} (columnMem : column ∈ order) :
    rowBit order (addDependency (indexOf order) index rows dependency) row column = true ↔
      rowBit order rows row column = true ∨ (row = dependency ∧ column = dependency) ∨
        (row = destination ∧ (rowBit order rows dependency column = true ∨ column = dependency)) := by
  obtain ⟨source, sourceAt⟩ := Option.isSome_iff_exists.mp (indexOf_isSome_iff.mpr dependencyMem)
  obtain ⟨columnIndex, columnAt⟩ := Option.isSome_iff_exists.mp (indexOf_isSome_iff.mpr columnMem)
  have bound : ∀ {hash found}, indexOf order hash = some found → found < rows.length := by
    intro hash found at_
    rw [length]
    exact (List.getElem?_eq_some_iff.mp (getElem?_of_indexOf at_)).1
  have unique : ∀ {first second found}, indexOf order first = some found →
      indexOf order second = some found → first = second := by
    intro first second found firstAt secondAt
    exact Option.some.inj ((getElem?_of_indexOf firstAt).symm.trans (getElem?_of_indexOf secondAt))
  have sourceNe : source ≠ index := fun same => different (unique sourceAt (same ▸ destinationAt))
  have columnIff : source = columnIndex ↔ column = dependency :=
    ⟨fun same => unique columnAt (same ▸ sourceAt), fun same => by
      rw [same, sourceAt] at columnAt
      exact Option.some.inj columnAt⟩
  have marked := getD_modify (bound sourceAt) (· ||| 1 <<< source)
  have destinationBound : index < (rows.modify source (· ||| 1 <<< source)).length := by
    rw [List.length_modify]
    exact bound destinationAt
  cases rowAt : indexOf order row with
  | none =>
    have notDependency : row ≠ dependency := by
      rintro rfl
      simp [sourceAt] at rowAt
    have notDestination : row ≠ destination := by
      rintro rfl
      simp [destinationAt] at rowAt
    simp [rowBit, rowAt, notDependency, notDestination]
  | some rowIndex =>
    have rowSource : source = rowIndex ↔ row = dependency :=
      ⟨fun same => unique rowAt (same ▸ sourceAt), fun same => by
        rw [same, sourceAt] at rowAt
        exact Option.some.inj rowAt⟩
    have rowDestination : index = rowIndex ↔ row = destination :=
      ⟨fun same => unique rowAt (same ▸ destinationAt), fun same => by
        rw [same, destinationAt] at rowAt
        exact Option.some.inj rowAt⟩
    simp only [rowBit, rowAt, columnAt, sourceAt, addDependency,
      getD_modify destinationBound, marked, if_true]
    by_cases isDestination : index = rowIndex
    · subst isDestination
      have isRow := rowDestination.mp rfl
      simp only [if_true, if_neg sourceNe, Nat.testBit_or _ (_ ||| _), testBit_or_shift, isRow,
        Bool.or_eq_true, decide_eq_true_eq, columnIff, different.symm, false_and, false_or,
        true_and]
    · have notDestination : row ≠ destination := fun same =>
        isDestination (rowDestination.mpr same)
      by_cases isSource : source = rowIndex
      · subst isSource
        have isRow := rowSource.mp rfl
        simp only [if_true, if_neg isDestination, testBit_or_shift, isRow, Bool.or_eq_true,
          decide_eq_true_eq, columnIff, different, false_and, or_false, true_and]
      · have notDependency : row ≠ dependency := fun same => isSource (rowSource.mpr same)
        simp [isDestination, isSource, notDependency, notDestination]

theorem rowBit_foldl_addDependency {destination : Hash} {index : ℕ}
    (destinationAt : indexOf order destination = some index) (dependencies : List Hash)
    (irreflexive : destination ∉ dependencies) (rows : List ℕ)
    (length : rows.length = order.length) {row column : Hash} (columnMem : column ∈ order) :
    rowBit order (dependencies.foldl (addDependency (indexOf order) index) rows) row column = true ↔
      rowBit order rows row column = true ∨
        (row = column ∧ row ∈ dependencies) ∨
        (row = destination ∧ ∃ dependency ∈ dependencies, dependency ∈ order ∧
          (rowBit order rows dependency column = true ∨ column = dependency)) := by
  induction dependencies generalizing rows with
  | nil => simp
  | cons head rest ih =>
    obtain ⟨notHead, notRest⟩ : destination ≠ head ∧ destination ∉ rest := by
      simpa [not_or] using irreflexive
    rw [List.foldl_cons, ih notRest _ (by rw [length_addDependency, length])]
    by_cases headMem : head ∈ order
    · simp only [rowBit_addDependency length destinationAt headMem notHead.symm columnMem,
        List.mem_cons, exists_eq_or_imp, headMem, true_and]
      grind
    · have skipped : addDependency (indexOf order) index rows head = rows := by
        have absent : indexOf order head = none := by
          rw [← Option.not_isSome_iff_eq_none, indexOf_isSome_iff]
          exact headMem
        simp [addDependency, absent]
      rw [skipped]
      simp only [List.mem_cons, exists_eq_or_imp, headMem, false_and, false_or]
      grind

/-- A duplicate-free list in causal order, with everything between two of its members. -/
structure CausalList (graph : HashGraph) (order : List Hash) : Prop where
  nodup : order.Nodup
  ordered : order.Pairwise fun earlier later => ¬graph.Precedes later earlier
  acyclic : ∀ hash, ¬graph.Precedes hash hash
  convex : ∀ {earlier middle later}, earlier ∈ order → later ∈ order →
    graph.PrecedesEq earlier middle → graph.Dependency middle later → middle ∈ order

variable {graph : HashGraph}

theorem CausalList.not_precedes {done rest : List Hash} {last : Hash}
    (causal : CausalList graph (done ++ last :: rest)) {earlier : Hash} (mem : earlier ∈ done) :
    ¬graph.Precedes last earlier := by
  have ordered := (List.pairwise_append.mp causal.ordered).2.2
  exact ordered earlier mem last List.mem_cons_self

theorem CausalList.rowBit_foldl_addVertex (causal : CausalList graph order)
    (done rest : List Hash) (shape : order = done ++ rest) {row column : Hash}
    (rowMem : row ∈ order) (columnMem : column ∈ order) :
    rowBit order (done.zipIdx.foldl (addVertex graph (indexOf order))
        (List.replicate order.length 0)) row column = true ↔
      (row ∈ done ∧ graph.Precedes column row) ∨
        (row = column ∧ ∃ child ∈ done, graph.Dependency row child) := by
  induction done using List.reverseRecOn generalizing rest row with
  | nil =>
    obtain ⟨rowIndex, rowAt⟩ := Option.isSome_iff_exists.mp (indexOf_isSome_iff.mpr rowMem)
    obtain ⟨columnIndex, columnAt⟩ :=
      Option.isSome_iff_exists.mp (indexOf_isSome_iff.mpr columnMem)
    simp [rowBit, rowAt, columnAt]
  | append_singleton done last ih =>
    have shape' : order = done ++ last :: rest := by simpa using shape
    have before := fun {row} => @ih (last :: rest) shape' row
    have lastMem : last ∈ order := by simp [shape']
    have lastAt : indexOf order last = some done.length := by
      have bound : done.length < order.length := by simp [shape']
      have here : order[done.length] = last := by simp [shape']
      rw [← here]
      exact indexOf_getElem causal.nodup bound
    have lastNotDone : last ∉ done := by
      have nodup := causal.nodup
      rw [shape', List.nodup_append] at nodup
      exact fun mem => nodup.2.2 last mem last List.mem_cons_self rfl
    have noDescendant : ∀ earlier ∈ done, ¬graph.Precedes last earlier := by
      intro earlier mem
      have causal' := causal
      rw [shape'] at causal'
      exact causal'.not_precedes mem
    -- The dependencies of `last` that are in the order come before it.
    have passed : ∀ dependency, graph.Dependency dependency last → dependency ∈ order →
        dependency ∈ done := by
      intro dependency isDependency mem
      rw [shape', List.mem_append, List.mem_cons] at mem
      rcases mem with mem | rfl | mem
      · exact mem
      · exact absurd (.single isDependency) (causal.acyclic dependency)
      · have causal' := causal.ordered
        rw [shape', List.pairwise_append, List.pairwise_cons] at causal'
        exact absurd (.single isDependency) (causal'.2.1.1 dependency mem)
    have irreflexive : last ∉ graph.dependenciesOf last := fun self =>
      causal.acyclic last (.single self)
    rw [List.zipIdx_append, List.foldl_append]
    simp only [Nat.zero_add, List.zipIdx_cons, List.zipIdx_nil, List.foldl_cons, List.foldl_nil]
    rw [addVertex, rowBit_foldl_addDependency lastAt _ irreflexive _
      (by rw [length_foldl_addVertex, List.length_replicate]) columnMem, before rowMem]
    by_cases isLast : row = last
    · subst isLast
      have noChild : ¬∃ child ∈ done, graph.Dependency row child := by
        rintro ⟨child, childMem, dependency⟩
        exact noDescendant child childMem (.single dependency)
      have ancestors : (∃ dependency ∈ graph.dependenciesOf row, dependency ∈ order ∧
          (rowBit order (done.zipIdx.foldl (addVertex graph (indexOf order))
            (List.replicate order.length 0)) dependency column = true ∨ column = dependency)) ↔
          graph.Precedes column row := by
        constructor
        · rintro ⟨dependency, isDependency, mem, old | rfl⟩
          · rcases (before mem).mp old with ⟨_, precedes⟩ | ⟨rfl, _⟩
            · exact precedes.tail isDependency
            · exact .single isDependency
          · exact .single isDependency
        · intro precedes
          obtain ⟨dependency, upTo, isDependency⟩ := Relation.TransGen.tail'_iff.mp precedes
          have mem := causal.convex columnMem rowMem upTo isDependency
          refine ⟨dependency, isDependency, mem, ?_⟩
          rcases Relation.reflTransGen_iff_eq_or_transGen.mp upTo with same | strict
          · exact Or.inr same.symm
          · exact Or.inl ((before mem).mpr (Or.inl ⟨passed dependency isDependency mem, strict⟩))
      have noSelf : ¬∃ child ∈ done ++ [row], graph.Dependency row child := by
        rintro ⟨child, childMem, dependency⟩
        rcases List.mem_append.mp childMem with old | self
        · exact noChild ⟨child, old, dependency⟩
        · rw [List.mem_singleton.mp self] at dependency
          exact irreflexive dependency
      have selfMem : row ∈ done ++ [row] := by simp
      simp only [ancestors, lastNotDone, noChild, noSelf, irreflexive, selfMem, false_and,
        and_false, or_false, false_or, true_and]
    · have inDone : row ∈ done ++ [last] ↔ row ∈ done := by simp [isLast]
      rw [inDone]
      have children : (∃ child ∈ done ++ [last], graph.Dependency row child) ↔
          (∃ child ∈ done, graph.Dependency row child) ∨ row ∈ graph.dependenciesOf last := by
        simp only [List.mem_append, List.mem_singleton, or_and_right, exists_or, exists_eq_left]
        rfl
      rw [children]
      simp only [isLast, false_and, or_false, or_assoc, and_or_left]

/--
The matrix of a causal list: a row holds the ancestors of its vertex, and the
vertex itself once something in the list depends on it.
-/
theorem CausalList.bit_build (causal : CausalList graph order) {row column : Hash}
    (rowMem : row ∈ order) (columnMem : column ∈ order) :
    (build graph order).bit row column = true ↔
      graph.Precedes column row ∨
        (row = column ∧ ∃ child ∈ order, graph.Dependency row child) := by
  rw [rowBit_build, buildRows, causal.rowBit_foldl_addVertex order [] (by simp) rowMem columnMem]
  simp [rowMem]

theorem indexByHash_build_isSome {hash : Hash} :
    ((build graph order).indexByHash hash).isSome ↔ hash ∈ order :=
  indexOf_isSome_iff

end Build

end LegacyCausalityMatrix

namespace HashGraph

open LegacyCausalityMatrix

variable {graph : HashGraph}

theorem Interval.causalList {origin : Hash} {members order : List Hash}
    (interval : graph.Interval origin members) (wellFormed : graph.WellFormed)
    (causalOrder : graph.CausalOrder origin members order) :
    LegacyCausalityMatrix.CausalList graph order where
  nodup := causalOrder.nodup
  ordered := causalOrder.ordered
  acyclic := wellFormed.acyclic
  convex := by
    intro _ middle later earlierMem laterMem
    rw [causalOrder.mem] at earlierMem laterMem ⊢
    exact interval.convex earlierMem laterMem

theorem Past.causalList {members order : List Hash} (past : graph.Past members)
    (wellFormed : graph.WellFormed)
    (causalOrder : graph.CausalOrder rootHash members order) :
    LegacyCausalityMatrix.CausalList graph order :=
  (past.interval wellFormed).causalList wellFormed causalOrder

section

variable {origin : Hash} {members order : List Hash} (interval : graph.Interval origin members)
  (wellFormed : graph.WellFormed) (causalOrder : graph.CausalOrder origin members order)
include interval wellFormed causalOrder

theorem Interval.areRelated_build {hash other : Hash} (mem : hash ∈ members)
    (otherMem : other ∈ members) (different : hash ≠ other) :
    (build graph order).areRelated hash other = true ↔
      graph.Precedes hash other ∨ graph.Precedes other hash := by
  have causal := interval.causalList wellFormed causalOrder
  rw [← causalOrder.mem] at mem otherMem
  rw [areRelated, Bool.or_eq_true, causal.bit_build mem otherMem, causal.bit_build otherMem mem]
  simp [different, different.symm, or_comm]

theorem Interval.concurrent {left right : Hash} (leftMem : left ∈ members)
    (rightMem : right ∈ members) (different : left ≠ right)
    (unrelated : (build graph order).areRelated left right = false) :
    graph.Concurrent left right := by
  have related := interval.areRelated_build wellFormed causalOrder leftMem rightMem different
  rw [unrelated] at related
  simp only [Bool.false_eq_true, false_iff, not_or] at related
  exact ⟨different, related.1, related.2⟩

end

theorem Past.areRelated_build {members order : List Hash} (past : graph.Past members)
    (wellFormed : graph.WellFormed) (causalOrder : graph.CausalOrder rootHash members order) {hash other : Hash}
    (mem : hash ∈ members) (otherMem : other ∈ members) (different : hash ≠ other) :
    (build graph order).areRelated hash other = true ↔
      graph.Precedes hash other ∨ graph.Precedes other hash :=
  (past.interval wellFormed).areRelated_build wellFormed causalOrder mem otherMem different

namespace CausalBarrier

variable {past whole subgraph order rest : List Hash} {origin : Hash}

section

variable (barrier : graph.CausalBarrier past whole origin subgraph) (wellFormed : graph.WellFormed)
  (pastOrder : graph.CausalOrder rootHash past order)
  (wholeOrder : graph.CausalOrder rootHash whole (order ++ rest))
include barrier pastOrder wholeOrder

theorem eq_origin_iff_of_mem_rest {hash : Hash} (mem : hash ∈ rest) :
    hash = origin ↔ hash = rootHash := by
  have behind := ((pastOrder.mem_rest wholeOrder).mp mem).2
  refine iff_of_false ?_ ?_
  · rintro rfl
    exact behind barrier.originMem
  · rintro rfl
    exact behind barrier.pastClosed.root

include wellFormed

theorem causalList : LegacyCausalityMatrix.CausalList graph (origin :: rest) where
  nodup := by
    refine List.nodup_cons.mpr ⟨fun mem => ?_, (List.nodup_append.mp wholeOrder.nodup).2.1⟩
    exact ((pastOrder.mem_rest wholeOrder).mp mem).2 barrier.originMem
  ordered := by
    refine List.pairwise_cons.mpr ⟨fun later mem precedes => ?_,
      (List.pairwise_append.mp wholeOrder.ordered).2.1⟩
    have behind := ((pastOrder.mem_rest wholeOrder).mp mem).2
    exact behind (barrier.pastClosed.precedes_mem precedes barrier.originMem)
  acyclic := wellFormed.acyclic
  convex := by
    intro earlier middle later earlierMem laterMem upTo dependency
    have inWhole : ∀ hash ∈ origin :: rest, hash ∈ whole := by
      intro hash mem
      rcases List.mem_cons.mp mem with rfl | mem
      · exact barrier.subset _ barrier.originMem
      · exact ((pastOrder.mem_rest wholeOrder).mp mem).1
    by_cases isOrigin : middle = origin
    · rw [isOrigin]
      exact List.mem_cons_self
    · refine List.mem_cons_of_mem _ ((pastOrder.mem_rest wholeOrder).mpr
        ⟨barrier.wholeClosed.closed dependency (inWhole later laterMem), fun middlePast => ?_⟩)
      rcases Relation.reflTransGen_iff_eq_or_transGen.mp upTo with same | strict
      · rw [same] at isOrigin middlePast
        rcases List.mem_cons.mp earlierMem with isOrigin' | mem
        · exact isOrigin isOrigin'
        · exact ((pastOrder.mem_rest wholeOrder).mp mem).2 middlePast
      · rcases List.mem_cons.mp earlierMem with rfl | mem
        · exact barrier.maximal middle middlePast strict
        · exact ((pastOrder.mem_rest wholeOrder).mp mem).2
            (barrier.pastClosed.precedes_mem strict middlePast)

theorem bit_past {row column : Hash} (rowMem : row ∈ order) (columnMem : column ∈ order)
    (plain : row ≠ column ∨ ∃ later ∈ past, graph.Precedes column later) :
    (build graph order).bit row column = (build graph (order ++ rest)).bit row column := by
  rw [Bool.eq_iff_iff, (barrier.pastClosed.causalList wellFormed pastOrder).bit_build rowMem columnMem,
    (barrier.wholeClosed.causalList wellFormed wholeOrder).bit_build (List.mem_append_left _ rowMem)
      (List.mem_append_left _ columnMem)]
  refine or_congr Iff.rfl (and_congr_right fun same => ?_)
  subst same
  constructor
  · rintro ⟨child, mem, dependency⟩
    exact ⟨child, List.mem_append_left _ mem, dependency⟩
  · rintro ⟨child, mem, dependency⟩
    rcases List.mem_append.mp mem with inOrder | behind
    · exact ⟨child, inOrder, dependency⟩
    · obtain ⟨later, laterMem, precedes⟩ := plain.resolve_left fun different => different rfl
      obtain ⟨childWhole, childBehind⟩ := (pastOrder.mem_rest wholeOrder).mp behind
      exact absurd precedes
        (barrier.maximal_of_child wellFormed dependency childWhole childBehind laterMem)

theorem bit_behind {later hash : Hash} (laterMem : later ∈ rest) (mem : hash ∈ order) :
    (build graph (order ++ rest)).bit later hash = true := by
  rw [(barrier.wholeClosed.causalList wellFormed wholeOrder).bit_build
    (List.mem_append_right _ laterMem) (List.mem_append_left _ mem)]
  obtain ⟨inWhole, behind⟩ := (pastOrder.mem_rest wholeOrder).mp laterMem
  exact Or.inl (barrier.separates later inWhole behind hash ((pastOrder.mem hash).mp mem))

theorem bit_rest {row column : Hash} (rowMem : row ∈ rest) (columnMem : column ∈ rest) :
    (build graph (origin :: rest)).bit row column =
      (build graph (order ++ rest)).bit row column := by
  rw [Bool.eq_iff_iff,
    (barrier.causalList wellFormed pastOrder wholeOrder).bit_build (.tail _ rowMem) (.tail _ columnMem),
    (barrier.wholeClosed.causalList wellFormed wholeOrder).bit_build
      (List.mem_append_right _ rowMem) (List.mem_append_right _ columnMem)]
  refine or_congr Iff.rfl (and_congr_right fun _ => exists_congr fun child => and_congr_left
    fun dependency => ?_)
  have rowBehind := ((pastOrder.mem_rest wholeOrder).mp rowMem).2
  constructor
  · intro mem
    rcases List.mem_cons.mp mem with rfl | mem
    · exact absurd (barrier.pastClosed.closed dependency barrier.originMem) rowBehind
    · exact List.mem_append_right _ mem
  · intro mem
    rcases List.mem_append.mp mem with inOrder | mem
    · have childPast := (pastOrder.mem child).mp inOrder
      exact absurd (barrier.pastClosed.closed dependency childPast) rowBehind
    · exact List.mem_cons_of_mem _ mem

end

end CausalBarrier

end HashGraph

end TsDrp
