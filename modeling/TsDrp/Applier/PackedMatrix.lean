import TsDrp.Applier.Checkpoint
import TsDrp.Finality.BitSet
import TsDrp.HashGraph.Admission

/-!
# The causality matrix in words of 32 bits

The source keeps the rows of `LegacyCausalityMatrix` in one array of 32-bit words, each row
rounded up to whole words.  The words are those of the rows as numbers, for any number of
vertices, so the array answers as the rows do: on the subgraphs that the applier linearizes two
vertices are related if and only if one is a causal ancestor of the other.
-/

namespace TsDrp

open LegacyCausalityMatrix

/-- The fields of the class, before any swap. -/
structure PackedMatrix where
  matrix : List (BitVec 32)
  indexByHash : Hash → Option ℕ
  wordsPerRow : ℕ

namespace PackedMatrix

def mark (wordsPerRow : ℕ) (matrix : List (BitVec 32)) (dependencyIndex : ℕ) :
    List (BitVec 32) :=
  matrix.modify (dependencyIndex * wordsPerRow + dependencyIndex / 32)
    (· ||| 1#32 <<< (dependencyIndex % 32))

def addWord (destination source : ℕ) (matrix : List (BitVec 32)) (word : ℕ) : List (BitVec 32) :=
  matrix.modify (destination + word) (· ||| matrix.getD (source + word) 0)

def addDependency (indexByHash : Hash → Option ℕ) (wordsPerRow index : ℕ)
    (matrix : List (BitVec 32)) (dependency : Hash) : List (BitVec 32) :=
  match indexByHash dependency with
  | none => matrix
  | some dependencyIndex =>
    (List.range wordsPerRow).foldl
      (addWord (index * wordsPerRow) (dependencyIndex * wordsPerRow))
      (mark wordsPerRow matrix dependencyIndex)

def addVertex (graph : HashGraph) (indexByHash : Hash → Option ℕ) (wordsPerRow : ℕ)
    (matrix : List (BitVec 32)) (entry : Hash × ℕ) : List (BitVec 32) :=
  (graph.dependenciesOf entry.1).foldl (addDependency indexByHash wordsPerRow entry.2) matrix

/-- `Math.ceil(order.length / 32) || 1` -/
def wordsFor (length : ℕ) : ℕ := max ((length + 31) / 32) 1

def build (graph : HashGraph) (order : List Hash) : PackedMatrix where
  matrix := order.zipIdx.foldl
    (addVertex graph (indexOf order) (wordsFor order.length))
    (List.replicate (order.length * wordsFor order.length) 0)
  indexByHash := indexOf order
  wordsPerRow := wordsFor order.length

def has (packed : PackedMatrix) (row column : ℕ) : Bool :=
  packed.matrix.getD (row * packed.wordsPerRow + column / 32) 0 &&& (1#32 <<< (column % 32)) ≠ 0

def areRelated (packed : PackedMatrix) (left right : Hash) : Bool :=
  match packed.indexByHash left, packed.indexByHash right with
  | some leftIndex, some rightIndex =>
    packed.has leftIndex rightIndex || packed.has rightIndex leftIndex
  | _, _ => false

structure Packs (width : ℕ) (matrix : List (BitVec 32)) (rows : List ℕ) : Prop where
  length : matrix.length = rows.length * width
  words : ∀ row < rows.length, ∀ word < width,
    matrix.getD (row * width + word) 0 = BitVec.ofNat 32 (rows.getD row 0 >>> (32 * word))

section Packing

variable {width : ℕ} {matrix : List (BitVec 32)} {rows : List ℕ}

theorem place_lt {row word count : ℕ} (rowBound : row < count) (wordBound : word < width) :
    row * width + word < count * width := by
  calc row * width + word < row * width + width := by omega
    _ = (row + 1) * width := (Nat.succ_mul ..).symm
    _ ≤ count * width := Nat.mul_le_mul_right _ rowBound

theorem place_inj {row word row' word' : ℕ} (wordBound : word < width) (wordBound' : word' < width) :
    row * width + word = row' * width + word' ↔ row = row' ∧ word = word' := by
  refine ⟨fun same => ?_, fun ⟨sameRow, sameWord⟩ => by rw [sameRow, sameWord]⟩
  have positive : 0 < width := by omega
  have sameRow := congrArg (· / width) same
  have sameWord := congrArg (· % width) same
  simp only [Nat.mul_comm _ width, Nat.mul_add_div positive, Nat.div_eq_of_lt wordBound,
    Nat.div_eq_of_lt wordBound', Nat.mul_add_mod, Nat.mod_eq_of_lt wordBound,
    Nat.mod_eq_of_lt wordBound'] at sameRow sameWord
  exact ⟨sameRow, sameWord⟩

theorem word_or (first second word : ℕ) :
    BitVec.ofNat 32 ((first ||| second) >>> word) =
      BitVec.ofNat 32 (first >>> word) ||| BitVec.ofNat 32 (second >>> word) := by
  apply BitVec.eq_of_getLsbD_eq
  intro bit small
  simp only [BitVec.getLsbD_or, BitVec.getLsbD_ofNat, small, decide_true, Bool.true_and,
    Nat.testBit_shiftRight, Nat.testBit_or]

theorem word_of_bit (index word : ℕ) :
    BitVec.ofNat 32 ((1 <<< index) >>> (32 * word)) =
      if word = index / 32 then 1#32 <<< (index % 32) else 0 := by
  apply BitVec.eq_of_getLsbD_eq
  intro bit small
  simp only [BitVec.getLsbD_ofNat, small, decide_true, Bool.true_and, Nat.testBit_shiftRight,
    Nat.one_shiftLeft, Nat.testBit_two_pow]
  by_cases here : word = index / 32
  · rw [if_pos here, ← BitVec.twoPow_eq, BitVec.getLsbD_twoPow]
    rw [Bool.eq_iff_iff]
    simp only [Bool.and_eq_true, decide_eq_true_eq]
    omega
  · simp only [if_neg here, BitVec.ofNat_eq_ofNat, BitVec.getLsbD_zero, decide_eq_false_iff_not]
    omega

theorem getD_modify_word {index : ℕ} (bound : index < matrix.length)
    (change : BitVec 32 → BitVec 32) (other : ℕ) :
    (matrix.modify index change).getD other 0 =
      if index = other then change (matrix.getD other 0) else matrix.getD other 0 := by
  by_cases same : index = other
  · subst same
    simp [List.getD_eq_getElem?_getD, bound]
  · simp [List.getD_eq_getElem?_getD, same]

theorem Packs.mark (packs : Packs width matrix rows) {index : ℕ} (bound : index < rows.length)
    (wide : index / 32 < width) :
    Packs width (mark width matrix index) (rows.modify index (· ||| 1 <<< index)) where
  length := by simp [PackedMatrix.mark, packs.length]
  words := by
    intro row rowBound word wordBound
    rw [List.length_modify] at rowBound
    rw [PackedMatrix.mark, getD_modify_word (packs.length ▸ place_lt bound wide),
      getD_modify bound, packs.words row rowBound word wordBound]
    simp only [place_inj wide wordBound]
    by_cases here : index = row
    · rw [if_pos here, word_or, word_of_bit]
      by_cases sameWord : index / 32 = word
      · rw [if_pos ⟨here, sameWord⟩, if_pos sameWord.symm]
      · rw [if_neg fun both => sameWord both.2, if_neg fun same => sameWord same.symm]
        simp
    · rw [if_neg fun both => here both.1, if_neg here]

theorem addWords (length : matrix.length = rows.length * width) {destination source count : ℕ}
    (destinationBound : destination < rows.length) (few : count ≤ width) :
    ((List.range count).foldl (addWord (destination * width) (source * width)) matrix).length =
        matrix.length ∧
      ∀ row word, word < width →
        ((List.range count).foldl (addWord (destination * width) (source * width)) matrix).getD
            (row * width + word) 0 =
          if row = destination ∧ word < count then
            matrix.getD (row * width + word) 0 ||| matrix.getD (source * width + word) 0
          else matrix.getD (row * width + word) 0 := by
  induction count with
  | zero => simp
  | succ count ih =>
    rcases ih (by omega) with ⟨sameLength, read⟩
    rw [List.range_succ, List.foldl_append, List.foldl_cons, List.foldl_nil]
    have inside : destination * width + count < ((List.range count).foldl
        (addWord (destination * width) (source * width)) matrix).length := by
      rw [sameLength, length]
      exact place_lt destinationBound (by omega)
    refine ⟨by rw [addWord, List.length_modify, sameLength], fun row word wordBound => ?_⟩
    -- The word that is added has not been written yet, even if the rows are the same.
    rw [addWord, getD_modify_word inside, read row word wordBound, read source count (by omega)]
    simp only [place_inj (show count < width by omega) wordBound, Nat.lt_irrefl, and_false, if_false]
    by_cases here : row = destination ∧ word < count
    · rw [if_neg (by omega), if_pos here, if_pos (by omega)]
    · by_cases last : destination = row ∧ count = word
      · rw [if_pos last, if_neg here, if_pos (by omega), last.2]
      · rw [if_neg last, if_neg here, if_neg (by omega)]

theorem Packs.addRow (packs : Packs width matrix rows) {destination source : ℕ}
    (destinationBound : destination < rows.length) (sourceBound : source < rows.length) :
    Packs width ((List.range width).foldl (addWord (destination * width) (source * width)) matrix)
      (rows.modify destination (· ||| rows.getD source 0)) := by
  rcases @addWords width matrix rows packs.length destination source width destinationBound
    (Nat.le_refl _) with ⟨length, read⟩
  refine ⟨by rw [length, packs.length, List.length_modify], ?_⟩
  intro row rowBound word wordBound
  rw [List.length_modify] at rowBound
  rw [read row word wordBound, getD_modify destinationBound,
    packs.words row rowBound word wordBound, packs.words source sourceBound word wordBound]
  by_cases here : destination = row
  · rw [if_pos ⟨here.symm, wordBound⟩, if_pos here, word_or]
  · rw [if_neg fun both => here both.1.symm, if_neg here]

variable {graph : HashGraph} {order : List Hash}

theorem wordsFor_wide {index length : ℕ} (bound : index < length) : index / 32 < wordsFor length := by
  unfold wordsFor
  omega

theorem Packs.addDependency {index : ℕ} (packs : Packs (wordsFor order.length) matrix rows)
    (length : rows.length = order.length) (bound : index < order.length) (dependency : Hash) :
    Packs (wordsFor order.length)
      (addDependency (indexOf order) (wordsFor order.length) index matrix dependency)
      (LegacyCausalityMatrix.addDependency (indexOf order) index rows dependency) := by
  unfold PackedMatrix.addDependency LegacyCausalityMatrix.addDependency
  cases found : indexOf order dependency with
  | none => exact packs
  | some source =>
    have sourceBound : source < order.length :=
      (List.getElem?_eq_some_iff.mp (getElem?_of_indexOf found)).1
    refine (packs.mark (length ▸ sourceBound) (wordsFor_wide sourceBound)).addRow ?_ ?_
    · rw [List.length_modify, length]
      exact bound
    · rw [List.length_modify, length]
      exact sourceBound

theorem packs_build (graph : HashGraph) (order : List Hash) :
    Packs (wordsFor order.length) (build graph order).matrix
        (buildRows graph order) ∧
      (buildRows graph order).length = order.length := by
  have start : Packs (wordsFor order.length)
      (List.replicate (order.length * wordsFor order.length) 0) (List.replicate order.length 0) := by
    refine ⟨by simp, fun row rowBound word wordBound => ?_⟩
    rw [List.length_replicate] at rowBound
    simp [List.getD_eq_getElem?_getD, rowBound, place_lt rowBound wordBound]
  refine @List.foldl_rel _ _ _ _ _ _ _ _ (fun matrix rows =>
    Packs (wordsFor order.length) matrix rows ∧ rows.length = order.length)
    ⟨start, List.length_replicate⟩ ?_
  intro entry mem matrix rows packed
  have bound : entry.2 < order.length :=
    (List.getElem?_eq_some_iff.mp (List.mem_zipIdx_iff_getElem?.mp mem)).1
  refine @List.foldl_rel _ _ _ _ _ _ _ _ (fun matrix rows =>
    Packs (wordsFor order.length) matrix rows ∧ rows.length = order.length) packed ?_
  rintro dependency _ matrix rows ⟨packs, length⟩
  refine ⟨packs.addDependency length bound dependency, ?_⟩
  rw [length_addDependency, length]

theorem has_build {row column : ℕ} (rowBound : row < order.length)
    (columnBound : column < order.length) :
    (build graph order).has row column =
      ((buildRows graph order).getD row 0).testBit column := by
  rcases packs_build graph order with ⟨packs, length⟩
  have read := BitSet.get_eq ⟨(build graph order).matrix⟩
    (32 * (row * wordsFor order.length) + column)
  rw [BitSet.get, Nat.mul_add_div (by decide), Nat.mul_add_mod] at read
  refine Eq.trans read ?_
  rw [packs.words row (length ▸ rowBound) (column / 32) (wordsFor_wide columnBound),
    BitVec.getLsbD_ofNat, Nat.testBit_shiftRight, Nat.div_add_mod]
  simp [Nat.mod_lt]

theorem areRelated_build (graph : HashGraph) (order : List Hash) (left right : Hash) :
    (build graph order).areRelated left right =
      (LegacyCausalityMatrix.build graph order).areRelated left right := by
  have bound : ∀ {hash index}, indexOf order hash = some index →
      index < order.length := fun found =>
    (List.getElem?_eq_some_iff.mp (getElem?_of_indexOf found)).1
  rw [areRelated, LegacyCausalityMatrix.areRelated, rowBit_build, rowBit_build, rowBit, rowBit]
  change (match indexOf order left, indexOf order right
    with | some leftIndex, some rightIndex => _ | _, _ => _) = _
  cases leftFound : indexOf order left with
  | none => cases indexOf order right <;> rfl
  | some leftIndex =>
    cases rightFound : indexOf order right with
    | none => rfl
    | some rightIndex =>
      simp only [has_build (bound leftFound) (bound rightFound),
        has_build (bound rightFound) (bound leftFound)]

end Packing

end PackedMatrix

namespace HashGraph

variable {graph : HashGraph}

/--
On the subgraphs that the applier linearizes two different members are related in the matrix if
and only if one is a causal ancestor of the other in the whole graph.  The subgraphs are a
causally closed set with the root as the origin, and what `collectSuffixSubgraph` returns for a
checkpoint.
-/
theorem causality_matrix_is_ancestry (wellFormed : graph.WellFormed) :
    (∀ members, graph.Past members →
      ∃ order, graph.dfsTopologicalSortIterative rootHash members = .ok order ∧
        ∀ left ∈ members, ∀ right ∈ members, left ≠ right →
          ((PackedMatrix.build graph order).areRelated left right = true ↔
            graph.Precedes left right ∨ graph.Precedes right left)) ∧
    ∀ boundary origin dependencies subgraph, graph.Cut boundary origin → dependencies ≠ [] →
      (∀ hash ∈ dependencies, hash ∈ graph.hashes) →
      graph.dependenciesCover dependencies boundary = true →
      graph.collectSuffixSubgraph dependencies boundary origin = some subgraph →
      ∃ order, graph.dfsTopologicalSortIterative origin subgraph = .ok order ∧
        ∀ left ∈ subgraph, ∀ right ∈ subgraph, left ≠ right →
          ((PackedMatrix.build graph order).areRelated left right = true ↔
            graph.Precedes left right ∨ graph.Precedes right left) := by
  have related : ∀ {order : List Hash}, CausalList graph order →
      ∀ left ∈ order, ∀ right ∈ order, left ≠ right →
        ((PackedMatrix.build graph order).areRelated left right = true ↔
          graph.Precedes left right ∨ graph.Precedes right left) := by
    intro order causal left leftMem right rightMem different
    rw [PackedMatrix.areRelated_build, LegacyCausalityMatrix.areRelated, Bool.or_eq_true,
      causal.bit_build leftMem rightMem, causal.bit_build rightMem leftMem]
    simp [different, different.symm, or_comm]
  refine ⟨fun members past => ?_, ?_⟩
  · rcases past.exists_dfs wellFormed with ⟨order, sorted, causalOrder⟩
    refine ⟨order, sorted, fun left leftMem right rightMem => ?_⟩
    exact related (past.causalList wellFormed causalOrder) left ((causalOrder.mem left).mpr leftMem)
      right ((causalOrder.mem right).mpr rightMem)
  · intro boundary origin dependencies subgraph cut nonempty present covers collected
    have barrier := cut.barrier wellFormed nonempty present covers collected
    rcases barrier.exists_orders wellFormed with ⟨order, rest, _, _, sorted, pastOrder, wholeOrder⟩
    have listed : ∀ hash ∈ subgraph, hash ∈ origin :: rest := by
      intro hash mem
      rw [List.mem_cons, pastOrder.mem_rest wholeOrder]
      exact (barrier.mem hash).mp mem
    refine ⟨origin :: rest, sorted, fun left leftMem right rightMem => ?_⟩
    exact related (barrier.causalList wellFormed pastOrder wholeOrder) left (listed left leftMem)
      right (listed right rightMem)

namespace ForkExample

open RedundantExample

def fork : HashGraph :=
  initial.addVertices [vertex "a" [rootHash], vertex "b" ["a"], vertex "c" ["a"]]

end ForkExample

open ForkExample in
theorem causality_matrix_is_ancestry_fork :
    fork.collectSuffixSubgraph ["b", "c"] ["a"] "a" = some ["a", "c", "b"] ∧
    ∃ order, fork.dfsTopologicalSortIterative "a" ["a", "c", "b"] = .ok order ∧
      ∀ left ∈ ["a", "c", "b"], ∀ right ∈ ["a", "c", "b"], left ≠ right →
        ((PackedMatrix.build fork order).areRelated left right = true ↔
          fork.Precedes left right ∨ fork.Precedes right left) := by
  have grown : fork.Grown := initial_wellFormed.extends_addVertices (by decide +kernel)
  have cut : fork.Cut ["a"] "a" := by
    refine ⟨by decide, by decide, by decide +kernel, fun first firstMem second secondMem => ?_⟩
    rw [List.mem_singleton.mp firstMem, List.mem_singleton.mp secondMem]
    exact grown.wellFormed.acyclic "a"
  have collected : fork.collectSuffixSubgraph ["b", "c"] ["a"] "a" = some ["a", "c", "b"] := by
    decide +kernel
  exact ⟨collected, (causality_matrix_is_ancestry grown.wellFormed).2 ["a"] "a" ["b", "c"] _ cut
    (by decide) (by decide +kernel) (by decide +kernel) collected⟩

end HashGraph

end TsDrp
