import Mathlib
import TensorKit.Proofs.Tensor.Selection
import TensorKit.Sparsity.Mask
/-!
# What the check of blocks decides

A matrix is cut into square blocks of `m` rows and columns, after it has been filled up with zeros.  The pattern that
blocks are meant to have is sparse both ways: at least `n` zeros in every row and at least `n` in every column.  The
check asks for less: it accepts a block that is sparse one way.

A filled matrix is the table of its entries (`padBoth_rows`), with zeros outside of it, so that a block is a square
window of the table (`block_padBoth`), and the rows that the check cuts the block into are the rows of the window
(`rowsOf_window`).  What is left is to turn "at most `m - n` entries are filled" into "at least `n` are zero"
(`filled_le_iff`).
-/

namespace TensorKit.Sparsity

open List

instance : Weight ℤ where
  zero := 0
  one := 1
  isZero x := x == 0
  abs x := |x|
  le x y := x ≤ y
  add := (· + ·)

variable {α : Type} {m : Nat} {a : Matrix α}

/-! ## 1. Filling up -/

theorem add_filling (hm : 0 < m) (k : Nat) : k + filling k m = k ⌈/⌉ m * m := by
  have hk := Nat.div_add_mod k m
  have hlt := Nat.mod_lt k hm
  rw [Nat.ceilDiv_eq_add_pred_div, filling]
  rcases Nat.eq_zero_or_pos (k % m) with hzero | hpos
  · have hquotient : (k + m - 1) / m = k / m := Nat.div_eq_of_lt_le (by rw [Nat.mul_comm]; omega)
      (by rw [Nat.succ_mul, Nat.mul_comm]; omega)
    rw [hquotient, hzero, Nat.sub_zero, Nat.mod_self, Nat.mul_comm]
    omega
  · have hquotient : (k + m - 1) / m = k / m + 1 := Nat.div_eq_of_lt_le (by rw [Nat.succ_mul, Nat.mul_comm]; omega)
      (by rw [Nat.succ_mul, Nat.succ_mul, Nat.mul_comm]; omega)
    rw [hquotient, Nat.mod_eq_of_lt (by omega), Nat.succ_mul, Nat.mul_comm (k / m)]
    omega

theorem padTo_eq_map {k : Nat} (x : α) {xs : List α} (h : xs.length ≤ k) :
    padTo k x xs = (range k).map fun i => xs[i]?.getD x := by
  have hlen : (padTo k x xs).length = k := by
    rw [padTo, length_append, length_replicate]
    omega
  apply ext_getElem
  · rw [hlen, length_map, length_range]
  · intro i hi _
    simp only [padTo, getElem_map, getElem_range, getElem_append]
    split
    next hin => rw [getElem?_eq_getElem hin, Option.getD_some]
    next hout => rw [getElem?_eq_none (Nat.le_of_not_lt hout), Option.getD_none, getElem_replicate]

namespace Matrix

def Rectangular (a : Matrix α) : Prop := ∀ row ∈ a.rows, row.length = a.width

instance (a : Matrix α) : Decidable a.Rectangular := inferInstanceAs (Decidable (∀ row ∈ a.rows, _))

theorem paddedWidth_div (a : Matrix α) (hm : 0 < m) : a.paddedWidth m / m = a.width ⌈/⌉ m := by
  rw [paddedWidth, add_filling hm, Nat.mul_div_cancel _ hm]

variable [Weight α]

/-- The entry in a row and a column, zero outside of the matrix. -/
def entry (a : Matrix α) (i j : Nat) : α := ((a.rows[i]?).bind fun row => row[j]?).getD Weight.zero

theorem padBoth_rows (ha : a.Rectangular) (hm : 0 < m) :
    (a.padBoth m).rows = (range (a.rows.length ⌈/⌉ m * m)).map fun i =>
      (range (a.width ⌈/⌉ m * m)).map (a.entry i) := by
  have hheight : (a.rows.map (padTo (a.paddedWidth m) Weight.zero)).length ≤ a.paddedHeight m := by
    rw [length_map]
    exact Nat.le_add_right ..
  rw [← add_filling hm, ← add_filling hm]
  refine (padTo_eq_map _ hheight).trans (map_congr_left fun i _ => ?_)
  rw [getElem?_map]
  cases hrow : a.rows[i]? with
  | none =>
    have hzero : a.entry i = fun _ => Weight.zero := funext fun j => by rw [entry, hrow]; rfl
    rw [hzero, map_const', length_range]
    rfl
  | some row =>
    have hlen : row.length ≤ a.paddedWidth m := by
      rw [ha row (mem_of_getElem? hrow)]
      exact Nat.le_add_right ..
    refine (padTo_eq_map _ hlen).trans (map_congr_left fun j _ => ?_)
    simp [entry, hrow]

/-! ## 2. Blocks -/

/-- The square of `m` rows and columns from a row and a column on, row by row. -/
def window (a : Matrix α) (m i j : Nat) : List (List α) :=
  (range m).map fun r => (range m).map fun c => a.entry (i + r) (j + c)

theorem take_drop_map_range {β : Type} (f : Nat → β) {k lo m : Nat} (h : lo + m ≤ k) :
    (((range k).map f).drop lo).take m = (range m).map fun i => f (lo + i) := by
  apply ext_getElem
  · simp
    omega
  · intro i _ _
    simp

theorem add_one_mul_le {i k : Nat} (h : i < k) (m : Nat) : i * m + m ≤ k * m := by
  rw [← Nat.succ_mul]
  exact Nat.mul_le_mul_right m h

/-- A block of a table. -/
theorem block_table {β : Type} {b : Matrix β} {H W m I J : Nat} {f : Nat → Nat → β}
    (hb : b.rows = (range (H * m)).map fun i => (range (W * m)).map (f i)) (hI : I < H) (hJ : J < W) :
    b.block m I J = ((range m).map fun r => (range m).map fun c => f (I * m + r) (J * m + c)).flatten := by
  rw [block, hb, take_drop_map_range _ (add_one_mul_le hI m), flatMap_map, flatMap_def]
  congr 1
  exact map_congr_left fun r _ => take_drop_map_range _ (add_one_mul_le hJ m)

theorem block_padBoth (ha : a.Rectangular) {m I J : Nat} (hm : 0 < m) (hI : I < a.rows.length ⌈/⌉ m)
    (hJ : J < a.width ⌈/⌉ m) : (a.padBoth m).block m I J = (a.window m (I * m) (J * m)).flatten :=
  block_table (padBoth_rows ha hm) hI hJ

theorem blocks_eq (ha : a.Rectangular) (hm : 0 < m) : a.blocks m = (range (a.rows.length ⌈/⌉ m)).flatMap fun I =>
    (range (a.width ⌈/⌉ m)).map fun J => (a.window m (I * m) (J * m)).flatten := by
  have hrows : (a.padBoth m).rows.length / m = a.rows.length ⌈/⌉ m := by
    rw [padBoth_rows ha hm, length_map, length_range, Nat.mul_div_cancel _ hm]
  simp only [blocks, hrows, show (a.padBoth m).width / m = _ from a.paddedWidth_div hm]
  exact flatMap_congr fun I hI => map_congr_left fun J hJ =>
    block_table (padBoth_rows ha hm) (mem_range.mp hI) (mem_range.mp hJ)

theorem mem_blocks (ha : a.Rectangular) (hm : 0 < m) {xs : List α} :
    xs ∈ a.blocks m ↔ ∃ I < a.rows.length ⌈/⌉ m, ∃ J < a.width ⌈/⌉ m, (a.window m (I * m) (J * m)).flatten = xs := by
  simp only [blocks_eq ha hm, mem_flatMap, mem_map, mem_range]

theorem rowsOf_window {β : Type} (f : α → β) (a : Matrix α) (m i j : Nat) :
    Tensor.rowsOf m m ((a.window m i j).flatten.map f) = (range m).map fun r =>
      (range m).map fun c => f (a.entry (i + r) (j + c)) := by
  let row (r : Nat) : List β := (range m).map fun c => f (a.entry (i + r) (j + c))
  have hlisted : (a.window m i j).flatten.map f = (range m).flatMap row := by
    rw [window, map_flatten, map_map, flatMap_def]
    congr 1
    refine map_congr_left fun r _ => ?_
    simp [row]
  rw [hlisted, flatMap_def, Tensor.rowsOf_flatten (by simp) (by simp [row])]

/-! ## 3. Sparse rows and columns -/

variable (a : Matrix α) (n : Int) (m I J : Nat)

def zerosAlong (i j : Nat) : Nat := (range m).countP fun c => Weight.isZero (a.entry i (j + c))

def zerosDown (i j : Nat) : Nat := (range m).countP fun r => Weight.isZero (a.entry (i + r) j)

def RowsSparse : Prop := ∀ r < m, n ≤ a.zerosAlong m (I * m + r) (J * m)

def ColumnsSparse : Prop := ∀ c < m, n ≤ a.zerosDown m (I * m) (J * m + c)

/-- Every row and every column of every block has at least `n` zeros. -/
def HasPattern : Prop :=
  ∀ I < a.rows.length ⌈/⌉ m, ∀ J < a.width ⌈/⌉ m, a.RowsSparse n m I J ∧ a.ColumnsSparse n m I J

instance : Decidable (a.RowsSparse n m I J) := inferInstanceAs (Decidable (∀ r < m, _))

instance : Decidable (a.ColumnsSparse n m I J) := inferInstanceAs (Decidable (∀ c < m, _))

instance : Decidable (a.HasPattern n m) := inferInstanceAs (Decidable (∀ I < _, ∀ J < _, _ ∧ _))

end Matrix

theorem filled_le_iff (n : Int) (m : Nat) (isZero : Nat → Bool) :
    ((range m).countP (fun k => !isZero k) : Int) ≤ m - n ↔ n ≤ (range m).countP isZero := by
  have hsplit := length_eq_countP_add_countP isZero (l := range m)
  simp only [length_range, decide_not, Bool.decide_eq_true] at hsplit
  omega

variable [Weight α]

theorem checkBlock_window (a : Matrix α) (n : Int) (m I J : Nat) :
    checkBlock n m (a.window m (I * m) (J * m)).flatten ↔ a.RowsSparse n m I J ∨ a.ColumnsSparse n m I J := by
  have hrow (r : Nat) :
      (((range m).map fun c => !Weight.isZero (a.entry (I * m + r) (J * m + c))).count true : Int) ≤ m - n ↔
        n ≤ a.zerosAlong m (I * m + r) (J * m) := by
    rw [count, countP_map]
    simp only [Function.comp_def, beq_true]
    exact filled_le_iff n m _
  have hcolumn (c : Nat) (hc : c < m) : (((range m).map fun r => (range m).map fun c =>
      !Weight.isZero (a.entry (I * m + r) (J * m + c))).countP (fun row => row[c]?.getD false) : Int) ≤ m - n ↔
      n ≤ a.zerosDown m (I * m) (J * m + c) := by
    rw [countP_map]
    refine Iff.trans ?_ (filled_le_iff n m _)
    simp [Function.comp_def, hc]
  rw [checkBlock, Bool.or_eq_true, Matrix.rowsOf_window]
  refine or_congr ?_ ?_
  · simp only [all_map, all_eq_true, mem_range, Function.comp_apply, decide_eq_true_eq, hrow]
    rfl
  · simp only [columnCounts, all_map, all_eq_true, mem_range, Function.comp_apply, decide_eq_true_eq]
    exact forall₂_congr hcolumn

/-! ## 4. The check -/

theorem all_checkBlock_iff (ha : a.Rectangular) (n : Int) (hm : 0 < m) : (a.blocks m).all (checkBlock n m) ↔
      ∀ I < a.rows.length ⌈/⌉ m, ∀ J < a.width ⌈/⌉ m, a.RowsSparse n m I J ∨ a.ColumnsSparse n m I J := by
  rw [all_eq_true]
  constructor
  · intro hall I hI J hJ
    exact (checkBlock_window a n m I J).mp (hall _ ((Matrix.mem_blocks ha hm).mpr ⟨I, hI, J, hJ, rfl⟩))
  · intro hall xs hxs
    obtain ⟨I, hI, J, hJ, rfl⟩ := (Matrix.mem_blocks ha hm).mp hxs
    exact (checkBlock_window a n m I J).mpr (hall I hI J hJ)

theorem check2_eq_ok (a : Matrix α) (n : Int) (hm : 2 ≤ m) :
    check2 a n m = .ok ((a.blocks m).all (checkBlock n m)) := by
  have hmany : m ≠ 1 := by omega
  simp [check2, hmany]

/-- **The check accepts a matrix if every block is sparse by rows or sparse by columns.**  This holds for weights of every
type, whole and floating numbers among them.  So it accepts every matrix with the pattern; but of the matrices that it
accepts only those have the pattern whose blocks are sparse by rows exactly where they are sparse by columns. -/
theorem check2_accepts_iff {a : Matrix α} (ha : a.Rectangular) (n : Int) {m : Nat} (hm : 2 ≤ m) :
    ∃ answer, check2 a n m = .ok answer ∧ (answer = true ↔
        ∀ I < a.rows.length ⌈/⌉ m, ∀ J < a.width ⌈/⌉ m, a.RowsSparse n m I J ∨ a.ColumnsSparse n m I J) ∧
      (a.HasPattern n m → answer = true) ∧ (answer = true → (a.HasPattern n m ↔
        ∀ I < a.rows.length ⌈/⌉ m, ∀ J < a.width ⌈/⌉ m, (a.RowsSparse n m I J ↔ a.ColumnsSparse n m I J))) := by
  have haccepts := all_checkBlock_iff ha n (Nat.zero_lt_of_lt hm)
  refine ⟨_, check2_eq_ok a n hm, haccepts, ?_, ?_⟩
  · intro hpattern
    exact haccepts.mpr fun I hI J hJ => Or.inl (hpattern I hI J hJ).1
  · intro haccepted
    have hone := haccepts.mp haccepted
    constructor
    · intro hpattern I hI J hJ
      obtain ⟨hrows, hcolumns⟩ := hpattern I hI J hJ
      exact ⟨fun _ => hcolumns, fun _ => hrows⟩
    · intro hboth I hI J hJ
      rcases hone I hI J hJ with hrows | hcolumns
      · exact ⟨hrows, (hboth I hI J hJ).mp hrows⟩
      · exact ⟨(hboth I hI J hJ).mpr hcolumns, hcolumns⟩

/-- A block with a full row above a row of zeros is accepted, without having the pattern. -/
theorem check2_accepts_full_row :
    check2 (⟨2, [[1, 1], [0, 0]]⟩ : Matrix ℤ) 1 2 = .ok true ∧ ¬(⟨2, [[1, 1], [0, 0]]⟩ : Matrix ℤ).HasPattern 1 2 := by
  have hrectangular : (⟨2, [[1, 1], [0, 0]]⟩ : Matrix ℤ).Rectangular := by decide
  obtain ⟨answer, hcheck, haccepts, -, -⟩ := check2_accepts_iff hrectangular 1 (le_refl 2)
  have htrue : answer = true := haccepts.mpr (by decide)
  exact ⟨htrue ▸ hcheck, by decide⟩

end TensorKit.Sparsity
