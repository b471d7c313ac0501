import TensorKit.Proofs.Sparsity.GreedyMask
/-!
# In every block the greedy mask is feasible and maximal

The positions of a block are seen from the largest absolute value down.  When one is dropped, its row or its column is
full, and what is kept there has been seen before.  Nothing is added to it later (`mem_of_full`), so in the end a dropped
entry stands beside `n` kept ones that are at least as large (`full_of_dropped`).

The mask of a matrix is put together from the masks of its blocks and cut to size.  Before it is cut, cutting it into
blocks gives these masks back (`block_ofEntries`).
-/

namespace TensorKit.Sparsity

open List

open Function (swap)

variable {m n : Nat} {kept : List Nat}

/-! ## 1. What is dropped -/

theorem prefix_foldl_keepStep : ∀ ks kept : List Nat, kept <+: ks.foldl (keepStep n m) kept
  | [], _ => prefix_rfl
  | k :: ks, kept => by
    refine IsPrefix.trans ?_ (prefix_foldl_keepStep ks _)
    rw [keepStep_eq]
    split
    · exact prefix_rfl
    · exact prefix_append ..

/-- A row or a column that is full gets nothing more. -/
theorem mem_of_full {final : List Nat} {p : Nat → Bool} (hstart : kept <+: final) (hfull : kept.countP p = n)
    (hle : final.countP p ≤ n) : ∀ k ∈ final, p k → k ∈ kept := by
  obtain ⟨later, rfl⟩ := hstart
  rw [countP_append] at hle
  have hnone := countP_eq_zero.mp (show later.countP p = 0 by omega)
  intro k hk hpk
  exact (mem_append.mp hk).resolve_right fun hlater => hnone k hlater hpk

/-- Kept positions that have a property are `n` and have values of at least `x`. -/
def FullAbove (n : Nat) (v : Nat → ℚ) (x : ℚ) (kept : List Nat) (p : Nat → Bool) : Prop :=
  kept.countP p = n ∧ ∀ k ∈ kept, p k → x ≤ v k

theorem full_of_dropped {v : Nat → ℚ} {ks : List Nat} (hdown : ks.Pairwise fun i j => v j ≤ v i) {k : Nat} (hk : k ∈ ks)
    (hdropped : k ∉ ks.foldl (keepStep n m) []) :
    FullAbove n v (v k) (ks.foldl (keepStep n m) []) (· / m == k / m) ∨
      FullAbove n v (v k) (ks.foldl (keepStep n m) []) (· % m == k % m) := by
  obtain ⟨hrows, hcolumns⟩ := And.intro (Chosen.nil.foldl ks).row_le (Chosen.nil.foldl (n := n) (m := m) ks).column_le
  obtain ⟨before, after, rfl⟩ := append_of_mem hk
  have hbefore := (Chosen.nil.foldl (n := n) (m := m) before).sublist.subset
  rw [foldl_append, foldl_cons] at hdropped hrows hcolumns ⊢
  generalize before.foldl (keepStep n m) [] = kept at *
  have hlarge : ∀ x ∈ kept, v k ≤ v x := fun x hx => (pairwise_append.mp hdown).2.2 x (hbefore hx) k mem_cons_self
  have hlater := prefix_foldl_keepStep (n := n) (m := m) after (keepStep n m kept k)
  rw [keepStep_eq] at hlater hdropped hrows hcolumns ⊢
  split at hlater
  next hfull =>
    rw [if_pos hfull] at hdropped hrows hcolumns ⊢
    have habove {p : Nat → Bool} (hp : kept.countP p = n) (hle : (after.foldl (keepStep n m) kept).countP p ≤ n) :
        FullAbove n v (v k) (after.foldl (keepStep n m) kept) p :=
      ⟨hle.antisymm (hp.symm.trans_le hlater.sublist.countP_le), fun x hx hpx => hlarge x (mem_of_full hlater hp hle x hx hpx)⟩
    exact hfull.imp (habove · (hrows _)) (habove · (hcolumns _))
  next hroom =>
    rw [if_neg hroom] at hdropped
    exact absurd (hlater.subset (mem_append_right _ (mem_singleton_self k))) hdropped

/-! ## 2. Blocks -/

/-- The entry of a block in a row and a column. -/
def cell {α : Type} (m : Nat) (xs : List α) (default : α) (r c : Nat) : α := xs[r * m + c]?.getD default

/-- A choice with at most `n` places in a row or a column, where every other place has `n` chosen ones in its row or in
its column, with absolute values that are not smaller than its own. -/
structure Maximal (n m : Nat) (v : Nat → Nat → ℚ) (K : Nat → Nat → Bool) : Prop where
  row_le : ∀ r < m, rowCount m K r ≤ n
  column_le : ∀ c < m, rowCount m (swap K) c ≤ n
  dropped : ∀ r < m, ∀ c < m, K r c = false →
    (rowCount m K r = n ∧ ∀ d < m, K r d → |v r c| ≤ |v r d|) ∨
      rowCount m (swap K) c = n ∧ ∀ q < m, K q c → |v r c| ≤ |v q c|

variable {order : List ℚ → List Nat} {xs : List ℚ}

/-- What is kept of a block, whatever the order of equal entries. -/
theorem chosen_greedyKept (horder : Sorts order) (n : Nat) (hxs : xs.length = m * m) :
    ∃ seen : List Nat, seen.Perm (range (m * m)) ∧ (seen.Pairwise fun i j => |xs[j]?.getD 0| ≤ |xs[i]?.getD 0|) ∧
      greedyKept order n m xs = seen.foldl (keepStep n m) [] := by
  obtain ⟨hperm, hup⟩ := horder (xs.map Weight.abs)
  rw [length_map, hxs] at hperm
  have habs (i : Nat) : (xs.map Weight.abs)[i]?.getD 0 = |xs[i]?.getD 0| := by
    rw [getElem?_map]
    cases xs[i]? <;> simp [Weight.abs]
  simp only [habs] at hup
  exact ⟨_, (reverse_perm _).trans hperm, pairwise_reverse.mpr hup, rfl⟩

theorem maximal_blockMask (horder : Sorts order) (n : Nat) (hm : 0 < m) (hxs : xs.length = m * m) :
    Maximal n m (cell m xs 0) (cell m (blockMask order n m xs) false) := by
  obtain ⟨seen, hseen, hdown, hgreedy⟩ := chosen_greedyKept horder n hxs
  have hchosen := Chosen.nil.foldl (n := n) (m := m) seen
  have hsaturated := hchosen.saturated hseen hm
  have hnodup := hchosen.sublist.nodup (hseen.nodup_iff.mpr nodup_range)
  have hlt : ∀ k ∈ seen.foldl (keepStep n m) [], k < m * m := fun k hk =>
    mem_range.mp (hseen.mem_iff.mp (hchosen.sublist.subset hk))
  have hcell : cell m (blockMask order n m xs) false = fun r c => (seen.foldl (keepStep n m) []).elem (r * m + c) := by
    funext r c
    rw [cell, blockMask, hxs, ← hgreedy]
    by_cases hin : r * m + c < m * m
    · simp [hin]
    · have hout : r * m + c ∉ greedyKept order n m xs := fun hk => hin (hlt _ (hgreedy ▸ hk))
      simp [hin, hout]
  rw [hcell]
  refine ⟨hsaturated.row_le, hsaturated.column_le, fun r hr c hc hdropped => ?_⟩
  have hfull := full_of_dropped hdown (hseen.mem_iff.mpr (mem_range.mpr (mul_add_lt hr hc))) (by simpa using hdropped)
  rw [mul_add_div_of_lt r hc, Nat.mul_add_mod_of_lt hc] at hfull
  refine hfull.imp ?_ ?_
  · rintro ⟨hcount, hlarge⟩
    refine ⟨(rowCount_elem hnodup hm r).trans hcount, fun d hd hkept => ?_⟩
    exact hlarge _ (by simpa using hkept) (beq_of_eq (mul_add_div_of_lt r hd))
  · rintro ⟨hcount, hlarge⟩
    refine ⟨(rowCount_swap_elem hnodup hlt hc).trans hcount, fun q hq hkept => ?_⟩
    exact hlarge _ (by simpa using hkept) (beq_of_eq (Nat.mul_add_mod_of_lt hc))

/-! ## 3. The whole mask -/

theorem blockMask_window (order : List ℚ → List Nat) (n m : Nat) (a : Matrix ℚ) (I J : Nat) :
    blockMask order n m (a.window m (I * m) (J * m)).flatten =
      ((range m).map fun r => (range m).map fun c => keepsIn order n m a I J r c).flatten := by
  rw [blockMask, length_window, Tensor.range_mul, map_flatMap, flatMap_def]
  simp only [map_map]
  rfl

/-- **The greedy mask is feasible and maximal in every block.**  It is the upper left part of a mask with whole blocks.
These are the masks of the blocks of the matrix, filled up with zeros: each keeps at most `n` entries in a row or a
column, and an entry that it drops has `n` kept entries in its row or its column that are not smaller. -/
theorem maskGreedy_maximal {order : List ℚ → List Nat} (horder : Sorts order) {a : Matrix ℚ} (ha : a.Rectangular) (n : Nat)
    {m : Nat} (hm : 2 ≤ m) : ∃ whole : Matrix Bool, whole.Rectangular ∧
      whole.rows.length = a.rows.length ⌈/⌉ m * m ∧ whole.width = a.width ⌈/⌉ m * m ∧
      maskGreedy order a n m = .ok ⟨a.width, (whole.rows.take a.rows.length).map (take a.width)⟩ ∧
      ∀ I < a.rows.length ⌈/⌉ m, ∀ J < a.width ⌈/⌉ m,
        whole.block m I J = blockMask order n m ((a.padBoth m).block m I J) ∧
        Maximal n m (cell m ((a.padBoth m).block m I J) 0) (cell m (whole.block m I J) false) := by
  have hpos : 0 < m := by omega
  let K (i j : Nat) : Bool := keepsIn order n m a (i / m) (j / m) (i % m) (j % m)
  refine ⟨.ofEntries (a.rows.length ⌈/⌉ m * m) (a.width ⌈/⌉ m * m) K, Matrix.rectangular_ofEntries _ _ _, by simp, rfl, ?_, ?_⟩
  · simp only [maskGreedy_eq order n ha hm, Matrix.ofEntries, ← map_take, take_range, map_map, Function.comp_def,
      Nat.min_eq_left (le_ceilDiv_mul _ hpos)]
    rfl
  · intro I hI J hJ
    have hblock : (Matrix.ofEntries (a.rows.length ⌈/⌉ m * m) (a.width ⌈/⌉ m * m) K).block m I J =
        blockMask order n m ((a.padBoth m).block m I J) := by
      rw [Matrix.block_padBoth ha hpos hI hJ, blockMask_window, Matrix.block_table rfl hI hJ]
      congr 1
      refine map_congr_left fun r hr => map_congr_left fun c hc => ?_
      have hr := mem_range.mp hr
      have hc := mem_range.mp hc
      simp only [K, mul_add_div_of_lt _ hr, mul_add_div_of_lt _ hc, Nat.mul_add_mod_of_lt hr, Nat.mul_add_mod_of_lt hc]
    refine ⟨hblock, hblock ▸ maximal_blockMask horder n hpos ?_⟩
    rw [Matrix.block_padBoth ha hpos hI hJ, length_window]

/-- The second block of this matrix is filled up, and two of its entries have the same size. -/
theorem maskGreedy_maximal_filled : ∃ whole : Matrix Bool,
    maskGreedy sortedPositions (⟨3, [[5, 4, 1], [6, 2, -1]]⟩ : Matrix ℚ) 1 2 =
      .ok ⟨3, (whole.rows.take 2).map (take 3)⟩ ∧
    whole.block 2 0 1 = blockMask sortedPositions 1 2 [(1 : ℚ), 0, -1, 0] ∧
      Maximal 1 2 (cell 2 [1, 0, -1, 0] 0) (cell 2 (whole.block 2 0 1) false) := by
  obtain ⟨whole, -, -, -, hmask, hblocks⟩ := maskGreedy_maximal sorts_sortedPositions
    (a := ⟨3, [[5, 4, 1], [6, 2, -1]]⟩) (by decide) 1 (le_refl 2)
  exact ⟨whole, hmask, hblocks 0 (by decide) 1 (by decide)⟩

end TensorKit.Sparsity
