import TensorKit.Proofs.Sparsity.GreedyMask
/-!
# The best mask beside the greedy one

The best mask takes for every block the pattern with the largest sum, out of the patterns that keep `n` entries in every
row, at most `n` in every column, and no row more than twice.  So it keeps at least as much as the greedy mask if the
entries are not negative and the greedy choices are patterns themselves (`Fits`).  For `n = 1` they always are.
-/

namespace TensorKit.Sparsity

open List

open Function (swap)

variable {n m : Nat} {K : Nat → Nat → Bool}

/-! ## 1. The patterns -/

/-- The rows of a choice. -/
def choiceRows (m k : Nat) (K : Nat → Nat → Bool) : List (List Bool) :=
  (range k).map fun i => (range m).map (K i)

/-- A choice that is a pattern. -/
structure Fits (n m : Nat) (K : Nat → Nat → Bool) : Prop where
  row : ∀ i < m, rowCount m K i = n
  column_le : ∀ j < m, rowCount m (swap K) j ≤ n
  twice : ∀ r, (choiceRows m m K).count r ≤ 2

theorem countP_choiceRows (K : Nat → Nat → Bool) {j : Nat} (hj : j < m) :
    (choiceRows m m K).countP (fun r => r[j]?.getD false) = rowCount m (swap K) j := by
  rw [choiceRows, countP_map, rowCount]
  exact countP_congr fun i _ => by simp [hj]

theorem mem_rowPatterns : ∀ r, r ∈ rowPatterns r.length (r.count true)
  | [] => by simp [rowPatterns]
  | true :: r => by
    rw [count_cons_self, length_cons, rowPatterns]
    exact mem_append_right _ (mem_map_of_mem (mem_rowPatterns r))
  | false :: r => by
    have hr := mem_rowPatterns r
    rw [count_cons_of_ne (by decide), length_cons]
    cases hcount : r.count true with
    | zero => exact mem_map_of_mem (hcount ▸ hr)
    | succ k => exact mem_append_left _ (mem_map_of_mem (hcount ▸ hr))

/-- **Run lemma**: the rows of a pattern are found one after the other. -/
theorem Fits.mem_boundedRowLists (h : Fits n m K) : ∀ {k}, k ≤ m →
    choiceRows m k K ∈ boundedRowLists m n (rowPatterns m n) k
  | 0, _ => mem_singleton_self _
  | k + 1, hk => by
    have hsub : (choiceRows m (k + 1) K).Sublist (choiceRows m m K) := (range_sublist.mpr hk).map _
    have hsplit : choiceRows m (k + 1) K = choiceRows m k K ++ [(range m).map (K k)] := by simp [choiceRows, range_succ]
    have hrow : (range m).map (K k) ∈ rowPatterns m n := by
      have hcount : ((range m).map (K k)).count true = n := by
        rw [← h.row k hk, rowCount, count_eq_countP, countP_map]
        exact countP_congr fun j _ => by simp
      simpa [hcount] using mem_rowPatterns ((range m).map (K k))
    refine mem_flatMap.mpr ⟨_, h.mem_boundedRowLists (by omega), mem_filter.mpr ⟨?_, all_eq_true.mpr fun c hc => ?_⟩⟩
    · refine mem_map.mpr ⟨_, mem_filter.mpr ⟨hrow, ?_⟩, hsplit.symm⟩
      have hle := (hsub.count_le ((range m).map (K k))).trans (h.twice _)
      rw [hsplit, count_append, count_singleton_self] at hle
      exact decide_eq_true (by omega)
    · obtain ⟨j, hj, rfl⟩ := mem_map.mp hc
      have hj := mem_range.mp hj
      have hle := hsub.countP_le.trans ((countP_choiceRows K hj).trans_le (h.column_le j hj))
      exact decide_eq_true (by omega)

theorem Fits.mem_patterns (h : Fits n m K) (hnm : n ≤ m) {ps : List (List Bool)} (hps : patterns n m = .ok ps) :
    (choiceRows m m K).flatten ∈ ps := by
  have hkept : keptPerRow n m = n := by simp [keptPerRow, hnm]
  simp only [patterns, hkept] at hps
  split at hps
  · cases hps
  · cases hps
    exact mem_map_of_mem (h.mem_boundedRowLists le_rfl)

/-- With one place in every row and column all rows are full and differ. -/
theorem Saturated.fits (h : Saturated 1 m K) : Fits 1 m K := by
  have hrow : ∀ i < m, rowCount m K i = 1 := by
    intro i hi
    by_contra hfew
    refine hfew (h.rows_full (fun j hj => ?_) i hi)
    refine ((h.full i hi j hj).resolve_left fun hkept => ?_).resolve_left hfew
    have hpos : 0 < rowCount m K i := countP_pos_iff.mpr ⟨j, mem_range.mpr hj, hkept⟩
    have hle := h.row_le i hi
    omega
  refine ⟨hrow, h.column_le, fun r => ?_⟩
  by_cases hr : r ∈ choiceRows m m K
  · obtain ⟨i, hi, rfl⟩ := mem_map.mp hr
    obtain ⟨c, hc, hkept⟩ := countP_pos_iff.mp ((hrow i (mem_range.mp hi)).symm ▸ Nat.one_pos)
    have hc := mem_range.mp hc
    have hle : (choiceRows m m K).count ((range m).map (K i)) ≤ rowCount m (swap K) c := by
      rw [← countP_choiceRows K hc, count_eq_countP]
      refine countP_mono_left fun r _ hr => ?_
      rw [eq_of_beq hr]
      simpa [hc] using hkept
    have := h.column_le c hc
    omega
  · rw [count_eq_zero_of_not_mem hr]
    omega

/-! ## 2. The best pattern -/

/-- **Run lemma** of the search: no pattern that has been seen has a larger sum. -/
theorem keptSum_le_foldl (xs : List ℚ) (ps : List (List Bool)) (p : List Bool) : ∀ q ∈ p :: ps, keptSum xs q ≤
    keptSum xs (ps.foldl (fun best q => if Weight.le (keptSum xs q) (keptSum xs best) then best else q) p) := by
  induction ps generalizing p with
  | nil => simp
  | cons r ps ih =>
    rw [foldl_cons]
    split
    next hle =>
      have hle := of_decide_eq_true hle
      have hp := ih p
      grind
    next hlt =>
      have hle : keptSum xs p ≤ keptSum xs r := le_of_not_ge fun hle => hlt (decide_eq_true hle)
      have hr := ih r
      grind

theorem keptSum_le_bestPattern (xs : List ℚ) {ps : List (List Bool)} {q : List Bool} (hq : q ∈ ps) :
    keptSum xs q ≤ keptSum xs ((bestPattern xs ps).getD []) := by
  cases ps with
  | nil => cases hq
  | cons p ps => exact keptSum_le_foldl xs ps p q hq

/-- The sum of what a pattern keeps, place by place. -/
theorem keptSum_eq (xs : List ℚ) (p : List Bool) : keptSum xs p =
    ∑ k ∈ Finset.range xs.length, xs[k]?.getD 0 * markOf (p[k]?.getD false) := by
  have hsum : keptSum xs p = ((xs.zip p).map fun z => z.1 * markOf z.2).sum := by
    rw [keptSum, sum_eq_foldl, foldl_map]
    refine foldl_ext _ _ _ fun s z _ => ?_
    cases hz : z.2 <;> simp [markOf, Weight.add, hz]
  rw [hsum]
  clear hsum
  induction xs generalizing p with
  | nil => rfl
  | cons x xs ih =>
    cases p with
    | nil => simp [markOf]
    | cons keep p => simp [Finset.sum_range_succ', ih, add_comm]

theorem getElem?_square {α : Type} (f : Nat → Nat → α) {r c : Nat} (hr : r < m) (hc : c < m) :
    ((range m).map fun r => (range m).map (f r)).flatten[r * m + c]? = some (f r c) := by
  rw [← flatMap_def, Tensor.getElem?_flatMap_blocks (by simp) hc]
  simp [hr, hc]

theorem keptSum_window (a : Matrix ℚ) (m i j : Nat) (p : List Bool) : keptSum (a.window m i j).flatten p =
    ∑ r ∈ Finset.range m, ∑ c ∈ Finset.range m, a.entry (i + r) (j + c) * markOf (p[r * m + c]?.getD false) := by
  rw [keptSum_eq, length_window, sum_range_mul]
  refine Finset.sum_congr rfl fun r hr => Finset.sum_congr rfl fun c hc => ?_
  rw [Matrix.window, getElem?_square _ (Finset.mem_range.mp hr) (Finset.mem_range.mp hc)]
  rfl

/-! ## 3. Whole masks -/

/-- The sum of the absolute values of the entries that a mask keeps. -/
def keptAbs (a : Matrix ℚ) (mask : Matrix Bool) : ℚ := ∑ i ∈ Finset.range a.rows.length, ∑ j ∈ Finset.range a.width,
  |a.entry i j| * markOf ((mask.rows[i]?.bind fun row => row[j]?).getD false)

/-- What a mask keeps, block by block.  The entries that fill up the last blocks are zero. -/
theorem keptAbs_ofEntries {a : Matrix ℚ} (ha : a.Rectangular) (hm : 0 < m) (F : Nat → Nat → Bool) :
    keptAbs a (.ofEntries a.rows.length a.width F) =
      ∑ I ∈ Finset.range (a.rows.length ⌈/⌉ m), ∑ J ∈ Finset.range (a.width ⌈/⌉ m), ∑ r ∈ Finset.range m,
        ∑ c ∈ Finset.range m, |a.entry (I * m + r) (J * m + c)| * markOf (F (I * m + r) (J * m + c)) := by
  have hcolumns (i : Nat) (hi : i ∈ Finset.range a.rows.length) : ∑ j ∈ Finset.range a.width, |a.entry i j| *
      markOf (((Matrix.ofEntries a.rows.length a.width F).rows[i]?.bind fun row => row[j]?).getD false) =
      ∑ J ∈ Finset.range (a.width ⌈/⌉ m), ∑ c ∈ Finset.range m, |a.entry i (J * m + c)| * markOf (F i (J * m + c)) := by
    rw [← sum_range_mul fun j => |a.entry i j| * markOf (F i j), ← Finset.sum_subset
      (Finset.range_mono (le_ceilDiv_mul a.width hm)) fun j _ hj => ?_]
    · refine Finset.sum_congr rfl fun j hj => ?_
      simp [Matrix.ofEntries, Finset.mem_range.mp hi, Finset.mem_range.mp hj]
    · have hzero : a.entry i j = 0 := Matrix.entry_of_width_le ha i (by simpa using hj)
      simp [hzero]
  rw [keptAbs, Finset.sum_congr rfl hcolumns, Finset.sum_subset (Finset.range_mono (le_ceilDiv_mul a.rows.length hm))
    fun i _ hi => ?_, sum_range_mul]
  · exact Finset.sum_congr rfl fun I _ => Finset.sum_comm
  · have hi : a.rows.length ≤ i := by simpa using hi
    simp [Matrix.entry, getElem?_eq_none hi, Weight.zero]

/-- **The best mask keeps at least as much as the greedy one** where the greedy choices are patterns. -/
theorem keptAbs_greedy_le_best {order : List ℚ → List Nat} (horder : Lists order) {a : Matrix ℚ} (ha : a.Rectangular)
    (hpos : ∀ row ∈ a.rows, ∀ x ∈ row, 0 ≤ x) (hn : 1 ≤ n) (hm : n < m) {g b : Matrix Bool}
    (hg : maskGreedy order a n m = .ok g) (hb : maskBest a n m = .ok b)
    (hfits : n = 1 ∨ ∀ I < a.rows.length ⌈/⌉ m, ∀ J < a.width ⌈/⌉ m, Fits n m (keepsIn order n m a I J)) :
    keptAbs a g ≤ keptAbs a b := by
  have hpositive : 0 < m := by omega
  have hfit : ∀ I < a.rows.length ⌈/⌉ m, ∀ J < a.width ⌈/⌉ m, Fits n m (keepsIn order n m a I J) := by
    rcases hfits with rfl | hfits
    · exact fun I _ J _ => (saturated_keepsIn horder 1 hpositive a I J).fits
    · exact hfits
  have hentry (i j : Nat) : 0 ≤ a.entry i j := by
    rw [Matrix.entry]
    cases hx : a.rows[i]?.bind fun row => row[j]? with
    | none => exact le_rfl
    | some x =>
      obtain ⟨row, hrow, hx⟩ := Option.bind_eq_some_iff.mp hx
      exact hpos row (mem_of_getElem? hrow) x (mem_of_getElem? hx)
  rw [maskGreedy_eq order n ha (by omega)] at hg
  obtain rfl := Except.ok.inj hg
  obtain ⟨ps, hps, hb⟩ := of_bind_eq_ok hb
  dsimp only at hb
  split at hb
  · cases hb
  obtain rfl := Except.ok.inj hb
  rw [ofBlocks_map ha hpositive, keptAbs_ofEntries ha hpositive, keptAbs_ofEntries ha hpositive]
  refine Finset.sum_le_sum fun I hI => Finset.sum_le_sum fun J hJ => ?_
  have hbest := keptSum_le_bestPattern (a.window m (I * m) (J * m)).flatten
    ((hfit I (Finset.mem_range.mp hI) J (Finset.mem_range.mp hJ)).mem_patterns hm.le hps)
  rw [keptSum_window, keptSum_window] at hbest
  refine le_of_eq_of_le ?_ (hbest.trans_eq ?_)
  all_goals
    refine Finset.sum_congr rfl fun r hr => Finset.sum_congr rfl fun c hc => ?_
    have hr := Finset.mem_range.mp hr
    have hc := Finset.mem_range.mp hc
    simp only [abs_of_nonneg (hentry _ _), mul_add_div_of_lt _ hr, mul_add_div_of_lt _ hc, Nat.mul_add_mod_of_lt hr,
      Nat.mul_add_mod_of_lt hc]
  rw [choiceRows, getElem?_square _ hr hc]
  rfl

/-- A matrix that is filled up to two blocks. -/
def twoBlocks : Matrix ℚ := ⟨3, [[5, 4, 1], [6, 2, 7]]⟩

theorem keptAbs_greedy_le_best_twoBlocks : ∃ g b, maskGreedy sortedPositions twoBlocks 1 2 = .ok g ∧
    maskBest twoBlocks 1 2 = .ok b ∧ keptAbs twoBlocks g ≤ keptAbs twoBlocks b := by
  have horder : Lists (α := ℚ) sortedPositions := fun xs => (sorts_sortedPositions xs).1
  have ha : twoBlocks.Rectangular := by decide
  obtain ⟨b, hb⟩ := exists_of_isOk (x := maskBest twoBlocks 1 2) (by decide +kernel)
  have hg := maskGreedy_eq sortedPositions 1 ha (le_refl 2)
  exact ⟨_, b, hg, hb, keptAbs_greedy_le_best horder ha (by decide +kernel) le_rfl (by decide) hg hb (.inl rfl)⟩

end TensorKit.Sparsity
