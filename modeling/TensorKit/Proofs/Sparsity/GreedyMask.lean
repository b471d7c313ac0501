import TensorKit.Proofs.Sparsity.TensorMask
/-!
# What the greedy mask keeps, and when it passes the check

The greedy mask goes through the positions of a block and keeps one unless its row or its column already keeps `n`.  So
it never keeps more than `n` in a row or a column (`Chosen.step`), and in the end a position is kept or stands in a row
or a column that is full (`Saturated`).  A choice with these two properties has a full row and a full column, because
the rows and the columns keep the same number in all (`Saturated.exists_full_row`).

The check asks for at most `m - n` kept positions where the mask keeps up to `n`.  So every mask passes if `2 * n ≤ m`;
otherwise no mask with a whole block passes.  All this holds for every order of the positions.
-/

namespace TensorKit.Sparsity

open List

open Function (swap)

variable {m n : Nat} {K : Nat → Nat → Bool} {seen kept : List Nat}

/-! ## 1. Choices in a square -/

/-- How many of the `m` places of a row are chosen; of a column, if the choice is transposed. -/
def rowCount (m : Nat) (K : Nat → Nat → Bool) (i : Nat) : Nat := (range m).countP (K i)

/-- A choice with at most `n` places in a row or a column to which no place can be added. -/
structure Saturated (n m : Nat) (K : Nat → Nat → Bool) : Prop where
  row_le : ∀ i < m, rowCount m K i ≤ n
  column_le : ∀ j < m, rowCount m (swap K) j ≤ n
  full : ∀ i < m, ∀ j < m, K i j ∨ rowCount m K i = n ∨ rowCount m (swap K) j = n

theorem rowCount_eq_sum (m : Nat) (K : Nat → Nat → Bool) (i : Nat) :
    rowCount m K i = ∑ j ∈ Finset.range m, if K i j then 1 else 0 := by
  induction m with
  | zero => rfl
  | succ m ih => rw [Finset.sum_range_succ, ← ih, rowCount, rowCount, range_succ, countP_append,
      countP_singleton]

theorem rowCount_congr {L : Nat → Nat → Bool} {i : Nat} (h : ∀ j < m, K i j = L i j) :
    rowCount m K i = rowCount m L i := countP_congr fun j hj => by rw [h j (mem_range.mp hj)]

theorem sum_rowCount_swap (m : Nat) (K : Nat → Nat → Bool) :
    ∑ j ∈ Finset.range m, rowCount m (swap K) j = ∑ i ∈ Finset.range m, rowCount m K i := by
  simp only [rowCount_eq_sum]
  exact Finset.sum_comm

namespace Saturated

variable (h : Saturated n m K)
include h

theorem transposed : Saturated n m (swap K) := ⟨h.column_le, h.row_le, fun i hi j hj => (h.full j hj i hi).imp_right Or.symm⟩

theorem rows_full (hcolumns : ∀ j < m, rowCount m (swap K) j = n) : ∀ i < m, rowCount m K i = n := by
  have hsum : ∑ i ∈ Finset.range m, rowCount m K i = ∑ _i ∈ Finset.range m, n := by
    rw [← sum_rowCount_swap]
    exact Finset.sum_congr rfl fun j hj => hcolumns j (Finset.mem_range.mp hj)
  have hall := (Finset.sum_eq_sum_iff_of_le fun i hi => h.row_le i (Finset.mem_range.mp hi)).mp hsum
  exact fun i hi => hall i (Finset.mem_range.mpr hi)

/-- If no row were full, all columns would be, since a column cannot be chosen as a whole. -/
theorem exists_full_row (hnm : n < m) : ∃ i < m, rowCount m K i = n := by
  by_contra hnone
  push Not at hnone
  have hcolumns : ∀ j < m, rowCount m (swap K) j = n := by
    intro j hj
    by_contra hj'
    have hwhole : rowCount m (swap K) j = m := by
      rw [rowCount, countP_eq_length.mpr, length_range]
      intro i hi
      have hi := mem_range.mp hi
      simpa [hnone i hi, hj'] using h.full i hi j hj
    have hle := h.column_le j hj
    omega
  exact hnone 0 (by omega) (h.rows_full hcolumns 0 (by omega))

end Saturated

/-! ## 2. Going through the positions -/

/-- What the positions of a block that have been seen leave behind. -/
structure Chosen (n m : Nat) (seen kept : List Nat) : Prop where
  sublist : kept.Sublist seen
  row_le : ∀ i, kept.countP (· / m == i) ≤ n
  column_le : ∀ j, kept.countP (· % m == j) ≤ n
  full : ∀ k ∈ seen, k ∈ kept ∨ kept.countP (· / m == k / m) = n ∨ kept.countP (· % m == k % m) = n

variable {b : Matrix ℚ}

theorem keepStep_eq (n m : Nat) (kept : List Nat) (k : Nat) : keepStep n m kept k =
    if kept.countP (· / m == k / m) = n ∨ kept.countP (· % m == k % m) = n then kept else kept ++ [k] := by
  simp [keepStep, keptBeside]

theorem Chosen.nil : Chosen n m [] [] := ⟨Sublist.refl _, by simp, by simp, by simp⟩

/-- **Step lemma.** -/
theorem Chosen.step (h : Chosen n m seen kept) (k : Nat) :
    Chosen n m (seen ++ [k]) (keepStep n m kept k) := by
  rw [keepStep_eq]
  split
  next hfull =>
    exact ⟨h.sublist.trans (sublist_append_left _ _), h.row_le, h.column_le,
      forall_mem_append.mpr ⟨h.full, forall_mem_singleton.mpr (.inr hfull)⟩⟩
  next hroom =>
    obtain ⟨hrow, hcolumn⟩ := not_or.mp hroom
    have hle {p : Nat → Bool} (hp : kept.countP p ≤ n) (hk : p k → kept.countP p ≠ n) :
        (kept ++ [k]).countP p ≤ n := by
      rw [countP_append, countP_singleton]
      split
      · have := hk ‹_›
        omega
      · omega
    refine ⟨h.sublist.append_right _, fun i => hle (h.row_le i) ?_, fun j => hle (h.column_le j) ?_, ?_⟩
    · intro hi
      rwa [← eq_of_beq hi]
    · intro hj
      rwa [← eq_of_beq hj]
    · -- a row or column that was full has got nothing more
      have hkept {p : Nat → Bool} (hp : kept.countP p = n) (hmax : (kept ++ [k]).countP p ≤ n) :
          (kept ++ [k]).countP p = n := by
        rw [countP_append] at hmax ⊢
        omega
      intro x hx
      rcases mem_append.mp hx with hx | hx
      · rcases h.full x hx with hin | hfull | hfull
        · exact Or.inl (mem_append_left _ hin)
        · exact Or.inr (Or.inl (hkept hfull (hle (h.row_le _) fun hi => by rwa [← eq_of_beq hi])))
        · exact Or.inr (Or.inr (hkept hfull (hle (h.column_le _) fun hj => by rwa [← eq_of_beq hj])))
      · exact Or.inl (mem_append_right _ hx)

/-- **Run lemma.** -/
theorem Chosen.foldl : ∀ (ks : List Nat) {seen kept : List Nat}, Chosen n m seen kept →
    Chosen n m (seen ++ ks) (ks.foldl (keepStep n m) kept)
  | [], seen, kept, h => by rwa [append_nil]
  | k :: ks, seen, kept, h => by
    have hrest := Chosen.foldl ks (h.step k)
    rwa [append_assoc] at hrest

/-- Of the places that `e` lists, as many are kept as there are kept positions with the property that tells these places. -/
theorem countP_range_elem (hnodup : kept.Nodup) {e : Nat → Nat} (he : e.Injective) {p : Nat → Bool}
    (hp : ∀ k ∈ kept, p k ↔ ∃ c < m, e c = k) : (range m).countP (fun c => kept.elem (e c)) = kept.countP p := by
  have hperm : (((range m).filter fun c => kept.elem (e c)).map e).Perm (kept.filter p) := by
    refine (perm_ext_iff_of_nodup ((nodup_range.filter _).map he) (hnodup.filter _)).mpr fun k => ?_
    simp only [mem_map, mem_filter, mem_range, elem_eq_mem, decide_eq_true_eq]
    constructor
    · rintro ⟨c, ⟨hc, hk⟩, rfl⟩
      exact ⟨hk, (hp _ hk).mpr ⟨c, hc, rfl⟩⟩
    · rintro ⟨hk, hpk⟩
      obtain ⟨c, hc, rfl⟩ := (hp k hk).mp hpk
      exact ⟨c, ⟨hc, hk⟩, rfl⟩
  rw [countP_eq_length_filter, countP_eq_length_filter, ← hperm.length_eq, length_map]

section Counts

variable (hnodup : kept.Nodup) (hlt : ∀ k ∈ kept, k < m * m)
include hnodup

theorem rowCount_elem (hm : 0 < m) (i : Nat) :
    rowCount m (fun i j => kept.elem (i * m + j)) i = kept.countP (· / m == i) := by
  refine countP_range_elem hnodup (add_right_injective _) fun k _ => ?_
  constructor
  · intro hk
    exact ⟨k % m, Nat.mod_lt k hm, by rw [← eq_of_beq hk]; exact Nat.div_add_mod' k m⟩
  · rintro ⟨c, hc, rfl⟩
    exact beq_of_eq (mul_add_div_of_lt i hc)

include hlt

theorem rowCount_swap_elem {j : Nat} (hj : j < m) :
    rowCount m (swap fun i j => kept.elem (i * m + j)) j = kept.countP (· % m == j) := by
  have hinjective : (fun i => i * m + j).Injective := fun x y hxy =>
    Nat.eq_of_mul_eq_mul_right (Nat.zero_lt_of_lt hj) (Nat.add_right_cancel hxy)
  refine countP_range_elem hnodup hinjective fun k hk => ?_
  constructor
  · intro hkj
    exact ⟨k / m, Nat.div_lt_of_lt_mul (hlt k hk), by rw [← eq_of_beq hkj]; exact Nat.div_add_mod' k m⟩
  · rintro ⟨c, -, rfl⟩
    exact beq_of_eq (Nat.mul_add_mod_of_lt hj)

end Counts

/-- Once all positions of a block have been seen, nothing can be added. -/
theorem Chosen.saturated (h : Chosen n m seen kept) (hseen : seen.Perm (range (m * m)))
    (hm : 0 < m) : Saturated n m fun i j => kept.elem (i * m + j) := by
  have hnodup : kept.Nodup := h.sublist.nodup (hseen.nodup_iff.mpr nodup_range)
  have hlt : ∀ k ∈ kept, k < m * m := fun k hk => mem_range.mp (hseen.mem_iff.mp (h.sublist.subset hk))
  refine ⟨fun i _ => (rowCount_elem hnodup hm i).trans_le (h.row_le i),
    fun j hj => (rowCount_swap_elem hnodup hlt hj).trans_le (h.column_le j), ?_⟩
  intro i hi j hj
  have hpos : i * m + j ∈ seen := hseen.mem_iff.mpr (mem_range.mpr (mul_add_lt hi hj))
  rcases h.full _ hpos with hin | hfull | hfull
  · exact Or.inl (by simpa using hin)
  · rw [mul_add_div_of_lt i hj, ← rowCount_elem hnodup hm] at hfull
    exact Or.inr (Or.inl hfull)
  · rw [Nat.mul_add_mod_of_lt hj, ← rowCount_swap_elem hnodup hlt hj] at hfull
    exact Or.inr (Or.inr hfull)

/-! ## 3. The mask of a matrix -/

/-- An order that lists every position once. -/
def Lists {α : Type} (order : List α → List Nat) : Prop := ∀ xs, (order xs).Perm (range xs.length)

section Blocks

variable {α : Type} [Weight α] {a : Matrix α}

theorem length_window (a : Matrix α) (m i j : Nat) : (a.window m i j).flatten.length = m * m := by
  simp [Matrix.window, length_flatten, Function.comp_def]

/-- Blocks that are made of those of a matrix, put together, entry by entry. -/
theorem ofBlocks_map (ha : a.Rectangular) (hm : 0 < m) (f : List α → List Bool) :
    Matrix.ofBlocks a.rows.length a.width m (a.paddedWidth m / m) ((a.blocks m).map f) false =
      .ofEntries a.rows.length a.width fun i j =>
        (f (a.window m (i / m * m) (j / m * m)).flatten)[i % m * m + j % m]?.getD false := by
  have hdiv {i k : Nat} (hi : i < k) : i / m < k ⌈/⌉ m :=
    Nat.div_lt_of_lt_mul (hi.trans_le (by rw [Nat.mul_comm]; exact le_ceilDiv_mul k hm))
  rw [Matrix.ofBlocks, Matrix.ofEntries]
  congr 1
  refine map_congr_left fun i hi => map_congr_left fun j hj => ?_
  have hI := hdiv (mem_range.mp hi)
  have hJ := hdiv (mem_range.mp hj)
  rw [a.paddedWidth_div hm, getElem?_map, Matrix.blocks_eq ha hm, Tensor.getElem?_flatMap_blocks (by simp) hJ]
  simp [hI, hJ]

/-- Does the greedy mask of a block keep the entry in a row and a column? -/
def keepsIn (order : List α → List Nat) (n m : Nat) (a : Matrix α) (I J i j : Nat) : Bool :=
  (greedyKept order n m (a.window m (I * m) (J * m)).flatten).elem (i * m + j)

theorem saturated_keepsIn {order : List α → List Nat} (horder : Lists order) (n : Nat) (hm : 0 < m) (a : Matrix α)
    (I J : Nat) : Saturated n m (keepsIn order n m a I J) := by
  refine (Chosen.nil.foldl _).saturated ?_ hm
  have hperm := (reverse_perm _).trans (horder ((a.window m (I * m) (J * m)).flatten.map Weight.abs))
  rwa [length_map, length_window] at hperm

theorem maskGreedy_eq (order : List α → List Nat) (n : Nat) (ha : a.Rectangular) (hm : 2 ≤ m) :
    maskGreedy order a n m = .ok (.ofEntries a.rows.length a.width fun i j =>
      keepsIn order n m a (i / m) (j / m) (i % m) (j % m)) := by
  have hmany : m ≠ 1 := by omega
  have hpos : 0 < m := by omega
  simp only [maskGreedy, hmany, decide_false, Bool.false_and, Bool.false_eq_true, if_false, ofBlocks_map ha hpos]
  congr 3
  funext i j
  have hplace : i % m * m + j % m < m * m := mul_add_lt (Nat.mod_lt i hpos) (Nat.mod_lt j hpos)
  rw [blockMask, length_window, getElem?_map, getElem?_range hplace]
  rfl

end Blocks

/-! ## 4. The check of a mask -/

/-- The part of a choice in a block that lies inside of a matrix. -/
def inside (h w m : Nat) (K : Nat → Nat → Bool) (I J r c : Nat) : Bool :=
  decide (I * m + r < h ∧ J * m + c < w) && K (I * m + r) (J * m + c)

theorem check2_marked (h w : Nat) (K : Nat → Nat → Bool) (n : Nat) (hm : 2 ≤ m) :
    ∃ answer, check2 (.ofEntries h w fun i j => markOf (K i j)) n m = .ok answer ∧
      (answer ↔ ∀ I < h ⌈/⌉ m, ∀ J < w ⌈/⌉ m, (∀ r < m, (rowCount m (inside h w m K I J) r : Int) ≤ m - n) ∨
          ∀ c < m, (rowCount m (swap (inside h w m K I J)) c : Int) ≤ m - n) := by
  let M : Matrix ℚ := .ofEntries h w fun i j => markOf (K i j)
  have hentry (I J r c : Nat) : (!Weight.isZero (M.entry (I * m + r) (J * m + c))) = inside h w m K I J r c := by
    rw [Matrix.entry_ofEntries, inside]
    by_cases hin : I * m + r < h ∧ J * m + c < w
    · rw [if_pos hin, decide_eq_true hin, Bool.true_and]
      cases K (I * m + r) (J * m + c) <;> rfl
    · rw [if_neg hin, decide_eq_false hin, Bool.false_and]
      rfl
  have hM : M.Rectangular := Matrix.rectangular_ofEntries h w _
  have hheight : M.rows.length = h := Matrix.height_ofEntries h w _
  refine ⟨_, check2_eq_ok M n hm, (all_checkBlock_iff hM n (by omega)).trans ?_⟩
  rw [hheight]
  refine forall₄_congr fun I _ J _ => or_congr (forall₂_congr fun r _ => ?_) (forall₂_congr fun c _ => ?_)
  all_goals
    refine (filled_le_iff n m _).symm.trans ?_
    simp only [hentry]
    rfl

theorem tensorSparse_blocks {a : Tensor ℚ} (hb : unfolded a = .ok b) {answer : Bool} (hm : 0 < m)
    (hcheck : check2 b n m = .ok answer) : tensorSparse .blocks a n m = .ok answer := by
  have hblocks : Method.blocks.check b n m = .ok answer := by
    rw [Method.check, widthOf_natCast hm]
    show ((check2 b n m).mapError _ : Except Error Bool) = _
    rw [hcheck]
    rfl
  rwa [tensorSparse, hb]

theorem mask_greedy (order : List ℚ → List Nat) (hb : b.Rectangular) (n : Nat) (hm : 2 ≤ m) :
    Algorithm.greedy.mask order b n m = .ok (.ofEntries b.rows.length b.width fun i j =>
      keepsIn order n m b (i / m) (j / m) (i % m) (j % m)) := by
  rw [Algorithm.mask, widthOf_natCast (by omega)]
  show ((maskGreedy order b n m).mapError _ : Except Error _) = _
  rw [maskGreedy_eq order n hb hm]
  rfl

/-- **When the greedy mask of a matrix passes its check.**  It always does if `2 * n ≤ m`; and for a matrix with at least
`m` rows and `m` columns only then. -/
theorem tensorMask_greedy_sparse {order : List ℚ → List Nat} (horder : Lists order) {a : Tensor ℚ} (ha : a.WellFormed)
    {h w : Nat} (hshape : a.shape = [h, w]) {n m : Nat} (hn : 1 ≤ n) (hm : n < m) :
    ∃ mask answer, tensorMask order .greedy a n m = .ok mask ∧
      tensorSparse Algorithm.greedy.method mask n m = .ok answer ∧
      (2 * n ≤ m → answer = true) ∧ (m ≤ h → m ≤ w → (answer = true ↔ 2 * n ≤ m)) := by
  have hs : Unfolds [h, w] h w := ⟨by simp [Tensor.volume], by rintro ⟨_, xs⟩ rfl; rfl⟩
  let A := matrixOf h w (exchanged [h, w] a.data)
  have hA : A.Rectangular := rectangular_matrixOf (hs.length_exchanged ha hshape)
  let K (i j : Nat) : Bool := keepsIn order n m A (i / m) (j / m) (i % m) (j % m)
  obtain ⟨mask, hfolded, -, -, hmatrix⟩ := hs.folded fun i j => markOf (K i j)
  have hmask : tensorMask order .greedy a n m = .ok mask := by
    rw [tensorMask_ofEntries (hs.unfolded_eq a hshape) (mask_greedy order hA n (by omega)), hfolded, hshape]
    rw [height_matrixOf]
    rfl
  have hunfolded : unfolded mask = .ok (.ofEntries h w fun i j => markOf (K i j)) := by
    rw [hs.unfolded_eq mask (by rw [hfolded]), hmatrix]
  obtain ⟨answer, hcheck, hanswer⟩ := check2_marked h w K n (m := m) (by omega)
  -- a block keeps what its own greedy choice keeps, as far as it lies inside of the matrix
  have hblock {I J r c : Nat} (hr : r < m) (hc : c < m) : K (I * m + r) (J * m + c) = keepsIn order n m A I J r c := by
    simp only [K, mul_add_div_of_lt _ hr, mul_add_div_of_lt _ hc, Nat.mul_add_mod_of_lt hr, Nat.mul_add_mod_of_lt hc]
  have hsaturated (I J : Nat) := saturated_keepsIn horder n (by omega : 0 < m) A I J
  have hsparse : 2 * n ≤ m → answer = true := by
    intro hle
    refine hanswer.mpr fun I _ J _ => Or.inl fun r hr => ?_
    have hcount : rowCount m (inside h w m K I J) r ≤ rowCount m (keepsIn order n m A I J) r := by
      refine countP_mono_left fun c hc hin => ?_
      rw [← hblock hr (mem_range.mp hc)]
      exact (Bool.and_eq_true_iff.mp hin).2
    have hrow := (hsaturated I J).row_le r hr
    omega
  refine ⟨mask, answer, hmask, tensorSparse_blocks hunfolded (by omega) hcheck, hsparse, ?_⟩
  intro hh hw
  refine ⟨fun htrue => ?_, hsparse⟩
  have hwhole {r c : Nat} (hr : r < m) (hc : c < m) : inside h w m K 0 0 r c = keepsIn order n m A 0 0 r c := by
    rw [inside, hblock hr hc, decide_eq_true ⟨by omega, by omega⟩, Bool.true_and]
  have hfirst {k : Nat} (hk : m ≤ k) : 0 < k ⌈/⌉ m := by
    have := le_ceilDiv_mul k (by omega : 0 < m)
    by_contra hzero
    simp [Nat.eq_zero_of_not_pos hzero] at this
    omega
  rcases hanswer.mp htrue 0 (hfirst hh) 0 (hfirst hw) with hrows | hcolumns
  · obtain ⟨r, hr, hfull⟩ := (hsaturated 0 0).exists_full_row hm
    have hcount : rowCount m (inside h w m K 0 0) r = n := (rowCount_congr fun _ hc => hwhole hr hc).trans hfull
    have hle := hrows r hr
    omega
  · obtain ⟨c, hc, hfull⟩ := (hsaturated 0 0).transposed.exists_full_row hm
    have hcount : rowCount m (swap (inside h w m K 0 0)) c = n :=
      (rowCount_congr (L := swap (keepsIn order n m A 0 0)) fun _ hr => hwhole hr hc).trans hfull
    have hle := hcolumns c hc
    omega

def sixteen : Tensor ℚ := ⟨[4, 4], (range 16).map Nat.cast⟩

/-- With three of four the mask of a matrix does not pass, with two of four it does. -/
theorem tensorMask_greedy_sparse_sixteen : (∃ mask, tensorMask sortedPositions .greedy sixteen 3 4 = .ok mask ∧
      tensorSparse Algorithm.greedy.method mask 3 4 = .ok false) ∧
    ∃ mask, tensorMask sortedPositions .greedy sixteen 2 4 = .ok mask ∧
      tensorSparse Algorithm.greedy.method mask 2 4 = .ok true := by
  have horder : Lists (α := ℚ) sortedPositions := fun xs => (sorts_sortedPositions xs).1
  obtain ⟨mask, answer, hmask, hcheck, -, hfails⟩ := tensorMask_greedy_sparse horder (a := sixteen) (by rfl) rfl
    (n := 3) (m := 4) (by decide) (by decide)
  obtain ⟨mask', answer', hmask', hcheck', hpasses, -⟩ := tensorMask_greedy_sparse horder (a := sixteen) (by rfl) rfl
    (n := 2) (m := 4) (by decide) (by decide)
  have hfalse : answer = false := by simpa using hfails le_rfl le_rfl
  exact ⟨⟨mask, hmask, hfalse ▸ hcheck⟩, mask', hmask', hpasses le_rfl ▸ hcheck'⟩

end TensorKit.Sparsity
