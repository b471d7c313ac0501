import TensorKit.Proofs.Sparsity.BlockPattern
/-!
# The mask by runs keeps the largest entries

Every row of a matrix is filled up with zeros and cut into runs of `m` entries.  Of each run the mask drops the `n`
entries that come first in some order by absolute values, so it leaves `m - n` of them (`count_keeps`).  What it keeps
has the largest sum that any such choice can have (`sum_le_sum_keeps`): of all selections of at least `n` members of a
sorted list the first `n` have the least sum (`sum_take_le_sum`).

A mask and a matrix are compared run by run, through `Matrix.entry` (`weightKept_eq`): the zeros that fill up the last
run of a row have no weight, so it does not matter that their part of the mask is cut off.
-/

namespace TensorKit.Sparsity

open List Weight

variable {β α : Type}

instance : Weight ℚ where
  zero := 0
  one := 1
  isZero x := x == 0
  abs x := |x|
  le x y := x ≤ y
  add := (· + ·)

/-! ## 1. The least entries of a run -/

/-- Of all selections of at least `n` members of a sorted list, the first `n` members have the least sum.  By induction
on the list: where a selection leaves out the first member, its own first member is not smaller. -/
theorem sum_take_le_sum {vs : List ℚ} (hsorted : vs.Pairwise (· ≤ ·)) (hpos : ∀ v ∈ vs, 0 ≤ v) :
    ∀ {n : Nat} {es : List ℚ}, es.Sublist vs → n ≤ es.length → (vs.take n).sum ≤ es.sum := by
  induction vs with
  | nil =>
    intro n es hes _
    rw [sublist_nil.mp hes, take_nil]
  | cons v vs ih =>
    intro n es hes hn
    obtain ⟨hle, hsorted⟩ := pairwise_cons.mp hsorted
    have hpos' : ∀ u ∈ vs, 0 ≤ u := fun u hu => hpos u (.tail _ hu)
    cases n with
    | zero => exact sum_nonneg fun e he => hpos e (hes.subset he)
    | succ n =>
      cases hes with
      | cons _ hes =>
        obtain ⟨e, es, rfl⟩ := exists_cons_of_length_pos (Nat.zero_lt_of_lt hn)
        have hrest := ih hsorted hpos' ((sublist_cons_self e es).trans hes) (Nat.le_of_succ_le_succ hn)
        have hfirst : v ≤ e := hle e (hes.subset mem_cons_self)
        rw [take_succ_cons, sum_cons, sum_cons]
        exact add_le_add hfirst hrest
      | cons_cons _ hes =>
        have hrest := ih hsorted hpos' hes (Nat.le_of_succ_le_succ hn)
        rw [take_succ_cons, sum_cons, sum_cons]
        exact add_le_add le_rfl hrest

/-- What a selection takes and what it leaves make up the whole. -/
theorem sum_taken_add_sum_left (x y : Nat → ℚ) : ∀ {l : List Nat}, (∀ c ∈ l, y c = 0 ∨ y c = 1) →
    (l.map fun c => x c * y c).sum + ((l.filter fun c => y c == 0).map x).sum = (l.map x).sum
  | [], _ => by simp
  | c :: l, hy => by
    have ih := sum_taken_add_sum_left x y fun d hd => hy d (.tail _ hd)
    rcases hy c mem_cons_self with hc | hc
    · simp only [map_cons, sum_cons, filter_cons, hc, beq_self_eq_true, if_true, ← ih]
      ring
    · simp only [map_cons, sum_cons, filter_cons, hc, ← ih]
      simp [add_assoc]

variable {a : Matrix α} (order : List ℚ → List Nat) {m : Nat}

theorem sum_range_eq {l : List Nat} (h : l.Perm (range m)) (f : Nat → ℚ) :
    ∑ c ∈ Finset.range m, f c = (l.map f).sum := (h.map f).sum_eq.symm

/-! ## 2. The mask of a run -/

/-- An order that sorts positions by their entries, whatever it does with equal entries. -/
def Sorts : Prop :=
  ∀ xs, (order xs).Perm (range xs.length) ∧
    (order xs).Pairwise fun i j => (xs[i]?).getD 0 ≤ (xs[j]?).getD 0

theorem sorts_sortedPositions : Sorts sortedPositions := by
  intro xs
  refine ⟨mergeSort_perm _ _, ?_⟩
  have hsorted : (sortedPositions xs).Pairwise fun i j => decide ((xs[i]?).getD 0 ≤ (xs[j]?).getD 0) :=
    pairwise_mergeSort (fun i j k hij hjk => decide_eq_true ((of_decide_eq_true hij).trans (of_decide_eq_true hjk)))
      (fun i j => by simpa using le_total _ _) (range xs.length)
  exact hsorted.imp of_decide_eq_true

def markOf (kept : Bool) : ℚ := if kept then 1 else 0

/-- Is the entry at a position of a run of `m` entries kept? -/
def keeps (n m : Nat) (x : Nat → ℚ) (c : Nat) : Bool :=
  !((order ((range m).map fun c => |x c|)).take n).elem c

theorem runMask_eq (n m : Nat) (x : Nat → ℚ) :
    runMask order n ((range m).map x) = (range m).map (keeps order n m x) := by
  rw [runMask, map_map, length_map, length_range]
  rfl

section Run

variable {order : List ℚ → List Nat} (horder : Sorts order) (n m : Nat) (x : Nat → ℚ)
include horder

/-- The positions of a run fall into the dropped ones and the kept ones, and the dropped ones have the least entries. -/
theorem exists_dropped_kept : ∃ dropped kept : List Nat, (dropped ++ kept).Perm (range m) ∧
    ((dropped ++ kept).map fun c => |x c|).Pairwise (· ≤ ·) ∧ dropped.length = min n m ∧
    (∀ c ∈ dropped, keeps order n m x c = false) ∧ ∀ c ∈ kept, keeps order n m x c := by
  obtain ⟨hperm, hpairs⟩ := horder ((range m).map fun c => |x c|)
  rw [length_map, length_range] at hperm
  simp only [keeps]
  generalize order ((range m).map fun c => |x c|) = o at hperm hpairs
  have hdisjoint : (o.take n).Disjoint (o.drop n) := disjoint_take_drop (hperm.nodup_iff.mpr nodup_range) le_rfl
  refine ⟨o.take n, o.drop n, ?_, ?_, ?_, ?_, ?_⟩
  · rwa [take_append_drop]
  · rw [take_append_drop, pairwise_map]
    refine hpairs.imp_of_mem fun {i j} hi hj hle => ?_
    have hi : i < m := mem_range.mp (hperm.mem_iff.mp hi)
    have hj : j < m := mem_range.mp (hperm.mem_iff.mp hj)
    simpa [hi, hj] using hle
  · rw [length_take, hperm.length_eq, length_range]
  · intro c hc
    simp [hc]
  · intro c hc
    have hnot : c ∉ o.take n := fun h => hdisjoint h hc
    simp [hnot]

theorem count_keeps : (range m).countP (keeps order n m x) = m - n := by
  obtain ⟨dropped, kept, hperm, -, hlen, hdropped, hkept⟩ := exists_dropped_kept horder n m x
  have hnone : dropped.countP (keeps order n m x) = 0 := countP_eq_zero.mpr fun c hc => by simp [hdropped c hc]
  have hall := countP_eq_length.mpr hkept
  have htotal := hperm.length_eq
  rw [length_append, length_range] at htotal
  rw [← hperm.countP_eq, countP_append, hnone, hall]
  omega

/-- **A run keeps the largest sum.**  The entries that a selection drops have at least the sum of the entries that the
mask drops, and what is kept is the rest. -/
theorem sum_le_sum_keeps {y : Nat → ℚ} (hy : ∀ c < m, y c = 0 ∨ y c = 1)
    (hcount : (range m).countP (fun c => !y c == 0) ≤ m - n) :
    ∑ c ∈ Finset.range m, |x c| * y c ≤ ∑ c ∈ Finset.range m, |x c| * markOf (keeps order n m x c) := by
  obtain ⟨dropped, kept, hperm, hsorted, hlen, hdropped, hkept⟩ := exists_dropped_kept horder n m x
  have hkeptSum : ∑ c ∈ Finset.range m, |x c| * markOf (keeps order n m x c) = (kept.map fun c => |x c|).sum := by
    have hzero : dropped.map (fun c => |x c| * markOf (keeps order n m x c)) = dropped.map fun _ => 0 :=
      map_congr_left fun c hc => by simp [hdropped c hc, markOf]
    have hone : kept.map (fun c => |x c| * markOf (keeps order n m x c)) = kept.map fun c => |x c| :=
      map_congr_left fun c hc => by simp [hkept c hc, markOf]
    rw [sum_range_eq hperm, map_append, sum_append, hzero, hone]
    simp
  -- what the selection drops, in the order of the entries
  let others := (dropped ++ kept).filter fun c => y c == 0
  have hothers : dropped.length ≤ others.length := by
    have hlengths : (dropped ++ kept).length = m := by rw [hperm.length_eq, length_range]
    have hsplit := length_eq_countP_add_countP (fun c => y c == 0) (l := dropped ++ kept)
    rw [← hperm.countP_eq] at hcount
    simp only [others, ← countP_eq_length_filter]
    simp only [decide_not, Bool.decide_eq_true] at hsplit
    omega
  have hselection : ∑ c ∈ Finset.range m, |x c| * y c + (others.map fun c => |x c|).sum =
      ((dropped ++ kept).map fun c => |x c|).sum := by
    rw [sum_range_eq hperm]
    exact sum_taken_add_sum_left _ y fun c hc => hy c (mem_range.mp (hperm.mem_iff.mp hc))
  have hpos : ∀ v ∈ (dropped ++ kept).map fun c => |x c|, 0 ≤ v := forall_mem_map.mpr fun c _ => abs_nonneg (x c)
  have hleast : (dropped.map fun c => |x c|).sum ≤ (others.map fun c => |x c|).sum := by
    have h := sum_take_le_sum hsorted hpos (filter_sublist.map _)
      (hothers.trans_eq (length_map fun c => |x c|).symm)
    rwa [map_append, take_left' (length_map _)] at h
  rw [map_append, sum_append] at hselection
  linarith

end Run

/-! ## 3. Runs of a matrix -/

/-- The numbers below a product are cut into runs. -/
theorem rowsOf_map_range (f : Nat → β) (k m : Nat) : Tensor.rowsOf m k ((range (k * m)).map f) =
    (range k).map fun J => (range m).map fun c => f (J * m + c) := by
  let run (J : Nat) : List β := (range m).map fun c => f (J * m + c)
  have hlisted : (range (k * m)).map f = ((range k).map run).flatten := by
    rw [Tensor.range_mul, map_flatMap, flatMap_def]
    simp [run, Function.comp_def]
  rw [hlisted, Tensor.rowsOf_flatten (by simp) (by simp [run])]

theorem mul_add_div_of_lt (J : Nat) {c m : Nat} (h : c < m) : (J * m + c) / m = J := by
  rw [Nat.mul_comm, Nat.mul_add_div (by omega), Nat.div_eq_of_lt h, Nat.add_zero]

theorem take_drop_flatMap {g : Nat → List β} {k r h : Nat} (hr : r < h)
    (hg : ∀ i ∈ range h, (g i).length = k) : (((range h).flatMap g).drop (r * k)).take k = g r := by
  have hin : r < (range h).length := by rwa [length_range]
  rw [Tensor.drop_flatMap _ r hg, drop_eq_getElem_cons hin, flatMap_cons, getElem_range,
    take_left' (hg r (mem_range.mpr hr))]

theorem sum_range_mul (f : Nat → ℚ) (k m : Nat) :
    ∑ j ∈ Finset.range (k * m), f j = ∑ J ∈ Finset.range k, ∑ c ∈ Finset.range m, f (J * m + c) := by
  induction k with
  | zero => simp
  | succ k ih => rw [Nat.succ_mul, Finset.sum_range_add, ih, Finset.sum_range_succ]

theorem le_ceilDiv_mul (k : Nat) (hm : 0 < m) : k ≤ k ⌈/⌉ m * m := by
  rw [← add_filling hm]
  exact Nat.le_add_right ..

namespace Matrix

def ofEntries (height width : Nat) (f : Nat → Nat → α) : Matrix α :=
  ⟨width, (range height).map fun i => (range width).map (f i)⟩

variable (h w : Nat) (f : Nat → Nat → α)

theorem rectangular_ofEntries : (ofEntries h w f).Rectangular := by
  simp [Rectangular, ofEntries]

@[simp] theorem height_ofEntries : (ofEntries h w f).rows.length = h := by simp [ofEntries]

@[simp] theorem width_ofEntries : (ofEntries h w f).width = w := rfl

variable [Weight α]

theorem entry_ofEntries (i j : Nat) :
    (ofEntries h w f).entry i j = if i < h ∧ j < w then f i j else zero := by
  by_cases hi : i < h
  · by_cases hj : j < w
    · simp [entry, ofEntries, hi, hj]
    · simp [entry, ofEntries, hi, hj]
  · simp [entry, ofEntries, hi]

theorem entry_of_width_le (ha : a.Rectangular) (i : Nat) {j : Nat} (hj : a.width ≤ j) :
    a.entry i j = zero := by
  cases hrow : a.rows[i]? with
  | none => simp [entry, hrow]
  | some row =>
    have hlen := ha row (mem_of_getElem? hrow)
    rw [entry, hrow, Option.bind_some, getElem?_eq_none (hlen ▸ hj), Option.getD_none]

theorem padRows_rows (ha : a.Rectangular) (hm : 0 < m) :
    (a.padRows m).rows = (range a.rows.length).map fun i => (range (a.width ⌈/⌉ m * m)).map (a.entry i) := by
  rw [← add_filling hm]
  apply ext_getElem
  · simp [padRows]
  · intro i hi _
    have hi : i < a.rows.length := by simpa [padRows] using hi
    have hlen : a.rows[i].length ≤ a.paddedWidth m := by
      rw [ha _ (getElem_mem hi)]
      exact Nat.le_add_right ..
    simp only [padRows, getElem_map, getElem_range]
    refine (padTo_eq_map _ hlen).trans (map_congr_left fun j _ => ?_)
    simp [entry, hi]

/-- **The runs of a matrix**, row by row. -/
theorem runs_eq (ha : a.Rectangular) (hm : 0 < m) :
    a.runs m = (range a.rows.length).flatMap fun i =>
      (range (a.width ⌈/⌉ m)).map fun J => (range m).map fun c => a.entry i (J * m + c) := by
  rw [runs, show (a.padRows m).width / m = _ from a.paddedWidth_div hm, padRows_rows ha hm, flatMap_map]
  simp [rowsOf_map_range]

end Matrix

theorem check1_iff [Weight α] (ha : a.Rectangular) (n : Int) (hm : 0 < m) :
    check1 a n m ↔ ∀ i < a.rows.length, ∀ J < a.width ⌈/⌉ m,
      ((range m).countP (fun c => !isZero (a.entry i (J * m + c))) : Int) ≤ m - n := by
  rw [check1, Matrix.runs_eq ha hm]
  simp [all_flatMap, countP_map, Function.comp_def]

/-! ## 4. The mask of a matrix -/

def keepsEntry (n m : Nat) (a : Matrix ℚ) (i j : Nat) : Bool :=
  keeps order n m (fun c => a.entry i (j / m * m + c)) (j % m)

theorem keepsEntry_run (n : Nat) (a : Matrix ℚ) (i J : Nat) {m c : Nat} (hc : c < m) :
    keepsEntry order n m a i (J * m + c) = keeps order n m (fun c => a.entry i (J * m + c)) c := by
  rw [keepsEntry, mul_add_div_of_lt J hc, Nat.mul_add_mod_of_lt hc]

theorem mask1_eq (n : Nat) {a : Matrix ℚ} (ha : a.Rectangular) (hm : 0 < m) :
    mask1 order a n m = .ofEntries a.rows.length a.width (keepsEntry order n m a) := by
  let masks (i : Nat) : List (List Bool) := (range (a.width ⌈/⌉ m)).map fun J =>
    (range m).map fun c => keepsEntry order n m a i (J * m + c)
  have hmasks : (a.runs m).map (runMask order n) = (range a.rows.length).flatMap masks := by
    rw [Matrix.runs_eq ha hm, map_flatMap]
    refine flatMap_congr fun i _ => ?_
    rw [map_map]
    refine map_congr_left fun J _ => ?_
    rw [Function.comp_apply, runMask_eq]
    exact map_congr_left fun c hc => (keepsEntry_run order n a i J (mem_range.mp hc)).symm
  have hlen : ∀ i ∈ range a.rows.length, (masks i).length = a.width ⌈/⌉ m := fun i _ => by simp [masks]
  rw [mask1, Matrix.ofEntries, a.paddedWidth_div hm]
  simp only [hmasks]
  congr 1
  refine map_congr_left fun i hi => ?_
  have hrow : (masks i).flatten = (range (a.width ⌈/⌉ m * m)).map (keepsEntry order n m a i) := by
    rw [Tensor.range_mul, map_flatMap, flatMap_def]
    simp [masks, Function.comp_def]
  rw [take_drop_flatMap (mem_range.mp hi) hlen, hrow, ← map_take, take_range,
    Nat.min_eq_left (le_ceilDiv_mul _ hm)]

def markedMask (n m : Nat) (a : Matrix ℚ) : Matrix ℚ :=
  .ofEntries a.rows.length a.width fun i j => markOf (keepsEntry order n m a i j)

def weightKept (a mask : Matrix ℚ) : ℚ :=
  ∑ i ∈ Finset.range a.rows.length, ∑ j ∈ Finset.range a.width, |a.entry i j| * mask.entry i j

/-- What a mask keeps, run by run.  The entries that fill up the last run of a row are zero. -/
theorem weightKept_eq {a : Matrix ℚ} (ha : a.Rectangular) (mask : Matrix ℚ) (hm : 0 < m) :
    weightKept a mask = ∑ i ∈ Finset.range a.rows.length, ∑ J ∈ Finset.range (a.width ⌈/⌉ m),
      ∑ c ∈ Finset.range m, |a.entry i (J * m + c)| * mask.entry i (J * m + c) := by
  refine Finset.sum_congr rfl fun i _ => ?_
  rw [← sum_range_mul fun j => |a.entry i j| * mask.entry i j]
  refine Finset.sum_subset (Finset.range_mono (le_ceilDiv_mul _ hm)) fun j _ hj => ?_
  have hzero : a.entry i j = 0 := Matrix.entry_of_width_le ha i (by simpa using hj)
  rw [hzero, abs_zero, zero_mul]

section Mask

variable {order : List ℚ → List Nat} (horder : Sorts order) (a : Matrix ℚ) {n m : Nat} (hm : 0 < m)
include horder hm

/-- The mask passes the check: a run of it has no more ones than the run of the matrix has kept entries. -/
theorem check1_markedMask (hn : n ≤ m) : check1 (markedMask order n m a) n m := by
  rw [markedMask, check1_iff (Matrix.rectangular_ofEntries _ _ _) n hm]
  intro i _ J _
  have hle : (range m).countP (fun c => !isZero ((Matrix.ofEntries a.rows.length a.width fun i j =>
      markOf (keepsEntry order n m a i j)).entry i (J * m + c))) ≤
      (range m).countP (keeps order n m fun c => a.entry i (J * m + c)) := by
    refine countP_mono_left fun c hc hfilled => ?_
    rw [← keepsEntry_run order n a i J (mem_range.mp hc)]
    by_contra hdropped
    have hzero : markOf (keepsEntry order n m a i (J * m + c)) = 0 := by simp [markOf, hdropped]
    rw [Matrix.entry_ofEntries, hzero] at hfilled
    simp [isZero, zero] at hfilled
  rw [count_keeps horder] at hle
  omega

/-- **No mask that passes the check keeps more.** -/
theorem weightKept_le_markedMask (ha : a.Rectangular) {other : Matrix ℚ} (hother : other.Rectangular)
    (hheight : other.rows.length = a.rows.length) (hwidth : other.width = a.width)
    (hmarks : ∀ i j, other.entry i j = 0 ∨ other.entry i j = 1) (hcheck : check1 other n m) :
    weightKept a other ≤ weightKept a (markedMask order n m a) := by
  rw [check1_iff hother n hm, hheight, hwidth] at hcheck
  rw [weightKept_eq ha _ hm, weightKept_eq ha _ hm]
  refine Finset.sum_le_sum fun i hi => Finset.sum_le_sum fun J hJ => ?_
  have hcount : (range m).countP (fun c => !other.entry i (J * m + c) == 0) ≤ m - n := by
    have h := hcheck i (Finset.mem_range.mp hi) J (Finset.mem_range.mp hJ)
    simp only [isZero] at h
    omega
  refine (sum_le_sum_keeps horder n m (fun c => a.entry i (J * m + c)) (fun c _ => hmarks i _) hcount).trans_eq ?_
  refine Finset.sum_congr rfl fun c hc => ?_
  rw [markedMask, Matrix.entry_ofEntries, keepsEntry_run order n a i J (Finset.mem_range.mp hc)]
  by_cases hin : J * m + c < a.width
  · rw [if_pos ⟨Finset.mem_range.mp hi, hin⟩]
  · have hzero : a.entry i (J * m + c) = 0 := Matrix.entry_of_width_le ha i (Nat.le_of_not_lt hin)
    rw [hzero, abs_zero, zero_mul, zero_mul]

end Mask

end TensorKit.Sparsity
