import TensorKit.Position
import TensorKit.Tensor.Basic
/-!
# Places, quotients and sorted lists of whole numbers

Lists are indexed and numbers divided by whole numbers that may be negative.  On natural numbers these operations are
the ordinary ones and succeed wherever those are defined (`place_natCast`, `pick_natCast`, `floorDiv_natCast`).  Sorted
lists are equal exactly if the lists are permutations of each other (`sorted_eq_sorted_iff`).  A range of a list,
whatever its ends and its step, goes through different places of the list (`range_places`).
-/

namespace TensorKit.Position

open List

variable {xs ys : List Int}

/-! ## 1. Natural numbers -/

theorem floorDiv_natCast (a : Nat) {b : Nat} (hb : 0 < b) :
    floorDiv (a : Int) (b : Int) = .ok ((a / b : Nat) : Int) := by
  have hb' : (b : Int) ≠ 0 := by omega
  rw [floorDiv, if_neg hb', Int.fdiv_eq_ediv_of_nonneg _ (by omega), Int.natCast_ediv]

theorem place_natCast {n j : Nat} (h : j < n) : place n (j : Int) = .ok j := by
  have h' : (j : Int) < n := by omega
  simp [place, h']

/-- A position from the end or from the front stands for a place of the list. -/
theorem place_eq_ok {n : Nat} {i : Int} (h : -n ≤ i) (h' : i < n) :
    place n i = .ok (if i < 0 then i + n else i).toNat ∧ (if i < 0 then i + n else i).toNat < n := by
  rw [place]
  grind

theorem pick_natCast {α : Type} {xs : List α} {j : Nat} {x : α} (h : xs[j]? = some x) : pick xs (j : Int) = .ok x := by
  have hj := (List.getElem?_eq_some_iff.mp h).1
  simp only [pick, place_natCast hj, bind, Except.bind, h]
  rfl

theorem put_natCast {α : Type} {xs : List α} {j : Nat} (h : j < xs.length) (x : α) :
    put xs (j : Int) x = .ok (xs.set j x) := by
  rw [put, place_natCast h]
  rfl

theorem product_natCast (ns : List Nat) : product (ns.map Int.ofNat) = (Tensor.volume ns : Int) := by
  induction ns with
  | nil => rfl
  | cons n ns ih => simp [product, Tensor.volume, ih]

/-! ## 2. Sorting -/

theorem sorted_perm (xs : List Int) : (sorted xs).Perm xs := mergeSort_perm xs _

theorem pairwise_sorted (xs : List Int) : (sorted xs).Pairwise (· ≤ ·) :=
  (pairwise_mergeSort (by simp; omega) (by simp; omega) xs).imp (by simp)

theorem sorted_eq_of_perm (h : xs.Perm ys) (hy : ys.Pairwise (· ≤ ·)) : sorted xs = ys :=
  ((sorted_perm xs).trans h).eq_of_pairwise (fun _ _ _ _ => Int.le_antisymm) (pairwise_sorted xs) hy

theorem sorted_eq_sorted_iff : sorted xs = sorted ys ↔ xs.Perm ys := by
  constructor
  · intro h
    exact (sorted_perm xs).symm.trans (h ▸ sorted_perm ys)
  · intro h
    exact sorted_eq_of_perm (h.trans (sorted_perm ys).symm) (pairwise_sorted ys)

/-- Sorting distinct numbers gives the increasing list that has the same numbers. -/
theorem sorted_eq_of_mem_iff (hx : xs.Nodup) (hy : ys.Pairwise (· < ·)) (h : ∀ x, x ∈ xs ↔ x ∈ ys) :
    sorted xs = ys := by
  have hys : ys.Nodup := hy.imp fun hlt heq => absurd heq (by omega)
  exact sorted_eq_of_perm ((perm_ext_iff_of_nodup hx hys).mpr h) (hy.imp fun hlt => by omega)

/-! ## 3. Ranges -/

theorem progression_eq_map (start step : Int) (k : Nat) :
    progression start step k = (List.range k).map fun (j : Nat) => (start + step * j).toNat := by
  induction k generalizing start with
  | zero => rfl
  | succ k ih =>
    rw [progression, ih, range_succ_eq_map, map_cons, map_map]
    simp only [Function.comp_def, Int.natCast_zero, Int.mul_zero, Int.add_zero, cons.injEq, true_and]
    refine map_congr_left fun j _ => ?_
    rw [Nat.succ_eq_add_one, Int.natCast_add, Int.natCast_one, Int.mul_add, Int.mul_one]
    congr 1
    omega

/-- A progression inside a list that does not stand still goes through different places. -/
theorem nodup_progression {start step : Int} {k n : Nat} (hstep : step ≠ 0)
    (h : ∀ j, j < k → 0 ≤ start + step * j ∧ start + step * j < n) :
    (progression start step k).Nodup ∧ ∀ i ∈ progression start step k, i < n := by
  rw [progression_eq_map]
  constructor
  · refine pairwise_map.mpr (nodup_range.imp_of_mem fun {i j} hi hj hne heq => hne ?_)
    have hi := h i (mem_range.mp hi)
    have hj := h j (mem_range.mp hj)
    have hmul : step * i = step * j := by omega
    exact Int.ofNat.inj (Int.eq_of_mul_eq_mul_left hstep hmul)
  · intro i hi
    obtain ⟨j, hj, rfl⟩ := mem_map.mp hi
    have hj := h j (mem_range.mp hj)
    omega

/-- So many steps of a size lead less far than a distance. -/
theorem mul_lt_of_lt_ediv (distance : Int) {step : Int} (hstep : 0 < step) {j : Nat}
    (hj : j < ((distance + step - 1) / step).toNat) : step * j < distance := by
  have hle : ((j : Int) + 1) * step ≤ distance + step - 1 := (Int.le_ediv_iff_mul_le hstep).mp (by omega)
  rw [Int.add_mul, Int.one_mul, Int.mul_comm] at hle
  omega

/-- The end of a range is between its bounds, also where it is not given. -/
theorem end_mem (n : Nat) {least most : Int} (usual : Int) (hleast : least ≤ 0) (hle : least ≤ most)
    (hmost : (n : Int) - 1 ≤ most) (husual : least ≤ usual ∧ usual ≤ most) (i? : Option Int) :
    least ≤ (i?.map (bound n least most)).getD usual ∧ (i?.map (bound n least most)).getD usual ≤ most := by
  cases i? with
  | none => exact husual
  | some i =>
    rw [Option.map_some, Option.getD_some, bound]
    split <;> omega

/-- **The places of a range are different and inside the list.** -/
theorem range_places {n : Nat} {start? stop? step? : Option Int} {ps : List Nat}
    (h : range n start? stop? step? = .ok ps) : ps.Nodup ∧ ∀ i ∈ ps, i < n := by
  rw [range] at h
  generalize step?.getD 1 = step at h
  rcases Int.lt_trichotomy step 0 with hneg | rfl | hpos
  · -- a range that goes down is inside the list because it ends above the place before the first
    have hstart : -1 ≤ (start?.map (bound n (-1) (n - 1))).getD (n - 1) ∧ _ ≤ (n : Int) - 1 :=
      end_mem n (n - 1) (by omega) (by omega) (by omega) (by omega) start?
    have hstop : -1 ≤ (stop?.map (bound n (-1) (n - 1))).getD (-1) ∧ _ ≤ (n : Int) - 1 :=
      end_mem n (-1) (by omega) (by omega) (by omega) (by omega) stop?
    simp only [Int.ne_of_lt hneg, if_false, show ¬ 0 < step by omega] at h
    generalize (start?.map (bound n (-1) (n - 1))).getD (n - 1) = start at h hstart
    generalize (stop?.map (bound n (-1) (n - 1))).getD (-1) = stop at h hstop
    cases h
    refine nodup_progression (Int.ne_of_lt hneg) fun j hj => ?_
    have hlt : -step * j < start - stop := mul_lt_of_lt_ediv (start - stop) (by omega) (by rwa [← Int.sub_eq_add_neg])
    have hnonneg : 0 ≤ -step * (j : Int) := Int.mul_nonneg (by omega) (by omega)
    rw [Int.neg_mul] at hlt hnonneg
    omega
  · simp at h
  · -- a range that goes up is inside the list because it ends before the place after the last
    have hstart : 0 ≤ (start?.map (bound n 0 n)).getD 0 ∧ _ ≤ (n : Int) :=
      end_mem n 0 (by omega) (by omega) (by omega) (by omega) start?
    have hstop : 0 ≤ (stop?.map (bound n 0 n)).getD n ∧ _ ≤ (n : Int) :=
      end_mem n n (by omega) (by omega) (by omega) (by omega) stop?
    simp only [(Int.ne_of_lt hpos).symm, if_false, hpos, if_true] at h
    generalize (start?.map (bound n 0 n)).getD 0 = start at h hstart
    generalize (stop?.map (bound n 0 n)).getD n = stop at h hstop
    cases h
    refine nodup_progression (Int.ne_of_lt hpos).symm fun j hj => ?_
    have hlt := mul_lt_of_lt_ediv (stop - start) hpos hj
    have hnonneg : 0 ≤ step * (j : Int) := Int.mul_nonneg (by omega) (by omega)
    omega

end TensorKit.Position
