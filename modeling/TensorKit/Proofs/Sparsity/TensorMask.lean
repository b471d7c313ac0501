import TensorKit.Proofs.Distributed.Coordinates
import TensorKit.Proofs.Sparsity.RunMask
import TensorKit.Sparsity.Pruning
/-!
# The mask by runs of a tensor is valid and keeps as much as any

A tensor with one to four axes is pruned as a matrix, and its mask is folded back into its shape.  Only with four axes
does this move elements: the last two axes are exchanged.  Exchanging the axes is a permutation of the elements
(`exchanged_perm`) that keeps the elements of two tensors in pairs (`zipWith_exchanged_perm`) and is undone by
exchanging them back (`exchanged_exchangedBack`).  So the tensor that is folded out of a matrix is unfolded into the
matrix again (`Unfolds.folded`), and a mask keeps as much of a tensor as of its matrix (`Unfolds.keptWeight_eq`);
validity and optimality come from the mask of the matrix.

The statements are about exact numbers and any order that sorts.
-/

namespace TensorKit

open List Tensor Nat

namespace Tensor

variable {α β : Type}

theorem flatten_rowsOf (w : Nat) : ∀ (n : Nat) (xs : List α), xs.length = n * w → (rowsOf w n xs).flatten = xs
  | 0, xs, h => by
    have hx : xs = [] := length_eq_zero_iff.mp (by simpa using h)
    simp [hx, rowsOf]
  | n + 1, xs, h => by
    have hd : (xs.drop w).length = n * w := by rw [length_drop, h, add_mul]; omega
    rw [rowsOf, flatten_cons, flatten_rowsOf w n _ hd, take_append_drop]

theorem length_of_mem_rowsOf (w : Nat) : ∀ (n : Nat) {xs : List α}, xs.length = n * w →
    ∀ row ∈ rowsOf w n xs, row.length = w
  | 0, xs, _ => by simp [rowsOf]
  | n + 1, xs, h => by
    have hw : w ≤ xs.length := by rw [h, add_mul]; omega
    have hd : (xs.drop w).length = n * w := by rw [length_drop, h, add_mul]; omega
    intro row hrow
    rcases mem_cons.mp hrow with rfl | hrow
    · rw [length_take, min_eq_left hw]
    · exact length_of_mem_rowsOf w n hd row hrow

theorem rowsOf_map (f : α → β) (w : Nat) : ∀ n xs,
    rowsOf w n (xs.map f) = (rowsOf w n xs).map (List.map f)
  | 0, _ => rfl
  | n + 1, xs => by rw [rowsOf, ← map_take, ← map_drop, rowsOf_map f w n, rowsOf, map_cons]

theorem volume_four (b c h w : Nat) : volume [b, c, h, w] = b * c * (h * w) := by simp [volume, mul_assoc]

end Tensor

namespace Sparsity

variable {α β : Type} {xs : List α} {h w : Nat} {shape : List Nat}

/-! ## 1. Transposing -/

theorem exists_eq_map_range [Inhabited α] {k : Nat} (h : xs.length = k) : ∃ f, xs = (range k).map f := by
  refine ⟨fun i => xs[i]!, ext_getElem (by simp [h]) fun i hi _ => ?_⟩
  simp [hi]

theorem mul_add_lt {h w i j : Nat} (hi : i < h) (hj : j < w) : i * w + j < h * w := by
  have := Matrix.add_one_mul_le hi w
  omega

theorem transposed_map_range (f : Nat → α) (h w : Nat) : transposed h w ((range (h * w)).map f) =
    (range w).flatMap fun j => (range h).map fun i => f (i * w + j) := by
  refine flatMap_congr fun j hj => ?_
  refine (filterMap_congr fun i hi => ?_).trans (congrFun filterMap_eq_map _)
  have hlt := mul_add_lt (mem_range.mp hi) (mem_range.mp hj)
  simp [hlt]

theorem transposed_perm [Inhabited α] (hxs : xs.length = h * w) : (transposed h w xs).Perm xs := by
  obtain ⟨f, rfl⟩ := exists_eq_map_range hxs
  rw [transposed_map_range, range_mul, map_flatMap]
  simp only [map_map, Function.comp_def]
  exact flatMap_map_comm_perm _ _ _

/-- Transposing twice changes nothing: the element at place `k` goes to `k % h * w + k / h` and back. -/
theorem transposed_transposed [Inhabited α] (hxs : xs.length = h * w) : transposed w h (transposed h w xs) = xs := by
  obtain ⟨f, rfl⟩ := exists_eq_map_range hxs
  have honce : transposed h w ((range (h * w)).map f) =
      (range (w * h)).map fun k => f (k % h * w + k / h) := by
    rw [transposed_map_range, range_mul, map_flatMap]
    refine flatMap_congr fun j _ => ?_
    rw [map_map]
    refine map_congr_left fun i hi => ?_
    rw [Function.comp_apply, Nat.mul_add_mod_of_lt (mem_range.mp hi), mul_add_div_of_lt _ (mem_range.mp hi)]
  rw [honce, transposed_map_range, range_mul, map_flatMap]
  refine flatMap_congr fun i hi => ?_
  rw [map_map]
  refine map_congr_left fun j _ => ?_
  rw [Nat.mul_add_mod_of_lt (mem_range.mp hi), mul_add_div_of_lt _ (mem_range.mp hi)]
  rfl

/-! ## 2. Exchanging axes -/

theorem exchanged_map (f : α → β) (shape : List Nat) (xs : List α) :
    exchanged shape (xs.map f) = (exchanged shape xs).map f := by
  unfold exchanged
  split
  · simp [transposed, rowsOf_map, flatMap_map, map_flatMap, map_filterMap]
  · rfl

section

variable (hxs : xs.length = volume shape)

include hxs

theorem exchanged_perm [Inhabited α] : (exchanged shape xs).Perm xs := by
  unfold exchanged
  split
  next b c h w =>
    rw [volume_four] at hxs
    have hrows := length_of_mem_rowsOf _ _ hxs
    have hperm : ((rowsOf (h * w) (b * c) xs).flatMap (transposed h w)).Perm
        ((rowsOf (h * w) (b * c) xs).flatMap id) :=
      Perm.flatMap_left _ fun row hrow => transposed_perm (hrows row hrow)
    rwa [flatMap_id, flatten_rowsOf _ _ _ hxs] at hperm
  · rfl

theorem exchangedBack_perm [Inhabited α] :
    (exchangedBack shape xs).Perm xs := by
  unfold exchangedBack
  split
  next b c h w =>
    refine exchanged_perm ?_
    rw [hxs, volume_four, volume_four, mul_comm h]
  · rfl

theorem exchanged_exchangedBack [Inhabited α] :
    exchanged shape (exchangedBack shape xs) = xs := by
  unfold exchangedBack
  split
  next b c h w =>
    rw [volume_four, mul_comm h] at hxs
    have hrows := length_of_mem_rowsOf _ _ hxs
    let parts := (rowsOf (w * h) (b * c) xs).map (transposed w h)
    have hparts : ∀ part ∈ parts, part.length = h * w := by
      intro part hpart
      obtain ⟨row, hrow, rfl⟩ := mem_map.mp hpart
      rw [(transposed_perm (hrows row hrow)).length_eq, hrows row hrow, mul_comm]
    have hlen : parts.length = b * c := (length_map _).trans (length_rowsOf ..)
    rw [exchanged, exchanged, flatMap_def (f := transposed w h), rowsOf_flatten hlen hparts, flatMap_map,
      flatMap_congr fun row hrow => transposed_transposed (hrows row hrow), flatMap_id',
      flatten_rowsOf _ _ _ hxs]
  next hshape =>
    unfold exchanged
    split
    next b c h w => exact absurd rfl (hshape b c h w)
    · rfl

end

theorem zipWith_exchanged_perm [Inhabited α] [Inhabited β] {γ : Type} (f : α → β → γ) {ys : List β}
    (hxs : xs.length = volume shape) (hys : ys.length = volume shape) :
    (zipWith f (exchanged shape xs) (exchanged shape ys)).Perm (zipWith f xs ys) := by
  have hpairs : (xs.zip ys).length = volume shape := by rw [length_zip, hxs, hys, min_self]
  have hperm := (exchanged_perm hpairs).map fun p => f p.1 p.2
  have hleft : (xs.zip ys).map Prod.fst = xs := map_fst_zip (by omega)
  have hright : (xs.zip ys).map Prod.snd = ys := map_snd_zip (by omega)
  have hzip (l : List (α × β)) : zipWith f (l.map Prod.fst) (l.map Prod.snd) = l.map fun p => f p.1 p.2 := by
    rw [zipWith_map, zipWith_self]
  rwa [← hzip, ← hzip, ← exchanged_map, ← exchanged_map, hleft, hright] at hperm

/-! ## 3. Tensors as matrices -/

theorem rectangular_matrixOf (hxs : xs.length = h * w) : (matrixOf h w xs).Rectangular := length_of_mem_rowsOf w h hxs

theorem height_matrixOf (h w : Nat) (xs : List α) : (matrixOf h w xs).rows.length = h := length_rowsOf w h xs

theorem matrixOf_map_range (f : Nat → α) (h w : Nat) :
    matrixOf h w ((range (h * w)).map f) = .ofEntries h w fun i j => f (i * w + j) := by
  rw [matrixOf, rowsOf_map_range, Matrix.ofEntries]

theorem matrixOf_flatten (h w : Nat) (f : Nat → Nat → α) :
    matrixOf h w (Matrix.ofEntries h w f).rows.flatten = .ofEntries h w f :=
  congrArg (Matrix.mk w) (rowsOf_flatten (Matrix.height_ofEntries h w f) (Matrix.rectangular_ofEntries h w f))

theorem length_flatten_ofEntries (h w : Nat) (f : Nat → Nat → α) :
    (Matrix.ofEntries h w f).rows.flatten.length = h * w := by
  simp [Matrix.ofEntries, length_flatten, Function.comp_def]

theorem entry_matrixOf [Inhabited α] [Weight α] (hxs : xs.length = h * w) (i j : Nat) :
    (matrixOf h w xs).entry i j = Weight.zero ∨ (matrixOf h w xs).entry i j ∈ xs := by
  obtain ⟨f, rfl⟩ := exists_eq_map_range hxs
  rw [matrixOf_map_range, Matrix.entry_ofEntries]
  split
  next hin => exact Or.inr (mem_map.mpr ⟨_, mem_range.mpr (mul_add_lt hin.1 hin.2), rfl⟩)
  · exact Or.inl rfl

def IsMask (mask : Tensor ℚ) : Prop := ∀ x ∈ mask.data, x = 0 ∨ x = 1

instance (mask : Tensor ℚ) : Decidable (IsMask mask) := inferInstanceAs (Decidable (∀ x ∈ mask.data, _))

def keptWeight (a mask : Tensor ℚ) : ℚ := (zipWith (fun x y => |x| * y) a.data mask.data).sum

theorem weightKept_matrixOf {xs ys : List ℚ} (hxs : xs.length = h * w) (hys : ys.length = h * w) :
    weightKept (matrixOf h w xs) (matrixOf h w ys) = (zipWith (fun x y => |x| * y) xs ys).sum := by
  obtain ⟨f, rfl⟩ := exists_eq_map_range hxs
  obtain ⟨g, rfl⟩ := exists_eq_map_range hys
  rw [matrixOf_map_range, matrixOf_map_range, weightKept, Matrix.height_ofEntries, Matrix.width_ofEntries,
    zipWith_map, zipWith_self, ← sum_range_eq (Perm.refl _), sum_range_mul]
  refine Finset.sum_congr rfl fun i hi => Finset.sum_congr rfl fun j hj => ?_
  have hin : i < h ∧ j < w := ⟨Finset.mem_range.mp hi, Finset.mem_range.mp hj⟩
  rw [Matrix.entry_ofEntries, Matrix.entry_ofEntries, if_pos hin, if_pos hin]

structure Unfolds (shape : List Nat) (h w : Nat) : Prop where
  volume_eq : h * w = Tensor.volume shape
  unfolded_eq : ∀ t : Tensor ℚ, t.shape = shape → unfolded t = .ok (matrixOf h w (exchanged shape t.data))

theorem exists_unfolds : ∀ {shape}, 1 ≤ shape.length → shape.length ≤ 4 → ∃ h w, Unfolds shape h w
  | [k], _, _ => ⟨1, k, by simp [volume], by rintro ⟨_, xs⟩ rfl; rfl⟩
  | [h, w], _, _ => ⟨h, w, by simp [volume], by rintro ⟨_, xs⟩ rfl; rfl⟩
  | [b, h, w], _, _ => ⟨b * h, w, by simp [volume, mul_assoc], by rintro ⟨_, xs⟩ rfl; rfl⟩
  | [b, c, h, w], _, _ => ⟨b * c * w, h, by rw [volume_four, mul_assoc, mul_comm w], by rintro ⟨_, xs⟩ rfl; rfl⟩
  | [], h, _ => absurd h (by simp)
  | _ :: _ :: _ :: _ :: _ :: _, _, h => absurd h (by simp)

namespace Unfolds

variable {shape : List Nat} {h w : Nat} (hs : Unfolds shape h w)
include hs

theorem length_exchanged {t : Tensor ℚ} (ht : t.WellFormed) (hshape : t.shape = shape) :
    (exchanged shape t.data).length = h * w := by
  subst hshape
  rw [(exchanged_perm ht).length_eq, ht, hs.volume_eq]

theorem keptWeight_eq {a b : Tensor ℚ} (ha : a.WellFormed) (hb : b.WellFormed) (hashape : a.shape = shape)
    (hbshape : b.shape = shape) :
    keptWeight a b = weightKept (matrixOf h w (exchanged shape a.data)) (matrixOf h w (exchanged shape b.data)) := by
  rw [weightKept_matrixOf (hs.length_exchanged ha hashape) (hs.length_exchanged hb hbshape), keptWeight]
  exact (zipWith_exchanged_perm _ (hashape ▸ ha) (hbshape ▸ hb)).sum_eq.symm

/-- The tensor that is folded out of a matrix has its elements, and is unfolded into the matrix. -/
theorem folded (f : Nat → Nat → ℚ) : ∃ t : Tensor ℚ,
    t = ⟨shape, exchangedBack shape (Matrix.ofEntries h w f).rows.flatten⟩ ∧ t.WellFormed ∧
      (∀ x ∈ t.data, ∃ i j, f i j = x) ∧ matrixOf h w (exchanged shape t.data) = .ofEntries h w f := by
  have hlen := (length_flatten_ofEntries h w f).trans hs.volume_eq
  have hperm := exchangedBack_perm hlen
  refine ⟨_, rfl, hperm.length_eq.trans hlen, ?_, ?_⟩
  · intro x hx
    obtain ⟨row, hrow, hx⟩ := mem_flatten.mp (hperm.mem_iff.mp hx)
    obtain ⟨i, -, rfl⟩ := mem_map.mp hrow
    obtain ⟨j, -, rfl⟩ := mem_map.mp hx
    exact ⟨i, j, rfl⟩
  · rw [exchanged_exchangedBack hlen, matrixOf_flatten]

end Unfolds

/-! ## 4. The mask of a tensor -/

theorem widthOf_natCast {m : Nat} (hm : 0 < m) : widthOf m = .ok m := by
  have hzero : ¬(m : Int) = 0 := by omega
  have hneg : ¬(m : Int) < 0 := by omega
  rw [widthOf, if_neg hzero, if_neg hneg, Int.toNat_natCast]

theorem tensorSparse_runs [Weight α] {a : Tensor α} {b : Matrix α} (hb : unfolded a = .ok b) (n : Int) {m : Nat}
    (hm : 0 < m) : tensorSparse .runs a n m = .ok (check1 b n m) := by
  have hcheck : Method.runs.check b n m = .ok (check1 b n m) := by
    rw [Method.check, widthOf_natCast hm]
    rfl
  rwa [tensorSparse, hb]

theorem marks_ofEntries (h w : Nat) (f : Nat → Nat → Bool) :
    (marks (.ofEntries h w f) : List ℚ) = (Matrix.ofEntries h w fun i j => markOf (f i j)).rows.flatten := by
  simp only [marks, Matrix.ofEntries, map_flatten, map_map, Function.comp_def]
  rfl

theorem tensorMask_ofEntries {order : List ℚ → List Nat} {g : Algorithm} {a : Tensor ℚ} {b : Matrix ℚ} {n m h w : Nat}
    {K : Nat → Nat → Bool} (hb : unfolded a = .ok b) (hmask : g.mask order b n m = .ok (.ofEntries h w K)) :
    tensorMask order g a n m =
      .ok ⟨a.shape, exchangedBack a.shape (Matrix.ofEntries h w fun i j => markOf (K i j)).rows.flatten⟩ := by
  rw [tensorMask, hb, ← marks_ofEntries]
  show (do return mk a.shape (exchangedBack a.shape (marks (← g.mask order b n m)))) = _
  rw [hmask]
  rfl

theorem tensorMask_runs (order : List ℚ → List Nat) {a : Tensor ℚ} {b : Matrix ℚ} (hb : unfolded a = .ok b)
    (hrectangular : b.Rectangular) (n : Nat) {m : Nat} (hm : 0 < m) : tensorMask order .runs a n m =
      .ok ⟨a.shape, exchangedBack a.shape (markedMask order n m b).rows.flatten⟩ := by
  refine tensorMask_ofEntries hb ?_
  rw [Algorithm.mask, widthOf_natCast hm, ← mask1_eq order n hrectangular hm]
  rfl

/-- **The mask by runs is valid and keeps as much as any.**  Every tensor with one to four axes has a mask, for every
order that sorts: it has the shape of the tensor, zeros and ones for elements, and passes the check by runs; and no other
such mask keeps elements with a larger sum of absolute values. -/
theorem tensorMask_runs_best {a : Tensor ℚ} (ha : a.WellFormed) (hone : 1 ≤ a.shape.length) (hfour : a.shape.length ≤ 4)
    {n m : Nat} (hm : 1 ≤ m) (hn : n ≤ m) {order : List ℚ → List Nat} (horder : Sorts order) :
    ∃ mask, tensorMask order .runs a n m = .ok mask ∧ mask.shape = a.shape ∧ mask.WellFormed ∧ IsMask mask ∧
      tensorSparse .runs mask n m = .ok true ∧
      ∀ other : Tensor ℚ, other.shape = a.shape → other.WellFormed → IsMask other →
        tensorSparse .runs other n m = .ok true → keptWeight a other ≤ keptWeight a mask := by
  obtain ⟨h, w, hs⟩ := exists_unfolds hone hfour
  let A := matrixOf h w (exchanged a.shape a.data)
  have hA : A.Rectangular := rectangular_matrixOf (hs.length_exchanged ha rfl)
  have hheight : A.rows.length = h := height_matrixOf h w _
  have hM : markedMask order n m A = .ofEntries h w fun i j => markOf (keepsEntry order n m A i j) := by
    rw [markedMask, hheight]
    rfl
  obtain ⟨mask, hfolded, hwell, hmem, hmatrix⟩ := hs.folded fun i j => markOf (keepsEntry order n m A i j)
  have hmask := tensorMask_runs order (hs.unfolded_eq a rfl) hA n hm
  rw [hM, ← hfolded] at hmask
  have hshape : mask.shape = a.shape := by rw [hfolded]
  refine ⟨mask, hmask, hshape, hwell, ?_, ?_, ?_⟩
  · intro x hx
    obtain ⟨i, j, rfl⟩ := hmem x hx
    cases keepsEntry order n m A i j
    · exact Or.inl rfl
    · exact Or.inr rfl
  · rw [tensorSparse_runs (hs.unfolded_eq mask hshape) n hm, hmatrix, ← hM, check1_markedMask horder A hm hn]
  · intro other hother hotherWell hmarks hcheck
    rw [tensorSparse_runs (hs.unfolded_eq other hother) n hm] at hcheck
    have hlength := hs.length_exchanged hotherWell hother
    rw [hs.keptWeight_eq ha hotherWell rfl hother, hs.keptWeight_eq ha hwell rfl hshape, hmatrix, ← hM]
    refine weightKept_le_markedMask horder A hm hA (rectangular_matrixOf hlength) ?_ rfl ?_ (Except.ok.inj hcheck)
    · rw [height_matrixOf, hheight]
    · intro i j
      rcases entry_matrixOf hlength i j with hzero | hmem
      · exact Or.inl hzero
      · exact hmarks _ ((exchanged_perm (hother ▸ hotherWell)).mem_iff.mp hmem)

/-- With four axes, a run that is filled up, and entries of equal size. -/
theorem tensorMask_runs_best_four_axes :
    ∃ mask, tensorMask sortedPositions .runs ⟨[1, 1, 3, 2], [3, -1, 1 / 2, 4, -3, 4]⟩ 1 2 = .ok mask ∧
      mask.shape = [1, 1, 3, 2] ∧ IsMask mask ∧ tensorSparse .runs mask 1 2 = .ok true ∧
      14 ≤ keptWeight ⟨[1, 1, 3, 2], [3, -1, 1 / 2, 4, -3, 4]⟩ mask := by
  obtain ⟨mask, hmask, hshape, -, hmarks, hsparse, hbest⟩ := tensorMask_runs_best
    (a := ⟨[1, 1, 3, 2], [3, -1, 1 / 2, 4, -3, 4]⟩) (n := 1) (m := 2) rfl (by decide) (by decide) (by decide)
    (by decide) sorts_sortedPositions
  refine ⟨mask, hmask, hshape, hmarks, hsparse, ?_⟩
  have hother := hbest ⟨[1, 1, 3, 2], [1, 0, 0, 1, 1, 1]⟩ rfl rfl (by decide) (by decide)
  refine le_trans ?_ hother
  norm_num [keptWeight]

end Sparsity

end TensorKit
