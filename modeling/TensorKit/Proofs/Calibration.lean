import TensorKit.Calibration
import TensorKit.Proofs.ExactNumbers
import TensorKit.Proofs.Traversal
/-!
# The spread distribution of a range

The kept bins and their reference are cut at the same places, also where there are fewer bins than steps: then all parts
but the last one are empty.  A part of the reference and the kept bins it stands for are empty together, so what is
merged is spread over at least one bin or is nothing.  The spread distribution thus has the bins and the sum of the kept
ones, and the divergence takes logarithms of positive numbers only (`candidate_bears_reference`).
-/

namespace TensorKit.Calibration

open Arithmetic List

/-! ## 1. Cutting -/

section Cutting

variable {α β : Type} {R : α → β → Prop} {xs : List α} {ys : List β}

theorem length_cut (width n : Nat) (xs : List α) : (cut width n xs).length = n := by
  fun_induction cut width n xs with
  | case1 => rfl
  | case2 => rfl
  | case3 n xs ih => rw [length_cons, ih]

theorem flatten_cut (width n : Nat) (xs : List α) : (cut width (n + 1) xs).flatten = xs := by
  induction n generalizing xs with
  | zero => simp [cut]
  | succ n ih => rw [cut, flatten_cons, ih, take_append_drop]

theorem forall₂_cut (h : Forall₂ R xs ys) (width n : Nat) :
    Forall₂ (Forall₂ R) (cut width n xs) (cut width n ys) := by
  fun_induction cut width n xs generalizing ys with
  | case1 => exact .nil
  | case2 => exact .cons h .nil
  | case3 n xs ih => exact .cons (forall₂_take width h) (ih (forall₂_drop width h))

end Cutting

/-! ## 2. Merging and spreading -/

/-- Neither of two bins is negative, and they are empty together. -/
def Bears (b p : ℚ) : Prop := 0 ≤ b ∧ 0 ≤ p ∧ (b = 0 ↔ p = 0)

variable {bs ps qs : List ℚ}

def filled (ps : List ℚ) : Nat := ps.countP fun p => !eq p (whole 0)

theorem filled_cons (p : ℚ) (ps : List ℚ) : filled (p :: ps) = filled ps + if p = 0 then 0 else 1 := by
  simp [filled, countP_cons, eq_rat]

theorem bears_sum (h : Forall₂ Bears bs ps) : Bears bs.sum (filled ps) := by
  induction h with
  | nil => simp [Bears, filled]
  | @cons b p bs ps hbp _ ih =>
    obtain ⟨hb, -, hiff⟩ := hbp
    obtain ⟨hbs, hps, hsum⟩ := ih
    refine ⟨add_nonneg hb hbs, Nat.cast_nonneg _, ?_⟩
    rw [List.sum_cons, filled_cons, add_eq_zero_iff_of_nonneg hb hbs, hiff, hsum]
    split
    next hp => simp [hp]
    next hp => simpa [hp] using Nat.cast_add_one_ne_zero (filled ps)

theorem spreadOver_rat (m : ℚ) (ps : List ℚ) :
    spreadOver m ps = .ok (ps.map fun p => if p = 0 then 0 else m / filled ps) := by
  simp only [spreadOver]
  split
  next h =>
    have h : filled ps = 0 := h
    simp [h, eq_rat, pure_eq_ok]
  next h =>
    have hne : (filled ps : ℚ) ≠ 0 := Nat.cast_ne_zero.mpr h
    change (add (filled ps : ℚ) (decimal 0 1) >>= _) = _
    simp [hne, eq_rat, pure_eq_ok]

theorem sum_map_filled (a : ℚ) (ps : List ℚ) : (ps.map fun p => if p = 0 then 0 else a).sum = filled ps * a := by
  induction ps with
  | nil => simp [filled]
  | cons p ps ih =>
    rw [map_cons, List.sum_cons, ih, filled_cons]
    split <;> push_cast <;> ring

/-- **Step lemma.**  A part of the reference gets what its kept bins have together. -/
theorem exists_spreadOver (h : Forall₂ Bears bs ps) :
    ∃ qs, spreadOver bs.sum ps = .ok qs ∧ Forall₂ Bears qs ps ∧ qs.sum = bs.sum := by
  obtain ⟨hbs, -, hsum⟩ := bears_sum h
  refine ⟨_, spreadOver_rat _ _, forall₂_map_left_iff.mpr (forall₂_same.mpr fun p hp => ?_), ?_⟩
  · obtain ⟨b, -, -, hpos, -⟩ := exists_mem_of_forall₂ h.flip p hp
    by_cases hzero : p = 0
    · simp [Bears, hzero]
    · have hne : (filled ps : ℚ) ≠ 0 := by simpa [filled, eq_rat] using ⟨p, hp, hzero⟩
      simpa [Bears, hzero, hne, hsum] using ⟨div_nonneg hbs (Nat.cast_nonneg _), hpos⟩
  · rw [sum_map_filled]
    by_cases hzero : (filled ps : ℚ) = 0
    · rw [hzero, zero_mul, hsum.mpr hzero]
    · rw [mul_div_cancel₀ _ hzero]

theorem exists_mapM_spreadOver {cs ds : List (List ℚ)} (h : Forall₂ (Forall₂ Bears) cs ds) :
    ∃ qss, ((cs.map List.sum).zip ds).mapM (fun x => spreadOver x.1 x.2) = .ok qss ∧
      Forall₂ Bears qss.flatten ds.flatten ∧ qss.flatten.sum = cs.flatten.sum := by
  induction h with
  | nil => exact ⟨[], rfl, .nil, rfl⟩
  | cons hcd _ ih =>
    obtain ⟨qs, hqs, hbears, hsum⟩ := exists_spreadOver hcd
    obtain ⟨qss, hqss, hbears', hsum'⟩ := ih
    refine ⟨qs :: qss, ?_, rel_append hbears hbears', by simp [hsum, hsum']⟩
    rw [map_cons, zip_cons_cons, mapM_cons, hqs, ok_bind, hqss]
    rfl

/-- **Run lemma.**  The parts together have the sum of all kept bins. -/
theorem exists_spread (h : Forall₂ Bears bs ps) (n : Nat) :
    ∃ qs, (merge (n + 1) bs >>= (spread · ps)) = .ok qs ∧ Forall₂ Bears qs ps ∧ qs.sum = bs.sum := by
  have hmerge : merge (n + 1) bs = .ok ((cut (bs.length / (n + 1)) (n + 1) bs).map List.sum) :=
    mapM_eq_ok fun _ _ => sum_rat _
  obtain ⟨qss, hqss, hbears, hsum⟩ := exists_mapM_spreadOver (forall₂_cut h (bs.length / (n + 1)) (n + 1))
  rw [flatten_cut] at hbears hsum
  refine ⟨qss.flatten, ?_, flatten_cut (bs.length / (n + 1)) n ps ▸ hbears, hsum⟩
  have hlength := length_cut (bs.length / (n + 1)) (n + 1) bs
  have hne : cut (bs.length / (n + 1)) (n + 1) bs ≠ [] := ne_nil_of_length_eq_add_one hlength
  rw [hmerge, ok_bind, spread, length_map, hlength, ← h.length_eq]
  simp [hne, hqss, pure_eq_ok]

/-! ## 3. The reference -/

variable {hist : List ℕ} {i : Nat}

def binsOf (hist : List ℕ) : List ℚ := hist.map (↑)

theorem bears_self {b : ℚ} (h : b ∈ binsOf hist) : Bears b b := by
  obtain ⟨n, -, rfl⟩ := mem_map.mp h
  exact ⟨Nat.cast_nonneg n, Nat.cast_nonneg n, Iff.rfl⟩

theorem sum_drop_nonneg (hist : List ℕ) (i : Nat) : 0 ≤ ((binsOf hist).drop i).sum :=
  sum_nonneg fun _ hb => (bears_self (mem_of_mem_drop hb)).1

/-- The reference of a range with a filled last bin is empty where the kept bins are. -/
theorem reference?_cases (hpos : 0 < i) (hi : i < hist.length) : reference? (binsOf hist) i = .ok none ∨
    ∃ ps, reference? (binsOf hist) i = .ok (some ps) ∧ Forall₂ Bears ((binsOf hist).take i) ps ∧
      0 < ((binsOf hist).take i).sum := by
  have hne : (binsOf hist).take i ≠ [] := ne_nil_of_length_pos (by simp [binsOf, hpos, hi.pos])
  obtain ⟨bs, last, hsplit⟩ := (eq_nil_or_concat' _).resolve_left hne
  have hkept {b : ℚ} (hb : b ∈ bs ++ [last]) : Bears b b := bears_self (mem_of_mem_take (hsplit ▸ hb))
  have hsame : Forall₂ Bears bs bs := forall₂_same.mpr fun b hb => hkept (mem_append_left _ hb)
  obtain ⟨hlast, -⟩ := hkept (mem_append_right _ (mem_singleton_self last))
  rw [reference?, hsplit, getLast?_concat, dropLast_concat]
  by_cases hzero : last = 0
  · exact .inl (by simp [eq_rat, hzero, pure_eq_ok])
  have hrest := sum_drop_nonneg hist i
  have hpos := hlast.lt_of_ne' hzero
  refine .inr ⟨bs ++ [last + ((binsOf hist).drop i).sum], ?_, rel_append hsame (.cons ?_ .nil), ?_⟩
  · simp [eq_rat, hzero, sum_rat, pure_eq_ok]
  · exact ⟨hlast, by positivity, by simp [hzero, (by positivity : last + ((binsOf hist).drop i).sum ≠ 0)]⟩
  · rw [sum_append, sum_singleton]
    exact add_pos_of_nonneg_of_pos (bears_sum hsame).1 hpos

/-! ## 4. The divergence -/

/-- Exact numbers with some logarithm of the positive ones. -/
abbrev withLog (log : ℚ → ℚ) : Arithmetic ℚ :=
  { instArithmeticRat with log := fun a => if 0 < a then .ok (log a) else .error .value }

theorem exists_divergence (log : ℚ → ℚ) {sumP sumQ : ℚ} (hP : 0 < sumP) (hQ : 0 < sumQ) (h : Forall₂ Bears qs ps) :
    ∃ d, @divergence ℚ (withLog log) ps sumP qs sumQ = .ok d := by
  let := withLog log
  obtain ⟨hlen, hzip⟩ := forall₂_iff_zip.mp h.flip
  have hlog {a : ℚ} (ha : 0 < a) : Arithmetic.log a = .ok (log a) := if_pos ha
  have hterm (acc : ℚ × ℚ) (_ : True) (x : ℚ × ℚ) (hx : x ∈ ps.zip qs) :
      ∃ acc', divergenceTerm sumP sumQ acc x = .ok acc' ∧ True := by
    obtain ⟨hq, hp, hiff⟩ := hzip hx
    by_cases hzero : x.1 = 0
    · exact ⟨acc, if_pos (decide_eq_true hzero), trivial⟩
    · have hp := hp.lt_of_ne' hzero
      have hq := hq.lt_of_ne' (mt hiff.mp hzero)
      refine ⟨(acc.1 + x.1 * log (sumQ * x.1), acc.2 + x.1 * log (sumP * x.2)), ?_, trivial⟩
      rw [divergenceTerm]
      refine (if_neg (ne_true_of_eq_false (decide_eq_false hzero))).trans ?_
      change (Arithmetic.log (sumQ * x.1) >>= _) = _
      rw [hlog (by positivity), ok_bind]
      change (Arithmetic.log (sumP * x.2) >>= _) = _
      rw [hlog (by positivity)]
      rfl
  obtain ⟨ab, hab⟩ := exists_foldlM_eq_ok _ hterm trivial (s := ((0 : ℚ), (0 : ℚ)))
  refine ⟨(ab.1 - ab.2) / sumP, ?_⟩
  rw [divergence, if_neg (not_not.mpr hlen)]
  refine (congrArg (· >>= _) hab).trans ?_
  exact if_neg hP.ne'

/-- **The spread distribution bears its reference.**  Take a histogram of at least three bins, at least two bits, and a
range that is looked at and whose last bin is filled.  The spread distribution has as many bins as the range, it is
empty exactly where the reference is, and its sum is that of the kept bins.  So the divergence exists for all logarithms
of the positive numbers: none is taken of another number. -/
theorem candidate_bears_reference (hist : List ℕ) (hlen : 3 ≤ hist.length) (bits : Int) (hbits : 2 ≤ bits) :
    ∃ steps, stepsOf bits = .ok steps ∧ ∀ i ps, (hist.length - 1) / 2 ≤ i → i < hist.length →
      reference? (binsOf hist) i = .ok (some ps) → ∃ qs, candidate (binsOf hist) steps i ps = .ok qs ∧
        qs.length = i ∧ Forall₂ (fun p q => q ≠ 0 ↔ p ≠ 0) ps qs ∧ qs.sum = ((binsOf hist).take i).sum ∧
        ∀ log, ∃ d, @divergence ℚ (withLog log) ps (binsOf hist).sum qs qs.sum = .ok d := by
  have htwo : 2 ≤ 2 ^ (bits - 1).toNat := Nat.le_self_pow (by omega) 2
  obtain ⟨n, hn⟩ : ∃ n, 2 ^ (bits - 1).toNat - 1 = n + 1 := ⟨2 ^ (bits - 1).toNat - 2, by omega⟩
  refine ⟨n + 1, ?_, fun i ps hstart hi href => ?_⟩
  · rw [stepsOf, if_neg (by omega)]
    exact congrArg _ hn
  obtain h | ⟨ps', h, hbears, hkept⟩ := reference?_cases (by omega) hi
  · simp [href] at h
  obtain rfl : ps = ps' := by simpa [href] using h
  obtain ⟨qs, hqs, hspread, hsum⟩ := exists_spread hbears n
  refine ⟨qs, (if_neg n.succ_ne_zero : candidate _ _ _ _ = _).trans hqs, ?_, ?_, hsum, fun log => ?_⟩
  · rw [hspread.length_eq, ← hbears.length_eq, length_take, binsOf, length_map, min_eq_left hi.le]
  · exact hspread.flip.imp fun _ _ h => not_congr h.2.2
  · refine exists_divergence log ?_ (hsum ▸ hkept) hspread
    rw [← sum_take_add_sum_drop _ i]
    exact add_pos_of_pos_of_nonneg hkept (sum_drop_nonneg hist i)

/-- Three bins for seven steps, the middle one of them empty. -/
theorem candidate_bears_reference_short : reference? (binsOf [1, 0, 2, 1]) 3 = .ok (some [1, 0, 3]) ∧
    ∃ steps qs, stepsOf 4 = .ok steps ∧ candidate (binsOf [1, 0, 2, 1]) steps 3 [1, 0, 3] = .ok qs ∧ qs.sum = 3 := by
  have href : reference? (binsOf [1, 0, 2, 1]) 3 = .ok (some [1, 0, 3]) := by decide +kernel
  obtain ⟨steps, hsteps, h⟩ := candidate_bears_reference [1, 0, 2, 1] (by decide) 4 (by decide)
  obtain ⟨qs, hqs, -, -, hsum, -⟩ := h 3 _ (by decide) (by decide) href
  refine ⟨href, steps, qs, hsteps, hqs, hsum.trans ?_⟩
  decide +kernel

end TensorKit.Calibration
