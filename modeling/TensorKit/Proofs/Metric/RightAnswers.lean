import TensorKit.Proofs.Metric.RankedPairs
/-!
# Right answers of precision and recall

Precision adds a half to a score and rounds down, recall rounds to the nearest whole number and a half to the even one.
Of the scores from 0 to 1, precision takes those from one half on for class 1 (`precise_eq_one`), recall those above one
half (`nearest_eq_one`).  So the two count the same right answers but for positive samples with score one half, which
are right for precision only.
-/

namespace TensorKit.Metric

open List

/-! ## 1. Rounding -/

/-- The rounding of elements that stand for exact numbers. -/
def Rounding.exact (read : Scalar → ℚ) : Rounding ℚ where
  read
  zero := 0
  addHalf x := x + 1 / 2
  floor x := ⌊x⌋
  nearest x := Number.Ratio.roundEven ⟨x.num.toNat, x.den⟩

variable {x : ℚ} {read : Scalar → ℚ} {arrays : List (NdArray × NdArray)} {samples : List Sample}

theorem precise_eq_one (h : x ≤ 1) : (Rounding.exact read).precise .tracked x = 1 ↔ 1 / 2 ≤ x := by
  change ⌊x + 1 / 2⌋ = 1 ↔ _
  rw [Int.floor_eq_iff, Int.cast_one]
  constructor
  · intro hx
    linarith [hx.1]
  · intro hx
    constructor <;> linarith

theorem roundEven_eq_one {n d : Nat} (hd : 0 < d) (hle : n ≤ d) : Number.Ratio.roundEven ⟨n, d⟩ = 1 ↔ d < 2 * n := by
  rcases hle.eq_or_lt with rfl | hlt
  · simp [Number.Ratio.roundEven, hd]
  · simp only [Number.Ratio.roundEven, Nat.div_eq_of_lt hlt, Nat.mod_eq_of_lt hlt]
    grind

theorem nearest_eq_one (h0 : 0 ≤ x) (h1 : x ≤ 1) : (Rounding.exact read).nearest x = 1 ↔ 1 / 2 < x := by
  have hpos : (0 : ℚ) < x.den := Nat.cast_pos.mpr x.den_pos
  have hx : x * x.den = x.num.toNat := by
    rw [Rat.mul_den_eq_num, ← Int.cast_natCast, Int.toNat_of_nonneg (Rat.num_nonneg.mpr h0)]
  have hle : x.num.toNat ≤ x.den := by
    rw [← Nat.cast_le (α := ℚ), ← hx]
    exact mul_le_of_le_one_left hpos.le h1
  rw [Rounding.exact, Nat.cast_eq_one, roundEven_eq_one x.den_pos hle, ← Nat.cast_lt (α := ℚ), Nat.cast_mul, ← hx, ← mul_assoc,
    lt_mul_iff_one_lt_left hpos, div_lt_iff₀' two_pos, Nat.cast_two]

/-! ## 2. Counting -/

/-- The samples in arrays of scores and of labels with one element in each row. -/
def classedIn (read : Scalar → ℚ) (x : NdArray × NdArray) : List Sample :=
  zipWith (Sample.read read isOne) x.1.data x.2.data

namespace Counts

/-- The counts of precision for some samples. -/
def predicted (samples : List Sample) : Counts :=
  ⟨samples.countP fun s => 1 / 2 ≤ s.score ∧ s.positive, samples.countP fun s => 1 / 2 ≤ s.score ∧ ¬s.positive⟩

/-- The counts of recall for some samples. -/
def recalled (samples : List Sample) : Counts :=
  ⟨samples.countP fun s => 1 / 2 < s.score ∧ s.positive, samples.countP fun s => ¬1 / 2 < s.score ∧ s.positive⟩

/-- **Step lemma of precision.** -/
theorem precision_predicted (s l : Scalar) (h : (Sample.read read isOne s l).InRange) :
    (predicted samples).precision (.exact read) .tracked [s] [l] =
      .ok (predicted (samples ++ [.read read isOne s l])) := by
  change (if (Rounding.exact read).precise .tracked (read s) = 1 then
    Except.ok ((predicted samples).note (isOne l)) else .ok (predicted samples)) = _
  have hone : (Rounding.exact read).precise .tracked (read s) = 1 ↔ 1 / 2 ≤ read s := precise_eq_one h.2
  simp only [hone, predicted, countP_append, countP_singleton, Sample.read]
  grind [note]

/-- **Step lemma of recall.** -/
theorem sensitivity_recalled (s l : Scalar) (h : (Sample.read read isOne s l).InRange) :
    (recalled samples).sensitivity (.exact read) [s] [l] =
      .ok (recalled (samples ++ [.read read isOne s l])) := by
  change (if isOne l then
    Except.ok ((recalled samples).note ((Rounding.exact read).nearest (read s) = 1)) else .ok (recalled samples)) = _
  have hone : (Rounding.exact read).nearest (read s) = 1 ↔ 1 / 2 < read s := nearest_eq_one h.1 h.2
  simp only [hone, recalled, countP_append, countP_singleton, Sample.read]
  grind [note]

/-- **Run lemma.** -/
theorem streamed_columns {made : List Sample → Counts} {step : Counts → List Scalar → List Scalar → Fallible Counts}
    {take : Counts → NdArray → NdArray → Fallible (Counts × Fallible Unit)}
    (htake : ∀ c p l, take c p l = if l.shape.isEmpty then .error .index else .ok (takeRows step c (rows p) (rows l)))
    (hstep : ∀ done s l, (Sample.read read isOne s l).InRange →
      step (made done) [s] [l] = .ok (made (done ++ [.read read isOne s l])))
    (harrays : ∀ x ∈ arrays, IsColumn x.1 ∧ IsColumn x.2) (h : ∀ s ∈ arrays.flatMap (classedIn read), s.InRange) :
    streamed take (made []) arrays = made (arrays.flatMap (classedIn read)) := by
  refine streamed_of arrays fun x hx done => ?_
  obtain ⟨hscores, hlabels⟩ := harrays x hx
  rw [classedIn, ← takeRows_of hstep _ _ fun s hs => h s (mem_flatMap_of_mem hx hs), htake, hlabels.shape_ne_nil,
    hscores.rows_eq, hlabels.rows_eq]
  rfl

theorem right_predicted (samples : List Sample) : (predicted samples).right =
    (recalled samples).right + samples.countP fun s => s.positive ∧ s.score = 1 / 2 := by
  induction samples with
  | nil => rfl
  | cons s samples ih =>
    have hhalf : 1 / 2 ≤ s.score ↔ 1 / 2 < s.score ∨ s.score = 1 / 2 := le_iff_lt_or_eq.trans (or_congr_right eq_comm)
    simp only [predicted, recalled, countP_cons] at ih ⊢
    grind

/-- Count for precision, and for recall, with the elements of arrays for floating scores. -/
def floatingPrecision (c : Counts) (p l : NdArray) : Fallible (Counts × Fallible Unit) :=
  c.addPrecision (.floating p.type) .tracked p l

def floatingSensitivity (c : Counts) (p l : NdArray) : Fallible (Counts × Fallible Unit) :=
  c.addSensitivity (.floating p.type) p l

/-- **Precision and recall count the same right answers but for scores of one half.**  The elements of arrays may stand
for any numbers: where the scores are between zero and one, the counts after any updates with one score and one label in
each row are those of all samples, also where there are fewer scores than labels.  The tracked metrics stream all arrays
through the same counts, with floating scores. -/
theorem right_answers_agree (read : Scalar → ℚ) {arrays : List (NdArray × NdArray)}
    (harrays : ∀ x ∈ arrays, IsColumn x.1 ∧ IsColumn x.2) (h : ∀ s ∈ arrays.flatMap (classedIn read), s.InRange) :
    streamed (addPrecision (.exact read) .tracked) {} arrays = predicted (arrays.flatMap (classedIn read)) ∧
      streamed (addSensitivity (.exact read)) {} arrays = recalled (arrays.flatMap (classedIn read)) ∧
      (streamed (addPrecision (.exact read) .tracked) {} arrays).right =
        (streamed (addSensitivity (.exact read)) {} arrays).right +
          (arrays.flatMap (classedIn read)).countP (fun s => s.positive ∧ s.score = 1 / 2) ∧
      ∀ arrays' c, (State.precision c).after .tracked (arrays'.map scored) =
          .precision (streamed floatingPrecision c arrays') ∧
        (State.sensitivity c).after .tracked (arrays'.map scored) =
          .sensitivity (streamed floatingSensitivity c arrays') := by
  have hprecision : streamed (addPrecision (.exact read) .tracked) {} arrays = predicted _ :=
    @streamed_columns read arrays predicted _ _ (fun _ _ _ => rfl) (fun _ => precision_predicted) harrays h
  have hsensitivity : streamed (addSensitivity (.exact read)) {} arrays = recalled _ :=
    @streamed_columns read arrays recalled _ _ (fun _ _ _ => rfl) (fun _ => sensitivity_recalled) harrays h
  refine ⟨hprecision, hsensitivity, ?_, fun arrays' c =>
    ⟨State.after_scored ?_ ?_ arrays' c, State.after_scored ?_ ?_ arrays' c⟩⟩
  · rw [hprecision, hsensitivity, right_predicted]
  · simp [State.kind]
  · intro c p l
    change ((floatingPrecision c p l : Except Error _) >>= _) = _
    cases floatingPrecision c p l <;> rfl
  · simp [State.kind]
  · intro c p l
    change ((floatingSensitivity c p l : Except Error _) >>= _) = _
    cases floatingSensitivity c p l <;> rfl

/-- The exact value of a floating element. -/
def exactValue : Scalar → ℚ
  | .float x => match Number.Exact.of x with
    | .finite negative m q _ =>
      (if negative then -1 else 1) * (Number.Ratio.scaled m q).num / (Number.Ratio.scaled m q).den
    | _ => 0
  | _ => 0

/-- A score of one half and one of three quarters, with label 1 each. -/
def halfArrays : List (NdArray × NdArray) :=
  [(⟨⟨[2, 1], [.float 0.5, .float 0.75]⟩, .float64⟩, ⟨⟨[2], [.int 1, .int 1]⟩, .int64⟩)]

/-- Exact and floating scores give the same counts. -/
theorem right_answers_agree_half :
    (streamed (addPrecision (.exact exactValue) .tracked) {} halfArrays).right =
        (streamed (addSensitivity (.exact exactValue)) {} halfArrays).right + 1 ∧
      streamed floatingPrecision {} halfArrays = ⟨2, 0⟩ ∧ streamed floatingSensitivity {} halfArrays = ⟨1, 1⟩ := by
  have harrays : ∀ x ∈ halfArrays, IsColumn x.1 ∧ IsColumn x.2 := by
    simp only [halfArrays, forall_mem_singleton]
    exact ⟨.inr rfl, .inl rfl⟩
  have hhalf : exactValue (.float 0.5) = 1 / 2 := by decide +kernel
  have hquarters : exactValue (.float 0.75) = 3 / 4 := by decide +kernel
  have hsamples : halfArrays.flatMap (classedIn exactValue) = [⟨1 / 2, true⟩, ⟨3 / 4, true⟩] := by
    rw [← hhalf, ← hquarters]
    rfl
  have hagree := (right_answers_agree exactValue harrays (by rw [hsamples]; norm_num [Sample.InRange])).2.2.1
  rw [hsamples] at hagree
  exact ⟨hagree.trans (by norm_num), by decide +kernel, by decide +kernel⟩

end Counts

end TensorKit.Metric
