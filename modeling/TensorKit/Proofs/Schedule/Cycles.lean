import TensorKit.Proofs.ExactNumbers
import TensorKit.Proofs.Schedule.Resuming
/-!
# Schedules that go in cycles

A schedule of one cycle rises and falls along stretches that are each linear, and a cyclic one repeats a triangle.  Over
exact numbers a run of either is what its rule says at each epoch, so that the bounds of the rates are those of points
between two ends.
-/

namespace TensorKit.Schedule

open Arithmetic hiding min max

open List Set

/-! ## 1. Runs of plain schedules -/

/-- A schedule that is made, after a number of steps without arguments. -/
def afterSteps (k : ℕ) (made : Except Error (Schedule ℚ)) : Except Error (Schedule ℚ) := do
  (replicate k []).foldlM advance (← made)

theorem isWhole_natCast (n : ℕ) : isWhole (n : ℚ) := by simp [isWhole, Rat.isInt]

theorem isFloating_rat (q : ℚ) : isFloating q := rfl

theorem liftM_ok {α : Type} (a : α) : (liftM (Except.ok a : Fallible α) : Except Error α) = .ok a := rfl

section Runs

variable {rule : Rule ℚ} {base : ℚ} {verbose : Bool} {P : ℕ → ℚ → Prop} {k : ℕ}

theorem afterSteps_succ (k : ℕ) (made : Except Error (Schedule ℚ)) :
    afterSteps (k + 1) made = (do advance (← afterSteps k made) []) := by
  cases made with
  | error e => rfl
  | ok s =>
    show (replicate (k + 1) []).foldlM advance s = (replicate k []).foldlM advance s >>= fun t => advance t []
    rw [replicate_succ', foldlM_append]
    simp

theorem advance_plain {s : State ℚ} {v : ℚ} (hk : s.epoch + 1 = k)
    (h : rule.rate { s with epoch := (k : ℚ) } = .ok v) :
    advance (.plain s rule) [] = .ok (.plain { s with epoch := (k : ℚ), rate := v } rule) := by
  have hnext : nextEpoch s [] = .ok ((k : ℚ), false) := by
    rw [nextEpoch, add_rat, whole_rat, Int.cast_one, hk]
    rfl
  simp only [advance, step, hnext, h, Bool.false_eq_true, if_false]
  rfl

theorem plainFrom_rat (base : ℚ) (start : Start ℚ) (rule : Rule ℚ) : plainFrom base rule start =
    begin (.plain ⟨base, base, start.epoch, start.verbose⟩ rule) := by
  rw [plainFrom, initial, isNumber_rat, floating_rat]
  rfl

/-- **Run lemma**: a schedule that starts before epoch 0 is at epoch `k` after `k` steps, with the rate that its rule
gives there. -/
theorem exists_afterSteps (h : ∀ i ≤ k, ∃ v, P i v ∧ ∀ r, rule.rate ⟨base, r, i, verbose⟩ = .ok v) :
    ∃ v, P k v ∧ afterSteps k (plainFrom base rule { epoch := -1, verbose := verbose }) =
      .ok (.plain ⟨base, v, k, verbose⟩ rule) := by
  induction k with
  | zero =>
    obtain ⟨v, hv, hrate⟩ := h 0 le_rfl
    refine ⟨v, hv, ?_⟩
    have hfirst := advance_plain (s := ⟨base, base, -1, verbose⟩) (by norm_num) (hrate base)
    rw [← begin_eq_advance] at hfirst
    rw [plainFrom_rat, hfirst]
    rfl
  | succ k ih =>
    obtain ⟨v, -, hrun⟩ := ih fun i hi => h i (hi.trans k.le_succ)
    obtain ⟨w, hw, hrate⟩ := h (k + 1) le_rfl
    refine ⟨w, hw, ?_⟩
    rw [afterSteps_succ, hrun]
    exact advance_plain (by push_cast; rfl) (hrate v)

theorem plainFrom_error {e : Error} (h : rule.rate ⟨base, base, 0, verbose⟩ = .error e) :
    plainFrom base rule { epoch := -1, verbose := verbose } = .error e := by
  rw [plainFrom_rat]
  have hnext : nextEpoch (⟨base, base, -1, verbose⟩ : State ℚ) [] = .ok (0, false) := by simp [nextEpoch]
  simp [begin, step, hnext, h]

end Runs

/-! ## 2. Stretches -/

section Stretches

variable {k : ℚ} {I : Set ℚ} (hI : Convex ℚ I)

/-- The stretches between given steps, with the rates at their ends. -/
def stretches : List ℚ → List ℚ → List (Phase ℚ)
  | a :: b :: steps, r :: q :: rates =>
    { first := a, last := b, size := b - a, start := r, finish := q } :: stretches (b :: steps) (q :: rates)
  | _, _ => []

theorem phasesOf_rat (steps rates : List ℚ) : phasesOf steps rates = .ok (stretches steps rates) := by
  fun_induction stretches steps rates with
  | case1 a b steps r q rates ih =>
    rw [phasesOf, ih]
    rfl
  | case2 steps rates h => rw [phasesOf.eq_2 _ _ h]

/-- A stretch that ends where it begins has no rate for this step. -/
theorem phaseRate_empty {p : Phase ℚ} (hlast : p.last = k) (hsize : p.size = 0) (ps : List (Phase ℚ)) :
    phaseRate .linear k (p :: ps) = .error .zeroDivision := by
  have hempty : phaseRate.inPhase .linear k p = .error .zeroDivision := by
    rw [phaseRate.inPhase, hsize]
    rfl
  cases ps with
  | nil => exact hempty
  | cons q ps => rwa [phaseRate, le_rat, decide_eq_true hlast.ge]

include hI

theorem exists_inPhase {p : Phase ℚ} (hsize : p.size = p.last - p.first) (hfirst : p.first ≤ k) (hlast : k ≤ p.last)
    (hne : p.first ≠ p.last) (hstart : p.start ∈ I) (hfinish : p.finish ∈ I) :
    ∃ v ∈ I, phaseRate.inPhase .linear k p = .ok v := by
  have hpos : 0 < p.size := hsize ▸ sub_pos.mpr (lt_of_le_of_ne (hfirst.trans hlast) hne)
  have hfraction : (k - p.first) / p.size ∈ Icc 0 1 :=
    ⟨div_nonneg (sub_nonneg.mpr hfirst) hpos.le, (div_le_one hpos).mpr (hsize ▸ sub_le_sub_right hlast _)⟩
  refine ⟨_, hI.add_smul_sub_mem hstart hfinish hfraction, ?_⟩
  simp only [phaseRate.inPhase, Annealing.between, sub_rat, mul_rat, add_rat, div_rat _ _ hpos.ne']
  show Except.ok _ = _
  rw [smul_eq_mul, mul_comm, add_comm]

/-- The rate of a step that the stretches reach is between the rates at their ends.  The ends need not be in order,
since a later stretch is only entered by steps after its beginning. -/
theorem exists_phaseRate : ∀ (steps rates : List ℚ) {a b r q : ℚ}, steps.length = rates.length → a ≤ k →
    (k ≤ b → a ≠ b) → k ≤ (b :: steps).getLast (cons_ne_nil _ _) → (∀ x ∈ r :: q :: rates, x ∈ I) →
    ∃ v ∈ I, phaseRate .linear k (stretches (a :: b :: steps) (r :: q :: rates)) = .ok v
  | [], [], a, b, r, q, _, hbegun, hne, hlast, hrates =>
    exists_inPhase hI rfl hbegun hlast (hne hlast) (hrates r (by simp)) (hrates q (by simp))
  | c :: steps, q' :: rates, a, b, r, q, hlen, hbegun, hne, hlast, hrates => by
    show ∃ v ∈ I, (if decide (k ≤ b) = true then _ else _) = _
    split
    next hb =>
      have hb := of_decide_eq_true hb
      exact exists_inPhase hI rfl hbegun hb (hne hb) (hrates r (by simp)) (hrates q (by simp))
    next hb =>
      have hb : b < k := by simpa using hb
      exact exists_phaseRate steps rates (Nat.succ.inj hlen) hb.le (fun hc => (hb.trans_le hc).ne) hlast
        fun x hx => hrates x (.tail _ hx)

end Stretches

/-! ## 3. One cycle -/

section OneCycle

variable {most divisor least fraction : ℚ} {total : ℕ} {three verbose : Bool}

/-- The stretches of one cycle that starts with a given rate. -/
def cyclePhases (first most least fraction : ℚ) (total : ℕ) : Bool → List (Phase ℚ)
  | true => stretches [0, fraction * total - 1, 2 * fraction * total - 2, total - 1] [first, most, first, least]
  | false => stretches [0, fraction * total - 1, total - 1] [first, most, least]

theorem oneCycle_rat (hmost : 0 ≤ most) (hleast : 0 ≤ least) (htotal : 0 < total)
    (hfraction : 0 ≤ fraction ∧ fraction ≤ 1) (hthree : three → fraction < 1 / 2) (hdivisor : divisor ≠ 0)
    (start : Start ℚ) : oneCycle most total divisor least fraction (.ok .linear) three start =
      plainFrom (most / divisor)
        (.oneCycle total (cyclePhases (most / divisor) most least fraction total three) .linear) start := by
  have hhalf (h : three) : ¬ (5 : ℚ) / 10 ≤ fraction := by linarith [hthree h]
  cases three <;> simp [oneCycle, ensure, hmost.not_gt, hleast.not_gt, htotal, hfraction.1.not_gt,
    hfraction.2.not_gt, isWhole_natCast, div_rat _ _ hdivisor, phasesOf_rat, isFloating_rat, cyclePhases, hhalf]

/-- **Step lemma**: the rule has a rate for every step of the cycle, if its first stretch is not empty. -/
theorem exists_rate_oneCycle {first : ℚ} {I : Set ℚ} (hI : Convex ℚ I) (hfirst : first ∈ I) (hmost : most ∈ I)
    (hleast : least ∈ I) (hne : fraction * total ≠ 1) {k : ℕ} (hk : k < total) : ∃ v ∈ I, ∀ r,
      (Rule.oneCycle (total : ℚ) (cyclePhases first most least fraction total three) .linear).rate
        ⟨first, r, k, verbose⟩ = .ok v := by
  have hlast : (k : ℚ) ≤ total - 1 := le_sub_iff_add_le.mpr (by exact_mod_cast hk)
  have hbegun : (0 : ℚ) ≤ k := k.cast_nonneg
  have hends : (k : ℚ) ≤ fraction * total - 1 → 0 ≠ fraction * total - 1 := fun _ h => hne (sub_eq_zero.mp h.symm)
  have hphases : ∃ v ∈ I, phaseRate .linear (k : ℚ) (cyclePhases first most least fraction total three) = .ok v := by
    cases three with
    | false => exact exists_phaseRate hI [_] [_] rfl hbegun hends hlast (by simp [hfirst, hmost, hleast])
    | true => exact exists_phaseRate hI [_, _] [_, _] rfl hbegun hends hlast (by simp [hfirst, hmost, hleast])
  obtain ⟨v, hv, hrate⟩ := hphases
  refine ⟨v, hv, fun r => ?_⟩
  have hwithin : decide ((total : ℚ) < k) = false := by simpa using hk.le
  simp only [Rule.rate, lt_rat, hrate, hwithin]
  rfl

/-- **One cycle is defined and stays within its rates, unless its first stretch is empty.**  For all settings that are
accepted, all steps of the cycle can be taken, and all rates are between the least and the largest of the three given
ones, if and only if the first stretch does not end at the step where it begins; if it does, the schedule cannot be
made. -/
theorem oneCycle_bounded_iff (hmost : 0 ≤ most) (hleast : 0 ≤ least) (htotal : 0 < total)
    (hfraction : 0 ≤ fraction ∧ fraction ≤ 1) (hthree : three = true → fraction < 1 / 2) (hdivisor : divisor ≠ 0)
    (verbose : Bool) :
    let made := oneCycle most total divisor least fraction (.ok .linear) three { epoch := -1, verbose := verbose }
    ((∀ k < total, ∃ s, afterSteps k made = .ok s ∧ min (min (most / divisor) most) least ≤ s.state.rate ∧
        s.state.rate ≤ max (max (most / divisor) most) least) ↔ fraction * total ≠ 1) ∧
      (fraction * total = 1 → made = .error (.fault .zeroDivision)) := by
  intro made
  have hmade : made = _ := oneCycle_rat hmost hleast htotal hfraction hthree hdivisor _
  have hempty : fraction * total = 1 → made = .error (.fault .zeroDivision) := by
    intro hone
    rw [hmade]
    refine plainFrom_error ?_
    have hrate : phaseRate .linear 0 (cyclePhases (most / divisor) most least fraction total three) =
        .error .zeroDivision := by
      cases three <;> exact phaseRate_empty (by simp [hone]) (by simp [hone]) _
    have hwithin : decide ((total : ℚ) < 0) = false := by simp
    simp only [Rule.rate, lt_rat, hrate, hwithin]
    rfl
  refine ⟨⟨fun h hone => ?_, fun hne k hk => ?_⟩, hempty⟩
  · obtain ⟨s, hs, -⟩ := h 0 htotal
    rw [hempty hone] at hs
    cases hs
  · let band := Icc (min (min (most / divisor) most) least) (max (max (most / divisor) most) least)
    have hfirst : most / divisor ∈ band := by simp [band]
    have hhighest : most ∈ band := by simp [band]
    have hlast : least ∈ band := by simp [band]
    obtain ⟨v, hv, hrun⟩ := exists_afterSteps fun i (hi : i ≤ k) =>
      exists_rate_oneCycle (convex_Icc _ _) hfirst hhighest hlast hne (hi.trans_lt hk)
    rw [hmade]
    exact ⟨_, hrun, hv⟩

/-- A cycle of ten steps in two stretches, and one of four steps in three whose first stretch is empty. -/
theorem oneCycle_bounded_iff_ten :
    (∀ k < 10, ∃ s, afterSteps k (oneCycle 1 (10 : ℕ) 25 0 (3 / 10) (.ok .linear) false
        { epoch := -1, verbose := false }) = .ok s ∧ 0 ≤ s.state.rate ∧ s.state.rate ≤ 1) ∧
      oneCycle 1 ((4 : ℕ) : ℚ) 25 0 (1 / 4) (.ok .linear) true { epoch := -1, verbose := false } =
        .error (.fault .zeroDivision) := by
  have hten := (@oneCycle_bounded_iff 1 25 0 (3 / 10) 10 false (by norm_num) le_rfl (by norm_num) (by norm_num)
    (by simp) (by norm_num) false).1.mpr (by norm_num)
  have hfour := (@oneCycle_bounded_iff 1 25 0 (1 / 4) 4 true (by norm_num) le_rfl (by norm_num) (by norm_num)
    (by norm_num) (by norm_num) false).2 (by norm_num)
  norm_num at hten
  exact ⟨hten, hfour⟩

end OneCycle

/-! ## 4. Waves -/

section Waves

variable {base most gamma : ℚ} {up : ℕ} {down : Option ℕ} {scale : Scale} {wave : Wave} {verbose : Bool}

/-- The part of its height that a wave has after `k` steps. -/
def waveFactor (up down k : ℕ) : ℚ :=
  if k % (up + down) ≤ up then (k % (up + down) : ℕ) / up
  else ((up + down : ℕ) - (k % (up + down) : ℕ)) / down

theorem cyclicRate_rat {up down : ℕ} (hup : 0 < up) (hdown : 0 < down) {h : ℚ} {height : Curve ℚ} {k : ℕ}
    (hheight : height (1 + (k / (up + down) : ℕ)) = .ok h) (amplitude base : ℚ) :
    cyclicRate ((up + down : ℕ) : ℚ) (up / (up + down : ℕ)) amplitude height .cycle base k =
      .ok (base + h * amplitude * waveFactor up down k) := by
  have hc : ((up + down : ℕ) : ℚ) ≠ 0 := by positivity
  have hfloor : floorDiv (k : ℚ) (up + down : ℕ) = .ok ((k / (up + down) : ℕ) : ℚ) := by
    show (if _ then _ else Except.ok _) = _
    rw [if_neg hc, Rat.floor_natCast_div_natCast]
    norm_cast
  have hplace :
      1 + (k : ℚ) / (up + down : ℕ) - (1 + (k / (up + down) : ℕ)) = (k % (up + down) : ℕ) / (up + down : ℕ) := by
    have hk : (k : ℚ) = (up + down : ℕ) * (k / (up + down) : ℕ) + (k % (up + down) : ℕ) := by
      exact_mod_cast (Nat.div_add_mod k (up + down)).symm
    field_simp
    rw [hk]
    ring
  have hone : (decimal 10 1 : ℚ) = 1 := by norm_num
  have hrising : ((up : ℚ) / (up + down : ℕ)) ≠ 0 := by positivity
  simp only [cyclicRate, hfloor, div_rat _ _ hc, hone, ok_bind, add_rat, sub_rat, whole_rat, Int.cast_one, hplace,
    le_rat, mul_rat, hheight]
  by_cases hj : k % (up + down) ≤ up
  · have hle : ((k % (up + down) : ℕ) : ℚ) / (up + down : ℕ) ≤ up / (up + down : ℕ) := by gcongr
    simp only [decide_eq_true hle, if_true, div_rat _ _ hrising, waveFactor, if_pos hj,
      div_div_div_cancel_right₀ hc, ok_bind, ← mul_rotate h]
  · have hlt : ¬ ((k % (up + down) : ℕ) : ℚ) / (up + down : ℕ) ≤ up / (up + down : ℕ) := by
      rw [div_le_div_iff_of_pos_right (by positivity)]
      exact_mod_cast hj
    have hfalling : 1 - (up : ℚ) / (up + down : ℕ) = down / (up + down : ℕ) := by
      field_simp
      push_cast
      ring
    simp only [decide_eq_false hlt, hfalling, Bool.false_eq_true, if_false]
    rw [div_rat _ _ (by positivity), waveFactor, if_neg hj, one_sub_div hc, div_div_div_cancel_right₀ hc, ok_bind,
      mul_rotate h]

theorem cyclic_rat (hmost : 0 ≤ most) (hup : 0 < up) (hdown : ∀ d ∈ down, 0 < d) (start : Start ℚ) :
    cyclic base most up (down.map Nat.cast) (some wave) gamma none (some scale) start = plainFrom base
      (.cyclic ((up + down.getD up : ℕ) : ℚ) (up / (up + down.getD up : ℕ)) (most - base) (wave.height gamma).1
        (wave.height gamma).2) start := by
  have hsum (d : ℕ) : (up : ℚ) + d ≠ 0 := by positivity
  cases down <;> simp_all [cyclic, ensure, isWhole_natCast, isFloating_rat]

/-- The height of a wave as a part of the first one: all are equal, or each is half as high as the one before. -/
def waveScale (wave : Wave) (q : ℕ) : ℚ := if wave = .halving then (1 / 2) ^ q else 1

theorem height_wave (hwave : wave ≠ .exponential) (gamma : ℚ) (q : ℕ) :
    (wave.height gamma).1 (1 + q) = .ok (waveScale wave q) := by
  cases wave with
  | triangular => simp [Wave.height, waveScale]
  | halving =>
    have htwo : (decimal 20 1 : ℚ) = 2 := by norm_num
    have hpow : pow (2 : ℚ) q = .ok (2 ^ q) := by
      have hwhole := isWhole_natCast q
      show (if isWhole (q : ℚ) = true then _ else _) = _
      simp [hwhole]
    have hdiv : div 1 ((2 : ℚ) ^ q) = .ok (1 / 2 ^ q) := div_rat _ _ (by positivity)
    simp [Wave.height, htwo, hpow, waveScale]
  | exponential => exact absurd rfl hwave

/-- **Step lemma**: the rule has a rate for every step. -/
theorem rate_cyclic {down : ℕ} (hup : 0 < up) (hdown : 0 < down) (hwave : wave ≠ .exponential) (base most gamma r : ℚ)
    (verbose : Bool) (k : ℕ) :
    (Rule.cyclic ((up + down : ℕ) : ℚ) (up / (up + down : ℕ)) (most - base) (wave.height gamma).1
      (wave.height gamma).2).rate ⟨base, r, k, verbose⟩ =
        .ok (base + waveScale wave (k / (up + down)) * (most - base) * waveFactor up down k) := by
  have hscale : (wave.height gamma).2 = .cycle := by cases wave <;> first | rfl | exact absurd rfl hwave
  have hrate := cyclicRate_rat hup hdown (height_wave hwave gamma (k / (up + down))) (most - base) base
  simp only [Rule.rate, hscale, hrate]
  rfl

theorem waveFactor_mem {up down : ℕ} (hup : 0 < up) (hdown : 0 < down) (k : ℕ) : waveFactor up down k ∈ Icc 0 1 := by
  have hlt : k % (up + down) < up + down := Nat.mod_lt k (by omega)
  unfold waveFactor
  split
  next hle => exact ⟨by positivity, div_le_one_of_le₀ (by exact_mod_cast hle) up.cast_nonneg⟩
  next hgt =>
    have hleft : ((up + down : ℕ) : ℚ) - (k % (up + down) : ℕ) = (up + down - k % (up + down) : ℕ) :=
      (Nat.cast_sub hlt.le).symm
    rw [hleft]
    exact ⟨by positivity, div_le_one_of_le₀ (by exact_mod_cast (by omega)) down.cast_nonneg⟩

/-- **Waves are triangles.**  After `k` steps the rate is above the base by the part `waveFactor` of the way to the
largest rate, lowered with the number of the wave if waves are halved.  If they are not, the rates repeat after each
wave and stay between the base and the largest rate. -/
theorem cyclic_triangles (hmost : 0 ≤ most) (hup : 0 < up) (hdown : ∀ d ∈ down, 0 < d) (hwave : wave ≠ .exponential)
    (base gamma : ℚ) (scale : Scale) (verbose : Bool) :
    let made := cyclic base most up (down.map Nat.cast) (some wave) gamma none (some scale)
      { epoch := -1, verbose := verbose }
    let period := up + down.getD up
    let rate (k : ℕ) := base + waveScale wave (k / period) * (most - base) * waveFactor up (down.getD up) k
    (∀ k, ∃ s, afterSteps k made = .ok s ∧ s.state.rate = rate k) ∧
      (wave = .triangular → ∀ k, rate (k + period) = rate k ∧ rate k ∈ uIcc base most) := by
  intro made period rate
  have hpos : 0 < down.getD up := by
    cases down with
    | none => exact hup
    | some d => exact hdown d rfl
  have hmade : made = _ := cyclic_rat hmost hup hdown _
  refine ⟨fun k => ?_, ?_⟩
  · obtain ⟨v, hv, hrun⟩ := exists_afterSteps (P := fun k v => v = rate k) (k := k)
      fun i _ => ⟨_, rfl, fun r => rate_cyclic hup hpos hwave base most gamma r verbose i⟩
    rw [hmade, hrun]
    exact ⟨_, rfl, hv⟩
  · rintro rfl k
    have hperiodic : waveFactor up (down.getD up) (k + period) = waveFactor up (down.getD up) k := by
      simp only [waveFactor, period, Nat.add_mod_right]
    have hmem := (convex_uIcc base most).add_smul_sub_mem left_mem_uIcc right_mem_uIcc (waveFactor_mem hup hpos k)
    simp only [rate, waveScale, hperiodic, reduceCtorEq, if_false, true_and, one_mul]
    rwa [mul_comm]

/-- Waves of three steps up and two down; the second is half as high as the first. -/
theorem cyclic_triangles_halving : ∃ s, afterSteps 6 (cyclic 1 4 (3 : ℕ) (some (2 : ℕ)) (some .halving) 1 none
    (some .cycle) { epoch := -1, verbose := false }) = .ok s ∧ s.state.rate = 3 / 2 := by
  obtain ⟨s, hs, hrate⟩ := (@cyclic_triangles 4 3 (some 2) .halving (by norm_num) (by norm_num) (by simp) (by simp) 1 1
    .cycle false).1 6
  refine ⟨s, hs, hrate.trans ?_⟩
  norm_num [waveScale, waveFactor]

end Waves

end TensorKit.Schedule
