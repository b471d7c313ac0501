import TensorKit.Schedule.Build
import TensorKit.Proofs.Actions
import TensorKit.Proofs.ExactNumbers
/-!
# The pace of plateau schedules

A plateau schedule lowers its rate after more than `patience` steps without improvement and then counts nothing for
`cooldown` steps.  Over exact numbers, whatever values are measured:

* an observation never fails and keeps both counters whole and within their bounds (`Steady.exists_observe`);
* the rate is never raised and never lowered below the floor (`Eases.rate_le`, `Eases.floor_le`);
* changes of the rate are at least `cooldown + patience + 1` steps apart (`spacing`).

For the last, the *wait* is the length of the cool-down that is left plus the number of steps without improvement that
may still come.  A step shortens it by at most one, only a step at the end of a wait lowers the rate, and such a step
starts a full wait (`Eases`).
-/

namespace TensorKit.Schedule

variable {q' q : Progress ℚ} {b : ℕ} {p : Plateau ℚ}

@[simp] theorem on_fault {σ α : Type} (x : Fallible α) (s : σ) :
    (liftM x : Action σ Error α).on s = (s, x.mapError Error.fault) := rfl

namespace Plateau

variable {s : State ℚ} {m : ℚ}

/-! ## 1. One observation -/

theorem observe_cooling (h : 0 < q.cooldown) :
    (p.observe m).on (s, q) = ((s, { q with cooldown := q.cooldown - 1 }), .ok false) := by
  simp [observe, Action.on_bind, Except.mapError, Except.map, h]

theorem settle_patient (h : q.bad ≤ p.patience) : p.settle.on (s, q) = ((s, q), .ok false) := by
  simp [settle, Action.on_bind, Except.mapError, h.not_gt]

theorem settle_impatient (h : p.patience < q.bad) : ∃ rate reported,
      p.settle.on (s, q) = (({ s with rate := rate }, { q with cooldown := p.cooldown, bad := 0 }), .ok reported) ∧
      (rate = s.rate ∨ rate = max (s.rate * p.factor) p.floor ∧ p.epsilon < s.rate - rate) := by
  by_cases hdrop : p.epsilon < s.rate - max (s.rate * p.factor) p.floor
  · refine ⟨_, s.verbose, ?_, .inr ⟨rfl, hdrop⟩⟩
    simp [settle, Action.on_bind, Except.mapError, Except.map, h, hdrop]
  · refine ⟨s.rate, false, ?_, .inl rfl⟩
    simp [settle, Action.on_bind, Except.mapError, h, hdrop]

theorem exists_count (p : Plateau ℚ) (q : Progress ℚ) (m : ℚ) : ∃ q', p.count q m = .ok q' ∧
    (q' = { q with best := some m, bad := 0 } ∨ q' = { q with bad := q.bad + 1 }) := by
  unfold count
  cases q.best with
  | none => exact ⟨_, rfl, .inl rfl⟩
  | some best =>
    obtain ⟨better, hbetter⟩ : ∃ better, p.isBetter m best = .ok better := by
      unfold isBetter
      cases p.relative <;> cases p.direction <;> exact ⟨_, rfl⟩
    dsimp only
    rw [hbetter]
    cases better with
    | true => exact ⟨_, rfl, .inl rfl⟩
    | false => exact ⟨_, rfl, .inr rfl⟩

theorem observe_counting (h : q.cooldown ≤ 0) :
    ∃ q', (q' = { q with best := some m, bad := 0 } ∨ q' = { q with bad := q.bad + 1 }) ∧
      (p.observe m).on (s, q) = p.settle.on (s, q') := by
  obtain ⟨q', hq', hcases⟩ := p.exists_count q m
  refine ⟨q', hcases, ?_⟩
  simp [observe, Action.on_bind, Except.mapError, h.not_gt, hq']

structure Counts (p : Plateau ℚ) (q : Progress ℚ) : Prop where
  cooldown : ∃ c : ℕ, q.cooldown = c
  cooldown_le : q.cooldown ≤ p.cooldown
  bad : ∃ b : ℕ, q.bad = b
  bad_le : q.bad ≤ p.patience

/-- How many steps it takes at least until the rate is lowered. -/
def wait (p : Plateau ℚ) (q : Progress ℚ) : ℚ := q.cooldown + p.patience + 1 - q.bad

/-- What one observation does to the rate and the counters. -/
structure Eases (p : Plateau ℚ) (rate rate' : ℚ) (q q' : Progress ℚ) : Prop where
  counts : p.Counts q'
  wait_le : p.wait q ≤ p.wait q' + 1
  rate_le : rate' ≤ rate
  floor_le : min rate p.floor ≤ rate'
  changed : rate' ≠ rate → p.wait q = 1 ∧ p.wait q' = p.cooldown + p.patience + 1

theorem eases_same {rate : ℚ} (hcounts : p.Counts q') (hwait : p.wait q ≤ p.wait q' + 1) :
    p.Eases rate rate q q' :=
  ⟨hcounts, hwait, le_rfl, min_le_left _ _, fun h => absurd rfl h⟩

/-- Patience and cool-down are numbers of steps, and no change is made that would raise the rate. -/
structure Steady (p : Plateau ℚ) : Prop where
  patience : ∃ N : ℕ, p.patience = N
  cooldown : ∃ K : ℕ, p.cooldown = K
  epsilon : 0 ≤ p.epsilon

namespace Steady

theorem patience_nonneg (h : p.Steady) : 0 ≤ p.patience := by
  obtain ⟨N, hN⟩ := h.patience
  rw [hN]
  exact Nat.cast_nonneg N

theorem cooldown_nonneg (h : p.Steady) : 0 ≤ p.cooldown := by
  obtain ⟨K, hK⟩ := h.cooldown
  rw [hK]
  exact Nat.cast_nonneg K

theorem eases_cooling {rate : ℚ} (hq : p.Counts q) (h : 0 < q.cooldown) :
    p.Eases rate rate q { q with cooldown := q.cooldown - 1 } := by
  obtain ⟨c, hc⟩ := hq.cooldown
  have hpos : 1 ≤ c := by
    rw [hc] at h
    exact_mod_cast h
  refine eases_same ⟨⟨c - 1, by simp [hc, hpos]⟩, ?_, hq.bad, hq.bad_le⟩ ?_
  · exact (sub_le_self _ zero_le_one).trans hq.cooldown_le
  · simp only [wait]
    linarith

/-- The patience can only be used up by a step that finds it reached. -/
theorem bad_eq (h : p.Steady) (hq : p.Counts q) (hle : (b : ℚ) ≤ q.bad + 1) (hlt : p.patience < b) :
    q.bad = p.patience := by
  obtain ⟨N, hN⟩ := h.patience
  obtain ⟨a, ha⟩ := hq.bad
  refine le_antisymm hq.bad_le ?_
  rw [ha] at hle ⊢
  rw [hN] at hlt ⊢
  have hN' : N < b := by exact_mod_cast hlt
  have ha' : b ≤ a + 1 := by exact_mod_cast hle
  exact_mod_cast (by omega : N ≤ a)

/-- After a value is counted, the rate is kept and the wait goes on, or the wait was over and starts anew. -/
theorem exists_settle (h : p.Steady) (hq : p.Counts q) (hzero : q.cooldown = 0)
    (hzero' : q'.cooldown = 0) (hb : q'.bad = b) (hle : q'.bad ≤ q.bad + 1) :
    ∃ s' q'' reported, p.settle.on (s, q') = ((s', q''), .ok reported) ∧ p.Eases s.rate s'.rate q q'' := by
  rcases le_or_gt q'.bad p.patience with hpatient | himpatient
  · refine ⟨_, _, _, settle_patient hpatient, eases_same ⟨⟨0, by simp [hzero']⟩, ?_, ⟨b, hb⟩, hpatient⟩ ?_⟩
    · rw [hzero']
      exact h.cooldown_nonneg
    · simp only [wait, hzero, hzero']
      linarith
  · obtain ⟨rate, reported, hsettle, hrate⟩ := settle_impatient himpatient
    have hcounts : p.Counts { q' with cooldown := p.cooldown, bad := 0 } :=
      ⟨h.cooldown, le_rfl, ⟨0, by simp⟩, h.patience_nonneg⟩
    have hwait : p.wait q = 1 := by
      rw [wait, hzero, h.bad_eq hq (hb ▸ hle) (hb ▸ himpatient)]
      ring
    have hwait' : p.wait { q' with cooldown := p.cooldown, bad := 0 } = p.cooldown + p.patience + 1 := by
      rw [wait, sub_zero]
    have hlong : p.wait q ≤ p.wait { q' with cooldown := p.cooldown, bad := 0 } + 1 := by
      have hpatience := h.patience_nonneg
      have hcooldown := h.cooldown_nonneg
      rw [hwait, hwait']
      linarith
    refine ⟨_, _, reported, hsettle, ?_⟩
    rcases hrate with rfl | ⟨hmax, hdrop⟩
    · exact eases_same hcounts hlong
    · have hlower : rate ≤ s.rate := by
        have hepsilon := h.epsilon
        linarith
      have hfloor : min s.rate p.floor ≤ rate := hmax ▸ (min_le_right _ _).trans (le_max_right _ _)
      exact ⟨hcounts, hlong, hlower, hfloor, fun _ => ⟨hwait, hwait'⟩⟩

/-- **Step lemma**: an observation succeeds, and a step that lowers the rate comes at the end of a wait and starts a
new one. -/
theorem exists_observe (h : p.Steady) (hq : p.Counts q) (s : State ℚ) (m : ℚ) :
    ∃ s' q' reported, (p.observe m).on (s, q) = ((s', q'), .ok reported) ∧ p.Eases s.rate s'.rate q q' := by
  rcases lt_or_ge 0 q.cooldown with hcool | hcool
  · exact ⟨_, _, _, observe_cooling hcool, eases_cooling hq hcool⟩
  · obtain ⟨c, hc⟩ := hq.cooldown
    obtain ⟨b, hb⟩ := hq.bad
    have hzero : q.cooldown = 0 := le_antisymm hcool (hc ▸ Nat.cast_nonneg c)
    obtain ⟨q', hq', heq⟩ := observe_counting hcool
    rw [heq]
    rcases hq' with rfl | rfl
    · exact h.exists_settle hq hzero hzero (b := 0) (by simp) (by rw [hb]; positivity)
    · exact h.exists_settle hq hzero hzero (b := b + 1) (by simp [hb]) le_rfl

end Steady

end Plateau

/-! ## 2. Runs -/

/-- A call of a plateau schedule with a measured value, and perhaps an epoch. -/
def IsObservation (args : List (Option ℚ)) : Prop := ∃ m rest, args = some m :: rest ∧ rest.length ≤ 1

theorem exists_nextEpoch (s : State ℚ) {rest : List (Option ℚ)} (h : rest.length ≤ 1) :
    ∃ next, nextEpoch s rest = .ok next := by
  match rest, h with
  | [], _ | [none], _ | [some e], _ => exact ⟨_, rfl⟩

theorem exists_step_plateau (hp : p.Steady) (hq : p.Counts q) (s : State ℚ)
    {args : List (Option ℚ)} (hargs : IsObservation args) :
    ∃ s' q' reported, step (.plateau s p q) args = (.plateau s' p q', .ok reported) ∧ p.Eases s.rate s'.rate q q' := by
  obtain ⟨m, rest, rfl, hrest⟩ := hargs
  obtain ⟨⟨epoch, chosen⟩, hnext⟩ := exists_nextEpoch s hrest
  obtain ⟨s', q', reported, hobserve, heases⟩ := hp.exists_observe hq { s with epoch := epoch } m
  refine ⟨s', q', reported, ?_, heases⟩
  have hmetric : checkMetric shapeText (some m) = .ok m := by simp [checkMetric]
  simp [step, hnext, hmetric, hobserve]

def runFrom (s : Schedule ℚ) (calls : ℕ → List (Option ℚ)) : ℕ → Schedule ℚ
  | 0 => s
  | k + 1 => (step (runFrom s calls k) (calls k)).1

/-- **Run lemma**: the states of a run follow each other as one observation allows, without a failure. -/
theorem exists_runFrom (hp : p.Steady) (hq : p.Counts q) (s : State ℚ)
    {calls : ℕ → List (Option ℚ)} (hcalls : ∀ k, IsObservation (calls k)) :
    ∃ (ss : ℕ → State ℚ) (qs : ℕ → Progress ℚ), (∀ k, runFrom (.plateau s p q) calls k = .plateau (ss k) p (qs k)) ∧
      (∀ k, p.Counts (qs k)) ∧ (∀ k, ∃ reported,
        step (.plateau (ss k) p (qs k)) (calls k) = (.plateau (ss (k + 1)) p (qs (k + 1)), .ok reported)) ∧
      ∀ k, p.Eases (ss k).rate (ss (k + 1)).rate (qs k) (qs (k + 1)) := by
  have hform : ∀ k, ∃ s' q', runFrom (.plateau s p q) calls k = .plateau s' p q' ∧ p.Counts q' := by
    intro k
    induction k with
    | zero => exact ⟨s, q, rfl, hq⟩
    | succ k ih =>
      obtain ⟨s', q', heq, hcounts⟩ := ih
      obtain ⟨s'', q'', _, hstep, heases⟩ := exists_step_plateau hp hcounts s' (hcalls k)
      exact ⟨s'', q'', by rw [runFrom, heq, hstep], heases.counts⟩
  choose ss qs hrun hcounts using hform
  have hnext : ∀ k, ∃ reported, step (.plateau (ss k) p (qs k)) (calls k) =
      (.plateau (ss (k + 1)) p (qs (k + 1)), .ok reported) ∧
      p.Eases (ss k).rate (ss (k + 1)).rate (qs k) (qs (k + 1)) := by
    intro k
    obtain ⟨s', q', reported, hstep, heases⟩ := exists_step_plateau hp (hcounts k) (ss k) (hcalls k)
    have hsucc : Schedule.plateau (ss (k + 1)) p (qs (k + 1)) = .plateau s' p q' := by rw [← hrun, runFrom, hrun, hstep]
    obtain ⟨hs, -, hq⟩ := Schedule.plateau.inj hsucc
    rw [hs, hq]
    exact ⟨reported, hstep, heases⟩
  exact ⟨ss, qs, hrun, hcounts, fun k => (hnext k).imp fun _ h => h.1, fun k => (hnext k).elim fun _ h => h.2⟩

section Spacing

variable {rate : ℕ → ℚ} {qs : ℕ → Progress ℚ}

variable (h : ∀ k, p.Eases (rate k) (rate (k + 1)) (qs k) (qs (k + 1)))

include h

theorem wait_le_add (i d : ℕ) :
    p.wait (qs i) ≤ p.wait (qs (i + d)) + d := by
  induction d with
  | zero => simp
  | succ d ih =>
    have hstep := (h (i + d)).wait_le
    rw [add_assoc] at hstep
    push_cast
    linarith

theorem spacing {i j : ℕ} (hij : i < j)
    (hi : rate (i + 1) ≠ rate i) (hj : rate (j + 1) ≠ rate j) : (i : ℚ) + (p.cooldown + p.patience + 1) ≤ j := by
  obtain ⟨d, rfl⟩ := Nat.exists_eq_add_of_lt hij
  have hlong := wait_le_add h (i + 1) d
  rw [((h i).changed hi).2, Nat.add_right_comm, ((h (i + d + 1)).changed hj).1] at hlong
  push_cast
  linarith

theorem min_le_rate (k : ℕ) :
    min (rate 0) p.floor ≤ rate k := by
  induction k with
  | zero => exact min_le_left _ _
  | succ k ih => exact (le_min ih (min_le_right _ _)).trans (h k).floor_le

end Spacing

/-- The schedule that is made remembers nothing yet. -/
theorem exists_onPlateau (rate : ℚ) {mode kind : String} (hmode : mode = "min" ∨ mode = "max")
    (hkind : kind = "rel" ∨ kind = "abs") (hfactor : p.factor < 1) (verbose : Bool) :
    ∃ direction relative, onPlateau rate mode (some kind) p verbose =
      .ok (.plateau { base := rate, rate := rate, epoch := 0, verbose := verbose }
        { p with direction := direction, relative := relative } { cooldown := 0, best := none, bad := 0 }) := by
  have hle : Arithmetic.le (Arithmetic.decimal 10 1) p.factor = .ok false := by
    have hone : ((10 : Int) : ℚ) / 10 ^ 1 = 1 := by norm_num
    rw [Arithmetic.le_rat, Arithmetic.decimal_rat, hone, decide_eq_false hfactor.not_ge]
  unfold onPlateau
  simp only [hle, Arithmetic.isNumber_rat, Arithmetic.floating_rat, Arithmetic.whole_rat, Int.cast_zero]
  rcases hmode with rfl | rfl <;> rcases hkind with rfl | rfl
  · exact ⟨.down, true, rfl⟩
  · exact ⟨.down, false, rfl⟩
  · exact ⟨.up, true, rfl⟩
  · exact ⟨.up, false, rfl⟩

/-- **A plateau schedule respects its patience, its cool-down and its floor.**  Every step of every run succeeds, the
counters stay within their bounds, the rate only falls and never below the floor (or where it began, if that is lower),
and any two changes of the rate are at least `cooldown + patience + 1` steps apart. -/
theorem onPlateau_waits (rate : ℚ) {mode kind : String} {p : Plateau ℚ} {patience cooldown : ℕ}
    {calls : ℕ → List (Option ℚ)} (hmode : mode = "min" ∨ mode = "max") (hkind : kind = "rel" ∨ kind = "abs")
    (hfactor : p.factor < 1) (hepsilon : 0 ≤ p.epsilon) (hpatience : p.patience = patience)
    (hcooldown : p.cooldown = cooldown) (hcalls : ∀ k, IsObservation (calls k)) (verbose : Bool) :
    ∃ run : ℕ → Schedule ℚ, onPlateau rate mode (some kind) p verbose = .ok (run 0) ∧
      (∀ k, ∃ reported, step (run k) (calls k) = (run (k + 1), .ok reported)) ∧
      (∀ k, ∃ s p' q, run k = .plateau s p' q ∧ 0 ≤ q.bad ∧ q.bad ≤ patience ∧ 0 ≤ q.cooldown ∧ q.cooldown ≤ cooldown) ∧
      Antitone (fun k => (run k).state.rate) ∧ (∀ k, min rate p.floor ≤ (run k).state.rate) ∧
      ∀ i j, i < j → (run (i + 1)).state.rate ≠ (run i).state.rate → (run (j + 1)).state.rate ≠ (run j).state.rate →
        i + (cooldown + patience + 1) ≤ j := by
  obtain ⟨direction, relative, hmake⟩ := exists_onPlateau rate hmode hkind hfactor verbose
  set p' : Plateau ℚ := { p with direction := direction, relative := relative }
  have hsteady : p'.Steady := ⟨⟨patience, hpatience⟩, ⟨cooldown, hcooldown⟩, hepsilon⟩
  have hstart : p'.Counts { cooldown := 0, best := none, bad := 0 } :=
    ⟨⟨0, by simp⟩, hsteady.cooldown_nonneg, ⟨0, by simp⟩, hsteady.patience_nonneg⟩
  obtain ⟨ss, qs, hrun, hcounts, hsteps, heases⟩ :=
    exists_runFrom hsteady hstart { base := rate, rate := rate, epoch := 0, verbose := verbose } hcalls
  obtain ⟨hs, -, hq⟩ := Schedule.plateau.inj (hrun 0)
  refine ⟨fun k => .plateau (ss k) p' (qs k), ?_, hsteps, fun k => ⟨ss k, p', qs k, rfl, ?_⟩, ?_, ?_, ?_⟩
  · rw [hmake]
    exact congrArg₂ (fun s q => Except.ok (Schedule.plateau s p' q)) hs hq
  · obtain ⟨b, hb⟩ := (hcounts k).bad
    obtain ⟨c, hc⟩ := (hcounts k).cooldown
    exact ⟨hb ▸ Nat.cast_nonneg b, hpatience ▸ (hcounts k).bad_le, hc ▸ Nat.cast_nonneg c,
      hcooldown ▸ (hcounts k).cooldown_le⟩
  · exact antitone_nat_of_succ_le fun k => (heases k).rate_le
  · have hrate : (ss 0).rate = rate := by rw [← hs]
    intro k
    exact hrate ▸ min_le_rate heases k
  · intro i j hij hi hj
    have happart := spacing heases hij hi hj
    have hle : (i : ℚ) + (cooldown + patience + 1) ≤ j := by
      rw [← hcooldown, ← hpatience]
      exact happart
    exact_mod_cast hle

def halving : Plateau ℚ where
  direction := .down
  relative := true
  factor := 1 / 2
  patience := 1
  threshold := 0
  cooldown := 1
  floor := 0
  epsilon := 0

theorem onPlateau_waits_halving : ∃ run : ℕ → Schedule ℚ, onPlateau 1 "min" (some "rel") halving false = .ok (run 0) ∧
    (∀ k, ∃ reported, step (run k) [some 1] = (run (k + 1), .ok reported)) ∧ (∀ k, 0 ≤ (run k).state.rate) ∧
    ∀ i j, i < j → (run (i + 1)).state.rate ≠ (run i).state.rate → (run (j + 1)).state.rate ≠ (run j).state.rate →
      i + 3 ≤ j := by
  have hfactor : halving.factor < 1 := by norm_num [halving]
  have hpatience : halving.patience = (1 : ℕ) := Nat.cast_one.symm
  have hcooldown : halving.cooldown = (1 : ℕ) := Nat.cast_one.symm
  have hcalls : ∀ k : ℕ, IsObservation ((fun _ : ℕ => [some 1]) k) := fun _ => ⟨1, [], rfl, zero_le_one⟩
  obtain ⟨run, hmake, hsteps, -, -, hfloor, hspacing⟩ :=
    onPlateau_waits 1 (.inl rfl) (.inl rfl) hfactor le_rfl hpatience hcooldown hcalls false
  refine ⟨run, hmake, hsteps, fun k => ?_, hspacing⟩
  have hle := hfloor k
  rwa [min_eq_right (show halving.floor ≤ 1 from zero_le_one)] at hle

/-- The bound is attained. -/
example : ((List.range 7).map fun k => (runFrom (.plateau { base := 1, rate := 1, epoch := 0, verbose := false } halving
    { cooldown := 0, best := none, bad := 0 }) (fun _ => [some 1]) k).state.rate) =
    [1, 1, 1, 1 / 2, 1 / 2, 1 / 2, 1 / 4] := by
  decide +kernel

end TensorKit.Schedule
