import Mathlib
import TensorKit.Schedule.Settings
import TensorKit.Proofs.Actions
/-!
# Saving and restoring schedules

A schedule is saved as its epoch and its rate; a plateau schedule adds its counters and its best value, and a warm-up
the saved state of the schedule after it.  So a restored schedule goes on as the saved one only if nothing else changes.

* **Steps.**  `Follows` says what steps can make of a schedule: its form and its settings stay, at every depth.  One
  step keeps to it whether it succeeds or fails (`follows_step`), hence every run does (`follows_run`).
* **Saving.**  Loading a saved state into the schedule where the run began gives the schedule that was saved, in all its
  parts (`load_save`).  No law of arithmetic is used.
* **Documents.**  A saved state is written as a table with text keys, and read back as it was (`levels_document`) unless
  the best value is null.  A value that is no number is never accepted as the best one (`Constructed.writable`), so this
  does not happen.

Together: a schedule that is restored goes on exactly as the one that was saved (`restore_resumes`).
-/

namespace TensorKit.Schedule

open Arithmetic List Arguments

variable {ν : Type}
variable {r : Record Value} {α : Type} {kind : String} {named : List (String × α)}

/-! ## 1. What steps change -/

/-- What a state keeps from the making of the schedule on. -/
def State.SameBase (s t : State ν) : Prop := s.base = t.base ∧ s.verbose = t.verbose

theorem State.SameBase.trans {s t u : State ν} (h : s.SameBase t) (h' : t.SameBase u) : s.SameBase u :=
  ⟨h.1.trans h'.1, h.2.trans h'.2⟩

theorem State.SameBase.updated {s t : State ν} (h : s.SameBase t) :
    { s with epoch := t.epoch, rate := t.rate } = t := by
  obtain ⟨hbase, hverbose⟩ := h
  rw [hbase, hverbose]

variable [Arithmetic ν] {s t : Schedule ν}

/-- What observing values makes of the best value: it stays, or it is a value that was observed. -/
def Progress.Observed (q r : Progress ν) : Prop :=
  r.best = q.best ∨ ∃ a m, checkMetric shapeText a = .ok m ∧ r.best = some m

/-- What steps can make of a schedule: its form and its settings stay. -/
inductive Follows : Schedule ν → Schedule ν → Prop
  | plain {s t : State ν} (rule : Rule ν) (h : s.SameBase t) : Follows (.plain s rule) (.plain t rule)
  | plateau {s t : State ν} (p : Plateau ν) {q r : Progress ν} (h : s.SameBase t) (hbest : q.Observed r) :
    Follows (.plateau s p q) (.plateau t p r)
  | warmup {s t : State ν} (ramp : Ramp ν) {a b : Schedule ν} (h : s.SameBase t) (hafter : Follows a b) :
    Follows (.warmup s ramp a) (.warmup t ramp b)

theorem Progress.Observed.trans {q r t : Progress ν} (h : q.Observed r) (h' : r.Observed t) : q.Observed t := by
  rcases h' with heq | hnew
  · rcases h with heq' | ⟨a, m, ha, hm⟩
    · exact .inl (heq.trans heq')
    · exact .inr ⟨a, m, ha, heq.trans hm⟩
  · exact .inr hnew

namespace Follows

theorem refl : ∀ s : Schedule ν, Follows s s
  | .plain _ rule => .plain rule ⟨rfl, rfl⟩
  | .plateau _ p _ => .plateau p ⟨rfl, rfl⟩ (.inl rfl)
  | .warmup _ ramp after => .warmup ramp ⟨rfl, rfl⟩ (refl after)

theorem trans {u : Schedule ν} (h : Follows s t) (h' : Follows t u) : Follows s u := by
  induction h generalizing u with
  | plain rule h =>
    cases h' with
    | plain _ h' => exact .plain rule (h.trans h')
  | plateau p h hbest =>
    cases h' with
    | plateau _ h' hbest' => exact .plateau p (h.trans h') (hbest.trans hbest')
  | warmup ramp h _ ih =>
    cases h' with
    | warmup _ h' hafter => exact .warmup ramp (h.trans h') (ih hafter)

end Follows

theorem keeps_fault {σ : Type} {P : σ → Prop} (x : Fallible α) :
    Action.Keeps P (fun _ => True) (liftM x : Action σ Error α) :=
  Action.Keeps.lift fun _ _ => trivial

namespace Plateau

/-- What observing a value may have changed. -/
def Changed (m : ν) (t t' : State ν × Progress ν) : Prop :=
  t.1.SameBase t'.1 ∧ (t'.2.best = t.2.best ∨ t'.2.best = some m)

theorem best_of_count {p : Plateau ν} {q q' : Progress ν} {m : ν} (h : p.count q m = .ok q') :
    q'.best = q.best ∨ q'.best = some m := by
  obtain ⟨better, h⟩ : ∃ better : Bool, (if better then pure { q with best := some m, bad := whole 0 }
      else do return { q with bad := ← add q.bad (whole 1) } : Fallible (Progress ν)) = .ok q' := by
    unfold count at h
    split at h
    · exact ⟨true, h⟩
    · obtain ⟨better, -, h⟩ := of_bind_eq_ok h
      exact ⟨better, h⟩
  split at h
  · exact .inr (Except.ok.inj h ▸ rfl)
  · obtain ⟨bad, -, h⟩ := of_bind_eq_ok h
    exact .inl (Except.ok.inj h ▸ rfl)

theorem keeps_settle (p : Plateau ν) (m : ν) (t : State ν × Progress ν) :
    Action.Keeps (Changed m t) (fun _ => True) p.settle := by
  refine .bind .get fun (s, q) hsq => .bind (keeps_fault _) fun impatient _ => ?_
  split
  · refine .bind (.set hsq) fun _ _ => .bind (keeps_fault _) fun product _ => ?_
    refine .bind (keeps_fault _) fun lowered _ => .bind (keeps_fault _) fun drop _ => ?_
    refine .bind (keeps_fault _) fun enough _ => ?_
    split
    · exact .bind (.modify fun _ h => h) fun _ _ => .pure trivial
    · exact .pure trivial
  · exact .pure trivial

/-- Observing a value changes the rate and what is remembered only, and the best value is the one before or the observed
one. -/
theorem keeps_observe (p : Plateau ν) (m : ν) (t : State ν × Progress ν) :
    Action.Keeps (Changed m t) (fun _ => True) (p.observe m) := by
  refine .bind .get fun (s, q) hsq => .bind (keeps_fault _) fun cooling _ => ?_
  split
  · exact .bind (keeps_fault _) fun left _ => .bind (.set hsq) fun _ _ => .pure trivial
  · refine .bind (V := fun q' => q'.best = q.best ∨ q'.best = some m) ?_ fun q' hq' =>
      .bind (.set ⟨hsq.1, ?_⟩) fun _ _ => p.keeps_settle m t
    · refine .lift fun q' h => ?_
      cases hcount : p.count q m with
      | error k =>
        rw [hcount] at h
        cases h
      | ok q'' =>
        rw [hcount] at h
        exact Except.ok.inj h ▸ best_of_count hcount
    · rcases hq' with heq | heq
      · rw [heq]
        exact hsq.2
      · exact .inr heq

end Plateau

/-- **Step lemma**: a step changes no setting, also when it fails. -/
theorem follows_step : ∀ (s : Schedule ν) (args : List (Option ν)), Follows s (step s args).1
  | .plain s rule, args => by
    unfold step
    split
    · exact .refl _
    · dsimp only
      split <;> exact .plain rule ⟨rfl, rfl⟩
  | .plateau s p q, args => by
    unfold step
    split
    · exact .refl _
    · split
      · exact .refl _
      next epoch _ _ =>
        dsimp only
        split
        · exact .plateau p ⟨rfl, rfl⟩ (.inl rfl)
        next m hm =>
          obtain ⟨hbase, hbest⟩ := (p.keeps_observe m ({ s with epoch := epoch }, q) _ ⟨⟨rfl, rfl⟩, .inl rfl⟩).1
          exact .plateau p hbase (hbest.imp_right fun h => ⟨_, m, hm, h⟩)
  | .warmup s ramp after, args => by
    have hafter (s : State ν) : Follows after (warmRate s ramp after (step after)).1 := by
      unfold warmRate
      split
      · exact .refl _
      · exact .refl _
      · split
        · exact .refl _
        · exact follows_step after _
    unfold step
    split
    · exact .refl _
    · dsimp only
      split <;> exact .warmup ramp ⟨rfl, rfl⟩ (hafter _)

/-! ## 2. Runs -/

def advance (s : Schedule ν) (args : List (Option ν)) : Except Error (Schedule ν) := do
  let (s', result) := step s args
  let _ ← result
  return s'

/-- The epochs and the rates after each of some steps, all of which have to succeed. -/
def trace : Schedule ν → List (List (Option ν)) → Except Error (List (ν × ν))
  | _, [] => .ok []
  | s, args :: rest => do
    let s' ← advance s args
    return (s'.state.epoch, s'.state.rate) :: (← trace s' rest)

theorem follows_advance {args : List (Option ν)} (h : advance s args = .ok t) : Follows s t := by
  obtain ⟨_, -, h⟩ := of_bind_eq_ok h
  rw [← Except.ok.inj h]
  exact follows_step s args

/-- **Run lemma**: no number of steps changes a setting. -/
theorem follows_run {calls : List (List (Option ν))} (h : calls.foldlM advance s = .ok t) : Follows s t :=
  of_foldlM_eq_ok advance (fun hs hstep => hs.trans (follows_advance hstep)) h (.refl s)

/-- What is seen of two runs one after the other is what is seen of the second, after the first. -/
theorem trace_append {first second : List (List (Option ν))} {seen : List (ν × ν)}
    (h : trace s (first ++ second) = .ok seen) :
    ∃ mid, first.foldlM advance s = .ok mid ∧ trace mid second = .ok (seen.drop first.length) := by
  induction first generalizing s seen with
  | nil => exact ⟨s, rfl, h⟩
  | cons args first ih =>
    obtain ⟨s', hs', later, hlater, h⟩ := of_bind₂_eq_ok h
    obtain ⟨mid, hmid, hsecond⟩ := ih hlater
    refine ⟨mid, ?_, ?_⟩
    · rwa [foldlM_cons, hs']
    · rwa [← Except.ok.inj h]

/-! ## 3. Saving and loading -/

/-- **A saved state determines the schedule**: loading it where the steps began gives the schedule that was saved. -/
theorem load_save (h : Follows s t) : load s (save t) = (t, .ok ()) := by
  induction h with
  | plain rule h => exact congrArg (fun s => (Schedule.plain s rule, Except.ok ())) h.updated
  | @plateau s t p q r h _ => exact congrArg (fun s => (Schedule.plateau s p r, Except.ok ())) h.updated
  | @warmup s t ramp a b h _ ih =>
    have hstate : (loadState { epoch := t.epoch, rate := t.rate }).on s = (t, .ok ()) :=
      congrArg (fun s => (s, Except.ok ())) h.updated
    rw [save, load, hstate, ih]

/-! ## 4. Documents -/

/-- No schedule remembers null as its best value, which could not be told from having none. -/
def Writable : Schedule Value → Prop
  | .plain _ _ => True
  | .plateau _ _ q => q.best ≠ some .null
  | .warmup _ _ after => Writable after

theorem ne_null_of_checkMetric {a : Option Value} {m : Value} (h : checkMetric shapeText a = .ok m) : m ≠ .null := by
  unfold checkMetric at h
  split at h
  · cases h
  · split at h
    next hextent =>
      cases h
      rintro rfl
      cases hextent
    · cases h
    · split at h
      next hnumber =>
        cases h
        rintro rfl
        exact absurd hnumber (by decide)
      · cases h

theorem Follows.writable {s t : Schedule Value} (h : Follows s t) (hs : Writable s) : Writable t := by
  induction h with
  | plain => trivial
  | plateau p _ hbest =>
    rcases hbest with heq | ⟨a, m, ha, hm⟩
    · exact fun hnull => hs (heq ▸ hnull)
    · exact fun hnull => ne_null_of_checkMetric ha (Option.some.inj (hm.symm.trans hnull))
  | warmup _ _ _ ih => exact ih hs

def pairOf (f : String × Value) : Value × Value := (.str f.1, f.2)

theorem lookup_optionalField [ToValue α] (k k' : String) (v : Option α) (fs : Pairs) :
    Value.lookup (.str k) ((optionalField k' v).map pairOf ++ fs) =
      if k' = k then (v.map toValue).or (Value.lookup (.str k) fs) else Value.lookup (.str k) fs := by
  cases v with
  | none => simp [optionalField]
  | some a => by_cases h : k' = k <;> simp [optionalField, pairOf, Value.lookup, Value.same, h]

def recordKeys : List String := ["cooldown_counter", "best", "num_bad_epochs", "last_epoch", "last_lr"]

theorem given_toValue {b : Option Value} (h : b ≠ some .null) : (toValue b).given = b := by
  match b with
  | none => rfl
  | some v => cases v <;> first | rfl | exact absurd rfl h

theorem ofItems_fields (h : r.best ≠ some (some .null)) {fs : Pairs}
    (hfs : ∀ k ∈ recordKeys, Value.lookup (.str k) fs = none) : Record.ofItems (r.fields.map pairOf ++ fs) = r := by
  obtain ⟨cooldown, best, bad, epoch, rate⟩ := r
  simp only [recordKeys, forall_mem_cons] at hfs
  obtain ⟨hcooldown, hbest, hbad, hepoch, hrate, -⟩ := hfs
  have hvalue (v : Option Value) : v.map toValue = v := Option.map_id_apply
  simp only [Record.ofItems, Record.fields, map_append, append_assoc, lookup_optionalField, hcooldown, hbest,
    hbad, hepoch, hrate, hvalue, Option.or_none, String.reduceEq, if_true, if_false, Option.map_map, Record.mk.injEq,
    true_and, and_true]
  cases best with
  | none => rfl
  | some b => exact congrArg some (given_toValue fun hnull => h (congrArg some hnull))

theorem fst_mem_recordKeys {p : String × Value} (h : p ∈ r.fields) : p.1 ∈ recordKeys := by
  have hkey {α : Type} [ToValue α] {k : String} {v : Option α} (hp : p ∈ optionalField k v) : p.1 = k := by
    cases v with
    | none => cases hp
    | some a => rw [mem_singleton.mp hp]
  simp only [Record.fields, mem_append] at h
  rcases h with (((h | h) | h) | h) | h <;> rw [hkey h] <;> decide

theorem after_fields (r : Record Value) (fs : Pairs) :
    Saved.after (r.fields.map pairOf ++ fs) = Saved.after fs := by
  have hskip {ps : Fields} (h : ∀ p ∈ ps, p.1 ≠ afterKey) :
      Saved.after (ps.map pairOf ++ fs) = Saved.after fs := by
    induction ps with
    | nil => rfl
    | cons p ps ih =>
      obtain ⟨hp, hps⟩ := forall_mem_cons.mp h
      have hkey : (Value.str p.1 == .str afterKey) = false := by simpa [BEq.beq, Value.same] using hp
      rw [map_cons, cons_append, Saved.after, pairOf, Saved.afterPair, hkey]
      exact ih hps
  refine hskip fun p hp hkey => ?_
  have hmem := fst_mem_recordKeys hp
  rw [hkey] at hmem
  exact absurd hmem (by decide)

/-- **A document is read back as the records that it was written from.** -/
theorem levels_document {saved : Saved Value} (hne : saved ≠ []) (h : ∀ r ∈ saved, r.best ≠ some (some .null)) :
    Saved.levels saved.document = saved := by
  induction saved with
  | nil => exact absurd rfl hne
  | cons r rs ih =>
    obtain ⟨hr, hrs⟩ := forall_mem_cons.mp h
    cases rs with
    | nil =>
      have hitems : Record.ofItems (r.fields.map pairOf ++ []) = r := ofItems_fields hr fun _ _ => rfl
      have hafter := after_fields r []
      rw [append_nil] at hitems hafter
      rw [Saved.document, Value.record, Saved.levels]
      exact congrArg₂ cons hitems hafter
    | cons r' rs =>
      have hlookup : ∀ k ∈ recordKeys, Value.lookup (.str k) [pairOf (afterKey, Saved.document (r' :: rs))] = none := by
        intro k hk
        have hkey : afterKey ≠ k := fun heq => absurd (heq ▸ hk) (by decide)
        simp [pairOf, Value.lookup, Value.same, hkey]
      rw [Saved.document, Value.record, map_append, Saved.levels]
      refine congrArg₂ cons (ofItems_fields hr hlookup) ((after_fields r _).trans ?_)
      have hkey : (Value.str afterKey == .str afterKey) := by simp [BEq.beq, Value.same]
      rw [map_singleton, Saved.after, Saved.afterPair, hkey]
      exact ih (cons_ne_nil _ _) hrs

theorem Writable.save : ∀ {s}, Writable s → ∀ r ∈ save s, r.best ≠ some (some .null)
  | .plain _ _, _ => by simp [Schedule.save]
  | .plateau _ _ _, h => by simpa [Schedule.save, Writable] using h
  | .warmup _ _ after, h => forall_mem_cons.mpr ⟨by simp, Writable.save h⟩

theorem document_eq_dict : ∀ saved : Saved Value, ∃ items, saved.document = .dict items
  | [] | [_] | _ :: _ :: _ => ⟨_, rfl⟩

theorem restore_dict (s : Schedule Value) (items : Pairs) :
    restore s [.dict items] = load s (Saved.levels (.dict items)) := by
  rw [restore, Saved.ofValue, Saved.levels]

theorem restore_document (s : Schedule Value) {t : Schedule Value} (ht : Writable t) :
    restore s [(save t).document] = load s (save t) := by
  obtain ⟨items, hitems⟩ := document_eq_dict (save t)
  rw [hitems, restore_dict, ← hitems, levels_document (by cases t <;> exact cons_ne_nil _ _) ht.save]

/-! ## 5. Schedules by name -/

theorem begin_eq_advance (s : Schedule ν) : begin s = advance s [] := by
  unfold begin advance
  rcases step s [] with ⟨t, _ | _⟩ <;> rfl

theorem yields_begin {s : Schedule Value} (hs : Writable s) : Yields Writable (begin s) := by
  intro t ht
  rw [begin_eq_advance] at ht
  exact (follows_advance ht).writable hs

theorem yields_onPlateau (rate : Value) (mode : String) (threshold? : Option String) (p : Plateau Value)
    (verbose : Bool) : Yields Writable (onPlateau rate mode threshold? p verbose) := by
  unfold onPlateau
  repeat' first
    | exact yields_ok nofun
    | refine Yields.bind fun _ => ?_
    | split

theorem yields_rampInto {after : Schedule Value} (hafter : Writable after) (r : Ramp Value) (start : Start Value) :
    Yields Writable (rampInto after r start) :=
  .bind fun _ => .bind fun _ => yields_begin hafter

theorem yields_ofSettings {settings : List Setting} (h : ∀ t, .schedule t ∈ settings → Writable t) :
    Yields Writable (ofSettings kind settings) := by
  unfold ofSettings
  split
  all_goals repeat' first
    | exact .bind fun _ => yields_begin trivial
    | exact yields_onPlateau _ _ _ _ _
    | exact yields_rampInto (h _ mem_cons_self) _ _
    | refine Yields.bind fun _ => ?_
    | split
    | exact yields_error _

theorem mem_of_fill : ∀ {ps values},
    fill named ps = .ok values → ∀ a ∈ values, (∃ k, (k, a) ∈ named) ∨ ∃ k, (k, some a) ∈ ps
  | [], values, h => by
    cases h
    simp
  | (name, default?) :: ps, values, h => by
    unfold fill at h
    split at h
    next b hb =>
      obtain ⟨rest, hrest, h⟩ := of_bind_eq_ok h
      cases h
      intro a ha
      rcases mem_cons.mp ha with rfl | ha
      · rcases Option.or_eq_some_iff.mp hb with hb | ⟨-, rfl⟩
        · obtain ⟨l, r, rfl, -⟩ := lookup_eq_some_iff.mp hb
          exact .inl ⟨name, by simp⟩
        · exact .inr ⟨name, .head _⟩
      · exact (mem_of_fill hrest a ha).imp_right fun ⟨k, hk⟩ => ⟨k, .tail _ hk⟩
    · cases h

/-- The value of a parameter is given by position, by name or as a default. -/
theorem mem_of_bind {ps : List (String × Option α)} {args values : List α}
    (h : Arguments.bind ps args named = .ok values) {a : α} (ha : a ∈ values) :
    a ∈ args ∨ (∃ k, (k, a) ∈ named) ∨ ∃ k, (k, some a) ∈ ps := by
  unfold Arguments.bind at h
  split at h
  · cases h
  · dsimp only at h
    split at h
    · obtain ⟨rest, hrest, h⟩ := of_bind_eq_ok h
      cases h
      rcases mem_append.mp ha with ha | ha
      · exact .inl ha
      · exact .inr ((mem_of_fill hrest a ha).imp_right fun ⟨k, hk⟩ => ⟨k, mem_of_mem_drop hk⟩)
    · cases h

/-- Every default is data. -/
theorem eq_value_of_parameters {ps : List (String × Option Setting)} (h : parameters kind = some ps)
    {k : String} {a : Setting} (ha : (k, some a) ∈ ps) : ∃ v, a = .value v := by
  have hall : (ps.all fun p => p.2.all fun a => a.data.isOk) := by
    unfold parameters at h
    split at h
    all_goals first
      | cases h
        rfl
      | cases h
  have hdata := all_eq_true.mp hall _ ha
  cases a with
  | value v => exact ⟨v, rfl⟩
  | curve | schedule => cases hdata

/-- A schedule that was made by name, as were all schedules among its arguments. -/
inductive Constructed : Schedule Value → Prop
  | of_make {kind : String} {args : List Setting} {named : List (String × Setting)} {s : Schedule Value}
    (hargs : ∀ t, .schedule t ∈ args → Constructed t) (hnamed : ∀ k t, (k, .schedule t) ∈ named → Constructed t)
    (h : make kind args named = .ok s) : Constructed s

theorem Constructed.writable {s : Schedule Value} (h : Constructed s) : Writable s := by
  induction h with
  | @of_make kind args named s _ _ h hargs hnamed =>
    unfold make at h
    split at h
    next ps hps =>
      obtain ⟨settings, hsettings, h⟩ := of_bind_eq_ok h
      have hbind : bind ps args named = .ok settings := by
        cases hb : bind ps args named <;> rw [hb] at hsettings <;> cases hsettings
        rfl
      refine yields_ofSettings (fun t ht => ?_) s h
      rcases mem_of_bind hbind ht with hmem | ⟨k, hmem⟩ | ⟨k, hmem⟩
      · exact hargs t hmem
      · exact hnamed k t hmem
      · obtain ⟨v, hv⟩ := eq_value_of_parameters hps hmem
        cases hv
    · cases h

/-- **A schedule that is restored goes on exactly as the one that was saved.**  Where two runs succeed one after the
other, the second shows the same epochs and rates if it is made with a new schedule of the same making that has loaded
what was saved between them.  The first part holds whatever the operations of arithmetic do, the second for the
documents that are written of data. -/
theorem restore_resumes :
    (∀ {ν : Type} [Arithmetic ν] (fresh : Schedule ν) (first second : List (List (Option ν))) (seen : List (ν × ν)),
      trace fresh (first ++ second) = .ok seen →
      ∃ mid resumed, first.foldlM advance fresh = .ok mid ∧ load fresh (save mid) = (resumed, .ok ()) ∧
        trace resumed second = .ok (seen.drop first.length)) ∧
    ∀ (fresh : Schedule Value) (first second : List (List (Option Value))) (seen : List (Value × Value)),
      Constructed fresh → trace fresh (first ++ second) = .ok seen →
      ∃ mid resumed, first.foldlM advance fresh = .ok mid ∧ restore fresh [(save mid).document] = (resumed, .ok ()) ∧
        trace resumed second = .ok (seen.drop first.length) := by
  constructor
  · intro ν _ fresh first second seen h
    obtain ⟨mid, hmid, hsecond⟩ := trace_append h
    exact ⟨mid, mid, hmid, load_save (follows_run hmid), hsecond⟩
  · intro fresh first second seen hfresh h
    obtain ⟨mid, hmid, hsecond⟩ := trace_append h
    have hfollows := follows_run hmid
    refine ⟨mid, mid, hmid, ?_, hsecond⟩
    rw [restore_document fresh (hfollows.writable hfresh.writable), load_save hfollows]

/-- The settings of stairs from 3 over 2 to 1. -/
def stairSettings : List Setting :=
  [.value (.list [.int 1, .int 2]), .value (.list [.int 3, .int 2, .int 1])]

def stairs : Schedule Value :=
  .plain { base := defaultRate, rate := .int 3, epoch := .int 0, verbose := false }
    (.piecewise [.int 1, .int 2] [.int 3, .int 2, .int 1])

def warmStairs : Schedule Value :=
  .warmup { base := .float (Number.ofInt 0), rate := .int 3, epoch := .int 1, verbose := false }
    { steps := .int 1, start := .int 0, finish := .int 1 } stairs

theorem constructed_stairs : Constructed stairs :=
  @Constructed.of_make "PiecewiseDecay" stairSettings [] _ (by simp [stairSettings]) (by simp) rfl

theorem constructed_warmStairs : Constructed warmStairs :=
  @Constructed.of_make "LinearWarmup" [.schedule stairs, number 1, number 0, number 1] [("last_epoch", number 0)] _
    (by simp [constructed_stairs, number]) (by simp [number]) rfl

theorem restore_resumes_warmStairs : Constructed warmStairs ∧ ∃ mid resumed,
    [[], []].foldlM advance warmStairs = .ok mid ∧ restore warmStairs [(save mid).document] = (resumed, .ok ()) ∧
    trace resumed [[], [some (.int 2)]] = .ok [(.int 4, .int 1), (.int 2, .int 2)] := by
  have hseen : trace warmStairs ([[], []] ++ [[], [some (.int 2)]]) =
      .ok [(.int 2, .int 2), (.int 3, .int 1), (.int 4, .int 1), (.int 2, .int 2)] := rfl
  exact ⟨constructed_warmStairs, restore_resumes.2 _ _ _ _ constructed_warmStairs hseen⟩

end TensorKit.Schedule
