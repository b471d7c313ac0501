import TensorKit.Proofs.Metric.Updates
/-!
# What evaluators forget when they are reset

A reset puts a zero in each count that the configuration of an evaluator shows, and the zero has the class of the count.

* **Precision and recall** start again as if they were new.
* **Accuracy and chunks** do so as long as their counts stay numbers: a count that was given an array goes on as an
  array.
* **Distances** leave a number of errors that was an element of an array as an array with no axes.  It shows the same
  values from then on (`Matches`), but it can no longer take in a floating number of sequences.
* **Areas and composites** show no counts, and a reset changes nothing at all.
-/

namespace TensorKit

open Yields ElementType Quantity

variable {v : Value}
variable {a b : Value} {us : List (List Value)}

def Value.isArray : Value → Bool
  | array _ => true
  | _ => false

/-! ## 1. Sums of numbers -/

theorem Yields.numeric {V : Quantity → Prop} {f : Quantity → Quantity → Fallible Quantity}
    {g : NdArray → NdArray → Fallible NdArray} (ha : a.isArray = false) (hb : b.isArray = false)
    (hf : ∀ p q, a.quantity? = some p → b.quantity? = some q → Yields V (f p q)) :
    Yields (fun v => ∃ r, V r ∧ v = .ofQuantity r) (Value.numeric f g a b) := by
  unfold Value.numeric
  split
  · cases ha
  · cases ha
  · cases hb
  · split
    next p q hp hq => exact chain (hf p q hp hq) fun r hr => yields_ok ⟨r, hr, rfl⟩
    · exact yields_error _

namespace Value

theorem yields_add_float (x : Float) (hv : v.isArray = false) :
    Yields (fun w => ∃ z, w = .float z) (add (.float x) v) := by
  have hsum : add (.float x) v = numeric Quantity.add (NdArray.arithmetic (· + ·) (· + ·)) (.float x) v := by
    cases v <;> rfl
  have hreal (q : Quantity) : Yields (fun r => ∃ z, r = .real z) (Quantity.add (.real x) q) := by
    cases q with
    | whole i => exact Yields.bind fun _ => Yields.bind fun _ => yields_ok ⟨_, rfl⟩
    | real y => exact yields_ok ⟨_, rfl⟩
  rw [hsum]
  intro w hw
  obtain ⟨_, ⟨z, rfl⟩, rfl⟩ := Yields.numeric rfl hv (fun p q hp _ => by cases hp; exact hreal q) w hw
  exact ⟨z, rfl⟩

theorem yields_add_int (i : Int) (hv : v.isArray = false) (hfloat : v.isFloating = false) :
    Yields (fun w => ∃ j, w = .int j) (add (.int i) v) := by
  have hsum : add (.int i) v = numeric Quantity.add (NdArray.arithmetic (· + ·) (· + ·)) (.int i) v := by
    cases v <;> rfl
  have hwhole : ∀ q, v.quantity? = some q → Yields (fun r => ∃ j, r = .whole j) (Quantity.add (.whole i) q) := by
    rintro (j | y) hq
    · exact yields_ok ⟨_, rfl⟩
    · cases v <;> cases hq
      cases hfloat
  rw [hsum]
  intro w hw
  obtain ⟨_, ⟨j, rfl⟩, rfl⟩ := Yields.numeric rfl hv (fun p q hp hq => by cases hp; exact hwhole q hq) w hw
  exact ⟨j, rfl⟩

theorem yields_mul (ha : a.isArray = false) (hb : b.isArray = false) :
    Yields (fun v => v.isArray = false) (mul a b) := by
  have hrepeated {n : Option Int} {v w : Value} (h : n.bind v.repeated = some w) : w.isArray = false := by
    obtain ⟨n, -, h⟩ := Option.bind_eq_some_iff.mp h
    cases v <;> cases h <;> rfl
  unfold mul
  split
  next v hv => exact yields_ok (hrepeated hv)
  · split
    next v hv => exact yields_ok (hrepeated hv)
    · intro v hv
      obtain ⟨r, -, rfl⟩ := Yields.numeric ha hb (fun _ _ _ _ _ _ => trivial) v hv
      cases r <;> rfl

end Value

namespace Metric

/-! ## 2. Counts -/

variable {t : Tally} {d : NdArray} {k : Kind} {n : Int} {m : Metric}

namespace Tally

variable {x : Fallible Value}

def IsFloating (t : Tally) : Prop := ∃ x, t = plain (.float x)

def IsWhole (t : Tally) : Prop := ∃ i, t = plain (.int i)

theorem IsFloating.zero (h : t.IsFloating) : t.zero = plain (.float 0.0) := by
  obtain ⟨x, rfl⟩ := h
  rfl

theorem IsWhole.zero (h : t.IsWhole) : t.zero = plain (.int 0) := by
  obtain ⟨i, rfl⟩ := h
  rfl

theorem addAfter_keeps {P : Tally → Prop} {V : Value → Prop} (ht : P t)
    (hx : Yields V x) (hadd : ∀ v, V v → Yields P (t.add v)) (before : Fallible Unit) :
    P (t.addAfter before x).1 := by
  rcases before with e | _
  · exact ht
  · have hsum : Yields P (x >>= t.add) := hx.chain hadd
    unfold addAfter
    split
    next t' h => exact hsum t' h
    · exact ht

theorem addAfter_eq {t t' : Tally} (hx : x = .ok v) (h : t.add v = .ok t') : t.addAfter (.ok ()) x = (t', .ok ()) := by
  have hsum : ((.ok () : Fallible Unit) *> x.bind t.add) = .ok t' := by rwa [hx]
  rw [addAfter, hsum]

theorem IsFloating.addAfter (ht : t.IsFloating)
    (hx : Yields (fun v => v.isArray = false) x) (before : Fallible Unit) :
    (t.addAfter before x).1.IsFloating := by
  refine addAfter_keeps ht hx ?_ before
  intro v hv
  obtain ⟨x, rfl⟩ := ht
  refine chain (Value.yields_add_float x hv) ?_
  rintro _ ⟨z, rfl⟩
  exact yields_ok ⟨z, rfl⟩

theorem IsWhole.addAfter (ht : t.IsWhole) (hv : v.isArray = false ∧ v.isFloating = false)
    (before : Fallible Unit) : (t.addAfter before (.ok v)).1.IsWhole := by
  refine addAfter_keeps (V := fun v => v.isArray = false ∧ v.isFloating = false) ht (yields_ok hv) ?_ before
  rintro v ⟨hv, hfloat⟩
  obtain ⟨i, rfl⟩ := ht
  refine chain (Value.yields_add_int i hv hfloat) ?_
  rintro _ ⟨j, rfl⟩
  exact yields_ok ⟨j, rfl⟩

/-- If the first count is an array, the second is one of the same shape and element type. -/
def StaysArray (t t' : Tally) : Prop := ∀ a, t = array a → ∃ b, t' = array b ∧ b.shape = a.shape ∧ b.type = a.type

theorem StaysArray.refl (t : Tally) : t.StaysArray t := fun a h => ⟨a, h, rfl, rfl⟩

theorem StaysArray.trans {t t' t'' : Tally} (h : t.StaysArray t') (h' : t'.StaysArray t'') : t.StaysArray t'' := by
  intro a ha
  obtain ⟨b, hb, hshape, htype⟩ := h a ha
  obtain ⟨c, hc, hshape', htype'⟩ := h' b hb
  exact ⟨c, hc, hshape'.trans hshape, htype'.trans htype⟩

theorem staysArray_zero (t : Tally) : t.StaysArray t.zero := by
  rintro a rfl
  exact ⟨a.zeros, rfl, rfl, rfl⟩

theorem yields_addInPlace (a : NdArray) (x : Value) :
    Yields (fun b => b.shape = a.shape ∧ b.type = a.type) (addInPlace a x) := by
  unfold addInPlace
  refine bind fun y => guarded (bind fun sum => ?_)
  split
  next hshape => exact yields_ok ⟨hshape, rfl⟩
  · exact yields_error _

theorem staysArray_addAfter (t : Tally) (before : Fallible Unit) (x : Fallible Value) :
    t.StaysArray (t.addAfter before x).1 := by
  refine addAfter_keeps (.refl t) (fun _ _ => trivial) ?_ before
  rintro v - t' ht' a rfl
  obtain ⟨b, hb, rfl⟩ : ∃ b, addInPlace a v = .ok b ∧ t' = array b := by
    obtain ⟨b, hb, ht'⟩ := of_bind_eq_ok ht'
    exact ⟨b, hb, (Except.ok.inj ht').symm⟩
  exact ⟨b, rfl, yields_addInPlace a v b hb⟩

end Tally

/-! ## 3. Metrics of one kind -/

namespace State

variable {style : Style} {s : State} {args : List Value}

def counts : State → List Tally
  | accuracy v w => [v, w]
  | chunks i l c => [i, l, c]
  | distance t n e => [t, n, e]
  | _ => []

/-- The counts that are arrays are arrays of the same shape and element type in the second state. -/
def KeepsArrays (s t : State) : Prop := List.Forall₂ Tally.StaysArray s.counts t.counts

theorem KeepsArrays.refl (s : State) : s.KeepsArrays s := List.forall₂_same.mpr fun t _ => .refl t

theorem KeepsArrays.trans {s t u : State} (h : s.KeepsArrays t) (h' : t.KeepsArrays u) : s.KeepsArrays u :=
  forall₂_trans (fun _ _ _ hst htu => hst.trans htu) h h'

theorem attempt_frame (s : State) (args : List Value) :
    Yields (fun p => p.1.kind = s.kind ∧ s.KeepsArrays p.1) (s.attempt style args) := by
  have hadd := Tally.staysArray_addAfter
  unfold attempt
  -- One case for each kind of state with arguments that fit it, and the last for all others.
  split
  iterate 3 · exact bind fun _ => bind fun _ => bind fun _ => yields_ok ⟨rfl, .nil⟩
  · split
    · exact bind fun _ => yields_ok ⟨rfl, .nil⟩
    · exact yields_error _
  · refine guarded (guarded (bind fun _ => guarded (yields_ok ⟨rfl, ?_⟩)))
    exact .cons (hadd _ _ _) (.cons (hadd _ _ _) .nil)
  · refine guarded (guarded (guarded (yields_ok ⟨rfl, ?_⟩)))
    exact .cons (hadd _ _ _) (.cons (hadd _ _ _) (.cons (hadd _ _ _) .nil))
  · refine bind fun _ => guarded (yields_ok ⟨rfl, ?_⟩)
    exact .cons (hadd _ _ _) (.cons (hadd _ _ _) (.cons (hadd _ _ _) .nil))
  · refine guarded (guarded (bind fun _ => ?_))
    split <;> exact yields_ok ⟨rfl, .nil⟩
  all_goals exact yields_error _

theorem update_frame (s : State) (args : List Value) :
    (s.update style args).1.kind = s.kind ∧ s.KeepsArrays (s.update style args).1 := by
  by_cases h : s.kind = .composite
  · cases s with
    | composite parts =>
      unfold update
      split <;> exact ⟨rfl, .nil⟩
    | _ => cases h
  · rw [update_eq_updateOne h]
    exact updateOne_keeps (P := fun t => t.kind = s.kind ∧ s.KeepsArrays t) ⟨rfl, .refl s⟩ (attempt_frame s args)

theorem after_frame (us : List (List Value)) (s : State) :
    (s.after style us).kind = s.kind ∧ s.KeepsArrays (s.after style us) := by
  have hstep (t : State) (args : List Value) (ht : t.kind = s.kind ∧ s.KeepsArrays t) (_ : True) :
      (t.update style args).1.kind = s.kind ∧ s.KeepsArrays (t.update style args).1 := by
    obtain ⟨hkind, hkept⟩ : _ ∧ t.KeepsArrays (t.update style args).1 := update_frame t args
    exact ⟨hkind.trans ht.1, ht.2.trans hkept⟩
  exact after_keeps hstep us ⟨rfl, .refl s⟩ fun _ _ => trivial

theorem keepsArrays_reset (s : State) : s.KeepsArrays (s.reset style) := by
  cases s with
  | accuracy v w => exact .cons v.staysArray_zero (.cons w.staysArray_zero .nil)
  | chunks i l c => exact .cons i.staysArray_zero (.cons l.staysArray_zero (.cons c.staysArray_zero .nil))
  | distance t n e => exact .cons t.staysArray_zero (.cons n.staysArray_zero (.cons e.staysArray_zero .nil))
  | area b => cases style <;> exact .nil
  | _ => exact .nil

theorem reset_of_kind (h : s.kind = .area ∨ s.kind = .composite) : s.reset .evaluator = s := by
  cases s with
  | area b => rfl
  | composite parts => rfl
  | _ => rcases h with h | h <;> cases h

/-- Counts of right answers start again from nothing. -/
theorem reset_counts (h : s.kind = .precision ∨ s.kind = .sensitivity) : s.reset style = .initial s.kind := by
  cases s with
  | precision c => rfl
  | sensitivity c => rfl
  | _ => rcases h with h | h <;> cases h

/-! ## 4. Accuracy and chunks -/

def FloatingAccuracy (s : State) : Prop := ∃ v w, s = accuracy v w ∧ v.IsFloating ∧ w.IsFloating

theorem FloatingAccuracy.reset (h : FloatingAccuracy s) : s.reset style = .initial .accuracy := by
  obtain ⟨v, w, rfl, hv, hw⟩ := h
  rw [State.reset, hv.zero, hw.zero]
  rfl

theorem FloatingAccuracy.update (h : FloatingAccuracy s)
    (hargs : ∀ v ∈ args, v.isArray = false) : FloatingAccuracy (s.update style args).1 := by
  obtain ⟨v, w, rfl, hv, hw⟩ := h
  rw [update_eq_updateOne (by simp [kind])]
  refine updateOne_keeps ⟨v, w, rfl, hv, hw⟩ ?_
  match args with
  | [value, weight] =>
    have hvalue : value.isArray = false := hargs value (by simp)
    have hweight : weight.isArray = false := hargs weight (by simp)
    rw [attempt]
    refine guarded (guarded (bind fun _ => guarded (yields_ok ?_)))
    exact ⟨_, _, rfl, hv.addAfter (Value.yields_mul hvalue hweight) _, hw.addAfter (yields_ok hweight) _⟩
  | [] | [_] | _ :: _ :: _ :: _ => exact yields_error _

def WholeChunks (s : State) : Prop := ∃ i l c, s = chunks i l c ∧ i.IsWhole ∧ l.IsWhole ∧ c.IsWhole

theorem WholeChunks.reset (h : WholeChunks s) : s.reset style = .initial .chunks := by
  obtain ⟨i, l, c, rfl, hi, hl, hc⟩ := h
  rw [State.reset, hi.zero, hl.zero, hc.zero]
  rfl

theorem WholeChunks.update (h : WholeChunks s)
    (hargs : ∀ v ∈ args, v.isArray = false ∧ v.isFloating = false) : WholeChunks (s.update style args).1 := by
  obtain ⟨i, l, c, rfl, hi, hl, hc⟩ := h
  rw [update_eq_updateOne (by simp [kind])]
  refine updateOne_keeps ⟨i, l, c, rfl, hi, hl, hc⟩ ?_
  match args with
  | [inferred, labelled, correct] =>
    rw [attempt]
    refine guarded (guarded (guarded (yields_ok ?_)))
    exact ⟨_, _, _, rfl, hi.addAfter (hargs inferred (by simp)) _, hl.addAfter (hargs labelled (by simp)) _,
      hc.addAfter (hargs correct (by simp)) _⟩
  | [] | [_] | [_, _] | _ :: _ :: _ :: _ :: _ => exact yields_error _

/-! ## 5. Distances -/

def whole (k : Int) : NdArray := .single .int64 (.int k)

def zeroCount (d : NdArray) : Int := (d.data.countP fun x => x.quantity.isZero : Nat)

theorem sub_whole {s : Value} (hs : s.int? = some n) (k : Int) :
    Value.sub s (.array (whole k)) = .ok (.array (whole (int64.wrap (n - k)))) := by
  cases s <;> cases hs <;> rfl

theorem add_plain (i w : Int) : (Tally.plain (.int i)).add (.array (whole w)) =
    .ok (.element (whole (int64.wrap (i + w)))) := rfl

theorem add_element (k w : Int) : (Tally.element (whole k)).add (.array (whole w)) =
    .ok (.element (whole (int64.wrap (k + w)))) := rfl

/-- Adding in place wraps the sum twice, which is the same as once. -/
theorem add_array (k w : Int) : (Tally.array (whole k)).add (.array (whole w)) =
    .ok (.array (whole (int64.wrap (k + w)))) := by
  have htwice (i : Int) : int64.wrap (int64.wrap i) = int64.wrap i := Int.bmod_bmod ..
  rw [← htwice (k + w)]
  rfl

/-- The number of sequences, if there is one, is neither an array nor a floating number. -/
def WholeSequences (args : List Value) : Prop := ∀ s ∈ args.drop 1, s.isArray = false ∧ s.isFloating = false

/-- An update of distances with a whole number of sequences is refused, or it is one that counts. -/
theorem distance_cases (h : WholeSequences args) :
    (∃ e, ∀ total n errors, (distance total n errors).attempt style args = .error e) ∨
      ∃ d s n, args = [.array d, s] ∧ s.int? = some n := by
  match args with
  | [distances, s] =>
    obtain ⟨harray, hfloat⟩ := h s (by simp)
    cases distances with
    | array d =>
      rcases hs : s.int? with _ | n
      · refine .inl ⟨.needsNumber "seq_num", fun total n errors => ?_⟩
        have hnumber : isNumber s = false := by
          cases s with
          | array a => cases harray
          | _ => simp_all [isNumber, Value.isNumber, Value.isWhole]
        simp only [attempt, arrayOf, hnumber]
        rfl
      · exact .inr ⟨d, s, n, rfl, hs⟩
    | _ => exact .inl ⟨_, fun _ _ _ => rfl⟩
  | [] | [_] | _ :: _ :: _ :: _ => exact .inl ⟨_, fun _ _ _ => rfl⟩

/-- Distances with a number of sequences are counted up to the first count that fails. -/
theorem attempt_distance {total n errors total' n' errors' : Tally} {s : Value}
    {r₁ r₂ r₃ : Fallible Unit} (hs : isNumber s) (hn : n.addAfter (.ok ()) (.ok s) = (n', r₁))
    (herrors : errors.addAfter r₁ (Value.sub s (.array (whole (zeroCount d)))) = (errors', r₂))
    (htotal : total.addAfter r₂ (.ok (.array d.total)) = (total', r₃)) :
    (distance total n errors).attempt style [.array d, s] =
      .ok (distance total' n' errors', r₃.map fun _ => .null) := by
  simp only [whole, zeroCount] at herrors
  simp only [attempt, arrayOf, ok_bind, hs, hn, herrors, htotal]
  rfl

theorem update_distance {total errors errors' : Tally} {s : Value} (hs : s.int? = some n)
    (herrors : errors.add (.array (whole (int64.wrap (n - zeroCount d)))) = .ok errors') (k : Int) :
    ((distance total (.plain (.int k)) errors).update style [.array d, s]).1 =
      distance (total.addAfter (.ok ()) (.ok (.array d.total))).1 (.plain (.int (k + n))) errors' := by
  have hnumber : isNumber s := by cases s <;> cases hs <;> rfl
  have hsequences : (Tally.plain (.int k)).addAfter (.ok ()) (.ok s) = (.plain (.int (k + n)), .ok ()) :=
    Tally.addAfter_eq rfl (by cases s <;> cases hs <;> rfl)
  have hmistakes := Tally.addAfter_eq (sub_whole hs (zeroCount d)) herrors
  rw [update_eq_updateOne (by simp [kind])]
  exact updateOne_of_attempt (attempt_distance hnumber hsequences hmistakes rfl)

theorem update_refused {total n errors : Tally} {e : Error}
    (h : (distance total n errors).attempt style args = .error e) :
    ((distance total n errors).update style args).1 = distance total n errors := by
  rw [update_eq_updateOne (by simp [kind]), updateOne, h]

def LongFloating (t : Tally) : Prop := t.IsFloating ∨ ∃ x, t = .element (.single .float64 (.float x))

theorem LongFloating.zero (h : LongFloating t) : t.zero = .plain (.float 0.0) := by
  rcases h with h | ⟨x, rfl⟩
  · exact h.zero
  · rfl

def LongDistances (args : List Value) : Prop := ∀ d, Value.array d ∈ args → d.type ≠ .float16 ∧ d.type ≠ .float32

theorem total_cases (h : d.type ≠ .float16 ∧ d.type ≠ .float32) :
    (∃ x, d.total = .single .float64 (.float x)) ∨ ∃ i, d.total = .single .int64 (.int i) := by
  unfold NdArray.total
  split
  next hfloat =>
    have hlong : d.type = .float64 := by cases ht : d.type <;> simp_all [isFloat]
    rw [hlong]
    exact .inl ⟨_, rfl⟩
  · exact .inr ⟨_, rfl⟩

theorem LongFloating.addTotal (ht : LongFloating t) (hd : d.type ≠ .float16 ∧ d.type ≠ .float32) :
    LongFloating (t.addAfter (.ok ()) (.ok (.array d.total))).1 := by
  refine Tally.addAfter_keeps ht (yields_ok rfl) ?_ _
  rintro _ rfl
  rcases total_cases hd with ⟨x, hx⟩ | ⟨x, hx⟩ <;> rw [hx] <;> rcases ht with ⟨y, rfl⟩ | ⟨y, rfl⟩
  all_goals exact yields_ok (.inr ⟨_, rfl⟩)

/-- Distances so far: a whole number of sequences, and errors with a property. -/
def DistancesWith (E : Tally → Prop) (s : State) : Prop :=
  ∃ total n errors, s = distance total (.plain (.int n)) errors ∧ LongFloating total ∧ E errors

def Counted (t : Tally) : Prop := ∃ k, t = .element (whole k)

def FirstOrCounted (t : Tally) : Prop := t = .plain (.int 0) ∨ Counted t

theorem FirstOrCounted.add (h : FirstOrCounted t) (w : Int) :
    ∃ k, t.add (.array (whole w)) = .ok (.element (whole k)) := by
  rcases h with rfl | ⟨k, rfl⟩
  · exact ⟨_, add_plain 0 w⟩
  · exact ⟨_, add_element k w⟩

theorem DistancesWith.counted (h : DistancesWith FirstOrCounted s)
    (hv : v.int? = some n) (hd : d.type ≠ .float16 ∧ d.type ≠ .float32) :
    DistancesWith Counted (s.update style [.array d, v]).1 := by
  obtain ⟨total, k, errors, rfl, htotal, herrors⟩ := h
  obtain ⟨j, hj⟩ := herrors.add (int64.wrap (n - zeroCount d))
  rw [update_distance hv hj]
  exact ⟨_, _, _, rfl, htotal.addTotal hd, j, rfl⟩

theorem DistancesWith.mono {E F : Tally → Prop} (h : DistancesWith E s) (hEF : ∀ t, E t → F t) : DistancesWith F s := by
  obtain ⟨total, n, errors, rfl, htotal, herrors⟩ := h
  exact ⟨total, n, errors, rfl, htotal, hEF errors herrors⟩

theorem DistancesWith.update {E : Tally → Prop} {s : State} (h : DistancesWith E s)
    (hfirst : ∀ t, E t → FirstOrCounted t) (hcounted : ∀ t, Counted t → E t)
    (hargs : WholeSequences args ∧ LongDistances args) : DistancesWith E (s.update style args).1 := by
  rcases distance_cases hargs.1 with ⟨e, he⟩ | ⟨d, v, n, rfl, hv⟩
  · obtain ⟨total, n, errors, rfl, htotal, herrors⟩ := h
    rw [update_refused (he _ _ _)]
    exact ⟨total, n, errors, rfl, htotal, herrors⟩
  · exact ((h.mono hfirst).counted hv (hargs.2 d (by simp))).mono hcounted

theorem DistancesWith.reset_counted (h : DistancesWith Counted s) :
    s.reset style = distance (.plain (.float 0.0)) (.plain (.int 0)) (.array (whole 0)) := by
  obtain ⟨total, n, _, rfl, htotal, k, rfl⟩ := h
  rw [State.reset, htotal.zero]
  rfl

/-- States of distances that cannot be told apart: the same, or with errors that are an array instead of an element, or
instead of a number as long as there are no sequences. -/
inductive Matches : State → State → Prop
  | same (s : State) : Matches s s
  | start (total : Tally) :
    Matches (distance total (.plain (.int 0)) (.plain (.int 0))) (distance total (.plain (.int 0)) (.array (whole 0)))
  | counted (total : Tally) (n k : Int) :
    Matches (distance total (.plain (.int n)) (.element (whole k)))
      (distance total (.plain (.int n)) (.array (whole k)))

theorem Matches.update {s t : State} (h : Matches s t) (hargs : WholeSequences args) :
    Matches (s.update style args).1 (t.update style args).1 := by
  cases h with
  | same s => exact .same _
  | start total =>
    rcases distance_cases hargs with ⟨e, he⟩ | ⟨d, v, n, rfl, hv⟩
    · rw [update_refused (he _ _ _), update_refused (he _ _ _)]
      exact .start total
    · rw [update_distance hv (add_plain 0 _), update_distance hv (add_array 0 _)]
      exact .counted _ _ _
  | counted total n k =>
    rcases distance_cases hargs with ⟨e, he⟩ | ⟨d, v, n, rfl, hv⟩
    · rw [update_refused (he _ _ _), update_refused (he _ _ _)]
      exact .counted total n k
    · rw [update_distance hv (add_element k _), update_distance hv (add_array k _)]
      exact .counted _ _ _

theorem result_without_sequences (total errors : Tally) :
    (distance total (.plain (.int 0)) errors).result = .error .noDistances := by
  rw [result, resultOne]
  · rfl
  · intro parts h
    cases h

theorem Matches.result {s t : State} (h : Matches s t) : s.result = t.result := by
  cases h with
  | same s => rfl
  | start total => rw [result_without_sequences, result_without_sequences]
  | counted total n k => simp [State.result, resultOne, Tally.quotient, Tally.raw]

theorem DistancesWith.matches_reset (h : DistancesWith FirstOrCounted s) :
    Matches (.initial .distance) (s.reset style) := by
  obtain ⟨total, n, errors, rfl, htotal, herrors⟩ := h
  rcases herrors with rfl | hcounted
  · rw [State.reset, htotal.zero]
    exact .same _
  · rw [DistancesWith.reset_counted ⟨total, n, errors, rfl, htotal, hcounted⟩]
    exact .start _

/-! ## 6. Floating numbers of sequences -/

theorem addAfter_float (x : Float) : ∃ y, (Tally.plain (.int 0)).addAfter (.ok ()) (.ok (.float x)) =
    (.plain (.float y), .ok ()) := by
  have hfinite : (Number.ofInt 0).isInf = false := by decide +kernel
  have hzero : toFloat (.whole 0) = .ok (Number.ofInt 0) := by simp [toFloat, hfinite]
  have hsum : (Tally.plain (.int 0)).add (.float x) = .ok (.plain (.float (Number.ofInt 0 + x))) := by
    change (toFloat (.whole 0) >>= fun y => Except.ok (real (y + x))) >>=
      (fun q => .ok (Value.ofQuantity q)) >>= (fun v => .ok (Tally.ofRaw v)) = _
    rw [hzero]
    rfl
  exact ⟨_, Tally.addAfter_eq rfl hsum⟩

theorem update_casting (total : Tally) (d : NdArray) (x : Float) :
    ((distance total (.plain (.int 0)) (.array (whole 0))).update style [.array d, .float x]).2 =
      .error (.fault .casting) := by
  obtain ⟨y, hy⟩ := addAfter_float x
  have herrors : (Tally.array (whole 0)).addAfter (.ok ()) (Value.sub (.float x) (.array (whole (zeroCount d)))) =
      (.array (whole 0), .error .casting) := rfl
  rw [update_eq_updateOne (by simp [kind]), updateOne, attempt_distance rfl hy herrors rfl]
  rfl

theorem update_float (d : NdArray) (x : Float) :
    ((State.initial .distance).update style [.array d, .float x]).2 = .ok .null := by
  obtain ⟨y, hy⟩ := addAfter_float x
  obtain ⟨errors, herrors⟩ : ∃ t, (Tally.plain (.int 0)).addAfter (.ok ())
      (Value.sub (.float x) (.array (whole (zeroCount d)))) = (t, .ok ()) := ⟨_, rfl⟩
  obtain ⟨total, htotal⟩ : ∃ t, (Tally.plain (.float 0.0)).addAfter (.ok ()) (.ok (.array d.total)) = (t, .ok ()) := by
    unfold NdArray.total
    split <;> exact ⟨_, rfl⟩
  rw [update_eq_updateOne (by simp [kind, initial]), updateOne, initial, attempt_distance rfl hy herrors htotal]
  rfl

end State

/-! ## 7. Evaluators -/

/-- A new evaluator of a kind; a composite may have new evaluators as its parts. -/
inductive Fresh : Kind → Metric → Prop
  | made {k : Kind} {named : Fields} {m : Metric} (h : Metric.make .evaluator k named = .ok m) :
    Fresh k m
  | part {k : Kind} {m p m' : Metric} (hm : Fresh .composite m) (hp : Fresh k p)
    (h : m.addPart (some p) = (m', .ok ())) : Fresh .composite m'

theorem yields_evaluate (k : Kind) (named : Fields) :
    Yields (fun m => m.style = .evaluator ∧ (m.state = .initial k ∨ k = .area ∧ m.state.kind = .area))
      (Metric.evaluate k named) := by
  unfold Metric.evaluate
  split
  · refine bind fun args => ?_
    split
    · exact bind fun _ => yields_ok ⟨rfl, .inr ⟨rfl, rfl⟩⟩
    · exact yields_error _
  · exact bind fun _ => yields_ok ⟨rfl, .inl rfl⟩
  · refine bind fun args => ?_
    split
    · exact yields_ok ⟨rfl, .inl rfl⟩
    · exact yields_error _

theorem addPart_eq {m p m' : Metric} (h : m.addPart (some p) = (m', .ok ())) :
    m'.style = m.style ∧ m'.state.kind = .composite := by
  unfold Metric.addPart at h
  split at h
  · split at h
    · cases h
      exact ⟨rfl, rfl⟩
    · cases h
  · cases h
  · cases h

theorem Fresh.style_eq (h : Fresh k m) : m.style = .evaluator := by
  induction h with
  | made h => exact (yields_evaluate _ _ _ h).1
  | part _ _ h ih _ => exact (addPart_eq h).1.trans ih

theorem Fresh.state_eq (h : Fresh k m) (harea : k ≠ .area) (hcomposite : k ≠ .composite) : m.state = .initial k := by
  cases h with
  | made h =>
    rcases (yields_evaluate _ _ _ h).2 with hstate | ⟨hk, -⟩
    · exact hstate
    · exact absurd hk harea
  | part => exact absurd rfl hcomposite

theorem Fresh.kind_eq (h : Fresh k m) (hk : k = .area ∨ k = .composite) : m.state.kind = k := by
  cases h with
  | made h =>
    rcases (yields_evaluate _ _ _ h).2 with hstate | ⟨rfl, hstate⟩
    · rw [hstate]
      rcases hk with rfl | rfl <;> rfl
    · exact hstate
  | part _ _ h => exact (addPart_eq h).2

/-- Do updates before a reset leave no trace in what an evaluator of a kind says after other updates? -/
def Kind.Forgets (us vs : List (List Value)) : Kind → Prop
  | .precision | .sensitivity => True
  | .accuracy => ∀ args ∈ us, ∀ v ∈ args, v.isArray = false
  | .chunks => ∀ args ∈ us, ∀ v ∈ args, v.isArray = false ∧ v.isFloating = false
  | .distance => (∀ args ∈ us, State.WholeSequences args ∧ State.LongDistances args) ∧
      ∀ args ∈ vs, State.WholeSequences args
  | _ => False

namespace State

variable {style : Style} {vs : List (List Value)}

section Distances

variable (hus : ∀ args ∈ us, WholeSequences args ∧ LongDistances args)

include hus

theorem distances_after :
    DistancesWith FirstOrCounted ((initial .distance).after style us) := by
  have hstart : DistancesWith FirstOrCounted (initial .distance) := ⟨_, _, _, rfl, .inl ⟨_, rfl⟩, .inl rfl⟩
  refine after_keeps ?_ us hstart hus
  intro s args hs hargs
  exact hs.update (fun _ ht => ht) (fun _ ht => .inr ht) hargs

/-- Distances that were updated and reset cannot be told apart from new ones. -/
theorem matches_after_reset (hvs : ∀ args ∈ vs, WholeSequences args) :
    Matches ((initial .distance).after style vs) ((((initial .distance).after style us).reset style).after style vs) := by
  refine after_related ?_ vs (distances_after hus).matches_reset hvs
  intro s t args hst hargs
  exact hst.update hargs

/-- Once distances were counted, their errors are an element. -/
theorem counted_after (hmem : [.array d, v] ∈ us) (hv : v.int? = some n) :
    DistancesWith Counted ((initial .distance).after style us) := by
  -- The run is cut at the update that counts: what it leaves, the updates after it keep.
  obtain ⟨us₁, us₂, rfl⟩ := List.append_of_mem hmem
  have hbefore : DistancesWith FirstOrCounted ((initial .distance).after style us₁) :=
    distances_after fun args h => hus args (List.mem_append_left _ h)
  have hcounted : DistancesWith Counted (((initial .distance).after style us₁).update style [.array d, v]).1 :=
    hbefore.counted hv ((hus _ hmem).2 d (by simp))
  rw [after_append]
  refine after_keeps ?_ us₂ hcounted fun args h => hus args (List.mem_append_right _ (List.mem_cons_of_mem _ h))
  intro s args hs hargs
  exact hs.update (fun _ ht => .inr ht) (fun _ ht => ht) hargs

end Distances

theorem result_after_reset (h : k.Forgets us vs) :
    ((((initial k).after style us).reset style).after style vs).result = ((initial k).after style vs).result := by
  cases k with
  | precision =>
    have hkind : ((initial .precision).after style us).kind = .precision := (after_frame us _).1
    rw [reset_counts (.inl hkind), hkind]
  | sensitivity =>
    have hkind : ((initial .sensitivity).after style us).kind = .sensitivity := (after_frame us _).1
    rw [reset_counts (.inr hkind), hkind]
  | accuracy =>
    have hkept : FloatingAccuracy ((initial .accuracy).after style us) :=
      after_keeps (fun _ _ hs hargs => hs.update hargs) us ⟨_, _, rfl, ⟨_, rfl⟩, _, rfl⟩ h
    rw [hkept.reset]
  | chunks =>
    have hkept : WholeChunks ((initial .chunks).after style us) :=
      after_keeps (fun _ _ hs hargs => hs.update hargs) us ⟨_, _, _, rfl, ⟨_, rfl⟩, ⟨_, rfl⟩, _, rfl⟩ h
    rw [hkept.reset]
  | distance => exact (matches_after_reset h.1 h.2).result.symm
  | _ => cases h

end State

/-- **What evaluators forget when they are reset.**  For a new evaluator, with new parts if it is a composite, and any
updates before and after a reset:

* where the kind forgets these updates, its value is that of a new evaluator with the later updates only;
* an area or a composite has the value of all updates, as if it had not been reset;
* distances that have been counted refuse every floating number of sequences after the reset, which new ones take in;
* of every kind, a count that is an array at the reset stays an array of its shape and element type. -/
theorem evaluator_reset {k : Kind} {m : Metric} (hm : Fresh k m) (us vs : List (List Value)) :
    (k.Forgets us vs → ((m.after us).reset.after vs).result = (m.after vs).result) ∧
      (k = .area ∨ k = .composite → ((m.after us).reset.after vs).result = (m.after (us ++ vs)).result) ∧
      (k = .distance → (∀ args ∈ us, State.WholeSequences args ∧ State.LongDistances args) →
        (∃ d v, [.array d, v] ∈ us ∧ v.isWhole = true) → ∀ d x,
          ((m.after us).reset.update [.array d, .float x]).2 = .error (.fault .casting) ∧
          (m.update [.array d, .float x]).2 = .ok .null) ∧
      (m.after us).state.KeepsArrays ((m.after us).reset.after vs).state := by
  have hstyle := hm.style_eq
  obtain ⟨style, name, state⟩ := m
  obtain rfl : style = .evaluator := hstyle
  refine ⟨?_, ?_, ?_, ?_⟩
  · intro hforgets
    have hstate : state = .initial k := by
      refine hm.state_eq ?_ ?_
      · rintro rfl
        exact hforgets
      · rintro rfl
        exact hforgets
    rw [hstate, after_eq, after_eq, after_eq]
    exact State.result_after_reset hforgets
  · intro hk
    have hkind : (state.after .evaluator us).kind = .area ∨ (state.after .evaluator us).kind = .composite := by
      rw [(State.after_frame us state).1, hm.kind_eq hk]
      exact hk
    rw [after_eq, after_eq, after_eq]
    simp only [Metric.reset, Metric.result, State.reset_of_kind hkind, State.after_append]
  · rintro rfl hus ⟨d, v, hmem, hv⟩ d' x
    have hstate : state = .initial .distance := hm.state_eq (by decide) (by decide)
    obtain ⟨n, hn⟩ := Option.isSome_iff_exists.mp hv
    rw [hstate, after_eq]
    simp only [Metric.reset, Metric.update, (State.counted_after hus hmem hn).reset_counted]
    exact ⟨State.update_casting _ d' x, State.update_float d' x⟩
  · rw [after_eq, after_eq]
    exact (State.keepsArrays_reset _).trans (State.after_frame vs _).2

/-- An area that has ranked two samples rightly still says so after a reset; a new one has the value zero. -/
theorem evaluator_reset_two_samples : ∃ (m : Metric) (us : List (List Value)), Fresh .area m ∧
    ((m.after us).reset.after []).result.toOption == some (.float 1.0) ∧
    (m.after []).result.toOption == some (.float 0.0) := by
  let m : Metric := ⟨.evaluator, .str "auc", .area (.empty 1)⟩
  let us : List (List Value) := [[.array ⟨⟨[2, 2], [.float 0.0, .float 1.0, .float 1.0, .float 0.0]⟩, .float64⟩,
    .array ⟨⟨[2, 1], [.int 1, .int 0]⟩, .int64⟩]]
  have hm : Fresh .area m :=
    .made (rfl : Metric.make .evaluator .area [("name", .str "auc"), ("num_thresholds", .int 1)] = .ok m)
  refine ⟨m, us, hm, ?_, by decide +kernel⟩
  rw [(evaluator_reset hm us []).2.1 (.inl rfl)]
  decide +kernel

end Metric

end TensorKit
