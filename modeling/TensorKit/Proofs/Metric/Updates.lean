import TensorKit.Metric.Basic
import TensorKit.Proofs.Actions
/-!
# Runs of updates

A metric takes in one batch after the other; a batch that fails may still have changed it.  What every update keeps, a
run of updates keeps (`after_keeps`), and two metrics that every update leaves in relation are in relation after a run
(`after_related`).  Arrays of scores and labels are taken in row by row: a step lemma about one row gives what a run over
arrays leaves (`takeRows_of`, `streamed_of`).
-/

namespace TensorKit.Metric

namespace State

variable {style : Style} {args : List Value} {Admitted : List Value → Prop}

/-! ## 1. One update -/

theorem updateOne_keeps {P : State → Prop} {s : State} (hs : P s)
    (h : Yields (fun p => P p.1) (s.attempt style args)) : P (s.updateOne style args).1 := by
  unfold updateOne
  split
  next s' r hr => exact h _ hr
  · exact hs

theorem updateOne_of_attempt {s s' : State} {r : Fallible Value}
    (h : s.attempt style args = .ok (s', r)) : (s.updateOne style args).1 = s' := by
  rw [updateOne, h]

def kind : State → Kind
  | precision _ => .precision
  | sensitivity _ => .sensitivity
  | topAccuracy .. => .topAccuracy
  | area _ => .area
  | base => .base
  | accuracy .. => .accuracy
  | chunks .. => .chunks
  | distance .. => .distance
  | composite _ => .composite
  | average _ => .average

theorem update_eq_updateOne {s : State} (h : s.kind ≠ .composite) (args : List Value) :
    s.update style args = s.updateOne style args := by
  cases s with
  | composite parts => exact absurd rfl h
  | _ => rw [update]; simp

/-! ## 2. Runs -/

def after (style : Style) (us : List (List Value)) (s : State) : State :=
  us.foldl (fun s args => (s.update style args).1) s

theorem after_append (us vs : List (List Value)) (s : State) :
    s.after style (us ++ vs) = (s.after style us).after style vs :=
  List.foldl_append

/-- States that updates with some arguments leave in relation are in relation after runs of such updates. -/
theorem after_related {R : State → State → Prop}
    (hstep : ∀ s t args, R s t → Admitted args → R (s.update style args).1 (t.update style args).1) :
    ∀ (us : List (List Value)) {s t : State}, R s t → (∀ args ∈ us, Admitted args) →
      R (s.after style us) (t.after style us)
  | [], _, _, hst, _ => hst
  | args :: us, s, t, hst, hus => by
    have hnext := hstep s t args hst (hus args List.mem_cons_self)
    exact after_related hstep us hnext fun a ha => hus a (List.mem_cons_of_mem args ha)

theorem after_keeps {P : State → Prop} (hstep : ∀ s args, P s → Admitted args → P (s.update style args).1)
    (us : List (List Value)) {s : State} (hs : P s) (hus : ∀ args ∈ us, Admitted args) : P (s.after style us) :=
  after_related (R := fun s _ => P s) (fun s _ args => hstep s args) us (t := s) hs hus

end State

/-- The arguments of an update with arrays of scores and labels. -/
def scored (x : NdArray × NdArray) : List Value := [.array x.1, .array x.2]

/-- Take in arrays of scores and labels; those that are refused as a whole change nothing. -/
def streamed {γ : Type} (take : γ → NdArray → NdArray → Fallible (γ × Fallible Unit)) (c : γ)
    (arrays : List (NdArray × NdArray)) : γ :=
  arrays.foldl (fun c x => ((take c x.1 x.2).map Prod.fst).toOption.getD c) c

section Samples

variable {γ α δ : Type} {made : List δ → γ} {done : List δ}

/-- **Run lemma of rows.**  Where one row and one label leave what is made of one more sample, many of them leave what is
made of all samples. -/
theorem takeRows_of {step : γ → α → List Scalar → Fallible γ} {row : Scalar → α} {sample : Scalar → Scalar → δ}
    {P : δ → Prop}
    (hstep : ∀ done s l, P (sample s l) → step (made done) (row s) [l] = .ok (made (done ++ [sample s l])))
    (ss ls : List Scalar) (h : ∀ d ∈ List.zipWith sample ss ls, P d) :
    (takeRows step (made done) (ss.map row) (ls.map ([·]))).1 = made (done ++ List.zipWith sample ss ls) := by
  induction ss generalizing done ls with
  | nil => cases ls <;> simp [takeRows]
  | cons s ss ih =>
    cases ls with
    | nil => simp [takeRows]
    | cons l ls =>
      obtain ⟨hs, hrest⟩ := List.forall_mem_cons.mp h
      rw [List.map_cons, List.map_cons, takeRows, hstep done s l hs, List.zipWith_cons_cons]
      exact (ih ls hrest).trans (congrArg made (List.append_cons ..).symm)

/-- **Run lemma of arrays.** -/
theorem streamed_of {take : γ → NdArray → NdArray → Fallible (γ × Fallible Unit)} {samples : NdArray × NdArray → List δ} :
    ∀ (arrays : List (NdArray × NdArray)) {done : List δ},
    (∀ x ∈ arrays, ∀ done, (take (made done) x.1 x.2).map Prod.fst = .ok (made (done ++ samples x))) →
      streamed take (made done) arrays = made (done ++ arrays.flatMap samples)
  | [], _, _ => by simp [streamed]
  | x :: arrays, done, h => by
    obtain ⟨hx, hrest⟩ := List.forall_mem_cons.mp h
    rw [List.flatMap_cons, ← List.append_assoc, ← streamed_of arrays hrest, streamed, List.foldl_cons, hx]
    rfl

end Samples

/-- **A metric streams arrays through what it counts.** -/
theorem State.after_scored {γ : Type} {made : γ → State} {style : Style}
    {take : γ → NdArray → NdArray → Fallible (γ × Fallible Unit)} (hkind : ∀ c, (made c).kind ≠ .composite)
    (htake : ∀ c p l, (made c).attempt style [.array p, .array l] =
      ((take c p l).mapError .fault).map fun x => (made x.1, x.2.map fun _ => .null))
    (arrays : List (NdArray × NdArray)) (c : γ) :
    (made c).after style (arrays.map scored) = made (streamed take c arrays) := by
  induction arrays generalizing c with
  | nil => rfl
  | cons x arrays ih =>
    have hstep : ((made c).update style (scored x)).1 =
        made (((take c x.1 x.2).map Prod.fst).toOption.getD c) := by
      rw [update_eq_updateOne (hkind c), updateOne, scored, htake]
      cases take c x.1 x.2 <;> rfl
    rw [List.map_cons, after, List.foldl_cons, hstep]
    exact ih _

def after (m : Metric) (us : List (List Value)) : Metric := us.foldl (fun m args => (m.update args).1) m

theorem after_eq : ∀ (us : List (List Value)) (m : Metric), m.after us = { m with state := m.state.after m.style us }
  | [], _ => rfl
  | args :: us, m => after_eq us (m.update args).1

end TensorKit.Metric
