import Mathlib.Data.List.Nodup
import TensorKit.Operator.Api.Function
import TensorKit.Proofs.Operator.FunctionReading
/-!
# The kind that is tested and the kind that is prepared

An operator with several kernels lists for each of them the kinds of its inputs.  Generated code reads that list twice:

* the test that chooses the kernel takes the kind of an input from its position among the *inputs of the operator*;
* the code that prepares the input takes it from its position among the *parameters of the kernel*.

The texts of both tell the kinds apart (`kindTest_eq_iff`, `prepareDense_ne_prepareRows`).  So they agree on a list of
kinds exactly if it has the dense kind at both positions or at neither (`KindsAgree`), and on every list exactly if the
kernel takes the inputs first and in their order (`forall_kindsAgree_iff`).
-/

namespace TensorKit.Operator.Api

open Text List

variable {api : Api} {k : KernelSpec} {t : TransformSpec} {rule : Option InferMetaEntry} {indent n : String}
variable {ps : List Param} {d : Dispatch}

/-! ## 1. Texts -/

/-- Texts that begin with different literals differ. -/
theorem append_ne_append {a a' b : String} (l : Nat) (h : l ≤ (a ++ a').toList.length ∧ l ≤ b.toList.length ∧
    (a ++ a').toList.take l ≠ b.toList.take l) (r s : String) : a ++ (a' ++ r) ≠ b ++ s := by
  intro heq
  rw [← String.append_assoc] at heq
  have htake := congrArg (fun x : String => x.toList.take l) heq
  simp only [String.toList_append (s := a ++ a'), String.toList_append (s := b), take_append_of_le_length, h] at htake

theorem kindTest_eq_iff {x y : TensorKind} : kindTest api n x = kindTest api n y ↔ (x = .dense ↔ y = .dense) := by
  have htexts : ((if x = .dense then "is_dense_tensor()" else "is_selected_rows()") : String) =
      (if y = .dense then "is_dense_tensor()" else "is_selected_rows()") ↔ (x = .dense ↔ y = .dense) := by
    cases x <;> cases y <;> decide
  rw [← htexts]
  unfold kindTest
  dsimp only
  split <;> simp [toString]

/-- The code that prepares a dense input is not the code that prepares a row-sparse one. -/
theorem prepareDense_ne_prepareRows (form : InputForm) (position : Nat) :
    prepareDense api t indent n form position ≠ prepareRows indent n := by
  suffices h : (prepareDense api t indent n form position).code ≠ (prepareRows indent n).code from
    fun heq => h (congrArg Preparation.code heq)
  have hrows : (prepareRows indent n).code = "\n" ++ (indent ++ ("  auto " ++ (prepared n ++
      (" = TensorToSelectedRows(" ++ (n ++ ");\n"))))) := by
    simp [prepareRows, toString, String.append_assoc]
  rw [hrows]
  -- the texts part after the indentation, where a type is written, or after the name of the variable
  unfold prepareDense
  dsimp only
  repeat' split
  all_goals simp only [toString, String.append_assoc, ne_eq, String.append_right_inj]
  all_goals first
    | exact append_ne_append 4 (by decide) _ _
    | simp

/-! ## 2. Both readings -/

theorem conditionCode_eq {kernel : String} (hd : k.dispatch.get? kernel = some (some d))
    (hkinds : d.inputs.length = api.inputs.names.length) :
    conditionCode api k kernel = .ok (join " && " (zipWith (kindTest api) api.inputs.names d.inputs)) := by
  have hwritten : writtenKinds api k kernel false = .ok d := by
    simp only [writtenKinds, hd, found]
    rfl
  have htests : (d.inputs.zipIdx.mapM fun x => do return kindTest api (← item api.inputs.names x.2) x.1) =
      (.ok (d.inputs.zipIdx.map fun x => kindTest api (api.inputs.names.getD x.2 "") x.1) : Making (List String)) := by
    refine mapM_eq_ok fun x hx => ?_
    have hx2 : x.2 < api.inputs.names.length := hkinds ▸ snd_lt_of_mem_zipIdx hx
    simp [item, hx2]
  have hzip : (d.inputs.zipIdx.map fun x => kindTest api (api.inputs.names.getD x.2 "") x.1) =
      zipWith (kindTest api) api.inputs.names d.inputs := by
    refine ext_getElem (by simp [hkinds]) fun i h₁ h₂ => ?_
    have hi : i < api.inputs.names.length := by simp at h₂; omega
    simp [hi]
  simp only [conditionCode, hwritten]
  rw [← hzip]
  exact congrArg (fun tests => tests >>= fun x => pure (join " && " x)) htests

def PreparesDense (api : Api) (k : KernelSpec) (t : TransformSpec) (rule : Option InferMetaEntry) (d : Dispatch)
    (indent n : String) : Prop :=
  ∃ form position, prepareInput api k t rule (some d) indent n = .ok (prepareDense api t indent n form position)

theorem paramsHave_iff : paramsHave ps n ↔ ∃ p, paramIndex? ps n = some p := by
  rw [paramsHave, paramIndex?, ← findIdx?_isSome, Option.isSome_iff_exists]

/-- An input is prepared as the kind at its position among the parameters says. -/
theorem prepareInput_eq {form : InputForm} {p : Nat} (hform : api.inputs.info.get? n = some form)
    (hp : paramIndex? (kernelParams api k) n = some p) :
    prepareInput api k t rule (some d) indent n = (item d.inputs p).map fun x =>
      if x = .dense then prepareDense api t indent n form p else prepareRows indent n := by
  have hparam : paramsHave (kernelParams api k) n := paramsHave_iff.mpr ⟨p, hp⟩
  have htakes : isDense (some d.inputs) p = (item d.inputs p).map (· == .dense) := by
    simp only [isDense]
    cases (item d.inputs p : Making TensorKind) <;> rfl
  simp only [prepareInput, if_pos hparam, paramPosition, hp, demand_some, hform, found, ok_bind, Option.map_some, htakes]
  cases (item d.inputs p : Making TensorKind) with
  | error _ => rfl
  | ok x => cases x <;> rfl

theorem preparesDense_iff (hsound : Sound api) (hn : n ∈ api.inputs.names)
    (hparam : paramsHave (kernelParams api k) n) : PreparesDense api k t rule d indent n ↔
      ∃ p, paramIndex? (kernelParams api k) n = some p ∧ d.inputs[p]? = some .dense := by
  obtain ⟨form, hform, -⟩ := hsound.described.input n hn
  obtain ⟨p, hp⟩ := paramsHave_iff.mp hparam
  simp only [PreparesDense, prepareInput_eq hform hp, hp, Option.some.injEq, exists_eq_left']
  cases hx : d.inputs[p]? with
  | none => simp [item, hx, Except.map]
  | some x =>
    simp only [item, hx, demand_some, Except.map, Except.ok.injEq, Option.some.injEq]
    by_cases hdense : x = .dense
    · simp only [hdense, iff_true]
      exact ⟨form, p, rfl⟩
    · simp only [hdense, iff_false, not_exists]
      exact fun form' p' h => prepareDense_ne_prepareRows form' p' h.symm

/-! ## 3. Agreement -/

/-- The dense kind stands at the position of an input among the inputs exactly if it stands at its position among the
parameters of the kernel. -/
def KindsAgree (names : List String) (ps : List Param) (kinds : List TensorKind) : Prop :=
  ∀ (i : Nat) (n : String), names[i]? = some n →
    (kinds[i]? = some .dense ↔ ∃ p, paramIndex? ps n = some p ∧ kinds[p]? = some .dense)

def TakesInOrder (names : List String) (ps : List Param) : Prop :=
  names.Nodup ∧ ps.take names.length = names.map Param.name

theorem isName_iff {p : Param} : p.isName n ↔ p = .name n := by cases p <;> simp [Param.isName]

/-- The position of a name among parameters is the first place where it stands. -/
theorem paramIndex?_eq_some_iff {i : Nat} :
    paramIndex? ps n = some i ↔ ps[i]? = some (.name n) ∧ ∀ j < i, ps[j]? ≠ some (.name n) := by
  simp only [paramIndex?, findIdx?_eq_some_iff_getElem, isName_iff, getElem?_eq_some_iff, ne_eq, not_exists]
  constructor
  · rintro ⟨hi, hname, hbefore⟩
    exact ⟨⟨hi, hname⟩, fun j hj _ => hbefore j hj⟩
  · rintro ⟨⟨hi, hname⟩, hbefore⟩
    exact ⟨hi, hname, fun j hj => hbefore j hj (hj.trans hi)⟩

theorem takesInOrder_iff {names : List String} :
    TakesInOrder names ps ↔ ∀ i n, names[i]? = some n → paramIndex? ps n = some i := by
  constructor
  · rintro ⟨hnd, htake⟩ i n hn
    have hi := lt_of_getElem? hn
    have hat : ∀ j < names.length, ps[j]? = (names[j]?).map Param.name := by
      intro j hj
      rw [← getElem?_map, ← htake, getElem?_take_of_lt hj]
    refine paramIndex?_eq_some_iff.mpr ⟨by rw [hat i hi, hn]; rfl, fun j hj h => ?_⟩
    rw [hat j (hj.trans hi)] at h
    obtain ⟨m, hm, hname⟩ := Option.map_eq_some_iff.mp h
    obtain rfl := Param.name.inj hname
    exact hj.ne ((getElem?_inj (hj.trans hi) hnd).mp (hm.trans hn.symm))
  · intro h
    refine ⟨?_, ext_getElem? fun j => ?_⟩
    · refine nodup_iff_getElem?_ne_getElem?.mpr fun i j hij hj heq => ?_
      have hn := getElem?_eq_getElem hj
      exact hij.ne (Option.some.inj ((h i _ (heq.trans hn)).symm.trans (h j _ hn)))
    · by_cases hj : j < names.length
      · obtain ⟨n, hn⟩ : ∃ n, names[j]? = some n := ⟨_, getElem?_eq_getElem hj⟩
        rw [getElem?_take_of_lt hj, getElem?_map, hn, (paramIndex?_eq_some_iff.mp (h j n hn)).1]
        rfl
      · rw [getElem?_take_eq_none (by omega), getElem?_eq_none (by simpa using hj)]

/-- **Both readings agree on every list of kinds exactly if the kernel takes the inputs first and in their order.** -/
theorem forall_kindsAgree_iff {names : List String} :
    (∀ kinds, kinds.length = names.length → KindsAgree names ps kinds) ↔ TakesInOrder names ps := by
  rw [takesInOrder_iff]
  constructor
  · intro h i n hn
    -- only the kind of this input is dense
    let kinds : List TensorKind := (range names.length).map fun j => if j = i then .dense else .selectedRows
    have hi := lt_of_getElem? hn
    have hdense : kinds[i]? = some .dense := by simp [kinds, hi]
    obtain ⟨q, hq, hqdense⟩ := (h kinds (by simp [kinds]) i n hn).mp hdense
    have hqi : q = i := by
      have hrange : (range names.length)[q]? = some i := by simpa [kinds] using hqdense
      obtain ⟨_, hqi⟩ := List.getElem?_eq_some_iff.mp hrange
      simpa using hqi
    rw [hq, hqi]
  · intro h kinds _ i n hn
    simp [h i n hn]

theorem takesInOrder_of_none {names attrs : List String} (hnd : names.Nodup) :
    TakesInOrder names ((names ++ attrs).map Param.name) := by
  refine ⟨hnd, ?_⟩
  rw [map_append, take_append_of_le_length (by simp), take_of_length_le (by simp)]

/-- **The kind that is tested for an input is dense exactly if the input is prepared as a dense tensor, for all inputs
of a kernel, exactly if the kinds agree at the two positions of every input.**

They do for all lists of kinds exactly if the kernel takes the inputs first and in their order, in particular if its
parameters are not written. -/
theorem test_agrees_with_preparation_iff {kind : Kind} {e : Entry} {kernel : String} {d : Dispatch}
    (hread : ofEntry kind e = .ok api) (hd : k.dispatch.get? kernel = some (some d))
    (hkinds : d.inputs.length = api.inputs.names.length)
    (hparams : ∀ n ∈ api.inputs.names, paramsHave (kernelParams api k) n) :
    conditionCode api k kernel = .ok (join " && " (zipWith (kindTest api) api.inputs.names d.inputs)) ∧
      ((∀ (i : Nat) (n : String) (x : TensorKind), api.inputs.names[i]? = some n → d.inputs[i]? = some x →
          (kindTest api n x = kindTest api n .dense ↔ PreparesDense api k t rule d indent n)) ↔
        KindsAgree api.inputs.names (kernelParams api k) d.inputs) ∧
      ((∀ kinds, kinds.length = api.inputs.names.length → KindsAgree api.inputs.names (kernelParams api k) kinds) ↔
        TakesInOrder api.inputs.names (kernelParams api k)) ∧
      (k.param = none → api.inputs.names.Nodup → KindsAgree api.inputs.names (kernelParams api k) d.inputs) := by
  obtain ⟨-, hsound⟩ := sound_of_ofEntry hread
  refine ⟨conditionCode_eq hd hkinds, ?_, forall_kindsAgree_iff, fun hparam hnodup => ?_⟩
  · refine forall₂_congr fun i n => ?_
    constructor
    · intro h hn
      have hi : i < d.inputs.length := hkinds ▸ (List.getElem?_eq_some_iff.mp hn).1
      have hx := getElem?_eq_getElem hi
      have hmem := mem_of_getElem? hn
      rw [← preparesDense_iff hsound hmem (hparams n hmem), ← h _ hn hx, kindTest_eq_iff, hx]
      simp
    · intro h x hn hx
      have hmem := mem_of_getElem? hn
      rw [preparesDense_iff hsound hmem (hparams n hmem), ← h hn, kindTest_eq_iff, hx]
      simp
  · have hkernel : kernelParams api k = (api.inputs.names ++ api.attrs.names).map .name := by
      simp [kernelParams, hparam]
    rw [hkernel]
    exact forall_kindsAgree_iff.mpr (takesInOrder_of_none hnodup) _ hkinds

/-- An operator with two kernels that take its inputs the other way round. -/
def turnedRound : Entry where
  op := some "f"
  args := some "(Tensor x, Tensor y)"
  output := some "Tensor(out)"
  inferMeta := some ⟨some "UnchangedInferMeta", some [.name "x"], []⟩
  kernel := some {
    func := some "f \x7bdense, dense -> dense\x7d, f_sr \x7bdense, selected_rows -> dense\x7d"
    param := some [.name "y", .name "x"] }
  fields := ["op", "args", "output", "infer_meta", "kernel"]

def turnedKernels : KernelSpec where
  func := ["f", "f_sr"]
  param := some [.name "y", .name "x"]
  backend := none
  layout := none
  dataType := none
  useGpudnn := "false"
  dispatch := [("f", some ⟨[.dense, .dense], [.dense]⟩), ("f_sr", some ⟨[.dense, .selectedRows], [.dense]⟩)]

def turnedRead : Api where
  kind := .forward
  name := "f"
  inputs := ⟨["x", "y"], [("x", .single), ("y", .single)]⟩
  attrs := {}
  outputs := [⟨"out", .single, none⟩]
  optional := []
  body := .kernel turnedRound.inferMeta turnedKernels {}

/-- The second kernel is chosen for a dense `x`, which then is prepared as row-sparse. -/
theorem test_agrees_with_preparation_iff_turnedRound : ofEntry .forward turnedRound = .ok turnedRead ∧
    conditionCode turnedRead turnedKernels "f_sr" = .ok "x.is_dense_tensor() && y.is_selected_rows()" ∧
    ¬ ∀ (i : Nat) (n : String) (x : TensorKind), ["x", "y"][i]? = some n →
      [TensorKind.dense, .selectedRows][i]? = some x → (kindTest turnedRead n x = kindTest turnedRead n .dense ↔
        PreparesDense turnedRead turnedKernels {} turnedRound.inferMeta ⟨[.dense, .selectedRows], [.dense]⟩ "  " n) := by
  have hread : ofEntry .forward turnedRound = .ok turnedRead := by rfl
  obtain ⟨hcondition, hagree, -, -⟩ := @test_agrees_with_preparation_iff turnedRead turnedKernels {}
    turnedRound.inferMeta "  " .forward turnedRound "f_sr" _ hread rfl rfl (by decide)
  refine ⟨hread, hcondition.trans (by rfl), fun h => ?_⟩
  obtain ⟨p, hp, hdense⟩ := (hagree.mp h 0 "x" rfl).mp rfl
  have hindex : paramIndex? (kernelParams turnedRead turnedKernels) "x" = some 1 := by decide
  obtain rfl := Option.some.inj (hindex.symm.trans hp)
  cases hdense

end TensorKit.Operator.Api
