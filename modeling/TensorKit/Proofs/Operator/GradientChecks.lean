import TensorKit.Proofs.Operator.FunctionReading
/-!
# Gradient operators and their forward calls

A gradient operator is read against the forward call that it states.  The reader for functions looks at the names of its
inputs, but only those that end like the name of a gradient can be refused; the canonical reader only counts.  So an
accepted operator can take inputs that its forward operator knows nothing of (`gradient_checks`).
-/

namespace TensorKit.Operator

open List Text Naming

/-- A name that a forward call provides: one of its inputs or outputs, or the gradient of an output. -/
def Provided (inputs outputs : List String) (n : String) : Prop :=
  n ∈ inputs ∨ n ∈ outputs ∨ ∃ v ∈ outputs, n = Naming.gradName v

theorem exists_gradName {n : String} (h : isGradName n) : ∃ v, n = gradName v := by
  obtain ⟨start, hstart⟩ := isSuffixOf_iff_suffix.mp h
  exact ⟨.ofList start, String.toList_inj.mp (by simp [gradName, ← hstart])⟩

/-- What the reader for functions asks: an input is provided by the forward call or does not end like the name of a
gradient, and an attribute is one of the forward call, with its type, or has a default. -/
def Api.Checked (op : String) (inputs : Inputs) (attrs : Attrs) (forward : String) : Prop :=
  ∃ c outs args, Pattern.call? forward = some c ∧ readOutputs op c.outputs = .ok outs ∧
    readArgs c.name c.args [] = .ok args ∧
    (∀ n ∈ inputs.names, Provided args.1.names (outs.map fun o => Naming.baseName o.name) n ∨
      Naming.isGradName n = false) ∧
    ∀ n ∈ attrs.names, n ∈ args.2.names ∧
        (attrs.info.get? n).map AttrInfo.type = (args.2.info.get? n).map AttrInfo.type ∨
      ((attrs.info.get? n).bind AttrInfo.default).isSome

theorem Api.checked_of_checkGradient {op forward : String} {inputs : Inputs} {attrs : Attrs} {outputs : List OutputSpec}
    (h : checkGradient op inputs attrs outputs forward = .ok ()) : Checked op inputs attrs forward := by
  unfold checkGradient at h
  split at h
  · cases h
  next c hc =>
    simp only [bind_eq_ok_iff] at h
    obtain ⟨outs, houts, args, hargs, _, hins, _, hattrs, -⟩ := h
    refine ⟨c, outs, args, hc, houts, hargs, fun n hn => ?_, fun n hn => ?_⟩
    · have hcheck := forall_of_forM_eq_ok hins n hn
      cases hgrad : isGradName n with
      | false => exact .inr rfl
      | true =>
        obtain ⟨v, rfl⟩ := exists_gradName hgrad
        split at hcheck
        next hmem =>
          rw [Bool.or_eq_true, elem_iff, elem_iff] at hmem
          exact .inl (hmem.imp_right .inl)
        · rw [forwardName?_gradName] at hcheck
          exact .inl (.inr (.inr ⟨v, by simpa using eq_true_of_ensure hcheck, rfl⟩))
    · have hcheck := eq_true_of_ensure (forall_of_forM_eq_ok hattrs n hn)
      simpa using hcheck

theorem of_readForwardChecked {op : String} {inputs attrs : List Arg} {outputs : List OutputArg} {s : Option String}
    {f : ForwardCall} (h : readForwardChecked op inputs attrs outputs s = .ok (some f)) :
    inputs.length ≤ f.inputs.length + 2 * f.outputs.length ∧ outputs.length ≤ f.inputs.length ∧
      ∀ a ∈ attrs.drop f.attrs.length, a.default.isSome := by
  unfold readForwardChecked at h
  split at h
  · cases h
  · simp only [bind_eq_ok_iff] at h
    obtain ⟨f', -, _, hins, _, hattrs, _, houts, h⟩ := h
    obtain rfl : f' = f := Option.some.inj (Except.ok.inj h)
    refine ⟨of_decide_eq_true (eq_true_of_ensure hins), of_decide_eq_true (eq_true_of_ensure houts),
      fun a ha => ?_⟩
    unfold checkBackwardAttrs at hattrs
    split at hattrs
    next hfew =>
      rw [length_map] at hfew
      simp [drop_eq_nil_of_le hfew] at ha
    · have hall := eq_true_of_ensure hattrs
      rw [← map_drop, all_map, all_eq_true] at hall
      exact hall a ha

/-- **Gradient operators can take what their forward operators do not provide.**  The reader for functions looks at
names, but not at those of all inputs (`Api.Checked`).  The canonical reader guarantees the numbers of inputs and
outputs, and that attributes beyond the number of those in the forward call have defaults. -/
theorem gradient_checks (e : Entry) :
    (∀ kind api, kind.isBackward = true → Api.ofEntry kind e = .ok api →
      ∃ text, e.forward = some text ∧ Api.Checked api.name api.inputs api.attrs text) ∧
    ∀ d f, Definition.ofEntry e .backwardOp = .ok d → d.forward = some (some f) →
      d.inputs.length ≤ f.inputs.length + 2 * f.outputs.length ∧ d.outputs.length ≤ f.inputs.length ∧
        ∀ a ∈ d.attrs.drop f.attrs.length, a.default.isSome := by
  refine ⟨fun kind api hkind h => ?_, fun d f h hf => ?_⟩
  · simp only [Api.ofEntry, bind_eq_ok_iff, hkind, if_true] at h
    obtain ⟨name, -, text, -, args, -, output, -, outputs, -, body, -, forward, hforward, _, hcheck, h⟩ := h
    cases h
    exact ⟨forward, demand_eq_ok_iff.mp hforward, Api.checked_of_checkGradient hcheck⟩
  · simp only [Definition.ofEntry, bind_eq_ok_iff] at h
    obtain ⟨op, -, text, -, args, -, output, -, outputs, -, extra, -, optional, -, intermediate, -, unneeded, -, body,
      -, forward, hforward, h⟩ := h
    cases h
    obtain ⟨checked, hchecked, hsome⟩ := exists_of_map_eq_ok hforward
    obtain rfl : checked = some f := Option.some.inj (hsome.trans hf)
    simpa only [length_map] using of_readForwardChecked hchecked

/-- A gradient operator with an input that its forward operator does not have. -/
def strayGrad : Entry where
  backwardOp := some "relu_grad"
  forward := some "relu (Tensor x) -> Tensor(out)"
  args := some "(Tensor y, Tensor out_grad)"
  output := some "Tensor(x_grad)"
  inferMeta := some ⟨some "UnchangedInferMeta", some [.name "y"], []⟩
  kernel := some { func := some "relu_grad" }
  fields := ["backward_op", "forward", "args", "output", "infer_meta", "kernel"]

/-- Both readers accept it. -/
theorem gradient_checks_stray :
    (∃ api, Api.ofEntry .backward strayGrad = .ok api ∧ api.inputs.names = ["y", "out_grad"] ∧
      ∃ text, strayGrad.forward = some text ∧ Api.Checked api.name api.inputs api.attrs text) ∧
    ∃ d f, Definition.ofEntry strayGrad .backwardOp = .ok d ∧ d.forward = some (some f) ∧
      d.inputs.length ≤ f.inputs.length + 2 * f.outputs.length := by
  obtain ⟨api, hapi, hnames⟩ := exists_of_map_toOption (x := Api.ofEntry .backward strayGrad)
    (g := fun api => api.inputs.names) (b := ["y", "out_grad"]) (by decide +kernel)
  obtain ⟨d, hd, hf⟩ := exists_of_map_toOption (x := Definition.ofEntry strayGrad .backwardOp)
    (g := fun d => d.forward.join.isSome) (b := true) (by decide +kernel)
  obtain ⟨f, hf⟩ := Option.isSome_iff_exists.mp hf
  have hforward : d.forward = some (some f) := Option.join_eq_some_iff.mp hf
  exact ⟨⟨api, hapi, hnames, (gradient_checks strayGrad).1 .backward api rfl hapi⟩, d, f, hd, hforward,
    ((gradient_checks strayGrad).2 d f hd hforward).1⟩

end TensorKit.Operator
