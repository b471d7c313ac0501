import TensorKit.Proofs.Operator.DeclaredFunctions
/-!
# Ordinary functions and in-place pairs

An operator with in-place pairs has an ordinary function besides the one that overwrites its inputs.  The pairs should
not matter there, but its code is printed with a look at them in two places: overwritten lists are not prepared anew
(`overwrittenLists`), and of several outputs those in place of an input are made in a way of their own if they are lists
or the input may be absent (`replacedOutputs`).  Without such a pair the function is that of the operator without pairs.
-/

namespace TensorKit.Operator.Api

variable {api : Api} {k : KernelSpec} {t : TransformSpec} {rule : Option InferMetaEntry}

def withoutInplace (api : Api) : Api := { api with inplace := [] }

theorem prepareInput_withoutInplace (h : overwrittenLists api = []) (dispatch : Option Dispatch)
    (indent name : String) :
    prepareInput api.withoutInplace k t rule dispatch indent name = prepareInput api k t rule dispatch indent name := by
  have hempty : overwrittenLists api.withoutInplace = [] := rfl
  simp only [prepareInput, prepareDense, h, hempty]
  rfl

theorem forwardOutputs_withoutInplace (h : replacedOutputs api = []) (kinds : Option (List TensorKind))
    (indent : String) :
    forwardOutputs api.withoutInplace kinds indent false = forwardOutputs api kinds indent false := by
  have hempty : replacedOutputs api.withoutInplace = [] := by simp [replacedOutputs, withoutInplace]
  have hsingle (o : OutputSpec) :
      forwardSingle api.withoutInplace kinds indent false o = forwardSingle api kinds indent false o := by
    unfold forwardSingle
    cases api.inplace.get? o.name <;> rfl
  simp only [forwardOutputs, forwardOne, h, hempty, hsingle]
  rfl

theorem ofEntry_withoutInplace {e : Entry} (h : ofEntry .forward e = .ok api) :
    ofEntry .forward { e with inplace := none } = .ok api.withoutInplace := by
  simp only [ofEntry, Kind.isBackward, Bool.false_eq_true, if_false, bind_eq_ok_iff] at h ⊢
  obtain ⟨name, hname, args, hargs, read, hread, output, hout, outputs, houts, body, hbody, _, -, view, hview, h⟩ := h
  cases h
  exact ⟨name, hname, args, hargs, read, hread, output, hout, outputs, houts, body, hbody, [], rfl, view, hview, rfl⟩

/-- **The ordinary function does not depend on pairs of single tensors that are always there**: it is that of the same
operator without in-place pairs. -/
theorem kernelFunction_withoutInplace {e : Entry} (hread : ofEntry .forward e = .ok api)
    (hlists : overwrittenLists api = []) (houtputs : replacedOutputs api = []) :
    ofEntry .forward { e with inplace := none } = .ok api.withoutInplace ∧
      kernelFunction api.withoutInplace k t rule false = kernelFunction api k t rule false := by
  refine ⟨ofEntry_withoutInplace hread, ?_⟩
  have hkind : api.kind = .forward := (sound_of_ofEntry hread).1
  have hkind' : api.withoutInplace.kind = .forward := hkind
  rw [kernelFunction, kernelFunction, hkind, hkind']
  simp only [denseFunction, kernelCode, kernelCall, prepareInput_withoutInplace hlists,
    forwardOutputs_withoutInplace houtputs]
  rfl

/-- An operator with two outputs in place of its inputs. -/
def exchange : Entry where
  op := some "f"
  args := some "(Tensor x, Tensor y)"
  output := some "Tensor(out), Tensor(rest)"
  inferMeta := some ⟨some "FInferMeta", none, []⟩
  kernel := some { func := some "f" }
  inplace := some "(x -> rest), (y -> out)"

theorem kernelFunction_withoutInplace_exchange : ∃ api, ofEntry .forward exchange = .ok api ∧ api.inplace.length = 2 ∧
    ofEntry .forward { exchange with inplace := none } = .ok api.withoutInplace ∧
    ∀ k t rule, kernelFunction api.withoutInplace k t rule false = kernelFunction api k t rule false := by
  have hfacts : (ofEntry .forward exchange).toOption.map (fun api =>
      (api.inplace.length, overwrittenLists api, replacedOutputs api)) = some (2, [], []) := by decide +kernel
  obtain ⟨api, hread, hfacts⟩ := exists_of_map_toOption hfacts
  simp only [Prod.mk.injEq] at hfacts
  obtain ⟨hlength, hlists, houtputs⟩ := hfacts
  exact ⟨api, hread, hlength, ofEntry_withoutInplace hread, fun k t rule =>
    (kernelFunction_withoutInplace hread hlists houtputs).2⟩

end TensorKit.Operator.Api
