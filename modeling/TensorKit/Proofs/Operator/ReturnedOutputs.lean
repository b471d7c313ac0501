import TensorKit.Proofs.Operator.DeclaredFunctions
/-!
# The outputs that a function returns

The type that a function returns and its return statement are printed apart.  Both leave out the intermediate outputs,
but the type counts an output that takes the place of an input in any case.  So they list the same outputs exactly if no
intermediate output of an overwriting function takes the place of an input (`counted_eq_returned_iff`).  A function that
returns its intermediate outputs, and one that overwrites nothing, is always consistent.
-/

namespace TensorKit.Operator.Api

open List

open Text

variable {api : Api}

/-! ## 1. Types -/

def counted (api : Api) (inplace : Bool) : List (OutputSpec × Nat) :=
  api.outputs.zipIdx.filter fun p => (inplaceOutputType? api inplace p.1).isSome || !isHidden api p.1

def outputType (api : Api) (inplace : Bool) (o : OutputSpec) : String :=
  (inplaceOutputType? api inplace o).getD o.form.type

theorem returnTypes_eq (api : Api) (inplace : Bool) :
    returnTypes api inplace = (counted api inplace).map fun p => outputType api inplace p.1 := by
  rw [counted, ← filterMap_eq_map, filterMap_filter, returnTypes]
  conv => lhs; rw [← zipIdx_map_fst 0 api.outputs, filterMap_map]
  refine filterMap_congr fun p _ => ?_
  cases htype : inplaceOutputType? api inplace p.1 <;> cases hhidden : isHidden api p.1 <;>
    simp [outputType, htype, hhidden]

/-! ## 2. Statements -/

def element (i : Nat) : String := "std::get<" ++ toString i ++ ">(api_output)"

/-- What a statement returns, by the positions among `n` outputs. -/
inductive Returns (n : Nat) : String → List Nat → Prop where
  | all : Returns n "return api_output;" (range n)
  | one (i : Nat) : Returns n ("return " ++ element i ++ ";") [i]
  | tuple (is : List Nat) (h : is.length ≠ 1) :
    Returns n ("return std::make_tuple(" ++ commas (is.map element) ++ ");") is

def returned (api : Api) : List (OutputSpec × Nat) := api.outputs.zipIdx.filter fun p => !isHidden api p.1

theorem returned_of_nothing_hidden (h : (api.dygraph || api.intermediate.isEmpty)) :
    returned api = api.outputs.zipIdx := by
  refine filter_eq_self.mpr fun p _ => ?_
  rcases Bool.or_eq_true_iff.mp h with h | h <;> simp_all [isHidden]

theorem returned_of_hiding (h : api.dygraph = false) : (returned api).map Prod.snd = returnedPositions api := by
  simp [returned, returnedPositions, isHidden, h]

/-- **The statement returns the outputs that are not left out.** -/
theorem returns_returnCode (hkind : api.kind.isForward) :
    Returns api.outputs.length (returnCode api) ((returned api).map Prod.snd) := by
  unfold returnCode
  split
  · simp_all [Kind.isForward]
  · simp_all [Kind.isForward]
  · split
    next hall =>
      rw [returned_of_nothing_hidden hall, zipIdx_map_snd, ← range_eq_range']
      exact .all
    next hsome =>
      rw [returned_of_hiding (by simp_all)]
      dsimp only
      split
      next i heq => exact heq ▸ .one i
      next hne =>
        refine .tuple _ fun hone => ?_
        obtain ⟨i, hi⟩ := length_eq_one_iff.mp hone
        exact hne i hi

/-! ## 3. Both -/

/-- **The type and the statement list the same outputs exactly if no intermediate output takes the place of an input.** -/
theorem counted_eq_returned_iff (api : Api) (hkind : api.kind.isForward) (inplace : Bool) :
    returnType api inplace = tupleType ((counted api inplace).map fun p => outputType api inplace p.1) ∧
    Returns api.outputs.length (returnCode api) ((returned api).map Prod.snd) ∧
    (counted api inplace = returned api ↔ ¬ (inplace = true ∧ api.dygraph = false ∧ ∃ o ∈ api.outputs,
      (api.inplace.get? (Naming.baseName o.name)).isSome ∧ Naming.baseName o.name ∈ api.intermediate)) := by
  refine ⟨?_, returns_returnCode hkind, ?_⟩
  · rw [returnType, isBackward_of_isForward hkind, ← returnTypes_eq]
    rfl
  · have hsome : ∀ o, (inplaceOutputType? api inplace o).isSome =
        (inplace && (api.inplace.get? (Naming.baseName o.name)).isSome) := by
      intro o
      cases inplace <;> cases hget : api.inplace.get? (Naming.baseName o.name) <;> simp [inplaceOutputType?, hget]
    have hhidden : ∀ o, isHidden api o = true ↔ api.dygraph = false ∧ Naming.baseName o.name ∈ api.intermediate := by
      simp [isHidden]
    constructor
    · rintro heq ⟨rfl, hdygraph, o, ho, hmapped, hintermediate⟩
      obtain ⟨i, hi⟩ := getElem?_of_mem ho
      have hmem : (o, i) ∈ counted api true := by
        simp [counted, mk_mem_zipIdx_iff_getElem?, hi, hsome, hmapped]
      rw [heq, returned, mem_filter, (hhidden o).mpr ⟨hdygraph, hintermediate⟩] at hmem
      cases hmem.2
    · intro hnone
      refine filter_congr fun p hp => ?_
      have ho : p.1 ∈ api.outputs := fst_mem_of_mem_zipIdx hp
      cases hh : isHidden api p.1 with
      | false => simp
      | true =>
        obtain ⟨hdygraph, hintermediate⟩ := (hhidden p.1).mp hh
        rw [hsome]
        cases inplace with
        | false => simp
        | true =>
          have hget : ¬ (api.inplace.get? (Naming.baseName p.1.name)).isSome := fun hget =>
            hnone ⟨rfl, hdygraph, p.1, ho, hget, hintermediate⟩
          simpa using hget

/-- An operator one of whose outputs is intermediate and takes the place of an input. -/
def maskedInplace : Entry where
  op := some "f"
  args := some "(Tensor x, Tensor mask)"
  output := some "Tensor(out), Tensor(mask_out)"
  inferMeta := some ⟨some "FInferMeta", none, []⟩
  kernel := some { func := some "f" }
  intermediate := some "mask_out"
  inplace := some "(mask -> mask_out)"
  fields := ["op", "args", "output", "infer_meta", "kernel", "intermediate", "inplace"]

/-- Its type counts two outputs, its statement returns the first. -/
theorem counted_eq_returned_iff_maskedInplace : ∃ api, (ofEntry .forward maskedInplace).map
      (fun read => { read with dygraph := false }) = .ok api ∧
    returnType api true = "std::tuple<Tensor, Tensor&>" ∧ returnCode api = "return std::get<0>(api_output);" ∧
    counted api true ≠ returned api := by
  have hfacts : ((ofEntry .forward maskedInplace).map fun read => { read with dygraph := false }).toOption.map
      (fun api => (api.kind, returnType api true, returnCode api, api.dygraph, api.outputs.map fun o =>
        ((api.inplace.get? (Naming.baseName o.name)).isSome && api.intermediate.elem (Naming.baseName o.name)))) =
      some (.forward, "std::tuple<Tensor, Tensor&>", "return std::get<0>(api_output);", false, [false, true]) := by
    decide +kernel
  obtain ⟨api, hread, hfacts⟩ := exists_of_map_toOption hfacts
  simp only [Prod.mk.injEq] at hfacts
  obtain ⟨hkind, htype, hcode, hdygraph, houtputs⟩ := hfacts
  refine ⟨api, hread, htype, hcode, fun heq => ?_⟩
  refine (counted_eq_returned_iff api (by rw [hkind]; rfl) true).2.2.mp heq ⟨rfl, hdygraph, ?_⟩
  obtain ⟨o, ho, hboth⟩ := mem_map.mp (houtputs ▸ (by decide : true ∈ [false, true]))
  exact ⟨o, ho, by simpa using hboth⟩

end TensorKit.Operator.Api
