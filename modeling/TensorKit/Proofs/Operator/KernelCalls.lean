import TensorKit.Operator.Api.Function
import TensorKit.Proofs.Operator.FunctionReading
/-!
# The arguments of a kernel call and the parameter types of the kernel

Generated code calls a kernel through a pointer.  The arguments of the call and the parameter types of the pointer are
collected from the same parameters of the kernel, but not every parameter gives both:

* a literal is passed and has no type (`standsForItself`);
* an input of a function on text tensors that is several tensors has a type, and is passed only if the *last* input is
  several tensors too (`isDropped`).

Everything else gives one argument and one type (`hasParts_itemFor`).  So the call fits the pointer, place by place
(`placed`), exactly if no parameter is of the two kinds above (`call_fits_pointer_iff`).
-/

namespace TensorKit.Operator.Api

open Text List KernelItem

variable {api : Api} {k : KernelSpec} {t : TransformSpec} {rule : Option InferMetaEntry} {dispatch : Option Dispatch}
variable {n : String} {p : Param} {i : KernelItem} {names : List String} {items : List KernelItem}
  {indent : String}
variable {form : InputForm} {inplace : Bool} {outs : OutputCode} {outputs : Nat} {types : List String}

/-! ## 1. Parameters -/

/-- Is the parameter passed as it is written?  Literals are, and names that are no arguments of the function. -/
def standsForItself (api : Api) : Param → Bool
  | .literal _ => true
  | .name n => !api.inputs.names.elem n && !api.attrs.names.elem n

def lastForm (api : Api) : Option InputForm := api.inputs.names.getLast?.bind api.inputs.info.get?

/-- Is the parameter left out of the call?  Functions on text tensors leave out an input of several tensors, unless the
last input is one. -/
def isDropped (api : Api) : Param → Bool
  | .literal _ => false
  | .name n => api.kind == .strings && api.inputs.names.elem n && api.inputs.info.get? n == some .many &&
      lastForm api != some .many

def itemFor (api : Api) (k : KernelSpec) (dispatch : Option Dispatch) (p : Param) : Making KernelItem :=
  if api.kind = .strings then stringsItem api p else paramItem api (kernelParams api k) dispatch p

/-- What is passed and what is listed for a parameter. -/
def HasParts (i : KernelItem) (arg type : Bool) : Prop := i.arg.isSome = arg ∧ i.type.isSome = type

theorem hasParts_attrItem (lists : Bool) (type n : String) : HasParts (attrItem lists type n) true true := by
  unfold attrItem
  split
  · exact ⟨rfl, rfl⟩
  · split
    · exact ⟨rfl, rfl⟩
    · split <;> exact ⟨rfl, rfl⟩

theorem isSome_inputArg (h : form.isOptional = api.optional.elem n) :
    (inputArg api form n).isSome := by
  unfold inputArg
  cases form <;> simp_all [InputForm.isOptional]

theorem standsForItself_input (h : api.inputs.names.elem n) : standsForItself api (.name n) = false := by
  simp only [standsForItself, h, Bool.not_true, Bool.false_and]

theorem standsForItself_attr (h : api.attrs.names.elem n) : standsForItself api (.name n) = false := by
  simp only [standsForItself, h, Bool.not_true, Bool.and_false]

theorem hasParts_placeFor {lists : Bool} {input : InputForm → String → Making (Option String × String)}
    (hinput : ∀ {form n arg type}, api.inputs.names.elem n → api.inputs.info.get? n = some form →
      input form n = .ok (arg, type) → arg.isSome = !isDropped api (.name n))
    (h : placeFor api lists input p = .ok i) : HasParts i (!isDropped api p) (!standsForItself api p) := by
  cases p with
  | literal v =>
    cases h
    exact ⟨rfl, rfl⟩
  | name n =>
    simp only [placeFor] at h
    split at h
    next hin =>
      rw [standsForItself_input hin]
      obtain ⟨form, hform, ⟨arg, type⟩, hpart, h⟩ := of_bind₂_eq_ok h
      cases h
      exact ⟨hinput hin (demand_eq_ok_iff.mp hform) hpart, rfl⟩
    next hin =>
      have hdropped : isDropped api (.name n) = false := by
        simp only [isDropped, hin, Bool.and_false, Bool.false_and]
      rw [hdropped]
      split at h
      next hattr =>
        rw [standsForItself_attr hattr]
        obtain ⟨info, -, h⟩ := of_bind_eq_ok h
        cases h
        exact hasParts_attrItem lists info.type n
      next hattr =>
        cases h
        exact ⟨rfl, by simp only [standsForItself, hin, hattr]; rfl⟩

theorem isSome_stringsArg {last : Option InputForm} (h : form.isOptional = api.optional.elem n) :
    (if api.optional.elem n then some (prepared n) else if form = .single then some ("*" ++ prepared n)
      else if last = some .many then some (prepared n) else none).isSome = !(form == .many && last != some .many) := by
  rw [← h]
  by_cases hlast : last = some .many
  · rw [if_pos hlast, hlast]
    cases form <;> rfl
  · rw [if_neg hlast, bne_iff_ne.mpr hlast]
    cases form <;> rfl

/-- **What a parameter gives to a call**: an argument unless it is dropped, and a type unless it stands for itself. -/
theorem hasParts_itemFor (hsound : Sound api) (h : itemFor api k dispatch p = .ok i) :
    HasParts i (!isDropped api p) (!standsForItself api p) := by
  have hoptional {form : InputForm} {n : String} (hin : api.inputs.names.elem n)
      (hform : api.inputs.info.get? n = some form) : form.isOptional = api.optional.elem n := by
    obtain ⟨form', hform', hoptional⟩ := hsound.described.input n (elem_iff.mp hin)
    rwa [← Option.some.inj (hform'.symm.trans hform)]
  unfold itemFor at h
  split at h
  next hkind =>
    refine hasParts_placeFor (fun {form n arg type} hin hform hpart => ?_) h
    cases hpart
    have hdropped : isDropped api (.name n) = (form == .many && lastForm api != some .many) := by
      simp only [isDropped, hkind, hin, hform, beq_self_eq_true, Bool.true_and]
      cases form <;> rfl
    rw [hdropped]
    exact isSome_stringsArg (hoptional hin hform)
  next hkind =>
    refine hasParts_placeFor (fun {form n arg type} hin hform hpart => ?_) h
    obtain ⟨position, -, dense, -, hpart⟩ := of_bind₂_eq_ok hpart
    have hdropped : isDropped api (.name n) = false := by simp [isDropped, hkind]
    rw [hdropped]
    split at hpart <;>
    · obtain ⟨type, -, hpart⟩ := of_bind_eq_ok hpart
      cases hpart
      exact isSome_inputArg (hoptional hin hform)

/-! ## 2. Places -/

def placed (part : KernelItem → Option String) (items : List KernelItem) : List (Nat × String) :=
  items.zipIdx.filterMap fun x => (part x.1).map (x.2, ·)

theorem placed_snd (part : KernelItem → Option String) (items : List KernelItem) :
    (placed part items).map Prod.snd = items.filterMap part := by
  calc (placed part items).map Prod.snd
      = items.zipIdx.filterMap fun x => part x.1 := by
        rw [placed, map_filterMap]
        refine filterMap_congr fun x _ => ?_
        cases part x.1 <;> rfl
    _ = (items.zipIdx.map Prod.fst).filterMap part := by rw [filterMap_map]; rfl
    _ = items.filterMap part := by rw [zipIdx_map_fst]

theorem mem_placed_fst {part : KernelItem → Option String} {place : Nat} :
    place ∈ (placed part items).map Prod.fst ↔ ∃ i, items[place]? = some i ∧ (part i).isSome := by
  simp only [placed, mem_map, mem_filterMap, Prod.exists, mem_zipIdx_iff_getElem?,
    Option.map_eq_some_iff, Prod.mk.injEq, exists_and_right, exists_eq_right, Option.isSome_iff_exists]
  grind

/-- Arguments and types come from the same places exactly if every place has both or none. -/
theorem placed_fst_eq_iff {f g : KernelItem → Option String} :
    (placed f items).map Prod.fst = (placed g items).map Prod.fst ↔ ∀ i ∈ items, (f i).isSome = (g i).isSome := by
  constructor
  · intro h i hi
    obtain ⟨place, hplace⟩ := getElem?_of_mem hi
    have hmem : (∃ j, items[place]? = some j ∧ (f j).isSome) ↔ ∃ j, items[place]? = some j ∧ (g j).isSome := by
      rw [← mem_placed_fst, ← mem_placed_fst, h]
    rw [hplace] at hmem
    rw [Bool.eq_iff_iff]
    simpa using hmem
  · intro h
    rw [placed, placed, map_filterMap, map_filterMap]
    refine filterMap_congr fun x hx => ?_
    have hsome := h x.1 (fst_mem_of_mem_zipIdx hx)
    cases hf : f x.1 <;> cases hg : g x.1 <;> simp_all

/-! ## 3. Outputs -/

def outputsFor (api : Api) (dispatch : Option Dispatch) (indent : String) (inplace : Bool) : Making OutputCode :=
  if api.kind = .strings then .ok (stringsOutputs api inplace)
  else if api.kind = .backward then backwardOutputs api (dispatch.map Dispatch.outputs) indent
  else forwardOutputs api (dispatch.map Dispatch.outputs) indent inplace

theorem names_of_forwardOutputs {kinds : Option (List TensorKind)}
    (h : forwardOutputs api kinds indent inplace = .ok outs) : outs.names = kernelOutputNames api.outputs.length := by
  unfold forwardOutputs at h
  split at h
  next o hone =>
    rw [hone]
    obtain ⟨setter, -, h⟩ := of_bind_eq_ok h
    dsimp only at h
    split at h
    · split at h
      · cases h
      · rw [← Except.ok.inj h]; rfl
    · rw [← Except.ok.inj h]; rfl
  · obtain ⟨parts, -, h⟩ := of_bind_eq_ok h
    rw [← Except.ok.inj h]

theorem names_of_stringsOutputs (api : Api) (inplace : Bool) :
    (stringsOutputs api inplace).names = kernelOutputNames api.outputs.length := by
  unfold stringsOutputs
  dsimp only
  split
  next o hone => rw [hone]; rfl
  · rfl

theorem names_of_outputsFor
    (h : outputsFor api dispatch indent inplace = .ok outs) : outs.names = kernelOutputNames api.outputs.length := by
  unfold outputsFor at h
  split at h
  · rw [← Except.ok.inj h, names_of_stringsOutputs]
  · split at h
    · obtain ⟨parts, -, h⟩ := of_bind_eq_ok h
      rw [← Except.ok.inj h]
    · exact names_of_forwardOutputs h

theorem length_kernelOutputNames (n : Nat) : (kernelOutputNames n).length = n := by
  unfold kernelOutputNames
  split
  next h => simp_all
  · simp

def outputItems (names types : List String) : List KernelItem :=
  (names.zip types).zipIdx.map fun x => ⟨.output x.2, some x.1.1, some x.1.2⟩

theorem outputItems_parts (h : names.length = types.length) :
    (outputItems names types).filterMap arg = names ∧
      (outputItems names types).filterMap type = types := by
  have hnames : ((names.zip types).zipIdx.map Prod.fst).map Prod.fst = names := by rw [zipIdx_map_fst, map_fst_zip h.le]
  have htypes : ((names.zip types).zipIdx.map Prod.fst).map Prod.snd = types := by rw [zipIdx_map_fst, map_snd_zip h.ge]
  constructor
  · rw [outputItems, filterMap_map]
    exact (congrFun filterMap_eq_map _).trans ((map_map ..).symm.trans hnames)
  · rw [outputItems, filterMap_map]
    exact (congrFun filterMap_eq_map _).trans ((map_map ..).symm.trans htypes)

theorem isSome_outputItems (hi : i ∈ outputItems names types) : i.arg.isSome = i.type.isSome := by
  obtain ⟨x, -, rfl⟩ := mem_map.mp hi
  rfl

/-! ## 4. Whole calls -/

def callFor (api : Api) (k : KernelSpec) (t : TransformSpec) (rule : Option InferMetaEntry) (dispatch : Option Dispatch)
    (indent : String) : Making KernelCall :=
  if api.kind = .strings then stringsCall api k indent else kernelCall api k t rule dispatch indent

def contextItem : KernelItem := ⟨.context, some "*dev_ctx", some "const platform::DeviceContext&"⟩

theorem parts_of_callFor {call : KernelCall} (h : callFor api k t rule dispatch indent = .ok call) :
    ∃ ps types, (kernelParams api k).mapM (itemFor api k dispatch) = .ok ps ∧ types.length = api.outputs.length ∧
      call.args = (contextItem :: ps).filterMap arg ∧
      call.pointer = pointerType ((contextItem :: ps).filterMap type ++ types) := by
  unfold callFor at h
  unfold itemFor
  split at h
  next hkind =>
    simp only [if_pos hkind]
    obtain ⟨ps, hps, h⟩ := of_bind_eq_ok h
    rw [← Except.ok.inj h]
    exact ⟨ps, _, hps, by simp, rfl, rfl⟩
  next hkind =>
    simp only [if_neg hkind]
    obtain ⟨preparations, -, items, hitems, h⟩ := of_bind₂_eq_ok h
    obtain ⟨types, htypes, h⟩ := of_bind_eq_ok h
    obtain ⟨ps, hps, hitems⟩ := of_bind_eq_ok hitems
    cases hitems
    rw [← Except.ok.inj h]
    have hlen : types.length = api.outputs.length := by simpa using (forall₂_of_mapM_eq_ok htypes).length_eq.symm
    exact ⟨ps, types, hps, hlen, rfl, rfl⟩

/-- A parameter gives an argument unless it is dropped, and a type unless it stands for itself. -/
theorem map_isSome_of_mapM {ps : List KernelItem} (hsound : Sound api)
    (h : (kernelParams api k).mapM (itemFor api k dispatch) = .ok ps) :
    ps.map (·.arg.isSome) = (kernelParams api k).map (!isDropped api ·) ∧
      ps.map (·.type.isSome) = (kernelParams api k).map (!standsForItself api ·) := by
  have hparts {p : Param} {i : KernelItem} (hi : itemFor api k dispatch p = .ok i) := hasParts_itemFor hsound hi
  exact ⟨map_of_mapM_eq_ok (fun hi => (hparts hi).1) h, map_of_mapM_eq_ok (fun hi => (hparts hi).2) h⟩

theorem standsForItself_of_isDropped (h : isDropped api p) : standsForItself api p = false := by
  cases p with
  | literal v => cases h
  | name n =>
    simp only [isDropped, Bool.and_eq_true] at h
    exact standsForItself_input h.1.1.2

def callItems (ps : List KernelItem) (outputs : Nat) (types : List String) : List KernelItem :=
  contextItem :: ps ++ outputItems (kernelOutputNames outputs) types

/-- The k-th argument of a call and the k-th type of the pointer come from the same place, and there are equally
many. -/
def Aligned (items : List KernelItem) : Prop :=
  (placed KernelItem.arg items).map Prod.fst = (placed KernelItem.type items).map Prod.fst

section Parts

variable {ps : List KernelItem} (hsound : Sound api)
  (hps : (kernelParams api k).mapM (itemFor api k dispatch) = .ok ps)

include hsound hps

theorem aligned_iff : Aligned (callItems ps outputs types) ↔
    ∀ p ∈ kernelParams api k, standsForItself api p = false ∧ isDropped api p = false := by
  obtain ⟨hargs, htypes⟩ := map_isSome_of_mapM hsound hps
  calc Aligned (callItems ps outputs types)
      ↔ ∀ i ∈ ps, i.arg.isSome = i.type.isSome := by
        rw [Aligned, placed_fst_eq_iff]
        simp only [callItems, mem_append, mem_cons]
        refine ⟨fun h i hi => h i (.inl (.inr hi)), fun h i hi => ?_⟩
        rcases hi with (rfl | hi) | hi
        · rfl
        · exact h i hi
        · exact isSome_outputItems hi
    _ ↔ ps.map (·.arg.isSome) = ps.map (·.type.isSome) := map_inj_left.symm
    _ ↔ ∀ p ∈ kernelParams api k, isDropped api p = standsForItself api p := by
        rw [hargs, htypes, map_inj_left]
        simp
    _ ↔ ∀ p ∈ kernelParams api k, standsForItself api p = false ∧ isDropped api p = false := by
        refine forall₂_congr fun p _ => ?_
        cases hd : isDropped api p with
        | false => exact ⟨fun h => ⟨h.symm, rfl⟩, fun h => h.1.symm⟩
        | true => simp [standsForItself_of_isDropped hd]

theorem length_placed_eq_iff :
    (placed arg (callItems ps outputs types)).length =
        (placed type (callItems ps outputs types)).length ↔
      (kernelParams api k).countP (standsForItself api) = (kernelParams api k).countP (isDropped api) := by
  obtain ⟨hargs, htypes⟩ := map_isSome_of_mapM hsound hps
  have hplaced (part : KernelItem → Option String) : (placed part (callItems ps outputs types)).length =
      [contextItem].countP (part · |>.isSome) + (ps.map (part · |>.isSome)).countP id +
        (outputItems (kernelOutputNames outputs) types).countP (part · |>.isSome) := by
    calc (placed part (callItems ps outputs types)).length
        = ((callItems ps outputs types).filterMap part).length := by rw [← placed_snd, length_map]
      _ = (callItems ps outputs types).countP (part · |>.isSome) := length_filterMap_eq_countP ..
      _ = _ := by
        rw [callItems, ← singleton_append, countP_append, countP_append, countP_map]
        rfl
  have houts : (outputItems (kernelOutputNames outputs) types).countP (·.arg.isSome) =
      (outputItems (kernelOutputNames outputs) types).countP (·.type.isSome) :=
    countP_congr fun i hi => by rw [isSome_outputItems hi]
  have hcount (q : Param → Bool) : (kernelParams api k).countP q + ((kernelParams api k).map (!q ·)).countP id =
      (kernelParams api k).length := by
    rw [length_eq_countP_add_countP q, countP_map]
    congr 2
    funext p
    simp
  have hdropped := hcount (isDropped api)
  have hliteral := hcount (standsForItself api)
  have hcontext : [contextItem].countP (·.arg.isSome) = [contextItem].countP (·.type.isSome) := rfl
  rw [hplaced, hplaced, houts, hargs, htypes]
  omega

end Parts

/-- **The arguments of a kernel call fit the parameter types of the pointer exactly if no parameter of the kernel stands
for itself and none is dropped**; there are equally many exactly if as many parameters stand for themselves as are
dropped.  So a call on dense tensors with all inputs and attributes always fits. -/
theorem call_fits_pointer_iff {kind : Kind} {e : Entry} {call : KernelCall} (hread : ofEntry kind e = .ok api)
    (hcall : callFor api k t rule dispatch indent = .ok call) :
    ∃ ps types, (kernelParams api k).mapM (itemFor api k dispatch) = .ok ps ∧ types.length = api.outputs.length ∧
      (∀ inplace outs, outputsFor api dispatch indent inplace = .ok outs →
        call.args ++ outs.names = (placed KernelItem.arg (callItems ps api.outputs.length types)).map Prod.snd) ∧
      call.pointer = pointerType ((placed KernelItem.type (callItems ps api.outputs.length types)).map Prod.snd) ∧
      (Aligned (callItems ps api.outputs.length types) ↔
        ∀ p ∈ kernelParams api k, standsForItself api p = false ∧ isDropped api p = false) ∧
      ((placed KernelItem.arg (callItems ps api.outputs.length types)).length =
          (placed KernelItem.type (callItems ps api.outputs.length types)).length ↔
        (kernelParams api k).countP (standsForItself api) = (kernelParams api k).countP (isDropped api)) ∧
      (kind ≠ .strings → k.param = none → Aligned (callItems ps api.outputs.length types)) := by
  obtain ⟨rfl, hsound⟩ := sound_of_ofEntry hread
  obtain ⟨ps, types, hps, hlength, hargs, hpointer⟩ := parts_of_callFor hcall
  have houtputs := outputItems_parts ((length_kernelOutputNames api.outputs.length).trans hlength.symm)
  refine ⟨ps, types, hps, hlength, fun inplace outs houts => ?_, ?_, aligned_iff hsound hps,
    length_placed_eq_iff hsound hps, fun hkind hparam => ?_⟩
  · rw [placed_snd, callItems, filterMap_append, houtputs.1, hargs, names_of_outputsFor houts]
  · rw [placed_snd, callItems, filterMap_append, houtputs.2, hpointer]
  · rw [aligned_iff hsound hps]
    intro p hp
    rw [kernelParams, hparam, Option.getD_none, map_append, mem_append] at hp
    rcases hp with hp | hp
    · obtain ⟨n, hn, rfl⟩ := mem_map.mp hp
      exact ⟨standsForItself_input (elem_iff.mpr hn), by simp [isDropped, hkind]⟩
    · obtain ⟨n, hn, rfl⟩ := mem_map.mp hp
      exact ⟨standsForItself_attr (elem_iff.mpr hn), by simp [isDropped, hkind]⟩

/-- An operator on text tensors with an input of several tensors that is not the last. -/
def joinTexts : Entry where
  op := some "join"
  args := some "(Tensor[] x, Tensor y)"
  output := some "Tensor(out@StringTensor)"
  inferMeta := some ⟨some "strings::CreateLikeInferMeta", some [.name "y"], []⟩
  kernel := some { func := some "strings_join" }
  fields := ["op", "args", "output", "infer_meta", "kernel"]

def joinKernel : KernelSpec := ⟨["strings_join"], none, none, none, none, "false", [("strings_join", none)]⟩

def joinRead : Api where
  kind := .strings
  name := "join"
  inputs := ⟨["x", "y"], [("x", .many), ("y", .single)]⟩
  attrs := {}
  outputs := [⟨"out@StringTensor", .single, none⟩]
  optional := []
  body := .kernel joinTexts.inferMeta joinKernel {}

/-- Its call is without the first input, whose type the pointer lists. -/
theorem call_fits_pointer_iff_joinTexts : ofEntry .strings joinTexts = .ok joinRead ∧
    (∃ code, callFor joinRead joinKernel {} joinTexts.inferMeta none "" = .ok ⟨code, ["*dev_ctx", "*input_y"],
      pointerType ["const platform::DeviceContext&", "const std::vector<const phi::StringTensor*>&",
        "const phi::StringTensor&", "phi::StringTensor*"]⟩) ∧
    ∃ ps types, (kernelParams joinRead joinKernel).mapM (itemFor joinRead joinKernel none) = .ok ps ∧
      types.length = 1 ∧ ¬ Aligned (callItems ps 1 types) := by
  have hread : ofEntry .strings joinTexts = .ok joinRead := by rfl
  have hcall : ∃ code, callFor joinRead joinKernel {} joinTexts.inferMeta none "" = .ok ⟨code, ["*dev_ctx", "*input_y"],
      pointerType ["const platform::DeviceContext&", "const std::vector<const phi::StringTensor*>&",
        "const phi::StringTensor&", "phi::StringTensor*"]⟩ := ⟨_, rfl⟩
  refine ⟨hread, hcall, ?_⟩
  obtain ⟨code, hcall⟩ := hcall
  obtain ⟨ps, types, hps, hlength, -, -, haligned, -, -⟩ := call_fits_pointer_iff hread hcall
  refine ⟨ps, types, hps, hlength, fun h => ?_⟩
  have hdropped : isDropped joinRead (.name "x") = true := by decide
  rw [(haligned.mp h (.name "x") (.head _)).2] at hdropped
  cases hdropped

end TensorKit.Operator.Api
