import TensorKit.Operator.Api.Files
import TensorKit.Proofs.Operator.FunctionReading
/-!
# The functions of a header and the functions of its source file

A header declares the functions of an operator and a source file defines them, by routines of their own:

* the header leaves the ordinary function out if the name *of the function* ends in an underscore, the source file if
  the name *of the operator* does and inputs are overwritten;
* the source file of functions on sparse tensors gives the function that overwrites its inputs the parameters and the
  result of the one that does not.

`declared_iff_defined` says when both files have the same functions.  On sparse tensors an operator that overwrites an
input is never among them: the parameter of that input is a constant in one file and not in the other
(`bare_overwriting_ne`).
-/

namespace TensorKit.Operator

open List

def Parameter.bare (p : Parameter) : Parameter := { p with default := none }

namespace Api

open Text

/-- What a declaration and a definition of one function share: everything but the defaults. -/
def Signature.bare (s : Signature) : Signature :=
  { s with params := s.params.map Parameter.bare, results := s.results.map Parameter.bare }

/-- Functions on dense or sparse tensors that are no gradient functions. -/
def Kind.isForward : Kind → Bool
  | forward | sparse => true
  | _ => false

theorem isBackward_of_isForward {kind : Kind} (h : kind.isForward) : kind.isBackward = false := by
  cases kind <;> simp_all [Kind.isForward, Kind.isBackward]

variable {api : Api} {k : KernelSpec} {t : TransformSpec} {rule : Option InferMetaEntry}

/-! ## 1. Parameters -/

def inputParam (api : Api) (inplace : Bool) (n : String) : Parameter :=
  let name := Naming.baseName n
  let form := (api.inputs.info.get? name).getD .single
  ⟨if inplace && api.inplace.values.elem name then form.inplaceType else form.type, name, none⟩

theorem inputParams_eq_ok (h : ∀ n ∈ api.inputs.names, ∃ form, api.inputs.info.get? (Naming.baseName n) = some form)
    (inplace : Bool) : inputParams api inplace = .ok (api.inputs.names.map (inputParam api inplace)) := by
  refine mapM_eq_ok fun n hn => ?_
  obtain ⟨form, hform⟩ := h n hn
  simp only [inputParam, hform, found, Option.getD_some]
  rfl

/-- If the parameters of one variant can be written, those of both can. -/
theorem inputParams_eq {b : Bool} {ps : List Parameter} (h : inputParams api b = .ok ps) (inplace : Bool) :
    inputParams api inplace = .ok (api.inputs.names.map (inputParam api inplace)) := by
  refine inputParams_eq_ok (fun n hn => ?_) inplace
  obtain ⟨p, -, hp⟩ := exists_of_mapM_eq_ok h n hn
  obtain ⟨form, hform, -⟩ := of_bind_eq_ok hp
  exact ⟨form, demand_eq_ok_iff.mp hform⟩

def signatureOf (api : Api) (attrs : List Parameter) (inplace : Bool) (returns name : String) : Signature :=
  ⟨returns, name, api.inputs.names.map (inputParam api inplace) ++ attrs, []⟩

/-- All signatures of an operator can be written, with these parameters for the attributes. -/
def Writable (api : Api) (attrs : List Parameter) : Prop :=
  ∀ inplace returns name, signatureNamed api inplace returns name = .ok (signatureOf api attrs inplace returns name)

theorem writable_of_signatureNamed (hkind : api.kind.isForward) {inplace : Bool} {returns name : String} {s : Signature}
    (h : signatureNamed api inplace returns name = .ok s) : ∃ attrs, Writable api attrs := by
  have heq : ∀ b r n, signatureNamed api b r n =
      (do return ⟨r, n, (← inputParams api b) ++ (← attrParams api), []⟩ : Making Signature) := by
    intro b r n
    simp [signatureNamed, isBackward_of_isForward hkind]
  rw [heq] at h
  obtain ⟨ins, hins, attrs, hattrs, -⟩ := of_bind₂_eq_ok h
  refine ⟨attrs, fun b r n => ?_⟩
  rw [heq, inputParams_eq hins b, hattrs]
  rfl

/-- **The function that overwrites an input does not take what the other one takes.** -/
theorem bare_overwriting_ne (hsound : Sound api) (hne : api.inplace ≠ []) (attrs : List Parameter)
    (returns name returns' name' : String) :
    (signatureOf api attrs true returns name).bare ≠ (signatureOf api attrs false returns' name').bare := by
  obtain ⟨p, hp⟩ := exists_mem_of_ne_nil _ hne
  have hvalue : p.2 ∈ api.inplace.values := mem_map_of_mem hp
  obtain ⟨hinput, hbase⟩ := hsound.overwritten p.2 hvalue
  intro h
  have hparams := congrArg Signature.params h
  simp only [Signature.bare, signatureOf, map_append, map_map] at hparams
  have hins := append_inj_left hparams (by simp)
  have htype := congrArg Parameter.type (map_inj_left.mp hins p.2 hinput)
  simp only [Function.comp_apply, Parameter.bare, inputParam, hbase, elem_eq_true_of_mem hvalue, Bool.and_true,
    if_true, Bool.false_eq_true, if_false] at htype
  revert htype
  cases (api.inputs.info.get? p.2).getD .single <;> decide

/-! ## 2. Names -/

def underscored (s : String) : Bool := last? s == some '_'

def overwritingName (s : String) : String := if underscored s then s else s ++ "_"

theorem endsInUnderscore_of_ne {s : String} (hne : s ≠ "") : endsInUnderscore s = .ok (underscored s) := by
  have hlist : s.toList ≠ [] := fun h => hne (String.toList_eq_nil_iff.mp h)
  have hlast : last? s = some (s.toList.getLast hlist) := getLast?_eq_getLast_of_ne_nil hlist
  simp only [endsInUnderscore, underscored, hlast]
  rfl

/-- The name of a function that returns intermediate outputs never ends in an underscore. -/
theorem underscored_functionName (hkind : api.kind.isForward) :
    underscored (functionName api) = (!api.dygraph && underscored api.name) := by
  have hname : functionName api = if api.dygraph then Naming.intermediateFunction api.name else api.name := by
    cases hk : api.kind <;> simp_all [functionName, Kind.isForward]
  cases hd : api.dygraph with
  | false => simp [hname, hd]
  | true =>
    have hlast : last? (api.name ++ "_intermediate") = some 'e' := by
      rw [last?, String.toList_append, getLast?_append]
      rfl
    simp [hname, hd, Naming.intermediateFunction, underscored, hlast]

theorem functionName_ne_empty (h : api.name ≠ "") : functionName api ≠ "" := by
  unfold functionName
  split
  · split
    · simp [Naming.intermediateFunction]
    · exact h
  · split
    · simp [Naming.intermediateFunction]
    · exact h
  · exact h

theorem ne_append_underscore (s : String) : s ≠ s ++ "_" := by
  intro h
  have := congrArg (fun t : String => t.toList.length) h
  simp at this

/-! ## 3. The functions of a header -/

/-- The signature that the header gives the function that overwrites its inputs, or the ordinary one. -/
def declaredSignature (api : Api) (attrs : List Parameter) (inplace : Bool) : Signature :=
  signatureOf api attrs inplace (returnType api inplace)
    (if inplace then overwritingName (functionName api) else functionName api)

def declaredSignatures (api : Api) (attrs : List Parameter) : List Signature :=
  (if underscored (functionName api) then [] else [declaredSignature api attrs false]) ++
    (if api.inplace.isEmpty then [] else [declaredSignature api attrs true])

theorem declared_eq {attrs : List Parameter} (hkind : api.kind.isForward) (hbase : isBase api)
    (hw : Writable api attrs) (hne : functionName api ≠ "") : declared api = .ok (declaredSignatures api attrs) := by
  simp only [declared, isBackward_of_isForward hkind, hbase, endsInUnderscore_of_ne hne, hw _ _ _, declaredSignatures,
    declaredSignature, overwritingName]
  cases underscored (functionName api) <;> cases api.inplace.isEmpty <;> rfl

theorem declared_of_empty (hkind : api.kind.isForward) (hempty : functionName api = "") :
    declared api = .error (.fault .index) := by
  simp only [declared, isBackward_of_isForward hkind, hempty]
  rfl

/-! ## 4. The functions of a source file -/

section Signature

variable {inplace : Bool} {f : Function}

theorem signature_of_denseFunction (h : denseFunction api k t rule inplace = .ok f) :
    definedSignature api inplace = .ok f.signature := by
  obtain ⟨s, hs, select, -, h⟩ := of_bind₂_eq_ok h
  dsimp only at h
  split at h
  · cases h
  · obtain ⟨code, -, h⟩ := of_bind_eq_ok h
    rw [hs, ← Except.ok.inj h]
  · obtain ⟨branches, -, h⟩ := of_bind_eq_ok h
    rw [hs, ← Except.ok.inj h]

theorem signature_of_sparseFunction (h : sparseFunction api k rule inplace = .ok f) :
    definedSignature api inplace = .ok f.signature := by
  obtain ⟨_, -, select, -, h⟩ := of_bind₂_eq_ok h
  obtain ⟨branches, -, s, hs, h⟩ := of_bind₂_eq_ok h
  rw [hs, ← Except.ok.inj h]

theorem signature_of_kernelFunction (hkind : api.kind.isForward) (h : kernelFunction api k t rule inplace = .ok f) :
    definedSignature api inplace = .ok f.signature := by
  cases hk : api.kind with
  | forward =>
    simp only [kernelFunction, hk] at h
    exact signature_of_denseFunction h
  | sparse =>
    simp only [kernelFunction, hk] at h
    exact signature_of_sparseFunction h
  | _ => simp [hk, Kind.isForward] at hkind

end Signature

/-- The signature that the source file gives the function that overwrites its inputs, or the ordinary one.  On sparse
tensors only the name tells them apart. -/
def writtenSignature (api : Api) (attrs : List Parameter) (inplace : Bool) : Signature :=
  let overwrites := inplace && api.kind == .forward
  signatureOf api attrs overwrites (returnType api overwrites)
    (if inplace then overwritingName (functionName api) else functionName api)

theorem definedSignature_eq {attrs : List Parameter} (hkind : api.kind.isForward) (hw : Writable api attrs)
    {inplace : Bool} (hne : inplace → functionName api ≠ "") :
    definedSignature api inplace = .ok (writtenSignature api attrs inplace) := by
  have hname : definedName api inplace =
      .ok (if inplace then overwritingName (functionName api) else functionName api) := by
    have hstrings : api.kind ≠ .strings := by
      rintro hk
      simp [hk, Kind.isForward] at hkind
    cases inplace with
    | false => simp only [definedName, if_neg hstrings]; rfl
    | true =>
      simp only [definedName, if_neg hstrings, endsInUnderscore_of_ne (hne rfl), overwritingName]
      rfl
  simp only [definedSignature, hname, writtenSignature]
  cases hk : api.kind with
  | forward =>
    simp only [beq_self_eq_true, Bool.and_true]
    exact hw _ _ _
  | sparse =>
    have hsparse : (Kind.sparse == Kind.forward) = false := by decide
    simp only [hsparse, Bool.and_false]
    exact hw _ _ _
  | _ => simp [hk, Kind.isForward] at hkind

def writtenSignatures (api : Api) (attrs : List Parameter) : List Signature :=
  (if !api.inplace.isEmpty && underscored api.name then [] else [writtenSignature api attrs false]) ++
    (if api.inplace.isEmpty then [] else [writtenSignature api attrs true])

theorem signatures_of_functions (hkind : api.kind.isForward) {fs : List Function}
    (h : functions api k t rule = .ok fs) :
    ∃ attrs, Writable api attrs ∧ fs.map Function.signature = writtenSignatures api attrs := by
  obtain ⟨ordinary, hordinary, h⟩ := of_bind_eq_ok h
  have hfirst := signature_of_kernelFunction hkind hordinary
  obtain ⟨attrs, hw⟩ : ∃ attrs, Writable api attrs := by
    obtain ⟨name, -, hsignature⟩ := of_bind_eq_ok hfirst
    split at hsignature <;> exact writable_of_signatureNamed hkind hsignature
  rw [definedSignature_eq hkind hw (by simp)] at hfirst
  refine ⟨attrs, hw, ?_⟩
  unfold writtenSignatures
  split at h
  next hempty =>
    cases h
    simp [hempty, Except.ok.inj hfirst]
  next hnonempty =>
    obtain ⟨only, honly, overwriting, hoverwriting, h⟩ := of_bind₂_eq_ok h
    have hname : api.name ≠ "" := by
      intro hempty
      rw [hempty] at honly
      cases honly
    have hne := functionName_ne_empty hname
    have hsecond := signature_of_kernelFunction hkind hoverwriting
    rw [definedSignature_eq hkind hw fun _ => hne] at hsecond
    rw [endsInUnderscore_of_ne hname] at honly
    cases honly
    cases h
    cases hu : underscored api.name <;> simp [hnonempty, Except.ok.inj hfirst, Except.ok.inj hsecond]

/-! ## 5. Both files -/

def SameFunctions (ds ws : List Signature) : Prop := ∀ s, s ∈ ds.map Signature.bare ↔ s ∈ ws.map Signature.bare

/-- The declarations in their place in a header: those of functions on sparse tensors stand under the names of the
outputs. -/
def headerText (api : Api) (text : String) : String :=
  match api.kind with
  | .forward | .backward => text
  | _ => "\n// " ++ commas (api.outputs.map OutputSpec.name) ++ "\n" ++ text ++ "\n"

theorem exists_of_isBase (hbase : isBase api) : ∃ rule k t, api.body = .kernel rule k t := by
  cases hbody : api.body with
  | invoke call => simp [isBase, hbody] at hbase
  | kernel rule k t => exact ⟨rule, k, t, rfl⟩

theorem declarationText_eq (hbase : isBase api) :
    declarationText api = (declared api).map fun ds => headerText api (String.join (ds.map Signature.declaration)) := by
  obtain ⟨rule, k, t, hbody⟩ := exists_of_isBase hbase
  simp only [declarationText, hbody, headerText]
  cases declared api <;> cases api.kind <;> rfl

/-- When both files have the same functions: an operator that overwrites nothing is not called like one that does, and
an operator that overwrites an input works on dense tensors and is, if it returns intermediate outputs, not called like
one that has no ordinary function. -/
def FilesAgree (api : Api) : Prop :=
  if api.inplace.isEmpty then api.dygraph ∨ underscored api.name = false
  else api.kind = .forward ∧ (api.dygraph = false ∨ underscored api.name = false)

section Comparison

variable {attrs : List Parameter}

theorem written_ordinary : writtenSignature api attrs false = declaredSignature api attrs false := rfl

theorem signatures_eq_of_filesAgree (hkind : api.kind.isForward) (h : FilesAgree api) :
    declaredSignatures api attrs = writtenSignatures api attrs := by
  unfold FilesAgree at h
  simp only [declaredSignatures, writtenSignatures, underscored_functionName hkind, written_ordinary]
  split at h
  next hempty => rcases h with h | h <;> simp [hempty, h]
  next hnonempty =>
    obtain ⟨hforward, h⟩ := h
    have hname : writtenSignature api attrs true = declaredSignature api attrs true := by
      simp [writtenSignature, declaredSignature, hforward]
    rw [hname]
    rcases h with h | h <;> simp [hnonempty, h]

theorem filesAgree_of_sameFunctions (hsound : Sound api) (hkind : api.kind.isForward)
    (h : SameFunctions (declaredSignatures api attrs) (writtenSignatures api attrs)) : FilesAgree api := by
  have hname := underscored_functionName hkind
  unfold FilesAgree
  by_cases hempty : api.inplace.isEmpty
  · -- otherwise the header has no function, and the source file the ordinary one
    rw [if_pos hempty]
    by_contra hnot
    obtain ⟨hd, hu⟩ : api.dygraph = false ∧ underscored api.name := by simpa using hnot
    have hordinary := (h (writtenSignature api attrs false).bare).mpr (by simp [writtenSignatures, hempty])
    simp [declaredSignatures, hempty, hname, hd, hu] at hordinary
  · rw [if_neg hempty]
    have hne : api.inplace ≠ [] := fun h => hempty (isEmpty_iff.mpr h)
    -- the function that overwrites its inputs is declared, so it is defined
    have hmem := (h (declaredSignature api attrs true).bare).mp (by simp [declaredSignatures, hempty])
    obtain ⟨w, hw, hbare⟩ := mem_map.mp hmem
    have hforward : api.kind = .forward := by
      by_contra hnot
      have hplain : ∃ returns name, w = signatureOf api attrs false returns name := by
        have hsparse : (api.kind == .forward) = false := by simp [hnot]
        have hcases : w = writtenSignature api attrs false ∨ w = writtenSignature api attrs true := by
          cases hu : underscored api.name with
          | false => simpa [writtenSignatures, hempty, hu] using hw
          | true => exact .inr (by simpa [writtenSignatures, hempty, hu] using hw)
        rcases hcases with rfl | rfl <;> exact ⟨_, _, by simp [writtenSignature, hsparse]; rfl⟩
      obtain ⟨returns, name, rfl⟩ := hplain
      exact bare_overwriting_ne hsound hne attrs _ _ _ _ hbare.symm
    refine ⟨hforward, ?_⟩
    by_contra hnot
    -- otherwise the ordinary function is declared and only the other one defined; the names differ
    obtain ⟨hd, hu⟩ : api.dygraph ∧ underscored api.name := by simpa using hnot
    have hordinary := (h (declaredSignature api attrs false).bare).mp (by simp [declaredSignatures, hname, hd])
    have heq : (declaredSignature api attrs false).bare = (writtenSignature api attrs true).bare := by
      simpa [writtenSignatures, hempty, hu] using hordinary
    have hnames : functionName api = functionName api ++ "_" := by
      have hu' : underscored (functionName api) = false := by simp [hname, hd]
      simpa [declaredSignature, writtenSignature, signatureOf, Signature.bare, overwritingName, hu'] using
        congrArg Signature.name heq
    exact ne_append_underscore _ hnames

theorem sameFunctions_iff (hsound : Sound api) (hkind : api.kind.isForward) :
    SameFunctions (declaredSignatures api attrs) (writtenSignatures api attrs) ↔ FilesAgree api := by
  refine ⟨filesAgree_of_sameFunctions hsound hkind, fun h s => ?_⟩
  rw [signatures_eq_of_filesAgree hkind h]

end Comparison

/-- **A header and its source file have the same functions, defaults apart, exactly when `FilesAgree` holds**, and then
in the same order.  The operator may return its intermediate outputs or leave them out; one without a name cannot be
declared at all. -/
theorem declared_iff_defined {kind : Kind} {e : Entry} {read : Api} {code : String} (hkind : kind.isForward)
    (hread : ofEntry kind e = .ok read) (hapi : api = read ∨ withoutIntermediate read = some api)
    (hbody : api.body = .kernel rule k t) (hcode : codeText api = .ok code) :
    ∃ fs, functions api k t rule = .ok fs ∧ code = String.join (fs.map Function.text) ∧
      (functionName api = "" → declarationText api = .error (.fault .index)) ∧
      (functionName api ≠ "" → ∃ ds, declared api = .ok ds ∧
        declarationText api = .ok (headerText api (String.join (ds.map Signature.declaration))) ∧
        (SameFunctions ds (fs.map Function.signature) ↔ FilesAgree api) ∧
        (FilesAgree api → ds = fs.map Function.signature)) := by
  obtain ⟨hk, hsound⟩ : api.kind = kind ∧ Sound api := by
    have hread := sound_of_ofEntry hread
    rcases hapi with rfl | hapi
    · exact hread
    · cases hapi
      exact ⟨hread.1, ⟨hread.2.described, hread.2.overwritten⟩⟩
  subst hk
  have hbase : isBase api := by simp [isBase, hbody]
  simp only [codeText, hbody] at hcode
  obtain ⟨fs, hfs, hcode⟩ := of_bind_eq_ok hcode
  obtain ⟨attrs, hw, hsignatures⟩ := signatures_of_functions hkind hfs
  refine ⟨fs, hfs, (Except.ok.inj hcode).symm, fun hempty => ?_, fun hne => ?_⟩
  · rw [declarationText_eq hbase, declared_of_empty hkind hempty]
    rfl
  · have hds := declared_eq hkind hbase hw hne
    refine ⟨_, hds, by rw [declarationText_eq hbase, hds]; rfl, ?_, fun hagree => ?_⟩
    · rw [hsignatures]
      exact sameFunctions_iff hsound hkind
    · rw [hsignatures]
      exact signatures_eq_of_filesAgree hkind hagree

/-- An operator on sparse tensors that overwrites its input. -/
def sparseRelu : Entry where
  op := some "relu"
  args := some "(Tensor x)"
  output := some "Tensor(out)"
  inferMeta := some ⟨some "UnchangedInferMeta", some [.name "x"], []⟩
  kernel := some { func := some "relu_coo\x7bsparse_coo -> sparse_coo\x7d" }
  inplace := some "(x -> out)"
  fields := ["op", "args", "output", "infer_meta", "kernel", "inplace"]

/-- Its header and its source file differ. -/
theorem declared_iff_defined_sparse_relu : ∃ api rule k t ds fs, ofEntry .sparse sparseRelu = .ok api ∧
    api.body = .kernel rule k t ∧ declared api = .ok ds ∧ functions api k t rule = .ok fs ∧
    ¬ SameFunctions ds (fs.map Function.signature) := by
  have hfacts : (ofEntry .sparse sparseRelu).toOption.map
      (fun api => (isBase api, (codeText api).isOk, functionName api, api.inplace.isEmpty, api.kind)) =
      some (true, true, "relu", false, .sparse) := by decide +kernel
  obtain ⟨api, hread, hfacts⟩ := exists_of_map_toOption hfacts
  simp only [Prod.mk.injEq] at hfacts
  obtain ⟨hbase, hok, hname, hempty, hkind⟩ := hfacts
  obtain ⟨rule, k, t, hbody⟩ := exists_of_isBase hbase
  obtain ⟨code, hcode⟩ := exists_of_isOk hok
  obtain ⟨fs, hfs, -, -, hheader⟩ := declared_iff_defined rfl hread (.inl rfl) hbody hcode
  obtain ⟨ds, hds, -, hsame, -⟩ := hheader (by rw [hname]; decide)
  refine ⟨api, rule, k, t, ds, fs, hread, hbody, hds, hfs, fun h => ?_⟩
  simpa [FilesAgree, hempty, hkind] using hsame.mp h

end Api

end TensorKit.Operator
