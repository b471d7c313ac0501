import Mathlib.Data.List.Infix
import TensorKit.Operator.Api.Spec
import TensorKit.Operator.Eager.Reading
import TensorKit.Proofs.Text.Cutting
import TensorKit.Proofs.Traversal
/-!
# Three readers of one signature

The arguments and outputs of an operator are read three times: into the canonical form, into the tables of a public
function, and into the positions of an eager function.  One reader cuts an argument at its first blank, one at every
blank, one looks for a word and a blank; each has type tables of its own.

This file writes a signature down (`argsText`, `outputsText`) and shows that all three read the same signature back
(`readers_agree`).  For each reader there is

* a **view**: what its state is after some inputs and attributes (`Api.read`, `Eager.read`; the canonical reader keeps
  the arguments themselves);
* a **step lemma**: one more written argument takes the view of a list to the view of the longer list;

and one **run lemma** for all of them, `foldlM_text`, by induction on the inputs and then on the attributes.
-/

namespace TensorKit.Operator

open Text Pattern List OutputArg Api TypeTable

variable {a : Arg} {c : Char} {w word : String} {inputs attrs : List Arg} {o : OutputArg}

/-! ## 1. Written signatures -/

def Arg.named (a : Arg) : String :=
  match a.default with
  | none => a.name
  | some d => a.name ++ " = " ++ d

/-- An argument as it is written: `type name` or `type name = default`. -/
def Arg.text (a : Arg) : String := a.typename ++ " " ++ a.named

def argsText (args : List Arg) : String := "(" ++ commas (args.map Arg.text) ++ ")"

def OutputArg.headText (o : OutputArg) : String := o.typename ++ "(" ++ o.name ++ ")"

def OutputArg.sizeText (o : OutputArg) : String :=
  match o.size with
  | none => ""
  | some e => "\x7b" ++ e ++ "\x7d"

/-- An output as it is written: `type(name)`, followed by its size in braces if there is one. -/
def OutputArg.text (o : OutputArg) : String := o.headText ++ o.sizeText

def outputsText (outputs : List OutputArg) : String := commas (outputs.map OutputArg.text)

/-- The name of an argument: no blanks, and none of the characters that end a name.  Identifiers are such names. -/
def isArgName (s : String) : Bool := consistsOf (fun c => !isBlank c && c != ',' && c != '=' && c != '@') s

def isOutputName (s : String) : Bool := consistsOf isNameChar s

/-- A default: no blanks at its ends, and none of the characters that end a default. -/
def isDefaultText (s : String) : Bool := consistsOf (fun c => c != ',' && c != '=' && c != '\n') s && strip s == s

/-- A size: none of the characters that end a size or an output. -/
def isSizeText (s : String) : Bool := consistsOf (fun c => c != ',' && c != '\x7b' && c != '\x7d') s

/-- Words for attribute types that all readers know. -/
def isSharedAttr (w : String) : Bool :=
  TypeTable.isAttr w && Api.attrTypes.has w &&
    match Eager.argTypes.get? w with
    | some (.attr _) => true
    | _ => false

/-- A tensor argument, which has no default. -/
structure Arg.IsInput (a : Arg) : Prop where
  type : a.typename = "Tensor" ∨ a.typename = "Tensor[]"
  name : isArgName a.name
  default : a.default = none

/-- An attribute of a type that all readers know, with a default or without. -/
structure Arg.IsAttr (a : Arg) : Prop where
  type : isSharedAttr a.typename
  name : isArgName a.name
  default : ∀ d ∈ a.default, isDefaultText d

/-- A tensor, or a list of tensors with a size or without. -/
structure OutputArg.IsOutput (o : OutputArg) : Prop where
  type : o.typename = "Tensor" ∧ o.size = none ∨ o.typename = "Tensor[]"
  name : isOutputName o.name
  size : ∀ e ∈ o.size, isSizeText e

/-- A signature that can be written: inputs, then attributes, those with a default last. -/
structure IsSignature (inputs attrs : List Arg) (outputs : List OutputArg) : Prop where
  isInput : ∀ a ∈ inputs, a.IsInput
  isAttr : ∀ a ∈ attrs, a.IsAttr
  defaults_last : attrs.Pairwise fun a b => a.default.isSome → b.default.isSome
  args_ne_nil : inputs ++ attrs ≠ []
  isOutput : ∀ o ∈ outputs, o.IsOutput
  outputs_ne_nil : outputs ≠ []

theorem Arg.named_of_none (h : a.default = none) : a.named = a.name := by rw [Arg.named, h]

/-! ## 2. The characters of written arguments -/

variable {s : String}

theorem toNat_of_isNameChar (h : isNameChar c) : 48 ≤ c.toNat ∧ c.toNat ≤ 122 := by
  change (((decide ('A'.val ≤ c.val ∧ c.val ≤ 'Z'.val) || (decide ('a'.val ≤ c.val) && decide (c.val ≤ 'z'.val))) ||
    (decide ('0'.val ≤ c.val) && decide (c.val ≤ '9'.val))) || c == '_') = true at h
  simp only [UInt32.le_iff_toNat_le, Bool.or_eq_true, Bool.and_eq_true, decide_eq_true_eq, beq_iff_eq] at h
  rcases h with ((h | h) | h) | rfl
  · exact ⟨.trans (by decide) h.1, h.2.trans (by decide)⟩
  · exact ⟨.trans (by decide) h.1, h.2⟩
  · exact ⟨h.1, h.2.trans (by decide)⟩
  · decide

theorem isBlank_of_isNameChar (h : isNameChar c) : isBlank c = false := by
  have hrange := toNat_of_isNameChar h
  exact isBlank_of_lt (by omega)

theorem trimmed_of_isArgName (h : isArgName s) : Trimmed s.toList := trimmed_of_consistsOf h fun c hc => by simp_all

theorem isDefaultText_spec (h : isDefaultText s) :
    Trimmed s.toList ∧ ',' ∉ s.toList ∧ '=' ∉ s.toList ∧ '\n' ∉ s.toList := by
  simp only [isDefaultText, Bool.and_eq_true, beq_iff_eq] at h
  obtain ⟨hchars, hstrip⟩ := h
  refine ⟨trimmed_of_strip_eq (by simpa using (consistsOf_iff.mp hchars).1) hstrip, ?_, ?_, ?_⟩
  all_goals exact notMem_of_consistsOf hchars

/-- A word for a type: visible characters, no comma, and not the word that may stand in front of a type. -/
def isTypeWord (w : String) : Bool := consistsOf (fun c => !isBlank c && c != ',') w && w != "const"

/-- What all readers need of an argument, whatever its type. -/
structure Arg.Plain (a : Arg) : Prop where
  type : isTypeWord a.typename
  name : isArgName a.name
  default : ∀ d ∈ a.default, isDefaultText d

theorem Arg.IsInput.plain (h : a.IsInput) : a.Plain where
  type := by rcases h.type with h | h <;> rw [h] <;> decide +kernel
  name := h.name
  default := by simp [h.default]

theorem isSharedAttr_tables (h : isSharedAttr w) :
    isAttr w ∧ (∃ type, attrTypes.get? w = some type) ∧
      ∃ type, Eager.argTypes.get? w = some (.attr type) := by
  simp only [isSharedAttr, Bool.and_eq_true] at h
  obtain ⟨⟨hattr, hapi⟩, heager⟩ := h
  refine ⟨hattr, Option.isSome_iff_exists.mp hapi, ?_⟩
  split at heager
  next type hget => exact ⟨type, hget⟩
  next => cases heager

theorem isSharedAttr_word (h : isSharedAttr w) :
    isTypeWord w ∧ isInput w = false ∧ inputForms.get? w = none := by
  have htable : ∀ w ∈ attrs.keys,
      isTypeWord w ∧ isInput w = false ∧ inputForms.get? w = none := by decide +kernel
  exact htable w ((Table.has_iff_mem_keys _ _).mp (isSharedAttr_tables h).1)

theorem Arg.IsAttr.plain (h : a.IsAttr) : a.Plain where
  type := (isSharedAttr_word h.type).1
  name := h.name
  default := h.default

namespace Arg.Plain

/-- A character that is in neither of the parts is not in the whole. -/
theorem notMem_named (hname : c ∉ a.name.toList) (hsigns : c ≠ ' ' ∧ c ≠ '=')
    (hdefault : ∀ d ∈ a.default, c ∉ d.toList) : c ∉ a.named.toList := by
  cases hd : a.default with
  | none => rwa [Arg.named_of_none hd]
  | some d =>
    have hmid : c ∉ " = ".toList := by simpa using ⟨hsigns.1, hsigns.2, hsigns.1⟩
    simp only [Arg.named, hd, String.toList_append, mem_append, not_or]
    exact ⟨⟨hname, hmid⟩, hdefault d hd⟩

theorem toList_text (a : Arg) : a.text.toList = a.typename.toList ++ ' ' :: a.named.toList := by simp [Arg.text]

theorem toList_named {d : String} (hd : a.default = some d) :
    a.named.toList = (a.name ++ " ").toList ++ '=' :: (" " ++ d).toList := by
  simp [Arg.named, hd]

variable (h : a.Plain)

include h

theorem type_spec : consistsOf (fun c => !isBlank c && c != ',') a.typename ∧ a.typename ≠ "const" := by
  simpa [isTypeWord] using h.type

theorem blank_notMem_typename : ' ' ∉ a.typename.toList := notMem_of_consistsOf h.type_spec.1

theorem trimmed_typename : Trimmed a.typename.toList :=
  trimmed_of_consistsOf h.type_spec.1 fun c hc => by simp_all

theorem trimmed_named : Trimmed a.named.toList := by
  cases hd : a.default with
  | none =>
    rw [Arg.named_of_none hd]
    exact trimmed_of_isArgName h.name
  | some d =>
    simp only [Arg.named, hd, String.toList_append]
    exact (trimmed_of_isArgName h.name).around (isDefaultText_spec (h.default d hd)).1 _

theorem trimmed_text : Trimmed a.text.toList := by
  rw [Arg.text, String.toList_append, String.toList_append]
  exact h.trimmed_typename.around h.trimmed_named _

theorem newline_notMem_named : '\n' ∉ a.named.toList :=
  notMem_named (notMem_of_consistsOf h.name) (by decide)
    fun d hd => (isDefaultText_spec (h.default d hd)).2.2.2

theorem notMem_text : ',' ∉ a.text.toList ∧ '\n' ∉ a.text.toList := by
  have hcomma : ',' ∉ a.named.toList :=
    notMem_named (notMem_of_consistsOf h.name) (by decide)
      fun d hd => (isDefaultText_spec (h.default d hd)).2.1
  simpa [Arg.text, hcomma, h.newline_notMem_named] using
    ⟨notMem_of_consistsOf h.type_spec.1, notMem_of_consistsOf h.type_spec.1⟩

/-! Where an argument is cut. -/

theorem equals_notMem_name : '=' ∉ (a.name ++ " ").toList := by
  simpa using notMem_of_consistsOf h.name

theorem split_named : split '=' a.named = match a.default with
    | none => [a.name]
    | some d => [a.name ++ " ", " " ++ d] := by
  cases hd : a.default with
  | none =>
    rw [Arg.named_of_none hd]
    exact split_of_notMem (notMem_of_consistsOf h.name)
  | some d =>
    have hd' : '=' ∉ (" " ++ d).toList := by simpa using (isDefaultText_spec (h.default d hd)).2.2.1
    rw [split_append (toList_named hd) h.equals_notMem_name, split_of_notMem hd']

end Arg.Plain

/-! ## 3. Loops over written arguments -/

section Loop

variable {σ ε : Type} (step : σ → String × Nat → Except ε σ) (view : List Arg → List Arg → σ)

theorem foldlM_texts {n : Nat} {v : List Arg → σ} {P : List Arg → Arg → Prop}
    (hstep : ∀ done a, P done a → step (v done) (a.text, n + done.length) = .ok (v (done ++ [a])))
    (rest done : List Arg) (h : ∀ l a r, rest = l ++ a :: r → P (done ++ l) a) :
    ((rest.map Arg.text).zipIdx (n + done.length)).foldlM step (v done) = .ok (v (done ++ rest)) := by
  induction rest generalizing done with
  | nil =>
    rw [append_nil]
    rfl
  | cons a rest ih =>
    have hrest := ih (done ++ [a]) fun l b r heq => by simpa using h (a :: l) b r (by rw [heq, cons_append])
    rw [map_cons, zipIdx_cons, foldlM_cons, hstep done a (by simpa using h [] a rest rfl)]
    simpa [Nat.add_assoc] using hrest

/-- **Run lemma.**  A reader whose state after some arguments is a view of them, and stays so when one more written
argument is read, reads a whole list. -/
theorem foldlM_text (hinput : ∀ ins a, a.IsInput → step (view ins []) (a.text, ins.length) = .ok (view (ins ++ [a]) []))
    (hattr : ∀ ins ats a, a.IsAttr → (a.default = none → ∀ b ∈ ats, b.default = none) →
      step (view ins ats) (a.text, ins.length + ats.length) = .ok (view ins (ats ++ [a])))
    (hi : ∀ a ∈ inputs, a.IsInput) (ha : ∀ a ∈ attrs, a.IsAttr)
    (hlast : attrs.Pairwise fun a b => a.default.isSome → b.default.isSome) :
    ((inputs ++ attrs).map Arg.text).zipIdx.foldlM step (view [] []) = .ok (view inputs attrs) := by
  have hins : (inputs.map Arg.text).zipIdx.foldlM step (view [] []) = .ok (view inputs []) := by
    simpa using foldlM_texts step (n := 0) (v := (view · [])) (P := fun _ a => a.IsInput) (by simpa using hinput)
      inputs [] fun l a r heq => hi a (by simp [heq])
  -- no attribute before one without a default has a default
  have hnone : ∀ l a r, attrs = l ++ a :: r → a.default = none → ∀ b ∈ [] ++ l, b.default = none := by
    rintro l a r rfl hnone b hb
    simpa [hnone] using (pairwise_append.mp hlast).2.2 b hb a mem_cons_self
  rw [map_append, zipIdx_append, foldlM_append, hins]
  simpa [ok_bind] using foldlM_texts step (P := fun ats a => a.IsAttr ∧ (a.default = none → ∀ b ∈ ats, b.default = none))
    (fun ats a h => hattr inputs ats a h.1 h.2) attrs [] fun l a r heq => ⟨ha a (by simp [heq]), hnone l a r heq⟩

end Loop

variable {outputs : List OutputArg} (op : String) (ins ats : List Arg)

namespace IsSignature

variable (h : IsSignature inputs attrs outputs)

include h

theorem plain : ∀ a ∈ inputs ++ attrs, a.Plain :=
  forall_mem_append.mpr ⟨fun a ha => (h.isInput a ha).plain, fun a ha => (h.isAttr a ha).plain⟩

theorem texts_ne_nil : (inputs ++ attrs).map Arg.text ≠ [] := by simpa using h.args_ne_nil

theorem comma_notMem_texts : ∀ s ∈ (inputs ++ attrs).map Arg.text, ',' ∉ s.toList :=
  forall_mem_map.mpr fun a ha => (h.plain a ha).notMem_text.1

theorem splitStrip_args :
    splitStrip ',' (strip (commas ((inputs ++ attrs).map Arg.text))) = (inputs ++ attrs).map Arg.text :=
  splitStrip_commas h.texts_ne_nil (forall_mem_map.mpr fun a ha => (h.plain a ha).trimmed_text) h.comma_notMem_texts

end IsSignature

theorem strip_parenthesised (s : String) : strip ("(" ++ s ++ ")") = "(" ++ s ++ ")" := by
  refine strip_of_trimmed ?_
  rw [String.toList_append, String.toList_append]
  exact Trimmed.around (by decide) (by decide) _

theorem unparenthesise?_argsText (args : List Arg) :
    unparenthesise? (argsText args) = some (commas (args.map Arg.text)) := by
  have hlast : ∀ cs, ('(' :: (cs ++ [')'])).getLast? = some ')' := fun cs =>
    getLast?_concat (l := '(' :: cs)
  simp [unparenthesise?, argsText, strip_parenthesised, hlast]

/-! ## 4. The canonical reader -/

theorem ensure_of_eq_true {ε : Type} {b : Bool} {e : ε} (h : b) : ensure b e = .ok () := by rw [ensure, if_pos h]

theorem readArg_text (h : a.Plain) : readArg op a.text = .ok a := by
  have htype := strip_of_trimmed h.trimmed_typename
  have hnamed := strip_of_trimmed h.trimmed_named
  have hname := trimmed_of_isArgName h.name
  have hcut : cut? ' ' a.text = some (a.typename, a.named) :=
    cut?_append (Arg.Plain.toList_text a) h.blank_notMem_typename
  have hne := ne_empty_of_consistsOf h.type_spec.1
  have hne' := ne_empty_of_consistsOf h.name
  have hno : '=' ∉ a.name.toList := notMem_of_consistsOf h.name
  cases hd : a.default with
  | none =>
    have hcount : decide (Text.count '=' a.name ≤ 1) := by simp [Text.count, count_eq_zero.mpr hno]
    rw [Arg.named_of_none hd] at hcut hnamed
    simp only [readArg, hcut, htype, hnamed, ok_bind, pure_eq_ok, ensure_of_eq_true hne,
      ensure_of_eq_true hcount, cut?_of_notMem hno, ensure_of_eq_true hne']
    rw [← hd]
  | some d =>
    obtain ⟨htrim, -, heq, -⟩ := isDefaultText_spec (h.default d hd)
    have hcount : decide (Text.count '=' a.named ≤ 1) := by
      simp [Text.count, Arg.named, hd, count_eq_zero.mpr hno, count_eq_zero.mpr heq]
    have hcut' : cut? '=' a.named = some (a.name ++ " ", " " ++ d) :=
      cut?_append (Arg.Plain.toList_named hd) h.equals_notMem_name
    have hned : (!d.isEmpty) := by simpa using htrim.ne_nil
    simp only [readArg, hcut, htype, hnamed, ok_bind, pure_eq_ok, ensure_of_eq_true hne,
      ensure_of_eq_true hcount, hcut', strip_append_blank hname, strip_blank_append htrim, ensure_of_eq_true hne',
      ensure_of_eq_true hned]
    rw [← hd]

/-- **Step lemma** of the canonical reader, for inputs. -/
theorem addArg_input (ins : List Arg) (h : a.IsInput) :
    addArg op (ins, []) a.text = .ok (ins ++ [a], []) := by
  have htype : isInput a.typename := by rcases h.type with h | h <;> rw [h] <;> decide
  simp [addArg, readArg_text op h.plain, htype, ensure_of_eq_true]

/-- **Step lemma** of the canonical reader, for attributes. -/
theorem addArg_attr (h : a.IsAttr)
    (hlast : a.default = none → ∀ b ∈ ats, b.default = none) : addArg op (ins, ats) a.text = .ok (ins, ats ++ [a]) := by
  have htype := (isSharedAttr_word h.type).2.1
  have htype' := (isSharedAttr_tables h.type).1
  have horder : (a.default.isSome || !ats.any fun b => b.default.isSome) := by
    cases hd : a.default with
    | none => simpa using hlast hd
    | some d => rfl
  simp [addArg, readArg_text op h.plain, htype, htype', ensure_of_eq_true horder]

theorem readArgs_argsText (h : IsSignature inputs attrs outputs) :
    readArgs op (argsText (inputs ++ attrs)) = .ok (inputs, attrs) := by
  have hrun := foldlM_text (fun s p => addArg op s p.1) Prod.mk (fun ins a ha => addArg_input op ins ha)
    (fun ins ats a ha hlast => addArg_attr op ins ats ha hlast) h.isInput h.isAttr h.defaults_last
  rw [foldlM_zipIdx_fst] at hrun
  simp only [readArgs, unparenthesise?_argsText, commaList, h.splitStrip_args]
  exact hrun

/-! ## 5. The reader for public functions -/

namespace Api

def inputForm (a : Arg) : InputForm := if a.typename = "Tensor[]" then .many else .single

def attrInfo (a : Arg) : AttrInfo := ⟨(attrTypes.get? a.typename).getD "", a.default⟩

/-- Inputs and attributes as the reader keeps them: names in order, and a table of what is known of a name. -/
def read (ins ats : List Arg) : Inputs × Attrs :=
  (⟨ins.map Arg.name, .ofList (ins.map fun a => (a.name, inputForm a))⟩,
    ⟨ats.map Arg.name, .ofList (ats.map fun a => (a.name, attrInfo a))⟩)

def outputSpec (o : OutputArg) : OutputSpec := ⟨o.name, if o.typename = "Tensor[]" then .many else .single, o.size⟩

theorem split_text (h : a.Plain) : split ' ' a.text = a.typename :: split ' ' a.named :=
  split_append (Arg.Plain.toList_text a) h.blank_notMem_typename

/-- **Step lemma** of the reader for public functions, for inputs. -/
theorem addArg_input (ins : List Arg) (h : a.IsInput) :
    addArg op [] (read ins []) a.text = .ok (read (ins ++ [a]) []) := by
  have hforms : ∃ forms, inputForms.get? a.typename = some forms ∧ forms.1 = inputForm a := by
    rcases h.type with htype | htype
    · exact ⟨(.single, .optionalSingle), by rw [htype]; decide, by simp [inputForm, htype]⟩
    · exact ⟨(.many, .optionalMany), by rw [htype]; decide, by simp [inputForm, htype]⟩
  obtain ⟨forms, hget, hform⟩ := hforms
  have hparts : split ' ' a.text = [a.typename, a.name] := by
    rw [split_text h.plain, Arg.named_of_none h.default, split_of_notMem (notMem_of_consistsOf h.name)]
  have hname : strip a.name = a.name := strip_of_trimmed (trimmed_of_isArgName h.name)
  have hne := ne_empty_of_consistsOf h.name
  simp [addArg, strip_of_trimmed h.plain.trimmed_text, hparts, hget, addInput, item, hname,
    ensure_of_eq_true hne, read, ensure_of_eq_true, hform, Table.ofList_concat]

/-- **Step lemma** of the reader for public functions, for attributes. -/
theorem addArg_attr (h : a.IsAttr) :
    addArg op [] (read ins ats) a.text = .ok (read ins (ats ++ [a])) := by
  obtain ⟨type, htype⟩ := (isSharedAttr_tables h.type).2.1
  have hrest : dropFirst a.typename.length a.text = " " ++ a.named := by
    rw [dropFirst, Arg.Plain.toList_text, ← String.length_toList, drop_left, ← String.toList_inj]
    simp
  have hne : (!a.named.isEmpty) := by simpa using h.plain.trimmed_named.ne_nil
  have hadd : addArg op [] (read ins ats) a.text = addAttr op [] a.typename type (" " ++ a.named) (read ins ats) := by
    simp [addArg, strip_of_trimmed h.plain.trimmed_text, split_text h.plain, (isSharedAttr_word h.type).2.2, htype,
      hrest]
  have hresult : read ins (ats ++ [a]) =
      ((read ins ats).1, ⟨(read ins ats).2.names ++ [a.name], (read ins ats).2.info.set a.name ⟨type, a.default⟩⟩) := by
    simp [read, Table.ofList_concat, attrInfo, htype]
  have hsplit := h.plain.split_named
  rw [hadd, hresult]
  simp only [addAttr, strip_blank_append h.plain.trimmed_named, ensure_of_eq_true hne, ok_bind, pure_eq_ok, elem_nil,
    Bool.false_eq_true, if_false]
  cases hd : a.default with
  | none =>
    rw [hd, Arg.named_of_none hd] at hsplit
    simp [hsplit, Arg.named_of_none hd]
  | some d =>
    rw [hd] at hsplit
    simp [hsplit, strip_append_blank (trimmed_of_isArgName h.name),
      strip_blank_append (isDefaultText_spec (h.default d hd)).1]

theorem readArgs_argsText (h : IsSignature inputs attrs outputs) :
    readArgs op (argsText (inputs ++ attrs)) [] = .ok (read inputs attrs) := by
  have hrun := foldlM_text (fun s p => addArg op [] s p.1) read (fun ins a ha => addArg_input op ins ha)
    (fun ins ats a ha _ => addArg_attr op ins ats ha) h.isInput h.isAttr h.defaults_last
  rw [foldlM_zipIdx_fst] at hrun
  simp only [readArgs, unparenthesise?_argsText]
  rw [foldlM_split_commas (fun acc s => by rw [addArg, addArg, strip_blank_left]) h.texts_ne_nil h.comma_notMem_texts]
  exact hrun

end Api

/-! ## 6. The reader for eager functions -/

namespace Eager

def tensorForm (word : String) : TensorForm := if word = "Tensor[]" then .many else .one

def attrType (word : String) : String :=
  match argTypes.get? word with
  | some (.attr type) => type
  | _ => ""

/-- Inputs and attributes as the reader keeps them, with their positions in the whole list. -/
def read (ins ats : List Arg) : ArgLists where
  inputs := ins.zipIdx.map fun (a, i) => ⟨a.name, tensorForm a.typename, i⟩
  attrs := (ats.zipIdx ins.length).map fun (a, i) =>
    ⟨a.name, attrType a.typename, qualifiedDefault a.typename a.default, i⟩

theorem argTypes_get?_tensor (h : word = "Tensor" ∨ word = "Tensor[]") :
    argTypes.get? word = some (.tensor (tensorForm word)) := by
  rcases h with rfl | rfl <;> decide +kernel

theorem argTypes_get?_attr (h : isSharedAttr word) :
    argTypes.get? word = some (.attr (attrType word)) := by
  obtain ⟨type, htype⟩ := (isSharedAttr_tables h).2.2
  rw [attrType, htype]

/-- A written argument is a type word and, after a blank, the name with the default. -/
theorem firstSuffix?_text (h : a.Plain) : firstSuffix? constTypedHere? a.text.toList = some (a.typename, a.named) := by
  refine firstSuffix?_of_eq_some ?_
  have htyped : typedHere? a.text.toList = some (a.typename, a.named) := by
    have hrun : run? (fun c => !isBlank c) a.text.toList = some (a.typename.toList, ' ' :: a.named.toList) := by
      rw [Arg.Plain.toList_text]
      obtain ⟨hne, hchars⟩ := consistsOf_iff.mp h.type_spec.1
      refine run?_append hne (fun c hc => ?_) ?_
      · exact ((Bool.and_eq_true _ _).mp (hchars c hc)).1
      · simp
        decide
    have hline := (takeWhile_ne_of_notMem h.newline_notMem_named).1
    simp [typedHere?, hrun, expect?, hline]
  -- the type word ends at its blank, so it would have to be the word `const` itself
  have hconst : "const ".toList.isPrefixOf a.text.toList = false := by
    rw [Bool.eq_false_iff]
    intro hpre
    obtain ⟨rest, hrest⟩ := isPrefixOf_iff_prefix.mp hpre
    rw [Arg.Plain.toList_text] at hrest
    have hleft := (takeWhile_ne_append (b := rest) (by decide : ' ' ∉ "const".toList)).1
    have hright := (takeWhile_ne_append (b := a.named.toList) h.blank_notMem_typename).1
    rw [← hrest] at hright
    have hword : "const".toList = a.typename.toList := hleft.symm.trans hright
    exact h.type_spec.2 (String.toList_inj.mp hword.symm)
  simp only [constTypedHere?, hconst, Bool.false_eq_true, if_false, htyped]

theorem baseName_of_consistsOf {p : Char → Bool} (h : consistsOf p s) (hp : p '@' = false) : Naming.baseName s = s :=
  before_of_notMem (notMem_of_consistsOf h hp)

/-- **Step lemma** of the reader for eager functions, for inputs. -/
theorem addArg_input (ins : List Arg) (h : a.IsInput) :
    addArg (read ins []) (a.text, ins.length) = .ok (read (ins ++ [a]) []) := by
  have hresult : read (ins ++ [a]) [] =
      { read ins [] with inputs := (read ins []).inputs ++ [⟨a.name, tensorForm a.typename, ins.length⟩] } := by
    simp [read, zipIdx_append]
  have hsplit := h.plain.split_named
  rw [h.default, Arg.named_of_none h.default] at hsplit
  rw [hresult]
  simp [addArg, firstSuffix?_text h.plain, Arg.named_of_none h.default, hsplit,
    strip_of_trimmed (trimmed_of_isArgName h.name), baseName_of_consistsOf h.name (by decide),
    argTypes_get?_tensor h.type, ensure_of_eq_true]

/-- **Step lemma** of the reader for eager functions, for attributes. -/
theorem addArg_attr (h : a.IsAttr) :
    addArg (read ins ats) (a.text, ins.length + ats.length) = .ok (read ins (ats ++ [a])) := by
  have hresult : read ins (ats ++ [a]) =
      { read ins ats with
        attrs := (read ins ats).attrs ++
          [⟨a.name, attrType a.typename, qualifiedDefault a.typename a.default, ins.length + ats.length⟩] } := by
    simp [read, zipIdx_append]
  have hsplit := h.plain.split_named
  have hname := trimmed_of_isArgName h.name
  have hbase : Naming.baseName a.name = a.name := baseName_of_consistsOf h.name (by decide)
  rw [hresult]
  simp only [addArg, firstSuffix?_text h.plain, argTypes_get?_attr h.type]
  cases hd : a.default with
  | none =>
    rw [hd, Arg.named_of_none hd] at hsplit
    simp [hsplit, Arg.named_of_none hd, strip_of_trimmed hname, hbase]
  | some d =>
    rw [hd] at hsplit
    simp [hsplit, strip_append_blank hname, strip_blank_append (isDefaultText_spec (h.default d hd)).1, hbase]

theorem readArgs_commas (h : IsSignature inputs attrs outputs) :
    readArgs (commas ((inputs ++ attrs).map Arg.text)) = .ok (read inputs attrs) := by
  rw [readArgs, h.splitStrip_args]
  exact foldlM_text addArg read (fun ins a ha => addArg_input ins ha) (fun ins ats a ha _ => addArg_attr ins ats ha)
    h.isInput h.isAttr h.defaults_last

theorem wholeInside?_argsText (h : IsSignature inputs attrs outputs) :
    wholeInside? (argsText (inputs ++ attrs)) = some (commas ((inputs ++ attrs).map Arg.text)) := by
  have hline : '\n' ∉ (commas ((inputs ++ attrs).map Arg.text)).toList :=
    notMem_commas (by decide) (forall_mem_map.mpr fun a ha => (h.plain a ha).notMem_text.2)
  simpa [wholeInside?, argsText, strip_parenthesised] using hline

end Eager

/-! ## 7. Outputs -/

namespace OutputArg.IsOutput

theorem typename_eq (h : o.IsOutput) : o.typename = "Tensor" ∨ o.typename = "Tensor[]" := h.type.imp_left And.left

theorem toList_text (o : OutputArg) :
    o.text.toList = o.typename.toList ++ '(' :: (o.name.toList ++ ')' :: o.sizeText.toList) := by
  simp [text, headText]

section

variable (h : o.IsOutput)

include h

theorem consistsOf_typename : consistsOf isTypeChar o.typename := by
  rcases h.typename_eq with htype | htype <;> rw [htype] <;> decide

theorem trimmed_typename : Trimmed o.typename.toList := by
  refine trimmed_of_consistsOf h.consistsOf_typename fun c hc => ?_
  simp only [isTypeChar, Bool.or_eq_true, beq_iff_eq] at hc
  rcases hc with (hc | rfl) | rfl
  · exact isBlank_of_isNameChar hc
  · decide
  · decide

theorem enclosed?_sizeText :
    (enclosed? '\x7b' '\x7d' (fun c => c != '\x7d') (skipBlanks o.sizeText.toList)).map (String.ofList ∘ Prod.fst) =
      o.size := by
  cases hs : o.size with
  | none => simp [sizeText, hs, skipBlanks, enclosed?, expect?]
  | some e =>
    obtain ⟨hne, hchars⟩ := consistsOf_iff.mp (h.size e hs)
    have hbrace : skipBlanks o.sizeText.toList = '\x7b' :: (e.toList ++ '\x7d' :: []) := by
      simp only [sizeText, hs, String.toList_append]
      exact dropWhile_cons_of_neg (by decide)
    rw [hbrace, enclosed?_append [] hne (fun c hc => ((Bool.and_eq_true _ _).mp (hchars c hc)).2) (by decide)]
    simp

theorem output?_text : output? o.text = some ⟨o.typename, some o.name, o.size⟩ := by
  refine firstSuffix?_of_eq_some ?_
  obtain ⟨htne, htchars⟩ := consistsOf_iff.mp h.consistsOf_typename
  obtain ⟨hnne, hnchars⟩ := consistsOf_iff.mp h.name
  have htype : run? isTypeChar o.text.toList =
      some (o.typename.toList, '(' :: (o.name.toList ++ ')' :: o.sizeText.toList)) := by
    rw [toList_text]
    exact run?_append htne htchars (by simp; decide)
  have hparens : skipBlanks ('(' :: (o.name.toList ++ ')' :: o.sizeText.toList)) =
      '(' :: (o.name.toList ++ ')' :: o.sizeText.toList) :=
    dropWhile_cons_of_neg (by decide)
  have hname : enclosed? '(' ')' (fun c => isNameChar c || c == '@')
      ('(' :: (o.name.toList ++ ')' :: o.sizeText.toList)) = some (o.name.toList, o.sizeText.toList) :=
    enclosed?_append _ hnne (fun c hc => by simp [hnchars c hc]) (by decide)
  simp [outputHere?, htype, hparens, hname, h.enclosed?_sizeText]

theorem trimmed_headText : Trimmed o.headText.toList := by
  have hparens : o.headText.toList = o.typename.toList ++ ('(' :: o.name.toList) ++ [')'] := by simp [headText]
  rw [hparens]
  exact h.trimmed_typename.around (by decide) _

theorem trimmed_text : Trimmed o.text.toList := by
  cases hs : o.size with
  | none => simpa [text, sizeText, hs] using h.trimmed_headText
  | some e =>
    have hbraces : o.text.toList = o.headText.toList ++ ('\x7b' :: e.toList) ++ ['\x7d'] := by simp [text, sizeText, hs]
    rw [hbraces]
    exact h.trimmed_headText.around (by decide) _

theorem comma_notMem_text : ',' ∉ o.text.toList := by
  have htype : ',' ∉ o.typename.toList := notMem_of_consistsOf h.consistsOf_typename
  have hsize : ',' ∉ o.sizeText.toList := by
    cases hs : o.size with
    | none => simp [sizeText, hs]
    | some e =>
      have hcomma : ',' ∉ e.toList := notMem_of_consistsOf (h.size e hs)
      simpa [sizeText, hs] using hcomma
  rw [toList_text]
  simpa using ⟨htype, notMem_of_consistsOf h.name, hsize⟩

end

end OutputArg.IsOutput

namespace IsSignature

variable (h : IsSignature inputs attrs outputs)

include h

theorem outputTexts_ne_nil : outputs.map text ≠ [] := by
  simpa using h.outputs_ne_nil

theorem comma_notMem_outputTexts :
    ∀ s ∈ outputs.map text, ',' ∉ s.toList :=
  forall_mem_map.mpr fun o ho => (h.isOutput o ho).comma_notMem_text

theorem splitStrip_outputs :
    splitStrip ',' (strip (outputsText outputs)) = outputs.map text :=
  splitStrip_commas h.outputTexts_ne_nil (forall_mem_map.mpr fun o ho => (h.isOutput o ho).trimmed_text)
    h.comma_notMem_outputTexts

end IsSignature

theorem output?_blank (s : String) : output? (" " ++ s) = output? s := by
  have hblank : isTypeChar ' ' = false := by decide
  have hnone : ∀ cs, outputHere? (' ' :: cs) = none := fun cs => by simp [outputHere?, run?, hblank]
  simp [output?, firstSuffix?, hnone]

theorem readOutput_text (h : o.IsOutput) : readOutput op o.text = .ok o := by
  have htype : isOutput o.typename := by rcases h.typename_eq with htype | htype <;> rw [htype] <;> decide
  have hsize : (o.size.isNone || hasEnd "[]" o.typename) := by
    rcases h.type with ⟨-, hnone⟩ | htype
    · simp [hnone]
    · rw [htype, Bool.or_eq_true]
      exact .inr (by decide +kernel)
  simp [readOutput, h.output?_text, ensure_of_eq_true htype, ensure_of_eq_true hsize]

theorem readOutputs_outputsText (h : IsSignature inputs attrs outputs) :
    readOutputs op (outputsText outputs) = .ok outputs := by
  rw [readOutputs, commaList, h.splitStrip_outputs, mapM_map]
  simpa using mapM_eq_ok (f := readOutput op ∘ text) (g := id)
    fun o ho => readOutput_text op (h.isOutput o ho)

theorem Api.readOutput_text (h : o.IsOutput) :
    readOutput op o.text = .ok (outputSpec o) := by
  simp only [readOutput, h.output?_text, Option.getD_some]
  rcases h.typename_eq with htype | htype
  · have hform : outputForms.get? "Tensor" = some .single := by decide
    simp [htype, hform, outputSpec]
  · have hform : outputForms.get? "Tensor[]" = some .many := by decide
    simp [htype, hform, outputSpec]

theorem Api.readOutputs_outputsText (h : IsSignature inputs attrs outputs) :
    readOutputs op (outputsText outputs) = .ok (outputs.map outputSpec) := by
  have hblank : ∀ s, readOutput op (" " ++ s) = readOutput op s := fun s => by
    rw [readOutput, readOutput, output?_blank]
  rw [readOutputs, outputsText, mapM_split_commas hblank h.outputTexts_ne_nil h.comma_notMem_outputTexts,
    mapM_map]
  exact mapM_eq_ok fun o ho => readOutput_text op (h.isOutput o ho)

namespace Eager

/-- An output as the reader keeps it, with its position; sizes are left out. -/
def returnAt (o : OutputArg) (i : Nat) : TensorArg := ⟨o.name, tensorForm o.typename, i⟩

def signature (ins ats : List Arg) (outs : List OutputArg) : Signature where
  inputs := (read ins ats).inputs
  attrs := (read ins ats).attrs
  returns := outs.zipIdx.map fun (o, i) => returnAt o i

theorem outputParts_text (h : o.IsOutput) : outputParts o.text = .ok (o.typename, o.name) := by
  have hparen : '(' ∉ o.typename.toList := notMem_of_consistsOf h.consistsOf_typename
  have hhead : '\x7b' ∉ o.headText.toList := by
    have hbrace : '\x7b' ∉ o.typename.toList := notMem_of_consistsOf h.consistsOf_typename
    simpa [headText] using ⟨hbrace, notMem_of_consistsOf h.name⟩
  have hbefore : before '\x7b' o.text = o.headText := by
    cases hs : o.size with
    | none =>
      have htext : o.text = o.headText := by simp [text, sizeText, hs]
      rw [htext, before_of_notMem hhead]
    | some e => exact before_append (b := e.toList ++ ['\x7d']) (by simp [text, sizeText, hs]) hhead
  have hopen : contains "(" o.headText := contains_iff.mpr ((singleton_infix_iff '(' _).mpr (by simp [headText]))
  have hclose : contains ")" o.headText := contains_iff.mpr ((singleton_infix_iff ')' _).mpr (by simp [headText]))
  have hsplit : split '(' (dropLast 1 o.headText) = [o.typename, o.name] := by
    rw [Text.dropLast_append (a := o.typename ++ "(" ++ o.name) (c := ')') (by simp [headText]),
      split_append (b := o.name) (by simp) hparen, split_of_notMem (notMem_of_consistsOf h.name)]
  simp [outputParts, hbefore, strip_of_trimmed h.trimmed_headText, hopen, hclose, hsplit,
    strip_of_trimmed h.trimmed_typename,
    strip_of_trimmed (trimmed_of_consistsOf h.name fun _ => isBlank_of_isNameChar)]

theorem readOutput_text (h : o.IsOutput) (i : Nat) : readOutput (o.text, i) = .ok (returnAt o i) := by
  simp [readOutput, outputParts_text h, argTypes_get?_tensor h.typename_eq,
    baseName_of_consistsOf h.name (by decide), pure_eq_ok, returnAt]

theorem readOutputs_outputsText (h : IsSignature inputs attrs outputs) :
    readOutputs (outputsText outputs) = .ok (outputs.zipIdx.map fun (o, i) => returnAt o i) := by
  rw [readOutputs, h.splitStrip_outputs, zipIdx_map, mapM_map]
  refine mapM_eq_ok fun p hp => ?_
  exact readOutput_text (h.isOutput p.1 (fst_mem_of_mem_zipIdx hp)) p.2

theorem readForward_text (h : IsSignature inputs attrs outputs) :
    readForward (argsText (inputs ++ attrs)) (outputsText outputs) = .ok (signature inputs attrs outputs) := by
  simp only [readForward, wholeInside?_argsText h, readSignature, readArgs_commas h, readOutputs_outputsText h,
    ok_bind, pure_eq_ok, signature]

end Eager

/-! ## 8. The readers agree -/

/-- **All readers read a written signature back.**  Let inputs, attributes and outputs form a signature.  The canonical
reader returns them as they are; the reader for public functions returns their names in order, with the form of each
input, the type and default of each attribute, and the form and size of each output; the reader for eager functions
returns them with their positions, where defaults of data types and layouts get their namespace.  The tables of the
second reader go by names, so they hold all arguments if the names are distinct, and the last of each name otherwise. -/
theorem readers_agree (op : String) (h : IsSignature inputs attrs outputs) :
    (readArgs op (argsText (inputs ++ attrs)) = .ok (inputs, attrs) ∧
        readOutputs op (outputsText outputs) = .ok outputs) ∧
      (Api.readArgs op (argsText (inputs ++ attrs)) [] = .ok (Api.read inputs attrs) ∧
        Api.readOutputs op (outputsText outputs) = .ok (outputs.map Api.outputSpec)) ∧
      Eager.readForward (argsText (inputs ++ attrs)) (outputsText outputs) =
        .ok (Eager.signature inputs attrs outputs) ∧ ((inputs.map Arg.name).Nodup →
        (Api.read inputs attrs).1.info = inputs.map fun a => (a.name, Api.inputForm a)) ∧
      ((attrs.map Arg.name).Nodup → (Api.read inputs attrs).2.info = attrs.map fun a => (a.name, Api.attrInfo a)) := by
  have hkeys : ∀ {ν : Type} (args : List Arg) (f : Arg → ν),
      Table.keys (args.map fun a => (a.name, f a)) = args.map Arg.name := fun args f => by simp [Table.keys]
  refine ⟨⟨readArgs_argsText op h, readOutputs_outputsText op h⟩,
    ⟨Api.readArgs_argsText op h, Api.readOutputs_outputsText op h⟩, Eager.readForward_text h, fun hnd => ?_,
    fun hnd => ?_⟩
  · exact Table.ofList_of_nodup (by rwa [hkeys])
  · exact Table.ofList_of_nodup (by rwa [hkeys])

/-- A signature with a type in parentheses, and with a default that has parentheses and blanks. -/
theorem readers_agree_split : IsSignature [⟨"Tensor", "x", none⟩]
        [⟨"Scalar(int64_t)", "axis", none⟩, ⟨"DataType", "dtype", some "f(1 + 2)"⟩]
        [⟨"Tensor", "out", none⟩, ⟨"Tensor[]", "parts", some "n - 1"⟩] ∧
      readArgs "split" "(Tensor x, Scalar(int64_t) axis, DataType dtype = f(1 + 2))" =
        .ok ([⟨"Tensor", "x", none⟩], [⟨"Scalar(int64_t)", "axis", none⟩, ⟨"DataType", "dtype", some "f(1 + 2)"⟩]) ∧
      Eager.readForward "(Tensor x, Scalar(int64_t) axis, DataType dtype = f(1 + 2))"
          "Tensor(out), Tensor[](parts)\x7bn - 1\x7d" = .ok ⟨[⟨"x", .one, 0⟩],
          [⟨"axis", "paddle::experimental::Scalar", none, 1⟩,
            ⟨"dtype", "paddle::experimental::DataType", some "paddle::experimental::f(1 + 2)", 2⟩],
          [⟨"out", .one, 0⟩, ⟨"parts", .many, 1⟩]⟩ := by
  have hsig : IsSignature [⟨"Tensor", "x", none⟩]
      [⟨"Scalar(int64_t)", "axis", none⟩, ⟨"DataType", "dtype", some "f(1 + 2)"⟩]
      [⟨"Tensor", "out", none⟩, ⟨"Tensor[]", "parts", some "n - 1"⟩] := by
    refine ⟨?_, ?_, by decide, by simp, ?_, by simp⟩
    · simp only [mem_singleton, forall_eq]
      exact ⟨.inl rfl, by decide +kernel, rfl⟩
    · simp only [mem_cons, not_mem_nil, or_false, forall_eq_or_imp, forall_eq]
      exact ⟨⟨by decide +kernel, by decide +kernel, by simp⟩, by decide +kernel, by decide +kernel, by
        simp; decide +kernel⟩
    · simp only [mem_cons, not_mem_nil, or_false, forall_eq_or_imp, forall_eq]
      exact ⟨⟨.inl ⟨rfl, rfl⟩, by decide +kernel, by simp⟩, .inr rfl, by decide +kernel, by simp; decide +kernel⟩
  obtain ⟨⟨hargs, -⟩, -, heager, -⟩ := readers_agree "split" hsig
  exact ⟨hsig, hargs, heager⟩

/-- An empty size is read as none, a name with other letters is not read, and of two attributes with one name only the
second is in the table. -/
theorem readers_lose_empty_size :
    readOutputs "f" (outputsText [⟨"Tensor[]", "y", some ""⟩]) = .ok [⟨"Tensor[]", "y", none⟩] ∧
      readOutputs "f" (outputsText [⟨"Tensor", "é", none⟩]) = .ok [⟨"Tensor", "out", none⟩] ∧
      Api.readArgs "f" (argsText [⟨"int", "a", none⟩, ⟨"float", "a", none⟩]) [] =
        .ok (⟨[], []⟩, ⟨["a", "a"], [("a", ⟨"float", none⟩)]⟩) := by
  decide +kernel

end TensorKit.Operator
