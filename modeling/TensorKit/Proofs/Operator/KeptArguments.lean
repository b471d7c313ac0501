import TensorKit.Proofs.Operator.SignatureReading
import TensorKit.Proofs.Text.Trimming
/-!
# What the reader for public functions keeps

The canonical reader refuses an argument whose type it does not know.  The reader for public functions looks the type
word up in two tables of its own and *passes over* an argument whose word is in neither, without an error.  So
(`Api.readArgs_kept`):

* the names it returns are those of the arguments with a known type word, in their order, so their number is the number
  of arguments if and only if every type word is known;
* on a text that the canonical reader accepts it returns the same names if and only if every type word is cut off clean
  and is none of three (`Api.passedOver`), and the second word of every tensor argument is its name.

For each reader a **step lemma** says which names one more part adds, and one **run lemma** (`view_of_foldlM_eq_ok`)
gives the names of the whole list.
-/

namespace TensorKit.Operator

open Text List TypeTable

variable {t op s : String}

/-! ## 1. Parts of a written argument -/

/-- The type word of a written argument: what stands before its first blank. -/
def typeWord (t : String) : String := before ' ' t

def afterType (t : String) : String := strip (dropFirst (typeWord t).length t)

/-- The name of a written argument: what stands between its type word and its default. -/
def givenName (t : String) : String := strip (before '=' (afterType t))

def secondWord (t : String) : String := strip ((split ' ' t).getD 1 "")

theorem afterType_of_cut? {a b : String} (h : cut? ' ' t = some (a, b)) : typeWord t = a ∧ afterType t = strip b := by
  obtain ⟨heq, ha⟩ := cut?_eq_some h
  have hword : typeWord t = a := before_append heq ha
  have hrest : dropFirst a.length t = " " ++ b := by
    rw [dropFirst, heq, ← String.length_toList, drop_left, ← String.toList_inj]
    simp
  exact ⟨hword, by rw [afterType, hword, hrest, strip_blank_left]⟩

theorem eq_true_of_ensure {ε : Type} {b : Bool} {e : ε} {u : Unit} (h : ensure b e = .ok u) : b := by
  cases b with
  | true => rfl
  | false => cases h

/-! ## 2. The canonical reader -/

theorem readArg_eq_ok {a : Arg} (h : readArg op t = .ok a) :
    a.typename = strip (typeWord t) ∧ a.name = givenName t := by
  cases hcut : cut? ' ' t with
  | none =>
    simp only [readArg, hcut] at h
    cases h
  | some parts =>
    obtain ⟨word, rest⟩ := parts
    obtain ⟨hword, hafter⟩ := afterType_of_cut? hcut
    simp only [readArg, hcut, pure_bind] at h
    obtain ⟨_, -, _, -, h⟩ := of_bind₂_eq_ok h
    rw [givenName, hword, hafter]
    cases heq : cut? '=' (strip rest) with
    | none =>
      simp only [heq] at h
      obtain ⟨_, -, h⟩ := of_bind_eq_ok h
      cases h
      exact ⟨rfl, by rw [before_of_notMem (notMem_of_cut?_eq_none heq)]⟩
    | some halves =>
      obtain ⟨name, default⟩ := halves
      obtain ⟨hsplit, hname⟩ := cut?_eq_some heq
      simp only [heq] at h
      obtain ⟨_, -, _, -, h⟩ := of_bind₂_eq_ok h
      cases h
      exact ⟨rfl, by rw [before_append hsplit hname]⟩

/-- **Step lemma** of the canonical reader: an argument that it accepts is of a known type and adds its name. -/
theorem addArg_eq_ok {acc acc' : List Arg × List Arg} (h : addArg op acc t = .ok acc') :
    (isInput (strip (typeWord t)) ∨ isAttr (strip (typeWord t))) ∧
      (acc'.1 ++ acc'.2).map Arg.name = (acc.1 ++ acc.2).map Arg.name ++ [givenName t] := by
  obtain ⟨inputs, attrs⟩ := acc
  obtain ⟨a, ha, h⟩ := of_bind_eq_ok h
  obtain ⟨htype, hname⟩ := readArg_eq_ok ha
  rw [← htype, ← hname]
  split at h
  next hinput =>
    obtain ⟨_, hempty, h⟩ := of_bind_eq_ok h
    cases h
    have hattrs : attrs = [] := isEmpty_iff.mp (eq_true_of_ensure hempty)
    exact ⟨.inl hinput, by simp [hattrs]⟩
  · split at h
    next hattr =>
      obtain ⟨_, -, h⟩ := of_bind_eq_ok h
      cases h
      exact ⟨.inr hattr, by simp⟩
    · cases h

/-! ## 3. The reader for public functions -/

namespace Api

variable {acc acc' : Inputs × Attrs} {optional : List String}

/-- Types of attributes that the canonical reader knows and the reader for public functions does not. -/
def passedOver : List String := ["Scalar(bool)", "bool[]", "double[]"]

def knowsType (t : String) : Bool := inputForms.has (typeWord t) || attrTypes.has (typeWord t)

/-- The name under which a written argument is kept, if it is not passed over: of a tensor the second word, of an
attribute what stands before its default. -/
def keptName? (t : String) : Option String :=
  if inputForms.has (typeWord t) then some (secondWord t)
  else if attrTypes.has (typeWord t) then some (givenName t)
  else none

theorem isSome_keptName? (t : String) : (keptName? t).isSome = knowsType t := by
  unfold keptName? knowsType
  cases inputForms.has (typeWord t) <;> cases attrTypes.has (typeWord t) <;> rfl

theorem keptName?_eq_givenName_iff (t : String) : keptName? t = some (givenName t) ↔
      knowsType t ∧ (inputForms.has (typeWord t) → secondWord t = givenName t) := by
  unfold keptName? knowsType
  cases inputForms.has (typeWord t) <;> cases attrTypes.has (typeWord t) <;> simp

theorem addInput_eq_ok {forms : InputForm × InputForm}
    (h : addInput op optional forms (split ' ' t) acc = .ok acc') :
    acc'.1.names ++ acc'.2.names = acc.1.names ++ acc.2.names ++ [secondWord t] := by
  obtain ⟨word, hword, _, -, h⟩ := of_bind₂_eq_ok h
  obtain ⟨_, hempty, h⟩ := of_bind_eq_ok h
  cases h
  have hattrs : acc.2.names = [] := isEmpty_iff.mp (eq_true_of_ensure hempty)
  have hsecond : secondWord t = strip word := by
    rw [secondWord, getD_eq_getElem?_getD, demand_eq_ok_iff.mp hword, Option.getD_some]
  simp [hattrs, hsecond]

theorem addAttr_eq_ok {word type rest : String} (h : addAttr op optional word type rest acc = .ok acc') :
    acc'.1.names ++ acc'.2.names = acc.1.names ++ acc.2.names ++ [strip (before '=' (strip rest))] := by
  by_cases hmem : '=' ∈ (strip rest).toList
  · obtain ⟨name, default, heq, hname⟩ := exists_of_mem_toList hmem
    obtain ⟨d, ds, hds⟩ := exists_cons_of_ne_nil (by simp [split] : split '=' default ≠ [])
    simp only [addAttr, split_append heq hname, hds] at h
    rw [before_append heq hname]
    obtain ⟨_, -, h⟩ := of_bind_eq_ok h
    split at h <;>
    · obtain ⟨_, -, h⟩ := of_bind_eq_ok h
      cases h
      rw [append_assoc]
  · -- without an equals sign the whole text is the name
    simp only [addAttr, split_of_notMem hmem] at h
    rw [before_of_notMem hmem, strip_strip]
    obtain ⟨_, -, h⟩ := of_bind_eq_ok h
    split at h <;>
    · obtain ⟨_, -, h⟩ := of_bind_eq_ok h
      cases h
      rw [append_assoc]

/-- **Step lemma** of the reader for public functions: one more part adds the name under which it is kept, if it is. -/
theorem addArg_eq_ok (h : addArg op optional acc s = .ok acc') :
    acc'.1.names ++ acc'.2.names = acc.1.names ++ acc.2.names ++ (keptName? (strip s)).toList := by
  have hword : (split ' ' (strip s)).headD "" = typeWord (strip s) := headD_split ' ' (strip s)
  simp only [addArg, hword] at h
  cases hinput : inputForms.get? (typeWord (strip s)) with
  | some forms =>
    rw [hinput] at h
    have hkept : keptName? (strip s) = some (secondWord (strip s)) := by simp [keptName?, Table.has, hinput]
    rw [hkept, addInput_eq_ok h, Option.toList_some]
  | none =>
    cases hattr : attrTypes.get? (typeWord (strip s)) with
    | some type =>
      rw [hinput, hattr] at h
      have hkept : keptName? (strip s) = some (givenName (strip s)) := by simp [keptName?, Table.has, hinput, hattr]
      rw [hkept, addAttr_eq_ok h, Option.toList_some]
      rfl
    | none =>
      rw [hinput, hattr] at h
      cases h
      simp [keptName?, Table.has, hinput, hattr]

/-- A type word that the canonical reader accepts is unknown here if blanks other than the plain one follow it, or if it
is one of three. -/
theorem knowsType_iff
    (h : TypeTable.isInput (strip (typeWord t)) ∨ TypeTable.isAttr (strip (typeWord t))) :
    knowsType t ↔ strip (typeWord t) = typeWord t ∧ typeWord t ∉ passedOver := by
  have hclean : ∀ w ∈ inputForms.keys ++ attrTypes.keys, strip w = w := by decide +kernel
  have htables : ∀ w ∈ TypeTable.inputs.keys ++ TypeTable.attrs.keys,
      ((inputForms.has w || attrTypes.has w) ↔ w ∉ passedOver) := by decide +kernel
  have hmem : strip (typeWord t) ∈ TypeTable.inputs.keys ++ TypeTable.attrs.keys := by
    rwa [mem_append, ← Table.has_iff_mem_keys, ← Table.has_iff_mem_keys]
  have hknown := htables _ hmem
  constructor
  · intro hk
    have hstrip : strip (typeWord t) = typeWord t := by
      refine hclean _ ?_
      rw [mem_append, ← Table.has_iff_mem_keys, ← Table.has_iff_mem_keys]
      exact (Bool.or_eq_true _ _).mp hk
    rw [hstrip] at hknown
    exact ⟨hstrip, hknown.mp hk⟩
  · rintro ⟨hstrip, hnot⟩
    rw [hstrip] at hknown
    exact hknown.mpr hnot

end Api

/-! ## 4. What is kept of a whole list -/

theorem readArgs_eq_ok {inputs attrs : List Arg} (h : readArgs op s = .ok (inputs, attrs)) :
    ∃ inner, unparenthesise? s = some inner ∧ (inputs ++ attrs).map Arg.name = (splitStrip ',' inner).map givenName ∧
      ∀ t ∈ splitStrip ',' inner, isInput (strip (typeWord t)) ∨ isAttr (strip (typeWord t)) := by
  unfold readArgs at h
  split at h
  next inner hinner =>
    have hcomma : isBlank ',' = false := by decide
    rw [commaList, splitStrip_strip hcomma] at h
    have hnames := view_of_foldlM_eq_ok (addArg op) (fun acc => (acc.1 ++ acc.2).map Arg.name)
      (fun h => (addArg_eq_ok h).2) h
    refine ⟨inner, hinner, ?_, forall_of_foldlM_eq_ok (addArg op) (fun h => (addArg_eq_ok h).1) h⟩
    simpa [← map_eq_flatMap] using hnames
  · cases h

namespace Api

/-- **What the reader for public functions keeps.**  Suppose it returns inputs and attributes, and let `args` be the
parts of the text between the commas.  Their names are those of the parts that are not passed over, in their order; so
there are as many as parts if and only if every type word is in one of the tables.  If the canonical reader accepts the
text as well, then both return the same names if and only if every type word is followed by a plain blank and is none of
three, and the second word of every tensor argument is its name. -/
theorem readArgs_kept {op s : String} {optional : List String} {ins : Inputs} {ats : Attrs}
    (h : readArgs op s optional = .ok (ins, ats)) : ∃ args, (unparenthesise? s).map (splitStrip ',') = some args ∧
      ins.names ++ ats.names = args.filterMap keptName? ∧
      (ins.names.length + ats.names.length = args.length ↔ ∀ t ∈ args, knowsType t) ∧
      ∀ op' inputs attrs, Operator.readArgs op' s = .ok (inputs, attrs) →
        (ins.names ++ ats.names = (inputs ++ attrs).map Arg.name ↔
          ∀ t ∈ args, strip (typeWord t) = typeWord t ∧ typeWord t ∉ passedOver ∧
            (inputForms.has (typeWord t) → secondWord t = givenName t)) := by
  unfold readArgs at h
  split at h
  · next inner hinner =>
    have hnames : ins.names ++ ats.names = (splitStrip ',' inner).filterMap keptName? := by
      have hrun := view_of_foldlM_eq_ok (addArg op optional) (fun acc => acc.1.names ++ acc.2.names) addArg_eq_ok h
      rw [splitStrip, filterMap_map, filterMap_eq_flatMap_toList]
      simpa only [Function.comp_apply, append_nil, nil_append] using hrun
    refine ⟨splitStrip ',' inner, by rw [hinner, Option.map_some], hnames, ?_, ?_⟩
    · rw [← length_append, hnames, filterMap_length_eq_length]
      simp only [isSome_keptName?]
    · intro op' inputs attrs hcanonical
      obtain ⟨inner', hinner', hgiven, htypes⟩ := readArgs_eq_ok hcanonical
      obtain rfl : inner = inner' := Option.some.inj (hinner.symm.trans hinner')
      rw [hnames, hgiven, filterMap_eq_map_iff_forall_eq_some]
      refine forall₂_congr fun t ht => ?_
      rw [keptName?_eq_givenName_iff, knowsType_iff (htypes t ht), and_assoc]
  · cases h

/-- Of three arguments the second is passed over. -/
theorem readArgs_kept_two_of_three : readArgs "f" "(Tensor x, double[] y, float z)" [] =
        .ok (⟨["x"], [("x", .single)]⟩, ⟨["z"], [("z", ⟨"float", none⟩)]⟩) ∧
      ["Tensor x", "double[] y", "float z"].filterMap keptName? = ["x", "z"] ∧
      Operator.readArgs "f" "(Tensor x, double[] y, float z)" =
        .ok ([⟨"Tensor", "x", none⟩], [⟨"double[]", "y", none⟩, ⟨"float", "z", none⟩]) := by
  have h : readArgs "f" "(Tensor x, double[] y, float z)" [] =
      .ok (⟨["x"], [("x", .single)]⟩, ⟨["z"], [("z", ⟨"float", none⟩)]⟩) := by decide +kernel
  obtain ⟨args, hargs, hnames, -⟩ := readArgs_kept h
  have hparts : (unparenthesise? "(Tensor x, double[] y, float z)").map (splitStrip ',') =
      some ["Tensor x", "double[] y", "float z"] := by decide +kernel
  obtain rfl := Option.some.inj (hparts.symm.trans hargs)
  exact ⟨h, hnames.symm, by decide +kernel⟩

end Api

end TensorKit.Operator
