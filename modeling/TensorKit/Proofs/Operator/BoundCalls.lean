import Mathlib
import TensorKit.Operator.Binding
import TensorKit.Proofs.Operator.KeptArguments
/-!
# What a binding passes to its eager function

The arguments of an operator are written twice: in its own entry, and in the call that its gradient operator states.  A
binding passes the arguments that are *written*; the eager function has parameters for those that are *stated*.  Between
the two stands one check (`checkStated`), which compares each stated argument with the written one of the same number
and says nothing about written arguments that are left over.

* **Reading.**  A list of arguments is read into tensors and attributes, each with its position (`readFrom_of_readArgs`,
  from the step `addArg_eq_ok`).
* **Filling.**  Parameters and passed names are put back in order by filling the places of the positions.  A tensor that
  is named twice has only one place, so that the last position does not exist and nothing can be written
  (`ReadFrom.inputSlots_eq`).  Hence all places are filled (`ReadFrom.exists_fill`).
* **Checking.**  A stated argument has the type of the written argument at its position (`Within.typeAt`).

So every parameter has the type of what it is passed, and there may be too few of them (`parameters_within_callArgs`).
-/

namespace TensorKit.Operator

open List

variable {args : List (String × ArgType)} {α : Type}

namespace Eager

open Text Pattern

variable {s : Signature} {f : Function} {space : String} {out : FunctionText × List (String × CoreOp)}
  {x : (String × ArgType) × Nat} {a : String × String × Nat}
variable {n k : Nat} {β : Type} {attrs : List AttrArg} {stated written : Signature}

/-! ## 1. Places -/

section Places

variable {α : Type}

def fillStep (places : List (Option α)) (x : Nat × α) : Making (List (Option α)) :=
  if x.1 < places.length then .ok (places.set x.1 (some x.2)) else .error (.fault .index)

variable {xs : List (Nat × α)}

/-- A place that is filled has one of the values for it, and the others are as they were. -/
theorem exists_fills {s : List (Option α)} (h : ∀ x ∈ xs, x.1 < s.length) :
    ∃ s', xs.foldlM fillStep s = .ok s' ∧ s'.length = s.length ∧
      ∀ k, k ∉ xs.map Prod.fst ∧ s'[k]? = s[k]? ∨ ∃ a, (k, a) ∈ xs ∧ s'[k]? = some (some a) := by
  induction xs generalizing s with
  | nil => exact ⟨s, rfl, rfl, fun k => .inl ⟨by simp, rfl⟩⟩
  | cons x xs ih =>
    obtain ⟨hx, hxs⟩ := forall_mem_cons.mp h
    obtain ⟨s', hs', hlen, hat⟩ := ih (s := s.set x.1 (some x.2)) (by simpa using hxs)
    refine ⟨s', ?_, by simpa using hlen, fun k => ?_⟩
    · rwa [foldlM_cons, fillStep, if_pos hx]
    · rcases hat k with ⟨hk, hsame⟩ | ⟨a, ha, hk⟩
      · by_cases heq : x.1 = k
        · subst heq
          exact .inr ⟨x.2, .head _, hsame.trans (getElem?_set_self hx)⟩
        · exact .inl ⟨not_mem_cons_of_ne_of_not_mem (Ne.symm heq) hk, hsame.trans (getElem?_set_ne heq)⟩
      · exact .inr ⟨a, .tail _ ha, hk⟩

theorem lt_of_foldlM_fillStep : ∀ {xs : List (Nat × α)} {s s' : List (Option α)}, xs.foldlM fillStep s = .ok s' →
    ∀ x ∈ xs, x.1 < s.length
  | [], _, _, _ => by simp
  | x :: xs, s, s', h => by
    rw [foldlM_cons, fillStep] at h
    split at h
    next hx =>
      have hrest := lt_of_foldlM_fillStep h
      rw [length_set] at hrest
      exact forall_mem_cons.mpr ⟨hx, hrest⟩
    · cases h

theorem lt_of_fill {places : List (Option α)} (h : fill n xs = .ok places) : ∀ x ∈ xs, x.1 < n := by
  simpa using lt_of_foldlM_fillStep h

theorem exists_eq_map_some {xs : List (Option α)} (h : ∀ x ∈ xs, ∃ a, some a = x) :
    ∃ ys : List α, xs = ys.map some := by
  have hrange : xs ∈ Set.range (map some) := by rwa [Set.range_list_map]
  obtain ⟨ys, hys⟩ := hrange
  exact ⟨ys, hys.symm⟩

/-- **Places are all filled if the positions are those of the places.** -/
theorem fill_covered (hlt : ∀ x ∈ xs, x.1 < n)
    (hcover : ∀ k < n, k ∈ xs.map Prod.fst) : ∃ ys : List α, fill n xs = .ok (ys.map some) ∧ ys.length = n ∧
      ∀ k y, ys[k]? = some y → (k, y) ∈ xs := by
  obtain ⟨places, hplaces, hlen, hat⟩ := exists_fills (s := replicate n (none : Option α)) (by simpa using hlt)
  rw [length_replicate] at hlen
  replace hat : ∀ k < n, ∃ a, (k, a) ∈ xs ∧ places[k]? = some (some a) := fun k hk =>
    (hat k).resolve_left fun h => h.1 (hcover k hk)
  have hsome : ∀ p ∈ places, ∃ a, some a = p := by
    intro p hp
    obtain ⟨k, hk⟩ := getElem?_of_mem hp
    obtain ⟨a, -, ha⟩ := hat k (hlen ▸ (lt_of_getElem? hk))
    exact ⟨a, Option.some.inj (ha.symm.trans hk)⟩
  obtain ⟨ys, rfl⟩ := exists_eq_map_some hsome
  rw [length_map] at hlen
  refine ⟨ys, hplaces, hlen, fun k y hy => ?_⟩
  obtain ⟨a, ha, hk⟩ := hat k (hlen ▸ (lt_of_getElem? hy))
  obtain rfl : y = a := by simpa [hy] using hk
  exact ha

end Places

/-! ## 2. Arguments as they are read -/

def argName (rest : String) : String :=
  Naming.baseName (match split '=' rest with
    | a :: _ :: _ => strip a
    | _ => strip rest)

def readItem? (s : String) : Option (String × ArgType) :=
  (firstSuffix? constTypedHere? s.toList).bind fun t => (argTypes.get? t.1).map (argName t.2, ·)

def tensorAt (x : (String × ArgType) × Nat) : List TensorArg :=
  match x.1.2 with
  | .tensor form => [⟨x.1.1, form, x.2⟩]
  | .attr _ => []

def attrAt (x : (String × ArgType) × Nat) : List (String × String × Nat) :=
  match x.1.2 with
  | .tensor _ => []
  | .attr type => [(x.1.1, type, x.2)]

def AttrArg.typed (a : AttrArg) : String × String × Nat := (a.name, a.type, a.position)

structure ReadFrom (args : List (String × ArgType)) (inputs : List TensorArg) (attrs : List AttrArg) : Prop where
  ne_nil : args ≠ []
  inputs : inputs = args.zipIdx.flatMap tensorAt
  attrs : attrs.map AttrArg.typed = args.zipIdx.flatMap attrAt

def added {β : Type} (put : (String × ArgType) × Nat → List β) (x : String × Nat) : List β :=
  (readItem? x.1).toList.flatMap fun a => put (a, x.2)

/-- **Step lemma** of the reader: it adds the argument to its list. -/
theorem addArg_eq_ok {acc acc' : ArgLists} {x : String × Nat} (h : addArg acc x = .ok acc') :
    (∃ a, some a = readItem? x.1) ∧ acc'.inputs = acc.inputs ++ added tensorAt x ∧
      acc'.attrs.map AttrArg.typed = acc.attrs.map AttrArg.typed ++ added attrAt x := by
  unfold addArg at h
  split at h
  · cases h
  next word rest hword =>
    have hread : ∀ {type}, argTypes.get? word = some type → readItem? x.1 = some (argName rest, type) := by
      intro type htype
      simp [readItem?, hword, htype]
    split at h
    next name default hparts =>
    have hname : argName rest = Naming.baseName name := by
      rcases hsplit : split '=' rest with _ | ⟨a, _ | ⟨b, l⟩⟩ <;> simp_all [argName]
    rw [hname] at hread
    split at h
    · cases h
    next form htype =>
      obtain ⟨_, -, h⟩ := of_bind_eq_ok h
      cases h
      exact ⟨⟨_, (hread htype).symm⟩, by simp [added, hread htype, tensorAt],
        by simp [added, hread htype, attrAt]⟩
    next type htype =>
      cases h
      exact ⟨⟨_, (hread htype).symm⟩, by simp [added, hread htype, tensorAt],
        by simp [added, hread htype, attrAt, AttrArg.typed]⟩

theorem flatMap_added {items : List String}
    (h : items.map readItem? = args.map some) (put : (String × ArgType) × Nat → List β) :
    items.zipIdx.flatMap (added put) = args.zipIdx.flatMap put := by
  have hzip : items.zipIdx.map (Prod.map readItem? id) = args.zipIdx.map (Prod.map some id) := by
    rw [← zipIdx_map, ← zipIdx_map, h]
  calc items.zipIdx.flatMap (added put)
      = (items.zipIdx.map (Prod.map readItem? id)).flatMap fun y => y.1.toList.flatMap fun a => put (a, y.2) := by
        rw [flatMap_map]
        rfl
    _ = args.zipIdx.flatMap put := by
        rw [hzip, flatMap_map]
        simp

/-- **Run lemma** of the reader: the lists hold all written arguments, with their positions. -/
theorem readFrom_of_readArgs {s : String} {lists : ArgLists} (h : readArgs s = .ok lists) :
    ∃ args : List (String × ArgType), (splitStrip ',' (strip s)).map readItem? = args.map some ∧
      ReadFrom args lists.inputs lists.attrs := by
  have hread := forall_of_foldlM_eq_ok addArg (fun h => (addArg_eq_ok h).1) h
  have hins := view_of_foldlM_eq_ok addArg ArgLists.inputs (fun h => (addArg_eq_ok h).2.1) h
  have hattrs := view_of_foldlM_eq_ok addArg (fun acc => acc.attrs.map AttrArg.typed) (fun h => (addArg_eq_ok h).2.2) h
  obtain ⟨args, hargs⟩ : ∃ args : List (String × ArgType),
      (splitStrip ',' (strip s)).map readItem? = args.map some := by
    refine exists_eq_map_some fun x hx => ?_
    obtain ⟨item, hitem, rfl⟩ := mem_map.mp hx
    obtain ⟨k, hk⟩ := getElem?_of_mem hitem
    exact hread (item, k) (mem_zipIdx_iff_getElem?.mpr hk)
  rw [flatMap_added hargs] at hins hattrs
  have hne : args ≠ [] := by
    rintro rfl
    simp [splitStrip, split, splitOn_ne_nil] at hargs
  exact ⟨args, hargs, hne, hins, hattrs⟩

/-! ## 3. Filling the places of arguments -/

def slotOf (a : TensorArg) : String × Slot := (a.name, ⟨a.form, a.position⟩)

theorem inputSlots_eq_ofList (inputs : List TensorArg) : inputSlots inputs = Table.ofList (inputs.map slotOf) := rfl

/-- Values for tensors and attributes, with the positions of the arguments. -/
def placesOf (slots : Table String Slot) (attrs : List AttrArg) (input : String × Slot → α)
    (attr : AttrArg → α) : List (Nat × α) :=
  (slots.map fun s => (s.2.position, input s)) ++ (attrs.map fun a => (a.position, attr a))

def positions (slots : Table String Slot) (attrs : List AttrArg) : List Nat :=
  (slots.map fun s => s.2.position) ++ attrs.map AttrArg.position

theorem placesOf_fst {slots : Table String Slot} (input : String × Slot → α)
    (attr : AttrArg → α) : (placesOf slots attrs input attr).map Prod.fst = positions slots attrs := by
  simp [placesOf, positions, Function.comp_def]

theorem mem_tensorAt {a : TensorArg} : a ∈ tensorAt x ↔ x = ((a.name, .tensor a.form), a.position) := by
  obtain ⟨⟨n, type⟩, k⟩ := x
  cases type with
  | tensor form => cases a; simp [tensorAt, eq_comm, and_assoc]
  | attr type => simp [tensorAt]

theorem mem_attrAt : a ∈ attrAt x ↔ x = ((a.1, .attr a.2.1), a.2.2) := by
  obtain ⟨⟨n, type⟩, k⟩ := x
  obtain ⟨m, type', l⟩ := a
  cases type with
  | tensor form => simp [attrAt]
  | attr type => simp [attrAt, eq_comm, and_assoc]

/-- Two lists that share out the elements of a third are as long together. -/
theorem length_flatMap_add {α γ : Type} {f : α → List β} {g : α → List γ} {as : List α}
    (h : ∀ a ∈ as, (f a).length + (g a).length = 1) : (as.flatMap f).length + (as.flatMap g).length = as.length := by
  induction as with
  | nil => rfl
  | cons a as ih =>
    obtain ⟨ha, has⟩ := forall_mem_cons.mp h
    have hrest := ih has
    simp only [flatMap_cons, length_append, length_cons]
    omega

theorem length_tensorAt_add_attrAt (zs : List ((String × ArgType) × Nat)) :
    (zs.flatMap tensorAt).length + (zs.flatMap attrAt).length = zs.length := by
  refine length_flatMap_add fun x _ => ?_
  obtain ⟨⟨n, type⟩, k⟩ := x
  cases type <;> rfl

namespace ReadFrom

variable {args : List (String × ArgType)} {inputs : List TensorArg}

variable (h : ReadFrom args inputs attrs)

include h

theorem mem_inputs {a : TensorArg} :
    a ∈ inputs ↔ args[a.position]? = some (a.name, .tensor a.form) := by
  simp [h.inputs, mem_tensorAt, mk_mem_zipIdx_iff_getElem?]

theorem exists_attr {n type : String} : args[k]? = some (n, .attr type) ↔
    ∃ a ∈ attrs, a.name = n ∧ a.type = type ∧ a.position = k := by
  have hmem : (n, type, k) ∈ attrs.map AttrArg.typed ↔ args[k]? = some (n, .attr type) := by
    simp [h.attrs, mem_attrAt, mk_mem_zipIdx_iff_getElem?]
  simp [← hmem, AttrArg.typed]

theorem length_eq : inputs.length + attrs.length = args.length := by
  have hattrs : attrs.length = (args.zipIdx.flatMap attrAt).length := by rw [← h.attrs, length_map]
  rw [hattrs, h.inputs, length_tensorAt_add_attrAt, length_zipIdx]

/-- If the positions of all places exist, no two tensors have one name: the last argument has the last position, and a
name that is there twice has only one place. -/
theorem inputSlots_eq
    (hlt : ∀ k ∈ positions (inputSlots inputs) attrs, k < (inputSlots inputs).length + attrs.length) :
    inputSlots inputs = inputs.map slotOf := by
  have hlast : args.length - 1 ∈ positions (inputSlots inputs) attrs := by
    rcases eq_nil_or_concat' args with rfl | ⟨init, ⟨n, type⟩, rfl⟩
    · exact absurd rfl h.ne_nil
    · rw [length_append, length_singleton, Nat.add_sub_cancel]
      cases type with
      | tensor form =>
        have hins := h.inputs
        rw [zipIdx_append, flatMap_append] at hins
        have hslot : (n, ⟨form, init.length⟩) ∈ inputSlots inputs := by
          rw [inputSlots_eq_ofList, hins]
          simpa [tensorAt, slotOf, Table.ofList_concat] using Table.mem_set_self ..
        exact mem_append_left _ (mem_map_of_mem hslot)
      | attr type =>
        have hat : (init ++ [(n, .attr type)])[init.length]? = some (n, .attr type) := by simp
        obtain ⟨a, ha, -, -, hpos⟩ := h.exists_attr.mp hat
        exact mem_append_right _ (hpos ▸ mem_map_of_mem ha)
  have hcount := hlt _ hlast
  have hlen := h.length_eq
  have hle := Table.length_ofList_le (inputs.map slotOf)
  rw [inputSlots_eq_ofList] at hcount ⊢
  rw [length_map] at hle
  exact Table.ofList_of_length (by rw [length_map]; omega)

theorem mem_positions (hk : k < args.length) :
    k ∈ positions (inputs.map slotOf) attrs := by
  obtain ⟨⟨n, type⟩, hat⟩ : ∃ a, args[k]? = some a := ⟨_, getElem?_eq_getElem hk⟩
  cases type with
  | tensor form =>
    have hmem : ⟨n, form, k⟩ ∈ inputs := h.mem_inputs.mpr hat
    exact mem_append_left _ (mem_map_of_mem (mem_map_of_mem hmem))
  | attr type =>
    obtain ⟨a, ha, -, -, hpos⟩ := h.exists_attr.mp hat
    exact mem_append_right _ (hpos ▸ mem_map_of_mem ha)

/-- **The places of all arguments are filled, whatever they are filled with**, if they can be filled with something. -/
theorem exists_fill {input : String × Slot → α} {attr : AttrArg → α} {places : List (Option α)}
    (hfill : fill ((inputSlots inputs).length + attrs.length) (placesOf (inputSlots inputs) attrs input attr) =
      .ok places) (input' : String × Slot → β) (attr' : AttrArg → β) : ∃ ys : List β,
      fill ((inputSlots inputs).length + attrs.length) (placesOf (inputSlots inputs) attrs input' attr') =
        .ok (ys.map some) ∧ ys.length = args.length ∧ ∀ k y, ys[k]? = some y →
        (∃ a ∈ inputs, a.position = k ∧ y = input' (slotOf a)) ∨ ∃ a ∈ attrs, a.position = k ∧ y = attr' a := by
  have hlt : ∀ k ∈ positions (inputSlots inputs) attrs, k < (inputSlots inputs).length + attrs.length := by
    rw [← placesOf_fst input attr]
    exact forall_mem_map.mpr (lt_of_fill hfill)
  have hslots := h.inputSlots_eq hlt
  have hcount : (inputSlots inputs).length + attrs.length = args.length := by rw [hslots, length_map, h.length_eq]
  have hlt' : ∀ x ∈ placesOf (inputSlots inputs) attrs input' attr',
      x.1 < (inputSlots inputs).length + attrs.length := by
    rw [← placesOf_fst input' attr'] at hlt
    exact forall_mem_map.mp hlt
  have hcover : ∀ k < (inputSlots inputs).length + attrs.length,
      k ∈ (placesOf (inputSlots inputs) attrs input' attr').map Prod.fst := by
    intro k hk
    rw [placesOf_fst, hslots]
    exact h.mem_positions (hcount ▸ hk)
  obtain ⟨ys, hys, hlen, hmem⟩ := fill_covered hlt' hcover
  refine ⟨ys, hys, hlen.trans hcount, fun k y hy => ?_⟩
  rcases mem_append.mp (hmem k y hy) with hmem | hmem
  · rw [hslots, map_map] at hmem
    obtain ⟨a, ha, heq⟩ := mem_map.mp hmem
    obtain ⟨rfl, rfl⟩ := Prod.mk.inj heq
    exact .inl ⟨a, ha, rfl, rfl⟩
  · obtain ⟨a, ha, heq⟩ := mem_map.mp hmem
    obtain ⟨rfl, rfl⟩ := Prod.mk.inj heq
    exact .inr ⟨a, ha, rfl, rfl⟩

end ReadFrom

/-! ## 4. The stated and the written signature -/

theorem eq_of_agree {left right : String} (h : agree left right = .ok ()) : left = right :=
  of_decide_eq_true (eq_true_of_ensure h)

theorem eq_of_agreeAt {left right : Nat} (h : agreeAt left right = .ok ()) : left = right :=
  Nat.repr_inj.mp (eq_of_agree h)

theorem TensorForm.type_injective : Function.Injective TensorForm.type := by
  intro a b
  cases a <;> cases b <;> decide

/-- The checked signature has a tensor or an attribute of the same type at the same position for each that is stated. -/
structure Within (stated written : Signature) : Prop where
  input : ∀ {i : Nat} {a : TensorArg}, stated.inputs[i]? = some a →
    ∃ b, written.inputs[i]? = some b ∧ b.form = a.form ∧ b.position = a.position
  attr : ∀ {i : Nat} {a : AttrArg}, stated.attrs[i]? = some a →
    ∃ b, written.attrs[i]? = some b ∧ b.type = a.type ∧ b.position = a.position

theorem within_of_checkStated (h : checkStated stated written = .ok ()) :
    Within stated written := by
  obtain ⟨_, hins, _, hattrs, h⟩ := of_bind₂_eq_ok h
  constructor
  · intro i a ha
    have hcheck := forall_of_forM_eq_ok hins (a, i) (mk_mem_zipIdx_iff_getElem?.mpr ha)
    obtain ⟨b, hb, _, htype, hpos⟩ := of_bind₂_eq_ok hcheck
    exact ⟨b, demand_eq_ok_iff.mp hb, (TensorForm.type_injective (eq_of_agree htype)).symm, (eq_of_agreeAt hpos).symm⟩
  · intro i a ha
    have hcheck := forall_of_forM_eq_ok hattrs (a, i) (mk_mem_zipIdx_iff_getElem?.mpr ha)
    obtain ⟨b, hb, _, htype, hpos⟩ := of_bind₂_eq_ok hcheck
    exact ⟨b, demand_eq_ok_iff.mp hb, eq_of_agree htype, eq_of_agreeAt hpos⟩

theorem length_le_of_getElem? {xs : List α} {ys : List β}
    (h : ∀ (i : Nat) (a : α), xs[i]? = some a → ∃ b, ys[i]? = some b) : xs.length ≤ ys.length := by
  by_contra hlt
  obtain ⟨b, hb⟩ := h ys.length _ (getElem?_eq_getElem (Nat.not_le.mp hlt))
  simp at hb

namespace Within

variable {sargs wargs : List (String × ArgType)}

theorem length_le (h : Within stated written) :
    stated.inputs.length ≤ written.inputs.length ∧ stated.attrs.length ≤ written.attrs.length :=
  ⟨length_le_of_getElem? fun _ _ hi => (h.input hi).imp fun _ hb => hb.1,
    length_le_of_getElem? fun _ _ hi => (h.attr hi).imp fun _ hb => hb.1⟩

theorem typeAt (h : Within stated written) (hs : ReadFrom sargs stated.inputs stated.attrs)
    (hw : ReadFrom wargs written.inputs written.attrs) {n : String} {type : ArgType}
    (hk : sargs[k]? = some (n, type)) : ∃ m, wargs[k]? = some (m, type) := by
  cases type with
  | tensor form =>
    have hmem : ⟨n, form, k⟩ ∈ stated.inputs := hs.mem_inputs.mpr hk
    obtain ⟨i, hi⟩ := getElem?_of_mem hmem
    obtain ⟨b, hb, rfl, rfl⟩ := h.input hi
    exact ⟨b.name, hw.mem_inputs.mp (mem_of_getElem? hb)⟩
  | attr type =>
    obtain ⟨a, ha, -, rfl, rfl⟩ := hs.exists_attr.mp hk
    obtain ⟨i, hi⟩ := getElem?_of_mem ha
    obtain ⟨b, hb, htype, hpos⟩ := h.attr hi
    exact ⟨b.name, hw.exists_attr.mpr ⟨b, mem_of_getElem? hb, rfl, htype, hpos⟩⟩

end Within

/-! ## 5. Eager functions and bindings -/

def argItems? (e : Entry) : Option (List String) := (e.args.bind wholeInside?).map fun s => splitStrip ',' (strip s)

theorem readFrom_of_readSignature {inside : Option String} {returns : String}
    (h : readSignature inside returns = .ok s) : ∃ (text : String) (args : List (String × ArgType)),
      inside = some text ∧ (splitStrip ',' (strip text)).map readItem? = args.map some ∧
      ReadFrom args s.inputs s.attrs := by
  cases inside with
  | none => cases h
  | some text =>
    obtain ⟨lists, hlists, outputs, -, h⟩ := of_bind₂_eq_ok h
    cases h
    obtain ⟨args, hread⟩ := readFrom_of_readArgs hlists
    exact ⟨text, args, rfl, hread⟩

theorem readFrom_of_readForward {e : Entry} {text returns : String} (hargs : e.args = some text)
    (h : readForward text returns = .ok s) :
    ∃ items args, argItems? e = some items ∧ items.map readItem? = args.map some ∧ ReadFrom args s.inputs s.attrs := by
  obtain ⟨inside, args, hinside, hread⟩ := readFrom_of_readSignature h
  exact ⟨_, args, by simp [argItems?, hargs, hinside], hread⟩

theorem readCall_eq_ok {call : String} (h : readCall call = .ok s) :
    ∃ text returns, readSignature (some text) returns = .ok s := by
  unfold readCall at h
  split at h
  · cases h
  next text returns _ => exact ⟨text, returns, h⟩

/-- What an eager function is made of: a signature that is read somewhere, within the one that the entry gives. -/
theorem signatures_of_ofEntries {e : Entry} {grad : Option Entry} (h : Function.ofEntries e grad = .ok f) :
    (∃ text returns, e.args = some text ∧ e.output = some returns ∧ readForward text returns = .ok f.written) ∧
      (∃ text returns, readSignature (some text) returns = .ok f.stated) ∧ Within f.stated f.written ∧
      f.inputs = inputSlots f.stated.inputs := by
  cases grad with
  | none =>
    simp only [Function.ofEntries, bind_eq_ok_iff, pure_bind] at h
    obtain ⟨_, -, name, -, text, htext, returns, hreturns, inplace, -, gradInplace, -, _, -, stated, hstated, written,
      hwritten, _, hcheck, h⟩ := h
    cases h
    exact ⟨⟨text, returns, demand_eq_ok_iff.mp htext, demand_eq_ok_iff.mp hreturns, hwritten⟩, readCall_eq_ok hstated,
      within_of_checkStated hcheck, rfl⟩
  | some g =>
    simp only [Function.ofEntries, bind_eq_ok_iff, pure_bind] at h
    obtain ⟨_, -, name, -, text, htext, returns, hreturns, inplace, -, gradInplace, -, _, -, gargs, -, goutput, -, s, -,
      backward, -, forward, -, call, hcall, written, hwritten, _, hcheck, part, -, part', -, _, -, h⟩ := h
    cases h
    exact ⟨⟨text, returns, demand_eq_ok_iff.mp htext, demand_eq_ok_iff.mp hreturns, hwritten⟩, readCall_eq_ok hcall,
      within_of_checkStated hcheck, rfl⟩

def paramType (f : Function) (v : Variant) (name : String) : ArgType → String
  | .tensor form => inputType f v name form
  | .attr type => type

theorem exists_coreOp (h : forwardFunctions space f = .ok out) : ∃ entry, coreOp f = .ok entry := by
  unfold forwardFunctions at h
  dsimp only at h
  split at h
  · cases h
  all_goals
    obtain ⟨first, -, entry, hentry, -⟩ := of_bind₂_eq_ok h
    exact ⟨entry, hentry⟩

/-- An eager function that can be written has one parameter for each argument of the stated signature, of its type. -/
theorem exists_parameters (hins : f.inputs = inputSlots f.stated.inputs)
    (hread : ReadFrom args f.stated.inputs f.stated.attrs) (h : forwardFunctions space f = .ok out) (v : Variant) :
    ∃ ps : List Parameter, parameters f v = .ok (ps.map some) ∧ ps.length = args.length ∧
      ∀ (k : Nat) (p : Parameter), ps[k]? = some p →
        ∃ type, args[k]? = some (p.name, type) ∧ p.type = paramType f v p.name type := by
  have hcount : paramCount f = (inputSlots f.stated.inputs).length + f.stated.attrs.length := by
    rw [paramCount, hins, Nat.add_comm]
  obtain ⟨names, hnames⟩ : ∃ names, fill (paramCount f) (placesOf f.inputs f.stated.attrs Prod.fst AttrArg.name) =
      .ok names := by
    obtain ⟨entry, hentry⟩ := exists_coreOp h
    obtain ⟨names, hnames, -⟩ := of_bind_eq_ok hentry
    exact ⟨names, hnames⟩
  rw [hins, hcount] at hnames
  obtain ⟨ps, hps, hlen, hmem⟩ := hread.exists_fill hnames
    (fun s => (⟨inputType f v s.1 s.2.form, s.1, none⟩ : Parameter)) (fun a => ⟨a.type, a.name, a.default⟩)
  refine ⟨ps, ?_, hlen, fun k p hp => ?_⟩
  · rwa [parameters, hcount, hins]
  · rcases hmem k p hp with ⟨a, ha, rfl, rfl⟩ | ⟨a, ha, rfl, rfl⟩
    · exact ⟨.tensor a.form, hread.mem_inputs.mp ha, rfl⟩
    · exact ⟨.attr a.type, hread.exists_attr.mpr ⟨a, ha, rfl, rfl, rfl⟩, rfl⟩

end Eager

namespace Binding

open Eager

variable {s : Signature} {space : String}

theorem eq_ok_of_reading {x : Eager.Making α} {a : α} (h : reading x = .ok a) : x = .ok a := by
  cases x with
  | error e => cases h
  | ok b => rw [Except.ok.inj h]

/-- A binding that can be written passes all arguments of the written signature. -/
theorem exists_callArgs {b : Bound} {bs : List BindingText} (hins : b.inputs = inputSlots s.inputs) (hattrs : b.attrs = s.attrs)
    (hread : ReadFrom args s.inputs s.attrs) (h : bindings space b = .ok bs) :
    ∃ names : List String, callArgs b = .ok (names.map some) ∧ names.length = args.length ∧
      ∀ (k : Nat) (n : String), names[k]? = some n → ∃ type, args[k]? = some (n, type) := by
  obtain ⟨places, hplaces⟩ : ∃ places, callArgs b = .ok places := by
    obtain ⟨c, hc, -⟩ := of_bind_eq_ok h
    obtain ⟨code, -, places, hplaces, -⟩ := of_bind₂_eq_ok hc
    exact ⟨places, hplaces⟩
  have hfill := eq_ok_of_reading hplaces
  rw [hins, hattrs] at hfill
  obtain ⟨names, hnames, hlen, hmem⟩ := hread.exists_fill hfill (fun s => s.1) (fun a => a.name)
  refine ⟨names, ?_, hlen, fun k n hn => ?_⟩
  · rw [callArgs, hins, hattrs]
    exact congrArg reading hnames
  · rcases hmem k n hn with ⟨a, ha, rfl, rfl⟩ | ⟨a, ha, rfl, rfl⟩
    · exact ⟨_, hread.mem_inputs.mp ha⟩
    · exact ⟨_, hread.exists_attr.mpr ⟨a, ha, rfl, rfl, rfl⟩⟩

theorem signature_of_ofEntry {e : Entry} {b : Bound} (h : Bound.ofEntry e = .ok b) {text returns : String}
    (htext : e.args = some text) (hreturns : e.output = some returns) (hs : Eager.readForward text returns = .ok s) :
    b.inputs = inputSlots s.inputs ∧ b.attrs = s.attrs := by
  simp only [Bound.ofEntry, bind_eq_ok_iff] at h
  obtain ⟨inplace, -, name, -, text', htext', returns', hreturns', s', hs', h⟩ := h
  obtain rfl : text = text' := Option.some.inj (htext.symm.trans (demand_eq_ok_iff.mp (eq_ok_of_reading htext')))
  obtain rfl : returns = returns' := Option.some.inj (hreturns.symm.trans (demand_eq_ok_iff.mp (eq_ok_of_reading hreturns')))
  obtain rfl : s = s' := Except.ok.inj (hs.symm.trans (eq_ok_of_reading hs'))
  cases h
  exact ⟨rfl, rfl⟩

/-- **A binding passes the written arguments in their order, and each parameter of its eager function has the type of
the argument that it is passed; but there may be fewer parameters.**  There are as many exactly if the gradient operator
states as many tensors and as many attributes as are written. -/
theorem parameters_within_callArgs {e : Entry} {grad : Option Entry} {f : Function} {b : Bound} {space : String}
    {out : FunctionText × List (String × CoreOp)} {bs : List BindingText} (hf : Function.ofEntries e grad = .ok f)
    (hout : forwardFunctions space f = .ok out) (hb : Bound.ofEntry e = .ok b) (hbs : bindings space b = .ok bs)
    (v : Variant) : ∃ (items names : List String) (ps : List Parameter), argItems? e = some items ∧
      callArgs b = .ok (names.map some) ∧ parameters f v = .ok (ps.map some) ∧
      names.length = items.length ∧ ps.length ≤ names.length ∧
      (∀ (k : Nat) (n : String), names[k]? = some n → ∃ type, items[k]?.bind readItem? = some (n, type)) ∧
      (∀ (k : Nat) (p : Parameter), ps[k]? = some p →
        ∃ n type, items[k]?.bind readItem? = some (n, type) ∧ p.type = paramType f v p.name type) ∧
      (ps.length = names.length ↔ f.stated.inputs.length = f.written.inputs.length ∧
        f.stated.attrs.length = f.written.attrs.length) := by
  obtain ⟨⟨text, returns, htext, hreturns, hwritten⟩, ⟨stext, sreturns, hstated⟩, hwithin, hinputs⟩ :=
    signatures_of_ofEntries hf
  obtain ⟨items, wargs, hitems, hread, hw⟩ := readFrom_of_readForward htext hwritten
  obtain ⟨_, sargs, -, -, hs⟩ := readFrom_of_readSignature hstated
  obtain ⟨hbinputs, hbattrs⟩ := signature_of_ofEntry hb htext hreturns hwritten
  obtain ⟨names, hnames, hnlength, hnmem⟩ := exists_callArgs hbinputs hbattrs hw hbs
  obtain ⟨ps, hps, hplength, hpmem⟩ := exists_parameters hinputs hs hout v
  have hbind {k : Nat} {a : String × ArgType} (ha : wargs[k]? = some a) : items[k]?.bind readItem? = some a := by
    have hat : (items.map readItem?)[k]? = some (some a) := by rw [hread, getElem?_map, ha, Option.map_some]
    obtain ⟨item, hitem, hsome⟩ := Option.map_eq_some_iff.mp ((getElem?_map ..).symm.trans hat)
    rw [hitem, Option.bind_some, hsome]
  have hcount : items.length = wargs.length := by simpa using congrArg List.length hread
  have hle : sargs.length ≤ wargs.length := length_le_of_getElem? fun k a ha =>
    (hwithin.typeAt hs hw ha).elim fun m hm => ⟨_, hm⟩
  refine ⟨items, names, ps, hitems, hnames, hps, by omega, by omega, fun k n hn => ?_, fun k p hp => ?_, ?_⟩
  · obtain ⟨type, htype⟩ := hnmem k n hn
    exact ⟨type, hbind htype⟩
  · obtain ⟨type, htype, hptype⟩ := hpmem k p hp
    obtain ⟨m, hm⟩ := hwithin.typeAt hs hw htype
    exact ⟨m, type, hbind hm, hptype⟩
  · have hslength := hs.length_eq
    have hwlength := hw.length_eq
    have hlengths := hwithin.length_le
    omega

/-- An operator with a tensor and an attribute. -/
def scaled : Entry where
  op := some "f"
  args := some "(Tensor x, float y)"
  output := some "Tensor(out)"
  backward := some "f_grad"
  fields := ["op", "args", "output", "backward"]

/-- A gradient operator that states the tensor alone. -/
def scaledGrad : Entry where
  backwardOp := some "f_grad"
  forward := some "f (Tensor x) -> Tensor(out)"
  args := some "(Tensor x, Tensor out_grad)"
  output := some "Tensor(x_grad)"
  fields := ["backward_op", "forward", "args", "output"]

/-- The binding passes the attribute to a function that does not take it. -/
theorem parameters_within_callArgs_scaled : ∃ (f : Function) (b : Bound) (names : List String) (ps : List Parameter),
    Function.ofEntries scaled (some scaledGrad) = .ok f ∧ Bound.ofEntry scaled = .ok b ∧
    callArgs b = .ok (names.map some) ∧ parameters f (ordinary f) = .ok (ps.map some) ∧ ps.length < names.length := by
  have hfunction : (Function.ofEntries scaled (some scaledGrad)).toOption.map
      (fun f => ((forwardFunctions "" f).isOk, f.stated.attrs.length, f.written.attrs.length)) = some (true, 0, 1) := by
    decide +kernel
  have hbound : (Bound.ofEntry scaled).toOption.map (fun b => (bindings "" b).isOk) = some true := by decide +kernel
  obtain ⟨f, hf, hfacts⟩ := exists_of_map_toOption hfunction
  obtain ⟨b, hb, hbok⟩ := exists_of_map_toOption hbound
  simp only [Prod.mk.injEq] at hfacts
  obtain ⟨hfok, hstated, hwritten⟩ := hfacts
  obtain ⟨out, hout⟩ := exists_of_isOk hfok
  obtain ⟨bs, hbs⟩ := exists_of_isOk hbok
  obtain ⟨items, names, ps, -, hnames, hps, -, hle, -, -, hcount⟩ :=
    parameters_within_callArgs hf hout hb hbs (ordinary f)
  refine ⟨f, b, names, ps, hf, hb, hnames, hps, lt_of_le_of_ne hle fun h => ?_⟩
  have hattrs := (hcount.mp h).2
  rw [hstated, hwritten] at hattrs
  cases hattrs

end Binding

end TensorKit.Operator
