import TensorKit.Proofs.Operator.BoundCalls
/-!
# The arguments of gradient operators

A node calls its gradient operator with the arguments that the operator's entry lists.  The generator keeps them, with
their positions, in three tables: saved tensors, gradients of outputs, attributes.

* **Matching.**  A tensor argument goes into exactly one of two tables, according to its name (`matchInput_eq_ok`,
  `foldlM_matchInput_eq_ok`).  A gradient must name an output and gets the position of the last output of that name
  (`isOutputAt_of_get?`).
* **Filling.**  Under distinct names no table loses an argument (`Matched.tables`), so every place of the call gets the
  variable of its argument (`Matched.gradArguments_eq`).
* **Reading.**  The list itself is read only up to its first closing parenthesis (`firstSuffix?_insideHere?`), unlike
  that of a forward operator.  A default that is a call hides the arguments behind it (`gradItems?_eq_some`).

So every argument that is read is passed in its place, and some may not be read (`gradArguments_in_place`).
-/

namespace TensorKit.Operator.Eager

open Text Pattern Naming List Table

variable {a : TensorArg} {outputs : Table String Slot} {p : String × SavedSlot}
variable {name n returns whole text : String} {g g' : Gradient} {inputs : Table String Slot} {f : Function}
  {args : List (String × ArgType)}

/-! ## 1. Gradients among the arguments -/

/-- The tensor whose gradient an argument is, if its name says so. -/
def stem? (name : String) : Option String := (forwardName? name).filter fun n => !n.isEmpty

theorem eq_gradName_of_forwardName? (h : forwardName? name = some n) : name = gradName n := by
  unfold forwardName? at h
  split at h
  next hgrad =>
    obtain ⟨l, hl⟩ := isSuffixOf_iff_suffix.mp hgrad
    cases h
    apply String.toList_injective
    simp [gradName, Text.dropLast, ← hl]
  · cases h

theorem stem?_eq_some_iff : stem? name = some n ↔ n ≠ "" ∧ name = gradName n := by
  rw [stem?, Option.filter_eq_some_iff]
  constructor
  · rintro ⟨hname, hn⟩
    exact ⟨by simpa using hn, eq_gradName_of_forwardName? hname⟩
  · rintro ⟨hn, rfl⟩
    exact ⟨forwardName?_gradName n, by simpa using hn⟩

def savedAt (inputs : Table String Slot) (a : TensorArg) : List (String × SavedSlot) :=
  match stem? a.name with
  | some _ => []
  | none => [(a.name, ⟨a.form, inputs.has a.name, a.position⟩)]

def gradAt (outputs : Table String Slot) (a : TensorArg) : List (String × GradSlot) :=
  ((stem? a.name).bind fun n => outputs.get? n).toList.map fun slot => (a.name, ⟨a.form, slot.position, a.position⟩)

/-- The forward operator has the tensor that an argument names or whose gradient it is. -/
def Known (inputs outputs : Table String Slot) (a : TensorArg) : Prop :=
  match stem? a.name with
  | some n => outputs.has n
  | none => inputs.has a.name ∨ outputs.has a.name

/-- **Step lemma**: an argument is recorded in one of two tables. -/
theorem matchInput_eq_ok (h : matchInput inputs outputs g a = .ok g') :
    Known inputs outputs a ∧ g' = { g with
      saved := g.saved.update (savedAt inputs a)
      gradInputs := g.gradInputs.update (gradAt outputs a) } := by
  revert h
  fun_cases matchInput inputs outputs g a <;> rintro ⟨⟩
  case case1 hn _ hslot => simp [Known, savedAt, gradAt, show stem? a.name = _ from hn, hslot, has, update]
  case case3 hn hinput => simp [Known, savedAt, gradAt, show stem? a.name = _ from hn, hinput, update]
  case case4 hn hinput houtput => simp [Known, savedAt, gradAt, show stem? a.name = _ from hn, hinput, houtput, update]

/-- **Run lemma**: every argument is recorded in its turn. -/
theorem foldlM_matchInput_eq_ok : ∀ {as : List TensorArg} {g g' : Gradient},
    as.foldlM (matchInput inputs outputs) g = .ok g' → (∀ a ∈ as, Known inputs outputs a) ∧ g' = { g with
      saved := g.saved.update (as.flatMap (savedAt inputs))
      gradInputs := g.gradInputs.update (as.flatMap (gradAt outputs)) }
  | [], g, g', h => by
    obtain rfl : g = g' := Except.ok.inj h
    exact ⟨by simp, rfl⟩
  | a :: as, g, g', h => by
    rw [foldlM_cons] at h
    obtain ⟨t, ht, h⟩ := of_bind_eq_ok h
    obtain ⟨hknown, rfl⟩ := matchInput_eq_ok ht
    obtain ⟨hrest, rfl⟩ := foldlM_matchInput_eq_ok h
    refine ⟨forall_mem_cons.mpr ⟨hknown, hrest⟩, ?_⟩
    simp [update, foldl_append]

theorem matchOutput_eq_ok (h : matchOutput inputs g a = .ok g') :
    ∃ t, g' = { g with gradOutputs := t } := by
  revert h
  fun_cases matchOutput inputs g a <;> rintro ⟨⟩
  exact ⟨_, rfl⟩

theorem foldlM_matchOutput_eq_ok {as : List TensorArg}
    (h : as.foldlM (matchOutput inputs) g = .ok g') : ∃ t, g' = { g with gradOutputs := t } := by
  refine of_foldlM_eq_ok (matchOutput inputs) (P := fun g' => ∃ t, g' = { g with gradOutputs := t }) ?_ h
    ⟨g.gradOutputs, rfl⟩
  rintro _ a g'' ⟨t, rfl⟩ hstep
  obtain ⟨t', rfl⟩ := matchOutput_eq_ok hstep
  exact ⟨t', rfl⟩

structure Matched (s : Signature) (f : Function) (g : Gradient) : Prop where
  known : ∀ a ∈ s.inputs, Known f.inputs f.outputs a
  saved : g.saved = Table.ofList (s.inputs.flatMap (savedAt f.inputs))
  gradInputs : g.gradInputs = Table.ofList (s.inputs.flatMap (gradAt f.outputs))
  attrs : g.attrs = s.attrs

/-- What is made of a gradient operator. -/
theorem matched_of_ofEntries {e g : Entry} (h : Function.ofEntries e (some g) = .ok f) :
    ∃ (text returns : String) (s : Signature) (grad : Gradient), g.args = some text ∧
      readBackward text returns = .ok s ∧ f.gradient = some grad ∧ f.outputs = outputSlots f.stated.returns ∧
      Matched s f grad ∧ e.backward = some grad.name := by
  simp only [Function.ofEntries, bind_eq_ok_iff, pure_bind] at h
  obtain ⟨_, -, name, -, args, -, output, -, inplace, -, gradInplace, -, _, -, text, htext, returns, -, s, hs, backward,
    hbackward, forward, -, call, -, written, -, _, -, part, hpart, grad, hgrad, _, -, h⟩ := h
  cases h
  obtain ⟨hknown, rfl⟩ := foldlM_matchInput_eq_ok hpart
  obtain ⟨t, rfl⟩ := foldlM_matchOutput_eq_ok hgrad
  exact ⟨text, returns, s, _, demand_eq_ok_iff.mp htext, hs, rfl, rfl, ⟨hknown, rfl, rfl, rfl⟩, demand_eq_ok_iff.mp hbackward⟩

/-! ## 2. Which output a gradient names -/

def IsOutputAt (returns : List TensorArg) (n : String) (p : Nat) : Prop :=
  (∃ a, returns[p]? = some a ∧ outputName returns.length p a = n) ∧
    ∀ {q : Nat} {a : TensorArg}, p < q → returns[q]? = some a → outputName returns.length q a ≠ n

theorem getLast_of_get?_ofList {κ ν : Type} [DecidableEq κ] {ps : List (κ × ν)} {k : κ} {v : ν}
    (h : (ofList ps).get? k = some v) :
    ∃ i, ps[i]? = some (k, v) ∧ ∀ {j : Nat} {p : κ × ν}, i < j → ps[j]? = some p → p.1 ≠ k := by
  induction ps using reverseRecOn with
  | nil => cases h
  | append_singleton ps p ih =>
    obtain ⟨k', v'⟩ := p
    rw [ofList_concat, get?_set] at h
    split at h
    next hk =>
      cases h
      refine ⟨ps.length, by simp [hk], fun hlt hj => ?_⟩
      have hbound := lt_of_getElem? hj
      simp at hbound
      omega
    next hk =>
      obtain ⟨i, hi, hlast⟩ := ih h
      have hlt := lt_of_getElem? hi
      refine ⟨i, by rw [getElem?_append_left hlt, hi], fun {j p} hij hj => ?_⟩
      rcases lt_trichotomy j ps.length with hjlt | rfl | hjlt
      · exact hlast hij (by rwa [getElem?_append_left hjlt] at hj)
      · obtain rfl : (k', v') = p := by simpa using hj
        exact hk
      · have hbound := lt_of_getElem? hj
        simp at hbound
        omega

theorem position_of_readOutputs {s : String} {outputs : List TensorArg} (h : readOutputs s = .ok outputs) {p : Nat}
    (ha : outputs[p]? = some a) : a.position = p := by
  have hstep : ∀ {x b}, readOutput x = .ok b → b.position = x.2 := by
    intro x b hb
    obtain ⟨⟨word, name⟩, -, hb⟩ := of_bind_eq_ok hb
    dsimp only at hb
    split at hb
    · cases hb
    · cases hb
    · rw [← Except.ok.inj hb]
  obtain ⟨x, hx, hread⟩ := exists_getElem?_of_forall₂ (forall₂_of_mapM_eq_ok h).flip ha
  rw [hstep hread]
  simp only [getElem?_zipIdx, Option.map_eq_some_iff] at hx
  obtain ⟨_, -, rfl⟩ := hx
  exact Nat.zero_add p

theorem isOutputAt_of_get? {s : String} {returns : List TensorArg} (hreturns : readOutputs s = .ok returns)
    {slot : Slot} (h : (outputSlots returns).get? n = some slot) : IsOutputAt returns n slot.position := by
  have hslots : outputSlots returns = .ofList (returns.zipIdx.map fun x =>
      (outputName returns.length x.2 x.1, ⟨x.1.form, x.1.position⟩)) := rfl
  rw [hslots] at h
  obtain ⟨p, hp, hlast⟩ := getLast_of_get?_ofList h
  have hpair (q : Nat) : (returns.zipIdx.map fun x =>
      (outputName returns.length x.2 x.1, (⟨x.1.form, x.1.position⟩ : Slot)))[q]? =
      (returns[q]?).map fun a => (outputName returns.length q a, ⟨a.form, a.position⟩) := by
    cases hq : returns[q]? <;> simp [hq]
  rw [hpair] at hp
  obtain ⟨a, ha, heq⟩ := Option.map_eq_some_iff.mp hp
  obtain ⟨hname, rfl⟩ := Prod.mk.inj heq
  rw [position_of_readOutputs hreturns ha]
  refine ⟨⟨a, ha, hname⟩, fun {q b} hq hb => ?_⟩
  exact hlast hq (by rw [hpair, hb, Option.map_some])

/-! ## 3. Distinct names -/

theorem map_flatMap_sublist {α β κ : Type} {put : α → List β} {key : β → κ} {name : α → κ}
    (h : ∀ a, ((put a).map key).Sublist [name a]) (as : List α) : ((as.flatMap put).map key).Sublist (as.map name) := by
  induction as with
  | nil => exact .slnil
  | cons a as ih =>
    rw [flatMap_cons, map_append]
    exact (h a).append ih

theorem map_fst_savedAt (inputs : Table String Slot) (a : TensorArg) :
    ((savedAt inputs a).map Prod.fst).Sublist [a.name] := by
  unfold savedAt
  split
  · exact nil_sublist _
  · exact Sublist.refl _

theorem map_fst_gradAt (outputs : Table String Slot) (a : TensorArg) :
    ((gradAt outputs a).map Prod.fst).Sublist [a.name] := by
  unfold gradAt
  cases (stem? a.name).bind fun n => outputs.get? n with
  | none => exact nil_sublist _
  | some slot => exact Sublist.refl _

/-- The tensors among arguments with distinct names have distinct names. -/
theorem ReadFrom.nodup_inputs {inputs : List TensorArg} {attrs : List AttrArg}
    (h : ReadFrom args inputs attrs) (hnd : (args.map Prod.fst).Nodup) : (inputs.map TensorArg.name).Nodup := by
  have hone (z : (String × ArgType) × Nat) : ((tensorAt z).map TensorArg.name).Sublist [z.1.1] := by
    obtain ⟨⟨n, type⟩, k⟩ := z
    cases type <;> simp [tensorAt]
  have hnames : args.zipIdx.map (fun z => z.1.1) = args.map Prod.fst :=
    calc args.zipIdx.map (fun z => z.1.1) = (args.zipIdx.map Prod.fst).map Prod.fst := by rw [map_map]; rfl
      _ = args.map Prod.fst := by rw [zipIdx_map_fst]
  rw [h.inputs]
  exact (hnames ▸ hnd).sublist (map_flatMap_sublist hone args.zipIdx)

namespace Matched

variable {s : Signature} (h : Matched s f g) (hnd : (s.inputs.map TensorArg.name).Nodup)
include h hnd

/-- Under distinct names every argument keeps its place. -/
theorem tables : (g.saved = s.inputs.flatMap (savedAt f.inputs) ∧ g.saved.keys.Nodup) ∧
      (g.gradInputs = s.inputs.flatMap (gradAt f.outputs) ∧ g.gradInputs.keys.Nodup) := by
  have hsaved := hnd.sublist (map_flatMap_sublist (map_fst_savedAt f.inputs) s.inputs)
  have hgrads := hnd.sublist (map_flatMap_sublist (map_fst_gradAt f.outputs) s.inputs)
  rw [h.saved, h.gradInputs, ofList_of_nodup hsaved, ofList_of_nodup hgrads]
  exact ⟨⟨rfl, hsaved⟩, rfl, hgrads⟩

end Matched

/-! ## 4. Arguments in their places -/

theorem mem_savedAt :
    p ∈ savedAt inputs a ↔ stem? a.name = none ∧ p = (a.name, ⟨a.form, inputs.has a.name, a.position⟩) := by
  unfold savedAt
  split <;> simp_all

theorem mem_gradAt {outputs : Table String Slot} {p : String × GradSlot} :
    p ∈ gradAt outputs a ↔ ∃ n slot, stem? a.name = some n ∧ outputs.get? n = some slot ∧
      p = (a.name, ⟨a.form, slot.position, a.position⟩) := by
  simp only [gradAt, mem_map, Option.mem_toList, Option.bind_eq_some_iff]
  constructor
  · rintro ⟨slot, ⟨n, hn, hslot⟩, rfl⟩
    exact ⟨n, slot, hn, hslot, rfl⟩
  · rintro ⟨n, slot, hn, hslot, rfl⟩
    exact ⟨slot, ⟨n, hn, hslot⟩, rfl⟩

/-- Every argument whose tensor is known goes into exactly one table. -/
theorem length_savedAt_add_gradAt (h : Known inputs outputs a) :
    (savedAt inputs a).length + (gradAt outputs a).length = 1 := by
  unfold Known at h
  unfold savedAt gradAt
  split at h
  next n hn =>
    obtain ⟨slot, hslot⟩ := Option.isSome_iff_exists.mp h
    simp [hn, hslot]
  next hn => simp [hn]

/-- The variable that holds an argument in a node.  A tensor that may be absent is wrapped, unless it is a list of
gradients. -/
def nodeVariable (g : Gradient) (next : Option NextGradient) : String × ArgType → String
  | (name, .attr _) => name
  | (name, .tensor form) => tensorArgument g next name ((stem? name).isNone || form = .one)

/-- Where a tensor argument of a gradient operator is recorded: the gradient of an output with the position of the
output, any other argument as a saved tensor. -/
def Recorded (f : Function) (g : Gradient) (a : TensorArg) : Prop :=
  (∃ n p, n ≠ "" ∧ a.name = gradName n ∧ IsOutputAt f.stated.returns n p ∧
    g.gradInputs.get? a.name = some ⟨a.form, p, a.position⟩ ∧ g.saved.has a.name = false) ∨
  ((∀ n, n ≠ "" → a.name ≠ gradName n) ∧ (f.inputs.has a.name ∨ f.outputs.has a.name) ∧
    g.saved.get? a.name = some ⟨a.form, f.inputs.has a.name, a.position⟩ ∧ g.gradInputs.has a.name = false)

namespace Matched

variable {s : Signature} (h : Matched s f g) (hnd : (s.inputs.map TensorArg.name).Nodup)
include h hnd

theorem mem_saved :
    p ∈ g.saved ↔ ∃ a ∈ s.inputs, stem? a.name = none ∧ p = (a.name, ⟨a.form, f.inputs.has a.name, a.position⟩) := by
  simp [(h.tables hnd).1.1, mem_savedAt]

theorem mem_gradInputs {p : String × GradSlot} :
    p ∈ g.gradInputs ↔ ∃ a ∈ s.inputs, ∃ n slot, stem? a.name = some n ∧ f.outputs.get? n = some slot ∧
      p = (a.name, ⟨a.form, slot.position, a.position⟩) := by
  simp [(h.tables hnd).2.1, mem_gradAt]

theorem stem?_of_mem_gradInputs (hmem : name ∈ g.gradInputs.keys) : stem? name ≠ none := by
  obtain ⟨p, hp, rfl⟩ := mem_map.mp hmem
  obtain ⟨a, -, n, slot, hn, -, rfl⟩ := (h.mem_gradInputs hnd).mp hp
  exact Option.ne_none_iff_exists'.mpr ⟨n, hn⟩

theorem recorded {r : String} (houts : f.outputs = outputSlots f.stated.returns)
    (hreturns : readOutputs r = .ok f.stated.returns) (ha : a ∈ s.inputs) : Recorded f g a := by
  have hknown := h.known a ha
  unfold Known at hknown
  split at hknown
  next n hn =>
    obtain ⟨slot, hslot⟩ := Option.isSome_iff_exists.mp hknown
    obtain ⟨hne, hname⟩ := stem?_eq_some_iff.mp hn
    refine .inl ⟨n, slot.position, hne, hname, isOutputAt_of_get? hreturns (houts ▸ hslot), ?_, ?_⟩
    · exact get?_of_mem (h.tables hnd).2.2 ((h.mem_gradInputs hnd).mpr ⟨a, ha, n, slot, hn, hslot, rfl⟩)
    · rw [← Bool.not_eq_true, has_iff_mem_keys]
      intro hmem
      obtain ⟨p, hp, hpname⟩ := mem_map.mp hmem
      obtain ⟨b, -, hnone, rfl⟩ := (h.mem_saved hnd).mp hp
      rw [← hpname, hnone] at hn
      cases hn
  next hn =>
    refine .inr ⟨fun n hne hname => ?_, hknown, ?_, ?_⟩
    · rw [stem?_eq_some_iff.mpr ⟨hne, hname⟩] at hn
      cases hn
    · exact get?_of_mem (h.tables hnd).1.2 ((h.mem_saved hnd).mpr ⟨a, ha, hn, rfl⟩)
    · rw [← Bool.not_eq_true, has_iff_mem_keys]
      exact fun hmem => h.stem?_of_mem_gradInputs hnd hmem hn

/-- **The places are those of the arguments**, each with the variable of its argument. -/
theorem mem_positionedArguments (hread : ReadFrom args s.inputs s.attrs) {next : Option NextGradient} {k : Nat} {y : String} :
    (k, y) ∈ positionedArguments g next ↔ ∃ a, args[k]? = some a ∧ nodeVariable g next a = y := by
  simp only [positionedArguments, mem_append, mem_map, Prod.mk.injEq, h.attrs]
  constructor
  · rintro ((⟨p, hp, rfl, rfl⟩ | ⟨p, hp, rfl, rfl⟩) | ⟨a, ha, rfl, rfl⟩)
    · obtain ⟨a, ha, hn, rfl⟩ := (h.mem_saved hnd).mp hp
      exact ⟨_, hread.mem_inputs.mp ha, by simp [nodeVariable, hn]⟩
    · obtain ⟨a, ha, n, slot, hn, -, rfl⟩ := (h.mem_gradInputs hnd).mp hp
      exact ⟨_, hread.mem_inputs.mp ha, by simp [nodeVariable, hn]⟩
    · exact ⟨_, hread.exists_attr.mpr ⟨a, ha, rfl, rfl, rfl⟩, rfl⟩
  · rintro ⟨⟨name, type⟩, hat, rfl⟩
    cases type with
    | tensor form =>
      have ha : ⟨name, form, k⟩ ∈ s.inputs := hread.mem_inputs.mpr hat
      have hknown := h.known _ ha
      unfold Known at hknown
      split at hknown
      next n hn =>
        obtain ⟨slot, hslot⟩ := Option.isSome_iff_exists.mp hknown
        refine .inl (.inr ⟨_, (h.mem_gradInputs hnd).mpr ⟨_, ha, n, slot, hn, hslot, rfl⟩, rfl, ?_⟩)
        simp [nodeVariable, show stem? name = some n from hn]
      next hn =>
        refine .inl (.inl ⟨_, (h.mem_saved hnd).mpr ⟨_, ha, hn, rfl⟩, rfl, ?_⟩)
        simp [nodeVariable, show stem? name = none from hn]
    | attr type =>
      obtain ⟨a, ha, rfl, -, rfl⟩ := hread.exists_attr.mp hat
      exact .inr ⟨a, ha, rfl, rfl⟩

theorem length_eq (hread : ReadFrom args s.inputs s.attrs) :
    g.saved.length + g.gradInputs.length + g.attrs.length = args.length := by
  have htensors := length_flatMap_add (f := savedAt f.inputs) (g := gradAt f.outputs)
    fun a ha => length_savedAt_add_gradAt (h.known a ha)
  have hargs := hread.length_eq
  rw [(h.tables hnd).1.1, (h.tables hnd).2.1, h.attrs]
  omega

/-- **Every argument is passed in its place, and every place is filled once.** -/
theorem gradArguments_eq (hread : ReadFrom args s.inputs s.attrs) (next : Option NextGradient) :
    gradArguments g next = .ok (args.map fun a => some (nodeVariable g next a)) ∧
      ((positionedArguments g next).map Prod.fst).Perm (range args.length) := by
  have hmem {k : Nat} {y : String} :
      (k, y) ∈ positionedArguments g next ↔ ∃ a, args[k]? = some a ∧ nodeVariable g next a = y :=
    h.mem_positionedArguments hnd hread
  have hlt : ∀ x ∈ positionedArguments g next, x.1 < args.length := by
    intro x hx
    obtain ⟨a, ha, -⟩ := hmem.mp hx
    exact (lt_of_getElem? ha)
  have hcover : ∀ k < args.length, k ∈ (positionedArguments g next).map Prod.fst := by
    intro k hk
    exact mem_map.mpr ⟨(k, _), hmem.mpr ⟨_, getElem?_eq_getElem hk, rfl⟩, rfl⟩
  constructor
  · obtain ⟨ys, hys, hlen, hat⟩ := fill_covered hlt hcover
    have hvariables : ys = args.map (nodeVariable g next) := by
      refine ext_getElem (by rw [hlen, length_map]) fun k hk _ => ?_
      obtain ⟨a, ha, hy⟩ := hmem.mp (hat k _ (getElem?_eq_getElem hk))
      rw [getElem_map, ← hy, ← (List.getElem?_eq_some_iff.mp ha).2]
    rw [gradArguments, h.length_eq hnd hread, hys, hvariables, map_map]
    rfl
  · have hsubset : range args.length ⊆ (positionedArguments g next).map Prod.fst :=
      fun k hk => hcover k (mem_range.mp hk)
    have hlen : ((positionedArguments g next).map Prod.fst).length ≤ (range args.length).length := by
      have hcounts := h.length_eq hnd hread
      simp only [positionedArguments, length_map, length_append, length_range]
      omega
    exact ((subperm_of_subset nodup_range hsubset).perm_of_length_le hlen).symm

end Matched

/-! ## 5. Where the argument list ends -/

theorem firstSuffix?_blanks {α : Type} {f : List Char → Option α} (hf : ∀ {c cs}, isBlank c → f (c :: cs) = none)
    {l : List Char} (hl : ∀ c ∈ l, isBlank c) (cs : List Char) :
    firstSuffix? f (l ++ cs) = firstSuffix? f cs := by
  induction l with
  | nil => rfl
  | cons c l ih =>
    obtain ⟨hc, hl⟩ := forall_mem_cons.mp hl
    rw [cons_append, firstSuffix?, hf hc]
    exact ih hl

/-- What stands between a parenthesis and the closing one at the end of a line is read up to the first closing one. -/
theorem insideHere?_append {w : List Char} (hw : '\n' ∉ w) (r : List Char) :
    insideHere? ('(' :: (w ++ ')' :: r)) = some (.ofList (w.takeWhile (· != ')'))) := by
  obtain ⟨a, b, heq, hinit, hparen, hline⟩ : ∃ a b, w ++ ')' :: r = a ++ ')' :: b ∧
      a = w.takeWhile (· != ')') ∧ ')' ∉ a ∧ '\n' ∉ a := by
    by_cases hmem : ')' ∈ w
    · obtain ⟨a, b, rfl, ha⟩ := eq_append_cons_of_mem hmem
      refine ⟨a, b ++ ')' :: r, by simp, (takeWhile_ne_append ha).1.symm, ha, fun h => hw (by simp [h])⟩
    · exact ⟨w, r, rfl, (takeWhile_ne_of_notMem hmem).1.symm, hmem, hw⟩
  have hinner : (a ++ ')' :: b).takeWhile (fun c => c != ')' && c != '\n') = a :=
    (takeWhile_append_stop (fun c hc => by
      have hcp : c ≠ ')' := fun h => hparen (h ▸ hc)
      have hcl : c ≠ '\n' := fun h => hline (h ▸ hc)
      simp [hcp, hcl]) (by simp)).1
  rw [heq]
  simp [insideHere?, expect?, hinner, ← hinit]

/-- **The argument list of a gradient operator ends at the first closing parenthesis**, also where it goes on. -/
theorem firstSuffix?_insideHere? {s : String} (h : wholeInside? s = some whole) :
    firstSuffix? insideHere? s.toList = some (before ')' whole) := by
  unfold wholeInside? at h
  split at h
  next rest hrest =>
    split at h
    next hend =>
      obtain ⟨hlast, hline⟩ : rest.getLast? = some ')' ∧ '\n' ∉ rest := by simpa using hend
      obtain ⟨w, rfl⟩ : ∃ w, rest = w ++ [')'] := getLast?_eq_some_iff.mp hlast
      cases h
      obtain ⟨l, r, heq, hl⟩ := exists_eq_strip_append s
      have htext : s.toList = l ++ '(' :: (w ++ ')' :: r) := by simp [heq, hrest]
      have hblank : ∀ {c cs}, isBlank c → insideHere? (c :: cs) = none := by
        intro c cs hc
        have hne : c ≠ '(' := by
          rintro rfl
          exact absurd hc (by decide)
        simp [insideHere?, expect?, hne]
      rw [htext, firstSuffix?_blanks hblank hl]
      have hw : '\n' ∉ w := fun hmem => hline (mem_append_left _ hmem)
      rw [firstSuffix?_of_eq_some (insideHere?_append hw r), before, String.toList_ofList, dropLast_concat]
    · cases h
  · cases h

/-- The arguments of a gradient operator as far as they are read: up to the first closing parenthesis. -/
def gradItems? (g : Entry) : Option (List String) :=
  (g.args.bind fun s => firstSuffix? insideHere? s.toList).map fun s => splitStrip ',' (strip s)

/-- What is read of the written arguments: all before the first closing parenthesis, the last of them cut there. -/
theorem gradItems?_eq_some {g : Entry} {items : List String} (h : gradItems? g = some items)
    (hwhole : g.args.bind wholeInside? = some whole) :
    ∃ written, argItems? g = some written ∧ items.dropLast <+: written ∧ items.length ≤ written.length ∧
      (items.length = written.length ↔ ',' ∉ whole.toList.dropWhile (· != ')')) := by
  obtain ⟨s, hs, hinside⟩ := Option.bind_eq_some_iff.mp hwhole
  rw [gradItems?, hs, Option.bind_some, firstSuffix?_insideHere? hinside, Option.map_some] at h
  obtain rfl := Option.some.inj h
  refine ⟨splitStrip ',' (strip whole), by rw [argItems?, hwhole, Option.map_some], ?_⟩
  have hcomma : isBlank ',' = false := by decide
  have hparts : whole.toList = (before ')' whole).toList ++ whole.toList.dropWhile (· != ')') := by
    rw [before, String.toList_ofList, takeWhile_append_dropWhile]
  have hcount : whole.toList.count ',' = (before ')' whole).toList.count ',' +
      (whole.toList.dropWhile (· != ')')).count ',' := by
    rw [← count_append, ← hparts]
  rw [splitStrip_strip hcomma, splitStrip_strip hcomma, length_splitStrip, length_splitStrip, hcount]
  refine ⟨?_, by omega, ?_⟩
  · have hinit := dropLast_splitOn_isPrefix ',' (before ')' whole).toList (whole.toList.dropWhile (· != ')'))
    rw [← hparts] at hinit
    rw [splitStrip, splitStrip, split, split, ← map_dropLast, ← map_dropLast]
    exact (hinit.map _).map _
  · rw [← count_eq_zero]
    omega

theorem readOutputs_of_readSignature {s : Signature}
    (h : readSignature (some text) returns = .ok s) : readOutputs returns = .ok s.returns := by
  obtain ⟨lists, -, outputs, houts, h⟩ := of_bind₂_eq_ok h
  cases h
  exact houts

theorem readFrom_of_readBackward {g : Entry} {s : Signature} (hargs : g.args = some text)
    (h : readBackward text returns = .ok s) :
    ∃ items args, gradItems? g = some items ∧ items.map readItem? = args.map some ∧ ReadFrom args s.inputs s.attrs := by
  obtain ⟨inside, args, hinside, hread⟩ := readFrom_of_readSignature h
  exact ⟨_, args, by simp [gradItems?, hargs, hinside], hread⟩

/-- **A node calls its gradient operator with every argument that is read in its place; but there may be fewer than are
written.**  As many are read exactly if no comma follows a closing parenthesis inside the list. -/
theorem gradArguments_in_place {e g : Entry} {f : Function} (hf : Function.ofEntries e (some g) = .ok f) :
    ∃ (grad : Gradient) (items : List String) (args : List (String × ArgType)), f.gradient = some grad ∧
      gradItems? g = some items ∧ items.map readItem? = args.map some ∧ ((args.map Prod.fst).Nodup →
        (∀ (k : Nat) (name : String) (form : TensorForm), args[k]? = some (name, .tensor form) →
          Recorded f grad ⟨name, form, k⟩) ∧ ∀ next : Option NextGradient,
          gradArguments grad next = .ok (args.map fun a => some (nodeVariable grad next a)) ∧
          ((positionedArguments grad next).map Prod.fst).Perm (range args.length)) ∧
      ∀ whole, g.args.bind wholeInside? = some whole →
        ∃ written, argItems? g = some written ∧ items.dropLast <+: written ∧ items.length ≤ written.length ∧
          (items.length = written.length ↔ ',' ∉ whole.toList.dropWhile (· != ')')) := by
  obtain ⟨text, returns, s, grad, htext, hs, hgrad, houtputs, hmatched, -⟩ := matched_of_ofEntries hf
  obtain ⟨-, ⟨stext, sreturns, hstated⟩, -⟩ := signatures_of_ofEntries hf
  obtain ⟨items, args, hitems, hargs, hread⟩ := readFrom_of_readBackward htext hs
  refine ⟨grad, items, args, hgrad, hitems, hargs, fun hnd => ?_, fun whole => gradItems?_eq_some hitems⟩
  have hnames := hread.nodup_inputs hnd
  refine ⟨fun k name form hat => ?_, hmatched.gradArguments_eq hnames hread⟩
  exact hmatched.recorded hnames houtputs (readOutputs_of_readSignature hstated) (hread.mem_inputs.mpr hat)

/-- An operator with an attribute whose default is a call. -/
def placed : Entry where
  op := some "f"
  args := some "(Tensor x, Place place=CPUPlace(), float y=1.0)"
  output := some "Tensor(out)"
  backward := some "f_grad"
  fields := ["op", "args", "output", "backward"]

def placedGrad : Entry where
  backwardOp := some "f_grad"
  forward := some "f (Tensor x, Place place=CPUPlace(), float y=1.0) -> Tensor(out)"
  args := some "(Tensor x, Tensor out_grad, Place place=CPUPlace(), float y=1.0)"
  output := some "Tensor(x_grad)"
  fields := ["backward_op", "forward", "args", "output"]

/-- The last attribute is not passed. -/
theorem gradArguments_in_place_placed : ∃ (f : Function) (grad : Gradient) (written : List String),
    Function.ofEntries placed (some placedGrad) = .ok f ∧ f.gradient = some grad ∧
    argItems? placedGrad = some written ∧ written.length = 4 ∧ gradArguments grad none =
      .ok ([("x", .tensor .one), ("out_grad", .tensor .one), ("place", .attr "paddle::Place")].map fun a =>
        some (nodeVariable grad none a)) := by
  have hfunction : (Function.ofEntries placed (some placedGrad)).toOption.map (fun _ => ()) = some () := by
    decide +kernel
  have hitems : gradItems? placedGrad = some ["Tensor x", "Tensor out_grad", "Place place=CPUPlace("] := by
    decide +kernel
  have hwritten : argItems? placedGrad =
      some ["Tensor x", "Tensor out_grad", "Place place=CPUPlace()", "float y=1.0"] := by
    decide +kernel
  obtain ⟨f, hf, -⟩ := exists_of_map_toOption hfunction
  obtain ⟨grad, items, args, hgrad, hitems', hargs, hcalled, -⟩ := gradArguments_in_place hf
  obtain rfl := Option.some.inj (hitems.symm.trans hitems')
  obtain rfl : [("x", .tensor .one), ("out_grad", .tensor .one), ("place", .attr "paddle::Place")] = args := by
    have hread : ["Tensor x", "Tensor out_grad", "Place place=CPUPlace("].map readItem? =
        [("x", .tensor .one), ("out_grad", .tensor .one), ("place", .attr "paddle::Place")].map some := by
      decide +kernel
    exact map_injective_iff.mpr (Option.some_injective _) (hread.symm.trans hargs)
  obtain ⟨-, hpassed⟩ := hcalled (by decide)
  exact ⟨f, grad, _, hf, hgrad, hwritten, rfl, (hpassed none).1⟩

end TensorKit.Operator.Eager
