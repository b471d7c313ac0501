import TensorKit.Proofs.Operator.KeptArguments
/-!
# What is known of a public function that has been read

The generator of public functions looks names up in the tables of inputs and attributes, and asks of an input whether it
may be absent in two ways: by its form, and by the list of such inputs.  For a definition that the reader accepts
(`sound_of_ofEntry`)

* every input and every attribute has its entry, so no look-up of a name fails;
* the form of an input says that it may be absent exactly if the list does;
* an input that is overwritten is an input of the function, under a name without the sign `@`.

Each fact is a **step lemma** (`Described.addArg`, `addPair_values`) that `of_foldlM_eq_ok` carries along the list.
-/

namespace TensorKit.Operator.Api

open Text Pattern List

variable {α : Type} {word s mode : String}

/-! ## 1. Arguments -/

def InputForm.isOptional : InputForm → Bool
  | single | many => false
  | optionalSingle | optionalMany => true

/-- Every name is described by its table, and the form of an input fits the list of inputs that may be absent. -/
structure Described (optional : List String) (args : Inputs × Attrs) : Prop where
  input : ∀ n ∈ args.1.names, ∃ form, args.1.info.get? n = some form ∧ form.isOptional = optional.elem n
  attr : ∀ n ∈ args.2.names, ∃ info, args.2.info.get? n = some info

variable {op : String} {optional : List String} {acc acc' : Inputs × Attrs} {forms : InputForm × InputForm}
variable {inputs outputs : List String}

theorem isOptional_inputForms (h : inputForms.get? word = some forms) :
    forms.1.isOptional = false ∧ forms.2.isOptional := by
  have htable : ∀ p ∈ inputForms, p.2.1.isOptional = false ∧ p.2.2.isOptional := by decide
  exact htable _ (Table.mem_of_get?_eq_some h)

theorem Described.addInput {parts : List String} (hacc : Described optional acc)
    (hforms : forms.1.isOptional = false ∧ forms.2.isOptional)
    (h : addInput op optional forms parts acc = .ok acc') : Described optional acc' := by
  obtain ⟨word, -, _, -, h⟩ := of_bind₂_eq_ok h
  obtain ⟨_, -, h⟩ := of_bind_eq_ok h
  cases h
  refine ⟨fun n hn => ?_, hacc.attr⟩
  rw [Table.get?_set]
  by_cases heq : strip word = n
  · subst heq
    refine ⟨_, if_pos rfl, ?_⟩
    split
    next hopt => rw [hforms.2, hopt]
    next hopt => rw [hforms.1, Bool.eq_false_iff.mpr hopt]
  · rw [if_neg heq]
    rcases mem_append.mp hn with hn | hn
    · exact hacc.input n hn
    · exact absurd (mem_singleton.mp hn).symm heq

theorem exists_get?_set {ν : Type} {names : List String} {name n : String} {v : ν} {t : Table String ν}
    (hnames : ∀ n ∈ names, ∃ w, t.get? n = some w) (hn : n ∈ names ++ [name]) :
    ∃ w, (t.set name v).get? n = some w := by
  rw [Table.get?_set]
  by_cases heq : name = n
  · exact ⟨v, if_pos heq⟩
  · rw [if_neg heq]
    rcases mem_append.mp hn with hn | hn
    · exact hnames n hn
    · exact absurd (mem_singleton.mp hn).symm heq

theorem Described.addAttr {type rest : String} (hacc : Described optional acc)
    (h : addAttr op optional word type rest acc = .ok acc') : Described optional acc' := by
  obtain ⟨_, -, h⟩ := of_bind_eq_ok h
  split at h
  split at h <;>
  · obtain ⟨_, -, h⟩ := of_bind_eq_ok h
    cases h
    exact ⟨hacc.input, fun n hn => exists_get?_set hacc.attr hn⟩

/-- **Step lemma** of the reader: one more argument leaves every name described. -/
theorem Described.addArg (hacc : Described optional acc) (h : addArg op optional acc s = .ok acc') :
    Described optional acc' := by
  simp only [Api.addArg] at h
  split at h
  next forms hforms => exact hacc.addInput (isOptional_inputForms hforms) h
  · split at h
    · exact hacc.addAttr h
    · cases h
      exact hacc

theorem described_of_readArgs {args : Inputs × Attrs} (h : readArgs op s optional = .ok args) :
    Described optional args := by
  unfold readArgs at h
  split at h
  · exact of_foldlM_eq_ok (addArg op optional) (fun hacc h => Described.addArg hacc h) h ⟨by simp, by simp⟩
  · cases h

/-! ## 2. In-place pairs -/

theorem exists_of_firstSuffix? {f : List Char → Option α} {x : α} : ∀ {cs},
    firstSuffix? f cs = some x → ∃ r, f r = some x
  | [], h => ⟨[], h⟩
  | c :: cs, h => by
    unfold firstSuffix? at h
    split at h
    next a ha => exact ⟨c :: cs, ha.trans h⟩
    · exact exists_of_firstSuffix? h

theorem forall_of_run? {p : Char → Bool} {cs a r : List Char} (h : run? p cs = some (a, r)) : ∀ c ∈ a, p c := by
  unfold run? at h
  split at h
  · cases h
  next c a' ha =>
  obtain ⟨rfl, -⟩ := Prod.mk.inj (Option.some.inj h)
  rw [← ha]
  exact fun c hc => mem_takeWhile_imp hc

theorem isWord_of_pair? {a b : String} (h : pair? s = some (a, b)) : ∀ c ∈ a.toList, isWord c := by
  obtain ⟨cs, hcs⟩ := exists_of_firstSuffix? h
  unfold pairHere? at hcs
  obtain ⟨⟨input, rest⟩, hinput, hcs⟩ := Option.bind_eq_some_iff.mp hcs
  obtain ⟨rest', -, hcs⟩ := Option.bind_eq_some_iff.mp hcs
  obtain ⟨⟨output, rest''⟩, -, hcs⟩ := Option.bind_eq_some_iff.mp hcs
  obtain ⟨rfl, -⟩ := Prod.mk.inj (Option.some.inj hcs)
  simpa using forall_of_run? hinput

def IsOverwritten (inputs : List String) (n : String) : Prop := n ∈ inputs ∧ Naming.baseName n = n

/-- **Step lemma** of the pairs: one more pair stores the name of an input. -/
theorem addPair_values {t t' : Texts}
    (ht : ∀ p ∈ t, IsOverwritten inputs p.2) (h : addPair op mode inputs outputs t s = .ok t') :
    ∀ p ∈ t', IsOverwritten inputs p.2 := by
  unfold addPair at h
  split at h
  · cases h
  next input output hpair =>
  obtain ⟨_, hinput, _, -, h⟩ := of_bind₂_eq_ok h
  cases h
  intro p hp
  rcases Table.mem_of_mem_set hp with rfl | hp
  · refine ⟨elem_iff.mp (eq_true_of_ensure hinput), before_of_notMem fun hmem => ?_⟩
    have hword : isWord '@' = false := by decide
    simp [isWord_of_pair? hpair _ hmem] at hword
  · exact ht p hp

theorem isOverwritten_of_readPairs {s : Option String}
    {t : Texts} (h : readPairs op mode inputs outputs s = .ok t) :
    ∀ n ∈ t.values, IsOverwritten inputs n := by
  have hpairs : ∀ p ∈ t, IsOverwritten inputs p.2 := by
    cases s with
    | none =>
      cases h
      simp
    | some s =>
      exact of_foldlM_eq_ok (addPair op mode inputs outputs)
        (fun ht h => addPair_values ht h) h (by simp)
  exact forall_mem_map.mpr fun p hp => hpairs p hp

/-! ## 3. Whole functions -/

structure Sound (api : Api) : Prop where
  described : Described api.optional (api.inputs, api.attrs)
  overwritten : ∀ n ∈ api.inplace.values, IsOverwritten api.inputs.names n

/-- **What the reader of public functions guarantees.** -/
theorem sound_of_ofEntry {kind : Kind} {e : Entry} {api : Api} (h : ofEntry kind e = .ok api) :
    api.kind = kind ∧ Sound api := by
  simp only [ofEntry, bind_eq_ok_iff] at h
  obtain ⟨name, -, args, -, ⟨inputs, attrs⟩, hargs, output, -, outputs, -, body, -, h⟩ := h
  have hdescribed := described_of_readArgs hargs
  split at h
  · obtain ⟨forward, -, _, -, h⟩ := of_bind₂_eq_ok h
    cases h
    exact ⟨rfl, hdescribed, by simp [Table.values]⟩
  · obtain ⟨inplace, hinplace, view, -, h⟩ := of_bind₂_eq_ok h
    cases h
    exact ⟨rfl, hdescribed, isOverwritten_of_readPairs hinplace⟩

end TensorKit.Operator.Api
