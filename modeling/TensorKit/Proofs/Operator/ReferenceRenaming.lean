import Mathlib.Data.List.Nodup
import TensorKit.Operator.Rename
import TensorKit.Proofs.Traversal
/-!
# References after a renaming

The parameters of a kernel, the parameters of a shape rule and the arguments that select a kernel are lists of names of
inputs and attributes.  When an operator and its gradient operator get new names, these references have to follow.

* In the forward operator all new names stand in one table (`RenameEntry.args`).
* In the gradient operator that table grows while the inputs and outputs are renamed: a gradient `x_grad` enters it when
  it is met.  It never contradicts the names one expects (`RenameEntry.newName`), and it has all names it should have by
  the time the references are rewritten (`Extends`, `Agrees`).

New names that are fresh and pairwise distinct keep different names different (`GradientPair.newName_inj`), so that a
reference that has followed names the item it named before and no other (`Follows`).  `applyRenames_references` says so
of all reference lists but one: the inputs of the *forward* operator whose contents are not needed keep their old names.
-/

namespace TensorKit.Operator

open Naming List Definition RenameEntry Table Input

variable {lists : List (Option (List Param))}
variable {g : String → String} {body : Body} {n v n' a : String} {r : RenameEntry} {m : Texts}

/-! ## 1. References -/

def Param.mapName (g : String → String) : Param → Param
  | .name n => .name (g n)
  | .literal v => .literal v

/-- An entry is one of some names, or a literal that can be looked up. -/
def Param.Resolves (names : List String) : Param → Prop
  | .name n => n ∈ names
  | .literal v => v.isKey

instance (names : List String) : (p : Param) → Decidable (p.Resolves names)
  | .name n => inferInstanceAs (Decidable (n ∈ names))
  | .literal v => inferInstanceAs (Decidable (v.isKey))

/-- An entry after a renaming is about the positions that it was about before: the names of the items are given before
and after. -/
inductive Param.Follows (names names' : List String) : Param → Param → Prop
  | name {n n' : String} (found : n ∈ names) (same : ∀ k : Nat, names[k]? = some n ↔ names'[k]? = some n') :
      Follows names names' (.name n) (.name n')
  | literal (v : Value) : Follows names names' (.literal v) (.literal v)

def asReferences (names : Option (List String)) : Option (List Param) := names.map (map Param.name)

def Body.references : Body → List (Option (List Param))
  | .kernel rule k _ => [k.param, rule.param, asReferences (k.dataType.map Candidates.names),
      asReferences (k.backend.map Candidates.names), asReferences (k.layout.map Candidates.names)]
  | .invoke _ => []

def Definition.itemNames (d : Definition) : List String := d.inputNames ++ d.attrNames

def Definition.names (d : Definition) : List String := d.inputNames ++ d.attrNames ++ d.outputNames

def AllResolve (names : List String) (lists : List (Option (List Param))) : Prop :=
  ∀ list ∈ lists, ∀ ps ∈ list, ∀ p ∈ ps, p.Resolves names

instance (names : List String) (lists : List (Option (List Param))) : Decidable (AllResolve names lists) :=
  inferInstanceAs (Decidable (∀ list ∈ lists, ∀ ps ∈ list, ∀ p ∈ ps, p.Resolves names))

def AllFollow (names names' : List String) : List (Option (List Param)) → List (Option (List Param)) → Prop :=
  Forall₂ (Option.Rel (Forall₂ (Param.Follows names names')))

def mapNames (g : String → String) : List (Option (List Param)) → List (Option (List Param)) :=
  map (Option.map (map (Param.mapName g)))

variable {names : List String}

theorem Param.Resolves.follows (hg : ∀ a ∈ names, ∀ b ∈ names, g a = g b → a = b) {p : Param} (h : p.Resolves names) :
    p.Follows names (names.map g) (p.mapName g) := by
  cases p with
  | literal v => exact .literal v
  | name n =>
    refine .name h fun k => ?_
    rw [getElem?_map, Option.map_eq_some_iff]
    constructor
    · exact fun hk => ⟨n, hk, rfl⟩
    · rintro ⟨a, ha, hga⟩
      rw [ha, hg a (mem_of_getElem? ha) n h hga]

theorem AllResolve.follow (hg : ∀ a ∈ names, ∀ b ∈ names, g a = g b → a = b)
    (h : AllResolve names lists) : AllFollow names (names.map g) lists (mapNames g lists) := by
  rw [AllFollow, mapNames, forall₂_map_right_iff, forall₂_same]
  intro list hlist
  cases list with
  | none => exact .none
  | some ps =>
    refine .some ?_
    rw [forall₂_map_right_iff, forall₂_same]
    exact fun p hp => (h _ hlist ps rfl p hp).follows hg

/-- Renaming by two functions that agree on the items gives the same lists. -/
theorem AllResolve.mapNames_congr {g' : String → String} (hg : ∀ n ∈ names, g n = g' n)
    (h : AllResolve names lists) : mapNames g lists = mapNames g' lists := by
  refine map_congr_left fun list hlist => ?_
  cases list with
  | none => rfl
  | some ps =>
    refine congrArg some (map_congr_left fun p hp => ?_)
    have hp := h _ hlist ps rfl p hp
    cases p with
    | literal v => rfl
    | name n => exact congrArg Param.name (hg n hp)

/-! ## 2. Rewriting the references of a definition -/

theorem renamedParams_eq_ok (m : Texts) {list : Option (List Param)}
    (h : ∀ ps ∈ list, ∀ p ∈ ps, p.Resolves names) :
    renamedParams m list = .ok (list.map (map (Param.mapName (renamed m)))) := by
  cases list with
  | none => rfl
  | some ps =>
    have hone : ∀ p ∈ ps, Param.renamed m p = .ok (p.mapName (renamed m)) := by
      intro p hp
      cases p with
      | name n => rfl
      | literal v => exact if_pos (h ps rfl _ hp)
    rw [renamedParams, mapM_eq_ok hone]
    rfl

theorem asReferences_map (g : String → String) (names : Option (List String)) :
    asReferences (names.map (map g)) = (asReferences names).map (map (Param.mapName g)) := by
  cases names with
  | none => rfl
  | some ns => simp [asReferences, Param.mapName]

theorem names_renamed (m : Texts) (c : Option Candidates) :
    (c.map (Candidates.renamed m)).map Candidates.names = (c.map Candidates.names).map (map (renamed m)) := by
  cases c <;> rfl

theorem exists_renamed_kernel (m : Texts) {rule : InferMetaEntry} {kernel : Kernel}
    {inplace : Option Texts} (h : AllResolve names (Body.kernel rule kernel inplace).references) :
    ∃ rule' kernel', rule.renamed m = .ok rule' ∧ kernel.renamed m = .ok kernel' ∧
      ∀ t, (Body.kernel rule' kernel' t).references =
        mapNames (renamed m) (Body.kernel rule kernel inplace).references := by
  have hkernel := renamedParams_eq_ok m (h kernel.param (by simp [Body.references]))
  have hrule := renamedParams_eq_ok m (h rule.param (by simp [Body.references]))
  refine ⟨_, _, by rw [InferMetaEntry.renamed, hrule]; rfl, by rw [Kernel.renamed, hkernel]; rfl, fun t => ?_⟩
  simp only [Body.references, names_renamed, asReferences_map]
  rfl

def Body.HasKernel (body : Body) : Prop := ∃ rule kernel inplace, body = .kernel rule kernel inplace

theorem Body.exists_renamed (m : Texts) (hbody : body.HasKernel)
    (h : AllResolve names body.references) :
    (∃ body', body.renamed m = .ok body' ∧ body'.references = mapNames (Operator.renamed m) body.references) ∧
      ∃ body', body.renamedBackward m = .ok body' ∧
        body'.references = mapNames (Operator.renamed m) body.references := by
  obtain ⟨rule, kernel, inplace, rfl⟩ := hbody
  obtain ⟨rule', kernel', hrule, hkernel, hrefs⟩ := exists_renamed_kernel m h
  exact ⟨⟨_, by rw [Body.renamed, hrule, hkernel]; rfl, hrefs _⟩,
    _, by rw [Body.renamedBackward, hrule, hkernel]; rfl, hrefs _⟩

/-! ## 3. New names -/

/-- The name an argument should have: the one that is given for it, or for a gradient the one that is given for its
variable, with the ending of gradients. -/
def RenameEntry.newName (r : RenameEntry) (n : String) : String := (r.args.get? n).getD ((gradRenamed? r.args n).getD n)

def RenameEntry.pairs (r : RenameEntry) : Texts := r.inputs.getD [] ++ r.attrs.getD [] ++ r.outputs.getD []

/-- A forward definition and its gradient definition, with arguments named after one another and all references
resolved. -/
structure GradientPair (f b : Definition) : Prop where
  forwardKernel : f.body.HasKernel
  backwardKernel : b.body.HasKernel
  nodup : f.names.Nodup
  forwardPlain : ∀ n ∈ f.names, isGradName n = false
  attrPlain : ∀ n ∈ b.attrNames, isGradName n = false
  inputs : ∀ n ∈ b.inputNames, n ∈ f.inputNames ∨ n ∈ f.outputNames ∨ ∃ o ∈ f.outputNames, n = gradName o
  outputs : ∀ n ∈ b.outputNames, ∃ x ∈ f.inputNames, n = gradName x
  forwardResolves : AllResolve f.itemNames (asReferences f.noNeedBuffer :: f.body.references)
  backwardResolves : AllResolve b.itemNames (asReferences b.noNeedBuffer :: b.body.references)

/-- A renaming gives some arguments of a forward definition new names that are pairwise distinct and stand nowhere
yet. -/
structure RenameEntry.Fresh (r : RenameEntry) (f b : Definition) : Prop where
  inputs : (r.inputs.getD []).keys ⊆ f.inputNames
  attrs : (r.attrs.getD []).keys ⊆ f.attrNames
  outputs : (r.outputs.getD []).keys ⊆ f.outputNames
  once : r.pairs.keys.Nodup
  distinct : r.pairs.values.Nodup
  fresh : ∀ v ∈ r.pairs.values, v ∉ f.names ∧ v ∉ b.names
  plain : ∀ v ∈ r.pairs.values, isGradName v = false

theorem gradRenamed?_of_plain (m : Texts) (h : isGradName n = false) : gradRenamed? m n = none := by
  simp [gradRenamed?, forwardName?, h]

theorem gradRenamed?_gradName (m : Texts) (a : String) :
    gradRenamed? m (gradName a) = (m.get? a).map gradName := by
  rw [gradRenamed?, forwardName?_gradName]

theorem RenameEntry.newName_of_plain (r : RenameEntry) (h : isGradName n = false) : r.newName n = renamed r.args n := by
  rw [newName, gradRenamed?_of_plain _ h]
  rfl

section Fresh

variable {f b : Definition}

/-- The tables of a renaming have no key in common, so that together they are one table as they stand. -/
theorem RenameEntry.Fresh.args_eq (h : r.Fresh f b) : r.args = r.pairs := by
  have hinner : (keys (r.inputs.getD [] ++ r.attrs.getD [])).Nodup := h.once.sublist ((sublist_append_left _ _).map _)
  have hfirst : (keys ([] ++ r.inputs.getD [])).Nodup := hinner.sublist ((sublist_append_left _ _).map _)
  rw [args, update_of_nodup hfirst, nil_append, update_of_nodup hinner,
    update_of_nodup h.once]
  rfl

theorem RenameEntry.Fresh.get?_args (h : r.Fresh f b) : r.args.get? n = some v ↔ (n, v) ∈ r.pairs := by
  rw [h.args_eq]
  exact ⟨mem_of_get?_eq_some, get?_of_mem h.once⟩

theorem RenameEntry.Fresh.key_mem (h : r.Fresh f b) (hn : r.args.get? n = some v) : n ∈ f.names := by
  have hmem := h.get?_args.mp hn
  rw [pairs, mem_append, mem_append] at hmem
  rw [names, mem_append, mem_append]
  have hkey : ∀ {t : Texts}, (n, v) ∈ t → n ∈ t.keys := fun ht => mem_map_of_mem ht
  exact hmem.imp (Or.imp (fun ht => h.inputs (hkey ht)) fun ht => h.attrs (hkey ht)) fun ht => h.outputs (hkey ht)

theorem RenameEntry.Fresh.value_mem (h : r.Fresh f b) (hn : r.args.get? n = some v) :
    v ∈ r.pairs.values :=
  mem_map_of_mem (h.get?_args.mp hn)

theorem GradientPair.disjoint (hp : GradientPair f b) (n : String) : ¬ (n ∈ f.inputNames ∧ n ∈ f.attrNames) ∧
    ¬ (n ∈ f.inputNames ∧ n ∈ f.outputNames) ∧ ¬ (n ∈ f.attrNames ∧ n ∈ f.outputNames) := by
  have hnd := hp.nodup
  simp only [names, nodup_append, mem_append] at hnd
  obtain ⟨⟨-, -, hia⟩, -, ho⟩ := hnd
  exact ⟨fun hn => hia n hn.1 n hn.2 rfl, fun hn => ho n (.inl hn.1) n hn.2 rfl, fun hn => ho n (.inr hn.1) n hn.2 rfl⟩

/-- Different names of the two definitions that are no gradients' stay different. -/
theorem RenameEntry.Fresh.renamed_inj (hr : r.Fresh f b) (hn : n ∈ f.names ++ b.names)
    (hn' : n' ∈ f.names ++ b.names) (heq : renamed r.args n = renamed r.args n') : n = n' := by
  have hnew : ∀ {k v}, r.args.get? k = some v → ∀ {a}, a ∈ f.names ++ b.names → v ≠ a := by
    rintro k v hk a ha rfl
    obtain ⟨hf, hb⟩ := hr.fresh v (hr.value_mem hk)
    exact (mem_append.mp ha).elim hf hb
  rw [renamed, renamed] at heq
  cases hv : r.args.get? n with
  | none =>
    cases hv' : r.args.get? n' with
    | none => simpa [hv, hv'] using heq
    | some v' =>
      simp only [hv, hv', Option.getD_none, Option.getD_some] at heq
      exact absurd heq.symm (hnew hv' hn)
  | some v =>
    cases hv' : r.args.get? n' with
    | none =>
      simp only [hv, hv', Option.getD_none, Option.getD_some] at heq
      exact absurd heq (hnew hv hn')
    | some v' =>
      simp only [hv, hv', Option.getD_some] at heq
      have hsame := inj_on_of_nodup_map hr.distinct (hr.get?_args.mp hv) (hr.get?_args.mp hv') heq
      exact congrArg Prod.fst hsame

theorem RenameEntry.Fresh.isGradName_renamed (hr : r.Fresh f b) (hn : isGradName n = false) :
    isGradName (renamed r.args n) = false := by
  rw [renamed]
  cases hv : r.args.get? n with
  | none => exact hn
  | some v => exact hr.plain v (hr.value_mem hv)

variable (hp : GradientPair f b) (hr : r.Fresh f b)
include hp hr

theorem GradientPair.newName_of_grad (hn : isGradName n) : r.newName n = (gradRenamed? r.args n).getD n := by
  rw [newName]
  cases hv : r.args.get? n with
  | none => rfl
  | some v =>
    rw [hp.forwardPlain n (hr.key_mem hv)] at hn
    cases hn

theorem GradientPair.newName_gradName (a : String) : r.newName (gradName a) = gradName (renamed r.args a) := by
  rw [hp.newName_of_grad hr (isGradName_gradName a), gradRenamed?_gradName, renamed]
  cases r.args.get? a <;> rfl

omit hr in
/-- Every name of the two definitions is no gradient's, or belongs to the gradient of a forward argument. -/
theorem GradientPair.plain_or_gradient (hn : n ∈ f.names ++ b.names) :
    isGradName n = false ∨ ∃ a ∈ f.names, n = gradName a := by
  have hmem : ∀ {a}, a ∈ f.inputNames ∨ a ∈ f.outputNames → a ∈ f.names := by
    intro a ha
    rw [names, mem_append, mem_append]
    exact ha.imp .inl id
  rcases mem_append.mp hn with hn | hn
  · exact .inl (hp.forwardPlain n hn)
  · rw [names, mem_append, mem_append] at hn
    rcases hn with (hn | hn) | hn
    · rcases hp.inputs n hn with hn | hn | ⟨o, ho, rfl⟩
      · exact .inl (hp.forwardPlain n (hmem (.inl hn)))
      · exact .inl (hp.forwardPlain n (hmem (.inr hn)))
      · exact .inr ⟨o, hmem (.inr ho), rfl⟩
    · exact .inl (hp.attrPlain n hn)
    · obtain ⟨x, hx, rfl⟩ := hp.outputs n hn
      exact .inr ⟨x, hmem (.inl hx), rfl⟩

theorem GradientPair.newName_inj (hn : n ∈ f.names ++ b.names) (hn' : n' ∈ f.names ++ b.names)
    (heq : r.newName n = r.newName n') : n = n' := by
  -- an old or new name that is no gradient's never is the new name of a gradient
  have hapart : ∀ {k a}, isGradName k = false → r.newName k ≠ r.newName (gradName a) := by
    intro k a hk hsame
    have hplain := hr.isGradName_renamed hk
    rw [← r.newName_of_plain hk, hsame, hp.newName_gradName hr, isGradName_gradName] at hplain
    cases hplain
  rcases hp.plain_or_gradient hn with hplain | ⟨a, ha, rfl⟩ <;>
    rcases hp.plain_or_gradient hn' with hplain' | ⟨a', ha', rfl⟩
  · rw [r.newName_of_plain hplain, r.newName_of_plain hplain'] at heq
    exact hr.renamed_inj hn hn' heq
  · exact absurd heq (hapart hplain)
  · exact absurd heq.symm (hapart hplain')
  · rw [hp.newName_gradName hr, hp.newName_gradName hr] at heq
    rw [hr.renamed_inj (mem_append_left _ ha) (mem_append_left _ ha') (gradName_inj heq)]

end Fresh

/-! ## 4. The table that grows -/

/-- A table of new names that may have entries for gradients besides those that were given. -/
structure Extends (r : RenameEntry) (m : Texts) : Prop where
  plain : ∀ n, isGradName n = false → m.get? n = r.args.get? n
  sound : ∀ {n v}, m.get? n = some v → r.newName n = v

def Agrees (r : RenameEntry) (m : Texts) (n : String) : Prop := renamed m n = r.newName n

/-- What may happen to a table when some arguments are renamed. -/
structure Grows (r : RenameEntry) (names : List String) (m m' : Texts) : Prop where
  sound : Extends r m'
  agrees : ∀ n ∈ names, Agrees r m' n
  keeps : ∀ n, Agrees r m n → Agrees r m' n

theorem Extends.agrees_of_plain (h : Extends r m) (hn : isGradName n = false) : Agrees r m n := by
  rw [Agrees, r.newName_of_plain hn, renamed, renamed, h.plain n hn]

theorem Extends.agrees_of_newName_eq (h : Extends r m) (hn : r.newName n = n) : Agrees r m n := by
  rw [Agrees, renamed]
  cases hget : m.get? n with
  | none => exact hn.symm
  | some v => exact (h.sound hget).symm

theorem Extends.grows_refl (h : Extends r m) (hn : Agrees r m n) : Grows r [n] m m :=
  ⟨h, fun _ hk => mem_singleton.mp hk ▸ hn, fun _ => id⟩

/-- A gradient may be entered with the name it should get. -/
theorem Extends.grows_set (h : Extends r m) (hn : isGradName n) : Grows r [n] m (m.set n (r.newName n)) := by
  have hget : ∀ k, (m.set n (r.newName n)).get? k = if n = k then some (r.newName n) else m.get? k :=
    fun k => get?_set n k _ m
  have hself : Agrees r (m.set n (r.newName n)) n := by rw [Agrees, renamed, hget, if_pos rfl, Option.getD_some]
  refine ⟨⟨?_, ?_⟩, fun _ hk => mem_singleton.mp hk ▸ hself, ?_⟩
  · intro k hk
    have hne : n ≠ k := by
      rintro rfl
      rw [hk] at hn
      cases hn
    rw [hget, if_neg hne, h.plain k hk]
  · intro k v hk
    rw [hget] at hk
    split at hk
    next heq => rw [← heq, Option.some.inj hk]
    · exact h.sound hk
  · intro k hk
    by_cases heq : n = k
    · exact heq ▸ hself
    · rwa [Agrees, renamed, hget, if_neg heq]

/-- **Run lemma.**  A loop that renames every item as it should be renamed, and lets the table grow. -/
theorem foldl_grows {α : Type} (step : Texts × List α → α → Texts × List α)
    (name : α → String) (put : α → α) {xs : List α}
    (hstep : ∀ x ∈ xs, ∀ {m}, Extends r m → ∀ done : List α,
      ∃ m', step (m, done) x = (m', done ++ [put x]) ∧ Grows r [name x] m m') (h : Extends r m) (done : List α) :
    ∃ m', xs.foldl step (m, done) = (m', done ++ xs.map put) ∧ Grows r (xs.map name) m m' := by
  induction xs generalizing m done with
  | nil => exact ⟨m, by simp, h, by simp, fun _ => id⟩
  | cons x xs ih =>
    obtain ⟨mid, hmid, hfirst⟩ := hstep x mem_cons_self h done
    obtain ⟨m', hm', hrest⟩ := ih (fun y hy => hstep y (.tail _ hy)) hfirst.sound (done ++ [put x])
    refine ⟨m', ?_, hrest.sound, ?_, fun n hn => hrest.keeps n (hfirst.keeps n hn)⟩
    · rw [foldl_cons, hmid, hm', map_cons, append_assoc]
      rfl
    · intro n hn
      rcases mem_cons.mp hn with rfl | hn
      · exact hrest.keeps _ (hfirst.agrees _ (mem_singleton_self _))
      · exact hrest.agrees n hn

/-! ## 5. Renaming the two definitions -/

structure Renames (r : RenameEntry) (d d' : Definition) : Prop where
  inputs : d'.inputNames = d.inputNames.map r.newName
  attrs : d'.attrNames = d.attrNames.map r.newName
  outputs : d'.outputNames = d.outputNames.map r.newName

theorem Renames.items {d d' : Definition} (h : Renames r d d') :
    d'.itemNames = d.itemNames.map r.newName := by
  rw [itemNames, h.inputs, h.attrs, ← map_append, itemNames]

def Input.put (r : RenameEntry) (i : Input) : Input := { i with arg := { i.arg with name := r.newName i.arg.name } }

def Output.put (r : RenameEntry) (o : Output) : Output := { o with arg := { o.arg with name := r.newName o.arg.name } }

section Definitions

variable {f b : Definition} (hp : GradientPair f b) (hr : r.Fresh f b)
include hp hr

/-- A table that has grown knows the new name of a gradient, whether or not it has met it. -/
theorem GradientPair.newName_of_extends (h : Extends r m) (ha : a ∈ f.names) :
    r.newName (gradName a) = (gradRenamed? m (gradName a)).getD (gradName a) := by
  rw [hp.newName_of_grad hr (isGradName_gradName a), gradRenamed?_gradName, gradRenamed?_gradName,
    h.plain a (hp.forwardPlain a ha)]

/-- **Step lemma** for inputs. -/
theorem GradientPair.renameBackwardInput_eq (h : Extends r m) {i : Input}
    (hi : i.arg.name ∈ f.names ++ b.names) (done : List Input) :
    ∃ m', renameBackwardInput (m, done) i = (m', done ++ [i.put r]) ∧ Grows r [i.arg.name] m m' := by
  rw [renameBackwardInput]
  cases hget : m.get? i.arg.name with
  | some v =>
    have hname := h.sound hget
    refine ⟨m, by simp [put, hname], h.grows_refl ?_⟩
    rw [Agrees, renamed, hget, hname, Option.getD_some]
  | none =>
    rcases hp.plain_or_gradient hi with hplain | ⟨a, ha, hgrad⟩
    · have hagrees := h.agrees_of_plain hplain
      have hname : r.newName i.arg.name = i.arg.name := by rw [← hagrees, renamed, hget, Option.getD_none]
      exact ⟨m, by simp [gradRenamed?_of_plain m hplain, put, hname], h.grows_refl hagrees⟩
    · have hname := hp.newName_of_extends hr h ha
      rw [← hgrad] at hname
      cases hnew : gradRenamed? m i.arg.name with
      | some v =>
        rw [hnew, Option.getD_some] at hname
        exact ⟨m.set i.arg.name v, by simp [put, hname], hname ▸ h.grows_set (hgrad ▸ isGradName_gradName a)⟩
      | none =>
        rw [hnew, Option.getD_none] at hname
        exact ⟨m, by simp [put, hname], h.grows_refl (h.agrees_of_newName_eq hname)⟩

/-- **Step lemma** for outputs, all of which are gradients. -/
theorem GradientPair.renameBackwardOutput_eq (h : Extends r m) {o : Output}
    (ho : o.arg.name ∈ b.outputNames) (done : List Output) :
    ∃ m', renameBackwardOutput (m, done) o = (m', done ++ [o.put r]) ∧ Grows r [o.arg.name] m m' := by
  obtain ⟨x, hx, hgrad⟩ := hp.outputs _ ho
  have hname := hp.newName_of_extends hr h (mem_append_left _ (mem_append_left _ hx))
  rw [← hgrad] at hname
  rw [renameBackwardOutput]
  cases hnew : gradRenamed? m o.arg.name with
  | some v =>
    rw [hnew, Option.getD_some] at hname
    exact ⟨m.set o.arg.name v, by simp [Output.put, hname], hname ▸ h.grows_set (hgrad ▸ isGradName_gradName x)⟩
  | none =>
    rw [hnew, Option.getD_none] at hname
    exact ⟨m, by simp [Output.put, hname], h.grows_refl (h.agrees_of_newName_eq hname)⟩

theorem GradientPair.exists_renameBackward (call : Option (Option ForwardCall)) :
    ∃ b', { b with forward := call }.renameBackward r = .ok b' ∧ Renames r b b' ∧
      AllFollow b.itemNames b'.itemNames (asReferences b.noNeedBuffer :: b.body.references)
        (asReferences b'.noNeedBuffer :: b'.body.references) := by
  have hinput : ∀ i ∈ b.inputs, i.arg.name ∈ f.names ++ b.names := fun i hi =>
    mem_append_right _ (mem_append_left _ (mem_append_left _ (mem_map_of_mem hi)))
  obtain ⟨m₁, hins, hgrow₁⟩ := foldl_grows renameBackwardInput (fun i => i.arg.name) (put r)
    (fun i hi _ h done => hp.renameBackwardInput_eq hr h (hinput i hi) done)
    ⟨fun _ _ => rfl, fun hn => by simp [newName, hn]⟩ []
  obtain ⟨m₂, houts, hgrow₂⟩ := foldl_grows renameBackwardOutput (fun o => o.arg.name) (Output.put r)
    (fun o ho _ h done => hp.renameBackwardOutput_eq hr h (mem_map_of_mem ho) done) hgrow₁.sound []
  -- the items that references are about have entered the table by the time they are rewritten
  have hitems : ∀ n ∈ b.itemNames, renamed m₂ n = r.newName n := by
    intro n hn
    rcases mem_append.mp hn with hn | hn
    · exact hgrow₂.keeps n (hgrow₁.agrees n hn)
    · exact hgrow₂.sound.agrees_of_plain (hp.attrPlain n hn)
  have hresolve : AllResolve b.itemNames b.body.references := fun list hlist => hp.backwardResolves list (.tail _ hlist)
  obtain ⟨body', hbody, hrefs⟩ := (Body.exists_renamed m₂ hp.backwardKernel hresolve).2
  have hnames : Renames r b { b with
      inputs := b.inputs.map (put r), attrs := b.attrs.map (Arg.renamed (some m₁)),
      outputs := b.outputs.map (Output.put r), body := body',
      noNeedBuffer := b.noNeedBuffer.map (map (renamed m₂)), forward := call } := by
    refine ⟨by simp [inputNames, put], ?_, by simp [outputNames, Output.put]⟩
    simp only [attrNames, map_map]
    exact map_congr_left fun a ha => hgrow₁.sound.agrees_of_plain (hp.attrPlain a.name (mem_map_of_mem ha))
  refine ⟨_, ?_, hnames, ?_⟩
  · simp only [renameBackward, hins, houts, hbody, nil_append]
    rfl
  · rw [hnames.items, hrefs, asReferences_map]
    have hinj : ∀ a ∈ b.itemNames, ∀ c ∈ b.itemNames, r.newName a = r.newName c → a = c := fun a ha c hc =>
      hp.newName_inj hr (mem_append_right _ (mem_append_left _ ha))
        (mem_append_right _ (mem_append_left _ hc))
    have hfollow := hp.backwardResolves.follow hinj
    rwa [← hp.backwardResolves.mapNames_congr hitems] at hfollow

/-- Each of the three tables gives the arguments of its kind the new names that all of them together give. -/
theorem GradientPair.renamed_tables (n : String) : (n ∈ f.inputNames → renamed (r.inputs.getD []) n = r.newName n) ∧
    (n ∈ f.attrNames → renamed (r.attrs.getD []) n = r.newName n) ∧
    (n ∈ f.outputNames → renamed (r.outputs.getD []) n = r.newName n) := by
  obtain ⟨hia, hio, hao⟩ := hp.disjoint n
  have hnone : ∀ {t : Texts} {ns}, t.keys ⊆ ns → n ∉ ns → t.get? n = none := fun ht hn =>
    Option.not_isSome_iff_eq_none.mp fun h => hn (ht ((has_iff_mem_keys _ _).mp h))
  have hnew : n ∈ f.names → r.newName n = renamed r.pairs n := fun hn => by
    rw [r.newName_of_plain (hp.forwardPlain n hn), hr.args_eq]
  simp only [names, mem_append, renamed, pairs, get?_append] at hnew
  refine ⟨fun hn => ?_, fun hn => ?_, fun hn => ?_⟩
  · rw [hnew (.inl (.inl hn)), hnone hr.attrs fun h => hia ⟨hn, h⟩, hnone hr.outputs fun h => hio ⟨hn, h⟩]
    simp [renamed]
  · rw [hnew (.inl (.inr hn)), hnone hr.inputs fun h => hia ⟨h, hn⟩, hnone hr.outputs fun h => hao ⟨hn, h⟩]
    simp [renamed]
  · rw [hnew (.inr hn), hnone hr.inputs fun h => hio ⟨h, hn⟩, hnone hr.attrs fun h => hao ⟨h, hn⟩]
    rfl

/-- The forward definition can be renamed.  Its references follow, except that the inputs whose contents are not needed
keep their names. -/
theorem GradientPair.exists_renameForward (backward : Option String) :
    ∃ f', { f with backward := backward }.renameForward r = .ok f' ∧ Renames r f f' ∧
      AllFollow f.itemNames f'.itemNames f.body.references f'.body.references ∧ f'.noNeedBuffer = f.noNeedBuffer := by
  have hagree : ∀ n ∈ f.itemNames, renamed r.args n = r.newName n := fun n hn =>
    (r.newName_of_plain (hp.forwardPlain n (mem_append_left _ hn))).symm
  have hresolve : AllResolve f.itemNames f.body.references := fun list hlist => hp.forwardResolves list (.tail _ hlist)
  obtain ⟨body', hbody, hrefs⟩ := (Body.exists_renamed r.args hp.forwardKernel hresolve).1
  have hnames : Renames r f { f with
      inputs := f.inputs.map fun i => { i with arg := i.arg.renamed r.inputs },
      attrs := f.attrs.map (Arg.renamed r.attrs),
      outputs := f.outputs.map fun o => { o with arg := o.arg.renamed r.outputs }, body := body',
      backward := backward } := by
    constructor
    · simp only [inputNames, map_map]
      exact map_congr_left fun i hi => (hp.renamed_tables hr i.arg.name).1 (mem_map_of_mem hi)
    · simp only [attrNames, map_map]
      exact map_congr_left fun a ha => (hp.renamed_tables hr a.name).2.1 (mem_map_of_mem ha)
    · simp only [outputNames, map_map]
      exact map_congr_left fun o ho => (hp.renamed_tables hr o.arg.name).2.2 (mem_map_of_mem ho)
  refine ⟨_, ?_, hnames, ?_, rfl⟩
  · simp only [renameForward, hbody]
    rfl
  · rw [hnames.items, hrefs, hresolve.mapNames_congr hagree]
    exact hresolve.follow fun a ha c hc => hp.newName_inj hr
      (mem_append_left _ (mem_append_left _ ha)) (mem_append_left _ (mem_append_left _ hc))

theorem GradientPair.mem_itemNames_iff {f' : Definition} (h : Renames r f f') (hn : n ∈ f.itemNames) :
    n ∈ f'.itemNames ↔ r.newName n = n := by
  rw [h.items, mem_map]
  constructor
  · rintro ⟨a, ha, hname⟩
    have hplain := r.newName_of_plain (hp.forwardPlain a (mem_append_left _ ha))
    cases hv : r.args.get? a with
    | none =>
      obtain rfl : a = n := by rw [← hname, hplain, renamed, hv, Option.getD_none]
      exact hname
    | some v =>
      -- the new name of an argument is fresh, and so it is not `n`
      obtain rfl : v = n := by rw [← hname, hplain, renamed, hv, Option.getD_some]
      exact absurd (mem_append_left _ hn) (hr.fresh v (hr.value_mem hv)).1
  · exact fun hname => ⟨n, hn, hname⟩

end Definitions

/-! ## 6. Renaming a pair of operators -/

/-- A renaming succeeds where it can rename the definitions of the operator and of its gradient operator. -/
theorem exists_applyRename {s : String} {ops grads : List StaticOp} {f b : StaticOp} {i j : Nat}
    {call : ForwardCall} {f' b' : Definition} (hop : r.op = some s)
    (hf : lastNamed? ops (bothNames s).1 = some (f, i)) (hb : gradientOf grads f = .ok (some (b, j)))
    (hcall : b.definition.forward = some (some call))
    (hf' : { f.definition with backward := r.gradOpName?.or f.definition.backward }.renameForward r = .ok f')
    (hb' : { b.definition with forward := some (some (call.renamed r)) }.renameBackward r = .ok b') :
    ∃ opName gradOpName, applyRename (ops, grads) r = .ok
      (ops.set i { f with definition := f', opName := opName },
        grads.set j { b with definition := b', opName := gradOpName }) := by
  have hrenameCall : b.definition.renameCall r =
      .ok { b.definition with forward := some (some (call.renamed r)) } := by
    rw [renameCall, hcall]
  have hforward : ∀ opName, f.renameForward r (r.gradOpName?.or f.definition.backward) opName =
      .ok { f with definition := f', opName := opName } := by
    intro opName
    rw [StaticOp.renameForward, hf']
    rfl
  have hbackward : b.renameBackward r { b.definition with forward := some (some (call.renamed r)) } =
      .ok { b with definition := b', opName := r.gradOpName?.getD b.opName } := by
    rw [StaticOp.renameBackward, hb']
    rfl
  refine ⟨if (bothNames s).1 = (bothNames s).2 then f.opName else (bothNames s).2, r.gradOpName?.getD b.opName, ?_⟩
  unfold applyRename
  rw [given, demand_eq_ok_iff.mpr hop]
  simp only [hf, hb, hrenameCall, hforward, hbackward, ok_bind]
  rfl

/-- A renaming of an operator with fresh names succeeds and keeps the references of the operator and of its gradient
operator resolved.  The only exception are the inputs of the forward operator whose contents are not needed, which keep
the names that they had. -/
theorem applyRenames_references {r : RenameEntry} {s : String} {ops grads : List StaticOp} {f b : StaticOp} {i j : Nat}
    {call : ForwardCall} (hop : r.op = some s) (hf : lastNamed? ops (bothNames s).1 = some (f, i))
    (hb : gradientOf grads f = .ok (some (b, j))) (hcall : b.definition.forward = some (some call))
    (hp : GradientPair f.definition b.definition) (hr : r.Fresh f.definition b.definition) :
    ∃ f' b', applyRenames [r] ops grads = .ok (ops.set i f', grads.set j b') ∧
      Renames r f.definition f'.definition ∧ Renames r b.definition b'.definition ∧
      AllFollow f.definition.itemNames f'.definition.itemNames f.definition.body.references
        f'.definition.body.references ∧ AllFollow b.definition.itemNames b'.definition.itemNames
        (asReferences b.definition.noNeedBuffer :: b.definition.body.references)
        (asReferences b'.definition.noNeedBuffer :: b'.definition.body.references) ∧
      f'.definition.noNeedBuffer = f.definition.noNeedBuffer ∧
      ∀ ns ∈ f.definition.noNeedBuffer, ∀ n ∈ ns, (n ∈ f'.definition.itemNames ↔ r.newName n = n) := by
  obtain ⟨f', hf', hfnames, hffollow, hfkept⟩ := hp.exists_renameForward hr (r.gradOpName?.or f.definition.backward)
  obtain ⟨b', hb', hbnames, hbfollow⟩ := hp.exists_renameBackward hr (some (some (call.renamed r)))
  obtain ⟨opName, gradOpName, hrename⟩ := exists_applyRename hop hf hb hcall hf' hb'
  refine ⟨{ f with definition := f', opName := opName }, { b with definition := b', opName := gradOpName }, ?_,
    hfnames, hbnames, hffollow, hbfollow, hfkept, ?_⟩
  · rw [applyRenames, foldlM_cons, hrename]
    rfl
  · intro ns hns n hn
    have hresolves := hp.forwardResolves _ mem_cons_self (ns.map Param.name) (Option.mem_map_of_mem _ hns)
    exact hp.mem_itemNames_iff hr hfnames (hresolves _ (mem_map_of_mem hn))

/-- An operator of one input and one attribute, with a literal among its parameters. -/
def leaky : StaticOp := .of {
  name := "leaky"
  inputs := [{ arg := { typename := "Tensor", name := "x" }, noNeedBuffer := true }]
  attrs := [{ typename := "float", name := "slope" }]
  outputs := [{ arg := { typename := "Tensor", name := "out" } }]
  noNeedBuffer := some ["x"]
  body := .kernel { func := some "UnchangedInferMeta", param := some [.name "x"] }
    { func := ["leaky"], param := some [.name "x", .literal (.int 1), .name "slope"], backend := none, layout := none,
      dataType := some { ordered := true, names := ["slope", "x"] } } none
  backward := some "leaky_grad"
  forward := none }

def leakyGrad : StaticOp := .of {
  name := "leaky_grad"
  inputs := [{ arg := { typename := "Tensor", name := "x" }, noNeedBuffer := true },
    { arg := { typename := "Tensor", name := "out_grad" } }]
  attrs := [{ typename := "float", name := "slope" }]
  outputs := [{ arg := { typename := "Tensor", name := "x_grad" } }]
  noNeedBuffer := some ["x"]
  body := .kernel { func := some "UnchangedInferMeta", param := some [.name "x"] }
    { func := ["leaky_grad"], param := some [.name "x", .name "out_grad", .name "slope"], backend := none,
      layout := none, dataType := some { ordered := false, names := ["out_grad"] } } none
  backward := none
  forward := some (some ⟨"leaky", [⟨"x", "Tensor"⟩], [⟨"slope", "float"⟩], [⟨"out", "Tensor"⟩]⟩) }

def leakyInCapitals : RenameEntry :=
  { op := some "leaky", inputs := some [("x", "X")], attrs := some [("slope", "alpha")],
    outputs := some [("out", "Out")] }

/-- All references of `leaky` and its gradient operator follow, but the name of the input whose contents are not needed
is left behind. -/
theorem applyRenames_references_leaky : ∃ f' b', applyRenames [leakyInCapitals] [leaky] [leakyGrad] = .ok ([f'], [b']) ∧
      f'.definition.itemNames = ["X", "alpha"] ∧ b'.definition.itemNames = ["X", "Out_grad", "alpha"] ∧
      AllFollow ["x", "slope"] ["X", "alpha"] leaky.definition.body.references f'.definition.body.references ∧
      AllFollow ["x", "out_grad", "slope"] ["X", "Out_grad", "alpha"]
        (some [.name "x"] :: leakyGrad.definition.body.references)
        (asReferences b'.definition.noNeedBuffer :: b'.definition.body.references) ∧
      f'.definition.noNeedBuffer = some ["x"] := by
  have hat : lastNamed? [leaky] (bothNames "leaky").1 = some (leaky, 0) := by
    rw [show (bothNames "leaky").1 = "leaky" by decide +kernel]
    rfl
  have hgradient : gradientOf [leakyGrad] leaky = .ok (some (leakyGrad, 0)) := rfl
  have hpair : GradientPair leaky.definition leakyGrad.definition := by
    refine ⟨⟨_, _, _, rfl⟩, ⟨_, _, _, rfl⟩, ?_, ?_, ?_, ?_, ?_, ?_, ?_⟩ <;> decide +kernel
  have hfresh : leakyInCapitals.Fresh leaky.definition leakyGrad.definition := by
    refine ⟨?_, ?_, ?_, ?_, ?_, ?_, ?_⟩ <;> decide +kernel
  obtain ⟨f', b', hok, hf, hb, hffollow, hbfollow, hkept, -⟩ :=
    applyRenames_references (r := leakyInCapitals) rfl hat hgradient rfl hpair hfresh
  have hfitems : f'.definition.itemNames = ["X", "alpha"] := hf.items.trans (by decide +kernel)
  have hbitems : b'.definition.itemNames = ["X", "Out_grad", "alpha"] := hb.items.trans (by decide +kernel)
  exact ⟨f', b', hok, hfitems, hbitems, hfitems ▸ hffollow, hbitems ▸ hbfollow, hkept⟩

end TensorKit.Operator
