import Mathlib.Algebra.Ring.Parity
import TensorKit.Operator.Rename
import TensorKit.Proofs.Traversal
/-!
# Which way in-place tables point

The canonical reader stores an in-place table from outputs to inputs.  The static graph reads it from inputs to outputs.
The only place that turns it round is the renaming of a *forward* operator that a list of renamings *mentions*.  So
after all renamings the table of a gradient operator is as it was read, and that of a forward operator was turned once
for each renaming that reaches it; it points from inputs to outputs if and only if that number is odd
(`applyRenames_inplace`).

What one renaming does is said once (`applyRename_eq_ok`, in terms of `RenamedForward`).  By induction on the list of
renamings each forward operator goes through a chain of such steps (`RenamedAlong`, `renamedAlong_of_applyRenames`).
-/

namespace TensorKit.Operator

open Text List Definition

variable {grads' : List StaticOp} {sources targets : List String}
variable {d d' : Definition} {t m : Texts} {body body' : Body} {r : RenameEntry}
  {ops grads ops' : List StaticOp} {i : Nat} {rs : List RenameEntry}

/-! ## 1. The in-place table of a definition -/

def Body.inplace? : Body → Option Texts
  | .kernel _ _ t => t
  | .invoke _ => none

def Definition.inplace? (d : Definition) : Option Texts := d.body.inplace?

/-- Every pair of a table leads from one list of names to another. -/
def Leads (sources targets : List String) (t : Texts) : Prop := ∀ p ∈ t, p.1 ∈ sources ∧ p.2 ∈ targets

def Definition.Oriented (d : Definition) : Prop := ∀ t ∈ d.inplace?, Leads d.inputNames d.outputNames t

/-- The in-place table leads from outputs to inputs, as it is read. -/
def Definition.Reversed (d : Definition) : Prop := ∀ t ∈ d.inplace?, Leads d.outputNames d.inputNames t

/-- There is an in-place table with a pair in it. -/
def Definition.Overwrites (d : Definition) : Prop := ∃ t ∈ d.inplace?, t ≠ []

/-- A table with a pair cannot point both ways, unless a name stands on both sides. -/
theorem Definition.Reversed.not_oriented (h : d.Reversed) (ht : d.Overwrites)
    (hsame : d'.inplace? = d.inplace?) (hapart : ∀ n ∈ d.outputNames, n ∉ d'.inputNames) : ¬ d'.Oriented := by
  obtain ⟨t, hmem, hne⟩ := ht
  obtain ⟨p, hp⟩ := exists_mem_of_ne_nil t hne
  intro ho
  exact hapart p.1 (h t hmem p hp).1 (ho t (hsame ▸ hmem) p hp).1

/-! ## 2. Turning a table -/

theorem turnInplace_eq (m t : Texts) :
    turnInplace m t = Table.ofList (t.map fun p => (renamed m p.2, renamed m p.1)) := by
  rw [Table.ofList, Table.update, foldl_map]
  rfl

theorem turnInplace_ne_nil (m : Texts) (h : t ≠ []) : turnInplace m t ≠ [] := by
  obtain ⟨p, t, rfl⟩ := exists_cons_of_ne_nil h
  rw [turnInplace_eq]
  exact Table.update_ne_nil (t := Table.set (renamed m p.2) (renamed m p.1) []) (Table.set_ne_nil _ _ [])

theorem Leads.turnInplace (h : Leads sources targets t) :
    Leads (targets.map (renamed m)) (sources.map (renamed m)) (turnInplace m t) := by
  intro q hq
  rw [turnInplace_eq] at hq
  obtain ⟨p, hp, rfl⟩ : ∃ p ∈ t, (renamed m p.2, renamed m p.1) = q := by simpa using Table.mem_of_mem_update hq
  obtain ⟨hsource, htarget⟩ := h p hp
  exact ⟨mem_map_of_mem htarget, mem_map_of_mem hsource⟩

/-- The table of all new names treats inputs as the table for inputs does, and outputs as the table for outputs does. -/
def RenameEntry.Fits (r : RenameEntry) (inputs outputs : List String) : Prop :=
  inputs.map (renamed r.args) = inputs.map (renamed (r.inputs.getD [])) ∧
    outputs.map (renamed r.args) = outputs.map (renamed (r.outputs.getD []))

/-- Each of several renamings fits the names as they are when its turn comes. -/
def FitInTurn : List RenameEntry → List String → List String → Prop
  | [], _, _ => True
  | r :: rs, inputs, outputs => r.Fits inputs outputs ∧
      FitInTurn rs (inputs.map (renamed (r.inputs.getD []))) (outputs.map (renamed (r.outputs.getD [])))

/-! ## 3. One renaming of one operator -/

/-- What a renaming does to a forward definition, as far as names and in-place tables go. -/
structure RenamedForward (r : RenameEntry) (d d' : Definition) : Prop where
  name : d'.name = d.name
  inputs : d'.inputNames = d.inputNames.map (renamed (r.inputs.getD []))
  outputs : d'.outputNames = d.outputNames.map (renamed (r.outputs.getD []))
  inplace : d'.inplace? = d.inplace?.map (turnInplace r.args)

section RenamedForward

variable (h : RenamedForward r d d')

include h

theorem RenamedForward.leads (hd : ∀ t ∈ d.inplace?, Leads sources targets t) :
    ∀ t ∈ d'.inplace?, Leads (targets.map (renamed r.args)) (sources.map (renamed r.args)) t := by
  intro t' ht'
  rw [h.inplace] at ht'
  obtain ⟨t, ht, rfl⟩ := Option.map_eq_some_iff.mp ht'
  exact (hd t ht).turnInplace

theorem RenamedForward.oriented (hfit : r.Fits d.inputNames d.outputNames)
    (hd : d.Reversed) : d'.Oriented := by
  rw [Definition.Oriented, h.inputs, h.outputs, ← hfit.1, ← hfit.2]
  exact h.leads hd

theorem RenamedForward.reversed (hfit : r.Fits d.inputNames d.outputNames)
    (hd : d.Oriented) : d'.Reversed := by
  rw [Definition.Reversed, h.inputs, h.outputs, ← hfit.1, ← hfit.2]
  exact h.leads hd

theorem RenamedForward.overwrites (hd : d.Overwrites) : d'.Overwrites := by
  obtain ⟨t, ht, hne⟩ := hd
  exact ⟨turnInplace r.args t, h.inplace ▸ Option.mem_map_of_mem _ ht, turnInplace_ne_nil _ hne⟩

end RenamedForward

theorem Body.renamed_eq_ok (h : body.renamed m = .ok body') :
    body'.inplace? = body.inplace?.map (turnInplace m) := by
  cases body with
  | invoke call => cases h
  | kernel rule kernel inplace =>
    obtain ⟨_, -, _, -, h⟩ := of_bind₂_eq_ok h
    cases h
    rfl

/-- The table of a gradient definition stays, whatever else is renamed in it. -/
theorem Body.renamedBackward_eq_ok
    (h : body.renamedBackward m = .ok body') : body'.inplace? = body.inplace? := by
  cases body with
  | invoke call => cases h
  | kernel rule kernel inplace =>
    obtain ⟨_, -, _, -, h⟩ := of_bind₂_eq_ok h
    cases h
    rfl

theorem Definition.renameForward_eq_ok (h : d.renameForward r = .ok d') :
    RenamedForward r d d' := by
  obtain ⟨body, hbody, h⟩ := of_bind_eq_ok h
  cases h
  refine ⟨rfl, ?_, ?_, Body.renamed_eq_ok hbody⟩
  · simp [inputNames, Arg.renamed]
  · simp [outputNames, OutputArg.renamed]

theorem StaticOp.renameForward_eq_ok {op op' : StaticOp} {backward : Option String} {opName : String}
    (h : op.renameForward r backward opName = .ok op') : RenamedForward r op.definition op'.definition := by
  obtain ⟨d, hd, h⟩ := of_bind_eq_ok h
  cases h
  have hd := Definition.renameForward_eq_ok hd
  exact ⟨hd.name, hd.inputs, hd.outputs, hd.inplace⟩

theorem Definition.renameBackward_eq_ok (h : d.renameBackward r = .ok d') :
    d'.inplace? = d.inplace? := by
  obtain ⟨body, hbody, h⟩ := of_bind_eq_ok h
  cases h
  exact Body.renamedBackward_eq_ok hbody

theorem Definition.renameCall_eq_ok (h : d.renameCall r = .ok d') :
    d'.inplace? = d.inplace? := by
  unfold renameCall at h
  split at h
  · cases h
    rfl
  · split at h
    · cases h
    · cases h
      rfl

/-! ## 4. One renaming of all operators -/

def RenameEntry.position? (r : RenameEntry) (ops : List StaticOp) : Option Nat :=
  (r.op.bind fun s => lastNamed? ops (bothNames s).1).map Prod.snd

theorem getElem?_of_lastNamed? {n : String} {op : StaticOp}
    (h : lastNamed? ops n = some (op, i)) : ops[i]? = some op :=
  mem_zipIdx_iff_getElem?.mp (mem_of_mem_filter (mem_of_getLast? h))

theorem getElem?_of_gradientOf {op grad : StaticOp} {j : Nat}
    (h : gradientOf grads op = .ok (some (grad, j))) : grads[j]? = some grad := by
  unfold gradientOf at h
  split at h
  · cases h
  · split at h
    · cases h
    next found hfound =>
      obtain rfl : found = (grad, j) := Option.some.inj (Except.ok.inj h)
      exact getElem?_of_lastNamed? hfound

theorem position?_congr (r : RenameEntry)
    (h : ops'.map (fun op => op.definition.name) = ops.map fun op => op.definition.name) :
    r.position? ops' = r.position? ops := by
  have hlast : ∀ ops n, (lastNamed? ops n).map Prod.snd =
      (((ops.map fun op => op.definition.name).zipIdx.filter fun p => p.1 == n).getLast?).map Prod.snd := by
    intro ops n
    rw [lastNamed?, zipIdx_map, filter_map, getLast?_map, Option.map_map]
    rfl
  cases hop : r.op with
  | none => simp [RenameEntry.position?, hop]
  | some s => simp [RenameEntry.position?, hlast, h]

/-- Replacing a member by another with the same view keeps the view of the list. -/
theorem map_set_of_eq {α β : Type} {f : α → β} {xs : List α} {x y : α} (hx : xs[i]? = some x)
    (h : f y = f x) : (xs.set i y).map f = xs.map f := by
  obtain ⟨hi, rfl⟩ := List.getElem?_eq_some_iff.mp hx
  rw [map_set, h, ← map_set, set_getElem_self]

/-- **Step lemma.**  One renaming changes at most the forward operator that it is about, and the tables of gradient
operators it leaves as they are. -/
theorem applyRename_eq_ok (h : applyRename (ops, grads) r = .ok (ops', grads')) :
    grads'.map (fun op => op.definition.inplace?) = grads.map (fun op => op.definition.inplace?) ∧
      (r.position? ops = none ∧ ops' = ops ∨ ∃ i op op', r.position? ops = some i ∧ ops[i]? = some op ∧
        ops' = ops.set i op' ∧ RenamedForward r op.definition op'.definition) := by
  obtain ⟨s, hs, h⟩ := of_bind_eq_ok h
  have hop := demand_eq_ok_iff.mp hs
  simp only [RenameEntry.position?, hop, Option.bind_some]
  cases hlast : lastNamed? ops (bothNames s).1 with
  | none =>
    simp only [hlast] at h
    obtain ⟨rfl, rfl⟩ := Prod.mk.inj (Except.ok.inj h)
    exact ⟨rfl, .inl ⟨rfl, rfl⟩⟩
  | some found =>
    obtain ⟨op, i⟩ := found
    have hat := getElem?_of_lastNamed? hlast
    simp only [hlast] at h
    obtain ⟨gradient, hgradient, h⟩ := of_bind_eq_ok h
    cases gradient with
    | none =>
      obtain ⟨op', hop', h⟩ := of_bind_eq_ok h
      obtain ⟨rfl, rfl⟩ := Prod.mk.inj (Except.ok.inj h)
      exact ⟨rfl, .inr ⟨i, op, op', rfl, hat, rfl, StaticOp.renameForward_eq_ok hop'⟩⟩
    | some gradient =>
      obtain ⟨grad, j⟩ := gradient
      obtain ⟨call, hcall, op', hop', h⟩ := of_bind₂_eq_ok h
      obtain ⟨grad', hgrad', h⟩ := of_bind_eq_ok h
      obtain ⟨rfl, rfl⟩ := Prod.mk.inj (Except.ok.inj h)
      obtain ⟨d, hd, hgrad'⟩ := of_bind_eq_ok hgrad'
      cases hgrad'
      have hkept : d.inplace? = grad.definition.inplace? := (renameBackward_eq_ok hd).trans (renameCall_eq_ok hcall)
      refine ⟨map_set_of_eq (getElem?_of_gradientOf hgradient) hkept, .inr ?_⟩
      exact ⟨i, op, op', rfl, hat, rfl, StaticOp.renameForward_eq_ok hop'⟩

/-! ## 5. A list of renamings -/

def reaching (rs : List RenameEntry) (ops : List StaticOp) (i : Nat) : List RenameEntry :=
  rs.filter fun r => r.position? ops == some i

inductive RenamedAlong : List RenameEntry → Definition → Definition → Prop
  | nil (d : Definition) : RenamedAlong [] d d
  | cons {r : RenameEntry} {rs : List RenameEntry} {d e d' : Definition} (first : RenamedForward r d e)
      (rest : RenamedAlong rs e d') : RenamedAlong (r :: rs) d d'

/-- **Run lemma.**  Every forward operator goes through the renamings that are about it, in their order. -/
theorem renamedAlong_of_applyRenames (h : applyRenames rs ops grads = .ok (ops', grads')) :
    grads'.map (fun op => op.definition.inplace?) = grads.map (fun op => op.definition.inplace?) ∧
      ∀ i op, ops[i]? = some op → ∃ op', ops'[i]? = some op' ∧
        RenamedAlong (reaching rs ops i) op.definition op'.definition := by
  induction rs generalizing ops grads with
  | nil =>
    obtain ⟨rfl, rfl⟩ := Prod.mk.inj (Except.ok.inj h)
    exact ⟨rfl, fun i op hi => ⟨op, hi, .nil _⟩⟩
  | cons r rs ih =>
    rw [applyRenames, foldlM_cons] at h
    obtain ⟨⟨mid, midGrads⟩, hstep, h⟩ := of_bind_eq_ok h
    obtain ⟨hgrads, hops⟩ := applyRename_eq_ok hstep
    obtain ⟨hrestGrads, hrest⟩ := ih h
    refine ⟨hrestGrads.trans hgrads, ?_⟩
    intro i op hi
    rcases hops with ⟨hnone, rfl⟩ | ⟨k, found, op', hk, hat, rfl, hforward⟩
    · obtain ⟨op', hi', halong⟩ := hrest i op hi
      refine ⟨op', hi', ?_⟩
      rwa [reaching, filter_cons_of_neg (by simp [hnone])]
    · -- a renaming keeps the names of definitions, so that later ones still are about the same positions
      have hreach : reaching rs (ops.set k op') i = reaching rs ops i := by
        simp [reaching, position?_congr _ (map_set_of_eq hat hforward.name)]
      by_cases hki : k = i
      · subst hki
        obtain rfl : found = op := Option.some.inj (hat.symm.trans hi)
        obtain ⟨op'', hi'', halong⟩ := hrest k op' (by simp [(lt_of_getElem? hi)])
        rw [hreach] at halong
        rw [reaching, filter_cons_of_pos (by simp [hk])]
        exact ⟨op'', hi'', .cons hforward halong⟩
      · obtain ⟨op'', hi'', halong⟩ := hrest i op (by rw [getElem?_set_ne hki, hi])
        rw [hreach] at halong
        rw [reaching, filter_cons_of_neg (by simp [hk, hki])]
        exact ⟨op'', hi'', halong⟩

namespace RenamedAlong

theorem inplace (h : RenamedAlong rs d d') :
    d'.inplace? = rs.foldl (fun t r => t.map (turnInplace r.args)) d.inplace? := by
  induction h with
  | nil => rfl
  | cons first _ ih => rw [ih, first.inplace, foldl_cons]

theorem overwrites (h : RenamedAlong rs d d') (hd : d.Overwrites) : d'.Overwrites := by
  induction h with
  | nil => exact hd
  | cons first _ ih => exact ih (first.overwrites hd)

/-- An even number of renamings leaves the direction, an odd number turns it round. -/
theorem direction (h : RenamedAlong rs d d') (hfit : FitInTurn rs d.inputNames d.outputNames) :
    (d.Reversed → (Even rs.length → d'.Reversed) ∧ (Odd rs.length → d'.Oriented)) ∧
      (d.Oriented → (Even rs.length → d'.Oriented) ∧ (Odd rs.length → d'.Reversed)) := by
  induction h with
  | nil => simp
  | cons first _ ih =>
    obtain ⟨hr, hfit⟩ := hfit
    rw [← first.inputs, ← first.outputs] at hfit
    obtain ⟨hreversed, horiented⟩ := ih hfit
    simp only [length_cons, Nat.even_add_one, Nat.odd_add_one, Nat.not_even_iff_odd, Nat.not_odd_iff_even]
    exact ⟨fun hd => (horiented (first.oriented hr hd)).symm, fun hd => (hreversed (first.reversed hr hd)).symm⟩

end RenamedAlong

/-- After a list of renamings every gradient operator has its in-place table as it was, and every forward operator has
it turned round once by each renaming about it: the table leads from inputs to outputs if and only if their number is
odd. -/
theorem applyRenames_inplace {rs : List RenameEntry} {ops grads ops' grads' : List StaticOp}
    (h : applyRenames rs ops grads = .ok (ops', grads')) :
    (∀ (j : Nat) (g : StaticOp), grads[j]? = some g → ∃ g', grads'[j]? = some g' ∧
      g'.definition.inplace? = g.definition.inplace? ∧ (g.definition.Reversed → g.definition.Overwrites →
        (∀ n ∈ g.definition.outputNames, n ∉ g'.definition.inputNames) → ¬ g'.definition.Oriented)) ∧
    ∀ (i : Nat) (op : StaticOp), ops[i]? = some op → ∃ op', ops'[i]? = some op' ∧ op'.definition.inplace? =
        (reaching rs ops i).foldl (fun t r => t.map (turnInplace r.args)) op.definition.inplace? ∧
      (op.definition.Reversed → op.definition.Overwrites →
        FitInTurn (reaching rs ops i) op.definition.inputNames op.definition.outputNames →
        (∀ n ∈ op'.definition.outputNames, n ∉ op'.definition.inputNames) →
        (op'.definition.Oriented ↔ Odd (reaching rs ops i).length)) := by
  obtain ⟨hgrads, hops⟩ := renamedAlong_of_applyRenames h
  constructor
  · intro j g hj
    have hsame := congrArg (fun l => l[j]?) hgrads
    simp only [List.getElem?_map, hj, Option.map_some] at hsame
    obtain ⟨g', hj', hsame⟩ := Option.map_eq_some_iff.mp hsame
    exact ⟨g', hj', hsame, fun hrev hover hapart => hrev.not_oriented hover hsame hapart⟩
  · intro i op hi
    obtain ⟨op', hi', halong⟩ := hops i op hi
    refine ⟨op', hi', halong.inplace, ?_⟩
    intro hrev hover hfit hapart
    obtain ⟨heven, hodd⟩ := (halong.direction hfit).1 hrev
    refine ⟨fun ho => ?_, hodd⟩
    by_contra hnot
    exact (heven (Nat.not_odd_iff_even.mp hnot)).not_oriented (halong.overwrites hover) rfl hapart ho

def overwriting (name input output : String) (backward : Option String) (forward : Option (Option ForwardCall)) :
    StaticOp := .of {
  name := name
  inputs := [{ arg := { typename := "Tensor", name := input } }]
  attrs := []
  outputs := [{ arg := { typename := "Tensor", name := output } }]
  noNeedBuffer := none
  body := .kernel { func := none, param := none }
    { func := [name], param := some [.name input], backend := none, layout := none, dataType := none }
    (some [(output, input)])
  backward := backward
  forward := forward }

theorem reversed_overwriting (name input output : String) (backward : Option String)
    (forward : Option (Option ForwardCall)) : (overwriting name input output backward forward).definition.Reversed ∧
      (overwriting name input output backward forward).definition.Overwrites := by
  refine ⟨?_, [(output, input)], rfl, by simp⟩
  intro t ht p hp
  obtain rfl : [(output, input)] = t := Option.some.inj ht
  obtain rfl := mem_singleton.mp hp
  exact ⟨mem_singleton_self _, mem_singleton_self _⟩

def reluInCapitals : RenameEntry := { op := some "relu", inputs := some [("x", "X")], outputs := some [("out", "Out")] }

/-- An operator that `reluInCapitals` is about, and one that it is not about. -/
def reluAndTanh : List StaticOp :=
  [overwriting "relu" "x" "out" (some "relu_grad") none, overwriting "tanh" "x" "out" none none]

/-- The gradient operator that belongs to the first of `reluAndTanh`. -/
def reluGrad : StaticOp := overwriting "relu_grad" "out_grad" "x_grad" none (some (some
  { name := "relu", inputs := [⟨"x", "Tensor"⟩], attrs := [], outputs := [⟨"out", "Tensor"⟩] }))

/-- Of two forward operators and a gradient operator, only the forward operator that is renamed has its table turned. -/
theorem applyRenames_inplace_one_of_three : ∃ ops' grads',
    applyRenames [reluInCapitals] reluAndTanh [reluGrad] = .ok (ops', grads') ∧
      (∃ op ∈ ops'[0]?, op.definition.inplace? = some [("X", "Out")] ∧ op.definition.Oriented) ∧
      (∃ op ∈ ops'[1]?, op.definition.inplace? = some [("out", "x")] ∧ ¬ op.definition.Oriented) ∧
      ∃ g ∈ grads'[0]?, g.definition.inplace? = some [("x_grad", "out_grad")] ∧ ¬ g.definition.Oriented := by
  have hnames : (applyRenames [reluInCapitals] reluAndTanh [reluGrad]).toOption.map
      (fun p => (p.1.map fun op => (op.definition.inputNames, op.definition.outputNames),
        p.2.map fun op => op.definition.inputNames)) =
      some ([(["X"], ["Out"]), (["x"], ["out"])], [["Out_grad"]]) := by
    decide +kernel
  cases hres : applyRenames [reluInCapitals] reluAndTanh [reluGrad] with
  | error e =>
    rw [hres] at hnames
    cases hnames
  | ok result =>
    obtain ⟨ops', grads'⟩ := result
    rw [hres] at hnames
    obtain ⟨hops', hgrads'⟩ := Prod.mk.inj (Option.some.inj hnames)
    obtain ⟨hgrads, hops⟩ := applyRenames_inplace hres
    obtain ⟨relu, hrelu, hreluTable, hreluWay⟩ := hops 0 _ rfl
    obtain ⟨tanh, htanh, htanhTable, htanhWay⟩ := hops 1 _ rfl
    obtain ⟨grad, hgrad, hgradTable, hgradWay⟩ := hgrads 0 _ rfl
    have hfirst := congrArg (fun l => l[0]?) hops'
    have hsecond := congrArg (fun l => l[1]?) hops'
    have hthird := congrArg (fun l => l[0]?) hgrads'
    simp only [List.getElem?_map, hrelu, htanh, hgrad, Option.map_some, getElem?_cons_zero,
      getElem?_cons_succ, Option.some.injEq, Prod.mk.injEq] at hfirst hsecond hthird
    have hat : reluInCapitals.position? reluAndTanh = some 0 := by decide +kernel
    have hone : reaching [reluInCapitals] reluAndTanh 0 = [reluInCapitals] := by simp [reaching, hat]
    have hnone : reaching [reluInCapitals] reluAndTanh 1 = [] := by simp [reaching, hat]
    refine ⟨ops', grads', rfl, ⟨relu, hrelu, ?_, ?_⟩, ⟨tanh, htanh, ?_, ?_⟩, grad, hgrad, hgradTable, ?_⟩
    · exact hreluTable.trans (by decide +kernel)
    · refine (hreluWay (reversed_overwriting _ _ _ _ _).1 (reversed_overwriting _ _ _ _ _).2 ?_ ?_).mpr (hone ▸ odd_one)
      · rw [hone]
        exact ⟨⟨by decide +kernel, by decide +kernel⟩, trivial⟩
      · rw [hfirst.1, hfirst.2]
        decide
    · exact htanhTable.trans (by decide +kernel)
    · rw [htanhWay (reversed_overwriting _ _ _ _ _).1 (reversed_overwriting _ _ _ _ _).2 ?_ ?_, hnone]
      · decide
      · rw [hnone]
        trivial
      · rw [hsecond.1, hsecond.2]
        decide
    · refine hgradWay (reversed_overwriting _ _ _ _ _).1 (reversed_overwriting _ _ _ _ _).2 ?_
      rw [hthird]
      decide

end TensorKit.Operator
