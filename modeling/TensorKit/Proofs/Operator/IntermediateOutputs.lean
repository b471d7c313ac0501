import TensorKit.Proofs.Operator.BoundCalls
/-!
# Where intermediate outputs stand

The outputs that only the gradient needs are to stand at the end, and `checkIntermediate` is there to see to it.  It is
called before the outputs have been read, so it sees none: whatever is written there, an eager function is made or
refused as if nothing were (`ofEntries_eq_map`).  On the outputs that are read in the end, it would refuse misplaced
ones (`checkIntermediate_ne_ok`).
-/

namespace TensorKit.Operator.Eager

open Text List TensorArg

/-- An intermediate output is followed by an output that is none. -/
def Misplaced (intermediate : List String) (returns : List TensorArg) : Prop :=
  ∃ (i j : Nat) (a b : TensorArg), i < j ∧ returns[i]? = some a ∧ returns[j]? = some b ∧
    a.name ∈ intermediate ∧ b.name ∉ intermediate

theorem checkIntermediate_nil (intermediate : List String) : checkIntermediate intermediate [] = pure () := rfl

theorem bind_eq_map {α β γ : Type} {g : β → γ} {x : Making α} {f : α → Making β} {f' : α → Making γ}
    (h : ∀ a, f' a = (f a).map g) : x >>= f' = (x >>= f).map g := by
  cases x with
  | error err => rfl
  | ok a => exact h a

/-- What is written of the intermediate outputs is taken over and not looked at. -/
theorem ofEntries_eq_map (e : Entry) (grad : Option Entry) (text : Option String) :
    Function.ofEntries { e with intermediate := text } grad =
      (Function.ofEntries e grad).map fun f => { f with intermediate := readNames text } := by
  unfold Function.ofEntries
  refine bind_eq_map fun _ => bind_eq_map fun name => bind_eq_map fun args => bind_eq_map fun output =>
    bind_eq_map fun inplace => bind_eq_map fun gradInplace => ?_
  cases grad with
  | none =>
    simp only [checkIntermediate_nil, pure_bind]
    exact bind_eq_map fun stated => bind_eq_map fun written => bind_eq_map fun _ => rfl
  | some g =>
    simp only [checkIntermediate_nil, pure_bind]
    exact bind_eq_map fun gradArgs => bind_eq_map fun gradOutput => bind_eq_map fun s => bind_eq_map fun backward =>
      bind_eq_map fun forward => bind_eq_map fun call => bind_eq_map fun written => bind_eq_map fun _ =>
      bind_eq_map fun part => bind_eq_map fun part => bind_eq_map fun _ => rfl

/-- Outputs stand at the positions they are given. -/
theorem position_of_readSignature {args : Option String} {text : String} {s : Signature}
    (h : readSignature args text = .ok s) : ∀ {i : Nat} {a : TensorArg}, s.returns[i]? = some a → a.position = i := by
  intro i a ha
  cases args with
  | none => cases h
  | some args =>
    obtain ⟨lists, -, returns, hreturns, h⟩ := of_bind₂_eq_ok h
    cases h
    have hall := forall₂_of_mapM_eq_ok hreturns
    obtain ⟨hi, rfl⟩ := List.getElem?_eq_some_iff.mp ha
    have hread := (forall₂_iff_get.mp hall).2 i (by rw [hall.length_eq]; exact hi) hi
    obtain ⟨⟨word, name⟩, -, hread⟩ := of_bind_eq_ok hread
    dsimp only at hread
    split at hread
    · cases hread
    · cases hread
    · have hpos := congrArg position (Except.ok.inj hread)
      simpa using hpos.symm

/-- On outputs with different names, the check refuses intermediate outputs that are misplaced. -/
theorem checkIntermediate_ne_ok {intermediate : List String} {returns : List TensorArg}
    (hpos : ∀ {i : Nat} {a : TensorArg}, returns[i]? = some a → a.position = i)
    (hnames : (returns.map name).Nodup) (hnd : intermediate.Nodup)
    (hsub : ∀ n ∈ intermediate, n ∈ returns.map name) (h : Misplaced intermediate returns) :
    checkIntermediate intermediate returns ≠ .ok () := by
  intro hcheck
  obtain ⟨i, j, a, b, hij, ha, hb, hmem, hnot⟩ := h
  have hplace : ∀ {i a}, returns[i]? = some a → a.name ∈ intermediate →
      returns.length - intermediate.length ≤ i := by
    intro i a hi hname
    have hle := eq_true_of_ensure (forall_of_forM_eq_ok hcheck a (mem_of_getElem? hi))
    simp only [elem_eq_mem, hname, decide_true, Bool.not_true, Bool.false_or, decide_eq_true_eq, hpos hi] at hle
    omega
  -- there are as many intermediate outputs as places at the end, so no place is left for another output
  have hcount : (returns.filter (·.name ∈ intermediate)).length = intermediate.length := by
    have hperm : ((returns.map name).filter (· ∈ intermediate)).Perm intermediate := by
      refine (perm_ext_iff_of_nodup (hnames.filter _) hnd).mpr fun n => ?_
      simpa using fun hn => by simpa using hsub n hn
    rw [← hperm.length_eq, filter_map, length_map]
    rfl
  have htake : (returns.take (returns.length - intermediate.length)).filter (·.name ∈ intermediate) = [] := by
    refine filter_eq_nil_iff.mpr fun c hc hname => ?_
    obtain ⟨k, hk⟩ := mem_iff_getElem?.mp hc
    have hlt := lt_of_getElem? hk
    rw [getElem?_take_of_lt (by simp at hlt; omega)] at hk
    have := hplace hk (by simpa using hname)
    simp at hlt
    omega
  have hdrop : ((returns.drop (returns.length - intermediate.length)).filter (·.name ∈ intermediate)).length =
      (returns.drop (returns.length - intermediate.length)).length := by
    have hsplit := congrArg (filter (·.name ∈ intermediate))
      (take_append_drop (returns.length - intermediate.length) returns)
    rw [filter_append, htake, nil_append] at hsplit
    have hle := length_filter_le (·.name ∈ intermediate) returns
    rw [hsplit, hcount, length_drop]
    omega
  have hi := hplace ha hmem
  have hlast : b ∈ returns.drop (returns.length - intermediate.length) :=
    mem_of_getElem? (i := j - (returns.length - intermediate.length)) (by rw [getElem?_drop, ← hb]; congr 1; omega)
  exact hnot (by simpa using length_filter_eq_length_iff.mp hdrop b hlast)

/-- An eager function is made whatever is said of intermediate outputs, so misplaced ones that the check would refuse
are taken over. -/
theorem ofEntries_intermediate (e : Entry) (grad : Option Entry) :
    (∀ text, Function.ofEntries { e with intermediate := text } grad =
      (Function.ofEntries e grad).map fun f => { f with intermediate := readNames text }) ∧
    ∀ f, Function.ofEntries e grad = .ok f → (f.stated.returns.map TensorArg.name).Nodup → ∀ text,
      (readNames text).Nodup → (∀ n ∈ readNames text, n ∈ f.stated.returns.map TensorArg.name) →
      Misplaced (readNames text) f.stated.returns →
        Function.ofEntries { e with intermediate := text } grad = .ok { f with intermediate := readNames text } ∧
        checkIntermediate (readNames text) f.stated.returns ≠ .ok () := by
  refine ⟨ofEntries_eq_map e grad, fun f hf hnames text hnodup hsub hmisplaced => ⟨?_, ?_⟩⟩
  · rw [ofEntries_eq_map, hf]
    rfl
  · obtain ⟨-, ⟨args, returns, hstated⟩, -⟩ := signatures_of_ofEntries hf
    exact checkIntermediate_ne_ok (position_of_readSignature hstated) hnames hnodup hsub hmisplaced

/-- An operator whose first output is used by the gradient alone. -/
def masked : Entry where
  op := some "f_"
  args := some "(Tensor x)"
  output := some "Tensor(mask), Tensor(out)"
  fields := ["op", "args", "output", "intermediate"]

theorem ofEntries_intermediate_masked :
    ∃ f, Function.ofEntries { masked with intermediate := some "mask" } none = .ok f ∧
    Misplaced f.intermediate f.stated.returns ∧ checkIntermediate f.intermediate f.stated.returns ≠ .ok () := by
  have hread : (Function.ofEntries masked none).toOption.map (·.stated.returns.map (·.name)) =
      some ["mask", "out"] := by decide +kernel
  have hnames : readNames (some "mask") = ["mask"] := by decide +kernel
  obtain ⟨f, hf, hreturns⟩ := exists_of_map_toOption hread
  obtain ⟨a, rest, hrest, ha, htail⟩ := map_eq_cons_iff.mp hreturns
  obtain ⟨b, rest, rfl, hb, -⟩ := map_eq_cons_iff.mp htail
  have hmisplaced : Misplaced (readNames (some "mask")) f.stated.returns :=
    ⟨0, 1, a, b, Nat.one_pos, by rw [hrest]; rfl, by rw [hrest]; rfl, by simp [hnames, ha], by simp [hnames, hb]⟩
  obtain ⟨hok, hcheck⟩ := (ofEntries_intermediate masked none).2 f hf (by rw [hreturns]; decide) (some "mask")
    (by rw [hnames]; decide) (by rw [hnames, hreturns]; decide) hmisplaced
  exact ⟨_, hok, hmisplaced, hcheck⟩

end TensorKit.Operator.Eager
