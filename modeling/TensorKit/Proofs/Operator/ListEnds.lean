import TensorKit.Proofs.Operator.GradientCalls
/-!
# Where an argument list ends

The list of a forward operator is everything in its outer parentheses, that of a gradient operator ends at the first
closing one.  On a text that is read as a list of the first kind, the second reading gives the same arguments if and
only if no comma stands behind the first closing parenthesis and what is left of the last argument is read like the
whole of it (`readBackward_eq_ok_iff`).  Types and defaults may hold parentheses, so this may fail.
-/

namespace TensorKit.Operator.Eager

open List

open Text Pattern

/-- An argument is read without regard to those before it. -/
theorem addArg_eq_map (acc : ArgLists) (x : String × Nat) :
    addArg acc x = (addArg {} x).map fun l => ⟨acc.inputs ++ l.inputs, acc.attrs ++ l.attrs⟩ := by
  unfold addArg
  split
  · rfl
  · split
    split
    · rfl
    next default _ _ _ _ => cases default <;> simp [ensure, Except.map, pure_eq_ok]
    · simp [Except.map]

theorem readSignature_concat {text returns item : String} {items : List String}
    (hitems : splitStrip ',' (strip text) = items ++ [item]) {s : Signature} :
    readSignature (some text) returns = .ok s ↔ ∃ init last, items.zipIdx.foldlM addArg {} = .ok init ∧
      addArg {} (item, items.length) = .ok last ∧ readOutputs returns = .ok s.returns ∧
      s.inputs = init.inputs ++ last.inputs ∧ s.attrs = init.attrs ++ last.attrs := by
  have hread : readArgs text = (items.zipIdx.foldlM addArg {} >>= fun init =>
      (addArg {} (item, items.length)).map fun l => ⟨init.inputs ++ l.inputs, init.attrs ++ l.attrs⟩) := by
    simp [readArgs, hitems, zipIdx_append, foldlM_append, ← addArg_eq_map]
  constructor
  · intro h
    have houts := readOutputs_of_readSignature h
    obtain ⟨lists, hlists, h⟩ := of_bind_eq_ok h
    obtain ⟨init, hinit, hmap⟩ := of_bind_eq_ok (hread ▸ hlists)
    obtain ⟨last, hlast, rfl⟩ := exists_of_map_eq_ok hmap
    obtain ⟨_, -, h⟩ := of_bind_eq_ok h
    cases h
    exact ⟨init, last, hinit, hlast, houts, rfl, rfl⟩
  · rintro ⟨init, last, hinit, hlast, houts, hins, hattrs⟩
    cases s
    simp_all [readSignature, Except.map, pure_eq_ok]

/-- **The arguments of a gradient operator are read like those of a forward operator exactly if the first closing
parenthesis cuts nothing off that is read.** -/
theorem readBackward_eq_ok_iff {text returns : String} {s : Signature} (h : readForward text returns = .ok s) :
    ∃ whole items item, wholeInside? text = some whole ∧ splitStrip ',' (strip whole) = items ++ [item] ∧
      (')' ∉ whole.toList → readBackward text returns = .ok s) ∧
      ((∃ item', splitStrip ',' (strip (before ')' whole)) = items ++ [item']) ↔
        ',' ∉ whole.toList.dropWhile (· != ')')) ∧
      (readBackward text returns = .ok s ↔ ∃ item', splitStrip ',' (strip (before ')' whole)) = items ++ [item'] ∧
        addArg {} (item', items.length) = addArg {} (item, items.length)) := by
  obtain ⟨whole, hwhole⟩ : ∃ whole, wholeInside? text = some whole := by
    cases hwhole : wholeInside? text with
    | none => simp [readForward, readSignature, hwhole] at h
    | some whole => exact ⟨whole, rfl⟩
  have hback : readBackward text returns = readSignature (some (before ')' whole)) returns := by
    rw [readBackward, firstSuffix?_insideHere? hwhole]
  rw [readForward, hwhole] at h
  obtain ⟨items, item, hitems⟩ : ∃ items item, splitStrip ',' (strip whole) = items ++ [item] := by
    rcases eq_nil_or_concat' (splitStrip ',' (strip whole)) with hnil | h
    · simp [splitStrip, split, splitOn_ne_nil] at hnil
    · exact h
  set kept := splitStrip ',' (strip (before ')' whole))
  have hcut : (kept.dropLast <+: items ++ [item]) ∧
      (kept.length = (items ++ [item]).length ↔
        ',' ∉ whole.toList.dropWhile (· != ')')) := by
    let g : Entry := { args := some text }
    obtain ⟨written, hwritten, hinit, -, hlength⟩ :=
      gradItems?_eq_some (g := g) (by simp [g, gradItems?, firstSuffix?_insideHere? hwhole]; rfl) hwhole
    obtain rfl : items ++ [item] = written := by simpa [g, argItems?, hwhole, hitems] using hwritten
    exact ⟨hinit, hlength⟩
  -- Equal lengths leave the same arguments before the last.
  have hsame : kept.length = (items ++ [item]).length →
      ∃ item', kept = items ++ [item'] := by
    intro hlength
    rcases eq_nil_or_concat' kept with hnil | ⟨items', item', h'⟩
    · simp [hnil] at hlength
    · have hprefix := hcut.1
      simp only [h', dropLast_concat, length_append, length_singleton, Nat.add_right_cancel_iff]
        at hprefix hlength
      obtain rfl : items' = items :=
        (prefix_of_prefix_length_le hprefix (prefix_append _ _) hlength.le).eq_of_length hlength
      exact ⟨item', h'⟩
  refine ⟨whole, items, item, hwhole, hitems, ?_, ⟨?_, fun hcomma => hsame (hcut.2.mpr hcomma)⟩, ?_, ?_⟩
  · intro hparen
    rw [hback, before, (takeWhile_ne_of_notMem hparen).1, String.ofList_toList]
    exact h
  · rintro ⟨item', (h' : kept = _)⟩
    exact hcut.2.mp (by simp [h'])
  · intro hs
    rw [hback] at hs
    -- Both readings find as many arguments as the signature has.
    obtain ⟨_, args, ⟨⟩, hargs, hread⟩ := readFrom_of_readSignature h
    obtain ⟨_, args', ⟨⟩, hargs', hread'⟩ := readFrom_of_readSignature hs
    have hlength : kept.length = (items ++ [item]).length := by
      have hl := congrArg length hargs
      have hl' : (kept.map readItem?).length = _ := congrArg length hargs'
      have hcount := hread.length_eq
      have hcount' := hread'.length_eq
      rw [length_map, length_map, hitems] at hl
      rw [length_map, length_map] at hl'
      omega
    obtain ⟨item', h'⟩ := hsame hlength
    obtain ⟨init, last, hinit, hlast, -, hinputs, hattrs⟩ := (readSignature_concat hitems).mp h
    obtain ⟨init', last', hinit', hlast', -, hinputs', hattrs'⟩ := (readSignature_concat h').mp hs
    obtain rfl : init = init' := Except.ok.inj (hinit.symm.trans hinit')
    obtain rfl : last = last' := by
      cases last
      cases last'
      simp_all
    exact ⟨item', h', hlast'.trans hlast.symm⟩
  · rintro ⟨item', h', hlast⟩
    rw [hback, readSignature_concat h', hlast]
    exact (readSignature_concat hitems).mp h

/-- A default that is a call is cut short. -/
theorem readBackward_eq_ok_iff_call : ∃ s whole items item,
    readForward "(Tensor x, Place place=CPUPlace())" "Tensor(out)" = .ok s ∧
    readBackward "(Tensor x, Place place=CPUPlace())" "Tensor(out)" ≠ .ok s ∧
    splitStrip ',' (strip whole) = items ++ [item] ∧
    ∀ item', splitStrip ',' (strip (before ')' whole)) = items ++ [item'] →
      addArg {} (item', items.length) ≠ addArg {} (item, items.length) := by
  obtain ⟨s, hs⟩ := exists_of_isOk
    (x := readForward "(Tensor x, Place place=CPUPlace())" "Tensor(out)") (by decide +kernel)
  have hne : readBackward "(Tensor x, Place place=CPUPlace())" "Tensor(out)" ≠ .ok s := by
    rw [← hs]
    decide +kernel
  obtain ⟨whole, items, item, -, hitems, -, -, hiff⟩ := readBackward_eq_ok_iff hs
  exact ⟨s, whole, items, item, hs, hne, hitems, fun item' h' heq => hne (hiff.mpr ⟨item', h', heq⟩)⟩

end TensorKit.Operator.Eager
