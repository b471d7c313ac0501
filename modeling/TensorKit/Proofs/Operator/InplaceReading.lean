import TensorKit.Proofs.Operator.SignatureReading
/-!
# Three readers of in-place pairs

Which outputs take the place of which inputs is written as a list of pairs, `(x -> out), (y -> mean)`.  The reader for
public functions looks for a word, an arrow and a word in each part between the commas.  The eager reader drops the
parentheses of each part.  The canonical reader drops them only at the ends of the whole list: in a list of several
pairs the parentheses *between* them stay and become part of the names (`outerDropped`).  `inplace_readers` states all
of this.

Each reader stores one pair after the other, so each has a **step lemma** (`addInplace_arrowText`,
`Api.addPair_pairText`, `Eager.addInplace_pairText`), and one **run lemma** serves all of them (`foldlM_set`).
-/

namespace TensorKit.Text

/-! ## 1. Cutting at an arrow -/

theorem splitText_arrow {a b : String} (ha : '-' ∉ a.toList) (hb : '-' ∉ b.toList) :
    splitText "->" (a ++ "->" ++ b) = [a, b] := by
  have harrow : "->".toList = ['-', '>'] := by decide
  rw [splitText, String.toList_append, String.toList_append, harrow, pieces_append ha, pieces_of_notMem hb]
  simp

/-! ## 2. Word characters -/

theorem isBlank_of_isWord {c : Char} (h : isWord c) : isBlank c = false := by
  unfold isWord at h
  split at h
  · exact Operator.isBlank_of_isNameChar h
  · rw [Bool.and_eq_true, Bool.not_eq_true'] at h
    exact h.2

end TensorKit.Text

namespace TensorKit.Operator

open Text Pattern List Eager

variable {ps : List (String × String)}

/-! ## 3. Written pairs -/

def arrowText (p : String × String) : String := p.1 ++ " -> " ++ p.2

def pairText (p : String × String) : String := "(" ++ arrowText p ++ ")"

def pairsText (ps : List (String × String)) : String := commas (ps.map pairText)

/-- Pairs of inputs and outputs that can be written: names of word characters, and each name once on its side. -/
structure IsPairing (ps : List (String × String)) : Prop where
  ne_nil : ps ≠ []
  words : ∀ p ∈ ps, consistsOf isWord p.1 ∧ consistsOf isWord p.2
  inputs_nodup : (ps.map Prod.fst).Nodup
  outputs_nodup : (ps.map Prod.snd).Nodup

/-- Characters of a side, which may have a parenthesis too many. -/
def isSideChar (c : Char) : Bool := isWord c || c == '(' || c == ')'

def IsArrow (p : String × String) : Prop := consistsOf isSideChar p.1 ∧ consistsOf isSideChar p.2

theorem isBlank_of_isSideChar {c : Char} (h : isSideChar c) : isBlank c = false := by
  simp only [isSideChar, Bool.or_eq_true, beq_iff_eq] at h
  rcases h with (h | rfl) | rfl
  · exact isBlank_of_isWord h
  · decide
  · decide

theorem consistsOf_isSideChar {s : String} (h : consistsOf isWord s) : consistsOf isSideChar s := by
  obtain ⟨hne, hchars⟩ := consistsOf_iff.mp h
  exact consistsOf_iff.mpr ⟨hne, fun c hc => by simp [isSideChar, hchars c hc]⟩

variable {p : String × String}

theorem IsPairing.isArrow (h : IsPairing ps) (hp : p ∈ ps) : IsArrow p :=
  ⟨consistsOf_isSideChar (h.words p hp).1, consistsOf_isSideChar (h.words p hp).2⟩

namespace IsArrow

variable {p : String × String}

theorem trimmed (h : IsArrow p) : Trimmed p.1.toList ∧ Trimmed p.2.toList :=
  ⟨trimmed_of_consistsOf h.1 fun _ => isBlank_of_isSideChar, trimmed_of_consistsOf h.2 fun _ => isBlank_of_isSideChar⟩

theorem trimmed_arrowText (h : IsArrow p) : Trimmed (arrowText p).toList := by
  rw [arrowText, String.toList_append, String.toList_append]
  exact h.trimmed.1.around h.trimmed.2 _

theorem comma_notMem_arrowText (h : IsArrow p) : ',' ∉ (arrowText p).toList := by
  simpa [arrowText] using ⟨notMem_of_consistsOf h.1, notMem_of_consistsOf h.2⟩

theorem splitText_arrowText (h : IsArrow p) : splitText "->" (arrowText p) = [p.1 ++ " ", " " ++ p.2] := by
  have hsides : arrowText p = (p.1 ++ " ") ++ "->" ++ (" " ++ p.2) := by
    rw [arrowText, ← String.toList_inj]
    simp
  rw [hsides]
  refine splitText_arrow ?_ ?_
  · simpa using notMem_of_consistsOf h.1
  · simpa using notMem_of_consistsOf h.2

theorem comma_notMem_pairText (h : IsArrow p) : ',' ∉ (pairText p).toList := by
  simpa [pairText] using h.comma_notMem_arrowText

end IsArrow

/-- **Run lemma.**  A loop in which every item stores a value under a key returns the table of the keys and values. -/
theorem foldlM_set {α ε : Type} {step : Texts → String → Except ε Texts}
    (text : α → String) (entry : α → String × String) {xs : List α}
    (hstep : ∀ x ∈ xs, ∀ t, step t (text x) = .ok (t.set (entry x).1 (entry x).2)) :
    (xs.map text).foldlM step [] = .ok (Table.ofList (xs.map entry)) := by
  have hrun : ∀ t, (xs.map text).foldlM step t = .ok (t.update (xs.map entry)) := by
    induction xs with
    | nil => exact fun t => rfl
    | cons x xs ih =>
      intro t
      rw [map_cons, foldlM_cons, hstep x (by simp) t]
      exact ih (fun y hy => hstep y (by simp [hy])) _
  exact hrun []

/-! ## 4. The readers that drop the parentheses of each pair -/

theorem pairHere?_cons {c : Char} {cs : List Char} (h : isWord c = false) : pairHere? (c :: cs) = none := by
  simp [pairHere?, run?, h]

/-- **Step lemma** of the reader for public functions. -/
theorem Api.addPair_pairText {op mode : String} {inputs outputs : List String}
    (hwords : consistsOf isWord p.1 ∧ consistsOf isWord p.2) (hdeclared : p.1 ∈ inputs ∧ p.2 ∈ outputs)
    (t : Texts) : Api.addPair op mode inputs outputs t (pairText p) = .ok (t.set p.2 p.1) := by
  obtain ⟨hne, hchars⟩ := consistsOf_iff.mp hwords.1
  obtain ⟨hne', hchars'⟩ := consistsOf_iff.mp hwords.2
  have hinput (cs : List Char) : run? isWord (p.1.toList ++ ' ' :: cs) = some (p.1.toList, ' ' :: cs) :=
    run?_append hne hchars (by simp; decide)
  have houtput : run? isWord (p.2.toList ++ [')']) = some (p.2.toList, [')']) :=
    run?_append hne' hchars' (by simp; decide)
  have hskip (cs : List Char) : skipBlanks (' ' :: '-' :: cs) = '-' :: cs := rfl
  have hskip' : skipBlanks (' ' :: (p.2.toList ++ [')'])) = p.2.toList ++ [')'] := by
    have htrim : Trimmed p.2.toList := trimmed_of_consistsOf hwords.2 fun _ => isBlank_of_isWord
    exact dropWhile_padded isBlank_of_mem_blank (any_head?_append htrim.1 _)
  have hhere : pairHere? (p.1.toList ++ ' ' :: '-' :: '>' :: ' ' :: (p.2.toList ++ [')'])) = some (p.1, p.2) := by
    simp [pairHere?, hinput, hskip, arrow?, hskip', houtput]
  -- the search passes over the parenthesis, which is no word character
  have hpair : pair? (pairText p) = some (p.1, p.2) := by
    have htext : (pairText p).toList = '(' :: (p.1.toList ++ ' ' :: '-' :: '>' :: ' ' :: (p.2.toList ++ [')'])) := by
      simp [pairText, arrowText]
    rw [pair?, htext, firstSuffix?, pairHere?_cons (by decide)]
    exact firstSuffix?_of_eq_some hhere
  have hmem : inputs.elem p.1 := by simpa using hdeclared.1
  have hmem' : outputs.elem p.2 := by simpa using hdeclared.2
  simp only [Api.addPair, hpair, ensure_of_eq_true hmem, ensure_of_eq_true hmem', ok_bind, pure_eq_ok]

theorem Api.addPair_blank (op mode : String) (inputs outputs : List String) (t : Texts) (s : String) :
    Api.addPair op mode inputs outputs t (" " ++ s) = Api.addPair op mode inputs outputs t s := by
  have hblank : isWord ' ' = false := by decide
  have hpair : pair? (" " ++ s) = pair? s := by simp [pair?, firstSuffix?, pairHere?_cons hblank]
  rw [Api.addPair, Api.addPair, hpair]

/-- **Step lemma** of the eager reader. -/
theorem Eager.addInplace_pairText (h : IsArrow p) (t : Texts) :
    addInplace t (pairText p) = .ok (t.set p.1 p.2) := by
  have hstrip : strip (pairText p) = pairText p := strip_parenthesised (arrowText p)
  have hparens : withoutParens (pairText p) = arrowText p := by
    have hstart : hasStart "(" (pairText p) :=
      isPrefixOf_iff_prefix.mpr ⟨(arrowText p ++ ")").toList, by simp [pairText]⟩
    have hdrop : dropFirst 1 (pairText p) = arrowText p ++ ")" := by
      rw [dropFirst, ← String.toList_inj]
      simp [pairText]
    have hend : hasEnd ")" (arrowText p ++ ")") := isSuffixOf_iff_suffix.mpr ⟨(arrowText p).toList, by simp⟩
    simp only [withoutParens, hstart, if_true, hdrop, hend]
    exact dropLast_append (c := ')') (by simp)
  unfold addInplace
  rw [hstrip, hparens, h.splitText_arrowText]
  simp [strip_append_blank h.trimmed.1, strip_blank_append h.trimmed.2]

theorem Eager.addInplace_blank (t : Texts) (s : String) :
    addInplace t (" " ++ s) = addInplace t s := by
  unfold addInplace
  rw [strip_blank_left]

/-! ## 5. The reader that drops the outer parentheses only -/

/-- The two sides of each pair when only the parentheses at the ends of the list are dropped: every pair but the first
keeps its opening parenthesis, every pair but the last its closing one. -/
def outerDropped (first : Bool) : List (String × String) → List (String × String)
  | [] => []
  | [p] => [((if first then "" else "(") ++ p.1, p.2)]
  | p :: q :: ps => ((if first then "" else "(") ++ p.1, p.2 ++ ")") :: outerDropped false (q :: ps)

/-- **Step lemma** of the canonical reader. -/
theorem addInplace_arrowText (h : IsArrow p) (t : Texts) :
    addInplace t (arrowText p) = .ok (t.set p.2 p.1) := by
  simp [addInplace, strip_of_trimmed h.trimmed_arrowText, h.splitText_arrowText, strip_append_blank h.trimmed.1,
    strip_blank_append h.trimmed.2]

section OuterDropped

variable {ps : List (String × String)} {first : Bool}

theorem outerDropped_ne_nil (first : Bool) (hne : ps ≠ []) : outerDropped first ps ≠ [] := by
  cases ps with
  | nil => exact absurd rfl hne
  | cons p ps => cases ps <;> simp [outerDropped]

/-- Put the parentheses back at the ends and the list is as it was written. -/
theorem pairsText_eq (hne : ps ≠ []) (first : Bool) :
    pairsText ps = (if first then "(" else "") ++ commas ((outerDropped first ps).map arrowText) ++ ")" := by
  induction ps generalizing first with
  | nil => exact absurd rfl hne
  | cons p ps ih =>
    cases ps with
    | nil => cases first <;> simp [pairsText, outerDropped, commas_singleton, pairText, arrowText, String.append_assoc]
    | cons q ps =>
      obtain ⟨r, rs, hr⟩ := exists_cons_of_ne_nil (outerDropped_ne_nil false (cons_ne_nil q ps))
      have hrest := ih (by simp) false
      simp only [Bool.false_eq_true, if_false, String.empty_append] at hrest
      rw [pairsText, map_cons, map_cons, commas_cons_cons, ← map_cons, ← pairsText, hrest, outerDropped,
        map_cons, hr, map_cons, commas_cons_cons]
      cases first <;> simp [pairText, arrowText, String.append_assoc]

/-- The sides of a pair have a parenthesis more or not. -/
theorem exists_of_mem_outerDropped {s : String × String} (hs : s ∈ outerDropped first ps) :
    ∃ p ∈ ps, (s.1 = p.1 ∨ s.1 = "(" ++ p.1) ∧ (s.2 = p.2 ∨ s.2 = p.2 ++ ")") := by
  induction ps generalizing first with
  | nil => simp [outerDropped] at hs
  | cons p ps ih =>
    cases ps with
    | nil =>
      obtain rfl := mem_singleton.mp hs
      exact ⟨p, .head _, by cases first <;> simp, .inl rfl⟩
    | cons q ps =>
      rcases mem_cons.mp hs with rfl | hs
      · exact ⟨p, .head _, by cases first <;> simp, .inr rfl⟩
      · obtain ⟨r, hr, hsides⟩ := ih hs
        exact ⟨r, .tail _ hr, hsides⟩

theorem isArrow_of_mem_outerDropped (first : Bool) (h : ∀ p ∈ ps, IsArrow p) :
    ∀ s ∈ outerDropped first ps, IsArrow s := by
  intro s hs
  obtain ⟨p, hp, hleft, hright⟩ := exists_of_mem_outerDropped hs
  obtain ⟨hl, hr⟩ := h p hp
  have hparens : isSideChar '(' ∧ isSideChar ')' := by decide
  have hopen : consistsOf isSideChar ("(" ++ p.1) := by simpa [consistsOf, hparens] using (consistsOf_iff.mp hl).2
  have hclose : consistsOf isSideChar (p.2 ++ ")") := by simpa [consistsOf, hparens] using (consistsOf_iff.mp hr).2
  constructor
  · rcases hleft with h | h <;> rwa [h]
  · rcases hright with h | h <;> rwa [h]

theorem nodup_outerDropped (first : Bool) (hwords : ∀ p ∈ ps, consistsOf isWord p.2) (hnd : (ps.map Prod.snd).Nodup) :
    ((outerDropped first ps).map Prod.snd).Nodup := by
  induction ps generalizing first with
  | nil => simp [outerDropped]
  | cons p ps ih =>
    cases ps with
    | nil => simp [outerDropped]
    | cons q ps =>
      obtain ⟨hp, hnd⟩ := nodup_cons.mp hnd
      rw [outerDropped, map_cons, nodup_cons]
      refine ⟨fun hmem => ?_, ih false (fun r hr => hwords r (by simp [hr])) hnd⟩
      obtain ⟨s, hs, hsecond⟩ := mem_map.mp hmem
      obtain ⟨r, hr, -, hk | hk⟩ := exists_of_mem_outerDropped hs
      · -- a name has no parenthesis
        have hparen : ')' ∉ r.2.toList := notMem_of_consistsOf (hwords r (.tail _ hr))
        exact hparen (by simp [← hk, hsecond])
      · have heq : p.2 = r.2 := by simpa using hsecond.symm.trans hk
        exact hp (heq ▸ mem_map_of_mem hr)

end OuterDropped

theorem head?_outerDropped (h : IsPairing ps) :
    (commas ((outerDropped true ps).map arrowText)).toList.head?.any isWord := by
  cases ps with
  | nil => exact absurd rfl h.ne_nil
  | cons p ps =>
    obtain ⟨hne, hchars⟩ := consistsOf_iff.mp (h.words p (by simp)).1
    have hhead := (any_ends hne hchars).1
    cases ps with
    | nil =>
      simp only [outerDropped, map_singleton, commas_singleton, if_true, String.empty_append, arrowText,
        String.toList_append, append_assoc]
      exact any_head?_append hhead _
    | cons q ps =>
      obtain ⟨r, rs, hr⟩ := exists_cons_of_ne_nil (outerDropped_ne_nil false (cons_ne_nil q ps))
      simp only [outerDropped, map_cons, hr, commas_cons_cons, if_true, String.empty_append, arrowText,
        String.toList_append, append_assoc]
      exact any_head?_append hhead _

theorem getLast?_outerDropped (hne : ps ≠ []) (h : ∀ p ∈ ps, consistsOf isWord p.2) (first : Bool) :
    (commas ((outerDropped first ps).map arrowText)).toList.getLast?.any isWord := by
  induction ps generalizing first with
  | nil => exact absurd rfl hne
  | cons p ps ih =>
    cases ps with
    | nil =>
      rw [outerDropped, map_singleton, commas_singleton, arrowText, String.toList_append]
      obtain ⟨hne, hchars⟩ := consistsOf_iff.mp (h p (by simp))
      exact any_getLast?_append (any_ends hne hchars).2 _
    | cons q ps =>
      obtain ⟨r, rs, hr⟩ := exists_cons_of_ne_nil (outerDropped_ne_nil false (cons_ne_nil q ps))
      have hlast := ih (by simp) (fun s hs => h s (by simp [hs])) false
      rw [hr, map_cons] at hlast
      rw [outerDropped, map_cons, hr, map_cons, commas_cons_cons, String.toList_append]
      exact any_getLast?_append hlast _

/-- Only one parenthesis is dropped at each end, since there is a name behind it. -/
theorem stripParens_pairsText (h : IsPairing ps) :
    stripRightOf ')' (stripLeftOf '(' (pairsText ps)) = commas ((outerDropped true ps).map arrowText) := by
  have hclass : ∀ {o : Option Char} {c : Char}, isWord c = false → o.any isWord → o.any (fun d => !(d == c)) := by
    intro o c hc ho
    cases o with
    | none => cases ho
    | some d => simpa using fun heq : d = c => absurd ho (by simp [heq, hc])
  generalize hX : commas ((outerDropped true ps).map arrowText) = X
  have htext : (pairsText ps).toList = ['('] ++ (X.toList ++ [')']) := by
    rw [pairsText_eq h.ne_nil true, hX]
    simp
  have hleft : stripLeftOf '(' (pairsText ps) = X ++ ")" := by
    rw [stripLeftOf, htext, dropWhile_padded (by simp) (any_head?_append ?_ _), ← String.toList_inj]
    · simp
    · exact hclass (by decide) (hX ▸ head?_outerDropped h)
  have hright : (X.toList ++ [')']).reverse.dropWhile (· == ')') = X.toList.reverse := by
    rw [reverse_append]
    refine dropWhile_padded (by simp) ?_
    rw [head?_reverse]
    exact hclass (by decide) (hX ▸ getLast?_outerDropped h.ne_nil (fun p hp => (h.words p hp).2) true)
  have hchars : (X ++ ")").toList = X.toList ++ [')'] := by simp
  rw [hleft, stripRightOf, dropRight, hchars, hright, reverse_reverse, String.ofList_toList]

theorem readInplace_pairsText (h : IsPairing ps) :
    readInplace (pairsText ps) = .ok ((outerDropped true ps).map Prod.swap) := by
  have harrows := isArrow_of_mem_outerDropped true fun p hp => h.isArrow hp
  have hkeys : (Table.keys ((outerDropped true ps).map Prod.swap)).Nodup := by
    simpa [Table.keys, Function.comp_def] using nodup_outerDropped true (fun p hp => (h.words p hp).2) h.outputs_nodup
  have hparts : commaList (commas ((outerDropped true ps).map arrowText)) = (outerDropped true ps).map arrowText := by
    refine splitStrip_commas (by simpa using outerDropped_ne_nil true h.ne_nil) ?_ ?_
    · exact forall_mem_map.mpr fun p hp => (harrows p hp).trimmed_arrowText
    · exact forall_mem_map.mpr fun p hp => (harrows p hp).comma_notMem_arrowText
  rw [readInplace, stripParens_pairsText h, hparts,
    foldlM_set arrowText Prod.swap fun p hp t => addInplace_arrowText (harrows p hp) t, Table.ofList_of_nodup hkeys]

/-! ## 6. What the readers return -/

/-- **What the three readers take from a written list of pairs.**  For every list of pairs of declared names the reader
for public functions returns the map from outputs to inputs and the eager reader the map from inputs to outputs.  The
canonical reader returns the map from outputs to inputs in which the parentheses between the pairs belong to the names,
so it agrees with the others if and only if there is one pair. -/
theorem inplace_readers (op mode : String) {inputs outputs : List String} {ps : List (String × String)}
    (h : IsPairing ps) (hdeclared : ∀ p ∈ ps, p.1 ∈ inputs ∧ p.2 ∈ outputs) :
    Api.readPairs op mode inputs outputs (some (pairsText ps)) = .ok (ps.map Prod.swap) ∧
      Eager.readInplace (pairsText ps) = .ok ps ∧
      readInplace (pairsText ps) = .ok ((outerDropped true ps).map Prod.swap) ∧
      (readInplace (pairsText ps) = .ok (ps.map Prod.swap) ↔ ps.length = 1) := by
  have htexts : ∀ s ∈ ps.map pairText, ',' ∉ s.toList := by
    intro s hs
    obtain ⟨p, hp, rfl⟩ := mem_map.mp hs
    exact (h.isArrow hp).comma_notMem_pairText
  have hne : ps.map pairText ≠ [] := by simpa using h.ne_nil
  refine ⟨?_, ?_, readInplace_pairsText h, ?_⟩
  · have hkeys : (Table.keys (ps.map Prod.swap)).Nodup := by
      simpa [Table.keys, Function.comp_def] using h.outputs_nodup
    rw [Api.readPairs, pairsText, foldlM_split_commas (Api.addPair_blank op mode inputs outputs) hne htexts,
      foldlM_set pairText Prod.swap fun p hp t => Api.addPair_pairText (h.words p hp) (hdeclared p hp) t,
      Table.ofList_of_nodup hkeys]
  · have hkeys : (Table.keys (ps.map id)).Nodup := by simpa [Table.keys] using h.inputs_nodup
    rw [Eager.readInplace, pairsText, foldlM_split_commas Eager.addInplace_blank hne htexts,
      foldlM_set pairText id fun p hp t => Eager.addInplace_pairText (h.isArrow hp) t, Table.ofList_of_nodup hkeys,
      map_id]
  · rw [readInplace_pairsText h]
    cases ps with
    | nil => exact absurd rfl h.ne_nil
    | cons p ps =>
      obtain ⟨input, output⟩ := p
      cases ps with
      | nil | cons => simp [outerDropped]

/-- Two pairs, of which the canonical reader takes the parentheses in the middle for parts of names. -/
theorem inplace_readers_two : IsPairing [("x", "out"), ("y", "mean")] ∧
      Api.readPairs "f" "inplace" ["x", "y"] ["out", "mean"] (some "(x -> out), (y -> mean)") =
        .ok [("out", "x"), ("mean", "y")] ∧
      Eager.readInplace "(x -> out), (y -> mean)" = .ok [("x", "out"), ("y", "mean")] ∧
      readInplace "(x -> out), (y -> mean)" = .ok [("out)", "x"), ("mean", "(y")] := by
  have hpairing : IsPairing [("x", "out"), ("y", "mean")] :=
    ⟨by simp, by decide +kernel, by decide, by decide⟩
  have hdeclared : ∀ p ∈ [("x", "out"), ("y", "mean")], p.1 ∈ ["x", "y"] ∧ p.2 ∈ ["out", "mean"] := by decide
  obtain ⟨hapi, heager, hcanonical, -⟩ := inplace_readers "f" "inplace" hpairing hdeclared
  exact ⟨hpairing, hapi, heager, hcanonical⟩

end TensorKit.Operator
