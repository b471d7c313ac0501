import TensorKit.Proofs.Text.Cutting
/-!
# Blanks and separators of any text

Readers differ in when they drop blanks: some before a text is cut, some after, some both times.  On every text the
order does not matter:

* dropping the blanks at the ends twice is dropping them once (`strip_strip`);
* dropping them from the whole before it is cut changes none of the parts without blanks (`splitStrip_strip`);
* what stands before the first separator is the first part (`headD_split`), and it is what `cut?` returns
  (`cut?_eq_some`);
* a text has one part more than separators (`length_splitStrip`), and what follows a text changes its last part only
  (`dropLast_splitOn_isPrefix`).
-/

namespace TensorKit.Text

open List

/-! ## 1. Dropping blanks twice -/

variable {p : Char → Bool} {sep : Char}

/-- What is dropped from the right end are characters of the class. -/
theorem exists_eq_dropRight_append (p : Char → Bool) (cs : List Char) :
    ∃ r, cs = dropRight p cs ++ r ∧ ∀ c ∈ r, p c :=
  ⟨cs.rtakeWhile p, (rdropWhile_append_rtakeWhile ..).symm, fun _ => mem_rtakeWhile_imp⟩

theorem dropRight_append {cs r : List Char} (hr : ∀ c ∈ r, p c) : dropRight p (cs ++ r) = dropRight p cs := by
  rw [dropRight, reverse_append, dropWhile_append_of_pos (by simpa using hr), dropRight]

theorem dropRight_sublist (p : Char → Bool) (cs : List Char) : (dropRight p cs).Sublist cs :=
  ( rdropWhile_prefix p cs).sublist

theorem stripChars_dropWhile (cs : List Char) : stripChars p (cs.dropWhile p) = stripChars p cs := by
  rw [stripChars, dropWhile_idempotent, stripChars]

theorem stripChars_dropRight (cs : List Char) : stripChars p (dropRight p cs) = stripChars p cs := by
  obtain ⟨r, heq, hr⟩ := exists_eq_dropRight_append p cs
  -- the characters of the class at the right end are all there is, or they are dropped after the left end
  have hright : stripChars p (dropRight p cs ++ r) = stripChars p (dropRight p cs) := by
    have hnil := dropWhile_eq_nil_iff.mpr hr
    rw [stripChars, dropWhile_append, stripChars]
    split
    next hempty => rw [hnil, isEmpty_iff.mp hempty]
    · exact dropRight_append hr
  rw [← hright, ← heq]

theorem strip_strip (s : String) : strip (strip s) = strip s := by
  rw [strip, strip, String.toList_ofList]
  nth_rewrite 2 [stripChars]
  rw [stripChars_dropRight, stripChars_dropWhile]

/-! ## 2. Cutting any text -/

theorem exists_of_mem_toList {s : String} (h : sep ∈ s.toList) :
    ∃ a b : String, s.toList = a.toList ++ sep :: b.toList ∧ sep ∉ a.toList := by
  obtain ⟨a, b, heq, ha⟩ := eq_append_cons_of_mem h
  exact ⟨.ofList a, .ofList b, by simpa using heq, by simpa using ha⟩

theorem cut?_eq_some {s a b : String} (h : cut? sep s = some (a, b)) :
    s.toList = a.toList ++ sep :: b.toList ∧ sep ∉ a.toList := by
  by_cases hmem : sep ∈ s.toList
  · obtain ⟨a', b', heq, ha'⟩ := exists_of_mem_toList hmem
    rw [cut?_append heq ha'] at h
    obtain ⟨rfl, rfl⟩ := Prod.mk.inj (Option.some.inj h)
    exact ⟨heq, ha'⟩
  · rw [cut?_of_notMem hmem] at h
    cases h

theorem notMem_of_cut?_eq_none {s : String} (h : cut? sep s = none) : sep ∉ s.toList := by
  intro hmem
  obtain ⟨a, b, heq, ha⟩ := exists_of_mem_toList hmem
  rw [cut?_append heq ha] at h
  cases h

theorem headD_split (sep : Char) (s : String) : (split sep s).headD "" = before sep s := by
  by_cases hmem : sep ∈ s.toList
  · obtain ⟨a, b, heq, ha⟩ := exists_of_mem_toList hmem
    rw [split_append heq ha, before_append heq ha, headD_cons]
  · rw [split_of_notMem hmem, before_of_notMem hmem, headD_cons]

/-! ## 3. Blanks of the whole and of the parts -/

theorem map_stripChars_splitOn_dropWhile (hsep : p sep = false) (cs : List Char) :
    ((cs.dropWhile p).splitOn sep).map (stripChars p) = (cs.splitOn sep).map (stripChars p) := by
  by_cases hmem : sep ∈ cs
  · obtain ⟨a, b, rfl, ha⟩ := eq_append_cons_of_mem hmem
    have hdrop : (a ++ sep :: b).dropWhile p = a.dropWhile p ++ sep :: b := by
      rw [dropWhile_append]
      split
      next hempty => rw [dropWhile_cons_of_neg (by simp [hsep]), isEmpty_iff.mp hempty, nil_append]
      · rfl
    have ha' : sep ∉ a.dropWhile p := fun h => ha ((dropWhile_sublist p).mem h)
    rw [hdrop, splitOn_append_cons_self_of_not_mem ha', splitOn_append_cons_self_of_not_mem ha,
      map_cons, map_cons, stripChars_dropWhile]
  · have hmem' : sep ∉ cs.dropWhile p := fun h => hmem ((dropWhile_sublist p).mem h)
    rw [splitOn_eq_singleton hmem, splitOn_eq_singleton hmem', map_singleton, map_singleton,
      stripChars_dropWhile]

theorem map_stripChars_splitOn_dropRight (hsep : p sep = false) (cs : List Char) :
    ((dropRight p cs).splitOn sep).map (stripChars p) = (cs.splitOn sep).map (stripChars p) := by
  by_cases hmem : sep ∈ cs
  · -- the last separator: only the part behind it has characters to lose
    obtain ⟨b, a, heq, hb⟩ := eq_append_cons_of_mem (mem_reverse.mpr hmem)
    obtain rfl : cs = a.reverse ++ sep :: b.reverse := by
      rw [← reverse_reverse cs, heq]
      simp
    have hb' : sep ∉ b.reverse := by simpa using hb
    have hdrop : dropRight p (a.reverse ++ sep :: b.reverse) = a.reverse ++ sep :: dropRight p b.reverse := by
      rw [dropRight, heq, dropWhile_append, dropRight, reverse_reverse]
      split
      next hempty =>
        rw [dropWhile_cons_of_neg (by simp [hsep]), isEmpty_iff.mp hempty]
        simp
      · simp
    have hb'' : sep ∉ dropRight p b.reverse := fun h => hb' ((dropRight_sublist p _).mem h)
    rw [hdrop, splitOn_append_cons_self, splitOn_append_cons_self, splitOn_eq_singleton hb',
      splitOn_eq_singleton hb'', map_append, map_append, map_singleton, map_singleton,
      stripChars_dropRight]
  · have hmem' : sep ∉ dropRight p cs := fun h => hmem ((dropRight_sublist p cs).mem h)
    rw [splitOn_eq_singleton hmem, splitOn_eq_singleton hmem', map_singleton, map_singleton,
      stripChars_dropRight]

/-- **Blanks at the ends of a text are blanks at the ends of its parts.** -/
theorem splitStrip_strip (hsep : isBlank sep = false) (s : String) : splitStrip sep (strip s) = splitStrip sep s := by
  have hparts : ∀ t, splitStrip sep t = ((t.toList.splitOn sep).map (stripChars isBlank)).map .ofList := by
    intro t
    simp [splitStrip, split, strip]
  rw [hparts, hparts, strip, String.toList_ofList, stripChars, map_stripChars_splitOn_dropRight hsep,
    map_stripChars_splitOn_dropWhile hsep]

/-! ## 4. Ends and beginnings -/

/-- A text is its stripped text between what is dropped, blanks on the left. -/
theorem exists_eq_strip_append (s : String) : ∃ l r, s.toList = l ++ (strip s).toList ++ r ∧
    ∀ c ∈ l, isBlank c := by
  obtain ⟨r, hr, -⟩ := exists_eq_dropRight_append isBlank (s.toList.dropWhile isBlank)
  refine ⟨s.toList.takeWhile isBlank, r, ?_, fun c hc => mem_takeWhile_imp hc⟩
  rw [strip, String.toList_ofList, stripChars, append_assoc, ← hr, takeWhile_append_dropWhile]

theorem splitOn_cons (sep c : Char) (cs : List Char) :
    (c :: cs).splitOn sep = if c = sep then [] :: cs.splitOn sep else (cs.splitOn sep).modifyHead (c :: ·) := by
  simp [splitOn, splitOnP_cons_eq_if_modifyHead]

theorem length_splitStrip (sep : Char) (s : String) : (splitStrip sep s).length = s.toList.count sep + 1 := by
  have hcount (cs : List Char) : (cs.splitOn sep).length = cs.count sep + 1 := by
    induction cs with
    | nil => rfl
    | cons c cs ih =>
      rw [splitOn_cons]
      split
      next h => rw [length_cons, ih, h, count_cons_self]
      next h => rw [length_modifyHead, ih, count_cons_of_ne h]
  rw [splitStrip, split, length_map, length_map, hcount]

/-- What follows a text changes its last part only. -/
theorem dropLast_splitOn_isPrefix (sep : Char) (as bs : List Char) :
    (as.splitOn sep).dropLast <+: (as ++ bs).splitOn sep := by
  induction as with
  | nil => exact nil_prefix
  | cons c as ih =>
    obtain ⟨x, xs, hxs⟩ := exists_cons_of_ne_nil (splitOn_ne_nil sep as)
    obtain ⟨y, ys, hys⟩ := exists_cons_of_ne_nil (splitOn_ne_nil sep (as ++ bs))
    rw [hxs, hys] at ih
    rw [cons_append, splitOn_cons, splitOn_cons, hxs, hys]
    split
    · exact cons_prefix_cons.mpr ⟨rfl, ih⟩
    · cases xs with
      | nil => exact nil_prefix
      | cons x' xs =>
        obtain ⟨rfl, hinit⟩ := cons_prefix_cons.mp ih
        exact cons_prefix_cons.mpr ⟨rfl, hinit⟩

end TensorKit.Text
