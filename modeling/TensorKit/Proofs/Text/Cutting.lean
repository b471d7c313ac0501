import Mathlib.Data.List.DropRight
import TensorKit.Operator.Pattern
/-!
# Cutting what was joined

Readers cut a text at a separator and drop the blanks at the ends of the parts.  On a text that was joined from parts
this gives the parts back:

* a text that begins and ends with a visible character (`Trimmed`) is what is left when blanks around it are dropped
  (`strip_padded`);
* a part without the separator is cut off in front of it (`split_append`, `cut?_append`), and a list joined with a comma
  and a blank is cut into the parts with the blanks of the commas (`split_commas`), or without them
  (`splitStrip_commas`); so is one without the first character of a longer separator (`pieces_append`);
* a run of a class of characters ends at the first character outside of it (`run?_append`, `enclosed?_append`).
-/

namespace TensorKit.Text

open List

variable {c : Char} {s : String}

/-! ## 1. Blanks at the ends -/

/-- The list begins and ends with a character that is no blank. -/
def Trimmed (cs : List Char) : Prop := cs.head?.any (!isBlank ·) ∧ cs.getLast?.any (!isBlank ·)

instance (cs : List Char) : Decidable (Trimmed cs) := inferInstanceAs (Decidable (_ ∧ _))

theorem Trimmed.ne_nil {cs : List Char} (h : Trimmed cs) : cs ≠ [] := by
  rintro rfl
  exact absurd h.1 (by decide)

section Ends

variable {p : Char → Bool} {a b : List Char}

theorem any_head?_append (ha : a.head?.any p) (b : List Char) : (a ++ b).head?.any p := by
  cases a with
  | nil => cases ha
  | cons c a => exact ha

theorem any_getLast?_append (hb : b.getLast?.any p) (a : List Char) : (a ++ b).getLast?.any p := by
  have := any_head?_append (by rwa [head?_reverse]) a.reverse
  rwa [← reverse_append, head?_reverse] at this

theorem any_ends (hne : a ≠ []) (h : ∀ c ∈ a, p c) : a.head?.any p ∧ a.getLast?.any p := by
  rw [head?_eq_some_head hne, getLast?_eq_some_getLast hne]
  exact ⟨h _ (head_mem hne), h _ (getLast_mem hne)⟩

end Ends

/-- What stands in the middle does not matter. -/
theorem Trimmed.around {a c : List Char} (ha : Trimmed a) (hc : Trimmed c) (b : List Char) : Trimmed (a ++ b ++ c) := by
  refine ⟨?_, any_getLast?_append hc.2 _⟩
  rw [append_assoc]
  exact any_head?_append ha.1 _

theorem trimmed_of_forall {cs : List Char} (hne : cs ≠ []) (h : ∀ c ∈ cs, isBlank c = false) : Trimmed cs :=
  any_ends hne (by simpa using h)

theorem dropWhile_padded {p : Char → Bool} {l cs : List Char} (hl : ∀ c ∈ l, p c) (hcs : cs.head?.any (!p ·)) :
    (l ++ cs).dropWhile p = cs := by
  rw [dropWhile_append_of_pos hl]
  cases cs with
  | nil => rfl
  | cons c cs =>
    have hc : p c = false := by simpa using hcs
    rw [dropWhile_cons_of_neg (by simp [hc])]

/-- **Dropping the blanks around a trimmed text.** -/
theorem strip_padded {l r : String} (hl : ∀ c ∈ l.toList, isBlank c) (hs : Trimmed s.toList)
    (hr : ∀ c ∈ r.toList, isBlank c) : strip (l ++ s ++ r) = s := by
  have hleft : (l.toList ++ (s.toList ++ r.toList)).dropWhile isBlank = s.toList ++ r.toList :=
    dropWhile_padded hl (any_head?_append hs.1 _)
  have hright : (r.toList.reverse ++ s.toList.reverse).dropWhile isBlank = s.toList.reverse := by
    refine dropWhile_padded (by simpa using hr) ?_
    rw [head?_reverse]
    exact hs.2
  rw [strip, stripChars, dropRight, String.toList_append, String.toList_append, append_assoc, hleft,
    reverse_append, hright, reverse_reverse, String.ofList_toList]

theorem isBlank_of_lt {c : Char} (h : 32 < c.toNat ∧ c.toNat < 128) : isBlank c = false := by
  simp only [isBlank, blankRanges, any_cons, any_nil, Bool.or_false, Bool.or_eq_false_iff, Bool.and_eq_false_iff,
    decide_eq_false_iff_not]
  omega

theorem isBlank_of_mem_blank : ∀ c ∈ " ".toList, isBlank c := by
  have hblank : isBlank ' ' := by decide
  simpa using hblank

theorem strip_of_trimmed (hs : Trimmed s.toList) : strip s = s := by
  have h := strip_padded (l := "") (r := "") (by simp) hs (by simp)
  simpa using h

theorem strip_blank_append (hs : Trimmed s.toList) : strip (" " ++ s) = s := by
  have h := strip_padded (l := " ") (r := "") isBlank_of_mem_blank hs (by simp)
  simpa using h

theorem strip_append_blank (hs : Trimmed s.toList) : strip (s ++ " ") = s := by
  have h := strip_padded (l := "") (r := " ") (by simp) hs isBlank_of_mem_blank
  simpa using h

/-- A blank in front is dropped from any text. -/
theorem strip_blank_left (s : String) : strip (" " ++ s) = strip s := by
  have hblank : isBlank ' ' := by decide
  simp [strip, stripChars, hblank]

/-- A text from which nothing is dropped is trimmed or empty. -/
theorem trimmed_of_strip_eq (hne : s ≠ "") (h : strip s = s) : Trimmed s.toList := by
  have hnil : s.toList ≠ [] := by simpa using hne
  have hcs : (s.toList.dropWhile isBlank).rdropWhile isBlank = s.toList := by
    have hchars := congrArg String.toList h
    rwa [strip, String.toList_ofList] at hchars
  -- neither end loses a character, since both only make the list shorter
  have hle := ( rdropWhile_prefix isBlank (s.toList.dropWhile isBlank)).length_le
  rw [hcs] at hle
  have hleft : s.toList.dropWhile isBlank = s.toList := (dropWhile_suffix isBlank).eq_of_length_le hle
  rw [hleft, rdropWhile_eq_self_iff] at hcs
  rw [dropWhile_eq_self_iff] at hleft
  constructor
  · rw [head?_eq_getElem?, getElem?_eq_getElem (length_pos_of_ne_nil hnil)]
    simpa using hleft (length_pos_of_ne_nil hnil)
  · rw [getLast?_eq_some_getLast hnil]
    simpa using hcs hnil

/-- A text that is not empty and has only characters of a class. -/
def consistsOf (p : Char → Bool) (s : String) : Bool := !s.isEmpty && s.toList.all p

section consistsOf

variable {p : Char → Bool}

theorem consistsOf_iff : consistsOf p s ↔ s.toList ≠ [] ∧ ∀ c ∈ s.toList, p c := by simp [consistsOf]

theorem ne_empty_of_consistsOf (h : consistsOf p s) : (!s.isEmpty) := by simpa using (consistsOf_iff.mp h).1

theorem notMem_of_consistsOf (h : consistsOf p s) (hc : p c = false := by decide) : c ∉ s.toList := by
  intro hmem
  rw [(consistsOf_iff.mp h).2 c hmem] at hc
  cases hc

theorem trimmed_of_consistsOf (h : consistsOf p s) (hp : ∀ c, p c → isBlank c = false) : Trimmed s.toList :=
  trimmed_of_forall (consistsOf_iff.mp h).1 fun c hc => hp c ((consistsOf_iff.mp h).2 c hc)

end consistsOf

/-! ## 2. Separators -/

variable {sep : Char} {xs : List String}

theorem split_append {a b : String} (hs : s.toList = a.toList ++ sep :: b.toList) (ha : sep ∉ a.toList) :
    split sep s = a :: split sep b := by
  have hpart : ∀ c ∈ a.toList, (c == sep) = false := fun c hc => by
    simpa using fun h : c = sep => ha (h ▸ hc)
  rw [split, hs, splitOn_eq_splitOnP, splitOnP_append_cons_of_forall_mem hpart sep (by simp),
    map_cons, String.ofList_toList]
  rfl

theorem split_of_notMem (h : sep ∉ s.toList) : split sep s = [s] := by
  rw [split, splitOn_eq_singleton h, map_singleton, String.ofList_toList]

/-- A run of a class ends at the first character outside of it. -/
theorem takeWhile_append_stop {p : Char → Bool} {a b : List Char} (ha : ∀ c ∈ a, p c)
    (hb : ∀ c ∈ b.head?, p c = false) : (a ++ b).takeWhile p = a ∧ (a ++ b).dropWhile p = b := by
  rw [takeWhile_append_of_pos ha, dropWhile_append_of_pos ha]
  cases b with
  | nil => simp
  | cons c b => simp [hb c (by simp)]

theorem takeWhile_ne_append {a b : List Char} (ha : sep ∉ a) :
    (a ++ sep :: b).takeWhile (· != sep) = a ∧ (a ++ sep :: b).dropWhile (· != sep) = sep :: b :=
  takeWhile_append_stop (fun c hc => by simpa using fun h : c = sep => ha (h ▸ hc)) (by simp)

theorem takeWhile_ne_of_notMem {a : List Char} (ha : sep ∉ a) :
    a.takeWhile (· != sep) = a ∧ a.dropWhile (· != sep) = [] := by
  simpa using takeWhile_append_stop (a := a) (b := []) (p := (· != sep))
    (fun c hc => by simpa using fun h : c = sep => ha (h ▸ hc)) (by simp)

theorem cut?_append {a b : String} (hs : s.toList = a.toList ++ sep :: b.toList) (ha : sep ∉ a.toList) :
    cut? sep s = some (a, b) := by
  obtain ⟨htake, hdrop⟩ := takeWhile_ne_append (b := b.toList) ha
  simp [cut?, hs, htake, hdrop]

theorem cut?_of_notMem (h : sep ∉ s.toList) : cut? sep s = none := by simp [cut?, (takeWhile_ne_of_notMem h).2]

theorem before_append {a : String} {b : List Char} (hs : s.toList = a.toList ++ sep :: b) (ha : sep ∉ a.toList) :
    before sep s = a := by
  rw [before, hs, (takeWhile_ne_append ha).1, String.ofList_toList]

theorem before_of_notMem (h : sep ∉ s.toList) : before sep s = s := by
  rw [before, (takeWhile_ne_of_notMem h).1, String.ofList_toList]

theorem dropLast_append {a : String} (hs : s.toList = a.toList ++ [c]) : dropLast 1 s = a := by
  rw [dropLast, hs, length_append, length_singleton, Nat.add_sub_cancel, take_left, String.ofList_toList]

theorem hasInfix_iff {sub cs : List Char} : hasInfix sub cs ↔ sub <:+: cs := by
  induction cs with
  | nil => simp [hasInfix]
  | cons d cs ih => simp [hasInfix, ih, infix_cons_iff]

theorem contains_iff {sub : String} : contains sub s ↔ sub.toList <:+: s.toList := hasInfix_iff

theorem append_cons_inj {a b d e : List Char} (hd : c ∉ d) (he : c ∉ e) (h : a ++ c :: d = b ++ c :: e) :
    a = b ∧ d = e := by
  rcases append_eq_append_iff.mp h with ⟨m, rfl, hm⟩ | ⟨m, rfl, hm⟩
  all_goals
    cases m with
    | nil | cons => simp_all

section pieces

variable {sep a b : List Char}

theorem piecesFrom_append (sep a b : List Char) : piecesFrom sep a.length (a ++ b) = piecesFrom sep 0 b := by
  induction a with
  | nil => rfl
  | cons d a ih => rw [length_cons, cons_append, piecesFrom, ih]

theorem isPrefixOf_cons_of_ne {d : Char} {ds : List Char} (h : d ≠ c) : (c :: sep).isPrefixOf (d :: ds) = false := by
  simp [isPrefixOf, h.symm]

/-- A part that has not the first character of the separator is cut off in front of the separator. -/
theorem pieces_append (ha : c ∉ a) : pieces (c :: sep) (a ++ (c :: sep) ++ b) = a :: pieces (c :: sep) b := by
  induction a with
  | nil =>
    have hpre : (c :: sep).isPrefixOf (c :: (sep ++ b)) := isPrefixOf_iff_prefix.mpr ⟨b, by simp⟩
    simp [pieces, piecesFrom, piecesFrom_append]
  | cons d a ih =>
    obtain ⟨hd, ha⟩ : c ≠ d ∧ c ∉ a := by simpa using ha
    simp only [pieces, cons_append, piecesFrom, isPrefixOf_cons_of_ne (Ne.symm hd), Bool.false_eq_true, if_false]
    have hrest := ih ha
    simp only [pieces] at hrest
    rw [hrest, modifyHead_cons]

theorem pieces_of_notMem (ha : c ∉ a) : pieces (c :: sep) a = [a] := by
  induction a with
  | nil => rfl
  | cons d a ih =>
    obtain ⟨hd, ha⟩ : c ≠ d ∧ c ∉ a := by simpa using ha
    have hrest := ih ha
    rw [pieces] at hrest ⊢
    rw [piecesFrom, isPrefixOf_cons_of_ne (Ne.symm hd), if_neg Bool.false_ne_true, hrest, modifyHead_cons]

end pieces

/-! ## 3. Lists written with commas -/

theorem commas_cons_cons (x y : String) (xs : List String) : commas (x :: y :: xs) = x ++ ", " ++ commas (y :: xs) :=
  String.intercalate_cons_cons

theorem commas_singleton (x : String) : commas [x] = x := String.intercalate_singleton (s := ", ")

/-- **A written list is cut into its parts,** each but the first with the blank of its comma. -/
theorem split_commas {x : String} (h : ∀ y ∈ x :: xs, ',' ∉ y.toList) :
    split ',' (commas (x :: xs)) = x :: xs.map (" " ++ ·) := by
  -- the blank after the first comma is taken to the second part, which is then the first one
  induction xs generalizing x with
  | nil => rw [commas_singleton, split_of_notMem (h x (by simp)), map_nil]
  | cons y ys ih =>
    have hblank : " " ++ commas (y :: ys) = commas ((" " ++ y) :: ys) := by
      cases ys with
      | nil => rw [commas_singleton, commas_singleton]
      | cons z zs =>
        rw [commas_cons_cons, commas_cons_cons, String.append_assoc, String.append_assoc, String.append_assoc]
    have hcut : split ',' (commas (x :: y :: ys)) = x :: split ',' (" " ++ commas (y :: ys)) :=
      split_append (by simp [commas_cons_cons]) (h x (by simp))
    have hrest : ∀ z ∈ (" " ++ y) :: ys, ',' ∉ z.toList := by
      intro z hz
      rcases mem_cons.mp hz with rfl | hz
      · simpa using h y (by simp)
      · exact h z (by simp [hz])
    rw [hcut, hblank, ih hrest, map_cons]

theorem notMem_commas (hsep : c ∉ ", ".toList) (h : ∀ x ∈ xs, c ∉ x.toList) : c ∉ (commas xs).toList := by
  induction xs with
  | nil => simp [commas, join]
  | cons x xs ih =>
    cases xs with
    | nil =>
      rw [commas_singleton]
      exact h x (by simp)
    | cons y ys =>
      rw [commas_cons_cons, String.toList_append, String.toList_append, mem_append, mem_append]
      rintro ((hmem | hmem) | hmem)
      · exact h x (by simp) hmem
      · exact hsep hmem
      · exact ih (fun z hz => h z (by simp [hz])) hmem

theorem trimmed_commas (hne : xs ≠ []) (h : ∀ x ∈ xs, Trimmed x.toList) : Trimmed (commas xs).toList := by
  induction xs with
  | nil => exact absurd rfl hne
  | cons x xs ih =>
    cases xs with
    | nil =>
      rw [commas_singleton]
      exact h x (by simp)
    | cons y ys =>
      rw [commas_cons_cons, String.toList_append, String.toList_append]
      exact (h x (by simp)).around (ih (by simp) fun z hz => h z (by simp [hz])) _

/-- **A written list is cut into its parts,** when the blanks are dropped. -/
theorem splitStrip_commas (hne : xs ≠ []) (h : ∀ x ∈ xs, Trimmed x.toList) (hc : ∀ x ∈ xs, ',' ∉ x.toList) :
    splitStrip ',' (strip (commas xs)) = xs := by
  rw [strip_of_trimmed (trimmed_commas hne h)]
  cases xs with
  | nil => exact absurd rfl hne
  | cons x xs =>
    have hrest : xs.map (strip ∘ (" " ++ ·)) = xs := by
      refine (map_congr_left fun y hy => ?_).trans (map_id xs)
      exact strip_blank_append (h y (by simp [hy]))
    rw [splitStrip, split_commas hc, map_cons, map_map, strip_of_trimmed (h x (by simp)), hrest]

/-- A reader that passes over a blank in front can be run on the parts themselves. -/
theorem foldlM_split_commas {σ ε : Type} {f : σ → String → Except ε σ} (hf : ∀ s x, f s (" " ++ x) = f s x)
    (hne : xs ≠ []) (hc : ∀ x ∈ xs, ',' ∉ x.toList) (s : σ) : (split ',' (commas xs)).foldlM f s = xs.foldlM f s := by
  cases xs with
  | nil => exact absurd rfl hne
  | cons x xs =>
    rw [split_commas hc, foldlM_cons, foldlM_cons]
    simp [foldlM_map, hf]

theorem mapM_split_commas {β ε : Type} {f : String → Except ε β} (hf : ∀ x, f (" " ++ x) = f x) (hne : xs ≠ [])
    (hc : ∀ x ∈ xs, ',' ∉ x.toList) : (split ',' (commas xs)).mapM f = xs.mapM f := by
  cases xs with
  | nil => exact absurd rfl hne
  | cons x xs =>
    have hcomp : (f ∘ fun y => " " ++ y) = f := funext hf
    rw [split_commas hc, mapM_cons, mapM_cons, mapM_map, hcomp]

end TensorKit.Text

namespace TensorKit.Operator.Pattern

open Text

/-! ## 4. Runs of characters -/

theorem run?_append {p : Char → Bool} {a b : List Char} (hne : a ≠ []) (ha : ∀ c ∈ a, p c)
    (hb : ∀ c ∈ b.head?, p c = false) : run? p (a ++ b) = some (a, b) := by
  obtain ⟨htake, hdrop⟩ := takeWhile_append_stop ha hb
  cases a with
  | nil => exact absurd rfl hne
  | cons c a => simp only [run?, htake, hdrop]

theorem enclosed?_append {p : Char → Bool} {opening closing : Char} {a : List Char} (b : List Char) (hne : a ≠ [])
    (ha : ∀ c ∈ a, p c) (hc : p closing = false) :
    enclosed? opening closing p (opening :: (a ++ closing :: b)) = some (a, b) := by
  simp [enclosed?, expect?, run?_append hne ha (b := closing :: b) (by simpa using hc)]

theorem firstSuffix?_of_eq_some {α : Type} {f : List Char → Option α} {cs : List Char} {x : α} (h : f cs = some x) :
    firstSuffix? f cs = some x := by
  cases cs with
  | nil => exact h
  | cons c cs => simp [firstSuffix?, h]

end TensorKit.Operator.Pattern
