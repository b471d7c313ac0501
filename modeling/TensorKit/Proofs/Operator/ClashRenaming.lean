import TensorKit.Operator.Api.Function
import TensorKit.Proofs.Operator.FunctionReading
/-!
# Attributes named like the called function

A function that only calls another one can have an attribute of the same name as the called function.  The attribute is
then renamed in the list of parameters and in the call, wherever its name stands between two other characters.  The last
name of the list of parameters has no character after it, so it is renamed in the call only (`invoke_renames`).
-/

namespace TensorKit.Operator.Api

open List Text Parameter

variable {func n : List Char} {c d : Char} {f : String}

/-! ## 1. Names in a text -/

/-- The characters of a name. -/
def IsName (n : List Char) : Prop := ∀ c ∈ n, isNameChar c

theorem isWord_of_isNameChar (h : isNameChar c) : isWord c := by
  have hc := toNat_of_isNameChar h
  rwa [isWord, if_pos (by omega)]

theorem clashesHere_iff {cs : List Char} : clashesHere func cs ↔
    ∃ d rest, cs = func ++ d :: rest ∧ isNameChar d = false ∧ d ≠ '(' := by
  constructor
  · intro h
    obtain ⟨hstart, hend⟩ := Bool.and_eq_true_iff.mp h
    obtain ⟨rest, rfl⟩ := isPrefixOf_iff_prefix.mp hstart
    cases rest with
    | nil => simp at hend
    | cons d rest => exact ⟨d, rest, rfl, by simpa using hend⟩
  · rintro ⟨d, rest, rfl, hd, hopen⟩
    simp [clashesHere, hd, hopen]

theorem clashesHere_name (hf : IsName func) (hn : IsName n) (hd : isNameChar d = false) (hopen : d ≠ '(')
    (cs : List Char) : clashesHere func (n ++ d :: cs) = decide (n = func) := by
  rw [Bool.eq_iff_iff, clashesHere_iff, decide_eq_true_iff]
  constructor
  · rintro ⟨e, rest, heq, he, -⟩
    have hrun := (takeWhile_append_stop (b := d :: cs) hn (by simpa using hd)).1
    rw [heq, (takeWhile_append_stop hf (by simpa using he)).1] at hrun
    exact hrun.symm
  · rintro rfl
    exact ⟨d, cs, rfl, hd, hopen⟩

theorem clashesHere_last (hn : IsName n) : clashesHere func n = false := by
  rw [← Bool.not_eq_true, clashesHere_iff]
  rintro ⟨d, rest, rfl, hd, -⟩
  exact absurd (hn d (by simp)) (by simp [hd])

/-- Whether a name clashes is seen from the text up to the next character that is part of no name. -/
theorem clashesHere_append (hf : IsName func) (hd : isNameChar d = false) (cs rest : List Char) :
    clashesHere func (cs ++ d :: rest) = clashesHere func (cs ++ [d]) := by
  induction func generalizing cs with
  | nil => cases cs <;> rfl
  | cons c func ih =>
    have hcons (x : Char) (xs : List Char) : clashesHere (c :: func) (x :: xs) = (c == x && clashesHere func xs) := by
      rw [clashesHere, isPrefixOf_cons_cons, Bool.and_assoc]
      rfl
    cases cs with
    | nil =>
      have hne : (c == d) = false := by
        by_contra h
        simp_all [IsName]
      simp [hcons, hne]
    | cons x cs => simp [hcons, ih fun y hy => hf y (.tail _ hy)]

/-! ## 2. Marked texts -/

/-- No name in a text, or the text before a blank, clashes. -/
def noClash (func : List Char) : List Char → Bool
  | [] => true
  | c :: cs => !(!isWord c && clashesHere func (cs ++ [' '])) && noClash func cs

/-- The name of an argument after the clashes are marked. -/
def marked (func n : String) : String := if n = func then n ++ "_val" else n

theorem markClash_skip (hf : IsName func) {pre : List Char} (h : noClash func pre) (rest : List Char) :
    markClash func none (pre ++ ' ' :: rest) = pre ++ markClash func none (' ' :: rest) := by
  induction pre with
  | nil => rfl
  | cons c pre ih =>
    rw [noClash, Bool.and_eq_true, Bool.not_eq_true'] at h
    rw [cons_append, markClash, clashesHere_append hf (by decide), h.1]
    exact congrArg (c :: ·) (ih h.2)

/-- A name is passed over. -/
theorem markClash_append (hn : IsName n) (rest : List Char) :
    markClash func none (n ++ rest) = n ++ markClash func none rest := by
  induction n with
  | nil => rfl
  | cons c n ih =>
    rw [cons_append, markClash, isWord_of_isNameChar (hn c mem_cons_self)]
    exact congrArg (c :: ·) (ih fun y hy => hn y (.tail _ hy))

theorem markClash_last (hn : IsName n) : markClash func none (c :: n) = c :: n := by
  rw [markClash, clashesHere_last hn, Bool.and_false]
  simpa [markClash] using markClash_append hn []

theorem markClash_count (n rest : List Char) :
    markClash func (some n.length) (n ++ d :: rest) = n ++ ("_val".toList ++ d :: markClash func none rest) := by
  induction n with
  | nil => rfl
  | cons c n ih => exact congrArg (c :: ·) ih

/-- **Step lemma**: a name between two characters is marked if it is the name of the function. -/
theorem markClash_name {m : String} (hf : IsName f.toList) (hm : IsName m.toList) (hc : isWord c = false)
    (hd : isNameChar d = false) (hopen : d ≠ '(') {rest : List Char} (hrest : clashesHere f.toList rest = false) :
    markClash f.toList none (c :: (m.toList ++ d :: rest)) =
      c :: ((marked f m).toList ++ d :: markClash f.toList none rest) := by
  rw [markClash, hc, clashesHere_name hf hm hd hopen, marked]
  by_cases heq : m = f
  · subst heq
    simp [markClash_count]
  · have hne : m.toList ≠ f.toList := fun h => heq (String.toList_inj.mp h)
    simp [hne, heq, markClash_append hm, markClash, hrest]

/-- **Run lemma**: in a list with commas every item but the last is marked as it is before a comma. -/
theorem markClash_commas {α : Type} (hf : consistsOf isNameChar f) (text mark last : α → String) {P : Char → Prop}
    (hblank : P ' ') {e : List Char} (xs : List α) (x : α) (hnext : ∀ x ∈ xs, ∀ c, P c → ∀ rest,
      clashesHere f.toList rest = false → markClash f.toList none (c :: ((text x).toList ++ ',' :: rest)) =
        c :: ((mark x).toList ++ ',' :: markClash f.toList none rest))
    (hlast : ∀ c, P c → markClash f.toList none (c :: ((text x).toList ++ e)) = c :: ((last x).toList ++ e))
    (hc : P c) :
    markClash f.toList none (c :: ((commas (xs.map text ++ [text x])).toList ++ e)) =
      c :: ((commas (xs.map mark ++ [last x])).toList ++ e) := by
  obtain ⟨hempty, hname⟩ := consistsOf_iff.mp hf
  have hstart (cs : List Char) : clashesHere f.toList (' ' :: cs) = false := by
    simpa [hempty.symm] using clashesHere_name (n := []) (d := ' ') hname (by simp [IsName]) (by decide) (by decide) cs
  have hcons (s : String) {ss : List String} (t : String) :
      commas (s :: (ss ++ [t])) = s ++ ", " ++ commas (ss ++ [t]) := String.intercalate_cons_of_ne_nil (by simp)
  induction xs generalizing c with
  | nil => simpa [commas_singleton] using hlast c hc
  | cons y xs ih =>
    have hrest := ih (fun z hz => hnext z (.tail _ hz)) hblank
    have hfirst := hnext y mem_cons_self c hc (' ' :: ((commas (xs.map text ++ [text x])).toList ++ e)) (hstart _)
    rw [hrest] at hfirst
    simpa [hcons] using hfirst

/-! ## 3. Calls -/

theorem markClashes_call (hf : consistsOf isNameChar f) {as : List String} (hne : as ≠ [])
    (has : ∀ a ∈ as, consistsOf isNameChar a) :
    markClashes f (f ++ "(" ++ commas as ++ ")") = f ++ "(" ++ commas (as.map (marked f)) ++ ")" := by
  have hname := (consistsOf_iff.mp hf).2
  obtain ⟨as, a, rfl⟩ := (eq_nil_or_concat' as).resolve_left hne
  have hitem (b : String) (hb : b ∈ as ++ [a]) {c d : Char} (hc : isWord c = false) (hd : isNameChar d = false) :=
    fun hopen rest => @markClash_name c d f b hname (consistsOf_iff.mp (has b hb)).2 hc hd hopen rest
  have hargs := markClash_commas hf id (marked f) (marked f) (P := (isWord · = false)) (c := '(') (e := [')'])
    (by decide) as a
    (fun b hb c hc rest => hitem b (mem_append_left _ hb) hc (by decide) (by decide) rest)
    (fun c hc => hitem a (by simp) hc (by decide) (by decide) [] (clashesHere_last (by simp [IsName]))) (by decide)
  refine String.toList_inj.mp ?_
  simpa [markClashes, markClash_append hname] using hargs

/-- A parameter with its name marked. -/
def markedParam (f : String) (p : Parameter) : Parameter := { p with name := marked f p.name }

theorem markClashes_params (hf : consistsOf isNameChar f) {ps : List Parameter} {l : Parameter}
    (hnames : ∀ p ∈ ps ++ [l], consistsOf isNameChar p.name)
    (htypes : ∀ p ∈ ps ++ [l], noClash f.toList (' ' :: p.type.toList)) :
    markClashes f (commas ((ps ++ [l]).map define)) =
      commas ((ps.map (markedParam f) ++ [l]).map define) := by
  have hname := (consistsOf_iff.mp hf).2
  -- the first type has no blank before it, which makes no difference if it does not clash
  have hfirst : markClash f.toList none (' ' :: (commas ((ps ++ [l]).map define)).toList) =
      ' ' :: markClash f.toList none (commas ((ps ++ [l]).map define)).toList := by
    obtain ⟨p, hp, rest, hrest⟩ : ∃ p ∈ ps ++ [l], ∃ rest,
        (commas ((ps ++ [l]).map define)).toList = p.type.toList ++ ' ' :: rest := by
      cases ps with
      | nil => exact ⟨l, by simp, l.name.toList, by simp [commas_singleton, define]⟩
      | cons p ps =>
        refine ⟨p, by simp, p.name.toList ++ (", " ++ commas ((ps ++ [l]).map define)).toList, ?_⟩
        rw [cons_append, map_cons, commas, join, String.intercalate_cons_of_ne_nil (by simp)]
        simp [define, commas, join]
    have htype := htypes p hp
    rw [hrest, ← cons_append, markClash_skip hname htype, markClash_skip hname (Bool.and_eq_true_iff.mp htype).2]
    rfl
  have hparams := markClash_commas hf define (fun p => (markedParam f p).define) define
    (P := (· = ' ')) (c := ' ') (e := []) rfl ps l ?_ ?_ rfl
  · rw [append_nil, append_nil, ← map_singleton, ← map_append, hfirst, cons.injEq] at hparams
    refine String.toList_inj.mp ?_
    rw [markClashes, String.toList_ofList, hparams.2]
    simp [Function.comp_def]
  · rintro p hp _ rfl rest hrest
    have hp := mem_append_left [l] hp
    have hskip := markClash_skip hname (htypes p hp) (p.name.toList ++ ',' :: rest)
    rw [markClash_name hname (consistsOf_iff.mp (hnames p hp)).2 (by decide) (by decide) (by decide) hrest] at hskip
    simpa [define, markedParam] using hskip
  · rintro _ rfl
    have hl : l ∈ ps ++ [l] := by simp
    have hskip := markClash_skip hname (htypes l hl) l.name.toList
    rw [markClash_last (consistsOf_iff.mp (hnames l hl)).2] at hskip
    simpa [define] using hskip

theorem exists_param {api : Api} {s : Signature} {returns name : String}
    (hs : signatureNamed api false returns name = .ok s) (hf : f ∈ api.attrs.names) : ∃ p ∈ s.params, p.name = f := by
  have hattrs {attrs : List Parameter} (h : attrParams api = .ok attrs) : ∃ p ∈ attrs, p.name = f := by
    obtain ⟨p, hp, h⟩ := exists_of_mapM_eq_ok h f hf
    obtain ⟨info, -, h⟩ := of_bind_eq_ok h
    exact ⟨p, hp, Except.ok.inj h ▸ rfl⟩
  unfold signatureNamed at hs
  split at hs <;> simp only [bind_eq_ok_iff] at hs
  · obtain ⟨attrs, h, inputs, -, hs⟩ := hs
    obtain ⟨p, hp, hpf⟩ := hattrs h
    cases hs
    exact ⟨_, mem_append_right _ (mem_map_of_mem hp), hpf⟩
  · obtain ⟨inputs, -, attrs, h, hs⟩ := hs
    obtain ⟨p, hp, hpf⟩ := hattrs h
    cases hs
    exact ⟨_, mem_append_right _ hp, hpf⟩

theorem paramText_eq {s : Signature} (h : s.params ≠ []) (print : Parameter → String) :
    s.paramText print = commas ((s.params ++ s.results).map print) := by
  cases hres : s.results with
  | nil => simp [Signature.paramText, hres]
  | cons q qs =>
    rw [map_append, commas, join, String.intercalate_append_of_ne_nil (by simpa using h) (by simp)]
    simp [Signature.paramText, hres, commas, join, String.append_assoc]

theorem marked_mem_iff {ns as : List String} {n : String} (hdist : (ns ++ [n]).Nodup)
    (hval : f ++ "_val" ∉ ns ++ [n]) (has : ∀ a ∈ as, a ∈ ns ++ [n]) :
    (∀ a ∈ as, marked f a ∈ ns.map (marked f) ++ [n]) ↔ ¬ (f ∈ as ∧ n = f) := by
  refine ⟨?_, fun h a ha => ?_⟩
  · rintro h ⟨hf, rfl⟩
    rcases mem_append.mp (h n hf) with hmem | hmem
    · obtain ⟨m, hm, heq⟩ := mem_map.mp hmem
      rw [marked, marked, if_pos rfl] at heq
      split at heq
      next hmn => exact (nodup_append.mp hdist).2.2 m hm n (mem_singleton_self n) hmn
      · exact hval (heq ▸ mem_append_left _ hm)
    · rw [marked, if_pos rfl, mem_singleton] at hmem
      exact hval (hmem.symm ▸ mem_append_right _ (mem_singleton_self n))
  · rcases mem_append.mp (has a ha) with hmem | hmem
    · exact mem_append_left _ (mem_map_of_mem hmem)
    · obtain rfl := mem_singleton.mp hmem
      have hne : a ≠ f := fun haf => h ⟨haf ▸ ha, haf⟩
      simp [marked, hne]

/-- An attribute has the name `f` of the called function, whose arguments `as` are parameters.  Parameters have distinct
names, none of which is the new one, and types without the name. -/
structure Clashing (f : String) (api : Api) (s : Signature) (ps : List Parameter) (l : Parameter)
    (as : List String) : Prop where
  signature : signatureNamed api false (returnType api false) api.name = .ok s
  params : s.params ++ s.results = ps ++ [l]
  attr : f ∈ api.attrs.names
  names : ∀ p ∈ ps ++ [l], consistsOf isNameChar p.name
  types : ∀ p ∈ ps ++ [l], noClash f.toList (' ' :: p.type.toList)
  distinct : ((ps ++ [l]).map Parameter.name).Nodup
  renamed : f ++ "_val" ∉ (ps ++ [l]).map Parameter.name
  args_ne_nil : as ≠ []
  args : ∀ a ∈ as, a ∈ (ps ++ [l]).map Parameter.name

/-- **A clashing name is renamed in the call, and in the parameters unless it is the last of them.**  For an attribute
with the name of the called function the call is still one of the function.  Its arguments are all parameters if and
only if it does not have the attribute as an argument where the attribute is the last parameter. -/
theorem invoke_renames {api : Api} {s : Signature} {ps : List Parameter} {l : Parameter} {as : List String}
    (h : Clashing f api s ps l as) :
    let params := ps.map (markedParam f) ++ [l]
    invokeFunction api (f ++ "(" ++ commas as ++ ")") = .ok (invokeText api s.returns
        (commas (params.map Parameter.define)) (f ++ "(" ++ commas (as.map (marked f)) ++ ")")) ∧
      ((∀ a ∈ as, marked f a ∈ params.map Parameter.name) ↔ ¬ (f ∈ as ∧ l.name = f)) := by
  intro params
  obtain ⟨hs, hlast, hf, hnames, htypes, hdistinct, hval, hne, has⟩ := h
  obtain ⟨p, hp, hpf⟩ := exists_param hs hf
  have hname : consistsOf isNameChar f := hpf ▸ hnames p (hlast ▸ mem_append_left _ hp)
  have hargs : ∀ a ∈ as, consistsOf isNameChar a := by
    intro a ha
    obtain ⟨q, hq, rfl⟩ := mem_map.mp (has a ha)
    exact hnames q hq
  have hfunc : strip (before '(' (f ++ "(" ++ commas as ++ ")")) = f := by
    rw [before_append (a := f) (b := (commas as).toList ++ [')']) (by simp) (notMem_of_consistsOf hname)]
    exact strip_of_trimmed (trimmed_of_consistsOf hname fun _ => isBlank_of_isNameChar)
  refine ⟨?_, ?_⟩
  · rw [invokeFunction, hs]
    show Except.ok (if _ then _ else _) = _
    rw [hfunc, if_pos (elem_eq_true_of_mem hf), paramText_eq (ne_nil_of_mem hp), hlast,
      markClashes_call hname hne hargs, markClashes_params hname hnames htypes]
  · rw [map_append] at hdistinct hval has
    simpa [params, markedParam, Function.comp_def] using marked_mem_iff hdistinct hval has

/-- A function whose last parameter is named like the function that it calls. -/
def clashing : Entry where
  op := some "g"
  args := some "(Tensor x, int f)"
  output := some "Tensor(out)"
  invoke := some "f(x, f)"
  fields := ["op", "args", "output", "invoke"]

/-- Its call has an argument that is no parameter. -/
theorem invoke_renames_clashing : ∃ api, ofEntry .forward clashing = .ok api ∧
    invokeFunction api ("f" ++ "(" ++ commas ["x", "f"] ++ ")") = .ok (invokeText api "Tensor"
      (commas ["const Tensor& x", "int f"]) ("f" ++ "(" ++ commas ["x", "f_val"] ++ ")")) := by
  obtain ⟨api, hread, hfacts⟩ := exists_of_map_toOption (x := ofEntry .forward clashing) (b := (["f"], some
      (⟨"Tensor", "g", [⟨"const Tensor&", "x", none⟩, ⟨"int", "f", none⟩], []⟩ : Signature)))
    (g := fun api => (api.attrs.names, (signatureNamed api false (returnType api false) api.name).toOption))
    (by decide +kernel)
  obtain ⟨hattrs, hs⟩ := Prod.mk.inj hfacts
  obtain ⟨_, hs, rfl⟩ := exists_of_map_toOption (g := id) (by simpa using hs)
  have hcall := (@invoke_renames "f" api _ [⟨"const Tensor&", "x", none⟩] ⟨"int", "f", none⟩ ["x", "f"]
    ⟨hs, rfl, by simp [hattrs], by decide +kernel, by decide +kernel, by decide, by decide, by simp, by decide⟩).1
  exact ⟨api, hread, by simpa [marked, markedParam, Parameter.define] using hcall⟩

end TensorKit.Operator.Api
