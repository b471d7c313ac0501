import TensorKit.Distributed.Reshape
import TensorKit.Proofs.Nest.SameShape
import TensorKit.Proofs.Text.Cutting
/-!
# Tensors found by their names

A tensor that only the current strategy has is converted from one that only the previous strategy has, if the name of
that one holds the part of its own name before the *last* underscore.  Shorter starts of the name are not looked for, so
a tensor can be left out although the part before an earlier underscore occurs (`mem_convert_iff`).
-/

namespace TensorKit.Distributed.Reshape

open List Nest Text

variable {rank : Int} {ts before now left : Fields}

/-- A name holds the part of another name before its last underscore. -/
def Holds (other name : String) : Prop :=
  ∃ stem rest, name.toList = stem ++ '_' :: rest ∧ '_' ∉ rest ∧ stem <:+: other.toList

theorem stem?_cases (name : String) : '_' ∉ name.toList ∧ stem? name = none ∨
    ∃ stem rest, name.toList = stem ++ '_' :: rest ∧ '_' ∉ rest ∧ stem? name = some (.ofList stem) := by
  rw [stem?]
  by_cases h : '_' ∈ name.toList.reverse
  · obtain ⟨rest, stem, heq, hrest⟩ := eq_append_cons_of_mem h
    refine .inr ⟨stem.reverse, rest.reverse, ?_, by simpa using hrest, ?_⟩
    · rw [← reverse_reverse name.toList, heq]
      simp
    · rw [heq, (takeWhile_ne_append hrest).2]
  · exact .inl ⟨by simpa using h, by rw [(takeWhile_ne_of_notMem h).2]⟩

theorem partner?_cases (left : Fields) (name : String) :
    partner? (keyed left) (.str name) = none ∧ (∀ p ∈ left, ¬Holds p.1 name) ∨
      ∃ p ∈ left, partner? (keyed left) (.str name) = some (.str p.1, p.2) ∧ Holds p.1 name := by
  rw [partner?, Value.plain]
  rcases stem?_cases name with ⟨hno, hnone⟩ | ⟨stem, rest, heq, hrest, hstem⟩
  · rw [hnone]
    refine .inl ⟨rfl, ?_⟩
    rintro p - ⟨stem, rest, h, -⟩
    exact hno (h ▸ mem_append_right _ mem_cons_self)
  · have hfind : ((keyed left).find? fun p => contains (.ofList stem) p.1.plain) =
        (left.find? fun p => contains (.ofList stem) p.1).map fun p => (.str p.1, p.2) := find?_map ..
    rw [hstem, Option.bind_eq_bind, Option.bind_some, hfind]
    cases hp : left.find? fun p => contains (.ofList stem) p.1 with
    | none =>
      refine .inl ⟨rfl, ?_⟩
      rintro p hleft ⟨stem', rest', heq', hrest', hinfix⟩
      obtain ⟨rfl, -⟩ := append_cons_inj hrest hrest' (heq.symm.trans heq')
      exact find?_eq_none.mp hp p hleft (Text.contains_iff.mpr (by simpa using hinfix))
    | some p =>
      have hcontains : contains (.ofList stem) p.1 := by simpa using find?_some hp
      refine .inr ⟨p, mem_of_find?_eq_some hp, rfl, stem, rest, heq, hrest, ?_⟩
      simpa using Text.contains_iff.mp hcontains

theorem mem_of_lookup_keyed {k : String} {x : Value} : ∀ {ps},
    Value.lookup (.str k) (keyed ps) = some x → (k, x) ∈ ps
  | p :: ps, h => by
    rw [lookup_keyed_cons] at h
    split at h
    next hk => exact mem_cons.mpr (.inl (Prod.ext hk.symm (Option.some.inj h).symm))
    · exact mem_cons_of_mem p (mem_of_lookup_keyed h)

theorem exists_convertShared (hcalls : ∀ p ∈ before, ∀ q ∈ now, p.1 = q.1 → ∀ t, (p.1, t) ∈ ts →
    ∃ a, convertOne rank t p.2 q.2 = .ok a) :
    ∃ r, convertShared rank (keyed ts) (keyed before) (keyed now) = .ok r ∧
      ∀ k ∈ r.map Prod.fst, ∃ p ∈ before, k = .str p.1 := by
  induction now with
  | nil => exact ⟨[], rfl, by simp⟩
  | cons q now ih =>
    obtain ⟨r, hr, hkeys⟩ := ih fun p hp q' hq' => hcalls p hp q' (mem_cons_of_mem q hq')
    rw [keyed_cons, convertShared]
    split
    next x t hx ht =>
      obtain ⟨a, ha⟩ := hcalls _ (mem_of_lookup_keyed hx) q mem_cons_self rfl t (mem_of_lookup_keyed ht)
      refine ⟨(.str q.1, a) :: r, ?_, ?_⟩
      · rw [ha, hr]
        rfl
      · rw [map_cons, forall_mem_cons]
        exact ⟨⟨_, mem_of_lookup_keyed hx, rfl⟩, hkeys⟩
    · exact ⟨r, hr, hkeys⟩

theorem exists_convertByStem (hheld : ∀ p ∈ left, p.1 ∈ ts.map Prod.fst)
    (hcalls : ∀ p ∈ left, ∀ q ∈ now, partner? (keyed left) (.str q.1) = some (.str p.1, p.2) → ∀ t, (p.1, t) ∈ ts →
      ∃ a, convertOne rank t p.2 q.2 = .ok a) :
    ∃ r, convertByStem rank (keyed ts) (keyed left) (keyed now) = .ok r ∧
      ∀ k, .str k ∈ r.map Prod.fst ↔ ∃ q ∈ now, k = q.1 ∧ ∃ p ∈ left, Holds p.1 q.1 := by
  induction now with
  | nil => exact ⟨[], rfl, by simp⟩
  | cons q now ih =>
    obtain ⟨r, hr, hkeys⟩ := ih fun p hp q' hq' => hcalls p hp q' (mem_cons_of_mem q hq')
    simp only [mem_cons, exists_eq_or_imp, ← hkeys]
    rw [keyed_cons, convertByStem]
    rcases partner?_cases left q.1 with ⟨hnone, hno⟩ | ⟨p, hp, hsome, hholds⟩
    · rw [hnone]
      refine ⟨r, hr, fun k => (or_iff_right ?_).symm⟩
      rintro ⟨-, p, hp, hholds⟩
      exact hno p hp hholds
    · obtain ⟨t, ht⟩ := Option.isSome_iff_exists.mp ((isSome_lookup_keyed p.1 ts).mpr (hheld p hp))
      obtain ⟨a, ha⟩ := hcalls p hp q mem_cons_self hsome t (mem_of_lookup_keyed ht)
      rw [hsome]
      refine ⟨(.str q.1, a) :: r, ?_, fun k => ?_⟩
      · simp only [ht, ha, hr, naming]
        rfl
      · rw [map_cons, mem_cons, Value.str.injEq, and_iff_left ⟨p, hp, hholds⟩]

theorem without_keyed (ps qs : Fields) :
    without (keyed qs) (keyed ps) = keyed (ps.filter fun p => p.1 ∉ qs.map Prod.fst) := by
  refine filter_map.trans (congrArg keyed (filter_congr fun p _ => ?_))
  rw [Bool.eq_iff_iff, decide_eq_true_iff, ← isSome_lookup_keyed, Function.comp, Option.isNone_iff_eq_none,
    Option.not_isSome_iff_eq_none]

theorem convert_record (hts : ts ≠ []) (hne : before ≠ []) :
    convert rank (.record ts) (.record before) (.record now) false = (do
      let shared ← convertShared rank (keyed ts) (keyed before) (keyed now)
      return shared ++ (← convertByStem rank (keyed ts) (keyed (before.filter fun p => p.1 ∉ now.map Prod.fst))
        (keyed (now.filter fun p => p.1 ∉ before.map Prod.fst)))) := by
  obtain ⟨t, ts, rfl⟩ := exists_cons_of_ne_nil hts
  obtain ⟨p, before, rfl⟩ := exists_cons_of_ne_nil hne
  rw [← without_keyed, ← without_keyed]
  rfl

/-- A tensor is converted from that of its name, or else from the first that only the previous strategy has and whose
name holds the start of its own. -/
def IsSource (before now : Fields) (p q : String × Value) : Prop :=
  p.1 = q.1 ∨ q.1 ∉ before.map Prod.fst ∧
    partner? (keyed (before.filter fun p => p.1 ∉ now.map Prod.fst)) (.str q.1) = some (.str p.1, p.2)

/-- **Names are matched by their longest start.**  If all tensors of the previous strategy are there and no tensor fails
to be converted, those that only the current strategy has are in the result if and only if a tensor that only the
previous one has holds the part of their name before the last underscore. -/
theorem mem_convert_iff (hne : before ≠ []) (hheld : ∀ p ∈ before, p.1 ∈ ts.map Prod.fst)
    (hcalls : ∀ p ∈ before, ∀ q ∈ now, IsSource before now p q → ∀ t, (p.1, t) ∈ ts →
      ∃ a, convertOne rank t p.2 q.2 = .ok a) :
    ∃ r, convert rank (.record ts) (.record before) (.record now) false = .ok r ∧
      ∀ name ∈ now.map Prod.fst, name ∉ before.map Prod.fst → (.str name ∈ r.map Prod.fst ↔
        ∃ other ∈ before.map Prod.fst, other ∉ now.map Prod.fst ∧ Holds other name) := by
  have hts : ts ≠ [] := by
    rintro rfl
    obtain ⟨p, _, rfl⟩ := exists_cons_of_ne_nil hne
    exact absurd (hheld p mem_cons_self) not_mem_nil
  obtain ⟨shared, hshared, hkeys⟩ := exists_convertShared fun p hp q hq h => hcalls p hp q hq (.inl h)
  obtain ⟨found, hfound, hmem⟩ := @exists_convertByStem rank ts (now.filter fun p => p.1 ∉ before.map Prod.fst)
    (before.filter fun p => p.1 ∉ now.map Prod.fst) (fun p hp => hheld p (mem_of_mem_filter hp))
    fun p hp q hq h => by
      obtain ⟨hq, hnew⟩ := mem_filter.mp hq
      exact hcalls p (mem_of_mem_filter hp) q hq (.inr ⟨of_decide_eq_true hnew, h⟩)
  refine ⟨shared ++ found, ?_, fun name hname hnew => ?_⟩
  · rw [convert_record hts hne, hshared, ok_bind, hfound]
    rfl
  · have hshare : .str name ∉ shared.map Prod.fst := fun h => by
      obtain ⟨p, hp, heq⟩ := hkeys _ h
      exact hnew (Value.str.inj heq ▸ mem_map_of_mem hp)
    rw [map_append, mem_append, or_iff_right hshare, hmem]
    constructor
    · rintro ⟨q, -, rfl, p, hp, hholds⟩
      obtain ⟨hp, hnot⟩ := mem_filter.mp hp
      exact ⟨p.1, mem_map_of_mem hp, of_decide_eq_true hnot, hholds⟩
    · rintro ⟨other, hother, hnot, hholds⟩
      obtain ⟨q, hq, rfl⟩ := mem_map.mp hname
      obtain ⟨p, hp, rfl⟩ := mem_map.mp hother
      exact ⟨q, mem_filter.mpr ⟨hq, decide_eq_true hnew⟩, rfl, p, mem_filter.mpr ⟨hp, decide_eq_true hnot⟩, hholds⟩

/-- Of the name `b_c_1` only `b_c` is looked for, and `x_b` does not hold it, though it holds `b`. -/
theorem mem_convert_iff_shorter : ∃ (s t : Value) (r : List (Value × NdArray)),
    convert 0 (.record [("x_b", t)]) (.record [("x_b", s)]) (.record [("x_1", s), ("b_c_1", s)]) false = .ok r ∧
      .str "x_1" ∈ r.map Prod.fst ∧ .str "b_c_1" ∉ r.map Prod.fst := by
  let s : Value := .record [("process_shape", .list [.int 1]), ("process_group", .list [.int 0]),
    ("dims_mapping", .list [.int (-1)])]
  let t : Value := .list [.array (.single .int64 (.int 7))]
  have hcalls : ∃ a, convertOne 0 t s s = .ok a := ⟨_, rfl⟩
  obtain ⟨r, hr, hmem⟩ := @mem_convert_iff 0 [("x_b", t)] [("x_b", s)] [("x_1", s), ("b_c_1", s)] (by simp)
    (by simp) (by simpa using ⟨fun _ => hcalls, fun _ => hcalls⟩)
  have hlong : ¬Holds "x_b" "b_c_1" := by
    rintro ⟨stem, rest, heq, hrest, hinfix⟩
    obtain ⟨rfl, -⟩ := append_cons_inj hrest (by decide : '_' ∉ ['1']) (heq.symm.trans (by decide : _ = "b_c".toList ++ _))
    exact absurd hinfix (by decide)
  refine ⟨s, t, r, hr, (hmem "x_1" (by simp) (by decide)).mpr ?_, ?_⟩
  · exact ⟨"x_b", by simp, by decide, ['x'], ['1'], rfl, by decide, by decide⟩
  · rw [hmem "b_c_1" (by simp) (by decide)]
    simpa using hlong

end TensorKit.Distributed.Reshape
