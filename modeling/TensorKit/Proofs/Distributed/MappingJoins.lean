import Mathlib.Data.List.Forall2
import TensorKit.Distributed.Mapping
import TensorKit.Proofs.Position
/-!
# Joins of entries

An entry of a mapping says which mesh axis splits a tensor axis, or -1 for none.  The join of some entries is found in
one pass from the left, but it is a symmetric notion: `v` is the join exactly if it is one of the entries and every
entry is -1 or `v` (`join?_eq_some_iff`); entries have none exactly if two of them differ and neither is -1
(`join?_eq_none_iff`).

Unifying puts the join at one position of each of several mappings (`entriesAt`, `placed`); `spot` is the place that a
position stands for, which may count from the end.  Writing an entry changes the mappings exactly if another entry was
there (`placed_eq_self_iff`), which is what `unify` answers, and doing it again changes nothing (`entriesAt_placed`).
-/

namespace TensorKit.Distributed.Mapping

open Position List

variable {es : List Int} {v : Int} {m : List Int}

/-! ## 1. Joins -/

/-- No two entries other than -1 are different. -/
def Compatible (es : List Int) : Prop := ∀ a ∈ es, ∀ b ∈ es, a ≠ replicated → b ≠ replicated → a = b

/-- **The join of entries**: one of them, of which all others are copies or -1. -/
def IsJoin (es : List Int) (v : Int) : Prop := v ∈ es ∧ ∀ a ∈ es, a = replicated ∨ a = v

/-- An entry other than -1 can only be the join itself. -/
theorem isJoin_cons_of_ne {e v : Int} (he : e ≠ replicated) :
    IsJoin (e :: es) v ↔ e = v ∧ ∀ a ∈ es, a = replicated ∨ a = v := by
  rw [IsJoin, forall_mem_cons, or_iff_right he]
  exact ⟨fun h => h.2, fun h => ⟨h.1 ▸ .head _, h⟩⟩

/-- An entry -1 before others does not count. -/
theorem isJoin_cons_replicated {m v : Int} {ms : List Int} : IsJoin (replicated :: m :: ms) v ↔ IsJoin (m :: ms) v := by
  simp only [IsJoin, forall_mem_cons (a := replicated), true_or, true_and]
  refine and_congr_left fun hall => ?_
  rw [mem_cons (b := replicated), or_iff_right_of_imp]
  rintro rfl
  -- where the join is -1, the next entry is -1 too
  obtain rfl : m = replicated := (hall m mem_cons_self).elim id id
  exact mem_cons_self

theorem joinFrom_eq_some_iff {e v : Int} : joinFrom e es = some v ↔ IsJoin (e :: es) v := by
  induction es generalizing e with
  | nil =>
    simp only [joinFrom, Option.some.injEq, IsJoin, mem_singleton, forall_eq]
    constructor
    · rintro rfl
      exact ⟨rfl, .inr rfl⟩
    · rintro ⟨rfl, -⟩
      rfl
  | cons m ms ih =>
    rw [joinFrom]
    by_cases he : e = replicated
    · rw [if_pos he, ih, he, isJoin_cons_replicated]
    · rw [if_neg he, isJoin_cons_of_ne he, forall_mem_cons]
      by_cases hm : m = replicated ∨ e = m
      · rw [if_pos (by simpa using hm), ih, isJoin_cons_of_ne he]
        refine and_congr_right fun hev => (and_iff_right ?_).symm
        exact hm.imp_right fun h => h.symm.trans hev
      · rw [if_neg (by simpa using hm)]
        refine iff_of_false (by simp) ?_
        rintro ⟨rfl, hmv, -⟩
        exact hm (hmv.imp_right Eq.symm)

/-- **One pass from the left finds the join.** -/
theorem join?_eq_some_iff : join? es = some v ↔ IsJoin es v := by
  cases es with
  | nil => simp [join?, IsJoin]
  | cons e es =>
    -- the pass reads the first entry twice
    rw [join?, joinFrom_eq_some_iff]
    simp [IsJoin]

/-- **The join depends on which entries there are**, not on their order nor on how often each of them occurs. -/
theorem join?_congr {es fs : List Int} (h : ∀ e, e ∈ es ↔ e ∈ fs) : join? es = join? fs := by
  refine Option.ext fun v => ?_
  simp [join?_eq_some_iff, IsJoin, h]

/-- The join of compatible entries is the one other than -1, if there is one, and else -1. -/
theorem isJoin_iff (hne : es ≠ []) :
    IsJoin es v ↔ Compatible es ∧ (v ∈ es ∧ v ≠ replicated ∨ v = replicated ∧ ∀ e ∈ es, e = replicated) := by
  constructor
  · rintro ⟨hv, hall⟩
    refine ⟨fun a ha b hb hsplit hsplit' => ?_, ?_⟩
    · rw [(hall a ha).resolve_left hsplit, (hall b hb).resolve_left hsplit']
    · by_cases hsplit : v = replicated
      · exact .inr ⟨hsplit, fun e he => (hall e he).elim id fun h => h.trans hsplit⟩
      · exact .inl ⟨hv, hsplit⟩
  · rintro ⟨hcompatible, ⟨hv, hsplit⟩ | ⟨rfl, hall⟩⟩
    · exact ⟨hv, fun a ha => or_iff_not_imp_left.mpr fun hsplit' => hcompatible a ha v hv hsplit' hsplit⟩
    · obtain ⟨e, he⟩ := exists_mem_of_ne_nil es hne
      exact ⟨hall e he ▸ he, fun a ha => .inl (hall a ha)⟩

theorem exists_isJoin (hne : es ≠ []) (h : Compatible es) : ∃ v, IsJoin es v := by
  by_cases hall : ∀ e ∈ es, e = replicated
  · exact ⟨replicated, (isJoin_iff hne).mpr ⟨h, .inr ⟨rfl, hall⟩⟩⟩
  · push Not at hall
    obtain ⟨v, hv, hsplit⟩ := hall
    exact ⟨v, (isJoin_iff hne).mpr ⟨h, .inl ⟨hv, hsplit⟩⟩⟩

theorem join?_eq_none_iff (hne : es ≠ []) : join? es = none ↔ ¬ Compatible es := by
  constructor
  · intro hnone hcompatible
    obtain ⟨v, hv⟩ := exists_isJoin hne hcompatible
    rw [← join?_eq_some_iff, hnone] at hv
    cases hv
  · intro hnot
    rw [Option.eq_none_iff_forall_ne_some]
    exact fun v hv => hnot ((isJoin_iff hne).mp (join?_eq_some_iff.mp hv)).1

/-! ## 2. Positions -/

/-- The place that a position stands for; below zero it counts from the end. -/
def spot (m : List Int) (i : Int) : Nat := (if i < 0 then i + m.length else i).toNat

def Inside (mappings : List (List Int)) (positions : List Int) : Prop :=
  Forall₂ (fun m i => isPosition m i) mappings positions

def entriesAt (mappings : List (List Int)) (positions : List Int) : List Int :=
  (mappings.zip positions).filterMap fun p => p.1[spot p.1 p.2]?

def placed (v : Int) (mappings : List (List Int)) (positions : List Int) : List (List Int) :=
  zipWith (fun m i => m.set (spot m i) v) mappings positions

theorem place_eq_spot {i : Int} (h : isPosition m i) :
    place m.length i = .ok (spot m i) ∧ spot m i < m.length := by
  simp only [isPosition, Bool.and_eq_true, decide_eq_true_eq] at h
  exact place_eq_ok h.1 h.2

@[simp] theorem spot_set (m : List Int) (i : Int) (k : Nat) (v : Int) : spot (m.set k v) i = spot m i := by simp [spot]

@[simp] theorem isPosition_set (m : List Int) (i : Int) (k : Nat) (v : Int) :
    isPosition (m.set k v) i = isPosition m i := by
  simp [isPosition]

theorem exists_entry {i : Int} (h : isPosition m i) : ∃ e, m[spot m i]? = some e ∧ pick m i = .ok e := by
  obtain ⟨hplace, hlt⟩ := place_eq_spot h
  have hget := getElem?_eq_getElem hlt
  refine ⟨_, hget, ?_⟩
  simp only [pick, hplace, bind, Except.bind, hget]
  rfl

variable {ms : List (List Int)} {is : List Int}

theorem entriesAt_cons {i e : Int} (h : m[spot m i]? = some e) :
    entriesAt (m :: ms) (i :: is) = e :: entriesAt ms is := by
  simp [entriesAt, h]

section

variable (h : Inside ms is)

include h

theorem length_entriesAt : (entriesAt ms is).length = ms.length := by
  induction h with
  | nil => rfl
  | @cons m i ms is hm _ ih =>
    obtain ⟨e, hget, -⟩ := exists_entry hm
    rw [entriesAt_cons hget, length_cons, length_cons, ih]

theorem selected_eq_ok : selected ms is = .ok (entriesAt ms is) := by
  induction h with
  | nil => rfl
  | @cons m i ms is hm _ ih =>
    obtain ⟨e, hget, hpick⟩ := exists_entry hm
    simp only [selected, hm, Bool.not_true, Bool.false_eq_true, if_false, hpick, ih, entriesAt_cons hget]
    rfl

theorem updated_eq_ok (v : Int) : updated v ms is = .ok (placed v ms is) := by
  induction h with
  | nil => rfl
  | @cons m i ms is hm _ ih =>
    simp only [updated, put, (place_eq_spot hm).1, ih]
    rfl

/-! ## 3. Entries that are put in place -/

theorem Inside.placed (v : Int) : Inside (placed v ms is) is := by
  induction h with
  | nil => exact .nil
  | @cons m i ms is hm _ ih => exact .cons (by rwa [isPosition_set]) ih

/-- **All selected entries are the one that was put in place.** -/
theorem entriesAt_placed (v : Int) : entriesAt (placed v ms is) is = replicate ms.length v := by
  induction h with
  | nil => rfl
  | @cons m i ms is hm _ ih =>
    have hhead : (m.set (spot m i) v)[spot (m.set (spot m i) v) i]? = some v := by
      rw [spot_set]
      exact getElem?_set_self (place_eq_spot hm).2
    rw [Mapping.placed, zipWith_cons_cons, entriesAt_cons hhead, length_cons, replicate_succ, ← ih]
    rfl

/-- **Mappings stay as they are exactly if the entry was at all positions before.** -/
theorem placed_eq_self_iff (v : Int) : placed v ms is = ms ↔ ∀ e ∈ entriesAt ms is, e = v := by
  induction h with
  | nil => simp [placed, entriesAt]
  | @cons m i ms is hm _ ih =>
    obtain ⟨e, hget, -⟩ := exists_entry hm
    have hset : m.set (spot m i) v = m ↔ e = v := by
      constructor
      · intro heq
        rw [← heq, spot_set, getElem?_set_self (place_eq_spot hm).2] at hget
        exact (Option.some.inj hget).symm
      · rintro rfl
        obtain ⟨hlt, rfl⟩ := List.getElem?_eq_some_iff.mp hget
        exact set_getElem_self hlt
    rw [entriesAt_cons hget, forall_mem_cons, ← ih, ← hset, placed, zipWith_cons_cons, cons.injEq]
    rfl

end

/-- **What replacing the selected entries means**: they are all `v` afterwards, and every other entry is as before. -/
structure Replaced (mappings : List (List Int)) (positions : List Int) (v : Int) (after : List (List Int)) : Prop where
  length_eq : after.length = mappings.length
  entry : ∀ {k : Nat} {m : List Int} {i : Int}, mappings[k]? = some m → positions[k]? = some i →
    ∃ m', after[k]? = some m' ∧ m'.length = m.length ∧ ∀ j, m'[j]? = if j = spot m i then some v else m[j]?

section

variable (h : Inside ms is)

include h

theorem replaced_placed (v : Int) : Replaced ms is v (placed v ms is) where
  length_eq := by rw [placed, length_zipWith, h.length_eq, Nat.min_self]
  entry {k m i} hm hi := by
    have hpos : isPosition m i := by
      obtain ⟨hk, rfl⟩ := List.getElem?_eq_some_iff.mp hm
      obtain ⟨hk', rfl⟩ := List.getElem?_eq_some_iff.mp hi
      exact h.get hk hk'
    refine ⟨m.set (spot m i) v, ?_, length_set, fun j => ?_⟩
    · rw [placed, getElem?_zipWith, hm, hi]
    · rw [getElem?_set]
      by_cases hj : spot m i = j
      · rw [if_pos hj, if_pos hj.symm, if_pos (hj ▸ (place_eq_spot hpos).2)]
      · rw [if_neg hj, if_neg (Ne.symm hj)]

/-! ## 4. Unifying -/

theorem unify_of_incompatible (hnone : join? (entriesAt ms is) = none) :
    unify ms is = .ok (false, ms) := by
  simp only [unify, h.length_eq, ne_eq, not_true_eq_false, if_false, selected_eq_ok h, bind, Except.bind, hnone]
  rfl

theorem unify_of_join (hv : join? (entriesAt ms is) = some v) :
    unify ms is = .ok (decide (placed v ms is ≠ ms), placed v ms is) := by
  have hchanged : (entriesAt ms is).any (· != v) = decide (placed v ms is ≠ ms) := by
    rw [Bool.eq_iff_iff, decide_eq_true_eq, ne_eq, placed_eq_self_iff h]
    simp
  simp only [unify, h.length_eq, ne_eq, not_true_eq_false, if_false, selected_eq_ok h, bind, Except.bind, hv,
    updated_eq_ok h, hchanged]
  rfl

/-- **Unifying twice is unifying once.** -/
theorem unify_placed (hv : join? (entriesAt ms is) = some v) :
    unify (placed v ms is) is = .ok (false, placed v ms is) := by
  have hall : ∀ e ∈ entriesAt (placed v ms is) is, e = v := by
    rw [entriesAt_placed h]
    exact fun e he => eq_of_mem_replicate he
  have hsame := (placed_eq_self_iff (h.placed v) v).mpr hall
  have hjoin : join? (entriesAt (placed v ms is) is) = some v := by
    refine join?_eq_some_iff.mpr ⟨?_, fun a ha => .inr (hall a ha)⟩
    -- there is a selected entry, since there is a join
    have hpos := length_pos_of_mem (join?_eq_some_iff.mp hv).1
    rw [length_entriesAt h] at hpos
    rw [entriesAt_placed h]
    exact mem_replicate.mpr ⟨Nat.pos_iff_ne_zero.mp hpos, rfl⟩
  rw [unify_of_join (h.placed v) hjoin, hsame]
  simp

end

/-- **Joins of entries.**  Entries have no join exactly if two different ones other than -1 are among them; else the
join is the one other than -1 if there is one, and -1 if there is none.  It depends only on which entries there are.
Unifying entries of several mappings, at positions inside them, leaves the mappings as they are if the entries are
incompatible, and otherwise replaces the selected entries by their join and no other; it answers whether an entry has
changed, and changes nothing when it is repeated. -/
theorem unify_joins : (∀ es : List Int, es ≠ [] →
      (join? es = none ↔ ∃ a ∈ es, ∃ b ∈ es, a ≠ replicated ∧ b ≠ replicated ∧ a ≠ b) ∧
      (∀ v, join? es = some v ↔ Compatible es ∧
        (v ∈ es ∧ v ≠ replicated ∨ v = replicated ∧ ∀ e ∈ es, e = replicated))) ∧
    (∀ es fs : List Int, (∀ e, e ∈ es ↔ e ∈ fs) → join? es = join? fs) ∧
    ∀ (mappings : List (List Int)) (positions : List Int), Inside mappings positions →
      ∃ changed after, unify mappings positions = .ok (changed, after) ∧
        (¬ Compatible (entriesAt mappings positions) → changed = false ∧ after = mappings) ∧
        (Compatible (entriesAt mappings positions) → ∃ v, Replaced mappings positions v after ∧
          (mappings ≠ [] → join? (entriesAt mappings positions) = some v)) ∧
        (changed = true ↔ after ≠ mappings) ∧ unify after positions = .ok (false, after) := by
  refine ⟨fun es hne => ⟨?_, fun v => ?_⟩, fun es fs => join?_congr, fun mappings positions h => ?_⟩
  · rw [join?_eq_none_iff hne, Compatible]
    push Not
    exact Iff.rfl
  · rw [join?_eq_some_iff, isJoin_iff hne]
  · cases hv : join? (entriesAt mappings positions) with
    | some v =>
      refine ⟨_, _, unify_of_join h hv, fun hnot => ?_, fun _ => ⟨v, replaced_placed h v, fun _ => rfl⟩,
        decide_eq_true_iff, unify_placed h hv⟩
      have hjoin := join?_eq_some_iff.mp hv
      exact absurd ((isJoin_iff (ne_nil_of_mem hjoin.1)).mp hjoin).1 hnot
    | none =>
      have hunify := unify_of_incompatible h hv
      refine ⟨false, mappings, hunify, fun _ => ⟨rfl, rfl⟩, fun hcompatible => ?_, by simp, hunify⟩
      -- compatible entries have a join unless there are none of them
      have hentries : entriesAt mappings positions = [] := by
        by_contra hne
        exact (join?_eq_none_iff hne).mp hv hcompatible
      obtain rfl : mappings = [] := by
        rw [← length_eq_zero_iff, ← length_entriesAt h, hentries]
        rfl
      exact ⟨replicated, replaced_placed h replicated, fun hne => absurd rfl hne⟩

/-- Of two mappings the second gets the entry of the first, at a position that counts from the end; after that there is
nothing left to change.  Two entries other than -1 stay as they are. -/
theorem unify_joins_two_rows :
    Inside [[0, -1], [-1, 1]] [0, -2] ∧ unify [[0, -1], [-1, 1]] [0, -2] = .ok (true, [[0, -1], [0, 1]]) ∧
      unify [[0, -1], [0, 1]] [0, -2] = .ok (false, [[0, -1], [0, 1]]) ∧
      Inside [[0], [1]] [0, 0] ∧ unify [[0], [1]] [0, 0] = .ok (false, [[0], [1]]) := by
  obtain ⟨-, -, hunify⟩ := unify_joins
  have hrows : Inside [[0, -1], [-1, 1]] [0, -2] := .cons rfl (.cons rfl .nil)
  have hapart : Inside [[0], [1]] [0, 0] := .cons rfl (.cons rfl .nil)
  obtain ⟨changed, after, hfirst, -, -, -, hagain⟩ := hunify _ _ hrows
  obtain ⟨changed', after', hsecond, hkeep, -⟩ := hunify _ _ hapart
  obtain ⟨rfl, rfl⟩ := hkeep fun h => absurd (h 0 (by decide) 1 (by decide) (by decide) (by decide)) (by decide)
  have hvalue : unify [[0, -1], [-1, 1]] [0, -2] = .ok (true, [[0, -1], [0, 1]]) := rfl
  obtain ⟨rfl, rfl⟩ := Prod.mk.inj (Except.ok.inj (hfirst.symm.trans hvalue))
  exact ⟨hrows, hfirst, hagain, hapart, hsecond⟩

end TensorKit.Distributed.Mapping
