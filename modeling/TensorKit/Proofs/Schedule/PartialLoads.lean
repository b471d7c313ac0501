import TensorKit.Proofs.Schedule.Resuming
/-!
# Loads that fail

A saved state is a table with one entry for each key of the schedule; that of a warm-up has, under
`LinearWarmup_LR`, the table of the schedule after it.  The entries are loaded one by one, the
outermost schedule first, and the first that is missing ends the load.  What was set before stays
set (`restore_overwrites`), so a load that fails leaves a schedule as it was only if nothing had
been found.
-/

namespace TensorKit.Schedule

open List

/-- The entries that a schedule saves, in the order in which they are loaded. -/
def entries : Schedule Value → List Value
  | .plain s _ => [s.epoch, s.rate]
  | .plateau s _ q => [q.cooldown, q.best.getD .null, q.bad, s.epoch, s.rate]
  | .warmup s _ after => s.epoch :: s.rate :: entries after

/-- Where these entries are in a saved state: the keys that lead to each, outermost first. -/
def places : Schedule Value → List (List String)
  | .plain _ _ => [["last_epoch"], ["last_lr"]]
  | .plateau _ _ _ =>
    [["cooldown_counter"], ["best"], ["num_bad_epochs"], ["last_epoch"], ["last_lr"]]
  | .warmup _ _ after =>
    ["last_epoch"] :: ["last_lr"] :: (places after).map ("LinearWarmup_LR" :: ·)

/-- The value to which keys lead through tables within tables. -/
def valueAt (v : Value) : List String → Option Value
  | [] => some v
  | k :: ks => (v.field? k).bind (valueAt · ks)

/-- Entries with what was found for them, up to the first that is missing. -/
def overwrite {α : Type} : List (Option α) → List α → List α
  | some a :: found, _ :: xs => a :: overwrite found xs
  | _, xs => xs

@[simp] theorem valueAt_single (v : Value) (k : String) : valueAt v [k] = v.field? k := by
  simp [valueAt]

theorem after_eq (items : Pairs) :
    Saved.after items = Saved.levels (((Value.dict items).field? "LinearWarmup_LR").getD .null) := by
  induction items with
  | nil => simp [Saved.after, Value.field?, Value.lookup, Saved.levels]
  | cons p items ih =>
    obtain ⟨k, v⟩ := p
    cases h : Value.same k (.str "LinearWarmup_LR") with
    | false => simpa [Saved.after, Saved.afterPair, afterKey, BEq.beq, Value.field?, Value.lookup, h]
    | true => simp [Saved.after, Saved.afterPair, afterKey, BEq.beq, Value.field?, Value.lookup, h]

/-- A value cannot be asked for entries, or it has a record of its own and those under the key of a
warm-up. -/
theorem levels_cases (v : Value) :
    (Saved.levels v = [] ∧ ∀ k, v.field? k = none) ∨
      ∃ items, (∀ k, Value.lookup (.str k) items = v.field? k) ∧
        Saved.levels v = Record.ofItems items ::
          Saved.levels ((v.field? "LinearWarmup_LR").getD .null) := by
  cases v with
  | dict items => exact .inr ⟨items, fun _ => rfl, by rw [Saved.levels, after_eq]⟩
  | list | tuple | labelled | set | str =>
    exact .inr ⟨[], fun _ => rfl, by simp [Saved.levels, Value.field?]; rfl⟩
  | _ => exact .inl ⟨by simp [Saved.levels], fun _ => rfl⟩

theorem ne_nil_of_mem_places {s : Schedule Value} {p : List String} (hp : p ∈ places s) :
    p ≠ [] := by
  rintro rfl
  cases s <;> simp [places] at hp

/-- Below the key of a warm-up stand the entries of the schedule after it. -/
theorem map_valueAt_after (v : Value) (s : Schedule Value) :
    ((places s).map ("LinearWarmup_LR" :: ·)).map (valueAt v) =
      (places s).map (valueAt ((v.field? "LinearWarmup_LR").getD .null)) := by
  rw [map_map]
  refine map_congr_left fun p hp => ?_
  obtain ⟨k, ks, rfl⟩ := exists_cons_of_ne_nil (ne_nil_of_mem_places hp)
  cases h : v.field? "LinearWarmup_LR" with
  | none => simp only [Function.comp_apply, valueAt, h]; rfl
  | some w => simp only [Function.comp_apply, valueAt, h]; rfl

theorem getD_given (v : Value) : v.given.getD .null = v := by
  cases v <;> rfl

/-- **A load sets what it finds, up to the first entry that is missing.** -/
theorem load_overwrites (s : Schedule Value) (v : Value) :
    ((load s (Saved.levels v)).2 = .ok () ↔ none ∉ (places s).map (valueAt v)) ∧
      entries (load s (Saved.levels v)).1 = overwrite ((places s).map (valueAt v)) (entries s) := by
  have hfailed {e : Error} {fs : List (Option Value)} (h : none ∈ fs) :
      (Except.error e : Except Error Unit) = .ok () ↔ none ∉ fs := by
    simp [h]
  -- the outermost schedule decides which entries are looked for; what is found for each is free
  induction s generalizing v with
  | plain s rule =>
    simp only [places, map_cons, map_nil, valueAt_single]
    obtain ⟨h, hv⟩ | ⟨items, hitems, h⟩ := levels_cases v
    · rw [h, hv]
      exact ⟨hfailed (by simp), rfl⟩
    simp only [h, Record.ofItems, hitems]
    rcases v.field? "last_epoch" with _ | e <;> rcases v.field? "last_lr" with _ | r
    case some.some => exact ⟨by simp; rfl, rfl⟩
    all_goals exact ⟨hfailed (by simp), rfl⟩
  | plateau s p q =>
    simp only [places, map_cons, map_nil, valueAt_single]
    obtain ⟨h, hv⟩ | ⟨items, hitems, h⟩ := levels_cases v
    · rw [h, hv]
      exact ⟨hfailed (by simp), rfl⟩
    simp only [h, Record.ofItems, hitems]
    rcases v.field? "cooldown_counter" with _ | c
    · exact ⟨hfailed (by simp), rfl⟩
    rcases v.field? "best" with _ | b
    · exact ⟨hfailed (by simp), rfl⟩
    -- a best value is kept as one that may be missing, and saved as null where it is
    obtain ⟨best, hbest, rfl⟩ : ∃ best, b.given = best ∧ best.getD .null = b :=
      ⟨_, rfl, getD_given b⟩
    simp only [Option.map_some, hbest]
    rcases v.field? "num_bad_epochs" with _ | n <;> rcases v.field? "last_epoch" with _ | e <;>
      rcases v.field? "last_lr" with _ | r
    case some.some.some => exact ⟨by simp; rfl, rfl⟩
    all_goals exact ⟨hfailed (by simp), rfl⟩
  | warmup s ramp after ih =>
    rw [places, map_cons, map_cons, map_valueAt_after, valueAt_single, valueAt_single]
    obtain ⟨hresult, hentries⟩ := ih ((v.field? "LinearWarmup_LR").getD .null)
    obtain ⟨h, hv⟩ | ⟨items, hitems, h⟩ := levels_cases v
    · rw [h, hv, hv]
      exact ⟨hfailed (by simp), rfl⟩
    simp only [h, Record.ofItems, hitems]
    rcases v.field? "last_epoch" with _ | e <;> rcases v.field? "last_lr" with _ | r
    case some.some =>
      exact ⟨hresult.trans (by simp), congrArg (fun xs => e :: r :: xs) hentries⟩
    all_goals exact ⟨hfailed (by simp), rfl⟩

/-- **A load that fails keeps what it has set.**  A table is loaded if and only if it has all
entries of the schedule and of those it hands over to; in any case the entries up to the first that
is missing are set to what the table has, and no other is. -/
theorem restore_overwrites (s : Schedule Value) (items : Pairs) :
    ((restore s [.dict items]).2 = .ok () ↔ ∀ p ∈ places s, (valueAt (.dict items) p).isSome) ∧
      entries (restore s [.dict items]).1 =
        overwrite ((places s).map (valueAt (.dict items))) (entries s) := by
  obtain ⟨hresult, hentries⟩ := load_overwrites s (.dict items)
  rw [restore_dict]
  exact ⟨hresult.trans (by simp [Option.isSome_iff_ne_none]), hentries⟩

/-- A warm-up into stairs loads a table in which the rate of the stairs is missing. -/
theorem restore_overwrites_warm_stairs : Constructed warmStairs ∧
    let table : Pairs := [(.str "last_lr", .int 7), (.str "last_epoch", .int 5),
      (.str "LinearWarmup_LR", .dict [(.str "last_epoch", .int 9)])]
    entries warmStairs = [.int 1, .int 3, .int 0, .int 3] ∧
      (restore warmStairs [.dict table]).2 ≠ .ok () ∧
      entries (restore warmStairs [.dict table]).1 = [.int 5, .int 7, .int 9, .int 3] := by
  refine ⟨constructed_warmStairs, rfl, fun h => ?_, (restore_overwrites _ _).2.trans rfl⟩
  exact absurd ((restore_overwrites _ _).1.mp h _ (.tail _ (.tail _ (.tail _ (.head _)))))
    Bool.false_ne_true

/-- The epoch of stairs after a load that fails since the rate is missing. -/
theorem restore_not_atomic : ∃ stairs, make "PiecewiseDecay" stairSettings [] = .ok stairs ∧
    let loaded := restore stairs [.dict [(.str "last_epoch", .int 5)]]
    loaded.2 = .error (.missing "last_lr") ∧ stairs.state.epoch = .int 0 ∧
      loaded.1.state.epoch = .int 5 :=
  ⟨_, rfl, rfl, rfl, rfl⟩

end TensorKit.Schedule
