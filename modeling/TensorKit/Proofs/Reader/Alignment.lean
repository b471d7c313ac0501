import Mathlib
import TensorKit.Reader
/-!
# Alignment of composed readers

With the check on, readers are composed row by row; a null stands for an entry of a reader that has ended, and a row
with a null ends the run.  An entry that is itself null cannot be told from a missing one, so readers are composed as
far as they are aligned if and only if there is none among the rows that all of them have (`compose_aligned_iff`).
-/

namespace TensorKit.Reader

open List

variable {ds : List (List Value)} {i n : ℕ}

/-! ## 1. Rows -/

/-- **Run lemma**: a run has the values of its rows, up to the first row that ends it. -/
theorem fromRows_eq {rows : ℕ → Except (Option Error) (List Value)} {f : List Value → Except Error Value}
    {g : ℕ → Value} {stop : Option Error} {fuel : ℕ} (hpresent : ∀ j < n, ∃ xs, rows j = .ok xs ∧ f xs = .ok (g j))
    (hend : ∀ fuel, fromRows rows f (fuel + 1) n = ⟨[], stop⟩) (hi : i ≤ n) (hfuel : n - i < fuel) :
    fromRows rows f fuel i = ⟨(range' i (n - i)).map g, stop⟩ := by
  induction fuel generalizing i with
  | zero => omega
  | succ fuel ih =>
    rcases hi.eq_or_lt with rfl | hlt
    · simp [hend]
    · obtain ⟨xs, hrow, hvalue⟩ := hpresent i hlt
      have hrest : n - i = n - (i + 1) + 1 := by omega
      simp [fromRows, hrow, hvalue, ih hlt (by omega), Run.cons, hrest, range'_succ]

theorem length_lt_rowBound {r : Run} {rs : List Run} (h : r ∈ rs) : r.samples.length < rowBound rs := by
  have hmax (rs : List Run) (m : ℕ) : m ≤ rs.foldl (fun n r => Nat.max n r.samples.length) m ∧
      ∀ r ∈ rs, r.samples.length ≤ rs.foldl (fun n r => Nat.max n r.samples.length) m := by
    induction rs generalizing m with
    | nil => simp
    | cons r rs ih =>
      obtain ⟨hle, hall⟩ := ih (m.max r.samples.length)
      refine ⟨(le_max_left _ _).trans hle, ?_⟩
      rintro r' (_ | ⟨_, hr'⟩)
      · exact (le_max_right _ _).trans hle
      · exact hall r' hr'
  exact Nat.lt_succ_of_le ((hmax rs 0).2 r h)

/-- The entries of finite readers at a position, null for those that have ended. -/
theorem rowFilled_data (ds : List (List Value)) (i : ℕ) : rowFilled i (ds.map (⟨·, none⟩)) =
    if ∀ d ∈ ds, d.length ≤ i then .error none else .ok (ds.map fun d => d[i]?.getD .null) := by
  have hcells (f : Run → Except (Option Error) (Option Value))
      (hf : ∀ d, f ⟨d, none⟩ = .ok d[i]?) : (ds.map (⟨·, none⟩)).mapM f = .ok (ds.map (·[i]?)) := by
    induction ds with
    | nil => rfl
    | cons d ds ih =>
      rw [map_cons, mapM_cons, hf, ih]
      rfl
  rw [rowFilled, hcells]
  · show (if _ then _ else Except.ok _) = _
    simp [Function.comp_def]
  · intro d
    cases hd : d[i]? <;> simp only [Run.at, hd] <;> rfl

/-! ## 2. Composed readers -/

/-- The entries at a position of those readers that have one. -/
def rowOf (ds : List (List Value)) (i : ℕ) : List Value := ds.filterMap (·[i]?)

theorem any_null {p : Value → Bool} (hp : ∀ v, p v ↔ v = .null) {xs : List Value} :
    xs.any p ↔ .null ∈ xs := by
  simp [hp]

/-- The run of finite readers up to the first position where one of them has no entry or a null. -/
theorem compose_aligned (hlong : ∀ d ∈ ds, n ≤ d.length) (hfree : ∀ i < n, .null ∉ rowOf ds i)
    (hend : ∃ d ∈ ds, d[n]?.getD .null = .null) : compose true (ds.map (⟨·, none⟩)) =
      ⟨(range n).map fun i => joined (rowOf ds i), if ∀ d ∈ ds, d.length ≤ n then none else some .notAligned⟩ := by
  obtain ⟨d, hd, hnull⟩ := hend
  have hne : (ds.map (fun d => (⟨d, none⟩ : Run))).isEmpty = false := by simpa using ne_nil_of_mem hd
  have hfuel : n - 0 < rowBound (ds.map (⟨·, none⟩)) :=
    (hlong d hd).trans_lt (length_lt_rowBound (r := ⟨d, none⟩) (mem_map_of_mem hd))
  rw [compose, hne, range_eq_range']
  refine fromRows_eq (fun i hi => ?_) (fun fuel => ?_) n.zero_le hfuel
  · have hrow : rowOf ds i = ds.map fun d => d[i]?.getD .null := by
      rw [rowOf, ← filterMap_eq_map]
      refine filterMap_congr fun d hd => ?_
      simp [hi.trans_le (hlong d hd)]
    refine ⟨rowOf ds i, ?_, if_neg (mt (any_null fun v => by split <;> simp_all).mp (hfree i hi))⟩
    rw [rowFilled_data, if_neg fun h => (h d hd).not_gt (hi.trans_le (hlong d hd)), hrow]
  · rw [fromRows, rowFilled_data]
    split_ifs with hshort
    · rfl
    · have hmem : .null ∈ ds.map fun d => d[n]?.getD .null := mem_map.mpr ⟨d, hd, hnull⟩
      dsimp only
      rw [if_pos]
      exact (any_null fun v => by split <;> simp_all).mpr hmem

/-- **Composed readers are checked for nulls, not for lengths.**  Finite readers of which the shortest has `n` entries
give `n` tuples, and a failure if their lengths differ, if and only if no reader has a null among its first `n` entries.
Otherwise the first null breaks the run off as if its reader had ended. -/
theorem compose_aligned_iff (hn : (ds.map length).min? = some n) :
    let made := compose true (ds.map (⟨·, none⟩))
    let upTo (k : ℕ) := (range k).map fun i => joined (rowOf ds i)
    (made = ⟨upTo n, if ∀ d ∈ ds, d.length = n then none else some .notAligned⟩ ↔ ∀ i < n, .null ∉ rowOf ds i) ∧
      ∀ k < n, .null ∈ rowOf ds k → (∀ i < k, .null ∉ rowOf ds i) → made = ⟨upTo k, some .notAligned⟩ := by
  intro made upTo
  obtain ⟨hmem, hleast⟩ := min?_eq_some_iff.mp hn
  obtain ⟨shortest, hshortest, hlength⟩ := mem_map.mp hmem
  have hle : ∀ d ∈ ds, n ≤ d.length := fun d hd => hleast _ (mem_map_of_mem hd)
  have hnull : ∀ k < n, .null ∈ rowOf ds k → (∀ i < k, .null ∉ rowOf ds i) →
      made = ⟨upTo k, some .notAligned⟩ := by
    intro k hk hrow hbefore
    obtain ⟨d, hd, hdk⟩ := mem_filterMap.mp hrow
    have hlong : ¬ ∀ d ∈ ds, d.length ≤ k := fun h => hk.not_ge (hlength ▸ h shortest hshortest)
    have hrun := compose_aligned (fun d hd => hk.le.trans (hle d hd)) hbefore ⟨d, hd, hdk ▸ rfl⟩
    rwa [if_neg hlong] at hrun
  refine ⟨⟨fun hmade => ?_, fun hfree => ?_⟩, hnull⟩
  · -- the first null would make the run shorter than it is
    by_contra hsome
    have hk : ∃ k < n, .null ∈ rowOf ds k := by simpa using hsome
    classical
    obtain ⟨hlt, hrow⟩ := Nat.find_spec hk
    have hshort := hnull _ hlt hrow fun i hi hi' => Nat.find_min hk hi ⟨hi.trans hlt, hi'⟩
    have hlengths := congrArg (fun r => r.samples.length) (hmade.symm.trans hshort)
    simp only [upTo, length_map, length_range] at hlengths
    exact hlt.ne' hlengths
  · have hrun := compose_aligned hle hfree ⟨shortest, hshortest, by rw [getElem?_eq_none hlength.le]; rfl⟩
    have hsame : (∀ d ∈ ds, d.length ≤ n) ↔ ∀ d ∈ ds, d.length = n :=
      forall₂_congr fun d hd => (hle d hd).ge_iff_eq'
    simpa only [hsame] using hrun

/-- Two readers with the same number of entries, one of them with a null, and two readers of different lengths. -/
theorem compose_aligned_iff_null : compose true [⟨[.int 1, .null], none⟩, ⟨[.int 2, .int 3], none⟩] =
      ⟨[.tuple [.int 1, .int 2]], some .notAligned⟩ ∧
    compose true [⟨[.int 1], none⟩, ⟨[.tuple [.int 2, .int 3], .int 4], none⟩] =
      ⟨[.tuple [.int 1, .int 2, .int 3]], some .notAligned⟩ :=
  ⟨(@compose_aligned_iff [[.int 1, .null], [.int 2, .int 3]] 2 rfl).2 1 (by simp) (by simp [rowOf]) (by simp [rowOf]),
    (@compose_aligned_iff [[.int 1], [.tuple [.int 2, .int 3], .int 4]] 1 rfl).1.mpr (by simp [rowOf])⟩

end TensorKit.Reader
