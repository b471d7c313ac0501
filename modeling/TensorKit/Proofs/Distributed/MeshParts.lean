import TensorKit.Distributed.ProcessMesh
import TensorKit.Proofs.Position
import TensorKit.Proofs.Tensor.Selection
import TensorKit.Proofs.Traversal
/-!
# Parts of a mesh

A mesh is indexed like an array, by a place or a range of the first axis or by a row of places and ranges, one for each
of the first axes.  What an index means for an array is said position by position (`Indexes`): a place removes its axis,
a range keeps it with the places of the range, and the axes that are left are kept whole.

The numbers of a part are always those of the indexed array, and they make a mesh again (`exists_selected`).  The names
are found by three rules, one for each form of index, and follow the array only if the index covers the axes it is for
(`Covers`, `part_indexes`).  A row that is shorter than the mesh loses the names of the axes that it does not mention,
and a place of a mesh with one axis leaves a number where an array is needed.
-/

namespace TensorKit.Distributed.ProcessMesh

open Position Tensor List

variable {α : Type} {m : ProcessMesh} {ss : List Selector} {names : Value}

/-! ## 1. Indexing an array -/

def Selector.keeps : Selector → Bool
  | one _ => false
  | range _ _ _ => true

def Selector.places (n : Nat) : Selector → List Nat
  | one i => [(if i < 0 then i + n else i).toNat]
  | range a b c => (Position.range n a b c).toOption.getD []

/-- A selector takes something of an axis: its place is on the axis, or its range is not empty. -/
def Selector.Takes (n : Nat) : Selector → Prop
  | one i => -n ≤ i ∧ i < n
  | range a b c => (range a b c).places n ≠ []

def Fits : List Nat → List Selector → Prop
  | _, [] => True
  | [], _ :: _ => False
  | n :: ns, s :: ss => s.Takes n ∧ Fits ns ss

instance (n : Nat) : (s : Selector) → Decidable (s.Takes n)
  | .one i => inferInstanceAs (Decidable (-n ≤ i ∧ i < n))
  | .range a b c => inferInstanceAs (Decidable ((Selector.range a b c).places n ≠ []))

instance decidableFits : (ns : List Nat) → (ss : List Selector) → Decidable (Fits ns ss)
  | [], [] | _ :: _, [] => .isTrue trivial
  | [], _ :: _ => .isFalse id
  | n :: ns, s :: ss =>
    have := decidableFits ns ss
    inferInstanceAs (Decidable (s.Takes n ∧ Fits ns ss))

/-- The places on each axis, and whether the axis stays; an axis without a selector stays whole. -/
def taken : List Nat → List Selector → List (List Nat × Bool)
  | ns, [] => ns.map fun n => (range n, true)
  | [], _ :: _ => []
  | n :: ns, s :: ss => (s.places n, s.keeps) :: taken ns ss

def keptLengths (ps : List (List Nat × Bool)) : List Nat := ps.filterMap fun p => if p.2 then some p.1.length else none

/-- The position of an array from which a position of its part is taken: on an axis that does not stay the one place
that there is. -/
def sourceOf : List (List Nat × Bool) → List Nat → Option (List Nat)
  | [], _ => some []
  | (places, true) :: ps, j :: js => places[j]?.bind fun i => (sourceOf ps js).map (i :: ·)
  | (_, true) :: _, [] => none
  | (places, false) :: ps, js => places[0]?.bind fun i => (sourceOf ps js).map (i :: ·)

/-- **The part of an array at an index**, position by position. -/
structure Indexes (t : Tensor Int) (ss : List Selector) (s : Tensor Int) : Prop where
  shape : s.shape = keptLengths (taken t.shape ss)
  full : s.WellFormed
  element : ∀ js ∈ Tensor.positions s.shape, s.get? js = (sourceOf (taken t.shape ss) js).bind t.get?

def keptAxes {α : Type} : List α → List Selector → List α
  | xs, [] => xs
  | [], _ :: _ => []
  | x :: xs, s :: ss => if s.keeps then x :: keptAxes xs ss else keptAxes xs ss

theorem Fits.length_le : ∀ {ns ss}, Fits ns ss → ss.length ≤ ns.length
  | _, [], _ => by simp
  | [], _ :: _, h => h.elim
  | n :: ns, s :: ss, h => Nat.succ_le_succ h.2.length_le

theorem keptAxes_sublist : ∀ (xs : List α) (ss : List Selector), (keptAxes xs ss).Sublist xs
  | _, [] | [], _ :: _ => by simp [keptAxes]
  | x :: xs, s :: ss => by
    rw [keptAxes]
    split
    · exact (keptAxes_sublist xs ss).cons_cons x
    · exact (keptAxes_sublist xs ss).cons x

theorem length_keptAxes : ∀ {xs : List α} {ss : List Selector}, ss.length ≤ xs.length →
    (keptAxes xs ss).length = ss.countP Selector.keeps + (xs.length - ss.length)
  | xs, [], _ => by simp [keptAxes]
  | [], _ :: _, h => by simp at h
  | x :: xs, s :: ss, h => by
    have ih : (keptAxes xs ss).length = _ := length_keptAxes (Nat.le_of_succ_le_succ h)
    cases hs : s.keeps <;> simp [keptAxes, hs, ih]
    omega

theorem length_keptLengths : ∀ ns ss,
    (keptLengths (taken ns ss)).length = (keptAxes ns ss).length
  | ns, [] => by simp [keptLengths, taken, keptAxes]
  | [], _ :: _ => rfl
  | n :: ns, s :: ss => by
    have ih := length_keptLengths ns ss
    cases hs : s.keeps <;> simpa [keptLengths, taken, keptAxes, hs] using ih

/-! ## 2. The array that is selected -/

theorem Selector.Takes.positions_eq {n : Nat} : ∀ {s : Selector}, s.Takes n →
    s.positions n = .ok (s.places n, s.keeps) ∧ (s.places n).Nodup ∧ (∀ i ∈ s.places n, i < n) ∧ s.places n ≠ []
  | .one i, h => by
    obtain ⟨hplace, hlt⟩ := place_eq_ok h.1 h.2
    refine ⟨?_, nodup_singleton _, ?_, cons_ne_nil _ _⟩
    · rw [Selector.positions, hplace]
      rfl
    · simpa [places] using hlt
  | .range a b c, h => by
    have htakes : places n (.range a b c) ≠ [] := h
    cases hrange : Position.range n a b c with
    | error e => simp [places, hrange, Except.toOption] at htakes
    | ok ps =>
      have hplaces : places n (.range a b c) = ps := by simp [places, hrange, Except.toOption]
      obtain ⟨hnd, hlt⟩ := range_places hrange
      rw [Selector.positions, hrange, hplaces]
      exact ⟨rfl, hnd, hlt, hplaces ▸ htakes⟩

/-- Different places on an axis, only one if the axis does not stay. -/
structure OnAxis (p : List Nat × Bool) (n : Nat) : Prop where
  distinct : p.1.Nodup
  inside : ∀ i ∈ p.1, i < n
  nonempty : 0 < n → p.1 ≠ []
  single : p.2 = false → p.1.length = 1

theorem selection_eq : ∀ {ns ss}, Fits ns ss →
    selection ns ss = .ok (taken ns ss) ∧ Forall₂ OnAxis (taken ns ss) ns
  | ns, [], _ => by
    rw [selection, taken]
    refine ⟨rfl, forall₂_map_left_iff.mpr (forall₂_same.mpr fun n _ => ?_)⟩
    exact ⟨nodup_range, fun i hi => mem_range.mp hi, fun hn => by simpa using hn.ne', fun h => by cases h⟩
  | [], _ :: _, h => h.elim
  | n :: ns, s :: ss, h => by
    obtain ⟨hps, hrest⟩ := selection_eq h.2
    obtain ⟨hpos, hnd, hlt, hne⟩ := h.1.positions_eq
    refine ⟨?_, .cons ⟨hnd, hlt, fun _ => hne, fun hs => ?_⟩ hrest⟩
    · rw [selection, hpos, hps]
      rfl
    · cases s with
      | one i => rfl
      | range a b c => cases hs

theorem nodup_places : ∀ {ps ns}, Forall₂ OnAxis ps ns →
    ∀ p ∈ ps.map Prod.fst, p.Nodup
  | _, _, .nil => by simp
  | _, _, .cons hp h => forall_mem_cons.mpr ⟨hp.distinct, nodup_places h⟩

theorem volume_places_pos : ∀ {ps ns}, Forall₂ OnAxis ps ns →
    0 < volume ns → 0 < volume ((ps.map Prod.fst).map length)
  | [], _, _, _ => Nat.one_pos
  | _ :: _, _ :: _, .cons hp h, hpos =>
    Nat.mul_pos (length_pos_iff.mpr (hp.nonempty (Nat.pos_of_mul_pos_right hpos)))
      (volume_places_pos h (Nat.pos_of_mul_pos_left hpos))

/-- Axes that do not stay do not count. -/
theorem volume_keptLengths {ps : List (List Nat × Bool)} {ns : List Nat} (h : Forall₂ OnAxis ps ns) :
    volume ((ps.map Prod.fst).map length) = volume (keptLengths ps) := by
  induction h with
  | nil => rfl
  | @cons p n ps ns hp _ ih =>
    obtain ⟨places, keeps⟩ := p
    cases keeps with
    | true => exact congrArg (places.length * ·) ih
    | false =>
      have hone : places.length = 1 := hp.single rfl
      simpa [volume, keptLengths, hone] using ih

/-- The choices of places, in order: they fall into blocks, one for each place of an axis that stays. -/
theorem getElem?_choices : ∀ {ps ns js}, Forall₂ OnAxis ps ns →
    js ∈ positions (keptLengths ps) → (choices (ps.map Prod.fst))[linear (keptLengths ps) js]? = sourceOf ps js
  | [], _, js, _, hjs => by
    obtain rfl : js = [] := by simpa [keptLengths, positions] using hjs
    rfl
  | (places, true) :: ps, _, js, .cons _ h, hjs => by
    obtain ⟨j, -, rest, hrest, rfl⟩ : ∃ j < places.length, ∃ rest ∈ positions (keptLengths ps),
        j :: rest = js := by
      simpa [keptLengths, positions] using hjs
    have hblock : ∀ i ∈ places, ((choices (ps.map Prod.fst)).map (i :: ·)).length = volume (keptLengths ps) := by
      intro i _
      rw [length_map, length_choices, volume_keptLengths h]
    have hr : linear (keptLengths ps) rest < volume (keptLengths ps) := linear_lt (mem_positions.mp hrest)
    refine (getElem?_flatMap_blocks hblock hr j).trans ?_
    simp [sourceOf, getElem?_choices h hrest]
  | (places, false) :: ps, _, js, .cons hp h, hjs => by
    obtain ⟨i, rfl⟩ := length_eq_one_iff.mp (hp.single rfl)
    simp [keptLengths, choices, sourceOf, ← getElem?_choices h hjs]

/-- **An index that fits selects the part of the array.**  Its elements are different ones of the array. -/
theorem exists_selected (hm : m.tensor.WellFormed) (hne : m.ids ≠ []) (hnd : m.ids.Nodup)
    (h : Fits m.shape ss) :
    ∃ s, m.selected ss = .ok s ∧ Indexes m.tensor ss s ∧ s.data ≠ [] ∧ s.data.Nodup ∧ s.data ⊆ m.ids := by
  obtain ⟨hps, haxes⟩ := selection_eq h
  have hinside : Inside ((taken m.shape ss).map Prod.fst) m.shape :=
    forall₂_map_left_iff.mpr (haxes.imp fun _ _ hp => hp.inside)
  have hdefined : Defined m.tensor.get? ((taken m.shape ss).map Prod.fst) := hm.defined hinside
  have hlength := length_gather _ _ hdefined
  refine ⟨⟨keptLengths (taken m.shape ss), m.tensor.select ((taken m.shape ss).map Prod.fst)⟩, ?_,
    ⟨rfl, hlength.trans (volume_keptLengths haxes), ?_⟩, ?_, ?_, ?_⟩
  · rw [selected, hps]
    rfl
  · intro js hjs
    have hsource : sourceOf (taken m.tensor.shape ss) js = _ := (getElem?_choices haxes hjs).symm
    rw [hsource]
    exact getElem?_gather hdefined _
  · have hlen : m.ids.length = volume m.shape := hm
    have hvolume : 0 < volume m.shape := hlen ▸ length_pos_iff.mpr hne
    exact length_pos_iff.mp (hlength ▸ volume_places_pos haxes hvolume)
  · exact nodup_select hnd hinside (nodup_places haxes)
  · intro x hx
    obtain ⟨is, -, hget⟩ := mem_filterMap.mp hx
    exact mem_of_getElem? hget

/-! ## 3. Numbers and names that make a mesh -/

theorem allDistinct_iff {same : α → α → Bool} {xs : List α} :
    allDistinct same xs ↔ xs.Pairwise fun x y => ¬same x y := by
  induction xs with
  | nil => simp [allDistinct]
  | cons x xs ih => rw [allDistinct, Bool.and_eq_true, ih, pairwise_cons, Bool.not_eq_true', any_eq_false]

theorem allDistinct_beq_iff {xs : List Int} : allDistinct (· == ·) xs ↔ xs.Nodup := by
  simp only [allDistinct_iff, beq_iff_eq, nodup_iff_pairwise_ne]

/-- Numbers that can stand in a mesh: there are some, none below zero and none twice. -/
structure Numbers (is : List Int) : Prop where
  nonempty : is ≠ []
  nonneg : ∀ i ∈ is, 0 ≤ i
  distinct : is.Nodup

theorem Numbers.of_subset {is js : List Int} (h : Numbers is) (hne : js ≠ []) (hnd : js.Nodup) (hsub : js ⊆ is) :
    Numbers js := ⟨hne, fun j hj => h.nonneg j (hsub hj), hnd⟩

def chosenNames (rank : Nat) : Value → Value
  | .null => usualNames rank
  | v => v

theorem chosenNames_of_ne {rank : Nat} (h : names ≠ .null) : chosenNames rank names = names := by
  unfold chosenNames
  split
  · exact absurd rfl h
  · rfl

variable {t : Tensor Int} {truths : Bool} {xs : List Value}

theorem ofTensor_of_numbers (ht : Numbers t.data) (hxs : (chosenNames t.rank names).members = .ok xs) :
    ofTensor t names truths = if xs.length ≠ t.rank then .error .nameCount
      else if allDistinct Value.same xs then .ok ⟨t.shape, t.data, chosenNames t.rank names, truths⟩
      else .error (.nameRepeated names) := by
  have hempty : t.data.isEmpty = false := by simpa using ht.nonempty
  have hneg : (t.data.any fun i => decide (i < 0)) = false := by simpa using ht.nonneg
  have hdist := allDistinct_beq_iff.mpr ht.distinct
  simp only [ofTensor, hempty, hneg, hdist, Bool.false_eq_true, Bool.not_true, if_false, liftM, monadLift,
    MonadLift.monadLift, Except.mapError, bind, Except.bind, pure, Except.pure]
  by_cases hnull : names = .null
  · subst hnull
    have hxs : (usualNames t.rank).members = .ok xs := hxs
    have hlen : xs.length = t.rank := by
      obtain rfl : _ = xs := Except.ok.inj hxs
      simp
    rw [if_neg (not_not_intro hlen)]
    simp only [hxs]
    cases allDistinct Value.same xs <;> rfl
  · rw [chosenNames_of_ne hnull] at hxs ⊢
    have hsize : names.size = .ok xs.length := by rw [Value.size, hxs]; rfl
    simp only [hsize, hxs]
    split
    · rfl
    · cases allDistinct Value.same xs <;> rfl

theorem numbers_of_ofTensor (h : ofTensor t names truths = .ok m) : Numbers t.data := by
  simp only [ofTensor, bind, Except.bind] at h
  split_ifs at h with hempty hneg hdist
  exact ⟨by simpa using hempty, by simpa using hneg, allDistinct_beq_iff.mp (by simpa using hdist)⟩

theorem exists_members_of_ofTensor (h : ofTensor t names truths = .ok m) :
    ∃ xs, (chosenNames t.rank names).members = .ok xs := by
  by_cases hnull : names = .null
  · subst hnull
    exact ⟨_, rfl⟩
  · rw [chosenNames_of_ne hnull]
    cases hmembers : names.members with
    | ok xs => exact ⟨xs, rfl⟩
    | error e =>
      have hsize : names.size = .error e := by rw [Value.size, hmembers]; rfl
      simp only [ofTensor, hsize, bind, Except.bind, liftM, monadLift, MonadLift.monadLift, Except.mapError] at h
      split_ifs at h

/-- **What a mesh that was made is like.** -/
theorem made_of_ofTensor (h : ofTensor t names truths = .ok m) : m.tensor = t ∧ m.truths = truths ∧ Numbers t.data ∧
      ∃ xs, m.names.members = .ok xs ∧ xs.length = t.rank ∧ allDistinct Value.same xs := by
  have ht := numbers_of_ofTensor h
  obtain ⟨xs, hxs⟩ := exists_members_of_ofTensor h
  rw [ofTensor_of_numbers ht hxs] at h
  split_ifs at h with hlen hdist
  cases h
  exact ⟨rfl, rfl, ht, xs, hxs, not_not.mp hlen, hdist⟩

theorem ofTensor_of_members (ht : Numbers t.data) (hxs : names.members = .ok xs) : ofTensor t names truths =
      if xs.length ≠ t.rank then .error .nameCount
      else if allDistinct Value.same xs then .ok ⟨t.shape, t.data, names, truths⟩
      else .error (.nameRepeated names) := by
  have hchosen : chosenNames t.rank names = names := chosenNames_of_ne (by rintro rfl; cases hxs)
  have hmake : ofTensor t names truths = _ := ofTensor_of_numbers ht (hchosen.symm ▸ hxs)
  rwa [hchosen] at hmake

/-! ## 4. Names of a part -/

def InRow : Value → Prop
  | .list _ | .tuple _ | .labelled _ _ | .str _ => True
  | _ => False

theorem members_laterNames : ∀ {names}, InRow names → names.members = .ok xs →
    (laterNames names).members = .ok xs.tail
  | .list ys, _, h | .tuple ys, _, h | .labelled _ ys, _, h => by
    obtain rfl : ys = xs := Except.ok.inj h
    rfl
  | .str s, _, h => by
    obtain rfl : _ = xs := Except.ok.inj h
    simp [laterNames, Value.members]

/-- The names that a row of selectors finds are those of the axes that it keeps, as far as it goes. -/
theorem keptNames_eq (pre : List Value) : ∀ {xs ss}, ss.length ≤ xs.length →
    keptNames (pre ++ xs) pre.length ss = .ok (keptAxes (xs.take ss.length) ss)
  | xs, [], _ => by simp [keptNames, keptAxes]
  | [], _ :: _, h => by simp at h
  | x :: xs, s :: ss, h => by
    have ih : keptNames (pre ++ x :: xs) (pre.length + 1) ss = .ok (keptAxes (xs.take ss.length) ss) := by
      have hnext := keptNames_eq (pre ++ [x]) (Nat.le_of_succ_le_succ h)
      rwa [append_assoc, singleton_append, length_append, length_singleton] at hnext
    cases s with
    | one i => exact ih
    | range a b c =>
      have hpick : pick (pre ++ x :: xs) (pre.length : Int) = .ok x := pick_natCast (by simp)
      rw [keptNames, hpick, ih]
      rfl

/-! ## 5. Parts -/

/-- An index by places and ranges: one of them for the first axis, or one for each of the first axes. -/
inductive Reads : Index → List Selector → Prop
  | axis (s : Selector) : Reads (.axis s) [s]
  | axes (ss : List Selector) : Reads (.axes ss) ss

/-- An index that covers the axes of a mesh: a row has as many members as the mesh has axes, and a place by itself
leaves an axis. -/
def Covers (rank : Nat) : Index → Prop
  | .axis (.one _) => 1 < rank
  | .axis (.range _ _ _) => True
  | .axes ss => ss.length = rank
  | _ => False

instance (rank : Nat) : (i : Index) → Decidable (Covers rank i)
  | .axis (.one _) => inferInstanceAs (Decidable (1 < rank))
  | .axis (.range _ _ _) => .isTrue trivial
  | .axes ss => inferInstanceAs (Decidable (ss.length = rank))
  | .rows _ | .none => .isFalse id

/-- Why an index that does not cover a mesh is refused. -/
def refusal : Index → Error
  | .axis _ => .notArray
  | _ => .nameCount

/-- The mesh of a part of the array: its numbers, and the names of the axes that stay.  Where none stays, it is a mesh
of one process with the usual name. -/
structure IsPart (m : ProcessMesh) (names : List Value) (ss : List Selector) (s : Tensor Int) (m' : ProcessMesh) :
    Prop where
  ids : m'.ids = s.data
  truths : m'.truths = m.truths
  axes : s.shape ≠ [] → m'.shape = s.shape ∧ m'.names.members = .ok (keptAxes names ss)
  single : s.shape = [] → m'.shape = [1] ∧ m'.names = usualNames 1

variable {s : Tensor Int}

theorem Indexes.rank_eq (h : Indexes t ss s) (hfits : Fits t.shape ss) :
    s.rank = ss.countP Selector.keeps + (t.rank - ss.length) := by
  rw [rank, h.shape, length_keptLengths, length_keptAxes hfits.length_le, rank]

/-- What is known of a mesh with these names and of the part of its array at an index. -/
structure Taken (m : ProcessMesh) (names : List Value) (ss : List Selector) (s : Tensor Int) : Prop where
  members : m.names.members = .ok names
  count : names.length = m.shape.length
  distinct : allDistinct Value.same names
  fits : Fits m.shape ss
  selected : m.selected ss = .ok s
  indexes : Indexes m.tensor ss s
  numbers : Numbers s.data

theorem exists_taken (ht : t.WellFormed) (hm : ofTensor t names truths = .ok m) (hfits : Fits m.shape ss) :
    ∃ xs s, Taken m xs ss s := by
  obtain ⟨rfl, rfl, hnumbers, xs, hxs, hlen, hdist⟩ := made_of_ofTensor hm
  obtain ⟨s, hsel, hs, hne, hnd, hsub⟩ := exists_selected ht hnumbers.nonempty hnumbers.distinct hfits
  exact ⟨xs, s, hxs, hlen, hdist, hfits, hsel, hs, hnumbers.of_subset hne hnd hsub⟩

theorem Taken.rank_eq (h : Taken m xs ss s) :
    s.shape.length = ss.countP Selector.keeps + (m.shape.length - ss.length) := h.indexes.rank_eq h.fits

theorem Taken.ofTensor_eq (h : Taken m xs ss s) (hnames : names.members = .ok (keptAxes xs ss)) :
    ofTensor s names truths = .ok ⟨s.shape, s.data, names, truths⟩ := by
  have hcount : (keptAxes xs ss).length = s.rank := by
    rw [rank, h.rank_eq, length_keptAxes (h.count ▸ h.fits.length_le), h.count]
  rw [ofTensor_of_members h.numbers hnames, if_neg (not_not_intro hcount),
    if_pos (allDistinct_iff.mpr ((allDistinct_iff.mp h.distinct).sublist (keptAxes_sublist xs ss)))]

/-- A part with an axis is made from the numbers with the names that are kept. -/
theorem Taken.exists_isPart (h : Taken m xs ss s) {i : Index} (hshape : s.shape ≠ [])
    (hnames : names.members = .ok (keptAxes xs ss)) (hpart : m.part i = ofTensor s names m.truths) :
    ∃ m', m.part i = .ok m' ∧ IsPart m xs ss s m' :=
  ⟨_, hpart.trans (h.ofTensor_eq hnames), rfl, rfl, fun _ => ⟨rfl, hnames⟩, fun hnil => absurd hnil hshape⟩

theorem ofTensor_single (hnumbers : Numbers s.data) :
    ofTensor ⟨[1], s.data⟩ .null truths = .ok ⟨[1], s.data, usualNames 1, truths⟩ := by
  have hone : Numbers (Tensor.mk [1] s.data).data := hnumbers
  rw [ofTensor_of_numbers hone rfl]
  rfl

/-- **An index by a row of places and ranges.** -/
theorem Taken.part_axes (h : Taken m xs ss s) :
    (ss.length = m.shape.length → ∃ m', m.part (.axes ss) = .ok m' ∧ IsPart m xs ss s m') ∧
    (ss.length ≠ m.shape.length → m.part (.axes ss) = .error .nameCount) := by
  have hle : ss.length ≤ xs.length := h.count ▸ h.fits.length_le
  have hkept : keptNames xs 0 ss = .ok (keptAxes (xs.take ss.length) ss) := keptNames_eq [] hle
  have hpart : m.part (.axes ss) = if s.shape.isEmpty then ofTensor ⟨[1], s.data⟩ .null m.truths
      else ofTensor s (.list (keptAxes (xs.take ss.length) ss)) m.truths := by
    simp only [part, h.members, h.selected]
    simp [hkept]
  constructor
  · intro hcovers
    rw [take_of_length_le (h.count.trans hcovers.symm).le] at hpart
    by_cases hshape : s.shape = []
    · rw [hpart, hshape, isEmpty_nil, if_pos rfl]
      exact ⟨_, ofTensor_single h.numbers, rfl, rfl, fun hne => absurd hshape hne, fun _ => ⟨rfl, rfl⟩⟩
    · exact h.exists_isPart hshape rfl (hpart.trans (if_neg (by simpa using hshape)))
  · intro hshort
    -- an axis without a selector stays, and its name is missing
    have hrank := h.rank_eq
    have hlt := lt_of_le_of_ne h.fits.length_le hshort
    have hcount : (keptAxes (xs.take ss.length) ss).length ≠ s.rank := by
      have htake := length_take_of_le hle
      rw [length_keptAxes htake.ge, htake, rank, hrank]
      omega
    have hshape : s.shape ≠ [] := ne_nil_of_length_pos (by omega)
    rw [hpart, if_neg (by simpa using hshape), ofTensor_of_members h.numbers rfl, if_pos hcount]

/-- **An index by a range of the first axis.** -/
theorem Taken.part_range {a b c : Option Int} (h : Taken m xs [.range a b c] s) :
    ∃ m', m.part (.axis (.range a b c)) = .ok m' ∧ IsPart m xs [.range a b c] s m' := by
  have hkept : keptAxes xs [.range a b c] = xs := by cases xs <;> simp [keptAxes, Selector.keeps]
  have hnames : m.names.members = .ok (keptAxes xs [.range a b c]) := hkept.symm ▸ h.members
  have hpart : m.part (.axis (.range a b c)) = ofTensor s m.names m.truths := by
    simp only [part, h.selected]
    rfl
  have hrank : s.shape.length = 1 + (m.shape.length - 1) := by simpa [Selector.keeps] using h.rank_eq
  have hshape : s.shape ≠ [] := ne_nil_of_length_pos (by omega)
  exact h.exists_isPart hshape hnames hpart

/-- **An index by a place of the first axis.** -/
theorem Taken.part_one {i : Int} (h : Taken m xs [.one i] s) (hrow : InRow m.names) :
    (1 < m.shape.length → ∃ m', m.part (.axis (.one i)) = .ok m' ∧ IsPart m xs [.one i] s m') ∧
    (¬ 1 < m.shape.length → m.part (.axis (.one i)) = .error .notArray) := by
  have hkept : keptAxes xs [.one i] = xs.tail := by cases xs <;> simp [keptAxes, Selector.keeps]
  have hnames : (laterNames m.names).members = .ok (keptAxes xs [.one i]) :=
    hkept.symm ▸ members_laterNames hrow h.members
  have hpart : m.part (.axis (.one i)) = if s.shape.isEmpty then .error .notArray
      else ofTensor s (laterNames m.names) m.truths := by
    simp only [part, h.selected]
    rfl
  have hrank : s.shape.length = m.shape.length - 1 := by simpa [Selector.keeps] using h.rank_eq
  constructor
  · intro hmany
    have hshape : s.shape ≠ [] := ne_nil_of_length_pos (by omega)
    exact h.exists_isPart hshape hnames (hpart.trans (if_neg (by simpa using hshape)))
  · intro hone
    have hshape : s.shape = [] := length_eq_zero_iff.mp (by omega)
    rw [hpart, hshape, isEmpty_nil, if_pos rfl]

/-- **Indexing a mesh.**  A mesh has names in a row for its axes, and an index by places and ranges takes something of
each axis that it is for.  Then it has a part of the array.  If the index covers the axes of the mesh, the result is the
mesh of that part: its numbers in order, with the names of the axes that stay, or a mesh of one process if none stays.
If it does not, the index is refused, though the array has the part: for the count of the names if it is a row that is
shorter than the mesh, and for the lack of an array if it is a place of a mesh with one axis. -/
theorem part_indexes (ht : t.WellFormed) (hm : ofTensor t names truths = .ok m) (hrow : InRow m.names) {i : Index}
    (hi : Reads i ss) (hfits : Fits m.shape ss) :
    ∃ xs s, m.names.members = .ok xs ∧ xs.length = m.shape.length ∧ Indexes m.tensor ss s ∧
      (Covers m.shape.length i → ∃ m', m.part i = .ok m' ∧ IsPart m xs ss s m') ∧
      (¬ Covers m.shape.length i → m.part i = .error (refusal i)) := by
  obtain ⟨xs, s, h⟩ := exists_taken ht hm hfits
  refine ⟨xs, s, h.members, h.count, h.indexes, ?_⟩
  cases hi with
  | axes => exact h.part_axes
  | axis sel =>
    cases sel with
    | one i => exact h.part_one hrow
    | range a b c => exact ⟨fun _ => h.part_range, fun hnot => absurd trivial hnot⟩

def rows : ProcessMesh := ⟨[2, 3], [5, 0, 1, 2, 4, 3], .list [.str "x", .str "y"], false⟩

def line : ProcessMesh := ⟨[2], [7, 6], .list [.str "x"], false⟩

/-- The last row backwards is a mesh with one axis; a range of the first axis by itself, in a row, is refused, and so is
a place of a mesh with one axis. -/
theorem part_indexes_rows :
    (∃ m', rows.part (.axes [.one (-1), .range none none (some (-1))]) = .ok m' ∧ m'.shape = [3] ∧
      m'.ids = [3, 4, 2] ∧ m'.names.members = .ok [.str "y"]) ∧
    rows.part (.axes [.range (some 1) none none]) = .error .nameCount ∧
    line.part (.axis (.one 1)) = .error .notArray := by
  have hrows : ofTensor rows.tensor rows.names false = .ok rows := rfl
  have hrowsFull : rows.tensor.WellFormed := rfl
  have hline : ofTensor line.tensor line.names false = .ok line := rfl
  have hlineFull : line.tensor.WellFormed := rfl
  refine ⟨?_, ?_, ?_⟩
  · have hfits : Fits rows.shape [.one (-1), .range none none (some (-1))] := by decide
    obtain ⟨xs, s, hxs, -, hs, hpart, -⟩ := part_indexes hrowsFull hrows trivial (.axes _) hfits
    obtain ⟨m', hm', hids, -, haxes, -⟩ := hpart (by decide)
    obtain rfl : [.str "x", .str "y"] = xs := Except.ok.inj hxs
    have hshape : s.shape = [3] := hs.shape
    obtain ⟨hshape', hnames⟩ := haxes (by simp [hshape])
    refine ⟨m', hm', hshape'.trans hshape, ?_, hnames⟩
    have hlength : s.data.length = 3 := hs.full.trans (by rw [hshape]; rfl)
    obtain ⟨a, b, c, habc⟩ := length_eq_three.mp hlength
    have ha := hs.element [0] (by rw [hshape]; decide)
    have hb := hs.element [1] (by rw [hshape]; decide)
    have hc := hs.element [2] (by rw [hshape]; decide)
    rw [Tensor.get?, hshape, habc] at ha hb hc
    obtain rfl : a = 3 := Option.some.inj ha
    obtain rfl : b = 4 := Option.some.inj hb
    obtain rfl : c = 2 := Option.some.inj hc
    rw [hids, habc]
  · have hfits : Fits rows.shape [.range (some 1) none none] := by decide
    obtain ⟨-, -, -, -, -, -, hrefused⟩ := part_indexes hrowsFull hrows trivial (.axes _) hfits
    exact hrefused (by decide)
  · have hfits : Fits line.shape [.one 1] := by decide
    obtain ⟨-, -, -, -, -, -, hrefused⟩ := part_indexes hlineFull hline trivial (.axis _) hfits
    exact hrefused (by decide)

end TensorKit.Distributed.ProcessMesh
