import TensorKit.Proofs.Distributed.Merging
import TensorKit.Proofs.Distributed.Slicing
/-!
# From one splitting to another

A conversion takes the blocks of one splitting and gives a process its block under another.  It merges and slices, but
has three shortcuts: where the two tables are equal every process keeps the block it has, where the previous mapping
splits nothing the first block is the whole array, and where the current one splits nothing the whole array is the
block.  **As long as merging puts the array together, every way leads to the block of the process**
(`convertOne_eq_within`).  Equal tables describe one splitting (`Describes.eq_of_same`), and a mapping splits nothing
exactly when it has entries and all of them are -1 (`splits_eq_false_iff`).
-/

namespace TensorKit

open List Value

variable {v previous current : Value} {rank : Int}

/-! ## 1. Equal tables -/

namespace Value

variable {k : String}

theorem same_str_right {x : Value} : same x (str k) ↔ x = str k := by cases x <;> simp [same]

theorem same_str_left {y : Value} : same (str k) y ↔ y = str k := by
  cases y with
  | str s =>
    have hbeq : same (str k) (str s) = (k == s) := rfl
    rw [hbeq, beq_iff_eq, str.injEq, eq_comm]
  | _ => simp [same]

theorem mem_of_lookup_str : ∀ {items}, lookup (str k) items = some v →
    (str k, v) ∈ items
  | (x, w) :: items, h => by
    rw [lookup] at h
    by_cases hx : same x (str k)
    · rw [if_pos hx, Option.some.injEq] at h
      rw [same_str_right.mp hx, h]
      exact .head _
    · rw [if_neg hx] at h
      exact .tail _ (mem_of_lookup_str h)

theorem lookup_str_of_mem : ∀ {items},
    (items.map Prod.fst).Pairwise (fun x y => same x y = false) → (str k, v) ∈ items → lookup (str k) items = some v
  | (x, w) :: items, hkeys, h => by
    rw [map_cons, pairwise_cons] at hkeys
    rw [lookup]
    rcases mem_cons.mp h with heq | hmem
    · obtain ⟨rfl, rfl⟩ := Prod.mk.inj heq
      rw [if_pos (same_str_right.mpr rfl)]
    · have hother : ¬ same x (str k) := by
        rw [hkeys.1 (str k) (mem_map_of_mem hmem)]
        exact Bool.false_ne_true
      rw [if_neg hother]
      exact lookup_str_of_mem hkeys.2 hmem

theorem samePair_of_sameItems {p : Value × Value} {qs : Pairs} : ∀ {ps},
    sameItems ps qs → p ∈ ps → samePair p qs
  | q :: ps, h, hp => by
    rw [sameItems, Bool.and_eq_true] at h
    rcases mem_cons.mp hp with rfl | hp
    · exact h.1
    · exact samePair_of_sameItems h.2 hp

/-- **Equal tables have equal values under every text key.** -/
theorem same_of_need {w : Value} (h : same previous current)
    (hkeys : ∀ items, current = dict items → (items.map Prod.fst).Pairwise fun x y => same x y = false)
    (hv : previous.need k = .ok v) (hw : current.need k = .ok w) : same v w := by
  cases previous with
  | dict ps =>
    cases current with
    | dict qs =>
      have hitems : sameItems ps qs := by
        rw [same, Bool.and_eq_true] at h
        exact h.2
      have hmem : (str k, v) ∈ ps := mem_of_lookup_str (demand_eq_ok_iff.mp hv)
      have hfound : lookup (str k) qs = some w := demand_eq_ok_iff.mp hw
      have hpair := samePair_of_sameItems hitems hmem
      rw [samePair, any_eq_true] at hpair
      obtain ⟨⟨x, u⟩, hq, hboth⟩ := hpair
      rw [Bool.and_eq_true] at hboth
      obtain rfl : x = str k := same_str_left.mp hboth.1
      have hu := lookup_str_of_mem (hkeys qs rfl) hq
      rw [hfound, Option.some.injEq] at hu
      rw [hu]
      exact hboth.2
    | _ => simp [need] at hw
  | _ => simp [need] at hv

/-- Lists of whole numbers are equal as data if they are equal. -/
theorem eq_of_same_toValue : ∀ {xs ys : List Int}, same (toValue xs) (toValue ys) → xs = ys
  | [], [], _ => rfl
  | [], _ :: _, h | _ :: _, [], h => by cases h
  | x :: xs, y :: ys, h => by
    have hcons : ((x == y) && same (toValue xs) (toValue ys)) := h
    rw [Bool.and_eq_true, beq_iff_eq] at hcons
    rw [hcons.1, eq_of_same_toValue hcons.2]

end Value

namespace Distributed

open Position Tensor

namespace Reshape

variable {mesh mesh' : List Nat} {mapping mapping' group group' : List Int} {sizes : List Nat} {a : NdArray}
variable {entry : Value}

/-- **Equal tables describe one splitting.** -/
theorem Describes.eq_of_same (h : Describes previous mesh mapping group)
    (h' : Describes current mesh' mapping' group') (hsame : same previous current) :
    mesh = mesh' ∧ mapping = mapping' ∧ group = group' := by
  refine ⟨?_, ?_, ?_⟩
  · have hshape := eq_of_same_toValue (same_of_need hsame h'.keys h.shape h'.shape)
    exact map_injective_iff.mpr Int.ofNat_injective hshape
  · exact eq_of_same_toValue (same_of_need hsame h'.keys h.mapping h'.mapping)
  · exact eq_of_same_toValue (same_of_need hsame h'.keys h.group h'.group)

/-! ## 2. Mappings that split nothing -/

/-- A mapping splits nothing exactly if it has entries and all of them are -1. -/
theorem splits_eq_false_iff :
    splits mapping = false ↔ mapping ≠ [] ∧ ∀ m ∈ mapping, m = Mapping.replicated := by
  have hnd := Block.nodup_distinct mapping
  simp only [splits, Bool.or_eq_false_iff, decide_eq_false_iff_not, not_lt, Bool.not_eq_false',
    contains_iff_mem]
  constructor
  · rintro ⟨hone, hrep⟩
    refine ⟨ne_nil_of_mem hrep, fun m hm => ?_⟩
    -- two different entries would be two members of a list with at most one
    obtain ⟨x, hx⟩ := length_eq_one_iff.mp
      (le_antisymm hone (length_pos_of_mem (Block.mem_distinct.mpr hrep)))
    have hm' := Block.mem_distinct.mpr hm
    have hrep' := Block.mem_distinct.mpr hrep
    rw [hx, mem_singleton] at hm' hrep'
    rw [hm', hrep']
  · rintro ⟨hne, hall⟩
    obtain ⟨m, hm⟩ := exists_mem_of_ne_nil mapping hne
    refine ⟨?_, hall m hm ▸ hm⟩
    have hsub : Block.distinct mapping ⊆ [Mapping.replicated] := fun x hx =>
      mem_singleton.mpr (hall x (Block.mem_distinct.mp hx))
    simpa using (hnd.subperm hsub).length_le

def assigned (mesh : List Nat) (mapping group : List Int) (sizes : List Nat) (p : Int) : Block :=
  blockAt mesh mapping sizes (position mesh (group.idxOf p))

theorem assigned_of_splits_eq_false (h : Even mesh mapping sizes) (hs : splits mapping = false) (p : Int) :
    assigned mesh mapping group sizes p = wholeBlock sizes := by
  rw [← blockAt_nil h]
  refine blockAt_congr h fun j hj => ?_
  exact absurd ((splits_eq_false_iff.mp hs).2 _ hj) (natCast_ne_replicated j)

theorem mesh_ne_nil_of_splits (h : Even mesh mapping sizes) (haxes : sizes ≠ []) (hs : splits mapping) :
    mesh ≠ [] := by
  rintro rfl
  have hnone : splits mapping = false := by
    refine splits_eq_false_iff.mpr ⟨?_, fun m hm => ?_⟩
    · rintro rfl
      exact haxes (length_eq_zero_iff.mp h.axes.symm)
    · rcases h.entries m hm with hrep | ⟨j, hj, -⟩
      · exact hrep
      · exact absurd hj (Nat.not_lt_zero j)
  rw [hnone] at hs
  cases hs

/-! ## 3. The ways of a conversion -/

def held (mesh : List Nat) (mapping group : List Int) (a : NdArray) : List NdArray :=
  group.map fun p => a.within (assigned mesh mapping group a.shape p)

theorem getElem?_held {p : Int} (hp : p ∈ group) :
    (held mesh mapping group a)[group.idxOf p]? = some (a.within (assigned mesh mapping group a.shape p)) := by
  have hlt := idxOf_lt_length_iff.mpr hp
  rw [held, getElem?_map, getElem?_eq_getElem hlt, getElem_idxOf, Option.map_some]

theorem arraysOf?_map (xs : List NdArray) : arraysOf? (.list (xs.map .array)) = some xs := by
  rw [arraysOf?, mapM_map]
  exact (mapM_eq_some (g := id) fun x _ => rfl).trans (by rw [map_id])

theorem ownOf_held (hnd : group.Nodup) (hentry : Describes entry mesh mapping group) (hr : rank ∈ group) :
    ownOf rank (held mesh mapping group a) entry = .ok (a.within (assigned mesh mapping group a.shape rank)) := by
  have hidx := idxOf?_of_getElem? hnd (getElem?_idxOf hr)
  simp [ownOf, hentry.group, wholes_toValue, hidx, pick_natCast (getElem?_held hr)]

section

variable (h : Divides mesh mapping group a.shape)

include h

theorem pick_held (ha : a.toTensor.WellFormed) (hs : splits mapping = false) :
    pick (held mesh mapping group a) 0 = .ok a := by
  have hpos : 0 < group.length := h.count ▸ volume_pos h.mesh_pos
  refine pick_natCast ?_
  rw [held, getElem?_map, getElem?_eq_getElem hpos, Option.map_some, assigned_of_splits_eq_false h.toEven hs,
    NdArray.within_wholeBlock ha]

/-- Where no more than one axis is cut, merging what the processes hold gives the array. -/
theorem mergeArrays_held (ha : a.Proper) (hcut : cutAxes mesh mapping ≤ 1)
    (hne : mesh ≠ []) (hentry : Describes entry mesh mapping group) :
    mergeArrays (held mesh mapping group a) entry = .ok a := by
  have hslab := assemble_slab h ha hne fun p hp => getElem?_held hp
  rw [(within_slab_eq_iff ha h.toEven).mpr hcut] at hslab
  simp only [mergeArrays, hentry.splittingOf_eq, hslab, liftM_twice_ok, ok_bind]
  rfl

theorem sliceArray_assigned (hpos : ∀ n ∈ a.shape, 0 < n) (hne : mesh ≠ [])
    (haxes : a.shape ≠ []) (ha : a.toTensor.WellFormed) (hentry : Describes entry mesh mapping group)
    (hr : rank ∈ group) :
    sliceArray rank a entry = .ok (a.within (assigned mesh mapping group a.shape rank)) := by
  simp only [sliceArray, hentry.splittingOf_eq, slice?_eq h hpos hne haxes ha hr, liftM_twice_ok, ok_bind]
  rfl

end

/-- **Repartitioning gives every process its block.**  Let two splittings of one array be described by tables: each has
a process for each place of its mesh, all distinct, and splits the axes of the array, of which there is at least one
and all have positive sizes, evenly.  Let the first one cut no more than one axis into more than one part.  From the
blocks of the array under the first splitting, in the order of its processes, a conversion gives every process of the
second one the part of the array that is assigned to it; on a mesh with an axis, this is the part in its block. -/
theorem convertOne_eq_within (h : Divides mesh mapping group a.shape) (h' : Divides mesh' mapping' group' a.shape)
    (hcut : cutAxes mesh mapping ≤ 1) (ha : a.Proper) (haxes : a.shape ≠ []) (hpos : ∀ n ∈ a.shape, 0 < n)
    {previous current : Value} (hprevious : Describes previous mesh mapping group)
    (hcurrent : Describes current mesh' mapping' group') {rank : Int} (hr : rank ∈ group') :
    convertOne rank (.list ((held mesh mapping group a).map .array)) previous current
      = .ok (a.within (assigned mesh' mapping' group' a.shape rank)) ∧
    (mesh ≠ [] → ∀ p ∈ group, Block.ofProcess p (a.shape.map Int.ofNat) mapping (mesh.map Int.ofNat) group
      = .ok (assigned mesh mapping group a.shape p)) ∧
    (mesh' ≠ [] → Block.ofProcess rank (a.shape.map Int.ofNat) mapping' (mesh'.map Int.ofNat) group'
      = .ok (assigned mesh' mapping' group' a.shape rank)) := by
  refine ⟨?_, fun hne p hp => ofProcess_of_mem h.toEven hne h.distinct hp,
    fun hne => ofProcess_of_mem h'.toEven hne h'.distinct hr⟩
  by_cases hsame : Value.same previous current = true
  · obtain ⟨rfl, rfl, rfl⟩ := hprevious.eq_of_same hcurrent hsame
    simp only [convertOne, arraysOf?_map, if_pos hsame, ownOf_held h.distinct hcurrent hr]
  · have hread : convertOne rank (.list ((held mesh mapping group a).map .array)) previous current
        = if splits mapping' then sliceArray rank a current else .ok a := by
      simp only [convertOne, arraysOf?_map, if_neg hsame, hprevious.mapping, hcurrent.mapping, wholes_toValue, liftM,
        monadLift, MonadLift.monadLift, Except.mapError, bind, Except.bind]
      cases hs : splits mapping with
      | false => simp only [pick_held h ha.wellFormed hs, Bool.false_eq_true, if_false, pure, Except.pure]
      | true =>
        have hne := mesh_ne_nil_of_splits h.toEven haxes hs
        simp only [mergeArrays_held h ha hcut hne hprevious, if_true, pure, Except.pure]
    rw [hread]
    cases hs : splits mapping' with
    | false =>
      rw [assigned_of_splits_eq_false h'.toEven hs, NdArray.within_wholeBlock ha.wellFormed]
      rfl
    | true =>
      have hne := mesh_ne_nil_of_splits h'.toEven haxes hs
      exact sliceArray_assigned h' hpos hne haxes ha.wellFormed hcurrent hr

/-- Four processes hold the columns of a square, each column twice; two others get the rows. -/
theorem convertOne_columns_to_rows : held [2, 2] [-1, 1] [0, 1, 2, 3] square = [⟨⟨[2, 1], [.int 1, .int 3]⟩, .int64⟩,
      ⟨⟨[2, 1], [.int 2, .int 4]⟩, .int64⟩, ⟨⟨[2, 1], [.int 1, .int 3]⟩, .int64⟩,
      ⟨⟨[2, 1], [.int 2, .int 4]⟩, .int64⟩] ∧
    convertOne 7 (.list ((held [2, 2] [-1, 1] [0, 1, 2, 3] square).map .array))
        (tableOf [2, 2] [-1, 1] [0, 1, 2, 3]) (tableOf [2] [0, -1] [9, 7]) = .ok ⟨⟨[1, 2], [.int 3, .int 4]⟩, .int64⟩ ∧
    Block.ofProcess 7 [2, 2] [0, -1] [2] [9, 7] = .ok [⟨1, 2⟩, ⟨0, 2⟩] := by
  have hcolumns : Divides [2, 2] [-1, 1] [0, 1, 2, 3] square.shape := by decide
  have hrows : Divides [2] [0, -1] [9, 7] square.shape := by decide
  obtain ⟨hconvert, -, hblock⟩ := convertOne_eq_within hcolumns hrows (by decide) proper_square (by decide) (by decide)
    (describes_tableOf _ _ _) (describes_tableOf _ _ _) (show 7 ∈ _ by decide)
  exact ⟨rfl, hconvert, hblock (by decide)⟩

end Reshape

end Distributed

end TensorKit
