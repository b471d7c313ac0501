import TensorKit.Distributed.Topology
import TensorKit.Proofs.Distributed.Coordinates
/-!
# The communication groups of a topology

A topology numbers its ranks in row-major order of their coordinates and looks both up in a list of all coordinates, so
the two look-ups are inverse to each other (`coordinate_eq_ok_iff`, `rank_eq_ok_iff`).

The groups of an axis are the rows of the axis (`groups_eq_rows`): **every rank is in one of them, once, and its group
is the one that a process computes for itself** from its own number and the sizes of the mesh.

Groups and ranks are asked for by the names of the axes as they are spelled, but coordinates are made under the normal
forms of the names.  Where the two differ for an axis, no group and no rank can be found (`groups_of_notMem`).
-/

namespace TensorKit.Distributed.Topology

open Position Tensor List Int

variable {c : List Nat} {r : Nat}

/-! ## 1. Ranks and coordinates -/

/-- A topology as it is made: at least one axis, names with distinct normal forms, and a positive size for each. -/
structure WellFormed (t : Topology) : Prop where
  some_axis : t.names ≠ []
  parameters_nodup : t.parameters.Nodup
  axes : t.names.length = t.sizes.length
  sizes_pos : ∀ d ∈ t.sizes, 0 < d

variable (t : Topology)

def extents : List Nat := t.sizes.map Int.toNat

namespace WellFormed

variable {t : Topology} (h : t.WellFormed)

include h

theorem distinct : t.names.Nodup := h.parameters_nodup.of_map _

theorem sizes_eq : t.sizes = t.extents.map ofNat := by
  rw [extents, map_map]
  refine ((map_congr_left fun d hd => ?_).trans (map_id _)).symm
  have := h.sizes_pos d hd
  simp only [Function.comp_apply, ofNat_eq_natCast, id_eq]
  omega

theorem worldSize_eq : t.worldSize = (volume t.extents : Nat) := by
  rw [worldSize, h.sizes_eq, product_natCast]

theorem make_eq (hvalid : ∀ n ∈ t.names, t.naming.isName n) :
    make t.names t.sizes t.naming = .ok t := by
  have hall : (!t.names.all t.naming.isName) = false := by simpa using hvalid
  have hlength : ∀ {ns : List String}, ns.Nodup → ns.eraseDups.length = ns.length := by
    intro ns hns
    rw [length_eraseDups, toFinset_card_of_nodup hns]
  have hparameters : t.parameters.eraseDups.length = t.names.length := by
    rw [hlength h.parameters_nodup, parameters, length_map]
  have hsome : t.sizes.isEmpty = false := by
    have hlen : t.sizes.length ≠ 0 := by
      rw [← h.axes]
      exact fun hzero => h.some_axis (length_eq_zero_iff.mp hzero)
    cases hs : t.sizes with
    | nil => simp [hs] at hlen
    | cons d ds => rfl
  simp [make, hall, hlength h.distinct, hparameters, hsome, h.axes]

end WellFormed

theorem coordinate_eq_ok_iff {t : Topology} (h : t.WellFormed) :
    t.coordinate (r : Int) = .ok c ↔ t.coordinates[r]? = some c := by
  rw [coordinate, h.worldSize_eq]
  by_cases hr : r < volume t.extents
  · rw [if_neg (by simp [hr]), toNat_natCast]
    cases t.coordinates[r]? <;> simp
  · have hnone : (positions t.extents)[r]? = none := by
      rw [getElem?_eq_none_iff, length_positions]
      omega
    rw [if_pos (by simp; omega), show t.coordinates[r]? = none from hnone]
    simp

theorem coordinate_of_lt {t : Topology} (h : t.WellFormed) (hr : r < volume t.extents) :
    t.coordinate (r : Int) = .ok (position t.extents r) :=
  (coordinate_eq_ok_iff h).mpr (getElem?_positions hr)

theorem rankAt?_eq_some_iff : t.rankAt? (c.map ofNat) = some r ↔ t.coordinates[r]? = some c := by
  have hidx : t.rankAt? (c.map ofNat) = t.coordinates.idxOf? c := by
    rw [rankAt?, idxOf?]
    congr 1
    funext d
    have hinj : d.map ofNat = c.map ofNat ↔ d = c := (map_injective_iff.mpr ofNat_injective).eq_iff
    rw [Bool.eq_iff_iff, beq_iff_eq, beq_iff_eq, hinj]
  rw [hidx]
  constructor
  · intro hr
    obtain ⟨hlt, hval, -⟩ := idxOf?_eq_some_iff.mp hr
    rw [getElem?_eq_getElem hlt]
    simpa using hval
  · exact idxOf?_of_getElem? (nodup_positions t.extents)

theorem rankAt?_of_mem (hc : c ∈ positions t.extents) :
    t.rankAt? (c.map ofNat) = some (linear t.extents c) :=
  (rankAt?_eq_some_iff t).mpr (getElem?_positions_linear hc)

section

variable {names : List String} {vs : List Int} {kw : Table String Int} (hlen : names.length = vs.length)
  (hkw : kw.Perm (names.zip vs))

include hlen hkw

theorem keys_perm : kw.keys.Perm names := by
  have hperm : kw.keys.Perm ((names.zip vs).map Prod.fst) := hkw.map Prod.fst
  rwa [map_fst_zip (Nat.le_of_eq hlen)] at hperm

/-- Coordinates that are given by name, in any order, are those that were meant. -/
theorem filterMap_get? (hnd : names.Nodup) : names.filterMap (fun n => kw.get? n) = vs := by
  have hkeys : kw.keys.Nodup := (keys_perm hlen hkw).nodup_iff.mpr hnd
  calc names.filterMap (fun n => kw.get? n)
      = ((names.zip vs).map Prod.fst).filterMap (fun n => kw.get? n) := by rw [map_fst_zip (Nat.le_of_eq hlen)]
    _ = (names.zip vs).filterMap (fun p => some p.2) := by
        rw [filterMap_map]
        refine filterMap_congr fun p hp => ?_
        exact Table.get?_of_mem hkeys (hkw.mem_iff.mpr hp)
    _ = vs := by rw [filterMap_eq_map', map_snd_zip (Nat.le_of_eq hlen.symm)]

end

theorem rankBy_of_notMem {kw : Table String Int} {n : String} (hn : n ∈ kw.keys) (hfree : n ∉ t.parameters)
    (e : FailureKind) : t.rankBy e kw = .error .type := by
  have hall : (kw.keys.all fun n => t.parameters.contains n) = false := by
    rw [all_eq_false]
    exact ⟨n, hn, by simpa using hfree⟩
  rw [rankBy, hall, Bool.not_false, Bool.or_true]
  rfl

section Keyed

variable {t : Topology} (h : t.WellFormed) (hlen : t.parameters.length = (c.map ofNat).length) {kw : Table String Int}
  (hkw : kw.Perm (t.parameters.zip (c.map ofNat)))

include h hlen hkw

theorem WellFormed.rankBy_of_perm (e : FailureKind) :
    t.rankBy e kw = (t.rankAt? (c.map ofNat)).elim (.error e) .ok := by
  have hkeys := keys_perm hlen hkw
  have hnames : (!t.parameters.all (fun n => kw.has n) || !kw.keys.all fun n => t.parameters.contains n) = false := by
    simp only [Bool.or_eq_false_iff, Bool.not_eq_false', all_eq_true, Table.has_iff_mem_keys,
      contains_iff_mem]
    exact ⟨fun n hn => hkeys.mem_iff.mpr hn, fun n hn => hkeys.mem_iff.mp hn⟩
  rw [rankBy, hnames, filterMap_get? hlen hkw h.parameters_nodup]
  rfl

/-- **Rank and coordinates are inverse to each other**, where no parameter is called `self`. -/
theorem rank_eq_ok_iff (hself : "self" ∉ t.parameters) : t.rank kw = .ok r ↔ t.coordinate (r : Int) = .ok c := by
  have hfree : areFree [] kw.keys := by
    simp only [areFree, contains_nil, Bool.or_false, Bool.not_eq_true', any_eq_false, decide_eq_true_eq]
    exact fun n hn he => hself (he ▸ (keys_perm hlen hkw).mem_iff.mp hn)
  have hcount : ¬ kw.length ≠ t.sizes.length := by
    rw [hkw.length_eq, length_zip, ← hlen, Nat.min_self, parameters, length_map, h.axes]
    exact not_not.mpr rfl
  rw [coordinate_eq_ok_iff h, ← rankAt?_eq_some_iff]
  simp only [rank, hfree, hcount, h.rankBy_of_perm hlen hkw]
  cases t.rankAt? (c.map ofNat) <;> simp

end Keyed

/-! ## 2. Groups -/

section Axis

variable {t : Topology} {a d : Nat} {name : String} {pre post : List Nat}

namespace WellFormed

variable (h : t.WellFormed)

include h

theorem exists_axis (ha : t.names[a]? = some name) :
    ∃ pre d post, t.extents = pre ++ d :: post ∧ pre.length = a ∧ 0 < d := by
  have hlt : a < t.extents.length := by
    rw [extents, length_map, ← h.axes]
    exact (lt_of_getElem? ha)
  refine ⟨t.extents.take a, t.extents[a], t.extents.drop (a + 1), by simp, by simp; omega, ?_⟩
  obtain ⟨d, hd, hval⟩ := mem_map.mp (getElem_mem hlt)
  have := h.sizes_pos d hd
  omega

theorem axis_eq (ha : t.names[a]? = some name) : t.axis name = .ok a := by
  rw [axis, find, idxOf?_of_getElem? h.distinct ha, demand_some]

theorem size_eq (ha : t.names[a]? = some name) (hd : t.extents[a]? = some d) :
    t.size name = .ok (d : Int) := by
  have hpick : pick t.sizes (a : Int) = .ok (d : Int) := by
    rw [h.sizes_eq]
    exact pick_natCast (by simp [hd])
  simp [size, h.axis_eq ha, hpick]

/-- The sizes of the other axes, by their names. -/
theorem mapM_size (a : Nat) :
    (t.names.eraseIdx a).mapM t.size = .ok ((t.extents.eraseIdx a).map ofNat) := by
  have hall : Forall₂ (fun n d => t.size n = .ok d) t.names (t.extents.map ofNat) := by
    refine forall₂_iff_get.mpr ⟨by simp [extents, h.axes], fun i hi hj => ?_⟩
    have hi' : i < t.extents.length := by simpa using hj
    simpa using h.size_eq (getElem?_eq_getElem hi) (getElem?_eq_getElem hi')
  rw [← eraseIdx_map, eraseIdx_eq_take_drop_succ, eraseIdx_eq_take_drop_succ]
  exact mapM_of_forall₂ (rel_append (forall₂_take a hall) (forall₂_drop (a + 1) hall))

section

variable (ha : t.names[a]? = some name) (hext : t.extents = pre ++ d :: post)
  (hpre : pre.length = a)

include ha hext hpre

/-- The other coordinates by name, and then the one on the axis, are all coordinates. -/
theorem named_perm {x y : List Nat} (hx : x ∈ positions pre) (hy : y ∈ positions post) (i : Nat) :
    t.names.length = ((x ++ i :: y).map ofNat).length ∧
    ((t.names.eraseIdx a).zip ((x ++ y).map ofNat) ++ [(name, (i : Int))]).Perm
      (t.names.zip ((x ++ i :: y).map ofNat)) := by
  have hxlen := length_of_mem_positions hx
  have hlen := congrArg length hext
  simp only [extents, length_map, ← h.axes, length_append, length_cons] at hlen
  obtain ⟨hlt, rfl⟩ := List.getElem?_eq_some_iff.mp ha
  have htake : (t.names.take a).length = (x.map ofNat).length := by
    rw [length_take, length_map]
    omega
  refine ⟨by simp [hlen, hxlen, length_of_mem_positions hy], ?_⟩
  rw [map_append, map_append, map_cons]
  conv_rhs => rw [← take_append_drop a t.names, drop_eq_getElem_cons hlt, zip_append htake, zip_cons_cons]
  rw [eraseIdx_eq_take_drop_succ, zip_append htake, append_assoc]
  exact (perm_append_singleton _ _).append_left _

theorem groups_eq : t.groups name = (positions (pre ++ post)).mapM fun c =>
    (List.range d).mapM fun (i : Nat) =>
      t.rankBy .key ((t.names.eraseIdx a).zip (c.map ofNat) ++ [(name, (i : Int))]) := by
  have hin : t.names.contains name := contains_iff_mem.mpr (mem_of_getElem? ha)
  have hothers : t.names.filter (fun n => decide (n ≠ name)) = t.names.eraseIdx a := by
    obtain ⟨hlt, rfl⟩ := List.getElem?_eq_some_iff.mp ha
    rw [← h.distinct.erase_getElem a hlt, h.distinct.erase_eq_filter]
    exact filter_congr fun n _ => Bool.eq_iff_iff.mpr (by simp)
  have herase : t.extents.eraseIdx a = pre ++ post := by
    rw [hext, ← hpre, eraseIdx_append_of_length_le (Nat.le_refl _)]
    simp
  have hsize := h.size_eq ha (d := d) (by simp [hext, ← hpre])
  simp only [groups, hin, hothers, h.mapM_size, herase, hsize, ok_bind, toNat_natCast, Bool.not_true,
    Bool.false_eq_true, if_false, map_map]
  simp [Function.comp_def]

/-- **The groups of an axis are its rows**, in the order of the coordinates on the other axes. -/
theorem groups_eq_rows (hnormal : t.parameters = t.names) : t.groups name = .ok (rows pre d post) := by
  have hrank : ∀ x ∈ positions pre, ∀ y ∈ positions post, ∀ i ∈ List.range d,
      t.rankBy .key ((t.names.eraseIdx a).zip ((x ++ y).map ofNat) ++ [(name, (i : Int))])
        = .ok (linear t.extents (x ++ i :: y)) := by
    intro x hx y hy i hi
    have hmem : x ++ i :: y ∈ positions t.extents := by
      rw [hext]
      exact around_axis_mem_positions hx (mem_range.mp hi) hy
    obtain ⟨hlen, hperm⟩ := h.named_perm ha hext hpre hx hy i
    rw [← hnormal] at hlen
    rw [h.rankBy_of_perm hlen (by rwa [hnormal]), rankAt?_of_mem t hmem]
    rfl
  have hcut : ∀ x ∈ positions pre, ∀ y : List Nat, (x ++ y).take a = x ∧ (x ++ y).drop a = y := by
    intro x hx y
    have hxlen := length_of_mem_positions hx
    constructor <;> simp [← hpre, ← hxlen]
  rw [h.groups_eq ha hext hpre, positions_append]
  refine (mapM_eq_ok (g := fun c => row pre d post (c.take a) (c.drop a)) fun c hc => ?_).trans ?_
  · obtain ⟨x, hx, hc⟩ := mem_flatMap.mp hc
    obtain ⟨y, hy, rfl⟩ := mem_map.mp hc
    rw [(hcut x hx y).1, (hcut x hx y).2, row, ← hext]
    exact mapM_eq_ok fun i hi => hrank x hx y hy i hi
  · rw [map_flatMap, rows]
    refine congrArg Except.ok (flatMap_congr fun x hx => ?_)
    rw [map_map]
    exact map_congr_left fun y _ => by rw [Function.comp_apply, (hcut x hx y).1, (hcut x hx y).2]

/-- Where an axis is known under another name than its own, no group can be found. -/
theorem groups_of_notMem {n : String} (hn : n ∈ t.names) (hfree : n ∉ t.parameters) :
    t.groups name = .error .type := by
  have hpos : ∀ m ∈ pre ++ d :: post, 0 < m := by
    intro m hm
    rw [← hext] at hm
    obtain ⟨k, hk, rfl⟩ := mem_map.mp hm
    have := h.sizes_pos k hk
    omega
  have hsome : positions (pre ++ post) ≠ [] := by
    rw [← length_pos_iff, length_positions]
    exact volume_pos fun m hm => hpos m (by simp at hm ⊢; tauto)
  rw [h.groups_eq ha hext hpre]
  refine mapM_eq_error hsome fun c hc => mapM_eq_error (by simpa using (hpos d (by simp)).ne') fun i _ => ?_
  rw [positions_append] at hc
  obtain ⟨x, hx, hc⟩ := mem_flatMap.mp hc
  obtain ⟨y, hy, rfl⟩ := mem_map.mp hc
  obtain ⟨hlen, hperm⟩ := h.named_perm ha hext hpre hx hy i
  exact rankBy_of_notMem t ((keys_perm hlen hperm).mem_iff.mpr hn) hfree .key

end

end WellFormed

/-- Ranks stand in a row of length `n` on an axis: their coordinates, in order, are those of one position with
0, 1, … on the axis. -/
def InRow (axis n : Nat) (g : List Nat) : Prop :=
  ∃ c : List Nat, axis < c.length ∧
    g.mapM (fun r : Nat => t.coordinate r) = .ok ((List.range n).map fun i => c.set axis i)

theorem WellFormed.inRow_row (h : t.WellFormed) (hext : t.extents = pre ++ d :: post) {x y : List Nat}
    (hx : x ∈ positions pre) (hy : y ∈ positions post) : t.InRow pre.length d (row pre d post x y) := by
  have hxlen := length_of_mem_positions hx
  refine ⟨x ++ 0 :: y, by simp [hxlen], ?_⟩
  have hset : ∀ i, (x ++ 0 :: y).set pre.length i = x ++ i :: y := by
    intro i
    rw [← hxlen]
    simp
  simp only [hset, ← map_position_row hx hy]
  refine mapM_eq_ok fun r hr => ?_
  obtain ⟨i, hi, rfl⟩ := mem_map.mp hr
  rw [← hext]
  refine coordinate_of_lt h ?_
  rw [hext]
  exact linear_lt (mem_positions.mp (around_axis_mem_positions hx (mem_range.mp hi) hy))

theorem WellFormed.exists_group (h : t.WellFormed) (hext : t.extents = pre ++ d :: post) (hr : r < volume t.extents) :
    ∃ x ∈ positions pre, ∃ y ∈ positions post, r ∈ row pre d post x y ∧
      Coordinate.group ((List.range (volume t.extents)).map ofNat) t.sizes pre.length r
        = .ok ((row pre d post x y).map ofNat) := by
  have hmem := position_mem_positions hr
  have hlinear := linear_position hr
  rw [h.sizes_eq]
  rw [hext] at hmem hlinear ⊢
  obtain ⟨x, hx, i, hi, y, hy, heq⟩ := exists_around_axis hmem
  rw [heq] at hlinear
  rw [← hlinear]
  exact ⟨x, hx, y, hy, mem_map_of_mem (mem_range.mpr hi), Coordinate.group_eq_row hx hi hy⟩

end Axis

theorem parameters_eq {t : Topology} (h : ∀ n ∈ t.names, t.naming.normal n = n) : t.parameters = t.names :=
  (map_congr_left h).trans (map_id _)

/-- A name that is not a normal form is not the normal form of another one either. -/
theorem notMem_parameters {t : Topology} {n : String} (h : t.naming.normal n ≠ n) : n ∉ t.parameters := by
  intro hn
  obtain ⟨m, -, rfl⟩ := mem_map.mp hn
  exact h (t.naming.normal_normal m)

theorem rank_of_perm {t : Topology} {kw : Table String Int} (hkeys : kw.keys.Perm t.names)
    (haxes : t.names.length = t.sizes.length) {n : String} (hn : n ∈ t.names) (hfree : n ∉ t.parameters) :
    t.rank kw = .error .type := by
  have hcount : ¬ kw.length ≠ t.sizes.length := by
    rw [← haxes, ← hkeys.length_eq, Table.keys, length_map]
    exact not_not.mpr rfl
  simp only [rank, hcount, t.rankBy_of_notMem (hkeys.mem_iff.mpr hn) hfree]
  cases areFree [] kw.keys <;> rfl

/-- **The communication groups partition the ranks.**  A topology can be made from names with distinct normal forms and
from positive sizes.  Every rank has coordinates, and all coordinates inside the sizes are those of a rank.  The rank
with some coordinates, given in any order under the normal forms of the names, is the rank that has them, where none of
these is `self`.

For each axis, if all names are normal forms:

* the groups of the axis have every rank once; each has as many ranks as the axis is long, and they stand in a row;
* each rank is in the group that it computes for itself from the numbers of all ranks, the sizes and the axis.

If some name is not a normal form, neither the groups of an axis nor a rank can be found by the names: the arguments do
not have the names of the parameters. -/
theorem groups_partition_ranks {t : Topology} (h : t.WellFormed) (hvalid : ∀ n ∈ t.names, t.naming.isName n) :
    make t.names t.sizes t.naming = .ok t ∧ (∀ r < t.worldSize.toNat, ∃ c, t.coordinate r = .ok c) ∧
    (∀ c : List Nat, List.Forall₂ (fun (i : Nat) (d : Int) => (i : Int) < d) c t.sizes →
      ∃ r < t.worldSize.toNat, t.coordinate r = .ok c) ∧
    ("self" ∉ t.parameters → ∀ (c : List Nat) (r : Nat) (kw : Table String Int), c.length = t.names.length →
      kw.Perm (t.parameters.zip (c.map Int.ofNat)) → (t.rank kw = .ok r ↔ t.coordinate r = .ok c)) ∧
    ((∀ n ∈ t.names, t.naming.normal n = n) → t.parameters = t.names ∧
      ∀ (a : Nat) (name : String), t.names[a]? = some name → ∃ (d : Nat) (groups : List (List Nat)),
        t.sizes[a]? = some (d : Int) ∧ t.groups name = .ok groups ∧ groups.flatten.Perm (range t.worldSize.toNat) ∧
        (∀ g ∈ groups, g.length = d ∧ t.InRow a d g) ∧ ∀ r < t.worldSize.toNat, ∃ g ∈ groups, r ∈ g ∧
          Coordinate.group ((List.range t.worldSize.toNat).map Int.ofNat) t.sizes a r = .ok (g.map Int.ofNat)) ∧
    ((∃ n ∈ t.names, t.naming.normal n ≠ n) → (∀ name ∈ t.names, t.groups name = .error .type) ∧
      ∀ kw : Table String Int, kw.keys.Perm t.names → t.rank kw = .error .type) := by
  have hworld : t.worldSize.toNat = volume t.extents := by rw [h.worldSize_eq, Int.toNat_natCast]
  rw [hworld]
  refine ⟨h.make_eq hvalid, ?_, ?_, ?_, ?_, ?_⟩
  · intro r hr
    exact ⟨_, coordinate_of_lt h hr⟩
  · intro c hc
    have hmem : c ∈ positions t.extents := by
      rw [h.sizes_eq, forall₂_map_right_iff] at hc
      exact mem_positions.mpr (hc.imp fun i n hin => by simpa using hin)
    exact ⟨_, linear_lt (mem_positions.mp hmem), (coordinate_eq_ok_iff h).mpr (getElem?_positions_linear hmem)⟩
  · intro hself c r kw hlen hkw
    exact rank_eq_ok_iff h (by simp [parameters, hlen]) hkw hself
  · intro hnormal
    refine ⟨parameters_eq hnormal, fun a name ha => ?_⟩
    obtain ⟨pre, d, post, hext, hpre, -⟩ := h.exists_axis ha
    refine ⟨d, _, ?_, h.groups_eq_rows ha hext hpre (parameters_eq hnormal), ?_, ?_, ?_⟩
    · rw [h.sizes_eq, hext, ← hpre]
      simp
    · rw [hext]
      exact flatten_rows_perm pre d post
    · intro g hg
      obtain ⟨x, hx, y, hy, rfl⟩ := mem_rows.mp hg
      exact ⟨length_row, hpre ▸ h.inRow_row hext hx hy⟩
    · intro r hr
      obtain ⟨x, hx, y, hy, hmem, hgroup⟩ := h.exists_group hext hr
      rw [hpre] at hgroup
      exact ⟨_, mem_rows.mpr ⟨x, hx, y, hy, rfl⟩, hmem, hgroup⟩
  · rintro ⟨n, hn, hne⟩
    refine ⟨fun name hname => ?_, fun kw hkeys => rank_of_perm hkeys h.axes hn (notMem_parameters hne)⟩
    obtain ⟨a, ha⟩ := mem_iff_getElem?.mp hname
    obtain ⟨pre, d, post, hext, hpre, -⟩ := h.exists_axis ha
    exact h.groups_of_notMem ha hext hpre hn (notMem_parameters hne)

def twoPipes : Topology := ⟨["data", "pipe"], [2, 3], .usual⟩

/-- Two axes, the second of which is spelled with a ligature. -/
def ligature : Topology := ⟨["data", "ﬁ"], [2, 2], .usual⟩

/-- The ranks of two pipes of three stages; the rank with the number 4 is in the second.  With a ligature in the name of
an axis there are ranks, but no groups. -/
theorem groups_partition_ranks_two_pipes :
    twoPipes.groups "pipe" = .ok [[0, 1, 2], [3, 4, 5]] ∧ [0, 1, 2, 3, 4, 5].Perm (range 6) ∧
    Coordinate.group ((List.range 6).map Int.ofNat) [2, 3] 1 4 = .ok [3, 4, 5] ∧
    (twoPipes.rank [("pipe", 1), ("data", 1)] = .ok 4 ↔ twoPipes.coordinate 4 = .ok [1, 1]) ∧
    (ligature.rank [("fi", 1), ("data", 0)] = .ok 1 ↔ ligature.coordinate 1 = .ok [0, 1]) ∧
    ligature.groups "data" = .error .type := by
  have hwell : twoPipes.WellFormed := ⟨by decide, by decide, by decide, by decide⟩
  have hgroups : twoPipes.groups "pipe" = .ok [[0, 1, 2], [3, 4, 5]] := rfl
  obtain ⟨-, -, -, hrank, hnormal, -⟩ := groups_partition_ranks hwell (by decide)
  obtain ⟨d, groups, -, hok, hperm, -, hown⟩ := (hnormal (by decide)).2 1 "pipe" rfl
  obtain rfl : [[0, 1, 2], [3, 4, 5]] = groups := Except.ok.inj (hgroups.symm.trans hok)
  obtain ⟨g, hg, hmem, hgroup⟩ := hown 4 (by decide)
  obtain rfl : g = [3, 4, 5] := by
    simp only [mem_cons, not_mem_nil, or_false] at hg
    rcases hg with rfl | rfl
    · simp at hmem
    · rfl
  have hwell' : ligature.WellFormed := ⟨by decide, by decide, by decide, by decide⟩
  obtain ⟨-, -, -, hrank', -, hnone⟩ := groups_partition_ranks hwell' (by decide +kernel)
  exact ⟨hgroups, hperm, hgroup, hrank (by decide) [1, 1] 4 _ rfl (List.Perm.swap _ _ _),
    hrank' (by decide) [0, 1] 1 _ rfl (List.Perm.swap _ _ _), (hnone (by decide)).1 "data" (by decide)⟩

/-- An axis may be called `self`, but no rank can then be asked for by its coordinates. -/
theorem no_rank_on_axis_self :
    (⟨["self"], [2], .usual⟩ : Topology).WellFormed ∧ (⟨["self"], [2], .usual⟩ : Topology).coordinate 1 = .ok [1] ∧
    (⟨["self"], [2], .usual⟩ : Topology).rank [("self", 1)] = .error .type :=
  ⟨⟨by decide, by decide, by decide, by decide⟩, rfl, rfl⟩

end TensorKit.Distributed.Topology
