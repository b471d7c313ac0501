import TensorKit.Proofs.Distributed.BlockJoining
import TensorKit.Proofs.Distributed.Contents
/-!
# Slicing a tensor

A process does not cut its block out of the tensor directly.  The bounds of all blocks are collected, axis by axis; the
tensor is cut at all of them into a flat list of pieces; and the process takes the piece whose number it computes from
the spans of its block.

For an even splitting every axis has `partCount` parts of length `partSize`, whether it is split or not, and the block
of a process has the part number `partIndex` on it (`IsEntry.spanAt_eq`):

* the cuts on an axis are the multiples of the length of its parts (`cuts_natCast`);
* the pieces are the parts at the positions of a box with the counts as its sides (`cutAll_restrict`);
* the number of a piece is the place of its position in row-major order (`numberFrom_natCast`).

Hence **every process gets its own block**, for a mesh with at least one axis and a tensor with at least one axis.
-/

namespace TensorKit

open Distributed List Block Int

variable {xs group : List Int} {n : Nat} {m : Int}

/-! ## 1. The bounds of blocks -/

namespace Distributed.Block

theorem nodup_distinct (xs : List Int) : (distinct xs).Nodup := nodup_foldl_distinct xs nodup_nil

theorem mem_distinct {x : Int} : x ∈ distinct xs ↔ x ∈ xs := by
  rw [distinct, mem_foldl_distinct]
  simp

theorem mem_bounds {r i : Nat} {x : Int} : ∀ {bs}, (∀ b ∈ bs, b.length = r) →
    (x ∈ (bounds bs)[i]?.getD [] ↔ ∃ b ∈ bs, ∃ s, b[i]? = some s ∧ (x = s.lo ∨ x = s.hi))
  | [], _ => by simp [bounds]
  | b :: bs, h => by
    have ih := mem_bounds (i := i) (x := x) fun cs hc => h cs (.tail _ hc)
    have hget : (bounds (b :: bs))[i]? = (b[i]?).map fun s => s.lo :: s.hi :: (bounds bs)[i]?.getD [] := by
      simp [bounds, Function.comp_def]
    rw [hget]
    cases hb : b[i]? with
    | some s =>
      simp only [Option.map_some, Option.getD_some, mem_cons, ih, exists_eq_or_imp, hb, Option.some.injEq,
        exists_eq_left']
      rw [or_assoc]
    | none =>
      -- all blocks have one rank, so none has the axis
      have hnone : ∀ cs ∈ bs, cs[i]? = none := by
        intro cs hc
        have hle := getElem?_eq_none_iff.mp hb
        rw [h b mem_cons_self, ← h cs (.tail _ hc)] at hle
        exact getElem?_eq_none hle
      constructor
      · intro hx
        simp at hx
      · rintro ⟨cs, hc, s, hs, -⟩
        rcases mem_cons.mp hc with rfl | hc
        · rw [hb] at hs
          cases hs
        · rw [hnone cs hc] at hs
          cases hs

end Distributed.Block

namespace Distributed

open Position Tensor

variable {mesh : List Nat} {mapping : List Int} {sizes : List Nat} {cs : List Nat}

/-! ## 2. Where to cut -/

/-- The bounds of all blocks on an axis, without its ends and in order, are the multiples of the length of a part. -/
theorem sorted_bounds (h : EvenAxis mesh n m) (hpos : 0 < n) (hmesh : ∀ d ∈ mesh, 0 < d)
    (hxs : ∀ x, x ∈ xs ↔ ∃ cs ∈ positions mesh, x = (spanAt mesh cs n m).lo ∨ x = (spanAt mesh cs n m).hi) :
    sorted ((distinct xs).filter fun x => x != (n : Int) && x != 0)
      = (cutsOn (partCount mesh m) (partSize mesh n m)).map ofNat := by
  have hq := h.partSize_pos hpos
  have hn := h.size_eq
  refine sorted_eq_of_mem_iff ((nodup_distinct xs).filter _) ?_ fun x => ?_
  · rw [cutsOn, map_map, pairwise_map]
    refine (pairwise_lt_range' _).imp fun {a b} hab => ?_
    have hlt := Nat.mul_lt_mul_of_pos_right hab hq
    simp only [Function.comp_apply, ofNat_eq_natCast]
    omega
  · simp only [mem_filter, mem_distinct, hxs, Bool.and_eq_true, bne_iff_ne, cutsOn, map_map,
      mem_map, mem_range'_1, Function.comp_apply, ofNat_eq_natCast]
    constructor
    · rintro ⟨⟨cs, hc, hx⟩, hxn, hx0⟩
      have hlt := h.partIndex_lt hc
      rw [h.isEntry.spanAt_eq (length_of_mem_positions hc)] at hx
      rcases hx with rfl | rfl
      · refine ⟨partIndex cs m, ⟨?_, by omega⟩, rfl⟩
        refine Nat.pos_of_ne_zero fun hzero => hx0 ?_
        simp [hzero]
      · refine ⟨partIndex cs m + 1, ⟨by omega, ?_⟩, rfl⟩
        have hne : partIndex cs m + 1 ≠ partCount mesh m := fun heq => hxn (by simp [heq, ← hn])
        omega
    · rintro ⟨k, ⟨hk, hkd⟩, rfl⟩
      have hk' : k < partCount mesh m := by omega
      obtain ⟨cs, hc, hck⟩ := h.exists_partIndex hmesh hk'
      have hlt := Nat.mul_lt_mul_of_pos_right hk' hq
      have hpos := Nat.mul_pos hk hq
      refine ⟨⟨cs, hc, Or.inl ?_⟩, by omega, by omega⟩
      rw [h.isEntry.spanAt_eq (length_of_mem_positions hc), hck]

/-- **The cuts of an even splitting.** -/
theorem cuts_natCast (h : Even mesh mapping sizes) (hpos : ∀ n ∈ sizes, 0 < n) (hne : mesh ≠ [])
    (hnd : group.Nodup) (hlen : group.length = volume mesh) :
    cuts (sizes.map ofNat) mapping (mesh.map ofNat) group
      = .ok (zipWith (fun n m => (cutsOn (partCount mesh m) (partSize mesh n m)).map ofNat) sizes mapping) := by
  have hranks : ∀ b ∈ (positions mesh).map (blockAt mesh mapping sizes), b.length = sizes.length := by
    intro b hb
    obtain ⟨cs, -, rfl⟩ := mem_map.mp hb
    exact length_blockAt h cs
  have hlength : (bounds ((positions mesh).map (blockAt mesh mapping sizes))).length = sizes.length := by
    cases hpos : positions mesh with
    | nil =>
      have hzero : volume mesh = 0 := by rw [← length_positions, hpos]; rfl
      exact absurd (volume_pos h.mesh_pos) (by omega)
    | cons d ds => simp [bounds, length_blockAt h]
  simp only [cuts, mapM_ofProcess h hne hnd hlen, ok_bind, pure_eq_ok, Except.ok.injEq]
  refine ext_getElem (by simp [hlength, h.axes]) fun i hi hi' => ?_
  have hib : i < (bounds ((positions mesh).map (blockAt mesh mapping sizes))).length := by
    simp only [length_map, length_zip] at hi
    omega
  have his : i < sizes.length := hlength ▸ hib
  have him : i < mapping.length := h.axes ▸ his
  have haxis : EvenAxis mesh sizes[i] mapping[i] := by
    have hall := (forall₂_iff_get.mp h.forall₂).2 i his him
    simpa using hall
  simp only [getElem_map, getElem_zip, getElem_zipWith]
  refine sorted_bounds haxis (hpos _ (getElem_mem his)) h.mesh_pos fun x => ?_
  have hmem := mem_bounds (i := i) (x := x) hranks
  rw [getElem?_eq_getElem hib, Option.getD_some] at hmem
  rw [hmem]
  have hspan : ∀ cs, (blockAt mesh mapping sizes cs)[i]? = some (spanAt mesh cs sizes[i] mapping[i]) := by
    intro cs
    rw [getElem?_blockAt, getElem?_eq_getElem his, getElem?_eq_getElem him]
    rfl
  simp [hspan]

/-! ## 3. The number of a piece -/

/-- One more than the beginning of a part is inside the part if it has more than one place. -/
theorem floorDiv_lo {a q : Nat} (hq : 1 < q) : floorDiv (((a * q : Nat) : Int) + 1) (q : Int) = .ok (a : Int) := by
  have hdiv : (a * q + 1) / q = a := by rw [Nat.mul_comm, Nat.mul_add_div (by omega), Nat.div_eq_of_lt hq, Nat.add_zero]
  have hfloor := floorDiv_natCast (a * q + 1) (show 0 < q by omega)
  rw [hdiv] at hfloor
  exact_mod_cast hfloor

/-- One axis of the number of a block: the number so far times how many parts there are, and the number of the part. -/
theorem numberFrom_cons (h : EvenAxis mesh n m) (hpos : 0 < n)
    (hc : cs.length = mesh.length) (k : Int) (ns ms : List Int) (b : Block) :
    numberFrom k (mesh.map ofNat) ((n : Int) :: ns) (m :: ms) (spanAt mesh cs n m :: b)
      = numberFrom (k * (partCount mesh m : Nat) + (partIndex cs m : Nat)) (mesh.map ofNat) ns ms b := by
  have hcount : floorDiv (n : Int) (partSize mesh n m : Int) = .ok (partCount mesh m : Int) := by
    have hdiv := floorDiv_natCast n (h.partSize_pos hpos)
    rwa [Nat.div_eq_of_eq_mul_left (h.partSize_pos hpos) h.size_eq] at hdiv
  -- the rest of the step, once the length of the parts is known
  have hrest : (do
      let i ← if (partSize mesh n m : Int) = 1 then pure (spanAt mesh cs n m).lo
        else floorDiv ((spanAt mesh cs n m).lo + 1) (partSize mesh n m : Int)
      numberFrom (k * (← floorDiv (n : Int) (partSize mesh n m : Int)) + i) (mesh.map ofNat) ns ms b)
        = numberFrom (k * (partCount mesh m : Nat) + (partIndex cs m : Nat)) (mesh.map ofNat) ns ms b := by
    rw [h.isEntry.spanAt_eq hc]
    by_cases hone : partSize mesh n m = 1
    · rw [hone, Nat.cast_one] at hcount
      simp only [hone, Nat.cast_one, if_true, pure_eq_ok, ok_bind, hcount, Nat.mul_one]
    · have hq : 1 < partSize mesh n m := by
        have := h.partSize_pos hpos
        omega
      have hne : ((partSize mesh n m : Nat) : Int) ≠ 1 := by omega
      simp only [if_neg hne, floorDiv_lo hq, ok_bind, hcount]
  rcases h with rfl | ⟨j, d, q, rfl, hd, hdpos, -, hn⟩
  · rw [partSize_replicated] at hrest
    rwa [numberFrom, if_pos rfl]
  · have hdiv : floorDiv (n : Int) (d : Int) = .ok (q : Int) := by
      rw [floorDiv_natCast n hdpos, hn, Nat.mul_div_cancel_left _ hdpos]
    rw [partSize_natCast hd hdpos hn] at hrest
    rw [numberFrom, if_neg (natCast_ne_replicated j), pick_mesh hd]
    simp only [ok_bind, hdiv]
    exact hrest

/-- **The number of the block of a process** is the place of its part numbers in row-major order, from `k` on as if `k`
were the numbers on earlier axes. -/
theorem numberFrom_natCast (hc : cs.length = mesh.length) (hpos : ∀ n ∈ sizes, 0 < n)
    (h : Forall₂ (EvenAxis mesh) sizes mapping) (k : Nat) :
    numberFrom (k : Int) (mesh.map ofNat) (sizes.map ofNat) mapping (blockAt mesh mapping sizes cs)
      = .ok ((k * volume (mapping.map (partCount mesh))
          + linear (mapping.map (partCount mesh)) (mapping.map (partIndex cs)) : Nat) : Int) := by
  induction h generalizing k with
  | nil => simp [numberFrom, volume, linear]
  | @cons n m ns ms hm _ ih =>
    rw [forall_mem_cons] at hpos
    have ih := ih hpos.2 (k * partCount mesh m + partIndex cs m)
    push_cast at ih
    rw [blockAt, zipWith_cons_cons, map_cons, ofNat_eq_natCast, numberFrom_cons hm hpos.1 hc]
    rw [← blockAt, ih, map_cons, map_cons, volume, linear]
    push_cast
    ring_nf

/-! ## 4. Every process gets its own block -/

def partsOf (mesh : List Nat) (mapping : List Int) (sizes : List Nat) : List (Nat × Nat) :=
  zipWith (fun n m => (partCount mesh m, partSize mesh n m)) sizes mapping

section

variable (h : Forall₂ (EvenAxis mesh) sizes mapping)

include h

theorem partsOf_counts : (partsOf mesh mapping sizes).map Prod.fst = mapping.map (partCount mesh) := by
  induction h with
  | nil => rfl
  | cons _ _ ih => exact congrArg _ ih

theorem partsOf_pos : ∀ p ∈ partsOf mesh mapping sizes, 0 < p.1 := by
  induction h with
  | nil => exact forall_mem_nil _
  | cons hm _ ih => exact forall_mem_cons.mpr ⟨hm.partCount_pos, ih⟩

theorem partsOf_ranges :
    (partsOf mesh mapping sizes).map (fun p => List.range (p.1 * p.2)) = sizes.map List.range := by
  induction h with
  | nil => rfl
  | cons hm _ ih =>
    simp only [partsOf, zipWith_cons_cons, map_cons, ← hm.size_eq] at ih ⊢
    rw [ih]

theorem places_blockAt (hc : cs.length = mesh.length) : (blockAt mesh mapping sizes cs).places
      = zipWith (fun i p => range' (i * p.2) p.2) (mapping.map (partIndex cs)) (partsOf mesh mapping sizes) := by
  induction h with
  | nil => rfl
  | cons hm _ ih =>
    simp only [blockAt, partsOf, places, zipWith_cons_cons, map_cons, hm.isEntry.spanAt_eq hc, Span.places_part] at ih ⊢
    rw [ih]

/-- The part numbers of a process are a position in the box of all pieces. -/
theorem partIndex_mem_positions (hc : cs ∈ positions mesh) :
    Forall₂ (· < ·) (mapping.map (partIndex cs)) (mapping.map (partCount mesh)) := by
  induction h with
  | nil => exact .nil
  | cons hm _ ih => exact .cons (hm.partIndex_lt hc) ih

end

namespace Reshape

variable {α : Type} {t : Tensor α}

/-- **The pieces of a tensor**: its parts at all positions of the box of part numbers. -/
theorem pieces_eq (h : Divides mesh mapping group t.shape) (hpos : ∀ n ∈ t.shape, 0 < n) (hne : mesh ≠ [])
    (haxes : t.shape ≠ []) (ht : t.WellFormed) :
    pieces ⟨mapping, mesh.map ofNat, group⟩ t = .ok ((positions (mapping.map (partCount mesh))).map fun is =>
      t.restrict (zipWith (fun i p => range' (i * p.2) p.2) is (partsOf mesh mapping t.shape))) := by
  have hcuts := cuts_natCast h.toEven hpos hne h.distinct h.count
  have hsome : (zipWith (fun n m => (cutsOn (partCount mesh m) (partSize mesh n m)).map ofNat) t.shape
      mapping).isEmpty = false := by
    have haxes' : mapping ≠ [] := fun hnil => haxes (length_eq_zero_iff.mp (by rw [← h.axes, hnil]; rfl))
    simp [haxes, haxes']
  have hnats : (zipWith (fun n m => (cutsOn (partCount mesh m) (partSize mesh n m)).map ofNat) t.shape
      mapping).map (fun cs => cs.map toNat) = (partsOf mesh mapping t.shape).map fun p => cutsOn p.1 p.2 := by
    simp [partsOf, Function.comp_def]
  have hinside : Inside (t.shape.map range) t.shape :=
    forall₂_map_left_iff.mpr (forall₂_same.mpr fun _ _ _ hi => mem_range.mp hi)
  have hall := cutAll_restrict ht (partsOf mesh mapping t.shape) [] (partsOf_pos h.forall₂)
    (by rw [nil_append, partsOf_ranges h.forall₂]; exact hinside)
  rw [nil_append, partsOf_ranges h.forall₂, restrict_ranges ht, partsOf_counts h.forall₂] at hall
  simp only [pieces, hcuts, hsome, liftM_ok, ok_bind]
  simp only [Bool.false_eq_true, if_false, hnats]
  exact congrArg _ hall

/-- **The piece of a process is its block.** -/
theorem slice?_eq (h : Divides mesh mapping group t.shape) (hpos : ∀ n ∈ t.shape, 0 < n) (hne : mesh ≠ [])
    (haxes : t.shape ≠ []) (ht : t.WellFormed) {rank : Int} (hr : rank ∈ group) :
    slice? ⟨mapping, mesh.map ofNat, group⟩ rank t
      = .ok (some (t.within (blockAt mesh mapping t.shape (position mesh (group.idxOf rank))))) := by
  have hc : position mesh (group.idxOf rank) ∈ positions mesh := by
    rw [← map_position_idxOf h.distinct h.count]
    exact mem_map_of_mem hr
  have hclen := length_of_mem_positions hc
  have hnumber : pieceNumber ⟨mapping, mesh.map ofNat, group⟩ rank t
      = .ok ((linear (mapping.map (partCount mesh)) (mapping.map (partIndex (position mesh (group.idxOf rank)))) : Nat)
          : Int) := by
    have hfrom := numberFrom_natCast hclen hpos h.forall₂ 0
    rw [Nat.cast_zero, Nat.zero_mul, Nat.zero_add] at hfrom
    simp [pieceNumber, number, ofProcess_of_mem h.toEven hne h.distinct hr, hfrom]
  have hpiece := getElem?_positions_linear (mem_positions.mpr (partIndex_mem_positions h.forall₂ hc))
  simp only [slice?, pieces_eq h hpos hne haxes ht, hnumber, ok_bind, pure_eq_ok]
  rw [if_pos (by omega), toNat_natCast, getElem?_map, hpiece, Option.map_some,
    ← places_blockAt h.forall₂ hclen]
  rfl

/-- **Every process gets its own block.**  Let a mesh with at least one axis split an array with at least one axis
of positive sizes evenly.  Every process of the group has a block, and slicing gives it exactly the part of the array
in that block. -/
theorem sliceArray_eq_within {mesh : List Nat} {mapping group : List Int} {a : NdArray} {entry : Value} {rank : Int}
    (h : Divides mesh mapping group a.shape) (hpos : ∀ n ∈ a.shape, 0 < n) (hne : mesh ≠ []) (haxes : a.shape ≠ [])
    (ha : a.toTensor.WellFormed) (hentry : splittingOf entry = .ok ⟨mapping, mesh.map Int.ofNat, group⟩)
    (hr : rank ∈ group) : ∃ b, Block.ofProcess rank (a.shape.map Int.ofNat) mapping (mesh.map Int.ofNat) group = .ok b ∧
      sliceArray rank a entry = .ok (a.within b) := by
  refine ⟨_, ofProcess_of_mem h.toEven hne h.distinct hr, ?_⟩
  simp only [sliceArray, hentry, slice?_eq h hpos hne haxes ha hr, liftM_twice_ok, ok_bind]
  rfl

/-- Six processes split three rows into one each and four columns into two and two; the third process has the first two
columns of the last row. -/
theorem sliceArray_eq_within_rows :
    Block.ofProcess 3 ([3, 4].map Int.ofNat) [1, 0] ([2, 3].map Int.ofNat) [5, 4, 3, 2, 1, 0] = .ok [⟨2, 3⟩, ⟨0, 2⟩] ∧
    sliceArray 3 ⟨⟨[3, 4], (List.range 12).map fun i : Nat => .int i⟩, .int64⟩
        (tableOf [2, 3] [1, 0] [5, 4, 3, 2, 1, 0]) = .ok ⟨⟨[1, 2], [.int 8, .int 9]⟩, .int64⟩ := by
  have hd : Divides [2, 3] [1, 0] [5, 4, 3, 2, 1, 0] [3, 4] := by decide
  have hblock : Block.ofProcess 3 ([3, 4].map Int.ofNat) [1, 0] ([2, 3].map Int.ofNat) [5, 4, 3, 2, 1, 0]
      = .ok [⟨2, 3⟩, ⟨0, 2⟩] := rfl
  obtain ⟨b, hb, hslice⟩ := sliceArray_eq_within
    (a := ⟨⟨[3, 4], (List.range 12).map fun i : Nat => .int i⟩, .int64⟩) hd (by decide) (by decide) (by decide) rfl
    (splittingOf_tableOf _ _ _) (show 3 ∈ _ by decide)
  obtain rfl : [⟨2, 3⟩, ⟨0, 2⟩] = b := Except.ok.inj (hblock.symm.trans hb)
  exact ⟨hblock, hslice⟩

/-- A mesh without axes has one process, which should hold the whole array; slicing fails there. -/
theorem sliceArray_without_axes : Divides [] [Mapping.replicated] [5] [2] ∧
    sliceArray 5 ⟨⟨[2], [.int 1, .int 3]⟩, .int64⟩ (tableOf [] [Mapping.replicated] [5]) = .error (.fault .type) :=
  ⟨by decide, rfl⟩

end Reshape

end Distributed

end TensorKit
