import TensorKit.Proofs.Distributed.EvenSplitting
/-!
# What a block holds of a tensor

A block of a tensor is given by spans, its contents by places: the numbers of each span, axis by axis.  `within` is the
part of a tensor or an array in a block.  The blocks of prefixes of coordinates lie inside the tensor
(`inside_blockAt`), and the whole block holds the whole array (`NdArray.within_wholeBlock`).

Pasting two neighbours gives the contents of their union (`pasteArrays_within`), for arrays that are proper: they have
an element for each position, of their own element type, so that a conversion to that type leaves it as it is.
-/

namespace TensorKit

open Distributed List Span

variable {a : NdArray}

/-! ## 1. Places -/

namespace Distributed

def Span.places (s : Span) : List Nat := range' s.lo.toNat (s.hi - s.lo).toNat

theorem Span.places_natCast (l n : Nat) : places ⟨(l : Nat), (l + n : Nat)⟩ = range' l n := by simp [places]

theorem Span.places_whole (n : Nat) : places ⟨0, (n : Nat)⟩ = range n := by simp [places, range_eq_range']

theorem Span.places_part (a q : Nat) : places ⟨(a * q : Nat), ((a + 1) * q : Nat)⟩ = range' (a * q) q := by
  rw [Nat.succ_mul, places_natCast]

theorem Span.places_append {l m r : Nat} (hlm : l ≤ m) (hmr : m ≤ r) :
    places ⟨(l : Nat), (m : Nat)⟩ ++ places ⟨(m : Nat), (r : Nat)⟩ = places ⟨(l : Nat), (r : Nat)⟩ := by
  obtain ⟨x, rfl⟩ := Nat.exists_eq_add_of_le hlm
  obtain ⟨y, rfl⟩ := Nat.exists_eq_add_of_le hmr
  rw [places_natCast, places_natCast, Nat.add_assoc, places_natCast]
  simp

def Block.places (b : Block) : List (List Nat) := b.map Span.places

end Distributed

def Tensor.within {α : Type} (b : Block) (t : Tensor α) : Tensor α := t.restrict b.places

def NdArray.within (b : Block) (a : NdArray) : NdArray := ⟨a.toTensor.within b, a.type⟩

@[simp] theorem NdArray.shape_within (b : Block) (a : NdArray) : (a.within b).shape = b.places.map length := rfl

/-! ## 2. The blocks of an even splitting -/

namespace Distributed

variable {mesh : List Nat} {mapping : List Int} {sizes : List Nat}

/-- **The blocks of prefixes of coordinates lie inside the tensor.** -/
theorem inside_blockAt {cs : List Nat} (hc : ∀ j a d : Nat, cs[j]? = some a → mesh[j]? = some d → a < d)
    (h : Forall₂ (EvenAxis mesh) sizes mapping) : Tensor.Inside (blockAt mesh mapping sizes cs).places sizes := by
  induction h with
  | nil => exact .nil
  | cons hm _ ih =>
    refine .cons ?_ ih
    rcases hm with rfl | ⟨j, d, q, rfl, hd, hpos, -, hn⟩
    · rw [spanAt_replicated, places_whole]
      exact fun x hx => mem_range.mp hx
    · cases hcj : cs[j]? with
      | none =>
        rw [spanAt, coordinateOf_natCast, hcj, places_whole]
        exact fun x hx => mem_range.mp hx
      | some a =>
        rw [spanAt, coordinateOf_natCast, hcj, partSize_natCast hd hpos hn, places_part]
        intro x hx
        have hx' := (mem_range'_1.mp hx).2
        have had : (a + 1) * q ≤ d * q := Nat.mul_le_mul_right q (hc j a d hcj hd)
        rw [Nat.succ_mul] at had
        omega

theorem sizes_blockAt {cs : List Nat} (hc : cs.length = mesh.length) (h : Even mesh mapping sizes) :
    (blockAt mesh mapping sizes cs).places.map length = zipWith (partSize mesh) sizes mapping := by
  have hlengths := congrArg (map Int.toNat) (lengths_blockAt hc h.forall₂)
  simpa [Block.places, places, Function.comp_def] using hlengths

end Distributed

theorem Tensor.within_wholeBlock {α : Type} {t : Tensor α} (h : t.WellFormed) : t.within (wholeBlock t.shape) = t := by
  have hplaces : (wholeBlock t.shape).places = t.shape.map range := by
    simp [wholeBlock, Block.places, Function.comp_def, places_whole]
  rw [Tensor.within, hplaces]
  exact Tensor.restrict_ranges h

/-! ## 3. Pasting neighbours -/

/-- **An array is proper**: it has an element for each position, its element type joined with itself is itself, and its
elements are of that type. -/
structure NdArray.Proper (a : NdArray) : Prop where
  wellFormed : a.toTensor.WellFormed
  joins : a.type.joinAll a.type = a.type
  elements : ∀ s ∈ a.data, a.type.convertAll s = s

namespace NdArray

theorem within_wholeBlock (h : a.toTensor.WellFormed) : a.within (wholeBlock a.shape) = a := by
  rw [within, Tensor.within_wholeBlock h]

theorem Proper.as_within (h : a.Proper) (b : Block) : (a.within b).as a.type = a.within b := by
  have hkept : ((a.within b).data).map a.type.convertAll = (a.within b).data := by
    conv_rhs => rw [← map_id (a.within b).data]
    refine map_congr_left fun s hs => ?_
    obtain ⟨is, -, his⟩ := mem_filterMap.mp hs
    exact h.elements s (mem_of_getElem? his)
  simp only [as, Tensor.map, hkept]
  rfl

end NdArray

namespace Distributed.Reshape

/-- Shapes that agree on all axes but the pasted one do not differ. -/
theorem differing_eq_none (x y : Nat) (post : List Nat) : ∀ pre k,
    differing (k + pre.length) k (pre ++ x :: post) (pre ++ y :: post) = none
  | [], k => by
    have hrest : ∀ ns i, differing k i ns ns = none := by
      intro ns
      induction ns with
      | nil => exact fun _ => rfl
      | cons n ns ih => exact fun i => by simp [differing, ih]
    simp [differing, hrest]
  | n :: pre, k => by
    have ih := differing_eq_none x y post pre (k + 1)
    rw [length_cons, show k + (pre.length + 1) = k + 1 + pre.length by omega]
    simp only [cons_append, differing, ne_eq, not_true_eq_false, and_false, if_false]
    exact ih

/-- **Pasting the contents of two neighbours gives the contents of their union.** -/
theorem pasteArrays_within (h : a.Proper) {pre post : Block} {l m r : Nat} (hlm : l ≤ m) (hmr : m ≤ r)
    (hin : Tensor.Inside (Block.places (pre ++ ⟨(l : Nat), (r : Nat)⟩ :: post)) a.shape) :
    pasteArrays pre.length (a.within (pre ++ ⟨(l : Nat), (m : Nat)⟩ :: post))
        (a.within (pre ++ ⟨(m : Nat), (r : Nat)⟩ :: post))
      = .ok (a.within (pre ++ ⟨(l : Nat), (r : Nat)⟩ :: post)) := by
  have hplaces : ∀ s, Block.places (pre ++ s :: post)
      = pre.map places ++ s.places :: post.map places := by
    intro s
    simp [Block.places]
  have hcheck : ∀ s t, checkPaste pre.length (a.within (pre ++ s :: post)).toTensor
      (a.within (pre ++ t :: post)).toTensor = .ok () := by
    intro s t
    have hdiff := differing_eq_none s.places.length t.places.length ((post.map places).map length)
      ((pre.map places).map length) 0
    simp only [length_map, Nat.zero_add, map_map] at hdiff
    simp [checkPaste, Tensor.rank, hplaces, hdiff]
  have hcommon : ∀ b b' : Block, NdArray.commonType [a.within b, a.within b'] = a.type := fun b b' => h.joins
  have hpaste : Tensor.paste pre.length (a.within (pre ++ ⟨(l : Nat), (m : Nat)⟩ :: post)).toTensor
      (a.within (pre ++ ⟨(m : Nat), (r : Nat)⟩ :: post)).toTensor
      = a.toTensor.within (pre ++ ⟨(l : Nat), (r : Nat)⟩ :: post) := by
    rw [hplaces, ← places_append hlm hmr] at hin
    have hjoin := Tensor.paste_restrict h.wellFormed (hin.of_subset fun x hx => mem_append_left _ hx)
      (hin.of_subset fun x hx => mem_append_right _ hx)
    rw [places_append hlm hmr, length_map] at hjoin
    simpa [NdArray.within, Tensor.within, hplaces] using hjoin
  simp only [pasteArrays, hcheck, hcommon, h.as_within, hpaste, ok_bind]
  rfl

/-! ## 4. Tables of splittings -/

def tableOf (mesh : List Nat) (mapping group : List Int) : Value :=
  .dict [(.str "process_shape", toValue (mesh.map Int.ofNat)), (.str "process_group", toValue group),
    (.str "dims_mapping", toValue mapping)]

theorem wholes_toValue (xs : List Int) : wholes (toValue xs) = .ok xs := by
  have hlist : toValue xs = .list (xs.map Value.int) := rfl
  simp only [wholes, hlist, Value.members, ok_bind, mapM_map]
  refine (mapM_eq_ok fun x _ => ?_).trans (by rw [map_id])
  rfl

/-- **A table describes a splitting**: it has the sizes of the mesh, the processes and the mapping under their names.
It may have more, in any order; like every table it has no key twice. -/
structure Describes (entry : Value) (mesh : List Nat) (mapping group : List Int) : Prop where
  mapping : entry.need "dims_mapping" = .ok (toValue mapping)
  shape : entry.need "process_shape" = .ok (toValue (mesh.map Int.ofNat))
  group : entry.need "process_group" = .ok (toValue group)
  keys : ∀ items, entry = .dict items → (items.map Prod.fst).Pairwise fun x y => Value.same x y = false

theorem Describes.splittingOf_eq {entry : Value} {mesh : List Nat} {mapping group : List Int}
    (h : Describes entry mesh mapping group) : splittingOf entry = .ok ⟨mapping, mesh.map Int.ofNat, group⟩ := by
  simp only [splittingOf, h.mapping, h.shape, h.group, wholes_toValue, ok_bind]
  rfl

theorem describes_tableOf (mesh : List Nat) (mapping group : List Int) :
    Describes (tableOf mesh mapping group) mesh mapping group := by
  refine ⟨rfl, rfl, rfl, ?_⟩
  rintro items heq
  obtain rfl := Value.dict.inj heq
  exact (by decide : [Value.str "process_shape", .str "process_group", .str "dims_mapping"].Pairwise
    fun x y => Value.same x y = false)

theorem splittingOf_tableOf (mesh : List Nat) (mapping group : List Int) :
    splittingOf (tableOf mesh mapping group) = .ok ⟨mapping, mesh.map Int.ofNat, group⟩ :=
  (describes_tableOf mesh mapping group).splittingOf_eq

end Distributed.Reshape

end TensorKit
