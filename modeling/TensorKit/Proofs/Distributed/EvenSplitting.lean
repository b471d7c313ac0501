import TensorKit.Distributed.Reshape
import TensorKit.Proofs.Position
import TensorKit.Proofs.Tensor.Selection
import TensorKit.Proofs.Traversal
/-!
# Even splittings and the blocks of prefixes of coordinates

A mesh splits a tensor evenly (`Even`) when every mapped axis of the tensor is a multiple of the mesh axis it is mapped
to, and no mesh axis is used twice.  The blocks of its processes are enumerated by the positions of the mesh
(`mapM_ofProcess`).

The proofs about blocks follow the mesh axis by axis.  For that they need the block of a PREFIX of coordinates, `blockAt
mesh mapping sizes cs`: the union of the blocks of all processes whose coordinates begin with it.  The empty prefix has
the whole tensor, a full list of coordinates has the block of one process, and one more coordinate changes at most one
span (`blockAt_snoc`, `blockAt_snoc_of_notMem`).
-/

namespace TensorKit

open List Int Nat

variable {n i k j d q a : Nat} {m p : Int} {cs c' : List Nat} {group : List Int}

/-! ## 1. Numbers and positions -/

namespace Tensor

theorem volume_pos : ∀ {ns}, (∀ n ∈ ns, 0 < n) → 0 < volume ns
  | [], _ => by simp [volume]
  | n :: ns, h => mul_pos (h n mem_cons_self) (volume_pos fun m hm => h m (.tail _ hm))

end Tensor

namespace Distributed

open Position Tensor

/-- The coordinates of a process number, computed from the slowest axis on, are its row-major position. -/
theorem Block.indexFrom_natCast : ∀ {mesh} (k : Nat), (∀ d ∈ mesh, 0 < d) →
    Block.indexFrom (volume mesh : Int) (k : Int) (mesh.map ofNat) = .ok ((position mesh k).map ofNat)
  | [], _, _ => rfl
  | d :: mesh, k, h => by
    have hd : 0 < d := h d mem_cons_self
    have hm : ∀ e ∈ mesh, 0 < e := fun e he => h e (.tail _ he)
    have hrest : floorDiv ((volume (d :: mesh) : Nat) : Int) (d : Int) = .ok ((volume mesh : Nat) : Int) := by
      rw [floorDiv_natCast _ hd, volume, Nat.mul_div_cancel_left _ hd]
    have hmod : (k : Int) - ((k / volume mesh : Nat) : Int) * (volume mesh : Int)
        = ((k % volume mesh : Nat) : Int) := by
      have := Nat.div_add_mod k (volume mesh)
      have hz : ((volume mesh * (k / volume mesh) + k % volume mesh : Nat) : Int) = (k : Int) := congrArg _ this
      push_cast at hz ⊢
      linarith [hz, mul_comm (volume mesh : Int) ((k : Int) / (volume mesh : Int))]
    simp only [map_cons, Block.indexFrom, ofNat_eq_natCast, hrest, ok_bind,
      floorDiv_natCast k (volume_pos hm), hmod]
    rw [Block.indexFrom_natCast (k % volume mesh) hm]
    rfl

/-! ## 2. Even splittings -/

/-- **A mesh splits a tensor evenly.**  Each axis of the tensor has an entry: no mesh axis, or one that no other axis
has and whose size divides the size of the axis, which is positive. -/
@[mk_iff]
structure Even (mesh : List Nat) (mapping : List Int) (sizes : List Nat) : Prop where
  mesh_pos : ∀ d ∈ mesh, 0 < d
  axes : mapping.length = sizes.length
  entries : ∀ m ∈ mapping, m = Mapping.replicated ∨ ∃ j < mesh.length, m = (j : Int)
  once : (mapping.filter (· ≠ Mapping.replicated)).Nodup
  divides : ∀ p ∈ sizes.zip mapping, p.2 ≠ Mapping.replicated → 0 < p.1 ∧ mesh.getD p.2.toNat 1 ∣ p.1

instance (mesh : List Nat) (mapping : List Int) (sizes : List Nat) : Decidable (Even mesh mapping sizes) :=
  decidable_of_iff _ (even_iff mesh mapping sizes).symm

def EvenAxis (mesh : List Nat) (n : Nat) (m : Int) : Prop :=
  m = Mapping.replicated ∨ ∃ j d q : Nat, m = (j : Int) ∧ mesh[j]? = some d ∧ 0 < d ∧ 0 < q ∧ n = d * q

/-- An entry of a mapping is no mesh axis, or one that the mesh has. -/
def IsEntry (mesh : List Nat) (m : Int) : Prop := m = Mapping.replicated ∨ ∃ j < mesh.length, m = (j : Int)

instance (mesh : List Nat) (m : Int) : Decidable (IsEntry mesh m) := inferInstanceAs (Decidable (_ ∨ _))

/-- A mapping onto a mesh of positive sizes. -/
structure IsMapping (mesh : List Nat) (mapping : List Int) : Prop where
  mesh_pos : ∀ d ∈ mesh, 0 < d
  entries : ∀ m ∈ mapping, IsEntry mesh m

/-- The number of a mesh axis is never the entry of an axis that is not split. -/
theorem natCast_ne_replicated (j : Nat) : (j : Int) ≠ Mapping.replicated := by
  simp only [Mapping.replicated]
  omega

variable {mesh : List Nat} {mapping : List Int} {sizes : List Nat}

/-- The mesh axis `j` splits the axis `i` of the tensor into `d` parts of length `q`. -/
structure SplitAxis (mesh : List Nat) (mapping : List Int) (sizes : List Nat) (j i d q : Nat) : Prop where
  entry : mapping[i]? = some (j : Int)
  size : sizes[i]? = some (d * q)
  extent : mesh[j]? = some d
  d_pos : 0 < d
  q_pos : 0 < q

namespace Even

variable (h : Even mesh mapping sizes)

include h

theorem axis (hp : (n, m) ∈ sizes.zip mapping) : EvenAxis mesh n m := by
  rcases h.entries m (of_mem_zip hp).2 with hm | ⟨j, hj, rfl⟩
  · exact Or.inl hm
  · have hget := getElem?_eq_getElem hj
    obtain ⟨hpos, q, hq⟩ := h.divides _ hp (natCast_ne_replicated j)
    simp only [toNat_natCast, getD_eq_getElem?_getD, hget, Option.getD_some] at hpos hq
    rw [hq] at hpos
    exact Or.inr ⟨j, mesh[j], q, rfl, hget, h.mesh_pos _ (getElem_mem hj), Nat.pos_of_mul_pos_left hpos, hq⟩

theorem forall₂ : Forall₂ (EvenAxis mesh) sizes mapping :=
  forall₂_iff_zip.mpr ⟨h.axes.symm, fun hp => h.axis hp⟩

theorem entry_inj (hi : mapping[i]? = some (j : Int))
    (hk : mapping[k]? = some (j : Int)) : i = k := by
  have hpw : mapping.Pairwise fun x y => x ≠ Mapping.replicated → y ≠ Mapping.replicated → x ≠ y := by
    simpa [Nodup, pairwise_filter] using h.once
  obtain ⟨hil, hiv⟩ := List.getElem?_eq_some_iff.mp hi
  obtain ⟨hkl, hkv⟩ := List.getElem?_eq_some_iff.mp hk
  have key := pairwise_iff_getElem.mp hpw
  have hi' := hiv ▸ natCast_ne_replicated j
  have hk' := hkv ▸ natCast_ne_replicated j
  rcases lt_trichotomy i k with hlt | heq | hlt
  · exact absurd (hiv.trans hkv.symm) (key i k hil hkl hlt hi' hk')
  · exact heq
  · exact absurd (hkv.trans hiv.symm) (key k i hkl hil hlt hk' hi')

theorem splitAxis (hi : mapping[i]? = some (j : Int)) :
    ∃ d q, SplitAxis mesh mapping sizes j i d q := by
  obtain ⟨hlt, hval⟩ := List.getElem?_eq_some_iff.mp hi
  have hlt' : i < sizes.length := h.axes ▸ hlt
  have hzip : (sizes[i], mapping[i]) ∈ sizes.zip mapping := by
    have hz : i < (sizes.zip mapping).length := by simp [hlt, hlt']
    have hmem := getElem_mem hz
    rwa [getElem_zip] at hmem
  rcases h.axis hzip with hm | ⟨k, d, q, hk, hd, hdpos, hqpos, hnq⟩
  · exact absurd (hval.symm.trans hm) (natCast_ne_replicated j)
  · have hkj : k = j := by
      rw [hval] at hk
      omega
    subst hkj
    refine ⟨d, q, hi, ?_, hd, hdpos, hqpos⟩
    rw [getElem?_eq_getElem hlt', hnq]

theorem exists_splitAxis (hj : (j : Int) ∈ mapping) :
    ∃ i d q, SplitAxis mesh mapping sizes j i d q := by
  obtain ⟨i, hi⟩ := mem_iff_getElem?.mp hj
  obtain ⟨d, q, hx⟩ := h.splitAxis hi
  exact ⟨i, d, q, hx⟩

end Even

/-! ## 3. The block of a prefix of coordinates -/

/-- The coordinate that an entry reads off a prefix of coordinates, if its mesh axis is one of them. -/
def coordinateOf (cs : List Nat) (m : Int) : Option Nat := if m = Mapping.replicated then none else cs[m.toNat]?

def partSize (mesh : List Nat) (n : Nat) (m : Int) : Nat :=
  if m = Mapping.replicated then n else n / mesh.getD m.toNat 1

/-- The span on an axis of length `n` with entry `m`: the whole axis until its coordinate is known, then one part. -/
def spanAt (mesh cs : List Nat) (n : Nat) (m : Int) : Span :=
  match coordinateOf cs m with
  | none => ⟨0, n⟩
  | some a => ⟨(a * partSize mesh n m : Nat), ((a + 1) * partSize mesh n m : Nat)⟩

/-- **The block of a prefix of coordinates**: what all processes whose coordinates begin with it hold together. -/
def blockAt (mesh : List Nat) (mapping : List Int) (sizes cs : List Nat) : Block :=
  zipWith (spanAt mesh cs) sizes mapping

@[simp] theorem coordinateOf_natCast (cs : List Nat) (j : Nat) : coordinateOf cs (j : Int) = cs[j]? := by
  simp [coordinateOf, natCast_ne_replicated]

@[simp] theorem coordinateOf_nil (m : Int) : coordinateOf [] m = none := by simp [coordinateOf]

@[simp] theorem spanAt_replicated (cs : List Nat) (n : Nat) : spanAt mesh cs n Mapping.replicated = ⟨0, n⟩ := by
  simp [spanAt, coordinateOf]

@[simp] theorem partSize_replicated (n : Nat) : partSize mesh n Mapping.replicated = n := by simp [partSize]

theorem partSize_natCast (hd : mesh[j]? = some d) (hpos : 0 < d) (hn : n = d * q) :
    partSize mesh n (j : Int) = q := by
  have hext : mesh.getD j 1 = d := by rw [getD_eq_getElem?_getD, hd]; rfl
  rw [partSize, if_neg (natCast_ne_replicated j), toNat_natCast, hext, hn, Nat.mul_div_cancel_left _ hpos]

theorem length_blockAt (h : Even mesh mapping sizes) (cs : List Nat) :
    (blockAt mesh mapping sizes cs).length = sizes.length := by
  simp [blockAt, h.axes]

theorem getElem?_blockAt (cs : List Nat) (i : Nat) :
    (blockAt mesh mapping sizes cs)[i]? = (sizes[i]?).bind fun n => (mapping[i]?).map (spanAt mesh cs n) := by
  rw [blockAt, getElem?_zipWith]
  cases sizes[i]? <;> cases mapping[i]? <;> rfl

def wholeBlock (sizes : List Nat) : Block := sizes.map fun n : Nat => ⟨0, (n : Int)⟩

theorem blockAt_nil (h : Even mesh mapping sizes) : blockAt mesh mapping sizes [] = wholeBlock sizes := by
  refine ext_getElem? fun i => ?_
  rw [getElem?_blockAt, wholeBlock, getElem?_map]
  cases hn : sizes[i]? with
  | none => rfl
  | some n =>
    have hlt : i < mapping.length := h.axes ▸ (lt_of_getElem? hn)
    simp [getElem?_eq_getElem hlt, spanAt]

namespace SplitAxis

variable (h : SplitAxis mesh mapping sizes j i d q)

include h

/-- An axis whose mesh axis is beyond the prefix is whole. -/
theorem getElem?_whole (hc : cs.length ≤ j) :
    (blockAt mesh mapping sizes cs)[i]? = some ⟨0, (d * q : Nat)⟩ := by
  have hnone := getElem?_eq_none hc
  simp [getElem?_blockAt, h.entry, h.size, spanAt, hnone]

/-- An axis whose coordinate is known is one of its parts. -/
theorem getElem?_part (ha : cs[j]? = some a) :
    (blockAt mesh mapping sizes cs)[i]? = some ⟨(a * q : Nat), ((a + 1) * q : Nat)⟩ := by
  rw [getElem?_blockAt, h.entry, h.size]
  simp [spanAt, ha, partSize_natCast h.extent h.d_pos rfl]

theorem lt_length : i < sizes.length := (List.getElem?_eq_some_iff.mp h.size).1

theorem entry_eq (hk : mapping[i]? = some (k : Int)) : k = j := by
  have hjk := h.entry.symm.trans hk
  simp only [Option.some.injEq, Nat.cast_inj] at hjk
  exact hjk.symm

theorem lt_blockAt (he : Even mesh mapping sizes) (cs : List Nat) :
    i < (blockAt mesh mapping sizes cs).length := by
  rw [length_blockAt he]
  exact h.lt_length

theorem set_blockAt (he : Even mesh mapping sizes) (cs : List Nat)
    (s : Span) : (blockAt mesh mapping sizes cs).set i s
      = (blockAt mesh mapping sizes cs).take i ++ s :: (blockAt mesh mapping sizes cs).drop (i + 1) := by
  rw [set_eq_take_append_cons_drop, if_pos (h.lt_blockAt he cs)]

end SplitAxis

/-- A span does not change with coordinates of mesh axes other than its own. -/
theorem getElem?_blockAt_congr (h : Even mesh mapping sizes)
    (hc : ∀ j : Nat, mapping[i]? = some (j : Int) → cs[j]? = c'[j]?) :
    (blockAt mesh mapping sizes cs)[i]? = (blockAt mesh mapping sizes c')[i]? := by
  rw [getElem?_blockAt, getElem?_blockAt]
  cases hm : mapping[i]? with
  | none => rfl
  | some m =>
    rcases h.entries m (mem_of_getElem? hm) with rfl | ⟨j, -, rfl⟩
    · simp
    · simp [spanAt, hc j hm]

theorem blockAt_congr (h : Even mesh mapping sizes)
    (hc : ∀ j : Nat, (j : Int) ∈ mapping → cs[j]? = c'[j]?) :
    blockAt mesh mapping sizes cs = blockAt mesh mapping sizes c' :=
  ext_getElem? fun _ => getElem?_blockAt_congr h fun j hj => hc j (mem_of_getElem? hj)

theorem getElem?_snoc_of_ne (hj : j ≠ cs.length) (a : Nat) : (cs ++ [a])[j]? = cs[j]? := by
  rcases lt_or_ge j cs.length with hlt | hge
  · exact getElem?_append_left hlt
  · rw [getElem?_eq_none hge, getElem?_eq_none]
    rw [length_append, length_singleton]
    omega

/-- **One more coordinate** on a mesh axis that splits an axis replaces the whole axis by one of its parts. -/
theorem blockAt_snoc (h : Even mesh mapping sizes) (hx : SplitAxis mesh mapping sizes cs.length i d q)
    (a : Nat) : blockAt mesh mapping sizes (cs ++ [a])
      = (blockAt mesh mapping sizes cs).set i ⟨(a * q : Nat), ((a + 1) * q : Nat)⟩ := by
  refine ext_getElem? fun k => ?_
  by_cases hk : k = i
  · subst hk
    rw [hx.getElem?_part (a := a) (by simp), getElem?_set_self (hx.lt_blockAt h cs)]
  · rw [getElem?_set_ne (Ne.symm hk)]
    refine getElem?_blockAt_congr h fun j hj => ?_
    have hne : j ≠ cs.length := fun hjc => hk (h.entry_inj hj (hjc ▸ hx.entry))
    exact getElem?_snoc_of_ne hne a

/-- One more coordinate on a mesh axis that splits nothing leaves the block as it is. -/
theorem blockAt_snoc_of_notMem (h : Even mesh mapping sizes) (hc : (cs.length : Int) ∉ mapping) (a : Nat) :
    blockAt mesh mapping sizes (cs ++ [a]) = blockAt mesh mapping sizes cs :=
  blockAt_congr h fun _ hj => getElem?_snoc_of_ne (fun hjc => hc (hjc ▸ hj)) a

/-! ## 4. The parts of an axis -/

def partCount (mesh : List Nat) (m : Int) : Nat := if m = Mapping.replicated then 1 else mesh.getD m.toNat 1

/-- The number of the part that the process with coordinates `cs` has on an axis with the entry `m`. -/
def partIndex (cs : List Nat) (m : Int) : Nat := (coordinateOf cs m).getD 0

/-- **The span of a process** on an axis, split or not, is the part with its number, even if the parts leave a rest. -/
theorem IsEntry.spanAt_eq (h : IsEntry mesh m) (hc : cs.length = mesh.length) (n : Nat) : spanAt mesh cs n m
      = ⟨(partIndex cs m * partSize mesh n m : Nat), ((partIndex cs m + 1) * partSize mesh n m : Nat)⟩ := by
  rcases h with rfl | ⟨j, hj, rfl⟩
  · simp [partIndex, coordinateOf]
  · have hjc : j < cs.length := hc ▸ hj
    simp [spanAt, partIndex, getElem?_eq_getElem hjc]

namespace EvenAxis

variable (h : EvenAxis mesh n m)

include h

theorem isEntry : IsEntry mesh m := by
  rcases h with hm | ⟨j, d, q, hm, hd, -, -, -⟩
  · exact Or.inl hm
  · exact Or.inr ⟨j, (lt_of_getElem? hd), hm⟩

theorem size_eq : n = partCount mesh m * partSize mesh n m := by
  rcases h with rfl | ⟨j, d, q, rfl, hd, hpos, -, hn⟩
  · simp [partCount]
  · rw [partSize_natCast hd hpos hn, partCount, if_neg (natCast_ne_replicated j)]
    simpa [hd] using hn

theorem partSize_pos (hn : 0 < n) : 0 < partSize mesh n m := by
  refine pos_of_ne_zero fun hzero => ?_
  have hsize := h.size_eq
  rw [hzero, mul_zero] at hsize
  omega

theorem partCount_pos : 0 < partCount mesh m := by
  rcases h with rfl | ⟨j, d, q, rfl, hd, hpos, -, -⟩
  · simp [partCount]
  · simpa [partCount, natCast_ne_replicated, hd] using hpos

theorem partIndex_lt (hc : cs ∈ positions mesh) : partIndex cs m < partCount mesh m := by
  rcases h with rfl | ⟨j, d, q, rfl, hd, -, -, -⟩
  · simp [partIndex, partCount, coordinateOf]
  · obtain ⟨a, ha, had⟩ := exists_coordinate hc hd
    simpa [partIndex, partCount, natCast_ne_replicated, ha, hd] using had

theorem exists_partIndex (hmesh : ∀ d ∈ mesh, 0 < d) (ha : a < partCount mesh m) :
    ∃ cs ∈ positions mesh, partIndex cs m = a := by
  have hzeros : replicate mesh.length 0 ∈ positions mesh := by
    rw [mem_positions, forall₂_iff_get]
    exact ⟨by simp, fun i _ hi => by simpa using hmesh mesh[i] (getElem_mem hi)⟩
  rcases h with rfl | ⟨j, d, q, rfl, hd, -, -, -⟩
  · obtain rfl : a = 0 := by simpa [partCount] using ha
    exact ⟨_, hzeros, by simp [partIndex, coordinateOf]⟩
  · have had : a < d := by simpa [partCount, natCast_ne_replicated, hd] using ha
    obtain ⟨hj, hdj⟩ := List.getElem?_eq_some_iff.mp hd
    refine ⟨(List.replicate mesh.length 0).set j a, ?_, by simp [partIndex, hj]⟩
    rw [mem_positions, forall₂_iff_get] at hzeros ⊢
    refine ⟨by simp, fun i h₁ h₂ => ?_⟩
    by_cases hij : j = i
    · subst hij
      simpa [hdj] using had
    · simpa [getElem_set_ne hij] using hzeros.2 i (by simpa using h₂) h₂

end EvenAxis

theorem lengths_blockAt (hc : cs.length = mesh.length) (h : Forall₂ (EvenAxis mesh) sizes mapping) :
    (blockAt mesh mapping sizes cs).map (fun s => s.hi - s.lo) = (zipWith (partSize mesh) sizes mapping).map ofNat := by
  rw [blockAt, map_zipWith, map_zipWith]
  exact zipWith_congr _ _ _ _ (h.imp fun n m hm => by simp [hm.isEntry.spanAt_eq hc, succ_mul])

/-! ## 5. The blocks of the processes -/

theorem pick_mesh (hd : mesh[j]? = some d) : pick (mesh.map ofNat) (j : Int) = .ok (d : Int) :=
  pick_natCast (by simp [hd])

/-- Where each axis gives a value, a tensor gives the list of them. -/
theorem eachAxis_eq_ok {α : Type} {whole : Int → α} {split : Int → Int → Fallible α} {xs : List Int}
    {size : Nat → Int → Int} {g : Nat → Int → α} : ∀ {sizes mapping},
    sizes.length ≤ mapping.length →
    (∀ n m, (n, m) ∈ sizes.zip mapping → Mapping.onAxis whole split xs (size n m) m = .ok (g n m)) →
    Mapping.eachAxis whole split xs (zipWith size sizes mapping) mapping = .ok (zipWith g sizes mapping)
  | [], _, _, _ => rfl
  | n :: ns, m :: ms, hlen, h => by
    have ih := eachAxis_eq_ok (le_of_succ_le_succ hlen) fun n m hm => h n m (mem_cons_of_mem _ hm)
    rw [zipWith_cons_cons, Mapping.eachAxis, h n m mem_cons_self, ih]
    rfl

theorem map_eq_zipWith (hlen : sizes.length ≤ mapping.length) :
    sizes.map ofNat = zipWith (fun n _ => ofNat n) sizes mapping := by
  conv_lhs => rw [← map_fst_zip hlen, map_map]
  exact map_zip_eq_zipWith

theorem partShape_natCast (hmap : IsMapping mesh mapping) (hlen : sizes.length ≤ mapping.length) :
    Block.partShape (sizes.map ofNat) mapping (mesh.map ofNat)
      = .ok ((zipWith (partSize mesh) sizes mapping).map ofNat) := by
  rw [Block.partShape, map_eq_zipWith hlen, map_zipWith]
  refine eachAxis_eq_ok hlen fun n m hnm => ?_
  rcases hmap.entries m (of_mem_zip hnm).2 with rfl | ⟨j, hj, rfl⟩
  · simp [Mapping.onAxis]
  · have hd := getElem?_eq_getElem hj
    simp [Mapping.onAxis, natCast_ne_replicated, pick_mesh hd, floorDiv_natCast n (hmap.mesh_pos _ (getElem_mem hj)), partSize,
      hd]

theorem completeShape_natCast (h : Forall₂ (EvenAxis mesh) sizes mapping) :
    Block.completeShape ((zipWith (partSize mesh) sizes mapping).map ofNat) (mesh.map ofNat) mapping
      = .ok (sizes.map ofNat) := by
  obtain ⟨hlen, hpairs⟩ := forall₂_iff_zip.mp h
  rw [Block.completeShape, map_eq_zipWith hlen.le, map_zipWith]
  refine eachAxis_eq_ok hlen.le fun n m hnm => ?_
  rcases hpairs hnm with rfl | ⟨j, d, q, rfl, hd, hpos, -, rfl⟩
  · simp [Mapping.onAxis]
  · simp [Mapping.onAxis, natCast_ne_replicated, pick_mesh hd, partSize_natCast hd hpos rfl, mul_comm]

theorem spans_natCast (hc : cs.length = mesh.length) (hentries : ∀ m ∈ mapping, IsEntry mesh m)
    (hlen : sizes.length ≤ mapping.length) :
    Block.spans (cs.map ofNat) ((zipWith (partSize mesh) sizes mapping).map ofNat) mapping
      = .ok (blockAt mesh mapping sizes cs) := by
  rw [Block.spans, map_zipWith, blockAt]
  refine eachAxis_eq_ok hlen fun n m hnm => ?_
  rcases hentries m (of_mem_zip hnm).2 with rfl | ⟨j, hj, rfl⟩
  · simp [Mapping.onAxis, spanAt_replicated]
  · have hcj : cs[j]? = some cs[j] := getElem?_eq_getElem (hc ▸ hj)
    have hpick : pick (cs.map ofNat) (j : Int) = .ok (cs[j] : Int) := pick_natCast (by simp [hcj])
    simp [Mapping.onAxis, natCast_ne_replicated, hpick, spanAt, coordinateOf_natCast, hcj]

theorem processIndex_eq (hmesh : ∀ d ∈ mesh, 0 < d) (hne : mesh ≠ [])
    (hk : group.idxOf? p = some k) :
    Block.processIndex p group (mesh.map ofNat) = .ok ((position mesh k).map ofNat) := by
  have hemp : (mesh.map ofNat).isEmpty = false := by simpa using hne
  have hix := Block.indexFrom_natCast k hmesh
  rw [← product_natCast] at hix
  simp only [Block.processIndex, hk, hemp, hix]
  rfl

/-- **The block of the process with number `k`** is the block of its row-major position in the mesh, whether or not the
mesh divides the tensor. -/
theorem ofProcess_eq (hmap : IsMapping mesh mapping) (hne : mesh ≠ []) (hlen : sizes.length ≤ mapping.length)
    (hk : group.idxOf? p = some k) :
    Block.ofProcess p (sizes.map ofNat) mapping (mesh.map ofNat) group
      = .ok (blockAt mesh mapping sizes (position mesh k)) := by
  simp only [Block.ofProcess, partShape_natCast hmap hlen, processIndex_eq hmap.mesh_pos hne hk]
  simp only [liftM_ok, ok_bind, spans_natCast (length_position mesh k) hmap.entries hlen]

theorem idxOf?_of_getElem? {α : Type} [BEq α] [LawfulBEq α] {group : List α} (hnd : group.Nodup) {p : α}
    (hk : group[k]? = some p) : group.idxOf? p = some k := by
  obtain ⟨hlt, hval⟩ := List.getElem?_eq_some_iff.mp hk
  refine idxOf?_eq_some_iff.mpr ⟨hlt, by simp [hval], fun i hi heq => ?_⟩
  have hii : group[i] = group[k] := by simpa [hval] using heq
  exact absurd ((Nodup.getElem_inj_iff hnd).mp hii) (by omega)

theorem ofProcess_of_mem (h : Even mesh mapping sizes) (hne : mesh ≠ []) (hnd : group.Nodup)
    (hp : p ∈ group) : Block.ofProcess p (sizes.map ofNat) mapping (mesh.map ofNat) group
      = .ok (blockAt mesh mapping sizes (position mesh (group.idxOf p))) :=
  ofProcess_eq ⟨h.mesh_pos, h.entries⟩ hne h.axes.ge (idxOf?_of_getElem? hnd (getElem?_idxOf hp))

theorem map_position_idxOf (hnd : group.Nodup) (hlen : group.length = volume mesh) :
    group.map (fun p => position mesh (group.idxOf p)) = positions mesh := by
  have hnumbers : group.map (group.idxOf ·) = List.range (volume mesh) := by
    refine ext_getElem (by simp [hlen]) fun k _ _ => ?_
    simp [hnd.idxOf_getElem]
  rw [← map_position_range, ← hnumbers, map_map]
  rfl

/-- **The blocks of all processes, in the order of the group**, are the blocks of the positions of the mesh. -/
theorem mapM_ofProcess (h : Even mesh mapping sizes) (hne : mesh ≠ []) (hnd : group.Nodup)
    (hlen : group.length = volume mesh) :
    (group.mapM fun p => Block.ofProcess p (sizes.map ofNat) mapping (mesh.map ofNat) group)
      = .ok ((positions mesh).map (blockAt mesh mapping sizes)) := by
  rw [mapM_eq_ok fun p hp => ofProcess_of_mem h hne hnd hp, ← map_position_idxOf hnd hlen, map_map]
  rfl

end Distributed

end TensorKit
