import TensorKit.Proofs.Distributed.BlockJoining
import TensorKit.Proofs.Distributed.Contents
/-!
# Merging the parts of a tensor

The parts that the processes of an even splitting hold are added, one after the other, to a list of pieces.  Here a part
that joins no piece is LEFT OUT, unless it is the first one.  So there is never more than one piece, merging never
fails, and what it returns need not be the whole tensor.

A mesh axis cuts the tensor if it splits one of its axes into more than one part (`Cut`).  Along the last mesh axis that
cuts, the parts join to a slab (`feed_row`): the block of the prefix of zeros before that mesh axis.  Every other part
differs from the slab on two axes, on the one that is whole in the slab and on one where the slab has the first part
only (`apart_slab`), and is left out.  **Merging returns the slab** (`assemble_slab`), which is the whole tensor exactly
when no more than one axis is cut (`within_slab_eq_iff`).
-/

namespace TensorKit.Distributed.Reshape

open Position Tensor List Block Nat

variable {v b : Block} {sizes cs e : List Nat} {i j d q : Nat} {a : NdArray} {complete : List Int}
variable {mesh : List Nat} {mapping group : List Int} {tensors : List NdArray}

/-! ## 1. Adding a part to one piece -/

theorem keepsOk_error : KeepsOk Error := fun _ => rfl

section Piece

variable {α : Type} {paste : Nat → α → α → Except Error α} {x w : α} {u : Block}

/-- A part that does not join the piece is left out, whether the piece is complete or not. -/
theorem addPiece_of_apart (h : Apart u b) : addPiece paste complete 1 [(w, u)] x b = .ok [(w, u)] := by
  have hnone : joinFirst paste x b [(w, u)] = .ok none := joinFirst_of_apart keepsOk_error x (by simpa using h)
  rw [addPiece]
  split
  · rfl
  · simp only [isEmpty_cons, Bool.false_eq_true, if_false, hnone, ok_bind]
    rfl

theorem addPiece_of_joins {axis : Nat} {y : α} (h : Joins u b axis false v)
    (hdone : isComplete complete u = false) (hy : paste axis w x = .ok y) :
    addPiece paste complete 1 [(w, u)] x b = .ok [(y, v)] := by
  have hsome : joinFirst paste x b ([] ++ (w, u) :: []) = .ok (some ((y, v), [] ++ [])) :=
    joinFirst_of_joins keepsOk_error x w h (by simpa using hy) [] (by simp)
  simp only [nil_append] at hsome
  rw [addPiece]
  simp only [isDone, hdone, isEmpty_cons, Bool.false_eq_true, if_false, hsome, ok_bind]
  rfl

end Piece

/-- A block that ends before its axis does is not complete. -/
theorem isComplete_eq_false {n : Nat} {s : Span} (hs : b[i]? = some s)
    (hn : sizes[i]? = some n) (hne : s.hi ≠ n) : isComplete (sizes.map Int.ofNat) b = false := by
  rw [isComplete, all_eq_false]
  refine ⟨(s, i), mem_zipIdx_iff_getElem?.mpr hs, ?_⟩
  simp [hn, Ne.symm hne]

/-! ## 2. Feeding parts -/

def feed (a : NdArray) (bs : List Block) (pieces : List (NdArray × Block)) : Except Error (List (NdArray × Block)) :=
  bs.foldlM (fun pieces b => addPiece pasteArrays (a.shape.map Int.ofNat) pieces.length pieces (a.within b) b) pieces

theorem feed_append (bs cs : List Block) {pieces pieces' : List (NdArray × Block)}
    (h : feed a bs pieces = .ok pieces') : feed a (bs ++ cs) pieces = feed a cs pieces' := by
  rw [feed] at h
  rw [feed, foldlM_append, h]
  rfl

theorem feed_of_apart : ∀ {bs}, (∀ b ∈ bs, Apart v b) →
    feed a bs [(a.within v, v)] = .ok [(a.within v, v)]
  | [], _ => rfl
  | b :: bs, h => by
    have ih := feed_of_apart fun cs hc => h cs (.tail _ hc)
    have hstep : feed a [b] [(a.within v, v)] = .ok [(a.within v, v)] := by
      simp [feed, addPiece_of_apart (h b mem_cons_self)]
    exact (feed_append [b] bs hstep).trans ih

theorem pasteArrays_firstParts (ha : a.Proper) (h : Even mesh mapping a.shape)
    (hx : SplitAxis mesh mapping a.shape cs.length i d q)
    (hin : Inside (blockAt mesh mapping a.shape cs).places a.shape) {k : Nat} (hk : k < d) :
    pasteArrays i (a.within (firstParts mesh mapping a.shape cs i q k))
        (a.within (blockAt mesh mapping a.shape (cs ++ [k])))
      = .ok (a.within (firstParts mesh mapping a.shape cs i q (k + 1))) := by
  have hlen : ((blockAt mesh mapping a.shape cs).take i).length = i := length_take_of_le (hx.lt_blockAt h cs).le
  -- all blocks here are the block of the prefix with another span on one axis
  have hset := hx.set_blockAt h cs
  have hunion : Inside (places ((blockAt mesh mapping a.shape cs).take i
      ++ ⟨((0 : Nat) : Int), ((k + 1) * q : Nat)⟩ :: (blockAt mesh mapping a.shape cs).drop (i + 1))) a.shape := by
    rw [← firstParts_all h hx, firstParts, hset, places, map_append, map_cons] at hin
    rw [places, map_append, map_cons]
    refine hin.of_subset fun y hy => ?_
    rw [cast_zero, Span.places_whole] at hy
    rw [Span.places_whole]
    exact mem_range.mpr (lt_of_lt_of_le (mem_range.mp hy) (mul_le_mul_right q hk))
  have hpaste := pasteArrays_within ha (zero_le (k * q)) (mul_le_mul_right q (le_succ k)) hunion
  rw [hlen, ← hset, ← hset, ← hset, cast_zero] at hpaste
  rwa [blockAt_snoc h hx, firstParts, firstParts]

/-- **The parts along one mesh axis join to one piece.**  By induction on how many have been fed. -/
theorem feed_row (ha : a.Proper) (h : Even mesh mapping a.shape) (hx : SplitAxis mesh mapping a.shape cs.length i d q)
    (hin : Inside (blockAt mesh mapping a.shape cs).places a.shape) : ∀ k, k < d →
    feed a ((List.range (k + 1)).map fun e => blockAt mesh mapping a.shape (cs ++ [e])) []
      = .ok [(a.within (firstParts mesh mapping a.shape cs i q (k + 1)),
          firstParts mesh mapping a.shape cs i q (k + 1))]
  | 0, _ => by
    rw [firstParts_one h hx]
    rfl
  | k + 1, hk => by
    have ih := feed_row ha h hx hin k (by omega)
    have hd := Nat.mul_lt_mul_of_pos_right hk hx.q_pos
    have hcomplete : isComplete (a.shape.map Int.ofNat) (firstParts mesh mapping a.shape cs i q (k + 1)) = false := by
      refine isComplete_eq_false (getElem?_set_self (hx.lt_blockAt h cs)) hx.size ?_
      simp only [ne_eq, Nat.cast_inj]
      omega
    have hadd := addPiece_of_joins (joins_firstParts h hx (show 0 < k + 1 by omega)) hcomplete
      (pasteArrays_firstParts ha h hx hin hk)
    rw [range_succ, map_append, feed_append _ _ ih]
    simp [feed, hadd]

/-! ## 3. The slab -/

/-- A mesh axis cuts the tensor: it splits one of its axes into more than one part. -/
def Cut (mesh : List Nat) (mapping : List Int) (j : Nat) : Prop := (j : Int) ∈ mapping ∧ 1 < mesh.getD j 1

instance (mesh : List Nat) (mapping : List Int) : DecidablePred (Cut mesh mapping) :=
  fun _ => inferInstanceAs (Decidable (_ ∧ _))

/-- The last mesh axis that cuts; the first mesh axis if none does. -/
def lastCut (mesh : List Nat) (mapping : List Int) : Nat := Nat.findGreatest (Cut mesh mapping) mesh.length

def slab (mesh : List Nat) (mapping : List Int) (sizes : List Nat) : Block :=
  blockAt mesh mapping sizes (replicate (lastCut mesh mapping) 0)

theorem Cut.lt_length (h : Cut mesh mapping j) : j < mesh.length := by
  by_contra hge
  have hone : mesh.getD j 1 = 1 := by
    rw [getD_eq_getElem?_getD, getElem?_eq_none (Nat.le_of_not_lt hge)]
    rfl
  exact absurd h.2 (by omega)

theorem cut_iff (hx : SplitAxis mesh mapping sizes j i d q) : Cut mesh mapping j ↔ 1 < d := by
  have hmem := mem_of_getElem? hx.entry
  simp [Cut, hmem, hx.extent]

theorem eq_one_of_not_cut (hx : SplitAxis mesh mapping sizes j i d q) (hno : ¬ Cut mesh mapping j) : d = 1 := by
  rw [cut_iff hx] at hno
  have hpos := hx.d_pos
  omega

theorem cut_lastCut (h : Cut mesh mapping j) : Cut mesh mapping (lastCut mesh mapping) :=
  findGreatest_spec h.lt_length.le h

theorem Cut.le_lastCut (h : Cut mesh mapping j) : j ≤ lastCut mesh mapping := le_findGreatest h.lt_length.le h

section

variable (h : Even mesh mapping sizes)

include h

/-- Coordinates on mesh axes that do not cut leave the block as it is. -/
theorem blockAt_append_of_not_cut
    (he : e ∈ positions (mesh.drop cs.length)) (hno : ∀ j, cs.length ≤ j → ¬ Cut mesh mapping j) :
    blockAt mesh mapping sizes (cs ++ e) = blockAt mesh mapping sizes cs := by
  refine ext_getElem? fun i => ?_
  by_cases hj : ∃ j : Nat, mapping[i]? = some (j : Int) ∧ cs.length ≤ j
  · obtain ⟨j, hij, hcj⟩ := hj
    obtain ⟨d, q, hx⟩ := h.splitAxis hij
    have hd := eq_one_of_not_cut hx (hno j hcj)
    have hdrop : (mesh.drop cs.length)[j - cs.length]? = some d := by
      rw [getElem?_drop, Nat.add_sub_cancel' hcj, hx.extent]
    obtain ⟨a, ha, had⟩ := exists_coordinate he hdrop
    have hzero : (cs ++ e)[j]? = some 0 := by rw [getElem?_append_right hcj, ha, show a = 0 by omega]
    rw [hx.getElem?_part hzero, hx.getElem?_whole hcj, hd]
    simp
  · refine getElem?_blockAt_congr h fun j hij => getElem?_append_left ?_
    exact Nat.lt_of_not_le fun hcj => hj ⟨j, hij, hcj⟩

/-- All blocks under a prefix are one block if no later mesh axis cuts. -/
theorem eraseDups_leaves_of_not_cut (hno : ∀ j, cs.length ≤ j → ¬ Cut mesh mapping j) :
    (leaves mesh mapping sizes cs (mesh.drop cs.length)).eraseDups = [blockAt mesh mapping sizes cs] := by
  have hall : leaves mesh mapping sizes cs (mesh.drop cs.length)
      = (positions (mesh.drop cs.length)).map fun _ => blockAt mesh mapping sizes cs :=
    map_congr_left fun e he => blockAt_append_of_not_cut h he hno
  have hpos : 0 < volume (mesh.drop cs.length) := volume_pos fun n hn => h.mesh_pos n (mem_of_mem_drop hn)
  have hsucc : volume (mesh.drop cs.length) = volume (mesh.drop cs.length) - 1 + 1 := by omega
  rw [hall, map_const', length_positions, hsucc, replicate_succ, eraseDups_cons]
  simp

/-- **A part that is not in the slab does not join it.**  On the axis that the last cut splits the slab is whole and the
part is not; on an axis that an earlier mesh axis splits, the slab has the first part and the other one a later part. -/
theorem apart_slab (hcut : Cut mesh mapping (lastCut mesh mapping))
    (he : e ∈ positions mesh)
    (hout : blockAt mesh mapping sizes e ∉ leaves mesh mapping sizes (replicate (lastCut mesh mapping) 0)
      (mesh.drop (lastCut mesh mapping))) : Apart (slab mesh mapping sizes) (blockAt mesh mapping sizes e) := by
  set n := lastCut mesh mapping with hn
  obtain ⟨j, hj, hjn, hej⟩ : ∃ j : Nat, (j : Int) ∈ mapping ∧ j < n ∧ e[j]? ≠ some 0 := by
    by_contra hall
    push Not at hall
    refine hout (mem_map.mpr ⟨e.drop n, mem_positions.mpr (forall₂_drop n (mem_positions.mp he)), ?_⟩)
    refine blockAt_congr h fun k hk => ?_
    rcases Nat.lt_or_ge k n with hkn | hkn
    · rw [getElem?_append_left (by simpa using hkn), getElem?_replicate, if_pos hkn, hall k hk hkn]
    · rw [getElem?_append_right (by simpa using hkn), getElem?_drop, length_replicate,
        Nat.add_sub_cancel' hkn]
  obtain ⟨i, d, q, hx⟩ := h.exists_splitAxis hcut.1
  obtain ⟨i', d', q', hx'⟩ := h.exists_splitAxis hj
  obtain ⟨a, ha, -⟩ := exists_coordinate he hx.extent
  obtain ⟨b, hb, -⟩ := exists_coordinate he hx'.extent
  refine apart_of_differ (i := i) (k := i') ?_ ?_ ?_ ?_
  · rw [slab, length_blockAt h, length_blockAt h]
  · rintro rfl
    exact absurd (hx.entry_eq hx'.entry) (by omega)
  · rw [slab, hx.getElem?_whole (by simp [hn]), hx.getElem?_part ha]
    simp only [ne_eq, Option.some.injEq, Span.mk.injEq, Nat.cast_inj, not_and]
    intro hlo hhi
    have hd := (cut_iff hx).mp hcut
    have hq := hx.q_pos
    have hdq := Nat.mul_lt_mul_of_pos_right hd hq
    rw [Nat.succ_mul] at hhi
    omega
  · rw [slab, hx'.getElem?_part (getElem?_replicate_of_lt hjn), hx'.getElem?_part hb]
    have hb0 : 0 < b := Nat.pos_of_ne_zero fun hb0 => hej (hb0 ▸ hb)
    have hbq := Nat.mul_pos hb0 hx'.q_pos
    simp only [ne_eq, Option.some.injEq, Span.mk.injEq, Nat.cast_inj, not_and]
    intro hlo
    omega

theorem eraseDups_leaves_slab
    (hx : SplitAxis mesh mapping sizes cs.length i d q) (hno : ∀ j, cs.length < j → ¬ Cut mesh mapping j) :
    (leaves mesh mapping sizes cs (mesh.drop cs.length)).eraseDups
      = (List.range d).map fun e => blockAt mesh mapping sizes (cs ++ [e]) := by
  have hdrop : mesh.drop cs.length = d :: mesh.drop (cs.length + 1) := by
    obtain ⟨hlt, rfl⟩ := List.getElem?_eq_some_iff.mp hx.extent
    exact drop_eq_getElem_cons hlt
  rw [hdrop, leaves_cons, eraseDups_flatMap_of_disjoint fun a b hab => leaves_disjoint hx hab, map_eq_flatMap]
  refine flatMap_congr fun e _ => ?_
  have hlen : cs.length + 1 = (cs ++ [e]).length := by simp
  rw [hlen]
  exact eraseDups_leaves_of_not_cut h fun j hj => hno j (by rw [← hlen] at hj; omega)

/-- The parts of the slab come first, and the others follow. -/
theorem exists_blockAt_split (hcut : Cut mesh mapping (lastCut mesh mapping)) :
    ∃ others : List (List Nat), (∀ e ∈ others, e ∈ positions mesh) ∧ (positions mesh).map (blockAt mesh mapping sizes)
        = leaves mesh mapping sizes (replicate (lastCut mesh mapping) 0) (mesh.drop (lastCut mesh mapping))
          ++ others.map (blockAt mesh mapping sizes) := by
  obtain ⟨others, hsplit⟩ := exists_positions_append (mesh.drop (lastCut mesh mapping))
    fun n (hn : n ∈ mesh.take (lastCut mesh mapping)) => h.mesh_pos n (mem_of_mem_take hn)
  rw [take_append_drop, length_take, min_eq_left hcut.lt_length.le] at hsplit
  refine ⟨others, fun e he => ?_, ?_⟩
  · rw [hsplit]
    exact mem_append_right _ he
  · rw [hsplit, map_append, map_map]
    rfl

end

theorem feed_leaves_slab (ha : a.Proper) (h : Even mesh mapping a.shape)
    (hcut : Cut mesh mapping (lastCut mesh mapping)) :
    feed a (leaves mesh mapping a.shape (replicate (lastCut mesh mapping) 0)
        (mesh.drop (lastCut mesh mapping))).eraseDups []
      = .ok [(a.within (slab mesh mapping a.shape), slab mesh mapping a.shape)] := by
  have hlen : (replicate (lastCut mesh mapping) 0).length = lastCut mesh mapping := length_replicate
  obtain ⟨i, d, q, hx⟩ := h.exists_splitAxis hcut.1
  rw [← hlen] at hx
  have hin : Inside (slab mesh mapping a.shape).places a.shape := by
    refine inside_blockAt (fun j b d hb hd => ?_) h.forall₂
    obtain ⟨-, rfl⟩ : j < lastCut mesh mapping ∧ 0 = b := by simpa [getElem?_replicate] using hb
    exact h.mesh_pos d (mem_of_getElem? hd)
  have hleaves := eraseDups_leaves_slab h hx fun k hk hc => by
    have := hc.le_lastCut
    omega
  have hfeed := feed_row ha h hx hin (d - 1) (by have := hx.d_pos; omega)
  rw [Nat.sub_add_cancel hx.d_pos, firstParts_all h hx] at hfeed
  rw [hlen] at hleaves
  rwa [hleaves]

/-- **Feeding all parts leaves the slab.** -/
theorem feed_blockAt (ha : a.Proper) (h : Even mesh mapping a.shape) :
    feed a ((positions mesh).map (blockAt mesh mapping a.shape)).eraseDups []
      = .ok [(a.within (slab mesh mapping a.shape), slab mesh mapping a.shape)] := by
  by_cases hany : ∃ j, Cut mesh mapping j
  · obtain ⟨j, hj⟩ := hany
    have hcut := cut_lastCut hj
    obtain ⟨others, hothers, hblocks⟩ := exists_blockAt_split h hcut
    rw [hblocks, eraseDups_append, feed_append _ _ (feed_leaves_slab ha h hcut)]
    refine feed_of_apart fun b hb => ?_
    obtain ⟨hmem, hout⟩ : b ∈ others.map (blockAt mesh mapping a.shape) ∧ b ∉ leaves mesh mapping a.shape
        (replicate (lastCut mesh mapping) 0) (mesh.drop (lastCut mesh mapping)) := by
      simpa [removeAll] using hb
    obtain ⟨e, he, rfl⟩ := mem_map.mp hmem
    exact apart_slab h hcut (hothers e he) hout
  · have hnone : ∀ j, ¬ Cut mesh mapping j := fun j hj => hany ⟨j, hj⟩
    have hzero : lastCut mesh mapping = 0 := by
      rw [lastCut, findGreatest_eq_zero_iff]
      exact fun j _ _ => hnone j
    have hleaves := eraseDups_leaves_of_not_cut h fun j (_ : ([] : List Nat).length ≤ j) => hnone j
    have hslab : slab mesh mapping a.shape = blockAt mesh mapping a.shape [] := by rw [slab, hzero]; rfl
    simp only [leaves, length_nil, drop_zero, nil_append] at hleaves
    rw [hleaves, hslab]
    rfl

def cutAxes (mesh : List Nat) (mapping : List Int) : Nat :=
  mapping.countP fun m => decide (m ≠ Mapping.replicated) && decide (1 < mesh.getD m.toNat 1)

theorem cutAxes_le_one_iff (h : Even mesh mapping sizes) :
    cutAxes mesh mapping ≤ 1 ↔ ∀ j k, Cut mesh mapping j → Cut mesh mapping k → j = k := by
  have hnd : (mapping.filter fun m => decide (m ≠ Mapping.replicated) && decide (1 < mesh.getD m.toNat 1)).Nodup := by
    have := h.once.filter fun m => decide (1 < mesh.getD m.toNat 1)
    rw [filter_filter] at this
    simpa [Bool.and_comm] using this
  rw [cutAxes, countP_eq_length_filter, ← toFinset_card_of_nodup hnd, Finset.card_le_one]
  have hmem : ∀ m, m ∈ (mapping.filter fun m => decide (m ≠ Mapping.replicated) &&
      decide (1 < mesh.getD m.toNat 1)).toFinset ↔ ∃ j : Nat, m = (j : Int) ∧ Cut mesh mapping j := by
    intro m
    simp only [mem_toFinset, mem_filter, Bool.and_eq_true, decide_eq_true_eq]
    constructor
    · rintro ⟨hm, hne, hlt⟩
      obtain ⟨j, -, rfl⟩ := (h.entries m hm).resolve_left hne
      exact ⟨j, rfl, hm, by simpa using hlt⟩
    · rintro ⟨j, rfl, hm, hlt⟩
      exact ⟨hm, natCast_ne_replicated j, by simpa using hlt⟩
  constructor
  · intro hall j k hj hk
    exact cast_injective (hall j ((hmem j).mpr ⟨j, rfl, hj⟩) k ((hmem k).mpr ⟨k, rfl, hk⟩))
  · intro hall m hm m' hm'
    obtain ⟨j, rfl, hj⟩ := (hmem m).mp hm
    obtain ⟨k, rfl, hk⟩ := (hmem m').mp hm'
    rw [hall j k hj hk]

/-- **The slab is the whole array exactly when no more than one axis is cut.** -/
theorem within_slab_eq_iff (ha : a.Proper) (h : Even mesh mapping a.shape) :
    a.within (slab mesh mapping a.shape) = a ↔ cutAxes mesh mapping ≤ 1 := by
  rw [cutAxes_le_one_iff h]
  constructor
  · -- a mesh axis that cuts before the last one leaves less than its axis in the slab
    intro heq
    have hlast : ∀ j, Cut mesh mapping j → j = lastCut mesh mapping := by
      intro j hj
      by_contra hne
      have hlt := lt_of_le_of_ne hj.le_lastCut hne
      obtain ⟨i, d, q, hx⟩ := h.exists_splitAxis hj.1
      have hshape : (a.within (slab mesh mapping a.shape)).shape[i]? = some q := by
        rw [NdArray.shape_within, places, map_map, getElem?_map, slab,
          hx.getElem?_part (getElem?_replicate_of_lt hlt)]
        simp [Span.places]
      rw [heq, hx.size] at hshape
      have hdq : d * q = q := by simpa using hshape
      have hlt' : 1 * q < d * q := mul_lt_mul_of_pos_right ((cut_iff hx).mp hj) hx.q_pos
      omega
    exact fun j k hj hk => (hlast j hj).trans (hlast k hk).symm
  · intro hall
    have hwhole : slab mesh mapping a.shape = wholeBlock a.shape := by
      rw [← blockAt_nil h]
      refine ext_getElem? fun i => ?_
      by_cases hj : ∃ j : Nat, mapping[i]? = some (j : Int) ∧ j < lastCut mesh mapping
      · obtain ⟨j, hij, hlt⟩ := hj
        obtain ⟨d, q, hx⟩ := h.splitAxis hij
        have hd := eq_one_of_not_cut hx fun hc => hlt.ne (hall j _ hc (cut_lastCut hc))
        have hnil : ([] : List Nat).length ≤ j := zero_le j
        rw [slab, hx.getElem?_part (getElem?_replicate_of_lt hlt), hx.getElem?_whole hnil, hd]
        simp
      · refine getElem?_blockAt_congr h fun j hij => ?_
        have hge : ¬ j < lastCut mesh mapping := fun hlt => hj ⟨j, hij, hlt⟩
        simp [hge]
    rw [hwhole, NdArray.within_wholeBlock ha.wellFormed]

/-! ## 4. Merging -/

theorem addPieces_eq_feed {s : Splitting} {f : Int → Block} : ∀ {ps} (seen : List Block)
    (pieces : List (NdArray × Block)),
    (∀ p ∈ ps, ofProcess p (a.shape.map Int.ofNat) s.mapping s.shape s.group = .ok (f p)) →
    (∀ p ∈ ps, pick tensors ((s.group.idxOf p : Nat) : Int) = .ok (a.within (f p))) →
    addPieces pasteArrays (a.shape.map Int.ofNat) s tensors ps seen pieces
      = feed a ((ps.map f).removeAll seen).eraseDups pieces
  | [], _, _, _, _ => rfl
  | p :: ps, seen, pieces, hf, ht => by
    have hf' := fun q hq => hf q (mem_cons_of_mem p hq)
    have ht' := fun q hq => ht q (mem_cons_of_mem p hq)
    rw [addPieces, hf p mem_cons_self, ht p mem_cons_self]
    simp only [liftM_ok, liftM_twice_ok, ok_bind]
    by_cases hseen : f p ∈ seen
    · rw [if_pos (contains_iff_mem.mpr hseen), addPieces_eq_feed seen pieces hf' ht', map_cons]
      simp [removeAll, hseen]
    · -- what is seen from now on is what was seen and the block of this process
      have hrest : ((ps.map f).removeAll seen).filter (fun b => !b == f p) = (ps.map f).removeAll (seen ++ [f p]) := by
        simp only [removeAll, filter_filter]
        refine filter_congr fun b _ => ?_
        rw [Bool.eq_iff_iff]
        simp [and_comm]
      have hcons : ((p :: ps).map f).removeAll seen = f p :: (ps.map f).removeAll seen := by simp [removeAll, hseen]
      rw [if_neg (by simpa using hseen), hcons, eraseDups_cons, hrest, feed, foldlM_cons]
      refine congrArg _ (funext fun pieces' => ?_)
      exact addPieces_eq_feed _ pieces' hf' ht'

theorem ne_nil_of_ofProcess {p : Int} {shape : List Int}
    (h : ofProcess p complete mapping shape group = .ok b) : shape ≠ [] := by
  rintro rfl
  obtain ⟨part, -, index, hindex, -⟩ := of_bind₂_eq_ok h
  cases hk : group.idxOf? p with
  | none => simp [processIndex, hk] at hindex
  | some k => simp [processIndex, hk] at hindex

/-- **What the processes hold, put together, is the slab.** -/
theorem assemble_slab (h : Divides mesh mapping group a.shape) (ha : a.Proper) (hne : mesh ≠ [])
    (htensors : ∀ p ∈ group, tensors[group.idxOf p]?
      = some (a.within (blockAt mesh mapping a.shape (position mesh (group.idxOf p))))) :
    assemble pasteArrays (fun b => b.shape) ⟨mapping, mesh.map Int.ofNat, group⟩ tensors
      = .ok [(a.within (slab mesh mapping a.shape), slab mesh mapping a.shape)] := by
  have hpos : 0 < group.length := h.count ▸ volume_pos h.mesh_pos
  have hfirst : pick tensors 0 = .ok (a.within (blockAt mesh mapping a.shape (position mesh 0))) := by
    have hzero := h.distinct.idxOf_getElem 0 hpos
    have hget := htensors group[0] (getElem_mem hpos)
    rw [hzero] at hget
    exact pick_natCast hget
  have hcomplete : completeShape ((a.within (blockAt mesh mapping a.shape (position mesh 0))).shape.map Int.ofNat)
      (mesh.map Int.ofNat) mapping = .ok (a.shape.map Int.ofNat) := by
    rw [NdArray.shape_within, sizes_blockAt (length_position mesh 0) h.toEven]
    exact completeShape_natCast h.forall₂
  have hfeed : addPieces pasteArrays (a.shape.map Int.ofNat) ⟨mapping, mesh.map Int.ofNat, group⟩ tensors group [] []
      = .ok [(a.within (slab mesh mapping a.shape), slab mesh mapping a.shape)] := by
    rw [addPieces_eq_feed [] [] (fun p hp => ofProcess_of_mem h.toEven hne h.distinct hp)
      fun p hp => pick_natCast (htensors p hp)]
    have hmap : group.map (fun p => blockAt mesh mapping a.shape (position mesh (group.idxOf p)))
        = (positions mesh).map (blockAt mesh mapping a.shape) := by
      rw [← map_position_idxOf h.distinct h.count, map_map]
      rfl
    rw [hmap, removeAll_nil]
    exact feed_blockAt ha h.toEven
  simp only [assemble, hfirst, hcomplete, liftM_twice_ok, ok_bind]
  exact hfeed

/-- **What merging returns.**  Let a mesh split an array evenly, and let `tensors` have, at the place of each process in
the group, the part of the array in the block of that process.  Merging returns the slab of the last mesh axis that
cuts, and never an error.  So it returns the whole array or fails with a value error exactly when no more than one axis
of the array is cut into more than one part; otherwise it returns less than the array without a sign. -/
theorem mergeArrays_eq_slab {mesh : List Nat} {mapping group : List Int} {a : NdArray} {tensors : List NdArray}
    {entry : Value} (h : Divides mesh mapping group a.shape) (ha : a.Proper)
    (hentry : splittingOf entry = .ok ⟨mapping, mesh.map Int.ofNat, group⟩)
    (htensors : ∀ (k : Nat) (p : Int), group[k]? = some p → ∃ b,
      Block.ofProcess p (a.shape.map Int.ofNat) mapping (mesh.map Int.ofNat) group = .ok b ∧
        tensors[k]? = some (a.within b)) : mergeArrays tensors entry = .ok (a.within (slab mesh mapping a.shape)) ∧
    ((mergeArrays tensors entry = .ok a ∨ ∃ e, mergeArrays tensors entry = .error e ∧ e.kind = .value) ↔
      cutAxes mesh mapping ≤ 1) := by
  have hne : mesh ≠ [] := by
    have hpos : 0 < group.length := h.count ▸ volume_pos h.mesh_pos
    obtain ⟨b, hb, -⟩ := htensors 0 _ (getElem?_eq_getElem hpos)
    simpa using ne_nil_of_ofProcess hb
  have hheld : ∀ p ∈ group, tensors[group.idxOf p]?
      = some (a.within (blockAt mesh mapping a.shape (position mesh (group.idxOf p)))) := by
    intro p hp
    obtain ⟨b, hb, hget⟩ := htensors (group.idxOf p) p
      (List.getElem?_eq_some_iff.mpr ⟨idxOf_lt_length_iff.mpr hp, getElem_idxOf _⟩)
    rw [ofProcess_of_mem h.toEven hne h.distinct hp, Except.ok.injEq] at hb
    rw [hget, hb]
  have hmerge : mergeArrays tensors entry = .ok (a.within (slab mesh mapping a.shape)) := by
    simp only [mergeArrays, hentry, assemble_slab h ha hne hheld, liftM_twice_ok, ok_bind]
    rfl
  refine ⟨hmerge, ?_⟩
  rw [hmerge, ← within_slab_eq_iff ha h.toEven]
  simp

def square : NdArray := ⟨⟨[2, 2], [.int 1, .int 2, .int 3, .int 4]⟩, .int64⟩

theorem proper_square : square.Proper := by
  refine ⟨rfl, rfl, fun s hs => ?_⟩
  simp only [square, mem_cons, not_mem_nil, or_false] at hs
  rcases hs with rfl | rfl | rfl | rfl <;> rfl

/-- Four processes, two by two, hold one number of the square each. -/
def squareParts : List NdArray := [1, 2, 3, 4].map fun x => ⟨⟨[1, 1], [.int x]⟩, .int64⟩

/-- Of the square, merging returns the first row.  The parts of the second row join nothing and are left out. -/
theorem mergeArrays_square :
    mergeArrays squareParts (tableOf [2, 2] [0, 1] [0, 1, 2, 3]) = .ok ⟨⟨[1, 2], [.int 1, .int 2]⟩, .int64⟩ ∧
    ¬ (mergeArrays squareParts (tableOf [2, 2] [0, 1] [0, 1, 2, 3]) = .ok square ∨
      ∃ e, mergeArrays squareParts (tableOf [2, 2] [0, 1] [0, 1, 2, 3]) = .error e ∧ e.kind = .value) := by
  have hd : Divides [2, 2] [0, 1] [0, 1, 2, 3] square.shape := by decide
  have hparts : ∀ (k : Nat) (p : Int), [0, 1, 2, 3][k]? = some p → ∃ b,
      Block.ofProcess p (square.shape.map Int.ofNat) [0, 1] ([2, 2].map Int.ofNat) [0, 1, 2, 3] = .ok b ∧
        squareParts[k]? = some (square.within b) := by
    intro k p hk
    have hlt : k < 4 := (List.getElem?_eq_some_iff.mp hk).1
    interval_cases k <;> (obtain rfl := Option.some.inj hk; exact ⟨_, rfl, rfl⟩)
  obtain ⟨hslab, hiff⟩ := mergeArrays_eq_slab hd proper_square (splittingOf_tableOf _ _ _) hparts
  refine ⟨hslab, fun hall => ?_⟩
  exact absurd (hiff.mp hall) (by decide)

end TensorKit.Distributed.Reshape
