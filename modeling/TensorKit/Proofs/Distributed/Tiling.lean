import TensorKit.Distributed.LocalShard
import TensorKit.Distributed.ProcessMesh
import TensorKit.Proofs.Distributed.BlockJoining
import TensorKit.Proofs.Distributed.Coordinates
/-!
# An accepted specification tiles the tensor

A specification names, for each axis of a tensor, the mesh axis that splits it.  One that the check accepts is an even
splitting (`even_of_acceptsSpec`).  The part of a process is then the block of its position (`localShard_eq`), and the
blocks of all positions lie over the tensor like tiles: **every point is in as many of them as there are places on the
mesh axes that the mapping does not use** (`countP_holds_blockAt`).

The count goes along the mesh axes.  Under a prefix of coordinates, a mesh axis that is not used repeats the blocks as
often as it is long, and one that is used puts every point of the prefix into one of its parts.
-/

namespace TensorKit

open Distributed Position Tensor List Block Int LocalShard Value

variable {cs : List Nat} {m : ProcessMesh} {i : Int}
variable {p : List Int} {spec : List Value} {k : Nat} {processes rank : Value}

/-! ## 1. How often a point is covered -/

namespace Distributed

variable {mesh : List Nat} {mapping : List Int} {sizes : List Nat}

/-- How many places there are on the mesh axes from `j` on that a mapping does not use; `rest` are their sizes. -/
def unusedFrom (mapping : List Int) (j : Nat) (rest : List Nat) : Nat :=
  volume (((rest.zipIdx j).filter fun x => decide ((x.2 : Int) ∉ mapping)).map Prod.fst)

theorem unusedFrom_cons (mapping : List Int) (j d : Nat) (rest : List Nat) : unusedFrom mapping j (d :: rest)
      = if (j : Int) ∈ mapping then unusedFrom mapping (j + 1) rest else d * unusedFrom mapping (j + 1) rest := by
  by_cases hj : (j : Int) ∈ mapping <;> simp [unusedFrom, hj, volume]

theorem countP_firstParts_succ (h : Even mesh mapping sizes) {i d q : Nat}
    (hx : SplitAxis mesh mapping sizes cs.length i d q) (k : Nat) (p : List Int) :
    [firstParts mesh mapping sizes cs i q (k + 1)].countP (holds · p)
      = [firstParts mesh mapping sizes cs i q k].countP (holds · p)
        + [blockAt mesh mapping sizes (cs ++ [k])].countP (holds · p) := by
  have hle : k * q ≤ (k + 1) * q := Nat.mul_le_mul_right q (Nat.le_succ k)
  have hjoin := countP_holds_join (l := 0) (m := (k * q : Nat)) (r := ((k + 1) * q : Nat)) (by omega) (by omega)
    ((blockAt mesh mapping sizes cs).drop (i + 1)) ((blockAt mesh mapping sizes cs).take i) p
  rwa [blockAt_snoc h hx, firstParts, firstParts, hx.set_blockAt h, hx.set_blockAt h, hx.set_blockAt h]

/-- **One mesh axis that is used.**  If the blocks under each part hold a point `n` times as often as the part, the
blocks under all parts hold it `n` times as often as the whole axis. -/
theorem countP_parts (h : Even mesh mapping sizes) {i d q : Nat} (hx : SplitAxis mesh mapping sizes cs.length i d q)
    {n : Nat} {f : Nat → List Block}
    (hf : ∀ a, (f a).countP (holds · p) = [blockAt mesh mapping sizes (cs ++ [a])].countP (holds · p) * n) :
    ∀ k, ((List.range (k + 1)).flatMap f).countP (holds · p)
      = [firstParts mesh mapping sizes cs i q (k + 1)].countP (holds · p) * n
  | 0 => by
    rw [firstParts_one h hx, ← hf 0]
    simp
  | k + 1 => by
    have ih := countP_parts h hx hf k
    rw [range_succ, flatMap_append, countP_append, ih, countP_firstParts_succ h hx (k + 1), Nat.add_mul,
      ← hf (k + 1)]
    simp

/-- **How often the blocks under a prefix hold a point**: as often as the block of the prefix, once for each place on
the later mesh axes that are not used.  By induction on the later mesh axes. -/
theorem countP_leaves (h : Even mesh mapping sizes) (p : List Int) : ∀ rest cs,
    mesh.drop cs.length = rest → (leaves mesh mapping sizes cs rest).countP (holds · p)
      = [blockAt mesh mapping sizes cs].countP (holds · p) * unusedFrom mapping cs.length rest
  | [], cs, _ => by
    simp [leaves_nil, unusedFrom, volume]
  | s :: rest, cs, hdrop => by
    obtain ⟨hget, hrest⟩ := drop_length_cons hdrop
    have ih : ∀ a, (leaves mesh mapping sizes (cs ++ [a]) rest).countP (holds · p)
        = [blockAt mesh mapping sizes (cs ++ [a])].countP (holds · p)
          * unusedFrom mapping (cs.length + 1) rest := by
      intro a
      simpa using countP_leaves h p rest (cs ++ [a]) (hrest a)
    rw [leaves_cons, unusedFrom_cons]
    by_cases hc : (cs.length : Int) ∈ mapping
    · obtain ⟨i, d, q, hx⟩ := h.exists_splitAxis hc
      obtain rfl : d = s := by simpa using hx.extent.symm.trans hget
      have hparts := countP_parts h hx ih (d - 1)
      rw [Nat.sub_add_cancel hx.d_pos, firstParts_all h hx] at hparts
      rw [hparts, if_pos hc]
    · have hsame : (List.range s).map
            ((List.countP (holds · p)) ∘ fun a => leaves mesh mapping sizes (cs ++ [a]) rest)
          = (List.range s).map fun _ =>
              [blockAt mesh mapping sizes cs].countP (holds · p) * unusedFrom mapping (cs.length + 1) rest :=
        map_congr_left fun a _ => by rw [Function.comp_apply, ih a, blockAt_snoc_of_notMem h hc]
      rw [countP_flatMap, hsame, map_const', sum_replicate, if_neg hc, length_range, smul_eq_mul]
      ring

def IsPoint (sizes : List Nat) (p : List Int) : Prop :=
  Forall₂ (fun (x : Int) (n : Nat) => 0 ≤ x ∧ x < (n : Int)) p sizes

theorem holds_wholeBlock {sizes : List Nat} {p : List Int} (h : IsPoint sizes p) : holds (wholeBlock sizes) p := by
  induction h with
  | nil => rfl
  | cons hx _ ih =>
    simp only [wholeBlock, map_cons, holds, Bool.and_eq_true] at ih ⊢
    exact ⟨by simp [Span.holds, hx.1, hx.2], ih⟩

/-- **Every point of the tensor is in as many blocks as there are places on the unused mesh axes.** -/
theorem countP_holds_blockAt (h : Even mesh mapping sizes) (hp : IsPoint sizes p) :
    ((positions mesh).map (blockAt mesh mapping sizes)).countP (holds · p) = unusedFrom mapping 0 mesh := by
  have hcount := countP_leaves h p mesh [] (by simp)
  rw [blockAt_nil h] at hcount
  simpa [leaves, holds_wholeBlock hp] using hcount

/-! ## 2. What is accepted is an even splitting -/

namespace ProcessMesh

theorem acceptsMapping_toValue (m : ProcessMesh) (mapping : List Int) :
    m.acceptsMapping (toValue mapping) = .ok ((mapping.all fun e => decide (-1 ≤ e) && decide (e < m.shape.length)) &&
      (List.range m.shape.length).all fun i : Nat => mapping.count (i : Int) ≤ 1) := by
  have hints : (mapping.map int).mapM int? = some mapping := by
    rw [mapM_map]
    simpa using mapM_eq_some (f := int? ∘ int) (g := id) fun x (_ : x ∈ mapping) => rfl
  have hval : toValue mapping = .list (mapping.map int) := rfl
  simp only [acceptsMapping, hval, members, ok_bind, hints]
  rfl

/-- What the check of a specification has found when it accepts: the mapping has an entry for each axis, its entries
are mesh axes or none, no mesh axis has two, and positive sizes are multiples of the sizes of their mesh axes. -/
theorem exists_of_acceptsSpec {sizes : List Int} (h : m.acceptsSpec spec sizes = .ok true) :
    ∃ mapping, m.mappingOf spec = .ok mapping ∧
      mapping.length = sizes.length ∧ (∀ e ∈ mapping, -1 ≤ e ∧ e < m.shape.length) ∧
      (∀ i < m.shape.length, mapping.count (i : Int) ≤ 1) ∧
      ∀ x ∈ mapping.zip sizes, x.1 ≠ -1 → 0 < x.2 → ∃ d, pick m.shape x.1 = .ok d ∧ x.2 % (d : Int) = 0 := by
  rw [acceptsSpec] at h
  obtain ⟨names, -, h⟩ := of_bind_eq_ok h
  split at h
  · cases h
  rename_i hlen
  simp only at h
  split at h
  · cases h
  obtain ⟨mapping, hmapping, accepted, haccepted, h⟩ := of_bind₂_eq_ok h
  split at h
  · cases h
  rename_i htrue
  obtain ⟨fits, hfits, hall⟩ := of_bind_eq_ok h
  have hspec : spec.length = mapping.length := by
    rw [mappingOf] at hmapping
    obtain ⟨_, -, hmapping⟩ := of_bind_eq_ok hmapping
    exact (forall₂_of_mapM_eq_ok hmapping).length_eq
  obtain ⟨hrange, hcount⟩ : (∀ e ∈ mapping, -1 ≤ e ∧ e < m.shape.length) ∧
      ∀ i < m.shape.length, mapping.count (i : Int) ≤ 1 := by
    rw [acceptsMapping_toValue, Except.ok.injEq] at haccepted
    have hyes : accepted := by simpa using htrue
    rw [hyes] at haccepted
    simpa using haccepted
  refine ⟨mapping, hmapping, ?_, hrange, hcount, ?_⟩
  · simp only [ne_eq, Decidable.not_not] at hlen
    omega
  · rintro ⟨e, n⟩ hx hne hpos
    have hfit := eq_ok_true_of_mapM hfits (Except.ok.inj hall) (e, n) hx
    have hguard : (decide (e = -1) || decide (n ≤ 0)) = false := by
      simp only [Bool.or_eq_false_iff, decide_eq_false_iff_not]
      exact ⟨hne, by omega⟩
    simp only [hguard, Bool.false_eq_true, if_false] at hfit
    obtain ⟨d, hd, hmod⟩ := of_bind_eq_ok hfit
    exact ⟨d, hd, by simpa [pure_eq_ok] using hmod⟩

/-- **An accepted specification is an even splitting**, for a mesh and a tensor of positive sizes. -/
theorem even_of_acceptsSpec (hmesh : ∀ d ∈ m.shape, 0 < d)
    (hsizes : ∀ n ∈ sizes, 0 < n) (h : m.acceptsSpec spec (sizes.map ofNat) = .ok true) :
    ∃ mapping, m.mappingOf spec = .ok mapping ∧ Even m.shape mapping sizes := by
  obtain ⟨mapping, hmapping, hlen, hrange, hcount, hfits⟩ := exists_of_acceptsSpec h
  have hentries : ∀ e ∈ mapping, e = Mapping.replicated ∨ ∃ j < m.shape.length, e = (j : Int) := by
    intro e he
    obtain ⟨hlo, hhi⟩ := hrange e he
    by_cases hneg : e = Mapping.replicated
    · exact Or.inl hneg
    · simp only [Mapping.replicated] at hneg
      exact Or.inr ⟨e.toNat, by omega, by omega⟩
  refine ⟨mapping, hmapping, hmesh, by simpa using hlen, hentries, ?_, ?_⟩
  · refine nodup_iff_count_le_one.mpr fun e => ?_
    by_cases he : e ∈ mapping.filter (· ≠ Mapping.replicated)
    · obtain ⟨hmem, hne⟩ := mem_filter.mp he
      obtain ⟨j, hj, rfl⟩ := (hentries e hmem).resolve_left (by simpa using hne)
      exact (filter_sublist.count_le (j : Int)).trans (hcount j hj)
    · rw [count_eq_zero_of_not_mem he]
      exact Nat.zero_le 1
  · rintro ⟨n, e⟩ hp hne
    obtain ⟨j, hj, rfl⟩ := (hentries e (of_mem_zip hp).2).resolve_left hne
    have hzip : ((j : Int), (n : Int)) ∈ mapping.zip (sizes.map ofNat) := by
      rw [zip_map_right]
      refine mem_map.mpr ⟨((j : Int), n), ?_, rfl⟩
      rw [← zip_swap]
      exact mem_map.mpr ⟨(n, (j : Int)), hp, rfl⟩
    have hn : 0 < n := hsizes n (of_mem_zip hp).1
    obtain ⟨d, hd, hmod⟩ := hfits _ hzip hne (by simpa using hn)
    have hget := getElem?_eq_getElem hj
    rw [pick_natCast hget, Except.ok.injEq] at hd
    have hext : m.shape.getD j 1 = d := by rw [getD_eq_getElem?_getD, hget, ← hd]; rfl
    rw [toNat_natCast, hext]
    exact ⟨hn, natCast_dvd_natCast.mp (dvd_of_emod_eq_zero hmod)⟩

end ProcessMesh

/-! ## 3. The part of a process -/

namespace LocalShard

variable {group : List Int}

theorem sizesOf_natCast (hmap : IsMapping mesh mapping) (hlen : sizes.length ≤ mapping.length) :
    sizesOf (mesh.map ofNat) (sizes.map ofNat) mapping
      = .ok ((zipWith (partSize mesh) sizes mapping).map ofNat) := by
  have hshort : (sizes.map ofNat).length ≤ mapping.length := by simpa using hlen
  have hpart := partShape_natCast hmap hlen
  rw [partShape] at hpart
  rw [sizesOf, take_of_length_le hshort, drop_of_length_le hshort, hpart]
  simp

theorem offsetsOf_eq_spans (cs : List Int) : ∀ part mapping : List Int,
    offsetsOf cs part mapping = (spans cs part mapping).map (List.map Span.lo)
  | [], _ => rfl
  | _ :: _, [] => rfl
  | n :: ns, m :: ms => by
    have ih := offsetsOf_eq_spans cs ns ms
    rw [offsetsOf, spans] at ih ⊢
    rw [Mapping.eachAxis, Mapping.eachAxis, ih, Mapping.onAxis, Mapping.onAxis]
    split <;> cases pick cs m <;> cases Mapping.eachAxis _ _ cs ns ms <;> rfl

theorem zip_offsets (hc : cs.length = mesh.length) : ∀ (sizes : List Nat) {mapping : List Int},
    (∀ m ∈ mapping, IsEntry mesh m) → ((((blockAt mesh mapping sizes cs).map Span.lo).zip
        ((zipWith (partSize mesh) sizes mapping).map ofNat)).map fun x => (x.1, x.1 + x.2))
      = (blockAt mesh mapping sizes cs).map fun s => (s.lo, s.hi)
  | [], _, _ => rfl
  | _ :: _, [], _ => rfl
  | n :: ns, m :: ms, h => by
    obtain ⟨hm, hr⟩ := forall_mem_cons.mp h
    have ih := zip_offsets hc ns hr
    rw [blockAt] at ih
    simp only [blockAt, zipWith_cons_cons, map_cons, zip_cons_cons, ih, hm.spanAt_eq hc]
    simp [Nat.succ_mul]

/-- **The part of a process is the block of its position**, its spans as pairs. -/
theorem shard_eq (hmap : IsMapping mesh mapping) (hlen : sizes.length ≤ mapping.length)
    (hk : group.idxOf? i = some k) (hlt : k < volume mesh) :
    shard (sizes.map ofNat) mapping (mesh.map ofNat) group i
      = .ok ((blockAt mesh mapping sizes (position mesh k)).map fun s => (s.lo, s.hi)) := by
  have hclen := length_position mesh k
  simp only [shard, offsets, sizesOf_natCast hmap hlen, find, hk, demand_some, Coordinate.position_natCast hlt,
    offsetsOf_eq_spans, spans_natCast hclen hmap.entries hlen, Except.map, liftM_ok, liftM_twice_ok, ok_bind, pure_eq_ok,
    zip_offsets hclen sizes hmap.entries]

/-- Data that stands for whole numbers not below a bound passes its check. -/
theorem wholes?_map {least : Int} {f : Int → Value} {xs : List Int} (h : ∀ x ∈ xs, (f x).int? = some x ∧ least ≤ x) :
    wholes? least (.list (xs.map f)) = some xs := by
  rw [wholes?, mapM_map]
  refine (mapM_eq_some fun x hx => ?_).trans (by rw [map_id])
  simp [(h x hx).1, (h x hx).2]

/-- Data whose numbers pass their checks is accepted for every process. -/
theorem check_eq {sizes mapping topology : Value} {s m t : List Int} (hs : wholes? 0 sizes = some s)
    (hm : wholes? (-1) mapping = some m) (hp : wholes? 0 processes = some p) (ht : wholes? 1 topology = some t)
    (hrank : rank.int? = some i) (hi : 0 ≤ i) :
    check sizes mapping topology processes rank .null = .ok ⟨s, m, t, p⟩ := by
  have hnotneg : ¬ i < 0 := by omega
  cases rank with
  | int j =>
    obtain rfl : j = i := by simpa [int?] using hrank
    simp [check, hs, hm, hp, ht, int?, hnotneg, pure_eq_ok]
  | bool b => simp [check, hs, hm, hp, ht, hrank, hnotneg, pure_eq_ok]
  | _ => simp [int?] at hrank

theorem check_natCast (sizes : List Nat) (hmap : IsMapping mesh mapping) (hgroup : wholes? 0 processes = some group)
    (hrank : rank.int? = some i) (hi : 0 ≤ i) :
    check (toValue (sizes.map ofNat)) (toValue mapping) (toValue (mesh.map ofNat)) processes rank .null
      = .ok ⟨sizes.map ofNat, mapping, mesh.map ofNat, group⟩ := by
  refine check_eq (wholes?_map fun x hx => ⟨rfl, ?_⟩) (wholes?_map fun x hx => ⟨rfl, ?_⟩) hgroup
    (wholes?_map fun x hx => ⟨rfl, ?_⟩) hrank hi
  · obtain ⟨n, -, rfl⟩ := mem_map.mp hx
    exact natCast_nonneg n
  · rcases hmap.entries x hx with rfl | ⟨j, -, rfl⟩
    · exact le_refl _
    · omega
  · obtain ⟨d, hd, rfl⟩ := mem_map.mp hx
    have := hmap.mesh_pos d hd
    simp only [ofNat_eq_natCast]
    omega

/-- **The part of a process, from data**, is the block of its position. -/
theorem localShard_natCast (hmap : IsMapping mesh mapping) (hlen : sizes.length ≤ mapping.length)
    (hgroup : wholes? 0 processes = some group) (hrank : rank.int? = some i) (hi : 0 ≤ i)
    (hk : group.idxOf? i = some k) (hlt : k < volume mesh) :
    localShard (toValue (sizes.map ofNat)) (toValue mapping) (toValue (mesh.map ofNat)) processes rank none
      = .ok ((blockAt mesh mapping sizes (position mesh k)).map fun s => (s.lo, s.hi)) := by
  have hcheck := check_natCast sizes hmap hgroup hrank hi
  have hshard := shard_eq hmap hlen hk hlt
  simp only [localShard, Option.getD_none, hcheck, sizesOf_natCast hmap hlen, rankOf, hrank, ok_bind]
  exact hshard

end LocalShard

/-! ## 4. Tiling -/

namespace ProcessMesh

/-- A mesh of positive sizes with a process for each of its places, distinct and not below zero.  Where truth values
stand for the processes, these are zero and one. -/
structure WellFormed (m : ProcessMesh) : Prop where
  sizes_pos : ∀ d ∈ m.shape, 0 < d
  count : m.ids.length = volume m.shape
  distinct : m.ids.Nodup
  nonneg : ∀ i ∈ m.ids, 0 ≤ i
  truth : m.truths → ∀ i ∈ m.ids, i = 0 ∨ i = 1

/-- The data that stands for a process stands for its number. -/
theorem WellFormed.int?_idValue (hm : m.WellFormed) (hi : i ∈ m.ids) :
    (if m.truths then bool (i != 0) else int i).int? = some i := by
  cases htruth : m.truths with
  | false => rfl
  | true => rcases hm.truth htruth i hi with rfl | rfl <;> rfl

theorem WellFormed.localShard_eq (hm : m.WellFormed) (h : Even m.shape mapping sizes) (hi : i ∈ m.ids) :
    localShard (toValue (sizes.map ofNat)) (toValue mapping) (toValue m.sizes) (.list m.idValues)
        (if m.truths then .bool (i != 0) else .int i) none
      = .ok ((blockAt m.shape mapping sizes (position m.shape (m.ids.idxOf i))).map fun s => (s.lo, s.hi)) := by
  have hlt : m.ids.idxOf i < volume m.shape := hm.count ▸ idxOf_lt_length_iff.mpr hi
  have hids : wholes? 0 (.list m.idValues) = some m.ids := wholes?_map fun x hx => ⟨hm.int?_idValue hx, hm.nonneg x hx⟩
  exact localShard_natCast ⟨hm.sizes_pos, h.entries⟩ h.axes.ge hids (hm.int?_idValue hi) (hm.nonneg i hi)
    (idxOf?_of_getElem? hm.distinct (getElem?_idxOf hi)) hlt

def holdsPoint (m : ProcessMesh) (mapping : List Int) (sizes : List Nat) (point : List Int) (rank : Value) : Bool :=
  match LocalShard.localShard (toValue (sizes.map Int.ofNat)) (toValue mapping) (toValue m.sizes) (.list m.idValues)
      rank none with
  | .ok box => Block.holds (box.map fun x => ⟨x.1, x.2⟩) point
  | .error _ => false

/-- **An accepted specification tiles the tensor.**  For a well-formed mesh, a tensor of positive sizes and a
specification that is accepted: the specification stands for a mapping; every process has a part, and all parts have the
same lengths; and every point of the tensor is in the parts of as many processes as there are places on the mesh axes
that do not occur in the mapping. -/
theorem acceptsSpec_tiles {m : ProcessMesh} (hm : m.WellFormed) {spec : List Value} {sizes : List Nat}
    (hsizes : ∀ n ∈ sizes, 0 < n) (h : m.acceptsSpec spec (sizes.map Int.ofNat) = .ok true) :
    ∃ mapping lengths, m.mappingOf spec = .ok mapping ∧
      (∀ rank ∈ m.idValues, ∃ box, LocalShard.localShard (toValue (sizes.map Int.ofNat)) (toValue mapping)
          (toValue m.sizes) (.list m.idValues) rank none = .ok box ∧ box.map (fun x => x.2 - x.1) = lengths) ∧
      ∀ point, IsPoint sizes point →
        m.idValues.countP (m.holdsPoint mapping sizes point) = unusedFrom mapping 0 m.shape := by
  obtain ⟨mapping, hmapping, heven⟩ := even_of_acceptsSpec hm.sizes_pos hsizes h
  refine ⟨mapping, (zipWith (partSize m.shape) sizes mapping).map Int.ofNat, hmapping, ?_, ?_⟩
  · intro rank hrank
    obtain ⟨i, hi, rfl⟩ := mem_map.mp hrank
    refine ⟨_, hm.localShard_eq heven hi, ?_⟩
    rw [map_map]
    exact lengths_blockAt (length_position _ _) heven.forall₂
  · intro point hpoint
    rw [← countP_holds_blockAt heven hpoint, ← map_position_idxOf hm.distinct hm.count, map_map, countP_map,
      idValues, countP_map]
    exact countP_congr fun i hi => by simp [holdsPoint, hm.localShard_eq heven hi, Function.comp_def]

def layers : ProcessMesh := ⟨[2, 1, 3], [4, 2, 0, 1, 3, 5], .list [.str "x", .str "y", .str "z"], false⟩

/-- On the layers, `z` splits the first axis in three and `y`, with one place, splits nothing; every point is held once
in each layer. -/
theorem acceptsSpec_tiles_layers : layers.mappingOf [.str "z", .null, .str "y"] = .ok [2, -1, -1] ∧
    (∀ rank ∈ layers.idValues, ∃ box, LocalShard.localShard (toValue ([6, 5, 4].map Int.ofNat))
        (toValue [2, (-1 : Int), -1]) (toValue layers.sizes) (.list layers.idValues) rank none = .ok box ∧
      box.map (fun x => x.2 - x.1) = [2, 5, 4]) ∧
    layers.idValues.countP (layers.holdsPoint [2, -1, -1] [6, 5, 4] [3, 0, 1]) = 2 := by
  have hwell : layers.WellFormed := ⟨by decide, by decide, by decide, by decide, by decide⟩
  have haccepts : layers.acceptsSpec [.str "z", .null, .str "y"] ([6, 5, 4].map Int.ofNat) = .ok true := rfl
  have hmapping : layers.mappingOf [.str "z", .null, .str "y"] = .ok [2, -1, -1] := rfl
  obtain ⟨mapping, lengths, hmap, hparts, hcount⟩ := acceptsSpec_tiles hwell (by decide) haccepts
  obtain rfl : [2, -1, -1] = mapping := Except.ok.inj (hmapping.symm.trans hmap)
  have hlengths : [2, 5, 4] = lengths := by
    obtain ⟨box, hbox, hlen⟩ := hparts (.int 4) (by simp [layers, idValues])
    obtain rfl : [(0, 2), (0, 5), (0, 4)] = box := Except.ok.inj hbox
    exact hlen
  rw [hlengths]
  exact ⟨hmapping, hparts, hcount [3, 0, 1] (by simp [IsPoint])⟩

end ProcessMesh

end Distributed

end TensorKit
