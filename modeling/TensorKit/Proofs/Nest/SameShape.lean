import TensorKit.Nest.Same
import TensorKit.Proofs.Nest.Structures
/-!
# The check of two shapes

Two structures have the same shape if both are leaves, or if they are of one class, have equally many items or the same
keys, and corresponding parts have the same shape (`SameShape`).  The check compares how many leaves they have, and then
walks through both at once: it passes if the structures are the same, without their parts, wherever a path leads in both
(`checkShape_iff`).

The walk goes as far as the shorter of two sequences, and nowhere are their lengths compared.  So the check misses
differences in how many items sequences have, if the leaves that one structure lacks at one place are made up for at
another, and it misses no others (`checkSame_finds`).
-/

namespace TensorKit.Nest

open List

variable {a b : Value} {P : Value → Value → Prop} {R : Value → Value → Prop} {step : Step}
variable {xs ys : List Value} {k x v : Value} {ps qs : Fields}

/-! ## 1. Shapes -/

/-- Two structures have the same shape: both are leaves, or they are of one class with equally many items or with the
same keys, and corresponding parts have the same shape. -/
inductive SameShape : Value → Value → Prop
  | leaf {a b : Value} : isBranch a = false → isBranch b = false → SameShape a b
  | list {xs ys : List Value} : xs.length = ys.length →
      (∀ (i : Nat) x y, xs[i]? = some x → ys[i]? = some y → SameShape x y) → SameShape (.list xs) (.list ys)
  | tuple {xs ys : List Value} : xs.length = ys.length →
      (∀ (i : Nat) x y, xs[i]? = some x → ys[i]? = some y → SameShape x y) → SameShape (.tuple xs) (.tuple ys)
  | labelled {kind : TupleClass} {xs ys : List Value} : xs.length = ys.length →
      (∀ (i : Nat) x y, xs[i]? = some x → ys[i]? = some y → SameShape x y) →
      SameShape (.labelled kind xs) (.labelled kind ys)
  | table {ps qs : Pairs} :
      (∀ k, (Value.lookup (.str k) ps).isSome ↔ (Value.lookup (.str k) qs).isSome) →
      (∀ k x y, Value.lookup (.str k) ps = some x → Value.lookup (.str k) qs = some y → SameShape x y) →
      SameShape (.dict ps) (.dict qs)

/-- Two structures are the same without their parts: both are leaves, or they are of one class, and tables have the same
keys. -/
inductive SameNode : Value → Value → Prop
  | leaf {a b : Value} : isBranch a = false → isBranch b = false → SameNode a b
  | list {xs ys : List Value} : SameNode (.list xs) (.list ys)
  | tuple {xs ys : List Value} : SameNode (.tuple xs) (.tuple ys)
  | labelled {kind : TupleClass} {xs ys : List Value} : SameNode (.labelled kind xs) (.labelled kind ys)
  | table {ps qs : Pairs} :
      (∀ k, (Value.lookup (.str k) ps).isSome ↔ (Value.lookup (.str k) qs).isSome) → SameNode (.dict ps) (.dict qs)

def itemCount : Value → Nat
  | .list xs | .tuple xs | .labelled _ xs => xs.length
  | _ => 0

/-- A relation holds wherever a path leads in both structures. -/
def Everywhere (R : Value → Value → Prop) (a b : Value) : Prop :=
  ∀ path x y, follow path a = some x → follow path b = some y → R x y

theorem itemCount_of_isBranch (h : isBranch v = false) : itemCount v = 0 := by cases v <;> first | rfl | cases h

theorem child_of_isBranch (h : isBranch v = false) : child step v = none := by
  cases step <;> cases v <;> first | rfl | cases h

theorem forall_child_iff (hxs : ∀ i, child (.item i) a = xs[i]? := by intro; rfl)
    (hys : ∀ i, child (.item i) b = ys[i]? := by intro; rfl) (hkey : ∀ k, child (.key k) a = none := by intro; rfl) :
    (∀ (i : Nat) x y, xs[i]? = some x → ys[i]? = some y → P x y) ↔
      ∀ step x y, child step a = some x → child step b = some y → P x y := by
  constructor
  · intro h step x y hx hy
    cases step with
    | item i => exact h i x y ((hxs i).symm.trans hx) ((hys i).symm.trans hy)
    | key k => cases (hkey k).symm.trans hx
  · intro h i x y hx hy
    exact h (.item i) x y ((hxs i).trans hx) ((hys i).trans hy)

theorem everywhere_iff : Everywhere R a b ↔ R a b ∧
    ∀ step x y, child step a = some x → child step b = some y → Everywhere R x y := by
  constructor
  · intro h
    refine ⟨h [] a b rfl rfl, fun step x y hx hy path u v hu hv => h (step :: path) u v ?_ ?_⟩
    · rwa [follow, hx]
    · rwa [follow, hy]
  · rintro ⟨hnode, hparts⟩ path u v hu hv
    cases path with
    | nil =>
      obtain rfl : a = u := Option.some.inj hu
      obtain rfl : b = v := Option.some.inj hv
      exact hnode
    | cons step path =>
      obtain ⟨x, hx, hu⟩ := Option.bind_eq_some_iff.mp hu
      obtain ⟨y, hy, hv⟩ := Option.bind_eq_some_iff.mp hv
      exact hparts step x y hx hy path u v hu hv

/-- Structures have the same shape if they are the same without their parts, sequences have equally many items, and
corresponding parts have the same shape. -/
theorem sameShape_iff_child : SameShape a b ↔ SameNode a b ∧ itemCount a = itemCount b ∧
    ∀ step x y, child step a = some x → child step b = some y → SameShape x y := by
  constructor
  · intro h
    cases h with
    | leaf ha hb =>
      refine ⟨.leaf ha hb, ?_, fun step x y hx _ => ?_⟩
      · rw [itemCount_of_isBranch ha, itemCount_of_isBranch hb]
      · cases (child_of_isBranch ha).symm.trans hx
    | list hlen h => exact ⟨.list, hlen, (forall_child_iff ..).mp h⟩
    | tuple hlen h => exact ⟨.tuple, hlen, (forall_child_iff ..).mp h⟩
    | labelled hlen h => exact ⟨.labelled, hlen, (forall_child_iff ..).mp h⟩
    | table hkeys h =>
      refine ⟨.table hkeys, rfl, fun step x y hx hy => ?_⟩
      cases step with
      | item i => cases hx
      | key k => exact h k x y hx hy
  · rintro ⟨hnode, hitems, h⟩
    cases hnode with
    | leaf ha hb => exact .leaf ha hb
    | list => exact .list hitems fun i => h (.item i)
    | tuple => exact .tuple hitems fun i => h (.item i)
    | labelled => exact .labelled hitems fun i => h (.item i)
    | table hkeys => exact .table hkeys fun k => h (.key k)

/-! ## 2. Keys -/

theorem isSome_lookup_keyed (k : String) (ps : Fields) :
    (Value.lookup (.str k) (keyed ps)).isSome ↔ k ∈ ps.map Prod.fst := by
  induction ps with
  | nil => simp [keyed, Value.lookup]
  | cons p ps ih =>
    rw [lookup_keyed_cons, map_cons, mem_cons]
    by_cases h : p.1 = k
    · simp [h]
    · rw [if_neg h, ih, or_iff_right (Ne.symm h)]

theorem lookup_keyed_iff {k : String} : ∀ {ps}, (ps.map Prod.fst).Nodup →
    (Value.lookup (.str k) (keyed ps) = some x ↔ (k, x) ∈ ps)
  | [], _ => by simp [keyed, Value.lookup]
  | p :: ps, h => by
    obtain ⟨hnew, hrest⟩ := nodup_cons.mp h
    rw [lookup_keyed_cons, mem_cons]
    by_cases hk : p.1 = k
    · have hpair : (k, x) ∉ ps := fun hmem => hnew (hk ▸ mem_map_of_mem hmem)
      rw [if_pos hk, or_iff_left hpair, Prod.ext_iff, Option.some.injEq]
      simp [hk, eq_comm]
    · rw [if_neg hk, lookup_keyed_iff hrest, or_iff_right]
      rintro rfl
      exact hk rfl

section Keys

variable (hps : (ps.map Prod.fst).Nodup)
include hps

theorem sameKeys_keyed : sameKeys (keyed ps) (keyed qs) ↔ (ps.map Prod.fst).Perm (qs.map Prod.fst) := by
  have hsub : (keyed ps).all (fun p => (keyed qs).any fun q => Value.same p.1 q.1) ↔
      ps.map Prod.fst ⊆ qs.map Prod.fst := by
    simp only [keyed, all_map, any_map, Function.comp_def, Value.same, all_eq_true, any_eq_true,
      beq_iff_eq, subset_def, mem_map, forall_exists_index, and_imp, forall_apply_eq_imp_iff₂]
    exact forall₂_congr fun p _ => exists_congr fun q => and_congr_right fun _ => eq_comm
  rw [sameKeys, Bool.and_eq_true, hsub, beq_iff_eq, keyed, keyed, length_map, length_map]
  constructor
  · rintro ⟨hlen, hsub⟩
    exact (subperm_of_subset hps hsub).perm_of_length_le (by simp [hlen])
  · intro hperm
    exact ⟨by simpa using hperm.length_eq, hperm.subset⟩

variable (hqs : (qs.map Prod.fst).Nodup)
include hqs

theorem perm_keys_iff : (ps.map Prod.fst).Perm (qs.map Prod.fst) ↔
    ∀ k, (Value.lookup (.str k) (keyed ps)).isSome ↔ (Value.lookup (.str k) (keyed qs)).isSome := by
  simp only [isSome_lookup_keyed]
  exact perm_ext_iff_of_nodup hps hqs

theorem inOrder_keys_eq (h : (ps.map Prod.fst).Perm (qs.map Prod.fst)) :
    (inOrder ps).map Prod.fst = (inOrder qs).map Prod.fst := by
  refine Perm.eq_of_pairwise (fun j k _ _ hjk hkj => absurd hkj hjk.not_gt)
    (pairwise_map.mpr (pairwise_inOrder hps)) (pairwise_map.mpr (pairwise_inOrder hqs)) ?_
  exact ((inOrder_perm ps).map _).trans (h.trans ((inOrder_perm qs).map _).symm)

end Keys

/-! ## 3. Corresponding parts -/

def partsOf (v : Value) : List Value := (parts v).toOption.getD []

theorem Structure.parts_eq (h : Structure v) : parts v = .ok (partsOf v) := by
  cases h with
  | @leaf v h => cases v <;> first | rfl | cases h
  | list h => rfl
  | tuple h => rfl
  | labelled hlen h => rfl
  | table hnd h =>
    rw [partsOf, parts, sortKeys_keyed hnd]
    rfl

theorem partsOf_of_isBranch (h : isBranch v = false) : partsOf v = [] := by cases v <;> first | rfl | cases h

theorem partsOf_table (hnd : (ps.map Prod.fst).Nodup) :
    partsOf (.dict (keyed ps)) = (inOrder ps).map Prod.snd := by
  rw [partsOf, parts, sortKeys_keyed hnd]
  show ((keyed (inOrder ps)).map Prod.snd) = _
  rw [keyed, map_map]
  rfl

theorem forall_zip_iff :
    (∀ p ∈ xs.zip ys, P p.1 p.2) ↔ ∀ (i : Nat) x y, xs[i]? = some x → ys[i]? = some y → P x y := by
  constructor
  · intro h i x y hx hy
    exact h (x, y) (mem_iff_getElem?.mpr ⟨i, getElem?_zip_eq_some.mpr ⟨hx, hy⟩⟩)
  · intro h p hp
    obtain ⟨i, hi⟩ := mem_iff_getElem?.mp hp
    obtain ⟨hx, hy⟩ := getElem?_zip_eq_some.mp hi
    exact h i p.1 p.2 hx hy

/-- In the order of the keys, values under one key correspond. -/
theorem forall_zip_inOrder_iff
    (hps : (ps.map Prod.fst).Nodup) (hqs : (qs.map Prod.fst).Nodup) (h : (ps.map Prod.fst).Perm (qs.map Prod.fst)) :
    (∀ p ∈ ((inOrder ps).map Prod.snd).zip ((inOrder qs).map Prod.snd), P p.1 p.2) ↔
      ∀ k x y, (k, x) ∈ ps → (k, y) ∈ qs → P x y := by
  have hkeys := inOrder_keys_eq hps hqs h
  have hnd : ((inOrder ps).map Prod.fst).Nodup := ((inOrder_perm ps).map _).nodup_iff.mpr hps
  rw [forall_zip_iff]
  constructor
  · intro hall k x y hx hy
    obtain ⟨i, hi⟩ := mem_iff_getElem?.mp (mem_inOrder.mpr hx)
    obtain ⟨j, hj⟩ := mem_iff_getElem?.mp (mem_inOrder.mpr hy)
    have hki : ((inOrder ps).map Prod.fst)[i]? = some k := by rw [getElem?_map, hi]; rfl
    have hkj : ((inOrder ps).map Prod.fst)[j]? = some k := by rw [hkeys, getElem?_map, hj]; rfl
    obtain rfl : i = j := (getElem?_inj (lt_of_getElem? hki) hnd).mp (hki.trans hkj.symm)
    refine hall i x y ?_ ?_
    · rw [getElem?_map, hi]; rfl
    · rw [getElem?_map, hj]; rfl
  · intro hall i x y hx hy
    rw [getElem?_map] at hx hy
    obtain ⟨p, hp, rfl⟩ := Option.map_eq_some_iff.mp hx
    obtain ⟨q, hq, rfl⟩ := Option.map_eq_some_iff.mp hy
    have hk : p.1 = q.1 := by simpa [hp, hq] using congrArg (fun l => l[i]?) hkeys
    refine hall p.1 p.2 q.2 (mem_inOrder.mp (mem_of_getElem? hp)) ?_
    rw [hk]
    exact mem_inOrder.mp (mem_of_getElem? hq)

theorem Structure.dict_inv {ps : Pairs} (h : Structure (.dict ps)) :
    ∃ qs, ps = keyed qs ∧ (qs.map Prod.fst).Nodup ∧ ∀ q ∈ qs, Structure q.2 := by
  cases h with
  | leaf h => cases h
  | @table qs hnd h => exact ⟨qs, rfl, hnd, h⟩

/-- Two structures that are the same without their parts have corresponding parts under the same steps. -/
theorem SameNode.forall_zip_iff_child (h : SameNode a b) (ha : Structure a)
    (hb : Structure b) : (∀ p ∈ (partsOf a).zip (partsOf b), P p.1 p.2) ↔
      ∀ step x y, child step a = some x → child step b = some y → P x y := by
  cases h with
  | leaf ha' hb' =>
    rw [partsOf_of_isBranch ha']
    simp [child_of_isBranch ha']
  | list | tuple | labelled => exact forall_zip_iff.trans forall_child_iff
  | table hkeys =>
    obtain ⟨ps, rfl, hps, -⟩ := ha.dict_inv
    obtain ⟨qs, rfl, hqs, -⟩ := hb.dict_inv
    rw [partsOf_table hps, partsOf_table hqs, forall_zip_inOrder_iff hps hqs ((perm_keys_iff hps hqs).mpr hkeys)]
    constructor
    · intro h step x y hx hy
      cases step with
      | item i => cases hx
      | key k => exact h k x y ((lookup_keyed_iff hps).mp hx) ((lookup_keyed_iff hqs).mp hy)
    · intro h k x y hx hy
      exact h (.key k) x y ((lookup_keyed_iff hps).mpr hx) ((lookup_keyed_iff hqs).mpr hy)

theorem Structure.child (h : Structure v) (hx : child step v = some x) : Structure x := by
  cases h with
  | leaf h => cases (child_of_isBranch h).symm.trans hx
  | list h | tuple h | labelled hlen h =>
    cases step with
    | item i => exact h x (mem_of_getElem? hx)
    | key k => cases hx
  | table hnd h =>
    cases step with
    | item i => cases hx
    | key k => exact h _ ((lookup_keyed_iff hnd).mp hx)

theorem depth_le_depthList : ∀ {xs}, x ∈ xs → depth x ≤ depthList xs
  | y :: xs, h => by
    rw [depthList]
    rcases mem_cons.mp h with rfl | h
    · exact Nat.le_max_left _ _
    · exact (depth_le_depthList h).trans (Nat.le_max_right _ _)

theorem depth_le_depthPairs : ∀ {ps}, (k, x) ∈ ps → depth x ≤ depthPairs ps
  | p :: ps, h => by
    rw [depthPairs]
    rcases mem_cons.mp h with rfl | h
    · exact Nat.le_max_left _ _
    · exact (depth_le_depthPairs h).trans (Nat.le_max_right _ _)

theorem mem_of_lookup : ∀ {ps}, Value.lookup k ps = some x → ∃ j, (j, x) ∈ ps
  | (j, v) :: ps, h => by
    rw [Value.lookup] at h
    split at h
    · obtain rfl : v = x := Option.some.inj h
      exact ⟨j, .head _⟩
    · obtain ⟨i, hi⟩ := mem_of_lookup h
      exact ⟨i, .tail _ hi⟩

theorem depth_child (hx : child step v = some x) : depth x < depth v := by
  cases step with
  | item i =>
    cases v with
    | list xs | tuple xs | labelled kind xs => exact Nat.lt_succ_of_le (depth_le_depthList (mem_of_getElem? hx))
    | _ => cases hx
  | key k =>
    cases v with
    | dict ps =>
      obtain ⟨j, hj⟩ := mem_of_lookup hx
      exact Nat.lt_succ_of_le (depth_le_depthPairs hj)
    | _ => cases hx

theorem depth_pos (v : Value) : 0 < depth v := by cases v <;> exact Nat.succ_pos _

/-! ## 4. The check -/

theorem checkNode_labelled (kind kind' : TupleClass) (xs ys : List Value) :
    checkNode true (.labelled kind xs) (.labelled kind' ys) = .ok () ↔ kind = kind' := by
  constructor
  · intro h
    by_contra hne
    simp [checkNode, isBranch, sameClass, hne] at h
  · rintro rfl
    simp only [checkNode, isBranch, sameClass, beq_self_eq_true]
    rfl

theorem checkNode_dict (ps qs : Pairs) :
    checkNode true (.dict ps) (.dict qs) = .ok () ↔ sameKeys ps qs := by
  simp only [checkNode, isBranch, sameClass]
  cases sameKeys ps qs with
  | false => exact ⟨fun h => (by cases h), nofun⟩
  | true => exact iff_of_true rfl rfl

theorem checkNode_iff (ha : Structure a) (hb : Structure b) : checkNode true a b = .ok () ↔ SameNode a b := by
  constructor
  · intro h
    have hbranch : isBranch a = isBranch b := by
      by_contra hne
      rw [checkNode, if_pos (bne_iff_ne.mpr hne)] at h
      cases h
    cases ha with
    | leaf ha => exact .leaf ha (hbranch ▸ ha)
    | list =>
      cases hb with
      | list => exact .list
      | leaf hb => cases hbranch.trans hb
      | tuple | labelled | table => cases h
    | tuple =>
      cases hb with
      | tuple => exact .tuple
      | leaf hb => cases hbranch.trans hb
      | list | labelled | table => cases h
    | labelled =>
      cases hb with
      | labelled =>
        obtain rfl := (checkNode_labelled ..).mp h
        exact .labelled
      | leaf hb => cases hbranch.trans hb
      | list | tuple | table => cases h
    | table hps =>
      cases hb with
      | table hqs => exact .table ((perm_keys_iff hps hqs).mp ((sameKeys_keyed hps).mp ((checkNode_dict ..).mp h)))
      | leaf hb => cases hbranch.trans hb
      | list | tuple | labelled => cases h
  · intro h
    cases h with
    | leaf ha hb =>
      simp only [checkNode, ha, hb]
      rfl
    | list | tuple => rfl
    | labelled => exact (checkNode_labelled ..).mpr rfl
    | table hkeys =>
      obtain ⟨ps, rfl, hps, -⟩ := ha.dict_inv
      obtain ⟨qs, rfl, hqs, -⟩ := hb.dict_inv
      exact (checkNode_dict ..).mpr ((sameKeys_keyed hps).mpr ((perm_keys_iff hps hqs).mpr hkeys))

/-- **Step lemma.**  Two structures pass the check down to a depth if they are the same without their parts and their
corresponding parts pass it. -/
theorem checkShape_succ {n : Nat} (ha : Structure a) (hb : Structure b) :
    checkShape true (n + 1) a b = .ok () ↔ SameNode a b ∧
      ∀ step x y, child step a = some x → child step b = some y → checkShape true n x y = .ok () := by
  rw [← checkNode_iff ha hb, checkShape, ha.parts_eq, hb.parts_eq]
  cases hnode : checkNode true a b with
  | error e => exact ⟨nofun, fun h => nomatch h.1⟩
  | ok u =>
    rw [← ((checkNode_iff ha hb).mp hnode).forall_zip_iff_child ha hb, and_iff_right rfl]
    cases hbranch : isBranch a with
    | false =>
      rw [partsOf_of_isBranch hbranch]
      exact ⟨fun _ => nofun, fun _ => rfl⟩
    | true =>
      rw [← forIn_eq_ok_iff]
      rfl

/-- **Run lemma.**  Structures pass the check of their whole depth if they are the same everywhere without their
parts. -/
theorem checkShape_iff : ∀ {n a b}, Structure a → Structure b → depth a ≤ n →
    (checkShape true n a b = .ok () ↔ Everywhere SameNode a b)
  | 0, a, _, _, _, hdepth => absurd (depth_pos a) (Nat.not_lt.mpr hdepth)
  | n + 1, a, b, ha, hb, hdepth => by
    rw [checkShape_succ ha hb, everywhere_iff]
    refine and_congr_right fun _ => forall₅_congr fun step x y hx hy => ?_
    exact checkShape_iff (ha.child hx) (hb.child hy) (Nat.le_of_lt_succ ((depth_child hx).trans_le hdepth))

theorem checkSame_iff (ha : Structure a) (hb : Structure b) :
    checkSame a b true = .ok () ↔ count a = count b ∧ Everywhere SameNode a b := by
  rw [checkSame, flatten, flatten, ha.leaves_eq, hb.leaves_eq, ha.count_eq, hb.count_eq,
    ← checkShape_iff ha hb (Nat.le_max_left (depth a) (depth b))]
  by_cases h : (leavesOf a).length = (leavesOf b).length
  · rw [and_iff_right h]
    exact Eq.congr (if_neg (not_not.mpr h)) rfl
  · refine iff_of_false ?_ fun hand => h hand.1
    exact fun hok => nomatch (if_pos h).symm.trans hok

/-! ## 5. Equal shapes -/

/-- Structures have the same shape if everywhere they are the same without their parts and have equally many items. -/
theorem sameShape_of_everywhere {a b : Value} (hnode : Everywhere SameNode a b)
    (hitems : Everywhere (fun x y => itemCount x = itemCount y) a b) : SameShape a b := by
  obtain ⟨hnode, hnodes⟩ := everywhere_iff.mp hnode
  obtain ⟨hitem, hitems⟩ := everywhere_iff.mp hitems
  refine sameShape_iff_child.mpr ⟨hnode, hitem, fun step x y hx hy => ?_⟩
  exact sameShape_of_everywhere (hnodes step x y hx hy) (hitems step x y hx hy)
termination_by depth a
decreasing_by exact depth_child hx

theorem SameShape.everywhere (hR : ∀ {x y}, SameShape x y → R x y) {a b : Value}
    (h : SameShape a b) : Everywhere R a b :=
  everywhere_iff.mpr ⟨hR h, fun step x y hx hy => ((sameShape_iff_child.mp h).2.2 step x y hx hy).everywhere hR⟩
termination_by depth a
decreasing_by exact depth_child hx

theorem count_eq_sum_parts (h : Structure v) (hbranch : isBranch v) : count v = ((partsOf v).map count).sum := by
  cases h with
  | leaf h => cases h.symm.trans hbranch
  | list | tuple | labelled => exact countList_eq _
  | @table ps hnd h =>
    rw [partsOf_table hnd, map_map, count, countPairs_keyed]
    exact (((inOrder_perm ps).map _).sum_eq).symm

theorem SameNode.length_parts (h : SameNode a b) (ha : Structure a) (hb : Structure b)
    (hitems : itemCount a = itemCount b) : (partsOf a).length = (partsOf b).length := by
  cases h with
  | leaf ha' hb' => rw [partsOf_of_isBranch ha', partsOf_of_isBranch hb']
  | list | tuple | labelled => exact hitems
  | table hkeys =>
    obtain ⟨ps, rfl, hps, -⟩ := ha.dict_inv
    obtain ⟨qs, rfl, hqs, -⟩ := hb.dict_inv
    have hlen := ((perm_keys_iff hps hqs).mpr hkeys).length_eq
    rw [partsOf_table hps, partsOf_table hqs, length_map, length_map, (inOrder_perm ps).length_eq,
      (inOrder_perm qs).length_eq]
    simpa using hlen

theorem SameShape.count_eq {a b : Value} (h : SameShape a b) (ha : Structure a) (hb : Structure b) :
    count a = count b := by
  obtain ⟨hnode, hitems, h⟩ := sameShape_iff_child.mp h
  have hparts : ∀ p ∈ (partsOf a).zip (partsOf b), count p.1 = count p.2 :=
    (hnode.forall_zip_iff_child ha hb).mpr fun step x y hx hy => (h step x y hx hy).count_eq (ha.child hx) (hb.child hy)
  have hcounts : (partsOf a).map count = (partsOf b).map count := by
    rw [← forall₂_eq_eq_eq, forall₂_map_left_iff, forall₂_map_right_iff, forall₂_iff_zip]
    exact ⟨hnode.length_parts ha hb hitems, fun hp => hparts _ hp⟩
  cases hnode with
  | leaf ha' hb' => rw [count_of_isBranch ha', count_of_isBranch hb']
  | list | tuple | labelled | table => rw [count_eq_sum_parts ha rfl, count_eq_sum_parts hb rfl, hcounts]
termination_by depth a
decreasing_by exact depth_child hx

/-- **What the check of two structures finds.**  Two structures pass if they have equally many leaves and, wherever a
path leads in both, are both leaves, or are of one class and have the same keys.  They have the same shape if they pass
and sequences at the end of one path have equally many items, which the check does not look at. -/
theorem checkSame_finds {a b : Value} (ha : Structure a) (hb : Structure b) :
    (checkSame a b true = .ok () ↔ count a = count b ∧ Everywhere SameNode a b) ∧
      (SameShape a b ↔ checkSame a b true = .ok () ∧ Everywhere (fun x y => itemCount x = itemCount y) a b) := by
  refine ⟨checkSame_iff ha hb, ?_⟩
  rw [checkSame_iff ha hb]
  constructor
  · intro h
    exact ⟨⟨h.count_eq ha hb, h.everywhere fun h => (sameShape_iff_child.mp h).1⟩,
      h.everywhere fun h => (sameShape_iff_child.mp h).2.1⟩
  · rintro ⟨⟨-, hnode⟩, hitems⟩
    exact sameShape_of_everywhere hnode hitems

/-- Two numbers and one, grouped, against one number and two: they pass, and do not have the same shape. -/
theorem checkSame_finds_uneven : let a := .list [.list [.int 1, .int 2], .list [.int 3]]
    let b := .list [.list [.int 1], .list [.int 2, .int 3]]
    Structure a ∧ Structure b ∧ checkSame a b true = .ok () ∧ ¬ SameShape a b := by
  have hone : ∀ i, Structure (.list [.int i]) := fun i => .list (forall_mem_singleton.mpr (.leaf rfl))
  have htwo : ∀ i j, Structure (.list [.int i, .int j]) := fun i j =>
    .list (forall_mem_cons.mpr ⟨.leaf rfl, forall_mem_singleton.mpr (.leaf rfl)⟩)
  have ha : Structure (.list [.list [.int 1, .int 2], .list [.int 3]]) :=
    .list (forall_mem_cons.mpr ⟨htwo 1 2, forall_mem_singleton.mpr (hone 3)⟩)
  have hb : Structure (.list [.list [.int 1], .list [.int 2, .int 3]]) :=
    .list (forall_mem_cons.mpr ⟨hone 1, forall_mem_singleton.mpr (htwo 2 3)⟩)
  refine ⟨ha, hb, rfl, fun hsame => ?_⟩
  exact absurd (((checkSame_finds ha hb).2.mp hsame).2 [.item 0] _ _ rfl rfl) (by decide)

end TensorKit.Nest
