import Mathlib
import TensorKit.Nest.Basic
import TensorKit.Proofs.Traversal
/-!
# Structures and their leaves

A structure is put together from leaves by lists, tuples and tables with texts as keys (`Structure`).  It can always be
flattened (`Structure.leaves_eq`): the leaves of a sequence are those of its items one after the other, the leaves of a
table those under its keys in their order, and their number is the one that packing counts on (`Structure.count_eq`).  A
part of a structure stands at the end of a path of positions and keys (`follow`).
-/

namespace TensorKit.Nest

open List

variable {α β : Type} {v : Value} {ps : List (String × α)}

/-! ## 1. Tables in the order of their keys -/

def keyed (ps : List (String × α)) : List (Value × α) := ps.map fun p => (.str p.1, p.2)

theorem keyed_cons (p : String × α) (ps : List (String × α)) : keyed (p :: ps) = (.str p.1, p.2) :: keyed ps := rfl

@[simp] theorem less_str (a b : String) : Value.less (.str a) (.str b) = .ok (decide (a < b)) := by rw [Value.less]

def inOrder (ps : List (String × α)) : List (String × α) := ps.mergeSort fun p q => decide (p.1 ≤ q.1)

theorem inOrder_perm (ps : List (String × α)) : (inOrder ps).Perm ps := mergeSort_perm _ _

theorem mem_inOrder {p : String × α} : p ∈ inOrder ps ↔ p ∈ ps := (inOrder_perm ps).mem_iff

theorem pairwise_inOrder (h : (ps.map Prod.fst).Nodup) : (inOrder ps).Pairwise fun p q => p.1 < q.1 := by
  have hle : (inOrder ps).Pairwise fun p q => decide (p.1 ≤ q.1) :=
    pairwise_mergeSort
      (fun p q r hpq hqr => decide_eq_true ((of_decide_eq_true hpq).trans (of_decide_eq_true hqr)))
      (fun p q => by simpa using le_total p.1 q.1) ps
  have hne : (inOrder ps).Pairwise fun p q => p.1 ≠ q.1 :=
    pairwise_map.mp (((inOrder_perm ps).map Prod.fst).nodup_iff.mpr h)
  exact (hle.and hne).imp fun h => lt_of_le_of_ne (of_decide_eq_true h.1) h.2

theorem inOrder_map (f : String × α → β) (ps : List (String × α)) :
    inOrder (ps.map fun p => (p.1, f p)) = (inOrder ps).map fun p => (p.1, f p) :=
  (map_mergeSort (f := fun p : String × α => (p.1, f p)) fun _ _ _ _ => rfl).symm

theorem eq_inOrder {ps qs : List (String × α)} (hperm : qs.Perm ps) (hsorted : qs.Pairwise fun p q => p.1 < q.1) :
    qs = inOrder ps := by
  have hnd : (ps.map Prod.fst).Nodup := (hperm.map Prod.fst).nodup_iff.mp (pairwise_map.mpr (hsorted.imp ne_of_lt))
  refine Perm.eq_of_pairwise (fun p q _ _ hpq hqp => absurd hqp hpq.not_gt) hsorted (pairwise_inOrder hnd) ?_
  exact hperm.trans (inOrder_perm ps).symm

theorem exists_insertKey (p : String × α) : ∀ {qs}, (qs.Pairwise fun p q => p.1 < q.1) →
    (∀ q ∈ qs, q.1 ≠ p.1) → ∃ rs, insertKey (.str p.1, p.2) (keyed qs) = .ok (keyed rs) ∧ rs.Perm (p :: qs) ∧
      rs.Pairwise fun p q => p.1 < q.1
  | [], _, _ => ⟨[p], rfl, .refl _, pairwise_singleton ..⟩
  | q :: qs, hsorted, hnew => by
    obtain ⟨hfirst, hrest⟩ := pairwise_cons.mp hsorted
    rcases lt_or_gt_of_ne (hnew q mem_cons_self) with hlt | hgt
    · obtain ⟨rs, hrs, hperm, hpairs⟩ := exists_insertKey p hrest fun r hr => hnew r (.tail _ hr)
      refine ⟨q :: rs, ?_, ?_, ?_⟩
      · rw [keyed, map_cons, insertKey, less_str, decide_eq_false hlt.not_gt]
        show (do return (Value.str q.1, q.2) :: (← insertKey (.str p.1, p.2) (keyed qs))) = _
        rw [hrs]
        rfl
      · exact (hperm.cons q).trans (Perm.swap p q qs)
      · refine pairwise_cons.mpr ⟨fun r hr => ?_, hpairs⟩
        rcases mem_cons.mp (hperm.mem_iff.mp hr) with rfl | hr
        · exact hlt
        · exact hfirst r hr
    · refine ⟨p :: q :: qs, ?_, .refl _, ?_⟩
      · rw [keyed, map_cons, insertKey, less_str, decide_eq_true hgt]
        rfl
      · refine pairwise_cons.mpr ⟨fun r hr => ?_, hsorted⟩
        rcases mem_cons.mp hr with rfl | hr
        · exact hgt
        · exact hgt.trans (hfirst r hr)

theorem exists_insertKeys : ∀ {ps qs : List (String × α)}, ((qs ++ ps).map Prod.fst).Nodup →
    (qs.Pairwise fun p q => p.1 < q.1) → ∃ rs, (keyed ps).foldlM (fun sorted p => insertKey p sorted) (keyed qs) =
      .ok (keyed rs) ∧ rs.Perm (qs ++ ps) ∧ rs.Pairwise fun p q => p.1 < q.1
  | [], qs, _, hsorted => ⟨qs, rfl, by simp, hsorted⟩
  | p :: ps, qs, hnd, hsorted => by
    have hnew : ∀ q ∈ qs, q.1 ≠ p.1 := by
      rw [map_append] at hnd
      intro q hq heq
      exact disjoint_of_nodup_append hnd (mem_map_of_mem hq) (by simp [heq])
    obtain ⟨rs, hrs, hperm, hpairs⟩ := exists_insertKey p hsorted hnew
    have hall : (rs ++ ps).Perm (qs ++ p :: ps) := (hperm.append_right ps).trans perm_middle.symm
    obtain ⟨ts, hts, htsperm, htspairs⟩ := exists_insertKeys ((hall.map Prod.fst).nodup_iff.mpr hnd) hpairs
    refine ⟨ts, ?_, htsperm.trans hall, htspairs⟩
    rwa [keyed_cons, foldlM_cons, hrs]

/-- **A table with different texts as keys is sorted.** -/
theorem sortKeys_keyed (h : (ps.map Prod.fst).Nodup) : sortKeys (keyed ps) = .ok (keyed (inOrder ps)) := by
  have hnil : ([] : List (String × α)).Pairwise fun p q => p.1 < q.1 := Pairwise.nil
  obtain ⟨rs, hrs, hperm, hpairs⟩ := exists_insertKeys h hnil
  obtain rfl : rs = inOrder ps := eq_inOrder hperm hpairs
  exact hrs

/-! ## 2. Structures -/

/-- A structure: leaves put together by lists, by tuples, where a tuple with names has an item for each of them, and by
tables with different texts as keys. -/
inductive Structure : Value → Prop
  | leaf {v : Value} : isBranch v = false → Structure v
  | list {xs : List Value} : (∀ x ∈ xs, Structure x) → Structure (.list xs)
  | tuple {xs : List Value} : (∀ x ∈ xs, Structure x) → Structure (.tuple xs)
  | labelled {kind : TupleClass} {xs : List Value} : xs.length = kind.fields.length → (∀ x ∈ xs, Structure x) →
      Structure (.labelled kind xs)
  | table {ps : Fields} : (ps.map Prod.fst).Nodup → (∀ p ∈ ps, Structure p.2) →
      Structure (.dict (keyed ps))

def leavesOf (v : Value) : List Value := (leaves v).toOption.getD []

theorem leaves_of_isBranch (h : isBranch v = false) : leaves v = .ok [v] := by cases v <;> first | rfl | cases h

theorem leavesList_eq (xs : List Value) : leavesList xs = List.flatten <$> xs.mapM leaves := by
  induction xs with
  | nil => rfl
  | cons x xs ih =>
    rw [leavesList, ih, mapM_cons]
    cases leaves x with
    | error e => rfl
    | ok l =>
      cases xs.mapM leaves with
      | error e => rfl
      | ok ls => rfl

theorem leavesPairs_eq (ps : Pairs) : leavesPairs ps = ps.mapM leavesPair := by
  induction ps with
  | nil => rfl
  | cons p ps ih => rw [leavesPairs, ih, mapM_cons]

theorem leavesList_of_forall {xs : List Value} (h : ∀ x ∈ xs, leaves x = .ok (leavesOf x)) :
    leavesList xs = .ok (xs.flatMap leavesOf) := by
  rw [leavesList_eq, mapM_eq_ok h, flatMap_def]
  rfl

theorem leaves_keyed {ps : Fields} (hnd : (ps.map Prod.fst).Nodup)
    (h : ∀ p ∈ ps, leaves p.2 = .ok (leavesOf p.2)) :
    leaves (.dict (keyed ps)) = .ok ((inOrder ps).flatMap fun p => leavesOf p.2) := by
  have hparts : leavesPairs (keyed ps) = .ok (keyed (ps.map fun p => (p.1, leavesOf p.2))) := by
    rw [leavesPairs_eq, keyed, mapM_map, mapM_eq_ok (g := fun p : String × Value => (Value.str p.1, leavesOf p.2))]
    · rw [keyed, map_map]
      rfl
    · intro p hp
      rw [Function.comp_apply, leavesPair, h p hp]
      rfl
  have hsorted : sortKeys (keyed (ps.map fun p => (p.1, leavesOf p.2))) =
      .ok (keyed ((inOrder ps).map fun p => (p.1, leavesOf p.2))) := by
    rw [sortKeys_keyed, inOrder_map]
    simpa [Function.comp_def] using hnd
  rw [leaves, hparts]
  refine (congrArg (fun r => r >>= fun parts => Except.ok (parts.map Prod.snd).flatten) hsorted).trans ?_
  rw [flatMap_def]
  show Except.ok _ = _
  simp [keyed, Function.comp_def]

theorem leaves_eq_leavesOf {l : List Value} (h : leaves v = .ok l) : leaves v = .ok (leavesOf v) := by
  rw [leavesOf, h]
  rfl

/-- **A structure can be flattened.** -/
theorem Structure.leaves_eq (h : Structure v) : leaves v = .ok (leavesOf v) := by
  induction h with
  | leaf h => exact leaves_eq_leavesOf (leaves_of_isBranch h)
  | list h ih | tuple h ih | labelled hlen h ih => exact leaves_eq_leavesOf (leavesList_of_forall ih)
  | table hnd h ih => exact leaves_eq_leavesOf (leaves_keyed hnd ih)

/-! ## 3. Counting leaves -/

theorem leavesOf_of_leaves {l : List Value} (h : leaves v = .ok l) : leavesOf v = l := by
  rw [leavesOf, h]
  rfl

theorem leavesOf_of_isBranch (h : isBranch v = false) : leavesOf v = [v] := leavesOf_of_leaves (leaves_of_isBranch h)

theorem leavesOf_list {xs : List Value} (h : ∀ x ∈ xs, Structure x) : leavesOf (.list xs) = xs.flatMap leavesOf :=
  leavesOf_of_leaves (leavesList_of_forall fun x hx => (h x hx).leaves_eq)

theorem leavesOf_table {ps : Fields} (hnd : (ps.map Prod.fst).Nodup) (h : ∀ p ∈ ps, Structure p.2) :
    leavesOf (.dict (keyed ps)) = (inOrder ps).flatMap fun p => leavesOf p.2 :=
  leavesOf_of_leaves (leaves_keyed hnd fun p hp => (h p hp).leaves_eq)

theorem countList_eq (xs : List Value) : countList xs = (xs.map count).sum := by
  induction xs with
  | nil => rfl
  | cons x xs ih => rw [countList, ih, map_cons, sum_cons]

theorem countPairs_keyed (ps : Fields) : countPairs (keyed ps) = (ps.map fun p => count p.2).sum := by
  induction ps with
  | nil => rfl
  | cons p ps ih => rw [keyed_cons, countPairs, ih, map_cons, sum_cons, countPair]

theorem count_of_isBranch (h : isBranch v = false) : count v = 1 := by cases v <;> first | rfl | cases h

theorem countList_of_forall {xs : List Value} (h : ∀ x ∈ xs, count x = (leavesOf x).length) :
    countList xs = (xs.flatMap leavesOf).length := by
  rw [countList_eq, length_flatMap, map_congr_left h]

theorem Structure.count_eq (h : Structure v) : count v = (leavesOf v).length := by
  induction h with
  | leaf h => rw [count_of_isBranch h, leavesOf_of_isBranch h, length_singleton]
  | list h ih | tuple h ih | labelled hlen h ih =>
    exact (countList_of_forall ih).trans (congrArg length (leavesOf_list h).symm)
  | @table ps hnd h ih =>
    rw [leavesOf_table hnd h, length_flatMap, count, countPairs_keyed, map_congr_left ih]
    exact (((inOrder_perm ps).map fun p => (leavesOf p.2).length).sum_eq).symm

/-! ## 4. Paths -/

/-- A step into a structure: to an item of a sequence or to the value under a key. -/
inductive Step where
  | item (i : Nat)
  | key (k : String)

def child : Step → Value → Option Value
  | .item i, .list xs | .item i, .tuple xs | .item i, .labelled _ xs => xs[i]?
  | .key k, .dict ps => Value.lookup (.str k) ps
  | _, _ => none

def follow : List Step → Value → Option Value
  | [], v => some v
  | step :: path, v => (child step v).bind (follow path)

theorem lookup_keyed_cons (k : String) (p : String × Value) (ps : Fields) :
    Value.lookup (.str k) (keyed (p :: ps)) = if p.1 = k then some p.2 else Value.lookup (.str k) (keyed ps) := by
  rw [keyed_cons, Value.lookup, Value.same]
  simp

end TensorKit.Nest
