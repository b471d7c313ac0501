import TensorKit.Proofs.Nest.Structures
/-!
# Packing and flattening

Packing puts numbered leaves into the shape of a structure.  A sequence hands them to its items one after the other; a
table has to find the leaves of each pair, which come after those of all smaller keys (`before`), so each pair owns a
segment of the leaves (`segment`).  In the order of the keys the segments make up the whole list (`flatMap_segment`,
`segment_flatMap`).

Two facts follow by induction on the structure.  It can be packed with any leaves, as many as it has, and gives them
back when it is flattened (`Structure.fills`); and packing it with a function of its own leaves applies the function to
every leaf (`Structure.packFrom_map`), which leaves all paths as they are (`follow_mapLeaves`).
-/

namespace TensorKit.Nest

open List

variable {s : Value} (k : String)
variable {ps : Fields} {p : String × Value} {vs : List Value} {v : Value}
  {leaf : Nat → Except Error Value} {i : Nat} {g : Value → Value}

/-! ## 1. Where the leaves of a table are -/

/-- How many leaves come before those of a key: the leaves under all smaller keys. -/
def before (k : String) (ps : Fields) : Nat := (ps.map fun p => if p.1 < k then count p.2 else 0).sum

theorem before_perm {qs : Fields} (h : ps.Perm qs) : before k ps = before k qs := (h.map _).sum_eq

theorem before_cons (p : String × Value) (ps : Fields) :
    before k (p :: ps) = (if p.1 < k then count p.2 else 0) + before k ps := by
  rw [before, map_cons, sum_cons, before]

theorem leavesBefore_keyed (ps : Fields) :
    leavesBefore (.str k) (keyed ps) = .ok (before k ps) := by
  induction ps with
  | nil => rfl
  | cons p ps ih =>
    simp only [keyed_cons, leavesBefore, ih, less_str, before_cons, Value.same, countPair]
    rcases lt_trichotomy p.1 k with h | h | h
    · simp [h, h.ne, pure_eq_ok]
    · simp [h, pure_eq_ok]
    · simp [h.not_gt, h.ne', pure_eq_ok]

theorem before_add_count_le : ∀ {ps}, p ∈ ps →
    before p.1 ps + count p.2 ≤ (ps.map fun p => count p.2).sum
  | q :: ps, hp => by
    rw [before_cons, map_cons, sum_cons]
    rcases mem_cons.mp hp with rfl | hp
    · rw [if_neg (lt_irrefl _)]
      have : before p.1 ps ≤ (ps.map fun p => count p.2).sum := sum_le_sum fun p _ => by split <;> omega
      omega
    · have := before_add_count_le hp
      split <;> omega

section Segments

variable (h : (p :: ps).Pairwise fun p q => p.1 < q.1)
include h

theorem before_head : before p.1 (p :: ps) = 0 := by
  have hnone : before p.1 ps = 0 := by
    refine sum_eq_zero fun n hn => ?_
    obtain ⟨q, hq, rfl⟩ := mem_map.mp hn
    exact if_neg ((pairwise_cons.mp h).1 q hq).not_gt
  rw [before_cons, if_neg (lt_irrefl _), hnone]

theorem before_tail {q : String × Value} (hq : q ∈ ps) : before q.1 (p :: ps) = count p.2 + before q.1 ps := by
  rw [before_cons, if_pos ((pairwise_cons.mp h).1 q hq)]

end Segments

def segment (vs : List Value) (ps : Fields) (p : String × Value) : List Value :=
  (vs.drop (before p.1 ps)).take (count p.2)

theorem length_segment
    (hvs : vs.length = (ps.map fun p => count p.2).sum) (hp : p ∈ ps) :
    (segment vs ps p).length = count p.2 := by
  have := before_add_count_le hp
  rw [segment, length_take, length_drop]
  omega

/-- The parts of all pairs, in the order of their keys, are the whole list. -/
theorem flatMap_segment : ∀ {ps : Fields}, (ps.Pairwise fun p q => p.1 < q.1) → ∀ {vs},
    vs.length = (ps.map fun p => count p.2).sum → ps.flatMap (segment vs ps) = vs
  | [], _, vs, hvs => by
    obtain rfl : vs = [] := length_eq_zero_iff.mp hvs
    rfl
  | p :: ps, h, vs, hvs => by
    have hrest : (vs.drop (count p.2)).length = (ps.map fun p => count p.2).sum := by
      rw [length_drop, hvs, map_cons, sum_cons, Nat.add_sub_cancel_left]
    have htail : ∀ q ∈ ps, segment vs (p :: ps) q = segment (vs.drop (count p.2)) ps q := by
      intro q hq
      rw [segment, segment, before_tail h hq, drop_drop]
    rw [flatMap_cons, flatMap_congr htail, flatMap_segment (pairwise_cons.mp h).2 hrest, segment,
      before_head h, drop_zero, take_append_drop]

/-- The part of a pair in the leaves of all pairs, in the order of their keys. -/
theorem segment_flatMap (l : String × Value → List Value) : ∀ {ps},
    (ps.Pairwise fun p q => p.1 < q.1) → (∀ p ∈ ps, (l p).length = count p.2) → ∀ p ∈ ps,
      segment (ps.flatMap l) ps p = l p
  | p :: ps, h, hl, q, hq => by
    have hp := hl p mem_cons_self
    rcases mem_cons.mp hq with rfl | hq
    · rw [segment, before_head h, drop_zero, flatMap_cons, take_left' hp]
    · have ih := segment_flatMap l (pairwise_cons.mp h).2 (fun r hr => hl r (.tail _ hr)) q hq
      rw [segment] at ih
      rw [segment, before_tail h hq, ← drop_drop, flatMap_cons, drop_left' hp, ih]

/-! ## 2. Numbered leaves -/

/-- The items of a list are the leaves numbered from `i` on. -/
def Reads (leaf : Nat → Except Error Value) (i : Nat) (vs : List Value) : Prop :=
  ∀ j v, vs[j]? = some v → leaf (i + j) = .ok v

section Reads

variable (h : Reads leaf i vs)
include h

theorem Reads.drop (n : Nat) : Reads leaf (i + n) (vs.drop n) := by
  intro j v hv
  rw [getElem?_drop] at hv
  rw [Nat.add_assoc]
  exact h (n + j) v hv

theorem Reads.take (n : Nat) : Reads leaf i (vs.take n) := by
  intro j v hv
  rw [getElem?_take] at hv
  split at hv
  · exact h j v hv
  · cases hv

theorem Reads.segment (ps : Fields) (p : String × Value) :
    Reads leaf (i + before p.1 ps) (segment vs ps p) :=
  (h.drop _).take _

theorem Reads.head (hv : vs = [v]) : leaf i = .ok v := h 0 v (by rw [hv]; rfl)

end Reads

theorem packFrom_of_isBranch (h : isBranch v = false) :
    packFrom leaf i v = leaf i := by
  cases v <;> first | rfl | cases h

theorem packFrom_labelled {kind : TupleClass} {xs ts : List Value}
    (h : packList leaf i xs = .ok ts) (hlen : ts.length = kind.fields.length) :
    packFrom leaf i (.labelled kind xs) = .ok (.labelled kind ts) := by
  have hmake : kind.make ts = .ok (.labelled kind ts) := if_pos hlen
  rw [packFrom, h]
  show (do return ← (kind.make ts : Fallible Value) : Except Error Value) = _
  rw [hmake]
  rfl

theorem packPairs_keyed {f : String × Value → Value}
    (all : Fields) : ∀ {ps},
      (∀ p ∈ ps, packFrom leaf (i + before p.1 all) p.2 = .ok (f p)) →
        packPairs leaf i (keyed all) (keyed ps) = .ok (keyed (ps.map fun p => (p.1, f p)))
  | [], _ => rfl
  | p :: ps, h => by
    rw [keyed_cons, packPairs, leavesBefore_keyed]
    show (do
      let q ← packPair leaf (i + before p.1 all) (.str p.1, p.2)
      return q :: (← packPairs leaf i (keyed all) (keyed ps))) = _
    rw [packPair, h p mem_cons_self, packPairs_keyed all fun q hq => h q (.tail _ hq)]
    rfl

/-! ## 3. Flattening what was packed -/

/-- A structure takes every list of as many leaves as it has, and gives it back when it is flattened. -/
def Fills (leaf : Nat → Except Error Value) (s : Value) : Prop :=
  ∀ i vs, vs.length = count s → Reads leaf i vs →
    ∃ t, packFrom leaf i s = .ok t ∧ ((∀ v ∈ vs, isBranch v = false) → leaves t = .ok vs)

theorem fills_of_isBranch (h : isBranch s = false) : Fills leaf s := by
  intro i vs hlen hreads
  rw [count_of_isBranch h] at hlen
  obtain ⟨v, rfl⟩ := length_eq_one_iff.mp hlen
  refine ⟨v, ?_, fun hleaf => leaves_of_isBranch (hleaf v mem_cons_self)⟩
  rw [packFrom_of_isBranch h, hreads.head rfl]

/-- Along a sequence, each item takes the leaves that its predecessors leave. -/
theorem exists_packList : ∀ {xs}, (∀ x ∈ xs, Fills leaf x) → ∀ {i vs},
    vs.length = countList xs → Reads leaf i vs → ∃ ts, packList leaf i xs = .ok ts ∧ ts.length = xs.length ∧
      ((∀ v ∈ vs, isBranch v = false) → leavesList ts = .ok vs)
  | [], _, i, vs, hlen, _ => by
    obtain rfl : vs = [] := length_eq_zero_iff.mp hlen
    exact ⟨[], rfl, rfl, fun _ => rfl⟩
  | x :: xs, h, i, vs, hlen, hreads => by
    have hlen : vs.length = count x + countList xs := hlen
    obtain ⟨t, ht, hfirst⟩ := h x mem_cons_self i (vs.take (count x)) (by simp [hlen]) (hreads.take _)
    obtain ⟨ts, hts, hn, hrest⟩ := exists_packList (fun y hy => h y (.tail _ hy))
      (by simp [hlen] : (vs.drop (count x)).length = countList xs) (hreads.drop _)
    refine ⟨t :: ts, ?_, by simp [hn], fun hleaf => ?_⟩
    · rw [packList, ht]
      show (do return t :: (← packList leaf (i + count x) xs)) = _
      rw [hts]
      rfl
    · rw [leavesList, hfirst fun v hv => hleaf v (mem_of_mem_take hv),
        hrest fun v hv => hleaf v (mem_of_mem_drop hv)]
      exact congrArg Except.ok (take_append_drop _ _)

theorem fills_table (hnd : (ps.map Prod.fst).Nodup) (h : ∀ p ∈ ps, Fills leaf p.2) :
    Fills leaf (.dict (keyed ps)) := by
  intro i vs hlen hreads
  have hlen : vs.length = (ps.map fun p => count p.2).sum := by rw [hlen, count, countPairs_keyed]
  -- each key takes its segment of the leaves
  have hparts : ∀ p, ∃ t, p ∈ ps → packFrom leaf (i + before p.1 ps) p.2 = .ok t ∧
      ((∀ v ∈ segment vs ps p, isBranch v = false) → leaves t = .ok (segment vs ps p)) := by
    intro p
    by_cases hp : p ∈ ps
    · obtain ⟨t, ht⟩ := h p hp _ _ (length_segment hlen hp) (hreads.segment ps p)
      exact ⟨t, fun _ => ht⟩
    · exact ⟨.null, fun hp' => absurd hp' hp⟩
  choose f hf using hparts
  refine ⟨.dict (keyed (ps.map fun p => (p.1, f p))), ?_, fun hleaf => ?_⟩
  · rw [packFrom, packPairs_keyed ps fun p hp => (hf p hp).1]
    rfl
  · have hleaves : ∀ p ∈ ps, leaves (f p) = .ok (segment vs ps p) := fun p hp =>
      (hf p hp).2 fun v hv => hleaf v (mem_of_mem_drop (mem_of_mem_take hv))
    have hvalues : ∀ q ∈ ps.map (fun p => (p.1, f p)), leaves q.2 = .ok (leavesOf q.2) :=
      forall_mem_map.mpr fun p hp => leaves_eq_leavesOf (hleaves p hp)
    rw [leaves_keyed (by simpa [Function.comp_def] using hnd) hvalues, inOrder_map, flatMap_map]
    have hflat : ∀ p ∈ inOrder ps, leavesOf (f p) = segment vs (inOrder ps) p := fun p hp => by
      rw [leavesOf_of_leaves (hleaves p (mem_inOrder.mp hp)), segment, segment, before_perm p.1 (inOrder_perm ps)]
    rw [flatMap_congr hflat, flatMap_segment (pairwise_inOrder hnd)]
    rw [hlen]
    exact ((inOrder_perm ps).map _).sum_eq.symm

/-- **A structure can be packed with any leaves, as many as it has, and gives them back.** -/
theorem Structure.fills (h : Structure s) : Fills leaf s := by
  induction h with
  | leaf h => exact fills_of_isBranch h
  | list h ih =>
    intro i vs hlen hreads
    obtain ⟨ts, hts, -, hleaves⟩ := exists_packList ih hlen hreads
    exact ⟨.list ts, by rw [packFrom, hts]; rfl, hleaves⟩
  | tuple h ih =>
    intro i vs hlen hreads
    obtain ⟨ts, hts, -, hleaves⟩ := exists_packList ih hlen hreads
    exact ⟨.tuple ts, by rw [packFrom, hts]; rfl, hleaves⟩
  | @labelled kind xs hfields h ih =>
    intro i vs hlen hreads
    obtain ⟨ts, hts, hn, hleaves⟩ := exists_packList ih hlen hreads
    exact ⟨.labelled kind ts, packFrom_labelled hts (hn.trans hfields), hleaves⟩
  | table hnd h ih => exact fills_table hnd ih

/-! ## 4. Replacing leaves -/

mutual

def mapLeaves (g : Value → Value) : Value → Value
  | .list xs => .list (mapList g xs)
  | .tuple xs => .tuple (mapList g xs)
  | .labelled kind xs => .labelled kind (mapList g xs)
  | .dict ps => .dict (mapPairs g ps)
  | v => g v

def mapList (g : Value → Value) : List Value → List Value
  | [] => []
  | x :: xs => mapLeaves g x :: mapList g xs

def mapPairs (g : Value → Value) : Pairs → Pairs
  | [] => []
  | p :: ps => mapPair g p :: mapPairs g ps

def mapPair (g : Value → Value) : Value × Value → Value × Value
  | (k, v) => (k, mapLeaves g v)

end

theorem mapLeaves_of_isBranch (g : Value → Value) (h : isBranch v = false) : mapLeaves g v = g v := by
  cases v <;> first | rfl | cases h

theorem mapList_eq (g : Value → Value) (xs : List Value) : mapList g xs = xs.map (mapLeaves g) := by
  induction xs with
  | nil => rfl
  | cons x xs ih => rw [mapList, ih, map_cons]

theorem mapPairs_keyed (g : Value → Value) (ps : Fields) :
    mapPairs g (keyed ps) = keyed (ps.map fun p => (p.1, mapLeaves g p.2)) := by
  induction ps with
  | nil => rfl
  | cons p ps ih => rw [keyed_cons, mapPairs, ih, map_cons, keyed_cons, mapPair]

theorem Structure.mapLeaves_eq_self (h : Structure s) : mapLeaves (fun v => v) s = s := by
  induction h with
  | leaf h => exact mapLeaves_of_isBranch _ h
  | list h ih | tuple h ih | labelled hlen h ih => rw [mapLeaves, mapList_eq, map_congr_left ih, map_id']
  | table hnd h ih =>
    rw [mapLeaves, mapPairs_keyed, map_congr_left fun p hp => congrArg (Prod.mk p.1) (ih p hp)]
    exact congrArg (fun ps => Value.dict (keyed ps)) (map_id' _)

theorem packList_map : ∀ {xs}, (∀ x ∈ xs, Structure x) →
    (∀ x ∈ xs, ∀ i, Reads leaf i ((leavesOf x).map g) → packFrom leaf i x = .ok (mapLeaves g x)) →
      ∀ {i}, Reads leaf i ((xs.flatMap leavesOf).map g) → packList leaf i xs = .ok (mapList g xs)
  | [], _, _, _, _ => rfl
  | x :: xs, hx, h, i, hreads => by
    have hlen : ((leavesOf x).map g).length = count x := by rw [length_map, (hx x mem_cons_self).count_eq]
    rw [flatMap_cons, map_append] at hreads
    have hfirst := hreads.take (count x)
    have hrest := hreads.drop (count x)
    rw [take_left' hlen] at hfirst
    rw [drop_left' hlen] at hrest
    rw [packList, h x mem_cons_self i hfirst]
    show (do return mapLeaves g x :: (← packList leaf (i + count x) xs)) = _
    rw [packList_map (fun y hy => hx y (.tail _ hy)) (fun y hy => h y (.tail _ hy)) hrest]
    rfl

/-- **Packing a structure with a function of its own leaves applies the function to every leaf.** -/
theorem Structure.packFrom_map (h : Structure s) : ∀ {i}, Reads leaf i ((leavesOf s).map g) →
    packFrom leaf i s = .ok (mapLeaves g s) := by
  induction h with
  | leaf h =>
    intro i hreads
    rw [packFrom_of_isBranch h, mapLeaves_of_isBranch g h]
    exact hreads.head (by rw [leavesOf_of_isBranch h]; rfl)
  | list h ih | tuple h ih =>
    intro i hreads
    rw [packFrom, packList_map h (fun x hx i => ih x hx) (leavesOf_list h ▸ hreads)]
    rfl
  | @labelled kind xs hfields h ih =>
    intro i hreads
    refine packFrom_labelled (packList_map h (fun x hx i => ih x hx) (leavesOf_list h ▸ hreads)) ?_
    rw [mapList_eq, length_map, hfields]
  | @table ps hnd h ih =>
    intro i hreads
    have hlen : ∀ p ∈ inOrder ps, ((leavesOf p.2).map g).length = count p.2 := fun p hp => by
      rw [length_map, (h p (mem_inOrder.mp hp)).count_eq]
    rw [leavesOf_table hnd h, map_flatMap] at hreads
    rw [packFrom, mapLeaves, mapPairs_keyed, packPairs_keyed ps]
    · rfl
    · intro p hp
      have hpart := hreads.segment (inOrder ps) p
      rw [segment_flatMap _ (pairwise_inOrder hnd) hlen p (mem_inOrder.mpr hp),
        before_perm p.1 (inOrder_perm ps)] at hpart
      exact ih p hp hpart

theorem lookup_mapPairs (g : Value → Value) (k : Value) (ps : Pairs) :
    Value.lookup k (mapPairs g ps) = (Value.lookup k ps).map (mapLeaves g) := by
  induction ps with
  | nil => rfl
  | cons p ps ih =>
    rw [mapPairs, mapPair, Value.lookup, Value.lookup, ih]
    split <;> rfl

theorem child_mapLeaves (g : Value → Value) {step : Step} {x : Value} (h : child step v = some x) :
    child step (mapLeaves g v) = some (mapLeaves g x) := by
  cases step with
  | item i =>
    cases v with
    | list xs | tuple xs | labelled kind xs =>
      rw [mapLeaves, mapList_eq, child, getElem?_map]
      exact congrArg (Option.map (mapLeaves g)) h
    | _ => cases h
  | key k =>
    cases v with
    | dict ps =>
      rw [mapLeaves, child, lookup_mapPairs]
      exact congrArg (Option.map (mapLeaves g)) h
    | _ => cases h

/-- Every path of a structure is one of the structure with other leaves, and leads to the part with other leaves. -/
theorem follow_mapLeaves (g : Value → Value) : ∀ {path v x}, follow path v = some x →
    follow path (mapLeaves g v) = some (mapLeaves g x)
  | [], v, x, h => by
    obtain rfl : v = x := Option.some.inj h
    rfl
  | step :: path, v, x, h => by
    obtain ⟨w, hw, h⟩ := Option.bind_eq_some_iff.mp h
    rw [follow, child_mapLeaves g hw]
    exact follow_mapLeaves g h

/-! ## 5. Packing lists -/

theorem reads_leafAt (vs : List Value) : Reads (leafAt (.list vs)) 0 vs := by
  intro j v hv
  rw [Nat.zero_add]
  simp [leafAt, Value.members, hv]

/-- A list is packed if it has as many items as the structure has leaves, and is refused otherwise. -/
theorem Structure.pack_eq (h : Structure s) (vs : List Value) :
    pack s (.list vs) = if (leavesOf s).length = vs.length then packFrom (leafAt (.list vs)) 0 s
      else .error (if isBranch s then .packLength (leavesOf s).length vs.length s.plain (Value.list vs).plain
        else .leafCount vs.length) := by
  have hpack : pack s (.list vs) = if !isBranch s then
      if vs.length = 1 then leafAt (.list vs) 0 else .error (.leafCount vs.length)
      else leaves s >>= fun l => if l.length = vs.length then packFrom (leafAt (.list vs)) 0 s
        else .error (.packLength l.length vs.length s.plain (Value.list vs).plain) := rfl
  rw [hpack]
  cases hs : isBranch s with
  | false =>
    rw [leavesOf_of_isBranch hs, packFrom_of_isBranch hs]
    simp only [length_singleton, eq_comm]
    rfl
  | true =>
    rw [h.leaves_eq]
    rfl

theorem Structure.pack_of_length_eq (h : Structure s) (hlen : vs.length = (leavesOf s).length) :
    pack s (.list vs) = packFrom (leafAt (.list vs)) 0 s := by
  rw [h.pack_eq, if_pos hlen.symm]

theorem zipAll_singleton (l : List Value) : zipAll [l] = l.map fun v => [v] := by
  refine ext_getElem (by simp [zipAll]) fun i hi hi' => ?_
  have hi : i < l.length := by simpa using hi'
  simp [zipAll, hi]

/-- A function that gives a result for every leaf is applied to every leaf. -/
theorem Structure.map_eq (h : Structure s) {f : List Value → Fallible Value}
    (hf : ∀ x ∈ leavesOf s, f [x] = .ok (g x)) : map f [s] = .ok (mapLeaves g s) := by
  have hres : (zipAll [leavesOf s]).mapM (fun xs => (f xs : Except Error Value)) = .ok ((leavesOf s).map g) := by
    rw [zipAll_singleton, mapM_map]
    refine mapM_eq_ok fun x hx => ?_
    rw [Function.comp_apply, hf x hx]
    rfl
  have hflats : [s].mapM flatten = .ok [leavesOf s] :=
    mapM_eq_ok fun x hx => by rw [mem_singleton.mp hx]; exact h.leaves_eq
  rw [map, hflats]
  refine (congrArg (fun r => r >>= fun results => pack s (.list results)) hres).trans ?_
  refine (h.pack_of_length_eq (length_map _)).trans ?_
  exact h.packFrom_map (reads_leafAt _)

theorem Structure.isBranch_of_mem_leavesOf (h : Structure s) : ∀ x ∈ leavesOf s, isBranch x = false := by
  induction h with
  | leaf h => simpa [leavesOf_of_isBranch h] using h
  | @list xs h ih | @tuple xs h ih | @labelled _ xs hlen h ih =>
    show ∀ x ∈ leavesOf (.list xs), _
    rw [leavesOf_list h]
    exact forall_mem_flatMap.mpr ih
  | table hnd h ih =>
    rw [leavesOf_table hnd h]
    exact forall_mem_flatMap.mpr fun p hp => ih p (mem_inOrder.mp hp)

/-- **Packing and flattening undo each other.**  A structure can be flattened; packing its own leaves gives it back,
with the same kinds of sequences and the same order of keys; packing any other leaves, as many as it has, gives a
structure that flattens to them, and a list of any other length is refused.  A function that is applied to a structure
is applied to the leaf at the end of each path. -/
theorem flatten_pack_inverse {s : Value} (h : Structure s) :
    ∃ l, flatten s = .ok l ∧ (∀ x ∈ l, isBranch x = false) ∧ pack s (.list l) = .ok s ∧
      (∀ vs : List Value, (∀ v ∈ vs, isBranch v = false) → vs.length = l.length →
        ∃ t, pack s (.list vs) = .ok t ∧ flatten t = .ok vs) ∧
      (∀ vs : List Value, vs.length ≠ l.length → ∃ e, pack s (.list vs) = .error e ∧ e.kind = .value) ∧
      ∀ (f : List Value → Except FailureKind Value) (g : Value → Value), (∀ x ∈ l, f [x] = .ok (g x)) →
        map f [s] = .ok (mapLeaves g s) ∧ ∀ path x, follow path s = some x → isBranch x = false →
          follow path (mapLeaves g s) = some (g x) := by
  refine ⟨leavesOf s, h.leaves_eq, h.isBranch_of_mem_leavesOf, ?_, fun vs hleaf hlength => ?_, fun vs hlength => ?_,
    fun f g hf => ⟨h.map_eq hf, fun path x hpath hx => ?_⟩⟩
  · have hreads : Reads (leafAt (.list (leavesOf s))) 0 ((leavesOf s).map fun v => v) := by
      rw [map_id']
      exact reads_leafAt _
    rw [h.pack_of_length_eq rfl, h.packFrom_map hreads, h.mapLeaves_eq_self]
  · rw [h.pack_of_length_eq hlength]
    obtain ⟨t, ht, hleaves⟩ := h.fills 0 vs (hlength.trans h.count_eq.symm) (reads_leafAt vs)
    exact ⟨t, ht, hleaves hleaf⟩
  · rw [h.pack_eq, if_neg (Ne.symm hlength)]
    refine ⟨_, rfl, ?_⟩
    split <;> rfl
  · rw [follow_mapLeaves g hpath, mapLeaves_of_isBranch g hx]

/-- A table whose keys are not in order, with a tuple that has names and with empty parts. -/
def nested : Value :=
  .dict (keyed [("b", .list [.int 1, .str "x"]), ("a", .tuple [.labelled ⟨"shapes.Pair", "Pair", ["left", "right"]⟩
    [.null, .tuple []], .dict (keyed [])])])

theorem structure_nested : Structure nested := by
  have hpair : Structure (.labelled ⟨"shapes.Pair", "Pair", ["left", "right"]⟩ [.null, .tuple []]) :=
    .labelled rfl (forall_mem_cons.mpr ⟨.leaf rfl, forall_mem_singleton.mpr (.tuple (forall_mem_nil _))⟩)
  have hempty : Structure (.dict (keyed [])) := .table nodup_nil (forall_mem_nil _)
  refine .table (by decide) (forall_mem_cons.mpr ⟨.list ?_, forall_mem_singleton.mpr (.tuple ?_)⟩)
  · exact forall_mem_cons.mpr ⟨.leaf rfl, forall_mem_singleton.mpr (.leaf rfl)⟩
  · exact forall_mem_cons.mpr ⟨hpair, forall_mem_singleton.mpr hempty⟩

theorem flatten_pack_inverse_nested : Structure nested ∧ flatten nested = .ok [.null, .int 1, .str "x"] ∧
      pack nested (.list [.null, .int 1, .str "x"]) = .ok nested ∧
      (∃ t, pack nested (.list [.int 7, .int 8, .int 9]) = .ok t ∧ flatten t = .ok [.int 7, .int 8, .int 9]) ∧
      (∃ e, pack nested (.list [.int 7]) = .error e ∧ e.kind = .value) ∧
      map (fun xs => .ok (.list xs)) [nested] = .ok (mapLeaves (fun v => .list [v]) nested) := by
  have hflat : flatten nested = .ok [.null, .int 1, .str "x"] := rfl
  obtain ⟨l, hl, -, hback, hother, hrefused, hmap⟩ := flatten_pack_inverse structure_nested
  obtain rfl : [.null, .int 1, .str "x"] = l := Except.ok.inj (hflat.symm.trans hl)
  exact ⟨structure_nested, hflat, hback, hother _ (by simp [isBranch]) rfl, hrefused _ (by decide),
    (hmap _ _ fun x _ => rfl).1⟩

end TensorKit.Nest
