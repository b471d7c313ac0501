import Mathlib.Tactic
import TensorKit.Tensor.Axis
/-!
# Parts of a tensor, axis by axis

A part of a tensor is given by a list of places for each axis: `restrict ps t` holds the elements of `t` at all choices
of one place from each list, in row-major order.

* `paste_restrict`: pasting two parts that take the same places on all axes but one gives the part that takes there the
  places of the first and then those of the second;
* `part_restrict`: cutting a range out of a part takes that range out of its list of places;
* `restrict_ranges`: the part that takes every place is the tensor itself.

All three are inductions on the axes before the one that changes: the elements of a part fall into blocks of one length,
one for each place of the first axis (`gather_cons`, `length_gather`).  An element of a part is the element of the
tensor at the choice of places that stands there (`getElem?_gather`), and a part that takes no place twice has no
element twice if the tensor has none (`nodup_select`).
-/

namespace TensorKit.Tensor

open List Nat

variable {α : Type} {w : Nat}
variable {pre post : List (List Nat)} {d q : Nat}

/-! ## 1. Rows -/

theorem rowsOf_append (w m : Nat) : ∀ (n : Nat) (xs ys : List α), xs.length = n * w →
    rowsOf w (n + m) (xs ++ ys) = rowsOf w n xs ++ rowsOf w m ys
  | 0, xs, ys, h => by
    have hx : xs = [] := length_eq_zero_iff.mp (by simpa using h)
    simp [hx, rowsOf]
  | n + 1, xs, ys, h => by
    have hw : w ≤ xs.length := by rw [h, add_mul]; omega
    have hd : (xs.drop w).length = n * w := by rw [length_drop, h, add_mul]; omega
    rw [show n + 1 + m = (n + m) + 1 by omega]
    simp only [rowsOf, cons_append]
    rw [take_append_of_le_length hw, drop_append_of_le_length hw, rowsOf_append w m n _ ys hd]

theorem rowsOf_one {xs : List α} (h : xs.length = w) : rowsOf w 1 xs = [xs] := by
  subst h
  simp [rowsOf]

theorem length_rowsOf (w : Nat) : ∀ (n : Nat) (xs : List α), (rowsOf w n xs).length = n
  | 0, _ => rfl
  | n + 1, xs => by simp [rowsOf, length_rowsOf w n]

theorem rowsOf_flatten : ∀ {n : Nat} {rows : List (List α)}, rows.length = n → (∀ row ∈ rows, row.length = w) →
    rowsOf w n rows.flatten = rows
  | _, [], rfl, _ => rfl
  | _, row :: rows, rfl, h => by
    have hrow : row.length = w := h row mem_cons_self
    rw [flatten_cons, length_cons, rowsOf, take_left' hrow, drop_left' hrow,
      rowsOf_flatten rfl fun r hr => h r (.tail _ hr)]

theorem joinRows_append : ∀ (as bs as' bs' : List (List α)), as.length = bs.length →
    joinRows (as ++ as') (bs ++ bs') = joinRows as bs ++ joinRows as' bs'
  | [], [], _, _, _ => rfl
  | [], _ :: _, _, _, h | _ :: _, [], _, _, h => by simp at h
  | a :: as, b :: bs, as', bs', h => by
    simp only [cons_append, joinRows, append_assoc]
    rw [joinRows_append as bs as' bs' (by simpa using h)]

theorem rowsOf_flatMap (w n : Nat) (g : Nat → List α) : ∀ (p : List Nat), (∀ i ∈ p, (g i).length = n * w) →
    rowsOf w (p.length * n) (p.flatMap g) = p.flatMap fun i => rowsOf w n (g i)
  | [], _ => by simp [rowsOf]
  | i :: p, h => by
    rw [length_cons, add_mul, one_mul, add_comm, flatMap_cons, flatMap_cons,
      rowsOf_append w _ n _ _ (h i mem_cons_self),
      rowsOf_flatMap w n g p fun j hj => h j (.tail _ hj)]

theorem joinRows_flatMap (f g : Nat → List (List α)) : ∀ (p : List Nat), (∀ i ∈ p, (f i).length = (g i).length) →
    joinRows (p.flatMap f) (p.flatMap g) = p.flatMap fun i => joinRows (f i) (g i)
  | [], _ => rfl
  | i :: p, h => by
    rw [flatMap_cons, flatMap_cons, flatMap_cons,
      joinRows_append _ _ _ _ (h i mem_cons_self),
      joinRows_flatMap f g p fun j hj => h j (.tail _ hj)]

/-! ## 2. Gathering elements -/

variable {t : Tensor α} {f : List Nat → Option α} {ps : List (List Nat)} {g : Nat → List α} {ns is : List Nat}
variable {p : List Nat}

/-- The elements that a partial function on positions has at all choices of places. -/
def gather (f : List Nat → Option α) (ps : List (List Nat)) : List α := (choices ps).filterMap f

/-- A partial function has an element at every choice of places. -/
def Defined (f : List Nat → Option α) (ps : List (List Nat)) : Prop := ∀ is ∈ choices ps, (f is).isSome

theorem gather_cons (f : List Nat → Option α) (p : List Nat) (ps : List (List Nat)) :
    gather f (p :: ps) = p.flatMap fun i => gather (fun is => f (i :: is)) ps := by
  simp only [gather, choices, filterMap_flatMap, filterMap_map]
  rfl

theorem mem_choices : ∀ {ps is}, is ∈ choices ps ↔ Forall₂ (· ∈ ·) is ps
  | [], is => by simp [choices]
  | p :: ps, is => by
    simp only [choices, mem_flatMap, mem_map, mem_choices, forall₂_cons_right_iff]
    grind

theorem length_choices : ∀ ps : List (List Nat), (choices ps).length = volume (ps.map length)
  | [] => rfl
  | p :: ps => by simp [choices, volume, length_choices ps]

theorem Defined.cons (h : Defined f (p :: ps)) {i : Nat} (hi : i ∈ p) : Defined (fun is => f (i :: is)) ps :=
  fun _ his => h _ (mem_choices.mpr (.cons hi (mem_choices.mp his)))

theorem length_gather (ps : List (List Nat)) (f : List Nat → Option α) (h : Defined f ps) :
    (gather f ps).length = volume (ps.map length) := by
  rw [gather, length_filterMap_eq_countP, countP_eq_length.mpr h, length_choices]

/-! ## 3. Pasting and cutting gathered elements -/

section Axis

variable (a b : List Nat) (post : List (List Nat))

theorem volume_append (ns ms : List Nat) : volume (ns ++ ms) = volume ns * volume ms := by
  induction ns with
  | nil => simp [volume]
  | cons n ns ih => simp [volume, ih, mul_assoc]

theorem length_gather_axis (h : Defined f (pre ++ a :: post)) :
    (gather f (pre ++ a :: post)).length = volume (pre.map length) * (a.length * volume (post.map length)) := by
  rw [length_gather _ _ h]
  simp [volume_append, volume]

theorem joinRows_gather : ∀ (pre : List (List Nat)) (f : List Nat → Option α),
    Defined f (pre ++ a :: post) → Defined f (pre ++ b :: post) → joinRows
      (rowsOf (a.length * volume (post.map length)) (volume (pre.map length)) (gather f (pre ++ a :: post)))
      (rowsOf (b.length * volume (post.map length)) (volume (pre.map length)) (gather f (pre ++ b :: post)))
      = gather f (pre ++ (a ++ b) :: post)
  | [], f, ha, hb => by
    have hla := length_gather _ f ha
    have hlb := length_gather _ f hb
    simp only [nil_append, map_cons, map_nil, volume] at hla hlb ⊢
    rw [rowsOf_one hla, rowsOf_one hlb, gather_cons, gather_cons, gather_cons, flatMap_append]
    simp [joinRows]
  | p :: pre, f, ha, hb => by
    simp only [cons_append, gather_cons, map_cons, volume]
    rw [rowsOf_flatMap _ _ _ p fun i hi => length_gather_axis a post (Defined.cons ha hi),
      rowsOf_flatMap _ _ _ p fun i hi => length_gather_axis b post (Defined.cons hb hi),
      joinRows_flatMap _ _ p fun i _ => by rw [length_rowsOf, length_rowsOf]]
    refine flatMap_congr fun i hi => ?_
    exact joinRows_gather pre _ (Defined.cons ha hi) (Defined.cons hb hi)

theorem drop_flatMap : ∀ (p : List Nat) (k : Nat),
    (∀ i ∈ p, (g i).length = w) → (p.flatMap g).drop (k * w) = (p.drop k).flatMap g
  | _, 0, _ | [], k + 1, _ => by simp
  | i :: p, k + 1, h => by
    have hi : (g i).length = w := h i mem_cons_self
    rw [flatMap_cons, add_mul, one_mul, add_comm, ← hi, drop_length_add_append, hi, drop_succ_cons]
    exact drop_flatMap p k fun j hj => h j (.tail _ hj)

theorem take_flatMap (p : List Nat) (k : Nat) (h : ∀ i ∈ p, (g i).length = w) :
    (p.flatMap g).take (k * w) = (p.take k).flatMap g := by
  refine (append_left_inj ((p.drop k).flatMap g)).mp ?_
  rw [← flatMap_append, take_append_drop, ← drop_flatMap p k h, take_append_drop]

theorem flatMap_rowsOf_gather (lo n : Nat) : ∀ (pre : List (List Nat)) (f : List Nat → Option α),
    Defined f (pre ++ a :: post) → (rowsOf (a.length * volume (post.map length)) (volume (pre.map length))
        (gather f (pre ++ a :: post))).flatMap
        (fun row => (row.drop (lo * volume (post.map length))).take (n * volume (post.map length)))
      = gather f (pre ++ (a.drop lo).take n :: post)
  | [], f, h => by
    have hl := length_gather _ f h
    have hrow : ∀ i ∈ a, (gather (fun is => f (i :: is)) post).length = volume (post.map length) :=
      fun i hi => length_gather _ _ (Defined.cons h hi)
    simp only [nil_append, map_cons, map_nil, volume] at hl ⊢
    rw [rowsOf_one hl, gather_cons, gather_cons, flatMap_cons, flatMap_nil, append_nil,
      drop_flatMap a lo hrow, take_flatMap _ n fun i hi => hrow i (mem_of_mem_drop hi)]
  | p :: pre, f, h => by
    simp only [cons_append, gather_cons, map_cons, volume]
    rw [rowsOf_flatMap _ _ _ p fun i hi => length_gather_axis a post (Defined.cons h hi), flatMap_assoc]
    exact flatMap_congr fun i hi => flatMap_rowsOf_gather lo n pre _ (Defined.cons h hi)

end Axis

/-! ## 4. Parts of a tensor -/

def WellFormed (t : Tensor α) : Prop := t.data.length = volume t.shape

def restrict (ps : List (List Nat)) (t : Tensor α) : Tensor α := ⟨ps.map length, t.select ps⟩

/-- Places are inside a box: on each axis all of them are below its length. -/
def Inside (ps : List (List Nat)) (ns : List Nat) : Prop := Forall₂ (fun p n => ∀ i ∈ p, i < n) ps ns

@[simp] theorem restrict_shape (ps : List (List Nat)) (t : Tensor α) : (restrict ps t).shape = ps.map length := rfl

theorem Inside.of_subset {p' : List Nat} (hp : ∀ x ∈ p', x ∈ p) :
    ∀ {pre ns}, Inside (pre ++ p :: post) ns → Inside (pre ++ p' :: post) ns
  | [], _, .cons hn hr => .cons (fun x hx => hn x (hp x hx)) hr
  | _ :: _, _, .cons hn hr => .cons hn (Inside.of_subset hp hr)

theorem linear_lt : ∀ {is ns}, Forall₂ (· < ·) is ns → linear ns is < volume ns
  | [], [], _ => by simp [linear, volume]
  | i :: is, n :: ns, .cons hi hr => by
    have ih := linear_lt hr
    simp only [linear, volume]
    calc i * volume ns + linear ns is < i * volume ns + volume ns := Nat.add_lt_add_left ih _
      _ = (i + 1) * volume ns := (Nat.succ_mul _ _).symm
      _ ≤ n * volume ns := Nat.mul_le_mul_right _ hi

theorem forall₂_of_mem_choices (hps : Inside ps ns) (h : is ∈ choices ps) : Forall₂ (· < ·) is ns := by
  have hmem := mem_choices.mp h
  clear h
  induction hmem generalizing ns with
  | nil =>
    cases hps
    exact .nil
  | cons hi _ ih =>
    cases hps with
    | cons hp hr => exact .cons (hp _ hi) (ih hr)

theorem positions_eq_choices : ∀ ns, positions ns = choices (ns.map range)
  | [] => rfl
  | n :: ns => by rw [positions, positions_eq_choices ns, map_cons, choices]

theorem mem_positions : is ∈ positions ns ↔ Forall₂ (· < ·) is ns := by
  rw [positions_eq_choices, mem_choices, forall₂_map_right_iff]
  simp only [mem_range]

theorem WellFormed.defined (h : t.WellFormed) (hps : Inside ps t.shape) : Defined t.get? ps := by
  intro is his
  have hlt : linear t.shape is < t.data.length := by
    rw [h]
    exact linear_lt (forall₂_of_mem_choices hps his)
  simp [get?, hlt]

theorem WellFormed.restrict (h : t.WellFormed) (hps : Inside ps t.shape) :
    (restrict ps t).WellFormed := length_gather ps t.get? (h.defined hps)

theorem around_axis (pre post : List (List Nat)) (a : List Nat) : around ((pre ++ a :: post).map length) pre.length
      = (volume (pre.map length), volume (post.map length)) := by
  have hdrop : ((pre ++ a :: post).map length).drop (pre.length + 1) = post.map length := by
    have hlen : pre.length = (pre.map length).length := by simp
    rw [map_append, map_cons, hlen, drop_length_add_append]
    rfl
  rw [around, hdrop]
  simp

/-- **Pasting two parts.**  They take the same places on all axes but one; there the places are put one after the
other. -/
theorem paste_restrict (h : t.WellFormed) {a b : List Nat}
    (ha : Inside (pre ++ a :: post) t.shape) (hb : Inside (pre ++ b :: post) t.shape) :
    paste pre.length (restrict (pre ++ a :: post) t) (restrict (pre ++ b :: post) t)
      = restrict (pre ++ (a ++ b) :: post) t := by
  have hj := joinRows_gather a b post pre t.get? (h.defined ha) (h.defined hb)
  simp only [paste, restrict, around_axis, Tensor.mk.injEq]
  constructor
  · simp
  · simpa [select, gather] using hj

/-- **Cutting a range out of a part.**  The range is taken out of the list of places of its axis. -/
theorem part_restrict (h : t.WellFormed) {a : List Nat}
    (ha : Inside (pre ++ a :: post) t.shape) {lo hi : Nat} (hhi : hi ≤ a.length) :
    part pre.length lo hi (restrict (pre ++ a :: post) t) = restrict (pre ++ (a.drop lo).take (hi - lo) :: post) t := by
  have hc := flatMap_rowsOf_gather a post lo (hi - lo) pre t.get? (h.defined ha)
  simp only [part, restrict, around_axis, Tensor.mk.injEq]
  constructor
  · have hlen : min (hi - lo) (a.length - lo) = hi - lo := min_eq_left (by omega)
    simp [hlen]
  · simpa [select, gather] using hc

theorem flatMap_slices (xs : List α) (w n : Nat) :
    ((range n).flatMap fun i => (xs.drop (i * w)).take w) = xs.take (n * w) := by
  induction n with
  | zero => simp
  | succ n ih => rw [range_succ, flatMap_append, ih, flatMap_singleton, succ_mul, take_add]

theorem gather_ranges : ∀ (ns : List Nat) (xs : List α), xs.length = volume ns →
    gather (fun is => xs[linear ns is]?) (ns.map range) = xs
  | [], xs, h => by
    obtain ⟨x, rfl⟩ := length_eq_one_iff.mp h
    rfl
  | n :: ns, xs, h => by
    have hblock : ∀ i ∈ range n, gather (fun is => xs[linear (n :: ns) (i :: is)]?) (ns.map range)
        = (xs.drop (i * volume ns)).take (volume ns) := by
      intro i hi
      have hle : (i + 1) * volume ns ≤ xs.length := by
        rw [h]
        exact mul_le_mul_right _ (mem_range.mp hi)
      have hlen : ((xs.drop (i * volume ns)).take (volume ns)).length = volume ns := by
        rw [succ_mul] at hle
        rw [length_take, length_drop]
        omega
      rw [← gather_ranges ns _ hlen]
      refine filterMap_congr fun is his => ?_
      rw [← positions_eq_choices] at his
      have hlt : linear ns is < volume ns := linear_lt (mem_positions.mp his)
      rw [getElem?_take_of_lt hlt, getElem?_drop]
      rfl
    rw [map_cons, gather_cons, flatMap_congr hblock, flatMap_slices]
    exact take_of_length_le h.le

/-- **The part that takes every place is the whole tensor.** -/
theorem restrict_ranges (h : t.WellFormed) : restrict (t.shape.map range) t = t := by
  have hd : t.select (t.shape.map range) = t.data := gather_ranges t.shape t.data h
  have hs : (t.shape.map range).map length = t.shape := by simp [Function.comp_def]
  simp [restrict, hd, hs]

/-! ## 5. Positions in row-major order -/

theorem length_of_mem_positions (h : is ∈ positions ns) : is.length = ns.length := (mem_positions.mp h).length_eq

theorem exists_coordinate (h : is ∈ positions ns) {j : Nat} (hd : ns[j]? = some d) :
    ∃ i, is[j]? = some i ∧ i < d := by
  obtain ⟨hj, rfl⟩ := List.getElem?_eq_some_iff.mp hd
  have hj' : j < is.length := length_of_mem_positions h ▸ hj
  exact ⟨is[j], getElem?_eq_getElem hj', (mem_positions.mp h).get hj' hj⟩

theorem exists_positions_append (rest : List Nat) : ∀ {pre}, (∀ n ∈ pre, 0 < n) →
    ∃ others, positions (pre ++ rest) = (positions rest).map (replicate pre.length 0 ++ ·) ++ others
  | [], _ => ⟨[], by simp⟩
  | n :: pre, h => by
    obtain ⟨others, ih⟩ := exists_positions_append rest fun m hm => h m (.tail _ hm)
    obtain ⟨k, rfl⟩ : ∃ k, n = k + 1 := exists_eq_add_one.mpr (h n mem_cons_self)
    rw [cons_append, positions, range_succ_eq_map, flatMap_cons, ih, map_append, map_map,
      append_assoc]
    exact ⟨_, rfl⟩

theorem length_positions (ns : List Nat) : (positions ns).length = volume ns := by
  simp [positions_eq_choices, length_choices, Function.comp_def]

theorem length_position : ∀ ns k, (position ns k).length = ns.length
  | [], _ => rfl
  | n :: ns, k => by simp [position, length_position ns]

/-- The numbers below a product, in order: the first factor runs slowest. -/
theorem range_mul (n w : Nat) : range (n * w) = (range n).flatMap fun i => (range w).map (i * w + ·) := by
  induction n with
  | zero => simp
  | succ n ih => rw [succ_mul, range_add, ih, range_succ, flatMap_append]; simp

theorem position_cons {i k : Nat} (hk : k < volume ns) : position (d :: ns) (i * volume ns + k) = i :: position ns k := by
  rw [position, mul_comm i, mul_add_div (by omega), mul_add_mod, div_eq_of_lt hk, mod_eq_of_lt hk, add_zero]

/-- The positions at all places, in order, are all positions in row-major order. -/
theorem map_position_range : ∀ ns, (range (volume ns)).map (position ns) = positions ns
  | [] => rfl
  | n :: ns => by
    rw [volume, range_mul, map_flatMap, positions]
    refine flatMap_congr fun i _ => ?_
    rw [← map_position_range ns, map_map, map_map]
    exact map_congr_left fun k hk => position_cons (mem_range.mp hk)

theorem position_linear : ∀ {ns is}, is ∈ positions ns → position ns (linear ns is) = is
  | [], is, h => by
    obtain rfl : is = [] := by simpa [positions] using h
    rfl
  | n :: ns, is, h => by
    cases mem_positions.mp h with
    | cons _ hjs => rw [linear, position_cons (linear_lt hjs), position_linear (mem_positions.mpr hjs)]

theorem getElem?_positions_linear (h : is ∈ positions ns) : (positions ns)[linear ns is]? = some is := by
  have hlt : linear ns is < volume ns := linear_lt (mem_positions.mp h)
  rw [← map_position_range, getElem?_map, getElem?_range hlt, Option.map_some, position_linear h]

/-! ## 6. Cutting into equal parts -/

/-- The positions inside an axis of `d` parts of length `q` where two parts meet. -/
def cutsOn (d q : Nat) : List Nat := (range' 1 (d - 1)).map (· * q)

theorem cutFrom_multiples {axis : Nat} (hn : t.shape[axis]? = some (d * q)) : ∀ k a,
    a + k + 1 = d → cutFrom axis (a * q) t ((range' (a + 1) k).map (· * q))
      = (range' a (k + 1)).map fun b => t.part axis (b * q) ((b + 1) * q)
  | 0, a, h => by
    have hlo : Nat.min (a * q) (d * q) = a * q := Nat.min_eq_left (Nat.mul_le_mul_right q (by omega))
    rw [range'_zero, map_nil, cutFrom, hn, Option.getD_some, hlo, ← h]
    simp
  | k + 1, a, h => by
    have ih := cutFrom_multiples hn k (a + 1) (by omega)
    have hlo : Nat.min (a * q) (d * q) = a * q := Nat.min_eq_left (Nat.mul_le_mul_right q (by omega))
    have hhi : Nat.min ((a + 1) * q) (d * q) = (a + 1) * q := Nat.min_eq_left (Nat.mul_le_mul_right q (by omega))
    rw [range'_succ, map_cons, cutFrom, hn, Option.getD_some, hlo, hhi, ih, range'_succ (n := k + 1),
      map_cons]

/-- **Cutting one axis into equal parts.** -/
theorem cut_restrict (h : t.WellFormed) (hd : 0 < d)
    (hin : Inside (pre ++ range (d * q) :: post) t.shape) :
    cut pre.length (cutsOn d q) (restrict (pre ++ range (d * q) :: post) t)
      = (range d).map fun b => restrict (pre ++ range' (b * q) q :: post) t := by
  have hn : (restrict (pre ++ range (d * q) :: post) t).shape[pre.length]? = some (d * q) := by simp
  have hcut := cutFrom_multiples hn (d - 1) 0 (by omega)
  rw [Nat.zero_mul, Nat.zero_add, Nat.sub_add_cancel hd, ← range_eq_range'] at hcut
  rw [cut, cutsOn, hcut]
  refine map_congr_left fun b hb => ?_
  have hle : (b + 1) * q ≤ d * q := Nat.mul_le_mul_right q (mem_range.mp hb)
  have hplaces : ((range (d * q)).drop (b * q)).take ((b + 1) * q - b * q) = range' (b * q) q := by
    rw [Nat.succ_mul] at hle ⊢
    rw [range_eq_range', drop_range', Nat.add_sub_cancel_left, take_range'_of_length_ge (by omega),
      Nat.zero_add, Nat.mul_one]
  rw [part_restrict h hin (by simpa using hle), hplaces]

/-- **Cutting all axes from one on**: the parts at all positions of a box whose sides are the numbers of parts.  By
induction on the axes that are left; those before them are cut already. -/
theorem cutAll_restrict (h : t.WellFormed) : ∀ (axes : List (Nat × Nat)) (pre : List (List Nat)),
    (∀ p ∈ axes, 0 < p.1) → Inside (pre ++ axes.map fun p => range (p.1 * p.2)) t.shape →
    cutAll pre.length (axes.map fun p => cutsOn p.1 p.2) (restrict (pre ++ axes.map fun p => range (p.1 * p.2)) t)
      = (positions (axes.map Prod.fst)).map fun is =>
          restrict (pre ++ zipWith (fun i p => range' (i * p.2) p.2) is axes) t
  | [], pre, _, _ => by simp [cutAll, positions]
  | (d, q) :: axes, pre, hpos, hin => by
    have hd : 0 < d := hpos (d, q) mem_cons_self
    rw [map_cons, map_cons, cutAll, cut_restrict h hd hin, map_cons, positions, flatMap_map,
      map_flatMap]
    refine flatMap_congr fun b hb => ?_
    have hsub : ∀ x ∈ range' (b * q) q, x ∈ range (d * q) := by
      intro x hx
      have hlt := (mem_range'_1.mp hx).2
      have hle : (b + 1) * q ≤ d * q := mul_le_mul_right q (mem_range.mp hb)
      rw [succ_mul] at hle
      exact mem_range.mpr (by omega)
    have hin' : Inside ((pre ++ [range' (b * q) q]) ++ axes.map fun p => range (p.1 * p.2)) t.shape := by
      rw [append_assoc]
      exact hin.of_subset hsub
    have ih := cutAll_restrict h axes (pre ++ [range' (b * q) q])
      (fun p hp => hpos p (.tail _ hp)) hin'
    rw [length_append, length_singleton, append_assoc, singleton_append] at ih
    rw [ih, map_map]
    refine map_congr_left fun is _ => ?_
    simp

/-! ## 7. Choices of places -/

theorem nodup_choices : ∀ {ps}, (∀ p ∈ ps, p.Nodup) → (choices ps).Nodup
  | [], _ => by simp [choices]
  | p :: ps, h => by
    obtain ⟨hp, hps⟩ := forall_mem_cons.mp h
    refine nodup_flatMap.mpr ⟨fun i _ => (nodup_choices hps).map (cons_injective), hp.imp fun {i j} hne => ?_⟩
    intro is hi hj
    obtain ⟨as, -, rfl⟩ := mem_map.mp hi
    obtain ⟨bs, -, hbs⟩ := mem_map.mp hj
    exact hne (cons.inj hbs).1.symm

theorem getElem?_flatMap_blocks {r : Nat} (hlen : ∀ i ∈ p, (g i).length = w)
    (hr : r < w) (j : Nat) : (p.flatMap g)[j * w + r]? = p[j]?.bind fun i => (g i)[r]? := by
  rw [← getElem?_drop, drop_flatMap p j hlen]
  cases hd : p.drop j with
  | nil =>
    have hj : p[j]? = none := getElem?_eq_none (drop_eq_nil_iff.mp hd)
    simp [hj]
  | cons i rest =>
    have hj : p[j]? = some i := by rw [← head?_drop, hd, head?_cons]
    have hi : (g i).length = w := hlen i (mem_of_getElem? hj)
    rw [flatMap_cons, getElem?_append_left (hi ▸ hr), hj, Option.bind_some]

/-- The element of a part at a place is the element at the choice that stands there. -/
theorem getElem?_gather (h : Defined f ps) (k : Nat) : (gather f ps)[k]? = (choices ps)[k]?.bind f := by
  rw [gather]
  rw [Defined] at h
  generalize choices ps = cs at h
  induction cs generalizing k with
  | nil => rfl
  | cons c cs ih =>
    obtain ⟨hc, hcs⟩ := forall_mem_cons.mp h
    obtain ⟨a, ha⟩ := Option.isSome_iff_exists.mp hc
    rw [filterMap_cons_some ha]
    cases k with
    | zero => simp [ha]
    | succ k => simpa using ih k hcs

/-- A part of an array of different elements that takes no place twice has different elements. -/
theorem nodup_select (ht : t.data.Nodup) (hps : Inside ps t.shape) (hnd : ∀ p ∈ ps, p.Nodup) : (t.select ps).Nodup := by
  refine pairwise_filterMap.mpr ((nodup_choices hnd).imp_of_mem fun {is js} his hjs hne a ha b hb heq => hne ?_)
  obtain ⟨hlt, ha⟩ := List.getElem?_eq_some_iff.mp ha
  obtain ⟨hlt', hb⟩ := List.getElem?_eq_some_iff.mp hb
  have hplace : linear t.shape is = linear t.shape js := (ht.getElem_inj_iff).mp (ha.trans (heq.trans hb.symm))
  rw [← position_linear (mem_positions.mpr (forall₂_of_mem_choices hps his)), hplace,
    position_linear (mem_positions.mpr (forall₂_of_mem_choices hps hjs))]

end TensorKit.Tensor
