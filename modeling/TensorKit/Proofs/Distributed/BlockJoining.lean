import TensorKit.Proofs.Distributed.EvenSplitting
/-!
# Joining blocks

A block is added to a list of blocks by joining it with the first one that it touches on one axis and equals on all
others; the joined block is then added in the same way.

* **No point is lost or counted twice** (`add_countP_holds`): for boxes that all have points, adding one changes for no
  point the number of boxes that hold it.
* **The blocks of an even splitting join to the whole tensor** (`foldlM_add_blockAt`).  The blocks come in row-major
  order of the mesh, so the list holds one partly joined block for each mesh axis that has moved on.  The proof does not
  follow that list.  It shows that feeding all blocks under a prefix of coordinates is the same as feeding the one block
  of the prefix, as long as nothing in the list joins a block that is finer than the prefix (`Settled`); then it goes
  from the full coordinates back to the empty prefix.

Two blocks that differ on two axes do not join (`apart_of_differ`).  A partly joined block differs from every later,
finer block on the mesh axis on which it stopped and on one that the finer block has split.
-/

namespace TensorKit.Distributed

open Position Tensor List Block Nat

variable {axis : Nat} {swapped : Bool}
variable {b u v x : Block} {i k d q : Nat} {ps xs ys : List Block} {rest cs : List Nat} {f : Nat → List Block}

/-! ## 1. Points of a block -/

def Span.holds (s : Span) (x : Int) : Bool := decide (s.lo ≤ x) && decide (x < s.hi)

namespace Block

variable {l m r : Int} {a : Block}

/-- Is a point in a block?  It has a coordinate for each axis. -/
def holds : Block → List Int → Bool
  | [], [] => true
  | s :: b, x :: p => s.holds x && holds b p
  | _, _ => false

def HasPoints (b : Block) : Prop := ∀ s ∈ b, s.lo < s.hi

theorem countP_holds_join (hlm : l ≤ m) (hmr : m ≤ r) (post : Block) : ∀ pre p,
    [pre ++ ⟨l, r⟩ :: post].countP (holds · p)
      = [pre ++ ⟨l, m⟩ :: post].countP (holds · p) + [pre ++ ⟨m, r⟩ :: post].countP (holds · p)
  | [], [] => by simp [holds]
  | [], x :: p => by
    cases hp : holds post p
    · simp [holds, hp]
    · simp only [countP_singleton, nil_append, holds, hp, Span.holds, Bool.and_true, Bool.and_eq_true,
        decide_eq_true_eq]
      split_ifs <;> omega
  | s :: pre, [] => by simp [holds]
  | s :: pre, x :: p => by
    have ih := countP_holds_join hlm hmr post pre p
    cases hs : s.holds x
    · simp [holds, hs]
    · simpa [holds, hs] using ih

/-! ## 2. Comparing two blocks -/

/-- What a joint says: the spans `x` and `y` of two blocks touch, the second one first if it is swapped, and the new
span is their union. -/
def Touches (x y : Span) (swapped : Bool) (z : Span) : Prop :=
  (swapped = false ∧ x.hi = y.lo ∧ z = ⟨x.lo, y.hi⟩) ∨ (swapped ∧ x.lo = y.hi ∧ z = ⟨y.lo, x.hi⟩)

/-- What is found by comparing two blocks from an axis on: blocks that differ on one axis agree before and after it, and
if they join there, they touch. -/
structure Compared (k : Nat) (a b : Block) (n : Nat) (j : Joint) : Prop where
  same : n = 0 ↔ a = b
  joint : n = 0 → j = ⟨none, false, a⟩
  differ : n = 1 → ∀ i, j.axis = some i → ∃ pre x y z post, a = pre ++ x :: post ∧ b = pre ++ y :: post ∧
    i = k + pre.length ∧ j.block = pre ++ z :: post ∧ Touches x y j.swapped z

theorem exists_compareFrom (k : Nat) (h : a.length = b.length) :
    ∃ n j, compareFrom k a b = .ok (n, j) ∧ Compared k a b n j := by
  induction a generalizing k b with
  | nil =>
    obtain rfl : b = [] := by simpa using h.symm
    exact ⟨0, _, rfl, by simp, fun _ => rfl, by simp⟩
  | cons s a ih =>
    obtain ⟨t, b, rfl⟩ := exists_cons_of_length_eq_add_one h.symm
    obtain ⟨n, g, hg, hn⟩ := ih (k + 1) (by simpa using h)
    simp only [compareFrom, hg, ok_bind, pure_eq_ok]
    split
    next hst =>
      subst hst
      refine ⟨_, _, rfl, by simpa using hn.same, fun h0 => by simp [hn.joint h0], fun h1 i hi => ?_⟩
      obtain ⟨pre, x, y, z, post, rfl, rfl, rfl, hblock, ht⟩ := hn.differ h1 i hi
      exact ⟨s :: pre, x, y, z, post, rfl, rfl, by simp [add_assoc, add_comm 1], by simp [hblock], ht⟩
    next hst =>
      -- the blocks differ here, so if this is the only axis, they agree on all later ones
      have hhere (j : Joint) (hj : g = ⟨none, false, a⟩ → ∀ i, j.axis = some i → i = k ∧
          ∃ z, j.block = z :: a ∧ Touches s t j.swapped z) : Compared k (s :: a) (t :: b) (n + 1) j := by
        refine ⟨by simp [hst], by simp, fun h1 i hi => ?_⟩
        obtain rfl : n = 0 := by omega
        obtain ⟨rfl, z, hz⟩ := hj (hn.joint rfl) i hi
        exact ⟨[], s, t, z, a, rfl, by simp [hn.same.mp rfl], rfl, hz⟩
      split
      next ht => exact ⟨_, _, rfl, hhere _ fun hg i hi => by simp_all [Touches]⟩
      · split
        next ht => exact ⟨_, _, rfl, hhere _ fun hg i hi => by simp_all [Touches]⟩
        · exact ⟨_, _, rfl, hhere _ fun hg i hi => by simp_all⟩

theorem compareFrom_self (k : Nat) (a : Block) : compareFrom k a a = .ok (0, ⟨none, false, a⟩) := by
  obtain ⟨n, j, hj, hn⟩ := exists_compareFrom k (rfl : a.length = a.length)
  obtain rfl := hn.same.mpr rfl
  rw [hj, hn.joint rfl]

/-! ## 3. Blocks that join, and blocks that do not -/

/-- The second block joins the first to the block `c`; it comes first if it is swapped. -/
def Joins (a b : Block) (axis : Nat) (swapped : Bool) (c : Block) : Prop := joint a b = .ok ⟨some axis, swapped, c⟩

def Apart (a b : Block) : Prop := ∃ j, joint a b = .ok j ∧ j.axis = none

theorem joins_or_apart (h : a.length = b.length) : (∃ axis swapped c, Joins a b axis swapped c) ∨ Apart a b := by
  obtain ⟨⟨axis, swapped, c⟩, hj⟩ : ∃ j, joint a b = .ok j := by
    obtain ⟨n, j, hj, -⟩ := exists_compareFrom 0 h
    exact ⟨_, by rw [joint, hj]; rfl⟩
  cases axis with
  | none => exact .inr ⟨_, hj, rfl⟩
  | some i => exact .inl ⟨i, swapped, c, hj⟩

/-- **Blocks that join** differ on one axis only and touch there. -/
theorem Joins.exists_axis {a c : Block} (h : Joins a b axis swapped c) (hlen : a.length = b.length) :
    ∃ pre x y z post, a = pre ++ x :: post ∧ b = pre ++ y :: post ∧
      axis = pre.length ∧ c = pre ++ z :: post ∧ Touches x y swapped z := by
  obtain ⟨n, g, hg, hn⟩ := exists_compareFrom 0 hlen
  simp only [Joins, joint, hg, ok_bind, pure_eq_ok, Except.ok.injEq] at h
  split at h
  next h1 =>
    subst h
    simpa using hn.differ h1 axis rfl
  · simp at h

/-- **Two blocks that differ on two axes are apart.** -/
theorem apart_of_differ (hlen : a.length = b.length) (hik : i ≠ k) (hi : a[i]? ≠ b[i]?)
    (hk : a[k]? ≠ b[k]?) : Apart a b := by
  rcases joins_or_apart hlen with ⟨axis, swapped, c, hj⟩ | h
  · obtain ⟨pre, x, y, z, post, rfl, rfl, -, -, -⟩ := hj.exists_axis hlen
    have hagree : ∀ n, n ≠ pre.length → (pre ++ x :: post)[n]? = (pre ++ y :: post)[n]? := by
      intro n hn
      rw [getElem?_append, getElem?_append]
      split
      · rfl
      · rw [getElem?_cons, getElem?_cons, if_neg (by omega), if_neg (by omega)]
    have hat : ∀ n, (pre ++ x :: post)[n]? ≠ (pre ++ y :: post)[n]? → n = pre.length :=
      fun n hn => by_contra fun hne => hn (hagree n hne)
    exact absurd ((hat i hi).trans (hat k hk).symm) hik
  · exact h

theorem compareFrom_touching (hlm : l < m) (hmr : m < r) (post : Block) : ∀ pre k,
    compareFrom k (pre ++ ⟨l, m⟩ :: post) (pre ++ ⟨m, r⟩ :: post)
      = .ok (1, ⟨some (k + pre.length), false, pre ++ ⟨l, r⟩ :: post⟩)
  | [], k => by
    have hne : (⟨l, m⟩ : Span) ≠ ⟨m, r⟩ := by
      simp only [ne_eq, Span.mk.injEq, not_and]
      omega
    simp only [nil_append, compareFrom, compareFrom_self, ok_bind, if_neg hne, true_and,
      if_pos (show l < r by omega)]
    rfl
  | s :: pre, k => by
    have ih := compareFrom_touching hlm hmr post pre (k + 1)
    simp only [cons_append, compareFrom, ih, ok_bind, if_true]
    simp [pure_eq_ok, add_assoc, add_comm 1]

/-- **Two blocks that touch on one axis and agree on the others join.** -/
theorem joins_touching (hlm : l < m) (hmr : m < r) (pre post : Block) :
    Joins (pre ++ ⟨l, m⟩ :: post) (pre ++ ⟨m, r⟩ :: post) pre.length false (pre ++ ⟨l, r⟩ :: post) := by
  rw [Joins, joint, compareFrom_touching hlm hmr post pre 0]
  simp

/-! ## 4. Adding a block -/

section JoinFirst

variable {α ε : Type} [MonadLiftT Fallible (Except ε)]

/-- Errors are taken over from joints without touching results. -/
def KeepsOk (ε : Type) [MonadLiftT Fallible (Except ε)] : Prop :=
  ∀ j : Joint, (liftM (Except.ok j : Fallible Joint) : Except ε Joint) = .ok j

variable {paste : Nat → α → α → Except ε α}

theorem joinFirst_of_apart (hk : KeepsOk ε) (x : α) : ∀ {ps},
    (∀ p ∈ ps, Apart p.2 b) → joinFirst paste x b ps = .ok none
  | [], _ => rfl
  | (w, p) :: ps, h => by
    obtain ⟨j, hj, haxis⟩ := h (w, p) mem_cons_self
    have ih := joinFirst_of_apart hk x fun q hq => h q (.tail _ hq)
    simp only at hj
    simp only [joinFirst, hj, hk j, ok_bind, haxis, ih]
    rfl

theorem joinFirst_of_joins (hk : KeepsOk ε) (x w : α) (hu : Joins u b axis swapped v) {y : α}
    (hy : (if swapped then paste axis x w else paste axis w x) = .ok y) (rest : List (α × Block)) :
    ∀ {ps}, (∀ p ∈ ps, Apart p.2 b) →
      joinFirst paste x b (ps ++ (w, u) :: rest) = .ok (some ((y, v), ps ++ rest))
  | [], _ => by
    simp only [nil_append, joinFirst, show joint u b = _ from hu, hk _, ok_bind]
    cases swapped <;> simp only [Bool.false_eq_true, if_false, if_true] at hy ⊢ <;> rw [hy] <;> rfl
  | (z, p) :: ps, h => by
    obtain ⟨j, hj, haxis⟩ := h (z, p) mem_cons_self
    have ih := joinFirst_of_joins hk x w hu hy rest fun q hq => h q (.tail _ hq)
    simp only at hj
    simp only [cons_append, joinFirst, hj, hk j, ok_bind, haxis, ih]
    rfl

end JoinFirst

theorem keepsOk_failureKind : KeepsOk FailureKind := fun _ => rfl

theorem add_of_apart (h : ∀ p ∈ ps, Apart p b) : add ps b = .ok (ps ++ [b]) := by
  rw [add]
  cases hn : ps.length with
  | zero => rfl
  | succ n =>
    have hnone : joinFirst (fun _ _ _ => .ok ()) () b (ps.map fun p => ((), p)) = (.ok none : Fallible _) :=
      joinFirst_of_apart keepsOk_failureKind () (by simpa using h)
    simp only [addTo, hnone, ok_bind]
    rfl

/-- A block that joins one of the list, and none before it, takes it out and goes on as their union. -/
theorem add_of_joins {rest : List Block} (h : ∀ p ∈ ps, Apart p b) (hu : Joins u b axis swapped v) :
    add (ps ++ u :: rest) b = add (ps ++ rest) v := by
  have hsome : joinFirst (fun _ _ _ => .ok ()) () b ((ps ++ u :: rest).map fun p => ((), p))
      = (.ok (some (((), v), (ps ++ rest).map fun p => ((), p))) : Fallible _) := by
    rw [map_append, map_append, map_cons]
    exact joinFirst_of_joins keepsOk_failureKind () () hu (by simp) _ (by simpa using h)
  have hlen : (ps ++ u :: rest).length = (ps ++ rest).length + 1 := by simp [add_assoc]
  rw [add, hlen, addTo, hsome]
  simp [add]

/-! ## 5. Adding keeps the number of boxes at every point -/

theorem exists_first_joins : ∀ {ps}, (∀ p ∈ ps, p.length = b.length) →
    (∀ p ∈ ps, Apart p b) ∨ ∃ pre u rest axis swapped v, ps = pre ++ u :: rest ∧ (∀ p ∈ pre, Apart p b) ∧
      Joins u b axis swapped v
  | [], _ => Or.inl (by simp)
  | p :: ps, h => by
    rcases joins_or_apart (h p mem_cons_self) with ⟨axis, swapped, v, hj⟩ | ha
    · exact Or.inr ⟨[], p, ps, axis, swapped, v, rfl, by simp, hj⟩
    · rcases exists_first_joins fun q hq => h q (.tail _ hq) with hall | hsome
      · exact Or.inl fun q hq => (mem_cons.mp hq).elim (· ▸ ha) (hall q)
      · obtain ⟨pre, u, rest, axis, swapped, v, rfl, hpre, hj⟩ := hsome
        exact Or.inr ⟨p :: pre, u, rest, axis, swapped, v, rfl,
          fun q hq => (mem_cons.mp hq).elim (· ▸ ha) (hpre q), hj⟩

/-- The union of two blocks with points that join: its rank, its points, and how many of the two hold each point. -/
theorem Joins.union (h : Joins u b axis swapped v) (hlen : u.length = b.length) (hu : u.HasPoints)
    (hb : b.HasPoints) : v.length = b.length ∧ v.HasPoints ∧
      ∀ p, [v].countP (holds · p) = [u].countP (holds · p) + [b].countP (holds · p) := by
  obtain ⟨pre, x, y, z, post, rfl, rfl, -, rfl, ht⟩ := h.exists_axis hlen
  simp only [HasPoints, forall_mem_append, forall_mem_cons] at hu hb ⊢
  obtain ⟨hpre, hx, hpost⟩ := hu
  have hy := hb.2.1
  refine ⟨by simp, ?_⟩
  rcases ht with ⟨-, htouch, rfl⟩ | ⟨-, htouch, rfl⟩
  · refine ⟨⟨hpre, by simp only; omega, hpost⟩, fun p => ?_⟩
    have hcount := countP_holds_join hx.le (htouch ▸ hy.le) post pre p
    rwa [show (⟨x.hi, y.hi⟩ : Span) = y by rw [htouch]] at hcount
  · refine ⟨⟨hpre, by simp only; omega, hpost⟩, fun p => ?_⟩
    have hcount := countP_holds_join hy.le (htouch ▸ hx.le) post pre p
    rwa [show (⟨y.hi, x.hi⟩ : Span) = x by rw [← htouch], add_comm] at hcount

/-- **Adding a block keeps the number of boxes at every point.**  By induction on the length of the list, which every
joining makes shorter. -/
theorem add_countP_holds {r : Nat} : ∀ n ps b, ps.length = n →
    (∀ p ∈ ps, p.length = r ∧ p.HasPoints) → b.length = r → b.HasPoints →
    ∃ qs, add ps b = .ok qs ∧ (∀ q ∈ qs, q.length = r ∧ q.HasPoints) ∧
      ∀ p, qs.countP (holds · p) = (ps ++ [b]).countP (holds · p) := by
  intro n
  induction n using Nat.strong_induction_on with
  | _ n ih =>
    intro ps b hn hps hbr hb
    rcases exists_first_joins fun p hp => (hps p hp).1.trans hbr.symm with hall | hsome
    · exact ⟨ps ++ [b], add_of_apart hall, forall_mem_append.mpr ⟨hps, forall_mem_singleton.mpr ⟨hbr, hb⟩⟩, fun p => rfl⟩
    · obtain ⟨pre, u, rest, axis, swapped, v, rfl, hpre, hj⟩ := hsome
      obtain ⟨hur, hu⟩ := hps u (by simp)
      obtain ⟨hvr, hv, hcount⟩ := hj.union (hur.trans hbr.symm) hu hb
      obtain ⟨qs, hqs, hprop, hq⟩ := ih (pre ++ rest).length (by simp at hn ⊢; omega) (pre ++ rest) v rfl
        (fun p hp => hps p (by
          rcases mem_append.mp hp with hp | hp <;> simp [hp])) (hvr.trans hbr) hv
      refine ⟨qs, (add_of_joins hpre hj).trans hqs, hprop, fun p => ?_⟩
      rw [hq p, countP_append, countP_append, hcount p, countP_append, countP_append,
        countP_cons (l := rest), countP_singleton (a := u)]
      omega

end Block

/-! ## 6. The blocks under a prefix of coordinates -/

/-- Lists of blocks with first appearances only, when nothing new comes. -/
theorem eraseDups_append_of_subset (h : ∀ y ∈ ys, y ∈ xs) :
    (xs ++ ys).eraseDups = xs.eraseDups := by
  have hnone : ys.removeAll xs = [] := by simpa [removeAll] using h
  rw [eraseDups_append, hnone]
  simp

theorem eraseDups_append_of_disjoint (h : ∀ y ∈ ys, y ∉ xs) :
    (xs ++ ys).eraseDups = xs.eraseDups ++ ys.eraseDups := by
  have hall : ys.removeAll xs = ys := by simpa [removeAll] using h
  rw [eraseDups_append, hall]

/-- The same list over and over has the first appearances of the list. -/
theorem eraseDups_flatMap_const (xs : List Block) : ∀ {n}, 0 < n →
    ((List.range n).flatMap fun _ => xs).eraseDups = xs.eraseDups
  | n + 1, _ => by
    rw [range_succ_eq_map, flatMap_cons, flatMap_map]
    refine eraseDups_append_of_subset fun y hy => ?_
    obtain ⟨_, -, hy⟩ := mem_flatMap.mp hy
    exact hy

/-- Lists with nothing in common keep their first appearances. -/
theorem eraseDups_flatMap_of_disjoint (h : ∀ a b, a < b → ∀ y ∈ f b, y ∉ f a) : ∀ n : Nat,
    ((List.range n).flatMap f).eraseDups = (List.range n).flatMap fun a => (f a).eraseDups
  | 0 => by simp
  | n + 1 => by
    rw [range_succ, flatMap_append, flatMap_append, eraseDups_append_of_disjoint,
      eraseDups_flatMap_of_disjoint h n]
    · simp
    · intro y hy hmem
      obtain ⟨a, ha, hya⟩ := mem_flatMap.mp hmem
      exact h a n (mem_range.mp ha) y (by simpa using hy) hya

variable {mesh : List Nat} {mapping : List Int} {sizes : List Nat}

/-- The blocks of all processes whose coordinates begin with a prefix, in the order of the mesh; `rest` are the sizes of
the mesh axes after the prefix. -/
def leaves (mesh : List Nat) (mapping : List Int) (sizes cs rest : List Nat) : List Block :=
  (positions rest).map fun d => blockAt mesh mapping sizes (cs ++ d)

/-- The mesh axis after a prefix of coordinates, and what comes after one more coordinate. -/
theorem drop_length_cons {s : Nat} (h : mesh.drop cs.length = s :: rest) :
    mesh[cs.length]? = some s ∧ ∀ a, mesh.drop (cs ++ [a]).length = rest := by
  refine ⟨?_, fun a => ?_⟩
  · have h0 := congrArg (fun l : List Nat => l[0]?) h
    simpa using h0
  · rw [length_append, length_singleton, ← drop_drop, h]
    rfl

theorem leaves_nil (cs : List Nat) : leaves mesh mapping sizes cs [] = [blockAt mesh mapping sizes cs] := by
  simp [leaves, positions]

theorem leaves_cons (cs : List Nat) (s : Nat) (rest : List Nat) : leaves mesh mapping sizes cs (s :: rest)
      = (List.range s).flatMap fun a => leaves mesh mapping sizes (cs ++ [a]) rest := by
  simp [leaves, positions, map_flatMap, Function.comp_def]

theorem leaves_snoc_of_notMem (h : Even mesh mapping sizes) (hc : (cs.length : Int) ∉ mapping)
    (a b : Nat) (rest : List Nat) :
    leaves mesh mapping sizes (cs ++ [a]) rest = leaves mesh mapping sizes (cs ++ [b]) rest := by
  refine map_congr_left fun d _ => blockAt_congr h fun j hj => ?_
  have hne : j ≠ cs.length := fun hjc => hc (hjc ▸ hj)
  have hval : ∀ e, (cs ++ [e] ++ d)[j]? = if j < cs.length then cs[j]? else d[j - cs.length - 1]? := by
    intro e
    rw [append_assoc, getElem?_append]
    split
    · rfl
    · rw [singleton_append, getElem?_cons, if_neg (by omega)]
  rw [hval a, hval b]

theorem SplitAxis.getElem?_leaf {j a : Nat} (h : SplitAxis mesh mapping sizes j i d q)
    (ha : cs[j]? = some a) (hx : x ∈ leaves mesh mapping sizes cs rest) :
    x[i]? = some ⟨(a * q : Nat), ((a + 1) * q : Nat)⟩ := by
  obtain ⟨e, -, rfl⟩ := mem_map.mp hx
  refine h.getElem?_part ?_
  rw [getElem?_append_left (lt_of_getElem? ha), ha]

/-- A mesh axis that splits an axis has different blocks under different coordinates. -/
theorem leaves_disjoint (hx : SplitAxis mesh mapping sizes cs.length i d q) {a b : Nat}
    (hab : a < b) : ∀ y ∈ leaves mesh mapping sizes (cs ++ [b]) rest,
      y ∉ leaves mesh mapping sizes (cs ++ [a]) rest := by
  intro y hb ha
  have h1 := hx.getElem?_leaf (a := b) (by simp) hb
  have h2 := hx.getElem?_leaf (a := a) (by simp) ha
  rw [h1] at h2
  have hmul := Nat.mul_lt_mul_of_pos_right hab hx.q_pos
  simp only [Option.some.injEq, Span.mk.injEq, Nat.cast_inj] at h2
  omega

/-! ## 7. Joining the blocks under a prefix -/

/-- A block is finer than a prefix of coordinates: it agrees with the block of the prefix on the axes that the prefix
has settled, and it has less than the whole of another axis. -/
structure Finer (mesh : List Nat) (mapping : List Int) (sizes cs : List Nat) (x : Block) : Prop where
  length : x.length = sizes.length
  agrees : ∀ i : Nat, (∀ j : Nat, mapping[i]? = some (j : Int) → j < cs.length) →
    x[i]? = (blockAt mesh mapping sizes cs)[i]?
  differs : ∃ i j : Nat, cs.length ≤ j ∧ mapping[i]? = some (j : Int) ∧ x[i]? ≠ (blockAt mesh mapping sizes cs)[i]?

/-- Blocks are settled for a prefix: none of them joins a block that is finer. -/
def Settled (mesh : List Nat) (mapping : List Int) (sizes cs : List Nat) (ps : List Block) : Prop :=
  ∀ p ∈ ps, ∀ x, Finer mesh mapping sizes cs x → Block.Apart p x

/-- A later coordinate changes nothing on an axis that is split later still. -/
theorem getElem?_blockAt_snoc (h : Even mesh mapping sizes) {j : Nat} (hj : mapping[i]? = some (j : Int))
    (hlt : cs.length < j) (a : Nat) :
    (blockAt mesh mapping sizes cs)[i]? = (blockAt mesh mapping sizes (cs ++ [a]))[i]? := by
  refine getElem?_blockAt_congr h fun k hk => ?_
  obtain rfl : k = j := by
    rw [hj] at hk
    simpa using hk.symm
  rw [getElem?_eq_none hlt.le, getElem?_eq_none]
  simpa using hlt

theorem Finer.of_snoc (h : Even mesh mapping sizes) {a : Nat}
    (hx : Finer mesh mapping sizes (cs ++ [a]) x) : Finer mesh mapping sizes cs x := by
  refine ⟨hx.length, fun i hi => ?_, ?_⟩
  · rw [hx.agrees i fun j hj => by simpa using lt_succ_of_lt (hi j hj)]
    exact getElem?_blockAt_congr h fun j hj => getElem?_append_left (hi j hj)
  · obtain ⟨i, j, hcj, hj, hne⟩ := hx.differs
    have hlt : cs.length < j := by simpa using hcj
    exact ⟨i, j, hlt.le, hj, fun heq => hne (heq.trans (getElem?_blockAt_snoc h hj hlt a))⟩

theorem Settled.snoc (h : Even mesh mapping sizes) (hps : Settled mesh mapping sizes cs ps) (a : Nat) :
    Settled mesh mapping sizes (cs ++ [a]) ps := fun p hp x hfine => hps p hp x (hfine.of_snoc h)

def firstParts (mesh : List Nat) (mapping : List Int) (sizes cs : List Nat) (i q k : Nat) : Block :=
  (blockAt mesh mapping sizes cs).set i ⟨0, (k * q : Nat)⟩

section Split

variable (h : Even mesh mapping sizes) (hx : SplitAxis mesh mapping sizes cs.length i d q)
include h hx

theorem finer_set {s : Span} (hs : s ≠ ⟨0, (d * q : Nat)⟩) :
    Finer mesh mapping sizes cs ((blockAt mesh mapping sizes cs).set i s) := by
  refine ⟨by rw [length_set, length_blockAt h], fun k hk => ?_, ⟨i, cs.length, le_rfl, hx.entry, ?_⟩⟩
  · rw [getElem?_set_ne]
    rintro rfl
    exact absurd (hk _ hx.entry) (by omega)
  · rw [getElem?_set_self (hx.lt_blockAt h cs), hx.getElem?_whole le_rfl]
    simpa using hs

theorem apart_firstParts (hk : 0 < k) (hfine : Finer mesh mapping sizes (cs ++ [k]) x) :
    Block.Apart (firstParts mesh mapping sizes cs i q k) x := by
  obtain ⟨i', j, hcj, hj, hne⟩ := hfine.differs
  have hji : cs.length < j := by simpa using hcj
  have hii : i ≠ i' := by
    rintro rfl
    exact absurd (hx.entry_eq hj) (by omega)
  refine apart_of_differ ?_ hii ?_ ?_
  · rw [firstParts, length_set, length_blockAt h, hfine.length]
  · have hxi : x[i]? = some ⟨(k * q : Nat), ((k + 1) * q : Nat)⟩ := by
      rw [hfine.agrees i fun j' hj' => ?_, hx.getElem?_part (a := k) (by simp)]
      simp [hx.entry_eq hj']
    rw [firstParts, getElem?_set_self (hx.lt_blockAt h cs), hxi]
    have hpos := mul_pos hk hx.q_pos
    simp only [ne_eq, Option.some.injEq, Span.mk.injEq, not_and]
    omega
  · rw [firstParts, getElem?_set_ne hii]
    exact fun heq => hne (heq.symm.trans (getElem?_blockAt_snoc h hj hji k))

theorem joins_firstParts (hk : 0 < k) :
    Block.Joins (firstParts mesh mapping sizes cs i q k) (blockAt mesh mapping sizes (cs ++ [k])) i false
      (firstParts mesh mapping sizes cs i q (k + 1)) := by
  have hlm : (0 : Int) < (k * q : Nat) := by
    have := mul_pos hk hx.q_pos
    omega
  have hmr : ((k * q : Nat) : Int) < ((k + 1) * q : Nat) := by
    have := mul_lt_mul_of_pos_right (show k < k + 1 by omega) hx.q_pos
    omega
  have hj := joins_touching hlm hmr ((blockAt mesh mapping sizes cs).take i)
    ((blockAt mesh mapping sizes cs).drop (i + 1))
  rw [length_take, min_eq_left (hx.lt_blockAt h cs).le] at hj
  rwa [blockAt_snoc h hx, firstParts, firstParts, hx.set_blockAt h, hx.set_blockAt h, hx.set_blockAt h]

theorem firstParts_all : firstParts mesh mapping sizes cs i q d = blockAt mesh mapping sizes cs := by
  refine ext_getElem? fun k => ?_
  by_cases hk : k = i
  · subst hk
    rw [firstParts, getElem?_set_self (hx.lt_blockAt h cs), hx.getElem?_whole le_rfl]
  · rw [firstParts, getElem?_set_ne (Ne.symm hk)]

theorem firstParts_one : firstParts mesh mapping sizes cs i q 1 = blockAt mesh mapping sizes (cs ++ [0]) := by
  rw [blockAt_snoc h hx, firstParts]
  simp

/-- **One mesh axis.**  If the blocks under each part may be fed as one block, the parts fed one after the other join to
the whole axis. -/
theorem foldlM_add_parts (hps : Settled mesh mapping sizes cs ps)
    (hf : ∀ a qs, Settled mesh mapping sizes (cs ++ [a]) qs →
      (f a).foldlM add qs = add qs (blockAt mesh mapping sizes (cs ++ [a]))) : ∀ k, k < d →
    ((List.range (k + 1)).flatMap f).foldlM add ps = add ps (firstParts mesh mapping sizes cs i q (k + 1))
  | 0, _ => by simpa [firstParts_one h hx] using hf 0 ps (hps.snoc h 0)
  | k + 1, hk => by
    have ih := foldlM_add_parts hps hf k (by omega)
    have hd := Nat.mul_lt_mul_of_pos_right hk hx.q_pos
    -- the parts so far are not the whole axis, so they join nothing and wait at the end of the list
    have hwait : add ps (firstParts mesh mapping sizes cs i q (k + 1))
        = .ok (ps ++ [firstParts mesh mapping sizes cs i q (k + 1)]) := by
      refine add_of_apart fun p hp => hps p hp _ (finer_set h hx ?_)
      simp only [ne_eq, Span.mk.injEq, true_and, Nat.cast_inj]
      omega
    have hsettled : Settled mesh mapping sizes (cs ++ [k + 1])
        (ps ++ [firstParts mesh mapping sizes cs i q (k + 1)]) := by
      refine forall_mem_append.mpr ⟨hps.snoc h (k + 1), forall_mem_singleton.mpr fun x hfine => ?_⟩
      exact apart_firstParts h hx (by omega) hfine
    have hapart : ∀ p ∈ ps, Block.Apart p (blockAt mesh mapping sizes (cs ++ [k + 1])) := by
      intro p hp
      rw [blockAt_snoc h hx]
      refine hps p hp _ (finer_set h hx ?_)
      have hpos : 0 < (k + 1) * q := Nat.mul_pos (by omega) hx.q_pos
      simp only [ne_eq, Span.mk.injEq, not_and]
      omega
    have hjoin : add (ps ++ [firstParts mesh mapping sizes cs i q (k + 1)])
          (blockAt mesh mapping sizes (cs ++ [k + 1]))
        = add (ps ++ []) (firstParts mesh mapping sizes cs i q (k + 1 + 1)) :=
      add_of_joins hapart (joins_firstParts h hx (by omega))
    rw [range_succ, flatMap_append, foldlM_append, ih, hwait]
    simp only [flatMap_cons, flatMap_nil, append_nil, ok_bind] at hjoin ⊢
    rw [hf (k + 1) _ hsettled, hjoin]

end Split

/-- **Feeding the blocks under a prefix is feeding the block of the prefix**, for a list in which nothing joins a finer
block.  By induction on the mesh axes after the prefix. -/
theorem foldlM_add_leaves (h : Even mesh mapping sizes) : ∀ rest cs ps,
    mesh.drop cs.length = rest → Settled mesh mapping sizes cs ps →
    (leaves mesh mapping sizes cs rest).eraseDups.foldlM add ps = add ps (blockAt mesh mapping sizes cs)
  | [], cs, ps, _, _ => by
    rw [leaves_nil]
    simp [eraseDups_cons]
  | s :: rest, cs, ps, hdrop, hps => by
    obtain ⟨hget, hrest⟩ := drop_length_cons hdrop
    have hspos : 0 < s := h.mesh_pos s (mem_of_getElem? hget)
    rw [leaves_cons]
    by_cases hc : (cs.length : Int) ∈ mapping
    · obtain ⟨i, d, q, hx⟩ := h.exists_splitAxis hc
      obtain rfl : d = s := by simpa using hx.extent.symm.trans hget
      rw [eraseDups_flatMap_of_disjoint fun a b hab => leaves_disjoint hx hab, ← firstParts_all h hx,
        show d = (d - 1) + 1 by omega]
      exact foldlM_add_parts h hx hps (fun a qs hqs => foldlM_add_leaves h rest (cs ++ [a]) qs (hrest a) hqs) (d - 1)
        (by omega)
    · have hsame : ∀ a ∈ List.range s,
          leaves mesh mapping sizes (cs ++ [a]) rest = leaves mesh mapping sizes (cs ++ [0]) rest :=
        fun a _ => leaves_snoc_of_notMem h hc a 0 rest
      rw [flatMap_congr hsame, eraseDups_flatMap_const _ hspos,
        foldlM_add_leaves h rest (cs ++ [0]) ps (hrest 0) (hps.snoc h 0), blockAt_snoc_of_notMem h hc]

theorem foldlM_add_blockAt (h : Even mesh mapping sizes) :
    ((positions mesh).map (blockAt mesh mapping sizes)).eraseDups.foldlM add [] = .ok [wholeBlock sizes] := by
  have hfeed := foldlM_add_leaves h mesh [] [] (by simp) (by simp [Settled])
  rw [blockAt_nil h] at hfeed
  have hadd : add [] (wholeBlock sizes) = .ok [wholeBlock sizes] := rfl
  simpa [leaves, hadd] using hfeed

/-! ## 8. Partitions joined one by one -/

theorem Block.addEach_of_foldlM : ∀ {bs ps qs}, bs.foldlM add ps = .ok qs →
    ∃ steps, addEach ps bs = .ok steps ∧ (ps :: steps).getLast? = some qs
  | [], ps, qs, h => by
    obtain rfl : ps = qs := by simpa [pure_eq_ok] using h
    exact ⟨[], rfl, rfl⟩
  | b :: bs, ps, qs, h => by
    rw [foldlM_cons] at h
    obtain ⟨rs, hadd, h⟩ := of_bind_eq_ok h
    obtain ⟨steps, hsteps, hlast⟩ := addEach_of_foldlM h
    refine ⟨rs :: steps, ?_, by rwa [getLast?_cons_cons]⟩
    simp only [addEach, hadd, hsteps, ok_bind]
    rfl

/-- **A mesh of processes splits a tensor evenly**: it splits it, and its processes are distinct and as many as it has
places. -/
@[mk_iff]
structure Divides (mesh : List Nat) (mapping group : List Int) (sizes : List Nat) : Prop extends
    Even mesh mapping sizes where
  distinct : group.Nodup
  count : group.length = volume mesh

instance (mesh : List Nat) (mapping group : List Int) (sizes : List Nat) :
    Decidable (Divides mesh mapping group sizes) :=
  decidable_of_iff _ (divides_iff mesh mapping group sizes).symm

/-- **Joining reassembles every even splitting, and keeps the number of boxes at every point.**  For a mesh with at
least one axis every process has a block; fed in the order in which they first appear along the group, the blocks end up
as one, the whole tensor.  And for boxes with points, of one rank, one more box changes for no point the number of boxes
that hold it. -/
theorem addEach_ofProcess_getLast {mesh : List Nat} {mapping group : List Int} {sizes : List Nat}
    (h : Divides mesh mapping group sizes) (hne : mesh ≠ []) : (∃ blocks steps,
      (group.mapM fun p => Block.ofProcess p (sizes.map Int.ofNat) mapping (mesh.map Int.ofNat) group) = .ok blocks ∧
      Block.addEach [] blocks.eraseDups = .ok steps ∧ steps.getLast? = some [wholeBlock sizes]) ∧
    ∀ (r : Nat) (ps : List Block) (b : Block), (∀ p ∈ ps, p.length = r ∧ p.HasPoints) → b.length = r → b.HasPoints →
      ∃ qs, Block.add ps b = .ok qs ∧
        ∀ point, qs.countP (Block.holds · point) = (ps ++ [b]).countP (Block.holds · point) := by
  constructor
  · obtain ⟨steps, hsteps, hlast⟩ := Block.addEach_of_foldlM (foldlM_add_blockAt h.toEven)
    refine ⟨_, steps, mapM_ofProcess h.toEven hne h.distinct h.count, hsteps, ?_⟩
    cases steps with
    | nil => simp at hlast
    | cons s steps => rwa [getLast?_cons_cons] at hlast
  · intro r ps b hps hbr hb
    obtain ⟨qs, hqs, -, hcount⟩ := Block.add_countP_holds ps.length ps b rfl hps hbr hb
    exact ⟨qs, hqs, hcount⟩

/-- Six processes that split the first axis in three and the last in two, and a box that joins another from below. -/
theorem addEach_ofProcess_getLast_two_by_three :
    (Divides [2, 3] [1, Mapping.replicated, 0] [7, 5, 6, 0, 1, 2] [6, 5, 4] ∧
      ∃ blocks steps, ([7, 5, 6, 0, 1, 2].mapM fun p => Block.ofProcess p ([6, 5, 4].map Int.ofNat)
          [1, Mapping.replicated, 0] ([2, 3].map Int.ofNat) [7, 5, 6, 0, 1, 2]) = .ok blocks ∧
        Block.addEach [] blocks.eraseDups = .ok steps ∧ steps.getLast? = some [wholeBlock [6, 5, 4]]) ∧
    ∃ qs, Block.add [[⟨0, 2⟩, ⟨3, 4⟩]] [⟨0, 2⟩, ⟨1, 3⟩] = .ok qs ∧ ∀ point, qs.countP (Block.holds · point)
      = ([[⟨0, 2⟩, ⟨3, 4⟩]] ++ [[⟨0, 2⟩, ⟨1, 3⟩]] : List Block).countP (Block.holds · point) := by
  have hd : Divides [2, 3] [1, Mapping.replicated, 0] [7, 5, 6, 0, 1, 2] [6, 5, 4] := by decide
  obtain ⟨hjoined, hkept⟩ := addEach_ofProcess_getLast hd (by decide)
  exact ⟨⟨hd, hjoined⟩, hkept 2 _ _ (by simp [Block.HasPoints]) rfl (by simp [Block.HasPoints])⟩

/-- A mesh without axes has one process, but no block: the coordinates of a process are only found in a mesh with at
least one axis. -/
theorem no_addEach_ofProcess_without_axes : Divides [] [Mapping.replicated] [3] [4] ∧
    ¬ ∃ blocks steps, ([3].mapM fun p => Block.ofProcess p ([4].map Int.ofNat) [Mapping.replicated]
        (([] : List Nat).map Int.ofNat) [3]) = .ok blocks ∧
      Block.addEach [] blocks.eraseDups = .ok steps ∧ steps.getLast? = some [wholeBlock [4]] := by
  refine ⟨by decide, ?_⟩
  rintro ⟨blocks, -, hblocks, -⟩
  have hfault : ([3].mapM fun p => Block.ofProcess p ([4].map Int.ofNat) [Mapping.replicated]
      (([] : List Nat).map Int.ofNat) [3]) = .error (.fault .type) := rfl
  rw [hfault] at hblocks
  cases hblocks

end TensorKit.Distributed
