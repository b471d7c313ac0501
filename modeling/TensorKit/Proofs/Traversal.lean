import Mathlib.Data.Finset.Card
import Mathlib.Data.List.Forall2
/-!
# Computations that run along a list

A computation that can fail is run on the members of a list from left to right.  Its result is known if the result on
every member is (`mapM_eq_ok`), and what a result says of the list it says of every member (`forall₂_of_mapM_eq_ok`).
What each step of a loop keeps, the whole loop keeps (`of_foldlM_eq_ok`, `exists_foldlM_eq_ok`), and what each step adds
to a view of the state, it adds in order (`view_of_foldlM_eq_ok`).
-/

namespace TensorKit

open List

variable {α β ε : Type} {f : α → Except ε β} {g : α → β} {x : Except ε α}
variable {b : β} {ys : List β} {σ : Type}

/-- A computation that succeeds on every member of a list succeeds on the list. -/
theorem mapM_eq_ok : ∀ {xs : List α}, (∀ x ∈ xs, f x = .ok (g x)) → xs.mapM f = .ok (xs.map g)
  | [], _ => rfl
  | x :: xs, h => by
    rw [mapM_cons, h x mem_cons_self, mapM_eq_ok fun y hy => h y (.tail _ hy)]
    rfl

theorem mapM_of_forall₂ {xs : List α} (h : Forall₂ (fun x y => f x = .ok y) xs ys) : xs.mapM f = .ok ys := by
  induction h with
  | nil => rfl
  | cons hx _ ih =>
    rw [mapM_cons, hx, ih]
    rfl

theorem mapM_eq_error {xs : List α} {e : ε} (hne : xs ≠ []) (h : ∀ x ∈ xs, f x = .error e) :
    xs.mapM f = .error e := by
  obtain ⟨x, xs, rfl⟩ := exists_cons_of_ne_nil hne
  rw [mapM_cons, h x mem_cons_self]
  rfl

theorem exists_mapM_eq_ok : ∀ {xs : List α}, (∀ x ∈ xs, ∃ y, f x = .ok y) → ∃ ys, xs.mapM f = .ok ys
  | [], _ => ⟨[], rfl⟩
  | x :: xs, h => by
    obtain ⟨y, hy⟩ := h x mem_cons_self
    obtain ⟨ys, hys⟩ := exists_mapM_eq_ok fun z hz => h z (.tail _ hz)
    refine ⟨y :: ys, ?_⟩
    rw [mapM_cons, hy, hys]
    rfl

@[simp] theorem ok_bind (a : α) (f : α → Except ε β) : (Except.ok a >>= f) = f a := rfl

@[simp] theorem liftM_ok {ε' : Type} (f : ε → ε') (a : α) :
    @liftM (Except ε) (Except ε') (@instMonadLiftTOfMonadLift _ _ _ ⟨Except.mapError f⟩ _) α (.ok a) = .ok a := rfl

@[simp] theorem liftM_twice_ok {ε' ε'' : Type} (f : ε → ε') (g : ε' → ε'') (a : α) :
    @liftM (Except ε) (Except ε'') (@instMonadLiftTOfMonadLift _ (Except ε') _ ⟨Except.mapError g⟩
      (@instMonadLiftTOfMonadLift _ _ _ ⟨Except.mapError f⟩ _)) α (.ok a) = .ok a := rfl

@[simp] theorem error_bind (e : ε) (f : α → Except ε β) : (.error e >>= f) = .error e := rfl

theorem pure_eq_ok (a : α) : (pure a : Except ε α) = .ok a := rfl

theorem of_bind_eq_ok (h : x >>= f = .ok b) : ∃ a, x = .ok a ∧ f a = .ok b := by
  cases x with
  | error e => cases h
  | ok a => exact ⟨a, rfl, h⟩

theorem of_bind₂_eq_ok {γ : Type} {y : α → Except ε γ} {g : α → γ → Except ε β}
    (h : (x >>= fun a => y a >>= g a) = .ok b) : ∃ a, x = .ok a ∧ ∃ c, y a = .ok c ∧ g a c = .ok b := by
  obtain ⟨a, hx, h⟩ := of_bind_eq_ok h
  exact ⟨a, hx, of_bind_eq_ok h⟩

/-- A computation in steps succeeds if every step does. -/
theorem bind_eq_ok_iff : x >>= f = .ok b ↔ ∃ a, x = .ok a ∧ f a = .ok b :=
  ⟨of_bind_eq_ok, by rintro ⟨a, rfl, h⟩; exact h⟩

theorem exists_of_map_eq_ok (h : x.map g = .ok b) : ∃ a, x = .ok a ∧ g a = b := by
  cases x with
  | error e => cases h
  | ok a => exact ⟨a, rfl, Except.ok.inj h⟩

theorem exists_of_isOk (h : x.isOk) : ∃ a, x = .ok a := by
  cases x with
  | error e => cases h
  | ok a => exact ⟨a, rfl⟩

theorem lt_of_getElem? {xs : List α} {a : α} {i : Nat} (h : xs[i]? = some a) : i < xs.length :=
  (List.getElem?_eq_some_iff.mp h).1

/-- A result is known as far as some function of it is. -/
theorem exists_of_map_toOption (h : x.toOption.map g = some b) : ∃ a, x = .ok a ∧ g a = b := by
  cases x with
  | error e => cases h
  | ok a => exact ⟨a, rfl, Option.some.inj h⟩

/-- A computation that succeeds on a list has succeeded on every member. -/
theorem forall₂_of_mapM_eq_ok : ∀ {xs ys}, xs.mapM f = .ok ys →
    Forall₂ (fun x y => f x = .ok y) xs ys
  | [], ys, h => by
    obtain rfl : [] = ys := Except.ok.inj h
    exact .nil
  | x :: xs, ys, h => by
    rw [mapM_cons] at h
    obtain ⟨y, hy, h⟩ := of_bind_eq_ok h
    obtain ⟨zs, hzs, h⟩ := of_bind_eq_ok h
    obtain rfl : y :: zs = ys := Except.ok.inj h
    exact .cons hy (forall₂_of_mapM_eq_ok hzs)

theorem forall₂_trans {R : α → α → Prop} (hR : ∀ a b c, R a b → R b c → R a c) :
    ∀ {xs ys zs}, Forall₂ R xs ys → Forall₂ R ys zs → Forall₂ R xs zs
  | _, _, _, .nil, .nil => .nil
  | _, _, _, .cons h hs, .cons h' hs' => .cons (hR _ _ _ h h') (forall₂_trans hR hs hs')

variable {R : α → β → Prop} {xs : List α}

theorem exists_getElem?_of_forall₂ (h : Forall₂ R xs ys) {i : Nat} {x : α} (hx : xs[i]? = some x) :
    ∃ y, ys[i]? = some y ∧ R x y := by
  obtain ⟨hi, rfl⟩ := List.getElem?_eq_some_iff.mp hx
  have hi' : i < ys.length := h.length_eq ▸ hi
  exact ⟨ys[i], getElem?_eq_getElem hi', (forall₂_iff_get.mp h).2 i hi hi'⟩

theorem exists_mem_of_forall₂ (h : Forall₂ R xs ys) (x : α) (hx : x ∈ xs) : ∃ y ∈ ys, R x y := by
  obtain ⟨i, hi⟩ := getElem?_of_mem hx
  obtain ⟨y, hy, hxy⟩ := exists_getElem?_of_forall₂ h hi
  exact ⟨y, mem_of_getElem? hy, hxy⟩

theorem exists_of_mapM_eq_ok (h : xs.mapM f = .ok ys) (x : α) (hx : x ∈ xs) : ∃ y ∈ ys, f x = .ok y :=
  exists_mem_of_forall₂ (forall₂_of_mapM_eq_ok h) x hx

/-- What a computation keeps of every member, it keeps of the list. -/
theorem map_of_mapM_eq_ok {γ : Type} {v : β → γ} {w : α → γ} (hf : ∀ {x y}, f x = .ok y → v y = w x)
    (h : xs.mapM f = .ok ys) : ys.map v = xs.map w := by
  have hall := forall₂_of_mapM_eq_ok h
  clear h
  induction hall with
  | nil => rfl
  | cons hx _ ih => rw [map_cons, map_cons, ih, hf hx]

/-- Every result of a computation along a list is the result on a member. -/
theorem exists_mem_of_mapM_eq_ok (h : xs.mapM f = .ok ys) : ∀ y ∈ ys, ∃ x ∈ xs, f x = .ok y :=
  exists_mem_of_forall₂ (forall₂_of_mapM_eq_ok h).flip

/-- Checks that all succeed with yes say yes of every member. -/
theorem eq_ok_true_of_mapM {f : α → Except ε Bool} {ys : List Bool} (h : xs.mapM f = .ok ys)
    (hall : ys.all id) : ∀ x ∈ xs, f x = .ok true := by
  intro x hx
  obtain ⟨y, hy, hfx⟩ := exists_of_mapM_eq_ok h x hx
  rw [hfx, show y = true from all_eq_true.mp hall y hy]

/-- A loop of checks passes if each of them does. -/
theorem forIn_eq_ok_iff {f : α → Except ε Unit} (xs : List α) :
    (do for x in xs do f x : Except ε Unit) = .ok () ↔ ∀ x ∈ xs, f x = .ok () := by
  induction xs with
  | nil => exact ⟨fun _ => nofun, fun _ => rfl⟩
  | cons x xs ih =>
    rw [forall_mem_cons, ← ih, forIn_cons]
    cases f x with
    | error e => exact ⟨nofun, nofun⟩
    | ok u => exact (and_iff_right rfl).symm

theorem mapM_eq_some {f : α → Option β} : ∀ {xs : List α}, (∀ x ∈ xs, f x = some (g x)) → xs.mapM f = some (xs.map g)
  | [], _ => rfl
  | x :: xs, h => by
    rw [mapM_cons, h x mem_cons_self, mapM_eq_some fun y hy => h y (.tail _ hy)]
    rfl

section Loop

variable (step : σ → α → Except ε σ)

/-- **Run lemma of a loop.**  A view to which every step adds some items has the items of all steps at the end. -/
theorem view_of_foldlM_eq_ok (view : σ → List β) {add : α → List β}
    (hstep : ∀ {s x s'}, step s x = .ok s' → view s' = view s ++ add x) : ∀ {xs : List α} {s s' : σ},
    xs.foldlM step s = .ok s' → view s' = view s ++ xs.flatMap add
  | [], s, s', h => by
    obtain rfl : s = s' := Except.ok.inj h
    simp
  | x :: xs, s, s', h => by
    rw [foldlM_cons] at h
    obtain ⟨t, ht, h⟩ := of_bind_eq_ok h
    rw [view_of_foldlM_eq_ok view hstep h, hstep ht, flatMap_cons, append_assoc]

/-- What every step keeps of its state, a loop keeps. -/
theorem of_foldlM_eq_ok {P : σ → Prop} (hstep : ∀ {s x s'}, P s → step s x = .ok s' → P s') :
    ∀ {xs : List α} {s s' : σ}, xs.foldlM step s = .ok s' → P s → P s'
  | [], s, s', h, hs => by
    obtain rfl : s = s' := Except.ok.inj h
    exact hs
  | x :: xs, s, s', h, hs => by
    rw [foldlM_cons] at h
    obtain ⟨t, ht, h⟩ := of_bind_eq_ok h
    exact of_foldlM_eq_ok hstep h (hstep hs ht)

/-- A loop succeeds if every step does and keeps what the next one needs. -/
theorem exists_foldlM_eq_ok {P : σ → Prop} : ∀ {xs : List α} {s : σ},
    (∀ s, P s → ∀ x ∈ xs, ∃ s', step s x = .ok s' ∧ P s') → P s → ∃ s', xs.foldlM step s = .ok s'
  | [], s, _, _ => ⟨s, rfl⟩
  | x :: xs, s, hstep, hs => by
    obtain ⟨t, ht, hPt⟩ := hstep s hs x mem_cons_self
    obtain ⟨s', hs'⟩ := exists_foldlM_eq_ok (fun u hu y hy => hstep u hu y (.tail _ hy)) hPt
    refine ⟨s', ?_⟩
    rwa [foldlM_cons, ht]

/-- What every step says of its item, a loop says of all items. -/
theorem forall_of_foldlM_eq_ok {P : α → Prop} (hstep : ∀ {s x s'}, step s x = .ok s' → P x) :
    ∀ {xs : List α} {s s' : σ}, xs.foldlM step s = .ok s' → ∀ x ∈ xs, P x
  | [], _, _, _ => by simp
  | x :: xs, s, s', h => by
    rw [foldlM_cons] at h
    obtain ⟨t, ht, h⟩ := of_bind_eq_ok h
    intro y hy
    rcases mem_cons.mp hy with rfl | hy
    · exact hstep ht
    · exact forall_of_foldlM_eq_ok hstep h y hy

end Loop

/-- A check that succeeds on a list has succeeded on every member. -/
theorem forall_of_forM_eq_ok {f : α → Except ε Unit} : ∀ {xs : List α}, xs.forM f = .ok () → ∀ x ∈ xs, f x = .ok ()
  | [], _ => by simp
  | x :: xs, h => by
    obtain ⟨_, hx, h⟩ := of_bind_eq_ok h
    exact forall_mem_cons.mpr ⟨hx, forall_of_forM_eq_ok h⟩

/-- A loop that does not look at the positions is the same loop with positions. -/
theorem foldlM_zipIdx_fst (f : σ → α → Except ε σ) (s : σ) (xs : List α) :
    xs.zipIdx.foldlM (fun s p => f s p.1) s = xs.foldlM f s := by
  rw [← foldlM_map, zipIdx_map_fst]

section Distinct

variable [BEq α] [LawfulBEq α] {seen : List α}

/-- Members that are collected without repetition. -/
theorem mem_foldl_distinct {y : α} (xs : List α) :
    y ∈ xs.foldl (fun seen x => if seen.contains x then seen else seen ++ [x]) seen ↔ y ∈ seen ∨ y ∈ xs := by
  induction xs generalizing seen with
  | nil => simp
  | cons x xs ih =>
    rw [foldl_cons, ih]
    split
    next hx =>
      rw [contains_iff_mem] at hx
      grind
    · simp [or_assoc]

theorem nodup_foldl_distinct (xs : List α) (h : seen.Nodup) :
    (xs.foldl (fun seen x => if seen.contains x then seen else seen ++ [x]) seen).Nodup := by
  induction xs generalizing seen with
  | nil => exact h
  | cons x xs ih =>
    rw [foldl_cons]
    refine ih ?_
    split
    · exact h
    next hx =>
      rw [contains_iff_mem] at hx
      exact nodup_append.mpr ⟨h, by simp, by grind⟩

end Distinct

theorem length_eraseDups [DecidableEq α] : ∀ xs : List α, xs.eraseDups.length = xs.toFinset.card
  | [] => rfl
  | x :: xs => by
    have hshorter : (xs.filter fun y => !y == x).length ≤ xs.length := length_filter_le _ xs
    have hset : (x :: xs).toFinset = insert x (xs.filter fun y => !y == x).toFinset := by
      ext y
      by_cases hy : y = x <;> simp [hy]
    rw [eraseDups_cons, length_cons, length_eraseDups (xs.filter fun y => !y == x), hset,
      Finset.card_insert_of_notMem (by simp)]
termination_by xs => xs.length
decreasing_by
  rw [length_cons]
  omega

end TensorKit
