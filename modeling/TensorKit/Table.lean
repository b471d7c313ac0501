/-!
Tables that keep the order in which their keys came first.

A `Table κ ν` is a list of key-value pairs.  Setting a key that is there replaces its value in place;
setting a new key appends.  So the keys of a table built by `set` are pairwise distinct and stand in the
order of their first appearance (`keys_set`), and a look-up after `set` sees the last value (`get?_set`).
-/

namespace TensorKit

abbrev Table (κ ν : Type) := List (κ × ν)

/-- Texts by name. -/
abbrev Texts := Table String String

namespace Table

variable {κ ν : Type} [DecidableEq κ]

def get? (k : κ) : Table κ ν → Option ν
  | [] => none
  | (k', v) :: t => if k' = k then some v else get? k t

variable (k : κ)

def has (t : Table κ ν) : Bool := (t.get? k).isSome

def set (k : κ) (v : ν) : Table κ ν → Table κ ν
  | [] => [(k, v)]
  | (k', v') :: t => if k' = k then (k, v) :: t else (k', v') :: set k v t

variable (t : Table κ ν)

def erase : Table κ ν := t.filter (fun p => p.1 ≠ k)

def keys : List κ := t.map Prod.fst

def values : List ν := t.map Prod.snd

def update (ps : List (κ × ν)) : Table κ ν :=
  ps.foldl (fun t p => t.set p.1 p.2) t

/-- The table of a list of pairs, where a later pair replaces an earlier one with its key. -/
def ofList (ps : List (κ × ν)) : Table κ ν := update [] ps

@[simp]
theorem get?_nil : get? k ([] : Table κ ν) = none := rfl

theorem get?_set (k j : κ) (v : ν) (t : Table κ ν) : get? j (set k v t) = if k = j then some v else get? j t := by
  induction t with
  | nil => simp [set, get?]
  | cons p t ih =>
    obtain ⟨k', v'⟩ := p
    by_cases h : k' = k
    · subst h
      by_cases hj : k' = j <;> simp [set, get?, hj]
    · by_cases hj : k' = j
      · subst hj
        simp [set, get?, h, Ne.symm h]
      · simp [set, get?, h, hj, ih]

theorem get?_append (s t : Table κ ν) : get? k (s ++ t) = (get? k s).or (get? k t) := by
  induction s with
  | nil => rfl
  | cons p s ih =>
    rw [List.cons_append, get?, get?, ih]
    split <;> rfl

theorem keys_set (v : ν) (t : Table κ ν) : keys (set k v t) = if k ∈ keys t then keys t else keys t ++ [k] := by
  induction t with
  | nil => simp [set, keys]
  | cons p t ih =>
    obtain ⟨k', v'⟩ := p
    by_cases h : k' = k
    · subst h
      simp [set, keys]
    · simp only [keys] at ih
      by_cases hk : k ∈ List.map Prod.fst t <;> simp [set, keys, h, Ne.symm h, ih, hk]

theorem has_iff_mem_keys (t : Table κ ν) : has k t = true ↔ k ∈ keys t := by
  induction t with
  | nil => simp [has, keys]
  | cons p t ih =>
    obtain ⟨k', v'⟩ := p
    simp only [has, keys] at ih
    by_cases h : k' = k
    · simp [has, get?, keys, h]
    · simp [has, get?, keys, h, Ne.symm h, ih]

theorem length_set (v : ν) (t : Table κ ν) :
    (set k v t).length = if k ∈ keys t then t.length else t.length + 1 := by
  have hlength (u : Table κ ν) : u.length = (keys u).length := by rw [keys, List.length_map]
  rw [hlength, hlength t, keys_set]
  split
  · rfl
  · rw [List.length_append, List.length_singleton]

variable {v : ν} {t : Table κ ν}

theorem get?_of_mem {k : κ} (hnd : (keys t).Nodup) (h : (k, v) ∈ t) : get? k t = some v := by
  induction t with
  | nil => cases h
  | cons p t ih =>
    obtain ⟨k', v'⟩ := p
    obtain ⟨hk', hnd⟩ := List.nodup_cons.mp hnd
    rcases List.mem_cons.mp h with heq | h
    · obtain ⟨rfl, rfl⟩ := Prod.mk.inj heq
      simp [get?]
    · have hne : k' ≠ k := fun he => hk' (he ▸ List.mem_map.mpr ⟨(k, v), h, rfl⟩)
      simp [get?, hne, ih hnd h]

theorem mem_of_get?_eq_some {k : κ} (h : get? k t = some v) : (k, v) ∈ t := by
  induction t with
  | nil => cases h
  | cons p t ih =>
    obtain ⟨k', v'⟩ := p
    rw [get?] at h
    split at h
    · next hk => exact hk ▸ Option.some.inj h ▸ List.mem_cons_self
    · exact List.mem_cons_of_mem _ (ih h)

theorem get?_eq_some_iff_mem {k : κ} (hnd : (keys t).Nodup) : get? k t = some v ↔ (k, v) ∈ t :=
  ⟨mem_of_get?_eq_some, get?_of_mem hnd⟩

theorem mem_set_self (v : ν) (t : Table κ ν) : (k, v) ∈ set k v t :=
  mem_of_get?_eq_some (by rw [get?_set, if_pos rfl])

theorem set_of_notMem_keys {k : κ} (h : k ∉ keys t) : set k v t = t ++ [(k, v)] := by
  induction t with
  | nil => rfl
  | cons p t ih =>
    obtain ⟨k', v'⟩ := p
    obtain ⟨hne, hk⟩ : k ≠ k' ∧ k ∉ keys t := by simpa [keys] using h
    simp [set, hne.symm, ih hk]

/-- A value for a key that is there takes the place of the old one. -/
theorem exists_set_of_get? {k : κ} (h : get? k t = some v) :
    ∃ t₁ t₂, t = t₁ ++ (k, v) :: t₂ ∧ ∀ w, set k w t = t₁ ++ (k, w) :: t₂ := by
  induction t with
  | nil => cases h
  | cons p t ih =>
    obtain ⟨k', v'⟩ := p
    rw [get?] at h
    split at h
    · next hk =>
      obtain rfl := Option.some.inj h
      exact ⟨[], t, by rw [hk]; rfl, fun w => by rw [set, if_pos hk]; rfl⟩
    · next hk =>
      obtain ⟨t₁, t₂, rfl, hset⟩ := ih h
      exact ⟨(k', v') :: t₁, t₂, rfl, fun w => by rw [set, if_neg hk, hset]; rfl⟩

theorem nodup_keys_set (h : (keys t).Nodup) (k : κ) (v : ν) : (keys (set k v t)).Nodup := by
  rw [keys_set]
  split
  · exact h
  · next hk =>
    refine List.nodup_append.mpr ⟨h, by simp, ?_⟩
    rintro j hj i hi rfl
    exact hk (List.mem_singleton.mp hi ▸ hj)

theorem mem_of_mem_set {k : κ} {p : κ × ν} (h : p ∈ set k v t) : p = (k, v) ∨ p ∈ t := by
  induction t with
  | nil => simpa [set] using h
  | cons q t ih =>
    obtain ⟨k', v'⟩ := q
    by_cases hk : k' = k
    · rw [set, if_pos hk] at h
      exact (List.mem_cons.mp h).imp_right (List.mem_cons_of_mem _)
    · rw [set, if_neg hk] at h
      rcases List.mem_cons.mp h with rfl | h
      · exact .inr List.mem_cons_self
      · exact (ih h).imp_right (List.mem_cons_of_mem _)

theorem set_ne_nil (v : ν) (t : Table κ ν) : set k v t ≠ [] := by
  cases t with
  | nil => simp [set]
  | cons p t =>
    rw [set]
    split <;> simp

theorem ofList_concat (ps : List (κ × ν)) (k : κ) (v : ν) : ofList (ps ++ [(k, v)]) = (ofList ps).set k v := by
  rw [ofList, update, List.foldl_append]
  rfl

variable {ps : List (κ × ν)}

theorem mem_of_mem_update {p : κ × ν} (h : p ∈ update t ps) : p ∈ t ∨ p ∈ ps := by
  induction ps generalizing t with
  | nil => exact .inl h
  | cons q ps ih =>
    rcases ih h with h | h
    · rcases mem_of_mem_set h with rfl | h
      · exact .inr List.mem_cons_self
      · exact .inl h
    · exact .inr (List.mem_cons_of_mem _ h)

theorem update_ne_nil (h : t ≠ []) : update t ps ≠ [] := by
  induction ps generalizing t with
  | nil => exact h
  | cons p ps ih => exact ih (set_ne_nil p.1 p.2 t)

theorem update_of_nodup {t ps : Table κ ν} (h : (keys (t ++ ps)).Nodup) : update t ps = t ++ ps := by
  induction ps generalizing t with
  | nil => simp [update]
  | cons p ps ih =>
    obtain ⟨k, v⟩ := p
    have hassoc : t ++ (k, v) :: ps = t ++ [(k, v)] ++ ps := by simp
    have hk : k ∉ keys t := by
      simp only [keys, List.map_append, List.map_cons, List.nodup_append] at h
      exact fun hmem => h.2.2 k hmem k (by simp) rfl
    rw [hassoc] at h ⊢
    rw [← ih h, ← set_of_notMem_keys (v := v) hk]
    rfl

theorem length_update_le (t : Table κ ν) (ps : List (κ × ν)) : (update t ps).length ≤ t.length + ps.length := by
  induction ps generalizing t with
  | nil => exact Nat.le_refl _
  | cons p ps ih =>
    have hset : (set p.1 p.2 t).length ≤ t.length + 1 := by
      rw [length_set]
      split <;> omega
    have hrest : (update t (p :: ps)).length ≤ (set p.1 p.2 t).length + ps.length := ih (set p.1 p.2 t)
    rw [List.length_cons]
    omega

/-- Pairs of which none is lost in a table stand at its end. -/
theorem update_of_length (h : (update t ps).length = t.length + ps.length) :
    update t ps = t ++ ps := by
  induction ps generalizing t with
  | nil => simp [update]
  | cons p ps ih =>
    obtain ⟨k, v⟩ := p
    have hle : (update t ((k, v) :: ps)).length ≤ (set k v t).length + ps.length := length_update_le (set k v t) ps
    rw [List.length_cons] at h
    have hk : k ∉ keys t := by
      intro hk
      rw [length_set, if_pos hk] at hle
      omega
    have hset : (set k v t).length = t.length + 1 := by rw [length_set, if_neg hk]
    have hlength : (update (set k v t) ps).length = (set k v t).length + ps.length := by
      rw [hset, Nat.add_assoc, Nat.add_comm 1]
      exact h
    have hrest : update t ((k, v) :: ps) = set k v t ++ ps := ih hlength
    rw [hrest, set_of_notMem_keys hk, List.append_assoc, List.singleton_append]

theorem ofList_of_nodup {ps : Table κ ν} (h : (keys ps).Nodup) : ofList ps = ps := update_of_nodup (t := []) h

theorem length_ofList_le (ps : List (κ × ν)) : (ofList ps).length ≤ ps.length := by
  simpa [ofList] using length_update_le [] ps

/-- Pairs of which none is lost in their table are the table. -/
theorem ofList_of_length (h : (ofList ps).length = ps.length) : ofList ps = ps :=
  update_of_length (t := []) (by simpa [ofList] using h)

end Table

end TensorKit
