import Mathlib
import TensorKit.Distributed.ProcessGroup
import TensorKit.Proofs.Position
import TensorKit.Proofs.Traversal
/-!
# What a requested group of processes contains

A registry answers a request for ranks with the registered group of the same key, and registers a new group only if
there is none.  The key is the text of the ranks in order, with nothing between them, so `[1, 2, 3]` and `[1, 23]` have
one key.

* **Step.**  `Registered r reg everyone` describes a registry by group 0, which has everyone, and the list `reg` of the
  other groups, each with the request that made it.  A request whose key is in `reg` changes nothing
  (`Registered.request_found`); any other adds one entry at the end, if its number is not taken
  (`Registered.request_new`).  That the ranks also join group 0 leaves the rosters of all other groups alone
  (`Registered.join`).
* **Run.**  Groups whose numbers the registry chooses are numbered one after the other (`Consecutive`), so after any
  history of such requests `reg` holds the first request of each key, in order (`Registered.requestAll`).

So every request gets the ranks it asked for exactly if no two requests of the history have one key and different ranks
(`requestAll_first_of_key`).  Requests whose ranks are all written with equally many characters never have
(`sorted_eq_of_key_eq`).
-/

namespace TensorKit.Distributed.Registry

open Position List
open ProcessGroup (Error)

variable {g : ProcessGroup}
variable {xs ys : List Int} {w : Nat} {r : Registry} {id? : Option Int} {id : Int} {calls : List (List Int)}
  {answers : List (ProcessGroup × List Int)}

/-! ## 1. Keys -/

theorem key_eq_of_sorted_eq (h : sorted xs = sorted ys) : key xs = key ys := by rw [key, key, h]

@[simp]
theorem key_sorted (xs : List Int) : key (sorted xs) = key xs :=
  key_eq_of_sorted_eq (sorted_eq_sorted_iff.mpr (sorted_perm xs))

/-- Pieces of one positive length can be told apart after they are joined. -/
theorem flatMap_inj_of_length {α β : Type} {f : α → List β} (hf : Function.Injective f) {xs ys : List α}
    (hx : ∀ x ∈ xs, (f x).length = w + 1) (hy : ∀ y ∈ ys, (f y).length = w + 1)
    (h : xs.flatMap f = ys.flatMap f) : xs = ys := by
  induction xs generalizing ys with
  | nil =>
    cases ys with
    | nil => rfl
    | cons y ys =>
      have hlen := congrArg length h
      simp only [flatMap_nil, flatMap_cons, length_append, length_nil, hy y (by simp)] at hlen
      omega
  | cons x xs ih =>
    cases ys with
    | nil =>
      have hlen := congrArg length h
      simp [hx x (by simp)] at hlen
    | cons y ys =>
      rw [flatMap_cons, flatMap_cons] at h
      obtain ⟨hpiece, hrest⟩ := append_inj h (by rw [hx x (by simp), hy y (by simp)])
      rw [hf hpiece, ih (fun z hz => hx z (by simp [hz])) (fun z hz => hy z (by simp [hz])) hrest]

/-- **Ranks written with equally many characters are determined by their key.** -/
theorem sorted_eq_of_key_eq (hx : ∀ x ∈ xs, (toString x).length = w + 1)
    (hy : ∀ y ∈ ys, (toString y).length = w + 1) (h : key xs = key ys) : sorted xs = sorted ys := by
  have hinj : Function.Injective fun x : Int => (toString x).toList := fun x y hxy =>
    Int.repr_inj.mp (String.toList_injective hxy)
  refine flatMap_inj_of_length hinj
    (fun x hmem => by rw [String.length_toList, hx x ((sorted_perm xs).mem_iff.mp hmem)])
    (fun y hmem => by rw [String.length_toList, hy y ((sorted_perm ys).mem_iff.mp hmem)]) ?_
  simpa [key, flatMap_map] using congrArg String.toList h

/-! ## 2. The registry after some requests -/

/-- What joining group 0 does while it is not connected: nothing if all ranks are there; otherwise the old roster of the
group is overwritten, and its new one stands after all others. -/
theorem join_zero (hget : r.groups.get? 0 = some g) (hconnected : g.connected = false) (new : List Int) :
    r.join 0 new = .ok (if (new.all fun x => (r.ranks g).contains x) = true then r else
      ⟨r.rosters.set g.roster (r.ranks g ++ new) ++ [inOrder (r.ranks g ++ new)],
        r.groups.set 0 { g with roster := r.rosters.length }⟩) := by
  by_cases hall : (new.all fun x => (r.ranks g).contains x)
  · simp only [Registry.join, hget, hall, if_true]
  · simp only [Registry.join, hget, hall, hconnected, Bool.false_eq_true, if_false]

/-- Groups, each with the request that made it. -/
abbrev Entries := List (List Int × ProcessGroup)

/-- The entry with the key of some ranks. -/
abbrev Entries.held (reg : Entries) (ranks : List Int) := reg.find? fun p => key p.1 = key ranks

/-- A registry that was filled by requests: its groups, each with the ranks whose request made it, in order. -/
structure Registered (r : Registry) (reg : Entries) (everyone : ProcessGroup) : Prop where
  groups : r.groups = (0, everyone) :: reg.map fun p => (p.2.id, p.2)
  notConnected : everyone.connected = false
  everyone_lt : everyone.roster < r.rosters.length
  positive : ∀ p ∈ reg, 0 < p.2.id
  ids : (reg.map fun p => p.2.id).Nodup
  apart : ∀ p ∈ reg, p.2.roster ≠ everyone.roster
  roster : ∀ p ∈ reg, r.rosters[p.2.roster]? = some (sorted p.1)
  keys : (reg.map fun p => key p.1).Nodup

/-- The groups are numbered one after the other; the first number is two more than `ring`. -/
def Consecutive (ring : Nat) (reg : Entries) : Prop :=
  reg.map (fun p => p.2.id) = (List.range reg.length).map fun i : Nat => (ring + i + 2 : Int)

variable {ring : Nat} {reg : Entries} {everyone : ProcessGroup}
variable {p : List Int × ProcessGroup}

theorem Consecutive.id_lt (h : Consecutive ring reg) (hp : p ∈ reg) : p.2.id < ring + reg.length + 2 := by
  have hid : p.2.id ∈ reg.map fun p => p.2.id := mem_map.mpr ⟨p, hp, rfl⟩
  rw [h] at hid
  obtain ⟨i, hi, heq⟩ := mem_map.mp hid
  have := mem_range.mp hi
  omega

theorem Consecutive.concat (h : Consecutive ring reg) (ranks : List Int)
    (hid : g.id = ring + reg.length + 2) : Consecutive ring (reg ++ [(ranks, g)]) := by
  unfold Consecutive at h ⊢
  simp [range_succ, h, hid]

theorem registered_empty : Registered empty [] ⟨0, 0, false⟩ where
  groups := rfl
  notConnected := rfl
  everyone_lt := by simp [empty]
  positive := by simp
  ids := by simp
  apart := by simp
  roster := by simp
  keys := by simp

namespace Registered

variable (h : Registered r reg everyone)

include h

theorem ranks_eq (hp : p ∈ reg) : r.ranks p.2 = sorted p.1 := by rw [ranks, h.roster p hp, Option.getD_some]

theorem get?_id (hp : p ∈ reg) : r.groups.get? p.2.id = some p.2 := by
  refine Table.get?_of_mem ?_ ?_
  · rw [h.groups, Table.keys, map_cons, map_map, nodup_cons]
    refine ⟨fun hzero => ?_, h.ids⟩
    obtain ⟨q, hq, hid⟩ := mem_map.mp hzero
    have hpos := h.positive q hq
    simp only [Function.comp_apply] at hid
    omega
  · rw [h.groups]
    exact .tail _ (mem_map.mpr ⟨p, hp, rfl⟩)

theorem append_roster (xs : List Int) :
    Registered ⟨r.rosters ++ [xs], r.groups⟩ reg everyone := { h with
  everyone_lt := by simpa using Nat.lt_succ_of_lt h.everyone_lt
  roster := by
    intro p hp
    rw [getElem?_append_left (lt_of_getElem? (h.roster p hp)), h.roster p hp] }

/-- **Ranks that join group 0 leave the rosters of the other groups alone.** -/
theorem join (new : List Int) :
    ∃ r' everyone', r.join 0 new = .ok r' ∧ Registered r' reg everyone' ∧
      ∀ k < r.rosters.length, k ≠ everyone.roster → k ≠ everyone'.roster ∧ r'.rosters[k]? = r.rosters[k]? := by
  have hget : r.groups.get? 0 = some everyone := by simp [h.groups, Table.get?]
  have hjoin := join_zero hget h.notConnected new
  by_cases hall : (new.all fun x => (r.ranks everyone).contains x)
  · exact ⟨r, everyone, by rw [hjoin, if_pos hall], h, fun k _ hk => ⟨hk, rfl⟩⟩
  · let all := r.ranks everyone ++ new
    let everyone' : ProcessGroup := { everyone with roster := r.rosters.length }
    let rosters := r.rosters.set everyone.roster all ++ [inOrder all]
    have hkept : ∀ k < r.rosters.length, k ≠ everyone.roster → rosters[k]? = r.rosters[k]? := by
      intro k hk hne
      rw [getElem?_append_left (by simpa using hk), getElem?_set_ne (Ne.symm hne)]
    have hgroups : r.groups.set 0 everyone' = (0, everyone') :: reg.map fun p => (p.2.id, p.2) := by
      simp [h.groups, Table.set]
    have hlt : ∀ p ∈ reg, p.2.roster < r.rosters.length := fun p hp => lt_of_getElem? (h.roster p hp)
    have hregistered : Registered ⟨rosters, r.groups.set 0 everyone'⟩ reg everyone' := { h with
      groups := hgroups
      everyone_lt := by simp [everyone', rosters]
      apart := fun p hp => Nat.ne_of_lt (hlt p hp)
      roster := fun p hp => (hkept _ (hlt p hp) (h.apart p hp)).trans (h.roster p hp) }
    exact ⟨_, everyone', by rw [hjoin, if_neg hall], hregistered,
      fun k hk hne => ⟨Nat.ne_of_lt hk, hkept k hk hne⟩⟩

theorem find?_groups (ranks : List Int) :
    (r.groups.find? fun p => p.1 ≠ 0 ∧ key (r.ranks p.2) = key ranks) =
      (reg.held ranks).map fun p => (p.2.id, p.2) := by
  rw [h.groups, find?_cons_of_neg (by simp), find?_map]
  congr 1
  refine find?_congr fun p hp => ?_
  have hid : p.2.id ≠ 0 := by have := h.positive p hp; omega
  simp [hid, h.ranks_eq hp]

/-- **A request for a registered key changes nothing and gets the group of that key.** -/
theorem request_found {ranks : List Int}
    (hp : reg.held ranks = some p) (id? : Option Int) :
    r.request ring ranks id? = .ok (r, p.2) := by
  simp only [request, h.find?_groups, hp, Option.map_some]
  rfl

/-- One more group with a new number, its own roster and a new key. -/
theorem concat {ranks : List Int}
    (hpos : 0 < g.id) (hfresh : ∀ p ∈ reg, p.2.id ≠ g.id) (hne : g.roster ≠ everyone.roster)
    (hroster : r.rosters[g.roster]? = some (sorted ranks)) (hnew : reg.held ranks = none) :
    Registered { r with groups := r.groups.set g.id g } (reg ++ [(ranks, g)]) everyone := { h with
  groups := by
    have hnone : g.id ∉ Table.keys r.groups := by
      rw [h.groups]
      simp only [Table.keys, map_cons, map_map, mem_cons, mem_map, Function.comp_apply, not_or,
        not_exists, not_and]
      exact ⟨by omega, hfresh⟩
    rw [Table.set_of_notMem_keys hnone, h.groups]
    simp
  positive := forall_mem_append.mpr ⟨h.positive, by simpa using hpos⟩
  ids := by
    rw [map_append, nodup_append]
    refine ⟨h.ids, by simp, ?_⟩
    intro id hid id' hid'
    obtain ⟨p, hp, rfl⟩ := mem_map.mp hid
    rw [mem_singleton.mp hid']
    exact hfresh p hp
  apart := forall_mem_append.mpr ⟨h.apart, by simpa using hne⟩
  roster := forall_mem_append.mpr ⟨h.roster, by simpa using hroster⟩
  keys := by
    rw [map_append, nodup_append]
    refine ⟨h.keys, by simp, ?_⟩
    rintro k hk k' hk' rfl
    obtain ⟨p, hp, hpk⟩ := mem_map.mp hk
    have := find?_eq_none.mp hnew p hp
    simp_all }

/-- **A request for another key makes a group with its ranks**, under the number that is given, or else under the next
one.  The group takes the place of that number. -/
theorem request_makes {ranks : List Int}
    (hnew : reg.held ranks = none) (hid : id?.getD (ring + reg.length + 2) = id)
    (hpos : 0 < id) : ∃ r₁ everyone', Registered r₁ reg everyone' ∧
      r.request ring ranks id? = .ok ({ r₁ with groups := r₁.groups.set id ⟨id, r.rosters.length, false⟩ },
        ⟨id, r.rosters.length, false⟩) ∧
      r.rosters.length ≠ everyone'.roster ∧ r₁.rosters[r.rosters.length]? = some (sorted ranks) := by
  obtain ⟨r₁, everyone', hjoin, h₁, hkept⟩ := (h.append_roster (sorted ranks)).join ranks
  -- the new group has the last roster, which group 0 has not
  have hlast : (r.rosters ++ [sorted ranks])[r.rosters.length]? = some (sorted ranks) := by simp
  obtain ⟨hne, hroster⟩ := hkept r.rosters.length (by simp) (Nat.ne_of_gt h.everyone_lt)
  have hnumber : id?.getD (ring + r.groups.length + 1 : Int) = id := by
    rw [← hid, h.groups, length_cons, length_map]
    push_cast
    ring_nf
  have hmake : r.make id ranks = .ok (r₁, ⟨id, r.rosters.length, false⟩) := by
    have hzero : id ≠ 0 := by omega
    simp only [make, hzero, if_false, length_append, length_singleton, Nat.add_sub_cancel, hjoin]
    rfl
  refine ⟨r₁, everyone', h₁, ?_, hne, hroster.trans hlast⟩
  simp only [request, h.find?_groups, hnew, Option.map_none, hnumber, hmake]
  rfl

/-- **A group whose number is not taken is registered**, and all others stay. -/
theorem request_new {ranks : List Int}
    (hnew : reg.held ranks = none) (hid : id?.getD (ring + reg.length + 2) = id)
    (hpos : 0 < id) (hfresh : ∀ p ∈ reg, p.2.id ≠ id) :
    ∃ r' g everyone', r.request ring ranks id? = .ok (r', g) ∧ g.id = id ∧
      Registered r' (reg ++ [(ranks, g)]) everyone' := by
  obtain ⟨r₁, everyone', h₁, hrequest, hne, hroster⟩ := h.request_makes hnew hid hpos
  let g : ProcessGroup := ⟨id, r.rosters.length, false⟩
  have hregistered := h₁.concat (g := g) hpos hfresh hne hroster hnew
  exact ⟨_, g, everyone', hrequest, rfl, hregistered⟩

end Registered

/-! ## 3. A history of requests -/

/-- Request groups one after the other; each answer is a group with the ranks it has at that time. -/
def requestAll (ring : Int) (r : Registry) : List (List Int) → Except Error (Registry × List (ProcessGroup × List Int))
  | [] => .ok (r, [])
  | ranks :: calls => do
    let (r, g) ← r.request ring ranks none
    let (r', answers) ← requestAll ring r calls
    return (r', (g, r.ranks g) :: answers)

/-- Each answer is the group of an entry, with the ranks and the key of that entry. -/
def Answers (reg : Entries) : List (List Int) → List (ProcessGroup × List Int) → Prop :=
  Forall₂ fun c a => ∃ p ∈ reg, p.2 = a.1 ∧ sorted p.1 = a.2 ∧ key p.1 = key c

/-- **Run lemma.**  After a history every answer is an entry of the registry, with the key and the ranks of that entry,
and every entry was there before or belongs to the first request with its key. -/
theorem Registered.requestAll (h : Registered r reg everyone) (hn : Consecutive ring reg) (calls : List (List Int)) :
    ∃ r' answers reg' everyone', requestAll ring r calls = .ok (r', answers) ∧ Registered r' reg' everyone' ∧
      (∀ p ∈ reg, p ∈ reg') ∧ Answers reg' calls answers ∧
      ∀ p ∈ reg', p ∈ reg ∨ calls.find? (fun c => key c = key p.1) = some p.1 := by
  -- induction on the requests still to come, for any registry
  induction calls generalizing r reg everyone with
  | nil => exact ⟨r, [], reg, everyone, rfl, h, fun p hp => hp, .nil, fun p hp => .inl hp⟩
  | cons c calls ih =>
    cases hfind : reg.held c with
    | some p =>
      obtain ⟨hkey, hp⟩ : key p.1 = key c ∧ p ∈ reg := ⟨by simpa using find?_some hfind, mem_of_find?_eq_some hfind⟩
      obtain ⟨r', answers, reg', everyone', hrun, h', hsub, hans, hfirst⟩ := ih h hn
      refine ⟨r', (p.2, r.ranks p.2) :: answers, reg', everyone', ?_, h', hsub,
        .cons ⟨p, hsub p hp, rfl, (h.ranks_eq hp).symm, hkey⟩ hans, fun q hq => ?_⟩
      · simp [Registry.requestAll, h.request_found hfind none, hrun, pure_eq_ok]
      · rcases hfirst q hq with hq' | hq'
        · exact .inl hq'
        · by_cases hqc : key c = key q.1
          · -- then `q` is the entry found, since keys are distinct
            refine .inl ?_
            have hpq : p = q := inj_on_of_nodup_map h'.keys (hsub p hp) hq (hkey.trans hqc)
            exact hpq ▸ hp
          · exact .inr (by rw [find?_cons_of_neg (by simpa using hqc), hq'])
    | none =>
      have hnumber : (none : Option Int).getD (ring + reg.length + 2) = ring + reg.length + 2 := rfl
      obtain ⟨r₁, g, everyone₁, hreq, hid, h₁⟩ := h.request_new hfind hnumber (by omega) fun p hp =>
        Int.ne_of_lt (hn.id_lt hp)
      obtain ⟨r', answers, reg', everyone', hrun, h', hsub, hans, hfirst⟩ := ih h₁ (hn.concat c hid)
      have hmem : (c, g) ∈ reg ++ [(c, g)] := by simp
      refine ⟨r', (g, r₁.ranks g) :: answers, reg', everyone', ?_, h', fun p hp => hsub p (by simp [hp]),
        .cons ⟨(c, g), hsub _ hmem, rfl, (h₁.ranks_eq hmem).symm, rfl⟩ hans, fun q hq => ?_⟩
      · simp [Registry.requestAll, hreq, hrun, pure_eq_ok]
      · by_cases hqc : key c = key q.1
        · have hcq : (c, g) = q := inj_on_of_nodup_map h'.keys (hsub _ hmem) hq hqc
          subst hcq
          exact .inr (by simp)
        · rcases hfirst q hq with hq' | hq'
          · rcases mem_append.mp hq' with hq' | hq'
            · exact .inl hq'
            · exact absurd (by rw [mem_singleton.mp hq']) hqc
          · exact .inr (by rw [find?_cons_of_neg (by simpa using hqc), hq'])

/-! ## 4. Which requests get what they ask for -/

def firstOfKey (calls : List (List Int)) (ranks : List Int) : List Int :=
  (calls.find? fun c => key c = key ranks).getD ranks

theorem exists_firstOfKey {ranks : List Int} (h : ranks ∈ calls) :
    ∃ c ∈ calls, key c = key ranks ∧ ∀ ranks', key ranks' = key ranks → firstOfKey calls ranks' = c := by
  obtain ⟨c, hc⟩ : ∃ c, calls.find? (fun c => key c = key ranks) = some c :=
    Option.isSome_iff_exists.mp (find?_isSome.mpr ⟨ranks, h, by simp⟩)
  refine ⟨c, mem_of_find?_eq_some hc, by simpa using find?_some hc, fun ranks' hkey => ?_⟩
  rw [firstOfKey, hkey, hc, Option.getD_some]

namespace Answers

/-- If every entry belongs to the first request with its key, so does the entry of every answer. -/
theorem ranks (hans : Answers reg calls answers)
    (hfirst : ∀ p ∈ reg, calls.find? (fun c => key c = key p.1) = some p.1) :
    answers.map Prod.snd = calls.map fun c => sorted (firstOfKey calls c) := by
  have hpairs : Forall₂ (fun c a => sorted (firstOfKey calls c) = a.2) calls answers := by
    refine hans.imp ?_
    rintro c a ⟨p, hp, -, hranks, hkey⟩
    rw [firstOfKey, ← hkey, hfirst p hp, Option.getD_some, hranks]
  rw [← forall₂_eq_eq_eq, forall₂_map_left_iff, forall₂_map_right_iff]
  exact hpairs.flip.imp fun _ _ => Eq.symm

theorem kept (hans : Answers reg calls answers) (h : Registered r reg everyone) : ∀ a ∈ answers, r.ranks a.1 = a.2 := by
  intro a ha
  obtain ⟨i, hi, rfl⟩ := getElem_of_mem ha
  obtain ⟨p, hp, hpa, hpr, -⟩ := hans.get (hans.length_eq ▸ hi) hi
  exact (congrArg r.ranks hpa.symm).trans ((h.ranks_eq hp).trans hpr)

theorem same (hans : Answers reg calls answers) (h : Registered r reg everyone) :
    ∀ p ∈ calls.zip answers, ∀ q ∈ calls.zip answers, (p.2.1 = q.2.1 ↔ key p.1 = key q.1) := by
  rintro ⟨c, a⟩ hp ⟨c', a'⟩ hq
  obtain ⟨p, hpreg, hpa, -, hpk⟩ := (forall₂_iff_zip.mp hans).2 hp
  obtain ⟨q, hqreg, hqa, -, hqk⟩ := (forall₂_iff_zip.mp hans).2 hq
  simp only [← hpa, ← hqa, ← hpk, ← hqk]
  constructor
  · -- one group has one roster, so both requests have the key of its ranks
    intro heq
    exact key_eq_of_sorted_eq (by rw [← h.ranks_eq hpreg, heq, h.ranks_eq hqreg])
  · intro hkey
    rw [inj_on_of_nodup_map h.keys hpreg hqreg hkey]

end Answers

/-- Every request gets a group with its own ranks, and two requests get the same group exactly if they ask for the same
ranks. -/
def Faithful (calls : List (List Int)) (answers : List (ProcessGroup × List Int)) : Prop :=
  answers.map Prod.snd = calls.map sorted ∧
    ∀ p ∈ calls.zip answers, ∀ q ∈ calls.zip answers, (p.2.1 = q.2.1 ↔ ∀ x, x ∈ p.1 ↔ x ∈ q.1)

/-- Answers that depend on the keys alone are faithful exactly if the keys tell the requests apart. -/
theorem faithful_iff (hnd : ∀ c ∈ calls, c.Nodup)
    (hranks : answers.map Prod.snd = calls.map fun c => sorted (firstOfKey calls c))
    (hsame : ∀ p ∈ calls.zip answers, ∀ q ∈ calls.zip answers, (p.2.1 = q.2.1 ↔ key p.1 = key q.1)) :
    Faithful calls answers ↔ ∀ c ∈ calls, ∀ c' ∈ calls, key c = key c' → sorted c = sorted c' := by
  constructor
  · rintro ⟨hown, -⟩ c hc c' hc' hkey
    have hfirst : ∀ c ∈ calls, sorted (firstOfKey calls c) = sorted c := map_inj_left.mp (hranks.symm.trans hown)
    obtain ⟨d, -, -, hd⟩ := exists_firstOfKey hc
    rw [← hfirst c hc, hd c rfl, ← hd c' hkey.symm, hfirst c' hc']
  · intro h
    refine ⟨?_, fun p hp q hq => ?_⟩
    · rw [hranks]
      refine map_inj_left.mpr fun c hc => ?_
      obtain ⟨d, hmem, hkey, hd⟩ := exists_firstOfKey hc
      rw [hd c rfl]
      exact h d hmem c hc hkey
    · have hpc := (of_mem_zip hp).1
      have hqc := (of_mem_zip hq).1
      have hkey : key p.1 = key q.1 ↔ sorted p.1 = sorted q.1 := ⟨h _ hpc _ hqc, key_eq_of_sorted_eq⟩
      rw [hsame p hp q hq, hkey, sorted_eq_sorted_iff, perm_ext_iff_of_nodup (hnd _ hpc) (hnd _ hqc)]

/-- **A request gets the ranks of the first request with its key.**  Every history of requests for distinct ranks
succeeds.  Each answer is a group with the ranks of the first request that has the same key, which it keeps until the
end, and two requests get the same group exactly if their keys are equal.  So all requests get what they ask for if and
only if no two of them have equal keys for different ranks; ranks written with equally many characters, such as the
ranks below ten, are safe. -/
theorem requestAll_first_of_key (ring : Nat) (calls : List (List Int)) (hnd : ∀ c ∈ calls, c.Nodup) :
    ∃ r answers, requestAll ring empty calls = .ok (r, answers) ∧
      answers.map Prod.snd = calls.map (fun c => sorted (firstOfKey calls c)) ∧ (∀ a ∈ answers, r.ranks a.1 = a.2) ∧
      (∀ p ∈ calls.zip answers, ∀ q ∈ calls.zip answers, (p.2.1 = q.2.1 ↔ key p.1 = key q.1)) ∧
      (Faithful calls answers ↔ ∀ c ∈ calls, ∀ c' ∈ calls, key c = key c' → sorted c = sorted c') ∧
      ((∃ w, ∀ c ∈ calls, ∀ x ∈ c, (toString x).length = w + 1) → Faithful calls answers) := by
  obtain ⟨r, answers, reg, everyone, hrun, h, -, hans, hfirst⟩ :=
    registered_empty.requestAll (show Consecutive ring [] from rfl) calls
  have hfirst : ∀ p ∈ reg, calls.find? (fun c => key c = key p.1) = some p.1 := fun p hp =>
    (hfirst p hp).resolve_left (by simp)
  have hfaithful := faithful_iff hnd (hans.ranks hfirst) (hans.same h)
  refine ⟨r, answers, hrun, hans.ranks hfirst, hans.kept h, hans.same h, hfaithful, ?_⟩
  rintro ⟨w, hw⟩
  exact hfaithful.mpr fun c hc c' hc' => sorted_eq_of_key_eq (hw c hc) (hw c' hc')

/-- The ranks `[1, 2, 3]` and `[1, 23]` have one key, so the second request gets a group with the ranks of the first. -/
theorem requestAll_first_of_key_one_two_three : (∀ c ∈ ([[1, 2, 3], [1, 23]] : List (List Int)), c.Nodup) ∧
      ∃ r answers, requestAll (9 : Nat) empty [[1, 2, 3], [1, 23]] = .ok (r, answers) ∧
        answers.map Prod.snd = [[1, 2, 3], [1, 2, 3]] ∧ ¬ Faithful [[1, 2, 3], [1, 23]] answers := by
  have hnd : ∀ c ∈ ([[1, 2, 3], [1, 23]] : List (List Int)), c.Nodup := by decide
  have hleft : sorted [1, 2, 3] = [1, 2, 3] := sorted_eq_of_perm (.refl _) (by decide)
  have hright : sorted [1, 23] = [1, 23] := sorted_eq_of_perm (.refl _) (by decide)
  have hkey : key [1, 2, 3] = key [1, 23] := by
    rw [key, key, hleft, hright]
    decide +kernel
  refine ⟨hnd, ?_⟩
  obtain ⟨r, answers, hrun, hranks, -, -, hfaithful, -⟩ := requestAll_first_of_key 9 [[1, 2, 3], [1, 23]] hnd
  refine ⟨r, answers, hrun, ?_, ?_⟩
  · simpa [firstOfKey, hkey, hleft] using hranks
  · rw [hfaithful]
    intro h
    have := h [1, 2, 3] (by simp) [1, 23] (by simp) hkey
    rw [hleft, hright] at this
    simp at this

end TensorKit.Distributed.Registry
