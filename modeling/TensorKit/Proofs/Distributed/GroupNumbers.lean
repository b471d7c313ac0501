import TensorKit.Proofs.Distributed.GroupRegistry
/-!
# Which groups of processes stay registered

A request may give the number of the group that it makes; otherwise the registry chooses one, by counting its groups.
If that number was given earlier, the new group takes the place of the old one, which its owner still holds but the
registry has no more.

* **What is asked for.**  The requests that make groups are the first ones of their keys (`firstsAfter`).  The `k`-th of
  them, counted from zero, gets the number `ring + k + 2` if none is given.  So groups can only clash if that number was
  given to an earlier one; `Unclaimed` says that this never happens.
* **Step.**  As long as nothing clashes the registry is as `Registered` describes it, with the numbers of `Numbered`.  A
  request whose number is taken makes a group that replaces the one with that number (`Registered.request_replaces`).
* **Run.**  Hence **all groups stay registered if and only if no number is claimed before it is chosen**
  (`Registered.keeps_iff`).
-/

namespace TensorKit.Distributed.Registry

open List

open ProcessGroup (Error)

variable {r : Registry} {id? : Option Int} {g : ProcessGroup}

/-! ## 1. Requests that may give a number -/

structure Request where
  ranks : List Int
  id? : Option Int

variable {calls : List Request} {states : List (Registry × ProcessGroup)} {c : Request}

/-- Answer requests one after the other; for each of them, the registry afterwards and the group. -/
def requestEach (ring : Int) (r : Registry) : List Request → Except Error (List (Registry × ProcessGroup))
  | [] => .ok []
  | c :: calls => do
    let (r, g) ← r.request ring c.ranks c.id?
    return (r, g) :: (← requestEach ring r calls)

/-- Every number that is given is positive, and not registered at that time. -/
def Admissible (ring : Int) (r : Registry) : List Request → Prop
  | [] => True
  | c :: calls => (∀ id, c.id? = some id → 0 < id ∧ r.groups.get? id = none) ∧
      ∀ r' g, r.request ring c.ranks c.id? = .ok (r', g) → Admissible ring r' calls

/-- A group that was returned is registered under its number after a later request. -/
def Keeps (s t : Registry × ProcessGroup) : Prop := t.1.groups.get? s.2.id = some s.2

theorem requestEach_cons_eq_ok {ring : Int} (h : requestEach ring r (c :: calls) = .ok states) :
    ∃ r' g rest, r.request ring c.ranks c.id? = .ok (r', g) ∧ requestEach ring r' calls = .ok rest ∧
      states = (r', g) :: rest := by
  rw [requestEach] at h
  obtain ⟨⟨r', g⟩, hrequest, h⟩ := of_bind_eq_ok h
  obtain ⟨rest, hrest, hstates⟩ := exists_of_map_eq_ok h
  exact ⟨r', g, rest, hrequest, hrest, hstates.symm⟩

/-! ## 2. Every request is answered -/

/-- Ranks can still join group 0. -/
def IsOpen (r : Registry) : Prop := ∃ g, r.groups.get? 0 = some g ∧ g.connected = false

theorem isOpen_empty : empty.IsOpen := ⟨⟨0, 0, false⟩, rfl, rfl⟩

theorem IsOpen.join (h : r.IsOpen) (new : List Int) : ∃ r', r.join 0 new = .ok r' ∧ r'.IsOpen := by
  obtain ⟨g, hget, hconnected⟩ := h
  refine ⟨_, join_zero hget hconnected new, ?_⟩
  split
  · exact ⟨g, hget, hconnected⟩
  · exact ⟨{ g with roster := r.rosters.length }, by rw [Table.get?_set, if_pos rfl], hconnected⟩

theorem IsOpen.request (h : r.IsOpen) (ring : Nat) (ranks : List Int)
    (hpos : ∀ id, id? = some id → 0 < id) : ∃ r' g, r.request ring ranks id? = .ok (r', g) ∧ r'.IsOpen := by
  unfold Registry.request
  split
  · rename_i g _
    exact ⟨r, g, rfl, h⟩
  · have hid : id?.getD (ring + r.groups.length + 1) ≠ 0 := by
      cases id? with
      | none =>
        simp only [Option.getD_none]
        omega
      | some id =>
        have := hpos id rfl
        simp only [Option.getD_some]
        omega
    have hopen : Registry.IsOpen ⟨r.rosters ++ [Position.sorted ranks], r.groups⟩ := h
    obtain ⟨r', hjoin, g, hget, hconnected⟩ := hopen.join ranks
    simp only [make, hid, if_false, hjoin, ok_bind, pure_eq_ok]
    refine ⟨_, _, rfl, g, ?_, hconnected⟩
    rw [Table.get?_set, if_neg hid, hget]

/-- **Every history is answered to its end.** -/
theorem IsOpen.requestEach {ring : Nat} : ∀ {r}, r.IsOpen →
    Admissible ring r calls → ∃ states, requestEach ring r calls = .ok states ∧ states.length = calls.length := by
  induction calls with
  | nil => exact fun _ _ => ⟨[], rfl, rfl⟩
  | cons c calls ih =>
    intro r h ha
    obtain ⟨r', g, hrequest, hopen⟩ := h.request ring c.ranks fun id hid => (ha.1 id hid).1
    obtain ⟨states, hrun, hlen⟩ := ih hopen (ha.2 r' g hrequest)
    refine ⟨(r', g) :: states, ?_, by rw [length_cons, length_cons, hlen]⟩
    simp [Registry.requestEach, hrequest, hrun, pure_eq_ok]

/-! ## 3. Numbers -/

/-- The requests that are the first of their keys, if those of `seen` were made before. -/
def firstsAfter (seen : List Request) : List Request → List Request
  | [] => seen
  | c :: calls =>
    if seen.any fun d => key d.ranks = key c.ranks then firstsAfter seen calls else firstsAfter (seen ++ [c]) calls

/-- **No number is claimed before it is chosen**: where the `k`-th request has no number, no earlier one has been given
the number that is chosen for it. -/
def Unclaimed (ring : Nat) (firsts : List Request) : Prop :=
  ∀ (i k : Nat) (c d : Request), i < k → firsts[i]? = some c → firsts[k]? = some d → d.id? = none →
    c.id? ≠ some (ring + k + 2 : Int)

/-- The groups of some requests: each has its ranks and its number, the one that was given or the one that is chosen. -/
def Numbered (ring : Nat) (seen : List Request) (reg : Entries) : Prop :=
  reg.map (fun p => (p.1, p.2.id))
    = seen.zipIdx.map fun x => (x.1.ranks, x.1.id?.getD (ring + x.2 + 2 : Int))

theorem exists_firstsAfter (seen calls : List Request) : ∃ later, firstsAfter seen calls = seen ++ later := by
  induction calls generalizing seen with
  | nil => exact ⟨[], by rw [firstsAfter, append_nil]⟩
  | cons c calls ih =>
    rw [firstsAfter]
    split
    · exact ih seen
    · obtain ⟨later, hlater⟩ := ih (seen ++ [c])
      exact ⟨c :: later, by rw [hlater, append_assoc, singleton_append]⟩

theorem mem_of_mem_firstsAfter {seen calls : List Request} (h : c ∈ firstsAfter seen calls) : c ∈ seen ∨ c ∈ calls := by
  induction calls generalizing seen with
  | nil => exact .inl h
  | cons d calls ih =>
    rw [firstsAfter] at h
    split at h
    · exact (ih h).imp_right (mem_cons_of_mem d)
    · rcases ih h with hseen | hcalls
      · rcases mem_append.mp hseen with hseen | hd
        · exact .inl hseen
        · exact .inr (mem_singleton.mp hd ▸ .head _)
      · exact .inr (mem_cons_of_mem d hcalls)

section Numbers

variable {ring : Nat} {seen : List Request} {reg : Entries}

theorem Unclaimed.of_append {later : List Request} (h : Unclaimed ring (seen ++ later)) : Unclaimed ring seen := by
  intro i k c d hik hc hd
  have hkeep : ∀ {j : Nat} {e : Request}, seen[j]? = some e → (seen ++ later)[j]? = some e := by
    intro j e he
    rw [getElem?_append_left (lt_of_getElem? he), he]
  exact h i k c d hik (hkeep hc) (hkeep hd)

/-- One more request claims no number that is chosen, and its own is not claimed. -/
theorem unclaimed_concat_iff : Unclaimed ring (seen ++ [c]) ↔
    Unclaimed ring seen ∧ (c.id? = none → ∀ d ∈ seen, d.id? ≠ some (ring + seen.length + 2 : Int)) := by
  constructor
  · intro h
    refine ⟨h.of_append, fun hnone d hd => ?_⟩
    obtain ⟨i, hi, rfl⟩ := getElem_of_mem hd
    exact h i seen.length seen[i] c hi (by rw [getElem?_append_left hi, getElem?_eq_getElem hi]) (by simp)
      hnone
  · rintro ⟨h, hlast⟩ i k d e hik hd he hnone
    have hk : k < seen.length + 1 := by simpa using lt_of_getElem? he
    have hi : i < seen.length := by omega
    rw [getElem?_append_left hi] at hd
    rcases Nat.lt_or_ge k seen.length with hlt | hge
    · rw [getElem?_append_left hlt] at he
      exact h i k d e hik hd he hnone
    · obtain rfl : k = seen.length := by omega
      obtain rfl : c = e := by simpa using he
      exact hlast hnone d (mem_of_getElem? hd)

section

variable (h : Numbered ring seen reg)

include h

theorem Numbered.length_eq : reg.length = seen.length := by
  have hlen := congrArg length h
  simpa using hlen

theorem Numbered.concat (c : Request)
    (hid : g.id = c.id?.getD (ring + reg.length + 2)) : Numbered ring (seen ++ [c]) (reg ++ [(c.ranks, g)]) := by
  have hlen := h.length_eq
  unfold Numbered at h ⊢
  simp [zipIdx_append, h, hid, hlen]

theorem Numbered.exists_iff {P : List Int → Int → Prop} : (∃ p ∈ reg, P p.1 p.2.id) ↔
      ∃ (k : Nat) (c : Request), seen[k]? = some c ∧ P c.ranks (c.id?.getD (ring + k + 2)) := by
  have hmem : (∃ p ∈ reg, P p.1 p.2.id) ↔ ∃ x ∈ reg.map (fun p => (p.1, p.2.id)), P x.1 x.2 := by simp
  rw [hmem, h]
  constructor
  · rintro ⟨x, hx, hP⟩
    obtain ⟨⟨c, k⟩, hc, rfl⟩ := mem_map.mp hx
    exact ⟨k, c, mem_zipIdx_iff_getElem?.mp hc, hP⟩
  · rintro ⟨k, c, hc, hP⟩
    have hx : (c, k) ∈ seen.zipIdx := mem_zipIdx_iff_getElem?.mpr hc
    exact ⟨_, mem_map_of_mem hx, hP⟩

theorem Numbered.next_taken_iff :
    (∃ p ∈ reg, p.2.id = (ring + reg.length + 2 : Int)) ↔ ∃ d ∈ seen, d.id? = some (ring + seen.length + 2 : Int) := by
  rw [h.exists_iff (P := fun _ id => id = ring + reg.length + 2), h.length_eq]
  constructor
  · rintro ⟨k, c, hc, hid⟩
    have hk := lt_of_getElem? hc
    refine ⟨c, mem_of_getElem? hc, ?_⟩
    cases hgiven : c.id? with
    | none =>
      rw [hgiven, Option.getD_none] at hid
      omega
    | some id =>
      rw [hgiven, Option.getD_some] at hid
      rw [hid]
  · rintro ⟨d, hd, hgiven⟩
    obtain ⟨k, hk⟩ := mem_iff_getElem?.mp hd
    exact ⟨k, d, hk, by rw [hgiven, Option.getD_some]⟩

/-- A key is found exactly if an earlier request had it. -/
theorem Numbered.isSome_find? (ranks : List Int) :
    (reg.held ranks).isSome = seen.any fun d => key d.ranks = key ranks := by
  rw [Bool.eq_iff_iff, find?_isSome, any_eq_true]
  simp only [decide_eq_true_eq]
  rw [h.exists_iff (P := fun xs _ => key xs = key ranks)]
  constructor
  · rintro ⟨k, c, hc, hkey⟩
    exact ⟨c, mem_of_getElem? hc, hkey⟩
  · rintro ⟨c, hc, hkey⟩
    obtain ⟨k, hk⟩ := mem_iff_getElem?.mp hc
    exact ⟨k, c, hk, hkey⟩

end

end Numbers

/-! ## 4. Groups that are kept, and groups that are replaced -/

variable {ring : Nat} {seen : List Request} {reg : Entries}
  {everyone : ProcessGroup}

/-- **A request whose number is taken replaces the group that has it.** -/
theorem Registered.request_replaces (h : Registered r reg everyone) {ranks : List Int}
    {p : List Int × ProcessGroup} (hnew : reg.held ranks = none) (hp : p ∈ reg)
    (hid : id?.getD (ring + reg.length + 2) = p.2.id) :
    ∃ r' g, r.request ring ranks id? = .ok (r', g) ∧ r'.groups.get? p.2.id ≠ some p.2 := by
  obtain ⟨r₁, _, _, hrequest, -, -⟩ := h.request_makes hnew hid (h.positive p hp)
  refine ⟨_, _, hrequest, ?_⟩
  -- the two groups have different rosters
  have hlt : p.2.roster < r.rosters.length := lt_of_getElem? (h.roster p hp)
  rw [Table.get?_set, if_pos rfl]
  intro heq
  have hroster := congrArg ProcessGroup.roster (Option.some.inj heq)
  simp only at hroster
  omega

/-- **What a request can do.**  It finds a group; or it registers a new one, whose number nobody has claimed; or it
chooses a number that was given to an earlier request, and the group with that number is lost. -/
theorem Registered.request_cases (h : Registered r reg everyone) (hn : Numbered ring seen reg)
    (hgiven : ∀ id, c.id? = some id → 0 < id ∧ r.groups.get? id = none) {r' : Registry}
    (hrequest : r.request ring c.ranks c.id? = .ok (r', g)) :
    ((seen.any fun d => key d.ranks = key c.ranks) ∧ r' = r ∧ ∃ p ∈ reg, p.2 = g) ∨
    ((seen.any fun d => key d.ranks = key c.ranks) = false ∧
      (∃ everyone', Registered r' (reg ++ [(c.ranks, g)]) everyone') ∧ g.id = c.id?.getD (ring + reg.length + 2) ∧
      (c.id? = none → ∀ d ∈ seen, d.id? ≠ some (ring + seen.length + 2 : Int))) ∨
    ((seen.any fun d => key d.ranks = key c.ranks) = false ∧ c.id? = none ∧
      (∃ d ∈ seen, d.id? = some (ring + seen.length + 2 : Int)) ∧ ∃ p ∈ reg, r'.groups.get? p.2.id ≠ some p.2) := by
  cases hfind : reg.held c.ranks with
  | some p =>
    refine .inl ⟨by rw [← hn.isSome_find?, hfind, Option.isSome_some], ?_⟩
    have hfound : r.request ring c.ranks c.id? = .ok (r, p.2) := h.request_found hfind c.id?
    rw [hrequest] at hfound
    obtain ⟨rfl, rfl⟩ : r' = r ∧ g = p.2 := by simpa using hfound
    exact ⟨rfl, p, mem_of_find?_eq_some hfind, rfl⟩
  | none =>
    have hseen : (seen.any fun d => key d.ranks = key c.ranks) = false := by
      rw [← hn.isSome_find?, hfind, Option.isSome_none]
    by_cases htaken : ∃ p ∈ reg, p.2.id = c.id?.getD (ring + reg.length + 2)
    · obtain ⟨p, hp, hid⟩ := htaken
      have hchosen : c.id? = none := by
        cases hsome : c.id? with
        | none => rfl
        | some id =>
          rw [hsome, Option.getD_some] at hid
          have hnone := (hgiven id hsome).2
          rw [← hid, h.get?_id hp] at hnone
          cases hnone
      obtain ⟨r₂, g₂, hreplaced, hlost⟩ := h.request_replaces hfind hp hid.symm
      rw [hrequest] at hreplaced
      obtain ⟨rfl, rfl⟩ : r' = r₂ ∧ g = g₂ := by simpa using hreplaced
      have hclaimed := hn.next_taken_iff.mp ⟨p, hp, by rw [hid, hchosen, Option.getD_none]⟩
      exact .inr (.inr ⟨hseen, hchosen, hclaimed, p, hp, hlost⟩)
    · have hfresh : ∀ p ∈ reg, p.2.id ≠ c.id?.getD (ring + reg.length + 2) := fun p hp hid => htaken ⟨p, hp, hid⟩
      have hpos : 0 < c.id?.getD (ring + reg.length + 2) := by
        cases hsome : c.id? with
        | none =>
          simp only [Option.getD_none]
          omega
        | some id => exact (hgiven id hsome).1
      obtain ⟨r₂, g₂, everyone', hnew, hid, h'⟩ := h.request_new hfind rfl hpos hfresh
      rw [hrequest] at hnew
      obtain ⟨rfl, rfl⟩ : r' = r₂ ∧ g = g₂ := by simpa using hnew
      refine .inr (.inl ⟨hseen, ⟨everyone', h'⟩, hid, fun hchosen d hd hclaimed => ?_⟩)
      obtain ⟨p, hp, hnext⟩ := hn.next_taken_iff.mpr ⟨d, hd, hclaimed⟩
      exact hfresh p hp (by rw [hnext, hchosen, Option.getD_none])

/-- **Run lemma.**  The groups made so far and all later ones stay registered exactly if no number is claimed before it
is chosen. -/
theorem Registered.keeps_iff (h : Registered r reg everyone) (hn : Numbered ring seen reg) (hs : Unclaimed ring seen)
    (ha : Admissible ring r calls) (hrun : requestEach ring r calls = .ok states) :
    (states.Pairwise Keeps ∧ ∀ t ∈ states, ∀ p ∈ reg, t.1.groups.get? p.2.id = some p.2) ↔
      Unclaimed ring (firstsAfter seen calls) := by
  -- induction on the requests still to come, for any registry that is as it should be
  induction calls generalizing r reg everyone seen states with
  | nil =>
    obtain rfl : [] = states := Except.ok.inj hrun
    simpa [firstsAfter] using hs
  | cons c calls ih =>
    obtain ⟨r', g, rest, hrequest, hrest, rfl⟩ := requestEach_cons_eq_ok hrun
    have ha' := ha.2 r' g hrequest
    rw [firstsAfter, pairwise_cons, forall_mem_cons]
    rcases h.request_cases hn ha.1 hrequest with ⟨hseen, rfl, p, hp, rfl⟩ | ⟨hseen, ⟨everyone', h'⟩, hid, hfree⟩ |
      ⟨hseen, hchosen, ⟨d, hd, hclaimed⟩, p, hp, hlost⟩
    · rw [if_pos hseen, ← ih h hn hs ha' hrest]
      constructor
      · rintro ⟨⟨-, hpairs⟩, -, hold⟩
        exact ⟨hpairs, hold⟩
      · rintro ⟨hpairs, hold⟩
        exact ⟨⟨fun t ht => hold t ht p hp, hpairs⟩, fun q hq => h.get?_id hq, hold⟩
    · rw [if_neg (by rw [hseen]; simp), ← ih h' (hn.concat c hid) (unclaimed_concat_iff.mpr ⟨hs, hfree⟩) ha' hrest]
      constructor
      · rintro ⟨⟨hnew, hpairs⟩, -, hold⟩
        exact ⟨hpairs, fun t ht => forall_mem_append.mpr ⟨hold t ht, forall_mem_singleton.mpr (hnew t ht)⟩⟩
      · rintro ⟨hpairs, hold⟩
        refine ⟨⟨fun t ht => hold t ht (c.ranks, g) (by simp), hpairs⟩, fun q hq => ?_, fun t ht q hq => ?_⟩
        · exact h'.get?_id (mem_append_left _ hq)
        · exact hold t ht q (mem_append_left _ hq)
    · -- the group of `p` is lost right after this request, whose number was claimed
      rw [if_neg (by rw [hseen]; simp)]
      constructor
      · rintro ⟨-, hkept, -⟩
        exact absurd (hkept p hp) hlost
      · intro hall
        obtain ⟨later, hlater⟩ := exists_firstsAfter (seen ++ [c]) calls
        rw [hlater] at hall
        exact absurd hclaimed ((unclaimed_concat_iff.mp hall.of_append).2 hchosen d hd)

/-- **Which histories keep their groups.**  Let every number that is given be positive and free at that time.  Then
every request is answered.  Every group stays registered under its number after all later requests if and only if,
among the requests that are the first of their keys, none without a number comes after one that was given the number
that is chosen for it.  So it does if no numbers are given, or if all are. -/
theorem requestEach_keeps_iff (ring : Nat) (calls : List Request) (h : Admissible ring empty calls) :
    ∃ states, requestEach ring empty calls = .ok states ∧ states.length = calls.length ∧
      (states.Pairwise Keeps ↔ Unclaimed ring (firstsAfter [] calls)) ∧
      (((∀ c ∈ calls, c.id? = none) ∨ ∀ c ∈ calls, c.id? ≠ none) → states.Pairwise Keeps) := by
  obtain ⟨states, hrun, hlength⟩ := isOpen_empty.requestEach h
  have hstart : Numbered ring [] [] := rfl
  have hnone : Unclaimed ring [] := by
    intro i k c d _ hc
    simp at hc
  have hiff : states.Pairwise Keeps ↔ Unclaimed ring (firstsAfter [] calls) := by
    rw [← registered_empty.keeps_iff hstart hnone h hrun]
    simp
  have hcalls : ∀ (k : Nat) (c : Request), (firstsAfter [] calls)[k]? = some c → c ∈ calls := by
    intro k c hc
    rcases mem_of_mem_firstsAfter (mem_of_getElem? hc) with hmem | hmem
    · cases hmem
    · exact hmem
  refine ⟨states, hrun, hlength, hiff, fun hall => hiff.mpr ?_⟩
  intro i k c d _ hc hd hchosen
  rcases hall with hall | hall
  · rw [hall c (hcalls i c hc)]
    simp
  · exact absurd hchosen (hall d (hcalls k d hd))

/-- With `ring` nine, the number twelve is given to the first group and then chosen for the second one, which takes its
place. -/
theorem requestEach_not_keeps_twelve : Admissible (9 : Nat) empty [⟨[0], some 12⟩, ⟨[1], none⟩] ∧
      ∃ states, requestEach (9 : Nat) empty [⟨[0], some 12⟩, ⟨[1], none⟩] = .ok states ∧ ¬ states.Pairwise Keeps := by
  have hadmissible : Admissible (9 : Nat) empty [⟨[0], some 12⟩, ⟨[1], none⟩] := by
    refine ⟨?_, fun _ _ _ => ⟨?_, fun _ _ _ => trivial⟩⟩
    · rintro id hid
      obtain rfl : 12 = id := by simpa using hid
      exact ⟨by decide, rfl⟩
    · simp
  have hkey : key [0] ≠ key [1] := by decide +kernel
  have hfirsts : firstsAfter [] [⟨[0], some 12⟩, ⟨[1], none⟩] = [⟨[0], some 12⟩, ⟨[1], none⟩] := by
    simp [firstsAfter, hkey]
  obtain ⟨states, hrun, -, hiff, -⟩ := requestEach_keeps_iff 9 [⟨[0], some 12⟩, ⟨[1], none⟩] hadmissible
  refine ⟨hadmissible, states, hrun, ?_⟩
  rw [hiff, hfirsts]
  intro hall
  exact hall 0 1 _ _ (by decide) rfl rfl rfl rfl

end TensorKit.Distributed.Registry
