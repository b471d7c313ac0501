import TensorKit.Distributed.Hybrid
import TensorKit.Proofs.Distributed.CommunicationGroups
/-!
# Neighbours in a pipe

Every rank goes through all links of all pipes, asks for two groups at each and keeps those it is in.  What it asks for
does not depend on which rank it is (`asked_run`).  Each of the six things it keeps comes from the last link with some
property, and there is only one such link (`field_run_of_unique`).  So the group that a rank keeps for sending to the
next rank, and the one that the next rank keeps for receiving from it, come from one and the same link.

With two stages the next and the previous rank coincide.  The groups of a rank still come from two links, because a rank
receives only through links that are not its own.
-/

namespace TensorKit.Distributed.Hybrid

open Tensor List Nat Neighbours

variable (self : Nat)
variable {j k n i : Nat} {l m : Link} {pipe : List Nat} {ls : List Link} {stages : Int} {t : Topology}

/-! ## 1. Links that close to rings -/

/-- **Links that close to rings.**  Every rank has one link, to another rank; the next rank goes back to it and the
previous one goes on to it. -/
structure Rings (ls : List Link) : Prop where
  once : (ls.map Link.rank).Nodup
  apart : ∀ l ∈ ls, l.next ≠ l.rank
  back : ∀ l ∈ ls, ∃ m ∈ ls, m.rank = l.next ∧ m.previous = l.rank
  forth : ∀ l ∈ ls, ∃ m ∈ ls, m.rank = l.previous ∧ m.next = l.rank

namespace Rings

theorem eq_of_rank (h : Rings ls) (hl : ls[j]? = some l) (hm : ls[k]? = some m)
    (hr : m.rank = l.rank) : k = j := by
  obtain ⟨hj, rfl⟩ := List.getElem?_eq_some_iff.mp hl
  obtain ⟨hk, rfl⟩ := List.getElem?_eq_some_iff.mp hm
  have hranks : (ls.map Link.rank)[k]? = (ls.map Link.rank)[j]? := by simpa [hj, hk] using hr
  exact (getElem?_inj (by simpa using hk) h.once).mp hranks

theorem link_eq (h : Rings ls) (hl : l ∈ ls) (hm : m ∈ ls) (hr : m.rank = l.rank) : m = l := by
  obtain ⟨j, hj⟩ := mem_iff_getElem?.mp hl
  obtain ⟨k, hk⟩ := mem_iff_getElem?.mp hm
  obtain rfl := h.eq_of_rank hj hk hr
  exact Option.some.inj (hk.symm.trans hj)

/-- Two links with the same neighbour are one, if the neighbour goes back to both. -/
theorem eq_of_neighbour {f g : Link → Nat} (h : Rings ls) (hback : ∀ l ∈ ls, ∃ m ∈ ls, m.rank = f l ∧ g m = l.rank)
    (hl : ls[j]? = some l) (hm : ls[k]? = some m) (hn : f m = f l) : k = j := by
  obtain ⟨l', hl', hrank, hback'⟩ := hback l (mem_of_getElem? hl)
  obtain ⟨m', hm', hrank', hback''⟩ := hback m (mem_of_getElem? hm)
  have heq : m' = l' := h.link_eq hl' hm' (by rw [hrank', hn, hrank])
  exact h.eq_of_rank hl hm (by rw [← hback', ← hback'', heq])

theorem previous_ne (h : Rings ls) (hl : l ∈ ls) : l.previous ≠ l.rank := by
  obtain ⟨m, hm, hrank, hnext⟩ := h.forth l hl
  intro heq
  exact h.apart m hm (by rw [hnext, hrank, heq])

end Rings

/-! ## 2. The links of a pipe -/

theorem pred_succ_mod (h : i < n) : ((i + 1) % n + n - 1) % n = i := by
  rcases Nat.lt_or_ge (i + 1) n with hlt | hge
  · rw [Nat.mod_eq_of_lt hlt, show i + 1 + n - 1 = i + n by omega, Nat.add_mod_right, Nat.mod_eq_of_lt h]
  · obtain rfl : n = i + 1 := by omega
    rw [Nat.mod_self, Nat.zero_add, Nat.add_sub_cancel, Nat.mod_eq_of_lt h]

theorem succ_pred_mod (h : i < n) : ((i + n - 1) % n + 1) % n = i := by
  rw [mod_add_mod, show i + n - 1 + 1 = i + n by omega, add_mod_right, mod_eq_of_lt h]

theorem mem_links_iff :
    l ∈ links pipe ↔ ∃ i, pipe[i]? = some l.rank ∧ pipe[(i + 1) % pipe.length]? = some l.next ∧
      pipe[(i + pipe.length - 1) % pipe.length]? = some l.previous := by
  simp only [links, mem_map, Prod.exists, mem_zipIdx_iff_getElem?]
  constructor
  · rintro ⟨r, i, hr, rfl⟩
    have hi := lt_of_getElem? hr
    have hget : ∀ j, pipe[j % pipe.length]? = some (pipe[j % pipe.length]?.getD r) := by
      intro j
      rw [getElem?_eq_getElem (mod_lt j (by omega)), Option.getD_some]
    exact ⟨i, hr, hget _, hget _⟩
  · rintro ⟨i, hr, hn, hp⟩
    refine ⟨l.rank, i, hr, ?_⟩
    rw [hn, hp]
    rfl

theorem exists_link {r : Nat} (hr : pipe[i]? = some r) :
    ∃ l ∈ links pipe, l.rank = r ∧ pipe[(i + 1) % pipe.length]? = some l.next ∧
      pipe[(i + pipe.length - 1) % pipe.length]? = some l.previous := by
  have hpos : 0 < pipe.length := zero_lt_of_lt (lt_of_getElem? hr)
  have hn := getElem?_eq_getElem (mod_lt (i + 1) hpos)
  have hp := getElem?_eq_getElem (mod_lt (i + pipe.length - 1) hpos)
  exact ⟨⟨r, _, _⟩, mem_links_iff.mpr ⟨i, hr, hn, hp⟩, rfl, hn, hp⟩

theorem map_rank_links (pipe : List Nat) : (links pipe).map Link.rank = pipe := by
  rw [links, map_map]
  exact zipIdx_map_fst 0 pipe

theorem map_rank_flatMap_links (pipes : List (List Nat)) : (pipes.flatMap links).map Link.rank = pipes.flatten := by
  simp [map_flatMap, map_rank_links]

/-- **The links of pipes of at least two distinct ranks close to rings.** -/
theorem rings_links {pipes : List (List Nat)} (hnd : pipes.flatten.Nodup) (hlen : ∀ p ∈ pipes, 2 ≤ p.length) :
    Rings (pipes.flatMap links) where
  once := by rwa [map_rank_flatMap_links]
  apart l hl heq := by
    obtain ⟨p, hp, hl⟩ := mem_flatMap.mp hl
    obtain ⟨i, hr, hn, -⟩ := mem_links_iff.mp hl
    have htwo := hlen p hp
    have hi := lt_of_getElem? hr
    have hpnd : p.Nodup := (nodup_flatten.mp hnd).1 p hp
    -- the place of the next rank is another one
    have hplace : (i + 1) % p.length = i := by
      have hget : p[(i + 1) % p.length]? = p[i]? := by rw [hn, hr, heq]
      exact (getElem?_inj (mod_lt _ (by omega)) hpnd).mp hget
    rcases lt_or_ge (i + 1) p.length with hlt | hge
    · rw [mod_eq_of_lt hlt] at hplace
      omega
    · rw [show i + 1 = p.length by omega, mod_self] at hplace
      omega
  back l hl := by
    obtain ⟨p, hp, hl⟩ := mem_flatMap.mp hl
    obtain ⟨i, hr, hn, -⟩ := mem_links_iff.mp hl
    obtain ⟨m, hm, hrank, -, hprev⟩ := exists_link hn
    rw [pred_succ_mod (lt_of_getElem? hr), hr] at hprev
    exact ⟨m, mem_flatMap.mpr ⟨p, hp, hm⟩, hrank, (Option.some.inj hprev).symm⟩
  forth l hl := by
    obtain ⟨p, hp, hl⟩ := mem_flatMap.mp hl
    obtain ⟨i, hr, -, hv⟩ := mem_links_iff.mp hl
    obtain ⟨m, hm, hrank, hnext, -⟩ := exists_link hv
    rw [succ_pred_mod (lt_of_getElem? hr), hr] at hnext
    exact ⟨m, mem_flatMap.mpr ⟨p, hp, hm⟩, hrank, (Option.some.inj hnext).symm⟩

/-! ## 3. What a rank asks for and keeps -/

/-- **One link.**  A rank asks for both groups, whether it is in them or not.  At its own link it keeps its neighbours
and both groups for sending; at another it keeps the groups that it is in, for receiving. -/
theorem visit_eq (s : Setup) (l : Link) : visit self s l = ⟨s.asked ++ requests l,
      { next := if self = l.rank then some l.next else s.kept.next
        previous := if self = l.rank then some l.previous else s.kept.previous
        sendNext := if self = l.rank then some ⟨s.asked.length, [l.rank, l.next]⟩ else s.kept.sendNext
        sendPrevious := if self = l.rank then some ⟨s.asked.length + 1, [l.previous, l.rank]⟩ else s.kept.sendPrevious
        receiveNext := if self ≠ l.rank ∧ self = l.previous then some ⟨s.asked.length + 1, [l.previous, l.rank]⟩
          else s.kept.receiveNext
        receivePrevious := if self ≠ l.rank ∧ self = l.next then some ⟨s.asked.length, [l.rank, l.next]⟩
          else s.kept.receivePrevious }⟩ := by
  simp only [visit, Setup.ask, Setup.keep, requests]
  by_cases hr : self = l.rank
  · subst hr
    simp
  · simp only [ne_eq, hr, not_false_eq_true, true_and]
    by_cases hn : self = l.next
    · by_cases hp : self = l.previous
      · simp [if_pos hn, if_pos hp]
      · simp [if_pos hn, if_neg hp]
    · by_cases hp : self = l.previous
      · simp [if_neg hn, if_pos hp]
      · simp [if_neg hn, if_neg hp]

def run (self : Nat) (ls : List Link) : Setup := ls.foldl (visit self) {}

theorem run_snoc (ls : List Link) (l : Link) : run self (ls ++ [l]) = visit self (run self ls) l := by
  rw [run, foldl_append]
  rfl

/-- **What a rank asks for does not depend on which rank it is.** -/
theorem asked_run (ls : List Link) : (run self ls).asked = ls.flatMap requests := by
  induction ls using reverseRecOn with
  | nil => rfl
  | append_singleton ls l ih => rw [run_snoc, visit_eq, ih, flatMap_append, flatMap_singleton]

theorem length_asked_run (ls : List Link) : (run self ls).asked.length = 2 * ls.length := by
  have htwo : ∀ l ∈ ls, (requests l).length = 2 := fun l _ => rfl
  rw [asked_run, length_flatMap, map_congr_left htwo]
  simp [mul_comm]

/-- **What a rank keeps.**  Something that is taken over from the links with a property comes from the link that has
it, if there is only one.  By induction on the links from the last one. -/
theorem field_run_of_unique {α : Type} {self : Nat} (field : Neighbours → Option α) (p : Link → Prop)
    [DecidablePred p] (value : Nat → Link → α)
    (hstep : ∀ s l, field (visit self s l).kept = if p l then some (value s.asked.length l) else field s.kept) :
    ∀ {ls j l}, ls[j]? = some l → p l → (∀ k m, ls[k]? = some m → p m → k = j) →
      field (run self ls).kept = some (value (2 * j) l) := by
  intro ls
  induction ls using reverseRecOn with
  | nil => intro j l hl; simp at hl
  | append_singleton ls last ih =>
    intro j l hl hp huniq
    have hlast : (ls ++ [last])[ls.length]? = some last := by simp
    rw [run_snoc, hstep]
    by_cases hplast : p last
    · obtain rfl : ls.length = j := huniq _ _ hlast hplast
      obtain rfl : last = l := Option.some.inj (hlast.symm.trans hl)
      rw [if_pos hplast, length_asked_run]
    · have hj : j < ls.length := by
        have hlt := lt_of_getElem? hl
        rw [length_append, length_singleton] at hlt
        rcases Nat.lt_or_eq_of_le (Nat.lt_succ_iff.mp hlt) with hlt | rfl
        · exact hlt
        · exact absurd (Option.some.inj (hlast.symm.trans hl) ▸ hp) hplast
      rw [getElem?_append_left hj] at hl
      rw [if_neg hplast]
      refine ih hl hp fun k m hm hpm => huniq k m ?_ hpm
      rwa [getElem?_append_left (lt_of_getElem? hm)]

namespace Rings

variable (h : Rings ls) (hl : ls[j]? = some l)

include h hl

theorem next_run : (run l.rank ls).kept.next = some l.next :=
  field_run_of_unique Neighbours.next (fun m => l.rank = m.rank) (fun _ m => m.next) (fun s m => by rw [visit_eq])
    hl rfl fun _ _ hm heq => h.eq_of_rank hl hm heq.symm

theorem previous_run : (run l.rank ls).kept.previous = some l.previous :=
  field_run_of_unique Neighbours.previous (fun m => l.rank = m.rank) (fun _ m => m.previous)
    (fun s m => by rw [visit_eq]) hl rfl fun _ _ hm heq => h.eq_of_rank hl hm heq.symm

theorem sendNext_run : (run l.rank ls).kept.sendNext = some ⟨2 * j, [l.rank, l.next]⟩ :=
  field_run_of_unique sendNext (fun m => l.rank = m.rank) (fun k m => ⟨k, [m.rank, m.next]⟩)
    (fun s m => by rw [visit_eq]) hl rfl fun _ _ hm heq => h.eq_of_rank hl hm heq.symm

theorem receivePrevious_run : (run l.next ls).kept.receivePrevious = some ⟨2 * j, [l.rank, l.next]⟩ :=
  field_run_of_unique receivePrevious (fun m => l.next ≠ m.rank ∧ l.next = m.next)
    (fun k m => ⟨k, [m.rank, m.next]⟩) (fun s m => by rw [visit_eq]) hl
    ⟨h.apart l (mem_of_getElem? hl), rfl⟩ fun _ _ hm heq => h.eq_of_neighbour h.back hl hm heq.2.symm

theorem sendPrevious_run : (run l.rank ls).kept.sendPrevious = some ⟨2 * j + 1, [l.previous, l.rank]⟩ :=
  field_run_of_unique sendPrevious (fun m => l.rank = m.rank) (fun k m => ⟨k + 1, [m.previous, m.rank]⟩)
    (fun s m => by rw [visit_eq]) hl rfl fun _ _ hm heq => h.eq_of_rank hl hm heq.symm

theorem receiveNext_run : (run l.previous ls).kept.receiveNext = some ⟨2 * j + 1, [l.previous, l.rank]⟩ :=
  field_run_of_unique receiveNext (fun m => l.previous ≠ m.rank ∧ l.previous = m.previous)
    (fun k m => ⟨k + 1, [m.previous, m.rank]⟩) (fun s m => by rw [visit_eq]) hl
    ⟨h.previous_ne (mem_of_getElem? hl), rfl⟩ fun _ _ hm heq => h.eq_of_neighbour h.forth hl hm heq.2.symm

end Rings

/-- **What a rank and its neighbours agree on**, given what each rank has set up: who is next to whom, and that what one
sends through a group the other receives through the same group.  The rank has all four groups. -/
structure Agree (outcome : Nat → Setup) (r next previous : Nat) : Prop where
  next_eq : (outcome r).kept.next = some next
  previous_eq : (outcome r).kept.previous = some previous
  back : (outcome next).kept.previous = some r
  forth : (outcome previous).kept.next = some r
  forward : (outcome r).kept.sendNext = (outcome next).kept.receivePrevious
  backward : (outcome r).kept.sendPrevious = (outcome previous).kept.receiveNext
  complete : (outcome r).kept.sendNext ≠ none ∧ (outcome r).kept.sendPrevious ≠ none ∧
    (outcome r).kept.receiveNext ≠ none ∧ (outcome r).kept.receivePrevious ≠ none

theorem Rings.agree (h : Rings ls) (hl : l ∈ ls) :
    Agree (fun r => run r ls) l.rank l.next l.previous := by
  obtain ⟨m, hm, hmrank, hmprev⟩ := h.back l hl
  obtain ⟨m', hm', hmrank', hmnext'⟩ := h.forth l hl
  obtain ⟨j, hj⟩ := mem_iff_getElem?.mp hl
  obtain ⟨k, hk⟩ := mem_iff_getElem?.mp hm
  obtain ⟨k', hk'⟩ := mem_iff_getElem?.mp hm'
  -- what the rank receives comes from the links of its neighbours
  have hreceiveNext := h.receiveNext_run hk
  have hreceivePrevious := h.receivePrevious_run hk'
  rw [hmprev] at hreceiveNext
  rw [hmnext'] at hreceivePrevious
  refine ⟨h.next_run hj, h.previous_run hj, ?_, ?_, ?_, ?_, ?_, ?_, ?_, ?_⟩
  · rw [← hmrank, h.previous_run hk, hmprev]
  · rw [← hmrank', h.next_run hk', hmnext']
  · rw [h.sendNext_run hj, h.receivePrevious_run hj]
  · rw [h.sendPrevious_run hj, h.receiveNext_run hj]
  · rw [h.sendNext_run hj]
    exact Option.some_ne_none _
  · rw [h.sendPrevious_run hj]
    exact Option.some_ne_none _
  · rw [hreceiveNext]
    exact Option.some_ne_none _
  · rw [hreceivePrevious]
    exact Option.some_ne_none _

/-! ## 4. All ranks of a topology -/

theorem foldlM_visitPipe (self : Nat) : ∀ {pipes : List (List Nat)} (s : Setup),
    (∀ p ∈ pipes, (p.length : Int) = stages) →
    pipes.foldlM (visitPipe self stages) s = .ok ((pipes.flatMap links).foldl (visit self) s)
  | [], _, _ => rfl
  | p :: pipes, s, h => by
    have hp : visitPipe self stages s p = .ok ((links p).foldl (visit self) s) := by
      rw [visitPipe, if_neg (not_not.mpr (h p mem_cons_self))]
    rw [foldlM_cons, hp, flatMap_cons, foldl_append]
    exact foldlM_visitPipe self _ fun q hq => h q (.tail _ hq)

theorem parameters_of_perm (hnames : t.names.Perm ["data", "pipe", "sharding", "model"]) :
    t.parameters = t.names := by
  have hall : ∀ n ∈ ["data", "pipe", "sharding", "model"], n.toList.all fun c => c.toNat < 128 := by decide
  exact Topology.parameters_eq fun n hn => t.naming.normal_ascii n fun c hc =>
    of_decide_eq_true (List.all_eq_true.mp (hall n (hnames.mem_iff.mp hn)) c hc)

/-- The axes data, pipe, sharding and model, in some order, with positive sizes, make a topology. -/
theorem wellFormed_of_perm (hnames : t.names.Perm ["data", "pipe", "sharding", "model"])
    (haxes : t.names.length = t.sizes.length) (hpos : ∀ d ∈ t.sizes, 0 < d) : t.WellFormed where
  some_axis hnil := by
    rw [hnil] at hnames
    exact absurd hnames.length_eq (by decide)
  parameters_nodup := by
    rw [parameters_of_perm hnames]
    exact hnames.nodup_iff.mpr (by decide)
  axes := haxes
  sizes_pos := hpos

/-- **The pipes of a topology** with at least two stages: links that close to rings and have every rank. -/
theorem exists_rings (h : t.WellFormed) (hnormal : t.parameters = t.names) (hpipe : "pipe" ∈ t.names)
    (hstages : t.size "pipe" = .ok stages) (htwo : 2 ≤ stages) :
    ∃ ls, Rings ls ∧ (ls.map Link.rank).Perm (range t.worldSize.toNat) ∧
      ∀ l ∈ ls, setUp t l.rank = .ok (run l.rank ls) := by
  obtain ⟨a, ha⟩ := mem_iff_getElem?.mp hpipe
  obtain ⟨pre, d, post, hext, hpre, -⟩ := h.exists_axis ha
  obtain rfl : stages = (d : Int) := Except.ok.inj (hstages.symm.trans (h.size_eq ha (by simp [hext, ← hpre])))
  have hperm := flatten_rows_perm pre d post
  have hlen : ∀ p ∈ rows pre d post, p.length = d := by
    intro p hp
    obtain ⟨x, -, y, -, rfl⟩ := mem_rows.mp hp
    exact length_row
  have hrings : Rings ((rows pre d post).flatMap links) := by
    refine rings_links (hperm.nodup_iff.mpr nodup_range) fun p hp => ?_
    rw [hlen p hp]
    omega
  refine ⟨_, hrings, ?_, ?_⟩
  · rwa [map_rank_flatMap_links, h.worldSize_eq, Int.toNat_natCast, hext]
  · intro l hl
    obtain ⟨hs, hs', hn, hp⟩ := (hrings.agree hl).complete
    have hcomplete : (run l.rank ((rows pre d post).flatMap links)).kept.isComplete := by
      simp only [isComplete, Bool.and_eq_true, Option.isSome_iff_ne_none]
      exact ⟨⟨⟨hs, hs'⟩, hn⟩, hp⟩
    have hlen' : ∀ p ∈ rows pre d post, (p.length : Int) = (d : Int) := fun p hp => by rw [hlen p hp]
    have hfold := foldlM_visitPipe l.rank {} hlen'
    rw [run] at hcomplete
    simp only [setUp, h.groups_eq_rows ha hext hpre hnormal, hstages, liftM_ok,
      ok_bind, hfold, hcomplete]
    rfl

/-- **Neighbours in a pipe agree.**  In a topology with the axes data, pipe, sharding and model, of positive sizes, and
at least two stages, every rank sets up its groups of two.  All ranks ask for the same groups in the same order, and
every rank has a next and a previous rank with which it agrees. -/
theorem setUp_consistent {t : Topology} (hnames : t.names.Perm ["data", "pipe", "sharding", "model"])
    (haxes : t.names.length = t.sizes.length) (hpos : ∀ d ∈ t.sizes, 0 < d) {stages : Int}
    (hstages : t.size "pipe" = .ok stages) (htwo : 2 ≤ stages) : ∃ (calls : List (List Nat)) (outcome : Nat → Setup),
      (∀ r < t.worldSize.toNat, setUp t r = .ok (outcome r) ∧ (outcome r).asked = calls) ∧
      ∀ r < t.worldSize.toNat, ∃ next < t.worldSize.toNat, ∃ previous < t.worldSize.toNat,
        Agree outcome r next previous := by
  have h := wellFormed_of_perm hnames haxes hpos
  obtain ⟨ls, hrings, hperm, hsetUp⟩ := exists_rings h (parameters_of_perm hnames) (hnames.mem_iff.mpr (by decide)) hstages htwo
  -- every rank has a link, and every link is that of a rank
  have hlink : ∀ r < t.worldSize.toNat, ∃ l ∈ ls, l.rank = r := by
    intro r hr
    exact mem_map.mp (hperm.mem_iff.mpr (mem_range.mpr hr))
  have hlt : ∀ l : Link, l ∈ ls → l.rank < t.worldSize.toNat := by
    intro l hl
    exact mem_range.mp (hperm.mem_iff.mp (mem_map_of_mem hl))
  refine ⟨ls.flatMap requests, fun r => run r ls, ?_, ?_⟩
  · intro r hr
    obtain ⟨l, hl, rfl⟩ := hlink r hr
    exact ⟨hsetUp l hl, asked_run l.rank ls⟩
  · intro r hr
    obtain ⟨l, hl, rfl⟩ := hlink r hr
    obtain ⟨m, hm, hmrank, -⟩ := hrings.back l hl
    obtain ⟨m', hm', hmrank', -⟩ := hrings.forth l hl
    exact ⟨l.next, hmrank ▸ hlt m hm, l.previous, hmrank' ▸ hlt m' hm', hrings.agree hl⟩

def twoStages : Topology := ⟨["data", "pipe", "sharding", "model"], [1, 2, 1, 2], .usual⟩

/-- With two stages the next and the previous rank of the rank 1 are both the rank 3. -/
theorem setUp_consistent_two_stages : ∃ (calls : List (List Nat)) (outcome : Nat → Setup),
      (∀ r < 4, setUp twoStages r = .ok (outcome r) ∧ (outcome r).asked = calls) ∧ Agree outcome 1 3 3 := by
  obtain ⟨calls, outcome, hsetUp, hagree⟩ := setUp_consistent (t := twoStages) (List.Perm.refl _) (by decide)
    (by decide) (show twoStages.size "pipe" = .ok 2 from rfl) (by decide)
  obtain ⟨next, -, previous, -, h⟩ := hagree 1 (by decide)
  -- what the rank 1 keeps is found by running it
  have hrun : (setUp twoStages 1).toOption.map (fun s => (s.kept.next, s.kept.previous)) = some (some 3, some 3) := rfl
  rw [(hsetUp 1 (by decide)).1, Except.toOption, Option.map_some, Option.some.injEq, Prod.mk.injEq, h.next_eq,
    h.previous_eq] at hrun
  obtain ⟨hnext, hprevious⟩ := hrun
  cases hnext
  cases hprevious
  exact ⟨calls, outcome, hsetUp, h⟩

end TensorKit.Distributed.Hybrid
