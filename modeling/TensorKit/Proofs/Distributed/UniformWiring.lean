import TensorKit.Proofs.Distributed.GroupMachines
/-!
# Clusters of equal machines, numbered and wired

Adding a link reads only the devices, which links do not change, so all links are put in place as they would be at the
start (`foldlM_addLink`), and a machine ends up with those that start at it (`links_putLinks`).  A description of equal
machines lists one link for each ordered pair of different devices (`links_uniformInfos`), so a cluster that is built
from it has one link for each such pair (`exists_link`).  With the ranks of its accelerators, which are counted
machine by machine, this is `ofSettings_wired`.
-/

namespace TensorKit.Distributed.Cluster

open List Table

variable {t s n : Nat} {p : Nat × Nat}

/-! ## 1. Putting links in place -/

section Links

variable {ν : Type}

def heldLinks (c : Cluster ν) : List (Nat × Link ν) := c.machines.flatMap fun m => m.links.values.map fun l => (m.id, l)

def linkEntry (l : Link ν) : (Number × Number) × Link ν := ((l.source, l.target), l)

def putLinks (c : Cluster ν) (ls : List (Nat × Link ν)) : Cluster ν := ls.foldl (fun c p => c.putLink p.1 p.2) c

theorem device?_bare (c : Cluster ν) (n : Number) : c.bare.device? n = c.device? n := by
  rw [device?, bare, foldl_map]
  rfl

theorem putLinks_bare (c : Cluster ν) (ls : List (Nat × Link ν)) : (c.putLinks ls).bare = c.bare := by
  induction ls generalizing c with
  | nil => rfl
  | cons p ls ih => exact (ih _).trans (putLink_bare c p.1 p.2)

/-- **Step lemma of wiring.**  A link between devices that are found is put into the machine of its source. -/
theorem addLink_eq_ok [Arithmetic ν] {c : Cluster ν} {i : LinkInfo ν} {t : LinkType} {x y : ν} {s e : Device}
    (htype : kindOr LinkType.unknown LinkType.all LinkType.name i.type = .ok t)
    (hbandwidth : Arithmetic.floating i.bandwidth = .ok x) (hlatency : Arithmetic.floating i.latency = .ok y)
    (hsource : c.device? i.source = some s) (htarget : c.device? i.target = some e) :
    c.addLink i = .ok (c.putLink s.machine {
      source := i.source, target := i.target, type := t, bandwidth := x, latency := y
      hop := i.hop.getD (Arithmetic.whole (if s.machine = e.machine then 0 else 1)) }) := by
  simp only [addLink, htype, hbandwidth, hlatency, device, hsource, htarget]
  rfl

/-- **Run lemma of wiring.**  Links that can be added to a cluster, whichever others it has, are put in place one after
the other. -/
theorem foldlM_addLink [Arithmetic ν] {α : Type} {info : α → LinkInfo ν} {made : α → Nat × Link ν} {xs : List α}
    {c : Cluster ν} (h : ∀ x ∈ xs, ∀ b : Cluster ν, b.bare = c.bare →
      b.addLink (info x) = .ok (b.putLink (made x).1 (made x).2)) :
    (xs.map info).foldlM addLink c = .ok (c.putLinks (xs.map made)) := by
  induction xs generalizing c with
  | nil => rfl
  | cons x xs ih =>
    rw [forall_mem_cons] at h
    rw [map_cons, foldlM_cons, h.1 c rfl]
    refine ih fun z hz b hb => h.2 z hz b (hb.trans (putLink_bare c _ _))

theorem machines_putLinks (c : Cluster ν) (ls : List (Nat × Link ν)) :
    (c.putLinks ls).machines = c.machines.map fun m => { m with
      links := m.links.update ((ls.filter fun p => p.1 = m.id).map fun p => linkEntry p.2) } := by
  induction ls generalizing c with
  | nil => simp [putLinks, update]
  | cons p ls ih =>
    refine (ih (c.putLink p.1 p.2)).trans ?_
    rw [putLink, map_map]
    refine map_congr_left fun m _ => ?_
    by_cases hm : m.id = p.1
    · simp [hm, linkEntry, update]
    · simp [hm, Ne.symm hm]

variable {c : Cluster ν} {ls : List (Nat × Link ν)}

def DistinctEnds (ls : List (Nat × Link ν)) : Prop := (ls.map fun p => (p.2.source, p.2.target)).Nodup

theorem links_putLinks (hbare : c.bare = c) (harranged : c.Arranged) (hnd : DistinctEnds ls) {k : Nat} {m : Machine ν}
    (hm : (c.putLinks ls).machines[k]? = some m) :
    m.links = (ls.filter fun p => p.1 = k).map (fun p => linkEntry p.2) ∧ m.links.keys.Nodup := by
  rw [machines_putLinks, getElem?_map, Option.map_eq_some_iff] at hm
  obtain ⟨m₀, hm₀, rfl⟩ := hm
  have hempty : m₀.links = [] := by
    have hmem := mem_of_getElem? hm₀
    rw [← hbare] at hmem
    obtain ⟨m₁, -, rfl⟩ := mem_map.mp hmem
    rfl
  have hkeys : keys ((ls.filter fun p => p.1 = k).map fun p => linkEntry p.2)
      = (ls.filter fun p => p.1 = k).map fun p => (p.2.source, p.2.target) := by
    rw [Table.keys, map_map]
    rfl
  have hnodup : (keys ((ls.filter fun p => p.1 = k).map fun p => linkEntry p.2)).Nodup := by
    rw [hkeys]
    exact hnd.sublist (filter_sublist.map _)
  rw [harranged.id_eq hm₀, hempty]
  rw [show update [] _ = _ from ofList_of_nodup hnodup]
  exact ⟨rfl, hnodup⟩

/-- The links of a cluster that was wired are those that were put in place, each in its machine. -/
theorem mem_heldLinks_putLinks (hbare : c.bare = c) (harranged : c.Arranged) (hnd : DistinctEnds ls) {p : Nat × Link ν} :
    p ∈ (c.putLinks ls).heldLinks ↔ p ∈ ls ∧ p.1 < c.machines.length := by
  have harranged' : (c.putLinks ls).Arranged := by
    refine arranged_of_bare ?_
    rwa [putLinks_bare, hbare]
  have hlen : (c.putLinks ls).machines.length = c.machines.length := by rw [machines_putLinks, length_map]
  have hmem : ∀ {k m}, (c.putLinks ls).machines[k]? = some m →
      (p ∈ m.links.values.map (fun l => (m.id, l)) ↔ p ∈ ls ∧ p.1 = k) := by
    intro k m hm
    rw [harranged'.id_eq hm, (links_putLinks hbare harranged hnd hm).1, values, map_map, map_map]
    constructor
    · intro hp
      obtain ⟨q, hq, rfl⟩ := mem_map.mp hp
      obtain ⟨hq, hown⟩ := mem_filter.mp hq
      exact ⟨of_decide_eq_true hown ▸ hq, rfl⟩
    · rintro ⟨hp, rfl⟩
      exact mem_map.mpr ⟨p, mem_filter.mpr ⟨hp, decide_eq_true rfl⟩, rfl⟩
  rw [heldLinks, mem_flatMap, ← hlen]
  constructor
  · rintro ⟨m, hm, hp⟩
    obtain ⟨k, hk⟩ := mem_iff_getElem?.mp hm
    obtain ⟨hp, rfl⟩ := (hmem hk).mp hp
    exact ⟨hp, lt_of_getElem? hk⟩
  · rintro ⟨hp, hlt⟩
    exact ⟨_, getElem_mem hlt, (hmem (getElem?_eq_getElem hlt)).mpr ⟨hp, rfl⟩⟩

end Links

/-! ## 2. The links of equal machines -/

theorem nodup_orderedPairs (n : Nat) : (orderedPairs n).Nodup := by
  refine nodup_flatMap.mpr ⟨fun s _ => ?_, ?_⟩
  · exact (nodup_range.filter _).map fun _ _ h => (Prod.mk.inj h).2
  · refine nodup_range.imp fun {s s'} hne => ?_
    rw [Function.onFun, disjoint_left]
    intro p hp hp'
    obtain ⟨t, -, rfl⟩ := mem_map.mp hp
    obtain ⟨t', -, heq⟩ := mem_map.mp hp'
    exact hne (Prod.mk.inj heq).1.symm

section Uniform

variable {e : Equipment} {N D : Nat} {c : Cluster Value}

theorem links_uniformInfos (e : Equipment) (N D : Nat) : (uniformInfos e N D).flatMap MachineInfo.links
      = (orderedPairs (N * (D + 2))).map fun p => uniformLink e D p.1 p.2 := by
  conv_rhs => rw [← flatMap_filter_orderedPairs, map_flatMap]
  rw [uniformInfos, flatMap_map]
  rfl

/-- The link between two devices of equal machines, with the machine that holds it. -/
def madeLink (inner outer latency : Value) (D : Nat) (p : Nat × Nat) : Nat × Link Value :=
  (p.1 / (D + 2), {
    source := toNumber p.1, target := toNumber p.2
    type := if deviceAt D p.1 = deviceAt D p.2 then .nvl else .phb
    bandwidth := if deviceAt D p.1 = deviceAt D p.2 then inner else outer
    latency
    hop := .int (if p.1 / (D + 2) = p.2 / (D + 2) then 0 else 1) })

theorem addLink_uniformLink (h : c.IsUniform N D) {x y z : Value} (hinner : Value.toFloating e.inner = .ok x)
    (houter : Value.toFloating e.outer = .ok y) (hzero : Value.toFloating (.int 0) = .ok z)
    (hp : p ∈ orderedPairs (N * (D + 2))) {b : Cluster Value} (hb : b.bare = c.bare) :
    b.addLink (uniformLink e D p.1 p.2) = .ok (b.putLink (madeLink x y z D p).1 (madeLink x y z D p).2) := by
  obtain ⟨hs, ht, -⟩ := mem_orderedPairs.mp hp
  obtain ⟨d, hd, hmachine⟩ := h.device?_toNumber hs
  obtain ⟨f, hf, hmachine'⟩ := h.device?_toNumber ht
  rw [← device?_bare, ← hb, device?_bare] at hd hf
  rw [uniformLink, madeLink]
  by_cases halike : deviceAt D p.1 = deviceAt D p.2
  · simp only [halike, if_true]
    rw [addLink_eq_ok rfl hinner hzero hd hf, hmachine, hmachine']
    rfl
  · simp only [halike, if_false]
    rw [addLink_eq_ok rfl houter hzero hd hf, hmachine, hmachine']
    rfl

/-- **The wiring of equal machines.**  All ordered pairs of different devices get a link. -/
theorem exists_putLinks (he : e.Readable) (h : build (uniformInfos e N D) = .ok c) : ∃ (b : Cluster Value) (x y z : Value),
    b.bare = b ∧ b.Arranged ∧ b.machines.length = N ∧
      c = b.putLinks ((orderedPairs (N * (D + 2))).map (madeLink x y z D)) := by
  obtain ⟨x, hinner⟩ := he.inner
  obtain ⟨y, houter⟩ := he.outer
  obtain ⟨z, hzero⟩ := exists_toFloating_zero
  have hdist := distinct_of_numbersIn (numbersIn_uniform e N D)
  obtain ⟨dss, hread, hbare⟩ := build_bare hdist h
  have huniform := isUniform_of_build h
  refine ⟨madeOf (uniformInfos e N D) dss, x, y, z, madeOf_bare _ _, arranged_madeOf hread, ?_, ?_⟩
  · rw [← hbare, bare, length_map, huniform.length]
  · refine Except.ok.inj (h.symm.trans ?_)
    rw [build, foldlM_addDescribed_start hdist hread, links_uniformInfos]
    exact foldlM_addLink fun p hp b hb =>
      addLink_uniformLink huniform hinner houter hzero hp (hb.trans ((madeOf_bare _ _).trans hbare.symm))

theorem distinctEnds_madeLink (x y z : Value) (D n : Nat) : DistinctEnds ((orderedPairs n).map (madeLink x y z D)) := by
  rw [DistinctEnds, map_map]
  refine (nodup_orderedPairs n).map fun p q h => ?_
  obtain ⟨hs, ht⟩ := Prod.mk.inj h
  exact Prod.ext (toNumber_injective hs) (toNumber_injective ht)

/-- Between two different devices there is one link, in the machine of its source. -/
theorem exists_link (he : e.Readable) (h : build (uniformInfos e N D) = .ok c) (hs : s < N * (D + 2))
    (ht : t < N * (D + 2)) (hne : s ≠ t) :
    ∃ l, (∀ p, p ∈ c.heldLinks ∧ p.2.source = toNumber s ∧ p.2.target = toNumber t ↔ p = (s / (D + 2), l)) ∧
      c.link? (toNumber s) (toNumber t) = .ok (some l) ∧ l.type = (if deviceAt D s = deviceAt D t then .nvl else .phb) ∧
      l.hop = .int (if s / (D + 2) = t / (D + 2) then 0 else 1) := by
  have huniform := isUniform_of_build h
  obtain ⟨d, hd, hmachine⟩ := huniform.device?_toNumber hs
  obtain ⟨b, x, y, z, hbare, harranged, hlen, rfl⟩ := exists_putLinks he h
  have hpair : (s, t) ∈ orderedPairs (N * (D + 2)) := mem_orderedPairs.mpr ⟨hs, ht, hne⟩
  have hplace : s / (D + 2) < N := Nat.div_lt_of_lt_mul (by rwa [Nat.mul_comm])
  have hnd := distinctEnds_madeLink x y z D (N * (D + 2))
  refine ⟨(madeLink x y z D (s, t)).2, ?_, ?_, rfl, rfl⟩
  · intro p
    constructor
    · rintro ⟨hheld, hsource, htarget⟩
      obtain ⟨q, -, rfl⟩ := mem_map.mp ((mem_heldLinks_putLinks hbare harranged hnd).mp hheld).1
      obtain rfl : q = (s, t) := Prod.ext (toNumber_injective hsource) (toNumber_injective htarget)
      rfl
    · rintro rfl
      exact ⟨(mem_heldLinks_putLinks hbare harranged hnd).mpr ⟨mem_map_of_mem hpair, hlen.symm ▸ hplace⟩, rfl, rfl⟩
  · obtain ⟨m, hm⟩ : ∃ m, (b.putLinks ((orderedPairs (N * (D + 2))).map (madeLink x y z D))).machines[s / (D + 2)]?
        = some m := ⟨_, getElem?_eq_getElem (huniform.length.symm ▸ hplace)⟩
    obtain ⟨hlinks, hkeys⟩ := links_putLinks hbare harranged hnd hm
    have hget : m.links.get? (toNumber s, toNumber t) = some (madeLink x y z D (s, t)).2 := by
      refine get?_of_mem hkeys ?_
      rw [hlinks]
      refine mem_map.mpr ⟨madeLink x y z D (s, t), mem_filter.mpr ⟨mem_map_of_mem hpair, ?_⟩, rfl⟩
      exact decide_eq_true rfl
    simp only [link?, device, hd, demand_some, ok_bind, hmachine, hm, Option.bind_some, hget]
    rfl

/-! ## 3. Ranks -/

namespace IsUniform

theorem exists_number (h : c.IsUniform N D) {d : Device} (hd : d ∈ c.devices) :
    ∃ n < N * (D + 2), d.number = toNumber n ∧ d.machine = n / (D + 2) ∧ d.type = uniformType D (n % (D + 2)) := by
  have hmem := mem_map_of_mem (f := Device.number) hd
  rw [h.numbers] at hmem
  obtain ⟨n, hn, hnumber⟩ := mem_map.mp hmem
  have hlt := mem_range.mp hn
  obtain ⟨f, hf, hnumber', hmachine, htype⟩ := h.exists_device hlt
  obtain rfl := inj_on_of_nodup_map h.nodup_numbers hf hd (hnumber'.trans hnumber)
  exact ⟨n, hlt, hnumber', hmachine, htype⟩

theorem length_acceleratorNumbers (h : c.IsUniform N D) : c.acceleratorNumbers.length = N * D := by
  have hcount : ∀ m ∈ c.machines, m.devices.values.countP Device.computes = D := by
    intro m hm
    have htypes : m.devices.values.countP Device.computes
        = (m.devices.values.map Device.type).countP DeviceType.isAccelerator := by
      rw [countP_map]
      rfl
    rw [htypes, h.types m hm, countP_append, countP_replicate]
    rfl
  have hmap : c.machines.map (countP Device.computes ∘ fun m => m.devices.values) = replicate N D := by
    rw [← h.length]
    exact map_eq_replicate_iff.mpr hcount
  rw [acceleratorNumbers, length_map, ← countP_eq_length_filter, devices, countP_flatMap, hmap,
    sum_replicate]
  rfl

end IsUniform

/-! ## 4. The cluster -/

/-- **A cluster of equal machines, numbered and wired.** -/
structure Wired (c : Cluster Value) (N D : Nat) : Prop where
  /-- so many machines, each with its accelerators, a processor and a network card -/
  machines : c.machines.map (fun m => m.devices.values.map Device.type)
    = replicate N (replicate D .gpu ++ [.cpu, .nic])
  /-- devices are numbered from zero on, machine by machine -/
  numbers : c.devices.map Device.number = (range (N * (D + 2))).map toNumber
  /-- the device of a rank, and the machine that holds it -/
  device : ∀ r < N * D, c.deviceOf.get? (toNumber r) = some (toNumber (r / D * (D + 2) + r % D)) ∧
    ∃ m d, c.machines[r / D]? = some m ∧ (toNumber (r / D * (D + 2) + r % D), d) ∈ m.devices ∧ d.type = .gpu
  /-- there are no other ranks -/
  rank_iff : ∀ r, (c.deviceOf.get? r).isSome ↔ ∃ k < N * D, r = toNumber k
  inverse : ∀ r n, c.deviceOf.get? r = some n ↔ c.rankOf.get? n = some r
  /-- two different devices have one link, which the machine of its source holds -/
  link : ∀ d ∈ c.devices, ∀ f ∈ c.devices, d.number ≠ f.number →
    ∃ l, (∀ p, p ∈ c.heldLinks ∧ p.2.source = d.number ∧ p.2.target = f.number ↔ p = (d.machine, l)) ∧
      c.link? d.number f.number = .ok (some l) ∧
      l.type = (if d.machine = f.machine ∧ d.type = f.type then .nvl else .phb) ∧
      l.hop = .int (if d.machine = f.machine then 0 else 1)

theorem wired_of_build (he : e.Readable) (h : build (uniformInfos e N D) = .ok c) : c.Wired N D := by
  have huniform := isUniform_of_build h
  have hcorrespond := huniform.ranksCorrespond
  refine ⟨?_, huniform.numbers, fun r hr => ⟨huniform.deviceOf_eq hr, ?_⟩, fun r => ?_, hcorrespond.inverse, ?_⟩
  · rw [← huniform.length]
    exact map_eq_replicate_iff.mpr huniform.types
  · have hpos : 0 < D := Nat.pos_of_ne_zero fun h => by simp [h] at hr
    obtain ⟨hdiv, hmod⟩ := IsUniform.deviceNumber_div_mod hpos
    obtain ⟨d, hd, hnumber, hmachine, htype⟩ := huniform.exists_device (IsUniform.deviceNumber_lt hr)
    obtain ⟨m, hm, hmem⟩ := huniform.arranged.machine_of_mem_devices hd
    rw [hmachine, hdiv] at hm
    rw [hnumber] at hmem
    rw [hmod, uniformType, if_pos (Nat.mod_lt r hpos)] at htype
    exact ⟨m, d, hm, hmem, htype⟩
  · rw [hcorrespond.rank_iff, huniform.length_acceleratorNumbers]
  · intro d hd f hf hne
    obtain ⟨s, hs, hnumber, hmachine, htype⟩ := huniform.exists_number hd
    obtain ⟨t, ht, hnumber', hmachine', htype'⟩ := huniform.exists_number hf
    have hdiff : s ≠ t := by
      rintro rfl
      exact hne (hnumber.trans hnumber'.symm)
    rw [hnumber, hnumber', hmachine, hmachine', htype, htype']
    simpa only [deviceAt, Prod.mk.injEq] using exists_link he h hs ht hdiff

/-- **Clusters from settings.**  Settings for some machines with some accelerators each give a cluster of that many
machines with accelerators, a processor and a network card.  Rank `r` is accelerator `r % D` of machine `r / D`, the two
tables of ranks are inverse to each other on all `N * D` ranks, and each ordered pair of different devices has one link,
held by the machine of its source: of the fast kind exactly between like devices of one machine, and without a switch
exactly within a machine. -/
theorem ofSettings_wired {given : List (String × Value)} {N D : Nat} (hgiven : Usable given)
    (hnodes : countOf (setting given "node_count") = .ok N) (hN : 1 ≤ N)
    (hdevices : countOf (setting given "device_count") = .ok D) (hD : 1 ≤ D) :
    ∃ c, ofSettings given = .ok c ∧ c.Wired N D := by
  obtain ⟨e, c, he, hc, hsettings⟩ := hgiven.exists_uniform hnodes (by omega) hdevices (by omega)
  have h := wired_of_build he hc
  exact ⟨_, hsettings, h.machines, h.numbers, h.device, h.rank_iff, h.inverse, h.link⟩

end Uniform

/-- Two machines with three accelerators each: rank 4 is the second accelerator of the second machine. -/
theorem ofSettings_wired_two_machines : Usable (counts 2 3) ∧ ∃ c, ofSettings (counts 2 3) = .ok c ∧ c.Wired 2 3 ∧
      c.deviceOf.get? (some 4) = some (some 6) ∧ c.rankOf.get? (some 6) = some (some 4) := by
  obtain ⟨c, hc, hwired⟩ := ofSettings_wired (usable_counts 2 3) (N := 2) (D := 3) rfl (by decide) rfl (by decide)
  have hdevice : c.deviceOf.get? (some 4) = some (some 6) := (hwired.device 4 (by decide)).1
  exact ⟨usable_counts 2 3, c, hc, hwired, hdevice, (hwired.inverse _ _).mp hdevice⟩

end TensorKit.Distributed.Cluster
