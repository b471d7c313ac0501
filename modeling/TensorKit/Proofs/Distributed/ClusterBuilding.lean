import Mathlib.Data.List.Nodup
import TensorKit.Distributed.Cluster
import TensorKit.Proofs.Traversal
/-!
# What a cluster is built of

A cluster is built in two rounds.  The first adds the machines, each with its devices and the ranks of its accelerators
(`foldlM_addDescribed`); the second adds the links, which changes nothing else (`addLink_bare`).  So a description with
distinct numbers gives a cluster if all its parts can be read (`exists_build_eq_ok`), and what the cluster has apart
from its links is `made` from the devices that were read (`build_bare`).
-/

namespace TensorKit.Distributed

open List Device Machine Table

variable {ν : Type}
variable {m : Machine ν} {ds : List Device} {k b : Nat} {c c' : Cluster ν} {ms : List (Machine ν)}
  {found : Option Device}

def Device.computes (d : Device) : Bool := d.type.isAccelerator

/-- How many devices do not compute? -/
def othersAmong (ds : List Device) : Nat := ds.countP fun d => !d.computes

/-! ## 1. Adding a machine -/

namespace Machine

/-- Devices with new, distinct numbers stand in a machine in the order in which they were added. -/
theorem foldl_addDevice (hnd : (m.devices.keys ++ ds.map number).Nodup)
    (hacc : m.accelerators ⊆ m.devices.keys) : ds.foldl addDevice m = { m with
      devices := m.devices ++ ds.map fun d => (d.number, d)
      accelerators := m.accelerators ++ (ds.filter computes).map number } := by
  induction ds generalizing m with
  | nil => simp
  | cons d ds ih =>
    have hnew : d.number ∉ m.devices.keys := by
      intro hd
      exact (nodup_append.mp hnd).2.2 _ hd _ mem_cons_self rfl
    have hset : m.devices.set d.number d = m.devices ++ [(d.number, d)] := set_of_notMem_keys hnew
    have hadd : m.addDevice d = { m with
        devices := m.devices ++ [(d.number, d)]
        accelerators := m.accelerators ++ ([d].filter computes).map number } := by
      have hold : d.number ∉ m.accelerators := fun hd => hnew (hacc hd)
      rw [addDevice, hset]
      cases hd : d.type.isAccelerator <;> simp [computes, hd, hold]
    rw [foldl_cons, hadd, ih]
    · simp [filter_cons]
      split <;> simp
    · simpa [Table.keys] using hnd
    · intro n hn
      rw [Table.keys, map_append]
      rcases mem_append.mp hn with hn | hn
      · exact mem_append_left _ (hacc hn)
      · obtain ⟨e, he, rfl⟩ := mem_map.mp hn
        obtain rfl : e = d := by simpa using (mem_filter.mp he).1
        simp

def made (place before : Nat) (i : Cluster.MachineInfo ν) (ds : List Device) : Machine ν where
  id := place
  host := i.host
  address := i.address
  port := i.port
  devices := ds.map fun d => (d.number, d)
  accelerators := (ds.filter Device.computes).map Device.number
  others := othersAmong ds + before

@[simp] theorem values_made (k b : Nat) (i : Cluster.MachineInfo ν) (ds : List Device) :
    (made k b i ds).devices.values = ds := by
  rw [made, values, map_map]
  exact map_id ds

end Machine

namespace Cluster

variable {is : List (MachineInfo ν)} {dss : List (List Device)} {d : Device}
variable {n : Number}

/-- How many devices of all machines so far are no accelerators, as the last machine has it. -/
def others (c : Cluster ν) : Nat := (c.machines.getLast?.map Machine.others).getD 0

/-- The ranks of the accelerators among devices with their numbers, given how many devices on earlier machines are no
accelerators. -/
def rankPairs (before : Nat) (ds : List Device) : List (Number × Number) :=
  (ds.filter Device.computes).map fun d => (d.number.map (· - (before : Int)), d.number)

def Numbered (ds : List Device) : Prop := (ds.map Device.number).Nodup ∧ none ∉ ds.map Device.number

theorem ranksOn_made {before : Nat} (hk : k = 0 → before = 0) (b : Nat) (i : MachineInfo ν)
    (hds : none ∉ ds.map number) : ranksOn (made k b i ds) before = .ok (rankPairs before ds) := by
  have hfilter : ((made k b i ds).devices.filter fun p => p.2.type.isAccelerator)
      = (ds.filter computes).map fun d => (d.number, d) := by
    rw [made, filter_map]
    rfl
  rw [ranksOn, hfilter, mapM_map]
  refine mapM_eq_ok fun d hd => ?_
  obtain ⟨n, hn⟩ : ∃ n, d.number = some n := by
    rw [← Option.isSome_iff_exists, Option.isSome_iff_ne_none]
    exact fun h => hds (h ▸ mem_map_of_mem (mem_of_mem_filter hd))
  simp only [made, Function.comp, hn, Option.map_some]
  split
  next h => rw [hk h, Int.natCast_zero, Int.sub_zero]
  · rfl

/-- **Step lemma of building.**  A machine whose devices can be read and have distinct numbers is added after the
others, with the ranks of its accelerators. -/
theorem addDescribed_eq_ok {i : MachineInfo ν} (hread : i.devices.mapM (makeDevice c.machines.length) = .ok ds)
    (hds : Numbered ds) : c.addDescribed i = .ok { c with
      machines := c.machines ++ [.made c.machines.length c.others i ds]
      deviceOf := c.deviceOf.update (rankPairs c.others ds)
      rankOf := c.rankOf.update ((rankPairs c.others ds).map Prod.swap) } := by
  have hmachine : ds.foldl addDevice
      { id := c.machines.length, host := i.host, address := i.address, port := i.port }
      = { made c.machines.length c.others i ds with others := 0 } := by
    rw [foldl_addDevice (by simpa [Table.keys] using hds.1) (by simp)]
    rfl
  have hfirst : c.machines.length = 0 → c.others = 0 := by
    intro h
    rw [others, length_eq_zero_iff.mp h]
    rfl
  have hranks : ranksOn { made c.machines.length c.others i ds with others := 0 } c.others
      = .ok (rankPairs c.others ds) := ranksOn_made hfirst c.others i hds.2
  have hcount : ds.length - (ds.filter computes).length = othersAmong ds := by
    rw [← countP_eq_length_filter, ds.length_eq_countP_add_countP computes, othersAmong]
    simp
  rw [addDescribed, hread]
  simp only [ok_bind, hmachine]
  rw [addMachine, ← others, hranks]
  simp [made, hcount]

/-! ## 2. Adding all machines -/

/-- The devices that are read from the descriptions of machines, of which the first stands at a place. -/
def Described : Nat → List (MachineInfo ν) → List (List Device) → Prop
  | _, [], [] => True
  | k, i :: is, ds :: dss => i.devices.mapM (makeDevice k) = .ok ds ∧ Described (k + 1) is dss
  | _, _, _ => False

def madeFrom (k before : Nat) : List (MachineInfo ν) → List (List Device) → List (Machine ν)
  | i :: is, ds :: dss => .made k before i ds :: madeFrom (k + 1) (othersAmong ds + before) is dss
  | _, _ => []

def rankPairsFrom (before : Nat) : List (List Device) → List (Number × Number)
  | [] => []
  | ds :: dss => rankPairs before ds ++ rankPairsFrom (othersAmong ds + before) dss

/-- **Run lemma of building.**  Machines are added one after the other if the devices of each can be read and have
distinct numbers. -/
theorem foldlM_addDescribed (hread : Described c.machines.length is dss) (hds : ∀ ds ∈ dss, Numbered ds) :
    is.foldlM addDescribed c = .ok { c with
      machines := c.machines ++ madeFrom c.machines.length c.others is dss
      deviceOf := c.deviceOf.update (rankPairsFrom c.others dss)
      rankOf := c.rankOf.update ((rankPairsFrom c.others dss).map Prod.swap) } := by
  generalize hk : c.machines.length = k at hread ⊢
  fun_induction Described k is dss generalizing c with
  | case1 => simp [madeFrom, rankPairsFrom, update, pure_eq_ok]
  | case2 k i is ds dss ih =>
    subst hk
    rw [foldlM_cons, addDescribed_eq_ok hread.1 (hds ds mem_cons_self)]
    simp only [ok_bind]
    rw [ih (fun es hes => hds es (.tail _ hes)) (by simp) hread.2]
    simp [others, made, madeFrom, rankPairsFrom, update]
  | case3 => exact hread.elim

/-- What is kept of a description, and what has to be read for it. -/
theorem makeDevice_eq_ok {i : DeviceInfo} (h : makeDevice k i = .ok d) : d.number = i.number ∧ d.machine = k ∧
    kindOr DeviceType.unknown DeviceType.all DeviceType.name i.type = .ok d.type ∧
      ∀ k, makeDevice k i = .ok { d with machine := k } := by
  simp only [makeDevice, bind_eq_ok_iff] at h
  obtain ⟨t, ht, x, hx, y, hy, z, hz, h⟩ := h
  cases h
  refine ⟨rfl, rfl, ht, fun k => ?_⟩
  rw [makeDevice, ht, hx, hy, hz]
  rfl

theorem map_number_of_read {is : List DeviceInfo} (h : is.mapM (makeDevice k) = .ok ds) :
    ds.map number = is.map DeviceInfo.number :=
  map_of_mapM_eq_ok (fun hd => (makeDevice_eq_ok hd).1) h

theorem Described.map_number (h : Described k is dss) :
    dss.flatten.map number = (is.flatMap MachineInfo.devices).map DeviceInfo.number := by
  fun_induction Described k is dss with
  | case1 => rfl
  | case2 k i is ds dss ih => rw [flatten_cons, flatMap_cons, map_append, map_append, ih h.2, map_number_of_read h.1]
  | case3 => exact h.elim

theorem described_of_foldlM_eq_ok (h : is.foldlM addDescribed c = .ok c') :
    ∃ dss, Described c.machines.length is dss := by
  induction is generalizing c with
  | nil => exact ⟨[], trivial⟩
  | cons i is ih =>
    rw [foldlM_cons] at h
    obtain ⟨b, hb, h⟩ := of_bind_eq_ok h
    obtain ⟨dss, hdss⟩ := ih h
    obtain ⟨ds, hds, ranks, -, hb⟩ := of_bind₂_eq_ok hb
    cases hb
    refine ⟨ds :: dss, hds, ?_⟩
    simpa using hdss

/-! ## 3. Adding the links -/

def bare (c : Cluster ν) : Cluster ν := { c with machines := c.machines.map fun m => { m with links := [] } }

def devices (c : Cluster ν) : List Device := c.machines.flatMap fun m => m.devices.values

theorem putLink_bare (c : Cluster ν) (k : Nat) (l : Link ν) : (c.putLink k l).bare = c.bare := by
  rw [putLink, bare, bare, map_map]
  congr 1
  refine map_congr_left fun m _ => ?_
  rw [Function.comp]
  split <;> rfl

theorem addLink_bare [Arithmetic ν] {l : LinkInfo ν} (h : c.addLink l = .ok c') : c'.bare = c.bare := by
  simp only [addLink, bind_eq_ok_iff] at h
  obtain ⟨_, -, _, -, _, -, s, -, _, -, h⟩ := h
  cases h
  exact putLink_bare c s.machine _

def numbersIn (is : List (MachineInfo ν)) : List Number := (is.flatMap MachineInfo.devices).map DeviceInfo.number

/-- The devices of a description have numbers, no two the same. -/
def Distinct (is : List (MachineInfo ν)) : Prop := (numbersIn is).Nodup ∧ none ∉ numbersIn is

/-- All parts of a description can be read, and its links join devices that it describes. -/
structure Readable [Arithmetic ν] (is : List (MachineInfo ν)) : Prop where
  device : ∀ i ∈ is, ∀ d ∈ i.devices, ∃ e, makeDevice 0 d = .ok e
  linkType : ∀ i ∈ is, ∀ l ∈ i.links, ∃ t, kindOr LinkType.unknown LinkType.all LinkType.name l.type = .ok t
  bandwidth : ∀ i ∈ is, ∀ l ∈ i.links, ∃ x, Arithmetic.floating l.bandwidth = .ok x
  latency : ∀ i ∈ is, ∀ l ∈ i.links, ∃ x, Arithmetic.floating l.latency = .ok x
  source : ∀ i ∈ is, ∀ l ∈ i.links, l.source ∈ numbersIn is
  target : ∀ i ∈ is, ∀ l ∈ i.links, l.target ∈ numbersIn is

/-- Can a link be added?  It depends on the cluster by the devices that are found. -/
theorem exists_addLink_eq_ok [Arithmetic ν] {l : LinkInfo ν}
    (htype : ∃ t, kindOr LinkType.unknown LinkType.all LinkType.name l.type = .ok t)
    (hbandwidth : ∃ x, Arithmetic.floating l.bandwidth = .ok x)
    (hlatency : ∃ x, Arithmetic.floating l.latency = .ok x) (hsource : (c.device? l.source).isSome)
    (htarget : (c.device? l.target).isSome) : ∃ c', c.addLink l = .ok c' := by
  obtain ⟨t, ht⟩ := htype
  obtain ⟨x, hx⟩ := hbandwidth
  obtain ⟨y, hy⟩ := hlatency
  obtain ⟨d, hd⟩ := Option.isSome_iff_exists.mp hsource
  obtain ⟨e, he⟩ := Option.isSome_iff_exists.mp htarget
  simp only [addLink, ht, hx, hy, device, hd, he]
  exact ⟨_, rfl⟩

/-! ## 4. Finding devices -/

/-- Machines stand at the places that they are numbered by, and devices under their own numbers on their own machines. -/
structure Arranged (c : Cluster ν) : Prop where
  id_eq : ∀ {k : Nat} {m : Machine ν}, c.machines[k]? = some m → m.id = k
  own : ∀ m ∈ c.machines, ∀ p ∈ m.devices, p.2.number = p.1 ∧ p.2.machine = m.id

theorem mem_devices : d ∈ c.devices ↔ ∃ m ∈ c.machines, ∃ n, (n, d) ∈ m.devices := by simp [devices, values]

theorem Arranged.machine_of_mem_devices (h : c.Arranged) (hd : d ∈ c.devices) :
    ∃ m, c.machines[d.machine]? = some m ∧ (d.number, d) ∈ m.devices := by
  obtain ⟨m, hm, n, hn⟩ := mem_devices.mp hd
  obtain ⟨k, hk⟩ := getElem?_of_mem hm
  obtain ⟨hnumber, hmachine⟩ := h.own m hm _ hn
  refine ⟨m, ?_, ?_⟩
  · rwa [show d.machine = k from hmachine.trans (h.id_eq hk)]
  · rwa [show d.number = n from hnumber]

/-- The last machine that has a number is asked for its device. -/
theorem device?_eq_findSome? (c : Cluster ν) (n : Number) :
    c.device? n = c.machines.reverse.findSome? fun m => m.devices.get? n := by
  have hloop (ms : List (Machine ν)) (found : Option Device) : ms.foldl (fun found m => (m.devices.get? n).or found)
      found = (ms.reverse.findSome? fun m => m.devices.get? n).or found := by
    induction ms generalizing found with
    | nil => rfl
    | cons m ms ih => simp [ih, findSome?_append, Option.or_assoc]
  rw [device?, hloop, Option.or_none]

theorem Arranged.isSome_device? (h : c.Arranged) (hd : d ∈ c.devices) : (c.device? d.number).isSome := by
  obtain ⟨m, hm, hmem⟩ := h.machine_of_mem_devices hd
  rw [device?_eq_findSome?, findSome?_isSome_iff]
  refine ⟨m, mem_reverse.mpr (mem_of_getElem? hm), ?_⟩
  exact (has_iff_mem_keys _ _).mpr (mem_map_of_mem hmem)

/-- Where numbers are distinct, the device with a number is the one that is found. -/
theorem Arranged.device?_eq_some_iff (h : c.Arranged) (hnd : (c.devices.map number).Nodup) :
    c.device? n = some d ↔ d ∈ c.devices ∧ d.number = n := by
  have hfound {e : Device} (he : c.device? n = some e) : e ∈ c.devices ∧ e.number = n := by
    rw [device?_eq_findSome?] at he
    obtain ⟨m, hm, he⟩ := exists_of_findSome?_eq_some he
    have hm := mem_reverse.mp hm
    have hmem := mem_of_get?_eq_some he
    exact ⟨mem_devices.mpr ⟨m, hm, n, hmem⟩, (h.own m hm _ hmem).1⟩
  refine ⟨hfound, ?_⟩
  rintro ⟨hd, rfl⟩
  obtain ⟨e, he⟩ := Option.isSome_iff_exists.mp (h.isSome_device? hd)
  obtain ⟨hmem, hnumber⟩ := hfound he
  rw [he, inj_on_of_nodup_map hnd hmem hd hnumber]

/-! ## 5. Building -/

theorem Distinct.numbered (h : Distinct is) (hread : Described k is dss) : ∀ ds ∈ dss, Numbered ds := by
  rw [Distinct, numbersIn, ← hread.map_number] at h
  intro ds hds
  have hsub : (ds.map number).Sublist (dss.flatten.map number) := (sublist_flatten_of_mem hds).map _
  exact ⟨h.1.sublist hsub, fun hnone => h.2 (hsub.subset hnone)⟩

def madeOf (is : List (MachineInfo ν)) (dss : List (List Device)) : Cluster ν where
  machines := madeFrom 0 0 is dss
  deviceOf := .ofList (rankPairsFrom 0 dss)
  rankOf := .ofList ((rankPairsFrom 0 dss).map Prod.swap)

theorem madeFrom_bare :
    (madeFrom k b is dss).map (fun m => { m with links := [] }) = madeFrom k b is dss := by
  fun_induction madeFrom k b is dss with
  | case1 k b i is ds dss ih => rw [map_cons, ih]; rfl
  | case2 => rfl

@[simp] theorem madeOf_bare (is : List (MachineInfo ν)) (dss : List (List Device)) :
    (madeOf is dss).bare = madeOf is dss := by
  simp [bare, madeOf, madeFrom_bare]

theorem foldlM_addDescribed_start (hd : Distinct is) (hread : Described 0 is dss) :
    is.foldlM addDescribed {} = .ok (madeOf is dss) :=
  foldlM_addDescribed hread (hd.numbered hread)

/-- A cluster that was built from devices with distinct numbers has, apart from its links, what is made of them. -/
theorem build_bare [Arithmetic ν] (hd : Distinct is) (h : build is = .ok c) :
    ∃ dss, Described 0 is dss ∧ c.bare = madeOf is dss := by
  obtain ⟨b, hb, h⟩ := of_bind_eq_ok h
  obtain ⟨dss, hread⟩ := described_of_foldlM_eq_ok hb
  refine ⟨dss, hread, ?_⟩
  have hstart : b = madeOf is dss := Except.ok.inj (hb.symm.trans (foldlM_addDescribed_start hd hread))
  have hkeep : c.bare = b.bare :=
    of_foldlM_eq_ok addLink (fun hx hstep => (addLink_bare hstep).trans hx) h rfl
  rw [hkeep, hstart, madeOf_bare]

theorem map_values_madeFrom (hread : Described k is dss) (b : Nat) :
    (madeFrom k b is dss).map (fun m => m.devices.values) = dss := by
  fun_induction Described k is dss generalizing b with
  | case1 => rfl
  | case2 k i is ds dss ih => rw [madeFrom, map_cons, values_made, ih hread.2]
  | case3 => exact hread.elim

theorem forall₂_madeFrom (hread : Described k is dss) (b : Nat) :
    Forall₂ (fun i m => i.devices.mapM (makeDevice m.id) = .ok m.devices.values) is (madeFrom k b is dss) := by
  fun_induction Described k is dss generalizing b with
  | case1 => exact .nil
  | case2 k i is ds dss ih =>
    refine .cons ?_ (ih hread.2 _)
    rw [values_made]
    exact hread.1
  | case3 => exact hread.elim

theorem id_madeFrom {j : Nat} (h : (madeFrom k b is dss)[j]? = some m) : m.id = k + j := by
  fun_induction madeFrom k b is dss generalizing j with
  | case1 k b i is ds dss ih =>
    cases j with
    | zero =>
      cases h
      rfl
    | succ j =>
      rw [ih h]
      omega
  | case2 => cases h

theorem own_madeFrom (hread : Described k is dss) :
    ∀ m ∈ madeFrom k b is dss, ∀ p ∈ m.devices, p.2.number = p.1 ∧ p.2.machine = m.id := by
  fun_induction Described k is dss generalizing b with
  | case1 => simp [madeFrom]
  | case2 k i is ds dss ih =>
    rw [madeFrom, forall_mem_cons]
    refine ⟨?_, ih hread.2⟩
    intro p hp
    obtain ⟨d, hd, rfl⟩ := mem_map.mp hp
    -- every device was read for this machine
    obtain ⟨e, -, he⟩ := exists_mem_of_mapM_eq_ok hread.1 d hd
    exact ⟨rfl, (makeDevice_eq_ok he).2.1⟩
  | case3 => exact hread.elim

theorem arranged_of_bare (h : c.bare.Arranged) : c.Arranged where
  id_eq {k m} hm := h.id_eq (k := k) (m := { m with links := [] }) (by simp [bare, hm])
  own m hm := h.own { m with links := [] } (mem_map_of_mem hm)

theorem Arranged.bare (h : c.Arranged) : c.bare.Arranged where
  id_eq {k m} hm := by
    rw [Cluster.bare, getElem?_map, Option.map_eq_some_iff] at hm
    obtain ⟨m₀, hm₀, rfl⟩ := hm
    have hid := h.id_eq hm₀
    exact hid
  own := forall_mem_map.mpr h.own

theorem arranged_madeOf (hread : Described 0 is dss) : (madeOf is dss).Arranged where
  id_eq h := (id_madeFrom h).trans (Nat.zero_add _)
  own := own_madeFrom hread

section Bare

variable (hread : Described 0 is dss) (hc : c.bare = madeOf is dss)

include hread hc

theorem map_values_of_bare :
    c.machines.map (fun m => m.devices.values) = dss := by
  rw [← map_values_madeFrom hread 0, ← show c.bare.machines = madeFrom 0 0 is dss from congrArg machines hc, bare,
    map_map]
  rfl

theorem forall₂_of_bare :
    Forall₂ (fun i m => i.devices.mapM (makeDevice m.id) = .ok m.devices.values) is c.machines := by
  have hmade := forall₂_madeFrom hread 0
  rwa [← show c.bare.machines = madeFrom 0 0 is dss from congrArg machines hc, bare, forall₂_map_right_iff] at hmade

theorem devices_of_bare : c.devices = dss.flatten := by
  rw [devices, flatMap_def, map_values_of_bare hread hc]

end Bare

theorem exists_described (h : ∀ i ∈ is, ∀ d ∈ i.devices, ∃ e, makeDevice 0 d = .ok e) (k : Nat) :
    ∃ dss, Described k is dss := by
  induction is generalizing k with
  | nil => exact ⟨[], trivial⟩
  | cons i is ih =>
    rw [forall_mem_cons] at h
    obtain ⟨dss, hdss⟩ := ih h.2 (k + 1)
    obtain ⟨ds, hds⟩ : ∃ ds, i.devices.mapM (makeDevice k) = .ok ds := by
      refine exists_mapM_eq_ok fun d hd => ?_
      obtain ⟨e, he⟩ := h.1 d hd
      exact ⟨_, (makeDevice_eq_ok he).2.2.2 k⟩
    exact ⟨ds :: dss, hds, hdss⟩

/-- A description with distinct numbers whose parts can be read gives a cluster. -/
theorem exists_build_eq_ok [Arithmetic ν] (hd : Distinct is) (h : Readable is) : ∃ c, build is = .ok c := by
  obtain ⟨dss, hread⟩ := exists_described h.device 0
  have hstart := foldlM_addDescribed_start hd hread
  -- links never change which devices are found, so each end of a link is found when it is added
  have hfound {c : Cluster ν} (hc : c.bare = madeOf is dss) {n : Number} (hn : n ∈ numbersIn is) :
      (c.device? n).isSome := by
    rw [numbersIn, ← hread.map_number] at hn
    obtain ⟨d, hd, rfl⟩ := mem_map.mp hn
    rw [← devices_of_bare hread hc] at hd
    exact (arranged_of_bare (hc ▸ arranged_madeOf hread)).isSome_device? hd
  have hstep : ∀ c : Cluster ν, c.bare = madeOf is dss → ∀ l ∈ is.flatMap MachineInfo.links,
      ∃ c', c.addLink l = .ok c' ∧ c'.bare = madeOf is dss := by
    intro c hc l hl
    obtain ⟨i, hi, hl⟩ := mem_flatMap.mp hl
    obtain ⟨c', hc'⟩ := exists_addLink_eq_ok (h.linkType i hi l hl) (h.bandwidth i hi l hl) (h.latency i hi l hl)
      (hfound hc (h.source i hi l hl)) (hfound hc (h.target i hi l hl))
    exact ⟨c', hc', (addLink_bare hc').trans hc⟩
  obtain ⟨c, hc⟩ := exists_foldlM_eq_ok addLink hstep (madeOf_bare is dss)
  refine ⟨c, ?_⟩
  rwa [build, hstart]

end Cluster

end TensorKit.Distributed
