import TensorKit.Distributed.Collective
import TensorKit.Proofs.Actions
import TensorKit.Proofs.Distributed.EqualMachines
/-!
# The machines of a group

In a uniform cluster every machine has the same number of accelerators, and after them a processor and a network card.
The cost of a collective looks up the ranks of its group as if they were numbers of devices (`machineCount_eq`,
`crosses_eq`); the devices of the ranks would give the machines that host the group (`exists_devices_countHosts`).  So
the machines of the wrong devices are counted, and this is right for all groups if and only if there is only one machine
(`group_machines_iff`).
-/

namespace TensorKit.Distributed

open List Nat Value Device DeviceType Yields

variable {k r : Nat} {ns group : List Nat}

/-! ## 1. Counting machines -/

/-- The machines of numbers that are given out machine by machine, so many to each. -/
def hosts (width : Nat) (ns : List Nat) : Finset Nat := (ns.map (· / width)).toFinset

namespace Cluster

section Lookup

variable {ν : Type} {c : Cluster ν} {width : Nat}

def StandsBy (c : Cluster ν) (width : Nat) (ns : List Nat) : Prop :=
  ∀ n ∈ ns, ∃ d, c.device? (toNumber n) = some d ∧ d.machine = n / width

theorem machinesOf_eq (h : c.StandsBy width ns) : c.machinesOf (ns.map toNumber) = .ok (ns.map (· / width)).eraseDups := by
  have hmachine : ∀ n ∈ ns, (return (← c.device (toNumber n)).machine : Fallible Nat) = .ok (n / width) := by
    intro n hn
    obtain ⟨d, hd, hmachine⟩ := h n hn
    rw [device, hd]
    exact congrArg Except.ok hmachine
  have hmachines : (ns.map toNumber).mapM (fun n => return (← c.device n).machine) =
      (.ok (ns.map (· / width)) : Fallible (List Nat)) := by
    rw [mapM_map]
    exact mapM_eq_ok hmachine
  rw [machinesOf, hmachines]
  rfl

theorem machineCount_eq (h : c.StandsBy width ns) (hne : ns ≠ []) :
    c.machineCount (ns.map toNumber) = .ok (hosts width ns).card := by
  have hpos : (hosts width ns).card ≠ 0 := by simp [hosts, hne]
  rw [machineCount, machinesOf_eq h]
  simp only [ok_bind]
  rw [length_eraseDups, ← hosts, if_neg hpos]
  rfl

theorem crosses_eq (h : c.StandsBy width ns) : c.crosses (ns.map toNumber) = .ok (decide ((hosts width ns).card ≠ 1)) := by
  rw [crosses, machinesOf_eq h]
  simp only [ok_bind, pure_eq_ok]
  rw [length_eraseDups, ← hosts]

end Lookup

/-! ## 2. Uniform descriptions -/

section Uniform

variable (e : Equipment) (N D : Nat)

theorem number_uniformDevice (k p : Nat) : (uniformDevice e D k p).number = toNumber (k * (D + 2) + p) := by
  simp only [uniformDevice]
  split_ifs <;> rfl

theorem numbersIn_uniform : numbersIn (uniformInfos e N D) = (range (N * (D + 2))).map toNumber := by
  rw [numbersIn, uniformInfos, Tensor.range_mul, flatMap_map, map_flatMap, map_flatMap]
  refine flatMap_congr fun k _ => ?_
  rw [uniformMachine, map_map, map_map]
  exact map_congr_left fun p _ => number_uniformDevice e D k p

theorem kind_uniformDevice (k p : Nat) :
    kindOr unknown all name (uniformDevice e D k p).type = .ok (uniformType D p) := by
  simp only [uniformDevice, uniformType]
  split_ifs <;> rfl

theorem map_uniformType : (range (D + 2)).map (uniformType D) = replicate D .gpu ++ [.cpu, .nic] := by
  have hgpu : (range D).map (uniformType D) = replicate D .gpu := by
    rw [map_eq_replicate_iff.mpr, length_range]
    intro p hp
    exact if_pos (mem_range.mp hp)
  rw [range_succ, range_succ, map_append, map_append, hgpu]
  simp [uniformType]

variable {e N D} {c : Cluster Value} {given : Fields} {ds : List Device}

theorem types_of_read {ps : List (Nat × Nat)} (h : (uniformMachine e D ps k).devices.mapM (makeDevice k) = .ok ds) :
    ds.map type = replicate D .gpu ++ [.cpu, .nic] := by
  rw [uniformMachine, mapM_map] at h
  rw [← map_uniformType]
  refine map_of_mapM_eq_ok (fun hd => ?_) h
  exact Except.ok.inj ((makeDevice_eq_ok hd).2.2.1.symm.trans (kind_uniformDevice e D k _))

theorem othersAmong_of_types (h : ds.map type = replicate D .gpu ++ [.cpu, .nic]) : othersAmong ds = 2 := by
  have hcount : othersAmong ds = (ds.map type).countP fun t => !t.isAccelerator := by
    rw [countP_map]
    rfl
  rw [hcount, h, countP_append, countP_replicate]
  rfl

theorem computesFirst_of_types (h : ds.map type = replicate D .gpu ++ [.cpu, .nic]) : ComputesFirst ds := by
  have hpairwise : (ds.map type).Pairwise fun t u => u.isAccelerator → t.isAccelerator := by
    rw [h, pairwise_append]
    refine ⟨pairwise_replicate.mpr (.inr id), by decide, ?_⟩
    intro t ht u _ _
    rw [eq_of_mem_replicate ht]
    rfl
  exact pairwise_map.mp hpairwise

theorem othersAmong_flatten {w : Nat} {dss : List (List Device)} (h : ∀ ds ∈ dss, othersAmong ds = w) :
    othersAmong dss.flatten = dss.length * w := by
  induction dss with
  | nil => simp [othersAmong]
  | cons ds dss ih =>
    rw [forall_mem_cons] at h
    have hhead := h.1
    have htail := ih h.2
    simp only [othersAmong] at hhead htail ⊢
    rw [flatten_cons, countP_append, hhead, htail, length_cons]
    ring

/-! ## 3. Uniform clusters -/

structure IsUniform (c : Cluster Value) (N D : Nat) : Prop where
  arranged : c.Arranged
  counted : ∃ dss, c.Counted dss
  length : c.machines.length = N
  numbers : c.devices.map Device.number = (range (N * (D + 2))).map toNumber
  number : ∀ d ∈ c.devices, ∃ p < D + 2, d.number = toNumber (d.machine * (D + 2) + p) ∧ d.type = uniformType D p
  types : ∀ m ∈ c.machines, m.devices.values.map Device.type = replicate D .gpu ++ [.cpu, .nic]

theorem isUniform_of_build (h : build (uniformInfos e N D) = .ok c) : c.IsUniform N D := by
  have hnum := numbersIn_uniform e N D
  obtain ⟨dss, hread, hbare⟩ := build_bare (distinct_of_numbersIn hnum) h
  have harranged : c.Arranged := arranged_of_bare (hbare ▸ arranged_madeOf hread)
  have hpairs := forall₂_of_bare hread hbare
  have hlen : c.machines.length = N := by rw [← hpairs.length_eq, uniformInfos, length_map, length_range]
  -- a machine has the devices of the description at its place
  have hmachine {k : Nat} {m : Machine Value} (hm : c.machines[k]? = some m) :
      (uniformMachine e D (orderedPairs (N * (D + 2))) k).devices.mapM (makeDevice k) = .ok m.devices.values := by
    obtain ⟨hk, rfl⟩ := List.getElem?_eq_some_iff.mp hm
    have hget := hpairs.get (by simpa [uniformInfos, hlen] using hk) hk
    rw [get_eq_getElem, get_eq_getElem, harranged.id_eq hm] at hget
    simpa [uniformInfos] using hget
  refine ⟨harranged, ⟨dss, counted_of_bare hnum hread hbare⟩, hlen, ?_, ?_, ?_⟩
  · rwa [devices_of_bare hread hbare, hread.map_number]
  · intro d hd
    obtain ⟨m, hm, hmem⟩ := harranged.machine_of_mem_devices hd
    obtain ⟨i, hi, hmake⟩ := exists_mem_of_mapM_eq_ok (hmachine hm) d (mem_map_of_mem hmem)
    obtain ⟨p, hp, rfl⟩ := mem_map.mp hi
    obtain ⟨hnumber, -, htype, -⟩ := makeDevice_eq_ok hmake
    exact ⟨p, mem_range.mp hp, hnumber.trans (number_uniformDevice e D _ p),
      Except.ok.inj (htype.symm.trans (kind_uniformDevice e D _ p))⟩
  · intro m hm
    obtain ⟨k, hk⟩ := getElem?_of_mem hm
    exact types_of_read (hmachine hk)

namespace IsUniform

section

variable (h : c.IsUniform N D)

include h

theorem nodup_numbers : (c.devices.map Device.number).Nodup := by
  rw [h.numbers]
  exact nodup_range.map toNumber_injective

/-- A number below that of all devices belongs to a device of the machine that division gives. -/
theorem exists_device {n : Nat} (hn : n < N * (D + 2)) :
    ∃ d ∈ c.devices, d.number = toNumber n ∧ d.machine = n / (D + 2) ∧ d.type = uniformType D (n % (D + 2)) := by
  have hmem : toNumber n ∈ c.devices.map Device.number := by
    rw [h.numbers]
    exact mem_map_of_mem (mem_range.mpr hn)
  obtain ⟨d, hd, hnumber⟩ := mem_map.mp hmem
  obtain ⟨p, hp, hplace, htype⟩ := h.number d hd
  obtain rfl : d.machine * (D + 2) + p = n := toNumber_injective (hplace.symm.trans hnumber)
  obtain ⟨hdiv, hmod⟩ := (Nat.div_mod_unique (a := d.machine * (D + 2) + p) (c := p) (d := d.machine)
    (show 0 < D + 2 by omega)).mpr ⟨by ring, hp⟩
  exact ⟨d, hd, hnumber, hdiv.symm, by rw [hmod, htype]⟩

theorem device?_toNumber {n : Nat} (hn : n < N * (D + 2)) :
    ∃ d, c.device? (toNumber n) = some d ∧ d.machine = n / (D + 2) := by
  obtain ⟨d, hd, hnumber, hmachine, -⟩ := h.exists_device hn
  exact ⟨d, (h.arranged.device?_eq_some_iff h.nodup_numbers).mpr ⟨hd, hnumber⟩, hmachine⟩

theorem standsBy (hlt : ∀ n ∈ ns, n < N * (D + 2)) : c.StandsBy (D + 2) ns :=
  fun n hn => h.device?_toNumber (hlt n hn)

theorem ranksCorrespond : c.RanksCorrespond := by
  obtain ⟨dss, hdss⟩ := h.counted
  exact hdss.correspond_iff.mpr fun m hm => computesFirst_of_types (h.types m hm)

theorem othersBefore_eq (hk : k ≤ N) : c.othersBefore k = k * 2 := by
  rw [othersBefore, flatMap_def, othersAmong_flatten]
  · rw [length_map, length_take, h.length, min_eq_left hk]
  · exact forall_mem_map.mpr fun m hm => othersAmong_of_types (h.types m (mem_of_mem_take hm))

end

def deviceNumber (D r : Nat) : Nat := r / D * (D + 2) + r % D

theorem deviceNumber_eq (D r : Nat) : deviceNumber D r = r + r / D * 2 := by
  rw [deviceNumber, mul_add]
  have hsplit := div_add_mod' r D
  omega

theorem deviceNumber_lt (hr : r < N * D) : deviceNumber D r < N * (D + 2) := by
  have hk : r / D < N := Nat.div_lt_of_lt_mul (by rwa [Nat.mul_comm])
  rw [deviceNumber_eq, Nat.mul_add]
  omega

theorem deviceNumber_div_mod (hD : 0 < D) :
    deviceNumber D r / (D + 2) = r / D ∧ deviceNumber D r % (D + 2) = r % D := by
  have hp := Nat.mod_lt r hD
  refine (Nat.div_mod_unique (show 0 < D + 2 by omega)).mpr ⟨?_, by omega⟩
  rw [deviceNumber]
  ring

/-- The ranks are counted accelerator by accelerator, so many on each machine. -/
theorem deviceOf_eq (h : c.IsUniform N D) (hr : r < N * D) :
    c.deviceOf.get? (toNumber r) = some (toNumber (deviceNumber D r)) := by
  have hD : 0 < D := pos_of_ne_zero fun h => by simp [h] at hr
  obtain ⟨hdiv, hmod⟩ := deviceNumber_div_mod hD
  obtain ⟨dss, hdss⟩ := h.counted
  obtain ⟨d, hd, hnumber, hmachine, htype⟩ := h.exists_device (deviceNumber_lt hr)
  obtain ⟨m, hm, hmem⟩ := h.arranged.machine_of_mem_devices hd
  have hk : d.machine < N := h.length ▸ (lt_of_getElem? hm)
  have hcomputes : d.computes := by
    rw [computes, htype, hmod, uniformType, if_pos (mod_lt r hD)]
    rfl
  have hrank := hdss.rank_eq hm (mem_map_of_mem hmem) hcomputes
  have hsub : ((deviceNumber D r : Nat) : Int) - (r / D * 2 : Nat) = r := by
    have heq := deviceNumber_eq D r
    omega
  rw [h.othersBefore_eq hk.le, hnumber, hmachine, hdiv, toNumber, Option.map_some, hsub] at hrank
  exact (h.ranksCorrespond.inverse _ _).mpr hrank

/-- The devices of the ranks of a group stand on the machines that host the group. -/
theorem exists_devicesAt (h : c.IsUniform N D) (hD : 0 < D) (hlt : ∀ r ∈ group, r < N * D) :
    ∃ ns, c.devicesAt (group.map toNumber) = .ok (ns.map toNumber) ∧ (∀ n ∈ ns, n < N * (D + 2)) ∧
      hosts (D + 2) ns = hosts D group ∧ ns.length = group.length := by
  refine ⟨group.map (deviceNumber D), ?_, ?_, ?_, length_map _⟩
  · rw [devicesAt, mapM_map, map_map]
    refine mapM_eq_ok fun r hr => ?_
    simp [Function.comp, h.deviceOf_eq (hlt r hr)]
  · exact forall_mem_map.mpr fun r hr => deviceNumber_lt (hlt r hr)
  · rw [hosts, hosts, map_map]
    congr 1
    exact map_congr_left fun r _ => (deviceNumber_div_mod hD).1

end IsUniform

/-! ## 4. Settings -/

structure Equipment.Readable (e : Equipment) : Prop where
  acceleratorMemory : ∃ x, Value.toFloating e.acceleratorMemory = .ok x
  processorMemory : ∃ x, Value.toFloating e.processorMemory = .ok x
  acceleratorRate : ∃ x, Value.toFloating e.acceleratorRate = .ok x
  processorDouble : ∃ x, Value.toFloating e.processorDouble = .ok x
  processorSingle : ∃ x, Value.toFloating e.processorSingle = .ok x
  outer : ∃ x, Value.toFloating e.outer = .ok x
  inner : ∃ x, Value.toFloating e.inner = .ok x

theorem exists_toFloating_zero : ∃ x, toFloating (.int 0) = .ok x := exists_of_isOk (by decide +kernel)

theorem exists_makeDevice {i : DeviceInfo} {t : DeviceType}
    (htype : kindOr unknown all name i.type = .ok t)
    (hdouble : ∃ x, toFloating i.doubleRate = .ok x) (hsingle : ∃ x, toFloating i.singleRate = .ok x)
    (hmemory : ∃ x, toFloating i.memory = .ok x) : ∃ d, makeDevice 0 i = .ok d := by
  obtain ⟨x, hx⟩ := hdouble
  obtain ⟨y, hy⟩ := hsingle
  obtain ⟨z, hz⟩ := hmemory
  rw [makeDevice, htype, hx, hy, hz]
  exact ⟨_, rfl⟩

theorem exists_makeDevice_uniform (he : e.Readable) (k p : Nat) : ∃ d, makeDevice 0 (uniformDevice e D k p) = .ok d := by
  have hzero := exists_toFloating_zero
  have hkind := kind_uniformDevice e D k p
  simp only [uniformDevice] at hkind ⊢
  split_ifs at hkind ⊢
  · exact exists_makeDevice hkind he.acceleratorRate he.acceleratorRate he.acceleratorMemory
  · exact exists_makeDevice hkind he.processorDouble he.processorSingle he.processorMemory
  · exact exists_makeDevice hkind hzero hzero hzero

theorem readable_uniform (he : e.Readable) : Readable (uniformInfos e N D) := by
  have hlink {i : MachineInfo Value} (hi : i ∈ uniformInfos e N D) {l : LinkInfo Value} (hl : l ∈ i.links) :
      ∃ s t, s < N * (D + 2) ∧ t < N * (D + 2) ∧ l = uniformLink e D s t := by
    obtain ⟨k, -, rfl⟩ := mem_map.mp hi
    obtain ⟨p, hp, rfl⟩ := mem_map.mp hl
    obtain ⟨hs, ht, -⟩ := mem_orderedPairs.mp (mem_of_mem_filter hp)
    exact ⟨p.1, p.2, hs, ht, rfl⟩
  have hend {n : Nat} (hn : n < N * (D + 2)) : toNumber n ∈ numbersIn (uniformInfos e N D) := by
    rw [numbersIn_uniform]
    exact mem_map_of_mem (mem_range.mpr hn)
  constructor
  · intro i hi d hd
    obtain ⟨k, hk, rfl⟩ := mem_map.mp hi
    obtain ⟨p, hp, rfl⟩ := mem_map.mp hd
    exact exists_makeDevice_uniform he k p
  all_goals
    intro i hi l hl
    obtain ⟨s, t, hs, ht, rfl⟩ := hlink hi hl
  · rw [uniformLink]
    split <;> exact ⟨_, rfl⟩
  · rw [uniformLink]
    split
    · exact he.inner
    · exact he.outer
  · exact exists_toFloating_zero
  · exact hend hs
  · exact hend ht

theorem exists_build_uniform (he : e.Readable) (N D : Nat) : ∃ c, build (uniformInfos e N D) = .ok c :=
  exists_build_eq_ok (distinct_of_numbersIn (numbersIn_uniform e N D)) (readable_uniform he)

def setting (given : Fields) (k : String) : Value := (given.lookup k).getD ((settings.get? k).getD .null)

theorem ofSettings_eq_ok (hN : countOf (setting given "node_count") = .ok N)
    (hpos : N ≠ 0) (hD : countOf (setting given "device_count") = .ok D) (h : ofSettings given = .ok c) :
    ∃ e c', uniform e N D = .ok c' ∧ c = { c' with perMachine := setting given "device_count" } := by
  have hyields : Yields (fun c => ∃ e c', uniform e N D = .ok c' ∧
      c = { c' with perMachine := setting given "device_count" }) (ofSettings given) := by
    rw [ofSettings]
    refine guarded (guarded ?_)
    refine chain (fun n hn => Except.ok.inj (hn.symm.trans hN)) ?_
    rintro _ rfl
    dsimp only
    rw [if_neg hpos]
    refine chain (fun n hn => Except.ok.inj (hn.symm.trans hD)) ?_
    rintro _ rfl
    refine guarded (bind fun processor => ?_)
    refine chain (fun c' hc' => hc') fun c' hc' => ?_
    exact yields_ok ⟨_, c', hc', rfl⟩
  exact hyields c h

def figures : List String :=
  ["gpu_memory", "cpu_memory", "inter_bandwidth", "intra_bandwidth", "gpu_dp_gflops", "cpu_dp_gflops", "cpu_sp_gflops"]

/-- **Settings that can be used**: they are for the one model of accelerator that has a full description, with a known
processor, and what has to be a number is one. -/
structure Usable (given : Fields) : Prop where
  known : ∀ p ∈ given, settings.has p.1
  model : setting given "gpu_model" = .str "V100"
  processor : ∃ name, processorName (setting given "cpu_model") = .ok name
  figure : ∀ k ∈ figures, ∃ x, Value.toFloating (setting given k) = .ok x

def equipmentOf (given : Fields) (processor : String) : Equipment where
  processor
  acceleratorModel := .str s!"Tesla V100-SXM2-{(setting given ofSettings.memoryKey).plain}GB"
  acceleratorMemory := setting given ofSettings.memoryKey
  processorMemory := setting given "cpu_memory"
  outer := setting given "inter_bandwidth"
  inner := setting given "intra_bandwidth"
  acceleratorRate := setting given "gpu_dp_gflops"
  processorDouble := setting given "cpu_dp_gflops"
  processorSingle := setting given "cpu_sp_gflops"

theorem Usable.readable (h : Usable given) (processor : String) : (equipmentOf given processor).Readable := by
  constructor <;> exact h.figure _ (by decide)

theorem Usable.exists_uniform (h : Usable given) (hnodes : countOf (setting given "node_count") = .ok N) (hN : N ≠ 0)
    (hdevices : countOf (setting given "device_count") = .ok D) (hD : D ≠ 0) :
    ∃ e c, e.Readable ∧ build (uniformInfos e N D) = .ok c ∧
      ofSettings given = .ok { c with perMachine := setting given "device_count" } := by
  obtain ⟨processor, hprocessor⟩ := h.processor
  obtain ⟨c, hc⟩ := exists_build_uniform (h.readable processor) N D
  refine ⟨equipmentOf given processor, c, h.readable processor, hc, ?_⟩
  have hknown : ¬ (!given.all fun p => settings.has p.1) := by simpa using h.known
  have hmodel : ¬ (!models.any fun m => same (.str m) (setting given "gpu_model")) := by
    rw [h.model]
    decide
  have hfull : ¬ (decide (D ≠ 0) && !same (.str "V100") (setting given "gpu_model")) := by
    rw [h.model, show same (.str "V100") (.str "V100") = true by decide]
    simp
  rw [ofSettings, if_neg hknown]
  refine (if_neg hmodel).trans ?_
  show (countOf (setting given "node_count") >>= _) = _
  rw [hnodes]
  refine (if_neg hN).trans ?_
  show (countOf (setting given "device_count") >>= _) = _
  rw [hdevices]
  refine (if_neg hfull).trans ?_
  show (processorName (setting given "cpu_model") >>= _) = _
  rw [hprocessor]
  show (uniform (equipmentOf given processor) N D >>= fun c =>
    pure { c with perMachine := setting given "device_count" }) = _
  rw [uniform_eq_build _ (pos_of_ne_zero hN) (pos_of_ne_zero hD), hc]
  rfl

def counts (N D : Nat) : Fields := [("node_count", .int N), ("device_count", .int D)]

theorem usable_counts (N D : Nat) : Usable (counts N D) where
  known := by
    have hall : (["node_count", "device_count"].all fun k => settings.has k) := by decide
    simpa [counts] using hall
  model := rfl
  processor := ⟨_, rfl⟩
  figure := by
    have husual : ∀ k ∈ figures, (toFloating (setting [] k)).isOk := by decide +kernel
    have hsame : ∀ k ∈ figures, setting (counts N D) k = setting [] k := by
      simp only [figures, forall_mem_cons]
      exact ⟨rfl, rfl, rfl, rfl, rfl, rfl, rfl, fun _ hk => absurd hk not_mem_nil⟩
    intro k hk
    rw [hsame k hk]
    exact exists_of_isOk (husual k hk)

theorem exists_ofSettings_counts (hN : N ≠ 0) (hD : D ≠ 0) : ∃ c, ofSettings (counts N D) = .ok c := by
  obtain ⟨e, c, -, -, hsettings⟩ := (usable_counts N D).exists_uniform rfl hN rfl hD
  exact ⟨_, hsettings⟩

/-! ## 5. Groups -/

theorem IsUniform.withPerMachine (h : c.IsUniform N D) (v : Value) : { c with perMachine := v }.IsUniform N D := by
  obtain ⟨dss, hdss⟩ := h.counted
  exact ⟨⟨h.arranged.id_eq, h.arranged.own⟩, ⟨dss, hdss.values, hdss.deviceOf, hdss.rankOf, hdss.runs⟩, h.length,
    h.numbers, h.number, h.types⟩

/-- The machines that are counted for a group, and whether there are several of them, are those of the ranks. -/
def CountsHosts (c : Cluster Value) (D : Nat) (group : List Nat) : Prop :=
  c.machineCount (group.map toNumber) = .ok (hosts D group).card ∧
    c.crosses (group.map toNumber) = .ok (decide ((hosts D group).card ≠ 1))

namespace IsUniform

variable (h : c.IsUniform N D)

include h

section

variable (hlt : ∀ r ∈ group, r < N * D)

include hlt

theorem standsBy_ranks : c.StandsBy (D + 2) group := by
  refine h.standsBy fun r hr => (hlt r hr).trans_le ?_
  exact mul_le_mul_left N (by omega)

/-- What is counted is right if and only if dividing by the wrong width gives as many machines. -/
theorem countsHosts_iff (hne : group ≠ []) :
    c.CountsHosts D group ↔ (hosts (D + 2) group).card = (hosts D group).card := by
  rw [CountsHosts, machineCount_eq (h.standsBy_ranks hlt) hne, crosses_eq (h.standsBy_ranks hlt)]
  constructor
  · rintro ⟨hcount, -⟩
    exact Except.ok.inj hcount
  · intro hcard
    rw [hcard]
    exact ⟨rfl, rfl⟩

/-- A sum goes over a ring if its ranks, taken for devices, stand on one machine. -/
theorem allReduce_time {s : Collective.Setting}
    (hcluster : s.cluster = c) (hgroup : s.group = group.map toNumber) :
    Collective.allReduce.time s = if (hosts (D + 2) group).card = 1 then s.ring 2 else s.tree := by
  rw [Collective.time, hcluster, hgroup, crosses_eq (h.standsBy_ranks hlt)]
  by_cases hone : (hosts (D + 2) group).card = 1
  · simp only [hone, ne_eq, not_true_eq_false, decide_false, if_true]
    rfl
  · simp only [hone, ne_eq, not_false_eq_true, decide_true, if_false]
    rfl

theorem exists_devices_countHosts (hD : D ≠ 0) (hne : group ≠ []) :
    ∃ ns, c.devicesAt (group.map toNumber) = .ok ns ∧ c.machineCount ns = .ok (hosts D group).card ∧
      c.crosses ns = .ok (decide ((hosts D group).card ≠ 1)) := by
  obtain ⟨ns, hns, hlt', hhosts, hlen⟩ := h.exists_devicesAt (pos_of_ne_zero hD) hlt
  have hne' : ns ≠ [] := by
    rintro rfl
    exact hne (length_eq_zero_iff.mp hlen.symm)
  refine ⟨_, hns, ?_, ?_⟩
  · rw [machineCount_eq (h.standsBy hlt') hne', hhosts]
  · rw [crosses_eq (h.standsBy hlt'), hhosts]

end

/-- Only on one machine are all groups counted right: with two, the first ranks of both are taken for devices of the
first. -/
theorem forall_countsHosts_iff (hN : N ≠ 0) (hD : D ≠ 0) :
    (∀ group, group ≠ [] → (∀ r ∈ group, r < N * D) → c.CountsHosts D group) ↔ N = 1 := by
  constructor
  · intro hall
    by_contra hne
    -- the group of the first rank on each of two machines
    have hlt : ∀ r ∈ [0, D], r < N * D := by
      have hpos := Nat.pos_of_ne_zero hD
      have htwo : 2 * D ≤ N * D := Nat.mul_le_mul_right D (by omega)
      simp only [mem_cons, not_mem_nil, or_false, forall_eq_or_imp, forall_eq]
      omega
    have hcard := (h.countsHosts_iff hlt (by simp)).mp (hall [0, D] (by simp) hlt)
    have hsame : D / (D + 2) = 0 := Nat.div_eq_of_lt (by omega)
    have hother : D / D = 1 := Nat.div_self (Nat.pos_of_ne_zero hD)
    simp [hosts, hsame, hother] at hcard
  · rintro rfl group hne hlt
    -- all ranks are below either width
    have hsame : group.map (· / (D + 2)) = group.map (· / D) := by
      refine map_congr_left fun r hr => ?_
      have hr := hlt r hr
      rw [Nat.div_eq_of_lt (by omega), Nat.div_eq_of_lt (by omega)]
    rw [h.countsHosts_iff hlt hne, hosts, hosts, hsame]

end IsUniform

end Uniform

/-- **The machines of a group.**  A cluster of some machines with some accelerators each can be made.  In every such
cluster the machines that are counted for a group of ranks, and by which a sum chooses between ring and tree, are those
of the devices that have the ranks as numbers; the devices of the ranks would give the machines that host the group.
The two agree for all groups if and only if there is one machine. -/
theorem group_machines_iff {N D : Nat} (hN : N ≠ 0) (hD : D ≠ 0) : (∃ c, ofSettings (counts N D) = .ok c) ∧
      ∀ (given : List (String × Value)) (c : Cluster Value), countOf (setting given "node_count") = .ok N →
        countOf (setting given "device_count") = .ok D → ofSettings given = .ok c →
        (∀ group : List Nat, group ≠ [] → (∀ r ∈ group, r < N * D) →
          c.machineCount (group.map toNumber) = .ok (hosts (D + 2) group).card ∧
          (∀ s : Collective.Setting, s.cluster = c → s.group = group.map toNumber →
            Collective.allReduce.time s = if (hosts (D + 2) group).card = 1 then s.ring 2 else s.tree) ∧
          (∃ ns, c.devicesAt (group.map toNumber) = .ok ns ∧ c.machineCount ns = .ok (hosts D group).card ∧
            c.crosses ns = .ok (decide ((hosts D group).card ≠ 1))) ∧
          (c.CountsHosts D group ↔ (hosts (D + 2) group).card = (hosts D group).card)) ∧
        ((∀ group : List Nat, group ≠ [] → (∀ r ∈ group, r < N * D) → c.CountsHosts D group) ↔ N = 1) := by
  refine ⟨exists_ofSettings_counts hN hD, fun given c hnodes hdevices hc => ?_⟩
  obtain ⟨e, c', hc', rfl⟩ := ofSettings_eq_ok hnodes hN hdevices hc
  rw [uniform_eq_build _ (pos_of_ne_zero hN) (pos_of_ne_zero hD)] at hc'
  have h := (isUniform_of_build hc').withPerMachine (setting given "device_count")
  refine ⟨fun group hne hlt => ⟨machineCount_eq (h.standsBy_ranks hlt) hne, fun s => h.allReduce_time hlt,
    h.exists_devices_countHosts hlt hD hne, h.countsHosts_iff hlt hne⟩, h.forall_countsHosts_iff hN hD⟩

/-- On two machines with an accelerator each, ranks 0 and 1 are taken for the accelerator and the processor of the
first. -/
theorem group_machines_iff_two_machines :
    ∃ c, ofSettings (counts 2 1) = .ok c ∧ c.machineCount [some 0, some 1] = .ok 1 ∧ (hosts 1 [0, 1]).card = 2 ∧
      ¬ c.CountsHosts 1 [0, 1] := by
  obtain ⟨⟨c, hc⟩, hall⟩ := group_machines_iff (N := 2) (D := 1) (by decide) (by decide)
  obtain ⟨hgroup, -⟩ := hall (counts 2 1) c rfl rfl hc
  obtain ⟨hcount, -, -, hiff⟩ := hgroup [0, 1] (by decide) (by decide)
  refine ⟨c, hc, hcount, by decide, ?_⟩
  rw [hiff]
  decide

end Cluster

end TensorKit.Distributed
