import Mathlib.Data.List.Perm.Subperm
import TensorKit.Distributed.Placement
import TensorKit.Proofs.Distributed.ClusterBuilding
/-!
# Every process has an accelerator of its own

Processes are placed by a loop over a queue, which may hold a rank many times and is filled again from the ranks that
are left.  Every rank that is placed takes a device, and between two of them the queue gets shorter: `drain` is defined
by recursion on the devices that are left and the length of the queue.

Its invariant is `Placed`: every rank that is placed is one of the graph and is placed once, and the devices taken, with
those that are left, are the devices there were.  One step keeps it (`Placed.set`), hence a whole queue (`ends_drain`)
and all queues (`ends_foldlM_drain`): either all ranks are placed, or there are more ranks than devices.  The ranks are
then put under the machines of their devices (`entries_assign`, `entries_shares`, `ofPrograms_places`).
-/

namespace TensorKit.Distributed

open List Table ProcessGraph

open Requirement (Error)

variable {nodes rs ns ranks visible : List Int} {r s rank : Int} {g : ProcessGraph} {ps : Table Int Program}
  {n : Number} {k : Nat}

/-! ## 1. Graphs of programs -/

namespace ProcessGraph

theorem mem_foldl_addNode : s ∈ rs.foldl addNode nodes ↔ s ∈ nodes ∨ s ∈ rs := mem_foldl_distinct rs

theorem mem_addNode : s ∈ addNode nodes r ↔ s ∈ nodes ∨ s = r := by
  rw [← mem_singleton]
  exact mem_foldl_distinct [r]

theorem nodup_foldl_addNode (h : nodes.Nodup) : (rs.foldl addNode nodes).Nodup := nodup_foldl_distinct rs h

/-- A graph whose ranks come once each, all have programs, and move data to ranks of the graph. -/
structure Closed (g : ProcessGraph) : Prop where
  nodup : g.nodes.Nodup
  programs : ∀ r ∈ g.nodes, r ∈ g.programs
  targets : ∀ r, ∀ s ∈ (g.volumes r).keys, s ∈ g.nodes

/-- **Step lemma of the graph of a program.**  Adding a process keeps ranks distinct and targets among them. -/
theorem targets_add {volumes : Table Int Int}
    (hg : g.nodes.Nodup ∧ ∀ r, ∀ s ∈ (g.volumes r).keys, s ∈ g.nodes) : (g.add rank volumes).nodes.Nodup ∧
      ∀ r, ∀ s ∈ ((g.add rank volumes).volumes r).keys, s ∈ (g.add rank volumes).nodes := by
  refine ⟨nodup_foldl_distinct (rank :: volumes.keys) hg.1, ?_⟩
  intro r s hs
  rw [ProcessGraph.volumes, add, get?_set] at hs
  refine mem_foldl_addNode.mpr ?_
  split at hs
  · exact .inr hs
  · exact .inl (mem_addNode.mpr (.inl (hg.2 r s hs)))

theorem mem_programs_of_foldlM {g' : ProcessGraph}
    (h : ps.foldlM (fun g p => do return g.add p.1 (← Requirement.ofProgram p.2 p.1)) g = .ok g') :
    r ∈ g'.programs ↔ r ∈ g.programs ∨ r ∈ ps.keys := by
  induction ps generalizing g with
  | nil =>
    cases h
    simp [Table.keys]
  | cons p ps ih =>
    rw [foldlM_cons] at h
    obtain ⟨g₁, hg₁, h⟩ := of_bind_eq_ok h
    obtain ⟨volumes, -, hg₁⟩ := of_bind_eq_ok hg₁
    cases hg₁
    rw [ih h, add, mem_addNode, or_assoc, Table.keys, Table.keys, map_cons, mem_cons]

theorem closed_of_ofPrograms (h : ofPrograms ps = .ok g)
    (hranks : ∀ r ∈ g.nodes, r ∈ ps.keys) : g.Closed := by
  have hkeep : g.nodes.Nodup ∧ ∀ r, ∀ s ∈ (g.volumes r).keys, s ∈ g.nodes := by
    refine of_foldlM_eq_ok _ (P := fun g => g.nodes.Nodup ∧ ∀ r, ∀ s ∈ (g.volumes r).keys, s ∈ g.nodes) ?_ h ?_
    · intro g₁ p g₂ hg₁ hstep
      obtain ⟨volumes, -, hstep⟩ := of_bind_eq_ok hstep
      cases hstep
      exact targets_add hg₁
    · exact ⟨nodup_nil, nofun⟩
  exact ⟨hkeep.1, fun r hr => (mem_programs_of_foldlM h).mpr (.inr (hranks r hr)), hkeep.2⟩

end ProcessGraph

/-! ## 2. The devices that can be taken -/

variable {d : Device}

namespace Cluster

variable {ν : Type}

def deviceNumbers (c : Cluster ν) : List Number := c.devices.map Device.number

/-- A cluster in which every device has a number, no two the same, and links join its devices. -/
structure Proper (c : Cluster ν) : Prop where
  arranged : c.Arranged
  nodup : c.deviceNumbers.Nodup
  numbered : none ∉ c.deviceNumbers
  linked : ∀ m ∈ c.machines, ∀ l ∈ m.links.keys, l.1 ∈ c.deviceNumbers ∧ l.2 ∈ c.deviceNumbers

/-- The accelerators that processes can take: those of the kind they need that are not left to others. -/
def available (c : Cluster ν) (visible : List Int) : List Device :=
  c.devices.filter fun d => d.type = .gpu && !isOccupied visible d

theorem exists_addNamed {m : Machine ν} (hm : none ∉ named m) (hns : ns.Nodup) :
    ∃ ns', addNamed ns m = .ok ns' ∧ ns'.Nodup ∧ ∀ n, n ∈ ns' ↔ n ∈ ns ∨ some n ∈ named m := by
  have hsome : ∀ n ∈ named m, n = some (n.getD 0) := by
    intro n hn
    cases n with
    | none => exact absurd hn hm
    | some n => rfl
  have hread : (named m).mapM id = some ((named m).map (·.getD 0)) := mapM_eq_some hsome
  refine ⟨((named m).map (·.getD 0)).foldl addNode ns, ?_, nodup_foldl_addNode hns, ?_⟩
  · rw [addNamed, hread]
  · intro n
    rw [mem_foldl_addNode, mem_map]
    refine or_congr_right ⟨?_, fun hn => ⟨some n, hn, rfl⟩⟩
    rintro ⟨k, hk, rfl⟩
    rwa [← hsome k hk]

theorem exists_foldlM_addNamed {ms : List (Machine ν)} (hms : ∀ m ∈ ms, none ∉ named m)
    (hns : ns.Nodup) :
    ∃ ns', ms.foldlM addNamed ns = .ok ns' ∧ ns'.Nodup ∧ ∀ n, n ∈ ns' ↔ n ∈ ns ∨ ∃ m ∈ ms, some n ∈ named m := by
  induction ms generalizing ns with
  | nil => exact ⟨ns, rfl, hns, by simp⟩
  | cons m ms ih =>
    rw [forall_mem_cons] at hms
    obtain ⟨ns₁, hadd, hns₁, hmem₁⟩ := exists_addNamed hms.1 hns
    obtain ⟨ns₂, hrest, hns₂, hmem₂⟩ := ih hms.2 hns₁
    refine ⟨ns₂, ?_, hns₂, ?_⟩
    · rwa [foldlM_cons, hadd]
    · intro n
      rw [hmem₂, hmem₁, or_assoc, exists_mem_cons_iff]

namespace Proper

variable {c : Cluster ν}

theorem keys_devices (h : c.Proper) {m : Machine ν} (hm : m ∈ c.machines) :
    m.devices.keys = m.devices.values.map Device.number := by
  rw [Table.keys, values, map_map]
  exact map_congr_left fun p hp => (h.arranged.own m hm p hp).1.symm

theorem exists_named_iff (h : c.Proper) : (∃ m ∈ c.machines, n ∈ named m) ↔ n ∈ c.deviceNumbers := by
  constructor
  · rintro ⟨m, hm, hn⟩
    rcases mem_append.mp hn with hn | hn
    · rw [h.keys_devices hm] at hn
      obtain ⟨d, hd, rfl⟩ := mem_map.mp hn
      exact mem_map_of_mem (mem_flatMap.mpr ⟨m, hm, hd⟩)
    · obtain ⟨l, hl, rfl⟩ := mem_map.mp hn
      exact (h.linked m hm l hl).2
  · intro hn
    obtain ⟨d, hd, rfl⟩ := mem_map.mp hn
    obtain ⟨m, hm, hd⟩ := mem_flatMap.mp hd
    refine ⟨m, hm, mem_append_left _ ?_⟩
    rw [h.keys_devices hm]
    exact mem_map_of_mem hd

theorem exists_numbers (h : c.Proper) :
    ∃ ns, c.numbers = .ok ns ∧ ns.Nodup ∧ ∀ n, n ∈ ns ↔ some n ∈ c.deviceNumbers := by
  obtain ⟨ns, hns, hnd, hmem⟩ := exists_foldlM_addNamed
    (fun m hm hnone => h.numbered (h.exists_named_iff.mp ⟨m, hm, hnone⟩)) nodup_nil
  refine ⟨ns, hns, hnd, fun n => ?_⟩
  rw [hmem, h.exists_named_iff]
  simp

theorem exists_free [Arithmetic ν] (h : c.Proper) (visible : List Int) :
    ∃ ds, c.free visible = .ok ds ∧ ds.Perm (c.available visible) := by
  obtain ⟨ns, hns, hnd, hmem⟩ := h.exists_numbers
  have hfind {n : Int} {d : Device} : c.device? (some n) = some d ↔ d ∈ c.devices ∧ d.number = some n :=
    h.arranged.device?_eq_some_iff h.nodup
  refine ⟨(ns.filterMap fun n => c.device? (some n)).filter fun d => d.type = .gpu && !isOccupied visible d, ?_, ?_⟩
  · rw [free, hns]
    rfl
  · refine Perm.filter _ ((perm_ext_iff_of_nodup (hnd.filterMap ?_) (.of_map _ h.nodup)).mpr ?_)
    · intro n k d hn hk
      have hnumber := (hfind.mp hn).2
      rw [(hfind.mp hk).2] at hnumber
      exact (Option.some.inj hnumber).symm
    · intro d
      rw [mem_filterMap]
      constructor
      · rintro ⟨n, -, hn⟩
        exact (hfind.mp hn).1
      · intro hd
        have hnumber : d.number ∈ c.deviceNumbers := mem_map_of_mem hd
        obtain ⟨n, hn⟩ := Option.ne_none_iff_exists'.mp fun hnone => h.numbered (hnone ▸ hnumber)
        exact ⟨n, (hmem n).mpr (hn ▸ hnumber), hfind.mpr ⟨hd, hn⟩⟩

end Proper

theorem devices_bare (c : Cluster ν) : c.bare.devices = c.devices := by
  rw [devices, bare, flatMap_map]
  rfl

theorem mem_links_putLink {c : Cluster ν} {l : Link ν} {m : Machine ν} (hm : m ∈ (c.putLink k l).machines)
    {p : Number × Number} (hp : p ∈ m.links.keys) : p = (l.source, l.target) ∨ ∃ m ∈ c.machines, p ∈ m.links.keys := by
  obtain ⟨m₀, hm₀, rfl⟩ := mem_map.mp hm
  split at hp
  · obtain ⟨q, hq, rfl⟩ := mem_map.mp hp
    rcases mem_of_mem_set hq with rfl | hq
    · exact .inl rfl
    · exact .inr ⟨m₀, hm₀, mem_map_of_mem hq⟩
  · exact .inr ⟨m₀, hm₀, hp⟩

theorem device?_of_device {c : Cluster ν} (h : c.device n = .ok d) : c.device? n = some d :=
  demand_eq_ok_iff.mp h

theorem Proper.addLink [Arithmetic ν] {c c' : Cluster ν} (hc : c.Proper) {l : LinkInfo ν} (h : c.addLink l = .ok c') :
    c'.Proper := by
  have hbare := addLink_bare h
  have hdevices : c'.devices = c.devices := by rw [← devices_bare, hbare, devices_bare]
  have hnumbers : c'.deviceNumbers = c.deviceNumbers := congrArg (map Device.number) hdevices
  simp only [Cluster.addLink, bind_eq_ok_iff] at h
  obtain ⟨_, -, _, -, _, -, s, hs, e, he, h⟩ := h
  have hfind {n : Number} {d : Device} (hd : c.device n = .ok d) : n ∈ c.deviceNumbers := by
    obtain ⟨hmem, rfl⟩ := (hc.arranged.device?_eq_some_iff hc.nodup).mp (device?_of_device hd)
    exact mem_map_of_mem hmem
  refine ⟨?_, hnumbers ▸ hc.nodup, hnumbers ▸ hc.numbered, ?_⟩
  · exact arranged_of_bare (hbare ▸ hc.arranged.bare)
  · cases h
    intro m hm p hp
    rw [hnumbers]
    rcases mem_links_putLink hm hp with rfl | ⟨m₀, hm₀, hp⟩
    · exact ⟨hfind hs, hfind he⟩
    · exact hc.linked m₀ hm₀ p hp

/-- A cluster that is built from devices with distinct numbers is proper, as its links were added between them. -/
theorem proper_of_build [Arithmetic ν] {is : List (MachineInfo ν)} {c : Cluster ν} (hd : Distinct is)
    (h : build is = .ok c) : c.Proper := by
  obtain ⟨b, hb, h⟩ := of_bind_eq_ok h
  obtain ⟨dss, hread⟩ := described_of_foldlM_eq_ok hb
  obtain rfl : b = madeOf is dss := Except.ok.inj (hb.symm.trans (foldlM_addDescribed_start hd hread))
  refine of_foldlM_eq_ok Cluster.addLink (fun hc hstep => hc.addLink hstep) h ?_
  have hnumbers : (madeOf is dss).deviceNumbers = numbersIn is := by
    rw [deviceNumbers, devices_of_bare hread (madeOf_bare is dss)]
    exact hread.map_number
  refine ⟨arranged_madeOf hread, hnumbers ▸ hd.1, hnumbers ▸ hd.2, ?_⟩
  intro m hm l hl
  rw [← madeOf_bare] at hm
  obtain ⟨m₀, -, rfl⟩ := mem_map.mp hm
  cases hl

end Cluster

/-! ## 3. The loop -/

namespace Placement

variable {all free : List Device} {placed : Table Int Device}

/-- What holds all along: the ranks that are placed are ranks of the graph, each placed once, and the devices taken are
followed by those that are left. -/
structure Placed (g : ProcessGraph) (all free : List Device) (placed : Table Int Device) : Prop where
  nodup : placed.keys.Nodup
  nodes : placed.keys ⊆ g.nodes
  devices : placed.values ++ free = all

/-- **Step lemma of placing.**  A rank takes the first device that is left. -/
theorem Placed.set (h : Placed g all (d :: free) placed) (hr : r ∉ placed.keys) (hnode : r ∈ g.nodes) :
    Placed g all free (placed.set r d) := by
  refine ⟨nodup_keys_set h.nodup r d, ?_, ?_⟩
  · rw [keys_set, if_neg hr]
    exact append_subset.mpr ⟨h.nodes, by simpa using hnode⟩
  · rw [set_of_notMem_keys hr, ← h.devices]
    simp [values]

/-- When no device is left for a rank, there are more ranks than devices. -/
theorem Placed.lt_of_new (h : Placed g all [] placed) (hr : r ∉ placed.keys) (hnode : r ∈ g.nodes) :
    all.length < g.nodes.length := by
  have hsub : (r :: placed.keys).Subperm g.nodes := (h.nodup.cons hr).subperm (cons_subset.mpr ⟨hnode, h.nodes⟩)
  have hlen := hsub.length_le
  rw [← h.devices]
  simpa [Table.keys, values, Nat.succ_le_iff] using hlen

/-- The ways a loop over some ranks can end: all of them are placed, and those that were; or there are too few devices. -/
def Ends (g : ProcessGraph) (all : List Device) (placed : Table Int Device) (ranks : List Int)
    (result : Except Error (List Device × Table Int Device)) : Prop :=
  (∃ free' placed', result = .ok (free', placed') ∧ Placed g all free' placed' ∧ placed.keys ⊆ placed'.keys ∧
    ranks ⊆ placed'.keys) ∨ (result = .error .noDevice ∧ all.length < g.nodes.length)

theorem Ends.imp {result : Except Error (List Device × Table Int Device)} {t : Table Int Device}
    (h : Ends g all t rs result) (himp : ∀ ks, t.keys ⊆ ks → rs ⊆ ks → placed.keys ⊆ ks ∧ ranks ⊆ ks) :
    Ends g all placed ranks result :=
  Or.imp_left (fun ⟨free', t', heq, h', hkeep, hdone⟩ => ⟨free', t', heq, h', himp _ hkeep hdone⟩) h

/-- **Run lemma of a queue.** -/
theorem ends_drain (hg : g.Closed) {queue : List Int} (hqueue : queue ⊆ g.nodes) (h : Placed g all free placed) :
    Ends g all placed queue (drain g free queue placed) := by
  -- the cases are the branches of the loop; the invariant holds at the start of each round
  fun_induction drain g free queue placed with
  | case1 free placed => exact .inl ⟨free, placed, rfl, h, Subset.refl _, nil_subset _⟩
  | case2 free placed r queue hr ih =>
    rw [has_iff_mem_keys] at hr
    exact (ih (cons_subset.mp hqueue).2 h).imp fun _ hkeep hdone => ⟨hkeep, cons_subset.mpr ⟨hkeep hr, hdone⟩⟩
  | case3 free placed r queue hr hprogram =>
    have hmem : r ∈ g.programs := hg.programs r (hqueue mem_cons_self)
    simp [hmem] at hprogram
  | case4 placed r queue hr _ =>
    rw [has_iff_mem_keys] at hr
    exact .inr ⟨rfl, h.lt_of_new hr (hqueue mem_cons_self)⟩
  | case5 placed r queue hr _ d free ih =>
    rw [has_iff_mem_keys] at hr
    rw [cons_subset] at hqueue
    have hcalled : queue ++ (g.volumes r).keys ⊆ g.nodes := append_subset.mpr ⟨hqueue.2, hg.targets r⟩
    refine (ih hcalled (h.set hr hqueue.1)).imp fun ks hkeep hdone => ?_
    rw [keys_set, if_neg hr, append_subset] at hkeep
    exact ⟨hkeep.1, cons_subset.mpr ⟨hkeep.2 (mem_singleton_self r), (append_subset.mp hdone).1⟩⟩

/-- **Run lemma of all queues.**  The loop starts again at every rank, which may have been placed before. -/
theorem ends_foldlM_drain (hg : g.Closed) (hranks : ranks ⊆ g.nodes) (h : Placed g all free placed) :
    Ends g all placed ranks (ranks.foldlM (fun s r => drain g s.1 [r] s.2) (free, placed)) := by
  induction ranks generalizing free placed with
  | nil => exact .inl ⟨free, placed, rfl, h, Subset.refl _, nil_subset _⟩
  | cons r ranks ih =>
    rw [cons_subset] at hranks
    rw [foldlM_cons]
    have hone : [r] ⊆ g.nodes := cons_subset.mpr ⟨hranks.1, nil_subset _⟩
    rcases ends_drain hg hone h with ⟨free₁, placed₁, heq, h₁, hkeep, hr⟩ | hfail
    · rw [heq]
      exact (ih hranks.2 h₁).imp fun _ hkeep₁ hdone =>
        ⟨Subset.trans hkeep hkeep₁, cons_subset.mpr ⟨hkeep₁ (hr mem_cons_self), hdone⟩⟩
    · rw [hfail.1]
      exact .inr ⟨rfl, hfail.2⟩

theorem place_cases (hg : g.Closed) (all : List Device) :
    (∃ placed, place g all = .ok placed ∧ placed.keys.Perm g.nodes ∧ placed.values.Sublist all) ∨
      (place g all = .error .noDevice ∧ all.length < g.nodes.length) := by
  have hstart : Placed g all all [] := ⟨nodup_nil, nil_subset _, rfl⟩
  rcases ends_foldlM_drain hg (reverse_subset.mpr (Subset.refl _)) hstart with
    ⟨free', placed', heq, h', -, hdone⟩ | ⟨heq, hlen⟩
  · refine .inl ⟨placed', by rw [place, heq]; rfl, ?_, ?_⟩
    · refine (perm_ext_iff_of_nodup h'.nodup hg.nodup).mpr fun r => ⟨fun hr => h'.nodes hr, fun hr => ?_⟩
      exact hdone (mem_reverse.mpr hr)
    · rw [← h'.devices]
      exact sublist_append_left _ _
  · exact .inr ⟨by rw [place, heq]; rfl, hlen⟩

/-! ## 4. The machines and their ranks -/

def entries (t : Table Nat Share) : List (Nat × Int × List Value) :=
  t.flatMap fun p => p.2.ranks.map fun q => (p.1, q.1, q.2)

/-- A table in which every machine comes once and is described as in the cluster. -/
structure Describes {ν : Type} (c : Cluster ν) (t : Table Nat Share) : Prop where
  nodup : t.keys.Nodup
  machine : ∀ p ∈ t, ∃ m, c.machines[p.1]? = some m ∧ p.2.host = m.host ∧ p.2.address = m.address ∧ p.2.port = m.port

variable {ν : Type} {c : Cluster ν} {t : Table Nat Share}

theorem notMem_keys_of_entries {s : Share} (hs : (k, s) ∈ t) (hrank : rank ∉ (entries t).map fun e => e.2.1) :
    rank ∉ s.ranks.keys := by
  intro hmem
  obtain ⟨q, hq, rfl⟩ := mem_map.mp hmem
  refine hrank (mem_map.mpr ⟨(k, q.1, q.2), mem_flatMap.mpr ⟨(k, s), hs, ?_⟩, rfl⟩)
  exact mem_map_of_mem hq

/-- **Step lemma of the table.**  A new rank is put under the machine of its device, and nothing else changes. -/
theorem entries_assign {m : Machine ν} (hm : c.machines[d.machine]? = some m)
    (hrank : rank ∉ (entries t).map fun e => e.2.1) :
    (entries (assign c t rank d)).Perm ((d.machine, rank, [d.localId]) :: entries t) := by
  rw [assign, hm]
  cases hget : t.get? d.machine with
  | none =>
    have hnew : d.machine ∉ t.keys := by
      rw [← has_iff_mem_keys, has, hget]
      exact Bool.false_ne_true
    simp only
    rw [set_of_notMem_keys hnew, entries, flatMap_append]
    exact perm_append_comm
  | some s =>
    obtain ⟨t₁, t₂, ht, hset⟩ := exists_set_of_get? hget
    have hnew := notMem_keys_of_entries (mem_of_get?_eq_some hget) hrank
    simp only
    rw [hset, set_of_notMem_keys hnew, ht]
    simp only [entries, flatMap_append, flatMap_cons, map_append, map_cons, map_nil,
      append_assoc, singleton_append]
    exact (Perm.append_left _ perm_middle).trans perm_middle

theorem Describes.assign {m : Machine ν} (hm : c.machines[d.machine]? = some m) (h : Describes c t) :
    Describes c (assign c t rank d) := by
  rw [Placement.assign, hm]
  cases hget : t.get? d.machine <;> refine ⟨nodup_keys_set h.nodup _ _, fun p hp => ?_⟩ <;>
    rcases mem_of_mem_set hp with rfl | hp
  case none.inl => exact ⟨m, hm, rfl, rfl, rfl⟩
  case some.inl =>
    have hmachine := h.machine _ (mem_of_get?_eq_some hget)
    exact hmachine
  all_goals exact h.machine p hp

def entryOf (placed : Table Int Device) (r : Int) : Option (Nat × Int × List Value) :=
  (placed.get? r).map fun d => (d.machine, r, [d.localId])

/-- **Run lemma of the table.**  Ranks that were placed are put under the machines of their devices. -/
theorem entries_shares (hnd : ranks.Nodup)
    (hplaced : ∀ r ∈ ranks, ∃ d m, placed.get? r = some d ∧ c.machines[d.machine]? = some m)
    (hnew : ∀ r ∈ ranks, r ∉ (entries t).map fun e => e.2.1) (ht : Describes c t) :
    Describes c (ranks.foldl (fun t r => match placed.get? r with
      | some d => assign c t r d
      | none => t) t) ∧ (entries (ranks.foldl (fun t r => match placed.get? r with
      | some d => assign c t r d
      | none => t) t)).Perm (ranks.filterMap (entryOf placed) ++ entries t) := by
  induction ranks generalizing t with
  | nil => exact ⟨ht, .refl _⟩
  | cons r ranks ih =>
    rw [nodup_cons] at hnd
    rw [forall_mem_cons] at hplaced hnew
    obtain ⟨⟨d, m, hget, hm⟩, hplaced⟩ := hplaced
    have hstep := entries_assign hm hnew.1
    have hnext : ∀ s ∈ ranks, s ∉ (entries (assign c t r d)).map fun e => e.2.1 := by
      intro s hs hmem
      rw [(hstep.map _).mem_iff, map_cons, mem_cons] at hmem
      rcases hmem with rfl | hmem
      · exact hnd.1 hs
      · exact hnew.2 s hs hmem
    obtain ⟨hdescribes, hperm⟩ := ih hnd.2 hplaced hnext (ht.assign hm)
    have hentry : entryOf placed r = some (d.machine, r, [d.localId]) := by rw [entryOf, hget]; rfl
    simp only [foldl_cons, hget]
    refine ⟨hdescribes, ?_⟩
    rw [filterMap_cons_some hentry]
    exact hperm.trans ((Perm.append_left _ hstep).trans perm_middle)

theorem filterMap_entryOf (h : placed.keys.Nodup) :
    placed.keys.filterMap (entryOf placed) = placed.map fun p => (p.2.machine, p.1, [p.2.localId]) := by
  rw [Table.keys, filterMap_map, ← filterMap_eq_map]
  refine filterMap_congr fun p hp => ?_
  rw [Function.comp, entryOf, get?_of_mem h hp]
  rfl

/-! ## 5. Placing -/

/-- Ranks are placed on devices: each rank once, on an accelerator of its own that can be taken, and under the machine
that has the device. -/
structure Places (c : Cluster ν) (visible : List Int) (g : ProcessGraph) (placed : Table Int Device)
    (t : Table Nat Share) : Prop where
  ranks : placed.keys.Perm g.nodes
  once : placed.keys.Nodup
  apart : (placed.values.map Device.number).Nodup
  available : ∀ d ∈ placed.values, d ∈ c.available visible
  owner : ∀ d ∈ placed.values, ∃ m, c.machines[d.machine]? = some m ∧ (d.number, d) ∈ m.devices
  entries : (entries t).Perm (placed.map fun p => (p.2.machine, p.1, [p.2.localId]))
  describes : Describes c t

theorem exists_ofGraph [Arithmetic ν] (hc : c.Proper) (hg : g.Closed)
    (hlen : g.nodes.length ≤ (c.available visible).length) :
    ∃ placed t, ofGraph visible g c = .ok t ∧ Places c visible g placed t := by
  obtain ⟨ds, hfree, hds⟩ := hc.exists_free visible
  obtain ⟨placed, hplace, hranks, hsub⟩ := (place_cases hg ds).resolve_right (by rw [hds.length_eq]; omega)
  have hnd := hranks.nodup_iff.mpr hg.nodup
  have havailable : ∀ d ∈ placed.values, d ∈ c.available visible := fun d hd => hds.subset (hsub.subset hd)
  have hdevices : ∀ d ∈ placed.values, d ∈ c.devices := fun d hd => mem_of_mem_filter (havailable d hd)
  have howner : ∀ d ∈ placed.values, ∃ m, c.machines[d.machine]? = some m ∧ (d.number, d) ∈ m.devices :=
    fun d hd => hc.arranged.machine_of_mem_devices (hdevices d hd)
  have hapart : (placed.values.map Device.number).Nodup := by
    have hall : ((c.available visible).map Device.number).Nodup := hc.nodup.sublist (filter_sublist.map _)
    exact ((hds.map _).nodup_iff.mpr hall).sublist (hsub.map _)
  have hfound : ∀ r ∈ g.nodes, ∃ d m, placed.get? r = some d ∧ c.machines[d.machine]? = some m := by
    intro r hr
    obtain ⟨p, hp, rfl⟩ := mem_map.mp (hranks.mem_iff.mpr hr)
    obtain ⟨m, hm, -⟩ := howner p.2 (mem_map_of_mem hp)
    exact ⟨p.2, m, get?_of_mem hnd hp, hm⟩
  obtain ⟨hdescribes, hentries⟩ := entries_shares (t := []) hg.nodup hfound (by simp [Placement.entries])
    ⟨nodup_nil, nofun⟩
  refine ⟨placed, _, ?_, ⟨hranks, hnd, hapart, havailable, howner, ?_, hdescribes⟩⟩
  · rw [ofGraph, hfree]
    simp only [ok_bind]
    rw [hplace]
    rfl
  · rw [← filterMap_entryOf hnd]
    have hempty : Placement.entries [] = [] := rfl
    rw [hempty, append_nil] at hentries
    exact hentries.trans (hranks.symm.filterMap _)

theorem ofGraph_eq_noDevice [Arithmetic ν] (hc : c.Proper) (hg : g.Closed)
    (hlen : (c.available visible).length < g.nodes.length) : ofGraph visible g c = .error .noDevice := by
  obtain ⟨ds, hfree, hds⟩ := hc.exists_free visible
  rcases place_cases hg ds with ⟨placed, -, hranks, hsub⟩ | ⟨hplace, -⟩
  · -- all ranks would have devices of their own
    have hle := hsub.length_le
    rw [values, length_map, ← length_map Prod.fst, hds.length_eq] at hle
    exact absurd (hranks.length_eq ▸ hle) (Nat.not_le.mpr hlen)
  · rw [ofGraph, hfree]
    simp [hplace]

/-- **Every process has an accelerator of its own.**  The processes of a program are placed on a cluster, whichever
devices are visible, if they are at most as many as the accelerators that can be taken; if they are more, no device is
found for one of them. -/
theorem ofPrograms_places [Arithmetic ν] (hc : c.Proper) (visible : List Int) {ps : Table Int Program}
    (hps : ProcessGraph.ofPrograms ps = .ok g) (hranks : ∀ r ∈ g.nodes, r ∈ ps.keys) :
    (g.nodes.length ≤ (c.available visible).length →
      ∃ placed t, ofPrograms visible ps c = .ok t ∧ Places c visible g placed t) ∧
    ((c.available visible).length < g.nodes.length →
      ofPrograms visible ps c = .error .noDevice ∧ Error.noDevice.kind = .assertion ∧
        Error.noDevice.message = some "Cannot find a device to satisfy the requirement.") := by
  have hg : g.Closed := ProcessGraph.closed_of_ofPrograms hps hranks
  have heq : ofPrograms visible ps c = ofGraph visible g c := by rw [ofPrograms, hps]; rfl
  rw [heq]
  exact ⟨fun h => exists_ofGraph hc hg h, fun h => ⟨ofGraph_eq_noDevice hc hg h, rfl, rfl⟩⟩

/-- Two machines with a link between them: one with two accelerators and a processor, one with an accelerator. -/
def linkedPair : List (Cluster.MachineInfo Value) :=
  let device (n i : Int) (type : String) : Cluster.DeviceInfo := { number := some n, localId := .int i, type := .str type }
  let machine (host : String) (ds : List Cluster.DeviceInfo) (ls : List (Cluster.LinkInfo Value)) :
      Cluster.MachineInfo Value :=
    { host := .str host, address := .null, port := .null, devices := ds, links := ls }
  [machine "a" [device 0 0 "GPU", device 1 1 "GPU", device 2 0 "CPU"]
    [{ source := some 0, target := some 3, type := .str "NET", bandwidth := .int 1, latency := .int 1 }],
   machine "b" [device 3 0 "GPU"] []]

/-- Two processes that send to each other. -/
def exchange : Table Int Program :=
  let send (peer : Int) : Program :=
    { scopes := [{ vars := [("x", "float32", [4])]
                   operations := [⟨"send_v2", [("peer", .int peer)], ["x"], []⟩] }]
      groups := [] }
  [(0, send 1), (1, send 0)]

/-- Two processes find a device on each machine if the first devices are visible, and not both find one if only a
second device is. -/
theorem ofPrograms_places_exchange : ∃ c, Cluster.build linkedPair = .ok c ∧
      (∃ placed t, ofPrograms [0] exchange c = .ok t ∧ Places c [0] ⟨[0, 1], [0, 1], [(0, [(1, 16)]), (1, [(0, 16)])]⟩
        placed t) ∧ ofPrograms [1] exchange c = .error .noDevice := by
  have hview : (Cluster.build linkedPair).toOption.map (fun c => ((c.available [0]).length, (c.available [1]).length))
      = some (2, 1) := by decide +kernel
  obtain ⟨c, hc, hcount⟩ := exists_of_map_toOption hview
  obtain ⟨hboth, hone⟩ := Prod.mk.inj hcount
  have hproper : c.Proper := Cluster.proper_of_build ⟨by decide, by decide⟩ hc
  have hgraph : ProcessGraph.ofPrograms exchange = .ok ⟨[0, 1], [0, 1], [(0, [(1, 16)]), (1, [(0, 16)])]⟩ := by
    rfl
  refine ⟨c, hc, ?_, ?_⟩
  · exact (ofPrograms_places hproper [0] hgraph (by decide)).1 (by rw [hboth]; decide)
  · exact ((ofPrograms_places hproper [1] hgraph (by decide)).2 (by rw [hone]; decide)).1

end Placement

end TensorKit.Distributed
