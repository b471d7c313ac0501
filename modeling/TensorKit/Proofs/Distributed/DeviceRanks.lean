import Mathlib.Data.List.Induction
import Mathlib.Data.List.Perm.Subperm
import TensorKit.Proofs.Distributed.ClusterBuilding
/-!
# Ranks and accelerators

The rank of an accelerator is its number less the devices on earlier machines that are no accelerators.  So it is the
count of accelerators before it, and of the other devices that stand before it on its own machine
(`map_fst_rankPairsFrom`).  Ranks that fill a range from zero on are the counts of accelerators (`eq_range_of_perm`),
and this is so exactly if every machine lists its accelerators first (`ranksFrom_eq_range'_iff`).

Hence the tables of ranks and of devices are inverse to each other and cover all ranks below the number of accelerators
if and only if on no machine an accelerator comes after a device of another kind (`ranks_correspond_iff`).
-/

namespace TensorKit.Distributed

open List Device Table

variable {ds : List Device} {dss : List (List Device)}
variable {p i s before k n : Nat}

/-! ## 1. Places of accelerators -/

def placesFrom (p : Nat) : List Device → List Nat
  | [] => []
  | d :: ds => if d.computes then p :: placesFrom (p + 1) ds else placesFrom (p + 1) ds

/-- No device that computes stands after one that does not. -/
def ComputesFirst (ds : List Device) : Prop := ds.Pairwise fun d e => e.computes → d.computes

instance (ds : List Device) : Decidable (ComputesFirst ds) := inferInstanceAs (Decidable (ds.Pairwise _))

theorem length_placesFrom (p : Nat) (ds : List Device) : (placesFrom p ds).length = ds.countP computes := by
  induction ds generalizing p with
  | nil => rfl
  | cons d ds ih =>
    rw [placesFrom, countP_cons]
    split <;> simp [ih]

theorem le_getElem_placesFrom (h : i < (placesFrom p ds).length) : p + i ≤ (placesFrom p ds)[i] := by
  induction ds generalizing p i with
  | nil => simp [placesFrom] at h
  | cons d ds ih =>
    cases hd : d.computes with
    | false =>
      simp only [placesFrom, hd, Bool.false_eq_true, if_false] at h ⊢
      have hle := ih h
      omega
    | true =>
      simp only [placesFrom, hd, if_true] at h ⊢
      cases i with
      | zero => simp
      | succ i =>
        have hle := ih (by simpa using h)
        rw [getElem_cons_succ]
        omega

theorem placesFrom_eq_nil (h : ds.countP computes = 0) : placesFrom p ds = [] :=
  eq_nil_iff_length_eq_zero.mpr ((length_placesFrom p ds).trans h)

/-- The places have no gaps if and only if the devices that compute stand first. -/
theorem placesFrom_eq_range'_iff (p : Nat) (ds : List Device) :
    placesFrom p ds = range' p (ds.countP computes) ↔ ComputesFirst ds := by
  induction ds generalizing p with
  | nil => simp [placesFrom, ComputesFirst]
  | cons d ds ih =>
    rw [ComputesFirst, pairwise_cons, ← ComputesFirst]
    cases hd : d.computes with
    | true =>
      rw [placesFrom, hd, if_pos rfl, countP_cons_of_pos hd, range'_succ, cons_inj_right, ih]
      simp
    | false =>
      rw [placesFrom, hd, if_neg Bool.false_ne_true, countP_cons_of_neg (by simp [hd])]
      constructor
      · intro h
        -- the first place would be the start, but counting has gone on
        have hzero : ds.countP computes = 0 := by
          by_contra hne
          have hlt : 0 < (placesFrom (p + 1) ds).length := by
            rw [length_placesFrom]
            omega
          have hle := le_getElem_placesFrom hlt
          have hfirst : (placesFrom (p + 1) ds)[0] = p := by simp [h]
          omega
        have hnone := countP_eq_zero.mp hzero
        refine ⟨fun e he hc => absurd hc (hnone e he), (ih (p + 1)).mp ?_⟩
        rw [hzero, placesFrom_eq_nil hzero]
        rfl
      · rintro ⟨hnone, -⟩
        have hzero : ds.countP computes = 0 :=
          countP_eq_zero.mpr fun e he hc => absurd (hnone e he hc) Bool.false_ne_true
        rw [hzero, placesFrom_eq_nil hzero]
        rfl

/-- The ranks of the devices that compute, machine by machine, where a number of them came before. -/
def ranksFrom (a : Nat) : List (List Device) → List Nat
  | [] => []
  | ds :: dss => placesFrom a ds ++ ranksFrom (a + ds.countP Device.computes) dss

theorem length_ranksFrom (a : Nat) (dss : List (List Device)) :
    (ranksFrom a dss).length = dss.flatten.countP computes := by
  induction dss generalizing a with
  | nil => rfl
  | cons ds dss ih => rw [ranksFrom, length_append, length_placesFrom, ih, flatten_cons, countP_append]

theorem le_getElem_ranksFrom {a : Nat} (h : i < (ranksFrom a dss).length) : a + i ≤ (ranksFrom a dss)[i] := by
  induction dss generalizing a i with
  | nil => simp [ranksFrom] at h
  | cons ds dss ih =>
    simp only [ranksFrom] at h ⊢
    rw [getElem_append]
    split
    next hi => exact le_getElem_placesFrom hi
    next hi =>
    have hlen := length_placesFrom a ds
    have hle := ih (a := a + ds.countP computes) (i := i - (placesFrom a ds).length) (by
      rw [length_append] at h
      omega)
    omega

theorem ranksFrom_eq_range'_iff (a : Nat) (dss : List (List Device)) :
    ranksFrom a dss = range' a (dss.flatten.countP computes) ↔ ∀ ds ∈ dss, ComputesFirst ds := by
  induction dss generalizing a with
  | nil => simp [ranksFrom]
  | cons ds dss ih =>
    rw [ranksFrom, flatten_cons, countP_append, ← range'_append_1, forall_mem_cons,
      ← placesFrom_eq_range'_iff a ds, ← ih (a + ds.countP computes)]
    constructor
    · intro h
      exact append_inj h (by rw [length_placesFrom, length_range'])
    · rintro ⟨h, h'⟩
      rw [h, h']

/-- A list of numbers, none below its place, that fills a range is the range. -/
theorem eq_range_of_perm {l : List Nat} (hle : ∀ i (h : i < l.length), i ≤ l[i])
    (hp : l.Perm (range l.length)) : l = range l.length := by
  induction l using reverseRecOn with
  | nil => rfl
  | append_singleton l x ih =>
    rw [length_append, length_singleton, range_succ] at hp ⊢
    have hx : x = l.length := by
      have hge : l.length ≤ x := by simpa using hle l.length (by simp)
      have hlt : x < l.length + 1 := by
        rw [← mem_range, range_succ]
        exact hp.subset (by simp)
      omega
    subst hx
    rw [← ih]
    · intro i hi
      have hi' := hle i (by simp; omega)
      rwa [getElem_append_left hi] at hi'
    · exact (perm_append_right_iff _).mp hp

/-! ## 2. The tables of ranks -/

/-- A natural number as the number of a device or of a process. -/
def toNumber (n : Nat) : Number := some (n : Int)

theorem toNumber_injective : Function.Injective toNumber := fun _ _ h => Int.ofNat.inj (Option.some.inj h)

namespace Cluster

variable {ν : Type} {is : List (MachineInfo ν)} {d : Device}

def RunsFrom (s : Nat) (ds : List Device) : Prop := ds.map Device.number = (range' s ds.length).map toNumber

theorem RunsFrom.cons (h : RunsFrom s (d :: ds)) : d.number = toNumber s ∧ RunsFrom (s + 1) ds := by
  rwa [RunsFrom, length_cons, range'_succ, map_cons, map_cons, cons.injEq] at h

theorem RunsFrom.append {es : List Device} (h : RunsFrom s (ds ++ es)) :
    RunsFrom s ds ∧ RunsFrom (s + ds.length) es := by
  rw [RunsFrom, length_append, ← range'_append_1, map_append, map_append] at h
  exact append_inj h (by simp)

theorem map_fst_rankPairs (hle : before ≤ s) (h : RunsFrom s ds) :
    (rankPairs before ds).map Prod.fst = (placesFrom (s - before) ds).map toNumber := by
  induction ds generalizing s with
  | nil => rfl
  | cons d ds ih =>
    obtain ⟨hd, h⟩ := h.cons
    have hrest := ih (by omega) h
    rw [show s + 1 - before = s - before + 1 by omega] at hrest
    simp only [rankPairs, map_map] at hrest ⊢
    cases hc : d.computes with
    | false => simpa [placesFrom, hc] using hrest
    | true =>
      have hrank : d.number.map (· - (before : Int)) = toNumber (s - before) := by
        rw [hd, toNumber, toNumber, Option.map_some, Int.natCast_sub hle]
      simpa [placesFrom, hc, hrank] using hrest

theorem map_fst_rankPairsFrom (hle : before ≤ s) (h : RunsFrom s dss.flatten) :
    (rankPairsFrom before dss).map Prod.fst = (ranksFrom (s - before) dss).map toNumber := by
  induction dss generalizing s before with
  | nil => rfl
  | cons ds dss ih =>
    obtain ⟨hds, h⟩ := RunsFrom.append h
    have hcount : othersAmong ds + ds.countP computes = ds.length := by
      simp [ds.length_eq_countP_add_countP computes, othersAmong, Nat.add_comm]
    rw [rankPairsFrom, ranksFrom, map_append, map_append, map_fst_rankPairs hle hds, ih (by omega) h]
    congr 3
    omega

theorem map_snd_rankPairsFrom (before : Nat) (dss : List (List Device)) :
    (rankPairsFrom before dss).map Prod.snd = (dss.flatten.filter computes).map number := by
  induction dss generalizing before with
  | nil => rfl
  | cons ds dss ih =>
    rw [rankPairsFrom, map_append, ih, flatten_cons, filter_append, map_append, rankPairs,
      map_map]
    rfl

/-- The rank of an accelerator is its number less the other devices on earlier machines. -/
theorem mem_rankPairsFrom (before : Nat) (hds : dss[k]? = some ds) (hd : d ∈ ds) (hc : d.computes) :
    (d.number.map (· - ((before + othersAmong (dss.take k).flatten : Nat) : Int)), d.number) ∈ rankPairsFrom before dss := by
  induction dss generalizing before k with
  | nil => simp at hds
  | cons es dss ih =>
    rw [rankPairsFrom]
    cases k with
    | zero =>
      cases hds
      exact mem_append_left _ (mem_map.mpr ⟨d, mem_filter.mpr ⟨hd, hc⟩, rfl⟩)
    | succ k =>
      refine mem_append_right _ ?_
      have hmem := ih (othersAmong es + before) hds
      rw [take_succ_cons, flatten_cons]
      convert hmem using 5
      simp [othersAmong]
      omega

/-! ## 3. Inverse tables -/

def acceleratorNumbers (c : Cluster ν) : List Number := (c.devices.filter Device.computes).map Device.number

/-- How many devices on the machines before a place are no accelerators. -/
def othersBefore (c : Cluster ν) (k : Nat) : Nat := othersAmong ((c.machines.take k).flatMap fun m => m.devices.values)

/-- Ranks from zero on and accelerators correspond one to one: a rank has a device exactly if it is below the number of
accelerators, a device has a rank exactly if it is an accelerator, and the two tables are inverse to each other. -/
structure RanksCorrespond (c : Cluster ν) : Prop where
  rank_iff : ∀ r, (c.deviceOf.get? r).isSome ↔ ∃ k < c.acceleratorNumbers.length, r = toNumber k
  device_iff : ∀ n, (c.rankOf.get? n).isSome ↔ n ∈ c.acceleratorNumbers
  inverse : ∀ r n, c.deviceOf.get? r = some n ↔ c.rankOf.get? n = some r

/-- A cluster without its links whose devices are numbered from zero on. -/
structure Counted (c : Cluster ν) (dss : List (List Device)) : Prop where
  values : c.machines.map (fun m => m.devices.values) = dss
  deviceOf : c.deviceOf = .ofList (rankPairsFrom 0 dss)
  rankOf : c.rankOf = .ofList ((rankPairsFrom 0 dss).map Prod.swap)
  runs : RunsFrom 0 dss.flatten

namespace Counted

variable {c : Cluster ν} {dss : List (List Device)}

variable (h : c.Counted dss)

include h

theorem devices_eq : c.devices = dss.flatten := by rw [devices, flatMap_def, h.values]

theorem map_snd : (rankPairsFrom 0 dss).map Prod.snd = c.acceleratorNumbers := by
  rw [map_snd_rankPairsFrom, acceleratorNumbers, h.devices_eq]

theorem map_fst : (rankPairsFrom 0 dss).map Prod.fst = (ranksFrom 0 dss).map toNumber :=
  map_fst_rankPairsFrom (Nat.zero_le 0) h.runs

theorem length_acceleratorNumbers : c.acceleratorNumbers.length = (ranksFrom 0 dss).length := by
  rw [← h.map_snd, length_map, ← length_map, h.map_fst, length_map]

theorem nodup_acceleratorNumbers : c.acceleratorNumbers.Nodup := by
  have hnd : (dss.flatten.map number).Nodup := by
    rw [h.runs]
    exact Nodup.map toNumber_injective (nodup_range' ..)
  rw [acceleratorNumbers, h.devices_eq]
  exact hnd.sublist (filter_sublist.map _)

theorem rankOf_eq : c.rankOf = (rankPairsFrom 0 dss).map Prod.swap := by
  rw [h.rankOf]
  refine ofList_of_nodup ?_
  rw [Table.keys, map_map, show Prod.fst ∘ Prod.swap = (Prod.snd : Number × Number → Number) from rfl, h.map_snd]
  exact h.nodup_acceleratorNumbers

theorem keys_rankOf : c.rankOf.keys = c.acceleratorNumbers := by
  rw [h.rankOf_eq, Table.keys, map_map, ← h.map_snd]
  rfl

theorem rankOf_eq_some_iff {n r : Number} :
    c.rankOf.get? n = some r ↔ (r, n) ∈ rankPairsFrom 0 dss := by
  rw [get?_eq_some_iff_mem (h.keys_rankOf ▸ h.nodup_acceleratorNumbers), h.rankOf_eq, mem_map]
  constructor
  · rintro ⟨p, hp, he⟩
    rwa [← Prod.swap_swap p, he] at hp
  · intro hp
    exact ⟨(r, n), hp, rfl⟩

theorem rank_eq {m : Machine ν} (hm : c.machines[k]? = some m)
    (hd : d ∈ m.devices.values) (hc : d.computes) :
    c.rankOf.get? d.number = some (d.number.map (· - (c.othersBefore k : Int))) := by
  rw [h.rankOf_eq_some_iff, othersBefore, flatMap_def, map_take, h.values]
  have hds : dss[k]? = some m.devices.values := by
    rw [← h.values, getElem?_map, hm]
    rfl
  have hmem := mem_rankPairsFrom 0 hds hd hc
  rwa [Nat.zero_add] at hmem

theorem correspond_of_ranks (hranks : ranksFrom 0 dss = range (ranksFrom 0 dss).length) :
    c.RanksCorrespond := by
  have hkeys : ((rankPairsFrom 0 dss).map Prod.fst).Nodup := by
    rw [h.map_fst, hranks]
    exact nodup_range.map toNumber_injective
  have hdeviceOf : c.deviceOf = rankPairsFrom 0 dss := by
    rw [h.deviceOf]
    exact ofList_of_nodup hkeys
  constructor
  · intro r
    rw [← has, has_iff_mem_keys, hdeviceOf, Table.keys, h.map_fst, hranks, h.length_acceleratorNumbers]
    simp [eq_comm]
  · intro n
    rw [← has, has_iff_mem_keys, h.keys_rankOf]
  · intro r n
    rw [h.rankOf_eq_some_iff, hdeviceOf]
    exact get?_eq_some_iff_mem hkeys

/-- Tables that are inverse have all ranks, so these have no gaps. -/
theorem ranks_of_correspond (hc : c.RanksCorrespond) :
    ranksFrom 0 dss = range (ranksFrom 0 dss).length := by
  have hsubset : range (ranksFrom 0 dss).length ⊆ ranksFrom 0 dss := by
    intro k hk
    have hsome := (hc.rank_iff (toNumber k)).mpr ⟨k, h.length_acceleratorNumbers ▸ mem_range.mp hk, rfl⟩
    obtain ⟨n, hn⟩ := Option.isSome_iff_exists.mp hsome
    rw [h.deviceOf] at hn
    have hmem : (toNumber k, n) ∈ rankPairsFrom 0 dss :=
      (mem_of_mem_update (mem_of_get?_eq_some hn)).resolve_left not_mem_nil
    have hfst := mem_map_of_mem (f := Prod.fst) hmem
    rw [h.map_fst] at hfst
    exact (mem_map_of_injective toNumber_injective).mp hfst
  have hperm : (range (ranksFrom 0 dss).length).Perm (ranksFrom 0 dss) :=
    (nodup_range.subperm hsubset).perm_of_length_le (by simp)
  refine eq_range_of_perm (fun i hi => ?_) hperm.symm
  have hle := le_getElem_ranksFrom hi
  omega

theorem correspond_iff : c.RanksCorrespond ↔ ∀ m ∈ c.machines, ComputesFirst m.devices.values := by
  have hfirst : ranksFrom 0 dss = range (ranksFrom 0 dss).length ↔ ∀ ds ∈ dss, ComputesFirst ds := by
    rw [← ranksFrom_eq_range'_iff 0 dss, range_eq_range', length_ranksFrom]
  calc c.RanksCorrespond
      ↔ ranksFrom 0 dss = range (ranksFrom 0 dss).length := ⟨h.ranks_of_correspond, h.correspond_of_ranks⟩
    _ ↔ ∀ ds ∈ dss, ComputesFirst ds := hfirst
    _ ↔ ∀ m ∈ c.machines, ComputesFirst m.devices.values := by rw [← h.values, forall_mem_map]

end Counted

/-! ## 4. Clusters from descriptions -/

theorem distinct_of_numbersIn (h : numbersIn is = (range n).map toNumber) : Distinct is := by
  rw [Distinct, h]
  refine ⟨nodup_range.map toNumber_injective, ?_⟩
  simp [toNumber]

theorem counted_of_bare (hnum : numbersIn is = (range n).map toNumber)
    {c : Cluster ν} (hread : Described 0 is dss) (hc : c.bare = madeOf is dss) : c.Counted dss where
  values := map_values_of_bare hread hc
  deviceOf := congrArg deviceOf hc
  rankOf := congrArg rankOf hc
  runs := by
    have hmap := hread.map_number.trans hnum
    have hlen : dss.flatten.length = n := by rw [← length_map, hmap, length_map, length_range]
    rw [RunsFrom, hmap, hlen, range_eq_range']

/-- **Ranks.**  A description that numbers its devices from zero on gives a cluster with the described devices, in which
the rank of an accelerator is its number less the other devices on earlier machines.  Ranks and accelerators correspond
one to one if and only if every machine lists its accelerators before its other devices. -/
theorem ranks_correspond_iff [Arithmetic ν] {is : List (MachineInfo ν)} {n : Nat}
    (hnum : numbersIn is = (range n).map toNumber) (hread : Readable is) : ∃ c : Cluster ν, build is = .ok c ∧
      List.Forall₂ (fun i m => i.devices.mapM (makeDevice m.id) = .ok m.devices.values) is c.machines ∧
      (∀ (k : Nat) (m : Machine ν), c.machines[k]? = some m → ∀ d ∈ m.devices.values, d.computes →
        c.rankOf.get? d.number = some (d.number.map (· - (c.othersBefore k : Int)))) ∧
      (c.RanksCorrespond ↔ ∀ m ∈ c.machines, ComputesFirst m.devices.values) := by
  have hdistinct := distinct_of_numbersIn hnum
  obtain ⟨c, hc⟩ := exists_build_eq_ok hdistinct hread
  obtain ⟨dss, hdss, hbare⟩ := build_bare hdistinct hc
  have hcounted := counted_of_bare hnum hdss hbare
  exact ⟨c, hc, forall₂_of_bare hdss hbare, fun k m hm d hd => hcounted.rank_eq hm hd, hcounted.correspond_iff⟩

/-- Two machines, of which the first lists its processor before its accelerator. -/
def processorFirst : List (MachineInfo Value) :=
  let device (n : Nat) (type : String) : DeviceInfo := { number := toNumber n, localId := .int 0, type := .str type }
  let machine (host : String) (ds : List DeviceInfo) : MachineInfo Value :=
    { host := .str host, address := .null, port := .null, devices := ds, links := [] }
  [machine "a" [device 0 "CPU", device 1 "GPU"], machine "b" [device 2 "GPU"]]

/-- Both accelerators get rank 1, which leads to the second one, and rank 0 leads nowhere. -/
theorem ranks_correspond_iff_processorFirst : numbersIn processorFirst = (range 3).map toNumber ∧
      ∃ c, build processorFirst = .ok c ∧ c.deviceOf = [(some 1, some 2)] ∧
        c.rankOf = [(some 1, some 1), (some 2, some 1)] ∧ ¬ c.RanksCorrespond := by
  have hread : Readable processorFirst := by
    refine ⟨?_, ?_, ?_, ?_, ?_, ?_⟩
    · have hall : ∀ i ∈ processorFirst, ∀ d ∈ i.devices, (makeDevice 0 d).isOk := by decide +kernel
      exact fun i hi d hd => exists_of_isOk (hall i hi d hd)
    all_goals
      intro i hi l hl
      simp only [processorFirst, mem_cons, not_mem_nil, or_false] at hi
      rcases hi with rfl | rfl <;> cases hl
  have hnum : numbersIn processorFirst = (range 3).map toNumber := by decide
  obtain ⟨c, hc, -, -, hiff⟩ := ranks_correspond_iff hnum hread
  have hview : (build processorFirst).toOption.map (fun c => (c.deviceOf, c.rankOf,
      c.machines.map fun m => decide (ComputesFirst m.devices.values)))
      = some ([(some 1, some 2)], [(some 1, some 1), (some 2, some 1)], [false, true]) := by decide +kernel
  obtain ⟨hdevice, hrank, hfirst⟩ : c.deviceOf = [(some 1, some 2)] ∧ c.rankOf = [(some 1, some 1), (some 2, some 1)] ∧
      c.machines.map (fun m => decide (ComputesFirst m.devices.values)) = [false, true] := by
    rw [hc] at hview
    obtain ⟨hdevice, hrest⟩ := Prod.mk.inj (Option.some.inj hview)
    exact ⟨hdevice, Prod.mk.inj hrest⟩
  refine ⟨hnum, c, hc, hdevice, hrank, fun hcorrespond => ?_⟩
  obtain ⟨m, hm, hnot⟩ : ∃ m ∈ c.machines, decide (ComputesFirst m.devices.values) = false := by
    rw [← mem_map, hfirst]
    exact mem_cons_self
  exact of_decide_eq_false hnot (hiff.mp hcorrespond m hm)

end Cluster

end TensorKit.Distributed
