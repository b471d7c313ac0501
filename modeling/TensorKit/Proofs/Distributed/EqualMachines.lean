import TensorKit.Proofs.Distributed.DeviceRanks
import TensorKit.Proofs.Tensor.Selection
/-!
# Descriptions of equal machines

The machines of a uniform cluster are described in two passes: the devices are counted machine by
machine, then each is linked to all others by what the count says of both.  Counting `n` devices
gives the numbers below `n`, with quotient and remainder for the machine and the place on it
(`census`), so both passes have a closed form (`uniform_eq_build`).
-/

namespace TensorKit.Distributed.Cluster

open List Nat

variable {e : Equipment} {N D k n p s : Nat}

/-! ## 1. The closed form -/

def uniformType (D place : Nat) : DeviceType :=
  if place < D then .gpu else if place = D then .cpu else .nic

/-- The machine and the kind of the device with a number. -/
def deviceAt (D n : Nat) : Nat × DeviceType := (n / (D + 2), uniformType D (n % (D + 2)))

def uniformDevice (e : Equipment) (D machine place : Nat) : DeviceInfo :=
  let number := machine * (D + 2) + place
  if place < D then e.accelerator number (place + 1)
  else if place = D then e.processorInfo number else cardInfo number

def uniformLink (e : Equipment) (D s t : Nat) : LinkInfo Value where
  source := toNumber s
  target := toNumber t
  type := .str (if deviceAt D s = deviceAt D t then "NVL" else "PHB")
  bandwidth := if deviceAt D s = deviceAt D t then e.inner else e.outer
  latency := .int 0

/-- The links from devices to others that one of several equal machines holds. -/
def linksOf (e : Equipment) (D machine : Nat) (ps : List (Nat × Nat)) : List (LinkInfo Value) :=
  (ps.filter fun p => p.1 / (D + 2) = machine).map fun p => uniformLink e D p.1 p.2

def uniformMachine (e : Equipment) (D : Nat) (ps : List (Nat × Nat)) (machine : Nat) : MachineInfo Value where
  host := .str s!"host_{machine}"
  address := .str "127.0.0.1"
  port := .int 60009
  devices := (range (D + 2)).map (uniformDevice e D machine)
  links := linksOf e D machine ps

def uniformInfos (e : Equipment) (N D : Nat) : List (MachineInfo Value) :=
  (range N).map (uniformMachine e D (orderedPairs (N * (D + 2))))

/-! ## 2. Counting -/

/-- The count after so many devices. -/
def census (D n : Nat) : Census := ⟨n - 1, (range n).map fun s => (s, deviceAt D s)⟩

theorem deviceAt_add (hp : p < D + 2) : deviceAt D (k * (D + 2) + p) = (k, uniformType D p) := by
  rw [deviceAt, mul_comm, mul_add_div (by omega), mul_add_mod, div_eq_of_lt hp, mod_eq_of_lt hp,
    add_zero]

theorem enter_census (hp : p < D + 2) :
    (census D (k * (D + 2) + p)).enter (k * (D + 2) + p) k (uniformType D p) =
      census D (k * (D + 2) + p + 1) := by
  have hnew : k * (D + 2) + p ∉ Table.keys (census D (k * (D + 2) + p)).devices := by
    simp [census, Table.keys, Function.comp_def]
  rw [Census.enter, ← deviceAt_add hp, Table.set_of_notMem_keys hnew, census, census, range_succ,
    map_append]
  rfl

theorem get?_census (hs : s < n) : (census D n).devices.get? s = some (deviceAt D s) := by
  refine Table.get?_of_mem ?_ (mem_map.mpr ⟨s, mem_range.mpr hs, rfl⟩)
  simp [census, Table.keys, Function.comp_def, nodup_range]

theorem number_census (D k j : Nat) :
    (census D (k * (D + 2) + j)).number k j = k * (D + 2) + j := by
  have hpos : 0 < k → 0 < k * (D + 2) := fun hk => Nat.mul_pos hk (by omega)
  rw [Census.number, census]
  split
  next h => simp [h.1, h.2]
  · dsimp only
    omega

theorem countAccelerators_eq (e : Equipment) {j : Nat} (hj : j ≤ D) :
    countAccelerators e j k (census D (k * (D + 2))) =
      ((range j).map (uniformDevice e D k), census D (k * (D + 2) + j)) := by
  induction j with
  | zero => rfl
  | succ j ih =>
    have hdevice : uniformDevice e D k j = e.accelerator (k * (D + 2) + j) (j + 1) := if_pos hj
    have htype : uniformType D j = .gpu := if_pos hj
    rw [countAccelerators] at ih ⊢
    rw [range_succ, foldl_append, ih (by omega), map_append]
    dsimp only [foldl_cons, foldl_nil]
    rw [number_census, ← htype, enter_census (by omega), ← hdevice]
    rfl

/-- **Step lemma of counting.** -/
theorem countMachine_eq (e : Equipment) (hD : 0 < D) (k : Nat) :
    countMachine e D ((range k).map (uniformMachine e D []), census D (k * (D + 2))) k =
      ((range (k + 1)).map (uniformMachine e D []), census D ((k + 1) * (D + 2))) := by
  have hlast : (census D (k * (D + 2) + D)).last + 1 = k * (D + 2) + D := Nat.sub_add_cancel (by omega)
  have hcpu : uniformType D D = .cpu := by simp [uniformType]
  have hnic : uniformType D (D + 1) = .nic := by simp [uniformType]
  have hdevices : (range (D + 2)).map (uniformDevice e D k) = (range D).map (uniformDevice e D k) ++
      [e.processorInfo (k * (D + 2) + D), cardInfo (k * (D + 2) + D + 1)] := by
    simp [range_succ, uniformDevice, Nat.add_assoc]
  have hmachine : uniformMachine e D [] k = { uniformMachine e D [] k with
      devices := (range (D + 2)).map (uniformDevice e D k) } := rfl
  simp only [countMachine, countAccelerators_eq e le_rfl, hlast]
  rw [← hcpu, enter_census (by omega), ← hnic, Nat.add_assoc, enter_census (by omega), range_succ,
    map_append, map_singleton, hmachine, hdevices, succ_mul]
  rfl

theorem foldl_countMachine (e : Equipment) (hD : 0 < D) (N : Nat) :
    (range N).foldl (countMachine e D) ([], {}) =
      ((range N).map (uniformMachine e D []), census D (N * (D + 2))) := by
  induction N with
  | zero => simp [census]
  | succ N ih => rw [range_succ, foldl_append, ih, foldl_cons, foldl_nil, countMachine_eq e hD, range_succ]

/-! ## 3. Linking -/

theorem mem_orderedPairs {p : Nat × Nat} : p ∈ orderedPairs n ↔ p.1 < n ∧ p.2 < n ∧ p.1 ≠ p.2 := by
  obtain ⟨s, t⟩ := p
  simp [orderedPairs, pairsFrom]

/-- **Step lemma of linking.** -/
theorem connect_eq (e : Equipment) {q : Nat × Nat} (hq : q.1 < n ∧ q.2 < n) (ps : List (Nat × Nat)) (N : Nat) :
    connect e (census D n) ((range N).map (uniformMachine e D ps)) q =
      .ok ((range N).map (uniformMachine e D (ps ++ [q]))) := by
  rw [connect, get?_census hq.1, get?_census hq.2]
  refine congrArg Except.ok (ext_getElem? fun k => ?_)
  rw [getElem?_modify, getElem?_map, getElem?_map]
  by_cases hk : k < N
  · rw [getElem?_range hk]
    by_cases hq : q.1 / (D + 2) = k <;> simp [deviceAt, uniformMachine, linksOf, uniformLink, toNumber, hq]
  · rw [getElem?_eq_none (by simpa using hk)]
    rfl

theorem foldlM_connect (e : Equipment) (N : Nat) {qs : List (Nat × Nat)} (hqs : ∀ q ∈ qs, q.1 < n ∧ q.2 < n)
    (ps : List (Nat × Nat)) : qs.foldlM (connect e (census D n)) ((range N).map (uniformMachine e D ps)) =
      .ok ((range N).map (uniformMachine e D (ps ++ qs))) := by
  induction qs generalizing ps with
  | nil => rw [append_nil]; rfl
  | cons q qs ih =>
    obtain ⟨hq, hqs⟩ := forall_mem_cons.mp hqs
    rw [foldlM_cons, connect_eq e hq, append_cons ps q qs]
    exact ih hqs _

/-- **The description of equal machines.** -/
theorem uniform_eq_build (e : Equipment) (hN : 0 < N) (hD : 0 < D) :
    uniform e N D = build (uniformInfos e N D) := by
  have hlast : (census D (N * (D + 2))).last + 1 = N * (D + 2) :=
    Nat.sub_add_cancel (Nat.mul_pos hN (by omega))
  have hlinks := foldlM_connect (D := D) e N (fun p hp => (mem_orderedPairs (n := N * (D + 2)).mp hp).imp_right And.left) []
  simp only [uniform, foldl_countMachine e hD, hlast, hlinks]
  rfl

theorem filter_div_range (hk : k < N) :
    (range (N * (D + 2))).filter (fun s => s / (D + 2) = k) = (range (D + 2)).map (k * (D + 2) + ·) := by
  refine Pairwise.eq_of_mem_iff (r := (· < ·)) (pairwise_lt_range.filter _)
    (pairwise_map.mpr (pairwise_lt_range.imp (Nat.add_lt_add_left · _))) fun s => ?_
  simp only [mem_filter, mem_range, decide_eq_true_eq, mem_map]
  constructor
  · rintro ⟨-, rfl⟩
    exact ⟨s % (D + 2), mod_lt s (by omega), div_add_mod' s (D + 2)⟩
  · rintro ⟨q, hq, rfl⟩
    have hend := Nat.mul_le_mul_right (D + 2) (succ_le_of_lt hk)
    rw [succ_mul] at hend
    exact ⟨by omega, congrArg Prod.fst (deviceAt_add hq)⟩

/-- The links of a machine go from its devices, so those of all machines are all links in order. -/
theorem flatMap_filter_orderedPairs (N D : Nat) :
    (range N).flatMap (fun k => (orderedPairs (N * (D + 2))).filter fun p => p.1 / (D + 2) = k) =
      orderedPairs (N * (D + 2)) := by
  have hsources (n k : Nat) (l : List Nat) : (l.flatMap (pairsFrom n)).filter (fun p => p.1 / (D + 2) = k) =
      (l.filter fun s => s / (D + 2) = k).flatMap (pairsFrom n) := by
    induction l with
    | nil => rfl
    | cons s l ih =>
      by_cases hs : s / (D + 2) = k <;> simp [ih, hs, pairsFrom, filter_map, Function.comp_def]
  simp only [orderedPairs, hsources]
  conv_rhs => rw [Tensor.range_mul N (D + 2)]
  rw [← flatMap_assoc, flatMap_congr fun k hk => filter_div_range (mem_range.mp hk)]

end TensorKit.Distributed.Cluster
