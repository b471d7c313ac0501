import Mathlib
import TensorKit.Proofs.Tensor.Selection
import TensorKit.Sampler.Basic
/-!
# Splitting an epoch among replicas

The positions of a dataset, filled up from the beginning to a multiple of the number of replicas, are read by all
replicas together.  In every full round each replica takes a slice of one batch; what is left after the last full round
is cut into one slice for each.

* **Sizes.**  The filled-up length is the share of one replica times the number of replicas, so the remainder modulo a
  round is the remainder of the share modulo a batch, once for every replica (`total_mod`).  Hence the rounds before
  `full` are complete (`every_rounds`), and every replica gets its share (`length_taken`).
* **Slices.**  Slices of one length, one after the other, are the beginning of a list (`Tensor.flatMap_slices`).  This is used
  three times: for the replicas within a round, for the rounds, and for the replicas within what is left (`sum_taken`).

Grouping positions into batches loses nothing, all batches but the last are full, and their number is the one that is
announced (`flatten_batches`, `length_of_mem_dropLast_group`, `length_batches`).

The positions are filled up with themselves once, which is enough unless there are more than twice as many replicas as
positions (`filling_le_iff`).  Beyond that no replica can be read.
-/

open List Nat

namespace TensorKit.Batch

/-! ## 1. Grouping -/

variable {α β : Type}

theorem group_map (f : α → β) (size : Nat) (dropLast : Bool) : ∀ xs run : List α,
    group size dropLast (run.map f) (xs.map f) = (group size dropLast run xs).map (map f)
  | [], run => by
    by_cases h : dropLast || run.isEmpty <;> simp [group, h]
  | x :: xs, run => by
    have hrun : run.map f ++ [f x] = (run ++ [x]).map f := by simp
    simp only [map_cons, group, hrun, length_map]
    split
    · rw [map_cons, ← group_map f size dropLast xs []]
      rfl
    · exact group_map f size dropLast xs _

theorem flatten_group (size : Nat) : ∀ xs run : List α, (group size false run xs).flatten = run ++ xs
  | [], run => by
    by_cases h : run.isEmpty <;> simp_all [group]
  | x :: xs, run => by
    simp only [group]
    split
    · rw [flatten_cons, flatten_group size xs []]
      simp
    · rw [flatten_group size xs]
      simp

theorem batchCount_add {size : Nat} (h : 0 < size) (dropLast : Bool) (n : Nat) :
    batchCount size dropLast (size + n) = batchCount size dropLast n + 1 := by
  rw [batchCount, add_assoc, add_div_left _ h]
  rfl

theorem length_group {size : Nat} (dropLast : Bool) : ∀ (xs : List α) {run : List α}, run.length < size →
    (group size dropLast run xs).length = batchCount size dropLast (run.length + xs.length)
  | [], run, h => by
    rw [length_nil, Nat.add_zero, batchCount, group]
    rcases dropLast with _ | _
    · rcases run with _ | ⟨x, run⟩
      · exact (Nat.div_eq_of_lt (by simp at h ⊢; omega)).symm
      · rw [length_cons] at h ⊢
        exact (Nat.div_eq_of_lt_le (by simp; omega) (by simp; omega)).symm
    · exact (Nat.div_eq_of_lt (by simpa using h)).symm
  | x :: xs, run, h => by
    have hsize := Nat.zero_lt_of_lt h
    simp only [group]
    split
    next hfull =>
      have hcount : run.length + (x :: xs).length = size + xs.length := by
        simp only [length_append, length_cons, length_nil] at hfull ⊢
        omega
      rw [length_cons, length_group dropLast xs hsize, hcount, batchCount_add hsize, length_nil, Nat.zero_add]
    next hopen =>
      have hlt : (run ++ [x]).length < size := by
        simp only [length_append, length_singleton] at hopen ⊢
        omega
      rw [length_group dropLast xs hlt]
      congr 1
      simp only [length_append, length_cons, length_nil]
      omega

theorem length_of_mem_dropLast_group (size : Nat) (dropLast : Bool) : ∀ xs run : List α,
    ∀ ys ∈ (group size dropLast run xs).dropLast, ys.length = size
  | [], run => by
    by_cases h : dropLast || run.isEmpty <;> simp [group, h]
  | x :: xs, run => by
    have ih := length_of_mem_dropLast_group size dropLast xs
    simp only [group]
    split
    next hfull =>
      intro ys hys
      cases hrest : group size dropLast [] xs with
      | nil =>
        rw [hrest] at hys
        cases hys
      | cons zs rest =>
        have hfulls := ih []
        rw [hrest] at hys hfulls
        rcases mem_cons.mp hys with rfl | hys
        · exact hfull
        · exact hfulls ys hys
    · exact ih _

theorem flatten_batches (size : Nat) (xs : List α) : (batches size false xs).flatten = xs := flatten_group size xs []

theorem length_batches {size : Nat} (h : 0 < size) (dropLast : Bool) (xs : List α) :
    (batches size dropLast xs).length = batchCount size dropLast xs.length := by
  rw [batches, length_group dropLast xs h, length_nil, zero_add]

end TensorKit.Batch

namespace TensorKit.Sampler

variable {xs : List Nat}

/-! ## 2. Slices -/

theorem coe_flatMap_range {α : Type} (f : Nat → List α) (n : Nat) :
    (((range n).flatMap f : List α) : Multiset α) = ∑ k ∈ Finset.range n, (f k : Multiset α) :=
  (Multiset.coe_bind _ _).symm

namespace Split

variable {s : Split}

/-! ## 3. Rounds -/

/-- How much all replicas take in one round. -/
abbrev round (s : Split) : Nat := s.batch * s.replicas

/-- How many rounds are full. -/
abbrev rounds (s : Split) : Nat := s.share / s.batch

/-- What is left after the full rounds is shared out evenly. -/
theorem total_mod (s : Split) : s.total % s.round = s.share % s.batch * s.replicas :=
  mul_mod_mul_right ..

theorem total_sub_rest (s : Split) : s.total - s.total % s.round = s.rounds * s.round := by
  rw [total_mod, total, ← Nat.sub_mul, ← Nat.mul_assoc]
  congr 1
  have hshare : s.rounds * s.batch + _ = _ := Nat.div_add_mod' s.share s.batch
  omega

theorem total_sub_full (s : Split) : s.total - s.rounds * s.round = s.share % s.batch * s.replicas := by
  rw [← total_sub_rest, Nat.sub_sub_self (Nat.mod_le ..), total_mod]

theorem slice_end_le {R r : Nat} (hr : r < R) (b : Nat) : r * b + b ≤ b * R := by
  rw [← succ_mul, mul_comm b]
  exact mul_le_mul_right b hr

theorem every_rounds {b R r : Nat} (hb : 0 < b) (hr : r < R) (F : Nat) :
    every (b * R) (F * (b * R)) (r * b) = (range F).map fun k => r * b + k * (b * R) := by
  have hround := slice_end_le hr b
  have hcount : (F * (b * R) - r * b + b * R - 1) / (b * R) = F := by
    rcases F with _ | F
    · rw [Nat.zero_mul]
      exact Nat.div_eq_of_lt (by omega)
    · rw [Nat.succ_mul]
      refine Nat.div_eq_of_lt_le ?_ ?_
      · rw [Nat.succ_mul]
        omega
      · rw [Nat.succ_mul, Nat.succ_mul]
        omega
  rw [every, if_neg (by omega), hcount]

def slice (s : Split) (xs : List Nat) (k : Nat) : List Nat :=
  ((xs.drop (k * s.round)).drop (s.rank * s.batch)).take s.batch

def remainder (s : Split) (xs : List Nat) : List Nat :=
  ((xs.drop (s.rounds * s.round)).drop (s.rank * (s.share % s.batch))).take (s.share % s.batch)

section Taken

variable (hr : s.rank < s.replicas) (hxs : xs.length = s.total)

include hr hxs

theorem taken_eq (hb : 0 < s.batch) :
    s.taken xs = (range s.rounds).flatMap (s.slice xs) ++ s.remainder xs := by
  have hpart : s.total % s.round / s.replicas = s.share % s.batch := by
    rw [total_mod, Nat.mul_div_cancel _ (Nat.zero_lt_of_lt hr)]
  have hslice (k : Nat) : (xs.drop (s.rank * s.batch + k * s.round)).take s.batch = s.slice xs k := by
    rw [slice, drop_drop, Nat.add_comm]
  simp [taken, hxs, total_sub_rest, hpart, every_rounds hb hr, flatMap_map, hslice, remainder]

theorem length_slice {k : Nat} (hk : k < s.rounds) : (s.slice xs k).length = s.batch := by
  have hround : (k + 1) * s.round ≤ s.total := by
    calc (k + 1) * s.round ≤ s.rounds * s.round := mul_le_mul_right _ hk
      _ = s.rounds * s.batch * s.replicas := (mul_assoc ..).symm
      _ ≤ s.total := mul_le_mul_right _ (div_mul_le_self ..)
  have hplace : _ ≤ s.round := slice_end_le hr s.batch
  rw [succ_mul] at hround
  rw [slice, length_take, length_drop, length_drop, hxs]
  omega

theorem length_remainder : (s.remainder xs).length = s.share % s.batch := by
  have hplace := slice_end_le hr (s.share % s.batch)
  rw [remainder, length_take, length_drop, length_drop, hxs, total_sub_full]
  omega

theorem length_taken (hb : 0 < s.batch) : (s.taken xs).length = s.share := by
  have hslices : ((range s.rounds).map fun k => (s.slice xs k).length) =
      replicate s.rounds s.batch := by
    rw [map_congr_left fun k hk => length_slice hr hxs (mem_range.mp hk), map_const', length_range]
  rw [taken_eq hr hxs hb, length_append, length_flatMap, hslices, sum_replicate, length_remainder hr hxs,
    smul_eq_mul, mul_comm, div_add_mod]

end Taken

theorem sum_slice (s : Split) (xs : List Nat) (k : Nat) :
    ∑ r ∈ Finset.range s.replicas, ({ s with rank := r }.slice xs k : Multiset Nat) =
      ((xs.drop (k * s.round)).take s.round : List Nat) := by
  have hslices := Tensor.flatMap_slices (xs.drop (k * s.round)) s.batch s.replicas
  rw [mul_comm s.replicas] at hslices
  rw [← coe_flatMap_range]
  exact congrArg _ hslices

theorem sum_remainder (s : Split) (hxs : xs.length = s.total) :
    ∑ r ∈ Finset.range s.replicas, ({ s with rank := r }.remainder xs : Multiset Nat) =
      (xs.drop (s.rounds * s.round) : List Nat) := by
  have hslices := Tensor.flatMap_slices (xs.drop (s.rounds * s.round)) (s.share % s.batch) s.replicas
  have hlen : (xs.drop (s.rounds * s.round)).length ≤ s.replicas * (s.share % s.batch) := by
    rw [length_drop, hxs, total_sub_full, mul_comm]
  rw [take_of_length_le hlen] at hslices
  rw [← coe_flatMap_range]
  exact congrArg _ hslices

/-- **The replicas take every position of the list exactly once.** -/
theorem sum_taken (hb : 0 < s.batch) (hxs : xs.length = s.total) :
    ∑ r ∈ Finset.range s.replicas, ({ s with rank := r }.taken xs : Multiset Nat) = xs :=
  calc ∑ r ∈ Finset.range s.replicas, ({ s with rank := r }.taken xs : Multiset Nat)
      = ∑ r ∈ Finset.range s.replicas, (∑ k ∈ Finset.range s.rounds,
          ({ s with rank := r }.slice xs k : Multiset Nat) + ({ s with rank := r }.remainder xs : Multiset Nat)) := by
        refine Finset.sum_congr rfl fun r hr => ?_
        rw [taken_eq (s := { s with rank := r }) (Finset.mem_range.mp hr) hxs hb, ← Multiset.coe_add, coe_flatMap_range]
        rfl
    _ = ∑ k ∈ Finset.range s.rounds,
          ((xs.drop (k * s.round)).take s.round : Multiset Nat) +
          (xs.drop (s.rounds * s.round) : List Nat) := by
        rw [Finset.sum_add_distrib, Finset.sum_comm, sum_remainder s hxs]
        simp [sum_slice]
    _ = xs := by rw [← coe_flatMap_range, Tensor.flatMap_slices, Multiset.coe_add, take_append_drop]

/-! ## 4. What a replica reads -/

theorem length_le_total (h : 0 < s.replicas) : s.length ≤ s.total := by
  rw [total, mul_comm]
  exact le_smul_ceilDiv h

theorem padded_eq (h : s.total - s.length ≤ s.length) : s.padded = range s.length ++ range (s.total - s.length) := by
  rw [padded, take_range, min_eq_left h]

def mine (s : Split) : List Nat := if s.replicas > 1 then s.taken s.padded else s.padded

theorem length_padded (hr : s.rank < s.replicas) (h : s.total - s.length ≤ s.length) : s.padded.length = s.total := by
  have hle := length_le_total (zero_lt_of_lt hr)
  rw [padded_eq h, length_append, length_range, length_range]
  omega

section Reading

variable (hb : 0 < s.batch) (hr : s.rank < s.replicas) (h : s.total - s.length ≤ s.length)

include hb hr h

theorem length_mine : s.mine.length = s.share := by
  unfold mine
  split
  · exact length_taken hr (length_padded hr h) hb
  · have hone : s.replicas = 1 := by omega
    rw [length_padded hr h, total, hone, mul_one]

/-- The rest is divided evenly. -/
theorem indices_eq : s.indices = .ok s.mine := by
  have hlen := length_mine hb hr h
  rw [mine] at hlen
  simp only [indices, length_padded hr h, total_mod, mul_mod_left, hlen, ne_eq, not_true_eq_false, and_false, if_false]
  rfl

theorem sum_mine : ∑ r ∈ Finset.range s.replicas, ({ s with rank := r }.mine : Multiset Nat) =
      Multiset.range s.length + Multiset.range (s.total - s.length) := by
  have hpadded : (s.padded : Multiset Nat) = Multiset.range s.length + Multiset.range (s.total - s.length) := by
    rw [padded_eq h]
    rfl
  rw [← hpadded]
  by_cases hmany : s.replicas > 1
  · rw [← sum_taken hb (length_padded hr h)]
    refine Finset.sum_congr rfl fun r _ => ?_
    rw [mine, if_pos hmany]
    rfl
  · have hone : Finset.range s.replicas = {0} := by
      rw [show s.replicas = 1 by omega]
      rfl
    have hall : { s with rank := 0 }.mine = s.padded := if_neg hmany
    rw [hone, Finset.sum_singleton]
    exact congrArg _ hall

end Reading

/-- The positions can be filled up once round unless there are more than twice as many replicas. -/
theorem filling_le_iff (h : 0 < s.replicas) :
    s.total - s.length ≤ s.length ↔ s.length = 0 ∨ s.replicas ≤ 2 * s.length := by
  have hround : s.total ≤ s.length + s.replicas - 1 := Nat.div_mul_le_self ..
  have hle := length_le_total h
  rcases Nat.eq_zero_or_pos s.length with hzero | hpos
  · have hshare : s.share = 0 := Nat.div_eq_of_lt (by omega)
    simp [total, hshare, hzero]
  · rcases Nat.lt_or_ge s.length s.replicas with hfew | hmany
    · -- fewer positions than replicas: one for each
      have hshare : s.share = 1 := Nat.div_eq_of_lt_le (by omega) (by omega)
      have htotal : s.total = s.replicas := by rw [total, hshare, Nat.one_mul]
      omega
    · omega

theorem indices_of_lt (h : 2 * s.length < s.total) : s.indices = .error .assertion := by
  have hshort : s.padded.length ≠ s.total := by
    rw [padded, length_append, length_take, length_range]
    omega
  simp only [indices, ne_eq, hshort, not_false_eq_true, if_true]
  rfl

end Split

/-! ## 5. Samplers -/

theorem makeDistributed_eq {data : Dataset} {n b R r : Nat} (hdata : data.length = .ok n) (hb : 0 < b) (hR : 0 < R)
    (dropLast : Bool) : makeDistributed data (.int b) (.int R) (.int r) (.bool false) (.bool dropLast) =
      .ok (distributed { length := n, replicas := R, rank := r, batch := b } false dropLast (.int 0)) := by
  have hpositive {k : Nat} (hk : 0 < k) : positive? (.int k) = some k := by simp [positive?, Value.int?, hk]
  simp only [makeDistributed, hpositive hb, hpositive hR, hdata]
  rfl

theorem read_distributed {s : Split} (h : s.indices = .ok xs) (dropLast : Bool) (epoch : Value) :
    read (distributed s false dropLast epoch) = (distributed s false dropLast epoch,
      .ok ((Batch.batches s.batch dropLast xs).map fun ys => .list (positions ys))) := by
  have hbatches : batchesOf s.batch dropLast (positions xs) =
      (Batch.batches s.batch dropLast xs).map fun ys => .list (positions ys) := by
    have hmap := Batch.group_map (fun n : Nat => Value.int n) s.batch dropLast xs []
    rw [map_nil] at hmap
    rw [batchesOf, Batch.batches, positions, hmap, map_map]
    rfl
  rw [read, h]
  exact congrArg (fun ys => (distributed s false dropLast epoch, Except.ok ys)) hbatches

/-- **An epoch is split exactly.**  If filling up adds no more positions than there are, every replica can be made and
read; it announces as many batches as it gives, and all but the last are full.  If none is dropped, every replica gets
the same number of positions, and together they get every position once and the first ones, which fill up, once more. -/
theorem distributed_splits_epoch {data : Dataset} {n b R : Nat} (hdata : data.length = .ok n) (hb : 0 < b) (hR : 0 < R)
    (hpadding : R * (n ⌈/⌉ R) - n ≤ n) (dropLast : Bool) :
    ∃ (samplers : Nat → Sampler) (batches : Nat → List (List Nat)), (∀ r < R,
        makeDistributed data (.int b) (.int R) (.int r) (.bool false) (.bool dropLast) = .ok (samplers r) ∧
        read (samplers r) = (samplers r, .ok ((batches r).map fun xs => .list (positions xs))) ∧
        length (samplers r) = .ok (batches r).length ∧ (∀ xs ∈ (batches r).dropLast, xs.length = b) ∧
        (dropLast = false → (batches r).flatten.length = n ⌈/⌉ R)) ∧
      (dropLast = false → ∑ r ∈ Finset.range R, ((batches r).flatten : Multiset Nat) =
        Multiset.range n + Multiset.range (R * (n ⌈/⌉ R) - n)) := by
  let split (r : Nat) : Split := { length := n, replicas := R, rank := r, batch := b }
  have hpad : ∀ r, (split r).total - (split r).length ≤ (split r).length := by
    intro r
    rw [Nat.mul_comm] at hpadding
    exact hpadding
  refine ⟨fun r => distributed (split r) false dropLast (.int 0), fun r => Batch.batches b dropLast (split r).mine,
    fun r hr => ⟨makeDistributed_eq hdata hb hR dropLast, ?_, ?_, ?_, ?_⟩, ?_⟩
  · exact read_distributed (Split.indices_eq (s := split r) hb hr (hpad r)) dropLast _
  · have hcount := Batch.length_batches hb dropLast (split r).mine
    rw [Split.length_mine (s := split r) hb hr (hpad r)] at hcount
    exact congrArg (fun k : Nat => Except.ok (k : Int)) hcount.symm
  · exact Batch.length_of_mem_dropLast_group b dropLast _ []
  · rintro rfl
    rw [Batch.flatten_batches]
    exact Split.length_mine (s := split r) hb hr (hpad r)
  · rintro rfl
    simp only [Batch.flatten_batches]
    rw [Nat.mul_comm R]
    exact Split.sum_mine (s := split 0) hb hR (hpad 0)

theorem distributed_splits_epoch_seven : ∃ (samplers : Nat → Sampler) (batches : Nat → List (List Nat)),
    (∀ r : Nat, r < 3 →
      makeDistributed (.indexed (replicate 7 .null)) (.int 2) (.int 3) (.int r) (.bool false) (.bool false) =
        .ok (samplers r) ∧ read (samplers r) = (samplers r, .ok ((batches r).map fun xs => .list (positions xs))) ∧
      (batches r).flatten.length = 3) ∧
    ∑ r ∈ Finset.range 3, ((batches r).flatten : Multiset Nat) = Multiset.range 7 + Multiset.range 2 := by
  have hdata : (Dataset.indexed (replicate 7 .null)).length = .ok 7 := rfl
  obtain ⟨samplers, batches, hranks, hsum⟩ :=
    distributed_splits_epoch hdata Nat.two_pos (show 0 < 3 by decide) (by decide) false
  refine ⟨samplers, batches, fun r hr => ?_, hsum rfl⟩
  obtain ⟨hmake, hread, -, -, hlength⟩ := hranks r hr
  exact ⟨hmake, hread, hlength rfl⟩

/-! ## 6. Small datasets -/

theorem read_of_lt {s : Split} (h : 2 * s.length < s.total) (shuffle dropLast : Bool) (epoch : Value) :
    read (distributed s shuffle dropLast epoch) =
      (distributed s shuffle dropLast epoch, .error (.fault .assertion)) := by
  rw [read, Split.indices_of_lt h]

/-- **A replica can be read unless there are more than twice as many replicas as items.**  Every sampler can be made.
Reading it gives batches if the dataset is empty or has at least half as many items as there are replicas; if it has
fewer, an assertion fails, whichever replica is read and however large its batches are. -/
theorem distributed_reads_iff {data : Dataset} {n b R r : Nat} (hdata : data.length = .ok n) (hb : 0 < b) (hr : r < R)
    (dropLast : Bool) :
    ∃ sampler, makeDistributed data (.int b) (.int R) (.int r) (.bool false) (.bool dropLast) = .ok sampler ∧
      ((∃ batches, read sampler = (sampler, .ok batches)) ↔ n = 0 ∨ R ≤ 2 * n) ∧
      (read sampler = (sampler, .error (.fault .assertion)) ↔ n ≠ 0 ∧ 2 * n < R) := by
  have hR : 0 < R := Nat.zero_lt_of_lt hr
  let split : Split := { length := n, replicas := R, rank := r, batch := b }
  have hfilling : split.total - n ≤ n ↔ n = 0 ∨ R ≤ 2 * n := Split.filling_le_iff hR
  refine ⟨_, makeDistributed_eq hdata hb hR dropLast, ?_⟩
  by_cases hpad : split.total - n ≤ n
  · have hread := read_distributed (Split.indices_eq (s := split) hb hr hpad) dropLast (.int 0)
    have hmany := hfilling.mp hpad
    constructor
    · exact ⟨fun _ => hmany, fun _ => ⟨_, hread⟩⟩
    · rw [hread]
      constructor
      · intro herror
        cases herror
      · intro hfew
        omega
  · have hread := read_of_lt (s := split) (by omega : 2 * n < split.total) false dropLast (.int 0)
    have hfew : ¬(n = 0 ∨ R ≤ 2 * n) := fun h => hpad (hfilling.mpr h)
    constructor
    · rw [hread]
      constructor
      · rintro ⟨batches, hbatches⟩
        cases hbatches
      · intro hmany
        exact absurd hmany hfew
    · exact ⟨fun _ => by omega, fun _ => hread⟩

theorem distributed_reads_iff_one_of_three :
    ∃ sampler, makeDistributed (.indexed [.null]) (.int 1) (.int 3) (.int 0) (.bool false) (.bool false) = .ok sampler ∧
      read sampler = (sampler, .error (.fault .assertion)) := by
  have hdata : (Dataset.indexed [.null]).length = .ok 1 := rfl
  obtain ⟨sampler, hmake, -, hread⟩ := distributed_reads_iff hdata Nat.one_pos (show 0 < 3 by decide) false
  exact ⟨sampler, hmake, hread.mpr (by decide)⟩

end TensorKit.Sampler
