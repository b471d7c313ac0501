import TensorKit.Proofs.Distributed.CommunicationGroups
import TensorKit.Proofs.Distributed.Tiling
/-!
# All coordinates of a process are the same

The coordinates of a process are found in four ways: by dividing its number from the slowest axis on
(`Block.processIndex`), by one quotient and one remainder for each axis (`Coordinate.position`), by looking them up in a
list (`Topology.coordinate`), and, the other way round, as the sum that their number is (`Coordinate.linear`).  Each is
`Tensor.position` or its inverse, so they agree on every mesh that has an axis.

Two functions read a block off these coordinates, one as spans and one as offsets and sizes.  For entries that are mesh
axes they agree whether or not the mesh divides the tensor, and also in how they fail: an axis without an entry is an
error of both.
-/

namespace TensorKit.Distributed

open Position Tensor List Int

variable {mesh : List Nat} {mapping : List Int}

/-! ## 1. Axes without an entry -/

theorem IsEntry.exists_pick {α : Type} {m : Int} (h : IsEntry mesh m) (hm : m ≠ Mapping.replicated) (xs : List α)
    (hlen : xs.length = mesh.length) : ∃ x ∈ xs, pick xs m = .ok x := by
  rcases h with hrep | ⟨j, hj, rfl⟩
  · exact absurd hrep hm
  · have hjx : j < xs.length := hlen ▸ hj
    exact ⟨xs[j], getElem_mem hjx, pick_natCast (getElem?_eq_getElem hjx)⟩

/-- A mesh axis of positive size divides every size, with or without a remainder. -/
theorem IsEntry.exists_onAxis {m : Int} (h : IsEntry mesh m) (hmesh : ∀ d ∈ mesh, 0 < d) (n : Int) :
    ∃ a, Mapping.onAxis id floorDiv (mesh.map ofNat) n m = .ok a := by
  by_cases hm : m = Mapping.replicated
  · exact ⟨n, if_pos hm⟩
  · obtain ⟨d, hd, hpick⟩ := h.exists_pick hm (mesh.map ofNat) (by simp)
    obtain ⟨e, he, rfl⟩ := mem_map.mp hd
    have hzero : ofNat e ≠ 0 := by
      have := hmesh e he
      simp only [ofNat_eq_natCast]
      omega
    exact ⟨_, by rw [Mapping.onAxis, if_neg hm, hpick]; exact if_neg hzero⟩

section eachAxis

variable {α : Type} {whole : Int → α} {split : Int → Int → Fallible α} {xs : List Int}

theorem Mapping.eachAxis_of_lt : ∀ {ns mapping},
    (∀ n, ∀ m ∈ mapping, ∃ a, onAxis whole split xs n m = .ok a) → mapping.length < ns.length →
    eachAxis whole split xs ns mapping = .error .index
  | _ :: _, [], _, _ => rfl
  | n :: ns, m :: ms, h, hlt => by
    obtain ⟨a, ha⟩ := h n m mem_cons_self
    rw [eachAxis, ha, eachAxis_of_lt (fun n m hm => h n m (mem_cons_of_mem _ hm)) (Nat.lt_of_succ_lt_succ hlt)]
    rfl

theorem Mapping.exists_eachAxis : ∀ {ns mapping},
    (∀ n, ∀ m ∈ mapping, ∃ a, onAxis whole split xs n m = .ok a) → ns.length ≤ mapping.length →
    ∃ as, eachAxis whole split xs ns mapping = .ok as ∧ as.length = ns.length
  | [], _, _, _ => ⟨[], rfl, rfl⟩
  | n :: ns, m :: ms, h, hle => by
    obtain ⟨a, ha⟩ := h n m mem_cons_self
    obtain ⟨as, has, hlen⟩ := exists_eachAxis (fun n m hm => h n m (mem_cons_of_mem _ hm)) (Nat.le_of_succ_le_succ hle)
    exact ⟨a :: as, by rw [eachAxis, ha, has]; rfl, congrArg Nat.succ hlen⟩

end eachAxis

theorem LocalShard.exists_sizesOf (hmap : IsMapping mesh mapping) (sizes : List Int) :
    ∃ part, sizesOf (mesh.map ofNat) sizes mapping = .ok part ∧ part.length = sizes.length := by
  obtain ⟨part, hpart, hlen⟩ := @Mapping.exists_eachAxis _ _ _ _ (sizes.take mapping.length) _
    (fun n m hm => (hmap.entries m hm).exists_onAxis hmap.mesh_pos n) (length_take_le _ _)
  refine ⟨part ++ sizes.drop mapping.length, by simp only [sizesOf, hpart]; rfl, ?_⟩
  rw [length_append, hlen, ← length_append, take_append_drop]

theorem ofProcess_of_lt (hmap : IsMapping mesh mapping) {sizes : List Nat} (hlt : mapping.length < sizes.length) (p : Int) (group : List Int) :
    Block.ofProcess p (sizes.map ofNat) mapping (mesh.map ofNat) group = .error (.fault .index) := by
  have hpart : Block.partShape (sizes.map ofNat) mapping (mesh.map ofNat) = .error .index :=
    Mapping.eachAxis_of_lt (fun n m hm => (hmap.entries m hm).exists_onAxis hmap.mesh_pos n) (by simpa using hlt)
  rw [Block.ofProcess, hpart]
  rfl

/-- Without an entry for each axis a process has no part either. -/
theorem LocalShard.localShard_of_lt (hmap : IsMapping mesh mapping) {sizes : List Nat}
    (hlt : mapping.length < sizes.length) {group : List Int} {i : Int} {processes rank : Value}
    (hgroup : wholes? 0 processes = some group) (hrank : rank.int? = some i) (hi : 0 ≤ i) {k : Nat}
    (hk : group.idxOf? i = some k) (hkv : k < volume mesh) :
    localShard (toValue (sizes.map ofNat)) (toValue mapping) (toValue (mesh.map ofNat)) processes rank none
      = .error (.coordinate (.fault .index)) := by
  have hcheck := check_natCast sizes hmap hgroup hrank hi
  obtain ⟨part, hpart, hlen⟩ := exists_sizesOf hmap (sizes.map ofNat)
  have hshort : mapping.length < part.length := by rw [hlen, length_map]; exact hlt
  have hoffsets : offsetsOf ((position mesh k).map ofNat) part mapping = .error .index := by
    refine Mapping.eachAxis_of_lt (fun n m hm => ?_) hshort
    by_cases hrep : m = Mapping.replicated
    · exact ⟨0, if_pos hrep⟩
    · obtain ⟨c, -, hpick⟩ := (hmap.entries m hm).exists_pick hrep ((position mesh k).map ofNat) (by simp [length_position])
      exact ⟨c * n, by rw [Mapping.onAxis, if_neg hrep, hpick]; rfl⟩
  simp [localShard, shard, offsets, hcheck, hpart, rankOf, hrank, find, hk, Coordinate.position_natCast hkv,
    hoffsets, liftM, monadLift, MonadLift.monadLift, Except.mapError]
  rfl

/-! ## 2. Agreement -/

/-- **All coordinates of a process are the same.**  Let a mesh have at least one axis, axes of positive sizes, and a
process for each of its places, all distinct.  The process with the number `k` then has coordinates which

* are those that are found by dividing from the slowest axis on, and axis by axis from the number;
* are those of the rank `k` in every topology with these sizes, which can be made from any names with distinct normal forms;
* have the number `k`.

If no process is below zero, both computations of its part agree, for a tensor of any sizes and a mapping of any length
whose entries are mesh axes or none; where an axis of the tensor has no entry, both fail with kind `index`. -/
theorem coordinates_agree (hmesh : ∀ d ∈ mesh, 0 < d) (hne : mesh ≠ []) {group : List Int} (hnd : group.Nodup)
    (hcount : group.length = volume mesh) {k : Nat} {p : Int} (hk : group[k]? = some p) : ∃ cs : List Nat,
      Block.processIndex p group (mesh.map Int.ofNat) = .ok (cs.map Int.ofNat) ∧
      Coordinate.position (mesh.map Int.ofNat) k = .ok (cs.map Int.ofNat) ∧
      (∀ (naming : Naming) (names : List String), names.length = mesh.length → (names.map naming.normal).Nodup →
        (∀ n ∈ names, naming.isName n = true) →
        ∃ t, Topology.make names (mesh.map Int.ofNat) naming = .ok t ∧ t.coordinate k = .ok cs) ∧
      Coordinate.linear (mesh.map Int.ofNat) (cs.map Int.ofNat) = .ok (k : Int) ∧
      ((∀ q ∈ group, 0 ≤ q) → ∀ (sizes : List Nat) (mapping : List Int), (∀ m ∈ mapping, IsEntry mesh m) →
        (sizes.length ≤ mapping.length → ∃ block,
          Block.ofProcess p (sizes.map Int.ofNat) mapping (mesh.map Int.ofNat) group = .ok block ∧
          LocalShard.localShard (toValue (sizes.map Int.ofNat)) (toValue mapping) (toValue (mesh.map Int.ofNat))
            (toValue group) (.int p) none = .ok (block.map fun s => (s.lo, s.hi))) ∧ (mapping.length < sizes.length →
          (∃ e, Block.ofProcess p (sizes.map Int.ofNat) mapping (mesh.map Int.ofNat) group = .error e ∧
            e.kind = .index) ∧
          ∃ e, LocalShard.localShard (toValue (sizes.map Int.ofNat)) (toValue mapping) (toValue (mesh.map Int.ofNat))
            (toValue group) (.int p) none = .error e ∧ e.kind = .index)) := by
  have hlt : k < volume mesh := hcount ▸ (List.getElem?_eq_some_iff.mp hk).1
  have hidx := idxOf?_of_getElem? hnd hk
  refine ⟨position mesh k, processIndex_eq hmesh hne hidx, Coordinate.position_natCast hlt, ?_, ?_, ?_⟩
  · intro naming names hlen hdistinct hvalid
    have hwell : Topology.WellFormed ⟨names, mesh.map Int.ofNat, naming⟩ := by
      refine ⟨?_, hdistinct, by simpa using hlen, ?_⟩
      · rintro rfl
        exact hne (length_eq_zero_iff.mp hlen.symm)
      · intro d hd
        obtain ⟨n, hn, rfl⟩ := mem_map.mp hd
        exact Int.natCast_pos.mpr (hmesh n hn)
    have hext : Topology.extents ⟨names, mesh.map Int.ofNat, naming⟩ = mesh := by
      simp [Topology.extents, Function.comp_def]
    have hcoord := Topology.coordinate_of_lt hwell (r := k) (by rwa [hext])
    rw [hext] at hcoord
    exact ⟨_, hwell.make_eq hvalid, hcoord⟩
  · rw [Coordinate.linear_natCast hne (position_mem_positions hlt), linear_position hlt]
  · intro hnonneg sizes mapping hentries
    have hmap : IsMapping mesh mapping := ⟨hmesh, hentries⟩
    have hgroup : LocalShard.wholes? 0 (toValue group) = some group :=
      LocalShard.wholes?_map fun q hq => ⟨rfl, hnonneg q hq⟩
    have hp : 0 ≤ p := hnonneg p (mem_of_getElem? hk)
    constructor
    · intro hlen
      exact ⟨_, ofProcess_eq hmap hne hlen hidx,
        LocalShard.localShard_natCast hmap hlen hgroup rfl hp hidx hlt⟩
    · intro hshort
      exact ⟨⟨_, ofProcess_of_lt hmap hshort p group, rfl⟩,
        _, LocalShard.localShard_of_lt hmap hshort hgroup rfl hp hidx hlt, rfl⟩

/-- The fifth of six processes in two rows, with a tensor that the mesh does not divide and two of whose axes have the
same mesh axis. -/
theorem coordinates_agree_two_rows : Block.processIndex 3 [4, 2, 0, 1, 3, 5] [2, 3] = .ok [1, 1] ∧
    Coordinate.linear [2, 3] [1, 1] = .ok 4 ∧
    (∃ t, Topology.make ["data", "model"] [2, 3] = .ok t ∧ t.coordinate 4 = .ok [1, 1]) ∧
    LocalShard.localShard (toValue [(5 : Int), 7, 4]) (toValue [(1 : Int), 0, 1]) (toValue [(2 : Int), 3])
      (toValue [(4 : Int), 2, 0, 1, 3, 5]) (.int 3) none = .ok [(1, 2), (3, 6), (1, 2)] := by
  have hindex : Block.processIndex 3 [4, 2, 0, 1, 3, 5] [2, 3] = .ok [1, 1] := rfl
  have hblock : Block.ofProcess 3 [5, 7, 4] [1, 0, 1] [2, 3] [4, 2, 0, 1, 3, 5]
      = .ok [⟨1, 2⟩, ⟨3, 6⟩, ⟨1, 2⟩] := rfl
  have hpositive : ∀ d ∈ [2, 3], 0 < d := by decide
  have hdistinct : ([4, 2, 0, 1, 3, 5] : List Int).Nodup := by decide
  obtain ⟨cs, hcs, -, htopology, hlinear, hparts⟩ :=
    coordinates_agree (k := 4) (p := 3) hpositive (by decide) hdistinct rfl rfl
  obtain rfl : [1, 1] = cs :=
    map_injective_iff.mpr Int.ofNat_injective (Except.ok.inj (hindex.symm.trans hcs))
  obtain ⟨block, hok, hlocal⟩ := (hparts (by decide) [5, 7, 4] [1, 0, 1] (by decide)).1 (by decide)
  obtain rfl : [⟨1, 2⟩, ⟨3, 6⟩, ⟨1, 2⟩] = block := Except.ok.inj (hblock.symm.trans hok)
  exact ⟨hindex, hlinear, htopology .usual ["data", "model"] rfl (by decide) (by decide), hlocal⟩

/-- Without an axis there is one process, with the number 0 and no coordinates, but three of the four ways fail.  A
process below zero has a block, but no part. -/
theorem coordinates_disagree : Coordinate.position [] 0 = .ok [] ∧ Block.processIndex 3 [3] [] = .error (.fault .type) ∧
    Topology.make [] [] = .error .type ∧ Coordinate.linear [] [] = .error (.fault .index) ∧
    Block.processIndex (-1) [-1] [1] = .ok [0] ∧ Block.ofProcess (-1) [4] [0] [1] [-1] = .ok [⟨0, 4⟩] ∧
    LocalShard.localShard (toValue [(4 : Int)]) (toValue [(0 : Int)]) (toValue [(1 : Int)]) (toValue [(-1 : Int)])
      (.int (-1)) none = .error (.processes (toValue [(-1 : Int)])) :=
  ⟨rfl, rfl, rfl, rfl, rfl, rfl, rfl⟩

end TensorKit.Distributed
