import TensorKit.Distributed.Coordinate
import TensorKit.Proofs.Distributed.EvenSplitting
/-!
# Coordinates and rows of a mesh

On a mesh of natural sizes the functions on coordinates are those on positions in row-major order (`digits_natCast`,
`number_natCast`), which are inverse to each other (`position_linear`, `linear_position`).

A ROW of a mesh are the positions that differ on one axis only.  Around the axis the mesh is `pre ++ d :: post`, and
`row pre d post x y` lists the numbers of the `d` positions with the coordinates `x` before and `y` after the axis.
**The rows of an axis have every number once** (`flatten_rows_perm`), and the communication group of a process is its
row (`group_eq_row`).
-/

namespace TensorKit

open List Nat

variable {ns is pre post x y mesh : List Nat} {k d i : Nat}

/-! ## 1. Positions and their numbers -/

namespace Tensor

theorem linear_position : ∀ {ns k}, k < volume ns → linear ns (position ns k) = k
  | [], k, h => by
    simp only [volume] at h
    simp only [linear]
    omega
  | n :: ns, k, h => by
    have hpos : 0 < volume ns := by
      refine pos_of_ne_zero fun hzero => ?_
      simp [volume, hzero] at h
    rw [position, linear, linear_position (mod_lt k hpos), mul_comm]
    exact div_add_mod k (volume ns)

theorem map_linear_positions (ns : List Nat) : (positions ns).map (linear ns) = range (volume ns) := by
  rw [← map_position_range, map_map]
  refine (map_congr_left fun k hk => ?_).trans (map_id _)
  exact linear_position (mem_range.mp hk)

theorem nodup_positions (ns : List Nat) : (positions ns).Nodup := by
  refine Nodup.of_map (linear ns) ?_
  rw [map_linear_positions]
  exact nodup_range

theorem position_mem_positions (h : k < volume ns) : position ns k ∈ positions ns := by
  rw [← map_position_range]
  exact mem_map_of_mem (mem_range.mpr h)

theorem getElem?_positions (h : k < volume ns) :
    (positions ns)[k]? = some (position ns k) := by
  rw [← map_position_range, getElem?_map, getElem?_range h, Option.map_some]

theorem positions_append (post : List Nat) : ∀ pre : List Nat,
    positions (pre ++ post) = (positions pre).flatMap fun x => (positions post).map (x ++ ·)
  | [] => by simp [positions]
  | n :: pre => by
    rw [cons_append, positions, positions, flatMap_assoc]
    refine flatMap_congr fun i _ => ?_
    rw [positions_append post pre, map_flatMap, flatMap_map]
    simp [Function.comp_def]

theorem exists_around_axis (h : is ∈ positions (pre ++ d :: post)) :
    ∃ x ∈ positions pre, ∃ i < d, ∃ y ∈ positions post, is = x ++ i :: y := by
  rw [positions_append, mem_flatMap] at h
  obtain ⟨x, hx, h⟩ := h
  simp only [positions, mem_map, mem_flatMap, mem_range] at h
  obtain ⟨-, ⟨i, hi, y, hy, rfl⟩, rfl⟩ := h
  exact ⟨x, hx, i, hi, y, hy, rfl⟩

theorem around_axis_mem_positions (hx : x ∈ positions pre) (hi : i < d)
    (hy : y ∈ positions post) : x ++ i :: y ∈ positions (pre ++ d :: post) := by
  exact mem_positions.mpr (rel_append (mem_positions.mp hx) (.cons hi (mem_positions.mp hy)))

theorem linear_append : ∀ {pre x}, x.length = pre.length →
    linear (pre ++ post) (x ++ y) = linear pre x * volume post + linear post y
  | [], [], _ => by simp [linear]
  | n :: pre, i :: x, h => by
    rw [cons_append, cons_append, linear, linear, linear_append (succ.inj h), volume_append]
    ring

/-! ## 2. Rows -/

/-- The numbers of the positions that have the coordinates `x` before an axis of length `d` and `y` after it. -/
def row (pre : List Nat) (d : Nat) (post x y : List Nat) : List Nat :=
  (range d).map fun i => linear (pre ++ d :: post) (x ++ i :: y)

def rows (pre : List Nat) (d : Nat) (post : List Nat) : List (List Nat) :=
  (positions pre).flatMap fun x => (positions post).map fun y => row pre d post x y

@[simp] theorem length_row : (row pre d post x y).length = d := by simp [row]

theorem mem_rows {g : List Nat} :
    g ∈ rows pre d post ↔ ∃ x ∈ positions pre, ∃ y ∈ positions post, row pre d post x y = g := by
  simp [rows]

theorem linear_around_axis (hx : x.length = pre.length) (i : Nat) :
    linear (pre ++ d :: post) (x ++ i :: y) = linear pre x * (d * volume post) + (i * volume post + linear post y) := by
  rw [linear_append hx, volume, linear]

theorem pairwise_row (hx : x.length = pre.length) (hpost : 0 < volume post) :
    (row pre d post x y).Pairwise (· < ·) := by
  rw [row, pairwise_map]
  refine pairwise_lt_range.imp fun {i j} hij => ?_
  rw [linear_around_axis hx, linear_around_axis hx]
  have hlt := mul_lt_mul_of_pos_right hij hpost
  omega

/-- Two choices in either order give the same results, up to their order. -/
theorem flatMap_map_comm_perm {α β γ : Type} (f : α → β → γ) (bs : List β) : ∀ as : List α,
    (as.flatMap fun a => bs.map (f a)).Perm (bs.flatMap fun b => as.map fun a => f a b)
  | [] => by simp
  | a :: as => by
    rw [flatMap_cons]
    refine ((flatMap_map_comm_perm f bs as).append_left _).trans ?_
    exact map_append_flatMap_perm bs (f a) fun b => as.map fun a => f a b

/-- **The rows of an axis have every number once.** -/
theorem flatten_rows_perm (pre : List Nat) (d : Nat) (post : List Nat) :
    (rows pre d post).flatten.Perm (range (volume (pre ++ d :: post))) := by
  rw [rows, ← flatMap_id, flatMap_assoc, ← map_linear_positions, positions_append, map_flatMap]
  refine Perm.flatMap_left _ fun x _ => ?_
  rw [flatMap_map, map_map, positions, map_flatMap]
  simp only [map_map]
  exact (flatMap_map_comm_perm (fun i y => linear (pre ++ d :: post) (x ++ i :: y)) (positions post)
    (range d)).symm

theorem map_position_row (hx : x ∈ positions pre) (hy : y ∈ positions post) :
    (row pre d post x y).map (position (pre ++ d :: post)) = (range d).map fun i => x ++ i :: y := by
  rw [row, map_map]
  refine map_congr_left fun i hi => ?_
  exact position_linear (around_axis_mem_positions hx (mem_range.mp hi) hy)

end Tensor

/-! ## 3. Coordinates on a mesh of natural sizes -/

namespace Distributed.Coordinate

open Position Tensor

theorem digits_natCast : ∀ (mesh : List Nat) (n : Nat),
    digits (mesh.map Int.ofNat) (n : Int) = (Tensor.position mesh (n % volume mesh)).map Int.ofNat
  | [], _ => rfl
  | d :: mesh, n => by
    have ih := digits_natCast mesh n
    have hdigit : n % (d * volume mesh) / volume mesh = n / volume mesh % d := by rw [mul_comm, mod_mul_right_div_self]
    have hleft : n % (d * volume mesh) % volume mesh = n % volume mesh := mod_mul_left_mod n d (volume mesh)
    simp only [map_cons, digits, product_natCast, volume, Tensor.position, ih, hdigit, hleft]
    simp

theorem position_natCast (hk : k < volume mesh) :
    position (mesh.map Int.ofNat) (k : Int) = .ok ((Tensor.position mesh k).map Int.ofNat) := by
  rw [position, if_neg (by omega), if_neg (by rw [product_natCast]; omega), digits_natCast, mod_eq_of_lt hk]

theorem number_natCast : ∀ mesh cs,
    number (mesh.map Int.ofNat) (cs.map Int.ofNat) = (Tensor.linear mesh cs : Nat)
  | [], _ => rfl
  | _ :: _, [] => rfl
  | d :: mesh, i :: cs => by
    simp only [map_cons, number, Tensor.linear, product_natCast, number_natCast mesh cs, Int.ofNat_eq_natCast]
    push_cast
    rfl

theorem checkFrom_natCast {shape coordinate : List Int} : ∀ {mesh cs} (axis : Nat),
    Forall₂ (· < ·) cs mesh → checkFrom shape coordinate axis (mesh.map Int.ofNat) (cs.map Int.ofNat) = .ok ()
  | [], [], _, _ => rfl
  | d :: mesh, i :: cs, axis, .cons hi hr => by
    simp only [map_cons, checkFrom, Int.ofNat_eq_natCast]
    rw [if_neg (by omega), if_neg (by omega), checkFrom_natCast (axis + 1) hr]

theorem linear_natCast {cs : List Nat} (hne : mesh ≠ []) (h : cs ∈ positions mesh) :
    linear (mesh.map Int.ofNat) (cs.map Int.ofNat) = .ok (Tensor.linear mesh cs : Nat) := by
  have hlen : ¬ (mesh.map Int.ofNat).length ≠ (cs.map Int.ofNat).length := by simp [length_of_mem_positions h]
  have hemp : ¬ (mesh.map Int.ofNat).isEmpty := by simpa using hne
  simp only [linear, if_neg hlen, checkFrom_natCast 0 (mem_positions.mp h), if_neg hemp, number_natCast, ok_bind, pure_eq_ok]

/-- The coordinates of a row, one after the other put in the place of those of one of its members, have the numbers
of the row. -/
theorem mapM_linear_put (hx : x ∈ positions pre) (hy : y ∈ positions post) :
    ((List.range d).mapM fun (j : Nat) => show Except Error Int from do
        linear ((pre ++ d :: post).map Int.ofNat) (← put ((x ++ i :: y).map Int.ofNat) (pre.length : Int) (j : Int)))
      = .ok ((row pre d post x y).map Int.ofNat) := by
  have hxlen := length_of_mem_positions hx
  rw [row, map_map]
  refine mapM_eq_ok fun j hj => ?_
  have hput : put ((x ++ i :: y).map Int.ofNat) (pre.length : Int) (j : Int) = .ok ((x ++ j :: y).map Int.ofNat) := by
    rw [put_natCast (by simp [hxlen]), ← hxlen]
    simp
  rw [hput]
  exact linear_natCast (by simp) (around_axis_mem_positions hx (mem_range.mp hj) hy)

/-- **The communication group of a process is its row**, where the processes are numbered from zero on. -/
theorem group_eq_row (hx : x ∈ positions pre) (hi : i < d) (hy : y ∈ positions post) :
    group ((List.range (volume (pre ++ d :: post))).map Int.ofNat) ((pre ++ d :: post).map Int.ofNat) pre.length
        (Tensor.linear (pre ++ d :: post) (x ++ i :: y) : Nat) = .ok ((row pre d post x y).map Int.ofNat) := by
  have hmem := around_axis_mem_positions hx hi hy
  have hlt := linear_lt (mem_positions.mp hmem)
  -- every process stands at its own number
  have hstands : ∀ k < volume (pre ++ d :: post),
      ((List.range (volume (pre ++ d :: post))).map Int.ofNat)[k]? = some (k : Int) := by
    intro k hk
    simp [getElem?_range hk]
  have hnd : ((List.range (volume (pre ++ d :: post))).map Int.ofNat).Nodup := nodup_range.map Int.ofNat_injective
  have hin := contains_iff_mem.mpr (mem_of_getElem? (hstands _ hlt))
  have hfind := idxOf?_of_getElem? hnd (hstands _ hlt)
  have hextent : pick ((pre ++ d :: post).map Int.ofNat) (pre.length : Int) = .ok (d : Int) := pick_natCast (by simp)
  have hrow := pairwise_row (d := d) (y := y) (length_of_mem_positions hx) (zero_lt_of_lt (linear_lt (mem_positions.mp hy)))
  have hmembers : (((row pre d post x y).map Int.ofNat).mapM fun n => show Except Error Int from do
        return ← pick ((List.range (volume (pre ++ d :: post))).map Int.ofNat) n)
      = .ok ((row pre d post x y).map Int.ofNat) := by
    refine (mapM_eq_ok fun n hn => ?_).trans (by rw [map_id])
    obtain ⟨k, hk, rfl⟩ := mem_map.mp hn
    obtain ⟨j, hj, rfl⟩ := mem_map.mp hk
    have hjlt := linear_lt (mem_positions.mp (around_axis_mem_positions hx (mem_range.mp hj) hy))
    rw [Int.ofNat_eq_natCast, pick_natCast (hstands _ hjlt)]
    rfl
  have hsorted : sorted ((row pre d post x y).map Int.ofNat) = (row pre d post x y).map Int.ofNat := by
    refine sorted_eq_of_mem_iff ?_ ?_ fun _ => Iff.rfl
    · exact List.Nodup.map Int.ofNat_injective (hrow.imp fun h => ne_of_lt h)
    · exact pairwise_map.mpr (hrow.imp fun h => by simpa using h)
  have hnumbers := mapM_linear_put (i := i) (d := d) hx hy
  simp only [group, hin, hfind, find, demand_some, position_natCast hlt, position_linear hmem, hextent, liftM_ok, ok_bind,
    Int.toNat_natCast, hnumbers, hmembers, hsorted]
  rfl

end Distributed.Coordinate

end TensorKit
