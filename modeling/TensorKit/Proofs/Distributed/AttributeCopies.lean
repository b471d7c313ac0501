import Mathlib.Data.List.Nodup
import TensorKit.Distributed.Attribute
import TensorKit.Proofs.Traversal
/-!
# Copies of the attribute of an operator

A fresh attribute takes over another one: the tensors with their names, the marks, and four fields, but not the type of
the operator.  Then it puts the mesh that the operator and its tensors share on all of them.  So a copy is the original
without its type and with its mesh everywhere (`init_eq`), and it is equal to the original exactly if that changes
nothing (`init_same_iff`).  For this no table may have a name twice, which every setter keeps (`Keyed.apply`).
-/

namespace TensorKit.Distributed

open Attribute List Table

/-! ## 1. Setters -/

namespace OperatorAttribute

/-- A call that sets something of the attribute of an operator. -/
inductive Setter where
  | field (name : String) (v : Argument)
  | tensor (isInput : Bool) (name : String) (v : Argument)
  | mapping (isInput : Bool) (name : String) (v : Argument)
  | mark (name : String)

/-- What a call leaves; a call that fails changes nothing. -/
def Setter.apply (o : Argument) : Setter → Argument
  | field name v => (o.set name v).toOption.getD o
  | tensor isInput name v => (o.changeTensors isInput (setTensor name v)).1
  | mapping isInput name v => (o.changeTensors isInput (setMapping name v)).1
  | mark name => (o.mark name).1

def built (calls : List Setter) : Argument := calls.foldl Setter.apply (.operator {})

/-- No table has a name twice. -/
structure Keyed (a : OperatorAttribute) : Prop where
  inputs : (Table.keys a.inputs).Nodup
  outputs : (Table.keys a.outputs).Nodup

variable {a a' b : OperatorAttribute} {t : Tensors} (m : ProcessMesh)

theorem keys_map (t : Tensors) (f : TensorAttribute → TensorAttribute) :
    keys (t.map fun p => (p.1, f p.2)) = keys t := by
  rw [Table.keys, map_map]
  rfl

theorem Keyed.mapTensors (h : a.Keyed) (f : TensorAttribute → TensorAttribute) : (a.mapTensors f).Keyed :=
  ⟨(keys_map a.inputs f).symm ▸ h.inputs, (keys_map a.outputs f).symm ▸ h.outputs⟩

theorem Keyed.setMesh (h : a.Keyed) (m : ProcessMesh) : (a.setMesh m).Keyed := by
  have hplaced : Keyed { a with mesh := some m } := ⟨h.inputs, h.outputs⟩
  rw [OperatorAttribute.setMesh]
  split
  · exact hplaced
  · exact hplaced.mapTensors _

theorem set_cases {name : String} {v : Argument} (h : a.set name v = .ok a') :
    (name = "process_mesh" ∧ ∃ m?, meshOf v = .ok m? ∧ a' = m?.elim a a.setMesh) ∨
      name ≠ "process_mesh" ∧ (name ≠ "op_type" → a'.type = a.type) ∧ a'.mesh = a.mesh ∧ a'.inputs = a.inputs ∧
        a'.outputs = a.outputs := by
  unfold OperatorAttribute.set at h
  split at h
  · obtain ⟨m?, hm, rfl⟩ := exists_of_map_eq_ok h
    exact .inl ⟨rfl, m?, hm, by cases m? <;> rfl⟩
  · cases h
    exact .inr ⟨by decide, fun hne => absurd rfl hne, rfl, rfl, rfl⟩
  · cases h
    exact .inr ⟨by decide, fun _ => rfl, rfl, rfl, rfl⟩
  · cases h
    exact .inr ⟨by decide, fun _ => rfl, rfl, rfl, rfl⟩
  · split at h
    · cases h
      exact .inr ⟨by decide, fun _ => rfl, rfl, rfl, rfl⟩
    · cases h
  · cases h
  · cases h
  · cases h
    exact .inr ⟨‹_›, fun _ => rfl, rfl, rfl, rfl⟩

theorem Keyed.set (h : a.Keyed) {name : String} {v : Argument} (hset : a.set name v = .ok a') : a'.Keyed := by
  obtain ⟨-, m?, -, rfl⟩ | ⟨-, -, -, hins, houts⟩ := set_cases hset
  · cases m? with
    | none => exact h
    | some m => exact h.setMesh m
  · exact ⟨hins ▸ h.inputs, houts ▸ h.outputs⟩

/-- Changing the inputs, or the outputs, by something that puts a tensor under a name. -/
theorem Keyed.changeTensors (h : a.Keyed) (isInput : Bool) (name : String)
    (x? : Tensors → Except Error TensorAttribute) :
    ∃ a', (Argument.changeTensors isInput (fun t => (x? t).map (Table.set name · t)) (.operator a)).1 = .operator a' ∧
      a'.Keyed := by
  rw [Argument.changeTensors]
  cases ht : (x? (if isInput then a.inputs else a.outputs)).map _ with
  | error e => exact ⟨a, rfl, h⟩
  | ok t =>
    obtain ⟨x, -, rfl⟩ := exists_of_map_eq_ok ht
    cases isInput with
    | true => exact ⟨_, rfl, Table.nodup_keys_set h.inputs name x, h.outputs⟩
    | false => exact ⟨_, rfl, h.inputs, Table.nodup_keys_set h.outputs name x⟩

theorem Keyed.mark (h : a.Keyed) (name : String) : (a.mark name).Keyed := by
  have hmarked : Keyed { a with annotated := addName name a.annotated } := ⟨h.inputs, h.outputs⟩
  rw [OperatorAttribute.mark]
  split
  · exact hmarked.mapTensors _
  · exact hmarked

/-- **Step lemma of setters.** -/
theorem Keyed.apply (h : a.Keyed) (c : Setter) : ∃ a', c.apply (.operator a) = .operator a' ∧ a'.Keyed := by
  cases c with
  | field name v =>
    rw [Setter.apply, Argument.set]
    cases hset : a.set name v with
    | error e => exact ⟨a, rfl, h⟩
    | ok a' => exact ⟨a', rfl, h.set hset⟩
  | tensor isInput name v => exact h.changeTensors isInput name fun _ => TensorAttribute.ofArgument v
  | mapping isInput name v => exact h.changeTensors isInput name fun t => ((t.get? name).getD {}).set "dims_mapping" v
  | mark name => exact ⟨_, rfl, h.mark name⟩

/-- **Run lemma of setters.** -/
theorem Keyed.foldl : ∀ (calls : List Setter) {a : OperatorAttribute}, a.Keyed →
    ∃ b, calls.foldl Setter.apply (.operator a) = .operator b ∧ b.Keyed
  | [], a, h => ⟨a, rfl, h⟩
  | c :: calls, a, h => by
    obtain ⟨a', hc, ha'⟩ := h.apply c
    rw [foldl_cons, hc]
    exact Keyed.foldl calls ha'

theorem keyed_of_built {calls : List Setter} (h : built calls = .operator b) : b.Keyed := by
  obtain ⟨b', hb', hkeyed⟩ := Keyed.foldl calls (a := {}) ⟨nodup_nil, nodup_nil⟩
  obtain rfl := Argument.operator.inj (h.symm.trans hb')
  exact hkeyed

/-! ## 2. The copy -/

def OnOneMesh (a : OperatorAttribute) : Prop := ∀ m ∈ a.meshes, ∀ n ∈ a.meshes, m.same n

def onMesh (m? : Option ProcessMesh) (a : OperatorAttribute) : OperatorAttribute :=
  { a.mapTensors fun t => { t with mesh := m? } with mesh := m? }

theorem same_self : m.same m := by simp [ProcessMesh.same]

theorem onOneMesh_of_eq (h : ∀ n ∈ a.meshes, n = m) : a.OnOneMesh := by
  intro x hx y hy
  rw [h x hx, h y hy]
  exact same_self m

theorem kept_null (v : Value) : kept .null v = v := by cases v <;> rfl

theorem update_copies (h : (keys t).Nodup) :
    update [] (t.map fun (p : String × TensorAttribute) => (p.1, TensorAttribute.copy {} p.2)) = t := by
  have hmap : t.map (fun (p : String × TensorAttribute) => (p.1, TensorAttribute.copy {} p.2)) = t := by
    simp [TensorAttribute.copy, kept_null]
  rw [hmap]
  exact update_of_nodup h

theorem setMesh_eq (h : a.isLoop = false) (m : ProcessMesh) : a.setMesh m = a.onMesh (some m) := by
  have hplaced : isLoop { a with mesh := some m } = false := h
  rw [setMesh, onMesh]
  simp only [hplaced]
  rfl

theorem copy_of_mesh {v : Value} (hv : isLoop { type := v } = false) (hb : b.Keyed) {m : ProcessMesh}
    (hm : b.mesh = some m) : copy { type := v } b = { b with type := v }.onMesh (some m) := by
  have hloop : isLoop { type := v, annotated := b.annotated, inputs := b.inputs, outputs := b.outputs } = false := hv
  simp [copy, hm, update_copies hb.inputs, update_copies hb.outputs, setMesh_eq hloop, onMesh, mapTensors, kept_null]

theorem copy_of_none (v : Value) (hb : b.Keyed) (hm : b.mesh = none) : copy { type := v } b = { b with type := v } := by
  simp [copy, hm, update_copies hb.inputs, update_copies hb.outputs, kept_null]

theorem meshes_onMesh_some (a : OperatorAttribute) (m : ProcessMesh) :
    (a.onMesh (some m)).meshes = m :: replicate (a.inputs.length + a.outputs.length) m := by
  simp [meshes, onMesh, mapTensors, Function.comp_def]

/-- Where no mesh is set, putting everything on no mesh changes nothing. -/
theorem onMesh_none (h : a.meshes = []) : a.onMesh none = a := by
  have hunset : ∀ m? ∈ a.mesh :: (a.inputs ++ a.outputs).map fun p => p.2.mesh, m? = none := filterMap_eq_nil_iff.mp h
  obtain ⟨hmesh, hall⟩ := forall_mem_cons.mp hunset
  have htensor : ∀ p ∈ a.inputs ++ a.outputs, (p.1, { p.2 with mesh := none }) = p := by
    intro p hp
    have hp : p.2.mesh = none := hall _ (mem_map_of_mem hp)
    rw [← hp]
  have htable : ∀ {t : Tensors}, t ⊆ a.inputs ++ a.outputs →
      t.map (fun p => (p.1, { p.2 with mesh := none })) = t := by
    intro t ht
    rw [map_congr_left fun p hp => htensor p (ht hp), map_id']
  rw [onMesh, mapTensors, htable (subset_append_left _ _), htable (subset_append_right _ _), ← hmesh]

/-- An attribute on one mesh, not of a loop, has it on the operator and on all tensors in the end. -/
theorem share_eq (hloop : a.isLoop = false) (h : a.OnOneMesh) : a.share = (a.onMesh a.meshes.head?, .ok ()) := by
  rw [share, hloop, if_neg Bool.false_ne_true]
  cases hm : a.meshes with
  | nil => simp [onMesh_none hm]
  | cons m ms =>
    have hall : (ms.all fun n => n.same m) := by
      refine all_eq_true.mpr fun n hn => h n ?_ m ?_
      · rw [hm]
        exact .tail _ hn
      · rw [hm]
        exact .head _
    simp only [hall, if_true, setMesh_eq hloop]
    rfl

/-- **The copy of an attribute**: all of it but the type, with its mesh on the operator and on all tensors. -/
theorem init_eq (hb : b.Keyed) (hone : b.OnOneMesh) :
    init (.operator b) {} = ({ b with type := .null }.onMesh b.meshes.head?, .ok ()) := by
  rw [init]
  cases hm : b.mesh with
  | none =>
    rw [copy_of_none .null hb hm]
    exact share_eq rfl hone
  | some m =>
    -- the mesh of the operator is put on its tensors before they are compared, so they agree
    have hmeshes : ({ b with type := .null }.onMesh (some m)).meshes = m :: replicate _ m := meshes_onMesh_some _ m
    have hagree : ({ b with type := .null }.onMesh (some m)).OnOneMesh := by
      refine onOneMesh_of_eq m fun n hn => ?_
      rw [hmeshes, ← replicate_succ] at hn
      exact eq_of_mem_replicate hn
    have hhead : b.meshes.head? = some m := by simp [meshes, hm]
    rw [copy_of_mesh rfl hb hm, share_eq rfl hagree, hmeshes, hhead, head?_cons]
    simp [onMesh, mapTensors]

/-! ## 3. Equality with the original -/

theorem same_null_left {v : Value} : Value.same .null v ↔ v = .null := by cases v <;> simp [Value.same]

theorem sameNames_self (names : List String) : sameNames names names := by simp [sameNames]

/-- A table whose tensors are put on a mesh is equal to the table if they were on that mesh. -/
theorem sameTensors_onMesh_iff (h : (keys t).Nodup) (m? : Option ProcessMesh) :
    sameTensors (t.map fun p => (p.1, { p.2 with mesh := m? })) t ↔ ∀ p ∈ t, sameMesh m? p.2.mesh := by
  simp only [sameTensors, length_map, BEq.rfl, Bool.true_and, all_map, all_eq_true, Function.comp_apply]
  refine forall₂_congr fun p hp => ?_
  rw [get?_of_mem h hp]
  simp [TensorAttribute.same, sameNames_self]

/-- A mesh is set nowhere, or on the operator and on every tensor. -/
def MeshEverywhere (a : OperatorAttribute) : Prop :=
  a.meshes = [] ∨ a.mesh.isSome ∧ ∀ p ∈ a.inputs ++ a.outputs, p.2.mesh.isSome

/-- The mesh that is shared agrees with one that is set, and with one that is not only if none is. -/
theorem sameMesh_head?_iff (hone : a.OnOneMesh) {m? : Option ProcessMesh} (hmem : ∀ m, m? = some m → m ∈ a.meshes) :
    sameMesh a.meshes.head? m? ↔ a.meshes = [] ∨ m?.isSome := by
  unfold OnOneMesh at hone
  generalize a.meshes = ms at hone hmem
  cases ms with
  | nil =>
    have hm : m? = none := Option.eq_none_iff_forall_ne_some.mpr fun m hm => not_mem_nil (hmem m hm)
    simp [hm, sameMesh]
  | cons m ms =>
    cases m? with
    | none => simp [sameMesh]
    | some n =>
      have hsame : m.same n := hone m mem_cons_self n (hmem n rfl)
      simp [sameMesh, hsame]

/-- The copy, with some type, is equal to the original if the type is and the mesh was everywhere. -/
theorem same_onMesh_iff (hb : b.Keyed) (hone : b.OnOneMesh) (v : Value) :
    ({ b with type := v }.onMesh b.meshes.head?).same b ↔
      Value.same v b.type ∧ Value.same b.implementation b.implementation ∧
        Value.same b.implementationIndex b.implementationIndex ∧ b.MeshEverywhere := by
  have hmesh := sameMesh_head?_iff hone fun m (hm : b.mesh = some m) => mem_filterMap.mpr ⟨_, hm ▸ .head _, rfl⟩
  have htensors : ∀ {t}, (keys t).Nodup → t ⊆ b.inputs ++ b.outputs →
      (sameTensors (t.map fun p => (p.1, { p.2 with mesh := b.meshes.head? })) t ↔
        ∀ p ∈ t, b.meshes = [] ∨ p.2.mesh.isSome) := by
    intro t hkeys hsub
    rw [sameTensors_onMesh_iff hkeys]
    refine forall₂_congr fun p hp => sameMesh_head?_iff hone fun m hm => mem_filterMap.mpr ⟨some m, ?_, rfl⟩
    exact .tail _ (mem_map.mpr ⟨p, hsub hp, hm⟩)
  have hins := htensors hb.inputs (subset_append_left _ _)
  have houts := htensors hb.outputs (subset_append_right _ _)
  simp only [same, onMesh, mapTensors, Bool.and_eq_true, hmesh, sameNames_self, BEq.rfl, hins, houts,
    MeshEverywhere, forall_mem_append]
  by_cases hms : b.meshes = []
  · simp [hms, and_assoc]
  · simp only [hms, false_or]
    tauto

/-- **Copying an attribute.**  An attribute that setters made of a fresh one has one mesh, if any, and a type, an
implementation and an index that are equal to themselves.  A fresh attribute takes it over without failing, and is then
the same but for the type, with the mesh on the operator and on all tensors.  So it is equal to the original exactly if
the original has no type, and a mesh nowhere or everywhere; once the type is set again, only the meshes count. -/
theorem init_same_iff {calls : List Setter} (hb : built calls = .operator b) (hone : b.OnOneMesh)
    (hself : ∀ v ∈ [b.type, b.implementation, b.implementationIndex], Value.same v v = true) :
    ∃ c, init (.operator b) {} = (c, .ok ()) ∧ c = { b with type := .null }.onMesh b.meshes.head? ∧
      (c.same b = true ↔ b.type = .null ∧ b.MeshEverywhere) ∧
      ∃ c', c.set "op_type" (.data b.type) = .ok c' ∧ (c'.same b = true ↔ b.MeshEverywhere) := by
  have hkeyed := keyed_of_built hb
  obtain ⟨htype, himplementation, hindex⟩ : Value.same b.type b.type = true ∧
      Value.same b.implementation b.implementation = true ∧
      Value.same b.implementationIndex b.implementationIndex = true := by simpa using hself
  refine ⟨_, init_eq hkeyed hone, rfl, ?_, { b with type := b.type }.onMesh b.meshes.head?, ?_, ?_⟩
  · rw [same_onMesh_iff hkeyed hone, same_null_left]
    simp [himplementation, hindex]
  · have hkept : kept ({ b with type := .null }.onMesh b.meshes.head?).type b.type = b.type := kept_null b.type
    simp only [set, dataOf, hkept]
    rfl
  · rw [same_onMesh_iff hkeyed hone]
    simp [htype, himplementation, hindex]

def pair : ProcessMesh := ⟨[2], [0, 1], .list [.str "x"], false⟩

/-- Calls for an operator with an input and an output on two processes. -/
def placing : List Setter :=
  [.mapping true "x" (.data (.list [.int 0, .int (-1)])),
    .tensor false "y" (.fields [("dims_mapping", .data (.list []))]),
    .field "process_mesh" (.mesh pair), .field "impl_type" (.data (.str "default")), .field "impl_idx" (.data (.int 0)),
    .mark "process_mesh"]

def placed : OperatorAttribute where
  mesh := some pair
  implementation := .str "default"
  implementationIndex := .int 0
  annotated := ["process_mesh"]
  inputs := [("x", { mesh := some pair, mapping := some [0, -1], annotated := ["process_mesh"] })]
  outputs := [("y", { mesh := some pair, mapping := some [], annotated := ["process_mesh"] })]

/-- The attribute that the calls make is equal to its copy. -/
theorem init_same_iff_placed :
    built placing = .operator placed ∧ ∃ c, init (.operator placed) {} = (c, .ok ()) ∧ c.same placed = true := by
  have hb : built placing = .operator placed := rfl
  have hone : placed.OnOneMesh := onOneMesh_of_eq pair (by simp [meshes, placed])
  have heverywhere : placed.MeshEverywhere := .inr ⟨rfl, by simp [placed]⟩
  obtain ⟨c, hc, -, hsame, -⟩ := init_same_iff hb hone (by decide)
  exact ⟨hb, c, hc, hsame.mpr ⟨rfl, heverywhere⟩⟩

/-- **Copies that are not equal.**  The type of an operator is not taken over, and the mesh of an input is put on the
operator. -/
theorem init_not_same : (∃ b c, built [.field "op_type" (.data (.str "matmul"))] = .operator b ∧ b.OnOneMesh ∧
      init (.operator b) {} = (c, .ok ()) ∧ c.same b = false) ∧
    ∃ b c, built [.tensor true "x" (.fields [("process_mesh", .mesh pair)])] = .operator b ∧ b.OnOneMesh ∧
      init (.operator b) {} = (c, .ok ()) ∧ c.same b = false := by
  constructor
  · refine ⟨{ type := .str "matmul" }, _, rfl, ?_, rfl, rfl⟩
    exact onOneMesh_of_eq pair (by simp [meshes])
  · refine ⟨{ inputs := [("x", { mesh := some pair })] }, _, rfl, ?_, rfl, rfl⟩
    exact onOneMesh_of_eq pair (by simp [meshes])

end OperatorAttribute

end TensorKit.Distributed
