import TensorKit.Proofs.Distributed.AttributeCopies
/-!
# Meshes that disagree

A fresh attribute is set up from another one or from a dictionary, which may put the operator and its tensors on
different meshes.  The meshes are compared at the end; but the mesh of the operator is written to the tensors that are
there at that time.  So the meshes that are compared are those from that of the operator on, and of another attribute
whose operator has a mesh nothing else is left.
-/

namespace TensorKit.Distributed.OperatorAttribute

open Attribute List

/-! ## 1. Meshes that entries give -/

def operatorMesh? : Key × Argument → Option ProcessMesh
  | (.field name, w) => if name = "process_mesh" then (meshOf w).toOption.join else none
  | (.tensor _, _) => none

def tensorMesh? (all : List (Key × Argument)) : Key × Argument → Option ProcessMesh
  | (.field _, _) => none
  | (.tensor name, w) =>
    if isOn all (name ++ "@input") || isOn all (name ++ "@output") then
      (TensorAttribute.ofArgument w).toOption.bind TensorAttribute.mesh
    else none

def standStep (all : List (Key × Argument)) (ms : List ProcessMesh) (p : Key × Argument) : List ProcessMesh :=
  match operatorMesh? p with
  | some m => [m]
  | none => ms ++ (tensorMesh? all p).toList

variable {all seen rest : List (Key × Argument)} {v : Value} {a a' : OperatorAttribute} {ms : List ProcessMesh}

theorem foldl_standStep : ∀ (fs : List (Key × Argument)) (ms : List ProcessMesh), (∀ p ∈ fs, operatorMesh? p = none) →
    fs.foldl (standStep all) ms = ms ++ fs.filterMap (tensorMesh? all)
  | [], ms, _ => by simp
  | p :: fs, ms, h => by
    obtain ⟨hp, hfs⟩ := forall_mem_cons.mp h
    rw [foldl_cons, foldl_standStep fs _ hfs, standStep, hp, filterMap_cons]
    cases tensorMesh? all p <;> simp

theorem operatorMesh?_after {before : List (Key × Argument)} {p : Key × Argument} {m : ProcessMesh}
    (hnd : ((before ++ p :: rest).map Prod.fst).Nodup) (hp : operatorMesh? p = some m) :
    ∀ q ∈ rest, operatorMesh? q = none := by
  have hkey {q : Key × Argument} (hq : operatorMesh? q ≠ none) : q.1 = .field "process_mesh" := by
    obtain ⟨name | name, w⟩ := q <;> simp_all [operatorMesh?]
  rw [map_append, map_cons, nodup_middle, nodup_cons] at hnd
  intro q hq
  by_contra hne
  have hsame : q.1 = p.1 := (hkey hne).trans (hkey (by simp [hp])).symm
  exact hnd.1 (mem_append_right _ (mem_map.mpr ⟨q, hq, hsame⟩))

/-! ## 2. Taking over a dictionary -/

/-- What is known of an attribute after some entries: its type, which meshes it has, and whose tensors. -/
structure Stands (v : Value) (ms : List ProcessMesh) (seen : List (Key × Argument)) (a : OperatorAttribute) :
    Prop where
  type : a.type = v
  meshes : ∀ m, m ∈ a.meshes ↔ m ∈ ms
  names : ∀ p ∈ a.inputs ++ a.outputs, Key.tensor p.1 ∈ seen.map Prod.fst

theorem mem_meshes_iff {m : ProcessMesh} :
    m ∈ a.meshes ↔ a.mesh = some m ∨ ∃ p ∈ a.inputs ++ a.outputs, p.2.mesh = some m := by
  simp [meshes]
  grind

theorem Stands.isLoop (h : Stands v ms seen a) (hv : OperatorAttribute.isLoop { type := v } = false) :
    a.isLoop = false := by
  rwa [OperatorAttribute.isLoop, h.type]

/-- **Step lemma of a dictionary.** -/
theorem Stands.setEntry (hv : OperatorAttribute.isLoop { type := v } = false) (h : Stands v ms seen a)
    {p : Key × Argument} (hp : p.1 ∉ seen.map Prod.fst) (hset : a.setEntry all p = .ok a') :
    Stands v (standStep all ms p) (seen ++ [p]) a' := by
  have hseen {k : Key} (hk : k ∈ seen.map Prod.fst) : k ∈ (seen ++ [p]).map Prod.fst := by
    rw [map_append]
    exact mem_append_left _ hk
  obtain ⟨name | name, w⟩ := p
  · -- a field leaves the meshes as they are, unless it is the mesh of the operator
    have hsame (hstep : operatorMesh? (.field name, w) = none) (htype : a'.type = a.type) (hmesh : a'.mesh = a.mesh)
        (hins : a'.inputs = a.inputs) (houts : a'.outputs = a.outputs) :
        Stands v (standStep all ms (.field name, w)) (seen ++ [(.field name, w)]) a' := by
      refine ⟨htype.trans h.type, fun m => ?_, fun q hq => ?_⟩
      · rw [standStep, hstep, mem_meshes_iff, hmesh, hins, houts, ← mem_meshes_iff, h.meshes]
        simp [tensorMesh?]
      · rw [hins, houts] at hq
        exact hseen (h.names q hq)
    simp only [OperatorAttribute.setEntry] at hset
    split at hset
    next hname =>
      obtain ⟨rfl, m?, hm, rfl⟩ | ⟨hne, htype, hmesh, hins, houts⟩ := set_cases hset
      · cases m? with
        | none => exact hsame (by simp [operatorMesh?, hm, Except.toOption]) rfl rfl rfl rfl
        | some m =>
          rw [Option.elim_some, setMesh_eq (h.isLoop hv)]
          refine ⟨h.type, fun n => ?_, fun q hq => ?_⟩
          · rw [meshes_onMesh_some, ← replicate_succ]
            simp [standStep, operatorMesh?, hm, Except.toOption]
          · obtain ⟨q', hq', rfl⟩ : ∃ q' ∈ a.inputs ++ a.outputs, (q'.1, { q'.2 with mesh := some m }) = q := by
              simpa [onMesh, mapTensors, or_and_right, exists_or] using hq
            exact hseen (h.names q' hq')
      · refine hsame (by simp [operatorMesh?, hne]) (htype ?_) hmesh hins houts
        rintro rfl
        simp [fieldNames] at hname
    next hname =>
      cases hset
      have hne : name ≠ "process_mesh" := by
        rintro rfl
        exact hname (by decide)
      exact hsame (by simp [operatorMesh?, hne]) rfl rfl rfl rfl
  · obtain ⟨t, ht, rfl⟩ := exists_of_map_eq_ok hset
    have hnew {table : Tensors} (htable : table ⊆ a.inputs ++ a.outputs) :
        table.set name t = table ++ [(name, t)] := by
      refine Table.set_of_notMem_keys fun hin => hp ?_
      obtain ⟨q, hq, rfl⟩ := mem_map.mp hin
      exact h.names q (htable hq)
    refine ⟨h.type, fun m => ?_, fun q hq => ?_⟩
    · rw [standStep, operatorMesh?, mem_append, ← h.meshes, mem_meshes_iff, mem_meshes_iff,
        hnew (subset_append_left _ _), hnew (subset_append_right _ _)]
      simp only [tensorMesh?, ht, Except.toOption, Option.bind_some]
      split <;> split <;> simp_all <;> grind
    · rw [hnew (subset_append_left _ _), hnew (subset_append_right _ _)] at hq
      have hq : q ∈ a.inputs ++ a.outputs ∨ q = (name, t) := by grind
      rcases hq with hq | rfl
      · exact hseen (h.names q hq)
      · simp

/-- **Run lemma of a dictionary.** -/
theorem Stands.setAll (hv : OperatorAttribute.isLoop { type := v } = false) :
    ∀ {rest seen ms a}, Stands v ms seen a →
    ((seen ++ rest).map Prod.fst).Nodup → (a.setAll all rest).2 = .ok () →
    ∃ a', a.setAll all rest = (a', .ok ()) ∧ Stands v (rest.foldl (standStep all) ms) (seen ++ rest) a'
  | [], seen, ms, a, h, _, _ => ⟨a, rfl, by rwa [append_nil]⟩
  | p :: rest, seen, ms, a, h, hnd, hok => by
    have hnew : p.1 ∉ seen.map Prod.fst := by
      rw [map_append, map_cons, nodup_middle, nodup_cons] at hnd
      exact fun hin => hnd.1 (mem_append_left _ hin)
    rw [OperatorAttribute.setAll] at hok ⊢
    cases ha' : a.setEntry all p with
    | error e => simp [ha'] at hok
    | ok a' =>
      rw [append_cons] at hnd ⊢
      simp only [ha'] at hok ⊢
      exact Stands.setAll hv (h.setEntry hv hnew ha') hnd hok

/-! ## 3. Sharing a mesh -/

/-- A result that is refused exactly if meshes differ, and has one of them on the operator and on all tensors if not. -/
def Shares (r : Outcome OperatorAttribute) (ms : List ProcessMesh) : Prop :=
  (r.2 = .ok () ↔ ∀ m ∈ ms, ∀ n ∈ ms, m.same n) ∧
    (r.2 = .ok () → ms ≠ [] → ∃ m ∈ ms, r.1.mesh = some m ∧ ∀ p ∈ r.1.inputs ++ r.1.outputs, p.2.mesh = some m)

theorem shares_share (hloop : a.isLoop = false) (h : ∀ m, m ∈ a.meshes ↔ m ∈ ms) : Shares a.share ms := by
  have hone : a.OnOneMesh ↔ ∀ m ∈ ms, ∀ n ∈ ms, m.same n := by simp [OnOneMesh, h]
  have hiff : a.share.2 = .ok () ↔ a.OnOneMesh := by
    refine ⟨fun hok => ?_, fun hone => by rw [share_eq hloop hone]⟩
    rw [share, hloop, if_neg Bool.false_ne_true] at hok
    split at hok
    next hm => simp [OnOneMesh, hm]
    next m ms hm =>
      split at hok
      next hall =>
        have hsame : ∀ n ∈ m :: ms, n.shape = m.shape ∧ n.ids = m.ids := by simpa [ProcessMesh.same] using hall
        intro x hx y hy
        rw [hm] at hx hy
        simp [ProcessMesh.same, hsame x hx, hsame y hy]
      · cases hok
  refine ⟨hiff.trans hone, fun hok hne => ?_⟩
  obtain ⟨n, hn⟩ := exists_mem_of_ne_nil ms hne
  obtain ⟨m, ms', hm⟩ := exists_cons_of_ne_nil (ne_nil_of_mem ((h n).mpr hn))
  rw [share_eq hloop (hiff.mp hok), hm]
  refine ⟨m, (h m).mp (hm ▸ .head _), rfl, ?_⟩
  simp only [onMesh, mapTensors, ← map_append]
  exact forall_mem_map.mpr fun _ _ => rfl

/-- **Which meshes have to agree.**  A fresh attribute, not of a loop, is set up from another one: the meshes of that one,
or only the operator's if it has one.  It is set up from a dictionary whose entries can be taken over: the meshes of all
tensors if the operator is given none, and otherwise the operator's and those of the tensors after it. -/
theorem init_shares (hv : isLoop { type := v } = false) :
    (∀ {b : OperatorAttribute}, b.Keyed →
      Shares (init (.operator b) { type := v }) (b.mesh.elim b.meshes fun m => [m])) ∧
    ∀ (arg : Argument) {fs}, arg.entries? = some fs → (fs.map Prod.fst).Nodup →
      (setAll fs { type := v } fs).2 = .ok () →
      ((∀ p ∈ fs, operatorMesh? p = none) → Shares (init arg { type := v }) (fs.filterMap (tensorMesh? fs))) ∧
      ∀ before {p m after}, fs = before ++ p :: after → operatorMesh? p = some m →
        Shares (init arg { type := v }) (m :: after.filterMap (tensorMesh? fs)) := by
  constructor
  · intro b hb
    cases hm : b.mesh with
    | none =>
      rw [init, copy_of_none v hb hm]
      exact shares_share hv fun _ => Iff.rfl
    | some m =>
      rw [init, copy_of_mesh hv hb hm]
      refine shares_share hv fun n => ?_
      rw [meshes_onMesh_some, ← replicate_succ]
      simp
  · intro arg fs hentries hnodup hok
    have hfresh : Stands v [] [] { type := v } := ⟨rfl, by simp [meshes], by simp⟩
    obtain ⟨a, ha, hstands⟩ := hfresh.setAll hv hnodup hok
    have hinit : init arg { type := v } = a.share := by
      rw [init]
      · simp [hentries, ha]
      · rintro rfl
        cases hentries
      · rintro b rfl
        cases hentries
    have hshares := shares_share (hstands.isLoop hv) hstands.meshes
    rw [hinit]
    refine ⟨fun hnone => ?_, fun before p m after hfs hp => ?_⟩
    · rwa [foldl_standStep fs [] hnone] at hshares
    · have hafter := operatorMesh?_after (hfs ▸ hnodup) hp
      have hlast : fs.foldl (standStep fs) [] = m :: after.filterMap (tensorMesh? fs) := by
        conv => lhs; arg 3; rw [hfs]
        rw [foldl_append, foldl_cons, standStep, hp, foldl_standStep after [m] hafter, singleton_append]
      rwa [hlast] at hshares

def otherPair : ProcessMesh := { pair with ids := [2, 3] }

/-- An input on one mesh, then the operator on another. -/
def tensorFirst : List (Key × Argument) :=
  [(.tensor "x", .fields [("process_mesh", .mesh pair)]), ("x@input", .data (.bool true)),
    ("process_mesh", .mesh otherPair)]

def split : OperatorAttribute := { mesh := some otherPair, inputs := [("x", { mesh := some pair })] }

/-- Two different meshes are not refused in another attribute, nor in a dictionary that gives the operator its mesh last;
in the opposite order they are. -/
theorem init_shares_tensorFirst : (split.meshes = [otherPair, pair] ∧ (init (.operator split) {}).2 = .ok ()) ∧
    (init (.fields tensorFirst) {}).2 = .ok () ∧ (init (.fields tensorFirst.reverse) {}).2 ≠ .ok () := by
  obtain ⟨hoperator, hdictionary⟩ := init_shares (v := .null) rfl
  have hcopied := hoperator (b := split) ⟨by decide, by decide⟩
  have hlast := (hdictionary (.fields tensorFirst) rfl (by decide) rfl).2 (tensorFirst.take 2) rfl rfl
  have hfirst := (hdictionary (.fields tensorFirst.reverse) rfl (by decide) rfl).2 [] rfl rfl
  have hmeshes : (tensorFirst.take 2).reverse.filterMap (tensorMesh? tensorFirst.reverse) = [pair] := rfl
  refine ⟨⟨rfl, hcopied.1.mpr ?_⟩, hlast.1.mpr (by simp [same_self]), fun h => ?_⟩
  · simp [split, same_self]
  · have hsame := hfirst.1.mp h _ mem_cons_self pair (mem_cons_of_mem _ (hmeshes ▸ mem_singleton_self pair))
    exact absurd hsame (by decide)

end TensorKit.Distributed.OperatorAttribute
