import TensorKit.Distributed.Context
/-!
# Current meshes in nested blocks

A block makes a mesh the current one at its begin and goes back at its end.  Blocks may contain blocks (`Nested`), and
going back should lead to the mesh that was current before the block (`Restores`).  The context remembers one mesh only,
though: the one that was current before the LAST set (`current_after_resets`).

* A block with blocks inside ends with the mesh of the block itself, provided that all blocks inside go back
  (`Nested.previous_run`).  So it goes back exactly if it set the mesh that was current already.
* Hence all blocks go back if and only if every block with another one inside sets the current mesh again
  (`restores_iff_reenters`).  Where no mesh is current at first, this means that no block is inside another.
-/

namespace TensorKit.Distributed.Context

open List

/-! ## 1. Calls -/

inductive Call where
  | set (m : ProcessMesh)
  | reset

variable (c : Context)

def call : Call → Context
  | .set m => c.setCurrent m
  | .reset => c.resetCurrent

def run (calls : List Call) : Context := calls.foldl call c

@[simp] theorem run_nil : c.run [] = c := rfl

@[simp] theorem run_cons (a : Call) (calls : List Call) : c.run (a :: calls) = (c.call a).run calls := rfl

@[simp] theorem run_append (as bs : List Call) : c.run (as ++ bs) = (c.run as).run bs := foldl_append

@[simp] theorem current_call_set (m : ProcessMesh) : (c.call (.set m)).current = some m := rfl

@[simp] theorem previous_call_set (m : ProcessMesh) : (c.call (.set m)).previous = c.current := rfl

@[simp] theorem current_call_reset : (c.call .reset).current = c.previous := rfl

@[simp] theorem previous_call_reset : (c.call .reset).previous = c.previous := rfl

/-- **A reset goes back to the mesh before the last set**, however many resets were made in between. -/
theorem current_after_resets (pre : List Call) (m : ProcessMesh) (k : Nat) :
    (c.run (pre ++ .set m :: replicate (k + 1) .reset)).current = (c.run pre).current := by
  have hresets : ∀ (k : Nat) (d : Context), (d.run (replicate (k + 1) .reset)).current = d.previous := by
    intro k
    induction k with
    | zero => exact fun d => rfl
    | succ k ih =>
      intro d
      rw [replicate_succ, run_cons, ih, previous_call_reset]
  rw [run_append, run_cons, hresets, previous_call_set]

/-! ## 2. Nesting -/

/-- **Well-nested calls**: blocks one after the other, each of them a set, well-nested calls and a reset. -/
inductive Nested : List Call → Prop where
  | nil : Nested []
  | block (m : ProcessMesh) {inner rest : List Call} : Nested inner → Nested rest →
    Nested (.set m :: (inner ++ .reset :: rest))

theorem Nested.exists_set {calls : List Call} (h : Nested calls) (hne : calls ≠ []) :
    ∃ n rest, calls = .set n :: rest := by
  cases h with
  | nil => exact absurd rfl hne
  | block m _ _ => exact ⟨m, _, rfl⟩

/-- **Every set has its reset**, with well-nested calls in between. -/
theorem Nested.exists_inner {calls : List Call} (h : Nested calls) : ∀ {pre m post}, calls = pre ++ .set m :: post →
    ∃ inner post', Nested inner ∧ post = inner ++ .reset :: post' := by
  induction h with
  | nil =>
    intro pre m post heq
    cases pre <;> simp at heq
  | @block n inner rest hinner _ ihinner ihrest =>
    intro pre m post heq
    cases pre with
    | nil =>
      obtain ⟨-, rfl⟩ : n = m ∧ inner ++ .reset :: rest = post := by simpa using heq
      exact ⟨inner, rest, hinner, rfl⟩
    | cons a pre =>
      obtain ⟨-, htail⟩ := cons.inj heq
      -- the set is in the calls inside the first block, or after its reset
      rcases append_eq_append_iff.mp htail with ⟨later, hpre, hrest⟩ | ⟨later, hinside, hset⟩
      · cases later with
        | nil => simp at hrest
        | cons b later =>
          obtain ⟨-, hrest⟩ := cons.inj hrest
          exact ihrest hrest
      · cases later with
        | nil => simp at hset
        | cons b later =>
          obtain ⟨rfl, rfl⟩ := cons.inj hset
          obtain ⟨inner', post', hnested, hpost⟩ := ihinner hinside
          refine ⟨inner', post' ++ .reset :: rest, hnested, ?_⟩
          simp [hpost]

/-! ## 3. Going back -/

/-- **All blocks go back**: after the reset that ends a block the current mesh is the one before the set. -/
def Restores (calls : List Call) : Prop :=
  ∀ pre m inner post, calls = pre ++ .set m :: (inner ++ .reset :: post) → Nested inner →
    (c.run (pre ++ .set m :: (inner ++ [.reset]))).current = (c.run pre).current

/-- Every block with another one directly inside sets the mesh that is current already. -/
def Reenters (calls : List Call) : Prop :=
  ∀ pre m n post, calls = pre ++ .set m :: .set n :: post → (c.run pre).current = some m

variable {c : Context} {calls : List Call}

theorem Restores.inside (pre calls post : List Call) (h : c.Restores (pre ++ (calls ++ post))) :
    (c.run pre).Restores calls := by
  intro pre' m inner post' heq hinner
  have hblock := h (pre ++ pre') m inner (post' ++ post) (by simp [heq]) hinner
  rwa [append_assoc, run_append, run_append c pre pre'] at hblock

theorem Reenters.inside (pre calls post : List Call) (h : c.Reenters (pre ++ (calls ++ post))) :
    (c.run pre).Reenters calls := by
  intro pre' m n post' heq
  have hpair := h (pre ++ pre') m n (post' ++ post) (by simp [heq])
  rwa [run_append] at hpair

/-- Blocks that all go back leave the current mesh as it was; after the last of them it is the remembered one too. -/
theorem Nested.previous_run (h : Nested calls) : ∀ {c : Context}, c.Restores calls → calls ≠ [] →
    (c.run calls).current = c.current ∧ (c.run calls).previous = c.current := by
  induction h with
  | nil => exact fun _ hne => absurd rfl hne
  | @block m inner rest hinner _ _ ihrest =>
    intro c hrestores _
    have hback := hrestores [] m inner rest rfl hinner
    rw [nil_append, run_nil] at hback
    have hsplit : Call.set m :: (inner ++ .reset :: rest) = Call.set m :: (inner ++ [.reset]) ++ rest := by simp
    have hremembered : (c.run (.set m :: (inner ++ [.reset]))).previous = c.current := by
      rw [← hback]
      simp
    rw [hsplit, run_append]
    by_cases hempty : rest = []
    · rw [hempty, run_nil]
      exact ⟨hback, hremembered⟩
    · have hrest : (c.run (.set m :: (inner ++ [.reset]))).Restores rest := by
        refine Restores.inside _ rest [] ?_
        rwa [append_nil, ← hsplit]
      have hend := ihrest hrest hempty
      rwa [hback] at hend

/-- A block with blocks inside that all go back ends with its own mesh. -/
theorem current_block {m : ProcessMesh} {inner : List Call} (h : Nested inner)
    (hrestores : (c.call (.set m)).Restores inner) (hne : inner ≠ []) :
    (c.run (.set m :: (inner ++ [.reset]))).current = some m := by
  have hprevious := (h.previous_run hrestores hne).2
  rw [run_cons, run_append, run_cons, run_nil, current_call_reset, hprevious, current_call_set]

/-- If every block with another one inside sets the current mesh again, a block goes back.  By induction on the number
of calls inside. -/
theorem current_block_of_reenters : ∀ (k : Nat) {c : Context} {m : ProcessMesh} {inner : List Call},
    inner.length = k → Nested inner → c.Reenters (.set m :: inner) →
    (c.run (.set m :: (inner ++ [.reset]))).current = c.current := by
  intro k
  induction k using Nat.strongRecOn with
  | _ k ih =>
    intro c m inner hk hinner hreenters
    by_cases hempty : inner = []
    · rw [hempty]
      rfl
    · have hrestores : (c.call (.set m)).Restores inner := by
        intro pre n within post heq hwithin
        have hsub : ((c.call (.set m)).run pre).Reenters (.set n :: within) := by
          refine Reenters.inside (.set m :: pre) (.set n :: within) (.reset :: post) ?_
          simpa [heq] using hreenters
        have hlt : within.length < k := by
          rw [← hk, heq]
          simp only [length_append, length_cons]
          omega
        rw [run_append]
        exact ih within.length hlt rfl hwithin hsub
      obtain ⟨n, rest, rfl⟩ := hinner.exists_set hempty
      rw [current_block hinner hrestores hempty]
      exact (hreenters [] m n rest rfl).symm

/-- **All blocks go back exactly if every block with another one inside sets the current mesh again.** -/
theorem restores_iff_reenters (h : Nested calls) : c.Restores calls ↔ c.Reenters calls := by
  constructor
  · intro hrestores pre m n post heq
    obtain ⟨inner, post', hinner, hpost⟩ := h.exists_inner heq
    have hne : inner ≠ [] := by
      rintro rfl
      simp at hpost
    rw [hpost] at heq
    have hback := hrestores pre m inner post' heq hinner
    have hinside : ((c.run pre).call (.set m)).Restores inner := by
      have hsub := Restores.inside (pre ++ [.set m]) inner (.reset :: post') (by simpa [heq] using hrestores)
      rwa [run_append, run_cons, run_nil] at hsub
    rw [run_append, current_block hinner hinside hne] at hback
    exact hback.symm
  · intro hreenters pre m inner post heq hinner
    rw [run_append]
    refine current_block_of_reenters inner.length rfl hinner ?_
    refine Reenters.inside pre (.set m :: inner) (.reset :: post) ?_
    simpa [heq] using hreenters

/-- Where no mesh is current, only blocks with nothing inside set the current mesh again. -/
theorem Nested.flat_of_reenters (h : Nested calls) : ∀ {c : Context}, c.current = none → c.Reenters calls →
    ∀ pre m n post, calls ≠ pre ++ .set m :: .set n :: post := by
  induction h with
  | nil =>
    intro c _ _ pre m n post heq
    cases pre <;> simp at heq
  | @block k inner rest hinner _ _ ihrest =>
    intro c hnone hreenters pre m n post heq
    -- nothing is inside the first block, since no mesh was current before it
    have hempty : inner = [] := by
      cases hinner with
      | nil => rfl
      | block n' _ _ =>
        have hcurrent := hreenters [] k n' _ rfl
        rw [run_nil, hnone] at hcurrent
        cases hcurrent
    subst hempty
    have hrest : (c.run [.set k, .reset]).Reenters rest := by
      refine Reenters.inside [.set k, .reset] rest [] ?_
      simpa using hreenters
    cases pre with
    | nil => simp at heq
    | cons a pre =>
      cases pre with
      | nil => simp at heq
      | cons b pre =>
        have hlater : rest = pre ++ .set m :: .set n :: post := (cons.inj (cons.inj heq).2).2
        exact ihrest (c := c.run [.set k, .reset]) hnone hrest pre m n post hlater

/-- **Which blocks go back.**  After any calls, a reset makes the mesh current that was current before the last set.
So, for well-nested calls, every reset goes back to the mesh before the matching set if and only if every block with
another block inside sets the mesh that is current already.  Where no mesh is current at first, that is: if and only if
no block is inside another one. -/
theorem restores_iff_flat (h : Nested calls) (c : Context) :
    (∀ pre m k, (c.run (pre ++ .set m :: replicate (k + 1) .reset)).current = (c.run pre).current) ∧
    (c.Restores calls ↔ c.Reenters calls) ∧
    (c.current = none → (c.Restores calls ↔ ∀ pre m n post, calls ≠ pre ++ .set m :: .set n :: post)) := by
  refine ⟨current_after_resets c, restores_iff_reenters h, fun hnone => ?_⟩
  rw [restores_iff_reenters h]
  constructor
  · exact h.flat_of_reenters hnone
  · intro hflat pre m n post heq
    exact absurd heq (hflat pre m n post)

def pair : ProcessMesh := ⟨[2], [0, 1], .list [.str "x"], false⟩

def single : ProcessMesh := ⟨[1], [0], .list [.str "x"], false⟩

/-- A block in a block: after both have ended, the mesh of the outer one is still current, where there was none before
it. -/
theorem not_restores_single_in_pair : Nested [.set pair, .set single, .reset, .reset] ∧
    (empty.run []).current = none ∧ (empty.run [.set pair, .set single, .reset, .reset]).current = some pair ∧
    ¬ empty.Restores [.set pair, .set single, .reset, .reset] := by
  have hnested : Nested [.set pair, .set single, .reset, .reset] :=
    .block pair (.block single .nil .nil) .nil
  refine ⟨hnested, rfl, rfl, ?_⟩
  intro hrestores
  exact ((restores_iff_flat hnested empty).2.2 rfl).mp hrestores [] pair single [.reset, .reset] rfl

end TensorKit.Distributed.Context
