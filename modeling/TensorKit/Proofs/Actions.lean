import TensorKit.Action
import TensorKit.Proofs.Traversal
/-!
# Reasoning about computations that can fail

`Yields` says what holds of the result of a computation, if it has one; the result of a sequence is that of its last
part (`Yields.bind`).  An action changes a state, also when it fails; two actions are run one after the other
(`on_bind`).  `Keeps` says that an action keeps an invariant whether or not it succeeds, and what holds of the value
that it returns; to show it, it is enough to go through the parts of the action.
-/

namespace TensorKit

variable {σ ε α β : Type} {x : Except ε α} {f : α → Except ε β}
variable {V : α → Prop} {W : β → Prop}

/-- Every result of a computation has a property. -/
def Yields (V : α → Prop) (x : Except ε α) : Prop := ∀ a, x = .ok a → V a

theorem yields_ok {a : α} (h : V a) : Yields V (.ok a : Except ε α) := fun _ hb => Except.ok.inj hb ▸ h

theorem yields_error (e : ε) : Yields V (.error e : Except ε α) := fun _ h => nomatch h

theorem Yields.bind (hf : ∀ a, Yields W (f a)) : Yields W (x >>= f) := by
  intro b hb
  obtain ⟨a, -, hb⟩ := of_bind_eq_ok hb
  exact hf a b hb

/-- What holds of the first result may be used for the second. -/
theorem Yields.chain (hx : Yields V x)
    (hf : ∀ a, V a → Yields W (f a)) : Yields W (x >>= f) := by
  intro b hb
  obtain ⟨a, ha, hb⟩ := of_bind_eq_ok hb
  exact hf a (hx a ha) b hb

/-- A computation after a test that it has to pass. -/
theorem Yields.guarded {c : Prop} [Decidable c] {e : ε} {f : Unit → Except ε β} (h : Yields W (f ())) :
    Yields W (if c then .error e >>= f else f ()) := by
  split
  · exact yields_error e
  · exact h

namespace Action

@[simp] theorem on_pure (x : α) (s : σ) : (pure x : Action σ ε α).on s = (s, .ok x) := rfl

@[simp] theorem on_get (s : σ) : (get : Action σ ε σ).on s = (s, .ok s) := rfl

@[simp] theorem on_set (s s' : σ) : (set s' : Action σ ε PUnit).on s = (s', .ok ()) := rfl

@[simp] theorem on_modify (f : σ → σ) (s : σ) : (modify f : Action σ ε PUnit).on s = (f s, .ok ()) := rfl

theorem on_bind (a : Action σ ε α) (f : α → Action σ ε β) (s : σ) : (a >>= f).on s = match a.on s with
      | (s', .ok x) => (f x).on s'
      | (s', .error e) => (s', .error e) := by
  simp only [Action.on, ExceptT.run_bind]
  rw [StateT.run_bind]
  generalize a.run.run s = y
  obtain ⟨_ | _, s'⟩ := y <;> rfl

@[simp] theorem on_map (f : α → β) (a : Action σ ε α) (s : σ) : (f <$> a).on s = (a.on s).map id (Except.map f) := by
  rw [map_eq_pure_bind, on_bind]
  rcases a.on s with ⟨s', _ | _⟩ <;> rfl

/-- An action keeps an invariant of the state, also when it fails, and what it returns has a property. -/
def Keeps (P : σ → Prop) (V : α → Prop) (a : Action σ ε α) : Prop := ∀ s, P s → P (a.on s).1 ∧ Yields V (a.on s).2

namespace Keeps

variable {P : σ → Prop}

theorem bind {a : Action σ ε α} {f : α → Action σ ε β} (ha : Keeps P V a) (hf : ∀ x, V x → Keeps P W (f x)) :
    Keeps P W (a >>= f) := by
  intro s hs
  obtain ⟨hs', hx⟩ := ha s hs
  rw [on_bind]
  split
  next s' x h =>
    rw [h] at hs' hx
    exact hf x (hx x rfl) s' hs'
  next s' e h =>
    rw [h] at hs'
    exact ⟨hs', yields_error e⟩

theorem pure {x : α} (hx : V x) : Keeps P V (pure x : Action σ ε α) := fun _ hs => ⟨hs, yields_ok hx⟩

theorem get : Keeps P P (get : Action σ ε σ) := fun _ hs => ⟨hs, yields_ok hs⟩

theorem set {s : σ} (hs : P s) : Keeps P (fun _ => True) (set s : Action σ ε PUnit) :=
  fun _ _ => ⟨hs, fun _ _ => trivial⟩

theorem modify {f : σ → σ} (hf : ∀ s, P s → P (f s)) : Keeps P (fun _ => True) (modify f : Action σ ε PUnit) :=
  fun s hs => ⟨hf s hs, fun _ _ => trivial⟩

theorem lift (hx : Yields V x) : Keeps P V (monadLift x : Action σ ε α) := fun _ hs => ⟨hs, hx⟩

end Keeps

end Action

end TensorKit
