import TensorKit.Proofs.Batch.RoundTrip
import TensorKit.UniqueName
/-!
# Names of one generator

A program asks for names and has guards, inside of which a new generator is current; a block ends where it is left, by
an exception or not, and the program goes on behind it.  A name is a start, a key and a number that the key has not had
yet, and the number can be read off the end of a name, whatever the key (`numbered_inj`); so a name that is given is no
longer free (`free_generate`) and the names of a generator are distinct (`names_distinct`), also those before and behind
an inner block: what runs behind a guard runs as if it were not there (`run_guarded`).
-/

namespace TensorKit.UniqueName

open List

/-! ## 1. Programs -/

/-- Requests with keys, and guards with labels.  With names in the place of the keys this is what a run gives. -/
inductive Program (ℓ κ : Type) where
  /-- the end of a block, or an exception that leaves it -/
  | done
  | generate (key : κ) (next : Program ℓ κ)
  | guarded (label : ℓ) (start : Value) (body next : Program ℓ κ)

namespace Program

variable {ℓ κ : Type} (drop : ℓ → Bool)

/-- Leave out the guards with some labels, with all that is in them. -/
def without : Program ℓ κ → Program ℓ κ
  | done => done
  | generate key next => generate key next.without
  | guarded label start body next => if drop label then next.without else guarded label start body.without next.without

/-- What is asked of the generator that is current at the beginning. -/
def requests : Program ℓ κ → List κ
  | done => []
  | generate key next => key :: next.requests
  | guarded _ _ _ next => next.requests

/-- What is asked of each generator that a guard starts. -/
def inner : Program ℓ κ → List (List κ)
  | done => []
  | generate _ next => next.inner
  | guarded _ _ body next => body.requests :: body.inner ++ next.inner

/-- The state after a program, and the program with the names that it is given.  A name that cannot be given is an
exception, and so is a guard that cannot be entered. -/
def run : Program ℓ Value → State → State × Program ℓ String
  | done, s => (s, done)
  | generate key next, s => match UniqueName.generate key s with
    | (s, .ok n) => (next.run s).map id (generate n)
    | (s, .error _) => (s, done)
  | guarded label start body next, s => match enter start s with
    | (s, .ok _) => (next.run (leave (body.run s).1).1).map id (guarded label start (body.run s).2)
    | (s, .error _) => (next.run s).map id (guarded label start done)

end Program

/-! ## 2. Names -/

/-- A key and its number can be read off a name, also if the key ends like a name. -/
theorem numbered_inj {s k k' : String} {m n : Nat}
    (h : s ++ k ++ "_" ++ toString m = s ++ k' ++ "_" ++ toString n) : k = k' ∧ m = n := by
  have hdigits (i : Nat) : '_' ∉ (toString i).toList := fun hi => absurd (Number.isDigit_of_mem_toString hi) (by decide)
  have hlists := congrArg String.toList h
  simp only [String.toList_append, append_assoc] at hlists
  obtain ⟨hk, hn⟩ := Text.append_cons_inj (hdigits m) (hdigits n) (append_cancel_left hlists)
  refine ⟨String.toList_inj.mp hk, ?_⟩
  have := Number.wholeOf?_toString m
  rw [String.toList_inj.mp hn, Number.wholeOf?_toString] at this
  simpa using this.symm

/-- A name that the current generator has not given yet. -/
def State.Free (s : State) (n : String) : Prop :=
  ∃ g start k i, s.current.source = .generator g ∧ g.start = .str start ∧ n = start ++ k ++ "_" ++ toString i ∧
    (g.given.get? k).getD 0 ≤ i

/-- A name is free until it is given, and no name gets free. -/
theorem free_generate {key : Value} {s s' : State} {n : String} (h : generate key s = (s', .ok n)) :
    s.Free n ∧ ¬s'.Free n ∧ ∀ m, s'.Free m → s.Free m := by
  obtain ⟨⟨source, seen⟩, aside⟩ := s
  cases source with
  | other => cases key <;> cases h
  | generator g =>
    cases key with
    | str k =>
      obtain ⟨start, given⟩ := g
      cases start with
      | str start =>
        cases h
        refine ⟨⟨_, start, k, _, rfl, rfl, rfl, le_rfl⟩, ?_, ?_⟩
        · rintro ⟨_, _, k', i, ⟨⟩, ⟨⟩, heq, hle⟩
          obtain ⟨rfl, rfl⟩ := numbered_inj heq
          rw [Table.get?_set, if_pos rfl] at hle
          exact Nat.not_succ_le_self _ hle
        · rintro m ⟨_, _, k', i, ⟨⟩, ⟨⟩, rfl, hle⟩
          refine ⟨_, start, k', i, rfl, rfl, rfl, ?_⟩
          rw [Table.get?_set] at hle
          split at hle
          next hk =>
            subst hk
            exact Nat.le_of_succ_le hle
          · exact hle
      | _ => cases h
    | _ => cases h

theorem aside_generate (key : Value) (s : State) : (generate key s).1.aside = s.aside := by
  unfold generate
  split <;> rfl

namespace Program

variable {ℓ : Type} {p : Program ℓ Value} {s : State}

/-! ## 3. Guards -/

/-- **Invariant of the guards.**  What is put aside stays as it is. -/
theorem aside_run (p : Program ℓ Value) (s : State) : (p.run s).1.aside = s.aside := by
  induction p generalizing s with
  | done => rfl
  | generate key next ih =>
    have hkeeps := aside_generate key s
    rw [run]
    split <;> rename_i h <;> rw [h] at hkeeps
    · exact (ih _).trans hkeeps
    · exact hkeeps
  | guarded label start body next ihbody ihnext =>
    rw [run]
    simp only [enter]
    cases UniqueName.guarded start with
    | error k => exact ihnext s
    | ok scope =>
      refine (ihnext _).trans ?_
      rw [leave, ihbody]

/-- What a guard gives inside, if it can be entered. -/
def inside (start : Value) (body : Program ℓ Value) (s : State) : Program ℓ String := match enter start s with
  | (t, .ok _) => (body.run t).2
  | (_, .error _) => done

/-- Behind a guard a program goes on from the state before it, whatever the body does. -/
theorem run_guarded (label : ℓ) (start : Value) (body next : Program ℓ Value) (s : State) :
    (guarded label start body next).run s = (next.run s).map id (guarded label start (inside start body s)) := by
  rw [run]
  simp only [inside, enter]
  cases UniqueName.guarded start with
  | error k => rfl
  | ok scope => simp [leave, aside_run]

theorem run_without (drop : ℓ → Bool) (p : Program ℓ Value) (s : State) :
    (p.without drop).run s = (p.run s).map id (without drop) := by
  induction p generalizing s with
  | done => rfl
  | generate key next ih =>
    rw [without, run, run]
    split
    · rw [ih]
      rfl
    · rfl
  | guarded label start body next ihbody ihnext =>
    have hinside : inside start (body.without drop) s = (inside start body s).without drop := by
      unfold inside
      split
      · rw [ihbody]
        rfl
      · rfl
    rw [without, run_guarded]
    split
    next hdrop => simp [ihnext, Prod.map, without, hdrop]
    next hdrop => simp [run_guarded, ihnext, hinside, Prod.map, without, hdrop]

/-! ## 4. Distinct names -/

theorem free_of_mem_requests {n : String} (h : n ∈ (p.run s).2.requests) : s.Free n := by
  induction p generalizing s with
  | done => cases h
  | generate key next ih =>
    rw [run] at h
    split at h
    next s' m hm =>
      obtain ⟨hfree, -, hkept⟩ := free_generate hm
      rcases mem_cons.mp h with rfl | h
      · exact hfree
      · exact hkept n (ih h)
    · cases h
  | guarded label start body next _ ihnext =>
    rw [run_guarded] at h
    exact ihnext h

theorem names_distinct (p : Program ℓ Value) (s : State) :
    ∀ names ∈ (p.run s).2.requests :: (p.run s).2.inner, names.Nodup := by
  induction p generalizing s with
  | done => simp [run, requests, inner]
  | generate key next ih =>
    rw [run]
    split
    next s' n hn =>
      obtain ⟨hnames, hinner⟩ := forall_mem_cons.mp (ih s')
      have hnew : n ∉ (next.run s').2.requests := fun hmem => (free_generate hn).2.1 (free_of_mem_requests hmem)
      exact forall_mem_cons.mpr ⟨nodup_cons.mpr ⟨hnew, hnames⟩, hinner⟩
    · simp [requests, inner]
  | guarded label start body next ihbody ihnext =>
    have hinside : ∀ names ∈ (inside start body s).requests :: (inside start body s).inner, names.Nodup := by
      unfold inside
      split
      · exact ihbody _
      · simp [requests, inner]
    obtain ⟨hnames, hinner⟩ := forall_mem_cons.mp (ihnext s)
    rw [run_guarded]
    exact forall_mem_cons.mpr ⟨hnames, forall_mem_append.mpr ⟨hinside, hinner⟩⟩

/-- A generator that starts names with a text gives one for each text. -/
theorem forall₂_requests {start : String} {given : Table String Nat} {ks : List String}
    (hs : s.current.source = .generator ⟨.str start, given⟩) (h : p.requests = ks.map .str) :
    Forall₂ (fun k n => ∃ i : Nat, n = start ++ k ++ "_" ++ toString i) ks (p.run s).2.requests := by
  induction p generalizing s given ks with
  | done => exact map_eq_nil_iff.mp h.symm ▸ .nil
  | generate key next ih =>
    obtain ⟨k, ks, rfl, rfl, hnext⟩ := map_eq_cons_iff.mp h.symm
    obtain ⟨⟨source, seen⟩, aside⟩ := s
    cases hs
    exact .cons ⟨_, rfl⟩ (ih rfl hnext.symm)
  | guarded label start body next _ ihnext =>
    rw [run_guarded]
    exact ihnext hs h

/-- **Names are unique and guards leave no trace.**  Whatever a program asks for and however its guards are left, all
names of one generator are distinct, and there is one for each text if it starts them with a text; and leaving out
guards with their bodies changes no name outside of them. -/
theorem run_names_unique (p : Program ℓ Value) (s : State) :
    (∀ names ∈ (p.run s).2.requests :: (p.run s).2.inner, names.Nodup) ∧
      (∀ start given ks, s.current.source = .generator ⟨.str start, given⟩ → p.requests = ks.map .str →
        Forall₂ (fun k n => ∃ i : Nat, n = start ++ k ++ "_" ++ toString i) ks (p.run s).2.requests) ∧
      ∀ drop : ℓ → Bool, (p.without drop).run s = ((p.run s).1, (p.run s).2.without drop) :=
  ⟨names_distinct p s, fun _ _ _ => forall₂_requests, fun drop => run_without drop p s⟩

example : (run (generate (.str "a") (guarded () (.str "b") (generate (.str "a") done) (generate (.str "a") done)))
    initial).2 = generate "a_0" (guarded () (.str "b") (generate "ba_0" done) (generate "a_1" done)) := rfl

end Program

end TensorKit.UniqueName
