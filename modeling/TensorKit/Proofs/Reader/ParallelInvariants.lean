import Mathlib.Data.List.Perm.Basic
import TensorKit.Reader.Parallel
/-!
# What workers keep that map samples in parallel

All that a step can do is said once, by `Step` (`step_cases`); each invariant is then kept by every step.

* The sign that no more samples come is on its way behind them, or one worker has it (`Feeding`).  Each worker that is
  done has passed on a sign of its own (`Ending`), and this came behind all its results (`Closing`).
* The results handed on and under way, with those of the samples that no worker took, are the results of all samples
  (`allResults`, `Step.perm_allResults`).
* In an ordered map workers are at the samples from the turn on, each at another (`InTurn`), so there is at most one
  worker whose turn it is (`InTurn.others`).

`Inv` has them all, and holds of every state that can be reached (`Reachable.inv`).
-/

namespace TensorKit.Reader.Parallel

open List Worker

variable {α β : Type} {c : Setting α β} {xs : List α} {s s' : State α β}
variable {γ : Type} {w w' : Worker β} {ms : List (Message γ)} {ps : List γ} {k turn : Nat} {ys : List β}

/-! ## 1. What a step can do -/

/-- All steps of all threads.  A worker that takes a step stands somewhere among the others. -/
inductive Step (c : Setting α β) (s : State α β) : State α β → Prop
  | read {m rest} (hunread : s.unread = m :: rest) (hroom : c.hasRoom s.samples) :
      Step c s { s with unread := rest, samples := s.samples ++ [m] }
  | take {l r k a rest} (hworkers : s.workers = l ++ .taking :: r) (hsamples : s.samples = .item (k, a) :: rest)
      (hordered : c.ordered = false) :
      Step c s { s with samples := rest, workers := l ++ .giving k (c.mapper a) :: r }
  | hold {l r k a rest} (hworkers : s.workers = l ++ .taking :: r) (hsamples : s.samples = .item (k, a) :: rest)
      (hordered : c.ordered) :
      Step c s { s with samples := rest, workers := l ++ .waiting k (c.mapper a) :: r }
  | takeStop {l r rest} (hworkers : s.workers = l ++ .taking :: r) (hsamples : s.samples = .stop :: rest) :
      Step c s { s with samples := rest, workers := l ++ .returning :: r }
  | spin {l r k b} (hworkers : s.workers = l ++ .waiting k b :: r) (hturn : k ≠ s.turn) : Step c s s
  | release {l r b} (hworkers : s.workers = l ++ .waiting s.turn b :: r) :
      Step c s { s with workers := l ++ .giving s.turn b :: r }
  | give {l r k b} (hworkers : s.workers = l ++ .giving k b :: r) (hroom : c.hasRoom s.results)
      (hordered : c.ordered = false) :
      Step c s { s with results := s.results ++ [c.message b], workers := l ++ .taking :: r }
  | giveInTurn {l r k b} (hworkers : s.workers = l ++ .giving k b :: r) (hroom : c.hasRoom s.results)
      (hordered : c.ordered) :
      Step c s { s with results := s.results ++ [c.message b], workers := l ++ .counting k :: r }
  | count {l r k} (hworkers : s.workers = l ++ .counting k :: r) :
      Step c s { s with workers := l ++ .advancing k s.turn :: r }
  | advance {l r k v} (hworkers : s.workers = l ++ .advancing k v :: r) :
      Step c s { s with turn := v + 1, workers := l ++ .taking :: r }
  | putBack {l r} (hworkers : s.workers = l ++ .returning :: r) (hroom : c.hasRoom s.samples) :
      Step c s { s with samples := s.samples ++ [.stop], workers := l ++ .ending :: r }
  | passOn {l r} (hworkers : s.workers = l ++ .ending :: r) (hroom : c.hasRoom s.results) :
      Step c s { s with results := s.results ++ [.stop], workers := l ++ .done :: r }
  | yield {b rest} (hunfinished : s.isFinished c = false) (hresults : s.results = .item b :: rest) :
      Step c s { s with results := rest, yielded := s.yielded ++ [b] }
  | hear {rest} (hunfinished : s.isFinished c = false) (hresults : s.results = .stop :: rest) :
      Step c s { s with results := rest, ended := s.ended + 1 }

theorem exists_split_of_getElem? {ws : List γ} {i : Nat} {w : γ} (h : ws[i]? = some w) :
    ∃ l r, ws = l ++ w :: r ∧ ∀ w', ws.set i w' = l ++ w' :: r := by
  obtain ⟨hi, rfl⟩ := List.getElem?_eq_some_iff.mp h
  refine ⟨ws.take i, ws.drop (i + 1), ?_, fun w' => set_eq_take_append_cons_drop.trans (if_pos hi)⟩
  rw [← drop_eq_getElem_cons hi, take_append_drop]

/-- **Inversion of a worker's step.** -/
theorem step_of_act {l r : List (Worker β)} (hws : s.workers = l ++ w :: r)
    (h : act c s w = some (w', s')) : Step c s { s' with workers := l ++ w' :: r } := by
  revert h
  fun_cases act c s w <;> rintro ⟨⟩
  case case2 hsamples => exact .takeStop hws hsamples
  case case3 hsamples _ =>
    cases hordered : c.ordered with
    | false => exact .take hws hsamples hordered
    | true => exact .hold hws hsamples hordered
  case case4 =>
    split
    next hk =>
      subst hk
      exact .release hws
    next hk => exact hws ▸ .spin hws hk
  case case5 hroom =>
    cases hordered : c.ordered with
    | false => exact .give hws hroom hordered
    | true => exact .giveInTurn hws hroom hordered
  case case7 => exact .count hws
  case case8 => exact .advance hws
  case case9 hroom => exact .putBack hws hroom
  case case11 hroom => exact .passOn hws hroom

/-- **Inversion of a step.** -/
theorem step_cases {t : Thread} (h : step c s t = some s') : Step c s s' := by
  revert h
  fun_cases step c s t
  case case4 i =>
    intro h
    obtain ⟨w, hw, h⟩ := Option.bind_eq_some_iff.mp h
    obtain ⟨⟨w', s''⟩, hact, h⟩ := Option.bind_eq_some_iff.mp h
    obtain ⟨l, r, hws, hset⟩ := exists_split_of_getElem? hw
    cases h
    rw [hset]
    exact step_of_act hws hact
  all_goals rintro ⟨⟩
  case case2 hunread hroom => exact .read hunread hroom
  case case7 hunfinished _ _ hres => exact .yield (Bool.not_eq_true _ |>.mp hunfinished) hres
  case case8 hunfinished _ hres => exact .hear (Bool.not_eq_true _ |>.mp hunfinished) hres

/-- A step leaves all as it is, which only a worker can do that waits for its turn, or brings the end nearer. -/
theorem Step.work (h : Step c s s') : s' = s ∨ s'.work < s.work := by
  cases h with
  | spin => exact .inl rfl
  | _ =>
    refine .inr ?_
    simp only [State.work, work, Message.work, total_append, total_cons, total_nil, length_append,
      length_cons, length_nil, *]
    omega

/-! ## 2. The sign -/

variable {l r : List (Worker β)}

section Counting

variable (p : γ → Bool)

theorem countP_middle (l r : List γ) (w : γ) : (l ++ w :: r).countP p = l.countP p + r.countP p + (p w).toNat := by
  rw [countP_append, countP_cons]
  cases p w <;> simp [Nat.add_assoc]

theorem countP_cons_toNat (w : γ) (r : List γ) : (w :: r).countP p = r.countP p + (p w).toNat := by
  simpa using countP_middle p [] r w

end Counting

namespace Worker

def isWaiting : Worker β → Bool
  | waiting .. => true
  | _ => false

def isReturning : Worker β → Bool
  | returning => true
  | _ => false

def hasLeft : Worker β → Bool
  | ending | done => true
  | _ => false

def isDone : Worker β → Bool
  | done => true
  | _ => false

end Worker

def Message.isStop {γ : Type} : Message γ → Bool
  | item _ => false
  | stop => true

theorem Step.length_workers (h : Step c s s') : s'.workers.length = s.workers.length := by
  cases h with
  | _ => simp [*]

/-- In a map without order no worker waits. -/
def Waiting (c : Setting α β) (s : State α β) : Prop := c.ordered = false → s.workers.countP Worker.isWaiting = 0

theorem Step.waiting (h : Step c s s') (hs : Waiting c s) : Waiting c s' := by
  intro hc
  have hnone := hs hc
  cases h with
  | hold _ _ hordered => exact absurd (hordered.symm.trans hc) (by decide)
  | read | spin | yield | hear => exact hnone
  | _ =>
    simp only [countP_middle, isWaiting, Bool.toNat_false, Bool.toNat_true, *] at hnone ⊢
    omega

/-- No result that a worker is about to put could be taken for a sign. -/
def Unmistakable (c : Setting α β) (s : State α β) : Prop :=
  ∀ k b, .giving k b ∈ s.workers → c.message b = .item b

theorem Unmistakable.message_eq {b : β} (h : Unmistakable c s) (hws : s.workers = l ++ .giving k b :: r) :
    c.message b = .item b :=
  h k b (hws ▸ mem_append_right _ mem_cons_self)

/-- Every worker that is done has passed a sign on, which the consumer has taken or will take. -/
def Ending (s : State α β) : Prop := s.workers.countP Worker.isDone = s.ended + s.results.countP Message.isStop

theorem Step.ending (h : Step c s s') (hplain : Unmistakable c s) (hs : Ending s) : Ending s' := by
  rw [Ending] at hs ⊢
  cases h with
  | give hws _ _ | giveInTurn hws _ _ =>
    simp only [countP_middle, countP_nil, isDone, Message.isStop, Bool.toNat_false,
      hplain.message_eq hws, hws] at hs ⊢
    omega
  | _ =>
    simp only [countP_middle, countP_cons_toNat, countP_nil, isDone, Message.isStop, Bool.toNat_false,
      Bool.toNat_true, *] at hs ⊢ <;> omega

/-- What is on its way to the workers: samples and, behind them, the sign, which no worker has seen unless it is the
first; or nothing, as a worker has the sign. -/
def Feeding (s : State α β) : Prop :=
  (∃ ps, s.samples ++ s.unread = ps.map .item ++ [.stop] ∧ s.workers.countP Worker.isReturning = 0 ∧
    (ps ≠ [] → s.workers.countP Worker.hasLeft = 0)) ∨
  (s.samples ++ s.unread = [] ∧ s.workers.countP Worker.isReturning = 1)

theorem cons_item_eq {p : γ}
    (h : .item p :: ms = ps.map .item ++ [.stop]) : ∃ ps', ps = p :: ps' ∧ ms = ps'.map .item ++ [.stop] := by
  cases ps with
  | nil => simp at h
  | cons q ps =>
    simp only [map_cons, cons_append, cons.injEq, Message.item.injEq] at h
    exact ⟨ps, by rw [h.1], h.2⟩

theorem cons_stop_eq
    (h : .stop :: ms = ps.map .item ++ [.stop]) : ps = [] ∧ ms = [] := by
  cases ps with
  | nil => exact ⟨rfl, by simpa using h⟩
  | cons q ps => simp at h

theorem Step.feeding (h : Step c s s') (hs : Feeding s) : Feeding s' := by
  cases h with
  | read hunread _ => simpa [Feeding, hunread] using hs
  | take hws hsamples _ | hold hws hsamples _ =>
    simp only [Feeding, hws, hsamples, countP_middle, isReturning, hasLeft, cons_append] at hs ⊢
    rcases hs with ⟨ps, hps, hreturning, hleft⟩ | ⟨hnil, -⟩
    · obtain ⟨ps', rfl, hps'⟩ := cons_item_eq hps
      exact .inl ⟨ps', hps', hreturning, fun _ => hleft (cons_ne_nil _ _)⟩
    · cases hnil
  | takeStop hws hsamples =>
    -- the sign was the last message, and this worker has it now
    simp only [Feeding, hws, hsamples, countP_middle, isReturning, Bool.toNat_true, Bool.toNat_false,
      cons_append] at hs ⊢
    rcases hs with ⟨ps, hps, hreturning, -⟩ | ⟨hnil, -⟩
    · exact .inr ⟨(cons_stop_eq hps).2, by omega⟩
    · cases hnil
  | putBack hws _ =>
    simp only [Feeding, hws, countP_middle, isReturning, Bool.toNat_true, Bool.toNat_false] at hs ⊢
    rcases hs with ⟨ps, -, hreturning, -⟩ | ⟨hnil, hreturning⟩
    · omega
    · obtain ⟨hsamples, hunread⟩ := append_eq_nil_iff.mp hnil
      refine .inl ⟨[], by rw [hsamples, hunread]; rfl, by omega, fun hne => absurd rfl hne⟩
  | spin | yield | hear => exact hs
  | _ =>
    simp only [Feeding, countP_middle, isReturning, hasLeft, *] at hs ⊢
    exact hs

/-- Behind the last result comes the sign of the worker that gave it. -/
def Closing (s : State α β) : Prop := ∀ q b, s.results = q ++ [.item b] → ∃ w ∈ s.workers, w.isDone = false

theorem Step.closing (h : Step c s s') (hs : Closing s) : Closing s' := by
  intro q b hlast
  cases h with
  | yield _ hres | hear _ hres => exact hs (_ :: q) b (hres.trans (congrArg (_ :: ·) hlast))
  | read | spin => exact hs q b hlast
  | passOn =>
    -- the last message is a sign
    have hsame := (append_inj' hlast rfl).2
    cases hsame
  | _ => exact ⟨_, mem_append_right _ mem_cons_self, rfl⟩

/-! ## 3. Results -/

def Message.item? {γ : Type} : Message γ → Option γ
  | item a => some a
  | stop => none

def items {γ : Type} (ms : List (Message γ)) : List γ := ms.filterMap Message.item?

section Items

variable (ms ms' : List (Message γ)) (a : γ)

@[simp] theorem items_nil : items ([] : List (Message γ)) = [] := rfl

@[simp] theorem items_append : items (ms ++ ms') = items ms ++ items ms' := filterMap_append

@[simp] theorem items_item : items (.item a :: ms) = a :: items ms := rfl

@[simp] theorem items_stop : items (.stop :: ms) = items ms := rfl

end Items

namespace Worker

def held : Worker β → List β
  | waiting _ b | giving _ b => [b]
  | _ => []

def place : Worker β → List Nat
  | waiting k _ | giving k _ | counting k | advancing k _ => [k]
  | _ => []

/-- Has a worker given its result, and not made it the turn of the next? -/
def hasGiven : Worker β → Bool
  | counting _ | advancing .. => true
  | _ => false

end Worker

/-- The results that were handed on or are under way, and those of the samples that no worker took yet. -/
def allResults (c : Setting α β) (s : State α β) : List β :=
  s.yielded ++ (items s.results ++ (s.workers.flatMap Worker.held ++
    (items (s.samples ++ s.unread)).map fun p => c.mapper p.2))

theorem perm_out (b : γ) (l r t : List γ) : (l ++ b :: r ++ t).Perm (b :: (l ++ r ++ t)) := by
  rw [append_assoc, append_assoc]
  exact perm_middle

theorem Step.perm_allResults (h : Step c s s') (hplain : Unmistakable c s) :
    (allResults c s').Perm (allResults c s) := by
  cases h with
  | take hws hsamples _ | hold hws hsamples _ =>
    simp only [allResults, hws, hsamples, flatMap_append, flatMap_cons, held, cons_append,
      items_item, map_cons, nil_append]
    refine Perm.append_left _ (Perm.append_left _ ?_)
    exact (perm_out _ _ _ _).trans perm_middle.symm
  | give hws _ _ | giveInTurn hws _ _ =>
    simp only [allResults, hplain.message_eq hws, hws, flatMap_append, flatMap_cons, held, items_append,
      items_item, items_nil, nil_append, cons_append, append_assoc (items s.results)]
    refine Perm.append_left _ (Perm.append_left _ ?_)
    exact (perm_out _ _ _ _).symm
  | _ => simp [allResults, held, *]

/-! ## 4. Order -/

def numbered (xs : List α) : List (Nat × α) := xs.zipIdx.map fun p => (p.2, p.1)

/-- Where a worker can be at a turn, given the results of all samples: it has the result of its sample, and is past
waiting only if it is the turn of that. -/
def Worker.Fits (ys : List β) (turn : Nat) : Worker β → Prop
  | waiting k b => ys[k]? = some b
  | giving k b => k = turn ∧ ys[k]? = some b
  | counting k => k = turn
  | advancing k v => k = turn ∧ v = turn
  | _ => True

def State.places (s : State α β) : List Nat := s.workers.flatMap Worker.place

/-- How an ordered map goes: the samples before the turn are dealt with, workers are at those from the turn on, each at
another, and the rest is on its way in order.  The results that were put are those before the turn, with the one whose
turn it is as soon as its worker has put it. -/
structure InTurn (c : Setting α β) (xs : List α) (s : State α β) : Prop where
  rest : items (s.samples ++ s.unread) = (numbered xs).drop (s.turn + s.places.length)
  places : s.places.Perm (range' s.turn s.places.length)
  fits : ∀ w ∈ s.workers, w.Fits (xs.map c.mapper) s.turn
  put : s.yielded ++ items s.results = (xs.map c.mapper).take (s.turn + s.workers.countP Worker.hasGiven)

theorem numbered_drop_eq_cons {n : Nat} {a : α} {ps : List (Nat × α)} (h : (k, a) :: ps = (numbered xs).drop n) :
    k = n ∧ xs[n]? = some a ∧ ps = (numbered xs).drop (n + 1) := by
  have hhead : (numbered xs)[n]? = some (k, a) := by
    rw [← head?_drop, ← h]
    rfl
  have htail : ps = (numbered xs).drop (n + 1) := by
    rw [← tail_drop, ← h]
    rfl
  rw [numbered, getElem?_map, getElem?_zipIdx] at hhead
  cases hx : xs[n]? with
  | none => simp [hx] at hhead
  | some x =>
    simp only [hx, Option.map_some, Nat.zero_add, Option.some.injEq, Prod.mk.injEq] at hhead
    obtain ⟨rfl, rfl⟩ := hhead
    exact ⟨rfl, rfl, htail⟩

theorem forall_replace {P : Worker β → Prop} (h : ∀ v ∈ l ++ w :: r, P v) (hw' : P w') : ∀ v ∈ l ++ w' :: r, P v := by
  rw [forall_mem_append, forall_mem_cons] at h ⊢
  exact ⟨h.1, hw', h.2.2⟩

namespace InTurn

theorem fits_of_split (h : InTurn c xs s) (hws : s.workers = l ++ w :: r) :
    w.Fits (xs.map c.mapper) s.turn :=
  h.fits w (hws ▸ mem_append_right _ mem_cons_self)

/-- No two workers are at one sample: beside a worker whose turn it is, the others wait or have no sample. -/
theorem others (h : InTurn c xs s) (hws : s.workers = l ++ w :: r) (hw : w.place = [s.turn]) :
    ∀ w' ∈ l ++ r, s.turn ∉ w'.place := by
  have hnd : (l.flatMap place ++ s.turn :: r.flatMap place).Nodup := by
    have hall := h.places.nodup_iff.mpr nodup_range'
    rwa [State.places, hws, flatMap_append, flatMap_cons, hw] at hall
  intro w' hw' hplace
  have hnot := (nodup_cons.mp (perm_middle.nodup_iff.mp hnd)).1
  rw [← flatMap_append] at hnot
  exact hnot (mem_flatMap.mpr ⟨w', hw', hplace⟩)

theorem hasGiven_of_fits (h : w.Fits ys turn) (hplace : turn ∉ w.place) :
    w.hasGiven = false := by
  cases w with
  | counting k => exact absurd (mem_singleton.mpr (Eq.symm h)) hplace
  | advancing k v => exact absurd (mem_singleton.mpr h.1.symm) hplace
  | _ => rfl

theorem fits_succ (h : w.Fits ys turn) (hplace : turn ∉ w.place) :
    w.Fits ys (turn + 1) := by
  cases w with
  | giving | advancing => exact absurd (mem_singleton.mpr h.1.symm) hplace
  | counting => exact absurd (mem_singleton.mpr (Eq.symm h)) hplace
  | waiting => exact h
  | _ => trivial

section

variable (h : InTurn c xs s)

include h

/-- Beside a worker whose turn it is, none has given its result. -/
theorem countP_others (hws : s.workers = l ++ w :: r)
    (hw : w.place = [s.turn]) : l.countP hasGiven + r.countP hasGiven = 0 := by
  rw [← countP_append, countP_eq_zero]
  intro w' hw'
  have hmem : w' ∈ s.workers := by
    rw [hws]
    exact mem_append.mpr ((mem_append.mp hw').imp_right (mem_cons_of_mem _))
  rw [hasGiven_of_fits (h.fits w' hmem) (h.others hws hw w' hw')]
  exact Bool.false_ne_true

/-- What most steps leave as it is. -/
theorem frame (hturn : s'.turn = s.turn)
    (hrest : items (s'.samples ++ s'.unread) = items (s.samples ++ s.unread))
    (hput : s'.yielded ++ items s'.results = s.yielded ++ items s.results) (hplaces : s'.places = s.places)
    (hgiven : s'.workers.countP hasGiven = s.workers.countP hasGiven)
    (hfits : ∀ w ∈ s'.workers, w.Fits (xs.map c.mapper) s.turn) : InTurn c xs s' where
  rest := by rw [hrest, hturn, hplaces, h.rest]
  places := by
    rw [hturn, hplaces]
    exact h.places
  fits := by rwa [hturn]
  put := by rw [hput, hturn, hgiven, h.put]

/-- A worker that stays at its sample, or has none before and after. -/
theorem replace (hws : s.workers = l ++ w :: r) (hws' : s'.workers = l ++ w' :: r)
    (hturn : s'.turn = s.turn) (hrest : items (s'.samples ++ s'.unread) = items (s.samples ++ s.unread))
    (hput : s'.yielded ++ items s'.results = s.yielded ++ items s.results) (hplace : w'.place = w.place)
    (hgiven : w'.hasGiven = w.hasGiven) (hfits : w'.Fits (xs.map c.mapper) s.turn) : InTurn c xs s' := by
  refine h.frame hturn hrest hput ?_ ?_ ?_
  · rw [State.places, State.places, hws, hws', flatMap_append, flatMap_append, flatMap_cons,
      flatMap_cons, hplace]
  · rw [hws, hws', countP_middle, countP_middle, hgiven]
  · rw [hws']
    exact forall_replace (hws ▸ h.fits) hfits

theorem hold {a : α} {rest : List (Message (Nat × α))}
    (hws : s.workers = l ++ .taking :: r) (hsamples : s.samples = .item (k, a) :: rest) :
    InTurn c xs { s with samples := rest, workers := l ++ .waiting k (c.mapper a) :: r } := by
  have hnext := h.rest
  rw [hsamples, cons_append, items_item] at hnext
  obtain ⟨hk, hx, hnext⟩ := numbered_drop_eq_cons hnext
  have hafter : (k :: s.places).Perm
      (State.places { s with samples := rest, workers := l ++ .waiting k (c.mapper a) :: r }) := by
    simp only [State.places, hws, flatMap_append, flatMap_cons, place, singleton_append,
      nil_append]
    exact perm_middle.symm
  have hlen := hafter.length_eq
  rw [length_cons] at hlen
  refine ⟨?_, ?_, ?_, ?_⟩
  · rwa [← hlen]
  -- the sample comes behind all that workers are at
  · rw [← hlen, range'_concat, Nat.one_mul, ← hk]
    exact hafter.symm.trans ((h.places.cons k).trans (perm_append_singleton _ _).symm)
  · refine forall_replace (hws ▸ h.fits) ?_
    rw [Worker.Fits, getElem?_map, hk, hx]
    rfl
  · rw [h.put, hws, countP_middle, countP_middle]
    rfl

theorem give {b : β} (hws : s.workers = l ++ .giving k b :: r) :
    InTurn c xs { s with results := s.results ++ [.item b], workers := l ++ .counting k :: r } := by
  obtain ⟨rfl, hb⟩ := h.fits_of_split hws
  have hothers := h.countP_others hws rfl
  have hnone : s.workers.countP hasGiven = 0 := by
    rw [hws, countP_middle, hothers]
    rfl
  have hone : (l ++ .counting s.turn :: r).countP hasGiven = 1 := by
    rw [countP_middle, hothers]
    rfl
  have hsame : State.places { s with results := s.results ++ [.item b], workers := l ++ .counting s.turn :: r }
      = s.places := by simp [State.places, hws, place]
  refine ⟨?_, ?_, ?_, ?_⟩
  · rw [hsame]
    exact h.rest
  · rw [hsame]
    exact h.places
  · exact forall_replace (hws ▸ h.fits) rfl
  · rw [items_append, ← append_assoc, h.put, hnone, hone, Nat.add_zero, take_add_one, hb]
    rfl

theorem advance {v : Nat} (hws : s.workers = l ++ .advancing k v :: r) :
    InTurn c xs { s with turn := v + 1, workers := l ++ .taking :: r } := by
  obtain ⟨rfl, rfl⟩ := h.fits_of_split hws
  have hothers := h.countP_others hws rfl
  have hone : s.workers.countP hasGiven = 1 := by
    rw [hws, countP_middle, hothers]
    rfl
  have hnone : (l ++ .taking :: r).countP hasGiven = 0 := by
    rw [countP_middle, hothers]
    rfl
  have hbefore : s.places.Perm (s.turn :: State.places { s with turn := s.turn + 1, workers := l ++ .taking :: r }) := by
    simp only [State.places, hws, flatMap_append, flatMap_cons, place, singleton_append,
      nil_append]
    exact perm_middle
  have hlen := hbefore.length_eq
  rw [length_cons] at hlen
  -- as many samples have been taken as before, of which one more is dealt with
  refine ⟨?_, ?_, ?_, ?_⟩
  · have hrest := h.rest
    rwa [hlen, ← Nat.add_assoc, Nat.add_right_comm] at hrest
  · have hplaces := h.places
    rw [hlen, range'_succ] at hplaces
    exact (hbefore.symm.trans hplaces).cons_inv
  · have hall := h.fits
    rw [hws, forall_mem_append, forall_mem_cons] at hall
    have hnot := forall_mem_append.mp (h.others hws rfl)
    rw [forall_mem_append, forall_mem_cons]
    refine ⟨fun w hw => fits_succ (hall.1 w hw) (hnot.1 w hw), trivial, fun w hw => ?_⟩
    exact fits_succ (hall.2.2 w hw) (hnot.2 w hw)
  · rw [h.put, hone, hnone]

end

end InTurn

/-- **Step lemma of the order.** -/
theorem Step.inTurn (hc : c.ordered) (h : Step c s s') (hplain : Unmistakable c s) (hs : InTurn c xs s) :
    InTurn c xs s' := by
  cases h with
  | take _ _ hordered | give _ _ hordered => exact absurd (hc.symm.trans hordered) (by decide)
  | hold hws hsamples _ => exact hs.hold hws hsamples
  | giveInTurn hws _ _ => exact hplain.message_eq hws ▸ hs.give hws
  | advance hws => exact hs.advance hws
  | spin => exact hs
  | read hunread _ => exact hs.frame rfl (by simp [hunread]) rfl rfl rfl hs.fits
  | yield _ hres | hear _ hres => exact hs.frame rfl rfl (by simp [hres]) rfl rfl hs.fits
  | release hws => exact hs.replace hws rfl rfl rfl rfl rfl rfl ⟨rfl, hs.fits_of_split hws⟩
  | count hws => exact hs.replace hws rfl rfl rfl rfl rfl rfl ⟨hs.fits_of_split hws, rfl⟩
  | takeStop hws hsamples => exact hs.replace hws rfl rfl (by simp [hsamples]) rfl rfl rfl trivial
  | putBack hws _ => exact hs.replace hws rfl rfl (by simp) rfl rfl rfl trivial
  | passOn hws _ => exact hs.replace hws rfl rfl rfl (by simp) rfl rfl trivial

/-! ## 5. All states that can be reached -/

/-- The states that the threads can come to, taking steps in any order. -/
inductive Reachable (c : Setting α β) (xs : List α) : State α β → Prop
  | start : Reachable c xs (start c xs)
  | step {s s' : State α β} {t : Thread} (hs : Reachable c xs s) (h : step c s t = some s') : Reachable c xs s'

structure Inv (c : Setting α β) (xs : List α) (s : State α β) : Prop where
  length : s.workers.length = c.workers
  waiting : Waiting c s
  feeding : Feeding s
  ending : Ending s
  closing : Closing s
  results : (allResults c s).Perm (xs.map c.mapper)
  inTurn : c.ordered → InTurn c xs s

theorem items_map_item (ps : List γ) : items (ps.map .item) = ps := by
  induction ps with
  | nil => rfl
  | cons p ps ih => rw [map_cons, items_item, ih]

section Start

variable (c xs)

theorem unread_start : (start c xs).unread = (numbered xs).map .item ++ [.stop] := by
  rw [start, numbered, map_map]
  rfl

theorem countP_start {p : Worker β → Bool} (hp : p .taking = false) :
    (start c xs).workers.countP p = 0 := by
  simp [start, countP_replicate, hp]

theorem inv_start : Inv c xs (start c xs) where
  length := length_replicate
  waiting _ := countP_start c xs rfl
  feeding := by
    refine .inl ⟨numbered xs, ?_, countP_start c xs rfl, fun _ => countP_start c xs rfl⟩
    rw [unread_start]
    rfl
  ending := countP_start c xs rfl
  closing q b h := by simp [start] at h
  results := by
    have hheld : (start c xs).workers.flatMap held = [] := by simp [start, held]
    have hmap : (numbered xs).map (fun p => c.mapper p.2) = xs.map c.mapper := by
      rw [numbered, map_map]
      conv_rhs => rw [← xs.zipIdx_map_fst 0, map_map]
      rfl
    rw [allResults, hheld, unread_start, items_append, items_append, items_map_item]
    simp [start, hmap]
  inTurn _ := by
    have hplaces : (start c xs).places = [] := by simp [State.places, start, place]
    refine ⟨?_, ?_, ?_, ?_⟩
    · rw [hplaces, unread_start, items_append, items_append, items_map_item]
      simp [start]
    · rw [hplaces]
      exact .refl _
    · intro w hw
      rw [eq_of_mem_replicate hw]
      trivial
    · rw [countP_start c xs rfl]
      rfl

end Start

/-- No sample is mapped to a sign. -/
def Setting.Clean (c : Setting α β) (xs : List α) : Prop := ∀ x ∈ xs, c.isSign (c.mapper x) = false

/-- What a worker holds is the result of a sample. -/
theorem Inv.unmistakable (h : Inv c xs s) (hclean : c.Clean xs) : Unmistakable c s := by
  intro k b hb
  have hmem : b ∈ allResults c s := by
    refine mem_append_right _ (mem_append_right _ (mem_append_left _ ?_))
    exact mem_flatMap.mpr ⟨_, hb, mem_cons_self⟩
  obtain ⟨x, hx, rfl⟩ := mem_map.mp (h.results.mem_iff.mp hmem)
  rw [Setting.message, hclean x hx]
  rfl

theorem Step.inv (hclean : c.Clean xs) (h : Step c s s') (hs : Inv c xs s) : Inv c xs s' where
  length := h.length_workers.trans hs.length
  waiting := h.waiting hs.waiting
  feeding := h.feeding hs.feeding
  ending := h.ending (hs.unmistakable hclean) hs.ending
  closing := h.closing hs.closing
  results := (h.perm_allResults (hs.unmistakable hclean)).trans hs.results
  inTurn hc := h.inTurn hc (hs.unmistakable hclean) (hs.inTurn hc)

theorem Reachable.inv (h : Reachable c xs s) (hclean : c.Clean xs) : Inv c xs s := by
  induction h with
  | start => exact inv_start c xs
  | step _ hstep ih => exact (step_cases hstep).inv hclean ih

/-- A consumer hands on no sign. -/
theorem Reachable.yielded_plain (h : Reachable c xs s) :
    ∀ b ∈ s.yielded ++ items s.results, c.isSign b = false := by
  induction h with
  | start => exact forall_mem_nil _
  | step _ hstep ih =>
    cases step_cases hstep with
    | @give _ _ _ b _ _ _ | @giveInTurn _ _ _ b _ _ _ =>
      rw [items_append, ← append_assoc]
      refine forall_mem_append.mpr ⟨ih, ?_⟩
      cases hsign : c.isSign b <;> simp [Setting.message, hsign]
    | yield _ hres | hear _ hres => simpa [hres] using ih
    | passOn => simpa using ih
    | _ => exact ih

end TensorKit.Reader.Parallel
