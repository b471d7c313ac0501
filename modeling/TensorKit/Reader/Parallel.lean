/-!
Mapping samples by several workers at once.

A reader puts the samples into a queue; workers take them from it, apply a function and put the results into a second
queue; a consumer hands these on.  Behind the last sample comes a sign that there are no more.  A worker that takes the
sign puts it back for the others, passes one on to the consumer, and is done; the consumer is finished when it has a
sign from every worker.  In an ordered map a worker holds its result back until it is the turn of its sample.

All of them take steps one at a time, in any order.  A step is one operation on a queue, or one look at the turn or
change of it.
-/

namespace TensorKit.Reader.Parallel

/-! ## 1. Threads -/

/-- What stands in a queue: an item, or the sign that no more come. -/
inductive Message (α : Type) where
  | item (a : α)
  | stop

structure Setting (α β : Type) where
  mapper : α → β
  workers : Nat
  /-- how many messages a queue holds; zero if there is no bound -/
  size : Nat
  ordered : Bool := false
  /-- is a result itself a sign that no more come? -/
  isSign : β → Bool := fun _ => false

def Setting.hasRoom {α β γ : Type} (c : Setting α β) (queue : List γ) : Bool :=
  c.size == 0 || queue.length < c.size

/-- How a result stands in the queue to the consumer, which cannot tell one sign from another. -/
def Setting.message {α β : Type} (c : Setting α β) (r : β) : Message β :=
  if c.isSign r then .stop else .item r

inductive Worker (β : Type) where
  /-- take a sample -/
  | taking
  /-- look whether it is the turn of its sample, which it does until it is -/
  | waiting (place : Nat) (result : β)
  /-- put its result -/
  | giving (place : Nat) (result : β)
  /-- look at the turn, to make it the next -/
  | counting (place : Nat)
  /-- make the turn the one after what it saw -/
  | advancing (place seen : Nat)
  /-- put the sign back for the other workers -/
  | returning
  /-- pass a sign on to the consumer -/
  | ending
  | done

structure State (α β : Type) where
  /-- what the reader has still to put: samples with their places, and the sign -/
  unread : List (Message (Nat × α))
  /-- the queue to the workers -/
  samples : List (Message (Nat × α)) := []
  workers : List (Worker β)
  /-- the place of the sample whose result comes next -/
  turn : Nat := 0
  /-- the queue to the consumer -/
  results : List (Message β) := []
  yielded : List β := []
  /-- how many signs the consumer has taken -/
  ended : Nat := 0

inductive Thread where
  | reader
  | worker (i : Nat)
  | consumer

variable {α β : Type}

/-! ## 2. Steps -/

variable (c : Setting α β) (s : State α β)

/-- The next operation of a worker, if it can be done: what the worker does after it, and the state but for that. -/
def act : Worker β → Option (Worker β × State α β)
  | .taking => match s.samples with
    | [] => none
    | .stop :: rest => some (.returning, { s with samples := rest })
    | .item (k, a) :: rest =>
      let r := c.mapper a
      some (if c.ordered then .waiting k r else .giving k r, { s with samples := rest })
  | .waiting k r => some (if k = s.turn then .giving k r else .waiting k r, s)
  | .giving k r =>
    if c.hasRoom s.results then
      some (if c.ordered then .counting k else .taking, { s with results := s.results ++ [c.message r] })
    else none
  | .counting k => some (.advancing k s.turn, s)
  | .advancing _ v => some (.taking, { s with turn := v + 1 })
  | .returning => if c.hasRoom s.samples then some (.ending, { s with samples := s.samples ++ [.stop] }) else none
  | .ending => if c.hasRoom s.results then some (.done, { s with results := s.results ++ [.stop] }) else none
  | .done => none

/-- Has the consumer a sign from every worker?  It waits for one in any case. -/
def State.isFinished : Bool := 1 ≤ s.ended && c.workers ≤ s.ended

def step : Thread → Option (State α β)
  | .reader => match s.unread with
    | [] => none
    | m :: rest => if c.hasRoom s.samples then some { s with unread := rest, samples := s.samples ++ [m] } else none
  | .worker i => do
    let (w, s') ← act c s (← s.workers[i]?)
    return { s' with workers := s.workers.set i w }
  | .consumer =>
    if s.isFinished c then none
    else match s.results with
      | [] => none
      | .item r :: rest => some { s with results := rest, yielded := s.yielded ++ [r] }
      | .stop :: rest => some { s with results := rest, ended := s.ended + 1 }

def start (xs : List α) : State α β where
  unread := xs.zipIdx.map (fun p => .item (p.2, p.1)) ++ [.stop]
  workers := List.replicate c.workers .taking

/-! ## 3. Running -/

variable {γ : Type} (f : γ → Nat)

def total (xs : List γ) : Nat := xs.foldr (fun x n => f x + n) 0

@[simp] theorem total_nil : total f [] = 0 := rfl

@[simp] theorem total_cons (x : γ) (xs : List γ) : total f (x :: xs) = f x + total f xs := rfl

@[simp] theorem total_append (xs ys : List γ) : total f (xs ++ ys) = total f xs + total f ys := by
  induction xs with
  | nil => simp
  | cons x xs ih => rw [List.cons_append, total_cons, total_cons, ih, Nat.add_assoc]

/-- An upper bound of the operations that a message in the queue to the workers still needs. -/
def Message.work : Message γ → Nat
  | item _ => 6
  | stop => 0

/-- An upper bound of the operations that a worker still needs, but for samples it will take. -/
def Worker.work : Worker β → Nat
  | taking => 4
  | waiting .. => 9
  | giving .. => 8
  | counting _ => 6
  | advancing .. => 5
  | returning => 3
  | ending => 2
  | done => 0

/-- An upper bound of the operations that are left, looks at the turn of another sample apart. -/
def State.work : Nat :=
  total (·.work + 1) s.unread + total Message.work s.samples + total Worker.work s.workers + s.results.length

/-- The threads, those first that others may wait for. -/
def threads : List Thread := .consumer :: (List.range c.workers).map .worker ++ [.reader]

def next? : Option (State α β) :=
  (threads c).findSome? fun t => (step c s t).filter fun s' => s'.work < s.work

theorem work_lt_of_next? {c : Setting α β} {s s' : State α β} (h : next? c s = some s') : s'.work < s.work := by
  obtain ⟨t, -, ht⟩ := List.exists_of_findSome?_eq_some h
  exact of_decide_eq_true (Option.filter_eq_some_iff.mp ht).2

def run (c : Setting α β) (s : State α β) : State α β :=
  match h : next? c s with
  | none => s
  | some s' =>
    have := work_lt_of_next? h
    run c s'
termination_by s.work

def mapped (xs : List α) : List β := (run c (start c xs)).yielded

end TensorKit.Reader.Parallel
