import TensorKit.Proofs.Reader.ParallelInvariants
/-!
# Samples that are mapped by several workers

A consumer that is finished has a sign from every worker; then all workers are done and nothing is under way, so it has
handed on what there is (`Inv.results_of_finished`).  Before that some thread can go on (`Inv.canProceed`): the consumer
if there are results, else a worker that has something to put or to do about the turn, else one that looks for a sample,
or the reader.  If all workers wait for their turn, it is the turn of one of them.

The result is `proceeds_until_mapped`.
-/

namespace TensorKit.Reader.Parallel

open List Worker

variable {α β : Type} {c : Setting α β} {xs : List α} {s s' : State α β}

/-! ## 1. The end -/

namespace Inv

variable (h : Inv c xs s)

include h

section

variable (hfinished : s.isFinished c)

include hfinished

/-- A consumer that is finished has a sign of every worker, and there is no other. -/
theorem countP_of_finished :
    0 < s.workers.length ∧ s.workers.countP isDone = s.workers.length ∧ s.results.countP Message.isStop = 0 := by
  obtain ⟨hended, hall⟩ : 1 ≤ s.ended ∧ c.workers ≤ s.ended := by simpa [State.isFinished] using hfinished
  have hlen := h.length
  have hending := h.ending
  rw [Ending] at hending
  have hle : s.workers.countP isDone ≤ s.workers.length := countP_le_length
  omega

theorem done_of_finished : ∀ w ∈ s.workers, w = .done := by
  intro w hw
  have hdone := countP_eq_length.mp (h.countP_of_finished hfinished).2.1 w hw
  cases w with
  | done => rfl
  | _ => cases hdone

theorem results_of_finished : s.results = [] := by
  rcases s.results.eq_nil_or_concat' with hnil | ⟨q, m, hlast⟩
  · exact hnil
  · cases m with
    | item b =>
      -- some worker that is not done would have to pass its sign on
      obtain ⟨w, hw, hnot⟩ := h.closing q b hlast
      rw [h.done_of_finished hfinished w hw] at hnot
      cases hnot
    | stop =>
      have hstops := (h.countP_of_finished hfinished).2.2
      rw [hlast, countP_middle, Message.isStop, Bool.toNat_true] at hstops
      omega

theorem rest_of_finished : items (s.samples ++ s.unread) = [] := by
  rcases h.feeding with ⟨ps, hps, -, hleft⟩ | ⟨hnil, -⟩
  · have hnil : ps = [] := by
      by_contra hne
      have hnone := countP_eq_zero.mp (hleft hne)
      obtain ⟨w, hw⟩ := exists_mem_of_length_pos (h.countP_of_finished hfinished).1
      exact hnone w hw (by rw [h.done_of_finished hfinished w hw]; rfl)
    rw [hps, hnil]
    rfl
  · rw [hnil]
    rfl

theorem perm_of_finished : s.yielded.Perm (xs.map c.mapper) := by
  have hheld : s.workers.flatMap held = [] := by
    refine flatMap_eq_nil_iff.mpr fun w hw => ?_
    rw [h.done_of_finished hfinished w hw]
    rfl
  have hperm := h.results
  rw [allResults, h.results_of_finished hfinished, hheld, h.rest_of_finished hfinished] at hperm
  simpa using hperm

end

theorem eq_of_finished (hc : c.ordered) (hfinished : s.isFinished c) :
    s.yielded = xs.map c.mapper := by
  have hdone := h.done_of_finished hfinished
  have hturn := h.inTurn hc
  have hplaces : s.places = [] := by
    refine flatMap_eq_nil_iff.mpr fun w hw => ?_
    rw [hdone w hw]
    rfl
  have hgiven : s.workers.countP hasGiven = 0 := by
    refine countP_eq_zero.mpr fun w hw => ?_
    rw [hdone w hw]
    exact Bool.false_ne_true
  have hlen : xs.length ≤ s.turn := by
    have hdrop := hturn.rest
    rw [h.rest_of_finished hfinished, hplaces, length_nil, Nat.add_zero, eq_comm, drop_eq_nil_iff] at hdrop
    simpa [numbered] using hdrop
  have hput := hturn.put
  rwa [h.results_of_finished hfinished, hgiven, items_nil, append_nil, Nat.add_zero,
    take_of_length_le (by simpa using hlen)] at hput

end Inv

/-! ## 2. No deadlock -/

theorem hasRoom_nil {γ : Type} (c : Setting α β) : c.hasRoom ([] : List γ) := by
  rw [Setting.hasRoom]
  cases c.size <;> rfl

/-- Some thread can take a step that brings the end nearer. -/
def CanProceed (c : Setting α β) (s : State α β) : Prop := ∃ t s', step c s t = some s' ∧ s'.work < s.work

theorem canProceed_of_ne {t : Thread} (h : step c s t = some s') (hne : s' ≠ s) : CanProceed c s :=
  ⟨t, s', h, (step_cases h).work.resolve_left hne⟩

theorem canProceed_of_act {l r : List (Worker β)} {w w' : Worker β} (hws : s.workers = l ++ w :: r)
    (hact : act c s w = some (w', s')) (hne : w' ≠ w) : CanProceed c s := by
  have hstep : step c s (.worker l.length) = some { s' with workers := l ++ w' :: r } := by simp [step, hws, hact]
  refine canProceed_of_ne hstep fun heq => hne ?_
  have hsame : l ++ w' :: r = l ++ w :: r := (congrArg State.workers heq).trans hws
  exact (cons.inj (append_cancel_left hsame)).1

/-- A consumer that is not finished takes what stands in its queue. -/
theorem canProceed_of_results (hunfinished : s.isFinished c = false) (hres : s.results ≠ []) : CanProceed c s := by
  cases hq : s.results with
  | nil => exact absurd hq hres
  | cons m rest =>
    obtain ⟨s', hstep, rfl⟩ : ∃ s', step c s .consumer = some s' ∧ s'.results = rest := by
      cases m <;> simp [step, hunfinished, hq]
    exact canProceed_of_ne hstep fun heq => cons_ne_self m s'.results (hq.symm.trans (heq ▸ rfl))

/-- A reader puts its next message where there is room. -/
theorem canProceed_of_unread (hsamples : s.samples = []) (hunread : s.unread ≠ []) : CanProceed c s := by
  cases hq : s.unread with
  | nil => exact absurd hq hunread
  | cons m rest =>
    have hstep : step c s .reader = some { s with unread := rest, samples := s.samples ++ [m] } := by
      simp [step, hq, hsamples, hasRoom_nil]
    refine canProceed_of_ne hstep fun heq => cons_ne_self m rest ?_
    exact hq.symm.trans (congrArg State.unread heq).symm

/-- Does the worker neither look for a sample or its turn, nor is it done? -/
def Worker.isBusy : Worker β → Bool
  | giving .. | counting _ | advancing .. | returning | ending => true
  | _ => false

section

variable (h : Inv c xs s)

include h

/-- With its queues empty where it puts something, a busy worker does what it is about to do. -/
theorem canProceed_of_busy (hres : s.results = []) {w : Worker β} (hw : w ∈ s.workers)
    (hbusy : w.isBusy) : CanProceed c s := by
  obtain ⟨l, r, hws⟩ := append_of_mem hw
  have hroom : c.hasRoom s.results := hres ▸ hasRoom_nil c
  cases w with
  | giving k b =>
    refine canProceed_of_act hws (if_pos hroom) ?_
    split <;> simp
  | counting | advancing => exact canProceed_of_act hws rfl (by simp)
  | ending => exact canProceed_of_act hws (if_pos hroom) (by simp)
  | returning =>
    -- a worker has the sign, so there is nothing else in the queue
    rcases h.feeding with ⟨ps, -, hnone, -⟩ | ⟨hnil, -⟩
    · rw [hws, countP_middle, isReturning, Bool.toNat_true] at hnone
      omega
    · have hempty : c.hasRoom s.samples := (append_eq_nil_iff.mp hnil).1 ▸ hasRoom_nil c
      exact canProceed_of_act hws (if_pos hempty) (by simp)
  | _ => cases hbusy

/-- A worker that looks for a sample finds one, or the sign, or the reader can put one. -/
theorem canProceed_of_taking (htaking : .taking ∈ s.workers)
    (hidle : ∀ w ∈ s.workers, w.isBusy = false) : CanProceed c s := by
  obtain ⟨l, r, hws⟩ := append_of_mem htaking
  cases hsamples : s.samples with
  | nil =>
    refine canProceed_of_unread hsamples fun hunread => ?_
    -- nothing is on its way, so a worker has the sign and is busy putting it back
    rcases h.feeding with ⟨ps, hps, -, -⟩ | ⟨-, hone⟩
    · rw [hsamples, hunread] at hps
      simp at hps
    · obtain ⟨w, hw, hreturning⟩ := countP_pos_iff.mp (hone ▸ Nat.one_pos)
      cases w with
      | returning => cases hidle _ hw
      | _ => cases hreturning
  | cons m rest =>
    cases m with
    | item p =>
      have hact : act c s .taking = some (if c.ordered then .waiting p.1 (c.mapper p.2) else .giving p.1 (c.mapper p.2),
          { s with samples := rest }) := by
        rw [act, hsamples]
      refine canProceed_of_act hws hact ?_
      split <;> simp
    | stop =>
      have hact : act c s .taking = some (.returning, { s with samples := rest }) := by rw [act, hsamples]
      exact canProceed_of_act hws hact (by simp)

/-- If workers wait, and all others are done, it is the turn of one that waits. -/
theorem canProceed_of_waiting {w : Worker β} (hw : w ∈ s.workers) (hwaiting : w.isWaiting)
    (hidle : ∀ w ∈ s.workers, w.isBusy = false) : CanProceed c s := by
  have hc : c.ordered := by
    by_contra hne
    have hnone := countP_eq_zero.mp (h.waiting (Bool.not_eq_true _ |>.mp hne)) w hw
    exact hnone hwaiting
  have hturn := h.inTurn hc
  have hplace : w.place ≠ [] := by
    cases w with
    | waiting k b => exact cons_ne_nil _ _
    | _ => cases hwaiting
  have hlen : s.places.length ≠ 0 := by
    intro hzero
    exact hplace (flatMap_eq_nil_iff.mp (length_eq_zero_iff.mp hzero) w hw)
  have hmem : s.turn ∈ s.places := by
    rw [hturn.places.mem_iff, mem_range'_1]
    omega
  obtain ⟨v, hv, hplace⟩ := mem_flatMap.mp hmem
  have hbusy := hidle v hv
  obtain ⟨l, r, hws⟩ := append_of_mem hv
  cases v with
  | waiting k b =>
    obtain rfl : s.turn = k := mem_singleton.mp hplace
    exact canProceed_of_act hws (congrArg (fun w => some (w, s)) (if_pos rfl)) (by simp)
  | taking | done => cases hplace
  | _ => cases hbusy

/-- **No deadlock.**  As long as the consumer is not finished, some thread can bring the end nearer. -/
theorem Inv.canProceed (hws : 1 ≤ c.workers) (hunfinished : s.isFinished c = false) :
    CanProceed c s := by
  by_cases hres : s.results = []
  · by_cases hbusy : ∃ w ∈ s.workers, w.isBusy
    · obtain ⟨w, hw, hbusy⟩ := hbusy
      exact canProceed_of_busy h hres hw hbusy
    · have hidle : ∀ w ∈ s.workers, w.isBusy = false := fun w hw =>
        Bool.not_eq_true _ |>.mp fun htrue => hbusy ⟨w, hw, htrue⟩
      by_cases hall : ∃ w ∈ s.workers, w.isDone = false
      · obtain ⟨w, hw, hnot⟩ := hall
        have hbusy := hidle w hw
        cases w with
        | taking => exact canProceed_of_taking h hw hidle
        | waiting k b => exact canProceed_of_waiting h hw rfl hidle
        | done => cases hnot
        | _ => cases hbusy
      · -- all workers are done, and the consumer has taken their signs
        have hdone : s.workers.countP isDone = s.workers.length := by
          refine countP_eq_length.mpr fun w hw => ?_
          by_contra hne
          exact hall ⟨w, hw, Bool.not_eq_true _ |>.mp hne⟩
        have hended := h.ending
        rw [Ending, hdone, h.length, hres, countP_nil, Nat.add_zero] at hended
        rw [State.isFinished, ← hended, decide_eq_true hws, decide_eq_true (Nat.le_refl _)] at hunfinished
        cases hunfinished
  · exact canProceed_of_results hunfinished hres

/-! ## 3. Running to the end -/

theorem mem_threads_of_step {t : Thread} (ht : step c s t = some s') : t ∈ threads c := by
  cases t with
  | reader | consumer => simp [threads]
  | worker i =>
    obtain ⟨w, hw, -⟩ := Option.bind_eq_some_iff.mp ht
    have hi : i < c.workers := h.length ▸ (List.getElem?_eq_some_iff.mp hw).1
    simp [threads, hi]

theorem not_canProceed_of_next? (hnext : next? c s = none) : ¬ CanProceed c s := by
  rintro ⟨t, s', hstep, hlt⟩
  have hnone := findSome?_eq_none_iff.mp hnext t (mem_threads_of_step h hstep)
  rw [hstep, Option.filter_some, if_pos (decide_eq_true hlt)] at hnone
  cases hnone

end

theorem Reachable.next? (h : Reachable c xs s) (hnext : next? c s = some s') : Reachable c xs s' := by
  obtain ⟨t, -, ht⟩ := exists_of_findSome?_eq_some hnext
  exact h.step (Option.filter_eq_some_iff.mp ht).1

/-- From every state that can be reached, the consumer can be brought to its end. -/
theorem Reachable.run (h : Reachable c xs s) (hclean : c.Clean xs) (hws : 1 ≤ c.workers) :
    Reachable c xs (run c s) ∧ (run c s).isFinished c := by
  fun_induction Parallel.run c s with
  | case1 s hnext =>
    refine ⟨h, ?_⟩
    by_contra hne
    have hinv := h.inv hclean
    exact not_canProceed_of_next? hinv hnext (hinv.canProceed hws (Bool.not_eq_true _ |>.mp hne))
  | case2 s s' hnext _ ih => exact ih (h.next? hnext)

/-- **Samples that are mapped by several workers.**  However the threads take turns, the consumer hands on no sign.
Where no sample is mapped to one: a step that does not bring the end nearer leaves all as it is; as long as the consumer
is not finished, some thread can bring the end nearer; and when it is finished, it has handed on the results of all
samples, in an ordered map in the order of the samples. -/
theorem proceeds_until_mapped (hworkers : 1 ≤ c.workers) (hs : Reachable c xs s) :
    (∀ b ∈ s.yielded, c.isSign b = false) ∧ (c.Clean xs →
      (∀ t s', step c s t = some s' → s' = s ∨ s'.work < s.work) ∧
      (s.isFinished c = false → ∃ t s', step c s t = some s' ∧ s'.work < s.work) ∧ (s.isFinished c = true →
        s.yielded.Perm (xs.map c.mapper) ∧ (c.ordered = true → s.yielded = xs.map c.mapper)) ∧
      Reachable c xs (run c s) ∧ (run c s).isFinished c = true) := by
  refine ⟨fun b hb => hs.yielded_plain b (mem_append_left _ hb), fun hclean => ?_⟩
  have hinv := hs.inv hclean
  refine ⟨fun t s' h => (step_cases h).work, hinv.canProceed hworkers, fun hfinished => ?_, hs.run hclean hworkers⟩
  exact ⟨hinv.perm_of_finished hfinished, fun hc => hinv.eq_of_finished hc hfinished⟩

/-- Two workers that double three numbers, with queues for one message. -/
def doubling : Setting Nat Nat := { mapper := (2 * ·), workers := 2, size := 1, ordered := true }

/-- The second worker has the second sample and waits for its turn. -/
def overtaken : State Nat Nat where
  unread := [.item (2, 30), .stop]
  workers := [.waiting 0 20, .waiting 1 40]

/-- A worker whose result for the first of two samples is a sign. -/
def signalling : Setting Nat Nat := { mapper := id, workers := 1, size := 1, isSign := (· == 1) }

/-- A worker that waits takes its steps in vain, but the first one can go on, and all comes out in order.  A result
that is a sign ends the map before the others are handed on. -/
theorem proceeds_until_mapped_overtaken :
    (Reachable doubling [10, 20, 30] overtaken ∧ step doubling overtaken (.worker 1) = some overtaken ∧
      (∃ t s', step doubling overtaken t = some s' ∧ s'.work < overtaken.work) ∧
      (run doubling overtaken).yielded = [20, 40, 60]) ∧
    ∃ s, Reachable signalling [1, 2] s ∧ s.isFinished signalling ∧ s.yielded = [] := by
  have hreach : Reachable doubling [10, 20, 30] overtaken := by
    have hread : Reachable doubling [10, 20, 30]
        { unread := [.item (1, 20), .item (2, 30), .stop], samples := [.item (0, 10)], workers := [.taking, .taking] } :=
      .step (t := .reader) .start rfl
    have htaken : Reachable doubling [10, 20, 30]
        { unread := [.item (1, 20), .item (2, 30), .stop], workers := [.waiting 0 20, .taking] } :=
      .step (t := .worker 0) hread rfl
    have hsecond : Reachable doubling [10, 20, 30]
        { unread := [.item (2, 30), .stop], samples := [.item (1, 20)], workers := [.waiting 0 20, .taking] } :=
      .step (t := .reader) htaken rfl
    exact .step (t := .worker 1) hsecond rfl
  have hclean : doubling.Clean [10, 20, 30] := fun _ _ => rfl
  obtain ⟨-, hproceed, -, hrun, hfinished⟩ := (proceeds_until_mapped (by decide) hreach).2 hclean
  refine ⟨⟨hreach, rfl, hproceed rfl, ?_⟩, ?_⟩
  · exact (((proceeds_until_mapped (by decide) hrun).2 hclean).2.2.1 hfinished).2 rfl
  · have hgiven : Reachable signalling [1, 2]
        { unread := [.item (1, 2), .stop], workers := [.taking], results := [.stop] } :=
      .step (t := .worker 0) (.step (t := .worker 0) (.step (t := .reader) .start rfl) rfl) rfl
    exact ⟨_, .step (t := .consumer) hgiven rfl, rfl, rfl⟩

end TensorKit.Reader.Parallel
