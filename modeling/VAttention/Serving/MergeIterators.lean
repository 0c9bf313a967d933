import Mathlib.Algebra.BigOperators.Fin
import VAttention.Core.Sequence
import VAttention.Lib.Lists
import VAttention.Lib.Runs
import VAttention.Lib.Series

/-!
# Merged iterators

`merge_async_iterators` has a task for each iterator, which puts the items into a queue and then
sets a flag, and a consumer, which takes items from the queue until all flags are set and the queue
is empty.  The tasks are interleaved where they await something: a producer when it asks its
iterator for the next item, the consumer when it yields and when it gets from an empty queue.

Setting a flag does not wake the consumer.  If it tests its condition after the last item has been
taken but before the last flag is set, it waits for an item that never comes.
-/

namespace VAttention.Serving

open VAttention.Core VAttention.Lib

variable {n : Nat} {α : Type}

/-! ## Producers and consumer -/

/-- What the iterators yield, and the exceptions they end with if they do not end normally. -/
structure AsyncIterators (n : Nat) (α : Type) where
  items : Fin n → List α
  ending : Fin n → Option PyError

/-- What is put into the queue. -/
inductive QueueItem (n : Nat) (α : Type) where
  | item (i : Fin n) (a : α)
  | exception (e : PyError)

/-- Where the consumer is. -/
inductive ConsumerPhase where
  /-- Before the condition of the loop: at the start, or at `yield`. -/
  | test
  /-- At `queue.get()`, with an empty queue. -/
  | waiting
  /-- At `asyncio.gather`. -/
  | gathering
  | ended
  | raised (e : PyError)
  deriving DecidableEq

/-- The variables of `merge_async_iterators` and of its tasks. -/
structure MergeState (n : Nat) (α : Type) where
  remaining : Fin n → List α
  finished : Fin n → Bool
  cancelled : Bool
  queue : List (QueueItem n α)
  phase : ConsumerPhase
  yielded : List (Fin n × α)

/-- The tasks, the consumer being that of the caller. -/
inductive MergeTask (n : Nat) where
  | producer (i : Fin n)
  | consumer

namespace MergeState

/-- `all(finished)`. -/
def allFinished (s : MergeState n α) : Bool := decide (∀ i, s.finished i = true)

/-- The consumer gets from the queue, and yields or raises. -/
def take (s : MergeState n α) : Except Unit (MergeState n α) :=
  match s.queue with
  | [] => .error ()
  | .item i a :: queue => .ok { s with queue, yielded := s.yielded ++ [(i, a)], phase := .test }
  | .exception e :: queue => .ok { s with queue, phase := .raised e, cancelled := true }

/-- `consumer`, up to where it awaits something next. -/
def consume (s : MergeState n α) : Except Unit (MergeState n α) :=
  match s.phase with
  | .test =>
    if !s.allFinished || !s.queue.isEmpty then
      if s.queue.isEmpty then .ok { s with phase := .waiting } else s.take
    else .ok { s with phase := .gathering }
  | .waiting => s.take
  | .gathering => .ok { s with phase := .ended }
  | .ended | .raised _ => .error ()

end MergeState

namespace AsyncIterators

variable (iters : AsyncIterators n α)

/-- `producer`, from the next item of its iterator on.  The queue has no bound, so that `put` does
    not suspend. -/
def produce (i : Fin n) (s : MergeState n α) : Except Unit (MergeState n α) :=
  if s.finished i || s.cancelled then .error ()
  else
    match s.remaining i with
    | a :: rest =>
      .ok { s with
        remaining := Function.update s.remaining i rest
        queue := s.queue ++ [.item i a] }
    | [] =>
      .ok { s with
        queue := s.queue ++ (iters.ending i).toList.map .exception
        finished := Function.update s.finished i true }

/-- Resume a task; an error if it cannot go on. -/
def exec : MergeTask n → MergeState n α → Except Unit (MergeState n α)
  | .producer i, s => iters.produce i s
  | .consumer, s => s.consume

/-- The state after the call of `merge_async_iterators`. -/
def start : MergeState n α where
  remaining := iters.items
  finished _ := false
  cancelled := false
  queue := []
  phase := .test
  yielded := []

end AsyncIterators

/-! ## Moves -/

/-- What a task does when it is resumed. -/
inductive MergeMove (iters : AsyncIterators n α) (s : MergeState n α) :
    MergeTask n → MergeState n α → Prop where
  | put {i : Fin n} {a : α} {rest : List α} (hopen : s.finished i = false)
      (hrest : s.remaining i = a :: rest) :
      MergeMove iters s (.producer i) { s with
        remaining := Function.update s.remaining i rest
        queue := s.queue ++ [.item i a] }
  | finish {i : Fin n} (hopen : s.finished i = false) (hrest : s.remaining i = []) :
      MergeMove iters s (.producer i) { s with
        queue := s.queue ++ (iters.ending i).toList.map .exception
        finished := Function.update s.finished i true }
  | wait (hphase : s.phase = .test) (hqueue : s.queue = []) (hopen : s.allFinished = false) :
      MergeMove iters s .consumer { s with phase := .waiting }
  | take {i : Fin n} {a : α} {queue : List (QueueItem n α)}
      (hphase : s.phase = .test ∨ s.phase = .waiting) (hqueue : s.queue = .item i a :: queue) :
      MergeMove iters s .consumer
        { s with queue, yielded := s.yielded ++ [(i, a)], phase := .test }
  | raise {e : PyError} {queue : List (QueueItem n α)}
      (hphase : s.phase = .test ∨ s.phase = .waiting) (hqueue : s.queue = .exception e :: queue) :
      MergeMove iters s .consumer { s with queue, phase := .raised e, cancelled := true }
  | gather (hphase : s.phase = .test) (hqueue : s.queue = []) (hdone : s.allFinished = true) :
      MergeMove iters s .consumer { s with phase := .gathering }
  | stop (hphase : s.phase = .gathering) : MergeMove iters s .consumer { s with phase := .ended }

variable {iters : AsyncIterators n α} {s s' : MergeState n α} {task : MergeTask n}

theorem MergeMove.of_take (hphase : s.phase = .test ∨ s.phase = .waiting)
    (h : s.take = .ok s') : MergeMove iters s .consumer s' := by
  unfold MergeState.take at h
  split at h
  · cases h
  · rename_i i a queue hqueue
    cases h
    exact .take hphase hqueue
  · rename_i e queue hqueue
    cases h
    exact .raise hphase hqueue

/-- Every step of a task is a move. -/
theorem AsyncIterators.exec_move (h : iters.exec task s = .ok s') : MergeMove iters s task s' := by
  cases task with
  | producer i =>
    simp only [exec, produce] at h
    split_ifs at h with hopen
    rw [Bool.or_eq_true, not_or, Bool.not_eq_true] at hopen
    split at h
    · rename_i a rest hrest
      cases h
      exact .put hopen.1 hrest
    · rename_i hrest
      cases h
      exact .finish hopen.1 hrest
  | consumer =>
    simp only [exec, MergeState.consume] at h
    split at h
    · rename_i hphase
      split_ifs at h with hmore hempty
      · cases h
        have hqueue : s.queue = [] := List.isEmpty_iff.mp hempty
        exact .wait hphase hqueue (by simpa [hqueue] using hmore)
      · exact .of_take (.inl hphase) h
      · cases h
        obtain ⟨hdone, hqueue⟩ : s.allFinished = true ∧ s.queue = [] := by
          simpa using hmore
        exact .gather hphase hqueue hdone
    · rename_i hphase
      exact .of_take (.inr hphase) h
    · rename_i hphase
      cases h
      exact .stop hphase
    · cases h
    · cases h

/-! ## Every run ends -/

/-- What the producers still have to do. -/
def producersWork (remaining : Fin n → List α) (finished : Fin n → Bool) : Nat :=
  ((List.finRange n).map fun i => 3 * (remaining i).length + if finished i then 0 else 3).sum

theorem producersWork_put {remaining : Fin n → List α} (finished : Fin n → Bool) {i : Fin n} {a : α}
    {rest : List α} (h : remaining i = a :: rest) :
    producersWork (Function.update remaining i rest) finished + 3 =
      producersWork remaining finished := by
  show (List.map _ _).sum + 3 = (List.map _ _).sum + 0
  apply sum_map_add_eq_of_eq_of_ne (List.nodup_finRange n) (List.mem_finRange i)
  · simp [h]
    omega
  · intro j _ hj
    simp [hj]

theorem producersWork_finish (remaining : Fin n → List α) {finished : Fin n → Bool} {i : Fin n}
    (h : finished i = false) :
    producersWork remaining (Function.update finished i true) + 3 =
      producersWork remaining finished := by
  show (List.map _ _).sum + 3 = (List.map _ _).sum + 0
  apply sum_map_add_eq_of_eq_of_ne (List.nodup_finRange n) (List.mem_finRange i)
  · simp [h]
  · intro j _ hj
    simp [hj]

/-- What the consumer still has to do besides taking items. -/
def ConsumerPhase.work : ConsumerPhase → Nat
  | .test => 3
  | .waiting => 2
  | .gathering => 1
  | .ended | .raised _ => 0

/-- An item costs a put, a wait and a get. -/
def MergeState.work (s : MergeState n α) : Nat :=
  producersWork s.remaining s.finished + 2 * s.queue.length + s.phase.work

/-- **Every step lowers the work.** -/
theorem MergeMove.work_lt (h : MergeMove iters s task s') : s'.work < s.work := by
  cases h with
  | put hopen hrest =>
    have hwork := producersWork_put s.finished hrest
    simp only [MergeState.work, List.length_append, List.length_singleton]
    omega
  | @finish i hopen hrest =>
    have hwork := producersWork_finish s.remaining hopen
    have hlength : (iters.ending i).toList.length ≤ 1 := by
      cases iters.ending i <;> simp
    simp only [MergeState.work, List.length_append, List.length_map]
    omega
  | wait hphase _ _ => simp [MergeState.work, hphase, ConsumerPhase.work]
  | take hphase hqueue =>
    simp only [MergeState.work, hqueue, List.length_cons]
    rcases hphase with hphase | hphase <;> simp [hphase, ConsumerPhase.work]
    omega
  | raise hphase hqueue =>
    simp only [MergeState.work, hqueue, List.length_cons]
    rcases hphase with hphase | hphase <;> simp [hphase, ConsumerPhase.work] <;> omega
  | gather hphase _ _ => simp [MergeState.work, hphase, ConsumerPhase.work]
  | stop hphase => simp [MergeState.work, hphase, ConsumerPhase.work]

theorem AsyncIterators.exec_work_lt (iters : AsyncIterators n α) (task : MergeTask n)
    (s s' : MergeState n α) (h : iters.exec task s = .ok s') : s'.work < s.work :=
  (exec_move h).work_lt

/-! ## Nothing is lost -/

/-- The items in the queue. -/
def MergeState.queued (s : MergeState n α) : List (Fin n × α) :=
  s.queue.filterMap fun
    | .item i a => some (i, a)
    | .exception _ => none

/-- Invariant of all runs: each item is yielded, in the queue or still to come, in this order. -/
structure MergeInv (iters : AsyncIterators n α) (s : MergeState n α) : Prop where
  items : ∀ i, valuesAt i s.yielded ++ valuesAt i s.queued ++ s.remaining i = iters.items i
  exhausted : ∀ i, s.finished i = true → s.remaining i = []
  done : s.phase = .gathering ∨ s.phase = .ended → s.queue = [] ∧ s.allFinished = true

theorem MergeInv.start (iters : AsyncIterators n α) : MergeInv iters iters.start where
  items _ := rfl
  exhausted := by simp [AsyncIterators.start]
  done := by simp [AsyncIterators.start]

theorem MergeState.allFinished_eq_true : s.allFinished = true ↔ ∀ i, s.finished i = true := by
  simp [allFinished]

/-- The consumer is not done while an iterator is open. -/
theorem MergeInv.not_done {i : Fin n} (h : MergeInv iters s) (hopen : s.finished i = false) :
    ¬ (s.phase = .gathering ∨ s.phase = .ended) := by
  intro hphase
  have hall := MergeState.allFinished_eq_true.mp (h.done hphase).2
  simp [hall i] at hopen

theorem MergeInv.move (h : MergeInv iters s) (hmove : MergeMove iters s task s') :
    MergeInv iters s' := by
  cases hmove with
  | @put i a rest hopen hrest =>
    constructor
    case items =>
      intro j
      rw [← h.items j]
      by_cases hj : j = i
      · subst hj
        simp [MergeState.queued, hrest, valuesAt_singleton_self]
      · simp [MergeState.queued, hj, valuesAt_singleton_of_ne]
    case exhausted =>
      intro j hj
      have hne : j ≠ i := by
        rintro rfl
        simp [hopen] at hj
      simpa [hne] using h.exhausted j hj
    case done =>
      intro hphase
      exact absurd hphase (h.not_done hopen)
  | @finish i hopen hrest =>
    constructor
    case items =>
      intro j
      rw [← h.items j]
      cases iters.ending i <;> simp [MergeState.queued]
    case exhausted =>
      intro j hj
      by_cases hne : j = i
      · exact hne ▸ hrest
      · exact h.exhausted j (by simpa [hne] using hj)
    case done =>
      intro hphase
      exact absurd hphase (h.not_done hopen)
  | wait => exact ⟨h.items, h.exhausted, by simp⟩
  | @take i a queue hphase hqueue =>
    refine ⟨fun j => ?_, h.exhausted, by simp⟩
    have hqueued : s.queued = (i, a) :: MergeState.queued { s with queue } := by
      simp [MergeState.queued, hqueue]
    rw [← h.items j, hqueued, valuesAt_cons, valuesAt_append, List.append_assoc (valuesAt j _)]
    rfl
  | raise hphase hqueue =>
    refine ⟨fun j => ?_, h.exhausted, by simp⟩
    rw [← h.items j]
    simp [MergeState.queued, hqueue]
  | gather _ hqueue hdone => exact ⟨h.items, h.exhausted, fun _ => ⟨hqueue, hdone⟩⟩
  | stop hphase => exact ⟨h.items, h.exhausted, fun _ => h.done (.inl hphase)⟩

/-! ## Iterators that end normally -/

/-- All iterators end normally. -/
def AsyncIterators.EndNormally (iters : AsyncIterators n α) : Prop := ∀ i, iters.ending i = none

/-- No exception is under way. -/
structure Undisturbed (s : MergeState n α) : Prop where
  queue : ∀ e, .exception e ∉ s.queue
  cancelled : s.cancelled = false
  phase : ∀ e, s.phase ≠ .raised e

theorem Undisturbed.start (iters : AsyncIterators n α) : Undisturbed iters.start :=
  ⟨by simp [AsyncIterators.start], rfl, by simp [AsyncIterators.start]⟩

theorem Undisturbed.move (hnormal : iters.EndNormally) (h : Undisturbed s)
    (hmove : MergeMove iters s task s') : Undisturbed s' := by
  cases hmove with
  | put => exact ⟨by simpa using h.queue, h.cancelled, h.phase⟩
  | @finish i => exact ⟨by simpa [hnormal i] using h.queue, h.cancelled, h.phase⟩
  | wait | gather | stop => exact ⟨h.queue, h.cancelled, by simp⟩
  | take hphase hqueue =>
    refine ⟨fun e he => h.queue e ?_, h.cancelled, by simp⟩
    rw [hqueue]
    exact List.mem_cons_of_mem _ he
  | @raise e _ hphase hqueue => exact absurd (by simp [hqueue]) (h.queue e)

/-- No task can go on. -/
def AsyncIterators.Stuck (iters : AsyncIterators n α) (s : MergeState n α) : Prop :=
  ∀ task s', iters.exec task s ≠ .ok s'

theorem MergeState.exists_take (h : s.queue ≠ []) : ∃ s', s.take = .ok s' := by
  unfold take
  split
  · contradiction
  · exact ⟨_, rfl⟩
  · exact ⟨_, rfl⟩

theorem AsyncIterators.exists_produce (iters : AsyncIterators n α) {i : Fin n}
    (hopen : s.finished i = false) (hcancelled : s.cancelled = false) :
    ∃ s', iters.exec (.producer i) s = .ok s' := by
  simp only [exec, produce, hopen, hcancelled, Bool.or_self, Bool.false_eq_true, if_false]
  split
  · exact ⟨_, rfl⟩
  · exact ⟨_, rfl⟩

/-- When no task can go on, all producers have finished. -/
theorem AsyncIterators.Stuck.allFinished (h : iters.Stuck s) (hs : Undisturbed s) (i : Fin n) :
    s.finished i = true := by
  by_contra hopen
  obtain ⟨s', hs'⟩ := iters.exists_produce (i := i) (by simpa using hopen) hs.cancelled
  exact h _ s' hs'

/-- When no task can go on, the consumer has ended or waits at an empty queue. -/
theorem AsyncIterators.Stuck.phase_cases (h : iters.Stuck s) (hs : Undisturbed s) :
    s.phase = .ended ∨ s.phase = .waiting ∧ s.queue = [] := by
  have hconsumer : ∀ s', s.consume ≠ .ok s' := h .consumer
  unfold MergeState.consume at hconsumer
  cases hphase : s.phase with
  | test =>
    simp only [hphase] at hconsumer
    split_ifs at hconsumer with hmore hempty
    · exact absurd rfl (hconsumer _)
    · obtain ⟨s', hs'⟩ := MergeState.exists_take (by simpa using hempty)
      exact absurd hs' (hconsumer s')
    · exact absurd rfl (hconsumer _)
  | waiting =>
    simp only [hphase] at hconsumer
    by_cases hqueue : s.queue = []
    · exact .inr ⟨rfl, hqueue⟩
    · obtain ⟨s', hs'⟩ := MergeState.exists_take hqueue
      exact absurd hs' (hconsumer s')
  | gathering =>
    simp only [hphase] at hconsumer
    exact absurd rfl (hconsumer _)
  | ended => exact .inl rfl
  | raised e => exact absurd hphase (hs.phase e)

/-! ## When the consumer waits forever -/

/-- The last item has been taken, but not all flags are set. -/
def MergeState.exhausted (s : MergeState n α) : Bool :=
  s.queue.isEmpty && decide (∀ i, (s.remaining i).isEmpty = true) && !s.allFinished

/-- The consumer does not test its condition between the last item and the last flag. -/
def MergeState.testsInTime (s : MergeState n α) : MergeTask n → Bool
  | .producer _ => true
  | .consumer => !(decide (s.phase = .test) && s.exhausted)

theorem MergeState.testsInTime_consumer_eq_false : s.testsInTime .consumer = false ↔
    s.phase = .test ∧ s.queue = [] ∧ (∀ i, s.remaining i = []) ∧ s.allFinished = false := by
  simp [testsInTime, exhausted, and_assoc]

/-- A consumer that waits still has an item to come. -/
def Awaits (s : MergeState n α) : Prop :=
  s.phase = .waiting → s.queue ≠ [] ∨ ∃ i, s.remaining i ≠ []

theorem Awaits.move (h : Awaits s) (htests : s.testsInTime task = true)
    (hmove : MergeMove iters s task s') : Awaits s' := by
  unfold Awaits at h ⊢
  cases hmove with
  | put => simp
  | finish =>
    intro hphase
    exact (h hphase).imp (by simp_all) id
  | wait hphase hqueue hopen =>
    intro _
    right
    by_contra hnone
    push Not at hnone
    have hlate := MergeState.testsInTime_consumer_eq_false.mpr ⟨hphase, hqueue, hnone, hopen⟩
    simp [hlate] at htests
  | take | raise | gather | stop => simp

/-- The consumer waits for an item that never comes. -/
structure Hangs (s : MergeState n α) : Prop where
  phase : s.phase = .waiting
  queue : s.queue = []
  remaining : ∀ i, s.remaining i = []

theorem Hangs.move (hnormal : iters.EndNormally) (h : Hangs s)
    (hmove : MergeMove iters s task s') : Hangs s' := by
  cases hmove with
  | @put i a rest _ hrest => simp [h.remaining i] at hrest
  | @finish i => exact ⟨h.phase, by simp [h.queue, hnormal i], h.remaining⟩
  | wait hphase | gather hphase | stop hphase => simp [h.phase] at hphase
  | take _ hqueue | raise _ hqueue => simp [h.queue] at hqueue

/-- A test between the last item and the last flag makes the consumer hang. -/
theorem Hangs.of_test (htests : s.testsInTime task = false) (hmove : MergeMove iters s task s') :
    Hangs s' := by
  cases task with
  | producer i => simp [MergeState.testsInTime] at htests
  | consumer =>
    obtain ⟨hphase, hqueue, hremaining, hopen⟩ :=
      MergeState.testsInTime_consumer_eq_false.mp htests
    cases hmove with
    | wait => exact ⟨rfl, hqueue, hremaining⟩
    | take _ hcons | raise _ hcons => simp [hqueue] at hcons
    | gather _ _ hdone => simp [hopen] at hdone
    | stop hgather => simp [hphase] at hgather

/-! ## What a run delivers -/

/-- Run tasks in the given order. -/
def AsyncIterators.run (iters : AsyncIterators n α) (tasks : List (MergeTask n))
    (s : MergeState n α) : Except Unit (MergeState n α) :=
  tasks.foldlM (fun s task => iters.exec task s) s

/-- The merged iterator has ended and has yielded all items of each iterator, in order. -/
structure AsyncIterators.Delivers (iters : AsyncIterators n α) (s : MergeState n α) : Prop where
  ended : s.phase = .ended
  items : ∀ i, valuesAt i s.yielded = iters.items i

variable {tasks : List (MergeTask n)}

/-- What every move keeps holds after a run. -/
theorem AsyncIterators.run_invariant (I : MergeState n α → Prop)
    (hmove : ∀ s task s', I s → MergeMove iters s task s' → I s')
    (hrun : iters.run tasks s = .ok s') (hs : I s) : I s' :=
  foldlM_ok_induction (fun task _ s s' hexec hs => hmove s task s' hs (exec_move hexec))
    tasks s s' hrun hs

theorem AsyncIterators.run_mergeInv (hrun : iters.run tasks iters.start = .ok s) :
    MergeInv iters s :=
  run_invariant (MergeInv iters) (fun _ _ _ h => h.move) hrun (.start iters)

theorem AsyncIterators.run_undisturbed (hnormal : iters.EndNormally)
    (hrun : iters.run tasks iters.start = .ok s) : Undisturbed s :=
  run_invariant Undisturbed (fun _ _ _ h => h.move hnormal) hrun (.start iters)

/-- At every time a prefix of each iterator's items has been yielded. -/
theorem MergeInv.exists_later (h : MergeInv iters s) (i : Fin n) :
    ∃ later, valuesAt i s.yielded ++ later = iters.items i :=
  ⟨valuesAt i s.queued ++ s.remaining i, by rw [← List.append_assoc, h.items i]⟩

/-- Once the consumer has ended, nothing is missing. -/
theorem MergeInv.delivers (h : MergeInv iters s) (hended : s.phase = .ended) :
    iters.Delivers s := by
  obtain ⟨hqueue, hall⟩ := h.done (.inr hended)
  refine ⟨hended, fun i => ?_⟩
  have hremaining := h.exhausted i (MergeState.allFinished_eq_true.mp hall i)
  simpa [MergeState.queued, hqueue, hremaining] using h.items i

theorem AsyncIterators.delivers_of_testsInTime (hnormal : iters.EndNormally)
    (hrun : iters.run tasks iters.start = .ok s) (hstuck : iters.Stuck s)
    (htests : checkGuards iters.exec MergeState.testsInTime tasks iters.start = true) :
    iters.Delivers s := by
  have hinv := run_mergeInv hrun
  have hundisturbed := run_undisturbed hnormal hrun
  have hawaits : Awaits s := by
    have hreach : Reaches iters.exec (· = iters.start)
        (fun s task => s.testsInTime task = true) s :=
      Reaches.foldlM (fun _ _ => id) (.init rfl) htests hrun
    apply hreach.invariant Awaits
    · rintro _ rfl hphase
      cases hphase
    · intro s task s' hs htest hexec
      exact hs.move htest (exec_move hexec)
  rcases hstuck.phase_cases hundisturbed with hended | ⟨hwaiting, hqueue⟩
  · exact hinv.delivers hended
  · -- all producers have finished, so there is nothing to wait for
    rcases hawaits hwaiting with hne | ⟨i, hne⟩
    · exact absurd hqueue hne
    · exact absurd (hinv.exhausted i (hstuck.allFinished hundisturbed i)) hne

theorem AsyncIterators.hangs_of_late_test (hnormal : iters.EndNormally)
    (hrun : iters.run tasks iters.start = .ok s)
    (htests : checkGuards iters.exec MergeState.testsInTime tasks iters.start = false) :
    Hangs s := by
  obtain ⟨_, task, after, s₁, s₂, -, hlate, hexec, hafter⟩ :=
    exists_of_checkGuards_eq_false hrun htests
  exact run_invariant Hangs (fun _ _ _ h => h.move hnormal) hafter
    (Hangs.of_test hlate (exec_move hexec))

/-- **Merging terminates and loses nothing** exactly if the consumer tests in time.  Whatever the
    interleaving, a run of iterators that end normally has a bounded number of steps, and what it
    has yielded of each iterator is a prefix of its items.  When no task can go on any more, the
    merged iterator has yielded all items and ended if and only if the consumer has never tested
    its condition between the last item and the last flag. -/
theorem mergeAsyncIterators_delivers_iff (iters : AsyncIterators n α)
    (hnormal : iters.EndNormally) (tasks : List (MergeTask n)) (s : MergeState n α)
    (hrun : iters.run tasks iters.start = .ok s) :
    tasks.length ≤ iters.start.work ∧
      (∀ i, valuesAt i s.yielded <+: iters.items i) ∧
      (iters.Stuck s → (iters.Delivers s ↔
        checkGuards iters.exec MergeState.testsInTime tasks iters.start = true)) := by
  refine ⟨?_, (AsyncIterators.run_mergeInv hrun).exists_later, fun hstuck => ?_⟩
  · have hlength := length_add_measure_le iters.exec_work_lt hrun
    omega
  · refine ⟨fun hdelivers => ?_, AsyncIterators.delivers_of_testsInTime hnormal hrun hstuck⟩
    by_contra hlate
    have hhangs := AsyncIterators.hangs_of_late_test hnormal hrun (by simpa using hlate)
    cases hhangs.phase.symm.trans hdelivers.ended

/-- A single iterator that yields 7 and ends. -/
def oneItem : AsyncIterators 1 Nat := ⟨fun _ => [7], fun _ => none⟩

/-- The producer runs to its end before the consumer starts. -/
theorem oneItem_delivered : ∃ s,
    oneItem.run [.producer 0, .producer 0, .consumer, .consumer, .consumer] oneItem.start = .ok s ∧
      oneItem.Delivers s := by
  refine ⟨_, rfl, ?_⟩
  apply ((mergeAsyncIterators_delivers_iff oneItem (fun _ => rfl)
    [.producer 0, .producer 0, .consumer, .consumer, .consumer] _ rfl).2.2 ?_).mpr (by decide)
  rintro (i | _) s' h
  · obtain rfl := Subsingleton.elim i 0
    cases h
  · cases h

/-- The iterator is asked for its end only after the consumer has taken the item and has tested its
    condition again: the consumer waits at the empty queue, and no task can go on. -/
theorem oneItem_hangs : ∃ s,
    oneItem.run [.producer 0, .consumer, .consumer, .producer 0] oneItem.start = .ok s ∧
      oneItem.Stuck s ∧ s.phase = .waiting ∧ s.queue = [] ∧ ¬ oneItem.Delivers s := by
  refine ⟨_, rfl, ?_, rfl, rfl, fun h => nomatch h.ended⟩
  rintro (i | _) s' h
  · obtain rfl := Subsingleton.elim i 0
    cases h
  · cases h

/-! ## Every family can hang -/

theorem AsyncIterators.run_append {tasks' : List (MergeTask n)} {s₁ : MergeState n α}
    (h : iters.run tasks s = .ok s₁) (h' : iters.run tasks' s₁ = .ok s') :
    iters.run (tasks ++ tasks') s = .ok s' := by
  unfold run at h h' ⊢
  rw [List.foldlM_append, h]
  exact h'

/-- The consumer is at its test and no flag is set. -/
structure Early (s : MergeState n α) : Prop extends Undisturbed s where
  test : s.phase = .test
  open_ : ∀ i, s.finished i = false

/-- All items can be yielded before any flag is set. -/
theorem Early.exists_run_exhausted (h : Early s) (iters : AsyncIterators n α) :
    ∃ tasks s', iters.run tasks s = .ok s' ∧
      Early s' ∧ s'.queue = [] ∧ ∀ i, s'.remaining i = [] := by
  induction hwork : s.work using Nat.strongRecOn generalizing s with
  | ind m ih =>
    -- it is enough to find a step after which the consumer is at its test again
    have hstep : ∀ task s₁, iters.exec task s = .ok s₁ → Early s₁ → ∃ tasks s',
        iters.run tasks s = .ok s' ∧ Early s' ∧ s'.queue = [] ∧ ∀ i, s'.remaining i = [] := by
      intro task s₁ hexec hearly
      have hlt := iters.exec_work_lt task s s₁ hexec
      obtain ⟨tasks, s', hrun, hs'⟩ := ih s₁.work (hwork ▸ hlt) hearly rfl
      exact ⟨task :: tasks, s', seq_eq_ok.mpr ⟨s₁, hexec, hrun⟩, hs'⟩
    match hqueue : s.queue with
    | .item i a :: queue =>
      apply hstep .consumer { s with queue, yielded := s.yielded ++ [(i, a)], phase := .test }
      · simp [AsyncIterators.exec, MergeState.consume, h.test, hqueue, MergeState.take]
      · refine ⟨⟨fun e he => h.queue e ?_, h.cancelled, by simp⟩, rfl, h.open_⟩
        rw [hqueue]
        exact List.mem_cons_of_mem _ he
    | .exception e :: queue => exact absurd (by simp [hqueue]) (h.queue e)
    | [] =>
      by_cases hnone : ∀ i, s.remaining i = []
      · exact ⟨[], s, rfl, h, hqueue, hnone⟩
      · push Not at hnone
        obtain ⟨i, hi⟩ := hnone
        obtain ⟨a, rest, hrest⟩ := List.exists_cons_of_ne_nil hi
        apply hstep (.producer i) { s with
          remaining := Function.update s.remaining i rest
          queue := s.queue ++ [.item i a] }
        · simp [AsyncIterators.exec, AsyncIterators.produce, h.open_, h.cancelled, hrest]
        · exact ⟨⟨by simp [hqueue], h.cancelled, h.phase⟩, h.test, h.open_⟩

/-- **Every family of at least one iterator has an interleaving that hangs.** -/
theorem AsyncIterators.exists_hanging_run (iters : AsyncIterators n α) (hnormal : iters.EndNormally)
    (hn : 0 < n) : ∃ tasks s, iters.run tasks iters.start = .ok s ∧ iters.Stuck s ∧ Hangs s := by
  have hearly : Early iters.start := ⟨.start iters, rfl, fun _ => rfl⟩
  obtain ⟨tasks₁, s₁, hrun₁, hearly₁, hqueue, hremaining⟩ := hearly.exists_run_exhausted iters
  have hopen : s₁.allFinished = false := by
    by_contra hall
    have hfinished := MergeState.allFinished_eq_true.mp (by simpa using hall) ⟨0, hn⟩
    simp [hearly₁.open_] at hfinished
  have hwait : iters.run [.consumer] s₁ = .ok { s₁ with phase := .waiting } := by
    simp [run, exec, MergeState.consume, hearly₁.test, hopen, hqueue]
  obtain ⟨tasks₃, s₃, hrun₃, hstuck⟩ :=
    exists_maximal_run iters.exec_work_lt { s₁ with phase := .waiting }
  refine ⟨tasks₁ ++ [.consumer] ++ tasks₃, s₃, run_append (run_append hrun₁ hwait) hrun₃,
    hstuck, ?_⟩
  exact run_invariant Hangs (fun _ _ _ h => h.move hnormal) hrun₃ ⟨rfl, hqueue, hremaining⟩

end VAttention.Serving
