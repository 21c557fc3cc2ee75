import Labs.TaskQueue.Queue
import Mathlib.Algebra.BigOperators.Group.Finset

/-!
# One signal per task is enough

`enqueue` signals `not_empty` once, waking at most one sleeper. Every queued task still has a
thread on its way to take it, as long as a thread sleeps on `not_empty`: one woken and not yet
back in `mtx`, an enqueuer that pushed and has not signalled yet, or a dequeuer in `mtx` that
has not popped yet (`Pc.credit` counts them).

* `reach_credit`, `queued_le_woken`: that count bounds the queue's length whenever some thread
  sleeps; so, when no thread holds `mtx`, the threads woken and not yet back in `mtx` are at
  least as many as the queued tasks.
* `pushed_before_signal`: while an enqueuer holds `mtx` between its `push_back` and its
  `scond_signal`, a task can be queued with no woken thread.
* `never_stuck`: a thread in a call and awake means some thread can move, and when every
  thread in a call sleeps on `not_empty` the queue is empty.
-/

namespace Labs.TaskQueue

variable {Task : Type} {T : Nat}

/-- A thread that will pop a task queued now, if the queue still holds one when it gets there:
woken in `scond_wait` (it relocks and tests), between `push_back` and `scond_signal`, or in
`mtx` before its `pop_front`. -/
def Pc.credit : Pc Task → Nat
  | .dequeue .relock | .enqueue _ .signal | .dequeue .test | .dequeue .take => 1
  | _ => 0

/-- Woken in `scond_wait`, not yet back in `mtx`. -/
def Pc.woken : Pc Task → Bool
  | .dequeue .relock => true
  | _ => false

theorem Pc.credit_of_not_holds {p : Pc Task} (h : p.holds = false) :
    p.credit = if p.woken then 1 else 0 := by
  rcases p with _ | ⟨_, _ | _ | _ | _⟩ | ⟨_ | _ | _ | _ | _ | _ | _⟩ <;> first | rfl | cases h

/-- The threads on their way to a queued task. -/
def credits (f : Fin T → Pc Task) : Nat := ∑ u, (f u).credit

/-- While some thread sleeps on `not_empty`, each queued task has a thread on its way. -/
def Credit (q : List Task) (f : Fin T → Pc Task) : Prop :=
  (∃ u, (f u).isAsleep) → q.length ≤ credits f

section Lemmas

variable {f f' : Fin T → Pc Task} {t : Fin T} {a : Pc Task} {q q' : List Task}

theorem credits_update (f : Fin T → Pc Task) (t : Fin T) (a : Pc Task) :
    credits (Function.update f t a) + (f t).credit = credits f + a.credit := by
  simp only [credits, ← Finset.add_sum_erase _ _ (Finset.mem_univ t), Function.update_same]
  rw [Finset.sum_congr rfl fun u hu => by rw [Function.update_noteq (Finset.ne_of_mem_erase hu)]]
  omega

theorem asleep_of_update (ha : a.isAsleep = false)
    (h : ∃ u, (Function.update f t a u).isAsleep) : ∃ u, (f u).isAsleep := by
  obtain ⟨u, hu⟩ := h
  rcases eq_or_ne u t with rfl | h
  · simp [ha] at hu
  · exact ⟨u, by rwa [Function.update_noteq h] at hu⟩

/-- A step that wakes no thread up to sleep, and adds no more tasks than threads on their way,
keeps the credit. -/
theorem Credit.of_le (c : Credit q f) (asleep : (∃ u, (f' u).isAsleep) → ∃ u, (f u).isAsleep)
    (le : q'.length + credits f ≤ q.length + credits f') : Credit q' f' := fun h => by
  have := c (asleep h)
  omega

theorem Credit.update (c : Credit q f) (ha : a.isAsleep = false)
    (le : q'.length + (f t).credit ≤ q.length + a.credit) : Credit q' (Function.update f t a) :=
  c.of_le (asleep_of_update ha) (by have := credits_update f t a; omega)

end Lemmas

theorem Credit.step {w w' : Queue Task T} {t : Fin T} (inv : QueueInv w) (c : Credit w.q w.threads)
    (h : Step w t w') : Credit w'.q w'.threads := by
  cases h with
  | callEnqueue task pc => exact c.update rfl (by simp [pc, Pc.credit])
  | callDequeue pc => exact c.update rfl (by simp [pc, Pc.credit])
  | wake pc => exact c.update rfl (by simp [pc, Pc.credit])
  | lockEnqueue task pc => exact c.update rfl (by simp [pc, Pc.credit])
  | push task pc => exact c.update rfl (by simp [pc, Pc.credit])
  | signal task u pc asleep =>
    -- the credit passes from the enqueuer to the thread it wakes
    have hu : u ≠ t := by rintro rfl; rw [pc] at asleep; cases asleep
    refine c.of_le (fun _ => ⟨u, by simp [asleep, Pc.isAsleep]⟩) ?_
    have h₁ := credits_update w.threads t (.enqueue task .unlock)
    have h₂ := credits_update (Function.update w.threads t (.enqueue task .unlock)) u
      (.dequeue .relock)
    simp only [Function.update_noteq hu, asleep, pc, Pc.credit] at h₁ h₂ ⊢
    omega
  | signalNone task pc none =>
    exact fun h => absurd (asleep_of_update (a := .enqueue task .unlock) rfl h) none
  | unlockEnqueue task pc => exact c.update rfl (by simp [pc, Pc.credit])
  | lockDequeue pc => exact c.update rfl (by rcases pc with pc | pc <;> simp [pc, Pc.credit])
  | testEmpty pc empty => exact fun _ => by simp [empty]
  | testNonempty pc => exact c.update rfl (by simp [pc, Pc.credit])
  | wait pc =>
    have empty : w.q = [] := by simpa [pc, Pc.Sees] using inv.sees t
    exact fun _ => by simp [empty]
  | take task rest pc front => exact c.update rfl (by simp [pc, front, Pc.credit])
  | unlockDequeue task pc => exact c.update rfl (by simp [pc, Pc.credit])

theorem reach_credit {w : Queue Task T} (reach : Reach w) : Credit w.q w.threads := by
  induction reach with
  | start => exact fun _ => by simp [Queue.init]
  | step t m reach h c => exact c.step (reach_queueInv reach) (step_sound h)

/-- **Queued tasks have threads on their way.** In every reachable state where a thread sleeps
on `not_empty`, the queue holds at most as many tasks as there are threads woken and not yet
back in `mtx`, enqueuers between `push_back` and `scond_signal`, and dequeuers in `mtx` before
`pop_front`; when no thread holds `mtx`, at most as many as the woken threads alone. -/
theorem queued_le_woken {w : Queue Task T} (reach : Reach w)
    (asleep : ∃ u, w.threads u = .dequeue .asleep) :
    w.q.length ≤ credits w.threads ∧
      (w.locked = false → w.q.length ≤ (Finset.univ.filter fun u => (w.threads u).woken).card) := by
  have le := reach_credit reach (asleep.imp fun u h => by rw [h]; rfl)
  refine ⟨le, fun free => ?_⟩
  have none (u) : (w.threads u).holds = false :=
    Bool.eq_false_iff.mpr fun h => by simpa [free] using (reach_queueInv reach).exclusive.locked.mpr ⟨u, h⟩
  rwa [credits, Finset.sum_congr rfl fun u _ => Pc.credit_of_not_holds (none u),
    ← Finset.card_filter] at le

/-- Threads 1 and 2 fall asleep in `dequeue`; thread 0 enqueues 7 and signals thread 1. -/
def wokenRun : List (Fin 3 × Move Nat 3) :=
  [(1, .dequeue), (1, .next), (1, .next), (1, .next),
   (2, .dequeue), (2, .next), (2, .next), (2, .next),
   (0, .enqueue 7), (0, .next), (0, .next), (0, .signal 1), (0, .next)]

def wokenQueue : Queue Nat 3 := (Queue.init.exec wokenRun).get (by decide)

theorem wokenQueue_queued_le_woken :
    wokenQueue.q.length ≤ credits wokenQueue.threads ∧
      (wokenQueue.locked = false →
        wokenQueue.q.length ≤ (Finset.univ.filter fun u => (wokenQueue.threads u).woken).card) :=
  queued_le_woken (Reach.start.exec (Option.eq_some_of_isSome _)) ⟨2, by decide⟩

/-- Thread 1 falls asleep in `dequeue`; thread 0 locks `mtx` in `enqueue(7)` and pushes. -/
def signalWindowRun : List (Fin 2 × Move Nat 2) :=
  [(1, .dequeue), (1, .next), (1, .next), (1, .next), (0, .enqueue 7), (0, .next), (0, .next)]

def signalWindow : Queue Nat 2 := (Queue.init.exec signalWindowRun).get (by decide)

theorem pushed_before_signal :
    Reach signalWindow ∧ signalWindow.threads 1 = .dequeue .asleep ∧ signalWindow.q.length = 1 ∧
      (Finset.univ.filter fun u => (signalWindow.threads u).woken).card = 0 :=
  ⟨Reach.start.exec (Option.eq_some_of_isSome _), by decide, by decide, by decide⟩

/-! ## Progress -/

/-- Thread `t` can run its next statement, or signal a thread asleep on `not_empty`. -/
def Queue.Moves (w : Queue Task T) (t : Fin T) : Prop :=
  (w.step t .next).isSome ∨ ∃ u, (w.step t (.signal u)).isSome

theorem Pc.isAsleep_iff {p : Pc Task} : p.isAsleep = true ↔ p = .dequeue .asleep := by
  rcases p with _ | ⟨_, _⟩ | ⟨_ | _ | _ | _ | _ | _ | _⟩ <;> simp [Pc.isAsleep]

/-- The thread that holds `mtx` can always move: its `scond_signal` goes to a sleeper if there
is one, and it pops only a queue it saw not empty. -/
theorem QueueInv.holder_moves {w : Queue Task T} {t : Fin T} (inv : QueueInv w)
    (h : (w.threads t).holds) : w.Moves t := by
  have sees := inv.sees t
  cases e : w.threads t with
  | idle => rw [e] at h; cases h
  | enqueue task pc =>
    cases pc
    case lock => rw [e] at h; cases h
    case signal =>
      by_cases sleeper : ∃ u, (w.threads u).isAsleep
      · obtain ⟨u, hu⟩ := sleeper
        exact .inr ⟨u, by simp [Queue.step, e, Pc.isAsleep_iff.mp hu]⟩
      · exact .inl (by simp [Queue.step, e, sleeper])
    all_goals exact .inl (by simp [Queue.step, e])
  | dequeue pc =>
    cases pc
    case lock | asleep | relock => rw [e] at h; cases h
    case take =>
      rw [e] at sees
      obtain ⟨task, rest, front⟩ := List.exists_cons_of_ne_nil sees
      exact .inl (by simp [Queue.step, e, front])
    all_goals exact .inl (by simp [Queue.step, e])

/-- **The queue never gets stuck.** In every reachable state, if a thread is in `enqueue` or
`dequeue` and not asleep on `not_empty`, some thread can run its next statement or signal; and
when every thread in a call sleeps on `not_empty`, no task is queued. -/
theorem never_stuck {w : Queue Task T} (reach : Reach w) :
    ((∃ t, w.threads t ≠ .idle ∧ (w.threads t).isAsleep = false) → ∃ t, w.Moves t) ∧
      ((∃ u, (w.threads u).isAsleep) → (∀ t, w.threads t = .idle ∨ (w.threads t).isAsleep) →
        w.q = []) := by
  have inv := reach_queueInv reach
  refine ⟨fun ⟨t, busy, awake⟩ => ?_, fun sleeper all => ?_⟩
  · by_cases h : (w.threads t).holds
    · exact ⟨t, inv.holder_moves h⟩
    · cases free : w.locked
      · -- `mtx` is free, and `t` is at one of its locks
        refine ⟨t, .inl ?_⟩
        cases e : w.threads t with
        | idle => exact absurd e busy
        | enqueue task pc =>
          rw [e] at h
          cases pc with
          | lock => simp [Queue.step, e, free]
          | _ => exact absurd rfl h
        | dequeue pc =>
          rw [e] at h awake
          cases pc with
          | lock | relock => simp [Queue.step, e, free]
          | asleep => cases awake
          | _ => exact absurd rfl h
      · obtain ⟨u, hu⟩ := inv.exclusive.locked.mp free
        exact ⟨u, inv.holder_moves hu⟩
  · have none : credits w.threads = 0 := Finset.sum_eq_zero fun t _ => by
      rcases all t with h | h
      · rw [h]; rfl
      · rw [Pc.isAsleep_iff.mp h]; rfl
    have := reach_credit reach sleeper
    exact List.length_eq_zero.mp (by omega)

theorem wokenQueue_never_stuck :
    ((∃ t, wokenQueue.threads t ≠ .idle ∧ (wokenQueue.threads t).isAsleep = false) →
        ∃ t, wokenQueue.Moves t) ∧
      ((∃ u, (wokenQueue.threads u).isAsleep) →
        (∀ t, wokenQueue.threads t = .idle ∨ (wokenQueue.threads t).isAsleep) → wokenQueue.q = []) :=
  never_stuck (Reach.start.exec (Option.eq_some_of_isSome _))

end Labs.TaskQueue
