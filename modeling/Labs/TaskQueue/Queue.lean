import Mathlib.Data.Fintype.Card
import Mathlib.Data.List.Infix

/-!
# The task queue of lab3

`TaskQueue` is a `std::deque` of tasks under one mutex `mtx`, with a condition variable
`not_empty`. `enqueue` pushes at the back and signals `not_empty`; `dequeue` waits while the
queue is empty, then pops the front. As for the store, each step of a thread is one statement
of `TaskQueue.cpp`, and the sthread primitives (not among the sources) behave as the spec says:

* `smutex_lock` blocks while `mtx` is locked, then locks it;
* `scond_wait` releases `mtx` and sleeps until a signal or a spurious wake-up, then locks
  `mtx` again;
* `scond_signal` wakes one thread asleep on `not_empty`, any of them, and does nothing when
  none sleeps.

The queue also keeps its history: every task `push_back` added and every task `pop_front`
took, in order. A push runs while its `enqueue` holds `mtx`, so the pushes are in the order in
which the enqueues took `mtx`.

* `Step`, `step_sound`: what a step can do, one constructor per statement.
* `QueueInv`, `reach_queueInv`: mutual exclusion on `mtx`, the queue is empty when a thread
  waits and not empty when it pops, and the pushes are the pops followed by the queue.
* `fifo_exactly_once`: every dequeue returns the task of the enqueue whose turn it is, in
  the order the enqueues took `mtx`, and each enqueued task once; each enqueue past its
  `push_back` made the last push, of its own task.
-/

namespace Labs.TaskQueue

/-- Where a thread is in `enqueue(task)`. -/
inductive EnqPc where
  /-- `smutex_lock(&mtx)`. -/
  | lock
  /-- `q.push_back(task)`. -/
  | push
  /-- `scond_signal(&not_empty, &mtx)`. -/
  | signal
  /-- `smutex_unlock(&mtx)`, then return. -/
  | unlock
  deriving DecidableEq

/-- Where a thread is in `dequeue()`. -/
inductive DeqPc (Task : Type) where
  /-- `smutex_lock(&mtx)`. -/
  | lock
  /-- The head of `while (q.empty())`. -/
  | test
  /-- `scond_wait(&not_empty, &mtx)` up to falling asleep. -/
  | wait
  /-- Asleep on `not_empty`. -/
  | asleep
  /-- Woken, locking `mtx` again inside `scond_wait`. -/
  | relock
  /-- `Task t = q.front(); q.pop_front();`. -/
  | take
  /-- `smutex_unlock(&mtx)`, then `return t`. -/
  | unlock (task : Task)
  deriving DecidableEq

/-- Where a thread is in the queue's code. -/
inductive Pc (Task : Type) where
  /-- Not in a call. -/
  | idle
  | enqueue (task : Task) (pc : EnqPc)
  | dequeue (pc : DeqPc Task)
  deriving DecidableEq

/-- The queue, `mtx`, the `T` threads, and the history: the tasks pushed, and the tasks popped
with the threads that popped them, each in the order of the statements. -/
structure Queue (Task : Type) (T : Nat) where
  q : List Task
  locked : Bool
  threads : Fin T → Pc Task
  pushed : List Task
  popped : List (Fin T × Task)

/-- What a thread may do: call `enqueue` or `dequeue` when idle, run its next statement, signal
`not_empty` to a thread asleep on it, or wake up spuriously. -/
inductive Move (Task : Type) (T : Nat) where
  | enqueue (task : Task)
  | dequeue
  | next
  | signal (u : Fin T)
  | wake

variable {Task : Type} {T : Nat}

/-- A fresh queue: empty, `mtx` free, no thread in a call. -/
def Queue.init : Queue Task T := ⟨[], false, fun _ => .idle, [], []⟩

/-- The thread sleeps on `not_empty`. -/
def Pc.isAsleep : Pc Task → Bool
  | .dequeue .asleep => true
  | _ => false

/-- One step of thread `t`; `none` when the move is not possible. A signal goes to a chosen
sleeper; `next` runs it only when no thread sleeps. -/
def Queue.step (w : Queue Task T) (t : Fin T) : Move Task T → Option (Queue Task T)
  | .enqueue task => match w.threads t with
    | .idle => some { w with threads := Function.update w.threads t (.enqueue task .lock) }
    | _ => none
  | .dequeue => match w.threads t with
    | .idle => some { w with threads := Function.update w.threads t (.dequeue .lock) }
    | _ => none
  | .wake => match w.threads t with
    | .dequeue .asleep =>
      some { w with threads := Function.update w.threads t (.dequeue .relock) }
    | _ => none
  | .signal u => match w.threads t, w.threads u with
    | .enqueue task .signal, .dequeue .asleep =>
      some { w with
        threads := Function.update (Function.update w.threads t (.enqueue task .unlock)) u
          (.dequeue .relock) }
    | _, _ => none
  | .next => match w.threads t with
    | .enqueue task .lock =>
      if w.locked then none
      else some { w with locked := true, threads := Function.update w.threads t (.enqueue task .push) }
    | .enqueue task .push =>
      some { w with
        q := w.q ++ [task], pushed := w.pushed ++ [task]
        threads := Function.update w.threads t (.enqueue task .signal) }
    | .enqueue task .signal =>
      if ∃ u, (w.threads u).isAsleep then none
      else some { w with threads := Function.update w.threads t (.enqueue task .unlock) }
    | .enqueue _ .unlock =>
      some { w with locked := false, threads := Function.update w.threads t .idle }
    | .dequeue .lock | .dequeue .relock =>
      if w.locked then none
      else some { w with locked := true, threads := Function.update w.threads t (.dequeue .test) }
    | .dequeue .test =>
      some { w with
        threads := Function.update w.threads t (.dequeue (if w.q.isEmpty then .wait else .take)) }
    | .dequeue .wait =>
      some { w with locked := false, threads := Function.update w.threads t (.dequeue .asleep) }
    | .dequeue .take => match w.q with
      | task :: rest =>
        some { w with
          q := rest, popped := w.popped ++ [(t, task)]
          threads := Function.update w.threads t (.dequeue (.unlock task)) }
      | [] => none
    | .dequeue (.unlock _) =>
      some { w with locked := false, threads := Function.update w.threads t .idle }
    | .idle | .dequeue .asleep => none

/-- A run: moves of the threads, one after another. -/
def Queue.exec (w : Queue Task T) : List (Fin T × Move Task T) → Option (Queue Task T)
  | [] => some w
  | (t, m) :: σ => (w.step t m).bind fun w' => w'.exec σ

/-- The states the runs from a fresh queue reach. -/
inductive Reach : Queue Task T → Prop
  | start : Reach .init
  | step {w w' : Queue Task T} (t : Fin T) (m : Move Task T) :
      Reach w → w.step t m = some w' → Reach w'

theorem Reach.exec {w w' : Queue Task T} {σ : List (Fin T × Move Task T)} (reach : Reach w)
    (h : w.exec σ = some w') : Reach w' := by
  induction σ generalizing w with
  | nil => cases h; exact reach
  | cons tm σ ih =>
    obtain ⟨w₁, h₁, h⟩ := Option.bind_eq_some.mp h
    exact ih (reach.step tm.1 tm.2 h₁) h

/-! ## What a step can do -/

/-- The steps of thread `t`, one constructor per statement. -/
inductive Step (w : Queue Task T) (t : Fin T) : Queue Task T → Prop
  | callEnqueue (task : Task) (pc : w.threads t = .idle) :
      Step w t { w with threads := Function.update w.threads t (.enqueue task .lock) }
  | callDequeue (pc : w.threads t = .idle) :
      Step w t { w with threads := Function.update w.threads t (.dequeue .lock) }
  | wake (pc : w.threads t = .dequeue .asleep) :
      Step w t { w with threads := Function.update w.threads t (.dequeue .relock) }
  | lockEnqueue (task : Task) (pc : w.threads t = .enqueue task .lock) (free : w.locked = false) :
      Step w t { w with locked := true, threads := Function.update w.threads t (.enqueue task .push) }
  | push (task : Task) (pc : w.threads t = .enqueue task .push) :
      Step w t { w with
        q := w.q ++ [task], pushed := w.pushed ++ [task]
        threads := Function.update w.threads t (.enqueue task .signal) }
  | signal (task : Task) (u : Fin T) (pc : w.threads t = .enqueue task .signal)
      (asleep : w.threads u = .dequeue .asleep) :
      Step w t { w with
        threads := Function.update (Function.update w.threads t (.enqueue task .unlock)) u
          (.dequeue .relock) }
  | signalNone (task : Task) (pc : w.threads t = .enqueue task .signal)
      (none : ¬∃ u, (w.threads u).isAsleep) :
      Step w t { w with threads := Function.update w.threads t (.enqueue task .unlock) }
  | unlockEnqueue (task : Task) (pc : w.threads t = .enqueue task .unlock) :
      Step w t { w with locked := false, threads := Function.update w.threads t .idle }
  | lockDequeue (pc : w.threads t = .dequeue .lock ∨ w.threads t = .dequeue .relock)
      (free : w.locked = false) :
      Step w t { w with locked := true, threads := Function.update w.threads t (.dequeue .test) }
  | testEmpty (pc : w.threads t = .dequeue .test) (empty : w.q = []) :
      Step w t { w with threads := Function.update w.threads t (.dequeue .wait) }
  | testNonempty (pc : w.threads t = .dequeue .test) (nonempty : w.q ≠ []) :
      Step w t { w with threads := Function.update w.threads t (.dequeue .take) }
  | wait (pc : w.threads t = .dequeue .wait) :
      Step w t { w with locked := false, threads := Function.update w.threads t (.dequeue .asleep) }
  | take (task : Task) (rest : List Task) (pc : w.threads t = .dequeue .take)
      (front : w.q = task :: rest) :
      Step w t { w with
        q := rest, popped := w.popped ++ [(t, task)]
        threads := Function.update w.threads t (.dequeue (.unlock task)) }
  | unlockDequeue (task : Task) (pc : w.threads t = .dequeue (.unlock task)) :
      Step w t { w with locked := false, threads := Function.update w.threads t .idle }

theorem step_sound {w w' : Queue Task T} {t : Fin T} {m : Move Task T}
    (h : w.step t m = some w') : Step w t w' := by
  cases m <;> simp only [Queue.step] at h <;> split at h <;> (try split at h) <;> cases h
  · exact .callEnqueue _ ‹_›
  · exact .callDequeue ‹_›
  · exact .lockEnqueue _ ‹_› (Bool.eq_false_iff.mpr ‹_›)
  · exact .push _ ‹_›
  · exact .signalNone _ ‹_› ‹_›
  · exact .unlockEnqueue _ ‹_›
  · exact .lockDequeue (.inl ‹_›) (Bool.eq_false_iff.mpr ‹_›)
  · exact .lockDequeue (.inr ‹_›) (Bool.eq_false_iff.mpr ‹_›)
  · exact .testEmpty ‹_› (List.isEmpty_iff.mp ‹_›)
  · exact .testNonempty ‹_› (mt List.isEmpty_iff.mpr ‹_›)
  · exact .wait ‹_›
  · exact .take _ _ ‹_› ‹_›
  · exact .unlockDequeue _ ‹_›
  · exact .signal _ _ ‹_› ‹_›
  · exact .wake ‹_›

/-! ## The invariant -/

/-- The thread holds `mtx`: past its `smutex_lock`, before its `smutex_unlock`, and not inside
`scond_wait`. -/
def Pc.holds : Pc Task → Bool
  | .enqueue _ .push | .enqueue _ .signal | .enqueue _ .unlock => true
  | .dequeue .test | .dequeue .wait | .dequeue .take | .dequeue (.unlock _) => true
  | _ => false

/-- `mtx` is locked exactly when a thread holds it, and then only one thread does. -/
structure Exclusive (locked : Bool) (threads : Fin T → Pc Task) : Prop where
  locked : locked = true ↔ ∃ t, (threads t).holds
  unique : ∀ t u, (threads t).holds → (threads u).holds → t = u

/-- What a thread at each point knows of the queue: an enqueuer past its `push_back` made the
last push, of its task; a thread about to sleep saw the queue empty, a thread about to pop saw
a task, and a thread about to return made the last pop, of the task it returns. -/
def Pc.Sees (t : Fin T) (q pushed : List Task) (popped : List (Fin T × Task)) : Pc Task → Prop
  | .enqueue task .signal | .enqueue task .unlock => pushed.getLast? = some task
  | .dequeue .wait => q = []
  | .dequeue .take => q ≠ []
  | .dequeue (.unlock task) => popped.getLast? = some (t, task)
  | _ => True

/-- What holds in every reachable state. -/
structure QueueInv (w : Queue Task T) : Prop where
  exclusive : Exclusive w.locked w.threads
  sees : ∀ t, (w.threads t).Sees t w.q w.pushed w.popped
  /-- The tasks pushed are the tasks popped, then the tasks queued. -/
  history : w.pushed = w.popped.map Prod.snd ++ w.q

section Lemmas

variable {l : Bool} {f : Fin T → Pc Task} {t : Fin T} {a : Pc Task}

theorem Exclusive.update_same (ex : Exclusive l f) (same : a.holds = (f t).holds) :
    Exclusive l (Function.update f t a) := by
  have holds (u) : (Function.update f t a u).holds = (f u).holds := by
    rcases eq_or_ne u t with rfl | h <;> simp [*]
  exact ⟨by simpa only [holds] using ex.locked, by simpa only [holds] using ex.unique⟩

theorem Exclusive.acquire (ex : Exclusive l f) (free : l = false) (ha : a.holds) :
    Exclusive true (Function.update f t a) := by
  subst free
  have only_t (u) (hu : (Function.update f t a u).holds) : u = t := by
    by_contra h
    exact absurd (ex.locked.mpr ⟨u, by rwa [Function.update_noteq h] at hu⟩) Bool.false_ne_true
  exact ⟨iff_of_true rfl ⟨t, by simpa⟩, fun u v hu hv => (only_t u hu).trans (only_t v hv).symm⟩

theorem Exclusive.release (ex : Exclusive l f) (ht : (f t).holds) (ha : a.holds = false) :
    Exclusive false (Function.update f t a) := by
  have none (u) : (Function.update f t a u).holds = false := by
    rcases eq_or_ne u t with rfl | h
    · simpa
    · rw [Function.update_noteq h, Bool.eq_false_iff]
      exact fun hu => h (ex.unique u t hu ht)
  exact ⟨by simp [none], fun u _ hu => by simp [none] at hu⟩

theorem Pc.sees_of_not_holds {q pushed : List Task} {popped : List (Fin T × Task)} {p : Pc Task}
    (h : p.holds = false) : p.Sees t q pushed popped := by
  rcases p with _ | ⟨_, _ | _ | _ | _⟩ | ⟨_ | _ | _ | _ | _ | _ | _⟩ <;> trivial

theorem sees_update {q pushed : List Task} {popped : List (Fin T × Task)}
    (others : ∀ u ≠ t, (f u).Sees u q pushed popped) (ha : a.Sees t q pushed popped) (u : Fin T) :
    (Function.update f t a u).Sees u q pushed popped := by
  rcases eq_or_ne u t with rfl | h
  · simpa
  · simpa [Function.update_noteq h] using others u h

end Lemmas

theorem QueueInv.step {w w' : Queue Task T} {t : Fin T} (inv : QueueInv w) (h : Step w t w') :
    QueueInv w' := by
  have ex := inv.exclusive
  have keep (a : Pc Task) (ha : a.Sees t w.q w.pushed w.popped) :=
    sees_update (t := t) (fun u _ => inv.sees u) ha
  have pushed (task) (pc : w.threads t = .enqueue task .signal) : w.pushed.getLast? = some task :=
    by simpa [pc, Pc.Sees] using inv.sees t
  -- while `t` holds `mtx` no other thread is at a point where it sees the queue
  have others (ht : (w.threads t).holds) (q pushed) (popped : List (Fin T × Task)) (u)
      (hu : u ≠ t) : (w.threads u).Sees u q pushed popped :=
    Pc.sees_of_not_holds (Bool.eq_false_iff.mpr fun h => hu (ex.unique u t h ht))
  cases h with
  | callEnqueue task pc => exact ⟨ex.update_same (by rw [pc]; rfl), keep _ trivial, inv.history⟩
  | callDequeue pc => exact ⟨ex.update_same (by rw [pc]; rfl), keep _ trivial, inv.history⟩
  | wake pc => exact ⟨ex.update_same (by rw [pc]; rfl), keep _ trivial, inv.history⟩
  | lockEnqueue task pc free => exact ⟨ex.acquire free rfl, keep _ trivial, inv.history⟩
  | push task pc =>
    exact ⟨ex.update_same (by rw [pc]; rfl),
      sees_update (others (by rw [pc]; rfl) _ _ _) (by simp [Pc.Sees]), by simp [inv.history]⟩
  | signal task u pc asleep =>
    have hu : u ≠ t := by rintro rfl; rw [pc] at asleep; cases asleep
    refine ⟨(ex.update_same (by rw [pc]; rfl)).update_same ?_,
      sees_update (fun v _ => keep (.enqueue task .unlock) (pushed task pc) v) trivial, inv.history⟩
    rw [Function.update_noteq hu, asleep]; rfl
  | signalNone task pc none =>
    exact ⟨ex.update_same (by rw [pc]; rfl), keep _ (pushed task pc), inv.history⟩
  | unlockEnqueue task pc => exact ⟨ex.release (by rw [pc]; rfl) rfl, keep _ trivial, inv.history⟩
  | lockDequeue pc free => exact ⟨ex.acquire free rfl, keep _ trivial, inv.history⟩
  | testEmpty pc empty => exact ⟨ex.update_same (by rw [pc]; rfl), keep _ empty, inv.history⟩
  | testNonempty pc nonempty =>
    exact ⟨ex.update_same (by rw [pc]; rfl), keep _ nonempty, inv.history⟩
  | wait pc => exact ⟨ex.release (by rw [pc]; rfl) rfl, keep _ trivial, inv.history⟩
  | take task rest pc front =>
    exact ⟨ex.update_same (by rw [pc]; rfl),
      sees_update (others (by rw [pc]; rfl) _ _ _) (by simp [Pc.Sees]), by simp [inv.history, front]⟩
  | unlockDequeue task pc => exact ⟨ex.release (by rw [pc]; rfl) rfl, keep _ trivial, inv.history⟩

theorem QueueInv.init : QueueInv (Queue.init : Queue Task T) :=
  ⟨⟨by simp [Queue.init, Pc.holds], by simp [Queue.init, Pc.holds]⟩, fun _ => trivial, rfl⟩

theorem reach_queueInv {w : Queue Task T} (reach : Reach w) : QueueInv w := by
  induction reach with
  | start => exact .init
  | step t m _ h inv => exact inv.step (step_sound h)

/-! ## FIFO, each task once -/

/-- The tasks popped so far, each once and by one thread, then the tasks still queued, are the
tasks pushed, in the order in which their enqueues took `mtx`; an `enqueue(task)` past its
`push_back` made the last push, of its task; and a thread returning from `dequeue` returns the
task of the last pop, which it made. -/
theorem fifo_exactly_once {w : Queue Task T} (reach : Reach w) :
    w.pushed = w.popped.map Prod.snd ++ w.q ∧
      (∀ t task, (w.threads t = .enqueue task .signal ∨ w.threads t = .enqueue task .unlock) →
        w.pushed.getLast? = some task) ∧
      ∀ t task, w.threads t = .dequeue (.unlock task) → w.popped.getLast? = some (t, task) := by
  have inv := reach_queueInv reach
  refine ⟨inv.history, fun t task h => ?_, fun t task h => by simpa [h, Pc.Sees] using inv.sees t⟩
  rcases h with h | h <;> simpa [h, Pc.Sees] using inv.sees t

/-- Thread 0 enqueues 5 and 6; thread 1 dequeues up to its return. -/
def handoffRun : List (Fin 2 × Move Nat 2) :=
  [(0, .enqueue 5), (0, .next), (0, .next), (0, .next), (0, .next),
   (0, .enqueue 6), (0, .next), (0, .next), (0, .next), (0, .next),
   (1, .dequeue), (1, .next), (1, .next), (1, .next)]

def handoffQueue : Queue Nat 2 := (Queue.init.exec handoffRun).get (by decide)

theorem handoffQueue_fifo :
    handoffQueue.pushed = handoffQueue.popped.map Prod.snd ++ handoffQueue.q ∧
      (∀ t task, (handoffQueue.threads t = .enqueue task .signal ∨
          handoffQueue.threads t = .enqueue task .unlock) → handoffQueue.pushed.getLast? = some task) ∧
      ∀ t task, handoffQueue.threads t = .dequeue (.unlock task) →
        handoffQueue.popped.getLast? = some (t, task) :=
  fifo_exactly_once (Reach.start.exec (Option.eq_some_of_isSome _))

/-! ## Safety of the critical sections -/

/-- `mtx` is locked exactly when a thread is between its `smutex_lock` and its `smutex_unlock`
outside `scond_wait`, and then only one thread is. -/
theorem mtx_exclusive {w : Queue Task T} (reach : Reach w) :
    (w.locked = true ↔ ∃ t, (w.threads t).holds) ∧
      ∀ t u, (w.threads t).holds → (w.threads u).holds → t = u :=
  ⟨(reach_queueInv reach).exclusive.locked, (reach_queueInv reach).exclusive.unique⟩

theorem handoffQueue_mtx_exclusive :
    (handoffQueue.locked = true ↔ ∃ t, (handoffQueue.threads t).holds) ∧
      ∀ t u, (handoffQueue.threads t).holds → (handoffQueue.threads u).holds → t = u :=
  mtx_exclusive (Reach.start.exec (Option.eq_some_of_isSome _))

/-- `dequeue` reads `q.front()` only when the queue holds a task: its `while` loop tests the
queue again after every wake-up, so neither a spurious wake-up nor a task another thread took
first makes it pop an empty deque. -/
theorem front_nonempty {w : Queue Task T} (reach : Reach w) (t : Fin T)
    (h : w.threads t = .dequeue .take) : w.q ≠ [] := by
  simpa [h, Pc.Sees] using (reach_queueInv reach).sees t

/-- `handoffRun` up to thread 1's `pop_front`. -/
def poppingQueue : Queue Nat 2 := (Queue.init.exec handoffRun.dropLast).get (by decide)

theorem poppingQueue_front_nonempty :
    poppingQueue.threads 1 = .dequeue .take ∧ poppingQueue.q ≠ [] :=
  ⟨by decide, front_nonempty (Reach.start.exec (Option.eq_some_of_isSome _)) 1 (by decide)⟩

end Labs.TaskQueue
