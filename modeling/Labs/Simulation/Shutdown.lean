import Labs.TaskQueue.Queue
import Mathlib.Algebra.BigOperators.Fin
import Mathlib.Data.List.Count

/-!
# Shutting a pool of workers down

`estoresim.cpp` feeds each pool of workers from one generator thread: `enqueueTasks(maxTasks,
...)`, then `enqueueStops(n)`, one stop task per worker. A worker (`supplier`, `customer`) loops:
it dequeues a task, exits if the task's handler is `stop_handler`, and otherwise runs the
handler. Here is one pool on one `TaskQueue`: the generator is thread `0`, the `W` workers are
the other threads, and the generator makes `R` real tasks, numbered in the order it makes them.
The queue's code runs as in `Labs.TaskQueue`; the simulation also keeps the real tasks each
thread has run, in order.

* `SimInv`, `reach_simInv`: the generator's tasks went into the queue in order, and each thread
  has dequeued the real tasks it ran, then at most the task it holds.
* `workers_shut_down`: a worker exits right after dequeuing a stop task and runs nothing after
  one, no stop task leaves the queue while a real task is in it, and once every worker has
  exited the queue is empty and each real task was dequeued and run exactly once.
-/

namespace Labs.Simulation

open Labs.TaskQueue

/-- A task as a worker tells it apart: a real request, numbered in the order the generator made
it, or a stop task, whose handler is `stop_handler`. -/
inductive Job where
  | real (k : Nat)
  | stop
  deriving DecidableEq

/-- Modelled from the spec: `RequestGenerator::enqueueTasks(maxTasks, store)`, then
`enqueueStops(n)`, declared in `RequestGenerator.h`. The generator's `k`-th enqueue is real task
`k` for the first `R` of them, and a stop task after. -/
def job (R k : Nat) : Job := if k < R then .real k else .stop

/-- Where a worker is in the `for (;;)` loop of `supplier` and `customer`. -/
inductive Worker where
  /-- `Task t = sim->...Tasks.dequeue()`: about to call it, or inside it. -/
  | loop
  /-- `if (t.handler == stop_handler)`. -/
  | check (job : Job)
  /-- `t.handler(t.arg)`. -/
  | run (k : Nat)
  /-- Gone through `sthread_exit()`. -/
  | exited
  deriving DecidableEq

/-- One pool: its queue, where each worker is in its loop, how many enqueues the generator has
returned from, and the real tasks run so far with the threads that ran them. -/
structure Sim (R W : Nat) where
  queue : Queue Job (W + 1)
  workers : Fin (W + 1) → Worker
  sent : Nat
  executed : List (Fin (W + 1) × Nat)

/-- What a thread does: call `enqueue` (the generator) or `dequeue` (a worker), run a statement
of the queue's code, test the handler, or run it. -/
inductive Act (W : Nat) where
  | call
  | queue (m : Move Job (W + 1))
  | check
  | run

variable {R W : Nat}

/-- The generator has not started; the workers are at the top of their loops. -/
def Sim.init : Sim R W := ⟨.init, fun _ => .loop, 0, []⟩

/-- The pool once the queue's code of thread `t` made `q` of the queue. A return from
`enqueue` moves the generator to its next task; a return from `dequeue` hands the worker the
task. -/
def Sim.resume (s : Sim R W) (t : Fin (W + 1)) (q : Queue Job (W + 1)) : Sim R W :=
  match s.queue.threads t with
  | .enqueue _ .unlock => { s with queue := q, sent := s.sent + 1 }
  | .dequeue (.unlock task) =>
    { s with queue := q, workers := Function.update s.workers t (.check task) }
  | _ => { s with queue := q }

/-- One step of thread `t`; `none` when it is not possible. -/
def Sim.step (s : Sim R W) (t : Fin (W + 1)) : Act W → Option (Sim R W)
  | .call =>
    if t = 0 then
      if s.sent < R + W then
        (s.queue.step t (.enqueue (job R s.sent))).map fun q => { s with queue := q }
      else none
    else if s.workers t = .loop then
      (s.queue.step t .dequeue).map fun q => { s with queue := q }
    else none
  | .queue m => if s.queue.threads t = .idle then none else (s.queue.step t m).map (s.resume t)
  | .check => match s.workers t with
    | .check (.real k) => some { s with workers := Function.update s.workers t (.run k) }
    | .check .stop => some { s with workers := Function.update s.workers t .exited }
    | _ => none
  | .run => match s.workers t with
    | .run k =>
      some { s with
        workers := Function.update s.workers t .loop, executed := s.executed ++ [(t, k)] }
    | _ => none

/-- A run: steps of the threads, one after another. -/
def Sim.exec (s : Sim R W) : List (Fin (W + 1) × Act W) → Option (Sim R W)
  | [] => some s
  | (t, a) :: σ => (s.step t a).bind fun s' => s'.exec σ

/-- The states the runs from the start reach. -/
inductive Reach : Sim R W → Prop
  | start : Reach .init
  | step {s s' : Sim R W} (t : Fin (W + 1)) (a : Act W) : Reach s → s.step t a = some s' → Reach s'

theorem Reach.exec {s s' : Sim R W} {σ : List (Fin (W + 1) × Act W)} (reach : Reach s)
    (h : s.exec σ = some s') : Reach s' := by
  induction σ generalizing s with
  | nil => cases h; exact reach
  | cons ta σ ih =>
    obtain ⟨s₁, h₁, h⟩ := Option.bind_eq_some.mp h
    exact ih (reach.step ta.1 ta.2 h₁) h

/-! ## What a step can do -/

/-- The steps of thread `t`, one constructor per kind. -/
inductive SimStep (s : Sim R W) (t : Fin (W + 1)) : Sim R W → Prop
  | generate (gen : t = 0) (more : s.sent < R + W) (idle : s.queue.threads t = .idle) :
      SimStep s t { s with queue := { s.queue with
        threads := Function.update s.queue.threads t (.enqueue (job R s.sent) .lock) } }
  | fetch (worker : t ≠ 0) (loop : s.workers t = .loop) (idle : s.queue.threads t = .idle) :
      SimStep s t { s with queue := { s.queue with
        threads := Function.update s.queue.threads t (.dequeue .lock) } }
  | queue (q : Queue Job (W + 1)) (busy : s.queue.threads t ≠ .idle) (step : Step s.queue t q) :
      SimStep s t (s.resume t q)
  | checkReal (k : Nat) (pc : s.workers t = .check (.real k)) :
      SimStep s t { s with workers := Function.update s.workers t (.run k) }
  | checkStop (pc : s.workers t = .check .stop) :
      SimStep s t { s with workers := Function.update s.workers t .exited }
  | run (k : Nat) (pc : s.workers t = .run k) :
      SimStep s t { s with
        workers := Function.update s.workers t .loop, executed := s.executed ++ [(t, k)] }

theorem Sim.step_sound {s s' : Sim R W} {t : Fin (W + 1)} {a : Act W} (h : s.step t a = some s') :
    SimStep s t s' := by
  cases a with
  | call =>
    simp only [Sim.step] at h
    split_ifs at h with gen more loop
    · obtain ⟨q, hq, rfl⟩ := Option.map_eq_some'.mp h
      simp only [Queue.step] at hq
      split at hq
      · cases hq; exact .generate gen more ‹_›
      · cases hq
    · obtain ⟨q, hq, rfl⟩ := Option.map_eq_some'.mp h
      simp only [Queue.step] at hq
      split at hq
      · cases hq; exact .fetch gen loop ‹_›
      · cases hq
  | queue m =>
    simp only [Sim.step] at h
    split_ifs at h with idle
    obtain ⟨q, hq, rfl⟩ := Option.map_eq_some'.mp h
    exact .queue q idle (TaskQueue.step_sound hq)
  | check =>
    simp only [Sim.step] at h
    split at h <;> cases h
    · exact .checkReal _ ‹_›
    · exact .checkStop ‹_›
  | run =>
    simp only [Sim.step] at h
    split at h <;> cases h
    exact .run _ ‹_›

/-! ## The invariant -/

/-- The task a thread's `dequeue` is returning. -/
def returning : Pc Job → Option Job
  | .dequeue (.unlock task) => some task
  | _ => none

/-- An `enqueue` past its `push_back`. -/
def pushing : Pc Job → Nat
  | .enqueue _ .signal | .enqueue _ .unlock => 1
  | _ => 0

/-- The task a thread holds outside the queue: the one its `dequeue` returns, tests or runs, or
the stop task it exited on. -/
def Worker.held (w : Worker) (returned : Option Job) : Option Job :=
  match w with
  | .loop => returned
  | .check task => some task
  | .run k => some (.real k)
  | .exited => some .stop

def Sim.held (s : Sim R W) (t : Fin (W + 1)) : Option Job :=
  (s.workers t).held (returning (s.queue.threads t))

/-- The tasks thread `t` dequeued, in order. -/
def Sim.jobsOf (s : Sim R W) (t : Fin (W + 1)) : List Job :=
  (s.queue.popped.filter fun e => e.1 = t).map Prod.snd

/-- The real tasks thread `t` ran, in order. -/
def Sim.ranBy (s : Sim R W) (t : Fin (W + 1)) : List Nat :=
  (s.executed.filter fun e => e.1 = t).map Prod.snd

/-- The generator runs no worker code, and is in an `enqueue` only of its next task. -/
def Sim.GeneratorOk (s : Sim R W) : Prop :=
  s.workers 0 = .loop ∧ (s.queue.threads 0 = .idle ∨
    s.sent < R + W ∧ ∃ pc, s.queue.threads 0 = .enqueue (job R s.sent) pc)

/-- A worker is in the queue's code only in a `dequeue` called from the top of its loop. -/
def Sim.WorkerOk (s : Sim R W) (t : Fin (W + 1)) : Prop :=
  s.queue.threads t = .idle ∨ (∃ pc, s.queue.threads t = .dequeue pc) ∧ s.workers t = .loop

/-- Thread `t` dequeued the real tasks it ran, in order, then the task it holds. -/
def Sim.JobsOk (s : Sim R W) (t : Fin (W + 1)) : Prop :=
  s.jobsOf t = (s.ranBy t).map .real ++ (s.held t).toList

/-- What holds in every reachable state. -/
structure SimInv (s : Sim R W) : Prop where
  generator : s.GeneratorOk
  worker : ∀ t, t ≠ 0 → s.WorkerOk t
  sent_le : s.sent ≤ R + W
  /-- The generator's tasks went into the queue in order. -/
  pushed : s.queue.pushed = (List.range (s.sent + pushing (s.queue.threads 0))).map (job R)
  jobs : ∀ t, s.JobsOk t

section Steps

variable {s : Sim R W} {t : Fin (W + 1)}

/-- A step of thread `t` that leaves the other threads as they were keeps the invariant if it
keeps `t`'s part: the generator's, or a worker's. -/
theorem SimInv.frame (inv : SimInv s) {s' : Sim R W}
    (others : ∀ u ≠ t, s'.queue.threads u = s.queue.threads u ∧ s'.workers u = s.workers u ∧
      s'.jobsOf u = s.jobsOf u ∧ s'.ranBy u = s.ranBy u)
    (gen : t = 0 → s'.GeneratorOk ∧ s'.sent ≤ R + W ∧
      s'.queue.pushed = (List.range (s'.sent + pushing (s'.queue.threads 0))).map (job R))
    (work : t ≠ 0 → s'.WorkerOk t ∧ s'.sent = s.sent ∧ s'.queue.pushed = s.queue.pushed)
    (jobs : s'.JobsOk t) : SimInv s' := by
  rcases eq_or_ne t 0 with rfl | ht
  · obtain ⟨g, le, pushed⟩ := gen rfl
    refine ⟨g, fun u hu => ?_, le, pushed, fun u => ?_⟩
    · obtain ⟨h₁, h₂, -⟩ := others u hu
      simpa [Sim.WorkerOk, h₁, h₂] using inv.worker u hu
    · rcases eq_or_ne u 0 with rfl | hu
      · exact jobs
      · obtain ⟨h₁, h₂, h₃, h₄⟩ := others u hu
        simpa [Sim.JobsOk, Sim.held, h₁, h₂, h₃, h₄] using inv.jobs u
  · obtain ⟨w, sent, pushed⟩ := work ht
    obtain ⟨h₁, h₂, -⟩ := others 0 ht.symm
    refine ⟨by simpa [Sim.GeneratorOk, h₁, h₂, sent] using inv.generator, fun u hu => ?_,
      sent ▸ inv.sent_le, by simpa [pushed, sent, h₁] using inv.pushed, fun u => ?_⟩
    · rcases eq_or_ne u t with rfl | hu'
      · exact w
      · obtain ⟨h₁, h₂, -⟩ := others u hu'
        simpa [Sim.WorkerOk, h₁, h₂] using inv.worker u hu
    · rcases eq_or_ne u t with rfl | hu
      · exact jobs
      · obtain ⟨h₁, h₂, h₃, h₄⟩ := others u hu
        simpa [Sim.JobsOk, Sim.held, h₁, h₂, h₃, h₄] using inv.jobs u

/-- A statement of the queue's code that only moves thread `t` within its role, and adds
nothing to the queue's history, keeps the invariant if it keeps what `t` returns and whether the
generator has pushed. -/
theorem SimInv.move (inv : SimInv s) {q : Queue Job (W + 1)} {p : Pc Job}
    (threads : q.threads = Function.update s.queue.threads t p)
    (history : q.pushed = s.queue.pushed ∧ q.popped = s.queue.popped)
    (gen : t = 0 → s.sent < R + W ∧ ∃ pc, p = .enqueue (job R s.sent) pc)
    (work : t ≠ 0 → (∃ pc, p = .dequeue pc) ∧ s.workers t = .loop)
    (same : returning p = returning (s.queue.threads t) ∧ pushing p = pushing (s.queue.threads t)) :
    SimInv ({ s with queue := q } : Sim R W) := by
  refine inv.frame (t := t)
    (fun u hu => ⟨by simp [threads, hu], rfl, by simp [Sim.jobsOf, history.2], rfl⟩)
    (fun h0 => ?_) (fun ht => ⟨.inr (by simpa [threads] using work ht), rfl, history.1⟩) ?_
  · subst h0
    exact ⟨⟨inv.generator.1, .inr (by simpa [threads] using gen rfl)⟩, inv.sent_le,
      by simpa [threads, history.1, same.2] using inv.pushed⟩
  · simpa [Sim.JobsOk, Sim.jobsOf, Sim.held, threads, history.2, same.1] using inv.jobs t

theorem SimInv.enqueuer (inv : SimInv s) {task : Job} {pc : EnqPc}
    (h : s.queue.threads t = .enqueue task pc) : t = 0 ∧ task = job R s.sent ∧ s.sent < R + W := by
  rcases eq_or_ne t 0 with rfl | ht
  · rcases inv.generator.2 with idle | ⟨more, pc', h'⟩
    · rw [idle] at h; cases h
    · rw [h'] at h; cases h; exact ⟨rfl, rfl, more⟩
  · rcases inv.worker t ht with idle | ⟨⟨pc', h'⟩, -⟩ <;> simp_all

theorem SimInv.dequeuer (inv : SimInv s) {pc : DeqPc Job}
    (h : s.queue.threads t = .dequeue pc) : t ≠ 0 ∧ s.workers t = .loop := by
  rcases eq_or_ne t 0 with rfl | ht
  · rcases inv.generator.2 with idle | ⟨-, pc', h'⟩ <;> simp_all
  · rcases inv.worker t ht with idle | ⟨-, loop⟩
    · simp_all
    · exact ⟨ht, loop⟩

/-- A thread out of the top of its loop is a worker, out of the queue's code. -/
theorem SimInv.outside (inv : SimInv s) (hw : s.workers t ≠ .loop) :
    t ≠ 0 ∧ s.queue.threads t = .idle := by
  have ht : t ≠ 0 := by rintro rfl; exact hw inv.generator.1
  rcases inv.worker t ht with idle | ⟨-, loop⟩
  · exact ⟨ht, idle⟩
  · exact absurd loop hw

theorem SimInv.queue (inv : SimInv s) {q : Queue Job (W + 1)} (busy : s.queue.threads t ≠ .idle)
    (step : Step s.queue t q) : SimInv (s.resume t q) := by
  -- the statements that move a thread within its call and add nothing to the history
  have enqueuer {q : Queue Job (W + 1)} {task : Job} {pc pc' : EnqPc}
      (h : s.queue.threads t = .enqueue task pc)
      (threads : q.threads = Function.update s.queue.threads t (.enqueue task pc'))
      (history : q.pushed = s.queue.pushed ∧ q.popped = s.queue.popped)
      (same : pushing (.enqueue task pc') = pushing (.enqueue task pc)) :
      SimInv ({ s with queue := q } : Sim R W) := by
    obtain ⟨rfl, rfl, more⟩ := inv.enqueuer h
    exact inv.move threads history (fun _ => ⟨more, _, rfl⟩) (absurd rfl)
      (by simp [h, same, returning])
  have dequeuer {q : Queue Job (W + 1)} {pc pc' : DeqPc Job} (h : s.queue.threads t = .dequeue pc)
      (threads : q.threads = Function.update s.queue.threads t (.dequeue pc'))
      (history : q.pushed = s.queue.pushed ∧ q.popped = s.queue.popped)
      (same : returning (.dequeue pc') = returning (.dequeue pc)) :
      SimInv ({ s with queue := q } : Sim R W) := by
    obtain ⟨ht, loop⟩ := inv.dequeuer h
    exact inv.move threads history (absurd · ht) (fun _ => ⟨⟨_, rfl⟩, loop⟩)
      (by simp [h, same, pushing])
  cases step with
  | callEnqueue _ pc => exact absurd pc busy
  | callDequeue pc => exact absurd pc busy
  | lockEnqueue _ pc | signalNone _ pc =>
    simp only [Sim.resume, pc]; exact enqueuer pc rfl ⟨rfl, rfl⟩ rfl
  | testEmpty pc | testNonempty pc | wait pc | wake pc =>
    simp only [Sim.resume, pc]; exact dequeuer pc rfl ⟨rfl, rfl⟩ rfl
  | lockDequeue pc =>
    rcases pc with pc | pc <;> simp only [Sim.resume, pc] <;> exact dequeuer pc rfl ⟨rfl, rfl⟩ rfl
  | push task pc =>
    obtain ⟨rfl, rfl, more⟩ := inv.enqueuer pc
    simp only [Sim.resume, pc]
    refine inv.frame (fun u hu => ⟨Function.update_noteq hu _ _, rfl, rfl, rfl⟩)
      (fun _ => ⟨⟨inv.generator.1, .inr ⟨more, .signal, by simp⟩⟩, inv.sent_le, ?_⟩)
      (absurd rfl) ?_
    · simp [inv.pushed, pc, pushing, List.range_succ]
    · simpa [Sim.JobsOk, Sim.held, Sim.jobsOf, pc, returning] using inv.jobs 0
  | signal task u pc asleep =>
    obtain ⟨hu, loop⟩ := inv.dequeuer asleep
    simp only [Sim.resume, pc]
    -- the enqueuer moves on, then the thread it wakes
    refine (enqueuer (q := { s.queue with
      threads := Function.update s.queue.threads t (.enqueue task .unlock) }) pc rfl ⟨rfl, rfl⟩
      rfl).move (t := u) rfl ⟨rfl, rfl⟩ (absurd · hu) (fun _ => ⟨⟨_, rfl⟩, loop⟩) ?_
    have ut : u ≠ t := by rintro rfl; rw [pc] at asleep; cases asleep
    simp [Function.update_noteq ut, asleep, returning, pushing]
  | unlockEnqueue task pc =>
    obtain ⟨rfl, rfl, more⟩ := inv.enqueuer pc
    simp only [Sim.resume, pc]
    refine inv.frame (fun u hu => ⟨Function.update_noteq hu _ _, rfl, rfl, rfl⟩)
      (fun _ => ⟨⟨inv.generator.1, .inl (by simp)⟩, more, ?_⟩) (absurd rfl) ?_
    · simpa [pc, pushing] using inv.pushed
    · simpa [Sim.JobsOk, Sim.held, pc, returning] using inv.jobs 0
  | take task rest pc front =>
    obtain ⟨ht, loop⟩ := inv.dequeuer pc
    simp only [Sim.resume, pc]
    refine inv.frame (fun u hu => ⟨Function.update_noteq hu _ _, rfl, ?_, rfl⟩) (absurd · ht)
      (fun _ => ⟨.inr ⟨⟨.unlock task, by simp⟩, loop⟩, rfl, rfl⟩) ?_
    · simp [Sim.jobsOf, Ne.symm hu]
    · simpa [Sim.JobsOk, Sim.held, Sim.jobsOf, loop, pc, returning, Worker.held] using inv.jobs t
  | unlockDequeue task pc =>
    obtain ⟨ht, loop⟩ := inv.dequeuer pc
    simp only [Sim.resume, pc]
    refine inv.frame (fun u hu => ⟨Function.update_noteq hu _ _, Function.update_noteq hu _ _,
      rfl, rfl⟩) (absurd · ht) (fun _ => ⟨.inl (by simp), rfl, rfl⟩) ?_
    simpa [Sim.JobsOk, Sim.held, loop, pc, returning, Worker.held] using inv.jobs t

theorem SimInv.step (inv : SimInv s) {s' : Sim R W} (h : SimStep s t s') : SimInv s' := by
  cases h with
  | generate gen more idle =>
    exact inv.move rfl ⟨rfl, rfl⟩ (fun _ => ⟨more, _, rfl⟩) (absurd gen)
      (by simp [idle, returning, pushing])
  | fetch worker loop idle =>
    exact inv.move rfl ⟨rfl, rfl⟩ (absurd · worker) (fun _ => ⟨⟨_, rfl⟩, loop⟩)
      (by simp [idle, returning, pushing])
  | queue q busy step => exact inv.queue busy step
  | checkReal _ pc | checkStop pc =>
    obtain ⟨ht, idle⟩ := inv.outside (t := t) (by simp [pc])
    refine inv.frame (fun u hu => ⟨rfl, Function.update_noteq hu _ _, rfl, rfl⟩) (absurd · ht)
      (fun _ => ⟨.inl idle, rfl, rfl⟩) ?_
    simpa [Sim.JobsOk, Sim.held, pc, Worker.held] using inv.jobs t
  | run k pc =>
    obtain ⟨ht, idle⟩ := inv.outside (t := t) (by simp [pc])
    refine inv.frame (fun u hu => ⟨rfl, Function.update_noteq hu _ _, rfl, ?_⟩) (absurd · ht)
      (fun _ => ⟨.inl idle, rfl, rfl⟩) ?_
    · simp [Sim.ranBy, Ne.symm hu]
    · simpa [Sim.JobsOk, Sim.held, Sim.ranBy, pc, idle, returning, Worker.held] using inv.jobs t

end Steps

theorem SimInv.init : SimInv (Sim.init : Sim R W) :=
  ⟨⟨rfl, .inl rfl⟩, fun _ _ => .inl rfl, Nat.zero_le _, rfl, fun _ => rfl⟩

theorem reach_simInv {s : Sim R W} (reach : Reach s) : SimInv s := by
  induction reach with
  | start => exact .init
  | step t a _ h inv => exact inv.step (Sim.step_sound h)

@[simp] theorem Sim.resume_queue (s : Sim R W) (t : Fin (W + 1)) (q : Queue Job (W + 1)) :
    (s.resume t q).queue = q := by
  unfold Sim.resume; split <;> rfl

/-- The pool's queue runs as `Labs.TaskQueue` says. -/
theorem reach_poolQueueInv {s : Sim R W} (reach : Reach s) : QueueInv s.queue := by
  induction reach with
  | start => exact .init
  | step t a _ h inv =>
    cases Sim.step_sound h with
    | generate _ _ idle => exact inv.step (.callEnqueue _ idle)
    | fetch _ _ idle => exact inv.step (.callDequeue idle)
    | queue q _ step => simpa using inv.step step
    | checkReal | checkStop | run => exact inv

/-! ## The generator's tasks -/

/-- The queue's history splits where the pops end: the tasks popped are the generator's first
ones, and the tasks queued the ones after. -/
theorem split_jobs {xs ys : List Job} {n : Nat} (h : xs ++ ys = (List.range n).map (job R)) :
    xs = (List.range xs.length).map (job R) ∧
      ys = (List.range (n - xs.length)).map fun i => job R (xs.length + i) := by
  have le : xs.length ≤ n := by have := congrArg List.length h; simp at this; omega
  rw [← Nat.add_sub_cancel' le, List.range_add, List.map_append, List.map_map] at h
  exact List.append_inj h (by simp)

theorem count_stop_jobs (p : Nat) : ((List.range p).map (job R)).count .stop = p - R := by
  induction p with
  | zero => simp
  | succ p ih => by_cases h : p < R <;> simp [List.range_succ, ih, job, h] <;> omega

theorem count_real_jobs (p k : Nat) :
    ((List.range p).map (job R)).count (.real k) = if k < p ∧ k < R then 1 else 0 := by
  induction p with
  | zero => simp
  | succ p ih =>
    rcases eq_or_ne k p with rfl | hk
    · by_cases h : k < R <;> simp [List.range_succ, ih, job, h]
    · simp only [List.range_succ, List.map_append, List.count_append, ih]
      by_cases h : p < R <;> simp [job, h, hk.symm, List.count_singleton] <;> split_ifs <;> omega

/-- Counting a value over the entries of each thread counts it over all entries. -/
theorem sum_count_filter {α : Type} [DecidableEq α] (l : List (Fin (W + 1) × α)) (x : α) :
    ∑ t, ((l.filter fun e => e.1 = t).map Prod.snd).count x = (l.map Prod.snd).count x := by
  induction l with
  | nil => simp
  | cons e l ih =>
    have own (t : Fin (W + 1)) : (((e :: l).filter fun e => e.1 = t).map Prod.snd).count x =
        ((l.filter fun e => e.1 = t).map Prod.snd).count x + if e.1 = t ∧ e.2 = x then 1 else 0 := by
      by_cases h : e.1 = t <;>
        simp only [List.filter_cons, h, decide_True, decide_False, Bool.false_eq_true, ↓reduceIte,
          List.map_cons, List.count_cons, beq_iff_eq, true_and, false_and, add_zero]
    simp only [own, Finset.sum_add_distrib, ih, ite_and, Finset.sum_ite_eq, Finset.mem_univ, if_true,
      List.map_cons, List.count_cons, beq_iff_eq]

theorem SimInv.pushed_le {s : Sim R W} (inv : SimInv s) :
    s.sent + pushing (s.queue.threads 0) ≤ R + W := by
  rcases inv.generator.2 with idle | ⟨more, pc, h⟩
  · simpa [idle, pushing] using inv.sent_le
  · rw [h]; cases pc <;> simp only [pushing] <;> omega

/-! ## Shutdown -/

/-- The tasks popped are the generator's first ones, in order, and the tasks queued the ones
after, up to its last push. -/
theorem reach_history {s : Sim R W} (reach : Reach s) :
    s.queue.popped.map Prod.snd = (List.range s.queue.popped.length).map (job R) ∧
      s.queue.q = (List.range (s.sent + pushing (s.queue.threads 0) - s.queue.popped.length)).map
        (fun i => job R (s.queue.popped.length + i)) ∧
      s.queue.popped.length + s.queue.q.length = s.sent + pushing (s.queue.threads 0) := by
  have hist := (reach_poolQueueInv reach).history
  rw [(reach_simInv reach).pushed] at hist
  obtain ⟨popped, queued⟩ := split_jobs hist.symm
  simp only [List.length_map] at popped queued
  exact ⟨popped, queued, by simpa using (congrArg List.length hist).symm⟩

/-- No stop task leaves the queue while a real task is in it. -/
theorem real_not_queued_after_stop {s : Sim R W} (reach : Reach s) {t : Fin (W + 1)}
    (stop : (t, Job.stop) ∈ s.queue.popped) (k : Nat) : Job.real k ∉ s.queue.q := by
  obtain ⟨popped, queued, -⟩ := reach_history reach
  intro hk
  have stop : Job.stop ∈ s.queue.popped.map Prod.snd := List.mem_map.mpr ⟨_, stop, rfl⟩
  rw [popped] at stop
  rw [queued] at hk
  simp only [List.mem_map, List.mem_range, job] at stop hk
  obtain ⟨i, hi, stop⟩ := stop
  obtain ⟨j, hj, hk⟩ := hk
  split_ifs at stop hk
  omega

/-- Once every worker has exited, each holds its stop task, and the generator holds none. -/
theorem SimInv.held_of_exited {s : Sim R W} (inv : SimInv s)
    (exited : ∀ t, t ≠ 0 → s.workers t = .exited) (t : Fin (W + 1)) :
    s.held t = if t = 0 then none else some .stop := by
  rcases eq_or_ne t 0 with rfl | ht
  · rcases inv.generator.2 with idle | ⟨-, pc, h⟩ <;>
      simp [Sim.held, inv.generator.1, Worker.held, returning, *]
  · simp [Sim.held, exited t ht, Worker.held, ht]

/-- Once every worker of a pool of at least one has exited, the generator's tasks have all been
pushed and popped: one stop task per worker came out of the queue, and the stop tasks come
last. -/
theorem popped_all_of_exited {s : Sim R W} (reach : Reach s) (pool : 0 < W)
    (exited : ∀ t, t ≠ 0 → s.workers t = .exited) :
    s.queue.popped.length = R + W ∧ s.queue.q = [] := by
  have inv := reach_simInv reach
  obtain ⟨popped, -, len⟩ := reach_history reach
  have stops : (s.queue.popped.map Prod.snd).count .stop = W := by
    rw [← sum_count_filter]
    calc ∑ t, (s.jobsOf t).count .stop = ∑ t : Fin (W + 1), if t = 0 then 0 else 1 :=
          Finset.sum_congr rfl fun t _ => by
            rw [inv.jobs t, List.count_append, inv.held_of_exited exited]
            split_ifs <;> simp [List.count_eq_zero]
      _ = W := by simp [Fin.sum_univ_succ, Fin.succ_ne_zero]
  have := count_stop_jobs (R := R) s.queue.popped.length
  rw [← popped, stops] at this
  have := inv.pushed_le
  exact ⟨by omega, List.eq_nil_of_length_eq_zero (by omega)⟩

/-- Once every worker of a pool of at least one has exited, each real task was popped once and
run once. -/
theorem ran_once_of_exited {s : Sim R W} (reach : Reach s) (pool : 0 < W)
    (exited : ∀ t, t ≠ 0 → s.workers t = .exited) (k : Nat) :
    (s.queue.popped.map Prod.snd).count (.real k) = (if k < R then 1 else 0) ∧
      (s.executed.map Prod.snd).count k = if k < R then 1 else 0 := by
  have inv := reach_simInv reach
  have popped_once : (s.queue.popped.map Prod.snd).count (.real k) = if k < R then 1 else 0 := by
    rw [(reach_history reach).1, count_real_jobs, (popped_all_of_exited reach pool exited).1]
    simp only [show k < R + W ∧ k < R ↔ k < R by omega]
  refine ⟨popped_once, ?_⟩
  calc (s.executed.map Prod.snd).count k = ∑ t, (s.ranBy t).count k := (sum_count_filter _ _).symm
    _ = ∑ t, (s.jobsOf t).count (.real k) := Finset.sum_congr rfl fun t _ => by
      rw [inv.jobs t, List.count_append, List.count_map_of_injective _ _ fun _ _ => Job.real.inj,
        inv.held_of_exited exited]
      split_ifs <;> simp
    _ = _ := (sum_count_filter _ _).trans popped_once

/-- **Shutdown.** In every reachable state: each thread dequeued the real tasks it ran, in order,
then at most one more task, a stop task if it has exited; no stop task has been dequeued while a
real task is queued; and once every worker of a pool of at least one has exited, the queue is
empty and each real task was dequeued once and run once. -/
theorem workers_shut_down {s : Sim R W} (reach : Reach s) :
    (∀ t, ∃ held : Option Job, s.jobsOf t = (s.ranBy t).map .real ++ held.toList ∧
      (s.workers t = .exited → held = some .stop)) ∧
    ((∃ t, (t, Job.stop) ∈ s.queue.popped) → ∀ k, Job.real k ∉ s.queue.q) ∧
    (0 < W → (∀ t, t ≠ 0 → s.workers t = .exited) →
      s.queue.q = [] ∧ ∀ k, (s.queue.popped.map Prod.snd).count (.real k) = (if k < R then 1 else 0) ∧
        (s.executed.map Prod.snd).count k = if k < R then 1 else 0) :=
  ⟨fun t => ⟨s.held t, (reach_simInv reach).jobs t, fun h => by simp [Sim.held, h, Worker.held]⟩,
    fun ⟨_, stop⟩ => real_not_queued_after_stop reach stop,
    fun pool exited => ⟨(popped_all_of_exited reach pool exited).2, ran_once_of_exited reach pool exited⟩⟩

/-- One real task and one worker: the generator enqueues both its tasks, then the worker runs the
real one and exits on the stop task. -/
def shutdownRun : List (Fin 2 × Act 1) :=
  [(0, .call), (0, .queue .next), (0, .queue .next), (0, .queue .next), (0, .queue .next),
   (0, .call), (0, .queue .next), (0, .queue .next), (0, .queue .next), (0, .queue .next),
   (1, .call), (1, .queue .next), (1, .queue .next), (1, .queue .next), (1, .queue .next),
   (1, .check), (1, .run),
   (1, .call), (1, .queue .next), (1, .queue .next), (1, .queue .next), (1, .queue .next),
   (1, .check)]

def shutdownSim : Sim 1 1 := (Sim.init.exec shutdownRun).get (by decide)

theorem shutdownSim_shut_down :
    (∀ t, ∃ held : Option Job, shutdownSim.jobsOf t = (shutdownSim.ranBy t).map .real ++ held.toList ∧
      (shutdownSim.workers t = .exited → held = some .stop)) ∧
    ((∃ t, (t, Job.stop) ∈ shutdownSim.queue.popped) → ∀ k, Job.real k ∉ shutdownSim.queue.q) ∧
    (0 < 1 → (∀ t, t ≠ 0 → shutdownSim.workers t = .exited) →
      shutdownSim.queue.q = [] ∧ ∀ k, (shutdownSim.queue.popped.map Prod.snd).count (.real k) =
        (if k < 1 then 1 else 0) ∧ (shutdownSim.executed.map Prod.snd).count k = if k < 1 then 1 else 0) :=
  workers_shut_down (Reach.start.exec (Option.eq_some_of_isSome _))

/-- A pool with no worker: the generator enqueues its one real task, and nothing takes it. -/
def emptyPoolRun : List (Fin 1 × Act 0) :=
  [(0, .call), (0, .queue .next), (0, .queue .next), (0, .queue .next), (0, .queue .next)]

def emptyPool : Sim 1 0 := (Sim.init.exec emptyPoolRun).get (by decide)

theorem empty_pool_keeps_task :
    Reach emptyPool ∧ (∀ t : Fin 1, t ≠ 0 → emptyPool.workers t = .exited) ∧
      emptyPool.queue.q = [.real 0] ∧ emptyPool.executed = [] :=
  ⟨Reach.start.exec (Option.eq_some_of_isSome _), by decide, by decide, by decide⟩

end Labs.Simulation
