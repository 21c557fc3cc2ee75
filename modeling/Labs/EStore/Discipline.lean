import Labs.EStore.Locking

/-!
# The mutex operations of a call

The sequence of `smutex_lock`, `smutex_unlock` and `scond_wait` a thread performs in a run
(`World.mutexOps`), and when such a sequence is well bracketed (`Bracketed`): each unlock or
wait is of a mutex the thread holds, no lock is of one it holds, and the call ends holding
nothing.

* `setter_unlocks_mtx_twice`: a setter in coarse mode locks `mtx` once and unlocks it twice.
-/

namespace Labs.EStore

variable {R : Type} [Price R] {n T : Nat}

/-- A mutex operation. -/
inductive MutexOp (n : Nat) where
  | lock (m : Mutex n)
  | unlock (m : Mutex n)
  | wait (m : Mutex n)

/-- The mutex operation of a statement, if it has one. -/
def Act.mutexOp : Act R n → Option (MutexOp n)
  | .lock m _ => some (.lock m)
  | .unlock m _ => some (.unlock m)
  | .wait m _ => some (.wait m)
  | .run _ _ _ => none

/-- The mutex operations thread `t` performs in the run of the schedule `σ` from `w`. -/
def World.mutexOps (w : World R n T) (t : Fin T) : List (Fin T × Move R) → List (MutexOp n)
  | [] => []
  | (u, m) :: σ =>
    match w.step u m with
    | none => []
    | some w' =>
      let own : Option (MutexOp n) := match m with
        | .next => if u = t then ((w.threads t).next w.store).bind Act.mutexOp else none
        | _ => none
      own.toList ++ w'.mutexOps t σ

/-- The mutex operations of one call, from the mutexes `held`, are well bracketed: a lock
takes a mutex not held, an unlock releases a held one, a wait releases a held one and takes it
back before returning, and nothing is held at the end. -/
def Bracketed : List (Mutex n) → List (MutexOp n) → Bool
  | held, [] => held.isEmpty
  | held, .lock m :: ops => !held.contains m && Bracketed (m :: held) ops
  | held, .unlock m :: ops => held.contains m && Bracketed (held.erase m) ops
  | held, .wait m :: ops => held.contains m && Bracketed held ops

/-- The moves of one thread that calls `c` and runs `k` statements. -/
def solo (c : Call R) (k : Nat) : List (Fin 1 × Move R) := (0, .call c) :: List.replicate k (0, .next)

/-- **The setters release `mtx` twice in coarse mode.** A thread alone in a coarse store that
calls `setShippingCost` or `setStoreDiscount` locks `mtx`, unlocks it in the mode branch, and
unlocks it again after the branch: the second unlock releases a mutex it does not hold. -/
theorem setter_unlocks_mtx_twice (s : EStore R n) (coarse : s.fineMode = false) (x : Setter R) :
    (World.init s : World R n 1).mutexOps 0 (solo (.setter x) 4) =
        [.lock .mtx, .unlock .mtx, .unlock .mtx] ∧
      Bracketed [] [.lock (.mtx : Mutex n), .unlock .mtx, .unlock .mtx] = false := by
  refine ⟨?_, rfl⟩
  simp [solo, World.mutexOps, World.step, World.init, World.perform, Pc.next, SetPc.next,
    Call.entry, Call.allowed, Pc.isIdle, setterMutex, coarse, Act.mutexOp, Function.update]

/-- `setShippingCost(0)` on a fresh coarse store of one slot. -/
theorem setShippingCost_unlocks_mtx_twice :
    (World.init (create 1 false 0 0) : World ℚ 1 1).mutexOps 0 (solo (.setter (.shippingCost 0)) 4) =
        [.lock .mtx, .unlock .mtx, .unlock .mtx] ∧
      Bracketed [] [.lock (.mtx : Mutex 1), .unlock .mtx, .unlock .mtx] = false :=
  setter_unlocks_mtx_twice _ rfl _

end Labs.EStore
