import Labs.EStore.Store

/-!
# Threads running the store's calls

The store under any number of threads (`T` of them), as a state machine over program points.
A thread runs one call at a time; each step is one statement of `EStore.cpp`: an
`smutex_lock`, an `smutex_unlock`, the first half of an `scond_wait`, or a statement that reads
or writes the store, together with the `scond_broadcast` that follows it in the same critical
section. Both operating modes are here, as in the C++: each call reads `fineMode` where the
code branches on it.

The sthread primitives (not among the sources) behave as the spec says and as a default
pthread mutex does:

* `smutex_lock` blocks while the mutex is locked, then locks it;
* `smutex_unlock` clears the mutex, whoever locked it;
* `scond_wait` releases the mutex and sleeps until a broadcast on its variable, or a spurious
  wake-up, then locks the mutex again;
* `scond_broadcast` wakes every thread asleep on the variable.
-/

namespace Labs.EStore

/-- The store's mutexes: `mtx` (coarse mode), `global_mtx` and `item_mtx[i]` (fine mode). -/
inductive Mutex (n : Nat) where
  | mtx
  | globalMtx
  | itemMtx (i : Fin n)
  deriving DecidableEq

/-- The store's condition variables: `item_cv[i]` (coarse mode) and `item_cv_fine[i]`. -/
inductive Cond (n : Nat) where
  | itemCv (i : Fin n)
  | itemCvFine (i : Fin n)
  deriving DecidableEq

/-- Where a thread is in `buyItem`; each stage names the statement run next. -/
inductive BuyPc where
  /-- `smutex_lock(&mtx)`. -/
  | lock
  /-- `if (!inventory[item_id].valid)`. -/
  | check
  /-- The head of `while (inventory[item_id].valid)`. -/
  | loop
  /-- `total = totalCost_nolock(it); if (it.quantity > 0 && total <= budget)`. -/
  | test
  /-- `it.quantity -= 1`. -/
  | decrement
  /-- `scond_wait(&item_cv[item_id], &mtx)`. -/
  | wait
  /-- Asleep on `item_cv[item_id]`. -/
  | asleep
  /-- Woken, locking `mtx` again inside `scond_wait`. -/
  | relock
  /-- One of the `smutex_unlock(&mtx)`, then return. -/
  | unlock
  deriving DecidableEq

/-- Where a thread is in a one-slot call. -/
inductive SlotPc where
  | lock
  /-- The critical section: the slot's update and its `scond_broadcast`. -/
  | body
  | unlock
  deriving DecidableEq

/-- Where a thread is in `getItemQuantity`. -/
inductive GetPc where
  | lock
  | read
  /-- `smutex_unlock`, then `return q`. -/
  | unlock (q : Int)
  deriving DecidableEq

/-- Where a thread is in `setShippingCost` or `setStoreDiscount`. -/
inductive SetPc (n : Nat) where
  | lock
  | body
  /-- The `smutex_unlock` of the mode's branch; `changed` is `decreased` or `increased`. -/
  | unlock (changed : Bool)
  /-- Fine mode: the head of the wake-up loop, at `i = k`. -/
  | wakeLock (k : Nat)
  /-- Fine mode: `scond_broadcast(&item_cv_fine[i], &item_mtx[i])`. -/
  | wakeBroadcast (i : Fin n)
  /-- Fine mode: `smutex_unlock(&item_mtx[i])`. -/
  | wakeUnlock (i : Fin n)
  /-- The `smutex_unlock(&mtx)` after the mode branch, then return. -/
  | extraUnlock
  deriving DecidableEq

/-- Where a thread is in `buyManyItems`, past the filter, `std::sort` and `std::unique`. -/
inductive ManyPc (R : Type) (n : Nat) where
  /-- `smutex_lock(&global_mtx)`. -/
  | lockGlobal
  /-- `shipSnap = shippingCost; discSnap = storeDiscount`. -/
  | snapshot
  /-- `smutex_unlock(&global_mtx)`. -/
  | unlockGlobal (shipSnap discSnap : R)
  /-- The lock loop: `held` are locked (last first), `todo` are next. -/
  | lock (shipSnap discSnap : R) (held todo : List (Fin n))
  /-- The check loop: `todo` are still to check, `total` is the running total. -/
  | check (shipSnap discSnap : R) (todo : List (Fin n)) (total : R)
  /-- The commit loop: `todo` are still to decrement. -/
  | commit (todo : List (Fin n))
  /-- The unlock loop, highest id first: `held` are still locked. -/
  | unlock (held : List (Fin n))
  deriving DecidableEq

/-- Where a thread is in the store's code: the call it is in, its arguments once checked, and
the stage. -/
inductive Pc (R : Type) (n : Nat) where
  /-- Not in a call. -/
  | idle
  | buyItem (i : Fin n) (budget : R) (pc : BuyPc)
  | slot (i : Fin n) (op : SlotOp R) (pc : SlotPc)
  | getItemQuantity (i : Fin n) (pc : GetPc)
  | setter (x : Setter R) (pc : SetPc n)
  /-- `buyManyItems` on its sorted, repeat-free ids in range. -/
  | buyManyItems (ids : List (Fin n)) (budget : R) (pc : ManyPc R n)
  deriving DecidableEq

/-- What a statement writes to the store. -/
inductive Write (R : Type) (n : Nat) where
  /-- Nothing: the statement only reads, or only moves on. -/
  | none
  /-- `inventory[i].quantity -= 1`. -/
  | decrement (i : Fin n)
  /-- The critical section of a one-slot call on slot `i`. -/
  | slot (i : Fin n) (op : SlotOp R)
  /-- The critical section of a setter. -/
  | setter (x : Setter R)

/-- What one statement does. -/
inductive Act (R : Type) (n : Nat) where
  /-- `smutex_lock(m)`; then the thread is at `next`. -/
  | lock (m : Mutex n) (next : Pc R n)
  /-- `smutex_unlock(m)`. -/
  | unlock (m : Mutex n) (next : Pc R n)
  /-- `scond_wait(_, m)` up to falling asleep: `m` is released. -/
  | wait (m : Mutex n) (next : Pc R n)
  /-- A statement on the store: its write and the condition variables it broadcasts. -/
  | run (write : Write R n) (bcast : Cond n → Bool) (next : Pc R n)

variable {R : Type} {n : Nat}

/-- The thread is not in a call. -/
def Pc.isIdle : Pc R n → Bool
  | .idle => true
  | _ => false

/-- The next program point of a statement. -/
def Act.next : Act R n → Pc R n
  | .lock _ p | .unlock _ p | .wait _ p | .run _ _ p => p

/-- What a statement writes to the store. -/
def Act.write : Act R n → Write R n
  | .run wr _ _ => wr
  | _ => .none

/-- The mutex of slot `i`'s one-slot calls: `mtx` in coarse mode, `item_mtx[i]` in fine mode. -/
def slotMutex (fine : Bool) (i : Fin n) : Mutex n :=
  if fine then .itemMtx i else .mtx

/-- The condition variable a one-slot call on `i` broadcasts. -/
def slotCond (fine : Bool) (i : Fin n) : Cond n :=
  if fine then .itemCvFine i else .itemCv i

/-- The mutex of the setters' critical sections. -/
def setterMutex (fine : Bool) : Mutex n :=
  if fine then .globalMtx else .mtx

/-- No condition variable. -/
def noCond : Cond n → Bool := fun _ => false

/-- Every `item_cv[i]`: the coarse setters' broadcast loop. -/
def allItemCvs : Cond n → Bool
  | .itemCv _ => true
  | .itemCvFine _ => false

/-- A thread asleep on a broadcast variable wakes up; it then has to lock `mtx` again. -/
def Pc.woken (bcast : Cond n → Bool) : Pc R n → Pc R n
  | .buyItem i b .asleep => .buyItem i b (if bcast (.itemCv i) then .relock else .asleep)
  | p => p

@[simp] theorem woken_noCond (p : Pc R n) : p.woken noCond = p := by
  cases p with
  | buyItem i b pc => cases pc <;> rfl
  | _ => rfl

theorem woken_of_not_asleep {p : Pc R n} (awake : ∀ i b, p ≠ .buyItem i b .asleep)
    (bcast : Cond n → Bool) : p.woken bcast = p := by
  cases p with
  | buyItem i b pc => cases pc <;> first | rfl | exact absurd rfl (awake i b)
  | _ => rfl

variable [Price R]

/-- The store after a write. -/
def Write.apply : Write R n → EStore R n → EStore R n
  | .none, s => s
  | .decrement i, s => s.decrement i
  | .slot i op, s => s.setItem i (op.body (s.inventory i)).1
  | .setter x, s => (x.body s).1

@[simp] theorem Write.apply_fineMode (wr : Write R n) (s : EStore R n) :
    (wr.apply s).fineMode = s.fineMode := by
  cases wr <;> simp [Write.apply]

/-- The next statement of `buyItem(i, b)` on store `s`. -/
def BuyPc.next (s : EStore R n) (i : Fin n) (b : R) : BuyPc → Option (Act R n)
  | .lock => some (.lock .mtx (.buyItem i b .check))
  | .check => some (.run .none noCond (.buyItem i b
      (if (s.inventory i).valid then .loop else .unlock)))
  | .loop => some (.run .none noCond (.buyItem i b
      (if (s.inventory i).valid then .test else .unlock)))
  | .test => some (.run .none noCond (.buyItem i b
      (if 0 < (s.inventory i).quantity ∧ s.totalCost (s.inventory i) ≤ b then .decrement
        else .wait)))
  | .decrement => some (.run (.decrement i) noCond (.buyItem i b .unlock))
  | .wait => some (.wait .mtx (.buyItem i b .asleep))
  | .asleep => none
  | .relock => some (.lock .mtx (.buyItem i b .loop))
  | .unlock => some (.unlock .mtx .idle)

/-- The next statement of a one-slot call `op` on slot `i`. -/
def SlotPc.next (s : EStore R n) (i : Fin n) (op : SlotOp R) : SlotPc → Option (Act R n)
  | .lock => some (.lock (slotMutex s.fineMode i) (.slot i op .body))
  | .body => some (.run (.slot i op)
      (fun c => (op.body (s.inventory i)).2 && c = slotCond s.fineMode i) (.slot i op .unlock))
  | .unlock => some (.unlock (slotMutex s.fineMode i) .idle)

/-- The next statement of `getItemQuantity` on slot `i`. -/
def GetPc.next (s : EStore R n) (i : Fin n) : GetPc → Option (Act R n)
  | .lock => some (.lock (slotMutex s.fineMode i) (.getItemQuantity i .read))
  | .read => some (.run .none noCond (.getItemQuantity i (.unlock (s.quantityAt i))))
  | .unlock _ => some (.unlock (slotMutex s.fineMode i) .idle)

/-- The next statement of a setter. -/
def SetPc.next (s : EStore R n) (x : Setter R) : SetPc n → Option (Act R n)
  | .lock => some (.lock (setterMutex s.fineMode) (.setter x .body))
  | .body => some (.run (.setter x) (fun c => !s.fineMode && (x.body s).2 && allItemCvs c)
      (.setter x (.unlock (x.body s).2)))
  | .unlock changed => some (.unlock (setterMutex s.fineMode)
      (.setter x (if s.fineMode && changed then .wakeLock 0 else .extraUnlock)))
  | .wakeLock k =>
    if h : k < n then some (.lock (.itemMtx ⟨k, h⟩) (.setter x (.wakeBroadcast ⟨k, h⟩)))
    else some (.run .none noCond (.setter x .extraUnlock))
  | .wakeBroadcast i => some (.run .none (· = .itemCvFine i) (.setter x (.wakeUnlock i)))
  | .wakeUnlock i => some (.unlock (.itemMtx i) (.setter x (.wakeLock (i + 1))))
  | .extraUnlock => some (.unlock .mtx .idle)

/-- The next statement of `buyManyItems` on the ids `ids`. -/
def ManyPc.next (s : EStore R n) (ids : List (Fin n)) (b : R) : ManyPc R n → Option (Act R n)
  | .lockGlobal => some (.lock .globalMtx (.buyManyItems ids b .snapshot))
  | .snapshot => some (.run .none noCond
      (.buyManyItems ids b (.unlockGlobal s.shippingCost s.storeDiscount)))
  | .unlockGlobal sh d => some (.unlock .globalMtx (.buyManyItems ids b (.lock sh d [] ids)))
  | .lock sh d _ [] => some (.run .none noCond (.buyManyItems ids b (.check sh d ids 0)))
  | .lock sh d held (i :: todo) =>
    some (.lock (.itemMtx i) (.buyManyItems ids b (.lock sh d (i :: held) todo)))
  | .check _ _ [] _ => some (.run .none noCond (.buyManyItems ids b (.commit ids)))
  | .check sh d (i :: todo) total =>
    match checkItem s sh d b total i with
    | none => some (.run .none noCond (.buyManyItems ids b (.unlock ids.reverse)))
    | some total' => some (.run .none noCond (.buyManyItems ids b (.check sh d todo total')))
  | .commit [] => some (.run .none noCond (.buyManyItems ids b (.unlock ids.reverse)))
  | .commit (i :: todo) => some (.run (.decrement i) noCond (.buyManyItems ids b (.commit todo)))
  | .unlock [] => some (.run .none noCond .idle)
  | .unlock (i :: held) => some (.unlock (.itemMtx i) (.buyManyItems ids b (.unlock held)))

/-- The statement a thread at `p` runs next on store `s`; `none` when it has none (not in a
call, or asleep). -/
def Pc.next (s : EStore R n) : Pc R n → Option (Act R n)
  | .idle => none
  | .buyItem i b pc => pc.next s i b
  | .slot i op pc => pc.next s i op
  | .getItemQuantity i pc => pc.next s i
  | .setter x pc => pc.next s x
  | .buyManyItems ids b pc => pc.next s ids b

/-- Where a call starts, after the checks that read only its arguments: an id out of range,
or an order with no id in range, returns at once. -/
def Call.entry (n : Nat) : Call R → Pc R n
  | .buyItem itemId b => match slot? n itemId with
    | some i => .buyItem i b .lock
    | none => .idle
  | .buyManyItems itemIds b =>
    let ids := orderIds n itemIds
    if ids.isEmpty then .idle else .buyManyItems ids b .lockGlobal
  | .slot itemId op => match slot? n itemId with
    | some i => .slot i op .lock
    | none => .idle
  | .setter x => .setter x .lock
  | .getItemQuantity itemId => match slot? n itemId with
    | some i => .getItemQuantity i .lock
    | none => .idle

/-- The calls of a mode: `buyItem` asserts coarse mode, `buyManyItems` fine mode. -/
def Call.allowed (fineMode : Bool) : Call R → Bool
  | .buyItem _ _ => !fineMode
  | .buyManyItems _ _ => fineMode
  | _ => true

variable {T : Nat}

/-- The store, its mutexes (locked or not) and the `T` threads. -/
structure World (R : Type) (n T : Nat) where
  store : EStore R n
  locked : Mutex n → Bool
  threads : Fin T → Pc R n

/-- A freshly built store: no mutex locked, no thread in a call. -/
def World.init (s : EStore R n) : World R n T := ⟨s, fun _ => false, fun _ => .idle⟩

/-- Thread `t` runs statement `a`; `none` when it blocks on a locked mutex. -/
def World.perform (w : World R n T) (t : Fin T) : Act R n → Option (World R n T)
  | .lock m p =>
    if w.locked m then none
    else some { w with
      locked := Function.update w.locked m true, threads := Function.update w.threads t p }
  | .unlock m p =>
    some { w with
      locked := Function.update w.locked m false, threads := Function.update w.threads t p }
  | .wait m p =>
    some { w with
      locked := Function.update w.locked m false, threads := Function.update w.threads t p }
  | .run wr b p =>
    some { w with
      store := wr.apply w.store
      threads := Function.update (fun u => (w.threads u).woken b) t p }

/-- What a thread may do: call, when idle; run its next statement; wake up spuriously, when
asleep. -/
inductive Move (R : Type) where
  | call (c : Call R)
  | next
  | wake

/-- One step of thread `t`; `none` when the move is not possible. -/
def World.step (w : World R n T) (t : Fin T) : Move R → Option (World R n T)
  | .call c =>
    if (w.threads t).isIdle && c.allowed w.store.fineMode then
      some { w with threads := Function.update w.threads t (c.entry n) }
    else none
  | .next => ((w.threads t).next w.store).bind (w.perform t)
  | .wake => match w.threads t with
    | .buyItem i b .asleep =>
      some { w with threads := Function.update w.threads t (.buyItem i b .relock) }
    | _ => none

/-- A run: the moves of a schedule, one after the other. -/
def World.exec (w : World R n T) : List (Fin T × Move R) → Option (World R n T)
  | [] => some w
  | (t, m) :: σ => (w.step t m).bind (·.exec σ)

@[simp] theorem World.exec_nil (w : World R n T) : w.exec [] = some w := rfl

/-- The states the runs from `w₀` reach. -/
inductive Reach (w₀ : World R n T) : World R n T → Prop
  | start : Reach w₀ w₀
  | step {w w' : World R n T} (t : Fin T) (m : Move R) :
      Reach w₀ w → w.step t m = some w' → Reach w₀ w'

theorem Reach.exec {w₀ w : World R n T} (h : Reach w₀ w) {σ : List (Fin T × Move R)} {w' : World R n T}
    (run : w.exec σ = some w') : Reach w₀ w' := by
  induction σ generalizing w with
  | nil => cases run; exact h
  | cons m σ ih =>
    obtain ⟨t, m⟩ := m
    simp only [World.exec, Option.bind_eq_some] at run
    obtain ⟨w₁, step, rest⟩ := run
    exact ih (h.step t m step) rest

/-! ## What a step changes -/

variable {w w' : World R n T} {t : Fin T}

/-- **A step, inverted.** A call starts at an idle thread, a spurious wake-up takes an asleep
`buyItem` to its relock, and any other step runs the thread's next statement. -/
theorem step_cases {m : Move R} (h : w.step t m = some w') :
    (∃ c, m = .call c ∧ (w.threads t).isIdle ∧ c.allowed w.store.fineMode ∧
      w' = { w with threads := Function.update w.threads t (c.entry n) }) ∨
    (∃ i b, m = .wake ∧ w.threads t = .buyItem i b .asleep ∧
      w' = { w with threads := Function.update w.threads t (.buyItem i b .relock) }) ∨
    (m = .next ∧ ∃ a, (w.threads t).next w.store = some a ∧ w.perform t a = some w') := by
  cases m with
  | call c =>
    simp only [World.step, Bool.and_eq_true] at h
    split at h
    · cases h; exact .inl ⟨c, rfl, ‹_ ∧ _›.1, ‹_ ∧ _›.2, rfl⟩
    · cases h
  | wake =>
    simp only [World.step] at h
    split at h
    · cases h; exact .inr (.inl ⟨_, _, rfl, ‹_›, rfl⟩)
    · cases h
  | next =>
    simp only [World.step, Option.bind_eq_some] at h
    exact .inr (.inr ⟨rfl, h⟩)

/-- The thread that runs a statement moves to the statement's next program point. -/
theorem perform_self {a : Act R n} (h : w.perform t a = some w') : w'.threads t = a.next := by
  cases a with
  | lock m p =>
    simp only [World.perform] at h
    split at h <;> cases h
    simp [Act.next]
  | _ => cases h; simp [Act.next]

theorem perform_store {a : Act R n} (h : w.perform t a = some w') : w'.store = a.write.apply w.store := by
  cases a with
  | lock m p =>
    simp only [World.perform] at h
    split at h <;> cases h
    rfl
  | _ => cases h; rfl

/-- A statement that writes nothing and broadcasts nothing moves only its own thread. -/
theorem perform_quiet (w : World R n T) (t : Fin T) (p : Pc R n) :
    w.perform t (.run .none noCond p) = some { w with threads := Function.update w.threads t p } := by
  simp only [World.perform, Write.apply, woken_noCond]

theorem perform_lock_free (w : World R n T) (t : Fin T) {m : Mutex n} (p : Pc R n)
    (free : w.locked m = false) :
    w.perform t (.lock m p) =
      some { w with locked := Function.update w.locked m true,
                    threads := Function.update w.threads t p } := by
  simp only [World.perform, free, Bool.false_eq_true, ↓reduceIte]

theorem perform_unlock (w : World R n T) (t : Fin T) (m : Mutex n) (p : Pc R n) :
    w.perform t (.unlock m p) =
      some { w with locked := Function.update w.locked m false,
                    threads := Function.update w.threads t p } := rfl

/-- With no thread asleep, a statement moves only the thread that runs it. -/
theorem perform_threads {a : Act R n} (h : w.perform t a = some w')
    (awake : ∀ u i b, w.threads u ≠ .buyItem i b .asleep) :
    w'.threads = Function.update w.threads t a.next := by
  cases a with
  | lock m p =>
    simp only [World.perform] at h
    split at h <;> cases h
    rfl
  | run wr b p =>
    cases h
    have still : (fun u => (w.threads u).woken b) = w.threads :=
      funext fun u => woken_of_not_asleep (awake u) b
    exact congrArg (Function.update · t p) still
  | _ => cases h; rfl

/-- The other threads only move by being woken. -/
theorem step_other {m : Move R} (h : w.step t m = some w') {u : Fin T} (ne : u ≠ t) :
    ∃ bcast, w'.threads u = (w.threads u).woken bcast := by
  rcases step_cases h with ⟨c, -, -, -, rfl⟩ | ⟨i, b, -, -, rfl⟩ | ⟨-, a, -, h⟩
  · exact ⟨noCond, by simp [Function.update_noteq ne]⟩
  · exact ⟨noCond, by simp [Function.update_noteq ne]⟩
  · cases a with
    | run wr b p => cases h; exact ⟨b, Function.update_noteq ne p fun u => (w.threads u).woken b⟩
    | lock m p =>
      simp only [World.perform] at h
      split at h <;> cases h
      exact ⟨noCond, by simp [Function.update_noteq ne]⟩
    | unlock m p | wait m p => cases h; exact ⟨noCond, by simp [Function.update_noteq ne]⟩

/-- Only a statement on the store changes it. -/
theorem step_store {m : Move R} (h : w.step t m = some w') :
    w'.store = w.store ∨ ∃ wr bcast p, m = .next ∧
      (w.threads t).next w.store = some (.run wr bcast p) ∧ w'.store = wr.apply w.store := by
  rcases step_cases h with ⟨c, -, -, -, rfl⟩ | ⟨i, b, -, -, rfl⟩ | ⟨rfl, a, ha, h⟩
  · exact .inl rfl
  · exact .inl rfl
  · cases a <;> simp only [World.perform] at h <;> (try split at h) <;> cases h
    all_goals first | exact .inl rfl | exact .inr ⟨_, _, _, rfl, ha, rfl⟩

/-- **The store statements.** A statement that writes the store is a decrement, which wakes no
one, the critical section of a one-slot call, which wakes the slot's waiters when its update
says so, or the critical section of a setter, which in coarse mode wakes every `item_cv[i]`
when its value changed the way the setter checks. -/
theorem next_run_cases {s : EStore R n} {p p' : Pc R n} {wr : Write R n} {bcast : Cond n → Bool}
    (h : p.next s = some (.run wr bcast p')) :
    wr = .none ∨ (∃ j, wr = .decrement j ∧ bcast = noCond) ∨
      (∃ j op, wr = .slot j op ∧
        bcast = fun c => (op.body (s.inventory j)).2 && c = slotCond s.fineMode j) ∨
      ∃ x, wr = .setter x ∧ bcast = fun c => !s.fineMode && (x.body s).2 && allItemCvs c := by
  cases p with
  | idle => cases h
  | buyItem i b pc => cases pc <;> cases h <;> first | exact .inl rfl | exact .inr (.inl ⟨i, rfl, rfl⟩)
  | slot i op pc => cases pc <;> cases h; exact .inr (.inr (.inl ⟨i, op, rfl, rfl⟩))
  | getItemQuantity i pc => cases pc <;> cases h; exact .inl rfl
  | setter x pc =>
    cases pc <;> simp only [Pc.next, SetPc.next] at h <;> (try split at h) <;> cases h <;>
      first | exact .inl rfl | exact .inr (.inr (.inr ⟨x, rfl, rfl⟩))
  | buyManyItems ids b pc =>
    cases pc with
    | check sh d todo total =>
      cases todo <;> simp only [Pc.next, ManyPc.next] at h <;> (try split at h) <;> cases h <;>
        exact .inl rfl
    | commit todo =>
      cases todo <;> cases h; exacts [.inl rfl, .inr (.inl ⟨_, rfl, rfl⟩)]
    | lock _ _ _ todo | unlock todo =>
      cases todo <;> cases h
      exact .inl rfl
    | _ => cases h <;> exact .inl rfl

theorem step_fineMode {m : Move R} (h : w.step t m = some w') :
    w'.store.fineMode = w.store.fineMode := by
  rcases step_store h with e | ⟨wr, -, -, -, -, e⟩ <;> simp [e]

/-- The thread is in `buyItem`. -/
def Pc.inBuyItem : Pc R n → Bool
  | .buyItem _ _ _ => true
  | _ => false

/-- The thread is in `buyManyItems`. -/
def Pc.inBuyManyItems : Pc R n → Bool
  | .buyManyItems _ _ _ => true
  | _ => false

/-- **A thread stays in its call.** Only `buyItem`'s own statements lead into `buyItem`, and only
`buyManyItems`' own statements into `buyManyItems`. -/
theorem next_stays {s : EStore R n} {p : Pc R n} {a : Act R n} (h : p.next s = some a) :
    (a.next.inBuyItem → p.inBuyItem) ∧ (a.next.inBuyManyItems → p.inBuyManyItems) := by
  cases p with
  | idle => cases h
  | buyItem i b pc => cases pc <;> cases h <;> exact ⟨fun _ => rfl, nofun⟩
  | slot i op pc => cases pc <;> cases h <;> exact ⟨nofun, nofun⟩
  | getItemQuantity i pc => cases pc <;> cases h <;> exact ⟨nofun, nofun⟩
  | setter x pc =>
    cases pc <;> simp only [Pc.next, SetPc.next] at h <;> (try split at h) <;> cases h <;>
      exact ⟨nofun, nofun⟩
  | buyManyItems ids b pc =>
    refine ⟨fun hn => ?_, fun _ => rfl⟩
    cases pc with
    | check _ _ todo _ =>
      cases todo <;> simp only [Pc.next, ManyPc.next] at h <;> (try split at h) <;> cases h <;>
        cases hn
    | lock _ _ _ todo | commit todo | unlock todo => cases todo <;> cases h <;> cases hn
    | _ => cases h; cases hn

end Labs.EStore
