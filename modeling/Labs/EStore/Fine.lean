import Labs.EStore.Exclusion
import Mathlib.Data.Finset.Max
import Mathlib.Logic.Relation

/-!
# Fine mode: the lock order and deadlock freedom

In fine mode `global_mtx` guards the shipping cost and the store discount and `item_mtx[i]` the
slot `i`. `buyManyItems` takes `global_mtx` alone for its snapshot, then the item mutexes of its
sorted, repeat-free ids in ascending order; the other calls hold at most one mutex at a time.
Ranking `global_mtx` below every `item_mtx[i]` and the item mutexes by id, a thread about to
lock a mutex holds only mutexes of lower rank.

* `lock_above_holds`: the lock order, statement by statement.
* `FineInv`, `reach_fineInv`: in every reachable state of a fine-mode store, the lock invariant
  of `Exclusion` holds and no thread is in `buyItem`.
* `fine_deadlock_free`: some thread in a call can always run its next statement, no threads
  wait for each other in a cycle, and no thread locks a mutex it holds.
-/

namespace Labs.EStore

variable {R : Type} {n T : Nat}

/-- The rank of a mutex in the lock order: `global_mtx` first, then `item_mtx[i]` by id. -/
def Mutex.rank : Mutex n → Nat
  | .mtx | .globalMtx => 0
  | .itemMtx i => i + 1

variable [Price R] {s : EStore R n} {p p' : Pc R n} {a : Act R n} {fine : Bool}

/-- **The lock order, statement by statement.** A thread about to lock `m` holds only mutexes
of lower rank: at most the item mutexes of lower ids, in the lock loop of `buyManyItems`. -/
theorem lock_above_holds {m m' : Mutex n} (h : p.next s = some (.lock m p')) (wf : p.WellFormed)
    (held : p.holds fine m' = true) : m'.rank < m.rank := by
  cases p with
  | idle => cases h
  | buyItem i b pc => cases pc <;> cases h <;> simp [Pc.holds, BuyPc.holds] at held
  | slot i op pc => cases pc <;> cases h; simp [Pc.holds, SlotPc.holds] at held
  | getItemQuantity i pc => cases pc <;> cases h; simp [Pc.holds, GetPc.holds] at held
  | setter x pc =>
    cases pc <;> simp only [Pc.next, SetPc.next] at h <;> (try split at h) <;> cases h <;>
      simp [Pc.holds, SetPc.holds] at held
  | buyManyItems ids b pc =>
    cases pc with
    | lockGlobal => cases h; simp [Pc.holds, ManyPc.holds] at held
    | lock sh d held' todo =>
      cases todo with
      | nil => cases h
      | cons i todo =>
        cases h
        simp only [Pc.holds, ManyPc.holds, List.mem_map, decide_eq_true_eq] at held
        obtain ⟨j, hj, rfl⟩ := held
        have sorted := wf.1
        rw [← wf.2, List.pairwise_append] at sorted
        have lt := sorted.2.2 j (List.mem_reverse.mpr hj) i (List.mem_cons_self i todo)
        simp only [Mutex.rank, Fin.lt_def] at lt ⊢
        omega
    | check _ _ todo _ =>
      cases todo <;> simp only [Pc.next, ManyPc.next] at h <;> (try split at h) <;> cases h
    | commit todo | unlock todo => cases todo <;> cases h
    | snapshot | unlockGlobal => cases h

omit [Price R] in
/-- In fine mode no thread's ledger holds `mtx`, outside `buyItem`. -/
theorem holds_mtx (noBuy : ∀ i b pc, p ≠ .buyItem i b pc) : p.holds true .mtx = false := by
  cases p with
  | buyItem i b pc => exact absurd rfl (noBuy i b pc)
  | slot i op pc => cases pc <;> simp [Pc.holds, SlotPc.holds, slotMutex]
  | getItemQuantity i pc => cases pc <;> simp [Pc.holds, GetPc.holds, slotMutex]
  | setter x pc => cases pc <;> simp [Pc.holds, SetPc.holds, setterMutex]
  | buyManyItems ids b pc => cases pc <;> simp [Pc.holds, ManyPc.holds]
  | idle => rfl

/-- Only `buyItem`'s own statements lead into `buyItem`. -/
theorem next_ne_buyItem (h : p.next s = some a) (noBuy : ∀ i b pc, p ≠ .buyItem i b pc)
    (i : Fin n) (b : R) (pc : BuyPc) : a.next ≠ .buyItem i b pc := fun e => by
  have buy := (next_stays h).1 (by rw [e]; rfl)
  cases p <;> first | exact noBuy _ _ _ rfl | cases buy

/-- A thread in a call, and not asleep, has a next statement. -/
theorem next_isSome (idle : p.isIdle = false) (awake : ∀ i b, p ≠ .buyItem i b .asleep) :
    (p.next s).isSome := by
  cases p with
  | idle => cases idle
  | buyItem i b pc => cases pc <;> simp_all [Pc.next, BuyPc.next]
  | slot i op pc => cases pc <;> rfl
  | getItemQuantity i pc => cases pc <;> rfl
  | setter x pc => cases pc <;> simp only [Pc.next, SetPc.next] <;> (try split) <;> rfl
  | buyManyItems ids b pc =>
    cases pc with
    | check _ _ todo _ => cases todo <;> simp only [Pc.next, ManyPc.next] <;> (try split) <;> rfl
    | lock _ _ _ todo | commit todo | unlock todo => cases todo <;> rfl
    | _ => rfl

/-! ## The lock invariant -/

/-- The invariant of a fine-mode store: the lock invariant, and no thread is in `buyItem`. -/
structure FineInv (w : World R n T) extends LockInv true w : Prop where
  fine : w.store.fineMode = true
  noBuyItem : ∀ t i b pc, w.threads t ≠ .buyItem i b pc

variable {w w' : World R n T} {t : Fin T}

/-- **The invariant is kept by every step.** The setters' trailing `smutex_unlock(&mtx)` finds
`mtx` free, as no thread of a fine-mode store holds it. -/
theorem FineInv.step (inv : FineInv w) {mv : Move R} (h : w.step t mv = some w') : FineInv w' := by
  have free : w.locked .mtx = false := by
    by_contra held
    obtain ⟨u, hu⟩ := (inv.locked .mtx).mp (by simpa using held)
    simp [holds_mtx (inv.noBuyItem u)] at hu
  refine ⟨inv.toLockInv.step inv.fine h fun _ => free, (step_fineMode h).trans inv.fine, ?_⟩
  rcases step_cases h with ⟨c, -, -, allowed, rfl⟩ | ⟨i, b, -, asleep, -⟩ | ⟨-, a, ha, hp⟩
  · refine (Function.forall_update_iff _ fun _ (q : Pc R n) => ∀ i b pc, q ≠ .buyItem i b pc).mpr
      ⟨fun i b pc => ?_, fun u _ => inv.noBuyItem u⟩
    cases c <;> simp only [Call.entry] <;> (try split) <;> simp_all [Call.allowed, inv.fine]
  · exact absurd asleep (inv.noBuyItem t i b .asleep)
  · rw [perform_threads hp fun u i b => inv.noBuyItem u i b .asleep]
    exact (Function.forall_update_iff _ fun _ (q : Pc R n) => ∀ i b pc, q ≠ .buyItem i b pc).mpr
      ⟨next_ne_buyItem ha (inv.noBuyItem t), fun u _ => inv.noBuyItem u⟩

/-- **The lock invariant.** It holds in every state a fine-mode store reaches. -/
theorem reach_fineInv (fine : s.fineMode = true) (reach : Reach (World.init s : World R n T) w) :
    FineInv w := by
  induction reach with
  | start => exact ⟨.init, fine, fun _ _ _ _ => nofun⟩
  | step t mv _ h ih => exact ih.step h

/-! ## Deadlock freedom -/

/-- Thread `t` waits for thread `u`: its next statement locks a mutex that is locked and that
`u` holds. -/
def World.WaitsFor (w : World R n T) (t u : Fin T) : Prop :=
  ∃ m p, (w.threads t).next w.store = some (.lock m p) ∧ w.locked m = true ∧
    (w.threads u).holds w.store.fineMode m = true

/-- The rank of the mutex thread `t` is about to lock, or zero. -/
def World.awaited (w : World R n T) (t : Fin T) : Nat :=
  match (w.threads t).next w.store with
  | some (.lock m _) => m.rank
  | _ => 0

section Acyclic

variable {u v : Fin T} (wf : ∀ t, (w.threads t).WellFormed)
include wf

/-- Along a wait, the rank of the awaited mutex rises. -/
theorem World.WaitsFor.awaited_lt (htu : w.WaitsFor t u) (huv : w.WaitsFor u v) :
    w.awaited t < w.awaited u := by
  obtain ⟨m, p, ht, -, held⟩ := htu
  obtain ⟨m', p', hu, -, -⟩ := huv
  simpa [World.awaited, ht, hu] using lock_above_holds hu (wf u) held

theorem transGen_awaited_lt (h : Relation.TransGen w.WaitsFor t u) (out : ∃ v, w.WaitsFor u v) :
    w.awaited t < w.awaited u := by
  induction h with
  | single htu => exact htu.awaited_lt wf out.choose_spec
  | tail _ hxu ih => exact (ih ⟨_, hxu⟩).trans (hxu.awaited_lt wf out.choose_spec)

/-- No threads wait for each other in a cycle. -/
theorem waitsFor_acyclic (t : Fin T) : ¬Relation.TransGen w.WaitsFor t t := fun h =>
  have ⟨_, first, _⟩ := Relation.TransGen.head'_iff.mp h
  lt_irrefl _ (transGen_awaited_lt wf h ⟨_, first⟩)

end Acyclic

/-- A thread in a call that cannot run its next statement waits for a thread in a call. -/
theorem FineInv.blocked (inv : FineInv w) (idle : (w.threads t).isIdle = false)
    (stuck : (w.step t .next).isSome = false) :
    ∃ u, (w.threads u).isIdle = false ∧ w.WaitsFor t u := by
  obtain ⟨a, ha⟩ := Option.isSome_iff_exists.mp
    (next_isSome (s := w.store) idle fun i b => inv.noBuyItem t i b .asleep)
  simp only [World.step, ha, Option.some_bind] at stuck
  cases a with
  | lock m p =>
    simp only [World.perform] at stuck
    split at stuck
    · rename_i busy
      obtain ⟨u, hu⟩ := (inv.locked m).mp busy
      refine ⟨u, ?_, m, p, ha, busy, by rwa [inv.fine]⟩
      cases e : w.threads u <;> simp_all [Pc.holds, Pc.isIdle]
    · simp at stuck
  | _ => cases stuck

/-- **Deadlock freedom in fine mode.** In every state a fine-mode store reaches, whatever the
threads and their calls: when some thread is in a call, some thread in a call can run its next
statement; no threads wait for each other in a cycle; and no thread's next statement locks a
mutex it holds. -/
theorem fine_deadlock_free (fine : s.fineMode = true) (reach : Reach (World.init s : World R n T) w) :
    ((∃ t, (w.threads t).isIdle = false) →
      ∃ t, (w.threads t).isIdle = false ∧ (w.step t .next).isSome) ∧
    (∀ t, ¬Relation.TransGen w.WaitsFor t t) ∧
    ∀ t m p, (w.threads t).next w.store = some (.lock m p) → (w.threads t).holds true m = false := by
  have inv := reach_fineInv fine reach
  refine ⟨fun ⟨t₀, busy⟩ => ?_, waitsFor_acyclic inv.wellFormed, fun t m p h => ?_⟩
  · by_contra none
    simp only [not_exists, not_and, Bool.not_eq_true, Option.not_isSome,
      Option.isNone_iff_eq_none] at none
    let inCall := Finset.univ.filter fun t => (w.threads t).isIdle = false
    obtain ⟨t, ht, top⟩ := inCall.exists_max_image w.awaited ⟨t₀, by simpa [inCall] using busy⟩
    have stuck t (busy : (w.threads t).isIdle = false) : (w.step t .next).isSome = false := by
      simp [none t busy]
    obtain ⟨u, hu, htu⟩ := inv.blocked (by simpa [inCall] using ht) (stuck t (by simpa [inCall] using ht))
    obtain ⟨v, -, huv⟩ := inv.blocked hu (stuck u hu)
    exact absurd (top u (by simpa [inCall] using hu)) (not_le.mpr (htu.awaited_lt inv.wellFormed huv))
  · by_contra held
    exact lt_irrefl _ (lock_above_holds h (inv.wellFormed t) (by simpa using held))

/-- A fine-mode store of one slot, with shipping cost `1`. -/
def fineStore : EStore ℚ 1 := create 1 true 1 0

/-- Thread 0 locks `item_mtx[0]` for `addItem(0, 1, 0, 0)`; thread 1 runs `setShippingCost(0)`,
which lowers the cost, up to its wake-up loop, where it waits for `item_mtx[0]`. -/
def fineRun : List (Fin 2 × Move ℚ) :=
  [(0, .call (.slot 0 (.addItem 1 0 0))), (0, .next),
   (1, .call (.setter (.shippingCost 0))), (1, .next), (1, .next), (1, .next)]

/-- The world after `fineRun`. -/
def fineWorld : World ℚ 1 2 :=
  ((World.init fineStore).exec fineRun).get (by with_unfolding_all decide)

/-- The theorem at the world after `fineRun`, where thread 1 waits for thread 0. -/
theorem fineWorld_deadlock_free :
    ((∃ t, (fineWorld.threads t).isIdle = false) →
      ∃ t, (fineWorld.threads t).isIdle = false ∧ (fineWorld.step t .next).isSome) ∧
    (∀ t, ¬Relation.TransGen fineWorld.WaitsFor t t) ∧
    ∀ t m p, (fineWorld.threads t).next fineWorld.store = some (.lock m p) →
      (fineWorld.threads t).holds true m = false :=
  fine_deadlock_free rfl (Reach.start.exec (Option.eq_some_of_isSome _))

/-- **Mutual exclusion in fine mode.** In every state a fine-mode store reaches, each mutex,
`global_mtx` and every `item_mtx[i]`, is locked exactly when a thread holds it, and then one
thread holds it. -/
theorem fine_mutexes_exclusive (fine : s.fineMode = true)
    (reach : Reach (World.init s : World R n T) w) (m : Mutex n) :
    (w.locked m = true ↔ ∃ t, (w.threads t).holds true m = true) ∧
      ∀ t u, (w.threads t).holds true m = true → (w.threads u).holds true m = true → t = u :=
  ⟨(reach_fineInv fine reach).locked m, (reach_fineInv fine reach).unique m⟩

/-- The theorem at `item_mtx[0]`, which thread 0 holds after `fineRun`. -/
theorem fineWorld_mutexes_exclusive :
    (fineWorld.locked (.itemMtx 0) = true ↔
        ∃ t, (fineWorld.threads t).holds true (.itemMtx 0) = true) ∧
      ∀ t u, (fineWorld.threads t).holds true (.itemMtx 0) = true →
        (fineWorld.threads u).holds true (.itemMtx 0) = true → t = u :=
  fine_mutexes_exclusive rfl (Reach.start.exec (Option.eq_some_of_isSome _)) (.itemMtx 0)

end Labs.EStore
