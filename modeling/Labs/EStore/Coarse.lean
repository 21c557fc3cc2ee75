import Labs.EStore.Exclusion

/-!
# Coarse mode: two runs

In coarse mode one mutex `mtx` guards the whole store, and `buyItem` waits on `item_cv[i]`.

* `extra_unlock_lets_two_buyers_in`: the second `smutex_unlock(&mtx)` of `setShippingCost`
  clears `mtx` while a buyer holds it; a second buyer then passes the same stock test, and the
  last unit is sold twice: the quantity ends at `-1`.
* `readd_before_relock_buys`: a buyer asleep on `item_cv[0]` is woken by `removeItem(0)`, but
  an `addItem(0, 1, …)` runs before it locks `mtx` again; it then buys the new item.
* `removal_ends_wait`: without such an `addItem`, a buyer woken by the removal of its item
  locks `mtx`, finds the slot gone at the loop head, unlocks and returns, and buys nothing.
* `coarse_mtx_exclusive`: the setters' trailing unlock is the only statement that breaks
  mutual exclusion on `mtx`: along the runs in which it never finds `mtx` locked, at most one
  thread holds `mtx`.
-/

namespace Labs.EStore

/-- A coarse store of one slot, with no shipping cost and no store discount. -/
def coarseStore : EStore ℚ 1 := create 1 false 0 0

/-- Three threads: `addItem(0, 1, 0, 0)` and `setShippingCost(0)` by thread 0; then thread 1
calls `buyItem(0, 0)` and passes its stock test; thread 0 runs its last `smutex_unlock(&mtx)`;
thread 2 calls `buyItem(0, 0)` and passes the same test; thread 1 decrements. -/
def raceRun : List (Fin 3 × Move ℚ) :=
  [(0, .call (.slot 0 (.addItem 1 0 0))), (0, .next), (0, .next), (0, .next),
   (0, .call (.setter (.shippingCost 0))), (0, .next), (0, .next), (0, .next),
   (1, .call (.buyItem 0 0)), (1, .next), (1, .next), (1, .next), (1, .next),
   (0, .next),
   (2, .call (.buyItem 0 0)), (2, .next), (2, .next), (2, .next), (2, .next),
   (1, .next)]

/-- **Coarse mode loses mutual exclusion.** After `raceRun` from a fresh coarse store, whose
only `addItem` puts `1` in stock, thread 2 is at `it.quantity -= 1` while the quantity is `0`;
its decrement takes the quantity to `-1`. -/
theorem extra_unlock_lets_two_buyers_in :
    ((World.init coarseStore : World ℚ 1 3).exec raceRun).map
        (fun w => (w.threads 2, (w.store.inventory 0).quantity)) =
      some (.buyItem 0 0 .decrement, 0) ∧
    ((World.init coarseStore : World ℚ 1 3).exec (raceRun ++ [(2, .next)])).map
        (fun w => (w.store.inventory 0).quantity) = some (-1) := by
  constructor <;> with_unfolding_all decide

/-- Thread 0 adds slot 0 with nothing in stock; thread 1 calls `buyItem(0, 0)` and falls
asleep; thread 0 calls `removeItem(0)`, which wakes it; thread 2 runs `addItem(0, 1, 0, 0)`
to the end before thread 1 locks `mtx` again. -/
def readdRun : List (Fin 3 × Move ℚ) :=
  [(0, .call (.slot 0 (.addItem 0 0 0))), (0, .next), (0, .next), (0, .next),
   (1, .call (.buyItem 0 0)), (1, .next), (1, .next), (1, .next), (1, .next), (1, .next),
   (0, .call (.slot 0 .removeItem)), (0, .next)]

/-- The rest of the run: the removal's critical section, thread 2's `addItem(0, 1, 0, 0)`,
and thread 1 back through its wait loop up to its decrement. -/
def readdRest : List (Fin 3 × Move ℚ) :=
  [(0, .next), (0, .next),
   (2, .call (.slot 0 (.addItem 1 0 0))), (2, .next), (2, .next), (2, .next),
   (1, .next), (1, .next), (1, .next)]

/-- **A removal does not always end a wait.** After `readdRun`, thread 1 is asleep in
`buyItem(0, 0)` and thread 0 is about to run `removeItem(0)`'s critical section on the carried
slot 0; after `readdRest` thread 1 is at `it.quantity -= 1` with the re-added unit in stock,
and its decrement sells it. -/
theorem readd_before_relock_buys :
    ((World.init coarseStore : World ℚ 1 3).exec readdRun).map
        (fun w => (w.threads 1, w.threads 0, (w.store.inventory 0).valid)) =
      some (.buyItem 0 0 .asleep, .slot 0 .removeItem .body, true) ∧
    ((World.init coarseStore : World ℚ 1 3).exec (readdRun ++ readdRest)).map
        (fun w => (w.threads 1, (w.store.inventory 0).quantity)) =
      some (.buyItem 0 0 .decrement, 1) ∧
    ((World.init coarseStore : World ℚ 1 3).exec (readdRun ++ readdRest ++ [(1, .next)])).map
        (fun w => (w.store.inventory 0).quantity) = some 0 := by
  refine ⟨?_, ?_, ?_⟩ <;> with_unfolding_all decide

/-! ## A removal ends the wait of a buyer -/

variable {R : Type} {n T : Nat}

/-- The stages of `buyItem(i, b)` woken on a removed slot, by the number of steps it has taken
since: lock `mtx` again, the loop head, `smutex_unlock(&mtx)`, returned. -/
def leaving (i : Fin n) (b : R) : Nat → Pc R n
  | 0 => .buyItem i b .relock
  | 1 => .buyItem i b .loop
  | 2 => .buyItem i b .unlock
  | _ => .idle

theorem leaving_awake (i : Fin n) (b : R) (k : Nat) (j : Fin n) (c : R) :
    leaving i b k ≠ .buyItem j c .asleep := by
  obtain _ | _ | _ | k := k <;> simp [leaving]

variable [Price R]

/-- No step of the run of `σ` from `w` is the critical section of an `addItem` on slot `i`. -/
def World.NoAddItem (i : Fin n) : World R n T → List (Fin T × Move R) → Prop
  | _, [] => True
  | w, (u, m) :: σ =>
    (m = .next → ∀ q p d, w.threads u ≠ .slot i (.addItem q p d) .body) ∧
      ∀ w', w.step u m = some w' → w'.NoAddItem i σ

/-- Only the critical section of a one-slot call writes with `Write.slot`. -/
theorem next_slot_write {s : EStore R n} {p p' : Pc R n} {i : Fin n} {op : SlotOp R} {b : Cond n → Bool}
    (h : p.next s = some (.run (.slot i op) b p')) : p = .slot i op .body := by
  cases p with
  | idle => cases h
  | buyItem j c pc => cases pc <;> simp [Pc.next, BuyPc.next] at h
  | slot j op' pc =>
    cases pc <;> simp [Pc.next, SlotPc.next] at h
    rw [h.1.1, h.1.2]
  | getItemQuantity j pc => cases pc <;> simp [Pc.next, GetPc.next] at h
  | setter x pc =>
    cases pc <;> simp [Pc.next, SetPc.next] at h
    split at h <;> simp at h
  | buyManyItems ids c pc =>
    cases pc with
    | check sh d todo total =>
      cases todo <;> simp [Pc.next, ManyPc.next] at h
      split at h <;> simp at h
    | lock _ _ _ todo | commit todo | unlock todo => cases todo <;> simp [Pc.next, ManyPc.next] at h
    | _ => simp [Pc.next, ManyPc.next] at h

/-- A write other than an `addItem` on slot `i` leaves a removed slot `i` removed. -/
theorem Write.apply_stays_removed {s : EStore R n} {i : Fin n} {wr : Write R n}
    (noAdd : ∀ q p d, wr ≠ .slot i (.addItem q p d)) (gone : (s.inventory i).valid = false) :
    ((wr.apply s).inventory i).valid = false := by
  cases wr with
  | none | setter => simpa [Write.apply] using gone
  | decrement j => rcases eq_or_ne i j with rfl | h <;> simp [Write.apply, *]
  | slot j op =>
    by_cases h : i = j
    · subst h
      cases op with
      | addItem q p d => exact absurd rfl (noAdd q p d)
      | _ => simp [Write.apply, SlotOp.body, gone]
    · simp [Write.apply, h, gone]

/-- The woken buyer's own statements on a removed slot: it is in a call, and its next
statement takes it one stage on. -/
theorem leaving_next {s : EStore R n} {i : Fin n} {b : R} {k : Nat} (early : k < 3)
    (gone : (s.inventory i).valid = false) :
    (leaving i b k).isIdle = false ∧
      ∃ a, (leaving i b k).next s = some a ∧ a.next = leaving i b (k + 1) := by
  obtain _ | _ | _ | k := k
  all_goals first | omega | simp [leaving, Pc.isIdle, Pc.next, BuyPc.next, Act.next, gone]

/-- One step of any thread keeps a woken buyer on its way out of a removed slot. -/
theorem leaving_step {w w' : World R n T} {u a : Fin T} {m : Move R} {i : Fin n} {b : R} {k : Nat}
    (h : w.step u m = some w') (at_k : w.threads a = leaving i b k) (early : u = a → k < 3)
    (gone : (w.store.inventory i).valid = false)
    (noAdd : m = .next → ∀ q p d, w.threads u ≠ .slot i (.addItem q p d) .body) :
    w'.threads a = leaving i b (if u = a then k + 1 else k) ∧
      (w'.store.inventory i).valid = false := by
  constructor
  · by_cases hu : u = a
    · subst hu
      obtain ⟨active, act, hact, e⟩ := leaving_next (b := b) (early rfl) gone
      rw [if_pos rfl]
      rcases step_cases h with ⟨c, -, idle, -, -⟩ | ⟨j, c, -, asleep, -⟩ | ⟨-, act', ha, h⟩
      · simp [at_k, active] at idle
      · exact absurd asleep (at_k ▸ leaving_awake i b k j c)
      · rw [at_k, hact, Option.some.injEq] at ha
        rw [perform_self h, ← ha, e]
    · obtain ⟨bc, e⟩ := step_other h (Ne.symm hu)
      rw [e, at_k, if_neg hu]
      exact woken_of_not_asleep (leaving_awake i b k) bc
  · rcases step_store h with e | ⟨wr, bc, p, rfl, hn, e⟩
    · rw [e]; exact gone
    · rw [e]
      refine Write.apply_stays_removed (fun q p d hw => ?_) gone
      subst hw
      exact noAdd rfl q p d (next_slot_write hn)

/-- Over any run in which no `addItem(i, …)` critical section runs and the woken buyer takes
at most its remaining steps, it goes on through `leaving` one stage per step of its own, and
the slot stays removed. -/
theorem leaving_run {w w' : World R n T} {a : Fin T} {i : Fin n} {b : R} {k : Nat}
    {σ : List (Fin T × Move R)} (run : w.exec σ = some w') (at_k : w.threads a = leaving i b k)
    (gone : (w.store.inventory i).valid = false) (noAdd : w.NoAddItem i σ)
    (few : k + (σ.filter (·.1 = a)).length ≤ 3) :
    w'.threads a = leaving i b (k + (σ.filter (·.1 = a)).length) ∧
      (w'.store.inventory i).valid = false := by
  induction σ generalizing w k with
  | nil => cases run; exact ⟨at_k, gone⟩
  | cons um σ ih =>
    obtain ⟨u, m⟩ := um
    simp only [World.exec, Option.bind_eq_some] at run
    obtain ⟨w₁, h, run⟩ := run
    by_cases hu : u = a
    · subst hu
      simp only [List.filter_cons, decide_True, ite_true, List.length_cons] at few ⊢
      obtain ⟨at₁, gone₁⟩ := leaving_step h at_k (fun _ => by omega) gone noAdd.1
      rw [if_pos rfl] at at₁
      rw [show k + ((σ.filter (·.1 = u)).length + 1) = k + 1 + (σ.filter (·.1 = u)).length
        by omega]
      exact ih run at₁ gone₁ (noAdd.2 w₁ h) (by omega)
    · simp only [List.filter_cons, hu, decide_False, ite_false] at few ⊢
      obtain ⟨at₁, gone₁⟩ := leaving_step h at_k (absurd · hu) gone noAdd.1
      rw [if_neg hu] at at₁
      exact ih run at₁ gone₁ (noAdd.2 w₁ h) few

/-- The removal itself: on a carried slot in coarse mode, it wakes the sleeping buyer, which is
then at `leaving i b 0`, and the slot is no longer carried. -/
theorem removal_wakes {w w₁ : World R n T} {a r : Fin T} {i : Fin n} {b : R}
    (coarse : w.store.fineMode = false) (asleep : w.threads a = .buyItem i b .asleep)
    (removing : w.threads r = .slot i .removeItem .body)
    (carried : (w.store.inventory i).valid = true) (removal : w.step r .next = some w₁) :
    w₁.threads a = leaving i b 0 ∧ (w₁.store.inventory i).valid = false := by
  have ne : a ≠ r := fun e => by simp [e, removing] at asleep
  simp only [World.step, removing, Pc.next, SlotPc.next, Option.some_bind, World.perform,
    Option.some.injEq] at removal
  subst removal
  simp [Function.update_noteq ne, asleep, Pc.woken, SlotOp.body, carried, slotCond, coarse, Write.apply,
    leaving]

/-- **A removal ends the wait of a buyer, unless the item is added again.** In coarse mode, let
thread `r` run the critical section of `removeItem(i)` on a carried slot while thread `a` is
asleep in `buyItem(i, b)`. In any run after it in which no `addItem(i, …)` critical section
runs, the first three steps of `a` lock `mtx` again, find the slot gone at the loop head, and
unlock `mtx` and return: after `k` of them it is at `leaving i b k`, and it decrements
nothing. -/
theorem removal_ends_wait {w w₁ w' : World R n T} {a r : Fin T} {i : Fin n} {b : R}
    {σ : List (Fin T × Move R)} (coarse : w.store.fineMode = false)
    (asleep : w.threads a = .buyItem i b .asleep)
    (removing : w.threads r = .slot i .removeItem .body)
    (carried : (w.store.inventory i).valid = true) (removal : w.step r .next = some w₁)
    (run : w₁.exec σ = some w') (noAdd : w₁.NoAddItem i σ)
    (few : (σ.filter (·.1 = a)).length ≤ 3) :
    w'.threads a = leaving i b (σ.filter (·.1 = a)).length := by
  obtain ⟨at₀, gone⟩ := removal_wakes coarse asleep removing carried removal
  simpa using (leaving_run run at₀ gone noAdd (by simpa using few)).1

/-- The world after `readdRun`. -/
def readdWorld : World ℚ 1 3 := ((World.init coarseStore).exec readdRun).getD (World.init coarseStore)

/-- After `readdRun`, the removal wakes thread 1 and leaves it at its relock. -/
theorem removal_ends_wait_after_readdRun :
    ((readdWorld.step 0 .next).get (by with_unfolding_all decide)).threads 1 = leaving 0 0 0 :=
  removal_ends_wait (by with_unfolding_all decide) (by with_unfolding_all decide)
    (by with_unfolding_all decide) (by with_unfolding_all decide) (Option.eq_some_of_isSome _)
    (World.exec_nil _) trivial (by decide)

/-- **Mutual exclusion in coarse mode, but for the setters' trailing unlock.** In coarse mode,
along every run in which no setter's trailing `smutex_unlock(&mtx)` finds `mtx` locked, `mtx` is
locked exactly when a thread holds it, and then by one thread only. -/
theorem coarse_mtx_exclusive {s : EStore R n} {w : World R n T} (coarse : s.fineMode = false)
    (reach : SafeReach (World.init s : World R n T) w) :
    (w.locked .mtx = true ↔ ∃ t, (w.threads t).holds false .mtx = true) ∧
      ∀ t u, (w.threads t).holds false .mtx = true → (w.threads u).holds false .mtx = true →
        t = u := by
  have inv := reach_lockInv reach
  rw [coarse] at inv
  exact ⟨inv.locked .mtx, inv.unique .mtx⟩

/-- Thread 0 runs `addItem(0, 1, 0, 0)` and `setShippingCost(0)` to their ends, its trailing
unlock on a free `mtx`; thread 1 then calls `buyItem(0, 0)` and locks `mtx`. -/
def settledRun : List (Fin 2 × Move ℚ) :=
  [(0, .call (.slot 0 (.addItem 1 0 0))), (0, .next), (0, .next), (0, .next),
   (0, .call (.setter (.shippingCost 0))), (0, .next), (0, .next), (0, .next), (0, .next),
   (1, .call (.buyItem 0 0)), (1, .next)]

def settledWorld : World ℚ 1 2 :=
  ((World.init coarseStore).execSafe settledRun).get (by with_unfolding_all decide)

theorem settledWorld_mtx_exclusive :
    (settledWorld.locked .mtx = true ↔ ∃ t, (settledWorld.threads t).holds false .mtx = true) ∧
      ∀ t u, (settledWorld.threads t).holds false .mtx = true →
        (settledWorld.threads u).holds false .mtx = true → t = u :=
  coarse_mtx_exclusive rfl (SafeReach.start.execSafe (Option.eq_some_of_isSome _))

end Labs.EStore
