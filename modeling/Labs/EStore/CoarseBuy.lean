import Labs.EStore.Coarse

/-!
# Coarse mode: what a buyer tested still holds at its decrement

`buyItem` tests its slot in `mtx` and decrements it in the same critical section. In coarse
mode every statement that writes the store runs in `mtx` too, so the tests can only go stale
when two threads hold `mtx` at once: when a setter's trailing `smutex_unlock(&mtx)` finds it
locked, the one statement `coarse_mtx_exclusive` leaves out.

* `write_holds_mtx`: a statement that writes the store, outside `buyManyItems`, runs with `mtx`
  in its thread's ledger, in coarse mode.
* `BuyerInv.step`, `reach_buyerInv`: along the safe runs of a coarse store, every buyer's tests
  still hold.
* `coarse_decrement_in_stock`: along those runs, `it.quantity -= 1` of `buyItem(i, b)` finds
  slot `i` carried, in stock, and at a cost within `b`.
-/

namespace Labs.EStore

variable {R : Type} {n T : Nat} {p : Pc R n}

theorem inBuyManyItems_woken (bcast : Cond n → Bool) :
    (p.woken bcast).inBuyManyItems = p.inBuyManyItems := by
  cases p with
  | buyItem i b pc =>
    cases pc
    case asleep => simp only [Pc.woken]; split <;> rfl
    all_goals rfl
  | _ => rfl

/-- The calls of coarse mode do not include `buyManyItems`. -/
theorem entry_not_buyManyItems {c : Call R} (allowed : c.allowed false) :
    (c.entry n).inBuyManyItems = false := by
  cases c <;> simp only [Call.entry] <;> (try split) <;> first | rfl | cases allowed

variable [Price R] {s : EStore R n} {a : Act R n}

/-- What a buyer has tested and still counts on: the slot carried, at its stock test; the slot
carried, in stock and within the budget, at its decrement. -/
def Pc.Tested (s : EStore R n) : Pc R n → Prop
  | .buyItem i _ .test => (s.inventory i).valid
  | .buyItem i b .decrement =>
    (s.inventory i).valid ∧ 0 < (s.inventory i).quantity ∧ s.totalCost (s.inventory i) ≤ b
  | _ => True

theorem Pc.tested_of_not_buyItem (h : p.inBuyItem = false) : p.Tested s := by
  cases p with
  | buyItem => cases h
  | _ => trivial

/-- A buyer counts on its tests only while it holds `mtx`. -/
theorem Pc.tested_of_not_holds (h : p.holds false .mtx = false) : p.Tested s := by
  cases p with
  | buyItem i b pc => cases pc <;> trivial
  | _ => trivial

@[simp] theorem tested_woken (bcast : Cond n → Bool) : (p.woken bcast).Tested s ↔ p.Tested s := by
  cases p with
  | buyItem i b pc =>
    cases pc
    case asleep => simp only [Pc.woken]; split <;> exact Iff.rfl
    all_goals exact Iff.rfl
  | _ => exact Iff.rfl

theorem entry_tested (c : Call R) : (c.entry n).Tested s := by
  cases c <;> simp only [Call.entry] <;> (try split) <;> trivial

/-- **Every write in `mtx`.** In coarse mode a statement that writes the store, outside
`buyManyItems`, runs with `mtx` in its thread's ledger: `buyItem`'s decrement, or the critical
section of a one-slot call or of a setter. -/
theorem write_holds_mtx {p' : Pc R n} {wr : Write R n} {bcast : Cond n → Bool}
    (h : p.next s = some (.run wr bcast p')) (many : p.inBuyManyItems = false) (write : wr ≠ .none) :
    p.holds false .mtx = true := by
  cases p with
  | idle => cases h
  | buyItem i b pc => cases pc <;> cases h <;> rfl
  | slot i op pc => cases pc <;> cases h; rfl
  | getItemQuantity i pc => cases pc <;> cases h; exact absurd rfl write
  | setter x pc =>
    cases pc <;> simp only [Pc.next, SetPc.next] at h <;> (try split at h) <;> cases h
    all_goals first | rfl | exact absurd rfl write
  | buyManyItems => cases many

/-- **A buyer's own statements keep its tests.** It passes from the loop head to the stock test
only on a carried slot, and from the test to the decrement only when the test passes. -/
theorem next_tested (h : p.next s = some a) (tested : p.Tested s) :
    a.next.Tested (a.write.apply s) := by
  cases p with
  | buyItem i b pc =>
    cases pc <;> cases h <;> simp only [Act.next, Act.write, Write.apply] <;> (try split) <;>
      simp only [Pc.Tested] at tested ⊢
    case test.refl.isTrue passed => exact ⟨tested, passed⟩
    all_goals trivial
  | _ => exact Pc.tested_of_not_buyItem (Bool.eq_false_iff.mpr fun e => nomatch (next_stays h).1 e)

/-- The invariant of a coarse store along its safe runs: the lock invariant, no thread in
`buyManyItems`, and every buyer's tests still hold. -/
structure BuyerInv (w : World R n T) extends LockInv false w : Prop where
  coarse : w.store.fineMode = false
  noMany : ∀ t, (w.threads t).inBuyManyItems = false
  tested : ∀ t, (w.threads t).Tested w.store

variable {w w' : World R n T} {t : Fin T} {mv : Move R}

theorem BuyerInv.noMany_step (inv : BuyerInv w) (h : w.step t mv = some w') (u : Fin T) :
    (w'.threads u).inBuyManyItems = false := by
  by_cases ne : u = t
  · subst ne
    rcases step_cases h with ⟨c, -, -, allowed, rfl⟩ | ⟨i, b, -, -, rfl⟩ | ⟨-, a, ha, hp⟩
    · simpa using entry_not_buyManyItems (inv.coarse ▸ allowed)
    · simp [Pc.inBuyManyItems]
    · rw [perform_self hp]
      exact Bool.eq_false_iff.mpr fun e => by simpa [inv.noMany u] using (next_stays ha).2 e
  · obtain ⟨bcast, hu⟩ := step_other h ne
    rw [hu, inBuyManyItems_woken, inv.noMany u]

/-- The tests of a thread that does not step survive the step: only a write changes the store,
and a writer holds `mtx`, which the thread then does not hold. -/
theorem BuyerInv.tested_other (inv : BuyerInv w) (h : w.step t mv = some w') {u : Fin T}
    (ne : u ≠ t) : (w'.threads u).Tested w'.store := by
  obtain ⟨bcast, hu⟩ := step_other h ne
  rw [hu, tested_woken]
  rcases step_store h with same | ⟨wr, bcast', p', -, ha, store⟩
  · exact same ▸ inv.tested u
  · by_cases write : wr = .none
    · subst write; exact store ▸ inv.tested u
    · have writer := write_holds_mtx ha (inv.noMany t) write
      exact Pc.tested_of_not_holds (Bool.eq_false_iff.mpr fun held =>
        ne (inv.unique .mtx u t held writer))

/-- **The buyer invariant, step by step.** Every step of a coarse store keeps it, unless it is a
setter's trailing `smutex_unlock(&mtx)` that finds `mtx` locked. -/
theorem BuyerInv.step (inv : BuyerInv w) (h : w.step t mv = some w')
    (extra : (w.threads t).atExtraUnlock → w.locked .mtx = false) : BuyerInv w' := by
  refine ⟨inv.toLockInv.step inv.coarse h extra, (step_fineMode h).trans inv.coarse,
    inv.noMany_step h, fun u => ?_⟩
  by_cases ne : u = t
  · subst ne
    rcases step_cases h with ⟨c, -, -, -, rfl⟩ | ⟨i, b, -, -, rfl⟩ | ⟨-, a, ha, hp⟩
    · simpa using entry_tested c
    · simp [Pc.Tested]
    · rw [perform_self hp, perform_store hp]
      exact next_tested ha (inv.tested u)
  · exact inv.tested_other h ne

theorem reach_buyerInv (coarse : s.fineMode = false)
    (reach : SafeReach (World.init s : World R n T) w) : BuyerInv w := by
  induction reach with
  | start => exact ⟨.init, coarse, fun _ => rfl, fun _ => trivial⟩
  | step t m reach extra h inv => exact inv.step h extra

/-- **No sale out of stock, along the safe runs.** In coarse mode, along every run in which no
setter's trailing `smutex_unlock(&mtx)` finds `mtx` locked, a thread at `it.quantity -= 1` of
`buyItem(i, b)` finds slot `i` carried, in stock, and at an effective cost within `b`. -/
theorem coarse_decrement_in_stock (coarse : s.fineMode = false)
    (reach : SafeReach (World.init s : World R n T) w) {i : Fin n} {b : R}
    (at_decrement : w.threads t = .buyItem i b .decrement) :
    (w.store.inventory i).valid ∧ 0 < (w.store.inventory i).quantity ∧
      w.store.totalCost (w.store.inventory i) ≤ b := by
  have tested := (reach_buyerInv coarse reach).tested t
  rwa [at_decrement] at tested

/-- `settledRun`, then thread 1 runs its tests up to its decrement. -/
def stockedRun : List (Fin 2 × Move ℚ) := settledRun ++ [(1, .next), (1, .next), (1, .next)]

def stockedWorld : World ℚ 1 2 :=
  ((World.init coarseStore).execSafe stockedRun).get (by with_unfolding_all decide)

theorem stockedWorld_decrement_in_stock :
    stockedWorld.threads 1 = .buyItem 0 0 .decrement ∧
      ((stockedWorld.store.inventory 0).valid ∧ 0 < (stockedWorld.store.inventory 0).quantity ∧
        stockedWorld.store.totalCost (stockedWorld.store.inventory 0) ≤ 0) :=
  have at_decrement : stockedWorld.threads 1 = .buyItem 0 0 .decrement := by
    with_unfolding_all decide
  ⟨at_decrement, coarse_decrement_in_stock rfl
    (SafeReach.start.execSafe (Option.eq_some_of_isSome _)) at_decrement⟩

end Labs.EStore
