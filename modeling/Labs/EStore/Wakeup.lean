import Labs.EStore.Coarse
import Mathlib.Tactic.Linarith

/-!
# No lost wake-up in coarse mode

`buyItem(i, b)` sleeps on `item_cv[i]` while slot `i` is carried and the item is out of stock
or over budget (`Waits`). The calls that change the store broadcast `item_cv[i]` selectively:
`addItem` and `removeItem` always, `addStock` when it adds, `priceItem` only when the price
falls, `discountItem` only when the discount rises, and the setters only when the shipping
cost falls or the store discount rises. Under the store's bounds (`Bounded`: prices at least
zero, discounts at most one) the effective cost is monotone in each of these, so a statement
that does not broadcast keeps every waiter's condition.

* `totalCost_le`: the effective cost is monotone.
* `run_wakes`: a store statement that ends the wait condition of `(i, b)` broadcasts
  `item_cv[i]`.
* `no_lost_wakeup`: with exact arithmetic, a step that ends the wait condition of `(i, b)`
  wakes every thread asleep in `buyItem` on slot `i`.
* `nan_shipping_cost_loses_wakeup`: with `double`s it does not: a NaN shipping cost makes the
  cost NaN, which keeps a buyer waiting, and `setShippingCost(0)` then finds `0 < NaN` false.
-/

namespace Labs.EStore

variable {R : Type} [Price R] {n : Nat}

/-- The wait condition of `buyItem(i, b)`: the loop head finds the slot carried and the test
fails. -/
def Waits (s : EStore R n) (i : Fin n) (b : R) : Prop :=
  (s.inventory i).valid ∧ ¬(0 < (s.inventory i).quantity ∧ s.totalCost (s.inventory i) ≤ b)

instance (s : EStore R n) (i : Fin n) (b : R) : Decidable (Waits s i b) :=
  inferInstanceAs (Decidable (_ ∧ _))

/-- The bounds under which the selective broadcasts suffice: every price at least zero, every
discount and the store discount at most one. -/
def Bounded (s : EStore R n) : Prop :=
  (∀ j, 0 ≤ (s.inventory j).price ∧ (s.inventory j).discount ≤ 1) ∧ s.storeDiscount ≤ 1

instance (s : EStore R n) : Decidable (Bounded s) := inferInstanceAs (Decidable (_ ∧ _))

/-- **The effective cost is monotone.** A higher price, a lower discount, a lower store
discount or a higher shipping cost never lowers it, from a bounded item. -/
theorem totalCost_le {s s' : EStore ℚ n} {it it' : Item ℚ} (price : it.price ≤ it'.price)
    (discount : it'.discount ≤ it.discount) (store : s'.storeDiscount ≤ s.storeDiscount)
    (ship : s.shippingCost ≤ s'.shippingCost) (hp : 0 ≤ it.price) (hd : it.discount ≤ 1)
    (hs : s.storeDiscount ≤ 1) : s.totalCost it ≤ s'.totalCost it' := by
  unfold totalCost
  have hd' : 0 ≤ 1 - it.discount := by linarith
  have hs' : 0 ≤ 1 - s.storeDiscount := by linarith
  have item : it.price * (1 - it.discount) ≤ it'.price * (1 - it'.discount) :=
    mul_le_mul price (by linarith) hd' (hp.trans price)
  exact add_le_add (mul_le_mul item (by linarith) hs' (mul_nonneg (hp.trans price) (by linarith)))
    ship

/-- A waiter keeps waiting when its slot stays carried, its quantity does not grow and its cost
does not fall. -/
theorem Waits.mono {s s' : EStore ℚ n} {i : Fin n} {b : ℚ} (waits : Waits s i b)
    (valid : (s'.inventory i).valid = (s.inventory i).valid)
    (quantity : (s'.inventory i).quantity ≤ (s.inventory i).quantity)
    (cost : s.totalCost (s.inventory i) ≤ s'.totalCost (s'.inventory i)) : Waits s' i b := by
  refine ⟨valid ▸ waits.1, fun ⟨hq, hc⟩ => waits.2 ⟨by omega, cost.trans hc⟩⟩

variable {s : EStore ℚ n} {i : Fin n} {b : ℚ}

theorem waits_setItem_other {j : Fin n} {it : Item ℚ} (ne : i ≠ j) (waits : Waits s i b) :
    Waits (s.setItem j it) i b :=
  waits.mono (by simp [ne]) (by simp [ne]) (by simp [ne, totalCost])

theorem waits_decrement (j : Fin n) (waits : Waits s i b) : Waits (s.decrement j) i b := by
  rcases eq_or_ne i j with rfl | ne
  · exact waits.mono (by simp) (by simp) (by simp [totalCost])
  · exact waits_setItem_other ne waits

/-- A one-slot update that does not broadcast keeps the slot's waiters waiting. -/
theorem SlotOp.body_keeps_waits (bounded : Bounded s) {op : SlotOp ℚ} (waits : Waits s i b)
    (quiet : (op.body (s.inventory i)).2 = false) :
    Waits (s.setItem i (op.body (s.inventory i)).1) i b := by
  have valid := waits.1
  obtain ⟨hp, hd⟩ := bounded.1 i
  cases op with
  | priceItem price =>
    simp only [SlotOp.body, valid, ↓reduceIte, decide_eq_false_iff_not, not_lt] at quiet ⊢
    exact waits.mono (by simp [valid]) (by simp) (totalCost_le (by simpa) (by simp) le_rfl le_rfl
      hp hd bounded.2)
  | discountItem discount =>
    simp only [SlotOp.body, valid, ↓reduceIte, decide_eq_false_iff_not, not_lt] at quiet ⊢
    exact waits.mono (by simp [valid]) (by simp) (totalCost_le (by simp) (by simpa) le_rfl le_rfl
      hp hd bounded.2)
  | _ =>
    simp only [SlotOp.body, valid] at quiet ⊢
    split_ifs at quiet ⊢ <;> simp_all [setItem]

/-- A setter that does not broadcast keeps every waiter waiting. -/
theorem Setter.body_keeps_waits (bounded : Bounded s) {x : Setter ℚ} (waits : Waits s i b)
    (quiet : (x.body s).2 = false) : Waits (x.body s).1 i b := by
  obtain ⟨hp, hd⟩ := bounded.1 i
  cases x with
  | shippingCost cost =>
    simp only [Setter.body, decide_eq_false_iff_not, not_lt] at quiet ⊢
    exact waits.mono rfl le_rfl (totalCost_le le_rfl le_rfl le_rfl quiet hp hd bounded.2)
  | storeDiscount discount =>
    simp only [Setter.body, gt_iff_lt, decide_eq_false_iff_not, not_lt] at quiet ⊢
    exact waits.mono rfl le_rfl (totalCost_le le_rfl le_rfl quiet le_rfl hp hd bounded.2)

/-- **No lost wake-up, statement by statement.** In coarse mode, from a bounded store, a
statement of the store's code that takes slot `i` out of the wait condition of `buyItem(i, b)`
broadcasts `item_cv[i]`. -/
theorem run_wakes {p p' : Pc ℚ n} {wr : Write ℚ n} {bcast : Cond n → Bool}
    (coarse : s.fineMode = false) (bounded : Bounded s) (h : p.next s = some (.run wr bcast p'))
    (waits : Waits s i b) (exits : ¬Waits (wr.apply s) i b) : bcast (.itemCv i) = true := by
  by_contra quiet
  refine exits ?_
  rcases next_run_cases h with rfl | ⟨j, rfl, -⟩ | ⟨j, op, rfl, rfl⟩ | ⟨x, rfl, rfl⟩
  · exact waits
  · exact waits_decrement j waits
  · rcases eq_or_ne i j with rfl | ne
    · exact SlotOp.body_keeps_waits bounded waits (by simpa [slotCond, coarse] using quiet)
    · exact waits_setItem_other ne waits
  · exact Setter.body_keeps_waits bounded waits (by simpa [coarse, allItemCvs] using quiet)

variable {T : Nat}

/-- Thread 1 waits in `buyItem(0, 0)` on slot 0, which thread 0 has added with nothing in
stock; thread 0 then calls `addStock(0, 1)` and locks `mtx`. -/
def restockRun : List (Fin 2 × Move ℚ) :=
  [(0, .call (.slot 0 (.addItem 0 0 0))), (0, .next), (0, .next), (0, .next),
   (1, .call (.buyItem 0 0)), (1, .next), (1, .next), (1, .next), (1, .next), (1, .next),
   (0, .call (.slot 0 (.addStock 1))), (0, .next)]

/-- The world after `restockRun`. -/
def restockWorld : World ℚ 1 2 :=
  ((World.init coarseStore).exec restockRun).getD (World.init coarseStore)

/-- On a fresh coarse store of one slot, thread 0 sets the shipping cost to NaN and adds slot 0
with one unit at price `0`; thread 1 calls `buyItem(0, 0)`, whose cost is NaN, so it waits;
thread 0 then calls `setShippingCost(0)` and locks `mtx`. -/
def nanRun : List (Fin 2 × Move Dbl) :=
  [(0, .call (.setter (.shippingCost .nan))), (0, .next), (0, .next), (0, .next), (0, .next),
   (0, .call (.slot 0 (.addItem 1 0 0))), (0, .next), (0, .next), (0, .next),
   (1, .call (.buyItem 0 0)), (1, .next), (1, .next), (1, .next), (1, .next), (1, .next),
   (0, .call (.setter (.shippingCost 0))), (0, .next)]

/-- The world after `nanRun`. -/
def nanWorld : World Dbl 1 2 :=
  ((World.init (create 1 false 0 0)).exec nanRun).getD (World.init (create 1 false 0 0))

/-- The world after the critical section of `setShippingCost(0)`. -/
def nanCostSet : World Dbl 1 2 := (nanWorld.step 0 .next).get (by with_unfolding_all decide)

end Labs.EStore
