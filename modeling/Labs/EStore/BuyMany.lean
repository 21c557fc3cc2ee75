import Labs.EStore.Store
import Mathlib.Algebra.BigOperators.Group.Finset
import Mathlib.Algebra.Order.BigOperators.Group.List
import Mathlib.Data.List.Chain
import Mathlib.Tactic.Linarith

/-!
# `buyManyItems` run alone

The order's ids are filtered, sorted and made unique; the check loop stops at the first id
that is not carried, not in stock, has a negative cost, or takes the running total over the
budget; the commit loop lowers every quantity by one.

* `orderIds_sorted`, `mem_orderIds`: the ids the order locks are strictly ascending and are
  the distinct in-range ids of the vector.
* `checkLoop_iff`: with exact arithmetic, the early-aborting running total accepts exactly when
  every id can be sold and the full sum is within the budget.
* `buyManyItemsAt_eq`, `buyManyItems_all_or_nothing`: the whole call is all or nothing.
-/

namespace Labs.EStore

variable {R : Type} {n : Nat}

/-- The distinct in-range ids of an order. -/
def orderSet (n : Nat) (itemIds : List Int) : Finset (Fin n) :=
  (itemIds.filterMap (slot? n)).toFinset

/-- The store with the quantity of every slot of `S` lowered by one, and nothing else changed. -/
def decrementEach (s : EStore R n) (S : Finset (Fin n)) : EStore R n :=
  { s with
    inventory := fun i =>
      if i ∈ S then { s.inventory i with quantity := (s.inventory i).quantity - 1 }
      else s.inventory i }

/-- The commit loop on ids without repeats lowers each by one. -/
theorem commit_eq_decrementEach (s : EStore R n) (ids : List (Fin n)) (nodup : ids.Nodup) :
    s.commit ids = s.decrementEach ids.toFinset := by
  induction ids generalizing s with
  | nil => ext <;> simp [decrementEach]
  | cons i ids ih =>
    rw [List.nodup_cons] at nodup
    rw [commit_cons, ih _ nodup.2]
    ext j
    · by_cases hj : j = i
      · subst hj; simp [decrementEach, nodup.1]
      · simp [decrementEach, hj]
    all_goals rfl

variable [Price R]

/-- The cost the check loop charges for slot `i` under the snapshot `shipSnap`, `discSnap`. -/
def orderCost (s : EStore R n) (shipSnap discSnap : R) (i : Fin n) : R :=
  (s.inventory i).price * (1 - (s.inventory i).discount) * (1 - discSnap) + shipSnap

/-- Slot `i` can be sold in an order: carried, in stock, and not of negative cost. -/
def Sellable (s : EStore R n) (shipSnap discSnap : R) (i : Fin n) : Prop :=
  (s.inventory i).valid ∧ 0 < (s.inventory i).quantity ∧ 0 ≤ orderCost s shipSnap discSnap i

instance (s : EStore R n) (shipSnap discSnap : R) (i : Fin n) :
    Decidable (Sellable s shipSnap discSnap i) :=
  inferInstanceAs (Decidable (_ ∧ _ ∧ _))

/-- An order on the slots `S` passes: every slot can be sold, and their costs sum to at most
the budget. -/
def OrderOk (s : EStore ℚ n) (shipSnap discSnap budget : ℚ) (S : Finset (Fin n)) : Prop :=
  (∀ i ∈ S, Sellable s shipSnap discSnap i) ∧ ∑ i ∈ S, orderCost s shipSnap discSnap i ≤ budget

instance (s : EStore ℚ n) (shipSnap discSnap budget : ℚ) (S : Finset (Fin n)) :
    Decidable (OrderOk s shipSnap discSnap budget S) :=
  inferInstanceAs (Decidable (_ ∧ _))

/-! ## The ids of an order -/

theorem mem_destutter' {α : Type} [DecidableEq α] (a b : α) (l : List α) :
    b ∈ l.destutter' (· ≠ ·) a ↔ b ∈ a :: l := by
  induction l generalizing a with
  | nil => simp
  | cons c l ih =>
    by_cases h : a = c
    · subst h
      rw [List.destutter'_cons_neg _ (by simp), ih]
      simp
    · rw [List.destutter'_cons_pos _ h, List.mem_cons, ih]
      simp

theorem mem_destutter {α : Type} [DecidableEq α] (b : α) (l : List α) :
    b ∈ l.destutter (· ≠ ·) ↔ b ∈ l := by
  cases l with
  | nil => simp
  | cons a l => rw [List.destutter_cons', mem_destutter']

theorem chain'_lt_of {l : List (Fin n)} (le : l.Chain' (· ≤ ·)) (ne : l.Chain' (· ≠ ·)) :
    l.Chain' (· < ·) := by
  induction l with
  | nil => trivial
  | cons a l ih =>
    cases l with
    | nil => exact List.chain'_singleton a
    | cons b l =>
      rw [List.chain'_cons] at le ne ⊢
      exact ⟨lt_of_le_of_ne le.1 ne.1, ih le.2 ne.2⟩

/-- The ids an order locks are strictly ascending. -/
theorem orderIds_sorted (itemIds : List Int) : (orderIds n itemIds).Pairwise (· < ·) := by
  have sorted : ((itemIds.filterMap (slot? n)).mergeSort fun a b => decide (a ≤ b)).Pairwise
      fun a b => decide (a ≤ b) :=
    List.sorted_mergeSort (fun _ _ _ hab hbc => by simp only [decide_eq_true_eq] at *; omega)
      (fun a b => by simpa using le_total a b) _
  have le := (sorted.sublist (List.destutter_sublist (· ≠ ·) _)).chain'
  simp only [decide_eq_true_eq] at le
  have ne : (orderIds n itemIds).Chain' (· ≠ ·) := List.destutter_is_chain' _ _
  exact List.chain'_iff_pairwise.mp (chain'_lt_of le ne)

theorem orderIds_nodup (itemIds : List Int) : (orderIds n itemIds).Nodup :=
  (orderIds_sorted itemIds).nodup

@[simp] theorem mem_orderIds (itemIds : List Int) (i : Fin n) :
    i ∈ orderIds n itemIds ↔ i ∈ orderSet n itemIds := by
  simp [orderIds, orderSet, mem_destutter]

theorem orderIds_toFinset (itemIds : List Int) :
    (orderIds n itemIds).toFinset = orderSet n itemIds := by
  ext i; simp

/-! ## The check loop, with exact arithmetic -/

variable (s : EStore ℚ n) (shipSnap discSnap budget : ℚ)

theorem checkItem_eq (total : ℚ) (i : Fin n) :
    checkItem s shipSnap discSnap budget total i =
      if Sellable s shipSnap discSnap i ∧ total + orderCost s shipSnap discSnap i ≤ budget
      then some (total + orderCost s shipSnap discSnap i) else none := by
  by_cases ok : Sellable s shipSnap discSnap i ∧ total + orderCost s shipSnap discSnap i ≤ budget
  · obtain ⟨⟨valid, stock, cost⟩, within⟩ := ok
    rw [if_pos ⟨⟨valid, stock, cost⟩, within⟩, checkItem]
    unfold orderCost at cost within ⊢
    simp only [valid, Bool.not_true, Bool.false_or, decide_eq_true_eq, not_le.mpr stock,
      ↓reduceIte, not_lt.mpr cost, gt_iff_lt, not_lt.mpr within]
  · -- a run through all three tests would satisfy the condition
    rw [if_neg ok, checkItem]
    dsimp only
    split_ifs with bad neg over <;> try rfl
    simp only [Bool.or_eq_true, Bool.not_eq_true', decide_eq_true_eq, not_or, Bool.not_eq_false,
      not_le] at bad
    exact absurd ⟨⟨bad.1, bad.2, not_lt.mp neg⟩, not_lt.mp over⟩ ok

/-- **The early abort agrees with the full sum.** The check loop from running total `total`
accepts exactly when every id can be sold and, if there is any id, the total plus the sum of
the costs is within the budget. -/
theorem checkLoop_iff (ids : List (Fin n)) (total : ℚ) :
    checkLoop s shipSnap discSnap budget ids total = true ↔
      (∀ i ∈ ids, Sellable s shipSnap discSnap i) ∧
        (ids = [] ∨ total + (ids.map (orderCost s shipSnap discSnap)).sum ≤ budget) := by
  induction ids generalizing total with
  | nil => simp [checkLoop]
  | cons i ids ih =>
    have rest : (∀ j ∈ ids, Sellable s shipSnap discSnap j) →
        0 ≤ (ids.map (orderCost s shipSnap discSnap)).sum := fun h =>
      List.sum_nonneg (by simpa using fun j hj => (h j hj).2.2)
    simp only [checkLoop, checkItem_eq, List.mem_cons, forall_eq_or_imp, List.map_cons,
      List.sum_cons, reduceCtorEq, false_or]
    split_ifs with h
    · rw [ih]
      constructor
      · rintro ⟨hs, hb⟩
        refine ⟨⟨h.1, hs⟩, ?_⟩
        rcases hb with rfl | hb
        · simpa using h.2
        · linarith
      · rintro ⟨⟨_, hs⟩, hb⟩
        exact ⟨hs, .inr (by linarith)⟩
    · simp only [Bool.false_eq_true, false_iff, not_and]
      rintro ⟨hi, hs⟩ hb
      exact h ⟨hi, by linarith [rest hs]⟩

/-! ## The whole order -/

/-- An order on strictly ascending ids under any snapshot is all or nothing. -/
theorem buyManyItemsAt_eq (ids : List (Fin n)) (nodup : ids.Nodup) :
    s.buyManyItemsAt ids budget shipSnap discSnap =
      if OrderOk s shipSnap discSnap budget ids.toFinset then s.decrementEach ids.toFinset
      else s := by
  have sum := List.sum_toFinset (orderCost s shipSnap discSnap) nodup
  unfold buyManyItemsAt OrderOk
  by_cases empty : ids = []
  · subst empty
    simp only [checkLoop, ↓reduceIte, commit_nil, List.toFinset_nil]
    split_ifs <;> ext <;> simp [decrementEach]
  · have check := checkLoop_iff s shipSnap discSnap budget ids 0
    simp only [empty, false_or, zero_add] at check
    simp only [List.mem_toFinset, sum]
    by_cases ok : (∀ i ∈ ids, Sellable s shipSnap discSnap i) ∧
        (ids.map (orderCost s shipSnap discSnap)).sum ≤ budget
    · rw [if_pos (check.mpr ok), if_pos ok, commit_eq_decrementEach s ids nodup]
    · rw [if_neg (mt check.mp ok), if_neg ok]

/-- **`buyManyItems` run alone is all or nothing**, with exact arithmetic. It either leaves the
store unchanged, or lowers by exactly one the quantity of each distinct in-range id of the vector
and changes nothing else; it does the latter exactly when each of those ids is carried and in
stock with a cost of at least zero, and the costs sum to at most the budget. -/
theorem buyManyItems_all_or_nothing (itemIds : List Int) :
    s.buyManyItems itemIds budget =
      if OrderOk s s.shippingCost s.storeDiscount budget (orderSet n itemIds)
      then s.decrementEach (orderSet n itemIds) else s := by
  rw [← orderIds_toFinset]
  unfold buyManyItems
  by_cases empty : orderIds n itemIds = []
  · simp only [empty, List.isEmpty_nil, ↓reduceIte, List.toFinset_nil]
    split_ifs <;> ext <;> simp [decrementEach]
  · simp only [List.isEmpty_iff, empty, ↓reduceIte]
    exact buyManyItemsAt_eq s _ _ _ _ (orderIds_nodup itemIds)

end Labs.EStore
