import Labs.EStore.Price
import Mathlib.Data.List.Destutter
import Mathlib.Logic.Function.Basic

/-!
# The inventory store of lab3, call by call

`EStore.cpp` read as sequential code: the slots and the store-wide prices, and what each call
does to them when it runs alone. Prices are `double` in the C++; here they are of any type `R`
with the operations the code uses (`Price`), so exact rationals or `Dbl`.

* `Item`, `EStore`: the data model. `n` is `INVENTORY_SIZE`, which `EStore.h` defines.
* `SlotOp.body`: the critical section shared by `addItem`, `removeItem`, `addStock`,
  `priceItem` and `discountItem`; `slotCall` adds the range check every one of them makes.
* `Setter.body`: the critical sections of `setShippingCost` and `setStoreDiscount`.
* `orderIds`, `checkItem`, `checkLoop`, `commit`: the stages of `buyManyItems`.
* `Call.apply`: a call executed atomically, the unit of the sequential runs of `Serial`.
-/

namespace Labs

/-- One inventory slot (`Item`). `Item()` only clears `valid`; the other fields start at zero. -/
structure Item (R : Type) where
  valid : Bool
  quantity : Int
  price : R
  discount : R
  deriving DecidableEq, Repr

/-- The store (`EStore`) with `n` slots indexed by item id. `fineMode` is fixed by the
constructor and never written again. -/
@[ext] structure EStore (R : Type) (n : Nat) where
  inventory : Fin n → Item R
  shippingCost : R
  storeDiscount : R
  fineMode : Bool

namespace EStore

variable {R : Type} {n : Nat}

/-- The slot of `itemId`, when `0 ≤ itemId < INVENTORY_SIZE`. -/
def slot? (n : Nat) (itemId : Int) : Option (Fin n) :=
  if h : 0 ≤ itemId ∧ itemId < n then some ⟨itemId.toNat, by omega⟩ else none

@[simp] theorem slot?_coe (i : Fin n) : slot? n (i : Int) = some i := by
  simp [slot?, Fin.ext_iff, Int.natCast_nonneg]

/-- The store with slot `i` replaced. -/
def setItem (s : EStore R n) (i : Fin n) (it : Item R) : EStore R n :=
  { s with inventory := Function.update s.inventory i it }

@[simp] theorem setItem_inventory (s : EStore R n) (i j : Fin n) (it : Item R) :
    (s.setItem i it).inventory j = if j = i then it else s.inventory j := by
  simp [setItem, Function.update_apply]

@[simp] theorem setItem_shippingCost (s : EStore R n) (i : Fin n) (it : Item R) :
    (s.setItem i it).shippingCost = s.shippingCost := rfl

@[simp] theorem setItem_storeDiscount (s : EStore R n) (i : Fin n) (it : Item R) :
    (s.setItem i it).storeDiscount = s.storeDiscount := rfl

@[simp] theorem setItem_fineMode (s : EStore R n) (i : Fin n) (it : Item R) :
    (s.setItem i it).fineMode = s.fineMode := rfl

/-- `inventory[id].quantity -= 1`. -/
def decrement (s : EStore R n) (i : Fin n) : EStore R n :=
  s.setItem i { s.inventory i with quantity := (s.inventory i).quantity - 1 }

/-- The commit loop. -/
def commit (s : EStore R n) (ids : List (Fin n)) : EStore R n := ids.foldl decrement s

@[simp] theorem decrement_inventory (s : EStore R n) (i j : Fin n) :
    (s.decrement i).inventory j =
      if j = i then { s.inventory i with quantity := (s.inventory i).quantity - 1 }
      else s.inventory j :=
  setItem_inventory _ _ _ _

@[simp] theorem decrement_shippingCost (s : EStore R n) (i : Fin n) :
    (s.decrement i).shippingCost = s.shippingCost := rfl

@[simp] theorem decrement_storeDiscount (s : EStore R n) (i : Fin n) :
    (s.decrement i).storeDiscount = s.storeDiscount := rfl

@[simp] theorem decrement_fineMode (s : EStore R n) (i : Fin n) :
    (s.decrement i).fineMode = s.fineMode := rfl

@[simp] theorem commit_nil (s : EStore R n) : s.commit [] = s := rfl

@[simp] theorem commit_cons (s : EStore R n) (i : Fin n) (ids : List (Fin n)) :
    s.commit (i :: ids) = (s.decrement i).commit ids := rfl

variable [Price R]

/-- The store `EStore(enableFineMode)` builds: no item is carried. The first shipping cost and
store discount come from `EStore.h`, so they are arguments here. -/
def create (n : Nat) (enableFineMode : Bool) (shippingCost storeDiscount : R) : EStore R n :=
  ⟨fun _ => ⟨false, 0, 0, 0⟩, shippingCost, storeDiscount, enableFineMode⟩

/-- Modelled from the spec: `totalCost_nolock`, declared in `EStore.h`. The price after the
item's and the store's discounts, plus the flat shipping cost. -/
def totalCost (s : EStore R n) (it : Item R) : R :=
  it.price * (1 - it.discount) * (1 - s.storeDiscount) + s.shippingCost

/-! ## The one-slot calls -/

/-- The administrative calls on one slot, with their arguments other than the id. -/
inductive SlotOp (R : Type) where
  | addItem (quantity : Int) (price discount : R)
  | removeItem
  | addStock (count : Int)
  | priceItem (price : R)
  | discountItem (discount : R)
  deriving DecidableEq

/-- The critical section of a one-slot call: the new slot, and whether the call broadcasts
the slot's condition variable. A price only wakes waiters when it falls, a discount when it
rises. -/
def SlotOp.body : SlotOp R → Item R → Item R × Bool
  | .addItem quantity price discount, it =>
    if !it.valid then (⟨true, quantity, price, discount⟩, true) else (it, false)
  | .removeItem, it => if it.valid then ({ it with valid := false }, true) else (it, false)
  | .addStock count, it =>
    if it.valid && decide (count > 0) then ({ it with quantity := it.quantity + count }, true)
    else (it, false)
  | .priceItem price, it =>
    if it.valid then ({ it with price := price }, decide (price < it.price)) else (it, false)
  | .discountItem discount, it =>
    if it.valid then ({ it with discount := discount }, decide (discount > it.discount))
    else (it, false)

/-- A one-slot call run alone: an id out of range changes nothing. -/
def slotCall (s : EStore R n) (itemId : Int) (op : SlotOp R) : EStore R n :=
  match slot? n itemId with
  | none => s
  | some i => s.setItem i (op.body (s.inventory i)).1

def addItem (s : EStore R n) (itemId quantity : Int) (price discount : R) : EStore R n :=
  s.slotCall itemId (.addItem quantity price discount)

def removeItem (s : EStore R n) (itemId : Int) : EStore R n :=
  s.slotCall itemId .removeItem

def addStock (s : EStore R n) (itemId count : Int) : EStore R n :=
  s.slotCall itemId (.addStock count)

def priceItem (s : EStore R n) (itemId : Int) (price : R) : EStore R n :=
  s.slotCall itemId (.priceItem price)

def discountItem (s : EStore R n) (itemId : Int) (discount : R) : EStore R n :=
  s.slotCall itemId (.discountItem discount)

/-- What `getItemQuantity` reads from a slot: the quantity of a carried item, else `0`. -/
def quantityAt (s : EStore R n) (i : Fin n) : Int :=
  if (s.inventory i).valid then (s.inventory i).quantity else 0

def getItemQuantity (s : EStore R n) (itemId : Int) : Int :=
  match slot? n itemId with
  | none => 0
  | some i => s.quantityAt i

/-! ## The store-wide setters -/

/-- `setShippingCost` and `setStoreDiscount`, with their argument. -/
inductive Setter (R : Type) where
  | shippingCost (cost : R)
  | storeDiscount (discount : R)
  deriving DecidableEq

/-- The critical section of a setter: the new store, and whether it wakes every slot's
waiters (`decreased` for the shipping cost, `increased` for the store discount). -/
def Setter.body : Setter R → EStore R n → EStore R n × Bool
  | .shippingCost cost, s => ({ s with shippingCost := cost }, decide (cost < s.shippingCost))
  | .storeDiscount discount, s =>
    ({ s with storeDiscount := discount }, decide (discount > s.storeDiscount))

@[simp] theorem Setter.body_inventory (x : Setter R) (s : EStore R n) :
    (x.body s).1.inventory = s.inventory := by
  cases x <;> rfl

@[simp] theorem Setter.body_fineMode (x : Setter R) (s : EStore R n) :
    (x.body s).1.fineMode = s.fineMode := by
  cases x <;> rfl

def setShippingCost (s : EStore R n) (cost : R) : EStore R n := (Setter.body (.shippingCost cost) s).1

def setStoreDiscount (s : EStore R n) (discount : R) : EStore R n :=
  (Setter.body (.storeDiscount discount) s).1

/-! ## `buyManyItems` -/

/-- The ids an order locks: those in range (the filter loop), sorted (`std::sort`) and
without repeats (`std::unique`). -/
def orderIds (n : Nat) (itemIds : List Int) : List (Fin n) :=
  ((itemIds.filterMap (slot? n)).mergeSort (fun a b => decide (a ≤ b))).destutter (· ≠ ·)

/-- One turn of the check loop at slot `i` with running total `total`: `none` when the order
fails there (`ok = false; break`), else the new running total. -/
def checkItem (s : EStore R n) (shipSnap discSnap budget total : R) (i : Fin n) : Option R :=
  let it := s.inventory i
  if !it.valid || decide (it.quantity ≤ 0) then none
  else
    let perItemCost := it.price * (1 - it.discount) * (1 - discSnap) + shipSnap
    if perItemCost < 0 then none
    else if total + perItemCost > budget then none
    else some (total + perItemCost)

/-- The check loop, which stops at the first failing id. -/
def checkLoop (s : EStore R n) (shipSnap discSnap budget : R) : List (Fin n) → R → Bool
  | [], _ => true
  | i :: ids, total =>
    match checkItem s shipSnap discSnap budget total i with
    | none => false
    | some total' => checkLoop s shipSnap discSnap budget ids total'

/-- The check and the commit of an order on its sorted ids, with the snapshot of the
shipping cost and the store discount it took. -/
def buyManyItemsAt (s : EStore R n) (ids : List (Fin n)) (budget shipSnap discSnap : R) :
    EStore R n :=
  if checkLoop s shipSnap discSnap budget ids 0 then s.commit ids else s

def buyManyItems (s : EStore R n) (itemIds : List Int) (budget : R) : EStore R n :=
  let ids := orderIds n itemIds
  if ids.isEmpty then s else s.buyManyItemsAt ids budget s.shippingCost s.storeDiscount

/-! ## Calls -/

/-- A call of the store's interface with its arguments. -/
inductive Call (R : Type) where
  | buyItem (itemId : Int) (budget : R)
  | buyManyItems (itemIds : List Int) (budget : R)
  | slot (itemId : Int) (op : SlotOp R)
  | setter (x : Setter R)
  | getItemQuantity (itemId : Int)

/-- A call executed atomically. `buyManyItems` uses the snapshot `snap` of the shipping cost
and the store discount; `buyItem`, which only fine mode's sequential runs use, does not occur
there (`EStore` asserts coarse mode) and changes nothing. -/
def Call.apply (s : EStore R n) (snap : R × R) : Call R → EStore R n
  | .buyItem _ _ => s
  | .buyManyItems itemIds budget =>
    let ids := orderIds n itemIds
    if ids.isEmpty then s else s.buyManyItemsAt ids budget snap.1 snap.2
  | .slot itemId op => s.slotCall itemId op
  | .setter x => (x.body s).1
  | .getItemQuantity _ => s

/-- The value a call returns when executed atomically: only `getItemQuantity` returns one. -/
def Call.result (s : EStore R n) : Call R → Int
  | .getItemQuantity itemId => s.getItemQuantity itemId
  | _ => 0

end EStore

end Labs
