import Mathlib.Algebra.Order.Ring.Rat

/-!
# The arithmetic of the store's prices

`EStore.cpp` keeps prices, discounts, the shipping cost, costs and budgets in `double`, and
uses on them `+`, `-`, `*`, `<`, `<=`, `>` and the constants `0` and `1`. The store is modelled
over any type with these (`Price`), and two instances say what they are:

* `ℚ`: exact arithmetic, every value finite.
* `Dbl`: a `double` as IEEE 754 treats it, rounding aside: a finite value, an infinity or NaN.
  An operation on NaN gives NaN, as do `inf - inf` and `0 * inf`, and every comparison with NaN
  is false.
-/

namespace Labs

/-- What the store's code does with a `double`. -/
class Price (R : Type) extends Zero R, One R, Add R, Sub R, Mul R, LT R, LE R where
  decLt : ∀ a b : R, Decidable (a < b)
  decLe : ∀ a b : R, Decidable (a ≤ b)

instance Price.instDecidableLt {R : Type} [Price R] (a b : R) : Decidable (a < b) :=
  Price.decLt a b

instance Price.instDecidableLe {R : Type} [Price R] (a b : R) : Decidable (a ≤ b) :=
  Price.decLe a b

/-- Exact arithmetic. -/
instance : Price ℚ where
  decLt := inferInstance
  decLe := inferInstance

/-- A `double`, rounding aside: `inf true` is `-inf`, `inf false` is `+inf`. -/
inductive Dbl where
  | finite (q : ℚ)
  | inf (neg : Bool)
  | nan
  deriving DecidableEq, Repr

namespace Dbl

def neg : Dbl → Dbl
  | finite q => finite (-q)
  | inf s => inf !s
  | nan => nan

def add : Dbl → Dbl → Dbl
  | finite p, finite q => finite (p + q)
  | finite _, inf s | inf s, finite _ => inf s
  | inf s, inf s' => if s = s' then inf s else nan
  | _, _ => nan

/-- The sign of an infinite product flips with each negative factor; `0 * inf` is NaN. -/
def mul : Dbl → Dbl → Dbl
  | finite p, finite q => finite (p * q)
  | finite p, inf s | inf s, finite p => if p = 0 then nan else inf (s != decide (p < 0))
  | inf s, inf s' => inf (s != s')
  | _, _ => nan

/-- `<`: false whenever NaN is compared. -/
def lt : Dbl → Dbl → Bool
  | finite p, finite q => decide (p < q)
  | finite _, inf s => !s
  | inf s, finite _ => s
  | inf s, inf s' => s && !s'
  | _, _ => false

/-- `<=`: false whenever NaN is compared. -/
def le : Dbl → Dbl → Bool
  | finite p, finite q => decide (p ≤ q)
  | finite _, inf s => !s
  | inf s, finite _ => s
  | inf s, inf s' => s || !s'
  | _, _ => false

instance : Price Dbl where
  zero := finite 0
  one := finite 1
  add := add
  sub x y := add x (neg y)
  mul := mul
  lt x y := lt x y
  le x y := le x y
  decLt x y := inferInstanceAs (Decidable (lt x y = true))
  decLe x y := inferInstanceAs (Decidable (le x y = true))

/-- **NaN is unordered.** No value is below or above NaN, itself included. -/
theorem nan_unordered (x : Dbl) : ¬x < nan ∧ ¬nan < x ∧ ¬x ≤ nan ∧ ¬nan ≤ x := by
  cases x <;> exact ⟨nofun, nofun, nofun, nofun⟩

/-- NaN absorbs every operation. -/
theorem nan_absorbs (x : Dbl) :
    x + nan = nan ∧ nan + x = nan ∧ x - nan = nan ∧ nan - x = nan ∧ x * nan = nan ∧
      nan * x = nan := by
  cases x <;> exact ⟨rfl, rfl, rfl, rfl, rfl, rfl⟩

/-- On finite values a `Dbl` computes as `ℚ`. -/
theorem finite_ops (p q : ℚ) :
    finite p + finite q = finite (p + q) ∧ finite p - finite q = finite (p - q) ∧
      finite p * finite q = finite (p * q) ∧ (finite p < finite q ↔ p < q) ∧
        (finite p ≤ finite q ↔ p ≤ q) := by
  refine ⟨rfl, congrArg finite (sub_eq_add_neg p q).symm, rfl, ?_, ?_⟩ <;>
    exact decide_eq_true_iff

end Dbl

end Labs
