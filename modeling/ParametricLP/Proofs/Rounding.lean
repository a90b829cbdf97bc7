import Mathlib
import ParametricLP.Config

/-!
# What rounding keeps of the order

Rounded sums and products are not those of exact numbers, but they are in the same order: rounding is
monotone. `Scalar.RoundsInOrder` collects the laws of this kind that budgets rest on. They hold of
exact numbers and of correctly rounded ones, among which one may be undefined: it compares with
nothing, and no law says that it does. `Scalar.OrdersNumbers` adds that all others are in one order,
the finite ones among them. A number is one of them if it compares with itself.

## Key results

- `Config.floor_le_floor`: a higher threshold has a higher floor
- `Config.threshold_le_floor`: no floor lies below its threshold
-/

namespace ParametricLP

/-- Comparisons are transitive, a multiple by a positive number keeps the order of numbers from one
    on, and so does a sum of which one part is finite. -/
class Scalar.RoundsInOrder (α : Type) [Scalar α] : Prop where
  one_le_one : (1 : α) ≤ 1
  le_of_lt : ∀ {x y : α}, x < y → x ≤ y
  le_trans : ∀ {x y z : α}, x ≤ y → y ≤ z → x ≤ z
  lt_of_lt_of_le : ∀ {x y z : α}, x < y → y ≤ z → x < z
  mul_le_mul : ∀ {t x y : α}, 0 < t → 1 ≤ x → x ≤ y → t * x ≤ t * y
  add_le_add : ∀ {x y u v : α}, isFinite x = true → isFinite y = true → x ≤ y → u ≤ v →
    x + u ≤ y + v

instance roundsInOrderRat : Scalar.RoundsInOrder ℚ where
  one_le_one := le_rfl
  le_of_lt h := h.le
  le_trans h h' := h.trans h'
  lt_of_lt_of_le h h' := h.trans_le h'
  mul_le_mul ht _ h := mul_le_mul_of_nonneg_left h ht.le
  add_le_add _ _ h h' := add_le_add h h'

/-- Numbers that compare with themselves are in one order, and finite numbers are such. Adding zero
    and multiplying by one do not make a number smaller. -/
class Scalar.OrdersNumbers (α : Type) [Scalar α] : Prop extends RoundsInOrder α where
  le_self_of_isFinite : ∀ {x : α}, isFinite x = true → x ≤ x
  le_self_left : ∀ {x y : α}, x ≤ y → x ≤ x
  le_self_right : ∀ {x y : α}, x ≤ y → y ≤ y
  le_total : ∀ {x y : α}, x ≤ x → y ≤ y → x ≤ y ∨ y ≤ x
  lt_iff : ∀ {x y : α}, x < y ↔ x ≤ y ∧ ¬ y ≤ x
  le_add_zero : ∀ {x : α}, isFinite x = true → x ≤ x + 0
  le_mul_one : ∀ {t : α}, 0 < t → t ≤ t * 1

instance ordersNumbersRat : Scalar.OrdersNumbers ℚ where
  le_self_of_isFinite _ := le_rfl
  le_self_left _ := le_rfl
  le_self_right _ := le_rfl
  le_total _ _ := LinearOrder.le_total _ _
  lt_iff := lt_iff_le_not_ge
  le_add_zero _ := (add_zero _).ge
  le_mul_one _ := (mul_one _).ge

/-- Two numbers that the order does not tell apart. -/
def Scalar.Level {α : Type} [Scalar α] (x y : α) : Prop :=
  x ≤ y ∧ y ≤ x

instance {α : Type} [Scalar α] (x y : α) : Decidable (Scalar.Level x y) :=
  inferInstanceAs (Decidable (_ ∧ _))

/-- Being level is symmetric. -/
theorem Scalar.Level.symm {α : Type} [Scalar α] {x y : α} (h : Level x y) : Level y x :=
  ⟨h.2, h.1⟩

section RoundsInOrder

variable {α : Type} [Scalar α] [Scalar.RoundsInOrder α]

namespace Scalar

open RoundsInOrder

/-- A number raised to one is at least one, rounded or not. -/
theorem one_le_atLeastOne_of_rounds (x : α) : 1 ≤ atLeastOne x := by
  unfold atLeastOne
  split
  · next h => exact le_of_lt h
  · exact one_le_one

/-- Raising to one keeps the order. -/
theorem atLeastOne_le_atLeastOne {x y : α} (h : x ≤ y) : atLeastOne x ≤ atLeastOne y := by
  by_cases hx : 1 < x
  · have hy : 1 < y := lt_of_lt_of_le hx h
    unfold atLeastOne
    rw [if_pos hx, if_pos hy]
    exact h
  -- A number that was raised is one, which is a lower bound of the other.
  · have hone : atLeastOne x = 1 := if_neg hx
    rw [hone]
    exact one_le_atLeastOne_of_rounds y

end Scalar

/-- A higher threshold has a higher floor. -/
theorem Config.floor_le_floor {cfg₁ cfg₂ : Config α} (htol : cfg₁.tol = cfg₂.tol)
    (h : cfg₁.threshold ≤ cfg₂.threshold) : cfg₁.floor ≤ cfg₂.floor := by
  -- The margin grows with the threshold.
  have hscale := Scalar.RoundsInOrder.mul_le_mul cfg₂.tol_pos
    (Scalar.one_le_atLeastOne_of_rounds cfg₁.threshold) (Scalar.atLeastOne_le_atLeastOne h)
  unfold floor
  rw [htol]
  exact Scalar.RoundsInOrder.add_le_add cfg₁.threshold_finite cfg₂.threshold_finite h hscale

end RoundsInOrder

section OrdersNumbers

variable {α : Type} [Scalar α] [Scalar.OrdersNumbers α]

namespace Scalar

open RoundsInOrder OrdersNumbers

variable {x y z : α}

/-- A number that is smaller is not at least as large. -/
theorem not_le_of_lt (h : x < y) : ¬ y ≤ x :=
  (lt_iff.1 h).2

/-- Of two numbers in the order, one that is not at most the other is larger. -/
theorem lt_of_not_le (hx : x ≤ x) (hy : y ≤ y) (h : ¬ x ≤ y) : y < x :=
  lt_iff.2 ⟨(le_total hx hy).resolve_left h, h⟩

/-- What lies at or below a smaller number is smaller. -/
theorem lt_of_le_of_lt (h : x ≤ y) (h' : y < z) : x < z :=
  lt_iff.2 ⟨le_trans h (le_of_lt h'), fun hle => not_le_of_lt h' (le_trans hle h)⟩

/-- Of two numbers neither of which is smaller, none is larger. -/
theorem level_of_not_lt (hx : x ≤ x) (hy : y ≤ y) (h : ¬ x < y) (h' : ¬ y < x) : Level x y := by
  rw [lt_iff, not_and_not_right] at h h'
  rcases le_total hx hy with hle | hle
  · exact ⟨hle, h hle⟩
  · exact ⟨h' hle, hle⟩

/-- Being level is transitive. -/
theorem Level.trans (h : Level x y) (h' : Level y z) : Level x z :=
  ⟨le_trans h.1 h'.1, le_trans h'.2 h.2⟩

/-- What is level with one of two level numbers is level with the other. -/
theorem Level.iff_right (h : Level y z) : Level x y ↔ Level x z :=
  ⟨fun h' => h'.trans h, fun h' => h'.trans h.symm⟩

/-- Level numbers are larger than the same numbers. -/
theorem Level.lt_iff (h : Level y z) : x < y ↔ x < z :=
  ⟨fun h' => lt_of_lt_of_le h' h.1, fun h' => lt_of_lt_of_le h' h.2⟩

end Scalar

open Scalar.RoundsInOrder Scalar.OrdersNumbers in
/-- No floor lies below its threshold. -/
theorem Config.threshold_le_floor (cfg : Config α) : cfg.threshold ≤ cfg.floor := by
  -- Rounding may lose the margin, but it does not turn it around.
  have hmargin : 0 ≤ cfg.tol * Scalar.atLeastOne cfg.threshold := by
    refine le_trans (le_of_lt cfg.tol_pos) (le_trans (le_mul_one cfg.tol_pos) ?_)
    exact mul_le_mul cfg.tol_pos one_le_one (Scalar.one_le_atLeastOne_of_rounds _)
  exact le_trans (le_add_zero cfg.threshold_finite) (add_le_add cfg.threshold_finite
    cfg.threshold_finite (le_self_of_isFinite cfg.threshold_finite) hmargin)

end OrdersNumbers

end ParametricLP
