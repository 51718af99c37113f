import Mathlib
import Warehouse.Cost.Amount

/-! # The order of doubles

Doubles are compared by sign, exponent and mantissa. What is not a number compares with nothing, so that
`<` is a strict order on all doubles, though not a total one. -/

namespace Warehouse.Cost

open Float.Model

/-- Where a double stands among those that are numbers. -/
def rank : UnpackedFloat → ℤ ×ₗ ℤ ×ₗ ℤ
  | .infinity .positive => toLex (2, toLex (0, 0))
  | .finite .positive mantissa exponent _ => toLex (1, toLex (exponent, (mantissa : ℤ)))
  | .zero _ => toLex (0, toLex (0, 0))
  | .notANumber => toLex (0, toLex (0, 0))
  | .finite .negative mantissa exponent _ => toLex (-1, toLex (-exponent, -(mantissa : ℤ)))
  | .infinity .negative => toLex (-2, toLex (0, 0))

theorem lt_iff_rank {a b : UnpackedFloat} :
    a.lt b = true ↔ a ≠ .notANumber ∧ b ≠ .notANumber ∧ rank a < rank b := by
  rcases a with ⟨_ | _⟩ | _ | ⟨_ | _⟩ | ⟨_ | _, m, e, pos⟩ <;>
    rcases b with ⟨_ | _⟩ | _ | ⟨_ | _⟩ | ⟨_ | _, m', e', pos'⟩ <;>
    simp [UnpackedFloat.lt, UnpackedFloat.compare, rank, Prod.Lex.toLex_lt_toLex]
  case infinity.negative.infinity.positive => rfl
  case finite.negative.finite.negative =>
    rw [Ordering.then_eq_gt, compare_gt_iff_gt, compare_gt_iff_gt, compare_eq_iff_eq]
  case finite.positive.finite.positive =>
    rw [Ordering.then_eq_lt, compare_lt_iff_lt, compare_lt_iff_lt, compare_eq_iff_eq]

variable {x y z : Float}

theorem float_lt_iff : x < y ↔ x.toModel.unpack.lt y.toModel.unpack = true := by
  change decide (x.toModel < y.toModel) = true ↔ _
  rw [decide_eq_true_iff]
  rfl

theorem float_lt_irrefl (x : Float) : ¬ x < x := fun h =>
  lt_irrefl _ (lt_iff_rank.mp (float_lt_iff.mp h)).2.2

theorem float_lt_trans (first : x < y) (second : y < z) : x < z := by
  obtain ⟨number, -, less⟩ := lt_iff_rank.mp (float_lt_iff.mp first)
  obtain ⟨-, number', less'⟩ := lt_iff_rank.mp (float_lt_iff.mp second)
  exact float_lt_iff.mpr (lt_iff_rank.mpr ⟨number, number', less.trans less'⟩)

end Warehouse.Cost
