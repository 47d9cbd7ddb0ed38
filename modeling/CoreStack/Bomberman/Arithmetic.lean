import CoreStack.Lib.Rounding

/-! # The arithmetic of `float`

A `float` is the rational it stands for, and an operation is the exact one followed by `fl`.
Which numbers there are is left open: rounding keeps the order, and it keeps what 24 bits can
hold. Nothing here is as large as the largest number of a format.
-/
namespace CoreStack.Bomberman

class Arithmetic where
  fl : ℚ → ℚ
  fl_mono : Monotone fl
  fl_dyadic : ∀ (m : ℤ) (k : ℕ), |m| < 2 ^ 24 → k ≤ 149 → fl (m / 2 ^ k) = m / 2 ^ k

export Arithmetic (fl fl_mono fl_dyadic)

/-- Nothing is rounded. -/
@[reducible] def Arithmetic.exact : Arithmetic where
  fl q := q
  fl_mono := monotone_id
  fl_dyadic _ _ _ _ := rfl

/-- Single precision, rounded to the nearest. -/
@[reducible] def Arithmetic.binary32 : Arithmetic where
  fl := Rounding.toFormat 24 (-149)
  fl_mono := Rounding.toFormat_mono (by decide)
  fl_dyadic _ _ hm hk := Rounding.toFormat_dyadic hm (by omega)

theorem fl_half [Arithmetic] : fl (1 / 2) = 1 / 2 := by
  have h := fl_dyadic 1 1 (by norm_num) (by norm_num)
  rwa [Int.cast_one,pow_one] at h

end CoreStack.Bomberman
