import Mathlib

/-!
# `fixedptc.h`

The fixed-point library both the Click elements and the hand-coded baseline
compute with, in its 64-bit configuration (`FIXEDPT_BITS 64`,
`FIXEDPT_WBITS 24`): a `fixedpt` is an `int64_t` read as a number with 40
fraction bits, and products and quotients go through the 128-bit `fixedptd`.

## The model

`Fixedpt` is Lean's `Int64`, whose `+` and `-` wrap modulo `2 ^ 64` as the
compiled code does. A 128-bit intermediate never overflows here (a product of
two 64-bit words, or a word shifted by 40 bits, fits), so it is computed in
`ℤ` and truncated back to 64 bits by `Int64.ofInt`, as the conversion from
`fixedptd` to `fixedpt` does. `>>` on the signed `__int128` is an arithmetic
shift (floor division by `2 ^ 40`); `/` on it truncates toward zero
(`Int.tdiv`). C leaves a division by zero undefined; the model gives `0` there,
and the results that depend on it say where a divisor is zero.
-/

namespace Synapse

/-- `fixedpt`: `int64_t`, 24 whole and 40 fraction bits. -/
abbrev Fixedpt := Int64

/-- `FIXEDPT_FBITS`. -/
def FIXEDPT_FBITS : ℕ := 40

/-- `fixedpt_fromint (I)`: `(fixedptd)(I) << FIXEDPT_FBITS`, stored into a `fixedpt`. -/
def fixedptFromint (i : ℤ) : Fixedpt := Int64.ofInt (i * 2 ^ FIXEDPT_FBITS)

/-- `FIXEDPT_ONE`. -/
def FIXEDPT_ONE : Fixedpt := fixedptFromint 1

/-- `fixedpt_mul (A, B)`: the 128-bit product, shifted right by `FIXEDPT_FBITS`. -/
def fixedptMul (a b : Fixedpt) : Fixedpt := Int64.ofInt ((a.toInt * b.toInt) >>> FIXEDPT_FBITS)

/-- `fixedpt_div (A, B)`: `(fixedptd)A << FIXEDPT_FBITS` divided by `B` in 128 bits.
A zero `B` traps in the source; the quotient here is then `0`, and the models that
can reach it say so. -/
def fixedptDiv (a b : Fixedpt) : Fixedpt := Int64.ofInt ((a.toInt * 2 ^ FIXEDPT_FBITS).tdiv b.toInt)

/-- `fixedpt_abs (A)`: `(A) < 0 ? -(A) : (A)`. -/
def fixedptAbs (a : Fixedpt) : Fixedpt := if a < 0 then -a else a

/-- The word of a fixed-point number, as a mathematical integer. -/
theorem toInt_fixedptFromint {i : ℤ} (h₁ : -2 ^ 23 ≤ i) (h₂ : i < 2 ^ 23) :
    (fixedptFromint i).toInt = i * 2 ^ 40 := by
  unfold fixedptFromint FIXEDPT_FBITS
  rw [Int64.toInt_ofInt_of_le (by omega) (by omega)]

theorem fixedptMul_eq (a b : Fixedpt) :
    fixedptMul a b = Int64.ofInt (a.toInt * b.toInt / 2 ^ 40) := by
  rw [fixedptMul, Int.shiftRight_eq_div_pow]
  rfl

/-- `x` is the value of an `int64_t`: a result that lands here is stored without
wrapping. -/
def InRange (x : ℤ) : Prop := -2 ^ 63 ≤ x ∧ x < 2 ^ 63

instance : DecidablePred InRange := fun x => inferInstanceAs (Decidable (-2 ^ 63 ≤ x ∧ x < 2 ^ 63))

theorem toInt_ofInt_of_inRange {x : ℤ} (h : InRange x) : (Int64.ofInt x).toInt = x :=
  Int64.toInt_ofInt_of_le h.1 h.2

/-- Multiplying by an integer through `fixedpt_fromint` is exact while the product is
in range: the `40` bits the shift drops are zero. -/
theorem toInt_fixedptMul_fromint {n : ℤ} (h₁ : -2 ^ 23 ≤ n) (h₂ : n < 2 ^ 23) {b : Fixedpt}
    (h : InRange (n * b.toInt)) : (fixedptMul (fixedptFromint n) b).toInt = n * b.toInt := by
  have hshift : n * 2 ^ 40 * b.toInt / 2 ^ 40 = n * b.toInt := by
    rw [Int.mul_right_comm]
    exact Int.mul_ediv_cancel _ (by decide)
  rw [fixedptMul_eq, toInt_fixedptFromint h₁ h₂, hshift, toInt_ofInt_of_inRange h]

/-- `fixedpt_div` is the truncated quotient while that is in range. -/
theorem toInt_fixedptDiv {a b : Fixedpt} (h : InRange ((a.toInt * 2 ^ 40).tdiv b.toInt)) :
    (fixedptDiv a b).toInt = (a.toInt * 2 ^ 40).tdiv b.toInt :=
  toInt_ofInt_of_inRange h

end Synapse
