import Mathlib

/-!
# Scaling before and after a truncating division

Multiplying by `m` before a division that truncates toward zero, or after it, gives
two results that agree up to less than `m`: the first rounds `m * x / P` once, the
second rounds `x / P` and scales the error by `m`. Both have the sign of the exact
quotient, and the first is at least as large in magnitude. The results are stated
for `Int.tdiv`, the division of C and of signed machine words.

A weighted mean `((w - a) * x + a * y) / w` with weights `a / w` in `[0, 1]`,
computed with each product rounded down on its own, stays between `0` and any
bound of `x` and `y`, and grows with `x` and `y`: a fixed-point exponential
average keeps the order and the bounds of what it averages.
-/

namespace Synapse.Theory

/-- Over the naturals: `m * (a / b) ≤ m * a / b < m * (a / b) + m`. -/
theorem mul_div_bounds {m : ℕ} (hm : 0 < m) (a : ℕ) {b : ℕ} (hb : 0 < b) :
    m * (a / b) ≤ m * a / b ∧ m * a / b < m * (a / b) + m := by
  constructor
  · exact Nat.mul_div_le_mul_div_assoc m a b
  · rw [Nat.div_lt_iff_lt_mul hb]
    have ha : a < (a / b + 1) * b := by
      rw [Nat.add_mul, Nat.one_mul]
      exact Nat.lt_div_mul_add hb
    calc m * a < m * ((a / b + 1) * b) := Nat.mul_lt_mul_of_pos_left ha hm
      _ = (m * (a / b) + m) * b := by rw [← Nat.mul_assoc, Nat.mul_add, Nat.mul_one]

/-- **Scaling before and after `Int.tdiv`.** For every `x` and non-zero `P`,
`(m * x).tdiv P` and `m * x.tdiv P` differ by less than `m`, and the second is no
larger in magnitude than the first. -/
theorem tdiv_mul_bounds {m : ℕ} (hm : 0 < m) (x : ℤ) {P : ℤ} (hP : P ≠ 0) :
    ((m * x).tdiv P - m * x.tdiv P).natAbs < m ∧
      (m * x.tdiv P).natAbs ≤ ((m * x).tdiv P).natAbs := by
  -- reduce to a non-negative dividend and a positive divisor: negating either
  -- negates both results
  obtain ⟨a, rfl | rfl⟩ := Int.eq_nat_or_neg x <;> obtain ⟨b, rfl | rfl⟩ := Int.eq_nat_or_neg P
  all_goals
    have hb : 0 < b := by omega
    obtain ⟨hlo, hhi⟩ := mul_div_bounds hm a hb
    simp only [Int.mul_neg, Int.neg_tdiv, Int.tdiv_neg, Int.neg_neg, ← Int.natCast_mul,
      ← Int.ofNat_tdiv]
    generalize m * a / b = N at hlo hhi ⊢
    generalize m * (a / b) = MQ at hlo hhi ⊢
    omega

/-- A ratio `p / t` in `[0, 1]`, scaled by `k` and truncated, lies in `[0, k]`. -/
theorem tdiv_mul_bounds_of_le {p t k : ℤ} (hp : 0 ≤ p) (hpt : p ≤ t) (ht : 0 < t) (hk : 0 ≤ k) :
    0 ≤ (p * k).tdiv t ∧ (p * k).tdiv t ≤ k := by
  rw [Int.tdiv_eq_ediv_of_nonneg (Int.mul_nonneg hp hk)]
  refine ⟨Int.ediv_nonneg (Int.mul_nonneg hp hk) (Int.le_of_lt ht), Int.ediv_le_of_le_mul ht ?_⟩
  calc p * k ≤ t * k := Int.mul_le_mul_of_nonneg_right hpt hk
    _ = k * t := Int.mul_comm t k

/-! ### Rounded weighted means -/

section Mean

variable {w a : ℤ}

/-- Rounding two terms down on their own loses against rounding their sum. -/
theorem ediv_add_ediv_le (hw : 0 < w) (p q : ℤ) : p / w + q / w ≤ (p + q) / w := by
  rw [Int.le_ediv_iff_mul_le hw, Int.add_mul]
  have hp := Int.ediv_mul_le p (Int.ne_of_gt hw)
  have hq := Int.ediv_mul_le q (Int.ne_of_gt hw)
  omega

theorem mean_nonneg (hw : 0 < w) (ha₀ : 0 ≤ a) (ha₁ : a ≤ w) {x y : ℤ} (hx : 0 ≤ x) (hy : 0 ≤ y) :
    0 ≤ (w - a) * x / w + a * y / w := by
  have h₁ := Int.ediv_nonneg (Int.mul_nonneg (Int.sub_nonneg.2 ha₁) hx) (Int.le_of_lt hw)
  have h₂ := Int.ediv_nonneg (Int.mul_nonneg ha₀ hy) (Int.le_of_lt hw)
  omega

theorem mean_le (hw : 0 < w) (ha₀ : 0 ≤ a) (ha₁ : a ≤ w) {x y B : ℤ} (hx : x ≤ B) (hy : y ≤ B) :
    (w - a) * x / w + a * y / w ≤ B := by
  have hxB : (w - a) * x ≤ (w - a) * B := Int.mul_le_mul_of_nonneg_left hx (Int.sub_nonneg.2 ha₁)
  have hyB : a * y ≤ a * B := Int.mul_le_mul_of_nonneg_left hy ha₀
  have hsum : (w - a) * B + a * B = B * w := by rw [← Int.add_mul, Int.sub_add_cancel, Int.mul_comm]
  calc (w - a) * x / w + a * y / w ≤ ((w - a) * x + a * y) / w := ediv_add_ediv_le hw _ _
    _ ≤ (B * w) / w := Int.ediv_le_ediv hw (by omega)
    _ = B := Int.mul_ediv_cancel B (Int.ne_of_gt hw)

theorem mean_mono (hw : 0 < w) (ha₀ : 0 ≤ a) (ha₁ : a ≤ w) {x y x' y' : ℤ} (hx : x ≤ x') (hy : y ≤ y') :
    (w - a) * x / w + a * y / w ≤ (w - a) * x' / w + a * y' / w := by
  have h₁ := Int.ediv_le_ediv hw (Int.mul_le_mul_of_nonneg_left hx (Int.sub_nonneg.2 ha₁))
  have h₂ := Int.ediv_le_ediv hw (Int.mul_le_mul_of_nonneg_left hy ha₀)
  omega

end Mean

end Synapse.Theory
