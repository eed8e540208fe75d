import Synapse.Fixedptc

/-!
# `FixedPt`

The C++ wrapper of `fixedpt` that the Click elements compute with
(`include/click/fixedpt_cpp.h`, `lib/fixedpt_cpp.cc`): a word and a validity
flag. The flag is set by the constructors and the operators, and cleared only by
`set_valid (false)`, which `IndicatorBase` reads to decide whether an element's
initial value is sent. A `FixedPt` travels inside a `MsgValue`, flag included.

The operators are the wrapper's: `+`, `-`, `*`, `/` on words through
`fixedptc.h`, comparisons on the signed words, the `int` operands of
`operator+ (int, FixedPt&)`, `operator- (int, FixedPt&)` and
`operator* (int, const FixedPt&)` converted by `fromInt`, and `fpt_abs`. Where
the code divides without a guard, `div?` has no value for a zero divisor.
-/

namespace Synapse.Click

/-- `FixedPt`. -/
structure FixedPt where
  /-- `_value`. -/
  value : Fixedpt
  /-- `_valid`. -/
  valid : Bool
  deriving DecidableEq, Repr

namespace FixedPt

/-- `FixedPt ()`: zero, valid. -/
instance : Inhabited FixedPt := ⟨⟨0, true⟩⟩

/-- `FixedPt::fromInt (value)`. -/
def fromInt (v : ℤ) : FixedPt := ⟨fixedptFromint v, true⟩

/-- `FixedPt::fromC (value)`. -/
def fromC (v : Fixedpt) : FixedPt := ⟨v, true⟩

instance : Add FixedPt := ⟨fun a b => fromC (a.value + b.value)⟩
instance : Sub FixedPt := ⟨fun a b => fromC (a.value - b.value)⟩
instance : Mul FixedPt := ⟨fun a b => fromC (fixedptMul a.value b.value)⟩
instance : Div FixedPt := ⟨fun a b => fromC (fixedptDiv a.value b.value)⟩

/-- `operator+ (const int lhs, FixedPt& rhs)`. -/
instance : HAdd ℤ FixedPt FixedPt := ⟨fun l r => fromInt l + r⟩
/-- `operator- (const int lhs, FixedPt& rhs)`. -/
instance : HSub ℤ FixedPt FixedPt := ⟨fun l r => fromInt l - r⟩
/-- `operator* (const int lhs, const FixedPt& rhs)`. -/
instance : HMul ℤ FixedPt FixedPt := ⟨fun l r => fromInt l * r⟩

/-- `operator<` and `operator>`: the signed words compared. -/
instance : LT FixedPt := ⟨fun a b => a.value < b.value⟩

instance (a b : FixedPt) : Decidable (a < b) := inferInstanceAs (Decidable (a.value < b.value))

/-- `operator/` where the code does not guard it: C leaves a zero divisor undefined,
the model has no value there. -/
def div? (a b : FixedPt) : Option FixedPt := if b.value = 0 then none else some (a / b)

/-- `fpt_abs (value)`: a negative word negated, anything else returned as it is. -/
def fptAbs (v : FixedPt) : FixedPt := if v.value < 0 then fromC (-v.value) else v

@[simp] theorem value_add (a b : FixedPt) : (a + b).value = a.value + b.value := rfl
@[simp] theorem valid_add (a b : FixedPt) : (a + b).valid = true := rfl
@[simp] theorem value_sub (a b : FixedPt) : (a - b).value = a.value - b.value := rfl
@[simp] theorem valid_sub (a b : FixedPt) : (a - b).valid = true := rfl
@[simp] theorem value_mul (a b : FixedPt) : (a * b).value = fixedptMul a.value b.value := rfl
@[simp] theorem value_div (a b : FixedPt) : (a / b).value = fixedptDiv a.value b.value := rfl
@[simp] theorem valid_div (a b : FixedPt) : (a / b).valid = true := rfl
@[simp] theorem value_intMul (n : ℤ) (a : FixedPt) :
    (n * a).value = fixedptMul (fixedptFromint n) a.value := rfl
@[simp] theorem valid_fromInt (v : ℤ) : (fromInt v).valid = true := rfl

theorem lt_def (a b : FixedPt) : a < b ↔ a.value < b.value := Iff.rfl

theorem div?_of_ne {a b : FixedPt} (h : b.value ≠ 0) : a.div? b = some (a / b) := by
  simp [div?, h]

theorem div?_of_eq {a b : FixedPt} (h : b.value = 0) : a.div? b = none := by
  simp [div?, h]

theorem div?_eq_some {a b c : FixedPt} (h : a.div? b = some c) : b.value ≠ 0 ∧ c = a / b := by
  unfold div? at h
  split at h
  · exact absurd h (by simp)
  · next hb => exact ⟨hb, (Option.some.inj h).symm⟩

@[simp] theorem value_fromC (v : Fixedpt) : (fromC v).value = v := rfl
@[simp] theorem valid_fromC (v : Fixedpt) : (fromC v).valid = true := rfl

theorem add_def (a b : FixedPt) : a + b = fromC (a.value + b.value) := rfl
theorem sub_def (a b : FixedPt) : a - b = fromC (a.value - b.value) := rfl

/-! ### Words in range

Where a result lands in the range of `int64_t`, the operators compute on the
words as on integers: `+` and `-` exactly, `*` rounding the product down and `/`
truncating the quotient. -/

theorem lt_iff_toInt (a b : FixedPt) : a < b ↔ a.value.toInt < b.value.toInt := by
  rw [lt_def, Int64.lt_iff_toInt_lt]

theorem value_eq_zero_iff (a : FixedPt) : a.value = 0 ↔ a.value.toInt = 0 := by
  rw [← Int64.toInt_inj, Int64.toInt_zero]

theorem toInt_value_fromInt {n : ℤ} (h₁ : -2 ^ 23 ≤ n) (h₂ : n < 2 ^ 23) :
    (fromInt n).value.toInt = n * 2 ^ 40 :=
  toInt_fixedptFromint h₁ h₂

theorem toInt_add_of_inRange {a b : FixedPt} (h : InRange (a.value.toInt + b.value.toInt)) :
    (a + b).value.toInt = a.value.toInt + b.value.toInt := by
  rw [value_add, Int64.toInt_add, Int.bmod_eq_of_le (by have := h.1; omega) (by have := h.2; omega)]

theorem toInt_sub_of_inRange {a b : FixedPt} (h : InRange (a.value.toInt - b.value.toInt)) :
    (a - b).value.toInt = a.value.toInt - b.value.toInt := by
  rw [value_sub, Int64.toInt_sub, Int.bmod_eq_of_le (by have := h.1; omega) (by have := h.2; omega)]

/-- The difference of two non-negative words is exact. -/
theorem toInt_sub_of_nonneg {a b : FixedPt} (ha : 0 ≤ a.value.toInt) (hb : 0 ≤ b.value.toInt) :
    (a - b).value.toInt = a.value.toInt - b.value.toInt := by
  have := a.value.toInt_lt
  have := b.value.toInt_lt
  exact toInt_sub_of_inRange ⟨by omega, by omega⟩

theorem toInt_mul_of_inRange {a b : FixedPt} (h : InRange (a.value.toInt * b.value.toInt / 2 ^ 40)) :
    (a * b).value.toInt = a.value.toInt * b.value.toInt / 2 ^ 40 := by
  rw [value_mul, fixedptMul_eq, toInt_ofInt_of_inRange h]

theorem toInt_div_of_inRange {a b : FixedPt} (h : InRange ((a.value.toInt * 2 ^ 40).tdiv b.value.toInt)) :
    (a / b).value.toInt = (a.value.toInt * 2 ^ 40).tdiv b.value.toInt :=
  toInt_fixedptDiv h

/-- `operator* (int, const FixedPt&)` is exact while the product is in range. -/
theorem toInt_intMul {n : ℤ} (h₁ : -2 ^ 23 ≤ n) (h₂ : n < 2 ^ 23) {x : FixedPt}
    (h : InRange (n * x.value.toInt)) : (n * x).value.toInt = n * x.value.toInt := by
  rw [value_intMul, toInt_fixedptMul_fromint h₁ h₂ h]

/-- `fpt_abs` of a word other than the least is its absolute value. -/
theorem toInt_fptAbs {a : FixedPt} (h : -2 ^ 63 < a.value.toInt) :
    (fptAbs a).value.toInt = (a.value.toInt.natAbs : ℤ) := by
  unfold fptAbs
  split
  · next hneg =>
    rw [Int64.lt_iff_toInt_lt, Int64.toInt_zero] at hneg
    rw [value_fromC, Int64.toInt_neg, Int.bmod_eq_of_le (by have := a.value.toInt_lt; omega) (by omega)]
    omega
  · next hnonneg =>
    rw [Int64.lt_iff_toInt_lt, Int64.toInt_zero] at hnonneg
    omega

end FixedPt

end Synapse.Click
