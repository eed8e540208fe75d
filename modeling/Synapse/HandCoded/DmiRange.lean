import Synapse.HandCoded.Indicators
import Synapse.Click.DirectionalMovement
import Synapse.Theory.TruncDiv

/-!
# What the hand-coded `Dmi` computes

The bounds of the directional movement index: on bars with `0 ≤ low ≤ close ≤
high`, each directional movement is at most the true range, the averages keep that
order, so `pdi` and `ndi` lie in `[0, 1]`, `dx` in `[0, 100]`, and so does its
average, the value `calculate_value` returns. Where the smoothed true range is zero
the code divides by it.

## The model

A word `x` is read through `x.value.toInt`. The bounds need the averaging weight
`alfa` in `[0, 1]` (`AlfaOk`), which the constructor's `2 / (ewma_periods + 1)`
gives for `1 ≤ ewma_periods ≤ 2 ^ 23 - 2`; with a larger period `ewma_periods + 1`
wraps.

## What is proved

* `Dmi.Inv`: the invariant of the committed state, kept by every call that returns
  (`Dmi.Inv.calculateValue`); `dmi_in_range` over every run after `initialize`.
* `flat_bar_divides_by_zero`: a bar equal to the one given to `initialize` makes
  the smoothed true range zero, and `calculate_value` divides by it.
* `directional_movement_ties`: `Pdm`, `Ndm` and the hand-coded `calculate_pdm` and
  `calculate_ndm` agree with `calculate_dm` but on a bar whose two movements are
  equal and positive, where all four keep the movement.
* `dmi_wrapped_alfa`: with `ewma_periods = 2 ^ 23 - 1` a returned value exceeds
  `100`.
-/

namespace Synapse.HandCoded

open Click FixedPt Theory

/-- A bar as the claims take it: `0 ≤ low ≤ close ≤ high` on the words. -/
structure BarOk (close high low : FixedPt) : Prop where
  low_nonneg : 0 ≤ low.value.toInt
  low_le_close : low.value.toInt ≤ close.value.toInt
  close_le_high : close.value.toInt ≤ high.value.toInt

instance (close high low : FixedPt) : Decidable (BarOk close high low) :=
  decidable_of_iff (0 ≤ low.value.toInt ∧ low.value.toInt ≤ close.value.toInt ∧ close.value.toInt ≤ high.value.toInt)
    ⟨fun ⟨h₁, h₂, h₃⟩ => ⟨h₁, h₂, h₃⟩, fun ⟨h₁, h₂, h₃⟩ => ⟨h₁, h₂, h₃⟩⟩

/-- An averaging weight in `[0, 1]`. -/
def AlfaOk (alfa : FixedPt) : Prop := 0 ≤ alfa.value.toInt ∧ alfa.value.toInt ≤ 2 ^ 40

/-! ### The movements of a bar -/

section Movements

variable {prevClose prevHigh prevLow close high low : FixedPt}

/-- `calculate_pdm` against a previous bar: `0`, or the rise of the high. -/
theorem toInt_calculatePdm (hp : BarOk prevClose prevHigh prevLow) (hb : BarOk close high low) :
    (calculatePdm low prevLow high prevHigh).value.toInt = 0 ∨
      ((calculatePdm low prevLow high prevHigh).value.toInt = high.value.toInt - prevHigh.value.toInt ∧
        0 ≤ high.value.toInt - prevHigh.value.toInt) := by
  have hup := toInt_sub_of_nonneg (a := high) (b := prevHigh) (by have := hb.1; have := hb.2; have := hb.3; omega)
    (by have := hp.1; have := hp.2; have := hp.3; omega)
  unfold calculatePdm
  split_ifs with h₁ h₂
  · exact Or.inl rfl
  · exact Or.inl rfl
  · rw [lt_iff_toInt] at h₁ h₂
    rw [toInt_value_fromInt (by decide) (by decide)] at h₂
    omega

/-- `calculate_ndm` against a previous bar: `0`, or the fall of the low. -/
theorem toInt_calculateNdm (hp : BarOk prevClose prevHigh prevLow) (hb : BarOk close high low) :
    (calculateNdm low prevLow high prevHigh).value.toInt = 0 ∨
      ((calculateNdm low prevLow high prevHigh).value.toInt = prevLow.value.toInt - low.value.toInt ∧
        0 ≤ prevLow.value.toInt - low.value.toInt) := by
  have hdown := toInt_sub_of_nonneg (a := prevLow) (b := low) hp.1 hb.1
  unfold calculateNdm
  split_ifs with h₁ h₂
  · exact Or.inl rfl
  · exact Or.inl rfl
  · rw [lt_iff_toInt] at h₁ h₂
    rw [toInt_value_fromInt (by decide) (by decide)] at h₂
    omega

/-- The true range is at least each of the three differences it takes the largest
of. -/
theorem le_toInt_calculateTr (hp : BarOk prevClose prevHigh prevLow) (hb : BarOk close high low) :
    prevClose.value.toInt - low.value.toInt ≤ (calculateTr low high prevClose).value.toInt ∧
      high.value.toInt - low.value.toInt ≤ (calculateTr low high prevClose).value.toInt ∧
      high.value.toInt - prevClose.value.toInt ≤ (calculateTr low high prevClose).value.toInt := by
  have hpc : 0 ≤ prevClose.value.toInt := by have := hp.1; have := hp.2; omega
  have hh : 0 ≤ high.value.toInt := by have := hb.1; have := hb.2; have := hb.3; omega
  have h₁ := toInt_sub_of_nonneg hpc hb.1
  have h₂ := toInt_sub_of_nonneg hh hb.1
  have h₃ := toInt_sub_of_nonneg hh hpc
  unfold calculateTr fptMax
  simp only [lt_iff_toInt]
  split_ifs <;> omega

/-- **Each movement is at most the true range**, for the movements and the true
range of `Pdm`, `Ndm` and `NewTrueRange` against a previous bar. -/
theorem movements_le (hp : BarOk prevClose prevHigh prevLow) (hb : BarOk close high low) :
    0 ≤ (calculatePdm low prevLow high prevHigh).value.toInt ∧
      (calculatePdm low prevLow high prevHigh).value.toInt ≤ (calculateTr low high prevClose).value.toInt ∧
      0 ≤ (calculateNdm low prevLow high prevHigh).value.toInt ∧
      (calculateNdm low prevLow high prevHigh).value.toInt ≤ (calculateTr low high prevClose).value.toInt := by
  have hpdm := toInt_calculatePdm hp hb
  have hndm := toInt_calculateNdm hp hb
  obtain ⟨htr₁, htr₂, htr₃⟩ := le_toInt_calculateTr hp hb
  have := hp.2
  have := hp.3
  have := hb.2
  have := hb.3
  omega

/-- The hand-coded movements are those of the Click elements against the previous
bar, so they keep the same order. -/
theorem Dmi.movements_le (d : Dmi) (hp : BarOk d.prevClose d.prevHigh d.prevLow) (hb : BarOk close high low) :
    0 ≤ (d.calculatePdm high low).value.toInt ∧
      (d.calculatePdm high low).value.toInt ≤ (d.calculateTr close high low).value.toInt ∧
      0 ≤ (d.calculateNdm high low).value.toInt ∧
      (d.calculateNdm high low).value.toInt ≤ (d.calculateTr close high low).value.toInt :=
  Synapse.HandCoded.movements_le hp hb

end Movements

/-! ### The averages -/

namespace EwmaHc

@[simp] theorem lastValue_calculateNewValue (e : EwmaHc) (update : FixedPt) :
    (e.calculateNewValue update).2.lastValue = if e.initialized then e.lastValue else update := by
  cases h : e.initialized
  · rw [calculateNewValue_of_not_initialized h]
    rfl
  · rw [calculateNewValue_of_initialized h]
    rfl

/-- `(1 - alfa) * update + alfa * last` on the words: the rounded weighted mean. -/
theorem toInt_mean {alfa : FixedPt} (ha : AlfaOk alfa) {x y : FixedPt} (hx : 0 ≤ x.value.toInt)
    (hy : 0 ≤ y.value.toInt) :
    (((1 : ℤ) - alfa) * x + alfa * y).value.toInt =
      (2 ^ 40 - alfa.value.toInt) * x.value.toInt / 2 ^ 40 + alfa.value.toInt * y.value.toInt / 2 ^ 40 := by
  obtain ⟨ha₀, ha₁⟩ := ha
  have hx' := x.value.toInt_lt
  have hy' := y.value.toInt_lt
  have hone : ((1 : ℤ) - alfa).value.toInt = 2 ^ 40 - alfa.value.toInt := by
    show (fromInt 1 - alfa).value.toInt = _
    rw [toInt_sub_of_inRange (by rw [toInt_value_fromInt (by decide) (by decide)]; constructor <;> omega),
      toInt_value_fromInt (by decide) (by decide)]
    rfl
  -- each rounded product lies between `0` and the value it scales
  have hp₀ := Int.ediv_nonneg (Int.mul_nonneg (Int.sub_nonneg.2 ha₁) hx) (by decide : (0 : ℤ) ≤ 2 ^ 40)
  have hq₀ := Int.ediv_nonneg (Int.mul_nonneg ha₀ hy) (by decide : (0 : ℤ) ≤ 2 ^ 40)
  have hmean := mean_le (w := 2 ^ 40) (by decide) ha₀ ha₁ (x := x.value.toInt) (y := y.value.toInt)
    (B := 2 ^ 63 - 1) (by omega) (by omega)
  have hm₁ : (((1 : ℤ) - alfa) * x).value.toInt = (2 ^ 40 - alfa.value.toInt) * x.value.toInt / 2 ^ 40 := by
    rw [toInt_mul_of_inRange (by rw [hone]; constructor <;> omega), hone]
  have hm₂ : (alfa * y).value.toInt = alfa.value.toInt * y.value.toInt / 2 ^ 40 := by
    rw [toInt_mul_of_inRange (by constructor <;> omega)]
  rw [toInt_add_of_inRange (by rw [hm₁, hm₂]; constructor <;> omega), hm₁, hm₂]

theorem toInt_calculateNewValue {e : EwmaHc} (ha : AlfaOk e.alfa) {update : FixedPt}
    (hu : 0 ≤ update.value.toInt) (hl : 0 ≤ e.lastValue.value.toInt) :
    (e.calculateNewValue update).1.value.toInt =
      if e.initialized then
        (2 ^ 40 - e.alfa.value.toInt) * update.value.toInt / 2 ^ 40 +
          e.alfa.value.toInt * e.lastValue.value.toInt / 2 ^ 40
      else update.value.toInt := by
  cases h : e.initialized
  · rw [calculateNewValue_of_not_initialized h]
    rfl
  · rw [calculateNewValue_of_initialized h, toInt_mean ha hu hl]
    rfl

/-- An average of values in `[0, B]` lies in `[0, B]`. -/
theorem calculateNewValue_bounds {e : EwmaHc} (ha : AlfaOk e.alfa) {update : FixedPt} {B : ℤ}
    (hu : 0 ≤ update.value.toInt ∧ update.value.toInt ≤ B)
    (hl : 0 ≤ e.lastValue.value.toInt ∧ e.lastValue.value.toInt ≤ B) :
    0 ≤ (e.calculateNewValue update).1.value.toInt ∧ (e.calculateNewValue update).1.value.toInt ≤ B := by
  rw [toInt_calculateNewValue ha hu.1 hl.1]
  split
  · exact ⟨mean_nonneg (by decide) ha.1 ha.2 hu.1 hl.1, mean_le (by decide) ha.1 ha.2 hu.2 hl.2⟩
  · exact hu

/-- Two averages with one weight, one flag and ordered last values keep the order
of their updates. -/
theorem calculateNewValue_mono {e f : EwmaHc} (ha : AlfaOk e.alfa) (hα : f.alfa = e.alfa)
    (hinit : f.initialized = e.initialized) {u v : FixedPt} (hu : 0 ≤ u.value.toInt)
    (huv : u.value.toInt ≤ v.value.toInt) (hl : 0 ≤ e.lastValue.value.toInt)
    (hlf : e.lastValue.value.toInt ≤ f.lastValue.value.toInt) :
    (e.calculateNewValue u).1.value.toInt ≤ (f.calculateNewValue v).1.value.toInt := by
  rw [toInt_calculateNewValue ha hu hl, toInt_calculateNewValue (hα ▸ ha) (by omega) (by omega), hinit, hα]
  split
  · exact mean_mono (by decide) ha.1 ha.2 huv hlf
  · exact huv

/-- Two averages with the weight `alfa` and one flag, the last value of the first
between `0` and that of the second: how `Dmi` keeps its smoothed movements against
its smoothed true range. -/
structure Below (alfa : FixedPt) (e f : EwmaHc) : Prop where
  alfa_left : e.alfa = alfa
  alfa_right : f.alfa = alfa
  init : e.initialized = f.initialized
  nonneg : 0 ≤ e.lastValue.value.toInt
  le : e.lastValue.value.toInt ≤ f.lastValue.value.toInt

/-- Averaging two ordered updates keeps the order, of the values and of the states. -/
theorem Below.calculateNewValue {alfa : FixedPt} {e f : EwmaHc} (h : Below alfa e f) (ha : AlfaOk alfa)
    {u v : FixedPt} (hu : 0 ≤ u.value.toInt) (huv : u.value.toInt ≤ v.value.toInt) :
    0 ≤ (e.calculateNewValue u).1.value.toInt ∧
      (e.calculateNewValue u).1.value.toInt ≤ (f.calculateNewValue v).1.value.toInt ∧
      Below alfa (e.calculateNewValue u).2 (f.calculateNewValue v).2 := by
  have hae : AlfaOk e.alfa := h.alfa_left ▸ ha
  refine ⟨(calculateNewValue_bounds hae ⟨hu, Int.le_of_lt u.value.toInt_lt⟩
      ⟨h.nonneg, Int.le_of_lt e.lastValue.value.toInt_lt⟩).1,
    calculateNewValue_mono hae (h.alfa_right.trans h.alfa_left.symm) h.init.symm hu huv h.nonneg h.le, ?_⟩
  refine ⟨by rw [alfa_calculateNewValue, h.alfa_left], by rw [alfa_calculateNewValue, h.alfa_right],
    by rw [initialized_calculateNewValue, initialized_calculateNewValue], ?_, ?_⟩
  · rw [lastValue_calculateNewValue]
    split
    · exact h.nonneg
    · exact hu
  · rw [lastValue_calculateNewValue, lastValue_calculateNewValue, ← h.init]
    split
    · exact h.le
    · exact huv

theorem Below.setLastValue {alfa : FixedPt} {e f : EwmaHc} (h : Below alfa e f) {x y : FixedPt}
    (hx : 0 ≤ x.value.toInt) (hxy : x.value.toInt ≤ y.value.toInt) :
    Below alfa (e.setLastValue x) (f.setLastValue y) :=
  ⟨h.alfa_left, h.alfa_right, rfl, hx, hxy⟩

end EwmaHc

/-! ### The invariant -/

/-- What every call of `calculate_value` that returns keeps of a `Dmi` built with
the weight `alfa`: the previous bar is a bar, the smoothed movements lie between
`0` and the smoothed true range, and the average of `dx` in `[0, 100]`. -/
structure Dmi.Inv (alfa : FixedPt) (d : Dmi) : Prop where
  alfaOk : AlfaOk alfa
  prev : BarOk d.prevClose d.prevHigh d.prevLow
  pdm : EwmaHc.Below alfa d.ewmaPdm d.ewmaTr
  ndm : EwmaHc.Below alfa d.ewmaNdm d.ewmaTr
  alfa_dx : d.ewmaDx.alfa = alfa
  dx_nonneg : 0 ≤ d.ewmaDx.lastValue.value.toInt
  dx_le : d.ewmaDx.lastValue.value.toInt ≤ 100 * 2 ^ 40

section Step

variable {alfa : FixedPt} {d d₁ : Dmi} {close high low : FixedPt}

/-- **Smoothing keeps the order.** The smoothed movements lie between `0` and the
smoothed true range, and the averages after `calculate_new_value` keep the
invariant. -/
theorem Dmi.Inv.smooth (h : d.Inv alfa) (hb : BarOk close high low) {pS nS tS : FixedPt}
    (hs : d.smooth close high low = ((pS, nS, tS), d₁)) :
    0 ≤ pS.value.toInt ∧ pS.value.toInt ≤ tS.value.toInt ∧ 0 ≤ nS.value.toInt ∧
      nS.value.toInt ≤ tS.value.toInt ∧ d₁.Inv alfa ∧ d₁.ewmaDx = d.ewmaDx := by
  obtain ⟨hp₀, hpt, hn₀, hnt⟩ := d.movements_le h.prev hb
  obtain ⟨hpS₀, hpS, hpdm⟩ := h.pdm.calculateNewValue h.alfaOk hp₀ hpt
  obtain ⟨hnS₀, hnS, hndm⟩ := h.ndm.calculateNewValue h.alfaOk hn₀ hnt
  simp only [Dmi.smooth, Prod.mk.injEq] at hs
  obtain ⟨⟨rfl, rfl, rfl⟩, rfl⟩ := hs
  exact ⟨hpS₀, hpS, hnS₀, hnS, ⟨h.alfaOk, h.prev, hpdm, hndm, h.alfa_dx, h.dx_nonneg, h.dx_le⟩, rfl⟩

/-- `pdi` and `ndi`: a smoothed movement over the smoothed true range lies in
`[0, 1]`. -/
theorem toInt_div_of_le {p t : FixedPt} (hp : 0 ≤ p.value.toInt) (hpt : p.value.toInt ≤ t.value.toInt)
    (ht : t.value ≠ 0) : 0 ≤ (p / t).value.toInt ∧ (p / t).value.toInt ≤ 2 ^ 40 := by
  have ht' : 0 < t.value.toInt := by
    have := (value_eq_zero_iff t).not.1 ht
    omega
  obtain ⟨hq₀, hq⟩ := tdiv_mul_bounds_of_le hp hpt ht' (by decide : (0 : ℤ) ≤ 2 ^ 40)
  rw [toInt_div_of_inRange ⟨by omega, by omega⟩]
  exact ⟨hq₀, hq⟩

/-- `dx`: `100 * abs (pdi - ndi) / (pdi + ndi)` lies in `[0, 100]`. -/
theorem toInt_dx {pdi ndi : FixedPt} (hp : 0 ≤ pdi.value.toInt ∧ pdi.value.toInt ≤ 2 ^ 40)
    (hn : 0 ≤ ndi.value.toInt ∧ ndi.value.toInt ≤ 2 ^ 40) (hs : (pdi + ndi).value ≠ 0) :
    0 ≤ ((100 : ℤ) * fptAbs (pdi - ndi) / (pdi + ndi)).value.toInt ∧
      ((100 : ℤ) * fptAbs (pdi - ndi) / (pdi + ndi)).value.toInt ≤ 100 * 2 ^ 40 := by
  have hsum : (pdi + ndi).value.toInt = pdi.value.toInt + ndi.value.toInt :=
    toInt_add_of_inRange ⟨by omega, by omega⟩
  have hsum₀ : 0 < (pdi + ndi).value.toInt := by
    have := (value_eq_zero_iff _).not.1 hs
    omega
  have hdiff := toInt_sub_of_nonneg hp.1 hn.1
  have habs : (fptAbs (pdi - ndi)).value.toInt = ((pdi.value.toInt - ndi.value.toInt).natAbs : ℤ) := by
    rw [toInt_fptAbs (by omega), hdiff]
  have h100 : ((100 : ℤ) * fptAbs (pdi - ndi)).value.toInt = 100 * (pdi.value.toInt - ndi.value.toInt).natAbs := by
    rw [toInt_intMul (by decide) (by decide) (by rw [habs]; constructor <;> omega), habs]
  -- the absolute difference of two values in `[0, 1]` is at most their sum
  have hle : ((pdi.value.toInt - ndi.value.toInt).natAbs : ℤ) ≤ (pdi + ndi).value.toInt := by omega
  obtain ⟨hq₀, hq⟩ := tdiv_mul_bounds_of_le (k := 100 * 2 ^ 40) (by omega) hle hsum₀ (by decide)
  have hnum : ((100 : ℤ) * fptAbs (pdi - ndi)).value.toInt * 2 ^ 40 =
      ((pdi.value.toInt - ndi.value.toInt).natAbs : ℤ) * (100 * 2 ^ 40) := by
    rw [h100, Int.mul_comm 100, Int.mul_assoc]
  rw [toInt_div_of_inRange (by rw [hnum]; constructor <;> omega), hnum]
  exact ⟨hq₀, hq⟩

/-- The average of `dx` after a call lies in `[0, 100]`, with its state. -/
theorem Dmi.Inv.ewmaDx (h : d.Inv alfa) {v : FixedPt}
    (hdx : 0 ≤ v.value.toInt ∧ v.value.toInt ≤ 100 * 2 ^ 40) :
    0 ≤ (d.ewmaDx.calculateNewValue v).1.value.toInt ∧
      (d.ewmaDx.calculateNewValue v).1.value.toInt ≤ 100 * 2 ^ 40 ∧
      0 ≤ (d.ewmaDx.calculateNewValue v).2.lastValue.value.toInt ∧
      (d.ewmaDx.calculateNewValue v).2.lastValue.value.toInt ≤ 100 * 2 ^ 40 := by
  obtain ⟨hr₀, hr⟩ := EwmaHc.calculateNewValue_bounds (h.alfa_dx ▸ h.alfaOk) hdx ⟨h.dx_nonneg, h.dx_le⟩
  refine ⟨hr₀, hr, ?_⟩
  rw [EwmaHc.lastValue_calculateNewValue]
  split
  · exact ⟨h.dx_nonneg, h.dx_le⟩
  · exact hdx

/-- **One call keeps the invariant.** A call of `calculate_value` on a bar that
returns leaves a state with the invariant and returns a value in `[0, 100]`. -/
theorem Dmi.Inv.calculateValue (h : d.Inv alfa) (hb : BarOk close high low) {ty : UpdateType} {d' : Dmi}
    {r : FixedPt} (hcv : d.calculateValue close high low ty = some (d', r)) :
    d'.Inv alfa ∧ 0 ≤ r.value.toInt ∧ r.value.toInt ≤ 100 * 2 ^ 40 := by
  unfold Dmi.calculateValue at hcv
  rcases hs : d.smooth close high low with ⟨⟨pS, nS, tS⟩, d₁⟩
  obtain ⟨hp₀, hpt, hn₀, hnt, h₁, -⟩ := h.smooth hb hs
  rw [hs] at hcv
  obtain ⟨pdi, hpdi, hrest⟩ := Option.bind_eq_some_iff.1 hcv
  obtain ⟨ndi, hndi, heq⟩ := Option.map_eq_some_iff.1 hrest
  obtain ⟨ht, rfl⟩ := div?_eq_some hpdi
  obtain ⟨-, rfl⟩ := div?_eq_some hndi
  dsimp only at heq
  -- the average of `dx` as a pair, so that the case splits leave it folded
  have halfa := EwmaHc.alfa_calculateNewValue d₁.ewmaDx ((100 : ℤ) * fptAbs (pS / tS - nS / tS) / (pS / tS + nS / tS))
  have hdxAvg := h₁.ewmaDx (v := (100 : ℤ) * fptAbs (pS / tS - nS / tS) / (pS / tS + nS / tS))
  generalize d₁.ewmaDx.calculateNewValue ((100 : ℤ) * fptAbs (pS / tS - nS / tS) / (pS / tS + nS / tS)) = c
    at heq halfa hdxAvg
  obtain ⟨res, eDx⟩ := c
  by_cases hsum : (pS / tS + nS / tS).value = 0
  · -- `pdi + ndi` is zero: `0` is returned and nothing committed
    rw [if_pos hsum] at heq
    obtain ⟨rfl, rfl⟩ := Prod.mk.inj heq
    exact ⟨h₁, by decide, by decide⟩
  · rw [if_neg hsum] at heq
    obtain ⟨hr₀, hr, hl₀, hl⟩ := hdxAvg (toInt_dx (toInt_div_of_le hp₀ hpt ht) (toInt_div_of_le hn₀ hnt ht) hsum)
    by_cases hty : ty = .ADD
    · -- an `ADD` commits the bar and the four averages
      rw [if_pos hty] at heq
      obtain ⟨rfl, rfl⟩ := Prod.mk.inj heq
      exact ⟨⟨h₁.alfaOk, hb, h₁.pdm.setLastValue hp₀ hpt, h₁.ndm.setLastValue hn₀ hnt,
        by rw [EwmaHc.alfa_setLastValue, halfa, h₁.alfa_dx], hr₀, hr⟩, hr₀, hr⟩
    · rw [if_neg hty] at heq
      obtain ⟨rfl, rfl⟩ := Prod.mk.inj heq
      exact ⟨⟨h₁.alfaOk, h₁.prev, h₁.pdm, h₁.ndm, by rw [halfa, h₁.alfa_dx], hl₀, hl⟩, hr₀, hr⟩

end Step

/-! ### Runs -/

/-- A call of `calculate_value`: a bar and the update type. -/
structure DmiCall where
  /-- `update_close`. -/
  close : FixedPt
  /-- `update_high`. -/
  high : FixedPt
  /-- `update_low`. -/
  low : FixedPt
  /-- `update_type`. -/
  updateType : UpdateType

/-- One call. -/
def Dmi.step (d : Dmi) (c : DmiCall) : Option (Dmi × FixedPt) :=
  d.calculateValue c.close c.high c.low c.updateType

/-- The constructor's weight lies in `[0, 1]` while `ewma_periods + 1` does not wrap. -/
theorem alfaOk_alfaOfPeriods {n : ℤ} (hn₁ : 1 ≤ n) (hn₂ : n ≤ 2 ^ 23 - 2) : AlfaOk (alfaOfPeriods n) := by
  have h₂ : (fromInt 2).value.toInt = 2 * 2 ^ 40 := toInt_value_fromInt (by decide) (by decide)
  have hsum : (fromInt n + fromInt 1).value.toInt = n * 2 ^ 40 + 2 ^ 40 := by
    rw [toInt_add_of_inRange, toInt_value_fromInt (by omega) (by omega), toInt_value_fromInt (by decide) (by decide),
      Int.one_mul]
    rw [toInt_value_fromInt (by omega) (by omega), toInt_value_fromInt (by decide) (by decide)]
    constructor <;> omega
  obtain ⟨hq₀, hq⟩ := tdiv_mul_bounds_of_le (p := 2 * 2 ^ 40) (t := n * 2 ^ 40 + 2 ^ 40) (k := 2 ^ 40)
    (by decide) (by omega) (by omega) (by decide)
  unfold AlfaOk alfaOfPeriods
  rw [toInt_div_of_inRange (by rw [h₂, hsum]; constructor <;> omega), h₂, hsum]
  exact ⟨hq₀, hq⟩

/-- A fresh average with the weight `alfa` is below itself. -/
theorem EwmaHc.below_new (alfa : FixedPt) : Below alfa (EwmaHc.new.setAlfa alfa) (EwmaHc.new.setAlfa alfa) := by
  have h0 : (0 : ℤ) ≤ (fromInt 0).value.toInt := by decide
  exact ⟨rfl, rfl, rfl, h0, Int.le_refl _⟩

/-- `initialize` gives the invariant: the bar is the previous one and the averages
have no value yet. -/
theorem Dmi.initial_inv {n : ℤ} (ha : AlfaOk (alfaOfPeriods n)) {close high low : FixedPt}
    (hb : BarOk close high low) : ( Dmi.initialize (Dmi.new n) close high low).Inv (alfaOfPeriods n) := by
  have hdx : (0 : ℤ) ≤ (fromInt 0).value.toInt ∧ (fromInt 0).value.toInt ≤ 100 * 2 ^ 40 := by decide
  exact ⟨ha, hb, EwmaHc.below_new _, EwmaHc.below_new _, rfl, hdx.1, hdx.2⟩

/-- **The DMI stays in range.** With `1 ≤ ewma_periods ≤ 2 ^ 23 - 2`, after
`initialize` with a bar, every run of `calculate_value` calls on bars, `ADD` and
`UPDATE` in any order, that returns (no division by zero) keeps the invariant —
each smoothed movement between `0` and the smoothed true range, so `pdi` and `ndi`
in `[0, 1]` — and returns values in `[0, 100]`. -/
theorem dmi_in_range (n : ℤ) (hn₁ : 1 ≤ n) (hn₂ : n ≤ 2 ^ 23 - 2) {close high low : FixedPt}
    (hb : BarOk close high low) (calls : List DmiCall) (hcalls : ∀ c ∈ calls, BarOk c.close c.high c.low)
    {d' : Dmi} {outs : List FixedPt}
    (hrun : runSteps Dmi.step ( Dmi.initialize (Dmi.new n) close high low) calls = some (d', outs)) :
    d'.Inv (alfaOfPeriods n) ∧ ∀ r ∈ outs, 0 ≤ r.value.toInt ∧ r.value.toInt ≤ (fromInt 100).value.toInt := by
  have ha := alfaOk_alfaOfPeriods hn₁ hn₂
  have h100 : (fromInt 100).value.toInt = 100 * 2 ^ 40 := toInt_value_fromInt (by decide) (by decide)
  have hstep : ∀ (s : Dmi) (c : DmiCall) (s' : Dmi) (r : FixedPt), s.Inv (alfaOfPeriods n) →
      BarOk c.close c.high c.low → Dmi.step s c = some (s', r) →
      s'.Inv (alfaOfPeriods n) ∧ 0 ≤ r.value.toInt ∧ r.value.toInt ≤ 100 * 2 ^ 40 :=
    fun _ _ _ _ hs hc h => hs.calculateValue hc h
  rw [h100]
  exact runSteps_inv _ _ (fun r : FixedPt => 0 ≤ r.value.toInt ∧ r.value.toInt ≤ 100 * 2 ^ 40) hstep calls _ d' outs
    (Dmi.initial_inv ha hb) hcalls hrun

/-- **A weight past `1`.** With `ewma_periods = 2 ^ 23 - 1`, `ewma_periods + 1`
wraps to `-2 ^ 23` and `alfa` is negative; after `initialize` with `10`, an `ADD` of
the bar `9, 10, 9` returns `100`, and an `UPDATE` of `11, 11, 9` more than `100`. -/
theorem dmi_wrapped_alfa :
    BarOk (fromInt 10) (fromInt 10) (fromInt 10) ∧ BarOk (fromInt 9) (fromInt 10) (fromInt 9) ∧
      BarOk (fromInt 11) (fromInt 11) (fromInt 9) ∧
      (runSteps Dmi.step ( Dmi.initialize (Dmi.new (2 ^ 23 - 1)) (fromInt 10) (fromInt 10) (fromInt 10))
        [⟨fromInt 9, fromInt 10, fromInt 9, .ADD⟩, ⟨fromInt 11, fromInt 11, fromInt 9, .UPDATE⟩]).map (·.2) =
        some [fromInt 100, fromC 109951215206018] ∧
      (fromInt 100).value.toInt < (fromC 109951215206018).value.toInt :=
  ⟨⟨by decide, by decide, by decide⟩, ⟨by decide, by decide, by decide⟩, ⟨by decide, by decide, by decide⟩,
    by decide, by decide⟩

/-! ### A flat bar -/

/-- **A flat bar divides by zero.** For every period and every price `x`, after
`initialize` with the bar `x, x, x`, the same bar has true range zero; the averages
have no value yet and take it, so the smoothed true range is zero and
`calculate_value` divides by it, as an `ADD` or an `UPDATE`. -/
theorem flat_bar_divides_by_zero (n : ℤ) (x : FixedPt) (ty : UpdateType) :
    (( Dmi.initialize (Dmi.new n) x x x).smooth x x x).1.2.2.value = 0 ∧
      ( Dmi.initialize (Dmi.new n) x x x).calculateValue x x x ty = none := by
  have hxx : (x - x).value = 0 := Int64.sub_self _
  have htr : (( Dmi.initialize (Dmi.new n) x x x).calculateTr x x x).value = 0 := by
    unfold Dmi.calculateTr SynapseHC.max
    split_ifs <;> exact hxx
  -- the averages have no value yet, so each smoothed value is the movement itself
  have hsmooth : (( Dmi.initialize (Dmi.new n) x x x).smooth x x x).1.2.2 =
      ( Dmi.initialize (Dmi.new n) x x x).calculateTr x x x := by
    simp only [Dmi.smooth]
    rw [EwmaHc.calculateNewValue_of_not_initialized rfl]
  have htS : (( Dmi.initialize (Dmi.new n) x x x).smooth x x x).1.2.2.value = 0 := by rw [hsmooth, htr]
  refine ⟨htS, ?_⟩
  rcases hs : ( Dmi.initialize (Dmi.new n) x x x).smooth x x x with ⟨⟨pS, nS, tS⟩, d₁⟩
  rw [hs] at htS
  unfold Dmi.calculateValue
  rw [hs]
  dsimp only
  rw [div?_of_eq htS]
  rfl

/-! ### Directional movement -/

/-- The hand-coded `calculate_pdm` is the body of `Pdm`'s, on the previous bar. -/
theorem Dmi.calculatePdm_eq (d : Dmi) (high low : FixedPt) :
    d.calculatePdm high low = Click.calculatePdm low d.prevLow high d.prevHigh := rfl

/-- The hand-coded `calculate_ndm` is the body of `Ndm`'s, on the previous bar. -/
theorem Dmi.calculateNdm_eq (d : Dmi) (high low : FixedPt) :
    d.calculateNdm high low = Click.calculateNdm low d.prevLow high d.prevHigh := rfl

/-- **Ties.** Against the previous bar of a hand-coded `Dmi` (the one `Pdm` and `Ndm`
see in their windows), `Pdm`, `Ndm` and the hand-coded `calculate_pdm` and
`calculate_ndm` give the movements `calculate_dm` gives, but for a bar whose up and
down movements are equal and positive: there all four keep the movement, so `+DM`
and `-DM` are both positive, while `calculate_dm` makes both `0`. -/
theorem directional_movement_ties (d : Dmi) (high low : FixedPt) :
    let up := (high - d.prevHigh).value
    let down := (d.prevLow - low).value
    let dm := calculateDm d.prevHigh.value d.prevLow.value high.value low.value
    (¬ (up = down ∧ 0 < up) →
      (calculatePdm low d.prevLow high d.prevHigh).value = dm.1 ∧
        (calculateNdm low d.prevLow high d.prevHigh).value = dm.2 ∧
        (d.calculatePdm high low).value = dm.1 ∧ (d.calculateNdm high low).value = dm.2) ∧
    (up = down ∧ 0 < up →
      (calculatePdm low d.prevLow high d.prevHigh).value = up ∧
        (calculateNdm low d.prevLow high d.prevHigh).value = up ∧
        (d.calculatePdm high low).value = up ∧ (d.calculateNdm high low).value = up ∧ dm = (0, 0)) := by
  dsimp only
  have hp := calculatePdm_value low d.prevLow high d.prevHigh
  have hn := calculateNdm_value low d.prevLow high d.prevHigh
  rw [Dmi.calculatePdm_eq, Dmi.calculateNdm_eq]
  constructor
  · intro hnot
    -- the tie of `Ndm` is the same tie, seen from the other movement
    have hnot' : ¬ ((d.prevLow - low).value = (high - d.prevHigh).value ∧ 0 < (d.prevLow - low).value) := by
      rintro ⟨heq, hpos⟩
      rw [heq] at hpos
      exact hnot ⟨heq.symm, hpos⟩
    rw [if_neg hnot] at hp
    rw [if_neg hnot'] at hn
    exact ⟨hp, hn, hp, hn⟩
  · rintro ⟨heq, hpos⟩
    have hpos' : 0 < (d.prevLow - low).value := by rw [← heq]; exact hpos
    rw [if_pos ⟨heq, hpos⟩] at hp
    rw [if_pos ⟨heq.symm, hpos'⟩, ← heq] at hn
    have hdm : calculateDm d.prevHigh.value d.prevLow.value high.value low.value = (0, 0) := by
      simp only [calculateDm, gt_iff_lt]
      rw [← value_sub, ← value_sub, heq]
      simp only [Int64.lt_irrefl, false_and, if_false]
    exact ⟨hp, hn, hp, hn, hdm⟩

end Synapse.HandCoded
