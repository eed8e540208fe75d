import Synapse.Click.WindowElements

/-!
# `DirectionalMovement::calculate_dm`

The directional movement of a bar as the `DirectionalMovement` element computes it
(`elements/standard/directional_movement.cc`), on `fixedpt` words: with
`up = current_high - previous_high` and `down = previous_low - current_low`, `+DM`
is `up` when `up > down` and `up > 0`, and `-DM` is `down` when `down > up` and
`down > 0`, each `0` otherwise.

`Pdm` and `Ndm` (and the hand-coded `Dmi`) write the case split as two nested
`<` tests returning `0`, which keep the movement also when the two are equal.

## The model

`calculate_dm`, with its two out-parameters returned as a pair. The element's
`push`, which feeds it the high and low of each symbol's intervals, is modelled in
`DirectionalMovementElement`.

## What is proved

* `nestedMove_value`: the nested tests keep a movement `a` against the other one
  `b` exactly when `b < a` and `0 < a`, or `a = b` and `0 < a`.
* `calculatePdm_value`, `calculateNdm_value`: so `Pdm` and `Ndm` give `calculate_dm`
  but on a bar whose two movements are equal and positive, where both keep it.
* `calculateDm_not_both_pos`: `calculate_dm` itself never keeps both.
-/

namespace Synapse.Click

open FixedPt

/-- `DirectionalMovement::calculate_dm`: `(plus_dm, minus_dm)`. -/
def calculateDm (previousHigh previousLow currentHigh currentLow : Fixedpt) : Fixedpt × Fixedpt :=
  let upMove := currentHigh - previousHigh
  let downMove := previousLow - currentLow
  (if upMove > downMove ∧ upMove > 0 then upMove else 0,
    if downMove > upMove ∧ downMove > 0 then downMove else 0)

/-- The case split of `calculate_pdm` and `calculate_ndm`, for the movement `a` and
the other one `b`: the movement is kept where `calculate_dm` keeps it, and on a
positive tie. -/
theorem nestedMove_value (a b : FixedPt) :
    (if a < b then fromInt 0 else if a < fromInt 0 then fromInt 0 else a).value =
      if a.value = b.value ∧ 0 < a.value then a.value
      else if a.value > b.value ∧ a.value > 0 then a.value else 0 := by
  have h0 : (fromInt 0).value = 0 := rfl
  simp only [lt_def, gt_iff_lt, h0, Int64.lt_iff_toInt_lt, ← Int64.toInt_inj, Int64.toInt_zero,
    apply_ite FixedPt.value, apply_ite Int64.toInt]
  split_ifs <;> omega

/-- `Pdm` keeps `up` where `calculate_dm` does, and also on a positive tie. -/
theorem calculatePdm_value (newLow prevLow newHigh prevHigh : FixedPt) :
    (calculatePdm newLow prevLow newHigh prevHigh).value =
      if (newHigh - prevHigh).value = (prevLow - newLow).value ∧ 0 < (newHigh - prevHigh).value then
        (newHigh - prevHigh).value
      else (calculateDm prevHigh.value prevLow.value newHigh.value newLow.value).1 := by
  unfold calculatePdm calculateDm
  exact nestedMove_value _ _

/-- `Ndm` keeps `down` where `calculate_dm` does, and also on a positive tie. -/
theorem calculateNdm_value (newLow prevLow newHigh prevHigh : FixedPt) :
    (calculateNdm newLow prevLow newHigh prevHigh).value =
      if (prevLow - newLow).value = (newHigh - prevHigh).value ∧ 0 < (prevLow - newLow).value then
        (prevLow - newLow).value
      else (calculateDm prevHigh.value prevLow.value newHigh.value newLow.value).2 := by
  unfold calculateNdm calculateDm
  exact nestedMove_value _ _

/-- `calculate_dm` never makes both movements positive. -/
theorem calculateDm_not_both_pos (previousHigh previousLow currentHigh currentLow : Fixedpt) :
    ¬ (0 < (calculateDm previousHigh previousLow currentHigh currentLow).1 ∧
      0 < (calculateDm previousHigh previousLow currentHigh currentLow).2) := by
  simp only [calculateDm, gt_iff_lt, Int64.lt_iff_toInt_lt, Int64.toInt_zero, apply_ite Int64.toInt]
  split_ifs <;> omega

end Synapse.Click
