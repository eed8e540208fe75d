import Synapse.Click.IndicatorBase

/-!
# The window indicator elements

The `IndicatorBase` subclasses of the DMI and Vortex pipelines
(`elements/standard/{pdm,ndm,new_true_range,vmu,vmd,pdi,ndi,viu,vid,dx,sum}.cc`),
each with its four virtual functions and its `_local_cache`.

## The model

Several elements are one function with other constants, and are written so:
`Pdm` and `Ndm` differ only in `calculate_pdm` and `calculate_ndm`
(`directional`); `Vmu` and `Vmd` only in which port gives the new value and
which the previous one (`movement`); `Pdi`, `Ndi`, `Viu` and `Vid` not at all
(`ratio`). Each element keeps its own definitions under its own name, as those
applied to its values.

`operator[]` of a `RingBuffer` is `CircArray.get`; an element reads windows of
the ports it uses only. Every element returns from every function but `Sum`,
whose `calculate_sum_recursive` pops the front of a copy of its window until one
value is left and never ends on an empty one.
-/

namespace Synapse.Click

open FixedPt

/-- A fresh `_local_cache` of `n` default `CacheStruct`s. -/
def freshCache (n : ℕ) : VectorCache := List.replicate n default

/-- `FixedPt result; result.set_valid (false);`: what `initialize_element` returns
when the element has no initial value. -/
def invalidResult : FixedPt := { (default : FixedPt) with valid := false }

/-! ### `Pdm` and `Ndm` -/

/-- `process_naive` of `Pdm` and `Ndm`, for their `calculate` function: the new
and the previous high (port `0`) and low (port `1`). -/
def directionalNaive (calculate : FixedPt → FixedPt → FixedPt → FixedPt → FixedPt)
    (b : Buffers FixedPt) : FixedPt :=
  let highBuf := b.buffers 0
  let lowBuf := b.buffers 1
  calculate (lowBuf.get 0) (lowBuf.get 1) (highBuf.get 0) (highBuf.get 1)

/-- `process_ext` of `Pdm` and `Ndm`: the result, and the new high and low saved. -/
def directionalExt (calculate : FixedPt → FixedPt → FixedPt → FixedPt → FixedPt)
    (lc : VectorCache) (b : Buffers FixedPt) : VectorCache :=
  let result := directionalNaive calculate b
  ((lc.setValue 0 result).setValue 1 ((b.buffers 0).get 0)).setValue 2 ((b.buffers 1).get 0)

/-- `process_opt_ext` of `Pdm` and `Ndm`: the previous high and low from the cache. -/
def directionalOptExt (calculate : FixedPt → FixedPt → FixedPt → FixedPt → FixedPt)
    (lc : VectorCache) (increments : List FixedPt) (cache : VectorCache) : VectorCache :=
  let newHigh := increments.getD 0 default
  let newLow := increments.getD 1 default
  let result := calculate newLow (cache.value 2) newHigh (cache.value 1)
  ((lc.setValue 0 result).setValue 1 newHigh).setValue 2 newLow

/-- `Pdm` and `Ndm` as `Indicator`s. -/
def directional (calculate : FixedPt → FixedPt → FixedPt → FixedPt → FixedPt) : Indicator where
  initializeElement _ := some invalidResult
  processNaive b := some (directionalNaive calculate b)
  processExt lc b := some (directionalExt calculate lc b)
  processOptExt lc increments cache := some (directionalOptExt calculate lc increments cache)
  localCache := freshCache 3

/-- `calculate_pdm (new_low, prev_low, new_high, prev_high)`. -/
def calculatePdm (newLow prevLow newHigh prevHigh : FixedPt) : FixedPt :=
  if newHigh - prevHigh < prevLow - newLow then fromInt 0
  else if newHigh - prevHigh < fromInt 0 then fromInt 0
  else newHigh - prevHigh

/-- `calculate_ndm (new_low, prev_low, new_high, prev_high)`. -/
def calculateNdm (newLow prevLow newHigh prevHigh : FixedPt) : FixedPt :=
  if prevLow - newLow < newHigh - prevHigh then fromInt 0
  else if prevLow - newLow < fromInt 0 then fromInt 0
  else prevLow - newLow

/-- `Pdm`. -/
def pdm : Indicator := directional calculatePdm

/-- `Ndm`. -/
def ndm : Indicator := directional calculateNdm

/-! ### `NewTrueRange` -/

/-- `fpt_max (a, b)`. -/
def fptMax (a b : FixedPt) : FixedPt := if b < a then a else b

/-- `calculate_tr (new_low, new_high, prev_close)`. -/
def calculateTr (newLow newHigh prevClose : FixedPt) : FixedPt :=
  fptMax (prevClose - newLow) (fptMax (newHigh - newLow) (newHigh - prevClose))

/-- `NewTrueRange::process_naive`: high, low and close on ports `0`, `1`, `2`. -/
def newTrueRangeNaive (b : Buffers FixedPt) : FixedPt :=
  calculateTr ((b.buffers 1).get 0) ((b.buffers 0).get 0) ((b.buffers 2).get 1)

/-- `NewTrueRange`. -/
def newTrueRange : Indicator where
  initializeElement _ := some invalidResult
  processNaive b := some (newTrueRangeNaive b)
  processExt lc b := some ((lc.setValue 0 (newTrueRangeNaive b)).setValue 1 ((b.buffers 2).get 0))
  processOptExt lc increments cache :=
    let newHigh := increments.getD 0 default
    let newLow := increments.getD 1 default
    let newClose := increments.getD 2 default
    some ((lc.setValue 0 (calculateTr newLow newHigh (cache.value 1))).setValue 1 newClose)
  localCache := freshCache 2

/-! ### `Vmu` and `Vmd` -/

/-- `process_naive` of `Vmu` and `Vmd`: `fpt_abs` of the new value of port `newPort`
less the previous one of port `prevPort`. -/
def movementNaive (newPort prevPort : ℕ) (b : Buffers FixedPt) : FixedPt :=
  fptAbs ((b.buffers newPort).get 0 - (b.buffers prevPort).get 1)

/-- `Vmu` and `Vmd` as `Indicator`s: the cache keeps the last value of `prevPort`. -/
def movement (newPort prevPort : ℕ) : Indicator where
  initializeElement _ := some invalidResult
  processNaive b := some (movementNaive newPort prevPort b)
  processExt lc b :=
    some ((lc.setValue 0 (movementNaive newPort prevPort b)).setValue 1 ((b.buffers prevPort).get 0))
  processOptExt lc increments cache :=
    let result := fptAbs (increments.getD newPort default - cache.value 1)
    some ((lc.setValue 0 result).setValue 1 (increments.getD prevPort default))
  localCache := freshCache 2

/-- `Vmu`: the new high (port `0`) less the previous low (port `1`). -/
def vmu : Indicator := movement 0 1

/-- `Vmd`: the new low (port `1`) less the previous high (port `0`). -/
def vmd : Indicator := movement 1 0

/-! ### `Pdi`, `Ndi`, `Viu` and `Vid` -/

/-- The quotient these four elements send: `0` for a zero divisor. -/
def guardedDiv (num den : FixedPt) : FixedPt :=
  if den.value = 0 then fromInt 0 else num / den

/-- `process_naive` of the four: the newest value of port `0` over that of port `1`. -/
def ratioNaive (b : Buffers FixedPt) : FixedPt := guardedDiv ((b.buffers 0).get 0) ((b.buffers 1).get 0)

/-- `Pdi`, `Ndi`, `Viu` and `Vid` as `Indicator`s; `initialize_element` is
`process_naive`. -/
def ratio : Indicator where
  initializeElement b := some (ratioNaive b)
  processNaive b := some (ratioNaive b)
  processExt lc b := some (lc.setValue 0 (ratioNaive b))
  processOptExt lc increments _ :=
    some (lc.setValue 0 (guardedDiv (increments.getD 0 default) (increments.getD 1 default)))
  localCache := freshCache 1

/-- `Pdi`: smoothed `Pdm` over smoothed true range. -/
def pdi : Indicator := ratio

/-- `Ndi`: smoothed `Ndm` over smoothed true range. -/
def ndi : Indicator := ratio

/-- `Viu`: summed `Vmu` over summed true range. -/
def viu : Indicator := ratio

/-- `Vid`: summed `Vmd` over summed true range. -/
def vid : Indicator := ratio

/-! ### `Dx` -/

/-- `100 * fpt_abs (pdi - ndi) / (pdi + ndi)`, `0` when the sum is zero. -/
def calculateDx (pdi ndi : FixedPt) : FixedPt :=
  if (pdi + ndi).value = 0 then fromInt 0 else (100 : ℤ) * fptAbs (pdi - ndi) / (pdi + ndi)

/-- `Dx`. -/
def dx : Indicator where
  initializeElement b := some (calculateDx ((b.buffers 0).get 0) ((b.buffers 1).get 0))
  processNaive b := some (calculateDx ((b.buffers 0).get 0) ((b.buffers 1).get 0))
  processExt lc b := some (lc.setValue 0 (calculateDx ((b.buffers 0).get 0) ((b.buffers 1).get 0)))
  processOptExt lc increments _ :=
    some (lc.setValue 0 (calculateDx (increments.getD 0 default) (increments.getD 1 default)))
  localCache := freshCache 1

/-! ### `Sum` -/

/-- `calculate_sum_recursive (buffer)`: the front plus the sum of the rest, down
to a single value, which is returned as it is; on an empty buffer the recursion
never ends. -/
def calculateSumRecursive (buffer : CircArray FixedPt) : Option FixedPt :=
  if buffer.occupancy = 1 then some buffer.popFront.1
  else if buffer.size = 0 then none
  else (calculateSumRecursive buffer.popFront.2).map fun rest => buffer.popFront.1 + rest
termination_by buffer.size
decreasing_by simp only [CircArray.size_popFront]; omega

/-- `Sum::process_naive`: the sum of a copy of the window of port `0`. -/
def sumNaive (b : Buffers FixedPt) : Option FixedPt := calculateSumRecursive (b.buffers 0).copy

/-- The `if (sum_buf.is_full ())` block of `Sum::process_opt_ext`: the new value
enters `sum_buf` in front, the oldest popped out first when it is full, and the sum
follows. -/
def sumShift (sumBuf : CircArray FixedPt) (sum newValue : FixedPt) : FixedPt × CircArray FixedPt :=
  if sumBuf.isFull then
    (sum - sumBuf.popBack.1 + newValue, (sumBuf.popBack.2.pushFront newValue false).2)
  else (sum + newValue, (sumBuf.pushFront newValue false).2)

/-- `Sum::process_opt_ext`: the window of the last `ADD` is copied into the
element's own ring buffer, `sum_buf`, a reference to `_local_cache[2]`, and
shifted by the new value. -/
def sumOptExt (lc : VectorCache) (increments : List FixedPt) (cache : VectorCache) : VectorCache :=
  let sumBuf := (lc.ringBuffer 2).assign (cache.ringBuffer 2)
  let sum := cache.value 1
  let newValue := increments.getD 0 default
  let r := sumShift sumBuf sum newValue
  ((lc.setValue 0 r.1).setValue 1 r.1).modify 2 fun c => { c with ringBuffer := r.2 }

/-- `Sum`. -/
def sum : Indicator where
  initializeElement b := some ((b.buffers 0).get 0)
  processNaive := sumNaive
  processExt lc b :=
    (sumNaive b).map fun result => ((lc.setValue 0 result).setValue 1 result).setRingBuffer 2 (b.buffers 0)
  processOptExt lc increments cache := some (sumOptExt lc increments cache)
  localCache := freshCache 3

end Synapse.Click
