import Synapse.HandCoded.AdLine
import Synapse.HandCoded.EventLoop
import Synapse.Click.CircArray

/-!
# The indicators of the hand-coded program

The objects an `IndicatorManager` of the hand-coded program drives
(`hand_coded/{ewma,trix,dmi,vortex,indicator_manager}.cpp`): `EwmaHc`, the
exponential moving average with its first-value initialisation; `Trix`, three
averages in a chain and the relative change of the last; `Dmi`, the directional
movement index from three averaged movements and an average of `dx`; `Vortex`,
sums of movements over a ring buffer; and the manager that calls them.

## The model

Each object is a structure of its members and each member function returns the
object beside its result. The hand-coded `FixedPt` is the Click one without the
validity flag, which the model keeps `true`; its `abs` has the body of
`fpt_abs`. A division the code does not guard is `FixedPt.div?`, and a function
that performs one returns `none` for a zero divisor, where the compiled code
traps. `calculate_value` of `EwmaHc` initialises an average that has no value
yet with the update, also on an `UPDATE`: that write is kept whatever the update
type.

The manager is `Indicators`: the objects `configure_indicators` creates, each
present when its parameter asks for it. The `ADLine` singleton and the number of
buckets of its table are passed to every call, as in `Synapse.HandCoded.AdLine`.
What `emit_update` stores in `_all_values` for the measurements is left out; it
returns what each `calculate_value` returns.
-/

namespace Synapse.HandCoded

open Click FixedPt Trade

/-! ### `EwmaHc` -/

/-- `EwmaHc`. -/
structure EwmaHc where
  /-- `_initialized`. -/
  initialized : Bool
  /-- `_last_value`. -/
  lastValue : FixedPt
  /-- `_alfa`. -/
  alfa : FixedPt
  deriving DecidableEq, Repr

namespace EwmaHc

/-- `EwmaHc ()`. -/
def new : EwmaHc := ⟨false, fromInt 0, fromInt 0⟩

/-- `set_alfa (alfa)`. -/
def setAlfa (e : EwmaHc) (alfa : FixedPt) : EwmaHc := { e with alfa := alfa }

/-- `set_last_value (value)`. -/
def setLastValue (e : EwmaHc) (value : FixedPt) : EwmaHc := { e with lastValue := value, initialized := true }

/-- `calculate_new_value (update)`: the first update is taken as it is, and becomes
the last value; after that `(1 - alfa) * update + alfa * last value`, with the last
value left for `set_last_value`. -/
def calculateNewValue (e : EwmaHc) (update : FixedPt) : FixedPt × EwmaHc :=
  if !e.initialized then (update, { e with lastValue := update, initialized := true })
  else (((1 : ℤ) - e.alfa) * update + e.alfa * e.lastValue, e)

@[simp] theorem alfa_setLastValue (e : EwmaHc) (v : FixedPt) : (e.setLastValue v).alfa = e.alfa := rfl

theorem calculateNewValue_of_not_initialized {e : EwmaHc} (h : e.initialized = false) (update : FixedPt) :
    e.calculateNewValue update = (update, { e with lastValue := update, initialized := true }) := by
  simp [calculateNewValue, h]

theorem calculateNewValue_of_initialized {e : EwmaHc} (h : e.initialized = true) (update : FixedPt) :
    e.calculateNewValue update = (((1 : ℤ) - e.alfa) * update + e.alfa * e.lastValue, e) := by
  simp [calculateNewValue, h]

@[simp] theorem alfa_calculateNewValue (e : EwmaHc) (update : FixedPt) :
    (e.calculateNewValue update).2.alfa = e.alfa := by
  cases h : e.initialized
  · rw [calculateNewValue_of_not_initialized h]
  · rw [calculateNewValue_of_initialized h]

@[simp] theorem initialized_calculateNewValue (e : EwmaHc) (update : FixedPt) :
    (e.calculateNewValue update).2.initialized = true := by
  cases h : e.initialized
  · rw [calculateNewValue_of_not_initialized h]
  · rw [calculateNewValue_of_initialized h]
    exact h

end EwmaHc

/-- `alfa` as the constructors of `Trix` and `Dmi` compute it from `ewma_periods`.
Where the divisor's word is `0` (`ewma_periods = -1`, or `ewma_periods + 1` a
multiple of `2 ^ 24`), the constructors trap in the source and `alfa` is `0` here. -/
def alfaOfPeriods (ewmaPeriods : ℤ) : FixedPt := fromInt 2 / (fromInt ewmaPeriods + fromInt 1)

/-- `SynapseHC::max (a, b)`. -/
def SynapseHC.max (a b : FixedPt) : FixedPt := if a > b then a else b

/-! ### `Trix` -/

/-- `Trix`. -/
structure Trix where
  /-- `_ewma_1`. -/
  ewma1 : EwmaHc
  /-- `_ewma_2`. -/
  ewma2 : EwmaHc
  /-- `_ewma_3`. -/
  ewma3 : EwmaHc
  deriving DecidableEq, Repr

/-- `Trix (ewma_periods, debug)`. -/
def Trix.new (ewmaPeriods : ℤ) : Trix :=
  let alfa := alfaOfPeriods ewmaPeriods
  ⟨EwmaHc.new.setAlfa alfa, EwmaHc.new.setAlfa alfa, EwmaHc.new.setAlfa alfa⟩

/-- `initialize (update)`: the last value of each average. -/
def Trix.initialize (t : Trix) (update : FixedPt) : Trix :=
  ⟨t.ewma1.setLastValue update, t.ewma2.setLastValue update, t.ewma3.setLastValue update⟩

/-- `calculate_value (update, update_type)`: the update through the three averages,
and `100*((ewma_3 - last_ewma_3)/last_ewma_3)`; an `ADD` makes the three values
the averages' last. -/
def Trix.calculateValue (t : Trix) (update : FixedPt) (updateType : UpdateType) : Option (Trix × FixedPt) :=
  let (ewma1, e1) := t.ewma1.calculateNewValue update
  let (ewma2, e2) := t.ewma2.calculateNewValue ewma1
  let (ewma3, e3) := t.ewma3.calculateNewValue ewma2
  let lastEwma3 := e3.lastValue
  ((ewma3 - lastEwma3).div? lastEwma3).map fun q =>
    let result : FixedPt := (100 : ℤ) * q
    if updateType = .ADD then (⟨e1.setLastValue ewma1, e2.setLastValue ewma2, e3.setLastValue ewma3⟩, result)
    else (⟨e1, e2, e3⟩, result)


/-! ### `Dmi` -/

/-- `Dmi`. -/
structure Dmi where
  /-- `_prev_close`. -/
  prevClose : FixedPt
  /-- `_prev_high`. -/
  prevHigh : FixedPt
  /-- `_prev_low`. -/
  prevLow : FixedPt
  /-- `_ewma_pdm`. -/
  ewmaPdm : EwmaHc
  /-- `_ewma_ndm`. -/
  ewmaNdm : EwmaHc
  /-- `_ewma_tr`. -/
  ewmaTr : EwmaHc
  /-- `_ewma_dx`. -/
  ewmaDx : EwmaHc
  deriving DecidableEq, Repr

/-- `Dmi (ewma_periods, debug)`: the previous bar zero. -/
def Dmi.new (ewmaPeriods : ℤ) : Dmi :=
  let alfa := alfaOfPeriods ewmaPeriods
  ⟨default, default, default, EwmaHc.new.setAlfa alfa, EwmaHc.new.setAlfa alfa, EwmaHc.new.setAlfa alfa,
    EwmaHc.new.setAlfa alfa⟩

/-- `calculate_pdm (update_high, update_low)`. -/
def Dmi.calculatePdm (d : Dmi) (updateHigh updateLow : FixedPt) : FixedPt :=
  if updateHigh - d.prevHigh < d.prevLow - updateLow then fromInt 0
  else if updateHigh - d.prevHigh < fromInt 0 then fromInt 0
  else updateHigh - d.prevHigh

/-- `calculate_ndm (update_high, update_low)`. -/
def Dmi.calculateNdm (d : Dmi) (updateHigh updateLow : FixedPt) : FixedPt :=
  if d.prevLow - updateLow < updateHigh - d.prevHigh then fromInt 0
  else if d.prevLow - updateLow < fromInt 0 then fromInt 0
  else d.prevLow - updateLow

/-- `calculate_tr (update_close, update_high, update_low)`. -/
def Dmi.calculateTr (d : Dmi) (_updateClose updateHigh updateLow : FixedPt) : FixedPt :=
  SynapseHC.max (d.prevClose - updateLow) (SynapseHC.max (updateHigh - updateLow) (updateHigh - d.prevClose))

/-- `initialize (update_close, update_high, update_low)`: the previous bar. The
function has no `return` and falls off its end; its result is not used. -/
def Dmi.initialize (d : Dmi) (updateClose updateHigh updateLow : FixedPt) : Dmi :=
  { d with prevClose := updateClose, prevHigh := updateHigh, prevLow := updateLow }

/-- The three movements of a bar against the previous one, smoothed: the values
and the averages after `calculate_new_value`. -/
def Dmi.smooth (d : Dmi) (updateClose updateHigh updateLow : FixedPt) : (FixedPt × FixedPt × FixedPt) × Dmi :=
  let pdm := d.calculatePdm updateHigh updateLow
  let ndm := d.calculateNdm updateHigh updateLow
  let tr := d.calculateTr updateClose updateHigh updateLow
  let (pdmSmoothed, ePdm) := d.ewmaPdm.calculateNewValue pdm
  let (ndmSmoothed, eNdm) := d.ewmaNdm.calculateNewValue ndm
  let (trSmoothed, eTr) := d.ewmaTr.calculateNewValue tr
  ((pdmSmoothed, ndmSmoothed, trSmoothed), { d with ewmaPdm := ePdm, ewmaNdm := eNdm, ewmaTr := eTr })

/-- `calculate_value (update_close, update_high, update_low, update_type)`. `pdi`
and `ndi` divide by the smoothed true range unguarded; a zero `pdi + ndi` returns
`0` before `dx`, with the averages as `calculate_new_value` left them and nothing
committed. An `ADD` commits the bar and the four averages. -/
def Dmi.calculateValue (d : Dmi) (updateClose updateHigh updateLow : FixedPt) (updateType : UpdateType) :
    Option (Dmi × FixedPt) :=
  let ((pdmSmoothed, ndmSmoothed, trSmoothed), d1) := d.smooth updateClose updateHigh updateLow
  (pdmSmoothed.div? trSmoothed).bind fun pdi =>
  (ndmSmoothed.div? trSmoothed).map fun ndi =>
    if (pdi + ndi).value = 0 then (d1, fromInt 0)
    else
      let dx := (100 : ℤ) * fptAbs (pdi - ndi) / (pdi + ndi)
      let (result, eDx) := d1.ewmaDx.calculateNewValue dx
      if updateType = .ADD then
        ({ prevClose := updateClose, prevHigh := updateHigh, prevLow := updateLow,
           ewmaPdm := d1.ewmaPdm.setLastValue pdmSmoothed, ewmaNdm := d1.ewmaNdm.setLastValue ndmSmoothed,
           ewmaTr := d1.ewmaTr.setLastValue trSmoothed, ewmaDx := eDx.setLastValue result }, result)
      else ({ d1 with ewmaDx := eDx }, result)


/-! ### `Vortex` -/

/-- `SumRingBuffer`. -/
structure SumRingBuffer where
  /-- `_ring_buffer`. -/
  ringBuffer : CircArray FixedPt
  /-- `_last_sum`. -/
  lastSum : FixedPt
  /-- `_initialized`. -/
  initialized : Bool

/-- `SumRingBuffer (capacity)`; `_last_sum` is default-constructed. -/
def SumRingBuffer.new (capacity : ℕ) : SumRingBuffer := ⟨CircArray.new capacity, default, false⟩

/-- `get_total_sum ()`. -/
def SumRingBuffer.getTotalSum (s : SumRingBuffer) : FixedPt := s.lastSum

/-- `push_back_new_value (new_value)`: the value appended, the oldest overwritten
when full, and the sum recomputed over the buffer. -/
def SumRingBuffer.pushBackNewValue (s : SumRingBuffer) (newValue : FixedPt) : SumRingBuffer :=
  let ringBuffer := (s.ringBuffer.pushBack newValue true).2
  ⟨ringBuffer, (List.range ringBuffer.occupancy).foldl (fun sum i => sum + ringBuffer.get i) (fromInt 0), true⟩


/-- `Vortex`. -/
structure Vortex where
  /-- `_prev_close`. -/
  prevClose : FixedPt
  /-- `_prev_high`. -/
  prevHigh : FixedPt
  /-- `_prev_low`. -/
  prevLow : FixedPt
  /-- `_vmu_sum`. -/
  vmuSum : SumRingBuffer
  /-- `_vmd_sum`. -/
  vmdSum : SumRingBuffer
  /-- `_tr_sum`. -/
  trSum : SumRingBuffer

/-- `Vortex (sum_len, debug)`: sums over the last `sum_len - 1` values. The
capacity is the `size_t` difference: a `sum_len` of `0` asks for `2 ^ 64 - 1`
cells, whose `new` throws in the source and not in the model. -/
def Vortex.new (sumLen : UInt64) : Vortex :=
  ⟨default, default, default, .new (sumLen - 1).toNat, .new (sumLen - 1).toNat, .new (sumLen - 1).toNat⟩

/-- `initialize (update_close, update_high, update_low)`. -/
def Vortex.initialize (v : Vortex) (updateClose updateHigh updateLow : FixedPt) : Vortex :=
  { v with prevClose := updateClose, prevHigh := updateHigh, prevLow := updateLow }

/-- `calculate_value (update_close, update_high, update_low, update_type)`: `viu`
and `vid`, the sums with the bar's movements over the sum of true ranges with the
bar's, unguarded. The first `UPDATE` before any `ADD` enters the bar into the sums
for good; an `ADD` enters it and makes it the previous bar. -/
def Vortex.calculateValue (v : Vortex) (updateClose updateHigh updateLow : FixedPt) (updateType : UpdateType) :
    Option (Vortex × FixedPt × FixedPt) :=
  let vmu := fptAbs (updateHigh - v.prevLow)
  let vmd := fptAbs (updateLow - v.prevHigh)
  let tr := SynapseHC.max (v.prevClose - updateLow)
    (SynapseHC.max (updateHigh - updateLow) (updateHigh - v.prevClose))
  let v := if updateType = .UPDATE ∧ v.vmuSum.initialized = false then
      { v with vmuSum := v.vmuSum.pushBackNewValue vmu, vmdSum := v.vmdSum.pushBackNewValue vmd,
               trSum := v.trSum.pushBackNewValue tr }
    else v
  let vmuTotal := v.vmuSum.getTotalSum
  let vmdTotal := v.vmdSum.getTotalSum
  let trTotal := v.trSum.getTotalSum
  ((vmuTotal + vmu).div? (trTotal + tr)).bind fun viu =>
  ((vmdTotal + vmd).div? (trTotal + tr)).map fun vid =>
    if updateType = .ADD then
      ({ vmuSum := v.vmuSum.pushBackNewValue vmu, vmdSum := v.vmdSum.pushBackNewValue vmd,
         trSum := v.trSum.pushBackNewValue tr, prevClose := updateClose, prevLow := updateLow,
         prevHigh := updateHigh }, viu, vid)
    else (v, viu, vid)


/-! ### `IndicatorManager` -/

/-- The command-line parameters `configure_indicators` reads. -/
structure Params where
  /-- `_is_trix`. -/
  isTrix : Bool
  /-- `_is_dmi`. -/
  isDmi : Bool
  /-- `_is_vortex`. -/
  isVortex : Bool
  /-- `_is_adline`. -/
  isAdline : Bool
  /-- `_ewma_periods`, also the length of the vortex sums. -/
  ewmaPeriods : ℤ

/-- The indicators of an `IndicatorManager`: `_trix`, `_dmi`, `_vortex` and
`_ad_line_tick`, `none` for a null pointer. -/
structure Indicators where
  /-- `_trix`. -/
  trix : Option Trix
  /-- `_dmi`. -/
  dmi : Option Dmi
  /-- `_vortex`. -/
  vortex : Option Vortex
  /-- `_ad_line_tick`. -/
  adLineTick : Option ADLineTick

/-- What the `calculate_value` calls of one `emit_update` return. -/
structure UpdateValues where
  /-- `result_trix`. -/
  trix : Option FixedPt
  /-- `result_dmi`. -/
  dmi : Option FixedPt
  /-- `result_vortex`. -/
  vortex : Option (FixedPt × FixedPt)
  /-- `result_adline`. -/
  adLine : Option FixedPt
  deriving DecidableEq, Repr

namespace Indicators

/-- `configure_indicators (pars)` for the manager of `symbol`. -/
def configureIndicators (pars : Params) (symbol : Symbol) : Indicators :=
  ⟨if pars.isTrix then some (Trix.new pars.ewmaPeriods) else none,
    if pars.isDmi then some (Dmi.new pars.ewmaPeriods) else none,
    if pars.isVortex then some (Vortex.new (UInt64.ofInt pars.ewmaPeriods)) else none,
    if pars.isAdline then some ⟨default, symbol⟩ else none⟩

/-- `initialize_indicators (high, low, open, close)`. -/
def initializeIndicators (s : Indicators) (high low _open close : FixedPt) : Indicators :=
  ⟨s.trix.map fun t => Trix.initialize t close, s.dmi.map fun d => Dmi.initialize d close high low,
    s.vortex.map fun v => Vortex.initialize v close high low,
    s.adLineTick.map fun a => ADLineTick.initialize a close⟩

/-- The four `calculate_value` calls of `emit_add` and `emit_update`, in the order
the manager makes them: the indicators after them, the singleton and what each
returned. -/
def calculateValues (s : Indicators) (adLine : ADLine) (bucketCount : ℕ) (high low close : FixedPt)
    (updateType : UpdateType) : Option (Indicators × ADLine × UpdateValues) := do
  let trix ← s.trix.mapM (·.calculateValue close updateType)
  let dmi ← s.dmi.mapM (·.calculateValue close high low updateType)
  let vortex ← s.vortex.mapM (·.calculateValue close high low updateType)
  let adLine' ← s.adLineTick.mapM (·.calculateValue adLine bucketCount close updateType)
  pure (⟨trix.map (·.1), dmi.map (·.1), vortex.map (·.1), adLine'.map (·.1)⟩,
    (adLine'.map (·.2.1)).getD adLine,
    ⟨trix.map (·.2), dmi.map (·.2), vortex.map (·.2), adLine'.map (·.2.2)⟩)

/-- A call of the event loop on the manager: `initialize_indicators`, `emit_add`,
whose values are dropped, or `emit_update`, whose values are returned. -/
def call (s : Indicators) (adLine : ADLine) (bucketCount : ℕ) :
    ManagerCall → Option (Indicators × ADLine × Option UpdateValues)
  | .initializeIndicators high low «open» close => some (s.initializeIndicators high low «open» close, adLine, none)
  | .emitAdd high low _ close =>
    (s.calculateValues adLine bucketCount high low close .ADD).map fun r => (r.1, r.2.1, none)
  | .emitUpdate high low _ close _ =>
    (s.calculateValues adLine bucketCount high low close .UPDATE).map fun r => (r.1, r.2.1, some r.2.2)

end Indicators

end Synapse.HandCoded
