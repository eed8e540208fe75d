import Synapse.HandCoded.Indicators

/-!
# The hand-coded program with its indicators

`hand_coded/main.cpp` creates, for each symbol of `-s`, an `IndicatorManager`
configured from the command line (`configure_indicators`), and its loop calls the
managers: `initialize_indicators` at the first change of a symbol's bar,
`emit_update` at each later one, and `emit_add` at each firing of the timer.

## The model

`Program` joins the loop of `Synapse.HandCoded.EventLoop`, which sees a manager
through its `initialized ()` flag, with the indicators of each symbol's manager
(`Synapse.HandCoded.Indicators`) and the `ADLine` singleton. Each call the loop
makes goes to the manager of its symbol, in order; `Program.step` returns what the
indicators' `calculate_value` returned for each `emit_update`. The number of
buckets of the singleton's table is a parameter, as in `Synapse.HandCoded.AdLine`.

## What is proved

* `Trix.calculateValue_after_initialize`: a `Trix` whose averages were initialized
  with `x` returns, for an update `y`, `100 * ((e - x) / x)`, with `e` the triple
  average of `y` over `x`.
* `step_first_trade`, `step_update`: the first trade of a symbol of `-s`
  initializes its indicators and returns nothing; a later trade of the interval
  that changes its bar returns what `emit_update` computes with its close.
-/

namespace Synapse.HandCoded

open Theory Trade Click

/-- The hand-coded program: the globals of its loop, the indicators of the manager
of each symbol, and the `ADLine` singleton. -/
structure Program where
  /-- `gSymbols` and the timer, through the managers' flags. -/
  loop : EventLoop
  /-- The indicators of the manager of each symbol. -/
  managers : Symbol → Indicators
  /-- `ADLine::get_instance ()`. -/
  adLine : ADLine

/-- `main` before the loop runs, with the parameters `pars` and the symbols of `-s`. -/
def Program.initial (pars : Params) (symbols : List Symbol) : Program :=
  ⟨EventLoop.initial symbols, Indicators.configureIndicators pars, ADLine.initial⟩

/-- A call of the loop, on the manager of its symbol: the program after it, and the
values of an `emit_update`. -/
def Program.call (bucketCount : ℕ) (pr : Program) (c : Call) : Option (Program × Option UpdateValues) :=
  ((pr.managers c.symbol).call pr.adLine bucketCount c.call).map fun r =>
    ({ pr with managers := Function.update pr.managers c.symbol r.1, adLine := r.2.1 }, r.2.2)

/-- One callback of the loop and the calls it makes: the values of each
`emit_update`. -/
def Program.step (bucketCount : ℕ) (pr : Program) (ev : LoopEvent) : Option (Program × List UpdateValues) := do
  let (loop, calls) ← pr.loop.step ev
  let (pr', values) ← runSteps (Program.call bucketCount) { pr with loop } calls
  pure (pr', values.filterMap id)

/-! ### `Trix` after its initialization -/

/-- The parameters `-t -n 13`: `Trix` alone, over `13` periods. -/
def trixParams : Params := ⟨true, false, false, false, 13⟩

/-- What an initialized `EwmaHc` with the weight `alfa` and the last value `x`
returns for `update`. -/
def ewmaHcValue (alfa x update : FixedPt) : FixedPt := ((1 : ℤ) - alfa) * update + alfa * x

/-- An average whose last value was set to `x` averages each update over `x`. -/
theorem EwmaHc.calculateNewValue_setLastValue (e : EwmaHc) (x update : FixedPt) :
    (e.setLastValue x).calculateNewValue update = (ewmaHcValue e.alfa x update, e.setLastValue x) :=
  EwmaHc.calculateNewValue_of_initialized rfl update

/-- **A `Trix` initialized with `x`** returns, for an update `y` of either type, a
hundred times `(e - x) / x`, with `e` the three averages of `y` over `x`: the
quotient is rounded before it is multiplied. -/
theorem Trix.calculateValue_after_initialize (n : ℤ) (x y : FixedPt) (updateType : UpdateType) :
    (( Trix.initialize (Trix.new n) x).calculateValue y updateType).map Prod.snd =
      ((ewmaHcValue (alfaOfPeriods n) x (ewmaHcValue (alfaOfPeriods n) x (ewmaHcValue (alfaOfPeriods n) x y)) -
        x).div? x).map fun q : FixedPt => ((100 : ℤ) * q : FixedPt) := by
  unfold Trix.calculateValue Trix.initialize Trix.new
  simp only [EwmaHc.calculateNewValue_setLastValue, Option.map_map]
  congr 1
  funext q
  split <;> rfl

/-! ### A step of the program -/

section Step

variable {bucketCount : ℕ} {pr : Program} {d : List UInt8} {m : MsgTrade} {ts : TimeStats}
  {mgr : IndicatorManager}

/-- The first change of a symbol's bar initializes the indicators of its manager
with the bar and returns nothing. -/
theorem step_first_trade (hd : populateMsgTrade (d.take BUFLEN) = some (some m))
    (hf : pr.loop.gSymbols.find? m.symbol = some (ts, mgr)) (hr : (updateHloc m ts).1 = true)
    (hi : mgr.initialized = false) :
    Program.step bucketCount pr (.datagram d) =
      some (⟨⟨pr.loop.gSymbols.insert m.symbol ((updateHloc m ts).2, ⟨true⟩), true⟩,
        Function.update pr.managers m.symbol ((pr.managers m.symbol).initializeIndicators
          (.fromC (updateHloc m ts).2.high) (.fromC (updateHloc m ts).2.low) (.fromInt 0)
          (.fromC (updateHloc m ts).2.close)), pr.adLine⟩, []) := by
  simp [Program.step, EventLoop.step, udpReadCb, hd, hf, hr, hi, Program.call, Indicators.call, runSteps]

/-- A later change of the bar returns what `emit_update` computes with it. -/
theorem step_update (hd : populateMsgTrade (d.take BUFLEN) = some (some m))
    (hf : pr.loop.gSymbols.find? m.symbol = some (ts, mgr)) (hr : (updateHloc m ts).1 = true)
    (hi : mgr.initialized = true) :
    (Program.step bucketCount pr (.datagram d)).map Prod.snd =
      ((pr.managers m.symbol).calculateValues pr.adLine bucketCount (.fromC (updateHloc m ts).2.high)
        (.fromC (updateHloc m ts).2.low) (.fromC (updateHloc m ts).2.close) .UPDATE).map fun r => [r.2.2] := by
  cases hc : (pr.managers m.symbol).calculateValues pr.adLine bucketCount (.fromC (updateHloc m ts).2.high)
      (.fromC (updateHloc m ts).2.low) (.fromC (updateHloc m ts).2.close) .UPDATE <;>
    simp [Program.step, EventLoop.step, udpReadCb, hd, hf, hr, hi, Program.call, Indicators.call, runSteps, hc]

end Step

/-! ### The first update -/

/-- `-s sym` makes one entry, with the zero bar and a fresh manager. -/
theorem initial_find (pars : Params) (sym : Symbol) :
    (Program.initial pars [sym]).loop.gSymbols.find? sym = some (default, ⟨false⟩) := by
  have hnot : sym ∉ (KeyMap.empty : KeyMap Symbol (TimeStats × IndicatorManager)).keys := List.not_mem_nil
  simp only [Program.initial, EventLoop.initial, List.foldl_cons, List.foldl_nil, if_neg hnot]
  exact KeyMap.find?_insert_self _ _ _

/-- The `Trix` value of `emit_update` on a manager with `Trix` alone. -/
theorem calculateValues_trix (t : Trix) (adLine : ADLine) (bucketCount : ℕ) (high low close : FixedPt)
    (updateType : UpdateType) :
    ((⟨some t, none, none, none⟩ : Indicators).calculateValues adLine bucketCount high low close updateType).map
        (·.2.2.trix) =
      (t.calculateValue close updateType).map fun r => some r.2 := by
  cases h : t.calculateValue close updateType <;> simp [Indicators.calculateValues, h]

/-- **The first update of `Trix`.** With `-t -n 13` and `-s sym`, a datagram with a
trade of `sym` at `x`, then one at `y ≠ x`: the first initializes the indicators and
returns nothing; for the second, `Trix::calculate_value` returns a hundred times
`(e - x) / x`, rounded, with `e` the three averages of `y` over `x`. -/
theorem trix_program_first_update {sym : Symbol} {d₁ d₂ : List UInt8} {m₁ m₂ : MsgTrade} (bucketCount : ℕ)
    (hd₁ : populateMsgTrade (d₁.take BUFLEN) = some (some m₁))
    (hd₂ : populateMsgTrade (d₂.take BUFLEN) = some (some m₂)) (hs₁ : m₁.symbol = sym) (hs₂ : m₂.symbol = sym)
    (hne : m₂.price ≠ m₁.price) :
    (runSteps (Program.step bucketCount) (Program.initial trixParams [sym]) [.datagram d₁, .datagram d₂]).map
        (·.2.map (·.map UpdateValues.trix)) =
      ((ewmaHcValue (alfaOfPeriods 13) (.fromC m₁.price) (ewmaHcValue (alfaOfPeriods 13) (.fromC m₁.price)
          (ewmaHcValue (alfaOfPeriods 13) (.fromC m₁.price) (.fromC m₂.price))) - .fromC m₁.price).div?
          (.fromC m₁.price)).map fun q : FixedPt => [[], [some ((100 : ℤ) * q : FixedPt)]] := by
  subst hs₁
  have hbar : (updateHloc m₁ default).2 = (updateStats default m₁).2 := rfl
  -- the first trade finds the fresh entry of `sym` and initializes its indicators with its price
  obtain ⟨pr₁, h₁, hf₁, hmgr⟩ : ∃ pr₁, Program.step bucketCount (Program.initial trixParams [m₁.symbol])
      (.datagram d₁) = some (pr₁, []) ∧
      pr₁.loop.gSymbols.find? m₁.symbol = some ((updateHloc m₁ default).2, ⟨true⟩) ∧
      pr₁.managers m₁.symbol = ⟨some ( Trix.initialize (Trix.new 13) (.fromC m₁.price)), none, none, none⟩ := by
    refine ⟨_, step_first_trade hd₁ (initial_find trixParams m₁.symbol) (by rw [updateHloc, updateStats_of_first rfl])
      rfl, KeyMap.find?_insert_self _ _ _, ?_⟩
    dsimp only
    rw [Function.update_self, hbar, close_updateStats]
    rfl
  -- the second moves the close of the bar: an update of the initialized indicators
  have hr₂ : (updateHloc m₂ (updateHloc m₁ default).2).1 = true := by
    rw [updateHloc, hbar, fst_updateStats (firstTimeUpdated_updateStats _ _), close_updateStats]
    simp [hne]
  have h₂ : (Program.step bucketCount pr₁ (.datagram d₂)).map Prod.snd = _ := step_update hd₂ (hs₂ ▸ hf₁) hr₂ rfl
  rw [hs₂, hmgr] at h₂
  have hvalue := calculateValues_trix ( Trix.initialize (Trix.new 13) (.fromC m₁.price)) pr₁.adLine bucketCount
    (.fromC (updateHloc m₂ (updateHloc m₁ default).2).2.high) (.fromC (updateHloc m₂ (updateHloc m₁ default).2).2.low)
    (.fromC (updateHloc m₂ (updateHloc m₁ default).2).2.close) .UPDATE
  have hcalc := Trix.calculateValue_after_initialize 13 (.fromC m₁.price)
    (.fromC (updateHloc m₂ (updateHloc m₁ default).2).2.close) .UPDATE
  have hrun : runSteps (Program.step bucketCount) (Program.initial trixParams [m₁.symbol])
      [.datagram d₁, .datagram d₂] = (Program.step bucketCount pr₁ (.datagram d₂)).map fun r => (r.1, [[], r.2]) := by
    have h := runSteps_append (runSteps_cons_of_eq h₁ (runSteps_nil pr₁)) [.datagram d₂]
    rw [runSteps_singleton, Option.map_map] at h
    exact h
  -- what the run returns is read off the second step, then `emit_update`, then `Trix`
  have hcomp₁ : ((·.2.map (·.map UpdateValues.trix)) ∘ fun r : Program × List UpdateValues => (r.1, [[], r.2])) =
      (fun vs : List UpdateValues => [[], vs.map UpdateValues.trix]) ∘ Prod.snd := rfl
  have hcomp₂ : ((fun vs : List UpdateValues => [[], vs.map UpdateValues.trix]) ∘
      fun r : Indicators × ADLine × UpdateValues => [r.2.2]) = (fun v => [[], [v]]) ∘ (·.2.2.trix) := rfl
  have hcomp₃ : ((fun v : Option FixedPt => [[], [v]]) ∘ fun r : Trix × FixedPt => some r.2) =
      (fun q => [[], [some q]]) ∘ Prod.snd := rfl
  rw [hrun, Option.map_map, hcomp₁, ← Option.map_map, h₂, Option.map_map, hcomp₂, ← Option.map_map, hvalue,
    Option.map_map, hcomp₃, ← Option.map_map, hcalc, Option.map_map, updateHloc, close_updateStats]
  simp only [Function.comp_def]

end Synapse.HandCoded
