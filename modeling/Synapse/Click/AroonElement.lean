import Synapse.Click.TradeAggregator
import Synapse.Click.Aroon

/-!
# `AroonIndicatorElement`, the Aroon indicators of each symbol

`AroonIndicatorElement` (`elements/standard/aroon_indicator.cc`) reads the stats stream
`TradeAggregator` sends. For each `MsgTimePeriodStats` it feeds the close to the
`AroonIndicator` of the message's symbol, creating one on the symbol's first message
(`get_symbol_data`), and writes a line to the symbol's file with the close and the
indicator's Aroon Up and Aroon Down. Every packet passes unchanged.

## The model

A step returns the packet and the line `write_indicators` writes, as the symbol, the
close and the two indicators; the time stamp of the line, the opening of the file and
its errors, and the timer that only flushes the files are left out. `get_symbol_data`
is taken to succeed, as `insert` of an absent key does when it can allocate. The
`active` handler is not an event, so `_active` keeps its constructed value.

## What is proved

* `AroonIndicatorElement.Holds.step`: the indicator of every symbol is
  `AroonIndicator ()` fed the closes of that symbol's messages so far.
* `aroon_element_writes`: over every run of packets, every packet passes and every
  stats message writes its symbol, its close and the Aroon Up and Down of the indicator
  fed all the closes of its symbol so far, oldest first.
-/

namespace Synapse.Click

open Theory
open Trade (Symbol)

/-- `SymbolDataHolder ()`: a fresh indicator, its file not open. -/
instance {α : Type} : Inhabited (AroonIndicator α) := ⟨AroonIndicator.new⟩

/-- `AroonIndicatorElement`: the indicator of each symbol, and `_active`. -/
structure AroonIndicatorElement (D : Type) where
  /-- `_indicator_map`, the `AroonIndicator` of each `SymbolDataHolder`. -/
  indicatorMap : KeyMap Symbol (AroonIndicator D)
  /-- `_active`. -/
  active : Bool

namespace AroonIndicatorElement

variable {D : Type} [LinearOrder D]

/-- `AroonIndicatorElement ()`. -/
def new : AroonIndicatorElement D := ⟨KeyMap.empty, true⟩

/-- `simple_action (p)`: the packet, and the line written for it: the symbol, the close,
and Aroon Up and Down after the update. -/
def simpleAction (e : AroonIndicatorElement D) (p : StatsPacket D) :
    AroonIndicatorElement D × (StatsPacket D × Option (Symbol × D × ℚ × ℚ)) :=
  if !e.active then (e, (p, none))
  else if p.appType ≠ .MSG_TIME_PERIOD_STATS then (e, (p, none))
  else
    let aroonIndicator := (getOrCreate e.indicatorMap p.msg.symbol).updateIndicator p.msg.close
    ({ e with indicatorMap := e.indicatorMap.insert p.msg.symbol aroonIndicator },
      (p, some (p.msg.symbol, p.msg.close, aroonIndicator.getAroonUpIndicator, aroonIndicator.getAroonDownIndicator)))

/-- A run over packets. -/
def run (e : AroonIndicatorElement D) (ps : List (StatsPacket D)) :
    Option (AroonIndicatorElement D × List (StatsPacket D × Option (Symbol × D × ℚ × ℚ))) :=
  runSteps (fun e p => some (e.simpleAction p)) e ps

/-! ### The indicator of each symbol -/

omit [LinearOrder D] in
/-- The closes of the messages of `symbol` among the packets `ps`, oldest first. -/
def closesOf (symbol : Symbol) (ps : List (StatsPacket D)) : List D :=
  (ps.filter fun p => p.appType = .MSG_TIME_PERIOD_STATS ∧ p.msg.symbol = symbol).map (·.msg.close)

/-- The indicator the closes of `symbol` in `ps` give. -/
def indicatorOf (symbol : Symbol) (ps : List (StatsPacket D)) : AroonIndicator D :=
  (closesOf symbol ps).foldl AroonIndicator.updateIndicator AroonIndicator.new

/-- What the element writes for the packet `p` after the packets `hist`. -/
def aroonOut (hist : List (StatsPacket D)) (p : StatsPacket D) : Option (Symbol × D × ℚ × ℚ) :=
  if p.appType = .MSG_TIME_PERIOD_STATS then
    some (p.msg.symbol, p.msg.close, (indicatorOf p.msg.symbol (hist ++ [p])).getAroonUpIndicator,
      (indicatorOf p.msg.symbol (hist ++ [p])).getAroonDownIndicator)
  else none

/-- What the element sends and writes for each packet of a run after `hist`. -/
def aroonSpec (hist ps : List (StatsPacket D)) : List (StatsPacket D × Option (Symbol × D × ℚ × ℚ)) :=
  outputsAfter (fun hist p => (p, aroonOut hist p)) hist ps

/-- The element after the packets `hist`: active, and each symbol's indicator fed the
closes of its messages. -/
structure Holds (e : AroonIndicatorElement D) (hist : List (StatsPacket D)) : Prop where
  active : e.active = true
  indicator_eq : ∀ symbol, getOrCreate e.indicatorMap symbol = indicatorOf symbol hist

theorem holds_new : (new : AroonIndicatorElement D).Holds [] := ⟨rfl, fun _ => rfl⟩

omit [LinearOrder D] in
theorem closesOf_concat_of_ne (symbol : Symbol) (hist : List (StatsPacket D)) {p : StatsPacket D}
    (hp : ¬ (p.appType = .MSG_TIME_PERIOD_STATS ∧ p.msg.symbol = symbol)) :
    closesOf symbol (hist ++ [p]) = closesOf symbol hist := by
  simp [closesOf, List.filter_append, hp]

theorem indicatorOf_concat_self (hist : List (StatsPacket D)) {p : StatsPacket D}
    (hp : p.appType = .MSG_TIME_PERIOD_STATS) :
    indicatorOf p.msg.symbol (hist ++ [p]) = (indicatorOf p.msg.symbol hist).updateIndicator p.msg.close := by
  simp [indicatorOf, closesOf, List.filter_append, hp, List.foldl_append]

/-- One packet keeps the invariant, passes, and writes what `aroonOut` says. -/
theorem Holds.step {e : AroonIndicatorElement D} {hist : List (StatsPacket D)} (h : e.Holds hist)
    (p : StatsPacket D) :
    (e.simpleAction p).2 = (p, aroonOut hist p) ∧ (e.simpleAction p).1.Holds (hist ++ [p]) := by
  by_cases hp : p.appType = .MSG_TIME_PERIOD_STATS
  · -- a stats message: its symbol's indicator takes the close, the others stay
    have hind := indicatorOf_concat_self hist hp
    have hstep : e.simpleAction p = (⟨e.indicatorMap.insert p.msg.symbol (indicatorOf p.msg.symbol (hist ++ [p])),
        e.active⟩, (p, aroonOut hist p)) := by
      simp [simpleAction, h.active, hp, aroonOut, hind, h.indicator_eq]
    rw [hstep]
    refine ⟨rfl, h.active, fun symbol => ?_⟩
    rw [getOrCreate_insert]
    by_cases hs : symbol = p.msg.symbol
    · rw [if_pos hs, hs]
    · rw [if_neg hs, h.indicator_eq, indicatorOf, indicatorOf, closesOf_concat_of_ne symbol hist
        fun hc => hs hc.2.symm]
  · have hstep : e.simpleAction p = (e, (p, aroonOut hist p)) := by
      simp [simpleAction, h.active, hp, aroonOut]
    rw [hstep]
    refine ⟨rfl, h.active, fun symbol => ?_⟩
    rw [h.indicator_eq, indicatorOf, indicatorOf, closesOf_concat_of_ne symbol hist fun hc => hp hc.1]

end AroonIndicatorElement

/-- **What `AroonIndicatorElement` writes.** Over every run of packets from the element
as constructed, every packet passes unchanged, and every `MsgTimePeriodStats` writes
its symbol, its close, and the Aroon Up and Aroon Down of `AroonIndicator ()` fed the
closes of all the messages of its symbol so far, oldest first, its own last. -/
theorem aroon_element_writes {D : Type} [LinearOrder D] (ps : List (StatsPacket D)) :
    ∃ e', (AroonIndicatorElement.new : AroonIndicatorElement D).run ps =
      some (e', AroonIndicatorElement.aroonSpec [] ps) := by
  -- each packet keeps `Holds` and writes what `aroonOut` says of the packets before it
  refine runSteps_outputsAfter (fun e hist => AroonIndicatorElement.Holds e hist)
    (fun hist p => (p, AroonIndicatorElement.aroonOut hist p)) ?_ ps _ [] AroonIndicatorElement.holds_new
  intro e hist p h
  obtain ⟨hout, hh⟩ := h.step p
  exact ⟨_, by rw [← hout], hh⟩

end Synapse.Click
