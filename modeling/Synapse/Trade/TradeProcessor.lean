import Synapse.Trade.TimeStats
import Synapse.Theory.KeyMap
import Synapse.Theory.Transducer

/-!
# `TradeProcessor`, the source of the Click pipelines

`TradeProcessor` (`elements/standard/trade_processor.cc`) decodes each frame it
is pushed, keeps a bar per subscribed symbol (`_time_stats_map`) and sends on the
symbol's port an `MSG_INIT_SOURCE` for its first trade, an `MSG_UPDATE_SOURCE`
for each later trade that changes its bar, and, at each firing of its timer, an
`MSG_ADD_SOURCE` with the bar of every symbol followed by `TimeStats::rollover`.
The timer is scheduled by `push` when `first_symbol` is set, and clears it;
`first_symbol` is a function-local `static` of `TradeProcessor::push`, so there
is one for all the instances of the element in a router.

## The model

An instance is a `TradeProcessor`: its two maps and whether its timer is
scheduled. A `Router` is its instances with the one `first_symbol`. An event is a
frame pushed into an instance or a firing of an instance's timer; `Router.step`
is `none` for a frame whose decoding is undefined and for the firing of a timer
that is not scheduled, which cannot happen. A message sent is recorded with the
instance, the port and, beside the packet, the symbol it was sent for. Each
`MSG_ADD_SOURCE` carries the cycle counter, which the model takes as a parameter
of the firing. The element is taken to be `active`.

## What is proved

* `push_of_not_decoded`, `push_of_unsubscribed`: such frames change nothing and
  send nothing; `push_subscribed` says what a subscribed trade does.
* `step_timers`: once `first_symbol` is clear, no step schedules a timer;
  `step_add`: only a scheduled timer sends an `MSG_ADD_SOURCE`; `runSteps_timers`
  over every run.
* `second_instance_unscheduled`: of two instances, the one that sees a subscribed
  trade second never has its timer scheduled and never sends an `MSG_ADD_SOURCE`.
-/

namespace Synapse.Trade

open Theory

/-- A symbol as the maps key it, `ArrayWrapper<char, ORDER_SYMBOL_LEN>`. -/
abbrev Symbol := Vector UInt8 ORDER_SYMBOL_LEN

/-- The app types of the messages a source sends. -/
inductive SourceType
  | MSG_INIT_SOURCE
  | MSG_UPDATE_SOURCE
  | MSG_ADD_SOURCE
  deriving DecidableEq, Repr

/-- `MsgSource`. -/
structure MsgSource where
  /-- `_close`. -/
  close : Fixedpt
  /-- `_high`. -/
  high : Fixedpt
  /-- `_low`. -/
  low : Fixedpt
  /-- `_open`. -/
  «open» : Fixedpt
  /-- `_timestamp`. -/
  timestamp : UInt64
  /-- `_volume`. -/
  volume : Int64
  deriving DecidableEq, Repr

/-- `sizeof (MsgSource)`, packed. -/
def MSG_SOURCE_SIZE : ℕ := 48

/-- A message pushed on an output port, with the symbol it was sent for. -/
structure SourceOut where
  /-- The output port. -/
  port : ℤ
  /-- Its app type. -/
  type : SourceType
  /-- Its contents. -/
  msg : MsgSource
  /-- The symbol whose bar it carries. -/
  symbol : Symbol
  deriving DecidableEq, Repr

/-- An instance of the element. -/
structure TradeProcessor where
  /-- `_time_stats_map`: the bar of each symbol seen. -/
  timeStatsMap : KeyMap Symbol TimeStats
  /-- `_subscriptions_map`: the port of each subscribed symbol, from
  `SYMBOLS_ROUTING`. -/
  subscriptionsMap : KeyMap Symbol ℤ
  /-- Whether `_timer` is scheduled. -/
  timerScheduled : Bool

/-- A configured instance, before any packet: no bars, the timer initialized and
not scheduled. -/
def TradeProcessor.initial (subscriptionsMap : KeyMap Symbol ℤ) : TradeProcessor :=
  ⟨.empty, subscriptionsMap, false⟩

/-! ### `push` -/

/-- `send_update_msg (stats, timestamp, out_port, packet, is_init)`, on a packet of
`packetLen` bytes: the bar goes out in the packet, unless it does not fit. -/
def sendUpdateMsg (stats : TimeStats) (timestamp : UInt64) (outPort : ℤ) (packetLen : ℕ) (isInit : Bool)
    (symbol : Symbol) : List SourceOut :=
  if MSG_SOURCE_SIZE > packetLen then []
  else
    [⟨outPort, if isInit then .MSG_INIT_SOURCE else .MSG_UPDATE_SOURCE,
      ⟨stats.close, stats.high, stats.low, stats.open, timestamp, 0⟩, symbol⟩]

/-- `TradeProcessor::push (port, p)`, with `firstSymbol` the `static` it shares
with the other instances: the `static` after it, the instance and the messages
sent, or `none` where decoding the frame is undefined. -/
def TradeProcessor.push (firstSymbol : Bool) (tp : TradeProcessor) (p : List UInt8) :
    Option (Bool × TradeProcessor × List SourceOut) :=
  (populateMsgTradeTp p).map fun
    | none => (firstSymbol, tp, [])
    | some msgTrade =>
      match tp.subscriptionsMap.find? msgTrade.symbol with
      | none => (firstSymbol, tp, [])
      | some outPort =>
        -- the timer is started by the first subscribed trade of any instance
        let tp := if firstSymbol then { tp with timerScheduled := true } else tp
        let timeStatsAdded := (tp.timeStatsMap.find? msgTrade.symbol).isNone
        let r := updateStats ((tp.timeStatsMap.find? msgTrade.symbol).getD default) msgTrade
        let tp := { tp with timeStatsMap := tp.timeStatsMap.insert msgTrade.symbol r.2 }
        (false, tp,
          if r.1 then sendUpdateMsg r.2 msgTrade.srcTimestamp outPort p.length timeStatsAdded msgTrade.symbol
          else [])

/-! ### `run_timer` -/

/-- `send_add_msg (stats, out_port)` at the cycle count `now`. -/
def sendAddMsg (stats : TimeStats) (outPort : ℤ) (now : UInt64) (symbol : Symbol) : SourceOut :=
  ⟨outPort, .MSG_ADD_SOURCE, ⟨stats.close, stats.high, stats.low, stats.open, now, stats.size⟩, symbol⟩

/-- `TradeProcessor::run_timer`: for each symbol with a bar and a port, its bar is
sent and rolled over; the timer is scheduled again. -/
def TradeProcessor.runTimer (tp : TradeProcessor) (now : UInt64) : TradeProcessor × List SourceOut :=
  ({ tp with
      timeStatsMap := tp.timeStatsMap.mapVals fun symbol stats =>
        if (tp.subscriptionsMap.find? symbol).isSome then stats.rollover else stats },
    tp.timeStatsMap.entries.filterMap fun e =>
      (tp.subscriptionsMap.find? e.1).map fun outPort => sendAddMsg e.2 outPort now e.1)

/-! ### A router of instances -/

/-- The instances of a router and the `static bool first_symbol` they share. -/
structure Router where
  /-- `first_symbol`. -/
  firstSymbol : Bool
  /-- The instances. -/
  elements : List TradeProcessor

/-- What happens to a router. -/
inductive Event
  /-- The frame `p` is pushed into instance `i`. -/
  | packet (i : ℕ) (p : List UInt8)
  /-- The timer of instance `i` fires, the cycle counter reading `now`. -/
  | timer (i : ℕ) (now : UInt64)

/-- One event: the router after it and the messages sent, each with its instance. -/
def Router.step (r : Router) : Event → Option (Router × List (ℕ × SourceOut))
  | .packet i p => do
    let tp ← r.elements[i]?
    let (firstSymbol, tp', outs) ← tp.push r.firstSymbol p
    pure (⟨firstSymbol, r.elements.set i tp'⟩, outs.map ((i, ·)))
  | .timer i now => do
    let tp ← r.elements[i]?
    if tp.timerScheduled then
      let (tp', outs) := tp.runTimer now
      pure (⟨r.firstSymbol, r.elements.set i tp'⟩, outs.map ((i, ·)))
    else none

/-! ### What one step does -/

section Push

variable {firstSymbol : Bool} {tp : TradeProcessor} {p : List UInt8}

theorem push_of_not_decoded (h : populateMsgTradeTp p = some none) :
    tp.push firstSymbol p = some (firstSymbol, tp, []) := by
  simp [TradeProcessor.push, h]

theorem push_of_unsubscribed {m : MsgTrade} (h : populateMsgTradeTp p = some (some m))
    (hs : tp.subscriptionsMap.find? m.symbol = none) : tp.push firstSymbol p = some (firstSymbol, tp, []) := by
  simp [TradeProcessor.push, h, hs]

/-- A subscribed trade updates its symbol's bar, sends it if it changed, as an
`MSG_INIT_SOURCE` when the symbol had no bar, and schedules the timer if
`first_symbol` was set, clearing it. -/
theorem push_subscribed {m : MsgTrade} (h : populateMsgTradeTp p = some (some m)) {outPort : ℤ}
    (hs : tp.subscriptionsMap.find? m.symbol = some outPort) :
    tp.push firstSymbol p =
      let r := updateStats ((tp.timeStatsMap.find? m.symbol).getD default) m
      some (false,
        ⟨tp.timeStatsMap.insert m.symbol r.2, tp.subscriptionsMap, tp.timerScheduled || firstSymbol⟩,
        if r.1 then sendUpdateMsg r.2 m.srcTimestamp outPort p.length (tp.timeStatsMap.find? m.symbol).isNone m.symbol
        else []) := by
  cases firstSymbol <;> simp [TradeProcessor.push, h, hs]

/-- A push leaves the subscriptions, and, once `first_symbol` is clear, the timer
and `first_symbol` as they are. -/
theorem push_frame (h : tp.push firstSymbol p = some (firstSymbol', tp', outs)) :
    tp'.subscriptionsMap = tp.subscriptionsMap ∧
      (firstSymbol = false → firstSymbol' = false ∧ tp'.timerScheduled = tp.timerScheduled) := by
  cases hd : populateMsgTradeTp p with
  | none => simp [TradeProcessor.push, hd] at h
  | some d =>
    cases d with
    | none =>
      rw [push_of_not_decoded hd] at h
      simp only [Option.some.injEq, Prod.mk.injEq] at h
      obtain ⟨rfl, rfl, -⟩ := h
      exact ⟨rfl, fun hf => ⟨hf, rfl⟩⟩
    | some m =>
      cases hs : tp.subscriptionsMap.find? m.symbol with
      | none =>
        rw [push_of_unsubscribed hd hs] at h
        simp only [Option.some.injEq, Prod.mk.injEq] at h
        obtain ⟨rfl, rfl, -⟩ := h
        exact ⟨rfl, fun hf => ⟨hf, rfl⟩⟩
      | some outPort =>
        rw [push_subscribed hd hs] at h
        simp only [Option.some.injEq, Prod.mk.injEq] at h
        obtain ⟨rfl, rfl, -⟩ := h
        exact ⟨rfl, fun hf => ⟨rfl, by simp [hf]⟩⟩

theorem type_sendUpdateMsg {stats : TimeStats} {timestamp : UInt64} {outPort : ℤ} {packetLen : ℕ}
    {isInit : Bool} {symbol : Symbol} {o : SourceOut}
    (h : o ∈ sendUpdateMsg stats timestamp outPort packetLen isInit symbol) : o.type ≠ .MSG_ADD_SOURCE := by
  unfold sendUpdateMsg at h
  split_ifs at h <;> simp at h <;> simp [h]

/-- A push sends only `MSG_INIT_SOURCE` and `MSG_UPDATE_SOURCE`. -/
theorem push_type (h : tp.push firstSymbol p = some (firstSymbol', tp', outs)) :
    ∀ o ∈ outs, o.type ≠ .MSG_ADD_SOURCE := by
  intro o ho
  cases hd : populateMsgTradeTp p with
  | none => simp [TradeProcessor.push, hd] at h
  | some d =>
    cases d with
    | none =>
      rw [push_of_not_decoded hd] at h
      simp only [Option.some.injEq, Prod.mk.injEq] at h
      simp [← h.2.2] at ho
    | some m =>
      cases hs : tp.subscriptionsMap.find? m.symbol with
      | none =>
        rw [push_of_unsubscribed hd hs] at h
        simp only [Option.some.injEq, Prod.mk.injEq] at h
        simp [← h.2.2] at ho
      | some outPort =>
        rw [push_subscribed hd hs] at h
        simp only [Option.some.injEq, Prod.mk.injEq] at h
        rw [← h.2.2] at ho
        split_ifs at ho
        · exact type_sendUpdateMsg ho
        · simp at ho

end Push

@[simp] theorem timerScheduled_runTimer (tp : TradeProcessor) (now : UInt64) :
    (tp.runTimer now).1.timerScheduled = tp.timerScheduled := rfl

/-- The timers of a router, instance by instance. -/
def Router.timers (r : Router) : List Bool := r.elements.map (·.timerScheduled)

theorem timers_set {l : List TradeProcessor} {i : ℕ} {tp tp' : TradeProcessor} (hi : l[i]? = some tp)
    (h : tp'.timerScheduled = tp.timerScheduled) :
    (l.set i tp').map (·.timerScheduled) = l.map (·.timerScheduled) := by
  obtain ⟨hlt, rfl⟩ := List.getElem?_eq_some_iff.1 hi
  apply List.ext_getElem (by simp)
  intro n h₁ h₂
  rw [List.getElem_map, List.getElem_map, List.getElem_set]
  split_ifs with hn
  · subst hn
    exact h
  · rfl

/-- **A step schedules no timer once `first_symbol` is clear**, and keeps it clear. -/
theorem step_timers {r r' : Router} {e : Event} {outs : List (ℕ × SourceOut)} (hfs : r.firstSymbol = false)
    (h : r.step e = some (r', outs)) : r'.firstSymbol = false ∧ r'.timers = r.timers := by
  cases e with
  | packet i p =>
    simp only [Router.step, Option.bind_eq_bind, Option.bind_eq_some_iff] at h
    obtain ⟨tp, hi, ⟨fs, tp', o⟩, hpush, hr⟩ := h
    simp only [Option.pure_def, Option.some.injEq, Prod.mk.injEq] at hr
    obtain ⟨rfl, -⟩ := hr
    obtain ⟨hfs', htimer⟩ := (push_frame hpush).2 hfs
    exact ⟨hfs', timers_set hi htimer⟩
  | timer i now =>
    simp only [Router.step, Option.bind_eq_bind, Option.bind_eq_some_iff] at h
    obtain ⟨tp, hi, hr⟩ := h
    split_ifs at hr
    simp only [Option.pure_def, Option.some.injEq, Prod.mk.injEq] at hr
    obtain ⟨rfl, -⟩ := hr
    exact ⟨hfs, timers_set hi (timerScheduled_runTimer tp now)⟩

/-- Only a scheduled timer sends an `MSG_ADD_SOURCE`. -/
theorem step_add {r r' : Router} {e : Event} {outs : List (ℕ × SourceOut)} (h : r.step e = some (r', outs))
    {i : ℕ} {o : SourceOut} (ho : (i, o) ∈ outs) (hadd : o.type = .MSG_ADD_SOURCE) :
    r.timers[i]? = some true := by
  cases e with
  | packet j p =>
    simp only [Router.step, Option.bind_eq_bind, Option.bind_eq_some_iff] at h
    obtain ⟨tp, hj, ⟨fs, tp', o'⟩, hpush, hr⟩ := h
    simp only [Option.pure_def, Option.some.injEq, Prod.mk.injEq] at hr
    obtain ⟨-, rfl⟩ := hr
    obtain ⟨o'', ho'', heq⟩ := List.mem_map.1 ho
    simp only [Prod.mk.injEq] at heq
    exact absurd (heq.2 ▸ hadd) (push_type hpush o'' ho'')
  | timer j now =>
    simp only [Router.step, Option.bind_eq_bind, Option.bind_eq_some_iff] at h
    obtain ⟨tp, hj, hr⟩ := h
    split_ifs at hr with hsched
    simp only [Option.pure_def, Option.some.injEq, Prod.mk.injEq] at hr
    obtain ⟨-, rfl⟩ := hr
    obtain ⟨o'', -, heq⟩ := List.mem_map.1 ho
    simp only [Prod.mk.injEq] at heq
    rw [← heq.1, Router.timers, List.getElem?_map, hj]
    simp [hsched]

/-- **Over every run**, once `first_symbol` is clear the timers stay as they are,
and an instance whose timer is not scheduled sends no `MSG_ADD_SOURCE`. -/
theorem runSteps_timers {r r' : Router} {evs : List Event} {outs : List (List (ℕ × SourceOut))}
    (hfs : r.firstSymbol = false) (h : runSteps Router.step r evs = some (r', outs)) :
    r'.firstSymbol = false ∧ r'.timers = r.timers ∧
      ∀ os ∈ outs, ∀ o ∈ os, r.timers[o.1]? = some false → o.2.type ≠ .MSG_ADD_SOURCE := by
  induction evs generalizing r outs with
  | nil =>
    simp only [runSteps, Option.some.injEq, Prod.mk.injEq] at h
    obtain ⟨rfl, rfl⟩ := h
    simp [hfs]
  | cons e evs ih =>
    simp only [runSteps, Option.bind_eq_some_iff, Option.map_eq_some_iff] at h
    obtain ⟨⟨r₁, os₁⟩, hstep, ⟨r₂, os₂⟩, hrun, heq⟩ := h
    simp only [Prod.mk.injEq] at heq
    obtain ⟨rfl, rfl⟩ := heq
    obtain ⟨hfs₁, htimers₁⟩ := step_timers hfs hstep
    obtain ⟨hfs₂, htimers₂, hadd⟩ := ih hfs₁ hrun
    refine ⟨hfs₂, htimers₂.trans htimers₁, ?_⟩
    intro os hos o ho hoff htype
    rcases List.mem_cons.1 hos with rfl | hos
    · -- this step's messages: an add comes from a scheduled timer
      have := step_add hstep ho htype
      rw [hoff] at this
      exact absurd this (by simp)
    · exact hadd os hos o ho (htimers₁ ▸ hoff) htype

/-! ### Two instances in one router -/

/-- `BPl`, as a key. -/
def bplSymbol : Symbol := ⟨#[66, 80, 108, 0, 0, 0, 0, 0, 0, 0], rfl⟩

/-- Two instances configured with `SYMBOLS_ROUTING "BPl 0"`, before any packet. -/
def twoInstances : Router :=
  ⟨true, [.initial (KeyMap.empty.insert bplSymbol 0), .initial (KeyMap.empty.insert bplSymbol 0)]⟩

/-- A frame of a `BPl` trade: the headers, the timestamp, then `a|d|BPl|10|5`. -/
def bplFrame : List UInt8 := List.replicate 50 0 ++ [97, 124, 100, 124, 66, 80, 108, 124, 49, 48, 124, 53]

/-- The `BPl` trade reaches the first instance, then the second: each sends its
`MSG_INIT_SOURCE`, and only the first instance's timer is scheduled. -/
theorem twoInstances_first_trades :
    (runSteps Router.step twoInstances [.packet 0 bplFrame, .packet 1 bplFrame]).map
        (fun x => (x.1.firstSymbol, x.1.timers, x.2.map fun os => os.map fun o => (o.1, o.2.type))) =
      some (false, [true, false], [[(0, .MSG_INIT_SOURCE)], [(1, .MSG_INIT_SOURCE)]]) := by
  decide

/-- **The second instance's timer is never scheduled.** In every run of the two
instances that starts with a `BPl` trade to each, the second one has sent its
`MSG_INIT_SOURCE`, but its timer is not scheduled then or ever after, so it never
sends an `MSG_ADD_SOURCE`. -/
theorem second_instance_unscheduled (evs : List Event) (r : Router) (outs : List (List (ℕ × SourceOut)))
    (h : runSteps Router.step twoInstances (.packet 0 bplFrame :: .packet 1 bplFrame :: evs) = some (r, outs)) :
    (outs.take 2).map (fun os => os.map fun o => (o.1, o.2.type)) =
        [[(0, .MSG_INIT_SOURCE)], [(1, .MSG_INIT_SOURCE)]] ∧
      r.timers = [true, false] ∧
      ∀ os ∈ outs, ∀ o ∈ os, o.1 = 1 → o.2.type ≠ .MSG_ADD_SOURCE := by
  have hfirst := twoInstances_first_trades
  obtain ⟨⟨r₂, os₂⟩, h₂⟩ : ∃ x, runSteps Router.step twoInstances [.packet 0 bplFrame, .packet 1 bplFrame] = some x := by
    cases hx : runSteps Router.step twoInstances [.packet 0 bplFrame, .packet 1 bplFrame] with
    | none => rw [hx] at hfirst; cases hfirst
    | some x => exact ⟨x, rfl⟩
  rw [h₂] at hfirst
  simp only [Option.map_some, Option.some.injEq, Prod.mk.injEq] at hfirst
  obtain ⟨hfs, htimers, houts⟩ := hfirst
  -- the rest of the run, from the router the two trades leave
  have hsplit := runSteps_append h₂ evs
  rw [List.cons_append, List.cons_append, List.nil_append, h] at hsplit
  obtain ⟨⟨r', os'⟩, hrest, heq⟩ := Option.map_eq_some_iff.1 hsplit.symm
  simp only [Prod.mk.injEq] at heq
  obtain ⟨rfl, rfl⟩ := heq
  obtain ⟨-, htimers', hadd⟩ := runSteps_timers hfs hrest
  have hlen : os₂.length = 2 := by simpa using congrArg List.length houts
  refine ⟨by rw [List.take_left' hlen, houts], htimers'.trans htimers, ?_⟩
  intro os hos o ho hi
  rcases List.mem_append.1 hos with hos | hos
  · -- the two trades sent only `MSG_INIT_SOURCE`s
    have hmem : (o.1, o.2.type) ∈ (os₂.map fun os => os.map fun o => (o.1, o.2.type)).flatten :=
      List.mem_flatten.2 ⟨_, List.mem_map_of_mem hos, List.mem_map_of_mem ho⟩
    rw [houts] at hmem
    simp only [List.flatten_cons, List.flatten_nil, List.cons_append, List.nil_append, List.mem_cons,
      Prod.mk.injEq, List.not_mem_nil, or_false] at hmem
    rcases hmem with ⟨-, htype⟩ | ⟨-, htype⟩ <;> rw [htype] <;> decide
  · exact hadd os hos o ho (by rw [htimers, hi]; rfl)

theorem second_instance_unscheduled_run :
    ∃ r outs, runSteps Router.step twoInstances [.packet 0 bplFrame, .packet 1 bplFrame] = some (r, outs) ∧
      ((outs.take 2).map (fun os => os.map fun o => (o.1, o.2.type)) =
          [[(0, .MSG_INIT_SOURCE)], [(1, .MSG_INIT_SOURCE)]] ∧
        r.timers = [true, false] ∧
        ∀ os ∈ outs, ∀ o ∈ os, o.1 = 1 → o.2.type ≠ .MSG_ADD_SOURCE) := by
  have hfirst := twoInstances_first_trades
  cases hx : runSteps Router.step twoInstances [.packet 0 bplFrame, .packet 1 bplFrame] with
  | none => rw [hx] at hfirst; cases hfirst
  | some x =>
    obtain ⟨r, outs⟩ := x
    exact ⟨r, outs, rfl, second_instance_unscheduled [] r outs hx⟩

end Synapse.Trade
