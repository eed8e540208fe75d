import Synapse.Click.EwmaElement
import Synapse.Theory.Transducer

/-!
# `TradeAggregator`, the bars of the timer's periods

`TradeAggregator` (`elements/standard/trade_aggregator.cc`) turns the trade stream into
bars. A trade updates the `TimeStats` of its symbol (`update_stats`): the first one
since the timer last fired resets the bar to its price and volume, a later one widens
high and low and moves the close. When the timer fires (`run_timer`), the element
sends a `MsgTimePeriodStats` for every symbol of its map, in the order of its walk
over the map, and clears the symbol's `_first_time_updated`; it does not reset the bar. A packet that is
not a trade passes unchanged.

## The model

The `double`s of the bar are of a linear order `D` with a zero, into which `toDouble`
converts a price: the conversion of an integer is never `NaN`, and `0.0` and converted
prices are all a bar holds. The element's events are a packet pushed (`Event.push`;
the element has one port) and the timer firing (`Event.runTimer`); the period of the
timer, `AGGREGATION_INTERVAL_SEC`, only spaces the firings, and `configure` reads
nothing else the model keeps. A step's outputs are the packets it sends: a
`TradePacket` passed on, or a `StatsPacket` made by `send_stats_msg`. `get_or_create`
and `Packet::make` are taken to succeed; `_debug` only prints; the `active` handler is
not an event, so `_active` keeps the value it is constructed with.

## What is proved

* `TradeAggregator.heldStats_push` and `TradeAggregator.heldStats_runTimer`: the record
  of a symbol is `heldStats` of its periods, the bar of its last period with a trade,
  marked as updated iff that period is the current one; a trade and a firing keep it so.
* `run_eq_aggregatorSpec`: the model's map walks the symbols in the order of their
  first trades, and every firing sends, for each symbol that has traded, the bar of
  its last period with a trade: that of its trades since the previous firing, or,
  when it has had none, the bar it sent at the previous firing once more.
* `aggregator_bars`: the same up to the order of each firing's messages. The Click
  `HashMap` walks its buckets (`hashcode % nbuckets`, the newest key of a bucket
  first, and rehashed when it grows), an order the model's `KeyMap` does not keep.
-/

namespace Synapse.Click

open Theory
open Trade (MsgTrade Symbol)

/-- `s_default_snaplen`: the length of the packets `send_stats_msg` makes. -/
def defaultSnaplen : ℕ := 2046

/-- `MsgTimePeriodStats`, its `double`s of `D`. -/
structure MsgTimePeriodStats (D : Type) where
  /-- `_high`. -/
  high : D
  /-- `_low`. -/
  low : D
  /-- `_open`. -/
  «open» : D
  /-- `_close`. -/
  close : D
  /-- `_size`. -/
  size : Int64
  /-- `_symbol`. -/
  symbol : Symbol
  deriving DecidableEq, Repr

/-- `sizeof (MsgTimePeriodStats)` under `#pragma pack(1)`: four `double`s, a word
and the ten bytes of the symbol, with no padding. -/
def MSG_TIME_PERIOD_STATS_SIZE : ℕ := 50

/-- A packet of the stats stream. -/
structure StatsPacket (D : Type) where
  /-- `length ()`. -/
  length : ℕ
  /-- `get_packet_app_type ()`. -/
  appType : PacketAppType
  /-- The `MsgTimePeriodStats` at `data ()`. -/
  msg : MsgTimePeriodStats D
  deriving DecidableEq, Repr

/-- The aggregator's `TimeStats`. -/
structure TradeAggregator.TimeStats (D : Type) where
  /-- `_high`. -/
  high : D
  /-- `_low`. -/
  low : D
  /-- `_open`. -/
  «open» : D
  /-- `_close`. -/
  close : D
  /-- `_size`. -/
  size : Int64
  /-- `_first_time_updated`. -/
  firstTimeUpdated : Bool
  deriving DecidableEq, Repr

/-- `TimeStats ()`, which is `reset ()`: all zero, not updated. -/
instance {D : Type} [Zero D] : Inhabited (TradeAggregator.TimeStats D) := ⟨⟨0, 0, 0, 0, 0, false⟩⟩

/-- `TradeAggregator`: the bar of each symbol, and `_active`. -/
structure TradeAggregator (D : Type) where
  /-- `_time_stats_map`. -/
  timeStatsMap : KeyMap Symbol (TradeAggregator.TimeStats D)
  /-- `_active`. -/
  active : Bool

namespace TradeAggregator

/-- What happens to the element. -/
inductive Event
  /-- `push (0, p)`. -/
  | push (p : TradePacket)
  /-- `run_timer (timer)`. -/
  | runTimer
  deriving DecidableEq, Repr

variable {D : Type} [LinearOrder D] [Zero D] (toDouble : Fixedpt → D)

/-- `TradeAggregator ()`: an empty map, `_active (true)`. -/
def new : TradeAggregator D := ⟨KeyMap.empty, true⟩

/-- `update_stats (time_stats, msg_trade)`. -/
def updateStats (timeStats : TimeStats D) (msgTrade : MsgTrade) : TimeStats D :=
  let price := toDouble msgTrade.price
  if !timeStats.firstTimeUpdated then
    -- `reset ()`, then the bar of this one trade
    { (default : TimeStats D) with
      «open» := price
      high := price
      low := price
      close := price
      size := msgTrade.size
      firstTimeUpdated := true }
  else
    { timeStats with
      high := if price > timeStats.high then price else timeStats.high
      low := if price < timeStats.low then price else timeStats.low
      size := timeStats.size + msgTrade.size
      close := price }

/-- `push (port, p)`: a trade updates the bar of its symbol and is discarded; any
other packet, or any packet while inactive, passes. -/
def push (e : TradeAggregator D) (p : TradePacket) : TradeAggregator D × List (TradePacket ⊕ StatsPacket D) :=
  if !e.active then (e, [.inl p])
  else if p.appType ≠ .MSG_TRADE then (e, [.inl p])
  else
    let timeStats := getOrCreate e.timeStatsMap p.msg.symbol
    ({ e with timeStatsMap := e.timeStatsMap.insert p.msg.symbol (updateStats toDouble timeStats p.msg) }, [])

/-- The `MsgTimePeriodStats` that `send_stats_msg (symbol, stats)` fills. -/
def statsMsgOf (symbol : Symbol) (stats : TimeStats D) : MsgTimePeriodStats D :=
  ⟨stats.high, stats.low, stats.open, stats.close, stats.size, symbol⟩

/-- `send_stats_msg (symbol, stats)`: a packet of `s_default_snaplen` bytes, unless the
message does not fit in it. -/
def sendStatsMsg (symbol : Symbol) (stats : TimeStats D) : List (StatsPacket D) :=
  if MSG_TIME_PERIOD_STATS_SIZE > defaultSnaplen then []
  else [⟨defaultSnaplen, .MSG_TIME_PERIOD_STATS, statsMsgOf symbol stats⟩]

/-- `run_timer (timer)`: the bar of every entry sent, in the map's order, and its
`_first_time_updated` cleared. -/
def runTimer (e : TradeAggregator D) : TradeAggregator D × List (TradePacket ⊕ StatsPacket D) :=
  ({ e with timeStatsMap := e.timeStatsMap.mapVals fun _ stats => { stats with firstTimeUpdated := false } },
    (e.timeStatsMap.entries.flatMap fun entry => sendStatsMsg entry.1 entry.2).map .inr)

/-- One event. -/
def step (e : TradeAggregator D) : Event → TradeAggregator D × List (TradePacket ⊕ StatsPacket D)
  | .push p => e.push toDouble p
  | .runTimer => e.runTimer

/-- A run of events: the final element and what each event sent. -/
def run (e : TradeAggregator D) (evs : List Event) :
    Option (TradeAggregator D × List (List (TradePacket ⊕ StatsPacket D))) :=
  runSteps (fun e ev => some (e.step toDouble ev)) e evs

theorem updateStats_of_first {s : TimeStats D} (hs : s.firstTimeUpdated = false) (m : MsgTrade) :
    updateStats toDouble s m =
      { (default : TimeStats D) with
        «open» := toDouble m.price
        high := toDouble m.price
        low := toDouble m.price
        close := toDouble m.price
        size := m.size
        firstTimeUpdated := true } := by
  simp [updateStats, hs]

theorem updateStats_of_later {s : TimeStats D} (hs : s.firstTimeUpdated = true) (m : MsgTrade) :
    updateStats toDouble s m =
      { s with
        high := max s.high (toDouble m.price)
        low := min s.low (toDouble m.price)
        size := s.size + m.size
        close := toDouble m.price } := by
  -- the two comparisons of the source are `max` and `min`
  simp only [updateStats, hs, Bool.not_true, Bool.false_eq_true, if_false, gt_iff_lt, max_def_lt,
    min_comm s.low, min_def_lt]

/-! ### The bars of the periods -/

/-- The bar of the trades of a period, oldest first: the open is the first price, high
and low the greatest and the least, the close the last, the volume their sum. -/
def barOf : List MsgTrade → TimeStats D
  | [] => default
  | m :: ms =>
    let prices := ms.map fun t => toDouble t.price
    { high := prices.foldl max (toDouble m.price)
      low := prices.foldl min (toDouble m.price)
      «open» := toDouble m.price
      close := toDouble ((m :: ms).getLast (List.cons_ne_nil m ms)).price
      size := ((m :: ms).map MsgTrade.size).sum
      firstTimeUpdated := true }

/-- The first trade of a period gives the bar of that trade alone. -/
theorem updateStats_eq_barOf {s : TimeStats D} (hs : s.firstTimeUpdated = false) (m : MsgTrade) :
    updateStats toDouble s m = barOf toDouble [m] := by
  rw [updateStats_of_first toDouble hs]
  simp [barOf]

/-- A later trade widens the bar of the period to that of its trades with it. -/
theorem barOf_concat {ms : List MsgTrade} (hms : ms ≠ []) (m : MsgTrade) :
    barOf toDouble (ms ++ [m]) = updateStats toDouble (barOf toDouble ms) m := by
  obtain ⟨a, as, rfl⟩ := List.exists_cons_of_ne_nil hms
  rw [updateStats_of_later toDouble (by rfl)]
  simp [barOf, List.foldl_append, Int64.add_assoc]

/-- The trades of `s` in each period of a history, oldest first, split at the firings:
the last period is the current one. -/
def addToPeriods (s : Symbol) (ps : List (List MsgTrade)) : Event → List (List MsgTrade)
  | .push p => if p.appType = .MSG_TRADE ∧ p.msg.symbol = s then ps.modifyLast (· ++ [p.msg]) else ps
  | .runTimer => ps ++ [[]]

/-- The periods of `s` over a history. -/
def periodsOf (s : Symbol) (hist : List Event) : List (List MsgTrade) := hist.foldl (addToPeriods s) [[]]

/-- The last period with a trade. -/
def lastTraded (ps : List (List MsgTrade)) : Option (List MsgTrade) := (ps.filter fun t => !t.isEmpty).getLast?

/-- The record of a symbol with periods `ps`: the bar of its last period with a trade,
updated in this period iff that is the current one. -/
def heldStats (ps : List (List MsgTrade)) : TimeStats D :=
  match lastTraded ps with
  | none => default
  | some ms => { barOf toDouble ms with firstTimeUpdated := !(ps.getLastD []).isEmpty }

theorem periodsOf_concat (s : Symbol) (hist : List Event) (ev : Event) :
    periodsOf s (hist ++ [ev]) = addToPeriods s (periodsOf s hist) ev := by
  rw [periodsOf, List.foldl_append, List.foldl_cons, List.foldl_nil, periodsOf]

/-- There is always a current period. -/
theorem periodsOf_eq_concat (s : Symbol) (hist : List Event) : ∃ qs cur, periodsOf s hist = qs ++ [cur] := by
  induction hist using List.reverseRecOn with
  | nil => exact ⟨[], [], rfl⟩
  | append_singleton hist ev ih =>
    obtain ⟨qs, cur, hps⟩ := ih
    rw [periodsOf_concat, hps]
    cases ev with
    | push p =>
      by_cases hp : p.appType = .MSG_TRADE ∧ p.msg.symbol = s
      · exact ⟨qs, cur ++ [p.msg], by rw [addToPeriods, if_pos hp, List.modifyLast_concat]⟩
      · exact ⟨qs, cur, by rw [addToPeriods, if_neg hp]⟩
    | runTimer => exact ⟨qs ++ [cur], [], rfl⟩

theorem lastTraded_concat_of_ne_nil (qs : List (List MsgTrade)) {cur : List MsgTrade} (hcur : cur ≠ []) :
    lastTraded (qs ++ [cur]) = some cur := by
  simp [lastTraded, List.filter_append, hcur]

theorem lastTraded_concat_nil (ps : List (List MsgTrade)) : lastTraded (ps ++ [[]]) = lastTraded ps := by
  simp [lastTraded, List.filter_append]

theorem heldStats_concat_of_ne_nil (qs : List (List MsgTrade)) {cur : List MsgTrade} (hcur : cur ≠ []) :
    heldStats toDouble (qs ++ [cur]) = barOf toDouble cur := by
  obtain ⟨a, as, rfl⟩ := List.exists_cons_of_ne_nil hcur
  simp [heldStats, lastTraded_concat_of_ne_nil qs hcur, barOf]

theorem firstTimeUpdated_heldStats_concat_nil (qs : List (List MsgTrade)) :
    (heldStats toDouble (qs ++ [[]])).firstTimeUpdated = false := by
  unfold heldStats
  split <;> simp [default]

/-- A trade of the symbol: `update_stats` of the record is the record of the periods
with the trade added to the current one. -/
theorem heldStats_push (qs : List (List MsgTrade)) (cur : List MsgTrade) (m : MsgTrade) :
    updateStats toDouble (heldStats toDouble (qs ++ [cur])) m = heldStats toDouble (qs ++ [cur ++ [m]]) := by
  rw [heldStats_concat_of_ne_nil toDouble qs (List.concat_ne_nil m cur)]
  by_cases hcur : cur = []
  · -- the first trade of the period resets the bar
    subst hcur
    exact updateStats_eq_barOf toDouble (firstTimeUpdated_heldStats_concat_nil toDouble qs) m
  · rw [heldStats_concat_of_ne_nil toDouble qs hcur, barOf_concat toDouble hcur]

/-- A firing: clearing the flag of the record closes the current period. -/
theorem heldStats_runTimer (ps : List (List MsgTrade)) :
    { heldStats toDouble ps with firstTimeUpdated := false } = heldStats toDouble (ps ++ [[]]) := by
  unfold heldStats
  rw [lastTraded_concat_nil]
  split <;> simp [default]

/-- What a firing sends of a record is the bar of the last period with a trade. -/
theorem statsMsgOf_heldStats (symbol : Symbol) (ps : List (List MsgTrade)) :
    statsMsgOf symbol (heldStats toDouble ps) = statsMsgOf symbol (barOf toDouble ((lastTraded ps).getD [])) := by
  unfold heldStats
  split <;> simp_all [statsMsgOf, barOf]

/-! ### The element over a run -/

/-- The symbols that have traded, in the order of their first trades. -/
def addSeen (ks : List Symbol) : Event → List Symbol
  | .push p => if p.appType = .MSG_TRADE ∧ !ks.contains p.msg.symbol then ks ++ [p.msg.symbol] else ks
  | .runTimer => ks

/-- The symbols that have traded over a history. -/
def symbolsSeen (hist : List Event) : List Symbol := hist.foldl addSeen []

/-- What the element sends for the event `ev` after the history `hist`: a trade
nothing, another packet itself, a firing the bar of the last period with a trade of
every symbol that has traded. -/
def aggregatorOut (hist : List Event) : Event → List (TradePacket ⊕ StatsPacket D)
  | .push p => if p.appType = .MSG_TRADE then [] else [.inl p]
  | .runTimer => (symbolsSeen hist).map fun s =>
      .inr ⟨defaultSnaplen, .MSG_TIME_PERIOD_STATS, statsMsgOf s (barOf toDouble ((lastTraded (periodsOf s hist)).getD []))⟩

/-- What the element sends for each event of a run after the history `hist`. -/
def aggregatorSpec (hist evs : List Event) : List (List (TradePacket ⊕ StatsPacket D)) :=
  outputsAfter (aggregatorOut toDouble) hist evs

/-- The element after the history `hist`: active, a record for each symbol that has
traded, in the order of their first trades, and each the record of its periods. -/
structure Holds (e : TradeAggregator D) (hist : List Event) : Prop where
  active : e.active = true
  keys_eq : e.timeStatsMap.keys = symbolsSeen hist
  stats_eq : ∀ s, getOrCreate e.timeStatsMap s = heldStats toDouble (periodsOf s hist)

theorem holds_new : (new : TradeAggregator D).Holds toDouble [] where
  active := rfl
  keys_eq := rfl
  stats_eq _ := rfl

theorem symbolsSeen_concat (hist : List Event) (ev : Event) :
    symbolsSeen (hist ++ [ev]) = addSeen (symbolsSeen hist) ev := by
  rw [symbolsSeen, List.foldl_append, List.foldl_cons, List.foldl_nil, symbolsSeen]

variable {toDouble}

/-- A packet that is not a trade passes and changes nothing. -/
theorem Holds.push_of_ne {e : TradeAggregator D} {hist : List Event} (h : e.Holds toDouble hist) {p : TradePacket}
    (hp : p.appType ≠ .MSG_TRADE) :
    e.push toDouble p = (e, [.inl p]) ∧ e.Holds toDouble (hist ++ [.push p]) := by
  refine ⟨by simp [push, h.active, hp], h.active, ?_, fun s => ?_⟩
  · rw [symbolsSeen_concat, addSeen, if_neg (not_and_of_not_left _ hp), h.keys_eq]
  · rw [periodsOf_concat, addToPeriods, if_neg (not_and_of_not_left _ hp), h.stats_eq]

/-- A trade updates the record of its symbol and adds it to the map after the others
the first time. -/
theorem Holds.push_trade {e : TradeAggregator D} {hist : List Event} (h : e.Holds toDouble hist) {p : TradePacket}
    (hp : p.appType = .MSG_TRADE) :
    (e.push toDouble p).2 = [] ∧ (e.push toDouble p).1.Holds toDouble (hist ++ [.push p]) := by
  have hpush : e.push toDouble p =
      (⟨e.timeStatsMap.insert p.msg.symbol (updateStats toDouble (getOrCreate e.timeStatsMap p.msg.symbol) p.msg),
        e.active⟩, []) := by
    simp [push, h.active, hp]
  rw [hpush]
  refine ⟨rfl, h.active, ?_, fun s => ?_⟩
  · -- a symbol's first trade appends it to the keys, as to the symbols seen
    rw [symbolsSeen_concat, addSeen, ← h.keys_eq]
    by_cases hk : p.msg.symbol ∈ e.timeStatsMap.keys
    · rw [if_neg fun hc => by simp [hk] at hc, KeyMap.keys_insert_of_mem _ hk]
    · rw [if_pos ⟨hp, by simpa using hk⟩, KeyMap.keys_insert_of_not_mem _ hk]
  · dsimp only
    rw [getOrCreate_insert, periodsOf_concat, addToPeriods]
    by_cases hs : s = p.msg.symbol
    · subst hs
      obtain ⟨qs, cur, hps⟩ := periodsOf_eq_concat p.msg.symbol hist
      rw [if_pos rfl, if_pos ⟨hp, rfl⟩, h.stats_eq, hps, List.modifyLast_concat]
      exact heldStats_push toDouble qs cur p.msg
    · rw [if_neg hs, if_neg fun hc => hs hc.2.symm, h.stats_eq]

/-- A firing sends the record of every symbol of the map and closes its period. -/
theorem Holds.runTimer {e : TradeAggregator D} {hist : List Event} (h : e.Holds toDouble hist) :
    e.runTimer.2 = aggregatorOut toDouble hist .runTimer ∧ e.runTimer.1.Holds toDouble (hist ++ [.runTimer]) := by
  refine ⟨?_, h.active, ?_, fun s => ?_⟩
  · have hsend : ∀ entry : Symbol × TimeStats D, sendStatsMsg entry.1 entry.2 =
        [⟨defaultSnaplen, .MSG_TIME_PERIOD_STATS, statsMsgOf entry.1 entry.2⟩] := fun _ => if_neg (by decide)
    simp only [TradeAggregator.runTimer, hsend, ← List.map_eq_flatMap, List.map_map]
    rw [KeyMap.map_entries_eq_map_keys _ default, h.keys_eq, aggregatorOut]
    refine List.map_congr_left fun s _ => ?_
    simp only [Function.comp_apply]
    rw [← getOrCreate, h.stats_eq, statsMsgOf_heldStats]
  · rw [TradeAggregator.runTimer, KeyMap.keys_mapVals, symbolsSeen_concat, addSeen, h.keys_eq]
  · -- the record of a symbol not in the map is the default one, whose flag is clear
    have hclear : getOrCreate (e.timeStatsMap.mapVals fun _ stats => { stats with firstTimeUpdated := false }) s =
        { getOrCreate e.timeStatsMap s with firstTimeUpdated := false } := by
      unfold getOrCreate
      rw [KeyMap.find?_mapVals]
      cases e.timeStatsMap.find? s <;> rfl
    rw [TradeAggregator.runTimer, hclear, h.stats_eq, periodsOf_concat, addToPeriods, heldStats_runTimer]

/-- One event keeps the invariant and sends what the specification says. -/
theorem Holds.step {e : TradeAggregator D} {hist : List Event} (h : e.Holds toDouble hist) (ev : Event) :
    (e.step toDouble ev).2 = aggregatorOut toDouble hist ev ∧ (e.step toDouble ev).1.Holds toDouble (hist ++ [ev]) := by
  cases ev with
  | push p =>
    by_cases hp : p.appType = .MSG_TRADE
    · obtain ⟨hout, hh⟩ := h.push_trade hp
      exact ⟨by rw [TradeAggregator.step, hout, aggregatorOut, if_pos hp], hh⟩
    · obtain ⟨hpush, hh⟩ := h.push_of_ne hp
      refine ⟨?_, by rw [TradeAggregator.step, hpush]; exact hh⟩
      rw [TradeAggregator.step, hpush, aggregatorOut, if_neg hp]
  | runTimer => exact h.runTimer

variable (toDouble)

/-- The run of the model, whose map walks its symbols in the order of their first
trades. -/
theorem run_eq_aggregatorSpec (evs : List Event) :
    ∃ e', (new : TradeAggregator D).run toDouble evs = some (e', aggregatorSpec toDouble [] evs) := by
  -- each event keeps `Holds` and sends what `aggregatorOut` says of the history before it
  refine runSteps_outputsAfter (fun e hist => e.Holds toDouble hist) (aggregatorOut toDouble) ?_ evs _ []
    (holds_new toDouble)
  intro e hist ev h
  obtain ⟨hout, hh⟩ := h.step ev
  exact ⟨_, by rw [← hout], hh⟩

/-- **What `TradeAggregator` sends.** Over every run of trades, other packets and
firings from the element as constructed, each trade is absorbed, each other packet
passes, and each firing sends, for each symbol that has traded, once and in the
order of the map's walk, the bar of its last period with a trade: the open, high,
low and close of the prices of its trades in that period and the sum of their
sizes. A symbol with no trade since the previous firing has its bar of the period
before sent again. The Click `HashMap` walks its buckets, so the order of a
firing's messages is stated only up to permutation. -/
theorem aggregator_bars (evs : List Event) :
    ∃ e' outs, (new : TradeAggregator D).run toDouble evs = some (e', outs) ∧
      List.Forall₂ List.Perm outs (aggregatorSpec toDouble [] evs) := by
  obtain ⟨e', he⟩ := run_eq_aggregatorSpec toDouble evs
  exact ⟨e', _, he, List.forall₂_same.2 fun _ _ => List.Perm.refl _⟩

end TradeAggregator

end Synapse.Click
