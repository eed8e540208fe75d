import Synapse.Click.EwmaElement
import Synapse.Chix.TradeHandler
import Synapse.Theory.LastBlock

/-!
# `TrueRange`, the true range of each symbol over intervals

`TrueRange` (`elements/standard/true_range.{hh,cc}`) reads trades and keeps a
`HighLowClose` per symbol: the high, low and close of the symbol's current interval,
and the close of the interval before. A trade of the current interval widens the
high and low and becomes the close; a trade of any other interval, earlier or later,
starts a new one, and the current close becomes the previous close. The element then
sends `calculate_true_range (high, low, previous close)` in the trade's packet, and
discards the packet while the previous close is `0`.

## The model

The element's state is its map and `INTERVAL_LEN`; `start`, which it reads from the
master, is a parameter of `push`, and the interval number is `intervalNum`, as for
`EwmaElement`. A packet is what the element reads of it (`TradePacket`); what it sends
is the packet as it came, or rewritten as a `MsgIndicator`. The `assert` on the
length is `none` when it fails; `_debug` only prints.

The history of a symbol is the list of its trades as (interval, price). A fresh
`HighLowClose` reads as a trade at `0` in the interval `-1` (`startedHistory`): the
last block of trades of one interval (`Theory.lastBlock`) gives the current interval,
high, low and close, and the last trade before that block the previous interval and
close.

## What is proved

* `HighLowClose.Holds.update`: a trade keeps a record the reading of its symbol's
  history, whatever the interval of the trade.
* `true_range_publishes`: every run of trade packets from `configure` sends, for each,
  `calculate_true_range` of the high and low of its symbol's current block of trades
  and the close before it, and nothing where that close is `0` (`trueRangePublish`).
-/

namespace Synapse.Click

open Trade Theory Chix

/-- `HighLowClose`. -/
structure HighLowClose where
  /-- `_current_high`. -/
  currentHigh : Fixedpt
  /-- `_current_low`. -/
  currentLow : Fixedpt
  /-- `_prev_close`. -/
  prevClose : Fixedpt
  /-- `_current_close`. -/
  currentClose : Fixedpt
  /-- `_current_interval_num`. -/
  currentIntervalNum : Int64
  /-- `_prev_interval_num`. -/
  prevIntervalNum : Int64
  deriving DecidableEq, Repr

/-- `HighLowClose ()`: the prices `0`, the intervals `-1`. -/
instance : Inhabited HighLowClose := ⟨⟨0, 0, 0, 0, -1, -1⟩⟩

/-- `TrueRange`. -/
structure TrueRange where
  /-- `_high_low_close_map`. -/
  highLowCloseMap : KeyMap Symbol HighLowClose
  /-- `_interval_len`. -/
  intervalLen : Int64
  /-- `_active`. -/
  active : Bool

/-- `TrueRange::configure`: `INTERVAL_LEN`, which stays `0` when it is not given. -/
def TrueRange.configure (intervalLen : Int64) : TrueRange := ⟨KeyMap.empty, intervalLen, true⟩

/-- `calculate_true_range (high, low, previous_close)`. -/
def calculateTrueRange (high low previousClose : Fixedpt) : Fixedpt :=
  let highLow := high - low
  let highClose := high - previousClose
  let closeLow := previousClose - low
  let max1 := if highLow > highClose then highLow else highClose
  if max1 > closeLow then max1 else closeLow

/-- Step 4a of `push`: the record after a trade at `price` of the interval `n`. -/
def HighLowClose.update (h : HighLowClose) (n : Int64) (price : Fixedpt) : HighLowClose :=
  if h.currentIntervalNum = n then
    { h with
      currentHigh := if price > h.currentHigh then price else h.currentHigh
      currentLow := if price < h.currentLow then price else h.currentLow
      currentClose := price }
  else
    { h with
      prevIntervalNum := h.currentIntervalNum
      prevClose := h.currentClose
      currentClose := price
      currentHigh := price
      currentLow := price
      currentIntervalNum := n }

/-- `TrueRange::push (port, p)` reading `start`: the element after it and what it sends
on port `0`, the packet as it came or rewritten, and nothing for a discarded one. -/
def TrueRange.push (e : TrueRange) (start : UInt64) (p : TradePacket) :
    Option (TrueRange × Option (TradePacket ⊕ IndicatorPacket)) :=
  if !e.active then some (e, some (.inl p))
  else if p.appType ≠ .MSG_TRADE then some (e, some (.inl p))
  else if MSG_TRADE_SIZE > p.length then none
  else do
    let highLowClose := getOrCreate e.highLowCloseMap p.msg.symbol
    let n ← intervalNum start e.intervalLen p.msg.timestamp
    let highLowClose := highLowClose.update n p.msg.price
    let e := { e with highLowCloseMap := e.highLowCloseMap.insert p.msg.symbol highLowClose }
    -- 4b: no previous close, the packet is discarded
    if highLowClose.prevClose = 0 then pure (e, none)
    else
      let trueRange := calculateTrueRange highLowClose.currentHigh highLowClose.currentLow highLowClose.prevClose
      pure (e, (p.populateMsgIndicator p.msg.symbol trueRange p.msg.timestamp).map .inr)

/-- A stream of pushes. -/
def TrueRange.run (start : UInt64) (e : TrueRange) (inputs : List TradePacket) :
    Option (TrueRange × List (Option (TradePacket ⊕ IndicatorPacket))) :=
  runSteps (fun e p => e.push start p) e inputs

/-! ### What the record of a symbol is meant to hold -/

/-- The history of a symbol as its record reads it: first a trade at `0` in the
interval `-1`. -/
def startedHistory (h : List (Int64 × Fixedpt)) : List (Int64 × Fixedpt) := (-1, 0) :: h

/-- The greatest of some prices, `0` for none. -/
def greatestPrice : List Fixedpt → Fixedpt
  | [] => 0
  | p :: ps => ps.foldl max p

/-- The least of some prices, `0` for none. -/
def leastPrice : List Fixedpt → Fixedpt
  | [] => 0
  | p :: ps => ps.foldl min p

/-- The high of the current interval: the greatest price of the last block. -/
def blockHigh (h : List (Int64 × Fixedpt)) : Fixedpt := greatestPrice ((lastBlock Prod.fst h).map Prod.snd)

/-- The low of the current interval. -/
def blockLow (h : List (Int64 × Fixedpt)) : Fixedpt := leastPrice ((lastBlock Prod.fst h).map Prod.snd)

/-- The last trade before the last block, the start `(-1, 0)` where there is none. -/
def beforeBlock (h : List (Int64 × Fixedpt)) : Int64 × Fixedpt := ((beforeLastBlock Prod.fst h).getLast?).getD (-1, 0)

/-- What the element is meant to send for the trades `ms` (symbol, interval, price)
after the history `hist`: for each, `calculate_true_range` of the high and low of its
symbol's current block and the close before it, nothing where that close is `0`. -/
def trueRangePublish : List (Symbol × Int64 × Fixedpt) → List (Symbol × Int64 × Fixedpt) → List (Option Fixedpt)
  | _, [] => []
  | hist, (sym, n, x) :: ms =>
    let h := startedHistory (symbolHistory hist sym ++ [(n, x)])
    let prevClose := (beforeBlock h).2
    (if prevClose = 0 then none else some (calculateTrueRange (blockHigh h) (blockLow h) prevClose)) ::
      trueRangePublish (hist ++ [(sym, n, x)]) ms

/-! ### The comparisons of `push` -/

/-- `price > high ? price : high` is the greater of the two. -/
theorem ite_gt_eq_max (a b : Int64) : (if b > a then b else a) = max a b := by
  show _ = if a ≤ b then b else a
  split_ifs <;> simp only [gt_iff_lt, Int64.lt_iff_toInt_lt, Int64.le_iff_toInt_le, ← Int64.toInt_inj] at * <;> omega

/-- `price < low ? price : low` is the lesser of the two. -/
theorem ite_lt_eq_min (a b : Int64) : (if b < a then b else a) = min a b := by
  show _ = if a ≤ b then a else b
  split_ifs <;> simp only [Int64.lt_iff_toInt_lt, Int64.le_iff_toInt_le, ← Int64.toInt_inj] at * <;> omega

theorem greatestPrice_concat {ps : List Fixedpt} (hps : ps ≠ []) (x : Fixedpt) :
    greatestPrice (ps ++ [x]) = max (greatestPrice ps) x := by
  obtain ⟨p, ps, rfl⟩ := List.exists_cons_of_ne_nil hps
  simp [greatestPrice, List.foldl_append]

theorem leastPrice_concat {ps : List Fixedpt} (hps : ps ≠ []) (x : Fixedpt) :
    leastPrice (ps ++ [x]) = min (leastPrice ps) x := by
  obtain ⟨p, ps, rfl⟩ := List.exists_cons_of_ne_nil hps
  simp [leastPrice, List.foldl_append]

/-! ### The record of one symbol -/

/-- The record `r` holds the history `h` of its symbol: the last trade is its current
interval and close, the last block its high and low, and the trade before the block
its previous interval and close. -/
structure HighLowClose.Holds (r : HighLowClose) (h : List (Int64 × Fixedpt)) : Prop where
  current_eq : (startedHistory h).getLast? = some (r.currentIntervalNum, r.currentClose)
  high_eq : r.currentHigh = blockHigh (startedHistory h)
  low_eq : r.currentLow = blockLow (startedHistory h)
  prev_eq : (r.prevIntervalNum, r.prevClose) = beforeBlock (startedHistory h)

theorem HighLowClose.holds_default : (default : HighLowClose).Holds [] := ⟨rfl, rfl, rfl, rfl⟩

theorem startedHistory_concat (h : List (Int64 × Fixedpt)) (t : Int64 × Fixedpt) :
    startedHistory (h ++ [t]) = startedHistory h ++ [t] := rfl

theorem lastBlock_startedHistory_ne_nil (h : List (Int64 × Fixedpt)) : lastBlock Prod.fst (startedHistory h) ≠ [] :=
  lastBlock_ne_nil (List.cons_ne_nil _ _)

/-- A trade of the current interval widens the block. -/
theorem HighLowClose.Holds.update_of_eq {r : HighLowClose} {h : List (Int64 × Fixedpt)} (hr : r.Holds h)
    {n : Int64} (hn : r.currentIntervalNum = n) (x : Fixedpt) : (r.update n x).Holds (h ++ [(n, x)]) := by
  have hsame : (startedHistory h).getLast?.map Prod.fst = some (n, x).1 := by rw [hr.current_eq, hn]; rfl
  have hne := lastBlock_startedHistory_ne_nil h
  rw [HighLowClose.update, if_pos hn]
  refine ⟨?_, ?_, ?_, ?_⟩
  · rw [startedHistory_concat, List.getLast?_concat, hn]
  · rw [startedHistory_concat, blockHigh, lastBlock_concat, if_pos hsame, List.map_append, List.map_singleton,
      greatestPrice_concat (by simpa using hne), ← blockHigh, ← hr.high_eq, ite_gt_eq_max]
  · rw [startedHistory_concat, blockLow, lastBlock_concat, if_pos hsame, List.map_append, List.map_singleton,
      leastPrice_concat (by simpa using hne), ← blockLow, ← hr.low_eq, ite_lt_eq_min]
  · rw [startedHistory_concat, beforeBlock, beforeLastBlock_concat, if_pos hsame, ← beforeBlock, ← hr.prev_eq]

/-- A trade of another interval starts a new block; the trade before it is the last
of the history. -/
theorem HighLowClose.Holds.update_of_ne {r : HighLowClose} {h : List (Int64 × Fixedpt)} (hr : r.Holds h)
    {n : Int64} (hn : r.currentIntervalNum ≠ n) (x : Fixedpt) : (r.update n x).Holds (h ++ [(n, x)]) := by
  have hnew : ¬ (startedHistory h).getLast?.map Prod.fst = some (n, x).1 := by
    rw [hr.current_eq]
    simpa using hn
  rw [HighLowClose.update, if_neg hn]
  refine ⟨?_, ?_, ?_, ?_⟩
  · rw [startedHistory_concat, List.getLast?_concat]
  · rw [startedHistory_concat, blockHigh, lastBlock_concat, if_neg hnew]
    rfl
  · rw [startedHistory_concat, blockLow, lastBlock_concat, if_neg hnew]
    rfl
  · rw [startedHistory_concat, beforeBlock, beforeLastBlock_concat, if_neg hnew, hr.current_eq]
    rfl

/-- **One trade**, of any interval, keeps the record the reading of its symbol's
history. -/
theorem HighLowClose.Holds.update {r : HighLowClose} {h : List (Int64 × Fixedpt)} (hr : r.Holds h) (n : Int64)
    (x : Fixedpt) : (r.update n x).Holds (h ++ [(n, x)]) := by
  by_cases hn : r.currentIntervalNum = n
  · exact hr.update_of_eq hn x
  · exact hr.update_of_ne hn x

/-! ### The element over a run -/

/-- A packet the element measures: a trade long enough for one, whose interval is
defined. -/
def TrueRange.Reads (start : UInt64) (intervalLen : Int64) (p : TradePacket) : Prop :=
  p.appType = .MSG_TRADE ∧ MSG_TRADE_SIZE ≤ p.length ∧ (intervalNum start intervalLen p.msg.timestamp).isSome

instance (start : UInt64) (intervalLen : Int64) : DecidablePred (TrueRange.Reads start intervalLen) :=
  fun _ => inferInstanceAs (Decidable (_ ∧ _ ∧ _))

/-- The trades of a stream as (symbol, interval, price). -/
def tradeMessages (start : UInt64) (intervalLen : Int64) (inputs : List TradePacket) :
    List (Symbol × Int64 × Fixedpt) :=
  inputs.map fun p => (p.msg.symbol, (intervalNum start intervalLen p.msg.timestamp).getD 0, p.msg.price)

/-- What the element sends for the trade packet `p` and the value `v`: the packet
rewritten as a `MsgIndicator` of `v`, or nothing. -/
def trueRangeOut (p : TradePacket) (v : Option Fixedpt) : Option (TradePacket ⊕ IndicatorPacket) :=
  v.map fun tr => .inr ⟨p.length, .MSG_INDICATOR, ⟨p.msg.symbol, tr, p.msg.timestamp⟩⟩

/-- The value step 5 sends from a record, none while its previous close is `0`. -/
def HighLowClose.trueRange (r : HighLowClose) : Option Fixedpt :=
  if r.prevClose = 0 then none else some (calculateTrueRange r.currentHigh r.currentLow r.prevClose)

/-- Each record of the map holds the history of its symbol. -/
def TrueRange.MapHolds (m : KeyMap Symbol HighLowClose) (hist : List (Symbol × Int64 × Fixedpt)) : Prop :=
  ∀ sym, (getOrCreate m sym).Holds (symbolHistory hist sym)

theorem TrueRange.mapHolds_empty : TrueRange.MapHolds KeyMap.empty [] := fun _ => HighLowClose.holds_default

/-- Writing back the record of one symbol keeps the others'. -/
theorem TrueRange.MapHolds.insert {m : KeyMap Symbol HighLowClose} {hist : List (Symbol × Int64 × Fixedpt)}
    (hm : TrueRange.MapHolds m hist) {sym : Symbol} {r : HighLowClose} {t : Int64 × Fixedpt}
    (hr : r.Holds (symbolHistory hist sym ++ [t])) : TrueRange.MapHolds (m.insert sym r) (hist ++ [(sym, t)]) := by
  intro sym'
  rw [getOrCreate_insert]
  by_cases hs : sym' = sym
  · subst hs
    rw [if_pos rfl, symbolHistory_append_self]
    exact hr
  · rw [if_neg hs, symbolHistory_append_ne hist hs]
    exact hm sym'

/-- The value a record that holds a history sends is the specification's. -/
theorem HighLowClose.Holds.trueRange_eq {r : HighLowClose} {h : List (Int64 × Fixedpt)} (hr : r.Holds h) :
    r.trueRange = if (beforeBlock (startedHistory h)).2 = 0 then none
      else some (calculateTrueRange (blockHigh (startedHistory h)) (blockLow (startedHistory h))
        (beforeBlock (startedHistory h)).2) := by
  rw [HighLowClose.trueRange, hr.high_eq, hr.low_eq, ← hr.prev_eq]

/-- **One push** of a packet the element measures. -/
theorem TrueRange.push_of_reads {e : TrueRange} (hact : e.active = true) (start : UInt64) {p : TradePacket}
    (hp : p.appType = .MSG_TRADE) (hlen : MSG_TRADE_SIZE ≤ p.length) {n : Int64}
    (hn : intervalNum start e.intervalLen p.msg.timestamp = some n) {r : HighLowClose}
    (hr : r = (getOrCreate e.highLowCloseMap p.msg.symbol).update n p.msg.price) :
    e.push start p = some ({ e with highLowCloseMap := e.highLowCloseMap.insert p.msg.symbol r },
      trueRangeOut p r.trueRange) := by
  have hlen' : ¬ MSG_TRADE_SIZE > p.length := not_lt.2 hlen
  have hind : ¬ MSG_INDICATOR_SIZE > p.length := not_lt.2 (le_trans (by decide) hlen)
  subst hr
  by_cases h0 : ((getOrCreate e.highLowCloseMap p.msg.symbol).update n p.msg.price).prevClose = 0
  · simp [TrueRange.push, hact, hp, hlen', hn, h0, HighLowClose.trueRange, trueRangeOut]
  · simp [TrueRange.push, hact, hp, hlen', hn, h0, HighLowClose.trueRange, trueRangeOut,
      TradePacket.populateMsgIndicator, populateMsgIndicator, hind]

/-- **The run.** From a map that holds the history `hist`, a run of packets the element
measures sends for each what `trueRangePublish` gives. -/
theorem TrueRange.run_spec (start : UInt64) :
    ∀ (inputs : List TradePacket) (e : TrueRange) (hist : List (Symbol × Int64 × Fixedpt)),
      e.active = true → (∀ p ∈ inputs, TrueRange.Reads start e.intervalLen p) → TrueRange.MapHolds e.highLowCloseMap hist →
      ∃ e', e.run start inputs = some (e', List.zipWith trueRangeOut inputs
        (trueRangePublish hist (tradeMessages start e.intervalLen inputs)))
  | [], e, _, _, _, _ => ⟨e, rfl⟩
  | p :: inputs, e, hist, hact, hrd, hm => by
    obtain ⟨hp, hlen, hsome⟩ := hrd p List.mem_cons_self
    obtain ⟨n, hn⟩ := Option.isSome_iff_exists.1 hsome
    have hmsgs : tradeMessages start e.intervalLen (p :: inputs) =
        (p.msg.symbol, n, p.msg.price) :: tradeMessages start e.intervalLen inputs := by
      simp [tradeMessages, hn]
    -- the symbol's record holds its history with the trade, and sends the specification's value
    have hr := (hm p.msg.symbol).update n p.msg.price
    generalize hrdef : (getOrCreate e.highLowCloseMap p.msg.symbol).update n p.msg.price = r at hr
    have hstep := TrueRange.push_of_reads hact start hp hlen hn hrdef.symm
    obtain ⟨e', hrun⟩ := TrueRange.run_spec start inputs { e with highLowCloseMap := e.highLowCloseMap.insert p.msg.symbol r }
      (hist ++ [(p.msg.symbol, n, p.msg.price)]) hact (fun q hq => hrd q (List.mem_cons_of_mem _ hq)) (hm.insert hr)
    refine ⟨e', ?_⟩
    rw [hmsgs, trueRangePublish, List.zipWith_cons_cons, ← hr.trueRange_eq]
    exact runSteps_cons_of_eq hstep hrun

/-- **What `TrueRange` sends.** A configured element, fed trades whose intervals are
defined, in any order of intervals, sends for each trade `calculate_true_range` of the
high and low of its symbol's current interval so far and the close of the interval
before, and discards the trade where that close is `0`, as in the first interval of
every symbol. -/
theorem true_range_publishes (intervalLen : Int64) (start : UInt64) (inputs : List TradePacket)
    (hrd : ∀ p ∈ inputs, TrueRange.Reads start intervalLen p) :
    ∃ e', (TrueRange.configure intervalLen).run start inputs =
      some (e', List.zipWith trueRangeOut inputs (trueRangePublish [] (tradeMessages start intervalLen inputs))) :=
  TrueRange.run_spec start inputs _ [] rfl hrd TrueRange.mapHolds_empty

/-- Three `BPl` trades: at `10` and `12` in the first interval of ten cycles, at `11` in
the next. -/
def bplTrades : List TradePacket :=
  [⟨MSG_TRADE_SIZE, .MSG_TRADE, ⟨fixedptFromint 10, 5, bplSymbol, 0, 0⟩⟩,
    ⟨MSG_TRADE_SIZE, .MSG_TRADE, ⟨fixedptFromint 12, 5, bplSymbol, 4, 0⟩⟩,
    ⟨MSG_TRADE_SIZE, .MSG_TRADE, ⟨fixedptFromint 11, 5, bplSymbol, 12, 0⟩⟩]

/-- The first interval has no close before it, so its trades are discarded; the trade
of the next sends the true range `12 - 11` against the close `12`. -/
theorem true_range_bpl :
    (∀ p ∈ bplTrades, TrueRange.Reads 0 10 p) ∧
      ∃ e', (TrueRange.configure 10).run 0 bplTrades =
        some (e', [none, none, some (.inr ⟨MSG_TRADE_SIZE, .MSG_INDICATOR, ⟨bplSymbol, fixedptFromint 1, 12⟩⟩)]) := by
  have hrd : ∀ p ∈ bplTrades, TrueRange.Reads 0 10 p := by decide
  obtain ⟨e', he⟩ := true_range_publishes 10 0 bplTrades hrd
  have hout : List.zipWith trueRangeOut bplTrades (trueRangePublish [] (tradeMessages 0 10 bplTrades)) =
      [none, none, some (.inr ⟨MSG_TRADE_SIZE, .MSG_INDICATOR, ⟨bplSymbol, fixedptFromint 1, 12⟩⟩)] := by
    decide
  rw [hout] at he
  exact ⟨hrd, e', he⟩

end Synapse.Click
