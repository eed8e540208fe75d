import Synapse.Click.DirectionalMovement
import Synapse.Click.TrueRange

/-!
# `DirectionalMovement`, the directional movement of each symbol over intervals

`DirectionalMovement::push` (`elements/standard/directional_movement.cc`) reads trades
and keeps a `HighLow` per symbol: the high and low of the symbol's current interval,
and those of the interval before. A trade of the current interval widens the high and
low; a trade of any other interval, earlier or later, starts a new one, the current
high and low becoming the previous ones. The element then sends `calculate_dm` of the
two intervals: `-DM` in the trade's packet on port `0`, and `+DM` in a clone of it on
port `1`. It discards the packet when the trade's interval is negative, and while the
previous high and low are both `0`.

## The model

As for `TrueRange`: `start`, which the element reads from the master, is a parameter
of `push`; the interval number is `intervalNum`; the `assert` on the length is `none`
when it fails; `_debug` only prints. A push returns the packets it sends, each with
its output port. `get_or_create` puts a fresh record into the map before the interval
is checked, so a discarded trade of a new symbol leaves one there.

The history of a symbol is the list of its trades that reach step 4, those of an
interval that is not negative, as (interval, price). A fresh `HighLow` reads as a trade
at `0` in the interval `-1` (`startedHistory`). The current interval is the last block
of trades of one interval (`Theory.lastBlock`); the previous interval is the last block
of what comes before it.

## What is proved

* `HighLow.Holds.update`: a trade keeps a record the reading of its symbol's history,
  whatever the interval of the trade.
* `DirectionalMovement.Holds.push`: one packet keeps every record the reading of its
  symbol's history, and sends what `movementOut` says.
* `directional_movement_sends`: over every run of packets whose trades are long enough
  and have a defined interval, other packets pass on port `0`, and each trade sends
  `-DM` on port `0` and `+DM` on port `1` of its symbol's previous and current blocks,
  or nothing where its interval is negative or the previous block's high and low are
  both `0`.
-/

namespace Synapse.Click

open Trade Theory Chix

/-- `HighLow`. -/
structure HighLow where
  /-- `_prev_low`. -/
  prevLow : Fixedpt
  /-- `_current_low`. -/
  currentLow : Fixedpt
  /-- `_prev_high`. -/
  prevHigh : Fixedpt
  /-- `_current_high`. -/
  currentHigh : Fixedpt
  /-- `_current_interval_num`. -/
  currentIntervalNum : Int64
  /-- `_prev_interval_num`. -/
  prevIntervalNum : Int64
  deriving DecidableEq, Repr

/-- `HighLow ()`: the prices `0`, the intervals `-1`. -/
instance : Inhabited HighLow := ⟨⟨0, 0, 0, 0, -1, -1⟩⟩

/-- `DirectionalMovement`. -/
structure DirectionalMovement where
  /-- `_high_low_map`. -/
  highLowMap : KeyMap Symbol HighLow
  /-- `_interval_len`. -/
  intervalLen : Int64
  /-- `_active`. -/
  active : Bool

/-- `DirectionalMovement::configure`: `INTERVAL_LEN`, which stays `0` when it is not
given. -/
def DirectionalMovement.configure (intervalLen : Int64) : DirectionalMovement := ⟨KeyMap.empty, intervalLen, true⟩

/-- The update of `push`: the record after a trade at `price` of the interval `n`. -/
def HighLow.update (h : HighLow) (n : Int64) (price : Fixedpt) : HighLow :=
  if h.currentIntervalNum = n then
    { h with
      currentHigh := if price > h.currentHigh then price else h.currentHigh
      currentLow := if price < h.currentLow then price else h.currentLow }
  else
    { h with
      prevLow := h.currentLow
      prevHigh := h.currentHigh
      prevIntervalNum := h.currentIntervalNum
      currentIntervalNum := n
      currentLow := price
      currentHigh := price }

/-- `DirectionalMovement::push (port, p)` reading `start`: the element after it and the
packets it sends, each with its output port. -/
def DirectionalMovement.push (e : DirectionalMovement) (start : UInt64) (p : TradePacket) :
    Option (DirectionalMovement × List (ℕ × (TradePacket ⊕ IndicatorPacket))) :=
  if !e.active then some (e, [(0, .inl p)])
  else if p.appType ≠ .MSG_TRADE then some (e, [(0, .inl p)])
  else if MSG_TRADE_SIZE > p.length then none
  else do
    -- `get_or_create` puts the record in the map before the interval is known
    let highLow := getOrCreate e.highLowMap p.msg.symbol
    let e := { e with highLowMap := e.highLowMap.insert p.msg.symbol highLow }
    let n ← intervalNum start e.intervalLen p.msg.timestamp
    if n < 0 then pure (e, [])
    else
      let highLow := highLow.update n p.msg.price
      let e := { e with highLowMap := e.highLowMap.insert p.msg.symbol highLow }
      if highLow.prevLow = 0 ∧ highLow.prevHigh = 0 then pure (e, [])
      else
        let (plusDm, minusDm) := calculateDm highLow.prevHigh highLow.prevLow highLow.currentHigh highLow.currentLow
        -- `-DM` in the packet itself, `+DM` in its clone
        let minusPacket := (p.populateMsgIndicator p.msg.symbol minusDm p.msg.timestamp).map fun q => (0, .inr q)
        let plusPacket := (p.populateMsgIndicator p.msg.symbol plusDm p.msg.timestamp).map fun q => (1, .inr q)
        pure (e, minusPacket.toList ++ plusPacket.toList)

/-- A stream of pushes. -/
def DirectionalMovement.run (start : UInt64) (e : DirectionalMovement) (inputs : List TradePacket) :
    Option (DirectionalMovement × List (List (ℕ × (TradePacket ⊕ IndicatorPacket)))) :=
  runSteps (fun e p => e.push start p) e inputs

/-! ### What the record of a symbol is meant to hold -/

/-- The trade `p` as the update of `push` reads it, (symbol, interval, price), when it
gets there: a trade whose interval is not negative. -/
def movementTrade (start : UInt64) (intervalLen : Int64) (p : TradePacket) : Option (Symbol × Int64 × Fixedpt) :=
  if p.appType = .MSG_TRADE then
    (intervalNum start intervalLen p.msg.timestamp).bind fun n => if n < 0 then none else some (p.msg.symbol, n, p.msg.price)
  else none

/-- The trades of a stream that get to the update. -/
def movementTrades (start : UInt64) (intervalLen : Int64) (ps : List TradePacket) : List (Symbol × Int64 × Fixedpt) :=
  ps.filterMap (movementTrade start intervalLen)

/-- The movements `(+DM, -DM)` of the history `h`: `calculate_dm` of the block before the
last and of the last. -/
def blockDm (h : List (Int64 × Fixedpt)) : Fixedpt × Fixedpt :=
  calculateDm (blockHigh (beforeLastBlock Prod.fst h)) (blockLow (beforeLastBlock Prod.fst h)) (blockHigh h) (blockLow h)

/-- What the element is meant to send for the packet `p` after the packets `hist`: a
packet that is not a trade on port `0`; for a trade that gets to the update, `-DM` on
port `0` and `+DM` on port `1` of its symbol's history with it, unless the high and low
of the block before the last are both `0`; nothing for any other trade. -/
def movementOut (start : UInt64) (intervalLen : Int64) (hist : List TradePacket) (p : TradePacket) :
    List (ℕ × (TradePacket ⊕ IndicatorPacket)) :=
  if p.appType ≠ .MSG_TRADE then [(0, .inl p)]
  else
    match movementTrade start intervalLen p with
    | none => []
    | some (sym, n, x) =>
      let h := startedHistory (symbolHistory (movementTrades start intervalLen hist) sym ++ [(n, x)])
      if blockLow (beforeLastBlock Prod.fst h) = 0 ∧ blockHigh (beforeLastBlock Prod.fst h) = 0 then []
      else
        [(0, .inr ⟨p.length, .MSG_INDICATOR, ⟨sym, (blockDm h).2, p.msg.timestamp⟩⟩),
          (1, .inr ⟨p.length, .MSG_INDICATOR, ⟨sym, (blockDm h).1, p.msg.timestamp⟩⟩)]

/-- The record `r` holds the history `h` of its symbol: the last trade is of its current
interval, the last block gives its high and low, and the block before it its previous
interval, high and low. -/
structure HighLow.Holds (r : HighLow) (h : List (Int64 × Fixedpt)) : Prop where
  current_eq : (startedHistory h).getLast?.map Prod.fst = some r.currentIntervalNum
  high_eq : r.currentHigh = blockHigh (startedHistory h)
  low_eq : r.currentLow = blockLow (startedHistory h)
  prev_high_eq : r.prevHigh = blockHigh (beforeLastBlock Prod.fst (startedHistory h))
  prev_low_eq : r.prevLow = blockLow (beforeLastBlock Prod.fst (startedHistory h))
  prev_num_eq : r.prevIntervalNum = ((beforeLastBlock Prod.fst (startedHistory h)).getLast?.map Prod.fst).getD (-1)

theorem HighLow.holds_default : (default : HighLow).Holds [] := ⟨rfl, rfl, rfl, rfl, rfl, rfl⟩

/-- A trade of the current interval widens the last block; the block before it stays. -/
theorem HighLow.Holds.update_of_eq {r : HighLow} {h : List (Int64 × Fixedpt)} (hr : r.Holds h)
    {n : Int64} (hn : r.currentIntervalNum = n) (x : Fixedpt) : (r.update n x).Holds (h ++ [(n, x)]) := by
  have hsame : (startedHistory h).getLast?.map Prod.fst = some (n, x).1 := by rw [hr.current_eq, hn]
  have hne := lastBlock_startedHistory_ne_nil h
  have hbefore : beforeLastBlock Prod.fst (startedHistory (h ++ [(n, x)])) = beforeLastBlock Prod.fst (startedHistory h) := by
    rw [startedHistory_concat, beforeLastBlock_concat, if_pos hsame]
  rw [HighLow.update, if_pos hn]
  refine ⟨?_, ?_, ?_, ?_, ?_, ?_⟩
  · rw [startedHistory_concat, List.getLast?_concat, ← hn]
    rfl
  · rw [startedHistory_concat, blockHigh, lastBlock_concat, if_pos hsame, List.map_append, List.map_singleton,
      greatestPrice_concat (by simpa using hne), ← blockHigh, ← hr.high_eq, ite_gt_eq_max]
  · rw [startedHistory_concat, blockLow, lastBlock_concat, if_pos hsame, List.map_append, List.map_singleton,
      leastPrice_concat (by simpa using hne), ← blockLow, ← hr.low_eq, ite_lt_eq_min]
  · rw [hbefore]
    exact hr.prev_high_eq
  · rw [hbefore]
    exact hr.prev_low_eq
  · rw [hbefore]
    exact hr.prev_num_eq

/-- A trade of another interval starts a new block; the block before it is the last one
of the history. -/
theorem HighLow.Holds.update_of_ne {r : HighLow} {h : List (Int64 × Fixedpt)} (hr : r.Holds h)
    {n : Int64} (hn : r.currentIntervalNum ≠ n) (x : Fixedpt) : (r.update n x).Holds (h ++ [(n, x)]) := by
  have hnew : ¬ (startedHistory h).getLast?.map Prod.fst = some (n, x).1 := by
    rw [hr.current_eq]
    simpa using hn
  have hbefore : beforeLastBlock Prod.fst (startedHistory (h ++ [(n, x)])) = startedHistory h := by
    rw [startedHistory_concat, beforeLastBlock_concat, if_neg hnew]
  rw [HighLow.update, if_neg hn]
  refine ⟨?_, ?_, ?_, ?_, ?_, ?_⟩
  · rw [startedHistory_concat, List.getLast?_concat]
    rfl
  · rw [startedHistory_concat, blockHigh, lastBlock_concat, if_neg hnew]
    rfl
  · rw [startedHistory_concat, blockLow, lastBlock_concat, if_neg hnew]
    rfl
  · rw [hbefore]
    exact hr.high_eq
  · rw [hbefore]
    exact hr.low_eq
  · -- the previous interval is the one of the last trade before this one
    rw [hbefore, hr.current_eq]
    rfl

/-- **One trade**, of any interval, keeps the record the reading of its symbol's
history. -/
theorem HighLow.Holds.update {r : HighLow} {h : List (Int64 × Fixedpt)} (hr : r.Holds h) (n : Int64)
    (x : Fixedpt) : (r.update n x).Holds (h ++ [(n, x)]) := by
  by_cases hn : r.currentIntervalNum = n
  · exact hr.update_of_eq hn x
  · exact hr.update_of_ne hn x

/-- The movements a record that holds a history computes are those of the history. -/
theorem HighLow.Holds.calculateDm_eq {r : HighLow} {h : List (Int64 × Fixedpt)} (hr : r.Holds h) :
    calculateDm r.prevHigh r.prevLow r.currentHigh r.currentLow = blockDm (startedHistory h) := by
  rw [hr.prev_high_eq, hr.prev_low_eq, hr.high_eq, hr.low_eq, blockDm]

/-! ### The element over a run -/

/-- A packet the element can take: a trade long enough for one, whose interval is
defined, or a packet of another type. -/
def DirectionalMovement.Reads (start : UInt64) (intervalLen : Int64) (p : TradePacket) : Prop :=
  p.appType = .MSG_TRADE → MSG_TRADE_SIZE ≤ p.length ∧ (intervalNum start intervalLen p.msg.timestamp).isSome

instance (start : UInt64) (intervalLen : Int64) : DecidablePred (DirectionalMovement.Reads start intervalLen) :=
  fun _ => inferInstanceAs (Decidable (_ → _))

/-- The element after the packets `hist`: active, with the interval length `intervalLen`,
and each symbol's record holding the history of the symbol's trades. -/
structure DirectionalMovement.Holds (start : UInt64) (intervalLen : Int64) (e : DirectionalMovement)
    (hist : List TradePacket) : Prop where
  active : e.active = true
  intervalLen_eq : e.intervalLen = intervalLen
  record_eq : ∀ sym, (getOrCreate e.highLowMap sym).Holds (symbolHistory (movementTrades start intervalLen hist) sym)

theorem DirectionalMovement.holds_configure (start : UInt64) (intervalLen : Int64) :
    (DirectionalMovement.configure intervalLen).Holds start intervalLen [] :=
  ⟨rfl, rfl, fun _ => HighLow.holds_default⟩

theorem movementTrades_concat (start : UInt64) (intervalLen : Int64) (hist : List TradePacket) (p : TradePacket) :
    movementTrades start intervalLen (hist ++ [p]) =
      movementTrades start intervalLen hist ++ (movementTrade start intervalLen p).toList := by
  simp only [movementTrades, List.filterMap_append, List.filterMap_cons, List.filterMap_nil]
  cases movementTrade start intervalLen p <;> rfl

/-- Putting back the record a symbol already reads as changes no record. -/
theorem getOrCreate_insert_getOrCreate {β : Type} [Inhabited β] (m : KeyMap Symbol β) (k k' : Symbol) :
    getOrCreate (m.insert k (getOrCreate m k)) k' = getOrCreate m k' := by
  rw [getOrCreate_insert]
  split_ifs with h
  · rw [h]
  · rfl

namespace DirectionalMovement

variable {start : UInt64} {intervalLen : Int64} {e : DirectionalMovement} {hist : List TradePacket}

/-- A packet that is not a trade passes on port `0`. -/
theorem Holds.push_of_ne (h : e.Holds start intervalLen hist) {p : TradePacket} (hp : p.appType ≠ .MSG_TRADE) :
    e.push start p = some (e, movementOut start intervalLen hist p) ∧ e.Holds start intervalLen (hist ++ [p]) := by
  have hnone : movementTrade start intervalLen p = none := if_neg hp
  refine ⟨by simp [push, h.active, hp, movementOut], h.active, h.intervalLen_eq, fun sym => ?_⟩
  rw [movementTrades_concat, hnone, Option.toList_none, List.append_nil]
  exact h.record_eq sym

/-- A trade of a negative interval is discarded; its symbol's record is put back as it
reads. -/
theorem Holds.push_of_neg (h : e.Holds start intervalLen hist) {p : TradePacket} (hp : p.appType = .MSG_TRADE)
    (hlen : MSG_TRADE_SIZE ≤ p.length) {n : Int64} (hn : intervalNum start intervalLen p.msg.timestamp = some n)
    (hneg : n < 0) :
    e.push start p = some (⟨e.highLowMap.insert p.msg.symbol (getOrCreate e.highLowMap p.msg.symbol), e.intervalLen,
        e.active⟩, movementOut start intervalLen hist p) ∧
      DirectionalMovement.Holds start intervalLen
        ⟨e.highLowMap.insert p.msg.symbol (getOrCreate e.highLowMap p.msg.symbol), e.intervalLen, e.active⟩ (hist ++ [p]) := by
  have hnone : movementTrade start intervalLen p = none := by simp [movementTrade, hp, hn, hneg]
  have hlen' : ¬ MSG_TRADE_SIZE > p.length := not_lt.2 hlen
  refine ⟨?_, h.active, h.intervalLen_eq, fun sym => ?_⟩
  · simp [push, h.active, hp, hlen', h.intervalLen_eq, hn, hneg, movementOut, hnone]
  · rw [getOrCreate_insert_getOrCreate, movementTrades_concat, hnone, Option.toList_none, List.append_nil]
    exact h.record_eq sym

/-- What a trade that gets to the update sends, from the record after it. -/
def sendsOf (p : TradePacket) (r : HighLow) : List (ℕ × (TradePacket ⊕ IndicatorPacket)) :=
  if r.prevLow = 0 ∧ r.prevHigh = 0 then []
  else
    [(0, .inr ⟨p.length, .MSG_INDICATOR, ⟨p.msg.symbol, (calculateDm r.prevHigh r.prevLow r.currentHigh r.currentLow).2,
        p.msg.timestamp⟩⟩),
      (1, .inr ⟨p.length, .MSG_INDICATOR, ⟨p.msg.symbol, (calculateDm r.prevHigh r.prevLow r.currentHigh r.currentLow).1,
        p.msg.timestamp⟩⟩)]

/-- A trade that gets to the update: the record of its symbol is updated, and the
movements of the record are sent, both packets long enough for a `MsgIndicator`. -/
theorem push_of_update (hact : e.active = true) {p : TradePacket} (hp : p.appType = .MSG_TRADE)
    (hlen : MSG_TRADE_SIZE ≤ p.length) {n : Int64} (hn : intervalNum start e.intervalLen p.msg.timestamp = some n)
    (hpos : ¬ n < 0) {r : HighLow} (hr : r = (getOrCreate e.highLowMap p.msg.symbol).update n p.msg.price) :
    e.push start p = some (⟨(e.highLowMap.insert p.msg.symbol (getOrCreate e.highLowMap p.msg.symbol)).insert
        p.msg.symbol r, e.intervalLen, e.active⟩, sendsOf p r) := by
  have hlen' : ¬ MSG_TRADE_SIZE > p.length := not_lt.2 hlen
  have hind : ¬ MSG_INDICATOR_SIZE > p.length := not_lt.2 (le_trans (by decide) hlen)
  subst hr
  by_cases h0 : ((getOrCreate e.highLowMap p.msg.symbol).update n p.msg.price).prevLow = 0 ∧
      ((getOrCreate e.highLowMap p.msg.symbol).update n p.msg.price).prevHigh = 0
  · simp [push, hact, hp, hlen', hn, hpos, h0, sendsOf]
  · simp [push, hact, hp, hlen', hn, hpos, h0, sendsOf, TradePacket.populateMsgIndicator, populateMsgIndicator, hind]

/-- What `sendsOf` sends from a record that holds a history is what `movementOut` says. -/
theorem sendsOf_eq {p : TradePacket} (hp : p.appType = .MSG_TRADE) {n : Int64} {r : HighLow}
    (hmt : movementTrade start intervalLen p = some (p.msg.symbol, n, p.msg.price))
    (hr : r.Holds (symbolHistory (movementTrades start intervalLen hist) p.msg.symbol ++ [(n, p.msg.price)])) :
    sendsOf p r = movementOut start intervalLen hist p := by
  rw [movementOut, if_neg (not_not.2 hp), hmt]
  dsimp only
  rw [sendsOf, hr.calculateDm_eq, hr.prev_low_eq, hr.prev_high_eq]

/-- **One packet** the element can take keeps every record the reading of its symbol's
history, and sends what `movementOut` says. -/
theorem Holds.push (h : e.Holds start intervalLen hist) {p : TradePacket} (hrd : Reads start intervalLen p) :
    ∃ e', e.push start p = some (e', movementOut start intervalLen hist p) ∧ e'.Holds start intervalLen (hist ++ [p]) := by
  by_cases hp : p.appType = .MSG_TRADE
  · obtain ⟨hlen, hsome⟩ := hrd hp
    obtain ⟨n, hn⟩ := Option.isSome_iff_exists.1 hsome
    by_cases hneg : n < 0
    · exact ⟨_, h.push_of_neg hp hlen hn hneg⟩
    · -- the trade gets to the update: its record takes it, the others stay
      have hmt : movementTrade start intervalLen p = some (p.msg.symbol, n, p.msg.price) := by
        simp [movementTrade, hp, hn, hneg]
      have hr := (h.record_eq p.msg.symbol).update n p.msg.price
      generalize hrdef : (getOrCreate e.highLowMap p.msg.symbol).update n p.msg.price = r at hr
      refine ⟨⟨(e.highLowMap.insert p.msg.symbol (getOrCreate e.highLowMap p.msg.symbol)).insert p.msg.symbol r,
        e.intervalLen, e.active⟩, ?_, h.active, h.intervalLen_eq, fun sym => ?_⟩
      · rw [← sendsOf_eq hp hmt hr]
        exact push_of_update h.active hp hlen (by rw [h.intervalLen_eq]; exact hn) hneg hrdef.symm
      rw [getOrCreate_insert, movementTrades_concat, hmt, Option.toList_some]
      by_cases hs : sym = p.msg.symbol
      · rw [if_pos hs, hs, symbolHistory_append_self]
        exact hr
      · rw [if_neg hs, getOrCreate_insert_getOrCreate, symbolHistory_append_ne _ hs]
        exact h.record_eq sym
  · exact ⟨e, h.push_of_ne hp⟩

end DirectionalMovement

/-- **What `DirectionalMovement` sends.** A configured element, fed packets whose
trades are long enough and have a defined interval, in any order of symbols and
intervals, sends every packet that is not a trade on port `0`; for each trade of an
interval that is not negative, `-DM` on port `0` and `+DM` on port `1` of the high and
low of its symbol's previous block of trades against those of its current block so
far, unless the previous high and low are both `0`, as in the first interval of every
symbol; and nothing for a trade of a negative interval. -/
theorem directional_movement_sends (intervalLen : Int64) (start : UInt64) (inputs : List TradePacket)
    (hrd : ∀ p ∈ inputs, DirectionalMovement.Reads start intervalLen p) :
    ∃ e', (DirectionalMovement.configure intervalLen).run start inputs =
      some (e', outputsAfter (movementOut start intervalLen) [] inputs) := by
  -- each packet keeps `Holds` and sends what `movementOut` says of the packets before it
  refine runSteps_outputsAfter_of_forall (DirectionalMovement.Reads start intervalLen)
    (fun e hist => e.Holds start intervalLen hist) (movementOut start intervalLen) ?_ inputs hrd _ []
    (DirectionalMovement.holds_configure start intervalLen)
  intro e hist p hp h
  exact h.push hp

/-- `BPl` trades at `10` and `12` in the first interval of ten cycles, a packet that is
not a trade, and a trade at `14` in the next interval. -/
def bplMovementInputs : List TradePacket :=
  [⟨MSG_TRADE_SIZE, .MSG_TRADE, ⟨fixedptFromint 10, 5, bplSymbol, 0, 0⟩⟩,
    ⟨MSG_TRADE_SIZE, .MSG_TRADE, ⟨fixedptFromint 12, 5, bplSymbol, 4, 0⟩⟩,
    ⟨MSG_TRADE_SIZE, .MSG_ADD, ⟨fixedptFromint 13, 5, bplSymbol, 8, 0⟩⟩,
    ⟨MSG_TRADE_SIZE, .MSG_TRADE, ⟨fixedptFromint 14, 5, bplSymbol, 12, 0⟩⟩]

/-- The first interval has no interval before it, so its trades are discarded, and the
other packet passes; the trade of the next interval moves up by `14 - 12` from the
high `12` and not down from the low `10`: `-DM` is `0` on port `0`, `+DM` is `2` on
port `1`. -/
theorem directional_movement_bpl :
    (∀ p ∈ bplMovementInputs, DirectionalMovement.Reads 0 10 p) ∧
      ∃ e', (DirectionalMovement.configure 10).run 0 bplMovementInputs =
        some (e', [[], [], [(0, .inl ⟨MSG_TRADE_SIZE, .MSG_ADD, ⟨fixedptFromint 13, 5, bplSymbol, 8, 0⟩⟩)],
          [(0, .inr ⟨MSG_TRADE_SIZE, .MSG_INDICATOR, ⟨bplSymbol, 0, 12⟩⟩),
            (1, .inr ⟨MSG_TRADE_SIZE, .MSG_INDICATOR, ⟨bplSymbol, fixedptFromint 2, 12⟩⟩)]]) := by
  have hrd : ∀ p ∈ bplMovementInputs, DirectionalMovement.Reads 0 10 p := by decide
  obtain ⟨e', he⟩ := directional_movement_sends 10 0 bplMovementInputs hrd
  have hout : outputsAfter (movementOut 0 10) [] bplMovementInputs =
      [[], [], [(0, .inl ⟨MSG_TRADE_SIZE, .MSG_ADD, ⟨fixedptFromint 13, 5, bplSymbol, 8, 0⟩⟩)],
        [(0, .inr ⟨MSG_TRADE_SIZE, .MSG_INDICATOR, ⟨bplSymbol, 0, 12⟩⟩),
          (1, .inr ⟨MSG_TRADE_SIZE, .MSG_INDICATOR, ⟨bplSymbol, fixedptFromint 2, 12⟩⟩)]] := by
    decide
  rw [hout] at he
  exact ⟨hrd, e', he⟩

end Synapse.Click
