import Synapse.Chix.Utils
import Synapse.Theory.KeyMap
import Synapse.Trade.TradeProcessor

/-!
# `ChixTradeHandler`

The element that keeps the CHI-X order book (`elements/standard/chix_trade_handler.cc`
and `.hh`). Each packet holds one message after the `42` bytes of the headers; its
type is the byte at offset `8`, and `is_long_enough` lets through a message only
at the exact length of its type. An add order (`'A'` short, `'a'` long) inserts
its reference in `_orderMap` with the symbol, the price and the count, replacing
any entry there; a cancel (`'X'`, `'x'`) and an execution (`'E'`, `'e'`) of a
reference in the map take their count off the entry, which leaves the map when
fewer than one share is left. An execution also sends the packet on, rewritten
as an `MsgTrade` of the entry's symbol and price and the count executed.

The counts are read into different C types: an add order's as a `long`, handed to
`OrderInfo`'s `int` parameter; a cancel's as an `int64_t`; an execution's as an
`int`. The long layouts give the counts ten digits, so the conversions to `int`
wrap a count from `2^31` on.

## The model

The element's state is the map and the `active` flag. `push` returns the state and
the messages it sends, each the `MsgTrade` the packet is rewritten into; the bytes
of the packet after it are not modelled. The debug prints and the cycle counting
of `REPORT_LATENCY`, which returns at once, change nothing and are left out. The
map is a `Theory.KeyMap`, a map without the order of its buckets, which nothing
here walks.

## What is proved

* `push_add`, `push_cancel`, `push_execute`: a packet of each type at its length
  is handed to the parser of its type.
* `find?_reduceOrder`: what a reduction leaves in the map.
* `add_order_fields`: in either layout, the price of an add order is read as its
  whole part plus its decimal part divided by `10000`, a count field as the value
  of its digits, and the symbol field as the symbol followed by NULs.
-/

namespace Synapse.Chix

open Trade Theory

/-- `ChixTradeHandler::OrderMsgType`. -/
inductive OrderMsgType
  | SHORT
  | LONG
  deriving DecidableEq, Repr

/-- `OrderInfo`. -/
structure OrderInfo where
  /-- `_price`. -/
  price : Fixedpt
  /-- `_shares`. -/
  shares : Int64
  /-- `_symbol`. -/
  symbol : Symbol
  deriving DecidableEq, Repr

/-- `OrderInfo (price, shares, symbol)`: the `int` count widened to the `int64_t`
field. -/
def OrderInfo.new (price : Fixedpt) (shares : Int32) (symbol : Symbol) : OrderInfo :=
  ⟨price, shares.toInt64, symbol⟩

/-- What `push` reads and changes of a `ChixTradeHandler`. -/
structure ChixTradeHandler where
  /-- `_orderMap`, keyed by the `int` reference. -/
  orderMap : KeyMap Int32 OrderInfo
  /-- `_active`. -/
  active : Bool

/-- `ChixTradeHandler ()`: no orders, active. -/
def ChixTradeHandler.initial : ChixTradeHandler := ⟨KeyMap.empty, true⟩

/-- `_mac_ip_udp_len`. -/
def mac_ip_udp_len : ℕ := 42

/-- `md_msg_type_offset` of `push`. -/
def md_msg_type_offset : ℕ := 8

/-- `sizeof (MsgTrade)` under `#pragma pack(1)`: the 8-byte price and size, the
10-byte symbol and the two 8-byte timestamps, with no padding. -/
def MSG_TRADE_SIZE : ℕ := 42

/-- `is_long_enough (msg_type, msg_len, debug)`. -/
def isLongEnough (msgType : UInt8) (msgLen : ℕ) : Bool :=
  match msgType with
  | 65 => msgLen == 42
  | 97 => msgLen == 55
  | 88 => msgLen == 24
  | 120 => msgLen == 28
  | 69 => msgLen == 33
  | 101 => msgLen == 37
  | _ => false

/-! ### The parsers -/

/-- The template parameters of `do_parse_add_order`. -/
structure AddOrderLayout where
  symbolOffset : ℕ
  symbolLen : ℕ
  sharesOffset : ℕ
  sharesLen : ℕ
  refNumOffset : ℕ
  refNumLen : ℕ
  priceOffset : ℕ
  priceLen : ℕ
  priceWholeLen : ℕ

/-- The constants `parse_add_order` instantiates it with. -/
def addOrderLayout : OrderMsgType → AddOrderLayout
  | .SHORT =>
    { symbolOffset := 25, symbolLen := 6, sharesOffset := 19, sharesLen := 6, refNumOffset := 9,
      refNumLen := 9, priceOffset := 31, priceLen := 10, priceWholeLen := 6 }
  | .LONG =>
    { symbolOffset := 29, symbolLen := 6, sharesOffset := 19, sharesLen := 10, refNumOffset := 9,
      refNumLen := 9, priceOffset := 35, priceLen := 19, priceWholeLen := 12 }

/-- The template parameters of `do_parse_cancel_order` and `do_parse_execute_order`. -/
structure ReduceOrderLayout where
  refNumOffset : ℕ
  refNumLen : ℕ
  sharesOffset : ℕ
  sharesLen : ℕ

/-- The constants `parse_cancel_order` instantiates `do_parse_cancel_order` with. -/
def cancelOrderLayout : OrderMsgType → ReduceOrderLayout
  | .SHORT => { refNumOffset := 9, refNumLen := 9, sharesOffset := 18, sharesLen := 6 }
  | .LONG => { refNumOffset := 9, refNumLen := 9, sharesOffset := 18, sharesLen := 10 }

/-- The constants `parse_execute_order` instantiates `do_parse_execute_order` with. -/
def executeOrderLayout : OrderMsgType → ReduceOrderLayout
  | .SHORT => { refNumOffset := 9, refNumLen := 9, sharesOffset := 18, sharesLen := 6 }
  | .LONG => { refNumOffset := 9, refNumLen := 9, sharesOffset := 18, sharesLen := 10 }

/-- `memset (symbol, '\0', ORDER_SYMBOL_LEN); memcpy (symbol, md_msg + SymbolOffset,
SymbolLen)`. -/
def copySymbol (mdMsg : List UInt8) (symbolOffset symbolLen : ℕ) : Symbol :=
  Vector.ofFn fun i => if i.val < symbolLen then (mdMsg.drop symbolOffset).getD i.val 0 else 0

/-- The symbol of `do_parse_add_order`, copied then trimmed. -/
def addOrderSymbol (l : AddOrderLayout) (mdMsg : List UInt8) : Symbol :=
  trimAlphanumericSpaces (copySymbol mdMsg l.symbolOffset l.symbolLen)

/-- The reference of a message, `parse_numeric <const int, RefNumOffset, RefNumLen>`. -/
def refNumOf (refNumOffset refNumLen : ℕ) (mdMsg : List UInt8) : Int32 :=
  Int32.ofInt (parseNumeric refNumOffset refNumLen mdMsg)

/-- `do_parse_add_order <…> (md_msg)`: the `long` count is handed to `OrderInfo`'s
`int` parameter. -/
def ChixTradeHandler.doParseAddOrder (h : ChixTradeHandler) (l : AddOrderLayout) (mdMsg : List UInt8) :
    ChixTradeHandler :=
  let symbol := addOrderSymbol l mdMsg
  let price := parseAddOrderPriceAsFixedpt l.priceOffset l.priceLen l.priceWholeLen mdMsg
  let shares : ℤ := parseNumeric l.sharesOffset l.sharesLen mdMsg
  let refNum := refNumOf l.refNumOffset l.refNumLen mdMsg
  { h with orderMap := h.orderMap.insert refNum (OrderInfo.new price (Int32.ofInt shares) symbol) }

/-- The end of `do_parse_cancel_order` and `do_parse_execute_order`: `shares` taken
off the entry `info` of `refNum`, which leaves the map when fewer than one is left. -/
def reduceOrder (orderMap : KeyMap Int32 OrderInfo) (refNum : Int32) (info : OrderInfo) (shares : Int64) :
    KeyMap Int32 OrderInfo :=
  if info.shares - shares < 1 then orderMap.erase refNum
  else orderMap.insert refNum { info with shares := info.shares - shares }

/-- `do_parse_cancel_order <…> (md_msg)`: the count is an `int64_t`. -/
def ChixTradeHandler.doParseCancelOrder (h : ChixTradeHandler) (l : ReduceOrderLayout) (mdMsg : List UInt8) :
    ChixTradeHandler :=
  let refNum := refNumOf l.refNumOffset l.refNumLen mdMsg
  match h.orderMap.find? refNum with
  | none => h
  | some info =>
    let sharesToCancel : Int64 := Int64.ofInt (parseNumeric l.sharesOffset l.sharesLen mdMsg)
    { h with orderMap := reduceOrder h.orderMap refNum info sharesToCancel }

/-- `send_msg_trade (packet, symbol, price, shares, timestamp)` on a packet of
`packetLen` bytes: the `MsgTrade` it is rewritten into, or nothing when it is too
short to hold one and is discarded. -/
def sendMsgTrade (packetLen : ℕ) (symbol : Symbol) (price : Fixedpt) (shares : Int64) (timestamp : UInt64) :
    List MsgTrade :=
  let msg : MsgTrade := { price, size := shares, symbol, timestamp, srcTimestamp := 0 }
  if MSG_TRADE_SIZE > packetLen then [] else [msg]

/-- `do_parse_execute_order <…> (is_packet_reused, packet, md_msg)`: the count is an
`int`; the timestamp is `atoi` of the message's first eight bytes, an `int` widened
to `uint64_t`. -/
def ChixTradeHandler.doParseExecuteOrder (h : ChixTradeHandler) (l : ReduceOrderLayout) (packetLen : ℕ)
    (mdMsg : List UInt8) : ChixTradeHandler × List MsgTrade :=
  let refNum := refNumOf l.refNumOffset l.refNumLen mdMsg
  match h.orderMap.find? refNum with
  | none => (h, [])
  | some info =>
    let executedShares : Int32 := Int32.ofInt (parseNumeric l.sharesOffset l.sharesLen mdMsg)
    let timestamp : UInt64 := (Int32.ofInt (strtol (mdMsg.take 8 ++ [0]))).toInt64.toUInt64
    let sent := sendMsgTrade packetLen info.symbol info.price executedShares.toInt64 timestamp
    ({ h with orderMap := reduceOrder h.orderMap refNum info executedShares.toInt64 }, sent)

/-- `parse_add_order (md_msg, order_msg_type)`. -/
def ChixTradeHandler.parseAddOrder (h : ChixTradeHandler) (mdMsg : List UInt8) (orderMsgType : OrderMsgType) :
    ChixTradeHandler :=
  h.doParseAddOrder (addOrderLayout orderMsgType) mdMsg

/-- `parse_cancel_order (md_msg, order_msg_type)`. -/
def ChixTradeHandler.parseCancelOrder (h : ChixTradeHandler) (mdMsg : List UInt8)
    (orderMsgType : OrderMsgType) : ChixTradeHandler :=
  h.doParseCancelOrder (cancelOrderLayout orderMsgType) mdMsg

/-- `parse_execute_order (is_packet_reused, packet, md_msg, order_msg_type)`. -/
def ChixTradeHandler.parseExecuteOrder (h : ChixTradeHandler) (packetLen : ℕ) (mdMsg : List UInt8)
    (orderMsgType : OrderMsgType) : ChixTradeHandler × List MsgTrade :=
  h.doParseExecuteOrder (executeOrderLayout orderMsgType) packetLen mdMsg

/-- The `switch (msg_type)` of `push`, for a message that passed the length check. -/
def ChixTradeHandler.switchMsgType (h : ChixTradeHandler) (packetLen : ℕ) (mdMsg : List UInt8) (msgType : UInt8) :
    ChixTradeHandler × List MsgTrade :=
  match msgType with
  | 65 => (h.parseAddOrder mdMsg .SHORT, [])
  | 97 => (h.parseAddOrder mdMsg .LONG, [])
  | 88 => (h.parseCancelOrder mdMsg .SHORT, [])
  | 120 => (h.parseCancelOrder mdMsg .LONG, [])
  | 69 => h.parseExecuteOrder packetLen mdMsg .SHORT
  | 101 => h.parseExecuteOrder packetLen mdMsg .LONG
  | _ => (h, [])

/-- `ChixTradeHandler::push (port, p)`: the state after the packet `p` and the
trades sent. -/
def ChixTradeHandler.push (h : ChixTradeHandler) (p : List UInt8) : ChixTradeHandler × List MsgTrade :=
  if !h.active then (h, [])
  else
    let packetLen := p.length
    if packetLen < mac_ip_udp_len + md_msg_type_offset + 1 then (h, [])
    else
      let mdMsg := p.drop mac_ip_udp_len
      let msgType := mdMsg.getD md_msg_type_offset 0
      if !isLongEnough msgType (packetLen - mac_ip_udp_len) then (h, [])
      else h.switchMsgType packetLen mdMsg msgType

/-! ### The message types -/

/-- The type byte of an add order, `'A'` or `'a'`. -/
def addOrderType : OrderMsgType → UInt8
  | .SHORT => 65
  | .LONG => 97

/-- The type byte of a cancel, `'X'` or `'x'`. -/
def cancelOrderType : OrderMsgType → UInt8
  | .SHORT => 88
  | .LONG => 120

/-- The type byte of an execution, `'E'` or `'e'`. -/
def executeOrderType : OrderMsgType → UInt8
  | .SHORT => 69
  | .LONG => 101

/-- The length `is_long_enough` requires of an add order. -/
def addOrderLen : OrderMsgType → ℕ
  | .SHORT => 42
  | .LONG => 55

/-- The length `is_long_enough` requires of a cancel. -/
def cancelOrderLen : OrderMsgType → ℕ
  | .SHORT => 24
  | .LONG => 28

/-- The length `is_long_enough` requires of an execution. -/
def executeOrderLen : OrderMsgType → ℕ
  | .SHORT => 33
  | .LONG => 37

section Push

variable {h : ChixTradeHandler} {p : List UInt8}

/-- A packet whose message has the length `is_long_enough` requires of its type
reaches the `switch`. -/
theorem push_of_isLongEnough (hact : h.active = true) {len : ℕ} (hlen : (p.drop mac_ip_udp_len).length = len)
    (h24 : 24 ≤ len) (hlong : isLongEnough ((p.drop mac_ip_udp_len).getD md_msg_type_offset 0) len = true) :
    h.push p = h.switchMsgType p.length (p.drop mac_ip_udp_len) ((p.drop mac_ip_udp_len).getD md_msg_type_offset 0) := by
  have hplen : p.length - mac_ip_udp_len = len := by rw [← hlen, List.length_drop]
  have hge : ¬ p.length < mac_ip_udp_len + md_msg_type_offset + 1 := by
    simp only [mac_ip_udp_len, md_msg_type_offset] at hplen ⊢
    omega
  rw [ChixTradeHandler.push, hact]
  dsimp only
  rw [hplen, hlong]
  simp only [Bool.not_true, Bool.false_eq_true, if_false, if_neg hge]

theorem push_add (hact : h.active = true) (t : OrderMsgType)
    (hlen : (p.drop mac_ip_udp_len).length = addOrderLen t)
    (hty : (p.drop mac_ip_udp_len).getD md_msg_type_offset 0 = addOrderType t) :
    h.push p = (h.parseAddOrder (p.drop mac_ip_udp_len) t, []) := by
  rw [push_of_isLongEnough hact hlen (by cases t <;> decide) (by rw [hty]; cases t <;> rfl), hty]
  cases t <;> rfl

theorem push_cancel (hact : h.active = true) (t : OrderMsgType)
    (hlen : (p.drop mac_ip_udp_len).length = cancelOrderLen t)
    (hty : (p.drop mac_ip_udp_len).getD md_msg_type_offset 0 = cancelOrderType t) :
    h.push p = (h.parseCancelOrder (p.drop mac_ip_udp_len) t, []) := by
  rw [push_of_isLongEnough hact hlen (by cases t <;> decide) (by rw [hty]; cases t <;> rfl), hty]
  cases t <;> rfl

theorem push_execute (hact : h.active = true) (t : OrderMsgType)
    (hlen : (p.drop mac_ip_udp_len).length = executeOrderLen t)
    (hty : (p.drop mac_ip_udp_len).getD md_msg_type_offset 0 = executeOrderType t) :
    h.push p = h.parseExecuteOrder p.length (p.drop mac_ip_udp_len) t := by
  rw [push_of_isLongEnough hact hlen (by cases t <;> decide) (by rw [hty]; cases t <;> rfl), hty]
  cases t <;> rfl

end Push

/-! ### What the parsers leave in the map -/

theorem find?_reduceOrder (m : KeyMap Int32 OrderInfo) (refNum : Int32) (info : OrderInfo) (shares : Int64)
    (k : Int32) :
    (reduceOrder m refNum info shares).find? k =
      if k = refNum then
        (if info.shares - shares < 1 then none else some { info with shares := info.shares - shares })
      else m.find? k := by
  unfold reduceOrder
  by_cases hk : k = refNum
  · subst hk
    rw [if_pos rfl]
    split_ifs <;> simp
  · split_ifs <;> simp [KeyMap.find?_erase, KeyMap.find?_insert, hk]

/-! ### Reading an add order -/

/-- The symbol copied out of a message that holds its `SymbolLen` bytes. -/
theorem toList_copySymbol {mdMsg : List UInt8} {symbolOffset symbolLen : ℕ}
    (hlen : symbolOffset + symbolLen ≤ mdMsg.length) (h10 : symbolLen ≤ ORDER_SYMBOL_LEN) :
    (copySymbol mdMsg symbolOffset symbolLen).toList =
      (mdMsg.drop symbolOffset).take symbolLen ++ List.replicate (ORDER_SYMBOL_LEN - symbolLen) 0 := by
  have htake : ((mdMsg.drop symbolOffset).take symbolLen).length = symbolLen := by simp; omega
  apply List.ext_getElem (by simp [htake]; omega)
  intro i h₁ h₂
  simp only [copySymbol, Vector.getElem_toList, Vector.getElem_ofFn]
  by_cases hi : i < symbolLen
  · rw [if_pos hi, List.getElem_append_left (by omega), List.getElem_take, ← List.getElem_eq_getD]
  · rw [if_neg hi, List.getElem_append_right (by omega), List.getElem_replicate]

/-- **Reading an add order.** In either layout: a price field of a whole part `W`
below `2^23`, blank-padded, and a decimal part `D` is read as `W` plus `D` divided
by `10000`; a field of blanks and digits as the value of its digits; and a symbol
field of a symbol without blanks, blank-padded, as that symbol followed by NULs. -/
theorem add_order_fields (t : OrderMsgType) {mdMsg wds dds : List UInt8} {k : ℕ}
    (hprice : PriceField (addOrderLayout t).priceOffset (addOrderLayout t).priceLen
      (addOrderLayout t).priceWholeLen k mdMsg wds dds)
    (hW : digitsValue wds < 2 ^ 23) {offset len n : ℕ} (hnum : DecimalField mdMsg offset len n) (h18 : len ≤ 18)
    {s : List UInt8} (hsym : (mdMsg.drop (addOrderLayout t).symbolOffset).take 6 =
      s ++ List.replicate (6 - s.length) SPACE) (hs : s ≠ []) (hsp : SPACE ∉ s) :
    parseAddOrderPriceAsFixedpt (addOrderLayout t).priceOffset (addOrderLayout t).priceLen
        (addOrderLayout t).priceWholeLen mdMsg =
      fixedptFromint (digitsValue wds) + fixedptDiv (fixedptFromint (digitsValue dds)) (fixedptFromint 10000) ∧
    parseNumeric offset len mdMsg = n ∧
    (addOrderSymbol (addOrderLayout t) mdMsg).toList = s ++ List.replicate (ORDER_SYMBOL_LEN - s.length) 0 := by
  have hsl : s.length ≤ 6 := by
    have := congrArg List.length hsym
    simp only [List.length_take, List.length_append, List.length_replicate] at this
    omega
  have hmsg : (addOrderLayout t).symbolOffset + 6 ≤ mdMsg.length := by
    have := congrArg List.length hsym
    simp only [List.length_take, List.length_drop, List.length_append, List.length_replicate] at this
    omega
  -- the decimal part has at most seven digits
  have hD : digitsValue dds < 2 ^ 31 := by
    have h1 := digitsValue_lt hprice.decimal_digits
    have h2 : dds.length ≤ 7 := by rw [hprice.decimal_len]; cases t <;> decide
    have h3 : 10 ^ dds.length ≤ 10 ^ 7 := Nat.pow_le_pow_right (by omega) h2
    omega
  have hlayout : 0 < (addOrderLayout t).priceWholeLen ∧
      (addOrderLayout t).priceWholeLen < (addOrderLayout t).priceLen ∧ (addOrderLayout t).priceWholeLen ≤ 18 ∧
      (addOrderLayout t).priceLen - (addOrderLayout t).priceWholeLen ≤ 18 := by
    cases t <;> decide
  have hsymlen : (addOrderLayout t).symbolLen = 6 := by cases t <;> rfl
  refine ⟨parseAddOrderPriceAsFixedpt_of_digits hprice hlayout.1 hlayout.2.1 hlayout.2.2.1 hlayout.2.2.2
    (by omega) hD, parseNumeric_of_decimalField hnum h18, ?_⟩
  have hcopy := toList_copySymbol hmsg (by decide)
  rw [hsym, List.append_assoc] at hcopy
  rw [addOrderSymbol, hsymlen, trimAlphanumericSpaces_padded hcopy hs hsp (by simp +contextual [or_imp])]
  simp only [List.length_append, List.length_replicate, ORDER_SYMBOL_LEN]
  congr 2
  omega

/-- A long add order of reference `1`, `100` shares of `ABC` at `1.5`: its price
field is eleven blanks, the whole part `1`, then the decimal part `5000000`. -/
def longAddOrder : List UInt8 :=
  List.replicate 8 48 ++ [97] ++ [48, 48, 48, 48, 48, 48, 48, 48, 49] ++ [66] ++
    [48, 48, 48, 48, 48, 48, 48, 49, 48, 48] ++ [65, 66, 67, 32, 32, 32] ++
    List.replicate 11 32 ++ [49] ++ [53, 48, 48, 48, 48, 48, 48] ++ [89]

/-- The price `1.5` of the long add order is read as `501`: its seven-digit decimal
part is divided by `10000`, where `1 + 5000000 / 10^7` is `1.5`. -/
theorem long_add_order_price :
    parseAddOrderPriceAsFixedpt 35 19 12 longAddOrder = fixedptFromint 501 ∧
      fixedptFromint 1 + fixedptDiv (fixedptFromint 5000000) (fixedptFromint (10 ^ 7)) ≠ fixedptFromint 501 := by
  have hprice : PriceField 35 19 12 11 longAddOrder [49] [53, 48, 48, 48, 48, 48, 48] :=
    ⟨rfl, rfl, rfl, by decide, by decide⟩
  have hnum : DecimalField longAddOrder 19 10 100 :=
    ⟨by decide, 0, [48, 48, 48, 48, 48, 48, 48, 49, 48, 48], rfl, by decide, rfl⟩
  have hsym : (longAddOrder.drop 29).take 6 = [65, 66, 67] ++ List.replicate (6 - 3) SPACE := rfl
  have h := (add_order_fields .LONG hprice (by decide) hnum (by decide) hsym (by decide) (by decide)).1
  exact ⟨h.trans (by decide), by decide⟩

end Synapse.Chix
