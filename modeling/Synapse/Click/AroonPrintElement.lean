import Synapse.Click.AroonPrint
import Synapse.Chix.Book

/-!
# `AroonPrint`, the Aroon indicator of the executions of `LLOYl` orders

`AroonPrint` (`elements/standard/aroon_print.cc`) reads the ITCH message at offset `66`
of each packet and keeps the open orders of `LLOYl` in `_orderMap`, by reference. An
add order of `LLOYl` puts its price and shares under its reference; a cancel takes
shares off an order it finds; an execution of an order it finds first feeds the order's
price to the element's `AroonIndicator` (`aroon_print.hh`), then takes the shares off.
An order with fewer than one share left leaves the map. Every packet passes unchanged.

## The model

A packet is its bytes. A push returns the packet and what the element prints after an
execution: the price and the indicator's Aroon Up and Down. The static readers copy a
field into a zeroed buffer and read it with `atoi`, the `strtol` of `Trade` as an `int`.
`double (whole) + double (decimal) / double (10000)`, which `parseAddOrderPrice`
computes from the two parts of a price, is the parameter `toPrice`, so what is proved
holds whatever that conversion rounds to. The constructor leaves `_active` unset, as
the body of `configure` is commented out; the element is taken to be active. A branch
that reads a field beyond the end of the packet, which the check of `75` bytes does not
prevent, is not modelled (`none`). `OrderInfo::_counter` is only read by commented-out
code.

The book the element is meant to keep is `LloylBook`: the price and shares of each
reference of a `LLOYl` order, over the messages of the feed read as numbers
(`FeedMsg`), with the indicator fed the price of every execution of an order in it.

## What is proved

* `atoiField_of_decimalField`: a field of blanks and at most nine digits is read as its
  value.
* `AroonPrint.Holds.step`: a packet that carries a message leaves the map holding the
  book after the message, and the element prints what the book reports.
* `aroon_print_refines`: over every run of packets that carry messages, from the
  element as constructed and the empty book, the element returns every packet, prints
  what the book reports, and ends holding the book's orders and its indicator.
-/

namespace Synapse.Click

open Trade Theory
open Chix (copyToZeroed SPACE DecimalField)

/-- `atoi (str)`: `strtol (str, NULL, 10)` as an `int`. -/
def atoi (str : List UInt8) : Int32 := Int32.ofInt (strtol str)

namespace AroonPrint

/-- The static readers of `aroon_print.cc`: `atoi` of a buffer of `bufLen` NULs into
which the `len` bytes of the message from `offset` are copied. -/
def atoiField (bufLen offset len : ℕ) (msg : List UInt8) : Int32 :=
  atoi (copyToZeroed bufLen (msg.drop offset) len)

/-- `parseAddOrderShares (msg)`. -/
def parseAddOrderShares (msg : List UInt8) : Int32 := atoiField 10 19 6 msg

/-- `parseAddOrderRefNum (msg)`. -/
def parseAddOrderRefNum (msg : List UInt8) : Int32 := atoiField 15 9 9 msg

/-- `parseCancelMsgRefNum (msg)`. -/
def parseCancelMsgRefNum (msg : List UInt8) : Int32 := atoiField 15 9 9 msg

/-- `parseCancelledShares (msg)`. -/
def parseCancelledShares (msg : List UInt8) : Int32 := atoiField 15 18 6 msg

/-- `parseExecuteMsgRefNum (msg)`. -/
def parseExecuteMsgRefNum (msg : List UInt8) : Int32 := atoiField 15 9 9 msg

/-- `parseExecutedShares (msg)`. -/
def parseExecutedShares (msg : List UInt8) : Int32 := atoiField 15 18 6 msg

/-- `parseAddOrderPrice (msg)`: the whole part of six bytes from `31` and the decimal
part of four after it, each read by `atoi`, and the `double` `toPrice` makes of them. -/
def parseAddOrderPrice {D : Type} (toPrice : Int32 → Int32 → D) (msg : List UInt8) : D :=
  toPrice (atoiField 10 31 6 msg) (atoiField 10 (31 + 6) 4 msg)

/-- `OrderInfo`: the price and the shares of an order. -/
structure OrderInfo (D : Type) where
  /-- `_price`. -/
  price : D
  /-- `_shares`. -/
  shares : Int32

end AroonPrint

/-- `AroonPrint`. -/
structure AroonPrint (D : Type) where
  /-- `_orderMap`. -/
  orderMap : KeyMap Int32 (AroonPrint.OrderInfo D)
  /-- `_aroonIndicator`. -/
  aroonIndicator : AroonIndicator D
  /-- `_active`. -/
  active : Bool

namespace AroonPrint

variable {D : Type} [LinearOrder D] (toPrice : Int32 → Int32 → D)

/-- `AroonPrint ()`, with `_active`, which it leaves unset, taken to be `true`. -/
def new : AroonPrint D := ⟨KeyMap.empty, AroonIndicator.new, true⟩

/-- `"LLOYl "`, the one symbol whose orders are kept. -/
def LLOYL : List UInt8 := [76, 76, 79, 89, 108, 32]

/-- The shares `n` taken off the order `info` of `refNum`, which leaves the map when
fewer than one is left: the tail of the branches `'X'` and `'E'`. -/
def reduceOrder (orderMap : KeyMap Int32 (OrderInfo D)) (refNum : Int32) (info : OrderInfo D) (n : Int32) :
    KeyMap Int32 (OrderInfo D) :=
  if info.shares - n < 1 then orderMap.erase refNum
  else orderMap.insert refNum { info with shares := info.shares - n }

/-- `simple_action (p)`: the element after it, the packet, and what it prints after an
execution, the price and Aroon Up and Down; `none` where it reads beyond the packet. -/
def simpleAction (e : AroonPrint D) (p : List UInt8) : Option (AroonPrint D × (List UInt8 × Option (D × ℚ × ℚ))) :=
  if !e.active then some (e, (p, none))
  else if p.length < 75 then some (e, (p, none))
  else
    let mdMsg := p.drop 66
    let msgType := mdMsg.getD 8 0
    if msgType = 65 then
      -- `'A'`: the symbol, then the fields of an order of `LLOYl`
      if p.length < 66 + 31 then none
      else if (mdMsg.drop 25).take 6 = LLOYL then
        if p.length < 66 + 41 then none
        else
          let price := parseAddOrderPrice toPrice mdMsg
          let shares := parseAddOrderShares mdMsg
          let refNum := parseAddOrderRefNum mdMsg
          some (⟨e.orderMap.insert refNum ⟨price, shares⟩, e.aroonIndicator, e.active⟩, (p, none))
      else some (e, (p, none))
    else if msgType = 88 then
      -- `'X'`
      if p.length < 66 + 24 then none
      else
        let refNum := parseCancelMsgRefNum mdMsg
        match e.orderMap.find? refNum with
        | none => some (e, (p, none))
        | some info =>
          let sharesToCancel := parseCancelledShares mdMsg
          some (⟨reduceOrder e.orderMap refNum info sharesToCancel, e.aroonIndicator, e.active⟩, (p, none))
    else if msgType = 69 then
      -- `'E'`: the order's price feeds the indicator before its shares are taken off
      if p.length < 66 + 24 then none
      else
        let refNum := parseExecuteMsgRefNum mdMsg
        match e.orderMap.find? refNum with
        | none => some (e, (p, none))
        | some info =>
          let aroonIndicator := updateIndicator e.aroonIndicator info.price
          let executedShares := parseExecutedShares mdMsg
          some (⟨reduceOrder e.orderMap refNum info executedShares, aroonIndicator, e.active⟩,
            (p, some (info.price, aroonIndicator.getAroonUpIndicator, aroonIndicator.getAroonDownIndicator)))
    else some (e, (p, none))

/-- A stream of packets. -/
def run (e : AroonPrint D) (ps : List (List UInt8)) :
    Option (AroonPrint D × List (List UInt8 × Option (D × ℚ × ℚ))) :=
  runSteps (fun e p => simpleAction toPrice e p) e ps

end AroonPrint

/-! ### The book of `LLOYl` orders -/

/-- A message of the feed as `AroonPrint` reads it, references and counts as numbers. -/
inductive FeedMsg (D : Type)
  /-- An add order of `LLOYl`: its reference, price and shares. -/
  | add (ref : ℕ) (price : D) (shares : ℕ)
  /-- A cancel of shares of a reference. -/
  | cancel (ref shares : ℕ)
  /-- An execution of shares of a reference. -/
  | execute (ref shares : ℕ)
  /-- Anything else: a short packet, a message of another type, an add order of another
  symbol. -/
  | other

/-- The orders of `LLOYl`, the price and shares of each reference, and the indicator fed
the price of each execution. -/
structure LloylBook (D : Type) where
  /-- The order of each reference, if any. -/
  orders : ℕ → Option (D × ℕ)
  /-- The indicator. -/
  indicator : AroonIndicator D

namespace LloylBook

variable {D : Type} [LinearOrder D] {b : LloylBook D}

/-- No order, a fresh indicator. -/
def empty : LloylBook D := ⟨fun _ => none, AroonIndicator.new⟩

/-- `n` shares taken off the order `(price, shares)` of `ref`, which leaves when fewer
than one is left. -/
def reduce (b : LloylBook D) (ref : ℕ) (price : D) (shares n : ℕ) : ℕ → Option (D × ℕ) :=
  Function.update b.orders ref (if shares < n + 1 then none else some (price, shares - n))

/-- One message: the book after it, and what an execution of an order in the book
reports: its price and the Aroon Up and Down of the indicator fed it. -/
def apply (b : LloylBook D) : FeedMsg D → LloylBook D × Option (D × ℚ × ℚ)
  | .add ref price n => (⟨Function.update b.orders ref (some (price, n)), b.indicator⟩, none)
  | .cancel ref n =>
    match b.orders ref with
    | none => (b, none)
    | some (price, shares) => (⟨b.reduce ref price shares n, b.indicator⟩, none)
  | .execute ref n =>
    match b.orders ref with
    | none => (b, none)
    | some (price, shares) =>
      let indicator := AroonPrint.updateIndicator b.indicator price
      (⟨b.reduce ref price shares n, indicator⟩,
        some (price, indicator.getAroonUpIndicator, indicator.getAroonDownIndicator))
  | .other => (b, none)

theorem apply_of_none {ref n : ℕ} {m : FeedMsg D} (hm : m = .cancel ref n ∨ m = .execute ref n)
    (hb : b.orders ref = none) : b.apply m = (b, none) := by
  rcases hm with rfl | rfl <;> simp [apply, hb]

theorem apply_cancel_of_some {ref n shares : ℕ} {price : D} (hb : b.orders ref = some (price, shares)) :
    b.apply (.cancel ref n) = (⟨b.reduce ref price shares n, b.indicator⟩, none) := by
  simp [apply, hb]

theorem apply_execute_of_some {ref n shares : ℕ} {price : D} (hb : b.orders ref = some (price, shares)) :
    b.apply (.execute ref n) =
      (⟨b.reduce ref price shares n, AroonPrint.updateIndicator b.indicator price⟩,
        some (price, (AroonPrint.updateIndicator b.indicator price).getAroonUpIndicator,
          (AroonPrint.updateIndicator b.indicator price).getAroonDownIndicator)) := by
  simp [apply, hb]

end LloylBook

/-! ### Fields -/

/-- Blanks before a string are skipped by `strtol`. -/
theorem strtol_replicate_space_append (k : ℕ) (s : List UInt8) : strtol (List.replicate k SPACE ++ s) = strtol s := by
  have hblank : (List.replicate k SPACE).dropWhile isSpace = [] :=
    List.dropWhile_eq_nil_iff.2 fun c hc => by rw [List.eq_of_mem_replicate hc]; rfl
  unfold strtol
  rw [List.dropWhile_append, hblank]
  rfl

/-- A field of blanks and at most nine digits, copied into a larger buffer, is read by
`atoi` as its value. -/
theorem atoiField_of_decimalField {msg : List UInt8} {bufLen offset len n : ℕ} (hf : DecimalField msg offset len n)
    (hbuf : len < bufLen) (h9 : len ≤ 9) : AroonPrint.atoiField bufLen offset len msg = Int32.ofInt n := by
  obtain ⟨-, k, ds, hfield, hd, rfl⟩ := hf
  have hk : ds.length ≤ len := by
    have := congrArg List.length hfield
    simp only [List.length_take, List.length_drop, List.length_append, List.length_replicate] at this
    omega
  -- the buffer is the blanks, the digits and at least one NUL
  obtain ⟨j, hj⟩ : ∃ j, bufLen - len = j + 1 := ⟨bufLen - len - 1, by omega⟩
  have hbuffer : copyToZeroed bufLen (msg.drop offset) len = List.replicate k SPACE ++ (ds ++ 0 :: List.replicate j 0) := by
    rw [copyToZeroed, hfield, hj, List.replicate_succ, List.append_assoc]
  rw [AroonPrint.atoiField, atoi, hbuffer, strtol_replicate_space_append, Chix.strtol_digits_nul hd (by omega)]

/-- A field of at most nine digits holds a value that an `int` keeps. -/
theorem toInt_ofInt_of_decimalField {msg : List UInt8} {offset len n : ℕ} (hf : DecimalField msg offset len n)
    (h9 : len ≤ 9) : (Int32.ofInt n).toInt = n := by
  have hlt := hf.lt_pow
  have hpow : 10 ^ len ≤ 10 ^ 9 := Nat.pow_le_pow_right (by omega) h9
  exact Int32.toInt_ofInt_of_le (by omega) (by omega)

/-! ### The map and the book -/

namespace AroonPrint

variable {D : Type} {toPrice : Int32 → Int32 → D}

/-- What the map keeps of an order. -/
def OrderInfo.view (info : OrderInfo D) : D × ℕ := (info.price, info.shares.toInt.toNat)

/-- The packet `p` carries the message `m`: the bytes of `m`'s type at offset `8` of the
ITCH message, and its fields, of blanks and digits, within the packet. -/
inductive Carries (toPrice : Int32 → Int32 → D) : List UInt8 → FeedMsg D → Prop
  /-- A packet of fewer than `75` bytes. -/
  | short {p : List UInt8} : p.length < 75 → Carries toPrice p .other
  /-- A message of another type than `'A'`, `'X'` or `'E'`. -/
  | otherType {p : List UInt8} : 75 ≤ p.length → (p.drop 66).getD 8 0 ≠ 65 → (p.drop 66).getD 8 0 ≠ 88 →
      (p.drop 66).getD 8 0 ≠ 69 → Carries toPrice p .other
  /-- An add order of another symbol. -/
  | otherSymbol {p : List UInt8} : (p.drop 66).getD 8 0 = 65 → 66 + 31 ≤ p.length →
      ((p.drop 66).drop 25).take 6 ≠ LLOYL → Carries toPrice p .other
  /-- An add order of `LLOYl`, its price in a whole part of six bytes and a decimal part
  of four. -/
  | add {p : List UInt8} {ref shares w d : ℕ} : (p.drop 66).getD 8 0 = 65 → 66 + 41 ≤ p.length →
      ((p.drop 66).drop 25).take 6 = LLOYL → DecimalField (p.drop 66) 9 9 ref →
      DecimalField (p.drop 66) 19 6 shares → DecimalField (p.drop 66) 31 6 w → DecimalField (p.drop 66) 37 4 d →
      Carries toPrice p (.add ref (toPrice (Int32.ofInt w) (Int32.ofInt d)) shares)
  /-- A cancel. -/
  | cancel {p : List UInt8} {ref shares : ℕ} : (p.drop 66).getD 8 0 = 88 → 66 + 24 ≤ p.length →
      DecimalField (p.drop 66) 9 9 ref → DecimalField (p.drop 66) 18 6 shares → Carries toPrice p (.cancel ref shares)
  /-- An execution. -/
  | execute {p : List UInt8} {ref shares : ℕ} : (p.drop 66).getD 8 0 = 69 → 66 + 24 ≤ p.length →
      DecimalField (p.drop 66) 9 9 ref → DecimalField (p.drop 66) 18 6 shares → Carries toPrice p (.execute ref shares)

/-- The element holds the book `b`: it is active, its indicator is the book's, the
order of each reference of at most nine digits is under its `int`, with the book's
price and shares, and every order has fewer than a million shares, none negative. -/
structure Holds (e : AroonPrint D) (b : LloylBook D) : Prop where
  active : e.active = true
  indicator_eq : e.aroonIndicator = b.indicator
  find : ∀ ref : ℕ, ref < 10 ^ 9 → (e.orderMap.find? (Int32.ofInt ref)).map OrderInfo.view = b.orders ref
  shares : ∀ key info, e.orderMap.find? key = some info → 0 ≤ info.shares.toInt ∧ info.shares.toInt < 10 ^ 6

theorem holds_new : (new : AroonPrint D).Holds LloylBook.empty where
  active := rfl
  indicator_eq := rfl
  find _ _ := rfl
  shares _ _ h := by simp [new] at h

variable {e : AroonPrint D} {b : LloylBook D}

theorem Holds.find?_of_none (h : e.Holds b) {ref : ℕ} (hlt : ref < 10 ^ 9) (hb : b.orders ref = none) :
    e.orderMap.find? (Int32.ofInt ref) = none := by
  have := h.find ref hlt
  rwa [hb, Option.map_eq_none_iff] at this

theorem Holds.find?_of_some (h : e.Holds b) {ref : ℕ} (hlt : ref < 10 ^ 9) {x : D × ℕ} (hb : b.orders ref = some x) :
    ∃ info, e.orderMap.find? (Int32.ofInt ref) = some info ∧ info.view = x := by
  have := h.find ref hlt
  rwa [hb, Option.map_eq_some_iff] at this

/-- An add order: the map and the book both take the order. -/
theorem Holds.insert (h : e.Holds b) {ref n : ℕ} (hlt : ref < 10 ^ 9) (hn : n < 10 ^ 6) (price : D) :
    Holds ⟨e.orderMap.insert (Int32.ofInt ref) ⟨price, Int32.ofInt n⟩, e.aroonIndicator, e.active⟩
      ⟨Function.update b.orders ref (some (price, n)), b.indicator⟩ where
  active := h.active
  indicator_eq := h.indicator_eq
  find r hr := by
    dsimp only
    rw [KeyMap.find?_insert]
    by_cases hrr : r = ref
    · subst hrr
      simp [OrderInfo.view, Int32.toInt_ofInt_of_le (n := n) (by omega) (by omega)]
    · rw [if_neg (by rwa [Chix.ofInt_eq_ofInt_iff hr hlt]), Function.update_of_ne hrr]
      exact h.find r hr
  shares key info hk := by
    rw [KeyMap.find?_insert] at hk
    split_ifs at hk
    · cases hk
      rw [Int32.toInt_ofInt_of_le (n := n) (by omega) (by omega)]
      omega
    · exact h.shares key info hk

/-- A cancel or an execution of an order in the book: the map and the book both take
the shares off it. -/
theorem Holds.reduce (h : e.Holds b) {ref n : ℕ} (hlt : ref < 10 ^ 9) (hn : n < 10 ^ 6) {price : D} {shares : ℕ}
    {info : OrderInfo D} (hinfo : e.orderMap.find? (Int32.ofInt ref) = some info) (hview : info.view = (price, shares))
    (indicator : AroonIndicator D) :
    Holds ⟨reduceOrder e.orderMap (Int32.ofInt ref) info (Int32.ofInt n), indicator, e.active⟩
      ⟨b.reduce ref price shares n, indicator⟩ := by
  have hs := h.shares _ info hinfo
  have hprice : info.price = price := congrArg Prod.fst hview
  have hshares : info.shares.toInt = shares := by
    have := congrArg Prod.snd hview
    simp only [OrderInfo.view] at this
    omega
  have hn' : (Int32.ofInt n).toInt = n := Int32.toInt_ofInt_of_le (by omega) (by omega)
  -- the shares are taken off without wrapping
  have hsub : (info.shares - Int32.ofInt n).toInt = shares - n := by
    rw [Int32.toInt_sub, hshares, hn', Int.bmod_eq_of_le (by omega) (by omega)]
  have hlow : info.shares - Int32.ofInt n < 1 ↔ shares < n + 1 := by
    rw [Int32.lt_iff_toInt_lt, hsub]
    constructor <;> intro hl
    · change (shares : ℤ) - n < 1 at hl
      omega
    · change (shares : ℤ) - n < 1
      omega
  refine ⟨h.active, rfl, fun r hr => ?_, fun key i hk => ?_⟩
  · dsimp only
    unfold reduceOrder LloylBook.reduce
    by_cases hrr : r = ref
    · subst hrr
      rw [Function.update_self]
      by_cases hl : shares < n + 1
      · rw [if_pos (hlow.2 hl), if_pos hl, KeyMap.find?_erase_self]
        rfl
      · rw [if_neg (fun h' => hl (hlow.1 h')), if_neg hl, KeyMap.find?_insert_self]
        simp only [Option.map_some, OrderInfo.view, hsub, hprice]
        congr
        omega
    · have hne : Int32.ofInt r ≠ Int32.ofInt ref := by rwa [Ne, Chix.ofInt_eq_ofInt_iff hr hlt]
      rw [Function.update_of_ne hrr]
      split_ifs
      · rw [KeyMap.find?_erase, if_neg hne]
        exact h.find r hr
      · rw [KeyMap.find?_insert, if_neg hne]
        exact h.find r hr
  · dsimp only at hk
    unfold reduceOrder at hk
    split_ifs at hk with hl
    · rw [KeyMap.find?_erase] at hk
      split_ifs at hk
      exact h.shares key i hk
    · rw [KeyMap.find?_insert] at hk
      split_ifs at hk
      · cases hk
        rw [hsub]
        rw [hlow] at hl
        omega
      · exact h.shares key i hk

/-! ### The branches of `simple_action` -/

section Branches

variable [LinearOrder D] {p : List UInt8}

/-- A packet shorter than `75` bytes passes with nothing printed. -/
theorem simpleAction_of_short (hact : e.active = true) (hshort : p.length < 75) :
    simpleAction toPrice e p = some (e, (p, none)) := by
  rw [simpleAction, if_neg (by simp [hact]), if_pos hshort]

/-- A message of another type than `'A'`, `'X'` or `'E'` passes with nothing printed. -/
theorem simpleAction_of_otherType (hact : e.active = true) (h75 : 75 ≤ p.length) (h65 : (p.drop 66).getD 8 0 ≠ 65)
    (h88 : (p.drop 66).getD 8 0 ≠ 88) (h69 : (p.drop 66).getD 8 0 ≠ 69) :
    simpleAction toPrice e p = some (e, (p, none)) := by
  rw [simpleAction, if_neg (by simp [hact]), if_neg (not_lt.2 h75)]
  dsimp only
  rw [if_neg h65, if_neg h88, if_neg h69]

/-- An add order of another symbol passes with nothing printed. -/
theorem simpleAction_of_otherSymbol (hact : e.active = true) (h65 : (p.drop 66).getD 8 0 = 65)
    (h31 : 66 + 31 ≤ p.length) (hsym : ((p.drop 66).drop 25).take 6 ≠ LLOYL) :
    simpleAction toPrice e p = some (e, (p, none)) := by
  rw [simpleAction, if_neg (by simp [hact]), if_neg (by omega)]
  dsimp only
  rw [if_pos h65, if_neg (not_lt.2 h31), if_neg hsym]

/-- An add order of `LLOYl` puts the order under its reference. -/
theorem simpleAction_add (hact : e.active = true) (h65 : (p.drop 66).getD 8 0 = 65) (h41 : 66 + 41 ≤ p.length)
    (hsym : ((p.drop 66).drop 25).take 6 = LLOYL) :
    simpleAction toPrice e p = some (⟨e.orderMap.insert (parseAddOrderRefNum (p.drop 66))
      ⟨parseAddOrderPrice toPrice (p.drop 66), parseAddOrderShares (p.drop 66)⟩, e.aroonIndicator, e.active⟩,
        (p, none)) := by
  rw [simpleAction, if_neg (by simp [hact]), if_neg (by omega)]
  dsimp only
  rw [if_pos h65, if_neg (by omega), if_pos hsym, if_neg (not_lt.2 h41)]

/-- A cancel of a reference takes the shares off its order, if it finds one. -/
theorem simpleAction_cancel (hact : e.active = true) (h88 : (p.drop 66).getD 8 0 = 88) (h24 : 66 + 24 ≤ p.length) :
    simpleAction toPrice e p =
      match e.orderMap.find? (parseCancelMsgRefNum (p.drop 66)) with
      | none => some (e, (p, none))
      | some info =>
        some (⟨reduceOrder e.orderMap (parseCancelMsgRefNum (p.drop 66)) info (parseCancelledShares (p.drop 66)),
          e.aroonIndicator, e.active⟩, (p, none)) := by
  rw [simpleAction, if_neg (by simp [hact]), if_neg (by omega)]
  dsimp only
  rw [if_neg (by rw [h88]; decide), if_pos h88, if_neg (not_lt.2 h24)]

/-- An execution of a reference feeds the price of its order to the indicator and takes
the shares off, if it finds one. -/
theorem simpleAction_execute (hact : e.active = true) (h69 : (p.drop 66).getD 8 0 = 69) (h24 : 66 + 24 ≤ p.length) :
    simpleAction toPrice e p =
      match e.orderMap.find? (parseExecuteMsgRefNum (p.drop 66)) with
      | none => some (e, (p, none))
      | some info =>
        some (⟨reduceOrder e.orderMap (parseExecuteMsgRefNum (p.drop 66)) info (parseExecutedShares (p.drop 66)),
          updateIndicator e.aroonIndicator info.price, e.active⟩,
          (p, some (info.price, (updateIndicator e.aroonIndicator info.price).getAroonUpIndicator,
            (updateIndicator e.aroonIndicator info.price).getAroonDownIndicator))) := by
  rw [simpleAction, if_neg (by simp [hact]), if_neg (by omega)]
  dsimp only
  rw [if_neg (by rw [h69]; decide), if_neg (by rw [h69]; decide), if_pos h69, if_neg (not_lt.2 h24)]

end Branches

/-! ### The element over a run -/

section Run

variable [LinearOrder D]

/-- **One packet** that carries a message: the element returns the packet, prints what
the book reports for the message, and holds the book after it. -/
theorem Holds.step (h : e.Holds b) {p : List UInt8} {m : FeedMsg D} (hc : Carries toPrice p m) :
    ∃ e', simpleAction toPrice e p = some (e', (p, (b.apply m).2)) ∧ e'.Holds (b.apply m).1 := by
  cases hc with
  | short hshort => exact ⟨e, simpleAction_of_short h.active hshort, h⟩
  | otherType h75 h65 h88 h69 => exact ⟨e, simpleAction_of_otherType h.active h75 h65 h88 h69, h⟩
  | otherSymbol h65 h31 hsym => exact ⟨e, simpleAction_of_otherSymbol h.active h65 h31 hsym, h⟩
  | add h65 h41 hsym href hshares hw hd =>
    -- the fields read as the values of their digits
    rw [simpleAction_add h.active h65 h41 hsym, parseAddOrderRefNum, atoiField_of_decimalField href (by decide) le_rfl,
      parseAddOrderPrice, atoiField_of_decimalField hw (by decide) (by decide),
      atoiField_of_decimalField hd (by decide) (by decide), parseAddOrderShares,
      atoiField_of_decimalField hshares (by decide) (by decide)]
    exact ⟨_, rfl, h.insert href.lt_pow hshares.lt_pow _⟩
  | @cancel ref n h88 h24 href hshares =>
    have hlt := href.lt_pow
    rw [simpleAction_cancel h.active h88 h24, parseCancelMsgRefNum, atoiField_of_decimalField href (by decide) le_rfl,
      parseCancelledShares, atoiField_of_decimalField hshares (by decide) (by decide)]
    rcases hb : b.orders ref with _ | ⟨price, shares⟩
    · -- no order of the reference: nothing changes
      rw [h.find?_of_none hlt hb, LloylBook.apply_of_none (.inl rfl) hb]
      exact ⟨e, rfl, h⟩
    · obtain ⟨info, hinfo, hview⟩ := h.find?_of_some hlt hb
      rw [hinfo, LloylBook.apply_cancel_of_some hb, ← h.indicator_eq]
      exact ⟨_, rfl, h.reduce hlt hshares.lt_pow hinfo hview e.aroonIndicator⟩
  | @execute ref n h69 h24 href hshares =>
    have hlt := href.lt_pow
    rw [simpleAction_execute h.active h69 h24, parseExecuteMsgRefNum, atoiField_of_decimalField href (by decide) le_rfl,
      parseExecutedShares, atoiField_of_decimalField hshares (by decide) (by decide)]
    rcases hb : b.orders ref with _ | ⟨price, shares⟩
    · rw [h.find?_of_none hlt hb, LloylBook.apply_of_none (.inr rfl) hb]
      exact ⟨e, rfl, h⟩
    · -- the order's price feeds both indicators, which were the same
      obtain ⟨info, hinfo, hview⟩ := h.find?_of_some hlt hb
      have hprice : info.price = price := congrArg Prod.fst hview
      rw [hinfo, LloylBook.apply_execute_of_some hb, ← h.indicator_eq]
      dsimp only
      rw [hprice]
      exact ⟨_, rfl, h.reduce hlt hshares.lt_pow hinfo hview _⟩

/-- The run: from an element that holds a book, packets that carry messages are returned,
print what the book reports, and leave the element holding the book after them. -/
theorem Holds.run {ps : List (List UInt8)} {ms : List (FeedMsg D)} (hc : List.Forall₂ (Carries toPrice) ps ms) :
    ∀ {e : AroonPrint D} {b : LloylBook D}, e.Holds b →
      ∃ e' b' prints, run toPrice e ps = some (e', ps.zip prints) ∧
        runSteps (fun b m => some (b.apply m)) b ms = some (b', prints) ∧ e'.Holds b' := by
  induction hc with
  | nil => exact fun {e b} h => ⟨e, b, [], rfl, rfl, h⟩
  | @cons p m ps ms hpm _ ih =>
    intro e b h
    obtain ⟨e₁, hstep, h₁⟩ := h.step hpm
    obtain ⟨e', b', prints, hrun, hbook, h'⟩ := ih h₁
    exact ⟨e', b', (b.apply m).2 :: prints, runSteps_cons_of_eq hstep hrun, runSteps_cons_of_eq rfl hbook, h'⟩

end Run

end AroonPrint

/-- **What `AroonPrint` keeps.** Over every run of packets that carry messages of the
feed, from the element as constructed, taken to be active, and the empty book of
`LLOYl` orders, the element returns every packet unchanged; what it prints for each is
what the book reports for the message, the price of an execution of an order in the
book with the Aroon Up and Down of the indicator fed the prices of all such executions
so far; and its map ends holding the book's orders, with their prices and shares. -/
theorem aroon_print_refines {D : Type} [LinearOrder D] (toPrice : Int32 → Int32 → D) {ps : List (List UInt8)}
    {ms : List (FeedMsg D)} (hc : List.Forall₂ (AroonPrint.Carries toPrice) ps ms) :
    ∃ e' b' prints, AroonPrint.new.run toPrice ps = some (e', ps.zip prints) ∧
      runSteps (fun b m => some (b.apply m)) LloylBook.empty ms = some (b', prints) ∧ e'.Holds b' :=
  AroonPrint.Holds.run hc AroonPrint.holds_new

/-- A price as the exact sum of its whole part and its decimal part over `10000`. -/
def exactPrice (wholePartInt decimalPartInt : Int32) : ℚ := wholePartInt.toInt + decimalPartInt.toInt / 10000

/-- An add order of reference `1`: `100` shares of `LLOYl` at `12.5`, after the headers. -/
def lloylAddPacket : List UInt8 :=
  List.replicate 66 0 ++ List.replicate 8 48 ++ [65] ++ [48, 48, 48, 48, 48, 48, 48, 48, 49] ++ [66] ++
    [48, 48, 48, 49, 48, 48] ++ AroonPrint.LLOYL ++ [32, 32, 32, 32, 49, 50] ++ [53, 48, 48, 48]

/-- An execution of `40` shares of reference `1`, after the headers. -/
def lloylExecutePacket : List UInt8 :=
  List.replicate 66 0 ++ List.replicate 8 48 ++ [69] ++ [48, 48, 48, 48, 48, 48, 48, 48, 49] ++ [48, 48, 48, 48, 52, 48]

/-- The add order and the execution: the element keeps the order, then feeds `12.5` to
its indicator and keeps `60` shares, as the book does. -/
theorem aroon_print_add_execute :
    ∃ e' b' prints, AroonPrint.new.run exactPrice [lloylAddPacket, lloylExecutePacket] =
        some (e', [lloylAddPacket, lloylExecutePacket].zip prints) ∧
      runSteps (fun b m => some (b.apply m)) LloylBook.empty
          [.add 1 (exactPrice (Int32.ofInt 12) (Int32.ofInt 5000)) 100, .execute 1 40] = some (b', prints) ∧
      e'.Holds b' :=
  aroon_print_refines exactPrice
    (.cons (.add rfl (by decide) rfl ⟨by decide, 0, [48, 48, 48, 48, 48, 48, 48, 48, 49], rfl, by decide, rfl⟩
        ⟨by decide, 0, [48, 48, 48, 49, 48, 48], rfl, by decide, rfl⟩ ⟨by decide, 4, [49, 50], rfl, by decide, rfl⟩
        ⟨by decide, 0, [53, 48, 48, 48], rfl, by decide, rfl⟩)
      (.cons (.execute rfl (by decide) ⟨by decide, 0, [48, 48, 48, 48, 48, 48, 48, 48, 49], rfl, by decide, rfl⟩
          ⟨by decide, 0, [48, 48, 48, 48, 52, 48], rfl, by decide, rfl⟩) .nil))

end Synapse.Click
