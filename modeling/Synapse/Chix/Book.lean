import Synapse.Chix.TradeHandler
import Synapse.Theory.Transducer

/-!
# The order book of `ChixTradeHandler` and its reference

The book the CHI-X handler is meant to keep: an entry (symbol, price, shares) for
each reference. An add order sets the entry of its reference, replacing any; a
cancel or an execution of a reference in the book takes its count off the entry,
which leaves the book when fewer than one share is left; an execution of a
reference in the book reports a trade of the entry's symbol and price and of the
count executed. Messages about a reference not in the book do nothing.

A packet carries a message when its message has the type and the exact length
`is_long_enough` requires and its reference and count fields hold the decimal
values of the message's (`Reads`); the symbol and the price of an add order are
what the handler reads of them (`add_order_fields`).

## What is proved

* `Holds.push`: the step. From a map that holds the book, a packet that carries a
  message whose count is below `2^31` leaves a map that holds the book after the
  message, and sends the trade the book reports, if any.
* `Book.low_lastOn`: an entry of the book with fewer than one share was added with
  no share by the last message about its reference.
* `order_book_refines`: over every run of such packets, `_orderMap` holds the
  book, the trades sent are those it reports, and an entry added with at least
  one share keeps one.
* `execute_count_wraps`: a long execution of `2^31` shares is read as `-2^31`;
  the trade sent carries `-2^31` shares and the entry grows instead of leaving.
-/

namespace Synapse.Chix

open Trade Theory

/-! ### The reference book -/

/-- An entry of the book. -/
structure BookEntry where
  symbol : Symbol
  price : Fixedpt
  shares : ℤ
  deriving DecidableEq, Repr

/-- A message of the feed, its reference and its count read as numbers. -/
inductive BookMsg
  | add (ref : ℕ) (symbol : Symbol) (price : Fixedpt) (n : ℕ)
  | cancel (ref n : ℕ)
  | execute (ref n : ℕ)
  deriving DecidableEq, Repr

/-- The reference a message is about. -/
def BookMsg.ref : BookMsg → ℕ
  | .add ref _ _ _ => ref
  | .cancel ref _ => ref
  | .execute ref _ => ref

/-- The count of a message. -/
def BookMsg.count : BookMsg → ℕ
  | .add _ _ _ n => n
  | .cancel _ n => n
  | .execute _ n => n

/-- A trade: symbol, price and count. -/
abbrev BookTrade := Symbol × Fixedpt × ℤ

/-- The book: the entry of each reference, if any. -/
abbrev Book := ℕ → Option BookEntry

namespace Book

/-- The book with no entry. -/
def empty : Book := fun _ => none

/-- `n` shares taken off the entry `e` of `ref`; it leaves when fewer than one is left. -/
def reduce (b : Book) (ref : ℕ) (e : BookEntry) (n : ℕ) : Book :=
  Function.update b ref (if e.shares - n < 1 then none else some { e with shares := e.shares - n })

/-- One message: the book after it and the trade it reports. -/
def apply (b : Book) : BookMsg → Book × Option BookTrade
  | .add ref symbol price n => (Function.update b ref (some ⟨symbol, price, n⟩), none)
  | .cancel ref n =>
    match b ref with
    | none => (b, none)
    | some e => (b.reduce ref e n, none)
  | .execute ref n =>
    match b ref with
    | none => (b, none)
    | some e => (b.reduce ref e n, some (e.symbol, e.price, n))

/-- The last message about `ref`, if any. -/
def lastOn (ref : ℕ) (msgs : List BookMsg) : Option BookMsg := (msgs.filter (·.ref == ref)).getLast?

theorem reduce_self (b : Book) (ref : ℕ) (e : BookEntry) (n : ℕ) :
    b.reduce ref e n ref = if e.shares - n < 1 then none else some { e with shares := e.shares - n } := by
  simp [reduce]

theorem reduce_of_ne (b : Book) {ref r : ℕ} (h : r ≠ ref) (e : BookEntry) (n : ℕ) : b.reduce ref e n r = b r := by
  simp [reduce, h]

/-- An entry left by a reduction keeps at least one share. -/
theorem one_le_of_reduce {b : Book} {ref : ℕ} {e e' : BookEntry} {n : ℕ} (h : b.reduce ref e n ref = some e') :
    1 ≤ e'.shares := by
  rw [reduce_self] at h
  split_ifs at h with hlt
  cases h
  simp only
  omega

/-- A message about another reference leaves the entry of `ref` as it is. -/
theorem apply_of_ne (b : Book) {m : BookMsg} {ref : ℕ} (h : m.ref ≠ ref) : (b.apply m).1 ref = b ref := by
  cases m with
  | add r s p n =>
    simp only [BookMsg.ref] at h
    simp [apply, Function.update_of_ne (Ne.symm h)]
  | cancel r n =>
    simp only [BookMsg.ref] at h
    simp only [apply]
    split <;> simp [reduce_of_ne b (Ne.symm h)]
  | execute r n =>
    simp only [BookMsg.ref] at h
    simp only [apply]
    split <;> simp [reduce_of_ne b (Ne.symm h)]

/-- After one message, an entry with fewer than one share is the one an add of no
share just made, or was there before and the message was about another reference. -/
theorem apply_low {b : Book} {m : BookMsg} {ref : ℕ} {e : BookEntry} (h : (b.apply m).1 ref = some e)
    (hlow : e.shares < 1) : m = .add ref e.symbol e.price 0 ∨ (m.ref ≠ ref ∧ b ref = some e) := by
  by_cases hr : m.ref = ref
  · left
    cases m with
    | add r s p n =>
      obtain rfl : r = ref := hr
      simp only [apply, Function.update_self, Option.some.injEq] at h
      subst h
      simp only at hlow ⊢
      obtain rfl : n = 0 := by omega
      rfl
    | cancel r n =>
      obtain rfl : r = ref := hr
      simp only [apply] at h
      split at h
      · next hb => simp [hb] at h
      · next e' _ => exact absurd (one_le_of_reduce h) (by omega)
    | execute r n =>
      obtain rfl : r = ref := hr
      simp only [apply] at h
      split at h
      · next hb => simp [hb] at h
      · next e' _ => exact absurd (one_le_of_reduce h) (by omega)
  · right
    exact ⟨hr, by rwa [apply_of_ne b hr] at h⟩

theorem lastOn_cons (ref : ℕ) (m : BookMsg) (msgs : List BookMsg) :
    lastOn ref (m :: msgs) = (lastOn ref msgs).or (if m.ref = ref then some m else none) := by
  unfold lastOn
  by_cases hr : m.ref = ref
  · rw [List.filter_cons_of_pos (by simpa using hr), List.getLast?_cons, if_pos hr]
    cases (msgs.filter (·.ref == ref)).getLast? <;> rfl
  · rw [List.filter_cons_of_neg (by simpa using hr), if_neg hr, Option.or_none]

/-- **Entries below one share.** Over a run of the book, an entry with fewer than
one share at the end was added with no share by the last message about its
reference, or was there from the start, untouched. -/
theorem low_lastOn : ∀ (msgs : List BookMsg) (b b' : Book) (trades : List (Option BookTrade)),
    runSteps (fun b m => some (Book.apply b m)) b msgs = some (b', trades) →
    ∀ ref e, b' ref = some e → e.shares < 1 →
      lastOn ref msgs = some (.add ref e.symbol e.price 0) ∨ (lastOn ref msgs = none ∧ b ref = some e) := by
  intro msgs
  induction msgs with
  | nil =>
    intro b b' trades h ref e he _
    simp only [runSteps_nil, Option.some.injEq, Prod.mk.injEq] at h
    obtain ⟨rfl, -⟩ := h
    exact .inr ⟨rfl, he⟩
  | cons m ms ih =>
    intro b b' trades h ref e he hlow
    obtain ⟨b₁, o, os, h₁, h₂, -⟩ := runSteps_cons_eq_some.1 h
    obtain rfl : (b.apply m).1 = b₁ := congrArg Prod.fst (Option.some.inj h₁)
    rw [lastOn_cons]
    rcases ih _ _ _ h₂ ref e he hlow with hlast | ⟨hnone, hb₁⟩
    · -- a later message about `ref` was the add
      exact .inl (by rw [hlast]; rfl)
    · -- no later message about `ref`: this one made the entry, or left it alone
      rw [hnone]
      rcases apply_low hb₁ hlow with rfl | ⟨hne, hb⟩
      · exact .inl (by simp [BookMsg.ref])
      · exact .inr ⟨by simp [hne], hb⟩

end Book

/-! ### What a packet carries -/

/-- A field of blanks and digits holds fewer digits than its width. -/
theorem DecimalField.lt_pow {msg : List UInt8} {offset len n : ℕ} (hf : DecimalField msg offset len n) :
    n < 10 ^ len := by
  obtain ⟨-, k, ds, hfield, hd, rfl⟩ := hf
  have hds : ds.length ≤ len := by
    have := congrArg List.length hfield
    simp only [List.length_take, List.length_append, List.length_replicate] at this
    omega
  exact lt_of_lt_of_le (digitsValue_lt hd) (Nat.pow_le_pow_right (by omega) hds)

/-- The packet `p` carries the message `m`: the message after the headers has the
type and the exact length of `m`'s kind in one of the two layouts, and its
reference and count fields hold `m`'s numbers in decimal. -/
inductive Reads (p : List UInt8) : BookMsg → Prop
  | add (t : OrderMsgType) (ref n : ℕ)
      (hlen : (p.drop mac_ip_udp_len).length = addOrderLen t)
      (hty : (p.drop mac_ip_udp_len).getD md_msg_type_offset 0 = addOrderType t)
      (href : DecimalField (p.drop mac_ip_udp_len) (addOrderLayout t).refNumOffset
        (addOrderLayout t).refNumLen ref)
      (hn : DecimalField (p.drop mac_ip_udp_len) (addOrderLayout t).sharesOffset
        (addOrderLayout t).sharesLen n) :
      Reads p (.add ref (addOrderSymbol (addOrderLayout t) (p.drop mac_ip_udp_len))
        (parseAddOrderPriceAsFixedpt (addOrderLayout t).priceOffset (addOrderLayout t).priceLen
          (addOrderLayout t).priceWholeLen (p.drop mac_ip_udp_len)) n)
  | cancel (t : OrderMsgType) (ref n : ℕ)
      (hlen : (p.drop mac_ip_udp_len).length = cancelOrderLen t)
      (hty : (p.drop mac_ip_udp_len).getD md_msg_type_offset 0 = cancelOrderType t)
      (href : DecimalField (p.drop mac_ip_udp_len) (cancelOrderLayout t).refNumOffset
        (cancelOrderLayout t).refNumLen ref)
      (hn : DecimalField (p.drop mac_ip_udp_len) (cancelOrderLayout t).sharesOffset
        (cancelOrderLayout t).sharesLen n) :
      Reads p (.cancel ref n)
  | execute (t : OrderMsgType) (ref n : ℕ)
      (hlen : (p.drop mac_ip_udp_len).length = executeOrderLen t)
      (hty : (p.drop mac_ip_udp_len).getD md_msg_type_offset 0 = executeOrderType t)
      (href : DecimalField (p.drop mac_ip_udp_len) (executeOrderLayout t).refNumOffset
        (executeOrderLayout t).refNumLen ref)
      (hn : DecimalField (p.drop mac_ip_udp_len) (executeOrderLayout t).sharesOffset
        (executeOrderLayout t).sharesLen n) :
      Reads p (.execute ref n)

theorem addOrderLayout_lens (t : OrderMsgType) :
    (addOrderLayout t).refNumLen = 9 ∧ (addOrderLayout t).sharesLen ≤ 18 := by
  cases t <;> decide

theorem cancelOrderLayout_lens (t : OrderMsgType) :
    (cancelOrderLayout t).refNumLen = 9 ∧ (cancelOrderLayout t).sharesLen ≤ 18 := by
  cases t <;> decide

theorem executeOrderLayout_lens (t : OrderMsgType) :
    (executeOrderLayout t).refNumLen = 9 ∧ (executeOrderLayout t).sharesLen ≤ 18 := by
  cases t <;> decide

/-! ### The map and the book -/

/-- What `_orderMap` keeps of an entry. -/
def OrderInfo.view (info : OrderInfo) : BookEntry := ⟨info.symbol, info.price, info.shares.toInt⟩

/-- What a trade message says. -/
def tradeView (msg : MsgTrade) : BookTrade := (msg.symbol, msg.price, msg.size.toInt)

/-- `_orderMap` holds the book `b`: the entry of each reference of at most nine
digits is under its `int`, and the map has no other key; the book has no other
reference, and each of its counts is one an `int` holds, none negative. -/
structure Holds (m : KeyMap Int32 OrderInfo) (b : Book) : Prop where
  find : ∀ ref : ℕ, ref < 10 ^ 9 → (m.find? (Int32.ofInt ref)).map OrderInfo.view = b ref
  keys : ∀ key info, m.find? key = some info → ∃ ref : ℕ, ref < 10 ^ 9 ∧ key = Int32.ofInt ref
  small : ∀ ref, 10 ^ 9 ≤ ref → b ref = none
  shares : ∀ ref e, b ref = some e → 0 ≤ e.shares ∧ e.shares < 2 ^ 31

theorem ofInt_eq_ofInt_iff {a b : ℕ} (ha : a < 10 ^ 9) (hb : b < 10 ^ 9) :
    Int32.ofInt a = Int32.ofInt b ↔ a = b := by
  constructor
  · intro h
    have h' := congrArg Int32.toInt h
    rw [Int32.toInt_ofInt_of_le (by omega) (by omega), Int32.toInt_ofInt_of_le (by omega) (by omega)] at h'
    exact_mod_cast h'
  · rintro rfl
    rfl

theorem toInt_toInt64_ofInt {n : ℕ} (h : n < 2 ^ 31) : (Int32.ofInt n).toInt64.toInt = n := by
  rw [Int32.toInt_toInt64, Int32.toInt_ofInt_of_le (by omega) (by omega)]

theorem holds_empty : Holds KeyMap.empty Book.empty where
  find _ _ := rfl
  keys _ _ h := by simp at h
  small _ _ := rfl
  shares _ _ h := by cases h

section Holds

variable {m : KeyMap Int32 OrderInfo} {b : Book}

theorem Holds.find?_of_none (hh : Holds m b) {ref : ℕ} (hlt : ref < 10 ^ 9) (hb : b ref = none) :
    m.find? (Int32.ofInt ref) = none := by
  have := hh.find ref hlt
  rwa [hb, Option.map_eq_none_iff] at this

theorem Holds.find?_of_some (hh : Holds m b) {ref : ℕ} (hlt : ref < 10 ^ 9) {e : BookEntry} (hb : b ref = some e) :
    ∃ info, m.find? (Int32.ofInt ref) = some info ∧ info.view = e := by
  have := hh.find ref hlt
  rwa [hb, Option.map_eq_some_iff] at this

/-- An add order: the map and the book both take the new entry. -/
theorem Holds.insert (hh : Holds m b) {ref n : ℕ} (hlt : ref < 10 ^ 9) (hn : n < 2 ^ 31) (price : Fixedpt)
    (symbol : Symbol) :
    Holds (m.insert (Int32.ofInt ref) (OrderInfo.new price (Int32.ofInt n) symbol))
      (Function.update b ref (some ⟨symbol, price, n⟩)) where
  find r hr := by
    rw [KeyMap.find?_insert]
    by_cases hrr : r = ref
    · subst hrr
      simp [OrderInfo.view, OrderInfo.new, toInt_toInt64_ofInt hn]
    · rw [if_neg (by rwa [ofInt_eq_ofInt_iff hr hlt]), Function.update_of_ne hrr]
      exact hh.find r hr
  keys key info h := by
    rw [KeyMap.find?_insert] at h
    split_ifs at h with hk
    · exact ⟨ref, hlt, hk⟩
    · exact hh.keys key info h
  small r hr := by
    rw [Function.update_of_ne (by omega)]
    exact hh.small r hr
  shares r e h := by
    by_cases hrr : r = ref
    · subst hrr
      simp only [Function.update_self, Option.some.injEq] at h
      subst h
      simp only
      omega
    · rw [Function.update_of_ne hrr] at h
      exact hh.shares r e h

/-- A cancel or an execution of an entry in the book: the map and the book both
take the count off it. -/
theorem Holds.reduce (hh : Holds m b) {ref n : ℕ} (hlt : ref < 10 ^ 9) (hn : n < 2 ^ 31) {e : BookEntry}
    (hb : b ref = some e) {info : OrderInfo} (hview : info.view = e) {c : Int64} (hc : c.toInt = n) :
    Holds (reduceOrder m (Int32.ofInt ref) info c) (b.reduce ref e n) := by
  have he := hh.shares ref e hb
  have hshares : info.shares.toInt = e.shares := by rw [← hview]; rfl
  -- the count is taken off without wrapping
  have hsub : (info.shares - c).toInt = e.shares - n := by
    rw [Int64.toInt_sub, hshares, hc, Int.bmod_eq_of_le (by omega) (by omega)]
  have hlow : info.shares - c < 1 ↔ e.shares - n < 1 := by
    rw [Int64.lt_iff_toInt_lt, hsub]
    rfl
  have hnew : ({ info with shares := info.shares - c } : OrderInfo).view = { e with shares := e.shares - n } := by
    rw [← hview]
    simp only [OrderInfo.view, hsub, hshares]
  refine ⟨fun r hr => ?_, fun key i h => ?_, fun r hr => ?_, fun r e' h => ?_⟩
  · rw [find?_reduceOrder]
    by_cases hrr : r = ref
    · subst hrr
      rw [if_pos rfl, Book.reduce_self]
      by_cases hl : e.shares - n < 1
      · rw [if_pos (hlow.2 hl), if_pos hl]
        rfl
      · rw [if_neg (fun h => hl (hlow.1 h)), if_neg hl, Option.map_some, hnew]
    · rw [if_neg (by rwa [ofInt_eq_ofInt_iff hr hlt]), Book.reduce_of_ne b hrr]
      exact hh.find r hr
  · rw [find?_reduceOrder] at h
    split_ifs at h with hk
    · exact ⟨ref, hlt, hk⟩
    · exact hh.keys key i h
  · rw [Book.reduce_of_ne b (by omega)]
    exact hh.small r hr
  · by_cases hrr : r = ref
    · subst hrr
      have h1 := Book.one_le_of_reduce h
      rw [Book.reduce_self] at h
      split_ifs at h
      cases h
      simp only at h1 ⊢
      omega
    · rw [Book.reduce_of_ne b hrr] at h
      exact hh.shares r e' h

end Holds

/-- **The step.** From an active handler whose map holds the book, a packet that
carries a message with a count below `2^31` leaves an active handler whose map
holds the book after the message, and sends the trade the book reports. -/
theorem Holds.push {h : ChixTradeHandler} {b : Book} (hact : h.active = true) (hh : Holds h.orderMap b)
    {p : List UInt8} {m : BookMsg} (hr : Reads p m) (hc : m.count < 2 ^ 31) :
    (h.push p).1.active = true ∧ Holds (h.push p).1.orderMap (b.apply m).1 ∧
      (h.push p).2.map tradeView = (b.apply m).2.toList := by
  cases hr with
  | add t ref n hlen hty href hn =>
    change n < 2 ^ 31 at hc
    obtain ⟨h9, h18⟩ := addOrderLayout_lens t
    have hlt := href.lt_pow
    rw [h9] at hlt
    rw [push_add hact t hlen hty]
    simp only [ChixTradeHandler.parseAddOrder, ChixTradeHandler.doParseAddOrder, refNumOf,
      parseNumeric_of_decimalField href (by omega), parseNumeric_of_decimalField hn h18]
    exact ⟨hact, hh.insert hlt hc _ _, rfl⟩
  | cancel t ref n hlen hty href hn =>
    change n < 2 ^ 31 at hc
    obtain ⟨h9, h18⟩ := cancelOrderLayout_lens t
    have hlt := href.lt_pow
    rw [h9] at hlt
    rw [push_cancel hact t hlen hty]
    simp only [ChixTradeHandler.parseCancelOrder, ChixTradeHandler.doParseCancelOrder, refNumOf,
      parseNumeric_of_decimalField href (by omega), parseNumeric_of_decimalField hn h18]
    cases hb : b ref with
    | none =>
      rw [hh.find?_of_none hlt hb]
      simp only [Book.apply, hb]
      exact ⟨hact, hh, rfl⟩
    | some e =>
      obtain ⟨info, hfind, hview⟩ := hh.find?_of_some hlt hb
      rw [hfind]
      simp only [Book.apply, hb]
      exact ⟨hact, hh.reduce hlt hc hb hview (Int64.toInt_ofInt_of_le (by omega) (by omega)), rfl⟩
  | execute t ref n hlen hty href hn =>
    change n < 2 ^ 31 at hc
    obtain ⟨h9, h18⟩ := executeOrderLayout_lens t
    have hlt := href.lt_pow
    rw [h9] at hlt
    -- the packet holds the headers and the message, room for an `MsgTrade`
    have hroom : ¬ MSG_TRADE_SIZE > p.length := by
      have hp := hlen
      rw [List.length_drop] at hp
      have : 33 ≤ executeOrderLen t := by cases t <;> decide
      simp only [MSG_TRADE_SIZE, mac_ip_udp_len] at hp ⊢
      omega
    rw [push_execute hact t hlen hty]
    simp only [ChixTradeHandler.parseExecuteOrder, ChixTradeHandler.doParseExecuteOrder, refNumOf,
      parseNumeric_of_decimalField href (by omega), parseNumeric_of_decimalField hn h18]
    cases hb : b ref with
    | none =>
      rw [hh.find?_of_none hlt hb]
      simp only [Book.apply, hb]
      exact ⟨hact, hh, rfl⟩
    | some e =>
      obtain ⟨info, hfind, hview⟩ := hh.find?_of_some hlt hb
      rw [hfind]
      simp only [Book.apply, hb, sendMsgTrade, if_neg hroom]
      refine ⟨hact, hh.reduce hlt hc hb hview (toInt_toInt64_ofInt hc), ?_⟩
      rw [← hview]
      simp only [List.map_cons, List.map_nil, tradeView, OrderInfo.view, toInt_toInt64_ofInt hc,
        Option.toList_some]

/-- **The book the handler keeps.** Over every run of packets that carry messages
whose counts are below `2^31`: `_orderMap` holds the book the messages build, each
packet sends the trade the book reports for its message and no other, and an entry
with fewer than one share was added with none by the last message about its
reference. -/
theorem order_book_refines {packets : List (List UInt8)} {msgs : List BookMsg}
    (hreads : List.Forall₂ (fun p m => Reads p m ∧ m.count < 2 ^ 31) packets msgs) :
    ∃ h outs b trades,
      runSteps (fun h p => some (h.push p)) ChixTradeHandler.initial packets = some (h, outs) ∧
      runSteps (fun b m => some (Book.apply b m)) Book.empty msgs = some (b, trades) ∧
      Holds h.orderMap b ∧ List.Forall₂ (fun o t => o.map tradeView = t.toList) outs trades ∧
      ∀ ref e, b ref = some e → 1 ≤ e.shares ∨ Book.lastOn ref msgs = some (.add ref e.symbol e.price 0) := by
  have hstep : ∀ (h : ChixTradeHandler) (b : Book) p m, (h.active = true ∧ Holds h.orderMap b) →
      (Reads p m ∧ m.count < 2 ^ 31) → ∃ h' b' o t, some (h.push p) = some (h', o) ∧
        some (b.apply m) = some (b', t) ∧ (h'.active = true ∧ Holds h'.orderMap b') ∧ o.map tradeView = t.toList := by
    rintro h b p m ⟨hact, hh⟩ ⟨hr, hc⟩
    obtain ⟨hact', hh', hout⟩ := hh.push hact hr hc
    exact ⟨_, _, _, _, rfl, rfl, ⟨hact', hh'⟩, hout⟩
  obtain ⟨h, b, outs, trades, hrun, hbook, ⟨-, hholds⟩, hout⟩ :=
    runSteps_forall₂ _ _ _ hstep hreads ChixTradeHandler.initial Book.empty ⟨rfl, holds_empty⟩
  refine ⟨h, outs, b, trades, hrun, hbook, hholds, hout, fun ref e he => ?_⟩
  rcases Int.lt_or_le e.shares 1 with hlow | hone
  · -- a low entry: the book started empty, so an add made it
    rcases Book.low_lastOn msgs _ _ _ hbook ref e he hlow with hlast | ⟨-, hempty⟩
    · exact .inr hlast
    · cases hempty
  · exact .inl hone

/-- A short add order of reference `1`: `100` shares of `ABC` at `1.5`, after the
headers. -/
def shortAddPacket : List UInt8 :=
  List.replicate 42 0 ++ List.replicate 8 48 ++ [65] ++ [48, 48, 48, 48, 48, 48, 48, 48, 49] ++ [66] ++
    [48, 48, 48, 49, 48, 48] ++ [65, 66, 67, 32, 32, 32] ++ [32, 32, 32, 32, 32, 49] ++ [53, 48, 48, 48] ++ [89]

/-- A short execution of `40` shares of reference `1`, after the headers. -/
def shortExecutePacket : List UInt8 :=
  List.replicate 42 0 ++ List.replicate 8 48 ++ [69] ++ [48, 48, 48, 48, 48, 48, 48, 48, 49] ++
    [48, 48, 48, 48, 52, 48] ++ List.replicate 9 48

/-- The messages the two packets carry. -/
def addExecuteMsgs : List BookMsg :=
  [.add 1 (addOrderSymbol (addOrderLayout .SHORT) (shortAddPacket.drop mac_ip_udp_len))
      (parseAddOrderPriceAsFixedpt 31 10 6 (shortAddPacket.drop mac_ip_udp_len)) 100,
    .execute 1 40]

theorem order_book_add_execute :
    ∃ h outs b trades,
      runSteps (fun h p => some (h.push p)) ChixTradeHandler.initial [shortAddPacket, shortExecutePacket] =
        some (h, outs) ∧
      runSteps (fun b m => some (Book.apply b m)) Book.empty addExecuteMsgs = some (b, trades) ∧
      Holds h.orderMap b ∧ List.Forall₂ (fun o t => o.map tradeView = t.toList) outs trades ∧
      ∀ ref e, b ref = some e → 1 ≤ e.shares ∨ Book.lastOn ref addExecuteMsgs = some (.add ref e.symbol e.price 0) :=
  order_book_refines
    (.cons ⟨.add .SHORT 1 100 rfl rfl
        ⟨by decide, 0, [48, 48, 48, 48, 48, 48, 48, 48, 49], rfl, by decide, rfl⟩
        ⟨by decide, 0, [48, 48, 48, 49, 48, 48], rfl, by decide, rfl⟩, by decide⟩
      (.cons ⟨.execute .SHORT 1 40 rfl rfl
          ⟨by decide, 0, [48, 48, 48, 48, 48, 48, 48, 48, 49], rfl, by decide, rfl⟩
          ⟨by decide, 0, [48, 48, 48, 48, 52, 48], rfl, by decide, rfl⟩, by decide⟩ .nil))

/-- A long execution of `2147483648` shares of reference `1`, after the headers. -/
def longExecutePacket : List UInt8 :=
  List.replicate 42 0 ++ List.replicate 8 48 ++ [101] ++ [48, 48, 48, 48, 48, 48, 48, 48, 49] ++
    [50, 49, 52, 55, 52, 56, 51, 54, 52, 56] ++ List.replicate 9 48

/-- **The count of a long execution wraps.** The packet carries an execution of
`2^31` shares of reference `1`. After the add of `100` of them, the handler sends a
trade of `-2^31` shares and leaves the entry with `100 + 2^31`, where the book
removes the entry and reports `2^31`. -/
theorem execute_count_wraps :
    Reads longExecutePacket (.execute 1 (2 ^ 31)) ∧
      ((ChixTradeHandler.initial.push shortAddPacket).1.push longExecutePacket).2.map (·.size.toInt) =
        [-2 ^ 31] ∧
      ((((ChixTradeHandler.initial.push shortAddPacket).1.push longExecutePacket).1.orderMap.find? 1).map
        (·.shares.toInt)) = some (100 + 2 ^ 31) := by
  refine ⟨.execute .LONG 1 (2 ^ 31) rfl rfl
    ⟨by decide, 0, [48, 48, 48, 48, 48, 48, 48, 48, 49], rfl, by decide, rfl⟩
    ⟨by decide, 0, [50, 49, 52, 55, 52, 56, 51, 54, 52, 56], rfl, by decide, rfl⟩, ?_, ?_⟩
  · decide
  · decide

end Synapse.Chix
