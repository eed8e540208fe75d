import Mathlib
import Synapse.Trade.MsgParsing

/-!
# What `populate_msg_trade` accepts

The byte loop of `populate_msg_trade` read a field at a time. A payload is its
fields joined by bars (`List.splitOn` and `List.intercalate`); every byte of a
field leaves the loop's state as it is, and each bar acts on the message through
the field it closes and the bytes after it (`barEffect`). `barsEffect` runs the
bars in turn, and `tradeOfFields` says in full what a payload of given fields
decodes to.

## What is proved

* `forRange_intercalate`: the byte loop over a payload is `barsEffect` over its
  fields.
* `decodeAt_eq_decodeFields`: on a packet with its timestamp, the decoder is the
  field-level one; `decodeFields_eq_tradeOfFields` spells the latter out.
* `trade_decoding`: both decoders on every packet: a packet too short for the
  loop makes it read past its end; otherwise the outcome is `tradeOfFields`, which
  accepts any payload with one to four bars.
* `short_frames_read_past`: the guard of the `TradeProcessor` version counts the
  headers but not the timestamp, and the hand-coded version has none, so a frame
  of 45 bytes, or a packet of 7, is read past its end.
-/

namespace Synapse.Trade

open Theory

/-! ### The loop, a byte at a time -/

section Bytes

variable {md : List UInt8} {mdLen i : ℕ} {st : ScanState}

theorem scanStep_of_ne {c : UInt8} (h : md[i]? = some c) (hc : c ≠ BAR) :
    scanStep md mdLen i st = .cont st := by
  simp [scanStep, h, hc]

theorem scanStep_of_bar (h : md[i]? = some BAR) :
    scanStep md mdLen i st = onBar md mdLen i st (st.counter + 1) := by
  simp [scanStep, h]

theorem scanStep_of_length_le (h : md.length ≤ i) : scanStep md mdLen i st = .undef := by
  simp [scanStep, List.getElem?_eq_none h]

/-- The bytes of a field without a bar leave the loop's state as it is. -/
theorem forRange_field {pre f : List UInt8} (hf : BAR ∉ f) (hmd : (pre ++ f).IsPrefix md) :
    forRange (scanStep md mdLen) pre.length f.length st = .cont st := by
  obtain ⟨rest, rfl⟩ := hmd
  refine forRange_of_forall_cont fun j hj hj' => ?_
  have hget : (pre ++ f ++ rest)[j]? = some f[j - pre.length] := by
    rw [List.append_assoc, List.getElem?_append_right hj, List.getElem?_append_left (by omega),
      List.getElem?_eq_getElem (by omega)]
  exact scanStep_of_ne hget fun h => hf (h ▸ List.getElem_mem _)

end Bytes

/-! ### A bar, at the level of fields -/

/-- What the `counter`-th bar does to the message, `field` being the field it closes
and `rest` the bytes after it. -/
def barEffect (msg : MsgTrade) (counter : ℕ) (field rest : List UInt8) : Flow MsgTrade Bool :=
  if counter ≤ 2 then .cont msg
  else if counter = 3 then
    if field.length > ORDER_SYMBOL_LEN - 1 then .ret false
    else .cont { msg with symbol := strncpy msg.symbol field field.length }
  else if counter = 4 then
    match parsePriceAsFixedpt field with
    | none => .undef
    | some price =>
      if rest = [] then .ret false
      else .cont { msg with price := price, size := Int64.ofInt (strtol rest) }
  else .ret false

/-- A bar at position `pre.length + f.length`, closing the field `f` that starts
where the last field ended, is `barEffect` on `f` and the bytes after it. -/
theorem onBar_eq {pre f rest : List UInt8} {st : ScanState} (hst : st.componentStart = pre.length)
    (counter : ℕ) :
    onBar (pre ++ f ++ BAR :: rest) (pre ++ f ++ BAR :: rest).length (pre.length + f.length) st counter =
      (barEffect st.msg counter f rest).map fun msg => ⟨pre.length + f.length + 1, counter, msg⟩ := by
  have hfield : ((pre ++ f ++ BAR :: rest).drop st.componentStart).take
      (pre.length + f.length - st.componentStart) = f := by
    rw [hst, Nat.add_sub_cancel_left, List.append_assoc, List.drop_left, List.take_left]
  have hsize : ((pre ++ f ++ BAR :: rest).drop (pre.length + f.length + 1)).take
      ((pre ++ f ++ BAR :: rest).length - (pre.length + f.length) - 1) = rest := by
    have hdrop : (pre ++ f ++ BAR :: rest).drop (pre.length + f.length + 1) = rest := by
      rw [List.append_cons (pre ++ f) BAR rest]
      exact List.drop_left' (by simp; omega)
    rw [hdrop, List.take_of_length_le (by simp; omega)]
  have hend : pre.length + f.length + 1 ≥ (pre ++ f ++ BAR :: rest).length ↔ rest = [] := by
    simp only [List.length_append, List.length_cons, ge_iff_le]
    rw [← List.length_eq_zero_iff]
    omega
  have hread : ¬ rest.length < (pre ++ f ++ BAR :: rest).length - (pre.length + f.length) - 1 := by
    simp; omega
  unfold onBar barEffect
  simp only [hfield, hsize, hend]
  -- the cases of the counter, as `switch (counter)` has them
  by_cases h2 : counter ≤ 2
  · rw [if_pos h2, if_pos h2]
    rfl
  rw [if_neg h2, if_neg h2]
  by_cases h3 : counter = 3
  · rw [if_pos h3, if_pos h3]
    split_ifs <;> rfl
  rw [if_neg h3, if_neg h3]
  by_cases h4 : counter = 4
  · rw [if_pos h4, if_pos h4]
    cases parsePriceAsFixedpt f with
    | none => rfl
    | some price =>
      by_cases hr : rest = []
      · simp only [hr, if_true]
        rfl
      · simp only [hr, if_false, hread]
        rfl
  · rw [if_neg h4, if_neg h4]
    rfl

/-- The bars of a payload `[BAR].intercalate fs`, in turn, from `counter` bars seen:
each field but the last is closed by a bar. -/
def barsEffect (counter : ℕ) : List (List UInt8) → MsgTrade → Flow MsgTrade Bool
  | [], msg => .cont msg
  | [_], msg => .cont msg
  | f :: g :: fs, msg =>
    (barEffect msg (counter + 1) f ([BAR].intercalate (g :: fs))).bind (barsEffect (counter + 1) (g :: fs))

/-- **The loop, a field at a time.** Over the fields `fs` joined by bars, after the
bytes `pre`, the loop counts `fs.length - 1` bars and does to the message what
`barsEffect` does. -/
theorem forRange_intercalate : ∀ (fs : List (List UInt8)) (pre : List UInt8) (st : ScanState),
    fs ≠ [] → (∀ f ∈ fs, BAR ∉ f) → st.componentStart = pre.length →
    (forRange (scanStep (pre ++ [BAR].intercalate fs) (pre ++ [BAR].intercalate fs).length)
        pre.length ([BAR].intercalate fs).length st).map (fun s => (s.counter, s.msg)) =
      (barsEffect st.counter fs st.msg).map fun msg => (st.counter + (fs.length - 1), msg)
  | [], _, _, hne, _, _ => absurd rfl hne
  | [g], pre, st, _, hbar, _ => by
    -- the last field has no bar after it
    have hg : BAR ∉ g := hbar g (by simp)
    rw [List.intercalate_singleton, forRange_field hg (List.prefix_refl _)]
    rfl
  | f :: g :: fs, pre, st, _, hbar, hst => by
    have hf : BAR ∉ f := hbar f (by simp)
    -- the fields after the first bar, from the byte after it
    have ih := fun msg => forRange_intercalate (g :: fs) (pre ++ f ++ [BAR])
      ⟨pre.length + f.length + 1, st.counter + 1, msg⟩ (by simp)
      (fun f' hf' => hbar f' (List.mem_cons_of_mem _ hf')) (by simp; omega)
    have hsplit : [BAR].intercalate (f :: g :: fs) = f ++ BAR :: [BAR].intercalate (g :: fs) := by
      simp [List.intercalate_cons_cons]
    simp only [barsEffect]
    generalize [BAR].intercalate (g :: fs) = rest at ih hsplit ⊢
    have hcat : pre ++ f ++ [BAR] ++ rest = pre ++ f ++ BAR :: rest := by simp
    have hlen : (pre ++ f ++ [BAR]).length = pre.length + f.length + 1 := by simp; omega
    rw [hcat, hlen] at ih
    rw [hsplit, ← List.append_assoc,
      show (f ++ BAR :: rest).length = (f.length + 1) + rest.length by simp; omega,
      forRange_add, forRange_succ_right, forRange_field hf ⟨BAR :: rest, rfl⟩, Flow.cont_bind,
      scanStep_of_bar (by simp), onBar_eq hst, Flow.bind_map, Flow.map_bind, Flow.map_bind]
    congr 1
    funext msg
    rw [Function.comp_apply, ← Nat.add_assoc, ih msg]
    congr 1
    funext m
    simp only [List.length_cons, Prod.mk.injEq, and_true]
    omega

/-! ### The decoder, a field at a time -/

/-- The pieces `splitOn` cuts a list into hold no separator. -/
theorem not_mem_of_mem_splitOn {α : Type*} [BEq α] [LawfulBEq α] {a : α} :
    ∀ {xs f : List α}, f ∈ xs.splitOn a → a ∉ f
  | [], f, h => by simp_all
  | x :: xs, f, h => by
    rw [List.splitOn_cons_eq_if_modifyHead] at h
    split_ifs at h with hx
    · -- a separator starts a new piece
      rcases List.mem_cons.1 h with rfl | h
      · simp
      · exact not_mem_of_mem_splitOn h
    · -- any other byte joins the first piece
      obtain ⟨g, gs, hgs⟩ := List.exists_cons_of_ne_nil (List.splitOn_ne_nil a xs)
      rw [hgs, List.modifyHead_cons] at h
      rcases List.mem_cons.1 h with rfl | h
      · have hg : a ∉ g := not_mem_of_mem_splitOn (hgs ▸ List.mem_cons_self)
        simp only [beq_iff_eq] at hx
        simp [hg, Ne.symm hx]
      · exact not_mem_of_mem_splitOn (hgs ▸ List.mem_cons_of_mem _ h)

/-- The decoder over the fields `fs` of the payload, with the eight bytes `stamp`
before it. -/
def decodeFields (fs : List (List UInt8)) (stamp : List UInt8) : Option (Option MsgTrade) :=
  afterLoop stamp ((barsEffect 0 fs default).map fun msg => (fs.length - 1, msg))

/-- `md_len` of a packet long enough for its header: the bytes after it. -/
theorem mdLen_eq {packet : List UInt8} {offset : ℕ} (h₁ : offset + 8 ≤ packet.length)
    (h₂ : packet.length < 2 ^ 32) :
    (packet.length + (2 ^ 32 - (offset + 8))) % 2 ^ 32 = (packet.drop (offset + 8)).length := by
  rw [List.length_drop]
  have : offset + 8 < 2 ^ 32 := by omega
  rw [show packet.length + (2 ^ 32 - (offset + 8)) = (packet.length - (offset + 8)) + 2 ^ 32 by omega,
    Nat.add_mod_right, Nat.mod_eq_of_lt (by omega)]

/-- **The shared decoder is the field-level one** on a packet long enough for its
header. -/
theorem decodeAt_eq_decodeFields {packet : List UInt8} {offset : ℕ} (h₁ : offset + 8 ≤ packet.length)
    (h₂ : packet.length < 2 ^ 32) :
    decodeAt packet offset =
      decodeFields ((packet.drop (offset + 8)).splitOn BAR) ((packet.drop offset).take 8) := by
  set md := packet.drop (offset + 8)
  have hmd : [BAR].intercalate (md.splitOn BAR) = md := List.intercalate_splitOn BAR
  have hbar : ∀ f ∈ md.splitOn BAR, BAR ∉ f := fun f hf => not_mem_of_mem_splitOn hf
  have hloop := forRange_intercalate (md.splitOn BAR) [] ⟨0, 0, default⟩ (List.splitOn_ne_nil _ _)
    hbar rfl
  simp only [List.nil_append, List.length_nil, hmd] at hloop
  unfold decodeAt decodeFields
  simp only
  rw [mdLen_eq h₁ h₂, hloop, Nat.zero_add]

/-! ### What a payload decodes to -/

/-- The message with the symbol `s` copied in, everything else as `MsgTrade ()`. -/
def withSymbol (s : List UInt8) : MsgTrade :=
  { (default : MsgTrade) with symbol := strncpy (default : MsgTrade).symbol s s.length }

/-- What the decoder gives for a payload of the fields `fs` after the timestamp `t`,
case by case on the number of bars: none is a failure; one or two give an empty
message; three copy the symbol, the third field; four also parse the price and
the size, and fail on an empty size; five or more fail. The price is parsed, and
may be undefined, whenever a fourth bar is seen. -/
def tradeOfFields (fs : List (List UInt8)) (t : UInt64) : Option (Option MsgTrade) :=
  let stamped (msg : MsgTrade) : Option (Option MsgTrade) := some (some { msg with srcTimestamp := t })
  match fs with
  | [] | [_] => some none
  | [_, _] | [_, _, _] => stamped default
  | _ :: _ :: s :: p :: more =>
    if s.length > ORDER_SYMBOL_LEN - 1 then some none
    else match more with
      | [] => stamped (withSymbol s)
      | n :: more' =>
        match parsePriceAsFixedpt p with
        | none => none
        | some price =>
          if more' = [] ∧ n ≠ [] then
            stamped { withSymbol s with price := price, size := Int64.ofInt (strtol n) }
          else some none

/-- **The field-level decoder, spelled out.** -/
theorem decodeFields_eq_tradeOfFields (fs : List (List UInt8)) {stamp : List UInt8}
    (hstamp : stamp.length = 8) :
    decodeFields fs stamp = tradeOfFields fs (leWord stamp) := by
  have h8 : ¬ stamp.length < 8 := by omega
  match fs with
  | [] => rfl
  | [_] => rfl
  | [_, _] | [_, _, _] => simp [decodeFields, barsEffect, barEffect, afterLoop, tradeOfFields, h8]
  | a :: d :: s :: p :: more =>
    by_cases hs : s.length > ORDER_SYMBOL_LEN - 1
    · -- the third bar refuses a long symbol
      simp [decodeFields, barsEffect, barEffect, afterLoop, tradeOfFields, hs]
    match more with
    | [] => simp [decodeFields, barsEffect, barEffect, afterLoop, tradeOfFields, hs, h8, withSymbol]
    | n :: more' =>
      cases hp : parsePriceAsFixedpt p with
      | none => simp [decodeFields, barsEffect, barEffect, afterLoop, tradeOfFields, hs, hp]
      | some price =>
        cases more' with
        | nil =>
          by_cases hn : n = []
          · simp [decodeFields, barsEffect, barEffect, afterLoop, tradeOfFields, hs, hp, hn]
          · simp [decodeFields, barsEffect, barEffect, afterLoop, tradeOfFields, hs, hp, hn, h8,
              withSymbol]
        | cons m more'' =>
          -- the size runs on past a fifth bar, which refuses the message
          simp [decodeFields, barsEffect, barEffect, afterLoop, tradeOfFields, hs, hp]

/-- A trade `a|d|s|p|n` with a symbol that fits, a price that parses and a size is
decoded field by field. -/
theorem tradeOfFields_trade {a d s p n : List UInt8} {price : Fixedpt}
    (hs : s.length ≤ ORDER_SYMBOL_LEN - 1) (hp : parsePriceAsFixedpt p = some price) (hn : n ≠ [])
    (t : UInt64) :
    tradeOfFields [a, d, s, p, n] t =
      some (some { withSymbol s with price := price, size := Int64.ofInt (strtol n), srcTimestamp := t }) := by
  simp [tradeOfFields, hp, hn, Nat.not_lt.2 hs]

/-- The symbol of a field without a NUL is the field padded with NULs. -/
theorem symbol_withSymbol {s : List UInt8} (hs : s.length ≤ ORDER_SYMBOL_LEN) (h0 : 0 ∉ s) :
    (withSymbol s).symbol.toList = s ++ List.replicate (ORDER_SYMBOL_LEN - s.length) 0 := by
  have htake : s.takeWhile (· != 0) = s :=
    List.takeWhile_eq_self_iff.2 fun c hc => by
      have hc0 : c ≠ 0 := fun h => h0 (h ▸ hc)
      simpa using hc0
  apply List.ext_getElem (by simp; omega)
  intro j hj _
  simp only [withSymbol, strncpy, Vector.toList_ofFn, List.getElem_ofFn, htake]
  by_cases hj' : j < s.length
  · simp [hj', List.getElem_append_left hj']
  · simp [hj', List.getElem_append_right (Nat.not_lt.1 hj'), Vector.getElem_replicate,
      show (default : MsgTrade).symbol = Vector.replicate ORDER_SYMBOL_LEN 0 from rfl]

/-! ### Both decoders on every packet -/

/-- A packet shorter than its header makes `md_len` wrap, and the loop reads past
the packet at its first index. -/
theorem decodeAt_of_length_lt {packet : List UInt8} {offset : ℕ} (h : packet.length < offset + 8)
    (hoff : offset + 8 < 2 ^ 32) : decodeAt packet offset = none := by
  obtain ⟨m, hm⟩ : ∃ m, (packet.length + (2 ^ 32 - (offset + 8))) % 2 ^ 32 = m + 1 :=
    ⟨packet.length + (2 ^ 32 - (offset + 8)) - 1, by rw [Nat.mod_eq_of_lt (by omega)]; omega⟩
  have hmd : (packet.drop (offset + 8)).length ≤ 0 := by simp; omega
  unfold decodeAt
  simp only
  rw [hm, forRange_succ, scanStep_of_length_le hmd]
  rfl

/-- The decoding from `offset` on every packet of fewer than `2 ^ 32` bytes. -/
theorem decodeAt_eq {packet : List UInt8} {offset : ℕ} (hlen : packet.length < 2 ^ 32)
    (hoff : offset + 8 < 2 ^ 32) :
    decodeAt packet offset =
      if packet.length < offset + 8 then none
      else tradeOfFields ((packet.drop (offset + 8)).splitOn BAR) (leWord ((packet.drop offset).take 8)) := by
  split_ifs with h
  · exact decodeAt_of_length_lt h hoff
  · have hstamp : ((packet.drop offset).take 8).length = 8 := by simp; omega
    rw [decodeAt_eq_decodeFields (by omega) hlen, decodeFields_eq_tradeOfFields _ hstamp]

/-- A frame of 45 bytes passes the `TradeProcessor` guard, which counts the headers
but not the timestamp, and is read past its end; so is a packet of 7 bytes by the
hand-coded version, which has no guard. -/
theorem short_frames_read_past :
    populateMsgTradeTp (List.replicate 45 0) = none ∧ populateMsgTrade (List.replicate 7 0) = none := by
  refine ⟨?_, decodeAt_of_length_lt (by decide) (by decide)⟩
  rw [populateMsgTradeTp, if_neg (by decide)]
  exact decodeAt_of_length_lt (by decide) (by decide)

/-- **Trade decoding.** Both versions of `populate_msg_trade`, on every packet
whose length fits the loop's `int` index: the hand-coded one reads past a packet
shorter than the timestamp, the `TradeProcessor` one refuses a frame without a
payload byte and reads past one shorter than its headers and the timestamp;
otherwise each decodes its payload as `tradeOfFields` says. -/
theorem trade_decoding (packet : List UInt8) (hlen : packet.length < 2 ^ 31) :
    populateMsgTrade packet =
        (if packet.length < 8 then none
        else tradeOfFields ((packet.drop 8).splitOn BAR) (leWord (packet.take 8))) ∧
      populateMsgTradeTp packet =
        (if packet.length < s_mac_ip_udp_len + 1 then some none
        else if packet.length < s_mac_ip_udp_len + 8 then none
        else tradeOfFields ((packet.drop (s_mac_ip_udp_len + 8)).splitOn BAR)
          (leWord ((packet.drop s_mac_ip_udp_len).take 8))) := by
  have hlen' : packet.length < 2 ^ 32 := by omega
  constructor
  · rw [populateMsgTrade, decodeAt_eq hlen' (by decide), List.drop_zero]
  · unfold populateMsgTradeTp
    rw [decodeAt_eq hlen' (by decide)]

theorem trade_decoding_one_bar :
    [1, 0, 0, 0, 0, 0, 0, 0, 97, 124, 98].length < 2 ^ 31 ∧
      (populateMsgTrade [1, 0, 0, 0, 0, 0, 0, 0, 97, 124, 98] =
          (if [1, 0, 0, 0, 0, 0, 0, 0, 97, 124, 98].length < 8 then none
          else tradeOfFields (([1, 0, 0, 0, 0, 0, 0, 0, 97, 124, 98].drop 8).splitOn BAR)
            (leWord ([1, 0, 0, 0, 0, 0, 0, 0, 97, 124, 98].take 8))) ∧
        populateMsgTradeTp [1, 0, 0, 0, 0, 0, 0, 0, 97, 124, 98] =
          (if [1, 0, 0, 0, 0, 0, 0, 0, 97, 124, 98].length < s_mac_ip_udp_len + 1 then some none
          else if [1, 0, 0, 0, 0, 0, 0, 0, 97, 124, 98].length < s_mac_ip_udp_len + 8 then none
          else tradeOfFields (([1, 0, 0, 0, 0, 0, 0, 0, 97, 124, 98].drop (s_mac_ip_udp_len + 8)).splitOn BAR)
            (leWord (([1, 0, 0, 0, 0, 0, 0, 0, 97, 124, 98].drop s_mac_ip_udp_len).take 8)))) :=
  ⟨by decide, trade_decoding [1, 0, 0, 0, 0, 0, 0, 0, 97, 124, 98] (by decide)⟩

/-- A packet the hand-coded version decodes holds the timestamp. -/
theorem le_length_of_populateMsgTrade {packet : List UInt8} {m : Option MsgTrade}
    (h : populateMsgTrade packet = some m) : 8 ≤ packet.length := by
  by_contra hlt
  rw [populateMsgTrade, decodeAt_of_length_lt (by omega) (by decide)] at h
  cases h

end Synapse.Trade
