import Mathlib
import Synapse.Fixedptc
import Synapse.Theory.ForLoop

/-!
# Trade messages and their decoding

A trade reaches the hand-coded program and the Click `TradeProcessor` as a UDP
payload: an 8-byte timestamp written by the kernel timestamper, then the text
`a|d|s|p|n` with the symbol `s`, the price `p` and the size `n`
(`hand_coded/msg_parsing.h`, `elements/standard/trade_processor.cc`).
`populate_msg_trade` scans the text once, counting the bars, and fills a
`MsgTrade` (`hand_coded/msg_trade.h`) as the counter reaches three and four.

## The model

Bytes are `UInt8`. A packet is the list of bytes the program received; a read past
its end, which C leaves undefined, makes the decoder's result `none`. The loop is
`Theory.forRange` over `md_len` indices, `md_len` computed as the source does, in
32 bits: for a packet shorter than its header the subtraction wraps and the loop
reads past the packet. On `false` both callers drop the message, so the model
returns `some none` there and keeps only the message of a `true`; both callers
pass a freshly constructed `MsgTrade`.

`strtol` is base 10 as in the C library: white space, a sign, the longest run of
digits, clamped to the range of `long`. `parse_price_as_fixedpt` is the source's,
with `none` where it is undefined: a whole part of ten digits or more overflows
its buffer, and a fractional part whose length is not between one and six has no
denominator.

## What is proved

`parse_price_as_fixedpt_digits`: on a whole number of up to eighteen digits the
parser returns its value; on `W.F`, with `W` of up to nine digits and `F` of one
to six, it returns `W + F / 10 ^ |F|` in fixed point, except when `W` has exactly
one digit, where it returns `0`.
-/

namespace Synapse.Trade

open Theory

/-! ### Bytes -/

/-- `'|'`. -/
def BAR : UInt8 := 124

/-- `'.'`. -/
def DOT : UInt8 := 46

/-- `'-'`. -/
def MINUS : UInt8 := 45

/-- `'+'`. -/
def PLUS : UInt8 := 43

/-- `isspace (c)` in the C locale. -/
def isSpace (c : UInt8) : Bool := c == 32 || (9 ≤ c && c ≤ 13)

/-- `isdigit (c)`. -/
def isDigit (c : UInt8) : Bool := 48 ≤ c && c ≤ 57

/-- The value of a run of decimal digits. -/
def digitsValue (ds : List UInt8) : ℕ := ds.foldl (fun n d => 10 * n + (d.toNat - 48)) 0

/-- `LONG_MAX`. -/
def LONG_MAX : ℤ := 2 ^ 63 - 1

/-- `LONG_MIN`. -/
def LONG_MIN : ℤ := -2 ^ 63

/-- `strtol (str, NULL, 10)` on the bytes of a C string: leading white space, an
optional sign and the longest run of digits after it, clamped to the range of
`long`. A NUL stops it as any other non-digit does. -/
def strtol (str : List UInt8) : ℤ :=
  let rest := str.dropWhile isSpace
  let negative := rest.head? == some MINUS
  let digits := if rest.head? == some MINUS || rest.head? == some PLUS then rest.tail else rest
  let n : ℤ := digitsValue (digits.takeWhile isDigit)
  if negative then max (-n) LONG_MIN else min n LONG_MAX

/-- `*(uint64_t*) bytes`: eight bytes read little-endian. -/
def leWord (bytes : List UInt8) : UInt64 :=
  bytes.foldr (fun b acc => b.toUInt64 + 256 * acc) 0

/-! ### Prices -/

/-- `denominator_for_len (len)`: `10 ^ len` for a length from one to six; for any
other the function falls off its end, which C leaves undefined. -/
def denominatorForLen (len : ℕ) : Option ℤ :=
  if 1 ≤ len ∧ len ≤ 6 then some (10 ^ len) else none

/-- `s_whole_price_len`, the size of the buffer of the whole part. -/
def s_whole_price_len : ℕ := 10

/-- `parse_price_as_fixedpt (str, strlen)` on the `strlen` bytes `str`. Without a
dot the text is a whole number. With the dot at index `1` the branch meant for a
bare fraction is taken, and it returns its `price`, still `0`. Otherwise the whole
and the fractional parts are copied into their buffers and converted, the
fraction divided by `10 ^ len`. -/
def parsePriceAsFixedpt (str : List UInt8) : Option Fixedpt :=
  match str.idxOf? DOT with
  | none => some (fixedptFromint (strtol str))
  | some 1 => some 0
  | some d =>
    let fractionalPartLen := str.length - d - 1
    if d < s_whole_price_len then
      (denominatorForLen fractionalPartLen).map fun den =>
        fixedptFromint (strtol (str.take d)) +
          fixedptDiv (fixedptFromint (strtol (str.drop (d + 1)))) (fixedptFromint den)
    else none

/-! ### `MsgTrade` -/

/-- `ORDER_SYMBOL_LEN`. -/
def ORDER_SYMBOL_LEN : ℕ := 10

/-- `MsgTrade`. -/
structure MsgTrade where
  /-- `_price`. -/
  price : Fixedpt
  /-- `_size`. -/
  size : Int64
  /-- `_symbol`. -/
  symbol : Vector UInt8 ORDER_SYMBOL_LEN
  /-- `_timestamp`. -/
  timestamp : UInt64
  /-- `_src_timestamp`. -/
  srcTimestamp : UInt64
  deriving DecidableEq, Repr

/-- `MsgTrade ()`: everything zero, the symbol all NULs. -/
instance : Inhabited MsgTrade := ⟨⟨0, 0, Vector.replicate ORDER_SYMBOL_LEN 0, 0, 0⟩⟩

/-- `strncpy (dst, src, count)`: the first `count` bytes of `src` up to its first
NUL, the rest of the `count` bytes NUL; the bytes of `dst` from `count` on are
kept. -/
def strncpy {n : ℕ} (dst : Vector UInt8 n) (src : List UInt8) (count : ℕ) : Vector UInt8 n :=
  Vector.ofFn fun j => if j.val < count then (src.takeWhile (· != 0)).getD j.val 0 else dst[j]

/-! ### `populate_msg_trade` -/

/-- The locals of the loop of `populate_msg_trade`. -/
structure ScanState where
  /-- `component_start`. -/
  componentStart : ℕ
  /-- `counter`: the bars seen. -/
  counter : ℕ
  /-- The message being filled. -/
  msg : MsgTrade

/-- What the bar closing the field `md[component_start, i)` does, once `counter` is
`counter`: nothing for the first two; the third copies the field into the symbol,
and fails on one longer than `ORDER_SYMBOL_LEN - 1`; the fourth parses the price
and the size after it, and fails when there is no byte after it; a fifth fails. -/
def onBar (md : List UInt8) (mdLen i : ℕ) (st : ScanState) (counter : ℕ) : Flow ScanState Bool :=
  let field := (md.drop st.componentStart).take (i - st.componentStart)
  let next (msg : MsgTrade) : Flow ScanState Bool := .cont ⟨i + 1, counter, msg⟩
  if counter ≤ 2 then next st.msg
  else if counter = 3 then
    if field.length > ORDER_SYMBOL_LEN - 1 then .ret false
    else next { st.msg with symbol := strncpy st.msg.symbol field field.length }
  else if counter = 4 then
    match parsePriceAsFixedpt field with
    | none => .undef
    | some price =>
      if i + 1 ≥ mdLen then .ret false
      else
        -- `memcpy` of the `size_len` bytes after the bar
        let sizeBytes := (md.drop (i + 1)).take (mdLen - i - 1)
        if sizeBytes.length < mdLen - i - 1 then .undef
        else next { st.msg with price := price, size := Int64.ofInt (strtol sizeBytes) }
  else .ret false

/-- One iteration of the loop: `md_msg[i]` read, and a bar counted. -/
def scanStep (md : List UInt8) (mdLen i : ℕ) (st : ScanState) : Flow ScanState Bool :=
  match md[i]? with
  | none => .undef
  | some c => if c == BAR then onBar md mdLen i st (st.counter + 1) else .cont st

/-- What follows the loop, from its `counter` and message: no bar is a failure;
otherwise the eight bytes `stamp` are the timestamp. -/
def afterLoop (stamp : List UInt8) : Flow (ℕ × MsgTrade) Bool → Option (Option MsgTrade)
  | .undef => none
  | .ret _ => some none
  | .cont (counter, msg) =>
    if counter < 1 then some none
    else if stamp.length < 8 then none
    else some (some { msg with srcTimestamp := leWord stamp })

/-- The decoding both versions share, of the packet from `offset`: the loop over the
`md_len` bytes after the 8-byte timestamp, then the timestamp. -/
def decodeAt (packet : List UInt8) (offset : ℕ) : Option (Option MsgTrade) :=
  let mdLen := (packet.length + (2 ^ 32 - (offset + 8))) % 2 ^ 32
  let md := packet.drop (offset + 8)
  afterLoop ((packet.drop offset).take 8)
    ((forRange (scanStep md mdLen) 0 mdLen ⟨0, 0, default⟩).map fun st => (st.counter, st.msg))

/-- `populate_msg_trade (msg, packet, packet_len)` of the hand-coded program: the
payload at offset `0`. -/
def populateMsgTrade (packet : List UInt8) : Option (Option MsgTrade) := decodeAt packet 0

/-- `s_mac_ip_udp_len`: the Ethernet, IP and UDP headers before the payload. -/
def s_mac_ip_udp_len : ℕ := 42

/-- `populate_msg_trade (msg, p)` of `TradeProcessor`: a frame shorter than the
headers and one byte is refused; otherwise the payload after the headers. -/
def populateMsgTradeTp (packet : List UInt8) : Option (Option MsgTrade) :=
  if packet.length < s_mac_ip_udp_len + 1 then some none else decodeAt packet s_mac_ip_udp_len

/-! ### What the price parser computes -/

/-- Every byte is a decimal digit. -/
def Digits (ds : List UInt8) : Prop := ∀ c ∈ ds, isDigit c = true

instance (ds : List UInt8) : Decidable (Digits ds) := List.decidableBAll _ ds

theorem isDigit_iff {c : UInt8} : isDigit c = true ↔ 48 ≤ c.toNat ∧ c.toNat ≤ 57 := by
  simp [isDigit, UInt8.le_iff_toNat_le]

theorem isSpace_of_isDigit {c : UInt8} (h : isDigit c = true) : isSpace c = false := by
  rw [isDigit_iff] at h
  simp [isSpace, UInt8.le_iff_toNat_le, UInt8.ext_iff]
  omega

theorem ne_of_isDigit {c : UInt8} (h : isDigit c = true) {b : UInt8} (hb : b.toNat < 48) : c ≠ b := by
  rw [isDigit_iff] at h
  rintro rfl
  omega

theorem foldl_digit_lt {ds : List UInt8} (hd : Digits ds) (a : ℕ) :
    ds.foldl (fun n d => 10 * n + (d.toNat - 48)) a < (a + 1) * 10 ^ ds.length := by
  induction ds generalizing a with
  | nil => simp
  | cons d ds ih =>
    have hdig := isDigit_iff.1 (hd d List.mem_cons_self)
    have hrest := ih (fun c hc => hd c (List.mem_cons_of_mem _ hc)) (10 * a + (d.toNat - 48))
    rw [List.foldl_cons, List.length_cons, Nat.pow_succ]
    have hstep : 10 * a + (d.toNat - 48) + 1 ≤ (a + 1) * 10 := by omega
    calc _ < (10 * a + (d.toNat - 48) + 1) * 10 ^ ds.length := hrest
      _ ≤ (a + 1) * 10 * 10 ^ ds.length := Nat.mul_le_mul_right _ hstep
      _ = (a + 1) * (10 ^ ds.length * 10) := by rw [Nat.mul_assoc, Nat.mul_comm 10]

theorem digitsValue_lt {ds : List UInt8} (hd : Digits ds) : digitsValue ds < 10 ^ ds.length := by
  simpa [digitsValue] using foldl_digit_lt hd 0

/-- `strtol` of decimal digits followed by a byte that ends the number: the value of
the digits. With no digit, the byte must also be neither a blank nor a sign, which
`strtol` would step over. -/
theorem strtol_digits_append {ds : List UInt8} (hd : Digits ds) (hlen : ds.length ≤ 18) {t : List UInt8}
    (ht : ∀ c ∈ t.head?, isDigit c = false ∧ (ds = [] → isSpace c = false ∧ c ≠ MINUS ∧ c ≠ PLUS)) :
    strtol (ds ++ t) = digitsValue ds := by
  have hle : (digitsValue ds : ℤ) ≤ LONG_MAX := by
    have h1 := digitsValue_lt hd
    have h2 : 10 ^ ds.length ≤ 10 ^ 18 := Nat.pow_le_pow_right (by omega) hlen
    simp only [LONG_MAX]
    omega
  have hmin : min (digitsValue ds : ℤ) LONG_MAX = digitsValue ds := Int.min_eq_left hle
  have htake : (ds ++ t).takeWhile isDigit = ds := by
    rw [List.takeWhile_append_of_pos hd]
    cases t with
    | nil => simp
    | cons c t => simp [(ht c rfl).1]
  cases ds with
  | nil =>
    cases t with
    | nil => simp [strtol, hmin]
    | cons c t =>
      obtain ⟨hsp, hm, hp⟩ := (ht c rfl).2 rfl
      simp only [List.nil_append] at htake
      simp [strtol, hsp, hm, hp, htake, hmin]
  | cons c cs =>
    have hc := hd c List.mem_cons_self
    simp only [List.cons_append] at htake
    simp [strtol, isSpace_of_isDigit hc, ne_of_isDigit hc (b := MINUS) (by decide),
      ne_of_isDigit hc (b := PLUS) (by decide), htake, hmin]

theorem strtol_of_digits {ds : List UInt8} (hd : Digits ds) (hlen : ds.length ≤ 18) :
    strtol ds = digitsValue ds := by
  simpa using strtol_digits_append hd hlen (t := []) (by simp)

theorem idxOf?_dot {w : List UInt8} (hw : Digits w) (f : List UInt8) :
    (w ++ DOT :: f).idxOf? DOT = some w.length := by
  have hnone : w.idxOf? DOT = none :=
    List.idxOf?_eq_none_iff.2 fun h => ne_of_isDigit (hw _ h) (b := DOT) (by decide) rfl
  simp only [List.idxOf?] at hnone ⊢
  rw [List.findIdx?_append, hnone]
  simp [List.findIdx?_cons]

theorem denominatorForLen_of_le {len : ℕ} (h1 : 1 ≤ len) (h6 : len ≤ 6) : denominatorForLen len = some (10 ^ len) := by
  simp [denominatorForLen, h1, h6]

theorem parsePriceAsFixedpt_whole {w : List UInt8} (hw : Digits w) (hlen : w.length ≤ 18) :
    parsePriceAsFixedpt w = some (fixedptFromint (digitsValue w)) := by
  have hnone : w.idxOf? DOT = none :=
    List.idxOf?_eq_none_iff.2 fun h => ne_of_isDigit (hw _ h) (b := DOT) (by decide) rfl
  rw [parsePriceAsFixedpt, hnone, strtol_of_digits hw hlen]

theorem parsePriceAsFixedpt_dot {w f : List UInt8} (hw : Digits w) (hf : Digits f) (hwlen : w.length ≤ 9)
    (hf1 : 1 ≤ f.length) (hf6 : f.length ≤ 6) :
    parsePriceAsFixedpt (w ++ DOT :: f) =
      if w.length = 1 then some 0
      else some (fixedptFromint (digitsValue w) +
        fixedptDiv (fixedptFromint (digitsValue f)) (fixedptFromint (10 ^ f.length))) := by
  rw [parsePriceAsFixedpt, idxOf?_dot hw]
  by_cases h1 : w.length = 1
  · -- a dot at index `1` takes the branch meant for a bare fraction
    simp only [h1, if_true]
  · rw [if_neg h1]
    split
    · next h => cases h
    · next h => exact absurd (Option.some.inj h) h1
    · rename_i _ d _ h
      obtain rfl : w.length = d := Option.some.inj h
      have hfrac : (w ++ DOT :: f).length - w.length - 1 = f.length := by simp
      have htake : (w ++ DOT :: f).take w.length = w := by simp
      have hdrop : (w ++ DOT :: f).drop (w.length + 1) = f := by simp
      rw [hfrac, if_pos (by simp [s_whole_price_len]; omega), denominatorForLen_of_le hf1 hf6, htake, hdrop,
        strtol_of_digits hw (by omega), strtol_of_digits hf (by omega)]
      rfl

theorem parse_price_as_fixedpt_digits {w f : List UInt8} (hw : Digits w) (hf : Digits f) (hwlen : w.length ≤ 9)
    (hf1 : 1 ≤ f.length) (hf6 : f.length ≤ 6) :
    parsePriceAsFixedpt w = some (fixedptFromint (digitsValue w)) ∧
      parsePriceAsFixedpt (w ++ DOT :: f) =
        if w.length = 1 then some 0
        else some (fixedptFromint (digitsValue w) +
          fixedptDiv (fixedptFromint (digitsValue f)) (fixedptFromint (10 ^ f.length))) :=
  ⟨parsePriceAsFixedpt_whole hw (by omega), parsePriceAsFixedpt_dot hw hf hwlen hf1 hf6⟩

/-- `1.5` is parsed as `0`. -/
theorem parse_price_one_point_five :
    parsePriceAsFixedpt [49, DOT, 53] = some 0 ∧
      fixedptFromint 1 + fixedptDiv (fixedptFromint 5) (fixedptFromint 10) ≠ 0 := by
  have h := (parse_price_as_fixedpt_digits (w := [49]) (f := [53]) (by decide) (by decide) (by decide)
    (by decide) (by decide)).2
  simp only [List.length_singleton, ↓reduceIte, List.singleton_append] at h
  exact ⟨h, by decide⟩

end Synapse.Trade
