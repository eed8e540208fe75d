import Synapse.Trade.MsgParsing

/-!
# `ChixTradeHandlerUtils`

The field readers of the CHI-X feed handler (`chix_trade_handler_utils.hh`). A
field of a message has a fixed offset and width; a number is written in it in
decimal, after blanks. `parse_numeric` steps over the blanks, copies the rest of
the field into a zeroed buffer and hands it to `strtol`. The price of an add order
is a whole part of `PriceWholeLen` bytes, blank-padded on the left, then a
decimal part filling the rest of its `PriceLen` bytes; `parse_add_order_price`
reads each as an `int`, and `parse_add_order_price_as_fixedpt` adds the whole
part to the decimal part divided by `10000`, the same constant for every layout.

## The model

A pointer into a message is the list of the bytes from it to the end of the
message. `eliminate_leading_whitespaces` tests the byte under the pointer before
the length left, so at the end of a field of blanks it reads the byte after the
field; in the model, as in the messages it is used on, that byte is still inside
the message. The user-level `strtol` is the one modelled (`Trade.strtol`); the
conversion of its `long` to an `int` wraps, `Int32.ofInt`.

## What is proved

* `eliminateLeadingWhitespaces_blanks`: the blanks before the digits are skipped,
  and the length left is that of the digits.
* `parseNumeric_of_decimalField`: a field of blanks and digits is read as the value
  of its digits.
* `parseAddOrderPriceAsFixedpt_of_digits`: a price field of a blank-padded whole
  part `W` and a decimal part `D` is read as `W + D / 10000`, whatever the widths.
* `trimAlphanumericSpaces_padded`: a symbol followed by blanks and NULs becomes
  the symbol followed by NULs.
-/

namespace Synapse.Chix

open Trade

/-- `' '`. -/
def SPACE : UInt8 := 32

/-- `eliminate_leading_whitespaces (field_ptr, remaining_len)`: the pointer and the
length left after the blanks at the start of the field. -/
def eliminateLeadingWhitespaces : List UInt8 → ℕ → List UInt8 × ℕ
  | c :: cs, remainingLen + 1 =>
    if c = SPACE then eliminateLeadingWhitespaces cs remainingLen else (c :: cs, remainingLen + 1)
  | fieldPtr, remainingLen => (fieldPtr, remainingLen)

/-- A buffer of `size` bytes set to NUL by `memset`, then the first `count` bytes of
`src` copied to its start by `memcpy`. -/
def copyToZeroed (size : ℕ) (src : List UInt8) (count : ℕ) : List UInt8 :=
  src.take count ++ List.replicate (size - count) 0

/-- `parse_add_order_price <PriceOffset, PriceLen, PriceWholeLen> (whole_part_int,
decimal_part_int, msg)`: the whole and the decimal parts, each as an `int`. -/
def parseAddOrderPrice (priceOffset priceLen priceWholeLen : ℕ) (msg : List UInt8) : Int32 × Int32 :=
  let priceDecimalLen := priceLen - priceWholeLen
  let (priceWholePtr, remainingLen) := eliminateLeadingWhitespaces (msg.drop priceOffset) priceWholeLen
  let wholePart := copyToZeroed priceLen priceWholePtr remainingLen
  let decimalPart := copyToZeroed priceLen (msg.drop (priceOffset + priceWholeLen)) priceDecimalLen
  (Int32.ofInt (strtol wholePart), Int32.ofInt (strtol decimalPart))

/-- `parse_add_order_price_as_fixedpt <PriceOffset, PriceLen, PriceWholeLen> (msg)`. -/
def parseAddOrderPriceAsFixedpt (priceOffset priceLen priceWholeLen : ℕ) (msg : List UInt8) : Fixedpt :=
  let (wholePartInt, decimalPartInt) := parseAddOrderPrice priceOffset priceLen priceWholeLen msg
  let decimalPartFloat := fixedptDiv (fixedptFromint decimalPartInt.toInt) (fixedptFromint 10000)
  fixedptFromint wholePartInt.toInt + decimalPartFloat

/-- `parse_numeric <NumericType, Offset, FieldLength> (msg)`: the `long` that
`strtol` returns, which the caller converts to `NumericType`. -/
def parseNumeric (offset fieldLength : ℕ) (msg : List UInt8) : ℤ :=
  let (fieldPtr, remainingLen) := eliminateLeadingWhitespaces (msg.drop offset) fieldLength
  strtol (copyToZeroed (fieldLength + 1) fieldPtr remainingLen)

/-- `trim_alphanumeric_spaces <FieldLen> (field)`: every blank but the first byte's
becomes NUL. -/
def trimAlphanumericSpaces {fieldLen : ℕ} (field : Vector UInt8 fieldLen) : Vector UInt8 fieldLen :=
  Vector.ofFn fun i => if field.get i = SPACE ∧ i.val ≠ 0 then 0 else field.get i

/-! ### Fields of blanks and digits -/

/-- The `len` bytes of `msg` from `offset` are blanks, then decimal digits of value `n`. -/
def DecimalField (msg : List UInt8) (offset len n : ℕ) : Prop :=
  offset + len ≤ msg.length ∧
    ∃ k ds, (msg.drop offset).take len = List.replicate k SPACE ++ ds ∧ Digits ds ∧ digitsValue ds = n

@[simp] theorem eliminateLeadingWhitespaces_zero (l : List UInt8) : eliminateLeadingWhitespaces l 0 = (l, 0) := by
  cases l <;> rfl

theorem ne_space_of_isDigit {c : UInt8} (h : isDigit c = true) : c ≠ SPACE :=
  ne_of_isDigit h (by decide)

/-- The `k` blanks before digits are skipped; what is left of the field is the digits. -/
theorem eliminateLeadingWhitespaces_blanks {ds : List UInt8} (hd : Digits ds) (rest : List UInt8) :
    ∀ k, eliminateLeadingWhitespaces (List.replicate k SPACE ++ ds ++ rest) (k + ds.length) =
      (ds ++ rest, ds.length) := by
  intro k
  induction k with
  | zero =>
    cases ds with
    | nil => simp
    | cons c cs =>
      have hc : c ≠ SPACE := ne_space_of_isDigit (hd c List.mem_cons_self)
      simp [eliminateLeadingWhitespaces, hc]
  | succ k ih =>
    rw [show k + 1 + ds.length = k + ds.length + 1 by omega, List.replicate_succ, List.cons_append,
      List.cons_append, eliminateLeadingWhitespaces, if_pos rfl]
    exact ih

/-- `strtol` of digits that a NUL ends. -/
theorem strtol_digits_nul {ds : List UInt8} (hd : Digits ds) (hlen : ds.length ≤ 18) (t : List UInt8) :
    strtol (ds ++ 0 :: t) = digitsValue ds :=
  strtol_digits_append hd hlen (by simp [isDigit, isSpace, MINUS, PLUS])

/-- A field of blanks and at most `18` digits is read as the value of its digits. -/
theorem parseNumeric_of_decimalField {msg : List UInt8} {offset len n : ℕ} (hf : DecimalField msg offset len n)
    (h18 : len ≤ 18) : parseNumeric offset len msg = n := by
  obtain ⟨hlen, k, ds, hfield, hd, rfl⟩ := hf
  have hk : k + ds.length = len := by
    have := congrArg List.length hfield
    simp only [List.length_take, List.length_drop, List.length_append, List.length_replicate] at this
    omega
  have hsplit : msg.drop offset = List.replicate k SPACE ++ ds ++ (msg.drop offset).drop len := by
    rw [← hfield, List.take_append_drop]
  rw [parseNumeric, hsplit, ← hk, eliminateLeadingWhitespaces_blanks hd]
  dsimp only
  rw [copyToZeroed, List.take_left' rfl, show k + ds.length + 1 - ds.length = k + 1 by omega,
    List.replicate_succ, strtol_digits_nul hd (by omega)]

/-! ### Prices -/

section Price

variable {priceOffset priceLen priceWholeLen k : ℕ} {msg wds dds : List UInt8}

/-- The price field is a whole part blank-padded to `PriceWholeLen` bytes, then a
decimal part to the end of its `PriceLen` bytes. -/
structure PriceField (priceOffset priceLen priceWholeLen k : ℕ) (msg wds dds : List UInt8) : Prop where
  field : (msg.drop priceOffset).take priceLen = List.replicate k SPACE ++ wds ++ dds
  whole_len : k + wds.length = priceWholeLen
  decimal_len : dds.length = priceLen - priceWholeLen
  whole_digits : Digits wds
  decimal_digits : Digits dds

/-- The bytes from the price on, and from its decimal part on. -/
theorem PriceField.drops (hp : PriceField priceOffset priceLen priceWholeLen k msg wds dds) :
    ∃ rest, msg.drop priceOffset = List.replicate k SPACE ++ wds ++ (dds ++ rest) ∧
      msg.drop (priceOffset + priceWholeLen) = dds ++ rest := by
  have h₁ : msg.drop priceOffset =
      List.replicate k SPACE ++ wds ++ (dds ++ (msg.drop priceOffset).drop priceLen) := by
    rw [← List.append_assoc, ← hp.field, List.take_append_drop]
  refine ⟨_, h₁, ?_⟩
  have hlen : (List.replicate k SPACE ++ wds).length = priceWholeLen := by simp [← hp.whole_len]
  rw [← List.drop_drop]
  conv_lhs => rw [h₁, ← hlen, List.drop_left]

/-- `parse_add_order_price` reads the digits of each part. -/
theorem parseAddOrderPrice_of_digits (hp : PriceField priceOffset priceLen priceWholeLen k msg wds dds)
    (hpos : 0 < priceWholeLen) (hlt : priceWholeLen < priceLen) (hw18 : priceWholeLen ≤ 18)
    (hd18 : priceLen - priceWholeLen ≤ 18) :
    parseAddOrderPrice priceOffset priceLen priceWholeLen msg =
      (Int32.ofInt (digitsValue wds), Int32.ofInt (digitsValue dds)) := by
  have hw := hp.whole_len
  have hd := hp.decimal_len
  obtain ⟨rest, h₁, h₂⟩ := hp.drops
  have hdec : priceLen - priceWholeLen = dds.length := hd.symm
  rw [parseAddOrderPrice, hdec, h₂, h₁, ← hw, eliminateLeadingWhitespaces_blanks hp.whole_digits]
  dsimp only
  rw [copyToZeroed, copyToZeroed, List.take_left' rfl, List.take_left' rfl,
    show priceLen - wds.length = (priceLen - wds.length - 1) + 1 by omega,
    show priceLen - dds.length = (priceLen - dds.length - 1) + 1 by omega,
    List.replicate_succ, List.replicate_succ,
    strtol_digits_nul hp.whole_digits (by omega), strtol_digits_nul hp.decimal_digits (by omega)]

/-- **The price as a `fixedpt`**: the whole part plus the decimal part divided by
`10000`, in every layout whose parts are read without wrapping. -/
theorem parseAddOrderPriceAsFixedpt_of_digits (hp : PriceField priceOffset priceLen priceWholeLen k msg wds dds)
    (hpos : 0 < priceWholeLen) (hlt : priceWholeLen < priceLen) (hw18 : priceWholeLen ≤ 18)
    (hd18 : priceLen - priceWholeLen ≤ 18) (hW : digitsValue wds < 2 ^ 31)
    (hD : digitsValue dds < 2 ^ 31) :
    parseAddOrderPriceAsFixedpt priceOffset priceLen priceWholeLen msg =
      fixedptFromint (digitsValue wds) + fixedptDiv (fixedptFromint (digitsValue dds)) (fixedptFromint 10000) := by
  rw [parseAddOrderPriceAsFixedpt, parseAddOrderPrice_of_digits hp hpos hlt hw18 hd18]
  dsimp only
  rw [Int32.toInt_ofInt_of_le (by omega) (by omega), Int32.toInt_ofInt_of_le (by omega) (by omega)]

end Price

/-! ### Symbols -/

/-- A symbol followed by blanks and NULs is trimmed to the symbol followed by NULs,
so long as it is not empty and holds no blank. -/
theorem trimAlphanumericSpaces_padded {fieldLen : ℕ} {field : Vector UInt8 fieldLen} {s pad : List UInt8}
    (hfield : field.toList = s ++ pad) (hs : s ≠ []) (hsp : SPACE ∉ s) (hpad : ∀ c ∈ pad, c = SPACE ∨ c = 0) :
    (trimAlphanumericSpaces field).toList = s ++ List.replicate pad.length 0 := by
  have hlen : fieldLen = s.length + pad.length := by
    rw [← field.length_toList, hfield, List.length_append]
  have hpos : 0 < s.length := List.length_pos_iff.2 hs
  apply List.ext_getElem (by simp [hlen])
  intro i h₁ h₂
  have hi : i < fieldLen := by simpa using h₁
  have hbound : i < (s ++ pad).length := by simp; omega
  have hget : field[i] = (s ++ pad)[i] := by
    rw [← Vector.getElem_toList (by simpa using hi)]
    exact List.getElem_of_eq hfield _
  simp only [Vector.getElem_toList, trimAlphanumericSpaces, Vector.getElem_ofFn, Vector.get_eq_getElem, hget]
  by_cases his : i < s.length
  · -- a byte of the symbol: not a blank, so kept
    have hne : s[i] ≠ SPACE := fun h => hsp (h ▸ List.getElem_mem his)
    rw [List.getElem_append_left his, List.getElem_append_left his, if_neg (fun h => hne h.1)]
  · -- a byte of the padding: a blank past the first byte, or already NUL
    have hpi : i - s.length < pad.length := by omega
    rw [List.getElem_append_right (by omega), List.getElem_append_right (by omega), List.getElem_replicate]
    rcases hpad _ (List.getElem_mem hpi) with h | h
    · rw [if_pos ⟨h, by omega⟩]
    · rw [h]
      split_ifs <;> rfl

end Synapse.Chix
