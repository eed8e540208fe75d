import Synapse.Trade.Decoding

/-!
# From the trade file to the decoders

A trade travels through four programs. `printMdEntry`
(`tools/fix_trade_msgs/extractConvertFixTrades.cpp`) writes it to the trade file
as the line `R|delta|symbol|price|size`. `MsgSenderApp` reads the file a line at a
time (`PbFileReader::read_line`) and sends each line, less its newline, as a UDP
payload (`timeout_cb`). The kernel hook `custom_hook_new`
(`kernel_modules/timestamper/timestamper.c`) writes a timestamp over the first
eight bytes of a payload that starts with nine `'R'` bytes, reserved for it, and
leaves any other packet alone. The hand-coded program decodes the UDP payload,
and `TradeProcessor` the Ethernet frame.

## The model

A line of the trade file is the bytes `printMdEntry` writes to `stderr`; its
`printf` to `stdout` is a log and is left out. Each field is what `hffix` gives
as text, printed with `%s`, so up to its first NUL. The hook is modelled on the
packets of its capture device, from the IP header on (`skb->data`); it stores the
timestamp as a little-endian machine does. The hand-coded program receives the
UDP payload, `TradeProcessor` the frame with its 14-byte Ethernet header (`deliver`).

## What is proved

* `customHookNew_of_not_reserved`, `customHookNew_of_reserved`: what the hook does;
  `deliver_of_not_reserved`, `deliver_of_reserved`: what both decoders see.
* `timeoutCb_printMdEntry`: a line of the trade file is sent less its newline.
* `deliver_printMdEntry`: no line of the trade file is stamped, and both decoders
  read its first eight bytes, `R|` and the delta on, as the timestamp;
  `deliver_first_entry` follows one entry through.
* `deliver_reserved_entry`: a line with the eight bytes the hook reserves in
  front would reach both decoders as the trade, stamped.
-/

namespace Synapse.Trade

/-! ### The trade file -/

/-- `'R'`. -/
def R : UInt8 := 82

/-- `'\n'`. -/
def LF : UInt8 := 10

/-- A string printed with `%s`: its bytes up to the first NUL. -/
def cstr (s : List UInt8) : List UInt8 := s.takeWhile (· != 0)

/-- The decimal digits of `n`. -/
def decimalText (n : ℕ) : List UInt8 := (Nat.toDigits 10 n).map fun c => c.toNat.toUInt8

/-- `%lld`. -/
def lldText (x : Int64) : List UInt8 :=
  (if x.toInt < 0 then [MINUS] else []) ++ decimalText x.toInt.natAbs

/-- `printMdEntry (group_begin, group_end, timestamp)`, with `symbol`, `price` and
`size` the fields the group has, and `prevtstamp` its `static`, unset before the
first call: the line it writes, and the `static` after it. The first line has the
delta `0`; the newline is written with the size. -/
def printMdEntry (prevtstamp : Option UInt64) (microsecsSinceEpoch : UInt64)
    (symbol price size : Option (List UInt8)) : List UInt8 × Option UInt64 :=
  let prev := prevtstamp.getD microsecsSinceEpoch
  let field (v : Option (List UInt8)) : List UInt8 := (v.map fun s => BAR :: cstr s).getD []
  ([R, BAR] ++ lldText (microsecsSinceEpoch - prev).toInt64 ++ field symbol ++ field price ++
      (size.map fun s => BAR :: cstr s ++ [LF]).getD [],
    some microsecsSinceEpoch)

/-! ### The sender -/

/-- `read_line` and `timeout_cb` on the line `getline` read into the buffer: the
`strlen` of the line less one, for its newline, is sent; nothing is sent for an
empty line. -/
def timeoutCb (line : List UInt8) : Option (List UInt8) :=
  let lineLen := (line.takeWhile (· != 0)).length - 1
  if lineLen = 0 then none else some (line.take lineLen)

/-! ### The timestamper -/

/-- `s_ip_udp_len`: the IP and UDP headers. -/
def s_ip_udp_len : ℕ := 28

/-- `reserved_field_len`: the bytes of `'R'` a payload starts with to be stamped. -/
def reserved_field_len : ℕ := 9

/-- The eight bytes of `t`, least significant first. -/
def leBytes (t : UInt64) : List UInt8 := (List.range 8).map fun k => (t.toNat / 256 ^ k).toUInt8

/-- `custom_hook_new (skb)` on a packet of the capture device: a packet whose UDP
payload reaches past its nine reserved bytes, all `'R'`, gets the timestamp `t`
over the first eight of them and a zero UDP checksum; any other is passed on as
it is. -/
def customHookNew (packet : List UInt8) (t : UInt64) : List UInt8 :=
  if packet.length < s_ip_udp_len + reserved_field_len + 1 then packet
  else if ((packet.drop s_ip_udp_len).take reserved_field_len).all (· == R) then
    packet.take (s_ip_udp_len - 2) ++ [0, 0] ++ leBytes t ++ packet.drop (s_ip_udp_len + 8)
  else packet

/-- A UDP `payload` sent behind the IP and UDP headers `hdr` and stamped at `t`, as
the hand-coded program and `TradeProcessor` (behind the Ethernet header `eth`)
decode it. -/
def deliver (eth hdr : List UInt8) (t : UInt64) (payload : List UInt8) :
    Option (Option MsgTrade) × Option (Option MsgTrade) :=
  let packet := customHookNew (hdr ++ payload) t
  (populateMsgTrade (packet.drop s_ip_udp_len), populateMsgTradeTp (eth ++ packet))

/-! ### The bytes of a line -/

theorem mem_decimalText {c : UInt8} {n : ℕ} (h : c ∈ decimalText n) : 48 ≤ c.toNat ∧ c.toNat ≤ 57 := by
  obtain ⟨ch, hch, rfl⟩ := List.mem_map.1 h
  have hd := Nat.isDigit_of_mem_toDigits (by decide) (by decide) hch
  simp only [Char.isDigit, Bool.and_eq_true, decide_eq_true_eq, UInt32.le_iff_toNat_le] at hd
  have hv : ch.toNat = ch.val.toNat := rfl
  simp only [Nat.toUInt8, UInt8.toNat_ofNat', hv]
  simp at hd
  omega

/-- `%lld` writes a sign and digits. -/
theorem mem_lldText {c : UInt8} {x : Int64} (h : c ∈ lldText x) :
    c = MINUS ∨ 48 ≤ c.toNat ∧ c.toNat ≤ 57 := by
  unfold lldText at h
  rcases List.mem_append.1 h with h | h
  · split_ifs at h <;> simp_all
  · exact .inr (mem_decimalText h)

theorem bar_not_mem_lldText (x : Int64) : BAR ∉ lldText x := fun h => by
  rcases mem_lldText h with h | h
  · exact absurd h (by decide)
  · simp [BAR] at h

theorem zero_not_mem_lldText (x : Int64) : 0 ∉ lldText x := fun h => by
  rcases mem_lldText h with h | h
  · exact absurd h (by decide)
  · simp at h

theorem zero_not_mem_cstr (s : List UInt8) : 0 ∉ cstr s := fun h => by
  simpa using List.mem_takeWhile_imp h

theorem cstr_of_zero_not_mem {s : List UInt8} (h : 0 ∉ s) : cstr s = s :=
  List.takeWhile_eq_self_iff.2 fun c hc => by
    have hc0 : c ≠ 0 := fun h' => h (h' ▸ hc)
    simpa using hc0

/-- The line of an entry with all three fields. -/
theorem printMdEntry_line (prevtstamp : Option UInt64) (m : UInt64) (s p n : List UInt8) :
    (printMdEntry prevtstamp m (some s) (some p) (some n)).1 =
      R :: BAR :: (lldText (m - prevtstamp.getD m).toInt64 ++ BAR :: cstr s ++ BAR :: cstr p ++
        BAR :: cstr n) ++ [LF] := by
  simp [printMdEntry]

/-- A line without a NUL is sent less its newline. -/
theorem timeoutCb_append_lf {body : List UInt8} (h0 : 0 ∉ body) (hne : body ≠ []) :
    timeoutCb (body ++ [LF]) = some body := by
  have hall : (body ++ [LF]).takeWhile (· != 0) = body ++ [LF] :=
    List.takeWhile_eq_self_iff.2 fun c hc => by
      rcases List.mem_append.1 hc with hc | hc
      · have hc0 : c ≠ 0 := fun h' => h0 (h' ▸ hc)
        simpa using hc0
      · simp at hc
        simp [hc, LF]
  have hlen : body.length ≠ 0 := by simpa [List.length_eq_zero_iff] using hne
  simp [timeoutCb, hall, hlen]

/-- **What the sender sends** for an entry with all three fields: its line, less
the newline. -/
theorem timeoutCb_printMdEntry (prevtstamp : Option UInt64) (m : UInt64) (s p n : List UInt8) :
    timeoutCb (printMdEntry prevtstamp m (some s) (some p) (some n)).1 =
      some (R :: BAR :: (lldText (m - prevtstamp.getD m).toInt64 ++ BAR :: cstr s ++ BAR :: cstr p ++
        BAR :: cstr n)) := by
  rw [printMdEntry_line]
  refine timeoutCb_append_lf ?_ (List.cons_ne_nil _ _)
  simp [R, BAR, zero_not_mem_lldText, zero_not_mem_cstr]

/-! ### The timestamp -/

theorem toNat_leWord (bytes : List UInt8) :
    (leWord bytes).toNat = bytes.foldr (fun b acc => b.toNat + 256 * acc) 0 % 2 ^ 64 := by
  induction bytes with
  | nil => rfl
  | cons b bs ih =>
    change (b.toUInt64 + 256 * leWord bs).toNat = _
    rw [List.foldr_cons, UInt64.toNat_add, UInt64.toNat_mul, ih]
    simp only [UInt8.toNat_toUInt64, UInt64.reduceToNat]
    omega

/-- The bytes of `x`, least significant first, make up `x` modulo `256 ^ n`. -/
theorem foldr_leDigits (x n : ℕ) :
    ((List.range n).map fun k => (x / 256 ^ k).toUInt8).foldr (fun b acc => b.toNat + 256 * acc) 0 =
      x % 256 ^ n := by
  induction n generalizing x with
  | zero => simp [Nat.mod_one]
  | succ n ih =>
    have hdigits : (List.range n).map (fun k => (x / 256 ^ (k + 1)).toUInt8) =
        (List.range n).map fun k => (x / 256 / 256 ^ k).toUInt8 := by
      refine List.map_congr_left fun k _ => ?_
      rw [Nat.div_div_eq_div_mul, Nat.pow_succ']
    rw [List.range_succ_eq_map, List.map_cons, List.map_map, List.foldr_cons]
    simp only [Function.comp_def] at *
    rw [hdigits, ih, Nat.pow_succ', Nat.mod_mul]
    simp [Nat.toUInt8]

/-- The timestamp the hook writes is the one the decoders read. -/
theorem leWord_leBytes (t : UInt64) : leWord (leBytes t) = t := by
  apply UInt64.toNat_inj.1
  rw [toNat_leWord, leBytes, foldr_leDigits]
  have := t.toNat_lt
  omega

@[simp] theorem length_leBytes (t : UInt64) : (leBytes t).length = 8 := by
  simp [leBytes]

/-! ### The hook -/

section Hook

variable {hdr : List UInt8} (hhdr : hdr.length = s_ip_udp_len)
include hhdr

/-- A payload that does not start with the nine reserved bytes is passed on as it is. -/
theorem customHookNew_of_not_reserved {payload : List UInt8}
    (h : ¬ (payload.take reserved_field_len).all (· == R) = true) (t : UInt64) :
    customHookNew (hdr ++ payload) t = hdr ++ payload := by
  unfold customHookNew
  rw [List.drop_left' hhdr]
  split_ifs <;> rfl

/-- A payload that starts with them, and goes on after them, gets the timestamp over
the first eight, and the UDP checksum, the last two bytes of the headers, is zeroed. -/
theorem customHookNew_of_reserved {rest : List UInt8} (hrest : rest ≠ []) (t : UInt64) :
    customHookNew (hdr ++ (List.replicate reserved_field_len R ++ rest)) t =
      hdr.take (s_ip_udp_len - 2) ++ [0, 0] ++ leBytes t ++ R :: rest := by
  have hlong : ¬ (hdr ++ (List.replicate reserved_field_len R ++ rest)).length <
      s_ip_udp_len + reserved_field_len + 1 := by
    have := List.length_pos_iff.2 hrest
    simp only [List.length_append, List.length_replicate, hhdr, reserved_field_len]
    omega
  have hres : (((hdr ++ (List.replicate reserved_field_len R ++ rest)).drop s_ip_udp_len).take
      reserved_field_len).all (· == R) = true := by
    rw [List.drop_left' hhdr, List.take_left' (by simp)]
    simp
  have hafter : (hdr ++ (List.replicate reserved_field_len R ++ rest)).drop (s_ip_udp_len + 8) =
      R :: rest := by
    rw [← hhdr, List.drop_append, show List.replicate reserved_field_len R = List.replicate 8 R ++ [R] from rfl,
      List.append_assoc, List.drop_left' (by simp), List.drop_eq_nil_of_le (by omega), List.nil_append]
    rfl
  unfold customHookNew
  rw [if_neg hlong, if_pos hres, hafter, List.take_append_of_le_length (by simp [hhdr])]

end Hook

/-- The shared decoding from `pre.length` on depends only on what follows `pre`. -/
theorem decodeAt_append (pre payload : List UInt8) (h : pre.length + 8 ≤ 2 ^ 32) :
    decodeAt (pre ++ payload) pre.length = decodeAt payload 0 := by
  have hmd : (pre ++ payload).length + (2 ^ 32 - (pre.length + 8)) = payload.length + (2 ^ 32 - (0 + 8)) := by
    simp only [List.length_append]
    omega
  unfold decodeAt
  rw [hmd, List.drop_append, List.drop_left, List.drop_zero, List.drop_eq_nil_of_le (by omega),
    List.nil_append, Nat.add_sub_cancel_left, Nat.zero_add]

/-- On a frame with a payload byte, `TradeProcessor` decodes the payload as the
hand-coded program does. -/
theorem populateMsgTradeTp_append {pre payload : List UInt8} (hpre : pre.length = s_mac_ip_udp_len)
    (hne : payload ≠ []) : populateMsgTradeTp (pre ++ payload) = populateMsgTrade payload := by
  have hlen : ¬ (pre ++ payload).length < s_mac_ip_udp_len + 1 := by
    have := List.length_pos_iff.2 hne
    simp only [List.length_append, hpre]
    omega
  unfold populateMsgTradeTp
  rw [if_neg hlen, ← hpre, decodeAt_append _ _ (by rw [hpre]; decide)]
  rfl

section Deliver

variable {eth hdr : List UInt8} (heth : eth.length = 14) (hhdr : hdr.length = s_ip_udp_len)
include heth hhdr

/-- **An unreserved payload** reaches both decoders as it was sent. -/
theorem deliver_of_not_reserved {payload : List UInt8} (hne : payload ≠ [])
    (h : ¬ (payload.take reserved_field_len).all (· == R) = true) (t : UInt64) :
    deliver eth hdr t payload = (populateMsgTrade payload, populateMsgTrade payload) := by
  dsimp only [deliver]
  rw [customHookNew_of_not_reserved hhdr h, List.drop_left' hhdr, ← List.append_assoc,
    populateMsgTradeTp_append (by simp [heth, hhdr, s_mac_ip_udp_len, s_ip_udp_len]) hne]

/-- **A reserved payload** reaches both decoders with the timestamp over its first
eight bytes. -/
theorem deliver_of_reserved {rest : List UInt8} (hrest : rest ≠ []) (t : UInt64) :
    deliver eth hdr t (List.replicate reserved_field_len R ++ rest) =
      (populateMsgTrade (leBytes t ++ R :: rest), populateMsgTrade (leBytes t ++ R :: rest)) := by
  have hpre : (hdr.take (s_ip_udp_len - 2) ++ [0, 0]).length = s_ip_udp_len := by
    simp [hhdr, s_ip_udp_len]
  dsimp only [deliver]
  rw [customHookNew_of_reserved hhdr hrest, List.append_assoc _ (leBytes t), List.drop_left' hpre,
    ← List.append_assoc eth, populateMsgTradeTp_append (by rw [List.length_append, hpre, heth]; rfl)
      (by simp)]

end Deliver

/-- A payload of fields behind a timestamp decodes as `tradeOfFields` says. -/
theorem populateMsgTrade_stamped (t : UInt64) {fs : List (List UInt8)} (hbar : ∀ f ∈ fs, BAR ∉ f)
    (hne : fs ≠ []) (hlen : ([BAR].intercalate fs).length < 2 ^ 31) :
    populateMsgTrade (leBytes t ++ [BAR].intercalate fs) = tradeOfFields fs t := by
  have hpacket : (leBytes t ++ [BAR].intercalate fs).length < 2 ^ 32 := by
    simp only [List.length_append, length_leBytes]
    omega
  have hlong : ¬ (leBytes t ++ [BAR].intercalate fs).length < 0 + 8 := by simp
  rw [populateMsgTrade, decodeAt_eq hpacket (by decide), if_neg hlong, Nat.zero_add,
    List.drop_left' (length_leBytes t), List.drop_zero, List.take_left' (length_leBytes t),
    List.splitOn_intercalate BAR hbar hne, leWord_leBytes]

theorem not_reserved_of_bar (a : UInt8) (l : List UInt8) :
    ¬ ((a :: BAR :: l).take reserved_field_len).all (· == R) = true := by
  simp [reserved_field_len, BAR, R]

section Entries

variable {eth hdr : List UInt8} (heth : eth.length = 14) (hhdr : hdr.length = s_ip_udp_len)
include heth hhdr

/-- **No line of the trade file is stamped.** Every entry's line starts `R|`, not
with the nine reserved bytes, so the hook passes it on and both decoders take its
first eight bytes for the timestamp. -/
theorem deliver_printMdEntry (prevtstamp : Option UInt64) (m : UInt64) (s p n : List UInt8)
    (t : UInt64) :
    ∃ payload, timeoutCb (printMdEntry prevtstamp m (some s) (some p) (some n)).1 = some payload ∧
      payload.take 2 = [R, BAR] ∧
      deliver eth hdr t payload = (populateMsgTrade payload, populateMsgTrade payload) :=
  ⟨_, timeoutCb_printMdEntry prevtstamp m s p n, rfl,
    deliver_of_not_reserved heth hhdr (List.cons_ne_nil _ _) (not_reserved_of_bar _ _) t⟩

/-- **The format the hook and the decoders expect.** Sent with the eight bytes the
hook reserves in front, an entry's line would reach both decoders as its trade:
the symbol, the parsed price and size, and the timestamp the hook wrote. -/
theorem deliver_reserved_entry (prevtstamp : Option UInt64) (m : UInt64) {s p n payload : List UInt8}
    {price : Fixedpt} (hs : BAR ∉ s) (hp : BAR ∉ p) (hn : BAR ∉ n)
    (hslen : (cstr s).length ≤ ORDER_SYMBOL_LEN - 1) (hprice : parsePriceAsFixedpt (cstr p) = some price)
    (hsize : cstr n ≠ [])
    (hsent : timeoutCb (printMdEntry prevtstamp m (some s) (some p) (some n)).1 = some payload)
    (hlen : payload.length < 2 ^ 31) (t : UInt64) :
    deliver eth hdr t (List.replicate 8 R ++ payload) =
      let msg : MsgTrade := { withSymbol (cstr s) with
        price := price, size := Int64.ofInt (strtol (cstr n)), srcTimestamp := t }
      (some (some msg), some (some msg)) := by
  have hcstr : ∀ {f : List UInt8}, BAR ∉ f → BAR ∉ cstr f := fun h h' =>
    h ((List.takeWhile_sublist _).subset h')
  set d := lldText (m - prevtstamp.getD m).toInt64
  have hpayload : payload = [BAR].intercalate [[R], d, cstr s, cstr p, cstr n] := by
    rw [timeoutCb_printMdEntry] at hsent
    simp [← Option.some_inj.1 hsent, List.intercalate_cons_cons, d]
  have hrest : List.replicate 8 R ++ payload =
      List.replicate reserved_field_len R ++ (BAR :: (d ++ BAR :: cstr s ++ BAR :: cstr p ++ BAR :: cstr n)) := by
    rw [hpayload]
    simp [List.intercalate_cons_cons, reserved_field_len, List.replicate_succ']
  have hfields : ∀ f ∈ [[R], d, cstr s, cstr p, cstr n], BAR ∉ f := by
    intro f hf
    simp only [List.mem_cons, List.not_mem_nil, or_false] at hf
    rcases hf with rfl | rfl | rfl | rfl | rfl
    · decide
    · exact bar_not_mem_lldText _
    · exact hcstr hs
    · exact hcstr hp
    · exact hcstr hn
  have hdecode := populateMsgTrade_stamped t hfields (by simp) (hpayload ▸ hlen)
  rw [tradeOfFields_trade hslen hprice hsize] at hdecode
  rw [hrest, deliver_of_reserved heth hhdr (List.cons_ne_nil _ _)]
  have hstamped : leBytes t ++ R :: BAR :: (d ++ BAR :: cstr s ++ BAR :: cstr p ++ BAR :: cstr n) =
      leBytes t ++ [BAR].intercalate [[R], d, cstr s, cstr p, cstr n] := by
    simp [List.intercalate_cons_cons]
  rw [hstamped, hdecode]

/-- The entry `BPl`, price `10`, size `5`, first of its file: sent as
`R|0|BPl|10|5`, it reaches both decoders unstamped, and both take it for a trade
with no symbol, a zero price and size, and the bytes `R|0|BPl|` for its timestamp. -/
theorem deliver_first_entry (t : UInt64) :
    timeoutCb (printMdEntry none 0 (some [66, 80, 108]) (some [49, 48]) (some [53])).1 =
        some [82, 124, 48, 124, 66, 80, 108, 124, 49, 48, 124, 53] ∧
      deliver eth hdr t [82, 124, 48, 124, 66, 80, 108, 124, 49, 48, 124, 53] =
        (some (some { (default : MsgTrade) with srcTimestamp := leWord [82, 124, 48, 124, 66, 80, 108, 124] }),
          some (some { (default : MsgTrade) with srcTimestamp := leWord [82, 124, 48, 124, 66, 80, 108, 124] })) := by
  obtain ⟨payload, hsent, -, hdeliver⟩ := deliver_printMdEntry heth hhdr none 0 [66, 80, 108] [49, 48] [53] t
  -- the entry's line, less its newline, is `R|0|BPl|10|5`
  have hline : payload = [82, 124, 48, 124, 66, 80, 108, 124, 49, 48, 124, 53] :=
    Option.some.inj (hsent.symm.trans (by decide))
  subst hline
  refine ⟨hsent, ?_⟩
  rw [hdeliver]
  decide

end Entries

theorem deliver_first_entry_zero_headers :
    (List.replicate 14 (0 : UInt8)).length = 14 ∧ (List.replicate 28 (0 : UInt8)).length = s_ip_udp_len ∧
      (timeoutCb (printMdEntry none 0 (some [66, 80, 108]) (some [49, 48]) (some [53])).1 =
          some [82, 124, 48, 124, 66, 80, 108, 124, 49, 48, 124, 53] ∧
        deliver (List.replicate 14 0) (List.replicate 28 0) 0 [82, 124, 48, 124, 66, 80, 108, 124, 49, 48, 124, 53] =
          (some (some { (default : MsgTrade) with srcTimestamp := leWord [82, 124, 48, 124, 66, 80, 108, 124] }),
            some (some { (default : MsgTrade) with srcTimestamp := leWord [82, 124, 48, 124, 66, 80, 108, 124] }))) :=
  ⟨rfl, rfl, deliver_first_entry (List.length_replicate ..) (List.length_replicate ..) 0⟩

/-- The entry `BPl`, price `10`, size `5`, first of its file, sent with the eight
reserved bytes in front: both decoders take it for the trade, stamped. -/
theorem deliver_reserved_entry_bpl :
    deliver (List.replicate 14 0) (List.replicate 28 0) 7
        (List.replicate 8 R ++ [82, 124, 48, 124, 66, 80, 108, 124, 49, 48, 124, 53]) =
      (some (some { withSymbol [66, 80, 108] with price := fixedptFromint 10, size := 5, srcTimestamp := 7 }),
        some (some { withSymbol [66, 80, 108] with price := fixedptFromint 10, size := 5, srcTimestamp := 7 })) :=
  @deliver_reserved_entry _ _ (List.length_replicate ..) (List.length_replicate ..) none 0 [66, 80, 108] [49, 48] [53]
    [82, 124, 48, 124, 66, 80, 108, 124, 49, 48, 124, 53] (fixedptFromint 10) (by decide) (by decide) (by decide)
    (by decide) (by decide) (by decide) (by decide) (by decide) 7

end Synapse.Trade
