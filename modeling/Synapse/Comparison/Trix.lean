import Synapse.Click.Pipeline
import Synapse.HandCoded.Program

/-!
# The hand-coded program against `trix_opt.click`

Both programs read the same trades: `hand_coded` as the payloads of the UDP
datagrams on its socket, the `input_device` of a Click configuration as Ethernet
frames, the payload behind the `s_mac_ip_udp_len` bytes of the headers. A `Feed` is
an event as both see it: a trade, with the cycle counter `Timestamper` reads for its
frame, or a firing of the interval timer, with the counter the Click timer reads.

`handCodedTrix` is what `Trix::calculate_value` returns at each `emit_update` of
`hand_coded -t -n 13 -s sym`; `clickTrix` is what `trix` of `trix_opt.click` sends
for each `MSG_UPDATE`, with `sym` routed to port `0`. The two agree on a feed
(`TrixAgrees`) when these lists are the same.

## What is proved

* `tripleAverage_eq`: the three `EwmaIncremental` of the pipeline and the three
  `EwmaHc` of the hand-coded `Trix` average the first update over the first price
  alike.
* `trix_first_update_rounding`: over the first two trades of a symbol, the pipeline
  sends `100 * (e - x) / x`, rounded once, and the hand-coded program returns
  `100 * ((e - x) / x)`, the quotient rounded before it is multiplied. At `10`, then
  `11`, the two differ in the last digits.
-/

namespace Synapse.Comparison

open Theory Trade Click HandCoded

/-- An event both programs see. -/
inductive Feed
  /-- A datagram with `payload`, which reaches `tstamp` when the cycle counter reads
  `rdtsc`. -/
  | trade (payload : List UInt8) (rdtsc : UInt64)
  /-- A firing of the interval timer, the cycle counter reading `now`. -/
  | tick (now : UInt64)

/-- The event of the hand-coded loop. -/
def Feed.loopEvent : Feed → LoopEvent
  | .trade payload _ => .datagram payload
  | .tick _ => .timer

/-- The event of the pipeline, a datagram's frame behind the headers `hdr`. -/
def Feed.pipelineEvent (hdr : List UInt8) : Feed → PipelineEvent
  | .trade payload rdtsc => .frame (hdr ++ payload) rdtsc
  | .tick now => .timer now

/-- The values `Trix::calculate_value` returns over a feed, with `-t -n 13 -s sym`. -/
def handCodedTrix (bucketCount : ℕ) (sym : Symbol) (feed : List Feed) : Option (List FixedPt) :=
  (runSteps (Program.step bucketCount) (Program.initial trixParams [sym]) (feed.map Feed.loopEvent)).map
    fun r => r.2.flatten.filterMap UpdateValues.trix

/-- The value of a packet of type `MSG_UPDATE`. -/
def updateValue (q : ValuePacket) : Option FixedPt :=
  if q.appType = .MSG_UPDATE then some q.msg.value else none

/-- The values of the `MSG_UPDATE`s `trix` sends over a feed, with `sym` routed to
port `0`. -/
def clickTrix (hdr : List UInt8) (sym : Symbol) (feed : List Feed) : Option (List FixedPt) :=
  ((trixPipeline (KeyMap.empty.insert sym 0)).bind fun p =>
      runSteps (Pipeline.step trixElements trixSplit Timestamper.new) p (feed.map (Feed.pipelineEvent hdr))).map
    fun r => r.2.flatten.filterMap updateValue

/-- The two programs agree on a feed: each `MSG_UPDATE` of `trix` carries what
`Trix::calculate_value` returned for the matching `emit_update`. -/
def TrixAgrees (bucketCount : ℕ) (hdr : List UInt8) (sym : Symbol) (feed : List Feed) : Prop :=
  handCodedTrix bucketCount sym feed = clickTrix hdr sym feed

instance (bucketCount : ℕ) (hdr : List UInt8) (sym : Symbol) (feed : List Feed) :
    Decidable (TrixAgrees bucketCount hdr sym feed) :=
  inferInstanceAs (Decidable (_ = _))

/-! ### The averages -/

theorem ewmaOf_pair (alpha x y : FixedPt) : ewmaOf alpha [y, x] = ewmaHcValue alpha x y := rfl

theorem ewmaAlpha_eq_alfaOfPeriods (n : ℤ) : ewmaAlpha n = alfaOfPeriods n := rfl

/-- The three averages of the pipeline are those of the hand-coded `Trix`. -/
theorem tripleAverage_eq (x y : FixedPt) :
    tripleAverage x y = ewmaHcValue (alfaOfPeriods 13) x
      (ewmaHcValue (alfaOfPeriods 13) x (ewmaHcValue (alfaOfPeriods 13) x y)) := by
  rw [tripleAverage, ewmaOf_pair, ewmaOf_pair, ewmaOf_pair, ewmaAlpha_eq_alfaOfPeriods]

/-! ### A datagram and its frame -/

section Datagram

variable {hdr d : List UInt8} {m : MsgTrade}

/-- The frame of a datagram the hand-coded program decodes decodes alike, and is
long enough for `split_1` to send its values. -/
theorem frame_of_datagram (hhdr : hdr.length = s_mac_ip_udp_len) (hd : populateMsgTrade d = some (some m)) :
    populateMsgTradeTp (hdr ++ d) = some (some m) ∧ MSG_SOURCE_SIZE ≤ (hdr ++ d).length := by
  have h8 := le_length_of_populateMsgTrade hd
  have hne : d ≠ [] := List.ne_nil_of_length_pos (by omega)
  refine ⟨by rw [populateMsgTradeTp_append hhdr hne, hd], ?_⟩
  rw [List.length_append, hhdr]
  unfold MSG_SOURCE_SIZE s_mac_ip_udp_len
  omega

/-- A datagram that fits the buffer of `udp_read_cb` is read whole. -/
theorem read_of_datagram (hl : d.length ≤ BUFLEN) (hd : populateMsgTrade d = some (some m)) :
    populateMsgTrade (d.take BUFLEN) = some (some m) := by
  rw [List.take_of_length_le hl, hd]

end Datagram

/-! ### The first update -/

theorem handCodedTrix_pair (bucketCount : ℕ) (sym : Symbol) (f₁ f₂ : Feed) :
    handCodedTrix bucketCount sym [f₁, f₂] =
      (runSteps (Program.step bucketCount) (Program.initial trixParams [sym]) [f₁.loopEvent, f₂.loopEvent]).map
        ((fun vs => vs.flatten.filterMap id) ∘ (·.2.map (·.map UpdateValues.trix))) := by
  rw [handCodedTrix, List.map_cons, List.map_cons, List.map_nil]
  congr 1
  funext r
  simp only [Function.comp_apply, ← List.map_flatten, List.filterMap_map, id]

theorem clickTrix_pair (hdr : List UInt8) (sym : Symbol) (f₁ f₂ : Feed) :
    clickTrix hdr sym [f₁, f₂] =
      ((trixPipeline (KeyMap.empty.insert sym 0)).bind fun p =>
          runSteps (Pipeline.step trixElements trixSplit Timestamper.new) p
            [f₁.pipelineEvent hdr, f₂.pipelineEvent hdr]).map
        ((fun vs => vs.flatten.filterMap fun q => if q.1 = PacketAppType.MSG_UPDATE then some q.2 else none) ∘
          (·.2.map (·.map fun q => (q.appType, q.msg.value)))) := by
  rw [clickTrix, List.map_cons, List.map_cons, List.map_nil]
  congr 1
  funext r
  simp only [Function.comp_apply, ← List.map_flatten, List.filterMap_map]
  rfl

/-- **The first update, in both programs.** With `hdr` the headers of a frame, a
datagram with a trade of `sym` at `x`, then one at `y ≠ x`, both fitting the buffer of
`udp_read_cb`, and the second stamped by `tstamp` later than the first trade's
timestamp: `trix` sends `100 * (e - x) / x`, rounded once, and the hand-coded
`Trix::calculate_value` returns `100 * ((e - x) / x)`, with `e` the triple average of
`y` over `x`. -/
theorem trix_first_update_rounding {sym : Symbol} {hdr d₁ d₂ : List UInt8} {m₁ m₂ : MsgTrade} {r₁ r₂ : UInt64}
    (bucketCount : ℕ) (hhdr : hdr.length = s_mac_ip_udp_len) (hd₁ : populateMsgTrade d₁ = some (some m₁))
    (hd₂ : populateMsgTrade d₂ = some (some m₂)) (hl₁ : d₁.length ≤ BUFLEN) (hl₂ : d₂.length ≤ BUFLEN)
    (hs₁ : m₁.symbol = sym) (hs₂ : m₂.symbol = sym) (hne : m₂.price ≠ m₁.price) (hx : m₁.price ≠ 0)
    (ht : m₁.srcTimestamp.toNat < r₂.toNat) :
    handCodedTrix bucketCount sym [.trade d₁ r₁, .trade d₂ r₂] =
        some [(100 : ℤ) * ((tripleAverage (.fromC m₁.price) (.fromC m₂.price) - .fromC m₁.price) /
          .fromC m₁.price)] ∧
      clickTrix hdr sym [.trade d₁ r₁, .trade d₂ r₂] =
        some [((100 : ℤ) * (tripleAverage (.fromC m₁.price) (.fromC m₂.price) - .fromC m₁.price)) /
          .fromC m₁.price] := by
  obtain ⟨hf₁, hL₁⟩ := frame_of_datagram hhdr hd₁
  obtain ⟨hf₂, hL₂⟩ := frame_of_datagram hhdr hd₂
  have hhand := trix_program_first_update bucketCount (read_of_datagram hl₁ hd₁) (read_of_datagram hl₂ hd₂)
    hs₁ hs₂ hne
  constructor
  · rw [handCodedTrix_pair, ← Option.map_map, Feed.loopEvent, Feed.loopEvent, hhand, Option.map_map,
      FixedPt.div?_of_ne hx, Option.map_some, tripleAverage_eq]
    rfl
  · rw [clickTrix_pair, ← Option.map_map, Feed.pipelineEvent, Feed.pipelineEvent, trix_pipeline_first_update hf₁ hf₂ hs₁ hs₂ hL₁ hL₂ hne hx ht,
      Option.map_some]
    rfl

/-- The datagram of the trade line `a|d|BPl|price|5`, behind a zero timestamp. -/
def bplDatagram (price : List UInt8) : List UInt8 :=
  List.replicate 8 0 ++ [97, 124, 100, 124, 66, 80, 108, 124] ++ price ++ [124, 53]

/-- The trade `populate_msg_trade` reads from it, at `price`. -/
def bplTrade (price : ℤ) : MsgTrade :=
  { withSymbol [66, 80, 108] with price := fixedptFromint price, size := Int64.ofInt 5 }

/-- A trade of `BPl` at `10`, then one at `11`, stamped at `5`. -/
def bplFeed : List Feed := [.trade (bplDatagram [49, 48]) 0, .trade (bplDatagram [49, 49]) 5]

theorem trix_first_update_bpl :
    handCodedTrix 16 bplSymbol bplFeed = some [⟨6924038239000, true⟩] ∧
      clickTrix (List.replicate 42 0) bplSymbol bplFeed = some [⟨6924038239050, true⟩] ∧
      ¬ TrixAgrees 16 (List.replicate 42 0) bplSymbol bplFeed := by
  have hd₁ : populateMsgTrade (bplDatagram [49, 48]) = some (some (bplTrade 10)) := by decide
  have hd₂ : populateMsgTrade (bplDatagram [49, 49]) = some (some (bplTrade 11)) := by decide
  have h : handCodedTrix 16 bplSymbol bplFeed = _ ∧ clickTrix (List.replicate 42 0) bplSymbol bplFeed = _ :=
    trix_first_update_rounding 16 rfl hd₁ hd₂ (by decide) (by decide) (by decide) (by decide) (by decide)
      (by decide) (by decide)
  obtain ⟨hhand, hclick⟩ := h
  have hhand' : handCodedTrix 16 bplSymbol bplFeed = some [⟨6924038239000, true⟩] := hhand.trans (by decide)
  have hclick' : clickTrix (List.replicate 42 0) bplSymbol bplFeed = some [⟨6924038239050, true⟩] :=
    hclick.trans (by decide)
  refine ⟨hhand', hclick', fun hag => ?_⟩
  rw [TrixAgrees, hhand', hclick'] at hag
  exact absurd hag (by decide)

end Synapse.Comparison
