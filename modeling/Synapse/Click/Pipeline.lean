import Synapse.Click.Trix
import Synapse.Trade.TradeProcessor

/-!
# The TRIX pipeline

`indicator_configs/trix_opt.click` connects

    input_device -> trade_processor[0] -> tstamp -> split_1[0] -> ewma_1 -> ewma_2 -> ewma_3 -> trix -> stats -> Discard

with `SYMBOLS_ROUTING "BPl 0"`, `SourceSplit (CLOSE 0)`, and three
`EwmaIncremental (ALPHA_PERIODS 13, BUF_SIZE 13, IN_PORTS 1, OP_MODE 2)` before a
`Trix (BUF_SIZE 13, IN_PORTS 1, OP_MODE 2)`. `Timestamper`
(`elements/standard/timestamper.cc`) stamps each `MSG_UPDATE_SOURCE` with the cycle
counter; `SourceSplit` (`elements/standard/source_split.cc`) sends each field of a
bar that has an output port as a `MsgValue` of the matching type. Click pushes
depth first: each packet an element sends goes through the rest of the chain
before the element sends the next.

## The model

A `Pipeline` is the state of `trade_processor`, with the `first_symbol` of its
`push`, and the states of the chain after `split_1[0]`. An event is a frame, with
the cycle counter `Timestamper` reads for it, or a firing of the timer of
`trade_processor`, with the counter `send_add_msg` reads. `Pipeline.step` returns
the packets `trix` sends, which `stats` only prints. `split_1` has the one output
`split_1[0]`: `checked_output_push` drops a packet for another port, and the
model sends only those of port `0` down the chain. A message of another type than
a source's is not modelled: `trade_processor` sends none. `Timestamper`'s
`MSG_UPDATE` branch, and `PRINTAVG`, which only prints, are left out.

## What is proved

* `pushChain_trix_init`, `pushChain_trix_update`: on fresh elements, an `INIT` of
  `x` leaves `trix` as `0` and an `UPDATE` of `y` at a later timestamp as
  `100 * (e - x) / x`, rounded once, with `e` the triple average of `y` over `x`.
* `step_frame_first`, `step_frame_update`: the first subscribed trade sends its price
  down the chain as an `INIT`, a later one that changes the close as an `UPDATE`
  stamped with the counter.
* `trix_pipeline_first_update`: the two together, over the first two trades of a run.
-/

namespace Synapse.Click

open Trade Theory Buffers

/-! ### `Timestamper` -/

/-- `Timestamper`: `_active` and `_replace_tstamp`. -/
structure Timestamper where
  /-- `_active`. -/
  active : Bool
  /-- `_replace_tstamp` (`REPLACETSTAMP`). -/
  replaceTstamp : Bool

/-- `Timestamper ()`. -/
def Timestamper.new : Timestamper := ⟨true, true⟩

/-- `Timestamper::simple_action (p)` on a message of a source, the cycle counter
reading `rdtsc`. -/
def Timestamper.simpleAction (t : Timestamper) (rdtsc : UInt64) (o : SourceOut) : SourceOut :=
  if !t.active then o
  else
    match o.type with
    | .MSG_UPDATE_SOURCE => if t.replaceTstamp then { o with msg := { o.msg with timestamp := rdtsc } } else o
    | _ => o

/-! ### `SourceSplit` -/

/-- `SourceSplit`: the output port of each field of a bar, `-1` for none. -/
structure SourceSplit where
  /-- `_close_port`. -/
  closePort : ℤ
  /-- `_high_port`. -/
  highPort : ℤ
  /-- `_low_port`. -/
  lowPort : ℤ
  /-- `_open_port`. -/
  openPort : ℤ
  /-- `_volume_port`. -/
  volumePort : ℤ

/-- `SourceSplit ()`. -/
def SourceSplit.new : SourceSplit := ⟨-1, -1, -1, -1, -1⟩

/-- The `switch` of `sendMsg`: the type of the values of a message. -/
def SourceSplit.newType : SourceType → PacketAppType
  | .MSG_ADD_SOURCE => .MSG_ADD
  | .MSG_UPDATE_SOURCE => .MSG_UPDATE
  | .MSG_INIT_SOURCE => .MSG_INIT

/-- `sendMsg (packet, out_port, value, timestamp, msg_type)` on a clone of a packet
of `len` bytes: the port and the packet, unless it is too small. -/
def SourceSplit.sendMsg (len : ℕ) (outPort : ℤ) (value : Fixedpt) (timestamp : UInt64) (msgType : SourceType) :
    List (ℤ × ValuePacket) :=
  if MSG_VALUE_SIZE > len then []
  else [(outPort, ⟨len, newType msgType, ⟨FixedPt.fromC value, timestamp.toNat⟩⟩)]

/-- `SourceSplit::push (port, p)` on a message of a source in a packet of `len`
bytes: open, high, close, low and volume, each that has a port. -/
def SourceSplit.push (s : SourceSplit) (len : ℕ) (o : SourceOut) : List (ℤ × ValuePacket) :=
  let send (port : ℤ) (value : Fixedpt) := if port > -1 then sendMsg len port value o.msg.timestamp o.type else []
  send s.openPort o.msg.open ++ send s.highPort o.msg.high ++ send s.closePort o.msg.close ++
    send s.lowPort o.msg.low ++ send s.volumePort (fixedptFromint o.msg.volume.toInt)

/-! ### The chain -/

/-- A packet pushed into the first of a chain of elements, each sending on its
output `0` into the input `0` of the next: the states after it and the packet that
leaves the last one, if any. -/
def pushChain : List Indicator → List IndicatorBase → ValuePacket → Option (List IndicatorBase × Option ValuePacket)
  | E :: Es, s :: ss, p => do
    let (s', a) ← IndicatorBase.push E s 0 p
    match a with
    | .output p' =>
      let (ss', out) ← pushChain Es ss p'
      pure (s' :: ss', out)
    | .discard => pure (s' :: ss, none)
  | _, ss, p => some (ss, some p)

@[simp] theorem pushChain_nil (ss : List IndicatorBase) (p : ValuePacket) : pushChain [] ss p = some (ss, some p) := by
  cases ss <;> rfl

/-- An element that sends the packet on passes it to the rest of the chain. -/
theorem pushChain_cons_output {E : Indicator} {Es : List Indicator} {s s' : IndicatorBase} {ss : List IndicatorBase}
    {p p' : ValuePacket} (h : IndicatorBase.push E s 0 p = some (s', .output p')) :
    pushChain (E :: Es) (s :: ss) p = (pushChain Es ss p').map fun r => (s' :: r.1, r.2) := by
  simp only [pushChain, h, Option.bind_eq_bind, Option.bind_some]
  cases pushChain Es ss p' <;> rfl

/-- The state of the pipeline. -/
structure Pipeline where
  /-- The `static bool first_symbol` of `TradeProcessor::push`. -/
  firstSymbol : Bool
  /-- `trade_processor`. -/
  tradeProcessor : TradeProcessor
  /-- The elements after `split_1[0]`. -/
  chain : List IndicatorBase

/-- What the pipeline reacts to. -/
inductive PipelineEvent
  /-- A frame from `input_device`, with the cycle counter `tstamp` reads for it. -/
  | frame (bytes : List UInt8) (rdtsc : UInt64)
  /-- A firing of the timer of `trade_processor`, the cycle counter reading `now`. -/
  | timer (now : UInt64)

/-- `sizeof (MsgSource) + 1`, the length of the packet `send_add_msg` makes. -/
def ADD_PACKET_LEN : ℕ := MSG_SOURCE_SIZE + 1

/-- The messages of `trade_processor`, in packets of `len` bytes, through `tstamp`
and `split_1`, and the values of `split_1[0]` down the chain: the chain after them
and what `trix` sends. -/
def Pipeline.feed (Es : List Indicator) (split : SourceSplit) (tstamp : Timestamper) (rdtsc : UInt64) (len : ℕ)
    (chain : List IndicatorBase) (outs : List SourceOut) : Option (List IndicatorBase × List ValuePacket) :=
  let packets := outs.flatMap fun o =>
    (split.push len (tstamp.simpleAction rdtsc o)).filterMap fun x => if x.1 = 0 then some x.2 else none
  (runSteps (pushChain Es) chain packets).map fun r => (r.1, r.2.filterMap id)

/-- One event of the pipeline; `none` where an element has no value or for the
firing of a timer that is not scheduled. -/
def Pipeline.step (Es : List Indicator) (split : SourceSplit) (tstamp : Timestamper) (p : Pipeline) :
    PipelineEvent → Option (Pipeline × List ValuePacket)
  | .frame bytes rdtsc => do
    let (firstSymbol, tp, outs) ← p.tradeProcessor.push p.firstSymbol bytes
    let (chain, sent) ← feed Es split tstamp rdtsc bytes.length p.chain outs
    pure (⟨firstSymbol, tp, chain⟩, sent)
  | .timer now =>
    if p.tradeProcessor.timerScheduled then do
      let (tp, outs) := p.tradeProcessor.runTimer now
      let (chain, sent) ← feed Es split tstamp now ADD_PACKET_LEN p.chain outs
      pure (⟨p.firstSymbol, tp, chain⟩, sent)
    else none

/-! ### `trix_opt.click` -/

/-- `ewma_1`, `ewma_2`, `ewma_3` and `trix`. -/
def trixElements : List Indicator := [ewmaIncremental 13, ewmaIncremental 13, ewmaIncremental 13, trix]

/-- `split_1 :: SourceSplit (CLOSE 0)`. -/
def trixSplit : SourceSplit := { SourceSplit.new with closePort := 0 }

/-- The pipeline of `trix_opt.click` before any event, its trades routed by
`subscriptions`: each element configured with `IN_PORTS 1`, `BUF_SIZE 13` and
`OP_MODE 2`. -/
def trixPipeline (subscriptions : KeyMap Symbol ℤ) : Option Pipeline :=
  (trixElements.mapM fun E => IndicatorBase.configure E 1 13 2).map fun chain =>
    ⟨true, TradeProcessor.initial subscriptions, chain⟩

/-! ### An element with one port -/

namespace IndicatorBase

variable {E : Indicator} {c : ℕ} {s : IndicatorBase} {p : ValuePacket}

/-- The element `configure` makes with one port, windows of `c` values and
`OP_MODE 2`. -/
def configured (E : Indicator) (c : ℕ) : IndicatorBase := ⟨true, .STARTUP, Buffers.new 1 c, [], false, E.localCache⟩

/-- The round a push of `p` is on an element with one port. -/
def portRound (s : IndicatorBase) (p : ValuePacket) : Round FixedPt :=
  ⟨s.roundKind p.appType, p.msg.timestamp, [0], fun _ => p.msg.value⟩

/-- A push on an element with one port is a whole round. -/
theorem roundEnd_pushBuffers {rows : List (ℕ → FixedPt)} (hB : Boundary 1 c s.buffers rows) (hc : 0 < c)
    (ht : s.buffers.tstamp < p.msg.timestamp ∨ s.buffers.state = .INITIAL ∧ s.roundKind p.appType = .committed) :
    RoundEnd 1 c (s.portRound p) rows (s.pushBuffers 0 p) :=
  hB.roundEnd Nat.one_pos hc (List.Perm.refl _) ht

/-- An element with one port in `STARTUP` after its `INIT` round: the value `x` at
the timestamp `t`. -/
structure Primed (E : Indicator) (c : ℕ) (x : FixedPt) (t : ℕ) (s : IndicatorBase) : Prop where
  active : s.active = true
  opMode : s.opMode = .STARTUP
  initialized : s.initialized = true
  boundary : Boundary 1 c s.buffers [fun _ => x]
  tstamp : s.buffers.tstamp = t
  localCache : s.localCache = E.localCache

/-- **The `INIT` round** of a configured element: `initialize_element` over the
window of the value, which the element keeps. -/
theorem push_configured_init (hc : 0 < c) (hty : p.appType = .MSG_INIT) :
    push E (configured E c) 0 p = (E.initializeElement ((configured E c).pushBuffers 0 p)).map (fun v =>
      ({ configured E c with buffers := (configured E c).pushBuffers 0 p, initialized := true },
        if v.valid then sendMsgValue p v p.msg.timestamp p.appType else .discard)) ∧
      Primed E c p.msg.value p.msg.timestamp
        { configured E c with buffers := (configured E c).pushBuffers 0 p, initialized := true } ∧
      RoundWindows 1 c ((configured E c).pushBuffers 0 p) (fun _ => p.msg.value) [] := by
  have hκ := roundKind_of_init (configured E c) hty
  -- a first timestamp of `0` finds the buffers `INITIAL`, a higher one starts a round
  have ht : (configured E c).buffers.tstamp < p.msg.timestamp ∨
      (configured E c).buffers.state = .INITIAL ∧ (configured E c).roundKind p.appType = .committed := by
    by_cases h0 : 0 < p.msg.timestamp
    · exact .inl h0
    · exact .inr ⟨rfl, hκ⟩
  have hend := roundEnd_pushBuffers (Boundary.new hc) hc ht
  have hB := hend.boundary
  rw [portRound, hκ] at hB
  refine ⟨push_complete_init rfl (.inr (.inr hty)) hend.complete (.inl hty), ⟨rfl, rfl, rfl, hB, hend.tstamp, rfl⟩,
    hend.windows⟩

/-- **An `UPDATE` round in `STARTUP`** at a later timestamp: `process_ext` over the
window of the value in front of `x`. -/
theorem Primed.push_update {x : FixedPt} {t : ℕ} (h : Primed E c x t s) (hc : 0 < c)
    (hty : p.appType = .MSG_UPDATE) (ht : t < p.msg.timestamp) :
    push E s 0 p = (E.processExt E.localCache (s.pushBuffers 0 p)).map (fun lc =>
      ({ s with buffers := s.pushBuffers 0 p, localCache := lc }, sendMsgValue p (lc.value 0) p.msg.timestamp p.appType)) ∧
      RoundWindows 1 c (s.pushBuffers 0 p) (fun _ => p.msg.value) [fun _ => x] := by
  have hend := roundEnd_pushBuffers h.boundary hc (.inl (h.tstamp ▸ ht))
  obtain ⟨hty', hni⟩ := isRoundType_of_add_or_update (.inr hty)
  refine ⟨?_, hend.windows⟩
  rw [push_complete_startup h.active hty' hend.complete hni h.initialized h.opMode, h.localCache]
  simp only [hty, reduceCtorEq, if_false]

theorem sendMsgValue_of_le {p : ValuePacket} (hlen : MSG_VALUE_SIZE ≤ p.length) (value : FixedPt) (timestamp : ℕ)
    (msgType : PacketAppType) :
    sendMsgValue p value timestamp msgType = .output { p with appType := msgType, msg := ⟨value, timestamp⟩ } := by
  rw [sendMsgValue, if_neg (by omega)]

/-! ### The elements of the chain -/

/-- `EwmaIncremental`'s `INIT` round sends the value on. -/
theorem ewma_push_init (n : ℤ) (hc : 0 < c) (hty : p.appType = .MSG_INIT) (hv : p.msg.value.valid = true)
    (hlen : MSG_VALUE_SIZE ≤ p.length) :
    ∃ s', push (ewmaIncremental n) (configured (ewmaIncremental n) c) 0 p = some (s', .output p) ∧
      Primed (ewmaIncremental n) c p.msg.value p.msg.timestamp s' := by
  obtain ⟨hpush, hprimed, hw⟩ := push_configured_init (E := ewmaIncremental n) hc hty
  have hinit : (ewmaIncremental n).initializeElement ((configured (ewmaIncremental n) c).pushBuffers 0 p) =
      some p.msg.value := by
    rw [← hw.get_zero Nat.one_pos]
    rfl
  refine ⟨_, ?_, hprimed⟩
  rw [hpush, hinit, Option.map_some, if_pos hv, sendMsgValue_of_le hlen]

/-- `Trix`'s `INIT` round sends `0`. -/
theorem trix_push_init (hc : 0 < c) (hty : p.appType = .MSG_INIT) (hlen : MSG_VALUE_SIZE ≤ p.length) :
    ∃ s', push trix (configured trix c) 0 p = some (s', .output { p with msg := ⟨FixedPt.fromInt 0, p.msg.timestamp⟩ }) ∧
      Primed trix c p.msg.value p.msg.timestamp s' := by
  obtain ⟨hpush, hprimed, -⟩ := push_configured_init (E := trix) hc hty
  have hinit : trix.initializeElement ((configured trix c).pushBuffers 0 p) = some (FixedPt.fromInt 0) := rfl
  refine ⟨_, ?_, hprimed⟩
  rw [hpush, hinit, Option.map_some, if_pos (FixedPt.valid_fromInt 0), sendMsgValue_of_le hlen, hty]

variable {x : FixedPt} {t : ℕ}

/-- `EwmaIncremental`'s first `UPDATE` round sends the average of the value over `x`. -/
theorem Primed.ewma_push_update {n : ℤ} (h : Primed (ewmaIncremental n) c x t s) (hc : 2 ≤ c)
    (hty : p.appType = .MSG_UPDATE) (ht : t < p.msg.timestamp) (hlen : MSG_VALUE_SIZE ≤ p.length) :
    ∃ s', push (ewmaIncremental n) s 0 p =
      some (s', .output { p with msg := ⟨ewmaOf (ewmaAlpha n) [p.msg.value, x], p.msg.timestamp⟩ }) := by
  obtain ⟨hpush, hw⟩ := h.push_update (by omega) hty ht
  have hv := ewmaNaive_of_windows (ewmaAlpha n) hw Nat.one_pos (by simp; omega)
  obtain ⟨h0, -, -⟩ := @ewmaOut_spec (ewmaIncremental n).localCache rfl
    (ewmaOf (ewmaAlpha n) [p.msg.value, x])
  have hext : (ewmaIncremental n).processExt (ewmaIncremental n).localCache (s.pushBuffers 0 p) =
      some (ewmaOut (ewmaIncremental n).localCache (ewmaOf (ewmaAlpha n) [p.msg.value, x])) := by
    rw [show (ewmaIncremental n).processExt = fun lc b => (ewmaNaive (ewmaAlpha n) b).map (ewmaOut lc) from rfl]
    simp only [hv, column, List.map_cons, List.map_nil, Option.map_some]
  rw [hpush, hext, Option.map_some, h0, sendMsgValue_of_le hlen]
  exact ⟨_, rfl⟩

/-- `Trix`'s first `UPDATE` round sends `100 * (y - x) / x`, rounded once. -/
theorem Primed.trix_push_update (h : Primed trix c x t s) (hc : 2 ≤ c) (hty : p.appType = .MSG_UPDATE)
    (ht : t < p.msg.timestamp) (hlen : MSG_VALUE_SIZE ≤ p.length) (hx : x.value ≠ 0) :
    ∃ s', push trix s 0 p =
      some (s', .output { p with msg := ⟨((100 : ℤ) * (p.msg.value - x)) / x, p.msg.timestamp⟩ }) := by
  obtain ⟨hpush, hw⟩ := h.push_update (by omega) hty ht
  obtain ⟨hwf, -, hl⟩ := hw 0 Nat.one_pos
  have hl' : (((s.pushBuffers 0 p).buffers 0)).toList = [p.msg.value, x] := by
    rw [hl, column, List.map_singleton, List.take_of_length_le (by simp; omega)]
  have hext : trix.processExt trix.localCache (s.pushBuffers 0 p) =
      (trixNaive (s.pushBuffers 0 p)).map fun result =>
        (trix.localCache.setValue 0 result).setValue 1 (((s.pushBuffers 0 p).buffers 0).get 0) := rfl
  rw [hpush, hext, trixNaive_eq hwf hl', FixedPt.div?_of_ne hx, Option.map_some, Option.map_some,
    VectorCache.value_setValue (by simp [trix, freshCache]), if_neg (by decide),
    VectorCache.value_setValue (by simp [trix, freshCache]), if_pos rfl, sendMsgValue_of_le hlen]
  exact ⟨_, rfl⟩

end IndicatorBase

/-! ### The chain of `trix_opt.click` -/

/-- What `ewma_3` sends for an `UPDATE` of `y` after the `INIT` of `x`: the average
of `y` over `x`, taken three times. -/
def tripleAverage (x y : FixedPt) : FixedPt :=
  ewmaOf (ewmaAlpha 13) [ewmaOf (ewmaAlpha 13) [ewmaOf (ewmaAlpha 13) [y, x], x], x]

open IndicatorBase in
/-- **The `INIT` round of the chain**: each `EwmaIncremental` sends the value on, and
`trix` sends `0`; every element keeps the value in its window. -/
theorem pushChain_trix_init {c : ℕ} {p : ValuePacket} (hc : 0 < c) (hty : p.appType = .MSG_INIT)
    (hv : p.msg.value.valid = true) (hlen : MSG_VALUE_SIZE ≤ p.length) :
    ∃ ss, pushChain trixElements (trixElements.map (configured · c)) p =
        some (ss, some { p with msg := ⟨FixedPt.fromInt 0, p.msg.timestamp⟩ }) ∧
      List.Forall₂ (fun E s => Primed E c p.msg.value p.msg.timestamp s) trixElements ss := by
  obtain ⟨s₁, h₁, hp₁⟩ := ewma_push_init 13 hc hty hv hlen
  obtain ⟨s₄, h₄, hp₄⟩ := trix_push_init hc hty hlen
  refine ⟨[s₁, s₁, s₁, s₄], ?_, .cons hp₁ (.cons hp₁ (.cons hp₁ (.cons hp₄ .nil)))⟩
  simp only [trixElements, List.map_cons, List.map_nil]
  rw [pushChain_cons_output h₁, pushChain_cons_output h₁, pushChain_cons_output h₁, pushChain_cons_output h₄,
    pushChain_nil]
  rfl

open IndicatorBase in
/-- **The first `UPDATE` round of the chain**, at a later timestamp: each
`EwmaIncremental` averages its value over `x`, and `trix` sends
`100 * (e - x) / x` for the triple average `e`, rounded once. -/
theorem pushChain_trix_update {c : ℕ} {x : FixedPt} {t : ℕ} {ss : List IndicatorBase}
    (h : List.Forall₂ (fun E s => Primed E c x t s) trixElements ss) (hc : 2 ≤ c) {p : ValuePacket}
    (hty : p.appType = .MSG_UPDATE) (ht : t < p.msg.timestamp) (hlen : MSG_VALUE_SIZE ≤ p.length)
    (hx : x.value ≠ 0) :
    ∃ ss', pushChain trixElements ss p =
      some (ss', some { p with msg := ⟨((100 : ℤ) * (tripleAverage x p.msg.value - x)) / x, p.msg.timestamp⟩ }) := by
  unfold trixElements at h
  rcases h with _ | ⟨hp₁, h⟩
  rcases h with _ | ⟨hp₂, h⟩
  rcases h with _ | ⟨hp₃, h⟩
  rcases h with _ | ⟨hp₄, h⟩
  rcases h
  -- each element passes its average on to the next, with the type and timestamp of `p`
  obtain ⟨s₁, h₁⟩ := hp₁.ewma_push_update hc hty ht hlen
  obtain ⟨s₂, h₂⟩ := hp₂.ewma_push_update
    (p := { p with msg := ⟨ewmaOf (ewmaAlpha 13) [p.msg.value, x], p.msg.timestamp⟩ }) hc hty ht hlen
  obtain ⟨s₃, h₃⟩ := hp₃.ewma_push_update
    (p := { p with msg := ⟨ewmaOf (ewmaAlpha 13) [ewmaOf (ewmaAlpha 13) [p.msg.value, x], x], p.msg.timestamp⟩ })
    hc hty ht hlen
  obtain ⟨s₄, h₄⟩ := hp₄.trix_push_update (p := { p with msg := ⟨tripleAverage x p.msg.value, p.msg.timestamp⟩ })
    hc hty ht hlen hx
  refine ⟨[s₁, s₂, s₃, s₄], ?_⟩
  rw [trixElements, pushChain_cons_output h₁, pushChain_cons_output h₂, pushChain_cons_output h₃]
  dsimp only
  unfold tripleAverage at h₄
  rw [pushChain_cons_output h₄, pushChain_nil]
  rfl

/-! ### `trade_processor`, `tstamp` and `split_1` -/

/-- `split_1` sends the close of a message on its port `0`. -/
theorem trixSplit_push {len : ℕ} (hlen : MSG_VALUE_SIZE ≤ len) (o : SourceOut) :
    trixSplit.push len o =
      [(0, ⟨len, SourceSplit.newType o.type, ⟨FixedPt.fromC o.msg.close, o.msg.timestamp.toNat⟩⟩)] := by
  simp [SourceSplit.push, trixSplit, SourceSplit.new, SourceSplit.sendMsg, show ¬ MSG_VALUE_SIZE > len by omega]

/-- `tstamp` stamps an `MSG_UPDATE_SOURCE` with the cycle counter. -/
theorem Timestamper.simpleAction_update {o : SourceOut} (h : o.type = .MSG_UPDATE_SOURCE) (rdtsc : UInt64) :
    Timestamper.new.simpleAction rdtsc o = { o with msg := { o.msg with timestamp := rdtsc } } := by
  simp [simpleAction, new, h]

/-- `tstamp` passes any other message on as it is. -/
theorem Timestamper.simpleAction_of_ne {o : SourceOut} (h : o.type ≠ .MSG_UPDATE_SOURCE) (t : Timestamper)
    (rdtsc : UInt64) : t.simpleAction rdtsc o = o := by
  unfold simpleAction
  split
  · rfl
  · split
    · exact absurd ‹_› h
    · rfl

/-- A message of `trade_processor` goes through `tstamp` and `split_1`, and its close
down the chain. -/
theorem feed_one (Es : List Indicator) (tstamp : Timestamper) (rdtsc : UInt64) {len : ℕ}
    (hlen : MSG_VALUE_SIZE ≤ len) (chain : List IndicatorBase) (o : SourceOut) :
    Pipeline.feed Es trixSplit tstamp rdtsc len chain [o] =
      (pushChain Es chain ⟨len, SourceSplit.newType (tstamp.simpleAction rdtsc o).type,
        ⟨FixedPt.fromC (tstamp.simpleAction rdtsc o).msg.close, (tstamp.simpleAction rdtsc o).msg.timestamp.toNat⟩⟩).map
        fun r => (r.1, r.2.toList) := by
  rw [Pipeline.feed, List.flatMap_singleton, trixSplit_push hlen]
  simp only [List.filterMap_cons, List.filterMap_nil, if_true, runSteps_singleton, Option.map_map]
  rfl

/-- A frame is pushed into `trade_processor`, and what it sends goes on. -/
theorem step_frame {Es : List Indicator} {split : SourceSplit} {tstamp : Timestamper} {p : Pipeline}
    {bytes : List UInt8} {rdtsc : UInt64} {firstSymbol : Bool} {tp : TradeProcessor} {outs : List SourceOut}
    (h : p.tradeProcessor.push p.firstSymbol bytes = some (firstSymbol, tp, outs)) :
    Pipeline.step Es split tstamp p (.frame bytes rdtsc) =
      (Pipeline.feed Es split tstamp rdtsc bytes.length p.chain outs).map fun r => (⟨firstSymbol, tp, r.1⟩, r.2) := by
  simp only [Pipeline.step, h, Option.bind_eq_bind, Option.bind_some]
  cases Pipeline.feed Es split tstamp rdtsc bytes.length p.chain outs <;> rfl

/-- A packet that holds a `MsgSource` holds a `MsgValue`. -/
theorem msgValueSize_le {len : ℕ} (h : MSG_SOURCE_SIZE ≤ len) : MSG_VALUE_SIZE ≤ len := by
  unfold MSG_SOURCE_SIZE at h
  unfold MSG_VALUE_SIZE
  omega

section Frame

variable (Es : List Indicator) (p : Pipeline) {bytes : List UInt8} (rdtsc : UInt64) {m : MsgTrade}
  (hd : populateMsgTradeTp bytes = some (some m)) (hs : p.tradeProcessor.subscriptionsMap.find? m.symbol = some 0)
  (hlen : MSG_SOURCE_SIZE ≤ bytes.length)
include hd hs hlen

/-- **The first trade of a subscribed symbol** sends its price down the chain as an
`INIT`, with the trade's timestamp. -/
theorem step_frame_first (hfind : p.tradeProcessor.timeStatsMap.find? m.symbol = none) :
    Pipeline.step Es trixSplit Timestamper.new p (.frame bytes rdtsc) =
      (pushChain Es p.chain ⟨bytes.length, .MSG_INIT, ⟨FixedPt.fromC m.price, m.srcTimestamp.toNat⟩⟩).map fun r =>
        (⟨false, ⟨p.tradeProcessor.timeStatsMap.insert m.symbol (updateStats default m).2,
          p.tradeProcessor.subscriptionsMap, p.tradeProcessor.timerScheduled || p.firstSymbol⟩, r.1⟩, r.2.toList) := by
  have hfirst := updateStats_of_first (s := default) rfl m
  have hpush : p.tradeProcessor.push p.firstSymbol bytes =
      some (false, ⟨p.tradeProcessor.timeStatsMap.insert m.symbol (updateStats default m).2,
        p.tradeProcessor.subscriptionsMap, p.tradeProcessor.timerScheduled || p.firstSymbol⟩,
        [⟨0, .MSG_INIT_SOURCE, ⟨m.price, m.price, m.price, 0, m.srcTimestamp, 0⟩, m.symbol⟩]) := by
    rw [push_subscribed hd hs]
    simp only [hfind, Option.getD_none, Option.isNone_none, hfirst, if_true, sendUpdateMsg, if_neg (by omega : ¬ MSG_SOURCE_SIZE > bytes.length)]
    rfl
  rw [step_frame hpush, feed_one Es _ rdtsc (msgValueSize_le hlen),
    Timestamper.simpleAction_of_ne (by simp), Option.map_map]
  rfl

/-- **A later trade that moves the close** sends the new close down the chain as an
`UPDATE`, stamped with the cycle counter by `tstamp`. -/
theorem step_frame_update {bar : TimeStats} (hfind : p.tradeProcessor.timeStatsMap.find? m.symbol = some bar)
    (hbar : bar.firstTimeUpdated = true) (hne : m.price ≠ bar.close) :
    Pipeline.step Es trixSplit Timestamper.new p (.frame bytes rdtsc) =
      (pushChain Es p.chain ⟨bytes.length, .MSG_UPDATE, ⟨FixedPt.fromC m.price, rdtsc.toNat⟩⟩).map fun r =>
        (⟨false, ⟨p.tradeProcessor.timeStatsMap.insert m.symbol (updateStats bar m).2,
          p.tradeProcessor.subscriptionsMap, p.tradeProcessor.timerScheduled || p.firstSymbol⟩, r.1⟩, r.2.toList) := by
  have hr : (updateStats bar m).1 = true := by simp [fst_updateStats hbar, hne]
  have hpush : p.tradeProcessor.push p.firstSymbol bytes =
      some (false, ⟨p.tradeProcessor.timeStatsMap.insert m.symbol (updateStats bar m).2,
        p.tradeProcessor.subscriptionsMap, p.tradeProcessor.timerScheduled || p.firstSymbol⟩,
        [⟨0, .MSG_UPDATE_SOURCE, ⟨m.price, (updateStats bar m).2.high, (updateStats bar m).2.low,
          (updateStats bar m).2.open, m.srcTimestamp, 0⟩, m.symbol⟩]) := by
    rw [push_subscribed hd hs]
    simp only [hfind, Option.getD_some, Option.isNone_some, hr, if_true, sendUpdateMsg, Bool.false_eq_true, if_false,
      if_neg (by omega : ¬ MSG_SOURCE_SIZE > bytes.length), close_updateStats]
  rw [step_frame hpush, feed_one Es _ rdtsc (msgValueSize_le hlen), Timestamper.simpleAction_update rfl,
    Option.map_map]
  rfl

end Frame

/-! ### The first update -/

/-- **The first update of the TRIX pipeline.** With `sym` routed to port `0`, a frame
with a trade of `sym` at `x` and then one at `y ≠ x`, which `tstamp` stamps later
than the first trade's timestamp: `trix` sends an `INIT` of `0` for the first and,
for the second, an `UPDATE` of `100 * (e - x) / x` rounded once, with `e` the
triple average of `y` over `x`. -/
theorem trix_pipeline_first_update {sym : Symbol} {f₁ f₂ : List UInt8} {m₁ m₂ : MsgTrade} {r₁ r₂ : UInt64}
    (hd₁ : populateMsgTradeTp f₁ = some (some m₁)) (hd₂ : populateMsgTradeTp f₂ = some (some m₂))
    (hs₁ : m₁.symbol = sym) (hs₂ : m₂.symbol = sym) (hl₁ : MSG_SOURCE_SIZE ≤ f₁.length)
    (hl₂ : MSG_SOURCE_SIZE ≤ f₂.length) (hne : m₂.price ≠ m₁.price) (hx : m₁.price ≠ 0)
    (ht : m₁.srcTimestamp.toNat < r₂.toNat) :
    ((trixPipeline (KeyMap.empty.insert sym 0)).bind fun p =>
        runSteps (Pipeline.step trixElements trixSplit Timestamper.new) p [.frame f₁ r₁, .frame f₂ r₂]).map
      (·.2.map (·.map fun q => (q.appType, q.msg.value))) =
      some [[(.MSG_INIT, FixedPt.fromInt 0)],
        [(.MSG_UPDATE,
          ((100 : ℤ) * (tripleAverage (.fromC m₁.price) (.fromC m₂.price) - .fromC m₁.price)) / .fromC m₁.price)]] := by
  subst hs₁
  have hpipe : trixPipeline (KeyMap.empty.insert m₁.symbol 0) =
      some ⟨true, TradeProcessor.initial (KeyMap.empty.insert m₁.symbol 0),
        trixElements.map (IndicatorBase.configured · 13)⟩ := rfl
  -- the first trade: an `INIT` of `x` down the chain, which every element keeps
  obtain ⟨ss, hinit, hprimed⟩ := pushChain_trix_init (c := 13)
    (p := ⟨f₁.length, .MSG_INIT, ⟨FixedPt.fromC m₁.price, m₁.srcTimestamp.toNat⟩⟩) (by decide) rfl rfl
    (msgValueSize_le hl₁)
  have h₁ := step_frame_first trixElements ⟨true, TradeProcessor.initial (KeyMap.empty.insert m₁.symbol 0),
    trixElements.map (IndicatorBase.configured · 13)⟩ r₁ hd₁ (KeyMap.find?_insert_self _ _ _) hl₁ rfl
  rw [hinit, Option.map_some] at h₁
  -- the second: an `UPDATE` of `y` over the bar of the first
  obtain ⟨ss', hupd⟩ := pushChain_trix_update hprimed (by decide)
    (p := ⟨f₂.length, .MSG_UPDATE, ⟨FixedPt.fromC m₂.price, r₂.toNat⟩⟩) rfl ht (msgValueSize_le hl₂) hx
  have h₂ := step_frame_update trixElements
    ⟨false, ⟨KeyMap.empty.insert m₁.symbol (updateStats default m₁).2, KeyMap.empty.insert m₁.symbol 0, false || true⟩,
      ss⟩ r₂ hd₂ (by rw [hs₂]; exact KeyMap.find?_insert_self _ _ _) hl₂
    (by rw [hs₂]; exact KeyMap.find?_insert_self _ _ _) (firstTimeUpdated_updateStats _ _)
    (by rw [close_updateStats]; exact hne)
  rw [hupd, Option.map_some] at h₂
  rw [hpipe, Option.bind_some, runSteps_cons_of_eq h₁ (runSteps_cons_of_eq h₂ (runSteps_nil _)), Option.map_some]
  rfl

end Synapse.Click
