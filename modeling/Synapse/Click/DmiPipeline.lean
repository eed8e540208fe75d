import Synapse.Click.ElementRounds
import Synapse.Click.Pipeline

/-!
# The DMI pipeline

`indicator_configs/dmi_opt.click` connects, after `tstamp`,

    split_1[0] -> tee_high; split_1[1] -> tee_low; split_1[2] -> [2]tr;
    tee_high[0] -> [0]pdm; tee_high[1] -> [0]ndm; tee_high[2] -> [0]tr;
    tee_low[0]  -> [1]pdm; tee_low[1]  -> [1]ndm; tee_low[2]  -> [1]tr;
    pdm -> ewma_pdm; ndm -> ewma_ndm; tr -> ewma_tr -> tee_ewma_tr;
    ewma_pdm -> [0]pdi; ewma_ndm -> [0]ndi;
    tee_ewma_tr[0] -> [1]pdi; tee_ewma_tr[1] -> [1]ndi;
    pdi -> [0]dx; ndi -> [1]dx;
    dx -> ewma_dx -> stats -> Discard;

with `SourceSplit (HIGH 0, LOW 1, CLOSE 2)`, four
`EwmaIncremental (ALPHA_PERIODS 13, BUF_SIZE 13, OP_MODE 2)`, and `Pdm`, `Ndm`,
`NewTrueRange`, `Pdi`, `Ndi` and `Dx` with `OP_MODE 2` and the `BUF_SIZE` of
`IndicatorBase::configure`, `10`. `ReuseTee` (`elements/standard/reuse_tee.cc`)
pushes the packet, restored from its copy, to each output in turn, and Click
pushes depth first: what an element sends goes through the rest of the graph
before the element returns.

## The model

The state of the pipeline is the state of each of its ten `IndicatorBase`
elements. A message of a source, in a packet of `len` bytes, goes into `split_1`,
and each packet an element sends is recorded with the element that sends it.
`stats` prints what `ewma_dx` sends and passes it to `Discard`. The `assert` of
`ReuseTee` that a packet is shorter than its copy buffer stops the run where it
fails.

`DmiRecurrence` says what the pipeline computes, in its own terms: the bar of the
`INIT` or of the last `ADD`, which `Pdm`, `Ndm` and `NewTrueRange` compare the next
bar with, and the four values the averages average the next one with.

## What is proved

* `DmiTracks.step`: each message after the `INIT` one, at a later timestamp, makes
  the elements send the ten values of `DmiRecurrence.values`, in the order of the
  graph.
* `dmi_pipeline_refines`: on a stream of an `INIT` message and then `ADD` and
  `UPDATE` messages at increasing timestamps, in packets that hold a `MsgValue` and
  fit `ReuseTee`'s buffer, the pipeline returns from every message and sends
  exactly what `DmiRecurrence` sends, and nothing for the `INIT`.
-/

namespace Synapse.Click

open Trade Theory Buffers IndicatorBase

/-- `COPY_MSG_MAX_LEN`, the size of `ReuseTee`'s copy buffer. -/
def COPY_MSG_MAX_LEN : ℕ := 256

/-! ### The elements -/

/-- The `IndicatorBase` elements of `dmi_opt.click`. -/
inductive DmiElement where
  | pdm
  | ndm
  | tr
  | ewmaPdm
  | ewmaNdm
  | ewmaTr
  | pdi
  | ndi
  | dx
  | ewmaDx
  deriving DecidableEq, Repr

namespace DmiElement

/-- The class of each element. -/
def indicator : DmiElement → Indicator
  | pdm => Click.pdm
  | ndm => Click.ndm
  | tr => newTrueRange
  | ewmaPdm | ewmaNdm | ewmaTr | ewmaDx => ewmaIncremental 13
  | pdi => Click.pdi
  | ndi => Click.ndi
  | dx => Click.dx

/-- `ninputs ()`: the input ports the configuration connects. -/
def inPorts : DmiElement → ℕ
  | tr => 3
  | pdm | ndm | pdi | ndi | dx => 2
  | ewmaPdm | ewmaNdm | ewmaTr | ewmaDx => 1

/-- `BUF_SIZE`: `13` for the averages, `configure`'s `10` for the others. -/
def bufSize : DmiElement → ℕ
  | ewmaPdm | ewmaNdm | ewmaTr | ewmaDx => 13
  | pdm | ndm | tr | pdi | ndi | dx => 10

/-- The element as `configure` makes it with `OP_MODE 2`. -/
def configured (e : DmiElement) : IndicatorBase := configuredOn e.indicator e.inPorts e.bufSize

theorem configure_eq (e : DmiElement) : configure e.indicator e.inPorts e.bufSize 2 = some e.configured :=
  configure_startup (by cases e <;> decide) _

end DmiElement

/-! ### The graph -/

/-- A push into the graph: the states of the elements after it, and each packet sent,
with the element that sends it. -/
abbrev DmiPush :=
  (DmiElement → IndicatorBase) → ValuePacket → Option ((DmiElement → IndicatorBase) × List (DmiElement × ValuePacket))

/-- A push of a packet into the input `port` of `e`; what `e` sends goes on to `next`. -/
def pushInto (e : DmiElement) (port : ℕ) (next : DmiPush) : DmiPush := fun st p => do
  let (s, a) ← IndicatorBase.push e.indicator (st e) port p
  match a with
  | .output q => do
    let (st', sent) ← next (Function.update st e s) q
    pure (st', (e, q) :: sent)
  | .discard => pure (Function.update st e s, [])

/-- The packet pushed to each output in turn. -/
def pushEach : List DmiPush → DmiPush
  | [], st, _ => some (st, [])
  | out :: outs, st, p => do
    let (st, sent) ← out st p
    let (st, sent') ← pushEach outs st p
    pure (st, sent ++ sent')

/-- `ReuseTee::push`: the packet, restored from the copy, to each output in turn; the
`assert` stops a packet as long as the copy buffer. -/
def reuseTee (outs : List DmiPush) : DmiPush := fun st p =>
  if COPY_MSG_MAX_LEN ≤ p.length then none else pushEach outs st p

/-- `stats -> Discard`: what `ewma_dx` sends is printed and goes no further. -/
def toStats : DmiPush := fun st _ => some (st, [])

/-- `dx -> ewma_dx -> stats`. -/
def toEwmaDx : DmiPush := pushInto .ewmaDx 0 toStats

/-- `pdi -> [0]dx; ndi -> [1]dx`. -/
def toDx (port : ℕ) : DmiPush := pushInto .dx port toEwmaDx

/-- `ewma_pdm -> [0]pdi; tee_ewma_tr[0] -> [1]pdi`. -/
def toPdi (port : ℕ) : DmiPush := pushInto .pdi port (toDx 0)

/-- `ewma_ndm -> [0]ndi; tee_ewma_tr[1] -> [1]ndi`. -/
def toNdi (port : ℕ) : DmiPush := pushInto .ndi port (toDx 1)

/-- `pdm -> ewma_pdm`. -/
def toEwmaPdm : DmiPush := pushInto .ewmaPdm 0 (toPdi 0)

/-- `ndm -> ewma_ndm`. -/
def toEwmaNdm : DmiPush := pushInto .ewmaNdm 0 (toNdi 0)

/-- `tr -> ewma_tr -> tee_ewma_tr`. -/
def toEwmaTr : DmiPush := pushInto .ewmaTr 0 (reuseTee [toPdi 1, toNdi 1])

/-- `tee_high[0] -> [0]pdm; tee_low[0] -> [1]pdm`. -/
def toPdm (port : ℕ) : DmiPush := pushInto .pdm port toEwmaPdm

/-- `tee_high[1] -> [0]ndm; tee_low[1] -> [1]ndm`. -/
def toNdm (port : ℕ) : DmiPush := pushInto .ndm port toEwmaNdm

/-- `tee_high[2] -> [0]tr; tee_low[2] -> [1]tr; split_1[2] -> [2]tr`. -/
def toTr (port : ℕ) : DmiPush := pushInto .tr port toEwmaTr

/-- `split_1 :: SourceSplit (HIGH 0, LOW 1, CLOSE 2)`. -/
def dmiSplit : SourceSplit := { SourceSplit.new with highPort := 0, lowPort := 1, closePort := 2 }

/-- The outputs of `split_1`: `tee_high`, `tee_low` and `[2]tr`; `SourceSplit` sends
on no other port. -/
def splitOutput : ℤ → DmiPush
  | 0 => reuseTee [toPdm 0, toNdm 0, toTr 0]
  | 1 => reuseTee [toPdm 1, toNdm 1, toTr 1]
  | 2 => toTr 2
  | _ => fun st _ => some (st, [])

/-- A message of a source in a packet of `len` bytes, pushed into `split_1`: the
states after it and the packets the elements send, in order. -/
def dmiStep (st : DmiElement → IndicatorBase) (x : ℕ × SourceOut) :
    Option ((DmiElement → IndicatorBase) × List (DmiElement × ValuePacket)) :=
  (runSteps (fun st y => splitOutput y.1 st y.2) st (dmiSplit.push x.1 x.2)).map fun r => (r.1, r.2.flatten)

/-! ### The recurrence -/

/-- A bar as `split_1` sends it. -/
structure DmiBar where
  high : FixedPt
  low : FixedPt
  close : FixedPt

/-- The bar of a message. -/
def DmiBar.ofSource (m : MsgSource) : DmiBar := ⟨.fromC m.high, .fromC m.low, .fromC m.close⟩

/-- The values of a bar on the ports of `Pdm`, `Ndm` and `NewTrueRange`: high, low and
close. -/
def DmiBar.values (b : DmiBar) : ℕ → FixedPt
  | 0 => b.high
  | 1 => b.low
  | _ => b.close

/-- What the four averages average the next value with. -/
structure DmiAverages where
  pdm : FixedPt
  ndm : FixedPt
  tr : FixedPt
  dx : FixedPt

/-- The ten values of a bar, in the order the pipeline sends them. -/
structure DmiValues where
  pdm : FixedPt
  ewmaPdm : FixedPt
  ndm : FixedPt
  ewmaNdm : FixedPt
  tr : FixedPt
  ewmaTr : FixedPt
  pdi : FixedPt
  ndi : FixedPt
  dx : FixedPt
  ewmaDx : FixedPt

/-- The packet of a value in a message of type `ty` at `t`, `len` bytes long. -/
def valuePacket (len : ℕ) (ty : PacketAppType) (t : ℕ) (v : FixedPt) : ValuePacket := ⟨len, ty, ⟨v, t⟩⟩

/-- The packets of the ten values, each with the element that sends it. -/
def DmiValues.sent (v : DmiValues) (len : ℕ) (ty : PacketAppType) (t : ℕ) : List (DmiElement × ValuePacket) :=
  [(.pdm, valuePacket len ty t v.pdm), (.ewmaPdm, valuePacket len ty t v.ewmaPdm),
    (.ndm, valuePacket len ty t v.ndm), (.ewmaNdm, valuePacket len ty t v.ewmaNdm),
    (.tr, valuePacket len ty t v.tr), (.ewmaTr, valuePacket len ty t v.ewmaTr),
    (.pdi, valuePacket len ty t v.pdi), (.ndi, valuePacket len ty t v.ndi),
    (.dx, valuePacket len ty t v.dx), (.ewmaDx, valuePacket len ty t v.ewmaDx)]

/-- The directional movement index as the pipeline computes it: the bar the next one
is compared with, and what the averages keep, `none` before the first bar after the
`INIT`. -/
structure DmiRecurrence where
  prev : DmiBar
  averages : Option DmiAverages

namespace DmiRecurrence

/-- `alpha` of the four averages. -/
def alpha : FixedPt := ewmaAlpha 13

/-- The ten values of a bar: the movements and the true range against the previous
bar, each averaged, the two indicators, `dx`, and its average. -/
def values (s : DmiRecurrence) (b : DmiBar) : DmiValues :=
  let average (f : DmiAverages → FixedPt) (x : FixedPt) := ewmaOf alpha (x :: (s.averages.map f).toList)
  let pdm := calculatePdm b.low s.prev.low b.high s.prev.high
  let ndm := calculateNdm b.low s.prev.low b.high s.prev.high
  let tr := calculateTr b.low b.high s.prev.close
  let pdi := guardedDiv (average DmiAverages.pdm pdm) (average DmiAverages.tr tr)
  let ndi := guardedDiv (average DmiAverages.ndm ndm) (average DmiAverages.tr tr)
  let dx := calculateDx pdi ndi
  ⟨pdm, average DmiAverages.pdm pdm, ndm, average DmiAverages.ndm ndm, tr, average DmiAverages.tr tr,
    pdi, ndi, dx, average DmiAverages.dx dx⟩

/-- After a bar of type `ty`: an `ADD` bar is the one the next is compared with, and
each average keeps what `ewmaKept` says. -/
def next (s : DmiRecurrence) (ty : PacketAppType) (b : DmiBar) : DmiRecurrence :=
  let kept (f : DmiAverages → FixedPt) (x : FixedPt) := ewmaKept alpha ty (s.averages.map f) x
  { prev := if ty = .MSG_ADD then b else s.prev
    averages := some ⟨kept DmiAverages.pdm (s.values b).pdm, kept DmiAverages.ndm (s.values b).ndm,
      kept DmiAverages.tr (s.values b).tr, kept DmiAverages.dx (s.values b).dx⟩ }

/-- A message after the `INIT` one, in a packet of `len` bytes. -/
def step (s : DmiRecurrence) (x : ℕ × SourceOut) : Option (DmiRecurrence × List (DmiElement × ValuePacket)) :=
  some (s.next (SourceSplit.newType x.2.type) (.ofSource x.2.msg),
    (s.values (.ofSource x.2.msg)).sent x.1 (SourceSplit.newType x.2.type) x.2.msg.timestamp.toNat)

/-- The recurrence after the `INIT` message of the bar `b`. -/
def start (b : DmiBar) : DmiRecurrence := ⟨b, none⟩

end DmiRecurrence

/-! ### Pushes through the graph -/

section Graph

variable {st : DmiElement → IndicatorBase} {e : DmiElement} {port : ℕ} {next : DmiPush} {p : ValuePacket}
  {s₀ s : IndicatorBase}

/-- A packet that `e` discards goes no further. -/
theorem pushInto_of_discard (hs : st e = s₀) (h : push e.indicator s₀ port p = some (s, .discard)) :
    pushInto e port next st p = some (Function.update st e s, []) := by
  simp only [pushInto, hs, h, Option.bind_eq_bind, Option.bind_some]
  rfl

/-- A packet that `e` sends goes on to `next`. -/
theorem pushInto_of_output {q : ValuePacket} {st' : DmiElement → IndicatorBase} {sent : List (DmiElement × ValuePacket)}
    (hs : st e = s₀) (h : push e.indicator s₀ port p = some (s, .output q))
    (hnext : next (Function.update st e s) q = some (st', sent)) :
    pushInto e port next st p = some (st', (e, q) :: sent) := by
  simp only [pushInto, hs, h, hnext, Option.bind_eq_bind, Option.bind_some]
  rfl

theorem pushEach_cons_of_eq {out : DmiPush} {outs : List DmiPush} {st₁ st₂ : DmiElement → IndicatorBase}
    {sent sent' : List (DmiElement × ValuePacket)} (h : out st p = some (st₁, sent))
    (h' : pushEach outs st₁ p = some (st₂, sent')) : pushEach (out :: outs) st p = some (st₂, sent ++ sent') := by
  simp only [pushEach, h, h', Option.bind_eq_bind, Option.bind_some]
  rfl

theorem reuseTee_of_lt (hp : p.length < COPY_MSG_MAX_LEN) (outs : List DmiPush) :
    reuseTee outs st p = pushEach outs st p := by
  rw [reuseTee, if_neg (by omega)]

theorem reuseTee_of_eq {outs : List DmiPush} {r : (DmiElement → IndicatorBase) × List (DmiElement × ValuePacket)}
    (hp : p.length < COPY_MSG_MAX_LEN) (h : pushEach outs st p = some r) : reuseTee outs st p = some r := by
  rw [reuseTee_of_lt hp, h]

end Graph

/-- `split_1` sends the high on its port `0`, the close on `2` and the low on `1`. -/
theorem dmiSplit_push {len : ℕ} (hlen : MSG_VALUE_SIZE ≤ len) (o : SourceOut) :
    dmiSplit.push len o =
      [(0, valuePacket len (SourceSplit.newType o.type) o.msg.timestamp.toNat (.fromC o.msg.high)),
        (2, valuePacket len (SourceSplit.newType o.type) o.msg.timestamp.toNat (.fromC o.msg.close)),
        (1, valuePacket len (SourceSplit.newType o.type) o.msg.timestamp.toNat (.fromC o.msg.low))] := by
  simp [SourceSplit.push, dmiSplit, SourceSplit.new, SourceSplit.sendMsg, show ¬ MSG_VALUE_SIZE > len by omega,
    valuePacket]

/-- A message goes through the three outputs of `split_1` in turn: `tee_high`, `[2]tr`
and `tee_low`. -/
theorem dmiStep_of_eq {len : ℕ} (hlen : MSG_VALUE_SIZE ≤ len) (hlen' : len < COPY_MSG_MAX_LEN) {o : SourceOut}
    {st st₁ st₂ st₃ : DmiElement → IndicatorBase} {sent : List (DmiElement × ValuePacket)}
    (hH : pushEach [toPdm 0, toNdm 0, toTr 0] st
      (valuePacket len (SourceSplit.newType o.type) o.msg.timestamp.toNat (.fromC o.msg.high)) = some (st₁, []))
    (hC : toTr 2 st₁ (valuePacket len (SourceSplit.newType o.type) o.msg.timestamp.toNat (.fromC o.msg.close)) =
      some (st₂, []))
    (hL : pushEach [toPdm 1, toNdm 1, toTr 1] st₂
      (valuePacket len (SourceSplit.newType o.type) o.msg.timestamp.toNat (.fromC o.msg.low)) = some (st₃, sent)) :
    dmiStep st (len, o) = some (st₃, sent) := by
  have hq : ∀ v, (valuePacket len (SourceSplit.newType o.type) o.msg.timestamp.toNat v).length < COPY_MSG_MAX_LEN :=
    fun _ => hlen'
  simp [dmiStep, dmiSplit_push hlen, runSteps_cons, splitOutput, reuseTee_of_lt (hq _), hH, hC, hL]

/-! ### One round of each element -/

section Rounds

variable {ty : PacketAppType}

/-- The `INIT` round of a configured element on ports `0` and `1` whose
`initialize_element` has no value: both packets are discarded. -/
theorem follows_init₂ (len t : ℕ) (hty : ty = .MSG_INIT) {E : Indicator} {c : ℕ} (hc : 0 < c) (I : Incremental E 2 c)
    (hinv : ∀ b, E.initializeElement b = some invalidResult) (vals : ℕ → FixedPt) :
    ∃ s₁ s₂, push E (configuredOn E 2 c) 0 (valuePacket len ty t (vals 0)) = some (s₁, .discard) ∧
      push E s₁ 1 (valuePacket len ty t (vals 1)) = some (s₂, .discard) ∧ Follows I vals t s₂ := by
  obtain ⟨sN', s₂, v, -, hv, hrun, hA, ht'⟩ := (Fresh.configured I hc).round
    (r := ⟨ty, t, [0, 1], vals, fun _ => len⟩) two_pos hc (show [0, 1].Perm (List.range 2) by decide)
    (show [0, 1] = [0] ++ [1] from rfl) (.inr (.inr hty))
  rw [hinv, Option.some.injEq] at hv
  subst hv
  obtain ⟨s₁, h₁, h₂⟩ := run_pair_eq_some hrun
  exact ⟨s₁, s₂, h₁, h₂, sN', [], hA, ht'⟩

/-- The `INIT` round of a configured element on ports `0`, `2` and `1`, in that
order, whose `initialize_element` has no value. -/
theorem follows_init₃ (len t : ℕ) (hty : ty = .MSG_INIT) {E : Indicator} {c : ℕ} (hc : 0 < c) (I : Incremental E 3 c)
    (hinv : ∀ b, E.initializeElement b = some invalidResult) (vals : ℕ → FixedPt) :
    ∃ s₁ s₂ s₃, push E (configuredOn E 3 c) 0 (valuePacket len ty t (vals 0)) = some (s₁, .discard) ∧
      push E s₁ 2 (valuePacket len ty t (vals 2)) = some (s₂, .discard) ∧
      push E s₂ 1 (valuePacket len ty t (vals 1)) = some (s₃, .discard) ∧ Follows I vals t s₃ := by
  obtain ⟨sN', s₃, v, -, hv, hrun, hA, ht'⟩ := (Fresh.configured I hc).round
    (r := ⟨ty, t, [0, 2, 1], vals, fun _ => len⟩) (by decide) hc (show [0, 2, 1].Perm (List.range 3) by decide)
    (show [0, 2, 1] = [0, 2] ++ [1] from rfl) (.inr (.inr hty))
  rw [hinv, Option.some.injEq] at hv
  subst hv
  obtain ⟨s₁, s₂, h₁, h₂, h₃⟩ := run_triple_eq_some hrun
  exact ⟨s₁, s₂, s₃, h₁, h₂, h₃, sN', [], hA, ht'⟩

variable {len t : ℕ} (hlen : MSG_VALUE_SIZE ≤ len) (hty : ty = .MSG_ADD ∨ ty = .MSG_UPDATE) {t₀ : ℕ} (ht : t₀ < t)
include hlen hty ht

/-- A later round of an element on ports `0` and `1` that follows its newest
committed row. -/
theorem Follows.pushes₂ {E : Indicator} {c : ℕ} (hc : 0 < c) {I : Incremental E 2 c}
    (out : (ℕ → FixedPt) → (ℕ → FixedPt) → FixedPt)
    (hout : ∀ b vals row rows, RoundWindows 2 c b vals (row :: rows) → E.processNaive b = some (out vals row))
    (hfits : ∀ rows, I.Fits rows) {row : ℕ → FixedPt} {s : IndicatorBase} (h : Follows I row t₀ s)
    (vals : ℕ → FixedPt) :
    ∃ s₁ s₂, push E s 0 (valuePacket len ty t (vals 0)) = some (s₁, .discard) ∧
      push E s₁ 1 (valuePacket len ty t (vals 1)) = some (s₂, .output (valuePacket len ty t (out vals row))) ∧
      Follows I (if ty = .MSG_ADD then vals else row) t s₂ := by
  obtain ⟨s₂, hrun, h'⟩ := h.round (r := ⟨ty, t, [0, 1], vals, fun _ => len⟩) two_pos hc
    (show [0, 1].Perm (List.range 2) by decide) (show [0, 1] = [0] ++ [1] from rfl) out hout hfits hty ht
  rw [sendMsgValue_of_le hlen] at hrun
  obtain ⟨s₁, h₁, h₂⟩ := run_pair_eq_some hrun
  exact ⟨s₁, s₂, h₁, h₂, h'⟩

/-- A later round of an element on ports `0`, `2` and `1`, in that order, that
follows its newest committed row. -/
theorem Follows.pushes₃ {E : Indicator} {c : ℕ} (hc : 0 < c) {I : Incremental E 3 c}
    (out : (ℕ → FixedPt) → (ℕ → FixedPt) → FixedPt)
    (hout : ∀ b vals row rows, RoundWindows 3 c b vals (row :: rows) → E.processNaive b = some (out vals row))
    (hfits : ∀ rows, I.Fits rows) {row : ℕ → FixedPt} {s : IndicatorBase} (h : Follows I row t₀ s)
    (vals : ℕ → FixedPt) :
    ∃ s₁ s₂ s₃, push E s 0 (valuePacket len ty t (vals 0)) = some (s₁, .discard) ∧
      push E s₁ 2 (valuePacket len ty t (vals 2)) = some (s₂, .discard) ∧
      push E s₂ 1 (valuePacket len ty t (vals 1)) = some (s₃, .output (valuePacket len ty t (out vals row))) ∧
      Follows I (if ty = .MSG_ADD then vals else row) t s₃ := by
  obtain ⟨s₃, hrun, h'⟩ := h.round (r := ⟨ty, t, [0, 2, 1], vals, fun _ => len⟩) (by decide) hc
    (show [0, 2, 1].Perm (List.range 3) by decide) (show [0, 2, 1] = [0, 2] ++ [1] from rfl) out hout hfits hty ht
  rw [sendMsgValue_of_le hlen] at hrun
  obtain ⟨s₁, s₂, h₁, h₂, h₃⟩ := run_triple_eq_some hrun
  exact ⟨s₁, s₂, s₃, h₁, h₂, h₃, h'⟩

/-- A round of an element on ports `0` and `1` that reads only the round's values
`x` and `y`, its first included. -/
theorem Joins.pushes₂ {E : Indicator} {c : ℕ} (hc : 0 < c) {I : Incremental E 2 c} (out : FixedPt → FixedPt → FixedPt)
    (hout : ∀ b vals rows, RoundWindows 2 c b vals rows →
      E.initializeElement b = some (out (vals 0) (vals 1)) ∧ E.processNaive b = some (out (vals 0) (vals 1)))
    (hfits : ∀ rows, I.Fits rows) {s : IndicatorBase} (h : Joins I t₀ s) {x y : FixedPt}
    (hvalid : (out x y).valid = true) :
    ∃ s₁ s₂, push E s 0 (valuePacket len ty t x) = some (s₁, .discard) ∧
      push E s₁ 1 (valuePacket len ty t y) = some (s₂, .output (valuePacket len ty t (out x y))) ∧ Joins I t s₂ := by
  obtain ⟨s₂, hrun, h'⟩ := h.round (r := ⟨ty, t, [0, 1], fun i => if i = 0 then x else y, fun _ => len⟩)
    two_pos hc (show [0, 1].Perm (List.range 2) by decide) (show [0, 1] = [0] ++ [1] from rfl) (fun vals => out (vals 0) (vals 1)) hout hfits hty ht hvalid
  rw [sendMsgValue_of_le hlen] at hrun
  obtain ⟨s₁, h₁, h₂⟩ := run_pair_eq_some hrun
  exact ⟨s₁, s₂, h₁, h₂, h'⟩

/-- A round of `EwmaIncremental` on a valid value `x`. -/
theorem EwmaAt.pushes {n : ℤ} {c : ℕ} (hc : 2 ≤ c) {avg : Option FixedPt} {s : IndicatorBase}
    (h : EwmaAt n c avg t₀ s) {x : FixedPt} (hx : x.valid = true) :
    ∃ s', push (ewmaIncremental n) s 0 (valuePacket len ty t x) =
        some (s', .output (valuePacket len ty t (ewmaOf (ewmaAlpha n) (x :: avg.toList)))) ∧
      EwmaAt n c (some (ewmaKept (ewmaAlpha n) ty avg x)) t s' := by
  obtain ⟨s', hrun, h'⟩ := h.round (r := ⟨ty, t, [0], fun _ => x, fun _ => len⟩) hc rfl hty ht hx
  rw [sendMsgValue_of_le hlen] at hrun
  exact ⟨s', run_singleton_eq_some hrun, h'⟩

end Rounds

/-! ### The elements of `dmi_opt.click` -/

theorem valid_calculatePdm (newLow prevLow newHigh prevHigh : FixedPt) :
    (calculatePdm newLow prevLow newHigh prevHigh).valid = true := by
  unfold calculatePdm
  split_ifs <;> rfl

theorem valid_calculateNdm (newLow prevLow newHigh prevHigh : FixedPt) :
    (calculateNdm newLow prevLow newHigh prevHigh).valid = true := by
  unfold calculateNdm
  split_ifs <;> rfl

theorem valid_calculateTr (newLow newHigh prevClose : FixedPt) : (calculateTr newLow newHigh prevClose).valid = true := by
  unfold calculateTr fptMax
  split_ifs <;> rfl

theorem valid_guardedDiv (num den : FixedPt) : (guardedDiv num den).valid = true := by
  unfold guardedDiv
  split_ifs <;> rfl

theorem valid_calculateDx (pdi ndi : FixedPt) : (calculateDx pdi ndi).valid = true := by
  unfold calculateDx
  split_ifs <;> rfl

/-- An average is valid when the new value is. -/
theorem valid_ewmaOf_cons (alpha : FixedPt) {x : FixedPt} (hx : x.valid = true) (avg : Option FixedPt) :
    (ewmaOf alpha (x :: avg.toList)).valid = true := by
  cases avg with
  | none => exact hx
  | some a => rfl

section Elements

variable {b : Buffers FixedPt} {vals row : ℕ → FixedPt} {rows : List (ℕ → FixedPt)}

/-- The certificate of `pdm`. -/
def pdmCert : Incremental DmiElement.pdm.indicator 2 10 := directionalIncremental calculatePdm le_rfl (by decide)

/-- The certificate of `ndm`. -/
def ndmCert : Incremental DmiElement.ndm.indicator 2 10 := directionalIncremental calculateNdm le_rfl (by decide)

/-- The certificate of `tr`. -/
def trCert : Incremental DmiElement.tr.indicator 3 10 := newTrueRangeIncremental le_rfl (by decide)

/-- The certificate of `pdi`. -/
def pdiCert : Incremental DmiElement.pdi.indicator 2 10 := ratioIncremental le_rfl

/-- The certificate of `ndi`. -/
def ndiCert : Incremental DmiElement.ndi.indicator 2 10 := ratioIncremental le_rfl

/-- The certificate of `dx`. -/
def dxCert : Incremental DmiElement.dx.indicator 2 10 := dxIncremental le_rfl

theorem pdm_processNaive (hw : RoundWindows 2 10 b vals (row :: rows)) :
    DmiElement.pdm.indicator.processNaive b = some (calculatePdm (vals 1) (row 1) (vals 0) (row 0)) := by
  rw [← directionalNaive_of_windows calculatePdm hw le_rfl (by decide)]
  rfl

theorem ndm_processNaive (hw : RoundWindows 2 10 b vals (row :: rows)) :
    DmiElement.ndm.indicator.processNaive b = some (calculateNdm (vals 1) (row 1) (vals 0) (row 0)) := by
  rw [← directionalNaive_of_windows calculateNdm hw le_rfl (by decide)]
  rfl

theorem tr_processNaive (hw : RoundWindows 3 10 b vals (row :: rows)) :
    DmiElement.tr.indicator.processNaive b = some (calculateTr (vals 1) (vals 0) (row 2)) := by
  rw [← newTrueRangeNaive_of_windows hw le_rfl (by decide)]
  rfl

/-- `initialize_element` and `process_naive` of the ratio elements read the round's
values. -/
theorem ratio_values (hw : RoundWindows 2 10 b vals rows) :
    ratio.initializeElement b = some (guardedDiv (vals 0) (vals 1)) ∧
      ratio.processNaive b = some (guardedDiv (vals 0) (vals 1)) := by
  simp only [ratio, ratioNaive, hw.get_zero two_pos, hw.get_zero one_lt_two, and_self]

theorem dx_values (hw : RoundWindows 2 10 b vals rows) :
    dx.initializeElement b = some (calculateDx (vals 0) (vals 1)) ∧
      dx.processNaive b = some (calculateDx (vals 0) (vals 1)) := by
  simp only [dx, hw.get_zero two_pos, hw.get_zero one_lt_two, and_self]

end Elements

/-- **What each element keeps between two messages** after the `INIT` one, the
recurrence being `rec` and the last timestamp `t`: `pdm`, `ndm` and `tr` follow the
bar `rec` compares with, each average tracks what `rec` keeps for it, and `pdi`,
`ndi` and `dx` agree with naive elements, or have had no round yet. -/
structure DmiTracks (rec : DmiRecurrence) (t : ℕ) (st : DmiElement → IndicatorBase) : Prop where
  pdm : Follows pdmCert rec.prev.values t (st .pdm)
  ndm : Follows ndmCert rec.prev.values t (st .ndm)
  tr : Follows trCert rec.prev.values t (st .tr)
  ewmaPdm : EwmaAt 13 13 (rec.averages.map DmiAverages.pdm) t (st .ewmaPdm)
  ewmaNdm : EwmaAt 13 13 (rec.averages.map DmiAverages.ndm) t (st .ewmaNdm)
  ewmaTr : EwmaAt 13 13 (rec.averages.map DmiAverages.tr) t (st .ewmaTr)
  pdi : Joins pdiCert t (st .pdi)
  ndi : Joins ndiCert t (st .ndi)
  dx : Joins dxCert t (st .dx)
  ewmaDx : EwmaAt 13 13 (rec.averages.map DmiAverages.dx) t (st .ewmaDx)

/-- **The `INIT` message**, into the configured pipeline: `pdm`, `ndm` and `tr` take
its bar and send nothing, and nothing else is reached. -/
theorem dmiStep_init {len : ℕ} (hlen : MSG_VALUE_SIZE ≤ len) (hlen' : len < COPY_MSG_MAX_LEN) {o : SourceOut}
    (hinit : o.type = .MSG_INIT_SOURCE) :
    ∃ st, dmiStep DmiElement.configured (len, o) = some (st, []) ∧
      DmiTracks (.start (.ofSource o.msg)) o.msg.timestamp.toNat st := by
  have hty : SourceSplit.newType o.type = .MSG_INIT := by rw [hinit]; rfl
  obtain ⟨p₁, p₂, hp₁, hp₂, hp⟩ := follows_init₂ len o.msg.timestamp.toNat hty (by decide) pdmCert
    (fun _ => rfl) (DmiBar.ofSource o.msg).values
  obtain ⟨n₁, n₂, hn₁, hn₂, hn⟩ := follows_init₂ len o.msg.timestamp.toNat hty (by decide) ndmCert
    (fun _ => rfl) (DmiBar.ofSource o.msg).values
  obtain ⟨r₁, r₂, r₃, hr₁, hr₂, hr₃, hr⟩ := follows_init₃ len o.msg.timestamp.toNat hty (by decide)
    trCert (fun _ => rfl) (DmiBar.ofSource o.msg).values
  -- the high and the low reach `pdm`, `ndm` and `tr`, the close `tr` only, and all three discard
  exact ⟨_, dmiStep_of_eq hlen hlen'
    (pushEach_cons_of_eq (pushInto_of_discard rfl hp₁) (pushEach_cons_of_eq (pushInto_of_discard (by simp; rfl) hn₁)
      (pushEach_cons_of_eq (pushInto_of_discard (by simp; rfl) hr₁) rfl)))
    (pushInto_of_discard (by simp) hr₂)
    (pushEach_cons_of_eq (pushInto_of_discard (by simp) hp₂) (pushEach_cons_of_eq (pushInto_of_discard (by simp) hn₂)
      (pushEach_cons_of_eq (pushInto_of_discard (by simp) hr₃) rfl))),
    hp, hn, hr, rfl, rfl, rfl, .inl rfl, .inl rfl, .inl rfl, rfl⟩

theorem DmiBar.values_ite (c : Prop) [Decidable c] (b b' : DmiBar) :
    (if c then b else b').values = if c then b.values else b'.values :=
  apply_ite DmiBar.values _ _ _

/-- **A message after the `INIT` one**, an `ADD` or an `UPDATE` at a later timestamp:
the elements send the ten values of the recurrence, in the order of the graph, and
keep what its next state says. -/
theorem DmiTracks.step {rec : DmiRecurrence} {t₀ : ℕ} {st : DmiElement → IndicatorBase} (h : DmiTracks rec t₀ st)
    {len : ℕ} (hlen : MSG_VALUE_SIZE ≤ len) (hlen' : len < COPY_MSG_MAX_LEN) {o : SourceOut}
    (hty : o.type = .MSG_ADD_SOURCE ∨ o.type = .MSG_UPDATE_SOURCE) (ht : t₀ < o.msg.timestamp.toNat) :
    ∃ st', dmiStep st (len, o) = some (st', (rec.values (.ofSource o.msg)).sent len (SourceSplit.newType o.type)
        o.msg.timestamp.toNat) ∧
      DmiTracks (rec.next (SourceSplit.newType o.type) (.ofSource o.msg)) o.msg.timestamp.toNat st' := by
  have hty' : SourceSplit.newType o.type = .MSG_ADD ∨ SourceSplit.newType o.type = .MSG_UPDATE := by
    rcases hty with h | h <;> simp [h, SourceSplit.newType]
  have hlen₁ : 0 < 10 := by decide
  have hlen₂ : 2 ≤ 13 := by decide
  obtain ⟨p₁, p₂, hp₁, hp₂, hp⟩ := h.pdm.pushes₂ hlen hty' ht hlen₁ _ (fun _ _ _ _ hw => pdm_processNaive hw)
    (fun _ => trivial) (DmiBar.ofSource o.msg).values
  obtain ⟨n₁, n₂, hn₁, hn₂, hn⟩ := h.ndm.pushes₂ hlen hty' ht hlen₁ _ (fun _ _ _ _ hw => ndm_processNaive hw)
    (fun _ => trivial) (DmiBar.ofSource o.msg).values
  obtain ⟨r₁, r₂, r₃, hr₁, hr₂, hr₃, hr⟩ := h.tr.pushes₃ hlen hty' ht hlen₁ _ (fun _ _ _ _ hw => tr_processNaive hw)
    (fun _ => trivial) (DmiBar.ofSource o.msg).values
  obtain ⟨e₁, he₁, he⟩ := h.ewmaPdm.pushes hlen hty' ht hlen₂ (x := (rec.values (.ofSource o.msg)).pdm)
    (valid_calculatePdm _ _ _ _)
  obtain ⟨f₁, hf₁, hf⟩ := h.ewmaNdm.pushes hlen hty' ht hlen₂ (x := (rec.values (.ofSource o.msg)).ndm)
    (valid_calculateNdm _ _ _ _)
  obtain ⟨g₁, hg₁, hg⟩ := h.ewmaTr.pushes hlen hty' ht hlen₂ (x := (rec.values (.ofSource o.msg)).tr)
    (valid_calculateTr _ _ _)
  obtain ⟨d₁, d₂, hd₁, hd₂, hd⟩ := h.pdi.pushes₂ hlen hty' ht hlen₁ guardedDiv (fun _ _ _ hw => ratio_values hw)
    (fun _ => trivial) (x := (rec.values (.ofSource o.msg)).ewmaPdm) (y := (rec.values (.ofSource o.msg)).ewmaTr)
    (valid_guardedDiv _ _)
  obtain ⟨m₁, m₂, hm₁, hm₂, hm⟩ := h.ndi.pushes₂ hlen hty' ht hlen₁ guardedDiv (fun _ _ _ hw => ratio_values hw)
    (fun _ => trivial) (x := (rec.values (.ofSource o.msg)).ewmaNdm) (y := (rec.values (.ofSource o.msg)).ewmaTr)
    (valid_guardedDiv _ _)
  obtain ⟨x₁, x₂, hx₁, hx₂, hx⟩ := h.dx.pushes₂ hlen hty' ht hlen₁ calculateDx (fun _ _ _ hw => dx_values hw)
    (fun _ => trivial) (x := (rec.values (.ofSource o.msg)).pdi) (y := (rec.values (.ofSource o.msg)).ndi)
    (valid_calculateDx _ _)
  obtain ⟨y₁, hy₁, hy⟩ := h.ewmaDx.pushes hlen hty' ht hlen₂ (x := (rec.values (.ofSource o.msg)).dx)
    (valid_calculateDx _ _)
  -- the high and the close are taken and discarded; the low completes the rounds of
  -- `pdm`, `ndm` and `tr`, and what they send goes down the graph depth first
  have hstep : dmiStep st (len, o) = some (_, _) := dmiStep_of_eq hlen hlen'
    (pushEach_cons_of_eq (pushInto_of_discard (e := .pdm) rfl hp₁) (pushEach_cons_of_eq (pushInto_of_discard (e := .ndm) (by simp) hn₁)
      (pushEach_cons_of_eq (pushInto_of_discard (e := .tr) (by simp) hr₁) rfl)))
    (pushInto_of_discard (e := .tr) (by simp) hr₂)
    (pushEach_cons_of_eq
      (pushInto_of_output (e := .pdm) (by simp) hp₂ (pushInto_of_output (e := .ewmaPdm) (by simp) he₁ (pushInto_of_discard (e := .pdi) (by simp) hd₁)))
      (pushEach_cons_of_eq
        (pushInto_of_output (e := .ndm) (by simp) hn₂ (pushInto_of_output (e := .ewmaNdm) (by simp) hf₁ (pushInto_of_discard (e := .ndi) (by simp) hm₁)))
        (pushEach_cons_of_eq
          (pushInto_of_output (e := .tr) (by simp) hr₃ (pushInto_of_output (e := .ewmaTr) (by simp) hg₁ (reuseTee_of_eq hlen'
            (pushEach_cons_of_eq
              (pushInto_of_output (e := .pdi) (by simp) hd₂ (pushInto_of_discard (e := .dx) (by simp) hx₁))
              (pushEach_cons_of_eq
                (pushInto_of_output (e := .ndi) (by simp) hm₂ (pushInto_of_output (e := .dx) (by simp) hx₂
                  (pushInto_of_output (e := .ewmaDx) (by simp) hy₁ rfl)))
                rfl)))))
          rfl)))
  -- an `ADD` bar is the one `pdm`, `ndm` and `tr` compare the next with
  have hprev : (rec.next (SourceSplit.newType o.type) (.ofSource o.msg)).prev.values =
      if SourceSplit.newType o.type = .MSG_ADD then (DmiBar.ofSource o.msg).values else rec.prev.values :=
    DmiBar.values_ite _ _ _
  exact ⟨_, hstep.trans rfl, hprev ▸ hp, hprev ▸ hn, hprev ▸ hr, he, hf, hg, hd, hm, hx, hy⟩

/-- A step that sends `S` puts `S` in front of what the rest of the run sends. -/
theorem map_snd_map_cons {σ : Type} (y : Option (σ × List (List (DmiElement × ValuePacket))))
    (S : List (DmiElement × ValuePacket)) :
    (y.map fun r => (r.1, S :: r.2)).map Prod.snd = (y.map Prod.snd).map (S :: ·) := by
  cases y <;> rfl

/-- **The messages after the `INIT` one.** From a pipeline that tracks the
recurrence, `ADD` and `UPDATE` messages at increasing timestamps, in packets that
hold a `MsgValue` and fit `ReuseTee`'s buffer, make the pipeline send what the
recurrence sends. The induction is on the messages; `DmiTracks` carries from one to
the next. -/
theorem DmiTracks.run : ∀ (rest : List (ℕ × SourceOut)) {rec : DmiRecurrence} {t : ℕ}
    {st : DmiElement → IndicatorBase}, DmiTracks rec t st →
    (∀ x ∈ rest, x.2.type = .MSG_ADD_SOURCE ∨ x.2.type = .MSG_UPDATE_SOURCE) →
    (∀ x ∈ rest, MSG_VALUE_SIZE ≤ x.1 ∧ x.1 < COPY_MSG_MAX_LEN) →
    (t :: rest.map fun x => x.2.msg.timestamp.toNat).IsChain (· < ·) →
    (runSteps dmiStep st rest).map Prod.snd = (runSteps DmiRecurrence.step rec rest).map Prod.snd
  | [], _, _, _, _, _, _, _ => rfl
  | (len, o) :: rest, rec, t, st, h, htype, hlen, hinc => by
    rw [List.map_cons, List.isChain_cons_cons] at hinc
    obtain ⟨hlen₁, hlen₂⟩ := hlen _ List.mem_cons_self
    obtain ⟨st', hstep, h'⟩ := h.step hlen₁ hlen₂ (htype _ List.mem_cons_self) hinc.1
    have ih := DmiTracks.run rest h' (fun x hx => htype x (List.mem_cons_of_mem _ hx))
      (fun x hx => hlen x (List.mem_cons_of_mem _ hx)) hinc.2
    rw [runSteps_cons, runSteps_cons, hstep, DmiRecurrence.step, Option.bind_some, Option.bind_some,
      map_snd_map_cons, map_snd_map_cons, ih]

/-- **The pipeline computes the recurrence.** On a stream of an `INIT` message and then
`ADD` and `UPDATE` messages at increasing timestamps, in packets that hold a
`MsgValue` and fit `ReuseTee`'s buffer, the configured `dmi_opt.click` returns from
every message and sends nothing for the `INIT` and, for each later message, the ten
values `DmiRecurrence` gives its bar, started from the bar of the `INIT`, in the
order of the graph. -/
theorem dmi_pipeline_refines {len₀ : ℕ} {o₀ : SourceOut} {rest : List (ℕ × SourceOut)}
    (hinit : o₀.type = .MSG_INIT_SOURCE)
    (htype : ∀ x ∈ rest, x.2.type = .MSG_ADD_SOURCE ∨ x.2.type = .MSG_UPDATE_SOURCE)
    (hlen : ∀ x ∈ (len₀, o₀) :: rest, MSG_VALUE_SIZE ≤ x.1 ∧ x.1 < COPY_MSG_MAX_LEN)
    (hinc : (((len₀, o₀) :: rest).map fun x => x.2.msg.timestamp.toNat).IsChain (· < ·)) :
    (runSteps dmiStep DmiElement.configured ((len₀, o₀) :: rest)).map Prod.snd =
      (runSteps DmiRecurrence.step (.start (.ofSource o₀.msg)) rest).map fun r => [] :: r.2 := by
  obtain ⟨hlen₁, hlen₂⟩ := hlen _ List.mem_cons_self
  obtain ⟨st, hstep, h⟩ := dmiStep_init hlen₁ hlen₂ hinit
  rw [List.map_cons] at hinc
  have hrest := h.run rest htype (fun x hx => hlen x (List.mem_cons_of_mem _ hx)) hinc
  rw [runSteps_cons, hstep, Option.bind_some, map_snd_map_cons, hrest, Option.map_map]
  rfl

/-- A message of `split_1`: a bar of type `ty` at `t`, its open at its close, in a
packet of `MSG_SOURCE_SIZE` bytes. -/
def sourceBar (ty : SourceType) (t : UInt64) (high low close : ℤ) : ℕ × SourceOut :=
  (MSG_SOURCE_SIZE, ⟨0, ty, ⟨fixedptFromint close, fixedptFromint high, fixedptFromint low, fixedptFromint close, t, 0⟩,
    Vector.replicate ORDER_SYMBOL_LEN 0⟩)

theorem dmi_pipeline_refines_three :
    (runSteps dmiStep DmiElement.configured [sourceBar .MSG_INIT_SOURCE 1 10 10 10,
        sourceBar .MSG_ADD_SOURCE 2 10 9 9, sourceBar .MSG_UPDATE_SOURCE 3 11 9 11]).map Prod.snd =
      (runSteps DmiRecurrence.step (.start (.ofSource (sourceBar .MSG_INIT_SOURCE 1 10 10 10).2.msg))
        [sourceBar .MSG_ADD_SOURCE 2 10 9 9, sourceBar .MSG_UPDATE_SOURCE 3 11 9 11]).map fun r => [] :: r.2 :=
  dmi_pipeline_refines rfl (by decide) (by decide) (by decide)

end Synapse.Click
