import Synapse.HandCoded.DmiRange
import Synapse.Click.DmiPipeline

/-!
# The DMI of `dmi_opt.click` in range

`dmi_pipeline_refines` says what the pipeline sends by `DmiRecurrence`. The
recurrence is built from the parts of the hand-coded `Dmi`: on bars with
`0 ≤ low ≤ close ≤ high` each movement against the previous bar is at most the true
range (`movements_le`), and an average with a weight in `[0, 1]` keeps that order
(`ewmaOf_map_le`). Where the hand-coded `calculate_value` divides by a zero
divisor, `Pdi`, `Ndi` and `Dx` send `0`, so the pipeline never stops on a bar.

## What is proved

* `DmiRecurrence.Inv`: what the recurrence keeps, kept by every bar
  (`DmiRecurrence.Inv.next`), and the bounds of the values of a bar it gives
  (`DmiRecurrence.Inv.values_ok`).
* `dmi_pipeline_in_range`: on bars with `0 ≤ low ≤ close ≤ high`, `pdi` and `ndi`
  send values in `[0, FIXEDPT_ONE]`, `dx` and `ewma_dx` values in `[0, 100]`.
* `dmi_outputs_in_range`: the bounds of `dmi_in_range` for the hand-coded `Dmi`, and
  those of the pipeline.
-/

namespace Synapse.Click

open Trade Theory Synapse.HandCoded FixedPt

/-! ### Averages -/

section Averages

variable {β : Type*} {alpha x y : FixedPt} {avgs : Option β}

theorem toInt_ewmaOf_pair (ha : AlfaOk alpha) {a : FixedPt} (hx : 0 ≤ x.value.toInt) (ha₀ : 0 ≤ a.value.toInt) :
    (ewmaOf alpha [x, a]).value.toInt =
      (2 ^ 40 - alpha.value.toInt) * x.value.toInt / 2 ^ 40 + alpha.value.toInt * a.value.toInt / 2 ^ 40 :=
  EwmaHc.toInt_mean ha hx ha₀

/-- **Averaging keeps an order.** Two values `0 ≤ x ≤ y`, averaged with `f a` and
`g a` of the same last averages `a`, if there are any, where `0 ≤ f a ≤ g a`. -/
theorem ewmaOf_map_le (ha : AlfaOk alpha) {f g : β → FixedPt} (hx : 0 ≤ x.value.toInt)
    (hxy : x.value.toInt ≤ y.value.toInt)
    (hfg : ∀ a ∈ avgs, 0 ≤ (f a).value.toInt ∧ (f a).value.toInt ≤ (g a).value.toInt) :
    0 ≤ (ewmaOf alpha (x :: (avgs.map f).toList)).value.toInt ∧
      (ewmaOf alpha (x :: (avgs.map f).toList)).value.toInt ≤
        (ewmaOf alpha (y :: (avgs.map g).toList)).value.toInt := by
  cases avgs with
  | none => exact ⟨hx, hxy⟩
  | some a =>
    obtain ⟨hf₀, hfg⟩ := hfg a rfl
    rw [Option.map_some, Option.map_some, Option.toList_some, Option.toList_some, toInt_ewmaOf_pair ha hx hf₀,
      toInt_ewmaOf_pair ha (by omega) (by omega)]
    exact ⟨mean_nonneg (by decide) ha.1 ha.2 hx hf₀, mean_mono (by decide) ha.1 ha.2 hxy hfg⟩

/-- An average of values in `[0, B]` lies in `[0, B]`. -/
theorem ewmaOf_map_bounds (ha : AlfaOk alpha) {f : β → FixedPt} {B : ℤ}
    (hx : 0 ≤ x.value.toInt ∧ x.value.toInt ≤ B) (hf : ∀ a ∈ avgs, 0 ≤ (f a).value.toInt ∧ (f a).value.toInt ≤ B) :
    0 ≤ (ewmaOf alpha (x :: (avgs.map f).toList)).value.toInt ∧
      (ewmaOf alpha (x :: (avgs.map f).toList)).value.toInt ≤ B := by
  cases avgs with
  | none => exact hx
  | some a =>
    obtain ⟨hf₀, hfB⟩ := hf a rfl
    rw [Option.map_some, Option.toList_some, toInt_ewmaOf_pair ha hx.1 hf₀]
    exact ⟨mean_nonneg (by decide) ha.1 ha.2 hx.1 hf₀, mean_le (by decide) ha.1 ha.2 hx.2 hfB⟩

end Averages

/-! ### Quotients -/

/-- `Pdi` and `Ndi`: a smoothed movement between `0` and the smoothed true range,
over that range, lies in `[0, 1]`, and so does the `0` sent for a zero range. -/
theorem toInt_guardedDiv {p t : FixedPt} (hp : 0 ≤ p.value.toInt) (hpt : p.value.toInt ≤ t.value.toInt) :
    0 ≤ (guardedDiv p t).value.toInt ∧ (guardedDiv p t).value.toInt ≤ 2 ^ 40 := by
  unfold guardedDiv
  split_ifs with ht
  · decide
  · exact toInt_div_of_le hp hpt ht

/-- `Dx` of `pdi` and `ndi` in `[0, 1]` lies in `[0, 100]`, and so does the `0` sent
where their sum is zero. -/
theorem toInt_calculateDx {pdi ndi : FixedPt} (hp : 0 ≤ pdi.value.toInt ∧ pdi.value.toInt ≤ 2 ^ 40)
    (hn : 0 ≤ ndi.value.toInt ∧ ndi.value.toInt ≤ 2 ^ 40) :
    0 ≤ (calculateDx pdi ndi).value.toInt ∧ (calculateDx pdi ndi).value.toInt ≤ 100 * 2 ^ 40 := by
  unfold calculateDx
  split_ifs with hs
  · decide
  · exact toInt_dx hp hn hs

/-! ### The recurrence -/

/-- What the averages keep: each smoothed movement between `0` and the smoothed
true range, and the average of `dx` in `[0, 100]`. -/
structure DmiAverages.Ok (a : DmiAverages) : Prop where
  pdm : 0 ≤ a.pdm.value.toInt ∧ a.pdm.value.toInt ≤ a.tr.value.toInt
  ndm : 0 ≤ a.ndm.value.toInt ∧ a.ndm.value.toInt ≤ a.tr.value.toInt
  dx : 0 ≤ a.dx.value.toInt ∧ a.dx.value.toInt ≤ 100 * 2 ^ 40

/-- The bounds of the values of a bar: each averaged movement between `0` and the
averaged true range, `pdi` and `ndi` in `[0, 1]`, `dx` and its average in
`[0, 100]`. -/
structure DmiValues.Ok (v : DmiValues) : Prop where
  ewmaPdm : 0 ≤ v.ewmaPdm.value.toInt ∧ v.ewmaPdm.value.toInt ≤ v.ewmaTr.value.toInt
  ewmaNdm : 0 ≤ v.ewmaNdm.value.toInt ∧ v.ewmaNdm.value.toInt ≤ v.ewmaTr.value.toInt
  pdi : 0 ≤ v.pdi.value.toInt ∧ v.pdi.value.toInt ≤ 2 ^ 40
  ndi : 0 ≤ v.ndi.value.toInt ∧ v.ndi.value.toInt ≤ 2 ^ 40
  dx : 0 ≤ v.dx.value.toInt ∧ v.dx.value.toInt ≤ 100 * 2 ^ 40
  ewmaDx : 0 ≤ v.ewmaDx.value.toInt ∧ v.ewmaDx.value.toInt ≤ 100 * 2 ^ 40

/-- What the recurrence keeps: the bar it compares the next with is a bar, and its
averages, once there are some, are `Ok`. -/
structure DmiRecurrence.Inv (s : DmiRecurrence) : Prop where
  prev : BarOk s.prev.close s.prev.high s.prev.low
  averages : ∀ a ∈ s.averages, a.Ok

/-- The bounds the claims give what an element sends: `pdi` and `ndi` a value in
`[0, FIXEDPT_ONE]`, `dx` and `ewma_dx` one in `[0, 100]`. -/
def DmiElement.InRange : DmiElement → FixedPt → Prop
  | .pdi, v | .ndi, v => 0 ≤ v.value.toInt ∧ v.value.toInt ≤ FIXEDPT_ONE.toInt
  | .dx, v | .ewmaDx, v => 0 ≤ v.value.toInt ∧ v.value.toInt ≤ (fromInt 100).value.toInt
  | _, _ => True

/-- The packets of the values of a bar are in range. -/
theorem DmiValues.Ok.sent {v : DmiValues} (hv : v.Ok) (len : ℕ) (ty : PacketAppType) (t : ℕ) :
    ∀ q ∈ v.sent len ty t, q.1.InRange q.2.msg.value := by
  have h₁ : FIXEDPT_ONE.toInt = 1 * 2 ^ 40 := toInt_fixedptFromint (by decide) (by decide)
  have h₁₀₀ : (fromInt 100).value.toInt = 100 * 2 ^ 40 := toInt_value_fromInt (by decide) (by decide)
  simp only [DmiValues.sent, List.forall_mem_cons, List.not_mem_nil, IsEmpty.forall_iff, implies_true, and_true]
  refine ⟨trivial, trivial, trivial, trivial, trivial, trivial, ?_, ?_, ?_, ?_⟩ <;>
    simp only [DmiElement.InRange, valuePacket, h₁, h₁₀₀, Int.one_mul]
  exacts [hv.pdi, hv.ndi, hv.dx, hv.ewmaDx]

namespace DmiRecurrence

variable {s : DmiRecurrence} {b : DmiBar}

theorem alfaOk_alpha : AlfaOk alpha := alfaOk_alfaOfPeriods (n := 13) (by decide) (by decide)

@[simp] theorem next_prev (s : DmiRecurrence) (ty : PacketAppType) (b : DmiBar) :
    (s.next ty b).prev = if ty = .MSG_ADD then b else s.prev := rfl

/-- After a bar, the averages are those of the bar's values, or, for an `UPDATE`
once there are some, the ones before. -/
theorem next_averages (s : DmiRecurrence) (ty : PacketAppType) (b : DmiBar) :
    (s.next ty b).averages =
        some ⟨(s.values b).ewmaPdm, (s.values b).ewmaNdm, (s.values b).ewmaTr, (s.values b).ewmaDx⟩ ∨
      (s.next ty b).averages = s.averages := by
  obtain ⟨prev, _ | a⟩ := s
  · exact .inl rfl
  · by_cases hty : ty = .MSG_ADD
    · subst hty
      exact .inl rfl
    · right
      simp only [next, ewmaKept, Option.map_some, if_neg hty]

/-- **The values of a bar are in range.** The movements against the previous bar are
at most its true range, the averages keep that, and the quotients of `Pdi`, `Ndi`
and `Dx` follow. -/
theorem Inv.values_ok (h : s.Inv) (hb : BarOk b.close b.high b.low) : (s.values b).Ok := by
  obtain ⟨hp₀, hpt, hn₀, hnt⟩ := movements_le h.prev hb
  have hpS := ewmaOf_map_le (f := DmiAverages.pdm) (g := DmiAverages.tr) alfaOk_alpha hp₀ hpt
    fun a ha => (h.averages a ha).pdm
  have hnS := ewmaOf_map_le (f := DmiAverages.ndm) (g := DmiAverages.tr) alfaOk_alpha hn₀ hnt
    fun a ha => (h.averages a ha).ndm
  have hpdi := toInt_guardedDiv hpS.1 hpS.2
  have hndi := toInt_guardedDiv hnS.1 hnS.2
  have hdx := toInt_calculateDx hpdi hndi
  exact ⟨hpS, hnS, hpdi, hndi, hdx,
    ewmaOf_map_bounds (f := DmiAverages.dx) alfaOk_alpha hdx fun a ha => (h.averages a ha).dx⟩

/-- **Each bar keeps the invariant**, an `ADD` or an `UPDATE`. -/
theorem Inv.next (h : s.Inv) (hb : BarOk b.close b.high b.low) (ty : PacketAppType) : (s.next ty b).Inv where
  prev := by
    rw [next_prev]
    split
    · exact hb
    · exact h.prev
  averages := by
    have hv := h.values_ok hb
    rcases next_averages s ty b with hs | hs <;> rw [hs]
    · intro a ha
      obtain rfl := Option.mem_some_iff.1 ha
      exact ⟨hv.ewmaPdm, hv.ewmaNdm, hv.ewmaDx⟩
    · exact h.averages

/-- The recurrence after the `INIT` bar has no averages yet. -/
theorem inv_start (hb : BarOk b.close b.high b.low) : (start b).Inv :=
  ⟨hb, fun a ha => absurd ha (Option.not_mem_none a)⟩

/-- **The recurrence stays in range.** Over messages of bars with `0 ≤ low ≤ close ≤
high`, every packet the recurrence sends is in range; the invariant carries from
one message to the next. -/
theorem runSteps_inRange {rest : List (ℕ × SourceOut)}
    (hbars : ∀ x ∈ rest, BarOk (.fromC x.2.msg.close) (.fromC x.2.msg.high) (.fromC x.2.msg.low)) (h : s.Inv)
    {s' : DmiRecurrence} {outs : List (List (DmiElement × ValuePacket))} (hrun : runSteps step s rest = some (s', outs)) :
    ∀ sends ∈ outs, ∀ q ∈ sends, q.1.InRange q.2.msg.value := by
  have hstep : ∀ s x s' sends, Inv s → BarOk (DmiBar.ofSource x.2.msg).close (DmiBar.ofSource x.2.msg).high
      (DmiBar.ofSource x.2.msg).low → step s x = some (s', sends) →
      Inv s' ∧ ∀ q ∈ sends, q.1.InRange q.2.msg.value := by
    intro s x s' sends hs hb hx
    obtain ⟨rfl, rfl⟩ := Prod.mk.inj (Option.some.inj hx)
    exact ⟨hs.next hb _, (hs.values_ok hb).sent _ _ _⟩
  exact (runSteps_inv _ _ _ hstep rest s s' outs h hbars hrun).2

end DmiRecurrence

/-! ### The pipeline -/

/-- **The pipeline stays in range.** On a stream of an `INIT` message and then `ADD`
and `UPDATE` messages at increasing timestamps, in packets that hold a `MsgValue`
and fit `ReuseTee`'s buffer, of bars with `0 ≤ low ≤ close ≤ high`, the configured
`dmi_opt.click` returns from every message; `pdi` and `ndi` send values in
`[0, FIXEDPT_ONE]`, `dx` and `ewma_dx` values in `[0, 100]`. -/
theorem dmi_pipeline_in_range {len₀ : ℕ} {o₀ : SourceOut} {rest : List (ℕ × SourceOut)}
    (hinit : o₀.type = .MSG_INIT_SOURCE)
    (htype : ∀ x ∈ rest, x.2.type = .MSG_ADD_SOURCE ∨ x.2.type = .MSG_UPDATE_SOURCE)
    (hlen : ∀ x ∈ (len₀, o₀) :: rest, MSG_VALUE_SIZE ≤ x.1 ∧ x.1 < COPY_MSG_MAX_LEN)
    (hinc : (((len₀, o₀) :: rest).map fun x => x.2.msg.timestamp.toNat).IsChain (· < ·))
    (hbars : ∀ x ∈ (len₀, o₀) :: rest, BarOk (.fromC x.2.msg.close) (.fromC x.2.msg.high) (.fromC x.2.msg.low)) :
    ∃ st sent, runSteps dmiStep DmiElement.configured ((len₀, o₀) :: rest) = some (st, sent) ∧
      ∀ sends ∈ sent, ∀ q ∈ sends, q.1.InRange q.2.msg.value := by
  -- the recurrence returns from every message, so the pipeline does
  have htotal : ∀ s x, (DmiRecurrence.step s x).isSome := fun _ _ => rfl
  obtain ⟨⟨s', outs⟩, hspec⟩ := Option.isSome_iff_exists.1
    (runSteps_isSome htotal (DmiRecurrence.start (.ofSource o₀.msg)) rest)
  have hrefine := dmi_pipeline_refines hinit htype hlen hinc
  rw [hspec, Option.map_some] at hrefine
  obtain ⟨⟨st, sent⟩, hrun, hsent⟩ := Option.map_eq_some_iff.1 hrefine
  obtain rfl : sent = [] :: outs := hsent
  have hout := DmiRecurrence.runSteps_inRange (fun x hx => hbars x (List.mem_cons_of_mem _ hx))
    (DmiRecurrence.inv_start (hbars _ List.mem_cons_self)) hspec
  refine ⟨st, _, hrun, fun sends hsends q hq => ?_⟩
  rcases List.mem_cons.1 hsends with rfl | hsends
  · exact absurd hq List.not_mem_nil
  · exact hout sends hsends q hq

/-- **The DMI of both programs stays in range.** For the hand-coded `Dmi`, what
`dmi_in_range` says; for `dmi_opt.click`, what `dmi_pipeline_in_range` says. -/
theorem dmi_outputs_in_range (n : ℤ) (hn₁ : 1 ≤ n) (hn₂ : n ≤ 2 ^ 23 - 2) {close high low : FixedPt}
    (hb : BarOk close high low) (calls : List DmiCall) (hcalls : ∀ c ∈ calls, BarOk c.close c.high c.low)
    {d' : Dmi} {outs : List FixedPt}
    (hrun : runSteps Dmi.step ( Dmi.initialize (Dmi.new n) close high low) calls = some (d', outs))
    (len₀ : ℕ) (o₀ : SourceOut) (rest : List (ℕ × SourceOut))
    (hinit : o₀.type = .MSG_INIT_SOURCE)
    (htype : ∀ x ∈ rest, x.2.type = .MSG_ADD_SOURCE ∨ x.2.type = .MSG_UPDATE_SOURCE)
    (hlen : ∀ x ∈ (len₀, o₀) :: rest, MSG_VALUE_SIZE ≤ x.1 ∧ x.1 < COPY_MSG_MAX_LEN)
    (hinc : (((len₀, o₀) :: rest).map fun x => x.2.msg.timestamp.toNat).IsChain (· < ·))
    (hbars : ∀ x ∈ (len₀, o₀) :: rest, BarOk (.fromC x.2.msg.close) (.fromC x.2.msg.high) (.fromC x.2.msg.low)) :
    (d'.Inv (alfaOfPeriods n) ∧ ∀ r ∈ outs, 0 ≤ r.value.toInt ∧ r.value.toInt ≤ (fromInt 100).value.toInt) ∧
      ∃ st sent, runSteps dmiStep DmiElement.configured ((len₀, o₀) :: rest) = some (st, sent) ∧
        ∀ sends ∈ sent, ∀ q ∈ sends, q.1.InRange q.2.msg.value :=
  ⟨dmi_in_range n hn₁ hn₂ hb calls hcalls hrun, dmi_pipeline_in_range hinit htype hlen hinc hbars⟩

theorem dmi_outputs_in_range_thirteen :
    (∃ d' outs, runSteps Dmi.step ( Dmi.initialize (Dmi.new 13) (fromInt 10) (fromInt 10) (fromInt 10))
        [⟨fromInt 9, fromInt 10, fromInt 9, .ADD⟩, ⟨fromInt 11, fromInt 11, fromInt 9, .UPDATE⟩] = some (d', outs) ∧
      d'.Inv (alfaOfPeriods 13) ∧ ∀ r ∈ outs, 0 ≤ r.value.toInt ∧ r.value.toInt ≤ (fromInt 100).value.toInt) ∧
    ∃ st sent, runSteps dmiStep DmiElement.configured [sourceBar .MSG_INIT_SOURCE 1 10 10 10,
        sourceBar .MSG_ADD_SOURCE 2 10 9 9, sourceBar .MSG_UPDATE_SOURCE 3 11 9 11] = some (st, sent) ∧
      ∀ sends ∈ sent, ∀ q ∈ sends, q.1.InRange q.2.msg.value := by
  have hsome : (runSteps Dmi.step ( Dmi.initialize (Dmi.new 13) (fromInt 10) (fromInt 10) (fromInt 10))
      [⟨fromInt 9, fromInt 10, fromInt 9, .ADD⟩, ⟨fromInt 11, fromInt 11, fromInt 9, .UPDATE⟩]).isSome := by
    decide
  have h := dmi_outputs_in_range 13 (by decide) (by decide) (by decide) _ (by decide) (Option.some_get hsome).symm
    (sourceBar .MSG_INIT_SOURCE 1 10 10 10).1 (sourceBar .MSG_INIT_SOURCE 1 10 10 10).2
    [sourceBar .MSG_ADD_SOURCE 2 10 9 9, sourceBar .MSG_UPDATE_SOURCE 3 11 9 11] rfl (by decide) (by decide)
    (by decide) (by decide)
  exact ⟨⟨_, _, (Option.some_get hsome).symm, h.1⟩, h.2⟩

end Synapse.Click
