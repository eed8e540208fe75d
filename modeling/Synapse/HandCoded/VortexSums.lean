import Synapse.HandCoded.Indicators
import Synapse.Theory.BoundedDeque
import Synapse.Theory.Transducer

/-!
# The sums of the hand-coded Vortex

`Vortex` (`hand_coded/vortex.{h,cpp}`) keeps three `SumRingBuffer`s, of `vmu`, `vmd`
and `tr`, each a `CircArray` of `sum_len - 1` values pushed with overwriting, whose
`_last_sum` is recomputed by a loop over the occupied cells after each push.
`calculate_value` measures a bar against the previous one and divides each sum, with
the bar's own movement, by the sum of true ranges with the bar's.

## The model

What the Vortex is meant to return is stated over the history of its calls
(`vortexSpec`): a bar is measured against the bar of the last `ADD`, the initial bar
before the first (`lastAddBar`), and the sums hold the last `sum_len - 1` of the
movements entered (`entered`): those of the first call when it is an `UPDATE`, then
those of every `ADD`. A call reads the sums before its own `ADD` enters them, but after
its own first `UPDATE` has, so the movements of a first `UPDATE` stay in the sums as if
its bar had been added.

## What is proved

* `SumRingBuffer.Holds.pushBackNewValue`: a push leaves the last `capacity` values
  pushed in the ring buffer, and their sum in `_last_sum`.
* `Vortex.Holds.step`: on a Vortex that holds a history, `calculate_value` fails iff
  the specification does, returns its values, and holds the history with the call.
* `vortex_sums`: every run of calls from `initialize` returns the values of
  `vortexSpec`.
-/

namespace Synapse.HandCoded

open Synapse.Click Synapse.Theory FixedPt

/-! ### `SumRingBuffer` -/

/-- The loop of `push_back_new_value`: the values added in order to `fromInt (0)`. -/
def windowSum (xs : List FixedPt) : FixedPt := xs.foldl (· + ·) (fromInt 0)

/-- A `SumRingBuffer` of capacity `c` after the pushes `vs`: its ring buffer holds the
last `c` of them, `_last_sum` is their sum, and it is initialized iff there was one. -/
structure SumRingBuffer.Holds (s : SumRingBuffer) (c : ℕ) (vs : List FixedPt) : Prop where
  wf : s.ringBuffer.Wf
  capacity_eq : s.ringBuffer.capacity = c
  toList_eq : s.ringBuffer.toList = vs.rtake c
  lastSum_eq : s.lastSum = windowSum (vs.rtake c)
  initialized_iff : s.initialized = true ↔ vs ≠ []

theorem SumRingBuffer.holds_new {c : ℕ} (hc : 0 < c) : (SumRingBuffer.new c).Holds c [] where
  wf := CircArray.wf_new hc
  capacity_eq := rfl
  toList_eq := (List.rtake_nil c).symm
  lastSum_eq := by
    rw [List.rtake_nil]
    show (default : FixedPt) = fromInt 0
    decide
  initialized_iff := by simp [SumRingBuffer.new]

/-- The loop over the occupied cells sums the contents. -/
theorem SumRingBuffer.pushBackNewValue_eq (s : SumRingBuffer) (v : FixedPt) :
    s.pushBackNewValue v =
      ⟨(s.ringBuffer.pushBack v true).2, windowSum (s.ringBuffer.pushBack v true).2.toList, true⟩ := by
  rw [SumRingBuffer.pushBackNewValue, windowSum, ← CircArray.foldl_range_get]

/-- **One push**: the buffer holds the last `c` values with the new one, and `_last_sum`
their sum. -/
theorem SumRingBuffer.Holds.pushBackNewValue {s : SumRingBuffer} {c : ℕ} {vs : List FixedPt}
    (h : s.Holds c vs) (v : FixedPt) : (s.pushBackNewValue v).Holds c (vs ++ [v]) := by
  have htoList : (s.ringBuffer.pushBack v true).2.toList = (vs ++ [v]).rtake c := by
    rw [CircArray.toList_pushBack_true h.wf, ← rtake_concat_rtake, ← h.toList_eq, h.capacity_eq.symm]
    simp [List.rtake]
  rw [SumRingBuffer.pushBackNewValue_eq]
  exact ⟨h.wf.pushBack_true v, by rw [CircArray.capacity_pushBack, h.capacity_eq], htoList,
    by rw [htoList], by simp⟩

theorem SumRingBuffer.Holds.getTotalSum {s : SumRingBuffer} {c : ℕ} {vs : List FixedPt} (h : s.Holds c vs) :
    s.getTotalSum = windowSum (vs.rtake c) :=
  h.lastSum_eq

/-! ### What the Vortex is meant to return -/

/-- A bar: `update_close`, `update_high`, `update_low`. -/
structure Bar where
  close : FixedPt
  high : FixedPt
  low : FixedPt
  deriving DecidableEq, Repr

/-- A call of `calculate_value`: the bar and the update type. -/
structure BarUpdate where
  bar : Bar
  updateType : UpdateType
  deriving DecidableEq, Repr

/-- `vmu`, `vmd` and `tr`. -/
structure Movements where
  vmu : FixedPt
  vmd : FixedPt
  tr : FixedPt
  deriving DecidableEq, Repr

/-- The movements of `bar` against `prev`, as `calculate_value` computes them. -/
def movementsOf (prev bar : Bar) : Movements :=
  ⟨fptAbs (bar.high - prev.low), fptAbs (bar.low - prev.high),
    SynapseHC.max (prev.close - bar.low) (SynapseHC.max (bar.high - bar.low) (bar.high - prev.close))⟩

/-- The bar of the last `ADD` of `cs`, `prev` if there is none. -/
def lastAddBar (prev : Bar) (cs : List BarUpdate) : Bar :=
  cs.foldl (fun p c => if c.updateType = .ADD then c.bar else p) prev

/-- The movements of the `ADD` bars of `cs`, each against the `ADD` bar before it, the
first against `prev`. -/
def addMovements : Bar → List BarUpdate → List Movements
  | _, [] => []
  | prev, c :: cs =>
    if c.updateType = .ADD then movementsOf prev c.bar :: addMovements c.bar cs else addMovements prev cs

/-- The movements entered into the sums by the calls `cs` on a Vortex initialized with
`b0`, oldest first: the first call's when it is an `UPDATE`, then every `ADD`'s. -/
def entered (b0 : Bar) : List BarUpdate → List Movements
  | [] => []
  | c :: cs => (if c.updateType = .UPDATE then [movementsOf b0 c.bar] else []) ++ addMovements b0 (c :: cs)

/-- `viu` and `vid` from the three sums read and the bar's movements `m`: each sum with
the bar's own over the sum of true ranges with the bar's, `none` where that is zero. -/
def ratioOfTotals (vmuTotal vmdTotal trTotal : FixedPt) (m : Movements) : Option (FixedPt × FixedPt) :=
  ((vmuTotal + m.vmu).div? (trTotal + m.tr)).bind fun viu =>
    ((vmdTotal + m.vmd).div? (trTotal + m.tr)).map fun vid => (viu, vid)

/-- `viu` and `vid` of a bar with the movements `m` on sums over the movements `w`. -/
def vortexRatio (w : List Movements) (m : Movements) : Option (FixedPt × FixedPt) :=
  ratioOfTotals (windowSum (w.map (·.vmu))) (windowSum (w.map (·.vmd))) (windowSum (w.map (·.tr))) m

/-- What the call `c` is meant to return after the calls `pre`: the bar against the last
`ADD` bar, over the last `sumLen - 1` movements entered before it, its own with them
when it is an `UPDATE`. -/
def vortexValue (sumLen : ℕ) (b0 : Bar) (pre : List BarUpdate) (c : BarUpdate) : Option (FixedPt × FixedPt) :=
  let read := if c.updateType = .UPDATE then pre ++ [c] else pre
  vortexRatio ((entered b0 read).rtake (sumLen - 1)) (movementsOf (lastAddBar b0 pre) c.bar)

/-- A step of the specification, whose state is the history of calls. -/
def vortexSpecStep (sumLen : ℕ) (b0 : Bar) (pre : List BarUpdate) (c : BarUpdate) :
    Option (List BarUpdate × FixedPt × FixedPt) :=
  (vortexValue sumLen b0 pre c).map fun o => (pre ++ [c], o)

/-- The values a Vortex with sums of `sumLen - 1` values, initialized with `b0`, is meant
to return for the calls `cs`: each call's `vortexValue` after the calls before it. -/
def vortexSpec (sumLen : ℕ) (b0 : Bar) (cs : List BarUpdate) : Option (List (FixedPt × FixedPt)) :=
  (runSteps (vortexSpecStep sumLen b0) [] cs).map Prod.snd

section History

variable {b0 : Bar} {pre : List BarUpdate} {c : BarUpdate}

theorem lastAddBar_snoc (prev : Bar) (cs : List BarUpdate) (c : BarUpdate) :
    lastAddBar prev (cs ++ [c]) = if c.updateType = .ADD then c.bar else lastAddBar prev cs := by
  simp [lastAddBar, List.foldl_append]

theorem addMovements_snoc (prev : Bar) (cs : List BarUpdate) (c : BarUpdate) :
    addMovements prev (cs ++ [c]) =
      addMovements prev cs ++ if c.updateType = .ADD then [movementsOf (lastAddBar prev cs) c.bar] else [] := by
  induction cs generalizing prev with
  | nil => by_cases hc : c.updateType = .ADD <;> simp [addMovements, lastAddBar, hc]
  | cons d cs ih =>
    by_cases hd : d.updateType = .ADD
    · simp [addMovements, hd, ih, lastAddBar]
    · simp [addMovements, hd, ih, lastAddBar]

theorem entered_snoc_of_add (hc : c.updateType = .ADD) :
    entered b0 (pre ++ [c]) = entered b0 pre ++ [movementsOf (lastAddBar b0 pre) c.bar] := by
  cases pre with
  | nil => simp [entered, addMovements, hc, lastAddBar]
  | cons d pre => rw [List.cons_append, entered, entered, ← List.cons_append, addMovements_snoc, if_pos hc,
      List.append_assoc]

theorem entered_snoc_of_update (hc : c.updateType = .UPDATE) (hpre : pre ≠ []) :
    entered b0 (pre ++ [c]) = entered b0 pre := by
  obtain ⟨d, pre, rfl⟩ := List.exists_cons_of_ne_nil hpre
  rw [List.cons_append, entered, entered, ← List.cons_append, addMovements_snoc, hc]
  simp

theorem entered_singleton_of_update (hc : c.updateType = .UPDATE) : entered b0 [c] = [movementsOf b0 c.bar] := by
  simp [entered, addMovements, hc]

theorem entered_eq_nil_iff : entered b0 pre = [] ↔ pre = [] := by
  cases pre with
  | nil => simp [entered]
  | cons d pre =>
    cases hd : d.updateType <;> simp [entered, addMovements, hd]

end History

/-! ### `calculate_value` by cases -/

/-- `calculate_value` as a step of a run. -/
def Vortex.step (v : Vortex) (c : BarUpdate) : Option (Vortex × FixedPt × FixedPt) :=
  v.calculateValue c.bar.close c.bar.high c.bar.low c.updateType

/-- The previous bar of a Vortex. -/
def Vortex.prevBar (v : Vortex) : Bar := ⟨v.prevClose, v.prevHigh, v.prevLow⟩

/-- The three sums with the movements `m` pushed. -/
def Vortex.pushSums (v : Vortex) (m : Movements) : Vortex :=
  { v with vmuSum := v.vmuSum.pushBackNewValue m.vmu, vmdSum := v.vmdSum.pushBackNewValue m.vmd,
           trSum := v.trSum.pushBackNewValue m.tr }

theorem Vortex.step_eq (v : Vortex) (c : BarUpdate) :
    v.step c =
      let m := movementsOf v.prevBar c.bar
      let v₁ := if c.updateType = .UPDATE ∧ v.vmuSum.initialized = false then v.pushSums m else v
      ((v₁.vmuSum.getTotalSum + m.vmu).div? (v₁.trSum.getTotalSum + m.tr)).bind fun viu =>
        ((v₁.vmdSum.getTotalSum + m.vmd).div? (v₁.trSum.getTotalSum + m.tr)).map fun vid =>
          if c.updateType = .ADD then
            ({ v₁.pushSums m with prevClose := c.bar.close, prevHigh := c.bar.high, prevLow := c.bar.low }, viu, vid)
          else (v₁, viu, vid) :=
  rfl

/-- An `ADD` reads the sums as they are, then enters its movements and becomes the
previous bar. -/
theorem Vortex.step_of_add (v : Vortex) {c : BarUpdate} (hc : c.updateType = .ADD) :
    v.step c =
      (ratioOfTotals v.vmuSum.getTotalSum v.vmdSum.getTotalSum v.trSum.getTotalSum (movementsOf v.prevBar c.bar)).map
        fun o => ({ v.pushSums (movementsOf v.prevBar c.bar) with
          prevClose := c.bar.close, prevHigh := c.bar.high, prevLow := c.bar.low }, o) := by
  rw [Vortex.step_eq]
  simp only [hc, reduceCtorEq, false_and, if_false, if_true, ratioOfTotals, Option.map_bind, Option.map_map, Function.comp_def]

/-- The first `UPDATE` enters its movements, then reads the sums. -/
theorem Vortex.step_of_first_update (v : Vortex) {c : BarUpdate} (hc : c.updateType = .UPDATE)
    (hi : v.vmuSum.initialized = false) :
    v.step c =
      let v₁ := v.pushSums (movementsOf v.prevBar c.bar)
      (ratioOfTotals v₁.vmuSum.getTotalSum v₁.vmdSum.getTotalSum v₁.trSum.getTotalSum (movementsOf v.prevBar c.bar)).map
        fun o => (v₁, o) := by
  rw [Vortex.step_eq]
  simp only [hc, hi, reduceCtorEq, and_self, if_false, if_true, ratioOfTotals, Option.map_bind, Option.map_map, Function.comp_def]

/-- A later `UPDATE` reads the sums and changes nothing. -/
theorem Vortex.step_of_update (v : Vortex) {c : BarUpdate} (hc : c.updateType = .UPDATE)
    (hi : v.vmuSum.initialized = true) :
    v.step c =
      (ratioOfTotals v.vmuSum.getTotalSum v.vmdSum.getTotalSum v.trSum.getTotalSum (movementsOf v.prevBar c.bar)).map
        fun o => (v, o) := by
  rw [Vortex.step_eq]
  simp only [hc, hi, reduceCtorEq, Bool.true_eq_false, and_false, if_false, ratioOfTotals, Option.map_bind, Option.map_map, Function.comp_def]


/-! ### The Vortex holds its history -/

/-- The sums of `v`, of capacity `k`, after the movements `es` were entered. -/
structure Vortex.SumsHold (v : Vortex) (k : ℕ) (es : List Movements) : Prop where
  vmuSum : v.vmuSum.Holds k (es.map (·.vmu))
  vmdSum : v.vmdSum.Holds k (es.map (·.vmd))
  trSum : v.trSum.Holds k (es.map (·.tr))

theorem Vortex.SumsHold.pushSums {v : Vortex} {k : ℕ} {es : List Movements} (h : v.SumsHold k es) (m : Movements) :
    (v.pushSums m).SumsHold k (es ++ [m]) := by
  refine ⟨?_, ?_, ?_⟩ <;> rw [List.map_append, List.map_singleton]
  · exact h.vmuSum.pushBackNewValue m.vmu
  · exact h.vmdSum.pushBackNewValue m.vmd
  · exact h.trSum.pushBackNewValue m.tr

/-- The sums read are those of the last `k` movements entered. -/
theorem Vortex.SumsHold.ratioOfTotals {v : Vortex} {k : ℕ} {es : List Movements} (h : v.SumsHold k es)
    (m : Movements) :
    ratioOfTotals v.vmuSum.getTotalSum v.vmdSum.getTotalSum v.trSum.getTotalSum m = vortexRatio (es.rtake k) m := by
  rw [h.vmuSum.getTotalSum, h.vmdSum.getTotalSum, h.trSum.getTotalSum, map_rtake, map_rtake, map_rtake]
  rfl

theorem Vortex.SumsHold.initialized_iff {v : Vortex} {k : ℕ} {es : List Movements} (h : v.SumsHold k es) :
    v.vmuSum.initialized = true ↔ es ≠ [] := by
  rw [h.vmuSum.initialized_iff, Ne, List.map_eq_nil_iff]

/-- A Vortex of sums of `sumLen - 1` values, initialized with `b0` and called with
`pre`: its previous bar is the last `ADD` bar, and its sums hold the movements
entered. -/
structure Vortex.Holds (sumLen : ℕ) (b0 : Bar) (v : Vortex) (pre : List BarUpdate) : Prop where
  prevBar_eq : v.prevBar = lastAddBar b0 pre
  sums : v.SumsHold (sumLen - 1) (entered b0 pre)

theorem Vortex.holds_start {sumLen : UInt64} (hlen : 2 ≤ sumLen) (b0 : Bar) :
    ( Vortex.initialize (Vortex.new sumLen) b0.close b0.high b0.low).Holds sumLen.toNat b0 [] := by
  have h2 : 2 ≤ sumLen.toNat := by simpa using UInt64.le_iff_toNat_le.1 hlen
  -- the `size_t` difference does not wrap
  have hcap : (sumLen - 1).toNat = sumLen.toNat - 1 :=
    UInt64.toNat_sub_of_le _ _ (UInt64.le_iff_toNat_le.2 (by simp only [UInt64.reduceToNat]; omega))
  have hs : (SumRingBuffer.new (sumLen - 1).toNat).Holds (sumLen.toNat - 1) [] := by
    rw [hcap]
    exact SumRingBuffer.holds_new (by omega)
  exact ⟨rfl, hs, hs, hs⟩

/-- **One call.** On a Vortex that holds the history `pre`, `calculate_value` returns
iff the specification does, the same values, and holds the history with the call. -/
theorem Vortex.Holds.step {sumLen : ℕ} {b0 : Bar} {v : Vortex} {pre : List BarUpdate} (h : v.Holds sumLen b0 pre)
    (c : BarUpdate) :
    Option.Rel (fun a b => a.1.Holds sumLen b0 b.1 ∧ a.2 = b.2) (v.step c) (vortexSpecStep sumLen b0 pre c) := by
  have hm : movementsOf v.prevBar c.bar = movementsOf (lastAddBar b0 pre) c.bar := by rw [h.prevBar_eq]
  rw [vortexSpecStep, vortexValue]
  cases hc : c.updateType with
  | ADD =>
    -- an `ADD` reads what was entered before it, then enters its movements
    rw [Vortex.step_of_add v hc, h.sums.ratioOfTotals, hm]
    simp only [reduceCtorEq, if_false]
    refine rel_map_pair ⟨?_, ?_⟩ _
    · rw [lastAddBar_snoc, if_pos hc]
      rfl
    · have hs := h.sums.pushSums (movementsOf (lastAddBar b0 pre) c.bar)
      rw [entered_snoc_of_add hc]
      exact ⟨hs.vmuSum, hs.vmdSum, hs.trSum⟩
  | UPDATE =>
    simp only [if_true]
    by_cases hpre : pre = []
    · -- the first call enters its movements before it reads the sums
      subst hpre
      have hi : v.vmuSum.initialized = false := by
        rw [Bool.eq_false_iff]
        intro hv
        exact h.sums.initialized_iff.1 hv rfl
      have hsums := h.sums.pushSums (movementsOf v.prevBar c.bar)
      rw [hm, show entered b0 [] = [] from rfl, List.nil_append, ← entered_singleton_of_update hc] at hsums
      rw [Vortex.step_of_first_update v hc hi]
      dsimp only
      rw [hm, hsums.ratioOfTotals, List.nil_append]
      refine rel_map_pair ⟨?_, hsums⟩ _
      rw [show lastAddBar b0 [c] = b0 by simp [lastAddBar, hc]]
      exact h.prevBar_eq
    · -- a later `UPDATE` reads the sums and enters nothing
      have hi : v.vmuSum.initialized = true := by
        rw [h.sums.initialized_iff, Ne, entered_eq_nil_iff]
        exact hpre
      rw [Vortex.step_of_update v hc hi, h.sums.ratioOfTotals, hm, entered_snoc_of_update hc hpre]
      refine rel_map_pair ⟨?_, ?_⟩ _
      · rw [lastAddBar_snoc, hc]
        exact h.prevBar_eq
      · rw [entered_snoc_of_update hc hpre]
        exact h.sums

/-- **The Vortex returns its specification.** For every sum length of at least two,
initial bar and run of calls, `calculate_value` returns the values of `vortexSpec`,
and fails where it does: each call divides the sums of the last `sum_len - 1`
movements entered, with its own, by the sum of their true ranges with its own. -/
theorem vortex_sums (sumLen : UInt64) (hlen : 2 ≤ sumLen) (b0 : Bar) (cs : List BarUpdate) :
    (runSteps Vortex.step ( Vortex.initialize (Vortex.new sumLen) b0.close b0.high b0.low) cs).map Prod.snd =
      vortexSpec sumLen.toNat b0 cs := by
  have hrel := runSteps_rel (fun v pre => v.Holds sumLen.toNat b0 pre) (fun _ _ c h => h.step c) cs
    ( Vortex.initialize (Vortex.new sumLen) b0.close b0.high b0.low) [] (Vortex.holds_start hlen b0)
  exact map_snd_eq_of_rel hrel

/-- A `BPl` bar to start from. -/
def bplOpen : Bar := ⟨fromInt 10, fromInt 11, fromInt 9⟩

/-- An `UPDATE` first, then an `ADD`. -/
def bplCalls : List BarUpdate :=
  [⟨⟨fromInt 11, fromInt 12, fromInt 10⟩, .UPDATE⟩, ⟨⟨fromInt 12, fromInt 12, fromInt 11⟩, .ADD⟩]

/-- With sums of twelve values, the first `UPDATE` returns `(3 + 3) / (2 + 2)` and
`(1 + 1) / (2 + 2)`, and the `ADD` after it reads its movements again. -/
theorem vortex_sums_bpl :
    (2 : UInt64) ≤ 13 ∧ (runSteps Vortex.step ( Vortex.initialize (Vortex.new 13) bplOpen.close bplOpen.high bplOpen.low) bplCalls).map
      Prod.snd = some [(fromInt 6 / fromInt 4, fromInt 2 / fromInt 4), (fromInt 6 / fromInt 4, fromInt 1 / fromInt 4)] :=
  ⟨by decide, (vortex_sums 13 (by decide) bplOpen bplCalls).trans (by decide)⟩

end Synapse.HandCoded
