import Synapse.Click.SynapseElement

/-!
# `EwmaElement`, the average of each symbol over intervals

`EwmaElement` (`elements/standard/ewma_calculator.{hh,cc}`) keeps an
`EwmaCalculator` per symbol and sends on each `MsgIndicator` it is pushed the
exponential average of the symbol's stream, with `alpha = 1 / EWMA_ALPHA`. A
message falls in the interval `(timestamp - start) / INTERVAL_LEN`. Within one
interval, each message replaces the interval's average by the average of its value
over the last average of the previous interval; a message of a new interval first
rolls the current average over into the previous one. The value `0` of the previous
average stands for there being none, and then the message's value is sent as it is.

## The model

The element's state is its map, `alpha` and the interval length; `start`, which the
element reads from the master, is a parameter of `push`. An interval number is an
`Int64` as the source computes it, undefined for a zero length and for the one
quotient that overflows. The `assert` on the packet's length is `none` when it
fails. `_debug` only prints and is left out.

The claim about the element is stated over the history of each symbol:
`lastBefore h n` is the value published last in an interval before `n`, and
`publish avg` the values a run publishes when each is `avg` of that previous value
and the message's value. `ewmaSpec` is the average with no previous value as
`none`; `ewmaSentinel`, what the element computes, reads a previous `0` as none.

## What is proved

* `EwmaCalculator.update_spec`: on a calculator that holds the history of its
  symbol, a message of an interval no earlier than the last sends
  `ewmaSentinel (lastBefore h n) x`.
* `ewma_element_publishes`: every run over intervals that do not decrease for any
  symbol publishes `publish ewmaSentinel`.
* `ewma_element_not_spec`: it differs from `publish ewmaSpec` at a message after an
  interval whose last average is `0`.
-/

namespace Synapse.Click

open Trade Theory

/-- `EwmaCalculator`. -/
structure EwmaCalculator where
  /-- `_prev_ewma_value`. -/
  prevEwmaValue : Fixedpt
  /-- `_current_ewma_value`. -/
  currentEwmaValue : Fixedpt
  /-- `_prev_interval_num`. -/
  prevIntervalNum : Int64
  /-- `_current_interval_num`. -/
  currentIntervalNum : Int64
  deriving DecidableEq, Repr

/-- `EwmaCalculator ()`: everything `0`. -/
instance : Inhabited EwmaCalculator := ⟨⟨0, 0, 0, 0⟩⟩

/-- `EwmaElement`. -/
structure EwmaElement where
  /-- `_ewma_map`. -/
  ewmaMap : KeyMap Symbol EwmaCalculator
  /-- `_ewma_alpha_value`. -/
  ewmaAlphaValue : Fixedpt
  /-- `_interval_len`. -/
  intervalLen : Int64
  /-- `_active`. -/
  active : Bool

/-- The average of `x` over `prev`: `fixedpt_add (part_one, part_two)` with
`part_one = fixedpt_mul (fixedpt_sub (fixedpt_fromint (1), alpha), x)` and
`part_two = fixedpt_mul (alpha, prev)`. -/
def ewmaOfPrev (alpha prev x : Fixedpt) : Fixedpt :=
  fixedptMul (fixedptFromint 1 - alpha) x + fixedptMul alpha prev

/-- `int64_t(timestamp - start) / int64_t(interval_len)`. -/
def intervalNum (start : UInt64) (intervalLen : Int64) (timestamp : UInt64) : Option Int64 :=
  let d := (timestamp - start).toInt64
  if intervalLen = 0 ∨ (d = Int64.minValue ∧ intervalLen = -1) then none else some (d / intervalLen)

/-- Step 3 of `push`: the calculator after a message of the interval `n` with the
value `x`. -/
def EwmaCalculator.update (alpha : Fixedpt) (c : EwmaCalculator) (n : Int64) (x : Fixedpt) : EwmaCalculator :=
  if n = c.currentIntervalNum then
    if c.prevEwmaValue = 0 then { c with currentEwmaValue := x }
    else { c with currentEwmaValue := ewmaOfPrev alpha c.prevEwmaValue x }
  else
    -- the roll-over
    let c := { c with prevIntervalNum := c.currentIntervalNum, prevEwmaValue := c.currentEwmaValue }
    if c.prevEwmaValue = 0 then { c with currentEwmaValue := x, currentIntervalNum := n }
    else { c with currentEwmaValue := ewmaOfPrev alpha c.prevEwmaValue x, currentIntervalNum := n }

/-- `EwmaElement::push (port, p)`, the start of the run reading `start`: the element
after it and the packet it pushes, with its port. -/
def EwmaElement.push (e : EwmaElement) (start : UInt64) (port : ℕ) (p : IndicatorPacket) :
    Option (EwmaElement × Option (ℕ × IndicatorPacket)) :=
  if !e.active then some (e, some (port, p))
  else if p.appType ≠ .MSG_INDICATOR then some (e, some (0, p))
  else if MSG_INDICATOR_SIZE > p.length then none
  else do
    let ewmaCalculator := getOrCreate e.ewmaMap p.msg.symbol
    let n ← intervalNum start e.intervalLen p.msg.timestamp
    let ewmaCalculator := ewmaCalculator.update e.ewmaAlphaValue n p.msg.indicator
    pure ({ e with ewmaMap := e.ewmaMap.insert p.msg.symbol ewmaCalculator },
      (populateMsgIndicator p p.msg.symbol ewmaCalculator.currentEwmaValue p.msg.timestamp).map fun q => (0, q))

/-! ### The averages the element publishes -/

/-- The average with no previous value as `none`: `E (none, x) = x` and
`E (e, x) = (1 - alpha) * x + alpha * e`. -/
def ewmaSpec (alpha : Fixedpt) : Option Fixedpt → Fixedpt → Fixedpt
  | none, x => x
  | some e, x => ewmaOfPrev alpha e x

/-- The average with a previous `0` read as none. -/
def ewmaSentinel (alpha : Fixedpt) (prev : Option Fixedpt) (x : Fixedpt) : Fixedpt :=
  ewmaSpec alpha (prev.filter (· ≠ 0)) x

/-- The value published last in an interval before `n`, of a history of intervals
and published values. -/
def lastBefore (h : List (Int64 × Fixedpt)) (n : Int64) : Option Fixedpt :=
  ((h.filter fun r => r.1 < n).getLast?).map Prod.snd

/-- The history of the symbol `sym` among messages (symbol, interval, value). -/
def symbolHistory (hist : List (Symbol × Int64 × Fixedpt)) (sym : Symbol) : List (Int64 × Fixedpt) :=
  (hist.filter fun r => r.1 = sym).map Prod.snd

/-- The values published for the messages `ms` (symbol, interval, value) after the
published history `hist`, each `avg` of the symbol's previous value and its own. -/
def publish (avg : Option Fixedpt → Fixedpt → Fixedpt) :
    List (Symbol × Int64 × Fixedpt) → List (Symbol × Int64 × Fixedpt) → List Fixedpt
  | _, [] => []
  | hist, (sym, n, x) :: ms =>
    let v := avg (lastBefore (symbolHistory hist sym) n) x
    v :: publish avg (hist ++ [(sym, n, v)]) ms

/-- What the element computes from a previous average `p`. -/
theorem ewmaSentinel_some (alpha p x : Fixedpt) :
    ewmaSentinel alpha (some p) x = if p = 0 then x else ewmaOfPrev alpha p x := by
  by_cases hp : p = 0
  · simp [ewmaSentinel, ewmaSpec, hp, Option.filter]
  · simp [ewmaSentinel, ewmaSpec, hp, Option.filter]

/-- No previous value and a previous `0` are the same to the element. -/
theorem ewmaSentinel_getD (alpha : Fixedpt) (prev : Option Fixedpt) (x : Fixedpt) :
    ewmaSentinel alpha (some (prev.getD 0)) x = ewmaSentinel alpha prev x := by
  cases prev with
  | none => simp [ewmaSentinel, ewmaSpec, Option.filter]
  | some e => rfl

/-! ### The two branches of step 3 -/

/-- A message of the current interval: only the current average changes. -/
theorem EwmaCalculator.update_of_eq (alpha : Fixedpt) {c : EwmaCalculator} {n : Int64}
    (h : n = c.currentIntervalNum) (x : Fixedpt) :
    c.update alpha n x = { c with currentEwmaValue := ewmaSentinel alpha (some c.prevEwmaValue) x } := by
  rw [EwmaCalculator.update, if_pos h, ewmaSentinel_some]
  split_ifs <;> rfl

/-- A message of another interval: the current average rolls over into the previous
one first. -/
theorem EwmaCalculator.update_of_ne (alpha : Fixedpt) {c : EwmaCalculator} {n : Int64}
    (h : n ≠ c.currentIntervalNum) (x : Fixedpt) :
    c.update alpha n x =
      ⟨c.currentEwmaValue, ewmaSentinel alpha (some c.currentEwmaValue) x, c.currentIntervalNum, n⟩ := by
  rw [EwmaCalculator.update, if_neg h, ewmaSentinel_some]
  dsimp only
  split_ifs <;> rfl

section History

variable {h : List (Int64 × Fixedpt)} {n : Int64}

/-- A message of the interval `n` adds nothing before `n`. -/
theorem lastBefore_append_of_not_lt {r : Int64 × Fixedpt} (hr : ¬ r.1 < n) : lastBefore (h ++ [r]) n = lastBefore h n := by
  simp [lastBefore, List.filter_append, hr]

/-- Before a later interval, the last value is the last one published. -/
theorem lastBefore_of_getLast {L : Int64} {w : Fixedpt} (hl : h.getLast? = some (L, w)) (hL : L < n) :
    lastBefore h n = some w := by
  obtain ⟨h', rfl⟩ := List.getLast?_eq_some_iff.1 hl
  simp [lastBefore, List.filter_append, hL]

end History

/-! ### The calculator of one symbol -/

/-- A calculator that has seen the history `h` of its symbol: the default one for
none, and otherwise the last interval and value, and as previous average the value
of the interval before the last, `0` for none. -/
def EwmaCalculator.Holds (c : EwmaCalculator) (h : List (Int64 × Fixedpt)) : Prop :=
  match h.getLast? with
  | none => c = default
  | some (n, v) => c.currentIntervalNum = n ∧ c.currentEwmaValue = v ∧ c.prevEwmaValue = (lastBefore h n).getD 0

theorem EwmaCalculator.holds_nil : (default : EwmaCalculator).Holds [] := rfl

/-- The calculator holds the history with its own interval and value last. -/
theorem EwmaCalculator.holds_append {c : EwmaCalculator} {h : List (Int64 × Fixedpt)} {n : Int64}
    (hn : c.currentIntervalNum = n) (hp : c.prevEwmaValue = (lastBefore h n).getD 0) :
    c.Holds (h ++ [(n, c.currentEwmaValue)]) := by
  rw [EwmaCalculator.Holds, List.getLast?_concat]
  dsimp only
  rw [lastBefore_append_of_not_lt Int64.lt_irrefl]
  exact ⟨hn, rfl, hp⟩

/-- **One message.** On a calculator that holds the history `h` of its symbol, a
message of an interval no earlier than the last of `h` sends the average of its
value over the last value before its interval, a previous `0` read as none. -/
theorem EwmaCalculator.update_spec (alpha : Fixedpt) {c : EwmaCalculator} {h : List (Int64 × Fixedpt)}
    (hc : c.Holds h) {n : Int64} (hn : ∀ r ∈ h, r.1 ≤ n) (x : Fixedpt) :
    (c.update alpha n x).currentEwmaValue = ewmaSentinel alpha (lastBefore h n) x ∧
      (c.update alpha n x).Holds (h ++ [(n, (c.update alpha n x).currentEwmaValue)]) := by
  unfold EwmaCalculator.Holds at hc
  cases hl : h.getLast? with
  | none =>
    -- the default calculator, whose averages are `0`
    rw [hl] at hc
    subst hc
    obtain rfl : h = [] := List.getLast?_eq_none_iff.1 hl
    by_cases h0 : n = 0
    · rw [EwmaCalculator.update_of_eq alpha h0]
      exact ⟨ewmaSentinel_getD alpha (lastBefore [] n) x, EwmaCalculator.holds_append h0.symm rfl⟩
    · rw [EwmaCalculator.update_of_ne alpha h0]
      exact ⟨ewmaSentinel_getD alpha (lastBefore [] n) x, EwmaCalculator.holds_append rfl rfl⟩
  | some r =>
    obtain ⟨L, w⟩ := r
    rw [hl] at hc
    obtain ⟨hL, rfl, hp⟩ := hc
    have hLn : L ≤ n := hn (L, c.currentEwmaValue) (List.mem_of_getLast? hl)
    by_cases hsame : n = L
    · -- the same interval: the previous average stays
      subst hsame
      rw [EwmaCalculator.update_of_eq alpha hL.symm, hp, ewmaSentinel_getD]
      exact ⟨rfl, EwmaCalculator.holds_append hL rfl⟩
    · -- a later interval: the last value becomes the previous average
      have hlt : L < n := Int64.lt_of_le_of_ne hLn (Ne.symm hsame)
      have hlast := lastBefore_of_getLast hl hlt
      rw [EwmaCalculator.update_of_ne alpha (fun he => hsame (he.trans hL)), hlast]
      exact ⟨rfl, EwmaCalculator.holds_append rfl (by rw [hlast, Option.getD_some])⟩

/-! ### The element over a run -/

/-- `EwmaElement::configure` on arguments that parse: `ACTIVE`, `EWMA_ALPHA` and
`INTERVAL_LEN`. Where `fixedpt_fromint (EWMA_ALPHA)` is `0` (`EWMA_ALPHA = 0`, or a
multiple of `2 ^ 24`) the division traps in the source and `alpha` is `0` here. -/
def EwmaElement.configure (active : Bool) (ewmaAlpha : ℤ) (intervalLen : Int64) : EwmaElement :=
  ⟨KeyMap.empty, fixedptDiv (fixedptFromint 1) (fixedptFromint ewmaAlpha), intervalLen, active⟩

/-- A stream of `(port, packet)` pushes. -/
def EwmaElement.run (start : UInt64) (e : EwmaElement) (inputs : List (ℕ × IndicatorPacket)) :
    Option (EwmaElement × List (Option (ℕ × IndicatorPacket))) :=
  runSteps (fun e x => e.push start x.1 x.2) e inputs

/-- A packet the element averages: an indicator message long enough for one, whose
interval is defined. -/
def EwmaElement.Averages (start : UInt64) (intervalLen : Int64) (p : IndicatorPacket) : Prop :=
  p.appType = .MSG_INDICATOR ∧ MSG_INDICATOR_SIZE ≤ p.length ∧ (intervalNum start intervalLen p.msg.timestamp).isSome

instance (start : UInt64) (intervalLen : Int64) : DecidablePred (EwmaElement.Averages start intervalLen) :=
  fun _ => inferInstanceAs (Decidable (_ ∧ _ ∧ _))

/-- The messages of a stream as (symbol, interval, value). -/
def ewmaMessages (start : UInt64) (intervalLen : Int64) (inputs : List (ℕ × IndicatorPacket)) :
    List (Symbol × Int64 × Fixedpt) :=
  inputs.map fun x => (x.2.msg.symbol, (intervalNum start intervalLen x.2.msg.timestamp).getD 0, x.2.msg.indicator)

/-- The intervals of each symbol never decrease. -/
def IntervalsMono (ms : List (Symbol × Int64 × Fixedpt)) : Prop :=
  (ms.map fun m => (m.1, m.2.1)).Pairwise fun a b => a.1 = b.1 → a.2 ≤ b.2

instance (ms : List (Symbol × Int64 × Fixedpt)) : Decidable (IntervalsMono ms) :=
  inferInstanceAs (Decidable (List.Pairwise _ _))

/-- The packet `populate_msg_indicator` makes of `p` with the value `v`, sent on port
`0`. -/
def indicatorOut (p : IndicatorPacket) (v : Fixedpt) : Option (ℕ × IndicatorPacket) :=
  some (0, ⟨p.length, .MSG_INDICATOR, ⟨p.msg.symbol, v, p.msg.timestamp⟩⟩)

/-- Each calculator of the map holds the history of its symbol. -/
def MapHolds (m : KeyMap Symbol EwmaCalculator) (hist : List (Symbol × Int64 × Fixedpt)) : Prop :=
  ∀ sym, (getOrCreate m sym).Holds (symbolHistory hist sym)

theorem mapHolds_empty : MapHolds KeyMap.empty [] := fun _ => EwmaCalculator.holds_nil

theorem getOrCreate_insert {β : Type} [Inhabited β] (m : KeyMap Symbol β) (k k' : Symbol) (v : β) :
    getOrCreate (m.insert k v) k' = if k' = k then v else getOrCreate m k' := by
  unfold getOrCreate
  rw [KeyMap.find?_insert]
  split_ifs <;> rfl

theorem symbolHistory_append_self (hist : List (Symbol × Int64 × Fixedpt)) (sym : Symbol) (r : Int64 × Fixedpt) :
    symbolHistory (hist ++ [(sym, r)]) sym = symbolHistory hist sym ++ [r] := by
  simp [symbolHistory, List.filter_append]

theorem symbolHistory_append_ne (hist : List (Symbol × Int64 × Fixedpt)) {sym sym' : Symbol} (h : sym' ≠ sym)
    (r : Int64 × Fixedpt) : symbolHistory (hist ++ [(sym, r)]) sym' = symbolHistory hist sym' := by
  simp [symbolHistory, List.filter_append, Ne.symm h]

theorem mem_symbolHistory {hist : List (Symbol × Int64 × Fixedpt)} {sym : Symbol} {r : Int64 × Fixedpt}
    (hr : r ∈ symbolHistory hist sym) : (sym, r) ∈ hist := by
  obtain ⟨⟨sym', r'⟩, hmem, rfl⟩ := List.mem_map.1 hr
  obtain ⟨hin, hsym⟩ := List.mem_filter.1 hmem
  obtain rfl : sym' = sym := of_decide_eq_true hsym
  exact hin

/-- Writing back the calculator of one symbol keeps the others'. -/
theorem MapHolds.insert {m : KeyMap Symbol EwmaCalculator} {hist : List (Symbol × Int64 × Fixedpt)}
    (hm : MapHolds m hist) {sym : Symbol} {c : EwmaCalculator} {r : Int64 × Fixedpt}
    (hc : c.Holds (symbolHistory hist sym ++ [r])) : MapHolds (m.insert sym c) (hist ++ [(sym, r)]) := by
  intro sym'
  rw [getOrCreate_insert]
  by_cases hs : sym' = sym
  · subst hs
    rw [if_pos rfl, symbolHistory_append_self]
    exact hc
  · rw [if_neg hs, symbolHistory_append_ne hist hs]
    exact hm sym'

/-- An earlier message of the symbol is of an interval no later. -/
theorem IntervalsMono.le_of_mem {hist ms : List (Symbol × Int64 × Fixedpt)} {sym : Symbol} {n : Int64} {x : Fixedpt}
    (h : IntervalsMono (hist ++ (sym, n, x) :: ms)) : ∀ r ∈ symbolHistory hist sym, r.1 ≤ n := by
  intro r hr
  have hpair := (List.pairwise_append.1 (by simpa [IntervalsMono] using h)).2.2
  exact hpair _ (List.mem_map_of_mem (mem_symbolHistory hr)) _ List.mem_cons_self rfl

/-- The intervals do not read the values. -/
theorem IntervalsMono.publish {hist ms : List (Symbol × Int64 × Fixedpt)} {sym : Symbol} {n : Int64} {x : Fixedpt}
    (h : IntervalsMono (hist ++ (sym, n, x) :: ms)) (v : Fixedpt) : IntervalsMono (hist ++ [(sym, n, v)] ++ ms) := by
  simpa [IntervalsMono] using h

/-- **One push** of a packet the element averages. -/
theorem EwmaElement.push_of_averages {e : EwmaElement} (hact : e.active = true) (start : UInt64) (port : ℕ)
    {p : IndicatorPacket} (hp : p.appType = .MSG_INDICATOR) (hlen : MSG_INDICATOR_SIZE ≤ p.length) {n : Int64}
    (hn : intervalNum start e.intervalLen p.msg.timestamp = some n) {c : EwmaCalculator}
    (hc : c = (getOrCreate e.ewmaMap p.msg.symbol).update e.ewmaAlphaValue n p.msg.indicator) :
    e.push start port p = some ({ e with ewmaMap := e.ewmaMap.insert p.msg.symbol c }, indicatorOut p c.currentEwmaValue) := by
  have hlen' : ¬ MSG_INDICATOR_SIZE > p.length := not_lt.2 hlen
  simp [EwmaElement.push, hact, hp, hlen', hn, populateMsgIndicator_of_le hlen, indicatorOut, hc]

/-- **The run.** From a map that holds the history `hist`, a run of packets the
element averages, over intervals that do not decrease for any symbol, sends for each
the average over its symbol's previous interval, a previous `0` read as none. -/
theorem EwmaElement.run_spec (start : UInt64) :
    ∀ (inputs : List (ℕ × IndicatorPacket)) (e : EwmaElement) (hist : List (Symbol × Int64 × Fixedpt)),
      e.active = true → (∀ x ∈ inputs, EwmaElement.Averages start e.intervalLen x.2) →
      IntervalsMono (hist ++ ewmaMessages start e.intervalLen inputs) → MapHolds e.ewmaMap hist →
      ∃ e', e.run start inputs = some (e', List.zipWith indicatorOut (inputs.map Prod.snd)
        (publish (ewmaSentinel e.ewmaAlphaValue) hist (ewmaMessages start e.intervalLen inputs)))
  | [], e, _, _, _, _, _ => ⟨e, rfl⟩
  | (port, p) :: inputs, e, hist, hact, hav, hmono, hm => by
    obtain ⟨hp, hlen, hsome⟩ := hav (port, p) List.mem_cons_self
    obtain ⟨n, hn⟩ := Option.isSome_iff_exists.1 hsome
    have hmsgs : ewmaMessages start e.intervalLen ((port, p) :: inputs) =
        (p.msg.symbol, n, p.msg.indicator) :: ewmaMessages start e.intervalLen inputs := by
      simp [ewmaMessages, hn]
    rw [hmsgs] at hmono ⊢
    -- the symbol's calculator sends the average and holds its history with it
    obtain ⟨hv, hc⟩ := EwmaCalculator.update_spec e.ewmaAlphaValue (hm p.msg.symbol) hmono.le_of_mem p.msg.indicator
    generalize hcdef : (getOrCreate e.ewmaMap p.msg.symbol).update e.ewmaAlphaValue n p.msg.indicator = c at hv hc
    have hstep := EwmaElement.push_of_averages hact start port hp hlen hn hcdef.symm
    obtain ⟨e', hrun⟩ := EwmaElement.run_spec start inputs { e with ewmaMap := e.ewmaMap.insert p.msg.symbol c }
      (hist ++ [(p.msg.symbol, n, c.currentEwmaValue)]) hact (fun x hx => hav x (List.mem_cons_of_mem _ hx))
      (hmono.publish _) (hm.insert hc)
    refine ⟨e', ?_⟩
    rw [EwmaElement.run, List.map_cons, publish, ← hv, List.zipWith_cons_cons]
    exact runSteps_cons_of_eq hstep hrun

/-- **The element publishes the average with `0` as no previous value.** A
configured element, fed indicator messages whose intervals do not decrease for any
symbol, sends for each message the average of its value over the last published
average of its symbol's latest earlier interval, except that where that average is
`0` it sends the value as it is. -/
theorem ewma_element_publishes (ewmaAlpha : ℤ) (intervalLen : Int64) (start : UInt64)
    (inputs : List (ℕ × IndicatorPacket)) (hav : ∀ x ∈ inputs, EwmaElement.Averages start intervalLen x.2)
    (hmono : IntervalsMono (ewmaMessages start intervalLen inputs)) :
    ∃ e', (EwmaElement.configure true ewmaAlpha intervalLen).run start inputs =
      some (e', List.zipWith indicatorOut (inputs.map Prod.snd)
        (publish (ewmaSentinel (fixedptDiv (fixedptFromint 1) (fixedptFromint ewmaAlpha))) []
          (ewmaMessages start intervalLen inputs))) :=
  EwmaElement.run_spec start inputs _ [] rfl hav hmono mapHolds_empty

/-- `BPl` at `0` in the first interval, then at `10` in the next one. -/
def bplZeroThenTen : List (ℕ × IndicatorPacket) :=
  [(0, ⟨MSG_INDICATOR_SIZE, .MSG_INDICATOR, ⟨bplSymbol, 0, 0⟩⟩),
    (0, ⟨MSG_INDICATOR_SIZE, .MSG_INDICATOR, ⟨bplSymbol, fixedptFromint 10, 10⟩⟩)]

/-- With `EWMA_ALPHA 10` and `INTERVAL_LEN 10`, the element sends `10` for the second
message, where the average over the previous interval's `0` is about `9`. -/
theorem ewma_element_zero_bpl :
    (∃ e', (EwmaElement.configure true 10 10).run 0 bplZeroThenTen =
      some (e', [indicatorOut ⟨MSG_INDICATOR_SIZE, .MSG_INDICATOR, ⟨bplSymbol, 0, 0⟩⟩ 0,
        indicatorOut ⟨MSG_INDICATOR_SIZE, .MSG_INDICATOR, ⟨bplSymbol, fixedptFromint 10, 10⟩⟩ (fixedptFromint 10)])) ∧
      publish (ewmaSpec (fixedptDiv (fixedptFromint 1) (fixedptFromint 10))) [] (ewmaMessages 0 10 bplZeroThenTen) ≠
        [0, fixedptFromint 10] := by
  obtain ⟨e', he⟩ := ewma_element_publishes 10 10 0 bplZeroThenTen (by decide) (by decide)
  have hout : List.zipWith indicatorOut (bplZeroThenTen.map Prod.snd)
      (publish (ewmaSentinel (fixedptDiv (fixedptFromint 1) (fixedptFromint 10))) [] (ewmaMessages 0 10 bplZeroThenTen)) =
      [indicatorOut ⟨MSG_INDICATOR_SIZE, .MSG_INDICATOR, ⟨bplSymbol, 0, 0⟩⟩ 0,
        indicatorOut ⟨MSG_INDICATOR_SIZE, .MSG_INDICATOR, ⟨bplSymbol, fixedptFromint 10, 10⟩⟩ (fixedptFromint 10)] := by
    decide
  rw [hout] at he
  exact ⟨⟨e', he⟩, by decide⟩

/-- At the same input, the element does not publish the average the claim takes,
with a previous `0` as a value: its second message would be about `9`. -/
theorem ewma_element_not_spec :
    ((EwmaElement.configure true 10 10).run 0 bplZeroThenTen).map Prod.snd ≠
      some (List.zipWith indicatorOut (bplZeroThenTen.map Prod.snd)
        (publish (ewmaSpec (fixedptDiv (fixedptFromint 1) (fixedptFromint 10))) [] (ewmaMessages 0 10 bplZeroThenTen))) := by
  intro h
  obtain ⟨e'', he⟩ := EwmaElement.run_spec 0 bplZeroThenTen (EwmaElement.configure true 10 10) [] rfl
    (by decide) (by decide) mapHolds_empty
  rw [he, Option.map_some, Option.some.injEq] at h
  have hne : List.zipWith indicatorOut (bplZeroThenTen.map Prod.snd)
      (publish (ewmaSentinel (EwmaElement.configure true 10 10).ewmaAlphaValue) []
        (ewmaMessages 0 (EwmaElement.configure true 10 10).intervalLen bplZeroThenTen)) ≠
      List.zipWith indicatorOut (bplZeroThenTen.map Prod.snd)
        (publish (ewmaSpec (fixedptDiv (fixedptFromint 1) (fixedptFromint 10))) [] (ewmaMessages 0 10 bplZeroThenTen)) := by
    decide
  exact hne h

end Synapse.Click
