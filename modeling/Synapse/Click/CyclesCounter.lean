import Synapse.Trade.WireFormat
import Synapse.Theory.BoundedWrite
import Synapse.Theory.Transducer

/-!
# The cycles counter

`Synapse::CyclesCounter` (`lib/cycles_counter.cc`) adds up the cycles its caller measures.
Each `update_counter` moves a reporting interval on; the update that ends an interval
records the sum in a ring of the last `MAX_PREV_COUNTERS` sums and returns `true`, and
the caller then reads the sum with `get_counter`. `get_x_last_counters_str` formats the
most recent sums, newest first, each followed by a comma, into a caller's buffer with one
`snprintf` per sum, and stops once the buffer is full.

## The model

The counter is a structure with the class's fields, the ring a `Vector` of
`MAX_PREV_COUNTERS` words and `_num_prev_counters` an unsigned 32-bit count. A run is a
list of calls (`CounterCall`); `step` gives, for an update, what `update_counter` returns
together with the sum `get_counter` then reads, as the callers do. The loop of
`get_x_last_counters_str` is `lastCountersLoop`, with `remaining_size` in `ℤ`: it starts
from `(int) buf_len` and the loop takes a text's length off it only while it is positive,
so it never leaves the range of an `int`.

## What is proved

* `last_counters_str`: after any calls, the buffer holds the sums the updates reported,
  newest first; past `MAX_PREV_COUNTERS` of them the same sums come round again, and the
  whole is cut to `buf_len - 1` bytes. A `buf_len` whose `int` cast is `0` leaves the
  buffer as it was, and a negative one makes the first `snprintf` write past its end.
* `reports_every_interval`: after `set_reporting_interval (r)`, the updates report exactly
  every `r`-th time (every time when `r < 1`), and what they report is the sum of the
  values added since the last `reset_counter`, in 64 bits.

## What is not formalized

The test `int(_num_prev_counters) - i - 1 >= 0` is read in `ℤ`: with `2 ^ 31` sums or more
the cast is negative and the subtraction can overflow, which C leaves undefined; the
theorems stay below that count. Where the first `snprintf` writes past the buffer, the
model says so (`CountersStr.overrun`) and does not follow the call further.
-/

namespace Synapse.Click

open Synapse.Theory Synapse.Trade

/-- `MAX_PREV_COUNTERS`: how many recorded sums the ring keeps. -/
def MAX_PREV_COUNTERS : ℕ := 100

theorem MAX_PREV_COUNTERS_pos : 0 < MAX_PREV_COUNTERS := by decide

/-- `','`. -/
def COMMA : UInt8 := 44

/-- A `Synapse::CyclesCounter`. -/
structure CyclesCounter where
  /-- `_cycles_counter`: the sum since the last reset. -/
  cyclesCounter : UInt64
  /-- `_reporting_interval`. -/
  reportingInterval : Int32
  /-- `_current_interval`: the updates since the last report. -/
  currentInterval : Int32
  /-- `_num_prev_counters`: how many sums were ever recorded. -/
  numPrevCounters : UInt32
  /-- `_prev_counters`. -/
  prevCounters : Vector UInt64 MAX_PREV_COUNTERS

namespace CyclesCounter

/-- The constructor: every field zero, the ring cleared by `memset`. -/
def new : CyclesCounter := ⟨0, 0, 0, 0, Vector.replicate MAX_PREV_COUNTERS 0⟩

/-- `set_reporting_interval (reporting_interval)`. -/
def setReportingInterval (c : CyclesCounter) (reportingInterval : Int32) : CyclesCounter :=
  { c with reportingInterval }

/-- `_prev_counters [n % MAX_PREV_COUNTERS]`. -/
def prevCounter (c : CyclesCounter) (n : ℕ) : UInt64 :=
  c.prevCounters.get ⟨n % MAX_PREV_COUNTERS, Nat.mod_lt n MAX_PREV_COUNTERS_pos⟩

/-- `update_prev_counters ()`: record the sum in the next slot of the ring. -/
def updatePrevCounters (c : CyclesCounter) : CyclesCounter :=
  { c with
    prevCounters := c.prevCounters.set (c.numPrevCounters.toNat % MAX_PREV_COUNTERS) c.cyclesCounter
      (Nat.mod_lt _ MAX_PREV_COUNTERS_pos)
    numPrevCounters := c.numPrevCounters + 1 }

/-- `update_counter (value)`: the counter after the call, and whether it ended a
reporting interval. -/
def updateCounter (c : CyclesCounter) (value : UInt64) : CyclesCounter × Bool :=
  let c' := { c with cyclesCounter := c.cyclesCounter + value, currentInterval := c.currentInterval + 1 }
  if c'.currentInterval ≥ c'.reportingInterval then
    ({ c' with currentInterval := 0 }.updatePrevCounters, true)
  else
    (c', false)

/-- `get_counter ()`. -/
def getCounter (c : CyclesCounter) : UInt64 := c.cyclesCounter

/-- `reset_counter ()`. -/
def resetCounter (c : CyclesCounter) : CyclesCounter := { c with cyclesCounter := 0 }

end CyclesCounter

/-- What `snprintf` formats for `"%llu,"`. -/
def counterText (counter : UInt64) : List UInt8 := decimalText counter.toNat ++ [COMMA]

/-- What `get_x_last_counters_str` leaves in the caller's buffer. -/
inductive CountersStr where
  /-- No `snprintf` wrote to it. -/
  | unchanged
  /-- It holds the string, up to the NUL the last `snprintf` wrote. -/
  | written (s : List UInt8)
  /-- The first `snprintf` wrote past its end. -/
  | overrun
  deriving DecidableEq, Repr

namespace CyclesCounter

/-- The loop of `get_x_last_counters_str` from iteration `i`, with `remainingSize` bytes
left and `fuel` iterations before `i` reaches `num_of_intervals`: what its `snprintf`
calls write before the last NUL. -/
def lastCountersLoop (c : CyclesCounter) : ℕ → ℕ → ℤ → List UInt8
  | 0, _, _ => []
  | fuel + 1, i, remainingSize =>
    if c.numPrevCounters.toInt32.toInt - i - 1 ≥ 0 then
      let text := counterText (c.prevCounter (c.numPrevCounters - i.toUInt32 - 1).toNat)
      text.take (remainingSize - 1).toNat ++
        if remainingSize - text.length < 1 then [] else lastCountersLoop c fuel (i + 1) (remainingSize - text.length)
    else []

/-- `get_x_last_counters_str (buffer, buf_len, num_of_intervals)`: what the buffer holds
after the call. The loop's first `snprintf`, if it makes one, gets `(int) buf_len` as its
size: from `1` on it writes into the buffer, `0` writes nothing, and a negative one
becomes a `size_t` near `2 ^ 64`, with the text written at `buffer + buf_len -
remaining_size`, past the buffer's end. -/
def getXLastCountersStr (c : CyclesCounter) (bufLen : UInt64) (numOfIntervals : Int32) : CountersStr :=
  let remainingSize := bufLen.toUInt32.toInt32.toInt
  if 0 < numOfIntervals ∧ c.numPrevCounters.toInt32.toInt - 1 ≥ 0 then
    if 1 ≤ remainingSize then .written (c.lastCountersLoop numOfIntervals.toNatClampNeg 0 remainingSize)
    else if remainingSize = 0 then .unchanged
    else .overrun
  else
    .unchanged

end CyclesCounter

/-- A call a caller makes on the counter. -/
inductive CounterCall where
  | setReportingInterval (reportingInterval : Int32)
  | updateCounter (value : UInt64)
  | resetCounter
  deriving DecidableEq, Repr

namespace CounterCall

/-- The value an `update_counter` call adds. -/
def value? : CounterCall → Option UInt64
  | updateCounter value => some value
  | _ => none

/-- Whether the call is `reset_counter`. -/
def isReset : CounterCall → Bool
  | resetCounter => true
  | _ => false

/-- Whether the call is `set_reporting_interval`. -/
def isSetReportingInterval : CounterCall → Bool
  | setReportingInterval _ => true
  | _ => false

end CounterCall

namespace CyclesCounter

/-- One call. An `update_counter` that returns `true` gives the sum `get_counter` then
reads. -/
def step (c : CyclesCounter) : CounterCall → CyclesCounter × Option UInt64
  | .setReportingInterval reportingInterval => (c.setReportingInterval reportingInterval, none)
  | .updateCounter value =>
    match c.updateCounter value with
    | (c', true) => (c', some c'.getCounter)
    | (c', false) => (c', none)
  | .resetCounter => (c.resetCounter, none)

/-- The calls one after another. -/
def run (c : CyclesCounter) (calls : List CounterCall) : Option (CyclesCounter × List (Option UInt64)) :=
  runSteps (fun c call => some (c.step call)) c calls

/-- An update adds the value and moves the interval on; at the interval's end it records
the sum and reports it. -/
theorem step_updateCounter (c : CyclesCounter) (value : UInt64) :
    c.step (.updateCounter value) =
      if c.reportingInterval ≤ c.currentInterval + 1 then
        ({ c with cyclesCounter := c.cyclesCounter + value, currentInterval := 0 }.updatePrevCounters,
          some (c.cyclesCounter + value))
      else
        ({ c with cyclesCounter := c.cyclesCounter + value, currentInterval := c.currentInterval + 1 }, none) := by
  by_cases hend : c.reportingInterval ≤ c.currentInterval + 1
  · simp [step, updateCounter, hend, getCounter, updatePrevCounters]
  · simp [step, updateCounter, hend]

/-! ### The ring of recorded sums -/

/-- The slot of `n` is the slot of `n` plus whole turns of the ring. -/
theorem prevCounter_add_mul (c : CyclesCounter) (n q : ℕ) :
    c.prevCounter (n + MAX_PREV_COUNTERS * q) = c.prevCounter n := by
  simp only [prevCounter, Nat.add_mul_mod_self_left]

/-- The ring holds the sums `recs`: their number, and the last `MAX_PREV_COUNTERS` of them
in their slots. -/
structure Records (c : CyclesCounter) (recs : List UInt64) : Prop where
  num_eq : c.numPrevCounters.toNat = recs.length
  slot_eq : ∀ j < recs.length, recs.length ≤ j + MAX_PREV_COUNTERS → c.prevCounter j = recs.getD j 0

theorem records_new : Records new [] where
  num_eq := rfl
  slot_eq _ hj := absurd hj (Nat.not_lt_zero _)

/-- A counter with the same ring holds the same sums. -/
theorem Records.frame {c c' : CyclesCounter} {recs : List UInt64} (h : Records c recs)
    (hnum : c'.numPrevCounters = c.numPrevCounters) (hprev : c'.prevCounters = c.prevCounters) :
    Records c' recs where
  num_eq := hnum ▸ h.num_eq
  slot_eq j hj hj' := by
    rw [← h.slot_eq j hj hj']
    simp only [prevCounter, hprev]

/-- `update_prev_counters` appends the sum to what the ring holds, while the count does not
wrap. -/
theorem Records.updatePrevCounters {c : CyclesCounter} {recs : List UInt64} (h : Records c recs)
    (hlen : recs.length + 1 < 2 ^ 32) : Records c.updatePrevCounters (recs ++ [c.cyclesCounter]) where
  num_eq := by
    simp only [CyclesCounter.updatePrevCounters, UInt32.toNat_add, UInt32.toNat_one, h.num_eq,
      List.length_append, List.length_singleton]
    omega
  slot_eq j hj hj' := by
    simp only [List.length_append, List.length_singleton] at hj hj'
    simp only [prevCounter, CyclesCounter.updatePrevCounters, Vector.get_eq_getElem, Vector.getElem_set, h.num_eq]
    by_cases hjn : j = recs.length
    · subst hjn
      simp
    · -- an older sum sits in another slot, fewer than a whole turn away
      have hne : recs.length % MAX_PREV_COUNTERS ≠ j % MAX_PREV_COUNTERS := by
        unfold MAX_PREV_COUNTERS at hj' ⊢
        omega
      rw [if_neg hne, List.getD_append _ _ _ _ (by omega), ← h.slot_eq j (by omega) (by omega)]
      rfl

/-- What one call does to the ring: an update that reports appends its sum. -/
theorem Records.step {c : CyclesCounter} {recs : List UInt64} (h : Records c recs)
    (hlen : recs.length + 1 < 2 ^ 32) (call : CounterCall) :
    Records (c.step call).1 (recs ++ (c.step call).2.toList) := by
  cases call with
  | setReportingInterval reportingInterval =>
    simp only [CyclesCounter.step, Option.toList_none, List.append_nil]
    exact h.frame rfl rfl
  | updateCounter value =>
    rw [step_updateCounter]
    split_ifs
    · have h' : Records { c with cyclesCounter := c.cyclesCounter + value, currentInterval := 0 } recs :=
        h.frame rfl rfl
      simpa only [Option.toList_some] using h'.updatePrevCounters hlen
    · simp only [Option.toList_none, List.append_nil]
      exact h.frame rfl rfl
  | resetCounter =>
    simp only [CyclesCounter.step, Option.toList_none, List.append_nil]
    exact h.frame rfl rfl

/-- Over a run, the ring holds the sums the updates reported, in order, while their count
stays below `2 ^ 32`. -/
theorem Records.run {c : CyclesCounter} {recs : List UInt64} (h : Records c recs) :
    ∀ calls : List CounterCall, recs.length + calls.length < 2 ^ 32 →
      ∃ c' outs, c.run calls = some (c', outs) ∧ outs.length = calls.length ∧
        Records c' (recs ++ outs.reduceOption)
  | [], _ => ⟨c, [], rfl, rfl, by simpa using h⟩
  | call :: calls, hlen => by
    have hone : (c.step call).2.toList.length ≤ 1 := by
      cases (c.step call).2 <;> simp
    simp only [List.length_cons] at hlen
    obtain ⟨c', outs, hrun, hlen', h'⟩ := (h.step (by omega) call).run calls (by simp only [List.length_append]; omega)
    refine ⟨c', (c.step call).2 :: outs, runSteps_cons_of_eq rfl hrun, by simp [hlen'], ?_⟩
    cases hout : (c.step call).2 with
    | none => simpa [hout] using h'
    | some v => simpa [hout, List.reduceOption_cons_of_some] using h'

/-- The ring counts below `2 ^ 31`: the `int` cast of the count is the count. -/
theorem Records.toInt_numPrevCounters {c : CyclesCounter} {recs : List UInt64} (h : Records c recs)
    (hN : recs.length < 2 ^ 31) : c.numPrevCounters.toInt32.toInt = recs.length := by
  show c.numPrevCounters.toBitVec.toInt = _
  have h' : 2 * c.numPrevCounters.toBitVec.toNat < 2 ^ 32 := by
    rw [UInt32.toNat_toBitVec, h.num_eq]
    omega
  rw [BitVec.toInt_eq_toNat_of_lt h', UInt32.toNat_toBitVec, h.num_eq]

/-- Iteration `j` of the loop reads the `j`-th newest sum, and past `MAX_PREV_COUNTERS` of
them the slots come round again. -/
theorem Records.prevCounter_sub {c : CyclesCounter} {recs : List UInt64} (h : Records c recs)
    {j : ℕ} (hj : j < recs.length) :
    c.prevCounter (c.numPrevCounters - j.toUInt32 - 1).toNat = recs.reverse.getD (j % MAX_PREV_COUNTERS) 0 := by
  have hsub : (c.numPrevCounters - j.toUInt32 - 1).toNat = recs.length - 1 - j := by
    have := c.numPrevCounters.toNat_lt
    simp only [h.num_eq, Nat.toUInt32_eq, UInt32.toNat_sub, UInt32.reduceToNat, UInt32.toNat_ofNat',
      Nat.add_mod_mod] at this ⊢
    omega
  have hturn : recs.length - 1 - j % MAX_PREV_COUNTERS =
      recs.length - 1 - j + MAX_PREV_COUNTERS * (j / MAX_PREV_COUNTERS) := by
    unfold MAX_PREV_COUNTERS
    omega
  have hmod : j % MAX_PREV_COUNTERS < MAX_PREV_COUNTERS := Nat.mod_lt j MAX_PREV_COUNTERS_pos
  have hle : j % MAX_PREV_COUNTERS ≤ j := Nat.mod_le j MAX_PREV_COUNTERS
  rw [hsub, ← prevCounter_add_mul, ← hturn, List.getD_reverse _ (by omega),
    h.slot_eq _ (by omega) (by omega)]

/-- The loop's run: the `snprintf` calls write the texts of the iterations that pass the
test into what is left of the buffer. -/
theorem lastCountersLoop_eq (c : CyclesCounter) : ∀ (fuel i : ℕ) (remainingSize : ℤ),
    c.lastCountersLoop fuel i remainingSize =
      boundedWrites remainingSize ((List.range' i (min fuel (c.numPrevCounters.toInt32.toInt.toNat - i))).map
        fun j => counterText (c.prevCounter (c.numPrevCounters - j.toUInt32 - 1).toNat))
  | 0, i, remainingSize => by simp [lastCountersLoop, boundedWrites]
  | fuel + 1, i, remainingSize => by
    rw [lastCountersLoop]
    split_ifs with hi
    · have hmin : min (fuel + 1) (c.numPrevCounters.toInt32.toInt.toNat - i) =
          min fuel (c.numPrevCounters.toInt32.toInt.toNat - (i + 1)) + 1 := by
        omega
      dsimp only
      rw [hmin, List.range'_succ, List.map_cons, boundedWrites, lastCountersLoop_eq c fuel (i + 1)]
    · have hmin : min (fuel + 1) (c.numPrevCounters.toInt32.toInt.toNat - i) = 0 := by
        omega
      rw [hmin, List.range'_zero, List.map_nil, boundedWrites]

end CyclesCounter

/-- The sums `get_x_last_counters_str` reads for `num_of_intervals` `k`, of those recorded:
the newest first, and past `MAX_PREV_COUNTERS` of them the same ones again. -/
def lastCounters (k : ℕ) (recs : List UInt64) : List UInt64 :=
  (List.range (min k recs.length)).map fun i => recs.reverse.getD (i % MAX_PREV_COUNTERS) 0

namespace CyclesCounter

/-- What `get_x_last_counters_str` leaves in the buffer of a counter whose ring holds the
sums `recs`. -/
theorem Records.getXLastCountersStr {c : CyclesCounter} {recs : List UInt64} (h : Records c recs)
    (hN : recs.length < 2 ^ 31) (bufLen : UInt64) (numOfIntervals : Int32) :
    c.getXLastCountersStr bufLen numOfIntervals =
      if 0 < numOfIntervals ∧ 0 < recs.length then
        if 1 ≤ bufLen.toUInt32.toInt32.toInt then
          .written (((lastCounters numOfIntervals.toNatClampNeg recs).map counterText).flatten.take
            (bufLen.toUInt32.toInt32.toInt - 1).toNat)
        else if bufLen.toUInt32.toInt32.toInt = 0 then .unchanged
        else .overrun
      else .unchanged := by
  have hnum := h.toInt_numPrevCounters hN
  rw [CyclesCounter.getXLastCountersStr]
  by_cases hcall : 0 < numOfIntervals ∧ 0 < recs.length
  · have htexts : (List.range (min numOfIntervals.toNatClampNeg recs.length)).map
          (fun j => counterText (c.prevCounter (c.numPrevCounters - j.toUInt32 - 1).toNat)) =
        (lastCounters numOfIntervals.toNatClampNeg recs).map counterText := by
      rw [lastCounters, List.map_map]
      apply List.map_congr_left
      intro j hj
      rw [List.mem_range] at hj
      rw [Function.comp_apply, h.prevCounter_sub (by omega)]
    rw [if_pos ⟨hcall.1, by omega⟩, if_pos hcall]
    -- only a first call into the buffer goes on to the loop
    by_cases hb : 1 ≤ bufLen.toUInt32.toInt32.toInt
    · rw [if_pos hb, if_pos hb, lastCountersLoop_eq, boundedWrites_eq_take _ _ hb, hnum, Int.toNat_natCast,
        Nat.sub_zero, ← List.range_eq_range', htexts]
    · rw [if_neg hb, if_neg hb]
  · have hnot : ¬(0 < numOfIntervals ∧ c.numPrevCounters.toInt32.toInt - 1 ≥ 0) := by
      rintro ⟨hk, hn⟩
      exact hcall ⟨hk, by omega⟩
    rw [if_neg hnot, if_neg hcall]

end CyclesCounter

/-- **The buffer holds the reported sums.** After any run of fewer than `2 ^ 31` calls from
a new counter, what `get_x_last_counters_str` leaves in the buffer is the sums the updates
reported, newest first (past `MAX_PREV_COUNTERS` of them the same ones again), each with
its comma, cut to `buf_len - 1` bytes. It writes nothing when nothing was reported, none
are asked for or `(int) buf_len` is `0`, and past the buffer when that is negative. -/
theorem last_counters_str (calls : List CounterCall) (hcalls : calls.length < 2 ^ 31)
    (bufLen : UInt64) (numOfIntervals : Int32) :
    ∃ c outs, CyclesCounter.new.run calls = some (c, outs) ∧
      c.getXLastCountersStr bufLen numOfIntervals =
        if 0 < numOfIntervals ∧ 0 < outs.reduceOption.length then
          if 1 ≤ bufLen.toUInt32.toInt32.toInt then
            .written (((lastCounters numOfIntervals.toNatClampNeg outs.reduceOption).map counterText).flatten.take
              (bufLen.toUInt32.toInt32.toInt - 1).toNat)
          else if bufLen.toUInt32.toInt32.toInt = 0 then .unchanged
          else .overrun
        else .unchanged := by
  obtain ⟨c, outs, hrun, hlen, hrec⟩ := CyclesCounter.records_new.run calls (by simp only [List.length_nil]; omega)
  rw [List.nil_append] at hrec
  have hN : outs.reduceOption.length < 2 ^ 31 := by
    have := List.reduceOption_length_le outs
    omega
  exact ⟨c, outs, hrun, hrec.getXLastCountersStr hN bufLen numOfIntervals⟩

/-- Three updates with a reset between, on a new counter, which reports at every update:
two sums asked for in a buffer of six bytes give `30,12`, cut before the last comma. -/
theorem last_counters_str_reset :
    ∃ c outs, CyclesCounter.new.run [.updateCounter 5, .updateCounter 7, .resetCounter, .updateCounter 30] =
        some (c, outs) ∧ c.getXLastCountersStr 6 2 = .written [51, 48, 44, 49, 50] := by
  obtain ⟨c, outs, hrun, hstr⟩ :=
    last_counters_str [.updateCounter 5, .updateCounter 7, .resetCounter, .updateCounter 30] (by decide) 6 2
  have houts : outs = [some 5, some 12, none, some 30] := by
    have hmap := congrArg (Option.map Prod.snd) hrun
    rw [show (CyclesCounter.new.run [.updateCounter 5, .updateCounter 7, .resetCounter, .updateCounter 30]).map
      Prod.snd = some [some 5, some 12, none, some 30] from rfl] at hmap
    exact (Option.some.inj hmap).symm
  subst houts
  exact ⟨c, _, hrun, hstr.trans (by decide)⟩

/-! ### The reporting intervals -/

/-- The sum the counter holds after the calls `hist`: the values of the updates since the
last `reset_counter`, added in 64 bits. -/
def sumSinceReset (hist : List CounterCall) : UInt64 :=
  ((hist.rtakeWhile fun call => !call.isReset).filterMap CounterCall.value?).sum

/-- How many updates the calls `hist` make. -/
def updateCount (hist : List CounterCall) : ℕ := (hist.filterMap CounterCall.value?).length

/-- How many updates make a reporting interval: the interval set, and one when it is set
below one. -/
def intervalLength (reportingInterval : Int32) : ℕ := (max reportingInterval.toInt 1).toNat

/-- What a call after the calls `hist` reports, with the reporting interval set to
`reportingInterval`: an update that completes an interval reports the sum after it. -/
def reportOf (reportingInterval : Int32) (hist : List CounterCall) : CounterCall → Option UInt64
  | .updateCounter value =>
    if intervalLength reportingInterval ∣ updateCount hist + 1 then
      some (sumSinceReset (hist ++ [.updateCounter value]))
    else
      none
  | _ => none

theorem sumSinceReset_concat_update (hist : List CounterCall) (value : UInt64) :
    sumSinceReset (hist ++ [.updateCounter value]) = sumSinceReset hist + value := by
  rw [sumSinceReset, List.rtakeWhile_concat_pos _ _ _ rfl, List.filterMap_append, List.sum_append]
  simp [sumSinceReset, CounterCall.value?]

theorem sumSinceReset_concat_reset (hist : List CounterCall) :
    sumSinceReset (hist ++ [.resetCounter]) = 0 := by
  rw [sumSinceReset, List.rtakeWhile_concat_neg _ _ _ (by decide)]
  rfl

theorem updateCount_concat_update (hist : List CounterCall) (value : UInt64) :
    updateCount (hist ++ [.updateCounter value]) = updateCount hist + 1 := by
  simp [updateCount, CounterCall.value?]

theorem updateCount_concat_reset (hist : List CounterCall) :
    updateCount (hist ++ [.resetCounter]) = updateCount hist := by
  simp [updateCount, CounterCall.value?]

theorem intervalLength_pos (reportingInterval : Int32) : 0 < intervalLength reportingInterval := by
  unfold intervalLength
  omega

/-- One more update either moves the position in an interval of `m` on, or ends the
interval. -/
theorem mod_add_one_cases {n m : ℕ} (hm : 0 < m) :
    (n % m + 1 = m ∧ (n + 1) % m = 0) ∨ (n % m + 1 < m ∧ (n + 1) % m = n % m + 1) := by
  obtain ⟨b, rfl⟩ : ∃ b, m = b + 1 := ⟨m - 1, by omega⟩
  have hlt := Nat.mod_lt n hm
  by_cases hend : n % (b + 1) = b
  · exact .inl ⟨by omega, Nat.succ_mod_succ_eq_zero_iff.2 hend⟩
  · have hone : 1 % (b + 1) = 1 := Nat.mod_eq_of_lt (by omega)
    refine .inr ⟨by omega, ?_⟩
    rw [Nat.add_mod_of_add_mod_lt (by omega), hone]

namespace CyclesCounter

/-- The counter after the calls `hist`, made on a new counter whose reporting interval was
then set to `reportingInterval`. -/
structure Cadence (reportingInterval : Int32) (c : CyclesCounter) (hist : List CounterCall) : Prop where
  reportingInterval_eq : c.reportingInterval = reportingInterval
  currentInterval_eq : c.currentInterval.toInt = (updateCount hist % intervalLength reportingInterval : ℕ)
  cyclesCounter_eq : c.cyclesCounter = sumSinceReset hist

theorem cadence_new (reportingInterval : Int32) :
    Cadence reportingInterval (new.setReportingInterval reportingInterval) [] where
  reportingInterval_eq := rfl
  currentInterval_eq := by simp [updateCount, new, setReportingInterval]
  cyclesCounter_eq := rfl

/-- An update moves the interval on, and at its end records and reports the sum. -/
theorem Cadence.update {r : Int32} {c : CyclesCounter} {hist : List CounterCall} (h : Cadence r c hist)
    (value : UInt64) :
    ∃ c', c.step (.updateCounter value) = (c', reportOf r hist (.updateCounter value)) ∧
      Cadence r c' (hist ++ [.updateCounter value]) := by
  have hm := intervalLength_pos r
  have hlen : (intervalLength r : ℤ) = max r.toInt 1 := by
    unfold intervalLength
    omega
  have hr := Int32.toInt_lt r
  have hpos := Nat.mod_lt (updateCount hist) hm
  -- the position after the increment: no overflow, as it stays within the interval
  have hcur : (c.currentInterval + 1).toInt = (updateCount hist % intervalLength r : ℕ) + 1 := by
    rw [Int32.toInt_add, h.currentInterval_eq, Int.bmod_eq_of_le] <;> simp <;> omega
  have hsum : c.cyclesCounter + value = sumSinceReset (hist ++ [.updateCounter value]) := by
    rw [sumSinceReset_concat_update, h.cyclesCounter_eq]
  rw [step_updateCounter, reportOf]
  rcases mod_add_one_cases (n := updateCount hist) hm with ⟨hend, hmod⟩ | ⟨hnext, hmod⟩
  · have htest : c.reportingInterval ≤ c.currentInterval + 1 := by
      rw [Int32.le_iff_toInt_le, hcur, h.reportingInterval_eq]
      omega
    rw [if_pos htest, if_pos (Nat.dvd_of_mod_eq_zero hmod)]
    refine ⟨{ c with cyclesCounter := c.cyclesCounter + value, currentInterval := 0 }.updatePrevCounters,
      by rw [hsum], h.reportingInterval_eq, ?_, hsum⟩
    rw [updateCount_concat_update, hmod]
    rfl
  · have htest : ¬c.reportingInterval ≤ c.currentInterval + 1 := by
      rw [Int32.le_iff_toInt_le, hcur, h.reportingInterval_eq]
      omega
    have hndvd : ¬intervalLength r ∣ updateCount hist + 1 := by
      rw [Nat.dvd_iff_mod_eq_zero, hmod]
      omega
    rw [if_neg htest, if_neg hndvd]
    refine ⟨{ c with cyclesCounter := c.cyclesCounter + value, currentInterval := c.currentInterval + 1 },
      rfl, h.reportingInterval_eq, ?_, hsum⟩
    rw [updateCount_concat_update, hmod]
    exact hcur.trans (by push_cast; rfl)

/-- What one call other than `set_reporting_interval` does. -/
theorem Cadence.step {r : Int32} {c : CyclesCounter} {hist : List CounterCall} (h : Cadence r c hist)
    (call : CounterCall) (hcall : call.isSetReportingInterval = false) :
    ∃ c', c.step call = (c', reportOf r hist call) ∧ Cadence r c' (hist ++ [call]) := by
  cases call with
  | setReportingInterval reportingInterval => simp [CounterCall.isSetReportingInterval] at hcall
  | updateCounter value => exact h.update value
  | resetCounter =>
    refine ⟨c.resetCounter, rfl, h.reportingInterval_eq, ?_, (sumSinceReset_concat_reset hist).symm⟩
    rw [updateCount_concat_reset]
    exact h.currentInterval_eq

end CyclesCounter

/-- **Every interval reports its sum.** On a new counter whose reporting interval is set to
`r`, over any calls that do not set it again, the `n`-th update reports exactly when `r`
divides `n` (every update when `r < 1`), and what it reports is the sum of the values added
since the last `reset_counter`, in 64 bits. -/
theorem reports_every_interval (reportingInterval : Int32) (calls : List CounterCall)
    (hcalls : ∀ call ∈ calls, call.isSetReportingInterval = false) :
    ∃ c, (CyclesCounter.new.setReportingInterval reportingInterval).run calls =
      some (c, outputsAfter (reportOf reportingInterval) [] calls) :=
  runSteps_outputsAfter_of_forall (fun call => call.isSetReportingInterval = false)
    (CyclesCounter.Cadence reportingInterval) (reportOf reportingInterval)
    (fun c hist call hcall h => by
      obtain ⟨c', hc', h'⟩ := h.step call hcall
      exact ⟨c', by rw [hc'], h'⟩)
    calls hcalls _ [] (CyclesCounter.cadence_new reportingInterval)

/-- With an interval of two, the second and fourth updates report: `5 + 7`, and after the
reset `30 + 1`. -/
theorem reports_every_interval_two :
    ∃ c, (CyclesCounter.new.setReportingInterval 2).run
        [.updateCounter 5, .updateCounter 7, .resetCounter, .updateCounter 30, .updateCounter 1] =
      some (c, [none, some 12, none, none, some 31]) := by
  obtain ⟨c, hc⟩ := reports_every_interval 2
    [.updateCounter 5, .updateCounter 7, .resetCounter, .updateCounter 30, .updateCounter 1] (by decide)
  have hout : outputsAfter (reportOf 2) []
      [.updateCounter 5, .updateCounter 7, .resetCounter, .updateCounter 30, .updateCounter 1] =
      [none, some 12, none, none, some 31] := by
    decide
  exact ⟨c, hout ▸ hc⟩

end Synapse.Click
