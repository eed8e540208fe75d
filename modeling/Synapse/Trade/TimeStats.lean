import Synapse.Trade.MsgParsing

/-!
# The bar of an interval

Both sources aggregate the trades of a symbol into a bar: `TimeStats` holds the
high, low, open and close of the current interval and its volume. The trade
processor's `update_stats` (`elements/standard/trade_processor.cc`) and the
hand-coded `update_hloc` (`hand_coded/main.cpp`) are the same function: the first
trade of an interval sets the bar to its price, a later one widens it; either
says whether the bar changed. `rollover` starts the next interval, keeping high,
low and close.

## What is proved

* `updateStats_of_first`: the first trade of an interval always changes the bar.
* `Bar` is the invariant of a symbol whose prices are positive: its bar is the
  zero one it starts with, or a positive one with the close between low and high.
  A trade of positive price makes it positive (`Bar.updateStats`).
* Over any run of trades and rollovers (`BarEvent`), the bar is that of the trades
  since the last rollover (`Tracks`, `tracks_run`): the volume is their sum, and
  once the interval has a trade, high and low are the greatest and least price
  and the close the last. `fst_updateStats_iff`: a trade reports a change iff it is
  the first of its interval or it moved high, low or close. `interval_bar`
  gathers both over every run.
-/

namespace Synapse.Trade

/-- `TimeStats`. -/
structure TimeStats where
  /-- `_high`. -/
  high : Fixedpt
  /-- `_low`. -/
  low : Fixedpt
  /-- `_open`. -/
  «open» : Fixedpt
  /-- `_close`. -/
  close : Fixedpt
  /-- `_size`. -/
  size : Int64
  /-- `_first_time_updated`. -/
  firstTimeUpdated : Bool
  deriving DecidableEq, Repr

/-- `TimeStats ()`: a zero bar, not yet updated in this interval. -/
instance : Inhabited TimeStats := ⟨⟨0, 0, 0, 0, 0, false⟩⟩

namespace TimeStats

/-- `rollover ()`: the close becomes the open, the volume is cleared and the next
trade starts the interval. -/
def rollover (s : TimeStats) : TimeStats :=
  { s with «open» := s.close, size := 0, firstTimeUpdated := false }

end TimeStats

/-- `update_stats (time_stats, msg_trade)`: the bar after the trade, and whether it
changed. -/
def updateStats (timeStats : TimeStats) (msgTrade : MsgTrade) : Bool × TimeStats :=
  let price := msgTrade.price
  if !timeStats.firstTimeUpdated then
    (true,
      { timeStats with
        high := price
        low := price
        close := price
        size := timeStats.size + msgTrade.size
        firstTimeUpdated := true })
  else
    (decide (price > timeStats.high) || decide (price < timeStats.low) || decide (price ≠ timeStats.close),
      { timeStats with
        high := if price > timeStats.high then price else timeStats.high
        low := if price < timeStats.low then price else timeStats.low
        size := timeStats.size + msgTrade.size
        close := price })

/-- `update_hloc (msg_trade, time_stats)` of the hand-coded program. -/
def updateHloc (msgTrade : MsgTrade) (timeStats : TimeStats) : Bool × TimeStats :=
  updateStats timeStats msgTrade

theorem updateStats_of_first {s : TimeStats} (h : s.firstTimeUpdated = false) (m : MsgTrade) :
    updateStats s m =
      (true,
        { s with
          high := m.price
          low := m.price
          close := m.price
          size := s.size + m.size
          firstTimeUpdated := true }) := by
  simp [updateStats, h]

theorem updateStats_of_later {s : TimeStats} (h : s.firstTimeUpdated = true) (m : MsgTrade) :
    updateStats s m =
      (decide (m.price > s.high) || decide (m.price < s.low) || decide (m.price ≠ s.close),
        { s with
          high := if m.price > s.high then m.price else s.high
          low := if m.price < s.low then m.price else s.low
          size := s.size + m.size
          close := m.price }) := by
  simp [updateStats, h]

@[simp] theorem firstTimeUpdated_updateStats (s : TimeStats) (m : MsgTrade) :
    (updateStats s m).2.firstTimeUpdated = true := by
  cases hs : s.firstTimeUpdated
  · rw [updateStats_of_first hs]
  · rw [updateStats_of_later hs]
    exact hs

@[simp] theorem close_updateStats (s : TimeStats) (m : MsgTrade) : (updateStats s m).2.close = m.price := by
  cases hs : s.firstTimeUpdated
  · rw [updateStats_of_first hs]
  · rw [updateStats_of_later hs]

/-! ### The bar of a symbol with positive prices -/

/-- A positive bar: `0 < low ≤ close ≤ high`. -/
def TimeStats.Positive (s : TimeStats) : Prop := 0 < s.low ∧ s.low ≤ s.close ∧ s.close ≤ s.high

/-- The bar a symbol can hold while its prices are positive: the zero one it
starts with, or a positive one. -/
def TimeStats.Bar (s : TimeStats) : Prop := s = default ∨ s.Positive

theorem TimeStats.Bar.default : (default : TimeStats).Bar := .inl rfl

/-- A bar that has seen a trade in this interval is not the starting one. -/
theorem TimeStats.Bar.positive_of_updated {s : TimeStats} (h : s.Bar) (hs : s.firstTimeUpdated = true) :
    s.Positive := by
  rcases h with rfl | h
  · exact absurd hs (by decide)
  · exact h

theorem TimeStats.Bar.updateStats {s : TimeStats} (h : s.Bar) {m : MsgTrade} (hm : 0 < m.price) :
    (updateStats s m).2.Positive := by
  cases hs : s.firstTimeUpdated
  · rw [updateStats_of_first hs]
    exact ⟨hm, Int64.le_refl _, Int64.le_refl _⟩
  · -- a later trade widens the bar to its price
    obtain ⟨hlow, hlc, hch⟩ := h.positive_of_updated hs
    rw [updateStats_of_later hs]
    refine ⟨?_, ?_, ?_⟩ <;> split_ifs <;>
      simp only [gt_iff_lt, Int64.lt_iff_toInt_lt, Int64.le_iff_toInt_le] at * <;> omega

/-! ### The bar over a run of trades and rollovers -/

/-- What happens to a symbol's bar: a trade, or the end of its interval. -/
inductive BarEvent
  /-- `update_stats (time_stats, msg_trade)`. -/
  | trade (m : MsgTrade)
  /-- `rollover ()`. -/
  | rollover

/-- The bar after an event. -/
def TimeStats.apply (s : TimeStats) : BarEvent → TimeStats
  | .trade m => (updateStats s m).2
  | .rollover => s.rollover

/-- What the bar is meant to follow: the trades since the last rollover, oldest
first. -/
def sinceRollover (ms : List MsgTrade) : BarEvent → List MsgTrade
  | .trade m => ms ++ [m]
  | .rollover => []

/-- The bar of the trades `ms` of an interval: the volume is their sum; the bar has
been set in this interval iff there is one; then high and low are the greatest and
the least of their prices, and the close the last. -/
structure Tracks (s : TimeStats) (ms : List MsgTrade) : Prop where
  size_eq : s.size = (ms.map MsgTrade.size).sum
  updated_iff : s.firstTimeUpdated = true ↔ ms ≠ []
  high_mem : ms ≠ [] → s.high ∈ ms.map MsgTrade.price
  le_high : ∀ m ∈ ms, m.price ≤ s.high
  low_mem : ms ≠ [] → s.low ∈ ms.map MsgTrade.price
  low_le : ∀ m ∈ ms, s.low ≤ m.price
  close_eq : ms.getLast?.map MsgTrade.price = if ms = [] then none else some s.close

theorem tracks_default : Tracks default [] where
  size_eq := rfl
  updated_iff := by simp [default]
  high_mem h := absurd rfl h
  le_high _ h := absurd h List.not_mem_nil
  low_mem h := absurd rfl h
  low_le _ h := absurd h List.not_mem_nil
  close_eq := rfl

theorem Tracks.rollover {s : TimeStats} {ms : List MsgTrade} (_h : Tracks s ms) : Tracks s.rollover [] where
  size_eq := rfl
  updated_iff := by simp [TimeStats.rollover]
  high_mem h := absurd rfl h
  le_high _ h := absurd h List.not_mem_nil
  low_mem h := absurd rfl h
  low_le _ h := absurd h List.not_mem_nil
  close_eq := rfl

theorem Tracks.first {s : TimeStats} (h : Tracks s []) (m : MsgTrade) : Tracks (updateStats s m).2 [m] := by
  have hs : s.firstTimeUpdated = false := by simpa using h.updated_iff
  rw [updateStats_of_first hs]
  refine ⟨?_, by simp, by simp, ?_, by simp, ?_, by simp⟩
  · simp [h.size_eq]
  · intro x hx
    rw [List.mem_singleton.1 hx]
    exact Int64.le_refl _
  · intro x hx
    rw [List.mem_singleton.1 hx]
    exact Int64.le_refl _

section Later

variable {s : TimeStats} (hs : s.firstTimeUpdated = true) (m : MsgTrade)
include hs

theorem high_updateStats : (updateStats s m).2.high = if m.price > s.high then m.price else s.high := by
  rw [updateStats_of_later hs]

theorem low_updateStats : (updateStats s m).2.low = if m.price < s.low then m.price else s.low := by
  rw [updateStats_of_later hs]

theorem fst_updateStats :
    (updateStats s m).1 = (decide (m.price > s.high) || decide (m.price < s.low) || decide (m.price ≠ s.close)) := by
  rw [updateStats_of_later hs]

end Later

@[simp] theorem size_updateStats (s : TimeStats) (m : MsgTrade) : (updateStats s m).2.size = s.size + m.size := by
  cases hs : s.firstTimeUpdated
  · rw [updateStats_of_first hs]
  · rw [updateStats_of_later hs]

theorem Tracks.later {s : TimeStats} {ms : List MsgTrade} (h : Tracks s ms) (hms : ms ≠ []) (m : MsgTrade) :
    Tracks (updateStats s m).2 (ms ++ [m]) := by
  have hs : s.firstTimeUpdated = true := h.updated_iff.2 hms
  refine ⟨?_, by simp, fun _ => ?_, fun x hx => ?_, fun _ => ?_, fun x hx => ?_, by simp⟩
  · simp [h.size_eq]
  · -- the new high is the trade's price or the old high
    rw [high_updateStats hs]
    split_ifs
    · simp
    · rw [List.map_append]
      exact List.mem_append_left _ (h.high_mem hms)
  · rw [high_updateStats hs]
    have hx' : x.price ≤ s.high ∨ x = m := by
      rcases List.mem_append.1 hx with hx | hx
      · exact .inl (h.le_high x hx)
      · exact .inr (List.mem_singleton.1 hx)
    rcases hx' with hle | rfl <;> split_ifs <;>
      simp only [gt_iff_lt, Int64.lt_iff_toInt_lt, Int64.le_iff_toInt_le] at * <;> omega
  · rw [low_updateStats hs]
    split_ifs
    · simp
    · rw [List.map_append]
      exact List.mem_append_left _ (h.low_mem hms)
  · rw [low_updateStats hs]
    have hx' : s.low ≤ x.price ∨ x = m := by
      rcases List.mem_append.1 hx with hx | hx
      · exact .inl (h.low_le x hx)
      · exact .inr (List.mem_singleton.1 hx)
    rcases hx' with hle | rfl <;> split_ifs <;>
      simp only [Int64.lt_iff_toInt_lt, Int64.le_iff_toInt_le] at * <;> omega

theorem Tracks.apply {s : TimeStats} {ms : List MsgTrade} (h : Tracks s ms) :
    ∀ e : BarEvent, Tracks (s.apply e) (sinceRollover ms e)
  | .rollover => h.rollover
  | .trade m => by
    by_cases hms : ms = []
    · subst hms
      exact h.first m
    · exact h.later hms m

/-- **What a run of the bar keeps**: after any trades and rollovers, the bar is the
bar of the trades since the last rollover. -/
theorem tracks_run (evs : List BarEvent) :
    Tracks (evs.foldl TimeStats.apply default) (evs.foldl sinceRollover []) := by
  -- the invariant, carried from any state that has it
  suffices ∀ (s : TimeStats) (ms : List MsgTrade), Tracks s ms →
      Tracks (evs.foldl TimeStats.apply s) (evs.foldl sinceRollover ms) from this _ _ tracks_default
  induction evs with
  | nil => exact fun _ _ h => h
  | cons e evs ih => exact fun s ms h => ih _ _ (h.apply e)

/-- The bar after a run from `TimeStats ()`. -/
def TimeStats.run (evs : List BarEvent) : TimeStats := evs.foldl TimeStats.apply default

/-- The trades of a run since its last rollover. -/
def tradesSinceRollover (evs : List BarEvent) : List MsgTrade := evs.foldl sinceRollover []

/-- The close is the price of the last trade, so it lies between low and high. -/
theorem Tracks.close_mem {s : TimeStats} {ms : List MsgTrade} (h : Tracks s ms) (hms : ms ≠ []) :
    ∃ x ∈ ms, x.price = s.close := by
  have hlast := h.close_eq
  rw [if_neg hms] at hlast
  obtain ⟨x, hx, hxc⟩ := Option.map_eq_some_iff.1 hlast
  exact ⟨x, List.mem_of_getLast? hx, hxc⟩

/-- `update_stats` returns `true` iff the trade is the first of its interval or it
moved the high, the low or the close. -/
theorem fst_updateStats_iff (s : TimeStats) (m : MsgTrade) :
    (updateStats s m).1 = true ↔
      s.firstTimeUpdated = false ∨ (updateStats s m).2.high ≠ s.high ∨ (updateStats s m).2.low ≠ s.low ∨
        (updateStats s m).2.close ≠ s.close := by
  cases hs : s.firstTimeUpdated
  · simp [updateStats_of_first hs]
  · rw [fst_updateStats hs, high_updateStats hs, low_updateStats hs, close_updateStats]
    -- a comparison that holds moves its field, and only then does the field move
    simp only [Bool.true_eq_false, false_or, Bool.or_eq_true, decide_eq_true_eq]
    split_ifs <;>
      simp only [gt_iff_lt, ne_eq, Int64.lt_iff_toInt_lt, ← Int64.toInt_inj, not_true_eq_false, false_or] at * <;>
      omega

theorem interval_bar (evs : List BarEvent) (m : MsgTrade) :
    (TimeStats.run evs).size = ((tradesSinceRollover evs).map MsgTrade.size).sum ∧
      ((TimeStats.run evs).firstTimeUpdated = true →
        (TimeStats.run evs).high ∈ (tradesSinceRollover evs).map MsgTrade.price ∧
        (∀ x ∈ tradesSinceRollover evs, x.price ≤ (TimeStats.run evs).high) ∧
        (TimeStats.run evs).low ∈ (tradesSinceRollover evs).map MsgTrade.price ∧
        (∀ x ∈ tradesSinceRollover evs, (TimeStats.run evs).low ≤ x.price) ∧
        (tradesSinceRollover evs).getLast?.map MsgTrade.price = some (TimeStats.run evs).close ∧
        (TimeStats.run evs).low ≤ (TimeStats.run evs).close ∧ (TimeStats.run evs).close ≤ (TimeStats.run evs).high) ∧
      ((updateStats (TimeStats.run evs) m).1 = true ↔
        tradesSinceRollover evs = [] ∨ (updateStats (TimeStats.run evs) m).2.high ≠ (TimeStats.run evs).high ∨
          (updateStats (TimeStats.run evs) m).2.low ≠ (TimeStats.run evs).low ∨
          (updateStats (TimeStats.run evs) m).2.close ≠ (TimeStats.run evs).close) := by
  have h : Tracks (TimeStats.run evs) (tradesSinceRollover evs) := tracks_run evs
  have hfirst : (TimeStats.run evs).firstTimeUpdated = false ↔ tradesSinceRollover evs = [] := by
    rw [← Bool.not_eq_true, h.updated_iff, not_not]
  refine ⟨h.size_eq, fun hu => ?_, by rw [fst_updateStats_iff, hfirst]⟩
  have hms := h.updated_iff.1 hu
  obtain ⟨x, hx, hxc⟩ := h.close_mem hms
  have hclose := h.close_eq
  rw [if_neg hms] at hclose
  exact ⟨h.high_mem hms, h.le_high, h.low_mem hms, h.low_le, hclose, hxc ▸ h.low_le x hx, hxc ▸ h.le_high x hx⟩

end Synapse.Trade
