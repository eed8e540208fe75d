import Mathlib
import Synapse.Theory.BoundedDeque
import Synapse.Theory.LastExtreme

/-!
# `AroonIndicator`, the lookback of the Aroon indicators

`AroonIndicator` (`elements/standard/aroon_indicator.hh`) keeps the last thirty prices
of a symbol in a `boost::circular_buffer`. On each price pushed, once the buffer is
full, `update_indicator` scans it from the oldest price on, with a backward counter
from `29` down to `0`. A price no smaller than the largest so far becomes the largest,
and the counter the ticks since the largest price; otherwise a price no larger than the
smallest so far becomes the smallest, and the counter the ticks since it. `Aroon Up` and
`Aroon Down` are `100 (1 - ticks / 30)`.

## The model

Prices are of any linear order: `double`s without `NaN`. The loop is `aroonLoop`, its
locals an `AroonScan`. The two indicators are kept as the ticks they are computed from,
the initial `0.0` as thirty ticks, and their getters compute the formula in `ℚ`, without
the rounding of `double`. `AroonIndicatorElement`, which feeds the close of each time
period to the indicator of its symbol and writes the indicators to a file, is modelled
in `AroonElement`.

## What is proved

* `AroonScan.Holds.step`: an iteration keeps the largest price with the position of its
  last occurrence, and the smallest with the position of its last occurrence; but while
  the prices so far are all equal, the `else` keeps an equal price from counting as the
  smallest, and the ticks since the smallest stay those of the first position.
* `aroon_lookback`: after thirty prices or more, the ticks since the largest price are
  `29` less the position in the window of its last occurrence, and so are the ticks since
  the smallest, unless the window starts with a run of equal prices that reaches the last
  smallest one: then they are `29`.
-/

namespace Synapse.Click

open Theory

/-- `_aroon_time_span`. -/
def AROON_TIME_SPAN : ℕ := 30

/-- `AroonIndicator`. -/
structure AroonIndicator (α : Type*) where
  /-- `_price_buffer`, of capacity `_aroon_time_span`. -/
  priceBuffer : BoundedDeque α
  /-- The ticks since the largest price, of which `_aroon_up_indicator` is computed. -/
  ticksSinceMaxPrice : ℤ
  /-- The ticks since the smallest price, of which `_aroon_down_indicator` is computed. -/
  ticksSinceMinPrice : ℤ

/-- The locals of the loop of `update_indicator`. -/
structure AroonScan (α : Type*) where
  /-- `minPrice`. -/
  minPrice : α
  /-- `maxPrice`. -/
  maxPrice : α
  /-- `ticksSinceMinPrice`. -/
  ticksSinceMinPrice : ℤ
  /-- `ticksSinceMaxPrice`. -/
  ticksSinceMaxPrice : ℤ

variable {α : Type*}

/-- `AroonIndicator ()`: an empty buffer, and both indicators `0.0`, which thirty ticks
give. -/
def AroonIndicator.new : AroonIndicator α :=
  ⟨BoundedDeque.empty AROON_TIME_SPAN (by decide), 30, 30⟩

/-- `get_aroon_up_indicator ()`: `100.0 * (1.0 - ticksSinceMaxPrice / _aroon_time_span)`. -/
def AroonIndicator.getAroonUpIndicator (a : AroonIndicator α) : ℚ :=
  100 * (1 - a.ticksSinceMaxPrice / AROON_TIME_SPAN)

/-- `get_aroon_down_indicator ()`: `100.0 * (1.0 - ticksSinceMinPrice / _aroon_time_span)`. -/
def AroonIndicator.getAroonDownIndicator (a : AroonIndicator α) : ℚ :=
  100 * (1 - a.ticksSinceMinPrice / AROON_TIME_SPAN)

/-- `get_aroon_oscillator ()`. -/
def AroonIndicator.getAroonOscillator (a : AroonIndicator α) : ℚ :=
  a.getAroonUpIndicator - a.getAroonDownIndicator

/-- Thirty ticks are the constructor's `0.0`. -/
theorem AroonIndicator.indicators_new :
    (AroonIndicator.new : AroonIndicator α).getAroonUpIndicator = 0 ∧
      (AroonIndicator.new : AroonIndicator α).getAroonDownIndicator = 0 := by
  constructor <;>
    simp only [AroonIndicator.new, AroonIndicator.getAroonUpIndicator, AroonIndicator.getAroonDownIndicator] <;>
    decide +kernel

/-- The prices up to position `i` all equal the first. -/
def FlatUpTo (prices : List α) (i : ℕ) : Prop :=
  ∀ j ≤ i, prices[j]? = prices[0]?

instance [DecidableEq α] (prices : List α) (i : ℕ) : Decidable (FlatUpTo prices i) :=
  inferInstanceAs (Decidable (∀ j ≤ i, _))

theorem flatUpTo_append_of_lt {prices : List α} {i : ℕ} (hi : i < prices.length) (ys : List α) :
    FlatUpTo (prices ++ ys) i ↔ FlatUpTo prices i := by
  refine forall₂_congr fun j hj => ?_
  rw [List.getElem?_append_left (by omega), List.getElem?_append_left (by omega)]

/-- Prices that are all `v` are flat up to any of their positions. -/
theorem flatUpTo_of_forall {prices : List α} {v : α} (hall : ∀ (j : ℕ) (y : α), prices[j]? = some y → y = v) {i : ℕ}
    (hi : i < prices.length) : FlatUpTo prices i := by
  intro j hj
  have hv : ∀ k < prices.length, prices[k]? = some v := fun k hk => by
    rw [List.getElem?_eq_getElem hk, hall k _ (List.getElem?_eq_getElem hk)]
  rw [hv j (by omega), hv 0 (by omega)]

variable [LinearOrder α]

/-- One iteration of the loop, on `currentPrice` at `backwardCounter`. -/
def AroonScan.step (s : AroonScan α) (currentPrice : α) (backwardCounter : ℤ) : AroonScan α :=
  if currentPrice ≥ s.maxPrice then { s with maxPrice := currentPrice, ticksSinceMaxPrice := backwardCounter }
  else if currentPrice ≤ s.minPrice then { s with minPrice := currentPrice, ticksSinceMinPrice := backwardCounter }
  else s

/-- `while ((iter != end) && (backwardCounter > -1))`, over the prices from `iter` on. -/
def aroonLoop : AroonScan α → List α → ℤ → AroonScan α
  | s, [], _ => s
  | s, currentPrice :: prices, backwardCounter =>
    if backwardCounter > -1 then aroonLoop (s.step currentPrice backwardCounter) prices (backwardCounter - 1)
    else s

/-- `update_indicator (price)`. -/
def AroonIndicator.updateIndicator (a : AroonIndicator α) (price : α) : AroonIndicator α :=
  let priceBuffer := a.priceBuffer.pushBackOverwrite price
  if priceBuffer.items.length < AROON_TIME_SPAN then { a with priceBuffer }
  else
    match priceBuffer.items with
    | [] => { a with priceBuffer }
    | first :: _ =>
      let s := aroonLoop ⟨first, first, 29, 29⟩ priceBuffer.items 29
      ⟨priceBuffer, s.ticksSinceMaxPrice, s.ticksSinceMinPrice⟩

/-! ### The loop -/

/-- What the loop has found after the prices `prices` of the window: the largest price
with `29 - i` ticks, `i` the position of its last occurrence; and the smallest, with
`29 - i` ticks for the position `i` of its last occurrence, unless the prices up to it are
all equal, when the ticks are those of the first position. -/
def AroonScan.Holds (s : AroonScan α) (prices : List α) : Prop :=
  (∃ i, IsLastMax prices i ∧ prices[i]? = some s.maxPrice ∧ s.ticksSinceMaxPrice = 29 - i) ∧
  ∃ i, IsLastMin prices i ∧ prices[i]? = some s.minPrice ∧
    s.ticksSinceMinPrice = 29 - ((if FlatUpTo prices i then 0 else i : ℕ) : ℤ)

/-- **One iteration** on the price at position `prices.length` of the window. -/
theorem AroonScan.Holds.step {s : AroonScan α} {prices : List α} (h : s.Holds prices) (x : α) :
    (s.step x (29 - prices.length)).Holds (prices ++ [x]) := by
  obtain ⟨⟨iM, hM, hMv, hMt⟩, im, hm, hmv, hmt⟩ := h
  have hiM : iM < prices.length := (List.getElem?_eq_some_iff.1 hMv).1
  have him : im < prices.length := (List.getElem?_eq_some_iff.1 hmv).1
  -- a price below an extreme leaves it, and its ticks, where they are
  have hkeepMax : x < s.maxPrice → ∃ i, IsLastMax (prices ++ [x]) i ∧ (prices ++ [x])[i]? = some s.maxPrice ∧
      s.ticksSinceMaxPrice = 29 - i :=
    fun hx => ⟨iM, hM.snoc_of_lt hMv hx, by rw [List.getElem?_append_left hiM]; exact hMv, hMt⟩
  have hkeepMin : s.minPrice < x → ∃ i, IsLastMin (prices ++ [x]) i ∧ (prices ++ [x])[i]? = some s.minPrice ∧
      s.ticksSinceMinPrice = 29 - ((if FlatUpTo (prices ++ [x]) i then 0 else i : ℕ) : ℤ) :=
    fun hx => ⟨im, hm.snoc_of_lt hmv hx, by rw [List.getElem?_append_left him]; exact hmv,
      by simp only [flatUpTo_append_of_lt him]; exact hmt⟩
  unfold AroonScan.step
  split_ifs with hmax hmin
  · -- a new largest price
    refine ⟨⟨prices.length, hM.snoc_of_le hMv hmax, List.getElem?_concat_length, rfl⟩, ?_⟩
    rcases lt_or_ge s.minPrice x with hlt | hle
    · exact hkeepMin hlt
    -- `x` is the smallest too: every price so far is equal, and the ticks stay the first's
    have hxm : x = s.minPrice := le_antisymm hle ((hm.le hmv hMv).trans hmax)
    have hall : ∀ (j : ℕ) (y : α), (prices ++ [x])[j]? = some y → y = s.minPrice := by
      intro j y hy
      rcases getElem?_snoc_eq_some hy with ⟨-, hy⟩ | ⟨-, rfl⟩
      · exact le_antisymm ((hM.le hMv hy).trans (hmax.trans hle)) (hm.le hmv hy)
      · exact hxm
    have hflat : FlatUpTo prices im := (flatUpTo_append_of_lt him [x]).1
      (flatUpTo_of_forall hall (by rw [List.length_append]; omega))
    refine ⟨prices.length, hm.snoc_of_le hmv hle, by rw [List.getElem?_concat_length, hxm], ?_⟩
    rw [hmt, if_pos hflat, if_pos (flatUpTo_of_forall hall (by simp))]
  · -- below the largest, and no larger than the smallest: a new smallest
    refine ⟨hkeepMax (lt_of_not_ge hmax), prices.length, hm.snoc_of_le hmv hmin, List.getElem?_concat_length, ?_⟩
    -- the prices up to `x` are not all equal, as the largest is above `x`
    have hnot : ¬ FlatUpTo (prices ++ [x]) prices.length := by
      intro hflat
      have h₁ := hflat iM (Nat.le_of_lt hiM)
      rw [← hflat prices.length le_rfl, List.getElem?_append_left hiM, hMv, List.getElem?_concat_length] at h₁
      exact hmax (Option.some.inj h₁).symm.ge
    rw [if_neg hnot]
  · exact ⟨hkeepMax (lt_of_not_ge hmax), hkeepMin (lt_of_not_ge hmin)⟩

/-- The loop over one more price, while the counter is not below `-1`. -/
theorem aroonLoop_snoc (s : AroonScan α) (prices : List α) (x : α) {c : ℤ} (hc : (prices.length : ℤ) ≤ c) :
    aroonLoop s (prices ++ [x]) c = (aroonLoop s prices c).step x (c - prices.length) := by
  induction prices generalizing s c with
  | nil =>
    have hc' : c > -1 := by simp at hc; omega
    simp [aroonLoop, hc']
  | cons p prices ih =>
    have hc' : c > -1 := by simp at hc; omega
    simp only [List.cons_append, aroonLoop, if_pos hc']
    rw [ih _ (by simp at hc; omega)]
    congr 1
    simp
    omega

/-- **The loop over the window**, from its first price, finds what `Holds` says. -/
theorem aroonLoop_holds {first : α} :
    ∀ prices : List α, prices ≠ [] → prices.length ≤ AROON_TIME_SPAN → prices[0]? = some first →
      (aroonLoop ⟨first, first, 29, 29⟩ prices 29).Holds prices := by
  intro prices
  induction prices using List.reverseRecOn with
  | nil => exact fun h => absurd rfl h
  | append_singleton prices x ih =>
    intro _ hlen h0
    rw [List.length_append, List.length_singleton] at hlen
    rcases eq_or_ne prices [] with rfl | hne
    · -- the first price: the largest and the smallest, at `29` ticks
      obtain rfl : x = first := Option.some.inj h0
      have hstep : aroonLoop ⟨x, x, 29, 29⟩ [x] 29 = ⟨x, x, 29, 29⟩ := by simp [aroonLoop, AroonScan.step]
      rw [List.nil_append, hstep]
      exact ⟨⟨0, IsLastMax.singleton x, rfl, rfl⟩, 0, IsLastMin.singleton x, rfl, by simp⟩
    · have h0' : prices[0]? = some first := by
        rwa [List.getElem?_append_left (List.length_pos_of_ne_nil hne)] at h0
      rw [aroonLoop_snoc _ _ _ (by unfold AROON_TIME_SPAN at hlen; omega)]
      exact (ih hne (by omega) h0').step x

/-! ### The indicator over a run of prices -/

theorem AroonIndicator.priceBuffer_updateIndicator (a : AroonIndicator α) (price : α) :
    (a.updateIndicator price).priceBuffer = a.priceBuffer.pushBackOverwrite price := by
  dsimp only [AroonIndicator.updateIndicator]
  split_ifs
  · rfl
  · split <;> rfl

theorem AroonIndicator.priceBuffer_foldl (prices : List α) (a : AroonIndicator α) :
    (prices.foldl AroonIndicator.updateIndicator a).priceBuffer = prices.foldl BoundedDeque.pushBackOverwrite a.priceBuffer := by
  induction prices generalizing a with
  | nil => rfl
  | cons p prices ih => rw [List.foldl_cons, List.foldl_cons, ih, AroonIndicator.priceBuffer_updateIndicator]

/-- A push that fills the buffer sets the ticks to what the loop finds over it. -/
theorem AroonIndicator.updateIndicator_of_full {a : AroonIndicator α} (hcap : a.priceBuffer.capacity = AROON_TIME_SPAN)
    {price : α} (h : AROON_TIME_SPAN ≤ (a.priceBuffer.pushBackOverwrite price).items.length) :
    ∃ s : AroonScan α, s.Holds (a.priceBuffer.pushBackOverwrite price).items ∧
      (a.updateIndicator price).ticksSinceMaxPrice = s.ticksSinceMaxPrice ∧
      (a.updateIndicator price).ticksSinceMinPrice = s.ticksSinceMinPrice := by
  have hle : (a.priceBuffer.pushBackOverwrite price).items.length ≤ AROON_TIME_SPAN :=
    hcap ▸ (a.priceBuffer.pushBackOverwrite price).length_le
  obtain ⟨first, rest, hfr⟩ : ∃ first rest, (a.priceBuffer.pushBackOverwrite price).items = first :: rest := by
    cases hitems : (a.priceBuffer.pushBackOverwrite price).items with
    | nil => rw [hitems] at h; simp [AROON_TIME_SPAN] at h
    | cons first rest => exact ⟨first, rest, rfl⟩
  have hnot : ¬ (first :: rest).length < AROON_TIME_SPAN := by rw [← hfr]; omega
  refine ⟨aroonLoop ⟨first, first, 29, 29⟩ (first :: rest) 29, ?_, ?_, ?_⟩
  · rw [hfr]
    exact aroonLoop_holds _ (List.cons_ne_nil _ _) (hfr ▸ hle) rfl
  all_goals simp only [AroonIndicator.updateIndicator, hfr, if_neg hnot]

/-- **The lookback of the indicators.** After thirty prices or more, the ticks since the
largest price of the window of the last thirty are `29` less the position of its last
occurrence, and so are the ticks since the smallest, unless the window starts with a run
of equal prices that reaches the last smallest one: then they are `29`. -/
theorem aroon_lookback (prices : List α) (h : AROON_TIME_SPAN ≤ prices.length) {iMax iMin : ℕ}
    (hmax : IsLastMax (prices.drop (prices.length - AROON_TIME_SPAN)) iMax)
    (hmin : IsLastMin (prices.drop (prices.length - AROON_TIME_SPAN)) iMin) :
    (prices.foldl AroonIndicator.updateIndicator AroonIndicator.new).ticksSinceMaxPrice = 29 - iMax ∧
      (prices.foldl AroonIndicator.updateIndicator AroonIndicator.new).ticksSinceMinPrice =
        29 - ((if FlatUpTo (prices.drop (prices.length - AROON_TIME_SPAN)) iMin then 0 else iMin : ℕ) : ℤ) := by
  obtain ⟨init, x, rfl⟩ : ∃ init x, prices = init ++ [x] := by
    rcases List.eq_nil_or_concat' prices with rfl | ⟨init, x, rfl⟩
    · simp [AROON_TIME_SPAN] at h
    · exact ⟨init, x, rfl⟩
  rw [List.foldl_append, List.foldl_cons, List.foldl_nil]
  -- the buffer holds the window of the last thirty prices
  have hcap : (init.foldl AroonIndicator.updateIndicator AroonIndicator.new).priceBuffer.capacity = AROON_TIME_SPAN := by
    rw [AroonIndicator.priceBuffer_foldl, BoundedDeque.capacity_foldl_pushBackOverwrite]
    rfl
  have hwin : ((init.foldl AroonIndicator.updateIndicator AroonIndicator.new).priceBuffer.pushBackOverwrite x).items =
      (init ++ [x]).drop ((init ++ [x]).length - AROON_TIME_SPAN) := by
    rw [AroonIndicator.priceBuffer_foldl]
    have hrun : (init.foldl BoundedDeque.pushBackOverwrite (AroonIndicator.new : AroonIndicator α).priceBuffer).pushBackOverwrite x =
        (init ++ [x]).foldl BoundedDeque.pushBackOverwrite (AroonIndicator.new : AroonIndicator α).priceBuffer := by
      rw [List.foldl_append]
      rfl
    rw [hrun, BoundedDeque.items_foldl_pushBackOverwrite]
    rfl
  have hlen : AROON_TIME_SPAN ≤
      ((init.foldl AroonIndicator.updateIndicator AroonIndicator.new).priceBuffer.pushBackOverwrite x).items.length := by
    rw [hwin, List.length_drop]
    omega
  obtain ⟨s, ⟨⟨i, hi, -, hit⟩, j, hj, -, hjt⟩, hM, hm⟩ := AroonIndicator.updateIndicator_of_full hcap hlen
  rw [hwin] at hi hj hjt
  rw [hM, hm, hit, hjt, hi.unique hmax, hj.unique hmin]
  exact ⟨rfl, rfl⟩

/-- Two prices of `5`, then twenty-eight of `7`: the last smallest is at position `1`. -/
def flatStartPrices : List ℕ := [5, 5] ++ List.replicate 28 7

theorem aroon_flat_start :
    IsLastMin flatStartPrices 1 ∧
      (flatStartPrices.foldl AroonIndicator.updateIndicator AroonIndicator.new).ticksSinceMinPrice = 29 := by
  have hmax : IsLastMax (flatStartPrices.drop (flatStartPrices.length - AROON_TIME_SPAN)) 29 := by decide
  have hmin : IsLastMin (flatStartPrices.drop (flatStartPrices.length - AROON_TIME_SPAN)) 1 := by decide
  have hflat : FlatUpTo (flatStartPrices.drop (flatStartPrices.length - AROON_TIME_SPAN)) 1 := by decide
  refine ⟨by decide, ?_⟩
  rw [(aroon_lookback flatStartPrices (by decide) hmax hmin).2, if_pos hflat]
  simp

end Synapse.Click
