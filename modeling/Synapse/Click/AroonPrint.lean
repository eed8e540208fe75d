import Synapse.Click.Aroon
import Synapse.Theory.FirstExtreme

/-!
# `AroonPrint`'s own Aroon indicator

`elements/standard/aroon_print.hh` carries a second `AroonIndicator`, for the element
`AroonPrint`. It keeps the same window of thirty prices in a `boost::circular_buffer`
and runs the same backward counter from `29` down to `0`, but it replaces the largest
price only on a strictly larger one (`currentPrice > maxPrice`) and the smallest only
on a strictly smaller one: where `aroon_indicator.hh` counts the ticks since the last
occurrence of an extreme, this one counts them since its first.

## The model

The class has the fields of `AroonIndicator`, so the model's `AroonIndicator` is reused,
with the ticks kept in place of the two `double` indicators; only the loop and
`updateIndicator` are this file's. Prices are of any linear order: `double`s without
`NaN`.

## What is proved

* `ScanHolds.step`: an iteration keeps the largest price with the position of its first
  occurrence, and the smallest with the position of its first occurrence. As a strictly
  larger price is never smaller than the smallest, the `else` changes nothing here.
* `aroon_print_lookback`: after thirty prices or more, the ticks since the largest and
  the smallest price of the window of the last thirty are `29` less the position of
  their first occurrence in it.
-/

namespace Synapse.Click

open Theory

variable {α : Type*} [LinearOrder α]

namespace AroonPrint

/-- One iteration of the loop of `AroonIndicator::updateIndicator`, on `currentPrice` at
`backwardCounter`. -/
def scanStep (s : AroonScan α) (currentPrice : α) (backwardCounter : ℤ) : AroonScan α :=
  if currentPrice > s.maxPrice then { s with maxPrice := currentPrice, ticksSinceMaxPrice := backwardCounter }
  else if currentPrice < s.minPrice then { s with minPrice := currentPrice, ticksSinceMinPrice := backwardCounter }
  else s

/-- `while ((iter != end) && (backwardCounter > -1))`, over the prices from `iter` on. -/
def scanLoop : AroonScan α → List α → ℤ → AroonScan α
  | s, [], _ => s
  | s, currentPrice :: prices, backwardCounter =>
    if backwardCounter > -1 then scanLoop (scanStep s currentPrice backwardCounter) prices (backwardCounter - 1)
    else s

/-- `updateIndicator (price)`. -/
def updateIndicator (a : AroonIndicator α) (price : α) : AroonIndicator α :=
  let priceBuffer := a.priceBuffer.pushBackOverwrite price
  if priceBuffer.items.length < AROON_TIME_SPAN then { a with priceBuffer }
  else
    match priceBuffer.items with
    | [] => { a with priceBuffer }
    | first :: _ =>
      let s := scanLoop ⟨first, first, 29, 29⟩ priceBuffer.items 29
      ⟨priceBuffer, s.ticksSinceMaxPrice, s.ticksSinceMinPrice⟩

/-! ### The loop -/

/-- What the loop has found after the prices `prices` of the window: the largest and the
smallest price, each with `29 - i` ticks for the position `i` of its first occurrence. -/
def ScanHolds (s : AroonScan α) (prices : List α) : Prop :=
  (∃ i, IsFirstMax prices i ∧ prices[i]? = some s.maxPrice ∧ s.ticksSinceMaxPrice = 29 - i) ∧
  ∃ i, IsFirstMin prices i ∧ prices[i]? = some s.minPrice ∧ s.ticksSinceMinPrice = 29 - i

/-- **One iteration** on the price at position `prices.length` of the window. -/
theorem ScanHolds.step {s : AroonScan α} {prices : List α} (h : ScanHolds s prices) (x : α) :
    ScanHolds (scanStep s x (29 - prices.length)) (prices ++ [x]) := by
  obtain ⟨⟨iM, hM, hMv, hMt⟩, im, hm, hmv, hmt⟩ := h
  have hiM : iM < prices.length := (List.getElem?_eq_some_iff.1 hMv).1
  have him : im < prices.length := (List.getElem?_eq_some_iff.1 hmv).1
  -- a price no larger than the largest, or no smaller than the smallest, leaves it
  have hkeepMax : x ≤ s.maxPrice → ∃ i, IsFirstMax (prices ++ [x]) i ∧ (prices ++ [x])[i]? = some s.maxPrice ∧
      s.ticksSinceMaxPrice = 29 - i :=
    fun hx => ⟨iM, hM.snoc_of_le hMv hx, by rw [List.getElem?_append_left hiM]; exact hMv, hMt⟩
  have hkeepMin : s.minPrice ≤ x → ∃ i, IsFirstMin (prices ++ [x]) i ∧ (prices ++ [x])[i]? = some s.minPrice ∧
      s.ticksSinceMinPrice = 29 - i :=
    fun hx => ⟨im, hm.snoc_of_le hmv hx, by rw [List.getElem?_append_left him]; exact hmv, hmt⟩
  unfold scanStep
  split_ifs with hmax hmin
  · -- a new largest price, above the smallest as well
    have hminx : s.minPrice ≤ x := ((hm.le hmv hMv).trans hmax.le)
    exact ⟨⟨prices.length, hM.snoc_of_lt hMv hmax, List.getElem?_concat_length, rfl⟩, hkeepMin hminx⟩
  · exact ⟨hkeepMax (not_lt.1 hmax), prices.length, hm.snoc_of_lt hmv hmin, List.getElem?_concat_length, rfl⟩
  · exact ⟨hkeepMax (not_lt.1 hmax), hkeepMin (not_lt.1 hmin)⟩

/-- The loop over one more price, while the counter is not below `-1`. -/
theorem scanLoop_snoc (s : AroonScan α) (prices : List α) (x : α) {c : ℤ} (hc : (prices.length : ℤ) ≤ c) :
    scanLoop s (prices ++ [x]) c = scanStep (scanLoop s prices c) x (c - prices.length) := by
  induction prices generalizing s c with
  | nil =>
    have hc' : c > -1 := by simp at hc; omega
    simp [scanLoop, hc']
  | cons p prices ih =>
    have hc' : c > -1 := by simp at hc; omega
    simp only [List.cons_append, scanLoop, if_pos hc']
    rw [ih _ (by simp at hc; omega)]
    congr 1
    simp
    omega

/-- **The loop over the window**, from its first price, finds what `ScanHolds` says. -/
theorem scanLoop_holds {first : α} :
    ∀ prices : List α, prices ≠ [] → prices.length ≤ AROON_TIME_SPAN → prices[0]? = some first →
      ScanHolds (scanLoop ⟨first, first, 29, 29⟩ prices 29) prices := by
  intro prices
  induction prices using List.reverseRecOn with
  | nil => exact fun h => absurd rfl h
  | append_singleton prices x ih =>
    intro _ hlen h0
    rw [List.length_append, List.length_singleton] at hlen
    rcases eq_or_ne prices [] with rfl | hne
    · -- the first price: the largest and the smallest, at `29` ticks
      obtain rfl : x = first := Option.some.inj h0
      have hstep : scanLoop ⟨x, x, 29, 29⟩ [x] 29 = ⟨x, x, 29, 29⟩ := by simp [scanLoop, scanStep]
      rw [List.nil_append, hstep]
      exact ⟨⟨0, IsFirstMax.singleton x, rfl, rfl⟩, 0, IsFirstMin.singleton x, rfl, rfl⟩
    · have h0' : prices[0]? = some first := by
        rwa [List.getElem?_append_left (List.length_pos_of_ne_nil hne)] at h0
      rw [scanLoop_snoc _ _ _ (by unfold AROON_TIME_SPAN at hlen; omega)]
      exact (ih hne (by omega) h0').step x

/-! ### The indicator over a run of prices -/

theorem priceBuffer_updateIndicator (a : AroonIndicator α) (price : α) :
    (updateIndicator a price).priceBuffer = a.priceBuffer.pushBackOverwrite price := by
  dsimp only [updateIndicator]
  split_ifs
  · rfl
  · split <;> rfl

theorem priceBuffer_foldl (prices : List α) (a : AroonIndicator α) :
    (prices.foldl updateIndicator a).priceBuffer = prices.foldl BoundedDeque.pushBackOverwrite a.priceBuffer := by
  induction prices generalizing a with
  | nil => rfl
  | cons p prices ih => rw [List.foldl_cons, List.foldl_cons, ih, priceBuffer_updateIndicator]

/-- The buffer after a run holds the last thirty prices. -/
theorem items_priceBuffer_foldl (prices : List α) :
    (prices.foldl updateIndicator AroonIndicator.new).priceBuffer.items =
      prices.drop (prices.length - AROON_TIME_SPAN) := by
  rw [priceBuffer_foldl, BoundedDeque.items_foldl_pushBackOverwrite]
  rfl

/-- A push that fills the buffer sets the ticks to what the loop finds over it. -/
theorem updateIndicator_of_full {a : AroonIndicator α} (hcap : a.priceBuffer.capacity = AROON_TIME_SPAN) {price : α}
    (h : AROON_TIME_SPAN ≤ (a.priceBuffer.pushBackOverwrite price).items.length) :
    ∃ s : AroonScan α, ScanHolds s (a.priceBuffer.pushBackOverwrite price).items ∧
      (updateIndicator a price).ticksSinceMaxPrice = s.ticksSinceMaxPrice ∧
      (updateIndicator a price).ticksSinceMinPrice = s.ticksSinceMinPrice := by
  have hle : (a.priceBuffer.pushBackOverwrite price).items.length ≤ AROON_TIME_SPAN :=
    hcap ▸ (a.priceBuffer.pushBackOverwrite price).length_le
  obtain ⟨first, rest, hfr⟩ : ∃ first rest, (a.priceBuffer.pushBackOverwrite price).items = first :: rest := by
    cases hitems : (a.priceBuffer.pushBackOverwrite price).items with
    | nil => rw [hitems] at h; simp [AROON_TIME_SPAN] at h
    | cons first rest => exact ⟨first, rest, rfl⟩
  have hnot : ¬ (first :: rest).length < AROON_TIME_SPAN := by rw [← hfr]; omega
  refine ⟨scanLoop ⟨first, first, 29, 29⟩ (first :: rest) 29, ?_, ?_, ?_⟩
  · rw [hfr]
    exact scanLoop_holds _ (List.cons_ne_nil _ _) (hfr ▸ hle) rfl
  all_goals simp only [updateIndicator, hfr, if_neg hnot]

end AroonPrint

/-- **The lookback of `AroonPrint`'s indicators.** After thirty prices or more, the ticks
since the largest price of the window of the last thirty are `29` less the position of
its first occurrence in the window, and the ticks since the smallest `29` less the
position of its first occurrence. -/
theorem aroon_print_lookback (prices : List α) (h : AROON_TIME_SPAN ≤ prices.length) {iMax iMin : ℕ}
    (hmax : IsFirstMax (prices.drop (prices.length - AROON_TIME_SPAN)) iMax)
    (hmin : IsFirstMin (prices.drop (prices.length - AROON_TIME_SPAN)) iMin) :
    (prices.foldl AroonPrint.updateIndicator AroonIndicator.new).ticksSinceMaxPrice = 29 - iMax ∧
      (prices.foldl AroonPrint.updateIndicator AroonIndicator.new).ticksSinceMinPrice = 29 - iMin := by
  obtain ⟨init, x, rfl⟩ : ∃ init x, prices = init ++ [x] := by
    rcases List.eq_nil_or_concat' prices with rfl | ⟨init, x, rfl⟩
    · simp [AROON_TIME_SPAN] at h
    · exact ⟨init, x, rfl⟩
  rw [List.foldl_append, List.foldl_cons, List.foldl_nil]
  -- the buffer before the last push has the capacity thirty, and after it the window
  have hcap : (init.foldl AroonPrint.updateIndicator AroonIndicator.new).priceBuffer.capacity = AROON_TIME_SPAN := by
    rw [AroonPrint.priceBuffer_foldl, BoundedDeque.capacity_foldl_pushBackOverwrite]
    rfl
  have hwin : ((init.foldl AroonPrint.updateIndicator AroonIndicator.new).priceBuffer.pushBackOverwrite x).items =
      (init ++ [x]).drop ((init ++ [x]).length - AROON_TIME_SPAN) := by
    have hrun : AroonPrint.updateIndicator (init.foldl AroonPrint.updateIndicator AroonIndicator.new) x =
        (init ++ [x]).foldl AroonPrint.updateIndicator AroonIndicator.new := by
      rw [List.foldl_append, List.foldl_cons, List.foldl_nil]
    rw [← AroonPrint.priceBuffer_updateIndicator, hrun, AroonPrint.items_priceBuffer_foldl]
  have hlen : AROON_TIME_SPAN ≤
      ((init.foldl AroonPrint.updateIndicator AroonIndicator.new).priceBuffer.pushBackOverwrite x).items.length := by
    rw [hwin, List.length_drop]
    omega
  obtain ⟨s, ⟨⟨i, hi, -, hit⟩, j, hj, -, hjt⟩, hM, hm⟩ := AroonPrint.updateIndicator_of_full hcap hlen
  rw [hwin] at hi hj
  rw [hM, hm, hit, hjt, hi.unique hmax, hj.unique hmin]
  exact ⟨rfl, rfl⟩

/-- Thirty prices whose largest, `7`, and smallest, `5`, both occur twice. -/
def tiedPrices : List ℕ := [5, 7] ++ List.replicate 26 6 ++ [7, 5]

/-- The ticks count from the first occurrences: `28` since the `7` at position `1`, `29`
since the `5` at position `0`. -/
theorem aroon_print_ties :
    AROON_TIME_SPAN ≤ tiedPrices.length ∧ IsFirstMax (tiedPrices.drop (tiedPrices.length - AROON_TIME_SPAN)) 1 ∧
      IsFirstMin (tiedPrices.drop (tiedPrices.length - AROON_TIME_SPAN)) 0 ∧
      (tiedPrices.foldl AroonPrint.updateIndicator AroonIndicator.new).ticksSinceMaxPrice = 28 ∧
      (tiedPrices.foldl AroonPrint.updateIndicator AroonIndicator.new).ticksSinceMinPrice = 29 := by
  have hlen : AROON_TIME_SPAN ≤ tiedPrices.length := by decide
  have hmax : IsFirstMax (tiedPrices.drop (tiedPrices.length - AROON_TIME_SPAN)) 1 := by decide
  have hmin : IsFirstMin (tiedPrices.drop (tiedPrices.length - AROON_TIME_SPAN)) 0 := by decide
  have h := aroon_print_lookback tiedPrices hlen hmax hmin
  exact ⟨hlen, hmax, hmin, h.1.trans (by norm_num), h.2.trans (by norm_num)⟩

end Synapse.Click
