import Synapse.Click.WindowElements
import Synapse.Click.ModeAgreement

/-!
# The window elements agree with themselves across modes

An `Incremental` certificate for each of the eleven window elements of the DMI and
Vortex pipelines, and with them the agreement of the `NAIVE` and the
`STARTUP`/`NORMAL` configurations of each.

## The caches

Every element but `Sum` remembers, between rounds, at most one value of each port:
the newest committed one, which `process_naive` reads as `operator[] (1)` of the
window and `process_opt_ext` from the saved cache. `process_ext` and
`process_opt_ext` then build the same `_local_cache` (`Incremental.ofOut`).

`Sum` keeps the window of port `0` as it was after the last `ADD` in the ring
buffer of cell `2`, and its sum in cell `1` (`SumCache`). `process_opt_ext`
copies that ring buffer, pushes the round's value into it, dropping the oldest
when it is full, and follows with the sum; the sum of the window is the one
`calculate_sum_recursive` computes, as words add modulo `2 ^ 64` in any order.

## What is proved

`window_modes_agree`: for each element of `windowElements`, wired to at least the
ports it reads and with windows of at least two values, the two configurations
return on every stream of an `INIT` round and then `ADD` and `UPDATE` rounds, and
give the same packets.
-/

namespace Synapse.Click

open FixedPt Buffers IndicatorBase

/-- `increments[i]`: the round's value of port `i`. -/
theorem getD_increments {vals : ℕ → FixedPt} {k i : ℕ} (hi : i < k) (d : FixedPt) :
    ((List.range k).map vals).getD i d = vals i := by
  simp [List.getD_eq_getElem?_getD, hi]

section Certificates

variable {E : Indicator} {k c : ℕ}

/-- A certificate for an element whose `process_ext` and `process_opt_ext` build the
same `_local_cache`, `out lc vals v`, after a round of values `vals` whose value is
`v = result vals row`, `row` being the newest committed row before the round. -/
def Incremental.ofOut (Rel : VectorCache → List (ℕ → FixedPt) → Prop) (Local : VectorCache → Prop)
    (result : (ℕ → FixedPt) → (ℕ → FixedPt) → FixedPt)
    (out : VectorCache → (ℕ → FixedPt) → FixedPt → VectorCache)
    (local_init : Local E.localCache) (init_some : ∀ b, (E.initializeElement b).isSome)
    (naive : ∀ b vals row rs, RoundWindows k c b vals (row :: rs) →
      E.processNaive b = some (result vals row))
    (ext : ∀ lc b vals row rs, RoundWindows k c b vals (row :: rs) →
      E.processExt lc b = some (out lc vals (result vals row)))
    (opt : ∀ lc cache b vals row rs, Rel cache (row :: rs) → RoundWindows k c b vals (row :: rs) →
      E.processOptExt lc ((List.range k).map vals) cache = some (out lc vals (result vals row)))
    (out_spec : ∀ lc vals v rows, Local lc →
      (out lc vals v).value 0 = v ∧ Local (out lc vals v) ∧ Rel (copyCache (out lc vals v)) (vals :: rows)) :
    Incremental E k c where
  Rel := Rel
  Local := Local
  local_init := local_init
  init_some := init_some
  ext lc b vals rows hl hrows _ hw := by
    obtain ⟨row, rs, rfl⟩ := List.exists_cons_of_ne_nil hrows
    obtain ⟨h0, hL, hR⟩ := out_spec lc vals (result vals row) (row :: rs) hl
    exact ⟨_, _, naive b vals row rs hw, ext lc b vals row rs hw, h0, hL, hR⟩
  opt lc cache b vals rows hl hrows _ hrel hw := by
    obtain ⟨row, rs, rfl⟩ := List.exists_cons_of_ne_nil hrows
    obtain ⟨h0, hL, hR⟩ := out_spec lc vals (result vals row) (row :: rs) hl
    exact ⟨_, _, naive b vals row rs hw, opt lc cache b vals row rs hrel hw, h0, hL, hR⟩

/-! ### `Pdm` and `Ndm` -/

section Directional

variable (calculate : FixedPt → FixedPt → FixedPt → FixedPt → FixedPt) {b : Buffers FixedPt}
  {vals row : ℕ → FixedPt} {rs : List (ℕ → FixedPt)}

theorem directionalNaive_of_windows (hw : RoundWindows k c b vals (row :: rs)) (hk : 2 ≤ k)
    (hc : 2 ≤ c) : directionalNaive calculate b = calculate (vals 1) (row 1) (vals 0) (row 0) := by
  simp only [directionalNaive, hw.get_zero (show 0 < k by omega), hw.get_zero (show 1 < k by omega),
    hw.get_one (show 0 < k by omega) hc, hw.get_one (show 1 < k by omega) hc]

/-- `Pdm` and `Ndm` keep the newest committed high and low in cells `1` and `2`. -/
def directionalIncremental (hk : 2 ≤ k) (hc : 2 ≤ c) : Incremental (directional calculate) k c :=
  Incremental.ofOut (fun cache rows => ∀ row ∈ rows.head?, cache.value 1 = row 0 ∧ cache.value 2 = row 1)
    (fun lc => lc.length = 3) (fun vals row => calculate (vals 1) (row 1) (vals 0) (row 0))
    (fun lc vals v => ((lc.setValue 0 v).setValue 1 (vals 0)).setValue 2 (vals 1))
    (by simp [directional, freshCache]) (fun _ => rfl)
    (fun b vals row rs hw => by
      rw [← directionalNaive_of_windows calculate hw hk hc]
      rfl)
    (fun lc b vals row rs hw => by
      simp only [directional, directionalExt, directionalNaive_of_windows calculate hw hk hc,
        hw.get_zero (show 0 < k by omega), hw.get_zero (show 1 < k by omega)])
    (fun lc cache b vals row rs hrel hw => by
      obtain ⟨hhigh, hlow⟩ := hrel row rfl
      simp only [directional, directionalOptExt, getD_increments (show 0 < k by omega),
        getD_increments (show 1 < k by omega), hhigh, hlow])
    (fun lc vals v rows hl => by
      refine ⟨by simp [hl], by simp [hl], fun row hrow => ?_⟩
      obtain rfl : vals = row := by simpa using hrow
      simp [hl])

end Directional

/-! ### `NewTrueRange` -/

theorem newTrueRangeNaive_of_windows {b : Buffers FixedPt} {vals row : ℕ → FixedPt}
    {rs : List (ℕ → FixedPt)} (hw : RoundWindows k c b vals (row :: rs)) (hk : 3 ≤ k) (hc : 2 ≤ c) :
    newTrueRangeNaive b = calculateTr (vals 1) (vals 0) (row 2) := by
  simp only [newTrueRangeNaive, hw.get_zero (show 0 < k by omega), hw.get_zero (show 1 < k by omega),
    hw.get_one (show 2 < k by omega) hc]

/-- `NewTrueRange` keeps the newest committed close in cell `1`. -/
def newTrueRangeIncremental (hk : 3 ≤ k) (hc : 2 ≤ c) : Incremental newTrueRange k c :=
  Incremental.ofOut (fun cache rows => ∀ row ∈ rows.head?, cache.value 1 = row 2)
    (fun lc => lc.length = 2) (fun vals row => calculateTr (vals 1) (vals 0) (row 2))
    (fun lc vals v => (lc.setValue 0 v).setValue 1 (vals 2))
    (by simp [newTrueRange, freshCache]) (fun _ => rfl)
    (fun b vals row rs hw => by
      rw [← newTrueRangeNaive_of_windows hw hk hc]
      rfl)
    (fun lc b vals row rs hw => by
      simp only [newTrueRange, newTrueRangeNaive_of_windows hw hk hc, hw.get_zero (show 2 < k by omega)])
    (fun lc cache b vals row rs hrel hw => by
      simp only [newTrueRange, getD_increments (show 0 < k by omega),
        getD_increments (show 1 < k by omega), getD_increments (show 2 < k by omega), hrel row rfl])
    (fun lc vals v rows hl => by
      refine ⟨by simp [hl], by simp [hl], fun row hrow => ?_⟩
      obtain rfl : vals = row := by simpa using hrow
      simp [hl])

/-! ### `Vmu` and `Vmd` -/

theorem movementNaive_of_windows {newPort prevPort : ℕ} {b : Buffers FixedPt} {vals row : ℕ → FixedPt}
    {rs : List (ℕ → FixedPt)} (hw : RoundWindows k c b vals (row :: rs)) (hn : newPort < k)
    (hp : prevPort < k) (hc : 2 ≤ c) :
    movementNaive newPort prevPort b = fptAbs (vals newPort - row prevPort) := by
  simp only [movementNaive, hw.get_zero hn, hw.get_one hp hc]

/-- `Vmu` and `Vmd` keep the newest committed value of `prevPort` in cell `1`. -/
def movementIncremental {newPort prevPort : ℕ} (hn : newPort < k) (hp : prevPort < k) (hc : 2 ≤ c) :
    Incremental (movement newPort prevPort) k c :=
  Incremental.ofOut (fun cache rows => ∀ row ∈ rows.head?, cache.value 1 = row prevPort)
    (fun lc => lc.length = 2) (fun vals row => fptAbs (vals newPort - row prevPort))
    (fun lc vals v => (lc.setValue 0 v).setValue 1 (vals prevPort))
    (by simp [movement, freshCache]) (fun _ => rfl)
    (fun b vals row rs hw => by
      rw [← movementNaive_of_windows hw hn hp hc]
      rfl)
    (fun lc b vals row rs hw => by
      simp only [movement, movementNaive_of_windows hw hn hp hc, hw.get_zero hp])
    (fun lc cache b vals row rs hrel hw => by
      simp only [movement, getD_increments hn, getD_increments hp, hrel row rfl])
    (fun lc vals v rows hl => by
      refine ⟨by simp [hl], by simp [hl], fun row hrow => ?_⟩
      obtain rfl : vals = row := by simpa using hrow
      simp [hl])

/-! ### `Pdi`, `Ndi`, `Viu`, `Vid` and `Dx` -/

/-- The four ratio elements remember nothing between rounds. -/
def ratioIncremental (hk : 2 ≤ k) : Incremental ratio k c :=
  Incremental.ofOut (fun _ _ => True) (fun lc => lc.length = 1)
    (fun vals _ => guardedDiv (vals 0) (vals 1)) (fun lc _ v => lc.setValue 0 v)
    (by simp [ratio, freshCache]) (fun _ => rfl)
    (fun b vals row rs hw => by
      simp only [ratio, ratioNaive, hw.get_zero (show 0 < k by omega), hw.get_zero (show 1 < k by omega)])
    (fun lc b vals row rs hw => by
      simp only [ratio, ratioNaive, hw.get_zero (show 0 < k by omega), hw.get_zero (show 1 < k by omega)])
    (fun lc cache b vals row rs _ hw => by
      simp only [ratio, getD_increments (show 0 < k by omega), getD_increments (show 1 < k by omega)])
    (fun lc vals v rows hl => ⟨by simp [hl], by simp [hl], trivial⟩)

/-- `Dx` remembers nothing between rounds. -/
def dxIncremental (hk : 2 ≤ k) : Incremental dx k c :=
  Incremental.ofOut (fun _ _ => True) (fun lc => lc.length = 1)
    (fun vals _ => calculateDx (vals 0) (vals 1)) (fun lc _ v => lc.setValue 0 v)
    (by simp [dx, freshCache]) (fun _ => rfl)
    (fun b vals row rs hw => by
      simp only [dx, hw.get_zero (show 0 < k by omega), hw.get_zero (show 1 < k by omega)])
    (fun lc b vals row rs hw => by
      simp only [dx, hw.get_zero (show 0 < k by omega), hw.get_zero (show 1 < k by omega)])
    (fun lc cache b vals row rs _ hw => by
      simp only [dx, getD_increments (show 0 < k by omega), getD_increments (show 1 < k by omega)])
    (fun lc vals v rows hl => ⟨by simp [hl], by simp [hl], trivial⟩)

/-! ### `Sum` -/

section Sum

variable {a : CircArray FixedPt}

theorem calculateSumRecursive_single (h : a.Wf) {x : FixedPt} (hl : a.toList = [x]) :
    calculateSumRecursive a = some x := by
  have hsize : a.occupancy = 1 := by simpa [CircArray.occupancy] using congrArg List.length hl
  rw [calculateSumRecursive, if_pos hsize, CircArray.popFront_fst_of_toList h hl]

theorem calculateSumRecursive_cons (h : a.Wf) {x y : FixedPt} {l : List FixedPt}
    (hl : a.toList = x :: y :: l) :
    calculateSumRecursive a = (calculateSumRecursive a.popFront.2).map (x + ·) := by
  have hsize : a.size = l.length + 2 := by simpa using congrArg List.length hl
  rw [calculateSumRecursive, if_neg (show ¬ a.occupancy = 1 by rw [CircArray.occupancy]; omega),
    if_neg (by omega), CircArray.popFront_fst_of_toList h hl]

/-- **`calculate_sum_recursive` sums the words** of two values or more. -/
theorem calculateSumRecursive_eq (h : a.Wf) (hl : 2 ≤ a.toList.length) :
    calculateSumRecursive a = some (fromC ((a.toList.map FixedPt.value).sum)) := by
  -- induction on the contents: each call pops the front
  generalize hxs : a.toList = xs at hl
  induction xs generalizing a with
  | nil => simp at hl
  | cons x l ih =>
    obtain ⟨y, l, rfl⟩ := List.exists_cons_of_ne_nil (show l ≠ [] by rintro rfl; simp at hl)
    have hrest : a.popFront.2.toList = y :: l := by rw [CircArray.toList_popFront, hxs, List.tail_cons]
    rw [calculateSumRecursive_cons h hxs]
    cases l with
    | nil => simp [calculateSumRecursive_single h.popFront hrest, add_def]
    | cons z l => simp [ih h.popFront hrest (by simp), add_def]

variable {b : Buffers FixedPt} {vals : ℕ → FixedPt} {rows : List (ℕ → FixedPt)}

/-- `Sum::process_naive` over windows of two values or more. -/
theorem sumNaive_of_windows (hw : RoundWindows k c b vals rows) (hk : 0 < k) (hc : 2 ≤ c)
    (hrows : rows ≠ []) :
    sumNaive b = some (fromC (((vals 0 :: (column rows 0).take (c - 1)).map FixedPt.value).sum)) := by
  obtain ⟨hwf, -, hl⟩ := hw 0 hk
  have hcopy : (b.buffers 0).copy.toList = vals 0 :: (column rows 0).take (c - 1) := by
    rw [CircArray.toList_copy hwf, hl]
  have hlen : 2 ≤ (b.buffers 0).copy.toList.length := by
    have := List.length_pos_iff.2 hrows
    simp only [hcopy, List.length_cons, List.length_take, length_column]
    omega
  rw [sumNaive, calculateSumRecursive_eq hwf.copy hlen, hcopy]

theorem take_column_cons (hc : 0 < c) (i : ℕ) :
    (column (vals :: rows) i).take c = vals i :: (column rows i).take (c - 1) := by
  obtain ⟨c', rfl⟩ : ∃ c', c = c' + 1 := ⟨c - 1, by omega⟩
  rfl

/-- What `Sum`'s cache saved after the committed `rows` holds: the window of port
`0` in the ring buffer of cell `2`, and its sum in cell `1`. -/
structure SumCache (c : ℕ) (cache : VectorCache) (rows : List (ℕ → FixedPt)) : Prop where
  wf : (cache.ringBuffer 2).Wf
  capacity : (cache.ringBuffer 2).capacity = c
  contents : (cache.ringBuffer 2).toList = (column rows 0).take c
  sum : cache.value 1 = fromC ((((column rows 0).take c).map FixedPt.value).sum)

/-- What a round whose value on port `0` is `x` leaves in `Sum`'s `_local_cache`,
after the committed `rows`: the new window in the ring buffer of cell `2`, and its
sum in cells `0` and `1`. -/
structure SumLocal (c : ℕ) (x : FixedPt) (rows : List (ℕ → FixedPt)) (lc : VectorCache) : Prop where
  length : lc.length = 3
  wf : (lc.ringBuffer 2).Wf
  capacity : (lc.ringBuffer 2).capacity = c
  contents : (lc.ringBuffer 2).toList = x :: (column rows 0).take (c - 1)
  value_zero : lc.value 0 = fromC (((x :: (column rows 0).take (c - 1)).map FixedPt.value).sum)
  value_one : lc.value 1 = lc.value 0

/-- A round's cache, copied at an `ADD`, is the cache the next rounds read. -/
theorem SumLocal.sumCache {lc : VectorCache} (h : SumLocal c (vals 0) rows lc) (hc : 0 < c) :
    SumCache c (copyCache lc) (vals :: rows) := by
  have hrb : (copyCache lc).ringBuffer 2 = (lc.ringBuffer 2).copy :=
    ringBuffer_copyCache (by rw [h.length]; omega)
  refine ⟨?_, ?_, ?_, ?_⟩
  · rw [hrb]
    exact h.wf.copy
  · rw [hrb, CircArray.capacity_copy, h.capacity]
  · rw [hrb, CircArray.toList_copy h.wf, h.contents, take_column_cons hc]
  · rw [value_copyCache, h.value_one, h.value_zero, take_column_cons hc]

/-- `Sum::process_ext` leaves the round's window and its sum. -/
theorem sum_processExt {lc : VectorCache} (hlc : lc.length = 3) (hw : RoundWindows k c b vals rows)
    (hk : 0 < k) (hc : 2 ≤ c) (hrows : rows ≠ []) :
    ∃ lc', sum.processExt lc b = some lc' ∧ SumLocal c (vals 0) rows lc' := by
  obtain ⟨hwf, hcap, hl⟩ := hw 0 hk
  set v := fromC (((vals 0 :: (column rows 0).take (c - 1)).map FixedPt.value).sum)
  set lc₁ := (lc.setValue 0 v).setValue 1 v
  have hrb : (lc₁.setRingBuffer 2 (b.buffers 0)).ringBuffer 2 = (lc₁.ringBuffer 2).assign (b.buffers 0) :=
    VectorCache.ringBuffer_setRingBuffer_self (by simp [lc₁, hlc]) (b.buffers 0)
  have hext : sum.processExt lc b = some (lc₁.setRingBuffer 2 (b.buffers 0)) := by
    show (sumNaive b).map _ = _
    rw [sumNaive_of_windows hw hk hc hrows]
    rfl
  refine ⟨_, hext, by simp [lc₁, hlc], ?_, ?_, ?_, by simp [lc₁, v, hlc], by simp [lc₁, hlc]⟩
  · rw [hrb]
    exact hwf.assign _
  · rw [hrb, CircArray.capacity_assign, hcap]
  · rw [hrb, CircArray.toList_assign _ hwf, hl]

variable {w : CircArray FixedPt} {l : List FixedPt} {s : FixedPt}

theorem sumShift_of_full (hfull : w.isFull = true) (x : FixedPt) :
    sumShift w s x = (s - w.popBack.1 + x, (w.popBack.2.pushFront x false).2) := if_pos hfull

theorem sumShift_of_not_full (hfull : w.isFull = false) (x : FixedPt) :
    sumShift w s x = (s + x, (w.pushFront x false).2) := if_neg (by simp [hfull])

/-- **The window shift of `Sum`**: on a window of capacity `c` holding the first
`c` values of `l`, and their sum, `sumShift` gives the window of `x` in front of the
first `c - 1`, and its sum, whether the oldest value is popped out or not. -/
theorem sumShift_spec (hw : w.Wf) (hcap : w.capacity = c) (hl : w.toList = l.take c)
    (hs : s.value = ((l.take c).map FixedPt.value).sum) (x : FixedPt) :
    (sumShift w s x).1 = fromC (((x :: l.take (c - 1)).map FixedPt.value).sum) ∧
      (sumShift w s x).2.Wf ∧ (sumShift w s x).2.capacity = c ∧
      (sumShift w s x).2.toList = x :: l.take (c - 1) := by
  have hc : 0 < c := hcap ▸ Nat.lt_of_le_of_lt (Nat.zero_le _) hw.start_lt
  have hsize : w.size = min c l.length := by simpa using congrArg List.length hl
  by_cases hfull : c ≤ l.length
  · -- full: the oldest value, at depth `c - 1`, leaves the window and the sum
    have hf : w.isFull = true := by
      rw [CircArray.isFull, beq_iff_eq]
      exact (window_full_iff hcap hl).2 hfull
    have hlt : w.popBack.2.size < w.popBack.2.capacity := by simp; omega
    have hsplit : l.take c = l.take (c - 1) ++ [l.getD (c - 1) default] := by
      have := take_succ_eq_append_getD (show c - 1 < l.length by omega)
      rwa [Nat.sub_add_cancel hc] at this
    rw [sumShift_of_full hf, CircArray.pushFront_overwrite_of_lt hlt x false true]
    refine ⟨?_, hw.popBack.pushFront_true x, by simp [hcap], window_popBack_pushFront hw hcap hl hfull x⟩
    rw [window_popBack_fst hl hc hfull, add_def, sub_def, value_fromC, hs, hsplit]
    simp only [List.map_append, List.sum_append, List.map_cons, List.map_nil, List.sum_cons,
      List.sum_nil]
    grind
  · -- not full: the window and the sum grow by `x`
    have hall : l.take c = l := List.take_of_length_le (by omega)
    have hall' : l.take (c - 1) = l := List.take_of_length_le (by omega)
    have hf : w.isFull = false := by
      rw [CircArray.isFull, beq_eq_false_iff_ne]
      omega
    have hlt : w.size < w.capacity := by omega
    rw [sumShift_of_not_full hf, CircArray.pushFront_overwrite_of_lt hlt x false true]
    refine ⟨?_, hw.pushFront_true x, by simp [hcap], ?_⟩
    · rw [add_def, hs, hall, hall']
      simp only [List.map_cons, List.sum_cons]
      rw [Int64.add_comm]
    · rw [window_pushFront hw hcap hl x]

/-- `Sum::process_opt_ext` leaves the shifted window and its sum. -/
theorem sum_processOptExt {lc cache : VectorCache} {increments : List FixedPt} (hlc : lc.length = 3)
    (hrel : SumCache c cache rows) :
    SumLocal c (increments.getD 0 default) rows (sumOptExt lc increments cache) := by
  set sumBuf := (lc.ringBuffer 2).assign (cache.ringBuffer 2)
  obtain ⟨hv, hw, hcap, hl⟩ := sumShift_spec (s := cache.value 1) (hrel.wf.assign (lc.ringBuffer 2))
    (by rw [CircArray.capacity_assign, hrel.capacity])
    (by rw [CircArray.toList_assign _ hrel.wf, hrel.contents])
    (by rw [hrel.sum, value_fromC]) (increments.getD 0 default)
  set r := sumShift sumBuf (cache.value 1) (increments.getD 0 default)
  set lc₁ := (lc.setValue 0 r.1).setValue 1 r.1
  have hlen : 2 < lc₁.length := by simp [lc₁, hlc]
  -- the last write replaces the ring buffer of cell `2` and keeps the values
  set lc₂ : VectorCache := lc₁.modify 2 fun c => { c with ringBuffer := r.2 }
  have hrb : lc₂.ringBuffer 2 = r.2 := by
    simp only [lc₂, VectorCache.ringBuffer, getD_modify_self hlen]
  have hval : ∀ j, lc₂.value j = lc₁.value j :=
    fun j => getD_modify_of_forall (l := lc₁) (f := fun c => { c with ringBuffer := r.2 })
      (g := CacheStruct.value) (fun _ => rfl) 2 j default
  have hout : sumOptExt lc increments cache = lc₂ := rfl
  rw [hout]
  refine ⟨by simp [lc₂, lc₁, hlc], by rw [hrb]; exact hw, by rw [hrb, hcap], by rw [hrb, hl], ?_, ?_⟩
  · rw [hval, ← hv]
    simp [lc₁, hlc]
  · rw [hval, hval]
    simp [lc₁, hlc]

/-- `Sum` keeps the window of the last `ADD` and its sum. -/
def sumIncremental (hk : 0 < k) (hc : 2 ≤ c) : Incremental sum k c where
  Rel := SumCache c
  Local lc := lc.length = 3
  local_init := by simp [sum, freshCache]
  init_some _ := rfl
  ext lc b vals rows hl hrows _ hw := by
    obtain ⟨lc', hext, hloc⟩ := sum_processExt hl hw hk hc hrows
    exact ⟨_, lc', sumNaive_of_windows hw hk hc hrows, hext, hloc.value_zero, hloc.length,
      hloc.sumCache (by omega)⟩
  opt lc cache b vals rows hl hrows _ hrel hw := by
    have hloc : SumLocal c (((List.range k).map vals).getD 0 default) rows
        (sumOptExt lc ((List.range k).map vals) cache) := sum_processOptExt hl hrel
    rw [getD_increments hk] at hloc
    exact ⟨_, _, sumNaive_of_windows hw hk hc hrows, rfl, hloc.value_zero, hloc.length,
      hloc.sumCache (by omega)⟩

end Sum

end Certificates

/-! ### The eleven elements -/

/-- The window elements of the DMI and Vortex pipelines, each with the number of
input ports it reads. -/
def windowElements : List (Indicator × ℕ) :=
  [(pdm, 2), (ndm, 2), (newTrueRange, 3), (vmu, 2), (vmd, 2), (pdi, 2), (ndi, 2), (viu, 2),
    (vid, 2), (dx, 2), (sum, 1)]

/-- Every window element reads at least one port. -/
theorem pos_of_mem_windowElements {E : Indicator} {arity : ℕ} (h : (E, arity) ∈ windowElements) :
    0 < arity := by
  have harity : arity ∈ windowElements.map Prod.snd := List.mem_map_of_mem h
  simp only [windowElements, List.map_cons, List.map_nil, List.mem_cons, List.not_mem_nil,
    or_false] at harity
  omega

/-- Every window element, wired to the ports it reads and with windows of two values
or more, has a certificate that fits all rows. -/
theorem windowElements_incremental {E : Indicator} {arity k c : ℕ} (h : (E, arity) ∈ windowElements)
    (hk : arity ≤ k) (hc : 2 ≤ c) : ∃ I : Incremental E k c, ∀ rows, I.Fits rows := by
  simp only [windowElements, List.mem_cons, Prod.mk.injEq, List.not_mem_nil, or_false] at h
  rcases h with ⟨rfl, rfl⟩ | ⟨rfl, rfl⟩ | ⟨rfl, rfl⟩ | ⟨rfl, rfl⟩ | ⟨rfl, rfl⟩ | ⟨rfl, rfl⟩ |
    ⟨rfl, rfl⟩ | ⟨rfl, rfl⟩ | ⟨rfl, rfl⟩ | ⟨rfl, rfl⟩ | ⟨rfl, rfl⟩
  · exact ⟨directionalIncremental calculatePdm hk hc, fun _ => trivial⟩
  · exact ⟨directionalIncremental calculateNdm hk hc, fun _ => trivial⟩
  · exact ⟨newTrueRangeIncremental hk hc, fun _ => trivial⟩
  · exact ⟨movementIncremental (by omega) (by omega) hc, fun _ => trivial⟩
  · exact ⟨movementIncremental (by omega) (by omega) hc, fun _ => trivial⟩
  · exact ⟨ratioIncremental hk, fun _ => trivial⟩
  · exact ⟨ratioIncremental hk, fun _ => trivial⟩
  · exact ⟨ratioIncremental hk, fun _ => trivial⟩
  · exact ⟨ratioIncremental hk, fun _ => trivial⟩
  · exact ⟨dxIncremental hk, fun _ => trivial⟩
  · exact ⟨sumIncremental (by omega) hc, fun _ => trivial⟩

/-- **The naive and the optimised modes of the window elements agree.** For each
element of `windowElements`, on `k` ports, at least those it reads, and with
windows of `c ≥ 2` values, and for a stream of an `INIT` round and then `ADD` and
`UPDATE` rounds at increasing timestamps, each giving one packet to every port: the
element configured with `OP_MODE 1` and the one configured with `OP_MODE 2` both
return from every push and do the same with every packet. -/
theorem window_modes_agree (E : Indicator) (arity : ℕ) (hE : (E, arity) ∈ windowElements) (k c : ℕ)
    (hk : arity ≤ k) (hc : 2 ≤ c) (init : PacketRound) (rounds : List PacketRound)
    (hinit : init.appType = .MSG_INIT) (hcov : ∀ r ∈ init :: rounds, r.order.Perm (List.range k))
    (htype : ∀ r ∈ rounds, r.appType = .MSG_ADD ∨ r.appType = .MSG_UPDATE)
    (hinc : ((init :: rounds).map PacketRound.tstamp).IsChain (· < ·)) :
    ∃ sN sO tN tO outs, configure E k c 1 = some sN ∧ configure E k c 2 = some sO ∧
      run E sN ((init :: rounds).flatMap PacketRound.inputs) = some (tN, outs) ∧
      run E sO ((init :: rounds).flatMap PacketRound.inputs) = some (tO, outs) := by
  obtain ⟨I, hall⟩ := windowElements_incremental hE hk hc
  have harity := pos_of_mem_windowElements hE
  exact modes_agree I hall (by omega) (by omega) init rounds hinit hcov htype hinc

/-- `Pdm` on two ports with windows of two values, over an `INIT` round, an `ADD`
and an `UPDATE`, the ports taking turns in arriving first. -/
theorem window_modes_agree_pdm :
    ∃ sN sO tN tO outs, configure pdm 2 2 1 = some sN ∧ configure pdm 2 2 2 = some sO ∧
      run pdm sN ([⟨.MSG_INIT, 1, [0, 1], fun p => fromInt (p + 10), fun _ => 24⟩,
        ⟨.MSG_ADD, 2, [1, 0], fun p => fromInt (p + 12), fun _ => 24⟩,
        ⟨.MSG_UPDATE, 3, [0, 1], fun p => fromInt (p + 11), fun _ => 24⟩].flatMap
          PacketRound.inputs) = some (tN, outs) ∧
      run pdm sO ([⟨.MSG_INIT, 1, [0, 1], fun p => fromInt (p + 10), fun _ => 24⟩,
        ⟨.MSG_ADD, 2, [1, 0], fun p => fromInt (p + 12), fun _ => 24⟩,
        ⟨.MSG_UPDATE, 3, [0, 1], fun p => fromInt (p + 11), fun _ => 24⟩].flatMap
          PacketRound.inputs) = some (tO, outs) :=
  window_modes_agree pdm 2 List.mem_cons_self 2 2 le_rfl le_rfl _ _ rfl (by decide) (by decide)
    (by decide)

end Synapse.Click
