import Synapse.Click.WindowAgreement

/-!
# `EwmaIncremental`

The exponential moving average of the values of port `0`
(`elements/standard/ewma_incremental.cc`), with `alpha = 2 / (ALPHA_PERIODS + 1)`.
`process_naive` runs `calculate_ewma_recursive` over a copy of the window: the
oldest value is the seed, and each newer value `x` gives `(1 - alpha) * x + alpha`
times the average of the older ones. `process_ext` saves its result in both cells
of `_local_cache`; `process_opt_ext` computes `(1 - alpha) * x + alpha` times the
value saved at the last `ADD`.

## What is proved

The value saved at an `ADD` is the average over every value committed, while the
window holds only the last `BUF_SIZE` of them (`ewmaCert`): the two computations
agree while the rows committed before a round number fewer than `BUF_SIZE`.

* `ewma_modes_agree`: on every stream whose rows committed before its last round
  number fewer than `BUF_SIZE`, the two configurations send the same packets.
* `ewma_modes_differ`: with `BUF_SIZE 2` and `ALPHA_PERIODS 3`, an `INIT` of `0`, an
  `ADD` of `4` and an `UPDATE` of `8` make `OP_MODE 1` send `6` and `OP_MODE 2`
  send `5` for the `UPDATE`.
-/

namespace Synapse.Click

open FixedPt Buffers IndicatorBase

/-- `_alpha` as `configure` sets it from `ALPHA_PERIODS`. Where the divisor's word
is `0` (`ALPHA_PERIODS = -1`, or `ALPHA_PERIODS + 1` a multiple of `2 ^ 24`),
`configure` traps in the source and `_alpha` is `0` here. -/
def ewmaAlpha (alphaPeriods : ℤ) : FixedPt := fromInt 2 / (fromInt alphaPeriods + fromInt 1)

/-- `calculate_ewma_recursive (buffer, alpha)` on a buffer of `n` values: the front,
weighted by `1 - alpha`, plus the average of the rest, weighted by `alpha`, down to
a single value, which is returned as it is; on an empty buffer the recursion never
ends. -/
def calculateEwmaRecursiveOf (alpha : FixedPt) : ℕ → CircArray FixedPt → Option FixedPt
  | 0, _ => none
  | n + 1, buffer =>
    if buffer.occupancy = 1 then some buffer.popFront.1
    else (calculateEwmaRecursiveOf alpha n buffer.popFront.2).map fun rest =>
      ((1 : ℤ) - alpha) * buffer.popFront.1 + alpha * rest

/-- `calculate_ewma_recursive (buffer, alpha)`. -/
def calculateEwmaRecursive (buffer : CircArray FixedPt) (alpha : FixedPt) : Option FixedPt :=
  calculateEwmaRecursiveOf alpha buffer.size buffer

/-- `EwmaIncremental::process_naive`: the average over a copy of the window of
port `0`. -/
def ewmaNaive (alpha : FixedPt) (b : Buffers FixedPt) : Option FixedPt :=
  calculateEwmaRecursive (b.buffers 0).copy alpha

/-- `_local_cache[0]._value = result; _local_cache[1]._value = result;`. -/
def ewmaOut (lc : VectorCache) (result : FixedPt) : VectorCache := (lc.setValue 0 result).setValue 1 result

/-- `EwmaIncremental`. -/
def ewmaIncremental (alphaPeriods : ℤ) : Indicator where
  initializeElement b := some ((b.buffers 0).get 0)
  processNaive := ewmaNaive (ewmaAlpha alphaPeriods)
  processExt lc b := (ewmaNaive (ewmaAlpha alphaPeriods) b).map (ewmaOut lc)
  processOptExt lc increments cache :=
    some (ewmaOut lc (((1 : ℤ) - ewmaAlpha alphaPeriods) * increments.getD 0 default +
      ewmaAlpha alphaPeriods * cache.value 1))
  localCache := freshCache 2

/-! ### The average of a list -/

/-- The average `calculate_ewma_recursive` computes of values, newest first. -/
def ewmaOf (alpha : FixedPt) : List FixedPt → FixedPt
  | [] => default
  | [x] => x
  | x :: y :: l => ((1 : ℤ) - alpha) * x + alpha * ewmaOf alpha (y :: l)

theorem ewmaOf_cons (alpha x : FixedPt) {l : List FixedPt} (hl : l ≠ []) :
    ewmaOf alpha (x :: l) = ((1 : ℤ) - alpha) * x + alpha * ewmaOf alpha l := by
  obtain ⟨y, l, rfl⟩ := List.exists_cons_of_ne_nil hl
  rfl

section Recursion

variable {a : CircArray FixedPt} {alpha : FixedPt}

/-- **`calculate_ewma_recursive` computes `ewmaOf`** over a window of one value or
more. -/
theorem calculateEwmaRecursive_eq (h : a.Wf) (hl : a.toList ≠ []) :
    calculateEwmaRecursive a alpha = some (ewmaOf alpha a.toList) := by
  rw [calculateEwmaRecursive]
  -- induction on the contents: each call pops the front
  generalize hxs : a.toList = xs at hl
  induction xs generalizing a with
  | nil => exact absurd rfl hl
  | cons x l ih =>
    have hsize : a.size = l.length + 1 := by simpa using congrArg List.length hxs
    have hfront : a.popFront.1 = x := CircArray.popFront_fst_of_toList h hxs
    rw [hsize]
    cases l with
    | nil =>
      rw [calculateEwmaRecursiveOf, if_pos (by rw [CircArray.occupancy, hsize]; rfl), hfront]
      rfl
    | cons y l =>
      have hrest : a.popFront.2.toList = y :: l := by rw [CircArray.toList_popFront, hxs, List.tail_cons]
      have hsize' : a.popFront.2.size = (y :: l).length := by simpa using congrArg List.length hrest
      have hih := ih h.popFront hrest (List.cons_ne_nil _ _)
      rw [hsize'] at hih
      rw [calculateEwmaRecursiveOf, if_neg (by rw [CircArray.occupancy, hsize]; simp), hih, hfront]
      rfl

end Recursion

/-! ### The certificate -/

section Certificate

variable {alphaPeriods : ℤ} {k c : ℕ} {b : Buffers FixedPt} {vals : ℕ → FixedPt} {rows : List (ℕ → FixedPt)}

/-- While the rows fit, the window of port `0` is every value committed, the
round's in front. -/
theorem ewmaNaive_of_windows (alpha : FixedPt) (hw : RoundWindows k c b vals rows) (hk : 0 < k)
    (hfit : rows.length < c) : ewmaNaive alpha b = some (ewmaOf alpha (vals 0 :: column rows 0)) := by
  obtain ⟨hwf, -, hl⟩ := hw 0 hk
  have htake : (column rows 0).take (c - 1) = column rows 0 :=
    List.take_of_length_le (by rw [length_column]; omega)
  have hcopy : (b.buffers 0).copy.toList = vals 0 :: column rows 0 := by
    rw [CircArray.toList_copy hwf, hl, htake]
  rw [ewmaNaive, calculateEwmaRecursive_eq hwf.copy (by rw [hcopy]; exact List.cons_ne_nil _ _), hcopy]

theorem ewmaOut_spec {lc : VectorCache} (hl : lc.length = 2) (result : FixedPt) :
    (ewmaOut lc result).value 0 = result ∧ (ewmaOut lc result).value 1 = result ∧
      (ewmaOut lc result).length = 2 := by
  simp [ewmaOut, hl]

/-- The certificate of `EwmaIncremental`: the saved value is the average over all
the committed values of port `0`; rows fit while there are fewer than `c`. -/
def ewmaCert (alphaPeriods : ℤ) (hk : 0 < k) : Incremental (ewmaIncremental alphaPeriods) k c where
  Rel cache rows := cache.value 1 = ewmaOf (ewmaAlpha alphaPeriods) (column rows 0)
  Local lc := lc.length = 2
  Fits rows := rows.length < c
  local_init := rfl
  init_some _ := rfl
  ext lc b vals rows hl _ hfit hw := by
    have hv := ewmaNaive_of_windows (ewmaAlpha alphaPeriods) hw hk hfit
    obtain ⟨h0, h1, hlen⟩ := ewmaOut_spec hl (ewmaOf (ewmaAlpha alphaPeriods) (vals 0 :: column rows 0))
    refine ⟨_, _, hv, by simp only [ewmaIncremental, hv, Option.map_some], h0, hlen, ?_⟩
    rw [value_copyCache, h1]
    rfl
  opt lc cache b vals rows hl hrows hfit hrel hw := by
    have hv := ewmaNaive_of_windows (ewmaAlpha alphaPeriods) hw hk hfit
    have hcol : column rows 0 ≠ [] := by simpa [column] using hrows
    -- the new value and the saved average make the average over every committed value
    have hresult : ((1 : ℤ) - ewmaAlpha alphaPeriods) * ((List.range k).map vals).getD 0 default +
        ewmaAlpha alphaPeriods * cache.value 1 = ewmaOf (ewmaAlpha alphaPeriods) (vals 0 :: column rows 0) := by
      rw [getD_increments hk, hrel, ewmaOf_cons _ _ hcol]
    obtain ⟨h0, h1, hlen⟩ := ewmaOut_spec hl (ewmaOf (ewmaAlpha alphaPeriods) (vals 0 :: column rows 0))
    refine ⟨_, _, hv, by simp only [ewmaIncremental, hresult], h0, hlen, ?_⟩
    rw [value_copyCache, h1]
    rfl

end Certificate

/-! ### The two modes -/

/-- The rows a stream commits number the `INIT` row and the `ADD` rows. -/
theorem length_commitRows : ∀ (rows : List (ℕ → FixedPt)) (rs : List PacketRound),
    (commitRows rows rs).length = rows.length + rs.countP fun r => r.appType = .MSG_ADD
  | _, [] => rfl
  | rows, r :: rs => by
    rw [commitRows, length_commitRows, List.countP_cons]
    by_cases h : r.appType = .MSG_ADD
    · simp only [h, if_true, List.length_cons, decide_true]
      omega
    · simp only [h, decide_false, Bool.false_eq_true, ↓reduceIte]
      omega

/-- **The modes agree while the window has not wrapped.** An `EwmaIncremental` on
`k` ports with windows of `c` values, over a stream of an `INIT` round and then
`ADD` and `UPDATE` rounds at increasing timestamps, one packet per port, whose
`INIT` and `ADD` rounds before the last round number fewer than `c`: the element
configured with `OP_MODE 1` and the one configured with `OP_MODE 2` both return
from every push and do the same with every packet. -/
theorem ewma_modes_agree (alphaPeriods : ℤ) (k c : ℕ) (hk : 0 < k) (init : PacketRound)
    (rounds : List PacketRound) (hinit : init.appType = .MSG_INIT)
    (hcov : ∀ r ∈ init :: rounds, r.order.Perm (List.range k))
    (htype : ∀ r ∈ rounds, r.appType = .MSG_ADD ∨ r.appType = .MSG_UPDATE)
    (hinc : ((init :: rounds).map PacketRound.tstamp).IsChain (· < ·))
    (hwin : (rounds.dropLast.countP fun r => r.appType = .MSG_ADD) + 1 < c) :
    ∃ sN sO tN tO outs, configure (ewmaIncremental alphaPeriods) k c 1 = some sN ∧
      configure (ewmaIncremental alphaPeriods) k c 2 = some sO ∧
      run (ewmaIncremental alphaPeriods) sN ((init :: rounds).flatMap PacketRound.inputs) = some (tN, outs) ∧
      run (ewmaIncremental alphaPeriods) sO ((init :: rounds).flatMap PacketRound.inputs) = some (tO, outs) := by
  refine modes_agree_while (ewmaCert alphaPeriods hk) hk (by omega) init rounds hinit hcov htype hinc
    fun i hi => ?_
  -- the rounds before the `i`-th are among those before the last one
  have hpre : List.Sublist (rounds.take i) rounds.dropLast := by
    rw [List.dropLast_eq_take]
    exact List.take_sublist_take_left (by omega)
  have hle := hpre.countP_le (p := fun r => decide (r.appType = .MSG_ADD))
  show (commitRows [init.value] (rounds.take i)).length < c
  rw [length_commitRows, List.length_singleton]
  omega

theorem ewma_modes_agree_three :
    ∃ sN sO tN tO outs, configure (ewmaIncremental 3) 1 3 1 = some sN ∧
      configure (ewmaIncremental 3) 1 3 2 = some sO ∧
      run (ewmaIncremental 3) sN ([⟨.MSG_INIT, 1, [0], fun _ => fromInt 0, fun _ => 24⟩,
        ⟨.MSG_ADD, 2, [0], fun _ => fromInt 4, fun _ => 24⟩,
        ⟨.MSG_UPDATE, 3, [0], fun _ => fromInt 8, fun _ => 24⟩].flatMap PacketRound.inputs) = some (tN, outs) ∧
      run (ewmaIncremental 3) sO ([⟨.MSG_INIT, 1, [0], fun _ => fromInt 0, fun _ => 24⟩,
        ⟨.MSG_ADD, 2, [0], fun _ => fromInt 4, fun _ => 24⟩,
        ⟨.MSG_UPDATE, 3, [0], fun _ => fromInt 8, fun _ => 24⟩].flatMap PacketRound.inputs) = some (tO, outs) :=
  ewma_modes_agree 3 1 3 (by decide) _ _ rfl (by decide) (by decide) (by decide) (by decide)

/-! ### A wrapped window -/

/-- An `INIT` of `0`, an `ADD` of `4` and an `UPDATE` of `8`, on one port. -/
def ewmaStream : List PacketRound :=
  [⟨.MSG_INIT, 1, [0], fun _ => fromInt 0, fun _ => 24⟩, ⟨.MSG_ADD, 2, [0], fun _ => fromInt 4, fun _ => 24⟩,
    ⟨.MSG_UPDATE, 3, [0], fun _ => fromInt 8, fun _ => 24⟩]

/-- The values of the packets an element sends. -/
def sentValues (outs : List Action) : List FixedPt :=
  outs.filterMap fun a => match a with
    | .output p => some p.msg.value
    | .discard => none

/-- **A wrapped window.** With `BUF_SIZE 2` and `ALPHA_PERIODS 3` (`alpha = 1/2`),
both configurations send `0` for the `INIT` round and `2` for the `ADD`; for the
`UPDATE`, `OP_MODE 1` averages its window `8, 4` to `6` while `OP_MODE 2` averages
`8` with the saved `2` to `5`. -/
theorem ewma_modes_differ :
    ((configure (ewmaIncremental 3) 1 2 1).bind fun s =>
        run (ewmaIncremental 3) s (ewmaStream.flatMap PacketRound.inputs)).map (sentValues ·.2) =
      some [fromInt 0, fromInt 2, fromInt 6] ∧
    ((configure (ewmaIncremental 3) 1 2 2).bind fun s =>
        run (ewmaIncremental 3) s (ewmaStream.flatMap PacketRound.inputs)).map (sentValues ·.2) =
      some [fromInt 0, fromInt 2, fromInt 5] := by
  decide

end Synapse.Click
