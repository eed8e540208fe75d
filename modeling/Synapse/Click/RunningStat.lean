import Mathlib

/-!
# `RunningStat`, the latency summary

`RunningStat` (`include/click/running_stat.hh`, `lib/running_stat.cc`) summarises the
cycle counts `StatPrinter` measures: on each value, `update_counter` counts it, adds it
to the total and to `_s1`, adds its square to `_s2`, and keeps the highest and the
lowest value. The lowest starts at `0`, and a `_lowest` of `0` is taken for the start:
the next value replaces it whatever it is.

## The model

`Stats` has the source's fixed-width fields, so every sum wraps as the code's does.
The hand-coded program's copy (`hand_coded/running_stat.cc`) has the same body and
no caller.

## What is proved

* `Summarizes.updateCounter`: one value keeps `Summarizes`, what the fields say of the
  values so far.
* `running_stat_summarizes`: after any values, the count and the sums are those of the
  values modulo the width of their fields, the highest is the largest value, and the
  lowest is the least value since the last `0`: a `0` makes the summary forget the
  values before it.
-/

namespace Synapse.Click

/-- `Stats`. -/
structure Stats where
  /-- `_N`. -/
  N : UInt32
  /-- `_aggregate_cycles`. -/
  aggregateCycles : UInt64
  /-- `_highest`. -/
  highest : UInt64
  /-- `_lowest`. -/
  lowest : UInt64
  /-- `_s1`. -/
  s1 : UInt64
  /-- `_s2`. -/
  s2 : UInt64
  deriving DecidableEq, Repr

/-- `Stats ()`: all zero. -/
instance : Inhabited Stats := ⟨⟨0, 0, 0, 0, 0, 0⟩⟩

/-- `RunningStat::update_counter (value)`, on the `_stats` of the `RunningStat`. -/
def RunningStat.updateCounter (stats : Stats) (value : UInt64) : Stats :=
  { N := stats.N + 1
    aggregateCycles := stats.aggregateCycles + value
    highest := if value > stats.highest then value else stats.highest
    -- a `_lowest` of `0` is the start-up scenario
    lowest := if stats.lowest = 0 then value else if value < stats.lowest then value else stats.lowest
    s1 := stats.s1 + value
    s2 := stats.s2 + value * value }

namespace RunningStat

variable (s : Stats) (v : UInt64)

@[simp] theorem n_updateCounter : (updateCounter s v).N = s.N + 1 := rfl

@[simp] theorem aggregateCycles_updateCounter : (updateCounter s v).aggregateCycles = s.aggregateCycles + v := rfl

@[simp] theorem s1_updateCounter : (updateCounter s v).s1 = s.s1 + v := rfl

@[simp] theorem s2_updateCounter : (updateCounter s v).s2 = s.s2 + v * v := rfl

/-- `_highest` moves to a larger value: it is the running `max`. -/
theorem toNat_highest_updateCounter : (updateCounter s v).highest.toNat = max s.highest.toNat v.toNat := by
  show (if v > s.highest then v else s.highest).toNat = _
  split_ifs with h
  · rw [gt_iff_lt, UInt64.lt_iff_toNat_lt] at h
    omega
  · rw [gt_iff_lt, UInt64.lt_iff_toNat_lt] at h
    omega

/-- `_lowest` is replaced at the start, by a `0`, and by a smaller value. -/
theorem toNat_lowest_updateCounter :
    (updateCounter s v).lowest.toNat = if s.lowest.toNat = 0 then v.toNat else min s.lowest.toNat v.toNat := by
  show (if s.lowest = 0 then v else if v < s.lowest then v else s.lowest).toNat = _
  simp only [← UInt64.toNat_inj, UInt64.toNat_zero, UInt64.lt_iff_toNat_lt]
  split_ifs <;> omega

end RunningStat

/-! ### What the fields say of the values -/

/-- The least of the values since the last `0`, or `0` if there is none. -/
def lowestSinceZero (vs : List ℕ) : ℕ :=
  match vs.rtakeWhile (· != 0) with
  | [] => 0
  | v :: rest => rest.foldl min v

/-- The summary of the values `vs`: the count modulo `2 ^ 32`, the sums modulo
`2 ^ 64`, the largest value, and the least since the last `0`. -/
structure RunningStat.Summarizes (s : Stats) (vs : List UInt64) : Prop where
  n_eq : s.N.toNat = vs.length % 2 ^ 32
  aggregateCycles_eq : s.aggregateCycles.toNat = (vs.map UInt64.toNat).sum % 2 ^ 64
  highest_eq : s.highest.toNat = (vs.map UInt64.toNat).foldl max 0
  lowest_eq : s.lowest.toNat = lowestSinceZero (vs.map UInt64.toNat)
  s1_eq : s.s1.toNat = (vs.map UInt64.toNat).sum % 2 ^ 64
  s2_eq : s.s2.toNat = (vs.map fun v => v.toNat ^ 2).sum % 2 ^ 64

/-- The least of values none of which is `0` is not `0`. -/
theorem foldl_min_ne_zero : ∀ (rest : List ℕ) {v : ℕ}, v ≠ 0 → (∀ x ∈ rest, x ≠ 0) → rest.foldl min v ≠ 0
  | [], _, hv, _ => hv
  | x :: rest, v, hv, hall => by
    rw [List.foldl_cons]
    refine foldl_min_ne_zero rest ?_ fun y hy => hall y (List.mem_cons_of_mem x hy)
    rcases min_choice v x with h | h <;> rw [h]
    · exact hv
    · exact hall x List.mem_cons_self

theorem lowestSinceZero_concat_zero (vs : List ℕ) : lowestSinceZero (vs ++ [0]) = 0 := by
  simp [lowestSinceZero]

/-- A value other than `0` after none since the last `0` is the new lowest; after some,
the lowest is the least of them and it. -/
theorem lowestSinceZero_concat_of_ne_zero (vs : List ℕ) {v : ℕ} (hv : v ≠ 0) :
    lowestSinceZero (vs ++ [v]) = if lowestSinceZero vs = 0 then v else min (lowestSinceZero vs) v := by
  unfold lowestSinceZero
  rw [List.rtakeWhile_concat, if_pos (by simpa using hv)]
  rcases hcons : vs.rtakeWhile (· != 0) with _ | ⟨x, rest⟩
  · rfl
  · -- the values since the last `0` are not `0`, so neither is their least
    have hall : ∀ y ∈ x :: rest, y ≠ 0 := fun y hy => by
      have hmem : y ∈ vs.rtakeWhile (· != 0) := by rw [hcons]; exact hy
      simpa using List.mem_rtakeWhile_imp hmem
    have hne := foldl_min_ne_zero rest (hall x List.mem_cons_self) fun y hy => hall y (List.mem_cons_of_mem x hy)
    show (rest ++ [v]).foldl min x = _
    rw [List.foldl_append, List.foldl_cons, List.foldl_nil, if_neg hne]

theorem summarizes_default : RunningStat.Summarizes default [] where
  n_eq := rfl
  aggregateCycles_eq := rfl
  highest_eq := rfl
  lowest_eq := rfl
  s1_eq := rfl
  s2_eq := rfl

theorem RunningStat.Summarizes.updateCounter {s : Stats} {vs : List UInt64} (h : RunningStat.Summarizes s vs)
    (v : UInt64) : RunningStat.Summarizes (RunningStat.updateCounter s v) (vs ++ [v]) where
  n_eq := by
    simp only [RunningStat.n_updateCounter, UInt32.toNat_add, h.n_eq, UInt32.toNat_one, List.length_append,
      List.length_singleton]
    omega
  aggregateCycles_eq := by
    simp only [RunningStat.aggregateCycles_updateCounter, UInt64.toNat_add, h.aggregateCycles_eq, List.map_append, List.sum_append,
      List.map_singleton, List.sum_singleton, Nat.mod_add_mod]
  highest_eq := by
    rw [RunningStat.toNat_highest_updateCounter, h.highest_eq, List.map_append, List.foldl_append]
    rfl
  lowest_eq := by
    rw [RunningStat.toNat_lowest_updateCounter, h.lowest_eq, List.map_append, List.map_singleton]
    by_cases hv : v.toNat = 0
    · -- a `0` is taken, at the start or as the smaller value
      rw [hv, lowestSinceZero_concat_zero]
      split_ifs <;> omega
    · rw [lowestSinceZero_concat_of_ne_zero _ hv]
  s1_eq := by
    simp only [RunningStat.s1_updateCounter, UInt64.toNat_add, h.s1_eq, List.map_append, List.sum_append,
      List.map_singleton, List.sum_singleton, Nat.mod_add_mod]
  s2_eq := by
    simp only [RunningStat.s2_updateCounter, UInt64.toNat_add, UInt64.toNat_mul, h.s2_eq, List.map_append,
      List.sum_append, List.map_singleton, List.sum_singleton, Nat.mod_add_mod, Nat.add_mod_mod, sq]

/-- **What `RunningStat` keeps.** After any values, from `Stats ()`, the count and the
sums are those of the values modulo the width of their fields, `_highest` is the
largest value (`0` for none), and `_lowest` is the least value since the last `0`. -/
theorem running_stat_summarizes (vs : List UInt64) :
    RunningStat.Summarizes (vs.foldl RunningStat.updateCounter default) vs := by
  -- the summary, carried from any prefix to the next value
  induction vs using List.reverseRecOn with
  | nil => exact summarizes_default
  | append_singleton vs v ih =>
    rw [List.foldl_append, List.foldl_cons, List.foldl_nil]
    exact ih.updateCounter v

end Synapse.Click
