import Mathlib

/-!
# The last occurrence of an extreme

`IsLastMax xs i` says that position `i` of `xs` holds a largest element and that every
later element is smaller: `i` is where the maximum last occurs. `IsLastMin` is the same
in the dual order. Both are decidable, so that they can be checked on a given list.

## What is proved

A scan that keeps the largest element so far and its position, replacing it on `≥`,
finds the last maximum: `IsLastMax.snoc_of_le` and `IsLastMax.snoc_of_lt` say what one
more element does, and `IsLastMax.unique` that the position is determined. The same
hold of `IsLastMin`, read off the dual order.
-/

namespace Synapse.Theory

variable {α : Type*}

/-- An element of `xs ++ [x]` is the one of `xs` at its position, or `x` at the end. -/
theorem getElem?_snoc_eq_some {xs : List α} {x y : α} {j : ℕ} (h : (xs ++ [x])[j]? = some y) :
    j < xs.length ∧ xs[j]? = some y ∨ j = xs.length ∧ y = x := by
  rcases Nat.lt_or_ge j xs.length with hj | hj
  · rw [List.getElem?_append_left hj] at h
    exact Or.inl ⟨hj, h⟩
  · rw [List.getElem?_append_right hj, List.getElem?_singleton] at h
    split_ifs at h with h0
    exact Or.inr ⟨by omega, (Option.some.inj h).symm⟩

variable [LinearOrder α]

/-- Position `i` holds a largest element of `xs`, and every later one is smaller. -/
def IsLastMax (xs : List α) (i : ℕ) : Prop :=
  ∃ v ∈ xs[i]?, ∀ j < xs.length, ∀ y ∈ xs[j]?, y ≤ v ∧ (i < j → y < v)

instance (xs : List α) (i : ℕ) : Decidable (IsLastMax xs i) :=
  inferInstanceAs (Decidable (∃ v ∈ xs[i]?, _))

/-- Position `i` holds a smallest element of `xs`, and every later one is larger. -/
def IsLastMin (xs : List α) (i : ℕ) : Prop :=
  IsLastMax (xs.map OrderDual.toDual) i

instance (xs : List α) (i : ℕ) : Decidable (IsLastMin xs i) :=
  inferInstanceAs (Decidable (IsLastMax _ _))

namespace IsLastMax

variable {xs : List α} {i : ℕ} {v : α}

theorem le (h : IsLastMax xs i) (hv : xs[i]? = some v) {j : ℕ} {y : α} (hy : xs[j]? = some y) : y ≤ v := by
  obtain ⟨w, hw, hall⟩ := h
  obtain rfl : w = v := Option.some.inj (hw.symm.trans hv)
  exact (hall j (List.getElem?_eq_some_iff.1 hy).1 y hy).1

theorem lt (h : IsLastMax xs i) (hv : xs[i]? = some v) {j : ℕ} (hij : i < j) {y : α} (hy : xs[j]? = some y) :
    y < v := by
  obtain ⟨w, hw, hall⟩ := h
  obtain rfl : w = v := Option.some.inj (hw.symm.trans hv)
  exact (hall j (List.getElem?_eq_some_iff.1 hy).1 y hy).2 hij

theorem singleton (x : α) : IsLastMax [x] 0 := by
  refine ⟨x, rfl, fun j hj y hy => ?_⟩
  obtain rfl : j = 0 := by simpa using hj
  obtain rfl : y = x := Option.some.inj hy.symm
  exact ⟨le_rfl, fun h => absurd h (Nat.lt_irrefl 0)⟩

/-- An element no smaller than the last maximum is the new one. -/
theorem snoc_of_le (h : IsLastMax xs i) (hv : xs[i]? = some v) {x : α} (hx : v ≤ x) :
    IsLastMax (xs ++ [x]) xs.length := by
  refine ⟨x, List.getElem?_concat_length, fun j _ y hy => ?_⟩
  rcases getElem?_snoc_eq_some hy with ⟨hjl, hy⟩ | ⟨rfl, rfl⟩
  · exact ⟨(h.le hv hy).trans hx, fun hlt => absurd hlt (by omega)⟩
  · exact ⟨le_rfl, fun hlt => absurd hlt (Nat.lt_irrefl _)⟩

/-- An element smaller than the last maximum leaves it where it is. -/
theorem snoc_of_lt (h : IsLastMax xs i) (hv : xs[i]? = some v) {x : α} (hx : x < v) :
    IsLastMax (xs ++ [x]) i := by
  have hi : i < xs.length := (List.getElem?_eq_some_iff.1 hv).1
  refine ⟨v, by rw [List.getElem?_append_left hi]; exact hv, fun j _ y hy => ?_⟩
  rcases getElem?_snoc_eq_some hy with ⟨-, hy⟩ | ⟨-, rfl⟩
  · exact ⟨h.le hv hy, fun hij => h.lt hv hij hy⟩
  · exact ⟨hx.le, fun _ => hx⟩

/-- The last maximum is at one position. -/
theorem unique (h : IsLastMax xs i) {i' : ℕ} (h' : IsLastMax xs i') : i = i' := by
  obtain ⟨v, hv, -⟩ := id h
  obtain ⟨v', hv', -⟩ := id h'
  rcases Nat.lt_trichotomy i i' with hlt | heq | hgt
  · exact absurd (h.lt hv hlt hv') (not_lt.2 (h'.le hv' hv))
  · exact heq
  · exact absurd (h'.lt hv' hgt hv) (not_lt.2 (h.le hv hv'))

end IsLastMax

namespace IsLastMin

variable {xs : List α} {i : ℕ} {v : α}

omit [LinearOrder α] in
theorem getElem?_toDual (hv : xs[i]? = some v) :
    (xs.map OrderDual.toDual)[i]? = some (OrderDual.toDual v) := by
  rw [List.getElem?_map, hv, Option.map_some]

theorem le (h : IsLastMin xs i) (hv : xs[i]? = some v) {j : ℕ} {y : α} (hy : xs[j]? = some y) : v ≤ y :=
  OrderDual.toDual_le_toDual.1 (IsLastMax.le h (getElem?_toDual hv) (getElem?_toDual hy))

theorem singleton (x : α) : IsLastMin [x] 0 :=
  IsLastMax.singleton (OrderDual.toDual x)

/-- An element no larger than the last minimum is the new one. -/
theorem snoc_of_le (h : IsLastMin xs i) (hv : xs[i]? = some v) {x : α} (hx : x ≤ v) :
    IsLastMin (xs ++ [x]) xs.length := by
  have h' := IsLastMax.snoc_of_le h (getElem?_toDual hv) (x := OrderDual.toDual x) hx
  rw [IsLastMin, List.map_append, List.map_singleton]
  rwa [List.length_map] at h'

/-- An element larger than the last minimum leaves it where it is. -/
theorem snoc_of_lt (h : IsLastMin xs i) (hv : xs[i]? = some v) {x : α} (hx : v < x) :
    IsLastMin (xs ++ [x]) i := by
  have h' := IsLastMax.snoc_of_lt h (getElem?_toDual hv) (x := OrderDual.toDual x) hx
  rwa [IsLastMin, List.map_append, List.map_singleton]

theorem unique (h : IsLastMin xs i) {i' : ℕ} (h' : IsLastMin xs i') : i = i' :=
  IsLastMax.unique h h'

end IsLastMin

end Synapse.Theory
