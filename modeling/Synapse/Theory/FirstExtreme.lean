import Synapse.Theory.LastExtreme

/-!
# The first occurrence of an extreme

`IsFirstMax xs i` says that position `i` of `xs` holds a largest element and that every
earlier element is smaller: `i` is where the maximum first occurs. `IsFirstMin` is the
same in the dual order. Both are decidable.

## What is proved

A scan that keeps the largest element so far and its position, replacing it only on a
strictly larger one, finds the first maximum: `IsFirstMax.snoc_of_le` and
`IsFirstMax.snoc_of_lt` say what one more element does, and `IsFirstMax.unique` that the
position is determined. The same hold of `IsFirstMin`, read off the dual order.
-/

namespace Synapse.Theory

variable {α : Type*} [LinearOrder α]

/-- Position `i` holds a largest element of `xs`, and every earlier one is smaller. -/
def IsFirstMax (xs : List α) (i : ℕ) : Prop :=
  ∃ v ∈ xs[i]?, ∀ j < xs.length, ∀ y ∈ xs[j]?, y ≤ v ∧ (j < i → y < v)

instance (xs : List α) (i : ℕ) : Decidable (IsFirstMax xs i) :=
  inferInstanceAs (Decidable (∃ v ∈ xs[i]?, _))

/-- Position `i` holds a smallest element of `xs`, and every earlier one is larger. -/
def IsFirstMin (xs : List α) (i : ℕ) : Prop :=
  IsFirstMax (xs.map OrderDual.toDual) i

instance (xs : List α) (i : ℕ) : Decidable (IsFirstMin xs i) :=
  inferInstanceAs (Decidable (IsFirstMax _ _))

namespace IsFirstMax

variable {xs : List α} {i : ℕ} {v : α}

theorem le (h : IsFirstMax xs i) (hv : xs[i]? = some v) {j : ℕ} {y : α} (hy : xs[j]? = some y) : y ≤ v := by
  obtain ⟨w, hw, hall⟩ := h
  obtain rfl : w = v := Option.some.inj (hw.symm.trans hv)
  exact (hall j (List.getElem?_eq_some_iff.1 hy).1 y hy).1

theorem lt (h : IsFirstMax xs i) (hv : xs[i]? = some v) {j : ℕ} (hji : j < i) {y : α} (hy : xs[j]? = some y) :
    y < v := by
  obtain ⟨w, hw, hall⟩ := h
  obtain rfl : w = v := Option.some.inj (hw.symm.trans hv)
  exact (hall j (List.getElem?_eq_some_iff.1 hy).1 y hy).2 hji

theorem singleton (x : α) : IsFirstMax [x] 0 := by
  refine ⟨x, rfl, fun j hj y hy => ?_⟩
  obtain rfl : j = 0 := by simpa using hj
  obtain rfl : y = x := Option.some.inj hy.symm
  exact ⟨le_rfl, fun h => absurd h (Nat.lt_irrefl 0)⟩

/-- An element no larger than the first maximum leaves it where it is. -/
theorem snoc_of_le (h : IsFirstMax xs i) (hv : xs[i]? = some v) {x : α} (hx : x ≤ v) :
    IsFirstMax (xs ++ [x]) i := by
  have hi : i < xs.length := (List.getElem?_eq_some_iff.1 hv).1
  refine ⟨v, by rw [List.getElem?_append_left hi]; exact hv, fun j _ y hy => ?_⟩
  rcases getElem?_snoc_eq_some hy with ⟨-, hy⟩ | ⟨rfl, rfl⟩
  · exact ⟨h.le hv hy, fun hji => h.lt hv hji hy⟩
  · exact ⟨hx, fun hji => absurd hji (by omega)⟩

/-- An element larger than the first maximum is the new one. -/
theorem snoc_of_lt (h : IsFirstMax xs i) (hv : xs[i]? = some v) {x : α} (hx : v < x) :
    IsFirstMax (xs ++ [x]) xs.length := by
  refine ⟨x, List.getElem?_concat_length, fun j _ y hy => ?_⟩
  rcases getElem?_snoc_eq_some hy with ⟨-, hy⟩ | ⟨rfl, rfl⟩
  · have hy' := (h.le hv hy).trans_lt hx
    exact ⟨hy'.le, fun _ => hy'⟩
  · exact ⟨le_rfl, fun hlt => absurd hlt (Nat.lt_irrefl _)⟩

/-- The first maximum is at one position. -/
theorem unique (h : IsFirstMax xs i) {i' : ℕ} (h' : IsFirstMax xs i') : i = i' := by
  obtain ⟨v, hv, -⟩ := id h
  obtain ⟨v', hv', -⟩ := id h'
  rcases Nat.lt_trichotomy i i' with hlt | heq | hgt
  · exact absurd (h'.lt hv' hlt hv) (not_lt.2 (h.le hv hv'))
  · exact heq
  · exact absurd (h.lt hv hgt hv') (not_lt.2 (h'.le hv' hv))

end IsFirstMax

namespace IsFirstMin

variable {xs : List α} {i : ℕ} {v : α}

theorem le (h : IsFirstMin xs i) (hv : xs[i]? = some v) {j : ℕ} {y : α} (hy : xs[j]? = some y) : v ≤ y :=
  OrderDual.toDual_le_toDual.1 (IsFirstMax.le h (IsLastMin.getElem?_toDual hv) (IsLastMin.getElem?_toDual hy))

theorem singleton (x : α) : IsFirstMin [x] 0 :=
  IsFirstMax.singleton (OrderDual.toDual x)

/-- An element no smaller than the first minimum leaves it where it is. -/
theorem snoc_of_le (h : IsFirstMin xs i) (hv : xs[i]? = some v) {x : α} (hx : v ≤ x) :
    IsFirstMin (xs ++ [x]) i := by
  have h' := IsFirstMax.snoc_of_le h (IsLastMin.getElem?_toDual hv) (x := OrderDual.toDual x) hx
  rwa [IsFirstMin, List.map_append, List.map_singleton]

/-- An element smaller than the first minimum is the new one. -/
theorem snoc_of_lt (h : IsFirstMin xs i) (hv : xs[i]? = some v) {x : α} (hx : x < v) :
    IsFirstMin (xs ++ [x]) xs.length := by
  have h' := IsFirstMax.snoc_of_lt h (IsLastMin.getElem?_toDual hv) (x := OrderDual.toDual x) hx
  rw [IsFirstMin, List.map_append, List.map_singleton]
  rwa [List.length_map] at h'

theorem unique (h : IsFirstMin xs i) {i' : ℕ} (h' : IsFirstMin xs i') : i = i' :=
  IsFirstMax.unique h h'

end IsFirstMin

end Synapse.Theory
