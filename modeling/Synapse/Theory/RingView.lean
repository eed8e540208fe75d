import Mathlib

/-!
# Circular arrays

A circular array keeps its elements in the cells of an array, from a start
cell onwards and wrapping around at the capacity: the element at position `i`
lives in cell `(start + i) % cap`. This module is about that layout alone, for
cells of any type: `ringView` reads the contents off the cells, and the lemmas
say what each of the usual pointer moves does to the contents.

* writing the cell before `start` and moving `start` back prepends
  (`ringView_writePrev`);
* writing the cell after the last element appends (`ringView_writeEnd`);
* moving `start` forward drops the head, shrinking the size drops the last
  element (`ringView_advance`, `ringView_shrink`);
* writing the cell of position `i` replaces element `i` (`ringView_writeAt`).

Each move needs `start < cap` and a size within the capacity, which is what a
circular array keeps as its representation invariant.
-/

namespace Synapse.Theory

variable {α : Type*}

/-! ### Cells and positions -/

/-- Position `i` of a window that starts at `start < cap` and holds at most `cap`
cells wraps at most once. -/
theorem add_mod_of_lt {start i cap : ℕ} (hs : start < cap) (hi : i ≤ cap) :
    (start + i) % cap = if start + i < cap then start + i else start + i - cap := by
  split
  · exact Nat.mod_eq_of_lt ‹_›
  · rw [Nat.mod_eq_sub_mod (by omega), Nat.mod_eq_of_lt (by omega)]

/-- Two positions of one window, fewer than `cap` apart, sit in different cells. -/
theorem add_mod_ne {start i j cap : ℕ} (hs : start < cap) (hi : i < cap) (hj : j < cap)
    (hij : i ≠ j) : (start + i) % cap ≠ (start + j) % cap := by
  rw [add_mod_of_lt hs (Nat.le_of_lt hi), add_mod_of_lt hs (Nat.le_of_lt hj)]
  split <;> split <;> omega

/-- The cell before `start`, wrapping to the last cell: what a circular array
moves its start to when it grows at the front. -/
def prevSlot (start cap : ℕ) : ℕ := if start = 0 then cap - 1 else start - 1

theorem prevSlot_lt {start cap : ℕ} (hs : start < cap) : prevSlot start cap < cap := by
  unfold prevSlot
  split <;> omega

/-- One position past the cell before `start` is `start` again. -/
theorem prevSlot_add_succ {start i cap : ℕ} (hs : start < cap) (hi : i < cap) :
    (prevSlot start cap + (i + 1)) % cap = (start + i) % cap := by
  rw [add_mod_of_lt (prevSlot_lt hs) (by omega), add_mod_of_lt hs (Nat.le_of_lt hi)]
  unfold prevSlot
  split <;> split <;> split <;> omega

/-! ### The contents -/

/-- The `size` elements of a circular array whose cells are `arr`, read from
`start` and wrapping at `cap`. -/
def ringView (arr : ℕ → α) (start size cap : ℕ) : List α :=
  (List.range size).map fun i => arr ((start + i) % cap)

@[simp] theorem length_ringView (arr : ℕ → α) (start size cap : ℕ) :
    (ringView arr start size cap).length = size := by
  simp [ringView]

theorem getElem_ringView (arr : ℕ → α) (start size cap i : ℕ)
    (h : i < (ringView arr start size cap).length) :
    (ringView arr start size cap)[i] = arr ((start + i) % cap) := by
  simp [ringView]

@[simp] theorem ringView_zero (arr : ℕ → α) (start cap : ℕ) : ringView arr start 0 cap = [] := rfl

/-- The contents depend only on the cells inside the window. -/
theorem ringView_congr {arr arr' : ℕ → α} {start size cap : ℕ}
    (h : ∀ i < size, arr ((start + i) % cap) = arr' ((start + i) % cap)) :
    ringView arr start size cap = ringView arr' start size cap := by
  apply List.ext_getElem (by simp)
  intro i h₁ _
  simp only [getElem_ringView]
  exact h i (by simpa using h₁)

/-- The head is the start cell. -/
theorem ringView_head {arr : ℕ → α} {start size cap : ℕ} (hs : start < cap)
    (h : 0 < (ringView arr start size cap).length) :
    (ringView arr start size cap)[0] = arr start := by
  rw [getElem_ringView, Nat.add_zero, Nat.mod_eq_of_lt hs]

/-- Moving the start forward by one cell drops the head. -/
theorem ringView_advance (arr : ℕ → α) (start size cap : ℕ) :
    ringView arr ((start + 1) % cap) (size - 1) cap = (ringView arr start size cap).tail := by
  apply List.ext_getElem (by simp)
  intro i h₁ h₂
  simp only [List.getElem_tail, getElem_ringView]
  simp only [length_ringView] at h₁
  rw [Nat.mod_add_mod]
  congr 2
  omega

/-- Shrinking the size by one drops the last element. -/
theorem ringView_shrink (arr : ℕ → α) (start size cap : ℕ) :
    ringView arr start (size - 1) cap = (ringView arr start size cap).dropLast := by
  apply List.ext_getElem (by simp)
  intro i _ _
  simp [getElem_ringView]

/-- The last element sits `size - 1` cells past the start. -/
theorem ringView_getLast {arr : ℕ → α} {start size cap : ℕ} (h : ringView arr start size cap ≠ []) :
    (ringView arr start size cap).getLast h = arr ((start + (size - 1)) % cap) := by
  rw [List.getLast_eq_getElem, getElem_ringView]
  simp

/-- Writing the cell before the start and moving the start there prepends. -/
theorem ringView_writePrev {arr : ℕ → α} {start size cap : ℕ} (hs : start < cap)
    (hn : size < cap) (v : α) :
    ringView (Function.update arr (prevSlot start cap) v) (prevSlot start cap) (size + 1) cap =
      v :: ringView arr start size cap := by
  apply List.ext_getElem (by simp)
  intro i h₁ _
  simp only [length_ringView] at h₁
  rw [getElem_ringView]
  cases i with
  | zero =>
    rw [Nat.add_zero, Nat.mod_eq_of_lt (prevSlot_lt hs), Function.update_self]
    rfl
  | succ i =>
    rw [prevSlot_add_succ hs (by omega), List.getElem_cons_succ, getElem_ringView]
    apply Function.update_of_ne
    intro heq
    -- the cell of position `i` is the cell of position `cap - 1`, one before the start
    have hlast := prevSlot_add_succ (i := cap - 1) hs (by omega)
    rw [show cap - 1 + 1 = cap by omega, Nat.add_mod_right, Nat.mod_eq_of_lt (prevSlot_lt hs)] at hlast
    exact add_mod_ne hs (by omega) (by omega) (show i ≠ cap - 1 by omega) (heq.trans hlast)

/-- Writing the cell after the last element and growing the size appends. -/
theorem ringView_writeEnd {arr : ℕ → α} {start size cap : ℕ} (hs : start < cap)
    (hn : size < cap) (v : α) :
    ringView (Function.update arr ((start + size) % cap) v) start (size + 1) cap =
      ringView arr start size cap ++ [v] := by
  apply List.ext_getElem (by simp)
  intro i h₁ _
  simp only [length_ringView] at h₁
  rw [getElem_ringView]
  by_cases hi : i < size
  · rw [List.getElem_append_left (by simpa using hi), getElem_ringView,
      Function.update_of_ne (add_mod_ne hs (by omega) hn (by omega))]
  · obtain rfl : i = size := by omega
    rw [List.getElem_append_right (by simp), Function.update_self]
    simp

/-- Writing the cell of position `i` replaces element `i`. -/
theorem ringView_writeAt {arr : ℕ → α} {start size cap i : ℕ} (hs : start < cap)
    (hn : size ≤ cap) (hi : i < size) (v : α) :
    ringView (Function.update arr ((start + i) % cap) v) start size cap =
      (ringView arr start size cap).set i v := by
  apply List.ext_getElem (by simp)
  intro j h₁ _
  simp only [length_ringView] at h₁
  rw [getElem_ringView, List.getElem_set]
  by_cases hij : i = j
  · subst hij
    simp
  · rw [if_neg hij, getElem_ringView, Function.update_of_ne (add_mod_ne hs (by omega) (by omega) (Ne.symm hij))]

/-- Shifting the element after position `i` onto it and dropping the copy left
behind removes element `i`. -/
theorem eraseIdx_set_succ {β : Type*} : ∀ (l : List β) (i : ℕ) (h : i + 1 < l.length),
    (l.set i l[i + 1]).eraseIdx (i + 1) = l.eraseIdx i
  | _ :: _ :: _, 0, _ => rfl
  | x :: t, i + 1, h => by
    have h' : i + 1 < t.length := by simp at h; omega
    simp only [List.set_cons_succ, List.eraseIdx_cons_succ, List.getElem_cons_succ]
    rw [eraseIdx_set_succ t i h']

end Synapse.Theory
