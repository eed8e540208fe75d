import Mathlib

/-!
# Bounded deques

What a ring buffer is for: a list that never grows past a capacity, with the
operations of a double-ended queue on it. Pushing onto a full deque either is
refused or, when it may overwrite, first drops the element at the other end;
popping from an empty deque is refused. The bound is a field of the structure, so
every operation has to show that it keeps it.

`items_foldl_pushBackOverwrite` says what a run of overwriting pushes leaves: the
last `capacity` elements pushed, `List.rtake` of them; `rtake_concat_rtake` is its
step on the list alone. A ring buffer is shown to implement a bounded deque by relating its state to one
and proving, for each of its operations, that the result is related to what the
deque's operation gives.
-/

namespace Synapse.Theory

universe u

/-! ### The last elements of a list -/

/-- The window of the last `r` elements, with one more appended, cut to `r` again is
the window of the longer list. -/
theorem rtake_concat_rtake {α : Type*} (l : List α) (x : α) (r : ℕ) :
    (l.rtake r ++ [x]).rtake r = (l ++ [x]).rtake r := by
  cases r with
  | zero => simp [List.rtake_zero]
  | succ r =>
    rw [List.rtake_concat_succ, List.rtake_concat_succ]
    simp only [List.rtake_eq_reverse_take_reverse, List.reverse_reverse, List.take_take]
    rw [Nat.min_eq_left (Nat.le_succ r)]

theorem map_rtake {α β : Type*} (f : α → β) (l : List α) (n : ℕ) : (l.map f).rtake n = (l.rtake n).map f := by
  simp [List.rtake, List.map_drop]

/-- A list of at most `capacity` elements, with a positive capacity. -/
structure BoundedDeque (α : Type u) where
  /-- The largest number of elements. -/
  capacity : ℕ
  /-- The elements, front first. -/
  items : List α
  capacity_pos : 0 < capacity
  length_le : items.length ≤ capacity

namespace BoundedDeque

variable {α : Type u}

/-- The empty deque of capacity `c`. -/
def empty (c : ℕ) (hc : 0 < c) : BoundedDeque α := ⟨c, [], hc, Nat.zero_le _⟩

/-- Append `v`; a full deque drops its front first when it may overwrite, and is
left as it is otherwise (`none`). -/
def pushBack (d : BoundedDeque α) (v : α) (overwrite : Bool) : Option (BoundedDeque α) :=
  if h : d.items.length < d.capacity then
    some ⟨d.capacity, d.items ++ [v], d.capacity_pos, by simp; omega⟩
  else if overwrite then
    some ⟨d.capacity, d.items.tail ++ [v], d.capacity_pos,
      by simp; have := d.length_le; have := d.capacity_pos; omega⟩
  else none

/-- Append `v`, dropping the front of a full deque: a `pushBack` that always
overwrites. -/
def pushBackOverwrite (d : BoundedDeque α) (v : α) : BoundedDeque α :=
  ⟨d.capacity, (d.items ++ [v]).drop (d.items.length + 1 - d.capacity), d.capacity_pos,
    by simp; have := d.length_le; omega⟩

/-- Prepend `v`; a full deque drops its back first when it may overwrite. -/
def pushFront (d : BoundedDeque α) (v : α) (overwrite : Bool) : Option (BoundedDeque α) :=
  if h : d.items.length < d.capacity then
    some ⟨d.capacity, v :: d.items, d.capacity_pos, by simp; omega⟩
  else if overwrite then
    some ⟨d.capacity, v :: d.items.dropLast, d.capacity_pos,
      by simp; have := d.length_le; have := d.capacity_pos; omega⟩
  else none

/-- Remove and return the front element. -/
def popFront (d : BoundedDeque α) : Option (α × BoundedDeque α) :=
  d.items.head?.map fun x =>
    (x, ⟨d.capacity, d.items.tail, d.capacity_pos, by simp; have := d.length_le; omega⟩)

/-- Remove and return the back element. -/
def popBack (d : BoundedDeque α) : Option (α × BoundedDeque α) :=
  d.items.getLast?.map fun x =>
    (x, ⟨d.capacity, d.items.dropLast, d.capacity_pos, by simp; have := d.length_le; omega⟩)

/-- Remove and return element `i`, the others keeping their order. -/
def popAt (d : BoundedDeque α) (i : ℕ) : Option (α × BoundedDeque α) :=
  if h : i < d.items.length then
    some (d.items[i], ⟨d.capacity, d.items.eraseIdx i, d.capacity_pos,
      by rw [List.length_eraseIdx_of_lt h]; have := d.length_le; omega⟩)
  else none

/-- The same elements with twice the capacity. -/
def grow (d : BoundedDeque α) : BoundedDeque α :=
  ⟨d.capacity * 2, d.items, by have := d.capacity_pos; omega, by have := d.length_le; omega⟩

theorem pushBack_of_lt {d : BoundedDeque α} (h : d.items.length < d.capacity) (v : α) (overwrite : Bool) :
    (d.pushBack v overwrite).map items = some (d.items ++ [v]) := by
  simp [pushBack, h]

theorem pushBack_full {d : BoundedDeque α} (h : d.items.length = d.capacity) (v : α) :
    (d.pushBack v true).map items = some (d.items.tail ++ [v]) ∧ d.pushBack v false = none := by
  simp [pushBack, h]

theorem pushFront_of_lt {d : BoundedDeque α} (h : d.items.length < d.capacity) (v : α) (overwrite : Bool) :
    (d.pushFront v overwrite).map items = some (v :: d.items) := by
  simp [pushFront, h]

theorem pushFront_full {d : BoundedDeque α} (h : d.items.length = d.capacity) (v : α) :
    (d.pushFront v true).map items = some (v :: d.items.dropLast) ∧ d.pushFront v false = none := by
  simp [pushFront, h]

@[simp] theorem capacity_of_pushBack {d d' : BoundedDeque α} {v : α} {overwrite : Bool}
    (h : d.pushBack v overwrite = some d') : d'.capacity = d.capacity := by
  unfold pushBack at h
  split_ifs at h <;> cases h <;> rfl

@[simp] theorem capacity_of_pushFront {d d' : BoundedDeque α} {v : α} {overwrite : Bool}
    (h : d.pushFront v overwrite = some d') : d'.capacity = d.capacity := by
  unfold pushFront at h
  split_ifs at h <;> cases h <;> rfl

@[simp] theorem capacity_pushBackOverwrite (d : BoundedDeque α) (v : α) : (d.pushBackOverwrite v).capacity = d.capacity :=
  rfl

@[simp] theorem capacity_foldl_pushBackOverwrite (vs : List α) (d : BoundedDeque α) :
    (vs.foldl pushBackOverwrite d).capacity = d.capacity := by
  induction vs generalizing d with
  | nil => rfl
  | cons v vs ih => rw [List.foldl_cons, ih, capacity_pushBackOverwrite]

/-- **The window of a run of overwriting pushes**: the last `capacity` of the elements
pushed after those already there. -/
theorem items_foldl_pushBackOverwrite (vs : List α) (d : BoundedDeque α) :
    (vs.foldl pushBackOverwrite d).items = (d.items ++ vs).drop ((d.items ++ vs).length - d.capacity) := by
  induction vs generalizing d with
  | nil =>
    rw [List.foldl_nil, List.append_nil, Nat.sub_eq_zero_of_le d.length_le, List.drop_zero]
  | cons v vs ih =>
    have hle := d.length_le
    rw [List.foldl_cons, ih, capacity_pushBackOverwrite]
    simp only [pushBackOverwrite]
    rw [← List.drop_append_of_le_length (by simp), List.drop_drop, List.append_assoc, List.singleton_append]
    congr 1
    simp only [List.length_append, List.length_drop, List.length_cons]
    omega

end BoundedDeque

end Synapse.Theory
