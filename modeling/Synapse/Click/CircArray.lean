import Synapse.Theory.RingView

/-!
# `CircArray`

The ring buffer of the Click elements (`include/click/circ_array.hpp`): an
array of `_capacity` cells, a start cell `_start` and a size `_size`; element
`i` lives in cell `(_start + i) % _capacity`. The element code uses it as
`RingBuffer` (`CircArray<FixedPt>`), the per-port windows of `Buffers`.

## The model

`CircArray T` has the four fields of the class, the cells as a function from
indices to values. The operations are the member functions, each returning the
new object beside its result. The kernel build compiles `assert` to nothing
(`config-linuxmodule.h.in`), so `operator[]` reads without a bound check, and
`pop_front ()` / `pop_back ()` on an empty array return the default-constructed
`T` and leave the array as it was. `pop_at` is its loop, run to the end.

## What is proved here

The representation invariant `Wf` (`_start < _capacity`, `_size <= _capacity`)
and, for every operation, what it does to the contents `toList` (the window
read by `Synapse.Theory.ringView`) and that it keeps `Wf`.
-/

namespace Synapse.Click

open Synapse.Theory

/-- The return codes of `CircArray::RC`. -/
inductive RC where
  | SUCCESS
  | NO_SPACE_ERROR
  | BUFFER_EMPTY_ERROR
  deriving DecidableEq, Repr

/-- `CircArray<T>`. -/
structure CircArray (T : Type) where
  /-- `_array`. -/
  array : ℕ → T
  /-- `_start`. -/
  start : ℕ
  /-- `_size`. -/
  size : ℕ
  /-- `_capacity`. -/
  capacity : ℕ

namespace CircArray

variable {T : Type} [Inhabited T]

/-- `CircArray (capacity)` (`set_initial_values`): `new T[capacity]`, cells
default-constructed, empty. -/
def new (capacity : ℕ) : CircArray T := ⟨fun _ => default, 0, 0, capacity⟩

/-- The contents, front to back. -/
def toList (a : CircArray T) : List T := ringView a.array a.start a.size a.capacity

/-- `occupancy ()`. -/
def occupancy (a : CircArray T) : ℕ := a.size

/-- `is_full ()`. -/
def isFull (a : CircArray T) : Bool := a.size == a.capacity

/-- `operator[] (index)`, read. -/
def get (a : CircArray T) (index : ℕ) : T := a.array ((a.start + index) % a.capacity)

/-- `operator[] (index)`, written. -/
def set (a : CircArray T) (index : ℕ) (value : T) : CircArray T :=
  { a with array := Function.update a.array ((a.start + index) % a.capacity) value }

/-- `RC pop_front (T& value)`: `value` is passed in and comes back unchanged on error. -/
def popFrontRC (a : CircArray T) (value : T) : RC × T × CircArray T :=
  if a.size = 0 then (.BUFFER_EMPTY_ERROR, value, a)
  else (.SUCCESS, a.array a.start, { a with size := a.size - 1, start := (a.start + 1) % a.capacity })

/-- `T pop_front ()`: `pop_front` into a default-constructed `T`. -/
def popFront (a : CircArray T) : T × CircArray T := (a.popFrontRC default).2

omit [Inhabited T] in
theorem popFrontRC_eq (a : CircArray T) (value : T) :
    a.popFrontRC value =
      if a.size = 0 then (.BUFFER_EMPTY_ERROR, value, a)
      else (.SUCCESS, a.array a.start, { a with size := a.size - 1, start := (a.start + 1) % a.capacity }) :=
  rfl

theorem popFront_eq (a : CircArray T) : a.popFront = (a.popFrontRC default).2 := rfl

/-- `RC pop_back (T& value)`. -/
def popBackRC (a : CircArray T) (value : T) : RC × T × CircArray T :=
  if a.size = 0 then (.BUFFER_EMPTY_ERROR, value, a)
  else (.SUCCESS, a.array ((a.start + a.size - 1) % a.capacity), { a with size := a.size - 1 })

/-- `T pop_back ()`. -/
def popBack (a : CircArray T) : T × CircArray T := (a.popBackRC default).2

omit [Inhabited T] in
theorem popBackRC_eq (a : CircArray T) (value : T) :
    a.popBackRC value =
      if a.size = 0 then (.BUFFER_EMPTY_ERROR, value, a)
      else (.SUCCESS, a.array ((a.start + a.size - 1) % a.capacity), { a with size := a.size - 1 }) :=
  rfl

theorem popBack_eq (a : CircArray T) : a.popBack = (a.popBackRC default).2 := rfl

/-- `push_back (value, overwrite_when_full)`: a full array makes room by
`pop_front` when it may overwrite. -/
def pushBack (a : CircArray T) (value : T) (overwriteWhenFull : Bool) : RC × CircArray T :=
  if a.size = a.capacity ∧ overwriteWhenFull = false then (.NO_SPACE_ERROR, a)
  else
    let a := if a.size = a.capacity then a.popFront.2 else a
    (.SUCCESS, { a with array := Function.update a.array ((a.start + a.size) % a.capacity) value,
                        size := a.size + 1 })

/-- `push_front (value, overwrite_when_full)`: a full array makes room by
`pop_back`; the start moves back one cell, to `_capacity - 1` from `0`. -/
def pushFront (a : CircArray T) (value : T) (overwriteWhenFull : Bool) : RC × CircArray T :=
  if a.size = a.capacity ∧ overwriteWhenFull = false then (.NO_SPACE_ERROR, a)
  else
    let a := if a.size = a.capacity then a.popBack.2 else a
    let start := if a.start = 0 then a.capacity - 1 else a.start - 1
    (.SUCCESS, { a with start := start, array := Function.update a.array start value,
                        size := a.size + 1 })

/-- The loop of `pop_at`, from position `i`: shift each later element one to the
left and drop the last one. -/
def popAtLoop (a : CircArray T) (i : ℕ) : CircArray T :=
  if i < a.size then
    if i = a.size - 1 then popAtLoop a.popBack.2 (i + 1)
    else popAtLoop (a.set i (a.get (i + 1))) (i + 1)
  else a
termination_by a.size - i
decreasing_by
  · simp only [popBack, popBackRC]
    split <;> simp <;> omega
  · simp only [set]
    omega

/-- `T pop_at (index)`. -/
def popAt (a : CircArray T) (index : ℕ) : T × CircArray T := (a.get index, a.popAtLoop index)

/-- The copying loop of `deep_copy` and `resize_by_two`: `dst[i] = src[i]` for `i < n`. -/
def copyCells (dst src : CircArray T) (n : ℕ) : CircArray T :=
  (List.range n).foldl (fun d i => d.set i (src.get i)) dst

/-- `deep_copy (lhs, rhs)`, the result being the new `lhs`: with equal capacities
the cells of `lhs` are reused, otherwise fresh default-constructed cells are
allocated; then the state of `rhs` is taken and its elements copied. -/
def deepCopy (lhs rhs : CircArray T) : CircArray T :=
  let cells := if lhs.capacity = rhs.capacity then lhs.array else fun _ => default
  copyCells ⟨cells, rhs.start, rhs.size, rhs.capacity⟩ rhs rhs.size

/-- The copy constructor: `_array = NULL`, so `deep_copy` allocates. -/
def copy (rhs : CircArray T) : CircArray T :=
  copyCells ⟨fun _ => default, rhs.start, rhs.size, rhs.capacity⟩ rhs rhs.size

/-- `operator= (rhs)`. -/
def assign (lhs rhs : CircArray T) : CircArray T := deepCopy lhs rhs

/-- `resize_by_two ()`: the elements copied to the front of a fresh array of
twice the capacity. -/
def resizeByTwo (a : CircArray T) : CircArray T :=
  let temp : CircArray T := ⟨fun _ => default, 0, a.size, a.capacity * 2⟩
  { copyCells temp a a.size with start := 0 }

/-! ### The representation invariant -/

/-- `_start < _capacity` and `_size <= _capacity`. -/
structure Wf (a : CircArray T) : Prop where
  start_lt : a.start < a.capacity
  size_le : a.size ≤ a.capacity

omit [Inhabited T] in
@[simp] theorem length_toList (a : CircArray T) : a.toList.length = a.size := by
  simp [toList]

theorem wf_new {c : ℕ} (hc : 0 < c) : (new c : CircArray T).Wf := ⟨hc, Nat.zero_le _⟩

@[simp] theorem toList_new (c : ℕ) : (new c : CircArray T).toList = [] := rfl

@[simp] theorem capacity_new (c : ℕ) : (new c : CircArray T).capacity = c := rfl

omit [Inhabited T] in
theorem toList_eq_nil {a : CircArray T} : a.toList = [] ↔ a.size = 0 := by
  rw [← List.length_eq_zero_iff, length_toList]

omit [Inhabited T] in
/-- `operator[]` inside the window reads the contents. -/
theorem get_eq_getElem {a : CircArray T} {i : ℕ} (hi : i < a.toList.length) :
    a.get i = a.toList[i] := by
  simp [get, toList, getElem_ringView]

omit [Inhabited T] in
/-- A loop `for (i = 0; i < occupancy (); ++i)` over `operator[]` folds the contents. -/
theorem foldl_range_get {β : Type} (a : CircArray T) (f : β → T → β) (b : β) :
    (List.range a.occupancy).foldl (fun acc i => f acc (a.get i)) b = a.toList.foldl f b := by
  have hcells : (List.range a.occupancy).map a.get = a.toList := by
    refine List.ext_getElem (by simp [occupancy]) fun i _ h₂ => ?_
    rw [List.getElem_map, List.getElem_range, get_eq_getElem h₂]
  rw [← hcells, List.foldl_map]

/-! ### Popping -/

theorem popFront_of_size_eq_zero {a : CircArray T} (h : a.size = 0) : a.popFront = (default, a) := by
  simp [popFront_eq, popFrontRC_eq, h]

theorem popBack_of_size_eq_zero {a : CircArray T} (h : a.size = 0) : a.popBack = (default, a) := by
  simp [popBack_eq, popBackRC_eq, h]

@[simp] theorem capacity_popFront (a : CircArray T) : a.popFront.2.capacity = a.capacity := by
  rw [popFront_eq, popFrontRC_eq]; split <;> rfl

@[simp] theorem capacity_popBack (a : CircArray T) : a.popBack.2.capacity = a.capacity := by
  rw [popBack_eq, popBackRC_eq]; split <;> rfl

@[simp] theorem size_popFront (a : CircArray T) : a.popFront.2.size = a.size - 1 := by
  rw [popFront_eq, popFrontRC_eq]; split <;> simp_all

@[simp] theorem size_popBack (a : CircArray T) : a.popBack.2.size = a.size - 1 := by
  rw [popBack_eq, popBackRC_eq]; split <;> simp_all

theorem Wf.popFront {a : CircArray T} (h : a.Wf) : a.popFront.2.Wf := by
  rw [popFront_eq, popFrontRC_eq]
  split
  · exact h
  · exact ⟨Nat.mod_lt _ (by have := h.1; omega), by have := h.2; simp; omega⟩

theorem Wf.popBack {a : CircArray T} (h : a.Wf) : a.popBack.2.Wf := by
  rw [popBack_eq, popBackRC_eq]
  split
  · exact h
  · exact ⟨h.1, by have := h.2; simp; omega⟩

/-- `pop_front ()` returns the head and leaves the tail. -/
theorem toList_popFront (a : CircArray T) :
    a.popFront.2.toList = a.toList.tail := by
  rw [popFront_eq, popFrontRC_eq]
  split
  · next hz => simp [toList_eq_nil.2 hz]
  · exact ringView_advance _ _ _ _

theorem popFront_fst {a : CircArray T} (h : a.Wf) (hne : a.toList ≠ []) :
    a.popFront.1 = a.toList.head hne := by
  have hpos : 0 < a.toList.length := List.length_pos_iff.2 hne
  rw [List.head_eq_getElem]
  rw [popFront_eq, popFrontRC_eq]
  rw [if_neg (by simp only [length_toList] at hpos; omega)]
  exact (ringView_head h.start_lt hpos).symm

theorem popFront_fst_of_toList {a : CircArray T} (h : a.Wf) {x : T} {l : List T}
    (hl : a.toList = x :: l) : a.popFront.1 = x := by
  rw [popFront_fst h (by simp [hl])]
  simp only [hl, List.head_cons]

/-- `pop_back ()` returns the last element and leaves the rest. -/
theorem toList_popBack (a : CircArray T) : a.popBack.2.toList = a.toList.dropLast := by
  rw [popBack_eq, popBackRC_eq]
  split
  · next hz => simp [toList_eq_nil.2 hz]
  · exact ringView_shrink _ _ _ _

theorem popBack_fst {a : CircArray T} (hne : a.toList ≠ []) :
    a.popBack.1 = a.toList.getLast hne := by
  have hpos : 0 < a.size := by simpa using List.length_pos_iff.2 hne
  rw [popBack_eq, popBackRC_eq]
  rw [if_neg (by omega)]
  simp only [toList]
  rw [ringView_getLast, Nat.add_sub_assoc hpos]

/-! ### Pushing -/

@[simp] theorem capacity_pushFront (a : CircArray T) (v : T) (ow : Bool) :
    (a.pushFront v ow).2.capacity = a.capacity := by
  unfold pushFront; split
  · rfl
  · simp only; split <;> simp

@[simp] theorem capacity_pushBack (a : CircArray T) (v : T) (ow : Bool) :
    (a.pushBack v ow).2.capacity = a.capacity := by
  unfold pushBack; split
  · rfl
  · simp only; split <;> simp

/-- Without room and without leave to overwrite, `push_front` refuses. -/
theorem pushFront_full {a : CircArray T} (hf : a.size = a.capacity) (v : T) :
    a.pushFront v false = (.NO_SPACE_ERROR, a) := by
  simp [pushFront, hf]

theorem pushBack_full {a : CircArray T} (hf : a.size = a.capacity) (v : T) :
    a.pushBack v false = (.NO_SPACE_ERROR, a) := by
  simp [pushBack, hf]

/-- `push_front` into a non-full array writes the cell before the start. -/
theorem pushFront_of_lt {a : CircArray T} (hlt : a.size < a.capacity) (v : T) (ow : Bool) :
    a.pushFront v ow =
      (.SUCCESS, { a with start := prevSlot a.start a.capacity,
                          array := Function.update a.array (prevSlot a.start a.capacity) v,
                          size := a.size + 1 }) := by
  simp [pushFront, Nat.ne_of_lt hlt, prevSlot]

theorem pushBack_of_lt {a : CircArray T} (hlt : a.size < a.capacity) (v : T) (ow : Bool) :
    a.pushBack v ow =
      (.SUCCESS, { a with array := Function.update a.array ((a.start + a.size) % a.capacity) v,
                          size := a.size + 1 }) := by
  simp [pushBack, Nat.ne_of_lt hlt]

/-- Into a non-full array, `push_front` does not look at `overwrite_when_full`. -/
theorem pushFront_overwrite_of_lt {a : CircArray T} (hlt : a.size < a.capacity) (v : T) (ow ow' : Bool) :
    a.pushFront v ow = a.pushFront v ow' := by
  rw [pushFront_of_lt hlt, pushFront_of_lt hlt]

/-- A full array that may overwrite first drops its last element. -/
theorem pushFront_full_true {a : CircArray T} (hf : a.size = a.capacity) (hc : 0 < a.capacity)
    (v : T) : a.pushFront v true = a.popBack.2.pushFront v true := by
  have hlt : a.popBack.2.size ≠ a.popBack.2.capacity := by
    simp only [size_popBack, capacity_popBack]; omega
  unfold pushFront
  simp only [Bool.true_eq_false, and_false, if_false, if_pos hf, if_neg hlt]

theorem pushBack_full_true {a : CircArray T} (hf : a.size = a.capacity) (hc : 0 < a.capacity)
    (v : T) : a.pushBack v true = a.popFront.2.pushBack v true := by
  have hlt : a.popFront.2.size ≠ a.popFront.2.capacity := by
    simp only [size_popFront, capacity_popFront]; omega
  unfold pushBack
  simp only [Bool.true_eq_false, and_false, if_false, if_pos hf, if_neg hlt]

theorem Wf.pushFront_of_lt {a : CircArray T} (h : a.Wf) (hlt : a.size < a.capacity) (v : T)
    (ow : Bool) : (a.pushFront v ow).2.Wf := by
  rw [CircArray.pushFront_of_lt hlt]
  exact ⟨prevSlot_lt h.start_lt, hlt⟩

theorem toList_pushFront_of_lt {a : CircArray T} (h : a.Wf) (hlt : a.size < a.capacity) (v : T)
    (ow : Bool) : (a.pushFront v ow).2.toList = v :: a.toList := by
  rw [CircArray.pushFront_of_lt hlt]
  exact ringView_writePrev h.start_lt hlt v

theorem Wf.pushBack_of_lt {a : CircArray T} (h : a.Wf) (hlt : a.size < a.capacity) (v : T)
    (ow : Bool) : (a.pushBack v ow).2.Wf := by
  rw [CircArray.pushBack_of_lt hlt]
  exact ⟨h.start_lt, hlt⟩

theorem toList_pushBack_of_lt {a : CircArray T} (h : a.Wf) (hlt : a.size < a.capacity) (v : T)
    (ow : Bool) : (a.pushBack v ow).2.toList = a.toList ++ [v] := by
  rw [CircArray.pushBack_of_lt hlt]
  exact ringView_writeEnd h.start_lt hlt v

/-- `push_front (v, true)` keeps the invariant of an array with a cell. -/
theorem Wf.pushFront_true {a : CircArray T} (h : a.Wf) (v : T) : (a.pushFront v true).2.Wf := by
  by_cases hf : a.size = a.capacity
  · rw [pushFront_full_true hf (by have := h.start_lt; omega)]
    exact h.popBack.pushFront_of_lt (by simp; have := h.start_lt; omega) v true
  · exact h.pushFront_of_lt (by have := h.size_le; omega) v true

theorem Wf.pushBack_true {a : CircArray T} (h : a.Wf) (v : T) : (a.pushBack v true).2.Wf := by
  by_cases hf : a.size = a.capacity
  · rw [pushBack_full_true hf (by have := h.start_lt; omega)]
    exact h.popFront.pushBack_of_lt (by simp; have := h.start_lt; omega) v true
  · exact h.pushBack_of_lt (by have := h.size_le; omega) v true

/-- **`push_front (v, true)` is a bounded prepend**: the new element in front,
the contents cut to the capacity. -/
theorem toList_pushFront_true {a : CircArray T} (h : a.Wf) (v : T) :
    (a.pushFront v true).2.toList = (v :: a.toList).take a.capacity := by
  have hcap := h.start_lt
  by_cases hf : a.size = a.capacity
  · rw [pushFront_full_true hf (by omega), toList_pushFront_of_lt h.popBack (by simp; omega),
      toList_popBack, List.dropLast_eq_take, length_toList, hf]
    obtain ⟨c, hc⟩ : ∃ c, a.capacity = c + 1 := ⟨a.capacity - 1, by omega⟩
    rw [hc, List.take_succ_cons, Nat.add_sub_cancel]
  · rw [toList_pushFront_of_lt h (by have := h.size_le; omega),
      List.take_of_length_le (by simp; have := h.size_le; omega)]

/-- `push_back (v, true)` appends, dropping the head of a full array. -/
theorem toList_pushBack_true {a : CircArray T} (h : a.Wf) (v : T) :
    (a.pushBack v true).2.toList = (a.toList ++ [v]).drop (a.size + 1 - a.capacity) := by
  have hcap := h.start_lt
  by_cases hf : a.size = a.capacity
  · rw [pushBack_full_true hf (by omega), toList_pushBack_of_lt h.popFront (by simp; omega),
      toList_popFront, hf, show a.capacity + 1 - a.capacity = 1 by omega]
    obtain ⟨x, l, hl⟩ : ∃ x l, a.toList = x :: l := by
      cases hlist : a.toList with
      | nil => rw [toList_eq_nil] at hlist; omega
      | cons x l => exact ⟨x, l, rfl⟩
    simp [hl]
  · rw [toList_pushBack_of_lt h (by have := h.size_le; omega),
      show a.size + 1 - a.capacity = 0 by have := h.size_le; omega, List.drop_zero]

/-! ### Copying -/

section Copying

omit [Inhabited T]

@[simp] theorem start_set (a : CircArray T) (i : ℕ) (v : T) : (a.set i v).start = a.start := rfl
@[simp] theorem size_set (a : CircArray T) (i : ℕ) (v : T) : (a.set i v).size = a.size := rfl
@[simp] theorem capacity_set (a : CircArray T) (i : ℕ) (v : T) :
    (a.set i v).capacity = a.capacity := rfl

theorem copyCells_succ (dst src : CircArray T) (n : ℕ) :
    copyCells dst src (n + 1) = (copyCells dst src n).set n (src.get n) := by
  simp [copyCells, List.range_succ, List.foldl_append]

@[simp] theorem start_copyCells (dst src : CircArray T) (n : ℕ) :
    (copyCells dst src n).start = dst.start := by
  induction n with
  | zero => rfl
  | succ n ih => rw [copyCells_succ, start_set, ih]

@[simp] theorem size_copyCells (dst src : CircArray T) (n : ℕ) :
    (copyCells dst src n).size = dst.size := by
  induction n with
  | zero => rfl
  | succ n ih => rw [copyCells_succ, size_set, ih]

@[simp] theorem capacity_copyCells (dst src : CircArray T) (n : ℕ) :
    (copyCells dst src n).capacity = dst.capacity := by
  induction n with
  | zero => rfl
  | succ n ih => rw [copyCells_succ, capacity_set, ih]

/-- After the copying loop, position `j` of the window holds `src[j]`: the loop
writes distinct cells, as long as it does not go round the array. -/
theorem copyCells_array (dst src : CircArray T) {n j : ℕ} (hs : dst.start < dst.capacity)
    (hn : n ≤ dst.capacity) (hj : j < n) :
    (copyCells dst src n).array ((dst.start + j) % dst.capacity) = src.get j := by
  induction n with
  | zero => omega
  | succ n ih =>
    rw [copyCells_succ]
    simp only [set, start_copyCells, capacity_copyCells]
    by_cases hjn : j = n
    · subst hjn
      exact Function.update_self _ _ _
    · rw [Function.update_of_ne (add_mod_ne hs (by omega) (by omega) hjn)]
      exact ih (by omega) (by omega)

/-- Copying all the elements of `rhs` into cells laid out as in `rhs` gives its elements. -/
theorem toList_copyCells_self (cells : ℕ → T) {rhs : CircArray T} (h : rhs.Wf) :
    (copyCells ⟨cells, rhs.start, rhs.size, rhs.capacity⟩ rhs rhs.size).toList = rhs.toList := by
  unfold toList
  rw [start_copyCells, size_copyCells, capacity_copyCells]
  exact ringView_congr fun i hi => copyCells_array _ rhs h.start_lt h.size_le hi

end Copying

/-- `operator=` and the copy constructor give the elements of `rhs`, with its
capacity. -/
theorem toList_deepCopy (lhs : CircArray T) {rhs : CircArray T} (h : rhs.Wf) :
    (deepCopy lhs rhs).toList = rhs.toList :=
  toList_copyCells_self _ h

@[simp] theorem capacity_deepCopy (lhs rhs : CircArray T) :
    (deepCopy lhs rhs).capacity = rhs.capacity :=
  capacity_copyCells _ _ _

theorem Wf.deepCopy (lhs : CircArray T) {rhs : CircArray T} (h : rhs.Wf) :
    (CircArray.deepCopy lhs rhs).Wf :=
  ⟨by simpa [CircArray.deepCopy] using h.start_lt, by simpa [CircArray.deepCopy] using h.size_le⟩

theorem toList_assign (lhs : CircArray T) {rhs : CircArray T} (h : rhs.Wf) :
    (lhs.assign rhs).toList = rhs.toList :=
  toList_deepCopy lhs h

@[simp] theorem capacity_assign (lhs rhs : CircArray T) : (lhs.assign rhs).capacity = rhs.capacity :=
  capacity_deepCopy lhs rhs

theorem Wf.assign (lhs : CircArray T) {rhs : CircArray T} (h : rhs.Wf) : (lhs.assign rhs).Wf :=
  h.deepCopy lhs

theorem toList_copy {rhs : CircArray T} (h : rhs.Wf) : (copy rhs).toList = rhs.toList :=
  toList_copyCells_self _ h

@[simp] theorem capacity_copy (rhs : CircArray T) : (copy rhs).capacity = rhs.capacity :=
  capacity_copyCells _ _ _

theorem Wf.copy {rhs : CircArray T} (h : rhs.Wf) : (CircArray.copy rhs).Wf :=
  ⟨by simpa [CircArray.copy] using h.start_lt, by simpa [CircArray.copy] using h.size_le⟩

/-! ### Return codes of the pops -/

omit [Inhabited T] in
theorem popFrontRC_of_size_eq_zero {a : CircArray T} (h : a.size = 0) (value : T) :
    a.popFrontRC value = (.BUFFER_EMPTY_ERROR, value, a) := by
  simp [popFrontRC_eq, h]

theorem popFrontRC_of_ne_zero {a : CircArray T} (h : a.size ≠ 0) (value : T) :
    a.popFrontRC value = (.SUCCESS, a.popFront.1, a.popFront.2) := by
  simp [popFront_eq, popFrontRC_eq, h]

omit [Inhabited T] in
theorem popBackRC_of_size_eq_zero {a : CircArray T} (h : a.size = 0) (value : T) :
    a.popBackRC value = (.BUFFER_EMPTY_ERROR, value, a) := by
  simp [popBackRC_eq, h]

theorem popBackRC_of_ne_zero {a : CircArray T} (h : a.size ≠ 0) (value : T) :
    a.popBackRC value = (.SUCCESS, a.popBack.1, a.popBack.2) := by
  simp [popBack_eq, popBackRC_eq, h]

/-! ### `pop_at` -/

omit [Inhabited T] in
theorem Wf.set {a : CircArray T} (h : a.Wf) (i : ℕ) (v : T) : (a.set i v).Wf := ⟨h.start_lt, h.size_le⟩

omit [Inhabited T] in
theorem toList_set {a : CircArray T} (h : a.Wf) {i : ℕ} (hi : i < a.size) (v : T) :
    (a.set i v).toList = a.toList.set i v :=
  ringView_writeAt h.start_lt h.size_le hi v

theorem Wf.popAtLoop {a : CircArray T} (h : a.Wf) (i : ℕ) : (a.popAtLoop i).Wf := by
  induction a, i using CircArray.popAtLoop.induct with
  | case1 a hi ih =>
    rw [CircArray.popAtLoop, if_pos hi, if_pos rfl]
    exact ih h.popBack
  | case2 a i hi hne ih =>
    rw [CircArray.popAtLoop, if_pos hi, if_neg hne]
    exact ih (h.set _ _)
  | case3 a i hi =>
    rw [CircArray.popAtLoop, if_neg hi]
    exact h

@[simp] theorem capacity_popAtLoop (a : CircArray T) (i : ℕ) : (a.popAtLoop i).capacity = a.capacity := by
  induction a, i using CircArray.popAtLoop.induct with
  | case1 a hi ih => rw [CircArray.popAtLoop, if_pos hi, if_pos rfl, ih, capacity_popBack]
  | case2 a i hi hne ih => rw [CircArray.popAtLoop, if_pos hi, if_neg hne, ih]; rfl
  | case3 a i hi => rw [CircArray.popAtLoop, if_neg hi]

/-- **`pop_at (i)` removes element `i`**, the loop shifting each later element one
to the left. -/
theorem toList_popAtLoop {a : CircArray T} (h : a.Wf) (i : ℕ) :
    (a.popAtLoop i).toList = a.toList.eraseIdx i := by
  induction a, i using CircArray.popAtLoop.induct with
  | case1 a hi ih =>
    -- the last position: `pop_back` drops it
    rw [CircArray.popAtLoop, if_pos hi, if_pos rfl, ih h.popBack, toList_popBack,
      List.eraseIdx_of_length_le (by simp), ← length_toList, List.eraseIdx_length_sub_one]
  | case2 a i hi hne ih =>
    -- an earlier position takes the element after it
    have hi1 : i + 1 < a.toList.length := by simp; omega
    rw [CircArray.popAtLoop, if_pos hi, if_neg hne, ih (h.set _ _), toList_set h hi,
      get_eq_getElem hi1, eraseIdx_set_succ _ _ hi1]
  | case3 a i hi =>
    rw [CircArray.popAtLoop, if_neg hi, List.eraseIdx_of_length_le (by simp; omega)]

/-! ### `resize_by_two` -/

@[simp] theorem capacity_resizeByTwo (a : CircArray T) : a.resizeByTwo.capacity = a.capacity * 2 := by
  simp [resizeByTwo]

theorem Wf.resizeByTwo {a : CircArray T} (h : a.Wf) : a.resizeByTwo.Wf := by
  have := h.start_lt
  have := h.size_le
  exact ⟨by simp [CircArray.resizeByTwo]; omega, by simp [CircArray.resizeByTwo]; omega⟩

/-- `resize_by_two ()` keeps the elements, now from cell `0`. -/
theorem toList_resizeByTwo {a : CircArray T} (h : a.Wf) : a.resizeByTwo.toList = a.toList := by
  have hs := h.start_lt
  have hn := h.size_le
  apply List.ext_getElem (by simp [resizeByTwo])
  intro i h₁ h₂
  have hcell := copyCells_array (⟨fun _ => default, 0, a.size, a.capacity * 2⟩ : CircArray T) a
    (n := a.size) (j := i) (by simp; omega) (by simp; omega) (by simpa [resizeByTwo] using h₁)
  simp only [resizeByTwo, toList, getElem_ringView, capacity_copyCells]
  exact hcell

end CircArray

end Synapse.Click
