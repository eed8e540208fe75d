import Synapse.Click.CircArray
import Synapse.Click.FixedPt
import Synapse.Theory.BoundedDeque

/-!
# `CircArray` implements a bounded deque

The members of `CircArray` as calls on one array (`Call`), each with what it
returns (`Reply`), against the operations of a `Theory.BoundedDeque`: an array
stands for the deque with its capacity and its contents (`Abs`).

The hand-coded program has its own copy of the class (`hand_coded/circ_array.hpp`):
the same text but for `deep_copy`, which always frees the cells of `lhs` and
allocates fresh ones before it reads `rhs`. Whether that matters depends on whether
`lhs` and `rhs` are one array, so `HandCoded.deepCopy` takes the program's arrays
by address (a store, as `ℕ → CircArray T`), writes `lhs` and reads `rhs` from the
store after that write.

## What is proved

* `Abs.call`: a call on an array that stands for a deque returns what the deque's
  operation returns, and leaves an array that stands for the deque after it, as
  long as an index it is given is inside the deque (`operator[]` and `pop_at`
  assert it).
* `Wf.run`: the representation invariant holds after any calls.
* `circ_array_deque`: from `CircArray (c)`, `c ≥ 1`, every run of calls keeps the
  invariant and, when its indices are inside, returns what the deque returns;
  `operator=` and the copy constructor give the contents and the capacity of their
  source, and so does the hand-coded `deep_copy` between two arrays; the hand-coded
  `a = a` leaves `a` with its size and default cells.
* `hand_coded_self_assignment`: `a = a` on a hand-coded array of the `FixedPt`s
  `5` and `7` leaves two zeros.
-/

namespace Synapse.Click

open Synapse.Theory

/-- A call of a member function of `CircArray`, with its arguments. -/
inductive Call (T : Type)
  /-- `push_back (value, overwrite_when_full)`. -/
  | pushBack (value : T) (overwriteWhenFull : Bool)
  /-- `push_front (value, overwrite_when_full)`. -/
  | pushFront (value : T) (overwriteWhenFull : Bool)
  /-- `pop_front (value)`, with the value the caller passes in. -/
  | popFront (value : T)
  /-- `pop_back (value)`. -/
  | popBack (value : T)
  /-- `operator[] (index)`, read. -/
  | get (index : ℕ)
  /-- `pop_at (index)`. -/
  | popAt (index : ℕ)
  /-- `resize_by_two ()`. -/
  | resizeByTwo
  /-- The array replaced by a copy of itself (`CircArray (const CircArray&)`). -/
  | copy

/-- What a call returns. -/
inductive Reply (T : Type)
  /-- The `RC` of a push. -/
  | rc (rc : RC)
  /-- The `RC` of a pop and the value it leaves in its argument. -/
  | popped (rc : RC) (value : T)
  /-- An element. -/
  | value (value : T)
  /-- Nothing. -/
  | done
  deriving DecidableEq

namespace CircArray

variable {T : Type} [Inhabited T]

/-- One call: its reply and the array after it. -/
def call (a : CircArray T) : Call T → Reply T × CircArray T
  | .pushBack v ow => (.rc (a.pushBack v ow).1, (a.pushBack v ow).2)
  | .pushFront v ow => (.rc (a.pushFront v ow).1, (a.pushFront v ow).2)
  | .popFront value => (.popped (a.popFrontRC value).1 (a.popFrontRC value).2.1, (a.popFrontRC value).2.2)
  | .popBack value => (.popped (a.popBackRC value).1 (a.popBackRC value).2.1, (a.popBackRC value).2.2)
  | .get i => (.value (a.get i), a)
  | .popAt i => (.value (a.popAt i).1, (a.popAt i).2)
  | .resizeByTwo => (.done, a.resizeByTwo)
  | .copy => (.done, CircArray.copy a)

section CallEquations

variable (a : CircArray T)

@[simp] theorem call_pushBack (v : T) (ow : Bool) :
    a.call (.pushBack v ow) = (.rc (a.pushBack v ow).1, (a.pushBack v ow).2) := rfl
@[simp] theorem call_pushFront (v : T) (ow : Bool) :
    a.call (.pushFront v ow) = (.rc (a.pushFront v ow).1, (a.pushFront v ow).2) := rfl
@[simp] theorem call_popFront (value : T) :
    a.call (.popFront value) =
      (.popped (a.popFrontRC value).1 (a.popFrontRC value).2.1, (a.popFrontRC value).2.2) := rfl
@[simp] theorem call_popBack (value : T) :
    a.call (.popBack value) = (.popped (a.popBackRC value).1 (a.popBackRC value).2.1, (a.popBackRC value).2.2) :=
  rfl
@[simp] theorem call_get (i : ℕ) : a.call (.get i) = (.value (a.get i), a) := rfl
@[simp] theorem call_popAt (i : ℕ) : a.call (.popAt i) = (.value (a.popAt i).1, (a.popAt i).2) := rfl
@[simp] theorem call_resizeByTwo : a.call .resizeByTwo = (.done, a.resizeByTwo) := rfl
@[simp] theorem call_copy : a.call .copy = (.done, CircArray.copy a) := rfl

end CallEquations

/-- Calls one after another: the replies and the final array. -/
def run (a : CircArray T) : List (Call T) → List (Reply T) × CircArray T
  | [] => ([], a)
  | c :: cs => ((a.call c).1 :: ((a.call c).2.run cs).1, ((a.call c).2.run cs).2)

end CircArray

section Deque

variable {T : Type} [Inhabited T]

/-- The deque's answer to a call, with `RC`s for the refusals. -/
def dequeCall (d : BoundedDeque T) : Call T → Reply T × BoundedDeque T
  | .pushBack v ow =>
    match d.pushBack v ow with
    | some d' => (.rc .SUCCESS, d')
    | none => (.rc .NO_SPACE_ERROR, d)
  | .pushFront v ow =>
    match d.pushFront v ow with
    | some d' => (.rc .SUCCESS, d')
    | none => (.rc .NO_SPACE_ERROR, d)
  | .popFront value =>
    match d.popFront with
    | some (x, d') => (.popped .SUCCESS x, d')
    | none => (.popped .BUFFER_EMPTY_ERROR value, d)
  | .popBack value =>
    match d.popBack with
    | some (x, d') => (.popped .SUCCESS x, d')
    | none => (.popped .BUFFER_EMPTY_ERROR value, d)
  | .get i => (.value (d.items.getD i default), d)
  | .popAt i =>
    match d.popAt i with
    | some (x, d') => (.value x, d')
    | none => (.value default, d)
  | .resizeByTwo => (.done, d.grow)
  | .copy => (.done, d)

section DequeCallEquations

variable (d : BoundedDeque T)

@[simp] theorem dequeCall_pushBack (v : T) (ow : Bool) :
    dequeCall d (.pushBack v ow) =
      match d.pushBack v ow with
      | some d' => (.rc .SUCCESS, d')
      | none => (.rc .NO_SPACE_ERROR, d) := rfl
@[simp] theorem dequeCall_pushFront (v : T) (ow : Bool) :
    dequeCall d (.pushFront v ow) =
      match d.pushFront v ow with
      | some d' => (.rc .SUCCESS, d')
      | none => (.rc .NO_SPACE_ERROR, d) := rfl
@[simp] theorem dequeCall_popFront (value : T) :
    dequeCall d (.popFront value) =
      match d.popFront with
      | some (x, d') => (.popped .SUCCESS x, d')
      | none => (.popped .BUFFER_EMPTY_ERROR value, d) := rfl
@[simp] theorem dequeCall_popBack (value : T) :
    dequeCall d (.popBack value) =
      match d.popBack with
      | some (x, d') => (.popped .SUCCESS x, d')
      | none => (.popped .BUFFER_EMPTY_ERROR value, d) := rfl
@[simp] theorem dequeCall_get (i : ℕ) : dequeCall d (.get i) = (.value (d.items.getD i default), d) := rfl
@[simp] theorem dequeCall_popAt (i : ℕ) :
    dequeCall d (.popAt i) =
      match d.popAt i with
      | some (x, d') => (.value x, d')
      | none => (.value default, d) := rfl
@[simp] theorem dequeCall_resizeByTwo : dequeCall d .resizeByTwo = (.done, d.grow) := rfl
@[simp] theorem dequeCall_copy : dequeCall d .copy = (.done, d) := rfl

end DequeCallEquations

/-- Calls on the deque one after another. -/
def dequeRun (d : BoundedDeque T) : List (Call T) → List (Reply T) × BoundedDeque T
  | [] => ([], d)
  | c :: cs => ((dequeCall d c).1 :: (dequeRun (dequeCall d c).2 cs).1, (dequeRun (dequeCall d c).2 cs).2)

/-- A call whose index is inside the deque. -/
def Call.Valid (d : BoundedDeque T) : Call T → Prop
  | .get i => i < d.items.length
  | .popAt i => i < d.items.length
  | _ => True

/-- Every call of a run has its index inside the deque it is made on. -/
def ValidRun : BoundedDeque T → List (Call T) → Prop
  | _, [] => True
  | d, c :: cs => c.Valid d ∧ ValidRun (dequeCall d c).2 cs

end Deque

namespace CircArray

variable {T : Type} [Inhabited T]

/-- The array `a` stands for the deque `d`: it is well formed, with `d`'s capacity
and contents. -/
structure Abs (a : CircArray T) (d : BoundedDeque T) : Prop where
  wf : a.Wf
  capacity_eq : a.capacity = d.capacity
  toList_eq : a.toList = d.items

omit [Inhabited T] in
theorem Abs.size_eq {a : CircArray T} {d : BoundedDeque T} (h : Abs a d) : a.size = d.items.length := by
  rw [← length_toList, h.toList_eq]

section Calls

variable {a : CircArray T} {d : BoundedDeque T}

theorem Abs.pushBack (h : Abs a d) (v : T) (ow : Bool) :
    (a.call (.pushBack v ow)).1 = (dequeCall d (.pushBack v ow)).1 ∧
      Abs (a.call (.pushBack v ow)).2 (dequeCall d (.pushBack v ow)).2 := by
  have hcap := h.wf.start_lt
  by_cases hlt : a.size < a.capacity
  · have hd : d.items.length < d.capacity := by rw [← h.size_eq, ← h.capacity_eq]; exact hlt
    simp only [call_pushBack, dequeCall_pushBack, BoundedDeque.pushBack, dif_pos hd]
    refine ⟨by rw [pushBack_of_lt hlt], h.wf.pushBack_of_lt hlt v ow, by simp [h.capacity_eq], ?_⟩
    rw [toList_pushBack_of_lt h.wf hlt, h.toList_eq]
  · have hfull : a.size = a.capacity := by have := h.wf.size_le; omega
    have hd : ¬d.items.length < d.capacity := by rw [← h.size_eq, ← h.capacity_eq]; exact hlt
    cases ow with
    | false =>
      simp only [call_pushBack, dequeCall_pushBack, BoundedDeque.pushBack, dif_neg hd, pushBack_full hfull,
        Bool.false_eq_true, ↓reduceIte]
      exact ⟨trivial, h⟩
    | true =>
      simp only [call_pushBack, dequeCall_pushBack, BoundedDeque.pushBack, dif_neg hd, if_true]
      refine ⟨?_, h.wf.pushBack_true v, by simp [h.capacity_eq], ?_⟩
      · rw [pushBack_full_true hfull (by omega), pushBack_of_lt (by simp; omega)]
      · have hne : d.items ≠ [] := by rw [← h.toList_eq, Ne, toList_eq_nil]; omega
        rw [toList_pushBack_true h.wf, hfull, show a.capacity + 1 - a.capacity = 1 by omega, h.toList_eq]
        obtain ⟨x, l, hl⟩ := List.exists_cons_of_ne_nil hne
        simp [hl]

theorem Abs.pushFront (h : Abs a d) (v : T) (ow : Bool) :
    (a.call (.pushFront v ow)).1 = (dequeCall d (.pushFront v ow)).1 ∧
      Abs (a.call (.pushFront v ow)).2 (dequeCall d (.pushFront v ow)).2 := by
  have hcap := h.wf.start_lt
  by_cases hlt : a.size < a.capacity
  · have hd : d.items.length < d.capacity := by rw [← h.size_eq, ← h.capacity_eq]; exact hlt
    simp only [call_pushFront, dequeCall_pushFront, BoundedDeque.pushFront, dif_pos hd]
    refine ⟨by rw [pushFront_of_lt hlt], h.wf.pushFront_of_lt hlt v ow, by simp [h.capacity_eq], ?_⟩
    rw [toList_pushFront_of_lt h.wf hlt, h.toList_eq]
  · have hfull : a.size = a.capacity := by have := h.wf.size_le; omega
    have hd : ¬d.items.length < d.capacity := by rw [← h.size_eq, ← h.capacity_eq]; exact hlt
    cases ow with
    | false =>
      simp only [call_pushFront, dequeCall_pushFront, BoundedDeque.pushFront, dif_neg hd, pushFront_full hfull,
        Bool.false_eq_true, ↓reduceIte]
      exact ⟨trivial, h⟩
    | true =>
      simp only [call_pushFront, dequeCall_pushFront, BoundedDeque.pushFront, dif_neg hd, if_true]
      refine ⟨?_, h.wf.pushFront_true v, by simp [h.capacity_eq], ?_⟩
      · rw [pushFront_full_true hfull (by omega), pushFront_of_lt (by simp; omega)]
      · have hlen : d.items.length = d.capacity := by rw [← h.size_eq, ← h.capacity_eq]; exact hfull
        rw [toList_pushFront_true h.wf, h.toList_eq, h.capacity_eq]
        show _ = v :: d.items.dropLast
        rw [← hlen, List.dropLast_eq_take]
        obtain ⟨n, hn⟩ : ∃ n, d.items.length = n + 1 := ⟨d.items.length - 1, by have := d.capacity_pos; omega⟩
        rw [hn, List.take_succ_cons, Nat.add_sub_cancel]

theorem Abs.popFront (h : Abs a d) (value : T) :
    (a.call (.popFront value)).1 = (dequeCall d (.popFront value)).1 ∧
      Abs (a.call (.popFront value)).2 (dequeCall d (.popFront value)).2 := by
  cases hl : d.items with
  | nil =>
    have hz : a.size = 0 := by rw [h.size_eq, hl]; rfl
    simp only [call_popFront, dequeCall_popFront, BoundedDeque.popFront, hl, List.head?_nil, Option.map_none,
      popFrontRC_of_size_eq_zero hz]
    exact ⟨trivial, h⟩
  | cons x l =>
    have hz : a.size ≠ 0 := by rw [h.size_eq, hl]; simp
    have hlist : a.toList = x :: l := h.toList_eq.trans hl
    simp only [call_popFront, dequeCall_popFront, BoundedDeque.popFront, hl, List.head?_cons, Option.map_some,
      popFrontRC_of_ne_zero hz, popFront_fst_of_toList h.wf hlist]
    refine ⟨trivial, h.wf.popFront, by simp [h.capacity_eq], ?_⟩
    rw [toList_popFront, hlist]

theorem Abs.popBack (h : Abs a d) (value : T) :
    (a.call (.popBack value)).1 = (dequeCall d (.popBack value)).1 ∧
      Abs (a.call (.popBack value)).2 (dequeCall d (.popBack value)).2 := by
  by_cases hz : a.size = 0
  · have hl : d.items = [] := by rw [← h.toList_eq, toList_eq_nil]; exact hz
    simp only [call_popBack, dequeCall_popBack, BoundedDeque.popBack, hl, List.getLast?_nil, Option.map_none,
      popBackRC_of_size_eq_zero hz]
    exact ⟨trivial, h⟩
  · have hne : a.toList ≠ [] := by rw [Ne, toList_eq_nil]; exact hz
    have hlast : d.items.getLast? = some (a.toList.getLast hne) := by
      rw [← List.getLast?_eq_some_getLast hne, h.toList_eq]
    simp only [call_popBack, dequeCall_popBack, BoundedDeque.popBack, hlast, Option.map_some,
      popBackRC_of_ne_zero hz, popBack_fst hne]
    refine ⟨trivial, h.wf.popBack, by simp [h.capacity_eq], ?_⟩
    rw [toList_popBack, h.toList_eq]

theorem Abs.get (h : Abs a d) {i : ℕ} (hi : i < d.items.length) :
    (a.call (.get i)).1 = (dequeCall d (.get i)).1 ∧ Abs (a.call (.get i)).2 (dequeCall d (.get i)).2 := by
  have hi' : i < a.toList.length := by rw [h.toList_eq]; exact hi
  simp only [call_get, dequeCall_get, get_eq_getElem hi', List.getD_eq_getElem?_getD,
    List.getElem?_eq_getElem hi, Option.getD_some]
  exact ⟨by simp [h.toList_eq], h⟩

theorem Abs.popAt (h : Abs a d) {i : ℕ} (hi : i < d.items.length) :
    (a.call (.popAt i)).1 = (dequeCall d (.popAt i)).1 ∧
      Abs (a.call (.popAt i)).2 (dequeCall d (.popAt i)).2 := by
  have hi' : i < a.toList.length := by rw [h.toList_eq]; exact hi
  simp only [call_popAt, dequeCall_popAt, BoundedDeque.popAt, dif_pos hi, CircArray.popAt, get_eq_getElem hi']
  refine ⟨by simp [h.toList_eq], h.wf.popAtLoop i, by simp [h.capacity_eq], ?_⟩
  rw [toList_popAtLoop h.wf, h.toList_eq]

theorem Abs.resizeByTwo (h : Abs a d) :
    (a.call .resizeByTwo).1 = (dequeCall d .resizeByTwo).1 ∧
      Abs (a.call .resizeByTwo).2 (dequeCall d .resizeByTwo).2 :=
  ⟨rfl, h.wf.resizeByTwo, by simp [BoundedDeque.grow, h.capacity_eq],
    by simp [BoundedDeque.grow, toList_resizeByTwo h.wf, h.toList_eq]⟩

theorem Abs.copy (h : Abs a d) :
    (a.call .copy).1 = (dequeCall d .copy).1 ∧ Abs (a.call .copy).2 (dequeCall d .copy).2 :=
  ⟨rfl, h.wf.copy, by simp [h.capacity_eq], by simp [toList_copy h.wf, h.toList_eq]⟩

end Calls

/-- **Each member is the deque's operation.** -/
theorem Abs.call {a : CircArray T} {d : BoundedDeque T} (h : Abs a d) :
    ∀ {c : Call T}, c.Valid d → (a.call c).1 = (dequeCall d c).1 ∧ Abs (a.call c).2 (dequeCall d c).2
  | .pushBack v ow, _ => h.pushBack v ow
  | .pushFront v ow, _ => h.pushFront v ow
  | .popFront value, _ => h.popFront value
  | .popBack value, _ => h.popBack value
  | .get _, hi => h.get hi
  | .popAt _, hi => h.popAt hi
  | .resizeByTwo, _ => h.resizeByTwo
  | .copy, _ => h.copy

theorem Abs.run {a : CircArray T} {d : BoundedDeque T} (h : Abs a d) :
    ∀ {cs : List (Call T)}, ValidRun d cs → (a.run cs).1 = (dequeRun d cs).1 ∧ Abs (a.run cs).2 (dequeRun d cs).2
  | [], _ => ⟨rfl, h⟩
  | c :: cs, ⟨hc, hcs⟩ => by
    obtain ⟨hreply, habs⟩ := h.call hc
    obtain ⟨hreplies, hend⟩ := habs.run hcs
    exact ⟨by simp only [CircArray.run, dequeRun, hreply, hreplies], hend⟩

/-- Every call keeps the representation invariant, whatever its index. -/
theorem Wf.call {a : CircArray T} (h : a.Wf) : ∀ c : Call T, (a.call c).2.Wf
  | .pushBack v ow => by
    by_cases hlt : a.size < a.capacity
    · exact h.pushBack_of_lt hlt v ow
    · cases ow with
      | false => simp only [call_pushBack, pushBack_full (show a.size = a.capacity by have := h.size_le; omega)]; exact h
      | true => exact h.pushBack_true v
  | .pushFront v ow => by
    by_cases hlt : a.size < a.capacity
    · exact h.pushFront_of_lt hlt v ow
    · cases ow with
      | false => simp only [call_pushFront, pushFront_full (show a.size = a.capacity by have := h.size_le; omega)]; exact h
      | true => exact h.pushFront_true v
  | .popFront value => by
    by_cases hz : a.size = 0
    · simp only [call_popFront, popFrontRC_of_size_eq_zero hz]; exact h
    · simp only [call_popFront, popFrontRC_of_ne_zero hz]; exact h.popFront
  | .popBack value => by
    by_cases hz : a.size = 0
    · simp only [call_popBack, popBackRC_of_size_eq_zero hz]; exact h
    · simp only [call_popBack, popBackRC_of_ne_zero hz]; exact h.popBack
  | .get _ => h
  | .popAt i => h.popAtLoop i
  | .resizeByTwo => h.resizeByTwo
  | .copy => h.copy

theorem Wf.run {a : CircArray T} (h : a.Wf) : ∀ cs : List (Call T), (a.run cs).2.Wf
  | [] => h
  | c :: cs => (h.call c).run cs

end CircArray

/-! ### The hand-coded copy -/

namespace HandCoded

variable {T : Type} [Inhabited T]

/-- `deep_copy (lhs, rhs)` of the hand-coded copy, on the arrays of the program by
address: `lhs` takes the state of `rhs` with fresh default cells, and the loop then
copies `rhs [i]` into `lhs [i]`, reading `rhs` as the store holds it after that
write. -/
def deepCopy (mem : ℕ → CircArray T) (lhs rhs : ℕ) : ℕ → CircArray T :=
  let fresh := Function.update mem lhs ⟨fun _ => default, (mem rhs).start, (mem rhs).size, (mem rhs).capacity⟩
  Function.update fresh lhs (CircArray.copyCells (fresh lhs) (fresh rhs) (fresh rhs).size)

/-- Copying default cells onto default cells leaves default cells. -/
theorem copyCells_default (a : CircArray T) (ha : a.array = fun _ => default) (n : ℕ) :
    (CircArray.copyCells a a n).array = fun _ => default := by
  induction n with
  | zero => exact ha
  | succ n ih =>
    rw [CircArray.copyCells_succ]
    simp only [CircArray.set, CircArray.get, ih, ha, Function.update_eq_self_iff]

/-- Between two arrays, `deep_copy` gives `lhs` the contents and capacity of `rhs`. -/
theorem deepCopy_of_ne (mem : ℕ → CircArray T) {lhs rhs : ℕ} (hne : lhs ≠ rhs) (h : (mem rhs).Wf) :
    (deepCopy mem lhs rhs lhs).toList = (mem rhs).toList ∧
      (deepCopy mem lhs rhs lhs).capacity = (mem rhs).capacity := by
  have hrhs : Function.update mem lhs
      ⟨fun _ => default, (mem rhs).start, (mem rhs).size, (mem rhs).capacity⟩ rhs = mem rhs :=
    Function.update_of_ne hne.symm _ _
  simp only [deepCopy, Function.update_self, hrhs]
  exact ⟨CircArray.toList_copyCells_self _ h, CircArray.capacity_copyCells _ _ _⟩

/-- `a = a`: the cells are freed before they are read, so `a` keeps its size over
default cells. -/
theorem deepCopy_self (mem : ℕ → CircArray T) (a : ℕ) :
    (deepCopy mem a a a).toList = List.replicate (mem a).size default := by
  simp only [deepCopy, Function.update_self, CircArray.toList, CircArray.start_copyCells,
    CircArray.size_copyCells, CircArray.capacity_copyCells]
  rw [copyCells_default _ rfl]
  apply List.ext_getElem (by simp)
  intro i _ _
  simp [getElem_ringView]

end HandCoded

open CircArray in
theorem circ_array_deque {T : Type} [Inhabited T] (c : ℕ) (hc : 1 ≤ c) :
    (∀ cs : List (Call T), ((CircArray.new c : CircArray T).run cs).2.Wf) ∧
      (∀ cs : List (Call T), ValidRun (BoundedDeque.empty c hc) cs →
        ((CircArray.new c : CircArray T).run cs).1 = (dequeRun (BoundedDeque.empty c hc) cs).1 ∧
          ((CircArray.new c : CircArray T).run cs).2.toList = (dequeRun (BoundedDeque.empty c hc) cs).2.items ∧
          ((CircArray.new c : CircArray T).run cs).2.capacity = (dequeRun (BoundedDeque.empty c hc) cs).2.capacity) ∧
      (∀ lhs rhs : CircArray T, rhs.Wf →
        (lhs.assign rhs).toList = rhs.toList ∧ (lhs.assign rhs).capacity = rhs.capacity ∧
        (CircArray.copy rhs).toList = rhs.toList ∧ (CircArray.copy rhs).capacity = rhs.capacity) ∧
      (∀ (mem : ℕ → CircArray T) (lhs rhs : ℕ), (mem rhs).Wf → lhs ≠ rhs →
        (HandCoded.deepCopy mem lhs rhs lhs).toList = (mem rhs).toList ∧
          (HandCoded.deepCopy mem lhs rhs lhs).capacity = (mem rhs).capacity) ∧
      (∀ (mem : ℕ → CircArray T) (a : ℕ),
        (HandCoded.deepCopy mem a a a).toList = List.replicate (mem a).size default) := by
  have hnew : Abs (CircArray.new c : CircArray T) (BoundedDeque.empty c hc) := ⟨wf_new hc, rfl, rfl⟩
  refine ⟨fun cs => (wf_new hc).run cs, fun cs hv => ?_, fun lhs rhs h => ?_,
    fun mem lhs rhs h hne => HandCoded.deepCopy_of_ne mem hne h, HandCoded.deepCopy_self⟩
  · obtain ⟨hreplies, habs⟩ := hnew.run hv
    exact ⟨hreplies, habs.toList_eq, habs.capacity_eq⟩
  · exact ⟨toList_assign lhs h, capacity_assign lhs rhs, toList_copy h, capacity_copy rhs⟩

/-- Two pushes fill an array of two cells, a third is refused, and `pop_front`
returns the first. -/
theorem circ_array_deque_two :
    ((CircArray.new 2 : CircArray ℕ).run [.pushBack 5 false, .pushBack 7 false, .pushBack 9 false, .popFront 0]).1 =
      [.rc .SUCCESS, .rc .SUCCESS, .rc .NO_SPACE_ERROR, .popped .SUCCESS 5] := by
  have h := ((circ_array_deque (T := ℕ) 2 (by decide)).2.1
    [.pushBack 5 false, .pushBack 7 false, .pushBack 9 false, .popFront 0] (by simp [ValidRun, Call.Valid])).1
  rw [h]
  rfl

/-- A hand-coded array of capacity two holding the `FixedPt`s `5` and `7`. -/
def fiveSeven : CircArray FixedPt := ⟨fun i => if i = 0 then FixedPt.fromInt 5 else FixedPt.fromInt 7, 0, 2, 2⟩

/-- `a = a` on the hand-coded array holding `5` and `7` leaves it holding two zeros. -/
theorem hand_coded_self_assignment :
    fiveSeven.toList = [FixedPt.fromInt 5, FixedPt.fromInt 7] ∧
      (HandCoded.deepCopy (fun _ => fiveSeven) 0 0 0).toList = [default, default] := by
  refine ⟨by decide, ?_⟩
  rw [HandCoded.deepCopy_self]
  rfl

end Synapse.Click
