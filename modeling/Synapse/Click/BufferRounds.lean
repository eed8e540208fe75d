import Mathlib
import Synapse.Click.Buffers

/-!
# Rounds of `Buffers`

An `IndicatorBase` element feeds its `Buffers` in rounds: every input port gets
one value with the round's timestamp, all through `add_new_value` (a committed
round: `INIT` and `ADD` messages) or all through `add_new_value_temp` (a
provisional round: `UPDATE` messages). This module proves what a whole run of
such rounds does to the buffers.

## The invariants

`Boundary` describes the buffers between two rounds against the committed
rows (one value per port for every committed round, newest first): after a
committed round each window is the committed column cut to the capacity; after
a provisional round each window has the provisional value in front of the
committed column, cut so that the window stays within its capacity, and the
values it popped are in `_temp_updates`. `Mid` describes the buffers inside a
round, once a list `done` of ports has its value.

The first call of a round turns a `Boundary` into a `Mid` with nothing done
(`Boundary.start`): `new_value_check` rolls the provisional values back. Each
call adds one port (`Mid.call`); the last one makes the round complete, and a
complete `Mid` is a `Boundary` again, for the committed rows with the round's
row added when it was committed (`Mid.boundary`).

## What is proved

`buffers_rollback`: for every run of rounds with increasing positive
timestamps in which every round gives each of the `k` ports one value, the
round is complete after its last call and only then, the windows after the
first `new_value_check` of a round are the committed columns cut to the
capacity, and after a provisional round each window is the round's value in
front of the committed column cut to one less than the capacity.
-/

namespace Synapse.Click

/-- How the values of a round reach the buffers. -/
inductive RoundKind where
  /-- `add_new_value`: the values stay. -/
  | committed
  /-- `add_new_value_temp`: the values are rolled back by the next round. -/
  | provisional
  deriving DecidableEq, Repr

/-- A round: a timestamp and a value for every port, the ports in the order
their values arrive. -/
structure Round (T : Type) where
  /-- How the values are added. -/
  kind : RoundKind
  /-- The timestamp every call of the round carries. -/
  tstamp : ℕ
  /-- The ports, in arrival order. -/
  order : List ℕ
  /-- The value each port receives. -/
  value : ℕ → T

namespace Round

variable {T : Type}

/-- The calls of the round, `(port, value)` in arrival order. -/
def calls (r : Round T) : List (ℕ × T) := r.order.map fun p => (p, r.value p)

/-- Every one of the ports `0 .. k - 1` gets exactly one value. -/
def Covers (r : Round T) (k : ℕ) : Prop := r.order.Perm (List.range k)

end Round

variable {T : Type}

/-- The rows of the committed rounds of a run, newest first. -/
def committedRows (rs : List (Round T)) : List (ℕ → T) :=
  (rs.filter (·.kind = .committed)).reverse.map Round.value

/-- Port `i`'s column of a list of rows. -/
def column (rows : List (ℕ → T)) (i : ℕ) : List T := rows.map (· i)

/-- What port `i` has committed in a run, newest first. -/
def committed (rs : List (Round T)) (i : ℕ) : List T := column (committedRows rs) i

@[simp] theorem length_column (rows : List (ℕ → T)) (i : ℕ) : (column rows i).length = rows.length := by
  simp [column]

namespace Buffers

variable [Inhabited T]

/-- One call of a round. -/
def call (b : Buffers T) (kind : RoundKind) (tstamp : ℕ) (c : ℕ × T) : Buffers T :=
  match kind with
  | .committed => b.addNewValue c.2 tstamp c.1
  | .provisional => b.addNewValueTemp c.2 tstamp c.1

/-- Calls of one kind and timestamp, in order. -/
def applyCalls (b : Buffers T) (kind : RoundKind) (tstamp : ℕ) (cs : List (ℕ × T)) : Buffers T :=
  cs.foldl (fun b c => b.call kind tstamp c) b

/-- A whole round. -/
def applyRound (b : Buffers T) (r : Round T) : Buffers T := b.applyCalls r.kind r.tstamp r.calls

/-- A run of rounds. -/
def runRounds (b : Buffers T) (rs : List (Round T)) : Buffers T := rs.foldl applyRound b

@[simp] theorem applyCalls_nil (b : Buffers T) (κ : RoundKind) (t : ℕ) : b.applyCalls κ t [] = b := rfl

@[simp] theorem applyCalls_cons (b : Buffers T) (κ : RoundKind) (t : ℕ) (c : ℕ × T) (cs : List (ℕ × T)) :
    b.applyCalls κ t (c :: cs) = (b.call κ t c).applyCalls κ t cs := rfl

@[simp] theorem runRounds_nil (b : Buffers T) : b.runRounds [] = b := rfl

@[simp] theorem runRounds_singleton (b : Buffers T) (r : Round T) : b.runRounds [r] = b.applyRound r := rfl

/-! ### The invariants -/

/-- The committed rows after a round of kind `κ` with values `vals`. -/
def addRow (κ : RoundKind) (vals : ℕ → T) (rows : List (ℕ → T)) : List (ℕ → T) :=
  match κ with
  | .committed => vals :: rows
  | .provisional => rows

/-- The state a complete round leaves; `full` says the windows were full. -/
def finalState (κ : RoundKind) (full : Bool) : BufferStates :=
  match κ with
  | .committed => .ACCUMULATED
  | .provisional => if full then .ACCUMULATED_TEMP_POP else .ACCUMULATED_TEMP

/-- The state inside a round that started in `s0`; `started` says a port has its value. -/
def midState (κ : RoundKind) (s0 : BufferStates) (full started : Bool) : BufferStates :=
  match κ with
  | .committed => s0
  | .provisional => if full && started then .ACCUMULATING_POP else s0

/-- The buffers between rounds, against the committed rows `rows`. -/
def BoundaryContents (k c : ℕ) (b : Buffers T) (rows : List (ℕ → T)) : Prop :=
  match b.state with
  | .INITIAL => rows = [] ∧ b.tstamp = 0 ∧ ∀ i < k, (b.buffers i).toList = [] ∧ b.updated i = false
  | .ACCUMULATED => ∀ i < k, (b.buffers i).toList = (column rows i).take c
  | .ACCUMULATED_TEMP => rows.length < c ∧ ∀ i < k, ∃ v, (b.buffers i).toList = v :: column rows i
  | .ACCUMULATED_TEMP_POP => c ≤ rows.length ∧ ∀ i < k,
      (∃ v, (b.buffers i).toList = v :: (column rows i).take (c - 1)) ∧
        b.tempUpdates i = (column rows i).getD (c - 1) default
  | _ => False

theorem boundaryContents_eq (k c : ℕ) (b : Buffers T) (rows : List (ℕ → T)) :
    BoundaryContents k c b rows =
      match b.state with
      | .INITIAL => rows = [] ∧ b.tstamp = 0 ∧ ∀ i < k, (b.buffers i).toList = [] ∧ b.updated i = false
      | .ACCUMULATED => ∀ i < k, (b.buffers i).toList = (column rows i).take c
      | .ACCUMULATED_TEMP => rows.length < c ∧ ∀ i < k, ∃ v, (b.buffers i).toList = v :: column rows i
      | .ACCUMULATED_TEMP_POP => c ≤ rows.length ∧ ∀ i < k,
          (∃ v, (b.buffers i).toList = v :: (column rows i).take (c - 1)) ∧
            b.tempUpdates i = (column rows i).getD (c - 1) default
      | _ => False :=
  rfl

/-- The buffers between rounds: `k` ports, windows of capacity `c` that keep their
invariant, and contents given by the committed rows. -/
structure Boundary (k c : ℕ) (b : Buffers T) (rows : List (ℕ → T)) : Prop where
  numPorts : b.numPorts = k
  wf : ∀ i < k, (b.buffers i).Wf
  capacity : ∀ i < k, (b.buffers i).capacity = c
  contents : BoundaryContents k c b rows

/-- The windows inside a round with timestamp `t`, once the ports `done` have their
values `vals`: those hold their value in front of their committed column, the
others their committed column, each cut to the capacity `c`. -/
structure Windows (k c t : ℕ) (rows : List (ℕ → T)) (vals : ℕ → T) (done : List ℕ)
    (b : Buffers T) : Prop where
  done_nodup : done.Nodup
  done_lt : ∀ i ∈ done, i < k
  numPorts : b.numPorts = k
  tstamp : b.tstamp = t
  wf : ∀ i < k, (b.buffers i).Wf
  capacity : ∀ i < k, (b.buffers i).capacity = c
  updated : ∀ i < k, b.updated i = decide (i ∈ done)
  contents : ∀ i < k, (b.buffers i).toList =
    if i ∈ done then vals i :: (column rows i).take (c - 1) else (column rows i).take c

/-- The buffers inside a round of kind `κ` that started in state `s0`: the windows,
the values a provisional round popped, and the state. -/
structure Mid (k c : ℕ) (κ : RoundKind) (t : ℕ) (s0 : BufferStates) (rows : List (ℕ → T))
    (vals : ℕ → T) (done : List ℕ) (b : Buffers T) : Prop extends Windows k c t rows vals done b where
  saved : κ = .provisional → c ≤ rows.length → ∀ i ∈ done, i < k →
    b.tempUpdates i = (column rows i).getD (c - 1) default
  state : b.state = if done.length = k then finalState κ (decide (c ≤ rows.length))
    else midState κ s0 (decide (c ≤ rows.length)) (!done.isEmpty)

/-! ### One window -/

section Window

variable {a : CircArray T} {c : ℕ} {l : List T}

omit [Inhabited T] in
/-- A window of capacity `c` holding the first `c` values of `l` is full exactly
when `l` has `c` values. -/
theorem window_full_iff (hcap : a.capacity = c) (hl : a.toList = l.take c) :
    a.occupancy = a.capacity ↔ c ≤ l.length := by
  have hlen := congrArg List.length hl
  rw [CircArray.length_toList, List.length_take] at hlen
  rw [CircArray.occupancy, hlen, hcap]
  omega

/-- `push_front (v, true)` on such a window: the new value in front of the first
`c - 1` values of `l`. -/
theorem window_pushFront (hw : a.Wf) (hcap : a.capacity = c) (hl : a.toList = l.take c) (v : T) :
    (a.pushFront v true).2.toList = v :: l.take (c - 1) := by
  obtain ⟨c', rfl⟩ : ∃ c', c = c' + 1 := ⟨c - 1, by have := hw.start_lt; omega⟩
  rw [CircArray.toList_pushFront_true hw, hl, hcap, List.take_succ_cons, List.take_take,
    Nat.add_sub_cancel, min_eq_left (Nat.le_succ c')]

/-- `pop_back ()` on a full window gives the value at depth `c - 1`. -/
theorem window_popBack_fst (hl : a.toList = l.take c) (hc : 0 < c)
    (hfull : c ≤ l.length) : a.popBack.1 = l.getD (c - 1) default := by
  have hne : a.toList ≠ [] := by
    rw [hl, Ne, List.take_eq_nil_iff]
    rintro (h | h)
    · omega
    · simp [h] at hfull; omega
  rw [CircArray.popBack_fst hne, List.getLast_eq_getElem, List.getD_eq_getElem?_getD,
    List.getElem?_eq_getElem (by omega)]
  simp only [hl, List.length_take, List.getElem_take, Option.getD_some]
  congr 1
  omega

/-- `pop_back ()` and then `push_front (v, true)` on a full window: the new value
in front of the first `c - 1` values of `l`. -/
theorem window_popBack_pushFront (hw : a.Wf) (hcap : a.capacity = c) (hl : a.toList = l.take c)
    (hfull : c ≤ l.length) (v : T) :
    (a.popBack.2.pushFront v true).2.toList = v :: l.take (c - 1) := by
  obtain ⟨c', rfl⟩ : ∃ c', c = c' + 1 := ⟨c - 1, by have := hw.start_lt; omega⟩
  have hdrop : (l.take (c' + 1)).dropLast = l.take c' := by
    rw [List.dropLast_eq_take, List.length_take, min_eq_left hfull, Nat.add_sub_cancel,
      List.take_take, min_eq_left (Nat.le_succ c')]
  rw [CircArray.toList_pushFront_true hw.popBack, CircArray.toList_popBack, hl, hdrop,
    CircArray.capacity_popBack, hcap, List.take_succ_cons, Nat.add_sub_cancel, List.take_take,
    min_self]

end Window

omit [Inhabited T] in
/-- Distinct ports below `k` are all of them exactly when there are `k` of them. -/
theorem forall_mem_iff_length_eq {k : ℕ} {done : List ℕ} (hnd : done.Nodup) (hlt : ∀ i ∈ done, i < k) :
    (∀ i < k, i ∈ done) ↔ done.length = k := by
  have hsub : done.Subperm (List.range k) := hnd.subperm fun i hi => List.mem_range.2 (hlt i hi)
  constructor
  · intro hall
    have hsup : (List.range k).Subperm done :=
      List.nodup_range.subperm fun i hi => hall i (List.mem_range.1 hi)
    have h₁ := hsub.length_le
    have h₂ := hsup.length_le
    rw [List.length_range] at h₁ h₂
    omega
  · intro hlen i hi
    have hperm := hsub.perm_of_length_le (by rw [List.length_range, hlen])
    exact hperm.symm.subset (List.mem_range.2 hi)

/-! ### Starting a round -/

theorem take_succ_eq_append_getD {l : List T} {n : ℕ} (h : n < l.length) :
    l.take (n + 1) = l.take n ++ [l.getD n default] := by
  rw [List.take_add_one, List.getElem?_eq_getElem h, List.getD_eq_getElem?_getD,
    List.getElem?_eq_getElem h]
  rfl

/-- The rolled-back window of a port: what the restore block of `new_value_check`
makes of a window between rounds. -/
theorem Boundary.restore_contents {k c : ℕ} {b : Buffers T} {rows : List (ℕ → T)}
    (h : Boundary k c b rows) (hc : 0 < c) {i : ℕ} (hi : i < k) :
    (b.restore.buffers i).toList = (column rows i).take c ∧
      (b.restore.buffers i).Wf ∧ (b.restore.buffers i).capacity = c := by
  have hw := h.wf i hi
  have hcap := h.capacity i hi
  have hik : i < b.numPorts := by rw [h.numPorts]; exact hi
  have hcon := h.contents
  rw [boundaryContents_eq] at hcon
  unfold restore
  split at hcon
  all_goals rename_i hst
  · -- INITIAL: nothing to roll back, and nothing committed
    obtain ⟨rfl, -, hb⟩ := hcon
    simp [hst, (hb i hi).1, hw, hcap, column]
  · -- ACCUMULATED: the windows are the committed ones
    simp [hst, hcon i hi, hw, hcap]
  · -- ACCUMULATED_TEMP: drop the provisional head
    obtain ⟨hlen, hv⟩ := hcon
    obtain ⟨v, hv⟩ := hv i hi
    simp only [hst, or_false, if_true, reduceCtorEq, if_false]
    rw [buffers_popFronts hik]
    refine ⟨?_, hw.popFront, by simp [hcap]⟩
    rw [CircArray.toList_popFront]
    simp [hv, List.take_of_length_le (show (column rows i).length ≤ c by simp; omega)]
  · -- ACCUMULATED_TEMP_POP: drop the provisional head, push the saved value back
    obtain ⟨hlen, hv⟩ := hcon
    obtain ⟨⟨v, hv⟩, hsave⟩ := hv i hi
    simp only [hst, or_true, if_true]
    rw [buffers_pushBackSaved (by simpa using hik), buffers_popFronts hik]
    have hw' := hw.popFront
    have hsize : (b.buffers i).popFront.2.size < (b.buffers i).popFront.2.capacity := by
      have := congrArg List.length hv
      simp only [CircArray.length_toList, List.length_cons, List.length_take, length_column] at this
      simp [hcap]; omega
    refine ⟨?_, hw'.pushBack_of_lt hsize _ _, by simp [hcap]⟩
    rw [CircArray.toList_pushBack_of_lt hw' hsize, CircArray.toList_popFront, hv]
    simp only [List.tail_cons, tempUpdates_popFronts, hsave]
    rw [← take_succ_eq_append_getD (by simp; omega), Nat.sub_add_cancel hc]
  · exact hcon.elim

/-- The calls of a round act alike on the buffers before and after the first
`new_value_check`, since the check passes again on what it made. -/
theorem applyCalls_of_newValueCheck {b b' : Buffers T} {κ : RoundKind} {t p : ℕ} {v : T}
    {cs : List (ℕ × T)} (h : b.newValueCheck p t = (true, b')) (h' : b'.newValueCheck p t = (true, b')) :
    b.applyCalls κ t ((p, v) :: cs) = b'.applyCalls κ t ((p, v) :: cs) := by
  have hcall : b.call κ t (p, v) = b'.call κ t (p, v) := by
    cases κ
    · simp only [call, addNewValue_of_check h, addNewValue_of_check h']
    · simp only [call, addNewValueTemp_of_check h, addNewValueTemp_of_check h']
  rw [applyCalls_cons, applyCalls_cons, hcall]

section Invariants

variable {k c t : ℕ} {rows : List (ℕ → T)} {vals : ℕ → T} {done : List ℕ} {b : Buffers T}

/-- A round between two timestamps starts from the rolled-back windows, with no
port updated. -/
theorem Boundary.start (h : Boundary k c b rows) (hk : 0 < k) (hc : 0 < c) (κ : RoundKind)
    (t : ℕ) (vals : ℕ → T) : Mid k c κ t .ACCUMULATING rows vals [] (b.startRound t) where
  done_nodup := List.nodup_nil
  done_lt := by simp
  numPorts := by rw [numPorts_startRound, h.numPorts]
  tstamp := tstamp_startRound b t
  wf i hi := by rw [buffers_startRound]; exact (h.restore_contents hc hi).2.1
  capacity i hi := by rw [buffers_startRound]; exact (h.restore_contents hc hi).2.2
  updated i _ := by simp
  contents i hi := by
    rw [buffers_startRound, (h.restore_contents hc hi).1]
    simp
  saved := by simp
  state := by
    rw [state_startRound, if_neg (by simp; omega)]
    cases κ <;> simp [midState]

/-- The first round of all, at timestamp `0`, starts from the initial buffers as they are. -/
theorem Boundary.startInitial (h : Boundary k c b rows) (hst : b.state = .INITIAL) (hk : 0 < k)
    (vals : ℕ → T) : Mid k c .committed b.tstamp .INITIAL rows vals [] b := by
  have hcon := h.contents
  rw [boundaryContents_eq, hst] at hcon
  obtain ⟨rfl, -, hb⟩ := hcon
  exact
    { done_nodup := List.nodup_nil
      done_lt := by simp
      numPorts := h.numPorts
      tstamp := rfl
      wf := h.wf
      capacity := h.capacity
      updated := fun i hi => by simp [(hb i hi).2]
      contents := fun i hi => by simp [(hb i hi).1, column]
      saved := nofun
      state := by rw [hst, if_neg (by simp; omega)]; rfl }

omit [Inhabited T] in
/-- Setting the state keeps the windows. -/
theorem Windows.setState (h : Windows k c t rows vals done b) (s : BufferStates) :
    Windows k c t rows vals done { b with state := s } where
  done_nodup := h.done_nodup
  done_lt := h.done_lt
  numPorts := h.numPorts
  tstamp := h.tstamp
  wf := h.wf
  capacity := h.capacity
  updated := h.updated
  contents := h.contents

omit [Inhabited T] in
/-- A port not yet done leaves the round incomplete. -/
theorem Windows.length_ne (h : Windows k c t rows vals done b) {p : ℕ} (hp : p < k) (hpd : p ∉ done) :
    done.length ≠ k := fun hlen =>
  hpd ((forall_mem_iff_length_eq h.done_nodup h.done_lt).2 hlen p hp)

omit [Inhabited T] in
/-- `check_updated` sees whether every port is done. -/
theorem Windows.checkUpdated (h : Windows k c t rows vals done b) :
    checkUpdated b.updated b.numPorts = decide (done.length = k) := by
  rw [h.numPorts, Bool.eq_iff_iff, checkUpdated_iff, decide_eq_true_iff,
    ← forall_mem_iff_length_eq h.done_nodup h.done_lt]
  refine forall₂_congr fun i hi => ?_
  rw [h.updated i hi, decide_eq_true_iff]

omit [Inhabited T] in
/-- A port not yet done that gets its value in front of its committed column. -/
theorem Windows.add (h : Windows k c t rows vals done b) {p : ℕ} (hp : p < k) (hpd : p ∉ done)
    {b' : Buffers T} (hn : b'.numPorts = b.numPorts) (hts : b'.tstamp = b.tstamp)
    (hbuf : ∀ i, i ≠ p → b'.buffers i = b.buffers i)
    (hupd : b'.updated = Function.update b.updated p true)
    (hwf : (b'.buffers p).Wf) (hcap : (b'.buffers p).capacity = c)
    (hl : (b'.buffers p).toList = vals p :: (column rows p).take (c - 1)) :
    Windows k c t rows vals (done ++ [p]) b' where
  done_nodup := List.nodup_append.2 ⟨h.done_nodup, by simp,
    fun i hi j hj => by rw [List.mem_singleton.1 hj]; rintro rfl; exact hpd hi⟩
  done_lt i hi := by
    rcases List.mem_append.1 hi with hi | hi
    · exact h.done_lt i hi
    · rw [List.mem_singleton.1 hi]; exact hp
  numPorts := hn.trans h.numPorts
  tstamp := hts.trans h.tstamp
  wf i hi := by
    by_cases hip : i = p
    · subst hip; exact hwf
    · rw [hbuf i hip]; exact h.wf i hi
  capacity i hi := by
    by_cases hip : i = p
    · subst hip; exact hcap
    · rw [hbuf i hip]; exact h.capacity i hi
  updated i hi := by
    by_cases hip : i = p
    · subst hip; simp [hupd]
    · simp [hupd, hip, h.updated i hi]
  contents i hi := by
    by_cases hip : i = p
    · subst hip; simp [hl]
    · simp [hbuf i hip, hip, h.contents i hi]

omit [Inhabited T] in
/-- The window of a port not yet done holds its committed column. -/
theorem Windows.contents_of_not_mem (h : Windows k c t rows vals done b) {p : ℕ} (hp : p < k)
    (hpd : p ∉ done) : (b.buffers p).toList = (column rows p).take c := by
  rw [h.contents p hp, if_neg hpd]

/-- A committed call within a round: `add_new_value` pushes the port's value, and the
last port completes the round. -/
theorem Mid.call_committed {s0 : BufferStates} (h : Mid k c .committed t s0 rows vals done b)
    {p : ℕ} (hp : p < k) (hpd : p ∉ done) :
    Mid k c .committed t s0 rows vals (done ++ [p]) (b.call .committed t (p, vals p)) := by
  have hchk : b.newValueCheck p t = (true, b) :=
    newValueCheck_of_not_lt (by rw [h.numPorts]; exact hp) (by rw [h.tstamp]; exact lt_irrefl t)
  have hl := h.contents_of_not_mem hp hpd
  have hw : Windows k c t rows vals (done ++ [p]) (b.pushFrontAt p (vals p)) :=
    h.add hp hpd rfl rfl (fun i hi => by simp [hi]) rfl (by simpa using (h.wf p hp).pushFront_true _)
      (by simp [h.capacity p hp])
      (by simpa using window_pushFront (h.wf p hp) (h.capacity p hp) hl (vals p))
  have hlen := h.length_ne hp hpd
  simp only [call, addNewValue_of_check hchk]
  rw [show b.numPorts = (b.pushFrontAt p (vals p)).numPorts from rfl, hw.checkUpdated]
  by_cases hk : (done ++ [p]).length = k
  · rw [if_pos (decide_eq_true hk)]
    exact ⟨hw.setState _, nofun, by rw [if_pos hk]; rfl⟩
  · rw [if_neg (by simpa using hk)]
    refine ⟨hw, nofun, ?_⟩
    rw [if_neg hk, state_pushFrontAt, h.state, if_neg hlen]
    rfl

/-- A provisional call within a round: `add_new_value_temp` saves the last value of a
full window, pushes the port's value, and the last port completes the round in the
state that says whether values were saved. -/
theorem Mid.call_provisional (h : Mid k c .provisional t .ACCUMULATING rows vals done b)
    {p : ℕ} (hp : p < k) (hpd : p ∉ done) :
    Mid k c .provisional t .ACCUMULATING rows vals (done ++ [p]) (b.call .provisional t (p, vals p)) := by
  have hchk : b.newValueCheck p t = (true, b) :=
    newValueCheck_of_not_lt (by rw [h.numPorts]; exact hp) (by rw [h.tstamp]; exact lt_irrefl t)
  have hwp := h.wf p hp
  have hcp := h.capacity p hp
  have hl := h.contents_of_not_mem hp hpd
  have hlen := h.length_ne hp hpd
  simp only [call, addNewValueTemp_of_check hchk]
  by_cases hfull : c ≤ rows.length
  · -- a full window: its last value goes to `_temp_updates`
    have hocc := (window_full_iff hcp hl).2 (by simpa using hfull)
    rw [saveBack_of_full hocc]
    set b' := ({ b with tempUpdates := Function.update b.tempUpdates p (b.buffers p).popBack.1,
                        buffers := Function.update b.buffers p (b.buffers p).popBack.2,
                        state := .ACCUMULATING_POP } : Buffers T).pushFrontAt p (vals p) with hb'
    have hw : Windows k c t rows vals (done ++ [p]) b' :=
      h.add hp hpd rfl rfl (fun i hi => by simp [hb', hi]) rfl
        (by simpa [hb'] using hwp.popBack.pushFront_true _) (by simp [hb', hcp])
        (by simpa [hb'] using window_popBack_pushFront hwp hcp hl (by simpa using hfull) (vals p))
    have hsaved : ∀ i ∈ done ++ [p], i < k → b'.tempUpdates i = (column rows i).getD (c - 1) default := by
      intro i hi hik
      by_cases hip : i = p
      · subst hip
        simpa [hb'] using window_popBack_fst hl (by have := hwp.start_lt; omega) (by simpa using hfull)
      · have hid : i ∈ done := by simpa [hip] using hi
        simpa [hb', hip] using h.saved rfl hfull i hid hik
    rw [hw.checkUpdated]
    by_cases hk : (done ++ [p]).length = k
    · rw [if_pos (decide_eq_true hk)]
      exact ⟨hw.setState _, fun _ _ => hsaved, by rw [if_pos hk]; simp [hb', finalState, hfull]⟩
    · rw [if_neg (by simpa using hk)]
      exact ⟨hw, fun _ _ => hsaved, by rw [if_neg hk]; simp [hb', midState, hfull]⟩
  · -- a window with room: nothing is saved
    have hocc : (b.buffers p).occupancy ≠ (b.buffers p).capacity :=
      fun he => hfull (by simpa using (window_full_iff hcp hl).1 he)
    rw [saveBack_of_not_full hocc]
    have hw : Windows k c t rows vals (done ++ [p]) (b.pushFrontAt p (vals p)) :=
      h.add hp hpd rfl rfl (fun i hi => by simp [hi]) rfl (by simpa using hwp.pushFront_true _)
        (by simp [hcp]) (by simpa using window_pushFront hwp hcp hl (vals p))
    have hst : b.state = .ACCUMULATING := by simp [h.state, hlen, midState, hfull]
    rw [hw.checkUpdated]
    by_cases hk : (done ++ [p]).length = k
    · rw [if_pos (decide_eq_true hk)]
      exact ⟨hw.setState _, fun _ h' => absurd h' hfull,
        by rw [if_pos hk]; simp [hst, finalState, hfull]⟩
    · rw [if_neg (by simpa using hk)]
      exact ⟨hw, fun _ h' => absurd h' hfull, by rw [if_neg hk]; simp [hst, midState, hfull]⟩

/-- One call of a round, of either kind. -/
theorem Mid.call {κ : RoundKind} {s0 : BufferStates} (h : Mid k c κ t s0 rows vals done b)
    (hs0 : κ = .provisional → s0 = .ACCUMULATING) {p : ℕ} (hp : p < k) (hpd : p ∉ done) :
    Mid k c κ t s0 rows vals (done ++ [p]) (b.call κ t (p, vals p)) := by
  cases κ with
  | committed => exact h.call_committed hp hpd
  | provisional =>
    obtain rfl := hs0 rfl
    exact h.call_provisional hp hpd

/-- The calls of the ports `ps` in order, each port once: the run lemma of `Mid`. -/
theorem Mid.applyCalls {κ : RoundKind} {s0 : BufferStates} (hs0 : κ = .provisional → s0 = .ACCUMULATING)
    (ps : List ℕ) (h : Mid k c κ t s0 rows vals done b) (hnd : (done ++ ps).Nodup)
    (hlt : ∀ p ∈ ps, p < k) :
    Mid k c κ t s0 rows vals (done ++ ps) (b.applyCalls κ t (ps.map fun p => (p, vals p))) := by
  induction ps generalizing done b with
  | nil => simpa using h
  | cons p ps ih =>
    have hpd : p ∉ done := fun hp =>
      (List.nodup_append.1 hnd).2.2 p hp p List.mem_cons_self rfl
    have h' := h.call hs0 (hlt p List.mem_cons_self) hpd
    have hnd' : (done ++ [p] ++ ps).Nodup := by simpa using hnd
    simpa using ih h' hnd' fun q hq => hlt q (List.mem_cons_of_mem p hq)

/-- Inside a round that started in `ACCUMULATING` or `INITIAL`, `is_update_complete ()`
holds exactly when every port is done. -/
theorem Mid.isUpdateComplete {κ : RoundKind} {s0 : BufferStates} (h : Mid k c κ t s0 rows vals done b)
    (hs0 : s0 = .ACCUMULATING ∨ s0 = .INITIAL) :
    b.isUpdateComplete = decide (done.length = k) := by
  rw [Buffers.isUpdateComplete, h.state]
  by_cases hk : done.length = k
  · rw [if_pos hk]
    cases κ with
    | committed => simp [finalState, hk]
    | provisional => by_cases hfull : c ≤ rows.length <;> simp [finalState, hfull, hk]
  · rw [if_neg hk]
    rcases hs0 with rfl | rfl <;> cases κ <;> simp [midState, hk] <;> split <;> simp

/-- A complete round ends between rounds again, its row committed if the round was. -/
theorem Mid.boundary {κ : RoundKind} {s0 : BufferStates} (h : Mid k c κ t s0 rows vals done b)
    (hc : 0 < c) (hk : done.length = k) : Boundary k c b (addRow κ vals rows) := by
  have hall := (forall_mem_iff_length_eq h.done_nodup h.done_lt).2 hk
  have hcon : ∀ i < k, (b.buffers i).toList = vals i :: (column rows i).take (c - 1) :=
    fun i hi => by rw [h.contents i hi, if_pos (hall i hi)]
  refine ⟨h.numPorts, h.wf, h.capacity, ?_⟩
  rw [boundaryContents_eq, h.state, if_pos hk]
  cases κ with
  | committed =>
    intro i hi
    obtain ⟨c', rfl⟩ : ∃ c', c = c' + 1 := ⟨c - 1, by omega⟩
    simp [hcon i hi, addRow, column]
  | provisional =>
    by_cases hfull : c ≤ rows.length
    · simp only [finalState, decide_eq_true hfull, if_true, addRow]
      exact ⟨hfull, fun i hi => ⟨⟨vals i, hcon i hi⟩, h.saved rfl hfull i (hall i hi) hi⟩⟩
    · simp only [finalState, decide_eq_false hfull, Bool.false_eq_true, if_false, addRow]
      refine ⟨by omega, fun i hi => ⟨vals i, ?_⟩⟩
      rw [hcon i hi, List.take_of_length_le (by simp; omega)]

/-- The buffers of `Buffers (k, c)` are a boundary with nothing committed. -/
theorem Boundary.new (hc : 0 < c) : Boundary k c (Buffers.new k c : Buffers T) [] where
  numPorts := rfl
  wf _ _ := CircArray.wf_new hc
  capacity _ _ := rfl
  contents := ⟨rfl, rfl, fun _ _ => ⟨rfl, rfl⟩⟩

/-- The first call of a round: `new_value_check` starts the round from the buffers
between rounds (rolling back a provisional round when the timestamp is higher), and
the check passes again on what it made. -/
theorem Boundary.begin (h : Boundary k c b rows) (hk : 0 < k) (hc : 0 < c) (κ : RoundKind)
    (t : ℕ) (vals : ℕ → T) (ht : b.tstamp < t ∨ b.state = .INITIAL ∧ κ = .committed) :
    ∃ s0 b', (κ = .provisional → s0 = .ACCUMULATING) ∧ (s0 = .ACCUMULATING ∨ s0 = .INITIAL) ∧
      Mid k c κ t s0 rows vals [] b' ∧
      ∀ p < k, b.newValueCheck p t = (true, b') ∧ b'.newValueCheck p t = (true, b') := by
  have hpk : ∀ p < k, p < b.numPorts := fun p hp => h.numPorts ▸ hp
  by_cases hlt : b.tstamp < t
  · -- a higher timestamp: the round starts from the rolled-back windows
    have hm := h.start hk hc κ t vals
    refine ⟨.ACCUMULATING, b.startRound t, fun _ => rfl, .inl rfl, hm, fun p hp => ?_⟩
    exact ⟨newValueCheck_of_lt (hpk p hp) hlt,
      newValueCheck_of_not_lt (hm.numPorts ▸ hp) (by rw [hm.tstamp]; exact lt_irrefl t)⟩
  · -- the first round at timestamp `0`: nothing to start
    obtain ⟨hst, rfl⟩ := ht.resolve_left hlt
    have hcon := h.contents
    rw [boundaryContents_eq, hst] at hcon
    obtain rfl : t = b.tstamp := by omega
    exact ⟨.INITIAL, b, nofun, .inr rfl, h.startInitial hst hk vals,
      fun p hp => ⟨newValueCheck_of_not_lt (hpk p hp) hlt, newValueCheck_of_not_lt (hpk p hp) hlt⟩⟩

/-- The first `j + 1` calls of a round, from the buffers between rounds. -/
theorem Boundary.applyCalls_take (h : Boundary k c b rows) (hk : 0 < k) (hc : 0 < c) {r : Round T}
    (hcov : r.Covers k) (ht : b.tstamp < r.tstamp ∨ b.state = .INITIAL ∧ r.kind = .committed)
    (j : ℕ) : ∃ s0, (s0 = .ACCUMULATING ∨ s0 = .INITIAL) ∧
      Mid k c r.kind r.tstamp s0 rows r.value (r.order.take (j + 1))
        (b.applyCalls r.kind r.tstamp (r.calls.take (j + 1))) := by
  obtain ⟨s0, b', hs0, hs0', hm, hchk⟩ := h.begin hk hc r.kind r.tstamp r.value ht
  have hnd : r.order.Nodup := hcov.nodup_iff.2 List.nodup_range
  have hlt : ∀ p ∈ r.order, p < k := fun p hp => List.mem_range.1 (hcov.subset hp)
  obtain ⟨p, ps, hord⟩ : ∃ p ps, r.order = p :: ps := by
    cases ho : r.order with
    | nil => have := hcov.length_eq; simp [ho] at this; omega
    | cons p ps => exact ⟨p, ps, rfl⟩
  have hp : p < k := hlt p (by simp [hord])
  have hpre : r.order.take (j + 1) = p :: ps.take j := by rw [hord, List.take_succ_cons]
  have hm' := hm.applyCalls hs0 (p :: ps.take j)
    (by simpa [hpre] using hnd.sublist (List.take_sublist (j + 1) r.order))
    fun q hq => hlt q (List.mem_of_mem_take (by rwa [hpre]))
  simp only [List.nil_append, List.map_cons] at hm'
  refine ⟨s0, hs0', ?_⟩
  rw [Round.calls, ← List.map_take, hpre, List.map_cons,
    applyCalls_of_newValueCheck (hchk p hp).1 (hchk p hp).2]
  exact hm'

/-- A whole round, from the buffers between rounds: every port is done. -/
theorem Boundary.applyRound_mid (h : Boundary k c b rows) (hk : 0 < k) (hc : 0 < c) {r : Round T}
    (hcov : r.Covers k) (ht : b.tstamp < r.tstamp ∨ b.state = .INITIAL ∧ r.kind = .committed) :
    ∃ s0, (s0 = .ACCUMULATING ∨ s0 = .INITIAL) ∧
      Mid k c r.kind r.tstamp s0 rows r.value r.order (b.applyRound r) := by
  have hlen : r.order.length = k := by simpa using hcov.length_eq
  obtain ⟨s0, hs0, hm⟩ := h.applyCalls_take hk hc hcov ht (k - 1)
  rw [Nat.sub_add_cancel hk, List.take_of_length_le (by omega),
    List.take_of_length_le (by simp [Round.calls, hlen])] at hm
  exact ⟨s0, hs0, hm⟩

/-- Every window of `b` holds the round's value `vals i` in front of the last
`c - 1` committed values of its port. -/
def RoundWindows (k c : ℕ) (b : Buffers T) (vals : ℕ → T) (rows : List (ℕ → T)) : Prop :=
  ∀ i < k, (b.buffers i).Wf ∧ (b.buffers i).capacity = c ∧
    (b.buffers i).toList = vals i :: (column rows i).take (c - 1)

section Reading

omit [Inhabited T]

variable {k c : ℕ} {b : Buffers T} {vals : ℕ → T} {i : ℕ}

/-- `operator[] (0)` of a window reads the round's value. -/
theorem RoundWindows.get_zero {rows : List (ℕ → T)} (h : RoundWindows k c b vals rows) (hi : i < k) :
    (b.buffers i).get 0 = vals i := by
  obtain ⟨-, -, hl⟩ := h i hi
  rw [CircArray.get_eq_getElem (by simp [hl])]
  simp [hl]

/-- `operator[] (1)` of a window with room for two values reads the newest committed one. -/
theorem RoundWindows.get_one {row : ℕ → T} {rs : List (ℕ → T)} (h : RoundWindows k c b vals (row :: rs))
    (hi : i < k) (hc : 2 ≤ c) : (b.buffers i).get 1 = row i := by
  obtain ⟨-, -, hl⟩ := h i hi
  obtain ⟨c', rfl⟩ : ∃ c', c = c' + 2 := ⟨c - 2, by omega⟩
  have hl' : (b.buffers i).toList = vals i :: row i :: (column rs i).take c' := by
    rw [hl, show c' + 2 - 1 = c' + 1 by omega]
    rfl
  rw [CircArray.get_eq_getElem (by simp [hl'])]
  simp [hl']

end Reading

/-- The buffers at the end of a round `r` over committed rows `rows`. -/
structure RoundEnd (k c : ℕ) (r : Round T) (rows : List (ℕ → T)) (b : Buffers T) : Prop where
  complete : b.isUpdateComplete = true
  windows : RoundWindows k c b r.value rows
  boundary : Boundary k c b (addRow r.kind r.value rows)
  tstamp : b.tstamp = r.tstamp
  accumulated : r.kind = .committed → b.state = .ACCUMULATED

/-- What a whole round leaves, from the buffers between rounds. -/
theorem Boundary.roundEnd (h : Boundary k c b rows) (hk : 0 < k) (hc : 0 < c) {r : Round T}
    (hcov : r.Covers k) (ht : b.tstamp < r.tstamp ∨ b.state = .INITIAL ∧ r.kind = .committed) :
    RoundEnd k c r rows (b.applyRound r) := by
  obtain ⟨s0, hs0, hm⟩ := h.applyRound_mid hk hc hcov ht
  have hlen : r.order.length = k := by simpa using hcov.length_eq
  refine ⟨by rw [hm.isUpdateComplete hs0, hlen, decide_eq_true_iff], fun i hi => ⟨hm.wf i hi, hm.capacity i hi, ?_⟩,
    hm.boundary hc hlen, hm.tstamp, ?_⟩
  · rw [hm.contents i hi, if_pos (hcov.mem_iff.2 (List.mem_range.2 hi))]
  · intro hκ
    rw [hm.state, if_pos hlen, hκ]
    rfl

/-- A whole round leads from one boundary to the next. -/
theorem Boundary.applyRound (h : Boundary k c b rows) (hk : 0 < k) (hc : 0 < c) {r : Round T}
    (hcov : r.Covers k) (ht : b.tstamp < r.tstamp ∨ b.state = .INITIAL ∧ r.kind = .committed) :
    Boundary k c (b.applyRound r) (addRow r.kind r.value rows) ∧ (b.applyRound r).tstamp = r.tstamp := by
  obtain ⟨s0, -, hm⟩ := h.applyRound_mid hk hc hcov ht
  exact ⟨hm.boundary hc (by simpa using hcov.length_eq), hm.tstamp⟩

/-- Popping the front of every window just after a committed round gives back the
round's values, and leaves each window with the values before them, cut to `c - 1`. -/
theorem Boundary.popFronts (h : Boundary k c b (vals :: rows)) (hst : b.state = .ACCUMULATED)
    (hc : 0 < c) :
    Boundary k c b.popFronts (rows.take (c - 1)) ∧ ∀ i < k, (b.buffers i).popFront.1 = vals i := by
  have hcon := h.contents
  rw [boundaryContents_eq, hst] at hcon
  have hik : ∀ i < k, i < b.numPorts := fun i hi => h.numPorts ▸ hi
  -- each window is the round's value in front of the column before it
  have hwin : ∀ i < k, (b.buffers i).toList = vals i :: (column rows i).take (c - 1) := by
    intro i hi
    obtain ⟨c', rfl⟩ : ∃ c', c = c' + 1 := ⟨c - 1, by omega⟩
    rw [hcon i hi]
    simp [column]
  refine ⟨⟨by rw [numPorts_popFronts, h.numPorts], fun i hi => ?_, fun i hi => ?_, ?_⟩, fun i hi => ?_⟩
  · rw [buffers_popFronts (hik i hi)]
    exact (h.wf i hi).popFront
  · rw [buffers_popFronts (hik i hi), CircArray.capacity_popFront]
    exact h.capacity i hi
  · rw [boundaryContents_eq, state_popFronts, hst]
    intro i hi
    rw [buffers_popFronts (hik i hi), CircArray.toList_popFront, hwin i hi, List.tail_cons, column,
      column, List.map_take, List.take_take, min_eq_right (Nat.sub_le c 1)]
  · rw [CircArray.popFront_fst (h.wf i hi) (by simp [hwin i hi])]
    simp only [hwin i hi, List.head_cons]

omit [Inhabited T] in
theorem committedRows_cons_append (r : Round T) (rs : List (Round T)) (rows : List (ℕ → T)) :
    committedRows (r :: rs) ++ rows = committedRows rs ++ addRow r.kind r.value rows := by
  cases hk : r.kind <;> simp [committedRows, addRow, hk]

/-- A run of rounds with increasing timestamps, from the buffers between rounds: the
run lemma of `Boundary`. -/
theorem Boundary.runRounds (h : Boundary k c b rows) (hk : 0 < k) (hc : 0 < c) (rs : List (Round T))
    (hcov : ∀ r ∈ rs, r.Covers k) (hinc : (rs.map Round.tstamp).IsChain (· < ·))
    (hfirst : ∀ r ∈ rs.head?, b.tstamp < r.tstamp ∨ b.state = .INITIAL ∧ r.kind = .committed) :
    Boundary k c (b.runRounds rs) (committedRows rs ++ rows) ∧
      (b.runRounds rs).tstamp = (rs.getLast?.map Round.tstamp).getD b.tstamp := by
  induction rs generalizing b rows with
  | nil => simpa [committedRows] using h
  | cons r rs ih =>
    obtain ⟨hb, ht⟩ := h.applyRound hk hc (hcov r List.mem_cons_self) (hfirst r rfl)
    rw [List.map_cons, List.isChain_cons] at hinc
    obtain ⟨hb', ht'⟩ := ih hb (fun r' hr' => hcov r' (List.mem_cons_of_mem r hr')) hinc.2
      fun r' hr' => .inl (ht ▸ hinc.1 r'.tstamp (by rw [List.head?_map, Option.mem_def.1 hr']; rfl))
    refine ⟨by rw [committedRows_cons_append]; exact hb', ?_⟩
    rw [List.getLast?_cons]
    change ((b.applyRound r).runRounds rs).tstamp = _
    rw [ht', ht]
    cases rs.getLast? <;> rfl

end Invariants

/-! ### Rollback -/

/-- **Rollback of provisional rounds.** In a run of rounds with increasing positive
timestamps in which every round gives each of the `k` ports one value, take any round
`r` and the buffers `b` the rounds before it leave: the round is complete after its
last call and only then; its first `new_value_check` leaves each window holding the
port's committed values, newest first, cut to the capacity, so that a provisional
round leaves no trace; and a provisional round leaves its value in front of the
first `c - 1` of them. -/
theorem buffers_rollback {k c : ℕ} (hk : 0 < k) (hc : 0 < c) (pre post : List (Round T))
    (r : Round T) (hcov : ∀ r' ∈ pre ++ r :: post, r'.Covers k)
    (hinc : ((pre ++ r :: post).map Round.tstamp).IsChain (· < ·))
    (hpos : ∀ r' ∈ pre ++ r :: post, 0 < r'.tstamp) :
    let b := (Buffers.new k c : Buffers T).runRounds pre
    (∀ j < k, (b.applyCalls r.kind r.tstamp (r.calls.take (j + 1))).isUpdateComplete =
      decide (j + 1 = k)) ∧
    (∀ p < k, ∀ i < k, ((b.newValueCheck p r.tstamp).2.buffers i).toList = (committed pre i).take c) ∧
    (r.kind = .provisional → ∀ i < k,
      ((b.applyRound r).buffers i).toList = r.value i :: (committed pre i).take (c - 1)) := by
  intro b
  rw [List.map_append, List.isChain_append] at hinc
  obtain ⟨hB, hts⟩ := (Boundary.new hc : Boundary k c (Buffers.new k c : Buffers T) []).runRounds
    hk hc pre (fun r' hr' => hcov r' (List.mem_append_left _ hr')) hinc.1
    fun r' hr' => .inl (hpos r' (List.mem_append_left _ (List.mem_of_mem_head? hr')))
  rw [List.append_nil] at hB
  -- the rounds before `r` end below its timestamp
  have ht : b.tstamp < r.tstamp := by
    change ((Buffers.new k c : Buffers T).runRounds pre).tstamp < r.tstamp
    rw [hts]
    cases hl : pre.getLast? with
    | none => exact hpos r (by simp)
    | some x => exact hinc.2.2 x.tstamp (by simp [List.getLast?_map, hl]) r.tstamp (by simp)
  have hrc := hcov r (by simp)
  refine ⟨fun j hj => ?_, fun p hp i hi => ?_, fun _ i hi => ?_⟩
  · obtain ⟨s0, hs0, hm⟩ := hB.applyCalls_take hk hc hrc (.inl ht) j
    rw [hm.isUpdateComplete hs0, List.length_take, hrc.length_eq, List.length_range,
      min_eq_left hj]
  · obtain ⟨s0, b', -, -, hm, hchk⟩ := hB.begin hk hc r.kind r.tstamp r.value (.inl ht)
    rw [(hchk p hp).1, hm.contents i hi, if_neg List.not_mem_nil]
    rfl
  · obtain ⟨s0, -, hm⟩ := hB.applyRound_mid hk hc hrc (.inl ht)
    rw [hm.contents i hi, if_pos (hrc.mem_iff.2 (List.mem_range.2 hi))]
    rfl

/-- A committed round and then a provisional one, on one port with windows of two
values: the provisional value sits in front of the committed one. -/
theorem buffers_rollback_one_port :
    let pre : List (Round ℕ) := [⟨.committed, 1, [0], fun _ => 5⟩]
    let r : Round ℕ := ⟨.provisional, 2, [0], fun _ => 7⟩
    (∀ r' ∈ pre ++ [r], r'.Covers 1) ∧ ((pre ++ [r]).map Round.tstamp).IsChain (· < ·) ∧
      (∀ r' ∈ pre ++ [r], 0 < r'.tstamp) ∧
      ((((Buffers.new 1 2 : Buffers ℕ).runRounds pre).applyRound r).buffers 0).toList = [7, 5] := by
  intro pre r
  have hcov : ∀ r' ∈ pre ++ [r], r'.Covers 1 := by
    simp [pre, r, Round.Covers]
  have hinc : ((pre ++ [r]).map Round.tstamp).IsChain (· < ·) := by
    simp [pre, r]
  have hpos : ∀ r' ∈ pre ++ [r], 0 < r'.tstamp := by
    simp [pre, r]
  refine ⟨hcov, hinc, hpos, ?_⟩
  have h := (buffers_rollback (show 0 < 1 by decide) (show 0 < 2 by decide) pre [] r hcov hinc
    hpos).2.2 rfl 0 (by decide)
  simpa [committed, committedRows, column, pre, r] using h


end Buffers

end Synapse.Click
