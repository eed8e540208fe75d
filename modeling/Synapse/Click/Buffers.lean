import Synapse.Click.CircArray

/-!
# `Buffers`

The per-port windows of an `IndicatorBase` element (`lib/buffers.cc`,
`include/click/buffers.hh`): one `RingBuffer` per input port, a flag per port
saying whether the port has its value for the current timestamp, and a state
that says whether the current round is complete and whether it is provisional.

A round is one value per port with one timestamp. `add_new_value` commits a
value; `add_new_value_temp` adds one provisionally, popping the last value of a
full window into `_temp_updates` first. The first call with a higher timestamp
(`new_value_check`) starts a new round: it clears the flags and, after a
provisional round, pops the provisional values and pushes the saved ones back.

## The model

`Buffers T` keeps the fields of the class, the per-port arrays as functions on
port numbers; the ports are `0 .. _num_ports - 1`, and the loops of the source
touch only those. The timestamp is a natural number (`uint64_t`, only compared).
The `_updated` characters `'Y'` and `'N'` are `true` and `false`. Each block of
`new_value_check`, `add_new_value` and `add_new_value_temp` is a named helper
(`reset`, `restore`, `pushFrontAt`, `saveBack`), and each operation has its spec
lemmas here; `BufferRounds` proves what whole rounds do.
-/

namespace Synapse.Click

/-- `BufferStates`. -/
inductive BufferStates where
  | INITIAL
  | ACCUMULATING
  | ACCUMULATING_POP
  | ACCUMULATED
  | ACCUMULATED_TEMP
  | ACCUMULATED_TEMP_POP
  deriving DecidableEq, Repr

/-- `Buffers`. -/
structure Buffers (T : Type) where
  /-- `_buffers`: the window of each port. -/
  buffers : ℕ → CircArray T
  /-- `_updated`: `'Y'` once the port has its value for the current timestamp. -/
  updated : ℕ → Bool
  /-- `_temp_updates`: the values popped by `add_new_value_temp`. -/
  tempUpdates : ℕ → T
  /-- `_tstamp`. -/
  tstamp : ℕ
  /-- `_num_ports`. -/
  numPorts : ℕ
  /-- `_state`. -/
  state : BufferStates

namespace Buffers

variable {T : Type} [Inhabited T]

/-- `Buffers (num_ports, buf_len, debug)`: empty windows of capacity `buf_len`,
no port updated, state `INITIAL`. -/
def new (numPorts bufLen : ℕ) : Buffers T where
  buffers := fun _ => CircArray.new bufLen
  updated := fun _ => false
  tempUpdates := fun _ => default
  tstamp := 0
  numPorts := numPorts
  state := .INITIAL

/-- `reset ()`: every port marked `'N'` (the model clears the flags past
`_num_ports` too; nothing reads them). -/
def reset (b : Buffers T) : Buffers T := { b with updated := fun _ => false }

/-- `check_updated (updated, len)`: every one of the first `len` flags is `'Y'`. -/
def checkUpdated (updated : ℕ → Bool) (len : ℕ) : Bool := decide (∀ i < len, updated i = true)

/-- The first loop of the restore block: `_buffers[i]->pop_front ()` on every port. -/
def popFronts (b : Buffers T) : Buffers T :=
  { b with buffers := fun i => if i < b.numPorts then (b.buffers i).popFront.2 else b.buffers i }

/-- The second loop: `_buffers[i]->push_back (_temp_updates[i], true)` on every port. -/
def pushBackSaved (b : Buffers T) : Buffers T :=
  { b with buffers := fun i =>
      if i < b.numPorts then ((b.buffers i).pushBack (b.tempUpdates i) true).2 else b.buffers i }

/-- The restore block of `new_value_check`: after a provisional round, remove the
provisional values, and put the saved ones back if that round popped any. -/
def restore (b : Buffers T) : Buffers T :=
  if b.state = .ACCUMULATED_TEMP ∨ b.state = .ACCUMULATED_TEMP_POP then
    if b.state = .ACCUMULATED_TEMP_POP then b.popFronts.pushBackSaved else b.popFronts
  else b

/-- What `new_value_check` does on a higher timestamp: `reset ()`, `_tstamp =
tstamp`, the restore block and `_state = ACCUMULATING`. -/
def startRound (b : Buffers T) (tstamp : ℕ) : Buffers T :=
  { ({ b.reset with tstamp := tstamp }).restore with state := .ACCUMULATING }

/-- `new_value_check (port, tstamp)`: `false` for a port out of range; a higher
timestamp starts a new round. -/
def newValueCheck (b : Buffers T) (port tstamp : ℕ) : Bool × Buffers T :=
  if b.numPorts ≤ port then (false, b)
  else if b.tstamp < tstamp then (true, b.startRound tstamp)
  else (true, b)

/-- `_buffers[port]->push_front (value, true); _updated[port] = 'Y';` -/
def pushFrontAt (b : Buffers T) (port : ℕ) (value : T) : Buffers T :=
  { b with buffers := Function.update b.buffers port ((b.buffers port).pushFront value true).2,
           updated := Function.update b.updated port true }

/-- `add_new_value (value, tstamp, port)`. -/
def addNewValue (b : Buffers T) (value : T) (tstamp port : ℕ) : Buffers T :=
  let r := b.newValueCheck port tstamp
  if r.1 then
    let b := r.2.pushFrontAt port value
    if checkUpdated b.updated b.numPorts then { b with state := .ACCUMULATED } else b
  else r.2

/-- The pop of `add_new_value_temp`: a full window gives up its last value to
`_temp_updates[port]`, and the state records that a value was popped. -/
def saveBack (b : Buffers T) (port : ℕ) : Buffers T :=
  if (b.buffers port).occupancy = (b.buffers port).capacity then
    { b with tempUpdates := Function.update b.tempUpdates port (b.buffers port).popBack.1,
             buffers := Function.update b.buffers port (b.buffers port).popBack.2,
             state := .ACCUMULATING_POP }
  else b

/-- `add_new_value_temp (value, tstamp, port)`. -/
def addNewValueTemp (b : Buffers T) (value : T) (tstamp port : ℕ) : Buffers T :=
  let r := b.newValueCheck port tstamp
  if r.1 then
    let b := (r.2.saveBack port).pushFrontAt port value
    if checkUpdated b.updated b.numPorts then
      { b with state := if b.state = .ACCUMULATING then .ACCUMULATED_TEMP else .ACCUMULATED_TEMP_POP }
    else b
  else r.2

/-- `is_update_complete ()`. -/
def isUpdateComplete (b : Buffers T) : Bool :=
  b.state = .ACCUMULATED ∨ b.state = .ACCUMULATED_TEMP ∨ b.state = .ACCUMULATED_TEMP_POP

/-! ### Fields of the helpers -/

section
omit [Inhabited T]

@[simp] theorem numPorts_reset (b : Buffers T) : b.reset.numPorts = b.numPorts := rfl
@[simp] theorem buffers_reset (b : Buffers T) : b.reset.buffers = b.buffers := rfl
@[simp] theorem state_reset (b : Buffers T) : b.reset.state = b.state := rfl
@[simp] theorem tempUpdates_reset (b : Buffers T) : b.reset.tempUpdates = b.tempUpdates := rfl
@[simp] theorem updated_reset (b : Buffers T) : b.reset.updated = fun _ => false := rfl

end

@[simp] theorem numPorts_popFronts (b : Buffers T) : b.popFronts.numPorts = b.numPorts := rfl
@[simp] theorem state_popFronts (b : Buffers T) : b.popFronts.state = b.state := rfl
@[simp] theorem updated_popFronts (b : Buffers T) : b.popFronts.updated = b.updated := rfl
@[simp] theorem tempUpdates_popFronts (b : Buffers T) : b.popFronts.tempUpdates = b.tempUpdates := rfl
@[simp] theorem tstamp_popFronts (b : Buffers T) : b.popFronts.tstamp = b.tstamp := rfl
@[simp] theorem numPorts_pushBackSaved (b : Buffers T) : b.pushBackSaved.numPorts = b.numPorts := rfl
@[simp] theorem state_pushBackSaved (b : Buffers T) : b.pushBackSaved.state = b.state := rfl
@[simp] theorem updated_pushBackSaved (b : Buffers T) : b.pushBackSaved.updated = b.updated := rfl
@[simp] theorem tstamp_pushBackSaved (b : Buffers T) : b.pushBackSaved.tstamp = b.tstamp := rfl

theorem buffers_popFronts {b : Buffers T} {i : ℕ} (hi : i < b.numPorts) :
    b.popFronts.buffers i = (b.buffers i).popFront.2 := if_pos hi

theorem buffers_pushBackSaved {b : Buffers T} {i : ℕ} (hi : i < b.numPorts) :
    b.pushBackSaved.buffers i = ((b.buffers i).pushBack (b.tempUpdates i) true).2 := if_pos hi

/-- The restore block changes the windows only. -/
theorem restore_frame (b : Buffers T) : b.restore = { b with buffers := b.restore.buffers } := by
  unfold restore; split_ifs <;> rfl

@[simp] theorem numPorts_restore (b : Buffers T) : b.restore.numPorts = b.numPorts := by
  rw [restore_frame]
@[simp] theorem state_restore (b : Buffers T) : b.restore.state = b.state := by
  rw [restore_frame]
@[simp] theorem updated_restore (b : Buffers T) : b.restore.updated = b.updated := by
  rw [restore_frame]
@[simp] theorem tstamp_restore (b : Buffers T) : b.restore.tstamp = b.tstamp := by
  rw [restore_frame]

/-- The restore block reads only the windows, the state, the saved values and the
number of ports. -/
theorem buffers_restore_congr {b b' : Buffers T} (h₁ : b'.buffers = b.buffers) (h₂ : b'.state = b.state)
    (h₃ : b'.tempUpdates = b.tempUpdates) (h₄ : b'.numPorts = b.numPorts) :
    b'.restore.buffers = b.restore.buffers := by
  unfold restore popFronts pushBackSaved
  rw [h₂]
  split_ifs <;> simp [h₁, h₃, h₄]

theorem tempUpdates_restore (b : Buffers T) : b.restore.tempUpdates = b.tempUpdates := by
  rw [restore_frame]

@[simp] theorem buffers_startRound (b : Buffers T) (t : ℕ) :
    (b.startRound t).buffers = b.restore.buffers :=
  buffers_restore_congr rfl rfl rfl rfl
@[simp] theorem state_startRound (b : Buffers T) (t : ℕ) : (b.startRound t).state = .ACCUMULATING := rfl
-- `start_round` restores a copy of `b` with its flags reset and the new timestamp
@[simp] theorem tstamp_startRound (b : Buffers T) (t : ℕ) : (b.startRound t).tstamp = t :=
  tstamp_restore { b.reset with tstamp := t }
@[simp] theorem numPorts_startRound (b : Buffers T) (t : ℕ) : (b.startRound t).numPorts = b.numPorts :=
  numPorts_restore { b.reset with tstamp := t }
@[simp] theorem updated_startRound (b : Buffers T) (t : ℕ) : (b.startRound t).updated = fun _ => false :=
  updated_restore { b.reset with tstamp := t }
@[simp] theorem tempUpdates_startRound (b : Buffers T) (t : ℕ) :
    (b.startRound t).tempUpdates = b.tempUpdates :=
  tempUpdates_restore { b.reset with tstamp := t }

@[simp] theorem numPorts_pushFrontAt (b : Buffers T) (p : ℕ) (v : T) :
    (b.pushFrontAt p v).numPorts = b.numPorts := rfl
@[simp] theorem state_pushFrontAt (b : Buffers T) (p : ℕ) (v : T) :
    (b.pushFrontAt p v).state = b.state := rfl
@[simp] theorem tstamp_pushFrontAt (b : Buffers T) (p : ℕ) (v : T) :
    (b.pushFrontAt p v).tstamp = b.tstamp := rfl
@[simp] theorem tempUpdates_pushFrontAt (b : Buffers T) (p : ℕ) (v : T) :
    (b.pushFrontAt p v).tempUpdates = b.tempUpdates := rfl
@[simp] theorem updated_pushFrontAt (b : Buffers T) (p : ℕ) (v : T) :
    (b.pushFrontAt p v).updated = Function.update b.updated p true := rfl
@[simp] theorem buffers_pushFrontAt (b : Buffers T) (p : ℕ) (v : T) :
    (b.pushFrontAt p v).buffers = Function.update b.buffers p ((b.buffers p).pushFront v true).2 := rfl

/-- `save_back` changes the saved values, the windows and the state only. -/
theorem saveBack_frame (b : Buffers T) (p : ℕ) :
    b.saveBack p = { b with tempUpdates := (b.saveBack p).tempUpdates, buffers := (b.saveBack p).buffers,
                            state := (b.saveBack p).state } := by
  unfold saveBack; split_ifs <;> rfl

@[simp] theorem numPorts_saveBack (b : Buffers T) (p : ℕ) : (b.saveBack p).numPorts = b.numPorts := by
  rw [saveBack_frame]
@[simp] theorem updated_saveBack (b : Buffers T) (p : ℕ) : (b.saveBack p).updated = b.updated := by
  rw [saveBack_frame]
@[simp] theorem tstamp_saveBack (b : Buffers T) (p : ℕ) : (b.saveBack p).tstamp = b.tstamp := by
  rw [saveBack_frame]

/-- A full window saves its last value and gives it up. -/
theorem saveBack_of_full {b : Buffers T} {p : ℕ}
    (h : (b.buffers p).occupancy = (b.buffers p).capacity) :
    b.saveBack p = { b with tempUpdates := Function.update b.tempUpdates p (b.buffers p).popBack.1,
                            buffers := Function.update b.buffers p (b.buffers p).popBack.2,
                            state := .ACCUMULATING_POP } := if_pos h

theorem saveBack_of_not_full {b : Buffers T} {p : ℕ}
    (h : (b.buffers p).occupancy ≠ (b.buffers p).capacity) : b.saveBack p = b := if_neg h

/-! ### `new_value_check` -/

/-- A timestamp that is not higher leaves the buffers as they are. -/
theorem newValueCheck_of_not_lt {b : Buffers T} {port tstamp : ℕ} (hp : port < b.numPorts)
    (ht : ¬ b.tstamp < tstamp) : b.newValueCheck port tstamp = (true, b) := by
  rw [newValueCheck, if_neg (by omega), if_neg ht]

/-- A higher timestamp starts a round. -/
theorem newValueCheck_of_lt {b : Buffers T} {port tstamp : ℕ} (hp : port < b.numPorts)
    (ht : b.tstamp < tstamp) : b.newValueCheck port tstamp = (true, b.startRound tstamp) := by
  rw [newValueCheck, if_neg (by omega), if_pos ht]

/-! ### `add_new_value` and `add_new_value_temp` -/

/-- `add_new_value` after its check passed. -/
theorem addNewValue_of_check {b : Buffers T} {v : T} {tstamp port : ℕ} {b' : Buffers T}
    (h : b.newValueCheck port tstamp = (true, b')) :
    b.addNewValue v tstamp port =
      if checkUpdated (b'.pushFrontAt port v).updated b'.numPorts then
        { b'.pushFrontAt port v with state := .ACCUMULATED }
      else b'.pushFrontAt port v := by
  simp only [addNewValue, h, if_true, numPorts_pushFrontAt]

/-- `add_new_value_temp` after its check passed. -/
theorem addNewValueTemp_of_check {b : Buffers T} {v : T} {tstamp port : ℕ} {b' : Buffers T}
    (h : b.newValueCheck port tstamp = (true, b')) :
    b.addNewValueTemp v tstamp port =
      let b'' := (b'.saveBack port).pushFrontAt port v
      if checkUpdated b''.updated b''.numPorts then
        { b'' with state := if b''.state = .ACCUMULATING then .ACCUMULATED_TEMP else .ACCUMULATED_TEMP_POP }
      else b'' := by
  simp only [addNewValueTemp, h, if_true]

theorem checkUpdated_iff (updated : ℕ → Bool) (len : ℕ) :
    checkUpdated updated len = true ↔ ∀ i < len, updated i = true := by
  simp [checkUpdated]

end Buffers

end Synapse.Click
