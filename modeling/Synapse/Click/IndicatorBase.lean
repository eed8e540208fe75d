import Synapse.Click.FixedPt
import Synapse.Click.Buffers
import Synapse.Theory.Transducer

/-!
# `IndicatorBase`

The base class of the window indicator elements
(`elements/standard/indicator_base.{hh,cc}`). Each input port brings one
`MsgValue` per round; the element keeps the values in a `Buffers` and, once a
round is complete, sends one value on its output. How it computes that value
depends on its operation mode:

* `NAIVE` (`OP_MODE 1`): `process_naive` over the windows, an `UPDATE` round being
  added provisionally (`add_new_value_temp`);
* `STARTUP` (any other `OP_MODE`): as `NAIVE`, but through `process_ext`, which
  also fills the element's cache; the first complete `ADD` round saves that cache
  in `_cache` and switches to
* `NORMAL`: the round's values are popped back out of the buffers as increments
  and `process_opt_ext` computes the value from them and the cache saved at the
  last `ADD`.

An `INIT` message, and any message before the element is initialised, is added
for good and, once its round is complete, `initialize_element` gives the value
sent (if it is valid).

## The model

The four virtual functions of a subclass, and its `_local_cache` as its
constructor leaves it, are an `Indicator`. A `VectorCache` is a list: Click's
`Vector` indexes without a check, which the model reads as `getD` and `modify`,
and its `operator=` copy-constructs every element, ring buffer included
(`copyCache`). A packet is what `push` reads of it: its length, its application
type and the `MsgValue` at the front of its data. `push` gives the new state and
what becomes of the packet: sent on port `0`, changed or not, or discarded; it is
`none` where a virtual function does not return. `_debug` only prints, and
`CacheStruct::_type` is never read: both are left out.
-/

namespace Synapse.Click

/-- `PacketAppType`. -/
inductive PacketAppType where
  | NO_APP_MSG
  | MSG_TRADE
  | MSG_TIME_PERIOD_STATS
  | MSG_INDICATOR
  | MSG_UPDATE_SOURCE
  | MSG_ADD_SOURCE
  | MSG_UPDATE
  | MSG_ADD
  | MSG_INIT
  | MSG_INIT_SOURCE
  deriving DecidableEq, Repr

/-- `MsgValue`. -/
structure MsgValue where
  /-- `_value`. -/
  value : FixedPt
  /-- `_timestamp` (`uint64_t`, only compared and copied). -/
  timestamp : ℕ
  deriving DecidableEq, Repr

/-- `sizeof (MsgValue)`: a 16-byte `FixedPt` and an 8-byte timestamp, packed. -/
def MSG_VALUE_SIZE : ℕ := 24

/-- A packet as `IndicatorBase::push` reads it. -/
structure ValuePacket where
  /-- `p->length ()`. -/
  length : ℕ
  /-- `p->get_packet_app_type ()`. -/
  appType : PacketAppType
  /-- The `MsgValue` at `p->data ()`. -/
  msg : MsgValue
  deriving DecidableEq, Repr

/-- What becomes of a packet given to `push`. -/
inductive Action where
  /-- `checked_output_push (0, p)`. -/
  | output (p : ValuePacket)
  /-- `SynapseElement::discard_packet (p)`. -/
  | discard
  deriving DecidableEq, Repr

/-- `OpMode`. -/
inductive OpMode where
  | STARTUP
  | NORMAL
  | NAIVE
  deriving DecidableEq, Repr

/-- `CacheStruct`, less its `_type`. -/
structure CacheStruct where
  /-- `_value`. -/
  value : FixedPt
  /-- `_ring_buffer`. -/
  ringBuffer : CircArray FixedPt

/-- `CacheStruct ()`: `FixedPt ()` and `CircArray ()`, of capacity `10`. -/
instance : Inhabited CacheStruct := ⟨⟨default, CircArray.new 10⟩⟩

/-- The copy constructor of `CacheStruct`: member by member. -/
def CacheStruct.copy (c : CacheStruct) : CacheStruct := ⟨c.value, c.ringBuffer.copy⟩

/-- `VectorCache`. -/
abbrev VectorCache := List CacheStruct

/-- `cache[i]._value`. -/
def VectorCache.value (cache : VectorCache) (i : ℕ) : FixedPt := (cache.getD i default).value

/-- `cache[i]._ring_buffer`. -/
def VectorCache.ringBuffer (cache : VectorCache) (i : ℕ) : CircArray FixedPt :=
  (cache.getD i default).ringBuffer

/-- `cache[i]._value = v`. -/
def VectorCache.setValue (cache : VectorCache) (i : ℕ) (v : FixedPt) : VectorCache :=
  cache.modify i fun c => { c with value := v }

/-- `cache[i]._ring_buffer = rb` (`CircArray::operator=`). -/
def VectorCache.setRingBuffer (cache : VectorCache) (i : ℕ) (rb : CircArray FixedPt) : VectorCache :=
  cache.modify i fun c => { c with ringBuffer := c.ringBuffer.assign rb }

/-- `Vector<CacheStruct>::operator=`: every element copy-constructed. -/
def copyCache (cache : VectorCache) : VectorCache := cache.map CacheStruct.copy

/-! ### Reading a cache after a write -/

section CacheLemmas

variable {α β : Type*}

/-- A write to a cell of a list does not change what a read `g` of another cell, or
a read that the write does not affect, gives. -/
theorem getD_modify_of_forall {l : List α} {f : α → α} {g : α → β} (hf : ∀ x, g (f x) = g x)
    (i j : ℕ) (d : α) : g ((l.modify i f).getD j d) = g (l.getD j d) := by
  rw [List.getD_eq_getElem?_getD, List.getD_eq_getElem?_getD]
  by_cases hij : i = j
  · subst hij
    rw [List.getElem?_modify_eq]
    cases l[i]? <;> simp [hf]
  · rw [List.getElem?_modify_ne _ _ hij]

theorem getD_modify_self {l : List α} {i : ℕ} (h : i < l.length) (f : α → α) (d : α) :
    (l.modify i f).getD i d = f (l.getD i d) := by
  simp [List.getD_eq_getElem?_getD, List.getElem?_eq_getElem h]

namespace VectorCache

variable {cache : VectorCache} {i j : ℕ}

@[simp] theorem length_setValue (cache : VectorCache) (i : ℕ) (v : FixedPt) :
    (cache.setValue i v).length = cache.length := List.length_modify _ _ _

@[simp] theorem length_setRingBuffer (cache : VectorCache) (i : ℕ) (rb : CircArray FixedPt) :
    (cache.setRingBuffer i rb).length = cache.length := List.length_modify _ _ _

/-- `cache[i]._value = v` writes cell `i` of a cache that has one. -/
@[simp] theorem value_setValue (h : i < cache.length) (v : FixedPt) :
    (cache.setValue i v).value j = if i = j then v else cache.value j := by
  split
  · next hij =>
    subst hij
    simp only [value, setValue, getD_modify_self h]
  · next hij =>
    simp only [value, setValue, List.getD_eq_getElem?_getD, List.getElem?_modify_ne _ _ hij]

@[simp] theorem ringBuffer_setValue (cache : VectorCache) (i : ℕ) (v : FixedPt) (j : ℕ) :
    (cache.setValue i v).ringBuffer j = cache.ringBuffer j :=
  getD_modify_of_forall (l := cache) (f := fun c => { c with value := v }) (g := CacheStruct.ringBuffer)
    (fun _ => rfl) i j default

@[simp] theorem value_setRingBuffer (cache : VectorCache) (i : ℕ) (rb : CircArray FixedPt) (j : ℕ) :
    (cache.setRingBuffer i rb).value j = cache.value j :=
  getD_modify_of_forall (l := cache) (f := fun c => { c with ringBuffer := c.ringBuffer.assign rb })
    (g := CacheStruct.value) (fun _ => rfl) i j default

theorem ringBuffer_setRingBuffer_self (h : i < cache.length) (rb : CircArray FixedPt) :
    (cache.setRingBuffer i rb).ringBuffer i = (cache.ringBuffer i).assign rb := by
  simp only [ringBuffer, setRingBuffer, getD_modify_self h]

end VectorCache

@[simp] theorem length_copyCache (cache : VectorCache) : (copyCache cache).length = cache.length :=
  List.length_map _

@[simp] theorem value_copyCache (cache : VectorCache) (i : ℕ) :
    (copyCache cache).value i = cache.value i := by
  unfold copyCache VectorCache.value
  rw [List.getD_eq_getElem?_getD, List.getD_eq_getElem?_getD, List.getElem?_map]
  cases cache[i]? <;> rfl

/-- The copy of a cache holds copies of its ring buffers. -/
theorem ringBuffer_copyCache {cache : VectorCache} {i : ℕ} (h : i < cache.length) :
    (copyCache cache).ringBuffer i = (cache.ringBuffer i).copy := by
  unfold copyCache VectorCache.ringBuffer
  rw [List.getD_eq_getElem?_getD, List.getD_eq_getElem?_getD, List.getElem?_map,
    List.getElem?_eq_getElem h]
  rfl

end CacheLemmas

/-- The virtual functions of an `IndicatorBase` subclass, and its `_local_cache`
as its constructor leaves it. Each returns `none` where it does not return. -/
structure Indicator where
  /-- `initialize_element (buffers)`. -/
  initializeElement : Buffers FixedPt → Option FixedPt
  /-- `process_naive (buffers)`. -/
  processNaive : Buffers FixedPt → Option FixedPt
  /-- `process_ext (buffers)`: the `_local_cache` it fills and returns by reference. -/
  processExt : VectorCache → Buffers FixedPt → Option VectorCache
  /-- `process_opt_ext (increments, cache)`, from the `_local_cache` before it. -/
  processOptExt : VectorCache → List FixedPt → VectorCache → Option VectorCache
  /-- `_local_cache` after the constructor. -/
  localCache : VectorCache

/-- The state of an `IndicatorBase` element. -/
structure IndicatorBase where
  /-- `_active`, the `active` handler. -/
  active : Bool
  /-- `_op_mode`. -/
  opMode : OpMode
  /-- `*_buffers`. -/
  buffers : Buffers FixedPt
  /-- `_cache`: the cache saved at the last `ADD`. -/
  cache : VectorCache
  /-- `_initialized`. -/
  initialized : Bool
  /-- The subclass's `_local_cache`. -/
  localCache : VectorCache

namespace IndicatorBase

/-- The constructor and `configure`: `ninputs ()` ports with windows of `BUF_SIZE`
values; `OP_MODE 1` is `NAIVE`, any other `STARTUP`. With no input port the
configuration fails. -/
def configure (E : Indicator) (inPorts bufferSize : ℕ) (opMode : ℤ) : Option IndicatorBase :=
  if inPorts < 1 then none
  else some
    { active := true
      opMode := if opMode = 1 then .NAIVE else .STARTUP
      buffers := Buffers.new inPorts bufferSize
      cache := []
      initialized := false
      localCache := E.localCache }

/-- `send_msg_value (packet, value, timestamp, msg_type)`: the value and the
timestamp written over the packet's data, which goes out with the new type; a
packet too small for a `MsgValue` is discarded. -/
def sendMsgValue (p : ValuePacket) (value : FixedPt) (timestamp : ℕ) (msgType : PacketAppType) :
    Action :=
  if MSG_VALUE_SIZE > p.length then .discard
  else .output { p with appType := msgType, msg := ⟨value, timestamp⟩ }

/-- `add_new_value` for an `ADD` message, `add_new_value_temp` for an `UPDATE`. -/
def addValue (b : Buffers FixedPt) (port : ℕ) (p : ValuePacket) : Buffers FixedPt :=
  if p.appType = .MSG_ADD then b.addNewValue p.msg.value p.msg.timestamp port
  else b.addNewValueTemp p.msg.value p.msg.timestamp port

/-- The `INIT` branch of `push`, also taken until the element is initialised. -/
def pushInit (E : Indicator) (s : IndicatorBase) (port : ℕ) (p : ValuePacket) :
    Option (IndicatorBase × Action) :=
  let b := s.buffers.addNewValue p.msg.value p.msg.timestamp port
  if b.isUpdateComplete then
    (E.initializeElement b).map fun initValue =>
      ({ s with buffers := b, initialized := true },
        if initValue.valid then sendMsgValue p initValue p.msg.timestamp p.appType else .discard)
  else some ({ s with buffers := b }, .discard)

/-- The `NAIVE` branch of `push`. -/
def pushNaive (E : Indicator) (s : IndicatorBase) (port : ℕ) (p : ValuePacket) :
    Option (IndicatorBase × Action) :=
  let b := addValue s.buffers port p
  if b.isUpdateComplete then
    (E.processNaive b).map fun result =>
      ({ s with buffers := b }, sendMsgValue p result p.msg.timestamp p.appType)
  else some ({ s with buffers := b }, .discard)

/-- The `STARTUP` branch of `push`: a complete `ADD` round saves the cache and
switches to `NORMAL`. -/
def pushStartup (E : Indicator) (s : IndicatorBase) (port : ℕ) (p : ValuePacket) :
    Option (IndicatorBase × Action) :=
  let b := addValue s.buffers port p
  if b.isUpdateComplete then
    (E.processExt s.localCache b).map fun lc =>
      if p.appType = .MSG_ADD then
        let cache := copyCache lc
        ({ s with buffers := b, localCache := lc, cache := cache, opMode := .NORMAL },
          sendMsgValue p (cache.value 0) p.msg.timestamp p.appType)
      else
        ({ s with buffers := b, localCache := lc }, sendMsgValue p (lc.value 0) p.msg.timestamp p.appType)
  else some ({ s with buffers := b }, .discard)

/-- The loop of the `NORMAL` branch: `(*_buffers)[i].pop_front ()` for every port,
in order, giving the increments. -/
def popIncrements (b : Buffers FixedPt) : List FixedPt × Buffers FixedPt :=
  ((List.range b.numPorts).map fun i => (b.buffers i).popFront.1, b.popFronts)

/-- The `NORMAL` branch of `push`: every message is added for good, and the
increments are popped back out. -/
def pushNormal (E : Indicator) (s : IndicatorBase) (port : ℕ) (p : ValuePacket) :
    Option (IndicatorBase × Action) :=
  let b := s.buffers.addNewValue p.msg.value p.msg.timestamp port
  if !b.isUpdateComplete then some ({ s with buffers := b }, .discard)
  else
    let (increments, b) := popIncrements b
    (E.processOptExt s.localCache increments s.cache).map fun lc =>
      if p.appType = .MSG_ADD then
        let cache := copyCache lc
        ({ s with buffers := b, localCache := lc, cache := cache },
          sendMsgValue p (cache.value 0) p.msg.timestamp p.appType)
      else
        ({ s with buffers := b, localCache := lc }, sendMsgValue p (lc.value 0) p.msg.timestamp p.appType)

/-- `IndicatorBase::push (port, p)`. -/
def push (E : Indicator) (s : IndicatorBase) (port : ℕ) (p : ValuePacket) :
    Option (IndicatorBase × Action) :=
  if !s.active then some (s, .output p)
  else if p.appType ≠ .MSG_ADD ∧ p.appType ≠ .MSG_UPDATE ∧ p.appType ≠ .MSG_INIT then
    some (s, .output p)
  else if p.appType = .MSG_INIT ∨ s.initialized = false then pushInit E s port p
  else
    match s.opMode with
    | .NAIVE => pushNaive E s port p
    | .STARTUP => pushStartup E s port p
    | .NORMAL => pushNormal E s port p

/-- A stream of `(port, packet)` pushes. -/
def run (E : Indicator) (s : IndicatorBase) (inputs : List (ℕ × ValuePacket)) :
    Option (IndicatorBase × List Action) :=
  Theory.runSteps (fun s x => push E s x.1 x.2) s inputs

end IndicatorBase

end Synapse.Click
