import Synapse.Trade.WireFormat
import Synapse.Theory.Transducer

/-!
# The shared-memory queue

`shmq` (`kernel_modules/shmq/shmq.c`) carries captured packets from the kernel
to user space. The capture hook calls `shm_queue_send_msg`, which builds a
`struct shmq_msg` of the first bytes of the packet and puts its bytes into a
`kfifo` of 2048 bytes; a worker, `send_msg_from_queue`, waits until the fifo holds
a whole `struct shmq_msg`, takes that many bytes out and passes them to
`msgsnd`.

## The model

The `kfifo` is a byte FIFO of capacity 2048: `kfifo_in` appends as many of its
bytes as there is room for and says how many, `kfifo_out` takes bytes from the
front, `kfifo_len` is the count. A `struct shmq_msg` is its 136 bytes on x86-64:
`_mtype` and `_size` as eight little-endian bytes each, then `_data`. An event is
a call of `shm_queue_send_msg` or one iteration of the worker's loop, which sleeps
when the fifo holds less than a record. Unloading the module (`cancel_work`) is
left out.

## What is proved

* `runSteps_records`: while every call of `shm_queue_send_msg` finds room for its
  whole record, the records passed to `msgsnd` are the records built, in order.
* `torn_record`: sixteen calls into an empty fifo leave room for only eight bytes
  of the sixteenth record; the worker's sixteenth record is then made of those
  eight bytes and the start of the seventeenth, and is no record that was built.
-/

namespace Synapse.Kernel

open Theory Trade

/-- `SHMQ_MSG_MAX_DATA_LEN`. -/
def SHMQ_MSG_MAX_DATA_LEN : ℕ := 120

/-- `SHMQ_MSG_KERNEL_TYPE`. -/
def SHMQ_MSG_KERNEL_TYPE : UInt64 := 1

/-- `sizeof (struct shmq_msg)`. -/
def SHMQ_MSG_SIZE : ℕ := 136

/-- The size `kfifo_alloc` is given. -/
def KFIFO_SIZE : ℕ := 2048

/-- `kfifo_in (fifo, buf, n)`: the fifo with as many bytes of `buf` as fit, and
their number. -/
def kfifoIn (fifo buf : List UInt8) : List UInt8 × ℕ :=
  let n := min buf.length (KFIFO_SIZE - fifo.length)
  (fifo ++ buf.take n, n)

/-- The `copy_size` of `shm_queue_send_msg (msg, msg_size)`. -/
def copySize (msg : List UInt8) : ℕ :=
  if msg.length ≥ SHMQ_MSG_MAX_DATA_LEN then SHMQ_MSG_MAX_DATA_LEN - 1 else msg.length

/-- The bytes `shm_queue_send_msg (msg, msg_size)` puts into the fifo: a zeroed
`struct shmq_msg` with `_mtype`, `_size` and the first `_size` bytes of `msg`. -/
def shmqMsgOf (msg : List UInt8) : List UInt8 :=
  leBytes SHMQ_MSG_KERNEL_TYPE ++ leBytes (copySize msg).toUInt64 ++
    (msg.take (copySize msg) ++ List.replicate (SHMQ_MSG_MAX_DATA_LEN - copySize msg) 0)

/-- `_msg_data_struct._size` of the bytes of a record, as the client reads it
for the length of the packet it dumps. -/
def shmqMsgSize (record : List UInt8) : UInt64 := leWord ((record.drop 8).take 8)

/-- The fifo between the hook and the worker. -/
structure Shmq where
  /-- `s_ring_buffer`. -/
  ringBuffer : List UInt8

/-- What the two sides do. -/
inductive ShmqEvent
  /-- `shm_queue_send_msg (msg, msg_size)` with the bytes of a packet. -/
  | send (msg : List UInt8)
  /-- One iteration of the loop of `send_msg_from_queue`. -/
  | work

/-- What an event gives. -/
inductive ShmqOut
  /-- `shm_queue_send_msg` returned the number of bytes `kfifo_in` stored. -/
  | stored (n : ℕ)
  /-- The worker passed these bytes to `msgsnd`. -/
  | msgsnd (record : List UInt8)
  /-- The worker slept. -/
  | slept
  deriving DecidableEq, Repr

/-- One event. -/
def Shmq.step (q : Shmq) : ShmqEvent → Option (Shmq × ShmqOut)
  | .send msg =>
    let r := kfifoIn q.ringBuffer (shmqMsgOf msg)
    some (⟨r.1⟩, .stored r.2)
  | .work =>
    if q.ringBuffer.length < SHMQ_MSG_SIZE then some (q, .slept)
    else some (⟨q.ringBuffer.drop SHMQ_MSG_SIZE⟩, .msgsnd (q.ringBuffer.take SHMQ_MSG_SIZE))

/-- The bytes passed to `msgsnd`, in order. -/
def ShmqOut.passed : List ShmqOut → List (List UInt8)
  | [] => []
  | .msgsnd r :: os => r :: passed os
  | _ :: os => passed os

/-- The messages given to `shm_queue_send_msg`, in order. -/
def ShmqEvent.sent : List ShmqEvent → List (List UInt8)
  | [] => []
  | .send msg :: evs => msg :: sent evs
  | .work :: evs => sent evs

/-! ### Records -/

theorem copySize_le (msg : List UInt8) : copySize msg ≤ msg.length ∧ copySize msg < SHMQ_MSG_MAX_DATA_LEN := by
  unfold copySize SHMQ_MSG_MAX_DATA_LEN
  split_ifs <;> omega

@[simp] theorem length_shmqMsgOf (msg : List UInt8) : (shmqMsgOf msg).length = SHMQ_MSG_SIZE := by
  have := copySize_le msg
  simp [shmqMsgOf, SHMQ_MSG_SIZE, SHMQ_MSG_MAX_DATA_LEN] at this ⊢
  omega

/-- A record starts with its `_mtype`. -/
theorem take_eight_shmqMsgOf (msg : List UInt8) : (shmqMsgOf msg).take 8 = leBytes SHMQ_MSG_KERNEL_TYPE := by
  rw [shmqMsgOf, List.append_assoc, List.take_left' (length_leBytes _)]

/-- The client reads a record's `_size` as the `copy_size` it was built with. -/
theorem shmqMsgSize_shmqMsgOf (msg : List UInt8) : shmqMsgSize (shmqMsgOf msg) = (copySize msg).toUInt64 := by
  rw [shmqMsgSize, shmqMsgOf, List.append_assoc, List.drop_left' (length_leBytes _),
    List.take_left' (length_leBytes _), leWord_leBytes]

/-! ### One call, one iteration -/

theorem step_send_of_room {q : Shmq} (h : q.ringBuffer.length + SHMQ_MSG_SIZE ≤ KFIFO_SIZE) (msg : List UInt8) :
    q.step (.send msg) = some (⟨q.ringBuffer ++ shmqMsgOf msg⟩, .stored SHMQ_MSG_SIZE) := by
  have hmin : min (shmqMsgOf msg).length (KFIFO_SIZE - q.ringBuffer.length) = SHMQ_MSG_SIZE := by
    rw [length_shmqMsgOf]
    omega
  simp only [Shmq.step, kfifoIn, hmin]
  rw [← length_shmqMsgOf msg, List.take_length]

/-- A call that finds less room than a record stores the first bytes of its record
that fit, and says so. -/
theorem step_send_short {q : Shmq} (h : KFIFO_SIZE - q.ringBuffer.length ≤ SHMQ_MSG_SIZE) (msg : List UInt8) :
    q.step (.send msg) =
      some (⟨q.ringBuffer ++ (shmqMsgOf msg).take (KFIFO_SIZE - q.ringBuffer.length)⟩,
        .stored (KFIFO_SIZE - q.ringBuffer.length)) := by
  have hmin : min (shmqMsgOf msg).length (KFIFO_SIZE - q.ringBuffer.length) = KFIFO_SIZE - q.ringBuffer.length := by
    rw [length_shmqMsgOf]
    omega
  simp only [Shmq.step, kfifoIn, hmin]

theorem step_work_of_le {q : Shmq} (h : SHMQ_MSG_SIZE ≤ q.ringBuffer.length) :
    q.step .work = some (⟨q.ringBuffer.drop SHMQ_MSG_SIZE⟩, .msgsnd (q.ringBuffer.take SHMQ_MSG_SIZE)) := by
  simp only [Shmq.step]
  rw [if_neg (Nat.not_lt.2 h)]

/-! ### Whole records over a run -/

/-- A fifo holding the records of `pending`, whole and in order. -/
def Framed (q : Shmq) (pending : List (List UInt8)) : Prop :=
  q.ringBuffer = (pending.map shmqMsgOf).flatten

/-- A call that stores its whole record appends it. -/
theorem Framed.send {q : Shmq} {pending : List (List UInt8)} (hq : Framed q pending) {msg : List UInt8}
    (hn : (kfifoIn q.ringBuffer (shmqMsgOf msg)).2 = SHMQ_MSG_SIZE) :
    Framed ⟨(kfifoIn q.ringBuffer (shmqMsgOf msg)).1⟩ (pending ++ [msg]) := by
  have htake : (shmqMsgOf msg).take (min (shmqMsgOf msg).length (KFIFO_SIZE - q.ringBuffer.length)) =
      shmqMsgOf msg := by
    rw [List.take_of_length_le]
    simp only [kfifoIn] at hn
    rw [hn, length_shmqMsgOf]
  unfold Framed at hq ⊢
  simp only [kfifoIn, htake]
  simp only [hq, List.map_append, List.flatten_append, List.map_cons, List.map_nil,
    List.flatten_cons, List.flatten_nil, List.append_nil]

/-- An iteration of the worker on a fifo of whole records passes the first one on,
or sleeps if there is none. -/
theorem Framed.work {q : Shmq} {pending : List (List UInt8)} (hq : Framed q pending) :
    pending = [] ∧ q.step .work = some (q, .slept) ∨
      ∃ msg rest, pending = msg :: rest ∧ q.step .work = some (⟨(rest.map shmqMsgOf).flatten⟩, .msgsnd (shmqMsgOf msg)) := by
  cases pending with
  | nil =>
    refine .inl ⟨rfl, ?_⟩
    simp [Shmq.step, show q.ringBuffer = [] from hq, SHMQ_MSG_SIZE]
  | cons msg rest =>
    refine .inr ⟨msg, rest, rfl, ?_⟩
    have hring : q.ringBuffer = shmqMsgOf msg ++ (rest.map shmqMsgOf).flatten := hq
    have hlen : ¬ q.ringBuffer.length < SHMQ_MSG_SIZE := by simp [hring]
    simp only [Shmq.step]
    rw [if_neg hlen, hring, List.drop_left' (length_shmqMsgOf msg), List.take_left' (length_shmqMsgOf msg)]

/-- **The run invariant.** While every call stores its whole record, the fifo holds
whole records, and what the worker has passed on, followed by them, is the records
of the calls, in order. -/
theorem runSteps_framed : ∀ (evs : List ShmqEvent) (q q' : Shmq) (pending : List (List UInt8))
    (outs : List ShmqOut), Framed q pending → runSteps Shmq.step q evs = some (q', outs) →
    (∀ n, ShmqOut.stored n ∈ outs → n = SHMQ_MSG_SIZE) →
    ∃ pending', Framed q' pending' ∧
      ShmqOut.passed outs ++ pending'.map shmqMsgOf = (pending ++ ShmqEvent.sent evs).map shmqMsgOf
  | [], q, q', pending, outs, hq, h, _ => by
    simp only [runSteps, Option.some.injEq, Prod.mk.injEq] at h
    obtain ⟨rfl, rfl⟩ := h
    exact ⟨pending, hq, by simp [ShmqOut.passed, ShmqEvent.sent]⟩
  | ev :: evs, q, q', pending, outs, hq, h, hfit => by
    simp only [runSteps, Option.bind_eq_some_iff, Option.map_eq_some_iff] at h
    obtain ⟨⟨q₁, o⟩, hstep, ⟨q₂, outs₂⟩, hrun, heq⟩ := h
    simp only [Prod.mk.injEq] at heq
    obtain ⟨rfl, rfl⟩ := heq
    have hfit₂ : ∀ n, ShmqOut.stored n ∈ outs₂ → n = SHMQ_MSG_SIZE := fun n hn =>
      hfit n (List.mem_cons_of_mem _ hn)
    cases ev with
    | send msg =>
      -- the call's record is appended whole
      simp only [Shmq.step, Option.some.injEq, Prod.mk.injEq] at hstep
      obtain ⟨rfl, rfl⟩ := hstep
      have hn := hfit _ List.mem_cons_self
      obtain ⟨pending', hq', hpassed⟩ := runSteps_framed evs _ q₂ _ outs₂ (hq.send hn) hrun hfit₂
      refine ⟨pending', hq', ?_⟩
      simpa [ShmqOut.passed, ShmqEvent.sent] using hpassed
    | work =>
      rcases hq.work with ⟨rfl, hw⟩ | ⟨msg, rest, rfl, hw⟩
      · -- nothing to pass on
        rw [hw, Option.some.injEq] at hstep
        obtain ⟨rfl, rfl⟩ := Prod.mk.inj hstep
        obtain ⟨pending', hq', hpassed⟩ := runSteps_framed evs q q₂ [] outs₂ hq hrun hfit₂
        exact ⟨pending', hq', by simpa [ShmqOut.passed, ShmqEvent.sent] using hpassed⟩
      · -- the first record goes to `msgsnd`
        rw [hw, Option.some.injEq] at hstep
        obtain ⟨rfl, rfl⟩ := Prod.mk.inj hstep
        obtain ⟨pending', hq', hpassed⟩ := runSteps_framed evs _ q₂ rest outs₂ rfl hrun hfit₂
        exact ⟨pending', hq', by simpa [ShmqOut.passed, ShmqEvent.sent] using hpassed⟩

/-- **Whole records, in order.** From an empty fifo, while every call of
`shm_queue_send_msg` stores its whole record, the records passed to `msgsnd` are
the first records built, in the order of the calls. -/
theorem runSteps_records {evs : List ShmqEvent} {q : Shmq} {outs : List ShmqOut}
    (h : runSteps Shmq.step ⟨[]⟩ evs = some (q, outs)) (hfit : ∀ n, ShmqOut.stored n ∈ outs → n = SHMQ_MSG_SIZE) :
    ShmqOut.passed outs <+: (ShmqEvent.sent evs).map shmqMsgOf := by
  obtain ⟨pending', -, hpassed⟩ := runSteps_framed evs _ q [] outs rfl h hfit
  exact ⟨_, by simpa using hpassed⟩

/-- A call with `BPl10` into an empty fifo, then an iteration of the worker: the
record is stored whole, and the worker passes it on. -/
theorem runSteps_records_bpl :
    ∃ q outs, runSteps Shmq.step ⟨[]⟩ [.send [66, 80, 108, 49, 48], .work] = some (q, outs) ∧
      ShmqOut.passed outs <+: (ShmqEvent.sent [.send [66, 80, 108, 49, 48], .work]).map shmqMsgOf := by
  have h₁ := step_send_of_room (q := ⟨[]⟩) (by decide) [66, 80, 108, 49, 48]
  have h₂ := step_work_of_le (q := ⟨[] ++ shmqMsgOf [66, 80, 108, 49, 48]⟩) (by simp)
  have hrun := runSteps_cons_of_eq h₁ (runSteps_cons_of_eq h₂ (runSteps_nil _))
  refine ⟨_, _, hrun, runSteps_records hrun ?_⟩
  -- the one call stored all of its record
  intro n hn
  simp only [List.mem_cons, ShmqOut.stored.injEq, reduceCtorEq, List.not_mem_nil, or_false] at hn
  exact hn

/-! ### A fifo that fills up -/

/-- Calls with room for their records append them whole. -/
theorem runSteps_sends (msg : List UInt8) : ∀ (k : ℕ) (q : Shmq),
    q.ringBuffer.length + k * SHMQ_MSG_SIZE ≤ KFIFO_SIZE →
    runSteps Shmq.step q (List.replicate k (.send msg)) =
      some (⟨q.ringBuffer ++ (List.replicate k (shmqMsgOf msg)).flatten⟩, List.replicate k (.stored SHMQ_MSG_SIZE))
  | 0, q, _ => by simp
  | k + 1, q, h => by
    have hroom : q.ringBuffer.length + SHMQ_MSG_SIZE ≤ KFIFO_SIZE := by
      rw [Nat.succ_mul] at h
      omega
    have hrest : (q.ringBuffer ++ shmqMsgOf msg).length + k * SHMQ_MSG_SIZE ≤ KFIFO_SIZE := by
      rw [List.length_append, length_shmqMsgOf, Nat.add_assoc, Nat.add_comm SHMQ_MSG_SIZE, ← Nat.succ_mul]
      exact h
    rw [List.replicate_succ, List.replicate_succ, runSteps_cons_of_eq (step_send_of_room hroom msg)
      (runSteps_sends msg k _ hrest), List.replicate_succ, List.flatten_cons, List.append_assoc]

/-- Iterations of the worker on a fifo that starts with whole records pass them on. -/
theorem runSteps_works {r : List UInt8} (hr : r.length = SHMQ_MSG_SIZE) : ∀ (k : ℕ) (tail : List UInt8),
    runSteps Shmq.step ⟨(List.replicate k r).flatten ++ tail⟩ (List.replicate k .work) =
      some (⟨tail⟩, List.replicate k (.msgsnd r))
  | 0, tail => by simp
  | k + 1, tail => by
    have hring : (List.replicate (k + 1) r).flatten ++ tail = r ++ ((List.replicate k r).flatten ++ tail) := by
      rw [List.replicate_succ, List.flatten_cons, List.append_assoc]
    have hle : SHMQ_MSG_SIZE ≤ (r ++ ((List.replicate k r).flatten ++ tail)).length := by
      rw [List.length_append, hr]
      omega
    rw [hring, List.replicate_succ, List.replicate_succ, runSteps_cons_of_eq (step_work_of_le hle)
      (by rw [← hr, List.drop_left]; exact runSteps_works hr k tail), ← hr, List.take_left]

/-- **A torn record.** Sixteen calls into an empty fifo find room for fifteen
records and eight bytes of the sixteenth; the sixteenth call still returns. After
fifteen iterations of the worker, the next call stores its record behind those
eight bytes, and the worker passes on a record made of the eight bytes and the
first 128 of the next one. Whatever the packets, the client reads its `_size`
as the `_mtype` of the record it was cut from. -/
theorem torn_record (m m' : List UInt8) :
    (runSteps Shmq.step ⟨[]⟩
        (List.replicate 16 (.send m) ++ List.replicate 15 .work ++ [.send m', .work])).map Prod.snd =
      some (List.replicate 15 (.stored SHMQ_MSG_SIZE) ++ .stored 8 :: List.replicate 15 (.msgsnd (shmqMsgOf m)) ++
        [.stored SHMQ_MSG_SIZE, .msgsnd ((shmqMsgOf m).take 8 ++ (shmqMsgOf m').take 128)]) ∧
      shmqMsgSize ((shmqMsgOf m).take 8 ++ (shmqMsgOf m').take 128) = SHMQ_MSG_KERNEL_TYPE ∧
      ∀ msg, copySize msg ≠ 1 → (shmqMsgOf m).take 8 ++ (shmqMsgOf m').take 128 ≠ shmqMsgOf msg := by
  set full := (List.replicate 15 (shmqMsgOf m)).flatten
  have hfull : full.length = 2040 := by simp [full, SHMQ_MSG_SIZE]
  have hlen8 : ((shmqMsgOf m).take 8).length = 8 := by simp [SHMQ_MSG_SIZE]
  have hsize : shmqMsgSize ((shmqMsgOf m).take 8 ++ (shmqMsgOf m').take 128) = SHMQ_MSG_KERNEL_TYPE := by
    rw [shmqMsgSize, List.drop_left' hlen8, List.take_take, show min 8 128 = 8 from rfl, take_eight_shmqMsgOf,
      leWord_leBytes]
  -- fifteen records fill the fifo but for eight bytes
  have h₁ := runSteps_sends m 15 ⟨[]⟩ (by decide)
  have h₂ : Shmq.step ⟨[] ++ full⟩ (.send m) = some (⟨full ++ (shmqMsgOf m).take 8⟩, .stored 8) := by
    rw [step_send_short (by simp [hfull, KFIFO_SIZE, SHMQ_MSG_SIZE]) m]
    simp [hfull, KFIFO_SIZE]
  have h₃ := runSteps_works (length_shmqMsgOf m) 15 ((shmqMsgOf m).take 8)
  have h₄ := step_send_of_room (q := ⟨(shmqMsgOf m).take 8⟩) (by simp [KFIFO_SIZE, SHMQ_MSG_SIZE]) m'
  have h₅ : Shmq.step ⟨(shmqMsgOf m).take 8 ++ shmqMsgOf m'⟩ .work =
      some (⟨(shmqMsgOf m').drop 128⟩, .msgsnd ((shmqMsgOf m).take 8 ++ (shmqMsgOf m').take 128)) := by
    rw [step_work_of_le (by simp [SHMQ_MSG_SIZE]), List.drop_append, List.take_append, hlen8]
    simp [SHMQ_MSG_SIZE, List.drop_eq_nil_of_le, List.take_take]
  have hrun := runSteps_append_of_eq (runSteps_append_of_eq (runSteps_append_of_eq h₁
    (runSteps_cons_of_eq h₂ (runSteps_nil _))) h₃)
    (runSteps_cons_of_eq h₄ (runSteps_cons_of_eq h₅ (runSteps_nil _)))
  refine ⟨?_, hsize, fun msg hc heq => hc ?_⟩
  · rw [List.replicate_succ', hrun]
    simp
  · -- the client would read the record's own `copy_size`
    have hbuilt := shmqMsgSize_shmqMsgOf msg
    rw [← heq, hsize] at hbuilt
    have hlt := (copySize_le msg).2
    have := congrArg UInt64.toNat hbuilt
    simp [SHMQ_MSG_KERNEL_TYPE, SHMQ_MSG_MAX_DATA_LEN] at this hlt
    omega

theorem torn_record_bpl :
    copySize [66, 80, 108, 49, 48] ≠ 1 ∧
      (shmqMsgOf [66, 80, 108, 49, 48]).take 8 ++ (shmqMsgOf [66, 80, 108, 49, 48]).take 128 ≠
        shmqMsgOf [66, 80, 108, 49, 48] :=
  ⟨by decide, (torn_record [66, 80, 108, 49, 48] [66, 80, 108, 49, 48]).2.2 _ (by decide)⟩

end Synapse.Kernel
