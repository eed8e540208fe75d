import Synapse.Click.IndicatorBase
import Synapse.Click.BufferRounds

/-!
# The naive and the optimised modes of an `IndicatorBase` element

An element configured with `OP_MODE 1` (`NAIVE`) computes every value from its
windows; one configured otherwise (`STARTUP`, then `NORMAL`) computes it from the
round's values and the cache saved at the last `ADD`. This module proves, for any
element, that the two send the same values for a stream of rounds, once the
element's incremental computation is shown to agree with its naive one
(`Incremental`).

## The stream

A `PacketRound` is one packet per port, all of one type and one timestamp. The
stream is an `INIT` round and then `ADD` and `UPDATE` rounds, with increasing
timestamps.

## What is proved

`modes_agree_while`: for an element with an `Incremental` certificate, the runs of
the two configurations over such a stream, as long as the committed rows before
each round fit the certificate, both return, and give the same packets, discarded
or sent; `modes_agree` when all rows fit. The proof is a lockstep simulation over
rounds: `Agree` relates the two elements between rounds, and `Agree.run_rounds` carries it
from round to round. Inside a round every packet but the last is discarded
(`run_incomplete`), the buffers going as `BufferRounds` says; the last one
computes the value, the same in both (`run_round`).
-/

namespace Synapse.Click

open Buffers

/-- A round of the stream: the packet each port receives, all with one type and one
timestamp. -/
structure PacketRound where
  /-- The type of every packet. -/
  appType : PacketAppType
  /-- The timestamp of every `MsgValue`. -/
  tstamp : ℕ
  /-- The ports, in arrival order. -/
  order : List ℕ
  /-- The value each port receives. -/
  value : ℕ → FixedPt
  /-- The length of each packet. -/
  length : ℕ → ℕ

namespace PacketRound

/-- The packet port `p` receives. -/
def packet (r : PacketRound) (p : ℕ) : ValuePacket := ⟨r.length p, r.appType, ⟨r.value p, r.tstamp⟩⟩

/-- The pushes of the round, in arrival order. -/
def inputs (r : PacketRound) : List (ℕ × ValuePacket) := r.order.map fun p => (p, r.packet p)

/-- The round as the buffers see it, added as `κ`. -/
def toRound (r : PacketRound) (κ : RoundKind) : Round FixedPt := ⟨κ, r.tstamp, r.order, r.value⟩

@[simp] theorem appType_packet (r : PacketRound) (p : ℕ) : (r.packet p).appType = r.appType := rfl
@[simp] theorem value_packet (r : PacketRound) (p : ℕ) : (r.packet p).msg.value = r.value p := rfl
@[simp] theorem timestamp_packet (r : PacketRound) (p : ℕ) : (r.packet p).msg.timestamp = r.tstamp := rfl

end PacketRound

/-- **What an element must show** for its two modes to agree, on `k` ports with
windows of `c` values: a relation `Rel` between the cache saved at an `ADD` and the
committed rows, newest first, and an invariant `Local` of its `_local_cache`, such
that `process_ext` and `process_opt_ext`, after a round over windows `RoundWindows`,
return the value `process_naive` returns there and a cache related to the rows
with the round's added. They need do so only for the rows before a round that
`Fits`, which for most elements is every list of rows. -/
structure Incremental (E : Indicator) (k c : ℕ) where
  /-- What the cache says of the committed rows. -/
  Rel : VectorCache → List (ℕ → FixedPt) → Prop
  /-- What the element keeps true of its `_local_cache`. -/
  Local : VectorCache → Prop
  /-- The committed rows before a round on which the two computations agree. -/
  Fits : List (ℕ → FixedPt) → Prop := fun _ => True
  local_init : Local E.localCache
  init_some : ∀ b, (E.initializeElement b).isSome
  ext : ∀ lc b vals rows, Local lc → rows ≠ [] → Fits rows → RoundWindows k c b vals rows →
    ∃ v lc', E.processNaive b = some v ∧ E.processExt lc b = some lc' ∧ lc'.value 0 = v ∧
      Local lc' ∧ Rel (copyCache lc') (vals :: rows)
  opt : ∀ lc cache b vals rows, Local lc → rows ≠ [] → Fits rows → Rel cache rows →
    RoundWindows k c b vals rows →
    ∃ v lc', E.processNaive b = some v ∧
      E.processOptExt lc ((List.range k).map vals) cache = some lc' ∧ lc'.value 0 = v ∧
      Local lc' ∧ Rel (copyCache lc') (vals :: rows)

namespace IndicatorBase

variable {E : Indicator}

/-! ### One push -/

/-- How a message of type `ty` is added to the buffers of `s`: for good, but for an
`UPDATE` in `NAIVE` or `STARTUP` mode after the element is initialised. -/
def roundKind (s : IndicatorBase) (ty : PacketAppType) : RoundKind :=
  if ty = .MSG_UPDATE ∧ s.initialized = true ∧ s.opMode ≠ .NORMAL then .provisional else .committed

theorem roundKind_eq (s : IndicatorBase) (ty : PacketAppType) :
    s.roundKind ty =
      if ty = .MSG_UPDATE ∧ s.initialized = true ∧ s.opMode ≠ .NORMAL then .provisional else .committed :=
  rfl

/-- The messages of a round. -/
def IsRoundType (ty : PacketAppType) : Prop := ty = .MSG_ADD ∨ ty = .MSG_UPDATE ∨ ty = .MSG_INIT

theorem addValue_eq (b : Buffers FixedPt) (port : ℕ) (p : ValuePacket) :
    addValue b port p = b.call (if p.appType = .MSG_ADD then .committed else .provisional)
      p.msg.timestamp (port, p.msg.value) := by
  unfold addValue
  split <;> rfl

variable {s : IndicatorBase} {port : ℕ} {p : ValuePacket}

/-- An active element takes a round message to the branch of its phase. -/
theorem push_of_round (hact : s.active = true) (hty : IsRoundType p.appType) :
    push E s port p =
      if p.appType = .MSG_INIT ∨ s.initialized = false then pushInit E s port p
      else match s.opMode with
        | .NAIVE => pushNaive E s port p
        | .STARTUP => pushStartup E s port p
        | .NORMAL => pushNormal E s port p := by
  have hty' : ¬ (p.appType ≠ .MSG_ADD ∧ p.appType ≠ .MSG_UPDATE ∧ p.appType ≠ .MSG_INIT) := by
    unfold IsRoundType at hty
    tauto
  unfold push
  exact (if_neg (by simp [hact])).trans (if_neg hty')

section Initialized

variable (hact : s.active = true) (hty : IsRoundType p.appType) (hni : p.appType ≠ .MSG_INIT)
  (hi : s.initialized = true)
include hact hty hni hi

theorem push_of_naive (hm : s.opMode = .NAIVE) : push E s port p = pushNaive E s port p := by
  rw [push_of_round hact hty, if_neg (by simp [hni, hi]), hm]

theorem push_of_startup (hm : s.opMode = .STARTUP) : push E s port p = pushStartup E s port p := by
  rw [push_of_round hact hty, if_neg (by simp [hni, hi]), hm]

theorem push_of_normal (hm : s.opMode = .NORMAL) : push E s port p = pushNormal E s port p := by
  rw [push_of_round hact hty, if_neg (by simp [hni, hi]), hm]

end Initialized

/-- After the `INIT` round, a message of a mode other than `NORMAL` is added as its
type says. -/
theorem roundKind_of_initialized {ty : PacketAppType} (hty : IsRoundType ty) (hni : ty ≠ .MSG_INIT)
    (hi : s.initialized = true) (hm : s.opMode ≠ .NORMAL) :
    s.roundKind ty = if ty = .MSG_ADD then .committed else .provisional := by
  rw [roundKind_eq]
  unfold IsRoundType at hty
  by_cases ha : ty = .MSG_ADD <;> simp_all

/-- The `INIT` round, and every message before it, is added for good. -/
theorem roundKind_of_init_round {ty : PacketAppType} (hinit : ty = .MSG_INIT ∨ s.initialized = false) :
    s.roundKind ty = .committed := by
  rw [roundKind_eq, if_neg]
  rintro ⟨h₁, h₂, -⟩
  rcases hinit with h | h <;> simp_all

/-- `NORMAL` adds every message for good. -/
theorem roundKind_of_normal {ty : PacketAppType} (hm : s.opMode = .NORMAL) : s.roundKind ty = .committed := by
  rw [roundKind_eq, if_neg (fun h => h.2.2 hm)]

/-- After the `INIT` round, `NAIVE` and `STARTUP` add a message as its round kind says. -/
theorem addValue_of_initialized (hty : IsRoundType p.appType) (hni : p.appType ≠ .MSG_INIT)
    (hi : s.initialized = true) (hm : s.opMode ≠ .NORMAL) :
    addValue s.buffers port p = s.buffers.call (s.roundKind p.appType) p.msg.timestamp (port, p.msg.value) := by
  rw [addValue_eq, roundKind_of_initialized hty hni hi hm]

/-- A push that leaves the round incomplete adds the value and discards the packet,
whatever the mode. -/
theorem push_of_incomplete (hact : s.active = true) (hty : IsRoundType p.appType)
    (hinc : (s.buffers.call (s.roundKind p.appType) p.msg.timestamp (port, p.msg.value)).isUpdateComplete
      = false) :
    push E s port p =
      some ({ s with buffers := s.buffers.call (s.roundKind p.appType) p.msg.timestamp (port, p.msg.value) },
        .discard) := by
  by_cases hinit : p.appType = .MSG_INIT ∨ s.initialized = false
  · -- the `INIT` branch adds for good
    have hκ : s.roundKind p.appType = .committed := roundKind_of_init_round hinit
    rw [push_of_round hact hty, if_pos hinit, hκ]
    rw [hκ] at hinc
    simp only [pushInit]
    rw [if_neg (by simpa [call] using hinc)]
    rfl
  · obtain ⟨hni, hi⟩ : p.appType ≠ .MSG_INIT ∧ s.initialized = true := by
      simpa using hinit
    have hmodes : s.opMode = .NAIVE ∨ s.opMode = .STARTUP ∨ s.opMode = .NORMAL := by
      cases s.opMode <;> simp
    rcases hmodes with hmode | hmode | hmode
    · -- `NAIVE`: `add_new_value` or `add_new_value_temp`
      rw [push_of_naive hact hty hni hi hmode]
      simp only [pushNaive, addValue_of_initialized hty hni hi (by simp [hmode])]
      rw [if_neg (by simp [hinc])]
    · -- `STARTUP`: the same
      rw [push_of_startup hact hty hni hi hmode]
      simp only [pushStartup, addValue_of_initialized hty hni hi (by simp [hmode])]
      rw [if_neg (by simp [hinc])]
    · -- `NORMAL`: always `add_new_value`
      have hκ : s.roundKind p.appType = .committed := roundKind_of_normal hmode
      rw [push_of_normal hact hty hni hi hmode, hκ]
      rw [hκ] at hinc
      simp only [pushNormal]
      rw [if_pos (by simpa [call] using hinc)]
      rfl

/-! ### The last push of a round -/

/-- The buffers after the call a push makes. -/
def pushBuffers (s : IndicatorBase) (port : ℕ) (p : ValuePacket) : Buffers FixedPt :=
  s.buffers.call (s.roundKind p.appType) p.msg.timestamp (port, p.msg.value)

theorem pushBuffers_eq (s : IndicatorBase) (port : ℕ) (p : ValuePacket) :
    s.pushBuffers port p = s.buffers.call (s.roundKind p.appType) p.msg.timestamp (port, p.msg.value) :=
  rfl

/-- A message added for good is added by `add_new_value`. -/
theorem pushBuffers_of_committed (hκ : s.roundKind p.appType = .committed) :
    s.pushBuffers port p = s.buffers.addNewValue p.msg.value p.msg.timestamp port := by
  rw [pushBuffers_eq, hκ]
  rfl

section Complete

variable (hact : s.active = true) (hty : IsRoundType p.appType)
  (hcomp : (s.pushBuffers port p).isUpdateComplete = true)
include hact hty hcomp

/-- The `INIT` round completes: `initialize_element`, sent when valid. -/
theorem push_complete_init (hinit : p.appType = .MSG_INIT ∨ s.initialized = false) :
    push E s port p = (E.initializeElement (s.pushBuffers port p)).map fun v =>
      ({ s with buffers := s.pushBuffers port p, initialized := true },
        if v.valid then sendMsgValue p v p.msg.timestamp p.appType else .discard) := by
  have hb : s.pushBuffers port p = s.buffers.addNewValue p.msg.value p.msg.timestamp port :=
    pushBuffers_of_committed (roundKind_of_init_round hinit)
  rw [push_of_round hact hty, if_pos hinit, hb]
  rw [hb] at hcomp
  simp only [pushInit]
  rw [if_pos hcomp]

variable (hni : p.appType ≠ .MSG_INIT) (hi : s.initialized = true)
include hni hi

theorem push_complete_naive (hm : s.opMode = .NAIVE) :
    push E s port p = (E.processNaive (s.pushBuffers port p)).map fun v =>
      ({ s with buffers := s.pushBuffers port p }, sendMsgValue p v p.msg.timestamp p.appType) := by
  rw [push_of_naive hact hty hni hi hm]
  simp only [pushNaive, addValue_of_initialized hty hni hi (by simp [hm])]
  rw [pushBuffers_eq] at hcomp ⊢
  rw [if_pos hcomp]

theorem push_complete_startup (hm : s.opMode = .STARTUP) :
    push E s port p = (E.processExt s.localCache (s.pushBuffers port p)).map fun lc =>
      if p.appType = .MSG_ADD then
        ({ s with buffers := s.pushBuffers port p, localCache := lc, cache := copyCache lc,
                  opMode := .NORMAL }, sendMsgValue p ((copyCache lc).value 0) p.msg.timestamp p.appType)
      else
        ({ s with buffers := s.pushBuffers port p, localCache := lc },
          sendMsgValue p (lc.value 0) p.msg.timestamp p.appType) := by
  rw [push_of_startup hact hty hni hi hm]
  simp only [pushStartup, addValue_of_initialized hty hni hi (by simp [hm])]
  rw [pushBuffers_eq] at hcomp ⊢
  rw [if_pos hcomp]

theorem push_complete_normal (hm : s.opMode = .NORMAL) :
    push E s port p =
      (E.processOptExt s.localCache (popIncrements (s.pushBuffers port p)).1 s.cache).map fun lc =>
        if p.appType = .MSG_ADD then
          ({ s with buffers := (popIncrements (s.pushBuffers port p)).2, localCache := lc,
                    cache := copyCache lc }, sendMsgValue p ((copyCache lc).value 0) p.msg.timestamp p.appType)
        else
          ({ s with buffers := (popIncrements (s.pushBuffers port p)).2, localCache := lc },
            sendMsgValue p (lc.value 0) p.msg.timestamp p.appType) := by
  have hb : s.pushBuffers port p = s.buffers.addNewValue p.msg.value p.msg.timestamp port :=
    pushBuffers_of_committed (roundKind_of_normal hm)
  rw [push_of_normal hact hty hni hi hm, hb]
  rw [hb] at hcomp
  simp only [pushNormal, hcomp, Bool.not_true, Bool.false_eq_true, if_false]

end Complete

/-! ### One round -/

/-- The calls a list of ports makes in a round. -/
def roundCalls (r : PacketRound) (ps : List ℕ) : List (ℕ × FixedPt) := ps.map fun p => (p, r.value p)

@[simp] theorem roundKind_with_buffers (s : IndicatorBase) (b : Buffers FixedPt) (ty : PacketAppType) :
    ({ s with buffers := b } : IndicatorBase).roundKind ty = s.roundKind ty := rfl

/-- The pushes of a round that leave it incomplete: each packet is discarded and the
buffers take the calls one after another. -/
theorem run_incomplete {r : PacketRound} (hty : IsRoundType r.appType) :
    ∀ (ps : List ℕ) (s : IndicatorBase), s.active = true →
      (∀ j < ps.length, (s.buffers.applyCalls (s.roundKind r.appType) r.tstamp
        (roundCalls r (ps.take (j + 1)))).isUpdateComplete = false) →
      run E s (ps.map fun p => (p, r.packet p)) =
        some ({ s with buffers := s.buffers.applyCalls (s.roundKind r.appType) r.tstamp (roundCalls r ps) },
          List.replicate ps.length .discard) := by
  intro ps
  induction ps with
  | nil => exact fun s _ _ => rfl
  | cons p ps ih =>
    intro s hact hinc
    have h₀ := hinc 0 (by simp)
    simp only [List.take_succ_cons, List.take_zero, roundCalls, List.map_cons, List.map_nil,
      applyCalls_cons, applyCalls_nil] at h₀
    have hpush := @push_of_incomplete E s p (r.packet p) hact (by simpa using hty)
      (by simpa using h₀)
    -- the rest of the round runs from the buffers after the first call
    have hrest := ih { s with buffers := s.buffers.call (s.roundKind r.appType) r.tstamp (p, r.value p) } hact
      fun j hj => by simpa [roundCalls] using hinc (j + 1) (by simp; omega)
    simp only [PacketRound.appType_packet, PacketRound.value_packet, PacketRound.timestamp_packet] at hpush
    simp only [run] at hrest ⊢
    rw [List.map_cons, Theory.runSteps_cons_of_eq hpush hrest]
    simp [roundCalls, List.replicate_succ]

/-- A round from the buffers between rounds, its ports `ps` and then `last`: every
push but the last is discarded, and the last one finds the buffers of the whole
round but its own call. -/
theorem run_round {k c : ℕ} {rows : List (ℕ → FixedPt)} {s : IndicatorBase} {r : PacketRound}
    {ps : List ℕ} {last : ℕ} (hord : r.order = ps ++ [last])
    (hact : s.active = true) (hty : IsRoundType r.appType) (hB : Boundary k c s.buffers rows)
    (hk : 0 < k) (hc : 0 < c) (hcov : r.order.Perm (List.range k))
    (ht : s.buffers.tstamp < r.tstamp ∨
      s.buffers.state = .INITIAL ∧ s.roundKind r.appType = .committed) :
    run E s r.inputs =
      (push E { s with
          buffers := s.buffers.applyCalls (s.roundKind r.appType) r.tstamp (roundCalls r ps) }
        last (r.packet last)).map fun x => (x.1, List.replicate ps.length .discard ++ [x.2]) := by
  have hlen : ps.length + 1 = k := by simpa [hord] using hcov.length_eq
  -- the first `k - 1` calls leave the round incomplete
  have hinc : ∀ j < ps.length, (s.buffers.applyCalls (s.roundKind r.appType) r.tstamp
      (roundCalls r (ps.take (j + 1)))).isUpdateComplete = false := by
    intro j hj
    obtain ⟨s0, hs0, hm⟩ := hB.applyCalls_take hk hc (r := r.toRound (s.roundKind r.appType)) hcov ht j
    have hps : ps.take (j + 1) = r.order.take (j + 1) := by
      rw [hord, List.take_append_of_le_length (by omega)]
    have hcalls : (r.toRound (s.roundKind r.appType)).calls.take (j + 1) = roundCalls r (ps.take (j + 1)) := by
      rw [hps, Round.calls, roundCalls, List.map_take]
      rfl
    have hu : (s.buffers.applyCalls (s.roundKind r.appType) r.tstamp
        ((r.toRound (s.roundKind r.appType)).calls.take (j + 1))).isUpdateComplete =
        decide ((r.order.take (j + 1)).length = k) := hm.isUpdateComplete hs0
    rw [← hcalls, hu, List.length_take, hcov.length_eq, List.length_range, decide_eq_false_iff_not]
    omega
  have hpre := run_incomplete (E := E) hty ps s hact hinc
  rw [PacketRound.inputs, hord, List.map_append, run, Theory.runSteps_append hpre,
    List.map_singleton, Theory.runSteps_singleton, Option.map_map]
  rfl

/-- A round of `k` ports has a last one. -/
theorem exists_order_eq_append {k : ℕ} {r : PacketRound} (hk : 0 < k) (hcov : r.order.Perm (List.range k)) :
    ∃ ps last, r.order = ps ++ [last] := by
  have hne : r.order ≠ [] := by
    intro h
    have := hcov.length_eq
    simp [h] at this
    omega
  exact ⟨r.order.dropLast, r.order.getLast hne, (List.dropLast_append_getLast hne).symm⟩

/-- The last call of a round completes the buffers of the whole round. -/
theorem applyCalls_call_last (b : Buffers FixedPt) (κ : RoundKind) {r : PacketRound} {ps : List ℕ}
    {last : ℕ} (hord : r.order = ps ++ [last]) :
    (b.applyCalls κ r.tstamp (roundCalls r ps)).call κ r.tstamp (last, r.value last) =
      b.applyRound (r.toRound κ) := by
  rw [applyRound, PacketRound.toRound]
  simp only [Round.calls, hord, List.map_append, List.map_cons, List.map_nil, applyCalls, List.foldl_append,
    List.foldl_cons, List.foldl_nil, roundCalls]

/-! ### A round in each mode -/

/-- The buffers a round leaves. -/
def roundBuffers (s : IndicatorBase) (r : PacketRound) : Buffers FixedPt :=
  s.buffers.applyRound (r.toRound (s.roundKind r.appType))

theorem roundBuffers_eq (s : IndicatorBase) (r : PacketRound) :
    s.roundBuffers r = s.buffers.applyRound (r.toRound (s.roundKind r.appType)) :=
  rfl

/-- The last push of a round finds the buffers of the whole round. -/
theorem pushBuffers_last {r : PacketRound} {ps : List ℕ} {last : ℕ} (hord : r.order = ps ++ [last])
    (s : IndicatorBase) :
    ({ s with buffers := s.buffers.applyCalls (s.roundKind r.appType) r.tstamp (roundCalls r ps) } :
      IndicatorBase).pushBuffers last (r.packet last) = s.roundBuffers r :=
  applyCalls_call_last _ _ hord

/-- An `INIT` message is added for good. -/
theorem roundKind_of_init (s : IndicatorBase) {ty : PacketAppType} (hty : ty = .MSG_INIT) :
    s.roundKind ty = .committed :=
  roundKind_of_init_round (.inl hty)

theorem isRoundType_of_add_or_update {ty : PacketAppType}
    (hty : ty = .MSG_ADD ∨ ty = .MSG_UPDATE) : IsRoundType ty ∧ ty ≠ .MSG_INIT := by
  rcases hty with h | h <;> simp [IsRoundType, h]

section Rounds

variable {k c : ℕ} {rows : List (ℕ → FixedPt)} {r : PacketRound} {ps : List ℕ} {last : ℕ}
  (hord : r.order = ps ++ [last]) (hact : s.active = true) (hB : Boundary k c s.buffers rows)
  (hk : 0 < k) (hc : 0 < c) (hcov : r.order.Perm (List.range k))
include hord hact hB hk hc hcov

/-- The first round, `INIT` or not, from the initial buffers. -/
theorem run_init (hi : s.initialized = false) (hty : IsRoundType r.appType)
    (hst : s.buffers.state = .INITIAL) :
    run E s r.inputs = (E.initializeElement (s.roundBuffers r)).map fun v =>
      ({ s with buffers := s.roundBuffers r, initialized := true },
        List.replicate ps.length .discard ++
          [if v.valid then sendMsgValue (r.packet last) v r.tstamp r.appType else .discard]) := by
  have ht : s.buffers.tstamp < r.tstamp ∨ s.buffers.state = .INITIAL ∧ s.roundKind r.appType = .committed :=
    .inr ⟨hst, roundKind_of_init_round (.inr hi)⟩
  have hend := hB.roundEnd hk hc (r := r.toRound (s.roundKind r.appType)) hcov ht
  set s₁ : IndicatorBase :=
    { s with buffers := s.buffers.applyCalls (s.roundKind r.appType) r.tstamp (roundCalls r ps) }
  rw [run_round hord hact hty hB hk hc hcov ht,
    push_complete_init (s := s₁) hact hty (by rw [pushBuffers_last hord]; exact hend.complete) (.inr hi),
    pushBuffers_last hord, Option.map_map]
  rfl

variable (hi : s.initialized = true) (hty : r.appType = .MSG_ADD ∨ r.appType = .MSG_UPDATE)
  (ht : s.buffers.tstamp < r.tstamp)
include hi hty ht

/-- A round in `NAIVE` mode. -/
theorem run_naive (hm : s.opMode = .NAIVE) :
    run E s r.inputs = (E.processNaive (s.roundBuffers r)).map fun v =>
      ({ s with buffers := s.roundBuffers r },
        List.replicate ps.length .discard ++ [sendMsgValue (r.packet last) v r.tstamp r.appType]) := by
  obtain ⟨hty', hni⟩ := isRoundType_of_add_or_update hty
  have hend := hB.roundEnd hk hc (r := r.toRound (s.roundKind r.appType)) hcov (.inl ht)
  set s₁ : IndicatorBase :=
    { s with buffers := s.buffers.applyCalls (s.roundKind r.appType) r.tstamp (roundCalls r ps) }
  rw [run_round hord hact hty' hB hk hc hcov (.inl ht),
    push_complete_naive (s := s₁) hact hty' (by rw [pushBuffers_last hord]; exact hend.complete) hni hi hm,
    pushBuffers_last hord, Option.map_map]
  rfl

/-- A round in `STARTUP` mode: `process_ext`; an `ADD` saves the cache and moves on to
`NORMAL`. -/
theorem run_startup (hm : s.opMode = .STARTUP) :
    run E s r.inputs = (E.processExt s.localCache (s.roundBuffers r)).map fun lc =>
      if r.appType = .MSG_ADD then
        ({ s with buffers := s.roundBuffers r, localCache := lc, cache := copyCache lc, opMode := .NORMAL },
          List.replicate ps.length .discard ++
            [sendMsgValue (r.packet last) ((copyCache lc).value 0) r.tstamp r.appType])
      else
        ({ s with buffers := s.roundBuffers r, localCache := lc },
          List.replicate ps.length .discard ++ [sendMsgValue (r.packet last) (lc.value 0) r.tstamp r.appType]) := by
  obtain ⟨hty', hni⟩ := isRoundType_of_add_or_update hty
  have hend := hB.roundEnd hk hc (r := r.toRound (s.roundKind r.appType)) hcov (.inl ht)
  set s₁ : IndicatorBase :=
    { s with buffers := s.buffers.applyCalls (s.roundKind r.appType) r.tstamp (roundCalls r ps) }
  rw [run_round hord hact hty' hB hk hc hcov (.inl ht),
    push_complete_startup (s := s₁) hact hty' (by rw [pushBuffers_last hord]; exact hend.complete) hni hi hm,
    pushBuffers_last hord, Option.map_map]
  congr 1
  funext lc
  simp only [Function.comp_apply, PacketRound.appType_packet]
  by_cases hadd : r.appType = .MSG_ADD <;> simp only [hadd, ↓reduceIte] <;> rfl

/-- A round in `NORMAL` mode: the round's values popped back out as increments, and
`process_opt_ext`; an `ADD` saves the cache. -/
theorem run_normal (hm : s.opMode = .NORMAL) :
    run E s r.inputs =
      (E.processOptExt s.localCache (popIncrements (s.roundBuffers r)).1 s.cache).map fun lc =>
        if r.appType = .MSG_ADD then
          ({ s with buffers := (popIncrements (s.roundBuffers r)).2, localCache := lc, cache := copyCache lc },
            List.replicate ps.length .discard ++
              [sendMsgValue (r.packet last) ((copyCache lc).value 0) r.tstamp r.appType])
        else
          ({ s with buffers := (popIncrements (s.roundBuffers r)).2, localCache := lc },
            List.replicate ps.length .discard ++
              [sendMsgValue (r.packet last) (lc.value 0) r.tstamp r.appType]) := by
  obtain ⟨hty', hni⟩ := isRoundType_of_add_or_update hty
  have hκ : s.roundKind r.appType = .committed := roundKind_of_normal hm
  have hend := hB.roundEnd hk hc (r := r.toRound (s.roundKind r.appType)) hcov (.inl ht)
  set s₁ : IndicatorBase :=
    { s with buffers := s.buffers.applyCalls (s.roundKind r.appType) r.tstamp (roundCalls r ps) }
  rw [run_round hord hact hty' hB hk hc hcov (.inl ht),
    push_complete_normal (s := s₁) hact hty' (by rw [pushBuffers_last hord]; exact hend.complete) hni hi hm,
    pushBuffers_last hord, Option.map_map]
  congr 1
  funext lc
  simp only [Function.comp_apply, PacketRound.appType_packet]
  by_cases hadd : r.appType = .MSG_ADD <;> simp only [hadd, ↓reduceIte] <;> rfl

end Rounds

end IndicatorBase

/-! ### The simulation -/

section Simulation

open IndicatorBase

variable {E : Indicator} {k c : ℕ} (I : Incremental E k c)

/-- The optimised element beside the naive one, the committed rows being `rows`:
still in `STARTUP` with the same buffers, or in `NORMAL` with the cache of the last
`ADD` (its own buffers no longer matter but for their timestamp). -/
def OptAgrees (rows : List (ℕ → FixedPt)) (sN sO : IndicatorBase) : Prop :=
  (sO.opMode = .STARTUP ∧ sO.buffers = sN.buffers) ∨
    (sO.opMode = .NORMAL ∧ (∃ rows', Boundary k c sO.buffers rows') ∧
      sO.buffers.tstamp = sN.buffers.tstamp ∧ I.Rel sO.cache rows)

/-- The naive and the optimised element between two rounds after the `INIT` round,
the committed rows being `rows`. -/
structure Agree (rows : List (ℕ → FixedPt)) (sN sO : IndicatorBase) : Prop where
  active_naive : sN.active = true
  active_opt : sO.active = true
  initialized_naive : sN.initialized = true
  initialized_opt : sO.initialized = true
  mode_naive : sN.opMode = .NAIVE
  local_opt : I.Local sO.localCache
  rows_ne : rows ≠ []
  boundary : Boundary k c sN.buffers rows
  opt : OptAgrees I rows sN sO

/-- The two elements as `configure` leaves them. -/
structure Fresh (sN sO : IndicatorBase) : Prop where
  active : sN.active = true
  initialized : sN.initialized = false
  mode_naive : sN.opMode = .NAIVE
  opt : sO = { sN with opMode := .STARTUP }
  local_naive : I.Local sN.localCache
  boundary : Boundary k c sN.buffers []
  initial : sN.buffers.state = .INITIAL

/-- The two elements `configure` makes with `OP_MODE 1` and `OP_MODE 2`. -/
theorem Fresh.configured (hc : 0 < c) :
    Fresh I ⟨true, .NAIVE, Buffers.new k c, [], false, E.localCache⟩
      ⟨true, .STARTUP, Buffers.new k c, [], false, E.localCache⟩ :=
  ⟨rfl, rfl, rfl, rfl, I.local_init, Boundary.new hc, rfl⟩

theorem addRow_ne_nil {T : Type} {rows : List (ℕ → T)} (h : rows ≠ []) (κ : RoundKind) (vals : ℕ → T) :
    addRow κ vals rows ≠ [] := by
  cases κ <;> simp [addRow, h]

/-- The increments popped after a committed round are the round's values, and what
is left is between rounds again. -/
theorem popIncrements_of_roundEnd {b : Buffers FixedPt} {r : Round FixedPt} {rows : List (ℕ → FixedPt)}
    (h : RoundEnd k c r rows b) (hκ : r.kind = .committed) (hc : 0 < c) :
    (popIncrements b).1 = (List.range k).map r.value ∧
      Boundary k c (popIncrements b).2 (rows.take (c - 1)) := by
  have hb := h.boundary
  rw [hκ] at hb
  obtain ⟨hB', hfront⟩ := Boundary.popFronts hb (h.accumulated hκ) hc
  refine ⟨?_, hB'⟩
  rw [popIncrements, hb.numPorts]
  exact List.map_congr_left fun i hi => hfront i (List.mem_range.1 hi)

variable {I}

/-- How the naive element adds a message after the `INIT` round: an `ADD` for good. -/
theorem Agree.roundKind_naive {rows : List (ℕ → FixedPt)} {sN sO : IndicatorBase} {r : PacketRound}
    (h : Agree I rows sN sO) (hty : r.appType = .MSG_ADD ∨ r.appType = .MSG_UPDATE) :
    sN.roundKind r.appType = if r.appType = .MSG_ADD then .committed else .provisional :=
  roundKind_of_initialized (isRoundType_of_add_or_update hty).1 (isRoundType_of_add_or_update hty).2
    h.initialized_naive (by simp [h.mode_naive])

section Step

variable {rows : List (ℕ → FixedPt)} {sN sO : IndicatorBase} {r : PacketRound}
  (hk : 0 < k) (hc : 0 < c) (hcov : r.order.Perm (List.range k))
include hk hc hcov

/-- The first round, from the configured elements: both initialise alike. -/
theorem Fresh.step (h : Fresh I sN sO) (hty : IsRoundType r.appType) :
    ∃ sN' sO' os, run E sN r.inputs = some (sN', os) ∧ run E sO r.inputs = some (sO', os) ∧
      Agree I [r.value] sN' sO' ∧ sN'.buffers.tstamp = r.tstamp := by
  obtain ⟨ps, last, hord⟩ := exists_order_eq_append hk hcov
  have hκ : sN.roundKind r.appType = .committed := roundKind_of_init_round (.inr h.initialized)
  have hend := h.boundary.roundEnd hk hc (r := r.toRound (sN.roundKind r.appType)) hcov
    (.inr ⟨h.initial, hκ⟩)
  obtain ⟨v, hv⟩ := Option.isSome_iff_exists.1 (I.init_some (sN.roundBuffers r))
  have hrunN := run_init hord h.active h.boundary hk hc hcov h.initialized hty h.initial (E := E)
  -- the optimised element is the naive one in another mode, which the first round never reads
  have hrunO := run_init hord (s := { sN with opMode := .STARTUP }) h.active h.boundary hk hc hcov
    h.initialized hty h.initial (E := E)
  rw [← h.opt] at hrunO
  have hrb : sO.roundBuffers r = sN.roundBuffers r := by
    rw [h.opt, roundBuffers_eq, roundBuffers_eq,
      roundKind_of_init_round (s := { sN with opMode := .STARTUP }) (.inr h.initialized), hκ]
  rw [hrb, hv, Option.map_some] at hrunO
  rw [hv, Option.map_some] at hrunN
  refine ⟨_, _, _, hrunN, hrunO, ?_, hend.tstamp⟩
  have hB : Boundary k c (sN.roundBuffers r) (addRow (sN.roundKind r.appType) r.value []) :=
    hend.boundary
  rw [hκ] at hB
  exact
    { active_naive := h.active
      active_opt := by rw [h.opt]; exact h.active
      initialized_naive := rfl
      initialized_opt := rfl
      mode_naive := h.mode_naive
      local_opt := by rw [h.opt]; exact h.local_naive
      rows_ne := List.cons_ne_nil _ _
      boundary := hB
      opt := .inl ⟨by rw [h.opt], rfl⟩ }

variable (hty : r.appType = .MSG_ADD ∨ r.appType = .MSG_UPDATE)
include hty

/-- A round while the optimised element is still in `STARTUP`: `process_ext` over the
same buffers returns the naive value. -/
theorem Agree.step_startup (h : Agree I rows sN sO) (ht : sN.buffers.tstamp < r.tstamp)
    (hfits : I.Fits rows) (hmO : sO.opMode = .STARTUP) (hbO : sO.buffers = sN.buffers) :
    ∃ sN' sO' os, run E sN r.inputs = some (sN', os) ∧ run E sO r.inputs = some (sO', os) ∧
      Agree I (addRow (sN.roundKind r.appType) r.value rows) sN' sO' ∧ sN'.buffers.tstamp = r.tstamp := by
  obtain ⟨ps, last, hord⟩ := exists_order_eq_append hk hcov
  have hend := h.boundary.roundEnd hk hc (r := r.toRound (sN.roundKind r.appType)) hcov (.inl ht)
  have hκ : sO.roundKind r.appType = sN.roundKind r.appType := by
    simp [roundKind_eq, h.initialized_naive, h.initialized_opt, h.mode_naive, hmO]
  have hrb : sO.roundBuffers r = sN.roundBuffers r := by rw [roundBuffers_eq, roundBuffers_eq, hbO, hκ]
  obtain ⟨v, lc, hv, hext, hlc, hloc, hrel⟩ :=
    I.ext sO.localCache (sN.roundBuffers r) r.value rows h.local_opt h.rows_ne hfits hend.windows
  have hrunN := run_naive hord h.active_naive h.boundary hk hc hcov h.initialized_naive hty ht
    h.mode_naive (E := E)
  have hrunO := run_startup hord h.active_opt (hbO ▸ h.boundary) hk hc hcov h.initialized_opt hty
    (hbO ▸ ht) hmO (E := E)
  rw [hv, Option.map_some] at hrunN
  rw [hrb, hext, Option.map_some] at hrunO
  have hB : Boundary k c (sN.roundBuffers r) (addRow (sN.roundKind r.appType) r.value rows) :=
    hend.boundary
  by_cases hadd : r.appType = .MSG_ADD
  · -- an `ADD` saves the cache and moves on to `NORMAL`
    simp only [hadd, ↓reduceIte, value_copyCache, hlc] at hrunO
    refine ⟨_, _, _, hrunN, hadd ▸ hrunO, ?_, hend.tstamp⟩
    have hκN : sN.roundKind r.appType = .committed := by rw [h.roundKind_naive hty, if_pos hadd]
    exact
      { active_naive := h.active_naive
        active_opt := h.active_opt
        initialized_naive := h.initialized_naive
        initialized_opt := h.initialized_opt
        mode_naive := h.mode_naive
        local_opt := hloc
        rows_ne := addRow_ne_nil h.rows_ne _ _
        boundary := hB
        opt := .inr ⟨rfl, ⟨_, hB⟩, rfl, by rw [hκN]; exact hrel⟩ }
  · -- an `UPDATE` leaves everything in `STARTUP`
    simp only [hadd, ↓reduceIte, hlc] at hrunO
    refine ⟨_, _, _, hrunN, hrunO, ?_, hend.tstamp⟩
    exact
      { active_naive := h.active_naive
        active_opt := h.active_opt
        initialized_naive := h.initialized_naive
        initialized_opt := h.initialized_opt
        mode_naive := h.mode_naive
        local_opt := hloc
        rows_ne := addRow_ne_nil h.rows_ne _ _
        boundary := hB
        opt := .inl ⟨hmO, rfl⟩ }

/-- A round once the optimised element is in `NORMAL`: `process_opt_ext` on the
increments and the cache of the last `ADD` returns the naive value. -/
theorem Agree.step_normal (h : Agree I rows sN sO) (ht : sN.buffers.tstamp < r.tstamp)
    (hfits : I.Fits rows) (hmO : sO.opMode = .NORMAL) {rows' : List (ℕ → FixedPt)} (hBO : Boundary k c sO.buffers rows')
    (htO : sO.buffers.tstamp = sN.buffers.tstamp) (hrel : I.Rel sO.cache rows) :
    ∃ sN' sO' os, run E sN r.inputs = some (sN', os) ∧ run E sO r.inputs = some (sO', os) ∧
      Agree I (addRow (sN.roundKind r.appType) r.value rows) sN' sO' ∧ sN'.buffers.tstamp = r.tstamp := by
  obtain ⟨ps, last, hord⟩ := exists_order_eq_append hk hcov
  have hend := h.boundary.roundEnd hk hc (r := r.toRound (sN.roundKind r.appType)) hcov (.inl ht)
  have hκO : sO.roundKind r.appType = .committed := roundKind_of_normal hmO
  have hendO := hBO.roundEnd hk hc (r := r.toRound (sO.roundKind r.appType)) hcov (.inl (htO ▸ ht))
  -- the increments are the round's values
  obtain ⟨hinc, hBO'⟩ := popIncrements_of_roundEnd hendO hκO hc
  have hinc' : (popIncrements (sO.buffers.applyRound (r.toRound (sO.roundKind r.appType)))).1 =
      (List.range k).map r.value := hinc
  obtain ⟨v, lc, hv, hopt, hlc, hloc, hrel'⟩ :=
    I.opt sO.localCache sO.cache (sN.roundBuffers r) r.value rows h.local_opt h.rows_ne hfits hrel
      hend.windows
  have hrunN := run_naive hord h.active_naive h.boundary hk hc hcov h.initialized_naive hty ht
    h.mode_naive (E := E)
  have hrunO := run_normal hord h.active_opt hBO hk hc hcov h.initialized_opt hty (htO ▸ ht) hmO (E := E)
  rw [hv, Option.map_some] at hrunN
  rw [roundBuffers_eq, hinc', hopt, Option.map_some] at hrunO
  have hB : Boundary k c (sN.roundBuffers r) (addRow (sN.roundKind r.appType) r.value rows) :=
    hend.boundary
  have hts : (popIncrements (sO.buffers.applyRound (r.toRound (sO.roundKind r.appType)))).2.tstamp =
      (sN.roundBuffers r).tstamp := by
    rw [popIncrements, tstamp_popFronts, hendO.tstamp]
    exact hend.tstamp.symm
  by_cases hadd : r.appType = .MSG_ADD
  · -- an `ADD` saves the new cache
    simp only [hadd, ↓reduceIte, value_copyCache, hlc] at hrunO
    refine ⟨_, _, _, hrunN, hadd ▸ hrunO, ?_, hend.tstamp⟩
    have hκN : sN.roundKind r.appType = .committed := by rw [h.roundKind_naive hty, if_pos hadd]
    exact
      { active_naive := h.active_naive
        active_opt := h.active_opt
        initialized_naive := h.initialized_naive
        initialized_opt := h.initialized_opt
        mode_naive := h.mode_naive
        local_opt := hloc
        rows_ne := addRow_ne_nil h.rows_ne _ _
        boundary := hB
        opt := .inr ⟨hmO, ⟨_, hBO'⟩, hts, by rw [hκN]; exact hrel'⟩ }
  · -- an `UPDATE` keeps the cache of the last `ADD`, and the naive rows do not change
    simp only [hadd, ↓reduceIte, hlc] at hrunO
    refine ⟨_, _, _, hrunN, hrunO, ?_, hend.tstamp⟩
    have hκN : sN.roundKind r.appType = .provisional := by rw [h.roundKind_naive hty, if_neg hadd]
    exact
      { active_naive := h.active_naive
        active_opt := h.active_opt
        initialized_naive := h.initialized_naive
        initialized_opt := h.initialized_opt
        mode_naive := h.mode_naive
        local_opt := hloc
        rows_ne := addRow_ne_nil h.rows_ne _ _
        boundary := hB
        opt := .inr ⟨hmO, ⟨_, hBO'⟩, hts, by rw [hκN]; exact hrel⟩ }

/-- A round after the `INIT` one, in either mode of the optimised element. -/
theorem Agree.step (h : Agree I rows sN sO) (ht : sN.buffers.tstamp < r.tstamp) (hfits : I.Fits rows) :
    ∃ sN' sO' os, run E sN r.inputs = some (sN', os) ∧ run E sO r.inputs = some (sO', os) ∧
      Agree I (addRow (sN.roundKind r.appType) r.value rows) sN' sO' ∧ sN'.buffers.tstamp = r.tstamp := by
  rcases h.opt with ⟨hmO, hbO⟩ | ⟨hmO, ⟨rows', hBO⟩, htO, hrel⟩
  · exact h.step_startup hk hc hcov hty ht hfits hmO hbO
  · exact h.step_normal hk hc hcov hty ht hfits hmO hBO htO hrel

end Step

/-- The rows committed after the rounds `rs`, from `rows`, newest first: an `ADD`
round commits its values, an `UPDATE` round does not. -/
def commitRows (rows : List (ℕ → FixedPt)) : List PacketRound → List (ℕ → FixedPt)
  | [] => rows
  | r :: rs => commitRows (if r.appType = .MSG_ADD then r.value :: rows else rows) rs

/-- The committed rows before the round after the first `i` of `rs`. -/
theorem commitRows_take_succ (rows : List (ℕ → FixedPt)) (r : PacketRound) (rs : List PacketRound) (i : ℕ) :
    commitRows rows ((r :: rs).take (i + 1)) =
      commitRows (if r.appType = .MSG_ADD then r.value :: rows else rows) (rs.take i) := rfl

/-- **The rounds after the `INIT` one.** From agreeing elements, rounds of `ADD`s
and `UPDATE`s at increasing timestamps, one packet per port, before each of which
the committed rows fit, are run by both elements with the same packets out. The
induction is on the rounds; `Agree` carries from one to the next. -/
theorem Agree.run_rounds (hk : 0 < k) (hc : 0 < c) : ∀ (rounds : List PacketRound) (rows : List (ℕ → FixedPt))
    (sN sO : IndicatorBase), Agree I rows sN sO →
    (∀ r ∈ rounds, r.order.Perm (List.range k)) →
    (∀ r ∈ rounds, r.appType = .MSG_ADD ∨ r.appType = .MSG_UPDATE) →
    (sN.buffers.tstamp :: rounds.map PacketRound.tstamp).IsChain (· < ·) →
    (∀ i < rounds.length, I.Fits (commitRows rows (rounds.take i))) →
    ∃ tN tO outs, run E sN (rounds.flatMap PacketRound.inputs) = some (tN, outs) ∧
      run E sO (rounds.flatMap PacketRound.inputs) = some (tO, outs)
  | [], _, sN, sO, _, _, _, _, _ => ⟨sN, sO, [], rfl, rfl⟩
  | r :: rs, rows, sN, sO, h, hcov, htype, hinc, hfits => by
    have hty := htype r List.mem_cons_self
    have hcovr := hcov r List.mem_cons_self
    rw [List.map_cons, List.isChain_cons_cons] at hinc
    have hfit : I.Fits rows := hfits 0 (by simp)
    obtain ⟨sN', sO', os, hN, hO, hA, ht'⟩ := h.step hk hc hcovr hty hinc.1 hfit
    -- the naive element commits an `ADD` round and keeps an `UPDATE` round aside
    have hrows : addRow (sN.roundKind r.appType) r.value rows =
        if r.appType = .MSG_ADD then r.value :: rows else rows := by
      rw [h.roundKind_naive hty]
      split_ifs <;> rfl
    rw [hrows] at hA
    obtain ⟨tN, tO, outs, hN', hO'⟩ := Agree.run_rounds hk hc rs _ sN' sO' hA
      (fun r' hr' => hcov r' (List.mem_cons_of_mem _ hr')) (fun r' hr' => htype r' (List.mem_cons_of_mem _ hr'))
      (by rw [ht']; exact hinc.2)
      (fun i hi => by
        rw [← commitRows_take_succ]
        exact hfits (i + 1) (by simp only [List.length_cons]; omega))
    exact ⟨tN, tO, os ++ outs, by rw [List.flatMap_cons]; exact Theory.runSteps_append_of_eq hN hN',
      by rw [List.flatMap_cons]; exact Theory.runSteps_append_of_eq hO hO'⟩

/-- **The naive and the optimised modes agree while the rows fit.** For an element
with an `Incremental` certificate on `k` ports and windows of `c` values, and a
stream of an `INIT` round and then `ADD` and `UPDATE` rounds at increasing
timestamps, each giving one packet to every port, before each of which the rows
committed so far fit: the element configured with `OP_MODE 1` and the one
configured with `OP_MODE 2` both return from every push, and do the same with
every packet. -/
theorem modes_agree_while (I : Incremental E k c) (hk : 0 < k) (hc : 0 < c) (init : PacketRound)
    (rounds : List PacketRound) (hinit : init.appType = .MSG_INIT)
    (hcov : ∀ r ∈ init :: rounds, r.order.Perm (List.range k))
    (htype : ∀ r ∈ rounds, r.appType = .MSG_ADD ∨ r.appType = .MSG_UPDATE)
    (hinc : ((init :: rounds).map PacketRound.tstamp).IsChain (· < ·))
    (hfits : ∀ i < rounds.length, I.Fits (commitRows [init.value] (rounds.take i))) :
    ∃ sN sO tN tO outs, configure E k c 1 = some sN ∧ configure E k c 2 = some sO ∧
      run E sN ((init :: rounds).flatMap PacketRound.inputs) = some (tN, outs) ∧
      run E sO ((init :: rounds).flatMap PacketRound.inputs) = some (tO, outs) := by
  have hk1 : ¬ k < 1 := by omega
  let sN : IndicatorBase := ⟨true, .NAIVE, Buffers.new k c, [], false, E.localCache⟩
  have hfresh : Fresh I sN { sN with opMode := .STARTUP } := Fresh.configured I hc
  -- the `INIT` round, then the others
  obtain ⟨sN', sO', os, hN, hO, hA, ht'⟩ := hfresh.step hk hc (hcov init List.mem_cons_self) (.inr (.inr hinit))
  rw [List.map_cons] at hinc
  obtain ⟨tN, tO, outs, hN', hO'⟩ := hA.run_rounds hk hc rounds [init.value] sN' sO'
    (fun r hr => hcov r (List.mem_cons_of_mem _ hr)) htype (by rw [ht']; exact hinc) hfits
  refine ⟨sN, { sN with opMode := .STARTUP }, tN, tO, os ++ outs, ?_, ?_, ?_, ?_⟩
  · simp [configure, hk1, sN]
  · simp [configure, hk1, sN]
  · rw [List.flatMap_cons]
    exact Theory.runSteps_append_of_eq hN hN'
  · rw [List.flatMap_cons]
    exact Theory.runSteps_append_of_eq hO hO'

/-- **The naive and the optimised modes agree.** For an element whose certificate
fits all rows, on every stream as above. -/
theorem modes_agree (I : Incremental E k c) (hall : ∀ rows, I.Fits rows) (hk : 0 < k) (hc : 0 < c)
    (init : PacketRound) (rounds : List PacketRound) (hinit : init.appType = .MSG_INIT)
    (hcov : ∀ r ∈ init :: rounds, r.order.Perm (List.range k))
    (htype : ∀ r ∈ rounds, r.appType = .MSG_ADD ∨ r.appType = .MSG_UPDATE)
    (hinc : ((init :: rounds).map PacketRound.tstamp).IsChain (· < ·)) :
    ∃ sN sO tN tO outs, configure E k c 1 = some sN ∧ configure E k c 2 = some sO ∧
      run E sN ((init :: rounds).flatMap PacketRound.inputs) = some (tN, outs) ∧
      run E sO ((init :: rounds).flatMap PacketRound.inputs) = some (tO, outs) :=
  modes_agree_while I hk hc init rounds hinit hcov htype hinc fun _ _ => hall _

end Simulation

end Synapse.Click
