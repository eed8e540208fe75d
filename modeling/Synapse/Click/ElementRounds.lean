import Synapse.Click.Ewma

/-!
# What an element sends in one round

The rounds of one element of a pipeline: from the state the element is in between
two rounds, the packets it sends for a round and the state it is in after it.
`ModeAgreement` compares the two modes of an element over whole streams; here the
value an element configured with `OP_MODE 2` sends is read off the naive element it
agrees with, so that a pipeline of such elements can be followed one round at a
time.

## What is proved

* `Fresh.round`, `Agree.round`: a configured element's first round sends the value
  of `initialize_element`, if it is valid, and every later round the value of
  `process_naive` over the naive element's windows.
* `Follows.round`: an element whose value reads the newest committed row, such as
  `Pdm`, `Ndm` and `NewTrueRange`, sends it for the round's values and that row,
  and moves on to the round's values after an `ADD`.
* `Joins.round`: an element whose value reads only the round's values, such as
  `Pdi`, `Ndi` and `Dx`, sends it in every round, its first included.
* `EwmaAt.round`: `EwmaIncremental` sends the average of the new value with the one
  it keeps, which is the value of its first round and then the average it sent at
  each `ADD`, in both `STARTUP` and `NORMAL`.
-/

namespace Synapse.Click

open Buffers IndicatorBase

/-- The element `configure` makes with `k` ports, windows of `c` values and
`OP_MODE 2`. -/
def configuredOn (E : Indicator) (k c : ℕ) : IndicatorBase :=
  ⟨true, .STARTUP, Buffers.new k c, [], false, E.localCache⟩

theorem configure_startup {E : Indicator} {k : ℕ} (hk : 0 < k) (c : ℕ) :
    configure E k c 2 = some (configuredOn E k c) := by
  simp [configure, configuredOn, show ¬ k < 1 by omega]

/-- A run over `i :: is` that returns a first action is a push on `i` and a run from
where it left. -/
theorem run_cons_eq_some {E : Indicator} {s s' : IndicatorBase} {i : ℕ × ValuePacket} {is : List (ℕ × ValuePacket)}
    {a : Action} {as : List Action} (h : run E s (i :: is) = some (s', a :: as)) :
    ∃ s₁, push E s i.1 i.2 = some (s₁, a) ∧ run E s₁ is = some (s', as) := by
  obtain ⟨s₁, o, os, h₁, hrest, hout⟩ := Theory.runSteps_cons_eq_some.1 h
  obtain ⟨rfl, rfl⟩ := List.cons.inj hout
  exact ⟨s₁, h₁, hrest⟩

theorem run_nil_eq_some {E : Indicator} {s s' : IndicatorBase} (h : run E s [] = some (s', [])) : s' = s := by
  simp only [run, Theory.runSteps_nil, Option.some.injEq, Prod.mk.injEq] at h
  exact h.1.symm

theorem run_singleton_eq_some {E : Indicator} {s s' : IndicatorBase} {i : ℕ × ValuePacket} {a : Action}
    (h : run E s [i] = some (s', [a])) : push E s i.1 i.2 = some (s', a) := by
  obtain ⟨s₁, h₁, hnil⟩ := run_cons_eq_some h
  obtain rfl := run_nil_eq_some hnil
  exact h₁

theorem run_pair_eq_some {E : Indicator} {s s' : IndicatorBase} {i₁ i₂ : ℕ × ValuePacket} {a₁ a₂ : Action}
    (h : run E s [i₁, i₂] = some (s', [a₁, a₂])) :
    ∃ s₁, push E s i₁.1 i₁.2 = some (s₁, a₁) ∧ push E s₁ i₂.1 i₂.2 = some (s', a₂) := by
  obtain ⟨s₁, h₁, hrest⟩ := run_cons_eq_some h
  exact ⟨s₁, h₁, run_singleton_eq_some hrest⟩

theorem run_triple_eq_some {E : Indicator} {s s' : IndicatorBase} {i₁ i₂ i₃ : ℕ × ValuePacket}
    {a₁ a₂ a₃ : Action} (h : run E s [i₁, i₂, i₃] = some (s', [a₁, a₂, a₃])) :
    ∃ s₁ s₂, push E s i₁.1 i₁.2 = some (s₁, a₁) ∧ push E s₁ i₂.1 i₂.2 = some (s₂, a₂) ∧
      push E s₂ i₃.1 i₃.2 = some (s', a₃) := by
  obtain ⟨s₁, h₁, hrest⟩ := run_cons_eq_some h
  obtain ⟨s₂, h₂, h₃⟩ := run_pair_eq_some hrest
  exact ⟨s₁, s₂, h₁, h₂, h₃⟩

/-! ### Elements that agree with a naive one -/

section Agreeing

variable {E : Indicator} {k c : ℕ} {I : Incremental E k c} {r : PacketRound} {ps : List ℕ} {last : ℕ}
  (hk : 0 < k) (hc : 0 < c) (hcov : r.order.Perm (List.range k)) (hord : r.order = ps ++ [last])
include hk hc hcov hord

/-- **The first round** of a configured element, `INIT` or not: the value
`initialize_element` returns over the round's windows, sent if it is valid. -/
theorem Fresh.round {sN sO : IndicatorBase} (h : Fresh I sN sO) (hty : IsRoundType r.appType) :
    ∃ sN' sO' v, RoundWindows k c (sN.roundBuffers r) r.value [] ∧
      E.initializeElement (sN.roundBuffers r) = some v ∧
      run E sO r.inputs = some (sO', List.replicate ps.length .discard ++
        [if v.valid then sendMsgValue (r.packet last) v r.tstamp r.appType else .discard]) ∧
      Agree I [r.value] sN' sO' ∧ sN'.buffers.tstamp = r.tstamp := by
  obtain ⟨sN', sO', os, hN, hO, hA, ht⟩ := h.step hk hc hcov hty
  have hend := h.boundary.roundEnd hk hc (r := r.toRound (sN.roundKind r.appType)) hcov
    (.inr ⟨h.initial, roundKind_of_init_round (.inr h.initialized)⟩)
  obtain ⟨v, hv⟩ := Option.isSome_iff_exists.1 (I.init_some (sN.roundBuffers r))
  have hrunN := run_init hord h.active h.boundary hk hc hcov h.initialized hty h.initial (E := E)
  rw [hN, hv, Option.map_some, Option.some.injEq, Prod.mk.injEq] at hrunN
  refine ⟨sN', sO', v, hend.windows, hv, ?_, hA, ht⟩
  rw [hO, hrunN.2]

/-- **A later round** of an element that agrees with a naive one: the value
`process_naive` returns over the naive element's windows. -/
theorem Agree.round {rows : List (ℕ → FixedPt)} {sN sO : IndicatorBase} (h : Agree I rows sN sO)
    (hty : r.appType = .MSG_ADD ∨ r.appType = .MSG_UPDATE) (ht : sN.buffers.tstamp < r.tstamp)
    (hfits : I.Fits rows) :
    ∃ sN' sO' v, RoundWindows k c (sN.roundBuffers r) r.value rows ∧
      E.processNaive (sN.roundBuffers r) = some v ∧
      run E sO r.inputs = some (sO', List.replicate ps.length .discard ++
        [sendMsgValue (r.packet last) v r.tstamp r.appType]) ∧
      Agree I (addRow (sN.roundKind r.appType) r.value rows) sN' sO' ∧ sN'.buffers.tstamp = r.tstamp := by
  obtain ⟨sN', sO', os, hN, hO, hA, ht'⟩ := h.step hk hc hcov hty ht hfits
  have hend := h.boundary.roundEnd hk hc (r := r.toRound (sN.roundKind r.appType)) hcov (.inl ht)
  have hrunN := run_naive hord h.active_naive h.boundary hk hc hcov h.initialized_naive hty ht
    h.mode_naive (E := E)
  rw [hN] at hrunN
  obtain ⟨v, hv, hos⟩ := Option.map_eq_some_iff.1 hrunN.symm
  have hos' := congrArg Prod.snd hos
  dsimp only at hos'
  refine ⟨sN', sO', v, hend.windows, hv, ?_, hA, ht'⟩
  rw [hO, ← hos']

end Agreeing

/-! ### Two kinds of window elements -/

section Windows

variable {E : Indicator} {k c : ℕ} (I : Incremental E k c)

/-- An element between two rounds, agreeing with a naive one whose newest committed
row is `row`, at the timestamp `t`. -/
def Follows (row : ℕ → FixedPt) (t : ℕ) (s : IndicatorBase) : Prop :=
  ∃ sN rows, Agree I (row :: rows) sN s ∧ sN.buffers.tstamp = t

/-- An element between two rounds: as `configure` made it, or agreeing with a naive
one at the timestamp `t`. -/
def Joins (t : ℕ) (s : IndicatorBase) : Prop :=
  s = configuredOn E k c ∨ ∃ sN rows, Agree I rows sN s ∧ sN.buffers.tstamp = t

variable {I} {r : PacketRound} {ps : List ℕ} {last : ℕ}
  (hk : 0 < k) (hc : 0 < c) (hcov : r.order.Perm (List.range k)) (hord : r.order = ps ++ [last])
include hk hc hcov hord

/-- **A round of an element that reads the newest committed row** `row`, whose
`process_naive` is `out` of the round's values and that row: it sends `out`, and
follows the round's values after an `ADD`. -/
theorem Follows.round (out : (ℕ → FixedPt) → (ℕ → FixedPt) → FixedPt)
    (hout : ∀ b vals row rows, RoundWindows k c b vals (row :: rows) → E.processNaive b = some (out vals row))
    (hfits : ∀ rows, I.Fits rows) {row : ℕ → FixedPt} {t : ℕ} {s : IndicatorBase} (h : Follows I row t s)
    (hty : r.appType = .MSG_ADD ∨ r.appType = .MSG_UPDATE) (ht : t < r.tstamp) :
    ∃ s', run E s r.inputs = some (s', List.replicate ps.length .discard ++
        [sendMsgValue (r.packet last) (out r.value row) r.tstamp r.appType]) ∧
      Follows I (if r.appType = .MSG_ADD then r.value else row) r.tstamp s' := by
  obtain ⟨sN, rows, hA, htN⟩ := h
  obtain ⟨sN', s', v, hw, hv, hrun, hA', ht'⟩ := hA.round hk hc hcov hord hty (htN ▸ ht) (hfits _)
  rw [hout _ _ _ _ hw, Option.some.injEq] at hv
  refine ⟨s', by rw [hrun, hv], sN', ?_⟩
  -- the naive element commits an `ADD` and keeps the newest row through an `UPDATE`
  rw [hA.roundKind_naive hty] at hA'
  by_cases hadd : r.appType = .MSG_ADD
  · simp only [hadd, if_true] at hA' ⊢
    exact ⟨row :: rows, hA', ht'⟩
  · simp only [hadd, if_false] at hA' ⊢
    exact ⟨rows, hA', ht'⟩

/-- **A round of an element that reads only the round's values**, `initialize_element`
and `process_naive` both being `out` of them, a valid value: it sends `out`, in its
first round as in every later one. -/
theorem Joins.round (out : (ℕ → FixedPt) → FixedPt)
    (hout : ∀ b vals rows, RoundWindows k c b vals rows →
      E.initializeElement b = some (out vals) ∧ E.processNaive b = some (out vals))
    (hfits : ∀ rows, I.Fits rows) {t : ℕ} {s : IndicatorBase} (h : Joins I t s)
    (hty : r.appType = .MSG_ADD ∨ r.appType = .MSG_UPDATE) (ht : t < r.tstamp)
    (hvalid : (out r.value).valid = true) :
    ∃ s', run E s r.inputs = some (s', List.replicate ps.length .discard ++
        [sendMsgValue (r.packet last) (out r.value) r.tstamp r.appType]) ∧ Joins I r.tstamp s' := by
  rcases h with rfl | ⟨sN, rows, hA, htN⟩
  · -- the first round goes through the `INIT` branch
    obtain ⟨sN', s', v, hw, hv, hrun, hA', ht'⟩ :=
      (Fresh.configured I hc).round hk hc hcov hord (isRoundType_of_add_or_update hty).1
    rw [(hout _ _ _ hw).1, Option.some.injEq] at hv
    subst hv
    rw [if_pos hvalid] at hrun
    exact ⟨s', hrun, .inr ⟨sN', _, hA', ht'⟩⟩
  · obtain ⟨sN', s', v, hw, hv, hrun, hA', ht'⟩ := hA.round hk hc hcov hord hty (htN ▸ ht) (hfits _)
    rw [(hout _ _ _ hw).2, Option.some.injEq] at hv
    subst hv
    exact ⟨s', hrun, .inr ⟨sN', _, hA', ht'⟩⟩

end Windows

/-! ### `EwmaIncremental` -/

section Ewma

/-- `EwmaIncremental` on one port with windows of `c` values, between two rounds
after its first, `avg` being the value it averages the next one with and `t` the
timestamp: in `STARTUP` with that value committed, or in `NORMAL` with it saved in
the cache. -/
structure EwmaTracks (c : ℕ) (avg : FixedPt) (t : ℕ) (s : IndicatorBase) : Prop where
  active : s.active = true
  initialized : s.initialized = true
  localCache : s.localCache.length = 2
  tstamp : s.buffers.tstamp = t
  phase : (s.opMode = .STARTUP ∧ ∃ row, Boundary 1 c s.buffers [row] ∧ row 0 = avg) ∨
    (s.opMode = .NORMAL ∧ (∃ rows, Boundary 1 c s.buffers rows) ∧ s.cache.value 1 = avg)

/-- What `EwmaIncremental` averages the next value with after a round of type `ty`
on `x`: `x` itself after its first round, then the average after an `ADD` and
what it had after an `UPDATE`. -/
def ewmaKept (alpha : FixedPt) (ty : PacketAppType) (avg : Option FixedPt) (x : FixedPt) : FixedPt :=
  match avg with
  | none => x
  | some a => if ty = .MSG_ADD then ewmaOf alpha [x, a] else a

/-- `EwmaIncremental` between two rounds: as `configure` made it when `avg` is
`none`, and tracking `a` when it is `some a`. -/
def EwmaAt (n : ℤ) (c : ℕ) (avg : Option FixedPt) (t : ℕ) (s : IndicatorBase) : Prop :=
  match avg with
  | none => s = configuredOn (ewmaIncremental n) 1 c
  | some a => EwmaTracks c a t s

theorem order_perm_range_one {r : PacketRound} (hord : r.order = [0]) : r.order.Perm (List.range 1) := by
  rw [hord]
  rfl

variable {n : ℤ} {c : ℕ} {r : PacketRound} (hc : 2 ≤ c) (hord : r.order = [0])
include hc hord

/-- The first round: the value is sent on and kept. -/
theorem ewma_first_round (hty : IsRoundType r.appType) (hv : (r.value 0).valid = true) :
    ∃ s', run (ewmaIncremental n) (configuredOn (ewmaIncremental n) 1 c) r.inputs =
        some (s', [sendMsgValue (r.packet 0) (r.value 0) r.tstamp r.appType]) ∧
      EwmaTracks c (r.value 0) r.tstamp s' := by
  set s : IndicatorBase := configuredOn (ewmaIncremental n) 1 c
  have hB : Boundary 1 c s.buffers [] := Boundary.new (by omega)
  have hκ : s.roundKind r.appType = .committed := roundKind_of_init_round (.inr rfl)
  have hend := hB.roundEnd Nat.one_pos (by omega) (r := r.toRound (s.roundKind r.appType))
    (order_perm_range_one hord) (.inr ⟨rfl, hκ⟩)
  have hrun := run_init (E := ewmaIncremental n) (show r.order = [] ++ [0] by rw [hord]; rfl) rfl hB Nat.one_pos (by omega)
    (order_perm_range_one hord) rfl hty rfl
  have hinit : (ewmaIncremental n).initializeElement (s.roundBuffers r) = some (r.value 0) := by
    exact congrArg some (hend.windows.get_zero Nat.one_pos)
  rw [hinit, Option.map_some, if_pos hv] at hrun
  have hB' : Boundary 1 c (s.roundBuffers r) (addRow (s.roundKind r.appType) r.value []) := hend.boundary
  rw [hκ] at hB'
  exact ⟨_, hrun, rfl, rfl, rfl, hend.tstamp, .inl ⟨rfl, r.value, hB', rfl⟩⟩

/-- A round in `STARTUP`: `process_ext` averages the value with the committed one. -/
theorem EwmaTracks.round_startup {a : FixedPt} {t : ℕ} {s : IndicatorBase} (h : EwmaTracks c a t s)
    (hty : r.appType = .MSG_ADD ∨ r.appType = .MSG_UPDATE) (ht : t < r.tstamp) (hm : s.opMode = .STARTUP)
    {row : ℕ → FixedPt} (hB : Boundary 1 c s.buffers [row]) (hrow : row 0 = a) :
    ∃ s', run (ewmaIncremental n) s r.inputs =
        some (s', [sendMsgValue (r.packet 0) (ewmaOf (ewmaAlpha n) [r.value 0, a]) r.tstamp r.appType]) ∧
      EwmaTracks c (if r.appType = .MSG_ADD then ewmaOf (ewmaAlpha n) [r.value 0, a] else a) r.tstamp s' := by
  obtain ⟨hty', hni⟩ := isRoundType_of_add_or_update hty
  have hend := hB.roundEnd Nat.one_pos (by omega) (r := r.toRound (s.roundKind r.appType))
    (order_perm_range_one hord) (.inl (h.tstamp ▸ ht))
  have hrun := run_startup (E := ewmaIncremental n) (show r.order = [] ++ [0] by rw [hord]; rfl) h.active hB Nat.one_pos
    (by omega) (order_perm_range_one hord) h.initialized hty (h.tstamp ▸ ht) hm
  have hv : ewmaNaive (ewmaAlpha n) (s.roundBuffers r) = some (ewmaOf (ewmaAlpha n) (r.value 0 :: column [row] 0)) :=
    ewmaNaive_of_windows (ewmaAlpha n) hend.windows Nat.one_pos (by simp; omega)
  have hext : (ewmaIncremental n).processExt s.localCache (s.roundBuffers r) =
      some (ewmaOut s.localCache (ewmaOf (ewmaAlpha n) [r.value 0, a])) := by
    show (ewmaNaive (ewmaAlpha n) (s.roundBuffers r)).map (ewmaOut s.localCache) = _
    rw [hv, Option.map_some, column, List.map_singleton, hrow]
  obtain ⟨h0, h1, hlen⟩ := ewmaOut_spec h.localCache (ewmaOf (ewmaAlpha n) [r.value 0, a])
  rw [hext, Option.map_some] at hrun
  by_cases hadd : r.appType = .MSG_ADD
  · -- an `ADD` saves the average and moves on to `NORMAL`
    simp only [hadd, if_true, value_copyCache, h0] at hrun ⊢
    refine ⟨_, hrun, h.active, h.initialized, hlen, hend.tstamp, .inr ⟨rfl, ⟨_, hend.boundary⟩, ?_⟩⟩
    rw [value_copyCache, h1]
  · -- an `UPDATE` keeps the committed value
    have hκ : s.roundKind r.appType = .provisional := by
      rw [roundKind_of_initialized hty' hni h.initialized (by simp [hm]), if_neg hadd]
    simp only [hadd, if_false, h0] at hrun ⊢
    have hB' : Boundary 1 c (s.roundBuffers r) (addRow (s.roundKind r.appType) r.value [row]) := hend.boundary
    rw [hκ] at hB'
    exact ⟨_, hrun, h.active, h.initialized, hlen, hend.tstamp, .inl ⟨hm, row, hB', hrow⟩⟩

/-- A round in `NORMAL`: `process_opt_ext` averages the value with the saved one. -/
theorem EwmaTracks.round_normal {a : FixedPt} {t : ℕ} {s : IndicatorBase} (h : EwmaTracks c a t s)
    (hty : r.appType = .MSG_ADD ∨ r.appType = .MSG_UPDATE) (ht : t < r.tstamp) (hm : s.opMode = .NORMAL)
    {rows : List (ℕ → FixedPt)} (hB : Boundary 1 c s.buffers rows) (hcache : s.cache.value 1 = a) :
    ∃ s', run (ewmaIncremental n) s r.inputs =
        some (s', [sendMsgValue (r.packet 0) (ewmaOf (ewmaAlpha n) [r.value 0, a]) r.tstamp r.appType]) ∧
      EwmaTracks c (if r.appType = .MSG_ADD then ewmaOf (ewmaAlpha n) [r.value 0, a] else a) r.tstamp s' := by
  have hκ : s.roundKind r.appType = .committed := roundKind_of_normal hm
  have hend := hB.roundEnd Nat.one_pos (by omega) (r := r.toRound (s.roundKind r.appType))
    (order_perm_range_one hord) (.inl (h.tstamp ▸ ht))
  obtain ⟨hinc, hB'⟩ := popIncrements_of_roundEnd hend hκ (by omega)
  have hrun := run_normal (E := ewmaIncremental n) (show r.order = [] ++ [0] by rw [hord]; rfl) h.active hB Nat.one_pos
    (by omega) (order_perm_range_one hord) h.initialized hty (h.tstamp ▸ ht) hm
  -- the one increment is the new value, and the cache holds the saved average
  have hopt : (ewmaIncremental n).processOptExt s.localCache (popIncrements (s.roundBuffers r)).1 s.cache =
      some (ewmaOut s.localCache (ewmaOf (ewmaAlpha n) [r.value 0, a])) := by
    show some (ewmaOut s.localCache (((1 : ℤ) - ewmaAlpha n) * (popIncrements (s.roundBuffers r)).1.getD 0 default +
      ewmaAlpha n * s.cache.value 1)) = _
    rw [roundBuffers_eq, hinc, hcache]
    rfl
  have hts : (popIncrements (s.roundBuffers r)).2.tstamp = r.tstamp := by
    rw [popIncrements, tstamp_popFronts, roundBuffers_eq, hend.tstamp]
    rfl
  obtain ⟨h0, h1, hlen⟩ := ewmaOut_spec h.localCache (ewmaOf (ewmaAlpha n) [r.value 0, a])
  rw [hopt, Option.map_some] at hrun
  by_cases hadd : r.appType = .MSG_ADD
  · -- an `ADD` saves the new average
    simp only [hadd, if_true, value_copyCache, h0] at hrun ⊢
    refine ⟨_, hrun, h.active, h.initialized, hlen, hts, .inr ⟨hm, ⟨_, hB'⟩, ?_⟩⟩
    rw [value_copyCache, h1]
  · -- an `UPDATE` keeps the saved one
    simp only [hadd, if_false, h0] at hrun ⊢
    exact ⟨_, hrun, h.active, h.initialized, hlen, hts, .inr ⟨hm, ⟨_, hB'⟩, hcache⟩⟩

/-- **A round of `EwmaIncremental`**, on a valid value at a later timestamp: it sends
the average of the value with the one it keeps, or the value itself in its first
round, and keeps what `ewmaKept` says. -/
theorem EwmaAt.round {avg : Option FixedPt} {t : ℕ} {s : IndicatorBase} (h : EwmaAt n c avg t s)
    (hty : r.appType = .MSG_ADD ∨ r.appType = .MSG_UPDATE) (ht : t < r.tstamp) (hv : (r.value 0).valid = true) :
    ∃ s', run (ewmaIncremental n) s r.inputs =
        some (s', [sendMsgValue (r.packet 0) (ewmaOf (ewmaAlpha n) (r.value 0 :: avg.toList)) r.tstamp r.appType]) ∧
      EwmaAt n c (some (ewmaKept (ewmaAlpha n) r.appType avg (r.value 0))) r.tstamp s' := by
  cases avg with
  | none =>
    rw [EwmaAt] at h
    subst h
    exact ewma_first_round hc hord (isRoundType_of_add_or_update hty).1 hv
  | some a =>
    rcases h.phase with ⟨hm, row, hB, hrow⟩ | ⟨hm, ⟨rows, hB⟩, hcache⟩
    · exact h.round_startup hc hord hty ht hm hB hrow
    · exact h.round_normal hc hord hty ht hm hB hcache

end Ewma

end Synapse.Click
