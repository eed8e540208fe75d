import Synapse.Trade.TradeProcessor
import Synapse.Click.FixedPt

/-!
# The event loop of the hand-coded program

The hand-coded program (`hand_coded/main.cpp`) keeps, for each symbol given with
`-s`, a `TimeStats` and an `IndicatorManager` in `gSymbols`. `udp_read_cb` decodes
a datagram, starts the interval timer at the first subscribed trade, updates the
symbol's bar and, if the bar changed, initializes the symbol's indicators the first
time and feeds them an update after that. `on_timer_cb` feeds every manager of
`gSymbols` the bar of its symbol, as an add, and rolls the bar over.

## The model

The program's state is `gSymbols` and whether the timer is active. A manager is
seen through the calls it receives (`ManagerCall`) and its `initialized ()` flag;
what the indicators compute with the calls is left to the indicators' own models.
Each call is recorded with its symbol and the manager's flag at the time of the
call. A datagram is the bytes `recvfrom` writes into the buffer of `BUFLEN` bytes.
`EventLoop.step` is `none` where decoding is undefined and for a firing of the
timer before it is started.

## What is proved

* `runSteps_calls`: over every run in which the traded prices are positive,
  `emit_update` is called only on initialized managers and each bar passed to
  `emit_add` is positive, `0 < low ≤ close ≤ high`, if the manager is initialized,
  and zero if it is not.
* `timer_feeds_uninitialized`: with two symbols, a trade of one and a firing of the
  timer make `on_timer_cb` call `emit_add` on the other's uninitialized manager.
-/

namespace Synapse.HandCoded

open Theory Trade Click

/-- `BUFLEN`, the size of the receive buffer. -/
def BUFLEN : ℕ := 512

/-- `IndicatorManager`, through its `initialized ()` flag. -/
structure IndicatorManager where
  /-- `_initialized`. -/
  initialized : Bool
  deriving DecidableEq, Repr

/-- A call on an `IndicatorManager`, with its high, low, open and close. -/
inductive ManagerCall
  /-- `initialize_indicators (high, low, open, close)`. -/
  | initializeIndicators (high low «open» close : FixedPt)
  /-- `emit_add (high, low, open, close)`. -/
  | emitAdd (high low «open» close : FixedPt)
  /-- `emit_update (high, low, open, close, timestamp)`. -/
  | emitUpdate (high low «open» close : FixedPt) (timestamp : UInt64)
  deriving DecidableEq, Repr

/-- A call made by the loop: the symbol, the manager's flag then, and the call. -/
structure Call where
  /-- The symbol whose manager is called. -/
  symbol : Symbol
  /-- `initialized ()` of the manager when it is called. -/
  initialized : Bool
  /-- The call. -/
  call : ManagerCall
  deriving DecidableEq, Repr

/-- The globals of the program. -/
structure EventLoop where
  /-- `gSymbols`. -/
  gSymbols : KeyMap Symbol (TimeStats × IndicatorManager)
  /-- Whether `gTimerWatcher` is active. -/
  timerActive : Bool

/-- `main` before the loop runs: each symbol of `-s` with a zero bar and a fresh
manager; a symbol given twice keeps its first entry, as `std::insert` does. -/
def EventLoop.initial (symbols : List Symbol) : EventLoop :=
  ⟨symbols.foldl (fun m s => if s ∈ m.keys then m else m.insert s (default, ⟨false⟩)) .empty, false⟩

/-- `udp_read_cb` on a datagram. -/
def udpReadCb (s : EventLoop) (datagram : List UInt8) : Option (EventLoop × List Call) :=
  (populateMsgTrade (datagram.take BUFLEN)).map fun
    | none => (s, [])
    | some msg =>
      match s.gSymbols.find? msg.symbol with
      | none => (s, [])
      | some (timeStats, indMgr) =>
        let r := updateHloc msg timeStats
        let closePrice := FixedPt.fromC r.2.close
        let highPrice := FixedPt.fromC r.2.high
        let lowPrice := FixedPt.fromC r.2.low
        if !r.1 then (⟨s.gSymbols.insert msg.symbol (r.2, indMgr), true⟩, [])
        else if !indMgr.initialized then
          (⟨s.gSymbols.insert msg.symbol (r.2, ⟨true⟩), true⟩,
            [⟨msg.symbol, false, .initializeIndicators highPrice lowPrice (FixedPt.fromInt 0) closePrice⟩])
        else
          (⟨s.gSymbols.insert msg.symbol (r.2, indMgr), true⟩,
            [⟨msg.symbol, true,
              .emitUpdate highPrice lowPrice (FixedPt.fromInt 0) closePrice msg.srcTimestamp⟩])

/-- `on_timer_cb`: every manager is fed its symbol's bar, and the bar rolled over. -/
def onTimerCb (s : EventLoop) : EventLoop × List Call :=
  (⟨s.gSymbols.mapVals fun _ e => (e.1.rollover, e.2), s.timerActive⟩,
    s.gSymbols.entries.map fun e =>
      ⟨e.1, e.2.2.initialized,
        .emitAdd (FixedPt.fromC e.2.1.high) (FixedPt.fromC e.2.1.low) (FixedPt.fromInt 0)
          (FixedPt.fromC e.2.1.close)⟩)

/-- What the loop reacts to. -/
inductive LoopEvent
  /-- A datagram on the socket. -/
  | datagram (bytes : List UInt8)
  /-- A firing of the interval timer. -/
  | timer

/-- One callback of the loop. -/
def EventLoop.step (s : EventLoop) : LoopEvent → Option (EventLoop × List Call)
  | .datagram bytes => udpReadCb s bytes
  | .timer => if s.timerActive then some (onTimerCb s) else none

/-! ### The invariant of a run with positive prices -/

/-- A symbol's entry while its prices are positive: an uninitialized manager with
the zero bar, or an initialized one with a positive bar. -/
def EntryOk (e : TimeStats × IndicatorManager) : Prop :=
  e.2.initialized = false ∧ e.1 = default ∨ e.2.initialized = true ∧ e.1.Positive

/-- Every entry of `gSymbols` is as `EntryOk` says. -/
def EventLoop.Ok (s : EventLoop) : Prop := ∀ e ∈ s.gSymbols.entries, EntryOk e.2

/-- What the claim asks of a call: an update goes to an initialized manager, an
add carries a positive bar to an initialized manager and the zero bar to any other. -/
def Call.Ok (c : Call) : Prop :=
  match c.call with
  | .initializeIndicators .. => True
  | .emitUpdate .. => c.initialized = true
  | .emitAdd high low _ close =>
    c.initialized = true ∧ 0 < low.value ∧ low.value ≤ close.value ∧ close.value ≤ high.value ∨
      c.initialized = false ∧ high = FixedPt.fromC 0 ∧ low = FixedPt.fromC 0 ∧ close = FixedPt.fromC 0

/-- A datagram whose trade, if it decodes to one, has a positive price. -/
def PositiveTrade (bytes : List UInt8) : Prop :=
  ∀ m, populateMsgTrade (bytes.take BUFLEN) = some (some m) → 0 < m.price

theorem EventLoop.Ok.insert {s : EventLoop} (hs : s.Ok) {k : Symbol} {v : TimeStats × IndicatorManager}
    (hv : EntryOk v) (timerActive : Bool) : EventLoop.Ok ⟨s.gSymbols.insert k v, timerActive⟩ := by
  intro e he
  rcases KeyMap.mem_entries_insert _ he with rfl | he
  · exact hv
  · exact hs e he

theorem initial_ok (symbols : List Symbol) : (EventLoop.initial symbols).Ok := by
  unfold EventLoop.initial
  -- the fold adds zero bars with fresh managers only
  suffices ∀ (l : List Symbol) (m : KeyMap Symbol (TimeStats × IndicatorManager)),
      (∀ e ∈ m.entries, EntryOk e.2) →
        ∀ e ∈ (l.foldl (fun m s => if s ∈ m.keys then m else m.insert s (default, ⟨false⟩)) m).entries,
          EntryOk e.2 from this symbols _ (by simp [KeyMap.empty])
  intro l
  induction l with
  | nil => exact fun m hm => hm
  | cons sym l ih =>
    intro m hm
    refine ih _ ?_
    dsimp only
    split_ifs
    · exact hm
    · intro e he
      rcases KeyMap.mem_entries_insert _ he with rfl | he
      · exact .inl ⟨rfl, rfl⟩
      · exact hm e he

/-- A trade of positive price on an entry as `EntryOk` says: the new bar is positive
and the manager initialized, and an update goes only to a manager that already was. -/
theorem entryOk_updateHloc {e : TimeStats × IndicatorManager} (he : EntryOk e) {m : MsgTrade}
    (hm : 0 < m.price) : (updateHloc m e.1).2.Positive ∧
      (e.2.initialized = false → (updateHloc m e.1).1 = true) := by
  refine ⟨?_, fun hinit => ?_⟩
  · rcases he with ⟨-, h⟩ | ⟨-, h⟩
    · exact TimeStats.Bar.updateStats (h ▸ .default) hm
    · exact TimeStats.Bar.updateStats (.inr h) hm
  · rcases he with ⟨-, h⟩ | ⟨h', -⟩
    · rw [h]
      exact congrArg Prod.fst (updateStats_of_first rfl m)
    · rw [hinit] at h'
      cases h'

theorem udpReadCb_ok {s s' : EventLoop} {bytes : List UInt8} {calls : List Call} (hs : s.Ok)
    (hpos : PositiveTrade bytes) (h : udpReadCb s bytes = some (s', calls)) :
    s'.Ok ∧ ∀ c ∈ calls, c.Ok := by
  unfold udpReadCb at h
  cases hd : populateMsgTrade (bytes.take BUFLEN) with
  | none => simp [hd] at h
  | some d =>
    rw [hd, Option.map_some, Option.some.injEq] at h
    cases d with
    | none =>
      obtain ⟨rfl, rfl⟩ := Prod.mk.inj h
      exact ⟨hs, by simp⟩
    | some msg =>
      simp only at h
      cases hf : s.gSymbols.find? msg.symbol with
      | none =>
        rw [hf] at h
        obtain ⟨rfl, rfl⟩ := Prod.mk.inj h
        exact ⟨hs, by simp⟩
      | some e =>
        rw [hf] at h
        obtain ⟨timeStats, indMgr⟩ := e
        have he : EntryOk (timeStats, indMgr) := hs _ (KeyMap.mem_entries_of_find? _ hf)
        obtain ⟨hpositive, hfirst⟩ := entryOk_updateHloc he (hpos msg hd)
        simp only at h hfirst
        split_ifs at h with hr hinit
        · -- the bar did not change: nothing is called
          obtain ⟨rfl, rfl⟩ := Prod.mk.inj h
          have hinit' : indMgr.initialized = true := by
            by_contra hn
            simp [hfirst (by simpa using hn)] at hr
          refine ⟨hs.insert ?_ true, by simp⟩
          exact .inr ⟨hinit', hpositive⟩
        · -- the first change initializes the manager
          obtain ⟨rfl, rfl⟩ := Prod.mk.inj h
          refine ⟨hs.insert ?_ true, by simp [Call.Ok]⟩
          exact .inr ⟨rfl, hpositive⟩
        · -- later ones are updates of an initialized manager
          obtain ⟨rfl, rfl⟩ := Prod.mk.inj h
          have hinit' : indMgr.initialized = true := by simpa using hinit
          refine ⟨hs.insert ?_ true, by simp [Call.Ok]⟩
          exact .inr ⟨hinit', hpositive⟩

theorem onTimerCb_ok {s : EventLoop} (hs : s.Ok) : (onTimerCb s).1.Ok ∧ ∀ c ∈ (onTimerCb s).2, c.Ok := by
  constructor
  · intro e he
    obtain ⟨e', he', rfl⟩ := KeyMap.mem_entries_mapVals _ he
    rcases hs e' he' with ⟨hi, hd⟩ | ⟨hi, hp⟩
    · exact .inl ⟨hi, by rw [hd]; rfl⟩
    · exact .inr ⟨hi, hp⟩
  · intro c hc
    obtain ⟨e, he, rfl⟩ := List.mem_map.1 hc
    rcases hs e he with ⟨hi, hd⟩ | ⟨hi, hlow, hlc, hch⟩
    · exact .inr ⟨hi, by rw [hd]; rfl, by rw [hd]; rfl, by rw [hd]; rfl⟩
    · exact .inl ⟨hi, hlow, hlc, hch⟩

theorem step_ok {s s' : EventLoop} {ev : LoopEvent} {calls : List Call} (hs : s.Ok)
    (hpos : ∀ bytes, ev = .datagram bytes → PositiveTrade bytes) (h : s.step ev = some (s', calls)) :
    s'.Ok ∧ ∀ c ∈ calls, c.Ok := by
  cases ev with
  | datagram bytes => exact udpReadCb_ok hs (hpos bytes rfl) h
  | timer =>
    simp only [EventLoop.step] at h
    split_ifs at h
    obtain ⟨rfl, rfl⟩ := Prod.mk.inj (Option.some.inj h)
    exact onTimerCb_ok hs

/-- **Every run with positive prices.** From the start of the program, every
`emit_update` goes to an initialized manager, and every bar of an `emit_add` is
positive if its manager is initialized and zero if it is not. -/
theorem runSteps_calls (symbols : List Symbol) (evs : List LoopEvent)
    (hpos : ∀ bytes, .datagram bytes ∈ evs → PositiveTrade bytes) {s : EventLoop} {outs : List (List Call)}
    (h : runSteps EventLoop.step (EventLoop.initial symbols) evs = some (s, outs)) :
    ∀ calls ∈ outs, ∀ c ∈ calls, c.Ok := by
  suffices ∀ (evs : List LoopEvent) (s₀ s : EventLoop) (outs : List (List Call)), s₀.Ok →
      (∀ bytes, .datagram bytes ∈ evs → PositiveTrade bytes) →
      runSteps EventLoop.step s₀ evs = some (s, outs) → ∀ calls ∈ outs, ∀ c ∈ calls, c.Ok from
    this evs _ s outs (initial_ok symbols) hpos h
  intro evs
  induction evs with
  | nil =>
    intro s₀ s outs _ _ h
    simp only [runSteps, Option.some.injEq, Prod.mk.injEq] at h
    simp [← h.2]
  | cons ev evs ih =>
    intro s₀ s outs hs hpos h
    simp only [runSteps, Option.bind_eq_some_iff, Option.map_eq_some_iff] at h
    obtain ⟨⟨s₁, calls₁⟩, hstep, ⟨s₂, outs₂⟩, hrun, heq⟩ := h
    simp only [Prod.mk.injEq] at heq
    obtain ⟨rfl, rfl⟩ := heq
    obtain ⟨hs₁, hcalls₁⟩ := step_ok hs (fun bytes he => hpos bytes (he ▸ List.mem_cons_self)) hstep
    intro calls hcalls
    rcases List.mem_cons.1 hcalls with rfl | hcalls
    · exact hcalls₁
    · exact ih s₁ s₂ outs₂ hs₁ (fun bytes hb => hpos bytes (List.mem_cons_of_mem _ hb)) hrun calls hcalls

/-! ### Two symbols, one traded -/

/-- `XYZ`, as a key. -/
def xyzSymbol : Symbol := ⟨#[88, 89, 90, 0, 0, 0, 0, 0, 0, 0], rfl⟩

/-- A datagram of a `BPl` trade at `10`: the timestamp, then `a|d|BPl|10|5`. -/
def bplDatagram : List UInt8 := List.replicate 8 0 ++ [97, 124, 100, 124, 66, 80, 108, 124, 49, 48, 124, 53]

/-- With `-s BPl,XYZ`, a `BPl` trade at `10` and a firing of the timer: every call is as
`Call.Ok` says. -/
theorem runSteps_calls_bpl_xyz :
    ∃ s outs, runSteps EventLoop.step (EventLoop.initial [bplSymbol, xyzSymbol]) [.datagram bplDatagram, .timer] =
      some (s, outs) ∧ ∀ calls ∈ outs, ∀ c ∈ calls, c.Ok := by
  have hsome : (runSteps EventLoop.step (EventLoop.initial [bplSymbol, xyzSymbol])
      [.datagram bplDatagram, .timer]).isSome := by decide
  refine ⟨_, _, (Option.some_get hsome).symm, runSteps_calls _ _ ?_ (Option.some_get hsome).symm⟩
  -- the one datagram is the trade at `10`
  intro bytes hb m hm
  obtain rfl : bytes = bplDatagram := by simpa using hb
  have hprice : (populateMsgTrade (bplDatagram.take BUFLEN)).map (Option.map MsgTrade.price) =
      some (some (fixedptFromint 10)) := by decide
  rw [hm] at hprice
  simp only [Option.map_some, Option.some.injEq] at hprice
  rw [hprice]
  decide

/-- **The timer feeds a manager that was never initialized.** With `-s BPl,XYZ`, a
`BPl` trade at `10` initializes `BPl`'s indicators; the next firing of the timer
calls `emit_add` on both managers, on `XYZ`'s uninitialized one with the bar
`(0, 0, 0)`. -/
theorem timer_feeds_uninitialized :
    (runSteps EventLoop.step (EventLoop.initial [bplSymbol, xyzSymbol]) [.datagram bplDatagram, .timer]).map
        Prod.snd =
      some [[⟨bplSymbol, false, .initializeIndicators (.fromC (fixedptFromint 10)) (.fromC (fixedptFromint 10))
              (.fromInt 0) (.fromC (fixedptFromint 10))⟩],
        [⟨bplSymbol, true, .emitAdd (.fromC (fixedptFromint 10)) (.fromC (fixedptFromint 10)) (.fromInt 0)
            (.fromC (fixedptFromint 10))⟩,
          ⟨xyzSymbol, false, .emitAdd (.fromC 0) (.fromC 0) (.fromInt 0) (.fromC 0)⟩]] := by
  decide

end Synapse.HandCoded
