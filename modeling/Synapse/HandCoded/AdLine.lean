import Synapse.Theory.ChainTable
import Synapse.Theory.Transducer
import Synapse.Trade.TradeProcessor
import Synapse.Trade.WireFormat
import Synapse.Click.FixedPt

/-!
# The advance/decline line

The hand-coded program's advance/decline line (`hand_coded/ad_line.cpp`) counts the
symbols whose close went up and those whose close went down. Each symbol's
`ADLineTick` compares its close with the previous one and passes the tick, `UP`,
`DOWN` or `FLAT`, to the singleton `ADLine`, whose `calculate_value` keeps the last
tick of each symbol in `_tick_map` and the counts in the `unsigned` counters
`_total_up` and `_total_down`, updated by a table of the old and new ticks. It
returns `int(_total_up) - int(_total_down)`.

## The model

`_tick_map` is a `__gnu_cxx::hash_map` keyed by the ten bytes of a symbol, hashed
by their first four bytes and compared with `strcmp`: a `ChainTable`, whose number
of buckets at each call is part of the call. The counters are `UInt32`; the
conversion to `int` and the subtraction are those of `Int32`, and a call whose
subtraction overflows is `none`.

## What is proved

On NUL-padded symbols the hash agrees with `strcmp`, so the table is the map of the
last tick of each symbol (`ADLine.Inv`). `runSteps_calculateValue`: every run
refines that map, with each counter the count of its ticks modulo 2 ^ 32 and each
return the difference of the two counts as `int` values. `ad_line_counts`: while
fewer than 2 ^ 31 symbols are seen, the counters are the counts and each call
returns their difference. `ad_line_return_wraps`: with 2 ^ 31 symbols going up the
last call returns -2 ^ 31.
-/

namespace Synapse.HandCoded

open Theory Trade Click

/-- `Tick`. -/
inductive Tick
  | UP
  | DOWN
  | FLAT
  deriving DecidableEq, Repr

/-- `UpdateType`. -/
inductive UpdateType
  | ADD
  | UPDATE
  deriving DecidableEq, Repr

/-! ### Symbols as keys -/

/-- The C string of a symbol: what `strcmp` compares. -/
def symbolString (s : Symbol) : List UInt8 := cstr s.toList

/-- `equal_to<SymbolArrayWrapper>`: `strcmp (lhs._array, rhs._array) == 0`. -/
def symbolEqual (lhs rhs : Symbol) : Bool := symbolString lhs == symbolString rhs

/-- `hash<SymbolArrayWrapper>`: the first four bytes read as an `int32_t`, widened
to `size_t`. -/
def symbolHash (key : Symbol) : UInt64 := (leWord (key.toList.take 4)).toUInt32.toInt32.toInt64.toUInt64

/-- The bucket of a key in a table of `bucketCount` buckets. -/
def symbolBucket (bucketCount : ℕ) (key : Symbol) : ℕ := (symbolHash key).toNat % bucketCount

/-- A symbol as the program holds it: its characters, none of them NUL, then NUL
bytes to the end of the array. -/
def NulPadded (s : Symbol) : Prop :=
  (symbolString s).length < ORDER_SYMBOL_LEN ∧
    s.toList = symbolString s ++ List.replicate (ORDER_SYMBOL_LEN - (symbolString s).length) 0

instance (s : Symbol) : Decidable (NulPadded s) := inferInstanceAs (Decidable (_ ∧ _))

theorem symbolEqual_eq (a b : Symbol) : symbolEqual a b = decide (symbolString a = symbolString b) := by
  rw [symbolEqual]
  exact Bool.eq_iff_iff.2 (by simp)

/-- A NUL-padded symbol is its C string. -/
theorem eq_of_symbolString_eq {a b : Symbol} (ha : NulPadded a) (hb : NulPadded b)
    (h : symbolString a = symbolString b) : a = b := by
  apply Vector.toList_inj.1
  rw [ha.2, hb.2, h]

/-- On NUL-padded symbols the hash agrees with `strcmp`. -/
theorem symbolBucket_agree (bucketCount : ℕ) (a b : Symbol) (ha : NulPadded a) (hb : NulPadded b)
    (h : symbolString a = symbolString b) : symbolBucket bucketCount a = symbolBucket bucketCount b := by
  rw [eq_of_symbolString_eq ha hb h]

/-! ### The singleton -/

/-- The `ADLine` singleton. -/
structure ADLine where
  /-- `_tick_map`. -/
  tickMap : ChainTable Symbol Tick
  /-- `_total_up`. -/
  totalUp : UInt32
  /-- `_total_down`. -/
  totalDown : UInt32

/-- `ADLine ()`. -/
def ADLine.initial : ADLine := ⟨⟨[]⟩, 0, 0⟩

/-- `int(_total_up) - int(_total_down)`: each counter converted to `int`, then
subtracted; `none` where the subtraction overflows. -/
def intDiff (totalUp totalDown : UInt32) : Option Int32 :=
  let v := totalUp.toInt32.toInt - totalDown.toInt32.toInt
  if -2 ^ 31 ≤ v ∧ v < 2 ^ 31 then some (Int32.ofInt v) else none

/-- The switch on the symbol's current tick and the new one: the counters after it. -/
def transition (currentTick tick : Tick) (totalUp totalDown : UInt32) : UInt32 × UInt32 :=
  match currentTick, tick with
  | .UP, .UP => (totalUp, totalDown)
  | .UP, .DOWN => (totalUp - 1, totalDown + 1)
  | .UP, .FLAT => (totalUp - 1, totalDown)
  | .DOWN, .UP => (totalUp + 1, totalDown - 1)
  | .DOWN, .DOWN => (totalUp, totalDown)
  | .DOWN, .FLAT => (totalUp, totalDown - 1)
  | .FLAT, .UP => (totalUp + 1, totalDown)
  -- `case DOWN` has no `break` and falls through to `case FLAT`, which has nothing
  | .FLAT, .DOWN => (totalUp, totalDown + 1)
  | .FLAT, .FLAT => (totalUp, totalDown)

/-- `ADLine::calculate_value (tick, symbol)`, on a table of `bucketCount` buckets. -/
def ADLine.calculateValue (self : ADLine) (bucketCount : ℕ) (tick : Tick) (symbol : Symbol) :
    Option (ADLine × Int32) :=
  match self.tickMap.find? (symbolBucket bucketCount) symbolEqual symbol with
  | none =>
    let (totalUp, totalDown) :=
      if tick = .UP then (self.totalUp + 1, self.totalDown)
      else if tick = .DOWN then (self.totalUp, self.totalDown + 1)
      else (self.totalUp, self.totalDown)
    (intDiff totalUp totalDown).map fun rv => (⟨self.tickMap.insertNew symbol tick, totalUp, totalDown⟩, rv)
  | some currentTick =>
    let (totalUp, totalDown) := transition currentTick tick self.totalUp self.totalDown
    (intDiff totalUp totalDown).map fun rv =>
      (⟨self.tickMap.setFound (symbolBucket bucketCount) symbolEqual symbol tick, totalUp, totalDown⟩, rv)

/-! ### The tick of a symbol -/

/-- `ADLineTick`, one for each symbol. -/
structure ADLineTick where
  /-- `_prev_close`. -/
  prevClose : FixedPt
  /-- `_symbol`. -/
  symbol : Symbol

/-- `ADLineTick::initialize (close)`. -/
def ADLineTick.initialize (self : ADLineTick) (close : FixedPt) : ADLineTick := { self with prevClose := close }

/-- The tick of the difference of a close and the previous one. -/
def tickOf (diff : FixedPt) : Tick :=
  if FixedPt.fromInt 0 < diff then .UP else if diff < FixedPt.fromInt 0 then .DOWN else .FLAT

/-- `ADLineTick::calculate_value (close, update_type)`: the tick of the close goes
to the singleton, whose value is returned. -/
def ADLineTick.calculateValue (self : ADLineTick) (adLine : ADLine) (bucketCount : ℕ) (close : FixedPt)
    (updateType : UpdateType) : Option (ADLineTick × ADLine × FixedPt) :=
  let result := tickOf (close - self.prevClose)
  let self' := if updateType = .ADD then { self with prevClose := close } else self
  (adLine.calculateValue bucketCount result self.symbol).map fun r => (self', r.1, FixedPt.fromInt r.2.toInt)

/-! ### What the singleton is for -/

/-- A call of `ADLine::calculate_value`, with the number of buckets of the table
at that call. -/
structure ADLineCall where
  /-- The table's number of buckets. -/
  bucketCount : ℕ
  /-- `tick`. -/
  tick : Tick
  /-- `symbol`. -/
  symbol : Symbol

/-- One call. -/
def ADLine.step (s : ADLine) (c : ADLineCall) : Option (ADLine × Int32) :=
  s.calculateValue c.bucketCount c.tick c.symbol

/-- The last tick given for each symbol. -/
def lastTicks (m : KeyMap (List UInt8) Tick) : List ADLineCall → KeyMap (List UInt8) Tick
  | [] => m
  | c :: cs => lastTicks (m.insert (symbolString c.symbol) c.tick) cs

/-- The number of symbols whose last tick is `UP`. -/
def countUp (m : KeyMap (List UInt8) Tick) : ℕ := m.countVals (· == .UP)

/-- The number of symbols whose last tick is `DOWN`. -/
def countDown (m : KeyMap (List UInt8) Tick) : ℕ := m.countVals (· == .DOWN)

/-- The two counts after each call. -/
def tickCounts (m : KeyMap (List UInt8) Tick) : List ADLineCall → List (ℕ × ℕ)
  | [] => []
  | c :: cs =>
    let m' := m.insert (symbolString c.symbol) c.tick
    (countUp m', countDown m') :: tickCounts m' cs

/-- The table is the map `m` of the last ticks, and each counter is its count
modulo 2 ^ 32. -/
structure ADLine.Inv (s : ADLine) (m : KeyMap (List UInt8) Tick) : Prop where
  refines : ChainTable.Refines symbolString NulPadded s.tickMap m
  totalUp : s.totalUp = UInt32.ofNat (countUp m)
  totalDown : s.totalDown = UInt32.ofNat (countDown m)

theorem ADLine.initial_inv : ADLine.initial.Inv KeyMap.empty :=
  ⟨⟨rfl, by simp [ADLine.initial]⟩, rfl, rfl⟩

/-! ### One call -/

/-- The table of the switch, as the change of each count. -/
theorem transition_eq (currentTick tick : Tick) (totalUp totalDown : UInt32) :
    transition currentTick tick totalUp totalDown =
      (totalUp + UInt32.ofNat (if (tick == .UP) = true then 1 else 0) -
          UInt32.ofNat (if (currentTick == .UP) = true then 1 else 0),
        totalDown + UInt32.ofNat (if (tick == .DOWN) = true then 1 else 0) -
          UInt32.ofNat (if (currentTick == .DOWN) = true then 1 else 0)) := by
  cases currentTick <;> cases tick <;> simp [transition]

theorem ofNat_of_add_eq {a b x y : ℕ} (h : a + x = b + y) :
    UInt32.ofNat a = UInt32.ofNat b + UInt32.ofNat y - UInt32.ofNat x := by
  rw [← UInt32.ofNat_add, ← h, UInt32.ofNat_add, UInt32.add_sub_cancel]

section Step

variable {s : ADLine} {m : KeyMap (List UInt8) Tick}

theorem ADLine.Inv.find? (h : s.Inv m) (bucketCount : ℕ) {symbol : Symbol} (hs : NulPadded symbol) :
    s.tickMap.find? (symbolBucket bucketCount) symbolEqual symbol = m.find? (symbolString symbol) :=
  h.refines.find? symbolEqual_eq (symbolBucket_agree bucketCount) hs

/-- **One call.** A call on a NUL-padded symbol leaves the singleton standing for
the map with the symbol's new tick, and returns the difference of its counters. -/
theorem ADLine.Inv.calculateValue (h : s.Inv m) (bucketCount : ℕ) (tick : Tick) {symbol : Symbol}
    (hs : NulPadded symbol) :
    ∃ s', s'.Inv (m.insert (symbolString symbol) tick) ∧
      s.calculateValue bucketCount tick symbol = (intDiff s'.totalUp s'.totalDown).map fun rv => (s', rv) := by
  have hfind := h.find? bucketCount hs
  cases hf : m.find? (symbolString symbol) with
  | none =>
    -- a new symbol: counted once, under its tick
    have hk : symbolString symbol ∉ m.keys := (KeyMap.find?_eq_none m).1 hf
    have hup : countUp (m.insert (symbolString symbol) tick) = countUp m + if tick == .UP then 1 else 0 :=
      KeyMap.countVals_insert_of_not_mem m hk tick _
    have hdown : countDown (m.insert (symbolString symbol) tick) = countDown m + if tick == .DOWN then 1 else 0 :=
      KeyMap.countVals_insert_of_not_mem m hk tick _
    have hr := h.refines.insertNew symbolEqual_eq (symbolBucket_agree bucketCount) hs (hfind.trans hf) tick
    refine ⟨⟨s.tickMap.insertNew symbol tick,
      UInt32.ofNat (countUp (m.insert (symbolString symbol) tick)),
      UInt32.ofNat (countDown (m.insert (symbolString symbol) tick))⟩, ⟨hr, rfl, rfl⟩, ?_⟩
    simp only [ADLine.calculateValue, hfind, hf, h.totalUp, h.totalDown, hup, hdown]
    cases tick <;> simp [UInt32.ofNat_add]
  | some currentTick =>
    -- a symbol already there: its old tick leaves the counts, the new one enters
    have hup : countUp (m.insert (symbolString symbol) tick) + (if currentTick == .UP then 1 else 0) =
        countUp m + if tick == .UP then 1 else 0 :=
      KeyMap.countVals_insert_of_find? m hf tick _
    have hdown : countDown (m.insert (symbolString symbol) tick) + (if currentTick == .DOWN then 1 else 0) =
        countDown m + if tick == .DOWN then 1 else 0 :=
      KeyMap.countVals_insert_of_find? m hf tick _
    have hr := h.refines.setFound symbolEqual_eq (symbolBucket_agree bucketCount) hs
      (by rw [hfind, hf]; rfl) tick
    refine ⟨⟨s.tickMap.setFound (symbolBucket bucketCount) symbolEqual symbol tick,
      UInt32.ofNat (countUp (m.insert (symbolString symbol) tick)),
      UInt32.ofNat (countDown (m.insert (symbolString symbol) tick))⟩, ⟨hr, rfl, rfl⟩, ?_⟩
    simp only [ADLine.calculateValue, hfind, hf, transition_eq, h.totalUp, h.totalDown, ofNat_of_add_eq hup,
      ofNat_of_add_eq hdown]

end Step

/-! ### Runs -/

/-- **Every run.** From a singleton standing for `m`, calls on NUL-padded symbols
leave it standing for the map of their last ticks, and return, as long as no
subtraction overflows, the difference of the two counts after each call, each
converted to `int` from its `unsigned` counter. -/
theorem runSteps_calculateValue : ∀ (calls : List ADLineCall) (s : ADLine) (m : KeyMap (List UInt8) Tick),
    s.Inv m → (∀ c ∈ calls, NulPadded c.symbol) →
    ∃ s', s'.Inv (lastTicks m calls) ∧
      runSteps ADLine.step s calls =
        ((tickCounts m calls).mapM fun ud => intDiff (UInt32.ofNat ud.1) (UInt32.ofNat ud.2)).map
          fun rvs => (s', rvs)
  | [], s, m, h, _ => ⟨s, h, rfl⟩
  | c :: cs, s, m, h, hpad => by
    obtain ⟨s₁, h₁, hstep⟩ := h.calculateValue c.bucketCount c.tick (hpad c List.mem_cons_self)
    obtain ⟨s', h', hrun⟩ := runSteps_calculateValue cs s₁ _ h₁ fun c hc => hpad c (List.mem_cons_of_mem _ hc)
    refine ⟨s', h', ?_⟩
    have hstep' : ADLine.step s c = (intDiff s₁.totalUp s₁.totalDown).map fun rv => (s₁, rv) := hstep
    rw [h₁.totalUp, h₁.totalDown] at hstep'
    simp only [runSteps, hstep', tickCounts, List.mapM_cons]
    cases intDiff (UInt32.ofNat (countUp (m.insert (symbolString c.symbol) c.tick)))
      (UInt32.ofNat (countDown (m.insert (symbolString c.symbol) c.tick))) with
    | none => rfl
    | some rv =>
      simp only [Option.map_some, Option.bind_some, hrun]
      cases (tickCounts (m.insert (symbolString c.symbol) c.tick) cs).mapM
        (fun ud => intDiff (UInt32.ofNat ud.1) (UInt32.ofNat ud.2)) <;> rfl

/-! ### Fewer than 2 ^ 31 symbols -/

theorem length_keys_le_lastTicks : ∀ (calls : List ADLineCall) (m : KeyMap (List UInt8) Tick),
    m.keys.length ≤ (lastTicks m calls).keys.length
  | [], _ => le_rfl
  | _ :: cs, m => (m.length_keys_le_insert _ _).trans (length_keys_le_lastTicks cs _)

/-- No count after a call exceeds the number of symbols seen in the whole run. -/
theorem tickCounts_le : ∀ (calls : List ADLineCall) (m : KeyMap (List UInt8) Tick),
    ∀ ud ∈ tickCounts m calls, ud.1 ≤ (lastTicks m calls).keys.length ∧ ud.2 ≤ (lastTicks m calls).keys.length
  | [], _, ud, hud => by simp [tickCounts] at hud
  | c :: cs, m, ud, hud => by
    rw [tickCounts, List.mem_cons] at hud
    rcases hud with rfl | hud
    · have hkeys := length_keys_le_lastTicks cs (m.insert (symbolString c.symbol) c.tick)
      show countUp _ ≤ (lastTicks _ cs).keys.length ∧ countDown _ ≤ (lastTicks _ cs).keys.length
      exact ⟨(KeyMap.countVals_le_length _ _).trans hkeys, (KeyMap.countVals_le_length _ _).trans hkeys⟩
    · exact tickCounts_le cs _ ud hud

theorem toInt_toInt32_ofNat {a : ℕ} (h : a < 2 ^ 31) : (UInt32.ofNat a).toInt32.toInt = a := by
  rw [UInt32.toInt32_ofNat', Int32.toInt_ofNat', Int.bmod_def]
  simp only [Int32.size]
  split_ifs <;> omega

/-- Counters below 2 ^ 31 are subtracted as they are. -/
theorem intDiff_ofNat {a b : ℕ} (ha : a < 2 ^ 31) (hb : b < 2 ^ 31) :
    intDiff (UInt32.ofNat a) (UInt32.ofNat b) = some (Int32.ofInt (a - b)) := by
  rw [intDiff, toInt_toInt32_ofNat ha, toInt_toInt32_ofNat hb, if_pos (by omega)]

theorem toInt_ofInt_sub {a b : ℕ} (ha : a < 2 ^ 31) (hb : b < 2 ^ 31) : (Int32.ofInt (a - b)).toInt = a - b := by
  rw [Int32.toInt_ofInt, Int.bmod_def]
  simp only [Int32.size]
  split_ifs <;> omega

private theorem mapM_eq_some_map {α β : Type} {f : α → Option β} {g : α → β} :
    ∀ {l : List α}, (∀ x ∈ l, f x = some (g x)) → l.mapM f = some (l.map g)
  | [], _ => rfl
  | x :: l, h => by
    rw [List.mapM_cons, h x List.mem_cons_self, mapM_eq_some_map fun y hy => h y (List.mem_cons_of_mem _ hy)]
    rfl

/-- **The counters are the counts.** Over calls on NUL-padded symbols, fewer than
2 ^ 31 of them, every call returns; the table holds one entry for each symbol,
with its last tick; the counters are the numbers of symbols whose last tick is up
and down; and each call returns the difference of the two after it. -/
theorem ad_line_counts (calls : List ADLineCall) (hpad : ∀ c ∈ calls, NulPadded c.symbol)
    (hfew : (lastTicks KeyMap.empty calls).keys.length < 2 ^ 31) :
    ∃ s rvs, runSteps ADLine.step ADLine.initial calls = some (s, rvs) ∧
      ChainTable.view symbolString s.tickMap = (lastTicks KeyMap.empty calls).entries ∧
      (s.tickMap.entries.map fun e => symbolString e.1).Nodup ∧
      s.totalUp.toNat = countUp (lastTicks KeyMap.empty calls) ∧
      s.totalDown.toNat = countDown (lastTicks KeyMap.empty calls) ∧
      rvs.map Int32.toInt = (tickCounts KeyMap.empty calls).map fun ud => (ud.1 : ℤ) - ud.2 := by
  obtain ⟨s, hs, hrun⟩ := runSteps_calculateValue calls _ _ ADLine.initial_inv hpad
  have hbound := tickCounts_le calls KeyMap.empty
  have hmapM : (tickCounts KeyMap.empty calls).mapM (fun ud => intDiff (UInt32.ofNat ud.1) (UInt32.ofNat ud.2)) =
      some ((tickCounts KeyMap.empty calls).map fun ud => Int32.ofInt ((ud.1 : ℤ) - ud.2)) :=
    mapM_eq_some_map fun ud hud => intDiff_ofNat (by have := hbound ud hud; omega) (by have := hbound ud hud; omega)
  have hup := KeyMap.countVals_le_length (lastTicks KeyMap.empty calls) (· == .UP)
  have hdown := KeyMap.countVals_le_length (lastTicks KeyMap.empty calls) (· == .DOWN)
  refine ⟨s, _, by rw [hrun, hmapM]; rfl, hs.refines.view_eq, ?_, ?_, ?_, ?_⟩
  · -- one entry for each symbol: the view is a map's
    have hnd := (lastTicks KeyMap.empty calls).nodup
    rw [← hs.refines.view_eq] at hnd
    simpa [ChainTable.view, Function.comp_def] using hnd
  · rw [hs.totalUp, UInt32.toNat_ofNat', Nat.mod_eq_of_lt (by rw [countUp]; omega)]
  · rw [hs.totalDown, UInt32.toNat_ofNat', Nat.mod_eq_of_lt (by rw [countDown]; omega)]
  · rw [List.map_map]
    refine List.map_congr_left fun ud hud => ?_
    have := hbound ud hud
    exact toInt_ofInt_sub (by omega) (by omega)

theorem ad_line_counts_bpl :
    (∀ c ∈ [⟨7, .UP, bplSymbol⟩, ⟨7, .DOWN, bplSymbol⟩], NulPadded (ADLineCall.symbol c)) ∧
      (lastTicks KeyMap.empty [⟨7, .UP, bplSymbol⟩, ⟨7, .DOWN, bplSymbol⟩]).keys.length < 2 ^ 31 ∧
      ∃ s rvs, runSteps ADLine.step ADLine.initial [⟨7, .UP, bplSymbol⟩, ⟨7, .DOWN, bplSymbol⟩] = some (s, rvs) ∧
        ChainTable.view symbolString s.tickMap =
          (lastTicks KeyMap.empty [⟨7, .UP, bplSymbol⟩, ⟨7, .DOWN, bplSymbol⟩]).entries ∧
        (s.tickMap.entries.map fun e => symbolString e.1).Nodup ∧
        s.totalUp.toNat = countUp (lastTicks KeyMap.empty [⟨7, .UP, bplSymbol⟩, ⟨7, .DOWN, bplSymbol⟩]) ∧
        s.totalDown.toNat = countDown (lastTicks KeyMap.empty [⟨7, .UP, bplSymbol⟩, ⟨7, .DOWN, bplSymbol⟩]) ∧
        rvs.map Int32.toInt =
          (tickCounts KeyMap.empty [⟨7, .UP, bplSymbol⟩, ⟨7, .DOWN, bplSymbol⟩]).map fun ud => (ud.1 : ℤ) - ud.2 :=
  ⟨by decide, by decide, ad_line_counts _ (by decide) (by decide)⟩

/-! ### 2 ^ 31 symbols -/

/-- The `k`-th digit of `i` in base 255, plus one: never NUL. -/
def symbolDigit (i k : ℕ) : UInt8 := (i / 255 ^ k % 255 + 1).toUInt8

/-- A symbol numbered `i`: the first four digits of `symbolDigit i`, then NUL bytes. -/
def numberedSymbol (i : ℕ) : Symbol :=
  ⟨#[symbolDigit i 0, symbolDigit i 1, symbolDigit i 2, symbolDigit i 3, 0, 0, 0, 0, 0, 0], rfl⟩

theorem symbolDigit_ne_zero (i k : ℕ) : symbolDigit i k ≠ 0 := by
  intro h
  have := congrArg UInt8.toNat h
  simp [symbolDigit] at this
  omega

theorem symbolString_numberedSymbol (i : ℕ) :
    symbolString (numberedSymbol i) = [symbolDigit i 0, symbolDigit i 1, symbolDigit i 2, symbolDigit i 3] := by
  show List.takeWhile (· != 0)
    [symbolDigit i 0, symbolDigit i 1, symbolDigit i 2, symbolDigit i 3, 0, 0, 0, 0, 0, 0] = _
  simp [symbolDigit_ne_zero]

theorem nulPadded_numberedSymbol (i : ℕ) : NulPadded (numberedSymbol i) := by
  rw [NulPadded, symbolString_numberedSymbol]
  exact ⟨by simp [ORDER_SYMBOL_LEN], rfl⟩

theorem numberedSymbol_inj {i j : ℕ} (hi : i < 2 ^ 31) (hj : j < 2 ^ 31)
    (h : symbolString (numberedSymbol i) = symbolString (numberedSymbol j)) : i = j := by
  simp only [symbolString_numberedSymbol, List.cons.injEq, and_true] at h
  obtain ⟨h₀, h₁, h₂, h₃⟩ := h
  have d₀ := congrArg UInt8.toNat h₀
  have d₁ := congrArg UInt8.toNat h₁
  have d₂ := congrArg UInt8.toNat h₂
  have d₃ := congrArg UInt8.toNat h₃
  simp [symbolDigit] at d₀ d₁ d₂ d₃
  omega

/-- Calls that each bring a new symbol going up: the counts grow by one a call. -/
theorem tickCounts_fresh_up : ∀ (calls : List ADLineCall) (m : KeyMap (List UInt8) Tick),
    (∀ c ∈ calls, c.tick = .UP) → (m.keys ++ calls.map fun c => symbolString c.symbol).Nodup →
    (lastTicks m calls).keys.length = m.keys.length + calls.length ∧
      countUp (lastTicks m calls) = countUp m + calls.length ∧
      countDown (lastTicks m calls) = countDown m ∧
      tickCounts m calls = (List.range calls.length).map fun i => (countUp m + i + 1, countDown m)
  | [], m, _, _ => by simp [lastTicks, tickCounts]
  | c :: cs, m, hup, hnd => by
    have hk : symbolString c.symbol ∉ m.keys := by
      intro hk
      rw [List.map_cons, List.nodup_append] at hnd
      exact hnd.2.2 _ hk _ List.mem_cons_self rfl
    have htick := hup c List.mem_cons_self
    have hnd' : ((m.insert (symbolString c.symbol) c.tick).keys ++ cs.map fun c => symbolString c.symbol).Nodup := by
      rw [KeyMap.keys_insert_of_not_mem m hk, List.append_assoc]
      simpa using hnd
    obtain ⟨hkeys, hcup, hcdown, hcounts⟩ :=
      tickCounts_fresh_up cs _ (fun c hc => hup c (List.mem_cons_of_mem _ hc)) hnd'
    have hup₁ : countUp (m.insert (symbolString c.symbol) c.tick) = countUp m + 1 := by
      rw [countUp, KeyMap.countVals_insert_of_not_mem m hk, htick]
      rfl
    have hdown₁ : countDown (m.insert (symbolString c.symbol) c.tick) = countDown m := by
      rw [countDown, KeyMap.countVals_insert_of_not_mem m hk, htick]
      rfl
    refine ⟨?_, ?_, ?_, ?_⟩
    · rw [lastTicks, hkeys, KeyMap.keys_insert_of_not_mem m hk]
      simp only [List.length_append, List.length_cons, List.length_nil]
      omega
    · rw [lastTicks, hcup, hup₁, List.length_cons]
      omega
    · rw [lastTicks, hcdown, hdown₁]
    · rw [tickCounts, hcounts, hup₁, hdown₁, List.length_cons, List.range_succ_eq_map, List.map_cons,
        List.map_map]
      refine congrArg₂ _ rfl (List.map_congr_left fun i _ => ?_)
      simp only [Function.comp_apply, Prod.mk.injEq, and_true]
      omega

/-- A counter as an `int` less than 2 ^ 32 minus 0. -/
theorem intDiff_zero (totalUp : UInt32) : intDiff totalUp 0 = some totalUp.toInt32 := by
  have hlo := Int32.le_toInt totalUp.toInt32
  have hhi := Int32.toInt_lt totalUp.toInt32
  rw [intDiff, if_pos (by simp; omega)]
  simp

/-- **2 ^ 31 symbols.** Calls on 2 ^ 31 NUL-padded symbols, each going up once,
all return; the counters are still the counts, but the last call converts
`_total_up` = 2 ^ 31 to the `int` -2 ^ 31 and returns it, not 2 ^ 31. -/
theorem ad_line_return_wraps :
    ∃ calls : List ADLineCall, (∀ c ∈ calls, NulPadded c.symbol) ∧
      (lastTicks KeyMap.empty calls).keys.length = 2 ^ 31 ∧
      ∃ s rvs, runSteps ADLine.step ADLine.initial calls = some (s, rvs) ∧
        s.totalUp.toNat = 2 ^ 31 ∧ s.totalDown.toNat = 0 ∧ rvs.getLast? = some (Int32.ofInt (-2 ^ 31)) := by
  let calls := (List.range (2 ^ 31)).map fun i => (⟨1, .UP, numberedSymbol i⟩ : ADLineCall)
  have hpad : ∀ c ∈ calls, NulPadded c.symbol := by
    intro c hc
    obtain ⟨i, -, rfl⟩ := List.mem_map.1 hc
    exact nulPadded_numberedSymbol i
  have hnd : ((KeyMap.empty : KeyMap (List UInt8) Tick).keys ++ calls.map fun c => symbolString c.symbol).Nodup := by
    rw [KeyMap.keys_empty, List.nil_append, List.map_map]
    refine List.Nodup.map_on (fun i hi j hj h => ?_) List.nodup_range
    exact numberedSymbol_inj (List.mem_range.1 hi) (List.mem_range.1 hj) h
  obtain ⟨hkeys, hcup, hcdown, hcounts⟩ :=
    tickCounts_fresh_up calls KeyMap.empty (fun c hc => by obtain ⟨i, -, rfl⟩ := List.mem_map.1 hc; rfl) hnd
  have hlen : calls.length = 2 ^ 31 := by simp [calls]
  obtain ⟨s, hs, hrun⟩ := runSteps_calculateValue calls _ _ ADLine.initial_inv hpad
  have hmapM : (tickCounts KeyMap.empty calls).mapM (fun ud => intDiff (UInt32.ofNat ud.1) (UInt32.ofNat ud.2)) =
      some ((List.range (2 ^ 31)).map fun i => (UInt32.ofNat (i + 1)).toInt32) := by
    rw [hcounts, hlen, List.mapM_map]
    refine mapM_eq_some_map fun i _ => ?_
    simp [countUp, countDown, KeyMap.countVals, KeyMap.empty, intDiff_zero]
  refine ⟨calls, hpad, by rw [hkeys, hlen]; rfl, s, _, by rw [hrun, hmapM]; rfl, ?_, ?_, ?_⟩
  · rw [hs.totalUp, hcup, hlen]
    rfl
  · rw [hs.totalDown, hcdown]
    rfl
  · rw [List.getLast?_map, List.getLast?_range]
    decide

end Synapse.HandCoded
