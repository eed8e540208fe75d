import Synapse.Click.SynapseElement
import Synapse.Trade.WireFormat

/-!
# `MsgFilterSymbol`, the symbol filter of the trade stream

`MsgFilterSymbol` (`elements/standard/msg_filter_symbol.cc`) passes or drops trades by
their symbol. `configure` reads `ALLOW_SYMBOLS` or, when that has no word,
`RESTRICT_SYMBOLS`, and puts each word in `_symbol_map` as an `ArrayWrapper` built by
`operator= (const char *)`; it fails when a key is already there. In `ALLOWING` mode a
trade passes iff its symbol is in the map, in `RESTRICTIVE` mode iff it is not; a packet
that is not a trade, or any packet while inactive, passes.

## The model

`configure` is given what `Args` reads: `none` when the arguments do not parse, when the
source carries on with empty symbol lists and reports success; the symbol lists are the
words `cp_spacevec` splits them into. `HashMap::insert` returns `false` on a key it
already holds, which `configure` turns into `-1` (`none`). A map key is compared on all
its bytes; the keys `operator=` makes are NUL-padded, so that is `strcmp`. The element
has one port, and a push returns the packets it sends on it.

## What is proved

* `insertSymbols_isSome_iff`: the insertion loop succeeds iff the keys of the words are
  distinct, and then the map's keys are those keys (`keys_of_insertSymbols`).
* `msg_filter_symbol`: a configured filter fails iff two words give one key, as any two
  of `ORDER_SYMBOL_LEN` bytes or more do, their key being all NULs; otherwise, over
  every stream, it sends exactly the packets the mode and the keys let pass.
-/

namespace Synapse.Click

open Theory
open Trade (Symbol ORDER_SYMBOL_LEN cstr)

/-- `MsgFilterSymbol::FilterMode`. -/
inductive FilterMode
  | ALLOWING
  | RESTRICTIVE
  deriving DecidableEq, Repr

/-- `MsgFilterSymbol`. -/
structure MsgFilterSymbol where
  /-- `_symbol_map`, its `bool` values a dummy. -/
  symbolMap : KeyMap Symbol Bool
  /-- `_filter_mode`. -/
  filterMode : FilterMode
  /-- `_active`. -/
  active : Bool

/-- What `Args` reads of the configuration, the two symbol strings split by
`cp_spacevec`. -/
structure FilterArgs where
  /-- `ACTIVE`, if given. -/
  active : Option Bool
  /-- `cp_spacevec (allow_symbols, symbols_vector)`. -/
  allowSymbols : List (List UInt8)
  /-- `cp_spacevec (restrict_symbols, symbols_vector)`. -/
  restrictSymbols : List (List UInt8)
  deriving DecidableEq, Repr

/-- What `Args` leaves when the arguments do not parse: nothing read. -/
def FilterArgs.unparsed : FilterArgs := ⟨none, [], []⟩

namespace MsgFilterSymbol

/-- `MsgFilterSymbol ()`. -/
def new : MsgFilterSymbol := ⟨KeyMap.empty, .RESTRICTIVE, true⟩

/-- `array_wrapper = str` (`ArrayWrapper::operator= (const char *)`): the bytes of the C
string, NUL-padded, or all NULs for a string of `ORDER_SYMBOL_LEN` bytes or more. -/
def arrayWrapperAssign (str : List UInt8) : Symbol :=
  if (cstr str).length ≥ ORDER_SYMBOL_LEN then Vector.replicate ORDER_SYMBOL_LEN 0
  else Vector.ofFn fun j => (cstr str).getD j.val 0

/-- The loop of `configure`: each word inserted as a key; `none` when an insert finds its
key already there. -/
def insertSymbols (m : KeyMap Symbol Bool) : List (List UInt8) → Option (KeyMap Symbol Bool)
  | [] => some m
  | symbol :: symbols =>
    let arrayWrapper := arrayWrapperAssign symbol
    if (m.find? arrayWrapper).isSome then none else insertSymbols (m.insert arrayWrapper true) symbols

/-- `configure (conf, errh)`. -/
def configure (e : MsgFilterSymbol) (args : Option FilterArgs) : Option MsgFilterSymbol :=
  -- `Args` writes nothing when the arguments do not parse
  let args := args.getD FilterArgs.unparsed
  let e := { e with active := args.active.getD e.active }
  let (symbolsVector, filterMode) :=
    if !args.allowSymbols.isEmpty then (args.allowSymbols, FilterMode.ALLOWING)
    else if !args.restrictSymbols.isEmpty then (args.restrictSymbols, FilterMode.RESTRICTIVE)
    else ([], e.filterMode)
  (insertSymbols e.symbolMap symbolsVector).map fun m => { e with symbolMap := m, filterMode := filterMode }

/-- `push (port, p)`: the packets sent. -/
def push (e : MsgFilterSymbol) (p : TradePacket) : List TradePacket :=
  if !e.active then [p]
  else if p.appType ≠ .MSG_TRADE then [p]
  else
    let pair := e.symbolMap.find? p.msg.symbol
    match e.filterMode with
    | .RESTRICTIVE => if pair.isSome then [] else [p]
    | .ALLOWING => if pair.isSome then [p] else []

/-! ### The keys the loop inserts -/

/-- The loop succeeds iff no key is inserted twice or is already there. -/
theorem insertSymbols_isSome_iff :
    ∀ (symbols : List (List UInt8)) (m : KeyMap Symbol Bool),
      (insertSymbols m symbols).isSome ↔ (m.keys ++ symbols.map arrayWrapperAssign).Nodup
  | [], m => by
    simp only [insertSymbols, Option.isSome_some, List.map_nil, List.append_nil, true_iff]
    exact m.nodup
  | symbol :: symbols, m => by
    by_cases hk : (m.find? (arrayWrapperAssign symbol)).isSome
    · -- the key is there: `insert` returns `false`
      simp only [insertSymbols, if_pos hk, Option.isSome_none, Bool.false_eq_true, false_iff]
      rw [List.nodup_append]
      exact fun h => h.2.2 _ ((KeyMap.mem_keys m).2 hk) _ List.mem_cons_self rfl
    · have hk' : arrayWrapperAssign symbol ∉ m.keys := fun h => hk ((KeyMap.mem_keys m).1 h)
      simp only [insertSymbols, if_neg hk]
      rw [insertSymbols_isSome_iff symbols, KeyMap.keys_insert_of_not_mem _ hk', List.map_cons, List.append_assoc,
        List.singleton_append]

theorem keys_of_insertSymbols :
    ∀ (symbols : List (List UInt8)) {m m' : KeyMap Symbol Bool},
      insertSymbols m symbols = some m' → m'.keys = m.keys ++ symbols.map arrayWrapperAssign
  | [], m, m', h => by
    obtain rfl := Option.some.inj h
    simp
  | symbol :: symbols, m, m', h => by
    by_cases hk : (m.find? (arrayWrapperAssign symbol)).isSome
    · simp [insertSymbols, hk] at h
    · have hk' : arrayWrapperAssign symbol ∉ m.keys := fun h => hk ((KeyMap.mem_keys m).1 h)
      simp only [insertSymbols, if_neg hk] at h
      rw [keys_of_insertSymbols symbols h, KeyMap.keys_insert_of_not_mem _ hk', List.map_cons, List.append_assoc,
        List.singleton_append]

/-! ### The filter over a stream -/

/-- The words the configuration inserts, and the mode it sets, from a fresh element. -/
def chosenSymbols (args : FilterArgs) : List (List UInt8) × FilterMode :=
  if args.allowSymbols ≠ [] then (args.allowSymbols, .ALLOWING) else (args.restrictSymbols, .RESTRICTIVE)

/-- Whether a packet passes a filter with the mode and the keys given. -/
def passes (active : Bool) (filterMode : FilterMode) (keys : List Symbol) (p : TradePacket) : Bool :=
  !active || p.appType != .MSG_TRADE || ((keys.any fun k => k = p.msg.symbol) == (filterMode == .ALLOWING))

/-- Arguments that do not parse configure the element as no arguments do. -/
theorem configure_getD (args : Option FilterArgs) :
    new.configure args = new.configure (some (args.getD FilterArgs.unparsed)) := by
  cases args <;> rfl

theorem configure_new (args : FilterArgs) :
    new.configure (some args) =
      (insertSymbols KeyMap.empty (chosenSymbols args).1).map fun m =>
        ⟨m, (chosenSymbols args).2, args.active.getD true⟩ := by
  unfold configure chosenSymbols
  by_cases ha : args.allowSymbols = []
  · by_cases hr : args.restrictSymbols = []
    · simp [ha, hr, new, insertSymbols]
    · simp [ha, hr, new]
  · simp [ha, new]

/-- A push sends the packet iff it passes. -/
theorem push_eq (e : MsgFilterSymbol) (p : TradePacket) :
    e.push p = if passes e.active e.filterMode e.symbolMap.keys p then [p] else [] := by
  unfold push passes
  dsimp only
  rw [KeyMap.any_keys_eq]
  cases e.active
  · simp
  · by_cases hp : p.appType = .MSG_TRADE
    · cases e.filterMode <;> cases e.symbolMap.find? p.msg.symbol <;> simp [hp]
    · simp [hp]

/-- **What `MsgFilterSymbol` does.** From the arguments as parsed (none read when they
do not parse), `configure` fails iff two of the chosen words give one key (any two words
of `ORDER_SYMBOL_LEN` bytes or more do); when it succeeds, the element sends, of every
stream of packets, exactly the packets that pass: those not a trade, or any while
inactive, and the trades whose symbol is a key in `ALLOWING` mode, or is none in
`RESTRICTIVE` mode. -/
theorem msg_filter_symbol (args : Option FilterArgs) :
    let a := args.getD FilterArgs.unparsed
    ((new.configure args).isSome ↔ ((chosenSymbols a).1.map arrayWrapperAssign).Nodup) ∧
      ∀ e, new.configure args = some e → ∀ ps : List TradePacket,
        ps.flatMap e.push =
          ps.filter (passes (a.active.getD true) (chosenSymbols a).2 ((chosenSymbols a).1.map arrayWrapperAssign)) := by
  intro a
  rw [configure_getD, configure_new]
  refine ⟨?_, fun e he ps => ?_⟩
  · rw [Option.isSome_map, insertSymbols_isSome_iff, KeyMap.keys_empty, List.nil_append]
  · obtain ⟨m, hm, rfl⟩ := Option.map_eq_some_iff.1 he
    have hkeys := keys_of_insertSymbols _ hm
    rw [KeyMap.keys_empty, List.nil_append] at hkeys
    -- each packet is sent iff it passes, so the run is the filter
    induction ps with
    | nil => rfl
    | cons p ps ih =>
      rw [List.flatMap_cons, ih, push_eq, List.filter_cons, hkeys]
      split <;> rfl

end MsgFilterSymbol

end Synapse.Click
