import Synapse.Click.IndicatorBase
import Synapse.Trade.TradeProcessor

/-!
# What the indicator elements share

`MsgIndicator` (`include/click/appmsgs.hh`) is the message of an indicator stream: a
symbol, a value and a timestamp. The elements that read such streams
(`elements/standard/synapseelement.hh`) rewrite a packet with
`populate_msg_indicator`, keep a state per symbol found by `get_or_create`, and,
when they join two streams, keep one packet aside in a `SavedPacket` with the
`PacketPort` it came on.

## The model

A packet is what the elements read of it: its length, its application type and the
`MsgIndicator` at the front of its data (`IndicatorPacket`), or the `MsgTrade` for the
elements that read trades (`TradePacket`). A map of symbols is a `Theory.KeyMap`,
whose keys are compared on all their bytes: `strcmp` on the NUL-padded symbols the
streams carry. `get_or_create` gives the value of a symbol, a default one where
there is none; the element writes the value back through the pointer it returns,
which the model does by an `insert`.
-/

namespace Synapse.Click

open Trade Theory

/-- `MsgIndicator`. -/
structure MsgIndicator where
  /-- `_symbol`. -/
  symbol : Symbol
  /-- `_indicator`. -/
  indicator : Fixedpt
  /-- `_timestamp`. -/
  timestamp : UInt64
  deriving DecidableEq, Repr

/-- `sizeof (MsgIndicator)` under `#pragma pack(1)`: the ten bytes of the symbol
and two words, with no padding. -/
def MSG_INDICATOR_SIZE : ℕ := 26

/-- A packet of an indicator stream, as the elements read it. -/
structure IndicatorPacket where
  /-- `length ()`. -/
  length : ℕ
  /-- `get_packet_app_type ()`. -/
  appType : PacketAppType
  /-- The `MsgIndicator` at `data ()`. -/
  msg : MsgIndicator
  deriving DecidableEq, Repr

/-- `SynapseElement::populate_msg_indicator (packet, symbol, indicator, timestamp)`:
the packet rewritten as that message, unless it is too short for one. -/
def populateMsgIndicator (p : IndicatorPacket) (symbol : Symbol) (indicator : Fixedpt) (timestamp : UInt64) :
    Option IndicatorPacket :=
  if MSG_INDICATOR_SIZE > p.length then none
  else some ⟨p.length, .MSG_INDICATOR, ⟨symbol, indicator, timestamp⟩⟩

theorem populateMsgIndicator_of_le {p : IndicatorPacket} (h : MSG_INDICATOR_SIZE ≤ p.length) (symbol : Symbol)
    (indicator : Fixedpt) (timestamp : UInt64) :
    populateMsgIndicator p symbol indicator timestamp = some ⟨p.length, .MSG_INDICATOR, ⟨symbol, indicator, timestamp⟩⟩ :=
  if_neg (not_lt.2 h)

/-- A packet of the trade stream, as the elements read it. -/
structure TradePacket where
  /-- `length ()`. -/
  length : ℕ
  /-- `get_packet_app_type ()`. -/
  appType : PacketAppType
  /-- The `MsgTrade` at `data ()`. -/
  msg : MsgTrade
  deriving DecidableEq, Repr

/-- `populate_msg_indicator` on a packet of the trade stream: it reads only the length,
so the packet is the one it is rewritten into as far as the check goes. -/
def TradePacket.populateMsgIndicator (p : TradePacket) (symbol : Symbol) (indicator : Fixedpt)
    (timestamp : UInt64) : Option IndicatorPacket :=
  Click.populateMsgIndicator ⟨p.length, p.appType, ⟨symbol, indicator, timestamp⟩⟩ symbol indicator timestamp

/-- `SynapseElement::get_or_create (map, symbol)`: the value of `symbol`, or a
default one. -/
def getOrCreate {β : Type} [Inhabited β] (map : KeyMap Symbol β) (symbol : Symbol) : β :=
  (map.find? symbol).getD default

/-- `Synapse::PacketPort`. -/
inductive PacketPort where
  | NO_PORT
  | TR_PORT
  | DM_PORT
  | PDI_PORT
  | MDI_PORT
  deriving DecidableEq, Repr

/-- `SavedPacket`: a clone of a packet kept aside, and the port it came on. -/
structure SavedPacket where
  /-- `_packet`, `NULL` for none. -/
  packet : Option IndicatorPacket
  /-- `_port`. -/
  port : PacketPort
  deriving DecidableEq, Repr

/-- `SavedPacket ()`. -/
def SavedPacket.new : SavedPacket := ⟨none, .NO_PORT⟩

end Synapse.Click
