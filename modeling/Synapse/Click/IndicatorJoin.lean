import Synapse.Click.SynapseElement
import Synapse.Theory.StampJoin

/-!
# `DxIndicator` and `DirectionalIndex`, joins of two indicator streams

`DxIndicator` (`elements/standard/dx_indicator.cc`) reads the streams of `+DI` and
`-DI` on two ports and sends `DX = 100 |+DI - -DI| / (+DI + -DI)` of each pair with one
timestamp; `DirectionalIndex` (`directional_index.cc`) reads `TR` and `DM` and sends
`DM / TR`. Both push the same way. A packet is kept aside in a `SavedPacket` until one
of the other port arrives: one of the kept one's port replaces it, an older one of the
other port is dropped, a newer one is kept in its place, and one with the same
timestamp is joined with it, after which the slot is emptied.

## The model

`joinPush` is `push` of both, with the parameters in which they differ: how a port is
detected, the order of the two `PacketPort`s in the computation, and the message made
of a pair. `DxIndicator.push` and `DirectionalIndex.push` are `joinPush` at their own
values. Reading the saved packet of an empty slot, the `NULL` dereference of step 3,
has no value; the `_debug` and `_name` chatter is left out.

## What is proved

* `joinSaved_refines`: on a slot as `push` leaves it, steps 2 to 7 are one step of
  `Theory.joinStep` on the messages tagged with their port; `runSteps_joinPush`: so is
  every run, which sends what `Theory.joinedAll` says.
* `joinLaw_of_joinedAll`: what it sends meets `JoinLaw`. Each packet sent is made of
  one message of each port with one timestamp, and a timestamp both ports deliver is
  sent at its second message exactly when no later message came before it, and at no
  other position.
* `indicator_join_law`: both elements, configured on two ports and fed messages whose
  timestamps increase on each port, meet `JoinLaw`, and their slot is empty after each
  packet they send.
-/

namespace Synapse.Click

open Trade Theory

/-! ### `push` of a join -/

/-- `detect_packet_port (packet_port)` of an element that tests `first` before `second`:
`NO_PORT` when a port is not configured or for another port. -/
def detectPacketPort (first second : ℤ) (firstPort secondPort : PacketPort) (port : ℕ) : PacketPort :=
  if first < 0 ∨ second < 0 then .NO_PORT
  else if (port : ℤ) = first then firstPort
  else if (port : ℤ) = second then secondPort
  else .NO_PORT

/-- Steps 4 to 6 of `push`: the saved packet `q` stands for its port, the new one `p`
for the other; `p` is rewritten as `msg` of the packets of `pa` and `pb` and sent on
port `0`, unless it is too short. -/
def emitPacket (pa pb : PacketPort) (msg : IndicatorPacket → IndicatorPacket → MsgIndicator)
    (savedPort : PacketPort) (q p : IndicatorPacket) : Option (ℕ × IndicatorPacket) :=
  let m := msg (if savedPort = pa then q else p) (if savedPort = pb then q else p)
  (populateMsgIndicator p m.symbol m.indicator m.timestamp).map fun r => (0, r)

/-- Steps 3 to 7 of `push`: the new packet `p` of the port `pp` against the saved one. -/
def joinCompare (pa pb : PacketPort) (msg : IndicatorPacket → IndicatorPacket → MsgIndicator)
    (saved : SavedPacket) (pp : PacketPort) (p : IndicatorPacket) : Option (SavedPacket × Option (ℕ × IndicatorPacket)) :=
  match saved.packet with
  | none => none
  | some q =>
    if q.msg.timestamp > p.msg.timestamp then some (saved, none)
    else if p.msg.timestamp > q.msg.timestamp then some (⟨some p, pp⟩, none)
    else some (SavedPacket.new, emitPacket pa pb msg saved.port q p)

/-- Steps 2 to 7 of `push`. -/
def joinSaved (pa pb : PacketPort) (msg : IndicatorPacket → IndicatorPacket → MsgIndicator)
    (saved : SavedPacket) (pp : PacketPort) (p : IndicatorPacket) : Option (SavedPacket × Option (ℕ × IndicatorPacket)) :=
  if saved.port = pp then
    match saved.packet with
    | some _ => some ({ saved with packet := some p }, none)
    | none => joinCompare pa pb msg saved pp p
  else if saved.port = .NO_PORT then some (⟨some p, pp⟩, none)
  else joinCompare pa pb msg saved pp p

/-- `push (port, p)` of a join: the new slot and the packet sent, with its port. -/
def joinPush (detect : ℕ → PacketPort) (pa pb : PacketPort) (msg : IndicatorPacket → IndicatorPacket → MsgIndicator)
    (active : Bool) (saved : SavedPacket) (port : ℕ) (p : IndicatorPacket) :
    Option (SavedPacket × Option (ℕ × IndicatorPacket)) :=
  if !active then some (saved, some (port, p))
  else if p.appType ≠ .MSG_INDICATOR then some (saved, some (0, p))
  else if detect port = .NO_PORT then some (saved, some (port, p))
  else joinSaved pa pb msg saved (detect port) p

/-! ### The two elements -/

/-- `DxIndicator`. -/
structure DxIndicator where
  /-- `_pdi_port`. -/
  pdiPort : ℤ
  /-- `_mdi_port`. -/
  mdiPort : ℤ
  /-- `_saved_packet`. -/
  savedPacket : SavedPacket
  /-- `_active`. -/
  active : Bool

/-- `DxIndicator ()`: both ports `NO_PORT`, which is `0`. -/
def DxIndicator.new : DxIndicator := ⟨0, 0, SavedPacket.new, true⟩

/-- `DxIndicator::configure` on arguments that parse: `ACTIVE`, `PDI_PORT` and
`MDI_PORT`. -/
def DxIndicator.configure (active : Bool) (pdiPort mdiPort : ℤ) : DxIndicator :=
  { DxIndicator.new with pdiPort, mdiPort, active }

/-- `DxIndicator::detect_packet_port`: `-DI` is tested first. -/
def DxIndicator.detectPacketPort (e : DxIndicator) (port : ℕ) : PacketPort :=
  Click.detectPacketPort e.mdiPort e.pdiPort .MDI_PORT .PDI_PORT port

/-- Step 5 of `DxIndicator::push`: `100 |pdi - mdi| / (pdi + mdi)`, `0` where the sum
is `0`. -/
def DxIndicator.dx (pdi mdi : Fixedpt) : Fixedpt :=
  let partTwo := pdi + mdi
  if partTwo ≠ 0 then fixedptMul (fixedptFromint 100) (fixedptDiv (fixedptAbs (pdi - mdi)) partTwo) else 0

/-- Steps 5 and 6 of `DxIndicator::push`: the message made of `+DI` and `-DI`, with the
symbol and timestamp of `-DI`. -/
def DxIndicator.dxMsg (pdi mdi : IndicatorPacket) : MsgIndicator :=
  ⟨mdi.msg.symbol, DxIndicator.dx pdi.msg.indicator mdi.msg.indicator, mdi.msg.timestamp⟩

/-- `DxIndicator::push (port, p)`. -/
def DxIndicator.push (e : DxIndicator) (port : ℕ) (p : IndicatorPacket) :
    Option (DxIndicator × Option (ℕ × IndicatorPacket)) :=
  (joinPush e.detectPacketPort .PDI_PORT .MDI_PORT DxIndicator.dxMsg e.active e.savedPacket port p).map
    fun r => ({ e with savedPacket := r.1 }, r.2)

/-- A stream of `(port, packet)` pushes. -/
def DxIndicator.run (e : DxIndicator) (inputs : List (ℕ × IndicatorPacket)) :
    Option (DxIndicator × List (Option (ℕ × IndicatorPacket))) :=
  runSteps (fun e x => e.push x.1 x.2) e inputs

/-- `DirectionalIndex`. -/
structure DirectionalIndex where
  /-- `_dm_port`. -/
  dmPort : ℤ
  /-- `_tr_port`. -/
  trPort : ℤ
  /-- `_saved_packet`. -/
  savedPacket : SavedPacket
  /-- `_active`. -/
  active : Bool

/-- `DirectionalIndex ()`: both ports `-1`. -/
def DirectionalIndex.new : DirectionalIndex := ⟨-1, -1, SavedPacket.new, true⟩

/-- `DirectionalIndex::configure` on arguments that parse: `ACTIVE`, `TR_PORT` and
`DM_PORT`. -/
def DirectionalIndex.configure (active : Bool) (trPort dmPort : ℤ) : DirectionalIndex :=
  { DirectionalIndex.new with trPort, dmPort, active }

/-- `DirectionalIndex::detect_packet_port`: `TR` is tested first. -/
def DirectionalIndex.detectPacketPort (e : DirectionalIndex) (port : ℕ) : PacketPort :=
  Click.detectPacketPort e.trPort e.dmPort .TR_PORT .DM_PORT port

/-- Steps 5 and 6 of `DirectionalIndex::push`: `DM / TR`, `0` where `TR` is `0`, with
the symbol and timestamp of `TR`. -/
def DirectionalIndex.diMsg (tr dm : IndicatorPacket) : MsgIndicator :=
  ⟨tr.msg.symbol, if tr.msg.indicator ≠ 0 then fixedptDiv dm.msg.indicator tr.msg.indicator else 0,
    tr.msg.timestamp⟩

/-- `DirectionalIndex::push (port, p)`. -/
def DirectionalIndex.push (e : DirectionalIndex) (port : ℕ) (p : IndicatorPacket) :
    Option (DirectionalIndex × Option (ℕ × IndicatorPacket)) :=
  (joinPush e.detectPacketPort .TR_PORT .DM_PORT DirectionalIndex.diMsg e.active e.savedPacket port p).map
    fun r => ({ e with savedPacket := r.1 }, r.2)

/-- A stream of `(port, packet)` pushes. -/
def DirectionalIndex.run (e : DirectionalIndex) (inputs : List (ℕ × IndicatorPacket)) :
    Option (DirectionalIndex × List (Option (ℕ × IndicatorPacket))) :=
  runSteps (fun e x => e.push x.1 x.2) e inputs

/-! ### The law of a join -/

/-- The packet sent for the pair `a` of the first port and `b` of the second, made of
the packet `p` that arrived last. -/
def joinOut (msg : IndicatorPacket → IndicatorPacket → MsgIndicator) (p a b : IndicatorPacket) :
    ℕ × IndicatorPacket :=
  (0, ⟨p.length, .MSG_INDICATOR, msg a b⟩)

/-- The law of a join of the ports `na` and `nb`, of a run over `inputs` that sent
`outs`. Each packet sent at `k` is made of a message of each port with one
timestamp, the later of which arrived at `k`. For a timestamp that both ports deliver,
at `i` and `j`, a packet is sent at the later of the two exactly when no message before
it is later, and no packet with that timestamp is sent anywhere else. -/
def JoinLaw (na nb : ℕ) (msg : IndicatorPacket → IndicatorPacket → MsgIndicator)
    (inputs : List (ℕ × IndicatorPacket)) (outs : List (Option (ℕ × IndicatorPacket))) : Prop :=
  (∀ k o, outs[k]? = some (some o) →
    ∃ (i j : ℕ) (a b : IndicatorPacket), inputs[i]? = some (na, a) ∧ inputs[j]? = some (nb, b) ∧ a.msg.timestamp = b.msg.timestamp ∧
      max i j = k ∧ o = joinOut msg (if i < j then b else a) a b) ∧
  ∀ (i j : ℕ) (a b : IndicatorPacket), inputs[i]? = some (na, a) → inputs[j]? = some (nb, b) → a.msg.timestamp = b.msg.timestamp →
    (outs[max i j]? = some (some (joinOut msg (if i < j then b else a) a b)) ↔
      ∀ y ∈ inputs.take (max i j), y.2.msg.timestamp ≤ b.msg.timestamp) ∧
    ∀ (k : ℕ) (o : ℕ × IndicatorPacket), outs[k]? = some (some o) → o.2.msg.timestamp = b.msg.timestamp →
      k = max i j

/-! ### A join as the library's -/

/-- What the join compares of a message: its timestamp. -/
def stampOf (m : PacketPort × IndicatorPacket) : ℕ := m.2.msg.timestamp.toNat

/-- A push as the join sees it: whether it came on `pa`, its port and its packet. -/
def tagInput (detect : ℕ → PacketPort) (pa : PacketPort) (x : ℕ × IndicatorPacket) :
    Bool × PacketPort × IndicatorPacket :=
  (decide (detect x.1 = pa), detect x.1, x.2)

/-- The slot as the join sees it. -/
def SavedPacket.view (pa : PacketPort) (saved : SavedPacket) : Option (Bool × PacketPort × IndicatorPacket) :=
  saved.packet.map fun q => (decide (saved.port = pa), saved.port, q)

/-- A slot as `push` leaves it: empty, or a packet of one of the two ports. -/
def SavedPacket.Wf (pa pb : PacketPort) (saved : SavedPacket) : Prop :=
  saved = SavedPacket.new ∨ ∃ q, saved.packet = some q ∧ (saved.port = pa ∨ saved.port = pb)

/-- The packet sent for a pair the join emits: the kept message with its port, then
the new one. -/
def emitPair (pa pb : PacketPort) (msg : IndicatorPacket → IndicatorPacket → MsgIndicator)
    (pr : (PacketPort × IndicatorPacket) × (PacketPort × IndicatorPacket)) : Option (ℕ × IndicatorPacket) :=
  emitPacket pa pb msg pr.1.1 pr.1.2 pr.2.2

@[simp] theorem stampOf_lt_stampOf (s s' : PacketPort) (q q' : IndicatorPacket) :
    stampOf (s, q) < stampOf (s', q') ↔ q.msg.timestamp < q'.msg.timestamp :=
  UInt64.lt_iff_toNat_lt.symm

theorem stampOf_le_stampOf (s s' : PacketPort) (q q' : IndicatorPacket) :
    stampOf (s, q) ≤ stampOf (s', q') ↔ q.msg.timestamp ≤ q'.msg.timestamp :=
  UInt64.le_iff_toNat_le.symm

theorem stampOf_eq_stampOf (s s' : PacketPort) (q q' : IndicatorPacket) :
    stampOf (s, q) = stampOf (s', q') ↔ q.msg.timestamp = q'.msg.timestamp :=
  UInt64.toNat_inj

section Join

variable {pa pb : PacketPort} (msg : IndicatorPacket → IndicatorPacket → MsgIndicator)

/-! #### One push -/

theorem joinSaved_new {pp : PacketPort} (hpp : pp ≠ .NO_PORT) (p : IndicatorPacket) :
    joinSaved pa pb msg SavedPacket.new pp p = some (⟨some p, pp⟩, none) := by
  have hne : PacketPort.NO_PORT ≠ pp := Ne.symm hpp
  simp [joinSaved, SavedPacket.new, hne]

theorem joinSaved_same (pp : PacketPort) (q p : IndicatorPacket) :
    joinSaved pa pb msg ⟨some q, pp⟩ pp p = some (⟨some p, pp⟩, none) := by
  simp [joinSaved]

/-- A packet of the other port: steps 3 to 7 on the timestamps. -/
theorem joinSaved_other {s pp : PacketPort} (hsp : s ≠ pp) (hs : s ≠ .NO_PORT) (q p : IndicatorPacket) :
    joinSaved pa pb msg ⟨some q, s⟩ pp p =
      if p.msg.timestamp < q.msg.timestamp then some (⟨some q, s⟩, none)
      else if q.msg.timestamp < p.msg.timestamp then some (⟨some p, pp⟩, none)
      else some (SavedPacket.new, emitPacket pa pb msg s q p) := by
  simp [joinSaved, joinCompare, hsp, hs]

/-- Two different ports of the two are told apart by their tags. -/
theorem decide_ne_of_ne {s pp : PacketPort} (hs : s = pa ∨ s = pb) (hpp : pp = pa ∨ pp = pb) (h : s ≠ pp) :
    decide (s = pa) ≠ decide (pp = pa) := by
  rcases hs with rfl | rfl <;> rcases hpp with rfl | rfl
  · exact absurd rfl h
  · simpa using Ne.symm h
  · simpa using h
  · exact absurd rfl h

/-- **One push.** On a slot as `push` leaves it, steps 2 to 7 for a packet of one of
the two ports are one step of `joinStep` on the views, and send the packet made of the
pair it emits. -/
theorem joinSaved_refines (ha : pa ≠ .NO_PORT) (hb : pb ≠ .NO_PORT) {saved : SavedPacket}
    (hwf : saved.Wf pa pb) {pp : PacketPort} (hpp : pp = pa ∨ pp = pb) (p : IndicatorPacket) :
    ∃ saved', joinSaved pa pb msg saved pp p =
        some (saved', (joinStep stampOf (saved.view pa) (decide (pp = pa), pp, p)).2.bind (emitPair pa pb msg)) ∧
      saved'.Wf pa pb ∧ saved'.view pa = (joinStep stampOf (saved.view pa) (decide (pp = pa), pp, p)).1 := by
  have hpp0 : pp ≠ .NO_PORT := by
    rcases hpp with rfl | rfl
    · exact ha
    · exact hb
  rcases hwf with rfl | ⟨q, hq, hs⟩
  · exact ⟨⟨some p, pp⟩, joinSaved_new msg hpp0 p, .inr ⟨p, rfl, hpp⟩, rfl⟩
  obtain ⟨packet, s⟩ := saved
  obtain rfl : packet = some q := hq
  change s = pa ∨ s = pb at hs
  have hview : SavedPacket.view pa ⟨some q, s⟩ = some (decide (s = pa), s, q) := rfl
  by_cases hsp : s = pp
  · -- a packet of the kept one's port replaces it
    subst hsp
    have hjoin : joinStep stampOf (SavedPacket.view pa ⟨some q, s⟩) (decide (s = pa), s, p) =
        (some (decide (s = pa), s, p), none) := by
      rw [hview]
      simp [joinStep]
    rw [hjoin]
    exact ⟨⟨some p, s⟩, joinSaved_same msg s q p, .inr ⟨p, rfl, hs⟩, rfl⟩
  have hs0 : s ≠ .NO_PORT := by
    rcases hs with h | h <;> rw [h]
    · exact ha
    · exact hb
  rw [joinSaved_other msg hsp hs0 q p, hview]
  simp only [joinStep, if_neg (decide_ne_of_ne hs hpp hsp), stampOf_lt_stampOf]
  split_ifs
  · exact ⟨_, rfl, .inr ⟨q, rfl, hs⟩, rfl⟩
  · exact ⟨_, rfl, .inr ⟨p, rfl, hpp⟩, rfl⟩
  · exact ⟨_, rfl, .inl rfl, rfl⟩

theorem joinPush_of_detected (detect : ℕ → PacketPort) {p : IndicatorPacket} (hp : p.appType = .MSG_INDICATOR)
    {port : ℕ} (hd : detect port ≠ .NO_PORT) (saved : SavedPacket) :
    joinPush detect pa pb msg true saved port p = joinSaved pa pb msg saved (detect port) p := by
  simp [joinPush, hp, hd]

/-! #### Every run -/

variable (detect : ℕ → PacketPort)

/-- **Every run** of pushes of packets of the two ports, from an empty slot, sends the
packets made of what `joinedAll` emits, and leaves a slot whose view holds what
`SlotInv` says. -/
theorem runSteps_joinPush (ha : pa ≠ .NO_PORT) (hb : pb ≠ .NO_PORT) {inputs : List (ℕ × IndicatorPacket)}
    (hin : ∀ x ∈ inputs, x.2.appType = .MSG_INDICATOR ∧ (detect x.1 = pa ∨ detect x.1 = pb))
    (hmono : PortMono stampOf (inputs.map (tagInput detect pa))) :
    ∃ saved', runSteps (fun s x => joinPush detect pa pb msg true s x.1 x.2) SavedPacket.new inputs =
        some (saved', (joinedAll stampOf [] (inputs.map (tagInput detect pa))).map (Option.bind · (emitPair pa pb msg))) ∧
      saved'.Wf pa pb ∧ SlotInv stampOf (inputs.map (tagInput detect pa)) (saved'.view pa) := by
  -- the code's run and the library's, in lockstep
  have hstep : ∀ saved slot (x : ℕ × IndicatorPacket) y, (saved.Wf pa pb ∧ saved.view pa = slot) →
      ((x.2.appType = .MSG_INDICATOR ∧ (detect x.1 = pa ∨ detect x.1 = pb)) ∧ y = tagInput detect pa x) →
      ∃ saved' slot' o o', joinPush detect pa pb msg true saved x.1 x.2 = some (saved', o) ∧
        some (joinStep stampOf slot y) = some (slot', o') ∧ (saved'.Wf pa pb ∧ saved'.view pa = slot') ∧
        o = o'.bind (emitPair pa pb msg) := by
    rintro saved slot ⟨port, p⟩ y ⟨hwf, rfl⟩ ⟨⟨hp, hd⟩, rfl⟩
    have hd0 : detect port ≠ .NO_PORT := by
      rcases hd with h | h <;> rw [h]
      · exact ha
      · exact hb
    obtain ⟨saved', hpush, hwf', hview⟩ := joinSaved_refines msg ha hb hwf hd p
    exact ⟨saved', _, _, _, (joinPush_of_detected msg detect hp hd0 saved).trans hpush, rfl, ⟨hwf', hview⟩, rfl⟩
  have hrel : List.Forall₂ (fun (x : ℕ × IndicatorPacket) y =>
      (x.2.appType = .MSG_INDICATOR ∧ (detect x.1 = pa ∨ detect x.1 = pb)) ∧ y = tagInput detect pa x)
      inputs (inputs.map (tagInput detect pa)) := by
    rw [List.forall₂_map_right_iff]
    exact List.forall₂_same.2 fun x hx => ⟨hin x hx, rfl⟩
  obtain ⟨saved', slot', os, os', hrun, hrun', ⟨hwf', hview⟩, hE⟩ :=
    runSteps_forall₂ _ _ _ hstep hrel SavedPacket.new none ⟨.inl rfl, rfl⟩
  -- the library's run emits `joinedAll`
  have hjoin : ∃ slot, runSteps (fun s x => some (joinStep stampOf s x)) none (inputs.map (tagInput detect pa)) =
      some (slot, joinedAll stampOf [] (inputs.map (tagInput detect pa))) ∧
      SlotInv stampOf ([] ++ inputs.map (tagInput detect pa)) slot :=
    runSteps_joinStep (by rwa [List.nil_append]) (fun _ hy => absurd hy List.not_mem_nil)
  obtain ⟨slot, hrun'', hinv⟩ := hjoin
  obtain ⟨rfl, rfl⟩ := Prod.mk.inj (Option.some.inj (hrun'.symm.trans hrun''))
  have hos := List.forall₂_map_right_iff.2 hE
  rw [List.forall₂_eq_eq_eq] at hos
  refine ⟨saved', by rw [hrun, hos], hwf', ?_⟩
  rw [hview]
  simpa using hinv


/-! #### The law -/

/-- The two configured ports of a join: different numbers, detected as two different
ports `pa` and `pb`. -/
structure JoinPorts (detect : ℕ → PacketPort) (pa pb : PacketPort) (na nb : ℕ) : Prop where
  ne : na ≠ nb
  pa_ne_pb : pa ≠ pb
  pa_ne : pa ≠ .NO_PORT
  pb_ne : pb ≠ .NO_PORT
  detect_na : detect na = pa
  detect_nb : detect nb = pb

theorem SavedPacket.eq_new_of_view {saved : SavedPacket} (hwf : saved.Wf pa pb) (h : saved.view pa = none) :
    saved = SavedPacket.new := by
  rcases hwf with hnew | ⟨q, hq, -⟩
  · exact hnew
  · simp [SavedPacket.view, hq] at h

theorem getElem?_tagInput {inputs : List (ℕ × IndicatorPacket)} {i : ℕ} {x : ℕ × IndicatorPacket}
    (h : inputs[i]? = some x) : (inputs.map (tagInput detect pa))[i]? = some (tagInput detect pa x) := by
  rw [List.getElem?_map, h, Option.map_some]

/-- What is sent at `k`: the packet made of the pair the join emits there. -/
theorem getElem?_sent (inputs : List (ℕ × IndicatorPacket)) {k : ℕ} {x : ℕ × IndicatorPacket}
    (hk : inputs[k]? = some x) :
    ((joinedAll stampOf [] (inputs.map (tagInput detect pa))).map (Option.bind · (emitPair pa pb msg)))[k]? =
      some ((joined stampOf ((inputs.map (tagInput detect pa)).take k) (tagInput detect pa x)).bind
        (emitPair pa pb msg)) := by
  simp [List.getElem?_map, getElem?_joinedAll, hk]

theorem exists_of_sent (inputs : List (ℕ × IndicatorPacket)) {k : ℕ} {v : Option (ℕ × IndicatorPacket)}
    (h : ((joinedAll stampOf [] (inputs.map (tagInput detect pa))).map (Option.bind · (emitPair pa pb msg)))[k]? =
      some v) :
    ∃ x, inputs[k]? = some x ∧
      (joined stampOf ((inputs.map (tagInput detect pa)).take k) (tagInput detect pa x)).bind (emitPair pa pb msg) = v := by
  cases hx : inputs[k]? with
  | none => simp [List.getElem?_map, getElem?_joinedAll, hx] at h
  | some x =>
    rw [getElem?_sent msg detect inputs hx] at h
    exact ⟨x, rfl, Option.some.inj h⟩

/-- What no message before `n` is later than, read on the tags. -/
theorem forall_stampOf_le_iff (inputs : List (ℕ × IndicatorPacket)) (n : ℕ) (s : PacketPort) (b : IndicatorPacket) :
    (∀ y ∈ (inputs.map (tagInput detect pa)).take n, stampOf y.2 ≤ stampOf (s, b)) ↔
      ∀ y ∈ inputs.take n, y.2.msg.timestamp ≤ b.msg.timestamp := by
  rw [← List.map_take, List.forall_mem_map]
  exact forall₂_congr fun y _ => stampOf_le_stampOf _ _ _ _

variable {na nb : ℕ} (hp : JoinPorts detect pa pb na nb)
include hp

theorem tagInput_na (p : IndicatorPacket) : tagInput detect pa (na, p) = (true, pa, p) := by
  simp [tagInput, hp.detect_na]

theorem tagInput_nb (p : IndicatorPacket) : tagInput detect pa (nb, p) = (false, pb, p) := by
  simp [tagInput, hp.detect_nb, Ne.symm hp.pa_ne_pb]

/-- Of two pushes on the two ports, the tags tell the ports apart. -/
theorem eq_of_tagInput {x y : ℕ × IndicatorPacket} (hx : x.1 = na ∨ x.1 = nb) (hy : y.1 = na ∨ y.1 = nb)
    (h : (tagInput detect pa x).1 = (tagInput detect pa y).1) : x.1 = y.1 := by
  obtain ⟨nx, px⟩ := x
  obtain ⟨ny, py⟩ := y
  rcases hx with rfl | rfl <;> rcases hy with rfl | rfl
  · rfl
  · simp [tagInput_na detect hp, tagInput_nb detect hp] at h
  · simp [tagInput_na detect hp, tagInput_nb detect hp] at h
  · rfl

theorem portMono_tagInput {inputs : List (ℕ × IndicatorPacket)} (hports : ∀ x ∈ inputs, x.1 = na ∨ x.1 = nb)
    (hmono : inputs.Pairwise fun x y => x.1 = y.1 → x.2.msg.timestamp < y.2.msg.timestamp) :
    PortMono stampOf (inputs.map (tagInput detect pa)) := by
  rw [PortMono, List.pairwise_map]
  refine hmono.imp_of_mem fun hx hy hlt htag => ?_
  exact (stampOf_lt_stampOf _ _ _ _).2 (hlt (eq_of_tagInput detect hp (hports _ hx) (hports _ hy) htag))

/-- The packet sent for a pair with the new packet on `na`. -/
theorem emitPacket_of_nb_saved {q p : IndicatorPacket} (hlen : MSG_INDICATOR_SIZE ≤ p.length) :
    emitPacket pa pb msg pb q p = some (joinOut msg p p q) := by
  simp [emitPacket, Ne.symm hp.pa_ne_pb, populateMsgIndicator_of_le hlen, joinOut]

/-- The packet sent for a pair with the new packet on `nb`. -/
theorem emitPacket_of_na_saved {q p : IndicatorPacket} (hlen : MSG_INDICATOR_SIZE ≤ p.length) :
    emitPacket pa pb msg pa q p = some (joinOut msg p q p) := by
  simp [emitPacket, hp.pa_ne_pb, populateMsgIndicator_of_le hlen, joinOut]

variable {inputs : List (ℕ × IndicatorPacket)}
  (hin : ∀ x ∈ inputs, (x.1 = na ∨ x.1 = nb) ∧ x.2.appType = .MSG_INDICATOR ∧ MSG_INDICATOR_SIZE ≤ x.2.length)
  (hmono : inputs.Pairwise fun x y => x.1 = y.1 → x.2.msg.timestamp < y.2.msg.timestamp)
include hin hmono

omit hmono in
theorem detected_of_mem {x : ℕ × IndicatorPacket} (hx : x ∈ inputs) :
    x.2.appType = .MSG_INDICATOR ∧ (detect x.1 = pa ∨ detect x.1 = pb) := by
  obtain ⟨hport, happ, -⟩ := hin x hx
  refine ⟨happ, ?_⟩
  rcases hport with h | h <;> rw [h]
  · exact .inl hp.detect_na
  · exact .inr hp.detect_nb

omit hmono in
/-- **(i) What is sent** is made of a message of each port with one timestamp, the
later of which arrived where it is sent. -/
theorem joinLaw_sent {k : ℕ} {o : ℕ × IndicatorPacket}
    (h : ((joinedAll stampOf [] (inputs.map (tagInput detect pa))).map (Option.bind · (emitPair pa pb msg)))[k]? =
      some (some o)) :
    ∃ (i j : ℕ) (a b : IndicatorPacket), inputs[i]? = some (na, a) ∧ inputs[j]? = some (nb, b) ∧
      a.msg.timestamp = b.msg.timestamp ∧ max i j = k ∧ o = joinOut msg (if i < j then b else a) a b := by
  obtain ⟨x, hx, h⟩ := exists_of_sent msg detect inputs h
  obtain ⟨⟨m, m'⟩, hpr, ho⟩ := Option.bind_eq_some_iff.1 h
  obtain ⟨rfl, ⟨y, hy, hyp, rfl, hys⟩, -⟩ := joined_eq_some hpr
  -- the kept message arrived at some `i` before `k`
  obtain ⟨i, hik, hi⟩ := exists_index_of_mem_take hy
  rw [List.getElem?_map] at hi
  obtain ⟨z, hz, rfl⟩ := Option.map_eq_some_iff.1 hi
  obtain ⟨hxp, -, hlen⟩ := hin x (List.mem_of_getElem? hx)
  have hzp := (hin z (List.mem_of_getElem? hz)).1
  obtain ⟨nx, px⟩ := x
  obtain ⟨nz, pz⟩ := z
  simp only at hxp hzp hlen
  have hts : pz.msg.timestamp = px.msg.timestamp := (stampOf_eq_stampOf _ _ _ _).1 hys
  rcases hxp with hxa | hxb
  · -- the new packet is the one of `na`, the kept one of `nb`
    have hzb : nz = nb := hzp.resolve_left fun hza => hyp (by rw [hza, hxa]; rfl)
    rw [hxa] at hx ho
    rw [hzb] at hz ho
    rw [tagInput_nb detect hp, tagInput_na detect hp] at ho
    refine ⟨k, i, px, pz, hx, hz, hts.symm, max_eq_left hik.le, ?_⟩
    rw [if_neg (not_lt.2 hik.le)]
    exact (Option.some.inj ((emitPacket_of_nb_saved msg detect hp hlen).symm.trans ho)).symm
  · have hza : nz = na := hzp.resolve_right fun hzb => hyp (by rw [hzb, hxb]; rfl)
    rw [hxb] at hx ho
    rw [hza] at hz ho
    rw [tagInput_na detect hp, tagInput_nb detect hp] at ho
    refine ⟨i, k, pz, px, hz, hx, hts, max_eq_right hik.le, ?_⟩
    rw [if_pos hik]
    exact (Option.some.inj ((emitPacket_of_na_saved msg detect hp hlen).symm.trans ho)).symm

/-- **(ii) A timestamp both ports deliver** is sent at its second message exactly when
no message before it is later. -/
theorem joinLaw_pair {i j : ℕ} {a b : IndicatorPacket} (hi : inputs[i]? = some (na, a)) (hj : inputs[j]? = some (nb, b))
    (hts : a.msg.timestamp = b.msg.timestamp) :
    ((joinedAll stampOf [] (inputs.map (tagInput detect pa))).map (Option.bind · (emitPair pa pb msg)))[max i j]? =
        some (some (joinOut msg (if i < j then b else a) a b)) ↔
      ∀ y ∈ inputs.take (max i j), y.2.msg.timestamp ≤ b.msg.timestamp := by
  have hmonoT := portMono_tagInput detect hp (fun x hx => (hin x hx).1) hmono
  have hti : (inputs.map (tagInput detect pa))[i]? = some (true, pa, a) := by
    rw [getElem?_tagInput detect hi, tagInput_na detect hp]
  have htj : (inputs.map (tagInput detect pa))[j]? = some (false, pb, b) := by
    rw [getElem?_tagInput detect hj, tagInput_nb detect hp]
  have hab : stampOf (pa, a) = stampOf (pb, b) := (stampOf_eq_stampOf _ _ _ _).2 hts
  rcases lt_or_gt_of_ne (show i ≠ j from fun hij => hp.ne (by simp_all)) with hij | hji
  · -- `nb` delivers second
    have hlen := (hin _ (List.mem_of_getElem? hj)).2.2
    rw [max_eq_right hij.le, if_pos hij, getElem?_sent msg detect inputs hj, tagInput_nb detect hp,
      joined_of_pair hmonoT (s := false) hij hti htj hab, ← forall_stampOf_le_iff detect inputs j pb b]
    split_ifs with hle
    · refine iff_of_true ?_ hle
      simp only [Option.bind_some, emitPair]
      rw [emitPacket_of_na_saved msg detect hp hlen]
    · exact iff_of_false (by simp) hle
  · -- `na` delivers second
    have hlen := (hin _ (List.mem_of_getElem? hi)).2.2
    rw [max_eq_left hji.le, if_neg (not_lt.2 hji.le), getElem?_sent msg detect inputs hi, tagInput_na detect hp,
      joined_of_pair hmonoT (s := true) hji htj hti hab.symm, ← hts, ← forall_stampOf_le_iff detect inputs i pa a]
    split_ifs with hle
    · refine iff_of_true ?_ hle
      simp only [Option.bind_some, emitPair]
      rw [emitPacket_of_nb_saved msg detect hp hlen]
    · exact iff_of_false (by simp) hle

/-- **(ii) Nowhere else**: a packet with the timestamp of a pair is sent at the pair's
second message. -/
theorem joinLaw_unique (hmsg : ∀ a b, (msg a b).timestamp = a.msg.timestamp ∨ (msg a b).timestamp = b.msg.timestamp)
    {i j : ℕ} {a b : IndicatorPacket} (hi : inputs[i]? = some (na, a)) (hj : inputs[j]? = some (nb, b))
    (hts : a.msg.timestamp = b.msg.timestamp) {k : ℕ} {o : ℕ × IndicatorPacket}
    (h : ((joinedAll stampOf [] (inputs.map (tagInput detect pa))).map (Option.bind · (emitPair pa pb msg)))[k]? =
      some (some o)) (ht : o.2.msg.timestamp = b.msg.timestamp) : k = max i j := by
  obtain ⟨i', j', a', b', hi', hj', hts', rfl, rfl⟩ := joinLaw_sent msg detect hp hin h
  -- the pair sent has the timestamp of `a` and `b`, so it is theirs
  have ht' : b'.msg.timestamp = b.msg.timestamp := by
    have hmt : (msg a' b').timestamp = b.msg.timestamp := ht
    rcases hmsg a' b' with h' | h'
    · rw [← hts', ← h', hmt]
    · rw [← h', hmt]
  have hmonoT := portMono_tagInput detect hp (fun x hx => (hin x hx).1) hmono
  have hii : i' = i := hmonoT.index_eq (getElem?_tagInput detect hi') (getElem?_tagInput detect hi)
    rfl ((stampOf_eq_stampOf _ _ _ _).2 (by rw [hts', ht', hts]))
  have hjj : j' = j := hmonoT.index_eq (getElem?_tagInput detect hj') (getElem?_tagInput detect hj)
    rfl ((stampOf_eq_stampOf _ _ _ _).2 ht')
  rw [hii, hjj]

theorem joinLaw_of_joinedAll
    (hmsg : ∀ a b, (msg a b).timestamp = a.msg.timestamp ∨ (msg a b).timestamp = b.msg.timestamp) :
    JoinLaw na nb msg inputs
      ((joinedAll stampOf [] (inputs.map (tagInput detect pa))).map (Option.bind · (emitPair pa pb msg))) :=
  ⟨fun _ _ h => joinLaw_sent msg detect hp hin h, fun _ _ _ _ hi hj hts =>
    ⟨joinLaw_pair msg detect hp hin hmono hi hj hts, fun _ _ h ht => joinLaw_unique msg detect hp hin hmono hmsg hi hj hts h ht⟩⟩

/-- **The slot is empty after each packet sent**: the run up to it ends with an
empty slot. -/
theorem runSteps_joinPush_take {k : ℕ} {o : ℕ × IndicatorPacket}
    (h : ((joinedAll stampOf [] (inputs.map (tagInput detect pa))).map (Option.bind · (emitPair pa pb msg)))[k]? =
      some (some o)) :
    runSteps (fun s x => joinPush detect pa pb msg true s x.1 x.2) SavedPacket.new (inputs.take (k + 1)) =
      some (SavedPacket.new,
        ((joinedAll stampOf [] (inputs.map (tagInput detect pa))).map (Option.bind · (emitPair pa pb msg))).take (k + 1)) := by
  have hmonoT := portMono_tagInput detect hp (fun x hx => (hin x hx).1) hmono
  have hin' : ∀ x ∈ inputs.take (k + 1), x.2.appType = .MSG_INDICATOR ∧ (detect x.1 = pa ∨ detect x.1 = pb) :=
    fun x hx => detected_of_mem detect hp hin (List.mem_of_mem_take hx)
  obtain ⟨saved', hrun, hwf, hinv⟩ := runSteps_joinPush msg detect hp.pa_ne hp.pb_ne hin'
    (by rw [List.map_take]; exact hmonoT.sublist (List.take_sublist _ _))
  -- the pair emitted at `k` empties the slot
  obtain ⟨x, hx, h⟩ := exists_of_sent msg detect inputs h
  obtain ⟨⟨m, m'⟩, hpr, -⟩ := Option.bind_eq_some_iff.1 h
  rw [List.map_take, List.take_add_one, List.getElem?_map, hx, Option.map_some, Option.toList_some] at hinv
  rw [SavedPacket.eq_new_of_view hwf (slotInv_none_of_joined hinv hpr)] at hrun
  rw [hrun, List.map_take, joinedAll_take, List.map_take]


/-- **A join of two configured ports**, fed messages of them whose timestamps increase
on each port, meets `JoinLaw`, and the run up to each packet it sends ends with an
empty slot. -/
theorem joinPush_law (hmsg : ∀ a b, (msg a b).timestamp = a.msg.timestamp ∨ (msg a b).timestamp = b.msg.timestamp) :
    ∃ saved' outs, runSteps (fun s x => joinPush detect pa pb msg true s x.1 x.2) SavedPacket.new inputs =
        some (saved', outs) ∧ JoinLaw na nb msg inputs outs ∧
      ∀ k o, outs[k]? = some (some o) →
        runSteps (fun s x => joinPush detect pa pb msg true s x.1 x.2) SavedPacket.new (inputs.take (k + 1)) =
          some (SavedPacket.new, outs.take (k + 1)) := by
  obtain ⟨saved', hrun, -, -⟩ := runSteps_joinPush msg detect hp.pa_ne hp.pb_ne
    (fun x hx => detected_of_mem detect hp hin hx) (portMono_tagInput detect hp (fun x hx => (hin x hx).1) hmono)
  exact ⟨saved', _, hrun, joinLaw_of_joinedAll msg detect hp hin hmono hmsg,
    fun _ _ h => runSteps_joinPush_take msg detect hp hin hmono h⟩

end Join

/-! ### The two elements as joins -/

theorem detectPacketPort_first (first second : ℕ) (firstPort secondPort : PacketPort) :
    detectPacketPort first second firstPort secondPort first = firstPort := by
  simp [detectPacketPort]

theorem detectPacketPort_second {first second : ℕ} (h : first ≠ second) (firstPort secondPort : PacketPort) :
    detectPacketPort first second firstPort secondPort second = secondPort := by
  have hne : (second : ℤ) ≠ first := by exact_mod_cast Ne.symm h
  simp [detectPacketPort, hne]

theorem DxIndicator.joinPorts {first second : ℕ} (h : first ≠ second) :
    JoinPorts (DxIndicator.configure true first second).detectPacketPort .PDI_PORT .MDI_PORT first second :=
  ⟨h, by decide, by decide, by decide, detectPacketPort_second (Ne.symm h) _ _, detectPacketPort_first _ _ _ _⟩

theorem DirectionalIndex.joinPorts {first second : ℕ} (h : first ≠ second) :
    JoinPorts (DirectionalIndex.configure true first second).detectPacketPort .TR_PORT .DM_PORT first second :=
  ⟨h, by decide, by decide, by decide, detectPacketPort_first _ _ _ _, detectPacketPort_second h _ _⟩

/-- A run of the configured element is the run of `joinPush` on its slot. -/
theorem DxIndicator.run_configure (pdiPort mdiPort : ℤ) (inputs : List (ℕ × IndicatorPacket)) :
    (DxIndicator.configure true pdiPort mdiPort).run inputs =
      (runSteps (fun s x => joinPush (DxIndicator.configure true pdiPort mdiPort).detectPacketPort .PDI_PORT .MDI_PORT
        DxIndicator.dxMsg true s x.1 x.2) SavedPacket.new inputs).map
        fun r => ({ DxIndicator.configure true pdiPort mdiPort with savedPacket := r.1 }, r.2) :=
  @runSteps_focus SavedPacket (ℕ × IndicatorPacket) (Option (ℕ × IndicatorPacket))
    (fun (s : SavedPacket) (x : ℕ × IndicatorPacket) => joinPush
      (DxIndicator.configure true pdiPort mdiPort).detectPacketPort .PDI_PORT .MDI_PORT DxIndicator.dxMsg true s x.1 x.2)
    DxIndicator (fun (e : DxIndicator) (x : ℕ × IndicatorPacket) => e.push x.1 x.2)
    (fun (s : SavedPacket) => ({ DxIndicator.configure true pdiPort mdiPort with savedPacket := s } : DxIndicator))
    (fun _ _ => rfl) inputs SavedPacket.new

theorem DirectionalIndex.run_configure (trPort dmPort : ℤ) (inputs : List (ℕ × IndicatorPacket)) :
    (DirectionalIndex.configure true trPort dmPort).run inputs =
      (runSteps (fun s x => joinPush (DirectionalIndex.configure true trPort dmPort).detectPacketPort .TR_PORT .DM_PORT
        DirectionalIndex.diMsg true s x.1 x.2) SavedPacket.new inputs).map
        fun r => ({ DirectionalIndex.configure true trPort dmPort with savedPacket := r.1 }, r.2) :=
  @runSteps_focus SavedPacket (ℕ × IndicatorPacket) (Option (ℕ × IndicatorPacket))
    (fun (s : SavedPacket) (x : ℕ × IndicatorPacket) => joinPush
      (DirectionalIndex.configure true trPort dmPort).detectPacketPort .TR_PORT .DM_PORT DirectionalIndex.diMsg true
      s x.1 x.2)
    DirectionalIndex (fun (e : DirectionalIndex) (x : ℕ × IndicatorPacket) => e.push x.1 x.2)
    (fun (s : SavedPacket) => ({ DirectionalIndex.configure true trPort dmPort with savedPacket := s } : DirectionalIndex))
    (fun _ _ => rfl) inputs SavedPacket.new

section Elements

variable {first second : ℕ} (hne : first ≠ second) {inputs : List (ℕ × IndicatorPacket)}
  (hin : ∀ x ∈ inputs, (x.1 = first ∨ x.1 = second) ∧ x.2.appType = .MSG_INDICATOR ∧ MSG_INDICATOR_SIZE ≤ x.2.length)
  (hmono : inputs.Pairwise fun x y => x.1 = y.1 → x.2.msg.timestamp < y.2.msg.timestamp)
include hne hin hmono

theorem DxIndicator.join_law :
    ∃ e outs, (DxIndicator.configure true first second).run inputs = some (e, outs) ∧
      JoinLaw first second DxIndicator.dxMsg inputs outs ∧
      ∀ k o, outs[k]? = some (some o) → ∃ e', (DxIndicator.configure true first second).run (inputs.take (k + 1)) =
        some (e', outs.take (k + 1)) ∧ e'.savedPacket = SavedPacket.new := by
  obtain ⟨saved', outs, hrun, hlaw, htake⟩ :=
    joinPush_law DxIndicator.dxMsg _ (DxIndicator.joinPorts hne) hin hmono fun _ _ => .inr rfl
  refine ⟨_, outs, by rw [DxIndicator.run_configure, hrun]; rfl, hlaw,
    fun k o h => ⟨DxIndicator.configure true first second, ?_, rfl⟩⟩
  rw [DxIndicator.run_configure, htake k o h]
  rfl

theorem DirectionalIndex.join_law :
    ∃ e outs, (DirectionalIndex.configure true first second).run inputs = some (e, outs) ∧
      JoinLaw first second DirectionalIndex.diMsg inputs outs ∧
      ∀ k o, outs[k]? = some (some o) → ∃ e', (DirectionalIndex.configure true first second).run (inputs.take (k + 1)) =
        some (e', outs.take (k + 1)) ∧ e'.savedPacket = SavedPacket.new := by
  obtain ⟨saved', outs, hrun, hlaw, htake⟩ :=
    joinPush_law DirectionalIndex.diMsg _ (DirectionalIndex.joinPorts hne) hin hmono fun _ _ => .inl rfl
  refine ⟨_, outs, by rw [DirectionalIndex.run_configure, hrun]; rfl, hlaw,
    fun k o h => ⟨DirectionalIndex.configure true first second, ?_, rfl⟩⟩
  rw [DirectionalIndex.run_configure, htake k o h]
  rfl

end Elements

/-- **The join of both elements.** `DxIndicator` on the ports of `+DI` and `-DI`, and
`DirectionalIndex` on those of `TR` and `DM`, fed indicator messages on the two ports
whose timestamps increase on each port, send what `JoinLaw` says, and after each
packet they send their slot is empty. -/
theorem indicator_join_law (first second : ℕ) (hne : first ≠ second) (inputs : List (ℕ × IndicatorPacket))
    (hin : ∀ x ∈ inputs, (x.1 = first ∨ x.1 = second) ∧ x.2.appType = .MSG_INDICATOR ∧
      MSG_INDICATOR_SIZE ≤ x.2.length)
    (hmono : inputs.Pairwise fun x y => x.1 = y.1 → x.2.msg.timestamp < y.2.msg.timestamp) :
    (∃ e outs, (DxIndicator.configure true first second).run inputs = some (e, outs) ∧
      JoinLaw first second DxIndicator.dxMsg inputs outs ∧
      ∀ k o, outs[k]? = some (some o) → ∃ e', (DxIndicator.configure true first second).run (inputs.take (k + 1)) =
        some (e', outs.take (k + 1)) ∧ e'.savedPacket = SavedPacket.new) ∧
    (∃ e outs, (DirectionalIndex.configure true first second).run inputs = some (e, outs) ∧
      JoinLaw first second DirectionalIndex.diMsg inputs outs ∧
      ∀ k o, outs[k]? = some (some o) → ∃ e', (DirectionalIndex.configure true first second).run (inputs.take (k + 1)) =
        some (e', outs.take (k + 1)) ∧ e'.savedPacket = SavedPacket.new) :=
  ⟨DxIndicator.join_law hne hin hmono, DirectionalIndex.join_law hne hin hmono⟩

/-- `BPl` on port `0` at the timestamp `7`, then on port `1` at `7`, and on port `0` at `9`. -/
def bplPortPair : List (ℕ × IndicatorPacket) :=
  [(0, ⟨MSG_INDICATOR_SIZE, .MSG_INDICATOR, ⟨bplSymbol, fixedptFromint 3, 7⟩⟩),
    (1, ⟨MSG_INDICATOR_SIZE, .MSG_INDICATOR, ⟨bplSymbol, fixedptFromint 1, 7⟩⟩),
    (0, ⟨MSG_INDICATOR_SIZE, .MSG_INDICATOR, ⟨bplSymbol, fixedptFromint 2, 9⟩⟩)]

theorem indicator_join_law_bpl :
    (∃ e outs, (DxIndicator.configure true 0 1).run bplPortPair = some (e, outs) ∧
      JoinLaw 0 1 DxIndicator.dxMsg bplPortPair outs ∧
      ∀ k o, outs[k]? = some (some o) → ∃ e', (DxIndicator.configure true 0 1).run (bplPortPair.take (k + 1)) =
        some (e', outs.take (k + 1)) ∧ e'.savedPacket = SavedPacket.new) ∧
    (∃ e outs, (DirectionalIndex.configure true 0 1).run bplPortPair = some (e, outs) ∧
      JoinLaw 0 1 DirectionalIndex.diMsg bplPortPair outs ∧
      ∀ k o, outs[k]? = some (some o) → ∃ e', (DirectionalIndex.configure true 0 1).run (bplPortPair.take (k + 1)) =
        some (e', outs.take (k + 1)) ∧ e'.savedPacket = SavedPacket.new) :=
  indicator_join_law 0 1 (by decide) bplPortPair (by decide) (by decide)

end Synapse.Click
