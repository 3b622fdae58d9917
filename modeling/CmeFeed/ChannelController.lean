import CmeFeed.Ladders
import CmeFeed.InstrumentController
import Std.Data.TreeMap

/-!
# The channel controller

Packets of the incremental and the snapshot feed are walked message by message,
entries and snapshots go to the controller of their instrument, and the end of
an event commits every instrument in the order of the keys. Nothing a
controller asks of the channel is read back before the packet is done, so the
requests are returned in order and executed by the channel afterwards.
-/

set_option autoImplicit false

namespace CmeFeed

open Reactive

variable {F : Floats}

def InstrumentController.Keyed (k : UInt32) (c : InstrumentController F) : Prop :=
  c.instrument_.key = k ∧ c.mdhandler_.instrument_ = c.instrument_

namespace InstrumentController

theorem construct_keyed (i : Instrument) (m : Indeterminate) :
    (construct i m : InstrumentController F × _).1.Keyed i.key := ⟨rfl,rfl⟩

theorem commit_keyed {k : UInt32} {c : InstrumentController F} (h : c.Keyed k) :
    c.commit.1.Keyed k :=
  ⟨h.1,(InstrumentMdHandler.commit_instrument _).trans h.2⟩

theorem onSecurityStatus_keyed {k : UInt32} {c : InstrumentController F} (h : c.Keyed k)
    (s : SecurityStatus30) : (c.onSecurityStatus s).Keyed k := by
  unfold onSecurityStatus
  split_ifs <;> exact h

theorem deliver_keyed {k : UInt32} {c : InstrumentController F} (h : c.Keyed k) (d : Delivery) :
    (c.deliver d).1.Keyed k := by
  rcases c.deliver_cases d with ⟨e,-,-,he⟩ | ⟨e,-,-,he⟩ | ⟨e,-,-,-,he⟩ | ⟨r,-,-,he⟩ |
    ⟨r,-,-,he⟩ | ⟨-,he⟩ <;> rw [he]
  · exact ⟨h.1,(InstrumentMdHandler.onIncremental_instrument _ e).trans h.2⟩
  · exact h
  · exact h
  · exact ⟨h.1,(InstrumentMdHandler.onSnapshot_instrument _ r).trans h.2⟩
  · exact h
  · exact commit_keyed h

end InstrumentController

/-- The map `instrument_controllers_`. Only `Subscribe` inserts into it, so a
controller is always found under the key of its own instrument. -/
structure Controllers (F : Floats) where
  map : Std.TreeMap UInt32 (InstrumentController F)
  keyed : ∀ (k : UInt32) (c : InstrumentController F), map[k]? = some c → c.Keyed k

namespace Controllers

def empty : Controllers F := ⟨∅,fun _ _ h => by simp at h⟩

def find (m : Controllers F) (k : UInt32) : Option (InstrumentController F) := m.map[k]?

def modify (m : Controllers F) (k : UInt32) (f : InstrumentController F → InstrumentController F)
    (hf : ∀ k c, c.Keyed k → (f c).Keyed k) : Controllers F where
  map := m.map.modify k f
  keyed k' c h := by
    rw [Std.TreeMap.getElem?_modify] at h
    split_ifs at h with hk
    · obtain ⟨c₀,hc₀,rfl⟩ := Option.map_eq_some_iff.mp h
      rw [Std.LawfulEqCmp.eq_of_compare hk] at hc₀
      exact hf k' c₀ (m.keyed k' c₀ hc₀)
    · exact m.keyed k' c h

def emplace (m : Controllers F) (k : UInt32) (c : InstrumentController F) (hc : c.Keyed k) :
    Controllers F where
  map := m.map.insertIfNew k c
  keyed k' c' h := by
    rw [Std.TreeMap.getElem?_insertIfNew] at h
    split_ifs at h with hk
    · rw [← Std.LawfulEqCmp.eq_of_compare hk.1]
      exact Option.some.inj h ▸ hc
    · exact m.keyed k' c' h

def commit (m : Controllers F) : Controllers F × List (Effect F) :=
  ({map := m.map.map fun _ c => c.commit.1
    keyed := fun k c h => by
      rw [Std.TreeMap.getElem?_map] at h
      obtain ⟨c₀,hc₀,rfl⟩ := Option.map_eq_some_iff.mp h
      exact InstrumentController.commit_keyed (m.keyed k c₀ hc₀)},
    m.map.toList.flatMap fun p => p.2.commit.2)

@[simp] theorem find_empty (k : UInt32) : (empty : Controllers F).find k = none := by
  simp [find, empty]

theorem find_modify (m : Controllers F) (k k' : UInt32)
    (f : InstrumentController F → InstrumentController F)
    (hf : ∀ k c, c.Keyed k → (f c).Keyed k) :
    (m.modify k f hf).find k' = if k = k' then (m.find k').map f else m.find k' := by
  simp only [find, modify, Std.TreeMap.getElem?_modify, Std.compare_eq_iff_eq]
  by_cases hk : k = k'
  · simp [hk]
  · simp [hk]

theorem find_emplace (m : Controllers F) (k k' : UInt32) (c : InstrumentController F)
    (hc : c.Keyed k) (hnew : m.find k = none) :
    (m.emplace k c hc).find k' = if k = k' then some c else m.find k' := by
  have habsent : ¬k ∈ m.map := by
    rw [Std.TreeMap.mem_iff_isSome_getElem?, show m.map[k]? = none from hnew]
    simp
  simp only [find, emplace, Std.TreeMap.getElem?_insertIfNew, Std.compare_eq_iff_eq, habsent,
    not_false_iff, and_true]

theorem find_commit (m : Controllers F) (k : UInt32) :
    m.commit.1.find k = (m.find k).map fun c => c.commit.1 := by
  simp only [find, commit, Std.TreeMap.getElem?_map]

end Controllers

structure ChannelController (F : Floats) where
  expectedseqnum_ : ℤ := 0
  instrument_controllers_ : Controllers F := .empty
  outofsync_instruments_ : List UInt32 := []
  /-- What the memory holds where the controller of a key will leave members
  uninitialised; each key is constructed at most once. -/
  memory : UInt32 → Indeterminate

namespace ChannelController

def getInstrumentController (cc : ChannelController F) (securityid : UInt32) :
    Option (InstrumentController F) :=
  cc.instrument_controllers_.find securityid

def deliver (cc : ChannelController F) (securityid : UInt32) (d : Delivery) :
    ChannelController F × List (Effect F) :=
  match cc.getInstrumentController securityid with
  | some inst_controller =>
    ({cc with
      instrument_controllers_ := cc.instrument_controllers_.modify securityid
        (fun c => (c.deliver d).1) fun _ _ h => InstrumentController.deliver_keyed h d},
      (inst_controller.deliver d).2)
  | none => (cc,[])

def handleSnapshotMessage (cc : ChannelController F) (m : Message) :
    ChannelController F × List (Effect F) :=
  let snapshot := m.snapshotFullRefresh38
  cc.deliver snapshot.securityID.toUInt32 (.snapshot snapshot)

/-- With a group the loop visits copies of the controllers. -/
def handleIncrementalSecurityStatus (cc : ChannelController F) (m : Message) :
    ChannelController F × List (Effect F) :=
  let message := m.securityStatus30
  if message.securityGroup ≠ "" then (cc,[])
  else
    ({cc with
      instrument_controllers_ := cc.instrument_controllers_.modify message.securityID.toUInt32
        (fun c => c.onSecurityStatus message)
        fun _ _ h => InstrumentController.onSecurityStatus_keyed h message},[])

def handleIncrementalQuoteRequest (cc : ChannelController F) (_ : Message) :
    ChannelController F × List (Effect F) := (cc,[])

def commit (cc : ChannelController F) : ChannelController F × List (Effect F) :=
  ({cc with instrument_controllers_ := cc.instrument_controllers_.commit.1},
    cc.instrument_controllers_.commit.2)

def onEntry (cc : ChannelController F) (entry : Entry) : ChannelController F × List (Effect F) :=
  cc.deliver entry.securityID.toUInt32 (.incremental entry)

def handleIncrementalMessage (cc : ChannelController F) (m : IncrementalRefresh Entry) :
    ChannelController F × List (Effect F) :=
  let r := run onEntry cc m.noMDEntries
  if m.endOfEvent then (r.1.commit.1,r.2++r.1.commit.2) else r

end ChannelController

/-- The incremental message under the layout its template id selects, among the
seven templates with a repeating group that the channel dispatches. -/
def Message.incremental (m : Message) : Option (IncrementalRefresh Entry) :=
  if m.templateId = 32 then some (m.mDIncrementalRefreshBook32.map .book32)
  else if m.templateId = 33 then
    some (m.mDIncrementalRefreshDailyStatistics33.map .dailyStatistics33)
  else if m.templateId = 34 then
    some (m.mDIncrementalRefreshLimitsBanding34.map .limitsBanding34)
  else if m.templateId = 35 then
    some (m.mDIncrementalRefreshSessionStatistics35.map .sessionStatistics35)
  else if m.templateId = 36 then some (m.mDIncrementalRefreshTrade36.map .trade36)
  else if m.templateId = 42 then some (m.mDIncrementalRefreshTradeSummary42.map .tradeSummary42)
  else if m.templateId = 37 then some (m.mDIncrementalRefreshVolume37.map .volume37)
  else none

namespace ChannelController

def onIncrementalMessage (cc : ChannelController F) (m : Message) :
    ChannelController F × List (Effect F) :=
  match m.incremental with
  | some message => cc.handleIncrementalMessage message
  | none =>
    if m.templateId = 39 then cc.handleIncrementalQuoteRequest m
    else if m.templateId = 30 then cc.handleIncrementalSecurityStatus m
    else (cc,[])

/-- The counter is a `long`, the sequence number and its successor are `uint32_t`. -/
def Processes (cc : ChannelController F) (packet : Packet) : Prop :=
  cc.expectedseqnum_ ≤ packet.seqnum.toNat ∨ cc.expectedseqnum_ = 0

instance (cc : ChannelController F) (packet : Packet) : Decidable (cc.Processes packet) :=
  inferInstanceAs (Decidable (_ ∨ _))

/-- The gap test reads the counter after it has been moved on. -/
def onIncrementalPacket (cc : ChannelController F) (packet : Packet) :
    ChannelController F × List (Effect F) :=
  let r :=
    if cc.Processes packet then
      run onIncrementalMessage {cc with expectedseqnum_ := (packet.seqnum+1).toNat} packet.messages
    else (cc,[])
  if r.1.expectedseqnum_ < packet.seqnum.toNat then
    (r.1,r.2++[.packetGap r.1.expectedseqnum_ packet.seqnum])
  else r

def onSnapshotPacket (cc : ChannelController F) (packet : Packet) :
    ChannelController F × List (Effect F) :=
  run handleSnapshotMessage cc packet.messages

end ChannelController

inductive FeedPacket where
  | incremental (packet : Packet)
  | snapshot (packet : Packet)

namespace ChannelController

def onPacket (cc : ChannelController F) : FeedPacket → ChannelController F × List (Effect F)
  | .incremental packet => cc.onIncrementalPacket packet
  | .snapshot packet => cc.onSnapshotPacket packet

def subscribe (cc : ChannelController F) (instrument : Instrument) :
    ChannelController F × List (Effect F) :=
  match cc.getInstrumentController instrument.key with
  | none =>
    let r := InstrumentController.construct instrument (cc.memory instrument.key)
    ({cc with
      instrument_controllers_ := cc.instrument_controllers_.emplace instrument.key r.1
        (InstrumentController.construct_keyed instrument _)},r.2)
  | some _ => (cc,[])

def addOutOfSyncInstrument (cc : ChannelController F) (securityid : UInt32) :
    ChannelController F :=
  if securityid ∈ cc.outofsync_instruments_ then cc
  else {cc with outofsync_instruments_ := cc.outofsync_instruments_++[securityid]}

/-- Erases the first occurrence; the flag says whether there was one. -/
def removeOutOfSyncInstrument (cc : ChannelController F) (securityid : UInt32) :
    ChannelController F × Bool :=
  if securityid ∈ cc.outofsync_instruments_ then
    ({cc with outofsync_instruments_ := cc.outofsync_instruments_.erase securityid},true)
  else (cc,false)

def hasOutOfSyncInstruments (cc : ChannelController F) : Bool :=
  decide (0 < cc.outofsync_instruments_.length)

structure SameChannel (cc cc' : ChannelController F) : Prop where
  expected : cc'.expectedseqnum_ = cc.expectedseqnum_
  registry : cc'.outofsync_instruments_ = cc.outofsync_instruments_
  memory : cc'.memory = cc.memory

theorem SameChannel.refl (cc : ChannelController F) : SameChannel cc cc := ⟨rfl,rfl,rfl⟩

theorem SameChannel.trans {a b c : ChannelController F} (h : SameChannel a b)
    (h' : SameChannel b c) : SameChannel a c :=
  ⟨h'.expected.trans h.expected,h'.registry.trans h.registry,h'.memory.trans h.memory⟩

theorem run_same {I : Type} {step : ChannelController F → I → ChannelController F × List (Effect F)}
    (h : ∀ cc i, SameChannel cc (step cc i).1) (cc : ChannelController F) (is : List I) :
    SameChannel cc (run step cc is).1 :=
  run_invariant step (SameChannel cc) (fun _ => True) (fun t i _ ht => ht.trans (h t i)) cc is
    (fun _ _ => trivial) (.refl cc)

theorem deliver_same (cc : ChannelController F) (k : UInt32) (d : Delivery) :
    SameChannel cc (cc.deliver k d).1 := by
  unfold deliver
  cases cc.getInstrumentController k <;> exact ⟨rfl,rfl,rfl⟩

theorem handleSnapshotMessage_same (cc : ChannelController F) (m : Message) :
    SameChannel cc (cc.handleSnapshotMessage m).1 :=
  cc.deliver_same m.snapshotFullRefresh38.securityID.toUInt32 (.snapshot m.snapshotFullRefresh38)

theorem onEntry_same (cc : ChannelController F) (e : Entry) : SameChannel cc (cc.onEntry e).1 :=
  cc.deliver_same e.securityID.toUInt32 (.incremental e)

theorem handleIncrementalMessage_same (cc : ChannelController F) (m : IncrementalRefresh Entry) :
    SameChannel cc (cc.handleIncrementalMessage m).1 := by
  have hentries : SameChannel cc (run onEntry cc m.noMDEntries).1 :=
    run_same onEntry_same cc m.noMDEntries
  unfold handleIncrementalMessage
  cases m.endOfEvent
  · exact hentries
  · exact hentries.trans ⟨rfl,rfl,rfl⟩

theorem onIncrementalMessage_same (cc : ChannelController F) (m : Message) :
    SameChannel cc (cc.onIncrementalMessage m).1 := by
  unfold onIncrementalMessage
  cases m.incremental with
  | some message => exact handleIncrementalMessage_same cc message
  | none =>
    dsimp only
    split_ifs
    · exact .refl cc
    · unfold handleIncrementalSecurityStatus
      dsimp only
      split_ifs <;> exact ⟨rfl,rfl,rfl⟩
    · exact .refl cc

def gapReport (cc : ChannelController F) (packet : Packet) : List (Effect F) :=
  if cc.expectedseqnum_ < packet.seqnum.toNat then
    [.packetGap cc.expectedseqnum_ packet.seqnum]
  else []

theorem gapReport_silent (cc : ChannelController F) (packet : Packet) :
    notified (cc.gapReport packet) = [] := by
  unfold gapReport
  split_ifs <;> rfl

theorem onIncrementalPacket_processed {cc : ChannelController F} {packet : Packet}
    (h : cc.Processes packet) :
    let r := run onIncrementalMessage {cc with expectedseqnum_ := (packet.seqnum+1).toNat}
      packet.messages
    cc.onIncrementalPacket packet = (r.1,r.2++r.1.gapReport packet) := by
  unfold onIncrementalPacket gapReport
  rw [if_pos h]
  dsimp only
  split_ifs
  · rfl
  · rw [List.append_nil]

theorem onIncrementalPacket_unprocessed {cc : ChannelController F} {packet : Packet}
    (h : ¬cc.Processes packet) : cc.onIncrementalPacket packet = (cc,[]) := by
  have hbehind : ¬cc.expectedseqnum_ < packet.seqnum.toNat :=
    fun hlt => h (Or.inl (Int.le_of_lt hlt))
  unfold onIncrementalPacket
  rw [if_neg h, if_neg hbehind]

end ChannelController

def bookMessage (entries : List MDIncrementalRefreshBook32.NoMDEntries) (endOfEvent : Bool) :
    Message where
  templateId := 32
  mDIncrementalRefreshBook32 := ⟨entries,endOfEvent⟩

def snapshotMessage (refresh : SnapshotFullRefresh38) : Message where
  templateId := 38
  snapshotFullRefresh38 := refresh

def sampleChannel : ChannelController .exact :=
  (ChannelController.subscribe {memory := fun _ => ⟨0,false⟩} sampleInstrument).1

end CmeFeed
