import CmeFeed.Download
import CmeFeed.Framing
import CmeFeed.Registry
import CmeFeed.Reactive.Latest

/-!
# Datagrams without a message

Each of the six receivers has one packet object, which it resets for every
datagram. A datagram without a body leaves the sequence number of an earlier
one in the object, and the controllers compare this number once more.
-/

set_option autoImplicit false

namespace CmeFeed

open Bytes Reactive

inductive Feed where
  | A | B
  deriving DecidableEq, Repr

variable {F : Floats}

namespace ChannelImpl

/-- The controller of the feed walks a packet with this number. -/
def Walked (ch : ChannelImpl F) (type : FeedType) (seqnum : UInt32) : Prop :=
  match type with
  | .Instrument => ch.symbol_controller_.Accepts ⟨seqnum,[]⟩
  | .Snapshot => True
  | .Incremental => ch.channel_controller_.Processes ⟨seqnum,[]⟩

instance (ch : ChannelImpl F) (type : FeedType) (seqnum : UInt32) :
    Decidable (ch.Walked type seqnum) :=
  match type with
  | .Instrument => inferInstanceAs (Decidable (ch.symbol_controller_.Accepts ⟨seqnum,[]⟩))
  | .Snapshot => inferInstanceAs (Decidable True)
  | .Incremental => inferInstanceAs (Decidable (ch.channel_controller_.Processes ⟨seqnum,[]⟩))

/-- What an exception out of the walk leaves behind: the messages before it are
handled, and what comes after the loop is not reached. -/
def onPacketThrown (ch : ChannelImpl F) (type : FeedType) (data : Packet) : ChannelImpl F :=
  match type with
  | .Instrument =>
    let r := run SymbolController.handleMessage ch.symbol_controller_ data.messages
    r.2.foldl executeDownload {ch with symbol_controller_ := r.1}
  | .Snapshot => ch.perform (ch.channel_controller_.onSnapshotPacket data)
  | .Incremental => ch.perform (run ChannelController.onIncrementalMessage
      {ch.channel_controller_ with expectedseqnum_ := (data.seqnum+1).toNat} data.messages)

end ChannelImpl

namespace Wire

structure Channel (F : Floats) where
  impl : ChannelImpl F
  packet : FeedType → Feed → Packet

inductive Event where
  | datagram (type : FeedType) (feed : Feed) (data : Memory) (received : ℕ)
  | subscribe (inst : Instrument)
  | subscribeSymbol (symbol : String)

namespace Channel

/-- The constructors leave the memory of the packet objects as it is, but for
the members with an initial value. -/
def construct (memory : UInt32 → Indeterminate) (objects : FeedType → Feed → Packet) :
    Channel F where
  impl := .construct memory
  packet type feed :=
    {objects type feed with seqnum_ := 0, sendtime_ := 0, processed_ := 0, received_ := 0}

def withPacket (ch : Channel F) (type : FeedType) (feed : Feed) (p : Packet)
    (impl : ChannelImpl F) : Channel F where
  impl := impl
  packet t f := if t = type ∧ f = feed then p else ch.packet t f

/-- `HandleReceiveFrom` without an error. A walk that takes more than `fuel`
turns has no result. -/
def handleReceiveFrom (wraps : ℕ → ℕ → Bool) (decoder : Message → CmeFeed.Message) (fuel : ℕ)
    (ch : Channel F) (type : FeedType) (feed : Feed) (data : Memory) (received : ℕ) :
    Option (Channel F) :=
  let p := (ch.packet type feed).reset data received
  if ch.impl.Walked type p.getSeqNum then
    match loop (Packet.turn wraps) (fuel+1) p with
    | (_,.running _) => none
    | (ms,.stopped p') =>
      some (ch.withPacket type feed p' (ch.impl.onPacket type (p.decoded decoder ms)))
    | (ms,.failed p') =>
      some (ch.withPacket type feed p' (ch.impl.onPacketThrown type (p.decoded decoder ms)))
  else some (ch.withPacket type feed p (ch.impl.onPacket type (p.decoded decoder [])))

def step (wraps : ℕ → ℕ → Bool) (decoder : Message → CmeFeed.Message) (fuel : ℕ)
    (ch : Channel F) : Event → Option (Channel F)
  | .datagram type feed data received =>
    ch.handleReceiveFrom wraps decoder fuel type feed data received
  | .subscribe inst => some {ch with impl := ch.impl.subscribe inst}
  | .subscribeSymbol symbol => some {ch with impl := ch.impl.subscribeSymbol symbol}

def after (wraps : ℕ → ℕ → Bool) (decoder : Message → CmeFeed.Message) (fuel : ℕ)
    (ch : Channel F) (events : List Event) : Option (Channel F) :=
  events.foldlM (step wraps decoder fuel) ch

end Channel

variable {wraps : ℕ → ℕ → Bool} {decoder : Message → CmeFeed.Message} {fuel : ℕ}

def Event.numbers (type : FeedType) (feed : Feed) : Event → Bool
  | .datagram t f _ received => decide (t = type ∧ f = feed ∧ kByteOffest < received)
  | _ => false

def Event.number : Event → UInt32
  | .datagram _ _ data _ => UInt32.ofNat (decode (window data 0 4))
  | _ => 0

def lastNumber (type : FeedType) (feed : Feed) (events : List Event) : UInt32 :=
  match events.findRev? (Event.numbers type feed) with
  | some e => e.number
  | none => 0

theorem lastNumber_concat (type : FeedType) (feed : Feed) (events : List Event) (e : Event) :
    lastNumber type feed (events++[e]) =
      if e.numbers type feed then e.number else lastNumber type feed events := by
  unfold lastNumber
  rw [findRev?_concat]
  cases e.numbers type feed <;> rfl

theorem reset_number (q : Packet) (data : Memory) (received : ℕ) :
    (q.reset data received).getSeqNum =
      if kByteOffest < received then UInt32.ofNat (decode (window data 0 4)) else q.getSeqNum := by
  unfold Packet.reset Packet.getSeqNum
  dsimp only
  split_ifs <;> rfl

theorem turn_number {p p' : Packet} {m : Message} (h : p.turn wraps = .next p' m) :
    p'.getSeqNum = p.getSeqNum := by
  unfold Packet.turn Packet.nextMessage at h
  split_ifs at h
  cases hm : p.message_.reset wraps p.rawbytes_ p.processed_ p.received_ with
  | none =>
    rw [hm] at h
    cases h
  | some m' =>
    rw [hm] at h
    cases h
    rfl

theorem loop_number (n : ℕ) (p : Packet) :
    (loop (Packet.turn wraps) n p).2.state.getSeqNum = p.getSeqNum :=
  loop_keeps (fun a => a.getSeqNum = p.getSeqNum)
    (fun _ _ _ ha hturn => (turn_number hturn).trans ha) n rfl

namespace Channel

/-- Whatever a datagram does, it leaves the packet object with the number that
`Reset` put there. -/
theorem handleReceiveFrom_packet {ch ch' : Channel F} {type : FeedType} {feed : Feed}
    {data : Memory} {received : ℕ}
    (h : ch.handleReceiveFrom wraps decoder fuel type feed data received = some ch')
    (t : FeedType) (f : Feed) :
    (ch'.packet t f).getSeqNum = if t = type ∧ f = feed then
      ((ch.packet type feed).reset data received).getSeqNum else (ch.packet t f).getSeqNum := by
  have hwith : ∀ (p : Packet) (impl : ChannelImpl F),
      p.getSeqNum = ((ch.packet type feed).reset data received).getSeqNum →
        ch.withPacket type feed p impl = ch' →
        (ch'.packet t f).getSeqNum = if t = type ∧ f = feed then
          ((ch.packet type feed).reset data received).getSeqNum
          else (ch.packet t f).getSeqNum := by
    rintro p impl hp rfl
    rw [← hp]
    exact apply_ite Packet.getSeqNum _ _ _
  have hloop : (loop (Packet.turn wraps) (fuel+1)
      ((ch.packet type feed).reset data received)).2.state.getSeqNum =
        ((ch.packet type feed).reset data received).getSeqNum := loop_number _ _
  unfold handleReceiveFrom at h
  dsimp only at h
  split_ifs at h with hwalked
  · rcases hl : loop (Packet.turn wraps) (fuel+1) ((ch.packet type feed).reset data received) with
      ⟨ms,p' | p' | p'⟩
    · rw [hl] at h
      cases h
    · rw [hl] at h hloop
      exact hwith p' _ hloop (Option.some.inj h)
    · rw [hl] at h hloop
      exact hwith p' _ hloop (Option.some.inj h)
  · exact hwith _ _ rfl (Option.some.inj h)

theorem after_concat {ch ch' : Channel F} {events : List Event} {e : Event}
    (h : after wraps decoder fuel ch (events++[e]) = some ch') :
    ∃ before, after wraps decoder fuel ch events = some before ∧
      before.step wraps decoder fuel e = some ch' := by
  simpa [after, List.foldlM_append, Option.bind_eq_some_iff] using h

theorem after_packet {ch ch' : Channel F} {events : List Event}
    (hzero : ∀ type feed, (ch.packet type feed).getSeqNum = 0)
    (h : after wraps decoder fuel ch events = some ch') (type : FeedType) (feed : Feed) :
    (ch'.packet type feed).getSeqNum = lastNumber type feed events := by
  induction events using List.reverseRecOn generalizing ch' with
  | nil =>
    cases h
    exact hzero type feed
  | append_singleton events e ih =>
    obtain ⟨before,hbefore,hstep⟩ := after_concat h
    rw [lastNumber_concat, ← ih hbefore]
    cases e with
    | datagram t f data received =>
      rw [handleReceiveFrom_packet hstep, reset_number]
      simp only [Event.numbers, Event.number, decide_eq_true_eq]
      by_cases hline : t = type ∧ f = feed
      · obtain ⟨rfl,rfl⟩ := hline
        simp
      · have hother : ¬(type = t ∧ feed = f) := fun hsame => hline ⟨hsame.1.symm,hsame.2.symm⟩
        rw [if_neg hother, if_neg fun hboth => hline ⟨hboth.1,hboth.2.1⟩]
    | subscribe inst =>
      cases hstep
      rfl
    | subscribeSymbol symbol =>
      cases hstep
      rfl

end Channel

end Wire

namespace ChannelImpl

/-- Compared with the state, the number makes the controller of the feed do
nothing, or the very thing that changes nothing. -/
def Quiet (ch : ChannelImpl F) (type : FeedType) (seqnum : UInt32) : Prop :=
  match type with
  | .Instrument => ¬ch.symbol_controller_.Accepts ⟨seqnum,[]⟩ ∧
      ¬ch.symbol_controller_.Restarts ⟨seqnum,[]⟩
  | .Snapshot => True
  | .Incremental => ¬ch.channel_controller_.Processes ⟨seqnum,[]⟩ ∨
      ((seqnum+1).toNat:ℤ) = ch.channel_controller_.expectedseqnum_

def SameControllers (ch ch' : ChannelImpl F) : Prop :=
  ch'.symbol_controller_ = ch.symbol_controller_ ∧
    ch'.channel_controller_ = ch.channel_controller_

theorem onPacket_instrument_empty (ch : ChannelImpl F) (seqnum : UInt32) :
    SameControllers ch (ch.onPacket .Instrument ⟨seqnum,[]⟩) ↔ ch.Quiet .Instrument seqnum := by
  set c := ch.symbol_controller_ with hc
  have hmoved : ∀ c', c.onInstrumentPacket ⟨seqnum,[]⟩ = (c',[]) →
      (SameControllers ch (ch.onPacket .Instrument ⟨seqnum,[]⟩) ↔ c' = c) := by
    intro c' hpacket
    unfold onPacket
    dsimp only
    rw [← hc, hpacket]
    exact and_iff_left rfl
  by_cases ha : c.Accepts ⟨seqnum,[]⟩
  · rw [hmoved _ (SymbolController.onInstrumentPacket_accepted c _ ha)]
    apply iff_of_false
    · intro hsame
      have hexpected := congrArg SymbolController.expectedseqnum_ hsame
      dsimp only [run_nil] at hexpected
      omega
    · exact fun hquiet => hquiet.1 ha
  by_cases hr : c.Restarts ⟨seqnum,[]⟩
  · rw [hmoved _ (SymbolController.onInstrumentPacket_restarted c _ hr)]
    apply iff_of_false
    · intro hsame
      have hstate := hr.2
      rw [← hsame] at hstate
      exact DownloadState.noConfusion hstate
    · exact fun hquiet => hquiet.2 hr
  · rw [hmoved _ (SymbolController.onInstrumentPacket_ignored c _ ha hr)]
    exact iff_of_true rfl ⟨ha,hr⟩

theorem onPacket_incremental_empty (ch : ChannelImpl F) (seqnum : UInt32) :
    SameControllers ch (ch.onPacket .Incremental ⟨seqnum,[]⟩) ↔ ch.Quiet .Incremental seqnum := by
  by_cases hp : ch.channel_controller_.Processes ⟨seqnum,[]⟩
  · have hnext : ch.onPacket .Incremental ⟨seqnum,[]⟩ = {ch with
        channel_controller_ := {ch.channel_controller_ with
          expectedseqnum_ := (seqnum+1).toNat}} := by
      unfold onPacket perform
      dsimp only
      rw [ChannelController.onIncrementalPacket_processed hp]
      exact foldl_execute_gapReport _ _ _
    rw [hnext]
    constructor
    · intro hsame
      exact Or.inr (congrArg ChannelController.expectedseqnum_ hsame.2)
    · intro hquiet
      have hexpected := hquiet.resolve_left (not_not.mpr hp)
      constructor
      · rfl
      · dsimp only
        rw [hexpected]
  · apply iff_of_true
    · unfold onPacket perform
      dsimp only
      rw [ChannelController.onIncrementalPacket_unprocessed hp]
      exact ⟨rfl,rfl⟩
    · exact Or.inl hp

theorem onPacket_empty (ch : ChannelImpl F) (type : FeedType) (seqnum : UInt32) :
    SameControllers ch (ch.onPacket type ⟨seqnum,[]⟩) ↔ ch.Quiet type seqnum := by
  cases type with
  | Instrument => exact onPacket_instrument_empty ch seqnum
  | Snapshot => exact iff_of_true ⟨rfl,rfl⟩ trivial
  | Incremental => exact onPacket_incremental_empty ch seqnum

end ChannelImpl

namespace Wire.Channel

theorem handleReceiveFrom_empty (ch : Channel F) (wraps : ℕ → ℕ → Bool)
    (decoder : Message → CmeFeed.Message) (fuel : ℕ) (type : FeedType) (feed : Feed)
    (data : Memory) {received : ℕ} (hr : received ≤ kByteOffest) :
    ∃ ch', ch.handleReceiveFrom wraps decoder fuel type feed data received = some ch' ∧
      ch'.impl = ch.impl.onPacket type ⟨(ch.packet type feed).getSeqNum,[]⟩ := by
  have hnumber : ((ch.packet type feed).reset data received).getSeqNum =
      (ch.packet type feed).getSeqNum := by
    rw [reset_number, if_neg (Nat.not_lt.mpr hr)]
  have hstop : ((ch.packet type feed).reset data received).turn wraps = .stop :=
    turn_stop (reset_walks _ _ _) (by rw [reset_processed]; exact hr)
  unfold handleReceiveFrom
  dsimp only
  rw [loop_stop hstop]
  simp only [Packet.decoded, List.map_nil, hnumber]
  split_ifs <;> exact ⟨_,rfl,rfl⟩

/-- In a run of the channel every datagram without a body leaves the two
controllers alone exactly if the number of the latest datagram with a body on
the same receiver is quiet each time. -/
theorem header_only_inert (wraps : ℕ → ℕ → Bool) (decoder : Message → CmeFeed.Message)
    (fuel : ℕ) (memory : UInt32 → Indeterminate) (objects : FeedType → Feed → Packet)
    (events : List Event) :
    let start : Channel F := construct memory objects
    (∀ pre type feed data received post, events = pre++.datagram type feed data received::post →
      received ≤ kByteOffest → ∀ ch, after wraps decoder fuel start pre = some ch →
        ∃ ch', ch.handleReceiveFrom wraps decoder fuel type feed data received = some ch' ∧
          ch.impl.SameControllers ch'.impl) ↔
    ∀ pre type feed data received post, events = pre++.datagram type feed data received::post →
      received ≤ kByteOffest → ∀ ch, after wraps decoder fuel start pre = some ch →
        ch.impl.Quiet type (lastNumber type feed pre) := by
  intro start
  have hstep : ∀ pre type feed data received, received ≤ kByteOffest → ∀ ch : Channel F,
      after wraps decoder fuel start pre = some ch →
        ((∃ ch', ch.handleReceiveFrom wraps decoder fuel type feed data received = some ch' ∧
          ch.impl.SameControllers ch'.impl) ↔ ch.impl.Quiet type (lastNumber type feed pre)) := by
    intro pre type feed data received hr ch hch
    obtain ⟨next,hnext,himpl⟩ := ch.handleReceiveFrom_empty wraps decoder fuel type feed data hr
    rw [← after_packet (fun _ _ => rfl) hch, ← ChannelImpl.onPacket_empty, ← himpl, hnext]
    simp
  constructor
  · intro hinert pre type feed data received post hsplit hr ch hch
    exact (hstep pre type feed data received hr ch hch).mp
      (hinert pre type feed data received post hsplit hr ch hch)
  · intro hquiet pre type feed data received post hsplit hr ch hch
    exact (hstep pre type feed data received hr ch hch).mpr
      (hquiet pre type feed data received post hsplit hr ch hch)

/-- Twelve bytes on an incremental line are taken for the packet 0. -/
theorem header_only_first :
    let start : Channel .exact := construct (fun _ => ⟨0,false⟩) fun _ _ => blank
    start.impl.channel_controller_.expectedseqnum_ = 0 ∧
      (start.handleReceiveFrom checked (fun _ => {templateId := 0}) 0 .Incremental .A
        (fun _ => 0) 12).map (·.impl.channel_controller_.expectedseqnum_) = some 1 := by
  intro start
  exact ⟨rfl,rfl⟩

end Wire.Channel

end CmeFeed
