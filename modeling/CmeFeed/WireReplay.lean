import CmeFeed.LoopReplay

/-!
# From the bytes to the books

A sender lays out its messages in datagrams. Whatever the buffers and the packet
objects hold from before, the receivers of a channel make of such datagrams the
calls that the controllers are meant to get, and no others.
-/

set_option autoImplicit false

namespace CmeFeed

open Bytes Reactive

variable {F : Floats}

namespace Wire

/-- A datagram as it is sent: not empty, and within the buffer of a receiver. -/
structure Sent where
  seqnum : UInt32
  sendtime : UInt64
  frames : List Frame
  nonempty : frames ≠ []
  fits : 12+(frames.map Frame.size).sum ≤ 4096

namespace Sent

def bytes (d : Sent) : List UInt8 := layout d.seqnum.toNat d.sendtime.toNat d.frames

def packet (read : Frame → CmeFeed.Message) (d : Sent) : CmeFeed.Packet :=
  ⟨d.seqnum,d.frames.map read⟩

theorem frames_length (d : Sent) : d.frames.length ≤ 408 := by
  have hsizes : ∀ fs : List Frame, 10*fs.length ≤ (fs.map Frame.size).sum := by
    intro fs
    induction fs with
    | nil => exact Nat.le_refl 0
    | cons f fs ih =>
      have hge := f.size_ge
      rw [List.length_cons, List.map_cons, List.sum_cons]
      omega
  have hall := hsizes d.frames
  have hfits := d.fits
  omega

end Sent

/-- What the symbol controller takes from a definition. -/
def taken (d : MDInstrumentDefinition) : UInt32 × SecurityUpdateAction × Instrument :=
  (d.totNumReports,d.securityUpdateAction,d.instrument)

/-- The messages are alike in all that is read of them on a feed. -/
def SameOn : FeedType → CmeFeed.Message → CmeFeed.Message → Prop
  | .Incremental, m, m' => m.templateId = m'.templateId ∧ m.incremental = m'.incremental ∧
    (m.templateId = 30 → m.securityStatus30 = m'.securityStatus30)
  | .Snapshot, m, m' => m.snapshotFullRefresh38 = m'.snapshotFullRefresh38
  | .Instrument, m, m' => m.definition.map taken = m'.definition.map taken

/-- What is read on its feed of a well-formed message is in the bytes of its frame,
wherever they are in the buffer and whatever comes behind them. Of other
messages, which may be decoded beyond their frame, nothing is said. -/
def Reads (wellFormed : FeedType → Frame → Prop) (decoder : Message → CmeFeed.Message)
    (read : Frame → CmeFeed.Message) : Prop :=
  ∀ type data received o f, Holds data o f.bytes → o+f.size ≤ received → received ≤ 4096 →
    wellFormed type f → SameOn type (decoder (messageAt data received o)) (read f)

variable {wraps : ℕ → ℕ → Bool} {wellFormed : FeedType → Frame → Prop}
  {decoder : Message → CmeFeed.Message} {read : Frame → CmeFeed.Message}

theorem decoded_frames (hread : Reads wellFormed decoder read) {type : FeedType} {data : Memory}
    {received o : ℕ} {frames : List Frame} (hdata : Holds data o (frames.flatMap Frame.bytes))
    (hstop : o+(frames.flatMap Frame.bytes).length ≤ received) (hreceived : received ≤ 4096)
    (hframes : ∀ f ∈ frames, wellFormed type f) :
    List.Forall₂ (SameOn type) ((framedMessages data received o frames).map decoder)
      (frames.map read) := by
  have hread' : frames.map read = (placed o frames).map fun x => read x.2 := by
    conv_lhs => rw [← placed_frames o frames, List.map_map]
    rfl
  rw [hread', framedMessages, List.map_map, List.forall₂_map_left_iff,
    List.forall₂_map_right_iff, List.forall₂_same]
  intro x hx
  obtain ⟨hholds,hend⟩ := placed_holds hdata x hx
  have hmem : x.2 ∈ frames := placed_frames o frames ▸ List.mem_map_of_mem hx
  exact hread type data received x.1 x.2 hholds (Nat.le_trans hend hstop) hreceived
    (hframes x.2 hmem)

theorem handleMessage_sameOn (c : SymbolController) {m m' : CmeFeed.Message}
    (h : SameOn .Instrument m m') : c.handleMessage m = c.handleMessage m' := by
  have h : m.definition.map taken = m'.definition.map taken := h
  unfold SymbolController.handleMessage
  cases hm : m.definition with
  | none =>
    rw [hm, Option.map_none, eq_comm, Option.map_eq_none_iff] at h
    rw [h]
  | some d =>
    rw [hm, Option.map_some, eq_comm, Option.map_eq_some_iff] at h
    obtain ⟨d',hm',htaken⟩ := h
    obtain ⟨htotal,haction,hinstrument⟩ :
        d'.totNumReports = d.totNumReports ∧ d'.securityUpdateAction = d.securityUpdateAction ∧
          d'.instrument = d.instrument := by
      simpa only [taken, Prod.mk.injEq] using htaken
    have hsymbol : d'.symbol = d.symbol := congrArg Instrument.symbol hinstrument
    have hdefinition : ∀ c : SymbolController, c.handleDefinition d' = c.handleDefinition d := by
      intro c
      unfold SymbolController.handleDefinition
      rw [haction, hinstrument, hsymbol]
    have hcall : c.onInstrument d = c.onInstrument d' := by
      unfold SymbolController.onInstrument
      simp only [hdefinition, htotal]
    rw [hm']
    exact hcall

theorem onIncrementalMessage_sameOn (cc : ChannelController F) {m m' : CmeFeed.Message}
    (h : SameOn .Incremental m m') : cc.onIncrementalMessage m = cc.onIncrementalMessage m' := by
  obtain ⟨htemplate,hincremental,hstatus⟩ := h
  unfold ChannelController.onIncrementalMessage
  rw [← hincremental, ← htemplate]
  cases m.incremental with
  | some message => rfl
  | none =>
    dsimp only
    split_ifs with hquote hsecurity
    · rfl
    · unfold ChannelController.handleIncrementalSecurityStatus
      rw [hstatus hsecurity]
    · rfl

theorem onPacket_sameOn (ch : ChannelImpl F) {type : FeedType} (seqnum : UInt32)
    {ms ms' : List CmeFeed.Message} (h : List.Forall₂ (SameOn type) ms ms') :
    ch.onPacket type ⟨seqnum,ms⟩ = ch.onPacket type ⟨seqnum,ms'⟩ := by
  cases type with
  | Incremental =>
    have hrun := fun cc : ChannelController F =>
      run_related ChannelController.onIncrementalMessage (SameOn .Incremental)
        (fun cc _ _ hm => onIncrementalMessage_sameOn cc hm) cc h
    have hprocesses : ch.channel_controller_.Processes ⟨seqnum,ms⟩ =
        ch.channel_controller_.Processes ⟨seqnum,ms'⟩ := rfl
    dsimp only [ChannelImpl.onPacket, ChannelController.onIncrementalPacket]
    simp only [hrun, hprocesses]
  | Snapshot =>
    have hrun := fun cc : ChannelController F =>
      run_related ChannelController.handleSnapshotMessage (SameOn .Snapshot)
        (fun cc m m' hm => by
          unfold ChannelController.handleSnapshotMessage
          rw [show m.snapshotFullRefresh38 = m'.snapshotFullRefresh38 from hm]) cc h
    dsimp only [ChannelImpl.onPacket, ChannelController.onSnapshotPacket]
    rw [hrun]
  | Instrument =>
    have hpacket : ∀ c : SymbolController,
        c.handlePacket ⟨seqnum,ms⟩ = c.handlePacket ⟨seqnum,ms'⟩ := by
      intro c
      unfold SymbolController.handlePacket
      rw [run_related SymbolController.handleMessage (SameOn .Instrument)
        (fun c _ _ hm => handleMessage_sameOn c hm) c h]
    have hnumber : (⟨seqnum,ms⟩ : CmeFeed.Packet).number =
        (⟨seqnum,ms'⟩ : CmeFeed.Packet).number := rfl
    dsimp only [ChannelImpl.onPacket, SymbolController.onInstrumentPacket]
    rw [hpacket, hnumber]

theorem onPacket_unwalked (ch : ChannelImpl F) {type : FeedType} {seqnum : UInt32}
    (h : ¬ch.Walked type seqnum) (ms : List CmeFeed.Message) :
    ch.onPacket type ⟨seqnum,ms⟩ = ch.onPacket type ⟨seqnum,[]⟩ := by
  cases type with
  | Snapshot => exact absurd trivial h
  | Incremental =>
    have hskipped : ∀ ms, ch.channel_controller_.onIncrementalPacket ⟨seqnum,ms⟩ =
        (ch.channel_controller_,[]) :=
      fun ms => ChannelController.onIncrementalPacket_unprocessed h
    dsimp only [ChannelImpl.onPacket]
    rw [hskipped, hskipped]
  | Instrument =>
    have hsame : ch.symbol_controller_.onInstrumentPacket ⟨seqnum,ms⟩ =
        ch.symbol_controller_.onInstrumentPacket ⟨seqnum,[]⟩ := by
      by_cases hr : ch.symbol_controller_.Restarts ⟨seqnum,[]⟩
      · rw [SymbolController.onInstrumentPacket_restarted _ _ hr,
          SymbolController.onInstrumentPacket_restarted _ ⟨seqnum,ms⟩ hr]
      · rw [SymbolController.onInstrumentPacket_ignored _ _ h hr,
          SymbolController.onInstrumentPacket_ignored _ ⟨seqnum,ms⟩ h hr]
    dsimp only [ChannelImpl.onPacket]
    rw [hsame]

namespace Channel

theorem sent_body (d : Sent) :
    kByteOffest+(d.frames.flatMap Frame.bytes).length = d.bytes.length := by
  rw [Sent.bytes, layout, List.length_append, List.length_append, encode_length, encode_length]
  rfl

theorem sent_length (d : Sent) : kByteOffest < d.bytes.length ∧ d.bytes.length ≤ 4096 := by
  have hlength : d.bytes.length = 12+(d.frames.map Frame.size).sum := layout_length _ _ _
  have hfits := d.fits
  obtain ⟨f,fs,hframes⟩ := List.exists_cons_of_ne_nil d.nonempty
  have hge := f.size_ge
  rw [hframes, List.map_cons, List.sum_cons] at hlength hfits
  change 12 < _ ∧ _
  omega

theorem sent_holds {d : Sent} {data : Memory} (hdata : Holds data 0 d.bytes) :
    Holds data 0 (encode 4 d.seqnum.toNat) ∧
      Holds data kByteOffest (d.frames.flatMap Frame.bytes) := by
  rw [Sent.bytes, layout, holds_append, holds_append, List.length_append, encode_length,
    encode_length, Nat.zero_add, Nat.zero_add] at hdata
  exact ⟨hdata.1.1,hdata.2⟩

theorem sent_shown {d : Sent} {data : Memory} (hdata : Holds data 0 d.bytes) :
    List.Forall₂ Shows (framedMessages data d.bytes.length kByteOffest d.frames)
      (placed kByteOffest d.frames) := by
  have hbody := sent_body d
  have hfits := (sent_length d).2
  exact framed_shown (sent_holds hdata).2 (by omega)

theorem reset_sent (hwraps : ChecksBounds wraps) (q : Packet) (d : Sent) {data : Memory}
    (hdata : Holds data 0 d.bytes) :
    (q.reset data d.bytes.length).getSeqNum = d.seqnum ∧
      ∃ p', ∀ n, d.frames.length < n → loop (Packet.turn wraps) n (q.reset data d.bytes.length) =
        (framedMessages data d.bytes.length kByteOffest d.frames,.stopped p') := by
  obtain ⟨hlong,hfits⟩ := sent_length d
  obtain ⟨hnumber,hframes⟩ := sent_holds hdata
  have hprocessed := reset_processed q data d.bytes.length
  constructor
  · have hreset : (q.reset data d.bytes.length).getSeqNum =
        UInt32.ofNat (decode (window data 0 4)) := by
      unfold Packet.reset
      rw [if_pos hlong]
      rfl
    rw [hreset, decode_window d.seqnum.toNat_lt hnumber]
    exact UInt32.ofNat_toNat
  · have hwalk := walk_frames hwraps (reset_walks q data d.bytes.length)
      (by rw [hprocessed]; exact hframes) (by rw [hprocessed]; exact sent_body d) (by omega)
    rw [hprocessed] at hwalk
    exact hwalk

/-- A datagram of well-formed messages that lies in the buffer as it was sent is
handled as its packet. -/
theorem handleReceiveFrom_sent (hwraps : ChecksBounds wraps)
    (hread : Reads wellFormed decoder read) {fuel : ℕ} (hfuel : 408 ≤ fuel) (ch : Channel F)
    (type : FeedType) (feed : Feed) (d : Sent) (hframes : ∀ f ∈ d.frames, wellFormed type f)
    {data : Memory} (hdata : Holds data 0 d.bytes) :
    ∃ ch', ch.handleReceiveFrom wraps decoder fuel type feed data d.bytes.length = some ch' ∧
      ch'.impl = ch.impl.onPacket type (d.packet read) := by
  obtain ⟨hnumber,p',hloop⟩ := reset_sent hwraps (ch.packet type feed) d hdata
  have hturns := hloop (fuel+1) (Nat.lt_succ_of_le (Nat.le_trans d.frames_length hfuel))
  have hdecoded := decoded_frames hread (sent_holds hdata).2 (Nat.le_of_eq (sent_body d))
    (sent_length d).2 hframes
  unfold handleReceiveFrom
  dsimp only
  rw [hnumber]
  split_ifs with hwalked
  · rw [hturns]
    refine ⟨_,rfl,?_⟩
    dsimp only [withPacket, Packet.decoded]
    rw [hnumber]
    exact onPacket_sameOn ch.impl d.seqnum hdecoded
  · refine ⟨_,rfl,?_⟩
    dsimp only [withPacket, Packet.decoded]
    rw [hnumber]
    exact (onPacket_unwalked ch.impl hwalked _).symm

/-- The event is what the call of the channel looks like on the wire. -/
inductive Carried (wellFormed : FeedType → Frame → Prop) (read : Frame → CmeFeed.Message) :
    Event → ChannelCall → Prop
  | datagram (type : FeedType) (feed : Feed) (data : Memory) (d : Sent)
      (hframes : ∀ f ∈ d.frames, wellFormed type f) (hdata : Holds data 0 d.bytes) :
      Carried wellFormed read (.datagram type feed data d.bytes.length)
        (.OnPacket type (d.packet read))
  | subscribe (inst : Instrument) : Carried wellFormed read (.subscribe inst) (.Subscribe inst)
  | subscribeSymbol (symbol : String) :
      Carried wellFormed read (.subscribeSymbol symbol) (.SubscribeSymbol symbol)

theorem step_carried (hwraps : ChecksBounds wraps) (hread : Reads wellFormed decoder read)
    {fuel : ℕ} (hfuel : 408 ≤ fuel) (ch : Channel F) {e : Event} {c : ChannelCall}
    (h : Carried wellFormed read e c) :
    ∃ ch', ch.step wraps decoder fuel e = some ch' ∧ ch'.impl = ch.impl.call c := by
  cases h with
  | datagram type feed data d hframes hdata =>
    exact handleReceiveFrom_sent hwraps hread hfuel ch type feed d hframes hdata
  | subscribe inst => exact ⟨_,rfl,rfl⟩
  | subscribeSymbol symbol => exact ⟨_,rfl,rfl⟩

/-- Every walk ends, and the channel makes the calls that were sent. -/
theorem after_carried (hwraps : ChecksBounds wraps) (hread : Reads wellFormed decoder read)
    {fuel : ℕ} (hfuel : 408 ≤ fuel) (ch : Channel F) {events : List Event}
    {calls : List ChannelCall} (h : List.Forall₂ (Carried wellFormed read) events calls) :
    ∃ ch', after wraps decoder fuel ch events = some ch' ∧
      ch'.impl = calls.foldl ChannelImpl.call ch.impl := by
  induction h generalizing ch with
  | nil => exact ⟨ch,rfl,rfl⟩
  | @cons e c events calls hcarried _ ih =>
    obtain ⟨ch₁,hstep,himpl⟩ := step_carried hwraps hread hfuel ch hcarried
    obtain ⟨ch₂,hrest,hend⟩ := ih ch₁
    refine ⟨ch₂,?_,?_⟩
    · unfold after at hrest ⊢
      rw [List.foldlM_cons, hstep]
      exact hrest
    · rw [hend, himpl, List.foldl_cons]

end Channel

end Wire

namespace ChannelImpl

theorem calls_drives {P : FeedPacket → Prop} {cc : ChannelController F} {ch : ChannelImpl F}
    (h : Drives cc ch) (calls : List ChannelCall)
    (hcalls : ∀ type d, .OnPacket type d ∈ calls → ∀ p ∈ feedPackets type d, P p) :
    ∃ inputs, Drives (run ChannelController.onInput cc inputs).1 (calls.foldl call ch) ∧
      ∀ input ∈ inputs, ∀ p, input = .packet p → P p := by
  induction calls generalizing cc ch with
  | nil => exact ⟨[],h,nofun⟩
  | cons c calls ih =>
    have hfirst : ∀ input ∈ ch.inputs (.call c), ∀ p, input = .packet p → P p :=
      inputs_brought fun type d hc =>
        hcalls type d (PublicCall.call.inj hc ▸ List.mem_cons_self)
    obtain ⟨inputs,hdrives,hrest⟩ := ih (publicCall_drives h (.call c))
      fun type d hd => hcalls type d (List.mem_cons_of_mem _ hd)
    refine ⟨ch.inputs (.call c)++inputs,?_,fun input hinput => ?_⟩
    · rw [run_append]
      exact hdrives
    · rcases List.mem_append.mp hinput with hinput | hinput
      · exact hfirst input hinput
      · exact hrest input hinput

end ChannelImpl

namespace Wire.Channel

/-- From the bytes on: the channel makes the calls that were sent, and if they tell
the truth about an instrument, its books are those of its history, in whatever
order and however often the datagrams arrive, on whichever line, and whatever
the memory held before. -/
theorem wire_replay (wraps : ℕ → ℕ → Bool) (hwraps : ChecksBounds wraps)
    (wellFormed : FeedType → Frame → Prop) (decoder : Message → CmeFeed.Message)
    (read : Frame → CmeFeed.Message) (hread : Reads wellFormed decoder read) (fuel : ℕ)
    (hfuel : 408 ≤ fuel) (memory : UInt32 → Indeterminate) (objects : FeedType → Feed → Packet)
    (events : List Event) (calls : List ChannelCall)
    (hcarried : List.Forall₂ (Carried wellFormed read) events calls) (s : UInt32)
    (hist : ℕ → Entry) :
    ∃ ch, after wraps decoder fuel (construct memory objects : Channel F) events = some ch ∧
      ch.impl = calls.foldl ChannelImpl.call (.construct memory) ∧
      ∀ c, ch.impl.channel_controller_.getInstrumentController s = some c →
        (∀ type d, .OnPacket type d ∈ calls → ∀ p ∈ feedPackets type d, ∀ x ∈ p.deliveries s,
          Truthful F c.instrument_ hist x) →
        c.mdhandler_.books = bookAt F c.instrument_ hist c.reached := by
  obtain ⟨ch,hafter,himpl⟩ := after_carried hwraps hread hfuel
    (construct memory objects : Channel F) hcarried
  refine ⟨ch,hafter,himpl,fun c hc htruth => ?_⟩
  obtain ⟨inputs,hdrives,htrue⟩ := ChannelImpl.calls_drives
    (ChannelImpl.construct_drives memory) calls htruth
  have hfind : (run ChannelController.onInput ({memory := memory} : ChannelController F)
      inputs).1.getInstrumentController s = some c := by
    rw [← hc, himpl, show (construct memory objects : Channel F).impl = .construct memory from rfl,
      hdrives]
    rfl
  refine (ChannelController.fresh_told hfind fun input hinput => ?_).replayed
  cases input with
  | subscribe instrument => trivial
  | packet p => exact htrue _ hinput p rfl

def heartbeat : Sent where
  seqnum := 5
  sendtime := 6
  frames := [⟨[0,0,12,0,1,0,8,0],[],rfl⟩]
  nonempty := List.cons_ne_nil _ _
  fits := Nat.le_of_ble_eq_true rfl

end Wire.Channel

namespace Wire

def field (bytes : List UInt8) (offset width : ℕ) : ℕ := decode ((bytes.drop offset).take width)

def updateAction : ℕ → MDUpdateAction
  | 0 => .New
  | 1 => .Change
  | 2 => .Delete
  | 3 => .DeleteThru
  | 4 => .DeleteFrom
  | _ => .other

def entryType : ℕ → MDEntryTypeBook
  | 48 => .Bid
  | 49 => .Offer
  | 69 => .ImpliedBid
  | 70 => .ImpliedOffer
  | 74 => .BookReset
  | _ => .other

def bookEntry (bytes : List UInt8) : MDIncrementalRefreshBook32.NoMDEntries where
  mDEntryPx := ⟨(UInt64.ofNat (field bytes 0 8)).toInt64.toInt,-7⟩
  mDEntrySize := (UInt32.ofNat (field bytes 8 4)).toInt32.toInt
  securityID := (UInt32.ofNat (field bytes 12 4)).toInt32
  rptSeq := UInt32.ofNat (field bytes 16 4)
  mDPriceLevel := UInt8.ofNat (field bytes 24 1)
  mDUpdateAction := updateAction (field bytes 25 1)
  mDEntryType := entryType (field bytes 26 1)

def book (body : List UInt8) : IncrementalRefresh MDIncrementalRefreshBook32.NoMDEntries where
  noMDEntries := (List.range (field body 13 1)).map fun k =>
    bookEntry ((body.drop (14+32*k)).take 32)
  endOfEvent := decide (128 ≤ field body 8 1)

def templateOf (header : List UInt8) : ℕ := field header 2 2

def bookOf (header body : List UInt8) : CmeFeed.Message where
  templateId := templateOf header
  mDIncrementalRefreshBook32 := book body

/-- Reads a book message by the dimensions that it finds, wherever its frame ends. -/
def bookDecoder (m : Message) : CmeFeed.Message :=
  let entries := decode (window m.buffer_ (m.offset_.toNat+13) 1)
  bookOf (window m.header.buffer m.header.offset MessageHeader.encodedLength)
    (window m.buffer_ m.offset_.toNat (14+32*entries))

def BookFrame (_ : FeedType) (f : Frame) : Prop :=
  templateOf f.header = 32 → f.body.length = 14+32*field f.body 13 1

instance (type : FeedType) (f : Frame) : Decidable (BookFrame type f) :=
  inferInstanceAs (Decidable (_ → _))

theorem field_window (memory : Memory) (address offset width rest : ℕ) :
    field (window memory address (offset+width+rest)) offset width =
      decode (window memory (address+offset) width) := by
  rw [field, Nat.add_assoc, window_append, window_append,
    List.drop_left' (window_length _ _ _), List.take_left' (window_length _ _ _)]

theorem bookDecoder_reads : Reads BookFrame bookDecoder fun f => bookOf f.header f.body := by
  intro type data received o f hdata hstop hreceived hframe
  have hshows := (frame_shown hdata (by omega) received).2
  have hheader := hshows.header
  cases type with
  | Snapshot => rfl
  | Instrument =>
    change (Message.definition _).map taken = (Message.definition _).map taken
    unfold Message.definition bookDecoder bookOf
    rw [hheader]
  | Incremental =>
    refine ⟨?_,?_,fun _ => rfl⟩
    · exact congrArg templateOf hheader
    · unfold Message.incremental bookDecoder bookOf
      rw [hheader]
      by_cases hbook : templateOf f.header = 32
      · have hlength := hframe hbook
        have hbody := hshows.body
        rw [Holds, hlength] at hbody
        have hentries : field f.body 13 1 =
            decode (window data ((messageAt data received o).offset_.toNat+13) 1) := by
          rw [← hbody, show 14+32*field f.body 13 1 = 13+1+32*field f.body 13 1 by omega]
          exact field_window _ _ _ _ _
        have hbook' : window (messageAt data received o).buffer_
            (messageAt data received o).offset_.toNat
            (14+32*decode (window (messageAt data received o).buffer_
              ((messageAt data received o).offset_.toNat+13) 1)) = f.body := by
          rw [show (messageAt data received o).buffer_ = data from rfl, ← hentries]
          exact hbody
        rw [if_pos hbook, if_pos hbook]
        dsimp only
        rw [hbook']
      · rw [if_neg hbook, if_neg hbook]

namespace Channel

def bidEntry : MDIncrementalRefreshBook32.NoMDEntries where
  mDEntryPx := ⟨1000000000,-7⟩
  mDEntrySize := 5
  securityID := 7
  rptSeq := 1
  mDPriceLevel := 1
  mDUpdateAction := .New
  mDEntryType := .Bid

def bidSent : Sent where
  seqnum := 5
  sendtime := 6
  frames := [⟨[0,0,12,0,1,0,8,0],[],rfl⟩,⟨[11,0,32,0,1,0,8,0],
    encode 8 77++[132,0,0,32,0,1]++encode 8 1000000000++encode 4 5++encode 4 7++encode 4 1++
      encode 4 1++[1,0,48,0,0,0,0,0],rfl⟩]
  nonempty := List.cons_ne_nil _ _
  fits := by decide

theorem wire_replay_sample :
    let data : Memory := fun i => bidSent.bytes.getD i 255
    ∃ ch c, after checked bookDecoder 408
        (construct (fun _ => ⟨0,true⟩) (fun _ _ => blank) : Channel .exact)
        [.subscribe sampleInstrument,.datagram .Incremental .B data bidSent.bytes.length] =
          some ch ∧
      ch.impl.channel_controller_.getInstrumentController 7 = some c ∧
      c.mdhandler_.book_.bids_.levels_.map PriceLevel.quantity = [5] ∧
      c.mdhandler_.books = bookAt .exact c.instrument_ (fun _ => .book32 bidEntry) c.reached := by
  intro data
  have hcarried : List.Forall₂ (Carried BookFrame fun f => bookOf f.header f.body)
      [.subscribe sampleInstrument,.datagram .Incremental .B data bidSent.bytes.length]
      [.Subscribe sampleInstrument,
        .OnPacket .Incremental (bidSent.packet fun f => bookOf f.header f.body)] :=
    .cons (.subscribe _) (.cons (.datagram _ _ _ _ (by decide) (by decide)) .nil)
  obtain ⟨ch,hafter,himpl,hbooks⟩ := wire_replay (F := .exact) checked checked_bounds BookFrame
    bookDecoder _ bookDecoder_reads 408 (Nat.le_refl _) (fun _ => ⟨0,true⟩) (fun _ _ => blank)
    _ _ hcarried 7 fun _ => .book32 bidEntry
  have hbids : (ch.impl.channel_controller_.getInstrumentController 7).map
      (fun c => c.mdhandler_.book_.bids_.levels_.map PriceLevel.quantity) = some [5] := by
    rw [himpl]
    decide +kernel
  obtain ⟨c,hc,hfive⟩ := Option.map_eq_some_iff.mp hbids
  refine ⟨ch,c,hafter,hc,hfive,hbooks c hc fun type d hd p hp x hx => ?_⟩
  simp only [List.mem_cons, reduceCtorEq, ChannelCall.OnPacket.injEq, List.not_mem_nil, or_false,
    false_or] at hd
  obtain ⟨rfl,rfl⟩ := hd
  obtain rfl := List.mem_singleton.mp hp
  have hdeliveries : FeedPacket.deliveries 7
      (.incremental (bidSent.packet fun f => bookOf f.header f.body)) =
        [.incremental (.book32 bidEntry),.commit] := by
    decide +kernel
  rw [hdeliveries] at hx
  simp only [List.mem_cons, List.not_mem_nil, or_false] at hx
  rcases hx with rfl | rfl
  · rfl
  · trivial

end Channel

end Wire

end CmeFeed
