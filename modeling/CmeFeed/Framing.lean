import Mathlib.Data.List.Forall2
import CmeFeed.ChannelController
import CmeFeed.Datagram
import CmeFeed.SymbolController

/-!
# Datagrams that are laid out frame by frame

What a sender lays out, number, time and then every message behind its size, is
what the walk finds, whatever the packet object and the buffer held before.
-/

set_option autoImplicit false

namespace CmeFeed

open Bytes Reactive

namespace Wire

structure Frame where
  header : List UInt8
  body : List UInt8
  header_length : header.length = MessageHeader.encodedLength

namespace Frame

def size (f : Frame) : ℕ := kMsgSize+f.header.length+f.body.length

def bytes (f : Frame) : List UInt8 := encode kMsgSize f.size++f.header++f.body

theorem bytes_length (f : Frame) : f.bytes.length = f.size := by
  simp [bytes, size, Nat.add_assoc]

theorem size_ge (f : Frame) : 10 ≤ f.size := by
  have hheader : f.header.length = 8 := f.header_length
  rw [size, hheader]
  change 10 ≤ 2+8+f.body.length
  omega

end Frame

def layout (seqnum sendtime : ℕ) (frames : List Frame) : List UInt8 :=
  encode 4 seqnum++encode 8 sendtime++frames.flatMap Frame.bytes

def placed : ℕ → List Frame → List (ℕ × Frame)
  | _, [] => []
  | o, f::fs => (o,f)::placed (o+f.size) fs

structure Shows (m : Message) (x : ℕ × Frame) : Prop where
  size : m.getMsgSize.toNat = x.2.size
  header : window m.header.buffer m.header.offset MessageHeader.encodedLength = x.2.header
  start : m.start = x.1
  offset : m.offset_.toNat = x.1+kMsgSize+MessageHeader.encodedLength
  body : Holds m.buffer_ m.offset_.toNat x.2.body

theorem frame_shown {data : Memory} {o : ℕ} {f : Frame} (h : Holds data o f.bytes)
    (hsmall : o+f.size < 2^16) (received : ℕ) :
    sizeAt data o = f.size ∧ Shows (messageAt data received o) (o,f) := by
  have hlength : f.header.length = MessageHeader.encodedLength := f.header_length
  rw [Frame.bytes, holds_append, holds_append, List.length_append, encode_length, hlength] at h
  obtain ⟨⟨hsize,hheader⟩,hbody⟩ := h
  have hsizeAt : sizeAt data o = f.size := by
    have hfits : f.size < 256^kMsgSize := by
      change f.size < 256^2
      omega
    have hread := decode_window hfits hsize
    rw [sizeAt, extractMsgSize, hread, UInt16.toNat_ofNat']
    exact Nat.mod_eq_of_lt (by omega)
  have hoffset : (messageAt data received o).offset_.toNat =
      o+kMsgSize+MessageHeader.encodedLength := by
    have hge := f.size_ge
    rw [messageAt, UInt16.toNat_ofNat']
    apply Nat.mod_eq_of_lt
    change o+2+8 < 2^16
    omega
  refine ⟨hsizeAt,⟨hsizeAt,?_,(messageAt_range data received o).1,hoffset,?_⟩⟩
  · rw [Holds, hlength] at hheader
    exact hheader
  · rw [hoffset, Nat.add_assoc]
    exact hbody

variable {wraps : ℕ → ℕ → Bool} {data : Memory} {received : ℕ} {p : Packet}

theorem placed_frames (o : ℕ) (frames : List Frame) : (placed o frames).map Prod.snd = frames := by
  induction frames generalizing o with
  | nil => rfl
  | cons f frames ih => rw [placed, List.map_cons, ih]

theorem placed_holds {o : ℕ} {frames : List Frame}
    (h : Holds data o (frames.flatMap Frame.bytes)) :
    ∀ x ∈ placed o frames, Holds data x.1 x.2.bytes ∧
      x.1+x.2.size ≤ o+(frames.flatMap Frame.bytes).length := by
  induction frames generalizing o with
  | nil => simp [placed]
  | cons f frames ih =>
    rw [List.flatMap_cons, holds_append, Frame.bytes_length] at h
    rw [List.flatMap_cons, List.length_append, Frame.bytes_length, placed, List.forall_mem_cons]
    refine ⟨⟨h.1,by dsimp only; omega⟩,fun x hx => ?_⟩
    obtain ⟨hholds,hstop⟩ := ih h.2 x hx
    exact ⟨hholds,by omega⟩

/-- The messages of frames that are laid out from an offset on. -/
def framedMessages (data : Memory) (received o : ℕ) (frames : List Frame) : List Message :=
  (placed o frames).map fun x => messageAt data received x.1

theorem framed_shown {o : ℕ} {frames : List Frame}
    (h : Holds data o (frames.flatMap Frame.bytes))
    (hsmall : o+(frames.flatMap Frame.bytes).length < 2^16) :
    List.Forall₂ Shows (framedMessages data received o frames) (placed o frames) := by
  rw [framedMessages, List.forall₂_map_left_iff, List.forall₂_same]
  intro x hx
  obtain ⟨hholds,hstop⟩ := placed_holds h x hx
  exact (frame_shown hholds (Nat.lt_of_le_of_lt hstop hsmall) received).2

/-- From the first frame on the walk yields the frames and stops. -/
theorem walk_frames (hwraps : ChecksBounds wraps) (h : Walks data received p)
    {frames : List Frame} (hdata : Holds data p.processed_ (frames.flatMap Frame.bytes))
    (hreceived : p.processed_+(frames.flatMap Frame.bytes).length = received)
    (hsmall : received < 2^16) :
    ∃ p', ∀ n, frames.length < n → loop (Packet.turn wraps) n p =
      (framedMessages data received p.processed_ frames,.stopped p') := by
  induction frames generalizing p with
  | nil =>
    refine ⟨p,fun n hn => ?_⟩
    have hstop : p.turn wraps = .stop :=
      turn_stop h (by rw [List.flatMap_nil, List.length_nil] at hreceived; omega)
    cases n with
    | zero => exact absurd hn (Nat.not_lt_zero _)
    | succ n => exact loop_stop hstop n
  | cons f frames ih =>
    rw [List.flatMap_cons, holds_append, Frame.bytes_length] at hdata
    rw [List.flatMap_cons, List.length_append, Frame.bytes_length] at hreceived
    have hge := f.size_ge
    obtain ⟨hsize,-⟩ := frame_shown hdata.1 (by omega) received
    have hturn := turn_more wraps h (by omega)
    have haccepted : wraps (p.processed_+kMsgSize) received = true := by
      rw [hwraps]
      change p.processed_+2+8 ≤ received
      omega
    rw [if_pos haccepted, hsize] at hturn
    obtain ⟨p',hloop⟩ := ih (p := {p with
      message_ := messageAt data received p.processed_, processed_ := p.processed_+f.size})
      ⟨h.data,h.received⟩ hdata.2 (by dsimp only; omega)
    refine ⟨p',fun n hn => ?_⟩
    cases n with
    | zero => exact absurd hn (Nat.not_lt_zero _)
    | succ n =>
      rw [List.length_cons] at hn
      rw [loop_next hturn, hloop n (by omega)]
      rfl

theorem layout_length (seqnum sendtime : ℕ) (frames : List Frame) :
    (layout seqnum sendtime frames).length = 12+(frames.map Frame.size).sum := by
  induction frames with
  | nil => simp [layout]
  | cons f frames ih =>
    simp only [layout, List.length_append, encode_length, List.flatMap_cons, List.map_cons,
      List.sum_cons, Frame.bytes_length] at ih ⊢
    omega

/-- A datagram that is laid out from a number, a time and some frames is read as
that number, that time and exactly those frames, in order, whatever the packet
object did before and whatever the buffer holds behind the datagram. -/
theorem framing_round_trip (wraps : ℕ → ℕ → Bool) (hwraps : ChecksBounds wraps) (q : Packet)
    (data : Memory) (seqnum sendtime : ℕ) (frames : List Frame) (hseqnum : seqnum < 2^32)
    (hsendtime : sendtime < 2^64) (hframes : frames ≠ [])
    (htotal : 12+(frames.map Frame.size).sum ≤ 4096)
    (hdata : Holds data 0 (layout seqnum sendtime frames)) :
    let p := q.reset data (layout seqnum sendtime frames).length
    p.getSeqNum.toNat = seqnum ∧ p.getSendTime.toNat = sendtime ∧
      ∃ ms p', (∀ n, frames.length < n → loop (Packet.turn wraps) n p = (ms,.stopped p')) ∧
        List.Forall₂ Shows ms (placed kByteOffest frames) := by
  intro p
  have hlength := layout_length seqnum sendtime frames
  have hlong : kByteOffest < (layout seqnum sendtime frames).length := by
    obtain ⟨f,fs,rfl⟩ := List.exists_cons_of_ne_nil hframes
    have hge := f.size_ge
    rw [hlength, List.map_cons, List.sum_cons]
    change 12 < _
    omega
  have hparts := hdata
  rw [layout, holds_append, holds_append, List.length_append, encode_length, encode_length,
    Nat.zero_add, Nat.zero_add] at hparts
  obtain ⟨⟨hnumber,htime⟩,hbody⟩ := hparts
  have hreset : p = {q with
      rawbytes_ := data, received_ := (layout seqnum sendtime frames).length
      processed_ := kByteOffest, seqnum_ := UInt32.ofNat (decode (window data 0 4))
      sendtime_ := UInt64.ofNat (decode (window data 4 8))} := if_pos hlong
  refine ⟨?_,?_,?_⟩
  · rw [hreset, Packet.getSeqNum, decode_window (by omega) hnumber, UInt32.toNat_ofNat']
    exact Nat.mod_eq_of_lt hseqnum
  · rw [hreset, Packet.getSendTime, decode_window (by omega) htime, UInt64.toNat_ofNat']
    exact Nat.mod_eq_of_lt hsendtime
  · have hprocessed : p.processed_ = kByteOffest := reset_processed q data _
    have hstop : kByteOffest+(frames.flatMap Frame.bytes).length =
        (layout seqnum sendtime frames).length := by
      rw [layout, List.length_append, List.length_append, encode_length, encode_length]
      rfl
    obtain ⟨p',hloop⟩ := walk_frames hwraps (p := p) (reset_walks q data _)
      (by rw [hprocessed]; exact hbody) (by rw [hprocessed]; exact hstop) (by omega)
    rw [hprocessed] at hloop
    exact ⟨_,p',hloop,framed_shown hbody (by omega)⟩

def sampleFrames : List Frame :=
  [⟨[9,0,32,0,1,0,9,0],[1,2,3],rfl⟩,⟨[0,0,12,0,1,0,9,0],[],rfl⟩]

def sampleBuffer : Memory := fun i => (layout 5 6 sampleFrames).getD i 255

theorem framing_round_trip_sample :
    let p := blank.reset sampleBuffer 35
    p.getSeqNum.toNat = 5 ∧ p.getSendTime.toNat = 6 ∧
      ∃ ms p', (∀ n, 2 < n → loop (Packet.turn checked) n p = (ms,.stopped p')) ∧
        List.Forall₂ Shows ms (placed kByteOffest sampleFrames) :=
  framing_round_trip checked checked_bounds blank sampleBuffer 5 6 sampleFrames (by decide)
    (by decide) (by decide) (by decide) (by decide)

/-- The packet of the controllers: its number and what the decoders make of the
messages the walk yields. -/
def Packet.decoded (decoder : Message → CmeFeed.Message) (p : Packet) (ms : List Message) :
    CmeFeed.Packet :=
  ⟨p.getSeqNum,ms.map decoder⟩

theorem walk_run {T A : Type} (decoder : Message → CmeFeed.Message)
    (handle : T → CmeFeed.Message → T × List A) {n : ℕ} {ms : List Message} {p' : Packet}
    (h : loop (Packet.turn wraps) n p = (ms,.stopped p')) (t : T) :
    loopWith (Packet.turn wraps) (fun t m => handle t (decoder m)) n p t =
      (run handle t (p.decoded decoder ms).messages,.stopped p') := by
  rw [loopWith_eq, h, Packet.decoded, run_map]

theorem controllers_walk {F : Floats} (decoder : Message → CmeFeed.Message) {n : ℕ}
    {ms : List Message} {p' : Packet} (h : loop (Packet.turn wraps) n p = (ms,.stopped p'))
    (cc : ChannelController F) (c : SymbolController) :
    let packet := p.decoded decoder ms
    (loopWith (Packet.turn wraps)
        (fun cc m => ChannelController.handleSnapshotMessage cc (decoder m)) n p cc).1 = cc.onSnapshotPacket packet ∧
      (loopWith (Packet.turn wraps) (fun c m => SymbolController.handleMessage c (decoder m))
        n p c).1 = (c.handlePacket packet).1 ∧
      (cc.Processes packet →
        let r := (loopWith (Packet.turn wraps)
          (fun cc m => ChannelController.onIncrementalMessage cc (decoder m)) n p
          {cc with expectedseqnum_ := (packet.seqnum+1).toNat}).1
        cc.onIncrementalPacket packet = (r.1,r.2++r.1.gapReport packet)) := by
  intro packet
  refine ⟨?_,?_,fun hp => ?_⟩
  · rw [walk_run decoder _ h]
    rfl
  · rw [walk_run decoder _ h]
    rfl
  · rw [walk_run decoder _ h]
    exact ChannelController.onIncrementalPacket_processed hp

end Wire

end CmeFeed
