import CmeFeed.Bytes
import CmeFeed.Reactive.Loop

/-!
# The walk over a datagram

A packet is a view of the receive buffer, which is used again and again: the
bytes behind a datagram are those of earlier ones. The walk goes from message
to message by the size fields it finds. The header decoder is generated: it is
modelled by the view it keeps, and whether it accepts an offset is a parameter.
-/

set_option autoImplicit false

namespace CmeFeed

open Bytes Reactive

namespace Wire

def kMsgSize : ℕ := 2

def kByteOffest : ℕ := 12

/-- The generated header, eight bytes long; its fields are read where it points. -/
structure MessageHeader where
  buffer : Memory
  offset : ℕ
  bufferLength : ℕ

def MessageHeader.encodedLength : ℕ := 8

structure Message where
  msg_size_ : UInt16
  buffer_ : Memory
  offset_ : UInt16
  header : MessageHeader

structure Packet where
  rawbytes_ : Memory
  seqnum_ : UInt32 := 0
  sendtime_ : UInt64 := 0
  processed_ : ℕ := 0
  received_ : ℕ := 0
  message_ : Message

/-- `wraps offset bufferLength` says whether the generated `wrap` returns; it
throws otherwise. -/
def MessageHeader.wrap (wraps : ℕ → ℕ → Bool) (buffer : Memory) (offset bufferLength : ℕ) :
    Option MessageHeader :=
  if wraps offset bufferLength then some ⟨buffer,offset,bufferLength⟩ else none

def extractMsgSize (buffer : Memory) (offset : ℕ) : UInt16 :=
  UInt16.ofNat (decode (window buffer offset kMsgSize))

namespace Message

/-- What an exception leaves in the object is overwritten before it is read. -/
def reset (wraps : ℕ → ℕ → Bool) (m : Message) (buffer : Memory) (offset buffer_length : ℕ) :
    Option Message :=
  (MessageHeader.wrap wraps buffer (offset+kMsgSize) buffer_length).map fun header =>
    {m with
      msg_size_ := extractMsgSize buffer offset
      header := header
      buffer_ := buffer
      offset_ := UInt16.ofNat (offset+kMsgSize+MessageHeader.encodedLength)}

def getMsgSize (m : Message) : UInt16 := m.msg_size_

end Message

namespace Packet

def hasNextMessage (p : Packet) : Bool := decide (p.processed_ < p.received_)

def nextMessage (wraps : ℕ → ℕ → Bool) (p : Packet) : Option Packet :=
  (p.message_.reset wraps p.rawbytes_ p.processed_ p.received_).map fun m =>
    {p with message_ := m, processed_ := p.processed_+m.msg_size_.toNat}

/-- A datagram without a body leaves number and time as they were. -/
def reset (p : Packet) (data : Memory) (received : ℕ) : Packet :=
  let p := {p with rawbytes_ := data, received_ := received, processed_ := kByteOffest}
  if kByteOffest < received then
    {p with
      seqnum_ := UInt32.ofNat (decode (window data 0 4))
      sendtime_ := UInt64.ofNat (decode (window data 4 8))}
  else p

def getSeqNum (p : Packet) : UInt32 := p.seqnum_

def getSendTime (p : Packet) : UInt64 := p.sendtime_

/-- One turn of `while (HasNextMessage()) NextMessage()`. -/
def turn (wraps : ℕ → ℕ → Bool) (p : Packet) : Turn Packet Message :=
  if p.hasNextMessage then
    match p.nextMessage wraps with
    | some p' => .next p' p'.message_
    | none => .fail
  else .stop

end Packet

def sizeAt (data : Memory) (offset : ℕ) : ℕ := (extractMsgSize data offset).toNat

def messageAt (data : Memory) (received offset : ℕ) : Message where
  msg_size_ := extractMsgSize data offset
  buffer_ := data
  offset_ := UInt16.ofNat (offset+kMsgSize+MessageHeader.encodedLength)
  header := ⟨data,offset+kMsgSize,received⟩

structure Walks (data : Memory) (received : ℕ) (p : Packet) : Prop where
  data : p.rawbytes_ = data
  received : p.received_ = received

variable {wraps : ℕ → ℕ → Bool} {data : Memory} {received : ℕ} {p : Packet}

theorem reset_walks (q : Packet) (data : Memory) (received : ℕ) :
    Walks data received (q.reset data received) := by
  unfold Packet.reset
  dsimp only
  split_ifs <;> exact ⟨rfl,rfl⟩

theorem reset_processed (q : Packet) (data : Memory) (received : ℕ) :
    (q.reset data received).processed_ = kByteOffest := by
  unfold Packet.reset
  dsimp only
  split_ifs <;> rfl

theorem hasNextMessage_eq (h : Walks data received p) :
    p.hasNextMessage = decide (p.processed_ < received) := by
  rw [Packet.hasNextMessage, h.received]

theorem turn_stop (h : Walks data received p) (hend : received ≤ p.processed_) :
    p.turn wraps = .stop := by
  rw [Packet.turn, hasNextMessage_eq h, decide_eq_false (Nat.not_lt.mpr hend)]
  rfl

theorem turn_more (wraps : ℕ → ℕ → Bool) (h : Walks data received p)
    (hmore : p.processed_ < received) :
    p.turn wraps =
      if wraps (p.processed_+kMsgSize) received then
        .next {p with
          message_ := messageAt data received p.processed_
          processed_ := p.processed_+sizeAt data p.processed_}
          (messageAt data received p.processed_)
      else .fail := by
  rw [Packet.turn, hasNextMessage_eq h, decide_eq_true hmore, if_pos rfl, Packet.nextMessage,
    Message.reset, MessageHeader.wrap, h.data, h.received]
  by_cases hw : wraps (p.processed_+kMsgSize) received = true
  · rw [if_pos hw, if_pos hw]
    rfl
  · rw [if_neg hw, if_neg hw]
    rfl

theorem turn_next (h : Walks data received p) {p' : Packet} {m : Message}
    (hturn : p.turn wraps = .next p' m) :
    p.processed_ < received ∧ wraps (p.processed_+kMsgSize) received = true ∧
      m = messageAt data received p.processed_ ∧ Walks data received p' ∧
      p'.processed_ = p.processed_+sizeAt data p.processed_ := by
  by_cases hmore : p.processed_ < received
  · rw [turn_more wraps h hmore] at hturn
    split_ifs at hturn with hw
    obtain ⟨rfl,rfl⟩ := Turn.next.inj hturn
    exact ⟨hmore,hw,rfl,⟨h.data,h.received⟩,rfl⟩
  · rw [turn_stop h (by omega)] at hturn
    exact absurd hturn nofun

theorem reaches_walks {p' : Packet} (h : Walks data received p)
    (hreaches : Reaches (Packet.turn wraps) p p') : Walks data received p' :=
  hreaches.invariant (fun _ _ _ ha hturn => (turn_next ha hturn).2.2.2.1) h

theorem reached_walks {q p : Packet}
    (h : Reaches (Packet.turn wraps) (q.reset data received) p) : Walks data received p :=
  reaches_walks (reset_walks q data received) h

/-- The offsets at which the walk looks for a message: the first one, and behind
every message whose header is accepted. -/
inductive Position (wraps : ℕ → ℕ → Bool) (data : Memory) (received : ℕ) : ℕ → Prop
  | start : Position wraps data received kByteOffest
  | next {o : ℕ} (h : Position wraps data received o) (hmore : o < received)
      (hwraps : wraps (o+kMsgSize) received = true) :
      Position wraps data received (o+sizeAt data o)

theorem reaches_position {q p : Packet}
    (h : Reaches (Packet.turn wraps) (q.reset data received) p) :
    Position wraps data received p.processed_ := by
  induction h with
  | refl =>
    rw [reset_processed]
    exact .start
  | next hreaches hturn ih =>
    obtain ⟨hmore,hwraps,-,-,hprocessed⟩ :=
      turn_next (reached_walks hreaches) hturn
    rw [hprocessed]
    exact .next ih hmore hwraps

theorem position_reached (q : Packet) {o : ℕ} (h : Position wraps data received o) :
    ∃ p, Reaches (Packet.turn wraps) (q.reset data received) p ∧ p.processed_ = o := by
  induction h with
  | start => exact ⟨_,.refl,reset_processed q data received⟩
  | next _ hmore hwraps ih =>
    obtain ⟨p,hreaches,rfl⟩ := ih
    have hturn := turn_more wraps
      (reached_walks hreaches) hmore
    rw [if_pos hwraps] at hturn
    exact ⟨_,.next hreaches hturn,rfl⟩

def SizesPositive (wraps : ℕ → ℕ → Bool) (data : Memory) (received : ℕ) : Prop :=
  ∀ o, Position wraps data received o → o < received →
    wraps (o+kMsgSize) received = true → 0 < sizeAt data o

def Packet.remaining (p : Packet) : ℤ := (p.received_:ℤ)-p.processed_

theorem turn_remaining (h : Walks data received p) {p' : Packet} {m : Message}
    (hturn : p.turn wraps = .next p' m) :
    p'.remaining = p.remaining-(sizeAt data p.processed_:ℤ) := by
  obtain ⟨-,-,-,hp',hprocessed⟩ := turn_next h hturn
  unfold Packet.remaining
  rw [hprocessed, hp'.received, h.received]
  omega

theorem stuck_forever (q : Packet) {o : ℕ} (ho : Position wraps data received o)
    (hmore : o < received) (hwraps : wraps (o+kMsgSize) received = true)
    (hzero : sizeAt data o = 0) : ¬Ends (Packet.turn wraps) (q.reset data received) := by
  obtain ⟨p,hreaches,hp⟩ := position_reached q ho
  apply not_ends (fun p => Walks data received p ∧ p.processed_ = o) _ hreaches
  · exact ⟨reached_walks hreaches,hp⟩
  · rintro a ⟨ha,hprocessed⟩
    have hturn := turn_more wraps ha (by rw [hprocessed]; exact hmore)
    rw [hprocessed, if_pos hwraps] at hturn
    refine ⟨_,_,hturn,⟨ha.data,ha.received⟩,?_⟩
    dsimp only
    rw [hzero, Nat.add_zero]

theorem positive_ends (q : Packet) (hpositive : SizesPositive wraps data received) :
    Ends (Packet.turn wraps) (q.reset data received) ∧
      ∀ a b m, Reaches (Packet.turn wraps) (q.reset data received) a →
        a.turn wraps = .next b m → b.remaining < a.remaining := by
  have hless : ∀ a b m, Reaches (Packet.turn wraps) (q.reset data received) a →
      a.turn wraps = .next b m → b.remaining < a.remaining := by
    intro a b m ha hturn
    have hwalks := reached_walks ha
    obtain ⟨hmore,hwraps,-⟩ := turn_next hwalks hturn
    have hsize := hpositive a.processed_ (reaches_position ha) hmore hwraps
    rw [turn_remaining hwalks hturn]
    omega
  constructor
  · apply ends_of_variant fun a => a.remaining.toNat
    intro a b m ha hturn
    have hwalks := reached_walks ha
    have hmore := (turn_next hwalks hturn).1
    have hdrop := hless a b m ha hturn
    have hleft : 0 < a.remaining := by
      unfold Packet.remaining
      rw [hwalks.received]
      omega
    omega
  · exact hless

/-- The walk over a datagram ends, every `NextMessage` leaving less of it than
there was, exactly if no size field that it follows is zero. -/
theorem walk_ends (wraps : ℕ → ℕ → Bool) (q : Packet) (data : Memory) (received : ℕ) :
    let p := q.reset data received
    (Ends (Packet.turn wraps) p ∧ ∀ a b m, Reaches (Packet.turn wraps) p a →
      a.turn wraps = .next b m → b.remaining < a.remaining) ↔
      SizesPositive wraps data received := by
  intro p
  constructor
  · rintro ⟨hends,-⟩ o ho hmore hwraps
    by_contra hzero
    exact stuck_forever q ho hmore hwraps (by omega) hends
  · exact positive_ends q

def checked (offset bufferLength : ℕ) : Bool := decide (offset+8 ≤ bufferLength)

def blank : Packet where
  rawbytes_ := fun _ => 0
  message_ := messageAt (fun _ => 0) 0 0

/-- A datagram of zeros that a header fits into. -/
theorem walk_ends_zeros : ¬Ends (Packet.turn checked) (blank.reset (fun _ => 0) 22) :=
  stuck_forever blank .start (by decide) (by decide) (by decide)

structure Footprint where
  offset : ℕ
  length : ℕ

def Footprint.Within (f : Footprint) (received : ℕ) : Prop := f.offset+f.length ≤ received

def resetReads (received : ℕ) : List Footprint :=
  if kByteOffest < received then [⟨0,4⟩,⟨4,8⟩] else []

def Packet.reads (wraps : ℕ → ℕ → Bool) (p : Packet) : List Footprint :=
  if p.hasNextMessage then
    ⟨p.processed_,kMsgSize⟩::
      if wraps (p.processed_+kMsgSize) p.received_ then
        [⟨p.processed_+kMsgSize,MessageHeader.encodedLength⟩]
      else []
  else []

theorem reset_footprint (q : Packet) {data data' : Memory} {received : ℕ}
    (h : ∀ f ∈ resetReads received, ∀ i, f.offset ≤ i → i < f.offset+f.length →
      data i = data' i) :
    (q.reset data received).getSeqNum = (q.reset data' received).getSeqNum ∧
      (q.reset data received).getSendTime = (q.reset data' received).getSendTime := by
  unfold Packet.reset
  dsimp only
  by_cases hr : kByteOffest < received
  · rw [resetReads, if_pos hr] at h
    rw [if_pos hr, if_pos hr, Packet.getSeqNum, Packet.getSendTime,
      window_congr (h ⟨0,4⟩ (by simp)), window_congr (h ⟨4,8⟩ (by simp))]
    exact ⟨rfl,rfl⟩
  · rw [if_neg hr, if_neg hr]
    exact ⟨rfl,rfl⟩

theorem sizeAt_footprint {data data' : Memory} {o : ℕ}
    (h : ∀ i, o ≤ i → i < o+kMsgSize → data i = data' i) : sizeAt data o = sizeAt data' o := by
  rw [sizeAt, sizeAt, extractMsgSize, extractMsgSize, window_congr h]

namespace Message

def start (m : Message) : ℕ := m.header.offset-kMsgSize

def stop (m : Message) : ℕ := m.start+m.getMsgSize.toNat

end Message

theorem messageAt_range (data : Memory) (received o : ℕ) :
    (messageAt data received o).start = o ∧
      (messageAt data received o).getMsgSize.toNat = sizeAt data o ∧
      (messageAt data received o).stop = o+sizeAt data o := by
  have hstart : (messageAt data received o).start = o := Nat.add_sub_cancel o kMsgSize
  refine ⟨hstart,rfl,?_⟩
  rw [Message.stop, hstart]
  rfl

/-- Every byte that framing reads and every message it yields is inside the
datagram; the walk ends at its end or is rejected. -/
structure Inside (wraps : ℕ → ℕ → Bool) (q : Packet) (data : Memory) (received : ℕ) : Prop where
  header : ∀ f ∈ resetReads received, f.Within received
  reads : ∀ p, Reaches (Packet.turn wraps) (q.reset data received) p →
    ∀ f ∈ p.reads wraps, f.Within received
  yields : ∀ n, ∀ m ∈ (loop (Packet.turn wraps) n (q.reset data received)).1,
    10 ≤ m.getMsgSize.toNat ∧ m.stop ≤ received
  disjoint : ∀ n, (loop (Packet.turn wraps) n (q.reset data received)).1.Pairwise
    fun m m' => m.stop ≤ m'.start
  rejects : ∃ n p, (loop (Packet.turn wraps) n (q.reset data received)).2 = .failed p ∨
    (loop (Packet.turn wraps) n (q.reset data received)).2 = .stopped p ∧
      (kByteOffest < received → p.processed_ = received)

/-- From the offset on the datagram consists of messages, but for a size field
with less than a header behind it at the end. -/
inductive Framed (data : Memory) (received : ℕ) : ℕ → Prop
  | exhausted : Framed data received received
  | truncated {o : ℕ} (hsize : o+kMsgSize ≤ received)
      (hheader : received < o+kMsgSize+MessageHeader.encodedLength) : Framed data received o
  | frame {o : ℕ} (hsize : 10 ≤ sizeAt data o) (hstop : o+sizeAt data o ≤ received)
      (h : Framed data received (o+sizeAt data o)) : Framed data received o

def ChecksBounds (wraps : ℕ → ℕ → Bool) : Prop :=
  ∀ offset bufferLength, wraps offset bufferLength = true ↔
    offset+MessageHeader.encodedLength ≤ bufferLength

theorem loop_ordered (h : Walks data received p) (n : ℕ) :
    (loop (Packet.turn wraps) n p).1.Pairwise (fun m m' => m.stop ≤ m'.start) ∧
      ∀ m ∈ (loop (Packet.turn wraps) n p).1, p.processed_ ≤ m.start := by
  induction n generalizing p with
  | zero => exact ⟨.nil,by simp [loop]⟩
  | succ n ih =>
    cases hturn : p.turn wraps with
    | stop => simp [loop_stop hturn]
    | next p' m =>
      obtain ⟨-,-,rfl,hp',hprocessed⟩ := turn_next h hturn
      obtain ⟨hpairs,hstarts⟩ := ih hp'
      obtain ⟨hstart,-,hstop⟩ := messageAt_range data received p.processed_
      rw [loop_next hturn]
      constructor
      · refine List.pairwise_cons.mpr ⟨fun m' hm' => ?_,hpairs⟩
        rw [hstop, ← hprocessed]
        exact hstarts m' hm'
      · intro m' hm'
        rcases List.mem_cons.mp hm' with rfl | hm'
        · exact Nat.le_of_eq hstart.symm
        · have := hstarts m' hm'
          omega
    | fail => simp [loop_fail hturn]

theorem Framed.le {o : ℕ} (h : Framed data received o) : o ≤ received := by
  cases h with
  | exhausted => exact Nat.le_refl _
  | truncated hsize _ => omega
  | frame _ hstop _ => omega

theorem Framed.accepted (hwraps : ChecksBounds wraps) {o : ℕ} (h : Framed data received o)
    (hmore : o < received) (hw : wraps (o+kMsgSize) received = true) :
    10 ≤ sizeAt data o ∧ o+sizeAt data o ≤ received ∧ Framed data received (o+sizeAt data o) := by
  rw [hwraps] at hw
  cases h with
  | exhausted => omega
  | truncated _ hheader => omega
  | frame hsize hstop hnext => exact ⟨hsize,hstop,hnext⟩

theorem reaches_framed (hwraps : ChecksBounds wraps) {q p : Packet}
    (hframed : Framed data received kByteOffest)
    (h : Reaches (Packet.turn wraps) (q.reset data received) p) :
    Framed data received p.processed_ := by
  induction h with
  | refl =>
    rw [reset_processed]
    exact hframed
  | next hreaches hturn ih =>
    obtain ⟨hmore,hw,-,-,hprocessed⟩ :=
      turn_next (reached_walks hreaches) hturn
    rw [hprocessed]
    exact (ih.accepted hwraps hmore hw).2.2

theorem resetReads_within (received : ℕ) : ∀ f ∈ resetReads received, f.Within received := by
  unfold resetReads
  split_ifs with hr
  · have h : 12 < received := hr
    simp only [List.mem_cons, List.not_mem_nil, or_false, forall_eq_or_imp, forall_eq,
      Footprint.Within]
    omega
  · simp

theorem reads_more (h : Walks data received p) (hmore : p.processed_ < received) :
    p.reads wraps = ⟨p.processed_,kMsgSize⟩::
      if wraps (p.processed_+kMsgSize) received then
        [⟨p.processed_+kMsgSize,MessageHeader.encodedLength⟩] else [] := by
  rw [Packet.reads, hasNextMessage_eq h, decide_eq_true hmore, if_pos rfl, h.received]

theorem reads_end (h : Walks data received p) (hend : received ≤ p.processed_) :
    p.reads wraps = [] := by
  rw [Packet.reads, hasNextMessage_eq h, decide_eq_false (Nat.not_lt.mpr hend)]
  rfl

theorem short_inside (wraps : ℕ → ℕ → Bool) (q : Packet) (data : Memory) {received : ℕ}
    (hshort : received ≤ kByteOffest) : Inside wraps q data received := by
  have hstop : (q.reset data received).turn wraps = .stop :=
    turn_stop (reset_walks q data received) (by rw [reset_processed]; exact hshort)
  have hyields : ∀ n, (loop (Packet.turn wraps) n (q.reset data received)).1 = [] := by
    intro n
    cases n with
    | zero => rfl
    | succ n => rw [loop_stop hstop]
  constructor
  · exact resetReads_within received
  · intro p hp f hf
    have hprocessed : received ≤ p.processed_ := by
      rw [hp.stopped hstop, reset_processed]
      exact hshort
    rw [reads_end (reached_walks hp) hprocessed] at hf
    exact absurd hf List.not_mem_nil
  · intro n m hm
    rw [hyields n] at hm
    exact absurd hm List.not_mem_nil
  · intro n
    rw [hyields n]
    exact .nil
  · exact ⟨1,q.reset data received,Or.inr ⟨by rw [loop_stop hstop],fun hr => by omega⟩⟩

theorem Framed.sizeField {o : ℕ} (h : Framed data received o) (hmore : o < received) :
    o+kMsgSize ≤ received := by
  cases h with
  | exhausted => omega
  | truncated hsize _ => exact hsize
  | frame hsize hstop _ =>
    change o+2 ≤ received
    omega

theorem Framed.reads_within (hwraps : ChecksBounds wraps) {p : Packet}
    (hwalks : Walks data received p) (hframed : Framed data received p.processed_) :
    ∀ f ∈ p.reads wraps, f.Within received := by
  intro f hf
  by_cases hmore : p.processed_ < received
  · rw [reads_more hwalks hmore] at hf
    rcases List.mem_cons.mp hf with rfl | hf
    · exact hframed.sizeField hmore
    · split_ifs at hf with hw
      · rw [List.mem_singleton.mp hf]
        exact (hwraps _ _).mp hw
      · exact absurd hf List.not_mem_nil
  · rw [reads_end hwalks (Nat.le_of_not_lt hmore)] at hf
    exact absurd hf List.not_mem_nil

theorem framed_positive (hwraps : ChecksBounds wraps) (q : Packet)
    (hframed : Framed data received kByteOffest) : SizesPositive wraps data received := by
  intro o ho hmore hw
  obtain ⟨p,hp,rfl⟩ := position_reached q ho
  have hsize := ((reaches_framed hwraps hframed hp).accepted hwraps hmore hw).1
  omega

theorem Framed.stopped {p : Packet} (hwalks : Walks data received p)
    (hframed : Framed data received p.processed_) (hstop : p.turn wraps = .stop) :
    p.processed_ = received := by
  have hle := hframed.le
  by_contra hne
  rw [turn_more wraps hwalks (by omega)] at hstop
  split_ifs at hstop

theorem framed_inside (hwraps : ChecksBounds wraps) (q : Packet)
    (hframed : Framed data received kByteOffest) : Inside wraps q data received := by
  constructor
  · exact resetReads_within received
  · intro p hp
    exact (reaches_framed hwraps hframed hp).reads_within hwraps (reached_walks hp)
  · intro n m hm
    obtain ⟨a,b,ha,hturn⟩ := loop_yields hm
    obtain ⟨hmore,hw,rfl,-,-⟩ := turn_next (reached_walks ha) hturn
    obtain ⟨-,hsize,hstop⟩ := messageAt_range data received a.processed_
    have haccepted := (reaches_framed hwraps hframed ha).accepted hwraps hmore hw
    rw [hsize, hstop]
    exact ⟨haccepted.1,haccepted.2.1⟩
  · exact fun n => (loop_ordered (reset_walks q data received) n).1
  · obtain ⟨n,hn⟩ := (positive_ends q (framed_positive hwraps q hframed)).1
    cases hend : (loop (Packet.turn wraps) n (q.reset data received)).2 with
    | running p => exact absurd hend (hn p)
    | failed p => exact ⟨n,p,Or.inl hend⟩
    | stopped p =>
      obtain ⟨hp,hstop⟩ := loop_reaches hend
      have hall : p.processed_ = received :=
        (reaches_framed hwraps hframed hp).stopped (reached_walks hp) hstop
      exact ⟨n,p,Or.inr ⟨hend,fun _ => hall⟩⟩

/-- What stays inside from a state that is reached is framed from there on. -/
theorem inside_framed (hwraps : ChecksBounds wraps) {q : Packet}
    (h : Inside wraps q data received) {p : Packet}
    (hp : Reaches (Packet.turn wraps) (q.reset data received) p) (hle : p.processed_ ≤ received) :
    Framed data received p.processed_ := by
  induction hleft : received-p.processed_ using Nat.strong_induction_on generalizing p with
  | _ left ih =>
    subst hleft
    have hwalks := reached_walks hp
    by_cases hend : p.processed_ = received
    · rw [hend]
      exact .exhausted
    have hmore : p.processed_ < received := by omega
    have hsizeField : p.processed_+kMsgSize ≤ received := by
      apply h.reads p hp ⟨p.processed_,kMsgSize⟩
      rw [reads_more hwalks hmore]
      exact List.mem_cons_self
    by_cases hw : wraps (p.processed_+kMsgSize) received = true
    · have hturn := turn_more wraps hwalks hmore
      rw [if_pos hw] at hturn
      obtain ⟨n,hn⟩ := reaches_loop hp hturn
      obtain ⟨hsize,hstop⟩ := h.yields n _ hn
      obtain ⟨-,hsizeAt,hstopAt⟩ := messageAt_range data received p.processed_
      rw [hsizeAt] at hsize
      rw [hstopAt] at hstop
      refine .frame hsize hstop (ih _ ?_ (.next hp hturn) hstop rfl)
      dsimp only
      omega
    · rw [hwraps] at hw
      exact .truncated hsizeField (by omega)

/-- The walk stays inside a datagram exactly if it has no body or consists of
messages, the end of which may be cut off inside a header. -/
theorem walk_inside (wraps : ℕ → ℕ → Bool) (hwraps : ChecksBounds wraps) (q : Packet)
    (data : Memory) (received : ℕ) :
    Inside wraps q data received ↔
      received ≤ kByteOffest ∨ Framed data received kByteOffest := by
  constructor
  · intro h
    by_cases hshort : received ≤ kByteOffest
    · exact Or.inl hshort
    · have hframed := inside_framed hwraps h .refl (by rw [reset_processed]; omega)
      rw [reset_processed] at hframed
      exact Or.inr hframed
  · rintro (hshort | hframed)
    · exact short_inside wraps q data hshort
    · exact framed_inside hwraps q hframed

theorem checked_bounds : ChecksBounds checked := fun _ _ => decide_eq_true_iff

def oneSize (size : UInt8) : Memory := fun i => if i = 12 then size else 0

theorem walk_inside_sample : Inside checked blank (oneSize 10) 22 :=
  (walk_inside checked checked_bounds blank (oneSize 10) 22).mpr
    (Or.inr (.frame (by decide) (by decide) .exhausted))

/-- A size beyond the end is yielded as it is. -/
theorem walk_inside_beyond : ¬Inside checked blank (oneSize 40) 22 := by
  intro h
  have hyields := h.yields 1 (messageAt (oneSize 40) 22 12) List.mem_cons_self
  exact absurd hyields.2 (by decide)

end Wire

end CmeFeed
