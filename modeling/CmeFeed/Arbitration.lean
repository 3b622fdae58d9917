import CmeFeed.Isolation
import CmeFeed.Replay
import CmeFeed.Reactive.Records

/-!
# Arbitration between the two lines of the incremental feed

The channel reads both lines of the incremental feed and tells the copies apart
by one counter. It handles the messages of a packet exactly when the packet is
a strict record of what has arrived, so two copies of one stream, interleaved
in any way, have the effect of one.
-/

set_option autoImplicit false

namespace CmeFeed

open Reactive

variable {F : Floats}

namespace ChannelController

def withExpected (e : ℤ) (cc : ChannelController F) : ChannelController F :=
  {cc with expectedseqnum_ := e}

theorem deliver_withExpected (e : ℤ) (cc : ChannelController F) (k : UInt32) (d : Delivery) :
    (cc.withExpected e).deliver k d = ((cc.deliver k d).1.withExpected e,(cc.deliver k d).2) := by
  have hsame : (cc.withExpected e).getInstrumentController k = cc.getInstrumentController k := rfl
  unfold deliver
  rw [hsame]
  cases cc.getInstrumentController k <;> rfl

theorem onIncrementalMessage_withExpected (e : ℤ) (cc : ChannelController F) (m : Message) :
    (cc.withExpected e).onIncrementalMessage m =
      ((cc.onIncrementalMessage m).1.withExpected e,(cc.onIncrementalMessage m).2) := by
  unfold onIncrementalMessage
  cases m.incremental with
  | some message =>
    have hentries := run_unnoticed onEntry (withExpected e)
      (fun t entry => deliver_withExpected (F := F) e t _ (.incremental entry)) cc
      message.noMDEntries
    dsimp only [handleIncrementalMessage]
    rw [hentries]
    cases message.endOfEvent <;> rfl
  | none =>
    dsimp only
    split_ifs
    · rfl
    · unfold handleIncrementalSecurityStatus
      dsimp only
      split_ifs <;> rfl
    · rfl

theorem run_withExpected (e : ℤ) (cc : ChannelController F) (ms : List Message) :
    run onIncrementalMessage (cc.withExpected e) ms =
      ((run onIncrementalMessage cc ms).1.withExpected e,(run onIncrementalMessage cc ms).2) :=
  run_unnoticed onIncrementalMessage (withExpected e) (onIncrementalMessage_withExpected e) cc ms

theorem number_next {p : Packet} (hp : p.number ≤ 2^32-2) :
    (p.seqnum+1).toNat = p.number+1 := by
  unfold Packet.number at *
  rw [UInt32.toNat_add]
  exact Nat.mod_eq_of_lt (show p.seqnum.toNat+1 < 2^32 by omega)

theorem onIncrementalPacket_messages (cc : ChannelController F) (p : Packet)
    (h : cc.Processes p) (hp : p.number ≤ 2^32-2) :
    cc.onIncrementalPacket p =
      ((run onIncrementalMessage cc p.messages).1.withExpected (p.number+1 : ℕ),
        (run onIncrementalMessage cc p.messages).2) := by
  have hmessages : run onIncrementalMessage
      {cc with expectedseqnum_ := (p.seqnum+1).toNat} p.messages =
        ((run onIncrementalMessage cc p.messages).1.withExpected (p.number+1 : ℕ),
          (run onIncrementalMessage cc p.messages).2) := by
    rw [number_next hp]
    exact run_withExpected _ cc p.messages
  have hahead : ¬((p.number+1 : ℕ):ℤ) < p.seqnum.toNat := by
    unfold Packet.number
    omega
  have hreport : ∀ t : ChannelController F, (t.withExpected (p.number+1 : ℕ)).gapReport p = [] :=
    fun _ => if_neg hahead
  rw [onIncrementalPacket_processed h, hmessages, hreport, List.append_nil]

def processed (cc : ChannelController F) (p : Packet) : List Packet :=
  if cc.Processes p then [p] else []

def handle (cc : ChannelController F) (packets : List Packet) :
    ChannelController F × List (Effect F) :=
  run onIncrementalMessage cc (packets.flatMap Packet.messages)

theorem processes_iff {cc : ChannelController F} {e : ℕ} (he : cc.expectedseqnum_ = e)
    (p : Packet) : cc.Processes p ↔ e ≤ p.number := by
  unfold Processes Packet.number
  rw [he]
  omega

/-- With the counter at `e` the channel reads like a reader of records with
the bound `e`. -/
theorem observe_processed (cc : ChannelController F) (e : ℕ) (he : cc.expectedseqnum_ = e)
    (packets : List Packet) (hs : ∀ p ∈ packets, p.number ≤ 2^32-2) :
    observe onIncrementalPacket processed cc packets = records Packet.number e packets := by
  induction packets generalizing cc e with
  | nil => rfl
  | cons p packets ih =>
    have htail : ∀ q ∈ packets, q.number ≤ 2^32-2 := fun q hq => hs q (by simp [hq])
    rw [observe, processed]
    by_cases h : cc.Processes p
    · rw [records_ahead ((processes_iff he p).mp h), if_pos h,
        onIncrementalPacket_messages cc p h (hs p (by simp)), List.singleton_append,
        ih _ (p.number+1) rfl htail]
    · have hlow : p.number < e := Nat.not_le.mp fun hle => h ((processes_iff he p).mpr hle)
      rw [records_behind hlow, if_neg h, onIncrementalPacket_unprocessed h, List.nil_append,
        ih cc e he htail]

theorem run_messages (cc : ChannelController F) (e : ℕ) (he : cc.expectedseqnum_ = e)
    (packets : List Packet) (hs : ∀ p ∈ packets, p.number ≤ 2^32-2) :
    ∃ e', run onIncrementalPacket cc packets =
      ((cc.handle (records Packet.number e packets)).1.withExpected e',
        (cc.handle (records Packet.number e packets)).2) := by
  induction packets generalizing cc e with
  | nil => exact ⟨cc.expectedseqnum_,rfl⟩
  | cons p packets ih =>
    have htail : ∀ q ∈ packets, q.number ≤ 2^32-2 := fun q hq => hs q (by simp [hq])
    by_cases h : cc.Processes p
    · obtain ⟨e',hrest⟩ := ih ((run onIncrementalMessage cc p.messages).1.withExpected
        (p.number+1 : ℕ)) (p.number+1) rfl htail
      refine ⟨e', ?_⟩
      rw [records_ahead ((processes_iff he p).mp h), run_cons,
        onIncrementalPacket_messages cc p h (hs p (by simp)), hrest, handle, handle,
        run_withExpected, List.flatMap_cons, run_append]
      rfl
    · have hlow : p.number < e := Nat.not_le.mp fun hle => h ((processes_iff he p).mpr hle)
      obtain ⟨e',hrest⟩ := ih cc e he htail
      refine ⟨e', ?_⟩
      rw [records_behind hlow, run_cons, onIncrementalPacket_unprocessed h, hrest]
      rfl

/-- A channel that has not seen a packet handles the messages of the strict
records of what arrives, in their order, and of no other packet. Two copies of
a stream over two lines have the effect of one. -/
theorem feed_arbitration (cc : ChannelController F) (fresh : cc.expectedseqnum_ = 0)
    (packets : List Packet) (hs : ∀ p ∈ packets, p.number ≤ 2^32-2) :
    observe onIncrementalPacket processed cc packets = strictRecords Packet.number packets ∧
    (run onIncrementalPacket cc packets).1.instrument_controllers_ =
      (cc.handle (strictRecords Packet.number packets)).1.instrument_controllers_ ∧
    (run onIncrementalPacket cc packets).2 =
      (cc.handle (strictRecords Packet.number packets)).2 ∧
    ∀ stream, (stream.Pairwise fun p q => p.number < q.number) →
      Interleaving stream stream packets →
        run onIncrementalPacket cc packets = run onIncrementalPacket cc stream := by
  have hprocessed := observe_processed cc 0 fresh packets hs
  obtain ⟨e,hrun⟩ := run_messages cc 0 fresh packets hs
  rw [records_strict] at hprocessed hrun
  refine ⟨hprocessed, ?_, ?_, ?_⟩
  · rw [hrun]
    rfl
  · rw [hrun]
  · intro stream hstream hlines
    rw [run_dropped onIncrementalPacket Processes
      (fun _ _ h => onIncrementalPacket_unprocessed h) cc packets]
    have hrecords : records Packet.number 0 packets = stream :=
      records_interleaving hstream hlines
    rw [records_strict] at hrecords
    exact congrArg (run onIncrementalPacket cc) (hprocessed.trans hrecords)

theorem feed_arbitration_sample :
    let p : Packet := ⟨4,[bookMessage [newBid 7 1 101] true]⟩
    let q : Packet := ⟨6,[bookMessage [newBid 7 2 102] true]⟩
    run onIncrementalPacket sampleChannel [p,q,p,q] =
      run onIncrementalPacket sampleChannel [p,q] := by
  intro p q
  have hnumbers : ∀ r ∈ [p,q,p,q], r.number ≤ 2^32-2 := by decide
  have hlines : Interleaving [p,q] [p,q] [p,q,p,q] :=
    .left (.left (.right (.right .nil)))
  exact (feed_arbitration sampleChannel rfl [p,q,p,q] hnumbers).2.2.2 [p,q] (by decide) hlines

end ChannelController

end CmeFeed
