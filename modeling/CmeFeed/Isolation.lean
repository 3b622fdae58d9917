import CmeFeed.InstrumentView

/-!
# Instruments do not disturb each other

The instruments of a channel share its packets, its counter and its commits.
The counter moves with the packets alone, so a channel that has subscribed to
one instrument only accepts the same packets, and that instrument receives the
same deliveries as on any other channel.
-/

set_option autoImplicit false

namespace CmeFeed

open Reactive

variable {F : Floats}

namespace Controllers

def only (m : Controllers F) (s : UInt32) : Controllers F where
  map := m.map.filter fun k _ => k == s
  keyed k c h := by
    rw [Std.TreeMap.getElem?_filter'] at h
    exact m.keyed k c (Option.eq_some_of_filter_eq_some h)

theorem find_only (m : Controllers F) (s k : UInt32) :
    (m.only s).find k = if k = s then m.find k else none := by
  simp only [find, only, Std.TreeMap.getElem?_filter']
  by_cases hk : k = s
  · subst hk
    cases m.map[k]? <;> simp
  · simp [hk]

end Controllers

namespace ChannelController

/-- The channel that has subscribed to one of its instruments only. -/
def only (cc : ChannelController F) (s : UInt32) : ChannelController F :=
  {cc with instrument_controllers_ := cc.instrument_controllers_.only s}

theorem only_same (cc : ChannelController F) (s : UInt32) :
    (cc.only s).getInstrumentController s = cc.getInstrumentController s :=
  (Controllers.find_only _ s s).trans (if_pos rfl)

def nextExpected (expected : ℤ) : FeedPacket → ℤ
  | .incremental p =>
    if expected ≤ p.seqnum.toNat ∨ expected = 0 then (p.seqnum+1).toNat else expected
  | .snapshot _ => expected

theorem onPacket_expectedseqnum (cc : ChannelController F) (p : FeedPacket) :
    (cc.onPacket p).1.expectedseqnum_ = nextExpected cc.expectedseqnum_ p := by
  cases p with
  | snapshot p => exact (run_same handleSnapshotMessage_same cc p.messages).expected
  | incremental p =>
    by_cases h : cc.Processes p
    · have hmessages := (run_same onIncrementalMessage_same
        {cc with expectedseqnum_ := (p.seqnum+1).toNat} p.messages).expected
      have hnext : nextExpected cc.expectedseqnum_ (.incremental p) = (p.seqnum+1).toNat :=
        if_pos h
      rw [hnext]
      dsimp only [onPacket]
      rw [onIncrementalPacket_processed h]
      exact hmessages
    · dsimp only [onPacket]
      rw [onIncrementalPacket_unprocessed h]
      exact (if_neg h).symm

theorem deliveries_agree (s : UInt32) {cc cc' : ChannelController F}
    (h : cc.expectedseqnum_ = cc'.expectedseqnum_) (packets : List FeedPacket) :
    observe onPacket (packetDeliveries s) cc packets =
      observe onPacket (packetDeliveries s) cc' packets := by
  refine observe_lockstep onPacket onPacket (packetDeliveries s) (packetDeliveries s)
    (fun t t' => t.expectedseqnum_ = t'.expectedseqnum_) ?_ ?_ cc cc' packets h
  · intro t t' p ht
    rw [onPacket_expectedseqnum, onPacket_expectedseqnum, ht]
  · intro t t' p ht
    cases p with
    | snapshot p => rfl
    | incremental p =>
      have hp : t.Processes p ↔ t'.Processes p := by rw [Processes, Processes, ht]
      exact if_congr hp rfl rfl

theorem run_onPacket_projects (s : UInt32) (cc : ChannelController F)
    (packets : List FeedPacket) :
    Projects s (observe onPacket (packetDeliveries s) cc packets) cc
      (run onPacket cc packets) :=
  run_projects (onPacket_projects s) cc packets

/-- The controller of an instrument, its handler and the books its listeners
receive are those of a channel that has subscribed to nothing else. -/
theorem instrument_isolation (cc : ChannelController F) (s : UInt32)
    (packets : List FeedPacket) :
    (run onPacket cc packets).1.getInstrumentController s =
        (run onPacket (cc.only s) packets).1.getInstrumentController s ∧
      notifiedOf s (run onPacket cc packets).2 =
        notifiedOf s (run onPacket (cc.only s) packets).2 := by
  obtain ⟨hstate,hbooks⟩ := run_onPacket_projects s cc packets
  obtain ⟨hstate',hbooks'⟩ := run_onPacket_projects s (cc.only s) packets
  have hsame : observe onPacket (packetDeliveries s) cc packets =
      observe onPacket (packetDeliveries s) (cc.only s) packets :=
    deliveries_agree s (show cc.expectedseqnum_ = (cc.only s).expectedseqnum_ from rfl) packets
  rw [hstate, hbooks, hstate', hbooks', hsame]
  unfold soloState soloBooks
  rw [only_same]
  exact ⟨rfl,rfl⟩

end ChannelController

end CmeFeed
