import CmeFeed.Arbitration

/-!
# The counter of the incremental feed

The counter is the successor of the largest sequence number accepted, taken in
32 bits, and zero stands for none. The successor of the last number is zero, so
that number, and no other, makes the channel forget what it has seen. The gap
test comes after the counter has been moved on and never fires.
-/

set_option autoImplicit false

namespace CmeFeed

open Reactive

variable {F : Floats}

def Effect.gap : Effect F → Option UInt32
  | .packetGap _ seqnum => some seqnum
  | _ => none

def reported (effects : List (Effect F)) : List UInt32 := effects.filterMap Effect.gap

theorem reported_eq_nil {effects : List (Effect F)} :
    reported effects = [] ↔ ∀ e ∈ effects, e.gap = none := by
  simp [reported]

theorem InstrumentController.deliver_unreported (c : InstrumentController F) (d : Delivery) :
    ∀ e ∈ (c.deliver d).2, e.gap = none := by
  have hresync : ∀ e ∈ c.resync, e.gap = none := by
    unfold resync
    split_ifs <;> simp [Effect.gap]
  rcases c.deliver_cases d with ⟨e,-,-,he⟩ | ⟨e,-,-,he⟩ | ⟨e,-,-,-,he⟩ | ⟨r,-,-,he⟩ |
    ⟨r,-,-,he⟩ | ⟨-,he⟩ <;> rw [he]
  · exact hresync
  · simp [Effect.gap]
  · simp
  · exact hresync
  · simp
  · unfold commit InstrumentMdHandler.commit InstrumentMdHandler.notifications
    split_ifs <;> simp [Effect.gap]

namespace ChannelController

theorem deliver_unreported (cc : ChannelController F) (k : UInt32) (d : Delivery) :
    ∀ e ∈ (cc.deliver k d).2, e.gap = none := by
  unfold deliver
  cases cc.getInstrumentController k with
  | none => simp
  | some c => exact c.deliver_unreported d

theorem commit_unreported (cc : ChannelController F) : ∀ e ∈ cc.commit.2, e.gap = none := by
  intro e he
  obtain ⟨p,-,hp⟩ := List.mem_flatMap.mp he
  exact p.2.deliver_unreported .commit e hp

theorem onIncrementalMessage_unreported (cc : ChannelController F) (m : Message) :
    ∀ e ∈ (cc.onIncrementalMessage m).2, e.gap = none := by
  unfold onIncrementalMessage
  cases m.incremental with
  | some message =>
    have hentries := run_outputs onEntry (fun e : Effect F => e.gap = none)
      (fun cc entry => deliver_unreported cc _ (.incremental entry)) cc message.noMDEntries
    dsimp only [handleIncrementalMessage]
    cases message.endOfEvent with
    | false => exact hentries
    | true =>
      intro e he
      rcases List.mem_append.mp he with he | he
      · exact hentries e he
      · exact commit_unreported _ e he
  | none =>
    dsimp only [handleIncrementalQuoteRequest, handleIncrementalSecurityStatus]
    split_ifs <;> simp

theorem onIncrementalPacket_unreported (cc : ChannelController F) (p : Packet)
    (hp : p.number ≤ 2^32-2) : reported (cc.onIncrementalPacket p).2 = [] := by
  rw [reported_eq_nil]
  by_cases h : cc.Processes p
  · rw [onIncrementalPacket_messages cc p h hp]
    exact run_outputs onIncrementalMessage _ onIncrementalMessage_unreported cc p.messages
  · rw [onIncrementalPacket_unprocessed h]
    simp

/-- The number jumps over at least one that is larger than all before. -/
def Skips (before : List Packet) (p : Packet) : Prop :=
  before ≠ [] ∧ ∀ q ∈ before, q.number+1 < p.number

instance (before : List Packet) (p : Packet) : Decidable (Skips before p) :=
  inferInstanceAs (Decidable (_ ∧ _))

theorem skips_processed (cc : ChannelController F) (fresh : cc.expectedseqnum_ = 0)
    (before : List Packet) (hs : ∀ q ∈ before, q.number ≤ 2^32-2) (p : Packet) :
    Skips (observe onIncrementalPacket processed cc before) p ↔ Skips before p := by
  have hbelow : (∀ q ∈ records Packet.number 0 before, q.number < p.number-1) ↔
      ∀ q ∈ before, q.number < p.number-1 := records_below before (p.number-1)
  simp only [Nat.lt_sub_iff_add_lt] at hbelow
  unfold Skips
  rw [observe_processed cc 0 fresh before hs, hbelow, ne_eq, ne_eq, records_eq_nil]

/-- A fresh channel reports a gap at the packets that skip a number, and only
there, exactly if no packet skips one: it never reports a gap. -/
theorem gap_reports (cc : ChannelController F) (fresh : cc.expectedseqnum_ = 0)
    (packets : List Packet) (hs : ∀ p ∈ packets, 1 ≤ p.number ∧ p.number ≤ 2^32-2) :
    (∀ pre p post, packets = pre++p::post →
      reported ((run onIncrementalPacket cc pre).1.onIncrementalPacket p).2 =
        if Skips (observe onIncrementalPacket processed cc pre) p then [p.seqnum] else []) ↔
      ∀ pre p post, packets = pre++p::post → ¬Skips pre p := by
  have hsplit : ∀ pre p post, packets = pre++p::post →
      ((reported ((run onIncrementalPacket cc pre).1.onIncrementalPacket p).2 =
        if Skips (observe onIncrementalPacket processed cc pre) p then [p.seqnum] else []) ↔
          ¬Skips pre p) := by
    intro pre p post hpackets
    have hpre : ∀ q ∈ pre, q.number ≤ 2^32-2 := fun q hq => (hs q (by simp [hpackets, hq])).2
    have hp : p.number ≤ 2^32-2 := (hs p (by simp [hpackets])).2
    rw [onIncrementalPacket_unreported _ p hp]
    simp only [skips_processed cc fresh pre hpre p]
    by_cases hskips : Skips pre p
    · simp [hskips]
    · simp [hskips]
  exact forall₃_congr fun pre p post => forall_congr' (hsplit pre p post)

def bidPacket (number rptSeq : UInt32) : Packet :=
  ⟨number,[bookMessage [newBid 7 rptSeq 101] true]⟩

theorem gap_reports_sample :
    let p := bidPacket 1 1
    let q := bidPacket 2 2
    reported ((run onIncrementalPacket sampleChannel [p]).1.onIncrementalPacket q).2 = [] := by
  intro p q
  have hsteps : ∀ pre r post, [p,q] = pre++r::post → ¬Skips pre r := by
    rw [forall_split_cons, forall_split_cons]
    exact ⟨by decide,by decide,by simp⟩
  exact (gap_reports sampleChannel rfl [p,q] (by decide)).mpr hsteps [p] q [] rfl

/-- The packet 3 after the packet 1 is not reported. -/
theorem gap_reports_missing :
    let p := bidPacket 1 1
    let q := bidPacket 3 2
    Skips (observe onIncrementalPacket processed sampleChannel [p]) q ∧
      reported ((run onIncrementalPacket sampleChannel [p]).1.onIncrementalPacket q).2 = [] := by
  intro p q
  constructor
  · exact (skips_processed sampleChannel rfl [p] (by decide) q).mpr (by decide)
  · exact onIncrementalPacket_unreported _ q (by decide)

structure Remembers (cc : ChannelController F) (accepted : List Packet) : Prop where
  isSet : accepted ≠ [] → cc.expectedseqnum_ ≠ 0
  above : ∀ p ∈ accepted, (p.number:ℤ) < cc.expectedseqnum_
  once : accepted.Pairwise fun p q => p.number < q.number

theorem onIncrementalPacket_expected (cc : ChannelController F) (p : Packet) :
    (cc.onIncrementalPacket p).1.expectedseqnum_ =
      if cc.Processes p then ((p.seqnum+1).toNat : ℤ) else cc.expectedseqnum_ := by
  by_cases h : cc.Processes p
  · rw [if_pos h, onIncrementalPacket_processed h]
    exact (run_same onIncrementalMessage_same
      {cc with expectedseqnum_ := (p.seqnum+1).toNat} p.messages).expected
  · rw [if_neg h, onIncrementalPacket_unprocessed h]

theorem number_last {p : Packet} (hp : p.number = 2^32-1) : (p.seqnum+1).toNat = 0 := by
  unfold Packet.number at hp
  rw [UInt32.toNat_add, hp]
  rfl

theorem Remembers.larger {cc : ChannelController F} {accepted : List Packet}
    (h : cc.Remembers accepted) {p : Packet} (hp : cc.Processes p) :
    ∀ q ∈ accepted, q.number < p.number := by
  intro q hq
  have hset := h.isSet (List.ne_nil_of_mem hq)
  have hbelow := h.above q hq
  have hle : cc.expectedseqnum_ ≤ p.number := hp.resolve_right hset
  omega

theorem Remembers.accept {cc cc' : ChannelController F} {accepted : List Packet}
    (h : cc.Remembers accepted) {p : Packet} (hp : cc.Processes p)
    (hexpected : cc'.expectedseqnum_ = (p.number+1 : ℕ)) : cc'.Remembers (accepted++[p]) := by
  have hlarger := h.larger hp
  constructor
  · intro _
    omega
  · intro q hq
    rcases List.mem_append.mp hq with hq | hq
    · have := hlarger q hq
      omega
    · rw [List.mem_singleton.mp hq]
      omega
  · have hcross : ∀ q ∈ accepted, ∀ r ∈ [p], q.number < r.number := by
      intro q hq r hr
      rw [List.mem_singleton.mp hr]
      exact hlarger q hq
    exact List.pairwise_append.mpr ⟨h.once,List.pairwise_singleton _ p,hcross⟩

/-- One packet leaves the counter above all numbers accepted, unless it is the
last number there is. -/
theorem onIncrementalPacket_remembers {cc : ChannelController F} {accepted : List Packet}
    (hrange : 0 ≤ cc.expectedseqnum_ ∧ cc.expectedseqnum_ < 2^32)
    (h : cc.Remembers accepted) (p : Packet) :
    (cc.onIncrementalPacket p).1.Remembers (accepted++cc.processed p) ↔ p.number ≠ 2^32-1 := by
  have hexpected := cc.onIncrementalPacket_expected p
  by_cases hp : cc.Processes p
  · rw [if_pos hp] at hexpected
    rw [processed, if_pos hp]
    constructor
    · intro hnext hlast
      rw [number_last hlast] at hexpected
      exact hnext.isSet (by simp) hexpected
    · intro hne
      have hnumber : p.number < 2^32 := p.seqnum.toNat_lt
      rw [number_next (by omega)] at hexpected
      exact h.accept hp hexpected
  · rw [processed, if_neg hp, List.append_nil, onIncrementalPacket_unprocessed hp]
    have hne : p.number ≠ 2^32-1 := by
      intro hlast
      have hle : cc.expectedseqnum_ ≤ (p.number:ℤ) := by omega
      exact hp (Or.inl hle)
    exact iff_of_true h hne

/-- In a run from a fresh channel the counter stays above every number accepted
and is not taken for unset, and no packet is accepted a second time or after a
larger one, exactly if the last sequence number does not occur. -/
theorem counter_remembers (cc : ChannelController F) (fresh : cc.expectedseqnum_ = 0)
    (packets : List Packet) :
    (∀ pre post, packets = pre++post → (run onIncrementalPacket cc pre).1.Remembers
      (observe onIncrementalPacket processed cc pre)) ↔
      ∀ p ∈ packets, p.number ≠ 2^32-1 := by
  have hnext : ∀ (cc : ChannelController F) (p : Packet) (packets : List Packet),
      0 ≤ cc.expectedseqnum_ ∧ cc.expectedseqnum_ < 2^32 →
        0 ≤ (cc.onIncrementalPacket p).1.expectedseqnum_ ∧
          (cc.onIncrementalPacket p).1.expectedseqnum_ < 2^32 := by
    intro cc p _ hrange
    have := (p.seqnum+1).toNat_lt
    rw [onIncrementalPacket_expected]
    split_ifs <;> omega
  have hempty : cc.Remembers [] := ⟨fun hne => absurd rfl hne,by simp,List.Pairwise.nil⟩
  have hrun := run_always_iff (fun cc p => ((cc.onIncrementalPacket p).1,cc.processed p))
    (fun cc _ => 0 ≤ cc.expectedseqnum_ ∧ cc.expectedseqnum_ < 2^32) Remembers
    (fun _ p => p.number ≠ 2^32-1) hnext
    (fun _ p _ _ hrange h => onIncrementalPacket_remembers hrange h p)
    cc packets [] (by omega) hempty
  simp only [run_observe, List.nil_append] at hrun
  rw [hrun]
  constructor
  · intro hall p hp
    obtain ⟨pre,post,hsplit⟩ := List.append_of_mem hp
    exact hall pre p post hsplit
  · exact fun hall pre p post hsplit => hall p (by simp [hsplit])

theorem counter_remembers_sample :
    let packets := [bidPacket 4 1,bidPacket 6 2,bidPacket 4 1]
    (run onIncrementalPacket sampleChannel packets).1.Remembers
      (observe onIncrementalPacket processed sampleChannel packets) := by
  intro packets
  exact (counter_remembers sampleChannel rfl packets).mpr (by decide) packets []
    (List.append_nil _).symm

/-- The last number makes the channel forget: a second copy is processed. -/
theorem counter_remembers_last :
    let p := bidPacket 4294967295 1
    (run onIncrementalPacket sampleChannel [p]).1.expectedseqnum_ = 0 ∧
      observe onIncrementalPacket processed sampleChannel [p,p] = [p,p] ∧
      ¬(run onIncrementalPacket sampleChannel [p,p]).1.Remembers [p,p] := by
  intro p
  have hfirst : sampleChannel.Processes p := Or.inr rfl
  have hzero : (sampleChannel.onIncrementalPacket p).1.expectedseqnum_ = 0 := by
    rw [onIncrementalPacket_expected, if_pos hfirst, number_last (by decide)]
    rfl
  have hsecond : (sampleChannel.onIncrementalPacket p).1.Processes p := Or.inr hzero
  constructor
  · rw [run_singleton]
    exact hzero
  constructor
  · simp only [observe, processed, if_pos hfirst, if_pos hsecond]
    rfl
  · intro h
    have hrel := List.rel_of_pairwise_cons h.once (List.mem_singleton_self p)
    exact Nat.lt_irrefl _ hrel

end ChannelController

end CmeFeed
