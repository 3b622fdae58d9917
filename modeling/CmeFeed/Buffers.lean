import Mathlib.Data.Set.List
import CmeFeed.Lines
import CmeFeed.WireReplay

/-!
# The buffer of a receiver

A datagram is written over what the buffer of its receiver holds, and its
handler, which runs later, is told only how many bytes have come. As long as no
second receive is started, every handler finds its own datagram.
-/

set_option autoImplicit false

namespace CmeFeed

open Bytes Reactive

namespace MulticastReceiver

variable {D : Type}

theorem handled_ready (r : MulticastReceiver D) (calls : List ReceiverCall) :
    (r.step (.handled calls)).1.ready = r.ready.tail := by
  unfold step
  cases hready : r.ready with
  | nil => exact hready
  | cons d rest =>
    refine (async_receive_from_frame _).2.trans ?_
    rw [run_callStep, calls_ready]
    rfl

def Stays : ReceiverEvent D → Prop
  | .handled calls => ∀ c ∈ calls, c = .Join
  | .call c => c = .Join
  | _ => True

theorem step_single {r : MulticastReceiver D} (h : r.Single) {e : ReceiverEvent D}
    (he : Stays e) : (r.step e).1.Single := by
  cases e with
  | datagram d => exact datagram_single h d
  | aborted => exact ⟨⟨h.wellFormed.opened,h.wellFormed.closed,h.wellFormed.stored⟩,h.outstanding⟩
  | call c =>
    obtain rfl : c = .Join := he
    exact join_single h
  | handled calls =>
    unfold step
    cases hready : r.ready with
    | nil => exact h
    | cons d rest =>
      obtain ⟨-,-,hjoined,-⟩ := single_ready h hready
      have hcalls : (run callStep {r with ready := rest} calls).1 = {r with ready := rest} := by
        rw [run_callStep]
        exact joins_joined (r := {r with ready := rest}) hjoined he
      dsimp only [handleReceiveFrom]
      rw [hcalls]
      exact (handled_single h hready).1

theorem single_harmless {r : MulticastReceiver D} (h : r.Single) {e : ReceiverEvent D}
    (he : Stays e) : Harmless r e := by
  cases e with
  | datagram d => trivial
  | aborted => trivial
  | call c =>
    obtain rfl : c = .Join := he
    intro hleft
    have hcount := h.outstanding
    unfold outstanding at hcount
    rw [hleft, if_neg nofun] at hcount
    exact List.eq_nil_of_length_eq_zero (by omega)
  | handled calls =>
    intro hready
    obtain ⟨d,rest,hcons⟩ := List.exists_cons_of_ne_nil hready
    obtain ⟨-,-,hjoined,-⟩ := single_ready h hcons
    rintro ⟨-,hleft | hleave⟩
    · exact absurd (hjoined.symm.trans hleft) nofun
    · exact absurd (he _ hleave) nofun

end MulticastReceiver

namespace Wire

/-- The size of the buffer; what does not fit of a datagram is dropped. -/
def max_length : ℕ := 4096

structure Line where
  receiver : MulticastReceiver (List UInt8) := {}
  data_ : Memory

namespace Line

/-- One event, with what `Packet::Reset` is called with: the buffer and the number
of bytes received. -/
def step (l : Line) : ReceiverEvent (List UInt8) → Line × List (Memory × ℕ)
  | .datagram d =>
    let received := d.take max_length
    if 0 < l.receiver.waiting then
      ({receiver := (l.receiver.step (.datagram received)).1
        data_ := written received l.data_},[])
    else (l,[])
  | .handled calls =>
    ({l with receiver := (l.receiver.step (.handled calls)).1},
      l.receiver.ready.head?.toList.map fun d => (l.data_,d.length))
  | e => ({l with receiver := (l.receiver.step e).1},[])

def taken (l : Line) : ReceiverEvent (List UInt8) → List (List UInt8)
  | .datagram d => l.receiver.takes (d.take max_length)
  | _ => []

structure Intact (l : Line) : Prop where
  wellFormed : l.receiver.WellFormed
  single : l.receiver.outstanding ≤ 1
  held : ∀ d ∈ l.receiver.ready, Holds l.data_ 0 d

def Shown (read : Memory × ℕ) (d : List UInt8) : Prop := Holds read.1 0 d ∧ read.2 = d.length

theorem step_intact {l : Line} (h : l.Intact) {e : ReceiverEvent (List UInt8)}
    (he : l.receiver.Harmless e) : (l.step e).1.Intact := by
  have hone : (l.receiver.step e).1.outstanding ≤ 1 :=
    ((MulticastReceiver.step_exclusive l.receiver e [] h.wellFormed ⟨h.single,nofun⟩).mpr he).1
  cases e with
  | datagram d =>
    unfold step
    dsimp only
    by_cases hw : 0 < l.receiver.waiting
    · have hcount : l.receiver.waiting+l.receiver.ready.length ≤ 1 := h.single
      have hempty : l.receiver.ready = [] := List.eq_nil_of_length_eq_zero (by omega)
      have hready : (l.receiver.step (.datagram (d.take max_length))).1.ready =
          [d.take max_length] := by
        rw [(MulticastReceiver.datagram_frame _ _).2, hempty, MulticastReceiver.takes, if_pos hw]
        rfl
      rw [if_pos hw]
      refine ⟨MulticastReceiver.step_wellFormed h.wellFormed _,?_,fun x hx => ?_⟩
      · exact ((MulticastReceiver.step_exclusive l.receiver (.datagram (d.take max_length)) []
          h.wellFormed ⟨h.single,nofun⟩).mpr trivial).1
      · rw [hready] at hx
        rw [List.mem_singleton.mp hx]
        exact holds_written _ _
    · rw [if_neg hw]
      exact h
  | handled calls =>
    refine ⟨MulticastReceiver.step_wellFormed h.wellFormed _,hone,fun x hx => h.held x ?_⟩
    rw [show (l.step (.handled calls)).1.receiver = (l.receiver.step (.handled calls)).1 from rfl,
      MulticastReceiver.handled_ready] at hx
    exact List.mem_of_mem_tail hx
  | aborted => exact ⟨MulticastReceiver.step_wellFormed h.wellFormed .aborted,hone,h.held⟩
  | call c =>
    refine ⟨MulticastReceiver.step_wellFormed h.wellFormed (.call c),hone,fun x hx => h.held x ?_⟩
    rw [show (l.step (.call c)).1.receiver = l.receiver.call c from rfl,
      MulticastReceiver.call_ready] at hx
    exact hx

theorem step_reads {l : Line} (h : l.Intact) (e : ReceiverEvent (List UInt8)) :
    ∃ handled, l.receiver.ready++l.taken e = handled++(l.step e).1.receiver.ready ∧
      List.Forall₂ Shown (l.step e).2 handled := by
  cases e with
  | datagram d =>
    refine ⟨[],?_,?_⟩
    · unfold step taken
      dsimp only
      by_cases hw : 0 < l.receiver.waiting
      · rw [if_pos hw]
        exact (MulticastReceiver.datagram_frame _ _).2.symm
      · rw [if_neg hw, MulticastReceiver.takes, if_neg hw, List.append_nil]
        rfl
    · unfold step
      dsimp only
      split_ifs <;> exact .nil
  | handled calls =>
    have hready : (l.step (.handled calls)).1.receiver.ready = l.receiver.ready.tail :=
      MulticastReceiver.handled_ready _ _
    rw [hready]
    unfold step taken
    dsimp only
    cases hqueue : l.receiver.ready with
    | nil => exact ⟨[],rfl,.nil⟩
    | cons d rest =>
      have hheld := h.held d (by rw [hqueue]; exact List.mem_cons_self)
      exact ⟨[d],by simp,.cons ⟨hheld,rfl⟩ .nil⟩
  | aborted => exact ⟨[],List.append_nil _,.nil⟩
  | call c =>
    refine ⟨[],?_,.nil⟩
    exact (List.append_nil _).trans (MulticastReceiver.call_ready l.receiver c).symm

theorem run_reads {l : Line} (h : l.Intact) {es : List (ReceiverEvent (List UInt8))}
    (hes : ∀ pre e post, es = pre++e::post → (run step l pre).1.receiver.Harmless e) :
    ∃ handled, l.receiver.ready++observe step taken l es =
        handled++(run step l es).1.receiver.ready ∧
      List.Forall₂ Shown (run step l es).2 handled := by
  induction es generalizing l with
  | nil => exact ⟨[],List.append_nil _,.nil⟩
  | cons e es ih =>
    obtain ⟨hfirst,hrest⟩ := (forall_split_cons
      (fun pre e => (run step l pre).1.receiver.Harmless e) e es).mp hes
    obtain ⟨handled,hqueue,hshown⟩ := step_reads h e
    obtain ⟨handled',hqueue',hshown'⟩ := ih (step_intact h hfirst) hrest
    refine ⟨handled++handled',?_,List.rel_append hshown hshown'⟩
    rw [observe, ← List.append_assoc, hqueue, List.append_assoc, hqueue', run_cons,
      List.append_assoc]

theorem step_single {l : Line} (h : l.receiver.Single) {e : ReceiverEvent (List UInt8)}
    (he : MulticastReceiver.Stays e) : (l.step e).1.receiver.Single := by
  cases e with
  | datagram d =>
    unfold step
    dsimp only
    split_ifs
    · exact MulticastReceiver.datagram_single h _
    · exact h
  | handled calls => exact MulticastReceiver.step_single h he
  | aborted => exact MulticastReceiver.step_single h he
  | call c => exact MulticastReceiver.step_single h he

theorem stays_harmless {l : Line} (h : l.receiver.Single) {es : List (ReceiverEvent (List UInt8))}
    (hes : ∀ e ∈ es, MulticastReceiver.Stays e) :
    ∀ pre e post, es = pre++e::post → (run step l pre).1.receiver.Harmless e := by
  rintro pre e post rfl
  refine MulticastReceiver.single_harmless ?_ (hes e (by simp))
  exact run_invariant step (·.receiver.Single) MulticastReceiver.Stays
    (fun _ _ he hs => step_single hs he) l pre (fun x hx => hes x (by simp [hx])) h

theorem taken_mem {l : Line} {es : List (ReceiverEvent (List UInt8))} {d : List UInt8}
    (hd : d ∈ observe step taken l es) : ∃ d', .datagram d' ∈ es ∧ d = d'.take max_length := by
  have hgood := (observe_invariant step (fun _ e => [e]) (· ∈ es) taken (fun _ => True)
    (fun d => ∃ d', .datagram d' ∈ es ∧ d = d'.take max_length) (fun _ _ _ _ => trivial)
    (fun l e _ he x hx => ?_) l es trivial (by simp [observe_inputs])).2
  · exact hgood d hd
  · have hmem := he e (List.mem_singleton.mpr rfl)
    cases e with
    | datagram d' =>
      unfold taken MulticastReceiver.takes at hx
      split_ifs at hx
      · exact ⟨d',hmem,List.mem_singleton.mp hx⟩
      · cases hx
    | handled calls => cases hx
    | aborted => cases hx
    | call c => cases hx

end Line

/-- Reset to what was read, a packet object has the number of the datagram and
walks its frames, whatever it held before. -/
def Sent.ReadAs (wraps : ℕ → ℕ → Bool) (read : Memory × ℕ) (d : Sent) : Prop :=
  ∀ q : Packet, (q.reset read.1 read.2).getSeqNum = d.seqnum ∧
    ∃ ms p', (∀ n, d.frames.length < n →
      loop (Packet.turn wraps) n (q.reset read.1 read.2) = (ms,.stopped p')) ∧
      List.Forall₂ Shows ms (placed kByteOffest d.frames)

theorem Sent.fits_buffer (d : Sent) : d.bytes.take max_length = d.bytes := by
  have hlength : d.bytes.length = 12+(d.frames.map Frame.size).sum := layout_length _ _ _
  have hfits := d.fits
  exact List.take_of_length_le (by rw [hlength]; exact hfits)

/-- From the socket to the packet object: if no event of a line starts a second
receive, the datagrams that it takes in are read in their order, each once, but
for those whose handlers are still queued, and each is read as it was sent. -/
theorem line_packets (wraps : ℕ → ℕ → Bool) (hwraps : ChecksBounds wraps) (data : Memory)
    (es : List (ReceiverEvent (List UInt8)))
    (hsent : ∀ d, .datagram d ∈ es → ∃ s : Sent, d = s.bytes)
    (hes : ∀ pre e post, es = pre++e::post →
      (run Line.step ({data_ := data} : Line) pre).1.receiver.Harmless e) :
    let r := run Line.step ({data_ := data} : Line) es
    ∃ handled : List Sent, observe Line.step Line.taken {data_ := data} es =
        handled.map Sent.bytes++r.1.receiver.ready ∧
      List.Forall₂ (Sent.ReadAs wraps) r.2 handled := by
  intro r
  have hblank : Line.Intact {data_ := data} :=
    ⟨⟨rfl,fun _ => rfl,nofun⟩,Nat.zero_le 1,nofun⟩
  obtain ⟨datagrams,hqueue,hshown⟩ := Line.run_reads hblank hes
  rw [show ({data_ := data} : Line).receiver.ready = [] from rfl, List.nil_append] at hqueue
  have hbytes : ∀ d ∈ datagrams, ∃ s : Sent, s.bytes = d := by
    intro d hd
    obtain ⟨d',hd',rfl⟩ := Line.taken_mem (hqueue ▸ List.mem_append_left _ hd)
    obtain ⟨s,rfl⟩ := hsent d' hd'
    exact ⟨s,s.fits_buffer.symm⟩
  have hrange : datagrams ∈ Set.range (List.map Sent.bytes) := by
    rw [Set.range_list_map]
    exact hbytes
  obtain ⟨handled,rfl⟩ := hrange
  refine ⟨handled,hqueue,?_⟩
  rw [List.forall₂_map_right_iff] at hshown
  refine hshown.imp fun x d hx q => ?_
  obtain ⟨hnumber,p',hloop⟩ := Channel.reset_sent hwraps q d hx.1
  have hshows := Channel.sent_shown hx.1
  rw [← hx.2] at hnumber hloop hshows
  exact ⟨hnumber,_,p',hloop,hshows⟩

def lineEvents : List (ReceiverEvent (List UInt8)) :=
  [.call .Join,.datagram (layout 5 6 sampleFrames),.handled [.Join],
    .datagram Channel.heartbeat.bytes,.handled []]

theorem line_packets_sample :
    let r := run Line.step ({data_ := fun _ => 255} : Line) lineEvents
    ∃ handled : List Sent, handled.length = 2 ∧
      observe Line.step Line.taken {data_ := fun _ => 255} lineEvents =
        handled.map Sent.bytes++r.1.receiver.ready ∧
      List.Forall₂ (Sent.ReadAs checked) r.2 handled := by
  intro r
  have hblank : MulticastReceiver.Single ({} : MulticastReceiver (List UInt8)) :=
    ⟨⟨rfl,fun _ => rfl,nofun⟩,rfl⟩
  have hstays : ∀ e ∈ lineEvents, MulticastReceiver.Stays e := by
    simp [lineEvents, MulticastReceiver.Stays]
  have hsent : ∀ d, .datagram d ∈ lineEvents → ∃ s : Sent, d = s.bytes := by
    intro d hd
    obtain rfl | rfl : d = layout 5 6 sampleFrames ∨ d = Channel.heartbeat.bytes := by
      simpa [lineEvents] using hd
    · exact ⟨⟨5,6,sampleFrames,by decide,by decide⟩,rfl⟩
    · exact ⟨_,rfl⟩
  obtain ⟨handled,hqueue,hread⟩ := line_packets checked checked_bounds (fun _ => 255) lineEvents
    hsent (Line.stays_harmless hblank hstays)
  refine ⟨handled,?_,hqueue,hread⟩
  rw [← hread.length_eq]
  rfl

end Wire

end CmeFeed
