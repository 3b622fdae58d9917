import CmeFeed.EventLoop

/-!
# The lines in the event loop

Whatever order the handlers run in, no joined line is deaf, an instrument that
waits for a snapshot is listened for, and an incremental line that is not left
hands every datagram it has taken to the channel once, in order.
-/

set_option autoImplicit false

namespace CmeFeed

open Reactive

namespace MulticastReceiver

variable {D : Type}

theorem call_ready (r : MulticastReceiver D) (c : ReceiverCall) : (r.call c).ready = r.ready := by
  cases c with
  | Join =>
    change r.join.ready = r.ready
    unfold join
    split_ifs <;> rfl
  | Leave =>
    change r.leave.ready = r.ready
    unfold leave
    split_ifs <;> rfl

theorem calls_ready (r : MulticastReceiver D) (calls : List ReceiverCall) :
    (calls.foldl call r).ready = r.ready := by
  induction calls generalizing r with
  | nil => rfl
  | cons c calls ih => exact (ih _).trans (call_ready r c)

theorem async_receive_from_frame (r : MulticastReceiver D) :
    r.async_receive_from.joined_ = r.joined_ ∧ r.async_receive_from.ready = r.ready := by
  unfold async_receive_from
  split_ifs <;> exact ⟨rfl,rfl⟩

def takes (r : MulticastReceiver D) (d : D) : List D := if 0 < r.waiting then [d] else []

theorem datagram_frame (r : MulticastReceiver D) (d : D) :
    (r.step (.datagram d)).1.joined_ = r.joined_ ∧
      (r.step (.datagram d)).1.ready = r.ready++r.takes d := by
  unfold step takes
  split_ifs
  · exact ⟨rfl,rfl⟩
  · exact ⟨rfl,(List.append_nil _).symm⟩

theorem datagram_single {r : MulticastReceiver D} (h : r.Single) (d : D) :
    (r.step (.datagram d)).1.Single := by
  refine ⟨step_wellFormed h.wellFormed _,?_⟩
  have hcount := h.outstanding
  rw [(datagram_frame r d).1, ← hcount]
  unfold step
  split_ifs with hw
  · change r.waiting-1+(r.ready++[d]).length = r.waiting+r.ready.length
    rw [List.length_append, List.length_singleton]
    omega
  · rfl

theorem handled_single {r : MulticastReceiver D} (h : r.Single) {d : D} {rest : List D}
    (hready : r.ready = d::rest) :
    (async_receive_from {r with ready := rest}).Single ∧
      (async_receive_from {r with ready := rest}).ready = [] := by
  obtain ⟨rfl,-,hjoined,hwaiting⟩ := single_ready h hready
  have hpopped : WellFormed {r with ready := []} := ⟨h.wellFormed.opened,h.wellFormed.closed,nofun⟩
  have hopen : r.socket_open = true := h.wellFormed.opened.trans hjoined
  have hrearmed : async_receive_from {r with ready := []} =
      {r with ready := [], waiting := r.waiting+1} := if_pos hopen
  constructor
  · refine ⟨async_receive_from_wellFormed hpopped,?_⟩
    rw [hrearmed, if_pos hjoined]
    change r.waiting+1+0 = 1
    omega
  · rw [hrearmed]

end MulticastReceiver

variable {F : Floats}

namespace ChannelImpl

def Allowed (Ok : FeedType → ReceiverCall → Prop) (type : FeedType) :
    ReceiverEvent Packet → Prop
  | .handled calls => ∀ c ∈ calls, Ok type c
  | .call c => Ok type c
  | _ => True

def LoopEvent.Permits (Ok : FeedType → ReceiverCall → Prop) : LoopEvent → Prop
  | .client c => c.StopsIncrementals → ∀ type c, Ok type c
  | _ => True

theorem calls_events {Ok : FeedType → ReceiverCall → Prop} {ch ch' : ChannelImpl F}
    (h : Moved Ok ch ch') (type : FeedType) (feed : Feed) :
    ∃ es : List (ReceiverEvent Packet), (∀ x ∈ es, Allowed Ok type x) ∧
      ch'.receiver type feed = (run MulticastReceiver.step (ch.receiver type feed) es).1 := by
  obtain ⟨calls,hok,heq⟩ := h type feed
  refine ⟨calls.map ReceiverEvent.call,fun x hx => ?_,?_⟩
  · obtain ⟨c,hc,rfl⟩ := List.mem_map.mp hx
    exact hok c hc
  · rw [heq, MulticastReceiver.run_call_events]

theorem loopStep_events {Ok : FeedType → ReceiverCall → Prop}
    (hinternal : ∀ type c, Internal type c → Ok type c) (ch : ChannelImpl F) {e : LoopEvent}
    (he : e.Permits Ok) (type : FeedType) (feed : Feed) :
    ∃ es : List (ReceiverEvent Packet), (∀ x ∈ es, Allowed Ok type x) ∧
      (ch.loopStep e).1.receiver type feed =
        (run MulticastReceiver.step (ch.receiver type feed) es).1 := by
  have hline : ∀ (t : FeedType) (f : Feed) (x : ReceiverEvent Packet),
      (∀ type, Allowed Ok type x) →
        ∃ es : List (ReceiverEvent Packet), (∀ x ∈ es, Allowed Ok type x) ∧
          (ch.withReceiver ((ch.receiver t f).step x).1 t f).receiver type feed =
            (run MulticastReceiver.step (ch.receiver type feed) es).1 := by
    intro t f x hx
    rw [receiver_withReceiver]
    by_cases hsame : t = type ∧ f = feed
    · obtain ⟨rfl,rfl⟩ := hsame
      refine ⟨[x],fun y hy => ?_,?_⟩
      · rw [List.mem_singleton.mp hy]
        exact hx _
      · rw [if_pos ⟨rfl,rfl⟩, run_singleton]
    · exact ⟨[],nofun,if_neg hsame⟩
  cases e with
  | datagram t f d => exact hline t f (.datagram d) fun _ => trivial
  | aborted t f => exact hline t f .aborted fun _ => trivial
  | client c => exact calls_events (publicCall_moved hinternal ch c he) type feed
  | handled t f =>
    unfold loopStep
    dsimp only
    cases hready : (ch.receiver t f).ready with
    | nil => exact ⟨[],nofun,rfl⟩
    | cons d rest =>
      cases hdata : (ch.receiver t f).data_ with
      | none => exact ⟨[],nofun,rfl⟩
      | some data =>
        have hmoved := onPacket_moved
          (ch.withReceiver {ch.receiver t f with ready := rest} t f) t data
        dsimp only [handleReceiveFrom]
        rw [receiver_withReceiver]
        by_cases hsame : t = type ∧ f = feed
        · obtain ⟨rfl,rfl⟩ := hsame
          obtain ⟨calls,hok,heq⟩ := hmoved t f
          rw [receiver_withReceiver, if_pos ⟨rfl,rfl⟩] at heq
          refine ⟨[.handled calls],fun x hx => ?_,?_⟩
          · rw [List.mem_singleton.mp hx]
            exact fun c hc => hinternal t c (hok c hc)
          · rw [if_pos ⟨rfl,rfl⟩, heq, run_singleton]
            unfold MulticastReceiver.step
            rw [hready]
            exact congrArg _ (MulticastReceiver.run_callStep _ calls).symm
        · obtain ⟨es,hallowed,heq⟩ := calls_events hmoved type feed
          rw [receiver_withReceiver, if_neg hsame] at heq
          refine ⟨es,fun x hx => ?_,?_⟩
          · cases x with
            | handled calls => exact fun c hc => hinternal type c (hallowed _ hx c hc)
            | call c => exact hinternal type c (hallowed _ hx)
            | datagram d => trivial
            | aborted => trivial
          · rw [if_neg hsame]
            exact heq

def Hears (ch : ChannelImpl F) : Prop :=
  ∀ type feed, (ch.receiver type feed).WellFormed ∧ (ch.receiver type feed).Listening

theorem loopStep_hears {ch : ChannelImpl F} (h : ch.Hears) (e : LoopEvent) :
    (ch.loopStep e).1.Hears := by
  intro type feed
  have hpermits : e.Permits fun _ _ => True := by
    cases e with
    | client c => exact fun _ _ _ => trivial
    | _ => trivial
  obtain ⟨es,-,heq⟩ := loopStep_events (fun _ _ _ => trivial) ch hpermits type feed
  rw [heq]
  exact run_invariant MulticastReceiver.step (fun r => r.WellFormed ∧ r.Listening)
    (fun _ => True) (fun r x _ hr => ⟨MulticastReceiver.step_wellFormed hr.1 x,
      MulticastReceiver.step_listening hr.1 hr.2 x⟩) _ es (fun _ _ => trivial) (h type feed)

theorem construct_moved (memory : UInt32 → Indeterminate) :
    Moved Internal
      ({symbol_controller_ := SymbolController.construct.1
        channel_controller_ := {memory := memory}} : ChannelImpl F) (construct memory) :=
  startInstrumentFeed_moved _

theorem construct_hears (memory : UInt32 → Indeterminate) :
    (construct memory : ChannelImpl F).Hears := by
  intro type feed
  obtain ⟨calls,-,heq⟩ := construct_moved (F := F) memory type feed
  have hblank : ∀ c : ChannelImpl F,
      (∀ t f, c.receiver t f = {}) → (c.receiver type feed).WellFormed ∧
        (c.receiver type feed).Listening := by
    intro c hc
    rw [hc]
    exact ⟨⟨rfl,fun _ => rfl,nofun⟩,nofun⟩
  rw [heq, ← MulticastReceiver.run_call_events]
  refine run_invariant MulticastReceiver.step (fun r => r.WellFormed ∧ r.Listening)
    (fun _ => True) (fun r x _ hr => ⟨MulticastReceiver.step_wellFormed hr.1 x,
      MulticastReceiver.step_listening hr.1 hr.2 x⟩) _ _ (fun _ _ => trivial) (hblank _ ?_)
  intro t f
  cases t <;> cases f <;> rfl

theorem loopStep_logic {ch ch' : ChannelImpl F} (h : ch.logic = ch'.logic) (e : LoopEvent) :
    (ch.loopStep e).1.logic =
      (((ch.loopStep e).2.map LoopCall.publicCall).foldl publicCall ch').logic := by
  cases e with
  | datagram t f d => exact (withReceiver_logic ch _ t f).trans h
  | aborted t f => exact (withReceiver_logic ch _ t f).trans h
  | client c =>
    have hboth := publicCall_logic h c
    have hself := publicCall_logic (rfl : ch'.logic = ch'.logic) c
    exact hboth.trans hself.symm
  | handled t f =>
    unfold loopStep
    dsimp only
    cases (ch.receiver t f).ready with
    | nil => exact h
    | cons d rest =>
      cases (ch.receiver t f).data_ with
      | none => exact h
      | some data =>
        have hpopped : (ch.withReceiver {ch.receiver t f with ready := rest} t f).logic =
            ch'.logic := (withReceiver_logic ch _ t f).trans h
        exact (withReceiver_logic _ _ t f).trans (call_logic hpopped (.OnPacket t data))

theorem run_logic {ch ch' : ChannelImpl F} (h : ch.logic = ch'.logic) (events : List LoopEvent) :
    (run loopStep ch events).1.logic =
      (((run loopStep ch events).2.map LoopCall.publicCall).foldl publicCall ch').logic := by
  induction events generalizing ch ch' with
  | nil => exact h
  | cons e events ih =>
    rw [run_cons, List.map_append, List.foldl_append]
    exact ih (loopStep_logic h e)

/-- Between datagrams, handlers and clients in any order, the controllers are as
after the calls of `OnPacket` and of the clients alone, in the order the loop
has made them. -/
theorem loop_logic (ch : ChannelImpl F) (events : List LoopEvent) :
    (run loopStep ch events).1.logic =
      (((run loopStep ch events).2.map LoopCall.publicCall).foldl publicCall ch).logic :=
  run_logic rfl events

theorem withReceiver_served {ch : ChannelImpl F} (h : ch.Served) {r : MulticastReceiver Packet}
    {type : FeedType} {feed : Feed} (hr : r.joined_ = (ch.receiver type feed).joined_) :
    (ch.withReceiver r type feed).Served := by
  have hactive : (ch.withReceiver r type feed).isSnapshotFeedActive =
      ch.isSnapshotFeedActive := by
    unfold isSnapshotFeedActive MulticastReceiver.isActive
    cases type with
    | Snapshot =>
      cases feed with
      | A => exact congrArg (· || _) hr
      | B => exact congrArg (_ || ·) hr
    | Incremental => cases feed <;> rfl
    | Instrument => cases feed <;> rfl
  have hlogic := (logic_eq_iff.mp (withReceiver_logic ch r type feed)).2.1
  intro hne
  rw [hactive]
  apply h
  unfold registry at hne ⊢
  rwa [hlogic] at hne

theorem loopStep_served {ch : ChannelImpl F} (h : ch.Served) {e : LoopEvent}
    (he : ∀ c, e = .client c → ¬c.StopsSnapshots) : (ch.loopStep e).1.Served := by
  cases e with
  | datagram t f d => exact withReceiver_served h (MulticastReceiver.datagram_frame _ d).1
  | aborted t f => exact withReceiver_served h rfl
  | client c => exact publicCall_served h (he c rfl)
  | handled t f =>
    unfold loopStep
    dsimp only
    cases (ch.receiver t f).ready with
    | nil => exact h
    | cons d rest =>
      cases (ch.receiver t f).data_ with
      | none => exact h
      | some data =>
        have hpopped : (ch.withReceiver {ch.receiver t f with ready := rest} t f).Served :=
          withReceiver_served h rfl
        exact withReceiver_served (call_served hpopped (.OnPacket t data))
          (MulticastReceiver.async_receive_from_frame _).1

theorem run_served (ch : ChannelImpl F) (h : ch.Served) (events : List LoopEvent)
    (hevents : ∀ c, .client c ∈ events → ¬c.StopsSnapshots) :
    (run loopStep ch events).1.Served :=
  run_invariant loopStep Served (fun e => ∀ c, e = .client c → ¬c.StopsSnapshots)
    (fun _ _ he ht => loopStep_served ht he) ch events
    (fun _ he c hc => hevents c (hc ▸ he)) h

theorem run_listed (memory : UInt32 → Indeterminate) (events : List LoopEvent) :
    (run loopStep (construct memory : ChannelImpl F) events).1.Listed := by
  have hcalls : ∀ (calls : List PublicCall) (t : ChannelImpl F), t.Listed →
      (calls.foldl publicCall t).Listed := by
    intro calls
    induction calls with
    | nil => exact fun _ ht => ht
    | cons c calls ih => exact fun t ht => ih _ (publicCall_listed ht c)
  exact (hcalls _ _ (construct_inOrder memory).toListed).congr (run_logic rfl events).symm

/-- In every state of the loop a joined line has a receive waiting or a handler
queued; and as long as no client stops a snapshot line, such a line is joined
whenever an instrument is in `INITIAL` or `OUTOFSYNC`. -/
theorem loop_listens (memory : UInt32 → Indeterminate) (events : List LoopEvent) :
    let ch : ChannelImpl F := (run loopStep (construct memory) events).1
    (∀ type feed, (ch.receiver type feed).joined_ = true →
      0 < (ch.receiver type feed).outstanding) ∧
    ((∀ c, .client c ∈ events → ¬c.StopsSnapshots) →
      ∀ k c, ch.channel_controller_.getInstrumentController k = some c →
        c.state_ = .INITIAL ∨ c.state_ = .OUTOFSYNC →
          ∃ feed, (ch.receiver .Snapshot feed).joined_ = true ∧
            0 < (ch.receiver .Snapshot feed).outstanding) := by
  intro ch
  have hears : ch.Hears := run_invariant loopStep Hears (fun _ => True)
    (fun _ e _ ht => loopStep_hears ht e) _ events (fun _ _ => trivial) (construct_hears memory)
  refine ⟨fun type feed => (hears type feed).2,fun hevents k c hc hstate => ?_⟩
  have hmem : k ∈ ch.registry := ((run_listed memory events).listed k).mpr ⟨c,hc,hstate⟩
  have hactive : ch.isSnapshotFeedActive = true :=
    run_served _ (construct_served memory) events hevents (List.ne_nil_of_mem hmem)
  rcases Bool.or_eq_true_iff.mp hactive with hjoined | hjoined
  · exact ⟨.A,hjoined,(hears .Snapshot .A).2 hjoined⟩
  · exact ⟨.B,hjoined,(hears .Snapshot .B).2 hjoined⟩

theorem loop_listens_sample :
    let ch : ChannelImpl .exact := (run loopStep (construct fun _ => ⟨0,false⟩)
      [.client (.call (.Subscribe sampleInstrument)),
        .datagram .Snapshot .A ⟨1,[snapshotMessage (sampleSnapshot 5)]⟩,.handled .Snapshot .A,
        .datagram .Incremental .B ⟨9,[bookMessage [newBid 7 9 100] true]⟩,
        .client (.Stop .Incremental .A),.handled .Incremental .B]).1
    ∃ feed, (ch.receiver .Snapshot feed).joined_ = true ∧
      0 < (ch.receiver .Snapshot feed).outstanding := by
  intro ch
  have hstate : (ch.channel_controller_.getInstrumentController 7).map (fun c => c.state_) =
      some .OUTOFSYNC := by decide +kernel
  obtain ⟨c,hc,hgap⟩ := Option.map_eq_some_iff.mp hstate
  exact (loop_listens (F := .exact) (fun _ => ⟨0,false⟩) _).2
    (by simp [PublicCall.StopsSnapshots]) 7 c hc (Or.inr hgap)

def taken (type : FeedType) (feed : Feed) (ch : ChannelImpl F) : LoopEvent → List Packet
  | .datagram t f d => if t = type ∧ f = feed then (ch.receiver t f).takes d else []
  | _ => []

def LoopCall.handed (type : FeedType) (feed : Feed) : LoopCall → Option Packet
  | .OnPacket t f data => if t = type ∧ f = feed then some data else none
  | .client _ => none

theorem moved_single {ch ch' : ChannelImpl F} (h : Moved Internal ch ch') (feed : Feed)
    (hs : (ch.receiver .Incremental feed).Single) :
    (ch'.receiver .Incremental feed).Single ∧
      (ch'.receiver .Incremental feed).ready = (ch.receiver .Incremental feed).ready := by
  obtain ⟨calls,hok,heq⟩ := h .Incremental feed
  rw [heq]
  refine ⟨MulticastReceiver.joins_single hs fun c hc => ?_,MulticastReceiver.calls_ready _ calls⟩
  cases c with
  | Join => rfl
  | Leave => exact (hok _ hc).elim

theorem loopStep_single {ch : ChannelImpl F} {e : LoopEvent}
    (he : ∀ c, e = .client c → ¬c.StopsIncrementals) (feed : Feed)
    (hs : (ch.receiver .Incremental feed).Single) :
    ((ch.loopStep e).1.receiver .Incremental feed).Single ∧
      (ch.receiver .Incremental feed).ready++taken .Incremental feed ch e =
        (ch.loopStep e).2.filterMap (LoopCall.handed .Incremental feed) ++
          ((ch.loopStep e).1.receiver .Incremental feed).ready := by
  cases e with
  | datagram t f d =>
    unfold loopStep taken
    dsimp only
    rw [receiver_withReceiver]
    by_cases hline : t = .Incremental ∧ f = feed
    · obtain ⟨rfl,rfl⟩ := hline
      rw [if_pos ⟨rfl,rfl⟩, if_pos ⟨rfl,rfl⟩, (MulticastReceiver.datagram_frame _ d).2]
      exact ⟨MulticastReceiver.datagram_single hs d,rfl⟩
    · rw [if_neg hline, if_neg hline]
      exact ⟨hs,List.append_nil _⟩
  | aborted t f =>
    unfold loopStep taken
    dsimp only
    rw [receiver_withReceiver, List.append_nil]
    by_cases hline : t = .Incremental ∧ f = feed
    · obtain ⟨rfl,rfl⟩ := hline
      rw [if_pos ⟨rfl,rfl⟩]
      exact ⟨⟨MulticastReceiver.step_wellFormed hs.wellFormed .aborted,hs.outstanding⟩,rfl⟩
    · rw [if_neg hline]
      exact ⟨hs,rfl⟩
  | client c =>
    have hmoved := publicCall_moved (fun _ _ h => h) ch c fun hstops => absurd hstops (he c rfl)
    obtain ⟨hsingle,hready⟩ := moved_single hmoved feed hs
    exact ⟨hsingle,(List.append_nil _).trans hready.symm⟩
  | handled t f =>
    unfold loopStep taken
    dsimp only
    rw [List.append_nil]
    cases hready : (ch.receiver t f).ready with
    | nil => exact ⟨hs,rfl⟩
    | cons d rest =>
      cases hdata : (ch.receiver t f).data_ with
      | none =>
        dsimp only
        exact ⟨hs,rfl⟩
      | some data =>
        have hmoved := onPacket_moved
          (ch.withReceiver {ch.receiver t f with ready := rest} t f) t data
        dsimp only [handleReceiveFrom]
        rw [receiver_withReceiver]
        by_cases hline : t = .Incremental ∧ f = feed
        · obtain ⟨rfl,rfl⟩ := hline
          obtain ⟨hrest,hbuffer,hjoined,-⟩ := MulticastReceiver.single_ready hs hready
          obtain ⟨calls,hok,heq⟩ := hmoved .Incremental f
          rw [receiver_withReceiver, if_pos ⟨rfl,rfl⟩] at heq
          obtain rfl : data = d := Option.some.inj (hdata.symm.trans hbuffer)
          have hpopped : ({ch.receiver .Incremental f with ready := rest} :
              MulticastReceiver Packet).joined_ = true := hjoined
          have hsame := MulticastReceiver.joins_joined hpopped fun c hc => by
            cases c with
            | Join => rfl
            | Leave => exact (hok _ hc).elim
          obtain ⟨hsingle,hempty⟩ := MulticastReceiver.handled_single hs hready
          have hhanded : LoopCall.handed .Incremental f (.OnPacket .Incremental f data) =
              some data := if_pos ⟨rfl,rfl⟩
          rw [if_pos ⟨rfl,rfl⟩, heq, hsame, hempty, List.append_nil,
            List.filterMap_cons_some hhanded, List.filterMap_nil, hready, hrest]
          exact ⟨hrest ▸ hsingle,rfl⟩
        · have hother : ((ch.withReceiver {ch.receiver t f with ready := rest} t f).receiver
              .Incremental feed).Single := by
            rw [receiver_withReceiver, if_neg hline]
            exact hs
          obtain ⟨hsingle,hqueued⟩ := moved_single hmoved feed hother
          rw [receiver_withReceiver, if_neg hline] at hqueued
          have hhanded : LoopCall.handed .Incremental feed (.OnPacket t f data) = none :=
            if_neg hline
          rw [if_neg hline, hqueued, List.filterMap_cons_none hhanded]
          exact ⟨hsingle,rfl⟩

theorem run_single {ch : ChannelImpl F} (events : List LoopEvent)
    (hevents : ∀ c, .client c ∈ events → ¬c.StopsIncrementals) (feed : Feed)
    (hs : (ch.receiver .Incremental feed).Single) :
    ((run loopStep ch events).1.receiver .Incremental feed).Single ∧
      (ch.receiver .Incremental feed).ready++
          observe loopStep (taken .Incremental feed) ch events =
        (run loopStep ch events).2.filterMap (LoopCall.handed .Incremental feed) ++
          ((run loopStep ch events).1.receiver .Incremental feed).ready := by
  induction events generalizing ch with
  | nil => exact ⟨hs,List.append_nil _⟩
  | cons e events ih =>
    have he : ∀ c, e = .client c → ¬c.StopsIncrementals := fun c hc =>
      hevents c (hc ▸ List.mem_cons_self)
    obtain ⟨hsingle,hstep⟩ := loopStep_single he feed hs
    obtain ⟨hend,hrun⟩ := ih (fun c hc => hevents c (by simp [hc])) hsingle
    rw [run_cons, observe, List.filterMap_append, ← List.append_assoc, hstep, List.append_assoc,
      hrun, ← List.append_assoc]
    exact ⟨hend,rfl⟩

/-- As long as no client stops an incremental line, it has one receive
outstanding from its first join on, and hands the datagrams it has taken to the
channel each once and in their order; the last one may still be queued. -/
theorem incremental_once (memory : UInt32 → Indeterminate) (events : List LoopEvent)
    (hevents : ∀ c, .client c ∈ events → ¬c.StopsIncrementals) (feed : Feed) :
    let start : ChannelImpl F := construct memory
    let r := run loopStep start events
    (r.1.receiver .Incremental feed).outstanding =
        (if (r.1.receiver .Incremental feed).joined_ = true then 1 else 0) ∧
      observe loopStep (taken .Incremental feed) start events =
        r.2.filterMap (LoopCall.handed .Incremental feed) ++
          (r.1.receiver .Incremental feed).ready := by
  intro start r
  have hblank : start.receiver .Incremental feed = {} := by cases feed <;> rfl
  have hs : (start.receiver .Incremental feed).Single := by
    rw [hblank]
    exact ⟨⟨rfl,fun _ => rfl,nofun⟩,rfl⟩
  obtain ⟨hsingle,hrun⟩ := run_single events hevents feed hs
  rw [show (start.receiver .Incremental feed).ready = [] by rw [hblank], List.nil_append] at hrun
  exact ⟨hsingle.outstanding,hrun⟩

def loopEvents : List LoopEvent :=
  [.client (.call (.Subscribe sampleInstrument)),.datagram .Incremental .A ⟨1,[]⟩,
    .handled .Incremental .A,.datagram .Incremental .A ⟨2,[]⟩]

theorem incremental_once_sample :
    let start : ChannelImpl .exact := construct fun _ => ⟨0,false⟩
    observe loopStep (taken .Incremental .A) start loopEvents = [⟨1,[]⟩,⟨2,[]⟩] ∧
      observe loopStep (taken .Incremental .A) start loopEvents =
        (run loopStep start loopEvents).2.filterMap (LoopCall.handed .Incremental .A) ++
          ((run loopStep start loopEvents).1.receiver .Incremental .A).ready := by
  intro start
  have hevents : ∀ c, .client c ∈ loopEvents → ¬c.StopsIncrementals := by
    intro c hc
    simp only [loopEvents, List.mem_cons, LoopEvent.client.injEq, List.not_mem_nil, or_false,
      reduceCtorEq] at hc
    rw [hc]
    exact id
  exact ⟨rfl,(incremental_once (fun _ => ⟨0,false⟩) loopEvents hevents .A).2⟩

end ChannelImpl

end CmeFeed
