import CmeFeed.Demand

/-!
# The event loop

One thread runs the handlers of all receivers. A handler hands the datagram in
the buffer of its line to the channel, which may join or leave any line, and
then asks for the next datagram. Clients call in between. Each line sees of
this a run of its own receiver.
-/

set_option autoImplicit false

namespace CmeFeed

open Reactive

namespace MulticastReceiver

variable {D : Type}

/-- A joined receiver is not deaf: an operation waits, or a handler is queued. -/
def Listening (r : MulticastReceiver D) : Prop := r.joined_ = true → 0 < r.outstanding

theorem call_listening {r : MulticastReceiver D} (h : r.Listening) (c : ReceiverCall) :
    (r.call c).Listening := by
  cases c with
  | Join =>
    change r.join.Listening
    unfold join
    split_ifs
    · exact h
    · intro _
      change 0 < r.waiting+1+r.ready.length
      omega
  | Leave =>
    intro hjoined
    exact absurd ((leave_joined r).symm.trans hjoined) nofun

theorem async_receive_from_listening {r : MulticastReceiver D} (h : r.WellFormed) :
    r.async_receive_from.Listening := by
  unfold async_receive_from
  split_ifs with hopen
  · intro _
    change 0 < r.waiting+1+r.ready.length
    omega
  · intro hjoined
    exact absurd (h.opened.trans hjoined) hopen

theorem step_listening {r : MulticastReceiver D} (hr : r.WellFormed) (h : r.Listening)
    (e : ReceiverEvent D) : (r.step e).1.Listening := by
  cases e with
  | datagram d =>
    unfold step
    split_ifs
    · intro hjoined
      change 0 < r.waiting-1+(r.ready++[d]).length
      rw [List.length_append, List.length_singleton]
      omega
    · exact h
  | handled calls =>
    unfold step
    cases hready : r.ready with
    | nil => exact h
    | cons d rest =>
      have hpopped : WellFormed {r with ready := rest} := by
        refine ⟨hr.opened,hr.closed,fun x hx => hr.stored x ?_⟩
        rw [hready, List.getLast?_cons, show rest.getLast? = some x from hx]
        rfl
      have hcalls := run_invariant callStep WellFormed (fun _ => True)
        (fun s c _ hs => call_wellFormed hs c) {r with ready := rest} calls (fun _ _ => trivial)
        hpopped
      exact async_receive_from_listening hcalls
  | aborted => exact h
  | call c => exact call_listening h c

theorem run_callStep (r : MulticastReceiver D) (calls : List ReceiverCall) :
    (run callStep r calls).1 = calls.foldl call r := by
  induction calls generalizing r with
  | nil => rfl
  | cons c calls ih => exact ih _

theorem run_call_events (r : MulticastReceiver D) (calls : List ReceiverCall) :
    (run step r (calls.map ReceiverEvent.call)).1 = calls.foldl call r := by
  induction calls generalizing r with
  | nil => rfl
  | cons c calls ih => exact ih _

/-- A line that is never left: it has one operation outstanding from its first
`Join` on. -/
structure Single (r : MulticastReceiver D) : Prop where
  wellFormed : r.WellFormed
  outstanding : r.outstanding = if r.joined_ = true then 1 else 0

theorem join_single {r : MulticastReceiver D} (h : r.Single) : r.join.Single := by
  refine ⟨join_wellFormed h.wellFormed,?_⟩
  have hcount := h.outstanding
  unfold join
  by_cases hj : r.joined_ = true
  · rw [if_pos hj]
    exact hcount
  · rw [if_neg hj] at hcount ⊢
    unfold outstanding at hcount
    change r.waiting+1+r.ready.length = 1
    omega

theorem joins_single {r : MulticastReceiver D} (h : r.Single) {calls : List ReceiverCall}
    (hcalls : ∀ c ∈ calls, c = .Join) : (calls.foldl call r).Single := by
  induction calls generalizing r with
  | nil => exact h
  | cons c calls ih =>
    obtain rfl : c = .Join := hcalls c (by simp)
    exact ih (join_single h) fun x hx => hcalls x (by simp [hx])

theorem single_ready {r : MulticastReceiver D} (h : r.Single) {d : D} {rest : List D}
    (hready : r.ready = d::rest) : rest = [] ∧ r.data_ = some d ∧ r.joined_ = true ∧
      r.waiting = 0 := by
  have hcount := h.outstanding
  unfold outstanding at hcount
  rw [hready, List.length_cons] at hcount
  split_ifs at hcount with hj
  · have hrest : rest = [] := List.eq_nil_of_length_eq_zero (by omega)
    subst hrest
    refine ⟨rfl,h.wellFormed.stored d ?_,hj,by omega⟩
    rw [hready]
    rfl

theorem joins_joined {r : MulticastReceiver D} (hj : r.joined_ = true)
    {calls : List ReceiverCall} (hcalls : ∀ c ∈ calls, c = .Join) : calls.foldl call r = r := by
  induction calls with
  | nil => rfl
  | cons c calls ih =>
    obtain rfl : c = .Join := hcalls c (by simp)
    rw [List.foldl_cons, show r.call .Join = r from if_pos hj]
    exact ih fun x hx => hcalls x (by simp [hx])

end MulticastReceiver

variable {F : Floats}

namespace ChannelImpl

inductive LoopEvent where
  /-- A datagram arrives on a line. -/
  | datagram (type : FeedType) (feed : Feed) (d : Packet)
  /-- The handler of a line that is queued with success runs. -/
  | handled (type : FeedType) (feed : Feed)
  /-- A handler that is queued with an error runs. -/
  | aborted (type : FeedType) (feed : Feed)
  | client (c : PublicCall)

inductive LoopCall where
  | OnPacket (type : FeedType) (feed : Feed) (data : Packet)
  | client (c : PublicCall)

def LoopCall.publicCall : LoopCall → PublicCall
  | .OnPacket type _ data => .call (.OnPacket type data)
  | .client c => c

/-- `HandleReceiveFrom` on a line with a handler queued: the packet is reset to
the buffer, which holds the last datagram. -/
def handleReceiveFrom (ch : ChannelImpl F) (type : FeedType) (feed : Feed) (rest : List Packet)
    (data : Packet) : ChannelImpl F :=
  let ch := ch.withReceiver {ch.receiver type feed with ready := rest} type feed
  let ch := ch.onPacket type data
  ch.withReceiver (ch.receiver type feed).async_receive_from type feed

def loopStep (ch : ChannelImpl F) : LoopEvent → ChannelImpl F × List LoopCall
  | .datagram type feed d =>
    (ch.withReceiver ((ch.receiver type feed).step (.datagram d)).1 type feed,[])
  | .handled type feed =>
    match (ch.receiver type feed).ready, (ch.receiver type feed).data_ with
    | _::rest, some data =>
      (ch.handleReceiveFrom type feed rest data,[.OnPacket type feed data])
    | _, _ => (ch,[])
  | .aborted type feed =>
    (ch.withReceiver ((ch.receiver type feed).step .aborted).1 type feed,[])
  | .client c => (ch.publicCall c,[.client c])

theorem receiver_withReceiver (ch : ChannelImpl F) (r : MulticastReceiver Packet)
    (type type' : FeedType) (feed feed' : Feed) :
    (ch.withReceiver r type feed).receiver type' feed' =
      if type = type' ∧ feed = feed' then r else ch.receiver type' feed' := by
  cases type <;> cases feed <;> cases type' <;> cases feed' <;> rfl

def Moved (Ok : FeedType → ReceiverCall → Prop) (ch ch' : ChannelImpl F) : Prop :=
  ∀ type feed, ∃ calls : List ReceiverCall, (∀ c ∈ calls, Ok type c) ∧
    ch'.receiver type feed = calls.foldl MulticastReceiver.call (ch.receiver type feed)

section
variable {Ok : FeedType → ReceiverCall → Prop}

theorem moved_of_same {ch ch' : ChannelImpl F}
    (h : ∀ type feed, ch'.receiver type feed = ch.receiver type feed) : Moved Ok ch ch' :=
  fun type feed => ⟨[],nofun,h type feed⟩

theorem Moved.refl (ch : ChannelImpl F) : Moved Ok ch ch := moved_of_same fun _ _ => rfl

theorem Moved.trans {a b c : ChannelImpl F} (h : Moved Ok a b) (h' : Moved Ok b c) :
    Moved Ok a c := by
  intro type feed
  obtain ⟨calls,hok,hb⟩ := h type feed
  obtain ⟨calls',hok',hc⟩ := h' type feed
  refine ⟨calls++calls',fun x hx => ?_,?_⟩
  · rcases List.mem_append.mp hx with hx | hx
    · exact hok x hx
    · exact hok' x hx
  · rw [hc, hb, List.foldl_append]

theorem foldl_moved {A : Type} {f : ChannelImpl F → A → ChannelImpl F}
    (hf : ∀ ch a, Moved Ok ch (f ch a)) (ch : ChannelImpl F) (as : List A) :
    Moved Ok ch (as.foldl f ch) := by
  induction as generalizing ch with
  | nil => exact .refl ch
  | cons a as ih => exact (hf ch a).trans (ih _)

theorem withReceiver_moved (ch : ChannelImpl F) (type : FeedType) (feed : Feed) {c : ReceiverCall}
    (hok : Ok type c) :
    Moved Ok ch (ch.withReceiver ((ch.receiver type feed).call c) type feed) := by
  intro type' feed'
  rw [receiver_withReceiver]
  by_cases h : type = type' ∧ feed = feed'
  · obtain ⟨rfl,rfl⟩ := h
    refine ⟨[c],fun x hx => ?_,if_pos ⟨rfl,rfl⟩⟩
    rw [List.mem_singleton.mp hx]
    exact hok
  · exact ⟨[],nofun,if_neg h⟩

theorem start_moved (ch : ChannelImpl F) (type : FeedType) (feed : Feed) (hok : Ok type .Join) :
    Moved Ok ch (ch.start type feed) := withReceiver_moved ch type feed hok

theorem stop_moved (ch : ChannelImpl F) (type : FeedType) (feed : Feed) (hok : Ok type .Leave) :
    Moved Ok ch (ch.stop type feed) := withReceiver_moved ch type feed hok

end

/-- The calls the channel makes by itself: it never leaves an incremental line. -/
def Internal : FeedType → ReceiverCall → Prop
  | .Incremental, .Leave => False
  | _, _ => True

theorem startSnapshotFeed_moved (ch : ChannelImpl F) : Moved Internal ch ch.startSnapshotFeed :=
  (start_moved ch .Snapshot .A trivial).trans
    (start_moved ch.startSnapshotA .Snapshot .B trivial)

theorem stopSnapshotFeed_moved (ch : ChannelImpl F) : Moved Internal ch ch.stopSnapshotFeed :=
  (stop_moved ch .Snapshot .A trivial).trans
    (stop_moved ch.stopSnapshotA .Snapshot .B trivial)

theorem startIncrementalFeed_moved (ch : ChannelImpl F) :
    Moved Internal ch ch.startIncrementalFeed :=
  (start_moved ch .Incremental .A trivial).trans
    (start_moved ch.startIncrementalA .Incremental .B trivial)

theorem startInstrumentFeed_moved (ch : ChannelImpl F) :
    Moved Internal ch ch.startInstrumentFeed :=
  (start_moved ch .Instrument .A trivial).trans
    (start_moved ch.startInstrumentA .Instrument .B trivial)

theorem withController_moved (ch : ChannelImpl F) (cc : ChannelController F) :
    Moved Internal ch {ch with channel_controller_ := cc} := by
  apply moved_of_same
  intro type feed
  cases type <;> cases feed <;> rfl

theorem execute_moved (ch : ChannelImpl F) (e : Effect F) : Moved Internal ch (ch.execute e) := by
  cases e with
  | SubscribeToSnapshotsForInstrument k =>
    dsimp only [execute, subscribeToSnapshotsForInstrument]
    split_ifs
    · exact (withController_moved ch _).trans (startSnapshotFeed_moved _)
    · exact withController_moved ch _
  | UnsubscribeToSnapshotsForInstrument k =>
    dsimp only [execute, unsubscribeToSnapshotsForInstrument]
    split_ifs
    · exact (withController_moved ch _).trans (stopSnapshotFeed_moved _)
    · exact withController_moved ch _
    · exact withController_moved ch _
    · exact withController_moved ch _
  | NotifyBookRefresh id book => exact .refl ch
  | packetGap expected seqnum => exact .refl ch

theorem perform_moved (ch : ChannelImpl F) (r : ChannelController F × List (Effect F)) :
    Moved Internal ch (ch.perform r) :=
  (withController_moved ch r.1).trans (foldl_moved execute_moved _ r.2)

theorem subscribe_moved (ch : ChannelImpl F) (i : Instrument) :
    Moved Internal ch (ch.subscribe i) :=
  (perform_moved ch _).trans (startIncrementalFeed_moved _)

theorem stopInstrumentFeed_moved (ch : ChannelImpl F) :
    Moved Internal ch ch.stopInstrumentFeed := by
  have hleft : Moved Internal ch ch.stopInstrumentA.stopInstrumentB :=
    (stop_moved ch .Instrument .A trivial).trans
      (stop_moved ch.stopInstrumentA .Instrument .B trivial)
  have hdrained : Moved Internal ch.stopInstrumentA.stopInstrumentB
      (ch.pendingsubscription_.foldl (fun ch symbol =>
        ch.subscribe (ch.symbol_controller_.getInstrument symbol))
        ch.stopInstrumentA.stopInstrumentB) :=
    foldl_moved (fun t symbol => subscribe_moved t _) _ _
  refine (hleft.trans hdrained).trans (moved_of_same fun type feed => ?_)
  cases type <;> cases feed <;> rfl

theorem onPacket_moved (ch : ChannelImpl F) (type : FeedType) (data : Packet) :
    Moved Internal ch (ch.onPacket type data) := by
  cases type with
  | Snapshot => exact perform_moved ch _
  | Incremental => exact perform_moved ch _
  | Instrument =>
    have hdownload : ∀ (t : ChannelImpl F) (d : DownloadCall),
        Moved Internal t (t.executeDownload d) := by
      intro t d
      cases d
      · exact startInstrumentFeed_moved t
      · exact stopInstrumentFeed_moved t
    refine Moved.trans (b := {ch with
      symbol_controller_ := (ch.symbol_controller_.onInstrumentPacket data).1}) ?_
      (foldl_moved hdownload _ _)
    apply moved_of_same
    intro type feed
    cases type <;> cases feed <;> rfl

def PublicCall.StopsIncrementals : PublicCall → Prop
  | .Stop type _ => type = .Incremental
  | .StopFeed type => type = .Incremental
  | .StopAll => True
  | _ => False

theorem publicCall_moved {Ok : FeedType → ReceiverCall → Prop}
    (hinternal : ∀ type c, Internal type c → Ok type c) (ch : ChannelImpl F) (c : PublicCall)
    (hstops : c.StopsIncrementals → ∀ type c, Ok type c) : Moved Ok ch (ch.publicCall c) := by
  have hweaken : ∀ {a b : ChannelImpl F}, Moved Internal a b → Moved Ok a b := by
    intro a b h type feed
    obtain ⟨calls,hok,heq⟩ := h type feed
    exact ⟨calls,fun x hx => hinternal type x (hok x hx),heq⟩
  have hjoin : ∀ type, Ok type .Join := fun type => hinternal type _ (by cases type <;> trivial)
  cases c with
  | call c =>
    apply hweaken
    cases c with
    | Subscribe inst => exact subscribe_moved ch inst
    | SubscribeSymbol symbol =>
      apply moved_of_same
      intro type feed
      cases type <;> cases feed <;> rfl
    | OnPacket type data => exact onPacket_moved ch type data
  | Start type feed => exact start_moved ch type feed (hjoin type)
  | Stop type feed =>
    apply stop_moved ch type feed
    cases type with
    | Incremental => exact hstops rfl _ _
    | Snapshot => exact hinternal _ _ trivial
    | Instrument => exact hinternal _ _ trivial
  | StartFeed type =>
    apply hweaken
    cases type with
    | Incremental => exact startIncrementalFeed_moved ch
    | Snapshot => exact startSnapshotFeed_moved ch
    | Instrument => exact startInstrumentFeed_moved ch
  | StopFeed type =>
    cases type with
    | Incremental =>
      exact (stop_moved ch .Incremental .A (hstops rfl _ _)).trans
        (stop_moved ch.stopIncrementalA .Incremental .B (hstops rfl _ _))
    | Snapshot => exact hweaken (stopSnapshotFeed_moved ch)
    | Instrument => exact hweaken (stopInstrumentFeed_moved ch)
  | StartAll =>
    exact hweaken (((startIncrementalFeed_moved ch).trans (startSnapshotFeed_moved _)).trans
      (startInstrumentFeed_moved _))
  | StopAll =>
    have hstopped : Moved Ok ch ch.stopIncrementalFeed :=
      (stop_moved ch .Incremental .A (hstops trivial _ _)).trans
        (stop_moved ch.stopIncrementalA .Incremental .B (hstops trivial _ _))
    exact (hstopped.trans (hweaken (stopSnapshotFeed_moved _))).trans
      (hweaken (stopInstrumentFeed_moved _))
  | Unsubscribe securityid => exact hweaken (withController_moved ch _)
  | UnsubscribeSymbol symbol => exact .refl ch

end ChannelImpl

end CmeFeed
