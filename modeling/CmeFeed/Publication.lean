import Mathlib.Data.List.Induction
import CmeFeed.InstrumentView
import CmeFeed.Replay

/-!
# What listeners have been told

Listeners hold the last main and implied book they were notified of. Whether
these are the books of the handler hangs on one flag that entries set, that a
book reset and a rebuild from a snapshot clear, and that a commit tests.
-/

set_option autoImplicit false

namespace CmeFeed

open Reactive

variable {F : Floats}

def lastBooks (books : List (DepthBook F.Float)) : Option (Books F) :=
  match books.reverse with
  | impl::main::_ => some ⟨main,impl⟩
  | _ => none

theorem lastBooks_pair (books : List (DepthBook F.Float)) (b : Books F) :
    lastBooks (books++[b.main,b.impl]) = some b := by
  simp [lastBooks]

namespace Books

def clear (b : Books F) : Books F := ⟨b.main.clear,b.impl.clear⟩

def IsEmpty (b : Books F) : Prop := ∀ x, (b.ladder x).levels_ = []

theorem clear_ladder (b : Books F) (x : Ladder) : b.clear.ladder x = (b.ladder x).clear := by
  cases x <;> rfl

theorem clear_isEmpty (b : Books F) : b.clear.IsEmpty := by
  intro x
  rw [clear_ladder, DepthList.clear_levels]

theorem clear_eq_iff (b : Books F) : b = b.clear ↔ b.IsEmpty := by
  constructor
  · intro h
    rw [h]
    exact b.clear_isEmpty
  · intro h
    ext x
    rw [clear_ladder, DepthList.clear, ← h x]

theorem onIncremental_clear (b : Books F) (e : Entry) : (b.onIncremental e).clear = b.clear := by
  ext x
  rw [clear_ladder, clear_ladder, onIncremental_ladder]
  unfold DepthList.clear
  rw [applyOp_size]

theorem clear_fits {b : Books F} {i : Instrument} (h : b.Fits i) : b.clear = empty F i := by
  ext x
  rw [clear_ladder, empty_ladder, ← (h x).1]
  rfl

end Books

/-- Listeners of an instrument hold its current books; having been told nothing
counts as holding empty ones. -/
def Agrees (s : UInt32) (sent : List (Effect F)) (b : Books F) : Prop :=
  match lastBooks (notifiedOf s sent) with
  | some p => p = b
  | none => b.IsEmpty

theorem agrees_clear {s : UInt32} {sent : List (Effect F)} {b : Books F} (h : Agrees s sent b) :
    Agrees s sent b.clear ↔ b.IsEmpty := by
  unfold Agrees at *
  cases hl : lastBooks (notifiedOf s sent) with
  | none =>
    rw [hl] at h
    exact iff_of_true b.clear_isEmpty h
  | some p =>
    rw [hl] at h
    rw [← b.clear_eq_iff, ← show p = b from h]

namespace MDIncrementalRefreshBook32.NoMDEntries

def Resets (e : MDIncrementalRefreshBook32.NoMDEntries) : Prop := e.mDEntryType = .BookReset

instance (e : MDIncrementalRefreshBook32.NoMDEntries) : Decidable e.Resets :=
  inferInstanceAs (Decidable (_ = _))

end MDIncrementalRefreshBook32.NoMDEntries

namespace InstrumentMdHandler

theorem onIncrementalBook_reset (h : InstrumentMdHandler F)
    {e : MDIncrementalRefreshBook32.NoMDEntries} (he : e.Resets) :
    h.onIncrementalBook e = h.clearState := by
  unfold onIncrementalBook
  rw [show e.mDEntryType = .BookReset from he]
  rfl

theorem onIncrementalBook_statechange (h : InstrumentMdHandler F)
    (e : MDIncrementalRefreshBook32.NoMDEntries) :
    (h.onIncrementalBook e).statechange_ = !decide e.Resets := by
  by_cases he : e.Resets
  · rw [onIncrementalBook_reset h he]
    simp [clearState, he]
  · rw [decide_eq_false he]
    unfold onIncrementalBook
    cases ht : e.mDEntryType with
    | BookReset => exact absurd ht he
    | _ => rfl

theorem foldl_onIncrementalBook_clear (h : InstrumentMdHandler F)
    (es : List MDIncrementalRefreshBook32.NoMDEntries) :
    (es.foldl onIncrementalBook h).books.clear = h.books.clear := by
  induction es generalizing h with
  | nil => rfl
  | cons e es ih =>
    have hone : (h.onIncrementalBook e).books.clear = h.books.clear := by
      rw [show h.onIncrementalBook e = h.onIncremental (.book32 e) from rfl, onIncremental_books,
        Books.onIncremental_clear]
    exact (ih _).trans hone

theorem foldl_onIncrementalBook_last (h : InstrumentMdHandler F)
    (es : List MDIncrementalRefreshBook32.NoMDEntries)
    (e : MDIncrementalRefreshBook32.NoMDEntries) :
    ((es++[e]).foldl onIncrementalBook h).statechange_ = (!decide e.Resets) ∧
      (e.Resets → ((es++[e]).foldl onIncrementalBook h).books = h.books.clear) := by
  rw [List.foldl_append, List.foldl_cons, List.foldl_nil]
  constructor
  · exact onIncrementalBook_statechange _ e
  · intro he
    rw [onIncrementalBook_reset _ he]
    exact foldl_onIncrementalBook_clear h es

end InstrumentMdHandler

def InSequence : ℤ → List MDIncrementalRefreshBook32.NoMDEntries → Prop
  | _, [] => True
  | n, e::es => (e.rptSeq.toNat:ℤ) = n+1 ∧ InSequence (n+1) es

theorem inSequence_append (n : ℤ) (a b : List MDIncrementalRefreshBook32.NoMDEntries) :
    InSequence n (a++b) ↔ InSequence n a ∧ InSequence (n+a.length) b := by
  induction a generalizing n with
  | nil => simp [InSequence]
  | cons e a ih =>
    have hlen : n+1+(a.length:ℤ) = n+((e::a).length:ℤ) := by
      rw [List.length_cons, Int.natCast_succ]
      omega
    rw [List.cons_append, InSequence, InSequence, ih, hlen, and_assoc]

namespace InstrumentController

def bookDelivery (e : MDIncrementalRefreshBook32.NoMDEntries) : Delivery :=
  .incremental (.book32 e)

def afterEntries (c : InstrumentController F)
    (es : List MDIncrementalRefreshBook32.NoMDEntries) : InstrumentController F :=
  {c with processed_rptseq_ := c.processed_rptseq_+es.length
          mdhandler_ := es.foldl InstrumentMdHandler.onIncrementalBook c.mdhandler_}

theorem run_inSequence (c : InstrumentController F) (hs : c.state_ = .SYNC)
    (es : List MDIncrementalRefreshBook32.NoMDEntries)
    (h : InSequence c.processed_rptseq_ es) :
    run deliver c (es.map bookDelivery) = (c.afterEntries es,[]) := by
  induction es generalizing c with
  | nil =>
    rw [List.map_nil, run_nil, afterEntries, List.length_nil, Int.natCast_zero, Int.add_zero]
    rfl
  | cons e es ih =>
    obtain ⟨hseq,hrest⟩ := h
    have hstep : c.deliver (bookDelivery e) =
        ({c with state_ := .SYNC, processed_rptseq_ := c.processed_rptseq_+1
                 mdhandler_ := c.mdhandler_.onIncrementalBook e},[]) := by
      have happly := c.onIncremental_applied (.book32 e) ⟨hseq,Or.inl hs⟩
      unfold resync at happly
      rw [if_pos hs, show ((Entry.book32 e).rptSeq.toNat:ℤ) = _ from hseq] at happly
      exact happly
    have hlen : c.processed_rptseq_+1+(es.length:ℤ) =
        c.processed_rptseq_+((e::es).length:ℤ) := by
      rw [List.length_cons, Int.natCast_succ]
      omega
    rw [List.map_cons, run_cons, hstep, ih _ rfl hrest, afterEntries, afterEntries]
    dsimp only
    rw [hlen, hs, List.append_nil]
    rfl

theorem commit_notifiedOf {s : UInt32} {c : InstrumentController F} (hk : c.Keyed s) :
    notifiedOf s c.commit.2 = if c.mdhandler_.statechange_ then
      [c.mdhandler_.books.main,c.mdhandler_.books.impl] else [] := by
  have hid : c.mdhandler_.instrument_.id = keyId s := by
    rw [hk.2, ← keyId_key, hk.1]
  rw [notifiedOf, commit_notified]
  split_ifs
  · simp [hid]
  · rfl

theorem commit_lastBooks {s : UInt32} {c : InstrumentController F} (hk : c.Keyed s)
    (sent : List (DepthBook F.Float)) :
    lastBooks (sent++notifiedOf s c.commit.2) =
      if c.mdhandler_.statechange_ then some c.mdhandler_.books else lastBooks sent := by
  rw [commit_notifiedOf hk]
  cases c.mdhandler_.statechange_
  · rw [if_neg nofun, if_neg nofun, List.append_nil]
  · exact lastBooks_pair sent _

theorem agrees_congr {s : UInt32} {a b : List (Effect F)} (h : notifiedOf s a = notifiedOf s b)
    (sent : List (Effect F)) (x : Books F) : Agrees s (sent++a) x ↔ Agrees s (sent++b) x := by
  unfold Agrees
  rw [notifiedOf_append, notifiedOf_append, h]

theorem commit_agrees {s : UInt32} {c : InstrumentController F} (hk : c.Keyed s)
    (sent : List (Effect F)) :
    Agrees s (sent++c.commit.2) c.commit.1.mdhandler_.books ↔
      c.mdhandler_.statechange_ = true ∨ Agrees s sent c.mdhandler_.books := by
  have hbooks : c.commit.1.mdhandler_.books = c.mdhandler_.books :=
    InstrumentMdHandler.commit_books _
  unfold Agrees
  rw [notifiedOf_append, commit_lastBooks hk, hbooks]
  cases c.mdhandler_.statechange_
  · simp
  · simp

/-- One event at a synchronised controller whose listeners agree: after its
commit they still agree exactly if its last entry is not the reset of books
that held something when the event began. -/
theorem run_event {s : UInt32} (c : InstrumentController F) (hk : c.Keyed s)
    (hs : c.state_ = .SYNC) (es : List MDIncrementalRefreshBook32.NoMDEntries)
    (hseq : InSequence c.processed_rptseq_ es) (sent : List (Effect F)) :
    let r := run deliver c (es.map bookDelivery++[.commit])
    r.1.state_ = .SYNC ∧ r.1.processed_rptseq_ = c.processed_rptseq_+es.length ∧
      (Agrees s sent c.mdhandler_.books → (Agrees s (sent++r.2) r.1.mdhandler_.books ↔
        ∀ e ∈ es.getLast?, e.Resets → c.mdhandler_.books.IsEmpty)) := by
  intro r
  have hr : r = (c.afterEntries es).commit := by
    change run deliver c (es.map bookDelivery++[.commit]) = _
    rw [run_append, run_inSequence c hs es hseq, run_singleton, List.nil_append]
    rfl
  have hkeyed : (c.afterEntries es).Keyed s := by
    have hrun := run_invariant deliver (Keyed s) (fun _ => True)
      (fun c d _ h => deliver_keyed h d) c (es.map bookDelivery) (fun _ _ => trivial) hk
    rwa [run_inSequence c hs es hseq] at hrun
  rw [hr]
  refine ⟨hs,rfl,fun hagree => (commit_agrees hkeyed sent).trans ?_⟩
  rcases List.eq_nil_or_concat es with rfl | ⟨init,e,rfl⟩
  · exact iff_of_true (Or.inr hagree) (by simp)
  · obtain ⟨hflag,hbooks⟩ :=
      InstrumentMdHandler.foldl_onIncrementalBook_last c.mdhandler_ init e
    rw [List.concat_eq_append, List.getLast?_append_of_ne_nil _ (by simp), List.getLast?_singleton]
    simp only [afterEntries, hflag, Option.mem_def, Option.some.injEq, forall_eq']
    by_cases he : e.Resets
    · rw [hbooks he, agrees_clear hagree]
      simp [he]
    · simp [he]

end InstrumentController

/-- The book messages of one event: the last one, and no other, ends it. -/
structure BookEvent where
  opening : List Message
  closing : Message
  template : ∀ m ∈ opening++[closing], m.templateId = 32
  continues : ∀ m ∈ opening, m.mDIncrementalRefreshBook32.endOfEvent = false
  ends : closing.mDIncrementalRefreshBook32.endOfEvent = true

namespace BookEvent

def messages (e : BookEvent) : List Message := e.opening++[e.closing]

def entriesOf (s : UInt32) (e : BookEvent) : List MDIncrementalRefreshBook32.NoMDEntries :=
  e.messages.flatMap fun m =>
    m.mDIncrementalRefreshBook32.noMDEntries.filter fun x => x.securityID.toUInt32 = s

def EndsInReset (s : UInt32) (e : BookEvent) : Prop := ∃ x ∈ (e.entriesOf s).getLast?, x.Resets

end BookEvent

namespace ChannelController

def onEvent (cc : ChannelController F) (e : BookEvent) : ChannelController F × List (Effect F) :=
  run onIncrementalMessage cc e.messages

theorem bookMessage_deliveries (s : UInt32) (m : Message) (h : m.templateId = 32) :
    messageDeliveries s m =
      ((m.mDIncrementalRefreshBook32.noMDEntries.filter fun x => x.securityID.toUInt32 = s).map
        InstrumentController.bookDelivery) ++
        if m.mDIncrementalRefreshBook32.endOfEvent then [.commit] else [] := by
  have hentries : ∀ es : List MDIncrementalRefreshBook32.NoMDEntries,
      ((es.map Entry.book32).flatMap fun e =>
        if e.securityID.toUInt32 = s then [Delivery.incremental e] else []) =
        (es.filter fun x => x.securityID.toUInt32 = s).map InstrumentController.bookDelivery := by
    intro es
    induction es with
    | nil => rfl
    | cons e es ih =>
      rw [List.map_cons, List.flatMap_cons, ih]
      by_cases he : e.securityID.toUInt32 = s
      · rw [if_pos (show (Entry.book32 e).securityID.toUInt32 = s from he),
          List.filter_cons_of_pos (by simpa using he)]
        rfl
      · rw [if_neg (show ¬(Entry.book32 e).securityID.toUInt32 = s from he),
          List.filter_cons_of_neg (by simpa using he)]
        rfl
  unfold messageDeliveries Message.incremental
  rw [if_pos h]
  exact congrArg (· ++ _) (hentries _)

theorem onEvent_projects (s : UInt32) (cc : ChannelController F) (e : BookEvent) :
    Projects s ((e.entriesOf s).map InstrumentController.bookDelivery++[.commit]) cc
      (cc.onEvent e) := by
  have hrun := run_projects (fun cc m => onIncrementalMessage_projects cc s m) cc e.messages
  rw [observe_inputs] at hrun
  have hopening : ∀ ms : List Message, (∀ m ∈ ms, m.templateId = 32) →
      (∀ m ∈ ms, m.mDIncrementalRefreshBook32.endOfEvent = false) →
        ms.flatMap (messageDeliveries s) = (ms.flatMap fun m =>
          m.mDIncrementalRefreshBook32.noMDEntries.filter fun x =>
            x.securityID.toUInt32 = s).map InstrumentController.bookDelivery := by
    intro ms htemplate hflag
    rw [List.map_flatMap]
    refine List.flatMap_congr fun m hm => ?_
    rw [bookMessage_deliveries s m (htemplate m hm), hflag m hm]
    exact List.append_nil _
  have hdeliveries : e.messages.flatMap (messageDeliveries s) =
      (e.entriesOf s).map InstrumentController.bookDelivery++[.commit] := by
    rw [BookEvent.entriesOf, BookEvent.messages, List.flatMap_append, List.flatMap_append,
      List.flatMap_singleton, List.flatMap_singleton,
      hopening e.opening (fun m hm => e.template m (by simp [hm])) e.continues,
      bookMessage_deliveries s e.closing (e.template _ (by simp)), e.ends, List.map_append,
      List.append_assoc]
    rfl
  rwa [hdeliveries] at hrun

def InAgreement (s : UInt32) (cc : ChannelController F) (sent : List (Effect F)) : Prop :=
  ∃ c, cc.getInstrumentController s = some c ∧ Agrees s sent c.mdhandler_.books

/-- The instrument is synchronised and the coming events continue its sequence. -/
def Follows (s : UInt32) (cc : ChannelController F) (events : List BookEvent) : Prop :=
  ∃ c, cc.getInstrumentController s = some c ∧ c.state_ = .SYNC ∧
    InSequence c.processed_rptseq_ (events.flatMap (·.entriesOf s))

/-- The event does not reset books that are not empty as its last act on the
instrument. -/
def ResetsNothing (s : UInt32) (cc : ChannelController F) (e : BookEvent) : Prop :=
  e.EndsInReset s → ∀ c, cc.getInstrumentController s = some c → c.mdhandler_.books.IsEmpty

theorem onEvent_step (s : UInt32) (cc : ChannelController F) (e : BookEvent)
    (events : List BookEvent) (sent : List (Effect F)) (h : Follows s cc (e::events)) :
    Follows s (cc.onEvent e).1 events ∧ (InAgreement s cc sent →
      (InAgreement s (cc.onEvent e).1 (sent++(cc.onEvent e).2) ↔ ResetsNothing s cc e)) := by
  obtain ⟨c,hc,hs,hseq⟩ := h
  rw [List.flatMap_cons, inSequence_append] at hseq
  obtain ⟨hstate,hbooks⟩ := onEvent_projects s cc e
  unfold soloState at hstate
  unfold soloBooks at hbooks
  rw [hc] at hstate hbooks
  obtain ⟨hsync,hseq',hagrees⟩ :=
    InstrumentController.run_event c (cc.instrument_controllers_.keyed s c hc) hs _ hseq.1 sent
  constructor
  · exact ⟨_,hstate,hsync,hseq'.symm ▸ hseq.2⟩
  · rintro ⟨c',hc',hagree⟩
    obtain rfl : c = c' := Option.some.inj (hc.symm.trans hc')
    have hafter := (InstrumentController.agrees_congr hbooks sent _).trans (hagrees hagree)
    constructor
    · rintro ⟨d,hd,hdagree⟩ ⟨x,hx,hreset⟩ c' hc'
      obtain rfl : c = c' := Option.some.inj (hc.symm.trans hc')
      obtain rfl : _ = d := Option.some.inj (hstate.symm.trans hd)
      exact hafter.mp hdagree x hx hreset
    · intro hresets
      exact ⟨_,hstate,hafter.mpr fun x hx hreset => hresets ⟨x,hx,hreset⟩ c hc⟩

/-- Listeners agree with the handler after every event exactly if no event
ends by resetting books of the instrument that held something before it. -/
theorem listener_agreement (cc : ChannelController F) (s : UInt32) (sent : List (Effect F))
    (events : List BookEvent) (hfollows : Follows s cc events) (h : InAgreement s cc sent) :
    (∀ pre post, events = pre++post →
        InAgreement s (run onEvent cc pre).1 (sent++(run onEvent cc pre).2)) ↔
      ∀ pre e post, events = pre++e::post → ResetsNothing s (run onEvent cc pre).1 e :=
  run_always_iff onEvent (Follows s) (InAgreement s) (ResetsNothing s)
    (fun cc e events hf => (onEvent_step s cc e events [] hf).1)
    (fun cc e events sent hf hagree => (onEvent_step s cc e events sent hf).2 hagree)
    cc events sent hfollows h

end ChannelController

def bookReset (securityID : Int32) (rptSeq : UInt32) : MDIncrementalRefreshBook32.NoMDEntries where
  securityID := securityID
  rptSeq := rptSeq
  mDEntryPx := ⟨0,0⟩
  mDEntrySize := 0
  mDPriceLevel := 0
  mDUpdateAction := .New
  mDEntryType := .BookReset

def resetEvent : BookEvent where
  opening := []
  closing := bookMessage [bookReset 7 2] true
  template m hm := by
    rw [List.mem_singleton.mp hm]
    rfl
  continues _ hm := absurd hm List.not_mem_nil
  ends := rfl

def openedChannel : ChannelController .exact × List (Effect .exact) :=
  sampleChannel.onIncrementalMessage (bookMessage [newBid 7 1 101] true)

namespace ChannelController

theorem openedChannel_follows : Follows 7 openedChannel.1 [resetEvent] :=
  ⟨_,rfl,by decide,by decide,trivial⟩

theorem openedChannel_agrees : InAgreement 7 openedChannel.1 openedChannel.2 := ⟨_,rfl,rfl⟩

theorem listener_agreement_sample :
    (∀ pre post, [resetEvent] = pre++post →
        InAgreement 7 (run onEvent openedChannel.1 pre).1
          (openedChannel.2++(run onEvent openedChannel.1 pre).2)) ↔
      ∀ pre e post, [resetEvent] = pre++e::post →
        ResetsNothing 7 (run onEvent openedChannel.1 pre).1 e :=
  listener_agreement openedChannel.1 7 openedChannel.2 [resetEvent] openedChannel_follows
    openedChannel_agrees

/-- The reset empties the book and ends the event, and listeners keep the bid. -/
theorem reset_unpublished :
    Follows 7 openedChannel.1 [resetEvent] ∧ InAgreement 7 openedChannel.1 openedChannel.2 ∧
      ¬InAgreement 7 (openedChannel.1.onEvent resetEvent).1
        (openedChannel.2++(openedChannel.1.onEvent resetEvent).2) := by
  refine ⟨openedChannel_follows,openedChannel_agrees, ?_⟩
  rintro ⟨c,hc,hagree⟩
  have hempty : ((openedChannel.1.onEvent resetEvent).1.getInstrumentController 7).map
      (fun c => c.mdhandler_.books.main.bids_.levels_.length) = some 0 := rfl
  have hheld : (lastBooks (notifiedOf 7
      (openedChannel.2++(openedChannel.1.onEvent resetEvent).2))).map
        (fun b => b.main.bids_.levels_.length) = some 1 := rfl
  obtain ⟨b,hb,hone⟩ := Option.map_eq_some_iff.mp hheld
  unfold Agrees at hagree
  rw [hb] at hagree
  rw [hc, Option.map_some, ← show b = c.mdhandler_.books from hagree, hone] at hempty
  exact absurd hempty (by decide)

end ChannelController

end CmeFeed
