import CmeFeed.InstrumentMdHandler
import CmeFeed.Reactive.Run

/-!
# The sequence controller of one instrument

The controller orders the entries of its instrument by `rptSeq`, asks the
channel for the snapshot feed when it detects a gap and gives it up when it is
synchronised again. What an entry or a snapshot can do is said once, by the
case lemmas; every invariant of the later modules is derived from them.
-/

set_option autoImplicit false

namespace CmeFeed

inductive InstrumentState where
  | NEW | INITIAL | SYNC | OUTOFSYNC | DISCONTINUED
  deriving DecidableEq, Repr

/-- The values the constructors leave in the members they do not set. -/
structure Indeterminate where
  processed_rptseq_ : ℤ
  statechange_ : Bool
  deriving DecidableEq, Repr

structure InstrumentController (F : Floats) where
  instrument_ : Instrument
  state_ : InstrumentState
  processed_rptseq_ : ℤ
  mdhandler_ : InstrumentMdHandler F

inductive Delivery where
  | incremental (entry : Entry)
  | snapshot (refresh : SnapshotFullRefresh38)
  | commit
  deriving DecidableEq, Repr

def Delivery.number : Delivery → ℕ
  | .incremental e => e.rptSeq.toNat
  | .snapshot r => r.rptSeq.toNat
  | .commit => 0

variable {F : Floats}

def notified (effects : List (Effect F)) : List (UInt64 × DepthBook F.Float) :=
  effects.filterMap fun
    | .NotifyBookRefresh id book => some (id,book)
    | _ => none

@[simp] theorem notified_nil : notified ([] : List (Effect F)) = [] := rfl

theorem notified_append (a b : List (Effect F)) : notified (a++b) = notified a ++ notified b :=
  List.filterMap_append

namespace InstrumentController

def construct (instrument : Instrument) (m : Indeterminate) :
    InstrumentController F × List (Effect F) :=
  (⟨instrument,.INITIAL,m.processed_rptseq_,.construct instrument m.statechange_⟩,
    [.SubscribeToSnapshotsForInstrument instrument.key])

def switchState (c : InstrumentController F) (_current_state new_state : InstrumentState) :
    InstrumentController F × List (Effect F) :=
  ({c with state_ := new_state},
    match new_state with
    | .OUTOFSYNC => [.SubscribeToSnapshotsForInstrument c.instrument_.key]
    | .SYNC | .DISCONTINUED => [.UnsubscribeToSnapshotsForInstrument c.instrument_.key]
    | _ => [])

def onIncremental (c : InstrumentController F) (entry : Entry) :
    InstrumentController F × List (Effect F) :=
  let rptseq : ℤ := entry.rptSeq.toNat
  let expected_rptseq := c.processed_rptseq_+1
  match c.state_ with
  | .SYNC =>
    if rptseq = expected_rptseq then
      ({c with processed_rptseq_ := rptseq, mdhandler_ := c.mdhandler_.onIncremental entry},[])
    else if expected_rptseq < rptseq then
      switchState {c with mdhandler_ := c.mdhandler_.reset} .SYNC .OUTOFSYNC
    else (c,[])
  | .OUTOFSYNC =>
    if rptseq = expected_rptseq then
      let r := switchState {c with processed_rptseq_ := rptseq} .OUTOFSYNC .SYNC
      ({r.1 with mdhandler_ := r.1.mdhandler_.onIncremental entry},r.2)
    else (c,[])
  | .INITIAL =>
    -- start of session, no recovery required
    if c.processed_rptseq_ = 0 ∧ rptseq = 1 then
      let r := switchState {c with processed_rptseq_ := rptseq} .INITIAL .SYNC
      ({r.1 with mdhandler_ := r.1.mdhandler_.onIncremental entry},r.2)
    else (c,[])
  | _ => (c,[])

def onSnapshot (c : InstrumentController F) (refresh : SnapshotFullRefresh38) :
    InstrumentController F × List (Effect F) :=
  let snpt_seqnum : ℤ := refresh.rptSeq.toNat
  match c.state_ with
  | .INITIAL =>
    let r := switchState {c with processed_rptseq_ := snpt_seqnum} .INITIAL .SYNC
    ({r.1 with mdhandler_ := r.1.mdhandler_.onSnapshot refresh},r.2)
  | .OUTOFSYNC =>
    if c.processed_rptseq_ < snpt_seqnum then
      let r := switchState {c with processed_rptseq_ := snpt_seqnum
                                   mdhandler_ := c.mdhandler_.reset} .OUTOFSYNC .SYNC
      ({r.1 with mdhandler_ := r.1.mdhandler_.onSnapshot refresh},r.2)
    else (c,[])
  | .SYNC =>
    -- the snapshot feed is ahead of the incremental feed: fast forward
    if c.processed_rptseq_ < snpt_seqnum then
      ({c with processed_rptseq_ := snpt_seqnum
               mdhandler_ := c.mdhandler_.reset.onSnapshot refresh},[])
    else (c,[])
  | _ => (c,[])

def onSecurityStatus (c : InstrumentController F) (status : SecurityStatus30) :
    InstrumentController F :=
  if status.securityID = c.instrument_.securityid ∨
      status.securityID = status.securityIDNullValue ∧
        status.securityGroup = c.instrument_.securitygroup then
    {c with mdhandler_ := c.mdhandler_.onSecurityStatus status}
  else c

def onChannelReset (c : InstrumentController F) : InstrumentController F × List (Effect F) :=
  let c := {c with processed_rptseq_ := 0}
  if c.state_ ≠ .DISCONTINUED then
    let r := switchState c c.state_ .SYNC
    let s := r.1.mdhandler_.onChannelReset
    ({r.1 with mdhandler_ := s.1},r.2++s.2)
  else (c,[])

def commit (c : InstrumentController F) : InstrumentController F × List (Effect F) :=
  ({c with mdhandler_ := c.mdhandler_.commit.1},c.mdhandler_.commit.2)

def deliver (c : InstrumentController F) : Delivery → InstrumentController F × List (Effect F)
  | .incremental e => c.onIncremental e
  | .snapshot r => c.onSnapshot r
  | .commit => c.commit

def Applies (c : InstrumentController F) (e : Entry) : Prop :=
  (e.rptSeq.toNat:ℤ) = c.processed_rptseq_+1 ∧
    (c.state_ = .SYNC ∨ c.state_ = .OUTOFSYNC ∨ c.state_ = .INITIAL ∧ c.processed_rptseq_ = 0)

def OpensGap (c : InstrumentController F) (e : Entry) : Prop :=
  c.state_ = .SYNC ∧ c.processed_rptseq_+1 < e.rptSeq.toNat

def Accepts (c : InstrumentController F) (r : SnapshotFullRefresh38) : Prop :=
  c.state_ = .INITIAL ∨
    (c.state_ = .OUTOFSYNC ∨ c.state_ = .SYNC) ∧ c.processed_rptseq_ < r.rptSeq.toNat

instance (c : InstrumentController F) (e : Entry) : Decidable (c.Applies e) :=
  inferInstanceAs (Decidable (_ ∧ _))

instance (c : InstrumentController F) (e : Entry) : Decidable (c.OpensGap e) :=
  inferInstanceAs (Decidable (_ ∧ _))

instance (c : InstrumentController F) (r : SnapshotFullRefresh38) : Decidable (c.Accepts r) :=
  inferInstanceAs (Decidable (_ ∨ _))

def resync (c : InstrumentController F) : List (Effect F) :=
  if c.state_ = .SYNC then [] else [.UnsubscribeToSnapshotsForInstrument c.instrument_.key]

theorem onIncremental_applied (c : InstrumentController F) (e : Entry) (h : c.Applies e) :
    c.onIncremental e = ({c with state_ := .SYNC, processed_rptseq_ := e.rptSeq.toNat
                                 mdhandler_ := c.mdhandler_.onIncremental e},c.resync) := by
  obtain ⟨hseq,hstate⟩ := h
  obtain ⟨i,state,processed,m⟩ := c
  unfold onIncremental resync
  rcases hstate with rfl | rfl | ⟨rfl,hzero⟩
  · simp only [hseq, if_true]
  · simp only [hseq, if_true, switchState, reduceCtorEq, if_false]
  · dsimp only at hseq hzero
    have hone : (e.rptSeq.toNat:ℤ) = 1 := by omega
    subst hzero
    simp only [hone, and_self, if_true, switchState, reduceCtorEq, if_false]

theorem onIncremental_gap (c : InstrumentController F) (e : Entry) (h : c.OpensGap e) :
    c.onIncremental e = ({c with state_ := .OUTOFSYNC},
      [.SubscribeToSnapshotsForInstrument c.instrument_.key]) := by
  obtain ⟨i,state,processed,m⟩ := c
  obtain ⟨rfl,hahead⟩ := h
  dsimp only at hahead
  simp only [onIncremental, if_neg (show ¬(e.rptSeq.toNat:ℤ) = processed+1 by omega),
    if_pos hahead, switchState, InstrumentMdHandler.reset]

theorem onIncremental_ignored (c : InstrumentController F) (e : Entry) (ha : ¬c.Applies e)
    (hg : ¬c.OpensGap e) : c.onIncremental e = (c,[]) := by
  obtain ⟨i,state,processed,m⟩ := c
  unfold Applies OpensGap at *
  cases state with
  | SYNC =>
    simp only [reduceCtorEq, false_and, or_false, and_true, true_and] at ha hg
    simp only [onIncremental, if_neg ha, if_neg hg]
  | OUTOFSYNC =>
    simp only [reduceCtorEq, false_and, or_false, and_true, false_or] at ha
    simp only [onIncremental, if_neg ha]
  | INITIAL =>
    simp only [reduceCtorEq, false_or, true_and] at ha
    have hstart : ¬(processed = 0 ∧ (e.rptSeq.toNat:ℤ) = 1) :=
      fun h => ha ⟨by omega,h.1⟩
    simp only [onIncremental, if_neg hstart]
  | NEW => rfl
  | DISCONTINUED => rfl

theorem onSnapshot_accepted (c : InstrumentController F) (r : SnapshotFullRefresh38)
    (h : c.Accepts r) :
    c.onSnapshot r = ({c with state_ := .SYNC, processed_rptseq_ := r.rptSeq.toNat
                              mdhandler_ := c.mdhandler_.onSnapshot r},c.resync) := by
  obtain ⟨i,state,processed,m⟩ := c
  unfold onSnapshot resync
  rcases h with rfl | ⟨rfl | rfl,hnew⟩
  · simp only [switchState, reduceCtorEq, if_false]
  · simp only [if_pos hnew, switchState, reduceCtorEq, if_false, InstrumentMdHandler.reset]
  · simp only [if_pos hnew, if_true, InstrumentMdHandler.reset]

theorem onSnapshot_ignored (c : InstrumentController F) (r : SnapshotFullRefresh38)
    (h : ¬c.Accepts r) : c.onSnapshot r = (c,[]) := by
  obtain ⟨i,state,processed,m⟩ := c
  unfold Accepts at h
  cases state with
  | INITIAL => simp at h
  | OUTOFSYNC =>
    have hold : ¬processed < r.rptSeq.toNat := fun hn => h (Or.inr ⟨Or.inl rfl,hn⟩)
    simp only [onSnapshot, if_neg hold]
  | SYNC =>
    have hold : ¬processed < r.rptSeq.toNat := fun hn => h (Or.inr ⟨Or.inr rfl,hn⟩)
    simp only [onSnapshot, if_neg hold]
  | NEW => rfl
  | DISCONTINUED => rfl

/-- What one delivery can do, and when. -/
theorem deliver_cases (c : InstrumentController F) (d : Delivery) :
    (∃ e, d = .incremental e ∧ c.Applies e ∧
      c.deliver d = ({c with state_ := .SYNC, processed_rptseq_ := e.rptSeq.toNat
                             mdhandler_ := c.mdhandler_.onIncremental e},c.resync)) ∨
    (∃ e, d = .incremental e ∧ c.OpensGap e ∧
      c.deliver d = ({c with state_ := .OUTOFSYNC},
        [.SubscribeToSnapshotsForInstrument c.instrument_.key])) ∨
    (∃ e, d = .incremental e ∧ ¬c.Applies e ∧ ¬c.OpensGap e ∧ c.deliver d = (c,[])) ∨
    (∃ r, d = .snapshot r ∧ c.Accepts r ∧
      c.deliver d = ({c with state_ := .SYNC, processed_rptseq_ := r.rptSeq.toNat
                             mdhandler_ := c.mdhandler_.onSnapshot r},c.resync)) ∨
    (∃ r, d = .snapshot r ∧ ¬c.Accepts r ∧ c.deliver d = (c,[])) ∨
    (d = .commit ∧ c.deliver d = c.commit) := by
  cases d with
  | incremental e =>
    by_cases ha : c.Applies e
    · exact Or.inl ⟨e,rfl,ha,c.onIncremental_applied e ha⟩
    by_cases hg : c.OpensGap e
    · exact Or.inr (Or.inl ⟨e,rfl,hg,c.onIncremental_gap e hg⟩)
    · exact Or.inr (Or.inr (Or.inl ⟨e,rfl,ha,hg,c.onIncremental_ignored e ha hg⟩))
  | snapshot r =>
    by_cases hr : c.Accepts r
    · exact Or.inr (Or.inr (Or.inr (Or.inl ⟨r,rfl,hr,c.onSnapshot_accepted r hr⟩)))
    · exact Or.inr (Or.inr (Or.inr (Or.inr (Or.inl ⟨r,rfl,hr,c.onSnapshot_ignored r hr⟩))))
  | commit => exact Or.inr (Or.inr (Or.inr (Or.inr (Or.inr ⟨rfl,rfl⟩))))

theorem resync_silent (c : InstrumentController F) : notified c.resync = [] := by
  unfold resync
  split_ifs <;> rfl

theorem deliver_silent (c : InstrumentController F) (d : Delivery) (hd : d ≠ .commit) :
    notified (c.deliver d).2 = [] := by
  rcases c.deliver_cases d with ⟨e,-,-,he⟩ | ⟨e,-,-,he⟩ | ⟨e,-,-,-,he⟩ | ⟨r,-,-,he⟩ |
    ⟨r,-,-,he⟩ | ⟨hcommit,-⟩
  · rw [he]
    exact c.resync_silent
  · rw [he]
    rfl
  · rw [he]
    rfl
  · rw [he]
    exact c.resync_silent
  · rw [he]
    rfl
  · exact absurd hcommit hd

theorem commit_notified (c : InstrumentController F) :
    notified c.commit.2 = if c.mdhandler_.statechange_ then
      [(c.mdhandler_.instrument_.id,c.mdhandler_.books.main),
        (c.mdhandler_.instrument_.id,c.mdhandler_.books.impl)] else [] := by
  unfold commit InstrumentMdHandler.commit
  split_ifs <;> rfl

theorem deliver_notified (c : InstrumentController F) (d : Delivery) :
    notified (c.deliver d).2 = [] ∨
      notified (c.deliver d).2 =
        [(c.mdhandler_.instrument_.id,(c.deliver d).1.mdhandler_.books.main),
          (c.mdhandler_.instrument_.id,(c.deliver d).1.mdhandler_.books.impl)] := by
  by_cases hd : d = .commit
  · subst hd
    have hbooks : (c.deliver .commit).1.mdhandler_.books = c.mdhandler_.books :=
      InstrumentMdHandler.commit_books _
    rw [hbooks, show (c.deliver .commit).2 = c.commit.2 from rfl, commit_notified]
    cases c.mdhandler_.statechange_
    · exact Or.inl rfl
    · exact Or.inr rfl
  · exact Or.inl (c.deliver_silent d hd)

end InstrumentController

def sampleInstrument : Instrument :=
  {securityid := 7, symbol := "ESH8", marketdepth := 10, implmarketdepth := 2}

def newBid (securityID : Int32) (rptSeq : UInt32) (price : ℤ) :
    MDIncrementalRefreshBook32.NoMDEntries where
  securityID := securityID
  rptSeq := rptSeq
  mDEntryPx := ⟨price,0⟩
  mDEntrySize := 1
  mDPriceLevel := 1
  mDUpdateAction := .New
  mDEntryType := .Bid

def sampleSnapshot (rptSeq : UInt32) : SnapshotFullRefresh38 where
  securityID := 7
  rptSeq := rptSeq
  noMDEntries := [⟨⟨101,0⟩,1,1,.Bid⟩,⟨⟨3,0⟩,40,0,.OpenInterest⟩]

end CmeFeed
