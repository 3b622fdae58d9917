import CmeFeed.Publication

/-!
# What recovery tells listeners

The books and the pending-change flag of a controller are a view on which only
accepted snapshots and accepted book entries act. The view says what listeners
hold after the commit that follows a recovery.
-/

set_option autoImplicit false

namespace CmeFeed

open Reactive

variable {F : Floats}

def snapshotBooks (F : Floats) (i : Instrument) (r : SnapshotFullRefresh38) : Books F :=
  ((InstrumentMdHandler.construct i false : InstrumentMdHandler F).onSnapshot r).books

/-- Each ladder has the levels that the entries of the snapshot for it, added
one after the other, put on an empty ladder. -/
def Books.WrittenOut (i : Instrument) (r : SnapshotFullRefresh38) (b : Books F) : Prop :=
  ∀ x, b.ladder x = (r.ladder x).foldl addEntry ⟨i.depth x,[]⟩

theorem onSnapshot_writtenOut (h : InstrumentMdHandler F) (r : SnapshotFullRefresh38)
    {i : Instrument} (hf : h.books.Fits i) : (h.onSnapshot r).books.WrittenOut i r := by
  intro x
  rw [InstrumentMdHandler.onSnapshot_ladder, DepthList.clear, (hf x).1]

theorem Books.WrittenOut.unique {i : Instrument} {r : SnapshotFullRefresh38} {a b : Books F}
    (ha : a.WrittenOut i r) (hb : b.WrittenOut i r) : a = b := by
  ext x
  rw [ha x, hb x]

theorem snapshotBooks_writtenOut (i : Instrument) (r : SnapshotFullRefresh38) :
    (snapshotBooks F i r).WrittenOut i r := onSnapshot_writtenOut _ r (Books.empty_fits i)

theorem onSnapshot_snapshotBooks (h : InstrumentMdHandler F) (r : SnapshotFullRefresh38)
    {i : Instrument} (hf : h.books.Fits i) : (h.onSnapshot r).books = snapshotBooks F i r :=
  (onSnapshot_writtenOut h r hf).unique (snapshotBooks_writtenOut i r)

inductive BookSource where
  | entry (e : MDIncrementalRefreshBook32.NoMDEntries)
  | snapshot (r : SnapshotFullRefresh38)

structure BookView (F : Floats) where
  books : Books F
  pending : Bool

def BookView.act (i : Instrument) (v : BookView F) : BookSource → BookView F
  | .entry e => ⟨v.books.onIncremental (.book32 e),!decide e.Resets⟩
  | .snapshot r => ⟨snapshotBooks F i r,false⟩

namespace InstrumentController

def bookSources (c : InstrumentController F) : Delivery → List BookSource
  | .incremental (.book32 e) => if c.Applies (.book32 e) then [.entry e] else []
  | .snapshot r => if c.Accepts r then [.snapshot r] else []
  | _ => []

def bookView (c : InstrumentController F) : BookView F :=
  ⟨c.mdhandler_.books,c.mdhandler_.statechange_⟩

theorem bookSources_unapplied (c : InstrumentController F) (e : Entry) (h : ¬c.Applies e) :
    c.bookSources (.incremental e) = [] := by
  cases e with
  | book32 b => exact if_neg h
  | _ => rfl

theorem bookSources_other (c : InstrumentController F) (e : Entry) (h : ∀ b, e ≠ .book32 b) :
    c.bookSources (.incremental e) = [] := by
  cases e with
  | book32 b => exact absurd rfl (h b)
  | _ => rfl

theorem deliver_bookView {i : Instrument} (c : InstrumentController F) (d : Delivery)
    (hd : d ≠ .commit) (hc : c.Sound i) :
    (c.deliver d).1.bookView = (c.bookSources d).foldl (BookView.act i) c.bookView := by
  rcases c.deliver_cases d with ⟨e,rfl,ha,he⟩ | ⟨e,rfl,hg,he⟩ | ⟨e,rfl,ha,-,he⟩ | ⟨r,rfl,hr,he⟩ |
    ⟨r,rfl,hr,he⟩ | ⟨rfl,-⟩
  · rw [he]
    by_cases hb : ∃ b, e = .book32 b
    · obtain ⟨b,rfl⟩ := hb
      rw [bookSources, if_pos ha, List.foldl_cons, List.foldl_nil, BookView.act, bookView,
        InstrumentMdHandler.onIncremental_books]
      exact congrArg (BookView.mk _) (c.mdhandler_.onIncrementalBook_statechange b)
    · have hne : ∀ b, e ≠ .book32 b := fun b heq => hb ⟨b,heq⟩
      obtain ⟨hbooks,hflag⟩ := c.mdhandler_.onIncremental_other_books e hne
      rw [bookSources_other c e hne, List.foldl_nil, bookView, bookView, hbooks, hflag]
  · have ha : ¬c.Applies e := fun ha => by
      have := ha.1
      have := hg.2
      omega
    rw [he, bookSources_unapplied c e ha]
    rfl
  · rw [he, bookSources_unapplied c e ha]
    rfl
  · rw [he, bookSources, if_pos hr]
    simp only [List.foldl_cons, List.foldl_nil, BookView.act, bookView,
      onSnapshot_snapshotBooks c.mdhandler_ r hc.fits, InstrumentMdHandler.onSnapshot_statechange]
  · rw [he, bookSources, if_neg hr]
    rfl
  · exact absurd rfl hd

theorem run_bookView {i : Instrument} (c : InstrumentController F) (hc : c.Sound i)
    (ds : List Delivery) (hds : ∀ d ∈ ds, d ≠ .commit) :
    (run deliver c ds).1.bookView =
      (observe deliver bookSources c ds).foldl (BookView.act i) c.bookView :=
  run_view deliver bookView (BookView.act i) bookSources (Sound i) (· ≠ .commit)
    (fun c d _ h => deliver_sound c d h) (fun c d hd h => deliver_bookView c d hd h) c ds hds hc

def rebuilt (F : Floats) (i : Instrument) (r : SnapshotFullRefresh38)
    (sources : List BookSource) : BookView F :=
  sources.foldl (BookView.act i) ⟨snapshotBooks F i r,false⟩

theorem run_rebuilt {i : Instrument} (c : InstrumentController F) (hc : c.Sound i)
    (r : SnapshotFullRefresh38) (hr : c.Accepts r) (ds : List Delivery)
    (hds : ∀ d ∈ ds, d ≠ .commit) :
    (run deliver (c.deliver (.snapshot r)).1 ds).1.bookView =
      rebuilt F i r (observe deliver bookSources (c.deliver (.snapshot r)).1 ds) := by
  have hsnapshot := deliver_bookView c (.snapshot r) nofun hc
  rw [bookSources, if_pos hr] at hsnapshot
  rw [run_bookView _ (deliver_sound c _ hc) ds hds, hsnapshot]
  rfl

/-- Listeners hold the rebuilt books after the next commit: the last source is
an entry other than a reset, or they held just these books before. -/
def Heard (i : Instrument) (r : SnapshotFullRefresh38) (held : Option (Books F))
    (sources : List BookSource) : Prop :=
  match sources.getLast?.getD (.snapshot r) with
  | .entry e => e.Resets → held = some (.empty F i)
  | .snapshot r' => ∃ b, held = some b ∧ b.WrittenOut i r'

theorem snapshotBooks_fits (i : Instrument) (r : SnapshotFullRefresh38) :
    (snapshotBooks F i r).Fits i :=
  InstrumentMdHandler.onSnapshot_fits _ r (Books.empty_fits i)

theorem rebuilt_fits (i : Instrument) (r : SnapshotFullRefresh38) (sources : List BookSource) :
    (rebuilt F i r sources).books.Fits i := by
  have hact : ∀ (v : BookView F), v.books.Fits i →
      (sources.foldl (BookView.act i) v).books.Fits i := by
    induction sources with
    | nil => exact fun _ hv => hv
    | cons x xs ih =>
      intro v hv
      refine ih _ ?_
      cases x with
      | entry e => exact Books.onIncremental_fits hv _
      | snapshot r' => exact snapshotBooks_fits i r'
  exact hact _ (snapshotBooks_fits i r)

theorem onIncremental_reset {b : Books F} {i : Instrument} (hb : b.Fits i)
    {e : MDIncrementalRefreshBook32.NoMDEntries} (he : e.Resets) :
    b.onIncremental (.book32 e) = .empty F i := by
  rw [← Books.clear_fits hb]
  ext x
  have hother : ¬e.mDEntryType = x.bookType := by
    rw [show e.mDEntryType = .BookReset from he]
    cases x <;> nofun
  have hop : (Entry.book32 e).ladderOp F x = some .clear := (if_neg hother).trans (if_pos he)
  rw [Books.onIncremental_ladder, hop, Books.clear_ladder]
  rfl

theorem writtenOut_held (i : Instrument) (r : SnapshotFullRefresh38) (held : Option (Books F)) :
    held = some (snapshotBooks F i r) ↔ ∃ b, held = some b ∧ b.WrittenOut i r := by
  constructor
  · intro h
    exact ⟨_,h,snapshotBooks_writtenOut i r⟩
  · rintro ⟨b,hb,hwritten⟩
    rw [hb, hwritten.unique (snapshotBooks_writtenOut i r)]

theorem heard_iff (i : Instrument) (r : SnapshotFullRefresh38) (held : Option (Books F))
    (sources : List BookSource) :
    (if (rebuilt F i r sources).pending then some (rebuilt F i r sources).books else held) =
      some (rebuilt F i r sources).books ↔ Heard i r held sources := by
  rcases List.eq_nil_or_concat sources with rfl | ⟨init,x,rfl⟩
  · exact writtenOut_held i r held
  · rw [List.concat_eq_append]
    have hlast : (init++[x]).getLast?.getD (.snapshot r) = x := by simp
    have hview : rebuilt F i r (init++[x]) = (rebuilt F i r init).act i x := by
      unfold rebuilt
      rw [List.foldl_append]
      rfl
    rw [hview, Heard, hlast]
    cases x with
    | snapshot r' => exact writtenOut_held i r' held
    | entry e =>
      by_cases he : e.Resets
      · simp only [BookView.act, he, decide_true, Bool.not_true, Bool.false_eq_true, if_false,
          onIncremental_reset (rebuilt_fits i r init) he, forall_const]
      · simp [BookView.act, he]

/-- After an accepted snapshot the handler holds the books of the snapshot with
the entries accepted since, and the next commit of the channel makes listeners
hold them exactly if they are `Heard`. -/
theorem recovery_heard (i : Instrument) (m : Indeterminate) (history between : List Delivery)
    (r : SnapshotFullRefresh38) (cc : ChannelController F) (sent : List (Effect F)) :
    let c := (run deliver (construct i m : InstrumentController F × _).1 history).1
    let c₁ := (c.deliver (.snapshot r)).1
    let c₂ := (run deliver c₁ between).1
    let sources := observe deliver bookSources c₁ between
    c.Accepts r → (∀ d ∈ between, d ≠ .commit) → cc.getInstrumentController i.key = some c₂ →
      c₂.mdhandler_.books = (rebuilt F i r sources).books ∧
      (lastBooks (notifiedOf i.key (sent++cc.commit.2)) = some (rebuilt F i r sources).books ↔
        Heard i r (lastBooks (notifiedOf i.key sent)) sources) := by
  intro c c₁ c₂ sources hr hbetween hcc
  have hview : c₂.bookView = rebuilt F i r sources :=
    run_rebuilt c (run_sound m history) r hr between hbetween
  have hcommit : notifiedOf i.key cc.commit.2 = notifiedOf i.key c₂.commit.2 := by
    have hproject := (cc.commit_projects i.key).2
    rw [ChannelController.soloBooks, hcc] at hproject
    dsimp only at hproject
    rw [run_singleton] at hproject
    exact hproject
  have hkeyed : c₂.Keyed i.key := cc.instrument_controllers_.keyed i.key c₂ hcc
  constructor
  · exact congrArg BookView.books hview
  · rw [notifiedOf_append, hcommit, commit_lastBooks hkeyed, ← heard_iff, ← hview]
    rfl

theorem recovery_heard_sample :
    let c : InstrumentController .exact := (construct sampleInstrument ⟨0,false⟩).1
    let cc := ((sampleChannel.handleSnapshotMessage (snapshotMessage (sampleSnapshot 5))).1.onEntry
      (sampleHistory 6)).1
    lastBooks (notifiedOf sampleInstrument.key ([]++cc.commit.2)) =
      some (rebuilt .exact sampleInstrument (sampleSnapshot 5)
        (observe deliver bookSources (c.deliver (.snapshot (sampleSnapshot 5))).1
          [.incremental (sampleHistory 6)])).books := by
  intro c cc
  have hquiet : ∀ d ∈ [Delivery.incremental (sampleHistory 6)], d ≠ .commit := by
    intro d hd
    rw [List.mem_singleton.mp hd]
    nofun
  have hheard := (recovery_heard (F := .exact) sampleInstrument ⟨0,false⟩ []
    [.incremental (sampleHistory 6)] (sampleSnapshot 5) cc [] (Or.inl rfl) hquiet rfl).2
  refine hheard.mpr ?_
  change (newBid 7 6 106).Resets → _
  exact fun hreset => absurd hreset (by decide)

/-- A first snapshot is accepted and rebuilds a bid, and the next commit
publishes nothing. -/
theorem recovered_bid_unpublished :
    let c : InstrumentController .exact := (construct sampleInstrument ⟨0,false⟩).1
    let c₁ := (c.deliver (.snapshot (sampleSnapshot 5))).1
    let r := sampleChannel.handleSnapshotMessage (snapshotMessage (sampleSnapshot 5))
    c.Accepts (sampleSnapshot 5) ∧ r.1.getInstrumentController 7 = some c₁ ∧
      c₁.mdhandler_.books.main.bids_.levels_.length = 1 ∧
      lastBooks (notifiedOf 7 (r.2++r.1.commit.2)) ≠ some c₁.mdhandler_.books := by
  intro c c₁ r
  have hsilent : lastBooks (notifiedOf 7 (r.2++r.1.commit.2)) = none := rfl
  refine ⟨Or.inl rfl,rfl,rfl, ?_⟩
  rw [hsilent]
  nofun

end InstrumentController

end CmeFeed
