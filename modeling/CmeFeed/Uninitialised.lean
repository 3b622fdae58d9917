import CmeFeed.Recovery

/-!
# Members the constructors leave uninitialised

Two controllers of one instrument that differ in what their memory held behave
alike but for two readers of it: the rule that starts a session with an entry
reads the stored number, and a commit that comes before anything has set the
books reads the pending-change flag.
-/

set_option autoImplicit false

namespace CmeFeed

open Reactive

variable {F : Floats}

def StartsWithEntry : List Delivery → Prop
  | [] => False
  | .incremental e::ds => e.rptSeq.toNat = 1 ∨ StartsWithEntry ds
  | .snapshot _::_ => False
  | .commit::ds => StartsWithEntry ds

namespace InstrumentController

def sessionStarts (c : InstrumentController F) : Delivery → List Entry
  | .incremental e => if c.state_ = .INITIAL ∧ c.Applies e then [e] else []
  | _ => []

/-- The start-of-session rule fires. -/
def Fires (c : InstrumentController F) (ds : List Delivery) : Prop :=
  observe deliver sessionStarts c ds ≠ []

/-- A commit comes before anything that sets the books. -/
def CommitsFirst (c : InstrumentController F) : List Delivery → Prop
  | [] => False
  | d::ds => d = .commit ∨ c.bookSources d = [] ∧ CommitsFirst (c.deliver d).1 ds

theorem deliver_initial (c : InstrumentController F) (d : Delivery) :
    (c.deliver d).1.state_ ≠ .INITIAL ∨ (c.deliver d).1.state_ = c.state_ ∧
      (c.deliver d).1.processed_rptseq_ = c.processed_rptseq_ := by
  rcases c.deliver_cases d with ⟨e,-,-,he⟩ | ⟨e,-,-,he⟩ | ⟨e,-,-,-,he⟩ | ⟨r,-,-,he⟩ |
    ⟨r,-,-,he⟩ | ⟨-,he⟩ <;> rw [he]
  · exact Or.inl nofun
  · exact Or.inl nofun
  · exact Or.inr ⟨rfl,rfl⟩
  · exact Or.inl nofun
  · exact Or.inr ⟨rfl,rfl⟩
  · exact Or.inr ⟨rfl,rfl⟩

theorem fires_started {c : InstrumentController F} (h : c.state_ ≠ .INITIAL)
    (ds : List Delivery) : observe deliver sessionStarts c ds = [] := by
  induction ds generalizing c with
  | nil => rfl
  | cons d ds ih =>
    have hnext : (c.deliver d).1.state_ ≠ .INITIAL := by
      rcases c.deliver_initial d with hleft | ⟨hsame,-⟩
      · exact hleft
      · rw [hsame]
        exact h
    have hnone : c.sessionStarts d = [] := by
      cases d with
      | incremental e => exact if_neg fun hfires => h hfires.1
      | snapshot r => rfl
      | commit => rfl
    rw [observe, hnone, ih hnext]
    rfl

theorem fires_iff {c : InstrumentController F} (h : c.state_ = .INITIAL) (ds : List Delivery) :
    c.Fires ds ↔ c.processed_rptseq_ = 0 ∧ StartsWithEntry ds := by
  induction ds generalizing c with
  | nil => exact iff_of_false (fun hfires => hfires rfl) fun hstarts => hstarts.2
  | cons d ds ih =>
    cases d with
    | incremental e =>
      by_cases ha : c.Applies e
      · have hzero : c.processed_rptseq_ = 0 := by
          rcases ha.2 with hs | hs | hs
          · exact absurd (h.symm.trans hs) (by decide)
          · exact absurd (h.symm.trans hs) (by decide)
          · exact hs.2
        have hone : e.rptSeq.toNat = 1 := by
          have := ha.1
          omega
        refine iff_of_true ?_ ⟨hzero,Or.inl hone⟩
        rw [Fires, observe, sessionStarts, if_pos ⟨h,ha⟩]
        exact List.cons_ne_nil _ _
      · have hgap : ¬c.OpensGap e := fun hg => absurd (h.symm.trans hg.1) (by decide)
        have hsame : c.deliver (.incremental e) = (c,[]) := c.onIncremental_ignored e ha hgap
        have hnot : ¬(c.processed_rptseq_ = 0 ∧ e.rptSeq.toNat = 1) :=
          fun hstart => ha ⟨by omega,Or.inr (Or.inr ⟨h,hstart.1⟩)⟩
        rw [Fires, observe, sessionStarts, if_neg fun hfires => ha hfires.2, hsame]
        refine (ih h).trans (and_congr_right fun hzero => ?_)
        exact (or_iff_right fun hone => hnot ⟨hzero,hone⟩).symm
    | snapshot r =>
      have haccepted : c.deliver (.snapshot r) = _ := c.onSnapshot_accepted r (Or.inl h)
      have hstarted : (c.deliver (.snapshot r)).1.state_ ≠ .INITIAL := by
        rw [haccepted]
        exact InstrumentState.noConfusion
      have hnone : c.sessionStarts (.snapshot r) = [] := rfl
      refine iff_of_false ?_ fun hstarts => hstarts.2
      rw [Fires, observe, hnone, fires_started hstarted]
      exact fun hne => hne rfl
    | commit => exact ih (c := c.commit.1) h

theorem foldl_act_congr (i : Instrument) {v w : BookView F} (h : v.books = w.books)
    (sources : List BookSource) :
    (sources.foldl (BookView.act i) v).books = (sources.foldl (BookView.act i) w).books ∧
      (sources ≠ [] → sources.foldl (BookView.act i) v = sources.foldl (BookView.act i) w) := by
  cases sources with
  | nil => exact ⟨h,fun hne => absurd rfl hne⟩
  | cons x sources =>
    have hact : v.act i x = w.act i x := by
      cases x with
      | entry e => rw [BookView.act, BookView.act, h]
      | snapshot r => rfl
    rw [List.foldl_cons, List.foldl_cons, hact]
    exact ⟨rfl,fun _ => rfl⟩

/-- Two controllers of one instrument that differ in nothing but the number they
store before they start and the pending-change flag. -/
structure Twins (i : Instrument) (c c' : InstrumentController F) : Prop where
  sound : c.Sound i
  sound' : c'.Sound i
  state : c'.state_ = c.state_
  books : c'.mdhandler_.books = c.mdhandler_.books
  processed : c.state_ ≠ .INITIAL → c'.processed_rptseq_ = c.processed_rptseq_

def StartsAlike (c c' : InstrumentController F) (ds : List Delivery) : Prop :=
  c.state_ = .INITIAL →
    (c.processed_rptseq_ = 0 ↔ c'.processed_rptseq_ = 0) ∨ ¬StartsWithEntry ds

section

variable {i : Instrument} {c c' : InstrumentController F}

theorem Twins.applies (h : Twins i c c') {e : Entry} {ds : List Delivery}
    (hstart : StartsAlike c c' (.incremental e::ds)) : c'.Applies e ↔ c.Applies e := by
  unfold Applies
  rw [h.state]
  by_cases hs : c.state_ = .INITIAL
  · have hnumbers := hstart hs
    rw [StartsWithEntry] at hnumbers
    simp only [hs, reduceCtorEq, false_or, true_and]
    omega
  · rw [h.processed hs]

theorem Twins.opensGap (h : Twins i c c') (e : Entry) : c'.OpensGap e ↔ c.OpensGap e := by
  unfold OpensGap
  rw [h.state]
  refine and_congr_right fun hs => ?_
  rw [h.processed (by rw [hs]; nofun)]

theorem Twins.accepts (h : Twins i c c') (r : SnapshotFullRefresh38) :
    c'.Accepts r ↔ c.Accepts r := by
  unfold Accepts
  rw [h.state]
  by_cases hs : c.state_ = .INITIAL
  · simp [hs]
  · rw [h.processed hs]

theorem Twins.bookSources (h : Twins i c c') {d : Delivery} {ds : List Delivery}
    (hstart : StartsAlike c c' (d::ds)) : c'.bookSources d = c.bookSources d := by
  cases d with
  | incremental e =>
    cases e with
    | book32 b => exact if_congr (h.applies hstart) rfl rfl
    | _ => rfl
  | snapshot r => exact if_congr (h.accepts r) rfl rfl
  | commit => rfl

/-- Both take the same step. -/
theorem Twins.moves (h : Twins i c c') {d : Delivery} {ds : List Delivery}
    (hstart : StartsAlike c c' (d::ds)) :
    (c'.deliver d).1.state_ = (c.deliver d).1.state_ ∧
      ((c.deliver d).1.state_ ≠ .INITIAL →
        (c'.deliver d).1.processed_rptseq_ = (c.deliver d).1.processed_rptseq_) := by
  rcases c.deliver_cases d with ⟨e,rfl,ha,he⟩ | ⟨e,rfl,hg,he⟩ | ⟨e,rfl,ha,hg,he⟩ |
    ⟨r,rfl,hr,he⟩ | ⟨r,rfl,hr,he⟩ | ⟨rfl,he⟩
  · have he' : c'.deliver (.incremental e) = _ :=
      c'.onIncremental_applied e ((h.applies hstart).mpr ha)
    rw [he, he']
    exact ⟨rfl,fun _ => rfl⟩
  · have he' : c'.deliver (.incremental e) = _ :=
      c'.onIncremental_gap e ((h.opensGap e).mpr hg)
    rw [he, he']
    exact ⟨rfl,fun _ => h.processed (by rw [hg.1]; nofun)⟩
  · have he' : c'.deliver (.incremental e) = _ :=
      c'.onIncremental_ignored e (mt (h.applies hstart).mp ha) (mt (h.opensGap e).mp hg)
    rw [he, he']
    exact ⟨h.state,h.processed⟩
  · have he' : c'.deliver (.snapshot r) = _ :=
      c'.onSnapshot_accepted r ((h.accepts r).mpr hr)
    rw [he, he']
    exact ⟨rfl,fun _ => rfl⟩
  · have he' : c'.deliver (.snapshot r) = _ :=
      c'.onSnapshot_ignored r (mt (h.accepts r).mp hr)
    rw [he, he']
    exact ⟨h.state,h.processed⟩
  · exact ⟨h.state,h.processed⟩

theorem StartsAlike.next {d : Delivery} {ds : List Delivery} (h : Twins i c c')
    (hstart : StartsAlike c c' (d::ds)) : StartsAlike (c.deliver d).1 (c'.deliver d).1 ds := by
  intro hs
  have hs' : (c'.deliver d).1.state_ = .INITIAL := (h.moves hstart).1.trans hs
  obtain ⟨hstate,hnumber⟩ := (c.deliver_initial d).resolve_left fun hne => hne hs
  obtain ⟨-,hnumber'⟩ := (c'.deliver_initial d).resolve_left fun hne => hne hs'
  rw [hnumber, hnumber']
  refine (hstart (hstate.symm.trans hs)).imp_right fun hnot => ?_
  cases d with
  | incremental e => exact fun hds => hnot (Or.inr hds)
  | snapshot r =>
    have haccepted : c.deliver (.snapshot r) = _ :=
      c.onSnapshot_accepted r (Or.inl (hstate.symm.trans hs))
    rw [haccepted] at hs
    exact absurd hs nofun
  | commit => exact hnot

theorem Twins.bookView (h : Twins i c c') {d : Delivery} {ds : List Delivery}
    (hstart : StartsAlike c c' (d::ds)) (hd : d ≠ .commit) :
    (c'.deliver d).1.mdhandler_.books = (c.deliver d).1.mdhandler_.books ∧
      (c.bookSources d ≠ [] →
        (c'.deliver d).1.mdhandler_.statechange_ = (c.deliver d).1.mdhandler_.statechange_) ∧
      (c.bookSources d = [] →
        (c.deliver d).1.mdhandler_.statechange_ = c.mdhandler_.statechange_ ∧
        (c'.deliver d).1.mdhandler_.statechange_ = c'.mdhandler_.statechange_) := by
  have hview := deliver_bookView c d hd h.sound
  have hview' := deliver_bookView c' d hd h.sound'
  rw [h.bookSources hstart] at hview'
  obtain ⟨hbooks,hflag⟩ := foldl_act_congr i
    (show c'.bookView.books = c.bookView.books from h.books) (c.bookSources d)
  rw [← hview, ← hview'] at hbooks hflag
  constructor
  · exact hbooks
  constructor
  · exact fun hne => congrArg BookView.pending (hflag hne)
  · intro hnil
    rw [hnil] at hview hview'
    exact ⟨congrArg BookView.pending hview,congrArg BookView.pending hview'⟩

theorem twins_deliver (h : Twins i c c') {d : Delivery} {ds : List Delivery}
    (hstart : StartsAlike c c' (d::ds)) : Twins i (c.deliver d).1 (c'.deliver d).1 := by
  obtain ⟨hstate,hnumber⟩ := h.moves hstart
  have hbooks : (c'.deliver d).1.mdhandler_.books = (c.deliver d).1.mdhandler_.books := by
    by_cases hd : d = .commit
    · subst hd
      exact (InstrumentMdHandler.commit_books _).trans
        (h.books.trans (InstrumentMdHandler.commit_books _).symm)
    · exact (h.bookView hstart hd).1
  exact ⟨deliver_sound c d h.sound,deliver_sound c' d h.sound',hstate,hbooks,hnumber⟩

theorem twins_commit (h : Twins i c c') {xs : List (UInt64 × DepthBook F.Float)} :
    notified c.commit.2++xs = notified c'.commit.2++xs ↔
      c.mdhandler_.statechange_ = c'.mdhandler_.statechange_ := by
  rw [List.append_cancel_right_eq, commit_notified, commit_notified, h.books, h.sound.handler,
    h.sound'.handler]
  cases c.mdhandler_.statechange_ <;> cases c'.mdhandler_.statechange_ <;> simp

theorem twins_run (h : Twins i c c') (ds : List Delivery) (hstart : StartsAlike c c' ds) :
    Twins i (run deliver c ds).1 (run deliver c' ds).1 ∧
      (notified (run deliver c ds).2 = notified (run deliver c' ds).2 ↔
        c.mdhandler_.statechange_ = c'.mdhandler_.statechange_ ∨ ¬c.CommitsFirst ds) := by
  induction ds generalizing c c' with
  | nil => exact ⟨h,iff_of_true rfl (Or.inr id)⟩
  | cons d ds ih =>
    obtain ⟨hend,hbooks⟩ := ih (twins_deliver h hstart) (hstart.next h)
    refine ⟨hend,?_⟩
    rw [run_cons, run_cons, notified_append, notified_append, CommitsFirst]
    by_cases hd : d = .commit
    · subst hd
      -- after the commit both flags are down, so the rest agrees
      have hdown : (c.deliver .commit).1.mdhandler_.statechange_ =
          (c'.deliver .commit).1.mdhandler_.statechange_ :=
        (InstrumentMdHandler.commit_statechange _).trans
          (InstrumentMdHandler.commit_statechange _).symm
      rw [hbooks.mpr (Or.inl hdown)]
      refine (twins_commit h).trans ?_
      simp
    · obtain ⟨-,hset,hkept⟩ := h.bookView hstart hd
      rw [deliver_silent c d hd, deliver_silent c' d hd, List.nil_append, List.nil_append, hbooks]
      by_cases hsources : c.bookSources d = []
      · obtain ⟨hflag,hflag'⟩ := hkept hsources
        rw [hflag, hflag']
        simp [hd, hsources]
      · rw [hset hsources]
        simp [hd, hsources]

end

/-- Two controllers constructed over memories that differ end a run in the same
state with the same books, have told listeners the same and have or have not
started the session with an entry, exactly if no session starts with an entry
or the stored numbers are both zero or both not, and the flags are equal or
overwritten before a commit tests them. -/
theorem uninitialised_unread (i : Instrument) (m m' : Indeterminate) (ds : List Delivery) :
    let c : InstrumentController F := (construct i m).1
    let c' : InstrumentController F := (construct i m').1
    let r := run deliver c ds
    let r' := run deliver c' ds
    (r.1.state_ = r'.1.state_ ∧ r.1.mdhandler_.books = r'.1.mdhandler_.books ∧
      notified r.2 = notified r'.2 ∧ (c.Fires ds ↔ c'.Fires ds)) ↔
      ((m.processed_rptseq_ = 0 ↔ m'.processed_rptseq_ = 0) ∨ ¬StartsWithEntry ds) ∧
        (m.statechange_ = m'.statechange_ ∨ ¬c.CommitsFirst ds) := by
  intro c c' r r'
  have htwins : Twins i c c' :=
    ⟨construct_sound i m,construct_sound i m',rfl,rfl,fun hs => absurd rfl hs⟩
  have hfires : (c.Fires ds ↔ c'.Fires ds) ↔
      (m.processed_rptseq_ = 0 ↔ m'.processed_rptseq_ = 0) ∨ ¬StartsWithEntry ds := by
    rw [fires_iff rfl, fires_iff rfl]
    change (m.processed_rptseq_ = 0 ∧ _ ↔ m'.processed_rptseq_ = 0 ∧ _) ↔ _
    by_cases hds : StartsWithEntry ds <;> simp [hds]
  constructor
  · rintro ⟨-,-,hbooks,hrule⟩
    have hstart := hfires.mp hrule
    exact ⟨hstart,(twins_run htwins ds fun _ => hstart).2.mp hbooks⟩
  · rintro ⟨hstart,hflag⟩
    obtain ⟨hend,hbooks⟩ := twins_run htwins ds fun _ => hstart
    exact ⟨hend.state.symm,hend.books.symm,hbooks.mpr hflag,hfires.mpr hstart⟩

/-- The first entry of a session starts one of two controllers and not the other. -/
theorem uninitialised_unread_start :
    let first : List Delivery := [.incremental (.book32 (newBid 7 1 100))]
    let r := run deliver (construct sampleInstrument ⟨0,false⟩ : InstrumentController .exact × _).1
      first
    let r' := run deliver (construct sampleInstrument ⟨5,false⟩ : InstrumentController .exact × _).1
      first
    r.1.state_ = .SYNC ∧ r'.1.state_ = .INITIAL := by
  decide

end InstrumentController

end CmeFeed
