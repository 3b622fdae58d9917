import CmeFeed.Reactive.Replica
import CmeFeed.Ladders
import CmeFeed.InstrumentController

/-!
# The controller as a replica of its instrument's history

From the moment it leaves `INITIAL` a controller moves as a replica of the
numbered history of its instrument: it applies the next entry, installs the
books of a later snapshot, or stays. Loss, repetition and reordering of
deliveries only choose between these moves.
-/

set_option autoImplicit false

namespace CmeFeed

open Reactive

variable (F : Floats) (i : Instrument) (hist : ℕ → Entry)

/-- The books the handler reaches from empty books by the first `k` entries. -/
def bookAt (k : ℕ) : Books F :=
  (replay InstrumentMdHandler.onIncremental (.construct i false) hist k :
    InstrumentMdHandler F).books

/-- Deliveries that tell the truth about the history. -/
def Truthful : Delivery → Prop
  | .incremental e => hist e.rptSeq.toNat = e
  | .snapshot r => r.Lists (bookAt F i hist r.rptSeq.toNat)
  | .commit => True

variable {F i hist}

theorem bookAt_replay (k : ℕ) :
    bookAt F i hist k = replay Books.onIncremental (.empty F i) hist k :=
  replay_view InstrumentMdHandler.books Books.onIncremental
    InstrumentMdHandler.onIncremental_books k

theorem bookAt_succ (k : ℕ) :
    bookAt F i hist (k+1) = (bookAt F i hist k).onIncremental (hist (k+1)) := by
  rw [bookAt_replay, bookAt_replay, replay]

theorem bookAt_fits (k : ℕ) : (bookAt F i hist k).Fits i := by
  induction k with
  | zero => exact Books.empty_fits i
  | succ k ih => exact bookAt_succ (F := F) k ▸ Books.onIncremental_fits ih _

namespace InstrumentController

/-- The controller belongs to the instrument, its ladders have the capacity of
the instrument, and they are empty until it leaves `INITIAL`. -/
structure Sound (i : Instrument) (c : InstrumentController F) : Prop where
  instrument : c.instrument_ = i
  handler : c.mdhandler_.instrument_ = i
  fits : c.mdhandler_.books.Fits i
  fresh : c.state_ = .INITIAL → c.mdhandler_.books = .empty F i
  started : c.state_ ≠ .INITIAL → 0 ≤ c.processed_rptseq_

theorem construct_sound (i : Instrument) (m : Indeterminate) :
    (construct i m : InstrumentController F × _).1.Sound i :=
  ⟨rfl,rfl,Books.empty_fits i,fun _ => rfl,fun h => absurd rfl h⟩

theorem deliver_sound (c : InstrumentController F) (d : Delivery) (hc : c.Sound i) :
    (c.deliver d).1.Sound i := by
  obtain ⟨hi,hh,hf,hfresh,hstart⟩ := hc
  rcases c.deliver_cases d with ⟨e,-,-,hd⟩ | ⟨e,-,hg,hd⟩ | ⟨e,-,-,-,hd⟩ | ⟨r,-,-,hd⟩ |
    ⟨r,-,-,hd⟩ | ⟨-,hd⟩ <;> rw [hd]
  · refine ⟨hi,?_,?_,nofun,fun _ => Int.natCast_nonneg _⟩
    · rw [InstrumentMdHandler.onIncremental_instrument, hh]
    · rw [InstrumentMdHandler.onIncremental_books]
      exact Books.onIncremental_fits hf e
  · exact ⟨hi,hh,hf,nofun,fun _ => hstart (by rw [hg.1]; nofun)⟩
  · exact ⟨hi,hh,hf,hfresh,hstart⟩
  · refine ⟨hi,?_,?_,nofun,fun _ => Int.natCast_nonneg _⟩
    · rw [InstrumentMdHandler.onSnapshot_instrument, hh]
    · exact InstrumentMdHandler.onSnapshot_fits _ r hf
  · exact ⟨hi,hh,hf,hfresh,hstart⟩
  · refine ⟨hi,(InstrumentMdHandler.commit_instrument _).trans hh,?_,?_,hstart⟩ <;>
      rw [show c.commit.1.mdhandler_.books = c.mdhandler_.books from
        InstrumentMdHandler.commit_books _]
    · exact hf
    · exact hfresh

theorem run_sound (m : Indeterminate) (ds : List Delivery) :
    (run deliver (construct i m : InstrumentController F × _).1 ds).1.Sound i :=
  run_invariant deliver (Sound i) (fun _ => True) (fun c d _ hc => deliver_sound c d hc)
    _ ds (fun _ _ => trivial) (construct_sound i m)

/-- Where a started controller is in the history, and with which books. -/
def position (c : InstrumentController F) : Replica (Books F) :=
  ⟨c.processed_rptseq_.toNat,c.mdhandler_.books⟩

/-- Refinement: a started controller makes the moves of a replica. -/
theorem deliver_follows (c : InstrumentController F) (d : Delivery) (hc : c.Sound i)
    (hs : c.state_ ≠ .INITIAL) (hd : Truthful F i hist d) :
    (c.deliver d).1.state_ ≠ .INITIAL ∧
      Replica.Step Books.onIncremental (.empty F i) hist c.position (c.deliver d).1.position := by
  have hpos := hc.started hs
  rcases c.deliver_cases d with ⟨e,rfl,ha,he⟩ | ⟨e,-,-,he⟩ | ⟨e,-,-,-,he⟩ | ⟨r,rfl,hr,he⟩ |
    ⟨r,-,-,he⟩ | ⟨-,he⟩ <;> rw [he]
  · constructor
    · nofun
    · have hnext : e.rptSeq.toNat = c.processed_rptseq_.toNat+1 := by
        have := ha.1
        omega
      have hmove : Replica.Step Books.onIncremental (.empty F i) hist c.position _ :=
        .next c.position
      simp only [position, ← hnext, show hist e.rptSeq.toNat = e from hd] at hmove
      simpa only [position, InstrumentMdHandler.onIncremental_books, Int.toNat_natCast] using hmove
  · exact ⟨nofun,.stay _⟩
  · exact ⟨hs,.stay _⟩
  · constructor
    · nofun
    · have hlater : c.processed_rptseq_.toNat ≤ r.rptSeq.toNat := by
        have := (hr.resolve_left hs).2
        omega
      have hbooks : (c.mdhandler_.onSnapshot r).books = bookAt F i hist r.rptSeq.toNat :=
        InstrumentMdHandler.onSnapshot_lists _ r _ hc.fits (bookAt_fits _) hd
      have hmove : Replica.Step Books.onIncremental (.empty F i) hist c.position _ :=
        .install c.position r.rptSeq.toNat hlater
      rw [← bookAt_replay, ← hbooks] at hmove
      exact hmove
  · exact ⟨hs,.stay _⟩
  · constructor
    · exact hs
    · rw [show c.commit.1.position = c.position by
        simp only [position, commit, InstrumentMdHandler.commit_books]]
      exact .stay _

theorem deliver_starts (c : InstrumentController F) (d : Delivery) (hc : c.Sound i)
    (hs : c.state_ = .INITIAL) (hd : Truthful F i hist d)
    (hs' : (c.deliver d).1.state_ ≠ .INITIAL) :
    (c.deliver d).1.position.Exact Books.onIncremental (.empty F i) hist := by
  unfold Replica.Exact
  rw [← bookAt_replay]
  rcases c.deliver_cases d with ⟨e,rfl,ha,he⟩ | ⟨e,-,hg,he⟩ | ⟨e,-,-,-,he⟩ | ⟨r,rfl,hr,he⟩ |
    ⟨r,-,-,he⟩ | ⟨-,he⟩ <;> rw [he] at hs' ⊢
  · have hzero : c.processed_rptseq_ = 0 := by
      rcases ha.2 with h | h | h
      · exact absurd (hs.symm.trans h) nofun
      · exact absurd (hs.symm.trans h) nofun
      · exact h.2
    have hone : e.rptSeq.toNat = 0+1 := by
      have := ha.1
      omega
    change (c.mdhandler_.onIncremental e).books = bookAt F i hist e.rptSeq.toNat
    rw [InstrumentMdHandler.onIncremental_books, hc.fresh hs]
    conv_lhs => rw [← show hist e.rptSeq.toNat = e from hd]
    rw [hone, bookAt_succ]
    rfl
  · exact absurd (hs.symm.trans hg.1) nofun
  · exact absurd hs hs'
  · exact InstrumentMdHandler.onSnapshot_lists _ r _ hc.fits (bookAt_fits _) hd
  · exact absurd hs hs'
  · exact absurd hs hs'

/-- From `INITIAL` on, a run is sound and, once started, exact. -/
theorem run_follows (m : Indeterminate) (ds : List Delivery)
    (hds : ∀ d ∈ ds, Truthful F i hist d) :
    let c := (run deliver (construct i m : InstrumentController F × _).1 ds).1
    c.Sound i ∧ (c.state_ ≠ .INITIAL →
      c.position.Exact Books.onIncremental (.empty F i) hist) := by
  refine run_invariant deliver
    (fun c => c.Sound i ∧ (c.state_ ≠ .INITIAL →
      c.position.Exact Books.onIncremental (.empty F i) hist))
    (Truthful F i hist) ?_ _ ds hds ⟨construct_sound i m,fun h => absurd rfl h⟩
  rintro c d hd ⟨hc,hexact⟩
  constructor
  · exact deliver_sound c d hc
  · intro hs'
    by_cases hs : c.state_ = .INITIAL
    · exact deliver_starts c d hc hs hd hs'
    · exact (deliver_follows c d hc hs hd).2.exact (hexact hs)

/-- Gap-free replay: once the controller has left `INITIAL`, its books are those
of the history up to `processed_rptseq_`; the next delivery, whichever it is,
does not lower that number and notifies of no other books than these. -/
theorem gap_free_replay (m : Indeterminate) (ds : List Delivery)
    (hds : ∀ d ∈ ds, Truthful F i hist d) :
    let c := (run deliver (construct i m : InstrumentController F × _).1 ds).1
    c.state_ ≠ .INITIAL →
      c.mdhandler_.books = bookAt F i hist c.processed_rptseq_.toNat ∧
      0 ≤ c.processed_rptseq_ ∧
      ∀ d, Truthful F i hist d →
        let r := c.deliver d
        let b := bookAt F i hist r.1.processed_rptseq_.toNat
        r.1.state_ ≠ .INITIAL ∧ c.processed_rptseq_ ≤ r.1.processed_rptseq_ ∧
          (notified r.2 = [] ∨ notified r.2 = [(i.id,b.main),(i.id,b.impl)]) := by
  intro c hs
  obtain ⟨hc,hexact⟩ := run_follows (F := F) m ds hds
  constructor
  · exact (hexact hs).trans (bookAt_replay _).symm
  constructor
  · exact hc.started hs
  · intro d hd
    obtain ⟨hs',hmove⟩ := deliver_follows c d hc hs hd
    have hbooks : (c.deliver d).1.mdhandler_.books =
        bookAt F i hist (c.deliver d).1.processed_rptseq_.toNat :=
      (hmove.exact (hexact hs)).trans (bookAt_replay _).symm
    have hpos : c.processed_rptseq_.toNat ≤ (c.deliver d).1.processed_rptseq_.toNat := hmove.mono
    have h0 := hc.started hs
    have h0' := (deliver_sound c d hc).started hs'
    have hnotified := deliver_notified c d
    rw [hbooks, hc.handler] at hnotified
    exact ⟨hs',by omega,hnotified⟩

end InstrumentController

def sampleHistory (k : ℕ) : Entry := .book32 (newBid 7 (UInt32.ofNat k) (100+k))

namespace InstrumentController

theorem gap_free_replay_sample :
    (run deliver (construct sampleInstrument ⟨12,false⟩ :
        InstrumentController Floats.exact × _).1
      [.incremental (sampleHistory 2),.snapshot (sampleSnapshot 1),.incremental (sampleHistory 3),
        .incremental (sampleHistory 2)]).1.mdhandler_.books =
      bookAt .exact sampleInstrument sampleHistory 2 := by
  have htrue : ∀ d ∈ [Delivery.incremental (sampleHistory 2),.snapshot (sampleSnapshot 1),
      .incremental (sampleHistory 3),.incremental (sampleHistory 2)],
      Truthful .exact sampleInstrument sampleHistory d := by
    intro d hd
    simp only [List.mem_cons, List.not_mem_nil, or_false] at hd
    rcases hd with rfl | rfl | rfl | rfl
    · rfl
    · intro x
      cases x <;> exact ⟨rfl,rfl⟩
    · rfl
    · rfl
  exact (gap_free_replay ⟨12,false⟩ _ htrue (by decide)).1

def Reached (n : ℕ) (c : InstrumentController F) : Prop :=
  c.state_ ≠ .INITIAL ∧ (n:ℤ) ≤ c.processed_rptseq_

theorem deliver_reached (n : ℕ) (c : InstrumentController F) (d : Delivery) (h : Reached n c) :
    Reached n (c.deliver d).1 := by
  obtain ⟨hs,hn⟩ := h
  rcases c.deliver_cases d with ⟨e,-,ha,he⟩ | ⟨e,-,-,he⟩ | ⟨e,-,-,-,he⟩ | ⟨r,-,hr,he⟩ |
    ⟨r,-,-,he⟩ | ⟨-,he⟩ <;> rw [he]
  · constructor
    · nofun
    · have := ha.1
      dsimp only
      omega
  · exact ⟨nofun,hn⟩
  · exact ⟨hs,hn⟩
  · constructor
    · nofun
    · have := (hr.resolve_left hs).2
      dsimp only
      omega
  · exact ⟨hs,hn⟩
  · exact ⟨hs,hn⟩

theorem run_reached (n : ℕ) (c : InstrumentController F) (ds : List Delivery) (h : Reached n c) :
    Reached n (run deliver c ds).1 :=
  run_invariant deliver (Reached n) (fun _ => True) (fun c d _ hc => deliver_reached n c d hc)
    c ds (fun _ _ => trivial) h

theorem onIncremental_reached (c : InstrumentController F) (e : Entry)
    (h : (c.onIncremental e).1.state_ = .SYNC) :
    Reached e.rptSeq.toNat (c.onIncremental e).1 := by
  by_cases ha : c.Applies e
  · rw [onIncremental_applied c e ha]
    exact ⟨nofun,Int.le_refl _⟩
  by_cases hg : c.OpensGap e
  · rw [onIncremental_gap c e hg] at h
    exact absurd h nofun
  rw [onIncremental_ignored c e ha hg] at h ⊢
  constructor
  · rw [h]
    nofun
  · have hnext : (e.rptSeq.toNat:ℤ) ≠ c.processed_rptseq_+1 :=
      fun heq => ha ⟨heq,Or.inl h⟩
    have hbehind : ¬c.processed_rptseq_+1 < (e.rptSeq.toNat:ℤ) := fun hlt => hg ⟨h,hlt⟩
    dsimp only
    omega

theorem deliver_syncs (c : InstrumentController F) (d : Delivery) (hs : c.state_ ≠ .SYNC)
    (hs' : (c.deliver d).1.state_ = .SYNC) : Reached d.number (c.deliver d).1 := by
  rcases c.deliver_cases d with ⟨e,rfl,-,he⟩ | ⟨e,-,-,he⟩ | ⟨e,-,-,-,he⟩ | ⟨r,rfl,-,he⟩ |
    ⟨r,-,-,he⟩ | ⟨-,he⟩ <;> rw [he] at hs' ⊢
  · exact ⟨nofun,Int.le_refl _⟩
  · exact absurd hs' nofun
  · exact absurd hs' hs
  · exact ⟨nofun,Int.le_refl _⟩
  · exact absurd hs' hs
  · exact absurd hs' hs

/-- The delivery `d` behind `pre` takes the controller into `SYNC`, and what has
come since has not taken it out. -/
def Resyncs (c : InstrumentController F) (pre : List Delivery) (d : Delivery)
    (post : List Delivery) : Prop :=
  (run deliver c pre).1.state_ ≠ .SYNC ∧
    ∀ mid, mid <+: post → (run deliver c (pre++d::mid)).1.state_ = .SYNC

variable {c : InstrumentController F} {pre post : List Delivery} {d : Delivery}

theorem resyncs_number (h : Resyncs c pre d post) :
    Reached d.number (run deliver c (pre++d::post)).1 := by
  obtain ⟨hs,hsync⟩ := h
  have hs' := hsync [] List.nil_prefix
  rw [run_append_state, run_singleton] at hs'
  rw [run_append_state]
  exact run_reached _ _ post (deliver_syncs _ d hs hs')

theorem resyncs_entry (h : Resyncs c pre d post) {e : Entry}
    (he : .incremental e ∈ d::post) :
    Reached e.rptSeq.toNat (run deliver c (pre++d::post)).1 := by
  obtain ⟨before,after,hsplit⟩ := List.append_of_mem he
  have hs : (run deliver c (pre++(before++[.incremental e]))).1.state_ = .SYNC := by
    cases before with
    | nil =>
      obtain ⟨rfl,-⟩ := List.cons.inj hsplit
      exact h.2 [] List.nil_prefix
    | cons _ before =>
      obtain ⟨rfl,rfl⟩ := List.cons.inj hsplit
      exact h.2 (before++[.incremental e]) ⟨after,by simp⟩
  rw [← List.append_assoc, run_append_state, run_singleton] at hs
  rw [hsplit, ← List.append_assoc, run_append_state]
  exact run_reached _ _ after (onIncremental_reached _ e hs)

/-- In `SYNC` there is a last transition into it. The controller has reached
every entry handed to it since, and every earlier one that is not numbered
beyond the delivery of that transition. -/
theorem sync_reached (m : Indeterminate) (ds : List Delivery) :
    let c₀ := (construct i m : InstrumentController F × _).1
    let c := (run deliver c₀ ds).1
    c.state_ = .SYNC →
      (∃ pre d post, ds = pre++d::post ∧ Resyncs c₀ pre d post) ∧
        ∀ pre d post, ds = pre++d::post → Resyncs c₀ pre d post → ∀ e,
          (.incremental e ∈ d::post → (e.rptSeq.toNat:ℤ) ≤ c.processed_rptseq_) ∧
            (.incremental e ∈ pre → ¬d.number < e.rptSeq.toNat →
              (e.rptSeq.toNat:ℤ) ≤ c.processed_rptseq_) := by
  intro c₀ c hsync
  constructor
  · exact run_last deliver (fun c => c.state_ = .SYNC) c₀ ds nofun hsync
  · rintro pre d post rfl hre e
    constructor
    · exact fun he => (resyncs_entry hre he).2
    · intro _ hle
      have hnumber := (resyncs_number hre).2
      exact Int.le_trans (Int.ofNat_le.mpr (Nat.not_lt.mp hle)) hnumber

theorem sync_reached_sample :
    let ds : List Delivery := [.incremental (sampleHistory 3),.snapshot (sampleSnapshot 5),
      .incremental (sampleHistory 9),.snapshot (sampleSnapshot 20),
      .incremental (sampleHistory 21)]
    let c := (run deliver (construct sampleInstrument ⟨0,false⟩ :
      InstrumentController Floats.exact × _).1 ds).1
    ∀ k ∈ [3,9,21], ((sampleHistory k).rptSeq.toNat:ℤ) ≤ c.processed_rptseq_ := by
  have h := (sync_reached (i := sampleInstrument) (F := .exact) ⟨0,false⟩
    [.incremental (sampleHistory 3),.snapshot (sampleSnapshot 5),.incremental (sampleHistory 9),
      .snapshot (sampleSnapshot 20),.incremental (sampleHistory 21)] (by decide)).2
    [.incremental (sampleHistory 3),.snapshot (sampleSnapshot 5),.incremental (sampleHistory 9)]
    (.snapshot (sampleSnapshot 20)) [.incremental (sampleHistory 21)] rfl
  have hre : Resyncs (construct sampleInstrument ⟨0,false⟩ :
        InstrumentController Floats.exact × _).1
      [.incremental (sampleHistory 3),.snapshot (sampleSnapshot 5),.incremental (sampleHistory 9)]
      (.snapshot (sampleSnapshot 20)) [.incremental (sampleHistory 21)] := by
    constructor
    · decide
    · intro mid hmid
      rcases List.prefix_cons_iff.mp hmid with rfl | ⟨rest,rfl,hrest⟩
      · decide
      · rw [List.prefix_nil.mp hrest]
        decide
  intro ds c k hk
  simp only [List.mem_cons, List.not_mem_nil, or_false] at hk
  rcases hk with rfl | rfl | rfl
  · exact (h hre (sampleHistory 3)).2 (by decide) (by decide)
  · exact (h hre (sampleHistory 9)).2 (by decide) (by decide)
  · exact (h hre (sampleHistory 21)).1 (by decide)

/-- Entry 9 is dropped behind a gap, and a delayed snapshot of entry 6 then
brings the controller back to `SYNC` with `processed_rptseq_ = 6`. -/
theorem delayed_snapshot_syncs :
    let ds : List Delivery := [.snapshot (sampleSnapshot 5),.incremental (sampleHistory 9),
      .snapshot (sampleSnapshot 6)]
    let c := (run deliver (construct sampleInstrument ⟨0,false⟩ :
      InstrumentController Floats.exact × _).1 ds).1
    Delivery.incremental (sampleHistory 9) ∈ ds ∧ c.state_ = .SYNC ∧
      ¬((sampleHistory 9).rptSeq.toNat:ℤ) ≤ c.processed_rptseq_ := by
  decide

end InstrumentController

end CmeFeed
