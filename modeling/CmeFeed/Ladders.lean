import CmeFeed.InstrumentMdHandler
import Mathlib.Data.List.Induction

/-!
# What a message does to each of the four ladders

An incremental entry performs at most one vector operation on each ladder, and
a snapshot rebuilds each ladder from the entries of its own type. Both facts
are stated once for all ladders; replay and recovery follow from them.
-/

set_option autoImplicit false

namespace CmeFeed

inductive Ladder where
  | bid | offer | impliedBid | impliedOffer
  deriving DecidableEq, Repr

namespace Ladder

def bookType : Ladder → MDEntryTypeBook
  | bid => .Bid
  | offer => .Offer
  | impliedBid => .ImpliedBid
  | impliedOffer => .ImpliedOffer

def snapshotType : Ladder → MDEntryType
  | bid => .Bid
  | offer => .Offer
  | impliedBid => .ImpliedBid
  | impliedOffer => .ImpliedOffer

end Ladder

def Instrument.depth (i : Instrument) : Ladder → ℕ
  | .bid | .offer => depthSize i.marketdepth
  | .impliedBid | .impliedOffer => depthSize i.implmarketdepth

variable {F : Floats}

namespace Books

def ladder (b : Books F) : Ladder → DepthList F.Float
  | .bid => b.main.bids_
  | .offer => b.main.asks_
  | .impliedBid => b.impl.bids_
  | .impliedOffer => b.impl.asks_

@[ext] theorem ext_ladder {a b : Books F} (h : ∀ x, a.ladder x = b.ladder x) : a = b := by
  obtain ⟨⟨_,_⟩,⟨_,_⟩⟩ := a
  obtain ⟨⟨_,_⟩,⟨_,_⟩⟩ := b
  have hb := h .bid
  have ho := h .offer
  have hib := h .impliedBid
  have hio := h .impliedOffer
  simp only [ladder] at hb ho hib hio
  rw [hb, ho, hib, hio]

def Fits (i : Instrument) (b : Books F) : Prop :=
  ∀ x, (b.ladder x).size_ = i.depth x ∧ (b.ladder x).Bounded

theorem empty_ladder (i : Instrument) (x : Ladder) :
    (empty F i).ladder x = ⟨i.depth x,[]⟩ := by
  cases x <;> rfl

theorem empty_fits (i : Instrument) : (empty F i).Fits i := by
  intro x
  rw [empty_ladder]
  exact ⟨rfl,Nat.zero_le _⟩

end Books

def MDIncrementalRefreshBook32.NoMDEntries.op (F : Floats)
    (e : MDIncrementalRefreshBook32.NoMDEntries) : Option (DepthList.Op F.Float) :=
  let level : ℤ := e.mDPriceLevel.toNat
  let price := F.narrow (F.price e.mDEntryPx)
  match e.mDUpdateAction with
  | .New => some (.add level price e.mDEntrySize)
  | .Change => some (.update level price e.mDEntrySize)
  | .Delete => some (.delete level price)
  | .DeleteFrom => some (.deleteFrom level)
  | .DeleteThru => some (.deleteThru level)
  | .other => none

def Entry.ladderOp (F : Floats) (x : Ladder) : Entry → Option (DepthList.Op F.Float)
  | .book32 e =>
    if e.mDEntryType = x.bookType then e.op F
    else if e.mDEntryType = .BookReset then some .clear else none
  | _ => none

def applyOp (l : DepthList F.Float) : Option (DepthList.Op F.Float) → DepthList F.Float
  | some op => l.apply op
  | none => l

theorem applyOp_size (l : DepthList F.Float) (op : Option (DepthList.Op F.Float)) :
    (applyOp l op).size_ = l.size_ := by
  cases op with
  | none => rfl
  | some op => exact l.apply_size op

theorem applyOp_bounded (l : DepthList F.Float) (op : Option (DepthList.Op F.Float))
    (h : l.Bounded) : (applyOp l op).Bounded := by
  cases op with
  | none => exact h
  | some op => exact l.apply_bounded op h

def Books.onIncremental (b : Books F) (e : Entry) : Books F where
  main := ⟨applyOp b.main.bids_ (e.ladderOp F .bid),applyOp b.main.asks_ (e.ladderOp F .offer)⟩
  impl := ⟨applyOp b.impl.bids_ (e.ladderOp F .impliedBid),
    applyOp b.impl.asks_ (e.ladderOp F .impliedOffer)⟩

theorem Books.onIncremental_ladder (b : Books F) (e : Entry) (x : Ladder) :
    (b.onIncremental e).ladder x = applyOp (b.ladder x) (e.ladderOp F x) := by
  cases x <;> rfl

theorem Books.onIncremental_fits {b : Books F} {i : Instrument} (hf : b.Fits i) (e : Entry) :
    (b.onIncremental e).Fits i := by
  intro x
  obtain ⟨hs,hb⟩ := hf x
  rw [onIncremental_ladder, applyOp_size]
  exact ⟨hs,applyOp_bounded _ _ hb⟩

theorem handleBidEntry_eq (e : MDIncrementalRefreshBook32.NoMDEntries) (b : DepthBook F.Float) :
    handleBidEntry e b = {b with bids_ := applyOp b.bids_ (e.op F)} := by
  unfold handleBidEntry MDIncrementalRefreshBook32.NoMDEntries.op
  cases e.mDUpdateAction <;> rfl

theorem handleAskEntry_eq (e : MDIncrementalRefreshBook32.NoMDEntries) (b : DepthBook F.Float) :
    handleAskEntry e b = {b with asks_ := applyOp b.asks_ (e.op F)} := by
  unfold handleAskEntry MDIncrementalRefreshBook32.NoMDEntries.op
  cases e.mDUpdateAction <;> rfl

namespace InstrumentMdHandler

theorem clearState_ladder (h : InstrumentMdHandler F) (x : Ladder) :
    h.clearState.books.ladder x = (h.books.ladder x).clear := by
  cases x <;> rfl

theorem onIncremental_other_books (h : InstrumentMdHandler F) (e : Entry)
    (he : ∀ b, e ≠ .book32 b) :
    (h.onIncremental e).books = h.books ∧ (h.onIncremental e).statechange_ = h.statechange_ := by
  cases e with
  | book32 b => exact absurd rfl (he b)
  | dailyStatistics33 d =>
    simp only [onIncremental, onIncrementalDailyStatistics]
    cases d.mDEntryType <;> exact ⟨rfl,rfl⟩
  | sessionStatistics35 s =>
    simp only [onIncremental, onIncrementalSessionStatistics]
    cases s.mDEntryType <;> exact ⟨rfl,rfl⟩
  | limitsBanding34 _ => exact ⟨rfl,rfl⟩
  | trade36 _ => exact ⟨rfl,rfl⟩
  | tradeSummary42 _ => exact ⟨rfl,rfl⟩
  | volume37 _ => exact ⟨rfl,rfl⟩

theorem onIncrementalBook_ladder (h : InstrumentMdHandler F)
    (e : MDIncrementalRefreshBook32.NoMDEntries) (x : Ladder) :
    (h.onIncrementalBook e).books.ladder x =
      applyOp (h.books.ladder x) ((Entry.book32 e).ladderOp F x) := by
  unfold onIncrementalBook Entry.ladderOp
  cases htype : e.mDEntryType <;> cases x <;>
    simp only [Ladder.bookType, books, Books.ladder, handleBidEntry_eq, handleAskEntry_eq,
      clearState, DepthBook.clear, htype, reduceCtorEq, if_true, if_false] <;> rfl

theorem onIncremental_ladder (h : InstrumentMdHandler F) (e : Entry) (x : Ladder) :
    (h.onIncremental e).books.ladder x = applyOp (h.books.ladder x) (e.ladderOp F x) := by
  by_cases hb : ∃ b, e = .book32 b
  · obtain ⟨b,rfl⟩ := hb
    exact onIncrementalBook_ladder h b x
  · have hne : ∀ b, e ≠ .book32 b := fun b he => hb ⟨b,he⟩
    rw [(onIncremental_other_books h e hne).1]
    cases e with
    | book32 b => exact absurd rfl (hne b)
    | _ => rfl

theorem onIncremental_books (h : InstrumentMdHandler F) (e : Entry) :
    (h.onIncremental e).books = h.books.onIncremental e := by
  ext x
  rw [onIncremental_ladder, Books.onIncremental_ladder]

@[simp] theorem onIncremental_instrument (h : InstrumentMdHandler F) (e : Entry) :
    (h.onIncremental e).instrument_ = h.instrument_ := by
  cases e with
  | book32 b =>
    simp only [onIncremental, onIncrementalBook]
    cases b.mDEntryType <;> rfl
  | dailyStatistics33 d =>
    simp only [onIncremental, onIncrementalDailyStatistics]
    cases d.mDEntryType <;> rfl
  | sessionStatistics35 s =>
    simp only [onIncremental, onIncrementalSessionStatistics]
    cases s.mDEntryType <;> rfl
  | limitsBanding34 _ => rfl
  | trade36 _ => rfl
  | tradeSummary42 _ => rfl
  | volume37 _ => rfl

end InstrumentMdHandler

def SnapshotFullRefresh38.ladder (r : SnapshotFullRefresh38) (x : Ladder) :
    List SnapshotFullRefresh38.NoMDEntries :=
  r.noMDEntries.filter (fun e => e.mDEntryType = x.snapshotType)

def SnapshotFullRefresh38.NoMDEntries.level (F : Floats)
    (e : SnapshotFullRefresh38.NoMDEntries) : PriceLevel F.Float :=
  ⟨F.narrow (F.price e.mDEntryPx),e.mDEntrySize⟩

def addEntry (l : DepthList F.Float) (e : SnapshotFullRefresh38.NoMDEntries) :
    DepthList F.Float :=
  l.add e.mDPriceLevel.toNat (F.narrow (F.price e.mDEntryPx)) e.mDEntrySize

def Numbered (es : List SnapshotFullRefresh38.NoMDEntries) : Prop :=
  es.map (fun e => e.mDPriceLevel.toNat) = List.range' 1 es.length

/-- The snapshot writes out the books, each ladder from level one upward. -/
def SnapshotFullRefresh38.Lists (r : SnapshotFullRefresh38) (b : Books F) : Prop :=
  ∀ x, Numbered (r.ladder x) ∧ (r.ladder x).map (·.level F) = (b.ladder x).levels_

theorem numbered_snoc {es : List SnapshotFullRefresh38.NoMDEntries}
    {e : SnapshotFullRefresh38.NoMDEntries} (h : Numbered (es++[e])) :
    Numbered es ∧ e.mDPriceLevel.toNat = es.length+1 := by
  unfold Numbered at h ⊢
  rw [List.map_append, List.length_append, List.length_singleton, List.range'_concat] at h
  obtain ⟨hes,he⟩ := List.append_inj' h rfl
  constructor
  · exact hes
  · simp only [List.map_singleton, List.cons.injEq, and_true] at he
    omega

/-- Rebuilding an empty ladder from a numbered listing keeps the levels that
fit. The induction is on the listing from its end: the level added last is the
one after those already there, or lies past a ladder that is full. -/
theorem addEntry_rebuild (es : List SnapshotFullRefresh38.NoMDEntries) (size : ℕ)
    (h : Numbered es) :
    es.foldl addEntry (⟨size,[]⟩ : DepthList F.Float) =
      ⟨size,(es.map (·.level F)).take size⟩ := by
  induction es using List.reverseRecOn with
  | nil => simp
  | append_singleton es e ih =>
    obtain ⟨hes,he⟩ := numbered_snoc h
    have hsmall : es.length+1 < 256 := he ▸ e.mDPriceLevel.toNat_lt
    rw [List.foldl_append, ih hes, List.foldl_cons, List.foldl_nil, addEntry, he]
    set l : DepthList F.Float := ⟨size,(es.map (·.level F)).take size⟩ with hl
    have hlen : l.levels_.length = min size es.length := by simp [hl]
    rcases Nat.lt_or_ge size es.length with hfull | hfits
    · have hlt : l.levels_.length < es.length := by omega
      have hrefused := l.add_beyond es.length (F.narrow (F.price e.mDEntryPx)) e.mDEntrySize
        (by omega) hlt
      rw [Int.natCast_succ, hrefused, hl, List.map_append, List.take_append_of_le_length
        (by simpa using Nat.le_of_lt hfull)]
    · have hall : l.levels_.length = es.length := by omega
      have hbounded : l.Bounded := by
        change l.levels_.length ≤ size
        omega
      have hnext := l.add_next (F.narrow (F.price e.mDEntryPx)) e.mDEntrySize (by omega) hbounded
      have hkept : l.levels_ = es.map (·.level F) :=
        List.take_of_length_le (by simpa using hfits)
      rw [hall, hkept] at hnext
      rw [Int.natCast_succ, hnext, List.map_append]
      rfl

namespace InstrumentMdHandler

theorem snapshotEntry_ladder (h : InstrumentMdHandler F) (e : SnapshotFullRefresh38.NoMDEntries)
    (x : Ladder) : (h.snapshotEntry e).books.ladder x =
      if e.mDEntryType = x.snapshotType then addEntry (h.books.ladder x) e
      else h.books.ladder x := by
  unfold snapshotEntry
  cases htype : e.mDEntryType <;> cases x <;>
    simp [Ladder.snapshotType, books, Books.ladder, addEntry, DepthBook.addBid, DepthBook.addAsk]

theorem snapshotEntry_frame (h : InstrumentMdHandler F)
    (e : SnapshotFullRefresh38.NoMDEntries) :
    (h.snapshotEntry e).instrument_ = h.instrument_ ∧
      (h.snapshotEntry e).statechange_ = h.statechange_ := by
  unfold snapshotEntry
  cases e.mDEntryType <;> exact ⟨rfl,rfl⟩

theorem snapshotFold_ladder (h : InstrumentMdHandler F)
    (es : List SnapshotFullRefresh38.NoMDEntries) (x : Ladder) :
    (es.foldl snapshotEntry h).books.ladder x =
      (es.filter (fun e => e.mDEntryType = x.snapshotType)).foldl addEntry (h.books.ladder x) := by
  induction es generalizing h with
  | nil => rfl
  | cons e es ih =>
    rw [List.foldl_cons, ih, snapshotEntry_ladder]
    by_cases he : e.mDEntryType = x.snapshotType
    · rw [if_pos he, List.filter_cons_of_pos (by simpa using he), List.foldl_cons]
    · rw [if_neg he, List.filter_cons_of_neg (by simpa using he)]

theorem snapshotFold_frame (h : InstrumentMdHandler F)
    (es : List SnapshotFullRefresh38.NoMDEntries) :
    (es.foldl snapshotEntry h).instrument_ = h.instrument_ ∧
      (es.foldl snapshotEntry h).statechange_ = h.statechange_ := by
  induction es generalizing h with
  | nil => exact ⟨rfl,rfl⟩
  | cons e es ih =>
    obtain ⟨hi,hc⟩ := ih (h.snapshotEntry e)
    obtain ⟨hi',hc'⟩ := h.snapshotEntry_frame e
    exact ⟨hi.trans hi',hc.trans hc'⟩

theorem snapshotLimits_frame (h : InstrumentMdHandler F) (r : SnapshotFullRefresh38) :
    (h.snapshotLimits r).instrument_ = h.instrument_ ∧
      (h.snapshotLimits r).books = h.books ∧
      (h.snapshotLimits r).statechange_ = h.statechange_ := by
  unfold snapshotLimits
  split_ifs <;> exact ⟨rfl,rfl,rfl⟩

@[simp] theorem onSnapshot_instrument (h : InstrumentMdHandler F) (r : SnapshotFullRefresh38) :
    (h.onSnapshot r).instrument_ = h.instrument_ := by
  rw [onSnapshot, (snapshotLimits_frame _ r).1, (snapshotFold_frame _ _).1]
  rfl

@[simp] theorem onSnapshot_statechange (h : InstrumentMdHandler F) (r : SnapshotFullRefresh38) :
    (h.onSnapshot r).statechange_ = false := by
  rw [onSnapshot, (snapshotLimits_frame _ r).2.2, (snapshotFold_frame _ _).2]
  rfl

theorem onSnapshot_ladder (h : InstrumentMdHandler F) (r : SnapshotFullRefresh38) (x : Ladder) :
    (h.onSnapshot r).books.ladder x =
      (r.ladder x).foldl addEntry (h.books.ladder x).clear := by
  rw [onSnapshot, (snapshotLimits_frame _ r).2.1, snapshotFold_ladder, clearState_ladder]
  rfl

theorem onSnapshot_rebuild (h : InstrumentMdHandler F) (r : SnapshotFullRefresh38) (x : Ladder)
    (hr : Numbered (r.ladder x)) :
    (h.onSnapshot r).books.ladder x = ⟨(h.books.ladder x).size_,
      ((r.ladder x).map (·.level F)).take (h.books.ladder x).size_⟩ := by
  rw [onSnapshot_ladder]
  exact addEntry_rebuild _ _ hr

theorem onSnapshot_lists (h : InstrumentMdHandler F) (r : SnapshotFullRefresh38) (b : Books F)
    {i : Instrument} (hh : h.books.Fits i) (hb : b.Fits i) (hr : r.Lists b) :
    (h.onSnapshot r).books = b := by
  ext x
  obtain ⟨hnum,hlev⟩ := hr x
  obtain ⟨hsize,hbounded⟩ := hb x
  rw [onSnapshot_rebuild h r x hnum, hlev, (hh x).1, ← hsize, List.take_of_length_le hbounded]

theorem addEntry_fits (l : DepthList F.Float) (es : List SnapshotFullRefresh38.NoMDEntries)
    (h : l.Bounded) : (es.foldl addEntry l).size_ = l.size_ ∧ (es.foldl addEntry l).Bounded := by
  induction es generalizing l with
  | nil => exact ⟨rfl,h⟩
  | cons e es ih =>
    obtain ⟨hs,hb⟩ := ih (addEntry l e) (l.add_bounded _ _ _ h)
    exact ⟨hs.trans (l.add_size _ _ _),hb⟩

theorem onSnapshot_fits (h : InstrumentMdHandler F) (r : SnapshotFullRefresh38) {i : Instrument}
    (hf : h.books.Fits i) : (h.onSnapshot r).books.Fits i := by
  intro x
  obtain ⟨hs,hb⟩ := addEntry_fits (h.books.ladder x).clear (r.ladder x) (Nat.zero_le _)
  rw [onSnapshot_ladder]
  exact ⟨hs.trans (hf x).1,hb⟩

end InstrumentMdHandler

end CmeFeed
