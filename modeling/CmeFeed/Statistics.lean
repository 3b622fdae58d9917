import CmeFeed.Rebuild
import CmeFeed.Reactive.Writes

/-!
# The session statistics

Statistics come in on four incremental templates and in snapshots, as entries
of a type and, for the limit prices, as fields of the message. The handler
stores each of them as it comes. The module lists what every message writes,
and shows that the statistics of a controller are those writes and no others.
-/

set_option autoImplicit false

namespace CmeFeed

open Reactive

variable {F : Floats}

inductive Statistic where
  | lowlimitprice | highlimitprice | openingprice | fixingprice | sessionhighbid | sessionlowask
  | sessionhighprice | sessionlowprice | settlement | openinterest | clearedvolume
  | electronicvolume | thresholdprice | thresholdvolume
  deriving DecidableEq, Repr

abbrev Figure (F : Floats) := F.Double ⊕ ℤ

def SessionStatistics.get (s : SessionStatistics F) : Statistic → Figure F
  | .lowlimitprice => .inl s.lowlimitprice
  | .highlimitprice => .inl s.highlimitprice
  | .openingprice => .inl s.openingprice
  | .fixingprice => .inl s.fixingprice
  | .sessionhighbid => .inl s.sessionhighbid
  | .sessionlowask => .inl s.sessionlowask
  | .sessionhighprice => .inl s.sessionhighprice
  | .sessionlowprice => .inl s.sessionlowprice
  | .settlement => .inl s.settlement
  | .openinterest => .inr s.openinterest
  | .clearedvolume => .inr s.clearedvolume
  | .electronicvolume => .inr s.electronicvolume
  | .thresholdprice => .inl s.thresholdprice
  | .thresholdvolume => .inr s.thresholdvolume

def InstrumentMdHandler.statistic (h : InstrumentMdHandler F) (x : Statistic) : Figure F :=
  h.statistics_.get x

def MDIncrementalRefreshDailyStatistics33.NoMDEntries.writes (F : Floats)
    (e : MDIncrementalRefreshDailyStatistics33.NoMDEntries) : List (Statistic × Figure F) :=
  match e.mDEntryType with
  | .SettlementPrice => [(.settlement,.inl (F.price e.mDEntryPx))]
  | .FixingPrice => [(.fixingprice,.inl (F.price e.mDEntryPx))]
  | .ClearedVolume => [(.clearedvolume,.inr e.mDEntrySize)]
  | .OpenInterest => [(.openinterest,.inr e.mDEntrySize)]
  | .other => []

def MDIncrementalRefreshSessionStatistics35.NoMDEntries.writes (F : Floats)
    (e : MDIncrementalRefreshSessionStatistics35.NoMDEntries) : List (Statistic × Figure F) :=
  match e.mDEntryType with
  | .OpenPrice => [(.openingprice,.inl (F.price e.mDEntryPx))]
  | .LowTrade => [(.sessionlowprice,.inl (F.price e.mDEntryPx))]
  | .HighTrade => [(.sessionhighprice,.inl (F.price e.mDEntryPx))]
  | .LowestOffer => [(.sessionlowask,.inl (F.price e.mDEntryPx))]
  | .HighestBid => [(.sessionhighbid,.inl (F.price e.mDEntryPx))]
  | .other => []

def Entry.writes (F : Floats) : Entry → List (Statistic × Figure F)
  | .book32 _ => []
  | .dailyStatistics33 e => e.writes F
  | .limitsBanding34 e =>
    [(.lowlimitprice,.inl (F.price e.lowLimitPrice.toDecimal)),
      (.highlimitprice,.inl (F.price e.highLimitPrice.toDecimal))]
  | .sessionStatistics35 e => e.writes F
  | .trade36 _ => []
  | .tradeSummary42 _ => []
  | .volume37 e => [(.electronicvolume,.inr e.mDEntrySize)]

def SnapshotFullRefresh38.NoMDEntries.writes (F : Floats)
    (e : SnapshotFullRefresh38.NoMDEntries) : List (Statistic × Figure F) :=
  match e.mDEntryType with
  | .OpenPrice => [(.openingprice,.inl (F.price e.mDEntryPx))]
  | .SettlementPrice => [(.settlement,.inl (F.price e.mDEntryPx))]
  | .TradingSessionHighPrice => [(.sessionhighprice,.inl (F.price e.mDEntryPx))]
  | .TradingSessionLowPrice => [(.sessionlowprice,.inl (F.price e.mDEntryPx))]
  | .ClearedVolume => [(.clearedvolume,.inr e.mDEntrySize)]
  | .OpenInterest => [(.openinterest,.inr e.mDEntrySize)]
  | .SessionHighBid => [(.sessionhighbid,.inl (F.price e.mDEntryPx))]
  | .SessionLowOffer => [(.sessionlowask,.inl (F.price e.mDEntryPx))]
  | .FixingPrice => [(.fixingprice,.inl (F.price e.mDEntryPx))]
  | .ElectronicVolume => [(.electronicvolume,.inr e.mDEntrySize)]
  | .ThresholdLimitsandPriceBandVariation =>
    [(.thresholdprice,.inl (F.price e.mDEntryPx)),(.thresholdvolume,.inr e.mDEntrySize)]
  | _ => []

def SnapshotFullRefresh38.writes (F : Floats) (r : SnapshotFullRefresh38) :
    List (Statistic × Figure F) :=
  r.noMDEntries.flatMap (·.writes F) ++
    if r.lowLimitPrice.mantissa ≠ r.lowLimitPrice.mantissaNullValue ∧
        r.lowLimitPrice.exponent ≠ r.lowLimitPrice.exponentNullValue then
      [(.lowlimitprice,.inl (F.price r.lowLimitPrice.toDecimal)),
        (.highlimitprice,.inl (F.price r.highLimitPrice.toDecimal))]
    else []

namespace InstrumentMdHandler

theorem onIncremental_statistic (h : InstrumentMdHandler F) (e : Entry) (x : Statistic) :
    (h.onIncremental e).statistic x = (written x (e.writes F)).getD (h.statistic x) := by
  cases e with
  | book32 e =>
    change (h.onIncrementalBook e).statistic x = h.statistic x
    unfold onIncrementalBook
    cases x <;> cases e.mDEntryType <;> rfl
  | dailyStatistics33 e =>
    change (h.onIncrementalDailyStatistics e).statistic x = (written x (e.writes F)).getD _
    unfold onIncrementalDailyStatistics MDIncrementalRefreshDailyStatistics33.NoMDEntries.writes
    cases e.mDEntryType <;> cases x <;> rfl
  | limitsBanding34 e => cases x <;> rfl
  | sessionStatistics35 e =>
    change (h.onIncrementalSessionStatistics e).statistic x = (written x (e.writes F)).getD _
    unfold onIncrementalSessionStatistics
      MDIncrementalRefreshSessionStatistics35.NoMDEntries.writes
    cases e.mDEntryType <;> cases x <;> rfl
  | trade36 e => rfl
  | tradeSummary42 e => rfl
  | volume37 e => cases x <;> rfl

theorem snapshotEntry_statistic (h : InstrumentMdHandler F)
    (e : SnapshotFullRefresh38.NoMDEntries) (x : Statistic) :
    (h.snapshotEntry e).statistic x = (written x (e.writes F)).getD (h.statistic x) := by
  unfold snapshotEntry SnapshotFullRefresh38.NoMDEntries.writes
  cases e.mDEntryType <;> cases x <;> rfl

theorem snapshotLimits_statistic (h : InstrumentMdHandler F) (r : SnapshotFullRefresh38)
    (x : Statistic) :
    (h.snapshotLimits r).statistic x =
      (written x (if r.lowLimitPrice.mantissa ≠ r.lowLimitPrice.mantissaNullValue ∧
          r.lowLimitPrice.exponent ≠ r.lowLimitPrice.exponentNullValue then
        [(.lowlimitprice,.inl (F.price r.lowLimitPrice.toDecimal)),
          (.highlimitprice,.inl (F.price r.highLimitPrice.toDecimal))]
        else [])).getD (h.statistic x) := by
  unfold snapshotLimits
  split_ifs
  · cases x <;> rfl
  · rfl

theorem onSnapshot_statistic (h : InstrumentMdHandler F) (r : SnapshotFullRefresh38)
    (x : Statistic) :
    (h.onSnapshot r).statistic x = (written x (r.writes F)).getD (h.statistic x) := by
  have hentries : (r.noMDEntries.foldl snapshotEntry h.clearState).statistic x =
      (written x (r.noMDEntries.flatMap (·.writes F))).getD (h.statistic x) :=
    foldl_written snapshotEntry _ statistic snapshotEntry_statistic h.clearState r.noMDEntries x
  rw [onSnapshot, snapshotLimits_statistic, hentries, SnapshotFullRefresh38.writes, written_getD]

theorem commit_statistic (h : InstrumentMdHandler F) (x : Statistic) :
    h.commit.1.statistic x = h.statistic x := by
  unfold commit
  split_ifs <;> rfl

end InstrumentMdHandler

namespace InstrumentController

def handedOn (c : InstrumentController F) (d : Delivery) : List (Statistic × Figure F) :=
  match d with
  | .incremental e => if c.Applies e then e.writes F else []
  | .snapshot r => if c.Accepts r then r.writes F else []
  | .commit => []

theorem deliver_statistic (c : InstrumentController F) (d : Delivery) (x : Statistic) :
    (c.deliver d).1.mdhandler_.statistic x =
      (written x (c.handedOn d)).getD (c.mdhandler_.statistic x) := by
  rcases c.deliver_cases d with ⟨e,rfl,ha,he⟩ | ⟨e,rfl,hg,he⟩ | ⟨e,rfl,ha,-,he⟩ | ⟨r,rfl,hr,he⟩ |
    ⟨r,rfl,hr,he⟩ | ⟨rfl,he⟩ <;> rw [he, handedOn]
  · rw [if_pos ha]
    exact InstrumentMdHandler.onIncremental_statistic _ e x
  · have ha : ¬c.Applies e := by
      intro ha
      have hnext := ha.1
      have hgap := hg.2
      omega
    rw [if_neg ha]
    rfl
  · rw [if_neg ha]
    rfl
  · rw [if_pos hr]
    exact InstrumentMdHandler.onSnapshot_statistic _ r x
  · rw [if_neg hr]
    rfl
  · exact InstrumentMdHandler.commit_statistic _ x

/-- All along a run every statistic has the value of the last write to it among
the entries and snapshots handed on, whichever template or path it came by, and
0 if there was none: book entries, resets of the books, gaps and commits leave
it as it is. -/
theorem statistics_run (i : Instrument) (m : Indeterminate) (ds : List Delivery) (x : Statistic) :
    let start : InstrumentController F := (construct i m).1
    (run deliver start ds).1.mdhandler_.statistic x =
      (written x (observe deliver handedOn start ds)).getD
        (({} : SessionStatistics F).get x) :=
  run_written deliver handedOn (fun c => c.mdhandler_.statistic) deliver_statistic _ ds x

/-- A delivery that tells the truth about the history as far as one statistic is
concerned: a snapshot carries its value at that position, if the history has
set it. -/
def TruthfulOf (F : Floats) (x : Statistic) (hist : ℕ → Entry) : Delivery → Prop
  | .incremental e => hist e.rptSeq.toNat = e
  | .snapshot r =>
    written x (r.writes F) = written x (logged (Entry.writes F) hist r.rptSeq.toNat)
  | .commit => True

def statisticAt (F : Floats) (x : Statistic) (hist : ℕ → Entry) (n : ℕ) : Figure F :=
  (written x (logged (Entry.writes F) hist n)).getD (({} : SessionStatistics F).get x)

structure Figures (x : Statistic) (hist : ℕ → Entry) (c : InstrumentController F) : Prop where
  fresh : c.state_ = .INITIAL → c.mdhandler_.statistic x = statisticAt F x hist 0
  started : c.state_ ≠ .INITIAL → 0 ≤ c.processed_rptseq_ ∧
    c.mdhandler_.statistic x = statisticAt F x hist c.processed_rptseq_.toNat

variable {x : Statistic} {hist : ℕ → Entry}

theorem figures_before {c : InstrumentController F} (h : c.Figures x hist) {e : Entry}
    (ha : c.Applies e) :
    ∃ n, e.rptSeq.toNat = n+1 ∧ c.mdhandler_.statistic x = statisticAt F x hist n := by
  obtain ⟨hnext,hstate⟩ := ha
  by_cases hs : c.state_ = .INITIAL
  · have hzero : c.processed_rptseq_ = 0 := by
      rcases hstate with h' | h' | h'
      · exact absurd (hs.symm.trans h') nofun
      · exact absurd (hs.symm.trans h') nofun
      · exact h'.2
    exact ⟨0,by omega,h.fresh hs⟩
  · obtain ⟨hpos,hvalue⟩ := h.started hs
    exact ⟨c.processed_rptseq_.toNat,by omega,hvalue⟩

theorem figures_unset {c : InstrumentController F} (h : c.Figures x hist)
    {r : SnapshotFullRefresh38} (hr : c.Accepts r)
    (hnone : written x (logged (Entry.writes F) hist r.rptSeq.toNat) = none) :
    c.mdhandler_.statistic x = statisticAt F x hist r.rptSeq.toNat := by
  by_cases hs : c.state_ = .INITIAL
  · rw [h.fresh hs, statisticAt, statisticAt, hnone]
    rfl
  · obtain ⟨hpos,hvalue⟩ := h.started hs
    have hlater : c.processed_rptseq_.toNat ≤ r.rptSeq.toNat := by
      have := (hr.resolve_left hs).2
      omega
    rw [hvalue, statisticAt, statisticAt, hnone, written_logged_none _ _ hlater hnone]

theorem deliver_figures {c : InstrumentController F} (h : c.Figures x hist) {d : Delivery}
    (hd : TruthfulOf F x hist d) : (c.deliver d).1.Figures x hist := by
  have hvalue := c.deliver_statistic d x
  rcases c.deliver_cases d with ⟨e,rfl,ha,he⟩ | ⟨e,rfl,hg,he⟩ | ⟨e,rfl,-,-,he⟩ | ⟨r,rfl,hr,he⟩ |
    ⟨r,rfl,-,he⟩ | ⟨rfl,he⟩ <;> rw [he] at hvalue ⊢
  · constructor
    · intro hs
      cases hs
    refine fun _ => ⟨Int.natCast_nonneg _,?_⟩
    obtain ⟨n,hn,hbefore⟩ := figures_before h ha
    have hentry : hist (n+1) = e := hn ▸ hd
    rw [hvalue, handedOn, if_pos ha, hbefore, Int.toNat_natCast, hn, statisticAt, statisticAt,
      logged, hentry, written_getD]
  · constructor
    · intro hs
      cases hs
    refine fun _ => h.started fun hs => ?_
    cases hs.symm.trans hg.1
  · exact h
  · constructor
    · intro hs
      cases hs
    refine fun _ => ⟨Int.natCast_nonneg _,?_⟩
    rw [hvalue, handedOn, if_pos hr, show written x (r.writes F) = _ from hd, Int.toNat_natCast]
    cases hset : written x (logged (Entry.writes F) hist r.rptSeq.toNat) with
    | some v => rw [statisticAt, hset]; rfl
    | none => exact figures_unset h hr hset
  · exact h
  · have hsame : c.commit.1.mdhandler_.statistic x = c.mdhandler_.statistic x :=
      InstrumentMdHandler.commit_statistic _ x
    constructor
    · exact fun hs => hsame.trans (h.fresh hs)
    · exact fun hs => ⟨(h.started hs).1,hsame.trans (h.started hs).2⟩

/-- Recovery loses no statistic: if the snapshots carry what the history has set,
a controller that has left `INITIAL` holds, through loss, repetition and
reordering, the value that the history has at its position. -/
theorem statistics_replay (i : Instrument) (m : Indeterminate) (x : Statistic) (hist : ℕ → Entry)
    (ds : List Delivery) (hds : ∀ d ∈ ds, TruthfulOf F x hist d) :
    let c := (run deliver (construct i m : InstrumentController F × _).1 ds).1
    c.state_ ≠ .INITIAL →
      c.mdhandler_.statistic x = statisticAt F x hist c.processed_rptseq_.toNat := by
  intro c hs
  have hstart : (construct i m : InstrumentController F × _).1.Figures x hist :=
    ⟨fun _ => rfl,fun h => absurd rfl h⟩
  have hrun : c.Figures x hist := run_invariant deliver (Figures x hist) (TruthfulOf F x hist)
    (fun _ _ hd hc => deliver_figures hc hd) _ ds hds hstart
  exact (hrun.started hs).2

def interestHistory (k : ℕ) : Entry :=
  if k = 1 then .dailyStatistics33 ⟨⟨7,1⟩,⟨0,0⟩,40,.OpenInterest⟩ else sampleHistory k

theorem statistics_replay_sample :
    (run deliver (construct sampleInstrument ⟨5,false⟩ : InstrumentController .exact × _).1
      [.snapshot (sampleSnapshot 2),.incremental (interestHistory 3)]).1.mdhandler_.statistic
        .openinterest = statisticAt .exact .openinterest interestHistory 3 := by
  have htrue : ∀ d ∈ [Delivery.snapshot (sampleSnapshot 2),.incremental (interestHistory 3)],
      TruthfulOf .exact .openinterest interestHistory d := by
    intro d hd
    simp only [List.mem_cons, List.not_mem_nil, or_false] at hd
    rcases hd with rfl | rfl <;> rfl
  exact statistics_replay sampleInstrument ⟨5,false⟩ .openinterest interestHistory _ htrue
    (by decide)

end InstrumentController

end CmeFeed
