import CmeFeed.ControllerRuns
import CmeFeed.Dispatch

/-!
# The channel reset

A channel reset is dispatched nowhere. An instrument starts the session after it
afresh only if nothing has happened to it that a reset would have to undo, and
that is seen in what its controller was handed since it was constructed.
-/

set_option autoImplicit false

namespace CmeFeed

open Reactive

variable {F : Floats}

theorem DepthList.add_occupied {P : Type} (l : DepthList P) (level : ℤ) (p : P) (q : ℤ)
    (h : l.Bounded) (hl : l.levels_ ≠ []) : (l.add level p q).levels_ ≠ [] := by
  have hlength : 0 < l.levels_.length := List.length_pos_iff.mpr hl
  have hgrow : l.levels_.length ≤ (l.levels_.insertIdx (level-1).toNat ⟨p,q⟩).length := by
    rw [List.length_insertIdx]
    split_ifs <;> omega
  unfold Bounded at h
  unfold add
  dsimp only
  split_ifs with hin hfull
  · rw [← List.length_pos_iff, List.length_eraseIdx_of_lt hfull]
    omega
  · exact List.ne_nil_of_length_pos (Nat.lt_of_lt_of_le hlength hgrow)
  · exact hl

theorem DepthList.add_empty {P : Type} (size level : ℕ) (p : P) (q : ℤ) (hl : level < 2^64) :
    ((⟨size,[]⟩ : DepthList P).add level p q).levels_ = [] ↔ (level = 1 → size = 0) := by
  have hin : sizeT ((level:ℤ)-1) ≤ ([] : List (PriceLevel P)).length ↔ level = 1 := by
    unfold sizeT
    rw [List.length_nil]
    omega
  unfold add
  dsimp only
  by_cases hone : level = 1
  · rw [if_pos (hin.mpr hone), hone]
    cases size <;> simp
  · rw [if_neg (mt hin.mp hone)]
    exact iff_of_true rfl fun h => absurd h hone

theorem addEntry_occupied (es : List SnapshotFullRefresh38.NoMDEntries) {l : DepthList F.Float}
    (h : l.Bounded) (hl : l.levels_ ≠ []) : (es.foldl addEntry l).levels_ ≠ [] := by
  induction es generalizing l with
  | nil => exact hl
  | cons e es ih => exact ih (l.add_bounded _ _ _ h) (l.add_occupied _ _ _ h hl)

theorem addEntry_empty (size : ℕ) (es : List SnapshotFullRefresh38.NoMDEntries) :
    (es.foldl addEntry (⟨size,[]⟩ : DepthList F.Float)).levels_ = [] ↔
      ∀ e ∈ es, e.mDPriceLevel = 1 → size = 0 := by
  induction es with
  | nil => simp
  | cons e es ih =>
    have hlevel : e.mDPriceLevel.toNat = (1:UInt8).toNat ↔ e.mDPriceLevel = 1 := UInt8.toNat_inj
    have hsmall : e.mDPriceLevel.toNat < 2^64 :=
      Nat.lt_of_lt_of_le e.mDPriceLevel.toNat_lt (by decide)
    have hadd : (addEntry (⟨size,[]⟩ : DepthList F.Float) e).levels_ = [] ↔
        (e.mDPriceLevel = 1 → size = 0) := by
      rw [← hlevel]
      exact DepthList.add_empty size _ _ _ hsmall
    have hsize : (addEntry (⟨size,[]⟩ : DepthList F.Float) e).size_ = size :=
      DepthList.add_size _ _ _ _
    rw [List.foldl_cons, List.forall_mem_cons, ← hadd]
    by_cases hfirst : (addEntry (⟨size,[]⟩ : DepthList F.Float) e).levels_ = []
    · have hsame : addEntry (⟨size,[]⟩ : DepthList F.Float) e = ⟨size,[]⟩ :=
        congrArg₂ DepthList.mk hsize hfirst
      rw [hsame, ih]
      exact (and_iff_right rfl).symm
    · have hbounded : (addEntry (⟨size,[]⟩ : DepthList F.Float) e).Bounded :=
        DepthList.add_bounded _ _ _ _ (Nat.zero_le _)
      exact iff_of_false (addEntry_occupied es hbounded hfirst) fun h => hfirst h.1

/-- The snapshot fills no ladder: none that can hold a level is given its first one. -/
def SnapshotFullRefresh38.LevelLess (i : Instrument) (r : SnapshotFullRefresh38) : Prop :=
  ∀ x, ∀ e ∈ r.ladder x, e.mDPriceLevel = 1 → i.depth x = 0

theorem InstrumentMdHandler.onSnapshot_isEmpty {i : Instrument} {h : InstrumentMdHandler F}
    (hf : h.books.Fits i) (r : SnapshotFullRefresh38) :
    (h.onSnapshot r).books.IsEmpty ↔ r.LevelLess i := by
  refine forall_congr' fun x => ?_
  rw [onSnapshot_ladder, show (h.books.ladder x).clear = ⟨(h.books.ladder x).size_,[]⟩ from rfl,
    (hf x).1]
  exact addEntry_empty _ _

def deliveredEntries (ds : List Delivery) : List Entry :=
  ds.filterMap fun
    | .incremental e => some e
    | _ => none

structure IsSession (ds : List Delivery) : Prop where
  numbered : (deliveredEntries ds).map (fun e => e.rptSeq.toNat) =
    List.range' 1 (deliveredEntries ds).length
  incremental : ∀ r, Delivery.snapshot r ∉ ds

namespace InstrumentController

theorem run_numbered {c : InstrumentController F} (hs : c.state_ = .SYNC) {n : ℕ}
    (hn : c.processed_rptseq_ = n) (ds : List Delivery)
    (hnumbered : (deliveredEntries ds).map (fun e => e.rptSeq.toNat) =
      List.range' (n+1) (deliveredEntries ds).length)
    (hincremental : ∀ r, Delivery.snapshot r ∉ ds) :
    (run deliver c ds).1.mdhandler_.books =
      (deliveredEntries ds).foldl Books.onIncremental c.mdhandler_.books := by
  induction ds generalizing c n with
  | nil => rfl
  | cons d ds ih =>
    have hrest : ∀ r, Delivery.snapshot r ∉ ds :=
      fun r hr => hincremental r (List.mem_cons_of_mem d hr)
    cases d with
    | incremental e =>
      have hentries : deliveredEntries (.incremental e::ds) = e::deliveredEntries ds := rfl
      rw [hentries, List.map_cons, List.length_cons, List.range'_succ] at hnumbered
      obtain ⟨hhead,htail⟩ := List.cons.inj hnumbered
      have happlies : c.Applies e := ⟨by omega,Or.inl hs⟩
      have hstep : c.deliver (.incremental e) = _ := c.onIncremental_applied e happlies
      rw [hentries, List.foldl_cons, run_cons, hstep, ← InstrumentMdHandler.onIncremental_books]
      exact ih rfl (congrArg Nat.cast hhead) htail hrest
    | snapshot r => exact absurd List.mem_cons_self (hincremental r)
    | commit =>
      have hbooks : c.commit.1.mdhandler_.books = c.mdhandler_.books :=
        InstrumentMdHandler.commit_books _
      rw [run_cons, show (deliveredEntries (.commit::ds)) = deliveredEntries ds from rfl, ← hbooks]
      exact ih (c := c.commit.1) hs hn hnumbered hrest

end InstrumentController

namespace ChannelController

/-- Whatever packets follow, an instrument to which they bring a session holds
the replay of the session from empty books. -/
def ReplaysSessions (cc : ChannelController F) (k : UInt32) (c : InstrumentController F) : Prop :=
  ∀ packets : List FeedPacket,
    let ds := observe onPacket (packetDeliveries k) cc packets
    IsSession ds → ∀ c', (run onPacket cc packets).1.getInstrumentController k = some c' →
      c'.mdhandler_.books =
        (deliveredEntries ds).foldl Books.onIncremental c.mdhandler_.books.clear

/-- The controller is as a session has to find it. -/
structure Fresh (c : InstrumentController F) : Prop where
  state : c.state_ = .SYNC
  processed : c.processed_rptseq_ = 0
  books : c.mdhandler_.books.IsEmpty

theorem fresh_replays {cc : ChannelController F} {k : UInt32} {c : InstrumentController F}
    (hc : cc.getInstrumentController k = some c) (h : Fresh c) : cc.ReplaysSessions k c := by
  intro packets ds hsession c' hc'
  have hproject := (run_projects (onPacket_projects k) cc packets).1
  rw [soloState, hc, Option.map_some, hc', Option.some.injEq] at hproject
  rw [hproject, ← (Books.clear_eq_iff _).mpr h.books]
  exact InstrumentController.run_numbered h.state (n := 0) h.processed ds hsession.numbered
    hsession.incremental

theorem onIncrementalPacket_reset (cc : ChannelController F) (p : Packet) (pre : List Message)
    {m : Message} (hm : m.templateId = 4) (k : UInt32) :
    (cc.onIncrementalPacket (withMessages p (pre++[m]))).1.getInstrumentController k =
      (cc.onIncrementalPacket (withMessages p pre)).1.getInstrumentController k := by
  have hother : m.incremental = none := by
    unfold Message.incremental
    simp [hm]
  by_cases hp : cc.Processes p
  · have hprocesses : ∀ messages, cc.Processes (withMessages p messages) := fun _ => hp
    rw [onIncrementalPacket_processed (hprocesses _), onIncrementalPacket_processed (hprocesses _)]
    dsimp only [withMessages]
    rw [run_append_state, run_singleton]
    exact (onIncrementalMessage_other _ m hother).2 k
  · have hskips : ∀ messages, ¬cc.Processes (withMessages p messages) := fun _ => hp
    rw [onIncrementalPacket_unprocessed (hskips _), onIncrementalPacket_unprocessed (hskips _)]

end ChannelController

namespace InstrumentController

open ChannelController (Fresh)

theorem deliver_fresh {c : InstrumentController F} (h : Reached 0 c) (d : Delivery) :
    Fresh (c.deliver d).1 ↔ Fresh c ∧ d.number = 0 := by
  have h0 : 0 ≤ c.processed_rptseq_ := h.2
  rcases c.deliver_cases d with ⟨e,rfl,ha,he⟩ | ⟨e,rfl,hg,he⟩ | ⟨e,rfl,ha,hg,he⟩ |
    ⟨r,rfl,hr,he⟩ | ⟨r,rfl,hr,he⟩ | ⟨rfl,he⟩ <;> rw [he]
  · have hnext := ha.1
    refine iff_of_false (fun hf => ?_) (fun hf => ?_)
    · have hzero : (e.rptSeq.toNat:ℤ) = 0 := hf.processed
      omega
    · have hzero : e.rptSeq.toNat = 0 := hf.2
      omega
  · refine iff_of_false (fun hf => absurd hf.state nofun) (fun hf => ?_)
    have hahead := hg.2
    have hzero : e.rptSeq.toNat = 0 := hf.2
    omega
  · refine (and_iff_left_of_imp fun hf => ?_).symm
    have hnext : (e.rptSeq.toNat:ℤ) ≠ c.processed_rptseq_+1 := fun hn => ha ⟨hn,Or.inl hf.state⟩
    have hbehind : ¬c.processed_rptseq_+1 < e.rptSeq.toNat := fun hlt => hg ⟨hf.state,hlt⟩
    have hzero : c.processed_rptseq_ = 0 := hf.processed
    change e.rptSeq.toNat = 0
    omega
  · have hlater := (hr.resolve_left h.1).2
    refine iff_of_false (fun hf => ?_) (fun hf => ?_)
    · have hzero : (r.rptSeq.toNat:ℤ) = 0 := hf.processed
      omega
    · have hzero : r.rptSeq.toNat = 0 := hf.2
      omega
  · refine (and_iff_left_of_imp fun hf => ?_).symm
    have hbehind : ¬c.processed_rptseq_ < r.rptSeq.toNat :=
      fun hlt => hr (Or.inr ⟨Or.inr hf.state,hlt⟩)
    have hzero : c.processed_rptseq_ = 0 := hf.processed
    change r.rptSeq.toNat = 0
    omega
  · have hbooks : c.commit.1.mdhandler_.books = c.mdhandler_.books :=
      InstrumentMdHandler.commit_books _
    refine Iff.trans ⟨fun hf => ?_,fun hf => ?_⟩ (and_iff_left rfl).symm
    · exact ⟨hf.state,hf.processed,hbooks ▸ hf.books⟩
    · exact ⟨hf.state,hf.processed,hbooks.symm ▸ hf.books⟩

theorem run_fresh {c : InstrumentController F} (h : Reached 0 c) (ds : List Delivery) :
    Fresh (run deliver c ds).1 ↔ Fresh c ∧ ∀ d ∈ ds, d.number = 0 := by
  induction ds generalizing c with
  | nil => simp
  | cons d ds ih =>
    rw [run_cons, ih (deliver_reached 0 c d h), deliver_fresh h, and_assoc, List.forall_mem_cons]

def StaysInitial (m : Indeterminate) : Delivery → Prop
  | .incremental e => ¬(m.processed_rptseq_ = 0 ∧ e.rptSeq = 1)
  | .snapshot _ => False
  | .commit => True

/-- What the controller of the instrument was handed since its construction: first
nothing that starts it, then a snapshot numbered 0 that fills no ladder, and
nothing with a number since. -/
def Restartable (i : Instrument) (m : Indeterminate) (ds : List Delivery) : Prop :=
  ∃ before r after, ds = before++.snapshot r::after ∧ (∀ d ∈ before, StaysInitial m d) ∧
    r.rptSeq = 0 ∧ r.LevelLess i ∧ ∀ d ∈ after, d.number = 0

theorem restartable_cons (i : Instrument) (m : Indeterminate) (d : Delivery)
    (ds : List Delivery) :
    Restartable i m (d::ds) ↔ StaysInitial m d ∧ Restartable i m ds ∨
      ∃ r, d = .snapshot r ∧ r.rptSeq = 0 ∧ r.LevelLess i ∧ ∀ d ∈ ds, d.number = 0 := by
  constructor
  · rintro ⟨before,r,after,hsplit,hbefore,hr⟩
    cases before with
    | nil =>
      obtain ⟨rfl,rfl⟩ := List.cons.inj hsplit
      exact Or.inr ⟨r,rfl,hr⟩
    | cons d' before =>
      obtain ⟨rfl,rfl⟩ := List.cons.inj hsplit
      obtain ⟨hd,hbefore⟩ := List.forall_mem_cons.mp hbefore
      exact Or.inl ⟨hd,before,r,after,rfl,hbefore,hr⟩
  · rintro (⟨hd,before,r,after,rfl,hbefore,hr⟩ | ⟨r,rfl,hr⟩)
    · exact ⟨d::before,r,after,rfl,List.forall_mem_cons.mpr ⟨hd,hbefore⟩,hr⟩
    · exact ⟨[],r,ds,rfl,by simp,hr⟩

section
variable {i : Instrument} {m : Indeterminate} {c : InstrumentController F}

theorem initial_applies (hs : c.state_ = .INITIAL)
    (hm : c.processed_rptseq_ = m.processed_rptseq_) (e : Entry) :
    c.Applies e ↔ ¬StaysInitial m (.incremental e) := by
  have hone : (e.rptSeq.toNat:ℤ) = 1 ↔ e.rptSeq = 1 := by
    rw [← UInt32.toNat_inj]
    exact Int.ofNat_inj
  unfold Applies StaysInitial
  rw [not_not, hs, hm, ← hone]
  simp only [reduceCtorEq, false_or, true_and]
  constructor <;> rintro ⟨_,_⟩ <;> constructor <;> omega

theorem initial_applied (hs : c.state_ = .INITIAL) {e : Entry} (ha : c.Applies e)
    (ds : List Delivery) : ¬Fresh (run deliver c (.incremental e::ds)).1 := by
  have hstep : c.deliver (.incremental e) = _ := c.onIncremental_applied e ha
  have hstarted : Reached 0 (c.deliver (.incremental e)).1 := by
    rw [hstep]
    exact ⟨nofun,Int.natCast_nonneg _⟩
  rw [run_cons, run_fresh hstarted, hstep]
  rintro ⟨hf,-⟩
  have hzero : (e.rptSeq.toNat:ℤ) = 0 := hf.processed
  obtain ⟨hnext,hstart⟩ := ha
  simp only [hs, reduceCtorEq, false_or, true_and] at hstart
  omega

theorem initial_snapshot (hc : c.Sound i) (hs : c.state_ = .INITIAL) (r : SnapshotFullRefresh38)
    (ds : List Delivery) :
    Fresh (run deliver c (.snapshot r::ds)).1 ↔
      r.rptSeq = 0 ∧ r.LevelLess i ∧ ∀ d ∈ ds, d.number = 0 := by
  have hstep : c.deliver (.snapshot r) = _ := c.onSnapshot_accepted r (Or.inl hs)
  have hstarted : Reached 0 (c.deliver (.snapshot r)).1 := by
    rw [hstep]
    exact ⟨nofun,Int.natCast_nonneg _⟩
  have hzero : (r.rptSeq.toNat:ℤ) = 0 ↔ r.rptSeq = 0 := by
    rw [← UInt32.toNat_inj]
    exact Int.ofNat_inj
  have hempty := InstrumentMdHandler.onSnapshot_isEmpty hc.fits r
  rw [run_cons, run_fresh hstarted, hstep]
  constructor
  · rintro ⟨hf,hds⟩
    exact ⟨hzero.mp hf.processed,hempty.mp hf.books,hds⟩
  · rintro ⟨hprocessed,hless,hds⟩
    exact ⟨⟨rfl,hzero.mpr hprocessed,hempty.mpr hless⟩,hds⟩

theorem initial_fresh (hc : c.Sound i) (hs : c.state_ = .INITIAL)
    (hm : c.processed_rptseq_ = m.processed_rptseq_) (ds : List Delivery) :
    Fresh (run deliver c ds).1 ↔ Restartable i m ds := by
  induction ds generalizing c with
  | nil =>
    refine iff_of_false (fun hf => absurd (hs.symm.trans hf.state) nofun) ?_
    rintro ⟨before,r,after,hnil,-⟩
    exact absurd hnil (by simp)
  | cons d ds ih =>
    rw [restartable_cons]
    cases d with
    | incremental e =>
      have hentry : ¬∃ r, Delivery.incremental e = .snapshot r ∧ r.rptSeq = 0 ∧
          r.LevelLess i ∧ ∀ d ∈ ds, d.number = 0 := by
        rintro ⟨r,hr,-⟩
        exact absurd hr nofun
      have happlies := initial_applies hs hm e
      rw [or_iff_left hentry]
      by_cases ha : c.Applies e
      · exact iff_of_false (initial_applied hs ha ds) fun h => happlies.mp ha h.1
      · have hg : ¬c.OpensGap e := fun hg => absurd (hs.symm.trans hg.1) nofun
        have hstep : c.deliver (.incremental e) = _ := c.onIncremental_ignored e ha hg
        rw [run_cons, hstep, ih hc hs hm]
        exact (and_iff_right (not_not.mp (mt happlies.mpr ha))).symm
    | snapshot r =>
      rw [initial_snapshot hc hs]
      simp [StaysInitial]
    | commit =>
      rw [run_cons, ih (deliver_sound c .commit hc) hs hm]
      simp [StaysInitial]

end

theorem construct_fresh (i : Instrument) (m : Indeterminate) (ds : List Delivery) :
    Fresh (run deliver (construct i m : InstrumentController F × _).1 ds).1 ↔
      Restartable i m ds :=
  initial_fresh (construct_sound i m) rfl rfl ds

/-- No run enters `DISCONTINUED`: the source never assigns it. -/
theorem run_live (i : Instrument) (m : Indeterminate) (ds : List Delivery) :
    (run deliver (construct i m : InstrumentController F × _).1 ds).1.state_ ≠ .DISCONTINUED := by
  refine run_invariant deliver (fun c => c.state_ ≠ .DISCONTINUED) (fun _ => True) ?_ _ ds
    (fun _ _ => trivial) nofun
  intro c d _ hc
  rcases c.deliver_cases d with ⟨e,-,-,he⟩ | ⟨e,-,-,he⟩ | ⟨e,-,-,-,he⟩ | ⟨r,-,-,he⟩ |
    ⟨r,-,-,he⟩ | ⟨-,he⟩ <;> rw [he]
  · nofun
  · nofun
  · exact hc
  · nofun
  · exact hc
  · exact hc

end InstrumentController

namespace ChannelController

def handed (k : UInt32) (cc : ChannelController F) : ChannelInput → List Delivery
  | .subscribe _ => []
  | .packet p => if (cc.getInstrumentController k).isSome then packetDeliveries k cc p else []

/-- The controller under the key has been handed `ds` since it was constructed. -/
structure History (memory : UInt32 → Indeterminate) (k : UInt32) (cc : ChannelController F)
    (ds : List Delivery) : Prop where
  kept : cc.memory = memory
  since : ∀ c, cc.getInstrumentController k = some c →
    c = (run InstrumentController.deliver
      (InstrumentController.construct c.instrument_ (memory k)).1 ds).1
  absent : cc.getInstrumentController k = none → ds = []

theorem onPacket_memory (cc : ChannelController F) (p : FeedPacket) :
    (cc.onPacket p).1.memory = cc.memory := by
  cases p with
  | snapshot p => exact (run_same handleSnapshotMessage_same cc p.messages).memory
  | incremental p =>
    dsimp only [onPacket]
    by_cases hp : cc.Processes p
    · rw [onIncrementalPacket_processed hp]
      exact (run_same onIncrementalMessage_same
        {cc with expectedseqnum_ := (p.seqnum+1).toNat} p.messages).memory
    · rw [onIncrementalPacket_unprocessed hp]

variable {memory : UInt32 → Indeterminate} {k : UInt32} {cc : ChannelController F}
  {ds : List Delivery}

theorem onInput_history (h : History memory k cc ds) (input : ChannelInput) :
    History memory k (cc.onInput input).1 (ds++cc.handed k input) := by
  cases input with
  | subscribe i =>
    have hmemory : (cc.subscribe i).1.memory = cc.memory := by
      unfold subscribe
      cases cc.getInstrumentController i.key <;> rfl
    have hfind := subscribe_find cc i k
    simp only [handed, List.append_nil]
    refine ⟨hmemory.trans h.kept,fun c hc => ?_,fun hnone => ?_⟩
    · have hc := hfind.symm.trans hc
      cases hold : cc.getInstrumentController k with
      | some c' =>
        rw [hold] at hc
        obtain rfl := Option.some.inj hc
        exact h.since _ hold
      | none =>
        rw [hold, Option.none_or] at hc
        split_ifs at hc with hkey
        obtain rfl := Option.some.inj hc
        rw [h.absent hold, h.kept, hkey]
        rfl
    · have hnone := hfind.symm.trans hnone
      cases hold : cc.getInstrumentController k with
      | some c' =>
        rw [hold] at hnone
        exact absurd hnone nofun
      | none => exact h.absent hold
  | packet p =>
    have hfind : (cc.onInput (.packet p)).1.getInstrumentController k = _ :=
      (onPacket_projects k cc p).1
    unfold soloState at hfind
    refine ⟨(onPacket_memory cc p).trans h.kept,fun c hc => ?_,fun hnone => ?_⟩
    · obtain ⟨c',hold,hrun⟩ := Option.map_eq_some_iff.mp (hfind.symm.trans hc)
      have hinst : c.instrument_ = c'.instrument_ :=
        hrun ▸ InstrumentController.run_instrument c' _
      rw [handed, hold, Option.isSome_some, if_pos rfl, run_append_state, hinst,
        ← h.since c' hold, hrun]
    · have hold := Option.map_eq_none_iff.mp (hfind.symm.trans hnone)
      rw [handed, hold, h.absent hold]
      rfl

theorem run_history (h : History memory k cc ds) (inputs : List ChannelInput) :
    History memory k (run onInput cc inputs).1 (ds++observe onInput (handed k) cc inputs) := by
  induction inputs generalizing cc ds with
  | nil =>
    rw [observe, List.append_nil]
    exact h
  | cons input inputs ih =>
    rw [run_cons, observe, ← List.append_assoc]
    exact ih (onInput_history h input)

end ChannelController

namespace ChannelImpl

open ChannelController (Fresh ReplaysSessions withMessages)

structure Restarted (ch : ChannelImpl F) (k : UInt32) (c : InstrumentController F) : Prop where
  fresh : Fresh c
  unlisted : k ∉ ch.registry
  sessions : ch.channel_controller_.ReplaysSessions k c

theorem fresh_restarted {ch : ChannelImpl F} (h : ch.InOrder) {k : UInt32}
    {c : InstrumentController F} (hc : ch.channel_controller_.getInstrumentController k = some c)
    (hfresh : Fresh c) : ch.Restarted k c := by
  refine ⟨hfresh,fun hlisted => ?_,ChannelController.fresh_replays hc hfresh⟩
  obtain ⟨c',hc',hwaits⟩ := (h.listed k).mp hlisted
  obtain rfl := Option.some.inj (hc.symm.trans hc')
  rcases hwaits with hs | hs
  · exact absurd (hfresh.state.symm.trans hs) nofun
  · exact absurd (hfresh.state.symm.trans hs) nofun

theorem onPacket_incremental_find (ch : ChannelImpl F) (p : Packet) (k : UInt32) :
    (ch.onPacket .Incremental p).channel_controller_.getInstrumentController k =
      (ch.channel_controller_.onIncrementalPacket p).1.getInstrumentController k :=
  foldl_execute_find _ _ k

open ChannelController (History)

def handed (k : UInt32) (ch : ChannelImpl F) : ChannelCall → List Delivery
  | .OnPacket .Incremental data => ch.channel_controller_.handed k (.packet (.incremental data))
  | .OnPacket .Snapshot data => ch.channel_controller_.handed k (.packet (.snapshot data))
  | _ => []

def handedIn (k : UInt32) : ChannelImpl F → List ChannelCall → List Delivery
  | _, [] => []
  | ch, c::cs => ch.handed k c++handedIn k (ch.call c) cs

theorem drained_handed (k : UInt32) (ch : ChannelImpl F) (cc : ChannelController F) :
    observe ChannelController.onInput (ChannelController.handed k) cc ch.drained = [] := by
  unfold drained
  induction ch.pendingsubscription_ generalizing cc with
  | nil => rfl
  | cons symbol symbols ih => exact ih _

theorem inputs_handed (k : UInt32) (ch : ChannelImpl F) (c : ChannelCall) :
    observe ChannelController.onInput (ChannelController.handed k) ch.channel_controller_
      (ch.inputs (.call c)) = ch.handed k c := by
  cases c with
  | Subscribe i => rfl
  | SubscribeSymbol symbol => rfl
  | OnPacket type data =>
    cases type with
    | Incremental => exact List.append_nil _
    | Snapshot => exact List.append_nil _
    | Instrument =>
      dsimp only [inputs, handed]
      split_ifs
      · exact drained_handed k _ _
      · rfl

theorem calls_history {memory : UInt32 → Indeterminate} {k : UInt32} {ch : ChannelImpl F}
    {ds : List Delivery} (h : History memory k ch.channel_controller_ ds)
    (calls : List ChannelCall) :
    History memory k (calls.foldl call ch).channel_controller_ (ds++handedIn k ch calls) := by
  induction calls generalizing ch ds with
  | nil =>
    rw [handedIn, List.append_nil]
    exact h
  | cons c calls ih =>
    have hdrives : Drives ch.channel_controller_ ch := rfl
    have hcall : Drives _ (ch.call c) := publicCall_drives hdrives (.call c)
    have hstep := ChannelController.run_history h (ch.inputs (.call c))
    rw [inputs_handed] at hstep
    rw [handedIn, ← List.append_assoc]
    refine ih ⟨?_,?_,?_⟩ <;> rw [show (ch.call c).channel_controller_ = _ from hcall]
    · exact hstep.kept
    · exact hstep.since
    · exact hstep.absent

theorem construct_history (memory : UInt32 → Indeterminate) (k : UInt32) :
    History memory k (construct memory : ChannelImpl F).channel_controller_ [] :=
  ⟨rfl,fun _ hc => absurd ((Controllers.find_empty k).symm.trans hc) nofun,fun _ => rfl⟩

/-- After a channel reset every instrument that is not discontinued is restarted
exactly if what each was handed before it leaves it restartable. -/
theorem channel_reset (memory : UInt32 → Indeterminate) (calls : List ChannelCall) (p : Packet)
    (pre : List Message) (m : Message) (hm : m.templateId = 4) :
    let start : ChannelImpl F := construct memory
    let ch := calls.foldl call start
    let before := ch.onPacket .Incremental (withMessages p pre)
    let after := ch.onPacket .Incremental (withMessages p (pre++[m]))
    (∀ k c, after.channel_controller_.getInstrumentController k = some c →
      c.state_ ≠ .DISCONTINUED → after.Restarted k c) ↔
      ∀ k c, before.channel_controller_.getInstrumentController k = some c →
        InstrumentController.Restartable c.instrument_ (memory k)
          (handedIn k start (calls++[.OnPacket .Incremental (withMessages p pre)])) := by
  intro start ch before after
  have hsame : ∀ k, after.channel_controller_.getInstrumentController k =
      before.channel_controller_.getInstrumentController k := by
    intro k
    rw [onPacket_incremental_find, onPacket_incremental_find]
    exact ChannelController.onIncrementalPacket_reset _ p pre hm k
  have hafter : after.InOrder :=
    call_inOrder (.OnPacket .Incremental _) (calls_inOrder calls (construct_inOrder memory))
  have hhistory : ∀ k, History memory k before.channel_controller_
      (handedIn k start (calls++[.OnPacket .Incremental (withMessages p pre)])) := by
    intro k
    have hrun := calls_history (construct_history (F := F) memory k)
      (calls++[.OnPacket .Incremental (withMessages p pre)])
    rw [List.foldl_append] at hrun
    exact hrun
  constructor
  · intro hall k c hc
    have hrun := (hhistory k).since c hc
    have hlive : c.state_ ≠ .DISCONTINUED := by
      rw [hrun]
      exact InstrumentController.run_live _ _ _
    have hfresh := (hall k c ((hsame k).trans hc) hlive).fresh
    rw [hrun] at hfresh
    exact (InstrumentController.construct_fresh _ _ _).mp hfresh
  · intro hall k c hc _
    have hbefore := (hsame k).symm.trans hc
    have hfresh := (InstrumentController.construct_fresh (F := F) _ _ _).mpr (hall k c hbefore)
    rw [← (hhistory k).since c hbefore] at hfresh
    exact fresh_restarted hafter hc hfresh

def emptySnapshot : SnapshotFullRefresh38 where
  securityID := 7
  rptSeq := 0
  noMDEntries := [⟨⟨3,0⟩,40,0,.OpenInterest⟩]

theorem channel_reset_sample :
    let ch : ChannelImpl .exact := [ChannelCall.Subscribe sampleInstrument,
      .OnPacket .Snapshot ⟨1,[snapshotMessage emptySnapshot]⟩].foldl call
        (construct fun _ => ⟨0,false⟩)
    let after := ch.onPacket .Incremental (withMessages ⟨1,[]⟩ ([]++[{templateId := 4}]))
    ∃ c, after.channel_controller_.getInstrumentController 7 = some c ∧ after.Restarted 7 c := by
  intro ch after
  have hstate : (after.channel_controller_.getInstrumentController 7).map (fun c => c.state_) =
      some .SYNC := by decide +kernel
  obtain ⟨c,hc,hsync⟩ := Option.map_eq_some_iff.mp hstate
  have hlive : c.state_ ≠ .DISCONTINUED := hsync ▸ nofun
  refine ⟨c,hc,(channel_reset (F := .exact) (fun _ => ⟨0,false⟩) [.Subscribe sampleInstrument,
    .OnPacket .Snapshot ⟨1,[snapshotMessage emptySnapshot]⟩] ⟨1,[]⟩ [] {templateId := 4}
    rfl).mpr ?_ 7 c hc hlive⟩
  intro k c hc
  obtain rfl : k = 7 := by
    have hexists := (perform_exists _ (.incremental (withMessages ⟨1,[]⟩ [])) k).mp ⟨c,hc⟩
    have hbefore := (perform_exists _ (.snapshot ⟨1,[snapshotMessage emptySnapshot]⟩) k).mp hexists
    rcases (subscribe_exists _ _ k).mp hbefore with ⟨c',hc'⟩ | hkey
    · exact absurd ((Controllers.find_empty k).symm.trans hc') nofun
    · exact hkey.symm
  have hhanded : handedIn 7 (construct fun _ => ⟨0,false⟩ : ChannelImpl .exact)
      [.Subscribe sampleInstrument,.OnPacket .Snapshot ⟨1,[snapshotMessage emptySnapshot]⟩,
        .OnPacket .Incremental (withMessages ⟨1,[]⟩ [])] = [.snapshot emptySnapshot] := by
    decide +kernel
  refine ⟨[],emptySnapshot,[],hhanded,by simp,rfl,fun x e he hfirst => ?_,by simp⟩
  have hlisted : e ∈ emptySnapshot.noMDEntries := List.mem_of_mem_filter he
  obtain rfl := List.mem_singleton.mp hlisted
  exact absurd hfirst (by decide)

/-- The first entry of the session after a reset is ignored. -/
theorem channel_reset_ignored :
    let ch : ChannelImpl .exact := [ChannelCall.Subscribe sampleInstrument,
      .OnPacket .Incremental ⟨1,[bookMessage [newBid 7 1 100] true]⟩].foldl call
        (construct fun _ => ⟨0,false⟩)
    let after := ch.onPacket .Incremental ⟨2,[{templateId := 4}]⟩
    let later := after.onPacket .Incremental ⟨3,[bookMessage [newBid 7 1 105] true]⟩
    let seen := fun (ch : ChannelImpl .exact) =>
      (ch.channel_controller_.getInstrumentController 7).map fun c =>
        (c.state_,c.processed_rptseq_,c.mdhandler_.book_.bids_.levels_.length)
    seen after = some (.SYNC,1,1) ∧ seen later = some (.SYNC,1,1) := by
  decide

end ChannelImpl

end CmeFeed
