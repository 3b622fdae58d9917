import Mathlib.Data.List.Induction
import CmeFeed.SymbolController

/-!
# The download is a fold over packets in order

Between two resets the controller accepts the packets from number one on, and
its table is the fold of the definitions in them. The run ends in `DOWNLOADED`,
where it stays, having given up the feed once.
-/

set_option autoImplicit false

namespace CmeFeed

open Reactive

namespace SymbolController

def SameTable (c d : SymbolController) : Prop :=
  c.instruments_ = d.instruments_ ∧ c.processedreports_ = d.processedreports_

theorem SameTable.refl (c : SymbolController) : SameTable c c := ⟨rfl,rfl⟩

theorem SameTable.trans {c d e : SymbolController} (h : SameTable c d) (h' : SameTable d e) :
    SameTable c e := ⟨h.1.trans h'.1,h.2.trans h'.2⟩

theorem handleDefinition_same {c d : SymbolController} (h : SameTable c d)
    (x : MDInstrumentDefinition) :
    SameTable (c.handleDefinition x) (d.handleDefinition x) := by
  obtain ⟨hi,hp⟩ := h
  unfold handleDefinition
  rw [hi, hp]
  exact ⟨rfl,rfl⟩

theorem foldl_handleDefinition_same {c d : SymbolController} (h : SameTable c d)
    (xs : List MDInstrumentDefinition) :
    SameTable (xs.foldl handleDefinition c) (xs.foldl handleDefinition d) := by
  induction xs generalizing c d with
  | nil => exact h
  | cons x xs ih => exact ih (handleDefinition_same h x)

def given (calls : List DownloadCall) : ℕ := calls.count .UnsubscribeInstrumentDownload

structure Gives (c : SymbolController) (r : SymbolController × List DownloadCall) : Prop where
  frozen : c.state_ = .DOWNLOADED → r = (c,[])
  given : given r.2 = if c.state_ ≠ .DOWNLOADED ∧ r.1.state_ = .DOWNLOADED then 1 else 0

theorem gives_nothing (c : SymbolController) : Gives c (c,[]) :=
  ⟨fun _ => rfl,(if_neg fun h => h.1 h.2).symm⟩

theorem gives_trans {c : SymbolController} {r r' : SymbolController × List DownloadCall}
    (h : Gives c r) (h' : Gives r.1 r') : Gives c (r'.1,r.2++r'.2) := by
  have hsum : SymbolController.given (r.2++r'.2) =
      SymbolController.given r.2+SymbolController.given r'.2 := List.count_append
  refine ⟨fun hc => ?_, ?_⟩
  · have hr := h.frozen hc
    rw [h'.frozen (by rw [hr]; exact hc), hr]
    rfl
  · rw [hsum, h.given, h'.given]
    by_cases hr : r.1.state_ = .DOWNLOADED
    · have hr' : r'.1.state_ = .DOWNLOADED := by
        rw [h'.frozen hr]
        exact hr
      simp [hr, hr']
    · have hc : c.state_ ≠ .DOWNLOADED := by
        intro hc
        rw [h.frozen hc] at hr
        exact hr hc
      simp [hr, hc]

theorem run_gives {I : Type} {step : SymbolController → I → SymbolController × List DownloadCall}
    (h : ∀ c i, Gives c (step c i)) (c : SymbolController) (is : List I) :
    Gives c (run step c is) := by
  induction is generalizing c with
  | nil => exact gives_nothing c
  | cons i is ih => exact gives_trans (h c i) (ih _)

structure Handled (c : SymbolController) (defs : List MDInstrumentDefinition)
    (r : SymbolController × List DownloadCall) : Prop where
  gives : Gives c r
  expected : r.1.expectedseqnum_ = c.expectedseqnum_
  table : r.1.state_ ≠ .DOWNLOADED → SameTable r.1 (defs.foldl handleDefinition c)
  waiting : r.1.state_ = .INIT → c.state_ = .INIT ∧ defs = []

theorem handled_nothing (c : SymbolController) : Handled c [] (c,[]) :=
  ⟨gives_nothing c,rfl,fun _ => .refl c,fun h => ⟨h,rfl⟩⟩

theorem handleMessage_handled (c : SymbolController) (m : Message) :
    Handled c m.definition.toList (c.handleMessage m) := by
  unfold handleMessage
  cases m.definition with
  | none => exact handled_nothing c
  | some d =>
    obtain ⟨state,total,processed,expected,instruments⟩ := c
    cases state with
    | INIT => exact ⟨⟨nofun,rfl⟩,rfl,fun _ => ⟨rfl,rfl⟩,nofun⟩
    | DOWNLOADING =>
      dsimp only [onInstrument, Option.toList_some]
      split_ifs
      · exact ⟨⟨nofun,rfl⟩,rfl,fun h => absurd rfl h,nofun⟩
      · exact ⟨⟨nofun,rfl⟩,rfl,fun _ => ⟨rfl,rfl⟩,nofun⟩
    | DOWNLOADED => exact ⟨⟨fun _ => rfl,rfl⟩,rfl,fun h => absurd rfl h,nofun⟩

theorem handled_trans {c : SymbolController} {xs ys : List MDInstrumentDefinition}
    {r r' : SymbolController × List DownloadCall} (h : Handled c xs r) (h' : Handled r.1 ys r') :
    Handled c (xs++ys) (r'.1,r.2++r'.2) := by
  refine ⟨gives_trans h.gives h'.gives,h'.expected.trans h.expected,fun hr' => ?_,fun hr' => ?_⟩
  · have hr : r.1.state_ ≠ .DOWNLOADED := by
      intro hr
      rw [h'.gives.frozen hr] at hr'
      exact hr' hr
    rw [List.foldl_append]
    exact (h'.table hr').trans (foldl_handleDefinition_same (h.table hr) ys)
  · obtain ⟨hr,rfl⟩ := h'.waiting hr'
    obtain ⟨hc,rfl⟩ := h.waiting hr
    exact ⟨hc,rfl⟩

theorem run_handled (c : SymbolController) (ms : List Message) :
    Handled c (ms.filterMap Message.definition) (run handleMessage c ms) := by
  induction ms generalizing c with
  | nil => exact handled_nothing c
  | cons m ms ih =>
    have hdefs : (m::ms).filterMap Message.definition =
        m.definition.toList++ms.filterMap Message.definition := by
      cases hm : m.definition <;> simp [hm]
    rw [hdefs]
    exact handled_trans (handleMessage_handled c m) (ih _)

/-- The packet is handed to `HandlePacket`. -/
def Accepts (c : SymbolController) (packet : Packet) : Prop :=
  (packet.number:ℤ) = c.expected ∧ c.state_ ≠ .DOWNLOADED

def Restarts (c : SymbolController) (packet : Packet) : Prop :=
  c.expected < packet.number ∧ c.state_ = .DOWNLOADING

instance (c : SymbolController) (packet : Packet) : Decidable (c.Accepts packet) :=
  inferInstanceAs (Decidable (_ ∧ _))

instance (c : SymbolController) (packet : Packet) : Decidable (c.Restarts packet) :=
  inferInstanceAs (Decidable (_ ∧ _))

theorem onInstrumentPacket_accepted (c : SymbolController) (packet : Packet)
    (h : c.Accepts packet) :
    c.onInstrumentPacket packet =
      ({(run handleMessage c packet.messages).1 with
          expectedseqnum_ := (run handleMessage c packet.messages).1.expectedseqnum_+1},
        (run handleMessage c packet.messages).2) := by
  unfold onInstrumentPacket
  rw [if_pos (show (packet.number:ℤ) = c.expected ∧ c.state_ ≠ .DOWNLOADED from h)]
  dsimp only [handlePacket]
  split_ifs <;> simp only [run_nil, List.append_nil]

theorem onInstrumentPacket_restarted (c : SymbolController) (packet : Packet)
    (h : c.Restarts packet) : c.onInstrumentPacket packet = (initial,[]) := by
  have hnot : ¬((packet.number:ℤ) = c.expected ∧ c.state_ ≠ .DOWNLOADED) := by
    have := h.1
    omega
  unfold onInstrumentPacket
  rw [if_neg hnot, if_pos h.1, if_pos h.2]
  rfl

theorem onInstrumentPacket_ignored (c : SymbolController) (packet : Packet)
    (ha : ¬c.Accepts packet) (hr : ¬c.Restarts packet) :
    c.onInstrumentPacket packet = (c,[]) := by
  unfold onInstrumentPacket
  rw [if_neg (show ¬((packet.number:ℤ) = c.expected ∧ c.state_ ≠ .DOWNLOADED) from ha)]
  split_ifs with hahead hstate
  · exact absurd ⟨hahead,hstate⟩ hr
  · rfl
  · rfl

/-- What becomes of the packets accepted since the last reset. -/
def logged (c : SymbolController) (log : List Packet) (packet : Packet) : List Packet :=
  if c.Accepts packet then log++[packet] else if c.Restarts packet then [] else log

def accepted (c : SymbolController) (log : List Packet) : List Packet → List Packet
  | [] => log
  | p::ps => accepted (c.onInstrumentPacket p).1 (c.logged log p) ps

structure Holds (log : List Packet) (c : SymbolController) : Prop where
  numbers : log.map Packet.number = List.range' 1 log.length
  expected : c.expectedseqnum_ = log.length+1
  bounded : log.length ≤ 2^31-2
  table : SameTable c ((log.flatMap Packet.definitions).foldl handleDefinition initial)
  waiting : c.state_ = .INIT → log.flatMap Packet.definitions = []

theorem initial_holds : Holds [] initial :=
  ⟨rfl,rfl,by decide,.refl _,fun _ => rfl⟩

theorem expected_log {log : List Packet} {c : SymbolController} (h : Holds log c) :
    c.expected = log.length+1 := by
  have hb := h.bounded
  unfold expected
  rw [h.expected]
  omega

theorem onInstrumentPacket_gives (c : SymbolController) (packet : Packet) :
    Gives c (c.onInstrumentPacket packet) := by
  by_cases ha : c.Accepts packet
  · have hmessages := (run_handled c packet.messages).gives
    rw [onInstrumentPacket_accepted c packet ha]
    exact ⟨fun hc => absurd hc ha.2,hmessages.given⟩
  by_cases hr : c.Restarts packet
  · rw [onInstrumentPacket_restarted c packet hr]
    exact ⟨fun hc => absurd (hc.symm.trans hr.2) nofun,(if_neg fun h => nomatch h.2).symm⟩
  · rw [onInstrumentPacket_ignored c packet ha hr]
    exact gives_nothing c

theorem onInstrumentPacket_holds (c : SymbolController) (log : List Packet) (packet : Packet)
    (hp : packet.number ≤ 2^31-2) (h : c.state_ ≠ .DOWNLOADED → Holds log c)
    (hopen : (c.onInstrumentPacket packet).1.state_ ≠ .DOWNLOADED) :
    Holds (c.logged log packet) (c.onInstrumentPacket packet).1 := by
  by_cases ha : c.Accepts packet
  · have hlog := h ha.2
    have hmessages := run_handled c packet.messages
    have hnumber : packet.number = log.length+1 := by
      have := ha.1
      rw [expected_log hlog] at this
      omega
    rw [onInstrumentPacket_accepted c packet ha] at hopen ⊢
    rw [logged, if_pos ha]
    have htable := hmessages.table hopen
    have hlength : (log++[packet]).length = log.length+1 := by simp
    refine ⟨?_,?_,?_,?_,fun hs => ?_⟩
    · rw [List.map_append, hlog.numbers, hlength, List.range'_concat, List.map_singleton, hnumber,
        Nat.one_mul, Nat.add_comm 1]
    · dsimp only
      rw [hmessages.expected, hlog.expected, hlength]
      omega
    · omega
    · rw [List.flatMap_append, List.flatMap_singleton, List.foldl_append]
      exact htable.trans (foldl_handleDefinition_same hlog.table _)
    · obtain ⟨hc,hdefs⟩ := hmessages.waiting hs
      rw [List.flatMap_append, List.flatMap_singleton, hlog.waiting hc]
      exact hdefs
  by_cases hr : c.Restarts packet
  · rw [onInstrumentPacket_restarted c packet hr, logged, if_neg ha, if_pos hr]
    exact initial_holds
  · rw [onInstrumentPacket_ignored c packet ha hr] at hopen ⊢
    rw [logged, if_neg ha, if_neg hr]
    exact h hopen

theorem run_holds (c : SymbolController) (log : List Packet) (packets : List Packet)
    (hps : ∀ p ∈ packets, p.number ≤ 2^31-2) (h : c.state_ ≠ .DOWNLOADED → Holds log c) :
    (run onInstrumentPacket c packets).1.state_ ≠ .DOWNLOADED →
      Holds (accepted c log packets) (run onInstrumentPacket c packets).1 := by
  induction packets generalizing c log with
  | nil => exact h
  | cons p ps ih =>
    exact ih _ _ (fun q hq => hps q (by simp [hq]))
      (onInstrumentPacket_holds c log p (hps p (by simp)) h)

theorem run_downloaded (c : SymbolController) (h : c.state_ = .DOWNLOADED)
    (packets : List Packet) : run onInstrumentPacket c packets = (c,[]) :=
  (run_gives onInstrumentPacket_gives c packets).frozen h

/-- The download as a fold: until it is complete the accepted packets are those
from number one on and the table is that of their definitions, a gap starts it
again, and once complete it stays as it is, the feed given up once. -/
theorem download_fold (packets : List Packet)
    (hps : ∀ p ∈ packets, p.number ≤ 2^31-2) :
    let r := run onInstrumentPacket construct.1 packets
    let log := accepted construct.1 [] packets
    (r.1.state_ ≠ .DOWNLOADED →
      1 ≤ r.1.expectedseqnum_ ∧
      log.map Packet.number = List.range' 1 (r.1.expectedseqnum_-1).toNat ∧
      SameTable r.1 ((log.flatMap Packet.definitions).foldl handleDefinition construct.1)) ∧
    (∀ p, r.1.state_ = .DOWNLOADING → r.1.expectedseqnum_ < p.number →
      r.1.onInstrumentPacket p = (initial,[])) ∧
    (r.1.state_ = .DOWNLOADED → ∀ later, run onInstrumentPacket r.1 later = (r.1,[])) ∧
    given (construct.2++r.2) = if r.1.state_ = .DOWNLOADED then 1 else 0 := by
  intro r log
  have hholds : r.1.state_ ≠ .DOWNLOADED → Holds log r.1 :=
    run_holds construct.1 [] packets hps fun _ => initial_holds
  refine ⟨fun hs => ?_,fun p hs hahead => ?_,fun hs later => run_downloaded r.1 hs later, ?_⟩
  · have hlog := hholds hs
    have hlength : (r.1.expectedseqnum_-1).toNat = log.length := by
      rw [hlog.expected]
      omega
    refine ⟨?_,?_,hlog.table⟩
    · rw [hlog.expected]
      omega
    · rw [hlength]
      exact hlog.numbers
  · have hlog := hholds (by rw [hs]; nofun)
    refine onInstrumentPacket_restarted r.1 p ⟨?_,hs⟩
    rw [hlog.expected] at hahead
    rw [expected_log hlog]
    exact hahead
  · have hgiven := (run_gives onInstrumentPacket_gives construct.1 packets).given
    have hstart : construct.1.state_ ≠ .DOWNLOADED := nofun
    have hsum : given (construct.2++r.2) = given construct.2+given r.2 := List.count_append
    rw [hsum, show given construct.2 = 0 from rfl, Nat.zero_add]
    simpa only [hstart, ne_eq, not_false_eq_true, true_and] using hgiven

def sampleDefinition (symbol : String) : Message where
  templateId := 27
  mDInstrumentDefinitionFuture27 := {totNumReports := 2, symbol := symbol}

theorem download_fold_sample :
    given (construct.2++(run onInstrumentPacket construct.1
      [⟨1,[sampleDefinition "ESH8"]⟩,⟨3,[]⟩,⟨1,[sampleDefinition "ESH8"]⟩,
        ⟨2,[sampleDefinition "ESM8"]⟩,⟨1,[sampleDefinition "ESH8"]⟩]).2) = 1 :=
  (download_fold [⟨1,[sampleDefinition "ESH8"]⟩,⟨3,[]⟩,⟨1,[sampleDefinition "ESH8"]⟩,
    ⟨2,[sampleDefinition "ESM8"]⟩,⟨1,[sampleDefinition "ESH8"]⟩] (by decide)).2.2.2.trans
      (if_pos (by decide))

end SymbolController

end CmeFeed
