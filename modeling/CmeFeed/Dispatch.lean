import CmeFeed.Publication
import CmeFeed.Registry

/-!
# Template ids and what hangs on them

The end of an event is a commit under the seven template ids that the incremental
path dispatches with a group of entries, and the snapshot path does not look at
the id at all. The module says exactly when this makes no difference.
-/

set_option autoImplicit false

namespace CmeFeed

open Reactive

variable {F : Floats}

namespace InstrumentController

theorem onSnapshot_moves {c : InstrumentController F} {r : SnapshotFullRefresh38}
    (h : c.Accepts r) : (c.onSnapshot r).1 ≠ c := by
  intro hsame
  rw [onSnapshot_accepted c r h] at hsame
  have hstate : InstrumentState.SYNC = c.state_ := congrArg InstrumentController.state_ hsame
  have hnumber : (r.rptSeq.toNat:ℤ) = c.processed_rptseq_ :=
    congrArg InstrumentController.processed_rptseq_ hsame
  rcases h with hinitial | ⟨-,hnew⟩
  · rw [hinitial] at hstate
    exact absurd hstate nofun
  · omega

end InstrumentController

namespace ChannelController

structure Alike (cc cc' : ChannelController F) : Prop where
  same : SameChannel cc cc'
  controllers : ∀ k, cc.getInstrumentController k = cc'.getInstrumentController k

theorem Alike.refl (cc : ChannelController F) : Alike cc cc := ⟨.refl cc,fun _ => rfl⟩

theorem SameChannel.symm {a b : ChannelController F} (h : SameChannel a b) : SameChannel b a :=
  ⟨h.expected.symm,h.registry.symm,h.memory.symm⟩

theorem deliver_alike {cc cc' : ChannelController F} (h : Alike cc cc') (k : UInt32)
    (d : Delivery) :
    Alike (cc.deliver k d).1 (cc'.deliver k d).1 ∧ (cc.deliver k d).2 = (cc'.deliver k d).2 := by
  refine ⟨⟨?_,fun s => ?_⟩,?_⟩
  · exact (cc.deliver_same k d).symm.trans (h.same.trans (cc'.deliver_same k d))
  · rw [deliver_find, deliver_find, h.controllers s]
  · rw [deliver_effects, deliver_effects, h.controllers k]

/-- The refresh that the bytes of a message show finds no controller that
accepts it. -/
def Harmless (cc : ChannelController F) (m : Message) : Prop :=
  ∀ c, cc.getInstrumentController m.snapshotFullRefresh38.securityID.toUInt32 = some c →
    ¬c.Accepts m.snapshotFullRefresh38

theorem handleSnapshotMessage_harmless {cc cc' : ChannelController F} (h : Alike cc cc')
    (m : Message) :
    (Alike (cc.handleSnapshotMessage m).1 cc' ∧ (cc.handleSnapshotMessage m).2 = []) ↔
      cc.Harmless m := by
  unfold handleSnapshotMessage
  dsimp only
  cases hc : cc.getInstrumentController m.snapshotFullRefresh38.securityID.toUInt32 with
  | none =>
    rw [deliver_absent hc]
    refine iff_of_true ⟨h,rfl⟩ fun c hsome => ?_
    exact absurd (hc.symm.trans hsome) nofun
  | some c =>
    have hupdate := deliver_update hc (.snapshot m.snapshotFullRefresh38)
    have hcontrollers := h.controllers
    constructor
    · rintro ⟨halike,-⟩ c' hc' haccepts
      obtain rfl := Option.some.inj (hc.symm.trans hc')
      have hstays := halike.controllers m.snapshotFullRefresh38.securityID.toUInt32
      rw [hupdate, if_pos rfl, ← hcontrollers, hc] at hstays
      exact InstrumentController.onSnapshot_moves haccepts (Option.some.inj hstays)
    · intro hharmless
      have hignored : c.deliver (.snapshot m.snapshotFullRefresh38) = (c,[]) :=
        c.onSnapshot_ignored _ (hharmless c hc)
      refine ⟨⟨?_,fun k => ?_⟩,?_⟩
      · exact (cc.deliver_same _ _).symm.trans h.same
      · rw [hupdate, hignored, ← hcontrollers]
        split_ifs with hk
        · rw [← hk, hc]
        · rfl
      · rw [deliver_effects, hc]
        exact congrArg Prod.snd hignored

def isSnapshot (m : Message) : Bool := decide (m.templateId = 38)

def withMessages (p : Packet) (messages : List Message) : Packet := {p with messages := messages}

/-- All along a packet of the snapshot feed the channel and what it asks for are
as if only the full refreshes had been there, exactly if every other message
shows, where it comes, a refresh that no controller accepts. -/
theorem snapshot_path (cc : ChannelController F) (p : Packet) :
    (∀ pre post, p.messages = pre++post →
      let all := cc.onSnapshotPacket (withMessages p pre)
      let refreshes := cc.onSnapshotPacket (withMessages p (pre.filter isSnapshot))
      Alike all.1 refreshes.1 ∧ all.2 = refreshes.2) ↔
      ∀ pre m post, p.messages = pre++m::post → m.templateId ≠ 38 →
        (cc.onSnapshotPacket (withMessages p pre)).1.Harmless m := by
  have hfilter := run_filter_iff handleSnapshotMessage isSnapshot Alike Harmless
    (fun s t m h => deliver_alike h m.snapshotFullRefresh38.securityID.toUInt32
      (.snapshot m.snapshotFullRefresh38))
    (fun _ _ m h => handleSnapshotMessage_harmless h m) cc cc p.messages (.refl cc)
  simp only [isSnapshot, decide_eq_false_iff_not] at hfilter
  exact hfilter

/-- A message of template 44 whose bytes show the id of an instrument that waits
for a snapshot. -/
theorem snapshot_path_foreign :
    let m : Message := {templateId := 44, snapshotFullRefresh38 := sampleSnapshot 5}
    let all := sampleChannel.onSnapshotPacket ⟨1,[m]⟩
    let refreshes := sampleChannel.onSnapshotPacket ⟨1,[m].filter isSnapshot⟩
    (all.1.getInstrumentController 7).map (fun c => c.state_) = some .SYNC ∧
      (refreshes.1.getInstrumentController 7).map (fun c => c.state_) = some .INITIAL := by
  decide

/-- The bit `endOfEvent` of the match event indicator. Nobody reads it under the
templates 39 and 43, whose layouts the messages leave out; `others` gives it. -/
def endOfEvent (others : Message → Bool) (m : Message) : Bool :=
  match m.incremental with
  | some message => message.endOfEvent
  | none => if m.templateId = 30 then m.securityStatus30.endOfEvent else others m

def Flushed (cc : ChannelController F) : Prop :=
  ∀ k c, cc.getInstrumentController k = some c → c.mdhandler_.statechange_ = false

theorem incremental_isSome (m : Message) :
    m.incremental.isSome = true ↔ m.templateId ∈ [32,33,34,35,36,42,37] := by
  unfold Message.incremental
  split_ifs <;> simp_all

theorem commit_flushed (cc : ChannelController F) : cc.commit.1.Flushed := by
  intro k c hc
  rw [show cc.commit.1.getInstrumentController k =
    (cc.getInstrumentController k).map fun c => c.commit.1 from Controllers.find_commit _ k] at hc
  obtain ⟨c₀,-,rfl⟩ := Option.map_eq_some_iff.mp hc
  exact InstrumentMdHandler.commit_statechange _

theorem onIncrementalMessage_flushed (others : Message → Bool) (cc : ChannelController F)
    {m : Message} (hend : endOfEvent others m = true) :
    (cc.onIncrementalMessage m).1.Flushed ↔
      m.templateId ∈ [32,33,34,35,36,42,37] ∨ cc.Flushed := by
  rw [← incremental_isSome]
  unfold endOfEvent at hend
  cases hm : m.incremental with
  | some message =>
    rw [hm] at hend
    refine iff_of_true ?_ (Or.inl rfl)
    unfold onIncrementalMessage
    rw [hm]
    dsimp only [handleIncrementalMessage] at hend ⊢
    rw [if_pos hend]
    exact commit_flushed _
  | none =>
    have hfind := (cc.onIncrementalMessage_other m hm).2
    unfold Flushed
    simp [hfind]

/-- Along any messages of the incremental feed, a message that ends an event
leaves no change pending exactly if it is dispatched to a handler that commits
or nothing was pending when it came. -/
theorem event_flushed (others : Message → Bool) (cc : ChannelController F) (ms : List Message) :
    (∀ pre m post, ms = pre++m::post → endOfEvent others m = true →
      (run onIncrementalMessage cc (pre++[m])).1.Flushed) ↔
      ∀ pre m post, ms = pre++m::post → endOfEvent others m = true →
        m.templateId ∈ [32,33,34,35,36,42,37] ∨ (run onIncrementalMessage cc pre).1.Flushed := by
  simp only [run_append_state, run_singleton]
  refine forall_congr' fun pre => forall_congr' fun m => forall_congr' fun post => ?_
  exact imp_congr_right fun _ => imp_congr_right fun hend =>
    onIncrementalMessage_flushed others (run onIncrementalMessage cc pre).1 hend

/-- A bid whose event ends with a status message is not published. -/
theorem event_flushed_status :
    let status : Message := {templateId := 30, securityStatus30 := {endOfEvent := true}}
    let r := run onIncrementalMessage sampleChannel [bookMessage [newBid 7 1 100] false,status]
    endOfEvent (fun _ => false) status = true ∧ notified r.2 = [] ∧
      (r.1.getInstrumentController 7).map (fun c => c.mdhandler_.statechange_) = some true := by
  decide

end ChannelController

end CmeFeed
