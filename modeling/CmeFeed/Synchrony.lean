import CmeFeed.InstrumentView

/-!
# Publishing in and out of synchrony

A commit publishes on the pending-change flag alone, and a gap leaves the flag
as it is. The module follows the states in which entries open gaps and the
states in which the channel commits through messages, packets and runs.
-/

set_option autoImplicit false

namespace CmeFeed

open Reactive

variable {F : Floats}

inductive ChannelInput where
  | subscribe (instrument : Instrument)
  | packet (p : FeedPacket)

namespace InstrumentController

/-- A pending change is one of a synchronised book. -/
def Settled (c : InstrumentController F) : Prop :=
  c.mdhandler_.statechange_ = true → c.state_ = .SYNC

theorem deliver_settled (c : InstrumentController F) (d : Delivery) (hc : c.Settled)
    (hgap : ∀ e, d = .incremental e → c.OpensGap e → c.mdhandler_.statechange_ = false) :
    (c.deliver d).1.Settled := by
  rcases c.deliver_cases d with ⟨e,-,-,he⟩ | ⟨e,hd,hg,he⟩ | ⟨e,-,-,-,he⟩ | ⟨r,-,-,he⟩ |
    ⟨r,-,-,he⟩ | ⟨-,he⟩ <;> rw [he]
  · exact fun _ => rfl
  · intro hpending
    exact absurd ((hgap e hd hg).symm.trans hpending) nofun
  · exact hc
  · exact fun _ => rfl
  · exact hc
  · intro hpending
    exact absurd ((InstrumentMdHandler.commit_statechange _).symm.trans hpending) nofun

end InstrumentController

namespace ChannelController

def onInput (cc : ChannelController F) : ChannelInput → ChannelController F × List (Effect F)
  | .subscribe instrument => cc.subscribe instrument
  | .packet p => cc.onPacket p

def entryGaps (cc : ChannelController F) (e : Entry) : List (InstrumentController F) :=
  match cc.getInstrumentController e.securityID.toUInt32 with
  | some c => if c.OpensGap e then [c] else []
  | none => []

def messageGaps (cc : ChannelController F) (m : Message) : List (InstrumentController F) :=
  match m.incremental with
  | some message => observe onEntry entryGaps cc message.noMDEntries
  | none => []

def messageCommits (cc : ChannelController F) (m : Message) : List (ChannelController F) :=
  match m.incremental with
  | some message => if message.endOfEvent then [(run onEntry cc message.noMDEntries).1] else []
  | none => []

def overMessages {A : Type} (obs : ChannelController F → Message → List A)
    (cc : ChannelController F) : ChannelInput → List A
  | .packet (.incremental p) =>
    if cc.Processes p then
      observe onIncrementalMessage obs {cc with expectedseqnum_ := (p.seqnum+1).toNat} p.messages
    else []
  | _ => []

def gaps (cc : ChannelController F) (inputs : List ChannelInput) :
    List (InstrumentController F) := observe onInput (overMessages messageGaps) cc inputs

def commits (cc : ChannelController F) (inputs : List ChannelInput) :
    List (ChannelController F) := observe onInput (overMessages messageCommits) cc inputs

theorem onEntry_silent (cc : ChannelController F) (e : Entry) :
    notified (cc.onEntry e).2 = [] := by
  unfold onEntry
  rw [deliver_effects]
  cases cc.getInstrumentController e.securityID.toUInt32 with
  | some c => exact c.deliver_silent (.incremental e) nofun
  | none => rfl

theorem handleSnapshotMessage_silent (cc : ChannelController F) (m : Message) :
    notified (cc.handleSnapshotMessage m).2 = [] := by
  unfold handleSnapshotMessage
  dsimp only
  rw [deliver_effects]
  cases cc.getInstrumentController m.snapshotFullRefresh38.securityID.toUInt32 with
  | some c => exact c.deliver_silent (.snapshot m.snapshotFullRefresh38) nofun
  | none => rfl

theorem run_silent {I : Type}
    {step : ChannelController F → I → ChannelController F × List (Effect F)}
    (h : ∀ cc i, notified (step cc i).2 = []) (cc : ChannelController F) (is : List I) :
    notified (run step cc is).2 = [] := by
  rw [run_outputs_from step notified (fun b => [b]) (fun _ _ => []) notified_nil notified_append h,
    observe_inputs]
  simp

theorem onIncrementalMessage_notified (cc : ChannelController F) (m : Message) :
    notified (cc.onIncrementalMessage m).2 =
      (messageCommits cc m).flatMap fun t => notified t.commit.2 := by
  unfold messageCommits
  cases hm : m.incremental with
  | some message =>
    have hentries := run_silent onEntry_silent cc message.noMDEntries
    unfold onIncrementalMessage
    rw [hm]
    dsimp only [handleIncrementalMessage]
    cases message.endOfEvent with
    | true =>
      rw [if_pos rfl, if_pos rfl, notified_append, hentries, List.nil_append,
        List.flatMap_singleton]
    | false => exact hentries
  | none =>
    rw [(cc.onIncrementalMessage_other m hm).1]
    rfl

theorem onInput_notified (cc : ChannelController F) (input : ChannelInput) :
    notified (cc.onInput input).2 =
      (overMessages messageCommits cc input).flatMap fun t => notified t.commit.2 := by
  cases input with
  | subscribe instrument =>
    dsimp only [onInput, subscribe]
    cases cc.getInstrumentController instrument.key <;> rfl
  | packet p =>
    cases p with
    | snapshot p => exact run_silent handleSnapshotMessage_silent cc p.messages
    | incremental p =>
      dsimp only [onInput, onPacket, overMessages]
      by_cases h : cc.Processes p
      · have hmessages := run_outputs_from onIncrementalMessage notified _ messageCommits
          notified_nil notified_append onIncrementalMessage_notified
          {cc with expectedseqnum_ := (p.seqnum+1).toNat} p.messages
        rw [if_pos h, onIncrementalPacket_processed h, notified_append, gapReport_silent]
        exact (List.append_nil _).trans hmessages
      · rw [if_neg h, onIncrementalPacket_unprocessed h]
        rfl

theorem run_notified (cc : ChannelController F) (inputs : List ChannelInput) :
    notified (run onInput cc inputs).2 =
      (commits cc inputs).flatMap fun t => notified t.commit.2 :=
  run_outputs_from onInput notified _ (overMessages messageCommits) notified_nil notified_append
    onInput_notified cc inputs

def AllSettled (cc : ChannelController F) : Prop :=
  (∀ k, (cc.memory k).statechange_ = false) ∧
    ∀ k c, cc.getInstrumentController k = some c → c.Settled

def Quiet (c : InstrumentController F) : Prop := c.mdhandler_.statechange_ = false

theorem deliver_allSettled (cc : ChannelController F) (k : UInt32) (d : Delivery)
    (h : AllSettled cc)
    (hgap : ∀ c e, cc.getInstrumentController k = some c → d = .incremental e → c.OpensGap e →
      Quiet c) : AllSettled (cc.deliver k d).1 := by
  constructor
  · intro j
    rw [(cc.deliver_same k d).memory]
    exact h.1 j
  · intro j c hc
    rw [deliver_find] at hc
    split_ifs at hc with hk
    · obtain ⟨c₀,hc₀,rfl⟩ := Option.map_eq_some_iff.mp hc
      exact c₀.deliver_settled d (h.2 j c₀ hc₀) fun e hd hg => hgap c₀ e (hk ▸ hc₀) hd hg
    · exact h.2 j c hc

theorem onEntry_allSettled (cc : ChannelController F) (e : Entry) (h : AllSettled cc)
    (hgap : ∀ c ∈ entryGaps cc e, Quiet c) : AllSettled (cc.onEntry e).1 := by
  refine deliver_allSettled cc _ _ h fun c e' hc he hg => hgap c ?_
  obtain rfl : e = e' := Delivery.incremental.inj he
  unfold entryGaps
  rw [hc]
  dsimp only
  rw [if_pos hg]
  exact List.mem_singleton_self c

theorem commit_allSettled (cc : ChannelController F) (h : AllSettled cc) :
    AllSettled cc.commit.1 := by
  constructor
  · exact h.1
  · intro k c hc
    obtain ⟨c₀,hc₀,rfl⟩ := Option.map_eq_some_iff.mp ((Controllers.find_commit _ k).symm.trans hc)
    exact c₀.deliver_settled .commit (h.2 k c₀ hc₀) nofun

theorem onIncrementalMessage_allSettled (cc : ChannelController F) (m : Message)
    (h : AllSettled cc) (hgap : ∀ c ∈ messageGaps cc m, Quiet c) :
    AllSettled (cc.onIncrementalMessage m).1 ∧ ∀ t ∈ messageCommits cc m, AllSettled t := by
  unfold messageGaps at hgap
  unfold messageCommits
  cases hm : m.incremental with
  | some message =>
    rw [hm] at hgap
    unfold onIncrementalMessage
    rw [hm]
    have hentries : AllSettled (run onEntry cc message.noMDEntries).1 :=
      (observe_invariant onEntry entryGaps Quiet entryGaps AllSettled (fun _ => True)
        (fun t e ht hq => onEntry_allSettled t e ht hq) (fun _ _ _ _ _ _ => trivial) cc
        message.noMDEntries h hgap).1
    dsimp only [handleIncrementalMessage]
    cases message.endOfEvent with
    | true =>
      constructor
      · exact commit_allSettled _ hentries
      · intro t ht
        rw [List.mem_singleton.mp ht]
        exact hentries
    | false => exact ⟨hentries,fun t ht => absurd ht List.not_mem_nil⟩
  | none =>
    have hmemory := (cc.onIncrementalMessage_same m).memory
    have hfind := (cc.onIncrementalMessage_other m hm).2
    refine ⟨⟨fun k => hmemory ▸ h.1 k,fun k c hc => h.2 k c ((hfind k).symm.trans hc)⟩, ?_⟩
    exact fun t ht => absurd ht List.not_mem_nil

theorem subscribe_allSettled (cc : ChannelController F) (i : Instrument) (h : AllSettled cc) :
    AllSettled (cc.subscribe i).1 := by
  unfold subscribe
  cases hnew : cc.getInstrumentController i.key with
  | some c => exact h
  | none =>
    constructor
    · exact h.1
    · intro k c hc
      change Controllers.find _ k = some c at hc
      rw [Controllers.find_emplace _ _ _ _ _ hnew] at hc
      split_ifs at hc with hk
      · obtain rfl := Option.some.inj hc
        exact fun hpending => absurd ((h.1 i.key).symm.trans hpending) nofun
      · exact h.2 k c hc

theorem onInput_allSettled (cc : ChannelController F) (input : ChannelInput)
    (h : AllSettled cc) (hgap : ∀ c ∈ overMessages messageGaps cc input, Quiet c) :
    AllSettled (cc.onInput input).1 ∧
      ∀ t ∈ overMessages messageCommits cc input, AllSettled t := by
  cases input with
  | subscribe instrument =>
    exact ⟨cc.subscribe_allSettled instrument h,fun t ht => absurd ht List.not_mem_nil⟩
  | packet p =>
    cases p with
    | snapshot p =>
      have hrun := run_invariant handleSnapshotMessage (AllSettled (F := F)) (fun _ => True)
        (fun t m _ ht => deliver_allSettled t _ (.snapshot m.snapshotFullRefresh38) ht
          fun _ _ _ hd _ => absurd hd (by simp)) cc p.messages (fun _ _ => trivial) h
      exact ⟨hrun,fun t ht => absurd ht List.not_mem_nil⟩
    | incremental p =>
      dsimp only [onInput, onPacket, overMessages] at hgap ⊢
      by_cases hp : cc.Processes p
      · rw [if_pos hp] at hgap ⊢
        have hmessages := observe_invariant onIncrementalMessage messageGaps Quiet messageCommits
          AllSettled AllSettled (fun t m ht hq => (onIncrementalMessage_allSettled t m ht hq).1)
          (fun t m ht hq => (onIncrementalMessage_allSettled t m ht hq).2)
          {cc with expectedseqnum_ := (p.seqnum+1).toNat} p.messages h hgap
        rw [onIncrementalPacket_processed hp]
        exact hmessages
      · rw [if_neg hp, onIncrementalPacket_unprocessed hp]
        exact ⟨h,fun t ht => absurd ht List.not_mem_nil⟩

theorem commit_publishes {s : UInt32} {cc : ChannelController F}
    (h : notifiedOf s cc.commit.2 ≠ []) :
    ∃ c, cc.getInstrumentController s = some c ∧ c.mdhandler_.statechange_ = true := by
  have hbooks := (cc.commit_projects s).2
  unfold soloBooks at hbooks
  cases hc : cc.getInstrumentController s with
  | none =>
    rw [hc] at hbooks
    exact absurd hbooks h
  | some c =>
    rw [hc] at hbooks
    refine ⟨c,rfl, ?_⟩
    by_contra hquiet
    apply h
    rw [hbooks]
    simp only [run_singleton, InstrumentController.deliver, InstrumentController.commit,
      InstrumentMdHandler.commit, if_neg hquiet, notifiedOf_nil]

/-- All books a run passes to listeners are published by its commits, and if no
gap opens with a change pending, a commit publishes those of synchronised
instruments only. -/
theorem published_in_sync (memory : UInt32 → Indeterminate)
    (hmemory : ∀ k, (memory k).statechange_ = false) (inputs : List ChannelInput)
    (hgaps : ∀ c ∈ gaps ({memory := memory} : ChannelController F) inputs, Quiet c) :
    let fresh : ChannelController F := {memory := memory}
    notified (run onInput fresh inputs).2 =
        (commits fresh inputs).flatMap (fun cc => notified cc.commit.2) ∧
      ∀ cc ∈ commits fresh inputs, ∀ s, notifiedOf s cc.commit.2 ≠ [] →
        ∃ c, cc.getInstrumentController s = some c ∧ c.state_ = .SYNC := by
  intro fresh
  have hfresh : AllSettled fresh :=
    ⟨hmemory,fun k c hc => absurd ((Controllers.find_empty k).symm.trans hc) nofun⟩
  have hcommits := (observe_invariant onInput (overMessages messageGaps) Quiet
    (overMessages messageCommits) AllSettled AllSettled
    (fun t input ht hq => (onInput_allSettled t input ht hq).1)
    (fun t input ht hq => (onInput_allSettled t input ht hq).2) fresh inputs hfresh hgaps).2
  constructor
  · exact run_notified fresh inputs
  · intro cc hcc s hpublished
    obtain ⟨c,hc,hpending⟩ := commit_publishes hpublished
    exact ⟨c,hc,(hcommits cc hcc).2 s c hc hpending⟩

def gapInputs : List ChannelInput :=
  [.subscribe sampleInstrument,
    .packet (.incremental ⟨1,[bookMessage [newBid 7 1 101,newBid 7 3 103] true]⟩)]

/-- The partly updated book is published while the instrument is out of sync. -/
theorem gap_published :
    ∃ cc ∈ commits ({memory := fun _ => ⟨0,false⟩} : ChannelController .exact) gapInputs,
      notifiedOf 7 cc.commit.2 ≠ [] ∧
        ∃ c, cc.getInstrumentController 7 = some c ∧ c.state_ = .OUTOFSYNC := by
  exact ⟨_,List.mem_singleton_self _,List.cons_ne_nil _ _,_,rfl,rfl⟩

def inSyncInputs : List ChannelInput :=
  [.subscribe sampleInstrument,
    .packet (.incremental ⟨1,[bookMessage [newBid 7 1 101,newBid 7 2 103] true]⟩)]

theorem published_in_sync_sample :
    ∃ cc ∈ commits ({memory := fun _ => ⟨0,false⟩} : ChannelController .exact) inSyncInputs,
      notifiedOf 7 cc.commit.2 ≠ [] ∧
        ∃ c, cc.getInstrumentController 7 = some c ∧ c.state_ = .SYNC := by
  have hnone : gaps ({memory := fun _ => ⟨0,false⟩} : ChannelController .exact) inSyncInputs = [] :=
    rfl
  have hquiet : ∀ c ∈ gaps ({memory := fun _ => ⟨0,false⟩} : ChannelController .exact)
      inSyncInputs, Quiet c := by
    intro c hc
    rw [hnone] at hc
    exact absurd hc List.not_mem_nil
  have hsync := (published_in_sync (fun _ => ⟨0,false⟩) (fun _ => rfl) inSyncInputs hquiet).2
  exact ⟨_,List.mem_singleton_self _,nofun,hsync _ (List.mem_singleton_self _) 7 nofun⟩

end ChannelController

end CmeFeed
