import CmeFeed.Feeds

/-!
# The snapshot feed under the hands of clients

Clients may start and stop every line. The registry does not mind, and as long
as nobody stops a snapshot line, an instrument that waits is listened for. To
stop all lines is to subscribe to the symbols that wait, which starts some of
the lines again.
-/

set_option autoImplicit false

namespace CmeFeed

open Reactive

variable {F : Floats}

namespace ChannelImpl

structure Listed (ch : ChannelImpl F) : Prop where
  nodup : ch.registry.Nodup
  listed : ∀ k, k ∈ ch.registry ↔
    ∃ c, ch.channel_controller_.getInstrumentController k = some c ∧ c.Waits

theorem InOrder.toListed {ch : ChannelImpl F} (h : ch.InOrder) : ch.Listed :=
  ⟨h.feed.nodup,h.listed⟩

theorem Listed.congr {ch ch' : ChannelImpl F} (h : ch.Listed) (hlogic : ch.logic = ch'.logic) :
    ch'.Listed := by
  have hcontroller := (logic_eq_iff.mp hlogic).2.1
  obtain ⟨hnodup,hlisted⟩ := h
  unfold registry at hnodup hlisted
  rw [hcontroller] at hnodup hlisted
  exact ⟨hnodup,hlisted⟩

def aligned (ch : ChannelImpl F) : ChannelImpl F :=
  {ch with snapshota_ := {joined_ := decide (ch.registry ≠ [])}
           snapshotb_ := {joined_ := decide (ch.registry ≠ [])}}

theorem aligned_inOrder {ch : ChannelImpl F} (h : ch.Listed) : ch.aligned.InOrder :=
  ⟨⟨h.nodup,rfl,decide_eq_true_iff⟩,h.listed⟩

theorem publicCall_listed {ch : ChannelImpl F} (h : ch.Listed) (c : PublicCall) :
    (ch.publicCall c).Listed := by
  have haligned : ch.logic = ch.aligned.logic := rfl
  have hlogic := publicCall_logic haligned c
  have hcalled : ∀ t : ChannelImpl F, t.InOrder → (ch.publicCall c).logic = t.logic →
      (ch.publicCall c).Listed := fun t ht heq => ht.toListed.congr heq.symm
  have hin := aligned_inOrder h
  cases c with
  | call c => exact hcalled _ (call_inOrder c hin) hlogic
  | StopAll => exact hcalled _ (stopInstrumentFeed_inOrder hin) hlogic
  | StopFeed type =>
    cases type with
    | Instrument => exact hcalled _ (stopInstrumentFeed_inOrder hin) hlogic
    | Snapshot => exact hcalled _ hin hlogic
    | Incremental => exact hcalled _ hin hlogic
  | _ => exact hcalled _ hin hlogic

def Served (ch : ChannelImpl F) : Prop := ch.registry ≠ [] → ch.isSnapshotFeedActive = true

theorem startSnapshotFeed_active (ch : ChannelImpl F) :
    ch.startSnapshotFeed.isSnapshotFeedActive = true := by
  unfold isSnapshotFeedActive MulticastReceiver.isActive
  rw [show ch.startSnapshotFeed.snapshota_.joined_ = true from MulticastReceiver.join_joined _,
    Bool.true_or]

theorem subscribeToSnapshots_active (ch : ChannelImpl F) (k : UInt32) :
    (ch.subscribeToSnapshotsForInstrument k).isSnapshotFeedActive = true := by
  unfold subscribeToSnapshotsForInstrument
  dsimp only
  split_ifs with hactive
  · exact startSnapshotFeed_active _
  · simpa using hactive

theorem execute_served {ch : ChannelImpl F} (h : ch.Served) (e : Effect F) :
    (ch.execute e).Served := by
  cases e with
  | SubscribeToSnapshotsForInstrument k => exact fun _ => subscribeToSnapshots_active ch k
  | UnsubscribeToSnapshotsForInstrument k =>
    change (ch.unsubscribeToSnapshotsForInstrument k).Served
    by_cases hk : k ∈ ch.registry
    · have hremove : ch.channel_controller_.removeOutOfSyncInstrument k =
          ({ch.channel_controller_ with outofsync_instruments_ := ch.registry.erase k},true) :=
        if_pos hk
      have hactive : (ch.withRegistry (ch.registry.erase k)).isSnapshotFeedActive = true :=
        h (List.ne_nil_of_mem hk)
      unfold unsubscribeToSnapshotsForInstrument
      rw [hremove]
      change Served (if (ch.withRegistry (ch.registry.erase k)).isSnapshotFeedActive = true then
        if (!decide (0 < (ch.registry.erase k).length)) = true then
          (ch.withRegistry (ch.registry.erase k)).stopSnapshotFeed
        else ch.withRegistry (ch.registry.erase k)
        else ch.withRegistry (ch.registry.erase k))
      rw [if_pos hactive]
      split_ifs with hlast
      · intro hne
        have hempty : ch.registry.erase k = [] := by simpa using hlast
        exact absurd hempty hne
      · exact fun _ => hactive
    · have hremove : ch.channel_controller_.removeOutOfSyncInstrument k =
          (ch.channel_controller_,false) := if_neg hk
      unfold unsubscribeToSnapshotsForInstrument
      rw [hremove]
      exact h
  | NotifyBookRefresh id book => exact h
  | packetGap expected seqnum => exact h

theorem foldl_execute_served {ch : ChannelImpl F} (h : ch.Served) (effects : List (Effect F)) :
    (effects.foldl execute ch).Served := by
  induction effects generalizing ch with
  | nil => exact h
  | cons e effects ih => exact ih (execute_served h e)

theorem perform_served {ch : ChannelImpl F} {r : ChannelController F × List (Effect F)}
    (h : ch.Served) (hregistry : r.1.outofsync_instruments_ = ch.registry) :
    (ch.perform r).Served := by
  apply foldl_execute_served
  intro hne
  exact h fun hnil => hne (hregistry.trans hnil)

theorem subscribe_served {ch : ChannelImpl F} (h : ch.Served) (i : Instrument) :
    (ch.subscribe i).Served := by
  have hregistry : (ch.channel_controller_.subscribe i).1.outofsync_instruments_ = ch.registry := by
    unfold ChannelController.subscribe
    cases ch.channel_controller_.getInstrumentController i.key <;> rfl
  exact perform_served h hregistry

theorem stopInstrumentFeed_served {ch : ChannelImpl F} (h : ch.Served) :
    ch.stopInstrumentFeed.Served := by
  have hpending : ∀ (symbols : List String) (t : ChannelImpl F), t.Served →
      (symbols.foldl (fun ch symbol =>
        ch.subscribe (ch.symbol_controller_.getInstrument symbol)) t).Served := by
    intro symbols
    induction symbols with
    | nil => exact fun _ ht => ht
    | cons symbol symbols ih => exact fun t ht => ih _ (subscribe_served ht _)
  exact hpending ch.pendingsubscription_
    {ch with instrumenta_ := ch.instrumenta_.leave, instrumentb_ := ch.instrumentb_.leave} h

theorem executeDownload_served {ch : ChannelImpl F} (h : ch.Served) (d : DownloadCall) :
    (ch.executeDownload d).Served := by
  cases d with
  | SubscribeInstrumentDownload => exact h
  | UnsubscribeInstrumentDownload => exact stopInstrumentFeed_served h

theorem foldl_executeDownload_served {ch : ChannelImpl F} (h : ch.Served)
    (ds : List DownloadCall) : (ds.foldl executeDownload ch).Served := by
  induction ds generalizing ch with
  | nil => exact h
  | cons d ds ih => exact ih (executeDownload_served h d)

theorem call_served {ch : ChannelImpl F} (h : ch.Served) (c : ChannelCall) :
    (ch.call c).Served := by
  cases c with
  | Subscribe inst => exact subscribe_served h inst
  | SubscribeSymbol symbol => exact h
  | OnPacket type data =>
    cases type with
    | Instrument => exact foldl_executeDownload_served (by exact h) _
    | Snapshot =>
      exact perform_served h (ChannelController.run_same
        ChannelController.handleSnapshotMessage_same ch.channel_controller_ data.messages).registry
    | Incremental => exact perform_served h (onIncrementalPacket_registry _ data)

def PublicCall.StopsSnapshots : PublicCall → Prop
  | .Stop type _ => type = .Snapshot
  | .StopFeed type => type = .Snapshot
  | .StopAll => True
  | _ => False

theorem start_served {ch : ChannelImpl F} (h : ch.Served) (type : FeedType) (feed : Feed) :
    (ch.start type feed).Served := by
  intro hne
  have hactive : ch.isSnapshotFeedActive = true := by
    apply h
    cases type <;> cases feed <;> exact hne
  unfold isSnapshotFeedActive MulticastReceiver.isActive at hactive ⊢
  cases type with
  | Snapshot =>
    have hjoined := MulticastReceiver.join_joined (ch.receiver .Snapshot feed)
    cases feed with
    | A => exact (congrArg (· || _) hjoined).trans (Bool.true_or _)
    | B => exact (congrArg (_ || ·) hjoined).trans (Bool.or_true _)
  | Incremental => cases feed <;> exact hactive
  | Instrument => cases feed <;> exact hactive

theorem publicCall_served {ch : ChannelImpl F} (h : ch.Served) {c : PublicCall}
    (hc : ¬c.StopsSnapshots) : (ch.publicCall c).Served := by
  cases c with
  | call c => exact call_served h c
  | Start type feed => exact start_served h type feed
  | Stop type feed =>
    cases type with
    | Snapshot => exact absurd rfl hc
    | Incremental => cases feed <;> exact h
    | Instrument => cases feed <;> exact h
  | StartFeed type =>
    cases type with
    | Snapshot => exact fun _ => startSnapshotFeed_active ch
    | Incremental => exact h
    | Instrument => exact h
  | StopFeed type =>
    cases type with
    | Snapshot => exact absurd rfl hc
    | Incremental => exact h
    | Instrument => exact stopInstrumentFeed_served h
  | StartAll => exact fun _ => startSnapshotFeed_active ch.startIncrementalFeed
  | StopAll => exact absurd trivial hc
  | Unsubscribe securityid => exact h
  | UnsubscribeSymbol symbol => exact h

theorem construct_served (memory : UInt32 → Indeterminate) :
    (construct memory : ChannelImpl F).Served :=
  fun hne => absurd rfl hne

/-- Whatever the clients of a channel do with its lines, the registry lists the
instruments in `INITIAL` and `OUTOFSYNC`, each once; and if no client stops a
snapshot line, one of the two is joined whenever such an instrument exists. -/
theorem waiting_served (memory : UInt32 → Indeterminate) (calls : List PublicCall) :
    let ch : ChannelImpl F := calls.foldl publicCall (construct memory)
    let cc := ch.channel_controller_
    cc.outofsync_instruments_.Nodup ∧
      (∀ k, k ∈ cc.outofsync_instruments_ ↔ ∃ c, cc.getInstrumentController k = some c ∧
        (c.state_ = .INITIAL ∨ c.state_ = .OUTOFSYNC)) ∧
      ((∀ c ∈ calls, ¬c.StopsSnapshots) →
        (∃ k c, cc.getInstrumentController k = some c ∧
          (c.state_ = .INITIAL ∨ c.state_ = .OUTOFSYNC)) →
        ch.snapshota_.isActive = true ∨ ch.snapshotb_.isActive = true) := by
  intro ch cc
  have hlisted : ∀ (calls : List PublicCall) (t : ChannelImpl F), t.Listed →
      (calls.foldl publicCall t).Listed := by
    intro calls
    induction calls with
    | nil => exact fun _ ht => ht
    | cons c calls ih => exact fun t ht => ih _ (publicCall_listed ht c)
  have hserved : ∀ (calls : List PublicCall) (t : ChannelImpl F),
      (∀ c ∈ calls, ¬c.StopsSnapshots) → t.Served → (calls.foldl publicCall t).Served := by
    intro calls
    induction calls with
    | nil => exact fun _ _ ht => ht
    | cons c calls ih =>
      intro t hcalls ht
      exact ih _ (fun x hx => hcalls x (by simp [hx]))
        (publicCall_served ht (hcalls c (by simp)))
  have hch : ch.Listed := hlisted calls _ (construct_inOrder memory).toListed
  refine ⟨hch.nodup,hch.listed,fun hcalls hwaits => ?_⟩
  obtain ⟨k,c,hc,hstate⟩ := hwaits
  have hmem : k ∈ ch.registry := (hch.listed k).mpr ⟨c,hc,hstate⟩
  have hactive : ch.isSnapshotFeedActive = true :=
    hserved calls _ hcalls (construct_served memory) (List.ne_nil_of_mem hmem)
  exact Bool.or_eq_true_iff.mp hactive

theorem waiting_served_sample :
    let ch : ChannelImpl .exact := [PublicCall.call (.Subscribe sampleInstrument),
      .Stop .Incremental .A].foldl publicCall (construct fun _ => ⟨0,false⟩)
    ch.snapshota_.isActive = true ∨ ch.snapshotb_.isActive = true :=
  (waiting_served (F := .exact) (fun _ => ⟨0,false⟩) [.call (.Subscribe sampleInstrument),
    .Stop .Incremental .A]).2.2 (by simp [PublicCall.StopsSnapshots]) ⟨7,_,rfl,Or.inl rfl⟩

instance (ch : ChannelImpl F) (k : UInt32) : Decidable (ch.Exists k) :=
  decidable_of_iff ((ch.channel_controller_.getInstrumentController k).isSome = true)
    Option.isSome_iff_exists

def BothJoined (ch : ChannelImpl F) (type : FeedType) (joined : Bool) : Prop :=
  ∀ feed, (ch.receiver type feed).joined_ = joined

theorem bothJoined_iff {ch : ChannelImpl F} {type : FeedType} {joined : Bool} :
    ch.BothJoined type joined ↔
      (ch.receiver type .A).joined_ = joined ∧ (ch.receiver type .B).joined_ = joined := by
  constructor
  · exact fun h => ⟨h .A,h .B⟩
  · rintro ⟨ha,hb⟩ feed
    cases feed
    · exact ha
    · exact hb

theorem subscribe_lines {ch : ChannelImpl F} {snapshots : Bool} (i : Instrument)
    (h : ch.BothJoined .Snapshot snapshots) (hinstrument : ch.BothJoined .Instrument false) :
    (ch.subscribe i).BothJoined .Incremental true ∧
      (ch.subscribe i).BothJoined .Snapshot (snapshots || !decide (ch.Exists i.key)) ∧
      (ch.subscribe i).BothJoined .Instrument false := by
  have hincremental : (ch.subscribe i).BothJoined .Incremental true :=
    bothJoined_iff.mpr ⟨MulticastReceiver.join_joined _,MulticastReceiver.join_joined _⟩
  obtain ⟨ha,hb⟩ := bothJoined_iff.mp h
  obtain ⟨hia,hib⟩ := bothJoined_iff.mp hinstrument
  refine ⟨hincremental,?_⟩
  by_cases hexists : ch.Exists i.key
  · obtain ⟨c,hc⟩ := hexists
    have hsame : ch.channel_controller_.subscribe i = (ch.channel_controller_,[]) := by
      unfold ChannelController.subscribe
      rw [hc]
    have hstart : ch.subscribe i = ch.startIncrementalFeed := by
      unfold subscribe perform
      rw [hsame]
      rfl
    have hold : ch.Exists i.key := ⟨c,hc⟩
    rw [decide_eq_true hold, Bool.not_true, Bool.or_false, hstart]
    exact ⟨bothJoined_iff.mpr ⟨ha,hb⟩,bothJoined_iff.mpr ⟨hia,hib⟩⟩
  · have hnone : ch.channel_controller_.getInstrumentController i.key = none := by
      rw [Option.eq_none_iff_forall_not_mem]
      exact fun c hc => hexists ⟨c,hc⟩
    rw [decide_eq_false hexists, Bool.not_false, Bool.or_true]
    unfold subscribe perform ChannelController.subscribe
    rw [hnone]
    dsimp only [InstrumentController.construct, List.foldl_cons, List.foldl_nil, execute,
      subscribeToSnapshotsForInstrument]
    split_ifs with hactive
    · exact ⟨bothJoined_iff.mpr ⟨MulticastReceiver.join_joined _,MulticastReceiver.join_joined _⟩,
        bothJoined_iff.mpr ⟨hia,hib⟩⟩
    · have hjoined : (ch.snapshota_.joined_ || ch.snapshotb_.joined_) = true := by
        rw [Bool.not_eq_true', Bool.not_eq_false] at hactive
        exact hactive
      have hboth : snapshots = true := by
        rw [show ch.snapshota_.joined_ = snapshots from ha,
          show ch.snapshotb_.joined_ = snapshots from hb, Bool.or_self] at hjoined
        exact hjoined
      rw [hboth] at ha hb
      exact ⟨bothJoined_iff.mpr ⟨ha,hb⟩,bothJoined_iff.mpr ⟨hia,hib⟩⟩

/-- The loop over the queue joins the incremental lines with its first symbol
and the snapshot lines with its first instrument that is new. -/
theorem drain_lines (symbols : List String) {ch : ChannelImpl F} {incrementals snapshots : Bool}
    (hi : ch.BothJoined .Incremental incrementals) (hs : ch.BothJoined .Snapshot snapshots)
    (hinstrument : ch.BothJoined .Instrument false) :
    let r := symbols.foldl (fun ch symbol =>
      ch.subscribe (ch.symbol_controller_.getInstrument symbol)) ch
    r.BothJoined .Incremental (incrementals || decide (symbols ≠ [])) ∧
      r.BothJoined .Snapshot
        (snapshots || decide (∃ s ∈ symbols, ¬ch.Exists (ch.keyOf s))) ∧
      r.BothJoined .Instrument false := by
  induction symbols generalizing ch incrementals snapshots with
  | nil => simpa using ⟨hi,hs,hinstrument⟩
  | cons symbol symbols ih =>
    obtain ⟨hi',hs',hinstrument'⟩ :=
      subscribe_lines (ch.symbol_controller_.getInstrument symbol) hs hinstrument
    obtain ⟨hirest,hsrest,hrest⟩ := ih hi' hs' hinstrument'
    have hsymbols := (subscribe_download ch (ch.symbol_controller_.getInstrument symbol)).1
    have hexists := subscribe_exists ch (ch.symbol_controller_.getInstrument symbol)
    refine ⟨?_,?_,hrest⟩
    · simpa using hirest
    · have hsame : (snapshots || !decide (ch.Exists (ch.keyOf symbol)) ||
            decide (∃ s ∈ symbols, ¬(ch.subscribe (ch.symbol_controller_.getInstrument
              symbol)).Exists ((ch.subscribe (ch.symbol_controller_.getInstrument
                symbol)).keyOf s))) =
          (snapshots || decide (∃ s ∈ symbol::symbols, ¬ch.Exists (ch.keyOf s))) := by
        simp only [keyOf, hsymbols, hexists, List.mem_cons, exists_eq_or_imp, not_or]
        by_cases hnew : ch.Exists (ch.symbol_controller_.getInstrument symbol).key
        · have hold : ∀ k, (¬ch.Exists k ∧ ¬(ch.symbol_controller_.getInstrument symbol).key = k) ↔
              ¬ch.Exists k := by
            intro k
            apply and_iff_left_of_imp
            rintro hk rfl
            exact hk hnew
          simp [hnew, hold]
        · simp [hnew]
      rw [← hsame]
      exact hsrest

theorem stopInstrumentFeed_lines {ch : ChannelImpl F} {incrementals snapshots : Bool}
    (hi : ch.BothJoined .Incremental incrementals) (hs : ch.BothJoined .Snapshot snapshots) :
    ch.stopInstrumentFeed.BothJoined .Incremental
        (incrementals || decide (ch.pendingsubscription_ ≠ [])) ∧
      ch.stopInstrumentFeed.BothJoined .Snapshot
        (snapshots || decide (∃ s ∈ ch.pendingsubscription_, ¬ch.Exists (ch.keyOf s))) ∧
      ch.stopInstrumentFeed.BothJoined .Instrument false := by
  let left : ChannelImpl F := {ch with
    instrumenta_ := ch.instrumenta_.leave
    instrumentb_ := ch.instrumentb_.leave}
  have hleft : left.BothJoined .Instrument false := bothJoined_iff.mpr
    ⟨MulticastReceiver.leave_joined _,MulticastReceiver.leave_joined _⟩
  obtain ⟨hia,hib⟩ := bothJoined_iff.mp hi
  obtain ⟨hsa,hsb⟩ := bothJoined_iff.mp hs
  have hincremental : left.BothJoined .Incremental incrementals := bothJoined_iff.mpr ⟨hia,hib⟩
  have hsnapshot : left.BothJoined .Snapshot snapshots := bothJoined_iff.mpr ⟨hsa,hsb⟩
  have hdrained := drain_lines left.pendingsubscription_ hincremental hsnapshot hleft
  simp only [bothJoined_iff] at hdrained ⊢
  exact hdrained

/-- After `StopAll` the instrument lines are left and the queue is empty, but the
incremental lines are joined if a symbol was waiting, and the snapshot lines
if one of them names an instrument the channel does not have: all six lines
are left exactly if no symbol was waiting. -/
theorem stopAll_lines (ch : ChannelImpl F) :
    ch.stopAll.pendingsubscription_ = [] ∧ ch.stopAll.BothJoined .Instrument false ∧
      ch.stopAll.BothJoined .Incremental (decide (ch.pendingsubscription_ ≠ [])) ∧
      ch.stopAll.BothJoined .Snapshot
        (decide (∃ s ∈ ch.pendingsubscription_, ¬ch.Exists (ch.keyOf s))) ∧
      ((∀ type, ch.stopAll.BothJoined type false) ↔ ch.pendingsubscription_ = []) := by
  have hlines : ∀ type, type ≠ .Instrument →
      ch.stopIncrementalFeed.stopSnapshotFeed.BothJoined type false := by
    intro type htype
    cases type with
    | Instrument => exact absurd rfl htype
    | Snapshot =>
      exact bothJoined_iff.mpr ⟨MulticastReceiver.leave_joined _,MulticastReceiver.leave_joined _⟩
    | Incremental =>
      exact bothJoined_iff.mpr ⟨MulticastReceiver.leave_joined _,MulticastReceiver.leave_joined _⟩
  obtain ⟨hincremental,hsnapshot,hinstrument⟩ :=
    stopInstrumentFeed_lines (hlines .Incremental nofun) (hlines .Snapshot nofun)
  have hqueue : ch.stopIncrementalFeed.stopSnapshotFeed.pendingsubscription_ =
      ch.pendingsubscription_ := rfl
  rw [Bool.false_or, hqueue] at hincremental hsnapshot
  refine ⟨rfl,hinstrument,hincremental,hsnapshot,?_,?_⟩
  · intro hall
    have hnone := (hincremental .A).symm.trans (hall .Incremental .A)
    simpa using hnone
  · intro hnone
    rw [hnone] at hincremental hsnapshot
    simp only [ne_eq, not_true_eq_false, decide_false, List.not_mem_nil, false_and,
      exists_false] at hincremental hsnapshot
    intro type
    cases type
    · exact hinstrument
    · exact hsnapshot
    · exact hincremental

end ChannelImpl

end CmeFeed
