import CmeFeed.ChannelImpl
import CmeFeed.InstrumentView

/-!
# The registry of waiting instruments and the snapshot feed

An instrument asks for the snapshot feed when it is created and when it falls
out of sync, and gives it up on every way into `SYNC`. The registry follows the
states of all instruments, and the two snapshot receivers follow the registry.
-/

set_option autoImplicit false

namespace CmeFeed

open Reactive

variable {F : Floats}

namespace InstrumentController

def Waits (c : InstrumentController F) : Prop := c.state_ = .INITIAL ∨ c.state_ = .OUTOFSYNC

end InstrumentController

namespace MulticastReceiver

variable {D : Type}

theorem join_joined (r : MulticastReceiver D) : r.join.joined_ = true := by
  unfold join
  by_cases hj : r.joined_ = true
  · rw [if_pos hj]
    exact hj
  · rw [if_neg hj]
    rfl

theorem leave_joined (r : MulticastReceiver D) : r.leave.joined_ = false := by
  unfold leave
  split_ifs with hj
  · rfl
  · simpa using hj

end MulticastReceiver

namespace ChannelImpl

def registry (ch : ChannelImpl F) : List UInt32 := ch.channel_controller_.outofsync_instruments_

structure FeedFollows (ch : ChannelImpl F) : Prop where
  nodup : ch.registry.Nodup
  lines : ch.snapshota_.joined_ = ch.snapshotb_.joined_
  joined : ch.snapshota_.joined_ = true ↔ ch.registry ≠ []

structure Kept (cc : ChannelController F) (ch : ChannelImpl F) : Prop where
  feed : ch.FeedFollows
  listed : ∀ k, k ∈ ch.registry ↔ ∃ c, cc.getInstrumentController k = some c ∧ c.Waits

theorem isSnapshotFeedActive_eq {ch : ChannelImpl F} (h : ch.FeedFollows) :
    ch.isSnapshotFeedActive = ch.snapshota_.joined_ := by
  unfold isSnapshotFeedActive MulticastReceiver.isActive
  rw [← h.lines, Bool.or_self]

def withRegistry (ch : ChannelImpl F) (ids : List UInt32) : ChannelImpl F :=
  {ch with channel_controller_ := {ch.channel_controller_ with outofsync_instruments_ := ids}}

theorem withRegistry_active {ch : ChannelImpl F} (h : ch.FeedFollows) (ids : List UInt32) :
    (ch.withRegistry ids).isSnapshotFeedActive = decide (ch.registry ≠ []) := by
  rw [show (ch.withRegistry ids).isSnapshotFeedActive = ch.isSnapshotFeedActive from rfl,
    isSnapshotFeedActive_eq h, Bool.eq_iff_iff, decide_eq_true_iff]
  exact h.joined

theorem subscribeToSnapshots_eq {ch : ChannelImpl F} (k : UInt32) (h : ch.FeedFollows) :
    ch.subscribeToSnapshotsForInstrument k =
      if k ∈ ch.registry then ch
      else if ch.registry = [] then (ch.withRegistry [k]).startSnapshotFeed
      else ch.withRegistry (ch.registry++[k]) := by
  have hadd : ∀ ids, ch.channel_controller_.addOutOfSyncInstrument k =
      {ch.channel_controller_ with outofsync_instruments_ := ids} →
        ch.subscribeToSnapshotsForInstrument k =
          if ch.registry = [] then (ch.withRegistry ids).startSnapshotFeed
          else ch.withRegistry ids := by
    intro ids hids
    unfold subscribeToSnapshotsForInstrument
    rw [hids]
    change (if (!(ch.withRegistry ids).isSnapshotFeedActive) = true then
      (ch.withRegistry ids).startSnapshotFeed else ch.withRegistry ids) = _
    rw [withRegistry_active h]
    by_cases hr : ch.registry = [] <;> simp [hr]
  by_cases hk : k ∈ ch.registry
  · rw [if_pos hk, hadd ch.registry (if_pos hk), if_neg (List.ne_nil_of_mem hk)]
    rfl
  · rw [if_neg hk, hadd (ch.registry++[k]) (if_neg hk)]
    by_cases hr : ch.registry = []
    · rw [if_pos hr, if_pos hr, hr, List.nil_append]
    · rw [if_neg hr, if_neg hr]

theorem unsubscribeToSnapshots_eq {ch : ChannelImpl F} (k : UInt32) (h : ch.FeedFollows) :
    ch.unsubscribeToSnapshotsForInstrument k =
      if k ∈ ch.registry then
        if ch.registry.erase k = [] then (ch.withRegistry []).stopSnapshotFeed
        else ch.withRegistry (ch.registry.erase k)
      else ch := by
  unfold unsubscribeToSnapshotsForInstrument
  by_cases hk : k ∈ ch.registry
  · have hremove : ch.channel_controller_.removeOutOfSyncInstrument k =
        ({ch.channel_controller_ with outofsync_instruments_ := ch.registry.erase k},true) :=
      if_pos hk
    rw [if_pos hk, hremove]
    change (if (ch.withRegistry (ch.registry.erase k)).isSnapshotFeedActive = true then
      if (!decide (0 < (ch.registry.erase k).length)) = true then
        (ch.withRegistry (ch.registry.erase k)).stopSnapshotFeed
      else ch.withRegistry (ch.registry.erase k)
      else ch.withRegistry (ch.registry.erase k)) = _
    rw [withRegistry_active h, if_pos (by simpa using List.ne_nil_of_mem hk)]
    by_cases hr : ch.registry.erase k = []
    · rw [hr]
      rfl
    · rw [if_neg hr, decide_eq_true (List.length_pos_iff.mpr hr)]
      rfl
  · have hremove : ch.channel_controller_.removeOutOfSyncInstrument k =
        (ch.channel_controller_,false) := if_neg hk
    rw [if_neg hk, hremove]
    rfl

theorem subscribeToSnapshots_spec {ch : ChannelImpl F} (k : UInt32) (h : ch.FeedFollows) :
    (ch.subscribeToSnapshotsForInstrument k).FeedFollows ∧
      ∀ j, j ∈ (ch.subscribeToSnapshotsForInstrument k).registry ↔ j ∈ ch.registry ∨ j = k := by
  rw [subscribeToSnapshots_eq k h]
  split_ifs with hk hr
  · have hmem : ∀ j, j ∈ ch.registry ↔ j ∈ ch.registry ∨ j = k := by
      intro j
      constructor
      · exact Or.inl
      · rintro (hj | rfl)
        · exact hj
        · exact hk
    exact ⟨h,hmem⟩
  · constructor
    · constructor
      · exact List.pairwise_singleton _ k
      · exact (MulticastReceiver.join_joined _).trans (MulticastReceiver.join_joined _).symm
      · exact iff_of_true (MulticastReceiver.join_joined _) (List.cons_ne_nil k [])
    · intro j
      rw [hr]
      change j ∈ [k] ↔ _
      simp
  · have hnew : ∀ a ∈ ch.registry, ∀ b ∈ [k], a ≠ b := by
      rintro a ha b hb rfl
      exact hk (List.mem_singleton.mp hb ▸ ha)
    have hne : ch.registry++[k] ≠ [] := List.append_ne_nil_of_left_ne_nil hr [k]
    constructor
    · constructor
      · exact List.nodup_append.mpr ⟨h.nodup,List.pairwise_singleton _ k,hnew⟩
      · exact h.lines
      · exact iff_of_true (h.joined.mpr hr) hne
    · intro j
      change j ∈ ch.registry++[k] ↔ _
      simp

theorem unsubscribeToSnapshots_spec {ch : ChannelImpl F} (k : UInt32) (h : ch.FeedFollows) :
    (ch.unsubscribeToSnapshotsForInstrument k).FeedFollows ∧
      ∀ j, j ∈ (ch.unsubscribeToSnapshotsForInstrument k).registry ↔
        j ∈ ch.registry ∧ j ≠ k := by
  have hmem : ∀ j, j ∈ ch.registry.erase k ↔ j ∈ ch.registry ∧ j ≠ k := by
    intro j
    rw [h.nodup.mem_erase_iff, and_comm]
  rw [unsubscribeToSnapshots_eq k h]
  split_ifs with hk hr
  · constructor
    · constructor
      · exact List.Pairwise.nil
      · exact (MulticastReceiver.leave_joined _).trans (MulticastReceiver.leave_joined _).symm
      · apply iff_of_false
        · intro hj
          exact absurd ((MulticastReceiver.leave_joined _).symm.trans hj) nofun
        · exact fun hne => hne rfl
    · intro j
      rw [← hmem, hr]
      rfl
  · have hjoined := h.joined.mpr (List.ne_nil_of_mem hk)
    exact ⟨⟨h.nodup.erase k,h.lines,iff_of_true hjoined hr⟩,hmem⟩
  · have hother : ∀ j, j ∈ ch.registry ↔ j ∈ ch.registry ∧ j ≠ k := by
      intro j
      constructor
      · intro hj
        constructor
        · exact hj
        · rintro rfl
          exact hk hj
      · exact fun hj => hj.1
    exact ⟨h,hother⟩

theorem execute_find (ch : ChannelImpl F) (e : Effect F) (k : UInt32) :
    (ch.execute e).channel_controller_.getInstrumentController k =
      ch.channel_controller_.getInstrumentController k := by
  cases e with
  | SubscribeToSnapshotsForInstrument j =>
    dsimp only [execute, subscribeToSnapshotsForInstrument,
      ChannelController.addOutOfSyncInstrument]
    split_ifs <;> rfl
  | UnsubscribeToSnapshotsForInstrument j =>
    dsimp only [execute, unsubscribeToSnapshotsForInstrument,
      ChannelController.removeOutOfSyncInstrument]
    split_ifs <;> rfl
  | NotifyBookRefresh id book => rfl
  | packetGap expected seqnum => rfl

theorem foldl_execute_find (ch : ChannelImpl F) (effects : List (Effect F)) (k : UInt32) :
    (effects.foldl execute ch).channel_controller_.getInstrumentController k =
      ch.channel_controller_.getInstrumentController k := by
  induction effects generalizing ch with
  | nil => rfl
  | cons e effects ih => exact (ih _).trans (execute_find ch e k)

theorem foldl_execute_commit (c : InstrumentController F) (ch : ChannelImpl F) :
    c.commit.2.foldl execute ch = ch := by
  unfold InstrumentController.commit InstrumentMdHandler.commit
  split_ifs <;> rfl

theorem foldl_execute_gapReport (cc : ChannelController F) (p : Packet) (ch : ChannelImpl F) :
    (cc.gapReport p).foldl execute ch = ch := by
  unfold ChannelController.gapReport
  split_ifs <;> rfl

theorem kept_enter {cc cc' : ChannelController F} {ch : ChannelImpl F} {k : UInt32}
    {c : InstrumentController F} (h : Kept cc ch)
    (hfind : ∀ j, cc'.getInstrumentController j =
      if k = j then some c else cc.getInstrumentController j) (hc : c.Waits) :
    Kept cc' (ch.execute (.SubscribeToSnapshotsForInstrument k)) := by
  obtain ⟨hfeed,hmem⟩ := subscribeToSnapshots_spec k h.feed
  constructor
  · exact hfeed
  · intro j
    rw [hfind j]
    refine (hmem j).trans ?_
    by_cases hj : k = j
    · rw [if_pos hj]
      exact iff_of_true (Or.inr hj.symm) ⟨c,rfl,hc⟩
    · rw [if_neg hj, h.listed j]
      exact or_iff_left fun hk => hj hk.symm

theorem kept_leave {cc cc' : ChannelController F} {ch : ChannelImpl F} {k : UInt32}
    {c : InstrumentController F} (h : Kept cc ch)
    (hfind : ∀ j, cc'.getInstrumentController j =
      if k = j then some c else cc.getInstrumentController j) (hc : ¬c.Waits) :
    Kept cc' (ch.execute (.UnsubscribeToSnapshotsForInstrument k)) := by
  obtain ⟨hfeed,hmem⟩ := unsubscribeToSnapshots_spec k h.feed
  constructor
  · exact hfeed
  · intro j
    rw [hfind j]
    refine (hmem j).trans ?_
    by_cases hj : k = j
    · rw [if_pos hj]
      apply iff_of_false
      · exact fun hk => hk.2 hj.symm
      · rintro ⟨c',hc',hwaits⟩
        obtain rfl := Option.some.inj hc'
        exact hc hwaits
    · rw [if_neg hj, h.listed j]
      exact and_iff_left fun hk => hj hk.symm

theorem kept_stay {cc cc' : ChannelController F} {ch : ChannelImpl F} (h : Kept cc ch)
    (hfind : ∀ j, (∃ c, cc'.getInstrumentController j = some c ∧ c.Waits) ↔
      ∃ c, cc.getInstrumentController j = some c ∧ c.Waits) : Kept cc' ch :=
  ⟨h.feed,fun j => (h.listed j).trans (hfind j).symm⟩

theorem kept_same {cc cc' : ChannelController F} {ch : ChannelImpl F} {k : UInt32}
    {c c' : InstrumentController F} (h : Kept cc ch) (hc : cc.getInstrumentController k = some c)
    (hfind : ∀ j, cc'.getInstrumentController j =
      if k = j then some c' else cc.getInstrumentController j) (hstate : c'.state_ = c.state_) :
    Kept cc' ch := by
  apply kept_stay h
  intro j
  rw [hfind j]
  by_cases hj : k = j
  · subst hj
    rw [if_pos rfl, hc]
    simp only [Option.some.injEq, exists_eq_left', InstrumentController.Waits, hstate]
  · rw [if_neg hj]

theorem kept_resync {cc cc' : ChannelController F} {ch : ChannelImpl F} {k : UInt32}
    {c c' : InstrumentController F} (h : Kept cc ch) (hc : cc.getInstrumentController k = some c)
    (hfind : ∀ j, cc'.getInstrumentController j =
      if k = j then some c' else cc.getInstrumentController j) (hsync : c'.state_ = .SYNC) :
    Kept cc' (c.resync.foldl execute ch) := by
  unfold InstrumentController.resync
  by_cases hs : c.state_ = .SYNC
  · rw [if_pos hs]
    exact kept_same h hc hfind (hsync.trans hs.symm)
  · rw [if_neg hs, (cc.instrument_controllers_.keyed k c hc).1]
    apply kept_leave h hfind
    unfold InstrumentController.Waits
    rw [hsync]
    simp

/-- A delivery enters the registry, leaves it or does neither, as the state of
the controller requires. -/
theorem deliver_kept {cc : ChannelController F} {ch : ChannelImpl F} (k : UInt32) (d : Delivery)
    (h : Kept cc ch) : Kept (cc.deliver k d).1 ((cc.deliver k d).2.foldl execute ch) := by
  cases hc : cc.getInstrumentController k with
  | none =>
    rw [ChannelController.deliver_absent hc]
    exact h
  | some c =>
    have hfind := ChannelController.deliver_update hc d
    have heffects : (cc.deliver k d).2 = (c.deliver d).2 := by
      rw [ChannelController.deliver_effects, hc]
    have hkey : c.instrument_.key = k := (cc.instrument_controllers_.keyed k c hc).1
    rw [heffects]
    rcases c.deliver_cases d with ⟨e,-,-,he⟩ | ⟨e,-,-,he⟩ | ⟨e,-,-,-,he⟩ | ⟨r,-,-,he⟩ |
      ⟨r,-,-,he⟩ | ⟨-,he⟩
    · rw [show (c.deliver d).2 = c.resync by rw [he]]
      exact kept_resync h hc hfind (by rw [he])
    · rw [show (c.deliver d).2 = [.SubscribeToSnapshotsForInstrument k] by rw [he, ← hkey]]
      exact kept_enter h hfind (Or.inr (by rw [he]))
    · rw [show (c.deliver d).2 = [] by rw [he]]
      exact kept_same h hc hfind (by rw [he])
    · rw [show (c.deliver d).2 = c.resync by rw [he]]
      exact kept_resync h hc hfind (by rw [he])
    · rw [show (c.deliver d).2 = [] by rw [he]]
      exact kept_same h hc hfind (by rw [he])
    · rw [show (c.deliver d).2 = c.commit.2 by rw [he], foldl_execute_commit]
      exact kept_same h hc hfind (by rw [he]; rfl)

theorem commit_kept {cc : ChannelController F} {ch : ChannelImpl F} (h : Kept cc ch) :
    Kept cc.commit.1 (cc.commit.2.foldl execute ch) := by
  have hsilent : cc.commit.2.foldl execute ch = ch := by
    have hall : ∀ l : List (UInt32 × InstrumentController F),
        (l.flatMap fun p => p.2.commit.2).foldl execute ch = ch := by
      intro l
      induction l with
      | nil => rfl
      | cons p l ih => rw [List.flatMap_cons, List.foldl_append, foldl_execute_commit, ih]
    exact hall _
  rw [hsilent]
  apply kept_stay h
  intro j
  rw [show cc.commit.1.getInstrumentController j =
    (cc.getInstrumentController j).map fun c => c.commit.1 from Controllers.find_commit _ j]
  cases cc.getInstrumentController j with
  | none => rfl
  | some c => simp [InstrumentController.Waits, InstrumentController.commit]

theorem onIncrementalMessage_kept {cc : ChannelController F} {ch : ChannelImpl F} (m : Message)
    (h : Kept cc ch) :
    Kept (cc.onIncrementalMessage m).1 ((cc.onIncrementalMessage m).2.foldl execute ch) := by
  cases hm : m.incremental with
  | some message =>
    have hentries := run_executed ChannelController.onEntry execute Kept (fun _ => True)
      (fun _ _ e _ ht => deliver_kept e.securityID.toUInt32 (.incremental e) ht) cc ch
      message.noMDEntries (fun _ _ => trivial) h
    unfold ChannelController.onIncrementalMessage
    rw [hm]
    dsimp only [ChannelController.handleIncrementalMessage]
    cases message.endOfEvent with
    | true =>
      rw [if_pos rfl, List.foldl_append]
      exact commit_kept hentries
    | false => exact hentries
  | none =>
    obtain ⟨heffects,hfind⟩ := cc.onIncrementalMessage_other m hm
    rw [heffects]
    apply kept_stay h
    intro j
    rw [hfind j]

theorem onIncrementalPacket_kept {cc : ChannelController F} {ch : ChannelImpl F} (p : Packet)
    (h : Kept cc ch) :
    Kept (cc.onIncrementalPacket p).1 ((cc.onIncrementalPacket p).2.foldl execute ch) := by
  by_cases hp : cc.Processes p
  · have hmessages := run_executed ChannelController.onIncrementalMessage execute Kept
      (fun _ => True) (fun _ _ m _ ht => onIncrementalMessage_kept m ht)
      {cc with expectedseqnum_ := (p.seqnum+1).toNat} ch p.messages (fun _ _ => trivial)
      ⟨h.feed,h.listed⟩
    rw [ChannelController.onIncrementalPacket_processed hp, List.foldl_append,
      foldl_execute_gapReport]
    exact hmessages
  · rw [ChannelController.onIncrementalPacket_unprocessed hp]
    exact h

theorem onSnapshotPacket_kept {cc : ChannelController F} {ch : ChannelImpl F} (p : Packet)
    (h : Kept cc ch) :
    Kept (cc.onSnapshotPacket p).1 ((cc.onSnapshotPacket p).2.foldl execute ch) :=
  run_executed ChannelController.handleSnapshotMessage execute Kept (fun _ => True)
    (fun _ _ m _ ht => deliver_kept m.snapshotFullRefresh38.securityID.toUInt32
      (.snapshot m.snapshotFullRefresh38) ht) cc ch p.messages (fun _ _ => trivial) h

theorem subscribe_kept {cc : ChannelController F} {ch : ChannelImpl F} (i : Instrument)
    (h : Kept cc ch) : Kept (cc.subscribe i).1 ((cc.subscribe i).2.foldl execute ch) := by
  unfold ChannelController.subscribe
  cases hnew : cc.getInstrumentController i.key with
  | some c => exact h
  | none =>
    exact kept_enter h (fun j => Controllers.find_emplace _ _ j _
      (InstrumentController.construct_keyed i _) hnew) (Or.inl rfl)

theorem perform_kept {ch : ChannelImpl F} {r : ChannelController F × List (Effect F)}
    (hregistry : r.1.outofsync_instruments_ = ch.registry)
    (hcall : ∀ t, Kept ch.channel_controller_ t → Kept r.1 (r.2.foldl execute t))
    (h : Kept ch.channel_controller_ ch) :
    Kept (ch.perform r).channel_controller_ (ch.perform r) := by
  have hstart : Kept ch.channel_controller_ {ch with channel_controller_ := r.1} := by
    obtain ⟨⟨hnodup,hlines,hjoined⟩,hlisted⟩ := h
    rw [← hregistry] at hnodup hjoined hlisted
    exact ⟨⟨hnodup,hlines,hjoined⟩,hlisted⟩
  apply kept_stay (hcall _ hstart)
  intro j
  rw [show (ch.perform r).channel_controller_.getInstrumentController j =
    r.1.getInstrumentController j from foldl_execute_find _ r.2 j]

def InOrder (ch : ChannelImpl F) : Prop := Kept ch.channel_controller_ ch

theorem InOrder.frame {ch ch' : ChannelImpl F} (h : ch.InOrder)
    (hcc : ch'.channel_controller_ = ch.channel_controller_)
    (ha : ch'.snapshota_ = ch.snapshota_) (hb : ch'.snapshotb_ = ch.snapshotb_) :
    ch'.InOrder := by
  have hregistry : ch'.registry = ch.registry := by rw [registry, registry, hcc]
  constructor
  · exact ⟨by rw [hregistry]; exact h.feed.nodup,by rw [ha, hb]; exact h.feed.lines,
      by rw [ha, hregistry]; exact h.feed.joined⟩
  · rw [hregistry, hcc]
    exact h.listed

theorem subscribe_inOrder {ch : ChannelImpl F} (i : Instrument) (h : ch.InOrder) :
    (ch.subscribe i).InOrder := by
  have hregistry : (ch.channel_controller_.subscribe i).1.outofsync_instruments_ = ch.registry := by
    unfold ChannelController.subscribe
    cases ch.channel_controller_.getInstrumentController i.key <;> rfl
  have hperformed := perform_kept hregistry (fun _ ht => subscribe_kept i ht) h
  exact InOrder.frame hperformed rfl rfl rfl

theorem stopInstrumentFeed_inOrder {ch : ChannelImpl F} (h : ch.InOrder) :
    ch.stopInstrumentFeed.InOrder := by
  have hpending : ∀ (symbols : List String) (t : ChannelImpl F), t.InOrder →
      (symbols.foldl (fun ch symbol =>
        ch.subscribe (ch.symbol_controller_.getInstrument symbol)) t).InOrder := by
    intro symbols
    induction symbols with
    | nil => exact fun _ ht => ht
    | cons symbol symbols ih => exact fun t ht => ih _ (subscribe_inOrder _ ht)
  have hleft := hpending ch.pendingsubscription_
    {ch with instrumenta_ := ch.instrumenta_.leave, instrumentb_ := ch.instrumentb_.leave}
    (h.frame rfl rfl rfl)
  exact hleft.frame rfl rfl rfl

theorem executeDownload_inOrder {ch : ChannelImpl F} (d : DownloadCall) (h : ch.InOrder) :
    (ch.executeDownload d).InOrder := by
  cases d with
  | SubscribeInstrumentDownload => exact h.frame rfl rfl rfl
  | UnsubscribeInstrumentDownload => exact stopInstrumentFeed_inOrder h

theorem foldl_executeDownload_inOrder {ch : ChannelImpl F} (ds : List DownloadCall)
    (h : ch.InOrder) : (ds.foldl executeDownload ch).InOrder := by
  induction ds generalizing ch with
  | nil => exact h
  | cons d ds ih => exact ih (executeDownload_inOrder d h)

theorem onIncrementalPacket_registry (cc : ChannelController F) (p : Packet) :
    (cc.onIncrementalPacket p).1.outofsync_instruments_ = cc.outofsync_instruments_ := by
  by_cases hp : cc.Processes p
  · have hmessages := (ChannelController.run_same ChannelController.onIncrementalMessage_same
      {cc with expectedseqnum_ := (p.seqnum+1).toNat} p.messages).registry
    rw [ChannelController.onIncrementalPacket_processed hp]
    exact hmessages
  · rw [ChannelController.onIncrementalPacket_unprocessed hp]

theorem call_inOrder {ch : ChannelImpl F} (call : ChannelCall) (h : ch.InOrder) :
    (ch.call call).InOrder := by
  cases call with
  | Subscribe inst => exact subscribe_inOrder inst h
  | SubscribeSymbol symbol => exact h.frame rfl rfl rfl
  | OnPacket type data =>
    cases type with
    | Instrument =>
      exact foldl_executeDownload_inOrder _ (h.frame rfl rfl rfl)
    | Snapshot =>
      have hregistry := (ChannelController.run_same ChannelController.handleSnapshotMessage_same
        ch.channel_controller_ data.messages).registry
      exact perform_kept hregistry (fun _ ht => onSnapshotPacket_kept data ht) h
    | Incremental =>
      exact perform_kept (onIncrementalPacket_registry _ data)
        (fun _ ht => onIncrementalPacket_kept data ht) h

theorem construct_inOrder (memory : UInt32 → Indeterminate) :
    (construct memory : ChannelImpl F).InOrder := by
  apply foldl_executeDownload_inOrder
  constructor
  · constructor
    · exact List.Pairwise.nil
    · rfl
    · exact iff_of_false nofun fun hne => hne rfl
  · intro k
    apply iff_of_false
    · exact List.not_mem_nil
    · rintro ⟨c,hc,-⟩
      exact absurd ((Controllers.find_empty k).symm.trans hc) nofun

theorem calls_inOrder {ch : ChannelImpl F} (calls : List ChannelCall) (h : ch.InOrder) :
    (calls.foldl call ch).InOrder := by
  induction calls generalizing ch with
  | nil => exact h
  | cons c calls ih => exact ih (call_inOrder c h)

/-- Between the calls of a run from construction the registry lists, each once,
the instruments in `INITIAL` and `OUTOFSYNC`, and both snapshot receivers are
joined exactly when there are any. -/
theorem registry_agrees (memory : UInt32 → Indeterminate) (calls : List ChannelCall) :
    let ch : ChannelImpl F := calls.foldl call (construct memory)
    let cc := ch.channel_controller_
    cc.outofsync_instruments_.Nodup ∧
      (∀ k, k ∈ cc.outofsync_instruments_ ↔ ∃ c, cc.getInstrumentController k = some c ∧
        (c.state_ = .INITIAL ∨ c.state_ = .OUTOFSYNC)) ∧
      ch.snapshota_.joined_ = ch.snapshotb_.joined_ ∧
      (ch.snapshota_.joined_ = true ↔ cc.outofsync_instruments_ ≠ []) := by
  intro ch cc
  have h : ch.InOrder := calls_inOrder calls (construct_inOrder memory)
  exact ⟨h.feed.nodup,h.listed,h.feed.lines,h.feed.joined⟩

end ChannelImpl

end CmeFeed
