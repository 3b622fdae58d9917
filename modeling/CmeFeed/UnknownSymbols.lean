import CmeFeed.ControllerRuns

/-!
# Symbols the table does not know

When the download completes every queued symbol is looked up and subscribed to.
The lookup of an unknown symbol returns a blank instrument of id 0, which gets
a controller like any other and waits for a snapshot.
-/

set_option autoImplicit false

namespace CmeFeed

open Reactive

variable {F : Floats}

namespace SymbolController

def Knows (c : SymbolController) (symbol : String) : Prop :=
  c.instruments_ symbol ≠ none

def keyOf (c : SymbolController) (symbol : String) : UInt32 :=
  (c.getInstrument symbol).key

theorem getInstrument_unknown {c : SymbolController} {symbol : String}
    (h : ¬c.Knows symbol) : c.getInstrument symbol = {} := by
  rw [getInstrument, not_not.mp h]

theorem keyOf_unknown {c : SymbolController} {symbol : String} (h : ¬c.Knows symbol) :
    c.keyOf symbol = 0 := by
  rw [keyOf, getInstrument_unknown h]
  rfl

def known (c : SymbolController) (symbols : List String) : List Instrument :=
  symbols.filterMap c.instruments_

theorem find_known (c : SymbolController) (P : Instrument → Bool) (symbols : List String)
    (h : ∀ done s rest, symbols = done++s::rest →
      c.Knows s ∨ P {} = false ∨ ∃ t ∈ done, c.Knows t ∧ P (c.getInstrument t) = true) :
    (symbols.map c.getInstrument).find? P = (c.known symbols).find? P := by
  induction symbols with
  | nil => rfl
  | cons s symbols ih =>
    obtain ⟨hhead,htail⟩ := (forall_split_cons _ s symbols).mp h
    unfold known at ih ⊢
    rw [List.map_cons, List.find?_cons]
    cases hs : c.instruments_ s with
    | none =>
      have hunknown : ¬c.Knows s := not_not.mpr hs
      have hblank : P {} = false := by simpa [hunknown] using hhead
      rw [getInstrument_unknown hunknown, hblank, List.filterMap_cons_none hs]
      refine ih fun done t rest ht => ?_
      rcases htail done t rest ht with hknown | hmiss | ⟨u,hu,hknown,hfound⟩
      · exact Or.inl hknown
      · exact Or.inr (Or.inl hmiss)
      · rcases List.mem_cons.mp hu with rfl | hu
        · exact absurd hknown hunknown
        · exact Or.inr (Or.inr ⟨u,hu,hknown,hfound⟩)
    | some i =>
      have hget : c.getInstrument s = i := by rw [getInstrument, hs]
      rw [hget, List.filterMap_cons_some hs, List.find?_cons]
      cases hi : P i with
      | true => rfl
      | false =>
        refine ih fun done t rest ht => ?_
        rcases htail done t rest ht with hknown | hmiss | ⟨u,hu,hknown,hfound⟩
        · exact Or.inl hknown
        · exact Or.inr (Or.inl hmiss)
        · rcases List.mem_cons.mp hu with rfl | hu
          · rw [hget, hi] at hfound
            exact absurd hfound nofun
          · exact Or.inr (Or.inr ⟨u,hu,hknown,hfound⟩)

end SymbolController

theorem ChannelController.subscribes_find (cc : ChannelController F) (is : List Instrument)
    (k : UInt32) :
    (run onInput cc (is.map .subscribe)).1.getInstrumentController k =
      (cc.getInstrumentController k).or ((is.find? fun i => decide (i.key = k)).map fun i =>
        (InstrumentController.construct i (cc.memory k)).1) := by
  induction is generalizing cc with
  | nil => exact Option.or_none.symm
  | cons i is ih =>
    have hmemory : (cc.subscribe i).1.memory = cc.memory := by
      unfold subscribe
      cases cc.getInstrumentController i.key <;> rfl
    have hrest := ih (cc.subscribe i).1
    rw [hmemory, subscribe_find, Option.or_assoc] at hrest
    refine hrest.trans (congrArg _ ?_)
    rw [List.find?_cons]
    by_cases hk : i.key = k
    · rw [if_pos hk, decide_eq_true hk, hk]
      rfl
    · rw [if_neg hk, decide_eq_false hk]
      rfl

namespace ChannelImpl

theorem subscribe_registry {ch : ChannelImpl F} (i : Instrument) (h : ch.FeedFollows) :
    (ch.subscribe i).FeedFollows ∧ ∀ k, k ∈ (ch.subscribe i).registry ↔
      k ∈ ch.registry ∨ ¬ch.Exists k ∧ i.key = k := by
  unfold subscribe perform ChannelController.subscribe
  cases hfind : ch.channel_controller_.getInstrumentController i.key with
  | some c =>
    constructor
    · exact ⟨h.nodup,h.lines,h.joined⟩
    · intro k
      have hfound : ¬(¬ch.Exists k ∧ i.key = k) := by
        rintro ⟨hnone,rfl⟩
        exact hnone ⟨c,hfind⟩
      exact (or_iff_left hfound).symm
  | none =>
    have hnew : ¬ch.Exists i.key := by
      rintro ⟨c,hc⟩
      exact absurd (hfind.symm.trans hc) nofun
    let created : ChannelImpl F := {ch with
      channel_controller_ := {ch.channel_controller_ with
        instrument_controllers_ := ch.channel_controller_.instrument_controllers_.emplace i.key
          (InstrumentController.construct i (ch.channel_controller_.memory i.key)).1
          (InstrumentController.construct_keyed i _)}}
    have hcreated : created.FeedFollows := ⟨h.nodup,h.lines,h.joined⟩
    obtain ⟨hfeed,hmem⟩ := subscribeToSnapshots_spec i.key hcreated
    constructor
    · exact ⟨hfeed.nodup,hfeed.lines,hfeed.joined⟩
    · intro k
      have hkey : k = i.key ↔ ¬ch.Exists k ∧ i.key = k := by
        constructor
        · rintro rfl
          exact ⟨hnew,rfl⟩
        · exact fun hk => hk.2.symm
      exact (hmem k).trans (or_congr_right hkey)

theorem subscribe_symbols_registry {ch : ChannelImpl F} (symbols : List String)
    (h : ch.FeedFollows) :
    let r := symbols.foldl (fun ch symbol =>
      ch.subscribe (ch.symbol_controller_.getInstrument symbol)) ch
    r.FeedFollows ∧ ∀ k, k ∈ r.registry ↔
      k ∈ ch.registry ∨ ¬ch.Exists k ∧ ∃ s ∈ symbols, ch.symbol_controller_.keyOf s = k := by
  induction symbols generalizing ch with
  | nil => exact ⟨h,by simp⟩
  | cons symbol symbols ih =>
    obtain ⟨hfeed,hmem⟩ := subscribe_registry (ch.symbol_controller_.getInstrument symbol) h
    obtain ⟨hend,hrest⟩ := ih hfeed
    constructor
    · exact hend
    · intro k
      rw [List.foldl_cons, hrest k, hmem k, subscribe_exists, (subscribe_download ch _).1]
      change (k ∈ ch.registry ∨ ¬ch.Exists k ∧ ch.symbol_controller_.keyOf symbol = k) ∨
        ¬(ch.Exists k ∨ ch.symbol_controller_.keyOf symbol = k) ∧ _ ↔ _
      simp only [List.mem_cons, exists_eq_or_imp]
      by_cases hk : ch.symbol_controller_.keyOf symbol = k
      · simp [hk]
      · simp [hk]

theorem subscribe_existing {ch : ChannelImpl F} {i : Instrument} (h : ch.Exists i.key) :
    (ch.subscribe i).channel_controller_ = ch.channel_controller_ := by
  obtain ⟨c,hc⟩ := h
  unfold subscribe perform ChannelController.subscribe
  rw [hc]
  rfl

/-- The channel in the loop over the queue, when it has looked up the symbols `done`. -/
def draining (table : SymbolController) (ch : ChannelImpl F) (done : List String) :
    ChannelImpl F :=
  done.foldl (fun ch symbol => ch.subscribe (ch.symbol_controller_.getInstrument symbol))
    {ch with symbol_controller_ := table
             instrumenta_ := ch.instrumenta_.leave
             instrumentb_ := ch.instrumentb_.leave}

variable {table : SymbolController} {ch : ChannelImpl F}

theorem draining_snoc (done : List String) (s : String) :
    draining table ch (done++[s]) = (draining table ch done).subscribe (table.getInstrument s) := by
  have hsymbols : (draining table ch done).symbol_controller_ = table :=
    (subscribe_symbols _ done).1
  rw [draining, List.foldl_append, List.foldl_cons, List.foldl_nil, ← draining, hsymbols]

theorem draining_exists (done : List String) (k : UInt32) :
    (draining table ch done).Exists k ↔ ch.Exists k ∨ ∃ s ∈ done, table.keyOf s = k :=
  (subscribe_symbols _ done).2 k

theorem draining_find (done : List String) (k : UInt32) :
    (draining table ch done).channel_controller_.getInstrumentController k =
      (ch.channel_controller_.getInstrumentController k).or
        (((done.map table.getInstrument).find? fun i => decide (i.key = k)).map fun i =>
          (InstrumentController.construct i (ch.channel_controller_.memory k)).1) := by
  let left : ChannelImpl F := {ch with
    symbol_controller_ := table
    instrumenta_ := ch.instrumenta_.leave
    instrumentb_ := ch.instrumentb_.leave}
  have hdrives : Drives ch.channel_controller_ left := rfl
  have hrun : (draining table ch done).channel_controller_ = _ := subscribes_drives hdrives done
  rw [← ChannelController.subscribes_find, List.map_map, hrun]
  rfl

/-- The controllers made from the queue are those of the symbols that `table`
knows, each with the instrument of the first such symbol under its id; these ids
are added to the registry, and an unknown symbol does nothing. -/
structure Drains (table : SymbolController) (ch ch' : ChannelImpl F) : Prop where
  created : ∀ k, ch'.channel_controller_.getInstrumentController k =
    (ch.channel_controller_.getInstrumentController k).or
      (((table.known ch.pendingsubscription_).find? fun i => decide (i.key = k)).map fun i =>
        (InstrumentController.construct i (ch.channel_controller_.memory k)).1)
  waiting : ∀ k, k ∈ ch'.registry ↔ k ∈ ch.registry ∨ ¬ch.Exists k ∧
    ∃ s ∈ ch.pendingsubscription_, table.Knows s ∧ table.keyOf s = k
  once : ch'.registry.Nodup
  silent : ∀ done s rest, ch.pendingsubscription_ = done++s::rest → ¬table.Knows s →
    (draining table ch (done++[s])).channel_controller_ =
      (draining table ch done).channel_controller_

/-- When the loop comes to the symbol, the symbol is known or the id 0 of the
blank instrument is taken. -/
def Harmless (table : SymbolController) (ch : ChannelImpl F) (done : List String)
    (symbol : String) : Prop :=
  table.Knows symbol ∨ ch.Exists 0 ∨ ∃ t ∈ done, table.Knows t ∧ table.keyOf t = 0

theorem onPacket_completes (h : ch.FeedFollows) {p : Packet}
    (hp : ch.symbol_controller_.Completes p) :
    let table := (ch.symbol_controller_.onInstrumentPacket p).1
    let ch' := ch.onPacket .Instrument p
    ch'.channel_controller_ = (draining table ch ch.pendingsubscription_).channel_controller_ ∧
      ch'.registry.Nodup ∧ ∀ k, k ∈ ch'.registry ↔ k ∈ ch.registry ∨ ¬ch.Exists k ∧
        ∃ s ∈ ch.pendingsubscription_, table.keyOf s = k := by
  intro table ch'
  have hdrained : ch' = {draining table ch ch.pendingsubscription_ with
      pendingsubscription_ := []} := (onPacket_instrument ch p).trans (if_pos hp)
  let left : ChannelImpl F := {ch with
    symbol_controller_ := table
    instrumenta_ := ch.instrumenta_.leave
    instrumentb_ := ch.instrumentb_.leave}
  have hleft : left.FeedFollows := ⟨h.nodup,h.lines,h.joined⟩
  obtain ⟨hend,hregistry⟩ := subscribe_symbols_registry ch.pendingsubscription_ hleft
  rw [hdrained]
  exact ⟨rfl,hend.nodup,hregistry⟩

/-- An unknown symbol that does nothing finds the id 0 taken. -/
theorem silent_taken {done : List String} {s : String} (hs : ¬table.Knows s)
    (h : (draining table ch (done++[s])).channel_controller_ =
      (draining table ch done).channel_controller_) :
    ch.Exists 0 ∨ ∃ t ∈ done, table.keyOf t = 0 := by
  have hexists : (draining table ch (done++[s])).Exists 0 :=
    (draining_exists _ 0).mpr (Or.inr ⟨s,by simp,SymbolController.keyOf_unknown hs⟩)
  unfold Exists at hexists
  rw [h] at hexists
  exact (draining_exists done 0).mp hexists

theorem drains_harmless {ch' : ChannelImpl F} (h : Drains table ch ch') {done rest : List String}
    {s : String} (hsplit : ch.pendingsubscription_ = done++s::rest) :
    Harmless table ch done s := by
  by_cases hknown : table.Knows s
  · exact Or.inl hknown
  by_cases hzero : ch.Exists 0
  · exact Or.inr (Or.inl hzero)
  -- the first symbol under the id 0 finds it free, so it is no unknown one
  have htaken := silent_taken hknown (h.silent done s rest hsplit hknown)
  obtain ⟨t,ht,hkey⟩ := htaken.resolve_left hzero
  obtain ⟨u,hu⟩ : ∃ u, done.find? (fun t => decide (table.keyOf t = 0)) = some u :=
    Option.isSome_iff_exists.mp (List.find?_isSome.mpr ⟨t,ht,decide_eq_true hkey⟩)
  obtain ⟨hukey,first,middle,hdone,hfirst⟩ := List.find?_eq_some_iff_append.mp hu
  refine Or.inr (Or.inr ⟨u,List.mem_of_find?_eq_some hu,?_,of_decide_eq_true hukey⟩)
  by_contra hunknown
  have hqueue : ch.pendingsubscription_ = first++u::(middle++s::rest) := by
    rw [hsplit, hdone, List.append_assoc, List.cons_append]
  rcases silent_taken hunknown (h.silent first u _ hqueue hunknown) with hbefore | ⟨v,hv,hvkey⟩
  · exact hzero hbefore
  · simpa [hvkey] using hfirst v hv

theorem harmless_drains {ch' : ChannelImpl F}
    (hcontrollers : ch'.channel_controller_ =
      (draining table ch ch.pendingsubscription_).channel_controller_)
    (hnodup : ch'.registry.Nodup)
    (hregistry : ∀ k, k ∈ ch'.registry ↔ k ∈ ch.registry ∨ ¬ch.Exists k ∧
      ∃ s ∈ ch.pendingsubscription_, table.keyOf s = k)
    (h : ∀ done s rest, ch.pendingsubscription_ = done++s::rest → Harmless table ch done s) :
    Drains table ch ch' where
  created k := by
    rw [hcontrollers, draining_find]
    cases hk : ch.channel_controller_.getInstrumentController k with
    | some c => rfl
    | none =>
      rw [SymbolController.find_known]
      intro done s rest hsplit
      rcases h done s rest hsplit with hknown | ⟨c,hc⟩ | ⟨t,ht,hknown,hzero⟩
      · exact Or.inl hknown
      · refine Or.inr (Or.inl (decide_eq_false ?_))
        rintro rfl
        exact absurd (hk.symm.trans hc) nofun
      · by_cases hkey : (0:UInt32) = k
        · exact Or.inr (Or.inr ⟨t,ht,hknown,decide_eq_true (hzero.trans hkey)⟩)
        · exact Or.inr (Or.inl (decide_eq_false hkey))
  waiting k := by
    rw [hregistry k]
    refine or_congr_right (and_congr_right fun hnew => ⟨?_,?_⟩)
    · rintro ⟨s,hs,rfl⟩
      by_cases hknown : table.Knows s
      · exact ⟨s,hs,hknown,rfl⟩
      rw [SymbolController.keyOf_unknown hknown] at hnew ⊢
      obtain ⟨done,rest,hsplit⟩ := List.append_of_mem hs
      obtain ⟨t,ht,hfound⟩ :=
        ((h done s rest hsplit).resolve_left hknown).resolve_left hnew
      exact ⟨t,by simp [hsplit,ht],hfound⟩
    · rintro ⟨s,hs,-,rfl⟩
      exact ⟨s,hs,rfl⟩
  once := hnodup
  silent done s rest hsplit hunknown := by
    have hblank : (draining table ch done).Exists (table.getInstrument s).key := by
      rw [show (table.getInstrument s).key = 0 from SymbolController.keyOf_unknown hunknown]
      refine (draining_exists done 0).mpr ?_
      rcases (h done s rest hsplit).resolve_left hunknown with hbefore | ⟨t,ht,-,hzero⟩
      · exact Or.inl hbefore
      · exact Or.inr ⟨t,ht,hzero⟩
    rw [draining_snoc]
    exact subscribe_existing hblank

/-- The completing packet of any run makes controllers and registry entries for
the queued symbols the table knows and for nothing else exactly if the loop over
the queue finds every unknown one harmless. -/
theorem unknown_symbols (memory : UInt32 → Indeterminate) (calls : List ChannelCall) (p : Packet)
    (hp : (calls.foldl call (construct memory : ChannelImpl F)).symbol_controller_.Completes p) :
    let ch : ChannelImpl F := calls.foldl call (construct memory)
    let table := (ch.symbol_controller_.onInstrumentPacket p).1
    Drains table ch (ch.onPacket .Instrument p) ↔
      ∀ done s rest, ch.pendingsubscription_ = done++s::rest → Harmless table ch done s := by
  intro ch table
  have hfeed : ch.FeedFollows := (calls_inOrder calls (construct_inOrder memory)).feed
  obtain ⟨hcontrollers,hnodup,hregistry⟩ := onPacket_completes hfeed hp
  constructor
  · exact fun hdrains done s rest hsplit => drains_harmless hdrains hsplit
  · exact harmless_drains hcontrollers hnodup hregistry

theorem unknown_symbols_sample :
    let ch : ChannelImpl .exact := [ChannelCall.SubscribeSymbol "ESH8",.SubscribeSymbol "NONE",
      .OnPacket .Instrument (definitionPacket 1 "ESH8" 0)].foldl call (construct fun _ => ⟨0,false⟩)
    let p := definitionPacket 2 "ESM8" 8
    Drains (ch.symbol_controller_.onInstrumentPacket p).1 ch (ch.onPacket .Instrument p) := by
  intro ch p
  have hknown : (ch.symbol_controller_.onInstrumentPacket p).1.Knows "ESH8" := by
    unfold SymbolController.Knows
    decide
  have hharmless : ∀ done s rest, ch.pendingsubscription_ = done++s::rest →
      Harmless (ch.symbol_controller_.onInstrumentPacket p).1 ch done s := by
    rw [show ch.pendingsubscription_ = ["ESH8","NONE"] from rfl, forall_split_cons,
      forall_split_cons]
    refine ⟨Or.inl hknown,?_,?_⟩
    · exact Or.inr (Or.inr ⟨"ESH8",by simp,hknown,by decide⟩)
    · simp
  exact (unknown_symbols (F := .exact) (fun _ => ⟨0,false⟩) _ p (by decide)).mpr hharmless

/-- A queued symbol that is not defined gets a controller under the id 0, and
the snapshot feed is joined for it. -/
theorem unknown_symbols_placeholder :
    let ch : ChannelImpl .exact := [ChannelCall.SubscribeSymbol "NONE",
      .OnPacket .Instrument (definitionPacket 1 "ESH8" 7)].foldl call (construct fun _ => ⟨0,false⟩)
    let p := definitionPacket 2 "ESM8" 8
    let ch' := ch.onPacket .Instrument p
    ch.symbol_controller_.Completes p ∧ 0 ∈ ch'.registry ∧ ch'.snapshota_.joined_ = true ∧
      ¬Drains (ch.symbol_controller_.onInstrumentPacket p).1 ch ch' := by
  intro ch p ch'
  have hcompletes : ch.symbol_controller_.Completes p := by decide
  have hwaits : 0 ∈ ch'.registry := by decide
  have hundrained : ¬Drains (ch.symbol_controller_.onInstrumentPacket p).1 ch ch' := by
    intro hdrains
    rcases (hdrains.waiting 0).mp hwaits with hbefore | ⟨-,s,hs,hknown,-⟩
    · exact absurd hbefore (by decide)
    · have hqueued : s = "NONE" := List.mem_singleton.mp hs
      subst hqueued
      exact hknown (by decide)
  exact ⟨hcompletes,hwaits,by decide,hundrained⟩

end ChannelImpl

end CmeFeed
