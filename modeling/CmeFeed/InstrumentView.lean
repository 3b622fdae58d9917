import CmeFeed.ChannelController

/-!
# The channel as one instrument sees it

A channel operation projects onto an instrument as a list of deliveries to its
controller: the state found under the key afterwards, and the books passed to
listeners under its id, are those of a run of that one controller. Entries and
snapshots of other instruments project onto nothing; a commit projects onto
one commit.
-/

set_option autoImplicit false

namespace CmeFeed

open Reactive

variable {F : Floats}

def keyId (k : UInt32) : UInt64 := k.toInt32.toInt64.toUInt64

theorem keyId_key (i : Instrument) : keyId i.key = i.id := rfl

theorem keyId_injective {j k : UInt32} (h : keyId j = keyId k) : j = k := by
  have hwide : j.toInt32.toInt64 = k.toInt32.toInt64 := congrArg UInt64.toInt64 h
  have hint := congrArg Int64.toInt hwide
  rw [Int32.toInt_toInt64, Int32.toInt_toInt64] at hint
  exact congrArg Int32.toUInt32 (Int32.toInt_inj.mp hint)

def notifiedOf (s : UInt32) (effects : List (Effect F)) : List (DepthBook F.Float) :=
  (notified effects).filterMap fun n => if n.1 = keyId s then some n.2 else none

@[simp] theorem notifiedOf_nil (s : UInt32) : notifiedOf s ([] : List (Effect F)) = [] := rfl

theorem notifiedOf_silent (s : UInt32) {effects : List (Effect F)} (h : notified effects = []) :
    notifiedOf s effects = [] := by
  rw [notifiedOf, h]
  rfl

theorem notifiedOf_append (s : UInt32) (a b : List (Effect F)) :
    notifiedOf s (a++b) = notifiedOf s a ++ notifiedOf s b := by
  rw [notifiedOf, notified_append, List.filterMap_append]
  rfl

theorem notifiedOf_flatMap {A : Type} (s : UInt32) (l : List A) (g : A → List (Effect F)) :
    notifiedOf s (l.flatMap g) = l.flatMap (fun a => notifiedOf s (g a)) := by
  induction l with
  | nil => rfl
  | cons a l ih => rw [List.flatMap_cons, List.flatMap_cons, notifiedOf_append, ih]

theorem InstrumentController.deliver_other {s k : UInt32} {c : InstrumentController F}
    (h : c.Keyed k) (hk : k ≠ s) (d : Delivery) : notifiedOf s (c.deliver d).2 = [] := by
  have hid : ¬c.mdhandler_.instrument_.id = keyId s := by
    rw [h.2, ← keyId_key, h.1]
    exact fun he => hk (keyId_injective he)
  rcases c.deliver_notified d with hn | hn
  · exact notifiedOf_silent s hn
  · rw [notifiedOf, hn]
    simp [hid]

theorem flatMap_of_key {K V A : Type} (s : K) (l : List (K × V))
    (hl : l.Pairwise fun a b => ¬a.1 = b.1) (g : K × V → List A)
    (hg : ∀ p ∈ l, p.1 ≠ s → g p = []) :
    (∀ v, (s,v) ∈ l → l.flatMap g = g (s,v)) ∧ ((∀ v, (s,v) ∉ l) → l.flatMap g = []) := by
  induction l with
  | nil => simp
  | cons p l ih =>
    obtain ⟨hp,hl⟩ := List.pairwise_cons.mp hl
    obtain ⟨hin,hout⟩ := ih hl fun q hq => hg q (by simp [hq])
    have hhead := hg p (by simp)
    rw [List.flatMap_cons]
    constructor
    · intro v hv
      rcases List.mem_cons.mp hv with rfl | hv
      · rw [hout fun w hw => hp _ hw rfl, List.append_nil]
      · rw [hhead (hp _ hv), hin v hv, List.nil_append]
    · intro hnone
      have hps : p.1 ≠ s := fun he => hnone p.2 (by simp [← he])
      rw [hhead hps, hout fun v hv => hnone v (by simp [hv]), List.nil_append]

namespace ChannelController

def soloState (s : UInt32) (cc : ChannelController F) (ds : List Delivery) :
    Option (InstrumentController F) :=
  (cc.getInstrumentController s).map fun c => (run InstrumentController.deliver c ds).1

def soloBooks (s : UInt32) (cc : ChannelController F) (ds : List Delivery) :
    List (DepthBook F.Float) :=
  match cc.getInstrumentController s with
  | some c => notifiedOf s (run InstrumentController.deliver c ds).2
  | none => []

/-- The result `r` of an operation in state `cc` is, for one instrument, that
of the deliveries `ds`. -/
def Projects (s : UInt32) (ds : List Delivery) (cc : ChannelController F)
    (r : ChannelController F × List (Effect F)) : Prop :=
  r.1.getInstrumentController s = soloState s cc ds ∧ notifiedOf s r.2 = soloBooks s cc ds

theorem projects_nil (s : UInt32) (cc : ChannelController F) : Projects s [] cc (cc,[]) := by
  unfold Projects soloState soloBooks
  cases h : cc.getInstrumentController s <;> exact ⟨rfl,rfl⟩

theorem projects_append {s : UInt32} {ds es : List Delivery} {cc : ChannelController F}
    {r r' : ChannelController F × List (Effect F)} (h : Projects s ds cc r)
    (h' : Projects s es r.1 r') : Projects s (ds++es) cc (r'.1,r.2++r'.2) := by
  obtain ⟨hs,hb⟩ := h
  obtain ⟨hs',hb'⟩ := h'
  unfold Projects soloState soloBooks at *
  rw [hs] at hs' hb'
  rw [hs', notifiedOf_append, hb, hb']
  cases cc.getInstrumentController s with
  | none => exact ⟨rfl,rfl⟩
  | some c => simp only [Option.map_some, run_append, notifiedOf_append, and_self]

theorem run_projects {I : Type} {s : UInt32}
    {step : ChannelController F → I → ChannelController F × List (Effect F)}
    {ds : ChannelController F → I → List Delivery}
    (h : ∀ cc i, Projects s (ds cc i) cc (step cc i)) (cc : ChannelController F) (is : List I) :
    Projects s (observe step ds cc is) cc (run step cc is) := by
  induction is generalizing cc with
  | nil => exact projects_nil s cc
  | cons i is ih => exact projects_append (h cc i) (ih (step cc i).1)

theorem deliver_find (cc : ChannelController F) (k s : UInt32) (d : Delivery) :
    (cc.deliver k d).1.getInstrumentController s =
      if k = s then (cc.getInstrumentController s).map (fun c => (c.deliver d).1)
      else cc.getInstrumentController s := by
  unfold deliver
  cases hc : cc.getInstrumentController k with
  | some c =>
    simp only [getInstrumentController, Controllers.find_modify]
  | none =>
    by_cases hk : k = s
    · subst hk
      rw [if_pos rfl, hc]
      rfl
    · rw [if_neg hk]

theorem deliver_update {cc : ChannelController F} {k : UInt32} {c : InstrumentController F}
    (h : cc.getInstrumentController k = some c) (d : Delivery) (s : UInt32) :
    (cc.deliver k d).1.getInstrumentController s =
      if k = s then some (c.deliver d).1 else cc.getInstrumentController s := by
  rw [deliver_find]
  by_cases hk : k = s
  · subst hk
    rw [if_pos rfl, if_pos rfl, h, Option.map_some]
  · rw [if_neg hk, if_neg hk]

theorem deliver_absent {cc : ChannelController F} {k : UInt32} {d : Delivery}
    (h : cc.getInstrumentController k = none) : cc.deliver k d = (cc,[]) := by
  unfold deliver
  rw [h]

theorem deliver_effects (cc : ChannelController F) (k : UInt32) (d : Delivery) :
    (cc.deliver k d).2 =
      match cc.getInstrumentController k with
      | some c => (c.deliver d).2
      | none => [] := by
  unfold deliver
  cases cc.getInstrumentController k <;> rfl

theorem deliver_projects (cc : ChannelController F) (k s : UInt32) (d : Delivery) :
    Projects s (if k = s then [d] else []) cc (cc.deliver k d) := by
  unfold Projects soloState soloBooks
  rw [deliver_find, deliver_effects]
  by_cases hk : k = s
  · subst hk
    simp only [if_true, run_singleton, true_and]
    cases cc.getInstrumentController k <;> rfl
  · have hsilent : (match cc.getInstrumentController s with
        | some c => notifiedOf s (run InstrumentController.deliver c []).2
        | none => []) = [] := by
      cases cc.getInstrumentController s <;> rfl
    rw [if_neg hk, if_neg hk, hsilent]
    constructor
    · simp only [run_nil, Option.map_id']
    · cases hc : cc.getInstrumentController k with
      | none => rfl
      | some c =>
        exact InstrumentController.deliver_other (cc.instrument_controllers_.keyed k c hc) hk d

theorem commit_projects (cc : ChannelController F) (s : UInt32) :
    Projects s [.commit] cc cc.commit := by
  have hkeys : cc.instrument_controllers_.map.toList.Pairwise fun a b => ¬a.1 = b.1 := by
    have hd := cc.instrument_controllers_.map.distinct_keys_toList
    simpa only [Std.compare_eq_iff_eq] using hd
  have hother : ∀ p ∈ cc.instrument_controllers_.map.toList, p.1 ≠ s →
      notifiedOf s p.2.commit.2 = [] := by
    rintro ⟨k,c⟩ hp hk
    exact InstrumentController.deliver_other (cc.instrument_controllers_.keyed k c
      (Std.TreeMap.mem_toList_iff_getElem?_eq_some.mp hp)) hk .commit
  obtain ⟨hin,hout⟩ := flatMap_of_key s _ hkeys (fun p => notifiedOf s p.2.commit.2) hother
  have hbooks : notifiedOf s cc.commit.2 =
      cc.instrument_controllers_.map.toList.flatMap fun p => notifiedOf s p.2.commit.2 :=
    notifiedOf_flatMap s _ _
  have hfind : cc.commit.1.getInstrumentController s =
      (cc.getInstrumentController s).map fun c => c.commit.1 := Controllers.find_commit _ s
  unfold Projects soloState soloBooks
  rw [hfind, hbooks]
  cases hc : cc.getInstrumentController s with
  | some c =>
    rw [hin c (Std.TreeMap.mem_toList_iff_getElem?_eq_some.mpr hc)]
    simp only [run_singleton]
    exact ⟨rfl,rfl⟩
  | none =>
    refine ⟨rfl,hout fun c hmem => ?_⟩
    have hsome := Std.TreeMap.mem_toList_iff_getElem?_eq_some.mp hmem
    exact absurd (hc.symm.trans hsome) nofun

def incrementalDeliveries (s : UInt32) (m : IncrementalRefresh Entry) : List Delivery :=
  (m.noMDEntries.flatMap fun e => if e.securityID.toUInt32 = s then [.incremental e] else []) ++
    if m.endOfEvent then [.commit] else []

theorem handleIncrementalMessage_projects (cc : ChannelController F) (s : UInt32)
    (m : IncrementalRefresh Entry) :
    Projects s (incrementalDeliveries s m) cc (cc.handleIncrementalMessage m) := by
  have hentries : Projects s
      (m.noMDEntries.flatMap fun e => if e.securityID.toUInt32 = s then [.incremental e] else [])
      cc (run onEntry cc m.noMDEntries) := by
    rw [← observe_inputs onEntry _ cc]
    exact run_projects (fun cc e => cc.deliver_projects e.securityID.toUInt32 s (.incremental e))
      cc m.noMDEntries
  unfold handleIncrementalMessage incrementalDeliveries
  cases m.endOfEvent with
  | true => exact projects_append hentries (commit_projects _ s)
  | false => simpa using hentries

def messageDeliveries (s : UInt32) (m : Message) : List Delivery :=
  match m.incremental with
  | some message => incrementalDeliveries s message
  | none => []

theorem onSecurityStatus_same (c : InstrumentController F) (t : SecurityStatus30) :
    c.onSecurityStatus t = c := by
  unfold InstrumentController.onSecurityStatus
  split_ifs <;> rfl

theorem onIncrementalMessage_projects (cc : ChannelController F) (s : UInt32) (m : Message) :
    Projects s (messageDeliveries s m) cc (cc.onIncrementalMessage m) := by
  unfold onIncrementalMessage messageDeliveries
  cases m.incremental with
  | some message => exact handleIncrementalMessage_projects cc s message
  | none =>
    dsimp only
    split_ifs
    · exact projects_nil s cc
    · unfold handleIncrementalSecurityStatus
      dsimp only
      split_ifs
      · exact projects_nil s cc
      · have hsame : ∀ k, (cc.instrument_controllers_.modify k
            (fun c => c.onSecurityStatus m.securityStatus30)
            fun _ _ h => InstrumentController.onSecurityStatus_keyed h _).find s =
              cc.instrument_controllers_.find s := by
          intro k
          rw [Controllers.find_modify]
          simp only [onSecurityStatus_same, Option.map_id']
          split_ifs <;> rfl
        refine ⟨(hsame _).trans ?_, ?_⟩
        · exact (projects_nil s cc).1
        · exact (projects_nil s cc).2
    · exact projects_nil s cc

theorem onIncrementalMessage_other (cc : ChannelController F) (m : Message)
    (hm : m.incremental = none) :
    (cc.onIncrementalMessage m).2 = [] ∧ ∀ k,
      (cc.onIncrementalMessage m).1.getInstrumentController k = cc.getInstrumentController k := by
  constructor
  · unfold onIncrementalMessage
    rw [hm]
    dsimp only
    split_ifs
    · rfl
    · unfold handleIncrementalSecurityStatus
      dsimp only
      split_ifs <;> rfl
    · rfl
  · intro k
    have hstate := (cc.onIncrementalMessage_projects k m).1
    unfold messageDeliveries soloState at hstate
    rw [hm] at hstate
    simpa using hstate

def snapshotDeliveries (s : UInt32) (m : Message) : List Delivery :=
  if m.snapshotFullRefresh38.securityID.toUInt32 = s then [.snapshot m.snapshotFullRefresh38]
  else []

theorem handleSnapshotMessage_projects (cc : ChannelController F) (s : UInt32) (m : Message) :
    Projects s (snapshotDeliveries s m) cc (cc.handleSnapshotMessage m) :=
  cc.deliver_projects _ s (.snapshot m.snapshotFullRefresh38)

/-- What a packet of either feed is to one instrument; the counter of the
channel decides whether an incremental packet is anything. -/
def packetDeliveries (s : UInt32) (cc : ChannelController F) : FeedPacket → List Delivery
  | .incremental p => if cc.Processes p then p.messages.flatMap (messageDeliveries s) else []
  | .snapshot p => p.messages.flatMap (snapshotDeliveries s)

theorem onPacket_projects (s : UInt32) (cc : ChannelController F) (p : FeedPacket) :
    Projects s (packetDeliveries s cc p) cc (cc.onPacket p) := by
  cases p with
  | snapshot p =>
    have hrun := run_projects (fun cc m => handleSnapshotMessage_projects cc s m) cc p.messages
    rw [observe_inputs] at hrun
    exact hrun
  | incremental p =>
    unfold packetDeliveries onPacket
    by_cases h : cc.Processes p
    · have hrun := run_projects (fun cc m => onIncrementalMessage_projects cc s m)
        {cc with expectedseqnum_ := (p.seqnum+1).toNat} p.messages
      rw [observe_inputs] at hrun
      dsimp only
      rw [if_pos h, onIncrementalPacket_processed h]
      constructor
      · exact hrun.1
      · rw [notifiedOf_append, notifiedOf_silent s (gapReport_silent _ p)]
        exact (List.append_nil _).trans hrun.2
    · dsimp only
      rw [if_neg h, onIncrementalPacket_unprocessed h]
      exact projects_nil s cc

end ChannelController

end CmeFeed
