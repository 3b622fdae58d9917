import CmeFeed.Download
import CmeFeed.Reactive.Copies

/-!
# Replay cycles of the instrument feed

The exchange replays the same numbered packets of definitions in a circle,
every definition carrying the number of all of them. The module follows how
far a download has got, counted in definitions and in packets, and derives
when it completes and that it recovers from any state a lossy feed leaves.
-/

set_option autoImplicit false

namespace CmeFeed

open Reactive

structure ReplayCycle where
  packets : List Packet
  numbered : packets.map Packet.number = List.range' 1 packets.length
  reported : ∀ d ∈ packets.flatMap Packet.definitions,
    d.totNumReports.toNat = (packets.flatMap Packet.definitions).length

namespace ReplayCycle

def definitions (cycle : ReplayCycle) : List MDInstrumentDefinition :=
  cycle.packets.flatMap Packet.definitions

def size (cycle : ReplayCycle) : ℕ := cycle.definitions.length

def total (cycle : ReplayCycle) : ℤ := (UInt32.ofNat cycle.size).toInt32.toInt

def table (cycle : ReplayCycle) : String → Option Instrument :=
  (cycle.definitions.foldl SymbolController.handleDefinition SymbolController.initial).instruments_

theorem size_lt (cycle : ReplayCycle) : cycle.size < 2^32 := by
  cases hdefs : cycle.definitions with
  | nil =>
    rw [size, hdefs]
    decide
  | cons d ds =>
    have hd : d ∈ cycle.definitions := by simp [hdefs]
    rw [← show d.totNumReports.toNat = cycle.size from cycle.reported d hd]
    exact d.totNumReports.toNat_lt

theorem total_eq {cycle : ReplayCycle} (h : cycle.size < 2^31) : cycle.total = cycle.size := by
  rw [total, UInt32.toInt32_ofNat', Int32.toInt_ofNat_of_lt h]

theorem total_neg {cycle : ReplayCycle} (h : 2^31 ≤ cycle.size) : cycle.total < 0 := by
  have hsize := cycle.size_lt
  have hmod : (cycle.size:ℤ)%(2^32:ℕ) = cycle.size := by omega
  rw [total, UInt32.toInt32_ofNat', Int32.toInt_ofNat', Int.bmod_def,
    show Int32.size = 2^32 from rfl, hmod]
  omega

theorem total_lt (cycle : ReplayCycle) : cycle.total < 2^31 := Int32.toInt_lt _

theorem max_total {cycle : ReplayCycle} (hsize : 2 ≤ cycle.size) :
    max 2 cycle.total = if cycle.size < 2^31 then (cycle.size:ℤ) else 2 := by
  split_ifs with hsmall
  · rw [total_eq hsmall]
    omega
  · have := total_neg (Nat.le_of_not_lt hsmall)
    omega

theorem mem_number {cycle : ReplayCycle} {p : Packet} (hp : p ∈ cycle.packets) :
    1 ≤ p.number ∧ p.number ≤ cycle.packets.length := by
  have hnumber : p.number ∈ cycle.packets.map Packet.number := List.mem_map_of_mem hp
  rw [cycle.numbered, List.mem_range'_1] at hnumber
  omega

theorem length_lt (cycle : ReplayCycle) : cycle.packets.length < 2^32 := by
  rcases List.eq_nil_or_concat cycle.packets with hnil | ⟨init,p,hconcat⟩
  · rw [hnil]
    decide
  · have hnumbers := cycle.numbered
    rw [hconcat, List.concat_eq_append, List.map_append, List.length_append,
      List.length_singleton, List.range'_concat] at hnumbers
    have hlast := (List.append_inj' hnumbers rfl).2
    simp only [List.map_singleton, List.cons.injEq, and_true] at hlast
    have hsmall : p.number < 2^32 := p.seqnum.toNat_lt
    rw [hconcat, List.concat_eq_append, List.length_append, List.length_singleton]
    omega

theorem getElem_number {cycle : ReplayCycle} {p : Packet} (hp : p ∈ cycle.packets) {k : ℕ}
    (hk : p.number = k+1) : cycle.packets[k]? = some p := by
  obtain ⟨j,hj,hget⟩ := List.getElem_of_mem hp
  have hnumber : cycle.packets[j].number = j+1 := by
    have hmap := congrArg (·[j]?) cycle.numbered
    simp only [List.getElem?_map, List.getElem?_eq_getElem hj, Option.map_some,
      List.getElem?_range' hj, Option.some.injEq] at hmap
    omega
  have hjk : j = k := by
    rw [hget] at hnumber
    omega
  rw [← hjk, List.getElem?_eq_getElem hj, hget]

theorem take_definitions {cycle : ReplayCycle} {p : Packet} {k : ℕ}
    (hp : cycle.packets[k]? = some p) :
    (cycle.packets.take (k+1)).flatMap Packet.definitions =
      (cycle.packets.take k).flatMap Packet.definitions++p.definitions := by
  rw [List.take_add_one, hp, Option.toList_some, List.flatMap_append, List.flatMap_singleton]

end ReplayCycle

namespace SymbolController

def phase (T : ℤ) (j : ℕ) : DownloadState :=
  if j = 0 then .INIT else if j = 1 ∨ (j:ℤ) < T then .DOWNLOADING else .DOWNLOADED

theorem phase_complete (T : ℤ) (j : ℕ) : phase T j = .DOWNLOADED ↔ max 2 T ≤ j := by
  unfold phase
  split_ifs with hj hopen
  · exact iff_of_false nofun (by omega)
  · exact iff_of_false nofun (by omega)
  · exact iff_of_true rfl (by omega)

structure Progress (T : ℤ) (done : List MDInstrumentDefinition) (c : SymbolController) : Prop where
  table : SameTable c (done.foldl handleDefinition initial)
  state : c.state_ = phase T done.length
  total : done ≠ [] → c.totalnumreports_ = T
  within : done.length ≤ max 2 T

theorem Progress.complete_iff {T : ℤ} {done : List MDInstrumentDefinition} {c : SymbolController}
    (h : Progress T done c) : c.state_ = .DOWNLOADED ↔ done.length = max 2 T := by
  have hwithin := h.within
  rw [h.state, phase_complete]
  omega

def Reports (T : ℤ) (d : MDInstrumentDefinition) : Prop := d.totNumReports.toInt32.toInt = T

theorem cycle_reports {cycle : ReplayCycle} {d : MDInstrumentDefinition}
    (hd : d ∈ cycle.definitions) : Reports cycle.total d := by
  have hreported : d.totNumReports.toNat = cycle.size := cycle.reported d hd
  rw [Reports, ReplayCycle.total, ← hreported, UInt32.ofNat_toNat]

theorem initial_progress (T : ℤ) : Progress T [] initial :=
  ⟨.refl _,rfl,fun h => absurd rfl h,by simp⟩

theorem foldl_handleDefinition_count (c : SymbolController) (ds : List MDInstrumentDefinition) :
    (ds.foldl handleDefinition c).processedreports_ = c.processedreports_+ds.length := by
  induction ds generalizing c with
  | nil => simp
  | cons d ds ih =>
    rw [List.foldl_cons, ih, List.length_cons]
    change c.processedreports_+1+(ds.length:ℤ) = _
    omega

theorem Progress.count {T : ℤ} {done : List MDInstrumentDefinition} {c : SymbolController}
    (h : Progress T done c) : c.processedreports_ = done.length := by
  rw [h.table.2, foldl_handleDefinition_count]
  change 0+(done.length:ℤ) = _
  omega

theorem Progress.init_nil {T : ℤ} {done : List MDInstrumentDefinition} {c : SymbolController}
    (h : Progress T done c) (hs : c.state_ = .INIT) : done = [] := by
  have hstate := h.state
  cases done with
  | nil => rfl
  | cons x xs =>
    rw [hs, phase, if_neg (by simp)] at hstate
    split_ifs at hstate

theorem Progress.downloading_ne_nil {T : ℤ} {done : List MDInstrumentDefinition}
    {c : SymbolController} (h : Progress T done c) (hs : c.state_ = .DOWNLOADING) :
    done ≠ [] := by
  rintro rfl
  exact absurd (hs.symm.trans h.state) nofun

theorem onInstrument_progress {T : ℤ} {done : List MDInstrumentDefinition} {c : SymbolController}
    (h : Progress T done c) (hopen : c.state_ ≠ .DOWNLOADED) {d : MDInstrumentDefinition}
    (hd : Reports T d) : Progress T (done++[d]) (c.onInstrument d).1 := by
  have htable := handleDefinition_same h.table d
  have hfold : (done++[d]).foldl handleDefinition initial =
      (done.foldl handleDefinition initial).handleDefinition d := by
    rw [List.foldl_append, List.foldl_cons, List.foldl_nil]
  have hcount := h.count
  have hlength : (done++[d]).length = done.length+1 := by simp
  have hwithin : ((done++[d]).length:ℤ) ≤ max 2 T := by
    have hlt := h.within
    rw [ne_eq, h.complete_iff] at hopen
    omega
  rw [← hfold] at htable
  cases hs : c.state_ with
  | INIT =>
    have hnil := h.init_nil hs
    subst hnil
    rw [onInstrument, hs]
    exact ⟨htable,rfl,fun _ => hd,hwithin⟩
  | DOWNLOADING =>
    have hne := h.downloading_ne_nil hs
    have hpos : 0 < done.length := List.length_pos_iff.mpr hne
    have hdone : (c.handleDefinition d).downloadComplete = decide (T ≤ (done.length:ℤ)+1) := by
      rw [← hcount, ← h.total hne]
      rfl
    rw [onInstrument, hs]
    dsimp only
    rw [hdone]
    by_cases hT : T ≤ (done.length:ℤ)+1
    · rw [if_pos (decide_eq_true hT)]
      refine ⟨htable,?_,fun _ => h.total hne,hwithin⟩
      rw [hlength, phase, if_neg (by omega), if_neg (by omega)]
      rfl
    · rw [if_neg (by simpa using hT)]
      refine ⟨htable,?_,fun _ => h.total hne,hwithin⟩
      rw [hlength, phase, if_neg (by omega), if_pos (by omega)]
      exact hs
  | DOWNLOADED => exact absurd hs hopen

def handledStates (c : SymbolController) (m : Message) : List SymbolController :=
  if m.definition.isSome ∧ c.state_ ≠ .DOWNLOADED then [(c.handleMessage m).1] else []

inductive Traced (T : ℤ) : List MDInstrumentDefinition → List SymbolController →
    List MDInstrumentDefinition → Prop
  | nil (done : List MDInstrumentDefinition) : Traced T done [] done
  | cons {done done' : List MDInstrumentDefinition} {d : MDInstrumentDefinition}
      {c : SymbolController} {cs : List SymbolController} (h : Progress T (done++[d]) c)
      (hs : Traced T (done++[d]) cs done') : Traced T done (c::cs) done'

theorem Traced.append {T : ℤ} {a b c : List MDInstrumentDefinition}
    {xs ys : List SymbolController} (h : Traced T a xs b) (h' : Traced T b ys c) :
    Traced T a (xs++ys) c := by
  induction h with
  | nil _ => exact h'
  | cons h _ ih => exact .cons h (ih h')

theorem observe_complete {c : SymbolController} (hc : c.state_ = .DOWNLOADED)
    (ms : List Message) : observe handleMessage handledStates c ms = [] := by
  induction ms with
  | nil => rfl
  | cons m ms ih =>
    have hsame : c.handleMessage m = (c,[]) := (handleMessage_handled c m).gives.frozen hc
    rw [observe, hsame, ih, handledStates, if_neg fun h => h.2 hc]
    rfl

/-- What the definitions `defs` do to a download that has handled `done`: they
are handled in order, up to the one that completes it. -/
structure Advances (T : ℤ) (done defs done' : List MDInstrumentDefinition)
    (states : List SymbolController) (c' : SymbolController) : Prop where
  progress : Progress T done' c'
  traced : Traced T done states done'
  handled : done' <+: done++defs
  all : c'.state_ ≠ .DOWNLOADED → done' = done++defs

theorem advances_nothing {T : ℤ} {done : List MDInstrumentDefinition} {c : SymbolController}
    (h : Progress T done c) : Advances T done [] done [] c :=
  ⟨h,.nil done,by simp,fun _ => by simp⟩

theorem advances_complete {T : ℤ} {done : List MDInstrumentDefinition} {c : SymbolController}
    (h : Progress T done c) (hc : c.state_ = .DOWNLOADED) (defs : List MDInstrumentDefinition) :
    Advances T done defs done [] c :=
  ⟨h,.nil done,List.prefix_append done defs,fun hopen => absurd hc hopen⟩

theorem Advances.cons {T : ℤ} {done done' ds : List MDInstrumentDefinition}
    {d : MDInstrumentDefinition} {c c' : SymbolController} {cs : List SymbolController}
    (h : Progress T (done++[d]) c) (h' : Advances T (done++[d]) ds done' cs c') :
    Advances T done (d::ds) done' (c::cs) c' := by
  have hassoc : done++d::ds = done++[d]++ds := by simp
  exact ⟨h'.progress,.cons h h'.traced,hassoc ▸ h'.handled,fun hopen => hassoc ▸ h'.all hopen⟩

theorem run_advances {T : ℤ} {done : List MDInstrumentDefinition} {c : SymbolController}
    (h : Progress T done c) (ms : List Message)
    (hms : ∀ d ∈ ms.filterMap Message.definition, Reports T d) :
    ∃ done', Advances T done (ms.filterMap Message.definition) done'
      (observe handleMessage handledStates c ms) (run handleMessage c ms).1 := by
  induction ms generalizing c done with
  | nil => exact ⟨done,advances_nothing h⟩
  | cons m ms ih =>
    cases hm : m.definition with
    | none =>
      have hsame : c.handleMessage m = (c,[]) := by rw [handleMessage, hm]
      have hdefs : (m::ms).filterMap Message.definition = ms.filterMap Message.definition := by
        simp [hm]
      rw [hdefs] at hms ⊢
      rw [observe, run_cons, hsame, handledStates, hm]
      exact ih h hms
    | some d =>
      have hdefs : (m::ms).filterMap Message.definition = d::ms.filterMap Message.definition := by
        simp [hm]
      have hstep : c.handleMessage m = c.onInstrument d := by rw [handleMessage, hm]
      rw [hdefs] at hms ⊢
      by_cases hc : c.state_ = .DOWNLOADED
      · have hfrozen := (run_handled c (m::ms)).gives.frozen hc
        have hsilent : observe handleMessage handledStates c (m::ms) = [] :=
          observe_complete hc _
        rw [hfrozen, hsilent]
        exact ⟨done,advances_complete h hc _⟩
      · have hprogress := onInstrument_progress h hc (hms d (by simp))
        obtain ⟨done',hrest⟩ := ih hprogress fun x hx => hms x (by simp [hx])
        refine ⟨done', ?_⟩
        rw [observe, run_cons, handledStates, hm, hstep, if_pos ⟨rfl,hc⟩]
        exact .cons hprogress hrest

def packetStates (c : SymbolController) (packet : Packet) : List SymbolController :=
  if c.Accepts packet then observe handleMessage handledStates c packet.messages else []

/-- The controller has accepted the first `k` packets of the cycle. -/
structure Stage (cycle : ReplayCycle) (k : ℕ) (done : List MDInstrumentDefinition)
    (c : SymbolController) : Prop where
  within : k ≤ cycle.packets.length
  expected : c.expectedseqnum_ = k+1
  progress : Progress cycle.total done c
  handled : done <+: (cycle.packets.take k).flatMap Packet.definitions
  all : c.state_ ≠ .DOWNLOADED → done = (cycle.packets.take k).flatMap Packet.definitions

theorem initial_stage (cycle : ReplayCycle) : Stage cycle 0 [] initial :=
  ⟨Nat.zero_le _,rfl,initial_progress _,by simp,fun _ => rfl⟩

theorem Progress.renumber {T : ℤ} {done : List MDInstrumentDefinition} {c : SymbolController}
    (h : Progress T done c) (n : ℤ) : Progress T done {c with expectedseqnum_ := n} :=
  ⟨h.table,h.state,h.total,h.within⟩

theorem Stage.expects {cycle : ReplayCycle} {k : ℕ} {done : List MDInstrumentDefinition}
    {c : SymbolController} (h : Stage cycle k done c) : c.expected = (k+1:ℤ)%2^32 := by
  rw [SymbolController.expected, h.expected]

theorem Stage.accepted {cycle : ReplayCycle} {k : ℕ} {done : List MDInstrumentDefinition}
    {c : SymbolController} (h : Stage cycle k done c) {p : Packet} (hp : p ∈ cycle.packets)
    (ha : c.Accepts p) :
    p.number = k+1 ∧ ∃ done', Stage cycle (k+1) done' (c.onInstrumentPacket p).1 ∧
      Traced cycle.total done (packetStates c p) done' := by
  have hbounds := ReplayCycle.mem_number hp
  have hn := cycle.length_lt
  have hk := h.within
  have hnumber : p.number = k+1 := by
    have hexpected := ha.1
    rw [h.expects] at hexpected
    omega
  have htake := ReplayCycle.take_definitions (ReplayCycle.getElem_number hp hnumber)
  have hreports : ∀ d ∈ p.definitions, Reports cycle.total d :=
    fun d hd => cycle_reports (List.mem_flatMap.mpr ⟨p,hp,hd⟩)
  obtain ⟨done',hadvances⟩ := run_advances h.progress p.messages hreports
  have hdone : done++p.definitions = (cycle.packets.take (k+1)).flatMap Packet.definitions := by
    rw [h.all ha.2, htake]
  constructor
  · exact hnumber
  · rw [onInstrumentPacket_accepted c p ha, packetStates, if_pos ha]
    refine ⟨done',⟨by omega,?_,hadvances.progress.renumber _,?_,fun hopen => ?_⟩,
      hadvances.traced⟩
    · dsimp only
      rw [(run_handled c p.messages).expected, h.expected]
      omega
    · rw [← hdone]
      exact hadvances.handled
    · rw [← hdone]
      exact hadvances.all hopen

theorem Stage.step {cycle : ReplayCycle} {k : ℕ} {done : List MDInstrumentDefinition}
    {c : SymbolController} (h : Stage cycle k done c) {p : Packet} (hp : p ∈ cycle.packets) :
    ∃ k' done', Stage cycle k' done' (c.onInstrumentPacket p).1 := by
  by_cases ha : c.Accepts p
  · obtain ⟨-,done',hnext,-⟩ := h.accepted hp ha
    exact ⟨k+1,done',hnext⟩
  by_cases hr : c.Restarts p
  · rw [onInstrumentPacket_restarted c p hr]
    exact ⟨0,[],initial_stage cycle⟩
  · rw [onInstrumentPacket_ignored c p ha hr]
    exact ⟨k,done,h⟩

theorem Traced.mem {T : ℤ} {done done' : List MDInstrumentDefinition}
    {states : List SymbolController} (h : Traced T done states done') :
    done.length ≤ done'.length ∧ ∀ x ∈ states, ∃ mid, Progress T mid x ∧
      done.length < mid.length ∧ mid.length ≤ done'.length := by
  induction h with
  | nil _ => simp
  | @cons done done' d c cs hc _ ih =>
    obtain ⟨hlength,hmem⟩ := ih
    rw [List.length_append, List.length_singleton] at hlength hmem
    constructor
    · omega
    · intro x hx
      rcases List.mem_cons.mp hx with rfl | hx
      · exact ⟨done++[d],hc,by simp,by simpa using hlength⟩
      · obtain ⟨mid,hmid,hlow,hhigh⟩ := hmem x hx
        exact ⟨mid,hmid,by omega,hhigh⟩

/-- In whatever order the packets of a cycle arrive, the state reached is a
stage, and the states after the definitions handled on the way have progressed. -/
theorem Stage.deliveries {cycle : ReplayCycle} {k : ℕ} {done : List MDInstrumentDefinition}
    {c : SymbolController} (h : Stage cycle k done c) (ps : List Packet)
    (hps : ∀ p ∈ ps, p ∈ cycle.packets) :
    (∃ k' done', Stage cycle k' done' (run onInstrumentPacket c ps).1) ∧
      ∀ x ∈ observe onInstrumentPacket packetStates c ps,
        ∃ mid, Progress cycle.total mid x ∧ mid ≠ [] := by
  induction ps generalizing c k done with
  | nil => exact ⟨⟨k,done,h⟩,by simp [observe]⟩
  | cons p ps ih =>
    have hp : p ∈ cycle.packets := hps p (by simp)
    obtain ⟨k',done',hnext⟩ := h.step hp
    obtain ⟨hend,hstates⟩ := ih hnext fun q hq => hps q (by simp [hq])
    constructor
    · exact hend
    · intro x hx
      rcases List.mem_append.mp hx with hx | hx
      · have ha : c.Accepts p := by
          by_contra ha
          rw [packetStates, if_neg ha] at hx
          exact absurd hx List.not_mem_nil
        obtain ⟨-,done₁,-,htraced⟩ := h.accepted hp ha
        obtain ⟨mid,hmid,hlow,-⟩ := htraced.mem.2 x hx
        exact ⟨mid,hmid,List.ne_nil_of_length_pos (by omega)⟩
      · exact hstates x hx

theorem Stage.more {cycle : ReplayCycle} {k : ℕ} {done : List MDInstrumentDefinition}
    {c : SymbolController} (h : Stage cycle k done c) (hsize : 2 ≤ cycle.size)
    (hopen : c.state_ ≠ .DOWNLOADED) : k < cycle.packets.length := by
  have hwithin := h.within
  by_contra hk
  have hall : done.length = cycle.size := by
    rw [h.all hopen, List.take_of_length_le (by omega)]
    rfl
  have hlt := h.progress.within
  have hne := mt h.progress.complete_iff.mpr hopen
  rw [ReplayCycle.max_total hsize] at hlt hne
  split_ifs at hlt hne <;> omega

theorem Stage.complete {cycle : ReplayCycle} {k : ℕ} {done : List MDInstrumentDefinition}
    {c : SymbolController} (h : Stage cycle k done c) (hc : c.state_ = .DOWNLOADED) :
    done = cycle.definitions.take (max 2 cycle.total).toNat := by
  have hlength := h.progress.complete_iff.mp hc
  have hprefix : done <+: cycle.definitions := by
    have hall : cycle.definitions = (cycle.packets.take k).flatMap Packet.definitions++
        (cycle.packets.drop k).flatMap Packet.definitions := by
      rw [ReplayCycle.definitions, ← List.flatMap_append, List.take_append_drop]
    rw [hall]
    exact h.handled.trans (List.prefix_append _ _)
  rw [← hlength, Int.toNat_natCast]
  exact List.prefix_iff_eq_take.mp hprefix

theorem Stage.expects_next {cycle : ReplayCycle} {k : ℕ} {done : List MDInstrumentDefinition}
    {c : SymbolController} (h : Stage cycle k done c) (hsize : 2 ≤ cycle.size)
    (hopen : c.state_ ≠ .DOWNLOADED) : c.expected = k+1 := by
  have hmore := h.more hsize hopen
  have hn := cycle.length_lt
  rw [h.expects]
  omega

theorem Stage.arrival {cycle : ReplayCycle} {k : ℕ} {done : List MDInstrumentDefinition}
    {c : SymbolController} (h : Stage cycle k done c) (hsize : 2 ≤ cycle.size) {p : Packet}
    (hp : p ∈ cycle.packets) (hnumber : c.state_ ≠ .DOWNLOADED → p.number ≤ k+1) :
    ¬c.Restarts p ∧ ∃ k' done', k ≤ k' ∧ Stage cycle k' done' (c.onInstrumentPacket p).1 ∧
      Traced cycle.total done (packetStates c p) done' ∧
      ((c.onInstrumentPacket p).1.state_ ≠ .DOWNLOADED → p.number ≤ k') := by
  have hrestarts : ¬c.Restarts p := by
    rintro ⟨hahead,hstate⟩
    have hopen : c.state_ ≠ .DOWNLOADED := by
      rw [hstate]
      nofun
    rw [h.expects_next hsize hopen] at hahead
    have := hnumber hopen
    omega
  refine ⟨hrestarts,?_⟩
  by_cases ha : c.Accepts p
  · obtain ⟨hnext,done',hstage,htraced⟩ := h.accepted hp ha
    exact ⟨k+1,done',by omega,hstage,htraced,fun _ => by omega⟩
  · rw [onInstrumentPacket_ignored c p ha hrestarts, packetStates, if_neg ha]
    refine ⟨k,done,Nat.le_refl k,h,.nil done,fun hopen => ?_⟩
    have hne : (p.number:ℤ) ≠ c.expected := fun hsame => ha ⟨hsame,hopen⟩
    rw [h.expects_next hsize hopen] at hne
    have := hnumber hopen
    omega

theorem Stage.gapless {cycle : ReplayCycle} {k : ℕ} {done : List MDInstrumentDefinition}
    {c : SymbolController} (h : Stage cycle k done c) (hsize : 2 ≤ cycle.size) {e : ℕ}
    (he : c.state_ ≠ .DOWNLOADED → e ≤ k+1) {l : List Packet}
    (hl : ∀ p ∈ l, p ∈ cycle.packets) (hgapless : Gapless Packet.number e l) :
    (∀ pre p post, l = pre++p::post → ¬(run onInstrumentPacket c pre).1.Restarts p) ∧
      ∃ k' done', k ≤ k' ∧ Stage cycle k' done' (run onInstrumentPacket c l).1 ∧
        Traced cycle.total done (observe onInstrumentPacket packetStates c l) done' ∧
        ((run onInstrumentPacket c l).1.state_ ≠ .DOWNLOADED → ∀ p ∈ l, p.number ≤ k') := by
  induction l generalizing c k done e with
  | nil => exact ⟨by simp,k,done,Nat.le_refl k,h,.nil done,by simp⟩
  | cons p ps ih =>
    have hps : ∀ q ∈ ps, q ∈ cycle.packets := fun q hq => hl q (by simp [hq])
    obtain ⟨hhead,hrest⟩ := hgapless
    obtain ⟨hrestarts,k₁,done₁,hk₁,hstage,htraced,hopen₁⟩ :=
      h.arrival hsize (hl p (by simp)) fun hopen => by
        have := he hopen
        omega
    have hmax : (c.onInstrumentPacket p).1.state_ ≠ .DOWNLOADED →
        max e (p.number+1) ≤ k₁+1 := by
      intro hopen
      have hbefore : c.state_ ≠ .DOWNLOADED := by
        intro hdone
        rw [(onInstrumentPacket_gives c p).frozen hdone] at hopen
        exact hopen hdone
      have := he hbefore
      have := hopen₁ hopen
      omega
    obtain ⟨hnone,k',done',hk',hend,hstates,hnumbers⟩ := ih hstage hmax hps hrest
    constructor
    · rw [forall_split_cons fun pre q => ¬(run onInstrumentPacket c pre).1.Restarts q]
      exact ⟨hrestarts,hnone⟩
    · refine ⟨k',done',by omega,hend,htraced.append hstates,fun hopen q hq => ?_⟩
      rcases List.mem_cons.mp hq with rfl | hq
      · have hfirst : (c.onInstrumentPacket q).1.state_ ≠ .DOWNLOADED := by
          intro hdone
          rw [run_cons, run_downloaded _ hdone] at hopen
          exact hopen hdone
        have := hopen₁ hfirst
        omega
      · exact hnumbers hopen q hq

theorem Stage.copies {cycle : ReplayCycle} {k : ℕ} {done : List MDInstrumentDefinition}
    {c : SymbolController} (h : Stage cycle k done c) (hsize : 2 ≤ cycle.size)
    {l : List Packet} (hl : Copies cycle.packets l) :
    (∀ pre p post, l = pre++p::post → ¬(run onInstrumentPacket c pre).1.Restarts p) ∧
      (run onInstrumentPacket c l).1.state_ = .DOWNLOADED ∧
      SameTable (run onInstrumentPacket c l).1
        ((cycle.definitions.take (max 2 cycle.total).toNat).foldl handleDefinition initial) := by
  have hgapless : Gapless Packet.number (k+1) l :=
    hl.gapless ((gapless_numbered cycle.numbered).mono (by omega))
  obtain ⟨hnone,k',done',-,hend,-,hnumbers⟩ :=
    h.gapless hsize (fun _ => Nat.le_refl _) (fun p hp => (hl.mem_iff p).mp hp) hgapless
  have hcomplete : (run onInstrumentPacket c l).1.state_ = .DOWNLOADED := by
    by_contra hopen
    have hmore := hend.more hsize hopen
    have hnext : k'+1 ∈ cycle.packets.map Packet.number := by
      rw [cycle.numbered, List.mem_range'_1]
      omega
    obtain ⟨p,hp,hnumber⟩ := List.mem_map.mp hnext
    have := hnumbers hopen p ((hl.mem_iff p).mpr hp)
    omega
  refine ⟨hnone,hcomplete,?_⟩
  rw [← hend.complete hcomplete]
  exact hend.progress.table

theorem reachable_stage {cycle : ReplayCycle} (ps : List Packet)
    (hps : ∀ p ∈ ps, p ∈ cycle.packets) :
    ∃ k done, Stage cycle k done (run onInstrumentPacket construct.1 ps).1 :=
  ((initial_stage cycle).deliveries ps hps).1

/-- After some packets of the cycle, others complete the download without a
reset, and the table is that of the whole cycle. -/
def Recovers (cycle : ReplayCycle) (earlier later : List Packet) : Prop :=
  let c := (run onInstrumentPacket construct.1 earlier).1
  let r := run onInstrumentPacket c later
  (∀ pre p post, later = pre++p::post → ¬(run onInstrumentPacket c pre).1.Restarts p) ∧
    r.1.state_ = .DOWNLOADED ∧ r.1.instruments_ = cycle.table

/-- A download recovers from whatever packets of the cycle came first as soon
as complete copies of it follow over any lines, unless the size is beyond the
`int` and the first two definitions do not make the table by themselves. -/
theorem cycle_recovers (cycle : ReplayCycle) (earlier later : List Packet)
    (hsize : 2 ≤ cycle.size) (hearlier : ∀ p ∈ earlier, p ∈ cycle.packets)
    (hlater : Copies cycle.packets later) :
    Recovers cycle earlier later ↔ cycle.size < 2^31 ∨
      ((cycle.definitions.take 2).foldl handleDefinition construct.1).instruments_ =
        cycle.table := by
  obtain ⟨k,done,hstage⟩ := reachable_stage earlier hearlier
  obtain ⟨hnone,hcomplete,htable⟩ := hstage.copies hsize hlater
  rw [ReplayCycle.max_total hsize] at htable
  split_ifs at htable with hsmall
  · rw [Int.toNat_natCast, ReplayCycle.size, List.take_length] at htable
    exact iff_of_true ⟨hnone,hcomplete,htable.1⟩ (Or.inl hsmall)
  · constructor
    · intro hrecovers
      exact Or.inr (htable.1.symm.trans hrecovers.2.2)
    · intro hcondition
      exact ⟨hnone,hcomplete,htable.1.trans (hcondition.resolve_left hsmall)⟩

theorem Traced.last {T : ℤ} {done done' : List MDInstrumentDefinition}
    {init : List SymbolController} {last : SymbolController}
    (h : Traced T done (init++[last]) done') :
    Progress T done' last ∧ done'.length = done.length+init.length+1 ∧
      ∀ x ∈ init, ∃ mid, Progress T mid x ∧ mid.length < done'.length := by
  induction init generalizing done with
  | nil =>
    cases h with
    | cons hlast hnil =>
      cases hnil
      exact ⟨hlast,by simp,by simp⟩
  | cons x init ih =>
    cases h with
    | cons hx hrest =>
      obtain ⟨hlast,hlength,hinit⟩ := ih hrest
      rw [List.length_append, List.length_singleton] at hlength
      refine ⟨hlast,by rw [hlength, List.length_cons]; omega,fun y hy => ?_⟩
      rcases List.mem_cons.mp hy with rfl | hy
      · exact ⟨_,hx,by rw [hlength, List.length_append, List.length_singleton]; omega⟩
      · exact hinit y hy

def CompletesExactly (cycle : ReplayCycle) (states : List SymbolController) : Prop :=
  ∃ init last, states = init++[last] ∧ init.length+1 = cycle.size ∧
    (∀ x ∈ init, x.state_ ≠ .DOWNLOADED) ∧ last.state_ = .DOWNLOADED ∧
    last.processedreports_ = (cycle.size:ℤ) ∧ last.totalnumreports_ = (cycle.size:ℤ)

theorem completes_exactly (cycle : ReplayCycle) :
    CompletesExactly cycle
      (observe onInstrumentPacket packetStates construct.1 cycle.packets) ↔
        2 ≤ cycle.size ∧ cycle.size < 2^31 := by
  constructor
  · rintro ⟨init,last,hstates,-,-,hcomplete,hprocessed,htotal⟩
    obtain ⟨mid,hmid,hne⟩ := ((initial_stage cycle).deliveries cycle.packets
      fun _ hp => hp).2 last (hstates ▸ by simp)
    have hlength := hmid.complete_iff.mp hcomplete
    rw [hmid.count] at hprocessed
    rw [hmid.total hne] at htotal
    have hbound := cycle.total_lt
    omega
  · rintro ⟨hsize,hsmall⟩
    have hcomplete := ((initial_stage cycle).copies hsize .one).2.1
    obtain ⟨-,k',done',-,hend,htraced,-⟩ := (initial_stage cycle).gapless hsize
      (fun _ => Nat.le_refl _) (fun _ hp => hp) (gapless_numbered cycle.numbered)
    have htotal := ReplayCycle.total_eq hsmall
    have hdone := hend.progress.complete_iff.mp hcomplete
    rcases List.eq_nil_or_concat (observe onInstrumentPacket packetStates initial cycle.packets)
      with hnil | ⟨init,last,hconcat⟩
    · rw [hnil] at htraced
      cases htraced
      rw [List.length_nil] at hdone
      omega
    · rw [List.concat_eq_append] at hconcat
      rw [hconcat] at htraced
      obtain ⟨hlast,hlength,hinit⟩ := htraced.last
      rw [List.length_nil] at hlength
      refine ⟨init,last,hconcat,by omega,fun x hx hx' => ?_,hlast.complete_iff.mpr hdone,?_,?_⟩
      · obtain ⟨mid,hmid,hlt⟩ := hinit x hx
        have := hmid.complete_iff.mp hx'
        omega
      · rw [hlast.count]
        omega
      · rw [hlast.total (List.ne_nil_of_length_pos (by omega)), htotal]

def cyclePacket (size i : ℕ) : Packet where
  seqnum := UInt32.ofNat i
  messages := [{templateId := 27, mDInstrumentDefinitionFuture27 :=
    {totNumReports := UInt32.ofNat size, symbol := if i ≤ 2 then "ESH8" else "ESM8"}}]

theorem cyclePacket_definitions (size i : ℕ) : (cyclePacket size i).definitions =
    [{totNumReports := UInt32.ofNat size, symbol := if i ≤ 2 then "ESH8" else "ESM8"}] := rfl

theorem flatMap_cyclePacket (size : ℕ) (is : List ℕ) :
    (is.map (cyclePacket size)).flatMap Packet.definitions = is.map fun i =>
      {totNumReports := UInt32.ofNat size, symbol := if i ≤ 2 then "ESH8" else "ESM8"} := by
  induction is with
  | nil => rfl
  | cons i is ih =>
    rw [List.map_cons, List.flatMap_cons, ih, cyclePacket_definitions, List.singleton_append,
      List.map_cons]

def sampleCycle (size : ℕ) (h : size < 2^32) : ReplayCycle where
  packets := (List.range' 1 size).map (cyclePacket size)
  numbered := by
    rw [List.map_map, List.length_map, List.length_range']
    conv_rhs => rw [← List.map_id (List.range' 1 size)]
    apply List.map_congr_left
    intro i hi
    have hbound := List.mem_range'_1.mp hi
    exact Nat.mod_eq_of_lt (by omega)
  reported d hd := by
    rw [flatMap_cyclePacket] at hd ⊢
    obtain ⟨i,-,rfl⟩ := List.mem_map.mp hd
    rw [List.length_map, List.length_range']
    exact Nat.mod_eq_of_lt h

theorem sampleCycle_definitions (size : ℕ) (h : size < 2^32) :
    (sampleCycle size h).definitions = (List.range' 1 size).map fun i =>
      {totNumReports := UInt32.ofNat size, symbol := if i ≤ 2 then "ESH8" else "ESM8"} :=
  flatMap_cyclePacket size _

theorem sampleCycle_size (size : ℕ) (h : size < 2^32) : (sampleCycle size h).size = size := by
  rw [ReplayCycle.size, sampleCycle_definitions, List.length_map, List.length_range']

theorem foldl_add (ds : List MDInstrumentDefinition)
    (hadd : ∀ d ∈ ds, d.securityUpdateAction = .Add) (c : SymbolController) (symbol : String) :
    (ds.foldl handleDefinition c).instruments_ symbol = none ↔
      c.instruments_ symbol = none ∧ ∀ d ∈ ds, d.symbol ≠ symbol := by
  induction ds generalizing c with
  | nil => simp
  | cons d ds ih =>
    have hd : d.securityUpdateAction = .Add := hadd d (by simp)
    have hfirst : (c.handleDefinition d).instruments_ symbol = none ↔
        c.instruments_ symbol = none ∧ d.symbol ≠ symbol := by
      unfold handleDefinition
      rw [hd]
      dsimp only
      by_cases hsymbol : symbol = d.symbol
      · subst hsymbol
        split_ifs with hnew
        · simp
        · simp [hnew]
      · split_ifs with hnew
        · rw [Function.update_of_ne hsymbol]
          simp [Ne.symm hsymbol]
        · simp [Ne.symm hsymbol]
    rw [List.foldl_cons, ih (fun x hx => hadd x (by simp [hx])), hfirst, and_assoc]
    simp

theorem sampleCycle_add {size : ℕ} (h : size < 2^32) :
    ∀ d ∈ (sampleCycle size h).definitions, d.securityUpdateAction = .Add := by
  intro d hd
  rw [sampleCycle_definitions] at hd
  obtain ⟨i,-,rfl⟩ := List.mem_map.mp hd
  rfl

theorem sampleCycle_first {size : ℕ} (h : size < 2^32) (hsize : 2 < size) :
    (((sampleCycle size h).definitions.take 2).foldl handleDefinition initial).instruments_
      "ESM8" = none := by
  rw [foldl_add _ fun d hd => sampleCycle_add h d (List.mem_of_mem_take hd)]
  constructor
  · rfl
  · intro d hd
    rw [sampleCycle_definitions, ← List.map_take,
      List.take_range'_of_length_ge (Nat.le_of_lt hsize)] at hd
    obtain ⟨i,hi,rfl⟩ := List.mem_map.mp hd
    have hbound := List.mem_range'_1.mp hi
    dsimp only
    rw [if_pos (by omega)]
    decide

theorem sampleCycle_table {size : ℕ} (h : size < 2^32) (hsize : 2 < size) :
    (sampleCycle size h).table "ESM8" ≠ none := by
  intro hnone
  rw [ReplayCycle.table, foldl_add _ (sampleCycle_add h), sampleCycle_definitions] at hnone
  have hthird : 3 ∈ List.range' 1 size := List.mem_range'_1.mpr (by omega)
  exact hnone.2 _ (List.mem_map_of_mem hthird) rfl

theorem cycle_recovers_sample :
    let first := cyclePacket 2 1
    let second := cyclePacket 2 2
    Recovers (sampleCycle 2 (by decide)) [second,first] [first,first,second,second] :=
  (cycle_recovers (sampleCycle 2 (by decide)) _ _ (by decide) (by decide)
    (.more .one (.left (.right (.left (.right .nil)))))).mpr (Or.inl (by decide))

theorem sampleCycle_stuck {size : ℕ} (h : size < 2^32) (hsize : 2^31 ≤ size) :
    ¬Recovers (sampleCycle size h) [] (sampleCycle size h).packets := by
  intro hrecovers
  have hlarge : 2^31 ≤ (sampleCycle size h).size := by
    rw [sampleCycle_size]
    exact hsize
  have htwo : 2 ≤ (sampleCycle size h).size := by omega
  obtain ⟨-,-,htable⟩ := (initial_stage (sampleCycle size h)).copies htwo .one
  rw [ReplayCycle.max_total htwo, if_neg (Nat.not_lt.mpr hlarge)] at htable
  apply sampleCycle_table h (by omega)
  rw [← hrecovers.2.2]
  exact (congrFun htable.1 "ESM8").trans (sampleCycle_first h (by omega))

/-- With `2^31` definitions the total is received as a negative number. -/
theorem cycle_recovers_large :
    let cycle := sampleCycle (2^31) (by decide)
    2 ≤ cycle.size ∧ ¬Recovers cycle [] cycle.packets := by
  intro cycle
  constructor
  · rw [sampleCycle_size]
    decide
  · exact sampleCycle_stuck _ (Nat.le_refl _)

end SymbolController

end CmeFeed
