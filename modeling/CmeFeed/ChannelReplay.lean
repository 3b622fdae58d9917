import CmeFeed.Publication
import CmeFeed.Synchrony

/-!
# The whole channel as replicas of its instruments

A channel is fed subscriptions and packets of both feeds, with any loss,
repetition and reordering. For each instrument it keeps a replica of that
instrument's history, and tells listeners of nothing but states of this
history, in order.
-/

set_option autoImplicit false

namespace CmeFeed

open Reactive

variable (F : Floats) (i : Instrument) (hist : ℕ → Entry)

def pages (k : ℕ) : List (DepthBook F.Float) := [(bookAt F i hist k).main,(bookAt F i hist k).impl]

/-- Pages of the history up to a position, none before an earlier one. -/
def Pages (n : ℕ) (books : List (DepthBook F.Float)) : Prop :=
  ∃ ks : List ℕ, ks.Pairwise (· ≤ ·) ∧ (∀ k ∈ ks, k ≤ n) ∧ books = ks.flatMap (pages F i hist)

variable {F i hist}

theorem pages_nil (n : ℕ) : Pages F i hist n [] := ⟨[],List.Pairwise.nil,nofun,rfl⟩

theorem Pages.mono {n m : ℕ} {books : List (DepthBook F.Float)} (h : Pages F i hist n books)
    (hnm : n ≤ m) : Pages F i hist m books := by
  obtain ⟨ks,hsorted,hle,hbooks⟩ := h
  exact ⟨ks,hsorted,fun k hk => Nat.le_trans (hle k hk) hnm,hbooks⟩

theorem Pages.snoc {n m : ℕ} {books : List (DepthBook F.Float)} (h : Pages F i hist n books)
    (hnm : n ≤ m) : Pages F i hist m (books++pages F i hist m) := by
  obtain ⟨ks,hsorted,hle,rfl⟩ := h
  refine ⟨ks++[m],?_,?_,?_⟩
  · rw [List.pairwise_append]
    refine ⟨hsorted,List.pairwise_singleton _ m,fun k hk l hl => ?_⟩
    rw [List.mem_singleton.mp hl]
    exact Nat.le_trans (hle k hk) hnm
  · intro k hk
    rcases List.mem_append.mp hk with hk | hk
    · exact Nat.le_trans (hle k hk) hnm
    · exact Nat.le_of_eq (List.mem_singleton.mp hk)
  · rw [List.flatMap_append, List.flatMap_singleton]

namespace InstrumentController

def reached (c : InstrumentController F) : ℕ :=
  if c.state_ = .INITIAL then 0 else c.processed_rptseq_.toNat

theorem reached_started {c : InstrumentController F} (hs : c.state_ ≠ .INITIAL) :
    c.reached = c.processed_rptseq_.toNat := if_neg hs

theorem deliver_instrument (c : InstrumentController F) (d : Delivery) :
    (c.deliver d).1.instrument_ = c.instrument_ := by
  rcases c.deliver_cases d with ⟨e,-,-,he⟩ | ⟨e,-,-,he⟩ | ⟨e,-,-,-,he⟩ | ⟨r,-,-,he⟩ |
    ⟨r,-,-,he⟩ | ⟨-,he⟩ <;> exact congrArg (·.1.instrument_) he

variable (i hist) in
/-- The books are those of the history at the position reached, and so were all
that listeners were told. -/
structure Told (c : InstrumentController F) (books : List (DepthBook F.Float)) : Prop where
  sound : c.Sound i
  replayed : c.mdhandler_.books = bookAt F i hist c.reached
  told : Pages F i hist c.reached books

theorem construct_told (i : Instrument) (hist : ℕ → Entry) (m : Indeterminate) :
    (construct i m : InstrumentController F × _).1.Told i hist [] :=
  ⟨construct_sound i m,(bookAt_replay 0).symm,pages_nil _⟩

theorem deliver_replayed {c : InstrumentController F} {d : Delivery} (hc : c.Sound i)
    (hbooks : c.mdhandler_.books = bookAt F i hist c.reached) (hd : Truthful F i hist d) :
    (c.deliver d).1.mdhandler_.books = bookAt F i hist (c.deliver d).1.reached ∧
      c.reached ≤ (c.deliver d).1.reached := by
  have hc' := deliver_sound c d hc
  by_cases hs' : (c.deliver d).1.state_ = .INITIAL
  · have hs : c.state_ = .INITIAL := by
      by_contra hs
      exact (deliver_follows c d hc hs hd).1 hs'
    rw [hc'.fresh hs', reached, if_pos hs', reached, if_pos hs]
    exact ⟨(bookAt_replay 0).symm,Nat.le_refl 0⟩
  · have hexact : (c.deliver d).1.position.Exact Books.onIncremental (.empty F i) hist ∧
        c.reached ≤ (c.deliver d).1.position.position := by
      by_cases hs : c.state_ = .INITIAL
      · rw [reached, if_pos hs]
        exact ⟨deliver_starts c d hc hs hd hs',Nat.zero_le _⟩
      · have hmove := (deliver_follows c d hc hs hd).2
        rw [reached_started hs] at hbooks ⊢
        exact ⟨hmove.exact (hbooks.trans (bookAt_replay _)),hmove.mono⟩
    rw [reached_started hs']
    exact ⟨hexact.1.trans (bookAt_replay _).symm,hexact.2⟩

theorem deliver_told {s : UInt32} {c : InstrumentController F} {d : Delivery}
    {books : List (DepthBook F.Float)} (hk : c.Keyed s) (h : c.Told i hist books)
    (hd : Truthful F i hist d) :
    (c.deliver d).1.Told i hist (books++notifiedOf s (c.deliver d).2) := by
  obtain ⟨hbooks,hle⟩ := deliver_replayed h.sound h.replayed hd
  refine ⟨deliver_sound c d h.sound,hbooks,?_⟩
  by_cases hcommit : d = .commit
  · subst hcommit
    rw [show (c.deliver .commit).2 = c.commit.2 from rfl, commit_notifiedOf hk]
    cases c.mdhandler_.statechange_ with
    | false =>
      rw [if_neg nofun, List.append_nil]
      exact h.told.mono hle
    | true =>
      have hsame : c.mdhandler_.books = bookAt F i hist (c.deliver .commit).1.reached :=
        (InstrumentMdHandler.commit_books _).symm.trans hbooks
      rw [if_pos rfl, hsame]
      exact h.told.snoc hle
  · rw [notifiedOf_silent s (c.deliver_silent d hcommit), List.append_nil]
    exact h.told.mono hle

theorem run_instrument (c : InstrumentController F) (ds : List Delivery) :
    (run deliver c ds).1.instrument_ = c.instrument_ :=
  run_invariant deliver (fun t => t.instrument_ = c.instrument_) (fun _ => True)
    (fun t d _ ht => (deliver_instrument t d).trans ht) c ds (fun _ _ => trivial) rfl

end InstrumentController

/-- What `R` says of the instrument's controller and of the books told so far
holds of a new one, and deliveries that are `Good` keep it. -/
structure Attended (i : Instrument) (s : UInt32) (Good : Delivery → Prop)
    (R : InstrumentController F → List (DepthBook F.Float) → Prop) : Prop where
  constructed : ∀ m, R (InstrumentController.construct i m).1 []
  delivered : ∀ {c books d}, c.Keyed s → R c books → Good d →
    R (c.deliver d).1 (books++notifiedOf s (c.deliver d).2)

theorem Attended.run {s : UInt32} {Good : Delivery → Prop}
    {R : InstrumentController F → List (DepthBook F.Float) → Prop} (h : Attended i s Good R)
    {c : InstrumentController F} {books : List (DepthBook F.Float)} (hk : c.Keyed s)
    (hc : R c books) (ds : List Delivery) (hds : ∀ d ∈ ds, Good d) :
    R (run InstrumentController.deliver c ds).1
      (books++notifiedOf s (run InstrumentController.deliver c ds).2) := by
  induction ds generalizing c books with
  | nil =>
    rw [run_nil, notifiedOf_nil, List.append_nil]
    exact hc
  | cons d ds ih =>
    rw [run_cons, notifiedOf_append, ← List.append_assoc]
    exact ih (InstrumentController.deliver_keyed hk d) (h.delivered hk hc (hds d (by simp)))
      fun d' hd' => hds d' (by simp [hd'])

theorem told_attended (i : Instrument) (hist : ℕ → Entry) (s : UInt32) :
    Attended i s (Truthful F i hist) (InstrumentController.Told (F := F) i hist) where
  constructed m := InstrumentController.construct_told i hist m
  delivered hk h hd := InstrumentController.deliver_told hk h hd

def FeedPacket.deliveries (s : UInt32) : FeedPacket → List Delivery
  | .incremental p => p.messages.flatMap (ChannelController.messageDeliveries s)
  | .snapshot p => p.messages.flatMap (ChannelController.snapshotDeliveries s)

variable (F i hist) in
/-- The input tells the truth about the history of the instrument with the key. -/
def ChannelInput.Truthful (s : UInt32) : ChannelInput → Prop
  | .subscribe _ => True
  | .packet p => ∀ d ∈ p.deliveries s, CmeFeed.Truthful F i hist d

namespace ChannelController

variable (i) in
/-- The controller under the key, if it is the instrument's, is as `R` says, and
`books` were told of it; nothing is told before it exists. -/
def Attends (R : InstrumentController F → List (DepthBook F.Float) → Prop) (s : UInt32)
    (cc : ChannelController F) (books : List (DepthBook F.Float)) : Prop :=
  match cc.getInstrumentController s with
  | some c => c.instrument_ = i → R c books
  | none => books = []

theorem subscribe_find (cc : ChannelController F) (j : Instrument) (s : UInt32) :
    (cc.subscribe j).1.getInstrumentController s = (cc.getInstrumentController s).or
      (if j.key = s then some (InstrumentController.construct j (cc.memory j.key)).1
        else none) := by
  unfold subscribe
  cases hj : cc.getInstrumentController j.key with
  | some c =>
    by_cases hs : j.key = s
    · rw [← hs, hj]
      rfl
    · rw [if_neg hs]
      exact Option.or_none.symm
  | none =>
    have hfind := Controllers.find_emplace cc.instrument_controllers_ j.key s _
      (InstrumentController.construct_keyed j (cc.memory j.key)) hj
    refine hfind.trans ?_
    by_cases hs : j.key = s
    · rw [if_pos hs, if_pos hs, ← hs, hj]
      rfl
    · rw [if_neg hs, if_neg hs]
      exact Option.or_none.symm

theorem subscribe_notified (cc : ChannelController F) (j : Instrument) :
    notified (cc.subscribe j).2 = [] := by
  unfold subscribe
  cases cc.getInstrumentController j.key <;> rfl

section
variable {s : UInt32} {Good : Delivery → Prop}
  {R : InstrumentController F → List (DepthBook F.Float) → Prop}

theorem subscribe_attends (hR : Attended i s Good R) {cc : ChannelController F}
    {books : List (DepthBook F.Float)} (h : Attends i R s cc books) (j : Instrument) :
    Attends i R s (cc.subscribe j).1 (books++notifiedOf s (cc.subscribe j).2) := by
  rw [notifiedOf_silent s (subscribe_notified cc j), List.append_nil]
  unfold Attends at h ⊢
  rw [subscribe_find]
  cases hc : cc.getInstrumentController s with
  | some c =>
    rw [hc] at h
    exact h
  | none =>
    rw [hc] at h
    by_cases hs : j.key = s
    · rw [if_pos hs]
      rintro rfl
      rw [show books = [] from h]
      exact hR.constructed _
    · rw [if_neg hs]
      exact h

theorem packetDeliveries_mem {s : UInt32} {cc : ChannelController F} {p : FeedPacket}
    {d : Delivery} (hd : d ∈ packetDeliveries s cc p) : d ∈ p.deliveries s := by
  cases p with
  | snapshot p => exact hd
  | incremental p =>
    unfold packetDeliveries at hd
    dsimp only at hd
    split_ifs at hd with hp
    · exact hd
    · exact absurd hd List.not_mem_nil

theorem onInput_attends (hR : Attended i s Good R) {cc : ChannelController F}
    {input : ChannelInput} {books : List (DepthBook F.Float)} (h : Attends i R s cc books)
    (hinput : ∀ p, input = .packet p → ∀ d ∈ p.deliveries s, Good d) :
    Attends i R s (cc.onInput input).1 (books++notifiedOf s (cc.onInput input).2) := by
  cases input with
  | subscribe j => exact subscribe_attends hR h j
  | packet p =>
    obtain ⟨hstate,hbooks⟩ := onPacket_projects s cc p
    have hgood : ∀ d ∈ packetDeliveries s cc p, Good d :=
      fun d hd => hinput p rfl d (packetDeliveries_mem hd)
    unfold Attends soloState soloBooks at *
    change match (cc.onPacket p).1.getInstrumentController s with
      | some c => c.instrument_ = i → R c (books++notifiedOf s (cc.onPacket p).2)
      | none => books++notifiedOf s (cc.onPacket p).2 = []
    rw [hstate, hbooks]
    cases hc : cc.getInstrumentController s with
    | none =>
      rw [hc] at h
      exact (List.append_nil books).trans h
    | some c =>
      rw [hc] at h
      intro hi
      rw [InstrumentController.run_instrument] at hi
      exact hR.run (cc.instrument_controllers_.keyed s c hc) (h hi) _ hgood

theorem run_attends (hR : Attended i s Good R) {cc : ChannelController F}
    {books : List (DepthBook F.Float)} (h : Attends i R s cc books) (inputs : List ChannelInput)
    (hinputs : ∀ input ∈ inputs, ∀ p, input = .packet p → ∀ d ∈ p.deliveries s, Good d) :
    Attends i R s (run onInput cc inputs).1
      (books++notifiedOf s (run onInput cc inputs).2) := by
  induction inputs generalizing cc books with
  | nil =>
    rw [run_nil, notifiedOf_nil, List.append_nil]
    exact h
  | cons input inputs ih =>
    rw [run_cons, notifiedOf_append, ← List.append_assoc]
    exact ih (onInput_attends hR h (hinputs input (by simp)))
      fun x hx => hinputs x (by simp [hx])

/-- What holds of new controllers and is kept by deliveries holds of each
controller of a channel and of the books told of it since the channel was made. -/
theorem fresh_attends {memory : UInt32 → Indeterminate} {inputs : List ChannelInput}
    {c : InstrumentController F} (hR : Attended c.instrument_ s Good R)
    (hc : (run onInput ({memory := memory} : ChannelController F) inputs).1.getInstrumentController
      s = some c)
    (hinputs : ∀ input ∈ inputs, ∀ p, input = .packet p → ∀ d ∈ p.deliveries s, Good d) :
    R c (notifiedOf s (run onInput ({memory := memory} : ChannelController F) inputs).2) := by
  have hfresh : Attends c.instrument_ R s ({memory := memory} : ChannelController F) [] := by
    unfold Attends
    rw [show ({memory := memory} : ChannelController F).getInstrumentController s = none from
      Controllers.find_empty s]
  have hrun := run_attends hR hfresh inputs hinputs
  unfold Attends at hrun
  rw [hc, List.nil_append] at hrun
  exact hrun rfl

end

theorem fresh_told {memory : UInt32 → Indeterminate} {inputs : List ChannelInput} {s : UInt32}
    {hist : ℕ → Entry} {c : InstrumentController F}
    (hc : (run onInput ({memory := memory} : ChannelController F) inputs).1.getInstrumentController
      s = some c) (htruth : ∀ input ∈ inputs, input.Truthful F c.instrument_ hist s) :
    c.Told c.instrument_ hist
      (notifiedOf s (run onInput ({memory := memory} : ChannelController F) inputs).2) := by
  refine fresh_attends (told_attended c.instrument_ hist s) hc fun input hinput p hp => ?_
  have htrue := htruth input hinput
  rw [hp] at htrue
  exact htrue

/-- Whatever a channel has subscribed to and whatever packets it has been given,
the books of each of its instruments are those of the instrument's history at
the position it has reached, and its listeners were told pages of this history
only, up to that position and never an earlier one after a later. -/
theorem channel_replay (memory : UInt32 → Indeterminate) (inputs : List ChannelInput)
    (s : UInt32) (hist : ℕ → Entry) (c : InstrumentController F)
    (hc : (run onInput ({memory := memory} : ChannelController F) inputs).1.getInstrumentController
      s = some c) (htruth : ∀ input ∈ inputs, input.Truthful F c.instrument_ hist s) :
    c.mdhandler_.books = bookAt F c.instrument_ hist c.reached ∧
      Pages F c.instrument_ hist c.reached
        (notifiedOf s (run onInput ({memory := memory} : ChannelController F) inputs).2) := by
  have htold := fresh_told hc htruth
  exact ⟨htold.replayed,htold.told⟩

def replayInputs : List ChannelInput :=
  [.subscribe sampleInstrument,.packet (.snapshot ⟨1,[snapshotMessage (sampleSnapshot 1)]⟩),
    .packet (.incremental ⟨5,[bookMessage [newBid 7 3 103] true]⟩),
    .packet (.incremental ⟨6,[bookMessage [newBid 7 2 102] true]⟩)]

theorem channel_replay_sample :
    ∃ c, (run onInput ({memory := fun _ => ⟨12,true⟩} : ChannelController .exact)
        replayInputs).1.getInstrumentController 7 = some c ∧
      c.mdhandler_.books = bookAt .exact c.instrument_ sampleHistory c.reached := by
  refine ⟨_,rfl,(channel_replay (fun _ => ⟨12,true⟩) replayInputs 7 sampleHistory _ rfl ?_).1⟩
  intro input hinput
  simp only [replayInputs, List.mem_cons, List.not_mem_nil, or_false] at hinput
  rcases hinput with rfl | rfl | rfl | rfl
  · trivial
  · intro d hd
    rw [show d = .snapshot (sampleSnapshot 1) from List.mem_singleton.mp hd]
    intro x
    cases x <;> exact ⟨rfl,rfl⟩
  · intro d hd
    rcases List.mem_cons.mp hd with rfl | hd
    · rfl
    · rw [List.mem_singleton.mp hd]
      trivial
  · intro d hd
    rcases List.mem_cons.mp hd with rfl | hd
    · rfl
    · rw [List.mem_singleton.mp hd]
      trivial

end ChannelController

end CmeFeed
