import Mathlib.Order.Monotone.Defs
import CmeFeed.Arbitration
import CmeFeed.ChannelReplay
import CmeFeed.Isolation

/-!
# Nothing is lost for good

A line may lose packets as long as another one brings them. Then a snapshot that
is not older than the packets so far brings a controller into `SYNC` for good,
and it keeps up with whatever is published after it.
-/

set_option autoImplicit false

namespace CmeFeed

open Reactive

variable {F : Floats}

def rptSeqs (ds : List Delivery) : List ℕ :=
  ds.filterMap fun
    | .incremental e => some e.rptSeq.toNat
    | _ => none

theorem rptSeqs_append (a b : List Delivery) : rptSeqs (a++b) = rptSeqs a ++ rptSeqs b :=
  List.filterMap_append

namespace InstrumentController

def Current (n : ℕ) (c : InstrumentController F) : Prop :=
  c.state_ = .SYNC ∧ (n:ℤ) ≤ c.processed_rptseq_

/-- Out of `SYNC` the controller misses an entry up to a number. -/
structure Lags (n : ℕ) (c : InstrumentController F) : Prop where
  live : c.state_ ≠ .NEW ∧ c.state_ ≠ .DISCONTINUED
  behind : c.state_ = .OUTOFSYNC → c.processed_rptseq_ < n

theorem Lags.mono {n m : ℕ} {c : InstrumentController F} (h : c.Lags n) (hnm : n ≤ m) :
    c.Lags m := by
  refine ⟨h.live,fun hs => ?_⟩
  have := h.behind hs
  omega

theorem deliver_lags {n : ℕ} {c : InstrumentController F} (h : c.Lags n) {d : Delivery}
    (hd : ∀ k ∈ rptSeqs [d], k ≤ n) : (c.deliver d).1.Lags n := by
  rcases c.deliver_cases d with ⟨e,-,-,he⟩ | ⟨e,rfl,hgap,he⟩ | ⟨e,-,-,-,he⟩ | ⟨r,-,-,he⟩ |
    ⟨r,-,-,he⟩ | ⟨-,he⟩ <;> rw [he]
  · exact ⟨⟨nofun,nofun⟩,fun hs => by cases hs⟩
  · have hle : e.rptSeq.toNat ≤ n := hd _ (List.mem_singleton.mpr rfl)
    have hahead := hgap.2
    exact ⟨⟨nofun,nofun⟩,fun _ => by dsimp only; omega⟩
  · exact h
  · exact ⟨⟨nofun,nofun⟩,fun hs => by cases hs⟩
  · exact h
  · exact ⟨h.live,h.behind⟩

theorem run_lags {n : ℕ} {c : InstrumentController F} (h : c.Lags n) {ds : List Delivery}
    (hds : ∀ k ∈ rptSeqs ds, k ≤ n) : (run deliver c ds).1.Lags n := by
  induction ds generalizing c with
  | nil => exact h
  | cons d ds ih =>
    rw [← List.singleton_append, rptSeqs_append] at hds
    rw [run_cons]
    exact ih (deliver_lags h fun k hk => hds k (List.mem_append_left _ hk))
      fun k hk => hds k (List.mem_append_right _ hk)

theorem snapshot_current {n : ℕ} {c : InstrumentController F} (h : c.Lags n)
    {r : SnapshotFullRefresh38} (hr : n ≤ r.rptSeq.toNat) :
    (c.deliver (.snapshot r)).1.Current n := by
  change (c.onSnapshot r).1.Current n
  by_cases ha : c.Accepts r
  · rw [onSnapshot_accepted c r ha]
    exact ⟨rfl,Int.ofNat_le.mpr hr⟩
  · rw [onSnapshot_ignored c r ha]
    have hold : (c.state_ = .OUTOFSYNC ∨ c.state_ = .SYNC) →
        (r.rptSeq.toNat:ℤ) ≤ c.processed_rptseq_ :=
      fun hs => Int.not_lt.mp fun hnew => ha (Or.inr ⟨hs,hnew⟩)
    cases hs : c.state_ with
    | INITIAL => exact absurd (Or.inl hs) ha
    | NEW => exact absurd hs h.live.1
    | DISCONTINUED => exact absurd hs h.live.2
    | SYNC =>
      have := hold (Or.inr hs)
      exact ⟨hs,by dsimp only; omega⟩
    | OUTOFSYNC =>
      have hge := hold (Or.inl hs)
      have hlt := h.behind hs
      omega

theorem deliver_current {n : ℕ} {c : InstrumentController F} (h : c.Current n) {d : Delivery}
    {k : ℕ} (hd : rptSeqs [d] = List.range' (n+1) k) : (c.deliver d).1.Current (n+k) := by
  obtain ⟨hs,hn⟩ := h
  have hnone : (∀ e, d ≠ .incremental e) → k = 0 := by
    intro hne
    have hempty : rptSeqs [d] = [] := by
      cases d with
      | incremental e => exact absurd rfl (hne e)
      | snapshot r => rfl
      | commit => rfl
    rw [hempty] at hd
    exact (List.range'_eq_nil_iff.mp hd.symm)
  have hnext : ∀ e, d = .incremental e → e.rptSeq.toNat = n+1 ∧ k = 1 := by
    rintro e rfl
    cases k with
    | zero => cases hd
    | succ k =>
      rw [List.range'_succ] at hd
      obtain ⟨hseq,hrest⟩ := List.cons.inj hd
      exact ⟨hseq,congrArg (·+1) (List.range'_eq_nil_iff.mp hrest.symm)⟩
  rcases c.deliver_cases d with ⟨e,rfl,-,he⟩ | ⟨e,rfl,hgap,-⟩ | ⟨e,rfl,ha,-,he⟩ | ⟨r,rfl,hr,he⟩ |
    ⟨r,rfl,-,he⟩ | ⟨rfl,he⟩
  · obtain ⟨hseq,rfl⟩ := hnext e rfl
    rw [he]
    exact ⟨rfl,by dsimp only; omega⟩
  · obtain ⟨hseq,-⟩ := hnext e rfl
    have := hgap.2
    omega
  · obtain ⟨hseq,rfl⟩ := hnext e rfl
    have hne : (e.rptSeq.toNat:ℤ) ≠ c.processed_rptseq_+1 := fun heq => ha ⟨heq,Or.inl hs⟩
    rw [he]
    exact ⟨hs,by dsimp only; omega⟩
  · obtain rfl := hnone fun _ h => by cases h
    have := (hr.resolve_left (hs ▸ nofun)).2
    rw [he]
    exact ⟨rfl,by dsimp only; omega⟩
  · obtain rfl := hnone fun _ h => by cases h
    rw [he]
    exact ⟨hs,hn⟩
  · obtain rfl := hnone fun _ h => by cases h
    rw [he]
    exact ⟨hs,hn⟩

theorem run_current {n k : ℕ} {c : InstrumentController F} (h : c.Current n)
    {ds : List Delivery} (hds : rptSeqs ds = List.range' (n+1) k) :
    (run deliver c ds).1.Current (n+k) := by
  induction ds generalizing c n k with
  | nil =>
    obtain rfl : k = 0 := List.range'_eq_nil_iff.mp hds.symm
    exact h
  | cons d ds ih =>
    rw [← List.singleton_append, rptSeqs_append] at hds
    have hlength := congrArg List.length hds
    rw [List.length_append, List.length_range'] at hlength
    set j := (rptSeqs [d]).length
    obtain ⟨l,rfl⟩ : ∃ l, k = j+l := ⟨k-j,by omega⟩
    rw [← List.range'_append_1] at hds
    obtain ⟨hfirst,hrest⟩ := List.append_inj hds (List.length_range').symm
    rw [run_cons, ← Nat.add_assoc]
    exact ih (deliver_current h hfirst) (by rw [hrest]; congr 1; omega)

end InstrumentController

def ChannelInput.advance (e : ℕ) : ChannelInput → ℕ
  | .packet (.incremental p) => max e (p.number+1)
  | _ => e

def nextNumber (inputs : List ChannelInput) : ℕ := inputs.foldl ChannelInput.advance 0

/-- The numbered packets of the incremental feed with the entries of an
instrument in turn: the packets below number `n` have those up to `upto n`. -/
structure Published (s : UInt32) (packets : ℕ → Packet) (upto : ℕ → ℕ) : Prop where
  grows : Monotone upto
  entries : ∀ n, rptSeqs (FeedPacket.deliveries s (.incremental (packets n))) =
    List.range' (upto n+1) (upto (n+1)-upto n)

/-- The incremental packets are packets of the feed, late or repeated or the next
one that no line has brought yet, from a first one on. -/
def Supplied (packets : ℕ → Packet) : ℕ → List ChannelInput → Prop
  | _, [] => True
  | e, input::inputs =>
    (∀ p, input = .packet (.incremental p) →
      packets p.number = p ∧ p.number ≤ 2^32-2 ∧ (e = 0 ∨ p.number ≤ e)) ∧
      Supplied packets (input.advance e) inputs

theorem supplied_append {packets : ℕ → Packet} {e : ℕ} {a b : List ChannelInput} :
    Supplied packets e (a++b) ↔
      Supplied packets e a ∧ Supplied packets (a.foldl ChannelInput.advance e) b := by
  induction a generalizing e with
  | nil => simp [Supplied]
  | cons input a ih => simp [Supplied, ih, and_assoc]

namespace ChannelController

variable {s : UInt32} {packets : ℕ → Packet} {upto : ℕ → ℕ}

def inputDeliveries (s : UInt32) (cc : ChannelController F) : ChannelInput → List Delivery
  | .subscribe _ => []
  | .packet p => packetDeliveries s cc p

theorem onInput_find {cc : ChannelController F} {c : InstrumentController F}
    (hc : cc.getInstrumentController s = some c) (input : ChannelInput) :
    (cc.onInput input).1.getInstrumentController s =
      some (run InstrumentController.deliver c (inputDeliveries s cc input)).1 := by
  cases input with
  | subscribe i =>
    refine (subscribe_find cc i s).trans ?_
    rw [hc]
    rfl
  | packet p =>
    have hstate := (onPacket_projects s cc p).1
    rw [soloState, hc] at hstate
    exact hstate

theorem onInput_new {cc : ChannelController F} (hnone : cc.getInstrumentController s = none)
    {input : ChannelInput} {c : InstrumentController F}
    (hc : (cc.onInput input).1.getInstrumentController s = some c) : c.state_ = .INITIAL := by
  cases input with
  | subscribe i =>
    have hfind := (subscribe_find cc i s).symm.trans hc
    rw [hnone, Option.none_or] at hfind
    split_ifs at hfind
    obtain rfl := Option.some.inj hfind
    rfl
  | packet p =>
    have hstate := (onPacket_projects s cc p).1
    rw [soloState, hnone] at hstate
    cases hstate.symm.trans hc

theorem onInput_counter {cc : ChannelController F} {e : ℕ} (he : cc.expectedseqnum_ = e)
    {input : ChannelInput}
    (hsmall : ∀ p, input = .packet (.incremental p) → p.number ≤ 2^32-2) :
    (cc.onInput input).1.expectedseqnum_ = input.advance e := by
  cases input with
  | subscribe i =>
    change (cc.subscribe i).1.expectedseqnum_ = e
    unfold subscribe
    cases cc.getInstrumentController i.key <;> exact he
  | packet p =>
    refine (onPacket_expectedseqnum cc p).trans ?_
    cases p with
    | snapshot p => exact he
    | incremental p =>
      have hnext := number_next (hsmall p rfl)
      unfold nextExpected ChannelInput.advance
      dsimp only
      rw [he, hnext]
      unfold Packet.number
      split_ifs <;> omega

theorem snapshot_rptSeqs (p : Packet) : rptSeqs (FeedPacket.deliveries s (.snapshot p)) = [] := by
  unfold FeedPacket.deliveries
  dsimp only
  induction p.messages with
  | nil => rfl
  | cons m ms ih =>
    rw [List.flatMap_cons, rptSeqs_append, ih, List.append_nil]
    unfold snapshotDeliveries
    split_ifs <;> rfl

theorem inputDeliveries_cases (hpublished : Published s packets upto)
    {cc : ChannelController F} {e : ℕ} (he : cc.expectedseqnum_ = e) {input : ChannelInput}
    (hpacket : ∀ p, input = .packet (.incremental p) → packets p.number = p) :
    (input.advance e = e ∧ rptSeqs (inputDeliveries s cc input) = []) ∨
      ∃ p, input = .packet (.incremental p) ∧ input.advance e = p.number+1 ∧
        (e = 0 ∨ e ≤ p.number) ∧ rptSeqs (inputDeliveries s cc input) =
          List.range' (upto p.number+1) (upto (p.number+1)-upto p.number) := by
  cases input with
  | subscribe i => exact Or.inl ⟨rfl,rfl⟩
  | packet p =>
    cases p with
    | snapshot p => exact Or.inl ⟨rfl,snapshot_rptSeqs p⟩
    | incremental p =>
      unfold inputDeliveries packetDeliveries ChannelInput.advance
      dsimp only
      have hentries := hpublished.entries p.number
      rw [hpacket p rfl] at hentries
      by_cases hp : cc.Processes p
      · have hin : e = 0 ∨ e ≤ p.number := by
          unfold Processes at hp
          unfold Packet.number
          omega
        rw [if_pos hp]
        exact Or.inr ⟨p,rfl,by omega,hin,hentries⟩
      · have hout : p.number+1 ≤ e := by
          unfold Processes at hp
          unfold Packet.number
          omega
        rw [if_neg hp]
        exact Or.inl ⟨Nat.max_eq_left hout,rfl⟩

theorem run_lags (hpublished : Published s packets upto) {cc : ChannelController F} {e : ℕ}
    (he : cc.expectedseqnum_ = e) {inputs : List ChannelInput}
    (hsupplied : Supplied packets e inputs)
    (h : ∀ c, cc.getInstrumentController s = some c → c.Lags (upto e)) :
    (run onInput cc inputs).1.expectedseqnum_ = inputs.foldl ChannelInput.advance e ∧
      ∀ c, (run onInput cc inputs).1.getInstrumentController s = some c →
        c.Lags (upto (inputs.foldl ChannelInput.advance e)) := by
  induction inputs generalizing cc e with
  | nil => exact ⟨he,h⟩
  | cons input inputs ih =>
    obtain ⟨hfirst,hrest⟩ := hsupplied
    rw [run_cons]
    refine ih (onInput_counter he fun p hp => (hfirst p hp).2.1) hrest fun c hc => ?_
    cases hbefore : cc.getInstrumentController s with
    | none =>
      have hs := onInput_new hbefore hc
      exact ⟨by rw [hs]; exact ⟨nofun,nofun⟩,fun hout => absurd (hs.symm.trans hout) nofun⟩
    | some c₀ =>
      obtain rfl := Option.some.inj ((onInput_find hbefore input).symm.trans hc)
      rcases inputDeliveries_cases hpublished he fun p hp => (hfirst p hp).1 with
        ⟨hsame,hnone⟩ | ⟨p,-,hnext,hin,hsome⟩
      · rw [hsame]
        exact InstrumentController.run_lags (h c₀ hbefore) (by rw [hnone]; nofun)
      · have hgrows : upto e ≤ upto (p.number+1) := hpublished.grows (by omega)
        rw [hnext]
        refine InstrumentController.run_lags ((h c₀ hbefore).mono hgrows) fun k hk => ?_
        rw [hsome] at hk
        have := (List.mem_range'_1.mp hk).2
        have := hpublished.grows (Nat.le_add_right p.number 1)
        omega

theorem run_current (hpublished : Published s packets upto) {cc : ChannelController F} {e : ℕ}
    (he : cc.expectedseqnum_ = e) (hstarted : e ≠ 0) {inputs : List ChannelInput}
    (hsupplied : Supplied packets e inputs) {c : InstrumentController F}
    (hc : cc.getInstrumentController s = some c) (h : c.Current (upto e)) :
    ∃ c', (run onInput cc inputs).1.getInstrumentController s = some c' ∧
      c'.Current (upto (inputs.foldl ChannelInput.advance e)) := by
  induction inputs generalizing cc e c with
  | nil => exact ⟨c,hc,h⟩
  | cons input inputs ih =>
    obtain ⟨hfirst,hrest⟩ := hsupplied
    have hcounter := onInput_counter he fun p hp => (hfirst p hp).2.1
    rw [run_cons, List.foldl_cons]
    have hcases := inputDeliveries_cases hpublished he fun p hp => (hfirst p hp).1
    rcases hcases with ⟨hsame,hnone⟩ | ⟨p,rfl,hnext,hin,hsome⟩
    · have hkept : (run InstrumentController.deliver c (inputDeliveries s cc input)).1.Current
          (upto e) := InstrumentController.run_current (k := 0) h hnone
      rw [hsame] at hrest hcounter ⊢
      exact ih hcounter hstarted hrest (onInput_find hc input) hkept
    · have hgapless := (hfirst p rfl).2.2
      obtain rfl : p.number = e := by omega
      have hmoved := InstrumentController.run_current h hsome
      have hgrows := hpublished.grows (Nat.le_add_right p.number 1)
      rw [Nat.add_sub_cancel' hgrows] at hmoved
      rw [hnext] at hrest hcounter ⊢
      exact ih hcounter (Nat.succ_ne_zero _) hrest (onInput_find hc _) hmoved

theorem refreshed_current {memory : UInt32 → Indeterminate}
    (hpublished : Published s packets upto) {before after : List ChannelInput} {p : Packet}
    {r : SnapshotFullRefresh38}
    (hsupplied : Supplied packets 0 (before++.packet (.snapshot p)::after))
    (hr : .snapshot r ∈ FeedPacket.deliveries s (.snapshot p)) (hstarted : nextNumber before ≠ 0)
    (hnew : upto (nextNumber before) ≤ r.rptSeq.toNat)
    (hexists : ((run onInput ({memory := memory} : ChannelController F)
      before).1.getInstrumentController s).isSome) :
    let inputs := before++.packet (.snapshot p)::after
    ∃ c, (run onInput ({memory := memory} : ChannelController F) inputs).1.getInstrumentController
      s = some c ∧ c.Current (upto (nextNumber inputs)) := by
  intro inputs
  obtain ⟨hbefore,-,hafter⟩ := supplied_append.mp hsupplied
  have hnone : ∀ c, ({memory := memory} : ChannelController F).getInstrumentController s = some c →
      c.Lags (upto 0) := fun c hc => absurd ((Controllers.find_empty s).symm.trans hc) nofun
  have hunset : ({memory := memory} : ChannelController F).expectedseqnum_ = (0:ℕ) := rfl
  obtain ⟨hcounter,hlags⟩ := run_lags hpublished hunset hbefore hnone
  set reached := (run onInput ({memory := memory} : ChannelController F) before).1
  obtain ⟨c,hc⟩ := Option.isSome_iff_exists.mp hexists
  -- The snapshot is among others in its packet.
  obtain ⟨ds,ds',hsplit⟩ := List.append_of_mem hr
  have hseqs := snapshot_rptSeqs (s := s) p
  rw [hsplit, rptSeqs_append] at hseqs
  obtain ⟨hds,hds'⟩ := List.append_eq_nil_iff.mp hseqs
  have hready : (run InstrumentController.deliver c ds).1.Lags (upto (nextNumber before)) :=
    InstrumentController.run_lags (hlags c hc) (by rw [hds]; nofun)
  have hcurrent : (run InstrumentController.deliver ((run InstrumentController.deliver c
      ds).1.deliver (.snapshot r)).1 ds').1.Current (upto (nextNumber before)) :=
    InstrumentController.run_current (k := 0)
      (InstrumentController.snapshot_current hready hnew) hds'
  have hfound := onInput_find hc (.packet (.snapshot p))
  rw [show inputDeliveries s reached (.packet (.snapshot p)) = ds++.snapshot r::ds' from hsplit,
    run_append, run_cons] at hfound
  have hsame : (reached.onInput (.packet (.snapshot p))).1.expectedseqnum_ = nextNumber before :=
    onInput_counter hcounter nofun
  obtain ⟨c',hc',hcaught⟩ := run_current hpublished hsame hstarted hafter hfound hcurrent
  have hnext : nextNumber inputs = after.foldl ChannelInput.advance (nextNumber before) := by
    rw [nextNumber, List.foldl_append, List.foldl_cons]
    rfl
  refine ⟨c',?_,hnext ▸ hcaught⟩
  rw [run_append_state, run_cons]
  exact hc'

/-- If one line at least brings each packet before a later one, then from a
snapshot on that comes behind some packet and is not older than those so far, the
controller of an instrument is in `SYNC` whenever it is looked at, and has reached
the position of every entry of the packets that have come in. -/
theorem nothing_lost (memory : UInt32 → Indeterminate) (s : UInt32) (packets : ℕ → Packet)
    (upto : ℕ → ℕ) (hpublished : Published s packets upto) (before after : List ChannelInput)
    (p : Packet) (r : SnapshotFullRefresh38)
    (hsupplied : Supplied packets 0 (before++.packet (.snapshot p)::after))
    (hr : .snapshot r ∈ FeedPacket.deliveries s (.snapshot p)) (hstarted : nextNumber before ≠ 0)
    (hnew : upto (nextNumber before) ≤ r.rptSeq.toNat)
    (hexists : ((run onInput ({memory := memory} : ChannelController F)
      before).1.getInstrumentController s).isSome) :
    let inputs := before++.packet (.snapshot p)::after
    ∃ c, (run onInput ({memory := memory} : ChannelController F) inputs).1.getInstrumentController
        s = some c ∧
      c.state_ = .SYNC ∧ upto (nextNumber inputs) ≤ c.reached ∧
      ∀ hist, (∀ input ∈ inputs, input.Truthful F c.instrument_ hist s) →
        c.mdhandler_.books = bookAt F c.instrument_ hist c.reached := by
  intro inputs
  obtain ⟨c,hc,hsync,hle⟩ := refreshed_current hpublished hsupplied hr hstarted hnew hexists
  change (upto (nextNumber inputs):ℤ) ≤ _ at hle
  refine ⟨c,hc,hsync,?_,fun hist htruth => (fresh_told hc htruth).replayed⟩
  rw [InstrumentController.reached_started (by rw [hsync]; nofun)]
  omega

def samplePackets (n : ℕ) : Packet where
  seqnum := UInt32.ofNat n
  messages := if 1 ≤ n ∧ n ≤ 3 then [bookMessage [newBid 7 (UInt32.ofNat n) (100+n)] true] else []

theorem samplePackets_published : Published 7 samplePackets fun n => min (n-1) 3 where
  grows n m h := by
    dsimp only
    omega
  entries n := by
    by_cases hn : 1 ≤ n ∧ n ≤ 3
    · obtain rfl | rfl | rfl : n = 1 ∨ n = 2 ∨ n = 3 := by omega
      all_goals rfl
    · have hnone : rptSeqs (FeedPacket.deliveries 7 (.incremental (samplePackets n))) = [] := by
        unfold samplePackets
        rw [if_neg hn]
        rfl
      have hsame : min (n+1-1) 3-min (n-1) 3 = 0 := by omega
      rw [hnone, hsame]
      rfl

theorem nothing_lost_sample :
    ∃ c, (run onInput ({memory := fun _ => ⟨12,true⟩} : ChannelController .exact)
        ([.subscribe sampleInstrument,.packet (.incremental (samplePackets 2))]++
          .packet (.snapshot ⟨1,[snapshotMessage (sampleSnapshot 2)]⟩)::
            [.packet (.incremental (samplePackets 2)),.packet (.incremental (samplePackets 3)),
              .packet (.incremental (samplePackets 2))])).1.getInstrumentController 7 = some c ∧
      c.state_ = .SYNC ∧ 3 ≤ c.reached := by
  have hsupplied : Supplied samplePackets 0
      ([.subscribe sampleInstrument,.packet (.incremental (samplePackets 2))]++
        .packet (.snapshot ⟨1,[snapshotMessage (sampleSnapshot 2)]⟩)::
          [.packet (.incremental (samplePackets 2)),.packet (.incremental (samplePackets 3)),
            .packet (.incremental (samplePackets 2))]) := by
    simp [Supplied, ChannelInput.advance, samplePackets, Packet.number]
  obtain ⟨c,hc,hsync,hle,-⟩ := nothing_lost (fun _ => ⟨12,true⟩) 7 samplePackets _
    samplePackets_published _ _ _ (sampleSnapshot 2) hsupplied (List.mem_singleton.mpr rfl)
    (by decide) (by decide) rfl
  exact ⟨c,hc,hsync,hle⟩

end ChannelController

end CmeFeed
