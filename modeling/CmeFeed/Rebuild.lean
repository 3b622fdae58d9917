import CmeFeed.LadderOrder
import CmeFeed.Publication

/-!
# Rebuilding the books from a snapshot

A handler writes a numbered snapshot into its books whatever they held before.
So the books of one handler, written out as a snapshot, are those of any other
handler of the instrument that reads it.
-/

set_option autoImplicit false

namespace CmeFeed

variable {F : Floats}

namespace DepthList

theorem mem_add {P : Type} {l : DepthList P} {level : ℤ} {p : P} {q : ℤ} {x : PriceLevel P}
    (h : x ∈ (l.add level p q).levels_) : x ∈ l.levels_ ∨ x = ⟨p,q⟩ := by
  have hinsert : ∀ x ∈ l.levels_.insertIdx (level-1).toNat ⟨p,q⟩,
      x ∈ l.levels_ ∨ x = ⟨p,q⟩ := by
    intro x hx
    exact (List.eq_or_mem_of_mem_insertIdx hx).symm
  unfold add at h
  dsimp only at h
  split_ifs at h
  · exact hinsert x (List.mem_of_mem_eraseIdx h)
  · exact hinsert x h
  · exact Or.inl h

def Decimal (l : DepthList F.Float) : Prop :=
  ∀ x ∈ l.levels_, ∃ d, x.price = F.narrow (F.price d)

theorem add_decimal {l : DepthList F.Float} (h : l.Decimal) (level : ℤ) (d : CmeFeed.Decimal)
    (q : ℤ) : (l.add level (F.narrow (F.price d)) q).Decimal := by
  intro x hx
  rcases mem_add hx with hx | rfl
  · exact h x hx
  · exact ⟨d,rfl⟩

theorem apply_decimal {l : DepthList F.Float} (h : l.Decimal) {op : Op F.Float}
    (hop : ¬op.Adds) : (l.apply op).Decimal := by
  intro x hx
  obtain ⟨y,hy,hprice⟩ := List.mem_map.mp
    ((apply_prices l hop).mem (List.mem_map_of_mem (f := PriceLevel.price) hx))
  rw [← hprice]
  exact h y hy

end DepthList

namespace Books

structure Kept (i : Instrument) (b : Books F) : Prop where
  fits : b.Fits i
  decimal : ∀ x, (b.ladder x).Decimal

theorem empty_kept (i : Instrument) : (empty F i).Kept i := by
  constructor
  · exact empty_fits i
  · intro x level hlevel
    rw [empty_ladder] at hlevel
    exact absurd hlevel List.not_mem_nil

theorem clear_kept {i : Instrument} {b : Books F} (h : b.Kept i) : b.clear.Kept i := by
  rw [clear_fits h.fits]
  exact empty_kept i

theorem onIncremental_kept {i : Instrument} {b : Books F} (h : b.Kept i) (e : Entry) :
    (b.onIncremental e).Kept i := by
  constructor
  · exact onIncremental_fits h.fits e
  · intro x
    rw [onIncremental_ladder]
    cases hop : e.ladderOp F x with
    | none => exact h.decimal x
    | some op =>
      by_cases hadds : op.Adds
      · cases e with
        | book32 b =>
          dsimp only [Entry.ladderOp] at hop
          split_ifs at hop
          · unfold MDIncrementalRefreshBook32.NoMDEntries.op at hop
            cases haction : b.mDUpdateAction <;> rw [haction] at hop <;> cases hop <;>
              first | exact hadds.elim | exact DepthList.add_decimal (h.decimal x) _ _ _
          · cases hop
            exact hadds.elim
        | _ => exact absurd hop (by simp [Entry.ladderOp])
      · exact DepthList.apply_decimal (h.decimal x) hadds

end Books

namespace InstrumentMdHandler

inductive Call where
  | incremental (entry : Entry)
  | securityStatus (status : SecurityStatus30)
  | snapshot (refresh : SnapshotFullRefresh38)
  | channelReset
  | commit
  | reset

def call (h : InstrumentMdHandler F) : Call → InstrumentMdHandler F
  | .incremental entry => h.onIncremental entry
  | .securityStatus status => h.onSecurityStatus status
  | .snapshot refresh => h.onSnapshot refresh
  | .channelReset => h.onChannelReset.1
  | .commit => h.commit.1
  | .reset => h.reset

theorem construct_kept (i : Instrument) (statechange : Bool) :
    (construct i statechange : InstrumentMdHandler F).books.Kept i :=
  Books.empty_kept i

theorem foldl_addEntry_decimal {l : DepthList F.Float} (h : l.Decimal)
    (es : List SnapshotFullRefresh38.NoMDEntries) : (es.foldl addEntry l).Decimal := by
  induction es generalizing l with
  | nil => exact h
  | cons e es ih => exact ih (DepthList.add_decimal h _ _ _)

theorem onSnapshot_kept {i : Instrument} {h : InstrumentMdHandler F} (hh : h.books.Kept i)
    (r : SnapshotFullRefresh38) : (h.onSnapshot r).books.Kept i := by
  constructor
  · exact onSnapshot_fits h r hh.fits
  · intro x
    rw [onSnapshot_ladder]
    exact foldl_addEntry_decimal (fun level hlevel => absurd hlevel List.not_mem_nil) _

theorem call_kept {i : Instrument} {h : InstrumentMdHandler F} (hh : h.books.Kept i) (c : Call) :
    (h.call c).books.Kept i := by
  cases c with
  | incremental entry =>
    rw [call, onIncremental_books]
    exact Books.onIncremental_kept hh entry
  | securityStatus status => exact hh
  | snapshot refresh => exact onSnapshot_kept hh refresh
  | channelReset => exact Books.clear_kept hh
  | commit =>
    rw [call, commit_books]
    exact hh
  | reset => exact hh

theorem calls_kept (i : Instrument) (statechange : Bool) (calls : List Call) :
    (calls.foldl call (construct i statechange : InstrumentMdHandler F)).books.Kept i := by
  induction calls using List.reverseRecOn with
  | nil => exact construct_kept i statechange
  | append_singleton calls c ih =>
    rw [List.foldl_append]
    exact call_kept ih c

end InstrumentMdHandler

theorem numbered_append_singleton {es : List SnapshotFullRefresh38.NoMDEntries}
    {e : SnapshotFullRefresh38.NoMDEntries} (hes : Numbered es)
    (he : e.mDPriceLevel.toNat = es.length+1) : Numbered (es++[e]) := by
  unfold Numbered at hes ⊢
  rw [List.map_append, hes, List.length_append, List.length_singleton, List.range'_concat,
    List.map_singleton, he, Nat.one_mul, Nat.add_comm 1]

theorem exists_listing (type : MDEntryType) (levels : List (PriceLevel F.Float))
    (hdecimal : ∀ x ∈ levels, ∃ d, x.price = F.narrow (F.price d))
    (hlength : levels.length ≤ 255) :
    ∃ es : List SnapshotFullRefresh38.NoMDEntries,
      (∀ e ∈ es, e.mDEntryType = type) ∧ Numbered es ∧ es.map (·.level F) = levels := by
  induction levels using List.reverseRecOn with
  | nil => exact ⟨[],by simp,rfl,rfl⟩
  | append_singleton levels x ih =>
    rw [List.length_append, List.length_singleton] at hlength
    obtain ⟨es,htype,hnumbered,hlevels⟩ := ih (fun y hy => hdecimal y (by simp [hy])) (by omega)
    obtain ⟨d,hd⟩ := hdecimal x (by simp)
    have hsame : es.length = levels.length := by rw [← hlevels, List.length_map]
    let e : SnapshotFullRefresh38.NoMDEntries := ⟨d,x.quantity,UInt8.ofNat (es.length+1),type⟩
    have hnumber : e.mDPriceLevel.toNat = es.length+1 :=
      UInt8.toNat_ofNat_of_lt' (by simp [UInt8.size]; omega)
    refine ⟨es++[e],?_,numbered_append_singleton hnumbered hnumber,?_⟩
    · intro y hy
      rcases List.mem_append.mp hy with hy | hy
      · exact htype y hy
      · rw [List.mem_singleton.mp hy]
    · rw [List.map_append, hlevels, List.map_singleton]
      change levels++[⟨F.narrow (F.price d),x.quantity⟩] = _
      rw [← hd]

theorem Books.Kept.exists_snapshot {i : Instrument} {b : Books F} (h : b.Kept i)
    (hlength : ∀ x, (b.ladder x).levels_.length ≤ 255) :
    ∃ r : SnapshotFullRefresh38, r.Lists b := by
  choose es htype hnumbered hlevels using fun x : Ladder =>
    exists_listing x.snapshotType (b.ladder x).levels_ (h.decimal x) (hlength x)
  have hown : ∀ x, (es x).filter (fun e => e.mDEntryType = x.snapshotType) = es x := by
    intro x
    exact List.filter_eq_self.mpr fun e he => decide_eq_true (htype x e he)
  have hother : ∀ x y, x ≠ y → (es y).filter (fun e => e.mDEntryType = x.snapshotType) = [] := by
    intro x y hne
    apply List.filter_eq_nil_iff.mpr
    intro e he
    rw [htype y e he]
    cases x <;> cases y <;> first | exact absurd rfl hne | decide
  let r : SnapshotFullRefresh38 :=
    {noMDEntries := es .bid++es .offer++es .impliedBid++es .impliedOffer}
  have hladder : ∀ x, r.ladder x = es x := by
    intro x
    unfold SnapshotFullRefresh38.ladder
    cases x <;> simp [r, hown, hother]
  have hlists : r.Lists b := by
    intro x
    rw [hladder]
    exact ⟨hnumbered x,hlevels x⟩
  exact ⟨r,hlists⟩

namespace InstrumentMdHandler

/-- A numbered snapshot leaves exactly what it lists, cut to the depths of the
instrument, in a handler with any past. So a snapshot that lists the books of
one handler reproduces them in another, and books of up to 255 levels have one. -/
theorem snapshot_rebuild (i : Instrument) (statechange : Bool) (calls : List Call) :
    let h : InstrumentMdHandler F := calls.foldl call (construct i statechange)
    (∀ r : SnapshotFullRefresh38, (∀ x, Numbered (r.ladder x)) → ∀ x,
      (h.onSnapshot r).books.ladder x =
        ⟨i.depth x,((r.ladder x).map (·.level F)).take (i.depth x)⟩) ∧
    (∀ (r : SnapshotFullRefresh38) (statechange' : Bool) (calls' : List Call),
      let h' : InstrumentMdHandler F := calls'.foldl call (construct i statechange')
      r.Lists h'.books → (h.onSnapshot r).books = h'.books) ∧
    ((∀ x, (h.books.ladder x).levels_.length ≤ 255) →
      ∃ r : SnapshotFullRefresh38, r.Lists h.books) := by
  intro h
  have hkept : h.books.Kept i := calls_kept i statechange calls
  constructor
  · intro r hr x
    rw [onSnapshot_rebuild h r x (hr x), (hkept.fits x).1]
  constructor
  · intro r statechange' calls' h' hlists
    have hkept' : h'.books.Kept i := calls_kept i statechange' calls'
    exact onSnapshot_lists h r _ hkept.fits hkept'.fits hlists
  · exact hkept.exists_snapshot

def interleavedSnapshot : SnapshotFullRefresh38 where
  securityID := 7
  rptSeq := 5
  noMDEntries := [⟨⟨101,0⟩,4,1,.Bid⟩,⟨⟨103,0⟩,2,1,.Offer⟩,⟨⟨99,0⟩,7,1,.ImpliedBid⟩,
    ⟨⟨100,0⟩,6,2,.Bid⟩,⟨⟨98,0⟩,8,2,.ImpliedBid⟩,⟨⟨104,0⟩,3,2,.Offer⟩,⟨⟨3,0⟩,40,0,.OpenInterest⟩,
    ⟨⟨97,0⟩,9,3,.ImpliedBid⟩,⟨⟨99,0⟩,5,3,.Bid⟩]

theorem snapshot_rebuild_sample :
    let h : InstrumentMdHandler .exact :=
      [Call.incremental (.book32 (newBid 7 1 100)),.snapshot (sampleSnapshot 3),
        .incremental (.book32 (newBid 7 4 102))].foldl call (construct sampleInstrument false)
    let b := (h.onSnapshot interleavedSnapshot).books
    b.ladder .bid = ⟨10,[⟨(101:Rat),4⟩,⟨(100:Rat),6⟩,⟨(99:Rat),5⟩]⟩ ∧
      b.ladder .offer = ⟨10,[⟨(103:Rat),2⟩,⟨(104:Rat),3⟩]⟩ ∧
      b.ladder .impliedBid = ⟨2,[⟨(99:Rat),7⟩,⟨(98:Rat),8⟩]⟩ ∧
      b.ladder .impliedOffer = ⟨2,[]⟩ := by
  intro h b
  have hnumbered : ∀ x, Numbered (interleavedSnapshot.ladder x) := by
    intro x
    cases x <;> rfl
  have hrebuilt := (snapshot_rebuild (F := .exact) sampleInstrument false
    [.incremental (.book32 (newBid 7 1 100)),.snapshot (sampleSnapshot 3),
      .incremental (.book32 (newBid 7 4 102))]).1 interleavedSnapshot hnumbered
  exact ⟨hrebuilt .bid,hrebuilt .offer,hrebuilt .impliedBid,hrebuilt .impliedOffer⟩

end InstrumentMdHandler

end CmeFeed
