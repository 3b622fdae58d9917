import Mathlib.Algebra.Order.Ring.Unbundled.Rat
import CmeFeed.InstrumentController
import CmeFeed.LadderLaws
import CmeFeed.Ladders

/-!
# The order of prices

A ladder checks no order when a level is added. It stays in order all the same
as long as every new price fits between its neighbours: the other operations
keep the prices of a ladder or leave some of them out.
-/

set_option autoImplicit false

namespace CmeFeed

open Reactive Sequences

namespace DepthList

variable {P : Type}

def Ordered (before : P → P → Prop) (l : DepthList P) : Prop :=
  l.levels_.Pairwise fun x y => before x.price y.price

def FitsBetween (before : P → P → Prop) (l : DepthList P) (level : ℤ) (p : P) : Prop :=
  (∀ x, 1 < level → l.levels_[(level-2).toNat]? = some x → before x.price p) ∧
    ∀ y, l.levels_[level.toNat]? = some y → before p y.price

def Distinct [BEq P] (l : DepthList P) : Prop :=
  l.levels_.Pairwise fun x y => x.price ≠ y.price ∧ (x.price == y.price) = false

theorem apply_ordered [BEq P] {before : P → P → Prop} {l : DepthList P} (h : l.Ordered before)
    {op : Op P} (hop : ¬op.Adds) : (l.apply op).Ordered before := by
  have hprices : (l.levels_.map PriceLevel.price).Pairwise before := List.pairwise_map.mpr h
  exact List.pairwise_map.mp (hprices.sublist (apply_prices l hop))

theorem add_ordered [BEq P] {before : P → P → Prop} [IsTrans P before] {l : DepthList P}
    (hl : l.Made) (h : l.Ordered before) {level : ℤ} (hlevel : IsInt level) (p : P) (q : ℤ) :
    (l.add level p q).Ordered before ↔
      l.add level p q = l ∨ (l.add level p q).FitsBetween before level p := by
  rcases hlevel.rank with hlow | ⟨k,hk,rfl⟩
  · rw [((refused hl hlevel hlow).1 p q).1]
    exact iff_of_true h (Or.inl rfl)
  · have hadd := add_rank hl (k := k) (by omega) p q
    by_cases hin : k ≤ l.levels_.length
    · have htrans : IsTrans (PriceLevel P) fun x y => before x.price y.price :=
        ⟨fun _ _ _ hxy hyz => IsTrans.trans _ _ _ hxy hyz⟩
      have hordered := pairwise_insertCapped h hl.bounded hin ⟨p,q⟩
      rw [if_pos hin] at hadd
      rw [hadd, Ordered, hordered, FitsBetween, Between]
      have hsame : ({l with levels_ := insertCapped l.size_ k ⟨p,q⟩ l.levels_} = l) ↔
          insertCapped l.size_ k ⟨p,q⟩ l.levels_ = l.levels_ :=
        ⟨fun heq => congrArg DepthList.levels_ heq,fun heq => by rw [heq]⟩
      rw [hsame, show ((k:ℤ)+1-2).toNat = k-1 by omega, show ((k:ℤ)+1).toNat = k+1 by omega,
        show (1 < (k:ℤ)+1) = (0 < k) by rw [eq_iff_iff]; omega]
    · rw [if_neg hin] at hadd
      rw [hadd]
      exact iff_of_true h (Or.inl rfl)

theorem Ordered.distinct [BEq P] {before : P → P → Prop} {l : DepthList P}
    (h : l.Ordered before)
    (hne : ∀ a b, before a b → a ≠ b ∧ (a == b) = false) : l.Distinct :=
  List.Pairwise.imp (fun hxy => hne _ _ hxy) h

end DepthList

variable {F : Floats}

def Ladder.before (lt : F.Float → F.Float → Prop) : Ladder → F.Float → F.Float → Prop
  | .bid | .impliedBid => fun a b => lt b a
  | .offer | .impliedOffer => lt

instance (lt : F.Float → F.Float → Prop) [IsStrictOrder F.Float lt] (x : Ladder) :
    IsTrans F.Float (x.before lt) := by
  have htrans : ∀ a b c, lt a b → lt b c → lt a c := IsTrans.trans
  cases x with
  | bid | impliedBid => exact ⟨fun a b c hab hbc => htrans c b a hbc hab⟩
  | offer | impliedOffer => exact ⟨htrans⟩

namespace Books

def Ordered (lt : F.Float → F.Float → Prop) (b : Books F) : Prop :=
  ∀ x, (b.ladder x).Ordered (x.before lt)

def Made (b : Books F) : Prop := ∀ x, (b.ladder x).Made

/-- A new level, if the entry is one, fits between its neighbours. -/
def NewFits (lt : F.Float → F.Float → Prop) (b : Books F) (e : Entry) : Prop :=
  ∀ x level p q, e.ladderOp F x = some (.add level p q) →
    (b.ladder x).add level p q = b.ladder x ∨
      ((b.ladder x).add level p q).FitsBetween (x.before lt) level p

theorem onIncremental_made {b : Books F} (hb : b.Made) (e : Entry) : (b.onIncremental e).Made := by
  intro x
  rw [onIncremental_ladder]
  cases e.ladderOp F x with
  | none => exact hb x
  | some op => exact DepthList.apply_made (hb x) op

theorem ladderOp_inRange (e : Entry) (x : Ladder) {op : DepthList.Op F.Float}
    (h : e.ladderOp F x = some op) : op.InRange := by
  have hlevel : ∀ u : UInt8, IsInt (u.toNat:ℤ) := by
    intro u
    have := u.toNat_lt
    unfold IsInt
    omega
  cases e with
  | book32 b =>
    dsimp only [Entry.ladderOp] at h
    split_ifs at h
    · unfold MDIncrementalRefreshBook32.NoMDEntries.op at h
      cases haction : b.mDUpdateAction <;> rw [haction] at h <;> cases h <;>
        exact hlevel b.mDPriceLevel
    · cases h
      trivial
  | _ => exact absurd h nofun

theorem onIncremental_ordered {lt : F.Float → F.Float → Prop} [IsStrictOrder F.Float lt]
    {b : Books F} (hb : b.Made) (h : b.Ordered lt) {e : Entry} (he : b.NewFits lt e) :
    (b.onIncremental e).Ordered lt := by
  intro x
  rw [onIncremental_ladder]
  cases hop : e.ladderOp F x with
  | none => exact h x
  | some op =>
    by_cases hadds : op.Adds
    · cases op with
      | add level p q =>
        have hrange : IsInt level := ladderOp_inRange e x hop
        exact (DepthList.add_ordered (hb x) (h x) hrange p q).mpr (he x level p q hop)
      | _ => exact hadds.elim
    · exact DepthList.apply_ordered (h x) hadds

end Books

namespace InstrumentMdHandler

theorem foldl_onIncremental_ordered {lt : F.Float → F.Float → Prop} [IsStrictOrder F.Float lt]
    {h : InstrumentMdHandler F} (hmade : h.books.Made) (hordered : h.books.Ordered lt)
    (entries : List Entry)
    (hfits : ∀ pre e post, entries = pre++e::post →
      (pre.foldl onIncremental h).books.NewFits lt e) :
    (entries.foldl onIncremental h).books.Made ∧
      (entries.foldl onIncremental h).books.Ordered lt := by
  induction entries using List.reverseRecOn with
  | nil => exact ⟨hmade,hordered⟩
  | append_singleton entries e ih =>
    obtain ⟨hm,ho⟩ := ih fun pre x post hsplit => hfits pre x (post++[e]) (by simp [hsplit])
    rw [List.foldl_append, List.foldl_cons, List.foldl_nil, onIncremental_books]
    exact ⟨Books.onIncremental_made hm e,
      Books.onIncremental_ordered hm ho (hfits entries e [] rfl)⟩

/-- A ladder in order stays in order under all operations but additions, under
an addition exactly if it changes nothing or fits; so entries whose new levels
fit keep all four ladders in order, and no price stands twice in one of them. -/
theorem price_order (lt : F.Float → F.Float → Prop) [IsStrictOrder F.Float lt]
    (hlt : ∀ a b, lt a b → (a == b) = false ∧ (b == a) = false) :
    (∀ (x : Ladder) (l : DepthList F.Float), l.Made → l.Ordered (x.before lt) →
      (∀ op : DepthList.Op F.Float, ¬op.Adds → (l.apply op).Ordered (x.before lt)) ∧
      ∀ level p q, IsInt level → ((l.add level p q).Ordered (x.before lt) ↔
        l.add level p q = l ∨ (l.add level p q).FitsBetween (x.before lt) level p)) ∧
    ∀ h : InstrumentMdHandler F, h.books.Made → h.books.Ordered lt → ∀ entries : List Entry,
      (∀ pre e post, entries = pre++e::post →
        (pre.foldl onIncremental h).books.NewFits lt e) →
      ∀ pre post, entries = pre++post →
        (pre.foldl onIncremental h).books.Ordered lt ∧
          ∀ x, ((pre.foldl onIncremental h).books.ladder x).Distinct := by
  constructor
  · intro x l hl hordered
    exact ⟨fun op hop => DepthList.apply_ordered hordered hop,
      fun level p q hlevel => DepthList.add_ordered hl hordered hlevel p q⟩
  · intro h hmade hordered entries hfits pre post hsplit
    have hpre := (foldl_onIncremental_ordered hmade hordered pre fun before e after hbefore =>
      hfits before e (after++post) (by simp [hsplit, hbefore])).2
    constructor
    · exact hpre
    · intro x
      apply (hpre x).distinct
      intro a b hab
      cases x with
      | bid | impliedBid => exact ⟨fun heq => (irrefl_of lt b) (heq ▸ hab),(hlt b a hab).2⟩
      | offer | impliedOffer => exact ⟨fun heq => (irrefl_of lt b) (heq ▸ hab),(hlt a b hab).1⟩

def exactLt (a b : Floats.exact.Float) : Prop := (show Rat from a) < (show Rat from b)

instance : IsStrictOrder Floats.exact.Float exactLt :=
  inferInstanceAs (IsStrictOrder Rat (· < ·))

theorem price_order_sample :
    let h : InstrumentMdHandler .exact := construct sampleInstrument false
    let second : Entry := .book32 {newBid 7 2 100 with mDPriceLevel := 2}
    ((h.onIncremental (.book32 (newBid 7 1 101))).onIncremental second).books.Ordered exactLt := by
  intro h second
  have hne : ∀ a b : Rat, a < b → decide (a = b) = false ∧ decide (b = a) = false := by
    intro a b hab
    exact ⟨decide_eq_false (ne_of_lt hab),decide_eq_false (ne_of_gt hab)⟩
  have hmade : h.books.Made := fun x => by
    cases x <;> exact DepthList.empty_made (by decide)
  have hempty : h.books.Ordered exactLt := fun x => by
    cases x <;> exact List.Pairwise.nil
  let first : Entry := .book32 (newBid 7 1 101)
  have hfirst : h.books.NewFits exactLt first := by
    intro x level p q hop
    cases x with
    | bid =>
      cases hop
      exact Or.inr ⟨fun _ hlevel => absurd hlevel (by decide),fun y hy => absurd hy nofun⟩
    | _ => exact absurd hop nofun
  have hsecond : (h.onIncremental first).books.NewFits exactLt second := by
    intro x level p q hop
    cases x with
    | bid =>
      cases hop
      right
      constructor
      · intro y _ hy
        cases hy
        exact (by decide : (100:Rat) < 101)
      · exact fun y hy => absurd hy nofun
    | _ => exact absurd hop nofun
  have hfits : ∀ pre e post, [first,second] = pre++e::post →
      (pre.foldl onIncremental h).books.NewFits exactLt e := by
    rw [forall_split_cons fun pre e => (pre.foldl onIncremental h).books.NewFits exactLt e,
      forall_split_cons fun pre e =>
        ((first::pre).foldl onIncremental h).books.NewFits exactLt e]
    exact ⟨hfirst,hsecond,by simp⟩
  exact ((price_order exactLt hne).2 h hmade hempty [first,second] hfits
    [first,second] [] rfl).1

end InstrumentMdHandler

end CmeFeed
