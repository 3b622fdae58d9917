import Mathlib.Data.List.InsertIdx
import Mathlib.Data.Int.Basic
import Mathlib.Algebra.Group.Int.Defs
import Mathlib.Algebra.Group.Nat.Defs
import Mathlib.Tactic.Common

/-!
# Price ladders and books

`DepthList` is a vector of price levels with a capacity. Levels arrive as C++
`int`s counted from one and are compared with the `size_t` length of the
vector, so level zero wraps to the largest `size_t` and is refused. Prices are
of any type with the comparison `==` of the source, which need not be
reflexive. Printing is left out.
-/

set_option autoImplicit false

namespace CmeFeed

/-- The conversion of an `int` to `size_t`. -/
def sizeT (z : ℤ) : ℕ := (z%2^64).toNat

theorem sizeT_natCast (n : ℕ) (hn : n < 2^64) : sizeT n = n := by
  unfold sizeT
  omega

structure PriceLevel (P : Type) where
  price : P
  quantity : ℤ
  deriving DecidableEq, Repr

structure DepthList (P : Type) where
  size_ : ℕ
  levels_ : List (PriceLevel P) := []
  deriving DecidableEq, Repr

namespace DepthList

variable {P : Type}

def clear (l : DepthList P) : DepthList P := {l with levels_ := []}

/-- The vector grows to one more than the capacity before the level at index
`size_` is erased. -/
def add (l : DepthList P) (level : ℤ) (price : P) (quantity : ℤ) : DepthList P :=
  if sizeT (level-1) ≤ l.levels_.length then
    let levels := l.levels_.insertIdx (level-1).toNat ⟨price,quantity⟩
    if l.size_ < levels.length then {l with levels_ := levels.eraseIdx l.size_}
    else {l with levels_ := levels}
  else l

def update [BEq P] (l : DepthList P) (level : ℤ) (price : P) (quantity : ℤ) : DepthList P :=
  if sizeT (level-1) < l.levels_.length then
    match l.levels_[(level-1).toNat]? with
    | some price_level =>
      if price_level.price == price then
        {l with levels_ := l.levels_.set (level-1).toNat {price_level with quantity := quantity}}
      else l
    | none => l
  else l

def delete [BEq P] (l : DepthList P) (level : ℤ) (price : P) : DepthList P :=
  if sizeT (level-1) < l.levels_.length then
    match l.levels_[(level-1).toNat]? with
    | some it =>
      if it.price == price then {l with levels_ := l.levels_.eraseIdx (level-1).toNat} else l
    | none => l
  else l

/-- Erases the levels from the first to `level`. -/
def deleteFrom (l : DepthList P) (level : ℤ) : DepthList P :=
  if sizeT (level-1) < l.levels_.length then {l with levels_ := l.levels_.drop level.toNat} else l

/-- Erases the levels from `level` to the last. -/
def deleteThru (l : DepthList P) (level : ℤ) : DepthList P :=
  if sizeT (level-1) < l.levels_.length then
    {l with levels_ := l.levels_.take (level-1).toNat}
  else l

def Bounded (l : DepthList P) : Prop := l.levels_.length ≤ l.size_

@[simp] theorem clear_levels (l : DepthList P) : l.clear.levels_ = [] := rfl

inductive Op (P : Type) where
  | add (level : ℤ) (price : P) (quantity : ℤ)
  | update (level : ℤ) (price : P) (quantity : ℤ)
  | delete (level : ℤ) (price : P)
  | deleteFrom (level : ℤ)
  | deleteThru (level : ℤ)
  | clear

def apply [BEq P] (l : DepthList P) : Op P → DepthList P
  | .add level price quantity => l.add level price quantity
  | .update level price quantity => l.update level price quantity
  | .delete level price => l.delete level price
  | .deleteFrom level => l.deleteFrom level
  | .deleteThru level => l.deleteThru level
  | .clear => l.clear

@[simp] theorem add_size (l : DepthList P) (level : ℤ) (p : P) (q : ℤ) :
    (l.add level p q).size_ = l.size_ := by
  unfold add
  dsimp only
  split_ifs <;> rfl

def Op.Adds : Op P → Prop
  | .add _ _ _ => True
  | _ => False

theorem map_set_price {l : List (PriceLevel P)} {k : ℕ} {x : PriceLevel P} (hx : l[k]? = some x)
    (q : ℤ) : (l.set k {x with quantity := q}).map PriceLevel.price = l.map PriceLevel.price := by
  obtain ⟨hk,rfl⟩ := List.getElem?_eq_some_iff.mp hx
  have hlength : k < (l.map PriceLevel.price).length := by simpa using hk
  have hprice : (l.map PriceLevel.price)[k] = l[k].price := by simp
  rw [List.map_set, ← hprice, List.set_getElem_self]

theorem apply_keeps [BEq P] (l : DepthList P) {op : Op P} (hop : ¬op.Adds) :
    ∃ levels, l.apply op = {l with levels_ := levels} ∧
      (levels.map PriceLevel.price).Sublist (l.levels_.map PriceLevel.price) := by
  have hsame : ∃ levels, l = {l with levels_ := levels} ∧
      (levels.map PriceLevel.price).Sublist (l.levels_.map PriceLevel.price) :=
    ⟨l.levels_,rfl,List.Sublist.refl _⟩
  cases op with
  | add level p q => exact absurd trivial hop
  | update level p q =>
    rw [apply, update]
    split_ifs
    · cases hx : l.levels_[(level-1).toNat]? with
      | none => exact hsame
      | some x =>
        dsimp only
        split_ifs
        · exact ⟨_,rfl,(map_set_price hx q).symm ▸ List.Sublist.refl _⟩
        · exact hsame
    · exact hsame
  | delete level p =>
    rw [apply, delete]
    split_ifs
    · cases l.levels_[(level-1).toNat]? with
      | none => exact hsame
      | some x =>
        dsimp only
        split_ifs
        · exact ⟨_,rfl,(List.eraseIdx_sublist _ _).map _⟩
        · exact hsame
    · exact hsame
  | deleteFrom level =>
    rw [apply, deleteFrom]
    split_ifs
    · exact ⟨_,rfl,(List.drop_sublist _ _).map _⟩
    · exact hsame
  | deleteThru level =>
    rw [apply, deleteThru]
    split_ifs
    · exact ⟨_,rfl,(List.take_sublist _ _).map _⟩
    · exact hsame
  | clear => exact ⟨[],rfl,List.nil_sublist _⟩

theorem apply_prices [BEq P] (l : DepthList P) {op : Op P} (hop : ¬op.Adds) :
    ((l.apply op).levels_.map PriceLevel.price).Sublist (l.levels_.map PriceLevel.price) := by
  obtain ⟨levels,hlevels,hprices⟩ := apply_keeps l hop
  rw [hlevels]
  exact hprices

theorem apply_size [BEq P] (l : DepthList P) (op : Op P) : (l.apply op).size_ = l.size_ := by
  by_cases hop : op.Adds
  · cases op with
    | add level p q => exact add_size l level p q
    | _ => exact hop.elim
  · obtain ⟨levels,hlevels,-⟩ := apply_keeps l hop
    rw [hlevels]

theorem add_bounded (l : DepthList P) (level : ℤ) (p : P) (q : ℤ) (h : l.Bounded) :
    (l.add level p q).Bounded := by
  unfold Bounded at h
  unfold add
  dsimp only
  split_ifs with hin hfull
  · have hgrow : (l.levels_.insertIdx (level-1).toNat ⟨p,q⟩).length ≤ l.levels_.length+1 := by
      rw [List.length_insertIdx]
      split_ifs <;> omega
    change (List.eraseIdx _ l.size_).length ≤ l.size_
    rw [List.length_eraseIdx_of_lt hfull]
    omega
  · exact Nat.le_of_not_lt hfull
  · exact h

theorem apply_bounded [BEq P] (l : DepthList P) (op : Op P) (h : l.Bounded) :
    (l.apply op).Bounded := by
  by_cases hop : op.Adds
  · cases op with
    | add level p q => exact add_bounded l level p q h
    | _ => exact hop.elim
  · have hlength := (apply_prices l hop).length_le
    rw [List.length_map, List.length_map] at hlength
    unfold Bounded at *
    rw [apply_size]
    exact Nat.le_trans hlength h

theorem add_next (l : DepthList P) (p : P) (q : ℤ) (hl : l.levels_.length < 2^64)
    (h : l.Bounded) :
    l.add (l.levels_.length+1) p q =
      {l with levels_ := (l.levels_++[(⟨p,q⟩ : PriceLevel P)]).take l.size_} := by
  have hlevel : (l.levels_.length+1:ℤ)-1 = (l.levels_.length:ℤ) := by omega
  unfold Bounded at h
  unfold add
  rw [hlevel, sizeT_natCast _ hl, Int.toNat_natCast, if_pos (le_refl _),
    List.insertIdx_length_self]
  dsimp only
  split_ifs with hfull
  · have hlen : l.levels_.length = l.size_ := by
      simp only [List.length_append, List.length_singleton] at hfull
      omega
    rw [← hlen, List.eraseIdx_append_of_length_le (le_refl _)]
    simp
  · rw [List.take_of_length_le (Nat.le_of_not_lt hfull)]

theorem add_beyond (l : DepthList P) (level : ℕ) (p : P) (q : ℤ) (hl : level < 2^64)
    (h : l.levels_.length < level) : l.add (level+1) p q = l := by
  have hlevel : (level+1:ℤ)-1 = (level:ℤ) := by omega
  unfold add
  rw [hlevel, sizeT_natCast _ hl, if_neg (by omega)]

end DepthList

structure DepthBook (P : Type) where
  bids_ : DepthList P
  asks_ : DepthList P
  deriving DecidableEq, Repr

namespace DepthBook

variable {P : Type}

def ofSize (size : ℕ) : DepthBook P := ⟨⟨size,[]⟩,⟨size,[]⟩⟩

def clear (b : DepthBook P) : DepthBook P := ⟨b.bids_.clear,b.asks_.clear⟩

def addBid (b : DepthBook P) (level : ℤ) (price : P) (quantity : ℤ) : DepthBook P :=
  {b with bids_ := b.bids_.add level price quantity}

def updateBid [BEq P] (b : DepthBook P) (level : ℤ) (price : P) (quantity : ℤ) : DepthBook P :=
  {b with bids_ := b.bids_.update level price quantity}

def deleteBid [BEq P] (b : DepthBook P) (level : ℤ) (price : P) : DepthBook P :=
  {b with bids_ := b.bids_.delete level price}

def deleteBidFrom (b : DepthBook P) (level : ℤ) : DepthBook P :=
  {b with bids_ := b.bids_.deleteFrom level}

def deleteBidThru (b : DepthBook P) (level : ℤ) : DepthBook P :=
  {b with bids_ := b.bids_.deleteThru level}

def addAsk (b : DepthBook P) (level : ℤ) (price : P) (quantity : ℤ) : DepthBook P :=
  {b with asks_ := b.asks_.add level price quantity}

def updateAsk [BEq P] (b : DepthBook P) (level : ℤ) (price : P) (quantity : ℤ) : DepthBook P :=
  {b with asks_ := b.asks_.update level price quantity}

def deleteAsk [BEq P] (b : DepthBook P) (level : ℤ) (price : P) : DepthBook P :=
  {b with asks_ := b.asks_.delete level price}

def deleteAskFrom (b : DepthBook P) (level : ℤ) : DepthBook P :=
  {b with asks_ := b.asks_.deleteFrom level}

def deleteAskThru (b : DepthBook P) (level : ℤ) : DepthBook P :=
  {b with asks_ := b.asks_.deleteThru level}

end DepthBook

end CmeFeed
