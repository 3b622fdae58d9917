import Mathlib.Data.List.Induction
import CmeFeed.DepthBook
import CmeFeed.Reactive.Run
import CmeFeed.Sequences

/-!
# The laws of a ladder

In terms of ranks, counted from zero, every operation of a ladder is one of the
list operations by rank, and a level that is not positive is refused by all of
them. The laws of the list operations then carry over: bulk deletes are single
deletes, one after the other, an addition and a deletion cancel, and a ladder
of limited depth is a prefix of the full one.
-/

set_option autoImplicit false

namespace CmeFeed

open Reactive Sequences

def IsInt (z : ℤ) : Prop := -2^31 ≤ z ∧ z < 2^31

instance (z : ℤ) : Decidable (IsInt z) := inferInstanceAs (Decidable (_ ∧ _))

theorem IsInt.rank {level : ℤ} (h : IsInt level) :
    level ≤ 0 ∨ ∃ k : ℕ, k < 2^31 ∧ level = (k:ℤ)+1 := by
  have hupper := h.2
  by_cases hlow : level ≤ 0
  · exact Or.inl hlow
  · exact Or.inr ⟨(level-1).toNat,by omega,by omega⟩

namespace DepthList

variable {P : Type}

structure Made (l : DepthList P) : Prop where
  capacity : l.size_ < 2^32
  bounded : l.Bounded

theorem empty_made {size : ℕ} (h : size < 2^32) : (⟨size,[]⟩ : DepthList P).Made :=
  ⟨h,Nat.zero_le _⟩

theorem apply_made [BEq P] {l : DepthList P} (h : l.Made) (op : Op P) : (l.apply op).Made :=
  ⟨by rw [apply_size]; exact h.capacity,apply_bounded l op h.bounded⟩

theorem Made.length_lt {l : DepthList P} (h : l.Made) : l.levels_.length < 2^32 :=
  Nat.lt_of_le_of_lt h.bounded h.capacity

theorem sizeT_rank {k : ℕ} (hk : k < 2^64) : sizeT ((k:ℤ)+1-1) = k := by
  rw [Int.add_sub_cancel]
  exact sizeT_natCast k hk

theorem toNat_rank (k : ℕ) : ((k:ℤ)+1-1).toNat = k := by omega

variable {l : DepthList P} {k : ℕ}

theorem add_rank (hl : l.Made) (hk : k < 2^64) (p : P) (q : ℤ) :
    l.add ((k:ℤ)+1) p q = {l with
      levels_ :=
        if k ≤ l.levels_.length then insertCapped l.size_ k ⟨p,q⟩ l.levels_ else l.levels_} := by
  have hbounded := hl.bounded
  unfold Bounded at hbounded
  unfold add
  rw [sizeT_rank hk, toNat_rank]
  dsimp only
  by_cases hin : k ≤ l.levels_.length
  · rw [if_pos hin, if_pos hin, insertCapped]
    have hgrown : (l.levels_.insertIdx k ⟨p,q⟩).length = l.levels_.length+1 :=
      List.length_insertIdx_of_le_length hin _
    split_ifs with hfull
    · have hlast : l.size_+1 = (l.levels_.insertIdx k (⟨p,q⟩ : PriceLevel P)).length := by omega
      rw [List.eraseIdx_eq_dropLast hlast, List.dropLast_eq_take, ← hlast, Nat.add_sub_cancel]
    · rw [List.take_of_length_le (Nat.le_of_not_lt hfull)]
  · rw [if_neg hin, if_neg hin]

theorem add_room {m : DepthList P} (hm : m.Made) (hroom : m.levels_.length < m.size_) {k : ℕ}
    (hk : k < 2^64) (p : P) (q : ℤ) :
    (m.add ((k:ℤ)+1) p q).levels_ =
      if k ≤ m.levels_.length then m.levels_.insertIdx k ⟨p,q⟩ else m.levels_ := by
  rw [add_rank hm hk]
  dsimp only
  split_ifs with hin
  · rw [insertCapped, List.take_of_length_le]
    rw [List.length_insertIdx_of_le_length hin]
    omega
  · rfl

theorem add_out (hl : l.Made) (hk : k < 2^64) (hout : ¬(k < l.size_ ∧ k ≤ l.levels_.length))
    (p : P) (q : ℤ) : l.add ((k:ℤ)+1) p q = l := by
  rw [add_rank hl hk]
  by_cases hle : k ≤ l.levels_.length
  · have hge : l.size_ ≤ k := Nat.le_of_not_lt fun hlt => hout ⟨hlt,hle⟩
    rw [if_pos hle, insertCapped_beyond _ _ hge, List.take_of_length_le hl.bounded]
  · rw [if_neg hle]

theorem update_rank [BEq P] (hk : k < 2^64) (p : P) (q : ℤ) :
    l.update ((k:ℤ)+1) p q = {l with
      levels_ :=
        setWhere (fun x => x.price == p) (fun x => {x with quantity := q}) k l.levels_} := by
  unfold update
  rw [sizeT_rank hk, toNat_rank]
  by_cases hin : k < l.levels_.length
  · rw [if_pos hin, setWhere, List.getElem?_eq_getElem hin]
    dsimp only
    split_ifs <;> rfl
  · rw [if_neg hin, setWhere_beyond _ _ (Nat.le_of_not_lt hin)]

theorem delete_rank [BEq P] (hk : k < 2^64) (p : P) :
    l.delete ((k:ℤ)+1) p =
      {l with levels_ := eraseWhere (fun x => x.price == p) k l.levels_} := by
  unfold delete
  rw [sizeT_rank hk, toNat_rank]
  by_cases hin : k < l.levels_.length
  · rw [if_pos hin, eraseWhere, List.getElem?_eq_getElem hin]
    dsimp only
    split_ifs <;> rfl
  · rw [if_neg hin, eraseWhere_beyond _ (Nat.le_of_not_lt hin)]

theorem deleteFrom_rank (hk : k < 2^64) :
    l.deleteFrom ((k:ℤ)+1) = {l with
      levels_ := if k < l.levels_.length then l.levels_.drop (k+1) else l.levels_} := by
  unfold deleteFrom
  rw [sizeT_rank hk, show ((k:ℤ)+1).toNat = k+1 by omega]
  split_ifs <;> rfl

theorem deleteThru_rank (hk : k < 2^64) :
    l.deleteThru ((k:ℤ)+1) = {l with levels_ := l.levels_.take k} := by
  unfold deleteThru
  rw [sizeT_rank hk, toNat_rank]
  split_ifs with hin
  · rfl
  · rw [List.take_of_length_le (Nat.le_of_not_lt hin)]

/-- The comparison in `size_t` is the one with both bounds. -/
theorem sizeT_iff {level : ℤ} (hl : l.Made) (hlevel : IsInt level) :
    (sizeT (level-1) ≤ l.levels_.length ↔ 0 ≤ level-1 ∧ level-1 ≤ l.levels_.length) ∧
      (sizeT (level-1) < l.levels_.length ↔ 0 ≤ level-1 ∧ level-1 < l.levels_.length) := by
  have hlength := hl.length_lt
  obtain ⟨hlow,hhigh⟩ := hlevel
  unfold sizeT
  omega

theorem refused [BEq P] (hl : l.Made) {level : ℤ} (hlevel : IsInt level) (hlow : level ≤ 0) :
    (∀ p q, l.add level p q = l ∧ l.update level p q = l ∧ l.delete level p = l) ∧
      l.deleteFrom level = l ∧ l.deleteThru level = l := by
  obtain ⟨hle,hlt⟩ := sizeT_iff hl hlevel
  have hout : ¬sizeT (level-1) ≤ l.levels_.length := by
    rw [hle]
    omega
  have hbeyond : ¬sizeT (level-1) < l.levels_.length := by
    rw [hlt]
    omega
  exact ⟨fun p q => ⟨if_neg hout,if_neg hbeyond,if_neg hbeyond⟩,if_neg hbeyond,if_neg hbeyond⟩

variable [BEq P]

def Comparable (l : DepthList P) : Prop := ∀ x ∈ l.levels_, (x.price == x.price) = true

def deleteAt (level : ℤ) (l : DepthList P) : DepthList P :=
  match l.levels_[(level-1).toNat]? with
  | some x => l.delete level x.price
  | none => l

theorem deleteAt_rank (h : l.Comparable) (hk : k < 2^64) :
    deleteAt ((k:ℤ)+1) l = {l with levels_ := l.levels_.eraseIdx k} := by
  unfold deleteAt
  rw [toNat_rank]
  cases hx : l.levels_[k]? with
  | none =>
    have hend : l.levels_.length ≤ k := List.getElem?_eq_none_iff.mp hx
    rw [List.eraseIdx_of_length_le hend]
  | some x =>
    dsimp only
    rw [delete_rank hk, eraseWhere, hx]
    dsimp only
    rw [if_pos (h x (List.mem_of_getElem? hx))]

theorem iterate_deleteAt (h : l.Comparable) (hk : k < 2^64) (j : ℕ) :
    (deleteAt ((k:ℤ)+1))^[j] l =
      {l with levels_ := l.levels_.take k++l.levels_.drop (k+j)} := by
  rw [← iterate_eraseIdx]
  induction j generalizing l with
  | zero => rfl
  | succ j ih =>
    have hrest : DepthList.Comparable {l with levels_ := l.levels_.eraseIdx k} :=
      fun x hx => h x (List.mem_of_mem_eraseIdx hx)
    rw [Function.iterate_succ_apply, Function.iterate_succ_apply, deleteAt_rank h hk, ih hrest]

/-- `DeleteFrom` and `DeleteThru` are as many single deletes, and together they
split the ladder; levels it does not have are refused. -/
theorem bulk_deletes (l : DepthList P) (hl : l.Made) (hp : l.Comparable) (level : ℤ)
    (hlevel : IsInt level) :
    let n : ℤ := l.levels_.length
    (1 ≤ level → level ≤ n →
      l.deleteFrom level = (deleteAt 1)^[level.toNat] l ∧
      l.deleteThru level = (deleteAt level)^[(n-level+1).toNat] l ∧
      l.levels_ = (l.deleteThru (level+1)).levels_++(l.deleteFrom level).levels_) ∧
    (¬(1 ≤ level ∧ level ≤ n) → l.deleteFrom level = l ∧ l.deleteThru level = l) := by
  intro n
  rcases hlevel.rank with hlow | ⟨k,hk,rfl⟩
  · exact ⟨fun hone => absurd hone (by omega),fun _ => (refused hl hlevel hlow).2⟩
  · have hthru := deleteThru_rank (l := l) (k := k) (by omega)
    have hfrom := deleteFrom_rank (l := l) (k := k) (by omega)
    constructor
    · intro _ hin
      have hlt : k < l.levels_.length := by omega
      have hnext := deleteThru_rank (l := l) (k := k+1) (by omega)
      rw [if_pos hlt] at hfrom
      constructor
      · have hsingle := iterate_deleteAt (k := 0) hp (by decide) (k+1)
        rw [hfrom, show ((k:ℤ)+1).toNat = k+1 by omega]
        simpa using hsingle.symm
      constructor
      · have hall : k+(n-((k:ℤ)+1)+1).toNat = l.levels_.length := by omega
        rw [hthru, iterate_deleteAt hp (by omega), hall, List.drop_length, List.append_nil]
      · rw [show (k:ℤ)+1+1 = ((k+1 : ℕ):ℤ)+1 by omega, hnext, hfrom]
        exact (List.take_append_drop (k+1) l.levels_).symm
    · intro hout
      have hge : l.levels_.length ≤ k := by omega
      rw [hthru, hfrom, if_neg (by omega), List.take_of_length_le hge]
      exact ⟨rfl,rfl⟩

def sampleLadder : DepthList ℤ := ⟨3,[⟨103,1⟩,⟨102,2⟩,⟨101,3⟩]⟩

theorem sampleLadder_made : sampleLadder.Made := ⟨by decide,Nat.le_refl _⟩

theorem sampleLadder_comparable : sampleLadder.Comparable := by
  unfold Comparable
  decide

theorem bulk_deletes_sample :
    sampleLadder.deleteFrom 2 = (deleteAt 1)^[2] sampleLadder ∧
      sampleLadder.deleteThru 2 = (deleteAt 2)^[2] sampleLadder :=
  have h := (bulk_deletes sampleLadder sampleLadder_made sampleLadder_comparable 2 (by decide)).1
    (by decide) (by decide)
  ⟨h.1,h.2.1⟩

theorem add_delete_rank (hl : l.Made) (hk : k < 2^64) (hlt : k < l.size_)
    (hle : k ≤ l.levels_.length) {p : P} (hself : (p == p) = true) (q : ℤ) :
    (l.add ((k:ℤ)+1) p q).delete ((k:ℤ)+1) p =
      {l with levels_ := l.levels_.take (l.size_-1)} := by
  have hat := getElem_insertCapped (⟨p,q⟩ : PriceLevel P) hlt hle
  rw [delete_rank hk, add_rank hl hk, if_pos hle]
  dsimp only
  rw [eraseWhere, hat]
  dsimp only
  rw [if_pos hself, erase_insertCapped _ hlt hle]

theorem delete_out (hk : k < 2^64) (hge : l.levels_.length ≤ k) (p : P) :
    l.delete ((k:ℤ)+1) p = l := by
  rw [delete_rank hk, eraseWhere_beyond _ hge]

theorem delete_add_rank (hl : l.Made) (hp : l.Comparable) (hk : k < 2^64) {x : PriceLevel P}
    (hx : l.levels_[k]? = some x) :
    (l.delete ((k:ℤ)+1) x.price).add ((k:ℤ)+1) x.price x.quantity = l := by
  have hself : (x.price == x.price) = true := hp x (List.mem_of_getElem? hx)
  have hdelete := delete_rank (l := l) hk x.price
  rw [eraseWhere, hx] at hdelete
  dsimp only at hdelete
  rw [if_pos hself] at hdelete
  obtain ⟨hlt,-⟩ := List.getElem?_eq_some_iff.mp hx
  have hdeleted : (l.delete ((k:ℤ)+1) x.price).Made := apply_made hl (.delete _ _)
  rw [add_rank hdeleted hk, hdelete]
  dsimp only
  rw [if_pos (by rw [List.length_eraseIdx_of_lt hlt]; omega), insertCapped_erase hx hl.bounded]

/-- An addition that is in range is taken back by the deletion of its price, but
for the last level of a full ladder; a deletion is taken back by the addition
of what was there. -/
theorem add_delete_cancel (l : DepthList P) (hl : l.Made) (hp : l.Comparable) (level : ℤ)
    (hlevel : IsInt level) :
    (∀ p q, (p == p) = true →
      let r := (l.add level p q).delete level p
      (1 ≤ level ∧ level ≤ min (l.size_:ℤ) (l.levels_.length+1) →
        (l.levels_.length < l.size_ → r = l) ∧
        (l.levels_.length = l.size_ → r = {l with levels_ := l.levels_.take (l.size_-1)})) ∧
      (¬(1 ≤ level ∧ level ≤ min (l.size_:ℤ) (l.levels_.length+1)) →
        l.add level p q = l ∧ r = l)) ∧
    (∀ x, 1 ≤ level → l.levels_[(level-1).toNat]? = some x →
      (l.delete level x.price).add level x.price x.quantity = l) := by
  have hbounded : l.levels_.length ≤ l.size_ := hl.bounded
  rcases hlevel.rank with hlow | ⟨k,hk,rfl⟩
  · constructor
    · intro p q _ r
      obtain ⟨hadd,-,hdelete⟩ := (refused hl hlevel hlow).1 p q
      have hr : r = l := by
        change (l.add level p q).delete level p = l
        rw [hadd, hdelete]
      exact ⟨fun hin => absurd hin.1 (by omega),fun _ => ⟨hadd,hr⟩⟩
    · intro x hone
      omega
  · constructor
    · intro p q hself r
      constructor
      · intro hin
        have hr : r = {l with levels_ := l.levels_.take (l.size_-1)} :=
          add_delete_rank hl (by omega) (by omega) (by omega) hself q
        constructor
        · intro hroom
          rw [hr, List.take_of_length_le (by omega)]
        · exact fun _ => hr
      · intro hout
        have hadd : l.add ((k:ℤ)+1) p q = l := add_out hl (by omega) (by omega) p q
        have hboth : (l.add ((k:ℤ)+1) p q).delete ((k:ℤ)+1) p = l := by
          rw [hadd, delete_out (by omega) (by omega)]
        exact ⟨hadd,hboth⟩
    · intro x _ hx
      rw [toNat_rank] at hx
      exact delete_add_rank hl hp (by omega) hx

theorem add_delete_cancel_sample :
    (sampleLadder.add 2 105 4).delete 2 105 = {sampleLadder with levels_ := [⟨103,1⟩,⟨102,2⟩]} :=
  (((add_delete_cancel sampleLadder sampleLadder_made sampleLadder_comparable 2 (by decide)).1
    105 4 rfl).1 (by decide)).2 rfl

def Op.InRange : Op P → Prop
  | .add level _ _ | .update level _ _ | .delete level _ | .deleteFrom level | .deleteThru level =>
    IsInt level
  | .clear => True

theorem Op.InRange.ranked {op : Op P} (h : op.InRange) :
    (∀ l : DepthList P, l.Made → l.apply op = l) ∨ op = .clear ∨
      ∃ k : ℕ, k < 2^31 ∧ ((∃ p q, op = .add (k+1) p q) ∨ (∃ p q, op = .update (k+1) p q) ∨
        (∃ p, op = .delete (k+1) p) ∨ op = .deleteFrom (k+1) ∨ op = .deleteThru (k+1)) := by
  cases op with
  | clear => exact Or.inr (Or.inl rfl)
  | add level p q =>
    rcases IsInt.rank h with hlow | ⟨k,hk,rfl⟩
    · exact Or.inl fun l hl => ((refused hl h hlow).1 p q).1
    · exact Or.inr (Or.inr ⟨k,hk,by simp⟩)
  | update level p q =>
    rcases IsInt.rank h with hlow | ⟨k,hk,rfl⟩
    · exact Or.inl fun l hl => ((refused hl h hlow).1 p q).2.1
    · exact Or.inr (Or.inr ⟨k,hk,by simp⟩)
  | delete level p =>
    rcases IsInt.rank h with hlow | ⟨k,hk,rfl⟩
    · exact Or.inl fun l hl => ((refused hl h hlow).1 p 0).2.2
    · exact Or.inr (Or.inr ⟨k,hk,by simp⟩)
  | deleteFrom level =>
    rcases IsInt.rank h with hlow | ⟨k,hk,rfl⟩
    · exact Or.inl fun l hl => (refused hl h hlow).2.1
    · exact Or.inr (Or.inr ⟨k,hk,by simp⟩)
  | deleteThru level =>
    rcases IsInt.rank h with hlow | ⟨k,hk,rfl⟩
    · exact Or.inl fun l hl => (refused hl h hlow).2.2
    · exact Or.inr (Or.inr ⟨k,hk,by simp⟩)

def after (size : UInt32) (ops : List (Op P)) : DepthList P := ops.foldl apply ⟨size.toNat,[]⟩

theorem after_snoc (size : UInt32) (ops : List (Op P)) (op : Op P) :
    after size (ops++[op]) = (after size ops).apply op := by
  rw [after, List.foldl_append]
  rfl

theorem after_size (size : UInt32) (ops : List (Op P)) : (after size ops).size_ = size.toNat := by
  induction ops using List.reverseRecOn with
  | nil => rfl
  | append_singleton ops op ih => rw [after_snoc, apply_size, ih]

theorem after_made (size : UInt32) (ops : List (Op P)) : (after size ops).Made := by
  induction ops using List.reverseRecOn with
  | nil => exact empty_made size.toNat_lt
  | append_singleton ops op ih =>
    rw [after_snoc]
    exact apply_made ih op

/-- The operation erases from the best level downward a stretch that the first
ladder does not have in full. -/
def Outruns (l m : DepthList P) : Op P → Prop
  | .deleteFrom level => (l.levels_.length:ℤ) < level ∧ level ≤ m.levels_.length
  | _ => False

def Op.Raises : Op P → Prop
  | .delete _ _ | .deleteFrom _ => True
  | _ => False

/-- The limited ladder is the top of the full one. -/
def Top (l m : DepthList P) : Prop := l.levels_ = m.levels_.take l.size_

theorem apply_prefix {l m : DepthList P} (hl : l.Made) (hm : m.Made) (h : l.levels_ <+: m.levels_)
    (hroom : m.levels_.length < m.size_) {op : Op P} (hop : op.InRange) (hout : ¬Outruns l m op) :
    (l.apply op).levels_ <+: (m.apply op).levels_ := by
  have hlength := h.length_le
  rcases hop.ranked with hrefused | rfl | ⟨k,hk,⟨p,q,rfl⟩ | ⟨p,q,rfl⟩ | ⟨p,rfl⟩ | rfl | rfl⟩
  · rw [hrefused l hl, hrefused m hm]
    exact h
  · exact List.prefix_rfl
  · rw [apply, apply, add_rank hl (by omega), add_room hm hroom (by omega)]
    dsimp only
    by_cases hin : k ≤ l.levels_.length
    · rw [if_pos hin, if_pos (Nat.le_trans hin hlength)]
      exact prefix_insertCapped _ h hin
    · rw [if_neg hin]
      split_ifs
      · exact prefix_insertIdx _ h (by omega)
      · exact h
  · rw [apply, apply, update_rank (by omega), update_rank (by omega)]
    exact prefix_setWhere _ _ k h
  · rw [apply, apply, delete_rank (by omega), delete_rank (by omega)]
    exact prefix_eraseWhere _ k h
  · rw [apply, apply, deleteFrom_rank (by omega), deleteFrom_rank (by omega)]
    unfold Outruns at hout
    dsimp only
    by_cases hin : k < l.levels_.length
    · rw [if_pos hin, if_pos (Nat.lt_of_lt_of_le hin hlength)]
      exact h.drop (k+1)
    · rw [if_neg hin, if_neg (by omega)]
      exact h
  · rw [apply, apply, deleteThru_rank (by omega), deleteThru_rank (by omega)]
    exact h.take k

theorem apply_top {l m : DepthList P} (hl : l.Made) (hm : m.Made) (h : Top l m)
    (hroom : m.levels_.length < m.size_) {op : Op P} (hop : op.InRange) (hkeep : ¬op.Raises) :
    Top (l.apply op) (m.apply op) := by
  unfold Top at h ⊢
  have hlength : l.levels_.length = min l.size_ m.levels_.length := by rw [h, List.length_take]
  rw [apply_size]
  rcases hop.ranked with hrefused | rfl | ⟨k,hk,⟨p,q,rfl⟩ | ⟨p,q,rfl⟩ | ⟨p,rfl⟩ | rfl | rfl⟩
  · rw [hrefused l hl, hrefused m hm]
    exact h
  · exact List.take_nil.symm
  · rw [apply, apply, add_rank hl (by omega), add_room hm hroom (by omega)]
    dsimp only
    by_cases hin : k ≤ l.levels_.length
    · rw [if_pos hin, if_pos (by omega), h, take_insertCapped _ (h ▸ hin)]
    · rw [if_neg hin]
      split_ifs
      · rw [List.take_insertIdx_eq_take_of_le _ _ _ _ (by omega)]
        exact h
      · exact h
  · rw [apply, apply, update_rank (by omega), update_rank (by omega)]
    dsimp only
    rw [take_setWhere, ← h]
  · exact absurd trivial hkeep
  · exact absurd trivial hkeep
  · rw [apply, apply, deleteThru_rank (by omega), deleteThru_rank (by omega)]
    dsimp only
    rw [List.take_take, Nat.min_comm, ← List.take_take, ← h]

/-- A ladder of any capacity follows the one that is never full: it is a prefix
of it after every operation, and its top as long as nothing comes up from
below, unless an operation erases a stretch of which it lost a part. -/
theorem limited_ladder (limit size : UInt32) (ops : List (Op P)) (hops : ∀ op ∈ ops, op.InRange)
    (hroom : ∀ pre post, ops = pre++post → (after size pre).levels_.length < size.toNat)
    (hout : ∀ pre op post, ops = pre++op::post → ¬Outruns (after limit pre) (after size pre) op)
    (pre post : List (Op P)) (hpre : ops = pre++post) :
    (after limit pre).levels_ <+: (after size pre).levels_ ∧
      ((∀ op ∈ pre, ¬op.Raises) →
        (after limit pre).levels_ =
          (after size pre).levels_.take (min limit.toNat (after size pre).levels_.length)) := by
  have hall : (after limit pre).levels_ <+: (after size pre).levels_ ∧
      ((∀ op ∈ pre, ¬op.Raises) → Top (after limit pre) (after size pre)) := by
    induction pre using List.reverseRecOn generalizing post with
    | nil => exact ⟨List.prefix_rfl,fun _ => List.take_nil.symm⟩
    | append_singleton pre op ih =>
      have hsplit : ops = pre++op::post := by simpa using hpre
      have hop : op.InRange := hops op (by simp [hsplit])
      have hspace : (after size pre).levels_.length < (after size pre).size_ := by
        rw [after_size]
        exact hroom pre _ hsplit
      obtain ⟨hkept,htop⟩ := ih (op::post) hsplit
      rw [after_snoc, after_snoc]
      constructor
      · exact apply_prefix (after_made limit pre) (after_made size pre) hkept hspace hop
          (hout pre op post hsplit)
      · intro hkeep
        exact apply_top (after_made limit pre) (after_made size pre)
          (htop fun x hx => hkeep x (by simp [hx])) hspace hop (hkeep op (by simp))
  constructor
  · exact hall.1
  · intro hkeep
    rw [← List.take_take, List.take_length, hall.2 hkeep, after_size]

theorem limited_ladder_sample :
    let ops : List (Op ℤ) := [.add 1 101 1,.add 1 102 2]
    (after 1 ops).levels_ <+: (after 3 ops).levels_ := by
  intro ops
  have hroom : ∀ pre post, ops = pre++post → (after 3 pre).levels_.length < (3 : UInt32).toNat := by
    rw [forall_prefix_cons fun pre => (after 3 pre).levels_.length < (3 : UInt32).toNat,
      forall_prefix_cons fun pre => (after 3 (_::pre)).levels_.length < (3 : UInt32).toNat,
      forall_prefix_nil fun pre => (after 3 (_::_::pre)).levels_.length < (3 : UInt32).toNat]
    decide
  have hout : ∀ pre op post, ops = pre++op::post → ¬Outruns (after 1 pre) (after 3 pre) op := by
    rintro pre op post hsplit houtruns
    have hop : op ∈ ops := by simp [hsplit]
    simp only [ops, List.mem_cons, List.not_mem_nil, or_false] at hop
    rcases hop with rfl | rfl <;> exact houtruns
  have hops : ∀ op ∈ ops, op.InRange := by
    intro op hop
    simp only [ops, List.mem_cons, List.not_mem_nil, or_false] at hop
    rcases hop with rfl | rfl <;> exact (by decide : IsInt 1)
  exact (limited_ladder 1 3 ops hops hroom hout ops [] (by simp)).1

end DepthList

end CmeFeed
