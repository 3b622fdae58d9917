import CmeFeed.LadderLaws
import CmeFeed.Vectors

/-!
# The bounds of a ladder

Every operation of a ladder is a program that works on the vector `levels_`.
The comparison of an `int` with the `size_t` length lets a level through
exactly if the positions computed from it lie in the vector, so no use is out
of range, and the vector is at most one longer than the capacity.
-/

set_option autoImplicit false

namespace CmeFeed

open Vectors

namespace DepthList

variable {P : Type}

/-- The space the constructor reserves, `size_ + 1` in `uint32_t`. -/
def reserved (size : UInt32) : ℕ := (size+1).toNat

/-- What the statements of an operation do with `levels_`. -/
def Op.program [BEq P] (size_ : ℕ) : Op P → Program (PriceLevel P)
  | .add level price quantity => .size fun length =>
    if sizeT (level-1) ≤ length then
      .use (.insert (level-1) ⟨price,quantity⟩) <| .size fun length =>
        if size_ < length then .use (.eraseOne size_) .done else .done
    else .done
  | .update level price quantity => .size fun length =>
    if sizeT (level-1) < length then
      .read (level-1) fun price_level =>
        if price_level.price == price then
          .use (.write (level-1) {price_level with quantity := quantity}) .done
        else .done
    else .done
  | .delete level price => .size fun length =>
    if sizeT (level-1) < length then
      .read (level-1) fun it =>
        if it.price == price then .use (.eraseOne (level-1)) .done else .done
    else .done
  | .deleteFrom level => .size fun length =>
    if sizeT (level-1) < length then .use (.erase 0 level) .done else .done
  | .deleteThru level => .size fun length =>
    if sizeT (level-1) < length then .use (.erase (level-1) length) .done else .done
  | .clear => .use .clear .done

def Op.level : Op P → Option ℤ
  | .add level _ _ | .update level _ _ | .delete level _ | .deleteFrom level | .deleteThru level =>
    some level
  | .clear => none

def Op.ByteLevel (op : Op P) : Prop := ∀ level, op.level = some level → 0 ≤ level ∧ level ≤ 255

theorem Op.ByteLevel.inRange {op : Op P} (h : op.ByteLevel) : op.InRange := by
  cases op with
  | clear => trivial
  | _ =>
    obtain ⟨hlow,hhigh⟩ := h _ rfl
    exact ⟨by omega,by omega⟩

variable {l : DepthList P} {level : ℤ}

theorem test_checked {c : Prop} [Decidable c] {p : Program (PriceLevel P)} {n : ℕ}
    {m : DepthList P} (h : c → p.Checked n (· = m.levels_) l.levels_) :
    (if c then p else .done).Checked n (· = (if c then m else l).levels_) l.levels_ := by
  apply Program.checked_ite
  · intro hc
    rw [if_pos hc]
    exact h hc
  · intro hc
    rw [if_neg hc]
    rfl

theorem shed_checked {size_ : ℕ} {levels : List (PriceLevel P)} (h : levels.length ≤ size_+1) :
    (Program.size fun length =>
      if size_ < length then .use (.eraseOne size_) .done else .done).Checked (size_+1)
      (· = if size_ < levels.length then levels.eraseIdx size_ else levels) levels := by
  apply Program.checked_ite
  · intro hfull
    have herase : (Use.eraseOne size_).apply levels = levels.eraseIdx size_ :=
      Use.eraseOne_apply (by omega) levels
    have hwithin : (Use.eraseOne size_ : Use (PriceLevel P)).Within levels.length :=
      Use.eraseOne_within (by omega) (Int.ofNat_lt.mpr hfull)
    rw [Program.Checked, herase, if_pos hfull]
    exact ⟨hwithin,Nat.le_trans (List.length_eraseIdx_le _ _) h,rfl⟩
  · intro hroom
    rw [if_neg hroom]
    rfl

theorem add_checked [BEq P] (hl : l.Made) (hlevel : IsInt level) (p : P) (q : ℤ) :
    ((Op.add level p q).program l.size_).Checked (l.size_+1)
      (· = (l.add level p q).levels_) l.levels_ := by
  have hbounded : l.levels_.length ≤ l.size_ := hl.bounded
  unfold add
  apply test_checked
  intro hin
  obtain ⟨hlow,hhigh⟩ := (sizeT_iff hl hlevel).1.mp hin
  have hgrown : (l.levels_.insertIdx (level-1).toNat ⟨p,q⟩).length = l.levels_.length+1 :=
    List.length_insertIdx_of_le_length (by omega) _
  have hfits : (l.levels_.insertIdx (level-1).toNat ⟨p,q⟩).length ≤ l.size_+1 := by omega
  dsimp only
  rw [apply_ite levels_]
  exact ⟨⟨hlow,hhigh⟩,hfits,shed_checked hfits⟩

theorem update_checked [BEq P] (hl : l.Made) (hlevel : IsInt level) (p : P) (q : ℤ) :
    ((Op.update level p q).program l.size_).Checked (l.size_+1)
      (· = (l.update level p q).levels_) l.levels_ := by
  have hbounded : l.levels_.length ≤ l.size_ := hl.bounded
  unfold update
  apply test_checked
  intro hin
  have hwithin := (sizeT_iff hl hlevel).2.mp hin
  constructor
  · exact hwithin
  · intro price_level hx
    rw [hx]
    apply test_checked
    intro _
    have hlength : (l.levels_.set (level-1).toNat {price_level with quantity := q}).length ≤
        l.size_+1 := by
      rw [List.length_set]
      omega
    exact ⟨hwithin,hlength,rfl⟩

theorem delete_checked [BEq P] (hl : l.Made) (hlevel : IsInt level) (p : P) :
    ((Op.delete level p).program l.size_).Checked (l.size_+1)
      (· = (l.delete level p).levels_) l.levels_ := by
  have hbounded : l.levels_.length ≤ l.size_ := hl.bounded
  unfold delete
  apply test_checked
  intro hin
  obtain ⟨hlow,hhigh⟩ := (sizeT_iff hl hlevel).2.mp hin
  constructor
  · exact ⟨hlow,hhigh⟩
  · intro it hx
    rw [hx]
    apply test_checked
    intro _
    have hlength : (l.levels_.eraseIdx (level-1).toNat).length ≤ l.size_+1 :=
      Nat.le_trans (List.length_eraseIdx_le _ _) (by omega)
    rw [Program.Checked, Use.eraseOne_apply hlow]
    exact ⟨Use.eraseOne_within hlow hhigh,hlength,rfl⟩

theorem deleteFrom_checked [BEq P] (hl : l.Made) (hlevel : IsInt level) :
    ((Op.deleteFrom level : Op P).program l.size_).Checked (l.size_+1)
      (· = (l.deleteFrom level).levels_) l.levels_ := by
  have hbounded : l.levels_.length ≤ l.size_ := hl.bounded
  unfold deleteFrom
  apply test_checked
  intro hin
  have hrange := (sizeT_iff hl hlevel).2.mp hin
  have hwithin : (Use.erase 0 level : Use (PriceLevel P)).Within l.levels_.length := by
    unfold Use.Within
    omega
  have hlength : (l.levels_.drop level.toNat).length ≤ l.size_+1 := by
    rw [List.length_drop]
    omega
  exact ⟨hwithin,hlength,rfl⟩

theorem deleteThru_checked [BEq P] (hl : l.Made) (hlevel : IsInt level) :
    ((Op.deleteThru level : Op P).program l.size_).Checked (l.size_+1)
      (· = (l.deleteThru level).levels_) l.levels_ := by
  have hbounded : l.levels_.length ≤ l.size_ := hl.bounded
  unfold deleteThru
  apply test_checked
  intro hin
  have hrange := (sizeT_iff hl hlevel).2.mp hin
  have hwithin : (Use.erase (level-1) l.levels_.length : Use (PriceLevel P)).Within
      l.levels_.length := by
    unfold Use.Within
    omega
  have herased : (Use.erase (level-1) l.levels_.length).apply l.levels_ =
      l.levels_.take (level-1).toNat := by
    rw [Use.apply, Int.toNat_natCast, List.drop_length, List.append_nil]
  have hlength : (l.levels_.take (level-1).toNat).length ≤ l.size_+1 := by
    rw [List.length_take]
    omega
  rw [Program.Checked, herased]
  exact ⟨hwithin,hlength,rfl⟩

/-- No use of an operation is out of range, and the operation is what the
ladder makes of it. -/
theorem program_checked [BEq P] (hl : l.Made) {op : Op P} (hop : op.InRange) :
    (op.program l.size_).Checked (l.size_+1) (· = (l.apply op).levels_) l.levels_ := by
  cases op with
  | add level p q => exact add_checked hl hop p q
  | update level p q => exact update_checked hl hop p q
  | delete level p => exact delete_checked hl hop p
  | deleteFrom level => exact deleteFrom_checked hl hop
  | deleteThru level => exact deleteThru_checked hl hop
  | clear => exact ⟨trivial,Nat.zero_le _,rfl⟩

def Op.Fits [BEq P] (op : Op P) (l : DepthList P) (space : ℕ) : Prop :=
  ∀ m ∈ (op.program l.size_).moments l.levels_,
    m.before.length ≤ space ∧ m.after.length ≤ space

/-- What an operation does with the vector is in bounds. -/
structure Op.Safe [BEq P] (op : Op P) (l : DepthList P) : Prop where
  result : (op.program l.size_).run l.levels_ = (l.apply op).levels_
  between : l.levels_.length ≤ l.size_ ∧ (l.apply op).levels_.length ≤ l.size_
  inside : op.Fits l (l.size_+1)
  within : ∀ m ∈ (op.program l.size_).moments l.levels_, m.Within
  refused : op.level = some 0 → (op.program l.size_).moments l.levels_ = []

theorem moments_zero [BEq P] (hl : l.Made) {op : Op P} (hop : op.level = some 0) :
    (op.program l.size_).moments l.levels_ = [] := by
  obtain ⟨hle,hlt⟩ := sizeT_iff hl (by decide : IsInt 0)
  have hle' : ¬sizeT (0-1) ≤ l.levels_.length := fun h => absurd (hle.mp h).1 (by decide)
  have hlt' : ¬sizeT (0-1) < l.levels_.length := fun h => absurd (hlt.mp h).1 (by decide)
  cases op with
  | clear => exact absurd hop nofun
  | add level p q =>
    cases hop
    simp only [Op.program, Program.moments, if_neg hle']
  | _ =>
    cases hop
    simp only [Op.program, Program.moments, if_neg hlt']

theorem made_safe [BEq P] (hl : l.Made) {op : Op P} (hop : op.InRange) : op.Safe l := by
  have hchecked := program_checked hl hop
  have hmoments := Program.checked_moments (Nat.le_succ_of_le hl.bounded) hchecked
  constructor
  · exact Program.checked_run hchecked
  · have hafter := apply_bounded l op hl.bounded
    rw [Bounded, apply_size] at hafter
    exact ⟨hl.bounded,hafter⟩
  · exact fun m hm => (hmoments m hm).2
  · exact fun m hm => (hmoments m hm).1
  · exact moments_zero hl

theorem reserved_succ {size : UInt32} (h : size ≠ 4294967295) : reserved size = size.toNat+1 := by
  have hlt := size.toNat_lt
  have hne : size.toNat ≠ 4294967295 := fun heq => h (UInt32.toNat_inj.mp heq)
  rw [reserved, UInt32.toNat_add, UInt32.toNat_one, Nat.mod_eq_of_lt (by omega)]

theorem add_unreserved [BEq P] (p : P) (q : ℤ) :
    ¬(Op.add 1 p q).Fits (after 4294967295 []) (reserved 4294967295) := by
  intro hfits
  have hinsert : (⟨[],.insert 0 ⟨p,q⟩⟩ : Moment (PriceLevel P)) ∈
      ((Op.add 1 p q).program (after 4294967295 ([] : List (Op P))).size_).moments [] :=
    List.mem_cons_self
  exact Nat.not_succ_le_zero 0 (hfits _ hinsert).2

/-- In every run each use of the vector is within it, and the vector exceeds
the capacity by one at most. The space that the constructor reserves for that
is enough exactly if the sum with one does not overflow. -/
theorem ladder_bounds [BEq P] [Inhabited P] (size : UInt32) :
    (∀ (ops : List (Op P)) (op : Op P), (∀ o ∈ ops++[op], o.ByteLevel) →
      op.Safe (after size ops)) ∧
    ((∀ (ops : List (Op P)) (op : Op P), (∀ o ∈ ops++[op], o.ByteLevel) →
      op.Fits (after size ops) (reserved size)) ↔ size ≠ 4294967295) := by
  have hsafe : ∀ (ops : List (Op P)) (op : Op P), (∀ o ∈ ops++[op], o.ByteLevel) →
      op.Safe (after size ops) := by
    intro ops op hops
    exact made_safe (after_made size ops) (hops op (by simp)).inRange
  constructor
  · exact hsafe
  constructor
  · rintro hfits rfl
    apply add_unreserved (default : P) 0
    apply hfits
    intro o ho level hlevel
    cases List.mem_singleton.mp ho
    cases hlevel
    decide
  · intro hsize ops op hops
    have hinside := (hsafe ops op hops).inside
    rwa [after_size, ← reserved_succ hsize] at hinside

/-- With the largest capacity nothing is reserved, and the first addition takes
the vector to a length of one. -/
theorem ladder_bounds_unreserved :
    reserved 4294967295 = 0 ∧
      ∃ m ∈ ((Op.add 1 100 1 : Op ℤ).program (after 4294967295 ([] : List (Op ℤ))).size_).moments
        (after 4294967295 ([] : List (Op ℤ))).levels_, m.after.length = 1 :=
  ⟨rfl,_,List.mem_cons_self,rfl⟩

end DepthList

end CmeFeed
