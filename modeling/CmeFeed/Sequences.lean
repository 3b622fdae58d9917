import Mathlib.Data.List.Infix
import Mathlib.Data.List.InsertIdx
import Mathlib.Data.List.TakeDrop
import Mathlib.Logic.Function.Iterate
import Mathlib.Order.Defs.Unbundled

/-!
# Lists read and written by rank

Insertion into a list of bounded length pushes the last element out. The other
operations test what they find at a rank before they write. The module says
how these operations act on a list and on a prefix of it, when insertion and
erasure cancel, and what they do to a list that is in order.
-/

set_option autoImplicit false

namespace Sequences

variable {α β : Type*}

def insertCapped (n k : ℕ) (a : α) (l : List α) : List α := (l.insertIdx k a).take n

def setWhere (p : α → Bool) (f : α → α) (k : ℕ) (l : List α) : List α :=
  match l[k]? with
  | some x => if p x then l.set k (f x) else l
  | none => l

def eraseWhere (p : α → Bool) (k : ℕ) (l : List α) : List α :=
  match l[k]? with
  | some x => if p x then l.eraseIdx k else l
  | none => l

theorem insertIdx_eq {k : ℕ} {l : List α} (h : k ≤ l.length) (a : α) :
    l.insertIdx k a = l.take k++a::l.drop k := by
  induction l generalizing k with
  | nil =>
    have hk : k = 0 := by simpa using h
    subst hk
    rfl
  | cons x l ih =>
    cases k with
    | zero => rfl
    | succ k =>
      have hk : k ≤ l.length := by simpa using h
      simp [List.insertIdx_succ_cons, ih hk]

theorem insertIdx_append {k : ℕ} {l : List α} (h : k ≤ l.length) (a : α) (t : List α) :
    (l++t).insertIdx k a = l.insertIdx k a++t := by
  have hlong : k ≤ (l++t).length := by
    rw [List.length_append]
    omega
  rw [insertIdx_eq hlong, insertIdx_eq h, List.take_append_of_le_length h,
    List.drop_append_of_le_length h]
  simp

theorem setWhere_append (p : α → Bool) (f : α → α) {k : ℕ} {l : List α} (h : k < l.length)
    (t : List α) : setWhere p f k (l++t) = setWhere p f k l++t := by
  unfold setWhere
  rw [List.getElem?_append_left h, List.getElem?_eq_getElem h]
  dsimp only
  split_ifs
  · exact List.set_append_left k _ h
  · rfl

theorem setWhere_beyond (p : α → Bool) (f : α → α) {k : ℕ} {l : List α} (h : l.length ≤ k) :
    setWhere p f k l = l := by
  rw [setWhere, List.getElem?_eq_none h]

theorem setWhere_length (p : α → Bool) (f : α → α) (k : ℕ) (l : List α) :
    (setWhere p f k l).length = l.length := by
  unfold setWhere
  cases l[k]? with
  | none => rfl
  | some x =>
    dsimp only
    split_ifs <;> simp

theorem eraseWhere_append (p : α → Bool) {k : ℕ} {l : List α} (h : k < l.length)
    (t : List α) : eraseWhere p k (l++t) = eraseWhere p k l++t := by
  unfold eraseWhere
  rw [List.getElem?_append_left h, List.getElem?_eq_getElem h]
  dsimp only
  split_ifs
  · exact List.eraseIdx_append_of_lt_length h t
  · rfl

theorem eraseWhere_beyond (p : α → Bool) {k : ℕ} {l : List α} (h : l.length ≤ k) :
    eraseWhere p k l = l := by
  rw [eraseWhere, List.getElem?_eq_none h]

theorem take_setWhere (p : α → Bool) (f : α → α) (n k : ℕ) (l : List α) :
    (setWhere p f k l).take n = setWhere p f k (l.take n) := by
  rcases Nat.lt_or_ge k (l.take n).length with hk | hk
  · conv_lhs => rw [← List.take_append_drop n l, setWhere_append p f hk]
    have hlength : (setWhere p f k (l.take n)).length ≤ n := by
      rw [setWhere_length, List.length_take]
      omega
    rcases Nat.lt_or_ge l.length n with hn | hn
    · rw [List.drop_eq_nil_of_le (Nat.le_of_lt hn), List.append_nil,
        List.take_of_length_le hlength]
    · exact List.take_left' (by rw [setWhere_length, List.length_take]; omega)
  · rw [setWhere_beyond p f hk]
    unfold setWhere
    cases hx : l[k]? with
    | none => rfl
    | some x =>
      have hlt : k < l.length := by
        by_contra hge
        rw [List.getElem?_eq_none (Nat.le_of_not_lt hge)] at hx
        exact absurd hx (by simp)
      have hn : n ≤ k := by
        rw [List.length_take] at hk
        omega
      dsimp only
      split_ifs
      · exact List.take_set_of_le hn
      · rfl

theorem take_insertCapped {n k : ℕ} {l : List α} (a : α) (h : k ≤ (l.take n).length) :
    insertCapped n k a (l.take n) = (l.insertIdx k a).take n := by
  conv_rhs => rw [← List.take_append_drop n l, insertIdx_append h]
  rcases Nat.lt_or_ge l.length n with hn | hn
  · rw [List.drop_eq_nil_of_le (Nat.le_of_lt hn), List.append_nil]
    rfl
  · rw [List.take_append_of_le_length]
    · rfl
    · rw [List.length_insertIdx_of_le_length h, List.length_take]
      omega

theorem prefix_insertCapped {n k : ℕ} {l m : List α} (a : α) (h : l <+: m) (hk : k ≤ l.length) :
    insertCapped n k a l <+: m.insertIdx k a := by
  obtain ⟨t,rfl⟩ := h
  rw [insertIdx_append hk]
  exact (List.take_prefix n _).trans (List.prefix_append _ t)

theorem prefix_insertIdx {k : ℕ} {l m : List α} (a : α) (h : l <+: m) (hk : l.length ≤ k) :
    l <+: m.insertIdx k a := by
  rw [List.prefix_iff_eq_take, List.take_insertIdx_eq_take_of_le m a l.length k hk]
  exact List.prefix_iff_eq_take.mp h

theorem prefix_setWhere (p : α → Bool) (f : α → α) (k : ℕ) {l m : List α} (h : l <+: m) :
    setWhere p f k l <+: setWhere p f k m := by
  have htake : l = m.take l.length := List.prefix_iff_eq_take.mp h
  rw [htake, ← take_setWhere]
  exact List.take_prefix _ _

theorem prefix_eraseWhere (p : α → Bool) (k : ℕ) {l m : List α} (h : l <+: m) :
    eraseWhere p k l <+: eraseWhere p k m := by
  obtain ⟨t,rfl⟩ := h
  rcases Nat.lt_or_ge k l.length with hk | hk
  · rw [eraseWhere_append p hk]
    exact List.prefix_append _ t
  · rw [eraseWhere_beyond p hk]
    unfold eraseWhere
    cases (l++t)[k]? with
    | none => exact List.prefix_append l t
    | some x =>
      dsimp only
      split_ifs
      · rw [List.eraseIdx_append_of_length_le hk]
        exact List.prefix_append l _
      · exact List.prefix_append l t

theorem insertCapped_beyond {n k : ℕ} (a : α) (l : List α) (h : n ≤ k) :
    insertCapped n k a l = l.take n := List.take_insertIdx_eq_take_of_le l a n k h

theorem getElem_insertCapped {n k : ℕ} {l : List α} (a : α) (hk : k < n) (hl : k ≤ l.length) :
    (insertCapped n k a l)[k]? = some a := by
  rw [insertCapped, List.getElem?_take_of_lt hk, List.getElem?_insertIdx_self, if_pos hl]

theorem insertCapped_eq {n k : ℕ} {l : List α} (a : α) (hk : k < n) (hl : k ≤ l.length) :
    insertCapped n k a l = (l.take (n-1)).insertIdx k a := by
  have hkept : k ≤ (l.take (n-1)).length := by
    rw [List.length_take]
    omega
  rw [insertCapped, insertIdx_eq hl, insertIdx_eq hkept, List.take_take, List.take_append,
    List.length_take, Nat.min_eq_left hl, List.take_take, List.drop_take,
    show n-k = n-1-k+1 by omega, List.take_succ_cons, Nat.min_eq_right (by omega),
    Nat.min_eq_left (by omega)]

theorem erase_insertCapped {n k : ℕ} {l : List α} (a : α) (hk : k < n) (hl : k ≤ l.length) :
    (insertCapped n k a l).eraseIdx k = l.take (n-1) := by
  rw [insertCapped_eq a hk hl, List.eraseIdx_insertIdx_self]

theorem insertCapped_erase {n k : ℕ} {l : List α} {a : α} (h : l[k]? = some a)
    (hl : l.length ≤ n) : insertCapped n k a (l.eraseIdx k) = l := by
  obtain ⟨hk,ha⟩ := List.getElem?_eq_some_iff.mp h
  rw [insertCapped, ← ha, List.insertIdx_eraseIdx_getElem hk, List.take_of_length_le hl]

theorem iterate_eraseIdx (k j : ℕ) (l : List α) :
    (fun l : List α => l.eraseIdx k)^[j] l = l.take k++l.drop (k+j) := by
  induction j with
  | zero => simp
  | succ j ih =>
    rw [Function.iterate_succ_apply', ih]
    rcases Nat.lt_or_ge l.length k with hk | hk
    · rw [List.drop_eq_nil_of_le (by omega), List.drop_eq_nil_of_le (by omega), List.append_nil,
        List.take_of_length_le (Nat.le_of_lt hk), List.eraseIdx_of_length_le (Nat.le_of_lt hk)]
    · have hsize : (l.take k).length = k := by
        rw [List.length_take]
        omega
      rw [List.eraseIdx_append_of_length_le (Nat.le_of_eq hsize), hsize, Nat.sub_self,
        List.eraseIdx_zero, List.tail_drop, Nat.add_assoc]

theorem pairwise_take {r : α → α → Prop} [IsTrans α r] {k : ℕ} {l : List α}
    (h : l.Pairwise r) (hk : k ≤ l.length) {a : α}
    (hlast : ∀ x, 0 < k → l[k-1]? = some x → r x a) : ∀ x ∈ l.take k, r x a := by
  intro x hx
  obtain ⟨i,hi,hget⟩ := List.getElem_of_mem hx
  rw [List.length_take] at hi
  rw [List.getElem_take] at hget
  have hbelow := hlast l[k-1] (by omega) (List.getElem?_eq_getElem (by omega))
  rcases Nat.lt_or_ge i (k-1) with hlt | hge
  · have hless := List.pairwise_iff_getElem.mp h i (k-1) (by omega) (by omega) hlt
    rw [hget] at hless
    exact IsTrans.trans _ _ _ hless hbelow
  · have hik : i = k-1 := by omega
    subst hik
    rwa [← hget]

theorem pairwise_drop {r : α → α → Prop} [IsTrans α r] {k : ℕ} {l : List α}
    (h : l.Pairwise r) {a : α} (hfirst : ∀ y, l[k]? = some y → r a y) :
    ∀ y ∈ l.drop k, r a y := by
  intro y hy
  obtain ⟨i,hi,hget⟩ := List.getElem_of_mem hy
  rw [List.length_drop] at hi
  rw [List.getElem_drop] at hget
  have habove := hfirst l[k] (List.getElem?_eq_getElem (by omega))
  cases i with
  | zero => exact hget ▸ habove
  | succ i =>
    have hless := List.pairwise_iff_getElem.mp h k (k+(i+1)) (by omega) (by omega) (by omega)
    rw [hget] at hless
    exact IsTrans.trans _ _ _ habove hless

theorem pairwise_insertIdx {r : α → α → Prop} [IsTrans α r] {k : ℕ} {l : List α}
    (h : l.Pairwise r) (hk : k ≤ l.length) (a : α) :
    (l.insertIdx k a).Pairwise r ↔
      (∀ x, 0 < k → l[k-1]? = some x → r x a) ∧ ∀ y, l[k]? = some y → r a y := by
  have hparts : (l.take k++l.drop k).Pairwise r := by rwa [List.take_append_drop]
  obtain ⟨hbefore,hafter,hacross⟩ := List.pairwise_append.mp hparts
  rw [insertIdx_eq hk, List.pairwise_append, List.pairwise_cons]
  constructor
  · rintro ⟨-,⟨hright,-⟩,hleft⟩
    constructor
    · intro x hpos hx
      have hmem : (l.take k)[k-1]? = some x := by rw [List.getElem?_take_of_lt (by omega), hx]
      exact hleft x (List.mem_of_getElem? hmem) a List.mem_cons_self
    · intro y hy
      have hmem : (l.drop k)[0]? = some y := by rw [List.getElem?_drop, Nat.add_zero, hy]
      exact hright y (List.mem_of_getElem? hmem)
  · rintro ⟨hlast,hfirst⟩
    have hcross : ∀ x ∈ l.take k, ∀ y ∈ a::l.drop k, r x y := by
      intro x hx y hy
      rcases List.mem_cons.mp hy with rfl | hy
      · exact pairwise_take h hk hlast x hx
      · exact hacross x hx y hy
    exact ⟨hbefore,⟨pairwise_drop h hfirst,hafter⟩,hcross⟩

def Between (r : α → α → Prop) (l : List α) (k : ℕ) (a : α) : Prop :=
  (∀ x, 0 < k → l[k-1]? = some x → r x a) ∧ ∀ y, l[k+1]? = some y → r a y

theorem pairwise_insertCapped {r : α → α → Prop} [IsTrans α r] {n k : ℕ} {l : List α}
    (h : l.Pairwise r) (hl : l.length ≤ n) (hk : k ≤ l.length) (a : α) :
    (insertCapped n k a l).Pairwise r ↔
      insertCapped n k a l = l ∨ Between r (insertCapped n k a l) k a := by
  rcases Nat.lt_or_ge k n with hlt | hge
  · have hkept : k ≤ (l.take (n-1)).length := by
      rw [List.length_take]
      omega
    have hbefore : ∀ x, 0 < k → (((l.take (n-1)).insertIdx k a)[k-1]? = some x ↔
        (l.take (n-1))[k-1]? = some x) := by
      intro x hpos
      rw [List.getElem?_insertIdx_of_lt (by omega)]
    have hafter : ((l.take (n-1)).insertIdx k a)[k+1]? = (l.take (n-1))[k]? := by
      rw [List.getElem?_insertIdx_of_gt (Nat.lt_succ_self k), Nat.succ_sub_one]
    have hordered := pairwise_insertIdx (h.take (i := n-1)) hkept a
    rw [insertCapped_eq a hlt hk]
    constructor
    · intro hresult
      obtain ⟨hleft,hright⟩ := hordered.mp hresult
      right
      constructor
      · exact fun x hpos hx => hleft x hpos ((hbefore x hpos).mp hx)
      · exact fun y hy => hright y (hafter ▸ hy)
    · rintro (hsame | ⟨hleft,hright⟩)
      · rw [hsame]
        exact h
      · apply hordered.mpr
        constructor
        · exact fun x hpos hx => hleft x hpos ((hbefore x hpos).mpr hx)
        · exact fun y hy => hright y (hafter ▸ hy)
  · have hsame : insertCapped n k a l = l := by
      rw [insertCapped_beyond a l hge, List.take_of_length_le hl]
    rw [hsame]
    exact iff_of_true h (Or.inl rfl)

end Sequences
