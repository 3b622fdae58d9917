import Mathlib.Data.List.InsertIdx
import Mathlib.Data.Int.Basic

/-!
# Programs that work on one vector

A program asks for the length of a vector, reads an element, and inserts and
erases at positions it has computed. A position is an offset from the beginning
of the vector and need not lie in it. The module says what a program does to
the vector and which uses it makes of it on the way, and gives the rule by
which both are shown: what each use asks of the vector at its moment, and what
has to hold at the end.
-/

set_option autoImplicit false

namespace Vectors

variable {α : Type*}

/-- A use of a vector at some positions. `erase` takes a range without its end. -/
inductive Use (α : Type*) where
  | element (i : ℤ)
  | write (i : ℤ) (x : α)
  | insert (i : ℤ) (x : α)
  | erase (first last : ℤ)
  | clear

namespace Use

def Within (length : ℕ) : Use α → Prop
  | element i => 0 ≤ i ∧ i < length
  | write i _ => 0 ≤ i ∧ i < length
  | insert i _ => 0 ≤ i ∧ i ≤ length
  | erase first last => 0 ≤ first ∧ first ≤ last ∧ last ≤ length
  | clear => True

def apply (v : List α) : Use α → List α
  | element _ => v
  | write i x => v.set i.toNat x
  | insert i x => v.insertIdx i.toNat x
  | erase first last => v.take first.toNat++v.drop last.toNat
  | clear => []

/-- The overload of `erase` for one element. -/
def eraseOne (i : ℤ) : Use α := erase i (i+1)

theorem eraseOne_within {i : ℤ} {length : ℕ} (hlow : 0 ≤ i) (hhigh : i < length) :
    (eraseOne i : Use α).Within length := by
  unfold eraseOne Within
  omega

theorem eraseOne_apply {i : ℤ} (hi : 0 ≤ i) (v : List α) :
    (eraseOne i).apply v = v.eraseIdx i.toNat := by
  rw [eraseOne, apply, Int.toNat_add hi (by decide)]
  exact (List.eraseIdx_eq_take_drop_succ _ _).symm

end Use

/-- What comes after a question may depend on the answer. -/
inductive Program (α : Type*) where
  | done
  | size (next : ℕ → Program α)
  | read (i : ℤ) (next : α → Program α)
  | use (u : Use α) (next : Program α)

structure Moment (α : Type*) where
  before : List α
  use : Use α

namespace Moment

def after (m : Moment α) : List α := m.use.apply m.before

def Within (m : Moment α) : Prop := m.use.Within m.before.length

end Moment

namespace Program

/-- The vector at the end. A program that reads outside the vector stops. -/
def run : Program α → List α → List α
  | done, v => v
  | size next, v => (next v.length).run v
  | read i next, v =>
    match v[i.toNat]? with
    | some x => (next x).run v
    | none => v
  | use u next, v => next.run (u.apply v)

def moments : Program α → List α → List (Moment α)
  | done, _ => []
  | size next, v => (next v.length).moments v
  | read i next, v => ⟨v,.element i⟩::
    match v[i.toNat]? with
    | some x => (next x).moments v
    | none => []
  | use u next, v => ⟨v,u⟩::next.moments (u.apply v)

def Checked (n : ℕ) (Q : List α → Prop) : Program α → List α → Prop
  | done, v => Q v
  | size next, v => (next v.length).Checked n Q v
  | read i next, v =>
    (Use.element i : Use α).Within v.length ∧
      ∀ x, v[i.toNat]? = some x → (next x).Checked n Q v
  | use u next, v =>
    u.Within v.length ∧ (u.apply v).length ≤ n ∧ next.Checked n Q (u.apply v)

variable {n : ℕ} {Q : List α → Prop}

theorem checked_ite {c : Prop} [Decidable c] {p q : Program α} {v : List α}
    (hp : c → p.Checked n Q v) (hq : ¬c → q.Checked n Q v) :
    (if c then p else q).Checked n Q v := by
  by_cases hc : c
  · rw [if_pos hc]
    exact hp hc
  · rw [if_neg hc]
    exact hq hc

theorem checked_moments {p : Program α} {v : List α} (hv : v.length ≤ n) (h : p.Checked n Q v) :
    ∀ m ∈ p.moments v, m.Within ∧ m.before.length ≤ n ∧ m.after.length ≤ n := by
  induction p generalizing v with
  | done => simp [moments]
  | size next ih => exact ih v.length hv h
  | read i next ih =>
    intro m hm
    rw [moments, List.mem_cons] at hm
    rcases hm with rfl | hm
    · exact ⟨h.1,hv,hv⟩
    · cases hx : v[i.toNat]? with
      | none =>
        rw [hx] at hm
        exact absurd hm List.not_mem_nil
      | some x =>
        rw [hx] at hm
        exact ih x hv (h.2 x hx) m hm
  | use u next ih =>
    obtain ⟨hwithin,hlength,hnext⟩ := h
    intro m hm
    rw [moments, List.mem_cons] at hm
    rcases hm with rfl | hm
    · exact ⟨hwithin,hv,hlength⟩
    · exact ih hlength hnext m hm

theorem checked_run {p : Program α} {v : List α} (h : p.Checked n Q v) : Q (p.run v) := by
  induction p generalizing v with
  | done => exact h
  | size next ih => exact ih v.length h
  | read i next ih =>
    obtain ⟨⟨hlow,hhigh⟩,hnext⟩ := h
    have hi : i.toNat < v.length := by omega
    have hx : v[i.toNat]? = some v[i.toNat] := List.getElem?_eq_getElem hi
    rw [run, hx]
    exact ih _ (hnext _ hx)
  | use u next ih => exact ih h.2.2

end Program

end Vectors
