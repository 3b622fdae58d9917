import CmeFeed.Reactive.Records

/-!
# Copies of a numbered sequence

A reader that takes the elements of a sequence by number, each exactly when it
expects it, meets no number ahead of it if what arrives is gapless. Sequences
numbered on from the reader are gapless, and interleavings of gapless
sequences are, so any number of copies may arrive over any number of lines.
-/

set_option autoImplicit false

namespace Reactive

variable {I : Type*}

/-- Any number of copies of a sequence, at least one, shuffled together. -/
inductive Copies (s : List I) : List I → Prop
  | one : Copies s s
  | more {l l' : List I} (h : Copies s l) (hl : Interleaving s l l') : Copies s l'

theorem Interleaving.mem_iff {a b l : List I} (h : Interleaving a b l) (i : I) :
    i ∈ l ↔ i ∈ a ∨ i ∈ b := by
  induction h with
  | nil => simp
  | left _ ih => simp [ih, or_assoc]
  | right _ ih => simp [ih, or_left_comm]

theorem Copies.mem_iff {s l : List I} (h : Copies s l) (i : I) : i ∈ l ↔ i ∈ s := by
  induction h with
  | one => exact Iff.rfl
  | more _ hl ih => rw [hl.mem_iff, ih, or_self]

variable {key : I → ℕ}

/-- No element is numbered above what a reader expects who expects `e` first
and takes what it expects. -/
def Gapless (key : I → ℕ) : ℕ → List I → Prop
  | _, [] => True
  | e, i::is => key i ≤ e ∧ Gapless key (max e (key i+1)) is

theorem Gapless.mono {l : List I} {e e' : ℕ} (h : Gapless key e l) (he : e ≤ e') :
    Gapless key e' l := by
  induction l generalizing e e' with
  | nil => trivial
  | cons i is ih =>
    obtain ⟨hi,his⟩ := h
    exact ⟨by omega,ih his (by omega)⟩

theorem Gapless.interleaving {a b l : List I} (h : Interleaving a b l) {e : ℕ}
    (ha : Gapless key e a) (hb : Gapless key e b) : Gapless key e l := by
  induction h generalizing e with
  | nil => trivial
  | left _ ih => exact ⟨ha.1,ih ha.2 (hb.mono (by omega))⟩
  | right _ ih => exact ⟨hb.1,ih (ha.mono (by omega)) hb.2⟩

theorem gapless_numbered {l : List I} {e : ℕ} (h : l.map key = List.range' e l.length) :
    Gapless key e l := by
  induction l generalizing e with
  | nil => trivial
  | cons i is ih =>
    rw [List.map_cons, List.length_cons, List.range'_succ] at h
    obtain ⟨hi,his⟩ := List.cons.inj h
    have hnext : max e (key i+1) = e+1 := by omega
    exact ⟨by omega,hnext ▸ ih his⟩

theorem Copies.gapless {s l : List I} (h : Copies s l) {e : ℕ} (hs : Gapless key e s) :
    Gapless key e l := by
  induction h with
  | one => exact hs
  | more _ hl ih => exact hs.interleaving hl ih

end Reactive
