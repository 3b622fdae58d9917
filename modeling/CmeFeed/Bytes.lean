import Mathlib.Data.Nat.Digits.Defs

/-!
# Bytes in memory and little-endian numbers

A memory holds a byte at every address. Numbers are laid out with their low
bytes first; what a window of the memory spells is determined by the bytes in
it, and a layout that is written from some address on can be read piece by
piece.
-/

set_option autoImplicit false

namespace Bytes

abbrev Memory := ℕ → UInt8

def encode : ℕ → ℕ → List UInt8
  | 0, _ => []
  | width+1, n => UInt8.ofNat n::encode width (n/256)

def decode (bytes : List UInt8) : ℕ := Nat.ofDigits 256 (bytes.map UInt8.toNat)

@[simp] theorem encode_length (width n : ℕ) : (encode width n).length = width := by
  induction width generalizing n with
  | zero => rfl
  | succ width ih => simp [encode, ih]

@[simp] theorem decode_encode {width n : ℕ} (h : n < 256^width) :
    decode (encode width n) = n := by
  induction width generalizing n with
  | zero =>
    have hzero : n = 0 := by simpa using h
    subst hzero
    rfl
  | succ width ih =>
    have hlow : (UInt8.ofNat n).toNat = n%256 := rfl
    have hhigh : n/256 < 256^width := by
      rw [Nat.pow_succ] at h
      exact Nat.div_lt_of_lt_mul (by omega)
    have hrest := ih hhigh
    unfold decode at hrest ⊢
    rw [encode, List.map_cons, Nat.ofDigits_cons, hrest, hlow]
    omega

def window (memory : Memory) : ℕ → ℕ → List UInt8
  | _, 0 => []
  | address, length+1 => memory address::window memory (address+1) length

@[simp] theorem window_length (memory : Memory) (address length : ℕ) :
    (window memory address length).length = length := by
  induction length generalizing address with
  | zero => rfl
  | succ length ih => simp [window, ih]

theorem window_append (memory : Memory) (address m n : ℕ) :
    window memory address (m+n) = window memory address m++window memory (address+m) n := by
  induction m generalizing address with
  | zero => simp [window]
  | succ m ih =>
    rw [show m+1+n = m+n+1 by omega, window, window, ih, List.cons_append,
      show address+1+m = address+(m+1) by omega]

theorem window_congr {memory memory' : Memory} {address length : ℕ}
    (h : ∀ i, address ≤ i → i < address+length → memory i = memory' i) :
    window memory address length = window memory' address length := by
  induction length generalizing address with
  | zero => rfl
  | succ length ih =>
    rw [window, window, h address (by omega) (by omega),
      ih fun i hi hi' => h i (by omega) (by omega)]

def Holds (memory : Memory) (address : ℕ) (bytes : List UInt8) : Prop :=
  window memory address bytes.length = bytes

instance (memory : Memory) (address : ℕ) (bytes : List UInt8) :
    Decidable (Holds memory address bytes) := inferInstanceAs (Decidable (_ = _))

theorem holds_append {memory : Memory} {address : ℕ} {a b : List UInt8} :
    Holds memory address (a++b) ↔ Holds memory address a ∧ Holds memory (address+a.length) b := by
  unfold Holds
  rw [List.length_append, window_append]
  constructor
  · exact fun h => List.append_inj h (window_length _ _ _)
  · rintro ⟨ha,hb⟩
    rw [ha, hb]

def written (bytes : List UInt8) (memory : Memory) : Memory := fun i => bytes.getD i (memory i)

theorem holds_written (bytes : List UInt8) (memory : Memory) :
    Holds (written bytes memory) 0 bytes := by
  have hwindow : ∀ (rest done : List UInt8), done++rest = bytes →
      window (written bytes memory) done.length rest.length = rest := by
    intro rest
    induction rest with
    | nil => exact fun _ _ => rfl
    | cons b rest ih =>
      intro done hdone
      have hbyte : written bytes memory done.length = b := by
        rw [written, ← hdone]
        simp
      have hrest := ih (done++[b]) (by rw [← hdone, List.append_assoc]; rfl)
      rw [List.length_append, List.length_singleton] at hrest
      rw [List.length_cons, window, hbyte, hrest]
  exact hwindow bytes [] rfl

theorem decode_window {memory : Memory} {address width n : ℕ} (hn : n < 256^width)
    (h : Holds memory address (encode width n)) : decode (window memory address width) = n := by
  rw [Holds, encode_length] at h
  rw [h, decode_encode hn]

end Bytes
