import Mathlib.Data.Nat.Notation
import Mathlib.Order.Basic

/-!
# Following a numbered log

A replica of a log of numbered entries either applies the entry after its
position, or installs a state that some other party reached at a later
position. It stays exact: its state is that of replaying the log up to its
position, and the position never goes back.
-/

set_option autoImplicit false

namespace Reactive

variable {S E : Type*}

def replay (apply : S → E → S) (start : S) (log : ℕ → E) : ℕ → S
  | 0 => start
  | k+1 => apply (replay apply start log k) (log (k+1))

structure Replica (S : Type*) where
  position : ℕ
  state : S

variable (apply : S → E → S) (start : S) (log : ℕ → E)

/-- The moves of a replica that loses, repeats and reorders what it is sent. -/
inductive Replica.Step : Replica S → Replica S → Prop
  | stay (r : Replica S) : Step r r
  | next (r : Replica S) : Step r ⟨r.position+1,apply r.state (log (r.position+1))⟩
  | install (r : Replica S) (k : ℕ) (h : r.position ≤ k) :
      Step r ⟨k,replay apply start log k⟩

def Replica.Exact (r : Replica S) : Prop := r.state = replay apply start log r.position

variable {apply start log}

theorem Replica.Step.exact {r r' : Replica S} (h : Replica.Step apply start log r r')
    (hr : r.Exact apply start log) : r'.Exact apply start log := by
  cases h with
  | stay => exact hr
  | next => exact congrArg (fun s => apply s (log (r.position+1))) hr
  | install k _ => rfl

theorem Replica.Step.mono {r r' : Replica S} (h : Replica.Step apply start log r r') :
    r.position ≤ r'.position := by
  cases h with
  | stay => exact Nat.le_refl _
  | next => exact Nat.le_succ _
  | install k hk => exact hk

theorem replay_view {V : Type*} (view : S → V) (act : V → E → V)
    (h : ∀ s e, view (apply s e) = act (view s) e) (k : ℕ) :
    view (replay apply start log k) = replay act (view start) log k := by
  induction k with
  | zero => rfl
  | succ k ih => rw [replay, replay, h, ih]

end Reactive
