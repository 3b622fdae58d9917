import CmeFeed.Reactive.Run

/-!
# Banks of registers

Each step of a machine makes a list of writes to named registers. After a run
a register holds the value of the last write to its name, or what it held
before. A log of writes can be cut at any position of a numbered history.
-/

set_option autoImplicit false

namespace Reactive

variable {K V S I O E : Type*} [DecidableEq K]

def written (k : K) (ws : List (K × V)) : Option V :=
  (ws.filterMap fun w => if w.1 = k then some w.2 else none).getLast?

@[simp] theorem written_nil (k : K) : written k ([] : List (K × V)) = none := rfl

theorem written_append (k : K) (a b : List (K × V)) :
    written k (a++b) = (written k b).or (written k a) := by
  rw [written, List.filterMap_append, List.getLast?_append]
  rfl

theorem written_getD (k : K) (a b : List (K × V)) (v : V) :
    (written k (a++b)).getD v = (written k b).getD ((written k a).getD v) := by
  rw [written_append]
  cases written k b <;> rfl

theorem run_written (step : S → I → S × List O) (writes : S → I → List (K × V))
    (view : S → K → V)
    (hstep : ∀ s i k, view (step s i).1 k = (written k (writes s i)).getD (view s k))
    (s : S) (is : List I) (k : K) :
    view (run step s is).1 k = (written k (observe step writes s is)).getD (view s k) := by
  induction is generalizing s with
  | nil => rfl
  | cons i is ih => rw [run_cons, ih, hstep, observe, written_getD]

theorem foldl_written (step : S → I → S) (writes : I → List (K × V)) (view : S → K → V)
    (hstep : ∀ s i k, view (step s i) k = (written k (writes i)).getD (view s k))
    (s : S) (is : List I) (k : K) :
    view (is.foldl step s) k = (written k (is.flatMap writes)).getD (view s k) := by
  induction is generalizing s with
  | nil => rfl
  | cons i is ih => rw [List.foldl_cons, ih, hstep, List.flatMap_cons, written_getD]

variable (writes : E → List (K × V)) (hist : ℕ → E)

def logged : ℕ → List (K × V)
  | 0 => []
  | n+1 => logged n ++ writes (hist (n+1))

theorem written_logged_none {k : K} {n m : ℕ} (hnm : n ≤ m)
    (h : written k (logged writes hist m) = none) : written k (logged writes hist n) = none := by
  induction m with
  | zero =>
    rw [Nat.le_zero.mp hnm]
    rfl
  | succ m ih =>
    rcases Nat.le_succ_iff.mp hnm with hle | rfl
    · rw [logged, written_append, Option.or_eq_none_iff] at h
      exact ih hle h.2
    · exact h

end Reactive
