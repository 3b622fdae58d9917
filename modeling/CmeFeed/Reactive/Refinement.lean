import CmeFeed.Reactive.Run

/-!
# A machine that runs another

Every step of one machine makes a run of another, on inputs of its own choice.
Then so does every run, on all those inputs in their order.
-/

set_option autoImplicit false

namespace Reactive

variable {S T I J O A : Type*}

/-- On related states a step calls the other machine with `calls`, emits what is
`shown` of the outputs of these calls, and ends in related states. -/
structure Refines (R : T → S → Prop) (calls : S → I → List A) (shown : List J → List O)
    (other : T → A → T × List J) (step : S → I → S × List O) : Prop where
  states : ∀ t s i, R t s → R (run other t (calls s i)).1 (step s i).1
  outputs : ∀ t s i, R t s → (step s i).2 = shown (run other t (calls s i)).2
  shown_nil : shown [] = []
  shown_append : ∀ a b, shown (a++b) = shown a ++ shown b

variable {R : T → S → Prop} {calls : S → I → List A} {shown : List J → List O}
  {other : T → A → T × List J} {step : S → I → S × List O}

theorem Refines.run (h : Refines R calls shown other step) {t : T} {s : S} (hR : R t s)
    (is : List I) :
    R (Reactive.run other t (observe step calls s is)).1 (Reactive.run step s is).1 ∧
      (Reactive.run step s is).2 =
        shown (Reactive.run other t (observe step calls s is)).2 := by
  induction is generalizing t s with
  | nil => exact ⟨hR,h.shown_nil.symm⟩
  | cons i is ih =>
    obtain ⟨hstates,houtputs⟩ := ih (h.states t s i hR)
    rw [observe, run_append, run_cons]
    refine ⟨hstates,?_⟩
    rw [h.shown_append, ← h.outputs t s i hR, ← houtputs]

/-- Beside a machine another one reads what is observed of its steps, and only
what this one emits is emitted. -/
def piped (step : S → I → S × List O) (obs : S → I → List A) (other : T → A → T × List J)
    (p : S × T) (i : I) : (S × T) × List J :=
  let r := Reactive.run other p.2 (obs p.1 i)
  (((step p.1 i).1,r.1),r.2)

theorem run_piped (step : S → I → S × List O) (obs : S → I → List A)
    (other : T → A → T × List J) (s : S) (t : T) (is : List I) :
    Reactive.run (piped step obs other) (s,t) is =
      (((Reactive.run step s is).1,(Reactive.run other t (observe step obs s is)).1),
        (Reactive.run other t (observe step obs s is)).2) := by
  induction is generalizing s t with
  | nil => rfl
  | cons i is ih =>
    rw [run_cons, observe, run_append, run_cons]
    unfold piped at ih ⊢
    rw [ih]

end Reactive
