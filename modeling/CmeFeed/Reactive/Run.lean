import Mathlib.Data.List.Basic
import Mathlib.Data.List.Flatten
import Mathlib.Data.List.Induction

/-!
# Runs of deterministic reactive machines

A machine reads one input at a time, moves to a next state and emits a finite
list of outputs. The module fixes what a run is and gives the rules by which a
property of single steps becomes a property of runs: invariants, properties of
what is observed along a run, execution of the outputs by an environment, and
two machines that move in lockstep.
-/

set_option autoImplicit false

namespace Reactive

variable {S T I J O A E : Type*}

def run (step : S → I → S × List O) : S → List I → S × List O
  | s, [] => (s,[])
  | s, i::is =>
    ((run step (step s i).1 is).1, (step s i).2 ++ (run step (step s i).1 is).2)

/-- What `obs` sees along a run, in order; it looks at the state in which each
input arrives. -/
def observe (step : S → I → S × List O) (obs : S → I → List A) : S → List I → List A
  | _, [] => []
  | s, i::is => obs s i ++ observe step obs (step s i).1 is

variable (step : S → I → S × List O)

@[simp] theorem run_nil (s : S) : run step s [] = (s,[]) := rfl

@[simp] theorem run_singleton (s : S) (i : I) : run step s [i] = step s i := by
  simp [run]

theorem run_cons (s : S) (i : I) (is : List I) :
    run step s (i::is) =
      ((run step (step s i).1 is).1, (step s i).2 ++ (run step (step s i).1 is).2) := rfl

theorem run_append (s : S) (is js : List I) :
    run step s (is++js) = ((run step (run step s is).1 js).1,
      (run step s is).2 ++ (run step (run step s is).1 js).2) := by
  induction is generalizing s with
  | nil => rfl
  | cons i is ih => simp [run, ih, List.append_assoc]

theorem run_append_state (s : S) (is js : List I) :
    (run step s (is++js)).1 = (run step (run step s is).1 js).1 := by
  rw [run_append]

theorem forall_prefix_nil (P : List I → Prop) :
    (∀ pre post, [] = pre++post → P pre) ↔ P [] := by
  constructor
  · exact fun hall => hall [] [] rfl
  · intro hnil pre post he
    rw [(List.append_eq_nil_iff.mp he.symm).1]
    exact hnil

theorem forall_prefix_cons (P : List I → Prop) (i : I) (is : List I) :
    (∀ pre post, i::is = pre++post → P pre) ↔
      P [] ∧ ∀ pre post, is = pre++post → P (i::pre) := by
  constructor
  · intro hall
    exact ⟨hall [] _ rfl,fun pre post he => hall (i::pre) post (by rw [he]; rfl)⟩
  · rintro ⟨hnil,hcons⟩ pre post he
    cases pre with
    | nil => exact hnil
    | cons j pre =>
      obtain ⟨rfl,rfl⟩ := List.cons.inj he
      exact hcons pre post rfl

theorem forall_split_cons (P : List I → I → Prop) (i : I) (is : List I) :
    (∀ pre j post, i::is = pre++j::post → P pre j) ↔
      P [] i ∧ ∀ pre j post, is = pre++j::post → P (i::pre) j := by
  constructor
  · intro hall
    exact ⟨hall [] i is rfl,fun pre j post he => hall (i::pre) j post (by rw [he]; rfl)⟩
  · rintro ⟨hnil,hcons⟩ pre j post he
    cases pre with
    | nil =>
      obtain ⟨rfl,rfl⟩ := List.cons.inj he
      exact hnil
    | cons k pre =>
      obtain ⟨rfl,rfl⟩ := List.cons.inj he
      exact hcons pre j post rfl

theorem run_invariant (Inv : S → Prop) (Ok : I → Prop)
    (hstep : ∀ s i, Ok i → Inv s → Inv (step s i).1)
    (s : S) (is : List I) (hok : ∀ i ∈ is, Ok i) (hs : Inv s) : Inv (run step s is).1 := by
  induction is generalizing s with
  | nil => exact hs
  | cons i is ih =>
    exact ih (step s i).1 (fun j hj => hok j (by simp [hj])) (hstep s i (hok i (by simp)) hs)

/-- Invariants whose preservation rests on a condition that holds wherever the
run looks: `cond` lists what each step has to satisfy. -/
theorem observe_invariant (cond : S → I → List A) (Good : A → Prop) (obs : S → I → List E)
    (Inv : S → Prop) (Q : E → Prop)
    (hstep : ∀ s i, Inv s → (∀ a ∈ cond s i, Good a) → Inv (step s i).1)
    (hobs : ∀ s i, Inv s → (∀ a ∈ cond s i, Good a) → ∀ e ∈ obs s i, Q e)
    (s : S) (is : List I) (hs : Inv s) (hgood : ∀ a ∈ observe step cond s is, Good a) :
    Inv (run step s is).1 ∧ ∀ e ∈ observe step obs s is, Q e := by
  induction is generalizing s with
  | nil => exact ⟨hs, by simp [observe]⟩
  | cons i is ih =>
    have hhead : ∀ a ∈ cond s i, Good a := fun a ha => hgood a (by simp [observe, ha])
    have htail : ∀ a ∈ observe step cond (step s i).1 is, Good a :=
      fun a ha => hgood a (by simp [observe, ha])
    obtain ⟨hend,hseen⟩ := ih (step s i).1 (hstep s i hs hhead) htail
    constructor
    · exact hend
    · intro e he
      rcases List.mem_append.mp he with he | he
      · exact hobs s i hs hhead e he
      · exact hseen e he

/-- Where a property that fails at first holds after a run: the last input that
brought it about. -/
theorem run_last (P : S → Prop) (s : S) (is : List I) (hs : ¬P s) (h : P (run step s is).1) :
    ∃ pre i post, is = pre++i::post ∧ ¬P (run step s pre).1 ∧
      ∀ mid, mid <+: post → P (run step s (pre++i::mid)).1 := by
  induction is using List.reverseRecOn with
  | nil => exact absurd h hs
  | append_singleton is i ih =>
    by_cases hbefore : P (run step s is).1
    · obtain ⟨pre,j,post,rfl,hpre,hmid⟩ := ih hbefore
      refine ⟨pre,j,post++[i],by simp,hpre,?_⟩
      intro mid hm
      rcases List.prefix_concat_iff.mp hm with rfl | hm
      · simpa using h
      · exact hmid mid hm
    · refine ⟨is,i,[],rfl,hbefore,?_⟩
      intro mid hm
      rw [List.prefix_nil.mp hm]
      exact h

/-- A view of the state on which only what is observed acts can be computed
from the observations alone. -/
theorem run_view {V : Type*} (view : S → V) (act : V → A → V) (obs : S → I → List A)
    (Inv : S → Prop) (Ok : I → Prop) (hinv : ∀ s i, Ok i → Inv s → Inv (step s i).1)
    (hview : ∀ s i, Ok i → Inv s → view (step s i).1 = (obs s i).foldl act (view s))
    (s : S) (is : List I) (hok : ∀ i ∈ is, Ok i) (hs : Inv s) :
    view (run step s is).1 = (observe step obs s is).foldl act (view s) := by
  induction is generalizing s with
  | nil => rfl
  | cons i is ih =>
    have hi : Ok i := hok i (by simp)
    rw [run_cons, observe, List.foldl_append, ← hview s i hi hs]
    exact ih (step s i).1 (fun j hj => hok j (by simp [hj])) (hinv s i hi hs)

/-- A property of the state and of all outputs so far that each step
re-establishes exactly under a condition holds all along a run exactly if the
condition holds at every step. `Inv` may look at the inputs still to come. -/
theorem run_always_iff (Inv : S → List I → Prop) (Holds : S → List O → Prop)
    (cond : S → I → Prop)
    (hinv : ∀ s i is, Inv s (i::is) → Inv (step s i).1 is)
    (hstep : ∀ s i is sent, Inv s (i::is) → Holds s sent →
      (Holds (step s i).1 (sent++(step s i).2) ↔ cond s i))
    (s : S) (is : List I) (sent : List O) (hI : Inv s is) (h : Holds s sent) :
    (∀ pre post, is = pre++post → Holds (run step s pre).1 (sent++(run step s pre).2)) ↔
      ∀ pre i post, is = pre++i::post → cond (run step s pre).1 i := by
  induction is generalizing s sent with
  | nil =>
    rw [forall_prefix_nil, run_nil, List.append_nil]
    exact iff_of_true h (by simp)
  | cons i is ih =>
    have hhead := hstep s i is sent hI h
    have htail := ih (step s i).1 (sent++(step s i).2) (hinv s i is hI)
    rw [forall_prefix_cons, forall_split_cons]
    simp only [run_nil, run_cons, List.append_nil, ← List.append_assoc]
    constructor
    · rintro ⟨-,hall⟩
      have hnext : Holds (step s i).1 (sent++(step s i).2) := by
        simpa using hall [] is rfl
      exact ⟨hhead.mp hnext,(htail hnext).mp hall⟩
    · rintro ⟨hfirst,hall⟩
      exact ⟨h,(htail (hhead.mpr hfirst)).mpr hall⟩

/-- The environment executes the outputs of every step in order. If one step
and the execution of its outputs keep a relation, so does a whole run. -/
theorem run_executed (exec : T → O → T) (R : S → T → Prop) (Ok : I → Prop)
    (hstep : ∀ s t i, Ok i → R s t → R (step s i).1 ((step s i).2.foldl exec t))
    (s : S) (t : T) (is : List I) (hok : ∀ i ∈ is, Ok i) (h : R s t) :
    R (run step s is).1 ((run step s is).2.foldl exec t) := by
  induction is generalizing s t with
  | nil => exact h
  | cons i is ih =>
    rw [run_cons, List.foldl_append]
    exact ih _ _ (fun j hj => hok j (by simp [hj])) (hstep s t i (hok i (by simp)) h)

theorem run_outputs_from {B : Type*} (seen : List O → List B) (source : A → List B)
    (obs : S → I → List A) (hnil : seen [] = [])
    (happend : ∀ a b, seen (a++b) = seen a ++ seen b)
    (hstep : ∀ s i, seen (step s i).2 = (obs s i).flatMap source) (s : S) (is : List I) :
    seen (run step s is).2 = (observe step obs s is).flatMap source := by
  induction is generalizing s with
  | nil => exact hnil
  | cons i is ih => rw [run_cons, happend, observe, List.flatMap_append, hstep, ih]

/-- Two machines in lockstep on the same inputs: states that are related stay
related, and what is observed of them agrees. -/
theorem observe_lockstep (other : T → I → T × List J) (obs : S → I → List A)
    (seen : T → I → List A) (R : S → T → Prop)
    (hstep : ∀ s t i, R s t → R (step s i).1 (other t i).1)
    (hobs : ∀ s t i, R s t → obs s i = seen t i) (s : S) (t : T) (is : List I) (h : R s t) :
    observe step obs s is = observe other seen t is := by
  induction is generalizing s t with
  | nil => rfl
  | cons i is ih => rw [observe, observe, hobs s t i h, ih _ _ (hstep s t i h)]

/-- A run over all inputs and one over those that are kept agree all along
exactly if every input that is not kept is harmless where it arrives. `R`
relates states that no step tells apart. -/
theorem run_filter_iff (keep : I → Bool) (R : S → S → Prop) (Harmless : S → I → Prop)
    (hkeep : ∀ s t i, R s t → R (step s i).1 (step t i).1 ∧ (step s i).2 = (step t i).2)
    (hdrop : ∀ s t i, R s t → (R (step s i).1 t ∧ (step s i).2 = [] ↔ Harmless s i))
    (s t : S) (is : List I) (h : R s t) :
    (∀ pre post, is = pre++post → R (run step s pre).1 (run step t (pre.filter keep)).1 ∧
      (run step s pre).2 = (run step t (pre.filter keep)).2) ↔
      ∀ pre i post, is = pre++i::post → keep i = false → Harmless (run step s pre).1 i := by
  induction is generalizing s t with
  | nil =>
    rw [forall_prefix_nil]
    exact iff_of_true ⟨h,rfl⟩ (by simp)
  | cons i is ih =>
    rw [forall_prefix_cons, forall_split_cons]
    cases hi : keep i with
    | true =>
      obtain ⟨hnext,houtputs⟩ := hkeep s t i h
      have hrest := ih (step s i).1 (step t i).1 hnext
      simp only [run_cons, List.filter_cons_of_pos hi, houtputs, List.append_cancel_left_eq]
      rw [hrest]
      exact ⟨fun hall => ⟨nofun,hall.2⟩,fun hall => ⟨⟨h,rfl⟩,hall.2⟩⟩
    | false =>
      have hdropped := hdrop s t i h
      have hskip : ¬keep i = true := by simp [hi]
      simp only [run_cons, List.filter_cons_of_neg hskip]
      constructor
      · rintro ⟨-,hall⟩
        have hnext : R (step s i).1 t ∧ (step s i).2 = [] := by
          simpa using hall [] is rfl
        simp only [hnext.2, List.nil_append] at hall
        exact ⟨fun _ => hdropped.mp hnext,(ih (step s i).1 t hnext.1).mp hall⟩
      · rintro ⟨hfirst,hall⟩
        obtain ⟨hnext,hsilent⟩ := hdropped.mpr (hfirst trivial)
        simp only [hsilent, List.nil_append]
        exact ⟨⟨h,rfl⟩,(ih (step s i).1 t hnext).mpr hall⟩

theorem run_unnoticed (g : S → S) (h : ∀ s i, step (g s) i = (g (step s i).1,(step s i).2))
    (s : S) (is : List I) : run step (g s) is = (g (run step s is).1,(run step s is).2) := by
  induction is generalizing s with
  | nil => rfl
  | cons i is ih => rw [run_cons, run_cons, h, ih]

theorem run_related (R : I → I → Prop) (h : ∀ s i j, R i j → step s i = step s j) (s : S)
    {is js : List I} (his : List.Forall₂ R is js) : run step s is = run step s js := by
  induction his generalizing s with
  | nil => rfl
  | cons hij _ ih => rw [run_cons, run_cons, h s _ _ hij, ih]

theorem run_map {B : Type*} (g : B → I) (s : S) (bs : List B) :
    run (fun s b => step s (g b)) s bs = run step s (bs.map g) := by
  induction bs generalizing s with
  | nil => rfl
  | cons b bs ih => rw [run_cons, ih, List.map_cons, run_cons]

theorem observe_append (obs : S → I → List A) (s : S) (is js : List I) :
    observe step obs s (is++js) =
      observe step obs s is ++ observe step obs (run step s is).1 js := by
  induction is generalizing s with
  | nil => rfl
  | cons i is ih => rw [List.cons_append, observe, observe, ih, List.append_assoc, run_cons]

theorem run_outputs (P : O → Prop) (hstep : ∀ s i, ∀ o ∈ (step s i).2, P o)
    (s : S) (is : List I) : ∀ o ∈ (run step s is).2, P o := by
  induction is generalizing s with
  | nil => simp
  | cons i is ih =>
    intro o ho
    rcases List.mem_append.mp ho with ho | ho
    · exact hstep s i o ho
    · exact ih _ o ho

theorem run_observe (obs : S → I → List A) (s : S) (is : List I) :
    run (fun s i => ((step s i).1,obs s i)) s is =
      ((run step s is).1,observe step obs s is) := by
  induction is generalizing s with
  | nil => rfl
  | cons i is ih => simp only [run_cons, observe, ih]

theorem observe_inputs (g : I → List A) (s : S) (is : List I) :
    observe step (fun _ i => g i) s is = is.flatMap g := by
  induction is generalizing s with
  | nil => rfl
  | cons i is ih => rw [observe, ih, List.flatMap_cons]

end Reactive
