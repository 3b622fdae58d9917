import CmeFeed.Reactive.Run

/-!
# Loops that pull outputs out of a state

`while (has next) { handle (next) }` takes turns on a state until there is
nothing left or a turn fails. A turn yields one output, and a body may handle
it: the loop is then a run of the body over what the turns yield. The module
gives the rules for loops that end and for loops that never do.
-/

set_option autoImplicit false

namespace Reactive

variable {S T O A : Type*}

inductive Turn (S O : Type*) where
  | stop
  | next (s : S) (o : O)
  | fail

inductive Outcome (S : Type*) where
  | running (s : S)
  | stopped (s : S)
  | failed (s : S)

def loop (turn : S → Turn S O) : ℕ → S → List O × Outcome S
  | 0, s => ([],.running s)
  | n+1, s =>
    match turn s with
    | .stop => ([],.stopped s)
    | .next s' o => (o::(loop turn n s').1,(loop turn n s').2)
    | .fail => ([],.failed s)

def loopWith (turn : S → Turn S O) (body : T → O → T × List A) :
    ℕ → S → T → (T × List A) × Outcome S
  | 0, s, t => ((t,[]),.running s)
  | n+1, s, t =>
    match turn s with
    | .stop => ((t,[]),.stopped s)
    | .next s' o =>
      let r := loopWith turn body n s' (body t o).1
      ((r.1.1,(body t o).2++r.1.2),r.2)
    | .fail => ((t,[]),.failed s)

inductive Reaches (turn : S → Turn S O) (s : S) : S → Prop
  | refl : Reaches turn s s
  | next {a b : S} {o : O} (h : Reaches turn s a) (hnext : turn a = .next b o) : Reaches turn s b

def Ends (turn : S → Turn S O) (s : S) : Prop := ∃ n, ∀ s', (loop turn n s).2 ≠ .running s'

variable {turn : S → Turn S O}

theorem loop_stop {s : S} (h : turn s = .stop) (n : ℕ) : loop turn (n+1) s = ([],.stopped s) := by
  rw [loop, h]

theorem loop_next {s s' : S} {o : O} (h : turn s = .next s' o) (n : ℕ) :
    loop turn (n+1) s = (o::(loop turn n s').1,(loop turn n s').2) := by
  rw [loop, h]

theorem loop_fail {s : S} (h : turn s = .fail) (n : ℕ) : loop turn (n+1) s = ([],.failed s) := by
  rw [loop, h]

theorem loopWith_eq (body : T → O → T × List A) (n : ℕ) (s : S) (t : T) :
    loopWith turn body n s t = (run body t (loop turn n s).1,(loop turn n s).2) := by
  induction n generalizing s t with
  | zero => rfl
  | succ n ih =>
    rw [loopWith, loop]
    cases hturn : turn s with
    | stop => rfl
    | next s' o => simp only [ih, run_cons]
    | fail => rfl

theorem Reaches.head {s a b : S} {o : O} (hnext : turn s = .next a o) (h : Reaches turn a b) :
    Reaches turn s b := by
  induction h with
  | refl => exact .next .refl hnext
  | next _ hnext' ih => exact .next ih hnext'

theorem Reaches.stopped {s s' : S} (hstop : turn s = .stop) (h : Reaches turn s s') :
    s' = s := by
  induction h with
  | refl => rfl
  | next _ hnext ih =>
    rw [ih, hstop] at hnext
    exact absurd hnext nofun

/-- The induction rule for loop invariants. -/
theorem Reaches.invariant {Inv : S → Prop}
    (hstep : ∀ a b o, Inv a → turn a = .next b o → Inv b) {s s' : S} (h : Reaches turn s s')
    (hs : Inv s) : Inv s' := by
  induction h with
  | refl => exact hs
  | next _ hnext ih => exact hstep _ _ _ ih hnext

theorem loop_yields {n : ℕ} {s : S} {o : O} (h : o ∈ (loop turn n s).1) :
    ∃ a b, Reaches turn s a ∧ turn a = .next b o := by
  induction n generalizing s with
  | zero => exact absurd h List.not_mem_nil
  | succ n ih =>
    cases hturn : turn s with
    | stop =>
      rw [loop_stop hturn] at h
      exact absurd h List.not_mem_nil
    | next s' o' =>
      rw [loop_next hturn] at h
      rcases List.mem_cons.mp h with rfl | h
      · exact ⟨s,s',.refl,hturn⟩
      · obtain ⟨a,b,ha,hb⟩ := ih h
        exact ⟨a,b,.head hturn ha,hb⟩
    | fail =>
      rw [loop_fail hturn] at h
      exact absurd h List.not_mem_nil

theorem loop_reaches {n : ℕ} {s a : S} (h : (loop turn n s).2 = .stopped a) :
    Reaches turn s a ∧ turn a = .stop := by
  induction n generalizing s with
  | zero => exact absurd h nofun
  | succ n ih =>
    cases hturn : turn s with
    | stop =>
      rw [loop_stop hturn] at h
      rw [← Outcome.stopped.inj h]
      exact ⟨.refl,hturn⟩
    | next s' o =>
      rw [loop_next hturn] at h
      obtain ⟨hreaches,hstop⟩ := ih h
      exact ⟨.head hturn hreaches,hstop⟩
    | fail =>
      rw [loop_fail hturn] at h
      exact absurd h nofun

def Outcome.state : Outcome S → S
  | .running s => s
  | .stopped s => s
  | .failed s => s

theorem loop_keeps (Inv : S → Prop) (hstep : ∀ a b o, Inv a → turn a = .next b o → Inv b) (n : ℕ)
    {s : S} (hs : Inv s) : Inv (loop turn n s).2.state := by
  induction n generalizing s with
  | zero => exact hs
  | succ n ih =>
    cases hturn : turn s with
    | stop =>
      rw [loop_stop hturn]
      exact hs
    | next s' o =>
      rw [loop_next hturn]
      exact ih (hstep s s' o hs hturn)
    | fail =>
      rw [loop_fail hturn]
      exact hs

theorem reaches_loop {s a b : S} {o : O} (h : Reaches turn s a) (hnext : turn a = .next b o) :
    ∃ n, o ∈ (loop turn n s).1 := by
  suffices hmore : ∀ n, ∃ m, ∀ x ∈ (loop turn n a).1, x ∈ (loop turn m s).1 by
    obtain ⟨m,hm⟩ := hmore 1
    refine ⟨m,hm o ?_⟩
    rw [loop_next hnext]
    exact List.mem_cons_self
  clear hnext
  intro n
  induction h generalizing n with
  | refl => exact ⟨n,fun _ hx => hx⟩
  | @next c d o' _ hnext' ih =>
    obtain ⟨m,hm⟩ := ih (n+1)
    refine ⟨m,fun x hx => hm x ?_⟩
    rw [loop_next hnext']
    exact List.mem_cons_of_mem o' hx

/-- The rule for loops that end: a variant that every turn decreases. -/
theorem ends_of_variant (variant : S → ℕ) {s : S}
    (h : ∀ a b o, Reaches turn s a → turn a = .next b o → variant b < variant a) :
    Ends turn s := by
  suffices hfuel : ∀ n a, Reaches turn s a → variant a < n →
      ∀ s', (loop turn n a).2 ≠ .running s' from
    ⟨variant s+1,hfuel _ s .refl (Nat.lt_succ_self _)⟩
  intro n
  induction n with
  | zero => exact fun a _ hvariant => absurd hvariant (Nat.not_lt_zero _)
  | succ n ih =>
    intro a ha hvariant s'
    cases hturn : turn a with
    | stop =>
      rw [loop_stop hturn]
      nofun
    | next b o =>
      rw [loop_next hturn]
      have hless := h a b o ha hturn
      exact ih b (.next ha hturn) (by omega) s'
    | fail =>
      rw [loop_fail hturn]
      nofun

/-- The rule for loops that never end: some condition that every turn keeps
lets it go on. -/
theorem not_ends {s a : S} (Stuck : S → Prop)
    (h : ∀ a, Stuck a → ∃ b o, turn a = .next b o ∧ Stuck b) (hreaches : Reaches turn s a)
    (ha : Stuck a) : ¬Ends turn s := by
  have hforever : ∀ n a, Stuck a → ∃ s', (loop turn n a).2 = .running s' := by
    intro n
    induction n with
    | zero => exact fun a _ => ⟨a,rfl⟩
    | succ n ih =>
      intro a ha
      obtain ⟨b,o,hturn,hb⟩ := h a ha
      obtain ⟨s',hs'⟩ := ih b hb
      rw [loop_next hturn]
      exact ⟨s',hs'⟩
  have hends : ∀ c, Reaches turn s c → Ends turn s → Ends turn c := by
    intro c hc hs
    induction hc with
    | refl => exact hs
    | @next c d o _ hturn ih =>
      obtain ⟨n,hn⟩ := ih
      cases n with
      | zero => exact absurd rfl (hn c)
      | succ n =>
        rw [loop_next hturn] at hn
        exact ⟨n,hn⟩
  intro hs
  obtain ⟨n,hn⟩ := hends a hreaches hs
  obtain ⟨s',hs'⟩ := hforever n a ha
  exact hn s' hs'

end Reactive
