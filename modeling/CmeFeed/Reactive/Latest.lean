import Mathlib.Data.List.Induction

/-!
# The latest element of a kind

A log is read backwards to its latest element of a kind. A machine that keeps
such an element is described by how the answer changes when the log grows by
one, and by when two kinds have the same latest element. A register that some
of the inputs set holds the value of the latest of these.
-/

set_option autoImplicit false

namespace Reactive

variable {I V S : Type*}

theorem findRev?_concat (p : I → Bool) (l : List I) (i : I) :
    (l++[i]).findRev? p = if p i then some i else l.findRev? p := by
  rw [List.findRev?_eq_find?_reverse, List.findRev?_eq_find?_reverse, List.reverse_append]
  simp only [List.reverse_singleton, List.singleton_append, List.find?_cons]
  cases p i <;> rfl

theorem findRev?_narrower {p q : I → Bool} (hqp : ∀ i, q i = true → p i = true) {l : List I}
    {i : I} (h : l.findRev? p = some i) (hi : q i = true) : l.findRev? q = some i := by
  induction l using List.reverseRecOn with
  | nil => exact absurd h nofun
  | append_singleton l j ih =>
    rw [findRev?_concat] at h ⊢
    by_cases hj : p j = true
    · rw [if_pos hj] at h
      cases h
      exact if_pos hi
    · rw [if_neg hj] at h
      rw [if_neg fun hq => hj (hqp j hq)]
      exact ih h

theorem findRev?_wider {p q : I → Bool} (hqp : ∀ i, q i = true → p i = true) {l : List I}
    {i : I} (h : l.findRev? q = some i) : ∃ j, l.findRev? p = some j := by
  rw [List.findRev?_eq_find?_reverse] at h ⊢
  have hsome : (l.reverse.find? p).isSome = true :=
    List.find?_isSome.mpr ⟨i,List.mem_of_find?_eq_some h,hqp i (List.find?_some h)⟩
  exact Option.isSome_iff_exists.mp hsome

/-- What the latest of the inputs that set a register sets it to; before the
first of them the register holds what it did. -/
def register (f : I → Option V) (v : V) (l : List I) : V := (l.filterMap f).getLast?.getD v

theorem register_concat (f : I → Option V) (v : V) (l : List I) (i : I) :
    register f v (l++[i]) = (f i).getD (register f v l) := by
  rw [register, List.filterMap_append, List.getLast?_append]
  cases hf : f i with
  | none => simp [register, hf]
  | some w => simp [hf]

theorem foldl_register (step : S → I → S) (view : S → V) (f : I → Option V)
    (hstep : ∀ s i, view (step s i) = (f i).getD (view s)) (s : S) (l : List I) :
    view (l.foldl step s) = register f (view s) l := by
  induction l using List.reverseRecOn with
  | nil => rfl
  | append_singleton l i ih =>
    rw [List.foldl_append, List.foldl_cons, List.foldl_nil, hstep, ih, register_concat]

theorem foldlM_listed {A B : Type*} {step : S → A → Option S} {put : S → B → S}
    {lists : A → List B} (h : ∀ s a s', step s a = some s' → s' = (lists a).foldl put s)
    {s t : S} {as : List A} (hrun : as.foldlM step s = some t) :
    t = (as.flatMap lists).foldl put s := by
  induction as generalizing s with
  | nil => exact (Option.some.inj hrun).symm
  | cons a as ih =>
    rw [List.foldlM_cons] at hrun
    obtain ⟨s',hstep,hrest⟩ := Option.bind_eq_some_iff.mp hrun
    rw [List.flatMap_cons, List.foldl_append, ← h s a s' hstep]
    exact ih hrest

/-- Two registers hold the same all along exactly if every input does the same
to both where it arrives. -/
theorem registers_agree_iff (f g : I → Option V) (v : V) (l : List I) :
    (∀ pre post, l = pre++post → register f v pre = register g v pre) ↔
      ∀ pre i post, l = pre++i::post →
        (f i).getD (register g v pre) = (g i).getD (register g v pre) := by
  constructor
  · intro hagree pre i post hsplit
    have hbefore := hagree pre (i::post) hsplit
    have hafter := hagree (pre++[i]) post (by simp [hsplit])
    rwa [register_concat, register_concat, hbefore] at hafter
  · intro hsame pre post hsplit
    induction pre using List.reverseRecOn generalizing post with
    | nil => rfl
    | append_singleton pre i ih =>
      have hi : l = pre++i::post := by simp [hsplit]
      rw [register_concat, register_concat, ih (i::post) hi]
      exact hsame pre i post hi

end Reactive
