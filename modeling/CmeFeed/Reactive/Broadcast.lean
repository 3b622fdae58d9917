import Mathlib.Data.List.Count
import CmeFeed.Reactive.Run

/-!
# Machines with listeners

What a machine emits goes to all that are registered at the time, in the order
of their registration; who is registered twice hears everything twice. Removing
a listener that is not registered has no result. A listener hears what it would
hear alone.
-/

set_option autoImplicit false

namespace Reactive

variable {S I O L : Type*}

def runPartial (step : S → I → Option (S × List O)) : S → List I → Option (S × List O)
  | s, [] => some (s,[])
  | s, i::is => (step s i).bind fun r =>
    (runPartial step r.1 is).map fun r' => (r'.1,r.2++r'.2)

theorem runPartial_cons {step : S → I → Option (S × List O)} {s : S} {i : I} {is : List I}
    {r : S × List O} : runPartial step s (i::is) = some r ↔
      ∃ r₁ r₂, step s i = some r₁ ∧ runPartial step r₁.1 is = some r₂ ∧
        r = (r₂.1,r₁.2++r₂.2) := by
  rw [runPartial, Option.bind_eq_some_iff]
  constructor
  · rintro ⟨r₁,hstep,hrest⟩
    obtain ⟨r₂,hrun,rfl⟩ := Option.map_eq_some_iff.mp hrest
    exact ⟨r₁,r₂,hstep,hrun,rfl⟩
  · rintro ⟨r₁,r₂,hstep,hrun,rfl⟩
    exact ⟨r₁,hstep,Option.map_eq_some_iff.mpr ⟨r₂,hrun,rfl⟩⟩

theorem runPartial_map {T : Type*} {step : S → I → Option (S × List O)}
    {other : T → I → Option (T × List O)} (g : S → T)
    (h : ∀ s i, other (g s) i = (step s i).map fun r => (g r.1,r.2)) (s : S) (is : List I) :
    runPartial other (g s) is = (runPartial step s is).map fun r => (g r.1,r.2) := by
  induction is generalizing s with
  | nil => rfl
  | cons i is ih =>
    rw [runPartial, runPartial, h]
    cases step s i with
    | none => rfl
    | some r =>
      simp only [Option.map_some, Option.bind_some, ih, Option.map_map]
      rfl

/-- An input for the machine, or a change of its audience. -/
inductive AudienceEvent (I L : Type*) where
  | input (i : I)
  | register (l : L)
  | remove (l : L)

namespace AudienceEvent

def inputs : List (AudienceEvent I L) → List I
  | [] => []
  | .input i::es => i::inputs es
  | _::es => inputs es

variable [DecidableEq L]

def registrations (l : L) : List (AudienceEvent I L) → ℕ
  | [] => 0
  | .register l'::es => registrations l es+if l' = l then 1 else 0
  | _::es => registrations l es

def removals (l : L) : List (AudienceEvent I L) → ℕ
  | [] => 0
  | .remove l'::es => removals l es+if l' = l then 1 else 0
  | _::es => removals l es

def concerns (l : L) : AudienceEvent I L → Bool
  | .input _ => true
  | .register l' => decide (l' = l)
  | .remove l' => decide (l' = l)

theorem inputs_filter (l : L) (es : List (AudienceEvent I L)) :
    inputs (es.filter (concerns l)) = inputs es := by
  induction es with
  | nil => rfl
  | cons e es ih =>
    cases e with
    | input i => exact congrArg (i::·) ih
    | register l' =>
      rw [List.filter_cons]
      split_ifs <;> exact ih
    | remove l' =>
      rw [List.filter_cons]
      split_ifs <;> exact ih

end AudienceEvent

variable [DecidableEq L] (step : S → I → S × List O)

def broadcast : S × List L → AudienceEvent I L → Option ((S × List L) × List (L × O))
  | (s,ls), .input i =>
    some (((step s i).1,ls),(step s i).2.flatMap fun o => ls.map fun l => (l,o))
  | (s,ls), .register l => some ((s,ls++[l]),[])
  | (s,ls), .remove l => if l ∈ ls then some ((s,ls.erase l),[]) else none

def sentTo (l : L) (p : L × O) : Option O := if p.1 = l then some p.2 else none

def inbox (l : L) (sent : List (L × O)) : List O := sent.filterMap (sentTo l)

theorem inbox_append (l : L) (a b : List (L × O)) : inbox l (a++b) = inbox l a ++ inbox l b :=
  List.filterMap_append

theorem inbox_copies (l : L) (ls : List L) (o : O) :
    inbox l (ls.map fun l => (l,o)) = List.replicate (ls.count l) o := by
  induction ls with
  | nil => rfl
  | cons l' ls ih =>
    unfold inbox at ih ⊢
    by_cases hl : l' = l
    · have hsent : sentTo l (l',o) = some o := if_pos hl
      rw [List.map_cons, List.filterMap_cons_some hsent, ih, hl, List.count_cons_self,
        List.replicate_succ]
    · have hsent : sentTo l (l',o) = none := if_neg hl
      rw [List.map_cons, List.filterMap_cons_none hsent, ih, List.count_cons_of_ne hl]

theorem inbox_sent (l : L) (ls : List L) (os : List O) :
    inbox l (os.flatMap fun o => ls.map fun l => (l,o)) =
      os.flatMap (List.replicate (ls.count l)) := by
  induction os with
  | nil => rfl
  | cons o os ih => rw [List.flatMap_cons, inbox_append, inbox_copies, ih, List.flatMap_cons]

theorem broadcast_remove {s : S} {ls : List L} {l : L} {r : (S × List L) × List (L × O)} :
    broadcast step (s,ls) (.remove l) = some r ↔ l ∈ ls ∧ r = ((s,ls.erase l),[]) := by
  rw [broadcast]
  by_cases hl : l ∈ ls
  · rw [if_pos hl, Option.some.injEq, eq_comm]
    exact (and_iff_right hl).symm
  · rw [if_neg hl]
    exact iff_of_false nofun fun h => hl h.1

theorem broadcast_machine {s : S} {ls : List L} {es : List (AudienceEvent I L)}
    {r : (S × List L) × List (L × O)} (h : runPartial (broadcast step) (s,ls) es = some r) :
    r.1.1 = (run step s (AudienceEvent.inputs es)).1 := by
  induction es generalizing s ls r with
  | nil =>
    obtain rfl := Option.some.inj h
    rfl
  | cons e es ih =>
    obtain ⟨r₁,r₂,hstep,hrun,rfl⟩ := runPartial_cons.mp h
    cases e with
    | input i =>
      obtain rfl := Option.some.inj hstep
      have hrest := ih hrun
      exact hrest
    | register l =>
      obtain rfl := Option.some.inj hstep
      have hrest := ih hrun
      exact hrest
    | remove l =>
      obtain ⟨-,rfl⟩ := (broadcast_remove step).mp hstep
      have hrest := ih hrun
      exact hrest

theorem broadcast_defined (s : S) (ls : List L) (es : List (AudienceEvent I L)) :
    (runPartial (broadcast step) (s,ls) es).isSome ↔
      ∀ pre l post, es = pre++.remove l::post →
        AudienceEvent.removals l pre <
          ls.count l+AudienceEvent.registrations l pre := by
  induction es generalizing s ls with
  | nil => exact iff_of_true rfl fun pre l post he => by simp at he
  | cons e es ih =>
    have hsplit : (∀ pre l post, e::es = pre++.remove l::post →
        AudienceEvent.removals l pre <
          ls.count l+AudienceEvent.registrations l pre) ↔
        (∀ l, e = .remove l → 0 < ls.count l) ∧
        ∀ pre l post, es = pre++.remove l::post →
          AudienceEvent.removals l (e::pre) <
            ls.count l+AudienceEvent.registrations l (e::pre) := by
      constructor
      · intro hall
        exact ⟨fun l he => hall [] l es (he ▸ rfl),
          fun pre l post he => hall (e::pre) l post (he ▸ rfl)⟩
      · rintro ⟨hhead,htail⟩ pre l post he
        cases pre with
        | nil => exact hhead l (List.cons.inj he).1
        | cons e' pre =>
          obtain ⟨rfl,hes⟩ := List.cons.inj he
          exact htail pre l post hes
    rw [hsplit]
    cases e with
    | input i =>
      have hrun : (runPartial (broadcast step) (s,ls) (.input i::es)).isSome =
          (runPartial (broadcast step) ((step s i).1,ls) es).isSome := Option.isSome_map
      rw [hrun, ih]
      exact (and_iff_right nofun).symm
    | register l' =>
      have hrun : (runPartial (broadcast step) (s,ls) (.register l'::es)).isSome =
          (runPartial (broadcast step) (s,ls++[l']) es).isSome := Option.isSome_map
      rw [hrun, ih, and_iff_right nofun]
      refine forall_congr' fun pre => forall_congr' fun l => forall_congr' fun post =>
        imp_congr_right fun _ => ?_
      simp only [AudienceEvent.registrations, AudienceEvent.removals, List.count_append,
        List.count_singleton, beq_iff_eq]
      omega
    | remove l' =>
      by_cases hl : l' ∈ ls
      · have hstep : broadcast step (s,ls) (.remove l') = some ((s,ls.erase l'),[]) := if_pos hl
        have hrun : (runPartial (broadcast step) (s,ls) (.remove l'::es)).isSome =
            (runPartial (broadcast step) (s,ls.erase l') es).isSome := by
          rw [runPartial, hstep]
          exact Option.isSome_map
        have hpos : 0 < ls.count l' := List.count_pos_iff.mpr hl
        have hhead : ∀ l, (.remove l' : AudienceEvent I L) = .remove l → 0 < ls.count l := by
          rintro l ⟨⟩
          exact hpos
        rw [hrun, ih, and_iff_right hhead]
        refine forall_congr' fun pre => forall_congr' fun l => forall_congr' fun post =>
          imp_congr_right fun _ => ?_
        simp only [AudienceEvent.registrations, AudienceEvent.removals, List.count_erase,
          beq_iff_eq]
        by_cases hsame : l' = l
        · subst hsame
          simp only [if_true]
          omega
        · simp [hsame]
      · have hstep : broadcast step (s,ls) (.remove l') = none := if_neg hl
        have hrun : runPartial (broadcast step) (s,ls) (.remove l'::es) = none := by
          rw [runPartial, hstep]
          rfl
        rw [hrun]
        refine iff_of_false nofun fun hall => hl ?_
        exact List.count_pos_iff.mp (hall.1 l' rfl)

/-- What a listener hears, and whether it may be removed, hangs on the machine
and on its own registrations alone. -/
theorem listener_alone (l : L) {s : S} {ls own : List L} {es : List (AudienceEvent I L)}
    (hown : own.count l = ls.count l) {r : (S × List L) × List (L × O)}
    (h : runPartial (broadcast step) (s,ls) es = some r) :
    ∃ r', runPartial (broadcast step) (s,own) (es.filter (AudienceEvent.concerns l)) = some r' ∧
      inbox l r'.2 = inbox l r.2 := by
  induction es generalizing s ls own r with
  | nil =>
    obtain rfl := Option.some.inj h
    exact ⟨_,rfl,rfl⟩
  | cons e es ih =>
    obtain ⟨r₁,r₂,hstep,hrun,rfl⟩ := runPartial_cons.mp h
    cases e with
    | input i =>
      obtain rfl := Option.some.inj hstep
      obtain ⟨r',hrun',hinbox⟩ := ih hown hrun
      refine ⟨_,runPartial_cons.mpr ⟨_,r',rfl,hrun',rfl⟩,?_⟩
      rw [inbox_append, inbox_append, hinbox, inbox_sent, inbox_sent, hown]
    | register l' =>
      obtain rfl := Option.some.inj hstep
      by_cases hl : l' = l
      · have hcount : (own++[l']).count l = (ls++[l']).count l := by
          rw [List.count_append, List.count_append, hown]
        have hkept : AudienceEvent.concerns l (.register l' : AudienceEvent I L) = true :=
          decide_eq_true hl
        obtain ⟨r',hrun',hinbox⟩ := ih hcount hrun
        rw [List.filter_cons_of_pos hkept]
        exact ⟨_,runPartial_cons.mpr ⟨_,r',rfl,hrun',rfl⟩,hinbox⟩
      · have hcount : own.count l = (ls++[l']).count l := by
          rw [List.count_append, List.count_singleton, hown]
          simp [hl]
        rw [List.filter_cons_of_neg (by simp [AudienceEvent.concerns, hl])]
        exact ih hcount hrun
    | remove l' =>
      obtain ⟨hmem,rfl⟩ := (broadcast_remove step).mp hstep
      by_cases hl : l' = l
      · subst hl
        have hcount : (own.erase l').count l' = (ls.erase l').count l' := by
          rw [List.count_erase_self, List.count_erase_self, hown]
        have hmine : l' ∈ own := by
          rw [← List.count_pos_iff, hown]
          exact List.count_pos_iff.mpr hmem
        have hkept : AudienceEvent.concerns l' (.remove l' : AudienceEvent I L) = true :=
          decide_eq_true rfl
        obtain ⟨r',hrun',hinbox⟩ := ih hcount hrun
        rw [List.filter_cons_of_pos hkept]
        exact ⟨_,runPartial_cons.mpr
          ⟨_,r',(broadcast_remove step).mpr ⟨hmine,rfl⟩,hrun',rfl⟩,hinbox⟩
      · have hcount : own.count l = (ls.erase l').count l := by
          rw [List.count_erase_of_ne (fun h => hl h.symm), hown]
        rw [List.filter_cons_of_neg (by simp [AudienceEvent.concerns, hl])]
        exact ih hcount hrun

theorem once (os : List O) : os.flatMap (List.replicate 1) = os := by
  induction os with
  | nil => rfl
  | cons o os ih => rw [List.flatMap_cons, ih, List.replicate_one, List.singleton_append]

end Reactive
