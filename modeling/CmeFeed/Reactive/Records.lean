import Mathlib.Data.List.FinRange
import CmeFeed.Reactive.Run

/-!
# Records of a keyed sequence

A reader that keeps the successor of the largest key it has accepted and drops
what lies below it accepts exactly the strict records of what arrives. Over an
interleaving of two copies of one strictly increasing sequence the records are
that sequence.
-/

set_option autoImplicit false

namespace Reactive

variable {S I O : Type*} (key : I → ℕ)

def records : ℕ → List I → List I
  | _, [] => []
  | e, i::is => if e ≤ key i then i::records (key i+1) is else records e is

def RecordFrom (e : ℕ) (l : List I) (n : Fin l.length) : Prop :=
  e ≤ key (l.get n) ∧ ∀ i ∈ l.take n, key i < key (l.get n)

instance (e : ℕ) (l : List I) (n : Fin l.length) : Decidable (RecordFrom key e l n) :=
  inferInstanceAs (Decidable (_ ∧ _))

def strictRecords (l : List I) : List I :=
  ((List.finRange l.length).filter fun n : Fin l.length =>
    decide (∀ i ∈ l.take n, key i < key (l.get n))).map l.get

variable {key}

theorem records_ahead {e : ℕ} {i : I} (h : e ≤ key i) (is : List I) :
    records key e (i::is) = i::records key (key i+1) is := if_pos h

theorem records_behind {e : ℕ} {i : I} (h : key i < e) (is : List I) :
    records key e (i::is) = records key e is := if_neg (by omega)

theorem mem_of_mem_records {e : ℕ} {i : I} {l : List I} (h : i ∈ records key e l) : i ∈ l := by
  induction l generalizing e with
  | nil => exact h
  | cons j l ih =>
    rw [records] at h
    split_ifs at h
    · rcases List.mem_cons.mp h with rfl | h
      · exact List.mem_cons_self
      · exact List.mem_cons_of_mem j (ih h)
    · exact List.mem_cons_of_mem j (ih h)

/-- What is not accepted lies below the bound or is outdone by a record. -/
theorem records_dominate (e : ℕ) {i : I} {l : List I} (h : i ∈ l) :
    key i < e ∨ ∃ j ∈ records key e l, key i ≤ key j := by
  induction l generalizing e with
  | nil => exact absurd h List.not_mem_nil
  | cons j l ih =>
    by_cases hj : e ≤ key j
    · rw [records_ahead hj]
      rcases List.mem_cons.mp h with rfl | h
      · exact Or.inr ⟨i,List.mem_cons_self,le_refl _⟩
      · rcases ih (key j+1) h with hlow | ⟨k,hk,hle⟩
        · exact Or.inr ⟨j,List.mem_cons_self,Nat.le_of_lt_succ hlow⟩
        · exact Or.inr ⟨k,List.mem_cons_of_mem j hk,hle⟩
    · rw [records_behind (Nat.lt_of_not_le hj)]
      rcases List.mem_cons.mp h with rfl | h
      · exact Or.inl (Nat.lt_of_not_le hj)
      · exact ih e h

theorem records_below (l : List I) (n : ℕ) :
    (∀ i ∈ records key 0 l, key i < n) ↔ ∀ i ∈ l, key i < n := by
  constructor
  · intro hall i hi
    have hdominated : key i < 0 ∨ ∃ j ∈ records key 0 l, key i ≤ key j := records_dominate 0 hi
    obtain ⟨j,hj,hle⟩ := hdominated.resolve_left (Nat.not_lt_zero _)
    exact lt_of_le_of_lt hle (hall j hj)
  · exact fun hall i hi => hall i (mem_of_mem_records hi)

theorem records_eq_nil (l : List I) : records key 0 l = [] ↔ l = [] := by
  cases l with
  | nil => exact iff_of_true rfl rfl
  | cons i l =>
    rw [records_ahead (Nat.zero_le _)]
    simp

theorem recordFrom_head (e : ℕ) (i : I) (is : List I) :
    RecordFrom key e (i::is) (0 : Fin (is.length+1)) ↔ e ≤ key i := by
  simp [RecordFrom]

theorem recordFrom_tail (e : ℕ) (i : I) (is : List I) (n : Fin is.length) :
    RecordFrom key e (i::is) n.succ ↔ RecordFrom key (max e (key i+1)) is n := by
  simp only [RecordFrom, List.get_cons_succ', Fin.val_succ, List.take_succ_cons,
    List.forall_mem_cons, Nat.max_le, and_assoc]
  rfl

theorem records_positions (e : ℕ) (l : List I) :
    records key e l =
      ((List.finRange l.length).filter fun n => decide (RecordFrom key e l n)).map l.get := by
  induction l generalizing e with
  | nil => rfl
  | cons i is ih =>
    have htail : ((List.finRange is.length).map Fin.succ).filter
        (fun n => decide (RecordFrom key e (i::is) n)) =
          ((List.finRange is.length).filter
            fun n => decide (RecordFrom key (max e (key i+1)) is n)).map Fin.succ := by
      rw [List.filter_map]
      congr 2
      funext n
      exact decide_eq_decide.mpr (recordFrom_tail e i is n)
    have hget : ∀ ns : List (Fin is.length),
        (ns.map Fin.succ).map (i::is).get = ns.map is.get := by
      intro ns
      rw [List.map_map]
      rfl
    have hpositions : List.finRange (i::is).length = 0::(List.finRange is.length).map Fin.succ :=
      List.finRange_succ
    rw [hpositions]
    by_cases h : e ≤ key i
    · rw [records_ahead h, ih, List.filter_cons_of_pos (by simpa [recordFrom_head] using h),
        htail, List.map_cons, hget, Nat.max_eq_right (by omega)]
      rfl
    · rw [records_behind (by omega), ih,
        List.filter_cons_of_neg (by simpa [recordFrom_head] using h), htail, hget,
        Nat.max_eq_left (by omega)]

theorem records_strict (l : List I) : records key 0 l = strictRecords key l := by
  rw [records_positions, strictRecords]
  congr 2
  funext n
  exact decide_eq_decide.mpr ⟨fun h => h.2, fun h => ⟨Nat.zero_le _,h⟩⟩

/-- Two sequences arriving over two lines, each in its own order. -/
inductive Interleaving : List I → List I → List I → Prop
  | nil : Interleaving [] [] []
  | left {i : I} {a b l : List I} (h : Interleaving a b l) : Interleaving (i::a) b (i::l)
  | right {i : I} {a b l : List I} (h : Interleaving a b l) : Interleaving a (i::b) (i::l)

/-- The line `a` repeats elements accepted already before it reaches `b`, what
the other line has left. -/
def Behind (key : I → ℕ) (e : ℕ) (a b : List I) : Prop :=
  ∃ d, a = d++b ∧ (a.Pairwise fun i j => key i < key j) ∧ (∀ i ∈ d, key i < e) ∧
    ∀ i ∈ b, e ≤ key i

theorem Behind.other {e : ℕ} {i : I} {a b : List I} (h : Behind key e b (i::a)) :
    e ≤ key i ∧ Behind key (key i+1) b a := by
  obtain ⟨d,rfl,hb,hd,ha⟩ := h
  have hi : e ≤ key i := ha i (by simp)
  have hrest := (List.pairwise_cons.mp (List.pairwise_append.mp hb).2.1).1
  refine ⟨hi,d++[i],by simp,hb, ?_,fun j hj => hrest j hj⟩
  intro j hj
  rcases List.mem_append.mp hj with hj | hj
  · have := hd j hj
    omega
  · rw [List.mem_singleton.mp hj]
    omega

theorem Behind.self {e : ℕ} {i : I} {a b : List I} (h : Behind key e (i::a) b) :
    (key i < e ∧ Behind key e a b) ∨ (b = i::a ∧ Behind key e b (i::a)) := by
  obtain ⟨d,hab,ha,hd,hb⟩ := h
  cases d with
  | nil =>
    rw [List.nil_append] at hab
    subst hab
    exact Or.inr ⟨rfl,[],rfl,ha,by simp,hb⟩
  | cons j d =>
    obtain ⟨rfl,rfl⟩ := List.cons.inj hab
    exact Or.inl ⟨hd i (by simp),d,rfl,(List.pairwise_cons.mp ha).2,
      fun j hj => hd j (by simp [hj]),hb⟩

theorem records_lines {a b l : List I} (h : Interleaving a b l) (e : ℕ) :
    (Behind key e a b → records key e l = b) ∧ (Behind key e b a → records key e l = a) := by
  have hahead : ∀ {i : I} {a b l : List I},
      (∀ e, Behind key e b a → records key e l = a) →
        ∀ e, Behind key e b (i::a) → records key e (i::l) = i::a := by
    intro i a b l ih e hb
    obtain ⟨hi,hnext⟩ := hb.other
    rw [records_ahead hi, ih _ hnext]
  have hbehind : ∀ {i : I} {a b l : List I},
      (∀ e, Behind key e a b → records key e l = b) →
        (∀ e, Behind key e b a → records key e l = a) →
          ∀ e, Behind key e (i::a) b → records key e (i::l) = b := by
    intro i a b l ih ih' e ha
    rcases ha.self with ⟨hi,hnext⟩ | ⟨rfl,hnext⟩
    · rw [records_behind hi, ih _ hnext]
    · exact hahead ih' e hnext
  induction h generalizing e with
  | nil => exact ⟨fun _ => rfl,fun _ => rfl⟩
  | left _ ih =>
    exact ⟨hbehind (fun e => (ih e).1) (fun e => (ih e).2) e,hahead (fun e => (ih e).2) e⟩
  | right _ ih =>
    exact ⟨hahead (fun e => (ih e).1) e,hbehind (fun e => (ih e).2) (fun e => (ih e).1) e⟩

theorem records_interleaving {s l : List I} (hs : s.Pairwise fun i j => key i < key j)
    (h : Interleaving s s l) : records key 0 l = s :=
  (records_lines h 0).1 ⟨[],rfl,hs,by simp,fun _ _ => Nat.zero_le _⟩

theorem run_dropped (step : S → I → S × List O) (Takes : S → I → Prop)
    [∀ s i, Decidable (Takes s i)] (h : ∀ s i, ¬Takes s i → step s i = (s,[]))
    (s : S) (is : List I) :
    run step s is = run step s (observe step (fun s i => if Takes s i then [i] else []) s is) := by
  induction is generalizing s with
  | nil => rfl
  | cons i is ih =>
    rw [observe, run_cons]
    by_cases hi : Takes s i
    · rw [if_pos hi, List.singleton_append, run_cons, ← ih]
    · rw [if_neg hi, h s i hi, List.nil_append, List.nil_append, ← ih]

end Reactive
