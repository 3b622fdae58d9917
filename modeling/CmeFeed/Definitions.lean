import Mathlib.Data.List.Induction
import CmeFeed.SymbolController
import CmeFeed.Reactive.Latest

/-!
# The table of definitions

A symbol is in the table from an addition to the next deletion. A modification
is made to a copy of the entry and lost, so an entry is that of the addition.
-/

set_option autoImplicit false

namespace CmeFeed

open Reactive

def latest (actions : List SecurityUpdateAction) (symbol : String)
    (ds : List MDInstrumentDefinition) : Option MDInstrumentDefinition :=
  ds.findRev? fun d => decide (d.symbol = symbol ∧ d.securityUpdateAction ∈ actions)

/-- The symbol was added and not deleted since. -/
def Present (symbol : String) (ds : List MDInstrumentDefinition) : Prop :=
  (latest [.Add,.Delete] symbol ds).map (·.securityUpdateAction) = some .Add

instance (symbol : String) (ds : List MDInstrumentDefinition) : Decidable (Present symbol ds) :=
  inferInstanceAs (Decidable (_ = _))

theorem latest_concat (actions : List SecurityUpdateAction) (symbol : String)
    (ds : List MDInstrumentDefinition) (d : MDInstrumentDefinition) :
    latest actions symbol (ds++[d]) =
      if d.symbol = symbol ∧ d.securityUpdateAction ∈ actions then some d
      else latest actions symbol ds := by
  rw [latest, findRev?_concat]
  simp only [decide_eq_true_eq]
  rfl

theorem latest_some {actions : List SecurityUpdateAction} {symbol : String}
    {ds : List MDInstrumentDefinition} {d : MDInstrumentDefinition}
    (h : latest actions symbol ds = some d) :
    d ∈ ds ∧ d.symbol = symbol ∧ d.securityUpdateAction ∈ actions := by
  rw [latest, List.findRev?_eq_find?_reverse] at h
  have hd := List.find?_some h
  exact ⟨List.mem_reverse.mp (List.mem_of_find?_eq_some h),by simpa using hd⟩

theorem latest_narrower {actions wider : List SecurityUpdateAction} {symbol : String}
    {ds : List MDInstrumentDefinition} {d : MDInstrumentDefinition} (hsub : actions ⊆ wider)
    (h : latest wider symbol ds = some d) (hd : d.securityUpdateAction ∈ actions) :
    latest actions symbol ds = some d := by
  apply findRev?_narrower _ h
  · simpa using ⟨(latest_some h).2.1,hd⟩
  · intro i hi
    simp only [decide_eq_true_eq] at hi ⊢
    exact ⟨hi.1,hsub hi.2⟩

theorem latest_wider {actions wider : List SecurityUpdateAction} {symbol : String}
    {ds : List MDInstrumentDefinition} {d : MDInstrumentDefinition} (hsub : actions ⊆ wider)
    (h : latest actions symbol ds = some d) : ∃ m, latest wider symbol ds = some m := by
  apply findRev?_wider _ h
  intro i hi
  simp only [decide_eq_true_eq] at hi ⊢
  exact ⟨hi.1,hsub hi.2⟩

theorem Present.added {symbol : String} {ds : List MDInstrumentDefinition}
    (h : Present symbol ds) : ∃ a, latest [.Add] symbol ds = some a := by
  obtain ⟨a,ha,hadd⟩ := Option.map_eq_some_iff.mp h
  exact ⟨a,latest_narrower (by simp) ha (by simp [hadd])⟩

def NoneReadded (ds : List MDInstrumentDefinition) : Prop :=
  ∀ pre d post, ds = pre++d::post → d.securityUpdateAction = .Add → ¬Present d.symbol pre

theorem NoneReadded.init {ds : List MDInstrumentDefinition} {d : MDInstrumentDefinition}
    (h : NoneReadded (ds++[d])) : NoneReadded ds := by
  intro pre x post hsplit
  exact h pre x (post++[d]) (by simp [hsplit])

def MDInstrumentDefinition.entry (d : MDInstrumentDefinition) (inst : Option Instrument) :
    Option Instrument :=
  match d.securityUpdateAction with
  | .Add => if inst = none then some d.instrument else inst
  | .Delete => none
  | _ => inst

namespace SymbolController

theorem handleDefinition_entry (c : SymbolController) (d : MDInstrumentDefinition)
    (symbol : String) : (c.handleDefinition d).instruments_ symbol =
      if d.symbol = symbol then d.entry (c.instruments_ symbol) else c.instruments_ symbol := by
  unfold handleDefinition MDInstrumentDefinition.entry
  by_cases hsymbol : d.symbol = symbol
  · subst hsymbol
    cases d.securityUpdateAction with
    | Add =>
      by_cases hnone : c.instruments_ d.symbol = none
      · simp [hnone]
      · simp [hnone]
    | Modify => simp
    | Delete => simp
    | other => simp
  · have hne : symbol ≠ d.symbol := Ne.symm hsymbol
    rw [if_neg hsymbol]
    cases d.securityUpdateAction with
    | Add =>
      by_cases hnone : c.instruments_ d.symbol = none
      · simp [hnone, hne]
      · simp [hnone]
    | Modify => rfl
    | Delete => simp [hne]
    | other => rfl

theorem foldl_handleDefinition_entry (c : SymbolController) (ds : List MDInstrumentDefinition)
    (symbol : String) : (ds.foldl handleDefinition c).instruments_ symbol =
      (ds.filter (·.symbol = symbol)).foldl (fun inst d => d.entry inst)
        (c.instruments_ symbol) := by
  induction ds generalizing c with
  | nil => rfl
  | cons d ds ih =>
    rw [List.foldl_cons, ih, handleDefinition_entry]
    by_cases hsymbol : d.symbol = symbol
    · rw [if_pos hsymbol, List.filter_cons_of_pos (by simpa using hsymbol), List.foldl_cons]
    · rw [if_neg hsymbol, List.filter_cons_of_neg (by simpa using hsymbol)]

theorem foldl_handleDefinition_table (c : SymbolController) {ds : List MDInstrumentDefinition}
    (h : NoneReadded ds) (symbol : String) :
    (ds.foldl handleDefinition c.resetState).instruments_ symbol =
      if Present symbol ds then (latest [.Add] symbol ds).map (·.instrument) else none := by
  induction ds using List.reverseRecOn with
  | nil => rfl
  | append_singleton ds d ih =>
    rw [List.foldl_append, List.foldl_cons, List.foldl_nil, handleDefinition_entry, ih h.init]
    by_cases hsymbol : d.symbol = symbol
    · rw [if_pos hsymbol, MDInstrumentDefinition.entry]
      cases haction : d.securityUpdateAction with
      | Add =>
        have habsent : ¬Present symbol ds := hsymbol ▸ h ds d [] rfl haction
        rw [if_neg habsent]
        simp [Present, latest_concat, hsymbol, haction]
      | Modify => simp [Present, latest_concat, haction]
      | Delete => simp [Present, latest_concat, hsymbol, haction]
      | other => simp [Present, latest_concat, haction]
    · simp [Present, latest_concat, hsymbol]

structure Follows (c : SymbolController) (ds : List MDInstrumentDefinition) (symbol : String) :
    Prop where
  found : (ds.foldl handleDefinition c).instruments_ symbol ≠ none ↔ Present symbol ds
  entry : Present symbol ds → ∃ a m, latest [.Add] symbol ds = some a ∧
    latest [.Add,.Modify] symbol ds = some m ∧
    (ds.foldl handleDefinition c).getInstrument symbol =
      {a.instrument with securityid := m.securityID, securitygroup := m.securityGroup
                         type := m.securityType}
  alone : (ds.foldl handleDefinition c).instruments_ symbol =
    ((ds.filter (·.symbol = symbol)).foldl handleDefinition c).instruments_ symbol

/-- The latest modification of an entry, if there is one since its addition,
changes nothing in it. -/
def Unmodified (ds : List MDInstrumentDefinition) (symbol : String) : Prop :=
  ∀ a m, latest [.Add] symbol ds = some a → latest [.Add,.Modify] symbol ds = some m →
    m.securityID = a.securityID ∧ m.securityGroup = a.securityGroup ∧
      m.securityType = a.securityType

theorem getInstrument_present (c : SymbolController) {ds : List MDInstrumentDefinition}
    (h : NoneReadded ds) {symbol : String} (hpresent : Present symbol ds)
    {a : MDInstrumentDefinition} (ha : latest [.Add] symbol ds = some a) :
    (ds.foldl handleDefinition c.resetState).getInstrument symbol = a.instrument := by
  rw [getInstrument, foldl_handleDefinition_table c h, if_pos hpresent, ha]
  rfl

theorem follows_iff (c : SymbolController) {ds : List MDInstrumentDefinition}
    (h : NoneReadded ds) (symbol : String) :
    Follows c.resetState ds symbol ↔ (Present symbol ds → Unmodified ds symbol) := by
  constructor
  · intro hfollows hpresent a m ha hm
    obtain ⟨a',m',ha',hm',hentry⟩ := hfollows.entry hpresent
    cases ha.symm.trans ha'
    cases hm.symm.trans hm'
    rw [getInstrument_present c h hpresent ha] at hentry
    exact ⟨(congrArg Instrument.securityid hentry).symm,
      (congrArg Instrument.securitygroup hentry).symm,(congrArg Instrument.type hentry).symm⟩
  · intro hunmodified
    constructor
    · rw [foldl_handleDefinition_table c h]
      by_cases hpresent : Present symbol ds
      · obtain ⟨a,ha⟩ := hpresent.added
        simp [hpresent, ha]
      · simp [hpresent]
    · intro hpresent
      obtain ⟨a,ha⟩ := hpresent.added
      obtain ⟨m,hm⟩ : ∃ m, latest [.Add,.Modify] symbol ds = some m := latest_wider (by simp) ha
      obtain ⟨hid,hgroup,htype⟩ := hunmodified hpresent a m ha hm
      have hentry : (ds.foldl handleDefinition c.resetState).getInstrument symbol =
          {a.instrument with securityid := m.securityID, securitygroup := m.securityGroup
                             type := m.securityType} := by
        rw [getInstrument_present c h hpresent ha, hid, hgroup, htype]
        rfl
      exact ⟨a,m,ha,hm,hentry⟩
    · rw [foldl_handleDefinition_entry, foldl_handleDefinition_entry, List.filter_filter]
      simp

/-- From an empty table that is told no addition twice, all entries follow the
additions, modifications and deletions exactly if no modification of a present
symbol matters. -/
theorem definitions_followed (c : SymbolController) (ds : List MDInstrumentDefinition)
    (h : NoneReadded ds) :
    (∀ symbol, Follows c.resetState ds symbol) ↔
      ∀ symbol, Present symbol ds → Unmodified ds symbol :=
  forall_congr' (follows_iff c h)

def symbolUpdate (action : SecurityUpdateAction) (securityID : Int32) :
    MDInstrumentDefinition :=
  {securityUpdateAction := action, symbol := "ESH8", securityID := securityID}

theorem definitions_followed_sample :
    let ds := [symbolUpdate .Add 7,symbolUpdate .Modify 7,symbolUpdate .Delete 7,
      symbolUpdate .Add 7]
    Follows initial.resetState ds "ESH8" := by
  intro ds
  have hnone : NoneReadded ds := by
    unfold NoneReadded
    simp only [ds, forall_split_cons]
    exact ⟨by decide,by decide,by decide,by decide,by simp⟩
  have hsame : ∀ d ∈ ds, d.securityID = 7 ∧ d.securityGroup = "" ∧ d.securityType = "" := by
    decide
  have hunmodified : ∀ symbol, Present symbol ds → Unmodified ds symbol := by
    intro symbol _ a m ha hm
    obtain ⟨hid,hgroup,htype⟩ := hsame a (latest_some ha).1
    rw [hid, hgroup, htype]
    exact hsame m (latest_some hm).1
  exact (definitions_followed initial ds hnone).mpr hunmodified "ESH8"

/-- A modification moves ESH8 from the id 7 to the id 9: the table keeps 7. -/
theorem definitions_followed_modified :
    let ds := [symbolUpdate .Add 7,symbolUpdate .Modify 9]
    ((ds.foldl handleDefinition initial.resetState).getInstrument "ESH8").securityid = 7 ∧
      ¬Follows initial.resetState ds "ESH8" := by
  intro ds
  have hid : ((ds.foldl handleDefinition initial.resetState).getInstrument "ESH8").securityid =
      7 := by decide
  constructor
  · exact hid
  · intro h
    obtain ⟨a,m,-,hm,hentry⟩ := h.entry (by decide)
    have hlatest : latest [.Add,.Modify] "ESH8" ds = some (symbolUpdate .Modify 9) := by decide
    cases hm.symm.trans hlatest
    rw [hentry] at hid
    exact absurd hid (by decide : ¬(9:Int32) = 7)

end SymbolController

end CmeFeed
