import CmeFeed.Rebuild
import CmeFeed.Reactive.Latest

/-!
# The limit prices

A banding entry and a snapshot carry a low and a high limit price, either of
which may be null. The banding overload stores both as they are; a snapshot has
both stored, or neither, on a test of the low one.
-/

set_option autoImplicit false

namespace CmeFeed

open Reactive

variable {F : Floats}

/-- The decoder's mark of a price that was not sent. -/
def DecimalNull.IsNull (p : DecimalNull) : Prop := p.mantissa = p.mantissaNullValue

instance (p : DecimalNull) : Decidable p.IsNull := inferInstanceAs (Decidable (_ = _))

inductive Limit where
  | low | high
  deriving DecidableEq, Repr

def SessionStatistics.limit (s : SessionStatistics F) : Limit → F.Double
  | .low => s.lowlimitprice
  | .high => s.highlimitprice

def MDIncrementalRefreshLimitsBanding34.NoMDEntries.limit
    (e : MDIncrementalRefreshLimitsBanding34.NoMDEntries) : Limit → DecimalNull
  | .low => e.lowLimitPrice
  | .high => e.highLimitPrice

def SnapshotFullRefresh38.limit (r : SnapshotFullRefresh38) : Limit → DecimalNull
  | .low => r.lowLimitPrice
  | .high => r.highLimitPrice

/-- The test that the limit prices of a snapshot are stored on. -/
def SnapshotFullRefresh38.StoresLimits (r : SnapshotFullRefresh38) : Prop :=
  r.lowLimitPrice.mantissa ≠ r.lowLimitPrice.mantissaNullValue ∧
    r.lowLimitPrice.exponent ≠ r.lowLimitPrice.exponentNullValue

instance (r : SnapshotFullRefresh38) : Decidable r.StoresLimits :=
  inferInstanceAs (Decidable (_ ∧ _))

namespace InstrumentMdHandler

def Call.stored (F : Floats) (x : Limit) : Call → Option F.Double
  | .incremental (.limitsBanding34 e) => some (F.price (e.limit x).toDecimal)
  | .snapshot r => if r.StoresLimits then some (F.price (r.limit x).toDecimal) else none
  | _ => none

def Call.limit (x : Limit) : Call → Option DecimalNull
  | .incremental (.limitsBanding34 e) => some (e.limit x)
  | .snapshot r => some (r.limit x)
  | _ => none

def Call.received (F : Floats) (x : Limit) (c : Call) : Option F.Double :=
  match c.limit x with
  | some p => if p.IsNull then none else some (F.price p.toDecimal)
  | none => none

theorem snapshotEntry_limit (h : InstrumentMdHandler F) (e : SnapshotFullRefresh38.NoMDEntries)
    (x : Limit) : (h.snapshotEntry e).statistics_.limit x = h.statistics_.limit x := by
  unfold snapshotEntry
  cases x <;> cases e.mDEntryType <;> rfl

theorem snapshotFold_limit (h : InstrumentMdHandler F)
    (es : List SnapshotFullRefresh38.NoMDEntries) (x : Limit) :
    (es.foldl snapshotEntry h).statistics_.limit x = h.statistics_.limit x := by
  induction es generalizing h with
  | nil => rfl
  | cons e es ih => rw [List.foldl_cons, ih, snapshotEntry_limit]

theorem snapshotLimits_limit (h : InstrumentMdHandler F) (r : SnapshotFullRefresh38) (x : Limit) :
    (h.snapshotLimits r).statistics_.limit x =
      if r.StoresLimits then F.price (r.limit x).toDecimal else h.statistics_.limit x := by
  unfold snapshotLimits
  by_cases hstores : r.StoresLimits
  · rw [if_pos (by exact hstores), if_pos hstores]
    cases x <;> rfl
  · rw [if_neg (by exact hstores), if_neg hstores]

theorem onIncremental_limit (h : InstrumentMdHandler F) (e : Entry) (x : Limit) :
    (h.onIncremental e).statistics_.limit x =
      ((Call.incremental e).stored F x).getD (h.statistics_.limit x) := by
  cases e with
  | book32 e =>
    change (h.onIncrementalBook e).statistics_.limit x = h.statistics_.limit x
    unfold onIncrementalBook
    cases x <;> cases e.mDEntryType <;> rfl
  | dailyStatistics33 e =>
    change (h.onIncrementalDailyStatistics e).statistics_.limit x = h.statistics_.limit x
    unfold onIncrementalDailyStatistics
    cases x <;> cases e.mDEntryType <;> rfl
  | limitsBanding34 e => cases x <;> rfl
  | sessionStatistics35 e =>
    change (h.onIncrementalSessionStatistics e).statistics_.limit x = h.statistics_.limit x
    unfold onIncrementalSessionStatistics
    cases x <;> cases e.mDEntryType <;> rfl
  | trade36 e => rfl
  | tradeSummary42 e => rfl
  | volume37 e => cases x <;> rfl

theorem call_limit (x : Limit) (h : InstrumentMdHandler F) (c : Call) :
    (h.call c).statistics_.limit x = (c.stored F x).getD (h.statistics_.limit x) := by
  cases c with
  | incremental entry => exact onIncremental_limit h entry x
  | securityStatus status => rfl
  | snapshot refresh =>
    have hentries : (refresh.noMDEntries.foldl snapshotEntry h.clearState).statistics_.limit x =
        h.statistics_.limit x := snapshotFold_limit h.clearState refresh.noMDEntries x
    rw [call, onSnapshot, snapshotLimits_limit, hentries, Call.stored]
    split_ifs <;> rfl
  | channelReset => rfl
  | commit =>
    unfold call commit
    split_ifs <;> rfl
  | reset => rfl

def latestLimit (F : Floats) (x : Limit) (calls : List Call) : F.Double :=
  register (Call.received F x) F.zero calls

def SameLimit (F : Floats) (calls : List Call) (x : Limit) (p : DecimalNull) : Prop :=
  F.price p.toDecimal = latestLimit F x calls

/-- The limit prices of the call that are stored are not null, and those that
are not stored are null, but for values that make no difference. -/
def NullSafe (F : Floats) (calls : List Call) : Call → Prop
  | .incremental (.limitsBanding34 e) =>
    ∀ x, ¬(e.limit x).IsNull ∨ SameLimit F calls x (e.limit x)
  | .snapshot r =>
    if r.StoresLimits then ∀ x, ¬(r.limit x).IsNull ∨ SameLimit F calls x (r.limit x)
    else ∀ x, (r.limit x).IsNull ∨ SameLimit F calls x (r.limit x)
  | _ => True

theorem stored_iff (v : F.Double) (p : DecimalNull) :
    (F.price p.toDecimal = (if p.IsNull then none else some (F.price p.toDecimal)).getD v ↔
      ¬p.IsNull ∨ F.price p.toDecimal = v) ∧
    (v = (if p.IsNull then none else some (F.price p.toDecimal)).getD v ↔
      p.IsNull ∨ F.price p.toDecimal = v) := by
  by_cases hnull : p.IsNull
  · simp [hnull]
  · simp [hnull, eq_comm]

theorem nullSafe_iff (calls : List Call) (c : Call) :
    (∀ x, (c.stored F x).getD (latestLimit F x calls) =
      (c.received F x).getD (latestLimit F x calls)) ↔ NullSafe F calls c := by
  cases c with
  | incremental entry =>
    cases entry with
    | limitsBanding34 e => exact forall_congr' fun x => (stored_iff _ (e.limit x)).1
    | _ => exact iff_of_true (fun _ => rfl) trivial
  | snapshot r =>
    unfold NullSafe
    by_cases hstores : r.StoresLimits
    · simp only [Call.stored, if_pos hstores]
      exact forall_congr' fun x => (stored_iff _ (r.limit x)).1
    · simp only [Call.stored, if_neg hstores]
      exact forall_congr' fun x => (stored_iff _ (r.limit x)).2
  | _ => exact iff_of_true (fun _ => rfl) trivial

/-- All along a run both limits have the value of the latest price received that
was not null exactly if every call is null-safe where it arrives. -/
theorem limit_prices (i : Instrument) (statechange : Bool) (calls : List Call) :
    (∀ pre post, calls = pre++post → ∀ x,
      (pre.foldl call (construct i statechange : InstrumentMdHandler F)).statistics_.limit x =
        latestLimit F x pre) ↔
      ∀ pre c post, calls = pre++c::post → NullSafe F pre c := by
  have hregister : ∀ x pre,
      (pre.foldl call (construct i statechange : InstrumentMdHandler F)).statistics_.limit x =
        register (Call.stored F x) F.zero pre := by
    intro x pre
    have hinitial : (construct i statechange : InstrumentMdHandler F).statistics_.limit x =
        F.zero := by cases x <;> rfl
    rw [foldl_register call (·.statistics_.limit x) (Call.stored F x) (call_limit x), hinitial]
  have hagree := fun x =>
    registers_agree_iff (Call.stored F x) (Call.received F x) F.zero calls
  simp only [hregister, ← nullSafe_iff]
  constructor
  · intro hall pre c post hsplit x
    exact (hagree x).mp (fun pre post hsplit => hall pre post hsplit x) pre c post hsplit
  · intro hall pre post hsplit x
    exact (hagree x).mpr (fun pre c post hsplit => hall pre c post hsplit x) pre post hsplit

def limitPrice (mantissa : ℤ) : DecimalNull := ⟨⟨mantissa,-7⟩,2^63-1,-128⟩

theorem limitPrice_exact (mantissa : ℤ) :
    Floats.exact.price (limitPrice mantissa).toDecimal = mkRat mantissa (10^7) := rfl

/-- A banding entry without a high price stores the null value as the high
limit. A snapshot without a low price does not store its high price. -/
theorem limit_prices_null :
    let null := limitPrice (2^63-1)
    let price := limitPrice 1000000000
    let h : InstrumentMdHandler .exact := construct sampleInstrument false
    let banding := Call.incremental (.limitsBanding34 ⟨⟨7,1⟩,null,price⟩)
    let snapshot := Call.snapshot {securityID := 7, lowLimitPrice := null, highLimitPrice := price}
    ((h.call banding).statistics_.limit .high ≠ (0:Rat) ∧
      latestLimit .exact .high [banding] = (0:Rat)) ∧
    (h.call snapshot).statistics_.limit .high = (0:Rat) ∧
      latestLimit .exact .high [snapshot] ≠ (0:Rat) := by
  intro null price h banding snapshot
  have hstored : (h.call banding).statistics_.limit .high = Floats.exact.price null.toDecimal := rfl
  have hreceived : latestLimit .exact .high [snapshot] = Floats.exact.price price.toDecimal := rfl
  have hnull : mkRat (2^63-1) (10^7) ≠ 0 := by decide
  have hprice : mkRat 1000000000 (10^7) ≠ 0 := by decide
  rw [hstored, hreceived, limitPrice_exact, limitPrice_exact]
  exact ⟨⟨hnull,rfl⟩,rfl,hprice⟩

end InstrumentMdHandler

end CmeFeed
