import Mathlib.Data.List.Permutation
import CmeFeed.Definitions

/-!
# The dates of an instrument

The loop over the event group of a definition keeps two times. The case of the
activation falls through, so it sets both: the expiration date is the time of
whichever of the two events comes last.
-/

set_option autoImplicit false

namespace CmeFeed

open Reactive

namespace MDInstrumentDefinition

def timeOf (types : List EventType) (event : EventType × UInt64) : Option UInt64 :=
  if event.1 ∈ types then some event.2 else none

theorem eventTimes_register (d : MDInstrumentDefinition) : d.eventTimes =
    (register (timeOf [.Activation]) d.activationdatetime d.noEvents,
      register (timeOf [.Activation,.LastEligibleTradeDate]) d.expirydatetime d.noEvents) := by
  apply Prod.ext
  · apply foldl_register _ Prod.fst (timeOf [.Activation])
    rintro t ⟨type,time⟩
    cases type <;> rfl
  · apply foldl_register _ Prod.snd (timeOf [.Activation,.LastEligibleTradeDate])
    rintro t ⟨type,time⟩
    cases type <;> rfl

theorem filterMap_timeOf (types : List EventType) (events : List (EventType × UInt64)) :
    events.filterMap (timeOf types) = (events.filter (·.1 ∈ types)).map Prod.snd := by
  induction events with
  | nil => rfl
  | cons event events ih =>
    by_cases h : event.1 ∈ types
    · simp [timeOf, h, ih]
    · simp [timeOf, h, ih]

/-- One activation, one last trade date, and any events of other types. -/
structure HasDates (d : MDInstrumentDefinition) (a x : UInt64) : Prop where
  activation : d.noEvents.filter (·.1 = .Activation) = [(.Activation,a)]
  expiration : d.noEvents.filter (·.1 = .LastEligibleTradeDate) = [(.LastEligibleTradeDate,x)]

def ActivationFirst (d : MDInstrumentDefinition) (a x : UInt64) : Prop :=
  [(EventType.Activation,a),(.LastEligibleTradeDate,x)].Sublist d.noEvents

instance (d : MDInstrumentDefinition) (a x : UInt64) : Decidable (d.ActivationFirst a x) :=
  inferInstanceAs (Decidable (List.Sublist _ _))

def dates (d : MDInstrumentDefinition) : List (EventType × UInt64) :=
  d.noEvents.filter (·.1 ∈ [EventType.Activation,.LastEligibleTradeDate])

theorem HasDates.orders {d : MDInstrumentDefinition} {a x : UInt64} (h : d.HasDates a x) :
    d.dates = [(.Activation,a),(.LastEligibleTradeDate,x)] ∨
      d.dates = [(.LastEligibleTradeDate,x),(.Activation,a)] := by
  have hfirst : d.dates.filter (·.1 = .Activation) = [(.Activation,a)] := by
    rw [dates, List.filter_filter, ← h.activation]
    apply List.filter_congr
    rintro ⟨type,time⟩ -
    cases type <;> rfl
  have hsecond : d.dates.filter (fun e => !decide (e.1 = .Activation)) =
      [(.LastEligibleTradeDate,x)] := by
    rw [dates, List.filter_filter, ← h.expiration]
    apply List.filter_congr
    rintro ⟨type,time⟩ -
    cases type <;> rfl
  have hperm := List.filter_append_perm (fun e => decide (e.1 = .Activation)) d.dates
  rw [hfirst, hsecond] at hperm
  exact List.perm_pair.mp hperm.symm

theorem HasDates.activationFirst_iff {d : MDInstrumentDefinition} {a x : UInt64}
    (h : d.HasDates a x) :
    d.ActivationFirst a x ↔ d.dates = [(.Activation,a),(.LastEligibleTradeDate,x)] := by
  constructor
  · intro hfirst
    have hdates : [(EventType.Activation,a),(.LastEligibleTradeDate,x)].Sublist d.dates :=
      hfirst.filter fun e : EventType × UInt64 =>
        e.1 ∈ [EventType.Activation,.LastEligibleTradeDate]
    rcases h.orders with hd | hd
    · exact hd
    · rw [hd] at hdates
      exact absurd (hdates.eq_of_length rfl) (by simp)
  · intro hd
    rw [ActivationFirst, ← hd]
    exact List.filter_sublist

theorem HasDates.eventTimes {d : MDInstrumentDefinition} {a x : UInt64} (h : d.HasDates a x) :
    (d.ActivationFirst a x → d.eventTimes = (a,x)) ∧
      (¬d.ActivationFirst a x → d.eventTimes = (a,a)) := by
  have hactivation : d.noEvents.filterMap (timeOf [.Activation]) = [a] := by
    have hevents := h.activation
    rw [filterMap_timeOf]
    simp only [List.mem_singleton]
    rw [hevents]
    rfl
  have hboth : d.noEvents.filterMap (timeOf [.Activation,.LastEligibleTradeDate]) =
      d.dates.map Prod.snd := filterMap_timeOf _ _
  rw [h.activationFirst_iff, eventTimes_register, register, register, hactivation, hboth]
  constructor
  · intro hd
    rw [hd]
    rfl
  · intro hd
    rw [h.orders.resolve_left hd]
    rfl

theorem HasDates.perm {d d' : MDInstrumentDefinition} {a x : UInt64} (h : d.HasDates a x)
    (hperm : d'.noEvents.Perm d.noEvents) : d'.HasDates a x := by
  constructor
  · exact List.perm_singleton.mp (h.activation ▸ hperm.filter _)
  · exact List.perm_singleton.mp (h.expiration ▸ hperm.filter _)

theorem HasDates.reversed {d d' : MDInstrumentDefinition} {a x : UInt64} (h : d.HasDates a x)
    (hreverse : d'.noEvents = d.noEvents.reverse) :
    d'.ActivationFirst a x ↔ ¬d.ActivationFirst a x := by
  have hdates : d'.dates = d.dates.reverse := by rw [dates, dates, hreverse, List.filter_reverse]
  have h' : d'.HasDates a x := h.perm (hreverse ▸ List.reverse_perm _)
  rw [h.activationFirst_iff, h'.activationFirst_iff, hdates]
  rcases h.orders with hd | hd
  · simp [hd]
  · simp [hd]

def withEvents (d : MDInstrumentDefinition) (events : List (EventType × UInt64))
    (activationdatetime expirydatetime : UInt64) : MDInstrumentDefinition :=
  {d with noEvents := events, activationdatetime := activationdatetime
          expirydatetime := expirydatetime}

theorem withEvents_instrument (d : MDInstrumentDefinition) (events : List (EventType × UInt64))
    (activationdatetime expirydatetime : UInt64) :
    (d.withEvents events activationdatetime expirydatetime).instrument = d.instrument ↔
      (d.withEvents events activationdatetime expirydatetime).eventTimes = d.eventTimes := by
  constructor
  · intro h
    exact Prod.ext (congrArg Instrument.activationdatetime h)
      (congrArg Instrument.expirationdatetime h)
  · intro h
    unfold instrument
    rw [h]
    rfl

theorem HasDates.eventTimes_iff {d : MDInstrumentDefinition} {a x : UInt64}
    (h : d.HasDates a x) : d.eventTimes = (a,x) ↔ d.ActivationFirst a x ∨ a = x := by
  obtain ⟨hfirst,hlast⟩ := h.eventTimes
  by_cases hbefore : d.ActivationFirst a x
  · exact iff_of_true (hfirst hbefore) (Or.inl hbefore)
  · rw [hlast hbefore, or_iff_right hbefore, Prod.mk.injEq]
    exact and_iff_right rfl

theorem HasDates.orders_agree_iff {d : MDInstrumentDefinition} {a x : UInt64}
    (h : d.HasDates a x) :
    (∀ events activationdatetime expirydatetime, events.Perm d.noEvents →
      (d.withEvents events activationdatetime expirydatetime).eventTimes = d.eventTimes) ↔
        a = x := by
  constructor
  · intro hall
    have htimes := hall d.noEvents.reverse 0 0 (List.reverse_perm _)
    let reversed := d.withEvents d.noEvents.reverse 0 0
    have hreversed : reversed.ActivationFirst a x ↔ ¬d.ActivationFirst a x := h.reversed rfl
    have h' : reversed.HasDates a x := h.perm (List.reverse_perm _)
    obtain ⟨hfirst,hlast⟩ := h.eventTimes
    obtain ⟨hfirst',hlast'⟩ := h'.eventTimes
    by_cases hbefore : d.ActivationFirst a x
    · rw [hlast' fun hlater => hreversed.mp hlater hbefore, hfirst hbefore] at htimes
      exact congrArg Prod.snd htimes
    · rw [hfirst' (hreversed.mpr hbefore), hlast hbefore] at htimes
      exact (congrArg Prod.snd htimes).symm
  · rintro rfl events activationdatetime expirydatetime hperm
    have hevents : (d.withEvents events activationdatetime expirydatetime).HasDates a a :=
      h.perm hperm
    rw [h.eventTimes_iff.mpr (Or.inr rfl), hevents.eventTimes_iff.mpr (Or.inr rfl)]

end MDInstrumentDefinition

namespace SymbolController

theorem handleDefinition_added (c : SymbolController) {d : MDInstrumentDefinition}
    (hadd : d.securityUpdateAction = .Add) (hnew : c.instruments_ d.symbol = none) :
    (c.handleDefinition d).instruments_ d.symbol = some d.instrument := by
  rw [handleDefinition_entry, if_pos rfl, MDInstrumentDefinition.entry, hadd]
  exact if_pos hnew

/-- An instrument is added with the dates of its two events exactly if the
activation comes first or has the same time, and with the same dates in every
order of the events exactly if the times are the same. -/
theorem event_order (c : SymbolController) (d : MDInstrumentDefinition)
    (hadd : d.securityUpdateAction = .Add) (hnew : c.instruments_ d.symbol = none)
    (a x : UInt64) (hdates : d.HasDates a x) :
    ((∃ inst, (c.handleDefinition d).instruments_ d.symbol = some inst ∧
        inst.activationdatetime = a ∧ inst.expirationdatetime = x) ↔
      d.ActivationFirst a x ∨ a = x) ∧
    ((∀ events activationdatetime expirydatetime, events.Perm d.noEvents →
        (c.handleDefinition (d.withEvents events activationdatetime expirydatetime)).instruments_
          d.symbol = (c.handleDefinition d).instruments_ d.symbol) ↔ a = x) := by
  have hadded := c.handleDefinition_added hadd hnew
  constructor
  · rw [hadded, ← hdates.eventTimes_iff, Prod.ext_iff]
    simp only [Option.some_inj, exists_eq_left']
    rfl
  · rw [← hdates.orders_agree_iff]
    apply forall₄_congr
    intro events activationdatetime expirydatetime hperm
    have hevents : (c.handleDefinition
        (d.withEvents events activationdatetime expirydatetime)).instruments_ d.symbol =
          some (d.withEvents events activationdatetime expirydatetime).instrument :=
      c.handleDefinition_added hadd hnew
    rw [hevents, hadded, Option.some_inj, d.withEvents_instrument]

theorem event_order_sample :
    let d : MDInstrumentDefinition := {symbol := "ESH8", noEvents :=
      [(.Activation,10),(.other,5),(.LastEligibleTradeDate,20)]}
    ∃ inst, (initial.handleDefinition d).instruments_ d.symbol = some inst ∧
      inst.activationdatetime = 10 ∧ inst.expirationdatetime = 20 := by
  intro d
  exact (event_order initial d rfl rfl 10 20 ⟨rfl,rfl⟩).1.mpr (Or.inl (by decide))

/-- The same events the other way round: the activation is stored as the
expiration. -/
theorem event_order_reversed :
    let d : MDInstrumentDefinition := {symbol := "ESH8", noEvents :=
      [(.LastEligibleTradeDate,20),(.other,5),(.Activation,10)]}
    d.HasDates 10 20 ∧
      ((initial.handleDefinition d).instruments_ d.symbol).map (·.expirationdatetime) = some 10 ∧
      ¬∃ inst, (initial.handleDefinition d).instruments_ d.symbol = some inst ∧
        inst.activationdatetime = 10 ∧ inst.expirationdatetime = 20 := by
  intro d
  have hstored : ((initial.handleDefinition d).instruments_ d.symbol).map
      (·.expirationdatetime) = some 10 := rfl
  have hwrong : ¬∃ inst, (initial.handleDefinition d).instruments_ d.symbol = some inst ∧
      inst.activationdatetime = 10 ∧ inst.expirationdatetime = 20 := by
    rintro ⟨inst,hinst,-,hexpiration⟩
    rw [hinst, Option.map_some, hexpiration] at hstored
    exact absurd (Option.some.inj hstored) (by decide)
  exact ⟨⟨rfl,rfl⟩,hstored,hwrong⟩

end SymbolController

end CmeFeed
