import Mathlib.Data.List.Induction
import CmeFeed.Reactive.Run

/-!
# The multicast receiver

A receiver re-arms its receive operation in `Join` and at the end of
`HandleReceiveFrom`. Of the asynchronous operations the model has what the
source relies on: an operation waits on the open socket, a datagram turns a
waiting operation into a queued handler, closing the socket turns the waiting
operations, and no queued handler, into handlers with an error.
-/

set_option autoImplicit false

namespace CmeFeed

open Reactive

structure MulticastReceiver (D : Type) where
  joined_ : Bool := false
  socket_open : Bool := false
  /-- Receive operations waiting on the socket. -/
  waiting : ℕ := 0
  /-- Handlers queued with success, with the datagram each was completed by. -/
  ready : List D := []
  /-- Handlers queued with an error. -/
  failed : ℕ := 0
  data_ : Option D := none
  deriving DecidableEq, Repr

inductive ReceiverCall where
  | Join | Leave
  deriving DecidableEq, Repr

inductive ReceiverEvent (D : Type) where
  | datagram (d : D)
  /-- A handler queued with success runs; its callback makes the calls. -/
  | handled (calls : List ReceiverCall)
  /-- A handler queued with an error runs. -/
  | aborted
  /-- The handler of another object makes the call. -/
  | call (c : ReceiverCall)
  deriving DecidableEq, Repr

namespace MulticastReceiver

variable {D : Type}

def async_receive_from (r : MulticastReceiver D) : MulticastReceiver D :=
  if r.socket_open then {r with waiting := r.waiting+1} else {r with failed := r.failed+1}

def close (r : MulticastReceiver D) : MulticastReceiver D :=
  {r with socket_open := false, waiting := 0, failed := r.failed+r.waiting}

def leave (r : MulticastReceiver D) : MulticastReceiver D :=
  if r.joined_ then close {r with joined_ := false} else r

def join (r : MulticastReceiver D) : MulticastReceiver D :=
  if r.joined_ then r else async_receive_from {r with joined_ := true, socket_open := true}

def isActive (r : MulticastReceiver D) : Bool := r.joined_

def call (r : MulticastReceiver D) : ReceiverCall → MulticastReceiver D
  | .Join => r.join
  | .Leave => r.leave

def callStep (r : MulticastReceiver D) (c : ReceiverCall) :
    MulticastReceiver D × List (MulticastReceiver D) := (r.call c,[r.call c])

/-- `HandleReceiveFrom` without an error: the callback with its calls, then
the next receive. -/
def handleReceiveFrom (r : MulticastReceiver D) (calls : List ReceiverCall) :
    MulticastReceiver D × List (MulticastReceiver D) :=
  let s := run callStep r calls
  (s.1.async_receive_from,s.2++[s.1.async_receive_from])

/-- One event, with the states the receiver passes through; an event that is
not possible changes nothing. -/
def step (r : MulticastReceiver D) : ReceiverEvent D →
    MulticastReceiver D × List (MulticastReceiver D)
  | .datagram d =>
    if 0 < r.waiting then
      let s := {r with waiting := r.waiting-1, ready := r.ready++[d], data_ := some d}
      (s,[s])
    else (r,[])
  | .handled calls =>
    match r.ready with
    | [] => (r,[])
    | _::rest => handleReceiveFrom {r with ready := rest} calls
  | .aborted =>
    let s := {r with failed := r.failed-1}
    (s,[s])
  | .call c => callStep r c

def outstanding (r : MulticastReceiver D) : ℕ := r.waiting+r.ready.length

/-- The socket is open while the receiver is joined, nothing waits on a closed
socket, and the buffer holds the last datagram still to be handled. -/
structure WellFormed (r : MulticastReceiver D) : Prop where
  opened : r.socket_open = r.joined_
  closed : r.joined_ = false → r.waiting = 0
  stored : ∀ d ∈ r.ready.getLast?, r.data_ = some d

theorem join_wellFormed {r : MulticastReceiver D} (h : r.WellFormed) : r.join.WellFormed := by
  unfold join
  by_cases hj : r.joined_ = true
  · rw [if_pos hj]
    exact h
  · rw [if_neg hj]
    exact ⟨rfl,nofun,h.stored⟩

theorem leave_wellFormed {r : MulticastReceiver D} (h : r.WellFormed) : r.leave.WellFormed := by
  unfold leave
  split_ifs
  · exact ⟨rfl,fun _ => rfl,h.stored⟩
  · exact h

theorem call_wellFormed {r : MulticastReceiver D} (h : r.WellFormed) (c : ReceiverCall) :
    (r.call c).WellFormed := by
  cases c with
  | Join => exact join_wellFormed h
  | Leave => exact leave_wellFormed h

theorem async_receive_from_wellFormed {r : MulticastReceiver D} (h : r.WellFormed) :
    r.async_receive_from.WellFormed := by
  unfold async_receive_from
  by_cases ho : r.socket_open = true
  · rw [if_pos ho]
    constructor
    · exact h.opened
    · intro hj
      exact absurd (ho.symm.trans (h.opened.trans hj)) nofun
    · exact h.stored
  · rw [if_neg ho]
    exact ⟨h.opened,h.closed,h.stored⟩

theorem step_wellFormed {r : MulticastReceiver D} (h : r.WellFormed) (e : ReceiverEvent D) :
    (r.step e).1.WellFormed := by
  cases e with
  | datagram d =>
    unfold step
    split_ifs
    · constructor
      · exact h.opened
      · intro hj
        have := h.closed hj
        dsimp only
        omega
      · intro x hx
        dsimp only at hx
        rw [List.getLast?_concat] at hx
        exact congrArg some (Option.some.inj hx)
    · exact h
  | handled calls =>
    unfold step
    cases hr : r.ready with
    | nil => exact h
    | cons d rest =>
      have hpopped : WellFormed {r with ready := rest} := by
        constructor
        · exact h.opened
        · exact h.closed
        · intro x hx
          apply h.stored
          rw [hr, List.getLast?_cons, show rest.getLast? = some x from hx]
          rfl
      have hcalls := run_invariant callStep WellFormed (fun _ => True)
        (fun s c _ hs => call_wellFormed hs c) {r with ready := rest} calls (fun _ _ => trivial)
        hpopped
      exact async_receive_from_wellFormed hcalls
  | aborted => exact ⟨h.opened,h.closed,h.stored⟩
  | call c => exact call_wellFormed h c

/-- The calls leave the receiver joined, by a `Join` that was made among them
and took effect. -/
def Rejoins (joined : Bool) (calls : List ReceiverCall) : Prop :=
  calls.getLast? = some .Join ∧ (joined = false ∨ .Leave ∈ calls)

instance (joined : Bool) (calls : List ReceiverCall) : Decidable (Rejoins joined calls) :=
  inferInstanceAs (Decidable (_ ∧ _))

structure Called (r : MulticastReceiver D) (calls : List ReceiverCall)
    (s : MulticastReceiver D) : Prop where
  wellFormed : s.WellFormed
  ready : s.ready = []
  joined : s.joined_ = true ↔ (calls.getLast?.getD (if r.joined_ then .Join else .Leave)) = .Join
  waiting : s.waiting = if s.joined_ = true ∧ (r.joined_ = false ∨ .Leave ∈ calls) then 1 else 0

theorem called_nil {r : MulticastReceiver D} (h : r.WellFormed) (hready : r.ready = [])
    (hwaiting : r.waiting = 0) : Called r [] r := by
  constructor
  · exact h
  · exact hready
  · cases r.joined_ <;> simp
  · rw [hwaiting]
    cases r.joined_ <;> simp

theorem called_left {r s : MulticastReceiver D} {calls : List ReceiverCall}
    (h : Called r calls s) (hs : s.joined_ = false) : r.joined_ = false ∨ .Leave ∈ calls := by
  have hlast : ¬calls.getLast?.getD (if r.joined_ then .Join else .Leave) = .Join :=
    fun hl => absurd (hs.symm.trans (h.joined.mpr hl)) nofun
  cases hl : calls.getLast? with
  | none =>
    left
    rw [hl] at hlast
    cases hj : r.joined_ with
    | false => rfl
    | true => exact absurd (by rw [hj]; rfl) hlast
  | some c =>
    right
    rw [hl] at hlast
    cases c with
    | Join => exact absurd rfl hlast
    | Leave => exact List.mem_of_getLast? hl

theorem called_snoc {r s : MulticastReceiver D} {calls : List ReceiverCall}
    (h : Called r calls s) (c : ReceiverCall) : Called r (calls++[c]) (s.call c) := by
  have hlast : (calls++[c]).getLast?.getD (if r.joined_ then .Join else .Leave) = c := by simp
  have hwell := call_wellFormed h.wellFormed c
  cases c with
  | Leave =>
    have hleft : (s.call .Leave).joined_ = false ∧ (s.call .Leave).ready = [] := by
      change s.leave.joined_ = false ∧ s.leave.ready = []
      unfold leave
      by_cases hj : s.joined_ = true
      · rw [if_pos hj]
        exact ⟨rfl,h.ready⟩
      · rw [if_neg hj]
        exact ⟨by simpa using hj,h.ready⟩
    constructor
    · exact hwell
    · exact hleft.2
    · rw [hlast, hleft.1]
      simp
    · rw [hwell.closed hleft.1, hleft.1]
      simp
  | Join =>
    by_cases hj : s.joined_ = true
    · have hsame : s.call .Join = s := if_pos hj
      rw [hsame] at hwell ⊢
      refine ⟨hwell,h.ready,iff_of_true hj hlast, ?_⟩
      rw [h.waiting]
      simp
    · have hleft : s.joined_ = false := by simpa using hj
      have hjoined : s.call .Join =
          {s with joined_ := true, socket_open := true, waiting := s.waiting+1} := if_neg hj
      rw [hjoined] at hwell ⊢
      refine ⟨hwell,h.ready,iff_of_true rfl hlast, ?_⟩
      have hmem := called_left h hleft
      rw [h.wellFormed.closed hleft, if_pos ⟨rfl,hmem.imp_right (by simp [·])⟩]

theorem run_calls {r : MulticastReceiver D} (h : r.WellFormed) (hready : r.ready = [])
    (hwaiting : r.waiting = 0) (calls : List ReceiverCall) :
    Called r calls (run callStep r calls).1 ∧
      ∀ t ∈ (run callStep r calls).2, t.outstanding ≤ 1 := by
  induction calls using List.reverseRecOn with
  | nil => exact ⟨called_nil h hready hwaiting,nofun⟩
  | append_singleton calls c ih =>
    rw [run_append, run_singleton]
    have hcalled := called_snoc ih.1 c
    constructor
    · exact hcalled
    · intro t ht
      rcases List.mem_append.mp ht with ht | ht
      · exact ih.2 t ht
      · rw [List.mem_singleton.mp ht]
        unfold outstanding
        rw [hcalled.ready, hcalled.waiting]
        split_ifs <;> simp

/-- The next receive after the callback is the only one exactly if the calls
did not rejoin. -/
theorem rearm_outstanding {r s : MulticastReceiver D} {calls : List ReceiverCall}
    (h : Called r calls s) : s.async_receive_from.outstanding ≤ 1 ↔ ¬Rejoins r.joined_ calls := by
  unfold async_receive_from outstanding
  by_cases hj : s.joined_ = true
  · have hrejoins : Rejoins r.joined_ calls ↔ (r.joined_ = false ∨ .Leave ∈ calls) := by
      refine ⟨fun hr => hr.2,fun hr => ⟨?_,hr⟩⟩
      have hlast := h.joined.mp hj
      cases hl : calls.getLast? with
      | none =>
        rw [List.getLast?_eq_none_iff.mp hl] at hr hlast
        rw [hr.resolve_right List.not_mem_nil] at hlast
        exact absurd hlast nofun
      | some c =>
        rw [hl] at hlast
        exact congrArg some hlast
    rw [if_pos (h.wellFormed.opened.trans hj)]
    dsimp only
    rw [h.ready, h.waiting, hrejoins]
    by_cases hfresh : r.joined_ = false ∨ .Leave ∈ calls
    · rw [if_pos ⟨hj,hfresh⟩]
      exact iff_of_false (by simp) (fun hn => hn hfresh)
    · rw [if_neg fun hboth => hfresh hboth.2]
      exact iff_of_true (by simp) hfresh
  · have hleft : s.joined_ = false := by simpa using hj
    rw [if_neg fun ho => hj (h.wellFormed.opened.symm.trans ho)]
    dsimp only
    rw [h.ready, h.wellFormed.closed hleft]
    refine iff_of_true (Nat.zero_le 1) fun hr => hj (h.joined.mpr ?_)
    rw [hr.1]
    rfl

/-- The event starts no second receive: a `Join` that takes effect finds no
handler queued with success, and a callback does not rejoin. -/
def Harmless (r : MulticastReceiver D) : ReceiverEvent D → Prop
  | .handled calls => r.ready ≠ [] → ¬Rejoins r.joined_ calls
  | .call .Join => r.joined_ = false → r.ready = []
  | _ => True

def Exclusive (r : MulticastReceiver D) (passed : List (MulticastReceiver D)) : Prop :=
  r.outstanding ≤ 1 ∧ ∀ t ∈ passed, t.outstanding ≤ 1

theorem exclusive_step {r s : MulticastReceiver D} {passed new : List (MulticastReceiver D)}
    (h : Exclusive r passed) (hnew : ∀ t ∈ new, t.outstanding ≤ 1 ∨ t = s) :
    Exclusive s (passed++new) ↔ s.outstanding ≤ 1 := by
  constructor
  · exact fun hs => hs.1
  · intro hs
    constructor
    · exact hs
    · intro t ht
      rcases List.mem_append.mp ht with ht | ht
      · exact h.2 t ht
      · rcases hnew t ht with hle | rfl
        · exact hle
        · exact hs

theorem leave_outstanding {r : MulticastReceiver D} (h : r.outstanding ≤ 1) :
    r.leave.outstanding ≤ 1 := by
  unfold outstanding at *
  unfold leave
  split_ifs
  · change 0+r.ready.length ≤ 1
    omega
  · exact h

theorem join_outstanding {r : MulticastReceiver D} (hr : r.WellFormed) (h : r.outstanding ≤ 1) :
    r.join.outstanding ≤ 1 ↔ Harmless r (.call .Join) := by
  by_cases hj : r.joined_ = true
  · rw [show r.join = r from if_pos hj]
    exact iff_of_true h fun hn => absurd (hj.symm.trans hn) nofun
  · have hleft : r.joined_ = false := by simpa using hj
    have hjoined : r.join = {r with
        joined_ := true, socket_open := true, waiting := r.waiting+1} := if_neg hj
    have hharmless : Harmless r (.call .Join) ↔ r.ready.length = 0 :=
      ⟨fun hh => by rw [hh hleft]; rfl,fun hn _ => List.eq_nil_of_length_eq_zero hn⟩
    rw [hjoined, hharmless]
    unfold outstanding
    dsimp only
    rw [hr.closed hleft]
    omega

/-- The handler that runs is the only one queued, and arms one operation unless
its calls have armed one. -/
theorem handled_exclusive {r : MulticastReceiver D} {passed : List (MulticastReceiver D)}
    (hr : r.WellFormed) (h : Exclusive r passed) (calls : List ReceiverCall) :
    Exclusive (r.step (.handled calls)).1 (passed++(r.step (.handled calls)).2) ↔
      Harmless r (.handled calls) := by
  have hle : r.waiting+r.ready.length ≤ 1 := h.1
  unfold step
  cases hready : r.ready with
  | nil =>
    apply iff_of_true
    · rwa [List.append_nil]
    · exact fun hne => absurd hready hne
  | cons d rest =>
    rw [hready, List.length_cons] at hle
    have hrest : rest = [] := List.eq_nil_of_length_eq_zero (by omega)
    subst hrest
    have hpopped : WellFormed {r with ready := []} := ⟨hr.opened,hr.closed,nofun⟩
    obtain ⟨hcalled,hpassed⟩ := run_calls hpopped rfl (show r.waiting = 0 by omega) calls
    have hnew : ∀ t ∈ (handleReceiveFrom {r with ready := []} calls).2,
        t.outstanding ≤ 1 ∨ t = (handleReceiveFrom {r with ready := []} calls).1 := by
      intro t ht
      rcases List.mem_append.mp ht with ht | ht
      · exact Or.inl (hpassed t ht)
      · exact Or.inr (List.mem_singleton.mp ht)
    have hharmless : Harmless r (.handled calls) ↔ ¬Rejoins r.joined_ calls :=
      ⟨fun hh => hh (by simp [hready]),fun hn _ => hn⟩
    exact ((exclusive_step h hnew).trans (rearm_outstanding hcalled)).trans hharmless.symm

theorem step_exclusive (r : MulticastReceiver D) (e : ReceiverEvent D)
    (passed : List (MulticastReceiver D)) (hr : r.WellFormed) (h : Exclusive r passed) :
    Exclusive (r.step e).1 (passed++(r.step e).2) ↔ Harmless r e := by
  have hone : ∀ s : MulticastReceiver D, Exclusive s (passed++[s]) ↔ s.outstanding ≤ 1 :=
    fun s => exclusive_step h fun t ht => Or.inr (List.mem_singleton.mp ht)
  cases e with
  | datagram d =>
    refine iff_of_true ?_ trivial
    unfold step
    split_ifs with hw
    · have hle : r.waiting+r.ready.length ≤ 1 := h.1
      apply (hone _).mpr
      change r.waiting-1+(r.ready++[d]).length ≤ 1
      rw [List.length_append, List.length_singleton]
      omega
    · rwa [List.append_nil]
  | handled calls => exact handled_exclusive hr h calls
  | aborted => exact iff_of_true ((hone _).mpr h.1) trivial
  | call c =>
    cases c with
    | Leave => exact iff_of_true ((hone r.leave).mpr (leave_outstanding h.1)) trivial
    | Join => exact (hone r.join).trans (join_outstanding hr h.1)

/-- The handler that runs next finds in the buffer the datagram its operation
was completed by. -/
def Reads (r : MulticastReceiver D) : Prop := ∀ d ∈ r.ready.head?, r.data_ = some d

theorem reads_of_outstanding {r : MulticastReceiver D} (hr : r.WellFormed)
    (h : r.outstanding ≤ 1) : r.Reads := by
  intro d hd
  apply hr.stored
  unfold outstanding at h
  cases hready : r.ready with
  | nil =>
    rw [hready] at hd
    exact absurd hd nofun
  | cons x rest =>
    rw [hready, List.length_cons] at h
    have hrest : rest = [] := List.eq_nil_of_length_eq_zero (by omega)
    rw [hready] at hd
    rw [hrest]
    exact hd

theorem step_exclusive_reads (r : MulticastReceiver D) (e : ReceiverEvent D)
    (passed : List (MulticastReceiver D)) (hr : r.WellFormed) (h : Exclusive r passed) :
    (Exclusive (r.step e).1 (passed++(r.step e).2) ∧ (r.step e).1.Reads) ↔ Harmless r e :=
  (and_iff_left_of_imp fun hs => reads_of_outstanding (step_wellFormed hr e) hs.1).trans
    (step_exclusive r e passed hr h)

/-- From construction on, at most one receive is outstanding throughout a run,
and no datagram is overwritten before its handler has run, exactly if every
event of the run is harmless. -/
theorem receive_exclusive (events : List (ReceiverEvent D)) :
    (∀ pre post, events = pre++post →
        let r := run step ({} : MulticastReceiver D) pre
        Exclusive r.1 r.2 ∧ r.1.Reads) ↔
      ∀ pre e post, events = pre++e::post →
        Harmless (run step ({} : MulticastReceiver D) pre).1 e :=
  run_always_iff step (fun r _ => r.WellFormed) (fun r passed => Exclusive r passed ∧ r.Reads)
    Harmless (fun _ e _ hr => step_wellFormed hr e)
    (fun r e _ passed hr h => step_exclusive_reads r e passed hr h.1) {} events []
    ⟨rfl,fun _ => rfl,nofun⟩ ⟨⟨Nat.zero_le 1,nofun⟩,nofun⟩

/-- A datagram is queued when the feed is left and joined again: the new
receive overwrites it before its handler has run. -/
theorem rejoined_receiver_overwrites :
    let r := (run step ({} : MulticastReceiver ℕ)
      [.call .Join,.datagram 1,.call .Leave,.call .Join]).1
    r.outstanding = 2 ∧ (r.step (.datagram 2)).1.ready = [1,2] ∧
      (r.step (.datagram 2)).1.data_ = some 2 := by
  decide

end MulticastReceiver

end CmeFeed
