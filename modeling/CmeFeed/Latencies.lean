import CmeFeed.Host

/-!
# The times in a message

`timings` is one record for the whole program: the reset of a packet, the commit
of a handler and the sending of a message each write the time to a field of
their own, and every message carries all four. The differences are the latencies
the host logs. They belong together because nothing comes between the writes.
-/

set_option autoImplicit false

namespace CmeFeed

open Reactive

variable {F : Floats}

/-- What reads the clock. -/
inductive Stamp (F : Floats) where
  | Reset
  | Commit
  | OnQuote (securityid : UInt64) (book : DepthBook F.Float)

def quoted (stamps : List (Stamp F)) : List (UInt64 × DepthBook F.Float) :=
  stamps.filterMap fun
    | .OnQuote securityid book => some (securityid,book)
    | _ => none

theorem quoted_append (a b : List (Stamp F)) : quoted (a++b) = quoted a ++ quoted b :=
  List.filterMap_append

theorem quoted_flatMap {A : Type} (f : A → List (Stamp F)) (as : List A) :
    quoted (as.flatMap f) = as.flatMap fun a => quoted (f a) := by
  induction as with
  | nil => rfl
  | cons a as ih => rw [List.flatMap_cons, quoted_append, ih, List.flatMap_cons]

structure Stopwatch where
  timings : Timings := ⟨0,0,0,0⟩
  readings : ℕ := 0

def Stopwatch.step (widen : F.Float → F.Double) (now : ℕ → ℤ) (w : Stopwatch) :
    Stamp F → Stopwatch × List (Depth F)
  | .Reset => ({timings := {w.timings with rec_ts := now w.readings}
                readings := w.readings+1},[])
  | .Commit => ({timings := {w.timings with dec_ts := now w.readings}
                 readings := w.readings+1},[])
  | .OnQuote securityid book =>
    let timings := {w.timings with presend_ts := now w.readings, send_ts := now (w.readings+1)}
    ({timings := timings, readings := w.readings+2},[onQuote widen timings securityid book])

/-- `Commit` takes the time first, whether anything has changed or not. -/
def InstrumentMdHandler.commitStamps (h : InstrumentMdHandler F) : List (Stamp F) :=
  .Commit::(notified h.commit.2).map fun n => .OnQuote n.1 n.2

def ChannelController.commitStamps (cc : ChannelController F) : List (Stamp F) :=
  cc.instrument_controllers_.map.toList.flatMap fun p => p.2.mdhandler_.commitStamps

namespace ChannelImpl

/-- The handler of a receive resets the packet before it hands it on. -/
def callStamps (ch : ChannelImpl F) (c : LoopCall) : List (Stamp F) :=
  let commits := ChannelController.commits ch.channel_controller_ (ch.inputs c.publicCall)
  match c with
  | .OnPacket _ _ _ => .Reset::commits.flatMap ChannelController.commitStamps
  | .client _ => commits.flatMap ChannelController.commitStamps

def loopStamps (ch : ChannelImpl F) (e : LoopEvent) : List (Stamp F) :=
  (ch.loopStep e).2.flatMap ch.callStamps

def timedStep (widen : F.Float → F.Double) (now : ℕ → ℤ) :
    ChannelImpl F × Stopwatch → LoopEvent → (ChannelImpl F × Stopwatch) × List (Depth F) :=
  piped loopStep loopStamps (Stopwatch.step widen now)

theorem loopStep_calls (ch : ChannelImpl F) (e : LoopEvent) :
    (ch.loopStep e).2 = [] ∨ (∃ c, e = .client c ∧ (ch.loopStep e).2 = [.client c]) ∨
      ∃ type feed data, e = .handled type feed ∧
        (ch.loopStep e).2 = [.OnPacket type feed data] := by
  cases e with
  | datagram t f d => exact Or.inl rfl
  | aborted t f => exact Or.inl rfl
  | client c => exact Or.inr (Or.inl ⟨c,rfl,rfl⟩)
  | handled t f =>
    unfold loopStep
    dsimp only
    cases (ch.receiver t f).ready with
    | nil => exact Or.inl rfl
    | cons d rest =>
      cases (ch.receiver t f).data_ with
      | none => exact Or.inl rfl
      | some data => exact Or.inr (Or.inr ⟨t,f,data,rfl,rfl⟩)

end ChannelImpl

theorem InstrumentMdHandler.commitStamps_quoted (h : InstrumentMdHandler F) :
    quoted h.commitStamps = notified h.commit.2 := by
  have hbooks : ∀ books : List (UInt64 × DepthBook F.Float),
      quoted (books.map fun n => Stamp.OnQuote n.1 n.2) = books := by
    intro books
    induction books with
    | nil => rfl
    | cons n books ih => exact congrArg (n::·) ih
  exact hbooks (notified h.commit.2)

theorem ChannelController.commitStamps_quoted (cc : ChannelController F) :
    quoted cc.commitStamps = notified cc.commit.2 := by
  unfold commitStamps commit Controllers.commit
  rw [quoted_flatMap, notified_flatMap]
  exact List.flatMap_congr fun p _ => p.2.mdhandler_.commitStamps_quoted

namespace ChannelImpl

theorem callStamps_quoted (ch : ChannelImpl F) (c : LoopCall) :
    quoted (ch.callStamps c) = ch.refreshes c.publicCall := by
  have hcommits : ∀ commits : List (ChannelController F),
      quoted (commits.flatMap ChannelController.commitStamps) =
        commits.flatMap fun t => notified t.commit.2 := by
    intro commits
    rw [quoted_flatMap]
    exact List.flatMap_congr fun t _ => t.commitStamps_quoted
  unfold callStamps refreshes
  rw [ChannelController.run_notified]
  cases c with
  | OnPacket type feed data => exact hcommits _
  | client c => exact hcommits _

theorem loopStamps_quoted (ch : ChannelImpl F) (e : LoopEvent) :
    quoted (ch.loopStamps e) = (ch.refreshStep e).2 := by
  unfold loopStamps refreshStep loopInputs
  rcases ch.loopStep_calls e with hcalls | ⟨c,-,hcalls⟩ | ⟨t,f,data,-,hcalls⟩
  · rw [hcalls]
    rfl
  · rw [hcalls, List.flatMap_singleton, List.flatMap_singleton]
    exact ch.callStamps_quoted _
  · rw [hcalls, List.flatMap_singleton, List.flatMap_singleton]
    exact ch.callStamps_quoted _

theorem run_quoted (ch : ChannelImpl F) (events : List LoopEvent) :
    quoted (observe loopStep loopStamps ch events) = (run refreshStep ch events).2 := by
  induction events generalizing ch with
  | nil => rfl
  | cons e events ih =>
    rw [observe, quoted_append, loopStamps_quoted, ih, run_cons]
    rfl

end ChannelImpl

theorem Stopwatch.run_messages (widen : F.Float → F.Double) (now : ℕ → ℤ) (w : Stopwatch)
    (stamps : List (Stamp F)) : ∃ clock : ℕ → Timings,
      (run (step widen now) w stamps).2 = hostMessages widen clock (quoted stamps) := by
  induction stamps generalizing w with
  | nil => exact ⟨fun _ => w.timings,rfl⟩
  | cons stamp stamps ih =>
    obtain ⟨clock,hclock⟩ := ih (step widen now w stamp).1
    rw [run_cons, hclock]
    cases stamp with
    | Reset => exact ⟨clock,rfl⟩
    | Commit => exact ⟨clock,rfl⟩
    | OnQuote securityid book =>
      -- the message of this book comes first
      refine ⟨fun n => n.casesOn (step widen now w (.OnQuote securityid book)).1.timings clock,?_⟩
      rw [show quoted (.OnQuote securityid book::stamps) =
        (securityid,book)::quoted stamps from rfl]
      unfold hostMessages
      rw [List.mapIdx_cons]
      rfl

/-- The times in the two messages of a commit. The first number is that of the
reading by the reset, the second one that of the reading by the commit. -/
def pairTimes (now : ℕ → ℤ) (t : ℕ × ℕ) : List (List ℤ) :=
  [[now t.1,now t.2,now (t.2+1),now (t.2+2)],[now t.1,now t.2,now (t.2+3),now (t.2+4)]]

/-- The messages sent between two states of the stopwatch come in pairs, whose
commits are between these states. -/
structure Sends (now : ℕ → ℤ) (w w' : Stopwatch) (messages : List (Depth F))
    (ts : List (ℕ × ℕ)) : Prop where
  le : w.readings ≤ w'.readings
  times : messages.map Depth.timestamps = ts.flatMap (pairTimes now)
  within : ∀ t ∈ ts, t.1 < t.2 ∧ w.readings ≤ t.2 ∧ t.2+5 ≤ w'.readings
  sorted : ts.Pairwise fun a b => a.1 ≤ b.1 ∧ a.2+5 ≤ b.2

namespace Sends

variable {now : ℕ → ℤ} {u v w : Stopwatch}

theorem nil (h : v.readings ≤ w.readings) : Sends now v w ([] : List (Depth F)) [] :=
  ⟨h,rfl,nofun,.nil⟩

theorem append {a b : List (Depth F)} {s t : List (ℕ × ℕ)} (ha : Sends now u v a s)
    (hb : Sends now v w b t) (hle : ∀ x ∈ s, ∀ y ∈ t, x.1 ≤ y.1) :
    Sends now u w (a++b) (s++t) := by
  constructor
  · exact ha.le.trans hb.le
  · rw [List.map_append, ha.times, hb.times, List.flatMap_append]
  · intro x hx
    rcases List.mem_append.mp hx with hx | hx
    · obtain ⟨hlt,hfrom,hto⟩ := ha.within x hx
      exact ⟨hlt,hfrom,hto.trans hb.le⟩
    · obtain ⟨hlt,hfrom,hto⟩ := hb.within x hx
      exact ⟨hlt,ha.le.trans hfrom,hto⟩
  · refine List.pairwise_append.mpr ⟨ha.sorted,hb.sorted,fun x hx y hy => ⟨hle x hx y hy,?_⟩⟩
    exact (ha.within x hx).2.2.trans (hb.within y hy).2.1

end Sends

def KeepsReset (widen : F.Float → F.Double) (now : ℕ → ℤ) (stamps : List (Stamp F)) : Prop :=
  ∀ (w : Stopwatch) (r : ℕ), w.timings.rec_ts = now r → r < w.readings →
    let end_ := run (Stopwatch.step widen now) w stamps
    end_.1.timings.rec_ts = now r ∧
      ∃ ts : List (ℕ × ℕ), Sends now w end_.1 end_.2 ts ∧ ∀ t ∈ ts, t.1 = r

section
variable {widen : F.Float → F.Double} {now : ℕ → ℤ}

theorem KeepsReset.append {a b : List (Stamp F)} (ha : KeepsReset widen now a)
    (hb : KeepsReset widen now b) : KeepsReset widen now (a++b) := by
  intro w r hrec hr
  obtain ⟨hmid,s,hs,hsr⟩ := ha w r hrec hr
  obtain ⟨hend,t,ht,htr⟩ := hb _ r hmid (hr.trans_le hs.le)
  rw [run_append]
  refine ⟨hend,s++t,hs.append ht fun x hx y hy => ((hsr x hx).trans (htr y hy).symm).le,?_⟩
  intro x hx
  rcases List.mem_append.mp hx with hx | hx
  · exact hsr x hx
  · exact htr x hx

theorem keepsReset_flatMap {A : Type} {f : A → List (Stamp F)} (h : ∀ a, KeepsReset widen now (f a))
    (as : List A) : KeepsReset widen now (as.flatMap f) := by
  induction as with
  | nil => exact fun w r hrec _ => ⟨hrec,[],.nil le_rfl,nofun⟩
  | cons a as ih =>
    rw [List.flatMap_cons]
    exact (h a).append ih

theorem InstrumentMdHandler.commitStamps_keepsReset (h : InstrumentMdHandler F) :
    KeepsReset widen now h.commitStamps := by
  intro w r hrec hr
  unfold commitStamps commit
  split_ifs
  · refine ⟨hrec,[(r,w.readings)],⟨?_,?_,?_,?_⟩,by simp⟩
    · exact Nat.le_add_right w.readings 5
    · rw [List.flatMap_singleton, pairTimes, ← hrec]
      rfl
    · intro t ht
      rw [List.mem_singleton.mp ht]
      exact ⟨hr,le_rfl,le_rfl⟩
    · exact List.pairwise_singleton _ _
  · exact ⟨hrec,[],.nil (Nat.le_add_right w.readings 1),nofun⟩

theorem ChannelController.commitStamps_keepsReset (cc : ChannelController F) :
    KeepsReset widen now cc.commitStamps :=
  keepsReset_flatMap (fun p => p.2.mdhandler_.commitStamps_keepsReset) _

namespace ChannelImpl

theorem timedStep_sends (widen : F.Float → F.Double) (now : ℕ → ℤ)
    (p : ChannelImpl F × Stopwatch) {e : LoopEvent} (he : ∀ c, e ≠ .client c) :
    let next := timedStep widen now p e
    ∃ ts : List (ℕ × ℕ), Sends now p.2 next.1.2 next.2 ts ∧
      ∀ t ∈ ts, t.1 = p.2.readings ∧ ∃ type feed, e = .handled type feed := by
  unfold timedStep piped loopStamps
  dsimp only
  rcases p.1.loopStep_calls e with hcalls | ⟨c,hclient,-⟩ | ⟨type,feed,data,hhandled,hcalls⟩
  · rw [hcalls]
    exact ⟨[],.nil le_rfl,nofun⟩
  · exact absurd hclient (he c)
  · rw [hcalls, List.flatMap_singleton]
    set commits := ChannelController.commits p.1.channel_controller_
      (p.1.inputs (LoopCall.OnPacket type feed data).publicCall)
    have hkeeps : KeepsReset widen now (commits.flatMap ChannelController.commitStamps) :=
      keepsReset_flatMap (fun t => t.commitStamps_keepsReset) commits
    set reset := (Stopwatch.step (F := F) widen now p.2 .Reset).1
    obtain ⟨-,ts,hsends,hts⟩ := hkeeps reset p.2.readings rfl (Nat.lt_succ_self _)
    have hle : p.2.readings ≤ reset.readings := Nat.le_succ _
    refine ⟨ts,⟨hle.trans hsends.le,hsends.times,fun t ht => ?_,hsends.sorted⟩,
      fun t ht => ⟨hts t ht,type,feed,hhandled⟩⟩
    obtain ⟨hlt,hfrom,hto⟩ := hsends.within t ht
    exact ⟨hlt,hle.trans hfrom,hto⟩

/-- Along a run, all times of a pair of messages are read in one handler, whose
first reading is that of the reset. -/
theorem run_sends (widen : F.Float → F.Double) (now : ℕ → ℤ)
    (p : ChannelImpl F × Stopwatch) {events : List LoopEvent}
    (hevents : ∀ e ∈ events, ∀ c, e ≠ .client c) :
    let end_ := run (timedStep widen now) p events
    ∃ ts : List (ℕ × ℕ), Sends now p.2 end_.1.2 end_.2 ts ∧
      ∀ t ∈ ts, p.2.readings ≤ t.1 ∧ ∃ pre type feed post,
        events = pre++.handled type feed::post ∧
        t.1 = (run (timedStep widen now) p pre).1.2.readings ∧
        t.2+5 ≤ (run (timedStep widen now) p (pre++[.handled type feed])).1.2.readings := by
  induction events generalizing p with
  | nil => exact ⟨[],.nil le_rfl,nofun⟩
  | cons e events ih =>
    obtain ⟨s,hs,hfirst⟩ := timedStep_sends widen now p (hevents e List.mem_cons_self)
    obtain ⟨t,ht,hrest⟩ := ih (timedStep widen now p e).1 fun x hx => hevents x (by simp [hx])
    refine ⟨s++t,hs.append ht fun x hx y hy => ?_,fun x hx => ?_⟩
    · rw [(hfirst x hx).1]
      exact hs.le.trans (hrest y hy).1
    · rcases List.mem_append.mp hx with hx | hx
      · obtain ⟨hreset,type,feed,rfl⟩ := hfirst x hx
        refine ⟨hreset.ge,[],type,feed,events,rfl,hreset,?_⟩
        rw [List.nil_append, run_singleton]
        exact (hs.within x hx).2.2
      · obtain ⟨hle,pre,type,feed,post,rfl,hreset,hcommit⟩ := hrest x hx
        exact ⟨hs.le.trans hle,e::pre,type,feed,post,rfl,hreset,hcommit⟩

end ChannelImpl

end

theorem pairTimes_sorted {now : ℕ → ℤ} (hnow : ∀ m n, m ≤ n → now m ≤ now n) {t : ℕ × ℕ}
    (ht : t.1 < t.2) : ∀ times ∈ pairTimes now t, times.Pairwise (· ≤ ·) := by
  have hread : ∀ k, ([t.1,t.2,t.2+k+1,t.2+k+2].map now).Pairwise (· ≤ ·) := by
    intro k
    refine List.Pairwise.map now hnow ?_
    simp only [List.pairwise_cons, List.mem_cons, List.not_mem_nil, or_false, forall_eq_or_imp,
      forall_eq]
    refine ⟨⟨ht.le,?_,?_⟩,⟨?_,?_⟩,?_,nofun,.nil⟩ <;> omega
  intro times htimes
  rcases List.mem_pair.mp htimes with rfl | rfl
  · exact hread 0
  · exact hread 2

/-- For every order of datagrams and handlers, the messages that the plugin sends
are those of a run without a clock. They are sent in pairs, and the times in a
pair are read, in their order, within one handler, the one of the reset as its
first reading. So with a clock that is not set back no latency is negative. -/
theorem host_latencies (widen : F.Float → F.Double) (now : ℕ → ℤ)
    (memory : UInt32 → Indeterminate) (handler : Listener) (events : List ChannelImpl.LoopEvent)
    (hevents : ∀ e ∈ events, ∀ c, e ≠ .client c) :
    let plugin : ListenedChannel F := pluginStart memory handler
    let r := run ListenedChannel.loopStep plugin events
    let timed := run (ChannelImpl.timedStep widen now) (plugin.impl,({} : Stopwatch))
    (timed events).1.1 = r.1.impl ∧
      (∃ clock, (timed events).2 = hostMessages widen clock (r.2.map Prod.snd)) ∧
      (∃ ts : List (ℕ × ℕ), (timed events).2.map Depth.timestamps = ts.flatMap (pairTimes now) ∧
        (ts.Pairwise fun a b => a.1 ≤ b.1 ∧ a.2+5 ≤ b.2) ∧
        ∀ t ∈ ts, ∃ pre type feed post, events = pre++.handled type feed::post ∧
          t.1 = (timed pre).1.2.readings ∧ t.1 < t.2 ∧
          t.2+5 ≤ (timed (pre++[.handled type feed])).1.2.readings) ∧
      ((∀ m n, m ≤ n → now m ≤ now n) → ∀ m ∈ (timed events).2, m.timestamps.Pairwise (· ≤ ·)) := by
  intro plugin r timed
  obtain ⟨ts,hsends,hts⟩ := ChannelImpl.run_sends widen now (plugin.impl,({} : Stopwatch)) hevents
  have hrun : r = ({plugin with impl := (run ChannelImpl.refreshStep plugin.impl events).1},
      plugin.quotes (run ChannelImpl.refreshStep plugin.impl events).2) :=
    plugin.run_loopStep events
  have htimed : timed events = _ := run_piped ChannelImpl.loopStep ChannelImpl.loopStamps
    (Stopwatch.step widen now) plugin.impl {} events
  refine ⟨?_,?_,⟨ts,hsends.times,hsends.sorted,fun t ht => ?_⟩,fun hnow m hm => ?_⟩
  · rw [htimed, hrun]
    exact (ChannelImpl.run_refreshStep plugin.impl events).symm
  · have hbooks : r.2.map Prod.snd = (run ChannelImpl.refreshStep plugin.impl events).2 := by
      rw [hrun]
      exact quotes_one plugin rfl _
    rw [htimed, hbooks, ← ChannelImpl.run_quoted]
    exact Stopwatch.run_messages widen now {} _
  · obtain ⟨-,pre,type,feed,post,heq,hreset,hcommit⟩ := hts t ht
    exact ⟨pre,type,feed,post,heq,hreset,(hsends.within t ht).1,hcommit⟩
  · have hmem : m.timestamps ∈ ts.flatMap (pairTimes now) := by
      rw [← hsends.times]
      exact List.mem_map_of_mem hm
    obtain ⟨t,ht,hpair⟩ := List.mem_flatMap.mp hmem
    exact pairTimes_sorted hnow (hsends.within t ht).1 _ hpair

theorem host_latencies_sample :
    let plugin : ListenedChannel .exact := pluginStart (fun _ => ⟨12,true⟩) 1
    let timed := run (ChannelImpl.timedStep id (fun n => (n : ℤ))) (plugin.impl,({} : Stopwatch))
      hostEvents
    timed.2.map Depth.timestamps = [[2,3,4,5],[2,3,6,7]] ∧
      ∀ m ∈ timed.2, m.timestamps.Pairwise (· ≤ ·) :=
  ⟨rfl,(host_latencies (F := .exact) id (fun n => (n : ℤ)) (fun _ => ⟨12,true⟩) 1 hostEvents
    (by simp [hostEvents])).2.2.2 fun _ _ => Int.ofNat_le.mpr⟩

end CmeFeed
