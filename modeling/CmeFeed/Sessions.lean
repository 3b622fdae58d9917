import CmeFeed.ChannelReplay

/-!
# Sessions of an instrument

`OnChannelReset` ends a session: the entries are numbered from one again. A
controller that is told of every reset is a replica of one session after the
other, and its listeners are told of the empty books in between.
-/

set_option autoImplicit false

namespace CmeFeed

open Reactive

variable {F : Floats}

inductive ControllerCall where
  | deliver (d : Delivery)
  | securityStatus (status : SecurityStatus30)
  | channelReset

/-- Books of one session after the other, each session but the first opened
with the empty books; `n` is the position reached in the session `j`. -/
inductive Chronicle (F : Floats) (i : Instrument) (hist : ℕ → ℕ → Entry) :
    ℕ → ℕ → List (DepthBook F.Float) → Prop
  | first {n : ℕ} {books : List (DepthBook F.Float)} (h : Pages F i (hist 0) n books) :
      Chronicle F i hist 0 n books
  | next {j m n : ℕ} {earlier books : List (DepthBook F.Float)}
      (hearlier : Chronicle F i hist j m earlier) (h : Pages F i (hist (j+1)) n books)
      (hopened : ∃ rest, books = pages F i (hist (j+1)) 0++rest) :
      Chronicle F i hist (j+1) n (earlier++books)

def TruthfulCalls (F : Floats) (i : Instrument) (hist : ℕ → ℕ → Entry) :
    ℕ → List ControllerCall → Prop
  | _, [] => True
  | j, .deliver d::calls => Truthful F i (hist j) d ∧ TruthfulCalls F i hist j calls
  | j, .securityStatus _::calls => TruthfulCalls F i hist j calls
  | j, .channelReset::calls => TruthfulCalls F i hist (j+1) calls

def session (j : ℕ) (calls : List ControllerCall) : ℕ :=
  j+calls.countP fun
    | .channelReset => true
    | _ => false

variable {i : Instrument} {hist : ℕ → ℕ → Entry}

theorem Chronicle.mono {j n m : ℕ} {books : List (DepthBook F.Float)}
    (h : Chronicle F i hist j n books) (hnm : n ≤ m) : Chronicle F i hist j m books := by
  cases h with
  | first h => exact .first (h.mono hnm)
  | next hearlier h hopened => exact .next hearlier (h.mono hnm) hopened

theorem Chronicle.extend {j n m : ℕ} {books more : List (DepthBook F.Float)}
    (h : Chronicle F i hist j n books)
    (hmore : ∀ told, Pages F i (hist j) n told → Pages F i (hist j) m (told++more)) :
    Chronicle F i hist j m (books++more) := by
  cases h with
  | first h => exact .first (hmore _ h)
  | next hearlier h hopened =>
    obtain ⟨rest,rfl⟩ := hopened
    rw [List.append_assoc]
    exact .next hearlier (hmore _ h) ⟨rest++more,List.append_assoc _ _ _⟩

namespace InstrumentController

def controllerCall (c : InstrumentController F) :
    ControllerCall → InstrumentController F × List (Effect F)
  | .deliver d => c.deliver d
  | .securityStatus status => (c.onSecurityStatus status,[])
  | .channelReset => c.onChannelReset

structure InSession (i : Instrument) (hist : ℕ → ℕ → Entry) (j : ℕ) (c : InstrumentController F)
    (books : List (DepthBook F.Float)) : Prop where
  sound : c.Sound i
  live : c.state_ ≠ .DISCONTINUED
  replayed : c.mdhandler_.books = bookAt F i (hist j) c.reached
  told : Chronicle F i hist j c.reached books

theorem construct_inSession (i : Instrument) (hist : ℕ → ℕ → Entry) (m : Indeterminate) :
    (construct i m : InstrumentController F × _).1.InSession i hist 0 [] :=
  ⟨construct_sound i m,nofun,(bookAt_replay 0).symm,.first (pages_nil _)⟩

theorem deliver_live (c : InstrumentController F) (d : Delivery) (h : c.state_ ≠ .DISCONTINUED) :
    (c.deliver d).1.state_ ≠ .DISCONTINUED := by
  rcases c.deliver_cases d with ⟨e,-,-,he⟩ | ⟨e,-,-,he⟩ | ⟨e,-,-,-,he⟩ | ⟨r,-,-,he⟩ |
    ⟨r,-,-,he⟩ | ⟨-,he⟩ <;> rw [he]
  · nofun
  · nofun
  · exact h
  · nofun
  · exact h
  · exact h

theorem deliver_inSession {s : UInt32} {j : ℕ} {c : InstrumentController F} {d : Delivery}
    {books : List (DepthBook F.Float)} (hk : c.Keyed s) (h : c.InSession i hist j books)
    (hd : Truthful F i (hist j) d) :
    (c.deliver d).1.InSession i hist j (books++notifiedOf s (c.deliver d).2) := by
  obtain ⟨hbooks,-⟩ := deliver_replayed h.sound h.replayed hd
  refine ⟨deliver_sound c d h.sound,deliver_live c d h.live,hbooks,h.told.extend ?_⟩
  intro told htold
  exact (deliver_told hk ⟨h.sound,h.replayed,htold⟩ hd).told

theorem onChannelReset_eq {c : InstrumentController F} (h : c.state_ ≠ .DISCONTINUED) :
    c.onChannelReset =
      ({c with state_ := .SYNC, processed_rptseq_ := 0, mdhandler_ := c.mdhandler_.clearState},
        .UnsubscribeToSnapshotsForInstrument c.instrument_.key ::
          c.mdhandler_.clearState.notifications) :=
  if_pos h

theorem clearState_notifiedOf {s : UInt32} {c : InstrumentController F} (hk : c.Keyed s) :
    notifiedOf s (c.mdhandler_.clearState.notifications) =
      [c.mdhandler_.books.clear.main,c.mdhandler_.books.clear.impl] := by
  have hid : c.mdhandler_.clearState.instrument_.id = keyId s := by
    change c.mdhandler_.instrument_.id = keyId s
    rw [hk.2, ← keyId_key, hk.1]
  unfold notifiedOf InstrumentMdHandler.notifications notified
  rw [hid]
  simp only [List.filterMap_cons, List.filterMap_nil, if_true]
  rfl

theorem onChannelReset_inSession {s : UInt32} {j : ℕ} {c : InstrumentController F}
    {books : List (DepthBook F.Float)} (hk : c.Keyed s) (h : c.InSession i hist j books) :
    c.onChannelReset.1.InSession i hist (j+1) (books++notifiedOf s c.onChannelReset.2) := by
  have hempty : c.mdhandler_.books.clear = bookAt F i (hist (j+1)) 0 :=
    (Books.clear_fits h.sound.fits).trans (bookAt_replay 0).symm
  have htold : notifiedOf s c.onChannelReset.2 = pages F i (hist (j+1)) 0 := by
    rw [onChannelReset_eq h.live, pages, ← hempty, ← clearState_notifiedOf hk]
    rfl
  rw [htold, onChannelReset_eq h.live]
  constructor
  · refine ⟨h.sound.instrument,h.sound.handler,?_,nofun,fun _ => Int.le_refl 0⟩
    rw [show c.mdhandler_.clearState.books = _ from hempty]
    exact bookAt_fits 0
  · nofun
  · exact hempty
  · exact .next h.told ((pages_nil 0).snoc (Nat.le_refl 0)) ⟨[],(List.append_nil _).symm⟩

theorem controllerCall_keyed {s : UInt32} {c : InstrumentController F} (hk : c.Keyed s)
    (call : ControllerCall) : (c.controllerCall call).1.Keyed s := by
  cases call with
  | deliver d => exact deliver_keyed hk d
  | securityStatus status => exact onSecurityStatus_keyed hk status
  | channelReset =>
    unfold controllerCall onChannelReset
    dsimp only
    split_ifs
    · exact hk
    · exact hk

theorem controllerCalls_inSession {s : UInt32} {j : ℕ} {c : InstrumentController F}
    {books : List (DepthBook F.Float)} (hk : c.Keyed s) (h : c.InSession i hist j books)
    (calls : List ControllerCall) (hcalls : TruthfulCalls F i hist j calls) :
    (run controllerCall c calls).1.InSession i hist (session j calls)
      (books++notifiedOf s (run controllerCall c calls).2) := by
  induction calls generalizing j c books with
  | nil =>
    rw [run_nil, notifiedOf_nil, List.append_nil]
    exact h
  | cons call calls ih =>
    rw [run_cons, notifiedOf_append, ← List.append_assoc]
    have hk' := controllerCall_keyed hk call
    cases call with
    | deliver d =>
      have hsession : session j (.deliver d::calls) = session j calls := rfl
      rw [hsession]
      exact ih hk' (deliver_inSession hk h hcalls.1) hcalls.2
    | securityStatus status =>
      have hsession : session j (.securityStatus status::calls) = session j calls := rfl
      have hsame : (c.controllerCall (.securityStatus status)) = (c,[]) :=
        congrArg (·,[]) (ChannelController.onSecurityStatus_same c status)
      rw [hsession, hsame, notifiedOf_nil, List.append_nil]
      exact ih hk h hcalls
    | channelReset =>
      have hsession : session j (.channelReset::calls) = session (j+1) calls := by
        unfold session
        rw [List.countP_cons_of_pos rfl]
        omega
      rw [hsession]
      exact ih hk' (onChannelReset_inSession hk h) hcalls

/-- Through any calls, resets of the channel among them, the books are those of
the current session at the position reached in it, and listeners were told
pages of one session after the other, with the empty books at every reset. -/
theorem sessions_replay (i : Instrument) (hist : ℕ → ℕ → Entry) (m : Indeterminate)
    (calls : List ControllerCall) (hcalls : TruthfulCalls F i hist 0 calls) :
    let r := run controllerCall (construct i m : InstrumentController F × _).1 calls
    r.1.mdhandler_.books = bookAt F i (hist (session 0 calls)) r.1.reached ∧
      Chronicle F i hist (session 0 calls) r.1.reached (notifiedOf i.key r.2) := by
  intro r
  have hrun := controllerCalls_inSession (construct_keyed i m) (construct_inSession i hist m) calls
    hcalls
  rw [List.nil_append] at hrun
  exact ⟨hrun.replayed,hrun.told⟩

def sessionCalls : List ControllerCall :=
  [.deliver (.incremental (sampleHistory 1)),.deliver (.incremental (sampleHistory 2)),
    .deliver .commit,.channelReset,.deliver (.incremental (sampleHistory 1)),.deliver .commit]

theorem sessions_replay_sample :
    (run controllerCall (construct sampleInstrument ⟨0,false⟩ : InstrumentController .exact × _).1
      sessionCalls).1.mdhandler_.books = bookAt .exact sampleInstrument sampleHistory 1 :=
  (sessions_replay sampleInstrument (fun _ => sampleHistory) ⟨0,false⟩ sessionCalls
    ⟨rfl,rfl,trivial,rfl,trivial,trivial⟩).1

end InstrumentController

end CmeFeed
