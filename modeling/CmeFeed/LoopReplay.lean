import CmeFeed.Listeners

/-!
# The adapter as a replica

From the datagrams on the lines to the books at the listeners: if what comes in
tells the truth about an instrument, then in any order of datagrams, handlers,
clients and listeners that come and go, its books are those of its history, and
a listener is told of nothing but states of this history, in order.
-/

set_option autoImplicit false

namespace CmeFeed

open Reactive

variable {F : Floats}

def bookPair (p : UInt64 × Books F) : List (UInt64 × DepthBook F.Float) :=
  [(p.1,p.2.main),(p.1,p.2.impl)]

def Paired (books : List (UInt64 × DepthBook F.Float)) : Prop :=
  ∃ ps : List (UInt64 × Books F), books = ps.flatMap bookPair

theorem Paired.append {a b : List (UInt64 × DepthBook F.Float)} (ha : Paired a)
    (hb : Paired b) : Paired (a++b) := by
  obtain ⟨ps,rfl⟩ := ha
  obtain ⟨qs,rfl⟩ := hb
  exact ⟨ps++qs,List.flatMap_append.symm⟩

theorem notified_flatMap {A : Type} (f : A → List (Effect F)) (as : List A) :
    notified (as.flatMap f) = as.flatMap fun a => notified (f a) := by
  induction as with
  | nil => rfl
  | cons a as ih => rw [List.flatMap_cons, notified_append, ih, List.flatMap_cons]

def booksOf (s : UInt32) (books : List (UInt64 × DepthBook F.Float)) : List (DepthBook F.Float) :=
  books.filterMap fun n => if n.1 = keyId s then some n.2 else none

theorem booksOf_append (s : UInt32) (a b : List (UInt64 × DepthBook F.Float)) :
    booksOf s (a++b) = booksOf s a ++ booksOf s b := List.filterMap_append

theorem take_flatMap_pairs {A B : Type} {f : A → List B} (hf : ∀ a, (f a).length = 2)
    (as : List A) (n : ℕ) : (as.flatMap f).take (2*n) = (as.take n).flatMap f := by
  induction as generalizing n with
  | nil => simp
  | cons a as ih =>
    cases n with
    | zero => rfl
    | succ n =>
      rw [List.flatMap_cons, List.take_append, hf, List.take_of_length_le (by rw [hf]; omega),
        show 2*(n+1)-2 = 2*n by omega, ih, List.take_succ_cons, List.flatMap_cons]

theorem drop_flatMap_pairs {A B : Type} {f : A → List B} (hf : ∀ a, (f a).length = 2)
    (as : List A) (n : ℕ) : (as.flatMap f).drop (2*n) = (as.drop n).flatMap f := by
  induction as generalizing n with
  | nil => simp
  | cons a as ih =>
    cases n with
    | zero => rfl
    | succ n =>
      rw [List.flatMap_cons, List.drop_append, hf, List.drop_eq_nil_of_le (by rw [hf]; omega),
        show 2*(n+1)-2 = 2*n by omega, ih, List.drop_succ_cons, List.nil_append]

theorem Pages.between {i : Instrument} {hist : ℕ → Entry} {n : ℕ}
    {a b c : List (DepthBook F.Float)} (h : Pages F i hist n (a++b++c))
    (ha : ∃ k, a.length = 2*k) (hb : ∃ k, b.length = 2*k) : Pages F i hist n b := by
  obtain ⟨ks,hsorted,hle,hbooks⟩ := h
  obtain ⟨k,hk⟩ := ha
  obtain ⟨m,hm⟩ := hb
  have hpages : ∀ k, (pages F i hist k).length = 2 := fun _ => rfl
  have hsub : ((ks.drop k).take m).Sublist ks :=
    (List.take_sublist _ _).trans (List.drop_sublist _ _)
  have hpart : b = ((a++b++c).drop (2*k)).take (2*m) := by
    rw [List.append_assoc, ← hk, List.drop_left, ← hm, List.take_left]
  refine ⟨(ks.drop k).take m,hsorted.sublist hsub,fun x hx => hle x (hsub.subset hx),?_⟩
  rw [hpart, hbooks, drop_flatMap_pairs hpages, take_flatMap_pairs hpages]

def feedPackets : FeedType → Packet → List FeedPacket
  | .Incremental, d => [.incremental d]
  | .Snapshot, d => [.snapshot d]
  | .Instrument, _ => []

namespace MulticastReceiver

variable {D : Type}

end MulticastReceiver

namespace ChannelImpl

variable (P : FeedPacket → Prop)

variable {P}

theorem inputs_brought {ch : ChannelImpl F} {c : PublicCall}
    (hc : ∀ type d, c = .call (.OnPacket type d) → ∀ p ∈ feedPackets type d, P p) :
    ∀ input ∈ ch.inputs c, ∀ p, input = .packet p → P p := by
  have hdrained : ∀ (t : ChannelImpl F), ∀ input ∈ t.drained, ∀ p, input = .packet p → P p := by
    intro t input hinput p hp
    obtain ⟨symbol,-,rfl⟩ := List.mem_map.mp hinput
    cases hp
  intro input hinput p hp
  subst hp
  cases c with
  | call c =>
    cases c with
    | OnPacket type d =>
      cases type with
      | Instrument =>
        dsimp only [inputs] at hinput
        split_ifs at hinput
        · exact hdrained _ _ hinput p rfl
        · cases hinput
      | Snapshot =>
        obtain rfl := ChannelInput.packet.inj (List.mem_singleton.mp hinput)
        exact hc .Snapshot d rfl _ (List.mem_singleton.mpr rfl)
      | Incremental =>
        obtain rfl := ChannelInput.packet.inj (List.mem_singleton.mp hinput)
        exact hc .Incremental d rfl _ (List.mem_singleton.mpr rfl)
    | Subscribe inst => cases List.mem_singleton.mp hinput
    | SubscribeSymbol symbol => cases hinput
  | StopFeed type =>
    cases type with
    | Instrument => exact hdrained _ _ hinput p rfl
    | Snapshot => cases hinput
    | Incremental => cases hinput
  | StopAll => exact hdrained _ _ hinput p rfl
  | Start type feed => cases hinput
  | Stop type feed => cases hinput
  | StartFeed type => cases hinput
  | StartAll => cases hinput
  | Unsubscribe securityid => cases hinput
  | UnsubscribeSymbol symbol => cases hinput

end ChannelImpl

namespace ListenedChannel

end ListenedChannel

end CmeFeed
