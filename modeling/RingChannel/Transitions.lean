/-
# `RingChannel.Transitions` — everything one step can do

`step` is a function with many branches.  `Trans` lists its outcomes, one
constructor for each, with the guard that led there and the state it leaves;
`trans_of_step` is the one place where `step` is unfolded.  Every invariant of
the development is a case analysis on `Trans`.

The waitlist operations appear by what they do to the slots (`Writes`, `Adds`,
`Drops`), not by how they do it.
-/
import RingChannel.Channel

namespace RingChannel

variable {T : Type}

/-- The methods that consume their endpoint. -/
def Op.consumes : Op T → Bool
  | .dropSender _ | .dropReceiver _ => true
  | _ => false

/-- The outcomes of a step from `s`. -/
inductive Trans (s : State T) : Event T → State T → Prop
  | start {op : Op T} : s.mayStart op = true → op.consumes = false →
      Trans s (.start s.calls.length op) { s with calls := s.calls ++ [op.entry] }
  | startDropSender {tx : Nat} : s.txs[tx]? = some true → s.busy (.sender tx) = false →
      Trans s (.start s.calls.length (.dropSender tx))
        { s with txs := s.txs.set tx false, calls := s.calls ++ [.dropSender tx] }
  | startDropReceiver {rx : Nat} : s.rxs.get rx = some true → s.busy (.receiver rx) = false →
      Trans s (.start s.calls.length (.dropReceiver rx))
        { s with rxs := s.rxs.set rx false, calls := s.calls ++ [.dropReceiver rx] }
  | repoll {c rx : Nat} : s.calls[c]? = some (.parked rx) →
      Trans s (.repoll c rx) (s.move c (.load rx (.first .recv)) s.cb)
  -- `RingSender::send`
  | sendLoad {c tx : Nat} {m : T} : s.calls[c]? = some (.sendLoad tx m) → 0 < s.cb.receivers →
      Trans s (.silent c) (s.move c (.sendPush tx m) s.cb)
  | refuse {c tx : Nat} {m : T} : s.calls[c]? = some (.sendLoad tx m) → s.cb.receivers = 0 →
      Trans s (.refuse c m) (s.move c (.sent tx m (.error (.disconnected m))) s.cb)
  | pushNew {c tx : Nat} {m : T} : s.calls[c]? = some (.sendPush tx m) →
      (s.cb.buffer.push m).1 = none →
      Trans s (.push c tx m none)
        (s.move c (.popLock (.send tx m)) { s.cb with buffer := (s.cb.buffer.push m).2 })
  | pushOver {c tx : Nat} {m x : T} : s.calls[c]? = some (.sendPush tx m) →
      (s.cb.buffer.push m).1 = some x →
      Trans s (.push c tx m (some x))
        (s.move c (.sent tx m (.ok (some x))) { s.cb with buffer := (s.cb.buffer.push m).2 })
  -- `Waitlist::pop` and `wake`
  | popLock {c : Nat} {p : Waking T} : s.calls[c]? = some (.popLock p) →
      Trans s (.silent c) (s.move c (.popScan p s.cb.waitlist.keys)
        { s.cb with waitlist := s.cb.waitlist.lock })
  | scanEnd {c : Nat} {p : Waking T} : s.calls[c]? = some (.popScan p []) →
      Trans s (.silent c) (s.move c p.afterNone { s.cb with waitlist := s.cb.waitlist.unlock })
  | scanMiss {c k : Nat} {p : Waking T} {ks : List Nat} :
      s.calls[c]? = some (.popScan p (k :: ks)) →
      (∀ w, s.cb.waitlist.slot k ≠ some (some w)) →
      Trans s (.silent c) (s.move c (.popScan p ks) s.cb)
  | scanHit {c k : Nat} {p : Waking T} {ks : List Nat} {w : Waker} {wl : Waitlist Waker} :
      s.calls[c]? = some (.popScan p (k :: ks)) →
      s.cb.waitlist.Writes k (some w) none wl →
      Trans s (.take c w) (s.move c (.wake p w) { s.cb with waitlist := wl.unlock })
  | wake {c : Nat} {p : Waking T} {w : Waker} : s.calls[c]? = some (.wake p w) →
      Trans s (.wake c w) (s.move c p.afterWake s.cb)
  -- `Clone`
  | cloneSender {c tx : Nat} : s.calls[c]? = some (.cloneSender tx) →
      Trans s (.silent c)
        { s.move c (.clonedSender tx) { s.cb with senders := s.cb.senders + 1 } with
          txs := s.txs ++ [true] }
  | cloneReceiver {c rx pos : Nat} : s.calls[c]? = some (.cloneReceiver rx pos) →
      Trans s (.silent c)
        (s.move c (.cloneRegister rx pos) { s.cb with receivers := s.cb.receivers + 1 })
  | cloneRegister {c rx pos k : Nat} {wl : Waitlist Waker} :
      s.calls[c]? = some (.cloneRegister rx pos) → s.cb.waitlist.readers = 0 →
      s.cb.waitlist.Adds k wl →
      Trans s (.silent c)
        { s.move c (.clonedReceiver rx) { s.cb with waitlist := wl } with
          rxs := s.rxs.insertAt 0 k true }
  -- `Drop for RingSender`
  | dropSenderLast {c tx : Nat} : s.calls[c]? = some (.dropSender tx) → s.cb.senders = 1 →
      Trans s (.silent c)
        (s.move c (.popLock (.dropSender tx)) { s.cb with senders := s.cb.senders - 1 })
  | dropSenderMore {c tx : Nat} : s.calls[c]? = some (.dropSender tx) → s.cb.senders ≠ 1 →
      Trans s (.silent c)
        (s.move c (.dropped (.sender tx) false) { s.cb with senders := s.cb.senders - 1 })
  | senderSwapFirst {c tx : Nat} : s.calls[c]? = some (.dropSenderSwap tx) →
      s.cb.connected = true →
      Trans s (.silent c)
        (s.move c (.dropped (.sender tx) true) { s.cb with connected := false })
  | senderSwapSecond {c tx : Nat} : s.calls[c]? = some (.dropSenderSwap tx) →
      s.cb.connected = false →
      Trans s (.silent c) (s.move c (.free (.sender tx)) { s.cb with connected := false })
  -- `Drop for RingReceiver`
  | deregisterEmpty {c rx : Nat} {wl : Waitlist Waker} :
      s.calls[c]? = some (.dropReceiver rx) → s.cb.waitlist.readers = 0 →
      s.cb.waitlist.Drops rx none wl →
      Trans s (.deregister c rx none)
        (s.move c (.popLock (.dropReceiver rx)) { s.cb with waitlist := wl })
  | deregisterFull {c rx : Nat} {w : Waker} {wl : Waitlist Waker} :
      s.calls[c]? = some (.dropReceiver rx) → s.cb.waitlist.readers = 0 →
      s.cb.waitlist.Drops rx (some w) wl →
      Trans s (.deregister c rx (some w))
        (s.move c (.dropReceiverSub rx) { s.cb with waitlist := wl })
  | dropReceiverLast {c rx : Nat} : s.calls[c]? = some (.dropReceiverSub rx) →
      s.cb.receivers = 1 →
      Trans s (.silent c)
        (s.move c (.dropReceiverSwap rx) { s.cb with receivers := s.cb.receivers - 1 })
  | dropReceiverMore {c rx : Nat} : s.calls[c]? = some (.dropReceiverSub rx) →
      s.cb.receivers ≠ 1 →
      Trans s (.silent c)
        (s.move c (.dropped (.receiver rx) false) { s.cb with receivers := s.cb.receivers - 1 })
  | receiverSwapFirst {c rx : Nat} : s.calls[c]? = some (.dropReceiverSwap rx) →
      s.cb.connected = true →
      Trans s (.silent c)
        (s.move c (.dropped (.receiver rx) true) { s.cb with connected := false })
  | receiverSwapSecond {c rx : Nat} : s.calls[c]? = some (.dropReceiverSwap rx) →
      s.cb.connected = false →
      Trans s (.silent c) (s.move c (.free (.receiver rx)) { s.cb with connected := false })
  | free {c : Nat} {e : Endpoint} : s.calls[c]? = some (.free e) →
      Trans s (.free c) { s.move c (.dropped e true) s.cb with freed := true }
  -- `RingReceiver::try_recv` and `RingReceiver::poll`
  | load {c rx : Nat} {l : Look} : s.calls[c]? = some (.load rx l) →
      Trans s (.silent c) (s.move c (.pop rx l (decide (0 < s.cb.senders))) s.cb)
  | popSome {c rx : Nat} {l : Look} {connected : Bool} {m : T} :
      s.calls[c]? = some (.pop rx l connected) → s.cb.buffer.pop.1 = some m →
      Trans s (.pop c rx (some m))
        (s.move c (l.answered rx (.ok m)) { s.cb with buffer := s.cb.buffer.pop.2 })
  | popEmpty {c rx : Nat} {l : Look} :
      s.calls[c]? = some (.pop rx l true) → s.cb.buffer.pop.1 = none →
      Trans s (.pop c rx none)
        (s.move c (l.answered rx (.error .empty)) { s.cb with buffer := s.cb.buffer.pop.2 })
  | popDisconnected {c rx : Nat} {l : Look} :
      s.calls[c]? = some (.pop rx l false) → s.cb.buffer.pop.1 = none →
      Trans s (.pop c rx none)
        (s.move c (l.answered rx (.error .disconnected)) { s.cb with buffer := s.cb.buffer.pop.2 })
  | insert {c rx : Nat} {p : Poller} {old : Option Waker} {wl : Waitlist Waker} :
      s.calls[c]? = some (.insert rx p) → s.cb.waitlist.Writes rx old (some ⟨rx, c⟩) wl →
      Trans s (.insert c rx old) (s.move c (.load rx (.again p)) { s.cb with waitlist := wl })
  | remove {c rx : Nat} {p : Poller} {r : Option T} {old : Option Waker} {wl : Waitlist Waker} :
      s.calls[c]? = some (.remove rx p r) → s.cb.waitlist.Writes rx old none wl →
      Trans s (.remove c rx old) (s.move c (.ready rx p r) { s.cb with waitlist := wl })

/-- A step that starts a call. -/
theorem trans_of_start {s : State T} {op : Op T} (h : s.mayStart op = true) :
    Trans s (.start s.calls.length op) (s.begin op) := by
  cases op with
  | dropSender tx =>
      simp only [State.mayStart, Bool.and_eq_true, Bool.not_eq_true', decide_eq_true_eq] at h
      exact .startDropSender h.1 h.2
  | dropReceiver rx =>
      simp only [State.mayStart, Bool.and_eq_true, Bool.not_eq_true', decide_eq_true_eq] at h
      exact .startDropReceiver h.1 h.2
  | send tx m => exact .start h rfl
  | cloneSender tx => exact .start h rfl
  | tryRecv rx => exact .start h rfl
  | pollNext rx => exact .start h rfl
  | recv rx => exact .start h rfl
  | cloneReceiver rx pos => exact .start h rfl

/-- A step that performs the next atomic operation of a call. -/
theorem trans_of_run {s s' : State T} {c : Nat} {e : Event T} :
    ∀ {call : Call T}, s.calls[c]? = some call → call.run s c = some (e, s') → Trans s e s' := by
  intro call hc h
  cases call with
  | sendLoad tx m =>
      simp only [Call.run] at h
      split at h
      · cases h
        exact .sendLoad hc ‹_›
      · cases h
        exact .refuse hc (by omega)
  | sendPush tx m =>
      simp only [Call.run] at h
      split at h
      · rename_i b hb
        cases h
        have := Trans.pushNew hc (congrArg Prod.fst hb)
        rwa [hb] at this
      · rename_i x b hb
        cases h
        have := Trans.pushOver hc (congrArg Prod.fst hb)
        rwa [hb] at this
  | popLock p =>
      cases h
      exact .popLock hc
  | popScan p ks =>
      cases ks with
      | nil =>
          cases h
          exact .scanEnd hc
      | cons k ks =>
          simp only [Call.run] at h
          split at h
          · rename_i wl hv
            cases h
            obtain ⟨rfl, hmiss⟩ := Waitlist.visit_miss hv
            exact .scanMiss hc hmiss
          · rename_i w wl hv
            cases h
            exact .scanHit hc (Waitlist.visit_hit hv)
  | wake p w =>
      cases h
      exact .wake hc
  | cloneSender tx =>
      cases h
      exact .cloneSender hc
  | cloneReceiver rx pos =>
      cases h
      exact .cloneReceiver hc
  | cloneRegister rx pos =>
      simp only [Call.run] at h
      split at h
      · rename_i hr
        cases h
        exact .cloneRegister hc hr (Waitlist.register_adds _ pos)
      · cases h
  | dropSender tx =>
      simp only [Call.run] at h
      split at h
      · cases h
        exact .dropSenderLast hc ‹_›
      · cases h
        exact .dropSenderMore hc ‹_›
  | dropSenderSwap tx =>
      simp only [Call.run] at h
      split at h
      · cases h
        exact .senderSwapFirst hc ‹_›
      · rename_i hconn
        cases h
        exact .senderSwapSecond hc (by simpa using hconn)
  | dropReceiver rx =>
      simp only [Call.run] at h
      split at h
      · rename_i hr
        split at h
        · cases h
        · rename_i wl hd
          cases h
          exact .deregisterEmpty hc hr (Waitlist.deregister_drops hd)
        · rename_i w wl hd
          cases h
          exact .deregisterFull hc hr (Waitlist.deregister_drops hd)
      · cases h
  | dropReceiverSub rx =>
      simp only [Call.run] at h
      split at h
      · cases h
        exact .dropReceiverLast hc ‹_›
      · cases h
        exact .dropReceiverMore hc ‹_›
  | dropReceiverSwap rx =>
      simp only [Call.run] at h
      split at h
      · cases h
        exact .receiverSwapFirst hc ‹_›
      · rename_i hconn
        cases h
        exact .receiverSwapSecond hc (by simpa using hconn)
  | free e =>
      cases h
      exact .free hc
  | load rx l =>
      cases h
      exact .load hc
  | pop rx l connected =>
      simp only [Call.run, Option.some.injEq, Prod.mk.injEq] at h
      obtain ⟨rfl, rfl⟩ := h
      cases hpop : s.cb.buffer.pop.1 with
      | some m => exact .popSome hc hpop
      | none =>
          cases connected with
          | true => exact .popEmpty hc hpop
          | false => exact .popDisconnected hc hpop
  | insert rx p =>
      simp only [Call.run] at h
      split at h
      · cases h
      · rename_i old wl hi
        cases h
        exact .insert hc (Waitlist.insert_writes hi)
  | remove rx p r =>
      simp only [Call.run] at h
      split at h
      · cases h
      · rename_i old wl hi
        cases h
        exact .remove hc (Waitlist.remove_writes hi)
  | sent | clonedSender | clonedReceiver | dropped | tried | pending | parked | ready => cases h

theorem trans_of_step {s s' : State T} {a : Act T} {e : Event T}
    (h : step s a = some (e, s')) : Trans s e s' := by
  cases a with
  | start op =>
      simp only [step] at h
      split at h
      · cases h
        exact trans_of_start ‹_›
      · cases h
  | unpark c =>
      simp only [step] at h
      split at h
      · cases h
        exact .repoll ‹_›
      · cases h
  | run c =>
      simp only [step] at h
      split at h
      · exact trans_of_run ‹_› h
      · cases h

theorem trans_of_next {s s' : State T} {e : Event T} (h : Next step s e s') : Trans s e s' :=
  h.elim fun _ ha => trans_of_step ha

end RingChannel
