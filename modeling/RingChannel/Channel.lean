/-
# `RingChannel.Channel` — the channel as interleaved atomic steps

Every method of an endpoint is a call, and a call is a program point together
with its locals (`Call`).  One step performs the single atomic operation that
the program point stands before: a load, a fetch-and-add, a swap of the flag, a
push or a pop of the buffer, a swap or a take of one waitlist slot, or the
invocation of one waker.  Calls run concurrently; a schedule is a list of
choices (`Act`), and `step` is a function of the choice.

## What the borrow checker contributes

`clone`, `send`, `try_recv` and `recv` borrow their endpoint shared, so any
number of threads may be inside them on one endpoint at once.  `poll_next`
borrows it exclusively, and `drop` consumes it.  `mayStart` is that discipline
and nothing more.

## What is left open

* A waker is known by the call that passed it to its polls.  `block_on` polls
  `recv` again when its thread is unparked; the flag it waits on belongs to the
  thread, and a waker of an earlier call may set it, so a parked `recv` may
  poll again at any time.
* A receiver is known by its slot, since keys are never handed out twice.
* `HopSlotMap` may put a new slot at any place; the place is an argument of the
  clone.
* Of the waitlist's lock only the read guard of a pop is here, which visits the
  slots one by one.  The other sections under the lock are single steps; `Locking`
  takes them apart.
-/
import RingChannel.Control
import RingChannel.Lib.Run

namespace RingChannel

variable {T : Type}

inductive SendError (T : Type) where
  | disconnected (m : T)
deriving DecidableEq

inductive TryRecvError where
  | empty
  | disconnected
deriving DecidableEq

/-! ## Program points -/

inductive Endpoint where
  | sender (tx : Nat)
  | receiver (rx : Nat)
deriving DecidableEq

/-- Who runs `Waitlist::pop` and wakes what it returns. -/
inductive Waking (T : Type) where
  | send (tx : Nat) (m : T)
  | dropSender (tx : Nat)
  | dropReceiver (rx : Nat)
deriving DecidableEq

/-- Who polls: `poll_next`, or `recv` through `block_on`. -/
inductive Poller where
  | pollNext
  | recv
deriving DecidableEq

/-- Who runs `try_recv`: the client, or a poll, for its first or its second
look at the buffer. -/
inductive Look where
  | tryRecv
  | first (p : Poller)
  | again (p : Poller)
deriving DecidableEq

/-- A call, by the atomic operation it is about to perform, or by its result. -/
inductive Call (T : Type) where
  -- `RingSender::send`
  | sendLoad (tx : Nat) (m : T)
  | sendPush (tx : Nat) (m : T)
  | sent (tx : Nat) (m : T) (r : Except (SendError T) (Option T))
  -- `Waitlist::pop`, then `waker.wake()`
  | popLock (p : Waking T)
  | popScan (p : Waking T) (ks : List Nat)
  | wake (p : Waking T) (w : Waker)
  -- `Clone`
  | cloneSender (tx : Nat)
  | clonedSender (tx : Nat)
  | cloneReceiver (rx pos : Nat)
  | cloneRegister (rx pos : Nat)
  | clonedReceiver (rx : Nat)
  -- `Drop`
  | dropSender (tx : Nat)
  | dropSenderSwap (tx : Nat)
  | dropReceiver (rx : Nat)
  | dropReceiverSub (rx : Nat)
  | dropReceiverSwap (rx : Nat)
  | free (e : Endpoint)
  | dropped (e : Endpoint) (last : Bool)
  -- `RingReceiver::try_recv`
  | load (rx : Nat) (l : Look)
  | pop (rx : Nat) (l : Look) (connected : Bool)
  | tried (rx : Nat) (r : Except TryRecvError T)
  -- `RingReceiver::poll`
  | insert (rx : Nat) (p : Poller)
  | remove (rx : Nat) (p : Poller) (r : Option T)
  | pending (rx : Nat)
  | parked (rx : Nat)
  | ready (rx : Nat) (p : Poller) (r : Option T)
deriving DecidableEq

/-- The methods a client may call, with their arguments. -/
inductive Op (T : Type) where
  | send (tx : Nat) (m : T)
  | cloneSender (tx : Nat)
  | dropSender (tx : Nat)
  | tryRecv (rx : Nat)
  | pollNext (rx : Nat)
  | recv (rx : Nat)
  | cloneReceiver (rx pos : Nat)
  | dropReceiver (rx : Nat)
deriving DecidableEq

/-- Where a method starts. -/
def Op.entry : Op T → Call T
  | .send tx m => .sendLoad tx m
  | .cloneSender tx => .cloneSender tx
  | .dropSender tx => .dropSender tx
  | .tryRecv rx => .load rx .tryRecv
  | .pollNext rx => .load rx (.first .pollNext)
  | .recv rx => .load rx (.first .recv)
  | .cloneReceiver rx pos => .cloneReceiver rx pos
  | .dropReceiver rx => .dropReceiver rx

namespace Waking

/-- The endpoint whose method is waking. -/
def owner : Waking T → Endpoint
  | .send tx _ => .sender tx
  | .dropSender tx => .sender tx
  | .dropReceiver rx => .receiver rx

/-- Where the method goes when `pop` returned nothing. -/
def afterNone : Waking T → Call T
  | .send tx m => .sent tx m (.ok none)
  | .dropSender tx => .dropSenderSwap tx
  | .dropReceiver rx => .dropReceiverSub rx

/-- Where the method goes when it has woken what `pop` returned: the last
sender's drop loops. -/
def afterWake : Waking T → Call T
  | .send tx m => .sent tx m (.ok none)
  | .dropSender tx => .popLock (.dropSender tx)
  | .dropReceiver rx => .dropReceiverSub rx

end Waking

/-- The answer of `try_recv`, from what it read of the sender count and what it
popped. -/
def tryRecvAnswer (connected : Bool) : Option T → Except TryRecvError T
  | some m => .ok m
  | none => .error (if connected then .empty else .disconnected)

/-- Where the answer of `try_recv` takes the method that ran it. -/
def Look.answered (rx : Nat) : Look → Except TryRecvError T → Call T
  | .tryRecv, r => .tried rx r
  | .first p, .ok m => .remove rx p (some m)
  | .first p, .error .disconnected => .remove rx p none
  | .first p, .error .empty => .insert rx p
  | .again p, .ok m => .remove rx p (some m)
  | .again p, .error .disconnected => .remove rx p none
  | .again .pollNext, .error .empty => .pending rx
  | .again .recv, .error .empty => .parked rx

namespace Call

/-- The endpoint the method was called on. -/
def endpoint : Call T → Endpoint
  | .sendLoad tx _ | .sendPush tx _ | .sent tx _ _ => .sender tx
  | .popLock p | .popScan p _ | .wake p _ => p.owner
  | .cloneSender tx | .clonedSender tx | .dropSender tx | .dropSenderSwap tx => .sender tx
  | .free e | .dropped e _ => e
  | .cloneReceiver rx _ | .cloneRegister rx _ | .clonedReceiver rx => .receiver rx
  | .dropReceiver rx | .dropReceiverSub rx | .dropReceiverSwap rx => .receiver rx
  | .load rx _ | .pop rx _ _ | .tried rx _ => .receiver rx
  | .insert rx _ | .remove rx _ _ | .pending rx | .parked rx | .ready rx _ _ => .receiver rx

/-- The method has returned. -/
def returned : Call T → Bool
  | .sent .. | .clonedSender .. | .clonedReceiver .. | .dropped .. | .tried .. | .pending ..
  | .ready .. => true
  | _ => false

/-- The receiver a `poll_next` in progress has borrowed. -/
def polling : Call T → Bool
  | .load _ (.first .pollNext) | .load _ (.again .pollNext) => true
  | .pop _ (.first .pollNext) _ | .pop _ (.again .pollNext) _ => true
  | .insert _ .pollNext | .remove _ .pollNext _ => true
  | _ => false

end Call

/-! ## States, choices and events -/

/-- The state of a channel: the control block, whether it has been freed, which
of the senders (by number) and receivers (by slot) are still usable, and all
calls ever made. -/
structure State (T : Type) where
  cb : ControlBlock Nat T
  freed : Bool
  txs : List Bool
  rxs : SlotMap Bool
  calls : List (Call T)

/-- A scheduling choice: call a method, let the executor poll a parked `recv`
again, or let a call perform its next atomic operation. -/
inductive Act (T : Type) where
  | start (op : Op T)
  | unpark (c : Nat)
  | run (c : Nat)
deriving DecidableEq

/-- What a step shows.  The first argument is the number of the call. -/
inductive Event (T : Type) where
  | start (c : Nat) (op : Op T)
  | repoll (c rx : Nat)
  | refuse (c : Nat) (m : T)
  | push (c tx : Nat) (m : T) (overwritten : Option T)
  | pop (c rx : Nat) (got : Option T)
  | insert (c rx : Nat) (old : Option Waker)
  | remove (c rx : Nat) (old : Option Waker)
  | deregister (c rx : Nat) (old : Option Waker)
  | take (c : Nat) (w : Waker)
  | wake (c : Nat) (w : Waker)
  | free (c : Nat)
  | silent (c : Nat)
deriving DecidableEq

namespace State

/-- `ring_channel(capacity)`, once it has returned. -/
def ringChannel (lay : Layout) (capacity : Nat) (h : 0 < capacity) : State T :=
  let cb : ControlBlock Nat T := .new lay capacity h
  let reg := cb.waitlist.register 0
  { cb := { cb with waitlist := reg.2 }
    freed := false
    txs := [true]
    rxs := SlotMap.empty.insertAt 0 reg.1 true
    calls := [] }

/-- Some call on `e` is in progress. -/
def busy (s : State T) (e : Endpoint) : Bool :=
  s.calls.any fun c => !c.returned && c.endpoint = e

/-- Some `poll_next` on the receiver `rx` is in progress. -/
def polled (s : State T) (rx : Nat) : Bool :=
  s.calls.any fun c => c.polling && c.endpoint = .receiver rx

/-- What Rust's borrows let a client call. -/
def mayStart (s : State T) : Op T → Bool
  | .send tx _ | .cloneSender tx => s.txs[tx]? = some true
  | .dropSender tx => s.txs[tx]? = some true && !s.busy (.sender tx)
  | .tryRecv rx | .recv rx | .cloneReceiver rx _ => s.rxs.get rx = some true && !s.polled rx
  | .pollNext rx | .dropReceiver rx => s.rxs.get rx = some true && !s.busy (.receiver rx)

/-- The call is made; a drop makes its endpoint unusable at once. -/
def begin (s : State T) (op : Op T) : State T :=
  match op with
  | .dropSender tx => { s with txs := s.txs.set tx false, calls := s.calls ++ [op.entry] }
  | .dropReceiver rx => { s with rxs := s.rxs.set rx false, calls := s.calls ++ [op.entry] }
  | _ => { s with calls := s.calls ++ [op.entry] }

/-- Call `c` moves to `d`, leaving the control block as `cb`. -/
def move (s : State T) (c : Nat) (d : Call T) (cb : ControlBlock Nat T) : State T :=
  { s with cb := cb, calls := s.calls.set c d }

@[simp] theorem move_cb (s : State T) (c : Nat) (d : Call T) (cb : ControlBlock Nat T) :
    (s.move c d cb).cb = cb := rfl
@[simp] theorem move_freed (s : State T) (c : Nat) (d : Call T) (cb : ControlBlock Nat T) :
    (s.move c d cb).freed = s.freed := rfl
@[simp] theorem move_txs (s : State T) (c : Nat) (d : Call T) (cb : ControlBlock Nat T) :
    (s.move c d cb).txs = s.txs := rfl
@[simp] theorem move_rxs (s : State T) (c : Nat) (d : Call T) (cb : ControlBlock Nat T) :
    (s.move c d cb).rxs = s.rxs := rfl
@[simp] theorem move_calls (s : State T) (c : Nat) (d : Call T) (cb : ControlBlock Nat T) :
    (s.move c d cb).calls = s.calls.set c d := rfl

end State

/-! ## One atomic operation -/

/-- The next atomic operation of call number `c`. -/
def Call.run (s : State T) (c : Nat) : Call T → Option (Event T × State T)
  | .sendLoad tx m =>
      if 0 < s.cb.receivers then
        some (.silent c, s.move c (.sendPush tx m) s.cb)
      else
        some (.refuse c m, s.move c (.sent tx m (.error (.disconnected m))) s.cb)
  | .sendPush tx m =>
      match s.cb.buffer.push m with
      | (none, b) =>
          some (.push c tx m none, s.move c (.popLock (.send tx m)) { s.cb with buffer := b })
      | (some x, b) =>
          some (.push c tx m (some x),
            s.move c (.sent tx m (.ok (some x))) { s.cb with buffer := b })
  | .popLock p =>
      some (.silent c, s.move c (.popScan p s.cb.waitlist.keys)
        { s.cb with waitlist := s.cb.waitlist.lock })
  | .popScan p [] =>
      some (.silent c, s.move c p.afterNone { s.cb with waitlist := s.cb.waitlist.unlock })
  | .popScan p (k :: ks) =>
      match s.cb.waitlist.visit k with
      | (none, wl) => some (.silent c, s.move c (.popScan p ks) { s.cb with waitlist := wl })
      | (some w, wl) => some (.take c w, s.move c (.wake p w) { s.cb with waitlist := wl.unlock })
  | .wake p w => some (.wake c w, s.move c p.afterWake s.cb)
  | .cloneSender tx =>
      some (.silent c,
        { s.move c (.clonedSender tx) { s.cb with senders := s.cb.senders + 1 } with
          txs := s.txs ++ [true] })
  | .cloneReceiver rx pos =>
      some (.silent c,
        s.move c (.cloneRegister rx pos) { s.cb with receivers := s.cb.receivers + 1 })
  | .cloneRegister rx pos =>
      if s.cb.waitlist.readers = 0 then
        let reg := s.cb.waitlist.register pos
        some (.silent c,
          { s.move c (.clonedReceiver rx) { s.cb with waitlist := reg.2 } with
            rxs := s.rxs.insertAt 0 reg.1 true })
      else none
  | .dropSender tx =>
      some (.silent c,
        s.move c
          (if s.cb.senders = 1 then .popLock (.dropSender tx) else .dropped (.sender tx) false)
          { s.cb with senders := s.cb.senders - 1 })
  | .dropSenderSwap tx =>
      some (.silent c,
        s.move c (if s.cb.connected then .dropped (.sender tx) true else .free (.sender tx))
          { s.cb with connected := false })
  | .dropReceiver rx =>
      if s.cb.waitlist.readers = 0 then
        match s.cb.waitlist.deregister rx with
        | none => none
        | some (none, wl) =>
            some (.deregister c rx none,
              s.move c (.popLock (.dropReceiver rx)) { s.cb with waitlist := wl })
        | some (some w, wl) =>
            some (.deregister c rx (some w),
              s.move c (.dropReceiverSub rx) { s.cb with waitlist := wl })
      else none
  | .dropReceiverSub rx =>
      some (.silent c,
        s.move c
          (if s.cb.receivers = 1 then .dropReceiverSwap rx else .dropped (.receiver rx) false)
          { s.cb with receivers := s.cb.receivers - 1 })
  | .dropReceiverSwap rx =>
      some (.silent c,
        s.move c (if s.cb.connected then .dropped (.receiver rx) true else .free (.receiver rx))
          { s.cb with connected := false })
  | .free e => some (.free c, { s.move c (.dropped e true) s.cb with freed := true })
  | .load rx l => some (.silent c, s.move c (.pop rx l (decide (0 < s.cb.senders))) s.cb)
  | .pop rx l connected =>
      some (.pop c rx s.cb.buffer.pop.1,
        s.move c (l.answered rx (tryRecvAnswer connected s.cb.buffer.pop.1))
          { s.cb with buffer := s.cb.buffer.pop.2 })
  | .insert rx p =>
      match s.cb.waitlist.insert rx ⟨rx, c⟩ with
      | none => none
      | some (old, wl) =>
          some (.insert c rx old, s.move c (.load rx (.again p)) { s.cb with waitlist := wl })
  | .remove rx p r =>
      match s.cb.waitlist.remove rx with
      | none => none
      | some (old, wl) =>
          some (.remove c rx old, s.move c (.ready rx p r) { s.cb with waitlist := wl })
  | .sent .. | .clonedSender .. | .clonedReceiver .. | .dropped .. | .tried .. | .pending ..
  | .parked .. | .ready .. => none

def step (s : State T) : Act T → Option (Event T × State T)
  | .start op => if s.mayStart op then some (.start s.calls.length op, s.begin op) else none
  | .unpark c =>
      match s.calls[c]? with
      | some (.parked rx) => some (.repoll c rx, s.move c (.load rx (.first .recv)) s.cb)
      | _ => none
  | .run c =>
      match s.calls[c]? with
      | some call => call.run s c
      | none => none

/-- The runs of a channel of capacity `n` whose clients obey `ok`. -/
abbrev Runs (ok : Trace (State T) (Event T) → State T → Event T → Prop) (lay : Layout)
    (n : Nat) (h : 0 < n) : Trace (State T) (Event T) → State T → Prop :=
  Run (Next step) ok (.ringChannel lay n h)

/-- The run that the given choices make of a channel of capacity `n`. -/
def schedule (ok : Trace (State T) (Event T) → State T → Event T → Prop)
    [∀ tr s e, Decidable (ok tr s e)] (lay : Layout) (n : Nat) (h : 0 < n) (as : List (Act T)) :
    Trace (State T) (Event T) × State T :=
  play step ok [] (.ringChannel lay n h) as

theorem runs_schedule (ok : Trace (State T) (Event T) → State T → Event T → Prop)
    [∀ tr s e, Decidable (ok tr s e)] (lay : Layout) (n : Nat) (h : 0 < n) (as : List (Act T)) :
    Runs ok lay n h (schedule ok lay n h as).1 (schedule ok lay n h as).2 :=
  Run.of_play as .start

end RingChannel
