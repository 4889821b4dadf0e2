/-
# `RingChannel.Sequential` — the channel, one call at a time

The methods once more, each as one function from the control block it finds to
its answer and the control block it leaves: what the source says when nothing
interferes.  `Solo` connects them to the interleaved steps.  The counters stay
of an arbitrary type, so that a machine word can be put in their place.

A `Session` is a client that makes one call at a time.  It may also leak an
endpoint (`mem::forget`): the endpoint is gone for the client, and still
counted.  The session also has the two faces of the `futures` traits, `Sink`
and `Stream`; a sender carries the flag that its sink sets on overwriting.

`step` has no answer where the client may not make the call, where the call
panics, where `recv` would park its thread for somebody else to wake, and
where the block has been freed.
-/
import RingChannel.Channel
import RingChannel.Lib.Ledger

namespace RingChannel

variable {N K T : Type}

inductive Poll (α : Type) where
  | pending
  | ready (a : α)
deriving DecidableEq

inductive RecvError where
  | disconnected
deriving DecidableEq

/-! ## The methods -/

namespace ControlBlock

section Load

variable [OfNat N 0] [LT N] [DecidableLT N]

/-- `RingSender::send`, with the wakers it invokes. -/
def send (cb : ControlBlock N T) (m : T) :
    Except (SendError T) (Option T) × List Waker × ControlBlock N T :=
  if 0 < cb.receivers then
    match cb.buffer.push m with
    | (none, b) =>
        (.ok none, cb.waitlist.pop.1.toList,
          { cb with buffer := b, waitlist := cb.waitlist.pop.2 })
    | (some x, b) => (.ok (some x), [], { cb with buffer := b })
  else (.error (.disconnected m), [], cb)

/-- `RingReceiver::try_recv`. -/
def tryRecv (cb : ControlBlock N T) : Except TryRecvError T × ControlBlock N T :=
  (tryRecvAnswer (decide (0 < cb.senders)) cb.buffer.pop.1, { cb with buffer := cb.buffer.pop.2 })

/-- `RingReceiver::poll`, with an answer to give. -/
def answer (cb : ControlBlock N T) (k : Nat) (r : Option T) :
    Option (Poll (Option T) × ControlBlock N T) :=
  (cb.waitlist.remove k).map fun p => (.ready r, { cb with waitlist := p.2 })

/-- `RingReceiver::poll` on the receiver whose slot is `k`, with the waker `w`. -/
def poll (cb : ControlBlock N T) (k : Nat) (w : Waker) :
    Option (Poll (Option T) × ControlBlock N T) :=
  match cb.tryRecv with
  | (.ok m, cb₁) => cb₁.answer k (some m)
  | (.error .disconnected, cb₁) => cb₁.answer k none
  | (.error .empty, cb₁) =>
      match cb₁.waitlist.insert k w with
      | none => none
      | some (_, wl) =>
          match { cb₁ with waitlist := wl }.tryRecv with
          | (.ok m, cb₂) => cb₂.answer k (some m)
          | (.error .disconnected, cb₂) => cb₂.answer k none
          | (.error .empty, cb₂) => some (.pending, cb₂)

end Load

section Count

variable [OfNat N 1]

def cloneSender [Add N] (cb : ControlBlock N T) : ControlBlock N T :=
  { cb with senders := cb.senders + 1 }

/-- `RingReceiver::clone`: the clone's slot, at place `pos` of the order. -/
def cloneReceiver [Add N] (cb : ControlBlock N T) (pos : Nat) : Nat × ControlBlock N T :=
  ((cb.waitlist.register pos).1,
    { cb with receivers := cb.receivers + 1, waitlist := (cb.waitlist.register pos).2 })

/-- `Drop for RingSender`: whether it frees the block, and the wakers it
invokes. -/
def dropSender [Sub N] [DecidableEq N] (cb : ControlBlock N T) :
    Bool × List Waker × ControlBlock N T :=
  if cb.senders = 1 then
    (!cb.connected, cb.waitlist.popAll.1,
      { cb with
        senders := cb.senders - 1
        waitlist := cb.waitlist.popAll.2
        connected := false })
  else (false, [], { cb with senders := cb.senders - 1 })

/-- `Drop for RingReceiver`: whether it frees the block, and the wakers it
invokes. -/
def dropReceiver [Sub N] [DecidableEq N] (cb : ControlBlock N T) (k : Nat) :
    Option (Bool × List Waker × ControlBlock N T) :=
  (cb.waitlist.deregister k).map fun p =>
    let woken := if p.1.isNone then p.2.pop else (none, p.2)
    if cb.receivers = 1 then
      (!cb.connected, woken.1.toList,
        { cb with
          receivers := cb.receivers - 1
          waitlist := woken.2
          connected := false })
    else
      (false, woken.1.toList, { cb with receivers := cb.receivers - 1, waitlist := woken.2 })

end Count

end ControlBlock

/-- What the client has done with an endpoint. -/
inductive Hold where
  | usable
  | leaked
  | dropped
deriving DecidableEq

/-- An endpoint that has not been dropped counts. -/
def Hold.held : Hold → Nat
  | .dropped => 0
  | _ => 1

structure RingSender where
  hold : Hold
  backoff : Bool
deriving DecidableEq

namespace RingSender

/-- `Sink::poll_flush`, with the wakers it invokes. -/
def pollFlush (tx : RingSender) (ctx : K) :
    Poll (Except (SendError T) Unit) × List K × RingSender :=
  if tx.backoff then (.pending, [ctx], { tx with backoff := false })
  else (.ready (.ok ()), [], { tx with backoff := false })

/-- `Sink::poll_ready`. -/
def pollReady (tx : RingSender) (ctx : K) :
    Poll (Except (SendError T) Unit) × List K × RingSender :=
  tx.pollFlush ctx

/-- `Sink::start_send`, from the answer of `send`. -/
def startSend (tx : RingSender) :
    Except (SendError T) (Option T) → Except (SendError T) Unit × RingSender
  | .ok overwritten => (.ok (), { tx with backoff := overwritten.isSome })
  | .error e => (.error e, tx)

end RingSender

/-! ## Sessions -/

/-- What a client may do next; the polls of a sink come with the waker of the
polling task. -/
inductive Request (K T : Type) where
  | call (op : Op T)
  | leakSender (tx : Nat)
  | leakReceiver (rx : Nat)
  | pollReady (tx : Nat) (ctx : K)
  | startSend (tx : Nat) (m : T)
  | pollFlush (tx : Nat) (ctx : K)
  | pollClose (tx : Nat) (ctx : K)
deriving DecidableEq

inductive Answer (T : Type) where
  | sent (r : Except (SendError T) (Option T))
  | tried (r : Except TryRecvError T)
  | polled (r : Poll (Option T))
  | received (r : Except RecvError T)
  | flushed (r : Poll (Except (SendError T) Unit))
  | started (r : Except (SendError T) Unit)
  | done
deriving DecidableEq

/-- A request that was served: the wakers invoked on the way, of receivers and
of sinks, and the answer. -/
structure Reply (K T : Type) where
  request : Request K T
  woken : List (Waker ⊕ K)
  answer : Answer T
deriving DecidableEq

/-- A channel whose client makes one call at a time; `calls` is their number so
far. -/
structure Session (N T : Type) where
  cb : ControlBlock N T
  freed : Bool
  txs : List RingSender
  rxs : SlotMap Hold
  calls : Nat

namespace Request

/-- The endpoint the client needs. -/
def endpoint : Request K T → Endpoint
  | .call (.send tx _) | .call (.cloneSender tx) | .call (.dropSender tx) => .sender tx
  | .call (.tryRecv rx) | .call (.pollNext rx) | .call (.recv rx) => .receiver rx
  | .call (.cloneReceiver rx _) | .call (.dropReceiver rx) => .receiver rx
  | .leakSender tx | .pollReady tx _ | .startSend tx _ | .pollFlush tx _ | .pollClose tx _ =>
      .sender tx
  | .leakReceiver rx => .receiver rx

def clonesSender : Request K T → Bool
  | .call (.cloneSender _) => true
  | _ => false

def clonesReceiver : Request K T → Bool
  | .call (.cloneReceiver _ _) => true
  | _ => false

end Request

/-- The answer of `block_on` and of `ok_or`, once the poll is ready. -/
def recvAnswer : Option T → Except RecvError T
  | some m => .ok m
  | none => .error .disconnected

namespace Session

/-- `ring_channel(capacity)`. -/
def ringChannel [OfNat N 1] (lay : Layout) (capacity : Nat) (h : 0 < capacity) : Session N T :=
  let cb : ControlBlock N T := .new lay capacity h
  let reg := cb.waitlist.register 0
  { cb := { cb with waitlist := reg.2 }
    freed := false
    txs := [⟨.usable, false⟩]
    rxs := SlotMap.empty.insertAt 0 reg.1 .usable
    calls := 0 }

def usable (s : Session N T) : Endpoint → Bool
  | .sender tx => s.txs[tx]?.map RingSender.hold = some .usable
  | .receiver rx => s.rxs.get rx = some .usable

/-- The sender `tx` changes. -/
def modify (s : Session N T) (tx : Nat) (f : RingSender → RingSender) : Session N T :=
  { s with txs := s.txs.modify tx f }

variable [OfNat N 0] [LT N] [DecidableLT N] [OfNat N 1] [Add N] [Sub N] [DecidableEq N]

/-- Serve a request whose endpoint is usable. -/
def perform (s : Session N T) :
    Request K T → Option (List (Waker ⊕ K) × Answer T × Session N T)
  | .call (.send _ m) =>
      some ((s.cb.send m).2.1.map .inl, .sent (s.cb.send m).1,
        { s with cb := (s.cb.send m).2.2, calls := s.calls + 1 })
  | .call (.cloneSender _) =>
      some ([], .done,
        { s with
          cb := s.cb.cloneSender
          txs := s.txs ++ [⟨.usable, false⟩]
          calls := s.calls + 1 })
  | .call (.dropSender tx) =>
      some (s.cb.dropSender.2.1.map .inl, .done,
        { s.modify tx ({ · with hold := .dropped }) with
          cb := s.cb.dropSender.2.2
          freed := s.cb.dropSender.1
          calls := s.calls + 1 })
  | .call (.tryRecv _) =>
      some ([], .tried s.cb.tryRecv.1, { s with cb := s.cb.tryRecv.2, calls := s.calls + 1 })
  | .call (.pollNext rx) =>
      (s.cb.poll rx ⟨rx, s.calls⟩).map fun p =>
        ([], .polled p.1, { s with cb := p.2, calls := s.calls + 1 })
  | .call (.recv rx) =>
      match s.cb.poll rx ⟨rx, s.calls⟩ with
      | some (.ready r, cb) =>
          some ([], .received (recvAnswer r), { s with cb := cb, calls := s.calls + 1 })
      | _ => none
  | .call (.cloneReceiver _ pos) =>
      some ([], .done,
        { s with
          cb := (s.cb.cloneReceiver pos).2
          rxs := s.rxs.insertAt 0 (s.cb.cloneReceiver pos).1 .usable
          calls := s.calls + 1 })
  | .call (.dropReceiver rx) =>
      (s.cb.dropReceiver rx).map fun p =>
        (p.2.1.map .inl, .done,
          { s with
            cb := p.2.2
            freed := p.1
            rxs := s.rxs.set rx .dropped
            calls := s.calls + 1 })
  | .leakSender tx => some ([], .done, s.modify tx ({ · with hold := .leaked }))
  | .leakReceiver rx => some ([], .done, { s with rxs := s.rxs.set rx .leaked })
  | .pollReady tx ctx =>
      s.txs[tx]?.map fun t =>
        ((t.pollReady (T := T) ctx).2.1.map .inr, .flushed (t.pollReady ctx).1,
          s.modify tx fun _ => (t.pollReady (T := T) ctx).2.2)
  | .startSend tx m =>
      s.txs[tx]?.map fun t =>
        ((s.cb.send m).2.1.map .inl, .started (t.startSend (s.cb.send m).1).1,
          { s.modify tx fun _ => (t.startSend (s.cb.send m).1).2 with
            cb := (s.cb.send m).2.2
            calls := s.calls + 1 })
  | .pollFlush tx ctx =>
      s.txs[tx]?.map fun t =>
        ((t.pollFlush (T := T) ctx).2.1.map .inr, .flushed (t.pollFlush ctx).1,
          s.modify tx fun _ => (t.pollFlush (T := T) ctx).2.2)
  | .pollClose _ _ => some ([], .flushed (.ready (.ok ())), s)

def step (s : Session N T) (r : Request K T) : Option (Reply K T × Session N T) :=
  if !s.freed && s.usable r.endpoint then
    (s.perform r).map fun p => (⟨r, p.1, p.2.1⟩, p.2.2)
  else none

/-- Serve the requests one after the other. -/
def serve : Session N T → List (Request K T) → Option (List (Reply K T) × Session N T)
  | s, [] => some ([], s)
  | s, r :: rs =>
      match s.step r with
      | none => none
      | some (e, s') => (s'.serve rs).map fun p => (e :: p.1, p.2)

theorem serve_cons_iff {s s' : Session N T} {r : Request K T} {rs : List (Request K T)}
    {es : List (Reply K T)} : s.serve (r :: rs) = some (es, s') ↔
      ∃ e s₁ es', s.step r = some (e, s₁) ∧ s₁.serve rs = some (es', s') ∧ es = e :: es' := by
  simp only [serve]
  constructor
  · intro h
    split at h
    · cases h
    · rename_i e s₁ hstep
      simp only [Option.map_eq_some_iff, Prod.mk.injEq] at h
      obtain ⟨⟨es', s₂⟩, hserve, rfl, rfl⟩ := h
      exact ⟨e, s₁, es', hstep, hserve, rfl⟩
  · rintro ⟨e, s₁, es', hstep, hserve, rfl⟩
    simp only [hstep, hserve, Option.map_some]

theorem serve_append (s : Session N T) : ∀ (rs rs' : List (Request K T)) {es es' : List (Reply K T)}
    {u v : Session N T}, s.serve rs = some (es, u) → u.serve rs' = some (es', v) →
      s.serve (rs ++ rs') = some (es ++ es', v) := by
  intro rs
  induction rs generalizing s with
  | nil =>
      intro rs' es es' u v h h'
      cases h
      exact h'
  | cons r rs ih =>
      intro rs' es es' u v h h'
      obtain ⟨e, s₁, es₁, hstep, hserve, rfl⟩ := serve_cons_iff.mp h
      exact serve_cons_iff.mpr ⟨e, s₁, es₁ ++ es', hstep, ih s₁ rs' hserve h', rfl⟩

/-- The runs of a session on a channel of capacity `n` whose client obeys
`ok`. -/
abbrev Runs (ok : Trace (Session N T) (Reply K T) → Session N T → Reply K T → Prop)
    (lay : Layout) (n : Nat) (h : 0 < n) :
    Trace (Session N T) (Reply K T) → Session N T → Prop :=
  Run (Next step) ok (.ringChannel lay n h)

/-- The run of the given requests; those that cannot be served, or that break
the rule, are passed over. -/
def schedule (ok : Trace (Session N T) (Reply K T) → Session N T → Reply K T → Prop)
    [∀ tr s e, Decidable (ok tr s e)] (lay : Layout) (n : Nat) (h : 0 < n)
    (rs : List (Request K T)) : Trace (Session N T) (Reply K T) × Session N T :=
  play step ok [] (.ringChannel lay n h) rs

theorem runs_schedule (ok : Trace (Session N T) (Reply K T) → Session N T → Reply K T → Prop)
    [∀ tr s e, Decidable (ok tr s e)] (lay : Layout) (n : Nat) (h : 0 < n)
    (rs : List (Request K T)) :
    Runs ok lay n h (schedule ok lay n h rs).1 (schedule ok lay n h rs).2 :=
  Run.of_play rs .start

end Session

end RingChannel
