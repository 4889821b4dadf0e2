/-
# `RingChannel.Bare` — the channel built without `futures_api`

The feature decides what is compiled.  Without it there are no wakers: the block
has no waitlist, a receiver has no slot, a `send` ends with its push, a drop
goes straight to its counter, and only the methods that never block are there.

`step` is that program, one atomic operation at a time.  It is related to the
full one by forgetting (`Erases`): a call of the full program that is busy with
the waitlist is, in the bare one, at the counter or at the answer that it is on
its way to.  The counters differ by the clones that have been counted and not
yet made; nobody can tell, since such a clone borrows a receiver, and with that
one the count is positive in both (`receivers_pos_iff`, `last_receiver_iff`).
-/
import RingChannel.Settling
import RingChannel.Lib.Simulation

namespace RingChannel

variable {T : Type}

namespace Bare

inductive Call (T : Type) where
  -- `RingSender::send`
  | sendLoad (tx : Nat) (m : T)
  | sendPush (tx : Nat) (m : T)
  | sent (tx : Nat) (m : T) (r : Except (SendError T) (Option T))
  -- `Clone`
  | cloneSender (tx : Nat)
  | clonedSender (tx : Nat)
  | cloneReceiver (rx : Nat)
  | clonedReceiver (rx : Nat)
  -- `Drop`
  | dropSender (tx : Nat)
  | dropSenderSwap (tx : Nat)
  | dropReceiver (rx : Nat)
  | dropReceiverSwap (rx : Nat)
  | free (e : Endpoint)
  | dropped (e : Endpoint) (last : Bool)
  -- `RingReceiver::try_recv`
  | load (rx : Nat)
  | pop (rx : Nat) (connected : Bool)
  | tried (rx : Nat) (r : Except TryRecvError T)
deriving DecidableEq

inductive Op (T : Type) where
  | send (tx : Nat) (m : T)
  | cloneSender (tx : Nat)
  | dropSender (tx : Nat)
  | tryRecv (rx : Nat)
  | cloneReceiver (rx : Nat)
  | dropReceiver (rx : Nat)
deriving DecidableEq

def Op.entry : Op T → Call T
  | .send tx m => .sendLoad tx m
  | .cloneSender tx => .cloneSender tx
  | .dropSender tx => .dropSender tx
  | .tryRecv rx => .load rx
  | .cloneReceiver rx => .cloneReceiver rx
  | .dropReceiver rx => .dropReceiver rx

namespace Call

def endpoint : Call T → Endpoint
  | .sendLoad tx _ | .sendPush tx _ | .sent tx _ _ => .sender tx
  | .cloneSender tx | .clonedSender tx | .dropSender tx | .dropSenderSwap tx => .sender tx
  | .free e | .dropped e _ => e
  | .cloneReceiver rx | .clonedReceiver rx | .dropReceiver rx | .dropReceiverSwap rx =>
      .receiver rx
  | .load rx | .pop rx _ | .tried rx _ => .receiver rx

def returned : Call T → Bool
  | .sent .. | .clonedSender .. | .clonedReceiver .. | .dropped .. | .tried .. => true
  | _ => false

end Call

structure ControlBlock (T : Type) where
  senders : Nat
  receivers : Nat
  connected : Bool
  buffer : RingBuffer T

def ControlBlock.new (lockFree : Bool) (capacity : Nat) (h : 0 < capacity) : ControlBlock T where
  senders := 1
  receivers := 1
  connected := true
  buffer := .new lockFree capacity h

/-- The state of a channel; senders and receivers are known by number. -/
structure State (T : Type) where
  cb : ControlBlock T
  freed : Bool
  txs : List Bool
  rxs : List Bool
  calls : List (Call T)

inductive Act (T : Type) where
  | start (op : Op T)
  | run (c : Nat)
deriving DecidableEq

inductive Event (T : Type) where
  | start (c : Nat) (op : Op T)
  | refuse (c : Nat) (m : T)
  | push (c tx : Nat) (m : T) (overwritten : Option T)
  | pop (c rx : Nat) (got : Option T)
  | free (c : Nat)
  | silent (c : Nat)
deriving DecidableEq

namespace State

/-- `ring_channel(capacity)`, once it has returned. -/
def ringChannel (lockFree : Bool) (capacity : Nat) (h : 0 < capacity) : State T where
  cb := .new lockFree capacity h
  freed := false
  txs := [true]
  rxs := [true]
  calls := []

def busy (b : State T) (e : Endpoint) : Bool :=
  b.calls.any fun c => !c.returned && c.endpoint = e

/-- What Rust's borrows let a client call. -/
def mayStart (b : State T) : Op T → Bool
  | .send tx _ | .cloneSender tx => b.txs[tx]? = some true
  | .dropSender tx => b.txs[tx]? = some true && !b.busy (.sender tx)
  | .tryRecv rx | .cloneReceiver rx => b.rxs[rx]? = some true
  | .dropReceiver rx => b.rxs[rx]? = some true && !b.busy (.receiver rx)

def begin (b : State T) (op : Op T) : State T :=
  match op with
  | .dropSender tx => { b with txs := b.txs.set tx false, calls := b.calls ++ [op.entry] }
  | .dropReceiver rx => { b with rxs := b.rxs.set rx false, calls := b.calls ++ [op.entry] }
  | _ => { b with calls := b.calls ++ [op.entry] }

def move (b : State T) (c : Nat) (d : Call T) (cb : ControlBlock T) : State T :=
  { b with cb := cb, calls := b.calls.set c d }

end State

/-- The next atomic operation of call number `c`. -/
def Call.run (b : State T) (c : Nat) : Call T → Option (Event T × State T)
  | .sendLoad tx m =>
      if 0 < b.cb.receivers then
        some (.silent c, b.move c (.sendPush tx m) b.cb)
      else
        some (.refuse c m, b.move c (.sent tx m (.error (.disconnected m))) b.cb)
  | .sendPush tx m =>
      some (.push c tx m (b.cb.buffer.push m).1,
        b.move c (.sent tx m (.ok (b.cb.buffer.push m).1))
          { b.cb with buffer := (b.cb.buffer.push m).2 })
  | .cloneSender tx =>
      some (.silent c,
        { b.move c (.clonedSender tx) { b.cb with senders := b.cb.senders + 1 } with
          txs := b.txs ++ [true] })
  | .cloneReceiver rx =>
      some (.silent c,
        { b.move c (.clonedReceiver rx) { b.cb with receivers := b.cb.receivers + 1 } with
          rxs := b.rxs ++ [true] })
  | .dropSender tx =>
      some (.silent c,
        b.move c
          (if b.cb.senders = 1 then .dropSenderSwap tx else .dropped (.sender tx) false)
          { b.cb with senders := b.cb.senders - 1 })
  | .dropSenderSwap tx =>
      some (.silent c,
        b.move c (if b.cb.connected then .dropped (.sender tx) true else .free (.sender tx))
          { b.cb with connected := false })
  | .dropReceiver rx =>
      some (.silent c,
        b.move c
          (if b.cb.receivers = 1 then .dropReceiverSwap rx else .dropped (.receiver rx) false)
          { b.cb with receivers := b.cb.receivers - 1 })
  | .dropReceiverSwap rx =>
      some (.silent c,
        b.move c (if b.cb.connected then .dropped (.receiver rx) true else .free (.receiver rx))
          { b.cb with connected := false })
  | .free e => some (.free c, { b.move c (.dropped e true) b.cb with freed := true })
  | .load rx => some (.silent c, b.move c (.pop rx (decide (0 < b.cb.senders))) b.cb)
  | .pop rx connected =>
      some (.pop c rx b.cb.buffer.pop.1,
        b.move c (.tried rx (tryRecvAnswer connected b.cb.buffer.pop.1))
          { b.cb with buffer := b.cb.buffer.pop.2 })
  | .sent .. | .clonedSender .. | .clonedReceiver .. | .dropped .. | .tried .. => none

def step (b : State T) : Act T → Option (Event T × State T)
  | .start op => if b.mayStart op then some (.start b.calls.length op, b.begin op) else none
  | .run c =>
      match b.calls[c]? with
      | some call => call.run b c
      | none => none

/-- The runs of a channel of capacity `n`. -/
abbrev Runs (lockFree : Bool) (n : Nat) (h : 0 < n) : Trace (State T) (Event T) → State T → Prop :=
  Run (Next step) Free (.ringChannel lockFree n h)

/-- The run that the given choices make of a channel of capacity `n`. -/
def schedule (lockFree : Bool) (n : Nat) (h : 0 < n) (as : List (Act T)) :
    Trace (State T) (Event T) × State T :=
  play step Free [] (.ringChannel lockFree n h) as

theorem runs_schedule (lockFree : Bool) (n : Nat) (h : 0 < n) (as : List (Act T)) :
    Runs lockFree n h (schedule lockFree n h as).1 (schedule lockFree n h as).2 :=
  Run.of_play as .start

/-- What a step shows: the loads, the counters and the flag are internal. -/
def look (_ : State T) (e : Event T) (_ : State T) : List (Event T) :=
  match e with
  | .silent _ => []
  | e => [e]

end Bare

/-! ## What the full program shows of a bare one -/

/-- The method of the bare build. -/
def Op.bare : Op T → Option (Bare.Op T)
  | .send tx m => some (.send tx m)
  | .cloneSender tx => some (.cloneSender tx)
  | .dropSender tx => some (.dropSender tx)
  | .tryRecv rx => some (.tryRecv rx)
  | .cloneReceiver rx _ => some (.cloneReceiver rx)
  | .dropReceiver rx => some (.dropReceiver rx)
  | .pollNext _ | .recv _ => none

/-- Where a call of the full program is in the bare one. -/
def Call.bare : Call T → Option (Bare.Call T)
  | .sendLoad tx m => some (.sendLoad tx m)
  | .sendPush tx m => some (.sendPush tx m)
  | .sent tx m r => some (.sent tx m r)
  | .popLock p | .popScan p _ | .wake p _ => match p with
      | .send tx m => some (.sent tx m (.ok none))
      | .dropSender tx => some (.dropSenderSwap tx)
      | .dropReceiver rx => some (.dropReceiver rx)
  | .cloneSender tx => some (.cloneSender tx)
  | .clonedSender tx => some (.clonedSender tx)
  | .cloneReceiver rx _ | .cloneRegister rx _ => some (.cloneReceiver rx)
  | .clonedReceiver rx => some (.clonedReceiver rx)
  | .dropSender tx => some (.dropSender tx)
  | .dropSenderSwap tx => some (.dropSenderSwap tx)
  | .dropReceiver rx | .dropReceiverSub rx => some (.dropReceiver rx)
  | .dropReceiverSwap rx => some (.dropReceiverSwap rx)
  | .free e => some (.free e)
  | .dropped e last => some (.dropped e last)
  | .load rx .tryRecv => some (.load rx)
  | .pop rx .tryRecv connected => some (.pop rx connected)
  | .tried rx r => some (.tried rx r)
  | _ => none

/-- What a step of the full program shows of a bare one. -/
def bareLook (_ : State T) (e : Event T) (_ : State T) : List (Bare.Event T) :=
  match e with
  | .start c op => op.bare.toList.map (.start c)
  | .refuse c m => [.refuse c m]
  | .push c tx m overwritten => [.push c tx m overwritten]
  | .pop c rx got => [.pop c rx got]
  | .free c => [.free c]
  | _ => []

/-- No method is called that waits. -/
def Plain (_ : Trace (State T) (Event T)) (_ : State T) (e : Event T) : Prop :=
  ∀ op ∈ e.op, op.bare.isSome = true

instance (tr : Trace (State T) (Event T)) (s : State T) (e : Event T) : Decidable (Plain tr s e) :=
  inferInstanceAs (Decidable (∀ op ∈ e.op, _))

/-- A clone that has been counted and not yet made. -/
def Call.unmade : Call T → Nat
  | .cloneRegister .. => 1
  | _ => 0

/-- The bare state that is left of `s` when the waitlist is forgotten. -/
structure Erases (s : State T) (b : Bare.State T) : Prop where
  senders : b.cb.senders = s.cb.senders
  receivers : b.cb.receivers + s.count Call.unmade = s.cb.receivers
  connected : b.cb.connected = s.cb.connected
  buffer : b.cb.buffer = s.cb.buffer
  freed : b.freed = s.freed
  txs : b.txs = s.txs
  rxs : ∀ k : Nat, b.rxs[k]? = s.rxs.get k
  fresh : b.rxs.length = s.cb.waitlist.fresh
  calls : s.calls.map Call.bare = b.calls.map some

/-! ## Looking up a call -/

theorem Erases.call {s : State T} {b : Bare.State T} (hR : Erases s b) {c : Nat} {a : Call T}
    (hc : s.calls[c]? = some a) : ∃ d, b.calls[c]? = some d ∧ a.bare = some d := by
  have hmap := congrArg (·[c]?) hR.calls
  simp only [List.getElem?_map, hc, Option.map_some] at hmap
  cases hd : b.calls[c]? with
  | none => rw [hd] at hmap; cases hmap
  | some d =>
      rw [hd] at hmap
      exact ⟨d, rfl, Option.some.inj hmap⟩

theorem Erases.call_of_bare {s : State T} {b : Bare.State T} (hR : Erases s b) {c : Nat}
    {d : Bare.Call T} (hd : b.calls[c]? = some d) :
    ∃ a, s.calls[c]? = some a ∧ a.bare = some d := by
  have hmap := congrArg (·[c]?) hR.calls
  simp only [List.getElem?_map, hd, Option.map_some] at hmap
  exact Option.map_eq_some_iff.mp hmap

theorem Erases.length {s : State T} {b : Bare.State T} (hR : Erases s b) :
    b.calls.length = s.calls.length := by
  have := congrArg List.length hR.calls
  simpa using this.symm

theorem bare_endpoint {a : Call T} {d : Bare.Call T} (h : a.bare = some d) :
    d.endpoint = a.endpoint := by
  cases a with
  | popLock p | popScan p ks | wake p w => cases p <;> (cases h; rfl)
  | load rx l | pop rx l _ =>
      cases l with
      | tryRecv =>
          cases h
          rfl
      | first | again => cases h
  | insert | remove | pending | parked | ready => cases h
  | _ =>
      cases h
      rfl

theorem bare_returned {a : Call T} {d : Bare.Call T} (h : a.bare = some d)
    (ha : a.returned = true) : d.returned = true := by
  cases a with
  | sent | clonedSender | clonedReceiver | dropped | tried =>
      cases h
      rfl
  | pending | ready => cases h
  | _ => cases ha

/-- An endpoint that nobody is using in the full program is not in use in the
bare one. -/
theorem Erases.not_busy {s : State T} {b : Bare.State T} (hR : Erases s b) {e : Endpoint}
    (h : s.busy e = false) : b.busy e = false := by
  refine List.any_eq_false.mpr fun d hmem => ?_
  obtain ⟨c, hd⟩ := List.mem_iff_getElem?.mp hmem
  obtain ⟨a, hc, ha⟩ := hR.call_of_bare hd
  have hfree := List.any_eq_false.mp h a (List.mem_of_getElem? hc)
  simp only [Bool.and_eq_true, Bool.not_eq_true', decide_eq_true_eq, not_and] at hfree ⊢
  intro hret
  rw [bare_endpoint ha]
  refine hfree ?_
  cases har : a.returned with
  | false => rfl
  | true =>
      rw [bare_returned ha har] at hret
      cases hret

/-! ## The counters of receivers -/

theorem exists_unmade {s : State T} (h : 0 < s.count Call.unmade) :
    ∃ (c rx pos : Nat), s.calls[c]? = some (.cloneRegister rx pos) := by
  obtain ⟨c, a, hc, ha⟩ := count_pos h
  cases a with
  | cloneRegister rx pos => exact ⟨c, rx, pos, hc⟩
  | _ => cases ha

/-- A clone that is not yet made has a receiver to be made from, so there are
at least as many receivers as it takes for nobody to notice. -/
theorem unmade_lt_receivers {s : State T} (hw : Wf s) (h : 0 < s.count Call.unmade) (j : Nat)
    (hj : s.count Call.unmade + j ≤ s.count Call.ownsReceiver) :
    s.count Call.unmade + j < s.cb.receivers := by
  obtain ⟨c, rx, pos, hc⟩ := exists_unmade h
  have hlive : true.toNat ≤ s.liveReceivers :=
    SlotMap.le_weight (fun _ b => Bool.toNat b) (hw.borrowed c _ hc rfl)
  have := hw.counted.receivers
  simp only [Bool.toNat_true] at hlive
  omega

theorem unmade_le_ownsReceiver (a : Call T) : a.unmade ≤ a.ownsReceiver := by
  cases a with
  | cloneRegister => exact Nat.le_refl _
  | _ => exact Nat.zero_le _

theorem count_unmade_le (s : State T) : s.count Call.unmade ≤ s.count Call.ownsReceiver :=
  Ledger.total_le_total fun _ a _ => unmade_le_ownsReceiver a

theorem Erases.receivers_pos_iff {s : State T} {b : Bare.State T} (hw : Wf s) (hR : Erases s b) :
    0 < b.cb.receivers ↔ 0 < s.cb.receivers := by
  have hcount := hR.receivers
  rcases Nat.eq_zero_or_pos (s.count Call.unmade) with hnone | hsome
  · omega
  · have := unmade_lt_receivers hw hsome 0 (count_unmade_le s)
    omega

/-- A drop that is about to subtract its receiver finds the same in both. -/
theorem Erases.last_receiver_iff {s : State T} {b : Bare.State T} (hw : Wf s) (hR : Erases s b)
    {c rx : Nat} (hc : s.calls[c]? = some (.dropReceiverSub rx)) :
    b.cb.receivers = 1 ↔ s.cb.receivers = 1 := by
  have hcount := hR.receivers
  rcases Nat.eq_zero_or_pos (s.count Call.unmade) with hnone | hsome
  · omega
  · -- the drop owns a receiver besides those of the clones
    have howns := count_move Call.ownsReceiver (.dropped (.receiver rx) false) s.cb hc
    have hunmade := count_move Call.unmade (.dropped (.receiver rx) false) s.cb hc
    have hle := count_unmade_le (s.move c (.dropped (.receiver rx) false) s.cb)
    simp only [Call.ownsReceiver, Call.unmade] at howns hunmade
    have := unmade_lt_receivers hw hsome 1 (by omega)
    omega

/-! ## Moving a call -/

/-- A call moves in the full program, and nothing of it is seen in the bare
one. -/
theorem Erases.keep {s : State T} {b : Bare.State T} {c : Nat} {a d : Call T}
    {cb : ControlBlock Nat T} (hR : Erases s b) (hc : s.calls[c]? = some a)
    (hbare : d.bare = a.bare) (hsenders : cb.senders = s.cb.senders)
    (hreceivers : cb.receivers + a.unmade = s.cb.receivers + d.unmade)
    (hconnected : cb.connected = s.cb.connected) (hbuffer : cb.buffer = s.cb.buffer)
    (hfresh : cb.waitlist.fresh = s.cb.waitlist.fresh) : Erases (s.move c d cb) b := by
  have hcount := count_move Call.unmade d cb hc
  have hold := hR.receivers
  refine ⟨hR.senders.trans hsenders.symm, ?_, hR.connected.trans hconnected.symm,
    hR.buffer.trans hbuffer.symm, hR.freed, hR.txs, hR.rxs, hR.fresh.trans hfresh.symm, ?_⟩
  · rw [State.move_cb]
    omega
  · obtain ⟨hlt, heq⟩ := List.getElem?_eq_some_iff.mp hc
    rw [State.move_calls, List.map_set, hbare, ← heq, ← List.getElem_map Call.bare,
      List.set_getElem_self, hR.calls]
    simpa using hlt

/-- A call moves in both. -/
theorem Erases.move {s : State T} {b : Bare.State T} {c : Nat} {a d : Call T}
    {d' : Bare.Call T} {cb : ControlBlock Nat T} {cb' : Bare.ControlBlock T} (hR : Erases s b)
    (hc : s.calls[c]? = some a) (hbare : d.bare = some d') (hsenders : cb'.senders = cb.senders)
    (hreceivers : cb'.receivers + s.cb.receivers + d.unmade
      = b.cb.receivers + cb.receivers + a.unmade)
    (hconnected : cb'.connected = cb.connected) (hbuffer : cb'.buffer = cb.buffer)
    (hfresh : cb.waitlist.fresh = s.cb.waitlist.fresh) :
    Erases (s.move c d cb) (b.move c d' cb') := by
  have hcount := count_move Call.unmade d cb hc
  have hold := hR.receivers
  refine ⟨hsenders, ?_, hconnected, hbuffer, hR.freed, hR.txs, hR.rxs,
    hR.fresh.trans hfresh.symm, ?_⟩
  · rw [State.move_cb]
    show cb'.receivers + _ = _
    omega
  · rw [State.move_calls, List.map_set, hbare, hR.calls]
    exact (List.map_set ..).symm

/-! ## The steps that only the full program makes -/

/-- The next step of the call is on the waitlist, or counts a clone that is not
yet made: the bare program has no such step. -/
def Call.inside : Call T → Bool
  | .popLock _ | .popScan .. | .wake .. | .cloneReceiver .. | .dropReceiver _ => true
  | _ => false

theorem afterNone_bare (p : Waking T) (ks : List Nat) :
    p.afterNone.bare = (Call.popScan p ks).bare ∧ p.afterNone.unmade = 0 := by
  cases p <;> exact ⟨rfl, rfl⟩

theorem afterWake_bare (p : Waking T) (w : Waker) :
    p.afterWake.bare = (Call.wake p w).bare ∧ p.afterWake.unmade = 0 := by
  cases p <;> exact ⟨rfl, rfl⟩

/-- Such a step is not seen in the bare program. -/
theorem erases_of_inside {s s' : State T} {e : Event T} {b : Bare.State T} (h : Trans s e s')
    (hR : Erases s b) {a : Call T} (hc : s.calls[e.caller]? = some a) (ha : a.inside = true) :
    Erases s' b ∧ bareLook s e s' = [] ∧ e.byClient = false := by
  have hlt := (List.getElem?_eq_some_iff.mp hc).1
  have hat : ∀ {x : Call T}, s.calls[e.caller]? = some x → x.inside = true := fun hx =>
    Option.some.inj (hc.symm.trans hx) ▸ ha
  clear hc
  cases h with
  | start | startDropSender | startDropReceiver => exact absurd hlt (Nat.lt_irrefl _)
  | @popLock c p hc => exact ⟨hR.keep hc rfl rfl rfl rfl rfl rfl, rfl, rfl⟩
  | @scanEnd c p hc =>
      obtain ⟨hbare, hunmade⟩ := afterNone_bare p []
      exact ⟨hR.keep hc hbare rfl (by rw [hunmade]; rfl) rfl rfl rfl, rfl, rfl⟩
  | scanMiss hc _ => exact ⟨hR.keep hc rfl rfl rfl rfl rfl rfl, rfl, rfl⟩
  | scanHit hc hw => exact ⟨hR.keep hc rfl rfl rfl rfl rfl hw.fresh_eq, rfl, rfl⟩
  | @wake c p w hc =>
      obtain ⟨hbare, hunmade⟩ := afterWake_bare p w
      exact ⟨hR.keep hc hbare rfl (by rw [hunmade]; rfl) rfl rfl rfl, rfl, rfl⟩
  | cloneReceiver hc => exact ⟨hR.keep hc rfl rfl rfl rfl rfl rfl, rfl, rfl⟩
  | deregisterEmpty hc _ hdrop | deregisterFull hc _ hdrop =>
      exact ⟨hR.keep hc rfl rfl rfl rfl rfl hdrop.fresh_eq, rfl, rfl⟩
  | _ => cases hat ‹_›

/-! ## The steps that both programs make -/

theorem bare_step {b : Bare.State T} {c : Nat} {d : Bare.Call T} (hd : b.calls[c]? = some d) :
    Bare.step b (.run c) = d.run b c := by
  simp only [Bare.step, hd]

/-- A call that looks at the buffer and is in the bare program is a `try_recv`. -/
theorem load_of_bare {rx : Nat} {l : Look} {d : Bare.Call T} (h : (Call.load rx l).bare = some d) :
    l = .tryRecv ∧ d = .load rx := by
  cases l with
  | tryRecv =>
      cases h
      exact ⟨rfl, rfl⟩
  | first | again => cases h

theorem pop_of_bare {rx : Nat} {l : Look} {connected : Bool} {d : Bare.Call T}
    (h : (Call.pop rx l connected).bare = some d) : l = .tryRecv ∧ d = .pop rx connected := by
  cases l with
  | tryRecv =>
      cases h
      exact ⟨rfl, rfl⟩
  | first | again => cases h

/-- Every other step of a call in progress is one of the bare program. -/
theorem bare_of_trans {s s' : State T} {e : Event T} {b : Bare.State T} (hw : Wf s)
    (h : Trans s e s') (hclient : e.byClient = false) (hR : Erases s b)
    (hout : ∀ a, s.calls[e.caller]? = some a → a.inside = false) :
    ∃ e' b', Bare.step b (.run e.caller) = some (e', b') ∧
      Bare.look b e' b' = bareLook s e s' ∧ Erases s' b' := by
  cases h with
  | start | startDropSender | startDropReceiver | repoll => cases hclient
  | popLock hc | scanEnd hc | scanMiss hc _ | scanHit hc _ | wake hc | cloneReceiver hc
  | deregisterEmpty hc _ _ | deregisterFull hc _ _ => cases hout _ hc
  | @sendLoad c tx m hc hpos =>
      obtain ⟨d, hd, hbare⟩ := hR.call hc
      cases hbare
      exact ⟨_, _, (bare_step hd).trans (if_pos ((hR.receivers_pos_iff hw).mpr hpos)), rfl,
        hR.move hc rfl hR.senders rfl hR.connected hR.buffer rfl⟩
  | @refuse c tx m hc hz =>
      obtain ⟨d, hd, hbare⟩ := hR.call hc
      cases hbare
      have hnone : ¬ 0 < b.cb.receivers := by
        rw [hR.receivers_pos_iff hw]
        omega
      exact ⟨_, _, (bare_step hd).trans (if_neg hnone), rfl,
        hR.move hc rfl hR.senders rfl hR.connected hR.buffer rfl⟩
  | @pushNew c tx m hc hpush | @pushOver c tx m x hc hpush =>
      obtain ⟨d, hd, hbare⟩ := hR.call hc
      cases hbare
      rw [← hR.buffer] at hpush ⊢
      refine ⟨_, _, bare_step hd, ?_, hR.move hc ?_ hR.senders rfl hR.connected rfl rfl⟩
      · rw [hpush]
        rfl
      · rw [hpush]
        rfl
  | @cloneSender c tx hc =>
      obtain ⟨d, hd, hbare⟩ := hR.call hc
      cases hbare
      have hmove : Erases (s.move c (.clonedSender tx) { s.cb with senders := s.cb.senders + 1 })
          (b.move c (.clonedSender tx) { b.cb with senders := b.cb.senders + 1 }) :=
        hR.move hc rfl (congrArg (· + 1) hR.senders) rfl hR.connected hR.buffer rfl
      exact ⟨_, _, bare_step hd, rfl, { hmove with txs := congrArg (· ++ [true]) hR.txs }⟩
  | @cloneRegister c rx pos k wl hc _ hadd =>
      obtain ⟨d, hd, hbare⟩ := hR.call hc
      cases hbare
      have hmove : Erases (s.move c (.clonedReceiver rx) s.cb)
          (b.move c (.clonedReceiver rx) { b.cb with receivers := b.cb.receivers + 1 }) :=
        hR.move hc rfl hR.senders (Nat.add_right_comm b.cb.receivers 1 s.cb.receivers)
          hR.connected hR.buffer rfl
      have hnew := get_of_adds hw.registered.known hadd
      have hlast : b.rxs.length = k := hR.fresh.trans hadd.fresh_before
      refine ⟨_, _, bare_step hd, rfl, { hmove with rxs := fun j => ?_, fresh := ?_ }⟩
      · show (b.rxs ++ [true])[j]? = (s.rxs.insertAt 0 k true).get j
        rcases eq_or_ne j k with rfl | hj
        · rw [SlotMap.get_insertAt_self 0 true hnew, ← hlast, List.getElem?_concat_length]
        · rw [SlotMap.get_insertAt_ne 0 true hj, ← hR.rxs j]
          exact Ledger.getElem?_concat_off true (hlast ▸ hj)
      · show (b.rxs ++ [true]).length = wl.fresh
        rw [List.length_append, hlast, hadd.fresh_eq]
        rfl
  | @dropSenderLast c tx hc hone =>
      obtain ⟨d, hd, hbare⟩ := hR.call hc
      cases hbare
      refine ⟨_, _, bare_step hd, rfl,
        hR.move hc ?_ (congrArg (· - 1) hR.senders) rfl hR.connected hR.buffer rfl⟩
      rw [if_pos (hR.senders.trans hone)]
      rfl
  | @dropSenderMore c tx hc hmore =>
      obtain ⟨d, hd, hbare⟩ := hR.call hc
      cases hbare
      refine ⟨_, _, bare_step hd, rfl,
        hR.move hc ?_ (congrArg (· - 1) hR.senders) rfl hR.connected hR.buffer rfl⟩
      rw [if_neg (hR.senders ▸ hmore)]
      rfl
  | @senderSwapFirst c tx hc hconn | @senderSwapSecond c tx hc hconn
  | @receiverSwapFirst c rx hc hconn | @receiverSwapSecond c rx hc hconn =>
      obtain ⟨d, hd, hbare⟩ := hR.call hc
      cases hbare
      refine ⟨_, _, bare_step hd, rfl, hR.move hc ?_ hR.senders rfl rfl hR.buffer rfl⟩
      rw [hR.connected, hconn]
      rfl
  | @dropReceiverLast c rx hc hone =>
      obtain ⟨d, hd, hbare⟩ := hR.call hc
      cases hbare
      have hone' := (hR.last_receiver_iff hw hc).mpr hone
      refine ⟨_, _, bare_step hd, rfl, hR.move hc ?_ hR.senders ?_ hR.connected hR.buffer rfl⟩
      · rw [if_pos hone']
        rfl
      · show b.cb.receivers - 1 + s.cb.receivers + 0 = b.cb.receivers + (s.cb.receivers - 1) + 0
        omega
  | @dropReceiverMore c rx hc hmore =>
      obtain ⟨d, hd, hbare⟩ := hR.call hc
      cases hbare
      have hmore' := (hR.last_receiver_iff hw hc).not.mpr hmore
      have hpos : 0 < s.cb.receivers := by
        have howns : 1 ≤ s.count Call.ownsReceiver := le_count Call.ownsReceiver hc
        have := hw.counted.receivers
        omega
      have hpos' := (hR.receivers_pos_iff hw).mpr hpos
      refine ⟨_, _, bare_step hd, rfl, hR.move hc ?_ hR.senders ?_ hR.connected hR.buffer rfl⟩
      · rw [if_neg hmore']
        rfl
      · show b.cb.receivers - 1 + s.cb.receivers + 0 = b.cb.receivers + (s.cb.receivers - 1) + 0
        omega
  | @free c e hc =>
      obtain ⟨d, hd, hbare⟩ := hR.call hc
      cases hbare
      have hmove : Erases (s.move c (.dropped e true) s.cb) (b.move c (.dropped e true) b.cb) :=
        hR.move hc rfl hR.senders rfl hR.connected hR.buffer rfl
      exact ⟨_, _, bare_step hd, rfl, { hmove with freed := rfl }⟩
  | @load c rx l hc =>
      obtain ⟨d, hd, hbare⟩ := hR.call hc
      obtain ⟨rfl, rfl⟩ := load_of_bare hbare
      refine ⟨_, _, bare_step hd, rfl, hR.move hc ?_ hR.senders rfl hR.connected hR.buffer rfl⟩
      rw [hR.senders]
      rfl
  | @popSome c rx l connected m hc hpop =>
      obtain ⟨d, hd, hbare⟩ := hR.call hc
      obtain ⟨rfl, rfl⟩ := pop_of_bare hbare
      rw [← hR.buffer] at hpop ⊢
      refine ⟨_, _, bare_step hd, ?_, hR.move hc ?_ hR.senders rfl hR.connected rfl rfl⟩
      · rw [hpop]
        rfl
      · rw [hpop]
        rfl
  | @popEmpty c rx l hc hpop | @popDisconnected c rx l hc hpop =>
      obtain ⟨d, hd, hbare⟩ := hR.call hc
      obtain ⟨rfl, rfl⟩ := pop_of_bare hbare
      rw [← hR.buffer] at hpop ⊢
      refine ⟨_, _, bare_step hd, ?_, hR.move hc ?_ hR.senders rfl hR.connected rfl rfl⟩
      · rw [hpop]
        rfl
      · rw [hpop]
        rfl
  | insert hc _ | remove hc _ =>
      obtain ⟨d, -, hbare⟩ := hR.call hc
      cases hbare

/-! ## The calls that both programs make -/

theorem Erases.concat {s : State T} {b : Bare.State T} (hR : Erases s b) {op : Op T}
    {op' : Bare.Op T} (hop : op.bare = some op') {txs txs' : List Bool} {rxs : SlotMap Bool}
    {rxs' : List Bool} (htxs : txs' = txs) (hrxs : ∀ k : Nat, rxs'[k]? = rxs.get k)
    (hfresh : rxs'.length = s.cb.waitlist.fresh) :
    Erases { s with txs := txs, rxs := rxs, calls := s.calls ++ [op.entry] }
      { b with txs := txs', rxs := rxs', calls := b.calls ++ [op'.entry] } := by
  have hentry : op.entry.bare = some op'.entry ∧ op.entry.unmade = 0 := by
    cases op with
    | pollNext | recv => cases hop
    | _ =>
        cases hop
        exact ⟨rfl, rfl⟩
  refine ⟨hR.senders, ?_, hR.connected, hR.buffer, hR.freed, htxs, hrxs, hfresh, ?_⟩
  · rw [count_concat s Call.unmade txs rxs op.entry, hentry.2]
    exact hR.receivers
  · simp only [List.map_append, List.map_cons, List.map_nil, hR.calls, hentry.1]

/-- A method that can be called in the full program can be called in the bare
one. -/
theorem bare_of_start {s : State T} {b : Bare.State T} (hR : Erases s b) {op : Op T}
    {op' : Bare.Op T} (hop : op.bare = some op') (hstart : s.mayStart op = true) :
    b.mayStart op' = true ∧ Erases (s.begin op) (b.begin op') := by
  have hquiet : Erases { s with calls := s.calls ++ [op.entry] }
      { b with calls := b.calls ++ [op'.entry] } := hR.concat hop hR.txs hR.rxs hR.fresh
  cases op with
  | pollNext | recv => cases hop
  | send tx m | cloneSender tx =>
      cases hop
      refine ⟨?_, hquiet⟩
      simp only [Bare.State.mayStart, hR.txs]
      exact hstart
  | tryRecv rx | cloneReceiver rx pos =>
      cases hop
      refine ⟨?_, hquiet⟩
      simp only [State.mayStart, Bool.and_eq_true] at hstart
      simp only [Bare.State.mayStart, hR.rxs]
      exact hstart.1
  | dropSender tx =>
      cases hop
      simp only [State.mayStart, Bool.and_eq_true, Bool.not_eq_true'] at hstart
      have htxs := congrArg (·.set tx false) hR.txs
      refine ⟨?_, hR.concat (show (Op.dropSender tx).bare = _ from rfl) htxs hR.rxs hR.fresh⟩
      simp only [Bare.State.mayStart, hR.txs, hstart.1, hR.not_busy hstart.2]
      rfl
  | dropReceiver rx =>
      cases hop
      simp only [State.mayStart, Bool.and_eq_true, Bool.not_eq_true', decide_eq_true_eq] at hstart
      refine ⟨?_, hR.concat (show (Op.dropReceiver rx).bare = _ from rfl) hR.txs (fun k => ?_) ?_⟩
      · simp only [Bare.State.mayStart, hR.rxs, hstart.1, hR.not_busy hstart.2]
        rfl
      · have hrx : b.rxs[rx]? = some true := (hR.rxs rx).trans hstart.1
        rcases eq_or_ne k rx with rfl | hk
        · rw [SlotMap.get_set_self false hstart.1, Ledger.getElem?_set_self_of false hrx]
        · rw [SlotMap.get_set_ne false hk, Ledger.getElem?_set_off false hk, hR.rxs]
      · rw [List.length_set, hR.fresh]

/-! ## The bare program simulates the full one -/

theorem erases_start (lay : Layout) (n : Nat) (h : 0 < n) :
    Erases (State.ringChannel lay n h : State T) (.ringChannel lay.message n h) where
  senders := rfl
  receivers := rfl
  connected := rfl
  buffer := rfl
  freed := rfl
  txs := rfl
  rxs k := by
    cases k with
    | zero => rfl
    | succ k =>
        have hne : k + 1 ≠ 0 := Nat.succ_ne_zero k
        exact (SlotMap.get_insertAt_ne (m := SlotMap.empty) 0 true hne).symm
  fresh := rfl
  calls := rfl

/-- A step of the full program is a step of the bare one, or none. -/
theorem bare_of_step {lay : Layout} {n : Nat} {h : 0 < n} {tr : Trace (State T) (Event T)}
    {s s' : State T} {e : Event T} {b : Bare.State T} {tr' : Trace (Bare.State T) (Bare.Event T)}
    (hrun : Runs Plain lay n h tr s) (hn : Next step s e s') (hok : Plain tr s e)
    (hR : Erases s b) :
    ∃ tr'' b', Answers (Next Bare.step) Free Bare.look tr' b (bareLook s e s') tr'' b' ∧
      Erases s' b' := by
  have hw := wf_of_run hrun
  have htrans := trans_of_next hn
  have hanswer : ∀ (act : Bare.Act T) {e' : Bare.Event T} {b' : Bare.State T},
      Bare.step b act = some (e', b') → Bare.look b e' b' = bareLook s e s' → Erases s' b' →
      ∃ tr'' b', Answers (Next Bare.step) Free Bare.look tr' b (bareLook s e s') tr'' b' ∧
        Erases s' b' := by
    intro act e' b' hstep hlook hR'
    have hone : Answers (Next Bare.step) Free Bare.look tr' b (Bare.look b e' b') [(b, e')] b' :=
      .one ⟨act, hstep⟩ trivial
    exact ⟨_, b', hlook ▸ hone, hR'⟩
  obtain ⟨act, hact⟩ := hn
  cases act with
  | start op =>
      simp only [step] at hact
      split at hact
      · rename_i hstart
        cases hact
        obtain ⟨op', hop⟩ := Option.isSome_iff_exists.mp (hok op rfl)
        obtain ⟨hstart', hR'⟩ := bare_of_start hR hop hstart
        refine hanswer (.start op') (if_pos hstart') ?_ hR'
        rw [hR.length]
        simp only [Bare.look, bareLook, hop]
        rfl
      · cases hact
  | unpark c =>
      simp only [step] at hact
      split at hact
      · rename_i hc
        obtain ⟨d, -, hbare⟩ := hR.call hc
        cases hbare
      · cases hact
  | run c =>
      obtain ⟨a, hc, rfl, hclient, -⟩ := caller_of_step hact
      cases ha : a.inside with
      | true =>
          obtain ⟨hR', hlook, -⟩ := erases_of_inside htrans hR hc ha
          rw [hlook]
          exact ⟨[], b, .nil tr' b, hR'⟩
      | false =>
          obtain ⟨e', b', hstep, hlook, hR'⟩ := bare_of_trans hw htrans hclient hR
            fun x hx => Option.some.inj (hc.symm.trans hx) ▸ ha
          exact hanswer _ hstep hlook hR'

/-- Whatever a client of the full channel sees that calls only the methods that
never wait, it can see of the channel built without the feature. -/
theorem bare_of_plain {lay : Layout} {n : Nat} {h : 0 < n} {tr : Trace (State T) (Event T)}
    {s : State T} (hrun : Runs Plain lay n h tr s) :
    ∃ tr' b, Bare.Runs lay.message n h tr' b ∧ shown Bare.look tr' b = shown bareLook tr s ∧
      Erases s b := by
  have hsim : Simulates (Next step) Plain (.ringChannel lay n h) bareLook (Next Bare.step) Free
      (.ringChannel lay.message n h) Bare.look (Erases (T := T)) :=
    { start := erases_start lay n h
      step := fun hrun hn hok _ hR => bare_of_step hrun hn hok hR }
  exact hsim.run hrun

/-- A send, a receive that starts before the send has looked for a waker, and
the drop of a clone of the receiver, all at once. -/
def sendAcrossAClone : List (Act Nat) :=
  [.start (.cloneReceiver 0 1), .run 0, .start (.send 0 7), .run 1, .run 0, .run 1,
    .start (.dropReceiver 1), .run 1, .run 2, .start (.tryRecv 0), .run 3, .run 3, .run 2, .run 1,
    .run 1, .run 1, .run 1, .run 1, .run 2, .run 2, .run 2, .run 2]

theorem bare_of_plain_in_sendAcrossAClone :
    ∃ (tr : Trace (Bare.State Nat) (Bare.Event Nat)) (b : Bare.State Nat),
      Bare.Runs true 1 Nat.one_pos tr b ∧
      shown Bare.look tr b = [.start 0 (.cloneReceiver 0), .start 1 (.send 0 7),
        .push 1 0 7 none, .start 2 (.dropReceiver 1), .start 3 (.tryRecv 0),
        .pop 3 0 (some 7)] := by
  obtain ⟨tr, b, hrun, hshown, -⟩ := bare_of_plain
    (runs_schedule Plain ⟨true, true⟩ 1 Nat.one_pos sendAcrossAClone)
  exact ⟨tr, b, hrun, hshown.trans (by decide)⟩

end RingChannel
