/-
# `RingChannel.Accounting` — every message is somewhere, and only once

A message enters the books when its send takes its decision: the push, or the
refusal.  From then on it is in exactly one of four places: refused by that
send, handed back by a later one, delivered to a receiver, or in the buffer.
The first three are read off the program points of the calls, so each of them
is a total over the calls, and the balance (`Accounted`) is an equation of
multisets.

A report of disconnection is final because the order of `try_recv` is: it reads
the counter first.  A count of zero stays zero, nobody can push any more, and
so the empty buffer that the pop then finds stays empty (`Ended`).
-/
import RingChannel.Endpoints
import Mathlib.Algebra.Order.Group.Multiset
import Mathlib.Tactic.Abel

namespace RingChannel

variable {T : Type}

/-! ## The books -/

namespace Call

/-- The message that the send has pushed. -/
def accepted : Call T → Multiset T
  | .popLock (.send _ m) | .popScan (.send _ m) _ | .wake (.send _ m) _ | .sent _ m (.ok _) => {m}
  | _ => 0

/-- The message that the send has handed back as not sent. -/
def refused : Call T → Multiset T
  | .sent _ _ (.error (.disconnected m)) => {m}
  | _ => 0

/-- The message of another send that the send has handed back as overwritten. -/
def handedBack : Call T → Multiset T
  | .sent _ _ (.ok (some x)) => {x}
  | _ => 0

/-- The message that the receive has popped. -/
def delivered : Call T → Multiset T
  | .tried _ (.ok m) | .remove _ _ (some m) | .ready _ _ (some m) => {m}
  | _ => 0

/-- The message whose send has taken its decision. -/
def decided : Call T → Multiset T
  | .popLock (.send _ m) | .popScan (.send _ m) _ | .wake (.send _ m) _ | .sent _ m _ => {m}
  | _ => 0

end Call

/-- The messages that `f` finds in the calls. -/
def State.gather (s : State T) (f : Call T → Multiset T) : Multiset T :=
  Ledger.total (fun _ => f) s.calls

theorem gather_move {s : State T} {c : Nat} {a : Call T} (f : Call T → Multiset T) (d : Call T)
    (cb : ControlBlock Nat T) (h : s.calls[c]? = some a) :
    (s.move c d cb).gather f + f a = s.gather f + f d :=
  Ledger.total_set d h fun _ _ _ _ => rfl

theorem gather_concat (s : State T) (f : Call T → Multiset T) (txs : List Bool)
    (rxs : SlotMap Bool) (a : Call T) :
    State.gather { s with txs := txs, rxs := rxs, calls := s.calls ++ [a] } f
      = s.gather f + f a :=
  Ledger.total_concat a fun _ _ _ => rfl

/-- The balance. -/
def Accounted (s : State T) : Prop :=
  s.gather Call.decided
    = s.gather Call.refused + s.gather Call.handedBack + s.gather Call.delivered
      + (s.cb.buffer.contents : Multiset T)

/-- A call moves, and what it adds to the books on one side it adds on the
other, the buffer included. -/
theorem accounted_move {s : State T} {c : Nat} {a d : Call T} {b : ControlBlock Nat T}
    (hc : s.calls[c]? = some a)
    (hbal : d.decided + a.refused + a.handedBack + a.delivered
        + (s.cb.buffer.contents : Multiset T)
      = a.decided + d.refused + d.handedBack + d.delivered + (b.buffer.contents : Multiset T))
    (hi : Accounted s) : Accounted (s.move c d b) := by
  classical
  unfold Accounted at hi ⊢
  ext m
  have h₁ := congrArg (Multiset.count m) (gather_move Call.decided d b hc)
  have h₂ := congrArg (Multiset.count m) (gather_move Call.refused d b hc)
  have h₃ := congrArg (Multiset.count m) (gather_move Call.handedBack d b hc)
  have h₄ := congrArg (Multiset.count m) (gather_move Call.delivered d b hc)
  have hi := congrArg (Multiset.count m) hi
  have hbal := congrArg (Multiset.count m) hbal
  simp only [Multiset.count_add, State.move_cb] at h₁ h₂ h₃ h₄ hi hbal ⊢
  omega

theorem entry_books (op : Op T) :
    op.entry.decided = 0 ∧ op.entry.refused = 0 ∧ op.entry.handedBack = 0 ∧
      op.entry.delivered = 0 := by
  cases op <;> exact ⟨rfl, rfl, rfl, rfl⟩

theorem accounted_concat {s : State T} (op : Op T) (txs : List Bool) (rxs : SlotMap Bool)
    (hi : Accounted s) :
    Accounted { s with txs := txs, rxs := rxs, calls := s.calls ++ [op.entry] } := by
  obtain ⟨h₁, h₂, h₃, h₄⟩ := entry_books op
  unfold Accounted at hi ⊢
  rw [gather_concat, gather_concat, gather_concat, gather_concat, h₁, h₂, h₃, h₄]
  simpa using hi

/-- What an answer of `try_recv` puts into the books. -/
theorem answered_books (rx : Nat) (l : Look) (r : Except TryRecvError T) :
    (l.answered rx r).decided = 0 ∧ (l.answered rx r).refused = 0 ∧
      (l.answered rx r).handedBack = 0 ∧
      (l.answered rx r).delivered = match r with
        | .ok m => {m}
        | .error _ => 0 := by
  rcases l with _ | p | ⟨_ | _⟩ <;> rcases r with (_ | _) | m <;> exact ⟨rfl, rfl, rfl, rfl⟩

theorem accounted_step {s s' : State T} {e : Event T} (h : Trans s e s')
    (hi : Accounted s) : Accounted s' := by
  cases h with
  | @start op _ _ => exact accounted_concat op s.txs s.rxs hi
  | @startDropSender tx _ _ => exact accounted_concat (.dropSender tx) _ s.rxs hi
  | @startDropReceiver rx _ _ => exact accounted_concat (.dropReceiver rx) s.txs _ hi
  | @pushNew c tx m hc hpush =>
      refine accounted_move hc ?_ hi
      simp only [Call.decided, Call.refused, Call.handedBack, Call.delivered,
        RingBuffer.contents_of_push_none hpush, ← Multiset.coe_add, Multiset.coe_singleton]
      abel
  | @pushOver c tx m x hc hpush =>
      obtain ⟨hbefore, hafter⟩ := RingBuffer.contents_of_push_some hpush
      refine accounted_move hc ?_ hi
      simp only [Call.decided, Call.refused, Call.handedBack, Call.delivered, hafter]
      rw [hbefore, List.tail_cons, ← Multiset.coe_add, ← Multiset.cons_coe,
        ← Multiset.singleton_add, Multiset.coe_singleton]
      abel
  | @popSome c rx l _ m hc hpop =>
      obtain ⟨h₁, h₂, h₃, h₄⟩ := answered_books rx l (.ok m)
      refine accounted_move hc ?_ hi
      rw [h₁, h₂, h₃, h₄, RingBuffer.contents_of_pop_some hpop, ← Multiset.cons_coe,
        ← Multiset.singleton_add]
      simp only [Call.decided, Call.refused, Call.handedBack, Call.delivered]
      abel
  | @popEmpty c rx l hc hpop | @popDisconnected c rx l hc hpop =>
      obtain ⟨hbefore, hafter⟩ := RingBuffer.contents_of_pop_none hpop
      obtain ⟨h₁, h₂, h₃, h₄⟩ := answered_books (T := T) rx l (.error _)
      refine accounted_move hc ?_ hi
      rw [h₁, h₂, h₃, h₄, hbefore, hafter]
      rfl
  | @cloneSender c tx hc =>
      exact accounted_move (d := .clonedSender tx) (b := s.cb) hc rfl hi
  | @cloneRegister c rx pos k wl hc _ _ =>
      exact accounted_move (d := .clonedReceiver rx) (b := s.cb) hc rfl hi
  | @free c e hc => exact accounted_move (d := .dropped e true) (b := s.cb) hc rfl hi
  | @popLock c p hc | @scanEnd c p hc | @scanMiss c k p ks hc _ | @scanHit c k p ks w wl hc _
  | @wake c p w hc =>
      cases p <;> exact accounted_move hc rfl hi
  | @remove c rx p r old wl hc _ => cases r <;> exact accounted_move hc rfl hi
  | _ => refine accounted_move ‹_› ?_ hi; rfl

/-! ## One message for each receive -/

/-- Call `c` takes a message out of the buffer. -/
def Event.removes (c : Nat) : Event T → Bool
  | .pop d _ (some _) => d = c
  | _ => false

/-- How many messages call `c` has. -/
def State.holds (s : State T) (c : Nat) : Nat :=
  s.calls[c]?.elim 0 fun a => a.delivered.card

/-- A call moves, and takes no message. -/
theorem holds_move {s : State T} {c j : Nat} {a d : Call T} {b : ControlBlock Nat T}
    {e : Event T} (hc : s.calls[c]? = some a) (hd : d.delivered = a.delivered)
    (he : e.removes j = false) :
    (s.move c d b).holds j = s.holds j + (e.removes j).toNat := by
  rw [he, Bool.toNat_false, Nat.add_zero]
  unfold State.holds
  by_cases hj : j = c
  · rw [hj, State.move_calls, Ledger.getElem?_set_self_of d hc, hc]
    exact congrArg Multiset.card hd
  · rw [State.move_calls, Ledger.getElem?_set_off d hj]

theorem holds_concat (s : State T) (op : Op T) (txs : List Bool) (rxs : SlotMap Bool) (j : Nat) :
    State.holds { s with txs := txs, rxs := rxs, calls := s.calls ++ [op.entry] } j
      = s.holds j := by
  unfold State.holds
  rw [List.getElem?_append]
  split
  · rfl
  · rename_i hj
    rw [List.getElem?_eq_none (Nat.le_of_not_lt hj)]
    cases j - s.calls.length with
    | zero => exact congrArg Multiset.card (entry_books op).2.2.2
    | succ i => rfl

theorem holds_of_trans {s s' : State T} {e : Event T} (h : Trans s e s') (j : Nat) :
    s'.holds j = s.holds j + (e.removes j).toNat := by
  cases h with
  | @start op _ _ => exact holds_concat s op s.txs s.rxs j
  | @startDropSender tx _ _ => exact holds_concat s (.dropSender tx) _ s.rxs j
  | @startDropReceiver rx _ _ => exact holds_concat s (.dropReceiver rx) s.txs _ j
  | @popSome c rx l b m hc _ =>
      have hd := (answered_books rx l (.ok m)).2.2.2
      unfold State.holds
      by_cases hj : j = c
      · rw [hj, State.move_calls, Ledger.getElem?_set_self_of _ hc, hc]
        simp only [Option.elim_some, hd, Event.removes, decide_true, Bool.toNat_true]
        rfl
      · rw [State.move_calls, Ledger.getElem?_set_off _ hj]
        simp [Event.removes, Ne.symm hj]
  | @popEmpty c rx l hc _ | @popDisconnected c rx l hc _ =>
      exact holds_move hc (answered_books (T := T) rx l (.error _)).2.2.2 rfl
  | @cloneSender c tx hc =>
      exact holds_move (d := .clonedSender tx) (b := s.cb) (e := .silent c) hc rfl rfl
  | @cloneRegister c rx pos k wl hc _ _ =>
      exact holds_move (d := .clonedReceiver rx) (b := s.cb) (e := .silent c) hc rfl rfl
  | @free c e hc =>
      exact holds_move (d := .dropped e true) (b := s.cb) (e := .free c) hc rfl rfl
  | @scanEnd c p hc | @wake c p w hc => cases p <;> (refine holds_move hc ?_ rfl; rfl)
  | @remove c rx p r old wl hc _ => cases r <;> (refine holds_move hc ?_ rfl; rfl)
  | _ => refine holds_move ‹_› ?_ rfl; rfl

theorem holds_of_run {ok : Trace (State T) (Event T) → State T → Event T → Prop} {lay : Layout}
    {n : Nat} {h : 0 < n} {tr : Trace (State T) (Event T)} {s : State T}
    (hrun : Runs ok lay n h tr s) (c : Nat) :
    tr.countP (fun p => p.2.removes c) = s.holds c := by
  induction hrun with
  | start => rfl
  | step _ hn _ ih =>
      rw [List.countP_cons, ih, holds_of_trans (trans_of_next hn)]
      split <;> simp_all

theorem holds_le_one (s : State T) (c : Nat) : s.holds c ≤ 1 := by
  unfold State.holds
  cases s.calls[c]? with
  | none => exact Nat.zero_le 1
  | some a =>
      simp only [Option.elim_some]
      unfold Call.delivered
      split <;> simp

/-! ## The end of the stream -/

namespace Call

/-- The receive has returned, and what it returned is that the channel is
disconnected. -/
def reports : Call T → Bool
  | .tried _ (.error .disconnected) | .ready _ _ none => true
  | _ => false

/-- The receive has found the channel disconnected. -/
def foundOver : Call T → Bool
  | .tried _ (.error .disconnected) | .remove _ _ none | .ready _ _ none => true
  | _ => false

/-- The receive has read a sender count of zero. -/
def readZero : Call T → Bool
  | .pop _ _ connected => !connected
  | _ => false

/-- The receive has begun its first look at the buffer after the stream ended,
and has found nothing else so far. -/
def late : Call T → Bool
  | .load _ .tryRecv | .load _ (.first _) => true
  | .pop _ .tryRecv connected | .pop _ (.first _) connected => !connected
  | a => a.foundOver

end Call

/-- Some receive has returned that the channel is disconnected. -/
def State.Reported (s : State T) : Prop := ∃ a ∈ s.calls, a.reports = true

instance (s : State T) : Decidable s.Reported := inferInstanceAs (Decidable (∃ a ∈ s.calls, _))

/-- A count that was read as zero is zero, and a stream found over is over. -/
structure Ended (s : State T) : Prop where
  zero : ∀ (c : Nat) (a : Call T), s.calls[c]? = some a →
    a.readZero = true ∨ a.foundOver = true → s.cb.senders = 0
  empty : ∀ (c : Nat) (a : Call T), s.calls[c]? = some a → a.foundOver = true →
    s.cb.buffer.contents = []

theorem ended_move {s : State T} {c : Nat} {a d : Call T} {cb : ControlBlock Nat T}
    (hc : s.calls[c]? = some a)
    (hsenders : s.cb.senders = 0 → cb.senders = 0)
    (hcontents : s.cb.senders = 0 → s.cb.buffer.contents = [] → cb.buffer.contents = [])
    (hzero : d.readZero = true ∨ d.foundOver = true →
      a.readZero = true ∨ a.foundOver = true ∨ s.cb.senders = 0)
    (hempty : d.foundOver = true → a.foundOver = true ∨ cb.buffer.contents = [])
    (hi : Ended s) : Ended (s.move c d cb) where
  zero j b hj hb := by
    rcases Ledger.getElem?_set_cases hj with ⟨-, rfl⟩ | ⟨-, hold⟩
    · rcases hzero hb with h | h | h
      · exact hsenders (hi.zero c a hc (Or.inl h))
      · exact hsenders (hi.zero c a hc (Or.inr h))
      · exact hsenders h
    · exact hsenders (hi.zero j b hold hb)
  empty j b hj hb := by
    rcases Ledger.getElem?_set_cases hj with ⟨-, rfl⟩ | ⟨-, hold⟩
    · rcases hempty hb with h | h
      · exact hcontents (hi.zero c a hc (Or.inr h)) (hi.empty c a hc h)
      · exact h
    · exact hcontents (hi.zero j b hold (Or.inr hb)) (hi.empty j b hold hb)

theorem answered_readZero (rx : Nat) (l : Look) (r : Except TryRecvError T) :
    (l.answered rx r).readZero = false := by
  rcases l with _ | p | ⟨_ | _⟩ <;> rcases r with (_ | _) | m <;> rfl

theorem answered_foundOver (rx : Nat) (l : Look) (r : Except TryRecvError T) :
    (l.answered rx r).foundOver = match r with
      | .error .disconnected => true
      | _ => false := by
  rcases l with _ | p | ⟨_ | _⟩ <;> rcases r with (_ | _) | m <;> rfl

/-- A call moves, and what it knows of the end of the stream does not change. -/
theorem ended_frame {s s' : State T} {e : Event T} {c : Nat} {a d : Call T}
    {cb : ControlBlock Nat T} (hw : Wf s) (h : Trans s e s') (hcb : s'.cb = cb)
    (hc : s.calls[c]? = some a) (hread : d.readZero = a.readZero)
    (hfound : d.foundOver = a.foundOver) (hi : Ended s) : Ended (s.move c d cb) :=
  ended_move hc (fun hz => hcb ▸ senders_zero_of_trans hw h hz)
    (fun hz hnil => hcb ▸ contents_nil_of_trans hw h hz hnil)
    (fun hd => by rw [hread, hfound] at hd; exact hd.imp id Or.inl)
    (fun hd => Or.inl (hfound ▸ hd)) hi

theorem entry_ended (op : Op T) :
    op.entry.readZero = false ∧ op.entry.foundOver = false := by
  cases op <;> exact ⟨rfl, rfl⟩

theorem ended_concat {s : State T} (op : Op T) (txs : List Bool) (rxs : SlotMap Bool)
    (hi : Ended s) :
    Ended { s with txs := txs, rxs := rxs, calls := s.calls ++ [op.entry] } := by
  obtain ⟨h₁, h₂⟩ := entry_ended op
  constructor
  · intro j b hj hb
    rcases Ledger.getElem?_concat_cases hj with ⟨-, rfl⟩ | hj
    · rw [h₁, h₂] at hb
      simp at hb
    · exact hi.zero j b hj hb
  · intro j b hj hb
    rcases Ledger.getElem?_concat_cases hj with ⟨-, rfl⟩ | hj
    · rw [h₂] at hb
      cases hb
    · exact hi.empty j b hj hb

theorem ended_step {s s' : State T} {e : Event T} (hw : Wf s) (h : Trans s e s')
    (hi : Ended s) : Ended s' := by
  have htrans := h
  cases h with
  | @start op _ _ => exact ended_concat op s.txs s.rxs hi
  | @startDropSender tx _ _ => exact ended_concat (.dropSender tx) _ s.rxs hi
  | @startDropReceiver rx _ _ => exact ended_concat (.dropReceiver rx) s.txs _ hi
  | @load c rx l hc =>
      -- the read is the moment at which a zero count becomes known
      refine ended_move hc id (fun _ h => h) (fun hd => Or.inr (Or.inr ?_)) ?_ hi
      · rcases hd with hd | hd
        · simpa [Call.readZero] using hd
        · cases hd
      · intro hd
        cases hd
  | @popSome c rx l b m hc hpop =>
      refine ended_move hc id (contents_nil_of_trans hw htrans) (fun hd => ?_) (fun hd => ?_) hi
      · rw [answered_readZero, answered_foundOver] at hd
        simp at hd
      · rw [answered_foundOver] at hd
        cases hd
  | @popEmpty c rx l hc hpop =>
      refine ended_move hc id (contents_nil_of_trans hw htrans) (fun hd => ?_) (fun hd => ?_) hi
      · rw [answered_readZero, answered_foundOver] at hd
        simp at hd
      · rw [answered_foundOver] at hd
        cases hd
  | @popDisconnected c rx l hc hpop =>
      exact ended_move hc id (contents_nil_of_trans hw htrans) (fun _ => Or.inl rfl)
        (fun _ => Or.inr (RingBuffer.contents_of_pop_none hpop).2) hi
  | @cloneSender c tx hc =>
      have := ended_frame (d := .clonedSender tx) hw htrans rfl hc rfl rfl hi
      exact ⟨this.zero, this.empty⟩
  | @cloneRegister c rx pos k wl hc _ _ =>
      have := ended_frame (d := .clonedReceiver rx) hw htrans rfl hc rfl rfl hi
      exact ⟨this.zero, this.empty⟩
  | @free c e hc =>
      have := ended_frame (d := .dropped e true) hw htrans rfl hc rfl rfl hi
      exact ⟨this.zero, this.empty⟩
  | @scanEnd c p hc | @wake c p w hc =>
      cases p <;> (refine ended_frame hw htrans rfl hc ?_ ?_ hi <;> rfl)
  | @remove c rx p r old wl hc _ =>
      cases r <;> (refine ended_frame hw htrans rfl hc ?_ ?_ hi <;> rfl)
  | _ => refine ended_frame hw htrans rfl ‹_› ?_ ?_ hi <;> rfl

theorem ended_of_run {ok : Trace (State T) (Event T) → State T → Event T → Prop} {lay : Layout}
    {n : Nat} {h : 0 < n} {tr : Trace (State T) (Event T)} {s : State T}
    (hrun : Runs ok lay n h tr s) : Ended s :=
  hrun.invariant (I := fun _ s => Ended s)
    ⟨fun c a hc => by simp [State.ringChannel] at hc,
      fun c a hc => by simp [State.ringChannel] at hc⟩
    fun _ _ _ _ hrun hi hn _ => ended_step (wf_of_run hrun) (trans_of_next hn) hi

/-! ## What a report means from then on -/

/-- The methods that receive. -/
def Op.receives : Op T → Bool
  | .tryRecv _ | .pollNext _ | .recv _ => true
  | _ => false

/-- Call `c` begins to receive, or a `recv` is polled again. -/
def Event.begins (c : Nat) : Event T → Bool
  | .start d op => d = c && op.receives
  | .repoll d _ => d = c
  | _ => false

theorem late_entry {op : Op T} (h : op.receives = true) : op.entry.late = true := by
  cases op <;> first | rfl | cases h

/-- After the end of the stream, a receive that has begun late stays late. -/
theorem late_of_trans {s s' : State T} {e : Event T} (h : Trans s e s')
    (hz : s.cb.senders = 0) (hnil : s.cb.buffer.contents = []) {j : Nat} {b : Call T}
    (hj : s.calls[j]? = some b) (hb : b.late = true) :
    ∃ b', s'.calls[j]? = some b' ∧ b'.late = true := by
  cases h with
  | start | startDropSender | startDropReceiver => exact ⟨b, Ledger.getElem?_concat_old hj, hb⟩
  | @load c rx l hc =>
      refine kept_move hc (fun ha => ?_) hj hb
      rw [hz]
      cases l with
      | tryRecv | first => rfl
      | again => cases ha
  | popSome hc hpop =>
      rw [RingBuffer.contents_of_pop_some hpop] at hnil
      cases hnil
  | @popEmpty c rx l hc _ => exact kept_move hc (fun ha => by cases l <;> cases ha) hj hb
  | @popDisconnected c rx l hc _ =>
      refine kept_move hc (fun ha => ?_) hj hb
      cases l with
      | tryRecv | first => rfl
      | again => cases ha
  | @remove c rx p r old wl hc _ =>
      refine kept_move hc (fun ha => ?_) hj hb
      cases r with
      | none => rfl
      | some m => cases ha
  | _ => exact kept_move ‹_› (fun ha => by cases ha) hj hb

theorem late_of_begins {s s' : State T} {e : Event T} (h : Trans s e s') {c : Nat}
    (hb : e.begins c = true) : ∃ a, s'.calls[c]? = some a ∧ a.late = true := by
  cases h with
  | @start op _ _ =>
      simp only [Event.begins, Bool.and_eq_true, decide_eq_true_eq] at hb
      obtain ⟨rfl, hop⟩ := hb
      exact ⟨op.entry, by simp, late_entry hop⟩
  | startDropSender | startDropReceiver => simp [Event.begins, Op.receives] at hb
  | @repoll d rx hd =>
      simp only [Event.begins, decide_eq_true_eq] at hb
      subst hb
      exact ⟨_, Ledger.getElem?_set_self_of _ hd, rfl⟩
  | _ => cases hb

theorem reported_of_trans {s s' : State T} {e : Event T} (h : Trans s e s')
    (hr : s.Reported) : s'.Reported := by
  obtain ⟨a, hmem, ha⟩ := hr
  obtain ⟨c, hc⟩ := List.mem_iff_getElem?.mp hmem
  have hret : a.returned = true := by
    unfold Call.reports at ha
    split at ha <;> first | rfl | cases ha
  exact ⟨a, List.mem_of_getElem? (returned_of_trans h hc hret), ha⟩

theorem over_of_reported {s : State T} (hi : Ended s) (hr : s.Reported) :
    s.cb.senders = 0 ∧ s.cb.buffer.contents = [] := by
  obtain ⟨a, hmem, ha⟩ := hr
  obtain ⟨c, hc⟩ := List.mem_iff_getElem?.mp hmem
  have hover : a.foundOver = true := by
    unfold Call.reports at ha
    split at ha <;> first | rfl | cases ha
  exact ⟨hi.zero c a hc (Or.inr hover), hi.empty c a hc hover⟩

/-- A report is never taken back, and what begins after it is late. -/
theorem late_of_run {ok : Trace (State T) (Event T) → State T → Event T → Prop} {lay : Layout}
    {n : Nat} {h : 0 < n} {tr : Trace (State T) (Event T)} {s : State T}
    (hrun : Runs ok lay n h tr s) : ∀ u e, (u, e) ∈ tr → u.Reported →
      s.Reported ∧ ∀ c, e.begins c = true → ∃ a, s.calls[c]? = some a ∧ a.late = true := by
  intro u e hmem hu
  refine hrun.onward
    (J := fun s => s.Reported ∧
      ∀ c, e.begins c = true → ∃ a, s.calls[c]? = some a ∧ a.late = true)
    (fun _ v _ hn => ?_) (fun _ s f s' hrun hi hn => ?_) hmem
  · have htrans := trans_of_next hn
    exact ⟨reported_of_trans htrans hu, fun c hb => late_of_begins htrans hb⟩
  · have htrans := trans_of_next hn
    obtain ⟨hr, hlate⟩ := hi
    obtain ⟨hz, hnil⟩ := over_of_reported (ended_of_run hrun) hr
    refine ⟨reported_of_trans htrans hr, fun c hb => ?_⟩
    obtain ⟨a, hc, ha⟩ := hlate c hb
    exact late_of_trans htrans hz hnil hc ha

theorem accounted_of_run {ok : Trace (State T) (Event T) → State T → Event T → Prop}
    {lay : Layout} {n : Nat} {h : 0 < n} {tr : Trace (State T) (Event T)} {s : State T}
    (hrun : Runs ok lay n h tr s) : Accounted s :=
  hrun.invariant (I := fun _ s => Accounted s)
    (by simp [Accounted, State.ringChannel, ControlBlock.new, State.gather])
    fun _ _ _ _ _ hi hn _ => accounted_step (trans_of_next hn) hi

/-- A decision is an acceptance or a refusal. -/
theorem gather_decided {s : State T}
    (hrefused : ∀ {c tx : Nat} {m m' : T},
      s.calls[c]? = some (.sent tx m (.error (.disconnected m'))) → m' = m) :
    s.gather Call.decided = s.gather Call.accepted + s.gather Call.refused := by
  have hcall : ∀ (c : Nat) (a : Call T), s.calls[c]? = some a →
      a.decided = a.accepted + a.refused := by
    intro c a hc
    cases a with
    | popLock p | popScan p _ | wake p _ =>
        cases p <;> simp [Call.decided, Call.accepted, Call.refused]
    | sent tx m r =>
        rcases r with ⟨m'⟩ | x
        · simp [Call.decided, Call.accepted, Call.refused, hrefused hc]
        · simp [Call.decided, Call.accepted, Call.refused]
    | _ => simp [Call.decided, Call.accepted, Call.refused]
  have hsum : Ledger.total (fun _ a => a.accepted + a.refused) s.calls
      = s.gather Call.accepted + s.gather Call.refused := Ledger.total_add
  exact (Ledger.total_congr hcall).trans hsum

/-- Every message that a send has decided on is in one place, no receive takes
two, and a report of disconnection is final: nothing is pending or will be,
every accepted message has been delivered or handed back, and a receive that
begins later reports the same. -/
theorem messages_accounted {lay : Layout} {n : Nat} {h : 0 < n}
    {tr : Trace (State T) (Event T)} {s : State T} (hrun : Runs Free lay n h tr s) :
    s.gather Call.decided
      = s.gather Call.refused + s.gather Call.handedBack + s.gather Call.delivered
        + (s.cb.buffer.contents : Multiset T) ∧
    (∀ c, tr.countP (fun p => p.2.removes c) ≤ 1) ∧
    (s.Reported → s.cb.buffer.contents = [] ∧
      s.gather Call.accepted = s.gather Call.handedBack + s.gather Call.delivered) ∧
    (∀ u e, (u, e) ∈ tr → u.Reported → s.Reported ∧
      ∀ c a, e.begins c = true → s.calls[c]? = some a →
        (∀ rx, a ≠ .parked rx) ∧ (a.returned = true → a.reports = true)) := by
  have hbal : Accounted s := accounted_of_run hrun
  refine ⟨hbal, fun c => ?_, fun hr => ?_, fun u e hmem hu => ?_⟩
  · rw [holds_of_run hrun]
    exact holds_le_one s c
  · obtain ⟨-, hnil⟩ := over_of_reported (ended_of_run hrun) hr
    refine ⟨hnil, ?_⟩
    unfold Accounted at hbal
    rw [gather_decided (refused_of_run hrun), hnil, Multiset.coe_nil, add_zero,
      add_comm (s.gather Call.accepted), add_assoc] at hbal
    exact add_left_cancel hbal
  · obtain ⟨hr, hlate⟩ := late_of_run hrun u e hmem hu
    refine ⟨hr, fun c a hb hc => ?_⟩
    obtain ⟨b, hb', hblate⟩ := hlate c hb
    obtain rfl : a = b := Option.some.inj (hc.symm.trans hb')
    refine ⟨fun rx heq => ?_, fun hret => ?_⟩
    · rw [heq] at hblate
      cases hblate
    cases a with
    | tried rx r => rcases r with (_ | _) | m <;> first | rfl | cases hblate
    | ready rx p r => cases r <;> first | rfl | cases hblate
    | sent | clonedSender | clonedReceiver | dropped | pending => cases hblate
    | _ => cases hret

/-- Two sends on a channel of capacity one, a receive, the drop of the sender,
and a receive that reports it. -/
def sendTwiceAndLeave : List (Act Nat) :=
  .start (.send 0 1) :: List.replicate 5 (.run 0) ++
    .start (.send 0 2) :: List.replicate 2 (.run 1) ++
    .start (.tryRecv 0) :: List.replicate 2 (.run 2) ++
    .start (.dropSender 0) :: List.replicate 5 (.run 3) ++
    .start (.tryRecv 0) :: List.replicate 2 (.run 4)

theorem messages_accounted_in_sendTwiceAndLeave :
    let s := (schedule Free ⟨true, true⟩ 1 Nat.one_pos sendTwiceAndLeave).2
    s.Reported ∧ s.gather Call.handedBack = {1} ∧ s.gather Call.delivered = {2} ∧
      s.gather Call.accepted = s.gather Call.handedBack + s.gather Call.delivered :=
  ⟨by decide, by decide, by decide,
    ((messages_accounted (runs_schedule ..)).2.2.1 (by decide)).2⟩

end RingChannel
