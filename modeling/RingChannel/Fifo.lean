/-
# `RingChannel.Fifo` — the channel is one overwriting queue

The pushes and the pops of a trace are the history of an `OverQueue.Account`:
a push by the sender `tx` enters `(tx, m)`, a pop by the receiver `rx` takes
the oldest element for `rx`.  `Refines` says that the buffer holds what the
abstract queue holds, and that the answers the calls were given are the answers
of the abstract queue.  The order of departure is then the law of the library
(`Account.Fair`), whichever way a message departs and however the calls
interleave.
-/
import RingChannel.Endpoints

namespace RingChannel

variable {T : Type}

open OverQueue (Account)

/-! ## The history of the queue -/

/-- What an event does to the abstract queue of capacity `n`. -/
def Event.account (n : Nat) : Event T → Account (Nat × T) Nat → Account (Nat × T) Nat
  | .push _ tx m _, q => q.push n (tx, m)
  | .pop _ rx _, q => q.pop rx
  | _, q => q

/-- The abstract queue of capacity `n` after the events of a trace. -/
def account (n : Nat) : Trace (State T) (Event T) → Account (Nat × T) Nat
  | [] => .start
  | (_, e) :: tr => e.account n (account n tr)

/-- The messages pushed, each with its sender, in order. -/
def pushed : Trace (State T) (Event T) → List (Nat × T)
  | [] => []
  | (_, .push _ tx m _) :: tr => pushed tr ++ [(tx, m)]
  | _ :: tr => pushed tr

/-- The messages that left the buffer, in order: each with the receiver that
popped it, or with `none` if a send handed it back. -/
def departed : Trace (State T) (Event T) → List (T × Option Nat)
  | [] => []
  | (_, .push _ _ _ ov) :: tr => departed tr ++ ov.toList.map fun x => (x, none)
  | (_, .pop _ rx got) :: tr => departed tr ++ got.toList.map fun x => (x, some rx)
  | _ :: tr => departed tr

structure Refines (n : Nat) (tr : Trace (State T) (Event T)) (s : State T) : Prop where
  capacity : s.cb.buffer.capacity = n
  queue : (account n tr).queue.map Prod.snd = s.cb.buffer.contents
  entered : (account n tr).entered = pushed tr
  left : (account n tr).left.map (fun p => (p.1.2, p.2)) = departed tr
  fair : (account n tr).Fair n

theorem refines_push {n : Nat} (hn : 0 < n) {tr : Trace (State T) (Event T)} {s : State T}
    (hi : Refines n tr s) (c tx : Nat) (m : T) (d : Call T) :
    Refines n ((s, .push c tx m (s.cb.buffer.push m).1) :: tr)
      (s.move c d { s.cb with buffer := (s.cb.buffer.push m).2 }) := by
  have hmap := OverQueue.push_map Prod.snd n (account n tr).queue (tx, m)
  rw [hi.queue] at hmap
  constructor
  · simpa using hi.capacity
  · rw [State.move_cb, RingBuffer.contents_push, hi.capacity, hmap]
    rfl
  · exact congrArg (· ++ [(tx, m)]) hi.entered
  · rw [RingBuffer.push_fst, hi.capacity, hmap]
    simp only [account, Event.account, Account.push, departed, List.map_append, hi.left]
    cases (OverQueue.push n (account n tr).queue (tx, m)).1 <;> rfl
  · exact hi.fair.push hn (tx, m)

theorem refines_pop {n : Nat} {tr : Trace (State T) (Event T)} {s : State T}
    (hi : Refines n tr s) (c rx : Nat) (d : Call T) :
    Refines n ((s, .pop c rx s.cb.buffer.pop.1) :: tr)
      (s.move c d { s.cb with buffer := s.cb.buffer.pop.2 }) := by
  have hmap := OverQueue.pop_map Prod.snd (account n tr).queue
  rw [hi.queue] at hmap
  constructor
  · simpa using hi.capacity
  · rw [State.move_cb, RingBuffer.contents_pop]
    exact (congrArg Prod.snd hmap).symm
  · exact hi.entered
  · rw [RingBuffer.pop_fst, show s.cb.buffer.contents.head? = _ from congrArg Prod.fst hmap]
    simp only [account, Event.account, Account.pop, departed, List.map_append, hi.left]
    cases (OverQueue.pop (account n tr).queue).1 <;> rfl
  · exact hi.fair.pop rx

theorem refines_step {n : Nat} (hn : 0 < n) {tr : Trace (State T) (Event T)} {s s' : State T}
    {e : Event T} (h : Trans s e s') (hi : Refines n tr s) : Refines n ((s, e) :: tr) s' := by
  cases h with
  | pushNew _ hpush | pushOver _ hpush => exact hpush ▸ refines_push hn hi _ _ _ _
  | popSome _ hpop | popEmpty _ hpop | popDisconnected _ hpop =>
      exact hpop ▸ refines_pop hi _ _ _
  | _ => exact ⟨hi.capacity, hi.queue, hi.entered, hi.left, hi.fair⟩

theorem refines_start (lay : Layout) (n : Nat) (h : 0 < n) :
    Refines n [] (State.ringChannel lay n h : State T) where
  capacity := RingBuffer.capacity_new lay.message n h
  queue := (RingBuffer.contents_new lay.message n h).symm
  entered := rfl
  left := rfl
  fair := OverQueue.Account.fair_start n

theorem refines_of_run {ok : Trace (State T) (Event T) → State T → Event T → Prop} {lay : Layout}
    {n : Nat} {h : 0 < n} {tr : Trace (State T) (Event T)} {s : State T}
    (hrun : Runs ok lay n h tr s) : Refines n tr s :=
  hrun.invariant (I := Refines n) (refines_start lay n h)
    fun _ _ _ _ _ hi hn _ => refines_step h (trans_of_next hn) hi

/-! ## What a call has done to the buffer -/

/-- The push or the pop of a message that call number `c` has performed. -/
def Call.deed (c : Nat) : Call T → Option (Event T)
  | .popLock (.send tx m) | .popScan (.send tx m) _ | .wake (.send tx m) _ =>
      some (.push c tx m none)
  | .sent tx m (.ok ov) => some (.push c tx m ov)
  | .tried rx (.ok m) | .remove rx _ (some m) | .ready rx _ (some m) => some (.pop c rx (some m))
  | _ => none

/-- Every deed is in the trace. -/
def Recorded (tr : Trace (State T) (Event T)) (s : State T) : Prop :=
  ∀ (c : Nat) (a : Call T) (f : Event T), s.calls[c]? = some a → a.deed c = some f →
    ∃ u, (u, f) ∈ tr

theorem recorded_move {tr : Trace (State T) (Event T)} {s s' : State T} {e : Event T} {c : Nat}
    {a d : Call T} (hc : s.calls[c]? = some a) (hcalls : s'.calls = s.calls.set c d)
    (hd : ∀ f, d.deed c = some f → a.deed c = some f ∨ f = e) (hi : Recorded tr s) :
    Recorded ((s, e) :: tr) s' := by
  intro j b f hj hb
  rw [hcalls] at hj
  rcases Ledger.getElem?_set_cases hj with ⟨rfl, rfl⟩ | ⟨-, hold⟩
  · rcases hd f hb with hf | rfl
    · obtain ⟨u, hu⟩ := hi j a f hc hf
      exact ⟨u, List.mem_cons_of_mem _ hu⟩
    · exact ⟨s, List.mem_cons_self⟩
  · obtain ⟨u, hu⟩ := hi j b f hold hb
    exact ⟨u, List.mem_cons_of_mem _ hu⟩

theorem recorded_concat {tr : Trace (State T) (Event T)} {s s' : State T} {e : Event T}
    (op : Op T) (hcalls : s'.calls = s.calls ++ [op.entry]) (hi : Recorded tr s) :
    Recorded ((s, e) :: tr) s' := by
  intro j b f hj hb
  rw [hcalls] at hj
  rcases Ledger.getElem?_concat_cases hj with ⟨-, rfl⟩ | hj
  · cases op <;> cases hb
  · obtain ⟨u, hu⟩ := hi j b f hj hb
    exact ⟨u, List.mem_cons_of_mem _ hu⟩

theorem answered_deed (c rx : Nat) (l : Look) (r : Except TryRecvError T) :
    (l.answered rx r).deed c = match r with
      | .ok m => some (.pop c rx (some m))
      | .error _ => none := by
  rcases l with _ | p | ⟨_ | _⟩ <;> rcases r with (_ | _) | m <;> rfl

theorem recorded_step {tr : Trace (State T) (Event T)} {s s' : State T} {e : Event T}
    (h : Trans s e s') (hi : Recorded tr s) : Recorded ((s, e) :: tr) s' := by
  cases h with
  | start => exact recorded_concat _ rfl hi
  | @startDropSender tx => exact recorded_concat (.dropSender tx) rfl hi
  | @startDropReceiver rx => exact recorded_concat (.dropReceiver rx) rfl hi
  | pushNew hc _ | pushOver hc _ =>
      exact recorded_move hc rfl (fun f hf => Or.inr (Option.some.inj hf).symm) hi
  | popSome hc _ =>
      refine recorded_move hc rfl (fun f hf => ?_) hi
      rw [answered_deed] at hf
      exact Or.inr (Option.some.inj hf).symm
  | popEmpty hc _ | popDisconnected hc _ =>
      refine recorded_move hc rfl (fun f hf => ?_) hi
      rw [answered_deed] at hf
      cases hf
  | @popLock c p hc | @scanEnd c p hc | @scanMiss c k p ks hc _ | @scanHit c k p ks w wl hc _
  | @wake c p w hc =>
      cases p with
      | send => exact recorded_move hc rfl (fun f hf => Or.inl hf) hi
      | dropSender | dropReceiver => exact recorded_move hc rfl (fun f hf => by cases hf) hi
  | dropSenderLast hc _ | dropSenderMore hc _ | dropReceiverLast hc _ | dropReceiverMore hc _ =>
      exact recorded_move hc rfl (fun f hf => by cases hf) hi
  | @remove c rx p r old wl hc _ =>
      refine recorded_move hc rfl (fun f hf => Or.inl ?_) hi
      cases r <;> exact hf
  | _ => exact recorded_move ‹_› rfl (fun f hf => by cases hf) hi

theorem recorded_of_run {ok : Trace (State T) (Event T) → State T → Event T → Prop}
    {lay : Layout} {n : Nat} {h : 0 < n} {tr : Trace (State T) (Event T)} {s : State T}
    (hrun : Runs ok lay n h tr s) : Recorded tr s :=
  hrun.invariant (I := Recorded) (fun c a f hc => by simp [State.ringChannel] at hc)
    fun _ _ _ _ _ hi hn _ => recorded_step (trans_of_next hn) hi

/-! ## The order of departure -/

/-- The answer to a push, in any state of a run. -/
theorem push_answer_of_run {ok : Trace (State T) (Event T) → State T → Event T → Prop}
    {lay : Layout} {n : Nat} {h : 0 < n} {tr : Trace (State T) (Event T)} {s u : State T}
    (hrun : Runs ok lay n h tr s) {c tx : Nat} {m : T} {ov : Option T}
    (hmem : (u, .push c tx m ov) ∈ tr) :
    (ov.isSome = true ↔ u.cb.buffer.contents.length = n) ∧
      ∀ x, ov = some x → u.cb.buffer.contents.head? = some x := by
  obtain ⟨tr₁, v, hrun₁, hn, -⟩ := hrun.of_mem hmem
  have hi := refines_of_run hrun₁
  have hov : ov = (OverQueue.push n u.cb.buffer.contents m).1 := by
    rw [← hi.capacity, ← RingBuffer.push_fst]
    cases trans_of_next hn with
    | pushNew _ hpush => exact hpush.symm
    | pushOver _ hpush => exact hpush.symm
  have hle := hi.capacity ▸ u.cb.buffer.length_contents_le
  refine ⟨⟨fun hsome => ?_, fun hfull => ?_⟩, fun x hx => ?_⟩
  · obtain ⟨x, hx⟩ := Option.isSome_iff_exists.mp hsome
    exact ((OverQueue.push_answer hle m x).mp (hov ▸ hx)).1
  · cases hc : u.cb.buffer.contents with
    | nil =>
        rw [hc] at hfull
        exact absurd h (hfull ▸ Nat.lt_irrefl 0)
    | cons x q =>
        rw [hov, (OverQueue.push_answer hle m x).mpr ⟨hfull, by rw [hc]; rfl⟩]
        rfl
  · exact ((OverQueue.push_answer hle m x).mp (hov ▸ hx)).2

/-- The buffer is bounded by the capacity; the messages leave it, by a receive
or by an overwriting send, in the order in which they were pushed; a send
returns a message exactly when the buffer was full at its push, and then it is
the oldest one; what one receiver gets of one sender's messages is in sending
order; and every representation of the buffer, the single cell in either layout
and the queue, answers as the abstract queue does. -/
theorem channel_refines_queue {lay : Layout} {n : Nat} {h : 0 < n}
    {tr : Trace (State T) (Event T)} {s : State T} (hrun : Runs Free lay n h tr s) :
    s.cb.buffer.contents.length ≤ n ∧
    ((account n tr).left.map Prod.fst ++ (account n tr).queue = pushed tr ∧
      (account n tr).left.map (fun p => (p.1.2, p.2)) = departed tr ∧
      (account n tr).queue.map Prod.snd = s.cb.buffer.contents) ∧
    (∀ (c tx : Nat) (m : T) (ov : Option T), s.calls[c]? = some (.sent tx m (.ok ov)) →
      ∃ u, (u, .push c tx m ov) ∈ tr ∧
        (ov.isSome = true ↔ u.cb.buffer.contents.length = n) ∧
        ∀ x, ov = some x → u.cb.buffer.contents.head? = some x) ∧
    (∀ (c rx : Nat) (m : T), (s.calls[c]? = some (.tried rx (.ok m)) ∨
        ∃ p, s.calls[c]? = some (.ready rx p (some m))) →
      ∃ u, (u, .pop c rx (some m)) ∈ tr) ∧
    (∀ rx tx, (((account n tr).received rx).filter fun p => p.1 = tx).Sublist
      ((pushed tr).filter fun p => p.1 = tx)) ∧
    (∀ b : RingBuffer T,
      (∀ v, ((b.push v).1, (b.push v).2.contents) = OverQueue.push b.capacity b.contents v) ∧
      (b.pop.1, b.pop.2.contents) = OverQueue.pop b.contents) ∧
    (∀ (lockFree : Bool) (ops : List (Option T)),
      (RingBuffer.atomic (.new lockFree)).replay ops
        = (RingBuffer.queue (.new 1 Nat.one_pos)).replay ops) := by
  have hi := refines_of_run hrun
  refine ⟨hi.capacity ▸ s.cb.buffer.length_contents_le, ?_, ?_, ?_, ?_, ?_, ?_⟩
  · exact ⟨hi.fair.order.trans hi.entered, hi.left, hi.queue⟩
  · intro c tx m ov hc
    obtain ⟨u, hu⟩ := recorded_of_run hrun c _ _ hc rfl
    exact ⟨u, hu, push_answer_of_run hrun hu⟩
  · rintro c rx m (hc | ⟨p, hc⟩) <;> exact recorded_of_run hrun c _ _ hc rfl
  · intro rx tx
    rw [← hi.entered]
    exact hi.fair.received_sublist rx _
  · exact fun b => ⟨b.push_refines, b.pop_refines⟩
  · intro lockFree ops
    rw [RingBuffer.replay_refines, RingBuffer.replay_refines]
    simp [RingBuffer.capacity, RingBuffer.contents, ArrayQueue.new]

/-- Three sends on a channel of capacity two, and a receive. -/
def sendThrice : List (Act Nat) :=
  .start (.send 0 1) :: List.replicate 5 (.run 0) ++
    .start (.send 0 2) :: List.replicate 5 (.run 1) ++
    .start (.send 0 3) :: List.replicate 2 (.run 2) ++
    .start (.tryRecv 0) :: List.replicate 2 (.run 3)

theorem channel_refines_queue_in_sendThrice :
    let r := schedule Free ⟨true, true⟩ 2 Nat.two_pos sendThrice
    departed r.1 = [(1, none), (2, some 0)] ∧ r.2.cb.buffer.contents = [3] ∧
      (account 2 r.1).left.map Prod.fst ++ (account 2 r.1).queue = pushed r.1 :=
  ⟨by decide, by decide, (channel_refines_queue (runs_schedule ..)).2.1.1⟩

end RingChannel
