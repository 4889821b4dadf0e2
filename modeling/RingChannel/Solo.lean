/-
# `RingChannel.Solo` — a call that runs alone is its sequential method

The bridge between the two models.  A state of the interleaving model in which
one call is in progress is written `s.calling cb d`: the last call stands at
`d`, and the control block is `cb`.  `Solo` are the steps of one call with no
other in between, with the wakers they invoke.

Each method has one lemma: alone, it goes from its entry to its result, leaves
the block that the sequential method leaves, and invokes the same wakers.  So
every session is a run of the interleaving model (`sessions_are_runs`), and what
holds of every run holds of every session.
-/
import RingChannel.Sessions
import RingChannel.Answers
import RingChannel.Lib.Simulation

namespace RingChannel

variable {K T : Type}

/-- The last call made stands at `d`, and the block is `cb`. -/
def State.calling (s : State T) (cb : ControlBlock Nat T) (d : Call T) : State T :=
  { s with cb := cb, calls := s.calls ++ [d] }

@[simp] theorem calling_cb (s : State T) (cb : ControlBlock Nat T) (d : Call T) :
    (s.calling cb d).cb = cb := rfl

@[simp] theorem calling_move (s : State T) (cb cb' : ControlBlock Nat T) (d d' : Call T) :
    (s.calling cb d).move s.calls.length d' cb' = s.calling cb' d' := by
  simp [State.calling, State.move]

theorem calling_calls (s : State T) (cb : ControlBlock Nat T) (d : Call T) :
    (s.calling cb d).calls[s.calls.length]? = some d := by
  simp [State.calling]

/-- The waker a step invokes. -/
def Event.woken : Event T → List Waker
  | .wake _ w => [w]
  | _ => []

/-- Steps of call `c` with no other in between, and the wakers they invoke. -/
inductive Solo (c : Nat) : State T → List Waker → State T → Prop
  | refl {s : State T} : Solo c s [] s
  | next {s u s' : State T} {e : Event T} {ws : List Waker} :
      step s (.run c) = some (e, u) → Solo c u ws s' → Solo c s (e.woken ++ ws) s'

theorem Solo.trans {c : Nat} {s u s' : State T} {ws ws' : List Waker} (h : Solo c s ws u)
    (h' : Solo c u ws' s') : Solo c s (ws ++ ws') s' := by
  induction h with
  | refl => exact h'
  | next hstep _ ih =>
      rw [List.append_assoc]
      exact .next hstep (ih h')

/-- One step of the call in progress. -/
theorem Solo.one {s u : State T} {cb : ControlBlock Nat T} {d : Call T} (e : Event T)
    (hrun : d.run (s.calling cb d) s.calls.length = some (e, u)) :
    Solo s.calls.length (s.calling cb d) e.woken u := by
  have hstep : step (s.calling cb d) (.run s.calls.length) = some (e, u) := by
    simp only [RingChannel.step, calling_calls]
    exact hrun
  have := Solo.next hstep .refl
  rwa [List.append_nil] at this

/-! ## `Waitlist::pop` -/

/-- Where a method goes from its pop, by what the pop answered. -/
def Waking.afterPop (p : Waking T) : Option Waker → Call T
  | none => p.afterNone
  | some _ => p.afterWake

theorem solo_scan (s : State T) (cb : ControlBlock Nat T) (p : Waking T) : ∀ ks : List Nat,
    Solo s.calls.length (s.calling { cb with waitlist := cb.waitlist.lock } (.popScan p ks))
      (Waitlist.pop.go cb.waitlist ks).1.toList
      (s.calling { cb with waitlist := (Waitlist.pop.go cb.waitlist ks).2 }
        (p.afterPop (Waitlist.pop.go cb.waitlist ks).1))
  | [] => by
      refine .one (.silent s.calls.length) ?_
      simp only [Call.run, calling_cb, calling_move, Waitlist.unlock_lock]
      rfl
  | k :: ks => by
      have hlock := cb.waitlist.visit_lock k
      simp only [Waitlist.pop.go]
      split
      · rename_i wl hv
        rw [hv] at hlock
        obtain ⟨rfl, -⟩ := Waitlist.visit_miss hv
        have hmiss : Solo s.calls.length
            (s.calling { cb with waitlist := cb.waitlist.lock } (.popScan p (k :: ks))) []
            (s.calling { cb with waitlist := cb.waitlist.lock } (.popScan p ks)) := by
          refine .one (.silent s.calls.length) ?_
          simp only [Call.run, calling_cb, calling_move, hlock]
        exact hmiss.trans (solo_scan s cb p ks)
      · rename_i w wl hv
        rw [hv] at hlock
        have hhit : Solo s.calls.length
            (s.calling { cb with waitlist := cb.waitlist.lock } (.popScan p (k :: ks))) []
            (s.calling { cb with waitlist := wl } (.wake p w)) := by
          refine .one (.take s.calls.length w) ?_
          simp only [Call.run, calling_cb, calling_move, hlock, Waitlist.unlock_lock]
        refine hhit.trans (.one (.wake s.calls.length w) ?_)
        simp only [Call.run, calling_cb, calling_move]
        rfl

theorem solo_pop (s : State T) (cb : ControlBlock Nat T) (p : Waking T) :
    Solo s.calls.length (s.calling cb (.popLock p)) cb.waitlist.pop.1.toList
      (s.calling { cb with waitlist := cb.waitlist.pop.2 } (p.afterPop cb.waitlist.pop.1)) := by
  have hlock : Solo s.calls.length (s.calling cb (.popLock p)) []
      (s.calling { cb with waitlist := cb.waitlist.lock } (.popScan p cb.waitlist.keys)) := by
    refine .one (.silent s.calls.length) ?_
    simp only [Call.run, calling_cb, calling_move]
  exact hlock.trans (solo_scan s cb p cb.waitlist.keys)

/-- The loop of the last sender's drop. -/
theorem solo_popWhile (s : State T) (tx : Nat) : ∀ (fuel : Nat) (cb : ControlBlock Nat T),
    cb.waitlist.size < fuel →
    Solo s.calls.length (s.calling cb (.popLock (.dropSender tx)))
      (cb.waitlist.popWhile fuel).1
      (s.calling { cb with waitlist := (cb.waitlist.popWhile fuel).2 } (.dropSenderSwap tx))
  | 0, _, h => absurd h (Nat.not_lt_zero _)
  | fuel + 1, cb, h => by
      have hpop := solo_pop s cb (.dropSender tx)
      rcases cb.waitlist.pop_cases with ⟨heq, -⟩ | ⟨k, w, wl, heq, -, hsize⟩
      · simp only [Waitlist.popWhile, heq] at hpop ⊢
        exact hpop
      · simp only [Waitlist.popWhile, heq] at hpop ⊢
        exact hpop.trans (solo_popWhile s tx fuel { cb with waitlist := wl } (by simp only; omega))

/-! ## The methods -/

theorem solo_send (s : State T) (cb : ControlBlock Nat T) (tx : Nat) (m : T) :
    Solo s.calls.length (s.calling cb (.sendLoad tx m)) (cb.send m).2.1
      (s.calling (cb.send m).2.2 (.sent tx m (cb.send m).1)) := by
  unfold ControlBlock.send
  by_cases hpos : 0 < cb.receivers
  · have hload : Solo s.calls.length (s.calling cb (.sendLoad tx m)) []
        (s.calling cb (.sendPush tx m)) := by
      refine .one (.silent s.calls.length) ?_
      simp only [Call.run, calling_cb, calling_move, hpos, if_true]
    rw [if_pos hpos]
    refine hload.trans ?_
    split
    · rename_i b hpush
      have hnew : Solo s.calls.length (s.calling cb (.sendPush tx m)) []
          (s.calling { cb with buffer := b } (.popLock (.send tx m))) := by
        refine .one (.push s.calls.length tx m none) ?_
        simp only [Call.run, calling_cb, calling_move, hpush]
      have hpop := solo_pop s { cb with buffer := b } (.send tx m)
      have hafter : ∀ o, (Waking.send tx m).afterPop o = .sent tx m (.ok none) := by
        intro o
        cases o <;> rfl
      rw [hafter] at hpop
      exact hnew.trans hpop
    · rename_i x b hpush
      refine .one (.push s.calls.length tx m (some x)) ?_
      simp only [Call.run, calling_cb, calling_move, hpush]
  · rw [if_neg hpos]
    refine .one (.refuse s.calls.length m) ?_
    simp only [Call.run, calling_cb, calling_move, hpos, if_false]

theorem solo_tryRecv (s : State T) (cb : ControlBlock Nat T) (rx : Nat) (l : Look) :
    Solo s.calls.length (s.calling cb (.load rx l)) []
      (s.calling cb.tryRecv.2 (l.answered rx cb.tryRecv.1)) := by
  have hload : Solo s.calls.length (s.calling cb (.load rx l)) []
      (s.calling cb (.pop rx l (decide (0 < cb.senders)))) := by
    refine .one (.silent s.calls.length) ?_
    simp only [Call.run, calling_cb, calling_move]
    rfl
  refine hload.trans (.one (.pop s.calls.length rx cb.buffer.pop.1) ?_)
  simp only [Call.run, calling_cb, calling_move]
  rfl

theorem solo_answer (s : State T) {cb cb' : ControlBlock Nat T} {rx : Nat} {r : Option T}
    {a : Poll (Option T)} (p : Poller) (h : cb.answer rx r = some (a, cb')) :
    a = .ready r ∧
      Solo s.calls.length (s.calling cb (.remove rx p r)) [] (s.calling cb' (.ready rx p r)) := by
  simp only [ControlBlock.answer, Option.map_eq_some_iff, Prod.mk.injEq] at h
  obtain ⟨⟨old, wl⟩, hrem, rfl, rfl⟩ := h
  refine ⟨rfl, .one (.remove s.calls.length rx old) ?_⟩
  simp only [Call.run, calling_cb, calling_move, hrem]

/-- Where a poll ends. -/
def Poller.ends (rx : Nat) (p : Poller) : Poll (Option T) → Call T
  | .ready r => .ready rx p r
  | .pending => match p with
    | .pollNext => .pending rx
    | .recv => .parked rx

theorem solo_poll (s : State T) {cb cb' : ControlBlock Nat T} {rx : Nat} {a : Poll (Option T)}
    (p : Poller) (h : cb.poll rx ⟨rx, s.calls.length⟩ = some (a, cb')) :
    Solo s.calls.length (s.calling cb (.load rx (.first p))) [] (s.calling cb' (p.ends rx a)) := by
  have hfirst := solo_tryRecv s cb rx (.first p)
  unfold ControlBlock.poll at h
  split at h
  · rename_i m cb₁ heq
    rw [heq] at hfirst
    obtain ⟨rfl, hans⟩ := solo_answer s p h
    exact hfirst.trans hans
  · rename_i cb₁ heq
    rw [heq] at hfirst
    obtain ⟨rfl, hans⟩ := solo_answer s p h
    exact hfirst.trans hans
  · rename_i cb₁ heq
    rw [heq] at hfirst
    refine hfirst.trans ?_
    split at h
    · cases h
    · rename_i old wl hins
      have hinsert : Solo s.calls.length (s.calling cb₁ (.insert rx p)) []
          (s.calling { cb₁ with waitlist := wl } (.load rx (.again p))) := by
        refine .one (.insert s.calls.length rx old) ?_
        simp only [Call.run, calling_cb, calling_move, hins]
      have hagain := hinsert.trans (solo_tryRecv s { cb₁ with waitlist := wl } rx (.again p))
      split at h
      · rename_i m cb₂ heq₂
        rw [heq₂] at hagain
        obtain ⟨rfl, hans⟩ := solo_answer s p h
        exact hagain.trans hans
      · rename_i cb₂ heq₂
        rw [heq₂] at hagain
        obtain ⟨rfl, hans⟩ := solo_answer s p h
        exact hagain.trans hans
      · rename_i cb₂ heq₂
        rw [heq₂] at hagain
        cases h
        cases p <;> exact hagain

theorem solo_cloneSender (s : State T) (cb : ControlBlock Nat T) (tx : Nat) :
    Solo s.calls.length (s.calling cb (.cloneSender tx)) []
      ({ s with txs := s.txs ++ [true] }.calling cb.cloneSender (.clonedSender tx)) := by
  refine .one (.silent s.calls.length) ?_
  simp only [Call.run, calling_cb, calling_move]
  rfl

theorem solo_cloneReceiver (s : State T) (cb : ControlBlock Nat T) (rx pos : Nat)
    (hreaders : cb.waitlist.readers = 0) :
    Solo s.calls.length (s.calling cb (.cloneReceiver rx pos)) []
      ({ s with rxs := s.rxs.insertAt 0 (cb.cloneReceiver pos).1 true }.calling
        (cb.cloneReceiver pos).2 (.clonedReceiver rx)) := by
  have hadd : Solo s.calls.length (s.calling cb (.cloneReceiver rx pos)) []
      (s.calling { cb with receivers := cb.receivers + 1 } (.cloneRegister rx pos)) := by
    refine .one (.silent s.calls.length) ?_
    simp only [Call.run, calling_cb, calling_move]
  refine hadd.trans (.one (.silent s.calls.length) ?_)
  simp only [Call.run, calling_cb, calling_move, hreaders, if_true]
  rfl

theorem open_eta {s : State T} (h : s.freed = false) : { s with freed := false } = s := by
  rw [← h]

/-- Where the last drop of a kind swaps the flag. -/
def Endpoint.swap : Endpoint → Call T
  | .sender tx => .dropSenderSwap tx
  | .receiver rx => .dropReceiverSwap rx

theorem solo_swap (s : State T) (cb : ControlBlock Nat T) (e : Endpoint) (hopen : s.freed = false) :
    Solo s.calls.length (s.calling cb e.swap) []
      ({ s with freed := !cb.connected }.calling { cb with connected := false }
        (.dropped e true)) := by
  cases hconn : cb.connected with
  | true =>
      rw [Bool.not_true, open_eta hopen]
      refine .one (.silent s.calls.length) ?_
      cases e <;> simp only [Endpoint.swap, Call.run, calling_cb, calling_move, hconn, if_true]
  | false =>
      have hswap : Solo s.calls.length (s.calling cb e.swap) []
          (s.calling { cb with connected := false } (.free e)) := by
        refine .one (.silent s.calls.length) ?_
        cases e <;> simp [Endpoint.swap, Call.run, hconn]
      refine hswap.trans (.one (.free s.calls.length) ?_)
      simp only [Call.run, calling_cb, calling_move]
      rfl

theorem solo_dropSender (s : State T) (cb : ControlBlock Nat T) (tx : Nat)
    (hopen : s.freed = false) : ∃ last,
    Solo s.calls.length (s.calling cb (.dropSender tx)) cb.dropSender.2.1
      ({ s with freed := cb.dropSender.1 }.calling cb.dropSender.2.2
        (.dropped (.sender tx) last)) := by
  unfold ControlBlock.dropSender
  by_cases hone : cb.senders = 1
  · refine ⟨true, ?_⟩
    have hsub : Solo s.calls.length (s.calling cb (.dropSender tx)) []
        (s.calling { cb with senders := cb.senders - 1 } (.popLock (.dropSender tx))) := by
      refine .one (.silent s.calls.length) ?_
      simp only [Call.run, calling_cb, calling_move, hone, if_true]
    have hloop := solo_popWhile s tx (cb.waitlist.size + 1) { cb with senders := cb.senders - 1 }
      (Nat.lt_succ_self _)
    have hswap := solo_swap s { cb with
      senders := cb.senders - 1
      waitlist := cb.waitlist.popAll.2 } (.sender tx) hopen
    have := (hsub.trans hloop).trans hswap
    rw [List.nil_append, List.append_nil] at this
    simp only [if_pos hone]
    exact this
  · refine ⟨false, ?_⟩
    simp only [if_neg hone, open_eta hopen]
    refine .one (.silent s.calls.length) ?_
    simp only [Call.run, calling_cb, calling_move, hone, if_false]

theorem solo_dropReceiver (s : State T) {cb cb' : ControlBlock Nat T} {rx : Nat} {free : Bool}
    {ws : List Waker} (hopen : s.freed = false) (hreaders : cb.waitlist.readers = 0)
    (h : cb.dropReceiver rx = some (free, ws, cb')) : ∃ last,
    Solo s.calls.length (s.calling cb (.dropReceiver rx)) ws
      ({ s with freed := free }.calling cb' (.dropped (.receiver rx) last)) := by
  simp only [ControlBlock.dropReceiver, Option.map_eq_some_iff] at h
  obtain ⟨⟨old, wl⟩, hdereg, h⟩ := h
  -- up to the subtraction
  have hpop : Solo s.calls.length (s.calling cb (.dropReceiver rx))
      (if old.isNone then wl.pop else (none, wl)).1.toList
      (s.calling { cb with waitlist := (if old.isNone then wl.pop else (none, wl)).2 }
        (.dropReceiverSub rx)) := by
    cases old with
    | none =>
        have hout : Solo s.calls.length (s.calling cb (.dropReceiver rx)) []
            (s.calling { cb with waitlist := wl } (.popLock (.dropReceiver rx))) := by
          refine .one (.deregister s.calls.length rx none) ?_
          simp only [Call.run, calling_cb, calling_move, hreaders, if_true, hdereg]
        have hscan := solo_pop s { cb with waitlist := wl } (.dropReceiver rx)
        have hafter : ∀ o, (Waking.dropReceiver (T := T) rx).afterPop o = .dropReceiverSub rx := by
          intro o
          cases o <;> rfl
        rw [hafter] at hscan
        exact hout.trans hscan
    | some w =>
        refine .one (.deregister s.calls.length rx (some w)) ?_
        simp [Call.run, hreaders, hdereg]
  generalize (if old.isNone then wl.pop else (none, wl)) = woken at h hpop
  by_cases hone : cb.receivers = 1
  · simp only [if_pos hone, Prod.mk.injEq] at h
    obtain ⟨rfl, rfl, rfl⟩ := h
    have hsub : Solo s.calls.length
        (s.calling { cb with waitlist := woken.2 } (.dropReceiverSub rx)) []
        (s.calling { cb with receivers := cb.receivers - 1, waitlist := woken.2 }
          (.dropReceiverSwap rx)) := by
      refine .one (.silent s.calls.length) ?_
      simp only [Call.run, calling_cb, calling_move, hone, if_true]
    have hswap := solo_swap s { cb with
      receivers := cb.receivers - 1
      waitlist := woken.2 } (.receiver rx) hopen
    have := (hpop.trans hsub).trans hswap
    simp only [List.append_nil] at this
    exact ⟨true, this⟩
  · simp only [if_neg hone, Prod.mk.injEq] at h
    obtain ⟨rfl, rfl, rfl⟩ := h
    have hsub : Solo s.calls.length
        (s.calling { cb with waitlist := woken.2 } (.dropReceiverSub rx)) []
        (s.calling { cb with receivers := cb.receivers - 1, waitlist := woken.2 }
          (.dropped (.receiver rx) false)) := by
      refine .one (.silent s.calls.length) ?_
      simp only [Call.run, calling_cb, calling_move, hone, if_false]
    have := hpop.trans hsub
    simp only [List.append_nil] at this
    exact ⟨false, by rwa [open_eta hopen]⟩

/-! ## Sessions are runs -/

/-- The state of the interleaving model that a session is in: no call is in
progress, and what the session may use is usable. -/
structure Matches (s : State T) (u : Session Nat T) : Prop where
  cb : s.cb = u.cb
  freed : s.freed = u.freed
  calls : s.calls.length = u.calls
  idle : ∀ a ∈ s.calls, a.returned = true
  readers : u.cb.waitlist.readers = 0
  senders : s.txs.length = u.holds.length
  sender : ∀ tx : Nat, u.holds[tx]? = some .usable → s.txs[tx]? = some true
  receiver : ∀ rx : Nat, u.rxs.get rx = some .usable → s.rxs.get rx = some true

theorem Call.not_polling {a : Call T} (h : a.returned = true) : a.polling = false := by
  cases a <;> first | rfl | cases h

/-- A call the session may make can be started. -/
theorem mayStart_of_usable {s : State T} {u : Session Nat T} (hm : Matches s u) {op : Op T}
    (hu : u.usable (Request.endpoint (K := K) (.call op)) = true) : s.mayStart op = true := by
  have hbusy : ∀ e, s.busy e = false := by
    intro e
    refine List.any_eq_false.mpr fun a ha => ?_
    simp [hm.idle a ha]
  have hpolled : ∀ rx, s.polled rx = false := by
    intro rx
    refine List.any_eq_false.mpr fun a ha => ?_
    simp [Call.not_polling (hm.idle a ha)]
  have hsender : ∀ tx : Nat, u.usable (.sender tx) = true → s.txs[tx]? = some true :=
    fun tx h => hm.sender tx (Session.holds_of_usable h)
  have hreceiver : ∀ rx : Nat, u.usable (.receiver rx) = true → s.rxs.get rx = some true :=
    fun rx h => hm.receiver rx (Session.receiver_of_usable h)
  cases op with
  | send tx m => simp [State.mayStart, hsender tx hu]
  | cloneSender tx => simp [State.mayStart, hsender tx hu]
  | dropSender tx => simp [State.mayStart, hsender tx hu, hbusy]
  | tryRecv rx => simp [State.mayStart, hreceiver rx hu, hpolled]
  | recv rx => simp [State.mayStart, hreceiver rx hu, hpolled]
  | cloneReceiver rx pos => simp [State.mayStart, hreceiver rx hu, hpolled]
  | pollNext rx => simp [State.mayStart, hreceiver rx hu, hbusy]
  | dropReceiver rx => simp [State.mayStart, hreceiver rx hu, hbusy]

/-- What a call that has returned answered. -/
def Call.answer : Call T → Option (Answer T)
  | .sent _ _ r => some (.sent r)
  | .tried _ r => some (.tried r)
  | .clonedSender _ | .clonedReceiver _ | .dropped _ _ => some .done
  | .pending _ => some (.polled .pending)
  | .ready _ .pollNext r => some (.polled (.ready r))
  | .ready _ .recv r => some (.received (recvAnswer r))
  | _ => none

/-- The call `op`, made in `s`, runs alone to the state `s'`, where it answers
what the session's reply says. -/
def RunsAlone (s : State T) (op : Op T) (woken : List Waker) (a : Answer T) (s' : State T) : Prop :=
  ∃ s₁ d, step s (.start op) = some (.start s.calls.length op, s₁) ∧
    Solo s.calls.length s₁ woken s' ∧ s'.calls[s.calls.length]? = some d ∧ d.answer = some a

/-- The last call has returned. -/
theorem matches_calling {s b : State T} {u u' : Session Nat T} {d : Call T}
    {cb : ControlBlock Nat T} (hm : Matches s u) (hcalls : b.calls = s.calls)
    (hd : d.returned = true) (hcb : cb = u'.cb) (hfreed : b.freed = u'.freed)
    (hcount : u'.calls = u.calls + 1) (hreaders : u'.cb.waitlist.readers = 0)
    (hsenders : b.txs.length = u'.holds.length)
    (hsender : ∀ tx : Nat, u'.holds[tx]? = some .usable → b.txs[tx]? = some true)
    (hreceiver : ∀ rx : Nat, u'.rxs.get rx = some .usable → b.rxs.get rx = some true) :
    Matches (b.calling cb d) u' where
  cb := hcb
  freed := hfreed
  calls := by simp [State.calling, hcalls, hm.calls, hcount]
  idle a ha := by
    simp only [State.calling, hcalls, List.mem_append, List.mem_singleton] at ha
    rcases ha with ha | rfl
    · exact hm.idle a ha
    · exact hd
  readers := hreaders
  senders := hsenders
  sender := hsender
  receiver := hreceiver

theorem readers_of_move {N : Type} [OfNat N 1] [Add N] [Sub N] {u u' : Session N T}
    {r : Request K T} (h : Session.Move u r u') :
    u'.cb.waitlist.readers = u.cb.waitlist.readers := by
  cases h with
  | quiet hcb => exact hcb.sameKeys.readers_eq
  | leakSender _ hcb | leakReceiver _ hcb | cloneSender _ hcb | dropSender _ _ hcb => rw [hcb]
  | cloneReceiver _ hadd hcb => rw [hcb, hadd.readers_eq]
  | dropLastSender _ _ hkeys hcb => rw [hcb, hkeys.readers_eq]
  | dropReceiver _ _ hdrop hkeys hcb | dropLastReceiver _ _ hdrop hkeys hcb =>
      rw [hcb, hkeys.readers_eq, hdrop.readers_eq]

theorem matches_begin {s : State T} {u : Session Nat T} (hm : Matches s u) {op : Op T}
    (h : op.consumes = false) : s.begin op = s.calling u.cb op.entry := by
  rw [← hm.cb]
  cases op with
  | dropSender | dropReceiver => cases h
  | _ => rfl

/-- The call `op`, made in a state that matches the session `u`, runs alone to
the answer of `e`, and to a state that matches `u'`. -/
def Simulated (s : State T) (op : Op T) (e : Reply K T) (u' : Session Nat T) : Prop :=
  ∃ ws s', e.woken = ws.map .inl ∧ RunsAlone s op ws e.answer s' ∧ Matches s' u'

section Calls

variable {s : State T} {u u' : Session Nat T} {e : Reply K T}

/-- The call leaves the state `b`, except for the block and for itself. -/
theorem runsAlone_calling (hm : Matches s u) {op : Op T} (h : u.step (.call op) = some (e, u'))
    {b₀ b : State T} {cb : ControlBlock Nat T} {d : Call T} {ws : List Waker}
    (hbegin : s.begin op = b₀.calling u.cb op.entry)
    (hsolo : Solo s.calls.length (b₀.calling u.cb op.entry) ws (b.calling cb d))
    (hcalls : b.calls = s.calls) (hans : d.answer = some e.answer) :
    RunsAlone s op ws e.answer (b.calling cb d) := by
  obtain ⟨-, hu, -⟩ := Session.usable_of_step h
  have hstart : step s (.start op) = some (.start s.calls.length op, s.begin op) := by
    simp only [step, mayStart_of_usable hm hu, if_true]
  refine ⟨_, d, hstart, hbegin ▸ hsolo, ?_, hans⟩
  rw [← hcalls]
  exact calling_calls b cb d

/-- The call leaves every endpoint as it is. -/
theorem simulated_quiet (hm : Matches s u) {op : Op T} (hop : op.consumes = false)
    (h : u.step (.call op) = some (e, u')) {cb : ControlBlock Nat T} {d : Call T}
    {ws : List Waker} (hu' : u' = { u with cb := cb, calls := u.calls + 1 })
    (hsolo : Solo s.calls.length (s.calling u.cb op.entry) ws (s.calling cb d))
    (hwoken : e.woken = ws.map .inl) (hd : d.returned = true) (hans : d.answer = some e.answer) :
    Simulated s op e u' := by
  have hreaders := (readers_of_move (Session.move_of_step h)).trans hm.readers
  refine ⟨ws, s.calling cb d, hwoken,
    runsAlone_calling hm h (matches_begin hm hop) hsolo rfl hans, ?_⟩
  subst hu'
  exact matches_calling hm rfl hd rfl hm.freed rfl hreaders hm.senders hm.sender hm.receiver

theorem simulated_pollNext (hm : Matches s u) {rx : Nat}
    (h : u.step (.call (.pollNext rx)) = some (e, u')) : Simulated s (.pollNext rx) e u' := by
  obtain ⟨-, -, ws, a, hp, rfl⟩ := Session.usable_of_step h
  simp only [Session.perform, Option.map_eq_some_iff, Prod.mk.injEq] at hp
  obtain ⟨⟨p, cb⟩, hpoll, rfl, rfl, hu'⟩ := hp
  rw [← hm.calls] at hpoll
  have hsolo := solo_poll s .pollNext hpoll
  cases p with
  | pending => exact simulated_quiet hm rfl h hu'.symm hsolo rfl rfl rfl
  | ready r => exact simulated_quiet hm rfl h hu'.symm hsolo rfl rfl rfl

theorem simulated_recv (hm : Matches s u) {rx : Nat}
    (h : u.step (.call (.recv rx)) = some (e, u')) : Simulated s (.recv rx) e u' := by
  obtain ⟨-, -, ws, a, hp, rfl⟩ := Session.usable_of_step h
  simp only [Session.perform] at hp
  split at hp
  · rename_i r cb hpoll
    cases hp
    rw [← hm.calls] at hpoll
    exact simulated_quiet hm rfl h rfl (solo_poll s .recv hpoll) rfl rfl rfl
  · cases hp

theorem simulated_cloneSender (hm : Matches s u) {tx : Nat}
    (h : u.step (.call (.cloneSender tx)) = some (e, u')) :
    Simulated s (.cloneSender tx) e u' := by
  have hreaders := (readers_of_move (Session.move_of_step h)).trans hm.readers
  obtain ⟨-, -, ws, a, hp, rfl⟩ := Session.usable_of_step h
  cases hp
  refine ⟨[], { s with txs := s.txs ++ [true] }.calling u.cb.cloneSender (.clonedSender tx), rfl,
    runsAlone_calling hm h (matches_begin hm rfl) (solo_cloneSender s u.cb tx) rfl rfl, ?_⟩
  refine matches_calling hm rfl rfl rfl hm.freed rfl hreaders ?_ ?_ hm.receiver
  · simpa [Session.holds] using hm.senders
  · intro j hj
    have hj' : (u.holds ++ [.usable])[j]? = some .usable := by simpa [Session.holds] using hj
    rcases Ledger.getElem?_concat_cases hj' with ⟨rfl, -⟩ | hold
    · simp [← hm.senders]
    · exact Ledger.getElem?_concat_old (hm.sender j hold)

theorem simulated_cloneReceiver (hm : Matches s u) (hw : Wf s) {rx pos : Nat}
    (h : u.step (.call (.cloneReceiver rx pos)) = some (e, u')) :
    Simulated s (.cloneReceiver rx pos) e u' := by
  have hreaders := (readers_of_move (Session.move_of_step h)).trans hm.readers
  obtain ⟨-, -, ws, a, hp, rfl⟩ := Session.usable_of_step h
  cases hp
  have hnone : s.rxs.get u.cb.waitlist.fresh = none := by
    rw [← hm.cb]
    exact get_of_adds hw.registered.known (s.cb.waitlist.register_adds pos)
  refine ⟨[], { s with rxs := s.rxs.insertAt 0 u.cb.waitlist.fresh true }.calling
      (u.cb.cloneReceiver pos).2 (.clonedReceiver rx), rfl,
    runsAlone_calling hm h (matches_begin hm rfl)
      (solo_cloneReceiver s u.cb rx pos hm.readers) rfl rfl, ?_⟩
  refine matches_calling hm rfl rfl rfl hm.freed rfl hreaders hm.senders hm.sender ?_
  intro k hk
  by_cases hkf : k = u.cb.waitlist.fresh
  · subst hkf
    exact SlotMap.get_insertAt_self 0 true hnone
  · have hold : u.rxs.get k = some .usable := by
      rwa [← SlotMap.get_insertAt_ne 0 Hold.usable hkf]
    rw [SlotMap.get_insertAt_ne 0 true hkf]
    exact hm.receiver k hold

theorem simulated_dropSender (hm : Matches s u) {tx : Nat}
    (h : u.step (.call (.dropSender tx)) = some (e, u')) : Simulated s (.dropSender tx) e u' := by
  have hreaders := (readers_of_move (Session.move_of_step h)).trans hm.readers
  obtain ⟨hopen, hu, ws, a, hp, rfl⟩ := Session.usable_of_step h
  cases hp
  obtain ⟨t, ht, -⟩ := Session.sender_of_usable hu
  have hholds := Session.holds_modify ({ · with hold := .dropped }) ht
  have hbegin : s.begin (.dropSender tx)
      = { s with txs := s.txs.set tx false }.calling u.cb (.dropSender tx) := by
    rw [← hm.cb]
    rfl
  obtain ⟨last, hsolo⟩ := solo_dropSender { s with txs := s.txs.set tx false } u.cb tx
    (hm.freed.trans hopen)
  refine ⟨_, { s with txs := s.txs.set tx false, freed := u.cb.dropSender.1 }.calling
      u.cb.dropSender.2.2 (.dropped (.sender tx) last), rfl,
    runsAlone_calling hm h hbegin hsolo rfl rfl, ?_⟩
  refine matches_calling hm rfl rfl rfl rfl rfl hreaders ?_ ?_ hm.receiver
  · show (s.txs.set tx false).length = (u.modify tx _).holds.length
    rw [hholds, List.length_set, List.length_set]
    exact hm.senders
  · intro j hj
    have hj' : (u.holds.set tx .dropped)[j]? = some .usable := by rw [← hholds]; exact hj
    rcases Ledger.getElem?_set_cases hj' with ⟨-, hc⟩ | ⟨hne, hold⟩
    · cases hc
    · rw [Ledger.getElem?_set_off false hne]
      exact hm.sender j hold

theorem simulated_dropReceiver (hm : Matches s u) {rx : Nat}
    (h : u.step (.call (.dropReceiver rx)) = some (e, u')) :
    Simulated s (.dropReceiver rx) e u' := by
  have hreaders := (readers_of_move (Session.move_of_step h)).trans hm.readers
  obtain ⟨hopen, hu, ws, a, hp, rfl⟩ := Session.usable_of_step h
  simp only [Session.perform, Option.map_eq_some_iff, Prod.mk.injEq] at hp
  obtain ⟨⟨free, woken, cb⟩, hd, rfl, rfl, rfl⟩ := hp
  have hrx := Session.receiver_of_usable hu
  have hbegin : s.begin (.dropReceiver rx)
      = { s with rxs := s.rxs.set rx false }.calling u.cb (.dropReceiver rx) := by
    rw [← hm.cb]
    rfl
  obtain ⟨last, hsolo⟩ := solo_dropReceiver { s with rxs := s.rxs.set rx false }
    (hm.freed.trans hopen) hm.readers hd
  refine ⟨woken, { s with rxs := s.rxs.set rx false, freed := free }.calling cb
      (.dropped (.receiver rx) last), rfl, runsAlone_calling hm h hbegin hsolo rfl rfl, ?_⟩
  refine matches_calling hm rfl rfl rfl rfl rfl hreaders hm.senders hm.sender ?_
  intro k hk
  have hk : (u.rxs.set rx .dropped).get k = some .usable := hk
  rcases eq_or_ne k rx with rfl | hkr
  · rw [SlotMap.get_set_self Hold.dropped hrx] at hk
    cases hk
  · rw [SlotMap.get_set_ne Hold.dropped hkr] at hk
    show (s.rxs.set rx false).get k = some true
    rw [SlotMap.get_set_ne false hkr]
    exact hm.receiver k hk

/-- A call of the session, made alone in the state that the session is in. -/
theorem simulated_of_step (hm : Matches s u) (hw : Wf s) {op : Op T}
    (h : u.step (.call op) = some (e, u')) : Simulated s op e u' := by
  cases op with
  | send tx m =>
      obtain ⟨-, -, ws, a, hp, rfl⟩ := Session.usable_of_step h
      cases hp
      exact simulated_quiet hm rfl h rfl (solo_send s u.cb tx m) rfl rfl rfl
  | tryRecv rx =>
      obtain ⟨-, -, ws, a, hp, rfl⟩ := Session.usable_of_step h
      cases hp
      exact simulated_quiet hm rfl h rfl (solo_tryRecv s u.cb rx .tryRecv) rfl rfl rfl
  | pollNext rx => exact simulated_pollNext hm h
  | recv rx => exact simulated_recv hm h
  | cloneSender tx => exact simulated_cloneSender hm h
  | cloneReceiver rx pos => exact simulated_cloneReceiver hm hw h
  | dropSender tx => exact simulated_dropSender hm h
  | dropReceiver rx => exact simulated_dropReceiver hm h

end Calls

/-! ### The requests that are no calls -/

/-- What a session may use, it may use in `u` as well, and the block is the
same. -/
theorem Matches.of_same {s : State T} {u u' : Session Nat T} (hm : Matches s u)
    (hcb : u'.cb = u.cb) (hfreed : u'.freed = u.freed) (hcalls : u'.calls = u.calls)
    (hlen : u'.holds.length = u.holds.length)
    (hsender : ∀ tx : Nat, u'.holds[tx]? = some .usable → u.holds[tx]? = some .usable)
    (hreceiver : ∀ rx : Nat, u'.rxs.get rx = some .usable → u.rxs.get rx = some .usable) :
    Matches s u' where
  cb := hm.cb.trans hcb.symm
  freed := hm.freed.trans hfreed.symm
  calls := hm.calls.trans hcalls.symm
  idle := hm.idle
  readers := hcb ▸ hm.readers
  senders := hm.senders.trans hlen.symm
  sender tx h := hm.sender tx (hsender tx h)
  receiver rx h := hm.receiver rx (hreceiver rx h)

/-- A sink sends by `send`. -/
theorem send_of_startSend {u u' : Session Nat T} {tx : Nat} {m : T} {e : Reply K T}
    (h : u.step (.startSend tx m) = some (e, u')) :
    u.step (.call (.send tx m)) = some (⟨.call (.send tx m), e.woken, .sent (u.cb.send m).1⟩,
      { u with cb := u'.cb, calls := u'.calls }) ∧
    u'.calls = u.calls + 1 ∧ u'.freed = u.freed ∧ u'.holds = u.holds ∧ u'.rxs = u.rxs := by
  obtain ⟨hopen, hu, ws, a, hp, rfl⟩ := Session.usable_of_step h
  simp only [Session.perform, Option.map_eq_some_iff, Prod.mk.injEq] at hp
  obtain ⟨t, ht, rfl, -, rfl⟩ := hp
  have hguard : (!u.freed && u.usable (Request.endpoint (K := K) (.call (.send tx m)))) = true := by
    rw [hopen]
    exact hu
  refine ⟨?_, rfl, rfl, Session.holds_modify_same ht (t.startSend_hold _), rfl⟩
  rw [Session.step, if_pos hguard]
  rfl

/-! ### What is seen of a call -/

/-- A method is called, a waker is invoked, a method answers. -/
inductive Seen (T : Type) where
  | made (c : Nat) (op : Op T)
  | woke (w : Waker)
  | answered (c : Nat) (a : Answer T)
deriving DecidableEq

/-- The method that a step calls. -/
def Event.made : Event T → List (Seen T)
  | .start c op => [.made c op]
  | _ => []

/-- The answer of call `c`, if it has returned. -/
def State.answered (s : State T) (c : Nat) : List (Seen T) :=
  (s.calls[c]?.bind Call.answer).toList.map (.answered c)

/-- What a step of the interleaving model lets its clients see. -/
def look (_ : State T) (e : Event T) (v : State T) : List (Seen T) :=
  e.made ++ e.woken.map .woke ++ v.answered e.caller

/-- What a session lets its client see of the calls that it makes on the
channel; a sink sends by `send`. -/
def Session.look (u : Session Nat T) (e : Reply K T) (_ : Session Nat T) : List (Seen T) :=
  let woken := (e.woken.filterMap Sum.getLeft?).map .woke
  match e.request with
  | .call op => .made u.calls op :: woken ++ [.answered u.calls e.answer]
  | .startSend tx m =>
      .made u.calls (.send tx m) :: woken ++ [.answered u.calls (.sent (u.cb.send m).1)]
  | _ => []

theorem made_of_not_byClient {e : Event T} (h : e.byClient = false) : e.made = [] := by
  cases e with
  | start => cases h
  | _ => rfl

theorem returned_of_answer {a : Call T} {r : Answer T} (h : a.answer = some r) :
    a.returned = true := by
  cases a <;> first | rfl | cases h

theorem caller_of_solo {s u : State T} {c : Nat} {e : Event T}
    (h : step s (.run c) = some (e, u)) : e.caller = c ∧ e.made = [] ∧ s.answered c = [] := by
  obtain ⟨a, hc, hcaller, hclient, hret⟩ := caller_of_step h
  refine ⟨hcaller, made_of_not_byClient hclient, ?_⟩
  cases hans : a.answer with
  | none => simp [State.answered, hc, hans]
  | some r =>
      rw [returned_of_answer hans] at hret
      cases hret

/-- A call that runs alone shows the wakers it invokes, and then its answer. -/
theorem answers_of_solo {c : Nat} {s s' : State T} {ws : List Waker} (hsolo : Solo c s ws s') :
    ∀ tr₀, s.answered c = [] →
      ∃ tr, Answers (Next step) Free look tr₀ s (ws.map .woke ++ s'.answered c) tr s' := by
  induction hsolo with
  | refl => exact fun tr₀ hnone => ⟨[], by rw [hnone]; exact .nil tr₀ _⟩
  | @next s u s' e ws hstep hrest ih =>
      intro tr₀ _
      obtain ⟨rfl, hmade, -⟩ := caller_of_solo hstep
      have hlook : look s e u = e.woken.map .woke ++ u.answered e.caller := by
        rw [look, hmade, List.nil_append]
      have hone : Answers (Next step) Free look tr₀ s (look s e u) [(s, e)] u :=
        .one ⟨_, hstep⟩ trivial
      rw [hlook] at hone
      cases hrest with
      | refl => exact ⟨_, by simpa using hone⟩
      | next hstep' hrest' =>
          -- the call goes on, so it has not answered yet
          have hopen := (caller_of_solo hstep').2.2
          obtain ⟨tr, htr⟩ := ih ([(s, e)] ++ tr₀) hopen
          rw [hopen, List.append_nil] at hone
          refine ⟨tr ++ [(s, e)], ?_⟩
          rw [List.map_append, List.append_assoc]
          exact hone.trans htr

variable {lay : Layout} {n : Nat} {h : 0 < n}

theorem answers_of_call {tr : Trace (State T) (Event T)} {s : State T} {u u' : Session Nat T}
    {op : Op T} {e : Reply K T} (hrun : Runs Free lay n h tr s) (hm : Matches s u)
    (hstep : u.step (.call op) = some (e, u')) :
    ∃ tr' s', Answers (Next step) Free look tr s
      (.made u.calls op :: (e.woken.filterMap Sum.getLeft?).map .woke
        ++ [.answered u.calls e.answer]) tr' s' ∧ Matches s' u' := by
  obtain ⟨ws, s', hwoken, ⟨s₁, d, hstart, hsolo, hd, hans⟩, hm'⟩ :=
    simulated_of_step hm (wf_of_run hrun) hstep
  have hentry : s₁.answered s.calls.length = [] := by
    simp only [step] at hstart
    split at hstart
    · cases hstart
      cases op <;> simp [State.answered, State.begin, Op.entry, Call.answer]
    · cases hstart
  have hmade : Answers (Next step) Free look tr s [.made s.calls.length op]
      [(s, .start s.calls.length op)] s₁ := by
    have hone : Answers (Next step) Free look tr s (look s (.start s.calls.length op) s₁)
        [(s, .start s.calls.length op)] s₁ := .one ⟨_, hstart⟩ trivial
    simpa [look, Event.made, Event.woken, Event.caller, hentry] using hone
  obtain ⟨tr', htr'⟩ := answers_of_solo hsolo ([(s, .start s.calls.length op)] ++ tr) hentry
  have hall := hmade.trans htr'
  have hans' : s'.answered s.calls.length = [.answered s.calls.length e.answer] := by
    simp [State.answered, hd, hans]
  rw [hans', hm.calls] at hall
  have hws : e.woken.filterMap Sum.getLeft? = ws := by
    rw [hwoken, List.filterMap_map]
    exact List.filterMap_some
  refine ⟨tr' ++ [(s, .start u.calls op)], s', ?_, hm'⟩
  rw [hws]
  exact hall

theorem answers_of_step {tr : Trace (State T) (Event T)} {s : State T} {u u' : Session Nat T}
    {r : Request K T} {e : Reply K T} (hrun : Runs Free lay n h tr s) (hm : Matches s u)
    (hstep : u.step r = some (e, u')) :
    ∃ tr' s', Answers (Next step) Free look tr s (u.look e u') tr' s' ∧ Matches s' u' := by
  obtain ⟨-, hu, ws, a, hp, rfl⟩ := Session.usable_of_step hstep
  have hquiet : Matches s u' → ∃ tr' s', Answers (Next step) Free look tr s [] tr' s' ∧
      Matches s' u' := fun hm' => ⟨[], s, .nil tr s, hm'⟩
  cases r with
  | call op => exact answers_of_call hrun hm hstep
  | startSend tx m =>
      obtain ⟨hsend, hcalls, hfreed, hholds, hrxs⟩ := send_of_startSend hstep
      obtain ⟨tr', s', hanswer, hm'⟩ := answers_of_call hrun hm hsend
      exact ⟨tr', s', hanswer, hm'.of_same rfl hfreed rfl (by rw [hholds]; rfl)
        (fun j hj => by rwa [hholds] at hj) (fun k hk => by rwa [hrxs] at hk)⟩
  | leakSender tx =>
      cases hp
      obtain ⟨t, ht, -⟩ := Session.sender_of_usable hu
      have hholds := Session.holds_modify ({ · with hold := .leaked }) ht
      refine hquiet (hm.of_same rfl rfl rfl (by rw [hholds, List.length_set]) ?_ fun _ hk => hk)
      intro j hj
      rw [hholds] at hj
      rcases Ledger.getElem?_set_cases hj with ⟨-, hc⟩ | ⟨-, hold⟩
      · cases hc
      · exact hold
  | leakReceiver rx =>
      cases hp
      have hrx := Session.receiver_of_usable hu
      refine hquiet (hm.of_same rfl rfl rfl rfl (fun _ hj => hj) fun k hk => ?_)
      by_cases hkr : k = rx
      · rwa [hkr]
      · rwa [SlotMap.get_set_ne Hold.leaked hkr] at hk
  | pollReady tx ctx | pollFlush tx ctx =>
      simp only [Session.perform, Option.map_eq_some_iff, Prod.mk.injEq] at hp
      obtain ⟨t, ht, -, -, rfl⟩ := hp
      have hholds := Session.holds_modify_same ht (t.pollFlush_hold (T := T) ctx)
      exact hquiet (hm.of_same rfl rfl rfl (congrArg List.length hholds)
        (fun j hj => by rwa [← hholds]) fun _ hk => hk)
  | pollClose tx ctx =>
      cases hp
      exact hquiet hm

theorem matches_start (lay : Layout) (n : Nat) (h : 0 < n) :
    Matches (State.ringChannel lay n h : State T) (.ringChannel lay n h) where
  cb := rfl
  freed := rfl
  calls := rfl
  idle := nofun
  readers := rfl
  senders := rfl
  sender tx htx := by
    cases tx with
    | zero => rfl
    | succ j => cases htx
  receiver rx hrx := by
    have hrx : (SlotMap.empty.insertAt 0 0 .usable : SlotMap Hold).get rx = some .usable := hrx
    show (SlotMap.empty.insertAt 0 0 true : SlotMap Bool).get rx = some true
    rcases eq_or_ne rx 0 with rfl | hk
    · rfl
    · rw [SlotMap.get_insertAt_ne 0 _ hk] at hrx
      cases hrx

/-- Every session is a run of the interleaving model: it makes the same calls in
the same order, invokes the same wakers, gives the same answers, and leaves the
same block, with every call returned. -/
theorem sessions_are_runs {str : Trace (Session Nat T) (Reply K T)} {u : Session Nat T}
    (hrun : Session.Runs Free lay n h str u) :
    ∃ tr s, Runs Free lay n h tr s ∧ shown look tr s = shown Session.look str u ∧
      s.cb = u.cb ∧ s.freed = u.freed ∧ ∀ a ∈ s.calls, a.returned = true := by
  have hsim : Simulates (Next (Session.step (K := K))) Free (.ringChannel lay n h) Session.look
      (Next step) Free (.ringChannel lay n h) look fun (u : Session Nat T) s => Matches s u :=
    { start := matches_start lay n h
      step := fun _ hn _ hrun' hm => hn.elim fun _ hstep => answers_of_step hrun' hm hstep }
  obtain ⟨tr, s, hrun', hshown, hm⟩ := hsim.run hrun
  exact ⟨tr, s, hrun', hshown, hm.cb, hm.freed, hm.idle⟩

/-- A sink sends two messages, the second over the first; a receive takes it, a
poll waits, and the drop of the sender wakes it. -/
def sinkAndPoll : List (Request Unit Nat) :=
  [.startSend 0 1, .startSend 0 2, .pollFlush 0 (), .call (.tryRecv 0), .call (.pollNext 0),
    .call (.dropSender 0)]

theorem sessions_are_runs_in_sinkAndPoll :
    ∃ (tr : Trace (State Nat) (Event Nat)) (s : State Nat),
      Runs Free ⟨true, true⟩ 1 Nat.one_pos tr s ∧
      shown look tr s = [.made 0 (.send 0 1), .answered 0 (.sent (.ok none)),
        .made 1 (.send 0 2), .answered 1 (.sent (.ok (some 1))),
        .made 2 (.tryRecv 0), .answered 2 (.tried (.ok 2)),
        .made 3 (.pollNext 0), .answered 3 (.polled .pending),
        .made 4 (.dropSender 0), .woke ⟨0, 3⟩, .answered 4 .done] := by
  obtain ⟨tr, s, hrun, hshown, -⟩ := sessions_are_runs
    (Session.runs_schedule Free ⟨true, true⟩ 1 Nat.one_pos sinkAndPoll)
  exact ⟨tr, s, hrun, hshown.trans (by decide)⟩

end RingChannel
