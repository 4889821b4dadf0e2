/-
# `RingChannel.Settling` — the channel comes to rest by itself

Calls of different threads cause work for each other: a poll leaves a waker, a
send or a drop takes and invokes it, and the task that it wakes polls again.
Could they keep each other busy for ever?

They cannot.  A waker in a slot is worth one more round to the drop that takes
it, and it was put there by a poll; so every step is paid for by a call that a
client has made or a poll that it has repeated (`work_of_trans`), and a run is
bounded by what the clients do.

If they only poll again when they are woken, they stop as well.  A send wakes
once, and so does the drop of a receiver; the drop of the last sender wakes in a
loop, but no poll that begins after it has left the count at zero puts a waker
back.  So only so many wakers are invoked (`Wakeable`), and every run comes to
an end; clients may even drop their receivers meanwhile.  When no sender is left,
it ends with every call returned.
-/
import RingChannel.Progress
import RingChannel.Disconnect

namespace RingChannel

variable {T : Type}

/-! ## What a step is paid with -/

/-- What is left to do after the wake-up, outside the loop of the last sender. -/
def Waking.after : Waking T → Nat
  | .send .. => 0
  | .dropSender _ => 2
  | .dropReceiver _ => 3

/-- The steps that a call has to its credit, if at most `K` slots are
registered: those it makes itself, and `K + 2` for whoever takes the waker that
it is about to insert. -/
def Call.work (K : Nat) : Call T → Nat
  | .sendLoad .. => K + 4
  | .sendPush .. => K + 3
  | .popLock p => K + 2 + p.after
  | .popScan p ks => ks.length + 1 + p.after
  | .wake (.send ..) _ => 1
  | .wake (.dropSender _) _ => K + 5
  | .wake (.dropReceiver _) _ => 4
  | .cloneSender _ => 1
  | .cloneReceiver .. => 2
  | .cloneRegister .. => 1
  | .dropSender _ => K + 5
  | .dropSenderSwap _ => 2
  | .dropReceiver _ => K + 6
  | .dropReceiverSub _ => 3
  | .dropReceiverSwap _ => 2
  | .free _ => 1
  | .load _ .tryRecv => 2
  | .pop _ .tryRecv _ => 1
  | .load _ (.first _) => K + 8
  | .pop _ (.first _) _ => K + 7
  | .insert .. => K + 6
  | .load _ (.again _) => 3
  | .pop _ (.again _) _ => 2
  | .remove .. => 1
  | _ => 0

/-- What all calls have to their credit, and what the wakers in the slots are
worth. -/
def State.work (K : Nat) (s : State T) : Nat :=
  s.count (Call.work K) + s.cb.waitlist.size * (K + 2)

theorem entry_work (K : Nat) (op : Op T) : op.entry.work K ≤ K + 8 := by
  cases op <;> simp only [Op.entry, Call.work] <;> omega

theorem answered_work (K rx : Nat) (l : Look) (connected : Bool) (r : Except TryRecvError T) :
    1 + (l.answered rx r).work K ≤ (Call.pop rx l connected : Call T).work K := by
  rcases l with _ | p | ⟨_ | _⟩ <;> rcases r with (_ | _) | m <;>
    simp only [Look.answered, Call.work] <;> omega

theorem afterNone_work (K : Nat) (p : Waking T) : p.afterNone.work K ≤ p.after := by
  cases p <;> exact Nat.le_refl _

theorem afterWake_work (K : Nat) (p : Waking T) (w : Waker) :
    1 + p.afterWake.work K ≤ (Call.wake p w : Call T).work K := by
  cases p <;> simp only [Waking.afterWake, Call.work, Waking.after] <;> omega

theorem wake_work (K : Nat) (p : Waking T) (w : Waker) :
    (Call.wake p w : Call T).work K ≤ p.after + K + 3 := by
  cases p <;> simp only [Call.work, Waking.after] <;> omega

/-- Every step is paid for, and only a client brings in more. -/
theorem work_of_trans {s s' : State T} {e : Event T} (h : Trans s e s') {K : Nat}
    (hK : s.cb.waitlist.keys.length ≤ K) :
    1 + s'.work K ≤ s.work K + e.byClient.toNat * (K + 9) := by
  -- a call moves, and the waitlist has `i` wakers more and `j` fewer
  have hmove : ∀ {c : Nat} {a d : Call T} (i j : Nat), s.calls[c]? = some a →
      s'.calls = s.calls.set c d → s'.cb.waitlist.size + j ≤ s.cb.waitlist.size + i →
      1 + d.work K + i * (K + 2) ≤ a.work K + j * (K + 2) + e.byClient.toNat * (K + 9) →
      1 + s'.work K ≤ s.work K + e.byClient.toNat * (K + 9) := by
    intro c a d i j hc hcalls hsize hle
    have hcount := count_set (Call.work K) hc hcalls
    have hworth := Nat.mul_le_mul_right (K + 2) hsize
    rw [Nat.add_mul, Nat.add_mul] at hworth
    unfold State.work
    omega
  have hnew : ∀ (op : Op T), s'.calls = s.calls ++ [op.entry] →
      s'.cb.waitlist.size = s.cb.waitlist.size →
      1 + s'.work K ≤ s.work K + 1 * (K + 9) := by
    intro op hcalls hsize
    have hcount := count_append (Call.work K) hcalls
    have hentry := entry_work K op
    unfold State.work
    rw [hsize]
    omega
  cases h with
  | @start op _ _ => exact hnew op rfl rfl
  | @startDropSender tx _ _ => exact hnew (.dropSender tx) rfl rfl
  | @startDropReceiver rx _ _ => exact hnew (.dropReceiver rx) rfl rfl
  | @repoll c rx hc =>
      refine hmove 0 0 hc rfl (Nat.le_refl _) ?_
      simp only [Call.work, Event.byClient, Bool.toNat_true]
      omega
  | @popLock c p hc =>
      refine hmove 0 0 hc rfl (Nat.le_refl _) ?_
      simp only [Call.work]
      omega
  | @scanEnd c p hc =>
      refine hmove 0 0 hc rfl (Nat.le_refl _) ?_
      have hafter := afterNone_work K p
      have hscan : (Call.popScan p [] : Call T).work K = 1 + p.after := by simp [Call.work]
      omega
  | @scanMiss c k p ks hc _ =>
      refine hmove 0 0 hc rfl (Nat.le_refl _) ?_
      simp only [Call.work, List.length_cons]
      omega
  | @scanHit c k p ks w wl hc hw =>
      -- the waker that is taken pays for another round
      have hsize : wl.size + 1 = s.cb.waitlist.size + 0 := hw.weight_eq _ _ fun _ _ _ => rfl
      refine hmove 0 1 hc rfl (Nat.le_of_eq hsize) ?_
      have hround := wake_work K p w
      have hscan : (Call.popScan p (k :: ks) : Call T).work K = ks.length + 2 + p.after := rfl
      omega
  | @wake c p w hc =>
      refine hmove 0 0 hc rfl (Nat.le_refl _) ?_
      have := afterWake_work K p w
      omega
  | @cloneRegister c rx pos k wl hc _ hadd =>
      have hsize : wl.size = s.cb.waitlist.size + 0 := hadd.weight_eq _
      refine hmove 0 0 hc rfl (Nat.le_of_eq hsize) ?_
      simp only [Call.work]
      omega
  | @deregisterEmpty c rx wl hc _ hdrop =>
      have hsize : wl.size + 0 = s.cb.waitlist.size := hdrop.weight_eq _
      refine hmove 0 0 hc rfl (Nat.le_of_eq hsize) ?_
      simp only [Call.work, Waking.after]
      omega
  | @deregisterFull c rx w wl hc _ hdrop =>
      have hsize : wl.size + 1 = s.cb.waitlist.size := hdrop.weight_eq _
      have hless : wl.size ≤ s.cb.waitlist.size := by omega
      refine hmove 0 0 hc rfl hless ?_
      simp only [Call.work]
      omega
  | @insert c rx p old wl hc hw =>
      have hsize : wl.size + old.isSome.toNat = s.cb.waitlist.size + 1 :=
        hw.weight_eq _ _ fun _ _ _ => rfl
      have hmore : wl.size ≤ s.cb.waitlist.size + 1 := by omega
      refine hmove 1 0 hc rfl hmore ?_
      simp only [Call.work]
      omega
  | @remove c rx p r old wl hc hw =>
      have hsize : wl.size + old.isSome.toNat = s.cb.waitlist.size + 0 :=
        hw.weight_eq _ _ fun _ _ _ => rfl
      have hless : wl.size ≤ s.cb.waitlist.size := by omega
      refine hmove 0 0 hc rfl hless ?_
      simp only [Call.work]
      omega
  | @load c rx l hc =>
      refine hmove 0 0 hc rfl (Nat.le_refl _) ?_
      cases l <;> simp only [Call.work] <;> omega
  | @popSome c rx l connected m hc _ =>
      refine hmove 0 0 hc rfl (Nat.le_refl _) ?_
      have := answered_work K rx l connected (Except.ok m)
      omega
  | @popEmpty c rx l hc _ =>
      refine hmove 0 0 hc rfl (Nat.le_refl _) ?_
      have := answered_work (T := T) K rx l true (.error .empty)
      omega
  | @popDisconnected c rx l hc _ =>
      refine hmove 0 0 hc rfl (Nat.le_refl _) ?_
      have := answered_work (T := T) K rx l false (.error .disconnected)
      omega
  | _ =>
      refine hmove 0 0 ‹_› rfl (Nat.le_refl _) ?_
      simp only [Call.work, Waking.after]
      omega

theorem work_of_run {ok : Trace (State T) (Event T) → State T → Event T → Prop} {u : State T}
    {K : Nat} {tr : Trace (State T) (Event T)} {s : State T} (hrun : Run (Next step) ok u tr s)
    (hK : ∀ x ∈ tr, x.1.cb.waitlist.keys.length ≤ K) :
    tr.length + s.work K ≤ u.work K + times Event.byClient tr * (K + 9) := by
  induction hrun with
  | start => exact Nat.le_of_eq (by simp)
  | @step tr s e s' _ hn _ ih =>
      have hold := ih fun x hx => hK x (List.mem_cons_of_mem _ hx)
      have hnew := work_of_trans (trans_of_next hn) (hK (s, e) List.mem_cons_self)
      rw [times_cons, Nat.add_mul, List.length_cons]
      omega

/-! ## How many slots there can be -/

/-- Some waker is invoked. -/
def Event.invokes : Event T → Bool := Event.wakes fun _ => true

/-- A clone of a receiver begins. -/
def Event.clones : Event T → Bool
  | .start _ (.cloneReceiver ..) => true
  | _ => false

/-- A clone that has yet to register its slot. -/
def Call.registers : Call T → Nat
  | .cloneReceiver .. | .cloneRegister .. => 1
  | _ => 0

/-- The slots that are registered, and those that will be. -/
def State.slots (s : State T) : Nat := s.cb.waitlist.keys.length + s.count Call.registers

theorem entry_registers (c : Nat) (op : Op T) :
    op.entry.registers = ((.start c op : Event T)).clones.toNat := by
  cases op <;> rfl

theorem answered_registers (rx : Nat) (l : Look) (r : Except TryRecvError T) :
    (l.answered rx r).registers = 0 := by
  rcases l with _ | p | ⟨_ | _⟩ <;> rcases r with (_ | _) | m <;> rfl

/-- A step makes no receiver and registers no slot, or it makes one that was
to be made. -/
theorem registers_of_trans {s s' : State T} {e : Event T} (h : Trans s e s') :
    (s'.count Call.registers ≤ s.count Call.registers + e.clones.toNat ∧
      s'.cb.waitlist.keys.length ≤ s.cb.waitlist.keys.length ∧
      ∀ f : Nat → Nat, (s'.rxs.weight fun k _ => f k) = s.rxs.weight fun k _ => f k) ∨
    ∃ k, e.invokes = false ∧ (∀ rx, e.pollsOn rx = false) ∧
      s'.count Call.registers + 1 = s.count Call.registers ∧
      s'.cb.waitlist.keys.length = s.cb.waitlist.keys.length + 1 ∧
      ∀ f : Nat → Nat, (s'.rxs.weight fun k _ => f k) ≤ (s.rxs.weight fun k _ => f k) + f k := by
  have hmove : ∀ {c : Nat} {a d : Call T}, s.calls[c]? = some a →
      s'.calls = s.calls.set c d → d.registers ≤ a.registers →
      s'.count Call.registers ≤ s.count Call.registers + e.clones.toNat := by
    intro c a d hc hcalls hle
    have hcount := count_set Call.registers hc hcalls
    omega
  cases h with
  | @start op _ _ =>
      refine .inl ⟨?_, Nat.le_refl _, fun _ => rfl⟩
      rw [count_concat s Call.registers s.txs s.rxs op.entry, entry_registers s.calls.length]
  | @startDropSender tx _ _ =>
      refine .inl ⟨?_, Nat.le_refl _, fun _ => rfl⟩
      rw [count_concat s Call.registers _ s.rxs (.dropSender tx)]
      exact Nat.le_refl _
  | @startDropReceiver rx hrx _ =>
      refine .inl ⟨?_, Nat.le_refl _, fun f => ?_⟩
      · rw [count_concat s Call.registers s.txs _ (.dropReceiver rx)]
        exact Nat.le_refl _
      · exact Nat.add_right_cancel (SlotMap.weight_set false hrx fun _ _ _ => rfl)
  | @scanEnd c p hc | @wake c p w hc =>
      exact .inl ⟨hmove hc rfl (by cases p <;> exact Nat.le_refl _), Nat.le_refl _, fun _ => rfl⟩
  | scanHit hc hw | insert hc hw | remove hc hw =>
      exact .inl ⟨hmove hc rfl (Nat.le_refl _), Nat.le_of_eq (congrArg List.length hw.keys_eq),
        fun _ => rfl⟩
  | @cloneRegister c rx pos k wl hc _ hadd =>
      have hcount := count_move Call.registers (.clonedReceiver rx)
        { s.cb with waitlist := wl } hc
      refine .inr ⟨k, rfl, fun _ => rfl, hcount, ?_, fun f => ?_⟩
      · show wl.keys.length = s.cb.waitlist.keys.length + 1
        rw [Waitlist.length_keys, Waitlist.length_keys, hadd.weight_eq]
      · exact s.rxs.weight_insertAt_le 0 k true fun k _ => f k
  | @deregisterEmpty c rx wl hc _ hdrop | @deregisterFull c rx w wl hc _ hdrop =>
      have hless : wl.keys.length + 1 = s.cb.waitlist.keys.length := by
        rw [Waitlist.length_keys, Waitlist.length_keys, ← hdrop.weight_eq]
      refine .inl ⟨hmove hc rfl (Nat.le_refl _), ?_, fun _ => rfl⟩
      show wl.keys.length ≤ s.cb.waitlist.keys.length
      omega
  | popSome hc _ | popEmpty hc _ | popDisconnected hc _ =>
      exact .inl ⟨hmove hc rfl (Nat.le_of_eq (answered_registers ..)), Nat.le_refl _,
        fun _ => rfl⟩
  | dropSenderLast hc _ | dropSenderMore hc _ | dropReceiverLast hc _ | dropReceiverMore hc _ =>
      exact .inl ⟨hmove hc rfl (Nat.le_refl _), Nat.le_refl _, fun _ => rfl⟩
  | _ => refine .inl ⟨hmove ‹_› rfl ?_, Nat.le_refl _, fun _ => rfl⟩; exact Nat.le_refl _

theorem slots_of_trans {s s' : State T} {e : Event T} (h : Trans s e s') :
    s'.slots ≤ s.slots + e.clones.toNat := by
  unfold State.slots
  rcases registers_of_trans h with ⟨hreg, hkeys, -⟩ | ⟨k, -, -, hreg, hkeys, -⟩ <;> omega

theorem slots_of_run {ok : Trace (State T) (Event T) → State T → Event T → Prop} {u : State T}
    {tr : Trace (State T) (Event T)} {s : State T} (hrun : Run (Next step) ok u tr s) :
    s.slots ≤ u.slots + times Event.clones tr ∧
      ∀ x ∈ tr, x.1.cb.waitlist.keys.length ≤ u.slots + times Event.clones tr := by
  induction hrun with
  | start => exact ⟨Nat.le_refl _, nofun⟩
  | @step tr s e s' _ hn _ ih =>
      obtain ⟨hs, hall⟩ := ih
      have hstep := slots_of_trans (trans_of_next hn)
      rw [times_cons]
      refine ⟨by omega, fun x hx => ?_⟩
      rcases List.mem_cons.mp hx with rfl | hold
      · have : s.cb.waitlist.keys.length ≤ s.slots := Nat.le_add_right _ _
        show s.cb.waitlist.keys.length ≤ _
        omega
      · have := hall x hold
        omega

theorem clones_le_byClient (tr : Trace (State T) (Event T)) :
    times Event.clones tr ≤ times Event.byClient tr := by
  induction tr with
  | nil => exact Nat.le_refl 0
  | cons x tr ih =>
      obtain ⟨s, e⟩ := x
      have hle : e.clones.toNat ≤ e.byClient.toNat := by
        cases e with
        | start => exact Bool.toNat_le _
        | _ => exact Nat.zero_le _
      rw [times_cons, times_cons]
      omega

theorem work_start (lay : Layout) (n : Nat) (h : 0 < n) (K : Nat) :
    (State.ringChannel lay n h : State T).work K = 0 := by
  have hadd := Waitlist.register_adds (Waitlist.new lay.waker : Waitlist Waker) 0
  have hsize : (State.ringChannel lay n h : State T).cb.waitlist.size = 0 :=
    hadd.weight_eq fun _ o => o.isSome.toNat
  rw [State.work, hsize, Nat.zero_mul]
  rfl

/-- All that the channel ever does is paid for by its clients: the length of a
run is at most the number of calls made and polls repeated, times the sum of ten
and the number of clones of a receiver. -/
theorem run_length {lay : Layout} {n : Nat} {h : 0 < n} {tr : Trace (State T) (Event T)}
    {s : State T} (hrun : Runs Free lay n h tr s) :
    tr.length ≤ times Event.byClient tr * (times Event.clones tr + 10) := by
  have hslots : (State.ringChannel lay n h : State T).slots = 1 := rfl
  have hlen := work_of_run hrun (slots_of_run hrun).2
  rw [hslots, work_start] at hlen
  have hcost : 1 + times Event.clones tr + 9 = times Event.clones tr + 10 := by omega
  rw [hcost] at hlen
  omega

/-- A `recv` sleeps on receiver 0, its clone has been polled as a stream, and the
only sender is being dropped. -/
def sleepAndLeave : List (Act Nat) :=
  [.start (.cloneReceiver 0 1), .run 0, .run 0, .start (.recv 0), .run 1, .run 1, .run 1, .run 1,
    .run 1, .start (.pollNext 1), .run 2, .run 2, .run 2, .run 2, .run 2, .start (.dropSender 0)]

theorem run_length_in_sleepAndLeave :
    let r := schedule (T := Nat) Free ⟨true, true⟩ 1 Nat.one_pos sleepAndLeave
    r.1.length = 16 ∧ times Event.byClient r.1 * (times Event.clones r.1 + 10) = 44 ∧
      r.1.length ≤ times Event.byClient r.1 * (times Event.clones r.1 + 10) :=
  ⟨by decide, by decide, run_length (runs_schedule ..)⟩

/-! ## How often the clients are woken -/

/-- The call has a waker to invoke, or may find one, outside the loop of the
last sender. -/
def Call.mayWake : Call T → Nat
  | .sendLoad .. | .sendPush .. | .popLock (.send ..) | .popScan (.send ..) _ => 1
  | .dropReceiver _ | .popLock (.dropReceiver _) | .popScan (.dropReceiver _) _ => 1
  | .wake .. => 1
  | _ => 0

/-- The clients poll anew or drop receivers, and do nothing else. -/
def Event.windsDown : Event T → Bool
  | .start _ (.pollNext _) | .start _ (.dropReceiver _) => true
  | .start .. => false
  | _ => true

/-- The drop of a receiver begins. -/
def Event.retires : Event T → Bool
  | .start _ (.dropReceiver _) => true
  | _ => false

/-- The receiver that the event begins a poll of. -/
def Event.target : Event T → Option Nat
  | .start _ op => op.polled
  | .repoll _ rx => some rx
  | _ => none

/-- A poll begins. -/
def Event.pollsAnew (e : Event T) : Bool := e.target.isSome

theorem eq_pollNext {c : Nat} {op : Op T} (h : ((.start c op : Event T)).windsDown = true)
    (hop : op.consumes = false) : ∃ rx, op = .pollNext rx := by
  cases op with
  | pollNext rx => exact ⟨rx, rfl⟩
  | dropReceiver => cases hop
  | _ => cases h

/-- All that a client does who winds down is to poll or to drop a receiver. -/
theorem byClient_of_windsDown {e : Event T} (h : e.windsDown = true) :
    e.byClient.toNat = e.pollsAnew.toNat + e.retires.toNat ∧ e.clones = false := by
  cases e with
  | start c op => cases op <;> first | exact ⟨rfl, rfl⟩ | cases h
  | _ => exact ⟨rfl, rfl⟩

theorem answered_mayWake (rx : Nat) (l : Look) (r : Except TryRecvError T) :
    (l.answered rx r).mayWake = 0 := by
  rcases l with _ | p | ⟨_ | _⟩ <;> rcases r with (_ | _) | m <;> rfl

/-- Every waker that is invoked was expected, or it has been taken by the loop
of the last sender; and that runs without senders only. -/
theorem mayWake_of_trans {s s' : State T} {e : Event T} (h : Trans s e s')
    (hloop : ∀ (c : Nat) (a : Call T), s.calls[c]? = some a → a.looping = true →
      s.cb.senders = 0)
    (hwinds : e.windsDown = true) :
    s'.count Call.mayWake + e.invokes.toNat
      ≤ s.count Call.mayWake + e.retires.toNat
        + (if s.cb.senders = 0 then (e.takes fun _ => true).toNat else 0) := by
  have hmove : ∀ {c : Nat} {a d : Call T}, s.calls[c]? = some a →
      s'.calls = s.calls.set c d → d.mayWake + e.invokes.toNat ≤ a.mayWake →
      s'.count Call.mayWake + e.invokes.toNat
        ≤ s.count Call.mayWake + e.retires.toNat
          + (if s.cb.senders = 0 then (e.takes fun _ => true).toNat else 0) := by
    intro c a d hc hcalls hle
    have hcount := count_set Call.mayWake hc hcalls
    omega
  cases h with
  | @start op _ hop =>
      obtain ⟨rx, rfl⟩ := eq_pollNext hwinds hop
      rw [count_concat s Call.mayWake s.txs s.rxs]
      exact Nat.le_add_right _ _
  | startDropSender => cases hwinds
  | @startDropReceiver rx _ _ =>
      rw [count_concat s Call.mayWake s.txs _ (.dropReceiver rx)]
      exact Nat.le_add_right _ _
  | @popLock c p hc => exact hmove hc rfl (by cases p <;> exact Nat.le_refl _)
  | @scanEnd c p hc => exact hmove hc rfl (by cases p <;> exact Nat.zero_le _)
  | @scanMiss c k p ks hc _ => exact hmove hc rfl (by cases p <;> exact Nat.le_refl _)
  | @scanHit c k p ks w wl hc hw =>
      cases p with
      | send | dropReceiver => exact hmove hc rfl (Nat.le_refl 1)
      | dropSender tx =>
          have hcount := count_move Call.mayWake (.wake (.dropSender tx) w)
            { s.cb with waitlist := wl.unlock } hc
          rw [if_pos (hloop c _ hc rfl)]
          simp only [Call.mayWake] at hcount
          exact Nat.le_of_eq hcount
  | @wake c p w hc => exact hmove hc rfl (by cases p <;> exact Nat.le_refl _)
  | popSome hc _ | popEmpty hc _ | popDisconnected hc _ =>
      exact hmove hc rfl (by rw [answered_mayWake]; exact Nat.zero_le _)
  | dropSenderLast hc _ | dropSenderMore hc _ | dropReceiverLast hc _ | dropReceiverMore hc _ =>
      exact hmove hc rfl (Nat.zero_le _)
  | sendLoad hc _ | pushNew hc _ | deregisterEmpty hc _ _ =>
      exact hmove hc rfl (Nat.le_refl 1)
  | _ => refine hmove ‹_› rfl ?_; exact Nat.zero_le _

theorem entry_inPoll (c : Nat) (op : Op T) :
    op.entry.inPoll = ((.start c op : Event T)).pollsAnew.toNat := by
  cases op <;> rfl

theorem answered_inPoll (rx : Nat) (l : Look) (connected : Bool) (r : Except TryRecvError T) :
    (l.answered rx r).inPoll ≤ (Call.pop rx l connected : Call T).inPoll := by
  rcases l with _ | p | ⟨_ | _⟩ <;> rcases r with (_ | _) | m <;>
    exact Nat.le_of_ble_eq_true rfl

/-- Only a client puts a call into a poll. -/
theorem inPoll_of_trans {s s' : State T} {e : Event T} (h : Trans s e s') :
    s'.count Call.inPoll ≤ s.count Call.inPoll + e.pollsAnew.toNat := by
  have hmove : ∀ {c : Nat} {a d : Call T}, s.calls[c]? = some a →
      s'.calls = s.calls.set c d → d.inPoll ≤ a.inPoll + e.pollsAnew.toNat →
      s'.count Call.inPoll ≤ s.count Call.inPoll + e.pollsAnew.toNat := by
    intro c a d hc hcalls hle
    have hcount := count_set Call.inPoll hc hcalls
    omega
  cases h with
  | @start op _ _ =>
      rw [count_concat s Call.inPoll s.txs s.rxs op.entry, entry_inPoll s.calls.length]
  | @startDropSender tx _ _ =>
      rw [count_concat s Call.inPoll _ s.rxs (.dropSender tx)]
      exact Nat.le_add_right _ _
  | @startDropReceiver rx _ _ =>
      rw [count_concat s Call.inPoll s.txs _ (.dropReceiver rx)]
      exact Nat.le_add_right _ _
  | repoll hc => exact hmove hc rfl (Nat.le_refl 1)
  | @load c rx l hc => exact hmove hc rfl (by cases l <;> exact Nat.le_refl _)
  | @popSome c rx l connected m hc _ => exact hmove hc rfl (answered_inPoll rx l connected _)
  | @popEmpty c rx l hc _ => exact hmove hc rfl (answered_inPoll rx l true _)
  | @popDisconnected c rx l hc _ => exact hmove hc rfl (answered_inPoll rx l false _)
  | insert hc _ => exact hmove hc rfl (Nat.le_refl 1)
  | @scanEnd c p hc | @wake c p w hc => exact hmove hc rfl (by cases p <;> exact Nat.le_refl _)
  | dropSenderLast hc _ | dropSenderMore hc _ | dropReceiverLast hc _ | dropReceiverMore hc _ =>
      exact hmove hc rfl (Nat.zero_le _)
  | _ => refine hmove ‹_› rfl ?_; exact Nat.zero_le _

theorem size_le_keys {W : Type} (wl : Waitlist W) : wl.size ≤ wl.keys.length := by
  rw [Waitlist.length_keys]
  exact SlotMap.weight_le_weight wl.items fun _ a => Bool.toNat_le a.item.isSome

/-- The loop of the last sender runs when no sender is counted. -/
theorem zero_of_looping {s : State T} (hi : Phased s) {c : Nat} {a : Call T}
    (hc : s.calls[c]? = some a) (ha : a.looping = true) : s.cb.senders = 0 := by
  by_contra hne
  have hlast : a.lastSender = 1 := by
    unfold Call.looping at ha
    split at ha <;> first | rfl | cases ha
  have hle := le_count Call.lastSender hc
  have hphase := hi.senders
  rw [if_neg hne] at hphase
  omega

/-- The clients make no new calls, except that they drop receivers, at most `d`,
and poll again: once for each waker that has been invoked, and `g` times for no
reason. -/
def Prompted (g d : Nat) (tr : Trace (State T) (Event T)) (_ : State T) (e : Event T) : Prop :=
  e.windsDown = true ∧ (e.retires = true → times Event.retires tr < d) ∧
    (e.pollsAnew = true → times Event.pollsAnew tr < g + times Event.invokes tr)

instance (g d : Nat) (tr : Trace (State T) (Event T)) (s : State T) (e : Event T) :
    Decidable (Prompted g d tr s e) :=
  inferInstanceAs (Decidable (_ ∧ _ ∧ _))

/-- How many wakers can be invoked from the state `u` on, if at most `K` slots
are registered. -/
def State.wakeups (g d K : Nat) (u : State T) : Nat :=
  2 * (u.count Call.mayWake + d) + u.count Call.inPoll + K + g

/-- As long as there are senders, a poll may put a waker back that the loop of
the last one will find; from then on what the loop will find is in the slots or
about to be inserted. -/
structure Wakeable (g d K : Nat) (u : State T) (tr : Trace (State T) (Event T)) (s : State T) :
    Prop where
  drops : times Event.retires tr ≤ d
  polls : times Event.pollsAnew tr ≤ g + times Event.invokes tr
  before : s.cb.senders ≠ 0 →
    2 * times Event.invokes tr + 2 * s.count Call.mayWake + s.count Call.inPoll + K + g + 2 * d
      ≤ u.wakeups g d K + times Event.pollsAnew tr + 2 * times Event.retires tr
  after : s.cb.senders = 0 →
    times Event.invokes tr + s.count Call.mayWake + s.cb.waitlist.size
      + s.count Call.mayInsert + d ≤ u.wakeups g d K + times Event.retires tr

theorem count_mayInsert_le (s : State T) : s.count Call.mayInsert ≤ s.count Call.inPoll :=
  Ledger.total_le_total fun _ a _ => mayInsert_le_inPoll a

theorem wakeable_start {g d K : Nat} {u : State T} (hK : u.cb.waitlist.keys.length ≤ K) :
    Wakeable g d K u [] u where
  drops := Nat.zero_le _
  polls := Nat.zero_le _
  before _ := by
    simp only [times_nil, State.wakeups]
    omega
  after _ := by
    have hsize := size_le_keys u.cb.waitlist
    have hinsert := count_mayInsert_le u
    simp only [times_nil, State.wakeups]
    omega

/-- What is allowed a number of times has happened at most that often. -/
theorem times_le_of_lt {f : Event T → Bool} {tr : Trace (State T) (Event T)} {s : State T}
    {e : Event T} {m : Nat} (hi : times f tr ≤ m) (hok : f e = true → times f tr < m) :
    times f ((s, e) :: tr) ≤ m := by
  rw [times_cons]
  cases he : f e with
  | false => exact hi
  | true => exact hok he

theorem wakeable_step {g d K : Nat} {u s s' : State T} {tr : Trace (State T) (Event T)}
    {e : Event T} (hw : Wf s) (hp : Phased s) (hK : s.cb.waitlist.keys.length ≤ K)
    (h : Trans s e s') (hok : Prompted g d tr s e) (hi : Wakeable g d K u tr s) :
    Wakeable g d K u ((s, e) :: tr) s' := by
  have hwake := mayWake_of_trans h (fun _ _ hc ha => zero_of_looping hp hc ha) hok.1
  have hdrops := times_le_of_lt (s := s) hi.drops hok.2.1
  have hpolls : times Event.pollsAnew ((s, e) :: tr)
      ≤ g + times Event.invokes ((s, e) :: tr) := by
    have hold := times_le_of_lt (s := s) hi.polls hok.2.2
    rw [times_cons Event.invokes]
    omega
  by_cases hz : s.cb.senders = 0
  · have hz' := senders_zero_of_trans hw h hz
    refine ⟨hdrops, hpolls, fun hne => absurd hz' hne, fun _ => ?_⟩
    have hsize := size_of_trans h
    have hinsert := mayInsert_of_trans h hz
    have hold := hi.after hz
    rw [if_pos hz] at hwake
    rw [times_cons, times_cons]
    omega
  · have hin := inPoll_of_trans h
    have hold := hi.before hz
    rw [if_neg hz] at hwake
    have hnext : 2 * times Event.invokes ((s, e) :: tr) + 2 * s'.count Call.mayWake
        + s'.count Call.inPoll + K + g + 2 * d
          ≤ u.wakeups g d K + times Event.pollsAnew ((s, e) :: tr)
            + 2 * times Event.retires ((s, e) :: tr) := by
      rw [times_cons, times_cons, times_cons]
      omega
    refine ⟨hdrops, hpolls, fun _ => hnext, fun hz' => ?_⟩
    -- the last sender has just been subtracted
    have hsize := size_of_trans h
    have hkeys := size_le_keys s.cb.waitlist
    have hinsert := count_mayInsert_le s'
    have hquiet : e.inserts = false := by
      cases h with
      | insert => exact absurd hz' hz
      | _ => rfl
    rw [hquiet, Bool.toNat_false] at hsize
    omega

/-- From `u` on, with `d` drops of receivers and `g` polls for no reason
allowed. -/
def State.unrest (g d : Nat) (u : State T) : Nat :=
  u.work u.slots + (g + d + u.wakeups g d u.slots) * (u.slots + 9)

theorem byClient_of_prompted {g d : Nat} {u : State T} {tr : Trace (State T) (Event T)}
    {s : State T} (hrun : Run (Next step) (Prompted g d) u tr s) :
    times Event.byClient tr = times Event.pollsAnew tr + times Event.retires tr ∧
      times Event.clones tr = 0 := by
  induction hrun with
  | start => exact ⟨rfl, rfl⟩
  | @step tr s e s' _ _ hok ih =>
      obtain ⟨hclient, hnone⟩ := byClient_of_windsDown hok.1
      rw [times_cons, times_cons, times_cons, times_cons, ih.1, ih.2, hclient, hnone]
      exact ⟨by omega, rfl⟩

theorem wakeable_of_run {lay : Layout} {n : Nat} {h : 0 < n} {g d : Nat}
    {tr₀ tr : Trace (State T) (Event T)} {u s : State T} (hreach : Runs Free lay n h tr₀ u)
    (hrun : Run (Next step) (Prompted g d) u tr s) : Wakeable g d u.slots u tr s := by
  induction hrun with
  | start => exact wakeable_start (Nat.le_add_right _ _)
  | @step tr s e s' hrun hn hok ih =>
      have hall : Runs Free lay n h (tr ++ tr₀) s := hreach.append (fun _ _ _ _ _ => trivial) hrun
      have hslots := (slots_of_run hrun).1
      rw [(byClient_of_prompted hrun).2] at hslots
      have hkeys : s.cb.waitlist.keys.length ≤ s.slots := Nat.le_add_right _ _
      exact wakeable_step (wf_of_run hall) (phased_of_run hall) (by omega) (trans_of_next hn) hok ih

theorem invokes_of_prompted {lay : Layout} {n : Nat} {h : 0 < n} {g d : Nat}
    {tr₀ tr : Trace (State T) (Event T)} {u s : State T} (hreach : Runs Free lay n h tr₀ u)
    (hrun : Run (Next step) (Prompted g d) u tr s) :
    times Event.invokes tr ≤ u.wakeups g d u.slots := by
  have hwakeable := wakeable_of_run hreach hrun
  have hdrops := hwakeable.drops
  by_cases hz : s.cb.senders = 0
  · have := hwakeable.after hz
    omega
  · have := hwakeable.before hz
    have := hwakeable.polls
    omega

theorem length_of_prompted {lay : Layout} {n : Nat} {h : 0 < n} {g d : Nat}
    {tr₀ tr : Trace (State T) (Event T)} {u s : State T} (hreach : Runs Free lay n h tr₀ u)
    (hrun : Run (Next step) (Prompted g d) u tr s) : tr.length ≤ u.unrest g d := by
  have hlen := work_of_run hrun (slots_of_run hrun).2
  obtain ⟨hclient, hclones⟩ := byClient_of_prompted hrun
  rw [hclones, Nat.add_zero] at hlen
  have hcalls : times Event.byClient tr ≤ g + d + u.wakeups g d u.slots := by
    have hinvokes := invokes_of_prompted hreach hrun
    have hpolls := (wakeable_of_run hreach hrun).polls
    have hdrops := (wakeable_of_run hreach hrun).drops
    omega
  have hmul := Nat.mul_le_mul_right (u.slots + 9) hcalls
  unfold State.unrest
  omega

/-- From every reachable state: if the clients make no new calls, except that
they drop at most `d` receivers, and poll again only when woken, apart from `g`
times, the channel comes to rest within a bounded number of steps, of which a
bounded number wake somebody. -/
theorem settles {lay : Layout} {n : Nat} {h : 0 < n} {g d : Nat}
    {tr₀ tr : Trace (State T) (Event T)} {u s : State T} (hreach : Runs Free lay n h tr₀ u)
    (hrun : Run (Next step) (Prompted g d) u tr s) :
    tr.length ≤ u.unrest g d ∧ times Event.invokes tr ≤ u.wakeups g d u.slots :=
  ⟨length_of_prompted hreach hrun, invokes_of_prompted hreach hrun⟩

/-- The drop of `sleepAndLeave` wakes both; both are polled again and find no
sender, and the second is dropped. -/
def wakeAndAnswer : List (Act Nat) :=
  [.run 3, .run 3, .run 3, .run 3, .run 3, .run 3, .run 3, .run 3, .run 3, .run 3, .run 3, .run 3,
    .unpark 1, .run 1, .run 1, .run 1, .start (.pollNext 1), .run 4, .run 4, .run 4, .run 3, .run 3,
    .start (.dropReceiver 1), .run 5, .run 5, .run 5, .run 5, .run 5]

theorem settles_in_wakeAndAnswer :
    let r := schedule (T := Nat) Free ⟨true, true⟩ 1 Nat.one_pos sleepAndLeave
    let q := play step (Prompted 0 1) [] r.2 wakeAndAnswer
    q.1.length = 27 ∧ times Event.invokes q.1 = 2 ∧
      q.1.length ≤ r.2.unrest 0 1 ∧ times Event.invokes q.1 ≤ r.2.wakeups 0 1 r.2.slots :=
  ⟨by decide, by decide, settles (runs_schedule ..) (Run.of_play _ .start)⟩

/-! ## Polling again when woken -/

theorem wokenOn_cons (rx : Nat) (s : State T) (e : Event T) (tr : Trace (State T) (Event T)) :
    wokenOn rx ((s, e) :: tr)
      = (e.wakes (fun w => w.slot = rx) || (!e.pollsOn rx && wokenOn rx tr)) := rfl

/-- The clients make no new calls, except that they drop receivers, and poll a
receiver again once a waker of it has been invoked since its last poll began. -/
def Retires (tr : Trace (State T) (Event T)) (_ : State T) (e : Event T) : Prop :=
  e.windsDown = true ∧ ∀ rx, e.pollsOn rx = true → wokenOn rx tr = true

/-- The same clients, when they keep their receivers. -/
def Awaits (tr : Trace (State T) (Event T)) (s : State T) (e : Event T) : Prop :=
  Retires tr s e ∧ e.retires = false

theorem pollsOn_iff {e : Event T} {rx : Nat} : e.pollsOn rx = true ↔ rx ∈ e.target := by
  cases e with
  | start c op => exact decide_eq_true_iff
  | repoll c r => simp [Event.pollsOn, Event.target]
  | _ => simp [Event.pollsOn, Event.target]

instance (tr : Trace (State T) (Event T)) (s : State T) (e : Event T) :
    Decidable (Retires tr s e) :=
  decidable_of_iff (e.windsDown = true ∧ ∀ rx ∈ e.target, wokenOn rx tr = true) <| by
    simp only [Retires, pollsOn_iff]

instance (tr : Trace (State T) (Event T)) (s : State T) (e : Event T) :
    Decidable (Awaits tr s e) :=
  inferInstanceAs (Decidable (_ ∧ _))

/-- The receivers that may be polled again, and those that are yet to be made. -/
def State.due (tr : Trace (State T) (Event T)) (s : State T) : Nat :=
  (s.rxs.weight fun rx _ => (wokenOn rx tr).toNat) + s.count Call.registers

/-- A poll is of a receiver that is usable. -/
theorem usable_of_pollsOn {s s' : State T} {e : Event T} (hw : Wf s) (h : Trans s e s') {rx : Nat}
    (hp : e.pollsOn rx = true) : s.rxs.get rx = some true := by
  cases h with
  | @start op hop _ =>
      have hu := usable_of_mayStart hop
      have hpoll : op.polled = some rx := of_decide_eq_true hp
      cases op <;> cases hpoll <;> exact hu
  | @repoll d r hd =>
      obtain rfl : r = rx := of_decide_eq_true hp
      exact hw.borrowed d _ hd rfl
  | _ => cases hp

theorem pollsOn_of_pollsAnew {s s' : State T} {e : Event T} (h : Trans s e s')
    (hwinds : e.windsDown = true) (he : e.pollsAnew = true) :
    ∃ rx, e.pollsOn rx = true ∧ (∀ j, j ≠ rx → e.pollsOn j = false) ∧
      e.invokes = false ∧ ∀ f, e.wakes f = false := by
  cases h with
  | @start op _ hop =>
      obtain ⟨rx, rfl⟩ := eq_pollNext hwinds hop
      exact ⟨rx, decide_eq_true rfl,
        fun j hj => decide_eq_false fun h => hj (Option.some.inj h).symm, rfl, fun _ => rfl⟩
  | startDropSender | startDropReceiver => cases he
  | @repoll c r hc =>
      exact ⟨r, decide_eq_true rfl, fun j hj => decide_eq_false (Ne.symm hj), rfl, fun _ => rfl⟩
  | _ => cases he

theorem pollsOn_of_not_pollsAnew {e : Event T} (he : e.pollsAnew = false) (rx : Nat) :
    e.pollsOn rx = false := by
  cases hrx : e.pollsOn rx with
  | false => rfl
  | true =>
      rw [Event.pollsAnew, pollsOn_iff.mp hrx] at he
      cases he

/-- A step that begins no poll makes at most one receiver due: the one whose
waker it invokes. -/
theorem wokenOn_of_quiet (tr : Trace (State T) (Event T)) (s : State T) {e : Event T}
    (hquiet : ∀ rx, e.pollsOn rx = false) (m : SlotMap Bool) :
    (m.weight fun rx _ => (wokenOn rx ((s, e) :: tr)).toNat)
      ≤ (m.weight fun rx _ => (wokenOn rx tr).toNat) + e.invokes.toNat := by
  cases e with
  | wake c w =>
      refine m.weight_le_succ w.slot (fun j _ hj => ?_) fun _ => ?_
      · have hne : decide (w.slot = j) = false := decide_eq_false (Ne.symm hj)
        rw [wokenOn_cons, hquiet j, Event.wakes, hne]
        simp
      · have hone := Bool.toNat_le (wokenOn w.slot ((s, .wake c w) :: tr))
        omega
  | _ =>
      refine Nat.le_trans (m.weight_le_weight fun rx _ => ?_) (Nat.le_add_right _ _)
      rw [wokenOn_cons, hquiet rx]
      exact Nat.le_refl _

/-- A poll uses up a waker that has been invoked. -/
theorem due_of_trans {tr : Trace (State T) (Event T)} {s s' : State T} {e : Event T} (hw : Wf s)
    (h : Trans s e s') (hok : Retires tr s e) :
    State.due ((s, e) :: tr) s' + e.pollsAnew.toNat ≤ State.due tr s + e.invokes.toNat := by
  unfold State.due
  rcases registers_of_trans h with ⟨hreg, -, hmade⟩ | ⟨k, hinv, hquiet, hreg, -, hmade⟩
  · rw [(byClient_of_windsDown hok.1).2] at hreg
    rw [hmade fun rx => (wokenOn rx ((s, e) :: tr)).toNat]
    cases he : e.pollsAnew with
    | true =>
        obtain ⟨rx, hrx, hoff, hinv, hnone⟩ := pollsOn_of_pollsAnew h hok.1 he
        have hdue := SlotMap.weight_at (f := fun rx _ => (wokenOn rx tr).toNat)
          (g := fun rx _ => (wokenOn rx ((s, e) :: tr)).toNat) (usable_of_pollsOn hw h hrx)
          (fun j _ hj => by rw [wokenOn_cons, hnone, hoff j hj]; simp)
        rw [wokenOn_cons, hnone, hrx, hok.2 rx hrx] at hdue
        simp only [Bool.not_true, Bool.false_and, Bool.or_false, Bool.toNat_false,
          Bool.toNat_true] at hdue hreg ⊢
        omega
    | false =>
        have hwoken := wokenOn_of_quiet tr s (pollsOn_of_not_pollsAnew he) s.rxs
        simp only [Bool.toNat_false] at hreg ⊢
        omega
  · have hmore := hmade fun rx => (wokenOn rx ((s, e) :: tr)).toNat
    have hwoken := wokenOn_of_quiet tr s hquiet s.rxs
    have hone := Bool.toNat_le (wokenOn k ((s, e) :: tr))
    have hnopoll : e.pollsAnew = false := by
      cases he : e.pollsAnew with
      | false => rfl
      | true =>
          obtain ⟨rx, hrx, -⟩ := pollsOn_of_pollsAnew h hok.1 he
          rw [hquiet rx] at hrx
          cases hrx
    rw [hinv] at hwoken ⊢
    rw [hnopoll]
    simp only [Bool.toNat_false] at hwoken ⊢
    omega

/-- Clients that poll again when woken poll no more often than that, and at most
once for each receiver for a waker that was invoked before. -/
theorem prompted_of_retires {ok : Trace (State T) (Event T) → State T → Event T → Prop}
    {lay : Layout} {n : Nat} {h : 0 < n} {d : Nat} {tr₀ tr : Trace (State T) (Event T)}
    {u s : State T} (hreach : Runs Free lay n h tr₀ u)
    (hok : ∀ tr s e, ok tr s e → Retires (tr ++ tr₀) s e)
    (hdrops : ∀ tr s e s', Run (Next step) ok u tr s → Next step s e s' → ok tr s e →
      times Event.retires ((s, e) :: tr) ≤ d)
    (hrun : Run (Next step) ok u tr s) : Run (Next step) (Prompted (State.due tr₀ u) d) u tr s := by
  have hall : ∀ {tr : Trace (State T) (Event T)} {s : State T}, Run (Next step) ok u tr s →
      times Event.pollsAnew tr + State.due (tr ++ tr₀) s
        ≤ State.due tr₀ u + times Event.invokes tr := by
    intro tr s hrun
    induction hrun with
    | start => exact Nat.le_of_eq (Nat.add_comm _ _)
    | @step tr s e s' hrun hn h' ih =>
        have hwf := wf_of_run (hreach.append (fun _ _ _ _ _ => trivial) hrun)
        have hstep := due_of_trans hwf (trans_of_next hn) (hok _ _ _ h')
        rw [times_cons, times_cons, List.cons_append]
        omega
  refine hrun.strengthen fun tr s e s' hrun hn h' => ⟨(hok _ _ _ h').1, fun he => ?_, fun he => ?_⟩
  · have hlater := hdrops tr s e s' hrun hn h'
    rw [times_cons, he] at hlater
    exact hlater
  · have hlater := hall (hrun.step hn h')
    obtain ⟨_, _, _, hinv, _⟩ := pollsOn_of_pollsAnew (trans_of_next hn) (hok _ _ _ h').1 he
    rw [times_cons, times_cons, he, hinv] at hlater
    simp only [Bool.toNat_true, Bool.toNat_false] at hlater
    omega

theorem retires_of_awaits {tr₀ : Trace (State T) (Event T)}
    {ok : Trace (State T) (Event T) → State T → Event T → Prop}
    (hok : ∀ tr s e, ok tr s e → Awaits (tr ++ tr₀) s e) {u : State T}
    {tr : Trace (State T) (Event T)} {s : State T} (hrun : Run (Next step) ok u tr s) :
    times Event.retires tr = 0 := by
  induction hrun with
  | start => rfl
  | step _ _ h' ih =>
      rw [times_cons, ih, (hok _ _ _ h').2]
      rfl

/-- Who keeps the receivers drops none. -/
theorem prompted_of_awaits {ok : Trace (State T) (Event T) → State T → Event T → Prop}
    {lay : Layout} {n : Nat} {h : 0 < n} {tr₀ tr : Trace (State T) (Event T)} {u s : State T}
    (hreach : Runs Free lay n h tr₀ u) (hok : ∀ tr s e, ok tr s e → Awaits (tr ++ tr₀) s e)
    (hrun : Run (Next step) ok u tr s) : Run (Next step) (Prompted (State.due tr₀ u) 0) u tr s :=
  prompted_of_retires hreach (fun _ _ _ h' => (hok _ _ _ h').1)
    (fun _ _ _ _ hrun' hn h' => Nat.le_of_eq (retires_of_awaits hok (hrun'.step hn h'))) hrun

/-- The receivers that may be dropped yet, and those that are yet to be made. -/
def State.leavers (s : State T) : Nat := s.liveReceivers + s.count Call.registers

theorem leavers_of_trans {s s' : State T} {e : Event T} (h : Trans s e s') :
    s'.leavers + e.retires.toNat ≤ s.leavers + e.clones.toNat := by
  have hmove : ∀ {c : Nat} {a d : Call T}, s.calls[c]? = some a →
      s'.calls = s.calls.set c d → s'.rxs = s.rxs → e.retires = false →
      d.registers ≤ a.registers → s'.leavers + e.retires.toNat ≤ s.leavers + e.clones.toNat := by
    intro c a d hc hcalls hrxs hnone hle
    have hcount := count_set Call.registers hc hcalls
    unfold State.leavers State.liveReceivers
    rw [hrxs, hnone, Bool.toNat_false]
    omega
  cases h with
  | @start op _ hop =>
      have hnone : ((.start s.calls.length op : Event T)).retires = false := by
        cases op <;> first | rfl | cases hop
      unfold State.leavers
      rw [count_concat s Call.registers s.txs s.rxs op.entry, entry_registers s.calls.length, hnone]
      exact Nat.le_of_eq (Nat.add_assoc _ _ _).symm
  | @startDropSender tx _ _ =>
      unfold State.leavers
      rw [count_concat s Call.registers _ s.rxs (.dropSender tx)]
      exact Nat.le_refl _
  | @startDropReceiver rx hrx _ =>
      have hlive : (s.rxs.set rx false).weight (fun _ b => b.toNat) + 1 = s.liveReceivers + 0 :=
        SlotMap.weight_set false hrx fun _ _ _ => rfl
      unfold State.leavers
      rw [count_concat s Call.registers s.txs _ (.dropReceiver rx)]
      show (s.rxs.set rx false).weight (fun _ b => b.toNat) + (_ + 0) + 1 ≤ _ + 0
      omega
  | @cloneRegister c rx pos k wl hc _ hadd =>
      have hcount := count_move Call.registers (.clonedReceiver rx) s.cb hc
      have hlive := s.rxs.weight_insertAt_le 0 k true fun _ b => b.toNat
      simp only [Call.registers] at hcount
      show (s.rxs.insertAt 0 k true).weight (fun _ b => b.toNat)
        + (s.move c (.clonedReceiver rx) s.cb).count _ + 0 ≤ s.leavers + 0
      unfold State.leavers State.liveReceivers
      simp only [Bool.toNat_true] at hlive
      omega
  | @scanEnd c p hc | @wake c p w hc =>
      exact hmove hc rfl rfl rfl (by cases p <;> exact Nat.le_refl _)
  | popSome hc _ | popEmpty hc _ | popDisconnected hc _ =>
      exact hmove hc rfl rfl rfl (Nat.le_of_eq (answered_registers ..))
  | dropSenderLast hc _ | dropSenderMore hc _ | dropReceiverLast hc _ | dropReceiverMore hc _ =>
      exact hmove hc rfl rfl rfl (Nat.le_refl _)
  | _ => refine hmove ‹_› rfl rfl rfl ?_; exact Nat.le_refl _

theorem leavers_of_run {ok : Trace (State T) (Event T) → State T → Event T → Prop} {u s : State T}
    {tr : Trace (State T) (Event T)} (hok : ∀ tr s e, ok tr s e → e.windsDown = true)
    (hrun : Run (Next step) ok u tr s) : times Event.retires tr + s.leavers ≤ u.leavers := by
  induction hrun with
  | start => exact Nat.le_of_eq (Nat.zero_add _)
  | step _ hn h' ih =>
      have hstep := leavers_of_trans (trans_of_next hn)
      rw [(byClient_of_windsDown (hok _ _ _ h')).2] at hstep
      simp only [times_cons, Bool.toNat_false] at hstep ⊢
      omega

/-! ## At rest -/

/-- Nobody is at work: every call has returned or sleeps. -/
def State.Quiet (s : State T) : Prop :=
  ∀ (c : Nat) (a : Call T), s.calls[c]? = some a → a.returned = true ∨ a.asleep = true

theorem quiet_iff {s : State T} :
    s.Quiet ↔ ∀ a ∈ s.calls, a.returned = true ∨ a.asleep = true := by
  constructor
  · intro h a ha
    obtain ⟨c, hc⟩ := List.mem_iff_getElem?.mp ha
    exact h c a hc
  · intro h c a hc
    exact h a (List.mem_of_getElem? hc)

instance (s : State T) : Decidable s.Quiet :=
  decidable_of_iff _ quiet_iff.symm

instance decLive (s : State T) (P : Nat → Prop) [DecidablePred P] :
    Decidable (∀ rx, s.usable (.receiver rx) → P rx) :=
  decidable_of_iff (∀ rx ∈ s.rxs.keys, s.usable (.receiver rx) → P rx)
    ⟨fun h rx hlive => h rx (SlotMap.mem_keys_of_get hlive) hlive, fun h rx _ => h rx⟩

/-- Who cannot make a step has returned or sleeps: whoever holds the lock could
make one. -/
theorem quiet_of_idle {ok : Trace (State T) (Event T) → State T → Event T → Prop}
    {lay : Layout} {n : Nat} {h : 0 < n} {tr : Trace (State T) (Event T)} {s : State T}
    (hrun : Runs ok lay n h tr s) (hidle : ∀ c, step s (.run c) = none) : s.Quiet := by
  intro c a hc
  have hfree : s.cb.waitlist.readers = 0 := by
    by_contra hheld
    rw [readLocked_of_run hrun] at hheld
    obtain ⟨d, b, hd, hb⟩ := count_pos (Nat.pos_of_ne_zero hheld)
    obtain ⟨p, ks, rfl⟩ := eq_popScan_of_reads hb
    obtain ⟨_, _, hstep⟩ := step_of_scan hd
    rw [hidle d] at hstep
    cases hstep
  cases hret : a.returned with
  | true => exact .inl rfl
  | false =>
      cases hup : a.asleep with
      | true => exact .inr rfl
      | false =>
          have hstep := step_of_ready (wf_of_run hrun) hc hret hup fun _ => hfree
          rw [hidle c] at hstep
          cases hstep

theorem parked_of_quiet {a : Call T} (h : a.returned = true ∨ a.asleep = true)
    (hret : a.returned = false) : ∃ rx, a = .parked rx := by
  rcases h with h | h
  · rw [hret] at h
    cases h
  · cases a with
    | parked rx => exact ⟨rx, rfl⟩
    | _ => cases h

/-- With nobody at work, every step is the clients'. -/
theorem byClient_of_quiet {s s' : State T} {e : Event T} (hquiet : s.Quiet)
    (h : Next step s e s') : e.byClient = true := by
  obtain ⟨a, ha⟩ := h
  cases a with
  | start op =>
      simp only [step] at ha
      split at ha
      · cases ha
        rfl
      · cases ha
  | unpark c =>
      simp only [step] at ha
      split at ha
      · cases ha
        rfl
      · cases ha
  | run c =>
      obtain ⟨a, hc, -, -, hret⟩ := caller_of_step ha
      obtain ⟨rx, rfl⟩ := parked_of_quiet (hquiet c a hc) hret
      simp only [step, hc] at ha
      cases ha

theorem not_willVisit {a : Call T} (h : a.returned = true ∨ a.asleep = true) (k : Nat) :
    a.willVisit k = false := by
  cases a with
  | popLock | popScan | wake => rcases h with h | h <;> cases h
  | _ => rfl

/-- With nobody at work, a receiver whose waker was taken has been woken. -/
theorem wokenOn_of_taken {ok : Trace (State T) (Event T) → State T → Event T → Prop}
    {lay : Layout} {n : Nat} {h : 0 < n} {tr : Trace (State T) (Event T)} {s : State T}
    (hrun : Runs ok lay n h tr s) (hquiet : s.Quiet) {c rx : Nat}
    (hlast : lastPoll rx tr = some c) (htaken : taken c tr = true) : wokenOn rx tr = true := by
  rcases woken_of_taken hrun _ _ (takenOn_of_taken hrun hlast htaken) with
    hwoken | ⟨d, p, w, hd, -⟩
  · exact hwoken
  · rcases hquiet d _ hd with hret | hup
    · cases hret
    · cases hup

/-- Without senders and with nobody at work, a receiver whose last poll sleeps
has been woken since it began. -/
theorem wokenOn_of_sleeps {lay : Layout} {n : Nat} {h : 0 < n} {tr : Trace (State T) (Event T)}
    {s : State T} (hrun : Runs OnePoll lay n h tr s) (hquiet : s.Quiet)
    (hz : s.cb.senders = 0) {c rx : Nat} {a : Call T} (hc : s.calls[c]? = some a)
    (hsleeps : a.sleeps = true) (hwaits : a.waits = some rx) (hlast : lastPoll rx tr = some c)
    (hlive : s.usable (.receiver rx)) : wokenOn rx tr = true := by
  have hslot := slot_of_usable (wf_of_run hrun) rx hlive
  rcases held_of_run (undisturbed_of_onePoll hrun) c rx ⟨a, hc, hwaits, fun _ => hlast⟩ hslot with
    hheld | htaken
  · -- its waker would be in the slot, and somebody about to visit it
    obtain ⟨d, b, hd, hb⟩ := visited_of_run hrun hz rx ⟨rx, c⟩ a hheld hc hsleeps
    rw [not_willVisit (hquiet d b hd)] at hb
    cases hb
  · exact wokenOn_of_taken hrun hquiet hlast htaken

/-- A parked call whose receiver has been woken may be polled again. -/
theorem repoll_of_parked {tr : Trace (State T) (Event T)} {s : State T} {c rx : Nat}
    (hc : s.calls[c]? = some (.parked rx)) (hwoken : wokenOn rx tr = true) :
    ∃ s', Next step s (.repoll c rx) s' ∧ Awaits tr s (.repoll c rx) := by
  refine ⟨s.move c (.load rx (.first .recv)) s.cb, ⟨.unpark c, by simp only [step, hc]⟩,
    ⟨rfl, fun r hr => ?_⟩, rfl⟩
  obtain rfl : rx = r := of_decide_eq_true hr
  exact hwoken

/-- A receiver that nobody is using may be polled again if it has been woken. -/
theorem pollNext_of_idle {tr : Trace (State T) (Event T)} {s : State T} {rx : Nat}
    (hidle : s.busy (.receiver rx) = false) (hlive : s.usable (.receiver rx))
    (hwoken : wokenOn rx tr = true) :
    ∃ s', Next step s (.start s.calls.length (.pollNext rx)) s' ∧
      Awaits tr s (.start s.calls.length (.pollNext rx)) := by
  have hstart : s.mayStart (.pollNext rx) = true := by
    have hget : s.rxs.get rx = some true := hlive
    simp [State.mayStart, hget, hidle]
  refine ⟨s.begin (.pollNext rx), ⟨.start (.pollNext rx), by simp only [step, if_pos hstart]⟩,
    ⟨rfl, fun r hr => ?_⟩, rfl⟩
  obtain rfl : rx = r := Option.some.inj (of_decide_eq_true hr)
  exact hwoken

/-- It may be dropped in any case. -/
theorem drop_of_idle {tr : Trace (State T) (Event T)} {s : State T} {rx : Nat}
    (hidle : s.busy (.receiver rx) = false) (hlive : s.usable (.receiver rx)) :
    ∃ s', Next step s (.start s.calls.length (.dropReceiver rx)) s' ∧
      Retires tr s (.start s.calls.length (.dropReceiver rx)) := by
  have hstart : s.mayStart (.dropReceiver rx) = true := by
    have hget : s.rxs.get rx = some true := hlive
    simp [State.mayStart, hget, hidle]
  refine ⟨s.begin (.dropReceiver rx), ⟨.start (.dropReceiver rx), by
    simp only [step, if_pos hstart]⟩, rfl, fun r hr => ?_⟩
  cases hr

/-- With nobody at work, who uses a receiver is parked on it. -/
theorem parked_of_busy {s : State T} (hquiet : s.Quiet) {rx : Nat}
    (hbusy : s.busy (.receiver rx) = true) : ∃ c : Nat, s.calls[c]? = some (.parked rx) := by
  obtain ⟨a, ha, hcall⟩ := List.any_eq_true.mp hbusy
  obtain ⟨c, hc⟩ := List.mem_iff_getElem?.mp ha
  simp only [Bool.and_eq_true, Bool.not_eq_true', decide_eq_true_eq] at hcall
  obtain ⟨r, rfl⟩ := parked_of_quiet (hquiet c a hc) hcall.1
  obtain rfl : r = rx := Endpoint.receiver.inj hcall.2
  exact ⟨c, hc⟩

/-- With nobody at work, a receiver that has been woken may be polled again. -/
theorem awaits_of_woken {tr : Trace (State T) (Event T)} {s : State T} (hquiet : s.Quiet)
    {rx : Nat} (hlive : s.usable (.receiver rx)) (hwoken : wokenOn rx tr = true) :
    ∃ e s', Next step s e s' ∧ Awaits tr s e := by
  cases hbusy : s.busy (.receiver rx) with
  | true =>
      obtain ⟨c, hc⟩ := parked_of_busy hquiet hbusy
      exact ⟨_, repoll_of_parked hc hwoken⟩
  | false => exact ⟨_, pollNext_of_idle hbusy hlive hwoken⟩

/-- No sender is usable, and none is being dropped. -/
theorem senders_zero_of_left {s : State T} (hw : Wf s) (hquiet : s.Quiet)
    (hleft : ∀ tx : Nat, s.txs[tx]? ≠ some true) : s.cb.senders = 0 := by
  have hlive : s.liveSenders = 0 := Ledger.total_eq_zero fun tx b hb => by
    cases b with
    | false => rfl
    | true => exact absurd hb (hleft tx)
  have howns : s.count Call.ownsSender = 0 := count_eq_zero fun c a hc => by
    rcases hquiet c a hc with hret | hup
    · cases a <;> first | rfl | cases hret
    · cases a <;> first | rfl | cases hup
  rw [hw.counted.senders, hlive, howns]

/-- A client that winds down polls a receiver that nobody else polls. -/
theorem onePoll_of_windsDown {tr : Trace (State T) (Event T)} {s s' : State T} {e : Event T}
    (h : Trans s e s') (hwinds : e.windsDown = true) : OnePoll tr s e := by
  intro op hop rx hpoll a ha hpolled
  cases h with
  | @start op' hstart hnew =>
      obtain rfl : op' = op := Option.some.inj hop
      obtain ⟨r, rfl⟩ := eq_pollNext hwinds hnew
      obtain rfl : r = rx := Option.some.inj hpoll
      simp only [State.mayStart, Bool.and_eq_true, Bool.not_eq_true'] at hstart
      obtain ⟨c, hc⟩ := List.mem_iff_getElem?.mp ha
      cases hret : a.returned with
      | true => rfl
      | false => exact absurd (endpoint_of_polled hpolled) (not_busy hstart.2 hc hret)
  | startDropSender | startDropReceiver =>
      obtain rfl := Option.some.inj hop
      cases hpoll
  | _ => cases hop

/-- Under a rule that restricts only the clients, who is stuck is idle. -/
theorem idle_of_stuck {ok : Trace (State T) (Event T) → State T → Event T → Prop}
    {tr : Trace (State T) (Event T)} {s : State T}
    (hok : ∀ e : Event T, e.byClient = false → ok tr s e) (hstuck : Stuck (Next step) ok tr s) :
    ∀ c, step s (.run c) = none := by
  intro c
  cases hstep : step s (.run c) with
  | none => rfl
  | some r =>
      obtain ⟨e, s'⟩ := r
      obtain ⟨-, -, -, hnot, -⟩ := caller_of_step hstep
      exact absurd (hok e hnot) (hstuck e s' ⟨.run c, hstep⟩)

theorem awaits_of_not_byClient {tr : Trace (State T) (Event T)} {s : State T} {e : Event T}
    (h : e.byClient = false) : Awaits tr s e := by
  cases e with
  | start | repoll => cases h
  | _ => exact ⟨⟨rfl, fun _ hp => by cases hp⟩, rfl⟩

/-- With nobody at work and nobody woken, all that is left to do is to drop
receivers. -/
theorem retires_of_quiet {tr : Trace (State T) (Event T)} {s s' : State T} {e : Event T}
    (hw : Wf s) (hquiet : s.Quiet)
    (hnot : ∀ rx, s.usable (.receiver rx) → wokenOn rx tr = false) (hn : Next step s e s')
    (hok : Retires tr s e) : e.retires = true := by
  have hclient := (byClient_of_windsDown hok.1).1
  rw [byClient_of_quiet hquiet hn] at hclient
  cases hpoll : e.pollsAnew with
  | false =>
      cases he : e.retires with
      | true => rfl
      | false =>
          rw [hpoll, he] at hclient
          cases hclient
  | true =>
      obtain ⟨rx, hrx, -⟩ := pollsOn_of_pollsAnew (trans_of_next hn) hok.1 hpoll
      have hwoken := hok.2 rx hrx
      rw [hnot rx (usable_of_pollsOn hw (trans_of_next hn) hrx)] at hwoken
      cases hwoken

/-- Clients that poll again when woken have nothing left to do exactly when
nobody is at work and no receiver has been woken. -/
theorem stuck_awaits_iff {ok : Trace (State T) (Event T) → State T → Event T → Prop}
    {lay : Layout} {n : Nat} {h : 0 < n} {tr : Trace (State T) (Event T)} {s : State T}
    (hrun : Runs ok lay n h tr s) :
    Stuck (Next step) Awaits tr s ↔
      s.Quiet ∧ ∀ rx, s.usable (.receiver rx) → wokenOn rx tr = false := by
  constructor
  · intro hstuck
    have hquiet : s.Quiet :=
      quiet_of_idle hrun (idle_of_stuck (fun _ he => awaits_of_not_byClient he) hstuck)
    refine ⟨hquiet, fun rx hlive => Bool.eq_false_iff.mpr fun hwoken => ?_⟩
    obtain ⟨_, _, hnext, hawaits⟩ := awaits_of_woken hquiet hlive hwoken
    exact hstuck _ _ hnext hawaits
  · rintro ⟨hquiet, hnot⟩ e s' hn ⟨hretires, hkeeps⟩
    rw [retires_of_quiet (wf_of_run hrun) hquiet hnot hn hretires] at hkeeps
    cases hkeeps

/-- If they drop receivers too, every receiver is in use besides. -/
theorem stuck_retires_iff {ok : Trace (State T) (Event T) → State T → Event T → Prop}
    {lay : Layout} {n : Nat} {h : 0 < n} {tr : Trace (State T) (Event T)} {s : State T}
    (hrun : Runs ok lay n h tr s) :
    Stuck (Next step) Retires tr s ↔
      s.Quiet ∧ ∀ rx, s.usable (.receiver rx) →
        wokenOn rx tr = false ∧ s.busy (.receiver rx) = true := by
  constructor
  · intro hstuck
    obtain ⟨hquiet, hnot⟩ :=
      (stuck_awaits_iff hrun).mp fun e s' hn hok => hstuck e s' hn hok.1
    refine ⟨hquiet, fun rx hlive => ⟨hnot rx hlive, ?_⟩⟩
    cases hbusy : s.busy (.receiver rx) with
    | true => rfl
    | false =>
        obtain ⟨_, hnext, hretires⟩ := drop_of_idle hbusy hlive
        exact absurd hretires (hstuck _ _ hnext)
  · rintro ⟨hquiet, hall⟩ e s' hn hok
    have hretires := retires_of_quiet (wf_of_run hrun) hquiet (fun rx hlive => (hall rx hlive).1)
      hn hok
    cases trans_of_next hn with
    | @startDropReceiver rx hlive hidle =>
        rw [(hall rx hlive).2] at hidle
        cases hidle
    | @start op _ hop =>
        obtain ⟨rx, rfl⟩ := eq_pollNext hok.1 hop
        cases hretires
    | _ => cases hretires

/-- From every reachable state in which receivers are polled one at a time: if
the clients only poll again when woken, the channel does a bounded number of
steps; when it can do no more, every call has returned or sleeps; and if no
sender is left by then, none sleeps, and the last poll of every receiver was
answered. -/
theorem comes_to_rest {lay : Layout} {n : Nat} {h : 0 < n} {tr₀ tr : Trace (State T) (Event T)}
    {u s : State T} (hreach : Runs OnePoll lay n h tr₀ u)
    (hrun : Run (Next step) (fun tr => Awaits (tr ++ tr₀)) u tr s) :
    tr.length ≤ u.unrest (State.due tr₀ u) 0 ∧
      (Stuck (Next step) (fun tr => Awaits (tr ++ tr₀)) tr s →
        (∀ a ∈ s.calls, a.returned = true ∨ a.asleep = true) ∧
        ((∀ tx : Nat, s.txs[tx]? ≠ some true) →
          (∀ a ∈ s.calls, a.returned = true) ∧
          ∀ rx c : Nat, s.usable (.receiver rx) → lastPoll rx (tr ++ tr₀) = some c →
            s.calls[c]? ≠ some (.pending rx))) := by
  have hfree : Runs Free lay n h tr₀ u := hreach.weaken fun _ _ _ _ => trivial
  have hall : Runs OnePoll lay n h (tr ++ tr₀) s := by
    refine hreach.append (fun _ _ _ _ h => h) (hrun.strengthen fun _ _ _ _ _ hn hok => ?_)
    exact onePoll_of_windsDown (trans_of_next hn) hok.1.1
  have hwf := wf_of_run hall
  refine ⟨length_of_prompted hfree (prompted_of_awaits hfree (fun _ _ _ hok => hok) hrun),
    fun hstuck => ?_⟩
  obtain ⟨hquiet, hunwoken⟩ := (stuck_awaits_iff hall).mp hstuck
  refine ⟨quiet_iff.mp hquiet, fun hleft => ?_⟩
  have hz := senders_zero_of_left hwf hquiet hleft
  -- whoever sleeps has been woken, so it may be polled again
  have hnot : ∀ {c rx : Nat} {a : Call T}, s.calls[c]? = some a → a.sleeps = true →
      a.waits = some rx → lastPoll rx (tr ++ tr₀) = some c → ¬ s.usable (.receiver rx) := by
    intro c rx a hc hsleeps hwaits hlast hlive
    have hwoken := wokenOn_of_sleeps hall hquiet hz hc hsleeps hwaits hlast hlive
    rw [hunwoken rx hlive] at hwoken
    cases hwoken
  refine ⟨fun a ha => ?_, fun rx c hlive hlast hc => hnot hc rfl rfl hlast hlive⟩
  obtain ⟨c, hc⟩ := List.mem_iff_getElem?.mp ha
  cases hret : a.returned with
  | true => rfl
  | false =>
      obtain ⟨rx, rfl⟩ := parked_of_quiet (hquiet c a hc) hret
      exact absurd (hwf.borrowed c _ hc rfl)
        (hnot hc rfl rfl (sole_of_run hall c _ rx hc rfl rfl))

theorem comes_to_rest_in_sleepAndLeave :
    let r := schedule OnePoll ⟨true, true⟩ 1 Nat.one_pos sleepAndLeave
    let q := play step (fun tr => Awaits (tr ++ r.1)) [] r.2 wakeAndAnswer
    r.2.calls = [.clonedReceiver 0, .parked 0, .pending 1, .dropSender 0] ∧
      q.2.calls = [.clonedReceiver 0, .ready 0 .recv none, .pending 1,
        .dropped (.sender 0) true, .ready 1 .pollNext none] ∧
      q.1.length ≤ r.2.unrest (State.due r.1 r.2) 0 ∧
      Stuck (Next step) (fun tr => Awaits (tr ++ r.1)) q.1 q.2 ∧
      (∀ a ∈ q.2.calls, a.returned = true) ∧
      ∀ rx c : Nat, q.2.usable (.receiver rx) → lastPoll rx (q.1 ++ r.1) = some c →
        q.2.calls[c]? ≠ some (.pending rx) := by
  intro r q
  have hreach := runs_schedule (T := Nat) OnePoll ⟨true, true⟩ 1 Nat.one_pos sleepAndLeave
  have hrun : Run (Next step) (fun tr => Awaits (tr ++ r.1)) r.2 q.1 q.2 := Run.of_play _ .start
  have hstuck : Stuck (Next step) (fun tr => Awaits (tr ++ r.1)) q.1 q.2 :=
    (stuck_awaits_iff (hreach.append_free hrun)).mpr (by decide)
  obtain ⟨hlen, hrest⟩ := comes_to_rest hreach hrun
  have hleft : true ∉ q.2.txs := by decide
  exact ⟨by decide, by decide, hlen, hstuck,
    (hrest hstuck).2 fun tx htx => hleft (List.mem_of_getElem? htx)⟩

end RingChannel
