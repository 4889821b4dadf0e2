/-
# `RingChannel.WakeLoop` — the wake loop of the last sender ends

The drop of the last sender pops wakers until a scan finds none, and each waker
it invokes is a task that may poll the channel again at once and put a waker
back.  The size of the waitlist alone bounds nothing: the loop drains what
others refill.

What bounds it is the sender count, which is zero by then and stays zero.  A
poll whose first look begins now reads that zero, and answers without
inserting.  So only a poll that had read a positive count before can still
insert, each of them once (`Call.mayInsert`), and no step makes a new one.
Every round of the loop takes a waker that was there at the start or was
inserted since.
-/
import RingChannel.Answers
import RingChannel.Wakers

namespace RingChannel

variable {T : Type}

/-! ## Who can still insert -/

/-- A poll is in progress. -/
def Call.inPoll (a : Call T) : Nat := a.midPoll.isSome.toNat

/-- The poll read a positive sender count at its first look, and has not
inserted since. -/
def Call.mayInsert : Call T → Nat
  | .pop _ (.first _) true | .insert .. => 1
  | _ => 0

def Event.inserts : Event T → Bool
  | .insert .. => true
  | _ => false

theorem mayInsert_le_inPoll (a : Call T) : a.mayInsert ≤ a.inPoll := by
  cases a with
  | pop rx l connected =>
      cases l with
      | first p => cases connected <;> exact Nat.le_of_ble_eq_true rfl
      | _ => exact Nat.zero_le _
  | insert => exact Nat.le_refl 1
  | _ => exact Nat.zero_le _

theorem entry_mayInsert (op : Op T) : op.entry.mayInsert = 0 := by
  cases op <;> rfl

/-- Only `Empty` at the first look leads on to an insertion. -/
theorem answered_mayInsert (rx : Nat) (l : Look) {connected : Bool}
    {r : Except TryRecvError T} (h : r = .error .empty → connected = true) :
    (l.answered rx r).mayInsert ≤ (Call.pop rx l connected : Call T).mayInsert := by
  cases l with
  | tryRecv => exact Nat.zero_le _
  | first p =>
      rcases r with (_ | _) | m
      · rw [h rfl]
        exact Nat.le_refl 1
      · exact Nat.zero_le _
      · exact Nat.zero_le _
  | again p =>
      rcases r with (_ | _) | m
      · cases p <;> exact Nat.zero_le _
      · exact Nat.zero_le _
      · exact Nat.zero_le _

/-- An insertion uses up a call that may insert, and with no sender left no
step makes another one. -/
theorem mayInsert_of_trans {s s' : State T} {e : Event T} (h : Trans s e s')
    (hz : s.cb.senders = 0) :
    s'.count Call.mayInsert + e.inserts.toNat ≤ s.count Call.mayInsert := by
  have hmove : ∀ {c n : Nat} {a d : Call T}, s.calls[c]? = some a →
      s'.calls = s.calls.set c d → d.mayInsert + n ≤ a.mayInsert →
      s'.count Call.mayInsert + n ≤ s.count Call.mayInsert := by
    intro c n a d hc hcalls hle
    have := count_set Call.mayInsert hc hcalls
    omega
  cases h with
  | @start op _ _ =>
      rw [count_concat s Call.mayInsert s.txs s.rxs op.entry, entry_mayInsert]
      exact Nat.le_refl _
  | @startDropSender tx _ _ =>
      rw [count_concat s Call.mayInsert _ s.rxs (.dropSender tx)]
      exact Nat.le_refl _
  | @startDropReceiver rx _ _ =>
      rw [count_concat s Call.mayInsert s.txs _ (.dropReceiver rx)]
      exact Nat.le_refl _
  | @load c rx l hc =>
      refine hmove hc rfl ?_
      rw [hz]
      cases l <;> exact Nat.le_refl 0
  | popSome hc _ => exact hmove hc rfl (answered_mayInsert _ _ nofun)
  | popEmpty hc _ => exact hmove hc rfl (answered_mayInsert _ _ fun _ => rfl)
  | popDisconnected hc _ => exact hmove hc rfl (answered_mayInsert _ _ nofun)
  | insert hc _ => exact hmove hc rfl (Nat.le_refl 1)
  | @scanEnd c p hc | @wake c p w hc => exact hmove hc rfl (by cases p <;> exact Nat.le_refl 0)
  | dropSenderLast hc _ | dropSenderMore hc _ | dropReceiverLast hc _ | dropReceiverMore hc _ =>
      exact hmove hc rfl (Nat.zero_le _)
  | _ => refine hmove ‹_› rfl ?_; exact Nat.zero_le _

/-- What is taken leaves the waitlist, and only an insertion adds to it. -/
theorem size_of_trans {s s' : State T} {e : Event T} (h : Trans s e s') :
    s'.cb.waitlist.size + (e.takes fun _ => true).toNat
      ≤ s.cb.waitlist.size + e.inserts.toNat := by
  cases h with
  | @scanHit c k p ks w wl _ hw =>
      have hsize : wl.size + 1 = s.cb.waitlist.size + 0 := hw.weight_eq _ _ fun _ _ _ => rfl
      exact Nat.le_of_eq hsize
  | @cloneRegister c rx pos k wl _ _ hadd =>
      have hsize : wl.size = s.cb.waitlist.size + 0 := hadd.weight_eq _
      exact Nat.le_of_eq hsize
  | @deregisterEmpty c rx wl _ _ hdrop =>
      have hsize : wl.size + 0 = s.cb.waitlist.size := hdrop.weight_eq _
      exact Nat.le_of_eq hsize
  | @deregisterFull c rx w wl _ _ hdrop =>
      have hsize : wl.size + 1 = s.cb.waitlist.size := hdrop.weight_eq _
      show wl.size ≤ s.cb.waitlist.size
      omega
  | @insert c rx p old wl _ hw =>
      have hsize : wl.size + old.isSome.toNat = s.cb.waitlist.size + 1 :=
        hw.weight_eq _ _ fun _ _ _ => rfl
      show wl.size ≤ s.cb.waitlist.size + 1
      omega
  | @remove c rx p r old wl _ hw =>
      have hsize : wl.size + old.isSome.toNat = s.cb.waitlist.size + 0 :=
        hw.weight_eq _ _ fun _ _ _ => rfl
      show wl.size ≤ s.cb.waitlist.size
      omega
  | _ => exact Nat.le_refl _

/-! ## The loop -/

namespace Event

/-- Call `c` takes a waker: a round of its loop begins. -/
def takenBy (c : Nat) : Event T → Bool
  | .take d _ => d = c
  | _ => false

/-- Call `c` invokes a waker: the body of its loop. -/
def wokenBy (c : Nat) : Event T → Bool
  | .wake d _ => d = c
  | _ => false

/-- Call `c` makes the step. -/
def madeBy (c : Nat) (e : Event T) : Bool := e.caller = c

end Event

namespace Call

/-- The drop of the last sender `tx`, past its decrement. -/
def leaving (tx : Nat) : Call T → Bool
  | .popLock (.dropSender t) | .popScan (.dropSender t) _ | .wake (.dropSender t) _ => t = tx
  | .dropSenderSwap t | .free (.sender t) | .dropped (.sender t) true => t = tx
  | _ => false

/-- The drop of the last sender is in its loop. -/
def looping : Call T → Bool
  | .popLock (.dropSender _) | .popScan (.dropSender _) _ | .wake (.dropSender _) _ => true
  | _ => false

/-- A waker is taken and not yet invoked. -/
def carries : Call T → Nat
  | .wake .. => 1
  | _ => 0

/-- The steps that are left, if at most `K` slots are registered and no scan
finds a waker from now on. -/
def stepsLeft (K : Nat) : Call T → Nat
  | .popLock _ => K + 4
  | .popScan _ ks => ks.length + 3
  | .wake .. => K + 5
  | .dropSenderSwap _ => 2
  | .free _ => 1
  | _ => 0

end Call

/-- One step of the leaving drop: what it takes, it will invoke, and a scan that
finds a waker buys another round. -/
theorem leaving_of_trans {s s' : State T} {e : Event T} (h : Trans s e s') {c tx : Nat}
    {a : Call T} (hc : s.calls[c]? = some a) (ha : a.leaving tx = true) (he : e.caller = c) :
    ∃ d, s'.calls[c]? = some d ∧ d.leaving tx = true ∧
      (e.wokenBy c).toNat + d.carries = a.carries + (e.takenBy c).toNat ∧
      ∀ K, s.cb.waitlist.keys.length ≤ K →
        1 + d.stepsLeft K ≤ a.stepsLeft K + (e.takenBy c).toNat * (K + 2) := by
  have hset : ∀ {d : Call T}, (s.calls.set c d)[c]? = some d := fun {d} =>
    Ledger.getElem?_set_self_of d hc
  cases h with
  | start | startDropSender | startDropReceiver =>
      have hlt := (List.getElem?_eq_some_iff.mp hc).1
      exact absurd he (Nat.ne_of_gt hlt)
  | @popLock c' p hc' =>
      obtain rfl : c' = c := he
      obtain rfl : a = .popLock p := Option.some.inj (hc.symm.trans hc')
      refine ⟨_, hset, by cases p <;> exact ha, rfl, fun K hK => ?_⟩
      simp only [Call.stepsLeft]
      omega
  | @scanEnd c' p hc' =>
      obtain rfl : c' = c := he
      obtain rfl : a = .popScan p [] := Option.some.inj (hc.symm.trans hc')
      cases p with
      | dropSender t => exact ⟨_, hset, ha, rfl, fun K _ => Nat.le_add_right 3 _⟩
      | _ => cases ha
  | @scanMiss c' k p ks hc' _ =>
      obtain rfl : c' = c := he
      obtain rfl : a = .popScan p (k :: ks) := Option.some.inj (hc.symm.trans hc')
      refine ⟨_, hset, by cases p <;> exact ha, rfl, fun K hK => ?_⟩
      simp only [Call.stepsLeft, List.length_cons]
      omega
  | @scanHit c' k p ks w wl hc' _ =>
      obtain rfl : c' = c := he
      obtain rfl : a = .popScan p (k :: ks) := Option.some.inj (hc.symm.trans hc')
      refine ⟨_, hset, by cases p <;> exact ha, by simp [Event.wokenBy, Event.takenBy,
        Call.carries], fun K _ => ?_⟩
      simp only [Call.stepsLeft, List.length_cons, Event.takenBy, decide_true, Bool.toNat_true]
      omega
  | @wake c' p w hc' =>
      obtain rfl : c' = c := he
      obtain rfl : a = .wake p w := Option.some.inj (hc.symm.trans hc')
      cases p with
      | dropSender t =>
          refine ⟨_, hset, ha, by simp [Event.wokenBy, Event.takenBy, Call.carries,
            Waking.afterWake], fun K _ => ?_⟩
          simp only [Call.stepsLeft, Waking.afterWake]
          omega
      | _ => cases ha
  | @senderSwapFirst c' t hc' _ | @senderSwapSecond c' t hc' _ =>
      obtain rfl : c' = c := he
      obtain rfl : a = .dropSenderSwap t := Option.some.inj (hc.symm.trans hc')
      refine ⟨_, hset, ha, rfl, fun K _ => ?_⟩
      simp only [Call.stepsLeft]
      omega
  | @free c' t hc' =>
      obtain rfl : c' = c := he
      obtain rfl : a = .free t := Option.some.inj (hc.symm.trans hc')
      exact ⟨_, hset, by cases t <;> exact ha, rfl, fun K _ => Nat.le_add_right 1 _⟩
  | _ =>
      rw [← he] at hc
      cases hc.symm.trans ‹_›
      cases ha

/-! ## From the decrement on -/

/-- What has been going on since the last sender's count was subtracted in the
state `u`, by call `c`. -/
structure Draining (u : State T) (c : Nat) (tr : Trace (State T) (Event T)) (s : State T) :
    Prop where
  zero : s.cb.senders = 0
  fed : times Event.inserts tr + s.count Call.mayInsert ≤ u.count Call.inPoll
  drained : times (Event.takenBy c) tr + s.cb.waitlist.size
    ≤ u.cb.waitlist.size + times Event.inserts tr

theorem takenBy_le_takes (c : Nat) (e : Event T) :
    (e.takenBy c).toNat ≤ (e.takes fun _ => true).toNat := by
  cases e with
  | take d w => exact Bool.toNat_le _
  | _ => exact Nat.le_refl 0

theorem draining_step {u s s' : State T} {c : Nat} {tr : Trace (State T) (Event T)}
    {e : Event T} (hw : Wf s) (h : Trans s e s') (hi : Draining u c tr s) :
    Draining u c ((s, e) :: tr) s' where
  zero := senders_zero_of_trans hw h hi.zero
  fed := by
    have hstep := mayInsert_of_trans h hi.zero
    have hfed := hi.fed
    rw [times_cons]
    omega
  drained := by
    have hstep := size_of_trans h
    have htake := takenBy_le_takes c e
    have hdrained := hi.drained
    rw [times_cons, times_cons]
    omega

/-- Where the drop is, how many of the wakers it took it has invoked, and how
many steps it has made. -/
def Progress (tx c : Nat) (tr : Trace (State T) (Event T)) (s : State T) : Prop :=
  ∃ a, s.calls[c]? = some a ∧ a.leaving tx = true ∧
    times (Event.wokenBy c) tr + a.carries = times (Event.takenBy c) tr ∧
    ∀ K, (∀ x ∈ tr, x.1.cb.waitlist.keys.length ≤ K) →
      times (Event.madeBy c) tr + a.stepsLeft K ≤ K + 4 + times (Event.takenBy c) tr * (K + 2)

theorem progress_step {tx c : Nat} {tr : Trace (State T) (Event T)} {s s' : State T}
    {e : Event T} (h : Trans s e s') (hi : Progress tx c tr s) :
    Progress tx c ((s, e) :: tr) s' := by
  obtain ⟨a, hc, ha, hwoken, hsteps⟩ := hi
  by_cases he : e.caller = c
  · obtain ⟨d, hd, hleaving, hcarries, hleft⟩ := leaving_of_trans h hc ha he
    refine ⟨d, hd, hleaving, ?_, fun K hK => ?_⟩
    · rw [times_cons, times_cons]
      omega
    · have hmade : (e.madeBy c).toNat = 1 := by simp [Event.madeBy, he]
      have hold := hsteps K fun x hx => hK x (List.mem_cons_of_mem _ hx)
      have hnew := hleft K (hK (s, e) List.mem_cons_self)
      rw [times_cons, times_cons, hmade, Nat.add_mul]
      omega
  · have hwoken' : e.wokenBy c = false := by
      cases e with
      | wake d w => exact decide_eq_false he
      | _ => rfl
    have htaken' : e.takenBy c = false := by
      cases e with
      | take d w => exact decide_eq_false he
      | _ => rfl
    have hmade' : e.madeBy c = false := by simpa [Event.madeBy] using he
    refine ⟨a, calls_kept h he hc, ha, ?_, fun K hK => ?_⟩
    · rw [times_cons, times_cons, hwoken', htaken']
      exact hwoken
    · rw [times_cons, times_cons, hmade', htaken']
      exact hsteps K fun x hx => hK x (List.mem_cons_of_mem _ hx)

/-- The decrement itself. -/
theorem lastDrop_of_trans {u v : State T} {c tx : Nat}
    (hc : u.calls[c]? = some (.dropSender tx)) (hlast : u.cb.senders = 1)
    (h : Trans u (.silent c) v) :
    v = u.move c (.popLock (.dropSender tx)) { u.cb with senders := u.cb.senders - 1 } := by
  cases h with
  | dropSenderLast hc' _ =>
      cases hc.symm.trans hc'
      rfl
  | dropSenderMore _ hmore => exact absurd hlast hmore
  | _ => cases hc.symm.trans ‹_›

/-- The decrement is the next step of the drop. -/
theorem step_of_lastDrop {u : State T} {c tx : Nat} (hc : u.calls[c]? = some (.dropSender tx))
    (hlast : u.cb.senders = 1) :
    step u (.run c) = some (.silent c, u.move c (.popLock (.dropSender tx))
      { u.cb with senders := u.cb.senders - 1 }) := by
  simp only [step, hc, Call.run, if_pos hlast]

/-- Whatever happens after it. -/
theorem run_after_lastDrop {lay : Layout} {n : Nat} {h : 0 < n} {tr : Trace (State T) (Event T)}
    {u : State T} {c tx : Nat} (hrun : Runs Free lay n h tr u)
    (hc : u.calls[c]? = some (.dropSender tx)) (hlast : u.cb.senders = 1)
    (as : List (Act T)) :
    let q := play step Free [] (u.move c (.popLock (.dropSender tx))
      { u.cb with senders := u.cb.senders - 1 }) as
    Runs Free lay n h (q.1 ++ (u, .silent c) :: tr) q.2 := by
  have hall := Run.of_play as (hrun.step ⟨.run c, step_of_lastDrop hc hlast⟩ trivial)
  rwa [play_free] at hall

theorem draining_start {u : State T} {c tx : Nat} (hc : u.calls[c]? = some (.dropSender tx))
    (hlast : u.cb.senders = 1) :
    Draining u c [] (u.move c (.popLock (.dropSender tx))
      { u.cb with senders := u.cb.senders - 1 }) where
  zero := by
    rw [State.move_cb, hlast]
  fed := by
    have hcount := count_move Call.mayInsert (.popLock (.dropSender tx))
      { u.cb with senders := u.cb.senders - 1 } hc
    have hle : u.count Call.mayInsert ≤ u.count Call.inPoll :=
      Ledger.total_le_total fun _ a _ => mayInsert_le_inPoll a
    simp only [Call.mayInsert] at hcount
    simp only [times_nil]
    omega
  drained := Nat.le_of_eq (Nat.zero_add _)

theorem progress_start {u : State T} {c tx : Nat} {cb : ControlBlock Nat T}
    (hc : u.calls[c]? = some (.dropSender tx)) :
    Progress tx c [] (u.move c (.popLock (.dropSender tx)) cb) :=
  ⟨_, Ledger.getElem?_set_self_of _ hc, decide_eq_true rfl, rfl, fun K _ => by
    simp [Call.stepsLeft]⟩

theorem draining_of_run {ok : Trace (State T) (Event T) → State T → Event T → Prop}
    {lay : Layout} {n : Nat} {h : 0 < n} {tr₁ tr₂ : Trace (State T) (Event T)} {u s : State T}
    {c tx : Nat} (hc : u.calls[c]? = some (.dropSender tx)) (hlast : u.cb.senders = 1)
    (hrun : Runs ok lay n h (tr₂ ++ (u, .silent c) :: tr₁) s) :
    Draining u c tr₂ s ∧ Progress tx c tr₂ s := by
  refine Run.after (I := fun tr s => Draining u c tr s ∧ Progress tx c tr s) (fun v hv => ?_)
    (fun tr s e s' hrun hi hn _ => ?_) hrun
  · cases hv with
    | step _ hn _ =>
        rw [lastDrop_of_trans hc hlast (trans_of_next hn)]
        exact ⟨draining_start hc hlast, progress_start hc⟩
  · have htrans := trans_of_next hn
    exact ⟨draining_step (wf_of_run hrun) htrans hi.1, progress_step htrans hi.2⟩

/-- In the loop the drop can always make its next step. -/
theorem step_of_looping {s : State T} {c : Nat} {a : Call T} (hc : s.calls[c]? = some a)
    (ha : a.looping = true) : (step s (.run c)).isSome := by
  simp only [step, hc]
  cases a with
  | popLock | wake => rfl
  | popScan p ks =>
      cases ks with
      | nil => rfl
      | cons k ks =>
          simp only [Call.run]
          split <;> rfl
  | _ => cases ha

/-- However the receivers poll, clone and drop meanwhile: from the step in
which the last sender is subtracted, by call `c`, no more wakers are inserted
than polls were in progress then; the drop takes, and so invokes, at most as
many as there were in the waitlist and polls in progress; and as long as its
loop is not over it can make a step, of which it has only so many. -/
theorem wake_loop_ends {lay : Layout} {n : Nat} {h : 0 < n}
    {tr₁ tr₂ : Trace (State T) (Event T)} {u s : State T} {c tx : Nat}
    (hrun : Runs Free lay n h (tr₂ ++ (u, .silent c) :: tr₁) s)
    (hc : u.calls[c]? = some (.dropSender tx)) (hlast : u.cb.senders = 1) :
    times Event.inserts tr₂ ≤ u.count Call.inPoll ∧
      times (Event.wokenBy c) tr₂ ≤ times (Event.takenBy c) tr₂ ∧
      times (Event.takenBy c) tr₂ ≤ u.cb.waitlist.size + u.count Call.inPoll ∧
      (∀ a, s.calls[c]? = some a → a.looping = true → (step s (.run c)).isSome) ∧
      ∀ K, (∀ x ∈ tr₂, x.1.cb.waitlist.keys.length ≤ K) →
        times (Event.madeBy c) tr₂
          ≤ (u.cb.waitlist.size + u.count Call.inPoll + 1) * (K + 2) + 2 := by
  obtain ⟨hdrain, a, hca, -, hwoken, hsteps⟩ := draining_of_run hc hlast hrun
  have hfed := hdrain.fed
  have htaken : times (Event.takenBy c) tr₂ ≤ u.cb.waitlist.size + u.count Call.inPoll := by
    have := hdrain.drained
    omega
  refine ⟨by omega, by omega, htaken, fun a => step_of_looping, fun K hK => ?_⟩
  have hmade := hsteps K hK
  have hmul := Nat.mul_le_mul_right (K + 2) htaken
  rw [Nat.add_mul, Nat.one_mul]
  omega

/-- Receiver 0 polls and is left pending; its clone has begun to poll, and has
read the sender count; the last sender is being dropped. -/
def pollAndLeave : List (Act Nat) :=
  [.start (.cloneReceiver 0 1), .run 0, .run 0,
    .start (.pollNext 0), .run 1, .run 1, .run 1, .run 1, .run 1,
    .start (.pollNext 1), .run 2, .run 2,
    .start (.dropSender 0)]

/-- The drop locks the waitlist, the clone inserts, and the drop takes and
invokes both wakers; the receiver that is woken first polls again, and finds no
sender. -/
def refill : List (Act Nat) :=
  [.run 3, .run 2, .run 2, .run 3, .run 3, .start (.pollNext 0), .run 4, .run 4, .run 4,
    .run 3, .run 3, .run 3, .run 3, .run 3, .run 3, .run 3, .run 3, .run 3]

theorem wake_loop_ends_in_refill :
    let r := schedule Free ⟨true, true⟩ 1 Nat.one_pos pollAndLeave
    let q := play step Free [] (r.2.move 3 (.popLock (.dropSender 0))
      { r.2.cb with senders := r.2.cb.senders - 1 }) refill
    r.2.calls[3]? = some (.dropSender 0) ∧ r.2.cb.senders = 1 ∧
      times Event.inserts q.1 = 1 ∧ times (Event.wokenBy 3) q.1 = 2 ∧
      q.2.calls[3]? = some (.dropped (.sender 0) true) ∧
      times (Event.takenBy 3) q.1 ≤ r.2.cb.waitlist.size + r.2.count Call.inPoll := by
  have hc : (schedule (T := Nat) Free ⟨true, true⟩ 1 Nat.one_pos pollAndLeave).2.calls[3]?
      = some (.dropSender 0) := by decide
  have hlast : (schedule (T := Nat) Free ⟨true, true⟩ 1 Nat.one_pos pollAndLeave).2.cb.senders
      = 1 := by decide
  exact ⟨hc, hlast, by decide, by decide, by decide,
    (wake_loop_ends (run_after_lastDrop (runs_schedule ..) hc hlast refill) hc hlast).2.2.1⟩

end RingChannel
