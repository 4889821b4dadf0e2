/-
# `RingChannel.Delivery` — nobody keeps sleeping while a message is pending

What the balances of wake-ups give in the end.  The channel comes to rest when
its clients only poll again when woken (`Settling`); and a channel at rest whose
receivers sleep has nothing for them.

With any number of senders and receivers this holds if every receiver that has
been woken is used again: it is polled (`pollers_served`), or it is dropped and
hands the wake-up on (`leavers_served`).  Until then it answers for the message.
A blocked call of `recv` on another receiver is stranded only if somebody keeps
a woken receiver and never touches it again.  With a single receiver, used by
one thread at a time, there is nobody else whose waker a send could spend its
scan on, and it may be kept (`consumer_served`).
-/
import RingChannel.Settling

namespace RingChannel

variable {T : Type}

/-! ## Who answers for a message -/

theorem credit_of_quiet {a : Call T} (h : a.returned = true ∨ a.asleep = true) (k : Nat) :
    a.credit k = 0 ∧ a.deregisters k = 0 := by
  rcases h with h | h
  · cases a <;> first | exact ⟨rfl, rfl⟩ | cases h
  · cases a <;> first | exact ⟨rfl, rfl⟩ | cases h

/-- With nobody at work, the credits are those of live receivers that have been
woken and not been polled since. -/
theorem exists_woken {ok : Trace (State T) (Event T) → State T → Event T → Prop} {lay : Layout}
    {n : Nat} {h : 0 < n} {tr : Trace (State T) (Event T)} {s : State T}
    (hrun : Runs ok lay n h tr s) (hquiet : s.Quiet) {k : Nat} (hpos : 0 < credits tr s k) :
    ∃ y, s.usable (.receiver y) ∧ wokenOn y tr = true := by
  have hzero : s.count (Call.credit k) = 0 :=
    count_eq_zero fun c a hc => (credit_of_quiet (hquiet c a hc) k).1
  unfold credits at hpos
  have hspare : 0 < s.cb.waitlist.weight (spare tr) := by omega
  obtain ⟨y, o, hy, ho⟩ := Waitlist.exists_of_weight_pos hspare
  have htaken : takenOn y tr = true := by
    cases o with
    | some w => exact absurd ho (Nat.lt_irrefl 0)
    | none =>
        cases hb : takenOn y tr with
        | true => rfl
        | false => simp [spare, hb] at ho
  refine ⟨y, ?_, ?_⟩
  · -- no drop is about to give the slot back, so its receiver is there
    have hslots := (wf_of_run hrun).registered.slots y
    rw [hy, count_eq_zero (f := Call.deregisters y) fun c a hc =>
      (credit_of_quiet (hquiet c a hc) y).2] at hslots
    cases hu : (s.rxs.get y == some true) with
    | true => exact beq_iff_eq.mp hu
    | false =>
        rw [hu] at hslots
        cases hslots
  · rcases woken_of_taken hrun _ _ htaken with hwoken | ⟨d, p, w, hd, -⟩
    · exact hwoken
    · rcases hquiet d _ hd with hret | hup
      · cases hret
      · cases hup

/-- With nobody at work and a message pending, a receiver whose last poll sleeps
is not alone: some live receiver has been woken and has not been polled since. -/
theorem woken_of_pending {lay : Layout} {n : Nat} {h : 0 < n} {tr : Trace (State T) (Event T)}
    {s : State T} (hrun : Runs OnePoll lay n h tr s) (hquiet : s.Quiet)
    (hpending : s.cb.buffer.contents ≠ []) {c rx : Nat} {a : Call T} (hc : s.calls[c]? = some a)
    (hdozes : a.dozes = true) (hwaits : a.waits = some rx) (hlast : lastPoll rx tr = some c)
    (hlive : s.usable (.receiver rx)) :
    ∃ y, s.usable (.receiver y) ∧ wokenOn y tr = true := by
  have hslot := slot_of_usable (wf_of_run hrun) rx hlive
  rcases held_of_run (undisturbed_of_onePoll hrun) c rx ⟨a, hc, hwaits, fun _ => hlast⟩ hslot with
    hheld | htaken
  · have hle := funded_of_run hrun rx ⟨rx, c⟩ a hheld hc hdozes
    have hpos := List.length_pos_of_ne_nil hpending
    exact exists_woken hrun hquiet (Nat.lt_of_lt_of_le hpos hle)
  · exact ⟨rx, hlive, wokenOn_of_taken hrun hquiet hlast htaken⟩

/-- With nobody at work and no receiver woken, a call that has not returned
sleeps on an empty buffer, and a sender is left. -/
theorem founded_of_unwoken {lay : Layout} {n : Nat} {h : 0 < n} {tr : Trace (State T) (Event T)}
    {s : State T} (hrun : Runs OnePoll lay n h tr s) (hquiet : s.Quiet)
    (hnot : ∀ y, s.usable (.receiver y) → wokenOn y tr = false) {c : Nat} {a : Call T}
    (hc : s.calls[c]? = some a) (hret : a.returned = false) :
    a.asleep = true ∧ s.cb.buffer.contents = [] ∧ ∃ tx : Nat, s.txs[tx]? = some true := by
  obtain ⟨rx, rfl⟩ := parked_of_quiet (hquiet c a hc) hret
  have hwf := wf_of_run hrun
  have hlive := hwf.borrowed c _ hc rfl
  have hlast := sole_of_run hrun c _ rx hc rfl rfl
  refine ⟨rfl, ?_, ?_⟩
  · by_contra hpending
    obtain ⟨y, hy, hwoken⟩ := woken_of_pending hrun hquiet hpending hc rfl rfl hlast hlive
    rw [hnot y hy] at hwoken
    cases hwoken
  · by_contra hleft
    have hz := senders_zero_of_left hwf hquiet fun tx htx => hleft ⟨tx, htx⟩
    have hwoken := wokenOn_of_sleeps hrun hquiet hz hc rfl rfl hlast hlive
    rw [hnot rx hlive] at hwoken
    cases hwoken

/-! ## Any number of receivers -/

/-- Any number of senders and receivers, used by `recv` or as streams: from every
reachable state in which receivers are polled one at a time, if whoever has been
woken polls again, the channel does a bounded number of steps; and when it can
do no more while a message is pending, every method has returned, and the last
poll of every live receiver was answered. -/
theorem pollers_served {lay : Layout} {n : Nat} {h : 0 < n}
    {tr₀ tr : Trace (State T) (Event T)} {u s : State T} (hreach : Runs OnePoll lay n h tr₀ u)
    (hrun : Run (Next step) (fun tr => Awaits (tr ++ tr₀)) u tr s) :
    tr.length ≤ u.unrest (State.due tr₀ u) 0 ∧
      (Stuck (Next step) (fun tr => Awaits (tr ++ tr₀)) tr s → s.cb.buffer.contents ≠ [] →
        (∀ a ∈ s.calls, a.returned = true) ∧
        ∀ rx c : Nat, s.usable (.receiver rx) → lastPoll rx (tr ++ tr₀) = some c →
          s.calls[c]? ≠ some (.pending rx)) := by
  have hfree : Runs Free lay n h tr₀ u := hreach.weaken fun _ _ _ _ => trivial
  have hall : Runs OnePoll lay n h (tr ++ tr₀) s := by
    refine hreach.append (fun _ _ _ _ h => h) (hrun.strengthen fun _ _ _ _ _ hn hok => ?_)
    exact onePoll_of_windsDown (trans_of_next hn) hok.1.1
  refine ⟨length_of_prompted hfree (prompted_of_awaits hfree (fun _ _ _ hok => hok) hrun),
    fun hstuck hpending => ?_⟩
  obtain ⟨hquiet, hunwoken⟩ := (stuck_awaits_iff hall).mp hstuck
  -- whoever has been woken may be polled again, so nobody sleeps
  have hnot : ∀ {c rx : Nat} {a : Call T}, s.calls[c]? = some a → a.dozes = true →
      a.waits = some rx → lastPoll rx (tr ++ tr₀) = some c → ¬ s.usable (.receiver rx) := by
    intro c rx a hc hdozes hwaits hlast hlive
    obtain ⟨y, hy, hwoken⟩ := woken_of_pending hall hquiet hpending hc hdozes hwaits hlast hlive
    rw [hunwoken y hy] at hwoken
    cases hwoken
  refine ⟨fun a ha => ?_, fun rx c hlive hlast hc => hnot hc rfl rfl hlast hlive⟩
  obtain ⟨c, hc⟩ := List.mem_iff_getElem?.mp ha
  cases hret : a.returned with
  | true => rfl
  | false =>
      obtain ⟨rx, rfl⟩ := parked_of_quiet (hquiet c a hc) hret
      exact absurd ((wf_of_run hall).borrowed c _ hc rfl)
        (hnot hc rfl rfl (sole_of_run hall c _ rx hc rfl rfl))

/-- A `recv` and a stream sleep, and two senders have pushed three messages. -/
def sleepAndSend : List (Act Nat) :=
  [.start (.cloneReceiver 0 1), .run 0, .run 0, .start (.recv 0), .run 1, .run 1, .run 1,
    .run 1, .run 1, .start (.pollNext 1), .run 2, .run 2, .run 2, .run 2, .run 2,
    .start (.cloneSender 0), .run 3, .start (.send 0 10), .run 4, .run 4, .start (.send 1 20),
    .run 5, .run 5, .start (.send 0 30), .run 6, .run 6]

/-- The first two sends wake one of them each, and each of them is polled again.
The third finds nobody to wake. -/
def wakeAndTake : List (Act Nat) :=
  [.run 4, .run 4, .run 4, .run 5, .run 5, .run 5, .run 5, .run 6, .run 6, .run 6, .run 6,
    .unpark 1, .run 1, .run 1, .run 1, .start (.pollNext 1), .run 7, .run 7, .run 7]

theorem pollers_served_in_sleepAndSend :
    let r := schedule OnePoll ⟨true, true⟩ 3 (Nat.succ_pos 2) sleepAndSend
    let q := play step (fun tr => Awaits (tr ++ r.1)) [] r.2 wakeAndTake
    r.2.cb.buffer.contents = [10, 20, 30] ∧ q.2.cb.buffer.contents = [30] ∧
      q.2.calls = [.clonedReceiver 0, .ready 0 .recv (some 10), .pending 1, .clonedSender 0,
        .sent 0 10 (.ok none), .sent 1 20 (.ok none), .sent 0 30 (.ok none),
        .ready 1 .pollNext (some 20)] ∧
      q.1.length ≤ r.2.unrest (State.due r.1 r.2) 0 ∧
      Stuck (Next step) (fun tr => Awaits (tr ++ r.1)) q.1 q.2 ∧
      (∀ a ∈ q.2.calls, a.returned = true) ∧
      ∀ rx c : Nat, q.2.usable (.receiver rx) → lastPoll rx (q.1 ++ r.1) = some c →
        q.2.calls[c]? ≠ some (.pending rx) := by
  intro r q
  have hreach := runs_schedule (T := Nat) OnePoll ⟨true, true⟩ 3 (Nat.succ_pos 2) sleepAndSend
  have hrun : Run (Next step) (fun tr => Awaits (tr ++ r.1)) r.2 q.1 q.2 := Run.of_play _ .start
  have hstuck : Stuck (Next step) (fun tr => Awaits (tr ++ r.1)) q.1 q.2 :=
    (stuck_awaits_iff (hreach.append_free hrun)).mpr (by decide)
  obtain ⟨hlen, hserved⟩ := pollers_served hreach hrun
  exact ⟨by decide, by decide, by decide, hlen, hstuck, hserved hstuck (by decide)⟩

/-- Any number of senders and receivers, of clients that drop their receivers
when they are done with them: from every reachable state in which receivers are
polled one at a time, if the clients only poll again when woken, and drop
receivers, the channel does a bounded number of steps; when nobody can do more,
a `recv` that has not returned sleeps on an empty buffer, and a sender is left. -/
theorem leavers_served {lay : Layout} {n : Nat} {h : 0 < n}
    {tr₀ tr : Trace (State T) (Event T)} {u s : State T} (hreach : Runs OnePoll lay n h tr₀ u)
    (hrun : Run (Next step) (fun tr => Retires (tr ++ tr₀)) u tr s) :
    tr.length ≤ u.unrest (State.due tr₀ u) u.leavers ∧
      (Stuck (Next step) (fun tr => Retires (tr ++ tr₀)) tr s →
        ∀ a ∈ s.calls, a.returned = false →
          a.asleep = true ∧ s.cb.buffer.contents = [] ∧
            ∃ tx : Nat, s.txs[tx]? = some true) := by
  have hfree : Runs Free lay n h tr₀ u := hreach.weaken fun _ _ _ _ => trivial
  have hall : Runs OnePoll lay n h (tr ++ tr₀) s := by
    refine hreach.append (fun _ _ _ _ h => h) (hrun.strengthen fun _ _ _ _ _ hn hok => ?_)
    exact onePoll_of_windsDown (trans_of_next hn) hok.1
  have hdrops : ∀ tr s e s', Run (Next step) (fun tr => Retires (tr ++ tr₀)) u tr s →
      Next step s e s' → Retires (tr ++ tr₀) s e →
      times Event.retires ((s, e) :: tr) ≤ u.leavers := by
    intro tr s e s' hrun' hn hok
    have hle := leavers_of_run (fun _ _ _ hok' => hok'.1) (hrun'.step hn hok)
    omega
  refine ⟨length_of_prompted hfree
    (prompted_of_retires hfree (fun _ _ _ hok => hok) hdrops hrun), fun hstuck a ha hret => ?_⟩
  -- whoever has been woken would poll again, or be dropped if nobody uses it
  obtain ⟨hquiet, hinUse⟩ := (stuck_retires_iff hall).mp hstuck
  obtain ⟨c, hc⟩ := List.mem_iff_getElem?.mp ha
  exact founded_of_unwoken hall hquiet (fun y hy => (hinUse y hy).1) hc hret

/-- The run of `takeSpent` beside a third receiver that sleeps all along: a
message is pending, receiver 1 sleeps un-woken too, and receiver 0, which has
been woken, is used no more. -/
def sleepBesideSpent : List (Act Nat) :=
  [.start (.cloneReceiver 0 1), .run 0, .run 0, .start (.cloneReceiver 0 2), .run 1, .run 1,
    .start (.recv 1), .run 2, .run 2, .run 2, .run 2, .run 2,
    .start (.recv 2), .run 3, .run 3, .run 3, .run 3, .run 3,
    .start (.recv 0), .run 4, .run 4,
    .start (.send 0 10), .run 5, .run 5, .run 5, .run 5, .run 5, .run 5, .run 4, .run 4, .run 4,
    .unpark 2, .run 2, .run 2, .run 2, .run 2, .run 2,
    .start (.send 0 20), .run 6, .run 6, .run 6, .run 6, .run 6, .run 4]

/-- Receiver 0 is dropped, and hands its wake-up to receiver 1, which takes the
message; so does receiver 1, to the third, which finds nothing. -/
def leaveSpent : List (Act Nat) :=
  [.start (.dropReceiver 0), .run 7, .run 7, .run 7, .run 7, .run 7,
    .unpark 2, .run 2, .run 2, .run 2,
    .start (.dropReceiver 1), .run 8, .run 8, .run 8, .run 8, .run 8,
    .unpark 3, .run 3, .run 3, .run 3, .run 3, .run 3]

theorem leavers_served_in_leaveSpent :
    let r := schedule OnePoll ⟨true, true⟩ 2 Nat.two_pos sleepBesideSpent
    let q := play step (fun tr => Retires (tr ++ r.1)) [] r.2 leaveSpent
    r.2.calls = [.clonedReceiver 0, .clonedReceiver 0, .parked 1, .parked 2,
        .ready 0 .recv (some 10), .sent 0 10 (.ok none), .sent 0 20 (.ok none)] ∧
      q.2.calls = [.clonedReceiver 0, .clonedReceiver 0, .ready 1 .recv (some 20), .parked 2,
        .ready 0 .recv (some 10), .sent 0 10 (.ok none), .sent 0 20 (.ok none),
        .dropped (.receiver 0) false, .dropped (.receiver 1) false] ∧
      q.1.length ≤ r.2.unrest (State.due r.1 r.2) r.2.leavers ∧
      Stuck (Next step) (fun tr => Retires (tr ++ r.1)) q.1 q.2 ∧
      q.2.cb.buffer.contents = [] ∧ ∃ tx : Nat, q.2.txs[tx]? = some true := by
  intro r q
  have hreach := runs_schedule (T := Nat) OnePoll ⟨true, true⟩ 2 Nat.two_pos sleepBesideSpent
  have hrun : Run (Next step) (fun tr => Retires (tr ++ r.1)) r.2 q.1 q.2 := Run.of_play _ .start
  have hstuck : Stuck (Next step) (fun tr => Retires (tr ++ r.1)) q.1 q.2 :=
    (stuck_retires_iff (hreach.append_free hrun)).mpr (by decide)
  obtain ⟨hlen, hserved⟩ := leavers_served hreach hrun
  exact ⟨by decide, by decide, hlen, hstuck, (hserved hstuck (.parked 2) (by decide) rfl).2⟩

/-! ## A single receiver -/

/-- The clients block, and the receiver is never cloned. -/
def Alone (tr : Trace (State T) (Event T)) (s : State T) (e : Event T) : Prop :=
  Blocking tr s e ∧ e.clones = false

instance (tr : Trace (State T) (Event T)) (s : State T) (e : Event T) : Decidable (Alone tr s e) :=
  inferInstanceAs (Decidable (_ ∧ _))

theorem keys_of_alone {lay : Layout} {n : Nat} {h : 0 < n} {tr : Trace (State T) (Event T)}
    {s : State T} (hrun : Runs Alone lay n h tr s) : s.cb.waitlist.keys.length ≤ 1 := by
  have hclones : times Event.clones tr = 0 :=
    hrun.invariant (I := fun tr _ => times Event.clones tr = 0) rfl
      fun tr s e s' _ hi _ hok => by
        rw [times_cons, hi, hok.2]
        rfl
  have hslots := (slots_of_run hrun).1
  have hone : (State.ringChannel lay n h : State T).slots = 1 := rfl
  have hle : s.cb.waitlist.keys.length ≤ s.slots := Nat.le_add_right _ _
  omega

/-- There is one slot at most. -/
theorem eq_of_keys {s : State T} (hone : s.cb.waitlist.keys.length ≤ 1) {j k : Nat}
    (hj : s.cb.waitlist.slot j ≠ none) (hk : s.cb.waitlist.slot k ≠ none) : j = k := by
  have hj' := Waitlist.mem_keys_iff.mpr hj
  have hk' := Waitlist.mem_keys_iff.mpr hk
  match hkeys : s.cb.waitlist.keys with
  | [] => rw [hkeys] at hj'; cases hj'
  | [x] =>
      rw [hkeys, List.mem_singleton] at hj' hk'
      rw [hj', hk']
  | x :: y :: l =>
      rw [hkeys] at hone
      simp at hone

/-- A single receiver, used by one thread at a time, and any number of senders:
from every reachable state, if the receiver is only polled again when woken, the
channel does a bounded number of steps; when it can do no more, a `recv` that has
not returned sleeps on an empty buffer, and a sender is left. -/
theorem consumer_served {lay : Layout} {n : Nat} {h : 0 < n}
    {tr₀ tr : Trace (State T) (Event T)} {u s : State T} (hreach : Runs Alone lay n h tr₀ u)
    (hrun : Run (Next step)
      (fun tr s e => Awaits (tr ++ tr₀) s e ∧ Alone (tr ++ tr₀) s e) u tr s) :
    tr.length ≤ u.unrest (State.due tr₀ u) 0 ∧
      (Stuck (Next step) (fun tr s e => Awaits (tr ++ tr₀) s e ∧ Alone (tr ++ tr₀) s e) tr s →
        ∀ a ∈ s.calls, a.returned = false →
          a.asleep = true ∧ s.cb.buffer.contents = [] ∧
            ∃ tx : Nat, s.txs[tx]? = some true) := by
  have hfree : Runs Free lay n h tr₀ u := hreach.weaken fun _ _ _ _ => trivial
  have hall : Runs Alone lay n h (tr ++ tr₀) s := hreach.append (fun _ _ _ _ hok => hok.2) hrun
  have hone : Runs OnePoll lay n h (tr ++ tr₀) s :=
    onePoll_of_blocking (fun _ _ _ hok => hok.1) hall
  refine ⟨length_of_prompted hfree (prompted_of_awaits hfree (fun _ _ _ hok => hok.1) hrun),
    fun hstuck a ha hret => ?_⟩
  have hidle := idle_of_stuck (fun e he => ⟨awaits_of_not_byClient he, by
    cases e with
    | start | repoll => cases he
    | _ => exact ⟨nofun, rfl⟩⟩) hstuck
  have hquiet : s.Quiet := quiet_of_idle hall hidle
  obtain ⟨c, hc⟩ := List.mem_iff_getElem?.mp ha
  obtain ⟨rx, rfl⟩ := parked_of_quiet (hquiet c a hc) hret
  have hwf := wf_of_run hall
  refine founded_of_unwoken hone hquiet (fun y hy => Bool.eq_false_iff.mpr fun hwoken => ?_) hc
    hret
  -- there is no receiver but `rx`, and woken it would be polled again
  obtain rfl : y = rx := eq_of_keys (keys_of_alone hall) (slot_of_usable hwf y hy)
    (slot_of_usable hwf rx (hwf.borrowed c _ hc rfl))
  obtain ⟨_, hnext, hawaits⟩ := repoll_of_parked hc hwoken
  exact hstuck _ _ hnext ⟨hawaits, nofun, rfl⟩

/-- The receiver takes a message before the send has looked for it, and sleeps
in its next `recv`. -/
def sleepAndPush : List (Act Nat) :=
  [.start (.recv 0), .run 0, .run 0, .start (.send 0 10), .run 1, .run 1,
    .run 0, .run 0, .run 0, .run 0, .start (.recv 0), .run 2, .run 2, .run 2, .run 2, .run 2]

/-- The send wakes it all the same, and it finds nothing. -/
theorem consumer_served_in_sleepAndPush :
    let r := schedule Alone ⟨true, true⟩ 2 Nat.two_pos sleepAndPush
    let q := play step (fun tr s e => Awaits (tr ++ r.1) s e ∧ Alone (tr ++ r.1) s e) [] r.2
      (List.replicate 3 (.run 1) ++ .unpark 2 :: List.replicate 5 (.run 2))
    r.2.calls = [.ready 0 .recv (some 10), .popLock (.send 0 10), .parked 0] ∧
      q.2.calls = [.ready 0 .recv (some 10), .sent 0 10 (.ok none), .parked 0] ∧
      q.1.length = 9 ∧ q.1.length ≤ r.2.unrest (State.due r.1 r.2) 0 ∧
      Stuck (Next step) (fun tr s e => Awaits (tr ++ r.1) s e ∧ Alone (tr ++ r.1) s e) q.1 q.2 ∧
      q.2.cb.buffer.contents = [] ∧ ∃ tx : Nat, q.2.txs[tx]? = some true := by
  intro r q
  have hreach := runs_schedule (T := Nat) Alone ⟨true, true⟩ 2 Nat.two_pos sleepAndPush
  have hrun : Run (Next step) (fun tr s e => Awaits (tr ++ r.1) s e ∧ Alone (tr ++ r.1) s e) r.2
      q.1 q.2 := Run.of_play _ .start
  have hawaits : Stuck (Next step) Awaits (q.1 ++ r.1) q.2 :=
    (stuck_awaits_iff (hreach.append_free hrun)).mpr (by decide)
  have hstuck : Stuck (Next step) (fun tr s e => Awaits (tr ++ r.1) s e ∧ Alone (tr ++ r.1) s e)
      q.1 q.2 := fun e s' hn hok => hawaits e s' hn hok.1
  obtain ⟨hlen, hserved⟩ := consumer_served hreach hrun
  exact ⟨by decide, by decide, by decide, hlen, hstuck,
    (hserved hstuck (.parked 0) (by decide) rfl).2⟩

end RingChannel
