/-
# `RingChannel.Sharing` — calls of `recv` that share a receiver

`recv` borrows its receiver shared, so any number of threads may be inside it on
one receiver; but the receiver has one slot.  An insertion or a withdrawal by
one of the calls throws out the waker of another, and nobody will ever wake that
one (`not_served_in_parkTwiceAndLeave`).

Which clients are safe from that is a matter of when polls begin.  A call may
begin a poll while others are inside `recv` on the same receiver, as long as
each of them sleeps and has been summoned: a send or the last sender's drop has
taken its waker out of the slot, to invoke it (`InTurn`).  Then at any time all
calls on a receiver but one are sleepers whose wakers are out, and that one has
begun the receiver's last poll (`Ordered`).  Whoever writes the slot is that
one, so what it finds there is its own.
-/
import RingChannel.Disconnect
import RingChannel.Blocking

namespace RingChannel

variable {T : Type}

/-! ## What the sharers expect -/

/-- What the threads call that share one receiver, and the threads that own the
senders. -/
def Op.shared : Op T → Bool
  | .recv _ | .send .. | .cloneSender _ | .dropSender _ => true
  | _ => false

/-- No waker of a parked call has been thrown out by another call; and when the
drop of the last sender is over and nobody stands before invoking a waker, the
parked calls have all been woken. -/
structure Served (tr : Trace (State T) (Event T)) (s : State T) : Prop where
  kept : ∀ u e, (u, e) ∈ tr → ∀ w ∈ e.evicts, ∀ rx, u.calls[w.call]? ≠ some (.parked rx)
  woken : ∀ d tx : Nat, s.calls[d]? = some (.dropped (.sender tx) true) →
    (∀ (j : Nat) (p : Waking T) (w : Waker), s.calls[j]? ≠ some (.wake p w)) →
    ∀ c rx : Nat, s.calls[c]? = some (.parked rx) → woken c tr = true

/-- Two threads park in `recv` on one receiver, and the only sender is dropped:
the waker of the first thread is no longer in the slot. -/
def parkTwiceAndLeave : List (Act Nat) :=
  .start (.recv 0) :: List.replicate 5 (.run 0) ++
    .start (.recv 0) :: List.replicate 5 (.run 1) ++
    .start (.dropSender 0) :: List.replicate 8 (.run 2)

theorem not_served_in_parkTwiceAndLeave :
    ¬ ∀ tr s, Runs (Only (T := Nat) Op.shared) ⟨true, true⟩ 1 Nat.one_pos tr s → Served tr s := by
  intro hall
  have hserved := hall _ _ (runs_schedule _ _ _ _ parkTwiceAndLeave)
  have hcalls : (schedule (Only (T := Nat) Op.shared) ⟨true, true⟩ 1 Nat.one_pos
      parkTwiceAndLeave).2.calls = [.parked 0, .parked 0, .dropped (.sender 0) true] := by decide
  have hwoken := hserved.woken 2 0 (by rw [hcalls]; rfl)
    (fun j p w => by
      rw [hcalls]
      rcases j with _ | _ | _ | j <;> simp)
    0 0 (by rw [hcalls]; rfl)
  revert hwoken
  decide

/-! ## Nobody is disturbed -/

/-- As long as no poll throws out a waker that is needed, everybody is served. -/
theorem served_of_undisturbed {lay : Layout} {n : Nat} {h : 0 < n}
    {tr : Trace (State T) (Event T)} {s : State T} (hrun : Runs Undisturbed lay n h tr s) :
    Served tr s where
  kept u e hmem w hw rx hparked := by
    obtain ⟨_, _, _, _, hok⟩ := hrun.of_mem hmem
    cases (hok w hw _ hparked).1
  woken d tx hd hquiet c rx hc := by
    have hwf := wf_of_run hrun
    have hslot := slot_of_usable hwf rx (hwf.borrowed c _ hc rfl)
    rcases woken_of_leftLoop hrun hd rfl hc rfl ⟨_, hc, rfl, fun h => by cases h⟩ hslot with
      hw | ⟨j, p, w, hj, -⟩
    · exact hw
    · exact absurd hj (hquiet j p w)

/-- A poll that writes the slot of its receiver finds it empty, or finds its own
waker there. -/
def Unevicted (_ : Trace (State T) (Event T)) (_ : State T) (e : Event T) : Prop :=
  e.evicts = none

/-- As long as no poll finds the waker of another call in its slot, whatever
the clients call and however many share a receiver, everybody is served. -/
theorem served_of_unevicted {lay : Layout} {n : Nat} {h : 0 < n}
    {tr : Trace (State T) (Event T)} {s : State T} (hrun : Runs Unevicted lay n h tr s) :
    Served tr s :=
  served_of_undisturbed <| hrun.weaken fun _ _ e hok w hw => by
    rw [show e.evicts = none from hok] at hw
    cases hw

/-! ## Polls that take turns -/

namespace Event

/-- Call `c` puts its waker into the slot of its receiver. -/
def enlists (c : Nat) : Event T → Bool
  | .insert d _ _ => d = c
  | _ => false

/-- The call that begins a poll, and the receiver that it polls. -/
def pollBy : Event T → Option (Nat × Nat)
  | .start c op => op.polled.map (c, ·)
  | .repoll c rx => some (c, rx)
  | _ => none

end Event

/-- A waker of call `c` has been taken, to be invoked, since the call last put
one into its slot. -/
def summoned (c : Nat) (tr : Trace (State T) (Event T)) : Bool :=
  since (Event.takes fun w => w.call = c) (Event.enlists c) tr

theorem summoned_cons (c : Nat) (s : State T) (e : Event T) (tr : Trace (State T) (Event T)) :
    summoned c ((s, e) :: tr)
      = (e.takes (fun w => w.call = c) || (!e.enlists c && summoned c tr)) := rfl

/-- A poll of a receiver begins only when no other call is in the middle of one,
and every other call that sleeps on the receiver has been summoned. -/
def InTurn (tr : Trace (State T) (Event T)) (s : State T) (e : Event T) : Prop :=
  ∀ q ∈ e.pollBy, ∀ d < s.calls.length, ∀ a ∈ s.calls[d]?, d ≠ q.1 → a.polled = some q.2 →
    a.returned = true ∨ (a.asleep = true ∧ summoned d tr = true)

instance (tr : Trace (State T) (Event T)) (s : State T) (e : Event T) :
    Decidable (InTurn tr s e) :=
  inferInstanceAs (Decidable (∀ q ∈ e.pollBy, _))

/-- Who is inside `recv` or `poll_next` on a receiver sleeps and has been
summoned, or has begun the receiver's last poll. -/
def Ordered (tr : Trace (State T) (Event T)) (s : State T) : Prop :=
  ∀ (c : Nat) (a : Call T) (rx : Nat), s.calls[c]? = some a → a.polled = some rx →
    a.returned = false →
    (a.asleep = true ∧ summoned c tr = true) ∨ lastPoll rx tr = some c

theorem ordered_move {tr : Trace (State T) (Event T)} {s s' : State T} {e : Event T} {c : Nat}
    {a d : Call T} (hc : s.calls[c]? = some a) (hcalls : s'.calls = s.calls.set c d)
    (hlast : ∀ rx, lastPoll rx ((s, e) :: tr) = lastPoll rx tr)
    (henlists : ∀ j, j ≠ c → e.enlists j = false) (hret : a.returned = false)
    (hup : a.asleep = false) (hd : ∀ rx, d.polled = some rx → d.returned = false →
      a.polled = some rx)
    (hi : Ordered tr s) : Ordered ((s, e) :: tr) s' := by
  intro j b rx hj hb hbret
  rw [hcalls] at hj
  rw [hlast]
  rcases Ledger.getElem?_set_cases hj with ⟨rfl, rfl⟩ | ⟨hne, hold⟩
  · -- the call that moves is not asleep
    rcases hi j a rx hc (hd rx hb hbret) hret with ⟨hsleep, -⟩ | hmine
    · rw [hup] at hsleep
      cases hsleep
    · exact .inr hmine
  · rcases hi j b rx hold hb hbret with ⟨hsleep, hsum⟩ | hlater
    · refine .inl ⟨hsleep, ?_⟩
      rw [summoned_cons, henlists j hne, hsum]
      simp
    · exact .inr hlater

theorem ordered_step {tr : Trace (State T) (Event T)} {s s' : State T} {e : Event T}
    (hok : InTurn tr s e) (h : Trans s e s') (hi : Ordered tr s) : Ordered ((s, e) :: tr) s' := by
  cases h with
  | @start op _ _ =>
      intro j b rx hj hb hret
      rcases Ledger.getElem?_concat_cases hj with ⟨rfl, rfl⟩ | hold
      · rw [entry_polled] at hb
        exact .inr (by simp only [lastPoll, hb, if_true])
      · have hlt := (List.getElem?_eq_some_iff.mp hold).1
        by_cases hop : op.polled = some rx
        · -- the others must sleep and have been summoned
          have hq : (s.calls.length, rx) ∈ (Event.start s.calls.length op).pollBy := by
            simp [Event.pollBy, hop]
          rcases hok _ hq j hlt b hold (Nat.ne_of_lt hlt) hb with hgone | hsleeps
          · rw [hret] at hgone
            cases hgone
          · exact .inl hsleeps
        · simp only [lastPoll, hop, if_false]
          exact hi j b rx hold hb hret
  | startDropSender | startDropReceiver =>
      intro j b rx hj hb hret
      rcases Ledger.getElem?_concat_cases hj with ⟨-, rfl⟩ | hold
      · cases hb
      · exact hi j b rx hold hb hret
  | @repoll c rx hc =>
      intro j b r hj hb hret
      rcases Ledger.getElem?_set_cases hj with ⟨rfl, rfl⟩ | ⟨hne, hold⟩
      · cases hb
        exact .inr (by simp only [lastPoll, if_true])
      · have hlt := (List.getElem?_eq_some_iff.mp hold).1
        by_cases hr : rx = r
        · rcases hok (c, rx) rfl j hlt b hold hne (hr ▸ hb) with hgone | hsleeps
          · rw [hret] at hgone
            cases hgone
          · exact .inl hsleeps
        · simp only [lastPoll, hr, if_false]
          exact hi j b r hold hb hret
  | @popLock c p hc | @scanEnd c p hc | @scanMiss c k p ks hc _ | @scanHit c k p ks w wl hc _
  | @wake c p w hc =>
      exact ordered_move hc rfl (fun _ => rfl) (fun _ _ => rfl) rfl rfl
        (fun rx hd _ => by cases p <;> cases hd) hi
  | popSome hc _ | popEmpty hc _ | popDisconnected hc _ =>
      refine ordered_move hc rfl (fun _ => rfl) (fun _ _ => rfl) rfl rfl (fun rx hd _ => ?_) hi
      rwa [answered_polled] at hd
  | @load c rx l hc =>
      exact ordered_move hc rfl (fun _ => rfl) (fun _ _ => rfl) rfl rfl
        (fun r hd _ => by cases l <;> exact hd) hi
  | @insert c rx p old wl hc _ =>
      exact ordered_move hc rfl (fun _ => rfl) (fun j hj => by simp [Event.enlists, Ne.symm hj])
        rfl rfl (fun r hd _ => hd) hi
  | dropSenderLast hc _ | dropSenderMore hc _ | dropReceiverLast hc _ | dropReceiverMore hc _ =>
      exact ordered_move hc rfl (fun _ => rfl) (fun _ _ => rfl) rfl rfl
        (fun r hd _ => by cases hd) hi
  | _ =>
      exact ordered_move ‹_› rfl (fun _ => rfl) (fun _ _ => rfl) rfl rfl
        (fun r hd _ => by cases hd) hi

theorem ordered_of_run {lay : Layout} {n : Nat} {h : 0 < n} {tr : Trace (State T) (Event T)}
    {s : State T} (hrun : Runs InTurn lay n h tr s) : Ordered tr s :=
  hrun.invariant (I := Ordered) (fun c a rx hc => by simp [State.ringChannel] at hc)
    fun _ _ _ _ _ hi hn hok => ordered_step hok (trans_of_next hn) hi

/-! ## Whose waker is still in its slot -/

/-- A call whose waker is in its slot has not been summoned. -/
def Unsummoned (tr : Trace (State T) (Event T)) (s : State T) : Prop :=
  ∀ (k : Nat) (w : Waker), s.cb.waitlist.slot k = some (some w) → summoned w.call tr = false

/-- No slot is filled, and no waker taken of a call whose waker stays in its
slot. -/
theorem unsummoned_of {tr : Trace (State T) (Event T)} {s s' : State T} {e : Event T}
    (hold : ∀ k w, s'.cb.waitlist.slot k = some (some w) →
      s.cb.waitlist.slot k = some (some w) ∧ e.takes (fun v => v.call = w.call) = false)
    (hi : Unsummoned tr s) : Unsummoned ((s, e) :: tr) s' := by
  intro k w hk
  obtain ⟨hbefore, htakes⟩ := hold k w hk
  rw [summoned_cons, htakes, hi k w hbefore]
  simp

theorem unsummoned_step {tr : Trace (State T) (Event T)} {s s' : State T} {e : Event T}
    (ht : Tokens s) (h : Trans s e s') (hi : Unsummoned tr s) :
    Unsummoned ((s, e) :: tr) s' := by
  cases h with
  | @scanHit c k p ks w wl hc hw =>
      -- a call has at most one waker in a slot, that of the receiver it polls
      refine unsummoned_of (fun j v hj => ?_) hi
      obtain ⟨hjk, hv⟩ := hw.full_before hj
      refine ⟨hv, decide_eq_false fun heq => hjk ?_⟩
      obtain ⟨-, a, ha, hak⟩ := ht k w hw.slot_before
      obtain ⟨-, b, hb, hbj⟩ := ht j v hv
      rw [heq, hb] at ha
      obtain rfl : b = a := Option.some.inj ha
      exact Option.some.inj (hbj.symm.trans hak)
  | @insert c rx p old wl hc hw =>
      intro k w hk
      rw [summoned_cons]
      rcases eq_or_ne k rx with rfl | hne
      · have := hw.slot_self.symm.trans hk
        cases this
        simp [Event.takes, Event.enlists]
      · rw [hi k w ((hw.slot_ne k hne).symm.trans hk)]
        simp [Event.takes]
  | cloneRegister _ _ hadd =>
      exact unsummoned_of (fun _ _ hj => ⟨(hadd.full_before hj).2, rfl⟩) hi
  | deregisterEmpty _ _ hdrop | deregisterFull _ _ hdrop =>
      exact unsummoned_of (fun _ _ hj => ⟨(hdrop.full_before hj).2, rfl⟩) hi
  | remove _ hw => exact unsummoned_of (fun _ _ hj => ⟨(hw.full_before hj).2, rfl⟩) hi
  | _ => exact unsummoned_of (fun _ _ hj => ⟨hj, rfl⟩) hi

theorem unsummoned_of_run {ok : Trace (State T) (Event T) → State T → Event T → Prop}
    {lay : Layout} {n : Nat} {h : 0 < n} {tr : Trace (State T) (Event T)} {s : State T}
    (hrun : Runs ok lay n h tr s) : Unsummoned tr s :=
  hrun.invariant (I := Unsummoned) (fun _ _ _ => rfl)
    fun _ _ _ _ hrun hi hn _ => unsummoned_step (tokens_of_run hrun) (trans_of_next hn) hi

/-! ## Taking turns disturbs nobody -/

theorem undisturbed_of_ordered {tr : Trace (State T) (Event T)} {s s' : State T} {e : Event T}
    (ht : Tokens s) (ho : Ordered tr s) (hu : Unsummoned tr s) (h : Trans s e s') :
    Undisturbed tr s e := by
  -- whoever finds the waker of another call has begun the receiver's last poll
  have key : ∀ {c rx : Nat} {b : Call T} {w : Waker}, s.calls[c]? = some b →
      b.polled = some rx → b.returned = false → b.asleep = false →
      s.cb.waitlist.slot rx = some (some w) → w.call ≠ c →
        ∀ a ∈ s.calls[w.call]?, a.returned = true ∧ lastPoll w.slot tr ≠ some w.call := by
    intro c rx b w hc hb hret hup hslot hne a ha
    obtain ⟨hws, a', ha', hpolled⟩ := ht rx w hslot
    obtain rfl : a = a' := Option.some.inj (ha.symm.trans ha')
    have hlast : lastPoll rx tr = some c := by
      rcases ho c b rx hc hb hret with ⟨hsleep, -⟩ | hlast
      · rw [hup] at hsleep
        cases hsleep
      · exact hlast
    have hother : lastPoll rx tr ≠ some w.call := by
      rw [hlast]
      exact fun heq => hne (Option.some.inj heq).symm
    refine ⟨?_, hws ▸ hother⟩
    cases har : a.returned with
    | true => rfl
    | false =>
        rcases ho w.call a rx ha hpolled har with ⟨-, hsum⟩ | hmine
        · rw [hu rx w hslot] at hsum
          cases hsum
        · exact absurd hmine hother
  intro w hw
  cases h with
  | @insert c rx p old wl hc hwr | @remove c rx p r old wl hc hwr =>
      cases old with
      | none => cases hw
      | some v =>
          by_cases hv : v.call = c
          · simp [Event.evicts, hv] at hw
          · obtain rfl : v = w := by simpa [Event.evicts, hv] using hw
            exact key hc rfl rfl rfl hwr.slot_before hv
  | _ => cases hw

/-- However many calls share a receiver, everybody is served as long as the polls
of a receiver take turns. -/
theorem served_of_inTurn {lay : Layout} {n : Nat} {h : 0 < n}
    {tr : Trace (State T) (Event T)} {s : State T} (hrun : Runs InTurn lay n h tr s) :
    Served tr s :=
  served_of_undisturbed <| hrun.strengthen fun _ _ _ _ hrun hn _ =>
    undisturbed_of_ordered (tokens_of_run hrun) (ordered_of_run hrun) (unsummoned_of_run hrun)
      (trans_of_next hn)

/-- A `recv` parks and is summoned by a send.  Before it is polled again, another
one on the same receiver takes the message and a third one parks beside it.  The
only sender is dropped. -/
def parkInTurnAndLeave : List (Act Nat) :=
  [.start (.recv 0), .run 0, .run 0, .run 0, .run 0, .run 0,
    .start (.send 0 1), .run 1, .run 1, .run 1, .run 1, .run 1,
    .start (.recv 0), .run 2, .run 2, .run 2,
    .start (.recv 0), .run 3, .run 3, .run 3, .run 3, .run 3,
    .start (.dropSender 0), .run 4, .run 4, .run 4, .run 4, .run 4, .run 4, .run 4, .run 4]

theorem served_in_parkInTurnAndLeave :
    let r := schedule InTurn ⟨true, true⟩ 1 Nat.one_pos parkInTurnAndLeave
    r.2.calls = [.parked 0, .sent 0 1 (.ok none), .ready 0 .recv (some 1), .parked 0,
      .dropped (.sender 0) true] ∧ Served r.1 r.2 :=
  ⟨by decide, served_of_inTurn (runs_schedule ..)⟩

end RingChannel
