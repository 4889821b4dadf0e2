/-
# `RingChannel.Wakers` — where a waker is between its poll and its wake-up

A poll that answers `Pending` has left its waker in the slot of its receiver.
Whoever takes it out there invokes it next, unless it is the poll of another
call on the same receiver, or the receiver's own drop.  This module is the
bookkeeping behind every wake-up theorem:

* `Tokens`: a slot holds only wakers of calls that poll its receiver;
* `woken_of_taken`: what was taken has been invoked, or is about to be;
* `Sole`: under `OnePoll`, a poll in progress is the last one of its receiver;
* `Held`: a call that waits has its waker in its slot, or it was taken since
  the poll began — as long as no other call throws it out (`Undisturbed`).

The past enters through flags on the trace (`since`), read once for each call
and once for each receiver.
-/
import RingChannel.Endpoints

namespace RingChannel

variable {T : Type}

/-! ## What the trace remembers -/

/-- The receiver that the method polls. -/
def Op.polled : Op T → Option Nat
  | .pollNext rx | .recv rx => some rx
  | _ => none

namespace Event

/-- Some waker in `f` is taken out of its slot, to be invoked. -/
def takes (f : Waker → Bool) : Event T → Bool
  | .take _ w => f w
  | _ => false

/-- Some waker in `f` is invoked. -/
def wakes (f : Waker → Bool) : Event T → Bool
  | .wake _ w => f w
  | _ => false

/-- Call `c` begins a poll. -/
def polls (c : Nat) : Event T → Bool
  | .start d op => d = c && op.polled.isSome
  | .repoll d _ => d = c
  | _ => false

/-- A poll of the receiver `rx` begins. -/
def pollsOn (rx : Nat) : Event T → Bool
  | .start _ op => op.polled = some rx
  | .repoll _ r => r = rx
  | _ => false

/-- The method that a new call runs. -/
def op : Event T → Option (Op T)
  | .start _ op => some op
  | _ => none

/-- The waker of another call that a poll finds in the slot of its receiver,
and throws out. -/
def evicts : Event T → Option Waker
  | .insert c _ (some w) | .remove c _ (some w) => if w.call = c then none else some w
  | _ => none

end Event

/-- A waker of call `c` has been taken since its last poll began. -/
def taken (c : Nat) (tr : Trace (State T) (Event T)) : Bool :=
  since (Event.takes fun w => w.call = c) (Event.polls c) tr

/-- A waker of call `c` has been invoked since its last poll began. -/
def woken (c : Nat) (tr : Trace (State T) (Event T)) : Bool :=
  since (Event.wakes fun w => w.call = c) (Event.polls c) tr

/-- A waker of the receiver `rx` has been taken since its last poll began. -/
def takenOn (rx : Nat) (tr : Trace (State T) (Event T)) : Bool :=
  since (Event.takes fun w => w.slot = rx) (Event.pollsOn rx) tr

/-- A waker of the receiver `rx` has been invoked since its last poll began. -/
def wokenOn (rx : Nat) (tr : Trace (State T) (Event T)) : Bool :=
  since (Event.wakes fun w => w.slot = rx) (Event.pollsOn rx) tr

theorem taken_cons (c : Nat) (s : State T) (e : Event T) (tr : Trace (State T) (Event T)) :
    taken c ((s, e) :: tr) = (e.takes (fun w => w.call = c) || (!e.polls c && taken c tr)) := rfl

theorem takenOn_cons (rx : Nat) (s : State T) (e : Event T) (tr : Trace (State T) (Event T)) :
    takenOn rx ((s, e) :: tr)
      = (e.takes (fun w => w.slot = rx) || (!e.pollsOn rx && takenOn rx tr)) := rfl

/-- A step that begins no poll of the call leaves its taken waker taken. -/
theorem taken_kept {c : Nat} {s : State T} {e : Event T} {tr : Trace (State T) (Event T)}
    (h : taken c tr = true) (hpolls : e.polls c = false) : taken c ((s, e) :: tr) = true := by
  rw [taken_cons, h, hpolls]
  exact Bool.or_true _

/-- The call that made the most recent poll of the receiver `rx`. -/
def lastPoll (rx : Nat) : Trace (State T) (Event T) → Option Nat
  | [] => none
  | (_, .start c op) :: tr => if op.polled = some rx then some c else lastPoll rx tr
  | (_, .repoll c r) :: tr => if r = rx then some c else lastPoll rx tr
  | _ :: tr => lastPoll rx tr

/-- The most recent poll begins just now, or it was the most recent one before. -/
theorem lastPoll_cases {rx c : Nat} {s : State T} {e : Event T} {tr : Trace (State T) (Event T)}
    (h : lastPoll rx ((s, e) :: tr) = some c) :
    (e.polls c = true ∧ e.pollsOn rx = true) ∨
      (e.pollsOn rx = false ∧ lastPoll rx tr = some c) := by
  cases e with
  | start d op =>
      simp only [lastPoll] at h
      split at h
      · rename_i hpoll
        cases h
        exact .inl ⟨by simp [Event.polls, hpoll], by simp [Event.pollsOn, hpoll]⟩
      · rename_i hpoll
        exact .inr ⟨by simp [Event.pollsOn, hpoll], h⟩
  | repoll d r =>
      simp only [lastPoll] at h
      split at h
      · rename_i hr
        cases h
        exact .inl ⟨by simp [Event.polls], by simp [Event.pollsOn, hr]⟩
      · rename_i hr
        exact .inr ⟨by simp [Event.pollsOn, hr], h⟩
  | _ => exact .inr ⟨rfl, h⟩

/-! ## Taken, then invoked -/

theorem wake_kept {s s' : State T} {e : Event T} (h : Trans s e s') {d : Nat} {p : Waking T}
    {w : Waker} (hd : s.calls[d]? = some (.wake p w)) :
    s'.calls[d]? = some (.wake p w) ∨ e = .wake d w := by
  have hset : ∀ {c : Nat} {a b : Call T}, s.calls[c]? = some a → a ≠ .wake p w →
      (s.calls.set c b)[d]? = some (.wake p w) := by
    intro c a b hc ha
    have hne : d ≠ c := by
      rintro rfl
      exact ha (Option.some.inj (hc.symm.trans hd))
    rw [Ledger.getElem?_set_off b hne, hd]
  cases h with
  | start | startDropSender | startDropReceiver =>
      exact Or.inl (Ledger.getElem?_concat_old hd)
  | @wake c q v hc =>
      rcases eq_or_ne d c with rfl | hne
      · rw [hc] at hd
        cases hd
        exact Or.inr rfl
      · exact Or.inl ((Ledger.getElem?_set_off _ hne).trans hd)
  | _ => exact Or.inl (hset ‹_› (fun heq => by cases heq))

/-- What was taken since some kind of event has been invoked since then, or a
call stands right before invoking it. -/
theorem woken_of_taken {ok : Trace (State T) (Event T) → State T → Event T → Prop}
    {lay : Layout} {n : Nat} {h : 0 < n} {tr : Trace (State T) (Event T)} {s : State T}
    (hrun : Runs ok lay n h tr s) (f : Waker → Bool) (reset : Event T → Bool)
    (htaken : since (Event.takes f) reset tr = true) :
    since (Event.wakes f) reset tr = true ∨
      ∃ (d : Nat) (p : Waking T) (w : Waker), s.calls[d]? = some (.wake p w) ∧ f w = true := by
  induction hrun with
  | start => cases htaken
  | @step tr s e s' hrun hn _ ih =>
      have htrans := trans_of_next hn
      rw [since_cons] at htaken ⊢
      cases htake : e.takes f with
      | true =>
          -- the event takes a waker in `f`, and its call is now about to invoke it
          cases htrans with
          | @scanHit c k p ks w wl hc _ =>
              exact Or.inr ⟨c, p, w, Ledger.getElem?_set_self_of _ hc, htake⟩
          | _ => cases htake
      | false =>
          rw [htake] at htaken
          simp only [Bool.false_or, Bool.and_eq_true, Bool.not_eq_true'] at htaken
          rcases ih htaken.2 with hwoken | ⟨d, p, w, hd, hw⟩
          · exact Or.inl (by simp [htaken.1, hwoken])
          · rcases wake_kept htrans hd with hstill | rfl
            · exact Or.inr ⟨d, p, w, hstill, hw⟩
            · exact Or.inl (by simp [Event.wakes, hw])

/-! ## Whose waker a slot holds -/

namespace Call

/-- The receiver whose slot may hold the waker of the call: the one that it is
polling, or whose poll it has left pending. -/
def polled : Call T → Option Nat
  | .load rx (.first _) | .load rx (.again _) => some rx
  | .pop rx (.first _) _ | .pop rx (.again _) _ => some rx
  | .insert rx _ | .remove rx _ _ | .pending rx | .parked rx => some rx
  | _ => none

/-- The receiver that the call is polling right now. -/
def midPoll : Call T → Option Nat
  | .load rx (.first _) | .load rx (.again _) => some rx
  | .pop rx (.first _) _ | .pop rx (.again _) _ => some rx
  | .insert rx _ | .remove rx _ _ => some rx
  | _ => none

/-- The receiver whose slot the call has filled in this poll, and from which it
now expects to be woken. -/
def waits : Call T → Option Nat
  | .load rx (.again _) | .pop rx (.again _) _ | .pending rx | .parked rx => some rx
  | _ => none

end Call

theorem answered_polled (rx : Nat) (l : Look) (b : Bool) (r : Except TryRecvError T) :
    (l.answered rx r).polled = (Call.pop rx l b : Call T).polled := by
  rcases l with _ | p | ⟨_ | _⟩ <;> rcases r with (_ | _) | m <;> rfl

theorem entry_polled (op : Op T) : op.entry.polled = op.polled := by
  cases op <;> rfl

theorem entry_waits (op : Op T) : op.entry.waits = none := by
  cases op <;> rfl

def Tokens (s : State T) : Prop :=
  ∀ (k : Nat) (w : Waker), s.cb.waitlist.slot k = some (some w) →
    w.slot = k ∧ ∃ a, s.calls[w.call]? = some a ∧ a.polled = some k

/-- A call moves within its poll, and no slot is filled. -/
theorem tokens_move {s s' : State T} {c : Nat} {a d : Call T} (hc : s.calls[c]? = some a)
    (hcalls : s'.calls = s.calls.set c d)
    (hslot : ∀ k w, s'.cb.waitlist.slot k = some (some w) →
      s.cb.waitlist.slot k = some (some w) ∧ (w.call = c → a.polled = some k →
        d.polled = some k))
    (hi : Tokens s) : Tokens s' := by
  intro k w hk
  obtain ⟨hold, hd⟩ := hslot k w hk
  obtain ⟨hws, b, hb, hbk⟩ := hi k w hold
  refine ⟨hws, ?_⟩
  by_cases hw : w.call = c
  · rw [hw] at hb
    obtain rfl : a = b := Option.some.inj (hc.symm.trans hb)
    exact ⟨d, by rw [hcalls, hw, Ledger.getElem?_set_self_of d hc], hd hw hbk⟩
  · exact ⟨b, by rw [hcalls, Ledger.getElem?_set_off d hw, hb], hbk⟩

theorem tokens_step {s s' : State T} {e : Event T} (h : Trans s e s') (hi : Tokens s) :
    Tokens s' := by
  cases h with
  | start | startDropSender | startDropReceiver =>
      intro k w hk
      obtain ⟨hws, a, ha, hak⟩ := hi k w hk
      exact ⟨hws, a, Ledger.getElem?_concat_old ha, hak⟩
  | scanHit hc hw =>
      exact tokens_move hc rfl
        (fun j w hj => ⟨(hw.full_before hj).2, fun _ ha => by cases ha⟩) hi
  | cloneRegister hc _ hadd =>
      exact tokens_move hc rfl
        (fun j w hj => ⟨(hadd.full_before hj).2, fun _ ha => by cases ha⟩) hi
  | deregisterEmpty hc _ hdrop | deregisterFull hc _ hdrop =>
      exact tokens_move hc rfl
        (fun j w hj => ⟨(hdrop.full_before hj).2, fun _ ha => by cases ha⟩) hi
  | @insert c rx p old wl hc hw =>
      intro j w hj
      rcases eq_or_ne j rx with rfl | hjk
      · have := hw.slot_self.symm.trans hj
        cases this
        exact ⟨rfl, _, Ledger.getElem?_set_self_of _ hc, rfl⟩
      · obtain ⟨hws, b, hb, hbk⟩ := hi j w ((hw.slot_ne j hjk).symm.trans hj)
        have hne : w.call ≠ c := by
          intro hwc
          rw [hwc, hc] at hb
          cases hb
          exact hjk (Option.some.inj hbk).symm
        exact ⟨hws, b, (Ledger.getElem?_set_off _ hne).trans hb, hbk⟩
  | remove hc hw =>
      -- the call leaves its poll, but its slot is empty now
      refine tokens_move hc rfl (fun j w hj => ?_) hi
      obtain ⟨hne, hold⟩ := hw.full_before hj
      exact ⟨hold, fun _ ha => absurd (Option.some.inj ha).symm hne⟩
  | popSome hc _ | popEmpty hc _ | popDisconnected hc _ =>
      exact tokens_move hc rfl
        (fun k w hk => ⟨hk, fun _ ha => by rw [answered_polled]; exact ha⟩) hi
  | @load c rx l hc =>
      exact tokens_move hc rfl (fun k w hk => ⟨hk, fun _ ha => by cases l <;> exact ha⟩) hi
  | @repoll c rx hc => exact tokens_move hc rfl (fun k w hk => ⟨hk, fun _ ha => ha⟩) hi
  | _ => exact tokens_move ‹_› rfl (fun k w hk => ⟨hk, fun _ ha => by cases ha⟩) hi

theorem tokens_of_run {ok : Trace (State T) (Event T) → State T → Event T → Prop}
    {lay : Layout} {n : Nat} {h : 0 < n} {tr : Trace (State T) (Event T)} {s : State T}
    (hrun : Runs ok lay n h tr s) : Tokens s :=
  hrun.invariant (I := fun _ s => Tokens s)
    (fun k w hk => by
      have hadd := Waitlist.register_adds (Waitlist.new lay.waker : Waitlist Waker) 0
      rcases eq_or_ne k 0 with rfl | hk0
      · have := hadd.slot_self.symm.trans hk
        cases this
      · have := (hadd.slot_ne k hk0).symm.trans hk
        cases this)
    fun _ _ _ _ _ hi hn _ => tokens_step (trans_of_next hn) hi

/-! ## One poll of a receiver at a time -/

/-- A receiver is polled by one thread or task at a time: no poll of it begins
while another call is in the middle of one. -/
def OnePoll (_ : Trace (State T) (Event T)) (s : State T) (e : Event T) : Prop :=
  ∀ op ∈ e.op, ∀ rx ∈ op.polled, ∀ a ∈ s.calls, a.polled = some rx → a.returned = true

instance (tr : Trace (State T) (Event T)) (s : State T) (e : Event T) :
    Decidable (OnePoll tr s e) :=
  inferInstanceAs (Decidable (∀ op ∈ e.op, _))

/-- The clients call no other methods than those in `p`. -/
def Only (p : Op T → Bool) (_ : Trace (State T) (Event T)) (_ : State T) (e : Event T) : Prop :=
  ∀ op ∈ e.op, p op = true

instance (p : Op T → Bool) (tr : Trace (State T) (Event T)) (s : State T) (e : Event T) :
    Decidable (Only p tr s e) :=
  inferInstanceAs (Decidable (∀ op ∈ e.op, _))

def Sole (tr : Trace (State T) (Event T)) (s : State T) : Prop :=
  ∀ (c : Nat) (a : Call T) (rx : Nat), s.calls[c]? = some a → a.polled = some rx →
    a.returned = false → lastPoll rx tr = some c

theorem sole_move {tr : Trace (State T) (Event T)} {s s' : State T} {e : Event T} {c : Nat}
    {a d : Call T} (hc : s.calls[c]? = some a) (hcalls : s'.calls = s.calls.set c d)
    (hlast : ∀ rx, lastPoll rx ((s, e) :: tr) = lastPoll rx tr) (ha : a.returned = false)
    (hd : ∀ rx, d.polled = some rx → d.returned = false → a.polled = some rx)
    (hi : Sole tr s) : Sole ((s, e) :: tr) s' := by
  intro j b rx hj hb hret
  rw [hcalls] at hj
  rw [hlast]
  rcases Ledger.getElem?_set_cases hj with ⟨rfl, rfl⟩ | ⟨-, hold⟩
  · exact hi j a rx hc (hd rx hb hret) ha
  · exact hi j b rx hold hb hret

theorem sole_step {tr : Trace (State T) (Event T)} {s s' : State T} {e : Event T}
    (hok : OnePoll tr s e) (h : Trans s e s') (hi : Sole tr s) : Sole ((s, e) :: tr) s' := by
  cases h with
  | @start op _ _ =>
      intro j b rx hj hb hret
      rcases Ledger.getElem?_concat_cases hj with ⟨rfl, rfl⟩ | hold
      · rw [entry_polled] at hb
        simp only [lastPoll, hb, if_true]
      · by_cases hop : op.polled = some rx
        · -- the rule forbids this poll while call `j` is in the middle of one
          have := hok op rfl rx hop b (List.mem_of_getElem? hold) hb
          rw [this] at hret
          cases hret
        · simp only [lastPoll, hop, if_false]
          exact hi j b rx hold hb hret
  | startDropSender | startDropReceiver =>
      intro j b rx hj hb hret
      rcases Ledger.getElem?_concat_cases hj with ⟨-, rfl⟩ | hold
      · cases hb
      · exact hi j b rx hold hb hret
  | @repoll c rx hc =>
      have hlast := hi c _ rx hc rfl rfl
      refine sole_move hc rfl (fun r => ?_) rfl (fun r hd _ => hd) hi
      simp only [lastPoll]
      split
      · rename_i hr
        rw [← hr, hlast]
      · rfl
  | @popLock c p hc | @scanEnd c p hc | @scanMiss c k p ks hc _ | @scanHit c k p ks w wl hc _
  | @wake c p w hc =>
      exact sole_move hc rfl (fun _ => rfl) rfl (fun rx hd _ => by cases p <;> cases hd) hi
  | popSome hc _ | popEmpty hc _ | popDisconnected hc _ =>
      refine sole_move hc rfl (fun _ => rfl) rfl (fun rx hd _ => ?_) hi
      rwa [answered_polled] at hd
  | @load c rx l hc =>
      exact sole_move hc rfl (fun _ => rfl) rfl (fun r hd _ => by cases l <;> exact hd) hi
  | insert hc _ => exact sole_move hc rfl (fun _ => rfl) rfl (fun r hd _ => hd) hi
  | dropSenderLast hc _ | dropSenderMore hc _ | dropReceiverLast hc _ | dropReceiverMore hc _ =>
      exact sole_move hc rfl (fun _ => rfl) rfl (fun r hd _ => by cases hd) hi
  | _ => exact sole_move ‹_› rfl (fun _ => rfl) rfl (fun r hd _ => by cases hd) hi

theorem sole_of_run {lay : Layout} {n : Nat} {h : 0 < n} {tr : Trace (State T) (Event T)}
    {s : State T} (hrun : Runs OnePoll lay n h tr s) : Sole tr s :=
  hrun.invariant (I := Sole) (fun c a rx hc => by simp [State.ringChannel] at hc)
    fun _ _ _ _ _ hi hn hok => sole_step hok (trans_of_next hn) hi

/-! ## Still there, or taken -/

/-- No poll throws out the waker of a call that may still need it: a call in
the middle of a poll, or the last poll of its receiver. -/
def Undisturbed (tr : Trace (State T) (Event T)) (s : State T) (e : Event T) : Prop :=
  ∀ w ∈ e.evicts, ∀ a ∈ s.calls[w.call]?,
    a.returned = true ∧ lastPoll w.slot tr ≠ some w.call

/-- Call `c` waits on the receiver `rx`: in this poll it has filled the slot,
and if it has returned no later poll of the receiver has begun. -/
def Waits (tr : Trace (State T) (Event T)) (s : State T) (c rx : Nat) : Prop :=
  ∃ a, s.calls[c]? = some a ∧ a.waits = some rx ∧
    (a.returned = true → lastPoll rx tr = some c)

def Held (tr : Trace (State T) (Event T)) (s : State T) : Prop :=
  ∀ c rx, Waits tr s c rx → s.cb.waitlist.slot rx ≠ none →
    s.cb.waitlist.slot rx = some (some ⟨rx, c⟩) ∨ taken c tr = true

/-- With one poll at a time nobody is disturbed. -/
theorem undisturbed_of_sole {tr : Trace (State T) (Event T)} {s s' : State T} {e : Event T}
    (ht : Tokens s) (hs : Sole tr s) (h : Trans s e s') : Undisturbed tr s e := by
  -- whoever finds the waker is in the middle of a poll of the same receiver
  have key : ∀ {c rx : Nat} {b : Call T} {w : Waker}, s.calls[c]? = some b →
      b.polled = some rx → b.returned = false → s.cb.waitlist.slot rx = some (some w) →
      w.call ≠ c →
        ∀ a ∈ s.calls[w.call]?, a.returned = true ∧ lastPoll w.slot tr ≠ some w.call := by
    intro c rx b w hc hb hret hslot hne a ha
    obtain ⟨hws, a', ha', hpolled⟩ := ht rx w hslot
    obtain rfl : a = a' := Option.some.inj (ha.symm.trans ha')
    have hlast := hs c b rx hc hb hret
    have hother : lastPoll rx tr ≠ some w.call := by
      rw [hlast]
      exact fun heq => hne (Option.some.inj heq).symm
    refine ⟨?_, hws ▸ hother⟩
    cases har : a.returned with
    | true => rfl
    | false => exact absurd (hs w.call a rx ha hpolled har) hother
  intro w hw
  cases h with
  | @insert c rx p old wl hc hwr | @remove c rx p r old wl hc hwr =>
      cases old with
      | none => cases hw
      | some v =>
          by_cases hv : v.call = c
          · simp [Event.evicts, hv] at hw
          · obtain rfl : v = w := by simpa [Event.evicts, hv] using hw
            exact key hc rfl rfl hwr.slot_before hv
  | _ => cases hw

theorem fresh_le_of_trans {s s' : State T} {e : Event T} (h : Trans s e s') :
    s.cb.waitlist.fresh ≤ s'.cb.waitlist.fresh := by
  cases h with
  | @cloneRegister c rx pos k wl _ _ hadd =>
      show s.cb.waitlist.fresh ≤ wl.fresh
      rw [hadd.fresh_before, hadd.fresh_eq]
      exact Nat.le_succ k
  | scanHit _ hw | insert _ hw | remove _ hw => exact Nat.le_of_eq hw.fresh_eq.symm
  | deregisterEmpty _ _ hdrop | deregisterFull _ _ hdrop => exact Nat.le_of_eq hdrop.fresh_eq.symm
  | _ => exact Nat.le_refl _

theorem lt_fresh_of_pollsOn {s s' : State T} {e : Event T} (hw : Wf s) (h : Trans s e s')
    {rx : Nat} (hp : e.pollsOn rx = true) : rx < s.cb.waitlist.fresh := by
  cases h with
  | @start op hop _ =>
      have hu := usable_of_mayStart hop
      have hpoll : op.polled = some rx := of_decide_eq_true hp
      cases op <;> cases hpoll <;> exact hw.registered.known _ true hu
  | @repoll d r hd =>
      obtain rfl : r = rx := of_decide_eq_true hp
      exact hw.registered.known _ true (hw.borrowed d _ hd rfl)
  | _ => cases hp

/-- Only receivers that exist have been polled. -/
theorem lastPoll_lt_fresh {ok : Trace (State T) (Event T) → State T → Event T → Prop}
    {lay : Layout} {n : Nat} {h : 0 < n} {tr : Trace (State T) (Event T)} {s : State T}
    (hrun : Runs ok lay n h tr s) : ∀ {rx c : Nat}, lastPoll rx tr = some c →
      rx < s.cb.waitlist.fresh := by
  induction hrun with
  | start => intro rx c hlast; cases hlast
  | @step tr s e s' hrun hn _ ih =>
      intro rx c hlast
      have htrans := trans_of_next hn
      refine Nat.lt_of_lt_of_le ?_ (fresh_le_of_trans htrans)
      rcases lastPoll_cases hlast with ⟨-, hp⟩ | ⟨-, hold⟩
      · exact lt_fresh_of_pollsOn (wf_of_run hrun) htrans hp
      · exact ih hold

theorem lt_fresh_of_waits {ok : Trace (State T) (Event T) → State T → Event T → Prop}
    {lay : Layout} {n : Nat} {h : 0 < n} {tr : Trace (State T) (Event T)} {s : State T}
    (hrun : Runs ok lay n h tr s) {c rx : Nat} (hwaits : Waits tr s c rx) :
    rx < s.cb.waitlist.fresh := by
  obtain ⟨a, hc, ha, hlast⟩ := hwaits
  have hw := wf_of_run hrun
  cases hret : a.returned with
  | true => exact lastPoll_lt_fresh hrun (hlast hret)
  | false =>
      have hu : s.usable (.receiver rx) := by
        cases a with
        | load r l | pop r l _ =>
            cases l <;> cases ha
            exact hw.borrowed c _ hc rfl
        | parked r =>
            cases ha
            exact hw.borrowed c _ hc rfl
        | pending => cases hret
        | _ => cases ha
      exact hw.registered.known rx true hu

theorem held_move {tr : Trace (State T) (Event T)} {s s' : State T} {e : Event T} {c : Nat}
    {a d : Call T} (hc : s.calls[c]? = some a) (hcalls : s'.calls = s.calls.set c d)
    (ha : a.returned = false)
    (hlast : ∀ rx j, j ≠ c → lastPoll rx ((s, e) :: tr) = some j → lastPoll rx tr = some j)
    (hpolls : ∀ j, j ≠ c → e.polls j = false)
    (hd : ∀ rx, d.waits = some rx →
      (a.waits = some rx ∧ e.polls c = false) ∨ s'.cb.waitlist.slot rx = some (some ⟨rx, c⟩))
    (hslot : ∀ j rx, Waits tr s j rx → s'.cb.waitlist.slot rx ≠ none →
      s.cb.waitlist.slot rx ≠ none ∧ (s.cb.waitlist.slot rx = some (some ⟨rx, j⟩) →
        s'.cb.waitlist.slot rx = some (some ⟨rx, j⟩) ∨ taken j ((s, e) :: tr) = true))
    (hi : Held tr s) : Held ((s, e) :: tr) s' := by
  have key : ∀ j rx, Waits tr s j rx → e.polls j = false → s'.cb.waitlist.slot rx ≠ none →
      s'.cb.waitlist.slot rx = some (some ⟨rx, j⟩) ∨ taken j ((s, e) :: tr) = true := by
    intro j rx hw hp hne
    obtain ⟨hne', hsame⟩ := hslot j rx hw hne
    rcases hi j rx hw hne' with hheld | htaken
    · exact hsame hheld
    · exact Or.inr (taken_kept htaken hp)
  rintro j rx ⟨b, hj, hb, hret⟩ hne
  rw [hcalls] at hj
  rcases Ledger.getElem?_set_cases hj with ⟨rfl, rfl⟩ | ⟨hjc, hold⟩
  · rcases hd rx hb with ⟨haw, hp⟩ | hfilled
    · exact key j rx ⟨a, hc, haw, fun h => by rw [ha] at h; cases h⟩ hp hne
    · exact Or.inl hfilled
  · exact key j rx ⟨b, hold, hb, fun h => hlast rx j hjc (hret h)⟩ (hpolls j hjc) hne

/-- A call moves, begins no poll, and leaves the slots alone. -/
theorem held_quiet {tr : Trace (State T) (Event T)} {s s' : State T} {e : Event T} {c : Nat}
    {a d : Call T} (hc : s.calls[c]? = some a) (hcalls : s'.calls = s.calls.set c d)
    (ha : a.returned = false) (hlast : ∀ rx, lastPoll rx ((s, e) :: tr) = lastPoll rx tr)
    (hpolls : ∀ j, e.polls j = false)
    (hslot : ∀ rx, s'.cb.waitlist.slot rx = s.cb.waitlist.slot rx)
    (hd : ∀ rx, d.waits = some rx → a.waits = some rx) (hi : Held tr s) :
    Held ((s, e) :: tr) s' :=
  held_move hc hcalls ha (fun rx _ _ h => (hlast rx).symm.trans h) (fun j _ => hpolls j)
    (fun rx h => Or.inl ⟨hd rx h, hpolls c⟩)
    (fun _ rx _ hne => ⟨hslot rx ▸ hne, fun h => Or.inl ((hslot rx).trans h)⟩) hi

theorem held_concat {tr : Trace (State T) (Event T)} {s s' : State T} (op : Op T)
    (hcalls : s'.calls = s.calls ++ [op.entry]) (hcb : s'.cb = s.cb) (hi : Held tr s) :
    Held ((s, .start s.calls.length op) :: tr) s' := by
  rintro j rx ⟨b, hj, hb, hret⟩ hne
  rw [hcalls] at hj
  rcases Ledger.getElem?_concat_cases hj with ⟨-, rfl⟩ | hold
  · rw [entry_waits] at hb
    cases hb
  · have hjlt : j ≠ s.calls.length :=
      Nat.ne_of_lt (List.getElem?_eq_some_iff.mp hold).1
    have hlast : lastPoll rx ((s, .start s.calls.length op) :: tr) = some j →
        lastPoll rx tr = some j := by
      intro h
      simp only [lastPoll] at h
      split at h
      · exact absurd (Option.some.inj h).symm hjlt
      · exact h
    rw [hcb] at hne ⊢
    rcases hi j rx ⟨b, hold, hb, fun h => hlast (hret h)⟩ hne with hheld | htaken
    · exact Or.inl hheld
    · exact Or.inr (taken_kept htaken (by simp [Event.polls, Ne.symm hjlt]))

/-- What a poll that writes the slot of `rx` does to the others that wait on
it: nothing, because nobody is disturbed. -/
theorem held_writes {tr : Trace (State T) (Event T)} {s : State T} {e : Event T} {c rx : Nat}
    {old new : Option Waker} {wl : Waitlist Waker} (hok : Undisturbed tr s e)
    (hw : s.cb.waitlist.Writes rx old new wl)
    (he : ∀ w, old = some w → w.call ≠ c → w ∈ e.evicts)
    (hmover : ∀ r, ¬ Waits tr s c r) :
    ∀ j r, Waits tr s j r → wl.slot r ≠ none → s.cb.waitlist.slot r ≠ none ∧
      (s.cb.waitlist.slot r = some (some ⟨r, j⟩) →
        wl.slot r = some (some ⟨r, j⟩) ∨ taken j ((s, e) :: tr) = true) := by
  intro j r hwaits hne
  rcases eq_or_ne r rx with rfl | hr
  · rw [hw.slot_before]
    refine ⟨Option.some_ne_none _, fun htok => ?_⟩
    have hjc : j ≠ c := fun h => hmover r (h ▸ hwaits)
    obtain ⟨b, hj, -, hret⟩ := hwaits
    obtain ⟨hb, hother⟩ := hok ⟨r, j⟩ (he _ (Option.some.inj htok) hjc) b hj
    exact absurd (hret hb) hother
  · rw [hw.slot_ne r hr] at hne ⊢
    exact ⟨hne, Or.inl⟩

theorem held_step {tr : Trace (State T) (Event T)} {s s' : State T} {e : Event T}
    (hknown : ∀ c rx, Waits tr s c rx → rx < s.cb.waitlist.fresh) (hok : Undisturbed tr s e)
    (h : Trans s e s') (hi : Held tr s) : Held ((s, e) :: tr) s' := by
  cases h with
  | @start op _ _ => exact held_concat op rfl rfl hi
  | @startDropSender tx _ _ => exact held_concat (.dropSender tx) rfl rfl hi
  | @startDropReceiver rx _ _ => exact held_concat (.dropReceiver rx) rfl rfl hi
  | @repoll c rx hc =>
      refine held_move hc rfl rfl (fun r j hj hlast => ?_) (fun j hj => ?_)
        (fun r hd => by cases hd) (fun _ _ _ hne => ⟨hne, Or.inl⟩) hi
      · simp only [lastPoll] at hlast
        split at hlast
        · exact absurd (Option.some.inj hlast).symm hj
        · exact hlast
      · simp [Event.polls, Ne.symm hj]
  | @scanHit c k p ks w wl hc hw =>
      refine held_move hc rfl rfl (fun _ _ _ hlast => hlast) (fun _ _ => rfl)
        (fun r hd => by cases hd) (fun j r _ hne => ?_) hi
      rcases eq_or_ne r k with rfl | hr
      · rw [hw.slot_before]
        refine ⟨Option.some_ne_none _, fun htok => Or.inr ?_⟩
        -- the waker that was held is the one taken
        cases htok
        simp [taken_cons, Event.takes]
      · exact ⟨(hw.slot_ne r hr) ▸ hne, fun htok => Or.inl ((hw.slot_ne r hr).trans htok)⟩
  | @cloneRegister c rx pos k wl hc _ hadd =>
      refine held_move hc rfl rfl (fun _ _ _ hlast => hlast) (fun _ _ => rfl)
        (fun r hd => by cases hd) (fun j r hwaits hne => ?_) hi
      have hr : r ≠ k := by
        have := hknown j r hwaits
        rw [hadd.fresh_before] at this
        exact Nat.ne_of_lt this
      exact ⟨(hadd.slot_ne r hr) ▸ hne, fun htok => Or.inl ((hadd.slot_ne r hr).trans htok)⟩
  | @deregisterEmpty c k wl hc _ hdrop | @deregisterFull c k w wl hc _ hdrop =>
      refine held_move hc rfl rfl (fun _ _ _ hlast => hlast) (fun _ _ => rfl)
        (fun r hd => by cases hd) (fun j r hwaits hne => ?_) hi
      have hr : r ≠ k := by
        rintro rfl
        exact hne hdrop.slot_self
      exact ⟨(hdrop.slot_ne r hr) ▸ hne, fun htok => Or.inl ((hdrop.slot_ne r hr).trans htok)⟩
  | @insert c rx p old wl hc hw =>
      refine held_move hc rfl rfl (fun _ _ _ hlast => hlast) (fun _ _ => rfl) (fun r hd => ?_)
        (held_writes (c := c) hok hw (fun w hold hwc => ?_) ?_) hi
      · cases hd
        exact Or.inr hw.slot_self
      · subst hold
        simp [Event.evicts, hwc]
      · rintro r ⟨a, ha, haw, -⟩
        obtain rfl : Call.insert rx p = a := Option.some.inj (hc.symm.trans ha)
        cases haw
  | @remove c rx p r old wl hc hw =>
      refine held_move hc rfl rfl (fun _ _ _ hlast => hlast) (fun _ _ => rfl)
        (fun r hd => by cases hd) (held_writes (c := c) hok hw (fun w hold hwc => ?_) ?_) hi
      · subst hold
        simp [Event.evicts, hwc]
      · rintro r' ⟨a, ha, haw, -⟩
        obtain rfl : Call.remove rx p r = a := Option.some.inj (hc.symm.trans ha)
        cases haw
  | @load c rx l hc =>
      refine held_quiet hc rfl rfl (fun _ => rfl) (fun _ => rfl) (fun _ => rfl) (fun r hd => ?_) hi
      cases l <;> exact hd
  | @popSome c rx l _ _ hc _ | @popDisconnected c rx l hc _ =>
      refine held_quiet hc rfl rfl (fun _ => rfl) (fun _ => rfl) (fun _ => rfl) (fun r hd => ?_) hi
      cases l <;> cases hd
  | @popEmpty c rx l hc _ =>
      refine held_quiet hc rfl rfl (fun _ => rfl) (fun _ => rfl) (fun _ => rfl) (fun r hd => ?_) hi
      rcases l with _ | p | p
      · cases hd
      · cases hd
      · cases p <;> exact hd
  | @popLock c p hc | @scanEnd c p hc | @scanMiss c k p ks hc _ | @wake c p w hc =>
      exact held_quiet hc rfl rfl (fun _ => rfl) (fun _ => rfl) (fun _ => rfl)
        (fun r hd => by cases p <;> cases hd) hi
  | dropSenderLast hc _ | dropSenderMore hc _ | dropReceiverLast hc _ | dropReceiverMore hc _ =>
      exact held_quiet hc rfl rfl (fun _ => rfl) (fun _ => rfl) (fun _ => rfl)
        (fun r hd => by cases hd) hi
  | _ =>
      exact held_quiet ‹_› rfl rfl (fun _ => rfl) (fun _ => rfl) (fun _ => rfl)
        (fun r hd => by cases hd) hi

theorem held_of_run {lay : Layout} {n : Nat} {h : 0 < n} {tr : Trace (State T) (Event T)}
    {s : State T} (hrun : Runs Undisturbed lay n h tr s) : Held tr s :=
  hrun.invariant (I := Held)
    (fun c rx ⟨a, hc, _, _⟩ => by simp [State.ringChannel] at hc)
    fun _ _ _ _ hrun hi hn hok =>
      held_step (fun _ _ => lt_fresh_of_waits hrun) hok (trans_of_next hn) hi

/-- The runs with one poll at a time are undisturbed. -/
theorem undisturbed_of_onePoll {lay : Layout} {n : Nat} {h : 0 < n}
    {tr : Trace (State T) (Event T)} {s : State T} (hrun : Runs OnePoll lay n h tr s) :
    Runs Undisturbed lay n h tr s :=
  hrun.strengthen fun _ _ _ _ hrun hn _ =>
    undisturbed_of_sole (tokens_of_run hrun) (sole_of_run hrun) (trans_of_next hn)

/-! ## The receiver's last poll

What a receiver remembers is what the call of its last poll remembers. -/

theorem endpoint_of_polled {a : Call T} {rx : Nat} (h : a.polled = some rx) :
    a.endpoint = .receiver rx := by
  cases a with
  | load r l | pop r l _ => cases l <;> cases h <;> rfl
  | _ => cases h <;> rfl

theorem endpoint_of_polls {s s' : State T} {e : Event T} (h : Trans s e s') {rx c : Nat}
    (hc : e.polls c = true) (hp : e.pollsOn rx = true) :
    ∃ a, s'.calls[c]? = some a ∧ a.endpoint = .receiver rx := by
  cases h with
  | @start op _ _ =>
      simp only [Event.polls, Bool.and_eq_true, decide_eq_true_eq] at hc
      obtain ⟨rfl, -⟩ := hc
      have hpoll : op.polled = some rx := of_decide_eq_true hp
      exact ⟨op.entry, by simp, endpoint_of_polled ((entry_polled op).trans hpoll)⟩
  | @repoll d r hd =>
      obtain rfl : d = c := of_decide_eq_true hc
      obtain rfl : r = rx := of_decide_eq_true hp
      exact ⟨_, Ledger.getElem?_set_self_of _ hd, rfl⟩
  | _ => cases hp

theorem lastPoll_endpoint {ok : Trace (State T) (Event T) → State T → Event T → Prop}
    {lay : Layout} {n : Nat} {h : 0 < n} {tr : Trace (State T) (Event T)} {s : State T}
    (hrun : Runs ok lay n h tr s) : ∀ {rx c : Nat}, lastPoll rx tr = some c →
      ∃ a, s.calls[c]? = some a ∧ a.endpoint = .receiver rx := by
  induction hrun with
  | start => intro rx c hlast; cases hlast
  | @step tr s e s' hrun hn _ ih =>
      intro rx c hlast
      have htrans := trans_of_next hn
      rcases lastPoll_cases hlast with ⟨hc, hp⟩ | ⟨-, hold⟩
      · exact endpoint_of_polls htrans hc hp
      · obtain ⟨a, hc, ha⟩ := ih hold
        obtain ⟨b, hb, hba⟩ := endpoint_of_trans htrans hc
        exact ⟨b, hb, hba.trans ha⟩

/-- A waker taken since the receiver's last poll began was taken from the
receiver since then. -/
theorem takenOn_of_taken {ok : Trace (State T) (Event T) → State T → Event T → Prop}
    {lay : Layout} {n : Nat} {h : 0 < n} {tr : Trace (State T) (Event T)} {s : State T}
    (hrun : Runs ok lay n h tr s) : ∀ {rx c : Nat}, lastPoll rx tr = some c →
      taken c tr = true → takenOn rx tr = true := by
  induction hrun with
  | start => intro rx c hlast; cases hlast
  | @step tr s e s' hrun hn _ ih =>
      intro rx c hlast htaken
      have htrans := trans_of_next hn
      rw [taken_cons] at htaken
      rw [takenOn_cons]
      rcases lastPoll_cases hlast with ⟨hc, -⟩ | ⟨hp, hold⟩
      · -- the poll has only just begun
        have htake : e.takes (fun w => w.call = c) = false := by
          cases e with
          | start | repoll => rfl
          | _ => cases hc
        rw [hc, htake] at htaken
        cases htaken
      · rcases Bool.or_eq_true_iff.mp htaken with htake | hafter
        · -- the waker is that of call `c`, and call `c` is on `rx`
          cases htrans with
          | @scanHit d k p ks w wl hd hw =>
              have hwc : w.call = c := of_decide_eq_true htake
              obtain ⟨hws, a, ha, hpolled⟩ := tokens_of_run hrun k w hw.slot_before
              obtain ⟨b, hb, hbr⟩ := lastPoll_endpoint hrun hold
              rw [hwc, hb] at ha
              cases ha
              have hk : rx = k :=
                Endpoint.receiver.inj (hbr.symm.trans (endpoint_of_polled hpolled))
              simp [Event.takes, hws, hk]
          | _ => cases htake
        · rw [hp, ih hold (Bool.and_eq_true_iff.mp hafter).2]
          exact Bool.or_true _

end RingChannel
