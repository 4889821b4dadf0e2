/-
# `RingChannel.Blocking` — when a blocked `recv` may sleep on a message

A receiver that blocks in `recv` may be kept and not used again once the call
has returned, so a wake-up that it was given counts only as long as the call
will look at the buffer again.  `Matched` counts those: the pending messages are
at most as many as the scans of sends that have yet to visit the slot of a
sleeper, plus the calls whose waker was taken since they last looked and which
will look again.

One step breaks the balance.  `poll` throws away what `remove` gives back, so a
send may spend its scan on the waker of a call that has already popped its
message, or on a second waker of a call that has been given one before it
looked (`Wasteful`); `Drop` checks what `deregister` gives back for this very
reason.  In runs without that step no `recv` sleeps on a message.
-/
import RingChannel.Wakeups

namespace RingChannel

variable {T : Type}

/-! ## Clients that block -/

/-- The methods of clients that block in `recv`. -/
def Op.blocks : Op T → Bool
  | .tryRecv _ | .pollNext _ => false
  | _ => true

/-- The receiver that the method is called on. -/
def Op.receiver : Op T → Option Nat
  | .tryRecv rx | .pollNext rx | .recv rx | .cloneReceiver rx _ | .dropReceiver rx => some rx
  | _ => none

/-- The clients send, receive by blocking, clone and drop, and use each
receiver in one thread at a time. -/
def Blocking (_ : Trace (State T) (Event T)) (s : State T) (e : Event T) : Prop :=
  ∀ op ∈ e.op, op.blocks = true ∧ ∀ rx ∈ op.receiver, s.busy (.receiver rx) = false

instance (tr : Trace (State T) (Event T)) (s : State T) (e : Event T) :
    Decidable (Blocking tr s e) :=
  inferInstanceAs (Decidable (∀ op ∈ e.op, _))

theorem onePoll_of_blocking {ok : Trace (State T) (Event T) → State T → Event T → Prop}
    {lay : Layout} {n : Nat} {h : 0 < n} {tr : Trace (State T) (Event T)} {s : State T}
    (hok : ∀ tr s e, ok tr s e → Blocking tr s e) (hrun : Runs ok lay n h tr s) :
    Runs OnePoll lay n h tr s :=
  hrun.weaken fun tr s e hrule op hop rx hpoll a ha hpolled => by
    have hidle := (hok tr s e hrule op hop).2 rx (by cases op <;> cases hpoll <;> rfl)
    obtain ⟨c, hc⟩ := List.mem_iff_getElem?.mp ha
    cases hret : a.returned with
    | true => rfl
    | false => exact absurd (endpoint_of_polled hpolled) (not_busy hidle hc hret)

namespace Call

/-- The call is, or was, a poll of a stream. -/
def streaming : Call T → Bool
  | .load _ (.first .pollNext) | .load _ (.again .pollNext) => true
  | .pop _ (.first .pollNext) _ | .pop _ (.again .pollNext) _ => true
  | .insert _ .pollNext | .remove _ .pollNext _ | .pending _ | .ready _ .pollNext _ => true
  | _ => false

/-- The call has looked at the buffer in the poll that it is in the middle of
or that it sleeps on. -/
def looked : Call T → Bool
  | .insert .. | .load _ (.again _) | .pop _ (.again _) _ | .parked _ => true
  | _ => false

/-- The call will look at the buffer before it returns. -/
def mayLook : Call T → Bool
  | .load _ (.first _) | .load _ (.again _) | .pop _ (.first _) _ | .pop _ (.again _) _ => true
  | .insert .. | .parked _ => true
  | _ => false

/-- A send that will visit slot `k`. -/
def scans (k : Nat) : Call T → Nat
  | .popLock (.send ..) => 1
  | .popScan (.send ..) ks => if k ∈ ks then 1 else 0
  | _ => 0

/-- A send is visiting the slots. -/
def sending : Call T → Bool
  | .popScan (.send ..) _ => true
  | _ => false

/-- The call has its answer and is about to withdraw its waker. -/
def withdraws : Call T → Bool
  | .remove .. => true
  | _ => false

end Call

theorem streaming_before {s s' : State T} {e : Event T} (h : Trans s e s') {j : Nat} {b : Call T}
    (hj : s'.calls[j]? = some b) (hb : b.streaming = true) :
    (∃ a, s.calls[j]? = some a ∧ a.streaming = true) ∨ ∃ rx, e.op = some (.pollNext rx) := by
  have hset : ∀ {c : Nat} {a d : Call T}, s.calls[c]? = some a →
      (d.streaming = true → a.streaming = true) → (s.calls.set c d)[j]? = some b →
      (∃ a, s.calls[j]? = some a ∧ a.streaming = true) ∨ ∃ rx, e.op = some (.pollNext rx) := by
    intro c a d hc hd hset
    rcases Ledger.getElem?_set_cases hset with ⟨rfl, rfl⟩ | ⟨-, hold⟩
    · exact Or.inl ⟨a, hc, hd hb⟩
    · exact Or.inl ⟨b, hold, hb⟩
  cases h with
  | @start op _ _ =>
      rcases Ledger.getElem?_concat_cases hj with ⟨-, rfl⟩ | hold
      · cases op with
        | pollNext rx => exact Or.inr ⟨rx, rfl⟩
        | _ => cases hb
      · exact Or.inl ⟨b, hold, hb⟩
  | startDropSender | startDropReceiver =>
      rcases Ledger.getElem?_concat_cases hj with ⟨-, rfl⟩ | hold
      · cases hb
      · exact Or.inl ⟨b, hold, hb⟩
  | @scanEnd _ p hc | @wake _ p _ hc => exact hset hc (fun hd => by cases p <;> cases hd) hj
  | @load _ _ l hc =>
      exact hset hc (fun hd => by rcases l with _ | ⟨_ | _⟩ | ⟨_ | _⟩ <;> exact hd) hj
  | @popSome _ _ l _ _ hc _ | @popEmpty _ _ l hc _ | @popDisconnected _ _ l hc _ =>
      exact hset hc (fun hd => by rcases l with _ | ⟨_ | _⟩ | ⟨_ | _⟩ <;> first | rfl | cases hd) hj
  | @insert _ _ p _ _ hc _ => exact hset hc (fun hd => by cases p <;> exact hd) hj
  | @remove _ _ p _ _ _ hc _ => exact hset hc (fun hd => by cases p <;> exact hd) hj
  | dropSenderLast hc _ | dropSenderMore hc _ | dropReceiverLast hc _ | dropReceiverMore hc _ =>
      exact hset hc (fun hd => by cases hd) hj
  | _ => exact hset ‹_› (fun hd => by cases hd) hj

/-- Clients that never call `poll_next` have no call pending in one. -/
theorem not_streaming_of_run {ok : Trace (State T) (Event T) → State T → Event T → Prop}
    {lay : Layout} {n : Nat} {h : 0 < n} {tr : Trace (State T) (Event T)} {s : State T}
    (hok : ∀ tr s e, ok tr s e → ∀ rx, e.op ≠ some (.pollNext rx)) (hrun : Runs ok lay n h tr s) :
    ∀ (c : Nat) (a : Call T), s.calls[c]? = some a → a.streaming = false := by
  induction hrun with
  | start => intro c a hc; simp [State.ringChannel] at hc
  | step _ hn hrule ih =>
      intro c a hc
      cases hs : a.streaming with
      | false => rfl
      | true =>
          rcases streaming_before (trans_of_next hn) hc hs with ⟨b, hb, hbs⟩ | ⟨rx, hop⟩
          · rw [ih c b hb] at hbs
            cases hbs
          · exact absurd hop (hok _ _ _ hrule rx)

/-! ## Since the call last looked -/

/-- Call `c` looks at the buffer. -/
def Event.looks (c : Nat) : Event T → Bool
  | .pop d _ _ => d = c
  | _ => false

/-- A waker of call `c` has been taken since it last looked at the buffer. -/
def owes (c : Nat) (tr : Trace (State T) (Event T)) : Bool :=
  since (Event.takes fun w => w.call = c) (Event.looks c) tr

theorem owes_cons (c : Nat) (s : State T) (e : Event T) (tr : Trace (State T) (Event T)) :
    owes c ((s, e) :: tr) = (e.takes (fun w => w.call = c) || (!e.looks c && owes c tr)) := rfl

/-- Who is past the first look of a poll has looked since the poll began. -/
def Looked (tr : Trace (State T) (Event T)) (s : State T) : Prop :=
  ∀ (c : Nat) (a : Call T), s.calls[c]? = some a → a.looked = true →
    since (Event.looks c) (Event.polls c) tr = true

theorem looked_step {tr : Trace (State T) (Event T)} {s s' : State T} {e : Event T}
    (h : Trans s e s') (hi : Looked tr s) : Looked ((s, e) :: tr) s' := by
  have hset : ∀ {c : Nat} {a d : Call T}, s.calls[c]? = some a →
      (∀ j, j ≠ c → e.polls j = false) →
      (d.looked = true → e.looks c = true ∨ a.looked = true ∧ e.polls c = false) →
      ∀ (j : Nat) (b : Call T), (s.calls.set c d)[j]? = some b → b.looked = true →
        since (Event.looks j) (Event.polls j) ((s, e) :: tr) = true := by
    intro c a d hc hpolls hd j b hj hb
    rw [since_cons]
    rcases Ledger.getElem?_set_cases hj with ⟨rfl, rfl⟩ | ⟨hne, hold⟩
    · rcases hd hb with hl | ⟨ha, hp⟩
      · rw [hl]
        rfl
      · rw [hp, hi j a hc ha]
        simp
    · rw [hpolls j hne, hi j b hold hb]
      simp
  cases h with
  | @start op _ _ =>
      intro j b hj hb
      rw [since_cons]
      rcases Ledger.getElem?_concat_cases hj with ⟨-, rfl⟩ | hold
      · cases op <;> cases hb
      · have hne : s.calls.length ≠ j :=
          (Nat.ne_of_lt (List.getElem?_eq_some_iff.mp hold).1).symm
        rw [hi j b hold hb]
        simp [Event.polls, hne]
  | startDropSender | startDropReceiver =>
      intro j b hj hb
      rw [since_cons]
      rcases Ledger.getElem?_concat_cases hj with ⟨-, rfl⟩ | hold
      · cases hb
      · rw [hi j b hold hb]
        simp [Event.polls, Op.polled]
  | @repoll c rx hc =>
      exact hset hc (fun j hj => by simp [Event.polls, Ne.symm hj]) (fun hd => by cases hd)
  | popSome hc _ | popEmpty hc _ | popDisconnected hc _ =>
      exact hset hc (fun _ _ => rfl) (fun _ => Or.inl (by simp [Event.looks]))
  | insert hc _ => exact hset hc (fun _ _ => rfl) (fun _ => Or.inr ⟨rfl, rfl⟩)
  | @load c rx l hc =>
      refine hset hc (fun _ _ => rfl) (fun hd => Or.inr ⟨?_, rfl⟩)
      cases l <;> exact hd
  | @scanEnd c p hc | @wake c p _ hc =>
      exact hset hc (fun _ _ => rfl) (fun hd => by cases p <;> cases hd)
  | dropSenderLast hc _ | dropSenderMore hc _ | dropReceiverLast hc _ | dropReceiverMore hc _ =>
      exact hset hc (fun _ _ => rfl) (fun hd => by cases hd)
  | _ => exact hset ‹_› (fun _ _ => rfl) (fun hd => by cases hd)

theorem looked_of_run {ok : Trace (State T) (Event T) → State T → Event T → Prop} {lay : Layout}
    {n : Nat} {h : 0 < n} {tr : Trace (State T) (Event T)} {s : State T}
    (hrun : Runs ok lay n h tr s) : Looked tr s :=
  hrun.invariant (I := Looked) (fun c a hc => by simp [State.ringChannel] at hc)
    fun _ _ _ _ _ hi hn _ => looked_step (trans_of_next hn) hi

/-! ## The balance -/

/-- The look at the buffer that call `c` owes for the waker taken from it. -/
def debt (tr : Trace (State T) (Event T)) (c : Nat) (a : Call T) : Nat :=
  (owes c tr && a.mayLook).toNat

/-- What the sends and the calls that were notified still have to do for
whoever sleeps on slot `k`. -/
def notices (tr : Trace (State T) (Event T)) (s : State T) (k : Nat) : Nat :=
  s.count (Call.scans k) + Ledger.total (debt tr) s.calls

def Matched (tr : Trace (State T) (Event T)) (s : State T) : Prop :=
  ∀ (k : Nat) (w : Waker) (b : Call T), s.cb.waitlist.slot k = some (some w) →
    s.calls[w.call]? = some b → b.dozes = true →
    s.cb.buffer.contents.length ≤ notices tr s k

/-- A call other than that of `w` sleeps with its waker in its slot. -/
def State.othersSleep (s : State T) (w : Waker) : Bool :=
  s.cb.waitlist.keys.any fun k =>
    match s.cb.waitlist.slot k with
    | some (some v) => v.call ≠ w.call && s.calls[v.call]?.any Call.dozes
    | _ => false

/-- A send spends its scan for nothing, although a message is pending and
somebody else sleeps: the call whose waker it takes has its answer already, or
has been given a waker that it has not yet looked for. -/
def Wasteful (tr : Trace (State T) (Event T)) (s : State T) : Event T → Bool
  | .take c w =>
      s.calls[c]?.any Call.sending && !s.cb.buffer.contents.isEmpty && s.othersSleep w &&
        (s.calls[w.call]?.any Call.withdraws || owes w.call tr)
  | _ => false

theorem othersSleep_of {s : State T} {w v : Waker} {k : Nat} {b : Call T}
    (hk : s.cb.waitlist.slot k = some (some v)) (hne : v.call ≠ w.call)
    (hb : s.calls[v.call]? = some b) (hd : b.dozes = true) : s.othersSleep w = true := by
  refine List.any_eq_true.mpr ⟨k, Waitlist.mem_keys_of_slot hk, ?_⟩
  simp [hk, hne, hb, hd]

/-- A step keeps the balance if it does so wherever somebody keeps sleeping. -/
theorem matched_of_trans {tr : Trace (State T) (Event T)} {s s' : State T} {e : Event T}
    (h : Trans s e s')
    (hbal : ∀ (k : Nat) (w : Waker) (b : Call T), s'.cb.waitlist.slot k = some (some w) →
      s.cb.waitlist.slot k = some (some w) → s.calls[w.call]? = some b → b.dozes = true →
      s'.cb.buffer.contents ≠ [] →
      s'.cb.buffer.contents.length + notices tr s k
        ≤ s.cb.buffer.contents.length + notices ((s, e) :: tr) s' k)
    (hi : Matched tr s) : Matched ((s, e) :: tr) s' :=
  bound_of_trans (notices tr s) (notices ((s, e) :: tr) s') h hbal hi

theorem not_returned_of_mayLook {a : Call T} (h : a.mayLook = true) : a.returned = false := by
  unfold Call.mayLook at h
  split at h <;> first | rfl | cases h

theorem debt_le_one (tr : Trace (State T) (Event T)) (c : Nat) (a : Call T) :
    debt tr c a ≤ 1 := Bool.toNat_le _

theorem debt_of_not_mayLook {a : Call T} (h : a.mayLook = false)
    (tr : Trace (State T) (Event T)) (c : Nat) : debt tr c a = 0 := by
  simp [debt, h]

/-- An event that takes no waker leaves the debts alone, except that of the
call that looks. -/
theorem owes_same {tr : Trace (State T) (Event T)} {s : State T} {e : Event T} {j : Nat}
    (htake : ∀ f, e.takes f = false) (hlook : e.looks j = false) :
    owes j ((s, e) :: tr) = owes j tr := by
  rw [owes_cons, htake, hlook]
  exact Bool.true_and _

/-- A call moves without taking a waker. -/
theorem matched_move {tr : Trace (State T) (Event T)} {s s' : State T} {e : Event T} {c : Nat}
    {a d : Call T} (h : Trans s e s') (hc : s.calls[c]? = some a)
    (hcalls : s'.calls = s.calls.set c d) (htake : ∀ f, e.takes f = false)
    (hlook : ∀ j, j ≠ c → e.looks j = false)
    (hbal : ∀ (k : Nat) (w : Waker), s.cb.waitlist.slot k = some (some w) →
      s'.cb.buffer.contents ≠ [] →
      s'.cb.buffer.contents.length + a.scans k + debt tr c a
        ≤ s.cb.buffer.contents.length + d.scans k + debt ((s, e) :: tr) c d)
    (hi : Matched tr s) : Matched ((s, e) :: tr) s' := by
  refine matched_of_trans h (fun k w b _ hk _ _ hne => ?_) hi
  have hcount := count_set (Call.scans k) hc hcalls
  have hdebt := Ledger.total_set d (f := debt tr) (g := debt ((s, e) :: tr)) hc
    (fun j x hj _ => by simp only [debt, owes_same htake (hlook j hj)])
  have := hbal k w hk hne
  unfold notices
  rw [hcalls]
  omega

/-- A call moves without taking a waker or looking at the buffer. -/
theorem matched_blind {tr : Trace (State T) (Event T)} {s s' : State T} {e : Event T} {c : Nat}
    {a d : Call T} (h : Trans s e s') (hc : s.calls[c]? = some a)
    (hcalls : s'.calls = s.calls.set c d) (htake : ∀ f, e.takes f = false)
    (hlook : ∀ j, e.looks j = false) (hmay : a.mayLook = true → d.mayLook = true)
    (hbal : ∀ (k : Nat) (w : Waker), s.cb.waitlist.slot k = some (some w) →
      s'.cb.buffer.contents.length + a.scans k ≤ s.cb.buffer.contents.length + d.scans k)
    (hi : Matched tr s) : Matched ((s, e) :: tr) s' :=
  matched_move h hc hcalls htake (fun j _ => hlook j) (fun k w hk _ => by
    have := hbal k w hk
    have : debt tr c a ≤ debt ((s, e) :: tr) c d := by
      simp only [debt, owes_same htake (hlook c)]
      cases ha : a.mayLook with
      | false => simp
      | true => exact Nat.le_of_eq (by rw [hmay ha])
    omega) hi

theorem matched_concat {tr : Trace (State T) (Event T)} {s s' : State T} {e : Event T}
    (op : Op T) (h : Trans s e s') (htake : ∀ f, e.takes f = false)
    (hlook : ∀ j, e.looks j = false) (hcalls : s'.calls = s.calls ++ [op.entry])
    (hcb : s'.cb = s.cb) (hi : Matched tr s) : Matched ((s, e) :: tr) s' := by
  refine matched_of_trans h (fun k w b _ _ _ _ _ => ?_) hi
  have hcount := count_append (Call.scans k) hcalls
  have hdebt := Ledger.total_concat op.entry (f := debt tr) (g := debt ((s, e) :: tr))
    (l := s.calls) (fun j x _ => by simp only [debt, owes_same htake (hlook j)])
  unfold notices
  rw [hcount, hcalls, hdebt, hcb]
  omega

theorem answered_mayLook (rx : Nat) (l : Look) (m : T) :
    (l.answered rx (.ok m)).mayLook = false ∧
      ∀ k, (l.answered rx (.ok m)).scans k = 0 := by
  rcases l with _ | p | ⟨_ | _⟩ <;> exact ⟨rfl, fun _ => rfl⟩

/-- A scan that is not wasted hands its credit to the call that it wakes. -/
theorem matched_take {tr : Trace (State T) (Event T)} {s s' : State T} {c k : Nat}
    {p : Waking T} {ks : List Nat} {v : Waker} {wl : Waitlist Waker} (ht : Tokens s)
    (hstream : ∀ (c : Nat) (a : Call T), s.calls[c]? = some a → a.streaming = false)
    (hok : Wasteful tr s (.take c v) = false)
    (hc : s.calls[c]? = some (.popScan p (k :: ks)))
    (hw : s.cb.waitlist.Writes k (some v) none wl)
    (hs' : s' = s.move c (.wake p v) { s.cb with waitlist := wl.unlock })
    (h : Trans s (.take c v) s') (hi : Matched tr s) : Matched ((s, .take c v) :: tr) s' := by
  subst hs'
  refine matched_of_trans h (fun j w b hj' hj hb hd hne => ?_) hi
  have hjk : j ≠ k := (hw.full_before hj').1
  have hcount := count_move (Call.scans j) (.wake p v) { s.cb with waitlist := wl.unlock } hc
  obtain ⟨hvk, a, ha, hpolled⟩ := ht k v hw.slot_before
  -- the mover owes nothing, and only the call whose waker is taken owes more
  have hmover := Ledger.total_set (.wake p v : Call T) (f := debt ((s, .take c v) :: tr))
    (g := debt ((s, .take c v) :: tr)) hc (fun _ _ _ _ => rfl)
  have hzero : debt ((s, .take c v) :: tr) c (.popScan p (k :: ks)) = 0 ∧
      debt ((s, .take c v) :: tr) c (.wake p v) = 0 :=
    ⟨debt_of_not_mayLook rfl _ _, debt_of_not_mayLook rfl _ _⟩
  have hother := Ledger.total_at (f := debt tr) (g := debt ((s, .take c v) :: tr)) ha
    (fun i x hi' _ => by
      have : decide (v.call = i) = false := decide_eq_false (Ne.symm hi')
      simp [debt, owes_cons, Event.takes, Event.looks, this])
  have hnow : debt ((s, .take c v) :: tr) v.call a = a.mayLook.toNat := by
    simp [debt, owes_cons, Event.takes]
  have hgain : (Call.popScan p (k :: ks) : Call T).scans j + debt tr v.call a
      ≤ a.mayLook.toNat := by
    cases p with
    | dropSender | dropReceiver =>
        have : debt tr v.call a ≤ a.mayLook.toNat := by
          unfold debt
          cases a.mayLook <;> cases owes v.call tr <;> decide
        simpa [Call.scans] using this
    | send tx m =>
        -- somebody else sleeps and a message is pending, so the scan is not wasted
        have hvw : w.call ≠ v.call := by
          intro hwv
          obtain ⟨-, x, hx, hxp⟩ := ht j w hj
          rw [hwv, ha] at hx
          obtain rfl : a = x := Option.some.inj hx
          exact hjk (Option.some.inj (hxp.symm.trans hpolled))
        have hpend : s.cb.buffer.contents.isEmpty = false := by
          cases hnil : s.cb.buffer.contents with
          | nil => exact absurd hnil hne
          | cons => rfl
        simp only [Wasteful, hc, ha, Option.any_some, Call.sending, hpend, Bool.not_false,
          othersSleep_of hj hvw hb hd, Bool.true_and, Bool.or_eq_false_iff] at hok
        have hmay : a.mayLook = true := by
          have hst := hstream v.call a ha
          cases a with
          | load r l => rcases l with _ | _ | _ <;> first | rfl | cases hpolled
          | pop r l _ => rcases l with _ | _ | _ <;> first | rfl | cases hpolled
          | insert | parked => rfl
          | remove => cases hok.1
          | pending => cases hst
          | _ => cases hpolled
        have hdebt : debt tr v.call a = 0 := by simp [debt, hok.2]
        rw [hmay, hdebt]
        simp only [Call.scans, Bool.toNat_true]
        split <;> omega
  have hwake : (Call.wake p v : Call T).scans j = 0 := rfl
  show s.cb.buffer.contents.length + _ ≤ _
    + ((s.move c (.wake p v) { s.cb with waitlist := wl.unlock }).count (Call.scans j)
      + Ledger.total (debt ((s, .take c v) :: tr)) (s.calls.set c (.wake p v)))
  unfold notices
  omega

theorem matched_step {tr : Trace (State T) (Event T)} {s s' : State T} {e : Event T}
    (ht : Tokens s)
    (hstream : ∀ (c : Nat) (a : Call T), s.calls[c]? = some a → a.streaming = false)
    (hok : Wasteful tr s e = false) (h : Trans s e s') (hi : Matched tr s) :
    Matched ((s, e) :: tr) s' := by
  have htrans := h
  cases h with
  | @start op _ _ => exact matched_concat op htrans (fun _ => rfl) (fun _ => rfl) rfl rfl hi
  | @startDropSender tx _ _ =>
      exact matched_concat (.dropSender tx) htrans (fun _ => rfl) (fun _ => rfl) rfl rfl hi
  | @startDropReceiver rx _ _ =>
      exact matched_concat (.dropReceiver rx) htrans (fun _ => rfl) (fun _ => rfl) rfl rfl hi
  | pushNew hc hpush =>
      refine matched_blind htrans hc rfl (fun _ => rfl) (fun _ => rfl) (fun ha => by cases ha)
        (fun k w _ => ?_) hi
      simp only [State.move_cb, Call.scans, RingBuffer.contents_of_push_none hpush,
        List.length_append, List.length_cons, List.length_nil]
      omega
  | pushOver hc hpush =>
      obtain ⟨hbefore, hafter⟩ := RingBuffer.contents_of_push_some hpush
      refine matched_blind htrans hc rfl (fun _ => rfl) (fun _ => rfl) (fun ha => by cases ha)
        (fun k w _ => ?_) hi
      rw [hbefore]
      simp only [State.move_cb, Call.scans, hafter, List.length_append, List.length_cons,
        List.length_nil]
      omega
  | @popLock c p hc =>
      refine matched_blind htrans hc rfl (fun _ => rfl) (fun _ => rfl) (fun ha => by cases ha)
        (fun k w hk => ?_) hi
      have := Waitlist.mem_keys_of_slot hk
      cases p <;> simp [Call.scans, this]
  | @scanEnd c p hc =>
      refine matched_blind htrans hc rfl (fun _ => rfl) (fun _ => rfl) (fun ha => by cases ha)
        (fun k w _ => ?_) hi
      cases p <;> simp [Call.scans, Waking.afterNone]
  | @scanMiss c k p ks hc hmiss =>
      refine matched_blind htrans hc rfl (fun _ => rfl) (fun _ => rfl) (fun ha => by cases ha)
        (fun j w hj => ?_) hi
      have hjk : j ≠ k := fun h => hmiss w (h ▸ hj)
      cases p <;> simp [Call.scans, hjk]
  | scanHit hc hw => exact matched_take ht hstream hok hc hw rfl htrans hi
  | @wake c p v hc =>
      refine matched_blind htrans hc rfl (fun _ => rfl) (fun _ => rfl) (fun ha => by cases ha)
        (fun k w _ => ?_) hi
      cases p <;> exact Nat.le_refl _
  | @popSome c rx l b m hc hpop =>
      -- the message leaves, and the debt of the call that popped it with it
      obtain ⟨hmay, hscans⟩ := answered_mayLook (T := T) rx l m
      refine matched_move htrans hc rfl (fun _ => rfl)
        (fun j hj => by simp [Event.looks, Ne.symm hj]) (fun k w _ _ => ?_) hi
      have := debt_le_one tr c (.pop rx l b : Call T)
      rw [debt_of_not_mayLook hmay, hscans, RingBuffer.contents_of_pop_some hpop]
      simp only [State.move_cb, Call.scans, List.length_cons]
      omega
  | popEmpty hc hpop | popDisconnected hc hpop =>
      exact matched_move htrans hc rfl (fun _ => rfl)
        (fun j hj => by simp [Event.looks, Ne.symm hj])
        (fun k w hk hne => absurd (RingBuffer.contents_of_pop_none hpop).2 hne) hi
  | @load c rx l hc =>
      refine matched_blind htrans hc rfl (fun _ => rfl) (fun _ => rfl) (fun ha => ?_)
        (fun k w _ => ?_) hi
      · cases l <;> exact ha
      · exact Nat.le_refl _
  | insert hc _ =>
      exact matched_blind htrans hc rfl (fun _ => rfl) (fun _ => rfl) (fun _ => rfl)
        (fun k w _ => Nat.le_refl _) hi
  | repoll hc =>
      exact matched_blind htrans hc rfl (fun _ => rfl) (fun _ => rfl) (fun _ => rfl)
        (fun k w _ => Nat.le_refl _) hi
  | dropSenderLast hc _ | dropSenderMore hc _ | dropReceiverLast hc _ | dropReceiverMore hc _ =>
      exact matched_blind htrans hc rfl (fun _ => rfl) (fun _ => rfl) (fun ha => by cases ha)
        (fun k w _ => Nat.le_refl _) hi
  | _ =>
      refine matched_blind htrans ‹_› rfl (fun _ => rfl) (fun _ => rfl) (fun ha => by cases ha)
        (fun k w _ => ?_) hi
      exact Nat.le_refl _

/-! ## What the balance gives, and a run that breaks it -/

/-- The call is a parked `recv`. -/
def Call.asleep : Call T → Bool
  | .parked _ => true
  | _ => false

/-- When every method has returned or is a parked `recv`, and a message is
pending, one of the parked calls has been woken since its last poll began. -/
def Attended (tr : Trace (State T) (Event T)) (s : State T) : Prop :=
  (∀ a ∈ s.calls, a.returned = true ∨ a.asleep = true) → s.cb.buffer.contents ≠ [] →
    (∃ c rx : Nat, s.calls[c]? = some (.parked rx)) →
    ∃ c rx : Nat, s.calls[c]? = some (.parked rx) ∧ woken c tr = true

/-- Receiver 1 parks.  Receiver 0 finds the buffer empty; a send pushes 10 and
takes the waker of receiver 1; receiver 0 inserts its own waker and then pops
10.  Receiver 1 is polled again, finds nothing and parks.  Before receiver 0
withdraws its waker, another send pushes 20 and takes it. -/
def takeSpent : List (Act Nat) :=
  .start (.cloneReceiver 0 1) :: List.replicate 2 (.run 0) ++
    .start (.recv 1) :: List.replicate 5 (.run 1) ++
    .start (.recv 0) :: List.replicate 2 (.run 2) ++
    .start (.send 0 10) :: List.replicate 6 (.run 3) ++
    List.replicate 3 (.run 2) ++
    .unpark 1 :: List.replicate 5 (.run 1) ++
    .start (.send 0 20) :: List.replicate 5 (.run 4) ++
    [.run 2]

theorem not_attended_in_takeSpent :
    ¬ ∀ tr s, Runs (Blocking (T := Nat)) ⟨true, true⟩ 2 Nat.two_pos tr s → Attended tr s := by
  intro hall
  have hcalls : (schedule (Blocking (T := Nat)) ⟨true, true⟩ 2 Nat.two_pos takeSpent).2.calls
      = [.clonedReceiver 0, .parked 1, .ready 0 .recv (some 10), .sent 0 10 (.ok none),
        .sent 0 20 (.ok none)] := by decide
  have hpending : (schedule (Blocking (T := Nat)) ⟨true, true⟩ 2 Nat.two_pos
      takeSpent).2.cb.buffer.contents ≠ [] := by decide
  obtain ⟨c, rx, hc, hwoken⟩ := hall _ _ (runs_schedule _ _ _ _ takeSpent) (by rw [hcalls]; decide)
    hpending ⟨1, 1, by rw [hcalls]; rfl⟩
  rw [hcalls] at hc
  -- call 1 is the only parked one
  obtain rfl : c = 1 := by
    rcases c with _ | _ | _ | _ | _ | c <;> first | rfl | cases hc
  revert hwoken
  decide

/-- The clients block, and no send spends its scan for nothing while a message
is pending and somebody else sleeps. -/
def Thrifty (tr : Trace (State T) (Event T)) (s : State T) (e : Event T) : Prop :=
  Blocking tr s e ∧ Wasteful tr s e = false

instance (tr : Trace (State T) (Event T)) (s : State T) (e : Event T) :
    Decidable (Thrifty tr s e) :=
  inferInstanceAs (Decidable (_ ∧ _))

theorem not_pollNext_of_thrifty {tr : Trace (State T) (Event T)} {s : State T} {e : Event T}
    (h : Thrifty tr s e) (rx : Nat) : e.op ≠ some (.pollNext rx) := by
  intro hop
  cases (h.1 _ hop).1

theorem matched_of_run {lay : Layout} {n : Nat} {h : 0 < n} {tr : Trace (State T) (Event T)}
    {s : State T} (hrun : Runs Thrifty lay n h tr s) : Matched tr s :=
  hrun.invariant (I := Matched) (fun k w b _ hb => by simp [State.ringChannel] at hb)
    fun _ _ _ _ hrun hi hn hok =>
      matched_step (tokens_of_run hrun)
        (not_streaming_of_run (fun _ _ _ h => not_pollNext_of_thrifty h) hrun) hok.2
        (trans_of_next hn) hi

/-- In thrifty runs no `recv` sleeps on a pending message. -/
theorem attended_of_thrifty {lay : Layout} {n : Nat} {h : 0 < n}
    {tr : Trace (State T) (Event T)} {s : State T} (hrun : Runs Thrifty lay n h tr s) :
    Attended tr s := by
  rintro hquiet hpending ⟨c, rx, hc⟩
  have hwf := wf_of_run hrun
  -- with nobody about to invoke a waker, a taken waker has been invoked
  have hwoken : ∀ j, taken j tr = true → woken j tr = true := by
    intro j hj
    rcases woken_of_taken hrun _ _ hj with hw | ⟨d, p, w, hd, -⟩
    · exact hw
    · rcases hquiet _ (List.mem_of_getElem? hd) with h | h <;> cases h
  have hone := onePoll_of_blocking (fun _ _ _ h => And.left h) hrun
  have hslot := slot_of_usable hwf rx (hwf.borrowed c _ hc rfl)
  rcases held_of_run (undisturbed_of_onePoll hone) c rx
    ⟨_, hc, rfl, fun h => by cases h⟩ hslot with hheld | htaken
  · have hle := matched_of_run hrun rx ⟨rx, c⟩ _ hheld hc rfl
    have hpos := List.length_pos_of_ne_nil hpending
    have hscans : s.count (Call.scans rx) = 0 := count_eq_zero fun j a hj => by
      rcases hquiet a (List.mem_of_getElem? hj) with h | h
      · cases a <;> first | rfl | cases h
      · cases a <;> first | rfl | cases h
    unfold notices at hle
    obtain ⟨j, a, hj, hdebt⟩ := Ledger.exists_of_total_pos (f := debt tr) (l := s.calls) (by omega)
    obtain ⟨howes, hmay⟩ : owes j tr = true ∧ a.mayLook = true := by
      unfold debt at hdebt
      cases h₁ : owes j tr <;> cases h₂ : a.mayLook <;> simp [h₁, h₂] at hdebt ⊢
    -- whoever owes a look and is not in the middle of a poll is parked
    obtain ⟨r, rfl⟩ : ∃ r, a = .parked r := by
      rcases hquiet a (List.mem_of_getElem? hj) with h | h
      · rw [not_returned_of_mayLook hmay] at h
        cases h
      · cases a with
        | parked r => exact ⟨r, rfl⟩
        | _ => cases h
    exact ⟨j, r, hj, hwoken j (since_trans howes (looked_of_run hrun j _ hj rfl))⟩
  · exact ⟨c, rx, hc, hwoken c htaken⟩

/-- Two receivers park, and a send wakes the first. -/
def parkBothAndSend : List (Act Nat) :=
  .start (.cloneReceiver 0 1) :: List.replicate 2 (.run 0) ++
    .start (.recv 0) :: List.replicate 5 (.run 1) ++
    .start (.recv 1) :: List.replicate 5 (.run 2) ++
    .start (.send 0 10) :: List.replicate 5 (.run 3)

theorem attended_in_parkBothAndSend :
    let r := schedule Thrifty ⟨true, true⟩ 1 Nat.one_pos parkBothAndSend
    r.2.calls = [.clonedReceiver 0, .parked 0, .parked 1, .sent 0 10 (.ok none)] ∧
      ∃ c rx : Nat, r.2.calls[c]? = some (.parked rx) ∧ woken c r.1 = true :=
  ⟨by decide, attended_of_thrifty (runs_schedule ..) (by decide) (by decide)
    ⟨1, 0, by decide⟩⟩

end RingChannel
