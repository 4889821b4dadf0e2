/-
# `RingChannel.Conservation` — no waker is lost, and none is kept too long

`Whereabouts` holds of every run: an inserted waker is in one condition at a
time.  What the conditions are worth depends on who polls.  Two polls of one
receiver that overlap share its slot, and either may throw out the waker of the
other; so the rule here is `Exclusive`: no poll of a receiver begins while
another one is in progress.  It asks nothing of a `recv` that is parked, which
polls nothing until it is woken.

Under that rule the poll in progress is the last one of its receiver (`Turn`),
and what the slot has seen since that poll began depends only on how far it has
come (`Suits`): nothing yet; its own waker, which is still there or was taken to
be invoked; or a withdrawal, after which the slot is empty.
-/
import RingChannel.Answers
import RingChannel.Bookkeeping
import RingChannel.Whereabouts

namespace RingChannel

variable {T : Type}

/-! ## Who pops -/

/-- The drop of the receiver has given its key back, and pops. -/
def Call.departed : Call T → Option Nat
  | .popLock (.dropReceiver rx) | .popScan (.dropReceiver rx) _ => some rx
  | _ => none

def Departed (tr : Trace (State T) (Event T)) (s : State T) : Prop :=
  ∀ (c : Nat) (a : Call T) (rx : Nat), s.calls[c]? = some a → a.departed = some rx →
    rx ∈ givenBack tr

theorem entry_departed (op : Op T) : op.entry.departed = none := by
  cases op <;> rfl

theorem answered_departed (rx : Nat) (l : Look) (r : Except TryRecvError T) :
    (l.answered rx r).departed = none := by
  rcases l with _ | p | ⟨_ | _⟩ <;> rcases r with (_ | _) | m <;> rfl

theorem departed_step {tr : Trace (State T) (Event T)} {s s' : State T} {e : Event T}
    (h : Trans s e s') (hi : Departed tr s) : Departed ((s, e) :: tr) s' := by
  intro j b rx hj hb
  have hold : ∀ {a : Call T}, s.calls[j]? = some a → a.departed = some rx →
      rx ∈ givenBack ((s, e) :: tr) := fun hja ha =>
    List.mem_append_right _ (hi j _ rx hja ha)
  have hset : ∀ {c : Nat} {a d : Call T}, s.calls[c]? = some a →
      (d.departed = some rx → a.departed = some rx) →
      (s.calls.set c d)[j]? = some b → rx ∈ givenBack ((s, e) :: tr) := by
    intro c a d hc hd hset
    rcases Ledger.getElem?_set_cases hset with ⟨rfl, rfl⟩ | ⟨-, hja⟩
    · exact hold hc (hd hb)
    · exact hold hja hb
  cases h with
  | @start op _ _ =>
      rcases Ledger.getElem?_concat_cases hj with ⟨-, rfl⟩ | hja
      · rw [entry_departed] at hb
        cases hb
      · exact hold hja hb
  | startDropSender | startDropReceiver =>
      rcases Ledger.getElem?_concat_cases hj with ⟨-, rfl⟩ | hja
      · cases hb
      · exact hold hja hb
  | @deregisterEmpty c r wl hc _ _ =>
      rcases Ledger.getElem?_set_cases hj with ⟨-, rfl⟩ | ⟨-, hja⟩
      · cases hb
        exact List.mem_cons_self
      · exact hold hja hb
  | @popLock c p hc | @scanMiss c k p ks hc _ =>
      exact hset hc (fun hd => by cases p <;> exact hd) hj
  | @scanEnd c p hc | @wake c p w hc =>
      exact hset hc (fun hd => by cases p <;> cases hd) hj
  | popSome hc _ | popEmpty hc _ | popDisconnected hc _ =>
      exact hset hc (fun hd => by rw [answered_departed] at hd; cases hd) hj
  | dropSenderLast hc _ | dropSenderMore hc _ | dropReceiverLast hc _ | dropReceiverMore hc _ =>
      exact hset hc (fun hd => by cases hd) hj
  | _ => exact hset ‹_› (fun hd => by cases hd) hj

theorem departed_of_run {ok : Trace (State T) (Event T) → State T → Event T → Prop}
    {lay : Layout} {n : Nat} {h : 0 < n} {tr : Trace (State T) (Event T)} {s : State T}
    (hrun : Runs ok lay n h tr s) : Departed tr s :=
  hrun.invariant (I := Departed) (fun c a rx hc => by simp [State.ringChannel] at hc)
    fun _ _ _ _ _ hi hn _ => departed_step (trans_of_next hn) hi

/-- A waker is never invoked by the drop of its own receiver. -/
theorem bystander_of_run {ok : Trace (State T) (Event T) → State T → Event T → Prop}
    {lay : Layout} {n : Nat} {h : 0 < n} {tr : Trace (State T) (Event T)} {s : State T}
    (hrun : Runs ok lay n h tr s) : ∀ {c : Nat} {p : Waking T} {w : Waker},
      s.calls[c]? = some (.wake p w) → p.owner ≠ .receiver w.slot := by
  induction hrun with
  | start => intro c p w hc; simp [State.ringChannel] at hc
  | @step tr s e s' hrun hn _ ih =>
      intro c p w hc
      have hset : ∀ {j : Nat} {d : Call T}, d ≠ .wake p w →
          (s.calls.set j d)[c]? = some (.wake p w) → p.owner ≠ .receiver w.slot := by
        intro j d hd hj
        rcases Ledger.getElem?_set_cases hj with ⟨-, heq⟩ | ⟨-, hold⟩
        · exact absurd heq.symm hd
        · exact ih hold
      cases trans_of_next hn with
      | @start op _ _ =>
          rcases Ledger.getElem?_concat_cases hc with ⟨-, heq⟩ | hold
          · cases op <;> cases heq
          · exact ih hold
      | startDropSender | startDropReceiver =>
          rcases Ledger.getElem?_concat_cases hc with ⟨-, heq⟩ | hold
          · cases heq
          · exact ih hold
      | @scanHit c' k q ks v wl hc' hw =>
          rcases Ledger.getElem?_set_cases hc with ⟨-, heq⟩ | ⟨-, hold⟩
          · cases heq
            intro howner
            obtain ⟨hslot, -⟩ := tokens_of_run hrun k w hw.slot_before
            cases p with
            | dropReceiver rx =>
                obtain rfl : rx = w.slot := Endpoint.receiver.inj howner
                have hgone := departed_of_run hrun c' _ w.slot hc' rfl
                have hheld := ((keyed_of_run hrun).slots k).mp
                  (by rw [hw.slot_before]; exact Option.some_ne_none _)
                exact hheld.2 (hslot ▸ hgone)
            | _ => cases howner
          · exact ih hold
      | @scanEnd _ q | @wake _ q => exact hset (fun heq => by cases q <;> cases heq) hc
      | dropSenderLast | dropSenderMore | dropReceiverLast | dropReceiverMore =>
          exact hset (fun heq => by cases heq) hc
      | @popSome _ rx l | @popEmpty _ rx l | @popDisconnected _ rx l =>
          refine hset (fun heq => ?_) hc
          have hhand := congrArg Call.inHand heq
          rw [answered_inHand] at hhand
          cases hhand
      | _ => exact hset (fun heq => by cases heq) hc

/-! ## One poll at a time -/

/-- The receiver of which a poll begins. -/
def Event.poll : Event T → Option Nat
  | .start _ op => op.polled
  | .repoll _ rx => some rx
  | _ => none

/-- No poll of a receiver begins while another is in progress. -/
def Exclusive (_ : Trace (State T) (Event T)) (s : State T) (e : Event T) : Prop :=
  ∀ rx ∈ e.poll, ∀ a ∈ s.calls, a.midPoll ≠ some rx

instance (tr : Trace (State T) (Event T)) (s : State T) (e : Event T) :
    Decidable (Exclusive tr s e) :=
  inferInstanceAs (Decidable (∀ rx ∈ e.poll, _))

theorem poll_of_pollsOn {e : Event T} {rx : Nat} (h : e.pollsOn rx = true) :
    e.poll = some rx := by
  cases e with
  | start c op => exact of_decide_eq_true h
  | repoll c r => exact congrArg some (of_decide_eq_true h)
  | _ => cases h

theorem lastPoll_cons (rx : Nat) (s : State T) (e : Event T) (tr : Trace (State T) (Event T)) :
    lastPoll rx ((s, e) :: tr) = if e.pollsOn rx then some e.caller else lastPoll rx tr := by
  cases e <;> simp [lastPoll, Event.pollsOn, Event.caller]

/-- Nobody else's step touches the last poll of a receiver. -/
theorem lastPoll_before {rx c : Nat} {s : State T} {e : Event T} {tr : Trace (State T) (Event T)}
    (h : lastPoll rx ((s, e) :: tr) = some c) (hne : e.caller ≠ c) :
    e.pollsOn rx = false ∧ lastPoll rx tr = some c := by
  rw [lastPoll_cons] at h
  cases hp : e.pollsOn rx with
  | true =>
      rw [hp, if_pos rfl] at h
      exact absurd (Option.some.inj h) hne
  | false =>
      rw [hp, if_neg Bool.false_ne_true] at h
      exact ⟨rfl, h⟩

/-- A call in the middle of a poll has just begun it, or was in the middle of it
before. -/
theorem midPoll_of_trans {s s' : State T} {e : Event T} (h : Trans s e s') {d : Call T}
    {rx : Nat} (hd : s'.calls[e.caller]? = some d) (hmid : d.midPoll = some rx) :
    e.pollsOn rx = true ∨ ∃ a, s.calls[e.caller]? = some a ∧ a.midPoll = some rx := by
  have hset : ∀ {c : Nat} {a b : Call T}, s.calls[c]? = some a →
      (s.calls.set c b)[c]? = some d → (b.midPoll = some rx → a.midPoll = some rx) →
      e.pollsOn rx = true ∨ ∃ a, s.calls[c]? = some a ∧ a.midPoll = some rx := by
    intro c a b hc hcd hb
    rw [Ledger.getElem?_set_self_of b hc] at hcd
    cases hcd
    exact .inr ⟨a, hc, hb hmid⟩
  cases h with
  | @start op _ _ =>
      have heq : op.entry = d := by simpa [Event.caller] using hd
      have hpolled : op.entry.midPoll = op.polled := by cases op <;> rfl
      rw [← heq, hpolled] at hmid
      exact .inl (decide_eq_true hmid)
  | startDropSender | startDropReceiver =>
      have heq := hd
      simp only [Event.caller, List.getElem?_concat_length] at heq
      cases heq
      cases hmid
  | @repoll c r hc =>
      have heq : Call.load r (.first .recv) = d :=
        Option.some.inj ((Ledger.getElem?_set_self_of _ hc).symm.trans hd)
      rw [← heq] at hmid
      exact .inl (decide_eq_true (Option.some.inj hmid))
  | @popLock c p hc | @scanEnd c p hc | @wake c p w hc =>
      exact hset hc hd (fun hb => by cases p <;> cases hb)
  | @load c r l hc => exact hset hc hd (fun hb => by cases l <;> exact hb)
  | @popSome c r l _ m hc _ | @popDisconnected c r l hc _ =>
      exact hset hc hd (fun hb => by cases l <;> exact hb)
  | @popEmpty c r l hc _ =>
      refine hset hc hd (fun hb => ?_)
      rcases l with _ | p | ⟨_ | _⟩ <;> first | exact hb | cases hb
  | dropSenderLast hc _ | dropSenderMore hc _ | dropReceiverLast hc _ | dropReceiverMore hc _ =>
      exact hset hc hd (fun hb => by cases hb)
  | _ => exact hset ‹_› hd (fun hb => by first | exact hb | cases hb)

/-- A call in the middle of a poll is the last one that polled. -/
def Turn (tr : Trace (State T) (Event T)) (s : State T) : Prop :=
  ∀ (c : Nat) (a : Call T) (rx : Nat), s.calls[c]? = some a → a.midPoll = some rx →
    lastPoll rx tr = some c

theorem turn_step {tr : Trace (State T) (Event T)} {s s' : State T} {e : Event T}
    (hok : Exclusive tr s e) (h : Trans s e s') (hi : Turn tr s) : Turn ((s, e) :: tr) s' := by
  intro c a rx hc ha
  rw [lastPoll_cons]
  by_cases hcaller : e.caller = c
  · subst hcaller
    split
    · rfl
    · rename_i hp
      rcases midPoll_of_trans h hc ha with hbegins | ⟨b, hb, hmid⟩
      · exact absurd hbegins hp
      · exact hi _ b rx hb hmid
  · have hold := calls_of_other h hcaller hc
    split
    · rename_i hp
      exact absurd ha (hok rx (poll_of_pollsOn hp) a (List.mem_of_getElem? hold))
    · exact hi c a rx hold ha

theorem turn_of_run {lay : Layout} {n : Nat} {h : 0 < n} {tr : Trace (State T) (Event T)}
    {s : State T} (hrun : Runs Exclusive lay n h tr s) : Turn tr s :=
  hrun.invariant (I := Turn) (fun c a rx hc => by simp [State.ringChannel] at hc)
    fun _ _ _ _ _ hi hn hok => turn_step hok (trans_of_next hn) hi

/-! ## What the slot has seen since the poll began -/

namespace Event

/-- The slot of `rx` is filled. -/
def fills (rx : Nat) : Event T → Bool
  | .insert _ r _ => r = rx
  | _ => false

/-- A poll writes the slot of `rx`. -/
def writes (rx : Nat) : Event T → Bool
  | .insert _ r _ | .remove _ r _ => r = rx
  | _ => false

end Event

/-- The last insertion into the slot of `rx`. -/
def lastFill (rx : Nat) : Trace (State T) (Event T) → Option Nat
  | [] => none
  | (_, e) :: tr => if e.fills rx then some tr.length else lastFill rx tr

/-- The waker of insertion `i` has been taken to be invoked. -/
def Launched (tr : Trace (State T) (Event T)) (i : Nat) : Prop :=
  (∃ d, carried d tr = some i) ∨ (i, Fate.invoked) ∈ endings tr

/-- The last poll of `rx` is that of call `c`, and its waker is in the slot, or
has been taken to be invoked. -/
structure Sent (tr : Trace (State T) (Event T)) (s : State T) (c rx i : Nat) : Prop where
  filled : lastFill rx tr = some i
  inserted : insertedAt tr i = some ⟨rx, c⟩
  latest : since (Event.fills rx) (Event.pollsOn rx) tr = true
  placed : s.cb.waitlist.slot rx ≠ none → resting rx tr = some i ∨ Launched tr i

/-- How far a poll has come: it has not touched the slot; it has filled it; it
has answered `Ready`. -/
inductive Stage where
  | looking
  | filled
  | answered
deriving DecidableEq

def Call.stage : Call T → Option Stage
  | .load _ (.first _) | .pop _ (.first _) _ | .insert .. => some .looking
  | .load _ (.again _) | .pop _ (.again _) _ | .pending _ | .parked _ => some .filled
  | .ready .. => some .answered
  | _ => none

/-- What the slot of `rx` has seen since the poll of call `c` began. -/
def Suits (tr : Trace (State T) (Event T)) (s : State T) (c rx : Nat) : Stage → Prop
  | .looking => since (Event.pollsOn rx) (Event.fills rx) tr = true
  | .filled => ∃ i, Sent tr s c rx i
  | .answered => ∀ w, s.cb.waitlist.slot rx ≠ some (some w)

theorem fills_of_writes {e : Event T} {rx : Nat} (h : e.writes rx = false) :
    e.fills rx = false := by
  cases e <;> first | exact h | rfl

/-- Once taken to be invoked, a waker is invoked. -/
theorem launched_kept {tr : Trace (State T) (Event T)} {s s' : State T} {e : Event T} {i : Nat}
    (hl : Located tr s) (h : Motion s e s') (hi : Launched tr i) :
    Launched ((s, e) :: tr) i := by
  rcases hi with ⟨d, hd⟩ | hgone
  · cases h with
    | @take c w a _ wl _ hc ha _ _ _ _ =>
        have hne : c ≠ d := by
          rintro rfl
          rw [hl.carried_none (by rw [hc]; exact ha)] at hd
          cases hd
        exact .inl ⟨d, (if_neg hne).trans hd⟩
    | @wake c w a _ _ hc _ _ _ =>
        by_cases hcd : c = d
        · refine .inr (List.mem_append_left _ ?_)
          simp [ending, hcd, hd]
        · exact .inl ⟨d, (if_neg hcd).trans hd⟩
    | begin he | register he | still he => exact .inl ⟨d, (carried_still he ..).trans hd⟩
    | _ => exact .inl ⟨d, hd⟩
  · exact .inr (List.mem_append_right _ hgone)

/-- What a step that neither polls nor writes a registered slot does to it. -/
theorem slot_of_motion (tr : Trace (State T) (Event T)) {s s' : State T} {e : Event T} {rx : Nat}
    (h : Motion s e s') (hfresh : rx < s.cb.waitlist.fresh) (hw : e.writes rx = false) :
    (s'.cb.waitlist.slot rx = s.cb.waitlist.slot rx ∧
        resting rx ((s, e) :: tr) = resting rx tr) ∨
      s'.cb.waitlist.slot rx = none ∨
      ∃ c w, e = .take c w ∧ w.slot = rx ∧ s'.cb.waitlist.slot rx = some none := by
  cases h with
  | @insert c r old a d _ _ _ _ _ hwr | @remove c r old a d _ _ _ _ _ hwr =>
      have hne : r ≠ rx := of_decide_eq_false hw
      exact .inl ⟨hwr.slot_ne rx (Ne.symm hne), if_neg hne⟩
  | @deregister c r old a d _ _ _ _ _ hdrop =>
      rcases eq_or_ne r rx with rfl | hne
      · exact .inr (.inl hdrop.slot_self)
      · exact .inl ⟨hdrop.slot_ne rx (Ne.symm hne), if_neg hne⟩
  | @take c w a d wl _ _ _ _ _ hwr hwl =>
      rw [hwl]
      rcases eq_or_ne w.slot rx with rfl | hne
      · exact .inr (.inr ⟨c, w, rfl, rfl, hwr.slot_self⟩)
      · exact .inl ⟨hwr.slot_ne rx (Ne.symm hne), if_neg hne⟩
  | wake _ _ _ hwl => exact .inl ⟨by rw [hwl], rfl⟩
  | begin he _ _ hwl => exact .inl ⟨by rw [hwl], resting_still he ..⟩
  | @register _ c k a d _ he _ _ _ _ hadd =>
      have hne : rx ≠ k := by
        rw [← hadd.fresh_before]
        exact Nat.ne_of_lt hfresh
      exact .inl ⟨hadd.slot_ne rx hne, resting_still he ..⟩
  | still he _ _ _ _ hitems =>
      exact .inl ⟨by rw [Waitlist.slot, hitems, Waitlist.slot], resting_still he ..⟩

/-- A step that neither begins a poll of `rx` nor writes its slot. -/
theorem suits_kept {tr : Trace (State T) (Event T)} {s s' : State T} {e : Event T}
    {c rx : Nat} {st : Stage} (hl : Located tr s) (h : Motion s e s')
    (hfresh : rx < s.cb.waitlist.fresh) (hp : e.pollsOn rx = false) (hw : e.writes rx = false)
    (hi : Suits tr s c rx st) : Suits ((s, e) :: tr) s' c rx st := by
  have hf := fills_of_writes hw
  have hslot := slot_of_motion tr h hfresh hw
  cases st with
  | looking =>
      have hold : since (Event.pollsOn rx) (Event.fills rx) tr = true := hi
      show since (Event.pollsOn rx) (Event.fills rx) ((s, e) :: tr) = true
      rw [since_cons, hp, hf, hold]
      rfl
  | filled =>
      obtain ⟨i, hsent⟩ := hi
      refine ⟨i, ?_, insertedAt_kept hsent.inserted, ?_, fun hne => ?_⟩
      · rw [lastFill, hf, if_neg Bool.false_ne_true]
        exact hsent.filled
      · rw [since_cons, hp, hf, hsent.latest]
        rfl
      · rcases hslot with ⟨hs, hr⟩ | hnone | ⟨d, w, rfl, rfl, hs⟩
        · rw [hr]
          exact (hsent.placed (hs ▸ hne)).imp_right (launched_kept hl h)
        · exact absurd hnone hne
        · -- the slot was full, so it was this waker that was taken
          have hbefore : s.cb.waitlist.slot w.slot ≠ none := by
            cases h with
            | take _ _ _ _ hwr _ =>
                rw [hwr.slot_before]
                exact Option.some_ne_none _
            | begin he | register he | still he => cases he
          rcases hsent.placed hbefore with hrest | hgone
          · exact .inr (.inl ⟨d, (if_pos rfl).trans hrest⟩)
          · exact .inr (launched_kept hl h hgone)
  | answered =>
      have hold : ∀ w, s.cb.waitlist.slot rx ≠ some (some w) := hi
      intro w hfull
      rcases hslot with ⟨hs, -⟩ | hnone | ⟨-, -, -, -, hs⟩
      · exact hold w (hs ▸ hfull)
      · rw [hnone] at hfull
        cases hfull
      · rw [hs] at hfull
        cases hfull

/-- Only a call in the middle of a poll writes the slot. -/
theorem midPoll_of_writes {s s' : State T} {e : Event T} (h : Trans s e s') {rx : Nat}
    (hw : e.writes rx = true) : ∃ a, s.calls[e.caller]? = some a ∧ a.midPoll = some rx := by
  cases h with
  | insert hc _ | remove hc _ => exact ⟨_, hc, congrArg some (of_decide_eq_true hw)⟩
  | _ => cases hw

def Suited (tr : Trace (State T) (Event T)) (s : State T) : Prop :=
  ∀ (c : Nat) (a : Call T) (rx : Nat) (st : Stage), s.calls[c]? = some a →
    a.endpoint = .receiver rx → a.stage = some st → lastPoll rx tr = some c → Suits tr s c rx st

theorem entry_stage {op : Op T} {st : Stage} (h : op.entry.stage = some st) :
    st = .looking ∧ ∃ rx, op.polled = some rx ∧ op.entry.endpoint = .receiver rx := by
  cases op <;> cases h <;> exact ⟨rfl, _, rfl, rfl⟩

theorem answered_stage {rx : Nat} {l : Look} {r : Except TryRecvError T} {connected : Bool}
    {st : Stage} (h : (l.answered rx r).stage = some st) :
    (Call.pop rx l connected : Call T).stage = some st := by
  rcases l with _ | p | ⟨_ | _⟩ <;> rcases r with (_ | _) | m <;> first | exact h | cases h

/-- The step of the polling call itself. -/
theorem suits_own {tr : Trace (State T) (Event T)} {s s' : State T} {e : Event T}
    (htok : Tokens s) (hl : Located tr s)
    (hfresh : ∀ rx c, lastPoll rx tr = some c → rx < s.cb.waitlist.fresh)
    (h : Trans s e s') (hi : Suited tr s) {d : Call T} {rx : Nat} {st : Stage}
    (hd : s'.calls[e.caller]? = some d) (hend : d.endpoint = .receiver rx)
    (hst : d.stage = some st) (hlast : lastPoll rx ((s, e) :: tr) = some e.caller) :
    Suits ((s, e) :: tr) s' e.caller rx st := by
  have hself : ∀ {c : Nat} {a b : Call T}, s.calls[c]? = some a →
      (s.calls.set c b)[c]? = some d → b = d := fun hc hcd =>
    Option.some.inj ((Ledger.getElem?_set_self_of _ hc).symm.trans hcd)
  -- a move within the stage that leaves the slot alone
  have hquiet : ∀ {a : Call T}, s.calls[e.caller]? = some a → a.endpoint = .receiver rx →
      a.stage = some st → e.pollsOn rx = false → e.writes rx = false →
      Suits ((s, e) :: tr) s' e.caller rx st := by
    intro a hc ha hsta hp hw
    rw [lastPoll_cons, hp, if_neg Bool.false_ne_true] at hlast
    exact suits_kept hl (motion_of_trans htok h) (hfresh rx _ hlast) hp hw
      (hi _ a rx st hc ha hsta hlast)
  cases h with
  | @start op _ _ =>
      obtain rfl : op.entry = d := by simpa [Event.caller] using hd
      obtain ⟨rfl, r, hpolled, hr⟩ := entry_stage hst
      cases hr.symm.trans hend
      show since _ _ _ = true
      rw [since_cons, show (Event.start s.calls.length op).pollsOn rx = true from
        decide_eq_true hpolled]
      rfl
  | startDropSender | startDropReceiver =>
      simp only [Event.caller, List.getElem?_concat_length] at hd
      cases hd
      cases hst
  | @repoll c r hc =>
      obtain rfl := hself hc hd
      cases hend
      cases hst
      show since _ _ _ = true
      rw [since_cons, show (Event.repoll c rx : Event T).pollsOn rx = true from decide_eq_true rfl]
      rfl
  | @load c r l hc =>
      obtain rfl := hself hc hd
      exact hquiet hc hend (by cases l <;> exact hst) rfl rfl
  | popSome hc _ | popEmpty hc _ | popDisconnected hc _ =>
      obtain rfl := hself hc hd
      rw [answered_endpoint] at hend
      exact hquiet hc hend (answered_stage hst) rfl rfl
  | @insert c r p old wl hc hw =>
      obtain rfl := hself hc hd
      cases hend
      cases hst
      have hfills : (Event.insert c rx old : Event T).fills rx = true := decide_eq_true rfl
      refine ⟨tr.length, ?_, ?_, ?_, fun _ => .inl (if_pos rfl)⟩
      · rw [lastFill, hfills, if_pos rfl]
      · rw [insertedAt_cons, if_pos rfl]
        rfl
      · rw [since_cons, hfills]
        rfl
  | @remove c r p o old wl hc hw =>
      obtain rfl := hself hc hd
      cases hend
      cases hst
      intro w hfull
      have hempty : wl.slot rx = some none := hw.slot_self
      cases hempty.symm.trans hfull
  | @popLock c p hc | @scanMiss c k p ks hc _ | @scanHit c k p ks w wl hc _ =>
      obtain rfl := hself hc hd
      cases hst
  | @scanEnd c p hc | @wake c p w hc =>
      obtain rfl := hself hc hd
      cases p <;> cases hst
  | dropSenderLast hc _ | dropSenderMore hc _ | dropReceiverLast hc _ | dropReceiverMore hc _ =>
      obtain rfl := hself hc hd
      cases hst
  | _ =>
      obtain rfl := hself ‹_› hd
      cases hst

theorem suited_step {tr : Trace (State T) (Event T)} {s s' : State T} {e : Event T}
    (htok : Tokens s) (hl : Located tr s) (hturn : Turn tr s)
    (hfresh : ∀ rx c, lastPoll rx tr = some c → rx < s.cb.waitlist.fresh)
    (h : Trans s e s') (hi : Suited tr s) : Suited ((s, e) :: tr) s' := by
  intro c a rx st hc hend hst hlast
  by_cases hcaller : e.caller = c
  · subst hcaller
    exact suits_own htok hl hfresh h hi hc hend hst hlast
  · have hold := calls_of_other h hcaller hc
    obtain ⟨hp, hlast'⟩ := lastPoll_before hlast hcaller
    have hw : e.writes rx = false := by
      -- a poll that writes the slot would be the last one, and it is not
      cases hwr : e.writes rx with
      | false => rfl
      | true =>
          obtain ⟨b, hb, hmid⟩ := midPoll_of_writes h hwr
          have hlast'' := hturn _ b rx hb hmid
          rw [hlast'] at hlast''
          exact absurd (Option.some.inj hlast'').symm hcaller
    exact suits_kept hl (motion_of_trans htok h) (hfresh rx c hlast') hp hw
      (hi c a rx st hold hend hst hlast')

theorem suited_of_run {lay : Layout} {n : Nat} {h : 0 < n} {tr : Trace (State T) (Event T)}
    {s : State T} (hrun : Runs Exclusive lay n h tr s) : Suited tr s :=
  hrun.invariant (I := Suited) (fun c a rx st hc => by simp [State.ringChannel] at hc)
    fun _ _ _ _ hrun hi hn _ =>
      suited_step (tokens_of_run hrun) (located_of_run hrun) (turn_of_run hrun)
        (fun _ _ => lastPoll_lt_fresh hrun) (trans_of_next hn) hi

/-! ## Conservation -/

structure Conserved (tr : Trace (State T) (Event T)) (s : State T) : Prop where
  /-- An inserted waker is in one condition, and is in it once. -/
  one : ∀ i w, insertedAt tr i = some w → conditions tr s i = 1
  /-- In a slot: in that of the receiver that inserted it. -/
  inSlot : ∀ i w k, insertedAt tr i = some w → resting k tr = some i →
    k = w.slot ∧ s.cb.waitlist.slot k = some (some w)
  /-- Popped: by a send, a drop of a sender or that of another receiver, which
  invokes it next. -/
  inHand : ∀ i w c, insertedAt tr i = some w → carried c tr = some i →
    ∃ p, s.calls[c]? = some (.wake p w) ∧ p.owner ≠ .receiver w.slot
  /-- There are no other wakers. -/
  slots : ∀ k w, s.cb.waitlist.slot k = some (some w) →
    ∃ i, resting k tr = some i ∧ insertedAt tr i = some w
  hands : ∀ (c : Nat) (p : Waking T) (w : Waker), s.calls[c]? = some (.wake p w) →
    ∃ i, carried c tr = some i ∧ insertedAt tr i = some w
  /-- Replaced: by a poll that began after the insertion. -/
  replaced : ∀ c rx old s', Next step s (.insert c rx old) s' →
    since (Event.pollsOn rx) (Event.fills rx) tr = true
  /-- Withdrawn: by a poll that returns `Ready`. -/
  withdrawn : ∀ c rx old s', Next step s (.remove c rx old) s' →
    ∃ p r, s'.calls[c]? = some (.ready rx p r)
  /-- Removed: by the drop of the receiver. -/
  removed : ∀ c rx old s', Next step s (.deregister c rx old) s' →
    s.calls[c]? = some (.dropReceiver rx)
  /-- From a poll that returned `Pending` to the next poll or the drop. -/
  pending : ∀ c rx, lastPoll rx tr = some c →
    (s.calls[c]? = some (.pending rx) ∨ s.calls[c]? = some (.parked rx)) →
    s.usable (.receiver rx) →
    ∃ i, insertedAt tr i = some ⟨rx, c⟩ ∧ lastFill rx tr = some i ∧
      since (Event.fills rx) (Event.pollsOn rx) tr = true ∧
      (resting rx tr = some i ∨ (∃ d, carried d tr = some i) ∨ (i, .invoked) ∈ endings tr)
  /-- From a poll that returned `Ready` to the next poll. -/
  ready : ∀ c rx p r, lastPoll rx tr = some c → s.calls[c]? = some (.ready rx p r) →
    ∀ w, s.cb.waitlist.slot rx ≠ some (some w)

/-- What `Located` says of an insertion that rests in a slot. -/
theorem slot_of_resting {tr : Trace (State T) (Event T)} {s : State T} (hl : Located tr s)
    {i k : Nat} {w : Waker} (hi : insertedAt tr i = some w) (hr : resting k tr = some i) :
    s.cb.waitlist.slot k = some (some w) := by
  have hslot := hl.slots k
  rw [hr, Option.bind_some, hi] at hslot
  exact Option.join_eq_some_iff.mp hslot

theorem wake_of_carried {tr : Trace (State T) (Event T)} {s : State T} (hl : Located tr s)
    {i c : Nat} {w : Waker} (hi : insertedAt tr i = some w) (hb : carried c tr = some i) :
    ∃ p, s.calls[c]? = some (.wake p w) := by
  have hhand := hl.hands c
  rw [hb, Option.bind_some, hi, Option.bind_eq_some_iff] at hhand
  obtain ⟨a, hc, ha⟩ := hhand
  cases a with
  | wake p v =>
      cases ha
      exact ⟨p, hc⟩
  | _ => cases ha

theorem wakers_conserved {lay : Layout} {n : Nat} {h : 0 < n} {tr : Trace (State T) (Event T)}
    {s : State T} (hrun : Runs Exclusive lay n h tr s) : Conserved tr s := by
  have hl := located_of_run hrun
  have hturn := turn_of_run hrun
  have hsuited := suited_of_run hrun
  constructor
  · intro i w hi
    have htally := tallied_of_run hrun i
    rw [hi] at htally
    exact htally
  · intro i w k hi hr
    have hslot := slot_of_resting hl hi hr
    exact ⟨(tokens_of_run hrun k w hslot).1.symm, hslot⟩
  · intro i w c hi hb
    obtain ⟨p, hc⟩ := wake_of_carried hl hi hb
    exact ⟨p, hc, bystander_of_run hrun hc⟩
  · intro k w hk
    have hslot := hl.slots k
    rw [hk] at hslot
    exact Option.bind_eq_some_iff.mp hslot.symm
  · intro c p w hc
    have hhand := hl.hands c
    rw [hc] at hhand
    exact Option.bind_eq_some_iff.mp hhand.symm
  · intro c rx old s' hn
    cases trans_of_next hn with
    | @insert _ _ p _ _ hc _ => exact hsuited c _ rx .looking hc rfl rfl (hturn c _ rx hc rfl)
  · intro c rx old s' hn
    cases trans_of_next hn with
    | @remove _ _ p r _ _ hc _ => exact ⟨p, r, Ledger.getElem?_set_self_of _ hc⟩
  · intro c rx old s' hn
    cases trans_of_next hn with
    | deregisterEmpty hc _ _ | deregisterFull hc _ _ => exact hc
  · intro c rx hlast hc hu
    have hsuits : Suits tr s c rx .filled := by
      rcases hc with hc | hc <;> exact hsuited c _ rx .filled hc rfl rfl hlast
    obtain ⟨i, hsent⟩ := hsuits
    exact ⟨i, hsent.inserted, hsent.filled, hsent.latest,
      hsent.placed (slot_of_usable (wf_of_run hrun) rx hu)⟩
  · intro c rx p r hlast hc
    exact hsuited c _ rx .answered hc rfl rfl hlast

/-- A poll leaves its waker behind, and a send has popped it and is about to
invoke it. -/
def pollAndSend : List (Act Nat) :=
  [.start (.pollNext 0), .run 0, .run 0, .run 0, .run 0, .run 0,
    .start (.send 0 7), .run 1, .run 1, .run 1, .run 1]

theorem wakers_conserved_in_pollAndSend :
    let r := schedule Exclusive ⟨true, true⟩ 1 Nat.one_pos pollAndSend
    r.2.calls = [.pending 0, .wake (.send 0 7) ⟨0, 0⟩] ∧
      insertedAt r.1 3 = some ⟨0, 0⟩ ∧ carried 1 r.1 = some 3 ∧ Conserved r.1 r.2 :=
  ⟨by decide, by decide, by decide, wakers_conserved (runs_schedule ..)⟩

end RingChannel
