/-
# `RingChannel.Patience` — clients that stay until the end of the stream

The fuzzer sends a slice of the data through each sender and collects each
receiver until it reports the end, and only then drops it.  It checks that no
send fails, that nothing is received that was not sent, and that everything is
received when the buffer could hold all of it.

`Patient` keeps of those clients what the checks need: no receiver is dropped
before some receive has reported the end.  A report says that no sender is left
(`over_of_reported`), so the count of receivers becomes zero after that of
senders, and no send can meet it.  A message is overwritten only when the buffer
is full, and then it and the messages ahead of it are more than the buffer holds.

Without receivers the fuzzer expects every first send to be refused.  The last
section says so of every run, from the step on that leaves no receiver.
-/
import RingChannel.Answers
import RingChannel.Fifo

namespace RingChannel

variable {T : Type}

/-! ## The messages of the sends -/

namespace Call

/-- The message that the call was made to send. -/
def message : Call T → Multiset T
  | .sendLoad _ m | .sendPush _ m | .popLock (.send _ m) | .popScan (.send _ m) _
  | .wake (.send _ m) _ | .sent _ m _ => {m}
  | _ => 0

/-- The message of a send that has not taken its decision. -/
def undecided : Call T → Multiset T
  | .sendLoad _ m | .sendPush _ m => {m}
  | _ => 0

end Call

theorem message_split (a : Call T) : a.message = a.decided + a.undecided := by
  cases a with
  | sendLoad tx m | sendPush tx m => exact (zero_add _).symm
  | popLock p | popScan p ks | wake p w => cases p <;> exact (add_zero _).symm
  | _ => exact (add_zero _).symm

/-- The messages sent are those decided on and those not yet. -/
theorem gather_message (s : State T) :
    s.gather Call.message = s.gather Call.decided + s.gather Call.undecided :=
  (Ledger.total_congr fun _ a _ => message_split a).trans Ledger.total_add

theorem answered_message (rx : Nat) (l : Look) (r : Except TryRecvError T) :
    (l.answered rx r).message = 0 := by
  rcases l with _ | p | ⟨_ | _⟩ <;> rcases r with (_ | _) | m <;> rfl

/-- A call keeps its message, so the messages sent only become more. -/
theorem message_of_trans {s s' : State T} {e : Event T} (h : Trans s e s') :
    s.gather Call.message ≤ s'.gather Call.message := by
  have hmove : ∀ {c : Nat} {a d : Call T} {cb : ControlBlock Nat T}, s.calls[c]? = some a →
      d.message = a.message →
      s.gather Call.message ≤ (s.move c d cb).gather Call.message := by
    intro c a d cb hc hd
    have hgather := gather_move Call.message d cb hc
    rw [hd] at hgather
    exact le_of_eq (add_right_cancel hgather).symm
  cases h with
  | @start op _ _ =>
      rw [gather_concat s Call.message s.txs s.rxs op.entry]
      exact le_add_of_nonneg_right (Multiset.zero_le _)
  | @startDropSender tx _ _ =>
      rw [gather_concat s Call.message _ s.rxs (.dropSender tx)]
      exact le_add_of_nonneg_right (Multiset.zero_le _)
  | @startDropReceiver rx _ _ =>
      rw [gather_concat s Call.message s.txs _ (.dropReceiver rx)]
      exact le_add_of_nonneg_right (Multiset.zero_le _)
  | @popLock c p hc | @scanEnd c p hc | @scanMiss c k p ks hc _ | @wake c p w hc
  | @scanHit c k p ks w wl hc _ =>
      exact hmove hc (by cases p <;> rfl)
  | @cloneSender c tx hc =>
      show s.gather Call.message ≤ (s.move c (.clonedSender tx) s.cb).gather Call.message
      exact hmove hc rfl
  | @cloneRegister c rx pos k wl hc _ _ =>
      show s.gather Call.message ≤ (s.move c (.clonedReceiver rx) s.cb).gather Call.message
      exact hmove hc rfl
  | @free c e hc =>
      show s.gather Call.message ≤ (s.move c (.dropped e true) s.cb).gather Call.message
      exact hmove hc rfl
  | popSome hc _ | popEmpty hc _ | popDisconnected hc _ => exact hmove hc (answered_message ..)
  | dropSenderLast hc _ | dropSenderMore hc _ | dropReceiverLast hc _ | dropReceiverMore hc _ =>
      exact hmove hc rfl
  | _ => refine hmove ‹_› ?_; rfl

/-! ## Overwriting needs a full buffer -/

/-- When a send is handed back a message, more have been sent than the buffer
can hold. -/
theorem lt_card_of_overwritten {ok : Trace (State T) (Event T) → State T → Event T → Prop}
    {lay : Layout} {n : Nat} {h : 0 < n} {tr : Trace (State T) (Event T)} {s : State T}
    (hrun : Runs ok lay n h tr s) {u : State T} {c tx : Nat} {m x : T}
    (hmem : (u, .push c tx m (some x)) ∈ tr) : n < (s.gather Call.message).card := by
  have hfull : u.cb.buffer.contents.length = n := ((push_answer_of_run hrun hmem).1).mp rfl
  refine hrun.onward (J := fun s => n < (s.gather Call.message).card)
    (fun tr₁ v hrun₁ hn => ?_) (fun _ s f s' _ hi hn => ?_) hmem
  · have htrans := trans_of_next hn
    refine Nat.lt_of_lt_of_le ?_ (Multiset.card_le_card (message_of_trans htrans))
    -- the buffer holds `n` messages decided on, and this one is not among them
    have hheld : n ≤ (u.gather Call.decided).card := by
      rw [accounted_of_run hrun₁, Multiset.card_add, Multiset.coe_card, hfull]
      exact Nat.le_add_left _ _
    have hlast : 1 ≤ (u.gather Call.undecided).card := by
      cases htrans with
      | pushOver hc _ =>
          obtain ⟨rest, hrest, -⟩ := Ledger.total_split (fun _ => Call.undecided) hc
          rw [State.gather, hrest, Multiset.card_add]
          exact Nat.le_add_right _ _
    rw [gather_message, Multiset.card_add]
    omega
  · exact Nat.lt_of_lt_of_le hi (Multiset.card_le_card (message_of_trans (trans_of_next hn)))

/-! ## No receiver leaves before the end -/

/-- A receiver is dropped. -/
def Event.leaves : Event T → Bool
  | .start _ (.dropReceiver _) => true
  | _ => false

/-- No receiver is dropped before some receive has reported the end. -/
def Patient (_ : Trace (State T) (Event T)) (s : State T) (e : Event T) : Prop :=
  e.leaves = true → s.Reported

instance (tr : Trace (State T) (Event T)) (s : State T) (e : Event T) :
    Decidable (Patient tr s e) :=
  inferInstanceAs (Decidable (_ → _))

/-- The first receiver stays until the end has been reported. -/
theorem stays_of_run {lay : Layout} {n : Nat} {h : 0 < n} {tr : Trace (State T) (Event T)}
    {s : State T} (hrun : Runs Patient lay n h tr s) :
    s.usable (.receiver 0) ∨ s.Reported := by
  refine hrun.invariant (I := fun _ s => s.usable (.receiver 0) ∨ s.Reported) (Or.inl ?_)
    fun tr s e s' hrun hi hn hok => ?_
  · exact SlotMap.get_insertAt_self 0 true rfl
  have htrans := trans_of_next hn
  rcases hi with hstays | hr
  swap
  · exact Or.inr (reported_of_trans htrans hr)
  cases htrans with
  | startDropReceiver => exact Or.inr (reported_of_trans (trans_of_next hn) (hok rfl))
  | @cloneRegister c rx pos k wl _ _ hadd =>
      have hnew := get_of_adds (wf_of_run hrun).registered.known hadd
      have hk : 0 ≠ k := by
        rintro rfl
        cases hnew.symm.trans hstays
      exact Or.inl ((SlotMap.get_insertAt_ne 0 true hk).trans hstays)
  | _ => exact Or.inl hstays

/-- No send is refused. -/
theorem accepted_of_run {lay : Layout} {n : Nat} {h : 0 < n} {tr : Trace (State T) (Event T)}
    {s : State T} (hrun : Runs Patient lay n h tr s) : ∀ {u : State T} {c : Nat} {m : T},
      (u, .refuse c m) ∉ tr := by
  intro u c m hmem
  obtain ⟨tr₁, v, hrun₁, hn, -⟩ := hrun.of_mem hmem
  have hw := wf_of_run hrun₁
  cases trans_of_next hn with
  | refuse hc hnone =>
      rcases stays_of_run hrun₁ with hstays | hr
      · have := receivers_pos_of_usable hw 0 hstays
        omega
      · -- the end was reported, so the sender of this message is gone
        cases no_sender_call hw (over_of_reported (ended_of_run hrun₁) hr).1 hc rfl

/-- A send that has failed was refused just now or had failed before. -/
theorem refuse_of_trans {s s' : State T} {e : Event T} (h : Trans s e s') {c tx : Nat} {m : T}
    {r : SendError T} (hc : s'.calls[c]? = some (.sent tx m (.error r))) :
    s.calls[c]? = some (.sent tx m (.error r)) ∨ e = .refuse c m := by
  have hmover : ∀ {j : Nat} {x d : Call T}, s.calls[j]? = some x →
      (s.calls.set j d)[j]? = some (.sent tx m (.error r)) → d = .sent tx m (.error r) := by
    intro j x d hx hd
    rw [Ledger.getElem?_set_self_of d hx] at hd
    exact Option.some.inj hd
  by_cases hcaller : e.caller = c
  swap
  · exact Or.inl (calls_of_other h hcaller hc)
  subst hcaller
  cases h with
  | @start op _ _ =>
      rcases Ledger.getElem?_concat_cases hc with ⟨-, heq⟩ | hold
      · cases op <;> cases heq
      · exact Or.inl hold
  | startDropSender | startDropReceiver =>
      rcases Ledger.getElem?_concat_cases hc with ⟨-, heq⟩ | hold
      · cases heq
      · exact Or.inl hold
  | refuse hd _ =>
      cases hmover hd hc
      exact Or.inr rfl
  | @scanEnd _ p hd | @wake _ p _ hd =>
      have heq := hmover hd hc
      cases p <;> cases heq
  | popSome hd _ | popEmpty hd _ | popDisconnected hd _ =>
      have heq := congrArg Call.endpoint (hmover hd hc)
      rw [answered_endpoint] at heq
      cases heq
  | dropSenderLast hd _ | dropSenderMore hd _ | dropReceiverLast hd _ | dropReceiverMore hd _ =>
      cases hmover hd hc
  | _ => cases hmover ‹_› hc

theorem refuse_of_run {ok : Trace (State T) (Event T) → State T → Event T → Prop} {lay : Layout}
    {n : Nat} {h : 0 < n} {tr : Trace (State T) (Event T)} {s : State T}
    (hrun : Runs ok lay n h tr s) : ∀ {c tx : Nat} {m : T} {r : SendError T},
      s.calls[c]? = some (.sent tx m (.error r)) → ∃ u, (u, .refuse c m) ∈ tr := by
  induction hrun with
  | start => intro c tx m r hc; simp [State.ringChannel] at hc
  | @step tr s e s' _ hn _ ih =>
      intro c tx m r hc
      rcases refuse_of_trans (trans_of_next hn) hc with hold | rfl
      · obtain ⟨u, hu⟩ := ih hold
        exact ⟨u, List.mem_cons_of_mem _ hu⟩
      · exact ⟨s, List.mem_cons_self⟩

theorem ok_of_sent {lay : Layout} {n : Nat} {h : 0 < n} {tr : Trace (State T) (Event T)}
    {s : State T} (hrun : Runs Patient lay n h tr s) {c tx : Nat} {m : T}
    {r : Except (SendError T) (Option T)} (hc : s.calls[c]? = some (.sent tx m r)) :
    ∃ ov, r = .ok ov := by
  cases r with
  | error e =>
      obtain ⟨u, hu⟩ := refuse_of_run hrun hc
      exact absurd hu (accepted_of_run hrun)
  | ok ov => exact ⟨ov, rfl⟩

/-! ## What is received -/

theorem handedBack_of_run {ok : Trace (State T) (Event T) → State T → Event T → Prop}
    {lay : Layout} {n : Nat} {h : 0 < n} {tr : Trace (State T) (Event T)} {s : State T}
    (hrun : Runs ok lay n h tr s) (hroom : (s.gather Call.message).card ≤ n) :
    s.gather Call.handedBack = 0 := by
  refine Ledger.total_eq_zero fun c a hc => ?_
  cases a with
  | sent tx m r =>
      rcases r with e | _ | x
      · rfl
      · rfl
      · obtain ⟨u, hu⟩ := recorded_of_run hrun c _ _ hc rfl
        have := lt_card_of_overwritten hrun hu
        omega
  | _ => rfl

/-- Once the end has been reported, every send has taken its decision. -/
theorem undecided_of_reported {s : State T} (hw : Wf s) (hz : s.cb.senders = 0) :
    s.gather Call.undecided = 0 := by
  refine Ledger.total_eq_zero fun c a hc => ?_
  cases a with
  | sendLoad tx m | sendPush tx m => cases no_sender_call hw hz hc rfl
  | _ => rfl

/-- With clients that keep their receivers until a receive has reported the end,
no send fails; what is received is part of what is sent; when the end has been
reported, every message sent has been received or handed back; and when the
buffer has room for all of them, none is handed back, and what has been received
is what was sent. -/
theorem patient_lossless {lay : Layout} {n : Nat} {h : 0 < n}
    {tr : Trace (State T) (Event T)} {s : State T} (hrun : Runs Patient lay n h tr s) :
    (∀ (c tx : Nat) (m : T) (r : Except (SendError T) (Option T)),
      s.calls[c]? = some (.sent tx m r) → ∃ ov, r = .ok ov) ∧
    s.gather Call.delivered ≤ s.gather Call.message ∧
    (s.Reported →
      s.gather Call.message = s.gather Call.handedBack + s.gather Call.delivered) ∧
    ((s.gather Call.message).card ≤ n → s.gather Call.handedBack = 0 ∧
      (s.Reported → s.gather Call.delivered = s.gather Call.message)) := by
  have hbal : Accounted s := accounted_of_run hrun
  have hended : s.Reported →
      s.gather Call.message = s.gather Call.handedBack + s.gather Call.delivered := by
    intro hr
    obtain ⟨hz, hnil⟩ := over_of_reported (ended_of_run hrun) hr
    have hrefused : s.gather Call.refused = 0 := by
      refine Ledger.total_eq_zero fun c a hc => ?_
      cases a with
      | sent tx m r =>
          obtain ⟨ov, rfl⟩ := ok_of_sent hrun hc
          rfl
      | _ => rfl
    rw [gather_message, undecided_of_reported (wf_of_run hrun) hz, add_zero, hbal, hrefused, hnil,
      Multiset.coe_nil, add_zero, zero_add]
  refine ⟨fun c tx m r hc => ok_of_sent hrun hc, ?_, hended, fun hroom => ?_⟩
  · rw [gather_message, hbal]
    refine le_add_of_le_of_nonneg (le_add_of_le_of_nonneg ?_ (Multiset.zero_le _))
      (Multiset.zero_le _)
    exact le_add_of_nonneg_left (Multiset.zero_le _)
  · have hnone := handedBack_of_run hrun hroom
    refine ⟨hnone, fun hr => ?_⟩
    rw [hended hr, hnone, zero_add]

/-- Two senders send a message each and are dropped; the receiver is polled until
the end, and then it is dropped. -/
def sendTwiceAndCollect : List (Act Nat) :=
  [.start (.cloneSender 0), .run 0, .start (.send 0 1), .start (.send 1 2), .run 1, .run 1, .run 1,
    .run 1, .run 1, .run 1, .run 2, .run 2, .run 2, .run 2, .run 2, .run 2, .start (.dropSender 0),
    .run 3, .start (.dropSender 1), .run 4, .run 4, .run 4, .run 4, .run 4, .run 4,
    .start (.pollNext 0), .run 5, .run 5, .run 5, .start (.pollNext 0), .run 6, .run 6, .run 6,
    .start (.pollNext 0), .run 7, .run 7, .run 7, .start (.dropReceiver 0), .run 8, .run 8, .run 8,
    .run 8, .run 8, .run 8]

theorem patient_lossless_in_sendTwiceAndCollect :
    let s := (schedule Patient ⟨true, true⟩ 2 Nat.two_pos sendTwiceAndCollect).2
    s.Reported ∧ s.freed = true ∧ s.gather Call.message = {1, 2} ∧
      s.gather Call.delivered = s.gather Call.message :=
  ⟨by decide, by decide, by decide,
    ((patient_lossless (runs_schedule ..)).2.2.2 (by decide)).2 (by decide)⟩

/-! ## After the last receiver -/

/-- A method of a receiver begins or goes on, or a waker is taken. -/
def Event.receiving : Event T → Bool
  | .start _ op => match op.entry.endpoint with
    | .receiver _ => true
    | .sender _ => false
  | .repoll .. | .pop .. | .insert .. | .remove .. | .deregister .. | .take .. => true
  | _ => false

theorem no_receiver_call {s : State T} (hw : Wf s) (hz : s.cb.receivers = 0) {c rx : Nat}
    {a : Call T} (hc : s.calls[c]? = some a) (he : a.endpoint = .receiver rx) :
    a.borrows = false ∧ a.ownsReceiver = 0 := by
  constructor
  · cases hb : a.borrows with
    | false => rfl
    | true =>
        have := receivers_pos_of_usable hw rx (he ▸ hw.borrowed c a hc hb)
        omega
  · have hle := le_count Call.ownsReceiver hc
    have := hw.counted.receivers
    omega

/-- With no receiver left, no slot is left. -/
theorem slot_none_of_left {s : State T} (hw : Wf s) (hz : s.cb.receivers = 0) (k : Nat) :
    s.cb.waitlist.slot k = none := by
  cases hk : s.cb.waitlist.slot k with
  | none => rfl
  | some o =>
      have hslot := hw.registered.slots k
      rw [hk, Option.isSome_some, Bool.toNat_true] at hslot
      cases hu : (s.rxs.get k == some true) with
      | true =>
          have := receivers_pos_of_usable hw k (beq_iff_eq.mp hu)
          omega
      | false =>
          rw [hu, Bool.toNat_false, zero_add] at hslot
          obtain ⟨j, b, hj, hb⟩ := count_pos (s := s) (f := Call.deregisters k) (by omega)
          cases b with
          | dropReceiver rx => cases (no_receiver_call hw hz hj rfl).2
          | _ => cases hb

/-- With no receiver left, nothing is received and nobody is taken from the
waitlist. -/
theorem receivers_zero_of_trans {s s' : State T} {e : Event T} (hw : Wf s) (h : Trans s e s')
    (hz : s.cb.receivers = 0) : s'.cb.receivers = 0 ∧ e.receiving = false := by
  have hgone : ∀ {rx : Nat}, s.rxs.get rx ≠ some true := by
    intro rx hrx
    have := receivers_pos_of_usable hw rx hrx
    omega
  cases h with
  | @start op hop _ =>
      refine ⟨hz, ?_⟩
      have husable := usable_of_mayStart hop
      cases op with
      | send | cloneSender | dropSender => rfl
      | _ => exact absurd husable hgone
  | startDropReceiver hrx _ => exact absurd hrx hgone
  | scanHit _ hwrites =>
      cases (slot_none_of_left hw hz _).symm.trans hwrites.slot_before
  | repoll hc | insert hc _ | remove hc _ | popSome hc _ | popEmpty hc _
  | popDisconnected hc _ | cloneReceiver hc => cases (no_receiver_call hw hz hc rfl).1
  | deregisterEmpty hc _ _ | deregisterFull hc _ _ | dropReceiverLast hc _
  | dropReceiverMore hc _ => cases (no_receiver_call hw hz hc rfl).2
  | _ => exact ⟨hz, rfl⟩

/-- With no receiver left, a send that has not passed its check is refused. -/
theorem refused_of_trans {s s' : State T} {e : Event T} (h : Trans s e s')
    (hz : s.cb.receivers = 0) {c tx : Nat} {m : T} (hc : s.calls[c]? = some (.sendLoad tx m)) :
    s'.calls[c]? = some (.sendLoad tx m) ∨
      s'.calls[c]? = some (.sent tx m (.error (.disconnected m))) := by
  by_cases hcaller : e.caller = c
  swap
  · exact Or.inl (calls_kept h hcaller hc)
  subst hcaller
  have hlt := (List.getElem?_eq_some_iff.mp hc).1
  have hat : ∀ {a : Call T}, s.calls[e.caller]? = some a → a = .sendLoad tx m :=
    fun ha => Option.some.inj (ha.symm.trans hc)
  clear hc
  cases h with
  | start | startDropSender | startDropReceiver => exact absurd hlt (Nat.lt_irrefl _)
  | sendLoad _ hpos => exact absurd hz (Nat.ne_of_gt hpos)
  | refuse hd _ =>
      cases hat hd
      exact Or.inr (Ledger.getElem?_set_self_of _ hd)
  | _ => cases hat ‹_›

/-- Once the count of receivers is zero, it stays zero; nothing is received any
more, nothing on a receiver is called, and no waker is taken; and a send called
from then on is refused with its own message, whatever else goes on. -/
theorem orphaned {lay : Layout} {n : Nat} {h : 0 < n} {tr : Trace (State T) (Event T)}
    {s : State T} (hrun : Runs Free lay n h tr s) {u : State T} {e : Event T}
    (hmem : (u, e) ∈ tr) (hz : u.cb.receivers = 0) :
    s.cb.receivers = 0 ∧ e.receiving = false ∧
      ∀ (c tx : Nat) (m : T), e = .start c (.send tx m) →
        s.calls[c]? = some (.sendLoad tx m) ∨
          s.calls[c]? = some (.sent tx m (.error (.disconnected m))) := by
  refine hrun.onward (J := fun s => s.cb.receivers = 0 ∧ e.receiving = false ∧
      ∀ (c tx : Nat) (m : T), e = .start c (.send tx m) →
        s.calls[c]? = some (.sendLoad tx m) ∨
          s.calls[c]? = some (.sent tx m (.error (.disconnected m))))
    (fun tr₁ v hrun₁ hn => ?_) (fun _ s f s' hrun₁ hi hn => ?_) hmem
  · have htrans := trans_of_next hn
    obtain ⟨hz', hidle⟩ := receivers_zero_of_trans (wf_of_run hrun₁) htrans hz
    refine ⟨hz', hidle, fun c tx m he => ?_⟩
    subst he
    cases htrans with
    | start => exact Or.inl (by simp [Op.entry])
  · have htrans := trans_of_next hn
    obtain ⟨hz, hidle, hsends⟩ := hi
    refine ⟨(receivers_zero_of_trans (wf_of_run hrun₁) htrans hz).1, hidle, fun c tx m he => ?_⟩
    rcases hsends c tx m he with hc | hc
    · exact refused_of_trans htrans hz hc
    · exact Or.inr (returned_of_trans htrans hc rfl)

/-- The receiver is dropped while a send has passed its check, and another message
is sent. -/
def sendAcrossTheDrop : List (Act Nat) :=
  [.start (.send 0 1), .run 0, .start (.dropReceiver 0), .run 1, .run 1, .run 1, .run 1, .run 1,
    .run 1, .start (.send 0 2), .run 0, .run 0, .run 0, .run 0, .run 0, .run 0, .run 2]

theorem orphaned_in_sendAcrossTheDrop :
    let r := schedule Free ⟨true, true⟩ 1 Nat.one_pos sendAcrossTheDrop
    r.2.cb.buffer.contents = [1] ∧ r.2.cb.receivers = 0 ∧
      r.2.calls[2]? = some (.sent 0 2 (.error (.disconnected 2))) := by
  have hlt : 4 < (schedule Free ⟨true, true⟩ 1 Nat.one_pos sendAcrossTheDrop).1.length := by
    decide
  have hleft := orphaned (runs_schedule ..) (List.get_mem _ ⟨4, hlt⟩) (by decide)
  exact ⟨by decide, hleft.1, (hleft.2.2 2 0 2 (by decide)).resolve_left (by decide)⟩

end RingChannel
