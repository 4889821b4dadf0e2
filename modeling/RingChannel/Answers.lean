/-
# `RingChannel.Answers` — when a failure answer was true

`try_recv` reads the sender count and then pops, and `send` reads the receiver
count and then pushes or not.  Is there an instant, between the call and its
return, at which the answer describes the channel?

For a refused send and for `Disconnected` there is: a count of zero stays zero,
so the instant of the last read is one.  For `Empty` there need not be.  The
count is read first, on purpose, and while the call stands between its two
reads the last sender may leave and other receivers may take what is pending;
the pop then finds an empty buffer in a channel without senders.  That is the
only way it happens, and `Vouched` follows a call through it.
-/
import RingChannel.Accounting

namespace RingChannel

variable {T : Type}

/-! ## Instants of a call -/

/-- Call `c` has been made and has not returned. -/
def During (c : Nat) (u : State T) : Prop :=
  ∃ a, u.calls[c]? = some a ∧ a.returned = false

/-- In some state of the run, while call `c` was in progress, and before the
step that left that state, `P` held of the two. -/
def Sometime (tr : Trace (State T) (Event T)) (c : Nat) (P : State T → Event T → Prop) : Prop :=
  ∃ u e, (u, e) ∈ tr ∧ During c u ∧ P u e

theorem Sometime.cons {tr : Trace (State T) (Event T)} {c : Nat} {P : State T → Event T → Prop}
    (h : Sometime tr c P) (p : State T × Event T) : Sometime (p :: tr) c P := by
  obtain ⟨u, e, hmem, hrest⟩ := h
  exact ⟨u, e, List.mem_cons_of_mem p hmem, hrest⟩

theorem Sometime.here {tr : Trace (State T) (Event T)} {s : State T} {e : Event T} {c : Nat}
    {a : Call T} {P : State T → Event T → Prop} (hc : s.calls[c]? = some a)
    (ha : a.returned = false) (hP : P s e) : Sometime ((s, e) :: tr) c P :=
  ⟨s, e, List.mem_cons_self, ⟨a, hc, ha⟩, hP⟩

/-- The buffer is empty, and a sender is counted. -/
def EmptyWithSender (u : State T) (_ : Event T) : Prop :=
  u.cb.buffer.contents = [] ∧ 0 < u.cb.senders

/-- The buffer is empty, and no sender is counted. -/
def EmptyWithoutSender (u : State T) (_ : Event T) : Prop :=
  u.cb.buffer.contents = [] ∧ u.cb.senders = 0

def NoReceiver (u : State T) (_ : Event T) : Prop := u.cb.receivers = 0

/-- The last sender leaves while messages are pending. -/
def LeavesPending (u : State T) (e : Event T) : Prop :=
  u.cb.senders = 1 ∧ u.cb.buffer.contents ≠ [] ∧
    ∃ d tx : Nat, u.calls[d]? = some (.dropSender tx) ∧ e = .silent d

/-- After that, a call other than `c` takes a message. -/
def TakenByOther (c : Nat) (u : State T) (e : Event T) : Prop :=
  u.cb.senders = 0 ∧ ∃ d rx m, d ≠ c ∧ e = .pop d rx (some m)

/-! ## What is known of a call -/

/-- What the past of call `c` says for the program point it is at. -/
def Vouched (tr : Trace (State T) (Event T)) (s : State T) (c : Nat) : Call T → Prop
  | .pop _ .tryRecv true =>
      Sometime tr c EmptyWithSender ∨ 0 < s.cb.senders ∨
        (Sometime tr c LeavesPending ∧ s.cb.senders = 0 ∧
          (s.cb.buffer.contents ≠ [] ∨ Sometime tr c (TakenByOther c)))
  | .tried _ (.error .empty) =>
      Sometime tr c EmptyWithSender ∨
        (Sometime tr c LeavesPending ∧ Sometime tr c (TakenByOther c) ∧
          Sometime tr c EmptyWithoutSender)
  | .tried _ (.error .disconnected) => Sometime tr c EmptyWithoutSender
  | .sent _ _ (.error _) => Sometime tr c NoReceiver
  | _ => True

/-- While call `c` stands between its reads, every step of another call keeps
what is known of it. -/
theorem vouched_kept {tr : Trace (State T) (Event T)} {s s' : State T} {e : Event T} {c : Nat}
    {a : Call T} (hw : Wf s) (h : Trans s e s') (hc : s.calls[c]? = some a)
    (hc' : s'.calls[c]? = some a) (hi : Vouched tr s c a) : Vouched ((s, e) :: tr) s' c a := by
  cases a with
  | pop rx l connected =>
      cases l with
      | tryRecv =>
          cases connected with
          | true =>
              rcases hi with hseen | hpos | ⟨hleft, hz, hpend⟩
              · exact Or.inl (hseen.cons _)
              · -- the count is positive: it stays so, or the last sender leaves now
                by_cases hz' : s'.cb.senders = 0
                · by_cases hnil : s.cb.buffer.contents = []
                  · exact Or.inl (.here hc rfl ⟨hnil, hpos⟩)
                  · cases h with
                    | @dropSenderLast d tx hd hone =>
                        exact Or.inr (Or.inr
                          ⟨.here hc rfl ⟨hone, hnil, d, tx, hd, rfl⟩, hz', Or.inl hnil⟩)
                    | @dropSenderMore d tx hd hmore =>
                        have : s.cb.senders - 1 = 0 := hz'
                        omega
                    | cloneSender => exact absurd hz' (Nat.succ_ne_zero _)
                    | _ => exact absurd hz' (Nat.ne_of_gt hpos)
                · exact Or.inr (Or.inl (Nat.pos_of_ne_zero hz'))
              · refine Or.inr (Or.inr ⟨hleft.cons _, senders_zero_of_trans hw h hz, ?_⟩)
                rcases hpend with hne | htaken
                · cases h with
                  | @popSome d r l b m hd hpop =>
                      have hdc : d ≠ c := by
                        rintro rfl
                        rw [State.move_calls, Ledger.getElem?_set_self_of _ hd] at hc'
                        rcases l with _ | p | ⟨_ | _⟩ <;> cases hc'
                      exact Or.inr (.here hc rfl ⟨hz, d, r, m, hdc, rfl⟩)
                  | popEmpty _ hpop | popDisconnected _ hpop =>
                      exact absurd (RingBuffer.contents_of_pop_none hpop).1 hne
                  | pushNew hd _ | pushOver hd _ => cases no_sender_call hw hz hd rfl
                  | _ => exact Or.inl hne
                · exact Or.inr (htaken.cons _)
          | false => exact trivial
      | first | again => cases connected <;> exact trivial
  | tried rx r =>
      rcases r with (_ | _) | m
      · rcases hi with hseen | ⟨h₁, h₂, h₃⟩
        · exact Or.inl (hseen.cons _)
        · exact Or.inr ⟨h₁.cons _, h₂.cons _, h₃.cons _⟩
      · exact Sometime.cons hi _
      · exact trivial
  | sent tx m r =>
      rcases r with x | x
      · exact Sometime.cons hi _
      · exact trivial
  | _ => exact trivial

/-- What is known of a call when it gets to a program point. -/
theorem vouched_moved {tr : Trace (State T) (Event T)} {s s' : State T} {e : Event T} {c : Nat}
    {a : Call T} (he : Ended s) (h : Trans s e s')
    (hi : ∀ (c : Nat) (a : Call T), s.calls[c]? = some a → Vouched tr s c a)
    (hc' : s'.calls[c]? = some a) (hnew : s.calls[c]? ≠ some a) :
    Vouched ((s, e) :: tr) s' c a := by
  have hset : ∀ {j : Nat} {d : Call T}, (s.calls.set j d)[c]? = some a →
      (c = j → a = d → Vouched ((s, e) :: tr) s' c a) → Vouched ((s, e) :: tr) s' c a := by
    intro j d hj hd
    rcases Ledger.getElem?_set_cases hj with ⟨hcj, had⟩ | ⟨-, hold⟩
    · exact hd hcj had
    · exact absurd hold hnew
  cases h with
  | @start op _ _ =>
      rcases Ledger.getElem?_concat_cases hc' with ⟨-, rfl⟩ | hold
      · cases op <;> exact trivial
      · exact absurd hold hnew
  | startDropSender | startDropReceiver =>
      rcases Ledger.getElem?_concat_cases hc' with ⟨-, rfl⟩ | hold
      · exact trivial
      · exact absurd hold hnew
  | @refuse j tx m hj hz =>
      refine hset hc' ?_
      rintro rfl rfl
      exact Sometime.here hj rfl hz
  | @load j rx l hj =>
      refine hset hc' ?_
      rintro rfl rfl
      cases l with
      | tryRecv =>
          cases hpos : decide (0 < s.cb.senders) with
          | true => exact Or.inr (Or.inl (of_decide_eq_true hpos))
          | false => exact trivial
      | first | again => cases decide (0 < s.cb.senders) <;> exact trivial
  | @popSome j rx l b m hj hpop =>
      refine hset hc' ?_
      rintro rfl rfl
      rcases l with _ | p | ⟨_ | _⟩ <;> exact trivial
  | @popEmpty j rx l hj hpop =>
      refine hset hc' ?_
      rintro rfl rfl
      have hnil := (RingBuffer.contents_of_pop_none hpop).1
      rcases l with _ | p | ⟨_ | _⟩
      · rcases hi c _ hj with hseen | hpos | ⟨hleft, hz, hpend⟩
        · exact Or.inl (hseen.cons _)
        · exact Or.inl (.here hj rfl ⟨hnil, hpos⟩)
        · refine Or.inr ⟨hleft.cons _, ?_, .here hj rfl ⟨hnil, hz⟩⟩
          exact (hpend.resolve_left fun hne => hne hnil).cons _
      · exact trivial
      · exact trivial
      · exact trivial
  | @popDisconnected j rx l hj hpop =>
      refine hset hc' ?_
      rintro rfl rfl
      have hnil := (RingBuffer.contents_of_pop_none hpop).1
      have hz := he.zero c _ hj (Or.inl rfl)
      rcases l with _ | p | ⟨_ | _⟩
      · exact Sometime.here hj rfl ⟨hnil, hz⟩
      · exact trivial
      · exact trivial
      · exact trivial
  | @scanEnd j p hj | @wake j p w hj =>
      refine hset hc' ?_
      rintro rfl rfl
      cases p <;> exact trivial
  | dropSenderLast | dropSenderMore | dropReceiverLast | dropReceiverMore =>
      refine hset hc' ?_
      rintro rfl rfl
      exact trivial
  | _ =>
      refine hset hc' ?_
      rintro rfl rfl
      exact trivial

theorem vouched_of_run {ok : Trace (State T) (Event T) → State T → Event T → Prop} {lay : Layout}
    {n : Nat} {h : 0 < n} {tr : Trace (State T) (Event T)} {s : State T}
    (hrun : Runs ok lay n h tr s) :
    ∀ (c : Nat) (a : Call T), s.calls[c]? = some a → Vouched tr s c a := by
  induction hrun with
  | start => intro c a hc; simp [State.ringChannel] at hc
  | @step tr s e s' hrun hn _ ih =>
      intro c a hc
      have htrans := trans_of_next hn
      by_cases hold : s.calls[c]? = some a
      · exact vouched_kept (wf_of_run hrun) htrans hold hc (ih c a hold)
      · exact vouched_moved (ended_of_run hrun) htrans ih hc hold

/-! ## A refused send changes nothing -/

/-- The call that makes the step. -/
def Event.caller : Event T → Nat
  | .start c _ | .repoll c _ | .refuse c _ | .push c .. | .pop c .. | .insert c .. | .remove c ..
  | .deregister c .. | .take c _ | .wake c _ | .free c | .silent c => c

/-- The client does something: it makes a call, or its executor polls again. -/
def Event.byClient : Event T → Bool
  | .start .. | .repoll .. => true
  | _ => false

/-- A step of call `c` is one of a call that has not returned. -/
theorem caller_of_run {s s' : State T} {c : Nat} {e : Event T} :
    ∀ {a : Call T}, a.run s c = some (e, s') →
      e.caller = c ∧ e.byClient = false ∧ a.returned = false := by
  intro a h
  cases a with
  | sendLoad | sendPush | insert | remove =>
      simp only [Call.run] at h
      split at h <;> cases h <;> exact ⟨rfl, rfl, rfl⟩
  | cloneRegister =>
      simp only [Call.run] at h
      split at h
      · cases h
        exact ⟨rfl, rfl, rfl⟩
      · cases h
  | popScan p ks =>
      cases ks with
      | nil =>
          cases h
          exact ⟨rfl, rfl, rfl⟩
      | cons k ks =>
          simp only [Call.run] at h
          split at h <;> cases h <;> exact ⟨rfl, rfl, rfl⟩
  | dropReceiver =>
      simp only [Call.run] at h
      split at h
      · split at h <;> cases h <;> exact ⟨rfl, rfl, rfl⟩
      · cases h
  | sent | clonedSender | clonedReceiver | dropped | tried | pending | parked | ready => cases h
  | _ =>
      cases h
      exact ⟨rfl, rfl, rfl⟩

theorem caller_of_step {s s' : State T} {c : Nat} {e : Event T}
    (h : step s (.run c) = some (e, s')) :
    ∃ a, s.calls[c]? = some a ∧ e.caller = c ∧ e.byClient = false ∧ a.returned = false := by
  simp only [step] at h
  split at h
  · exact ⟨_, ‹_›, caller_of_run h⟩
  · cases h

/-- A send that has not passed its check. -/
def Call.unpassed : Call T → Bool
  | .sendLoad .. | .sent _ _ (.error _) => true
  | _ => false

theorem calls_of_other {s s' : State T} {e : Event T} (h : Trans s e s') {c : Nat}
    (hne : e.caller ≠ c) {a : Call T} (hc : s'.calls[c]? = some a) : s.calls[c]? = some a := by
  cases h with
  | start | startDropSender | startDropReceiver =>
      rcases Ledger.getElem?_concat_cases hc with ⟨heq, -⟩ | hold
      · exact absurd heq.symm hne
      · exact hold
  | _ =>
      rcases Ledger.getElem?_set_cases hc with ⟨heq, -⟩ | ⟨-, hold⟩
      · exact absurd heq.symm hne
      · exact hold

/-- Another call's step leaves a call where it is. -/
theorem calls_kept {s s' : State T} {e : Event T} (h : Trans s e s') {c : Nat}
    (hne : e.caller ≠ c) {a : Call T} (hc : s.calls[c]? = some a) : s'.calls[c]? = some a := by
  obtain ⟨b, hb, -⟩ := endpoint_of_trans h hc
  obtain rfl : a = b := Option.some.inj (hc.symm.trans (calls_of_other h hne hb))
  exact hb

theorem answered_unpassed (rx : Nat) (l : Look) (r : Except TryRecvError T) :
    (l.answered rx r).unpassed = false := by
  rcases l with _ | p | ⟨_ | _⟩ <;> rcases r with (_ | _) | m <;> rfl

theorem caller_lt_of_trans {s s' : State T} {e : Event T} (h : Trans s e s') :
    e.caller < s'.calls.length ∧ s.calls.length ≤ s'.calls.length := by
  have hset : ∀ {c : Nat} {a d : Call T}, s.calls[c]? = some a →
      c < (s.calls.set c d).length ∧ s.calls.length ≤ (s.calls.set c d).length := by
    intro c a d hc
    rw [List.length_set]
    exact ⟨(List.getElem?_eq_some_iff.mp hc).1, Nat.le_refl _⟩
  cases h with
  | start | startDropSender | startDropReceiver =>
      simp only [Event.caller, List.length_append, List.length_cons, List.length_nil]
      omega
  | _ => exact hset ‹_›

theorem caller_lt_of_run {ok : Trace (State T) (Event T) → State T → Event T → Prop}
    {lay : Layout} {n : Nat} {h : 0 < n} {tr : Trace (State T) (Event T)} {s : State T}
    (hrun : Runs ok lay n h tr s) {u v : State T} {e : Event T} (hmem : (u, e, v) ∈ steps tr s) :
    e.caller < s.calls.length := by
  induction hrun with
  | start => cases hmem
  | step _ hn _ ih =>
      obtain ⟨hlt, hle⟩ := caller_lt_of_trans (trans_of_next hn)
      rcases List.mem_cons.mp hmem with heq | hold
      · cases heq
        exact hlt
      · exact Nat.lt_of_lt_of_le (ih hold) hle

/-- A step of a call that is, afterwards, a send that has not passed its check. -/
theorem same_of_unpassed {s s' : State T} {e : Event T} (h : Trans s e s') {a : Call T}
    (hc : s'.calls[e.caller]? = some a) (ha : a.unpassed = true) :
    (s'.cb.buffer = s.cb.buffer ∧ s'.cb.waitlist = s.cb.waitlist) ∧
      ∀ b, s.calls[e.caller]? = some b → b.unpassed = true := by
  have hmover : ∀ {c : Nat} {x d : Call T}, s.calls[c]? = some x →
      (s.calls.set c d)[c]? = some a → a = d := by
    intro c x d hx hd
    rw [Ledger.getElem?_set_self_of d hx] at hd
    exact (Option.some.inj hd).symm
  cases h with
  | start | startDropSender | startDropReceiver =>
      refine ⟨⟨rfl, rfl⟩, fun b hb => ?_⟩
      have hlt := (List.getElem?_eq_some_iff.mp hb).1
      exact absurd hlt (Nat.lt_irrefl _)
  | @refuse c tx m hd _ =>
      refine ⟨⟨rfl, rfl⟩, fun b hb => ?_⟩
      obtain rfl := Option.some.inj (hd.symm.trans hb)
      rfl
  | @scanEnd _ p hd | @wake _ p _ hd =>
      obtain rfl := hmover hd hc
      cases p <;> cases ha
  | popSome hd _ | popEmpty hd _ | popDisconnected hd _ =>
      rw [hmover hd hc, answered_unpassed] at ha
      cases ha
  | dropSenderLast hd _ | dropSenderMore hd _ | dropReceiverLast hd _ | dropReceiverMore hd _ =>
      obtain rfl := hmover hd hc
      cases ha
  | _ =>
      obtain rfl := hmover ‹_› hc
      cases ha

/-- No step of a send that has not passed its check changes the buffer or the
waitlist. -/
theorem unpassed_of_run {ok : Trace (State T) (Event T) → State T → Event T → Prop}
    {lay : Layout} {n : Nat} {h : 0 < n} {tr : Trace (State T) (Event T)} {s : State T}
    (hrun : Runs ok lay n h tr s) : ∀ (c : Nat) (a : Call T), s.calls[c]? = some a →
      a.unpassed = true → ∀ u e v, (u, e, v) ∈ steps tr s → e.caller = c →
        v.cb.buffer = u.cb.buffer ∧ v.cb.waitlist = u.cb.waitlist := by
  induction hrun with
  | start => intro c a hc; simp [State.ringChannel] at hc
  | @step tr s e s' hrun hn _ ih =>
      intro c a hc ha u f v hmem hcaller
      have htrans := trans_of_next hn
      by_cases hmover : e.caller = c
      · subst hmover
        obtain ⟨hsame, hbefore⟩ := same_of_unpassed htrans hc ha
        rcases List.mem_cons.mp hmem with heq | hold
        · cases heq
          exact hsame
        · cases hb : s.calls[e.caller]? with
          | some b => exact ih e.caller b hb (hbefore b hb) u f v hold hcaller
          | none =>
              have hlt := caller_lt_of_run hrun hold
              rw [hcaller] at hlt
              exact absurd hlt (Nat.not_lt.mpr (List.getElem?_eq_none_iff.mp hb))
      · have hold := calls_of_other htrans hmover hc
        rcases List.mem_cons.mp hmem with heq | hmem
        · cases heq
          exact absurd hcaller hmover
        · exact ih c a hold ha u f v hmem hcaller

/-! ## The answers -/

/-- A message is sent; `try_recv` reads the sender count; the only sender is
dropped; another receiver takes the message; `try_recv` pops. -/
def leaveInBetween : List (Act Nat) :=
  .start (.cloneReceiver 0 1) :: List.replicate 2 (.run 0) ++
    .start (.send 0 1) :: List.replicate 6 (.run 1) ++
    .start (.tryRecv 0) :: [.run 2] ++
    .start (.dropSender 0) :: List.replicate 6 (.run 3) ++
    .start (.tryRecv 1) :: List.replicate 2 (.run 4) ++
    [.run 2]

/-- An answer `Empty` for which no state since the call was made had an empty
buffer and a sender. -/
theorem empty_unfounded_in_leaveInBetween :
    ¬ ∀ tr s, Runs (T := Nat) Free ⟨true, true⟩ 1 Nat.one_pos tr s →
      ∀ c rx : Nat, s.calls[c]? = some (.tried rx (.error .empty)) →
        ∃ u ∈ s :: tr.map Prod.fst, c < u.calls.length ∧ u.cb.buffer.contents = [] ∧
          0 < u.cb.senders := by
  intro hall
  have hfound := hall _ _ (runs_schedule _ _ _ _ leaveInBetween) 2 0 (by decide)
  revert hfound
  decide

/-- A failure answer was true at an instant of the call: `Disconnected` of an
empty buffer without senders, a refusal of a channel without receivers.
`Empty` was true of an empty buffer with a sender, unless the last sender left
during the call while messages were pending, other receives then took them, and
the buffer was empty when the call looked. -/
theorem failures_founded {lay : Layout} {n : Nat} {h : 0 < n}
    {tr : Trace (State T) (Event T)} {s : State T} (hrun : Runs Free lay n h tr s) :
    (∀ c rx : Nat, s.calls[c]? = some (.tried rx (.error .empty)) →
      Sometime tr c EmptyWithSender ∨
        (Sometime tr c LeavesPending ∧ Sometime tr c (TakenByOther c) ∧
          Sometime tr c EmptyWithoutSender)) ∧
    (∀ c rx : Nat, s.calls[c]? = some (.tried rx (.error .disconnected)) →
      Sometime tr c EmptyWithoutSender) ∧
    (∀ (c tx : Nat) (m m' : T), s.calls[c]? = some (.sent tx m (.error (.disconnected m'))) →
      m' = m ∧
      (∀ u e v, (u, e, v) ∈ steps tr s → e.caller = c →
        v.cb.buffer = u.cb.buffer ∧ v.cb.waitlist = u.cb.waitlist) ∧
      Sometime tr c NoReceiver) :=
  ⟨fun c _ hc => vouched_of_run hrun c _ hc, fun c _ hc => vouched_of_run hrun c _ hc,
    fun c _ _ _ hc => ⟨refused_of_run hrun hc, unpassed_of_run hrun c _ hc rfl,
      vouched_of_run hrun c _ hc⟩⟩

/-- The only receiver is dropped, and a message is sent. -/
def sendToNobody : List (Act Nat) :=
  .start (.dropReceiver 0) :: List.replicate 6 (.run 0) ++ [.start (.send 0 1), .run 1]

/-- The only receiver looks before the only sender is dropped, and after. -/
def lookTwice : List (Act Nat) :=
  .start (.tryRecv 0) :: List.replicate 2 (.run 0) ++
    .start (.dropSender 0) :: List.replicate 5 (.run 1) ++
    .start (.tryRecv 0) :: List.replicate 2 (.run 2)

/-- All three failure answers. -/
theorem failures_founded_in_lookTwice :
    let looked := schedule Free ⟨true, true⟩ 1 Nat.one_pos lookTwice
    let sent := schedule Free ⟨true, true⟩ 1 Nat.one_pos sendToNobody
    looked.2.calls = [.tried 0 (.error .empty), .dropped (.sender 0) true,
        .tried 0 (.error .disconnected)] ∧
      Sometime looked.1 0 EmptyWithSender ∧ Sometime looked.1 2 EmptyWithoutSender ∧
      sent.2.calls = [.dropped (.receiver 0) true, .sent 0 1 (.error (.disconnected 1))] ∧
      Sometime sent.1 1 NoReceiver := by
  intro looked sent
  obtain ⟨hempty, hdisconnected, -⟩ :=
    failures_founded (runs_schedule (T := Nat) Free ⟨true, true⟩ 1 Nat.one_pos lookTwice)
  obtain ⟨-, -, hrefused⟩ :=
    failures_founded (runs_schedule (T := Nat) Free ⟨true, true⟩ 1 Nat.one_pos sendToNobody)
  -- nothing is ever pending, so the sender left nothing
  have hnil : ∀ p ∈ looked.1, p.1.cb.buffer.contents = [] := by decide
  refine ⟨by decide, (hempty 0 0 (by decide)).resolve_right ?_, hdisconnected 2 0 (by decide),
    by decide, (hrefused 1 0 1 1 (by decide)).2.2⟩
  rintro ⟨⟨u, e, hmem, -, -, hpending, -⟩, -⟩
  exact hpending (hnil (u, e) hmem)

end RingChannel
