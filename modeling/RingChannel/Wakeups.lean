/-
# `RingChannel.Wakeups` — a message is matched by a wake-up that still counts

When a receiver sleeps with its waker in its slot while messages are pending,
every pending message must be somebody else's business: a send or a receiver's
drop that has yet to visit the slot, a poll that has yet to look at the buffer,
or a receiver that was woken and has not been polled since.  `Funded` counts
them: the pending messages are at most as many as these credits.

A push adds a message and the credit of its own scan.  A scan that takes a
waker hands its credit to the receiver that it wakes; a poll of that receiver
takes the credit over, and spends it on the message it pops or keeps it for its
second look; and a drop that finds its slot empty scans on with the credit that
its receiver may have had.  That last step is the one that `Drop` gets from
`deregister(..).is_none()`.
-/
import RingChannel.Wakers

namespace RingChannel

variable {T : Type}

/-! ## Who sleeps -/

/-- The last poll of the call answered `Pending`. -/
def Call.dozes : Call T → Bool
  | .pending _ | .parked _ => true
  | _ => false

/-- While a message is pending nobody goes to sleep: whoever sleeps with its
waker in its slot did so before. -/
theorem dozing_before {s s' : State T} {e : Event T} (h : Trans s e s')
    (hne : s'.cb.buffer.contents ≠ []) {k : Nat} {w : Waker} {b : Call T}
    (hk : s'.cb.waitlist.slot k = some (some w)) (hb : s'.calls[w.call]? = some b)
    (hd : b.dozes = true) :
    s.cb.waitlist.slot k = some (some w) ∧ s.calls[w.call]? = some b := by
  have hset : ∀ {c : Nat} {d : Call T}, d.dozes = false →
      (s.calls.set c d)[w.call]? = some b → w.call ≠ c ∧ s.calls[w.call]? = some b := by
    intro c d hdoze hset
    rcases Ledger.getElem?_set_cases hset with ⟨-, rfl⟩ | ⟨hwc, hold⟩
    · rw [hd] at hdoze
      cases hdoze
    · exact ⟨hwc, hold⟩
  have hconcat : ∀ op : Op T, (s.calls ++ [op.entry])[w.call]? = some b →
      s.calls[w.call]? = some b := by
    intro op hc
    rcases Ledger.getElem?_concat_cases hc with ⟨-, rfl⟩ | hold
    · cases op <;> cases hd
    · exact hold
  cases h with
  | start => exact ⟨hk, hconcat _ hb⟩
  | @startDropSender tx => exact ⟨hk, hconcat (.dropSender tx) hb⟩
  | @startDropReceiver rx => exact ⟨hk, hconcat (.dropReceiver rx) hb⟩
  | @scanEnd _ p | @wake _ p => exact ⟨hk, (hset (by cases p <;> rfl) hb).2⟩
  | scanHit _ hw => exact ⟨(hw.full_before hk).2, (hset rfl hb).2⟩
  | cloneRegister _ _ hadd => exact ⟨(hadd.full_before hk).2, (hset rfl hb).2⟩
  | deregisterEmpty _ _ hdrop | deregisterFull _ _ hdrop =>
      exact ⟨(hdrop.full_before hk).2, (hset rfl hb).2⟩
  | @popSome _ _ l _ _ _ _ =>
      exact ⟨hk, (hset (by rcases l with _ | _ | ⟨_ | _⟩ <;> rfl) hb).2⟩
  | popEmpty _ hpop | popDisconnected _ hpop =>
      exact absurd (RingBuffer.contents_of_pop_none hpop).2 hne
  | @insert c rx p old wl _ hw =>
      obtain ⟨hwc, hold⟩ := hset rfl hb
      refine ⟨?_, hold⟩
      rcases eq_or_ne k rx with rfl | hkr
      · have := hw.slot_self.symm.trans hk
        cases this
        exact absurd rfl hwc
      · exact (hw.slot_ne k hkr).symm.trans hk
  | remove _ hw => exact ⟨(hw.full_before hk).2, (hset rfl hb).2⟩
  | dropSenderLast | dropSenderMore | dropReceiverLast | dropReceiverMore =>
      exact ⟨hk, (hset rfl hb).2⟩
  | _ => exact ⟨hk, (hset rfl hb).2⟩

/-- A bound on the messages, for whoever sleeps on a slot, is kept by a step that
keeps the balance wherever somebody keeps sleeping. -/
theorem bound_of_trans {s s' : State T} {e : Event T} (f g : Nat → Nat) (h : Trans s e s')
    (hbal : ∀ (k : Nat) (w : Waker) (b : Call T), s'.cb.waitlist.slot k = some (some w) →
      s.cb.waitlist.slot k = some (some w) → s.calls[w.call]? = some b → b.dozes = true →
      s'.cb.buffer.contents ≠ [] →
      s'.cb.buffer.contents.length + f k ≤ s.cb.buffer.contents.length + g k)
    (hi : ∀ (k : Nat) (w : Waker) (b : Call T), s.cb.waitlist.slot k = some (some w) →
      s.calls[w.call]? = some b → b.dozes = true → s.cb.buffer.contents.length ≤ f k)
    (k : Nat) (w : Waker) (b : Call T) (hk : s'.cb.waitlist.slot k = some (some w))
    (hb : s'.calls[w.call]? = some b) (hd : b.dozes = true) :
    s'.cb.buffer.contents.length ≤ g k := by
  by_cases hne : s'.cb.buffer.contents = []
  · rw [hne]
    exact Nat.zero_le _
  · obtain ⟨hk', hb'⟩ := dozing_before h hne hk hb hd
    have hold := hi k w b hk' hb' hd
    have hstep := hbal k w b hk hk' hb' hd hne
    omega

/-! ## Credits -/

namespace Call

/-- The credit that the call holds for whoever sleeps on slot `k`: it will
visit the slot, or look at the buffer. -/
def credit (k : Nat) : Call T → Nat
  | .popLock (.send ..) | .popLock (.dropReceiver _) => 1
  | .popScan (.send ..) ks | .popScan (.dropReceiver _) ks => if k ∈ ks then 1 else 0
  | .load _ (.first _) | .load _ (.again _) | .pop _ (.first _) _ | .pop _ (.again _) _ => 1
  | _ => 0

end Call

/-- The credit that the receiver of slot `j` holds while it is not being
polled: its waker was taken since its last poll began. -/
def spare (tr : Trace (State T) (Event T)) (j : Nat) : Option Waker → Nat
  | none => (takenOn j tr).toNat
  | some _ => 0

@[simp] theorem spare_some (tr : Trace (State T) (Event T)) (j : Nat) (w : Waker) :
    spare tr j (some w) = 0 := rfl

theorem spare_le_one (tr : Trace (State T) (Event T)) (j : Nat) (o : Option Waker) :
    spare tr j o ≤ 1 := by
  cases o with
  | none => exact Bool.toNat_le _
  | some w => exact Nat.zero_le 1

/-- All credits for whoever sleeps on slot `k`. -/
def credits (tr : Trace (State T) (Event T)) (s : State T) (k : Nat) : Nat :=
  s.count (Call.credit k) + s.cb.waitlist.weight (spare tr)

def Funded (tr : Trace (State T) (Event T)) (s : State T) : Prop :=
  ∀ (k : Nat) (w : Waker) (b : Call T), s.cb.waitlist.slot k = some (some w) →
    s.calls[w.call]? = some b → b.dozes = true →
    s.cb.buffer.contents.length ≤ credits tr s k

/-- An event that neither takes a waker nor begins a poll leaves the spare
credits alone. -/
theorem spare_same {tr : Trace (State T) (Event T)} {s : State T} {e : Event T}
    (htake : ∀ f, e.takes f = false) (hpoll : ∀ rx, e.pollsOn rx = false) :
    spare ((s, e) :: tr) = spare tr := by
  funext j o
  cases o with
  | none => simp [spare, takenOn_cons, htake, hpoll]
  | some w => rfl

/-- When a poll of the registered receiver `rx` begins, at most one credit is
lost. -/
theorem weight_poll (tr : Trace (State T) (Event T)) {s : State T} (e : Event T) {rx : Nat}
    (htake : ∀ f, e.takes f = false) (hpoll : ∀ j, e.pollsOn j = true → j = rx)
    (hslot : s.cb.waitlist.slot rx ≠ none) :
    s.cb.waitlist.weight (spare tr) ≤ s.cb.waitlist.weight (spare ((s, e) :: tr)) + 1 := by
  obtain ⟨o, ho⟩ := Option.ne_none_iff_exists'.mp hslot
  have hat := Waitlist.weight_at (f := spare tr) (g := spare ((s, e) :: tr)) ho (fun j u hj => by
    cases u with
    | none =>
        have : e.pollsOn j = false := by
          cases hp : e.pollsOn j with
          | false => rfl
          | true => exact absurd (hpoll j hp) hj
        simp [spare, takenOn_cons, htake, this]
    | some w => rfl)
  have := spare_le_one tr rx o
  omega

/-- A step keeps the balance if it does so wherever somebody keeps sleeping. -/
theorem funded_of_trans {tr : Trace (State T) (Event T)} {s s' : State T} {e : Event T}
    (h : Trans s e s')
    (hbal : ∀ (k : Nat) (w : Waker), s'.cb.waitlist.slot k = some (some w) →
      s.cb.waitlist.slot k = some (some w) → s'.cb.buffer.contents ≠ [] →
      s'.cb.buffer.contents.length + credits tr s k
        ≤ s.cb.buffer.contents.length + credits ((s, e) :: tr) s' k)
    (hi : Funded tr s) : Funded ((s, e) :: tr) s' :=
  bound_of_trans (credits tr s) (credits ((s, e) :: tr) s') h
    (fun k w _ hk hk' _ _ hne => hbal k w hk hk' hne) hi

/-- The credits after a move, in terms of the call that moved. -/
theorem credits_move {tr tr' : Trace (State T) (Event T)} {s : State T} {c : Nat} {a d : Call T}
    {b : ControlBlock Nat T} (hc : s.calls[c]? = some a) {k : Nat}
    (hbal : b.buffer.contents.length + a.credit k + s.cb.waitlist.weight (spare tr)
      ≤ s.cb.buffer.contents.length + d.credit k + b.waitlist.weight (spare tr')) :
    b.buffer.contents.length + credits tr s k
      ≤ s.cb.buffer.contents.length + credits tr' (s.move c d b) k := by
  have hcount := count_move (Call.credit k) d b hc
  show _ ≤ _ + ((s.move c d b).count (Call.credit k) + b.waitlist.weight (spare tr'))
  unfold credits
  omega

/-- A call moves, and the balance is kept wherever somebody keeps sleeping. -/
theorem funded_slots {tr : Trace (State T) (Event T)} {s : State T} {e : Event T} {c : Nat}
    {a d : Call T} {cb : ControlBlock Nat T} (h : Trans s e (s.move c d cb))
    (hc : s.calls[c]? = some a)
    (hbal : ∀ (k : Nat) (w : Waker), s.cb.waitlist.slot k = some (some w) →
      cb.buffer.contents ≠ [] →
      cb.buffer.contents.length + a.credit k + s.cb.waitlist.weight (spare tr)
        ≤ s.cb.buffer.contents.length + d.credit k + cb.waitlist.weight (spare ((s, e) :: tr)))
    (hi : Funded tr s) : Funded ((s, e) :: tr) (s.move c d cb) :=
  funded_of_trans h (fun k w _ hk hne => credits_move hc (hbal k w hk hne)) hi

/-- A call moves, takes no waker and begins no poll, and leaves the waitlist
alone. -/
theorem funded_move {tr : Trace (State T) (Event T)} {s : State T} {e : Event T} {c : Nat}
    {a d : Call T} {cb : ControlBlock Nat T} (h : Trans s e (s.move c d cb))
    (hc : s.calls[c]? = some a) (htake : ∀ f, e.takes f = false)
    (hpoll : ∀ rx, e.pollsOn rx = false)
    (hweight : ∀ f, cb.waitlist.weight f = s.cb.waitlist.weight f)
    (hcredit : ∀ (k : Nat) (w : Waker), s.cb.waitlist.slot k = some (some w) →
      cb.buffer.contents ≠ [] →
      cb.buffer.contents.length + a.credit k ≤ s.cb.buffer.contents.length + d.credit k)
    (hi : Funded tr s) : Funded ((s, e) :: tr) (s.move c d cb) :=
  funded_slots h hc (fun k w hk hne => by
    have := hcredit k w hk hne
    rw [spare_same htake hpoll, hweight]
    omega) hi

theorem credit_le_one (k : Nat) (a : Call T) : a.credit k ≤ 1 := by
  unfold Call.credit
  split <;> first | exact Nat.le_refl 1 | exact Nat.zero_le 1 | (split <;> omega)

theorem entry_credit (op : Op T) (k : Nat) :
    op.entry.credit k = op.polled.isSome.toNat := by
  cases op <;> rfl

theorem answered_credit (k rx : Nat) (l : Look) (r : Except TryRecvError T) :
    (l.answered rx r).credit k = 0 := by
  rcases l with _ | p | ⟨_ | _⟩ <;> rcases r with (_ | _) | m <;> rfl

/-- A call is added, and begins a poll of `rx` if it begins one at all. -/
theorem funded_concat {tr : Trace (State T) (Event T)} {s s' : State T} (op : Op T)
    (h : Trans s (.start s.calls.length op) s') (hcalls : s'.calls = s.calls ++ [op.entry])
    (hcb : s'.cb = s.cb) (hslot : ∀ rx, op.polled = some rx → s.cb.waitlist.slot rx ≠ none)
    (hi : Funded tr s) : Funded ((s, .start s.calls.length op) :: tr) s' := by
  refine funded_of_trans h (fun k w _ _ _ => ?_) hi
  have hcount : s'.count (Call.credit k) = s.count (Call.credit k) + op.polled.isSome.toNat := by
    rw [← entry_credit op k]
    exact count_append _ hcalls
  unfold credits
  rw [hcount, hcb]
  cases hop : op.polled with
  | none =>
      rw [spare_same (fun _ => rfl) (fun rx => by simp [Event.pollsOn, hop])]
      exact Nat.le_refl _
  | some rx =>
      have := weight_poll tr (.start s.calls.length op) (fun _ => rfl)
        (fun j hj => by simpa [Event.pollsOn, hop, eq_comm] using hj) (hslot rx hop)
      simp only [Option.isSome_some, Bool.toNat_true]
      omega

/-- A scan gives its credit to the receiver whose waker it takes. -/
theorem funded_take {tr : Trace (State T) (Event T)} {s : State T} {c k : Nat} {p : Waking T}
    {ks : List Nat} {v : Waker} {wl : Waitlist Waker} (hvk : v.slot = k)
    (h : Trans s (.take c v) (s.move c (.wake p v) { s.cb with waitlist := wl.unlock }))
    (hc : s.calls[c]? = some (.popScan p (k :: ks)))
    (hwr : s.cb.waitlist.Writes k (some v) none wl) (hi : Funded tr s) :
    Funded ((s, .take c v) :: tr) (s.move c (.wake p v) { s.cb with waitlist := wl.unlock }) := by
  have hweight := hwr.weight_eq (spare tr) (spare ((s, .take c v) :: tr)) (fun j o hj => by
    cases o with
    | none => simp [spare, takenOn_cons, Event.takes, Event.pollsOn, hvk, Ne.symm hj]
    | some w => rfl)
  have hself : spare ((s, .take c v) :: tr) k none = 1 := by
    simp [spare, takenOn_cons, Event.takes, hvk]
  rw [hself] at hweight
  refine funded_slots h hc (fun j w _ _ => ?_) hi
  have hone := credit_le_one j (.popScan p (k :: ks) : Call T)
  have hnone : (Call.wake p v : Call T).credit j = 0 := rfl
  simp only [Waitlist.weight_unlock, spare_some] at hweight ⊢
  omega

theorem funded_step {tr : Trace (State T) (Event T)} {s s' : State T} {e : Event T}
    (hw : Wf s) (ht : Tokens s) (h : Trans s e s') (hi : Funded tr s) :
    Funded ((s, e) :: tr) s' := by
  have htrans := h
  cases h with
  | @start op hop _ =>
      refine funded_concat op htrans rfl rfl (fun rx hpoll => slot_of_usable hw _ ?_) hi
      have hu := usable_of_mayStart hop
      cases op <;> cases hpoll <;> exact hu
  | @startDropSender tx _ _ =>
      exact funded_concat (.dropSender tx) htrans rfl rfl (fun _ hpoll => by cases hpoll) hi
  | @startDropReceiver rx _ _ =>
      exact funded_concat (.dropReceiver rx) htrans rfl rfl (fun _ hpoll => by cases hpoll) hi
  | @repoll c rx hc =>
      refine funded_slots htrans hc (fun k w _ _ => ?_) hi
      have := weight_poll tr (.repoll c rx) (fun _ => rfl)
        (fun j hj => (of_decide_eq_true hj).symm)
        (slot_of_usable hw rx (hw.borrowed c _ hc rfl))
      simp only [Call.credit]
      omega
  | pushNew hc hpush =>
      refine funded_move htrans hc (fun _ => rfl) (fun _ => rfl) (fun _ => rfl)
        (fun k w _ _ => ?_) hi
      simp only [Call.credit, RingBuffer.contents_of_push_none hpush, List.length_append,
        List.length_cons, List.length_nil]
      omega
  | pushOver hc hpush =>
      obtain ⟨hbefore, hafter⟩ := RingBuffer.contents_of_push_some hpush
      refine funded_move htrans hc (fun _ => rfl) (fun _ => rfl) (fun _ => rfl)
        (fun k w _ _ => ?_) hi
      rw [hbefore]
      simp only [Call.credit, hafter, List.length_append, List.length_cons, List.length_nil]
      omega
  | @popLock c p hc =>
      refine funded_move htrans hc (fun _ => rfl) (fun _ => rfl) (fun _ => rfl)
        (fun k w hk _ => ?_) hi
      have := Waitlist.mem_keys_of_slot hk
      cases p <;> simp [Call.credit, this]
  | @scanEnd c p hc =>
      refine funded_move htrans hc (fun _ => rfl) (fun _ => rfl) (fun _ => rfl)
        (fun k w hk _ => ?_) hi
      cases p <;> simp [Call.credit]
  | @scanMiss c k p ks hc hmiss =>
      refine funded_move htrans hc (fun _ => rfl) (fun _ => rfl) (fun _ => rfl)
        (fun j w hj _ => ?_) hi
      have hjk : j ≠ k := fun h => hmiss w (h ▸ hj)
      cases p <;> simp [Call.credit, hjk]
  | scanHit hc hwr => exact funded_take (ht _ _ hwr.slot_before).1 htrans hc hwr hi
  | @wake c p v hc =>
      refine funded_move htrans hc (fun _ => rfl) (fun _ => rfl) (fun _ => rfl)
        (fun k w hk _ => ?_) hi
      cases p <;> exact Nat.le_refl _
  | @cloneSender c tx hc =>
      exact funded_of_trans htrans
        (fun k w _ _ _ => credits_move (d := .clonedSender tx)
          (b := { s.cb with senders := s.cb.senders + 1 }) hc (Nat.le_refl _)) hi
  | @cloneRegister c rx pos k wl hc _ hadd =>
      refine funded_of_trans htrans (fun j w _ _ _ => credits_move (d := .clonedReceiver rx)
        (b := { s.cb with waitlist := wl }) hc ?_) hi
      have := hadd.weight_eq (spare tr)
      rw [spare_same (fun _ => rfl) (fun _ => rfl)]
      simp only [Call.credit]
      omega
  | @deregisterEmpty c rx wl hc _ hdrop =>
      -- the receiver may have been woken for nothing, so its drop scans on
      refine funded_slots htrans hc (fun j w _ _ => ?_) hi
      have := hdrop.weight_eq (spare tr)
      have := spare_le_one tr rx none
      rw [spare_same (fun _ => rfl) (fun _ => rfl)]
      simp only [Call.credit]
      omega
  | @deregisterFull c rx v wl hc _ hdrop =>
      refine funded_slots htrans hc (fun j w _ _ => ?_) hi
      have := hdrop.weight_eq (spare tr)
      rw [spare_same (fun _ => rfl) (fun _ => rfl)]
      simp only [Call.credit, spare_some] at this ⊢
      omega
  | @free c e hc =>
      exact funded_of_trans htrans
        (fun k w _ _ _ => credits_move (d := .dropped e true) (b := s.cb) hc (Nat.le_refl _)) hi
  | @load c rx l hc =>
      refine funded_move htrans hc (fun _ => rfl) (fun _ => rfl) (fun _ => rfl)
        (fun k w hk _ => ?_) hi
      cases l <;> exact Nat.le_refl _
  | @popSome c rx l b m hc hpop =>
      -- the message leaves, and the credit of the poll that popped it with it
      refine funded_move htrans hc (fun _ => rfl) (fun _ => rfl) (fun _ => rfl)
        (fun k w hk _ => ?_) hi
      have := credit_le_one k (.pop rx l b : Call T)
      rw [answered_credit, RingBuffer.contents_of_pop_some hpop]
      simp only [List.length_cons]
      omega
  | popEmpty hc hpop | popDisconnected hc hpop =>
      exact funded_move htrans hc (fun _ => rfl) (fun _ => rfl) (fun _ => rfl)
        (fun k w hk hne => absurd (RingBuffer.contents_of_pop_none hpop).2 hne) hi
  | @insert c rx p old wl hc hwr =>
      -- the poll takes back the credit that its receiver may have had
      have hweight := hwr.weight_eq (spare tr) (spare tr) fun _ _ _ => rfl
      have := spare_le_one tr rx old
      refine funded_slots htrans hc (fun j w _ _ => ?_) hi
      rw [spare_same (fun _ => rfl) (fun _ => rfl)]
      simp only [Call.credit, spare_some] at hweight ⊢
      omega
  | @remove c rx p r old wl hc hwr =>
      have hweight := hwr.weight_eq (spare tr) (spare tr) fun _ _ _ => rfl
      refine funded_slots htrans hc (fun j w _ _ => ?_) hi
      rw [spare_same (fun _ => rfl) (fun _ => rfl)]
      have : spare tr rx old ≤ spare tr rx none := by
        cases old with
        | none => exact Nat.le_refl _
        | some v => exact Nat.zero_le _
      simp only [Call.credit] at hweight ⊢
      omega
  | dropSenderLast hc _ | dropSenderMore hc _ | dropReceiverLast hc _ | dropReceiverMore hc _ =>
      exact funded_move htrans hc (fun _ => rfl) (fun _ => rfl) (fun _ => rfl)
        (fun k w hk _ => Nat.le_refl _) hi
  | _ =>
      refine funded_move htrans ‹_› (fun _ => rfl) (fun _ => rfl) (fun _ => rfl)
        (fun k w hk _ => ?_) hi
      exact Nat.le_refl _

theorem funded_of_run {ok : Trace (State T) (Event T) → State T → Event T → Prop} {lay : Layout}
    {n : Nat} {h : 0 < n} {tr : Trace (State T) (Event T)} {s : State T}
    (hrun : Runs ok lay n h tr s) : Funded tr s :=
  hrun.invariant (I := Funded) (fun k w b _ hb => by simp [State.ringChannel] at hb)
    fun _ _ _ _ hrun hi hn _ =>
      funded_step (wf_of_run hrun) (tokens_of_run hrun) (trans_of_next hn) hi

/-! ## Receivers used as streams -/

/-- The methods of clients that use their receivers as streams. -/
def Op.streams : Op T → Bool
  | .recv _ => false
  | _ => true

/-- `poll_next` borrows its receiver exclusively, so polls of one receiver do
not overlap. -/
theorem onePoll_of_streams {lay : Layout} {n : Nat} {h : 0 < n}
    {tr : Trace (State T) (Event T)} {s : State T}
    (hrun : Runs (Only Op.streams) lay n h tr s) : Runs OnePoll lay n h tr s :=
  hrun.strengthen fun tr s e s' _ hn hok op hop rx hpoll a ha hpolled => by
    cases trans_of_next hn with
    | @start op' hmay _ =>
        obtain rfl : op' = op := Option.some.inj hop
        have honly := hok op' rfl
        cases op' with
        | pollNext r =>
            obtain rfl : r = rx := Option.some.inj hpoll
            simp only [State.mayStart, Bool.and_eq_true, Bool.not_eq_true',
              decide_eq_true_eq] at hmay
            obtain ⟨c, hc⟩ := List.mem_iff_getElem?.mp ha
            cases hret : a.returned with
            | true => rfl
            | false => exact absurd (endpoint_of_polled hpolled) (not_busy hmay.2 hc hret)
        | recv => cases honly
        | _ => cases hpoll
    | startDropSender | startDropReceiver =>
        obtain rfl := Option.some.inj hop
        cases hpoll
    | _ => cases hop

theorem credit_of_returned {a : Call T} (h : a.returned = true) (k : Nat) : a.credit k = 0 := by
  cases a <;> first | rfl | cases h

/-- When no method is in progress, the credits are those of receivers that have
been woken and not been polled since. -/
theorem exists_spare {ok : Trace (State T) (Event T) → State T → Event T → Prop} {lay : Layout}
    {n : Nat} {h : 0 < n} {tr : Trace (State T) (Event T)} {s : State T}
    (hrun : Runs ok lay n h tr s) (hquiet : ∀ a ∈ s.calls, a.returned = true) {k : Nat}
    (hpos : 0 < credits tr s k) :
    ∃ j, s.cb.waitlist.slot j = some none ∧ s.usable (.receiver j) ∧ wokenOn j tr = true := by
  have hreturned : ∀ (c : Nat) (a : Call T), s.calls[c]? = some a → a.returned = true :=
    fun c a hc => hquiet a (List.mem_of_getElem? hc)
  have hzero : s.count (Call.credit k) = 0 :=
    count_eq_zero fun c a hc => credit_of_returned (hreturned c a hc) k
  unfold credits at hpos
  have hspare : 0 < s.cb.waitlist.weight (spare tr) := by omega
  obtain ⟨j, o, hj, ho⟩ := Waitlist.exists_of_weight_pos hspare
  cases o with
  | some w => exact absurd ho (Nat.lt_irrefl 0)
  | none =>
      refine ⟨j, hj, ?_, ?_⟩
      · -- a slot without a drop that is about to deregister it has a live receiver
        have hslots := (wf_of_run hrun).registered.slots j
        rw [hj, count_eq_zero (f := Call.deregisters j) fun c a hc => by
          have := hreturned c a hc
          cases a <;> first | rfl | cases this] at hslots
        cases hu : (s.rxs.get j == some true) with
        | true => exact beq_iff_eq.mp hu
        | false =>
            rw [hu] at hslots
            cases hslots
      · have htaken : takenOn j tr = true := by
          cases hb : takenOn j tr with
          | true => rfl
          | false => simp [spare, hb] at ho
        rcases woken_of_taken hrun _ _ htaken with hwoken | ⟨d, p, w, hd, -⟩
        · exact hwoken
        · cases hreturned d _ hd

/-- Streams: while a message is pending and no method is in progress, a
receiver that sleeps un-woken is not alone: another live receiver has been
woken and has not been polled since. -/
theorem wakeup_handed_on {lay : Layout} {n : Nat} {h : 0 < n} {tr : Trace (State T) (Event T)}
    {s : State T} (hrun : Runs (Only Op.streams) lay n h tr s)
    (hquiet : ∀ a ∈ s.calls, a.returned = true) (hpending : s.cb.buffer.contents ≠ [])
    {x d : Nat} (hx : s.usable (.receiver x)) (hlast : lastPoll x tr = some d)
    (hd : s.calls[d]? = some (.pending x)) (hnot : wokenOn x tr = false) :
    ∃ y, y ≠ x ∧ s.usable (.receiver y) ∧ wokenOn y tr = true := by
  have hone := onePoll_of_streams hrun
  have hslot := slot_of_usable (wf_of_run hrun) _ hx
  rcases held_of_run (undisturbed_of_onePoll hone) d x ⟨_, hd, rfl, fun _ => hlast⟩ hslot with
    hheld | htaken
  · have hle := funded_of_run hrun x ⟨x, d⟩ _ hheld hd rfl
    have hpos := List.length_pos_of_ne_nil hpending
    obtain ⟨y, hy, hlive, hwoken⟩ := exists_spare hrun hquiet (Nat.lt_of_lt_of_le hpos hle)
    refine ⟨y, ?_, hlive, hwoken⟩
    rintro rfl
    rw [hy] at hheld
    cases hheld
  · -- a waker of `x` that was taken has been invoked, since nobody is about to
    rcases woken_of_taken hrun _ _ (takenOn_of_taken hrun hlast htaken) with hw | ⟨j, p, w, hj, -⟩
    · rw [show wokenOn x tr = true from hw] at hnot
      cases hnot
    · cases hquiet _ (List.mem_of_getElem? hj)

/-- Three receivers answer `Pending`, a send wakes the first of them, and that
one is dropped. -/
def wakeAndDrop : List (Act Nat) :=
  .start (.cloneReceiver 0 1) :: List.replicate 2 (.run 0) ++
    .start (.cloneReceiver 0 2) :: List.replicate 2 (.run 1) ++
    .start (.pollNext 0) :: List.replicate 5 (.run 2) ++
    .start (.pollNext 1) :: List.replicate 5 (.run 3) ++
    .start (.pollNext 2) :: List.replicate 5 (.run 4) ++
    .start (.send 0 10) :: List.replicate 5 (.run 5) ++
    .start (.dropReceiver 0) :: List.replicate 5 (.run 6)

theorem wakeup_handed_on_in_wakeAndDrop :
    let r := schedule (Only Op.streams) ⟨true, true⟩ 1 Nat.one_pos wakeAndDrop
    ¬ r.2.usable (.receiver 0) ∧ r.2.cb.buffer.contents = [10] ∧
      ∃ y, y ≠ 2 ∧ r.2.usable (.receiver y) ∧ wokenOn y r.1 = true :=
  ⟨by decide, by decide, wakeup_handed_on (d := 4) (runs_schedule ..) (by decide) (by decide)
    (by decide) (by decide) (by decide) (by decide)⟩

end RingChannel
