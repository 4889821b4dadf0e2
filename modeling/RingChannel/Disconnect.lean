/-
# `RingChannel.Disconnect` — the last sender wakes whoever sleeps

The drop of the last sender decrements the counter and then pops wakers until a
scan finds none.  A poll inserts its waker and then reads the counter again.
Whichever comes first, the two cannot miss each other: a poll that has read a
positive count after its insertion had its waker in the slot before the counter
became zero, so the wake loop has yet to visit the slot or has emptied it
(`Visited`).

That is enough when receivers are polled by one thread at a time.  Calls of
`recv` that share a receiver share its slot as well; `Sharing` is about them.
-/
import RingChannel.Lifetime
import RingChannel.Wakers

namespace RingChannel

variable {T : Type}

/-! ## The wake loop -/

namespace Call

/-- The drop of the last sender is in its wake loop and will visit slot `k`. -/
def willVisit (k : Nat) : Call T → Bool
  | .popLock (.dropSender _) | .wake (.dropSender _) _ => true
  | .popScan (.dropSender _) ks => k ∈ ks
  | _ => false

/-- The drop of the last sender has left its wake loop. -/
def leftLoop : Call T → Bool
  | .dropSenderSwap _ | .free (.sender _) | .dropped (.sender _) true => true
  | _ => false

/-- The poll has read a positive sender count after inserting its waker: it
sleeps, unless a message turns up. -/
def sleeps : Call T → Bool
  | .pop _ (.again _) connected => connected
  | .pending _ | .parked _ => true
  | _ => false

/-- The poll began its first look when no sender was left, and has not gone to
sleep since. -/
def awake : Call T → Bool
  | .load _ (.first _) | .remove .. | .ready .. => true
  | .pop _ (.first _) connected => !connected
  | _ => false

end Call

/-- With no sender left, the wake loop will still visit every slot that holds
the waker of a sleeping call. -/
def Visited (s : State T) : Prop :=
  s.cb.senders = 0 → ∀ (k : Nat) (w : Waker) (a : Call T),
    s.cb.waitlist.slot k = some (some w) → s.calls[w.call]? = some a → a.sleeps = true →
    ∃ (d : Nat) (b : Call T), s.calls[d]? = some b ∧ b.willVisit k = true

theorem visited_move {s s' : State T} {c : Nat} {a d : Call T} (hc : s.calls[c]? = some a)
    (hcalls : s'.calls = s.calls.set c d) (hz : s'.cb.senders = 0 → s.cb.senders = 0)
    (hslot : ∀ k w, s'.cb.waitlist.slot k = some (some w) →
      s.cb.waitlist.slot k = some (some w) ∧ (a.willVisit k = true → d.willVisit k = true))
    (hsleeps : s'.cb.senders = 0 → d.sleeps = true → a.sleeps = true)
    (hi : Visited s) : Visited s' := by
  intro hz' k w b hk hb hbs
  rw [hcalls] at hb
  obtain ⟨hold, hvisit⟩ := hslot k w hk
  obtain ⟨b', hb', hbs'⟩ : ∃ b', s.calls[w.call]? = some b' ∧ b'.sleeps = true := by
    rcases Ledger.getElem?_set_cases hb with ⟨hw, rfl⟩ | ⟨-, hb⟩
    · exact ⟨a, hw ▸ hc, hsleeps hz' hbs⟩
    · exact ⟨b, hb, hbs⟩
  obtain ⟨j, x, hj, hx⟩ := hi (hz hz') k w b' hold hb' hbs'
  rw [hcalls]
  rcases eq_or_ne j c with rfl | hjc
  · obtain rfl : a = x := Option.some.inj (hc.symm.trans hj)
    exact ⟨j, d, Ledger.getElem?_set_self_of d hc, hvisit hx⟩
  · exact ⟨j, x, (Ledger.getElem?_set_off d hjc).trans hj, hx⟩

/-- A call that is not in the wake loop moves, and fills no slot. -/
theorem visited_quiet {s s' : State T} {c : Nat} {a d : Call T} (hc : s.calls[c]? = some a)
    (hcalls : s'.calls = s.calls.set c d) (hz : s'.cb.senders = 0 → s.cb.senders = 0)
    (hslot : ∀ k w, s'.cb.waitlist.slot k = some (some w) →
      s.cb.waitlist.slot k = some (some w))
    (ha : ∀ k, a.willVisit k = false)
    (hsleeps : s'.cb.senders = 0 → d.sleeps = true → a.sleeps = true)
    (hi : Visited s) : Visited s' :=
  visited_move hc hcalls hz (fun k w hk => ⟨hslot k w hk, fun h => nomatch (ha k).symm.trans h⟩)
    hsleeps hi

theorem visited_concat {s s' : State T} (op : Op T) (hcalls : s'.calls = s.calls ++ [op.entry])
    (hcb : s'.cb = s.cb) (hi : Visited s) : Visited s' := by
  intro hz k w b hk hb hbs
  rw [hcb] at hz hk
  rw [hcalls] at hb ⊢
  rcases Ledger.getElem?_concat_cases hb with ⟨-, rfl⟩ | hb
  · cases op <;> cases hbs
  · obtain ⟨j, x, hj, hx⟩ := hi hz k w b hk hb hbs
    exact ⟨j, x, Ledger.getElem?_concat_old hj, hx⟩

theorem visited_step {s s' : State T} {e : Event T} (h : Trans s e s') (hi : Visited s) :
    Visited s' := by
  cases h with
  | @start op _ _ => exact visited_concat op rfl rfl hi
  | @startDropSender tx _ _ => exact visited_concat (.dropSender tx) rfl rfl hi
  | @startDropReceiver rx _ _ => exact visited_concat (.dropReceiver rx) rfl rfl hi
  | @popLock c p hc =>
      refine visited_move hc rfl id (fun k w hk => ⟨hk, fun ha => ?_⟩)
        (fun _ hd => by cases p <;> cases hd) hi
      cases p with
      | dropSender => exact decide_eq_true (Waitlist.mem_keys_of_slot hk)
      | send | dropReceiver => cases ha
  | @scanEnd c p hc =>
      exact visited_move hc rfl id (fun k w hk => ⟨hk, fun ha => by cases p <;> cases ha⟩)
        (fun _ hd => by cases p <;> cases hd) hi
  | @scanMiss c k p ks hc hmiss =>
      refine visited_move hc rfl id (fun j w hj => ⟨hj, fun ha => ?_⟩)
        (fun _ hd => by cases p <;> cases hd) hi
      cases p with
      | dropSender =>
          -- the slot just visited is empty, so `j` is still ahead
          simp only [Call.willVisit, List.mem_cons, Bool.decide_or, Bool.or_eq_true,
            decide_eq_true_eq] at ha ⊢
          exact ha.resolve_left fun hjk => hmiss w (hjk ▸ hj)
      | send | dropReceiver => cases ha
  | @scanHit c k p ks w wl hc hw =>
      refine visited_move hc rfl id (fun j v hj => ⟨(hw.full_before hj).2, fun ha => ?_⟩)
        (fun _ hd => by cases hd) hi
      cases p with
      | dropSender => rfl
      | send | dropReceiver => cases ha
  | @wake c p w hc =>
      refine visited_move hc rfl id (fun k v hk => ⟨hk, fun ha => ?_⟩)
        (fun _ hd => by cases p <;> cases hd) hi
      cases p with
      | dropSender => rfl
      | send | dropReceiver => cases ha
  | @dropSenderLast c tx hc _ =>
      exact fun _ k w b _ _ _ => ⟨c, _, Ledger.getElem?_set_self_of _ hc, rfl⟩
  | @dropSenderMore c tx hc hmore =>
      refine visited_quiet hc rfl (fun hz => ?_) (fun _ _ hk => hk) (fun _ => rfl)
        (fun _ hd => by cases hd) hi
      have : s.cb.senders - 1 = 0 := hz
      omega
  | @cloneSender c tx hc =>
      exact fun hz => absurd hz (Nat.succ_ne_zero _)
  | cloneRegister hc _ hadd =>
      exact visited_quiet hc rfl id (fun _ _ hj => (hadd.full_before hj).2) (fun _ => rfl)
        (fun _ hd => by cases hd) hi
  | deregisterEmpty hc _ hdrop | deregisterFull hc _ hdrop =>
      exact visited_quiet hc rfl id (fun _ _ hj => (hdrop.full_before hj).2) (fun _ => rfl)
        (fun _ hd => by cases hd) hi
  | dropReceiverLast hc _ | dropReceiverMore hc _ =>
      exact visited_quiet hc rfl id (fun _ _ hk => hk) (fun _ => rfl) (fun _ hd => by cases hd) hi
  | @load c rx l hc =>
      -- a count of zero, once read, lets nobody sleep
      refine visited_quiet hc rfl id (fun _ _ hk => hk) (fun _ => rfl) (fun hz hd => ?_) hi
      have hz' : s.cb.senders = 0 := hz
      cases l <;> simp [Call.sleeps, hz'] at hd
  | @popSome c rx l b m hc _ | @popDisconnected c rx l hc _ =>
      exact visited_quiet hc rfl id (fun _ _ hk => hk) (fun _ => rfl)
        (fun _ hd => by cases l <;> cases hd) hi
  | @popEmpty c rx l hc _ =>
      refine visited_quiet hc rfl id (fun _ _ hk => hk) (fun _ => rfl) (fun _ hd => ?_) hi
      cases l with
      | tryRecv | first => cases hd
      | again => rfl
  | @insert c rx p old wl hc hw =>
      -- the new waker is that of a call which has yet to read the counter
      intro hz k w b hk hb hbs
      rcases Ledger.getElem?_set_cases hb with ⟨-, rfl⟩ | ⟨hne, hold⟩
      · cases hbs
      · rcases eq_or_ne k rx with rfl | hkr
        · have := hw.slot_self.symm.trans hk
          cases this
          exact absurd rfl hne
        · obtain ⟨j, x, hj, hx⟩ := hi hz k w b ((hw.slot_ne k hkr).symm.trans hk) hold hbs
          have hjc : j ≠ c := by
            rintro rfl
            rw [hc] at hj
            cases hj
            cases hx
          exact ⟨j, x, (Ledger.getElem?_set_off _ hjc).trans hj, hx⟩
  | remove hc hw =>
      exact visited_quiet hc rfl id (fun _ _ hj => (hw.full_before hj).2) (fun _ => rfl)
        (fun _ hd => by cases hd) hi
  | _ =>
      exact visited_quiet ‹_› rfl id (fun _ _ hk => hk) (fun _ => rfl) (fun _ hd => by cases hd) hi

theorem visited_of_run {ok : Trace (State T) (Event T) → State T → Event T → Prop}
    {lay : Layout} {n : Nat} {h : 0 < n} {tr : Trace (State T) (Event T)} {s : State T}
    (hrun : Runs ok lay n h tr s) : Visited s :=
  hrun.invariant (I := fun _ s => Visited s) (fun hz => by cases hz)
    fun _ _ _ _ _ hi hn _ => visited_step (trans_of_next hn) hi

/-! ## After the loop -/

/-- When one drop has left the wake loop, the sender count is zero and nobody
is in the loop. -/
theorem over_of_leftLoop {s : State T} (hi : Phased s) {c : Nat} {a : Call T}
    (hc : s.calls[c]? = some a) (ha : a.leftLoop = true) :
    s.cb.senders = 0 ∧
      ∀ (d : Nat) (b : Call T) (k : Nat), s.calls[d]? = some b → b.willVisit k = false := by
  let f : Call T → Nat := fun a => a.lastSender + a.swappedSender
  have hsum : s.count f = s.count Call.lastSender + s.count Call.swappedSender :=
    Ledger.total_add
  have hfa : f a = 1 := by
    unfold Call.leftLoop at ha
    split at ha <;> first | rfl | cases ha
  have hle := le_count f hc
  have hphase := hi.senders
  have hz : s.cb.senders = 0 := by
    by_contra hne
    simp only [hne, if_false] at hphase
    omega
  refine ⟨hz, fun d b k hd => ?_⟩
  cases hb : b.willVisit k with
  | false => rfl
  | true =>
      have hfb : f b = 1 := by
        unfold Call.willVisit at hb
        split at hb <;> first | rfl | cases hb
      have hne : c ≠ d := by
        rintro rfl
        obtain rfl : a = b := Option.some.inj (hc.symm.trans hd)
        unfold Call.willVisit at hb
        split at hb <;> first | cases ha | cases hb
      have : f a + f b ≤ s.count f := Ledger.add_le_total (f := fun _ => f) hc hd hne
      simp only [hz, if_true] at hphase
      omega

/-- After the loop, a call that sleeps on a registered slot has been woken, or
somebody is about to wake it. -/
theorem woken_of_leftLoop {lay : Layout} {n : Nat} {h : 0 < n}
    {tr : Trace (State T) (Event T)} {s : State T} (hrun : Runs Undisturbed lay n h tr s)
    {c : Nat} {a : Call T} (hc : s.calls[c]? = some a) (ha : a.leftLoop = true)
    {d rx : Nat} {b : Call T} (hd : s.calls[d]? = some b) (hb : b.sleeps = true)
    (hwaits : Waits tr s d rx) (hslot : s.cb.waitlist.slot rx ≠ none) :
    woken d tr = true ∨
      ∃ (j : Nat) (p : Waking T) (w : Waker), s.calls[j]? = some (.wake p w) ∧ w.call = d := by
  obtain ⟨hz, hnone⟩ := over_of_leftLoop (phased_of_run hrun) hc ha
  rcases held_of_run hrun d rx hwaits hslot with hheld | htaken
  · -- its waker is still in the slot, but nobody is left to visit it
    obtain ⟨j, x, hj, hx⟩ := visited_of_run hrun hz rx ⟨rx, d⟩ b hheld hd hb
    rw [hnone j x rx hj] at hx
    cases hx
  · rcases woken_of_taken hrun _ _ htaken with hw | ⟨j, p, w, hj, hw⟩
    · exact Or.inl hw
    · exact Or.inr ⟨j, p, w, hj, of_decide_eq_true hw⟩

theorem awake_of_trans {s s' : State T} {e : Event T} (h : Trans s e s')
    (hz : s.cb.senders = 0) {j : Nat} {b : Call T} (hj : s.calls[j]? = some b)
    (hb : b.awake = true) : ∃ b', s'.calls[j]? = some b' ∧ b'.awake = true := by
  cases h with
  | start | startDropSender | startDropReceiver => exact ⟨b, Ledger.getElem?_concat_old hj, hb⟩
  | @load c rx l hc =>
      refine kept_move hc (fun ha => ?_) hj hb
      rw [hz]
      cases l with
      | first => rfl
      | tryRecv | again => cases ha
  | @popSome c rx l _ m hc _ =>
      refine kept_move hc (fun ha => ?_) hj hb
      cases l with
      | first => rfl
      | tryRecv | again => cases ha
  | @popEmpty c rx l hc _ =>
      exact kept_move hc (fun ha => by cases l <;> cases ha) hj hb
  | @popDisconnected c rx l hc _ =>
      refine kept_move hc (fun ha => ?_) hj hb
      cases l with
      | first => rfl
      | tryRecv | again => cases ha
  | remove hc _ => exact kept_move hc (fun _ => rfl) hj hb
  | repoll hc => exact kept_move hc (fun _ => rfl) hj hb
  | _ => exact kept_move ‹_› (fun ha => by cases ha) hj hb

/-- A poll that begins its first look when no sender is left never sleeps. -/
theorem awake_of_run {ok : Trace (State T) (Event T) → State T → Event T → Prop} {lay : Layout}
    {n : Nat} {h : 0 < n} {tr : Trace (State T) (Event T)} {s : State T}
    (hrun : Runs ok lay n h tr s) : ∀ u e, (u, e) ∈ tr → u.cb.senders = 0 →
      s.cb.senders = 0 ∧ ∀ (c rx : Nat) (p : Poller), u.calls[c]? = some (.load rx (.first p)) →
        ∃ a, s.calls[c]? = some a ∧ a.awake = true := by
  intro u e hmem hu
  refine hrun.onward
    (J := fun s => s.cb.senders = 0 ∧
      ∀ (c rx : Nat) (p : Poller), u.calls[c]? = some (.load rx (.first p)) →
        ∃ a, s.calls[c]? = some a ∧ a.awake = true)
    (fun _ v hrun hn => ?_) (fun _ s f s' hrun hi hn => ?_) hmem
  · have htrans := trans_of_next hn
    exact ⟨senders_zero_of_trans (wf_of_run hrun) htrans hu,
      fun c rx p hc => awake_of_trans htrans hu hc rfl⟩
  · have htrans := trans_of_next hn
    obtain ⟨hz, hawake⟩ := hi
    refine ⟨senders_zero_of_trans (wf_of_run hrun) htrans hz, fun c rx p hc => ?_⟩
    obtain ⟨a, ha, haw⟩ := hawake c rx p hc
    exact awake_of_trans htrans hz ha haw

/-- With one poll of a receiver at a time: when the drop of the last sender has
left its wake loop, a live receiver whose last poll answered `Pending` has been
woken since that poll began, or is about to be; and no poll that begins after
the count became zero answers `Pending`. -/
theorem disconnect_wakes_everyone {lay : Layout} {n : Nat} {h : 0 < n}
    {tr : Trace (State T) (Event T)} {s : State T} (hrun : Runs OnePoll lay n h tr s) :
    (∀ (c : Nat) (a : Call T), s.calls[c]? = some a → a.leftLoop = true →
      ∀ rx d, s.usable (.receiver rx) → lastPoll rx tr = some d →
        s.calls[d]? = some (.pending rx) ∨ s.calls[d]? = some (.parked rx) →
        woken d tr = true ∨
          ∃ (j : Nat) (p : Waking T) (w : Waker), s.calls[j]? = some (.wake p w) ∧ w.call = d) ∧
    (∀ u e, (u, e) ∈ tr → u.cb.senders = 0 → ∀ (c rx : Nat) (p : Poller),
      u.calls[c]? = some (.load rx (.first p)) →
        ∀ r, s.calls[c]? ≠ some (.pending r) ∧ s.calls[c]? ≠ some (.parked r)) := by
  constructor
  · intro c a hc ha rx d hlive hlast hd
    have hslot := slot_of_usable (wf_of_run hrun) _ hlive
    have hund := undisturbed_of_onePoll hrun
    rcases hd with hd | hd
    · exact woken_of_leftLoop hund hc ha hd rfl ⟨_, hd, rfl, fun _ => hlast⟩ hslot
    · exact woken_of_leftLoop hund hc ha hd rfl ⟨_, hd, rfl, fun _ => hlast⟩ hslot
  · intro u e hmem hz c rx p hc r
    obtain ⟨a, ha, haw⟩ := (awake_of_run hrun u e hmem hz).2 c rx p hc
    rw [ha]
    constructor <;> (rintro heq; cases heq; cases haw)

/-- A `recv` parks, and the only sender is dropped. -/
def parkAndLeave : List (Act Nat) :=
  .start (.recv 0) :: List.replicate 5 (.run 0) ++
    .start (.dropSender 0) :: List.replicate 8 (.run 1)

theorem disconnect_wakes_in_parkAndLeave :
    let r := schedule OnePoll ⟨true, true⟩ 1 Nat.one_pos parkAndLeave
    r.2.calls = [.parked 0, .dropped (.sender 0) true] ∧
      (woken 0 r.1 = true ∨ ∃ (j : Nat) (p : Waking Nat) (w : Waker),
        r.2.calls[j]? = some (.wake p w) ∧ w.call = 0) :=
  ⟨by decide, (disconnect_wakes_everyone (runs_schedule ..)).1 1 (.dropped (.sender 0) true)
    (by decide) rfl 0 0 (by decide) (by decide) (Or.inr (by decide))⟩

end RingChannel
