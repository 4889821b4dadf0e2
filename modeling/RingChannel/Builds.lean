/-
# `RingChannel.Builds` — the build without `futures_api` loses nothing and adds nothing

`Bare` answers every step of the full program.  Here the full program answers
every step of the bare one.  It has steps to make in between: after a push it
looks for a waker, before a receiver is subtracted it gives back the slot.  With
nobody waiting nothing comes of them, but they have to be made, and a slot is
given back under a lock that others may hold.

`settle` makes them all.  It does not choose an order: any run of such steps
comes to an end, because the work of `Settling` runs out, and where it ends none
of them is left, because one would be possible.

So what is true of the full channel is true of the bare one: it is a queue of
the given capacity, and it is freed once, when everything is over (`bare_safe`).
-/
import RingChannel.Bare
import RingChannel.Fifo
import RingChannel.Lifetime

namespace RingChannel

variable {T : Type}

/-! ## The steps in between -/

/-- Only the steps that the bare program does not have. -/
def Inside (_ : Trace (State T) (Event T)) (s : State T) (e : Event T) : Prop :=
  ∃ a, s.calls[e.caller]? = some a ∧ a.inside = true

/-- No call is in between. -/
def Settled (s : State T) : Prop := ∀ a ∈ s.calls, a.inside = false

theorem ready_of_inside {a : Call T} (h : a.inside = true) :
    a.returned = false ∧ a.asleep = false := by
  cases a with
  | popLock | popScan | wake | cloneReceiver | dropReceiver => exact ⟨rfl, rfl⟩
  | _ => cases h

/-- Steps in between are not seen, and no client makes them. -/
theorem unseen_of_inside {u : State T} {b : Bare.State T} (hR : Erases u b)
    {tr : Trace (State T) (Event T)} {s : State T} (hrun : Run (Next step) Inside u tr s) :
    Erases s b ∧ shown bareLook tr s = [] ∧ times Event.byClient tr = 0 := by
  induction hrun with
  | start => exact ⟨hR, rfl, rfl⟩
  | step _ hn hok ih =>
      obtain ⟨hR', hshown, htimes⟩ := ih
      obtain ⟨a, hc, ha⟩ := hok
      obtain ⟨hR'', hlook, hclient⟩ := erases_of_inside (trans_of_next hn) hR' hc ha
      refine ⟨hR'', ?_, ?_⟩
      · rw [shown, hshown, hlook]
        rfl
      · rw [times_cons, htimes, hclient]
        rfl

/-- There are only so many of them. -/
theorem length_of_inside {u : State T} {b : Bare.State T} (hR : Erases u b)
    {tr : Trace (State T) (Event T)} {s : State T} (hrun : Run (Next step) Inside u tr s) :
    tr.length ≤ u.work u.slots := by
  have hclient := (unseen_of_inside hR hrun).2.2
  have hclones := clones_le_byClient tr
  have hwork := work_of_run hrun (K := u.slots) fun x hx => by
    have := (slots_of_run hrun).2 x hx
    omega
  rw [hclient, Nat.zero_mul] at hwork
  omega

/-- Where a call is in between, one of them can make its step: if the lock is
held, it is by such a call. -/
theorem exists_step_of_inside {s : State T} (hw : Wf s) (hl : ReadLocked s) {a : Call T}
    (hmem : a ∈ s.calls) (ha : a.inside = true) : ∃ e s', Next step s e s' ∧ Inside [] s e := by
  have hpick : ∃ (c : Nat) (d : Call T), s.calls[c]? = some d ∧ d.inside = true ∧
      (d.writes = true → s.cb.waitlist.readers = 0) := by
    rcases Nat.eq_zero_or_pos s.cb.waitlist.readers with hfree | hpos
    · obtain ⟨c, hc⟩ := List.mem_iff_getElem?.mp hmem
      exact ⟨c, a, hc, ha, fun _ => hfree⟩
    · rw [hl] at hpos
      obtain ⟨c, d, hc, hd⟩ := count_pos hpos
      obtain ⟨p, ks, rfl⟩ := eq_popScan_of_reads hd
      exact ⟨c, _, hc, rfl, nofun⟩
  obtain ⟨c, d, hc, hd, hlock⟩ := hpick
  obtain ⟨hret, hup⟩ := ready_of_inside hd
  obtain ⟨⟨e, s'⟩, hstep⟩ := Option.isSome_iff_exists.mp (step_of_ready hw hc hret hup hlock)
  obtain ⟨-, -, rfl, -⟩ := caller_of_step hstep
  exact ⟨e, s', ⟨_, hstep⟩, d, hc, hd⟩

theorem plain_of_not_byClient {e : Event T} (h : e.byClient = false)
    (tr : Trace (State T) (Event T)) (s : State T) : Plain tr s e := by
  intro op hop
  cases e with
  | start => cases h
  | _ => cases hop

variable {lay : Layout} {n : Nat} {h : 0 < n}

/-- They can all be made, and then none is left. -/
theorem settle {tr : Trace (State T) (Event T)} {s : State T} {b : Bare.State T}
    (hrun : Runs Plain lay n h tr s) (hR : Erases s b) :
    ∃ tr' s', Answers (Next step) Plain bareLook tr s [] tr' s' ∧ Erases s' b ∧ Settled s' := by
  have hstart : Run (Next step) Inside s [] s := .start
  obtain ⟨tr', s', hinside, hend⟩ :=
    Run.exists_stuck (fun _ _ hrun' => length_of_inside hR hrun') hstart
  rw [List.append_nil] at hinside hend
  obtain ⟨hR', hshown, -⟩ := unseen_of_inside hR hinside
  have hplain : Run (Next step) (Rule.after Plain tr) s tr' s' := by
    refine hinside.strengthen fun tr₁ u e v hrun₁ hn hok => ?_
    obtain ⟨a, hc, ha⟩ := hok
    exact plain_of_not_byClient
      (erases_of_inside (trans_of_next hn) (unseen_of_inside hR hrun₁).1 hc ha).2.2 _ u
  have hrun' : Runs Plain lay n h (tr' ++ tr) s' := hrun.append (fun _ _ _ _ h => h) hplain
  refine ⟨tr', s', ⟨hplain, hshown⟩, hR', fun a hmem => ?_⟩
  cases ha : a.inside with
  | false => rfl
  | true =>
      obtain ⟨e, v, hn, hok⟩ :=
        exists_step_of_inside (wf_of_run hrun') (readLocked_of_run hrun') hmem ha
      exact absurd hok (hend e v hn)

/-! ## The full program simulates the bare one -/

/-- The same method of the full program. -/
def Op.ofBare : Bare.Op T → Op T
  | .send tx m => .send tx m
  | .cloneSender tx => .cloneSender tx
  | .dropSender tx => .dropSender tx
  | .tryRecv rx => .tryRecv rx
  | .cloneReceiver rx => .cloneReceiver rx 0
  | .dropReceiver rx => .dropReceiver rx

theorem bare_ofBare (op : Bare.Op T) : (Op.ofBare op).bare = some op := by
  cases op <;> rfl

theorem returned_of_bare {a : Call T} {d : Bare.Call T} (h : a.bare = some d)
    (ha : a.inside = false) (hd : d.returned = true) : a.returned = true := by
  cases a with
  | sent | clonedSender | clonedReceiver | dropped | tried => rfl
  | popLock | popScan | wake | cloneReceiver | dropReceiver => cases ha
  | insert | remove | pending | parked | ready => cases h
  | load rx l | pop rx l connected =>
      cases l with
      | tryRecv =>
          cases h
          cases hd
      | first | again => cases h
  | _ =>
      cases h
      cases hd

theorem not_polling_of_bare {a : Call T} {d : Bare.Call T} (h : a.bare = some d) :
    a.polling = false ∧ a.asleep = false := by
  cases a with
  | load rx l | pop rx l connected =>
      cases l with
      | tryRecv => exact ⟨rfl, rfl⟩
      | first | again => cases h
  | insert | remove | pending | parked | ready => cases h
  | _ => exact ⟨rfl, rfl⟩

theorem not_busy_of_settled {s : State T} {b : Bare.State T} (hR : Erases s b) (hs : Settled s)
    {e : Endpoint} (h : b.busy e = false) : s.busy e = false := by
  refine List.any_eq_false.mpr fun a hmem => ?_
  obtain ⟨c, hc⟩ := List.mem_iff_getElem?.mp hmem
  obtain ⟨d, hd, hbare⟩ := hR.call hc
  have hfree := List.any_eq_false.mp h d (List.mem_of_getElem? hd)
  simp only [Bool.and_eq_true, Bool.not_eq_true', decide_eq_true_eq, not_and] at hfree ⊢
  intro hret
  rw [← bare_endpoint hbare]
  refine hfree ?_
  cases hdr : d.returned with
  | false => rfl
  | true =>
      rw [returned_of_bare hbare (hs a hmem) hdr] at hret
      cases hret

/-- A method that can be called in the bare program can be called in the full
one. -/
theorem start_of_bare {s : State T} {b : Bare.State T} (hR : Erases s b) (hs : Settled s)
    {op : Bare.Op T} (h : b.mayStart op = true) : s.mayStart (Op.ofBare op) = true := by
  have hpolled : ∀ rx, s.polled rx = false := by
    intro rx
    refine List.any_eq_false.mpr fun a hmem => ?_
    obtain ⟨c, hc⟩ := List.mem_iff_getElem?.mp hmem
    obtain ⟨d, -, hbare⟩ := hR.call hc
    simp [(not_polling_of_bare hbare).1]
  cases op with
  | send tx m | cloneSender tx =>
      simp only [Bare.State.mayStart, hR.txs] at h
      exact h
  | tryRecv rx | cloneReceiver rx =>
      simp only [Bare.State.mayStart, hR.rxs] at h
      simp only [Op.ofBare, State.mayStart, h, hpolled]
      rfl
  | dropSender tx =>
      simp only [Bare.State.mayStart, Bool.and_eq_true, Bool.not_eq_true', hR.txs] at h
      simp only [Op.ofBare, State.mayStart, h.1, not_busy_of_settled hR hs h.2]
      rfl
  | dropReceiver rx =>
      simp only [Bare.State.mayStart, Bool.and_eq_true, Bool.not_eq_true', hR.rxs] at h
      simp only [Op.ofBare, State.mayStart, h.1, not_busy_of_settled hR hs h.2]
      rfl

/-- A call that can go on in the bare program can go on in the full one. -/
theorem step_of_bare {tr : Trace (State T) (Event T)} {s : State T} {b : Bare.State T} {c : Nat}
    {e' : Bare.Event T} {b' : Bare.State T} (hrun : Runs Plain lay n h tr s) (hR : Erases s b)
    (hs : Settled s) (hstep : Bare.step b (.run c) = some (e', b')) :
    ∃ e s', step s (.run c) = some (e, s') := by
  simp only [Bare.step] at hstep
  split at hstep
  swap
  · cases hstep
  rename_i d hd
  obtain ⟨a, hc, hbare⟩ := hR.call_of_bare hd
  have hret : a.returned = false := by
    cases har : a.returned with
    | false => rfl
    | true =>
        have hdr := bare_returned hbare har
        cases d with
        | sent | clonedSender | clonedReceiver | dropped | tried => cases hstep
        | _ => cases hdr
  -- nobody visits the slots, so nobody holds the lock
  have hfree : s.cb.waitlist.readers = 0 := by
    rw [readLocked_of_run hrun]
    refine count_eq_zero fun j x hj => ?_
    cases x with
    | popScan => cases hs _ (List.mem_of_getElem? hj)
    | _ => rfl
  obtain ⟨⟨e, s'⟩, hfull⟩ := Option.isSome_iff_exists.mp
    (step_of_ready (wf_of_run hrun) hc hret (not_polling_of_bare hbare).2 fun _ => hfree)
  exact ⟨e, s', hfull⟩

/-- A step of the bare program is answered by one of the full one and the steps
in between that follow. -/
theorem plain_of_step {tr : Trace (State T) (Event T)} {s : State T} {b b' : Bare.State T}
    {e' : Bare.Event T} (hrun : Runs Plain lay n h tr s) (hR : Erases s b) (hs : Settled s)
    (hn : Next Bare.step b e' b') :
    ∃ tr' s', Answers (Next step) Plain bareLook tr s (Bare.look b e' b') tr' s' ∧
      Erases s' b' ∧ Settled s' := by
  have hanswer : ∀ (act : Act T) {e : Event T} {s₁ : State T}, step s act = some (e, s₁) →
      Plain tr s e → bareLook s e s₁ = Bare.look b e' b' → Erases s₁ b' →
      ∃ tr' s', Answers (Next step) Plain bareLook tr s (Bare.look b e' b') tr' s' ∧
        Erases s' b' ∧ Settled s' := by
    intro act e s₁ hstep hplain hlook hR₁
    have hone : Answers (Next step) Plain bareLook tr s (bareLook s e s₁) [(s, e)] s₁ :=
      .one ⟨act, hstep⟩ hplain
    obtain ⟨tr', s', hrest, hR', hs'⟩ := settle (hrun.step ⟨act, hstep⟩ hplain) hR₁
    have hall := hone.trans hrest
    rw [List.append_nil, hlook] at hall
    exact ⟨_, s', hall, hR', hs'⟩
  obtain ⟨act, hact⟩ := hn
  cases act with
  | start op =>
      simp only [Bare.step] at hact
      split at hact
      · rename_i hstart
        cases hact
        have hstart' := start_of_bare hR hs hstart
        obtain ⟨-, hR₁⟩ := bare_of_start hR (bare_ofBare op) hstart'
        refine hanswer (.start (Op.ofBare op)) (if_pos hstart') (fun x hx => ?_) ?_ hR₁
        · cases hx
          rw [bare_ofBare]
          rfl
        · rw [hR.length]
          simp only [Bare.look, bareLook, bare_ofBare]
          rfl
      · cases hact
  | run c =>
      obtain ⟨e, s₁, hstep⟩ := step_of_bare hrun hR hs hact
      obtain ⟨a, hc, rfl, hclient, -⟩ := caller_of_step hstep
      obtain ⟨e'', b'', hbare, hlook, hR₁⟩ :=
        bare_of_trans (wf_of_run hrun) (trans_of_step hstep) hclient hR
          fun x hx => hs x (List.mem_of_getElem? hx)
      cases hact.symm.trans hbare
      exact hanswer _ hstep (plain_of_not_byClient hclient tr s) hlook.symm hR₁

/-- Step by step the full program, used plainly, can do what the bare one does. -/
theorem plain_simulates (lay : Layout) (n : Nat) (h : 0 < n) :
    Simulates (Next Bare.step) Free (.ringChannel lay.message n h) Bare.look (Next step)
      Plain (.ringChannel lay n h) bareLook fun (b : Bare.State T) s => Erases s b ∧ Settled s where
  start := ⟨erases_start lay n h, nofun⟩
  step _ hn _ hrun' hR := plain_of_step hrun' hR.1 hR.2 hn

/-- Whatever a client sees of the channel built without the feature, a client of
the full channel can see that calls only the methods that never wait, whatever
the layout of the wakers. -/
theorem plain_of_bare {tr : Trace (Bare.State T) (Bare.Event T)} {b : Bare.State T}
    (hrun : Bare.Runs lay.message n h tr b) :
    ∃ tr' s, Runs Plain lay n h tr' s ∧ shown bareLook tr' s = shown Bare.look tr b ∧
      Erases s b ∧ Settled s :=
  (plain_simulates lay n h).run hrun

/-! ## What the bare program inherits -/

namespace Bare

/-- The messages pushed, in order. -/
def pushes : List (Event T) → List T :=
  List.filterMap fun
    | .push _ _ m _ => some m
    | _ => none

/-- The messages that left the buffer, in order. -/
def departures : List (Event T) → List T :=
  List.filterMap fun
    | .push _ _ _ overwritten => overwritten
    | .pop _ _ got => got
    | _ => none

def Event.frees : Event T → Bool
  | .free _ => true
  | _ => false

/-- Every endpoint ever made has been dropped, and the drops are over. -/
def AllDropped (b : State T) : Prop :=
  (∀ x ∈ b.txs, x = false) ∧ (∀ x ∈ b.rxs, x = false) ∧ ∀ d ∈ b.calls, d.returned = true

instance (b : State T) : Decidable (AllDropped b) := inferInstanceAs (Decidable (_ ∧ _ ∧ _))

end Bare

theorem pushes_shown : ∀ (tr : Trace (State T) (Event T)) (s : State T),
    Bare.pushes (shown bareLook tr s) = (pushed tr).map Prod.snd
  | [], _ => rfl
  | (u, e) :: tr, s => by
      have ih := pushes_shown tr u
      simp only [Bare.pushes] at ih
      simp only [shown, Bare.pushes, List.filterMap_append, ih]
      cases e with
      | start c op => cases hop : op.bare <;> simp [bareLook, hop, pushed]
      | _ => simp [bareLook, pushed]

theorem departures_shown : ∀ (tr : Trace (State T) (Event T)) (s : State T),
    Bare.departures (shown bareLook tr s) = (departed tr).map Prod.fst
  | [], _ => rfl
  | (u, e) :: tr, s => by
      have ih := departures_shown tr u
      simp only [Bare.departures] at ih
      simp only [shown, Bare.departures, List.filterMap_append, ih]
      cases e with
      | start c op => cases hop : op.bare <;> simp [bareLook, hop, departed]
      | push c tx m ov => cases ov <;> simp [bareLook, departed]
      | pop c rx got => cases got <;> simp [bareLook, departed]
      | _ => simp [bareLook, departed]

theorem frees_shown : ∀ (tr : Trace (State T) (Event T)) (s : State T),
    (shown bareLook tr s).countP Bare.Event.frees = tr.countP fun p => p.2.frees
  | [], _ => rfl
  | (u, e) :: tr, s => by
      rw [shown, List.countP_append, frees_shown tr u, List.countP_cons]
      cases e with
      | start c op => cases hop : op.bare <;> simp [bareLook, hop, Bare.Event.frees, Event.frees]
      | _ => simp [bareLook, Bare.Event.frees, Event.frees]

theorem pushed_of_run {tr : Trace (State T) (Event T)} {s : State T}
    (hrun : Runs Plain lay n h tr s) :
    (pushed tr).map Prod.snd = (departed tr).map Prod.fst ++ s.cb.buffer.contents := by
  have hi := refines_of_run hrun
  rw [← hi.entered, ← hi.fair.order, ← hi.left, ← hi.queue, List.map_append, List.map_map,
    List.map_map]
  rfl

/-- The channel built without the feature is a queue of its capacity, in which
nothing overtakes and nothing is lost; `try_recv` reports disconnection only
when no sender is left and the buffer is empty; and the block is freed at most
once, after every method has returned and every endpoint has gone, and it is
freed once they have. -/
theorem bare_safe {lockFree : Bool} {tr : Trace (Bare.State T) (Bare.Event T)} {b : Bare.State T}
    (hrun : Bare.Runs lockFree n h tr b) :
    (b.cb.buffer.contents.length ≤ n ∧
      Bare.pushes (shown Bare.look tr b)
        = Bare.departures (shown Bare.look tr b) ++ b.cb.buffer.contents) ∧
    (∀ c rx : Nat, b.calls[c]? = some (.tried rx (.error .disconnected)) →
      b.cb.senders = 0 ∧ b.cb.buffer.contents = []) ∧
    (shown Bare.look tr b).countP Bare.Event.frees ≤ 1 ∧
    (b.freed = true → (∀ d ∈ b.calls, d.returned = true) ∧ true ∉ b.txs ∧ true ∉ b.rxs) ∧
    (Bare.AllDropped b → (shown Bare.look tr b).countP Bare.Event.frees = 1) := by
  obtain ⟨tr', s, hfull, hshown, hR, hs⟩ := (plain_simulates ⟨lockFree, true⟩ n h).run hrun
  have hw := wf_of_run hfull
  have hi := phased_of_run hfull
  have hfrees := frees_of_run hfull
  rw [← hshown, frees_shown, hfrees]
  refine ⟨⟨?_, ?_⟩, fun c rx hc => ?_, Bool.toNat_le _, fun hf => ⟨fun d hmem => ?_, ?_, ?_⟩,
    fun hd => ?_⟩
  · have hrefines := refines_of_run hfull
    rw [hR.buffer, ← hrefines.capacity]
    exact s.cb.buffer.length_contents_le
  · rw [pushes_shown, departures_shown, hR.buffer]
    exact pushed_of_run hfull
  · obtain ⟨a, ha, hbare⟩ := hR.call_of_bare hc
    have hreported : s.Reported := by
      refine ⟨a, List.mem_of_getElem? ha, ?_⟩
      cases a with
      | tried =>
          cases hbare
          rfl
      | popLock p | popScan p ks | wake p w => cases p <;> cases hbare
      | load rx l | pop rx l connected => cases l <;> cases hbare
      | _ => cases hbare
    rw [hR.senders, hR.buffer]
    exact over_of_reported (ended_of_run hfull) hreported
  · obtain ⟨c, hd⟩ := List.mem_iff_getElem?.mp hmem
    obtain ⟨a, ha, hbare⟩ := hR.call_of_bare hd
    exact bare_returned hbare (returned_of_freed hw hi (hR.freed ▸ hf) ha)
  · intro hmem
    obtain ⟨tx, htx⟩ := List.mem_iff_getElem?.mp hmem
    have htx : s.txs[tx]? = some true := hR.txs ▸ htx
    exact not_usable_of_freed hw hi (hR.freed ▸ hf) (.sender tx) htx
  · intro hmem
    obtain ⟨rx, hrx⟩ := List.mem_iff_getElem?.mp hmem
    exact not_usable_of_freed hw hi (hR.freed ▸ hf) (.receiver rx) ((hR.rxs rx).symm.trans hrx)
  · obtain ⟨htxs, hrxs, hcalls⟩ := hd
    have hall : AllDropped s := by
      refine ⟨hR.txs ▸ htxs, fun k hk => ?_, fun a hmem => ?_⟩
      · obtain ⟨x, hx⟩ := SlotMap.get_of_mem_keys hk
        rw [hx, hrxs x (List.mem_of_getElem? ((hR.rxs k).trans hx))]
      · obtain ⟨c, hc⟩ := List.mem_iff_getElem?.mp hmem
        obtain ⟨d, hd, hbare⟩ := hR.call hc
        exact returned_of_bare hbare (hs a hmem) (hcalls d (List.mem_of_getElem? hd))
    rw [freed_of_allDropped hw hi hall]
    rfl

/-- A receive starts on a clone of the receiver while the other one is dropped;
then the sender is dropped, and the clone. -/
def bareLeave : List (Bare.Act Nat) :=
  [.start (.cloneReceiver 0), .run 0, .start (.send 0 1), .run 1, .run 1, .start (.tryRecv 1),
    .run 2, .start (.dropReceiver 0), .run 3, .run 2, .start (.dropSender 0), .run 4, .run 4,
    .start (.tryRecv 1), .run 5, .run 5, .start (.dropReceiver 1), .run 6, .run 6, .run 6]

theorem bare_safe_in_bareLeave :
    let r := Bare.schedule true 1 Nat.one_pos bareLeave
    r.2.calls[5]? = some (.tried 1 (.error .disconnected)) ∧
      Bare.departures (shown Bare.look r.1 r.2) = [1] ∧
      (shown Bare.look r.1 r.2).countP Bare.Event.frees = 1 :=
  ⟨by decide, by decide, (bare_safe (Bare.runs_schedule ..)).2.2.2.2 (by decide)⟩

theorem plain_of_bare_in_bareLeave :
    ∃ (tr : Trace (State Nat) (Event Nat)) (s : State Nat),
      Runs Plain ⟨true, false⟩ 1 Nat.one_pos tr s ∧
      shown bareLook tr s = [.start 0 (.cloneReceiver 0), .start 1 (.send 0 1),
        .push 1 0 1 none, .start 2 (.tryRecv 1), .start 3 (.dropReceiver 0), .pop 2 1 (some 1),
        .start 4 (.dropSender 0), .start 5 (.tryRecv 1), .pop 5 1 none,
        .start 6 (.dropReceiver 1), .free 6] := by
  have hbare : Bare.Runs (Layout.message ⟨true, false⟩) 1 Nat.one_pos _ _ :=
    Bare.runs_schedule true 1 Nat.one_pos bareLeave
  obtain ⟨tr, s, hrun, hshown, -⟩ := plain_of_bare hbare
  exact ⟨tr, s, hrun, hshown.trans (by decide)⟩

end RingChannel
