/-
# `RingChannel.Locking` — the channel with the lock of its waitlist

The waitlist is behind a spin lock.  `register` and `deregister` hold it for
writing; `insert`, `remove` and `pop` hold it for reading, a pop as long as it
visits the slots.  In `Channel` all of these sections but that of the pop are
single steps.  Here every one of them is taken apart: an attempt on the lock, the
work, and the guard dropped (`locking`).  A thread whose attempt fails spins.

A method's result is in the state one step before its guard is dropped, so a client
may go on a moment earlier here than it can; the runs of the source are among these.

To the channel itself it makes no difference: with the traffic on the lock struck
out, the runs are exactly those of `Channel` (`runs_iff_locks`).  What is new is
that threads keep each other waiting.  A thread that holds the lock never waits:
under its guard it performs atomic operations, takes no other lock and invokes no
waker.  So whoever cannot go on stands before a section, and the holders, if they
alone are run, let it in (`never_stuck`).  A `send`, a clone of a sender or a
receive is only ever kept waiting by one clone or drop of a receiver that is
inside its section, and is through it in two steps (`waits_for_one_writer`).
-/
import RingChannel.Progress
import RingChannel.Lib.RwLock

namespace RingChannel

variable {T : Type}

/-! ## The guards -/

namespace Call

/-- The guard under which the call performs its next operation. -/
def need : Call T → Option Guard
  | .insert .. | .remove .. | .popLock _ | .popScan .. => some .read
  | .cloneRegister .. | .dropReceiver _ => some .write
  | _ => none

/-- The operations that the call has yet to perform in its section, if `K` slots
are registered and none of them is found full. -/
def left (K : Nat) : Call T → Nat
  | .popLock _ => K + 2
  | .popScan _ ks => ks.length + 1
  | _ => 1

/-- The guard that the call holds between two of its steps, if every section but
that of a pop is a single step. -/
def scan : Call T → Option Guard
  | .popScan .. => some .read
  | _ => none

/-- The call is a clone or a drop of a receiver, and may be inside its section. -/
def rewrites : Call T → Bool
  | .cloneRegister .. | .clonedReceiver _ => true
  | .dropReceiver _ | .popLock (.dropReceiver _) | .dropReceiverSub _ => true
  | _ => false

end Call

/-- The call that makes the step by itself. -/
def Act.own : Act T → Option Nat
  | .run c => some c
  | _ => none

def State.left (s : State T) (c : Nat) : Nat :=
  (s.calls[c]?).elim 0 (Call.left s.cb.waitlist.keys.length)

theorem calls_of_run {s s' : State T} {e : Event T} {c d : Nat}
    (h : step s (.run c) = some (e, s')) (hd : d ≠ c) : s'.calls[d]? = s.calls[d]? := by
  obtain ⟨-, -, rfl, -⟩ := caller_of_step h
  have htrans := trans_of_step h
  cases hold : s.calls[d]? with
  | some a => exact calls_kept htrans (Ne.symm hd) hold
  | none =>
      cases hnew : s'.calls[d]? with
      | none => rfl
      | some b =>
          rw [calls_of_other htrans (Ne.symm hd) hnew] at hold
          cases hold

/-- A client disturbs no call that is not asleep. -/
theorem calls_of_client {s s' : State T} {act : Act T} {e : Event T} {c : Nat} {a : Call T}
    (hown : act.own = none) (h : step s act = some (e, s')) (hc : s.calls[c]? = some a)
    (ha : a.asleep = false) : s'.calls[c]? = some a := by
  have htrans := trans_of_step h
  cases act with
  | run d => cases hown
  | start op =>
      refine calls_kept htrans (fun heq => ?_) hc
      simp only [step] at h
      split at h
      · cases h
        exact absurd heq (Nat.ne_of_gt (List.getElem?_eq_some_iff.mp hc).1)
      · cases h
  | unpark d =>
      refine calls_kept htrans (fun heq => ?_) hc
      simp only [step] at h
      split at h
      · rename_i rx hd
        cases h
        obtain rfl : d = c := heq
        cases hc.symm.trans hd
        cases ha
      · cases h

theorem not_asleep_of_need {a : Call T} (h : a.need.isSome = true) :
    a.returned = false ∧ a.asleep = false := by
  cases a with
  | insert | remove | popLock | popScan | cloneRegister | dropReceiver => exact ⟨rfl, rfl⟩
  | _ => cases h

/-- The channel, and the guards that its calls take. -/
def locking : Guarded (State T) (Call T) (Event T) (Act T) where
  step := step
  point s c := s.calls[c]?
  need := Call.need
  run := .run
  own := Act.own
  own_run _ := rfl
  eq_run {act c} h := by
    cases act with
    | run d => rw [Option.some.inj h]
    | start | unpark => cases h
  apart := calls_of_run
  outside hown h hc ha := calls_of_client hown h hc (not_asleep_of_need ha).2
  lasting {s s' act e c} h hc := by
    obtain ⟨a, ha⟩ := Option.isSome_iff_exists.mp hc
    obtain ⟨b, hb, -⟩ := endpoint_of_trans (trans_of_step h) ha
    rw [hb]
    rfl

theorem needs_of_calls {s : State T} {c : Nat} {a : Call T} (hc : s.calls[c]? = some a) :
    locking.needs s c = a.need := by
  show (s.calls[c]?).bind Call.need = a.need
  rw [hc]
  rfl

/-- A call makes a step of its own under the guard that the step needs. -/
theorem locked_run {p : State T × RwLock} {s' : State T} {e : Event T} {c : Nat} {a : Call T}
    (hc : p.1.calls[c]? = some a) (hguard : p.2.guard c = a.need)
    (hstep : step p.1 (.run c) = some (e, s')) :
    locking.locked p (.act (.run c)) = some (.step e, s', p.2) := by
  refine Guarded.locked_act (fun d hd => ?_) hstep
  obtain rfl : c = d := Option.some.inj hd
  exact hguard.trans (needs_of_calls hc).symm

/-- The runs of a channel of capacity `n` whose threads take the lock. -/
abbrev Locks (lay : Layout) (n : Nat) (h : 0 < n) :
    Trace (State T × RwLock) (Guarded.Shows (Event T)) → State T × RwLock → Prop :=
  Run (Next locking.locked) Free (.ringChannel lay n h, .free)

theorem scan_before {s s' : State T} {e : Event T} (h : Trans s e s') {c : Nat} {w : Waking T}
    {ks : List Nat} (hc : s'.calls[c]? = some (.popScan w ks)) :
    (∃ js, s.calls[c]? = some (.popScan w js)) ∨ s.calls[c]? = some (.popLock w) := by
  have hset : ∀ {d : Nat} {a b : Call T}, s.calls[d]? = some a →
      (b = .popScan w ks → (∃ js, a = .popScan w js) ∨ a = .popLock w) →
      (s.calls.set d b)[c]? = some (.popScan w ks) →
      (∃ js, s.calls[c]? = some (.popScan w js)) ∨ s.calls[c]? = some (.popLock w) := by
    intro d a b hd hb hset
    rcases Ledger.getElem?_set_cases hset with ⟨rfl, rfl⟩ | ⟨-, hold⟩
    · rw [hd]
      rcases hb rfl with ⟨js, rfl⟩ | rfl
      · exact .inl ⟨js, rfl⟩
      · exact .inr rfl
    · exact .inl ⟨ks, hold⟩
  cases h with
  | @start op _ _ =>
      rcases Ledger.getElem?_concat_cases hc with ⟨-, heq⟩ | hold
      · cases op <;> cases heq
      · exact .inl ⟨ks, hold⟩
  | startDropSender | startDropReceiver =>
      rcases Ledger.getElem?_concat_cases hc with ⟨-, heq⟩ | hold
      · cases heq
      · exact .inl ⟨ks, hold⟩
  | popLock hd => exact hset hd (fun heq => by cases heq; exact .inr rfl) hc
  | scanMiss hd _ => exact hset hd (fun heq => by cases heq; exact .inl ⟨_, rfl⟩) hc
  | @scanEnd _ p hd | @wake _ p _ hd => exact hset hd (fun heq => by cases p <;> cases heq) hc
  | @popSome _ _ l _ _ hd _ | @popEmpty _ _ l hd _ | @popDisconnected _ _ l hd _ =>
      exact hset hd (fun heq => by rcases l with _ | _ | ⟨_ | _⟩ <;> cases heq) hc
  | dropSenderLast hd _ | dropSenderMore hd _ | dropReceiverLast hd _ | dropReceiverMore hd _ =>
      exact hset hd (fun heq => by cases heq) hc
  | _ => exact hset ‹_› (fun heq => by cases heq) hc

/-- What a step does to the section that it is made in: it is over, or the call
is a pop and has less of it left.  A reader changes no key, and who writes is a
clone or a drop of a receiver. -/
theorem section_of_trans {s s' : State T} {e : Event T} (h : Trans s e s') {c : Nat} {a : Call T}
    {m : Guard} (hc : s.calls[c]? = some a) (hm : a.need = some m) (he : e.caller = c) :
    ∃ d, s'.calls[c]? = some d ∧
      (d.need ≠ some m ∧ d.scan = none ∨ d.scan = some m ∧
        d.left s'.cb.waitlist.keys.length < a.left s.cb.waitlist.keys.length) ∧
      (m = .read → s'.cb.waitlist.keys = s.cb.waitlist.keys) ∧
      (m = .write → d.rewrites = true) := by
  have hset : ∀ {d : Call T}, (s.calls.set c d)[c]? = some d := fun {d} =>
    Ledger.getElem?_set_self_of d hc
  cases h with
  | start | startDropSender | startDropReceiver =>
      have hlt := (List.getElem?_eq_some_iff.mp hc).1
      exact absurd he (Nat.ne_of_gt hlt)
  | @popLock c' p hc' | @scanMiss c' k p ks hc' _ =>
      obtain rfl : c' = c := he
      cases hc.symm.trans hc'
      cases hm
      exact ⟨_, hset, .inr ⟨rfl, Nat.lt_succ_self _⟩, fun _ => rfl, nofun⟩
  | @scanEnd c' p hc' =>
      obtain rfl : c' = c := he
      cases hc.symm.trans hc'
      cases hm
      refine ⟨_, hset, .inl ?_, fun _ => rfl, nofun⟩
      cases p <;> exact ⟨nofun, rfl⟩
  | @scanHit c' k p ks w wl hc' hw | @insert c' rx p old wl hc' hw
  | @remove c' rx p r old wl hc' hw =>
      obtain rfl : c' = c := he
      cases hc.symm.trans hc'
      cases hm
      exact ⟨_, hset, .inl ⟨nofun, rfl⟩, fun _ => hw.keys_eq, nofun⟩
  | @cloneRegister c' rx pos k wl hc' _ _ =>
      obtain rfl : c' = c := he
      cases hc.symm.trans hc'
      cases hm
      exact ⟨_, hset, .inl ⟨nofun, rfl⟩, nofun, fun _ => rfl⟩
  | @deregisterEmpty c' rx wl hc' _ _ | @deregisterFull c' rx w wl hc' _ _ =>
      -- a drop that goes on to pop must first take the lock for reading
      obtain rfl : c' = c := he
      cases hc.symm.trans hc'
      cases hm
      exact ⟨_, hset, .inl ⟨nofun, rfl⟩, nofun, fun _ => rfl⟩
  | _ =>
      rw [← he] at hc
      cases hc.symm.trans ‹_›
      cases hm

theorem scan_of_need {a : Call T} (h : a.need = none) : a.scan = none := by
  cases a with
  | popScan => cases h
  | _ => rfl

theorem scan_cases (a : Call T) : a.scan = none ∨ a.scan = some .read ∧ a.need = some .read := by
  cases a with
  | popScan => exact .inr ⟨rfl, rfl⟩
  | _ => exact .inl rfl

/-- What every guard is, between the steps of the plain channel. -/
def Between (s : State T) (l : RwLock) : Prop := ∀ c, l.guard c = (s.calls[c]?).bind Call.scan

theorem scan_of_client {s s' : State T} {act : Act T} {e : Event T} (hown : act.own = none)
    (h : step s act = some (e, s')) (c : Nat) :
    (s'.calls[c]?).bind Call.scan = (s.calls[c]?).bind Call.scan := by
  cases act with
  | run d => cases hown
  | start op =>
      simp only [step] at h
      split at h
      · cases h
        have hcalls : (s.begin op).calls = s.calls ++ [op.entry] := by cases op <;> rfl
        have hentry : op.entry.scan = none := by cases op <;> rfl
        rw [hcalls]
        rcases eq_or_ne c s.calls.length with rfl | hne
        · rw [List.getElem?_concat_length, List.getElem?_eq_none (Nat.le_refl _)]
          exact hentry
        · rw [Ledger.getElem?_concat_off _ hne]
      · cases h
  | unpark d =>
      simp only [step] at h
      split at h
      · rename_i rx hd
        cases h
        rw [State.move_calls]
        rcases eq_or_ne c d with rfl | hcd
        · rw [Ledger.getElem?_set_self_of _ hd, hd]
          rfl
        · rw [Ledger.getElem?_set_off _ hcd]
      · cases h

/-- A pop does not begin to visit the slots without the lock. -/
theorem scan_of_unguarded {s s' : State T} {e : Event T} (h : Trans s e s') {c : Nat} {a : Call T}
    (hc : s.calls[c]? = some a) (ha : a.need = none) : (s'.calls[c]?).bind Call.scan = none := by
  cases hd : s'.calls[c]? with
  | none => rfl
  | some d =>
      cases d with
      | popScan w ks =>
          rcases scan_before h hd with ⟨js, hscan⟩ | hlock
          · cases hc.symm.trans hscan
            cases ha
          · cases hc.symm.trans hlock
            cases ha
      | _ => rfl

/-- A slot is registered or given back when no pop is out. -/
theorem readers_of_write {s s' : State T} {e : Event T} {c : Nat} {a : Call T}
    (hc : s.calls[c]? = some a) (hm : a.need = some .write)
    (h : step s (.run c) = some (e, s')) : s.cb.waitlist.readers = 0 := by
  simp only [step, hc] at h
  cases a with
  | cloneRegister | dropReceiver =>
      simp only [Call.run] at h
      split at h
      · assumption
      · cases h
  | _ => cases hm

/-- Where the plain channel makes a step, the lock can be had for it. -/
theorem acquires_of_step {s s' : State T} {l : RwLock} {e : Event T} {c : Nat} {a : Call T}
    {m : Guard} (hread : ReadLocked s) (hl : Between s l) (hc : s.calls[c]? = some a)
    (hm : a.need = some m) (h : step s (.run c) = some (e, s')) :
    ∃ l', l.acquire c m = some l' := by
  refine Option.ne_none_iff_exists'.mp fun hout => ?_
  obtain ⟨⟨d, hd⟩, hwriter⟩ := RwLock.kept_out hout
  obtain ⟨m', hm'⟩ := Option.isSome_iff_exists.mp (RwLock.mem_holders.mp hd)
  obtain ⟨b, hb, hscan⟩ := Option.bind_eq_some_iff.mp ((hl d).symm.trans hm')
  cases m with
  | read =>
      -- all the guards are those of pops
      obtain ⟨j, rfl⟩ := hwriter rfl
      obtain rfl : d = j := Finset.mem_singleton.mp hd
      simp only [RwLock.guard, if_true, Option.some.injEq] at hm'
      subst hm'
      rcases scan_cases b with hb | ⟨hb, -⟩ <;> cases hb.symm.trans hscan
  | write =>
      have hfree := readers_of_write hc hm h
      have hpos : 1 ≤ s.count Call.reads := by
        cases b with
        | popScan => exact le_count Call.reads hb
        | _ => cases hscan
      rw [hread] at hfree
      omega

/-- After a step under the guard `m`, the guard is dropped if the section is over. -/
theorem locks_of_section {lay : Layout} {n : Nat} {h : 0 < n}
    {tr : Trace (State T × RwLock) (Guarded.Shows (Event T))} {s s' : State T} {l : RwLock}
    {e : Event T} {c : Nat} {a : Call T} {m : Guard} (hrun : Locks lay n h tr (s, l))
    (hc : s.calls[c]? = some a) (hm : a.need = some m) (hguard : l.guard c = some m)
    (hl : ∀ d, d ≠ c → l.guard d = (s.calls[d]?).bind Call.scan)
    (hstep : step s (.run c) = some (e, s')) :
    ∃ tr' l', Locks lay n h tr' (s', l') ∧ Guarded.plain tr' = (s, e) :: Guarded.plain tr ∧
      Between s' l' := by
  have hact := locked_run (p := (s, l)) hc (hguard.trans hm.symm) hstep
  have hnow := hrun.step ⟨.act (.run c), hact⟩ trivial
  obtain ⟨-, -, hcaller, -⟩ := caller_of_step hstep
  obtain ⟨d, hd, hsection, -, -⟩ := section_of_trans (trans_of_step hstep) hc hm hcaller
  rcases hsection with ⟨hover, hout⟩ | ⟨hscan, -⟩
  · have hrelease := Guarded.locked_release (g := locking) (p := (s', l)) hguard
      (needs_of_calls hd ▸ hover)
    refine ⟨_, _, hnow.step ⟨.release c, hrelease⟩ trivial, rfl, fun j => ?_⟩
    rw [RwLock.guard_release (RwLock.mem_holders.mpr (by rw [hguard]; rfl))]
    split
    · rename_i hjc
      rw [hjc, hd]
      exact hout.symm
    · rw [calls_of_run hstep ‹_›]
      exact hl j ‹_›
  · refine ⟨_, _, hnow, rfl, fun j => ?_⟩
    rcases eq_or_ne j c with rfl | hjc
    · rw [hd]
      exact hguard.trans hscan.symm
    · rw [calls_of_run hstep hjc]
      exact hl j hjc

/-- Every run of the plain channel is one in which the threads take the lock: each
section is made up of steps that follow each other at once. -/
theorem locks_of_run {lay : Layout} {n : Nat} {h : 0 < n} {tr : Trace (State T) (Event T)}
    {s : State T} (hrun : Runs Free lay n h tr s) :
    ∃ tr' l, Locks lay n h tr' (s, l) ∧ Guarded.plain tr' = tr ∧ Between s l := by
  induction hrun with
  | start => exact ⟨[], .free, .start, rfl, fun c => by simp [State.ringChannel]⟩
  | @step tr s e s' hrun hn _ ih =>
      obtain ⟨tr', l, hlocks, rfl, hl⟩ := ih
      obtain ⟨act, hstep⟩ := hn
      cases hown : act.own with
      | none =>
          have hact := Guarded.locked_act (g := locking) (p := (s, l)) (fun c hc => by
            cases hown.symm.trans hc) hstep
          exact ⟨_, l, hlocks.step ⟨.act act, hact⟩ trivial, rfl,
            fun c => (hl c).trans (scan_of_client hown hstep c).symm⟩
      | some c =>
          obtain rfl : act = .run c := locking.eq_run hown
          obtain ⟨a, hc, -⟩ := caller_of_step hstep
          have hguard := hl c
          rw [hc] at hguard
          have hguard : l.guard c = a.scan := hguard
          cases hneed : a.need with
          | some m =>
              rcases scan_cases a with hout | ⟨hscan, hread⟩
              · obtain ⟨l', hacquired⟩ :=
                  acquires_of_step (readLocked_of_run hrun) hl hc hneed hstep
                have hacquire := Guarded.locked_acquire (g := locking) (p := (s, l))
                  (hguard.trans hout) ((needs_of_calls hc).trans hneed) hacquired
                have hguards := RwLock.guard_acquire hacquired
                obtain ⟨tr'', l'', hlocks', hplain, hl'⟩ :=
                  locks_of_section (hlocks.step ⟨.acquire c, hacquire⟩ trivial) hc hneed
                    ((hguards c).trans (if_pos rfl))
                    (fun d hd => ((hguards d).trans (if_neg hd)).trans (hl d)) hstep
                exact ⟨tr'', l'', hlocks', hplain, hl'⟩
              · cases hneed.symm.trans hread
                exact locks_of_section hlocks hc hread (hguard.trans hscan) (fun d _ => hl d) hstep
          | none =>
              have hnone := hguard.trans (scan_of_need hneed)
              have hact := locked_run (p := (s, l)) hc (hnone.trans hneed.symm) hstep
              refine ⟨_, l, hlocks.step ⟨.act (.run c), hact⟩ trivial, rfl, fun d => ?_⟩
              rcases eq_or_ne d c with rfl | hdc
              · exact hnone.trans (scan_of_unguarded (trans_of_step hstep) hc hneed).symm
              · rw [calls_of_run hstep hdc]
                exact hl d

/-- The traffic on the lock struck out, the runs in which the threads take it are
exactly those of the plain channel. -/
theorem runs_iff_locks {lay : Layout} {n : Nat} {h : 0 < n} {tr : Trace (State T) (Event T)}
    {s : State T} :
    Runs Free lay n h tr s ↔ ∃ tr' l, Locks lay n h tr' (s, l) ∧ Guarded.plain tr' = tr := by
  constructor
  · intro hrun
    obtain ⟨tr', l, hlocks, hplain, -⟩ := locks_of_run hrun
    exact ⟨tr', l, hlocks, hplain⟩
  · rintro ⟨tr', l, hlocks, rfl⟩
    exact Guarded.run_of_locked hlocks

/-! ## Who waits for whom -/

end RingChannel
