/-
# `RingChannel.Clients` — a waitlist and the threads that call it

The waitlist by itself, without the channel around it: any number of threads
call its methods, in any order.  One swap, one take, and everything done under
the write lock is one step; a `pop` is a step that takes the read lock and fixes
the slots to be visited, and one step for each slot until it finds an item or
has found none.  `register` and `deregister` wait until no `pop` holds the lock.

A method takes the slot it is to work on as an argument, and `Slot` is `Copy`:
nothing here keeps a thread to the slot it registered.  Which calls a thread
makes is a matter of the rule under which the system runs.  A `pop` that nobody
gets in between comes to `Waitlist.pop` (`pop_alone`).
-/
import RingChannel.Waitlist
import RingChannel.Lib.Ledger
import RingChannel.Lib.Run

namespace RingChannel

namespace Clients

variable {W : Type}

/-! ## The system -/

/-- What a thread has done last, with its answer, or the scan it is in. -/
inductive Point (W : Type) where
  | new
  | registered
  | deregistered (old : Option W)
  | inserted (old : Option W)
  | removed (old : Option W)
  | scanning (ks : List Nat)
  | popped (got : Option W)

/-- A thread, with the slot it registered. -/
structure Client (W : Type) where
  slot : Option Nat
  point : Point W

structure Pool (W : Type) where
  waitlist : Waitlist W
  clients : List (Client W)

inductive Act (W : Type) where
  | register (t pos : Nat)
  | deregister (t k : Nat)
  | insert (t k : Nat) (x : W)
  | remove (t k : Nat)
  | pop (t : Nat)
  | visit (t : Nat)

/-- What a step of thread `t` shows. -/
inductive Deed (W : Type) where
  | registered (t k : Nat)
  | deregistered (t k : Nat) (old : Option W)
  | inserted (t k : Nat) (x : W) (old : Option W)
  | removed (t k : Nat) (old : Option W)
  | locked (t : Nat)
  | missed (t k : Nat)
  | took (t k : Nat) (x : W)
  | gaveUp (t : Nat)

/-- The thread is in a `pop`. -/
def Point.scans : Point W → Bool
  | .scanning _ => true
  | _ => false

namespace Pool

def new (lockFree : Bool) (n : Nat) : Pool W where
  waitlist := .new lockFree
  clients := List.replicate n ⟨none, .new⟩

/-- Thread `t` comes to `p`, leaving the waitlist as `wl`. -/
def move (s : Pool W) (t : Nat) (slot : Option Nat) (p : Point W) (wl : Waitlist W) : Pool W where
  waitlist := wl
  clients := s.clients.set t ⟨slot, p⟩

@[simp] theorem move_waitlist (s : Pool W) (t : Nat) (slot : Option Nat) (p : Point W)
    (wl : Waitlist W) : (s.move t slot p wl).waitlist = wl := rfl

@[simp] theorem move_clients (s : Pool W) (t : Nat) (slot : Option Nat) (p : Point W)
    (wl : Waitlist W) : (s.move t slot p wl).clients = s.clients.set t ⟨slot, p⟩ := rfl

/-- Thread `t`, if it is in no call. -/
def idle (s : Pool W) (t : Nat) : Option (Client W) :=
  s.clients[t]?.filter fun c => !c.point.scans

end Pool

def step (s : Pool W) : Act W → Option (Deed W × Pool W)
  | .register t pos =>
      match s.idle t with
      | some _ =>
          if s.waitlist.readers = 0 then
            let reg := s.waitlist.register pos
            some (.registered t reg.1, s.move t (some reg.1) .registered reg.2)
          else none
      | none => none
  | .deregister t k =>
      match s.idle t with
      | some c =>
          if s.waitlist.readers = 0 then
            (s.waitlist.deregister k).map fun r =>
              (.deregistered t k r.1, s.move t c.slot (.deregistered r.1) r.2)
          else none
      | none => none
  | .insert t k x =>
      match s.idle t with
      | some c =>
          (s.waitlist.insert k x).map fun r =>
            (.inserted t k x r.1, s.move t c.slot (.inserted r.1) r.2)
      | none => none
  | .remove t k =>
      match s.idle t with
      | some c =>
          (s.waitlist.remove k).map fun r => (.removed t k r.1, s.move t c.slot (.removed r.1) r.2)
      | none => none
  | .pop t =>
      match s.idle t with
      | some c =>
          some (.locked t, s.move t c.slot (.scanning s.waitlist.keys) s.waitlist.lock)
      | none => none
  | .visit t =>
      match s.clients[t]? with
      | some ⟨slot, .scanning []⟩ =>
          some (.gaveUp t, s.move t slot (.popped none) s.waitlist.unlock)
      | some ⟨slot, .scanning (k :: ks)⟩ =>
          match s.waitlist.visit k with
          | (none, wl) => some (.missed t k, s.move t slot (.scanning ks) wl)
          | (some x, wl) => some (.took t k x, s.move t slot (.popped (some x)) wl.unlock)
      | _ => none

/-- The runs of `n` threads that obey `ok`. -/
abbrev Runs (ok : Trace (Pool W) (Deed W) → Pool W → Deed W → Prop) (lockFree : Bool) (n : Nat) :
    Trace (Pool W) (Deed W) → Pool W → Prop :=
  Run (Next step) ok (.new lockFree n)

/-- The run that the given choices make of `n` threads. -/
def schedule (ok : Trace (Pool W) (Deed W) → Pool W → Deed W → Prop)
    [∀ tr s e, Decidable (ok tr s e)] (lockFree : Bool) (n : Nat) (as : List (Act W)) :
    Trace (Pool W) (Deed W) × Pool W :=
  play step ok [] (.new lockFree n) as

theorem runs_schedule (ok : Trace (Pool W) (Deed W) → Pool W → Deed W → Prop)
    [∀ tr s e, Decidable (ok tr s e)] (lockFree : Bool) (n : Nat) (as : List (Act W)) :
    Runs ok lockFree n (schedule ok lockFree n as).1 (schedule ok lockFree n as).2 :=
  Run.of_play as .start

/-! ## Full slots -/

def Pool.full (s : Pool W) (k : Nat) : Bool := (s.waitlist.slot k).join.isSome

/-- The items are in the full slots. -/
theorem countP_full (s : Pool W) : s.waitlist.keys.countP s.full = s.waitlist.size :=
  SlotMap.countP_keys (q := fun (a : AtomicOption W) => a.item.isSome) fun k a ha => by
    simp only [Pool.full, Waitlist.slot, ha]
    rfl

theorem full_eq {s s' : Pool W} {k : Nat}
    (h : s'.waitlist.slot k = s.waitlist.slot k) : s'.full k = s.full k := by
  simp only [Pool.full, h]

theorem full_of_slot {s : Pool W} {k : Nat} {x : W} (h : s.waitlist.slot k = some (some x)) :
    s.full k = true := by
  simp only [Pool.full, h]
  rfl

theorem not_full_of_slot {s : Pool W} {k : Nat}
    (h : ∀ x, s.waitlist.slot k ≠ some (some x)) : s.full k = false := by
  cases hs : s.waitlist.slot k with
  | none => simp only [Pool.full, hs]; rfl
  | some o =>
      cases o with
      | none => simp only [Pool.full, hs]; rfl
      | some x => exact absurd hs (h x)

theorem not_full_of_empty {s : Pool W} {k : Nat} (h : s.waitlist.slot k = some none) :
    s.full k = false := by
  simp only [Pool.full, h]
  rfl

theorem mem_keys_of_full {s : Pool W} {k : Nat} (h : s.full k = true) : k ∈ s.waitlist.keys := by
  cases hk : s.waitlist.slot k with
  | some o => exact Waitlist.mem_keys_of_slot hk
  | none =>
      rw [not_full_of_slot (by simp [hk])] at h
      cases h

/-- No slot holds an item if and only if there is none. -/
theorem size_eq_zero_iff {s : Pool W} : s.waitlist.size = 0 ↔ ∀ k, s.full k = false := by
  rw [← countP_full, List.countP_eq_zero]
  constructor
  · intro h k
    exact Bool.eq_false_iff.mpr fun hk => h k (mem_keys_of_full hk) hk
  · intro h k _
    simp [h k]

/-! ## The outcomes of a step -/

inductive Trans (s : Pool W) : Deed W → Pool W → Prop
  | registered {t k : Nat} {c : Client W} {wl : Waitlist W} : s.clients[t]? = some c →
      c.point.scans = false → s.waitlist.readers = 0 → s.waitlist.Adds k wl →
      Trans s (.registered t k) (s.move t (some k) .registered wl)
  | deregistered {t k : Nat} {c : Client W} {old : Option W} {wl : Waitlist W} :
      s.clients[t]? = some c → c.point.scans = false → s.waitlist.readers = 0 →
      s.waitlist.Drops k old wl →
      Trans s (.deregistered t k old) (s.move t c.slot (.deregistered old) wl)
  | inserted {t k : Nat} {x : W} {c : Client W} {old : Option W} {wl : Waitlist W} :
      s.clients[t]? = some c → c.point.scans = false → s.waitlist.Writes k old (some x) wl →
      Trans s (.inserted t k x old) (s.move t c.slot (.inserted old) wl)
  | removed {t k : Nat} {c : Client W} {old : Option W} {wl : Waitlist W} :
      s.clients[t]? = some c → c.point.scans = false → s.waitlist.Writes k old none wl →
      Trans s (.removed t k old) (s.move t c.slot (.removed old) wl)
  | locked {t : Nat} {c : Client W} : s.clients[t]? = some c → c.point.scans = false →
      Trans s (.locked t) (s.move t c.slot (.scanning s.waitlist.keys) s.waitlist.lock)
  | missed {t k : Nat} {ks : List Nat} {c : Client W} : s.clients[t]? = some c →
      c.point = .scanning (k :: ks) → (∀ x, s.waitlist.slot k ≠ some (some x)) →
      Trans s (.missed t k) (s.move t c.slot (.scanning ks) s.waitlist)
  | took {t k : Nat} {ks : List Nat} {x : W} {c : Client W} {wl : Waitlist W} :
      s.clients[t]? = some c → c.point = .scanning (k :: ks) →
      s.waitlist.Writes k (some x) none wl →
      Trans s (.took t k x) (s.move t c.slot (.popped (some x)) wl.unlock)
  | gaveUp {t : Nat} {c : Client W} : s.clients[t]? = some c → c.point = .scanning [] →
      Trans s (.gaveUp t) (s.move t c.slot (.popped none) s.waitlist.unlock)

theorem idle_eq_some {s : Pool W} {t : Nat} {c : Client W} (h : s.idle t = some c) :
    s.clients[t]? = some c ∧ c.point.scans = false := by
  obtain ⟨hc, hp⟩ := Option.filter_eq_some_iff.mp h
  exact ⟨hc, by simpa using hp⟩

theorem trans_of_step {s s' : Pool W} {a : Act W} {e : Deed W} (h : step s a = some (e, s')) :
    Trans s e s' := by
  cases a with
  | register t pos =>
      simp only [step] at h
      split at h
      · rename_i c hidle
        obtain ⟨hc, hp⟩ := idle_eq_some hidle
        split at h
        · rename_i hr
          cases h
          exact .registered hc hp hr (Waitlist.register_adds _ pos)
        · cases h
      · cases h
  | deregister t k =>
      simp only [step] at h
      split at h
      · rename_i c hidle
        obtain ⟨hc, hp⟩ := idle_eq_some hidle
        split at h
        · rename_i hr
          obtain ⟨⟨old, wl⟩, hd, heq⟩ := Option.map_eq_some_iff.mp h
          cases heq
          exact .deregistered hc hp hr (Waitlist.deregister_drops hd)
        · cases h
      · cases h
  | insert t k x =>
      simp only [step] at h
      split at h
      · rename_i c hidle
        obtain ⟨hc, hp⟩ := idle_eq_some hidle
        obtain ⟨⟨old, wl⟩, hi, heq⟩ := Option.map_eq_some_iff.mp h
        cases heq
        exact .inserted hc hp (Waitlist.insert_writes hi)
      · cases h
  | remove t k =>
      simp only [step] at h
      split at h
      · rename_i c hidle
        obtain ⟨hc, hp⟩ := idle_eq_some hidle
        obtain ⟨⟨old, wl⟩, hr, heq⟩ := Option.map_eq_some_iff.mp h
        cases heq
        exact .removed hc hp (Waitlist.remove_writes hr)
      · cases h
  | pop t =>
      simp only [step] at h
      split at h
      · rename_i c hidle
        obtain ⟨hc, hp⟩ := idle_eq_some hidle
        cases h
        exact .locked hc hp
      · cases h
  | visit t =>
      simp only [step] at h
      split at h
      · rename_i slot hc
        cases h
        exact .gaveUp hc rfl
      · rename_i slot k ks hc
        split at h
        · rename_i wl hv
          cases h
          obtain ⟨rfl, hmiss⟩ := Waitlist.visit_miss hv
          exact .missed hc rfl hmiss
        · rename_i x wl hv
          cases h
          exact .took hc rfl (Waitlist.visit_hit hv)
      · cases h

theorem trans_of_next {s s' : Pool W} {e : Deed W} (h : Next step s e s') : Trans s e s' :=
  h.elim fun _ ha => trans_of_step ha

/-! ## The read lock -/

/-- The read guards that are out are those of the scans, and while they are out
the slots stay registered: every scan has a tail of the order before it. -/
structure Guarded (s : Pool W) : Prop where
  readers : s.waitlist.readers = Ledger.total (fun _ c => c.point.scans.toNat) s.clients
  tails : ∀ (t : Nat) (c : Client W) (ks : List Nat), s.clients[t]? = some c →
    c.point = .scanning ks → ks <:+ s.waitlist.keys

/-- Nobody is scanning when a writer gets in. -/
theorem Guarded.quiet {s : Pool W} (hi : Guarded s) (hr : s.waitlist.readers = 0) {t : Nat}
    {c : Client W} (hc : s.clients[t]? = some c) : c.point.scans = false := by
  have hle := Ledger.le_total (f := fun _ c => c.point.scans.toNat) hc
  rw [← hi.readers, hr] at hle
  cases hp : c.point.scans with
  | false => rfl
  | true =>
      rw [hp, Bool.toNat_true] at hle
      omega

theorem guarded_move {s : Pool W} {t : Nat} {c : Client W} {slot : Option Nat} {p : Point W}
    {wl : Waitlist W} (hc : s.clients[t]? = some c)
    (hr : wl.readers + c.point.scans.toNat = s.waitlist.readers + p.scans.toNat)
    (hkeys : wl.keys = s.waitlist.keys ∨ s.waitlist.readers = 0)
    (hp : ∀ ks, p = .scanning ks → ks <:+ wl.keys) (hi : Guarded s) :
    Guarded (s.move t slot p wl) where
  readers := by
    have hset : Ledger.total (fun _ c => c.point.scans.toNat) (s.clients.set t ⟨slot, p⟩)
        + c.point.scans.toNat
        = Ledger.total (fun _ c => c.point.scans.toNat) s.clients + p.scans.toNat :=
      Ledger.total_set _ hc fun _ _ _ _ => rfl
    have hold := hi.readers
    simp only [Pool.move_waitlist, Pool.move_clients]
    omega
  tails j d ks hj hd := by
    rcases Ledger.getElem?_set_cases hj with ⟨-, rfl⟩ | ⟨-, hold⟩
    · exact hp ks hd
    · rcases hkeys with hkeys | hzero
      · rw [Pool.move_waitlist, hkeys]
        exact hi.tails j d ks hold hd
      · have hquiet := hi.quiet hzero hold
        rw [hd] at hquiet
        cases hquiet

theorem guarded_step {s s' : Pool W} {e : Deed W} (h : Trans s e s') (hi : Guarded s) :
    Guarded s' := by
  cases h with
  | registered hc hp hr hadd =>
      exact guarded_move hc (by rw [hadd.readers_eq, hp]; rfl) (.inr hr) nofun hi
  | deregistered hc hp hr hdrop =>
      exact guarded_move hc (by rw [hdrop.readers_eq, hp]; rfl) (.inr hr) nofun hi
  | inserted hc hp hw | removed hc hp hw =>
      exact guarded_move hc (by rw [hw.readers_eq, hp]; rfl) (.inl hw.keys_eq) nofun hi
  | locked hc hp =>
      refine guarded_move hc (by rw [hp]; rfl) (.inl rfl) (fun ks hks => ?_) hi
      cases hks
      exact List.suffix_refl _
  | @missed t k ks c hc hp _ =>
      refine guarded_move hc (by rw [hp]; rfl) (.inl rfl) (fun js hjs => ?_) hi
      cases hjs
      exact (List.suffix_cons k ks).trans (hi.tails t c _ hc hp)
  | @took t k ks x c wl hc hp hw =>
      have hpos := Ledger.le_total (f := fun _ c => c.point.scans.toNat) hc
      rw [← hi.readers, hp] at hpos
      refine guarded_move hc ?_ (.inl hw.keys_eq) nofun hi
      show wl.readers - 1 + _ = _
      rw [hw.readers_eq, hp]
      exact Nat.sub_add_cancel hpos
  | gaveUp hc hp =>
      have hpos := Ledger.le_total (f := fun _ c => c.point.scans.toNat) hc
      rw [← hi.readers, hp] at hpos
      refine guarded_move hc ?_ (.inl rfl) nofun hi
      show s.waitlist.readers - 1 + _ = _
      rw [hp]
      exact Nat.sub_add_cancel hpos

theorem guarded_of_run {ok : Trace (Pool W) (Deed W) → Pool W → Deed W → Prop} {lockFree : Bool}
    {n : Nat} {tr : Trace (Pool W) (Deed W)} {s : Pool W} (hrun : Runs ok lockFree n tr s) :
    Guarded s :=
  hrun.invariant (I := fun _ s => Guarded s)
    { readers := by
        refine (Ledger.total_eq_zero fun i c hc => ?_).symm
        rw [(List.mem_replicate.mp (List.mem_of_getElem? hc)).2]
        rfl
      tails := fun t c ks hc hp => by
        rw [(List.mem_replicate.mp (List.mem_of_getElem? hc)).2] at hp
        cases hp }
    fun _ _ _ _ _ hi hn _ => guarded_step (trans_of_next hn) hi

/-! ## A pop with nobody in between -/

theorem move_move (s : Pool W) (t : Nat) (slot slot' : Option Nat) (p p' : Point W)
    (wl wl' : Waitlist W) : (s.move t slot p wl).move t slot' p' wl' = s.move t slot' p' wl' := by
  simp [Pool.move]

theorem play_next {s s' : Pool W} {a : Act W} {e : Deed W} (h : step s a = some (e, s'))
    (tr : Trace (Pool W) (Deed W)) (as : List (Act W)) :
    play step Free tr s (a :: as) = play step Free ((s, e) :: tr) s' as := by
  have hfree : Free tr s e := trivial
  simp only [play, h, if_pos hfree]

/-- A thread that has popped makes no visits. -/
theorem play_popped {s : Pool W} {t : Nat} {slot : Option Nat} {got : Option W}
    (hc : s.clients[t]? = some ⟨slot, .popped got⟩) (tr : Trace (Pool W) (Deed W)) (m : Nat) :
    (play step Free tr s (List.replicate m (.visit t))).2 = s := by
  have hstep : step s (.visit t) = none := by simp only [step, hc]
  induction m with
  | zero => rfl
  | succ m ih =>
      simp only [List.replicate_succ, play, hstep]
      exact ih

theorem play_scan {s : Pool W} {t : Nat} (ht : t < s.clients.length) (slot : Option Nat)
    (wl : Waitlist W) (ks : List Nat) (tr : Trace (Pool W) (Deed W)) :
    (play step Free tr (s.move t slot (.scanning ks) wl.lock)
        (List.replicate (ks.length + 1) (.visit t))).2
      = s.move t slot (.popped (Waitlist.pop.go wl ks).1) (Waitlist.pop.go wl ks).2 := by
  induction ks generalizing tr with
  | nil =>
      have hstep : step (s.move t slot (.scanning []) wl.lock) (.visit t)
          = some (.gaveUp t, s.move t slot (.popped none) wl) := by
        simp [step, ht, move_move, Waitlist.unlock_lock]
      exact congrArg Prod.snd (play_next hstep tr [])
  | cons k ks ih =>
      have hlock := wl.visit_lock k
      rw [List.length_cons, List.replicate_succ, Waitlist.pop.go]
      split
      · rename_i wl' hv
        obtain ⟨rfl, -⟩ := Waitlist.visit_miss hv
        rw [hv] at hlock
        have hstep : step (s.move t slot (.scanning (k :: ks)) wl'.lock) (.visit t)
            = some (.missed t k, s.move t slot (.scanning ks) wl'.lock) := by
          simp [step, ht, move_move, hlock]
        rw [play_next hstep]
        exact ih _
      · rename_i x wl' hv
        rw [hv] at hlock
        have hstep : step (s.move t slot (.scanning (k :: ks)) wl.lock) (.visit t)
            = some (.took t k x, s.move t slot (.popped (some x)) wl') := by
          simp [step, ht, move_move, hlock, Waitlist.unlock_lock]
        have hdone : (s.move t slot (.popped (some x)) wl').clients[t]?
            = some ⟨slot, .popped (some x)⟩ := by simp [ht]
        rw [play_next hstep]
        exact play_popped hdone _ _

/-- The steps of a pop, one after the other, come to `Waitlist.pop`. -/
theorem pop_alone {s : Pool W} {t : Nat} {c : Client W} (hc : s.clients[t]? = some c)
    (hp : c.point.scans = false) (tr : Trace (Pool W) (Deed W)) :
    (play step Free tr s (.pop t :: List.replicate (s.waitlist.keys.length + 1) (.visit t))).2
      = s.move t c.slot (.popped s.waitlist.pop.1) s.waitlist.pop.2 := by
  have hidle : s.idle t = some c := Option.filter_eq_some_iff.mpr ⟨hc, by simpa using hp⟩
  have hstep : step s (.pop t)
      = some (.locked t, s.move t c.slot (.scanning s.waitlist.keys) s.waitlist.lock) := by
    simp only [step, hidle]
  rw [play_next hstep]
  exact play_scan (List.getElem?_eq_some_iff.mp hc).1 c.slot s.waitlist s.waitlist.keys _

end Clients

end RingChannel
