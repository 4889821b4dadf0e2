/-
# `RingChannel.Bookkeeping` — the keys of the waitlist and the count of receivers

A clone of a receiver counts it first and registers its slot afterwards; a drop
deregisters the slot first and subtracts the receiver at the end, with a pop of
the waitlist in between.  So the waitlist and the counter are never updated
together, and they agree only up to the calls that are between the two updates.

`HopSlotMap` panics when it is indexed with a key it does not hold, and so does
the `unwrap` of a removal.  A key is handed out once (`handedOut`), is given
back once (`givenBack`) and is held in between, and each of the three methods
that name a key runs while its receiver holds that key.

That a method keeps to its own slot is said by overwriting the other one: if
the step answers the same and leaves the same, but for the overwritten slot, it
has neither read nor written it (`step_overwrite`).
-/
import RingChannel.Endpoints

namespace RingChannel

variable {T : Type}

namespace Waitlist

variable {W : Type}

theorem slot_of_mem_keys {wl : Waitlist W} {k : Nat} (h : k ∈ wl.keys) : wl.slot k ≠ none := by
  obtain ⟨a, ha⟩ := SlotMap.get_of_mem_keys h
  simp [slot, ha]

theorem mem_keys_iff {wl : Waitlist W} {k : Nat} : k ∈ wl.keys ↔ wl.slot k ≠ none := by
  refine ⟨slot_of_mem_keys, fun h => ?_⟩
  obtain ⟨o, ho⟩ := Option.ne_none_iff_exists'.mp h
  exact mem_keys_of_slot ho

theorem length_keys (wl : Waitlist W) : wl.keys.length = wl.weight fun _ _ => 1 :=
  SlotMap.length_keys wl.items

/-! ## Naming a registered key -/

theorem insert_isSome {wl : Waitlist W} {k : Nat} (w : W) (h : wl.slot k ≠ none) :
    (wl.insert k w).isSome := by
  obtain ⟨o, ho⟩ := Option.ne_none_iff_exists'.mp h
  obtain ⟨a, ha, -⟩ := Option.map_eq_some_iff.mp ho
  simp [insert, ha]

theorem remove_isSome {wl : Waitlist W} {k : Nat} (h : wl.slot k ≠ none) :
    (wl.remove k).isSome := by
  obtain ⟨o, ho⟩ := Option.ne_none_iff_exists'.mp h
  obtain ⟨a, ha, -⟩ := Option.map_eq_some_iff.mp ho
  simp [remove, ha]

theorem deregister_isSome {wl : Waitlist W} {k : Nat} (h : wl.slot k ≠ none) :
    (wl.deregister k).isSome := by
  obtain ⟨o, ho⟩ := Option.ne_none_iff_exists'.mp h
  obtain ⟨a, ha, -⟩ := Option.map_eq_some_iff.mp ho
  simp [deregister, ha]

end Waitlist

/-! ## Keys handed out and given back -/

/-- The key that the next operation of a call gets from the slot map. -/
def Call.newKey (wl : Waitlist Waker) : Call T → Option Nat
  | .cloneRegister _ pos => some (wl.register pos).1
  | _ => none

def handsOut (s : State T) : Event T → Option Nat
  | .silent c => s.calls[c]?.bind (Call.newKey s.cb.waitlist)
  | _ => none

def givesBack : Event T → Option Nat
  | .deregister _ rx _ => some rx
  | _ => none

/-- The keys that receivers have registered under, the first receiver among
them: `ring_channel` registers it. -/
def handedOut : Trace (State T) (Event T) → List Nat
  | [] => [0]
  | (s, e) :: tr => (handsOut s e).toList ++ handedOut tr

/-- The keys that drops have deregistered. -/
def givenBack : Trace (State T) (Event T) → List Nat
  | [] => []
  | (_, e) :: tr => (givesBack e).toList ++ givenBack tr

theorem handsOut_silent {s : State T} {c : Nat} {a : Call T} (h : s.calls[c]? = some a) :
    handsOut s (.silent c) = a.newKey s.cb.waitlist := by
  simp [handsOut, h]

structure Keyed (tr : Trace (State T) (Event T)) (s : State T) : Prop where
  below : ∀ k ∈ handedOut tr, k < s.cb.waitlist.fresh
  made : ∀ k, s.rxs.get k ≠ none ↔ k ∈ handedOut tr
  sub : ∀ k ∈ givenBack tr, k ∈ handedOut tr
  nodup : (handedOut tr).Nodup
  slots : ∀ k, s.cb.waitlist.slot k ≠ none ↔ k ∈ handedOut tr ∧ k ∉ givenBack tr

/-- A step that neither registers nor deregisters. -/
theorem keyed_kept {tr : Trace (State T) (Event T)} {s s' : State T} {e : Event T}
    (hout : handsOut s e = none) (hback : givesBack e = none)
    (hfresh : s'.cb.waitlist.fresh = s.cb.waitlist.fresh)
    (hslot : ∀ k, (s'.cb.waitlist.slot k).isSome = (s.cb.waitlist.slot k).isSome)
    (hmade : ∀ k, (s'.rxs.get k).isSome = (s.rxs.get k).isSome)
    (hi : Keyed tr s) : Keyed ((s, e) :: tr) s' := by
  have hout' : handedOut ((s, e) :: tr) = handedOut tr := by simp [handedOut, hout]
  have hback' : givenBack ((s, e) :: tr) = givenBack tr := by simp [givenBack, hback]
  constructor
  · rw [hout', hfresh]
    exact hi.below
  · intro k
    rw [hout', ← Option.isSome_iff_ne_none, hmade k, Option.isSome_iff_ne_none]
    exact hi.made k
  · rw [hout', hback']
    exact hi.sub
  · rw [hout']
    exact hi.nodup
  · intro k
    have hiff : s'.cb.waitlist.slot k ≠ none ↔ s.cb.waitlist.slot k ≠ none := by
      rw [← Option.isSome_iff_ne_none, ← Option.isSome_iff_ne_none, hslot k]
    rw [hout', hback', hiff]
    exact hi.slots k

theorem keyed_registered {tr : Trace (State T) (Event T)} {s s' : State T} {c rx pos k : Nat}
    (hc : s.calls[c]? = some (.cloneRegister rx pos))
    (hadd : s.cb.waitlist.Adds k s'.cb.waitlist)
    (hrxs : s'.rxs = s.rxs.insertAt 0 k true) (hi : Keyed tr s) :
    Keyed ((s, .silent c) :: tr) s' := by
  have hkey : handedOut ((s, .silent c) :: tr) = k :: handedOut tr := by
    rw [← hadd.fresh_before]
    simp only [handedOut, handsOut_silent hc]
    rfl
  have hback : givenBack ((s, .silent c) :: tr) = givenBack tr := rfl
  have hnew : k ∉ handedOut tr := by
    intro hmem
    have := hi.below k hmem
    rw [hadd.fresh_before] at this
    omega
  constructor
  · intro j hj
    rw [hadd.fresh_eq]
    rw [hkey] at hj
    rcases List.mem_cons.mp hj with rfl | hold
    · exact Nat.lt_succ_self j
    · have := hi.below j hold
      rw [hadd.fresh_before] at this
      omega
  · intro j
    have hnone : s.rxs.get k = none := not_not.mp fun h => hnew ((hi.made k).mp h)
    rw [hkey, hrxs]
    rcases eq_or_ne j k with rfl | hjk
    · simp [SlotMap.get_insertAt_self 0 true hnone]
    · rw [SlotMap.get_insertAt_ne 0 true hjk, hi.made j, List.mem_cons, or_iff_right hjk]
  · intro j hj
    rw [hkey]
    exact List.mem_cons_of_mem k (hi.sub j hj)
  · rw [hkey]
    exact List.nodup_cons.mpr ⟨hnew, hi.nodup⟩
  · intro j
    rw [hkey, hback]
    rcases eq_or_ne j k with rfl | hjk
    · have hnot : j ∉ givenBack tr := fun hj => hnew (hi.sub j hj)
      simp [hadd.slot_self, hnot]
    · rw [hadd.slot_ne j hjk, hi.slots j, List.mem_cons, or_iff_right hjk]

theorem keyed_deregistered {tr : Trace (State T) (Event T)} {s s' : State T} {c rx : Nat}
    {old o : Option Waker} (hdrop : s.cb.waitlist.Drops rx old s'.cb.waitlist)
    (hrxs : s'.rxs = s.rxs) (hi : Keyed tr s) : Keyed ((s, .deregister c rx o) :: tr) s' := by
  have hkey : handedOut ((s, .deregister c rx o) :: tr) = handedOut tr := rfl
  have hback : givenBack ((s, .deregister c rx o) :: tr) = rx :: givenBack tr := rfl
  have hheld : rx ∈ handedOut tr :=
    ((hi.slots rx).mp (by rw [hdrop.slot_before]; exact Option.some_ne_none old)).1
  constructor
  · rw [hdrop.fresh_eq]
    exact hi.below
  · rw [hrxs]
    exact hi.made
  · intro k hk
    rw [hback] at hk
    rcases List.mem_cons.mp hk with rfl | hold
    · exact hheld
    · exact hi.sub k hold
  · exact hi.nodup
  · intro k
    rw [hkey, hback]
    rcases eq_or_ne k rx with rfl | hne
    · simp [hdrop.slot_self]
    · rw [hdrop.slot_ne k hne, hi.slots k, List.mem_cons, or_iff_right hne]

theorem keyed_step {tr : Trace (State T) (Event T)} {s s' : State T} {e : Event T}
    (h : Trans s e s') (hi : Keyed tr s) : Keyed ((s, e) :: tr) s' := by
  cases h with
  | cloneRegister hc _ hadd => exact keyed_registered hc hadd rfl hi
  | deregisterEmpty _ _ hdrop | deregisterFull _ _ hdrop =>
      exact keyed_deregistered hdrop rfl hi
  | scanHit _ hw | insert _ hw | remove _ hw =>
      exact keyed_kept rfl rfl hw.fresh_eq hw.sameKeys.slot_isSome (fun _ => rfl) hi
  | @startDropReceiver rx hrx _ =>
      refine keyed_kept rfl rfl rfl (fun _ => rfl) (fun k => ?_) hi
      show ((s.rxs.set rx false).get k).isSome = (s.rxs.get k).isSome
      rcases eq_or_ne k rx with rfl | hk
      · rw [SlotMap.get_set_self false hrx, hrx]
        rfl
      · rw [SlotMap.get_set_ne false hk]
  | start | startDropSender | repoll | refuse | pushNew | pushOver | wake | free
  | popSome | popEmpty | popDisconnected =>
      exact keyed_kept rfl rfl rfl (fun _ => rfl) (fun _ => rfl) hi
  | _ => exact keyed_kept (handsOut_silent ‹_›) rfl rfl (fun _ => rfl) (fun _ => rfl) hi

theorem keyed_of_run {ok : Trace (State T) (Event T) → State T → Event T → Prop} {lay : Layout}
    {n : Nat} {h : 0 < n} {tr : Trace (State T) (Event T)} {s : State T}
    (hrun : Runs ok lay n h tr s) : Keyed tr s :=
  hrun.invariant
    { below := fun k hk => by
        rw [List.mem_singleton.mp hk]
        exact Nat.one_pos
      made := fun k => by
        have hrx : (SlotMap.empty : SlotMap Bool).get k = none := rfl
        show (SlotMap.empty.insertAt 0 0 true : SlotMap Bool).get k ≠ none ↔ _
        rcases eq_or_ne k 0 with rfl | hk0
        · simp [SlotMap.get_insertAt_self 0 true hrx, handedOut]
        · simp [SlotMap.get_insertAt_ne 0 true hk0, handedOut, hk0]
      sub := fun k hk => by cases hk
      nodup := List.nodup_singleton 0
      slots := fun k => by
        have hadd := Waitlist.register_adds (Waitlist.new lay.waker : Waitlist Waker) 0
        show (Waitlist.register (Waitlist.new lay.waker : Waitlist Waker) 0).2.slot k ≠ none ↔ _
        rcases eq_or_ne k 0 with rfl | hk0
        · have hslot : (Waitlist.register (Waitlist.new lay.waker) 0).2.slot 0 = some none :=
            hadd.slot_self
          simp [hslot, handedOut, givenBack]
        · have hslot : (Waitlist.register (Waitlist.new lay.waker) 0).2.slot k = none :=
            hadd.slot_ne k hk0
          simp [hslot, handedOut, hk0] }
    fun _ _ _ _ _ hi hn _ => keyed_step (trans_of_next hn) hi

/-! ## Between the two updates -/

/-- A clone that has counted its receiver and not registered it, or a drop that
has deregistered it and not subtracted it. -/
def Call.between : Call T → Nat
  | .cloneRegister .. => 1
  | .popLock (.dropReceiver _) | .popScan (.dropReceiver _) _ | .wake (.dropReceiver _) _ => 1
  | .dropReceiverSub _ => 1
  | _ => 0

/-- The counter is ahead of the waitlist by the calls between their updates. -/
def Ahead (s : State T) : Prop :=
  s.cb.waitlist.keys.length + s.count Call.between = s.cb.receivers

theorem entry_between (op : Op T) : op.entry.between = 0 := by
  cases op <;> rfl

theorem answered_between (rx : Nat) (l : Look) (r : Except TryRecvError T) :
    (l.answered rx r).between = 0 := by
  rcases l with _ | p | ⟨_ | _⟩ <;> rcases r with (_ | _) | m <;> rfl

/-- A call moves, and the difference moves with it. -/
theorem ahead_move {s : State T} {c : Nat} {a d : Call T} {b : ControlBlock Nat T}
    (hc : s.calls[c]? = some a)
    (h : b.waitlist.keys.length + s.cb.receivers + d.between
      = s.cb.waitlist.keys.length + b.receivers + a.between)
    (hi : Ahead s) : Ahead (s.move c d b) := by
  have hcount := count_move Call.between d b hc
  simp only [Ahead, State.move_cb] at hi ⊢
  omega

theorem ahead_step {s s' : State T} {e : Event T} (h : Trans s e s') (hi : Ahead s) :
    Ahead s' := by
  cases h with
  | @start op _ _ =>
      rw [Ahead, count_concat s Call.between s.txs s.rxs op.entry, entry_between]
      exact hi
  | @startDropSender tx _ _ =>
      rw [Ahead, count_concat s Call.between _ s.rxs (.dropSender tx)]
      exact hi
  | @startDropReceiver rx _ _ =>
      rw [Ahead, count_concat s Call.between s.txs _ (.dropReceiver rx)]
      exact hi
  | @cloneSender c tx hc =>
      exact ahead_move (d := .clonedSender tx) (b := s.cb) hc rfl hi
  | @cloneReceiver c rx pos hc =>
      refine ahead_move hc ?_ hi
      show s.cb.waitlist.keys.length + s.cb.receivers + 1
        = s.cb.waitlist.keys.length + (s.cb.receivers + 1) + 0
      omega
  | @cloneRegister c rx pos k wl hc _ hadd =>
      have hmore : wl.keys.length = s.cb.waitlist.keys.length + 1 := by
        rw [Waitlist.length_keys, Waitlist.length_keys, hadd.weight_eq]
      refine ahead_move (d := .clonedReceiver rx) (b := { s.cb with waitlist := wl }) hc ?_ hi
      show wl.keys.length + s.cb.receivers + 0 = s.cb.waitlist.keys.length + s.cb.receivers + 1
      omega
  | @deregisterEmpty c rx wl hc _ hdrop | @deregisterFull c rx w wl hc _ hdrop =>
      have hless : wl.keys.length + 1 = s.cb.waitlist.keys.length := by
        rw [Waitlist.length_keys, Waitlist.length_keys, ← hdrop.weight_eq]
      refine ahead_move hc ?_ hi
      show wl.keys.length + s.cb.receivers + 1 = s.cb.waitlist.keys.length + s.cb.receivers + 0
      omega
  | @dropReceiverLast c rx hc _ | @dropReceiverMore c rx hc _ =>
      -- the drop is itself between its updates, so the counter is positive
      have hpos := le_count Call.between hc
      have hpos' : 1 ≤ s.count Call.between := hpos
      refine ahead_move hc ?_ hi
      rw [Ahead] at hi
      show s.cb.waitlist.keys.length + s.cb.receivers + 0
        = s.cb.waitlist.keys.length + (s.cb.receivers - 1) + 1
      omega
  | @free c e hc =>
      exact ahead_move (d := .dropped e true) (b := s.cb) hc rfl hi
  | @popLock c p hc | @scanEnd c p hc | @scanMiss c k p ks hc _ | @wake c p w hc =>
      cases p <;> exact ahead_move hc rfl hi
  | @scanHit c k p ks w wl hc hw =>
      have hkeys : wl.unlock.keys = s.cb.waitlist.keys := hw.keys_eq
      cases p <;> exact ahead_move hc (by rw [hkeys]; rfl) hi
  | insert hc hw | remove hc hw => exact ahead_move hc (by rw [hw.keys_eq]; rfl) hi
  | @popSome c rx l _ m hc _ | @popEmpty c rx l hc _ | @popDisconnected c rx l hc _ =>
      exact ahead_move hc (by rw [answered_between]; rfl) hi
  | dropSenderLast hc _ | dropSenderMore hc _ => exact ahead_move hc rfl hi
  | _ => refine ahead_move ‹_› ?_ hi; rfl

theorem ahead_start (lay : Layout) (n : Nat) (h : 0 < n) :
    Ahead (State.ringChannel lay n h : State T) := by
  have hadd := Waitlist.register_adds (Waitlist.new lay.waker : Waitlist Waker) 0
  show (Waitlist.register (Waitlist.new lay.waker : Waitlist Waker) 0).2.keys.length + 0 = 1
  rw [Waitlist.length_keys, hadd.weight_eq]
  rfl

theorem ahead_of_run {ok : Trace (State T) (Event T) → State T → Event T → Prop} {lay : Layout}
    {n : Nat} {h : 0 < n} {tr : Trace (State T) (Event T)} {s : State T}
    (hrun : Runs ok lay n h tr s) : Ahead s :=
  hrun.invariant (I := fun _ s => Ahead s) (ahead_start lay n h)
    fun _ _ _ _ _ hi hn _ => ahead_step (trans_of_next hn) hi

/-! ## A method and its own slot -/

/-- The slot that the next operation of a call reads or writes. -/
def Call.touches : Call T → Option Nat
  | .insert rx _ | .remove rx _ _ | .dropReceiver rx => some rx
  | .popScan _ (k :: _) => some k
  | _ => none

/-- A call that names a key is on the receiver that holds it, unless it is a
pop. -/
theorem endpoint_of_touches {a : Call T} {k : Nat} (h : a.touches = some k) :
    a.endpoint = .receiver k ∨ ∃ p ks, a = .popScan p (k :: ks) := by
  cases a with
  | insert | remove | dropReceiver =>
      cases h
      exact .inl rfl
  | popScan p ks =>
      cases ks with
      | nil => cases h
      | cons j ks =>
          cases h
          exact .inr ⟨p, ks, rfl⟩
  | _ => cases h

/-- A receiver that inserts, removes or begins to drop has its slot. -/
theorem slot_of_touches {s : State T} (hw : Wf s) {c k : Nat} {a : Call T}
    (hc : s.calls[c]? = some a) (h : a.touches = some k)
    (hscan : ∀ p ks, a ≠ .popScan p (k :: ks)) : s.cb.waitlist.slot k ≠ none := by
  cases a with
  | insert | remove =>
      cases h
      exact slot_of_usable hw k (hw.borrowed c _ hc rfl)
  | dropReceiver rx =>
      cases h
      intro hnone
      have hslots := hw.registered.slots k
      have hpos := le_count (Call.deregisters k) hc
      rw [hnone] at hslots
      simp only [Call.deregisters, if_true] at hpos
      simp only [Option.isSome_none, Bool.toNat_false] at hslots
      omega
  | popScan p ks =>
      cases ks with
      | nil => cases h
      | cons j ks =>
          cases h
          exact absurd rfl (hscan p ks)
  | _ => cases h

/-- The same state with another cell in the slot `j`. -/
def State.overwrite (s : State T) (j : Nat) (b : AtomicOption Waker) : State T :=
  { s with cb := { s.cb with waitlist := s.cb.waitlist.put j b } }

theorem run_overwrite {s : State T} {c j : Nat} (b : AtomicOption Waker)
    (hj : j ≠ s.cb.waitlist.fresh) : ∀ {a : Call T}, a.touches ≠ some j →
      a.run (s.overwrite j b) c = (a.run s c).map fun r => (r.1, r.2.overwrite j b) := by
  intro a ha
  cases a with
  | sendLoad tx m =>
      show (if 0 < s.cb.receivers then _ else _)
        = Option.map _ (if 0 < s.cb.receivers then _ else _)
      split <;> rfl
  | sendPush tx m =>
      simp only [Call.run, State.overwrite]
      rcases s.cb.buffer.push m with ⟨_ | x, buf⟩ <;> rfl
  | popLock p =>
      have hkeys : (s.cb.waitlist.put j b).keys = s.cb.waitlist.keys := SlotMap.keys_set ..
      show some (_, s.overwrite j b |>.move c (.popScan p (s.cb.waitlist.put j b).keys) _) = _
      rw [hkeys]
      rfl
  | popScan p ks =>
      cases ks with
      | nil => rfl
      | cons k ks =>
          have hjk : j ≠ k := fun h => ha (congrArg some h.symm)
          have hvisit := s.cb.waitlist.visit_put b hjk
          simp only [Call.run, State.overwrite, hvisit]
          rcases s.cb.waitlist.visit k with ⟨_ | w, wl⟩ <;> rfl
  | cloneRegister rx pos =>
      have hreg := s.cb.waitlist.register_put pos b hj
      simp only [Call.run, State.overwrite, hreg]
      show (if s.cb.waitlist.readers = 0 then _ else _)
        = Option.map _ (if s.cb.waitlist.readers = 0 then _ else _)
      split <;> rfl
  | dropReceiver rx =>
      have hjk : j ≠ rx := fun h => ha (congrArg some h.symm)
      have hdereg := s.cb.waitlist.deregister_put b hjk
      simp only [Call.run, State.overwrite, hdereg]
      show (if s.cb.waitlist.readers = 0 then _ else _)
        = Option.map _ (if s.cb.waitlist.readers = 0 then _ else _)
      split
      · rcases s.cb.waitlist.deregister rx with _ | ⟨_ | w, wl⟩ <;> rfl
      · rfl
  | insert rx p =>
      have hjk : j ≠ rx := fun h => ha (congrArg some h.symm)
      have hinsert := s.cb.waitlist.insert_put ⟨rx, c⟩ b hjk
      simp only [Call.run, State.overwrite, hinsert]
      rcases s.cb.waitlist.insert rx ⟨rx, c⟩ with _ | ⟨old, wl⟩ <;> rfl
  | remove rx p r =>
      have hjk : j ≠ rx := fun h => ha (congrArg some h.symm)
      have hremove := s.cb.waitlist.remove_put b hjk
      simp only [Call.run, State.overwrite, hremove]
      rcases s.cb.waitlist.remove rx with _ | ⟨old, wl⟩ <;> rfl
  | _ => rfl

/-- The slot that a choice reads or writes. -/
def State.touched (s : State T) : Act T → Option Nat
  | .run c => s.calls[c]?.bind Call.touches
  | _ => none

/-- A step neither reads nor writes a registered slot that it does not touch. -/
theorem step_overwrite {s : State T} {j : Nat} {act : Act T} (b : AtomicOption Waker)
    (hj : j ∈ s.cb.waitlist.keys) (h : s.touched act ≠ some j) :
    step (s.overwrite j b) act = (step s act).map fun r => (r.1, r.2.overwrite j b) := by
  cases act with
  | start op =>
      have hstart : (s.overwrite j b).mayStart op = s.mayStart op := by cases op <;> rfl
      simp only [step, hstart]
      split
      · cases op <;> rfl
      · rfl
  | unpark c =>
      have hcalls : (s.overwrite j b).calls[c]? = s.calls[c]? := rfl
      simp only [step, hcalls]
      rcases s.calls[c]? with _ | a
      · rfl
      · cases a <;> rfl
  | run c =>
      have hcalls : (s.overwrite j b).calls[c]? = s.calls[c]? := rfl
      simp only [step, hcalls]
      cases hc : s.calls[c]? with
      | none => rfl
      | some a =>
          have hfresh : j ≠ s.cb.waitlist.fresh := Nat.ne_of_lt (s.cb.waitlist.lt_fresh j hj)
          refine run_overwrite b hfresh ?_
          simpa [State.touched, hc] using h

/-! ## All of it, over every run -/

structure Bookkept (tr : Trace (State T) (Event T)) (s : State T) : Prop where
  /-- A receiver has been made under every key that was handed out. -/
  made : ∀ k, s.rxs.get k ≠ none ↔ k ∈ handedOut tr
  /-- No two receivers were ever given the same key. -/
  unshared : (handedOut tr).Nodup
  keys : ∀ k, k ∈ s.cb.waitlist.keys ↔ k ∈ handedOut tr ∧ k ∉ givenBack tr
  distinct : s.cb.waitlist.keys.Nodup
  counter : s.cb.waitlist.keys.length + s.count Call.between = s.cb.receivers
  /-- Neither the indexing nor the `unwrap` panics. -/
  insert : ∀ (c rx : Nat) (p : Poller), s.calls[c]? = some (.insert rx p) →
    ∀ w, (s.cb.waitlist.insert rx w).isSome
  remove : ∀ (c rx : Nat) (p : Poller) (r : Option T), s.calls[c]? = some (.remove rx p r) →
    (s.cb.waitlist.remove rx).isSome
  deregister : ∀ c rx : Nat, s.calls[c]? = some (.dropReceiver rx) →
    (s.cb.waitlist.deregister rx).isSome
  /-- Only a pop touches a slot that is not its receiver's. -/
  own : ∀ (c k : Nat) (a : Call T), s.calls[c]? = some a → a.touches = some k →
    a.endpoint = .receiver k ∨ ∃ p ks, a = .popScan p (k :: ks)
  /-- What a step does not touch, it neither reads nor writes. -/
  others : ∀ (act : Act T) (j : Nat), j ∈ s.cb.waitlist.keys → s.touched act ≠ some j →
    ∀ b, step (s.overwrite j b) act = (step s act).map fun r => (r.1, r.2.overwrite j b)

theorem slots_bookkept {lay : Layout} {n : Nat} {h : 0 < n} {tr : Trace (State T) (Event T)}
    {s : State T} (hrun : Runs Free lay n h tr s) : Bookkept tr s := by
  have hkeyed := keyed_of_run hrun
  have hwf := wf_of_run hrun
  exact {
    made := hkeyed.made
    unshared := hkeyed.nodup
    keys := fun k => Waitlist.mem_keys_iff.trans (hkeyed.slots k)
    distinct := s.cb.waitlist.items.nodup
    counter := ahead_of_run hrun
    insert := fun _ _ _ hc w =>
      Waitlist.insert_isSome w (slot_of_touches hwf hc rfl nofun)
    remove := fun _ _ _ _ hc => Waitlist.remove_isSome (slot_of_touches hwf hc rfl nofun)
    deregister := fun _ _ hc => Waitlist.deregister_isSome (slot_of_touches hwf hc rfl nofun)
    own := fun _ _ _ _ htouch => endpoint_of_touches htouch
    others := fun _ _ hj htouch b => step_overwrite b hj htouch }

/-- Receiver 0 is cloned; its clone polls and is left pending; receiver 0 is
dropped and has deregistered; the clone is being cloned and has counted the
third receiver. -/
def cloneWhileLeaving : List (Act Nat) :=
  [.start (.cloneReceiver 0 0), .run 0, .run 0,
    .start (.pollNext 1), .run 1, .run 1, .run 1, .run 1, .run 1,
    .start (.dropReceiver 0), .run 2,
    .start (.cloneReceiver 1 0), .run 3]

theorem slots_bookkept_in_cloneWhileLeaving :
    let r := schedule Free ⟨true, true⟩ 1 Nat.one_pos cloneWhileLeaving
    r.2.calls = [.clonedReceiver 0, .pending 1, .popLock (.dropReceiver 0),
        .cloneRegister 1 0] ∧
      r.2.cb.waitlist.keys = [1] ∧ r.2.cb.receivers = 3 ∧ Bookkept r.1 r.2 :=
  ⟨by decide, by decide, by decide, slots_bookkept (runs_schedule ..)⟩

end RingChannel
