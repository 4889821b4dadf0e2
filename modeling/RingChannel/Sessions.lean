/-
# `RingChannel.Sessions` — what a session keeps

The invariants of a client that makes one call at a time.  Counters may be
machine words, so they are compared with the true numbers of endpoints through
an embedding `f` of `Nat` into the type of counters:

* in every run each counter is `f` of the number of endpoints of its kind that
  have not been dropped (`Counted`) — a leaked endpoint is one of them — and a
  slot is registered exactly for each receiver that has not been dropped
  (`Registered`);
* as long as `f` is injective on the numbers that occur (`fits`), the flag and
  the block follow the endpoints (`Phased`): the channel is connected while
  both kinds remain, and the block is freed when none does.

`Move` lists what a request can do to the counters, the flag and the endpoints.
-/
import RingChannel.Sequential

namespace RingChannel

variable {N K T : Type}

/-! ## The methods that only pass messages -/

/-- The counters, the flag, the registered slots and the capacity are as they
were. -/
structure ControlBlock.Keeps (cb cb' : ControlBlock N T) : Prop where
  senders : cb'.senders = cb.senders
  receivers : cb'.receivers = cb.receivers
  connected : cb'.connected = cb.connected
  sameKeys : cb.waitlist.SameKeys cb'.waitlist
  capacity : cb'.buffer.capacity = cb.buffer.capacity

theorem RingSender.pollFlush_hold (t : RingSender) (ctx : K) :
    (t.pollFlush (T := T) ctx).2.2.hold = t.hold := by
  unfold pollFlush
  split <;> rfl

theorem RingSender.startSend_hold (t : RingSender) (r : Except (SendError T) (Option T)) :
    (t.startSend r).2.hold = t.hold := by
  cases r <;> rfl

namespace ControlBlock

theorem Keeps.rfl {cb : ControlBlock N T} : cb.Keeps cb :=
  ⟨Eq.refl _, Eq.refl _, Eq.refl _, .rfl, Eq.refl _⟩

theorem Keeps.trans {cb₁ cb₂ cb₃ : ControlBlock N T} (h : cb₁.Keeps cb₂) (h' : cb₂.Keeps cb₃) :
    cb₁.Keeps cb₃ :=
  ⟨h'.senders.trans h.senders, h'.receivers.trans h.receivers,
    h'.connected.trans h.connected, h.sameKeys.trans h'.sameKeys, h'.capacity.trans h.capacity⟩

theorem answer_keeps {cb cb' : ControlBlock N T} {k : Nat} {r : Option T} {p : Poll (Option T)}
    (h : cb.answer k r = some (p, cb')) : cb.Keeps cb' := by
  simp only [answer, Option.map_eq_some_iff, Prod.mk.injEq] at h
  obtain ⟨⟨old, wl⟩, hrem, -, rfl⟩ := h
  exact ⟨Eq.refl _, Eq.refl _, Eq.refl _, (Waitlist.remove_writes hrem).sameKeys, Eq.refl _⟩

variable [OfNat N 0] [LT N] [DecidableLT N]

theorem send_keeps (cb : ControlBlock N T) (m : T) : cb.Keeps (cb.send m).2.2 := by
  have hcap := cb.buffer.capacity_push m
  unfold send
  split
  · split
    · rename_i b hpush
      rw [hpush] at hcap
      exact ⟨Eq.refl _, Eq.refl _, Eq.refl _, cb.waitlist.pop_sameKeys, hcap⟩
    · rename_i x b hpush
      rw [hpush] at hcap
      exact ⟨Eq.refl _, Eq.refl _, Eq.refl _, .rfl, hcap⟩
  · exact .rfl

theorem tryRecv_keeps (cb : ControlBlock N T) : cb.Keeps cb.tryRecv.2 :=
  ⟨Eq.refl _, Eq.refl _, Eq.refl _, .rfl, cb.buffer.capacity_pop⟩

theorem poll_keeps {cb cb' : ControlBlock N T} {k : Nat} {w : Waker} {p : Poll (Option T)}
    (h : cb.poll k w = some (p, cb')) : cb.Keeps cb' := by
  have hfirst := cb.tryRecv_keeps
  unfold poll at h
  split at h
  · rename_i m cb₁ heq
    rw [heq] at hfirst
    exact hfirst.trans (answer_keeps h)
  · rename_i cb₁ heq
    rw [heq] at hfirst
    exact hfirst.trans (answer_keeps h)
  · rename_i cb₁ heq
    rw [heq] at hfirst
    split at h
    · cases h
    · rename_i old wl hins
      have hput : cb₁.Keeps { cb₁ with waitlist := wl } :=
        ⟨Eq.refl _, Eq.refl _, Eq.refl _, (Waitlist.insert_writes hins).sameKeys, Eq.refl _⟩
      have hagain := hfirst.trans (hput.trans (tryRecv_keeps _))
      split at h
      · rename_i m cb₂ heq₂
        rw [heq₂] at hagain
        exact hagain.trans (answer_keeps h)
      · rename_i cb₂ heq₂
        rw [heq₂] at hagain
        exact hagain.trans (answer_keeps h)
      · rename_i cb₂ heq₂
        rw [heq₂] at hagain
        cases h
        exact hagain

end ControlBlock

namespace Session

/-! ## Counting endpoints -/

def holds (s : Session N T) : List Hold := s.txs.map RingSender.hold

/-- The senders that have not been dropped. -/
def heldSenders (s : Session N T) : Nat := Ledger.total (fun _ h => h.held) s.holds

/-- The receivers that have not been dropped. -/
def heldReceivers (s : Session N T) : Nat := s.rxs.weight fun _ h => h.held

theorem holds_modify {s : Session N T} {tx : Nat} {t : RingSender} (f : RingSender → RingSender)
    (h : s.txs[tx]? = some t) : (s.modify tx f).holds = s.holds.set tx (f t).hold := by
  have hset : s.txs.modify tx f = s.txs.set tx (f t) := by
    apply List.ext_getElem?
    intro i
    rw [List.getElem?_modify, List.getElem?_set]
    rcases eq_or_ne tx i with rfl | hi
    · obtain ⟨hlt, heq⟩ := List.getElem?_eq_some_iff.mp h
      simp [hlt, heq]
    · simp [hi]
  simp [holds, modify, hset, List.map_set]

/-- A sender that changes its flag is held as before. -/
theorem holds_modify_same {s : Session N T} {tx : Nat} {t u : RingSender}
    (h : s.txs[tx]? = some t) (hu : u.hold = t.hold) :
    (s.modify tx fun _ => u).holds = s.holds := by
  have hget : s.holds[tx]? = some t.hold := by simp [holds, h]
  obtain ⟨hlt, heq⟩ := List.getElem?_eq_some_iff.mp hget
  rw [holds_modify _ h, hu, ← heq]
  exact List.set_getElem_self hlt

theorem holds_of_usable {s : Session N T} {tx : Nat} (h : s.usable (.sender tx) = true) :
    s.holds[tx]? = some .usable := by
  simpa [usable, holds] using h

theorem sender_of_usable {s : Session N T} {tx : Nat} (h : s.usable (.sender tx) = true) :
    ∃ t, s.txs[tx]? = some t ∧ t.hold = .usable := by
  simpa [usable, Option.map_eq_some_iff] using h

theorem receiver_of_usable {s : Session N T} {rx : Nat} (h : s.usable (.receiver rx) = true) :
    s.rxs.get rx = some .usable := by
  simpa [usable] using h

/-! ## What a request can do -/

/-- The outcomes of a request, as far as the endpoints are concerned. -/
inductive Move [OfNat N 1] [Add N] [Sub N] (s : Session N T) :
    Request K T → Session N T → Prop
  /-- Nothing happens to them. -/
  | quiet {r : Request K T} {s' : Session N T} :
      s.cb.Keeps s'.cb → s'.freed = s.freed → s'.holds = s.holds →
      s'.rxs = s.rxs → Move s r s'
  | leakSender {r : Request K T} {s' : Session N T} {tx : Nat} : s.holds[tx]? = some .usable →
      s'.cb = s.cb → s'.freed = s.freed → s'.holds = s.holds.set tx .leaked →
      s'.rxs = s.rxs → Move s r s'
  | leakReceiver {r : Request K T} {s' : Session N T} {rx : Nat} : s.rxs.get rx = some .usable →
      s'.cb = s.cb → s'.freed = s.freed → s'.holds = s.holds →
      s'.rxs = s.rxs.set rx .leaked → Move s r s'
  | cloneSender {s' : Session N T} {tx : Nat} : s.holds[tx]? = some .usable →
      s'.cb = { s.cb with senders := s.cb.senders + 1 } → s'.freed = s.freed →
      s'.holds = s.holds ++ [.usable] → s'.rxs = s.rxs → Move s (.call (.cloneSender tx)) s'
  | cloneReceiver {s' : Session N T} {rx pos k : Nat} {wl : Waitlist Waker} :
      s.rxs.get rx = some .usable → s.cb.waitlist.Adds k wl →
      s'.cb = { s.cb with receivers := s.cb.receivers + 1, waitlist := wl } →
      s'.freed = s.freed → s'.holds = s.holds → s'.rxs = s.rxs.insertAt 0 k .usable →
      Move s (.call (.cloneReceiver rx pos)) s'
  | dropSender {r : Request K T} {s' : Session N T} {tx : Nat} : s.holds[tx]? = some .usable →
      s.cb.senders ≠ 1 → s'.cb = { s.cb with senders := s.cb.senders - 1 } →
      s'.freed = false → s'.holds = s.holds.set tx .dropped → s'.rxs = s.rxs → Move s r s'
  | dropLastSender {r : Request K T} {s' : Session N T} {tx : Nat} {wl : Waitlist Waker} :
      s.holds[tx]? = some .usable → s.cb.senders = 1 → s.cb.waitlist.SameKeys wl →
      s'.cb = { s.cb with senders := s.cb.senders - 1, waitlist := wl, connected := false } →
      s'.freed = !s.cb.connected → s'.holds = s.holds.set tx .dropped → s'.rxs = s.rxs → Move s r s'
  | dropReceiver {r : Request K T} {s' : Session N T} {rx : Nat} {old : Option Waker}
      {wl wl' : Waitlist Waker} :
      s.rxs.get rx = some .usable → s.cb.receivers ≠ 1 → s.cb.waitlist.Drops rx old wl →
      wl.SameKeys wl' →
      s'.cb = { s.cb with receivers := s.cb.receivers - 1, waitlist := wl' } →
      s'.freed = false → s'.holds = s.holds → s'.rxs = s.rxs.set rx .dropped → Move s r s'
  | dropLastReceiver {r : Request K T} {s' : Session N T} {rx : Nat} {old : Option Waker}
      {wl wl' : Waitlist Waker} :
      s.rxs.get rx = some .usable → s.cb.receivers = 1 → s.cb.waitlist.Drops rx old wl →
      wl.SameKeys wl' →
      s'.cb = { s.cb with receivers := s.cb.receivers - 1, waitlist := wl', connected := false } →
      s'.freed = !s.cb.connected → s'.holds = s.holds → s'.rxs = s.rxs.set rx .dropped → Move s r s'

section Requests

variable [OfNat N 1] [Add N] [Sub N] [DecidableEq N]

theorem move_of_dropSender {s : Session N T} {r : Request K T} {tx : Nat}
    (hu : s.usable (.sender tx) = true) :
    Move s r { s.modify tx ({ · with hold := .dropped }) with
      cb := s.cb.dropSender.2.2
      freed := s.cb.dropSender.1
      calls := s.calls + 1 } := by
  obtain ⟨t, ht, -⟩ := sender_of_usable hu
  have hholds := holds_modify ({ · with hold := .dropped }) ht
  by_cases hone : s.cb.senders = 1
  · refine .dropLastSender (holds_of_usable hu) hone s.cb.waitlist.popAll_sameKeys ?_ ?_ hholds rfl
    · simp only [ControlBlock.dropSender, if_pos hone]
    · simp only [ControlBlock.dropSender, if_pos hone]
  · refine .dropSender (holds_of_usable hu) hone ?_ ?_ hholds rfl
    · simp only [ControlBlock.dropSender, if_neg hone]
    · simp only [ControlBlock.dropSender, if_neg hone]

theorem move_of_dropReceiver {s s' : Session N T} {r : Request K T} {rx : Nat} {free : Bool}
    {ws : List Waker}
    {cb : ControlBlock N T} (hu : s.usable (.receiver rx) = true)
    (hd : s.cb.dropReceiver rx = some (free, ws, cb)) (hcb : s'.cb = cb) (hfree : s'.freed = free)
    (hholds : s'.holds = s.holds) (hrxs : s'.rxs = s.rxs.set rx .dropped) : Move s r s' := by
  simp only [ControlBlock.dropReceiver, Option.map_eq_some_iff] at hd
  obtain ⟨⟨old, wl⟩, hdereg, hd⟩ := hd
  have hkeys : wl.SameKeys (if old.isNone then wl.pop else (none, wl)).2 := by
    split
    · exact wl.pop_sameKeys
    · exact .rfl
  have hdrops := Waitlist.deregister_drops hdereg
  subst hcb hfree
  by_cases hone : s.cb.receivers = 1
  · simp only [if_pos hone, Prod.mk.injEq] at hd
    exact .dropLastReceiver (receiver_of_usable hu) hone hdrops hkeys hd.2.2.symm hd.1.symm
      hholds hrxs
  · simp only [if_neg hone, Prod.mk.injEq] at hd
    exact .dropReceiver (receiver_of_usable hu) hone hdrops hkeys hd.2.2.symm hd.1.symm
      hholds hrxs

variable [OfNat N 0] [LT N] [DecidableLT N]

theorem usable_of_step {s s' : Session N T} {r : Request K T} {e : Reply K T}
    (h : s.step r = some (e, s')) : s.freed = false ∧ s.usable r.endpoint = true ∧
      ∃ ws a, s.perform r = some (ws, a, s') ∧ e = ⟨r, ws, a⟩ := by
  simp only [step] at h
  split at h
  · rename_i hguard
    simp only [Bool.and_eq_true, Bool.not_eq_true'] at hguard
    simp only [Option.map_eq_some_iff, Prod.mk.injEq] at h
    obtain ⟨⟨ws, a, u⟩, hp, rfl, rfl⟩ := h
    exact ⟨hguard.1, hguard.2, ws, a, hp, rfl⟩
  · cases h

theorem step_of_perform {s s' : Session N T} {r : Request K T} {ws : List (Waker ⊕ K)}
    {a : Answer T} (hopen : s.freed = false) (hu : s.usable r.endpoint = true)
    (hp : s.perform r = some (ws, a, s')) : s.step r = some (⟨r, ws, a⟩, s') := by
  rw [step, hopen, hu, hp]
  rfl

/-- Everything a request can do. -/
theorem move_of_step {s s' : Session N T} {r : Request K T} {e : Reply K T}
    (h : s.step r = some (e, s')) : Move s r s' := by
  obtain ⟨-, hu, ws, a, hp, -⟩ := usable_of_step h
  cases r with
  | call op =>
      cases op with
      | send tx m =>
          cases hp
          exact .quiet (s.cb.send_keeps m) rfl rfl rfl
      | cloneSender tx =>
          cases hp
          exact .cloneSender (holds_of_usable hu) rfl rfl (by simp [holds]) rfl
      | dropSender tx =>
          cases hp
          exact move_of_dropSender hu
      | tryRecv rx =>
          cases hp
          exact .quiet s.cb.tryRecv_keeps rfl rfl rfl
      | pollNext rx =>
          simp only [perform, Option.map_eq_some_iff, Prod.mk.injEq] at hp
          obtain ⟨⟨p, cb⟩, hpoll, -, -, rfl⟩ := hp
          exact .quiet (ControlBlock.poll_keeps hpoll) rfl rfl rfl
      | recv rx =>
          simp only [perform] at hp
          split at hp
          · rename_i r cb hpoll
            cases hp
            exact .quiet (ControlBlock.poll_keeps hpoll) rfl rfl rfl
          · cases hp
      | cloneReceiver rx pos =>
          cases hp
          exact .cloneReceiver (receiver_of_usable hu) (s.cb.waitlist.register_adds pos) rfl rfl
            rfl rfl
      | dropReceiver rx =>
          simp only [perform, Option.map_eq_some_iff, Prod.mk.injEq] at hp
          obtain ⟨⟨free, woken, cb⟩, hd, -, -, rfl⟩ := hp
          exact move_of_dropReceiver hu hd rfl rfl rfl rfl
  | leakSender tx =>
      cases hp
      obtain ⟨t, ht, -⟩ := sender_of_usable hu
      exact .leakSender (holds_of_usable hu) rfl rfl (holds_modify _ ht) rfl
  | leakReceiver rx =>
      cases hp
      exact .leakReceiver (receiver_of_usable hu) rfl rfl rfl rfl
  | pollReady tx ctx =>
      simp only [perform, Option.map_eq_some_iff, Prod.mk.injEq] at hp
      obtain ⟨t, ht, -, -, rfl⟩ := hp
      exact .quiet .rfl rfl (holds_modify_same ht (t.pollFlush_hold ctx)) rfl
  | startSend tx m =>
      simp only [perform, Option.map_eq_some_iff, Prod.mk.injEq] at hp
      obtain ⟨t, ht, -, -, rfl⟩ := hp
      exact .quiet (s.cb.send_keeps m) rfl (holds_modify_same ht (t.startSend_hold _)) rfl
  | pollFlush tx ctx =>
      simp only [perform, Option.map_eq_some_iff, Prod.mk.injEq] at hp
      obtain ⟨t, ht, -, -, rfl⟩ := hp
      exact .quiet .rfl rfl (holds_modify_same ht (t.pollFlush_hold ctx)) rfl
  | pollClose tx ctx =>
      cases hp
      exact .quiet .rfl rfl rfl rfl

end Requests

theorem capacity_of_move [OfNat N 1] [Add N] [Sub N] {s s' : Session N T} {r : Request K T}
    (h : Move s r s') : s'.cb.buffer.capacity = s.cb.buffer.capacity := by
  cases h with
  | quiet hcb => exact hcb.capacity
  | leakSender _ hcb | leakReceiver _ hcb | cloneSender _ hcb | cloneReceiver _ _ hcb
  | dropSender _ _ hcb | dropLastSender _ _ _ hcb | dropReceiver _ _ _ _ hcb
  | dropLastReceiver _ _ _ _ hcb => rw [hcb]

/-! ## Registered slots -/

/-- A slot is registered exactly for each receiver that has not been dropped,
and no receiver has a key yet to be handed out. -/
structure Registered (s : Session N T) : Prop where
  slots : ∀ k, (s.cb.waitlist.slot k).isSome = (s.rxs.get k).any (· ≠ .dropped)
  known : ∀ k h, s.rxs.get k = some h → k < s.cb.waitlist.fresh

theorem Registered.get_fresh {s : Session N T} (hi : Registered s) :
    s.rxs.get s.cb.waitlist.fresh = none := by
  cases h : s.rxs.get s.cb.waitlist.fresh with
  | none => rfl
  | some o => exact absurd (hi.known _ o h) (Nat.lt_irrefl _)

theorem Registered.of_same {s s' : Session N T} (hi : Registered s)
    (hkeys : s.cb.waitlist.SameKeys s'.cb.waitlist) (hrxs : s'.rxs = s.rxs) : Registered s' where
  slots k := by rw [hkeys.slot_isSome k, hrxs, hi.slots k]
  known k o ho := by
    rw [hkeys.fresh_eq]
    exact hi.known k o (hrxs ▸ ho)

/-- One receiver is held in another way. -/
theorem Registered.of_set {s s' : Session N T} {rx : Nat} {o : Hold} (hi : Registered s)
    (hrx : s.rxs.get rx = some .usable) (hrxs : s'.rxs = s.rxs.set rx o)
    (hself : (s'.cb.waitlist.slot rx).isSome = decide (o ≠ .dropped))
    (hne : ∀ k, k ≠ rx → (s'.cb.waitlist.slot k).isSome = (s.cb.waitlist.slot k).isSome)
    (hfresh : s'.cb.waitlist.fresh = s.cb.waitlist.fresh) : Registered s' where
  slots k := by
    rw [hrxs]
    rcases eq_or_ne k rx with rfl | hk
    · rw [SlotMap.get_set_self o hrx, hself, Option.any_some]
    · rw [SlotMap.get_set_ne o hk, hne k hk, hi.slots k]
  known k o' ho := by
    rw [hfresh]
    rcases eq_or_ne k rx with rfl | hk
    · exact hi.known k _ hrx
    · rw [hrxs, SlotMap.get_set_ne o hk] at ho
      exact hi.known k o' ho

theorem Registered.of_drops {s s' : Session N T} {rx : Nat} {old : Option Waker}
    {wl wl' : Waitlist Waker} (hi : Registered s) (hrx : s.rxs.get rx = some .usable)
    (hdrop : s.cb.waitlist.Drops rx old wl) (hkeys : wl.SameKeys wl')
    (hwl : s'.cb.waitlist = wl') (hrxs : s'.rxs = s.rxs.set rx .dropped) : Registered s' := by
  subst hwl
  refine hi.of_set hrx hrxs ?_ (fun k hk => ?_) (hkeys.fresh_eq.trans hdrop.fresh_eq)
  · rw [hkeys.slot_isSome, hdrop.slot_self]
    rfl
  · rw [hkeys.slot_isSome, hdrop.slot_ne k hk]

theorem registered_start [OfNat N 1] (lay : Layout) (n : Nat) (h : 0 < n) :
    Registered (ringChannel lay n h : Session N T) := by
  have hadd := Waitlist.register_adds (Waitlist.new lay.waker : Waitlist Waker) 0
  have hrx : (SlotMap.empty : SlotMap Hold).get 0 = none := rfl
  constructor
  · intro k
    show ((Waitlist.register (Waitlist.new lay.waker : Waitlist Waker) 0).2.slot k).isSome
      = ((SlotMap.empty.insertAt 0 0 .usable : SlotMap Hold).get k).any (· ≠ .dropped)
    rcases eq_or_ne k 0 with rfl | hk
    · rw [SlotMap.get_insertAt_self 0 _ hrx]
      exact congrArg Option.isSome hadd.slot_self
    · rw [SlotMap.get_insertAt_ne 0 _ hk, SlotMap.get_empty]
      exact congrArg Option.isSome (hadd.slot_ne k hk)
  · intro k o ho
    rcases eq_or_ne k 0 with rfl | hk
    · exact Nat.one_pos
    · have hget : (SlotMap.empty.insertAt 0 0 .usable : SlotMap Hold).get k = some o := ho
      rw [SlotMap.get_insertAt_ne 0 _ hk] at hget
      cases hget

theorem registered_step [OfNat N 1] [Add N] [Sub N] {s s' : Session N T} {r : Request K T}
    (h : Move s r s') (hi : Registered s) : Registered s' := by
  cases h with
  | quiet hcb _ _ hrxs => exact hi.of_same hcb.sameKeys hrxs
  | leakSender _ hcb _ _ hrxs => exact hi.of_same (hcb ▸ .rfl) hrxs
  | @leakReceiver _ _ rx hrx hcb _ _ hrxs =>
      refine hi.of_set hrx hrxs ?_ (fun k _ => by rw [hcb]) (by rw [hcb])
      rw [hcb, hi.slots rx, hrx]
      rfl
  | cloneSender _ hcb _ _ hrxs => exact hi.of_same (hcb ▸ .rfl) hrxs
  | cloneReceiver _ hadd hcb _ _ hrxs =>
      obtain rfl := hadd.fresh_before
      constructor
      · intro k
        rw [hrxs, hcb]
        by_cases hk : k = s.cb.waitlist.fresh
        · subst hk
          rw [SlotMap.get_insertAt_self 0 _ hi.get_fresh, hadd.slot_self]
          rfl
        · rw [SlotMap.get_insertAt_ne 0 _ hk, hadd.slot_ne k hk, hi.slots k]
      · intro k o ho
        rw [hcb, hadd.fresh_eq]
        by_cases hk : k = s.cb.waitlist.fresh
        · omega
        · rw [hrxs, SlotMap.get_insertAt_ne 0 _ hk] at ho
          exact Nat.lt_succ_of_lt (hi.known k o ho)
  | dropSender _ _ hcb _ _ hrxs => exact hi.of_same (hcb ▸ .rfl) hrxs
  | dropLastSender _ _ hkeys hcb _ _ hrxs => exact hi.of_same (hcb ▸ hkeys) hrxs
  | dropReceiver hrx _ hdrop hkeys hcb _ _ hrxs =>
      exact hi.of_drops hrx hdrop hkeys (by rw [hcb]) hrxs
  | dropLastReceiver hrx _ hdrop hkeys hcb _ _ hrxs =>
      exact hi.of_drops hrx hdrop hkeys (by rw [hcb]) hrxs

/-! ## The counters -/

/-- `f` counts in `N` the way the counters do. -/
structure Counts [OfNat N 0] [OfNat N 1] [Add N] [Sub N] (f : Nat → N) : Prop where
  zero : f 0 = 0
  one : f 1 = 1
  succ : ∀ n, f n + 1 = f (n + 1)
  pred : ∀ n, f (n + 1) - 1 = f n

structure Counted (f : Nat → N) (s : Session N T) : Prop where
  senders : s.cb.senders = f s.heldSenders
  receivers : s.cb.receivers = f s.heldReceivers

theorem held_of_sender {s : Session N T} {tx : Nat} (h : s.holds[tx]? = some .usable) :
    0 < s.heldSenders :=
  Ledger.le_total (f := fun _ h => h.held) h

theorem held_of_receiver {s : Session N T} {rx : Nat} (h : s.rxs.get rx = some .usable) :
    0 < s.heldReceivers :=
  SlotMap.le_weight (fun _ h => h.held) h

/-- One sender is held in another way. -/
theorem heldSenders_set {s s' : Session N T} {tx : Nat} {o : Hold}
    (htx : s.holds[tx]? = some .usable) (h : s'.holds = s.holds.set tx o) :
    s'.heldSenders + 1 = s.heldSenders + o.held := by
  simp only [heldSenders, h]
  exact Ledger.total_set o htx fun _ _ _ _ => rfl

theorem heldSenders_same {s s' : Session N T} (h : s'.holds = s.holds) :
    s'.heldSenders = s.heldSenders := by simp only [heldSenders, h]

theorem heldReceivers_set {s s' : Session N T} {rx : Nat} {o : Hold}
    (hrx : s.rxs.get rx = some .usable) (h : s'.rxs = s.rxs.set rx o) :
    s'.heldReceivers + 1 = s.heldReceivers + o.held := by
  simp only [heldReceivers, h]
  exact SlotMap.weight_set o hrx fun _ _ _ => rfl

theorem heldReceivers_same {s s' : Session N T} (h : s'.rxs = s.rxs) :
    s'.heldReceivers = s.heldReceivers := by simp only [heldReceivers, h]

/-- A new sender. -/
theorem heldSenders_concat {s s' : Session N T} (h : s'.holds = s.holds ++ [.usable]) :
    s'.heldSenders = s.heldSenders + 1 := by
  simp only [heldSenders, h]
  exact Ledger.total_concat Hold.usable fun _ _ _ => rfl

/-- A new receiver. -/
theorem heldReceivers_insertAt {s s' : Session N T} {k : Nat} (hk : s.rxs.get k = none)
    (h : s'.rxs = s.rxs.insertAt 0 k .usable) : s'.heldReceivers = s.heldReceivers + 1 := by
  simp only [heldReceivers, h]
  exact SlotMap.weight_insertAt 0 .usable _ hk

/-- The channel is connected while endpoints of both kinds remain, and the
block is freed when none does. -/
structure Phased (s : Session N T) : Prop where
  connected : s.cb.connected = true ↔ 0 < s.heldSenders ∧ 0 < s.heldReceivers
  freed : s.freed = true ↔ s.heldSenders = 0 ∧ s.heldReceivers = 0

/-- The first of the two last drops finds the flag set, the second does not. -/
theorem Phased.of_last {s s' : Session N T} (hi : Phased s) (hconn : s'.cb.connected = false)
    (hfreed : s'.freed = !s.cb.connected)
    (hcounts : (s.heldSenders = 1 ∧ s'.heldSenders = 0 ∧ s'.heldReceivers = s.heldReceivers) ∨
      (s.heldReceivers = 1 ∧ s'.heldReceivers = 0 ∧ s'.heldSenders = s.heldSenders)) :
    Phased s' := by
  have hold := hi.connected
  constructor
  · rw [hconn]
    exact ⟨nofun, by omega⟩
  · rw [hfreed]
    cases hc : s.cb.connected with
    | true =>
        have := hold.mp hc
        exact ⟨nofun, by omega⟩
    | false =>
        rw [hc] at hold
        have hnot : ¬ (0 < s.heldSenders ∧ 0 < s.heldReceivers) := fun h => nomatch hold.mpr h
        exact ⟨fun _ => by omega, fun _ => rfl⟩

/-- No count becomes zero, nor leaves it. -/
theorem Phased.of_kept {s s' : Session N T} (hi : Phased s)
    (hconn : s'.cb.connected = s.cb.connected) (hfreed : s'.freed = s.freed)
    (hs : s'.heldSenders = 0 ↔ s.heldSenders = 0)
    (hr : s'.heldReceivers = 0 ↔ s.heldReceivers = 0) : Phased s' := by
  obtain ⟨hc, hf⟩ := hi
  constructor
  · rw [hconn, hc]
    omega
  · rw [hfreed, hf, hs, hr]

theorem phased_start [OfNat N 1] (lay : Layout) (n : Nat) (h : 0 < n) :
    Phased (ringChannel lay n h : Session N T) :=
  ⟨⟨fun _ => ⟨Nat.one_pos, Nat.one_pos⟩, fun _ => rfl⟩, ⟨nofun, fun h => nomatch h.1⟩⟩

variable [OfNat N 1] [Add N] [Sub N] {f : Nat → N}

theorem counted_start [OfNat N 0] (hf : Counts f) (lay : Layout) (n : Nat) (h : 0 < n) :
    Counted f (ringChannel lay n h : Session N T) :=
  ⟨hf.one.symm, hf.one.symm⟩

/-- A drop takes away what its endpoint was counted for. -/
theorem dropped_sender [OfNat N 0] (hf : Counts f) {s s' : Session N T} {tx : Nat}
    (hs : s.cb.senders = f s.heldSenders) (htx : s.holds[tx]? = some .usable)
    (hholds : s'.holds = s.holds.set tx .dropped) : s.cb.senders - 1 = f s'.heldSenders := by
  have hcount : s'.heldSenders + 1 = s.heldSenders := heldSenders_set htx hholds
  rw [← hf.pred s'.heldSenders, hcount, hs]

theorem dropped_receiver [OfNat N 0] (hf : Counts f) {s s' : Session N T} {rx : Nat}
    (hv : s.cb.receivers = f s.heldReceivers) (hrx : s.rxs.get rx = some .usable)
    (hrxs : s'.rxs = s.rxs.set rx .dropped) : s.cb.receivers - 1 = f s'.heldReceivers := by
  have hcount : s'.heldReceivers + 1 = s.heldReceivers := heldReceivers_set hrx hrxs
  rw [← hf.pred s'.heldReceivers, hcount, hv]

theorem counted_step [OfNat N 0] (hf : Counts f) {s s' : Session N T} {r : Request K T}
    (h : Move s r s') (hr : Registered s) (hi : Counted f s) : Counted f s' := by
  obtain ⟨hs, hv⟩ := hi
  cases h with
  | quiet hcb _ hholds hrxs =>
      constructor
      · rw [hcb.senders, hs, heldSenders_same hholds]
      · rw [hcb.receivers, hv, heldReceivers_same hrxs]
  | leakSender htx hcb _ hholds hrxs =>
      have hcount : s'.heldSenders = s.heldSenders := by
        have := heldSenders_set htx hholds
        simpa [Hold.held] using this
      exact ⟨by rw [hcb, hs, hcount], by rw [hcb, hv, heldReceivers_same hrxs]⟩
  | leakReceiver hrx hcb _ hholds hrxs =>
      have hcount : s'.heldReceivers = s.heldReceivers := by
        have := heldReceivers_set hrx hrxs
        simpa [Hold.held] using this
      exact ⟨by rw [hcb, hs, heldSenders_same hholds], by rw [hcb, hv, hcount]⟩
  | cloneSender _ hcb _ hholds hrxs =>
      constructor
      · rw [hcb, heldSenders_concat hholds, ← hf.succ, ← hs]
      · rw [hcb, hv, heldReceivers_same hrxs]
  | cloneReceiver _ hadd hcb _ hholds hrxs =>
      obtain rfl := hadd.fresh_before
      constructor
      · rw [hcb, hs, heldSenders_same hholds]
      · rw [hcb, heldReceivers_insertAt hr.get_fresh hrxs, ← hf.succ, ← hv]
  | dropSender htx _ hcb _ hholds hrxs | dropLastSender htx _ _ hcb _ hholds hrxs =>
      exact ⟨by rw [hcb]; exact dropped_sender hf hs htx hholds,
        by rw [hcb, hv, heldReceivers_same hrxs]⟩
  | dropReceiver hrx _ _ _ hcb _ hholds hrxs | dropLastReceiver hrx _ _ _ hcb _ hholds hrxs =>
      exact ⟨by rw [hcb, hs, heldSenders_same hholds],
        by rw [hcb]; exact dropped_receiver hf hv hrx hrxs⟩

/-- The flag and the block follow the endpoints, as long as the counters tell
one endpoint from several, and the client holds what it clones. -/
theorem phased_step {s s' : Session N T} {r : Request K T} (hopen : s.freed = false)
    (hsenders : s.cb.senders = 1 ↔ s.heldSenders = 1)
    (hreceivers : s.cb.receivers = 1 ↔ s.heldReceivers = 1)
    (h : Move s r s') (hr : Registered s) (hi : Phased s) : Phased s' := by
  cases h with
  | quiet hcb hfreed hholds hrxs =>
      exact hi.of_kept hcb.connected hfreed (by rw [heldSenders_same hholds])
        (by rw [heldReceivers_same hrxs])
  | leakSender htx hcb hfreed hholds hrxs =>
      have hcount : s'.heldSenders + 1 = s.heldSenders + 1 := heldSenders_set htx hholds
      exact hi.of_kept (by rw [hcb]) hfreed (by omega) (by rw [heldReceivers_same hrxs])
  | leakReceiver hrx hcb hfreed hholds hrxs =>
      have hcount : s'.heldReceivers + 1 = s.heldReceivers + 1 := heldReceivers_set hrx hrxs
      exact hi.of_kept (by rw [hcb]) hfreed (by rw [heldSenders_same hholds]) (by omega)
  | cloneSender htx hcb hfreed hholds hrxs =>
      have hpos := held_of_sender htx
      have hcount := heldSenders_concat hholds
      exact hi.of_kept (by rw [hcb]) hfreed (by omega) (by rw [heldReceivers_same hrxs])
  | cloneReceiver hrx hadd hcb hfreed hholds hrxs =>
      obtain rfl := hadd.fresh_before
      have hpos := held_of_receiver hrx
      have hcount := heldReceivers_insertAt hr.get_fresh hrxs
      exact hi.of_kept (by rw [hcb]) hfreed (by rw [heldSenders_same hholds]) (by omega)
  | dropSender htx hone hcb hfreed hholds hrxs =>
      have hcount : s'.heldSenders + 1 = s.heldSenders + 0 := heldSenders_set htx hholds
      have hmore : s.heldSenders ≠ 1 := fun h => hone (hsenders.mpr h)
      exact hi.of_kept (by rw [hcb]) (hfreed.trans hopen.symm) (by omega)
        (by rw [heldReceivers_same hrxs])
  | dropLastSender htx hone _ hcb hfreed hholds hrxs =>
      have hcount : s'.heldSenders + 1 = s.heldSenders + 0 := heldSenders_set htx hholds
      have hlast := hsenders.mp hone
      exact hi.of_last (by rw [hcb]) hfreed (.inl ⟨hlast, by omega, heldReceivers_same hrxs⟩)
  | dropReceiver hrx hone _ _ hcb hfreed hholds hrxs =>
      have hcount : s'.heldReceivers + 1 = s.heldReceivers + 0 := heldReceivers_set hrx hrxs
      have hmore : s.heldReceivers ≠ 1 := fun h => hone (hreceivers.mpr h)
      exact hi.of_kept (by rw [hcb]) (hfreed.trans hopen.symm) (by rw [heldSenders_same hholds])
        (by omega)
  | dropLastReceiver hrx hone _ _ hcb hfreed hholds hrxs =>
      have hcount : s'.heldReceivers + 1 = s.heldReceivers + 0 := heldReceivers_set hrx hrxs
      have hlast := hreceivers.mp hone
      exact hi.of_last (by rw [hcb]) hfreed (.inr ⟨hlast, by omega, heldSenders_same hholds⟩)

/-! ## Over a run -/

/-- What every session keeps, whatever its client leaks. -/
structure Wf (f : Nat → N) (s : Session N T) : Prop where
  registered : Registered s
  counted : Counted f s

/-- The numbers on which `f` is known to be injective. -/
structure Fitting (f : Nat → N) (fits : Nat → Prop) : Prop where
  one : fits 1
  down : ∀ m n, m ≤ n → fits n → fits m
  inj : ∀ m n, fits m → fits n → f m = f n → m = n

/-- A counter that fits tells apart the numbers of endpoints. -/
theorem eq_one_iff [OfNat N 0] (hf : Counts f) {fits : Nat → Prop} (hfit : Fitting f fits)
    {m : Nat} (hm : fits m) :
    f m = 1 ↔ m = 1 := by
  rw [← hf.one]
  exact ⟨hfit.inj m 1 hm hfit.one, fun h => by rw [h]⟩

theorem eq_zero_iff [OfNat N 0] (hf : Counts f) {fits : Nat → Prop} (hfit : Fitting f fits)
    {m : Nat} (hm : fits m) :
    f m = 0 ↔ m = 0 := by
  rw [← hf.zero]
  exact ⟨hfit.inj m 0 hm (hfit.down 0 1 (Nat.zero_le 1) hfit.one), fun h => by rw [h]⟩

/-- A client that clones an endpoint only as long as the number of those that
have not been dropped still fits afterwards. -/
def Fits (fits : Nat → Prop) (_ : Trace (Session N T) (Reply K T)) (s : Session N T)
    (e : Reply K T) : Prop :=
  (e.request.clonesSender = true → fits (s.heldSenders + 1)) ∧
    (e.request.clonesReceiver = true → fits (s.heldReceivers + 1))

instance (fits : Nat → Prop) [DecidablePred fits] (tr : Trace (Session N T) (Reply K T))
    (s : Session N T) (e : Reply K T) : Decidable (Fits fits tr s e) :=
  inferInstanceAs (Decidable (_ ∧ _))

/-- The flag and the block follow the endpoints, and their numbers fit. -/
structure Kept (fits : Nat → Prop) (s : Session N T) : Prop where
  phased : Phased s
  senders : fits s.heldSenders
  receivers : fits s.heldReceivers

/-- Only clones add endpoints. -/
theorem held_step {s s' : Session N T} {r : Request K T} (h : Move s r s') (hr : Registered s) :
    (s'.heldSenders ≤ s.heldSenders ∨
      r.clonesSender = true ∧ s'.heldSenders = s.heldSenders + 1) ∧
    (s'.heldReceivers ≤ s.heldReceivers ∨
      r.clonesReceiver = true ∧ s'.heldReceivers = s.heldReceivers + 1) := by
  cases h with
  | quiet _ _ hholds hrxs =>
      exact ⟨.inl (Nat.le_of_eq (heldSenders_same hholds)),
        .inl (Nat.le_of_eq (heldReceivers_same hrxs))⟩
  | leakSender htx _ _ hholds hrxs =>
      have hcount : s'.heldSenders + 1 = s.heldSenders + 1 := heldSenders_set htx hholds
      exact ⟨.inl (by omega), .inl (Nat.le_of_eq (heldReceivers_same hrxs))⟩
  | leakReceiver hrx _ _ hholds hrxs =>
      have hcount : s'.heldReceivers + 1 = s.heldReceivers + 1 := heldReceivers_set hrx hrxs
      exact ⟨.inl (Nat.le_of_eq (heldSenders_same hholds)), .inl (by omega)⟩
  | cloneSender _ _ _ hholds hrxs =>
      exact ⟨.inr ⟨rfl, heldSenders_concat hholds⟩,
        .inl (Nat.le_of_eq (heldReceivers_same hrxs))⟩
  | cloneReceiver _ hadd _ _ hholds hrxs =>
      obtain rfl := hadd.fresh_before
      exact ⟨.inl (Nat.le_of_eq (heldSenders_same hholds)),
        .inr ⟨rfl, heldReceivers_insertAt hr.get_fresh hrxs⟩⟩
  | dropSender htx _ _ _ hholds hrxs | dropLastSender htx _ _ _ _ hholds hrxs =>
      have hcount : s'.heldSenders + 1 = s.heldSenders + 0 := heldSenders_set htx hholds
      exact ⟨.inl (by omega), .inl (Nat.le_of_eq (heldReceivers_same hrxs))⟩
  | dropReceiver hrx _ _ _ _ _ hholds hrxs | dropLastReceiver hrx _ _ _ _ _ hholds hrxs =>
      have hcount : s'.heldReceivers + 1 = s.heldReceivers + 0 := heldReceivers_set hrx hrxs
      exact ⟨.inl (Nat.le_of_eq (heldSenders_same hholds)), .inl (by omega)⟩

section Runs

variable [OfNat N 0] [LT N] [DecidableLT N] [DecidableEq N]
variable {ok : Trace (Session N T) (Reply K T) → Session N T → Reply K T → Prop}
variable {lay : Layout} {n : Nat} {h : 0 < n} {fits : Nat → Prop}

theorem wf_of_run (hf : Counts f) {tr : Trace (Session N T) (Reply K T)} {s : Session N T}
    (hrun : Runs ok lay n h tr s) : Wf f s := by
  refine Run.invariant (I := fun _ s => Wf f s)
    ⟨registered_start lay n h, counted_start hf lay n h⟩ ?_ hrun
  rintro tr s e s' - hi ⟨r, hstep⟩ -
  have hmove := move_of_step hstep
  exact ⟨registered_step hmove hi.registered, counted_step hf hmove hi.registered hi.counted⟩

theorem capacity_of_run {tr : Trace (Session N T) (Reply K T)} {s : Session N T}
    (hrun : Runs ok lay n h tr s) : s.cb.buffer.capacity = n := by
  refine Run.invariant (I := fun _ s => s.cb.buffer.capacity = n)
    (RingBuffer.capacity_new _ n h) ?_ hrun
  rintro tr s e s' - hi ⟨r, hstep⟩ -
  rw [capacity_of_move (move_of_step hstep), hi]

theorem kept_step (hf : Counts f) (hfit : Fitting f fits) {s s' : Session N T}
    {r : Request K T} {e : Reply K T} {tr : Trace (Session N T) (Reply K T)}
    (hstep : s.step r = some (e, s')) (hok : Fits fits tr s e) (hw : Wf f s)
    (hi : Kept fits s) : Kept fits s' := by
  obtain ⟨hopen, -, ws, a, -, rfl⟩ := usable_of_step hstep
  have hmove := move_of_step hstep
  obtain ⟨hs, hr⟩ := held_step hmove hw.registered
  refine ⟨phased_step hopen ?_ ?_ hmove hw.registered hi.phased, ?_, ?_⟩
  · rw [hw.counted.senders]
    exact eq_one_iff hf hfit hi.senders
  · rw [hw.counted.receivers]
    exact eq_one_iff hf hfit hi.receivers
  · rcases hs with hle | ⟨hclone, heq⟩
    · exact hfit.down _ _ hle hi.senders
    · rw [heq]
      exact hok.1 hclone
  · rcases hr with hle | ⟨hclone, heq⟩
    · exact hfit.down _ _ hle hi.receivers
    · rw [heq]
      exact hok.2 hclone

theorem kept_of_run (hf : Counts f) (hfit : Fitting f fits)
    {tr : Trace (Session N T) (Reply K T)} {s : Session N T}
    (hrun : Runs (Fits fits) lay n h tr s) : Kept fits s := by
  refine Run.invariant (I := fun _ s => Kept fits s)
    ⟨phased_start lay n h, hfit.one, hfit.one⟩ ?_ hrun
  rintro tr s e s' hrun hi ⟨r, hstep⟩ hok
  exact kept_step hf hfit hstep hok (wf_of_run hf hrun) hi

end Runs

end Session

end RingChannel
