/-
# `RingChannel.Endpoints` — the counters, the tables of endpoints, and who may touch what

Three facts about every reachable state, none of which speaks about messages
or wakers.

* `Counted`: each counter is the number of usable endpoints of its kind plus
  the clones and drops that are between their bookkeeping steps.
* `Borrowed`: a call that is not a drop runs on an endpoint that is still
  usable, because a drop waits for the borrows to end.
* `Registered`: a slot is in the waitlist exactly as long as its receiver is
  usable or is about to deregister it; and no key at or past the next fresh one
  names a receiver.

Each comes with a frame lemma for `State.move` whose side conditions speak only
of the program point left and the one reached, so that most steps are settled
by computation.
-/
import RingChannel.Transitions
import RingChannel.Lib.Ledger

namespace RingChannel

variable {T : Type}

/-! ## Counting calls -/

/-- The total of `f` over all calls. -/
def State.count (s : State T) (f : Call T → Nat) : Nat := Ledger.total (fun _ => f) s.calls

theorem count_set {s s' : State T} {c : Nat} {a d : Call T} (f : Call T → Nat)
    (h : s.calls[c]? = some a) (hcalls : s'.calls = s.calls.set c d) :
    s'.count f + f a = s.count f + f d := by
  rw [State.count, hcalls]
  exact Ledger.total_set d h fun _ _ _ _ => rfl

theorem count_append {s s' : State T} {a : Call T} (f : Call T → Nat)
    (hcalls : s'.calls = s.calls ++ [a]) : s'.count f = s.count f + f a := by
  rw [State.count, hcalls]
  exact Ledger.total_concat a fun _ _ _ => rfl

theorem count_move {s : State T} {c : Nat} {a : Call T} (f : Call T → Nat) (d : Call T)
    (cb : ControlBlock Nat T) (h : s.calls[c]? = some a) :
    (s.move c d cb).count f + f a = s.count f + f d :=
  count_set f h rfl

theorem count_concat (s : State T) (f : Call T → Nat) (txs : List Bool) (rxs : SlotMap Bool)
    (a : Call T) :
    State.count { s with txs := txs, rxs := rxs, calls := s.calls ++ [a] } f = s.count f + f a :=
  count_append f rfl

theorem le_count {s : State T} {c : Nat} {a : Call T} (f : Call T → Nat)
    (h : s.calls[c]? = some a) : f a ≤ s.count f :=
  Ledger.le_total (f := fun _ => f) h

theorem count_pos {s : State T} {f : Call T → Nat} (h : 0 < s.count f) :
    ∃ (c : Nat) (a : Call T), s.calls[c]? = some a ∧ 0 < f a :=
  Ledger.exists_of_total_pos h

theorem count_eq_zero {s : State T} {f : Call T → Nat}
    (h : ∀ (c : Nat) (a : Call T), s.calls[c]? = some a → f a = 0) : s.count f = 0 :=
  Ledger.total_eq_zero h

/-! ## The counters -/

namespace Call

/-- A drop that has not yet subtracted its sender. -/
def ownsSender : Call T → Nat
  | .dropSender _ => 1
  | _ => 0

/-- A drop that has not yet subtracted its receiver, or a clone that has added
a receiver and not yet made it. -/
def ownsReceiver : Call T → Nat
  | .cloneRegister .. | .dropReceiver _ | .popLock (.dropReceiver _)
  | .popScan (.dropReceiver _) _ | .wake (.dropReceiver _) _ | .dropReceiverSub _ => 1
  | _ => 0

end Call

namespace State

def liveSenders (s : State T) : Nat := Ledger.total (fun _ b => b.toNat) s.txs

def liveReceivers (s : State T) : Nat := s.rxs.weight fun _ b => b.toNat

end State

structure Counted (s : State T) : Prop where
  senders : s.cb.senders = s.liveSenders + s.count Call.ownsSender
  receivers : s.cb.receivers = s.liveReceivers + s.count Call.ownsReceiver

theorem entry_owns {op : Op T} (h : op.consumes = false) :
    op.entry.ownsSender = 0 ∧ op.entry.ownsReceiver = 0 := by
  cases op with
  | dropSender | dropReceiver => cases h
  | _ => exact ⟨rfl, rfl⟩

theorem answered_owns (rx : Nat) (l : Look) (r : Except TryRecvError T) :
    (l.answered rx r).ownsSender = 0 ∧ (l.answered rx r).ownsReceiver = 0 := by
  rcases l with _ | p | ⟨_ | _⟩ <;> rcases r with (_ | _) | m <;> exact ⟨rfl, rfl⟩

/-- A call moves, and the counters follow it. -/
theorem counted_move {s : State T} {c : Nat} {a d : Call T} {cb : ControlBlock Nat T}
    (hc : s.calls[c]? = some a)
    (hs : cb.senders + a.ownsSender = s.cb.senders + d.ownsSender)
    (hr : cb.receivers + a.ownsReceiver = s.cb.receivers + d.ownsReceiver)
    (hi : Counted s) : Counted (s.move c d cb) := by
  have h₁ := count_move Call.ownsSender d cb hc
  have h₂ := count_move Call.ownsReceiver d cb hc
  have hsenders := hi.senders
  have hreceivers := hi.receivers
  constructor
  · show cb.senders = s.liveSenders + _
    omega
  · show cb.receivers = s.liveReceivers + _
    omega

/-- The key of a new slot is known to no receiver. -/
theorem get_of_adds {s : State T} {k : Nat} {wl : Waitlist Waker}
    (hknown : ∀ k b, s.rxs.get k = some b → k < s.cb.waitlist.fresh)
    (hadd : s.cb.waitlist.Adds k wl) : s.rxs.get k = none := by
  cases hg : s.rxs.get k with
  | none => rfl
  | some b => exact absurd (hknown k b hg) (by rw [hadd.fresh_before]; exact Nat.lt_irrefl k)

theorem counted_step {s s' : State T} {e : Event T}
    (hknown : ∀ k b, s.rxs.get k = some b → k < s.cb.waitlist.fresh)
    (h : Trans s e s') (hi : Counted s) : Counted s' := by
  have hsenders := hi.senders
  have hreceivers := hi.receivers
  cases h with
  | @start op _ hop =>
      obtain ⟨h₁, h₂⟩ := entry_owns hop
      constructor
      · rw [count_concat s Call.ownsSender s.txs s.rxs op.entry, h₁]
        exact hsenders
      · rw [count_concat s Call.ownsReceiver s.txs s.rxs op.entry, h₂]
        exact hreceivers
  | @startDropSender tx htx _ =>
      have hlive : Ledger.total (fun _ b => b.toNat) (s.txs.set tx false) + 1
          = s.liveSenders + 0 :=
        Ledger.total_set false htx fun _ _ _ _ => rfl
      constructor
      · rw [count_concat s Call.ownsSender _ s.rxs (.dropSender tx)]
        show s.cb.senders = Ledger.total (fun _ b => b.toNat) (s.txs.set tx false) + (_ + 1)
        omega
      · rw [count_concat s Call.ownsReceiver _ s.rxs (.dropSender tx)]
        exact hreceivers
  | @startDropReceiver rx hrx _ =>
      have hlive : (s.rxs.set rx false).weight (fun _ b => b.toNat) + 1 = s.liveReceivers + 0 :=
        SlotMap.weight_set false hrx fun _ _ _ => rfl
      constructor
      · rw [count_concat s Call.ownsSender s.txs _ (.dropReceiver rx)]
        exact hsenders
      · rw [count_concat s Call.ownsReceiver s.txs _ (.dropReceiver rx)]
        show s.cb.receivers = (s.rxs.set rx false).weight (fun _ b => b.toNat) + (_ + 1)
        omega
  | @cloneSender c tx hc =>
      have h₁ := count_move Call.ownsSender (.clonedSender tx) s.cb hc
      have h₂ := count_move Call.ownsReceiver (.clonedSender tx) s.cb hc
      have hlive : Ledger.total (fun _ b => b.toNat) (s.txs ++ [true]) = s.liveSenders + 1 :=
        Ledger.total_concat true fun _ _ _ => rfl
      simp only [Call.ownsSender, Call.ownsReceiver] at h₁ h₂
      constructor
      · show s.cb.senders + 1 = Ledger.total (fun _ b => b.toNat) (s.txs ++ [true])
          + (s.move c (.clonedSender tx) s.cb).count _
        omega
      · show s.cb.receivers = s.liveReceivers + (s.move c (.clonedSender tx) s.cb).count _
        omega
  | @cloneRegister c rx pos k wl hc _ hadd =>
      have h₁ := count_move Call.ownsSender (.clonedReceiver rx) s.cb hc
      have h₂ := count_move Call.ownsReceiver (.clonedReceiver rx) s.cb hc
      have hnew := get_of_adds hknown hadd
      have hlive : (s.rxs.insertAt 0 k true).weight (fun _ b => b.toNat) = s.liveReceivers + 1 :=
        SlotMap.weight_insertAt 0 true _ hnew
      simp only [Call.ownsSender, Call.ownsReceiver] at h₁ h₂
      constructor
      · show s.cb.senders = s.liveSenders + (s.move c (.clonedReceiver rx) s.cb).count _
        omega
      · show s.cb.receivers = (s.rxs.insertAt 0 k true).weight (fun _ b => b.toNat)
          + (s.move c (.clonedReceiver rx) s.cb).count _
        omega
  | dropSenderLast hc _ | dropSenderMore hc _ =>
      -- a drop that is about to subtract is still counted, so the counter is positive
      have hpos := le_count Call.ownsSender hc
      simp only [Call.ownsSender] at hpos
      refine counted_move hc ?_ rfl hi
      simp only [Call.ownsSender]
      omega
  | dropReceiverLast hc _ | dropReceiverMore hc _ =>
      have hpos := le_count Call.ownsReceiver hc
      simp only [Call.ownsReceiver] at hpos
      refine counted_move hc rfl ?_ hi
      simp only [Call.ownsReceiver]
      omega
  | @free c e hc =>
      have hmove : Counted (s.move c (.dropped e true) s.cb) := counted_move hc rfl rfl hi
      exact ⟨hmove.senders, hmove.receivers⟩
  | @popLock c p hc | @scanEnd c p hc | @scanMiss c k p ks hc _ | @scanHit c k p ks w wl hc _
  | @wake c p w hc =>
      cases p <;> exact counted_move hc rfl rfl hi
  | @popSome c rx l _ m hc _ =>
      obtain ⟨h₁, h₂⟩ := answered_owns rx l (Except.ok m)
      exact counted_move hc (by rw [h₁]; rfl) (by rw [h₂]; rfl) hi
  | @popEmpty c rx l hc _ | @popDisconnected c rx l hc _ =>
      exact counted_move hc (by rw [(answered_owns rx l _).1]; rfl)
        (by rw [(answered_owns rx l _).2]; rfl) hi
  | _ => refine counted_move ‹_› ?_ ?_ hi <;> rfl

/-! ## Borrows -/

/-- A drop is waking. -/
def Waking.consumes : Waking T → Bool
  | .send .. => false
  | .dropSender _ | .dropReceiver _ => true

/-- The call is in progress and borrows its endpoint: it is not a drop. -/
def Call.borrows : Call T → Bool
  | .sent .. | .clonedSender .. | .clonedReceiver .. | .dropped .. | .tried .. | .pending ..
  | .ready .. => false
  | .dropSender _ | .dropSenderSwap _ | .dropReceiver _ | .dropReceiverSub _
  | .dropReceiverSwap _ | .free _ => false
  | .popLock p | .popScan p _ | .wake p _ => !p.consumes
  | _ => true

/-- The endpoint exists and its drop has not begun. -/
def State.usable (s : State T) : Endpoint → Prop
  | .sender tx => s.txs[tx]? = some true
  | .receiver rx => s.rxs.get rx = some true

instance (s : State T) : ∀ e, Decidable (s.usable e)
  | .sender tx => inferInstanceAs (Decidable (s.txs[tx]? = some true))
  | .receiver rx => inferInstanceAs (Decidable (s.rxs.get rx = some true))

def Borrowed (s : State T) : Prop :=
  ∀ (c : Nat) (a : Call T), s.calls[c]? = some a → a.borrows = true → s.usable a.endpoint

theorem not_busy {s : State T} {e : Endpoint} (h : s.busy e = false) {c : Nat} {a : Call T}
    (hc : s.calls[c]? = some a) (ha : a.returned = false) : a.endpoint ≠ e := by
  intro he
  have := List.any_eq_false.mp h a (List.mem_of_getElem? hc)
  simp [ha, he] at this

theorem returned_of_borrows {a : Call T} (h : a.borrows = true) : a.returned = false := by
  cases a <;> first | rfl | cases h

/-- A call moves on within its borrow, or ends it. -/
theorem borrowed_move {s s' : State T} {c : Nat} {a d : Call T} (hc : s.calls[c]? = some a)
    (hcalls : s'.calls = s.calls.set c d) (husable : ∀ e, s.usable e → s'.usable e)
    (hd : d.borrows = true → a.borrows = true ∧ a.endpoint = d.endpoint)
    (hi : Borrowed s) : Borrowed s' := by
  intro j b hj hb
  rw [hcalls] at hj
  rcases Ledger.getElem?_set_cases hj with ⟨-, rfl⟩ | ⟨-, hold⟩
  · obtain ⟨ha, he⟩ := hd hb
    exact husable _ (he ▸ hi c a hc ha)
  · exact husable _ (hi j b hold hb)

/-- A call starts on a usable endpoint, and no borrowed endpoint is consumed. -/
theorem borrowed_concat {s s' : State T} {a : Call T} (hcalls : s'.calls = s.calls ++ [a])
    (hnew : a.borrows = true → s'.usable a.endpoint)
    (hold : ∀ (c : Nat) (b : Call T), s.calls[c]? = some b → b.borrows = true →
      s.usable b.endpoint → s'.usable b.endpoint)
    (hi : Borrowed s) : Borrowed s' := by
  intro j b hj hb
  rw [hcalls] at hj
  rcases Ledger.getElem?_concat_cases hj with ⟨-, rfl⟩ | hj
  · exact hnew hb
  · exact hold j b hj hb (hi j b hj hb)

theorem usable_of_mayStart {s : State T} {op : Op T} (h : s.mayStart op = true) :
    s.usable op.entry.endpoint := by
  cases op <;> simp_all [State.mayStart, State.usable, Op.entry, Call.endpoint]

theorem answered_endpoint (rx : Nat) (l : Look) (r : Except TryRecvError T) :
    (l.answered rx r).endpoint = .receiver rx := by
  rcases l with _ | p | ⟨_ | _⟩ <;> rcases r with (_ | _) | m <;> rfl

theorem borrowed_step {s s' : State T} {e : Event T}
    (hknown : ∀ k b, s.rxs.get k = some b → k < s.cb.waitlist.fresh)
    (h : Trans s e s') (hi : Borrowed s) : Borrowed s' := by
  cases h with
  | start hop _ =>
      exact borrowed_concat rfl (fun _ => (usable_of_mayStart hop : s.usable _))
        (fun _ _ _ _ hu => hu) hi
  | @startDropSender tx htx hbusy =>
      refine borrowed_concat rfl (fun h => by cases h) (fun c b hc hb hu => ?_) hi
      have hne := not_busy hbusy hc (returned_of_borrows hb)
      cases he : b.endpoint with
      | sender j =>
          have hj : j ≠ tx := fun hj => hne (by rw [he, hj])
          rw [he] at hu
          show (s.txs.set tx false)[j]? = some true
          rw [Ledger.getElem?_set_off false hj]
          exact hu
      | receiver j =>
          rw [he] at hu
          exact hu
  | @startDropReceiver rx hrx hbusy =>
      refine borrowed_concat rfl (fun h => by cases h) (fun c b hc hb hu => ?_) hi
      have hne := not_busy hbusy hc (returned_of_borrows hb)
      cases he : b.endpoint with
      | sender j =>
          rw [he] at hu
          exact hu
      | receiver j =>
          have hj : j ≠ rx := fun hj => hne (by rw [he, hj])
          rw [he] at hu
          show (s.rxs.set rx false).get j = some true
          rw [SlotMap.get_set_ne false hj]
          exact hu
  | @cloneSender c tx hc =>
      refine borrowed_move hc rfl (fun e hu => ?_) (fun h => by cases h) hi
      cases e with
      | sender j => exact Ledger.getElem?_concat_old hu
      | receiver j => exact hu
  | @cloneRegister c rx pos k wl hc _ hadd =>
      have hnew := get_of_adds hknown hadd
      refine borrowed_move hc rfl (fun e hu => ?_) (fun h => by cases h) hi
      cases e with
      | sender j => exact hu
      | receiver j =>
          have hj : j ≠ k := by
            rintro rfl
            rw [show s.rxs.get j = some true from hu] at hnew
            cases hnew
          show (s.rxs.insertAt 0 k true).get j = some true
          rw [SlotMap.get_insertAt_ne 0 true hj]
          exact hu
  | @popLock c p hc | @scanEnd c p hc | @scanMiss c k p ks hc _ | @scanHit c k p ks w wl hc _
  | @wake c p w hc =>
      refine borrowed_move hc rfl (fun _ hu => hu) ?_ hi
      cases p <;> first | exact fun h => ⟨rfl, rfl⟩ | (intro h; cases h)
  | @dropSenderLast c tx hc _ | @dropSenderMore c tx hc _ =>
      exact borrowed_move hc rfl (fun _ hu => hu) (fun h => by cases h) hi
  | @popSome c rx l _ m hc _ | @popEmpty c rx l hc _ | @popDisconnected c rx l hc _ =>
      refine borrowed_move hc rfl (fun _ hu => hu) (fun _ => ⟨rfl, ?_⟩) hi
      rw [answered_endpoint]
      rfl
  | _ =>
      refine borrowed_move ‹_› rfl (fun _ hu => hu) ?_ hi
      first | exact fun h => ⟨rfl, rfl⟩ | (intro h; cases h)

/-! ## Slots -/

/-- A drop that is about to deregister `k`. -/
def Call.deregisters (k : Nat) : Call T → Nat
  | .dropReceiver rx => if rx = k then 1 else 0
  | _ => 0

structure Registered (s : State T) : Prop where
  known : ∀ k b, s.rxs.get k = some b → k < s.cb.waitlist.fresh
  slots : ∀ k, (s.cb.waitlist.slot k).isSome.toNat
    = (s.rxs.get k == some true).toNat + s.count (Call.deregisters k)

theorem answered_deregisters (k rx : Nat) (l : Look) (r : Except TryRecvError T) :
    (l.answered rx r).deregisters k = 0 := by
  rcases l with _ | p | ⟨_ | _⟩ <;> rcases r with (_ | _) | m <;> rfl

/-- A call moves, and neither registers nor deregisters anything. -/
theorem registered_move {s : State T} {c : Nat} {a d : Call T} {b : ControlBlock Nat T}
    (hc : s.calls[c]? = some a)
    (hfresh : b.waitlist.fresh = s.cb.waitlist.fresh)
    (hslot : ∀ k, (b.waitlist.slot k).isSome = (s.cb.waitlist.slot k).isSome)
    (hd : ∀ k, d.deregisters k = a.deregisters k)
    (hi : Registered s) : Registered (s.move c d b) where
  known k b hk := by
    have := hi.known k b hk
    simp only [State.move_cb]
    omega
  slots k := by
    have h₁ := count_move (Call.deregisters k) d b hc
    have h₂ := hi.slots k
    rw [hd k] at h₁
    simp only [State.move_cb, State.move_rxs, hslot k]
    omega

theorem entry_deregisters {op : Op T} (h : op.consumes = false) (k : Nat) :
    op.entry.deregisters k = 0 := by
  cases op with
  | dropSender | dropReceiver => cases h
  | _ => rfl

/-- The drop of a receiver begins: its slot is now the drop's. -/
theorem Registered.of_consumed {s : State T} (hi : Registered s) {rx : Nat}
    (hrx : s.rxs.get rx = some true) : Registered (s.begin (.dropReceiver rx)) where
  known k b hk := by
    by_cases hkr : k = rx
    · exact hi.known k true (hkr ▸ hrx)
    · exact hi.known k b (by rwa [State.begin, SlotMap.get_set_ne false hkr] at hk)
  slots k := by
    have hold := hi.slots k
    show (s.cb.waitlist.slot k).isSome.toNat = ((s.rxs.set rx false).get k == some true).toNat + _
    rw [State.begin, count_concat s _ s.txs _ (Op.dropReceiver rx).entry]
    rcases eq_or_ne k rx with rfl | hkr
    · rw [hrx] at hold
      rw [SlotMap.get_set_self false hrx]
      simp only [Op.entry, Call.deregisters, if_true]
      simpa [Nat.add_comm] using hold
    · simp only [SlotMap.get_set_ne false hkr, Op.entry, Call.deregisters, if_neg (Ne.symm hkr)]
      exact hold

/-- A clone registers: the new receiver is usable, and the new slot is its. -/
theorem Registered.of_adds {s : State T} (hi : Registered s) {c rx pos k : Nat}
    {wl : Waitlist Waker} (hc : s.calls[c]? = some (.cloneRegister rx pos))
    (hadd : s.cb.waitlist.Adds k wl) :
    Registered { s.move c (.clonedReceiver rx) { s.cb with waitlist := wl } with
      rxs := s.rxs.insertAt 0 k true } where
  known j b hj := by
    show j < wl.fresh
    rw [hadd.fresh_eq]
    by_cases hjk : j = k
    · omega
    · have hlt := hi.known j b (by rwa [SlotMap.get_insertAt_ne 0 true hjk] at hj)
      rw [hadd.fresh_before] at hlt
      omega
  slots j := by
    have hnew := get_of_adds hi.known hadd
    have h₁ := count_move (Call.deregisters j) (.clonedReceiver rx) s.cb hc
    have h₂ := hi.slots j
    show (wl.slot j).isSome.toNat = ((s.rxs.insertAt 0 k true).get j == some true).toNat
      + (s.move c (.clonedReceiver rx) s.cb).count _
    simp only [Call.deregisters] at h₁
    rcases eq_or_ne j k with rfl | hjk
    · rw [hadd.slot_before, hnew] at h₂
      rw [hadd.slot_self, SlotMap.get_insertAt_self 0 true hnew]
      simp at h₂ ⊢
      omega
    · rw [hadd.slot_ne j hjk, SlotMap.get_insertAt_ne 0 true hjk]
      omega

/-- A receiver whose drop deregisters is no longer usable, and no second drop
of it exists. -/
theorem Registered.of_drops {s : State T} (hi : Registered s) {c rx : Nat} {d : Call T}
    {old : Option Waker} {wl : Waitlist Waker} (hc : s.calls[c]? = some (.dropReceiver rx))
    (hdrop : s.cb.waitlist.Drops rx old wl) (hd : ∀ k, d.deregisters k = 0) :
    Registered (s.move c d { s.cb with waitlist := wl }) where
  known k b hk := by
    have := hi.known k b hk
    rw [State.move_cb, hdrop.fresh_eq]
    exact this
  slots k := by
    have h₁ := count_move (Call.deregisters k) d { s.cb with waitlist := wl } hc
    have h₂ := hi.slots k
    rw [hd k] at h₁
    simp only [State.move_cb, State.move_rxs]
    rcases eq_or_ne k rx with rfl | hk
    · rw [hdrop.slot_before] at h₂
      rw [hdrop.slot_self]
      simp only [Call.deregisters, if_true] at h₁
      simp only [Option.isSome_some, Bool.toNat_true, Option.isSome_none, Bool.toNat_false]
        at h₂ ⊢
      omega
    · rw [hdrop.slot_ne k hk]
      simp only [Call.deregisters, if_neg (Ne.symm hk)] at h₁
      omega

theorem registered_step {s s' : State T} {e : Event T} (h : Trans s e s')
    (hi : Registered s) : Registered s' := by
  cases h with
  | @start op _ hop =>
      refine ⟨hi.known, fun k => ?_⟩
      rw [count_concat s _ s.txs s.rxs op.entry, entry_deregisters hop k]
      exact hi.slots k
  | @startDropSender tx _ _ =>
      refine ⟨hi.known, fun k => ?_⟩
      rw [count_concat s _ _ s.rxs (.dropSender tx)]
      exact hi.slots k
  | startDropReceiver hrx _ => exact hi.of_consumed hrx
  | @cloneSender c tx hc =>
      have := registered_move (d := .clonedSender tx) (b := s.cb) hc rfl (fun _ => rfl)
        (fun _ => rfl) hi
      exact ⟨this.known, this.slots⟩
  | cloneRegister hc _ hadd => exact hi.of_adds hc hadd
  | deregisterEmpty hc _ hdrop | deregisterFull hc _ hdrop =>
      exact hi.of_drops hc hdrop fun _ => rfl
  | @free c e hc =>
      have := registered_move (d := .dropped e true) (b := s.cb) hc rfl (fun _ => rfl)
        (fun _ => rfl) hi
      exact ⟨this.known, this.slots⟩
  | @dropSenderLast c tx hc _ | @dropSenderMore c tx hc _ =>
      exact registered_move hc rfl (fun _ => rfl) (fun _ => rfl) hi
  | @popLock c p hc | @scanEnd c p hc | @scanMiss c k p ks hc _ | @wake c p w hc =>
      cases p <;> exact registered_move hc rfl (fun _ => rfl) (fun _ => rfl) hi
  | scanHit hc hw =>
      exact registered_move hc hw.fresh_eq hw.sameKeys.slot_isSome (fun _ => rfl) hi
  | insert hc hw | remove hc hw =>
      exact registered_move hc hw.fresh_eq hw.sameKeys.slot_isSome (fun _ => rfl) hi
  | @popSome c rx l _ m hc _ | @popEmpty c rx l hc _ | @popDisconnected c rx l hc _ =>
      refine registered_move hc rfl (fun _ => rfl) (fun k => ?_) hi
      rw [answered_deregisters]
      rfl
  | _ => refine registered_move ‹_› rfl (fun _ => rfl) (fun _ => ?_) hi; rfl

/-! ## All three, over every run -/

structure Wf (s : State T) : Prop where
  counted : Counted s
  borrowed : Borrowed s
  registered : Registered s

theorem wf_start (lay : Layout) (n : Nat) (h : 0 < n) :
    Wf (State.ringChannel lay n h : State T) where
  counted := ⟨rfl, rfl⟩
  borrowed := fun c a hc => by simp [State.ringChannel] at hc
  registered :=
    { known := fun k b hk => by
        rcases eq_or_ne k 0 with rfl | hk0
        · exact Nat.one_pos
        · have : (SlotMap.empty.insertAt 0 0 true : SlotMap Bool).get k = some b := hk
          rw [SlotMap.get_insertAt_ne 0 true hk0] at this
          cases this
      slots := fun k => by
        have hadd := Waitlist.register_adds (Waitlist.new lay.waker : Waitlist Waker) 0
        have hrx : (SlotMap.empty : SlotMap Bool).get k = none := rfl
        show ((Waitlist.register (Waitlist.new lay.waker : Waitlist Waker) 0).2.slot k).isSome.toNat
          = ((SlotMap.empty.insertAt 0 0 true : SlotMap Bool).get k == some true).toNat + 0
        rcases eq_or_ne k 0 with rfl | hk0
        · rw [SlotMap.get_insertAt_self 0 true hrx]
          exact congrArg (fun o => (Option.isSome o).toNat) hadd.slot_self
        · rw [SlotMap.get_insertAt_ne 0 true hk0, hrx]
          exact congrArg (fun o => (Option.isSome o).toNat) (hadd.slot_ne k hk0) }

theorem wf_step {s s' : State T} {e : Event T} (h : Trans s e s') (hi : Wf s) : Wf s' where
  counted := counted_step hi.registered.known h hi.counted
  borrowed := borrowed_step hi.registered.known h hi.borrowed
  registered := registered_step h hi.registered

theorem wf_of_run {ok : Trace (State T) (Event T) → State T → Event T → Prop} {lay : Layout}
    {n : Nat} {h : 0 < n} {tr : Trace (State T) (Event T)} {s : State T}
    (hrun : Runs ok lay n h tr s) : Wf s :=
  hrun.invariant (I := fun _ s => Wf s) (wf_start lay n h)
    fun _ _ _ _ _ hi hn _ => wf_step (trans_of_next hn) hi

/-! ## Consequences -/

theorem senders_pos_of_usable {s : State T} (hi : Wf s) (tx : Nat)
    (h : s.usable (.sender tx)) : 0 < s.cb.senders := by
  have hle : true.toNat ≤ s.liveSenders := Ledger.le_total (f := fun _ b => Bool.toNat b) h
  have := hi.counted.senders
  simp only [Bool.toNat_true] at hle
  omega

theorem receivers_pos_of_usable {s : State T} (hi : Wf s) (rx : Nat)
    (h : s.usable (.receiver rx)) : 0 < s.cb.receivers := by
  have hle : true.toNat ≤ s.liveReceivers := SlotMap.le_weight (fun _ b => Bool.toNat b) h
  have := hi.counted.receivers
  simp only [Bool.toNat_true] at hle
  omega

/-- A usable receiver has its slot. -/
theorem slot_of_usable {s : State T} (hi : Wf s) (rx : Nat) (h : s.usable (.receiver rx)) :
    s.cb.waitlist.slot rx ≠ none := by
  intro hnone
  have hslots := hi.registered.slots rx
  rw [hnone, show s.rxs.get rx = some true from h] at hslots
  simp only [Option.isSome_none, Bool.toNat_false, BEq.rfl, Bool.toNat_true] at hslots
  omega

/-- No call that borrows a sender is in progress once the sender count is zero. -/
theorem no_sender_call {s : State T} (hi : Wf s) (hz : s.cb.senders = 0) {c tx : Nat}
    {a : Call T} (hc : s.calls[c]? = some a) (he : a.endpoint = .sender tx) :
    a.borrows = false := by
  cases hb : a.borrows with
  | false => rfl
  | true =>
      have := senders_pos_of_usable hi tx (he ▸ hi.borrowed c a hc hb)
      omega

/-! ## After the last sender -/

/-- A sender count of zero stays zero. -/
theorem senders_zero_of_trans {s s' : State T} {e : Event T} (hw : Wf s) (h : Trans s e s')
    (hz : s.cb.senders = 0) : s'.cb.senders = 0 := by
  cases h with
  | @cloneSender c tx hc => cases no_sender_call hw hz hc rfl
  | dropSenderLast hc _ | dropSenderMore hc _ =>
      have : s.cb.senders - 1 = 0 := by omega
      exact this
  | _ => exact hz

/-- With no sender left, an empty buffer stays empty. -/
theorem contents_nil_of_trans {s s' : State T} {e : Event T} (hw : Wf s) (h : Trans s e s')
    (hz : s.cb.senders = 0) (hnil : s.cb.buffer.contents = []) :
    s'.cb.buffer.contents = [] := by
  cases h with
  | pushNew hc _ | pushOver hc _ => cases no_sender_call hw hz hc rfl
  | popSome _ hpop =>
      rw [RingBuffer.contents_of_pop_some hpop] at hnil
      cases hnil
  | popEmpty _ hpop | popDisconnected _ hpop => exact (RingBuffer.contents_of_pop_none hpop).2
  | _ => exact hnil

/-- What a call is at after a step: every other call stays where it is, and the
one that moved keeps `P` if its move does. -/
theorem kept_move {P : Call T → Prop} {calls : List (Call T)} {c j : Nat} {a b d : Call T}
    (hc : calls[c]? = some a) (hd : P a → P d) (hj : calls[j]? = some b) (hb : P b) :
    ∃ b', (calls.set c d)[j]? = some b' ∧ P b' := by
  rcases eq_or_ne j c with rfl | h
  · rw [hc] at hj
    cases hj
    exact ⟨d, Ledger.getElem?_set_self_of d hc, hd hb⟩
  · exact ⟨b, by rw [Ledger.getElem?_set_off d h]; exact hj, hb⟩

/-- A method that has returned stays returned, with its result. -/
theorem returned_of_trans {s s' : State T} {e : Event T} (h : Trans s e s') {j : Nat}
    {b : Call T} (hj : s.calls[j]? = some b) (hb : b.returned = true) :
    s'.calls[j]? = some b := by
  have hset : ∀ {c : Nat} {a : Call T} (d : Call T), s.calls[c]? = some a →
      a.returned = false → (s.calls.set c d)[j]? = some b := by
    intro c a d hc ha
    have hne : j ≠ c := by
      rintro rfl
      rw [hc] at hj
      cases hj
      rw [ha] at hb
      cases hb
    rw [Ledger.getElem?_set_off d hne, hj]
  cases h with
  | start | startDropSender | startDropReceiver => exact Ledger.getElem?_concat_old hj
  | _ => exact hset _ ‹_› rfl

/-- A refused message is the one that was to be sent. -/
theorem refused_of_run {ok : Trace (State T) (Event T) → State T → Event T → Prop} {lay : Layout}
    {n : Nat} {h : 0 < n} {tr : Trace (State T) (Event T)} {s : State T}
    (hrun : Runs ok lay n h tr s) : ∀ {c tx : Nat} {m m' : T},
      s.calls[c]? = some (.sent tx m (.error (.disconnected m'))) → m' = m := by
  induction hrun with
  | start => intro c tx m m' hc; simp [State.ringChannel] at hc
  | @step tr s e s' _ hn _ ih =>
      intro c tx m m' hc
      have hset : ∀ {j : Nat} {d : Call T},
          (d = .sent tx m (.error (.disconnected m')) → m' = m) →
          (s.calls.set j d)[c]? = some (.sent tx m (.error (.disconnected m'))) → m' = m := by
        intro j d hd hj
        rcases Ledger.getElem?_set_cases hj with ⟨-, heq⟩ | ⟨-, hold⟩
        · exact hd heq.symm
        · exact ih hold
      cases trans_of_next hn with
      | @start op _ _ =>
          rcases Ledger.getElem?_concat_cases hc with ⟨-, heq⟩ | hold
          · cases op <;> cases heq
          · exact ih hold
      | startDropSender | startDropReceiver =>
          rcases Ledger.getElem?_concat_cases hc with ⟨-, heq⟩ | hold
          · cases heq
          · exact ih hold
      | refuse => exact hset (fun heq => by cases heq; rfl) hc
      | @scanEnd _ p | @wake _ p => exact hset (fun heq => by cases p <;> cases heq) hc
      | dropSenderLast | dropSenderMore | dropReceiverLast | dropReceiverMore =>
          exact hset (fun heq => by cases heq) hc
      | @popSome _ rx l | @popEmpty _ rx l | @popDisconnected _ rx l =>
          refine hset (fun heq => ?_) hc
          have := congrArg Call.endpoint heq
          rw [answered_endpoint] at this
          cases this
      | _ => exact hset (fun heq => by cases heq) hc

/-- A call stays on its endpoint. -/
theorem endpoint_of_trans {s s' : State T} {e : Event T} (h : Trans s e s') {j : Nat}
    {b : Call T} (hj : s.calls[j]? = some b) :
    ∃ b', s'.calls[j]? = some b' ∧ b'.endpoint = b.endpoint := by
  have hset : ∀ {c : Nat} {a d : Call T}, s.calls[c]? = some a → d.endpoint = a.endpoint →
      ∃ b', (s.calls.set c d)[j]? = some b' ∧ b'.endpoint = b.endpoint := fun hc hd =>
    kept_move (P := fun x => x.endpoint = b.endpoint) hc (fun ha => hd.trans ha) hj rfl
  cases h with
  | start | startDropSender | startDropReceiver =>
      exact ⟨b, Ledger.getElem?_concat_old hj, rfl⟩
  | @scanEnd _ p hc | @wake _ p _ hc => exact hset hc (by cases p <;> rfl)
  | popSome hc _ | popEmpty hc _ | popDisconnected hc _ => exact hset hc (answered_endpoint ..)
  | dropSenderLast hc _ | dropSenderMore hc _ | dropReceiverLast hc _ | dropReceiverMore hc _ =>
      exact hset hc rfl
  | _ => refine hset ‹_› ?_; rfl

end RingChannel
