/-
# `RingChannel.Lifetime` — the control block is freed once, last, and by somebody

The handle is `ManuallyDrop`, so the block is freed by hand, by whichever of
the last sender and the last receiver swaps `connected` second.  `Phased` ties
together the counters, the flag and the drops in progress:

* a sender count of zero means exactly one drop saw it become zero, and that
  drop is either on its way to the swap or past it;
* the flag is still set exactly as long as nobody is past the swap;
* one block is freed, or about to be, for the second drop past the swap.

Being past the swap is visible in the program point, so `Phased` is arithmetic
over counts of calls.
-/
import RingChannel.Endpoints

namespace RingChannel

variable {T : Type}

namespace Call

/-- The drop of the last sender, on its way to the swap. -/
def lastSender : Call T → Nat
  | .popLock (.dropSender _) | .popScan (.dropSender _) _ | .wake (.dropSender _) _
  | .dropSenderSwap _ => 1
  | _ => 0

/-- The drop of the last receiver, on its way to the swap. -/
def lastReceiver : Call T → Nat
  | .dropReceiverSwap _ => 1
  | _ => 0

/-- The drop of the last sender, past the swap. -/
def swappedSender : Call T → Nat
  | .free (.sender _) | .dropped (.sender _) true => 1
  | _ => 0

/-- The drop of the last receiver, past the swap. -/
def swappedReceiver : Call T → Nat
  | .free (.receiver _) | .dropped (.receiver _) true => 1
  | _ => 0

/-- About to free the block. -/
def freeing : Call T → Nat
  | .free _ => 1
  | _ => 0

end Call

structure Phased (s : State T) : Prop where
  senders : s.count Call.lastSender + s.count Call.swappedSender
    + (if s.cb.senders = 0 then 0 else 1) = 1
  receivers : s.count Call.lastReceiver + s.count Call.swappedReceiver
    + (if s.cb.receivers = 0 then 0 else 1) = 1
  connected : (s.cb.connected = true ↔
    s.count Call.swappedSender + s.count Call.swappedReceiver = 0)
  freed : s.count Call.freeing + s.freed.toNat
    = s.count Call.swappedSender + s.count Call.swappedReceiver - 1

/-- What the counts of `Phased` see of a program point. -/
def Call.phase (a : Call T) : Nat × Nat × Nat × Nat × Nat :=
  (a.lastSender, a.swappedSender, a.lastReceiver, a.swappedReceiver, a.freeing)

/-- A call moves: what it was counted for, it no longer is. -/
theorem phases_move {s : State T} {c : Nat} {a : Call T} (d : Call T) (cb : ControlBlock Nat T)
    (hc : s.calls[c]? = some a) :
    (s.move c d cb).count Call.lastSender + a.lastSender
      = s.count Call.lastSender + d.lastSender ∧
    (s.move c d cb).count Call.swappedSender + a.swappedSender
      = s.count Call.swappedSender + d.swappedSender ∧
    (s.move c d cb).count Call.lastReceiver + a.lastReceiver
      = s.count Call.lastReceiver + d.lastReceiver ∧
    (s.move c d cb).count Call.swappedReceiver + a.swappedReceiver
      = s.count Call.swappedReceiver + d.swappedReceiver ∧
    (s.move c d cb).count Call.freeing + a.freeing = s.count Call.freeing + d.freeing :=
  ⟨count_move _ d cb hc, count_move _ d cb hc, count_move _ d cb hc, count_move _ d cb hc,
    count_move _ d cb hc⟩

/-- A call that stays on its side of the swap moves. -/
theorem phased_last {s : State T} {c : Nat} {a d : Call T} {b : ControlBlock Nat T}
    (hc : s.calls[c]? = some a)
    (hs : d.lastSender + (if b.senders = 0 then 0 else 1)
      = a.lastSender + (if s.cb.senders = 0 then 0 else 1))
    (hr : d.lastReceiver + (if b.receivers = 0 then 0 else 1)
      = a.lastReceiver + (if s.cb.receivers = 0 then 0 else 1))
    (hswap : d.swappedSender = a.swappedSender ∧ d.swappedReceiver = a.swappedReceiver ∧
      d.freeing = a.freeing)
    (hconn : b.connected = s.cb.connected) (hi : Phased s) : Phased (s.move c d b) := by
  obtain ⟨h₁, h₂, h₃, h₄, h₅⟩ := phases_move d b hc
  obtain ⟨hss, hsr, hf⟩ := hswap
  have hsenders := hi.senders
  have hreceivers := hi.receivers
  have hfreed := hi.freed
  have hss' : (s.move c d b).count Call.swappedSender = s.count Call.swappedSender := by omega
  have hsr' : (s.move c d b).count Call.swappedReceiver = s.count Call.swappedReceiver := by omega
  constructor
  · rw [State.move_cb, hss']
    omega
  · rw [State.move_cb, hsr']
    omega
  · rw [State.move_cb, hss', hsr', hconn]
    exact hi.connected
  · rw [State.move_freed, hss', hsr']
    omega

/-- A call moves within its phase. -/
theorem phased_move {s : State T} {c : Nat} {a d : Call T} {b : ControlBlock Nat T}
    (hc : s.calls[c]? = some a) (hphase : d.phase = a.phase)
    (hs : (b.senders = 0 ↔ s.cb.senders = 0)) (hr : (b.receivers = 0 ↔ s.cb.receivers = 0))
    (hconn : b.connected = s.cb.connected) (hi : Phased s) : Phased (s.move c d b) := by
  simp only [Call.phase, Prod.mk.injEq] at hphase
  obtain ⟨h₁, h₂, h₃, h₄, h₅⟩ := hphase
  refine phased_last hc ?_ ?_ ⟨h₂, h₄, h₅⟩ hconn hi
  · rw [h₁, if_congr hs rfl rfl]
  · rw [h₃, if_congr hr rfl rfl]

theorem answered_phase (rx : Nat) (l : Look) (r : Except TryRecvError T) :
    (l.answered rx r).phase = (0, 0, 0, 0, 0) := by
  rcases l with _ | p | ⟨_ | _⟩ <;> rcases r with (_ | _) | m <;> rfl

theorem entry_phase (op : Op T) : op.entry.phase = (0, 0, 0, 0, 0) := by
  cases op <;> rfl

/-- A new call is in no phase. -/
theorem phased_concat {s : State T} (op : Op T) (txs : List Bool) (rxs : SlotMap Bool)
    (hi : Phased s) :
    Phased { s with txs := txs, rxs := rxs, calls := s.calls ++ [op.entry] } := by
  have hphase := entry_phase op
  simp only [Call.phase, Prod.mk.injEq] at hphase
  obtain ⟨h₁, h₂, h₃, h₄, h₅⟩ := hphase
  constructor
  · rw [count_concat, count_concat, h₁, h₂]
    exact hi.senders
  · rw [count_concat, count_concat, h₃, h₄]
    exact hi.receivers
  · rw [count_concat, count_concat, h₂, h₄]
    exact hi.connected
  · rw [count_concat, count_concat, count_concat, h₂, h₄, h₅]
    exact hi.freed

/-- The last drop of one side passes the swap: the first one clears the flag,
the second one goes on to free the block. -/
theorem phased_swap {s : State T} {c : Nat} {a d : Call T} {cb : ControlBlock Nat T} (b : Bool)
    (hc : s.calls[c]? = some a) (hb : s.cb.connected = b) (hs : cb.senders = s.cb.senders)
    (hr : cb.receivers = s.cb.receivers) (hcleared : cb.connected = false)
    (hlast : d.lastSender + d.swappedSender = a.lastSender + a.swappedSender ∧
      d.lastReceiver + d.swappedReceiver = a.lastReceiver + a.swappedReceiver)
    (hswap : d.swappedSender + d.swappedReceiver = 1 + a.swappedSender + a.swappedReceiver)
    (hfree : d.freeing = (!b).toNat + a.freeing) (hi : Phased s) :
    Phased (s.move c d cb) := by
  obtain ⟨h₁, h₂, h₃, h₄, h₅⟩ := phases_move d cb hc
  have hsenders := hi.senders
  have hreceivers := hi.receivers
  have hconn := hi.connected
  have hfreed := hi.freed
  obtain ⟨hl₁, hl₂⟩ := hlast
  constructor
  · rw [State.move_cb, hs]
    omega
  · rw [State.move_cb, hr]
    omega
  · rw [State.move_cb, hcleared]
    simp only [Bool.false_eq_true, false_iff]
    omega
  · rw [State.move_freed]
    cases b with
    | true =>
        have hzero := hconn.mp hb
        simp only [Bool.not_true, Bool.toNat_false] at hfree
        omega
    | false =>
        have hpos : s.count Call.swappedSender + s.count Call.swappedReceiver ≠ 0 := by
          intro hzero
          rw [hconn.mpr hzero] at hb
          cases hb
        simp only [Bool.not_false, Bool.toNat_true] at hfree
        omega

/-- The block is freed: only one call was about to. -/
theorem phased_free {s : State T} {c : Nat} {e : Endpoint} (hc : s.calls[c]? = some (.free e))
    (hi : Phased s) : Phased { s.move c (.dropped e true) s.cb with freed := true } := by
  obtain ⟨h₁, h₂, h₃, h₄, h₅⟩ := phases_move (.dropped e true) s.cb hc
  have hpos := le_count Call.freeing hc
  have hsenders := hi.senders
  have hreceivers := hi.receivers
  have hfreed := hi.freed
  have hs : (Call.dropped e true : Call T).swappedSender = (Call.free e : Call T).swappedSender ∧
      (Call.dropped e true : Call T).swappedReceiver
        = (Call.free e : Call T).swappedReceiver := by
    cases e <;> exact ⟨rfl, rfl⟩
  simp only [Call.lastSender, Call.lastReceiver, Call.freeing, hs.1, hs.2] at h₁ h₂ h₃ h₄ h₅ hpos
  constructor
  · show (s.move c (.dropped e true) s.cb).count _ + (s.move c (.dropped e true) s.cb).count _
      + (if s.cb.senders = 0 then 0 else 1) = 1
    omega
  · show (s.move c (.dropped e true) s.cb).count _ + (s.move c (.dropped e true) s.cb).count _
      + (if s.cb.receivers = 0 then 0 else 1) = 1
    omega
  · show s.cb.connected = true ↔ (s.move c (.dropped e true) s.cb).count _
      + (s.move c (.dropped e true) s.cb).count _ = 0
    rw [hi.connected]
    omega
  · have hnot : s.freed = false := by
      cases hf : s.freed with
      | false => rfl
      | true =>
          rw [hf] at hfreed
          simp only [Bool.toNat_true] at hfreed
          omega
    show (s.move c (.dropped e true) s.cb).count _ + true.toNat
      = (s.move c (.dropped e true) s.cb).count _
        + (s.move c (.dropped e true) s.cb).count _ - 1
    rw [hnot] at hfreed
    simp only [Bool.toNat_false, Bool.toNat_true] at hfreed ⊢
    omega

theorem phased_step {s s' : State T} {e : Event T} (hw : Wf s) (h : Trans s e s')
    (hi : Phased s) : Phased s' := by
  cases h with
  | @start op _ _ => exact phased_concat op s.txs s.rxs hi
  | @startDropSender tx _ _ => exact phased_concat (.dropSender tx) _ s.rxs hi
  | @startDropReceiver rx _ _ => exact phased_concat (.dropReceiver rx) s.txs _ hi
  | @cloneSender c tx hc =>
      -- the sender being cloned is counted, so the counter was not zero
      have hpos := senders_pos_of_usable hw tx (hw.borrowed c _ hc rfl)
      have := phased_move (d := .clonedSender tx)
        (b := { s.cb with senders := s.cb.senders + 1 }) hc rfl
        (by simp only; omega) Iff.rfl rfl hi
      exact ⟨this.senders, this.receivers, this.connected, this.freed⟩
  | @cloneReceiver c rx pos hc =>
      have hpos := receivers_pos_of_usable hw rx (hw.borrowed c _ hc rfl)
      exact phased_move hc rfl Iff.rfl (by simp only; omega) rfl hi
  | @cloneRegister c rx pos k wl hc _ _ =>
      have := phased_move (d := .clonedReceiver rx) (b := { s.cb with waitlist := wl }) hc rfl
        Iff.rfl Iff.rfl rfl hi
      exact ⟨this.senders, this.receivers, this.connected, this.freed⟩
  | dropSenderLast hc hone =>
      refine phased_last hc ?_ rfl ⟨rfl, rfl, rfl⟩ rfl hi
      simp only [Call.lastSender, hone, Nat.sub_self, if_true, Nat.one_ne_zero, if_false]
  | @dropSenderMore c tx hc hmore =>
      have hpos := le_count Call.ownsSender hc
      have hcount := hw.counted.senders
      simp only [Call.ownsSender] at hpos
      exact phased_move hc rfl (by simp only; omega) Iff.rfl rfl hi
  | dropReceiverLast hc hone =>
      refine phased_last hc rfl ?_ ⟨rfl, rfl, rfl⟩ rfl hi
      simp only [Call.lastReceiver, hone, Nat.sub_self, if_true, Nat.one_ne_zero, if_false]
  | @dropReceiverMore c rx hc hmore =>
      have hpos := le_count Call.ownsReceiver hc
      have hcount := hw.counted.receivers
      simp only [Call.ownsReceiver] at hpos
      exact phased_move hc rfl Iff.rfl (by simp only; omega) rfl hi
  | senderSwapFirst hc hb => exact phased_swap true hc hb rfl rfl rfl ⟨rfl, rfl⟩ rfl rfl hi
  | receiverSwapFirst hc hb => exact phased_swap true hc hb rfl rfl rfl ⟨rfl, rfl⟩ rfl rfl hi
  | senderSwapSecond hc hb => exact phased_swap false hc hb rfl rfl rfl ⟨rfl, rfl⟩ rfl rfl hi
  | receiverSwapSecond hc hb => exact phased_swap false hc hb rfl rfl rfl ⟨rfl, rfl⟩ rfl rfl hi
  | free hc => exact phased_free hc hi
  | @popLock c p hc | @scanEnd c p hc | @scanMiss c k p ks hc _ | @scanHit c k p ks w wl hc _
  | @wake c p w hc =>
      cases p <;> exact phased_move hc rfl Iff.rfl Iff.rfl rfl hi
  | @popSome c rx l _ m hc _ | @popEmpty c rx l hc _ | @popDisconnected c rx l hc _ =>
      exact phased_move hc (answered_phase rx l _) Iff.rfl Iff.rfl rfl hi
  | _ => refine phased_move ‹_› ?_ Iff.rfl Iff.rfl rfl hi; rfl

theorem phased_of_run {ok : Trace (State T) (Event T) → State T → Event T → Prop} {lay : Layout}
    {n : Nat} {h : 0 < n} {tr : Trace (State T) (Event T)} {s : State T}
    (hrun : Runs ok lay n h tr s) : Phased s :=
  hrun.invariant (I := fun _ s => Phased s)
    ⟨rfl, rfl, ⟨fun _ => rfl, fun _ => rfl⟩, rfl⟩
    fun _ _ _ _ hrun hi hn _ => phased_step (wf_of_run hrun) (trans_of_next hn) hi

/-! ## The free -/

/-- The free of the block is one event of the trace. -/
def Event.frees : Event T → Bool
  | .free _ => true
  | _ => false

/-- Once the block is freed, no endpoint is left and nobody is inside a method. -/
theorem returned_of_freed {s : State T} (hw : Wf s) (hi : Phased s) (hf : s.freed = true)
    {c : Nat} {a : Call T} (hc : s.calls[c]? = some a) : a.returned = true := by
  obtain ⟨hcs, hcr⟩ := hw.counted
  obtain ⟨hs, hr, -, hfreed⟩ := hi
  rw [hf, Bool.toNat_true] at hfreed
  have hboth : s.cb.senders = 0 ∧ s.cb.receivers = 0 := by
    constructor <;> (by_contra hne; simp only [hne, if_false] at hs hr; omega)
  obtain ⟨hsz, hrz⟩ := hboth
  simp only [hsz, hrz, if_true] at hs hr
  have h₁ := le_count Call.lastSender hc
  have h₂ := le_count Call.lastReceiver hc
  have h₃ := le_count Call.freeing hc
  have h₄ := le_count Call.ownsSender hc
  have h₅ := le_count Call.ownsReceiver hc
  cases hb : a.borrows with
  | true =>
      -- a borrow keeps its endpoint usable, and a usable endpoint is counted
      have hu := hw.borrowed c a hc hb
      cases he : a.endpoint with
      | sender tx =>
          have := senders_pos_of_usable hw _ (he ▸ hu)
          omega
      | receiver rx =>
          have := receivers_pos_of_usable hw _ (he ▸ hu)
          omega
  | false =>
      -- a drop that has not returned is counted, on its way to the swap, or freeing
      cases a with
      | sent | clonedSender | clonedReceiver | dropped | tried | pending | ready => rfl
      | popLock p | popScan p _ | wake p _ =>
          cases p with
          | send => cases hb
          | dropSender | dropReceiver =>
              simp only [Call.lastSender, Call.ownsReceiver] at h₁ h₅
              omega
      | dropSender | dropSenderSwap | dropReceiver | dropReceiverSub | dropReceiverSwap | free =>
          simp only [Call.lastSender, Call.lastReceiver, Call.freeing, Call.ownsSender,
            Call.ownsReceiver] at h₁ h₂ h₃ h₄ h₅
          omega
      | _ => cases hb

theorem not_usable_of_freed {s : State T} (hw : Wf s) (hi : Phased s) (hf : s.freed = true)
    (e : Endpoint) : ¬ s.usable e := by
  obtain ⟨hs, hr, -, hfreed⟩ := hi
  rw [hf, Bool.toNat_true] at hfreed
  intro hu
  cases e with
  | sender tx =>
      have := senders_pos_of_usable hw _ hu
      simp only [Nat.ne_of_gt this, if_false] at hs
      omega
  | receiver rx =>
      have := receivers_pos_of_usable hw _ hu
      simp only [Nat.ne_of_gt this, if_false] at hr
      omega

theorem run_of_returned {a : Call T} (h : a.returned = true) (s : State T) (c : Nat) :
    a.run s c = none := by
  cases a <;> first | rfl | cases h

/-- Once the block is freed, no step is possible at all. -/
theorem stuck_of_freed {s : State T} (hw : Wf s) (hi : Phased s) (hf : s.freed = true)
    (a : Act T) : step s a = none := by
  cases a with
  | start op =>
      have hop : ¬ s.mayStart op = true := fun h =>
        not_usable_of_freed hw hi hf _ (usable_of_mayStart h)
      simp only [step, hop, Bool.false_eq_true, if_false]
  | unpark c =>
      simp only [step]
      split
      · cases returned_of_freed hw hi hf ‹_›
      · rfl
  | run c =>
      simp only [step]
      split
      · exact run_of_returned (returned_of_freed hw hi hf ‹_›) s c
      · rfl

theorem freed_of_trans {s s' : State T} {e : Event T} (h : Trans s e s') :
    s'.freed = (s.freed || e.frees) := by
  cases h <;> simp [Event.frees, State.move]

/-- The number of frees so far is what the state remembers of it. -/
theorem frees_of_run {ok : Trace (State T) (Event T) → State T → Event T → Prop} {lay : Layout}
    {n : Nat} {h : 0 < n} {tr : Trace (State T) (Event T)} {s : State T}
    (hrun : Runs ok lay n h tr s) : tr.countP (fun p => p.2.frees) = s.freed.toNat := by
  induction hrun with
  | start => rfl
  | @step tr s e s' hrun hn _ ih =>
      obtain ⟨a, ha⟩ := hn
      have hnot : s.freed = false := by
        cases hf : s.freed with
        | false => rfl
        | true => rw [stuck_of_freed (wf_of_run hrun) (phased_of_run hrun) hf a] at ha; cases ha
      rw [List.countP_cons, ih, freed_of_trans (trans_of_step ha), hnot]
      cases e.frees <;> rfl

/-- What the debug assertions of `ControlBlockRef::drop` say, and that no slot
is left. -/
structure Deserted (s : State T) : Prop where
  disconnected : s.cb.connected = false
  senders : s.cb.senders = 0
  receivers : s.cb.receivers = 0
  slots : ∀ k, s.cb.waitlist.slot k = none

theorem deserted_of_free {s : State T} (hw : Wf s) (hi : Phased s) {c : Nat} {e : Endpoint}
    (hc : s.calls[c]? = some (.free e)) : Deserted s := by
  have hpos := le_count Call.freeing hc
  have hswap := le_count (fun a => a.swappedSender + a.swappedReceiver) hc
  obtain ⟨hs, hr, hconn, hfreed⟩ := hi
  simp only [Call.freeing] at hpos
  have hsz : s.cb.senders = 0 := by
    by_contra hne
    simp only [hne, if_false] at hs
    omega
  have hrz : s.cb.receivers = 0 := by
    by_contra hne
    simp only [hne, if_false] at hr
    omega
  refine ⟨?_, hsz, hrz, fun k => ?_⟩
  · cases hb : s.cb.connected with
    | false => rfl
    | true =>
        have := hconn.mp hb
        omega
  · cases hk : s.cb.waitlist.slot k with
    | none => rfl
    | some o =>
        -- a registered slot has a receiver, usable or about to deregister it
        have hslot := hw.registered.slots k
        rw [hk] at hslot
        simp only [Option.isSome_some, Bool.toNat_true] at hslot
        cases hu : (s.rxs.get k == some true) with
        | true =>
            have := receivers_pos_of_usable hw k (beq_iff_eq.mp hu)
            omega
        | false =>
            rw [hu, Bool.toNat_false] at hslot
            obtain ⟨j, b, hj, hb⟩ := count_pos (s := s) (f := Call.deregisters k) (by omega)
            have hown : 0 < b.ownsReceiver := by
              cases b <;> first | exact Nat.one_pos | exact absurd hb (Nat.lt_irrefl 0)
            have := le_count Call.ownsReceiver hj
            have := hw.counted.receivers
            omega

/-- Every endpoint ever made has been dropped, and the drops are over. -/
def AllDropped (s : State T) : Prop :=
  (∀ b ∈ s.txs, b = false) ∧ (∀ k ∈ s.rxs.keys, s.rxs.get k = some false) ∧
    ∀ a ∈ s.calls, a.returned = true

instance (s : State T) : Decidable (AllDropped s) :=
  inferInstanceAs (Decidable (_ ∧ _ ∧ _))

theorem freed_of_allDropped {s : State T} (hw : Wf s) (hi : Phased s) (hd : AllDropped s) :
    s.freed = true := by
  obtain ⟨htxs, hrxs, hover⟩ := hd
  have hreturned : ∀ (c : Nat) (a : Call T), s.calls[c]? = some a →
      a.ownsSender = 0 ∧ a.ownsReceiver = 0 ∧ a.lastSender = 0 ∧ a.lastReceiver = 0 ∧
        a.freeing = 0 := by
    intro c a hc
    have := hover a (List.mem_of_getElem? hc)
    cases a <;> first | exact ⟨rfl, rfl, rfl, rfl, rfl⟩ | cases this
  have hsz : s.cb.senders = 0 := by
    rw [hw.counted.senders, count_eq_zero fun c a hc => (hreturned c a hc).1]
    exact Ledger.total_eq_zero fun i b hb => by rw [htxs b (List.mem_of_getElem? hb)]; rfl
  have hrz : s.cb.receivers = 0 := by
    rw [hw.counted.receivers, count_eq_zero fun c a hc => (hreturned c a hc).2.1]
    by_contra hne
    obtain ⟨k, b, hk, hb⟩ := SlotMap.exists_of_weight_pos
      (m := s.rxs) (f := fun _ b => b.toNat) (Nat.pos_of_ne_zero hne)
    rw [hrxs k (SlotMap.mem_keys_of_get hk)] at hk
    cases hk
    exact absurd hb (Nat.lt_irrefl 0)
  obtain ⟨hs, hr, -, hfreed⟩ := hi
  rw [count_eq_zero fun c a hc => (hreturned c a hc).2.2.1] at hs
  rw [count_eq_zero fun c a hc => (hreturned c a hc).2.2.2.1] at hr
  rw [count_eq_zero fun c a hc => (hreturned c a hc).2.2.2.2] at hfreed
  simp only [hsz, hrz, if_true] at hs hr
  cases hf : s.freed with
  | true => rfl
  | false =>
      rw [hf, Bool.toNat_false] at hfreed
      omega

/-- The control block is freed at most once, after every method has returned
and every endpoint has gone, and it is freed once they have. -/
theorem freed_once_and_last {lay : Layout} {n : Nat} {h : 0 < n}
    {tr : Trace (State T) (Event T)} {s : State T} (hrun : Runs Free lay n h tr s) :
    tr.countP (fun p => p.2.frees) ≤ 1 ∧
    (s.freed = true → ∀ a, step s a = none) ∧
    (∀ tr₁ tr₂ u c, tr = tr₂ ++ (u, .free c) :: tr₁ → tr₂ = []) ∧
    (∀ u c, (u, .free c) ∈ tr → Deserted u) ∧
    (AllDropped s → tr.countP (fun p => p.2.frees) = 1) := by
  have hw := wf_of_run hrun
  have hi := phased_of_run hrun
  have hfrees := frees_of_run hrun
  refine ⟨?_, stuck_of_freed hw hi, ?_, ?_, ?_⟩
  · rw [hfrees]
    exact Bool.toNat_le _
  · intro tr₁ tr₂ u c htr
    rw [htr] at hrun
    refine hrun.nil_of_dead fun v hrun₁ hn f w hf => ?_
    -- the free sets the flag, and with the flag set no choice is enabled
    have hv := hrun₁.step hn trivial
    have hfreed : v.freed = true := by
      rw [freed_of_trans (trans_of_next hn)]
      exact Bool.or_true _
    obtain ⟨a, ha⟩ := hf
    rw [stuck_of_freed (wf_of_run hv) (phased_of_run hv) hfreed a] at ha
    cases ha
  · intro u c hmem
    obtain ⟨tr₁, v, hrun₁, hn, -⟩ := hrun.of_mem hmem
    cases trans_of_next hn with
    | free hc => exact deserted_of_free (wf_of_run hrun₁) (phased_of_run hrun₁) hc
  · intro hd
    rw [hfrees, freed_of_allDropped hw hi hd]
    rfl

/-- The sender and the receiver are cloned, and the four drops race each other,
one step of each in turn. -/
def dropAll : List (Act Nat) :=
  [.start (.cloneSender 0), .run 0, .start (.cloneReceiver 0 0), .run 1, .run 1,
   .start (.dropSender 0), .start (.dropSender 1), .start (.dropReceiver 0),
   .start (.dropReceiver 1),
   .run 2, .run 3, .run 4, .run 5, .run 2, .run 3, .run 4, .run 5, .run 2, .run 3, .run 4, .run 5,
   .run 2, .run 3, .run 4, .run 5, .run 2, .run 3, .run 4, .run 5, .run 2, .run 3, .run 4, .run 5]

theorem freed_once_by_dropAll :
    AllDropped (schedule Free ⟨true, true⟩ 1 Nat.one_pos dropAll).2 ∧
    (schedule Free ⟨true, true⟩ 1 Nat.one_pos dropAll).1.head?.map (·.2) = some (.free 5) ∧
    (schedule Free ⟨true, true⟩ 1 Nat.one_pos dropAll).1.countP (fun p => p.2.frees) = 1 ∧
    ∀ a, step (schedule Free ⟨true, true⟩ 1 Nat.one_pos dropAll).2 a = none := by
  have hrun := runs_schedule (T := Nat) Free ⟨true, true⟩ 1 Nat.one_pos dropAll
  obtain ⟨-, hstop, -, -, honce⟩ := freed_once_and_last hrun
  exact ⟨by decide, by decide, honce (by decide), hstop (by decide)⟩

end RingChannel
