/-
# `RingChannel.Exchange` — insert, and pop if the slot was empty

Every thread registers one slot, and then goes round and round: it inserts an
item into its slot, and if the insertion found the slot empty, it pops.  So an
insertion adds an item for every pop that is to come; but a pop is a scan, and
the item it is owed may be put into a slot that the scan has passed already.

It finds another one.  `Supplied` is the invariant: the items are as many as the
pops under way and owed (`balanced`), and no scan has left more behind than the
others can do without (`covered`, the Hall condition of `Lib.Scan`).  The two
need each other: a scan may start because the balance says that an item is left
for it, and the balance stays even because no scan ever gives up.
-/
import Mathlib.Algebra.Order.Group.Multiset
import RingChannel.Clients
import RingChannel.Lib.Scan

namespace RingChannel

namespace Clients

variable {W : Type}

/-! ## The rule -/

/-- The thread's insertion found its slot empty, and it has not popped yet. -/
def Point.owes : Point W → Bool
  | .inserted none => true
  | _ => false

def Point.isNew : Point W → Bool
  | .new => true
  | _ => false

/-- Rounds of insert-then-pop in the thread's own slot. -/
def exchanges (s : Pool W) : Deed W → Bool
  | .registered t _ => s.clients[t]?.any fun c => c.point.isNew
  | .inserted t k _ _ => s.clients[t]?.any fun c => c.slot = some k && !c.point.owes
  | .locked t => s.clients[t]?.any fun c => c.point.owes
  | .missed .. | .took .. | .gaveUp .. => true
  | .deregistered .. | .removed .. => false

def Exchange (_ : Trace (Pool W) (Deed W)) (s : Pool W) (e : Deed W) : Prop :=
  exchanges s e = true

instance (tr : Trace (Pool W) (Deed W)) (s : Pool W) (e : Deed W) :
    Decidable (Exchange tr s e) :=
  inferInstanceAs (Decidable (_ = true))

/-! ## Supply and demand -/

/-- The scan that the thread is in. -/
def Client.seeking (c : Client W) : Multiset (List Nat) :=
  match c.point with
  | .scanning ks => {ks}
  | _ => 0

namespace Pool

/-- The scans under way. -/
def seekers (s : Pool W) : Multiset (List Nat) := Ledger.total (fun _ c => c.seeking) s.clients

/-- The number of threads that owe a pop. -/
def owing (s : Pool W) : Nat := Ledger.total (fun _ c => c.point.owes.toNat) s.clients

end Pool

structure Supplied (s : Pool W) : Prop where
  covered : Scan.Covered s.waitlist.keys s.full s.seekers
  balanced : Multiset.card s.seekers + s.owing = s.waitlist.keys.countP s.full

theorem seeking_of_idle {c : Client W} (h : c.point.scans = false) : c.seeking = 0 := by
  rcases c with ⟨slot, _ | _ | _ | _ | _ | _ | _⟩ <;> first | rfl | cases h

theorem seeking_of_scanning {c : Client W} {ks : List Nat} (h : c.point = .scanning ks) :
    c.seeking = {ks} := by
  rw [Client.seeking, h]

/-- With the read lock free, nobody seeks. -/
theorem seekers_of_quiet {s : Pool W} (hg : Guarded s) (hr : s.waitlist.readers = 0) :
    s.seekers = 0 :=
  Ledger.total_eq_zero fun _ _ hc => seeking_of_idle (hg.quiet hr hc)

/-- While one thread moves, the others seek and owe what they did. -/
theorem others {s : Pool W} {t : Nat} {c : Client W} (hc : s.clients[t]? = some c) :
    ∃ (seek : Multiset (List Nat)) (owe : Nat),
      s.seekers = c.seeking + seek ∧ s.owing = c.point.owes.toNat + owe ∧
      ∀ slot p wl, (s.move t slot p wl).seekers = Client.seeking ⟨slot, p⟩ + seek ∧
        (s.move t slot p wl).owing = p.owes.toNat + owe := by
  obtain ⟨seek, hseek, hseek'⟩ := Ledger.total_split (fun _ c => Client.seeking c) hc
  obtain ⟨owe, howe, howe'⟩ := Ledger.total_split (fun _ c => c.point.owes.toNat) hc
  exact ⟨seek, owe, hseek, howe, fun slot p wl => ⟨hseek' _, howe' _⟩⟩

/-! ## One step -/

section Step

variable {s : Pool W} {t k : Nat} {c : Client W} {wl : Waitlist W}
  (hc : s.clients[t]? = some c) (hi : Supplied s)
include hc hi

/-- A slot is registered; nobody seeks meanwhile. -/
theorem supplied_registered (hg : Guarded s) (hr : s.waitlist.readers = 0)
    (hadd : s.waitlist.Adds k wl) (howes : c.point.owes = false) :
    Supplied (s.move t (some k) .registered wl) := by
  obtain ⟨seek, owe, hseek, howe, hmove⟩ := others hc
  obtain ⟨hseek', howe'⟩ := hmove (some k) .registered wl
  have hzero := seekers_of_quiet hg hr
  have hnone : seek = 0 := by
    rw [hzero, seeking_of_idle (hg.quiet hr hc), zero_add] at hseek
    exact hseek.symm
  have hsize : wl.size = s.waitlist.size + 0 := hadd.weight_eq _
  have hbal := hi.balanced
  rw [countP_full, hzero, howe, howes] at hbal
  constructor
  · rw [hseek', hnone]
    exact Scan.covered_zero _ _
  · rw [countP_full, hseek', hnone, howe', Pool.move_waitlist, hsize]
    exact hbal

/-- An item is inserted: if the slot was empty, its thread owes a pop. -/
theorem supplied_inserted {x : W} {old : Option W} (hp : c.point.scans = false)
    (hw : s.waitlist.Writes k old (some x) wl) (howes : c.point.owes = false) :
    Supplied (s.move t c.slot (.inserted old) wl) := by
  obtain ⟨seek, owe, hseek, howe, hmove⟩ := others hc
  obtain ⟨hseek', howe'⟩ := hmove c.slot (.inserted old) wl
  have hsame : (s.move t c.slot (.inserted old) wl).seekers = s.seekers := by
    rw [hseek', hseek, seeking_of_idle hp]
    rfl
  have hsize : wl.size + old.isSome.toNat = s.waitlist.size + 1 :=
    hw.weight_eq _ _ fun _ _ _ => rfl
  have hbal := hi.balanced
  rw [countP_full, howe, howes, Bool.toNat_false, Nat.zero_add] at hbal
  constructor
  · rw [hsame, Pool.move_waitlist, hw.keys_eq]
    refine hi.covered.fill fun j hj => ?_
    rcases eq_or_ne j k with rfl | hjk
    · exact full_of_slot hw.slot_self
    · rwa [full_eq (hw.slot_ne j hjk)]
  · rw [countP_full, hsame, howe', Pool.move_waitlist]
    have hone : (Point.inserted old).owes.toNat + old.isSome.toNat = 1 := by
      cases old <;> rfl
    omega

/-- The pop that is owed starts: the balance says that an item is left for it. -/
theorem supplied_locked (hp : c.point.scans = false) (howes : c.point.owes = true) :
    Supplied (s.move t c.slot (.scanning s.waitlist.keys) s.waitlist.lock) := by
  obtain ⟨seek, owe, hseek, howe, hmove⟩ := others hc
  obtain ⟨hseek', howe'⟩ := hmove c.slot (.scanning s.waitlist.keys) s.waitlist.lock
  have hjoin : (s.move t c.slot (.scanning s.waitlist.keys) s.waitlist.lock).seekers
      = s.waitlist.keys ::ₘ s.seekers := by
    rw [hseek', hseek, seeking_of_idle hp, zero_add]
    rfl
  have hbal := hi.balanced
  rw [howe, howes, Bool.toNat_true] at hbal
  constructor
  · rw [hjoin]
    exact hi.covered.join (by omega)
  · rw [hjoin, howe', Multiset.card_cons]
    show _ + 1 + (0 + owe) = s.waitlist.keys.countP s.full
    omega

/-- A scan passes an empty slot. -/
theorem supplied_missed {ks : List Nat} (hg : Guarded s) (hp : c.point = .scanning (k :: ks))
    (hmiss : ∀ x, s.waitlist.slot k ≠ some (some x)) :
    Supplied (s.move t c.slot (.scanning ks) s.waitlist) := by
  obtain ⟨seek, owe, hseek, howe, hmove⟩ := others hc
  obtain ⟨hseek', howe'⟩ := hmove c.slot (.scanning ks) s.waitlist
  have hcov := hi.covered
  have hbal := hi.balanced
  rw [seeking_of_scanning hp] at hseek
  rw [hp] at howe
  rw [hseek] at hcov hbal
  constructor
  · rw [hseek']
    exact Scan.Covered.miss hcov (hg.tails t c _ hc hp) (not_full_of_slot hmiss)
  · rw [hseek', howe', Multiset.card_add]
    rw [howe, Multiset.card_add] at hbal
    exact hbal

/-- A scan finds an item, and is over. -/
theorem supplied_took {ks : List Nat} {x : W} (hg : Guarded s)
    (hp : c.point = .scanning (k :: ks)) (hw : s.waitlist.Writes k (some x) none wl) :
    Supplied (s.move t c.slot (.popped (some x)) wl.unlock) := by
  obtain ⟨seek, owe, hseek, howe, hmove⟩ := others hc
  obtain ⟨hseek', howe'⟩ := hmove c.slot (.popped (some x)) wl.unlock
  have hleft : (s.move t c.slot (.popped (some x)) wl.unlock).seekers = seek :=
    hseek'.trans (zero_add _)
  have hkeys : wl.unlock.keys = s.waitlist.keys := hw.keys_eq
  have hsize : wl.size + 1 = s.waitlist.size + 0 := hw.weight_eq _ _ fun _ _ _ => rfl
  have hcov := hi.covered
  have hbal := hi.balanced
  rw [seeking_of_scanning hp] at hseek
  rw [hp] at howe
  rw [hseek] at hcov hbal
  constructor
  · rw [hleft, Pool.move_waitlist, hkeys]
    refine Scan.Covered.hit hcov s.waitlist.items.nodup (hg.tails t c _ hc hp)
      (full_of_slot hw.slot_before) (not_full_of_empty hw.slot_self) fun j hj => ?_
    exact full_eq (hw.slot_ne j hj)
  · rw [countP_full, hleft, howe']
    rw [countP_full, howe, Multiset.card_add, Multiset.card_singleton] at hbal
    show Multiset.card seek + (0 + owe) = wl.size
    have howes : (Point.scanning (k :: ks) : Point W).owes.toNat = 0 := rfl
    omega

end Step

/-- A scan at its end would need an item among no slots. -/
theorem not_supplied_of_end {s : Pool W} {t : Nat} {c : Client W} (hc : s.clients[t]? = some c)
    (hp : c.point = .scanning []) : ¬ Supplied s := by
  intro hi
  obtain ⟨seek, owe, hseek, -, -⟩ := others hc
  have hcov := hi.covered
  rw [hseek, seeking_of_scanning hp] at hcov
  exact Scan.not_covered_nil hcov

theorem supplied_step {tr : Trace (Pool W) (Deed W)} {s s' : Pool W} {e : Deed W}
    (hg : Guarded s) (hok : Exchange tr s e) (h : Trans s e s') (hi : Supplied s) :
    Supplied s' := by
  cases h with
  | @registered t k c wl hc hp hr hadd =>
      have hnew : c.point.isNew = true := by simpa [Exchange, exchanges, hc] using hok
      have howes : c.point.owes = false := by
        cases hpt : c.point <;> rw [hpt] at hnew <;> first | rfl | cases hnew
      exact supplied_registered hc hi hg hr hadd howes
  | @inserted t k x c old wl hc hp hw =>
      have hrule : c.slot = some k ∧ c.point.owes = false := by
        simpa [Exchange, exchanges, hc] using hok
      exact supplied_inserted hc hi hp hw hrule.2
  | @locked t c hc hp =>
      exact supplied_locked hc hi hp (by simpa [Exchange, exchanges, hc] using hok)
  | missed hc hp hmiss => exact supplied_missed hc hi hg hp hmiss
  | took hc hp hw => exact supplied_took hc hi hg hp hw
  | gaveUp hc hp => exact absurd hi (not_supplied_of_end hc hp)
  | deregistered | removed => cases hok

theorem supplied_of_run {lockFree : Bool} {n : Nat} {tr : Trace (Pool W) (Deed W)} {s : Pool W}
    (hrun : Runs Exchange lockFree n tr s) : Supplied s :=
  hrun.invariant (I := fun _ s => Supplied s)
    (by
      have hnew : ∀ (t : Nat) (c : Client W),
          (Pool.new lockFree n : Pool W).clients[t]? = some c → c = ⟨none, .new⟩ :=
        fun t c hc => (List.mem_replicate.mp (List.mem_of_getElem? hc)).2
      have hseek : (Pool.new lockFree n : Pool W).seekers = 0 :=
        Ledger.total_eq_zero fun t c hc => by rw [hnew t c hc]; rfl
      have howe : (Pool.new lockFree n : Pool W).owing = 0 :=
        Ledger.total_eq_zero fun t c hc => by rw [hnew t c hc]; rfl
      constructor
      · rw [hseek]
        exact Scan.covered_zero _ _
      · rw [hseek, howe]
        rfl)
    fun _ _ _ _ hrun hi hn hok => supplied_step (guarded_of_run hrun) hok (trans_of_next hn) hi

/-! ## What becomes of the items -/

namespace Deed

/-- An item in `p` is inserted. -/
def puts (p : W → Bool) : Deed W → Bool
  | .inserted _ _ x _ => p x
  | _ => false

/-- An item in `p` is handed out, to the thread that makes the step. -/
def hands (p : W → Bool) : Deed W → Bool
  | .inserted _ _ _ (some y) | .removed _ _ (some y) | .deregistered _ _ (some y) => p y
  | .took _ _ y => p y
  | _ => false

/-- The thread whose pop took an item, the slot it was in, and the item. -/
def taken : Deed W → Option (Nat × Nat × W)
  | .took t k x => some (t, k, x)
  | _ => none

end Deed

/-- The number of slots that hold an item in `p`. -/
def Pool.holding (s : Pool W) (p : W → Bool) : Nat :=
  s.waitlist.weight fun _ o => (o.any p).toNat

/-- What is inserted is handed out or is in a slot. -/
theorem hands_of_trans (p : W → Bool) {s s' : Pool W} {e : Deed W} (h : Trans s e s') :
    s'.holding p + (e.hands p).toNat = s.holding p + (e.puts p).toNat := by
  cases h with
  | registered _ _ _ hadd => exact hadd.weight_eq fun _ o => (o.any p).toNat
  | @deregistered t k c old wl _ _ _ hdrop =>
      have hW := hdrop.weight_eq fun _ o => (o.any p).toNat
      cases old <;> exact hW
  | @inserted t k x c old wl _ _ hw =>
      have hW := hw.weight_eq (fun _ o => (o.any p).toNat) (fun _ o => (o.any p).toNat)
        fun _ _ _ => rfl
      cases old <;> exact hW
  | @removed t k c old wl _ _ hw =>
      have hW := hw.weight_eq (fun _ o => (o.any p).toNat) (fun _ o => (o.any p).toNat)
        fun _ _ _ => rfl
      cases old <;> exact hW
  | @took t k ks x c wl _ _ hw =>
      exact hw.weight_eq (fun _ o => (o.any p).toNat) (fun _ o => (o.any p).toNat)
        fun _ _ _ => rfl
  | _ => rfl

theorem hands_of_run {ok : Trace (Pool W) (Deed W) → Pool W → Deed W → Prop} {lockFree : Bool}
    {n : Nat} {tr : Trace (Pool W) (Deed W)} {s : Pool W} (hrun : Runs ok lockFree n tr s)
    (p : W → Bool) : times (Deed.hands p) tr + s.holding p = times (Deed.puts p) tr := by
  refine hrun.invariant (I := fun tr s => times (Deed.hands p) tr + s.holding p
    = times (Deed.puts p) tr) rfl (fun tr s e s' _ hi hn _ => ?_)
  have hstep := hands_of_trans p (trans_of_next hn)
  rw [times_cons, times_cons]
  omega

/-! ## The exchange -/

/-- Every thread is between two rounds. -/
def Pool.finished (s : Pool W) : Bool :=
  s.clients.all fun c => !c.point.scans && !c.point.owes

/-- When all rounds are over nothing is left: there is nobody to take it. -/
theorem empty_of_finished {s : Pool W} (hi : Supplied s) (hfin : s.finished = true) (k : Nat)
    (x : W) : s.waitlist.slot k ≠ some (some x) := by
  have hpt : ∀ (t : Nat) (c : Client W), s.clients[t]? = some c →
      c.point.scans = false ∧ c.point.owes = false := by
    intro t c hc
    have hall := List.all_eq_true.mp hfin c (List.mem_of_getElem? hc)
    simpa using hall
  have hseek : s.seekers = 0 :=
    Ledger.total_eq_zero fun t c hc => seeking_of_idle (hpt t c hc).1
  have howe : s.owing = 0 :=
    Ledger.total_eq_zero fun t c hc => by rw [(hpt t c hc).2]; rfl
  have hbal := hi.balanced
  rw [hseek, howe] at hbal
  intro hk
  exact List.countP_eq_zero.mp hbal.symm k (Waitlist.mem_keys_of_slot hk) (full_of_slot hk)

theorem holding_of_empty {s : Pool W} (h : ∀ k x, s.waitlist.slot k ≠ some (some x))
    (p : W → Bool) : s.holding p = 0 := by
  by_contra hne
  obtain ⟨k, o, hk, hpos⟩ := Waitlist.exists_of_weight_pos (Nat.pos_of_ne_zero hne)
  cases o with
  | none => exact absurd hpos (Nat.lt_irrefl 0)
  | some x => exact h k x hk

/-- No pop gives up.  What an insertion or a pop hands out it found in the slot.
What is inserted is handed out, or still in a slot, as often as it is inserted;
and when all rounds are over, every slot is empty. -/
theorem exchange_never_fails [DecidableEq W] {lockFree : Bool} {n : Nat}
    {tr : Trace (Pool W) (Deed W)} {s : Pool W} (hrun : Runs Exchange lockFree n tr s) :
    (∀ u t, (u, .gaveUp t) ∉ tr) ∧
      (∀ u t k x y, (u, .inserted t k x (some y)) ∈ tr → u.waitlist.slot k = some (some y)) ∧
      (∀ u t k y, (u, .took t k y) ∈ tr → u.waitlist.slot k = some (some y)) ∧
      (∀ x, times (Deed.hands (· = x)) tr + s.holding (· = x) = times (Deed.puts (· = x)) tr) ∧
      (s.finished = true →
        (∀ k x, s.waitlist.slot k ≠ some (some x)) ∧
          ∀ x, times (Deed.hands (· = x)) tr = times (Deed.puts (· = x)) tr) := by
  refine ⟨fun u t hmem => ?_, fun u t k x y hmem => ?_, fun u t k y hmem => ?_,
    fun x => hands_of_run hrun _, fun hfin => ?_⟩
  · obtain ⟨tr₁, v, hrun₁, hn, -⟩ := hrun.of_mem hmem
    cases trans_of_next hn with
    | gaveUp hc hp => exact not_supplied_of_end hc hp (supplied_of_run hrun₁)
  · obtain ⟨tr₁, v, hrun₁, hn, -⟩ := hrun.of_mem hmem
    cases trans_of_next hn with
    | inserted _ _ hw => exact hw.slot_before
  · obtain ⟨tr₁, v, hrun₁, hn, -⟩ := hrun.of_mem hmem
    cases trans_of_next hn with
    | took _ _ hw => exact hw.slot_before
  · have hempty := empty_of_finished (supplied_of_run hrun) hfin
    refine ⟨hempty, fun x => ?_⟩
    have hx := hands_of_run hrun (· = x)
    rwa [holding_of_empty hempty] at hx

/-- Slot 2 comes first.  Thread 1 takes what thread 0 has inserted.  While
thread 0 scans, thread 2 inserts behind it, and thread 1 replaces its own item
ahead of it. -/
def insertsAround : List (Act Nat) :=
  [.register 0 0, .register 1 1, .register 2 0, .insert 0 0 10, .insert 1 1 11,
    .pop 1, .visit 1, .visit 1,
    .pop 0, .visit 0, .insert 2 2 20, .visit 0, .insert 1 1 12, .visit 0,
    .pop 2, .visit 2]

/-- One item goes out with the insertion that replaces it, three with a pop. -/
theorem exchange_never_fails_in_insertsAround :
    let r := schedule Exchange true 3 insertsAround
    r.2.finished = true ∧ r.2.waitlist.keys = [2, 0, 1] ∧
      r.1.filterMap (fun p => p.2.taken) = [(2, 2, 20), (0, 1, 12), (1, 0, 10)] ∧
      (∀ u t k y, (u, .took t k y) ∈ r.1 → u.waitlist.slot k = some (some y)) ∧
      [10, 11, 12, 20].map (fun x => times (Deed.puts (· = x)) r.1) = [1, 1, 1, 1] ∧
      (∀ x, times (Deed.hands (· = x)) r.1 = times (Deed.puts (· = x)) r.1) := by
  intro r
  obtain ⟨-, -, hpop, -, hfin⟩ :=
    exchange_never_fails (runs_schedule (W := Nat) Exchange true 3 insertsAround)
  exact ⟨by decide, by decide, by decide, hpop, by decide, (hfin (by decide)).2⟩

end Clients

end RingChannel
