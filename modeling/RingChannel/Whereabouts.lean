/-
# `RingChannel.Whereabouts` — what has become of every waker ever inserted

Polls make many wakers that look alike: a `recv` that is polled again inserts
the waker of the same call into the same slot.  So an insertion is known by its
number in the run, and the trace is read as a history of insertions:

* `resting k` is the insertion whose waker is in the slot `k`;
* `carried c` is the insertion whose waker call `c` has popped and is about to
  invoke;
* `endings` lists the insertions whose waker is gone, and how it went.

The three are read off the trace alone.  `Located` ties the first two to the
state: a slot holds a waker exactly if some insertion rests there, and it is
the waker of that insertion; and likewise for a call that is about to invoke.
`Tallied` is the conservation law: the conditions of an insertion, counted
together, are one, and zero for a number that is not an insertion's.

Five kinds of steps move a waker.  `Motion` says which, and is all that the two
invariants know of a step.
-/
import RingChannel.Wakers

namespace RingChannel

variable {T : Type}

/-! ## The history of insertions -/

/-- The waker that the event puts into a slot. -/
def Event.inserted : Event T → Option Waker
  | .insert c rx _ => some ⟨rx, c⟩
  | _ => none

/-- The waker that step number `i` inserted. -/
def insertedAt : Trace (State T) (Event T) → Nat → Option Waker
  | [], _ => none
  | (_, e) :: tr, i => if i = tr.length then e.inserted else insertedAt tr i

/-- The insertion whose waker is in the slot `k`. -/
def resting (k : Nat) : Trace (State T) (Event T) → Option Nat
  | [] => none
  | (_, .insert _ rx _) :: tr => if rx = k then some tr.length else resting k tr
  | (_, .remove _ rx _) :: tr => if rx = k then none else resting k tr
  | (_, .deregister _ rx _) :: tr => if rx = k then none else resting k tr
  | (_, .take _ w) :: tr => if w.slot = k then none else resting k tr
  | _ :: tr => resting k tr

/-- The insertion whose waker call `c` has popped and not yet invoked. -/
def carried (c : Nat) : Trace (State T) (Event T) → Option Nat
  | [] => none
  | (_, .take d w) :: tr => if d = c then resting w.slot tr else carried c tr
  | (_, .wake d _) :: tr => if d = c then none else carried c tr
  | _ :: tr => carried c tr

/-- How a waker goes. -/
inductive Fate where
  | invoked
  | replaced
  | withdrawn
  | removed
deriving DecidableEq

/-- The insertion whose waker goes with the event, and how. -/
def ending (tr : Trace (State T) (Event T)) : Event T → Option (Nat × Fate)
  | .wake c _ => (carried c tr).map fun i => (i, .invoked)
  | .insert _ rx _ => (resting rx tr).map fun i => (i, .replaced)
  | .remove _ rx _ => (resting rx tr).map fun i => (i, .withdrawn)
  | .deregister _ rx _ => (resting rx tr).map fun i => (i, .removed)
  | _ => none

def endings : Trace (State T) (Event T) → List (Nat × Fate)
  | [] => []
  | (_, e) :: tr => (ending tr e).toList ++ endings tr

/-- The conditions that the waker of insertion `i` is in, each counted as often
as it holds: in a slot, with a call that is about to invoke it, gone. -/
def conditions (tr : Trace (State T) (Event T)) (s : State T) (i : Nat) : Nat :=
  s.cb.waitlist.weight (fun k _ => (decide (resting k tr = some i)).toNat)
    + Ledger.total (fun c _ => (decide (carried c tr = some i)).toNat) s.calls
    + (endings tr).countP fun x => x.1 = i

theorem insertedAt_cons (s : State T) (e : Event T) (tr : Trace (State T) (Event T)) (i : Nat) :
    insertedAt ((s, e) :: tr) i = if i = tr.length then e.inserted else insertedAt tr i := rfl

theorem lt_of_insertedAt : ∀ {tr : Trace (State T) (Event T)} {i : Nat} {w : Waker},
    insertedAt tr i = some w → i < tr.length
  | [], _, _, h => by cases h
  | (s, e) :: tr, i, w, h => by
      rw [insertedAt_cons] at h
      rw [List.length_cons]
      split at h
      · omega
      · have := lt_of_insertedAt h
        omega

theorem insertedAt_length (tr : Trace (State T) (Event T)) : insertedAt tr tr.length = none := by
  cases h : insertedAt tr tr.length with
  | none => rfl
  | some w => exact absurd (lt_of_insertedAt h) (Nat.lt_irrefl _)

/-- The past does not change. -/
theorem insertedAt_kept {tr : Trace (State T) (Event T)} {s : State T} {e : Event T} {i : Nat}
    {w : Waker} (h : insertedAt tr i = some w) : insertedAt ((s, e) :: tr) i = some w := by
  rw [insertedAt_cons, if_neg (Nat.ne_of_lt (lt_of_insertedAt h)), h]

/-- An event that moves no waker. -/
def Event.still : Event T → Bool
  | .insert .. | .remove .. | .deregister .. | .take .. | .wake .. => false
  | _ => true

section Still

variable {e : Event T} (he : e.still = true) (s : State T) (tr : Trace (State T) (Event T))
include he

theorem resting_still (k : Nat) : resting k ((s, e) :: tr) = resting k tr := by
  cases e <;> first | rfl | cases he

theorem carried_still (c : Nat) : carried c ((s, e) :: tr) = carried c tr := by
  cases e <;> first | rfl | cases he

theorem endings_still : endings ((s, e) :: tr) = endings tr := by
  cases e <;> first | rfl | cases he

theorem inserted_still : e.inserted = none := by
  cases e <;> first | rfl | cases he

end Still

/-- A step that inserts nothing leaves the insertions as they are. -/
theorem insertedAt_same {e : Event T} (he : e.inserted = none) (s : State T)
    (tr : Trace (State T) (Event T)) (i : Nat) : insertedAt ((s, e) :: tr) i = insertedAt tr i := by
  rw [insertedAt_cons, he]
  split
  · rename_i hi
    rw [hi, insertedAt_length]
  · rfl

/-- What is known to be an insertion stays one. -/
theorem bind_insertedAt {tr : Trace (State T) (Event T)} {o : Option Nat}
    (h : ∀ i, o = some i → insertedAt tr i ≠ none) (s : State T) (e : Event T) :
    o.bind (insertedAt ((s, e) :: tr)) = o.bind (insertedAt tr) := by
  cases o with
  | none => rfl
  | some i =>
      obtain ⟨w, hw⟩ := Option.ne_none_iff_exists'.mp (h i rfl)
      rw [Option.bind_some, Option.bind_some, hw, insertedAt_kept hw]

/-! ## The steps that move a waker -/

/-- The waker that the call is about to invoke. -/
def Call.inHand : Call T → Option Waker
  | .wake _ w => some w
  | _ => none

inductive Motion (s : State T) : Event T → State T → Prop
  | insert {c rx : Nat} {old : Option Waker} {a d : Call T} {s' : State T} :
      s.calls[c]? = some a → a.inHand = none → d.inHand = none →
      s'.calls = s.calls.set c d →
      s.cb.waitlist.Writes rx old (some ⟨rx, c⟩) s'.cb.waitlist →
      Motion s (.insert c rx old) s'
  | remove {c rx : Nat} {old : Option Waker} {a d : Call T} {s' : State T} :
      s.calls[c]? = some a → a.inHand = none → d.inHand = none →
      s'.calls = s.calls.set c d → s.cb.waitlist.Writes rx old none s'.cb.waitlist →
      Motion s (.remove c rx old) s'
  | deregister {c rx : Nat} {old : Option Waker} {a d : Call T} {s' : State T} :
      s.calls[c]? = some a → a.inHand = none → d.inHand = none →
      s'.calls = s.calls.set c d → s.cb.waitlist.Drops rx old s'.cb.waitlist →
      Motion s (.deregister c rx old) s'
  | take {c : Nat} {w : Waker} {a d : Call T} {wl : Waitlist Waker} {s' : State T} :
      s.calls[c]? = some a → a.inHand = none → d.inHand = some w →
      s'.calls = s.calls.set c d → s.cb.waitlist.Writes w.slot (some w) none wl →
      s'.cb.waitlist = wl.unlock → Motion s (.take c w) s'
  | wake {c : Nat} {w : Waker} {a d : Call T} {s' : State T} :
      s.calls[c]? = some a → d.inHand = none → s'.calls = s.calls.set c d →
      s'.cb.waitlist = s.cb.waitlist → Motion s (.wake c w) s'
  | begin {e : Event T} {a : Call T} {s' : State T} :
      e.still = true → a.inHand = none → s'.calls = s.calls ++ [a] →
      s'.cb.waitlist = s.cb.waitlist → Motion s e s'
  | register {e : Event T} {c k : Nat} {a d : Call T} {s' : State T} :
      e.still = true → s.calls[c]? = some a → a.inHand = none → d.inHand = none →
      s'.calls = s.calls.set c d → s.cb.waitlist.Adds k s'.cb.waitlist → Motion s e s'
  | still {e : Event T} {c : Nat} {a d : Call T} {s' : State T} :
      e.still = true → s.calls[c]? = some a → a.inHand = none → d.inHand = none →
      s'.calls = s.calls.set c d → s'.cb.waitlist.items = s.cb.waitlist.items →
      Motion s e s'

theorem answered_inHand (rx : Nat) (l : Look) (r : Except TryRecvError T) :
    (l.answered rx r).inHand = none := by
  rcases l with _ | p | ⟨_ | _⟩ <;> rcases r with (_ | _) | m <;> rfl

theorem motion_of_trans {s s' : State T} {e : Event T} (htok : Tokens s) (h : Trans s e s') :
    Motion s e s' := by
  cases h with
  | @start op _ _ => exact .begin rfl (by cases op <;> rfl) rfl rfl
  | startDropSender | startDropReceiver => exact .begin rfl rfl rfl rfl
  | insert hc hw => exact .insert hc rfl rfl rfl hw
  | remove hc hw => exact .remove hc rfl rfl rfl hw
  | deregisterEmpty hc _ hdrop | deregisterFull hc _ hdrop => exact .deregister hc rfl rfl rfl hdrop
  | @scanHit c k p ks w wl hc hw =>
      obtain ⟨rfl, -⟩ := htok k w hw.slot_before
      exact .take hc rfl rfl rfl hw rfl
  | @wake c p w hc => exact .wake hc (by cases p <;> rfl) rfl rfl
  | cloneRegister hc _ hadd => exact .register rfl hc rfl rfl rfl hadd
  | @scanEnd c p hc => exact .still rfl hc rfl (by cases p <;> rfl) rfl rfl
  | popSome hc _ | popEmpty hc _ | popDisconnected hc _ =>
      exact .still rfl hc rfl (answered_inHand ..) rfl rfl
  | _ => exact .still rfl ‹_› rfl rfl rfl rfl

/-! ## A waker is where its insertion is -/

structure Located (tr : Trace (State T) (Event T)) (s : State T) : Prop where
  slots : ∀ k, (s.cb.waitlist.slot k).join = (resting k tr).bind (insertedAt tr)
  hands : ∀ c : Nat, s.calls[c]?.bind Call.inHand = (carried c tr).bind (insertedAt tr)
  rested : ∀ k i, resting k tr = some i → insertedAt tr i ≠ none
  borne : ∀ c i, carried c tr = some i → insertedAt tr i ≠ none

theorem Located.resting_none {tr : Trace (State T) (Event T)} {s : State T} (hi : Located tr s)
    {k : Nat} (h : (s.cb.waitlist.slot k).join = none) : resting k tr = none := by
  cases hr : resting k tr with
  | none => rfl
  | some i =>
      have hslot := hi.slots k
      rw [h, hr, Option.bind_some] at hslot
      exact absurd hslot.symm (hi.rested k i hr)

theorem Located.carried_none {tr : Trace (State T) (Event T)} {s : State T} (hi : Located tr s)
    {c : Nat} (h : s.calls[c]?.bind Call.inHand = none) : carried c tr = none := by
  cases hb : carried c tr with
  | none => rfl
  | some i =>
      have hhand := hi.hands c
      rw [h, hb, Option.bind_some] at hhand
      exact absurd hhand.symm (hi.borne c i hb)

/-- A step leaves a slot alone, empties it, or fills it; and a call keeps what
it is about to invoke, loses it, or gets it from a slot. -/
theorem located_of {tr : Trace (State T) (Event T)} {s s' : State T} {e : Event T}
    (hi : Located tr s)
    (hslots : ∀ k,
      (resting k ((s, e) :: tr) = resting k tr ∧
        (s'.cb.waitlist.slot k).join = (s.cb.waitlist.slot k).join) ∨
      (resting k ((s, e) :: tr) = none ∧ (s'.cb.waitlist.slot k).join = none) ∨
      (resting k ((s, e) :: tr) = some tr.length ∧ e.inserted ≠ none ∧
        (s'.cb.waitlist.slot k).join = e.inserted))
    (hhands : ∀ c : Nat,
      (carried c ((s, e) :: tr) = carried c tr ∧
        s'.calls[c]?.bind Call.inHand = s.calls[c]?.bind Call.inHand) ∨
      (carried c ((s, e) :: tr) = none ∧ s'.calls[c]?.bind Call.inHand = none) ∨
      ∃ k, carried c ((s, e) :: tr) = resting k tr ∧
        s'.calls[c]?.bind Call.inHand = (s.cb.waitlist.slot k).join) :
    Located ((s, e) :: tr) s' := by
  have hkept : ∀ {i}, insertedAt tr i ≠ none → insertedAt ((s, e) :: tr) i ≠ none := by
    intro i h
    obtain ⟨w, hw⟩ := Option.ne_none_iff_exists'.mp h
    rw [insertedAt_kept hw]
    exact Option.some_ne_none w
  have hnew : insertedAt ((s, e) :: tr) tr.length = e.inserted := by
    rw [insertedAt_cons, if_pos rfl]
  constructor
  · intro k
    rcases hslots k with ⟨hr, hs⟩ | ⟨hr, hs⟩ | ⟨hr, -, hs⟩
    · rw [hr, hs, bind_insertedAt (hi.rested k), hi.slots k]
    · rw [hr, hs]
      rfl
    · rw [hr, hs, Option.bind_some, hnew]
  · intro c
    rcases hhands c with ⟨hb, hh⟩ | ⟨hb, hh⟩ | ⟨k, hb, hh⟩
    · rw [hb, hh, bind_insertedAt (hi.borne c), hi.hands c]
    · rw [hb, hh]
      rfl
    · rw [hb, hh, bind_insertedAt (hi.rested k), hi.slots k]
  · intro k i hki
    rcases hslots k with ⟨hr, -⟩ | ⟨hr, -⟩ | ⟨hr, hne, -⟩
    · exact hkept (hi.rested k i (hr ▸ hki))
    · rw [hr] at hki
      cases hki
    · rw [hr] at hki
      cases hki
      rwa [hnew]
  · intro c i hci
    rcases hhands c with ⟨hb, -⟩ | ⟨hb, -⟩ | ⟨k, hb, -⟩
    · exact hkept (hi.borne c i (hb ▸ hci))
    · rw [hb] at hci
      cases hci
    · exact hkept (hi.rested k i (hb ▸ hci))

theorem hands_off {s s' : State T} {c j : Nat} {d : Call T} (hcalls : s'.calls = s.calls.set c d)
    (hj : j ≠ c) : s'.calls[j]?.bind Call.inHand = s.calls[j]?.bind Call.inHand := by
  rw [hcalls, Ledger.getElem?_set_off d hj]

section Hands

variable {s s' : State T} {c : Nat} {a d : Call T} (hc : s.calls[c]? = some a)
  (hcalls : s'.calls = s.calls.set c d)
include hc hcalls

theorem hands_self : s'.calls[c]?.bind Call.inHand = d.inHand := by
  rw [hcalls, Ledger.getElem?_set_self_of d hc]
  rfl

theorem hands_same (h : d.inHand = a.inHand) (j : Nat) :
    s'.calls[j]?.bind Call.inHand = s.calls[j]?.bind Call.inHand := by
  rcases eq_or_ne j c with rfl | hj
  · rw [hands_self hc hcalls, h, hc]
    rfl
  · exact hands_off hcalls hj

end Hands

theorem hands_append {s s' : State T} {a : Call T} (ha : a.inHand = none)
    (hcalls : s'.calls = s.calls ++ [a]) (j : Nat) :
    s'.calls[j]?.bind Call.inHand = s.calls[j]?.bind Call.inHand := by
  rw [hcalls]
  rcases Nat.lt_trichotomy j s.calls.length with hlt | rfl | hgt
  · rw [List.getElem?_append_left hlt]
  · simp [ha]
  · rw [List.getElem?_eq_none (by simp; omega), List.getElem?_eq_none (by omega)]

theorem located_step {tr : Trace (State T) (Event T)} {s s' : State T} {e : Event T}
    (h : Motion s e s') (hi : Located tr s) : Located ((s, e) :: tr) s' := by
  cases h with
  | @insert c rx old a d _ hc ha hd hcalls hw =>
      refine located_of hi (fun k => ?_)
        fun j => .inl ⟨rfl, hands_same hc hcalls (hd.trans ha.symm) j⟩
      rcases eq_or_ne k rx with rfl | hk
      · refine .inr (.inr ⟨if_pos rfl, Option.some_ne_none _, ?_⟩)
        rw [hw.slot_self]
        rfl
      · refine .inl ⟨if_neg (Ne.symm hk), ?_⟩
        rw [hw.slot_ne k hk]
  | @remove c rx old a d _ hc ha hd hcalls hw =>
      refine located_of hi (fun k => ?_)
        fun j => .inl ⟨rfl, hands_same hc hcalls (hd.trans ha.symm) j⟩
      rcases eq_or_ne k rx with rfl | hk
      · refine .inr (.inl ⟨if_pos rfl, ?_⟩)
        rw [hw.slot_self]
        rfl
      · refine .inl ⟨if_neg (Ne.symm hk), ?_⟩
        rw [hw.slot_ne k hk]
  | @deregister c rx old a d _ hc ha hd hcalls hdrop =>
      refine located_of hi (fun k => ?_)
        fun j => .inl ⟨rfl, hands_same hc hcalls (hd.trans ha.symm) j⟩
      rcases eq_or_ne k rx with rfl | hk
      · refine .inr (.inl ⟨if_pos rfl, ?_⟩)
        rw [hdrop.slot_self]
        rfl
      · refine .inl ⟨if_neg (Ne.symm hk), ?_⟩
        rw [hdrop.slot_ne k hk]
  | @take c w a d wl _ hc _ hd hcalls hw hwl =>
      refine located_of hi (fun k => ?_) (fun j => ?_)
      · rw [hwl]
        rcases eq_or_ne k w.slot with rfl | hk
        · refine .inr (.inl ⟨if_pos rfl, ?_⟩)
          show (wl.slot w.slot).join = none
          rw [hw.slot_self]
          rfl
        · refine .inl ⟨if_neg (Ne.symm hk), ?_⟩
          show (wl.slot k).join = _
          rw [hw.slot_ne k hk]
      · rcases eq_or_ne j c with rfl | hj
        · refine .inr (.inr ⟨w.slot, if_pos rfl, ?_⟩)
          rw [hands_self hc hcalls, hd, hw.slot_before]
          rfl
        · exact .inl ⟨if_neg (Ne.symm hj), hands_off hcalls hj⟩
  | @wake c w a d _ hc hd hcalls hwl =>
      refine located_of hi (fun k => .inl ⟨rfl, by rw [hwl]⟩) (fun j => ?_)
      rcases eq_or_ne j c with rfl | hj
      · exact .inr (.inl ⟨if_pos rfl, (hands_self hc hcalls).trans hd⟩)
      · exact .inl ⟨if_neg (Ne.symm hj), hands_off hcalls hj⟩
  | begin he ha hcalls hwl =>
      exact located_of hi (fun k => .inl ⟨resting_still he .., by rw [hwl]⟩)
        fun j => .inl ⟨carried_still he .., hands_append ha hcalls j⟩
  | @register _ c k a d _ he hc ha hd hcalls hadd =>
      refine located_of hi (fun j => .inl ⟨resting_still he .., ?_⟩)
        fun j => .inl ⟨carried_still he .., hands_same hc hcalls (hd.trans ha.symm) j⟩
      rcases eq_or_ne j k with rfl | hj
      · rw [hadd.slot_self, hadd.slot_before]
        rfl
      · rw [hadd.slot_ne j hj]
  | still he hc ha hd hcalls hitems =>
      refine located_of hi (fun k => .inl ⟨resting_still he .., ?_⟩)
        fun j => .inl ⟨carried_still he .., hands_same hc hcalls (hd.trans ha.symm) j⟩
      rw [Waitlist.slot, hitems, Waitlist.slot]

theorem located_of_run {ok : Trace (State T) (Event T) → State T → Event T → Prop}
    {lay : Layout} {n : Nat} {h : 0 < n} {tr : Trace (State T) (Event T)} {s : State T}
    (hrun : Runs ok lay n h tr s) : Located tr s :=
  hrun.invariant
    { slots := fun k => by
        have hadd := Waitlist.register_adds (Waitlist.new lay.waker : Waitlist Waker) 0
        show ((Waitlist.register (Waitlist.new lay.waker : Waitlist Waker) 0).2.slot k).join = none
        rcases eq_or_ne k 0 with rfl | hk0
        · exact congrArg Option.join hadd.slot_self
        · exact congrArg Option.join (hadd.slot_ne k hk0)
      hands := fun c => by simp [State.ringChannel, carried]
      rested := fun k i hki => by cases hki
      borne := fun c i hci => by cases hci }
    fun _ _ _ _ hrun hi hn _ =>
      located_step (motion_of_trans (tokens_of_run hrun) (trans_of_next hn)) hi

/-! ## One condition for each insertion -/

def Tallied (tr : Trace (State T) (Event T)) (s : State T) : Prop :=
  ∀ i, conditions tr s i = (insertedAt tr i).isSome.toNat

/-- The number of slots in which insertion `i` rests. -/
abbrev rests (tr : Trace (State T) (Event T)) (i k : Nat) (_ : Option Waker) : Nat :=
  (decide (resting k tr = some i)).toNat

/-- The number of calls that are about to invoke the waker of insertion `i`. -/
abbrev bears (tr : Trace (State T) (Event T)) (i c : Nat) (_ : Call T) : Nat :=
  (decide (carried c tr = some i)).toNat

/-- The number of endings of insertion `i`. -/
abbrev ends (tr : Trace (State T) (Event T)) (i : Nat) : Nat :=
  (endings tr).countP fun x => x.1 = i

theorem conditions_eq (tr : Trace (State T) (Event T)) (s : State T) (i : Nat) :
    conditions tr s i
      = s.cb.waitlist.weight (rests tr i) + Ledger.total (bears tr i) s.calls + ends tr i := rfl

theorem ends_cons (s : State T) (tr : Trace (State T) (Event T)) {e : Event T} {o : Option Nat}
    {f : Fate} (h : ending tr e = o.map fun i => (i, f)) (i : Nat) :
    ends ((s, e) :: tr) i = ends tr i + (decide (o = some i)).toNat := by
  simp only [ends, endings, h]
  cases o with
  | none => simp
  | some j =>
      simp only [Option.map_some, Option.toList_some, List.cons_append, List.nil_append,
        Option.some.injEq]
      by_cases hj : j = i
      · rw [List.countP_cons_of_pos (by simp [hj]), decide_eq_true hj]
        rfl
      · rw [List.countP_cons_of_neg (by simp [hj]), decide_eq_false hj]
        rfl

theorem ends_same (s : State T) (tr : Trace (State T) (Event T)) {e : Event T}
    (h : ending tr e = none) (i : Nat) : ends ((s, e) :: tr) i = ends tr i := by
  simp only [ends, endings, h]
  rfl

theorem bears_same (tr tr' : Trace (State T) (Event T)) {s s' : State T} {c : Nat} {a d : Call T}
    (hc : s.calls[c]? = some a) (hcalls : s'.calls = s.calls.set c d)
    (h : ∀ j, carried j tr' = carried j tr) (i : Nat) :
    Ledger.total (bears tr' i) s'.calls = Ledger.total (bears tr i) s.calls := by
  have hset := Ledger.total_set (f := bears tr i) (g := bears tr' i) d hc
    (fun j _ _ _ => by simp only [bears, h j])
  simp only [bears, h c] at hset
  rw [hcalls]
  exact Nat.add_right_cancel hset

theorem bears_move (tr tr' : Trace (State T) (Event T)) {s s' : State T} {c : Nat} {a d : Call T}
    (hc : s.calls[c]? = some a) (hcalls : s'.calls = s.calls.set c d)
    (h : ∀ j, j ≠ c → carried j tr' = carried j tr) (i : Nat) :
    Ledger.total (bears tr' i) s'.calls + bears tr i c a
      = Ledger.total (bears tr i) s.calls + bears tr' i c d := by
  rw [hcalls]
  exact Ledger.total_set d hc fun j _ hj _ => by simp only [bears, h j hj]

section Still

variable {e : Event T} (he : e.still = true) (s : State T) (tr : Trace (State T) (Event T))
include he

theorem rests_still (i : Nat) : rests ((s, e) :: tr) i = rests tr i := by
  funext k o
  simp only [rests, resting_still he]

theorem ends_still (i : Nat) : ends ((s, e) :: tr) i = ends tr i := by
  rw [ends, endings_still he]

theorem bears_still (i : Nat) : bears ((s, e) :: tr) i = bears tr i := by
  funext c a
  simp only [bears, carried_still he]

end Still

theorem tallied_step {tr : Trace (State T) (Event T)} {s s' : State T} {e : Event T}
    (hl : Located tr s) (h : Motion s e s') (hi : Tallied tr s) : Tallied ((s, e) :: tr) s' := by
  intro i
  have hold := hi i
  rw [conditions_eq] at hold ⊢
  cases h with
  | @insert c rx old a d _ hc ha hd hcalls hw =>
      have hW := hw.weight_eq (rests tr i) (rests ((s, .insert c rx old) :: tr) i)
        (fun j _ hj => by simp only [rests, resting, if_neg (Ne.symm hj)])
      have hH := bears_same tr ((s, .insert c rx old) :: tr) hc hcalls
        (fun _ => rfl) i
      have hE := ends_cons s tr (e := .insert c rx old) rfl i
      simp only [rests, resting, if_true, Option.some.injEq] at hW
      rw [insertedAt_cons]
      by_cases hi' : i = tr.length
      · -- the number of this step was no insertion's so far
        have hzero := hi tr.length
        rw [insertedAt_length, conditions_eq] at hzero
        subst hi'
        simp only [decide_true, Bool.toNat_true, Option.isSome_none, Bool.toNat_false] at hW hzero
        simp only [if_true, Event.inserted, Option.isSome_some, Bool.toNat_true]
        omega
      · rw [decide_eq_false (Ne.symm hi'), Bool.toNat_false] at hW
        rw [if_neg hi']
        omega
  | @remove c rx old a d _ hc ha hd hcalls hw =>
      have hW := hw.weight_eq (rests tr i) (rests ((s, .remove c rx old) :: tr) i)
        (fun j _ hj => by simp only [rests, resting, if_neg (Ne.symm hj)])
      have hH := bears_same tr ((s, .remove c rx old) :: tr) hc hcalls
        (fun _ => rfl) i
      have hE := ends_cons s tr (e := .remove c rx old) rfl i
      simp only [rests, resting, if_true, reduceCtorEq, decide_false, Bool.toNat_false] at hW
      rw [insertedAt_same rfl]
      omega
  | @deregister c rx old a d _ hc ha hd hcalls hdrop =>
      have hW := hdrop.weight_eq (rests ((s, .deregister c rx old) :: tr) i)
      have hat := Waitlist.weight_at (f := rests tr i)
        (g := rests ((s, .deregister c rx old) :: tr) i) hdrop.slot_before
        (fun j _ hj => by simp only [rests, resting, if_neg (Ne.symm hj)])
      have hH := bears_same tr ((s, .deregister c rx old) :: tr) hc hcalls
        (fun _ => rfl) i
      have hE := ends_cons s tr (e := .deregister c rx old) rfl i
      simp only [rests, resting, if_true, reduceCtorEq, decide_false, Bool.toNat_false] at hW hat
      rw [insertedAt_same rfl]
      omega
  | @take c w a d wl _ hc ha hd hcalls hw hwl =>
      have hW := hw.weight_eq (rests tr i) (rests ((s, .take c w) :: tr) i)
        (fun j _ hj => by simp only [rests, resting, if_neg (Ne.symm hj)])
      have hH := bears_move tr ((s, .take c w) :: tr) hc hcalls
        (fun j hj => if_neg (Ne.symm hj)) i
      have hE := ends_same s tr (e := .take c w) rfl i
      have hempty : carried c tr = none := hl.carried_none (by rw [hc]; exact ha)
      simp only [rests, resting, if_true, reduceCtorEq, decide_false, Bool.toNat_false] at hW
      simp only [bears, hempty, carried, if_true, reduceCtorEq, decide_false,
        Bool.toNat_false] at hH
      rw [insertedAt_same rfl, hwl, Waitlist.weight_unlock]
      omega
  | @wake c w a d _ hc hd hcalls hwl =>
      have hH := bears_move tr ((s, .wake c w) :: tr) hc hcalls
        (fun j hj => if_neg (Ne.symm hj)) i
      have hE := ends_cons s tr (e := .wake c w) rfl i
      have hW : s'.cb.waitlist.weight (rests ((s, .wake c w) :: tr) i)
          = s.cb.waitlist.weight (rests tr i) := by rw [hwl]; rfl
      simp only [bears, carried, if_true, reduceCtorEq, decide_false, Bool.toNat_false] at hH
      rw [insertedAt_same rfl]
      omega
  | @begin _ a _ he ha hcalls hwl =>
      have hnone : carried s.calls.length tr = none :=
        hl.carried_none (by rw [List.getElem?_eq_none (Nat.le_refl _)]; rfl)
      have hH := Ledger.total_concat (l := s.calls) (f := bears tr i) (g := bears tr i) a
        fun _ _ _ => rfl
      simp only [bears, hnone, reduceCtorEq, decide_false, Bool.toNat_false] at hH
      rw [rests_still he, bears_still he, ends_still he, insertedAt_same (inserted_still he), hwl,
        hcalls]
      omega
  | @register _ c k a d _ he hc ha hd hcalls hadd =>
      have hnone : resting k tr = none := hl.resting_none (by rw [hadd.slot_before]; rfl)
      have hW := hadd.weight_eq (rests tr i)
      have hH := bears_same tr tr hc hcalls (fun _ => rfl) i
      simp only [rests, hnone, reduceCtorEq, decide_false, Bool.toNat_false] at hW
      rw [rests_still he, bears_still he, ends_still he, insertedAt_same (inserted_still he)]
      omega
  | still he hc ha hd hcalls hitems =>
      have hH := bears_same tr tr hc hcalls (fun _ => rfl) i
      have hW : s'.cb.waitlist.weight (rests tr i) = s.cb.waitlist.weight (rests tr i) := by
        rw [Waitlist.weight, hitems, Waitlist.weight]
      rw [rests_still he, bears_still he, ends_still he, insertedAt_same (inserted_still he)]
      omega

theorem tallied_of_run {ok : Trace (State T) (Event T) → State T → Event T → Prop}
    {lay : Layout} {n : Nat} {h : 0 < n} {tr : Trace (State T) (Event T)} {s : State T}
    (hrun : Runs ok lay n h tr s) : Tallied tr s :=
  hrun.invariant (I := Tallied) (fun i => by
      have hadd := Waitlist.register_adds (Waitlist.new lay.waker : Waitlist Waker) 0
      show (Waitlist.register (Waitlist.new lay.waker : Waitlist Waker) 0).2.weight
        (fun _ _ => 0) + 0 + 0 = 0
      rw [hadd.weight_eq]
      rfl)
    fun _ _ _ _ hrun hi hn _ =>
      tallied_step (located_of_run hrun)
        (motion_of_trans (tokens_of_run hrun) (trans_of_next hn)) hi

end RingChannel
