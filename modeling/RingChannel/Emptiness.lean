/-
# `RingChannel.Emptiness` — what a pop that gives up has seen

A `pop` that answers `None` has found every slot empty, each at the time it came
by.  That is not to say that they were ever empty together: an item may be
inserted behind the scan, and only then the last item ahead of it be withdrawn
(`gaveUp_not_linearizable`).  Nothing in `channel.rs` asks for more.  An item
that is inserted behind a scan belongs to a poll that looks at the buffer again,
and one that is withdrawn ahead of it to a poll that has found what it wanted.

It is the only way, though.  `Swept` follows a scan: as long as nothing is
inserted behind it, whatever there is lies ahead of it (`ahead`); the first item
behind it is inserted either into an empty waitlist (`seen`) or while there is
one ahead too (`left`), and that one the scan will find unless somebody empties
its slot first (`crossed`).
-/
import RingChannel.Clients

namespace RingChannel

namespace Clients

variable {W : Type}

/-! ## The rule -/

/-- Who works on a single slot is its owner. -/
def owned (s : Pool W) : Deed W → Bool
  | .inserted t k _ _ | .removed t k _ | .deregistered t k _ =>
      s.clients[t]?.any fun c => c.slot = some k
  | _ => true

def Owned (_ : Trace (Pool W) (Deed W)) (s : Pool W) (e : Deed W) : Prop := owned s e = true

instance (tr : Trace (Pool W) (Deed W)) (s : Pool W) (e : Deed W) : Decidable (Owned tr s e) :=
  inferInstanceAs (Decidable (_ = true))

/-! ## What happens during a pop -/

/-- Thread `t` begins to pop. -/
def Deed.locks (t : Nat) : Deed W → Bool
  | .locked j => j = t
  | _ => false

/-- The steps since `t` began to pop; the states they left are the instants from
then on. -/
def duringPop (t : Nat) (tr : Trace (Pool W) (Deed W)) : Trace (Pool W) (Deed W) :=
  tr.takeWhile fun x => !x.2.locks t

/-- The slots that `t` has yet to visit. -/
def Pool.ahead (s : Pool W) (t : Nat) : List Nat :=
  match s.clients[t]? with
  | some ⟨_, .scanning ks⟩ => ks
  | _ => []

/-- An empty slot is filled that `t` will not visit any more. -/
def fillsBehind (t : Nat) (x : Pool W × Deed W) : Bool :=
  match x.2 with
  | .inserted _ k _ none => k ∉ x.1.ahead t
  | _ => false

/-- A full slot is emptied, not by `t`, that `t` has yet to visit. -/
def emptiesAhead (t : Nat) (x : Pool W × Deed W) : Bool :=
  match x.2 with
  | .removed _ k (some _) => k ∈ x.1.ahead t
  | .took j k _ => j ≠ t && k ∈ x.1.ahead t
  | _ => false

/-- While `t` pops, a slot behind it is filled, and later one ahead of it is
emptied. -/
def Crossed (t : Nat) (tr : Trace (Pool W) (Deed W)) : Prop :=
  ∃ x y, List.Sublist [y, x] (duringPop t tr) ∧ fillsBehind t x = true ∧
    emptiesAhead t y = true

theorem duringPop_cons {t : Nat} {e : Deed W} (s : Pool W) (tr : Trace (Pool W) (Deed W))
    (he : e.locks t = false) : duringPop t ((s, e) :: tr) = (s, e) :: duringPop t tr :=
  List.takeWhile_cons_of_pos (by simp [he])

theorem ahead_of_scanning {s : Pool W} {t : Nat} {c : Client W} {ks : List Nat}
    (hc : s.clients[t]? = some c) (hp : c.point = .scanning ks) : s.ahead t = ks := by
  obtain ⟨slot, p⟩ := c
  obtain rfl : p = .scanning ks := hp
  rw [Pool.ahead, hc]

/-! ## A scan and what it has left behind -/

inductive Swept (t : Nat) (tr : Trace (Pool W) (Deed W)) (s : Pool W) (ks : List Nat) : Prop
  | seen {x : Pool W × Deed W} : x ∈ duringPop t tr → x.1.waitlist.size = 0 → Swept t tr s ks
  | crossed : Crossed t tr → Swept t tr s ks
  | ahead : (∀ k, s.full k = true → k ∈ ks) → Swept t tr s ks
  | left {x : Pool W × Deed W} {k : Nat} : x ∈ duringPop t tr → fillsBehind t x = true →
      k ∈ ks → s.full k = true → Swept t tr s ks

section Step

variable {t : Nat} {tr : Trace (Pool W) (Deed W)} {s s' : Pool W} {e : Deed W} {ks : List Nat}
  (he : e.locks t = false)
include he

theorem Crossed.cons (h : Crossed t tr) : Crossed t ((s, e) :: tr) := by
  obtain ⟨x, y, hsub, hx, hy⟩ := h
  refine ⟨x, y, ?_, hx, hy⟩
  rw [duringPop_cons s tr he]
  exact hsub.cons _

theorem mem_duringPop_cons {x : Pool W × Deed W} (hx : x ∈ duringPop t tr) :
    x ∈ duringPop t ((s, e) :: tr) := by
  rw [duringPop_cons s tr he]
  exact List.mem_cons_of_mem _ hx

theorem self_mem_duringPop : (s, e) ∈ duringPop t ((s, e) :: tr) := by
  rw [duringPop_cons s tr he]
  exact List.mem_cons_self

/-- Nothing is filled or emptied, and the scan passes no full slot. -/
theorem Swept.pass {js : List Nat} (hfull : ∀ k, s'.full k = s.full k)
    (hjs : ∀ k ∈ ks, s.full k = true → k ∈ js) (hi : Swept t tr s ks) :
    Swept t ((s, e) :: tr) s' js := by
  cases hi with
  | seen hx hz => exact .seen (mem_duringPop_cons he hx) hz
  | crossed h => exact .crossed (h.cons he)
  | ahead hall =>
      refine .ahead fun k hk => ?_
      rw [hfull] at hk
      exact hjs k (hall k hk) hk
  | left hx hb hk hf =>
      exact .left (mem_duringPop_cons he hx) hb (hjs _ hk hf) (by rwa [hfull])

/-- A slot is emptied: it was not the one that the scan would have come to, or
that is how it is crossed. -/
theorem Swept.empty {k : Nat} (hself : s'.full k = false)
    (hne : ∀ j, j ≠ k → s'.full j = s.full j)
    (hahead : k ∈ ks → s.full k = true → emptiesAhead t (s, e) = true)
    (hi : Swept t tr s ks) : Swept t ((s, e) :: tr) s' ks := by
  cases hi with
  | seen hx hz => exact .seen (mem_duringPop_cons he hx) hz
  | crossed h => exact .crossed (h.cons he)
  | ahead hall =>
      refine .ahead fun j hj => ?_
      rcases eq_or_ne j k with rfl | hjk
      · rw [hself] at hj
        cases hj
      · exact hall j (by rwa [← hne j hjk])
  | @left x j hx hb hj hf =>
      rcases eq_or_ne j k with rfl | hjk
      · refine .crossed ⟨x, (s, e), ?_, hb, hahead hj hf⟩
        rw [duringPop_cons s tr he]
        exact (List.singleton_sublist.mpr hx).cons_cons _
      · exact .left (mem_duringPop_cons he hx) hb hj (by rwa [hne j hjk])

end Step

/-- A slot is filled: ahead of the scan, or behind it, and then it matters
whether there is anything ahead. -/
theorem Swept.insert {t i k : Nat} {tr : Trace (Pool W) (Deed W)} {s s' : Pool W} {x : W}
    {old : Option W} {ks : List Nat} (hks : s.ahead t = ks) (hself : s'.full k = true)
    (hold : old.isSome = true → s.full k = true) (hne : ∀ j, j ≠ k → s'.full j = s.full j)
    (hi : Swept t tr s ks) : Swept t ((s, .inserted i k x old) :: tr) s' ks := by
  have he : (Deed.inserted i k x old).locks t = false := rfl
  have hgrow : ∀ j, s.full j = true → s'.full j = true := by
    intro j hj
    rcases eq_or_ne j k with rfl | hjk
    · exact hself
    · rwa [hne j hjk]
  cases hi with
  | seen hx hz => exact .seen (mem_duringPop_cons he hx) hz
  | crossed h => exact .crossed (h.cons he)
  | left hx hb hk hf => exact .left (mem_duringPop_cons he hx) hb hk (hgrow _ hf)
  | ahead hall =>
      by_cases hk : k ∈ ks
      · refine .ahead fun j hj => ?_
        rcases eq_or_ne j k with rfl | hjk
        · exact hk
        · exact hall j (by rwa [← hne j hjk])
      · have hfills : fillsBehind t (s, .inserted i k x old) = true := by
          cases old with
          | none => simpa [fillsBehind, hks] using hk
          | some y => exact absurd (hall k (hold rfl)) hk
        by_cases hany : ∃ j ∈ ks, s.full j = true
        · obtain ⟨j, hj, hf⟩ := hany
          exact .left (self_mem_duringPop he) hfills hj (hgrow j hf)
        · refine .seen (self_mem_duringPop he) (size_eq_zero_iff.mpr fun j => ?_)
          exact Bool.eq_false_iff.mpr fun hf => hany ⟨j, hall j hf, hf⟩

/-- Every scan is followed. -/
def Sweeping (tr : Trace (Pool W) (Deed W)) (s : Pool W) : Prop :=
  ∀ (t : Nat) (c : Client W) (ks : List Nat), s.clients[t]? = some c → c.point = .scanning ks →
    Swept t tr s ks

theorem sweeping_step {tr : Trace (Pool W) (Deed W)} {s s' : Pool W} {e : Deed W}
    (hg : Guarded s) (h : Trans s e s') (hi : Sweeping tr s) : Sweeping ((s, e) :: tr) s' := by
  intro t c ks ht hp
  cases h with
  | registered _ _ hr _ | deregistered _ _ hr _ =>
      rcases Ledger.getElem?_set_cases ht with ⟨-, rfl⟩ | ⟨-, hold⟩
      · cases hp
      · have hquiet := hg.quiet hr hold
        rw [hp] at hquiet
        cases hquiet
  | @inserted j k x d old wl _ _ hw =>
      rcases Ledger.getElem?_set_cases ht with ⟨-, rfl⟩ | ⟨-, hold⟩
      · cases hp
      · refine (hi t c ks hold hp).insert (ahead_of_scanning hold hp) (full_of_slot hw.slot_self)
          (fun hsome => ?_) fun i hne => full_eq (hw.slot_ne i hne)
        obtain ⟨y, rfl⟩ := Option.isSome_iff_exists.mp hsome
        exact full_of_slot hw.slot_before
  | @removed j k d old wl _ _ hw =>
      rcases Ledger.getElem?_set_cases ht with ⟨-, rfl⟩ | ⟨-, hold⟩
      · cases hp
      · refine (hi t c ks hold hp).empty rfl (not_full_of_empty hw.slot_self)
          (fun i hne => full_eq (hw.slot_ne i hne)) fun hk hf => ?_
        cases old with
        | none =>
            rw [not_full_of_empty hw.slot_before] at hf
            cases hf
        | some y => simpa [emptiesAhead, ahead_of_scanning hold hp] using hk
  | @took j k js x d wl _ _ hw =>
      rcases Ledger.getElem?_set_cases ht with ⟨-, rfl⟩ | ⟨hne, hold⟩
      · cases hp
      · refine (hi t c ks hold hp).empty rfl (not_full_of_empty hw.slot_self)
          (fun i hne => full_eq (hw.slot_ne i hne)) fun hk _ => ?_
        simpa [emptiesAhead, ahead_of_scanning hold hp, Ne.symm hne] using hk
  | @locked j d _ _ =>
      rcases Ledger.getElem?_set_cases ht with ⟨-, rfl⟩ | ⟨hne, hold⟩
      · cases hp
        exact .ahead fun k hk => mem_keys_of_full hk
      · exact (hi t c ks hold hp).pass (by simpa [Deed.locks] using Ne.symm hne) (fun _ => rfl)
          fun _ hk _ => hk
  | @missed j k js d hd hpd hmiss =>
      rcases Ledger.getElem?_set_cases ht with ⟨rfl, rfl⟩ | ⟨-, hold⟩
      · cases hp
        refine (hi _ d _ hd hpd).pass rfl (fun _ => rfl) fun i hi hf => ?_
        rcases List.mem_cons.mp hi with rfl | hi
        · exact absurd hf (by simp [not_full_of_slot hmiss])
        · exact hi
      · exact (hi t c ks hold hp).pass rfl (fun _ => rfl) fun _ hk _ => hk
  | gaveUp _ _ =>
      rcases Ledger.getElem?_set_cases ht with ⟨-, rfl⟩ | ⟨-, hold⟩
      · cases hp
      · exact (hi t c ks hold hp).pass rfl (fun _ => rfl) fun _ hk _ => hk

theorem sweeping_of_run {ok : Trace (Pool W) (Deed W) → Pool W → Deed W → Prop} {lockFree : Bool}
    {n : Nat} {tr : Trace (Pool W) (Deed W)} {s : Pool W} (hrun : Runs ok lockFree n tr s) :
    Sweeping tr s :=
  hrun.invariant (I := Sweeping)
    (fun t c ks hc hp => by
      rw [(List.mem_replicate.mp (List.mem_of_getElem? hc)).2] at hp
      cases hp)
    fun _ _ _ _ hrun hi hn _ => sweeping_step (guarded_of_run hrun) (trans_of_next hn) hi

/-! ## The empty answer -/

/-- When a pop gives up, there has been an instant since it began at which no
slot held an item, or else it has been crossed. -/
theorem empty_or_crossed_of_gaveUp {ok : Trace (Pool W) (Deed W) → Pool W → Deed W → Prop}
    {lockFree : Bool} {n : Nat} {tr : Trace (Pool W) (Deed W)} {s : Pool W} {t : Nat}
    (hrun : Runs ok lockFree n tr s) (hlast : tr.head?.map Prod.snd = some (.gaveUp t)) :
    (∃ x ∈ duringPop t tr, x.1.waitlist.size = 0) ∨ Crossed t tr := by
  cases hrun with
  | start => cases hlast
  | @step tr u e _ hrun hn _ =>
      obtain rfl : e = .gaveUp t := Option.some.inj hlast
      have he : (Deed.gaveUp t : Deed W).locks t = false := rfl
      cases trans_of_next hn with
      | gaveUp hc hp =>
          cases sweeping_of_run hrun t _ [] hc hp with
          | seen hx hz => exact .inl ⟨_, mem_duringPop_cons he hx, hz⟩
          | crossed h => exact .inr (h.cons he)
          | left _ _ hk _ => cases hk
          | ahead hall =>
              refine .inl ⟨_, self_mem_duringPop he, size_eq_zero_iff.mpr fun k => ?_⟩
              exact Bool.eq_false_iff.mpr fun hf => List.not_mem_nil (hall k hf)

/-- Slot 1 is full when thread 2 begins to pop; slot 0, which it visits first, is
filled when it has been there, and slot 1 is emptied after that. -/
def fillBehindEmptyAhead : List (Act Nat) :=
  [.register 0 0, .register 1 1, .insert 1 1 11, .pop 2, .visit 2, .insert 0 0 10,
    .remove 1 1, .visit 2, .visit 2]

theorem gaveUp_not_linearizable :
    ¬ ∀ (lockFree : Bool) (n : Nat) (tr : Trace (Pool Nat) (Deed Nat)) (s : Pool Nat) (t : Nat),
      Runs Owned lockFree n tr s → tr.head?.map Prod.snd = some (.gaveUp t) →
        ∃ x ∈ duringPop t tr, x.1.waitlist.size = 0 := by
  intro hall
  have hseen := hall true 3 _ _ 2 (runs_schedule Owned true 3 fillBehindEmptyAhead) rfl
  exact absurd hseen (by decide)

theorem empty_or_crossed_in_fillBehindEmptyAhead :
    Crossed 2 (schedule Owned true 3 fillBehindEmptyAhead).1 :=
  (empty_or_crossed_of_gaveUp (runs_schedule ..) rfl).resolve_left (by decide)

end Clients

end RingChannel
