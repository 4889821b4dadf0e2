/-
# `RingChannel.Lib.Exchanger` — many parties that put an item in and get one out

An exchanger is a container known by what it holds.  Putting an item in may hand
one back at once; getting one out fails only when nothing is held.  A party
works through a list of items in rounds: it puts the next one in, and if nothing
is handed back, it gets one out.

Other parties get in between, and take what this one has put in.  No round comes
up empty all the same: whoever has put an item in and has not got one back is
owed one, and the container holds, beyond what it held at the start, as many
items as are owed (`Balanced`).
-/
import RingChannel.Lib.Ledger
import RingChannel.Lib.Run
import Mathlib.Algebra.Order.Group.Multiset
import Mathlib.Tactic.Abel

variable {α β : Type}

/-- A container with its two operations and what it holds. -/
structure Exchanger (α β : Type) where
  put : β → α → Option α × β
  get : β → Option α × β
  holds : β → Multiset α
  put_none : ∀ {b : β} {a : α}, (put b a).1 = none → holds (put b a).2 = holds b + {a}
  put_some : ∀ {b : β} {a x : α}, (put b a).1 = some x → holds (put b a).2 + {x} = holds b + {a}
  get_none : ∀ {b : β}, (get b).1 = none → holds b = 0
  get_some : ∀ {b : β} {x : α}, (get b).1 = some x → holds (get b).2 + {x} = holds b

namespace Exchanger

/-- A party: the items it has yet to put in, whether it is owed one, and what
its rounds have come up with. -/
structure Party (α : Type) where
  todo : List α
  owed : Bool
  got : List (Option α)

structure Pool (α β : Type) where
  store : β
  parties : List (Party α)

def Pool.start (b : β) (items : List (List α)) : Pool α β where
  store := b
  parties := items.map fun as => ⟨as, false, []⟩

/-- The next operation of party `i`, which is shown with its answer. -/
def step (x : Exchanger α β) (s : Pool α β) (i : Nat) : Option ((Nat × Option α) × Pool α β) :=
  match s.parties[i]? with
  | some ⟨todo, true, got⟩ =>
      some ((i, (x.get s.store).1),
        ⟨(x.get s.store).2, s.parties.set i ⟨todo, false, got ++ [(x.get s.store).1]⟩⟩)
  | some ⟨a :: todo, false, got⟩ =>
      match x.put s.store a with
      | (none, b) => some ((i, none), ⟨b, s.parties.set i ⟨todo, true, got⟩⟩)
      | (some y, b) => some ((i, some y), ⟨b, s.parties.set i ⟨todo, false, got ++ [some y]⟩⟩)
  | _ => none

/-- The runs of the parties that work through `items`. -/
abbrev Runs (x : Exchanger α β) (b : β) (items : List (List α)) :
    Trace (Pool α β) (Nat × Option α) → Pool α β → Prop :=
  Run (Next x.step) Free (.start b items)

/-- The run that the given choices make. -/
def schedule (x : Exchanger α β) (b : β) (items : List (List α)) (as : List Nat) :
    Trace (Pool α β) (Nat × Option α) × Pool α β :=
  play x.step Free [] (.start b items) as

theorem runs_schedule (x : Exchanger α β) (b : β) (items : List (List α)) (as : List Nat) :
    x.Runs b items (x.schedule b items as).1 (x.schedule b items as).2 :=
  Run.of_play as .start

/-! ## Everything a step can do -/

inductive Trans (x : Exchanger α β) (s : Pool α β) : Pool α β → Prop
  | get {i : Nat} {todo : List α} {got : List (Option α)} :
      s.parties[i]? = some ⟨todo, true, got⟩ →
      Trans x s ⟨(x.get s.store).2, s.parties.set i ⟨todo, false, got ++ [(x.get s.store).1]⟩⟩
  | putNone {i : Nat} {a : α} {todo : List α} {got : List (Option α)} :
      s.parties[i]? = some ⟨a :: todo, false, got⟩ → (x.put s.store a).1 = none →
      Trans x s ⟨(x.put s.store a).2, s.parties.set i ⟨todo, true, got⟩⟩
  | putSome {i : Nat} {a y : α} {todo : List α} {got : List (Option α)} :
      s.parties[i]? = some ⟨a :: todo, false, got⟩ → (x.put s.store a).1 = some y →
      Trans x s ⟨(x.put s.store a).2, s.parties.set i ⟨todo, false, got ++ [some y]⟩⟩

theorem trans_of_next {x : Exchanger α β} {s s' : Pool α β} {e : Nat × Option α}
    (h : Next x.step s e s') : Trans x s s' := by
  obtain ⟨i, hi⟩ := h
  simp only [step] at hi
  split at hi
  · rename_i hc
    cases hi
    exact .get hc
  · rename_i a todo got hc
    split at hi
    · rename_i b hput
      cases hi
      have := Trans.putNone (x := x) hc (congrArg Prod.fst hput)
      rwa [hput] at this
    · rename_i y b hput
      cases hi
      have := Trans.putSome (x := x) hc (congrArg Prod.fst hput)
      rwa [hput] at this
  · cases hi

/-! ## What is owed -/

namespace Party

/-- The items that the rounds have come up with. -/
def received (p : Party α) : Multiset α := (p.got.filterMap id : List α)

def given (p : Party α) : Multiset α := (p.todo : Multiset α)

/-- The operations that are left to do, at most. -/
def left (p : Party α) : Nat := 2 * p.todo.length + p.owed.toNat

/-- Nothing is left to do. -/
def finished (p : Party α) : Bool := p.todo.isEmpty && !p.owed

theorem received_concat (todo : List α) (owed owed' : Bool) (got : List (Option α)) (y : α) :
    (Party.mk todo owed (got ++ [some y])).received
      = (Party.mk todo owed' got).received + {y} := by
  simp only [received, List.filterMap_append, ← Multiset.coe_add]
  rfl

theorem given_cons (a : α) (todo : List α) (owed owed' : Bool) (got got' : List (Option α)) :
    (Party.mk (a :: todo) owed got).given = (Party.mk todo owed' got').given + {a} := by
  simp only [given, ← Multiset.cons_coe, ← Multiset.singleton_add]
  exact add_comm _ _

end Party

namespace Pool

def owed (s : Pool α β) : Nat := Ledger.total (fun _ p => p.owed.toNat) s.parties

def received (s : Pool α β) : Multiset α := Ledger.total (fun _ => Party.received) s.parties

def given (s : Pool α β) : Multiset α := Ledger.total (fun _ => Party.given) s.parties

def left (s : Pool α β) : Nat := Ledger.total (fun _ => Party.left) s.parties

end Pool

/-- Beyond the `k` items of the start, the container holds as many as are owed;
no round has come up empty; and what was there and what has been put in is there,
or has been got out. -/
structure Balanced (x : Exchanger α β) (k : Nat) (all : Multiset α) (s : Pool α β) : Prop where
  owed : (x.holds s.store).card = k + s.owed
  full : ∀ p ∈ s.parties, none ∉ p.got
  kept : s.received + s.given + x.holds s.store = all

section Step

variable {x : Exchanger α β} {s s' : Pool α β}

/-- Who is owed an item finds one. -/
theorem get_of_owed {k : Nat} {all : Multiset α} (hi : Balanced x k all s) {i : Nat} {p : Party α}
    (hp : s.parties[i]? = some p) (ho : p.owed = true) : ∃ y, (x.get s.store).1 = some y := by
  cases hget : (x.get s.store).1 with
  | some y => exact ⟨y, rfl⟩
  | none =>
      have hle : p.owed.toNat ≤ s.owed := Ledger.le_total (f := fun _ p => Bool.toNat p.owed) hp
      have hcard := hi.owed
      rw [x.get_none hget, Multiset.card_zero] at hcard
      rw [ho, Bool.toNat_true] at hle
      omega

/-- A party moves from `p` to `q`, and the container to `b`. -/
theorem balanced_move {k : Nat} {all : Multiset α} (hi : Balanced x k all s) {i : Nat}
    {p q : Party α} {b : β} (hp : s.parties[i]? = some p)
    (howed : (x.holds b).card + p.owed.toNat = (x.holds s.store).card + q.owed.toNat)
    (hfull : none ∉ p.got → none ∉ q.got)
    (hkept : q.received + q.given + x.holds b = p.received + p.given + x.holds s.store) :
    Balanced x k all ⟨b, s.parties.set i q⟩ where
  owed := by
    have hset : Ledger.total (fun _ p => Bool.toNat p.owed) (s.parties.set i q) + p.owed.toNat
        = s.owed + q.owed.toNat := Ledger.total_set q hp fun _ _ _ _ => rfl
    have hold := hi.owed
    show (x.holds b).card = k + Ledger.total (fun _ p => Bool.toNat p.owed) (s.parties.set i q)
    omega
  full r hr := by
    rcases List.mem_or_eq_of_mem_set hr with hold | rfl
    · exact hi.full r hold
    · exact hfull (hi.full p (List.mem_of_getElem? hp))
  kept := by
    obtain ⟨r, hr, hset⟩ := Ledger.total_split (fun _ => Party.received) hp
    obtain ⟨g, hg, hgset⟩ := Ledger.total_split (fun _ => Party.given) hp
    have hold := hi.kept
    unfold Pool.received Pool.given at hold ⊢
    rw [hr, hg] at hold
    rw [hset q, hgset q, ← hold]
    calc q.received + r + (q.given + g) + x.holds b
        = q.received + q.given + x.holds b + (r + g) := by abel
      _ = p.received + p.given + x.holds s.store + (r + g) := by rw [hkept]
      _ = p.received + r + (p.given + g) + x.holds s.store := by abel

theorem balanced_step {k : Nat} {all : Multiset α} (h : Trans x s s') (hi : Balanced x k all s) :
    Balanced x k all s' := by
  cases h with
  | @get i todo got hp =>
      obtain ⟨y, hy⟩ := get_of_owed hi hp rfl
      have hholds := x.get_some hy
      rw [hy]
      refine balanced_move hi hp ?_ (fun hnone => ?_) ?_
      · rw [← hholds, Multiset.card_add, Multiset.card_singleton]
        rfl
      · simp [hnone]
      · rw [Party.received_concat todo false true, ← hholds]
        show _ + {y} + Party.given ⟨todo, true, got⟩ + _ = _
        abel
  | @putNone i a todo got hp hput =>
      have hholds := x.put_none hput
      refine balanced_move hi hp ?_ (fun hnone => hnone) ?_
      · rw [hholds, Multiset.card_add, Multiset.card_singleton]
        rfl
      · rw [hholds, Party.given_cons a]
        show Party.received ⟨a :: todo, false, got⟩ + _ + _ = _
        abel
  | @putSome i a y todo got hp hput =>
      have hholds := x.put_some hput
      have hcard := congrArg Multiset.card hholds
      simp only [Multiset.card_add, Multiset.card_singleton] at hcard
      refine balanced_move hi hp (by simpa using hcard) (fun hnone => by simp [hnone]) ?_
      rw [Party.received_concat todo false false, Party.given_cons a]
      calc Party.received ⟨todo, false, got⟩ + {y} + Party.given ⟨todo, false, got ++ [some y]⟩
            + x.holds (x.put s.store a).2
          = Party.received ⟨todo, false, got⟩ + Party.given ⟨todo, false, got⟩
            + (x.holds (x.put s.store a).2 + {y}) := by
              show _ + _ + Party.given ⟨todo, false, got⟩ + _ = _
              abel
        _ = _ := by
              rw [hholds]
              show _ = Party.received ⟨todo, false, got⟩ + _ + _
              abel

end Step

theorem given_start (b : β) : ∀ items : List (List α),
    (Pool.start b items).given = (items.flatten : Multiset α)
  | [] => rfl
  | as :: items => by
      have ih := given_start b items
      simp only [List.flatten_cons, ← Multiset.coe_add, ← ih]
      rfl

section Run

variable {x : Exchanger α β} {b : β} {items : List (List α)}
  {tr : Trace (Pool α β) (Nat × Option α)} {s : Pool α β}

theorem balanced_start (x : Exchanger α β) (b : β) (items : List (List α)) :
    Balanced x (x.holds b).card ((items.flatten : Multiset α) + x.holds b)
      (Pool.start b items) where
  owed := by
    have hzero : (Pool.start b items).owed = 0 := by
      refine Ledger.total_eq_zero fun i p hp => ?_
      obtain ⟨as, -, rfl⟩ := List.mem_map.mp (List.mem_of_getElem? hp)
      rfl
    rw [hzero]
    rfl
  full p hp := by
    obtain ⟨as, -, rfl⟩ := List.mem_map.mp hp
    exact List.not_mem_nil
  kept := by
    have hzero : (Pool.start b items).received = 0 := by
      refine Ledger.total_eq_zero fun i p hp => ?_
      obtain ⟨as, -, rfl⟩ := List.mem_map.mp (List.mem_of_getElem? hp)
      rfl
    rw [hzero, zero_add, given_start]
    rfl

theorem balanced_of_run (hrun : x.Runs b items tr s) :
    Balanced x (x.holds b).card ((items.flatten : Multiset α) + x.holds b) s :=
  hrun.invariant (I := fun _ s => Balanced x (x.holds b).card _ s) (balanced_start x b items)
    fun _ _ _ _ _ hi hn _ => balanced_step (trans_of_next hn) hi

/-- When all parties have finished, the container holds as many items as at the
start, and the rest has been got out. -/
theorem received_of_finished (hrun : x.Runs b items tr s)
    (hfin : ∀ p ∈ s.parties, p.finished = true) :
    (x.holds s.store).card = (x.holds b).card ∧
      s.received + x.holds s.store = (items.flatten : Multiset α) + x.holds b := by
  have hi := balanced_of_run hrun
  have hdone : ∀ (i : Nat) (p : Party α), s.parties[i]? = some p →
      p.todo = [] ∧ p.owed = false := by
    intro i p hp
    have := hfin p (List.mem_of_getElem? hp)
    simpa [Party.finished] using this
  have howed : s.owed = 0 := Ledger.total_eq_zero fun i p hp => by rw [(hdone i p hp).2]; rfl
  have hgiven : s.given = 0 :=
    Ledger.total_eq_zero fun i p hp => by rw [Party.given, (hdone i p hp).1]; rfl
  refine ⟨by rw [hi.owed, howed]; rfl, ?_⟩
  have hkept := hi.kept
  rwa [hgiven, add_zero] at hkept

/-- From an empty container: it holds what is owed, and in the end it is empty
again and everything has been got out. -/
theorem served_of_empty (hempty : x.holds b = 0) (hrun : x.Runs b items tr s) :
    (x.holds s.store).card = s.owed ∧
      ((∀ p ∈ s.parties, p.finished = true) →
        x.holds s.store = 0 ∧ s.received = (items.flatten : Multiset α)) := by
  have howed := (balanced_of_run hrun).owed
  rw [hempty, Multiset.card_zero, Nat.zero_add] at howed
  refine ⟨howed, fun hfin => ?_⟩
  obtain ⟨hcard, hreceived⟩ := received_of_finished hrun hfin
  rw [hempty, Multiset.card_zero] at hcard
  have hnil := Multiset.card_eq_zero.mp hcard
  rw [hempty, hnil, add_zero, add_zero] at hreceived
  exact ⟨hnil, hreceived⟩

end Run

end Exchanger
