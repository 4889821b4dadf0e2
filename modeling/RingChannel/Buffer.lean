/-
# `RingChannel.Buffer` — the message buffer, in its two representations

`RingBuffer::new` picks the representation from the capacity: a single
`AtomicOption` when it is one, an `ArrayQueue` otherwise.  The queue is a third
party's; what is modelled is its documented behaviour, a bounded queue whose
`force_push` on a full queue replaces the oldest element and returns it.

Both representations are the same abstract queue.  `contents` and `capacity`
are the abstraction, and `push_refines` and `pop_refines` say that a push or a
pop answers what `OverQueue` answers and leaves what `OverQueue` leaves.  From
here on nothing looks at the representation again.
-/
import RingChannel.Atomic
import RingChannel.Lib.OverQueue
import Mathlib.Data.List.Basic

namespace RingChannel

/-- `crossbeam_queue::ArrayQueue`: at most `cap` elements, the oldest first. -/
structure ArrayQueue (α : Type) where
  cap : Nat
  items : List α
  cap_pos : 0 < cap
  len_le : items.length ≤ cap

namespace ArrayQueue

variable {α : Type}

def new (cap : Nat) (h : 0 < cap) : ArrayQueue α := ⟨cap, [], h, Nat.zero_le cap⟩

def forcePush (q : ArrayQueue α) (v : α) : Option α × ArrayQueue α :=
  if h : q.items.length < q.cap then
    (none, { q with
      items := q.items ++ [v]
      len_le := by simpa using Nat.succ_le_of_lt h })
  else
    (q.items.head?, { q with
      items := q.items.tail ++ [v]
      len_le := by
        have hpos := q.cap_pos
        have hle := q.len_le
        simp only [List.length_append, List.length_tail, List.length_cons, List.length_nil]
        omega })

def pop (q : ArrayQueue α) : Option α × ArrayQueue α :=
  (q.items.head?, { q with
    items := q.items.tail
    len_le := by
      have hle := q.len_le
      simp only [List.length_tail]
      omega })

end ArrayQueue

inductive RingBuffer (α : Type) where
  | atomic (c : AtomicOption α)
  | queue (q : ArrayQueue α)

namespace RingBuffer

variable {α : Type}

/-- The assertion that the capacity is non-zero is the hypothesis. -/
def new (lockFree : Bool) (capacity : Nat) (h : 0 < capacity) : RingBuffer α :=
  if capacity = 1 then .atomic (.new lockFree) else .queue (.new capacity h)

def capacity : RingBuffer α → Nat
  | .atomic _ => 1
  | .queue q => q.cap

def push (b : RingBuffer α) (v : α) : Option α × RingBuffer α :=
  match b with
  | .atomic c => ((c.swap v).1, .atomic (c.swap v).2)
  | .queue q => ((q.forcePush v).1, .queue (q.forcePush v).2)

def pop : RingBuffer α → Option α × RingBuffer α
  | .atomic c => (c.take.1, .atomic c.take.2)
  | .queue q => (q.pop.1, .queue q.pop.2)

/-- The pending messages, the oldest first. -/
def contents : RingBuffer α → List α
  | .atomic c => c.item.toList
  | .queue q => q.items

/-! ## Both representations are the overwriting queue -/

@[simp] theorem contents_new (lockFree : Bool) (n : Nat) (h : 0 < n) :
    (new lockFree n h : RingBuffer α).contents = [] := by
  unfold new
  split <;> simp [contents, ArrayQueue.new]

@[simp] theorem capacity_new (lockFree : Bool) (n : Nat) (h : 0 < n) :
    (new lockFree n h : RingBuffer α).capacity = n := by
  unfold new
  split
  · rename_i hn
    simp [capacity, hn]
  · rfl

theorem capacity_pos (b : RingBuffer α) : 0 < b.capacity := by
  cases b with
  | atomic c => exact Nat.one_pos
  | queue q => exact q.cap_pos

theorem length_contents_le (b : RingBuffer α) : b.contents.length ≤ b.capacity := by
  cases b with
  | atomic c => cases h : c.item <;> simp [contents, capacity, h]
  | queue q => exact q.len_le

theorem push_refines (b : RingBuffer α) (v : α) :
    ((b.push v).1, (b.push v).2.contents) = OverQueue.push b.capacity b.contents v := by
  cases b with
  | atomic c =>
      cases h : c.item <;> simp [push, contents, capacity, OverQueue.push, h]
  | queue q =>
      simp only [push, contents, capacity, OverQueue.push, ArrayQueue.forcePush]
      by_cases h : q.items.length < q.cap
      · simp only [h, dif_pos, if_pos]
      · simp only [h, dif_neg, if_neg, not_false_eq_true]

theorem pop_refines (b : RingBuffer α) :
    (b.pop.1, b.pop.2.contents) = OverQueue.pop b.contents := by
  cases b with
  | atomic c => cases h : c.item <;> simp [pop, contents, OverQueue.pop, h]
  | queue q => rfl

@[simp] theorem capacity_push (b : RingBuffer α) (v : α) :
    (b.push v).2.capacity = b.capacity := by
  cases b with
  | atomic c => rfl
  | queue q =>
      simp only [push, capacity, ArrayQueue.forcePush]
      split <;> rfl

@[simp] theorem capacity_pop (b : RingBuffer α) : b.pop.2.capacity = b.capacity := by
  cases b <;> rfl

theorem push_fst (b : RingBuffer α) (v : α) :
    (b.push v).1 = (OverQueue.push b.capacity b.contents v).1 :=
  congrArg Prod.fst (push_refines b v)

theorem contents_push (b : RingBuffer α) (v : α) :
    (b.push v).2.contents = (OverQueue.push b.capacity b.contents v).2 :=
  congrArg Prod.snd (push_refines b v)

theorem pop_fst (b : RingBuffer α) : b.pop.1 = b.contents.head? :=
  congrArg Prod.fst (pop_refines b)

theorem contents_pop (b : RingBuffer α) : b.pop.2.contents = b.contents.tail :=
  congrArg Prod.snd (pop_refines b)

/-- The answers to a sequence of pushes (`some`) and pops (`none`). -/
def replay : RingBuffer α → List (Option α) → List (Option α)
  | _, [] => []
  | b, some v :: ops => (b.push v).1 :: (b.push v).2.replay ops
  | b, none :: ops => b.pop.1 :: b.pop.2.replay ops

theorem replay_refines (ops : List (Option α)) :
    ∀ b : RingBuffer α, b.replay ops = OverQueue.replay b.capacity b.contents ops := by
  induction ops with
  | nil => intro b; rfl
  | cons op ops ih =>
      intro b
      cases op with
      | some v =>
          simp only [replay, OverQueue.replay, ih, capacity_push, contents_push]
          rw [push_fst]
      | none =>
          simp only [replay, OverQueue.replay, ih, capacity_pop, contents_pop]
          rw [pop_fst]
          rfl

/-! ## Each outcome of a push or a pop, on its own -/

theorem contents_of_push_none {b : RingBuffer α} {v : α} (h : (b.push v).1 = none) :
    (b.push v).2.contents = b.contents ++ [v] := by
  have hfst := b.push_fst v
  rw [contents_push]
  rw [h] at hfst
  unfold OverQueue.push at hfst ⊢
  split
  · rfl
  · -- a full buffer is not empty, so something would have been handed back
    rename_i hfull
    have hpos := b.capacity_pos
    cases hc : b.contents with
    | nil =>
        rw [hc] at hfull
        exact absurd hpos hfull
    | cons x q =>
        rw [if_neg hfull, hc] at hfst
        cases hfst

theorem contents_of_push_some {b : RingBuffer α} {v x : α} (h : (b.push v).1 = some x) :
    b.contents = x :: b.contents.tail ∧
      (b.push v).2.contents = b.contents.tail ++ [v] := by
  have hfst := b.push_fst v
  rw [contents_push]
  rw [h] at hfst
  unfold OverQueue.push at hfst ⊢
  split
  · rename_i hroom
    simp [hroom] at hfst
  · rename_i hfull
    simp only [hfull, if_false] at hfst
    exact ⟨List.eq_cons_of_mem_head? hfst.symm, rfl⟩

theorem contents_of_pop_some {b : RingBuffer α} {m : α} (h : b.pop.1 = some m) :
    b.contents = m :: b.pop.2.contents := by
  rw [pop_fst] at h
  rw [contents_pop]
  exact List.eq_cons_of_mem_head? h

theorem contents_of_pop_none {b : RingBuffer α} (h : b.pop.1 = none) :
    b.contents = [] ∧ b.pop.2.contents = [] := by
  rw [pop_fst] at h
  rw [contents_pop, List.head?_eq_none_iff.mp h]
  exact ⟨rfl, rfl⟩

end RingBuffer

end RingChannel
