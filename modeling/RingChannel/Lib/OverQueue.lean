/-
# `RingChannel.Lib.OverQueue` — the bounded queue that overwrites its oldest element

The abstract object: a first-in-first-out queue of at most `c` elements.
Pushing never fails; on a full queue it drops the oldest element and hands it
back to whoever pushes.

`Account` is the same queue with its history: what has entered, in order, and
what has left, in order, together with where it went — to a taker `b`, or back
to a pusher.  The law of the queue is one equation, `Account.Fair`: what has
entered is what has left followed by what is still pending.  That elements of
one origin reach one taker in the order they entered is a consequence
(`Account.Fair.received_sublist`), because taking a sublist forgets the
elements that went elsewhere but never reorders the others.
-/
import Mathlib.Data.List.DropRight
import Mathlib.Tactic.Common

namespace OverQueue

variable {α β : Type}

/-- Push on a queue of capacity `c`: the answer is the element that had to go. -/
def push (c : Nat) (q : List α) (a : α) : Option α × List α :=
  if q.length < c then (none, q ++ [a]) else (q.head?, q.tail ++ [a])

/-- Pop: the answer is the oldest element, if there is one. -/
def pop (q : List α) : Option α × List α := (q.head?, q.tail)

theorem push_length {c : Nat} (hc : 0 < c) {q : List α} (hq : q.length ≤ c) (a : α) :
    (push c q a).2.length = min (q.length + 1) c := by
  unfold push
  split
  · simp only [List.length_append, List.length_cons, List.length_nil]
    omega
  · simp only [List.length_append, List.length_tail, List.length_cons, List.length_nil]
    omega

theorem push_length_le {c : Nat} (hc : 0 < c) {q : List α} (hq : q.length ≤ c) (a : α) :
    (push c q a).2.length ≤ c := by
  rw [push_length hc hq a]
  exact Nat.min_le_right _ _

/-- The pusher is handed something back exactly when the queue is full, and
then it is the oldest element. -/
theorem push_answer {c : Nat} {q : List α} (hq : q.length ≤ c) (a x : α) :
    (push c q a).1 = some x ↔ q.length = c ∧ q.head? = some x := by
  unfold push
  split
  · constructor
    · intro h
      cases h
    · rintro ⟨h, -⟩
      omega
  · exact ⟨fun h => ⟨by omega, h⟩, fun h => h.2⟩

theorem push_map (f : α → β) (c : Nat) (q : List α) (a : α) :
    push c (q.map f) (f a) = ((push c q a).1.map f, (push c q a).2.map f) := by
  unfold push
  rw [List.length_map]
  split <;> simp

theorem pop_map (f : α → β) (q : List α) :
    pop (q.map f) = ((pop q).1.map f, (pop q).2.map f) := by
  simp [pop]

/-- The answers to a sequence of pushes (`some`) and pops (`none`). -/
def replay (c : Nat) : List α → List (Option α) → List (Option α)
  | _, [] => []
  | q, some a :: ops => (push c q a).1 :: replay c (push c q a).2 ops
  | q, none :: ops => (pop q).1 :: replay c (pop q).2 ops

/-! ## A whole list of pushes -/

/-- Push the elements one after the other: what is handed back, in order, and
the queue that remains. -/
def pushAll (c : Nat) : List α → List α → List α × List α
  | q, [] => ([], q)
  | q, a :: as =>
      ((push c q a).1.toList ++ (pushAll c (push c q a).2 as).1, (pushAll c (push c q a).2 as).2)

theorem push_append {c : Nat} (hc : 0 < c) {q : List α} (hq : q.length ≤ c) (a : α) :
    (push c q a).1.toList ++ (push c q a).2 = q ++ [a] := by
  unfold push
  split
  · rfl
  · cases q with
    | nil =>
        rename_i hfull
        exact absurd hc hfull
    | cons x q => rfl

/-- Nothing is lost, and nothing overtakes. -/
theorem pushAll_append {c : Nat} (hc : 0 < c) : ∀ (as : List α) {q : List α}, q.length ≤ c →
    (pushAll c q as).1 ++ (pushAll c q as).2 = q ++ as
  | [], q, _ => by simp [pushAll]
  | a :: as, q, hq => by
      have hrest := pushAll_append hc as (push_length_le hc hq a)
      simp only [pushAll, List.append_assoc, hrest]
      rw [← List.append_assoc, push_append hc hq a, List.append_assoc]
      rfl

theorem pushAll_length {c : Nat} (hc : 0 < c) : ∀ (as : List α) {q : List α}, q.length ≤ c →
    (pushAll c q as).2.length = min (q.length + as.length) c
  | [], q, hq => by simp [pushAll, hq]
  | a :: as, q, hq => by
      have hrest := pushAll_length hc as (push_length_le hc hq a)
      rw [push_length hc hq a] at hrest
      simp only [pushAll, hrest, List.length_cons]
      omega

/-- What remains is the end of the list of all elements, as much as fits. -/
theorem pushAll_rtake {c : Nat} (hc : 0 < c) (as : List α) {q : List α} (hq : q.length ≤ c) :
    (pushAll c q as).2 = (q ++ as).rtake (min (q.length + as.length) c) := by
  have happend := pushAll_append hc as hq
  have hlen := congrArg List.length happend
  rw [List.length_append, pushAll_length hc as hq] at hlen
  rw [List.rtake, ← happend, List.length_append, pushAll_length hc as hq, Nat.add_sub_cancel,
    List.drop_left]

/-- As much is handed back as does not fit. -/
theorem pushAll_handed {c : Nat} (hc : 0 < c) (as : List α) {q : List α} (hq : q.length ≤ c) :
    (pushAll c q as).1.length = q.length + as.length - c := by
  have hlen := congrArg List.length (pushAll_append hc as hq)
  rw [List.length_append, List.length_append, pushAll_length hc as hq] at hlen
  omega

/-! ## The queue with its history -/

/-- The pending elements, what has entered, and what has left, each with the
taker it went to (`none`: handed back to a pusher). -/
structure Account (α β : Type) where
  queue : List α
  entered : List α
  left : List (α × Option β)

namespace Account

def start : Account α β := ⟨[], [], []⟩

def push (c : Nat) (s : Account α β) (a : α) : Account α β where
  queue := (OverQueue.push c s.queue a).2
  entered := s.entered ++ [a]
  left := s.left ++ (OverQueue.push c s.queue a).1.toList.map fun x => (x, none)

def pop (s : Account α β) (b : β) : Account α β where
  queue := (OverQueue.pop s.queue).2
  entered := s.entered
  left := s.left ++ (OverQueue.pop s.queue).1.toList.map fun x => (x, some b)

/-- What the taker `b` has received, in the order it received it. -/
def received [DecidableEq β] (s : Account α β) (b : β) : List α :=
  (s.left.filter fun p => p.2 = some b).map Prod.fst

/-- The law of the queue: nothing overtakes, nothing is lost or invented, and
the bound is kept. -/
structure Fair (c : Nat) (s : Account α β) : Prop where
  order : s.left.map Prod.fst ++ s.queue = s.entered
  bounded : s.queue.length ≤ c

theorem fair_start (c : Nat) : Fair c (start : Account α β) :=
  ⟨rfl, Nat.zero_le c⟩

theorem Fair.push {c : Nat} (hc : 0 < c) {s : Account α β} (h : Fair c s) (a : α) :
    Fair c (s.push c a) := by
  refine ⟨?_, push_length_le hc h.bounded a⟩
  have horder := h.order
  simp only [Account.push, OverQueue.push]
  split
  · simp [← horder]
  · cases hq : s.queue with
    | nil =>
        have := h.bounded
        simp_all
    | cons x q => simp [← horder, hq]

theorem Fair.pop {c : Nat} {s : Account α β} (h : Fair c s) (b : β) : Fair c (s.pop b) := by
  have horder := h.order
  have hbound := h.bounded
  constructor
  · simp only [Account.pop, OverQueue.pop]
    cases hq : s.queue with
    | nil => simp [← horder, hq]
    | cons x q => simp [← horder, hq]
  · simp only [Account.pop, OverQueue.pop, List.length_tail]
    omega

/-- What one taker received, restricted to any kind of element, is in the
order in which the elements of that kind entered. -/
theorem Fair.received_sublist [DecidableEq β] {c : Nat} {s : Account α β} (h : Fair c s) (b : β)
    (p : α → Bool) : ((s.received b).filter p).Sublist (s.entered.filter p) := by
  refine List.Sublist.filter p ?_
  rw [← h.order]
  exact ((List.filter_sublist).map Prod.fst).trans (List.sublist_append_left _ _)

end Account

end OverQueue
