/-
# `RingChannel.Atomic` — a cell that holds at most one item

`AtomicOption` is an `AtomicCell` around an `Option`, in one of two layouts:
`Small` keeps the item in the cell itself, and `Large` boxes it, for the types
that have no lock-free cell.  Which of the two a type gets is a property of the
type and the target, so it is a parameter here (`lockFree`).

`take` and `swap` are single atomic operations; each answers with the item that
was in the cell.  Nothing else about the layout is visible: both operations are
determined by `item`.
-/
import Mathlib.Tactic.Common

namespace RingChannel

/-- `Box<T>`. -/
structure Boxed (α : Type) where
  val : α
deriving DecidableEq

inductive AtomicOption (α : Type) where
  | small (cell : Option α)
  | large (cell : Option (Boxed α))
deriving DecidableEq

namespace AtomicOption

variable {α : Type}

def new (lockFree : Bool) : AtomicOption α :=
  if lockFree then .small none else .large none

/-- What the cell holds. -/
def item : AtomicOption α → Option α
  | .small c => c
  | .large c => c.map Boxed.val

def take : AtomicOption α → Option α × AtomicOption α
  | .small c => (c, .small none)
  | .large c => (c.map Boxed.val, .large none)

def swap (x : α) : AtomicOption α → Option α × AtomicOption α
  | .small c => (c, .small (some x))
  | .large c => (c.map Boxed.val, .large (some ⟨x⟩))

def intoInner : AtomicOption α → Option α
  | .small c => c
  | .large c => c.map Boxed.val

@[simp] theorem item_new (lockFree : Bool) : (new lockFree : AtomicOption α).item = none := by
  cases lockFree <;> rfl

@[simp] theorem take_fst (a : AtomicOption α) : a.take.1 = a.item := by
  cases a <;> rfl

@[simp] theorem item_take (a : AtomicOption α) : a.take.2.item = none := by
  cases a <;> rfl

@[simp] theorem swap_fst (x : α) (a : AtomicOption α) : (a.swap x).1 = a.item := by
  cases a <;> rfl

@[simp] theorem item_swap (x : α) (a : AtomicOption α) : (a.swap x).2.item = some x := by
  cases a <;> rfl

@[simp] theorem intoInner_eq (a : AtomicOption α) : a.intoInner = a.item := by
  cases a <;> rfl

end AtomicOption

end RingChannel
