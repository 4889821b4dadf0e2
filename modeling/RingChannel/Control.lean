/-
# `RingChannel.Control` — the block that all endpoints of a channel share

Two counters, one flag, the buffer and the waitlist.  The counters are of an
arbitrary type `N`: the interleaving model counts in `Nat`, which is what the
machine words are as long as fewer endpoints exist than they can count, and
the study of the words' limit counts in bit vectors.
-/
import RingChannel.Buffer
import RingChannel.Waitlist

namespace RingChannel

/-- A waker, as the waitlist sees it: the one that call number `call` passed to
the polls it made, put into the slot `slot` of its receiver. -/
structure Waker where
  slot : Nat
  call : Nat
deriving DecidableEq

structure ControlBlock (N T : Type) where
  senders : N
  receivers : N
  connected : Bool
  buffer : RingBuffer T
  waitlist : Waitlist Waker

/-- What depends on the types and the target rather than on the client:
whether the cells of messages and of wakers are lock-free. -/
structure Layout where
  message : Bool
  waker : Bool

namespace ControlBlock

variable {N T : Type}

def new [OfNat N 1] (lay : Layout) (capacity : Nat) (h : 0 < capacity) : ControlBlock N T where
  senders := 1
  receivers := 1
  connected := true
  buffer := .new lay.message capacity h
  waitlist := .new lay.waker

end ControlBlock

end RingChannel
