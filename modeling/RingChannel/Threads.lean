/-
# `RingChannel.Threads` — the cell and the buffer, without the channel around them

The tests `atomic_option_is_linearizable` and `buffer_is_linearizable` share one
of them among threads that swap an item in and, if none comes out, take one.
Both are exchangers, so no thread comes away with nothing, however their
operations interleave, and nothing is left behind.

The buffer may be smaller than the number of threads: a push on a full buffer
hands back the oldest item, and that is an answer as well.
-/
import RingChannel.Buffer
import RingChannel.Lib.Exchanger

namespace RingChannel

variable {α : Type}

def AtomicOption.exchanger : Exchanger α (AtomicOption α) where
  put c a := c.swap a
  get c := c.take
  holds c := (c.item.toList : Multiset α)
  put_none {c a} h := by
    rw [swap_fst] at h
    rw [item_swap, h]
    rfl
  put_some {c a x} h := by
    rw [swap_fst] at h
    rw [item_swap, h]
    exact add_comm _ _
  get_none {c} h := by
    rw [take_fst] at h
    rw [h]
    rfl
  get_some {c x} h := by
    rw [take_fst] at h
    rw [item_take, h]
    rfl

def RingBuffer.exchanger : Exchanger α (RingBuffer α) where
  put b a := b.push a
  get b := b.pop
  holds b := (b.contents : Multiset α)
  put_none h := by
    rw [contents_of_push_none h]
    rfl
  put_some {b a x} h := by
    obtain ⟨hbefore, hafter⟩ := contents_of_push_some h
    rw [hafter, ← Multiset.coe_add, Multiset.coe_singleton, hbefore, List.tail_cons,
      ← Multiset.cons_coe, ← Multiset.singleton_add]
    abel
  get_none h := by
    rw [(contents_of_pop_none h).1]
    rfl
  get_some {b x} h := by
    rw [contents_of_pop_some h, ← Multiset.cons_coe, ← Multiset.singleton_add]
    exact add_comm _ _

open Exchanger

/-- Threads that swap an item into a cell and, if none comes out, take one: no
round comes up empty, at most one thread is ever owed an item, and when all have
finished, they have got back, between them, what they swapped in. -/
theorem cell_rounds {lockFree : Bool} {items : List (List α)}
    {tr : Trace (Pool α (AtomicOption α)) (Nat × Option α)} {s : Pool α (AtomicOption α)}
    (hrun : AtomicOption.exchanger.Runs (.new lockFree) items tr s) :
    (∀ p ∈ s.parties, none ∉ p.got) ∧ s.owed ≤ 1 ∧
      ((∀ p ∈ s.parties, p.finished = true) →
        s.store.item = none ∧ s.received = (items.flatten : Multiset α)) := by
  have hempty : AtomicOption.exchanger.holds (.new lockFree : AtomicOption α) = 0 := by
    show (((AtomicOption.new lockFree).item.toList : List α) : Multiset α) = 0
    rw [AtomicOption.item_new]
    rfl
  obtain ⟨howed, hdone⟩ := served_of_empty hempty hrun
  refine ⟨(balanced_of_run hrun).full, ?_, fun hfin => ?_⟩
  · rw [← howed]
    show s.store.item.toList.length ≤ 1
    cases s.store.item with
    | none => exact Nat.zero_le 1
    | some a => exact Nat.le_refl 1
  · obtain ⟨hnil, hreceived⟩ := hdone hfin
    have hlen : s.store.item.toList.length = 0 := congrArg Multiset.card hnil
    refine ⟨?_, hreceived⟩
    cases hitem : s.store.item with
    | none => rfl
    | some a =>
        rw [hitem] at hlen
        cases hlen

end RingChannel
