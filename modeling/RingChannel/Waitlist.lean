/-
# `RingChannel.Waitlist` — one slot per receiver, walked in slot order

A slot map of `AtomicOption`s behind a read-write lock.  `register` and
`deregister` take the lock for writing; `insert`, `remove` and `pop` take it
for reading.  `pop` holds its read guard while it visits the slots one at a
time, so it is given in pieces — `lock`, `visit`, `unlock` — and `readers`
counts the guards that are out.  A writer has to wait until there are none;
that wait is a guard of the step relation, not of the operations below.

Assumed of the slot map: `insert` returns a key that it has never returned
before (`fresh` counts them), and it may put the new slot at any place of the
order.  Indexing with a key that is not registered panics; so does unwrapping
its removal.  Both are `none` here.

`slot` is what the rest of the development sees of a waitlist: whether a key is
registered and what its slot holds.  `Writes`, `Adds` and `Drops` say all that
an operation does in those terms.
-/
import RingChannel.Atomic
import RingChannel.Lib.SlotMap

namespace RingChannel

/-- The waitlist of items of type `W`; the keys handed out so far are those
below `fresh`. -/
structure Waitlist (W : Type) where
  items : SlotMap (AtomicOption W)
  fresh : Nat
  readers : Nat
  lockFree : Bool
  lt_fresh : ∀ k ∈ items.keys, k < fresh

namespace Waitlist

variable {W : Type}

def new (lockFree : Bool) : Waitlist W where
  items := .empty
  fresh := 0
  readers := 0
  lockFree := lockFree
  lt_fresh := by simp

/-- What the slot under `k` holds; `none` if `k` is not registered. -/
def slot (wl : Waitlist W) (k : Nat) : Option (Option W) :=
  (wl.items.get k).map AtomicOption.item

def keys (wl : Waitlist W) : List Nat := wl.items.keys

/-- The total of `f` over the registered slots. -/
def weight (f : Nat → Option W → Nat) (wl : Waitlist W) : Nat :=
  wl.items.weight fun k a => f k a.item

def put (wl : Waitlist W) (k : Nat) (a : AtomicOption W) : Waitlist W where
  items := wl.items.set k a
  fresh := wl.fresh
  readers := wl.readers
  lockFree := wl.lockFree
  lt_fresh := by simpa using wl.lt_fresh

theorem lt_fresh_of_get {wl : Waitlist W} {k : Nat} {a : AtomicOption W}
    (h : wl.items.get k = some a) : k < wl.fresh :=
  wl.lt_fresh k (SlotMap.mem_keys_of_get h)

theorem get_fresh (wl : Waitlist W) : wl.items.get wl.fresh = none := by
  cases h : wl.items.get wl.fresh with
  | none => rfl
  | some a => exact absurd (lt_fresh_of_get h) (Nat.lt_irrefl _)

/-- `register`, with the place in the order that the slot map picks. -/
def register (wl : Waitlist W) (pos : Nat) : Nat × Waitlist W :=
  (wl.fresh,
    { wl with
      items := wl.items.insertAt pos wl.fresh (.new wl.lockFree)
      fresh := wl.fresh + 1
      lt_fresh := by
        intro k hk
        obtain ⟨a, ha⟩ := SlotMap.get_of_mem_keys hk
        by_cases hkf : k = wl.fresh
        · omega
        · rw [SlotMap.get_insertAt_ne _ _ hkf] at ha
          exact Nat.lt_succ_of_lt (lt_fresh_of_get ha) })

def deregister (wl : Waitlist W) (k : Nat) : Option (Option W × Waitlist W) :=
  match wl.items.get k with
  | none => none
  | some a =>
      some (a.intoInner,
        { wl with
          items := wl.items.erase k
          lt_fresh := by
            intro j hj
            obtain ⟨b, hb⟩ := SlotMap.get_of_mem_keys hj
            by_cases hjk : j = k
            · simp [hjk] at hb
            · rw [SlotMap.get_erase_ne hjk] at hb
              exact lt_fresh_of_get hb })

def insert (wl : Waitlist W) (k : Nat) (w : W) : Option (Option W × Waitlist W) :=
  (wl.items.get k).map fun a => ((a.swap w).1, wl.put k (a.swap w).2)

def remove (wl : Waitlist W) (k : Nat) : Option (Option W × Waitlist W) :=
  (wl.items.get k).map fun a => (a.take.1, wl.put k a.take.2)

/-- `pop`, taking the read guard. -/
def lock (wl : Waitlist W) : Waitlist W := { wl with readers := wl.readers + 1 }

/-- `pop`, dropping the read guard. -/
def unlock (wl : Waitlist W) : Waitlist W := { wl with readers := wl.readers - 1 }

/-- `pop`, visiting the slot under `k`. -/
def visit (wl : Waitlist W) (k : Nat) : Option W × Waitlist W :=
  match wl.items.get k with
  | none => (none, wl)
  | some a => (a.take.1, wl.put k a.take.2)

/-- `pop` when nothing interferes: the first item in slot order. -/
def pop (wl : Waitlist W) : Option W × Waitlist W :=
  go wl wl.keys
where
  go (wl : Waitlist W) : List Nat → Option W × Waitlist W
    | [] => (none, wl)
    | k :: ks =>
        match wl.visit k with
        | (none, _) => go wl ks
        | (some w, wl') => (some w, wl')

/-- The number of items in the waitlist. -/
def size (wl : Waitlist W) : Nat := wl.weight fun _ o => o.isSome.toNat

/-- `while let Some(item) = pop()`, for at most `fuel` rounds. -/
def popWhile : Nat → Waitlist W → List W × Waitlist W
  | 0, wl => ([], wl)
  | fuel + 1, wl =>
      match wl.pop with
      | (none, wl') => ([], wl')
      | (some w, wl') => (w :: (popWhile fuel wl').1, (popWhile fuel wl').2)

/-- The whole loop: every round but the last takes an item. -/
def popAll (wl : Waitlist W) : List W × Waitlist W := wl.popWhile (wl.size + 1)

/-! ## What the operations do, slot by slot -/

/-- The slot under `k` held `old` and now holds `new`; nothing else changed. -/
structure Writes (wl : Waitlist W) (k : Nat) (old new : Option W) (wl' : Waitlist W) :
    Prop where
  slot_before : wl.slot k = some old
  slot_self : wl'.slot k = some new
  slot_ne : ∀ j, j ≠ k → wl'.slot j = wl.slot j
  keys_eq : wl'.keys = wl.keys
  fresh_eq : wl'.fresh = wl.fresh
  readers_eq : wl'.readers = wl.readers
  weight_eq : ∀ f g : Nat → Option W → Nat, (∀ j o, j ≠ k → g j o = f j o) →
    wl'.weight g + f k old = wl.weight f + g k new

/-- The fresh key `k` is registered, with an empty slot. -/
structure Adds (wl : Waitlist W) (k : Nat) (wl' : Waitlist W) : Prop where
  fresh_before : wl.fresh = k
  slot_before : wl.slot k = none
  slot_self : wl'.slot k = some none
  slot_ne : ∀ j, j ≠ k → wl'.slot j = wl.slot j
  fresh_eq : wl'.fresh = k + 1
  readers_eq : wl'.readers = wl.readers
  weight_eq : ∀ f : Nat → Option W → Nat, wl'.weight f = wl.weight f + f k none

/-- The key `k` is forgotten; its slot held `old`. -/
structure Drops (wl : Waitlist W) (k : Nat) (old : Option W) (wl' : Waitlist W) : Prop where
  slot_before : wl.slot k = some old
  slot_self : wl'.slot k = none
  slot_ne : ∀ j, j ≠ k → wl'.slot j = wl.slot j
  fresh_eq : wl'.fresh = wl.fresh
  readers_eq : wl'.readers = wl.readers
  weight_eq : ∀ f : Nat → Option W → Nat, wl'.weight f + f k old = wl.weight f

theorem writes_put {wl : Waitlist W} {k : Nat} {a : AtomicOption W} (b : AtomicOption W)
    (h : wl.items.get k = some a) : wl.Writes k a.item b.item (wl.put k b) where
  slot_before := by simp [slot, h]
  slot_self := by simp [slot, put, SlotMap.get_set_self b h]
  slot_ne j hj := by simp [slot, put, hj]
  keys_eq := by simp [keys, put]
  fresh_eq := rfl
  readers_eq := rfl
  weight_eq f g hfg := by
    simpa [weight, put] using SlotMap.weight_set b h fun j u hj => hfg j u.item hj

theorem insert_writes {wl wl' : Waitlist W} {k : Nat} {w : W} {old : Option W}
    (h : wl.insert k w = some (old, wl')) : wl.Writes k old (some w) wl' := by
  simp only [insert, Option.map_eq_some_iff, Prod.mk.injEq] at h
  obtain ⟨a, ha, rfl, rfl⟩ := h
  simpa using writes_put (a.swap w).2 ha

theorem remove_writes {wl wl' : Waitlist W} {k : Nat} {old : Option W}
    (h : wl.remove k = some (old, wl')) : wl.Writes k old none wl' := by
  simp only [remove, Option.map_eq_some_iff, Prod.mk.injEq] at h
  obtain ⟨a, ha, rfl, rfl⟩ := h
  simpa using writes_put a.take.2 ha

/-- A visit that finds an item takes it. -/
theorem visit_hit {wl wl' : Waitlist W} {k : Nat} {w : W} (h : wl.visit k = (some w, wl')) :
    wl.Writes k (some w) none wl' := by
  simp only [visit] at h
  split at h
  · cases h
  · rename_i a hg
    simp only [Prod.mk.injEq, AtomicOption.take_fst] at h
    obtain ⟨hitem, rfl⟩ := h
    simpa [hitem] using writes_put a.take.2 hg

/-- A visit that finds nothing changes nothing. -/
theorem visit_miss {wl wl' : Waitlist W} {k : Nat} (h : wl.visit k = (none, wl')) :
    wl' = wl ∧ ∀ w, wl.slot k ≠ some (some w) := by
  simp only [visit] at h
  split at h
  · rename_i hg
    cases h
    exact ⟨rfl, fun w => by simp [slot, hg]⟩
  · rename_i a hg
    simp only [Prod.mk.injEq, AtomicOption.take_fst] at h
    obtain ⟨hitem, rfl⟩ := h
    have hsame : a.take.2 = a := by
      cases a with
      | small c => obtain rfl : c = none := hitem; rfl
      | large c =>
          obtain rfl : c = none := Option.map_eq_none_iff.mp hitem
          rfl
    refine ⟨?_, fun w => by simp [slot, hg, hitem]⟩
    cases wl
    simp only [put, hsame, SlotMap.set_of_get hg]

/-- What `pop` answers and leaves, once its scan has come to the slots `ks`:
either all of them are empty, or it takes one item. -/
theorem pop_go (wl : Waitlist W) : ∀ ks : List Nat,
    (pop.go wl ks = (none, wl) ∧ ∀ k ∈ ks, ∀ w, wl.slot k ≠ some (some w)) ∨
      ∃ k w wl', pop.go wl ks = (some w, wl') ∧ wl.Writes k (some w) none wl'
  | [] => .inl ⟨rfl, fun _ hk => by cases hk⟩
  | k :: ks => by
      simp only [pop.go]
      split
      · rename_i wl' hv
        obtain ⟨-, hmiss⟩ := visit_miss hv
        rcases pop_go wl ks with ⟨heq, hrest⟩ | hhit
        · refine .inl ⟨heq, fun j hj => ?_⟩
          rcases List.mem_cons.mp hj with rfl | hj
          · exact hmiss
          · exact hrest j hj
        · exact .inr hhit
      · rename_i w wl' hv
        exact .inr ⟨k, w, wl', rfl, visit_hit hv⟩

theorem register_adds (wl : Waitlist W) (pos : Nat) :
    wl.Adds (wl.register pos).1 (wl.register pos).2 where
  fresh_before := rfl
  slot_before := by simp [slot, register, get_fresh wl]
  slot_self := by simp [slot, register, SlotMap.get_insertAt_self pos _ (get_fresh wl)]
  slot_ne j hj := by
    have hj' : j ≠ wl.fresh := hj
    simp [slot, register, hj']
  fresh_eq := rfl
  readers_eq := rfl
  weight_eq f := by
    simp [weight, register, SlotMap.weight_insertAt pos _ _ (get_fresh wl)]

theorem deregister_drops {wl wl' : Waitlist W} {k : Nat} {old : Option W}
    (h : wl.deregister k = some (old, wl')) : wl.Drops k old wl' := by
  simp only [deregister] at h
  split at h
  · cases h
  · rename_i a hg
    cases h
    exact {
      slot_before := by simp [slot, hg]
      slot_self := by simp [slot]
      slot_ne := fun j hj => by simp [slot, hj]
      fresh_eq := rfl
      readers_eq := rfl
      weight_eq := fun f => by simpa [weight] using SlotMap.weight_erase _ hg }

/-! ## The read guard -/

theorem unlock_lock (wl : Waitlist W) : wl.lock.unlock = wl := rfl

theorem visit_lock (wl : Waitlist W) (k : Nat) :
    wl.lock.visit k = ((wl.visit k).1, (wl.visit k).2.lock) := by
  have hitems : wl.lock.items = wl.items := rfl
  cases hg : wl.items.get k with
  | none => simp only [visit, hitems, hg]
  | some a =>
      simp only [visit, hitems, hg]
      rfl

/-! ## A slot that an operation does not name

It is not read: overwriting it first changes neither the answer nor the rest. -/

theorem insert_put (wl : Waitlist W) {k j : Nat} (w : W) (a : AtomicOption W) (h : j ≠ k) :
    (wl.put j a).insert k w = (wl.insert k w).map fun r => (r.1, r.2.put j a) := by
  have hget : (wl.put j a).items.get k = wl.items.get k := SlotMap.get_set_ne a (Ne.symm h)
  simp only [insert, hget, Option.map_map]
  refine congrArg (Option.map · _) (funext fun b => ?_)
  simp only [Function.comp, put, SlotMap.set_comm wl.items _ _ h]

theorem remove_put (wl : Waitlist W) {k j : Nat} (a : AtomicOption W) (h : j ≠ k) :
    (wl.put j a).remove k = (wl.remove k).map fun r => (r.1, r.2.put j a) := by
  have hget : (wl.put j a).items.get k = wl.items.get k := SlotMap.get_set_ne a (Ne.symm h)
  simp only [remove, hget, Option.map_map]
  refine congrArg (Option.map · _) (funext fun b => ?_)
  simp only [Function.comp, put, SlotMap.set_comm wl.items _ _ h]

theorem visit_put (wl : Waitlist W) {k j : Nat} (a : AtomicOption W) (h : j ≠ k) :
    (wl.put j a).visit k = ((wl.visit k).1, (wl.visit k).2.put j a) := by
  have hget : (wl.put j a).items.get k = wl.items.get k := SlotMap.get_set_ne a (Ne.symm h)
  simp only [visit, hget]
  cases wl.items.get k with
  | none => rfl
  | some b => simp only [put, SlotMap.set_comm wl.items _ _ h]

theorem deregister_put (wl : Waitlist W) {k j : Nat} (a : AtomicOption W) (h : j ≠ k) :
    (wl.put j a).deregister k = (wl.deregister k).map fun r => (r.1, r.2.put j a) := by
  have hget : (wl.put j a).items.get k = wl.items.get k := SlotMap.get_set_ne a (Ne.symm h)
  simp only [deregister, hget]
  cases wl.items.get k with
  | none => rfl
  | some b => simp only [put, Option.map_some, SlotMap.erase_set]

theorem register_put (wl : Waitlist W) {j : Nat} (pos : Nat) (a : AtomicOption W)
    (h : j ≠ wl.fresh) :
    (wl.put j a).register pos = ((wl.register pos).1, (wl.register pos).2.put j a) := by
  simp only [register, put, SlotMap.insertAt_set wl.items pos _ _ h]

/-! ## A full slot was full before

Emptying, adding or dropping a slot fills none. -/

theorem full_before {wl wl' : Waitlist W} {k j : Nat} {o : Option (Option W)} {w : W}
    (hself : wl'.slot k = o) (ho : ∀ w, o ≠ some (some w))
    (hne : ∀ j, j ≠ k → wl'.slot j = wl.slot j) (hj : wl'.slot j = some (some w)) :
    j ≠ k ∧ wl.slot j = some (some w) := by
  have hjk : j ≠ k := by
    rintro rfl
    exact ho w (hself.symm.trans hj)
  exact ⟨hjk, (hne j hjk).symm.trans hj⟩

theorem Writes.full_before {wl wl' : Waitlist W} {k j : Nat} {old : Option W} {w : W}
    (h : wl.Writes k old none wl') (hj : wl'.slot j = some (some w)) :
    j ≠ k ∧ wl.slot j = some (some w) :=
  Waitlist.full_before h.slot_self nofun h.slot_ne hj

theorem Adds.full_before {wl wl' : Waitlist W} {k j : Nat} {w : W}
    (h : wl.Adds k wl') (hj : wl'.slot j = some (some w)) :
    j ≠ k ∧ wl.slot j = some (some w) :=
  Waitlist.full_before h.slot_self nofun h.slot_ne hj

theorem Drops.full_before {wl wl' : Waitlist W} {k j : Nat} {old : Option W} {w : W}
    (h : wl.Drops k old wl') (hj : wl'.slot j = some (some w)) :
    j ≠ k ∧ wl.slot j = some (some w) :=
  Waitlist.full_before h.slot_self nofun h.slot_ne hj

@[simp] theorem weight_unlock (f : Nat → Option W → Nat) (wl : Waitlist W) :
    wl.unlock.weight f = wl.weight f := rfl

theorem mem_keys_of_slot {wl : Waitlist W} {k : Nat} {o : Option W}
    (h : wl.slot k = some o) : k ∈ wl.keys := by
  simp only [slot, Option.map_eq_some_iff] at h
  obtain ⟨a, ha, -⟩ := h
  exact SlotMap.mem_keys_of_get ha

/-- Nothing is written, but the entry of one slot is counted anew. -/
theorem weight_at {wl : Waitlist W} {k : Nat} {o : Option W} {f g : Nat → Option W → Nat}
    (h : wl.slot k = some o) (hfg : ∀ j u, j ≠ k → g j u = f j u) :
    wl.weight g + f k o = wl.weight f + g k o := by
  simp only [slot, Option.map_eq_some_iff] at h
  obtain ⟨a, ha, rfl⟩ := h
  exact SlotMap.weight_at ha fun j u hj => hfg j u.item hj

/-- A positive total has a slot that contributes to it. -/
theorem exists_of_weight_pos {wl : Waitlist W} {f : Nat → Option W → Nat}
    (h : 0 < wl.weight f) : ∃ k o, wl.slot k = some o ∧ 0 < f k o := by
  obtain ⟨k, a, ha, hpos⟩ := SlotMap.exists_of_weight_pos h
  exact ⟨k, a.item, by simp [slot, ha], hpos⟩

/-! ## The waking loop -/

/-- A round takes an item, and there is one less, or there was none. -/
theorem pop_cases (wl : Waitlist W) :
    (wl.pop = (none, wl) ∧ wl.size = 0) ∨
      ∃ k w wl', wl.pop = (some w, wl') ∧ wl.Writes k (some w) none wl' ∧
        wl'.size + 1 = wl.size := by
  rcases pop_go wl wl.keys with ⟨heq, hmiss⟩ | ⟨k, w, wl', heq, hw⟩
  · refine .inl ⟨heq, ?_⟩
    by_contra hne
    obtain ⟨k, o, hk, hpos⟩ := exists_of_weight_pos (Nat.pos_of_ne_zero hne)
    cases o with
    | none => exact absurd hpos (Nat.lt_irrefl 0)
    | some w => exact hmiss k (mem_keys_of_slot hk) w hk
  · exact .inr ⟨k, w, wl', heq, hw, hw.weight_eq _ _ fun _ _ _ => rfl⟩

/-- The same keys are registered. -/
structure SameKeys (wl wl' : Waitlist W) : Prop where
  slot_isSome : ∀ k, (wl'.slot k).isSome = (wl.slot k).isSome
  fresh_eq : wl'.fresh = wl.fresh
  readers_eq : wl'.readers = wl.readers

theorem SameKeys.rfl {wl : Waitlist W} : wl.SameKeys wl :=
  ⟨fun _ => Eq.refl _, Eq.refl _, Eq.refl _⟩

theorem SameKeys.trans {wl₁ wl₂ wl₃ : Waitlist W} (h : wl₁.SameKeys wl₂)
    (h' : wl₂.SameKeys wl₃) : wl₁.SameKeys wl₃ :=
  ⟨fun k => (h'.slot_isSome k).trans (h.slot_isSome k), h'.fresh_eq.trans h.fresh_eq,
    h'.readers_eq.trans h.readers_eq⟩

theorem Writes.sameKeys {wl wl' : Waitlist W} {k : Nat} {old new : Option W}
    (h : wl.Writes k old new wl') : wl.SameKeys wl' where
  slot_isSome j := by
    by_cases hj : j = k
    · rw [hj, h.slot_self, h.slot_before]
      exact Eq.refl _
    · rw [h.slot_ne j hj]
  fresh_eq := h.fresh_eq
  readers_eq := h.readers_eq

theorem pop_sameKeys (wl : Waitlist W) : wl.SameKeys wl.pop.2 := by
  rcases wl.pop_cases with ⟨heq, -⟩ | ⟨k, w, wl', heq, hw, -⟩
  · rw [heq]
    exact .rfl
  · rw [heq]
    exact hw.sameKeys

theorem popWhile_sameKeys : ∀ (fuel : Nat) (wl : Waitlist W),
    wl.SameKeys (wl.popWhile fuel).2
  | 0, _ => .rfl
  | fuel + 1, wl => by
      have hpop := wl.pop_sameKeys
      simp only [popWhile]
      split
      · rename_i wl' heq
        rwa [heq] at hpop
      · rename_i w wl' heq
        rw [heq] at hpop
        exact hpop.trans (popWhile_sameKeys fuel wl')

theorem popAll_sameKeys (wl : Waitlist W) : wl.SameKeys wl.popAll.2 :=
  popWhile_sameKeys _ _

end Waitlist

end RingChannel
