/-
# `RingChannel.Lib.SlotMap` — a keyed store that remembers the order of its slots

A slot map hands out keys, keeps one value under each key, and can be walked
slot by slot in a fixed order.  A removed key leaves a free slot behind, and
the next key may be put into it, so a fresh key can appear anywhere in the
order: `insertAt` takes the place as an argument.

That no key is stored twice is a field of the structure, so every lookup below
has one answer, and the total over the store (`weight`) changes by exactly one
entry when one key is written.
-/
import Mathlib.Algebra.BigOperators.Group.List.Basic
import Mathlib.Algebra.GroupWithZero.Nat
import Mathlib.Algebra.Order.BigOperators.Group.List
import Mathlib.Algebra.Order.Ring.Nat
import Mathlib.Data.List.Nodup

/-- A store of values under pairwise different keys, in slot order. -/
structure SlotMap (V : Type) where
  entries : List (Nat × V)
  nodup : (entries.map Prod.fst).Nodup

namespace SlotMap

variable {V : Type}

def empty : SlotMap V := ⟨[], List.nodup_nil⟩

/-- The registered keys, in slot order. -/
def keys (m : SlotMap V) : List Nat := m.entries.map Prod.fst

def get (m : SlotMap V) (k : Nat) : Option V := m.entries.lookup k

/-- Overwrite the value under a registered key; nothing changes if the key is
not registered. -/
def set (m : SlotMap V) (k : Nat) (v : V) : SlotMap V where
  entries := m.entries.map fun e => if e.1 = k then (e.1, v) else e
  nodup := by
    have hkeys : (m.entries.map fun e => if e.1 = k then (e.1, v) else e).map Prod.fst
        = m.entries.map Prod.fst := by
      rw [List.map_map]
      refine List.map_congr_left (fun e _ => ?_)
      simp only [Function.comp]
      split <;> rfl
    rw [hkeys]
    exact m.nodup

theorem insertAt_perm (l : List (Nat × V)) (pos : Nat) (e : Nat × V) :
    (l.take pos ++ e :: l.drop pos).Perm (e :: l) := by
  have h : (l.take pos ++ e :: l.drop pos).Perm (e :: (l.take pos ++ l.drop pos)) :=
    List.perm_middle
  rwa [List.take_append_drop] at h

/-- Register a fresh key at place `pos` of the order (at the end if `pos` is
past it); nothing changes if the key is taken. -/
def insertAt (m : SlotMap V) (pos k : Nat) (v : V) : SlotMap V :=
  if h : k ∈ m.keys then m
  else
    { entries := m.entries.take pos ++ (k, v) :: m.entries.drop pos
      nodup := ((insertAt_perm m.entries pos (k, v)).map Prod.fst).nodup_iff.mpr
        (List.nodup_cons.mpr ⟨h, m.nodup⟩) }

/-- Forget a key and its value. -/
def erase (m : SlotMap V) (k : Nat) : SlotMap V where
  entries := m.entries.filter fun e => e.1 ≠ k
  nodup := m.nodup.sublist (List.filter_sublist.map Prod.fst)

/-- The total of `f` over the store. -/
def weight (f : Nat → V → Nat) (m : SlotMap V) : Nat :=
  (m.entries.map fun e => f e.1 e.2).sum

/-! ## Looking a key up -/

@[simp] theorem get_empty (k : Nat) : (empty : SlotMap V).get k = none := rfl

@[simp] theorem keys_empty : (empty : SlotMap V).keys = [] := rfl

theorem get_eq_none_iff {m : SlotMap V} {k : Nat} : m.get k = none ↔ k ∉ m.keys := by
  simp only [get, keys, List.lookup_eq_none_iff, List.mem_map, not_exists, not_and]
  constructor
  · intro h e he hk
    have := h e he
    simp_all
  · intro h e he
    have := h e he
    simp only [bne_iff_ne, ne_eq]
    exact fun hk => this hk.symm

theorem mem_keys_of_get {m : SlotMap V} {k : Nat} {v : V} (h : m.get k = some v) :
    k ∈ m.keys := by
  by_contra hk
  rw [get_eq_none_iff.mpr hk] at h
  cases h

theorem get_of_mem_keys {m : SlotMap V} {k : Nat} (h : k ∈ m.keys) :
    ∃ v, m.get k = some v := by
  cases hg : m.get k with
  | none => exact absurd h (get_eq_none_iff.mp hg)
  | some v => exact ⟨v, rfl⟩

/-- A registered key splits the order into what lies before and what lies
behind its slot. -/
theorem split_of_get {m : SlotMap V} {k : Nat} {v : V} (h : m.get k = some v) :
    ∃ l₁ l₂, m.entries = l₁ ++ (k, v) :: l₂ ∧
      (∀ e ∈ l₁, e.1 ≠ k) ∧ (∀ e ∈ l₂, e.1 ≠ k) := by
  obtain ⟨l₁, l₂, heq, hne⟩ := List.lookup_eq_some_iff.mp h
  refine ⟨l₁, l₂, heq, fun e he => ?_, fun e he hk => ?_⟩
  · have := hne e he
    simp only [bne_iff_ne, ne_eq] at this
    exact fun hk => this hk.symm
  · have hnd := m.nodup
    rw [heq, List.map_append, List.map_cons, List.nodup_append] at hnd
    have hnot := (List.nodup_cons.mp hnd.2.1).1
    exact hnot (List.mem_map.mpr ⟨e, he, hk⟩)

theorem lookup_middle {l₁ l₂ : List (Nat × V)} {k : Nat} {v : V}
    (h : ∀ e ∈ l₁, e.1 ≠ k) : (l₁ ++ (k, v) :: l₂).lookup k = some v := by
  refine List.lookup_eq_some_iff.mpr ⟨l₁, l₂, rfl, fun e he => ?_⟩
  simp only [bne_iff_ne, ne_eq]
  exact fun hk => h e he hk.symm

theorem lookup_off {l₁ l₂ : List (Nat × V)} {k j : Nat} {v : V} (h : j ≠ k) :
    (l₁ ++ (k, v) :: l₂).lookup j = (l₁ ++ l₂).lookup j := by
  have hjk : (j == k) = false := by simpa using h
  rw [List.lookup_append, List.lookup_append, List.lookup_cons, hjk]

/-! ## Writing one key -/

theorem set_entries {m : SlotMap V} {k : Nat} {l₁ l₂ : List (Nat × V)} {v : V} (w : V)
    (heq : m.entries = l₁ ++ (k, v) :: l₂)
    (h₁ : ∀ e ∈ l₁, e.1 ≠ k) (h₂ : ∀ e ∈ l₂, e.1 ≠ k) :
    (m.set k w).entries = l₁ ++ (k, w) :: l₂ := by
  have hfix : ∀ l : List (Nat × V), (∀ e ∈ l, e.1 ≠ k) →
      (l.map fun e => if e.1 = k then (e.1, w) else e) = l := by
    intro l hl
    exact (List.map_congr_left (fun e he => if_neg (hl e he))).trans (List.map_id l)
  simp only [set, heq, List.map_append, List.map_cons, hfix l₁ h₁, hfix l₂ h₂, if_true]

@[simp] theorem keys_set (m : SlotMap V) (k : Nat) (w : V) : (m.set k w).keys = m.keys := by
  simp only [keys, set, List.map_map]
  refine List.map_congr_left (fun e _ => ?_)
  simp only [Function.comp]
  split <;> rfl

theorem set_of_get_none {m : SlotMap V} {k : Nat} (w : V) (h : m.get k = none) :
    m.set k w = m := by
  have hk := get_eq_none_iff.mp h
  have hentries : (m.set k w).entries = m.entries := by
    refine (List.map_congr_left (fun e he => ?_)).trans (List.map_id _)
    exact if_neg (fun hek => hk (List.mem_map.mpr ⟨e, he, hek⟩))
  cases m
  simpa [set] using hentries

theorem set_of_get {m : SlotMap V} {k : Nat} {v : V} (h : m.get k = some v) : m.set k v = m := by
  obtain ⟨l₁, l₂, heq, h₁, h₂⟩ := split_of_get h
  have hentries : (m.set k v).entries = m.entries := (set_entries v heq h₁ h₂).trans heq.symm
  cases m
  simpa [set] using hentries

theorem get_set_self {m : SlotMap V} {k : Nat} {v : V} (w : V) (h : m.get k = some v) :
    (m.set k w).get k = some w := by
  obtain ⟨l₁, l₂, heq, h₁, h₂⟩ := split_of_get h
  rw [get, set_entries w heq h₁ h₂, lookup_middle h₁]

@[simp] theorem get_set_ne {m : SlotMap V} {k j : Nat} (w : V) (hj : j ≠ k) :
    (m.set k w).get j = m.get j := by
  cases hg : m.get k with
  | none => rw [set_of_get_none w hg]
  | some v =>
      obtain ⟨l₁, l₂, heq, h₁, h₂⟩ := split_of_get hg
      rw [get, set_entries w heq h₁ h₂, lookup_off hj, get, heq, lookup_off hj]

theorem get_insertAt_self {m : SlotMap V} {k : Nat} (pos : Nat) (v : V) (h : m.get k = none) :
    (m.insertAt pos k v).get k = some v := by
  have hk := get_eq_none_iff.mp h
  simp only [insertAt, dif_neg hk, get]
  refine lookup_middle (fun e he hek => hk ?_)
  exact List.mem_map.mpr ⟨e, List.mem_of_mem_take he, hek⟩

@[simp] theorem get_insertAt_ne {m : SlotMap V} {k j : Nat} (pos : Nat) (v : V) (hj : j ≠ k) :
    (m.insertAt pos k v).get j = m.get j := by
  by_cases hk : k ∈ m.keys
  · simp only [insertAt, dif_pos hk]
  · simp only [insertAt, dif_neg hk, get, lookup_off hj, List.take_append_drop]

@[simp] theorem get_erase_self (m : SlotMap V) (k : Nat) : (m.erase k).get k = none := by
  rw [get_eq_none_iff]
  simp [keys, erase]

@[simp] theorem get_erase_ne {m : SlotMap V} {k j : Nat} (hj : j ≠ k) :
    (m.erase k).get j = m.get j := by
  have hgen : ∀ l : List (Nat × V), (l.filter fun e => e.1 ≠ k).lookup j = l.lookup j := by
    intro l
    induction l with
    | nil => rfl
    | cons e l ih =>
        obtain ⟨i, v⟩ := e
        by_cases hik : i = k
        · have hji : (j == i) = false := by simpa [hik] using hj
          simp only [ne_eq, hik, not_true_eq_false, decide_false, Bool.false_eq_true,
            not_false_eq_true, List.filter_cons_of_neg] at ih ⊢
          rw [ih, List.lookup_cons, ← hik, hji]
        · rw [List.filter_cons_of_pos (by simpa using hik), List.lookup_cons, List.lookup_cons, ih]
  exact hgen m.entries

/-! ## The keys, and writes under different keys -/

theorem eq_of_entries {m m' : SlotMap V} (h : m.entries = m'.entries) : m = m' := by
  cases m
  cases m'
  cases h
  rfl

theorem set_comm (m : SlotMap V) {k j : Nat} (v w : V) (h : j ≠ k) :
    (m.set j w).set k v = (m.set k v).set j w := by
  refine eq_of_entries ?_
  simp only [set, List.map_map]
  refine List.map_congr_left (fun e _ => ?_)
  simp only [Function.comp]
  by_cases hk : e.1 = k
  · have hj : e.1 ≠ j := fun hj => h (hj.symm.trans hk)
    simp only [if_pos hk, if_neg hj]
  · by_cases hj : e.1 = j
    · simp only [if_neg hk, if_pos hj]
    · simp only [if_neg hk, if_neg hj]

theorem erase_set (m : SlotMap V) (k j : Nat) (w : V) :
    (m.set j w).erase k = (m.erase k).set j w := by
  refine eq_of_entries ?_
  simp only [set, erase, List.filter_map]
  congr 1
  refine List.filter_congr (fun e _ => ?_)
  simp only [Function.comp]
  split <;> rfl

theorem insertAt_set (m : SlotMap V) (pos : Nat) {k j : Nat} (v w : V) (h : j ≠ k) :
    (m.set j w).insertAt pos k v = (m.insertAt pos k v).set j w := by
  by_cases hk : k ∈ m.keys
  · have hk' : k ∈ (m.set j w).keys := by rwa [keys_set]
    simp only [insertAt, dif_pos hk, dif_pos hk']
  · have hk' : k ∉ (m.set j w).keys := by rwa [keys_set]
    refine eq_of_entries ?_
    rw [insertAt, insertAt, dif_neg hk, dif_neg hk']
    simp only [set, List.map_append, List.map_cons, List.map_take, List.map_drop,
      if_neg (Ne.symm h)]

/-! ## The total over the store -/

theorem get_of_mem {m : SlotMap V} {k : Nat} {v : V} (h : (k, v) ∈ m.entries) :
    m.get k = some v := by
  obtain ⟨w, hw⟩ := get_of_mem_keys (m := m) (List.mem_map.mpr ⟨(k, v), h, rfl⟩)
  obtain ⟨l₁, l₂, heq, h₁, h₂⟩ := split_of_get hw
  rw [heq] at h
  rcases List.mem_append.mp h with hin | hin
  · exact absurd rfl (h₁ _ hin)
  · rcases List.mem_cons.mp hin with hin | hin
    · cases hin
      exact hw
    · exact absurd rfl (h₂ _ hin)

/-- Counting keys by what is stored under them. -/
theorem countP_keys {m : SlotMap V} {p : Nat → Bool} {q : V → Bool}
    (h : ∀ k v, m.get k = some v → p k = q v) :
    m.keys.countP p = m.weight fun _ v => (q v).toNat := by
  have hgen : ∀ l : List (Nat × V), (∀ e ∈ l, p e.1 = q e.2) →
      (l.map Prod.fst).countP p = (l.map fun e => (q e.2).toNat).sum := by
    intro l hl
    induction l with
    | nil => rfl
    | cons e l ih =>
        have htail := ih fun d hd => hl d (List.mem_cons_of_mem _ hd)
        rw [List.map_cons, List.map_cons, List.sum_cons, List.countP_cons, htail,
          hl e List.mem_cons_self, Nat.add_comm]
        cases q e.2 <;> rfl
  exact hgen m.entries fun e he => h e.1 e.2 (get_of_mem he)

theorem length_keys (m : SlotMap V) : m.keys.length = m.weight fun _ _ => 1 := by
  simp [keys, weight]

theorem weight_le_weight {f g : Nat → V → Nat} (m : SlotMap V) (h : ∀ k v, f k v ≤ g k v) :
    weight f m ≤ weight g m :=
  List.sum_le_sum fun e _ => h e.1 e.2

theorem sum_congr_off {f g : Nat → V → Nat} {k : Nat} (hfg : ∀ j v, j ≠ k → g j v = f j v)
    {l : List (Nat × V)} (hl : ∀ e ∈ l, e.1 ≠ k) :
    (l.map fun e => g e.1 e.2).sum = (l.map fun e => f e.1 e.2).sum :=
  congrArg List.sum (List.map_congr_left fun e he => hfg e.1 e.2 (hl e he))

/-- One key is written, and the entries under the other keys stay. -/
theorem weight_set {m : SlotMap V} {k : Nat} {v : V} (w : V) {f g : Nat → V → Nat}
    (h : m.get k = some v) (hfg : ∀ j u, j ≠ k → g j u = f j u) :
    weight g (m.set k w) + f k v = weight f m + g k w := by
  obtain ⟨l₁, l₂, heq, h₁, h₂⟩ := split_of_get h
  simp only [weight, set_entries w heq h₁ h₂, heq, List.map_append, List.map_cons,
    List.sum_append, List.sum_cons, sum_congr_off hfg h₁, sum_congr_off hfg h₂]
  omega

/-- Nothing is written, but the entry under one key is counted anew. -/
theorem weight_at {m : SlotMap V} {k : Nat} {v : V} {f g : Nat → V → Nat}
    (h : m.get k = some v) (hfg : ∀ j u, j ≠ k → g j u = f j u) :
    weight g m + f k v = weight f m + g k v := by
  obtain ⟨l₁, l₂, heq, h₁, h₂⟩ := split_of_get h
  simp only [weight, heq, List.map_append, List.map_cons,
    List.sum_append, List.sum_cons, sum_congr_off hfg h₁, sum_congr_off hfg h₂]
  omega

/-- Nothing is written, and what is counted under one key grows by one at most. -/
theorem weight_le_succ {f g : Nat → V → Nat} (m : SlotMap V) (k : Nat)
    (hfg : ∀ j u, j ≠ k → g j u = f j u) (hk : ∀ u, g k u ≤ f k u + 1) :
    weight g m ≤ weight f m + 1 := by
  cases hget : m.get k with
  | some v =>
      have hat := weight_at hget hfg
      have hone := hk v
      omega
  | none =>
      have hoff : weight g m = weight f m := sum_congr_off hfg fun e he hek =>
        get_eq_none_iff.mp hget (hek ▸ List.mem_map_of_mem (f := Prod.fst) he)
      omega

theorem weight_insertAt {m : SlotMap V} {k : Nat} (pos : Nat) (v : V) (f : Nat → V → Nat)
    (h : m.get k = none) : weight f (m.insertAt pos k v) = weight f m + f k v := by
  have hk := get_eq_none_iff.mp h
  have hperm := (insertAt_perm m.entries pos (k, v)).map fun e => f e.1 e.2
  simp only [weight, insertAt, dif_neg hk, hperm.sum_eq, List.map_cons, List.sum_cons]
  omega

theorem weight_insertAt_le (m : SlotMap V) (pos k : Nat) (v : V) (f : Nat → V → Nat) :
    weight f (m.insertAt pos k v) ≤ weight f m + f k v := by
  by_cases hk : k ∈ m.keys
  · rw [insertAt, dif_pos hk]
    exact Nat.le_add_right _ _
  · exact Nat.le_of_eq (weight_insertAt pos v f (get_eq_none_iff.mpr hk))

theorem weight_erase {m : SlotMap V} {k : Nat} {v : V} (f : Nat → V → Nat)
    (h : m.get k = some v) : weight f (m.erase k) + f k v = weight f m := by
  obtain ⟨l₁, l₂, heq, h₁, h₂⟩ := split_of_get h
  have hkeep : ∀ l : List (Nat × V), (∀ e ∈ l, e.1 ≠ k) →
      (l.filter fun e => e.1 ≠ k) = l :=
    fun l hl => List.filter_eq_self.mpr (fun e he => by simpa using hl e he)
  have hentries : (m.erase k).entries = l₁ ++ l₂ := by
    simp only [erase, heq, List.filter_append]
    rw [hkeep l₁ h₁, List.filter_cons_of_neg (by simp), hkeep l₂ h₂]
  simp only [weight, hentries, heq, List.map_append, List.map_cons, List.sum_append,
    List.sum_cons]
  omega

theorem le_weight {m : SlotMap V} {k : Nat} {v : V} (f : Nat → V → Nat)
    (h : m.get k = some v) : f k v ≤ weight f m := by
  have := weight_erase f h
  omega

/-- A positive total has a key that contributes to it. -/
theorem exists_of_weight_pos {m : SlotMap V} {f : Nat → V → Nat} (h : 0 < weight f m) :
    ∃ k v, m.get k = some v ∧ 0 < f k v := by
  by_contra hnone
  have hzero : weight f m = 0 := by
    refine List.sum_eq_zero (fun n hn => ?_)
    obtain ⟨⟨k, v⟩, he, rfl⟩ := List.mem_map.mp hn
    by_contra hne
    obtain ⟨w, hw⟩ := get_of_mem_keys (m := m) (k := k) (List.mem_map.mpr ⟨(k, v), he, rfl⟩)
    obtain ⟨l₁, l₂, heq, h₁, h₂⟩ := split_of_get hw
    rw [heq] at he
    rcases List.mem_append.mp he with hin | hin
    · exact h₁ _ hin rfl
    · rcases List.mem_cons.mp hin with hin | hin
      · cases hin
        exact hnone ⟨k, v, hw, Nat.pos_of_ne_zero hne⟩
      · exact h₂ _ hin rfl
  omega

end SlotMap
