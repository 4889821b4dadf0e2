/-
# `RingChannel.Lib.Ledger` — totals over a list of parties, one entry moved at a time

A concurrent system is often a list of parties together with a few shared
quantities, and its invariants say that a shared quantity is the total of
what each party holds.  A step moves one party, so the total changes by that
party's entry and by nothing else.  That is `total_set`, and it is the only
way the totals below are ever taken apart.

The entry of a party may depend on its position as well as on its value: a
history, kept outside the list, speaks of parties by position.  When the
history moves together with the party, the function under the total changes
too, but only at the position that moved; `total_set` is stated for that.
-/
import Mathlib.Algebra.Group.Basic
import Mathlib.Algebra.Group.Nat.Defs
import Mathlib.Tactic.Common

namespace Ledger

variable {α M : Type}

/-- The total of `f i a` over the entries `a` of the list, each at its
position `i`. -/
def total [AddCommMonoid M] : (Nat → α → M) → List α → M
  | _, [] => 0
  | f, a :: l => f 0 a + total (fun i => f (i + 1)) l

section Commutative

variable [AddCommMonoid M]

@[simp] theorem total_nil (f : Nat → α → M) : total f [] = 0 := rfl

theorem total_congr : ∀ {l : List α} {f g : Nat → α → M},
    (∀ i a, l[i]? = some a → f i a = g i a) → total f l = total g l
  | [], _, _, _ => rfl
  | a :: l, f, g, h => by
      have hhead : f 0 a = g 0 a := h 0 a rfl
      have htail := total_congr (l := l) (f := fun i => f (i + 1)) (g := fun i => g (i + 1))
        (fun i b hb => h (i + 1) b (by simpa using hb))
      simp only [total, hhead, htail]

theorem total_eq_zero : ∀ {l : List α} {f : Nat → α → M},
    (∀ i a, l[i]? = some a → f i a = 0) → total f l = 0
  | [], _, _ => rfl
  | a :: l, f, h => by
      have hhead := h 0 a rfl
      have htail := total_eq_zero (l := l) (f := fun i => f (i + 1))
        (fun i b hb => h (i + 1) b (by simpa using hb))
      simp only [total, hhead, htail, add_zero]

theorem total_add : ∀ {l : List α} {f g : Nat → α → M},
    total (fun i a => f i a + g i a) l = total f l + total g l
  | [], _, _ => (add_zero 0).symm
  | a :: l, f, g => by
      have htail := total_add (l := l) (f := fun i => f (i + 1)) (g := fun i => g (i + 1))
      simp only [total, htail]
      exact add_add_add_comm _ _ _ _

/-- One party moves from `a` to `b`, and the entries of the others stay. -/
theorem total_set : ∀ {l : List α} {i : Nat} {a : α} (b : α) {f g : Nat → α → M},
    l[i]? = some a → (∀ j c, j ≠ i → l[j]? = some c → g j c = f j c) →
      total g (l.set i b) + f i a = total f l + g i b
  | [], _, _, _, _, _, h, _ => by simp at h
  | c :: l, 0, a, b, f, g, h, hoff => by
      obtain rfl : c = a := by simpa using h
      have htail : total (fun i => g (i + 1)) l = total (fun i => f (i + 1)) l :=
        total_congr (fun j d hd => hoff (j + 1) d (by omega) (by simpa using hd))
      simp only [List.set_cons_zero, total, htail]
      rw [add_right_comm, add_comm (g 0 b), add_right_comm]
  | c :: l, i + 1, a, b, f, g, h, hoff => by
      have htail := total_set b (f := fun i => f (i + 1)) (g := fun i => g (i + 1))
        (by simpa using h)
        (fun j d hj hd => hoff (j + 1) d (by omega) (by simpa using hd))
      have hhead : g 0 c = f 0 c := hoff 0 c (by omega) rfl
      simp only [List.set_cons_succ, total, hhead]
      rw [add_assoc, htail, add_assoc]

/-- What the others hold, while one party moves. -/
theorem total_split : ∀ {l : List α} {i : Nat} {a : α} (f : Nat → α → M), l[i]? = some a →
    ∃ r, total f l = f i a + r ∧ ∀ b, total f (l.set i b) = f i b + r
  | [], _, _, _, h => by simp at h
  | c :: l, 0, a, f, h => by
      obtain rfl : c = a := by simpa using h
      exact ⟨total (fun i => f (i + 1)) l, rfl, fun _ => rfl⟩
  | c :: l, i + 1, a, f, h => by
      obtain ⟨r, hr, hset⟩ := total_split (fun i => f (i + 1)) (by simpa using h)
      refine ⟨f 0 c + r, ?_, fun b => ?_⟩
      · simp only [total, hr]
        exact add_left_comm _ _ _
      · simp only [List.set_cons_succ, total, hset b]
        exact add_left_comm _ _ _

/-- No party moves, but the entry of one of them is counted anew. -/
theorem total_at {l : List α} {i : Nat} {a : α} {f g : Nat → α → M} (h : l[i]? = some a)
    (hoff : ∀ j c, j ≠ i → l[j]? = some c → g j c = f j c) :
    total g l + f i a = total f l + g i a := by
  obtain ⟨hlt, rfl⟩ := List.getElem?_eq_some_iff.mp h
  have hset := total_set l[i] h hoff
  rwa [List.set_getElem_self hlt] at hset

/-- A party joins at the end, and the entries of the others stay. -/
theorem total_concat : ∀ {l : List α} (a : α) {f g : Nat → α → M},
    (∀ j c, l[j]? = some c → g j c = f j c) →
      total g (l ++ [a]) = total f l + g l.length a
  | [], a, f, g, _ => by simp [total]
  | c :: l, a, f, g, h => by
      have htail := total_concat (l := l) a (f := fun i => f (i + 1)) (g := fun i => g (i + 1))
        (fun j d hd => h (j + 1) d (by simpa using hd))
      have hhead : g 0 c = f 0 c := h 0 c rfl
      simp only [List.cons_append, total, hhead, htail, List.length_cons, add_assoc]

end Commutative

/-! ## Who is where after a move

The two ways the list changes, read at one position. -/

theorem getElem?_set_cases {l : List α} {i j : Nat} {b c : α} (h : (l.set i b)[j]? = some c) :
    (j = i ∧ c = b) ∨ (j ≠ i ∧ l[j]? = some c) := by
  rw [List.getElem?_set] at h
  split at h
  · rename_i hij
    split at h
    · exact Or.inl ⟨hij.symm, (Option.some.inj h).symm⟩
    · cases h
  · rename_i hij
    exact Or.inr ⟨fun hji => hij hji.symm, h⟩

theorem getElem?_set_self_of {l : List α} {i : Nat} {a : α} (b : α) (h : l[i]? = some a) :
    (l.set i b)[i]? = some b := by
  have hlt : i < l.length := (List.getElem?_eq_some_iff.mp h).1
  simp [hlt]

theorem getElem?_set_off {l : List α} {i j : Nat} (b : α) (h : j ≠ i) :
    (l.set i b)[j]? = l[j]? := by
  rw [List.getElem?_set]
  simp [h.symm]

theorem getElem?_concat_cases {l : List α} {j : Nat} {b c : α}
    (h : (l ++ [b])[j]? = some c) : (j = l.length ∧ c = b) ∨ l[j]? = some c := by
  rw [List.getElem?_append] at h
  split at h
  · exact Or.inr h
  · have hj : j - l.length = 0 := by
      by_contra hne
      obtain ⟨k, hk⟩ : ∃ k, j - l.length = k + 1 := ⟨j - l.length - 1, by omega⟩
      simp [hk] at h
    rw [hj] at h
    exact Or.inl ⟨by omega, (Option.some.inj h).symm⟩

theorem getElem?_concat_old {l : List α} {j : Nat} {b c : α} (h : l[j]? = some c) :
    (l ++ [b])[j]? = some c := by
  have hlt : j < l.length := (List.getElem?_eq_some_iff.mp h).1
  rw [List.getElem?_append_left hlt, h]

theorem getElem?_concat_off {l : List α} {j : Nat} (b : α) (h : j ≠ l.length) :
    (l ++ [b])[j]? = l[j]? := by
  rcases Nat.lt_or_gt_of_ne h with hlt | hgt
  · exact List.getElem?_append_left hlt
  · have hlen : (l ++ [b]).length ≤ j := by
      rw [List.length_append, List.length_singleton]
      exact hgt
    rw [List.getElem?_eq_none hlen, List.getElem?_eq_none (Nat.le_of_lt hgt)]

/-! ## Totals of natural numbers -/

theorem le_total : ∀ {l : List α} {i : Nat} {a : α} {f : Nat → α → Nat},
    l[i]? = some a → f i a ≤ total f l
  | [], _, _, _, h => by simp at h
  | c :: l, 0, a, f, h => by
      obtain rfl : c = a := by simpa using h
      exact Nat.le_add_right _ _
  | c :: l, i + 1, a, f, h => by
      have := le_total (f := fun i => f (i + 1)) (by simpa using h)
      simp only [total]
      omega

/-- Two different parties' entries are both counted. -/
theorem add_le_total : ∀ {l : List α} {i j : Nat} {a b : α} {f : Nat → α → Nat},
    l[i]? = some a → l[j]? = some b → i ≠ j → f i a + f j b ≤ total f l
  | [], _, _, _, _, _, h, _, _ => by simp at h
  | c :: l, 0, 0, _, _, _, _, _, hne => absurd rfl hne
  | c :: l, 0, j + 1, a, b, f, ha, hb, _ => by
      obtain rfl : c = a := by simpa using ha
      have := le_total (f := fun i => f (i + 1)) (by simpa using hb)
      simp only [total]
      omega
  | c :: l, i + 1, 0, a, b, f, ha, hb, _ => by
      obtain rfl : c = b := by simpa using hb
      have := le_total (f := fun i => f (i + 1)) (by simpa using ha)
      simp only [total]
      omega
  | c :: l, i + 1, j + 1, a, b, f, ha, hb, hne => by
      have := add_le_total (f := fun i => f (i + 1)) (by simpa using ha) (by simpa using hb)
        (by omega : i ≠ j)
      simp only [total]
      omega

theorem total_le_total : ∀ {l : List α} {f g : Nat → α → Nat},
    (∀ i a, l[i]? = some a → f i a ≤ g i a) → total f l ≤ total g l
  | [], _, _, _ => Nat.le_refl 0
  | a :: l, f, g, h => by
      have htail := total_le_total (l := l) (f := fun i => f (i + 1)) (g := fun i => g (i + 1))
        (fun i b hb => h (i + 1) b (by simpa using hb))
      exact Nat.add_le_add (h 0 a rfl) htail

/-- A positive total has a party that contributes to it. -/
theorem exists_of_total_pos {l : List α} {f : Nat → α → Nat} (h : 0 < total f l) :
    ∃ i a, l[i]? = some a ∧ 0 < f i a := by
  by_contra hnone
  have hzero : total f l = 0 := by
    refine total_eq_zero (fun i a ha => ?_)
    by_contra hne
    exact hnone ⟨i, a, ha, Nat.pos_of_ne_zero hne⟩
  omega

end Ledger
