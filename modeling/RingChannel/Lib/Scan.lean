/-
# `RingChannel.Lib.Scan` — searchers that walk a list of places

Some places of a list are full.  Searchers walk the list from front to back; a
searcher is known by the places it has yet to visit, which are a suffix of the
list.  One that comes to a full place empties it and is done, and meanwhile
places are filled anywhere, behind the searchers as well as ahead of them.

When does everyone find something?  Counting the full places is not enough,
since they may all lie behind.  What is kept is a Hall condition, `Covered`: for
every `n`, the searchers with at most `n` places to go are no more than the full
places among the last `n`.  A searcher that passes an empty place moves to a
smaller `n`, and there is room for it there, because the place it passed did not
count.  A searcher at the end of the list would need a full place among none.
-/
import Mathlib.Data.List.DropRight
import Mathlib.Data.Multiset.Count

namespace Scan

variable {α : Type}

/-- The searchers with at most `n` places to go. -/
def within (n : Nat) (ss : Multiset (List α)) : Nat := ss.countP fun ks => ks.length ≤ n

theorem within_cons (n : Nat) (ks : List α) (ss : Multiset (List α)) :
    within n (ks ::ₘ ss) = within n ss + if ks.length ≤ n then 1 else 0 :=
  Multiset.countP_cons ..

theorem within_cons_of_le {n : Nat} {ks : List α} (ss : Multiset (List α))
    (h : ks.length ≤ n) : within n (ks ::ₘ ss) = within n ss + 1 := by
  rw [within_cons, if_pos h]

theorem within_cons_of_lt {n : Nat} {ks : List α} (ss : Multiset (List α))
    (h : n < ks.length) : within n (ks ::ₘ ss) = within n ss := by
  rw [within_cons, if_neg (Nat.not_le_of_lt h)]
  rfl

theorem within_mono {m n : Nat} (h : m ≤ n) (ss : Multiset (List α)) :
    within m ss ≤ within n ss := by
  induction ss using Multiset.induction_on with
  | empty => exact Nat.le_refl _
  | cons ks ss ih =>
      rw [within_cons, within_cons]
      split <;> split <;> omega

theorem within_le_card (n : Nat) (ss : Multiset (List α)) : within n ss ≤ Multiset.card ss :=
  Multiset.countP_le_card ..

/-- There is enough for everyone ahead of everyone. -/
def Covered (l : List α) (full : α → Bool) (ss : Multiset (List α)) : Prop :=
  ∀ n, within n ss ≤ (l.rtake n).countP full

/-! ## The last places of a list -/

theorem rtake_of_suffix {ks l : List α} (h : ks <:+ l) : l.rtake ks.length = ks :=
  (List.suffix_iff_eq_drop.mp h).symm

/-- The last `n` places begin behind whoever has more than `n` to go. -/
theorem rtake_suffix {ks l : List α} {n : Nat} (h : ks <:+ l) (hn : n ≤ ks.length) :
    l.rtake n <:+ ks := by
  obtain ⟨l₀, rfl⟩ := h
  have hdrop : (l₀ ++ ks).rtake n = ks.drop (ks.length - n) := by
    rw [List.rtake, List.length_append, List.drop_append,
      List.drop_eq_nil_of_le (by omega), List.nil_append]
    congr 1
    omega
  rw [hdrop]
  exact List.drop_suffix ..

/-- The last `n` places begin before whoever has at most `n` to go. -/
theorem suffix_rtake {ks l : List α} {n : Nat} (h : ks <:+ l) (hn : ks.length ≤ n) :
    ks <:+ l.rtake n :=
  List.suffix_of_suffix_length_le h (List.drop_suffix ..) (by
    have := h.length_le
    rw [List.rtake, List.length_drop]
    omega)

theorem rtake_of_le {l : List α} {n : Nat} (h : l.length ≤ n) : l.rtake n = l := by
  rw [List.rtake, Nat.sub_eq_zero_of_le h, List.drop_zero]

/-- One full place is emptied. -/
theorem countP_clear {k : α} {full full' : α → Bool} (hk : full k = true)
    (hk' : full' k = false) (hoff : ∀ j, j ≠ k → full' j = full j) :
    ∀ {l : List α}, l.Nodup → k ∈ l → l.countP full' + 1 = l.countP full
  | j :: l, hnd, hmem => by
      obtain ⟨hj, hnd⟩ := List.nodup_cons.mp hnd
      rcases List.mem_cons.mp hmem with rfl | hmem
      · have hsame : l.countP full' = l.countP full :=
          List.countP_congr fun i hi => by
            rw [hoff i (fun h => hj (h ▸ hi))]
        rw [List.countP_cons_of_pos hk, List.countP_cons_of_neg (by simp [hk']), hsame]
      · have hne : j ≠ k := fun h => hj (h ▸ hmem)
        have ih := countP_clear hk hk' hoff hnd hmem
        rw [List.countP_cons, List.countP_cons, hoff j hne]
        omega

theorem countP_off {k : α} {full full' : α → Bool} (hoff : ∀ j, j ≠ k → full' j = full j)
    {l : List α} (hk : k ∉ l) : l.countP full' = l.countP full :=
  List.countP_congr fun j hj => by
    rw [hoff j (fun h => hk (h ▸ hj))]

/-! ## What keeps everyone covered -/

theorem covered_zero (l : List α) (full : α → Bool) : Covered l full 0 :=
  fun _ => Nat.zero_le _

/-- Nobody is left without a place to go. -/
theorem not_covered_nil {l : List α} {full : α → Bool} {ss : Multiset (List α)} :
    ¬ Covered l full ([] ::ₘ ss) := by
  intro h
  have hzero := h 0
  rw [within_cons_of_le ss (Nat.le_refl 0), List.rtake_zero, List.countP_nil] at hzero
  omega

/-- Places are filled. -/
theorem Covered.fill {l : List α} {full full' : α → Bool} {ss : Multiset (List α)}
    (h : Covered l full ss) (hfull : ∀ k, full k = true → full' k = true) :
    Covered l full' ss := fun n =>
  (h n).trans (List.countP_mono_left fun k _ => hfull k)

/-- A searcher passes an empty place. -/
theorem Covered.miss {l ks : List α} {k : α} {full : α → Bool} {ss : Multiset (List α)}
    (h : Covered l full ((k :: ks) ::ₘ ss)) (hsuf : (k :: ks) <:+ l) (hk : full k = false) :
    Covered l full (ks ::ₘ ss) := by
  intro n
  have hn := h n
  rcases Nat.lt_trichotomy n ks.length with hlt | rfl | hgt
  · rw [within_cons_of_lt ss hlt]
    rwa [within_cons_of_lt ss (Nat.lt_succ_of_lt hlt)] at hn
  · -- it was counted one place further back, and the place it passed was not
    have hback := h (ks.length + 1)
    have hmono := within_mono (Nat.le_add_right ks.length 1) ss
    have hlast : (l.rtake (ks.length + 1)).countP full = (l.rtake ks.length).countP full := by
      have hself := rtake_of_suffix hsuf
      rw [List.length_cons] at hself
      rw [hself, rtake_of_suffix ((List.suffix_cons k ks).trans hsuf),
        List.countP_cons_of_neg (by simp [hk])]
    rw [within_cons_of_le ss (Nat.le_of_eq (List.length_cons (a := k)))] at hback
    rw [within_cons_of_le ss (Nat.le_refl _)]
    omega
  · rw [within_cons_of_le ss (Nat.le_of_lt hgt)]
    rwa [within_cons_of_le ss hgt] at hn

/-- A searcher empties a full place, and is done. -/
theorem Covered.hit {l ks : List α} {k : α} {full full' : α → Bool} {ss : Multiset (List α)}
    (h : Covered l full ((k :: ks) ::ₘ ss)) (hnd : l.Nodup) (hsuf : (k :: ks) <:+ l)
    (hk : full k = true) (hk' : full' k = false) (hoff : ∀ j, j ≠ k → full' j = full j) :
    Covered l full' ss := by
  intro n
  have hn := h n
  rcases Nat.lt_or_ge n (k :: ks).length with hlt | hge
  · -- the place lies before the last `n`
    have hsub := rtake_suffix ((List.suffix_cons k ks).trans hsuf) (Nat.le_of_lt_succ hlt)
    have hnot : k ∉ l.rtake n := fun hmem =>
      (List.nodup_cons.mp (hsuf.sublist.nodup hnd)).1 (hsub.subset hmem)
    rwa [within_cons_of_lt ss hlt, ← countP_off hoff hnot] at hn
  · have hmem : k ∈ l.rtake n := (suffix_rtake hsuf hge).subset List.mem_cons_self
    have hclear := countP_clear hk hk' hoff ((List.drop_sublist ..).nodup hnd) hmem
    rw [within_cons_of_le ss hge] at hn
    have hclear' : (l.rtake n).countP full' + 1 = (l.rtake n).countP full := hclear
    omega

/-- A searcher starts, and there is a full place left for it. -/
theorem Covered.join {l : List α} {full : α → Bool} {ss : Multiset (List α)}
    (h : Covered l full ss) (hcard : Multiset.card ss + 1 ≤ l.countP full) :
    Covered l full (l ::ₘ ss) := by
  intro n
  rcases Nat.lt_or_ge n l.length with hlt | hge
  · rw [within_cons_of_lt ss hlt]
    exact h n
  · rw [within_cons_of_le ss hge, rtake_of_le hge]
    have := within_le_card n ss
    omega

end Scan
