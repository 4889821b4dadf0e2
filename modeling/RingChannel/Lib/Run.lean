/-
# `RingChannel.Lib.Run` — runs of a transition system, with their traces

A system is a relation `next s e s'`: in state `s` the step that shows as the
event `e` leads to `s'`.  A run keeps its whole past, as the list of the steps
taken, the newest first, each with the state it left.  Safety properties are
then predicates of a trace and the state it ends in, and `Run.invariant` is the
one induction they all go through.

Many properties hold only of clients that keep to some usage rule.  Such a rule
is a predicate `ok` on the past, the state and the event about to happen, and
`Run next ok s₀` are the runs all of whose steps obey it.  `Free` is the rule
that asks for nothing.
-/
import Mathlib.Tactic.Common

variable {σ ε α : Type}

/-- The steps of a run, the newest first, each with the state it left. -/
abbrev Trace (σ ε : Type) : Type := List (σ × ε)

/-- The runs of `next` from `s₀` whose steps all obey `ok`. -/
inductive Run (next : σ → ε → σ → Prop) (ok : Trace σ ε → σ → ε → Prop) (s₀ : σ) :
    Trace σ ε → σ → Prop
  | start : Run next ok s₀ [] s₀
  | step {tr : Trace σ ε} {s : σ} {e : ε} {s' : σ} :
      Run next ok s₀ tr s → next s e s' → ok tr s e → Run next ok s₀ ((s, e) :: tr) s'

/-- The steps of a trace that ends in `s`, each with the state it left and the
state it reached. -/
def steps : Trace σ ε → σ → List (σ × ε × σ)
  | [], _ => []
  | (u, e) :: tr, s => (u, e, s) :: steps tr u

/-- No rule: every step is allowed. -/
def Free (_ : Trace σ ε) (_ : σ) (_ : ε) : Prop := True

instance decFree (tr : Trace σ ε) (s : σ) (e : ε) : Decidable (Free tr s e) :=
  inferInstanceAs (Decidable True)

namespace Run

variable {next : σ → ε → σ → Prop} {ok ok' : Trace σ ε → σ → ε → Prop} {s₀ : σ}

/-- What holds at the start and is kept by every step holds of every run. -/
theorem invariant {I : Trace σ ε → σ → Prop} (hstart : I [] s₀)
    (hstep : ∀ tr s e s', Run next ok s₀ tr s → I tr s → next s e s' → ok tr s e →
      I ((s, e) :: tr) s') :
    ∀ {tr : Trace σ ε} {s : σ}, Run next ok s₀ tr s → I tr s := by
  intro tr s h
  induction h with
  | start => exact hstart
  | step h hn hok ih => exact hstep _ _ _ _ h ih hn hok

/-- A run under one rule is a run under any weaker one. -/
theorem weaken (hok : ∀ tr s e, ok tr s e → ok' tr s e) :
    ∀ {tr : Trace σ ε} {s : σ}, Run next ok s₀ tr s → Run next ok' s₀ tr s := by
  intro tr s h
  induction h with
  | start => exact .start
  | step _ hn h ih => exact ih.step hn (hok _ _ _ h)

/-- A run under one rule is a run under any other that the states it reaches
make it obey. -/
theorem strengthen (hok : ∀ tr s e s', Run next ok s₀ tr s → next s e s' → ok tr s e →
      ok' tr s e) :
    ∀ {tr : Trace σ ε} {s : σ}, Run next ok s₀ tr s → Run next ok' s₀ tr s := by
  intro tr s h
  induction h with
  | start => exact .start
  | step h hn h' ih => exact ih.step hn (hok _ _ _ _ h hn h')

/-- Every step in the trace was taken, from a state the run had reached. -/
theorem of_mem : ∀ {tr : Trace σ ε} {s : σ}, Run next ok s₀ tr s →
    ∀ {u : σ} {e : ε}, (u, e) ∈ tr →
      ∃ tr₁ v, Run next ok s₀ tr₁ u ∧ next u e v ∧ ok tr₁ u e := by
  intro tr s h
  induction h with
  | start => intro u e hmem; cases hmem
  | step h hn hok ih =>
      intro u e hmem
      rcases List.mem_cons.mp hmem with heq | hold
      · cases heq
        exact ⟨_, _, h, hn, hok⟩
      · exact ih hold

/-- What some step of a run brings about, and every step keeps, holds at the end. -/
theorem onward {J : σ → Prop} {u : σ} {e : ε}
    (hset : ∀ tr v, Run next ok s₀ tr u → next u e v → J v)
    (hkeep : ∀ tr s f s', Run next ok s₀ tr s → J s → next s f s' → J s') :
    ∀ {tr : Trace σ ε} {s : σ}, Run next ok s₀ tr s → (u, e) ∈ tr → J s := by
  intro tr s h
  induction h with
  | start => intro hmem; cases hmem
  | step h hn hok ih =>
      intro hmem
      rcases List.mem_cons.mp hmem with heq | hold
      · cases heq
        exact hset _ _ h hn
      · exact hkeep _ _ _ _ h (ih hold) hn

/-- What holds when the steps of `tr₁` have been taken, and is kept by every step
from then on, holds of every run that begins with them. -/
theorem after {I : Trace σ ε → σ → Prop} {tr₁ : Trace σ ε}
    (hstart : ∀ v, Run next ok s₀ tr₁ v → I [] v)
    (hstep : ∀ tr s e s', Run next ok s₀ (tr ++ tr₁) s → I tr s → next s e s' →
      ok (tr ++ tr₁) s e → I ((s, e) :: tr) s') :
    ∀ {tr : Trace σ ε} {s : σ}, Run next ok s₀ (tr ++ tr₁) s → I tr s := by
  intro tr
  induction tr with
  | nil => intro s h; exact hstart s h
  | cons x tr ih =>
      intro s h
      cases h with
      | step h hn hok => exact hstep _ _ _ _ h (ih h) hn hok

/-- Nothing follows a step that leads nowhere further. -/
theorem nil_of_dead {u : σ} {e : ε} {tr₁ tr₂ : Trace σ ε} {s : σ}
    (hdead : ∀ v, Run next ok s₀ tr₁ u → next u e v → ∀ f w, ¬ next v f w)
    (h : Run next ok s₀ (tr₂ ++ (u, e) :: tr₁) s) : tr₂ = [] := by
  have hend : tr₂ = [] ∧ ∀ f w, ¬ next s f w := by
    refine Run.after (I := fun tr s => tr = [] ∧ ∀ f w, ¬ next s f w) ?_ ?_ h
    · intro v hv
      cases hv with
      | step h hn _ => exact ⟨rfl, hdead v h hn⟩
    · intro _ _ _ _ _ hi hn _
      exact absurd hn (hi.2 _ _)
  exact hend.1

/-- A run from where another one ended continues it. -/
theorem append {tr₀ : Trace σ ε} {u : σ} (h₀ : Run next ok s₀ tr₀ u)
    (hok : ∀ tr s e, Run next ok' u tr s → ok' tr s e → ok (tr ++ tr₀) s e) :
    ∀ {tr : Trace σ ε} {s : σ}, Run next ok' u tr s → Run next ok s₀ (tr ++ tr₀) s := by
  intro tr s h
  induction h with
  | start => exact h₀
  | step h hn h' ih => exact ih.step hn (hok _ _ _ h h')

/-- Whatever rules the two obey. -/
theorem append_free {tr₀ tr : Trace σ ε} {u s : σ} (h₀ : Run next ok s₀ tr₀ u)
    (h : Run next ok' u tr s) : Run next Free s₀ (tr ++ tr₀) s :=
  (h₀.weaken fun _ _ _ _ => trivial).append (fun _ _ _ _ _ => trivial) h

end Run

/-! ## Where a run ends -/

/-- No step is possible that obeys the rule. -/
def Stuck (next : σ → ε → σ → Prop) (ok : Trace σ ε → σ → ε → Prop) (tr : Trace σ ε) (s : σ) :
    Prop :=
  ∀ e s', next s e s' → ¬ ok tr s e

/-- If the runs are of bounded length, each can be continued until it is stuck. -/
theorem Run.exists_stuck {next : σ → ε → σ → Prop} {ok : Trace σ ε → σ → ε → Prop} {s₀ : σ}
    {B : Nat} (hbound : ∀ tr s, Run next ok s₀ tr s → tr.length ≤ B) {tr : Trace σ ε} {s : σ}
    (h : Run next ok s₀ tr s) :
    ∃ tr' s', Run next ok s₀ (tr' ++ tr) s' ∧ Stuck next ok (tr' ++ tr) s' := by
  induction hleft : B - tr.length using Nat.strongRecOn generalizing tr s with
  | ind left ih =>
      by_cases hstuck : Stuck next ok tr s
      · exact ⟨[], s, h, hstuck⟩
      · simp only [Stuck, not_forall, not_not] at hstuck
        obtain ⟨e, s', hn, hok⟩ := hstuck
        have hlonger := h.step hn hok
        have hle := hbound _ _ hlonger
        rw [List.length_cons] at hle
        obtain ⟨tr', s'', hrun, hend⟩ := ih _ (by rw [List.length_cons]; omega) hlonger rfl
        have happ : (tr' ++ [(s, e)]) ++ tr = tr' ++ (s, e) :: tr := by simp
        exact ⟨tr' ++ [(s, e)], s'', happ ▸ hrun, happ ▸ hend⟩

/-! ## How often something has happened -/

/-- The number of events in `f`. -/
def times (f : ε → Bool) (tr : Trace σ ε) : Nat := tr.countP fun x => f x.2

@[simp] theorem times_nil (f : ε → Bool) : times f ([] : Trace σ ε) = 0 := rfl

theorem times_cons (f : ε → Bool) (s : σ) (e : ε) (tr : Trace σ ε) :
    times f ((s, e) :: tr) = times f tr + (f e).toNat := by
  cases he : f e with
  | true => exact List.countP_cons_of_pos he
  | false => exact List.countP_cons_of_neg (by simp [he])

/-! ## What has happened since

`since set reset` reads a trace as a flag that `set` raises and `reset` takes
down. -/

/-- Some event in `set` has happened, and none in `reset` since. -/
def since (set reset : ε → Bool) : Trace σ ε → Bool
  | [] => false
  | (_, e) :: tr => set e || (!reset e && since set reset tr)

theorem since_cons (set reset : ε → Bool) (s : σ) (e : ε) (tr : Trace σ ε) :
    since set reset ((s, e) :: tr) = (set e || (!reset e && since set reset tr)) := rfl

/-- What has happened since the last `b` has happened since the last `c`, if
the last `b` came after it. -/
theorem since_trans {a b c : ε → Bool} : ∀ {tr : Trace σ ε},
    since a b tr = true → since b c tr = true → since a c tr = true
  | [], hab, _ => by cases hab
  | (_, e) :: tr, hab, hbc => by
      rw [since_cons] at hab hbc ⊢
      cases ha : a e with
      | true => rfl
      | false =>
          rw [ha] at hab
          simp only [Bool.false_or, Bool.and_eq_true, Bool.not_eq_true'] at hab
          rw [hab.1] at hbc
          simp only [Bool.false_or, Bool.and_eq_true, Bool.not_eq_true'] at hbc
          simp [hbc.1, since_trans hab.2 hbc.2]

/-! ## Executable systems -/

/-- The relation of a system that is given by a function of a scheduling
choice. -/
def Next (step : σ → α → Option (ε × σ)) (s : σ) (e : ε) (s' : σ) : Prop :=
  ∃ a, step s a = some (e, s')

/-- Make the given choices one after the other, recording the trace; a choice
that is not enabled, or that breaks the rule, is passed over. -/
def play (step : σ → α → Option (ε × σ)) (ok : Trace σ ε → σ → ε → Prop)
    [∀ tr s e, Decidable (ok tr s e)] : Trace σ ε → σ → List α → Trace σ ε × σ
  | tr, s, [] => (tr, s)
  | tr, s, a :: as =>
      match step s a with
      | none => play step ok tr s as
      | some (e, s') =>
          if ok tr s e then play step ok ((s, e) :: tr) s' as else play step ok tr s as

theorem Run.of_play {step : σ → α → Option (ε × σ)} {ok : Trace σ ε → σ → ε → Prop}
    [∀ tr s e, Decidable (ok tr s e)] {s₀ : σ} :
    ∀ (as : List α) {tr : Trace σ ε} {s : σ}, Run (Next step) ok s₀ tr s →
      Run (Next step) ok s₀ (play step ok tr s as).1 (play step ok tr s as).2 := by
  intro as
  induction as with
  | nil => intro tr s h; exact h
  | cons a as ih =>
      intro tr s h
      simp only [play]
      split
      · exact ih h
      · split
        · exact ih (h.step ⟨a, ‹_›⟩ ‹_›)
        · exact ih h

/-- Without a rule, the choices do not depend on the past. -/
theorem play_free {step : σ → α → Option (ε × σ)} : ∀ (tr : Trace σ ε) (s : σ) (as : List α),
    play step Free tr s as
      = ((play step Free [] s as).1 ++ tr, (play step Free [] s as).2) := by
  intro tr s as
  induction as generalizing tr s with
  | nil => rfl
  | cons a as ih =>
      simp only [play]
      split
      · exact ih tr s
      · rename_i e s' _
        have hfree : ∀ (tr : Trace σ ε) (s : σ) (e : ε), Free tr s e := fun _ _ _ => trivial
        rw [if_pos (hfree ..), if_pos (hfree ..), ih ((s, e) :: tr) s', ih [(s, e)] s',
          List.append_assoc]
        rfl
