/-
# `RingChannel.Lib.Simulation` — the runs of one system, matched by those of another

A step shows something or nothing: `lab u e v` lists what the step `e` from `u`
to `v` shows.  One system simulates another if every step of the first can be
answered by some steps of the second, possibly none, that show the same; then
every run of the first is answered by a run of the second (`Simulates.run`).

The usage rule of the second system may look at the past, so the answer to a
step is a run under the rule as it stands after what has been answered so far.
A step may be answered in stages: `Answers.trans` puts two answers together.

The other half of the module is about two systems with the same events, whose
states a function carries over, step for step: the runs of the second are the
images of the runs of the first (`Run.image_iff`).
-/
import RingChannel.Lib.Run

variable {σ ε σ' ε' ℓ : Type}

/-- What a trace that ends in `s` shows, in the order in which it happened. -/
def shown (lab : σ → ε → σ → List ℓ) : Trace σ ε → σ → List ℓ
  | [], _ => []
  | (u, e) :: tr, s => shown lab tr u ++ lab u e s

/-- A run from where another one ended shows what that one did, and its own
steps. -/
theorem shown_append {next : σ → ε → σ → Prop} {ok : Trace σ ε → σ → ε → Prop} {u : σ}
    (lab : σ → ε → σ → List ℓ) (tr₀ : Trace σ ε) {tr : Trace σ ε} {s : σ}
    (h : Run next ok u tr s) : shown lab (tr ++ tr₀) s = shown lab tr₀ u ++ shown lab tr s := by
  induction h with
  | start => exact (List.append_nil _).symm
  | step _ _ _ ih =>
      simp only [List.cons_append, shown, ih]
      exact List.append_assoc ..

/-- The usage rule, when `tr₀` has happened. -/
def Rule.after (ok : Trace σ ε → σ → ε → Prop) (tr₀ : Trace σ ε) (tr : Trace σ ε) : σ → ε → Prop :=
  ok (tr ++ tr₀)

/-- From `s`, where `tr₀` has led, some steps that show `ls` lead to `s'`. -/
def Answers (next : σ → ε → σ → Prop) (ok : Trace σ ε → σ → ε → Prop)
    (lab : σ → ε → σ → List ℓ) (tr₀ : Trace σ ε) (s : σ) (ls : List ℓ) (tr : Trace σ ε) (s' : σ) :
    Prop :=
  Run next (Rule.after ok tr₀) s tr s' ∧ shown lab tr s' = ls

section Answers

variable {next : σ → ε → σ → Prop} {ok : Trace σ ε → σ → ε → Prop} {lab : σ → ε → σ → List ℓ}

theorem Answers.nil (tr₀ : Trace σ ε) (s : σ) : Answers next ok lab tr₀ s [] [] s :=
  ⟨.start, rfl⟩

theorem Answers.one {tr₀ : Trace σ ε} {s s' : σ} {e : ε} (hn : next s e s') (hok : ok tr₀ s e) :
    Answers next ok lab tr₀ s (lab s e s') [(s, e)] s' :=
  ⟨.step .start hn hok, rfl⟩

/-- An answer in two stages. -/
theorem Answers.trans {tr₀ tr₁ tr₂ : Trace σ ε} {s u s' : σ} {ls ls' : List ℓ}
    (h₁ : Answers next ok lab tr₀ s ls tr₁ u) (h₂ : Answers next ok lab (tr₁ ++ tr₀) u ls' tr₂ s') :
    Answers next ok lab tr₀ s (ls ++ ls') (tr₂ ++ tr₁) s' := by
  obtain ⟨hrun₁, rfl⟩ := h₁
  obtain ⟨hrun₂, rfl⟩ := h₂
  refine ⟨hrun₁.append (fun tr v e _ hok => ?_) hrun₂, shown_append lab tr₁ hrun₂⟩
  show ok ((tr ++ tr₁) ++ tr₀) v e
  rw [List.append_assoc]
  exact hok

end Answers

/-- The second system simulates the first, from the start on: `R` relates the
states, and each step of the first is answered. -/
structure Simulates (next : σ → ε → σ → Prop) (ok : Trace σ ε → σ → ε → Prop) (s₀ : σ)
    (lab : σ → ε → σ → List ℓ) (next' : σ' → ε' → σ' → Prop)
    (ok' : Trace σ' ε' → σ' → ε' → Prop) (s₀' : σ') (lab' : σ' → ε' → σ' → List ℓ)
    (R : σ → σ' → Prop) : Prop where
  start : R s₀ s₀'
  step : ∀ {tr : Trace σ ε} {s u : σ} {e : ε} {tr' : Trace σ' ε'} {s' : σ'},
    Run next ok s₀ tr s → next s e u → ok tr s e → Run next' ok' s₀' tr' s' → R s s' →
      ∃ tr'' u', Answers next' ok' lab' tr' s' (lab s e u) tr'' u' ∧ R u u'

/-- Every run of the first system is answered by a run of the second. -/
theorem Simulates.run {next : σ → ε → σ → Prop} {ok : Trace σ ε → σ → ε → Prop} {s₀ : σ}
    {lab : σ → ε → σ → List ℓ} {next' : σ' → ε' → σ' → Prop}
    {ok' : Trace σ' ε' → σ' → ε' → Prop} {s₀' : σ'} {lab' : σ' → ε' → σ' → List ℓ}
    {R : σ → σ' → Prop} (hsim : Simulates next ok s₀ lab next' ok' s₀' lab' R)
    {tr : Trace σ ε} {s : σ} (h : Run next ok s₀ tr s) :
    ∃ tr' s', Run next' ok' s₀' tr' s' ∧ shown lab' tr' s' = shown lab tr s ∧ R s s' := by
  induction h with
  | start => exact ⟨[], s₀', .start, rfl, hsim.start⟩
  | step hrun hn hok ih =>
      obtain ⟨tr', s', hrun', hshown, hR⟩ := ih
      obtain ⟨tr'', u', ⟨hanswer, hlab⟩, hR'⟩ := hsim.step hrun hn hok hrun' hR
      refine ⟨tr'' ++ tr', u', hrun'.append (fun _ _ _ _ h => h) hanswer, ?_, hR'⟩
      rw [shown_append lab' tr' hanswer, hshown, hlab]
      rfl

/-- If `φ` carries the steps and the rule of one system over to the other, the
runs of the other are the images. -/
theorem Run.image_iff {next : σ → ε → σ → Prop} {ok : Trace σ ε → σ → ε → Prop} {s₀ : σ}
    {next' : σ' → ε → σ' → Prop} {ok' : Trace σ' ε → σ' → ε → Prop} {φ : σ → σ'}
    (hstep : ∀ {tr : Trace σ ε} {s : σ}, Run next ok s₀ tr s → ∀ e u',
      next' (φ s) e u' ↔ ∃ u, next s e u ∧ φ u = u')
    (hok : ∀ tr s e, ok' (tr.map (Prod.map φ id)) (φ s) e ↔ ok tr s e) {tr' : Trace σ' ε}
    {s' : σ'} :
    Run next' ok' (φ s₀) tr' s' ↔
      ∃ tr s, Run next ok s₀ tr s ∧ tr.map (Prod.map φ id) = tr' ∧ φ s = s' := by
  constructor
  · intro h
    induction h with
    | start => exact ⟨[], s₀, .start, rfl, rfl⟩
    | step _ hn hrule ih =>
        obtain ⟨tr, s, hrun, rfl, rfl⟩ := ih
        obtain ⟨u, hn', rfl⟩ := (hstep hrun _ _).mp hn
        exact ⟨_, u, hrun.step hn' ((hok _ _ _).mp hrule), rfl, rfl⟩
  · rintro ⟨tr, s, h, rfl, rfl⟩
    induction h with
    | start => exact .start
    | step hrun hn hrule ih =>
        exact ih.step ((hstep hrun _ _).mpr ⟨_, hn, rfl⟩) ((hok _ _ _).mpr hrule)
