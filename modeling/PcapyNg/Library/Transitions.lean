/-!
# Runs of a labelled transition relation

A step may be allowed or not in the state it starts from, and a run takes allowed steps only.
Nothing is said of what states and labels are, nor of how many steps a state has.
-/

namespace PcapyNg.Transitions
set_option autoImplicit false

universe u v
variable {σ : Type u} {L : Type v}

/-- Steps one after the other, each of them allowed in the state it starts from. -/
inductive Run (step : σ → L → σ → Prop) (allowed : σ → L → Prop) (s₀ : σ) : σ → Prop where
  | nil : Run step allowed s₀ s₀
  | step {s s' : σ} {l : L} (hrun : Run step allowed s₀ s) (hstep : step s l s')
      (hl : allowed s l) : Run step allowed s₀ s'

/-- Any step is allowed. -/
def Unrestricted (_ : σ) (_ : L) : Prop := True

/-- Some run from here comes to a step that is not safe. -/
def GoesWrong (step : σ → L → σ → Prop) (allowed safe : σ → L → Prop) (s : σ) : Prop :=
  ∃ s₁ l s₂, Run step allowed s s₁ ∧ step s₁ l s₂ ∧ ¬ safe s₁ l

variable {step : σ → L → σ → Prop} {allowed safe : σ → L → Prop}

namespace Run

theorem cons {s s' s'' : σ} {l : L} (hstep : step s l s') (hl : allowed s l)
    (hrun : Run step allowed s' s'') : Run step allowed s s'' := by
  induction hrun with
  | nil => exact .step .nil hstep hl
  | step _ hstep' hl' ih => exact .step ih hstep' hl'

theorem trans {s s' s'' : σ} (hfst : Run step allowed s s') (hsnd : Run step allowed s' s'') :
    Run step allowed s s'' := by
  induction hsnd with
  | nil => exact hfst
  | step _ hstep hl ih => exact .step ih hstep hl

/-- What every allowed step keeps holds in every state that a run reaches. -/
theorem invariant {I : σ → Prop} {s₀ s : σ} (hrun : Run step allowed s₀ s) (h₀ : I s₀)
    (hkeep : ∀ s l s', I s → step s l s' → allowed s l → I s') : I s := by
  induction hrun with
  | nil => exact h₀
  | step _ hstep hl ih => exact hkeep _ _ _ ih hstep hl

end Run

namespace GoesWrong

theorem now {s s' : σ} {l : L} (hstep : step s l s') (h : ¬ safe s l) :
    GoesWrong step allowed safe s :=
  ⟨s, l, s', .nil, hstep, h⟩

theorem later {s s' : σ} {l : L} (hstep : step s l s') (hl : allowed s l)
    (h : GoesWrong step allowed safe s') : GoesWrong step allowed safe s := by
  rcases h with ⟨s₁, l₁, s₂, hrun, hstep₁, hunsafe⟩
  exact ⟨s₁, l₁, s₂, hrun.cons hstep hl, hstep₁, hunsafe⟩

end GoesWrong

theorem not_goesWrong_iff {s : σ} : ¬ GoesWrong step allowed safe s ↔
    ∀ s₁ l s₂, Run step allowed s s₁ → step s₁ l s₂ → safe s₁ l := by
  constructor
  · intro h s₁ l s₂ hrun hstep
    apply Classical.byContradiction
    intro hunsafe
    exact h ⟨s₁, l, s₂, hrun, hstep, hunsafe⟩
  · intro h hwrong
    rcases hwrong with ⟨s₁, l, s₂, hrun, hstep, hunsafe⟩
    exact hunsafe (h s₁ l s₂ hrun hstep)

/-- An invariant in whose states only safe steps start. -/
theorem not_goesWrong_of_invariant {I : σ → Prop} {s : σ}
    (hkeep : ∀ s l s', I s → step s l s' → allowed s l → I s')
    (hsafe : ∀ s l s', I s → step s l s' → safe s l) (hs : I s) :
    ¬ GoesWrong step allowed safe s := by
  apply not_goesWrong_iff.mpr
  intro s₁ l s₂ hrun hstep
  exact hsafe s₁ l s₂ (hrun.invariant hs hkeep) hstep

end PcapyNg.Transitions
