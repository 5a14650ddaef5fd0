import Mathlib.Data.List.Basic

/-! Labelled transition systems given by an executable step function, and
their runs. A run carries a condition that each of its steps meets, so that one
relation expresses free runs, restricted segments and guarded runs. -/
namespace WgBp.Library.Transition

variable {σ ℓ : Type} {next : σ → ℓ → Option σ} {ok ok' : σ → ℓ → Prop}

/-- `Run next ok s t`: some sequence of enabled steps, each meeting `ok` in the
state it starts from, leads from `s` to `t`. -/
inductive Run (next : σ → ℓ → Option σ) (ok : σ → ℓ → Prop) : σ → σ → Prop where
  | refl (state : σ) : Run next ok state state
  | step {first mid last : σ} {label : ℓ} : Run next ok first mid → ok mid label →
      next mid label = some last → Run next ok first last

def always : σ → ℓ → Prop := fun _ _ => True

theorem Run.single {first last : σ} {label : ℓ} (hok : ok first label)
    (hnext : next first label = some last) : Run next ok first last :=
  .step (.refl first) hok hnext

theorem Run.trans {first mid last : σ} (h₁ : Run next ok first mid)
    (h₂ : Run next ok mid last) : Run next ok first last := by
  induction h₂ with
  | refl => exact h₁
  | step _ hok hnext ih => exact .step ih hok hnext

theorem Run.mono {first last : σ} (weaker : ∀ state label, ok state label → ok' state label)
    (h : Run next ok first last) : Run next ok' first last := by
  induction h with
  | refl => exact .refl _
  | step _ hok hnext ih => exact .step ih (weaker _ _ hok) hnext

/-- What holds at the start and is preserved by every admitted step holds
throughout. The preservation proof may use that the state is reached. -/
theorem Run.invariant {first last : σ} (inv : σ → Prop) (start : inv first)
    (preserved : ∀ state label after, Run next ok first state → inv state →
      ok state label → next state label = some after → inv after)
    (h : Run next ok first last) : inv last := by
  induction h with
  | refl => exact start
  | step hrun hok hnext ih => exact preserved _ _ _ hrun ih hok hnext

/-- A run that another system can follow step by step. -/
theorem Run.simulated {τ : Type} {next' : τ → ℓ → Option τ} {follows : τ → ℓ → Prop}
    {rel : τ → σ → Prop}
    (step : ∀ abstract state label after, rel abstract state → ok state label →
      next state label = some after →
        ∃ moved, follows abstract label ∧ next' abstract label = some moved ∧ rel moved after)
    {first last : σ} {start : τ} (related : rel start first) (run : Run next ok first last) :
    ∃ reached, Run next' follows start reached ∧ rel reached last := by
  induction run with
  | refl => exact ⟨start, .refl start, related⟩
  | step hrun hok hnext ih =>
      obtain ⟨mid, hmid, hrelated⟩ := ih
      obtain ⟨moved, hfollows, hmoved, hlast⟩ := step _ _ _ _ hrelated hok hnext
      exact ⟨moved, .step hmid hfollows hmoved, hlast⟩

def replay (next : σ → ℓ → Option σ) (check : σ → ℓ → Bool) : σ → List ℓ → Option σ
  | state, [] => some state
  | state, label :: rest =>
    if check state label then
      (next state label).bind fun after => replay next check after rest
    else none

theorem run_of_replay {check : σ → ℓ → Bool}
    (hcheck : ∀ state label, check state label = true → ok state label) :
    ∀ {labels : List ℓ} {first last : σ}, replay next check first labels = some last →
      Run next ok first last := by
  intro labels
  induction labels with
  | nil =>
      intro first last h
      cases h
      exact .refl _
  | cons label rest ih =>
      intro first last h
      unfold replay at h
      split at h
      · rename_i hok
        obtain ⟨after, hnext, hrest⟩ := Option.bind_eq_some_iff.mp h
        exact (Run.single (hcheck _ _ hok) hnext).trans (ih hrest)
      · cases h

/-- A replay to a state with some property shows that such a state is reached. -/
theorem reached_of_replay {check : σ → ℓ → Bool}
    (hcheck : ∀ state label, check state label = true → ok state label) {labels : List ℓ}
    {first : σ} {found : σ → Bool} (h : (replay next check first labels).any found = true) :
    ∃ last, Run next ok first last ∧ found last = true := by
  obtain ⟨last, hreplay, hfound⟩ := (Option.any_eq_true _ _).mp h
  exact ⟨last, run_of_replay hcheck hreplay, hfound⟩

end WgBp.Library.Transition
