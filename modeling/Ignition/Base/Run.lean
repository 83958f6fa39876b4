/-!
# Runs of a transition function

A machine is a function `step : σ → α → Option σ`: the state after an action, or
`none` where the action is not enabled. `Run step ok s as s'` is a run along the
actions `as` in which every action also meets `ok` in the state it is taken in, so a
theorem about runs can say which steps it covers. An initial part of a run is a run,
hence what holds at the end of every run holds in every state on the way.
-/

namespace Runs

variable {σ α : Type}

inductive Run (step : σ → α → Option σ) (ok : σ → α → Prop) : σ → List α → σ → Prop where
  | nil (s : σ) : Run step ok s [] s
  | cons {s s₁ s' : σ} {a : α} {as : List α} :
      ok s a → step s a = some s₁ → Run step ok s₁ as s' → Run step ok s (a :: as) s'

variable {step : σ → α → Option σ} {ok : σ → α → Prop} {s : σ} {as : List α}

theorem Run.invariant {Inv : σ → Prop}
    (hstep : ∀ s a s', Inv s → ok s a → step s a = some s' → Inv s') {s' : σ}
    (h : Run step ok s as s') (hs : Inv s) : Inv s' := by
  induction h with
  | nil s => exact hs
  | cons hok hst _ ih => exact ih (hstep _ _ _ hs hok hst)

theorem Run.mono {ok' : σ → α → Prop} (himp : ∀ s a, ok s a → ok' s a) {s' : σ}
    (h : Run step ok s as s') : Run step ok' s as s' := by
  induction h with
  | nil s => exact .nil s
  | cons hok hst _ ih => exact .cons (himp _ _ hok) hst ih

def after (step : σ → α → Option σ) (s : σ) : List α → Option σ
  | [] => some s
  | a :: as => (step s a).bind fun s₁ => after step s₁ as

def checked (step : σ → α → Option σ) (ok : σ → α → Prop) [∀ s a, Decidable (ok s a)] (s : σ)
    (a : α) : Option σ :=
  if ok s a then step s a else none

theorem run_of_checked [∀ s a, Decidable (ok s a)] : ∀ {as : List α} {s s' : σ},
    after (checked step ok) s as = some s' → Run step ok s as s'
  | [], s, s', h => by
    rw [after, Option.some.injEq] at h
    subst h
    exact .nil s
  | a :: as, s, s', h => by
    obtain ⟨s₁, hs, h⟩ := Option.bind_eq_some_iff.mp h
    unfold checked at hs
    split at hs
    next hok => exact .cons hok hs (run_of_checked h)
    · cases hs

theorem run_of_after {s' : σ} (h : after step s as = some s') :
    Run step (fun _ _ => True) s as s' := by
  have hall : checked step (fun _ _ => True) = step :=
    funext fun _ => funext fun _ => if_pos trivial
  exact run_of_checked (hall.symm ▸ h)

theorem exists_run [∀ s a, Decidable (ok s a)] {P : σ → Prop}
    (h : ∃ s' ∈ after (checked step ok) s as, P s') : ∃ s', Run step ok s as s' ∧ P s' := by
  obtain ⟨s', hs', hP⟩ := h
  exact ⟨s', run_of_checked hs', hP⟩

end Runs
