import Ignition.Base.Run

/-!
# Runs that go on for ever

What a machine eventually does. A run without end has a state and an action for every point
in time. `Forever.eventually` is the rule the results use: a rank that no step raises and
that some steps lower cannot go down for ever, so if those steps keep coming until the goal is
reached, it is reached. That they keep coming is what fairness is for (`FairTo`): a party that
could act all the time from some point on does act. Where being able to act is not lost except
by acting, one moment in which it could is enough (`FairTo.acts`).
-/

namespace Runs

variable {σ α : Type}

/-- One of the actions `mine` can be taken. -/
def Enabled (step : σ → α → Option σ) (mine : α → Prop) (s : σ) : Prop :=
  ∃ a s', mine a ∧ step s a = some s'

structure Forever (step : σ → α → Option σ) (ok : σ → α → Prop) where
  state : Nat → σ
  act : Nat → α
  next : ∀ i, step (state i) (act i) = some (state (i + 1))
  covered : ∀ i, ok (state i) (act i)

namespace Forever

variable {step : σ → α → Option σ} {ok : σ → α → Prop} (ρ : Forever step ok)

/-- The first `n` actions. -/
def acts : Nat → List α
  | 0 => []
  | n + 1 => acts n ++ [ρ.act n]

theorem run_append {s s' s'' : σ} {as : List α} {a : α} (h : Run step ok s as s') (hok : ok s' a)
    (hst : step s' a = some s'') : Run step ok s (as ++ [a]) s'' := by
  induction h with
  | nil s => exact .cons hok hst (.nil s'')
  | cons hok' hst' _ ih => exact .cons hok' hst' (ih hok hst)

theorem run (n : Nat) : Run step ok (ρ.state 0) (ρ.acts n) (ρ.state n) := by
  induction n with
  | zero => exact .nil _
  | succ n ih => exact run_append ih (ρ.covered n) (ρ.next n)

variable {P Q : σ → Prop} {i : Nat}

theorem rank_until {rank : σ → Nat} {helps : α → Prop}
    (hstep : ∀ s a s', P s → ¬ Q s → ok s a → step s a = some s' →
      Q s' ∨ P s' ∧ rank s' ≤ rank s ∧ (helps a → rank s' < rank s)) (hP : P (ρ.state i)) (n : Nat) :
    (∃ j, i ≤ j ∧ Q (ρ.state j)) ∨ P (ρ.state (i + n)) ∧ rank (ρ.state (i + n)) ≤ rank (ρ.state i) := by
  induction n with
  | zero => exact .inr ⟨hP, Nat.le_refl _⟩
  | succ n ih =>
    rcases ih with hQ | ⟨hPn, hle⟩
    · exact .inl hQ
    by_cases hQn : Q (ρ.state (i + n))
    · exact .inl ⟨i + n, Nat.le_add_right i n, hQn⟩
    · rcases hstep _ _ _ hPn hQn (ρ.covered _) (ρ.next _) with hQ | ⟨hP', hle', -⟩
      · exact .inl ⟨i + n + 1, by omega, hQ⟩
      · exact .inr ⟨hP', Nat.le_trans hle' hle⟩

/-- **The rank rule.** -/
theorem eventually (rank : σ → Nat) (helps : α → Prop)
    (hstep : ∀ s a s', P s → ¬ Q s → ok s a → step s a = some s' →
      Q s' ∨ P s' ∧ rank s' ≤ rank s ∧ (helps a → rank s' < rank s))
    (hfair : ∀ i, P (ρ.state i) → ¬ Q (ρ.state i) →
      ∃ j, i ≤ j ∧ (helps (ρ.act j) ∨ Q (ρ.state j))) (hP : P (ρ.state i)) : ∃ j, i ≤ j ∧ Q (ρ.state j) := by
  -- by induction on the rank: the next step that helps lowers it
  induction hn : rank (ρ.state i) using Nat.strongRecOn generalizing i with
  | ind n ih =>
    by_cases hQ : Q (ρ.state i)
    · exact ⟨i, Nat.le_refl i, hQ⟩
    obtain ⟨j, hij, hhelps | hQj⟩ := hfair i hP hQ
    case inr => exact ⟨j, hij, hQj⟩
    obtain ⟨d, rfl⟩ := Nat.exists_eq_add_of_le hij
    rcases ρ.rank_until hstep hP d with hdone | ⟨hPj, hle⟩
    · exact hdone
    by_cases hQj : Q (ρ.state (i + d))
    · exact ⟨i + d, hij, hQj⟩
    rcases hstep _ _ _ hPj hQj (ρ.covered _) (ρ.next _) with hQ' | ⟨hP', -, hlt⟩
    · exact ⟨i + d + 1, by omega, hQ'⟩
    · have hless := hlt hhelps
      obtain ⟨j, hj, hQj'⟩ := ih _ (by omega) hP' rfl
      exact ⟨j, by omega, hQj'⟩

/-- Weak fairness: whoever takes the actions `mine` is not held up for ever. -/
def FairTo (mine : α → Prop) : Prop :=
  ∀ i, (∀ j, i ≤ j → Enabled step mine (ρ.state j)) → ∃ j, i ≤ j ∧ mine (ρ.act j)

variable {ρ}

theorem FairTo.acts {mine : α → Prop} (h : ρ.FairTo mine)
    (hstable : ∀ j, Enabled step mine (ρ.state j) → ¬ mine (ρ.act j) →
      Enabled step mine (ρ.state (j + 1))) (hi : Enabled step mine (ρ.state i)) : ∃ j, i ≤ j ∧ mine (ρ.act j) := by
  refine Classical.byContradiction fun hnever => ?_
  have hnot : ∀ j, i ≤ j → ¬ mine (ρ.act j) := fun j hij hmine => hnever ⟨j, hij, hmine⟩
  refine hnever (h i fun j hij => ?_)
  induction hij with
  | refl => exact hi
  | step hij ih => exact hstable _ ih (hnot _ hij)

theorem FairTo.eventually {mine : α → Prop} (h : ρ.FairTo mine)
    (rank : σ → Nat) (henabled : ∀ s, P s → ¬ Q s → Enabled step mine s)
    (hstep : ∀ s a s', P s → ¬ Q s → ok s a → step s a = some s' →
      Q s' ∨ P s' ∧ rank s' ≤ rank s ∧ (mine a → rank s' < rank s)) (hP : P (ρ.state i)) : ∃ j, i ≤ j ∧ Q (ρ.state j) := by
  refine ρ.eventually rank mine hstep (fun i hP _ => ?_) hP
  refine Classical.byContradiction fun hnever => ?_
  have hnot : ∀ j, i ≤ j → ¬ Q (ρ.state j) := fun j hij hQ => hnever ⟨j, hij, .inr hQ⟩
  -- as long as nothing happens the party can act all the time
  have hall : ∀ j, i ≤ j → Enabled step mine (ρ.state j) := by
    intro j hij
    obtain ⟨d, rfl⟩ := Nat.exists_eq_add_of_le hij
    rcases ρ.rank_until hstep hP d with ⟨l, hl, hQ⟩ | ⟨hPj, -⟩
    · exact absurd hQ (hnot l hl)
    · exact henabled _ hPj (hnot _ hij)
  obtain ⟨j, hij, hmine⟩ := h i hall
  exact hnever ⟨j, hij, .inl hmine⟩

end Forever

end Runs
