import Mathlib.Logic.Relation

/-!
# Machines that answer

A machine is a function `respond : σ → α → Option (σ × ω)`: the state after a request with the
answer, or `none` if the request never returns. Two states answer alike if some relation
between them survives every request and gives the same answer each time (`answers_eq`). The
relation may become finer along the way: it has an index that follows the requests, and the index
also says which requests are covered.
-/

namespace Answers

variable {σ α ω ι : Type}

def answers (respond : σ → α → Option (σ × ω)) : σ → List α → List (Option ω)
  | _, [] => []
  | s, a :: as =>
    match respond s a with
    | none => [none]
    | some (s', o) => some o :: answers respond s' as

/-- Two outcomes of a request that cannot be told apart. -/
inductive Matched (R : σ → σ → Prop) : Option (σ × ω) → Option (σ × ω) → Prop where
  | stuck : Matched R none none
  | both {s s' : σ} (h : R s s') (o : ω) : Matched R (some (s, o)) (some (s', o))

variable {R : σ → σ → Prop} {r r' : Option (σ × ω)} {respond : σ → α → Option (σ × ω)}

theorem Matched.imp {R' : σ → σ → Prop} (h : Matched R r r') (himp : ∀ s s', R s s' → R' s s') :
    Matched R' r r' := by
  cases h with
  | stuck => exact .stuck
  | both hr o => exact .both (himp _ _ hr) o

theorem Matched.refl (hrefl : ∀ s, R s s) :
    ∀ r : Option (σ × ω), Matched R r r
  | none => .stuck
  | some (s, o) => .both (hrefl s) o

theorem Matched.trans {R' : σ → σ → Prop} {r'' : Option (σ × ω)} (h : Matched R r r')
    (h' : Matched R' r' r'') : Matched (Relation.Comp R R') r r'' := by
  cases h with
  | stuck =>
    cases h' with
    | stuck => exact .stuck
  | both hr o =>
    cases h' with
    | both hr' => exact .both ⟨_, hr, hr'⟩ o

theorem Matched.map {τ ω' : Type} {Q : τ → τ → Prop} (h : Matched R r r') {f k : σ → ω → τ}
    {g : ω → ω'} (hf : ∀ s s' o, R s s' → Q (f s o) (k s' o)) :
    Matched Q (r.map fun x => (f x.1 x.2, g x.2)) (r'.map fun x => (k x.1 x.2, g x.2)) := by
  cases h with
  | stuck => exact .stuck
  | both hr o => exact .both (hf _ _ o hr) (g o)

theorem Matched.observe {ω' : Type} (h : Matched R r r') (obs : σ → ω')
    (hobs : ∀ s s', R s s' → obs s = obs s') :
    Matched R (r.map fun x => (x.1, x.2, obs x.1)) (r'.map fun x => (x.1, x.2, obs x.1)) := by
  cases h with
  | stuck => exact .stuck
  | both hr o =>
    rw [Option.map_some, Option.map_some, hobs _ _ hr]
    exact .both hr _

def Allowed (ok : ι → α → Prop) (next : ι → α → ι) : ι → List α → Prop
  | _, [] => True
  | i, a :: as => ok i a ∧ Allowed ok next (next i a) as

theorem answers_cons {s s' : σ} {a : α} {as : List α} (h : Matched R (respond s a) (respond s' a))
    (htail : ∀ t t', R t t' → answers respond t as = answers respond t' as) :
    answers respond s (a :: as) = answers respond s' (a :: as) := by
  unfold answers
  generalize respond s a = r at h
  generalize respond s' a = r' at h
  cases h with
  | stuck => rfl
  | both h' o => exact congrArg (some o :: ·) (htail _ _ h')

/-- **Related states answer alike**, if every covered request keeps them related. -/
theorem answers_eq {ok : ι → α → Prop} {next : ι → α → ι}
    {R : ι → σ → σ → Prop}
    (hstep : ∀ i s s' a, R i s s' → ok i a →
      Matched (R (next i a)) (respond s a) (respond s' a)) :
    ∀ {as : List α} {i : ι} {s s' : σ}, R i s s' → Allowed ok next i as →
      answers respond s as = answers respond s' as
  | [], _, _, _, _, _ => rfl
  | a :: _, i, s, s', h, hok =>
    answers_cons (hstep i s s' a h hok.1) fun _ _ h' => answers_eq hstep h' hok.2

theorem allowed_all (as : List α) :
    Allowed (fun (_ : Unit) (_ : α) => True) (fun _ _ => ()) () as := by
  induction as with
  | nil => trivial
  | cons a as ih => exact ⟨trivial, ih⟩

theorem answers_eq_of_bisim (hstep : ∀ s s' a, R s s' → Matched R (respond s a) (respond s' a))
    {s s' : σ} (h : R s s') (as : List α) : answers respond s as = answers respond s' as :=
  answers_eq (R := fun _ => R) (fun _ s s' a h _ => hstep s s' a h) h (allowed_all as)

end Answers
