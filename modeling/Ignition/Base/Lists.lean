import Mathlib.Data.List.Forall2
import Mathlib.Data.List.Nodup

/-!
# Lists that go together

Two lists of the same length whose elements are related one by one, `List.Forall₂`: searches on
them come out at the same place, and two lists that both go together with a third go together
themselves.
-/

namespace Lists

open List

variable {α β γ : Type}

theorem find?_of_nodup [DecidableEq β] (key : α → β) : ∀ {l : List α}, (l.map key).Nodup →
    ∀ {a : α}, a ∈ l → (l.find? fun x => key x = key a) = some a
  | x :: l, hnodup, a, ha => by
    obtain ⟨hx, hl⟩ := nodup_cons.mp hnodup
    rw [find?_cons]
    rcases mem_cons.mp ha with rfl | hmem
    · rw [decide_eq_true rfl]
    · have hne : key x ≠ key a := fun h => hx (h ▸ mem_map_of_mem hmem)
      rw [decide_eq_false hne]
      exact find?_of_nodup key hl hmem

theorem rel_find? {R : α → α → Prop} {p : α → Bool} (hp : ∀ a b, R a b → p b = p a)
    {l l' : List α} (h : List.Forall₂ R l l') : Option.Rel R (l.find? p) (l'.find? p) := by
  induction h with
  | nil => exact .none
  | @cons a b l l' hab _ ih =>
    rw [find?_cons, find?_cons, hp a b hab]
    cases p a with
    | true => exact .some hab
    | false => exact ih

theorem forall₂_map {R : α → β → Prop} {S : γ → γ → Prop} {f : α → γ} {g : β → γ}
    {l : List α} {l' : List β} (h : List.Forall₂ R l l') (hS : ∀ a b, R a b → S (f a) (g b)) :
    List.Forall₂ S (l.map f) (l'.map g) :=
  forall₂_map_left_iff.mpr (forall₂_map_right_iff.mpr (h.imp hS))

theorem forall₂_of_common {R : α → β → Prop} {f : β → γ} {l₀ : List α} {l₁ : List β}
    (h₁ : List.Forall₂ R l₀ l₁) : ∀ {l₂ : List β}, List.Forall₂ R l₀ l₂ →
      l₁.map f = l₂.map f →
      List.Forall₂ (fun b₁ b₂ => ∃ a ∈ l₀, R a b₁ ∧ R a b₂ ∧ f b₁ = f b₂) l₁ l₂ := by
  induction h₁ with
  | nil =>
    intro l₂ h₂ _
    cases h₂ with
    | nil => exact .nil
  | cons hab _ ih =>
    intro l₂ h₂ hf
    cases h₂ with
    | cons hab' htail =>
      obtain ⟨hhead, hrest⟩ := cons.inj hf
      refine .cons ⟨_, mem_cons_self, hab, hab', hhead⟩ ((ih htail hrest).imp ?_)
      rintro b₁ b₂ ⟨a, ha, hR⟩
      exact ⟨a, mem_cons_of_mem _ ha, hR⟩

end Lists
