import Mathlib.Data.Nat.ModEq

/-!
# Ring buffers with free-running counters

A ring of `size` cells that is written and read at positions which only ever grow: position
`p` lives in cell `p % size`. `Holds cell size lo items` is what a reader that has come to
position `lo` relies on: the cells of the positions from `lo` on hold the items written there.
A writer may fill the cell of the next position while at most `size` positions are in use
(`Holds.append`), because within a window of `size` positions no cell is used twice
(`slot_inj`).

The counters of such a ring are machine words. Sixteen bits are enough to tell positions of
one window apart (`ofNat_inj`), and if `size` divides `2 ^ 16` the cell of a position can be
computed from the counter (`toNat_slot`).
-/

namespace Ring

open List

theorem slot_inj {size p q : Nat} (hpq : p ≤ q) (hwin : q < p + size)
    (he : p % size = q % size) : p = q := by
  have hdvd : size ∣ q - p := (Nat.modEq_iff_dvd' hpq).mp he
  have hzero := Nat.eq_zero_of_dvd_of_lt hdvd (by omega)
  omega

section cells

variable {α : Type}

/-- The positions from `lo` on are found in their cells. -/
def Holds (cell : Nat → α) (size lo : Nat) (items : List α) : Prop :=
  ∀ p x, lo ≤ p → items[p]? = some x → cell (p % size) = x

variable {cell cell' : Nat → α} {size lo lo' : Nat} {items : List α} {x : α}

theorem Holds.nil (cell : Nat → α) (size lo : Nat) : Holds cell size lo [] :=
  fun _ _ _ h => nomatch h

theorem Holds.mono (h : Holds cell size lo items) (hle : lo ≤ lo') : Holds cell size lo' items :=
  fun p x hp hx => h p x (Nat.le_trans hle hp) hx

theorem Holds.congr (h : Holds cell size lo items)
    (hsame : ∀ p, lo ≤ p → p < items.length → cell' (p % size) = cell (p % size)) :
    Holds cell' size lo items := by
  intro p x hp hx
  obtain ⟨hlt, -⟩ := List.getElem?_eq_some_iff.mp hx
  rw [hsame p hp hlt]
  exact h p x hp hx

theorem Holds.append (h : Holds cell size lo items) (hnew : cell (items.length % size) = x) :
    Holds cell size lo (items ++ [x]) := by
  intro p y hp hy
  rcases Nat.lt_trichotomy p items.length with hlt | rfl | hgt
  · rw [getElem?_append_left hlt] at hy
    exact h p y hp hy
  · rw [getElem?_concat_length] at hy
    cases hy
    exact hnew
  · rw [getElem?_eq_none (by rw [length_append, length_singleton]; omega)] at hy
    cases hy

theorem next_slot_free (hroom : items.length < lo + size) {p : Nat} (hp : lo ≤ p)
    (hlt : p < items.length) : p % size ≠ items.length % size := by
  intro he
  have := slot_inj (Nat.le_of_lt hlt) (by omega) he
  omega

theorem Holds.view (h : Holds cell size lo items) (hlo : lo ≤ items.length) :
    (range' lo (items.length - lo)).map (fun p => cell (p % size)) = items.drop lo := by
  apply ext_getElem?
  intro i
  rw [getElem?_map, getElem?_drop]
  by_cases hi : i < items.length - lo
  · have hlt : lo + i < items.length := by omega
    rw [getElem?_range' hi, Option.map_some, getElem?_eq_getElem hlt]
    congr 1
    exact h (lo + 1 * i) _ (by omega) (by rw [Nat.one_mul]; exact getElem?_eq_getElem hlt)
  · rw [getElem?_eq_none (by rw [length_range']; omega), Option.map_none,
      getElem?_eq_none (by omega)]

end cells

/-! ## Sixteen-bit counters -/

theorem toNat_counter (p : Nat) : (UInt16.ofNat p).toNat = p % 2 ^ 16 := UInt16.toNat_ofNat'

theorem ofNat_inj {p q : Nat} (hpq : p ≤ q) (hwin : q < p + 2 ^ 16)
    (he : UInt16.ofNat p = UInt16.ofNat q) : p = q := by
  have hmod := congrArg UInt16.toNat he
  exact slot_inj hpq hwin hmod

theorem toNat_slot {size : UInt16} (hdvd : size.toNat ∣ 2 ^ 16) (p : Nat) :
    (UInt16.ofNat p % size).toNat = p % size.toNat := by
  rw [UInt16.toNat_mod, toNat_counter, Nat.mod_mod_of_dvd p hdvd]

theorem slot_eq {size : UInt16} (hdvd : size.toNat ∣ 2 ^ 16) (p : Nat) :
    UInt16.ofNat p % size = UInt16.ofNat (p % size.toNat) := by
  apply UInt16.toNat_inj.mp
  have hlt : p % size.toNat < 2 ^ 16 := by
    rw [← toNat_slot hdvd p]
    exact UInt16.toNat_lt _
  rw [toNat_slot hdvd, toNat_counter, Nat.mod_eq_of_lt hlt]

theorem counter_succ (p : Nat) : UInt16.ofNat p + 1 = UInt16.ofNat (p + 1) := by
  rw [UInt16.ofNat_add]
  rfl

theorem toNat_distance {p q : Nat} (hpq : p ≤ q) (hwin : q < p + 2 ^ 16) :
    (UInt16.ofNat q - UInt16.ofNat p).toNat = q - p := by
  rw [UInt16.toNat_sub, toNat_counter, toNat_counter]
  omega

end Ring
