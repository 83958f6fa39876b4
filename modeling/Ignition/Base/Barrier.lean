import Mathlib.Data.List.Nodup
import Mathlib.Data.List.Count

/-!
# A reusable barrier and the parties that meet at it

`std::sync::Barrier`: an arriving thread is counted, and either blocks until the
generation changes or, as the last of its generation, starts the next one and is told
that it is the leader.

A barrier knows how many threads have arrived, not which. `Tally` ties its count to a set
of parties: exactly the parties that `waits` holds of are counted. What it is for is
`Tally.last`: when the leader is elected, every other party is waiting.
-/

namespace Parties

open List

structure Barrier where
  size : Nat
  count : Nat
  gen : Nat
  deriving DecidableEq

namespace Barrier

def new (n : Nat) : Barrier := ⟨n, 0, 0⟩

/-- `Barrier::wait`, up to where the caller blocks or learns that it is the leader. -/
def arrive (b : Barrier) : Barrier × Bool :=
  if b.count + 1 < b.size then ({ b with count := b.count + 1 }, false)
  else ({ b with count := 0, gen := b.gen + 1 }, true)

theorem arrive_of_lt {b : Barrier} (h : b.count + 1 < b.size) :
    b.arrive = ({ b with count := b.count + 1 }, false) := if_pos h

theorem arrive_of_not_lt {b : Barrier} (h : ¬ b.count + 1 < b.size) :
    b.arrive = ({ b with count := 0, gen := b.gen + 1 }, true) := if_neg h

/-- Somebody can still arrive. -/
def Room (b : Barrier) : Prop := b.count < b.size

end Barrier

theorem countP_insert {ms : List Nat} {w w' : Nat → Bool} {t : Nat} (hnd : ms.Nodup) (ht : t ∈ ms)
    (hw : w t = false) (hw' : w' t = true) (hother : ∀ u ∈ ms, u ≠ t → w' u = w u) :
    ms.countP w' = ms.countP w + 1 := by
  induction ms with
  | nil => cases ht
  | cons m ms ih =>
    obtain ⟨hm, hnd⟩ := nodup_cons.mp hnd
    rcases mem_cons.mp ht with rfl | ht
    · -- the party is the head, and by distinctness not in the rest
      have hrest : ms.countP w' = ms.countP w := by
        refine countP_congr fun u hu => ?_
        rw [hother u (mem_cons_of_mem _ hu) (fun h => hm (h ▸ hu))]
      have hneg : ¬ w t = true := by rw [hw]; exact Bool.false_ne_true
      rw [countP_cons_of_pos hw', countP_cons_of_neg hneg, hrest]
    · have hne : m ≠ t := fun h => hm (h ▸ ht)
      have hrest := ih hnd ht fun u hu => hother u (mem_cons_of_mem _ hu)
      rw [countP_cons, countP_cons, hother m mem_cons_self hne, hrest]
      omega

/-- The parties `ms` share the barrier, and those that wait are those it has counted. -/
structure Tally (b : Barrier) (ms : List Nat) (waits : Nat → Bool) : Prop where
  nodup : ms.Nodup
  size_eq : b.size = ms.length
  count_eq : b.count = ms.countP waits

namespace Tally

variable {b : Barrier} {ms : List Nat} {w w' : Nat → Bool} {t : Nat}

theorem new (hnd : ms.Nodup) (h : ∀ u ∈ ms, w u = false) : Tally (.new ms.length) ms w := by
  refine ⟨hnd, rfl, ?_⟩
  rw [countP_eq_zero.mpr fun u hu => by rw [h u hu]; exact Bool.false_ne_true]
  rfl

theorem congr (h : Tally b ms w) (hw : ∀ u ∈ ms, w' u = w u) : Tally b ms w' :=
  ⟨h.nodup, h.size_eq, h.count_eq.trans (countP_congr fun u hu => by rw [hw u hu])⟩

theorem stay (h : Tally b ms w) (ht : t ∈ ms) (hw : w t = false) (hw' : w' t = true)
    (hother : ∀ u ∈ ms, u ≠ t → w' u = w u) : Tally { b with count := b.count + 1 } ms w' :=
  ⟨h.nodup, h.size_eq, by
    show b.count + 1 = _
    rw [countP_insert h.nodup ht hw hw' hother, h.count_eq]⟩

theorem last (h : Tally b ms w) (ht : t ∈ ms) (hw : w t = false)
    (hlast : ¬ b.count + 1 < b.size) {u : Nat} (hu : u ∈ ms) (hne : u ≠ t) : w u = true := by
  -- with `t` added the count reaches the number of parties, so each of them is counted
  have hall : ms.countP (fun v => decide (v = t) || w v) = ms.length := by
    have hcount : ms.countP (fun v => decide (v = t) || w v) = ms.countP w + 1 :=
      countP_insert h.nodup ht hw (by rw [decide_eq_true rfl, Bool.true_or])
        (fun v _ hv => by rw [decide_eq_false hv, Bool.false_or])
    have hle := countP_le_length (p := fun v => decide (v = t) || w v) (l := ms)
    rw [h.count_eq, h.size_eq] at hlast
    omega
  have hmem := countP_eq_length.mp hall u hu
  rwa [decide_eq_false hne, Bool.false_or] at hmem

theorem next (h : Tally b ms w) (hw' : ∀ u ∈ ms, w' u = false) :
    Tally { b with count := 0, gen := b.gen + 1 } ms w' :=
  ⟨h.nodup, h.size_eq, (countP_eq_zero.mpr fun u hu => by
    rw [hw' u hu]; exact Bool.false_ne_true).symm⟩

theorem missing (h : Tally b ms w) (hroom : b.Room) : ∃ t ∈ ms, w t = false := by
  by_contra hall
  have hcount : ms.countP w = ms.length := countP_eq_length.mpr fun t ht => by
    by_contra hw
    exact hall ⟨t, ht, eq_false_of_ne_true hw⟩
  unfold Barrier.Room at hroom
  rw [h.count_eq, h.size_eq] at hroom
  omega

end Tally

end Parties
