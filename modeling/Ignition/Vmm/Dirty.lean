import Mathlib.Algebra.Group.Nat.Defs
import Ignition.Base.Pages

/-!
# The dirty-page bitmap

`crates/vmm/src/dirty.rs`: one bit per 16 KiB granule of guest RAM, packed in
64-bit words. vCPU threads set a bit on a write-protect fault (`mark`), device
writes set the bits of their range (`mark_dirty`), and the snapshot code reads
the set with or without clearing it (`pages`, `drain`).

A `DirtyTracker` carries the two facts the source keeps by construction: there
are exactly as many words as the page count needs, and no bit past the page
count is ever set. The second is what "`drain()` never emits them" in
`reset.rs` appeals to.

The tracker is read through `marked`: `mem_pages`, `marked_mark` and
`marked_drain` say what the loops and the word packing compute, and nothing
downstream unfolds them. `mark_dirty` is a loop of single marks, one atomic
`fetch_or` each, so its granules are exposed as a list (`granules`): a model of
concurrent writers can perform them one at a time.
-/

namespace Ignition.Vmm

open List

def PAGE : Nat := 16384

theorem PAGE_pos : 0 < PAGE := by decide

/-- Bit `p` of a packed bitmap. -/
def bitAt (bits : List (BitVec 64)) (p : Nat) : Bool := (bits.getD (p / 64) 0#64).getLsbD (p % 64)

structure DirtyTracker where
  base : Nat
  pageCount : Nat
  bits : List (BitVec 64)
  words_eq : bits.length = (pageCount + 63) / 64
  in_range : ∀ p, bitAt bits p = true → p < pageCount

namespace DirtyTracker

/-- Is page `p` in the dirty set? -/
def marked (t : DirtyTracker) (p : Nat) : Bool := bitAt t.bits p

variable {t : DirtyTracker} {p wi x : Nat}

theorem marked_lt (h : t.marked p = true) : p < t.pageCount :=
  t.in_range p h

/-! ## Construction -/

theorem bitAt_replicate (n p : Nat) : bitAt (replicate n 0#64) p = false := by
  unfold bitAt
  rw [getD_eq_getElem?_getD, getElem?_replicate]
  split <;> exact BitVec.getLsbD_zero

def new (base size : Nat) : DirtyTracker where
  base := base
  pageCount := (size + (PAGE - 1)) / PAGE
  bits := List.replicate (((size + (PAGE - 1)) / PAGE + 63) / 64) 0#64
  words_eq := length_replicate
  in_range := fun p h => by rw [bitAt_replicate] at h; exact absurd h (by decide)

/-! ## Marking one page -/

/-- The word holding page `p`, with its bit set. -/
def setBit (bits : List (BitVec 64)) (p : Nat) : List (BitVec 64) :=
  bits.set (p / 64) (bits.getD (p / 64) 0#64 ||| (1#64 <<< (p % 64)))

theorem getLsbD_one_shiftLeft {k j : Nat} (hk : k < 64) :
    (1#64 <<< k).getLsbD j = decide (j = k) := by
  rw [BitVec.getLsbD_shiftLeft, BitVec.getLsbD_one]
  rcases Nat.lt_trichotomy j k with h | h | h
  · simp [h, Nat.ne_of_lt h]
  · simp [h, hk]
  · have h1 : j ≠ k := Nat.ne_of_gt h
    have h2 : j - k ≠ 0 := by omega
    simp [h1, h2]

theorem bitAt_setBit {bits : List (BitVec 64)} (hp : p / 64 < bits.length) (q : Nat) :
    bitAt (setBit bits p) q = (decide (q = p) || bitAt bits q) := by
  unfold bitAt setBit
  rw [getD_eq_getElem?_getD, getElem?_set]
  by_cases hw : p / 64 = q / 64
  · rw [if_pos hw, if_pos (by rw [← hw] at *; exact hp), Option.getD_some, BitVec.getLsbD_or,
      getLsbD_one_shiftLeft (Nat.mod_lt _ (by decide)), hw, Bool.or_comm]
    have hiff : (q % 64 = p % 64) ↔ q = p := by omega
    rw [decide_eq_decide.mpr hiff]
  · rw [if_neg hw, ← getD_eq_getElem?_getD]
    have hne : q ≠ p := fun h => hw (by rw [h])
    simp [hne]

theorem word_lt (hp : p < t.pageCount) : p / 64 < t.bits.length := by
  rw [t.words_eq]
  omega

/-- `DirtyTracker::mark`: addresses below the base or past the last page are ignored. -/
def mark (t : DirtyTracker) (ipa : Nat) : DirtyTracker :=
  if ipa < t.base then t
  else
    if h : (ipa - t.base) / PAGE < t.pageCount then
      { t with
        bits := setBit t.bits ((ipa - t.base) / PAGE)
        words_eq := by rw [setBit, length_set]; exact t.words_eq
        in_range := fun p hp => by
          rw [bitAt_setBit (word_lt h), Bool.or_eq_true, decide_eq_true_eq] at hp
          rcases hp with rfl | hp
          · exact h
          · exact t.in_range p hp }
    else t

@[simp] theorem mark_base (t : DirtyTracker) (ipa : Nat) : (t.mark ipa).base = t.base := by
  unfold mark
  split
  · rfl
  · split <;> rfl

@[simp] theorem mark_pageCount (t : DirtyTracker) (ipa : Nat) :
    (t.mark ipa).pageCount = t.pageCount := by
  unfold mark
  split
  · rfl
  · split <;> rfl

def pageOf (t : DirtyTracker) (ipa : Nat) : Option Nat :=
  if t.base ≤ ipa ∧ (ipa - t.base) / PAGE < t.pageCount then some ((ipa - t.base) / PAGE) else none

theorem marked_mark (t : DirtyTracker) (ipa q : Nat) :
    (t.mark ipa).marked q = (decide (t.pageOf ipa = some q) || t.marked q) := by
  unfold mark pageOf marked
  split
  next hlt =>
    rw [if_neg (by omega)]
    simp
  rename_i hge
  split
  next hp =>
    rw [if_pos ⟨by omega, hp⟩, bitAt_setBit (word_lt hp)]
    congr 1
    rw [decide_eq_decide, Option.some.injEq]
    exact eq_comm
  next hp =>
    rw [if_neg (fun hc => hp hc.2)]
    simp

/-! ## Reading the set -/

/-- The dirty pages of one word, in ascending order (the `for b in 0..64` loop). -/
def wordPages (wi : Nat) (v : BitVec 64) : List Nat :=
  if v = 0#64 then []
  else ((List.range 64).filter fun b => (v >>> b) &&& 1#64 = 1#64).map fun b => wi * 64 + b

theorem shiftRight_and_one (v : BitVec 64) (b : Nat) :
    ((v >>> b) &&& 1#64 = 1#64) ↔ v.getLsbD b = true := by
  constructor
  · intro h
    have h0 := congrArg (fun x => x.getLsbD 0) h
    simpa using h0
  · intro h
    apply BitVec.eq_of_getLsbD_eq
    intro i _
    rw [BitVec.getLsbD_and, BitVec.getLsbD_ushiftRight, BitVec.getLsbD_one]
    cases i with
    | zero => simp [h]
    | succ i => simp

theorem mem_wordPages {v : BitVec 64} :
    p ∈ wordPages wi v ↔ p / 64 = wi ∧ v.getLsbD (p % 64) = true := by
  unfold wordPages
  split
  next hz =>
    subst hz
    simp
  simp only [mem_map, mem_filter, mem_range, decide_eq_true_eq,
    shiftRight_and_one]
  constructor
  · rintro ⟨b, ⟨hb, hv⟩, rfl⟩
    have h1 : (wi * 64 + b) / 64 = wi := by omega
    have h2 : (wi * 64 + b) % 64 = b := by omega
    exact ⟨h1, by rw [h2]; exact hv⟩
  · rintro ⟨hw, hv⟩
    exact ⟨p % 64, ⟨Nat.mod_lt _ (by decide), hv⟩, by omega⟩

/-- `collect_pages`, with the words already read. -/
def collectPages (words : List (BitVec 64)) : List Nat :=
  words.zipIdx.flatMap fun w => wordPages w.2 w.1

theorem mem_collectPages {words : List (BitVec 64)} :
    p ∈ collectPages words ↔ bitAt words p = true := by
  unfold collectPages bitAt
  rw [mem_flatMap, getD_eq_getElem?_getD]
  constructor
  · rintro ⟨⟨v, wi⟩, hmem, hp⟩
    rw [mem_zipIdx_iff_getElem?] at hmem
    obtain ⟨hw, hv⟩ := mem_wordPages.mp hp
    rw [hw, hmem]
    exact hv
  · intro h
    cases hw : words[p / 64]? with
    | none =>
      rw [hw, Option.getD_none, BitVec.getLsbD_zero] at h
      exact absurd h (by decide)
    | some v =>
      rw [hw] at h
      exact ⟨(v, p / 64), mem_zipIdx_iff_getElem?.mpr hw, mem_wordPages.mpr ⟨rfl, h⟩⟩

/-- `DirtyTracker::pages`: the dirty set, left in place. -/
def pages (t : DirtyTracker) : List Nat := collectPages t.bits

theorem mem_pages : p ∈ t.pages ↔ t.marked p = true :=
  mem_collectPages

theorem lt_of_mem_pages (h : p ∈ t.pages) : p < t.pageCount :=
  marked_lt (mem_pages.mp h)

theorem bitAt_set_zero {bits : List (BitVec 64)} (p : Nat) :
    bitAt (bits.set wi 0#64) p = (decide (p / 64 ≠ wi) && bitAt bits p) := by
  unfold bitAt
  rw [getD_eq_getElem?_getD, getElem?_set]
  by_cases hw : wi = p / 64
  · rw [if_pos hw]
    have hd : decide (p / 64 ≠ wi) = false := by simp [hw]
    rw [hd, Bool.false_and]
    split <;> exact BitVec.getLsbD_zero
  · rw [if_neg hw, ← getD_eq_getElem?_getD]
    have hd : decide (p / 64 ≠ wi) = true := by simp [Ne.symm hw]
    rw [hd, Bool.true_and]

/-- `word.swap(0)` on word `wi`: the pages it held, and the tracker without them. -/
def swapWord (t : DirtyTracker) (wi : Nat) : List Nat × DirtyTracker :=
  (wordPages wi (t.bits.getD wi 0#64),
   { t with
     bits := t.bits.set wi 0#64
     words_eq := by rw [length_set]; exact t.words_eq
     in_range := fun p hp => by
       rw [bitAt_set_zero, Bool.and_eq_true] at hp
       exact t.in_range p hp.2 })

theorem mem_swapWord :
    p ∈ (t.swapWord wi).1 ↔ p / 64 = wi ∧ t.marked p = true := by
  show p ∈ wordPages wi (t.bits.getD wi 0#64) ↔ _
  rw [mem_wordPages]
  constructor
  · rintro ⟨rfl, h⟩
    exact ⟨rfl, h⟩
  · rintro ⟨rfl, h⟩
    exact ⟨rfl, h⟩

theorem marked_swapWord (t : DirtyTracker) (wi p : Nat) :
    (t.swapWord wi).2.marked p = (decide (p / 64 ≠ wi) && t.marked p) :=
  bitAt_set_zero p

/-- `DirtyTracker::drain`: read every word and leave it zero. -/
def drain (t : DirtyTracker) : List Nat × DirtyTracker :=
  (collectPages t.bits,
   { t with
     bits := List.replicate t.bits.length 0#64
     words_eq := by rw [length_replicate]; exact t.words_eq
     in_range := fun p h => by rw [bitAt_replicate] at h; exact absurd h (by decide) })

@[simp] theorem marked_drain (t : DirtyTracker) (p : Nat) : t.drain.2.marked p = false :=
  bitAt_replicate _ p

/-! ## Marking a range -/

/-- The granules `mark_dirty` visits from `p` up to `last`. A granule whose
successor leaves the 64-bit address space is the last one. -/
def granulesFrom (p last : Nat) : List Nat :=
  if p ≤ last then
    if p + PAGE < 2 ^ 64 then p :: granulesFrom (p + PAGE) last else [p]
  else []
termination_by last + 1 - p
decreasing_by
  have := PAGE_pos
  omega

/-- The granules of a host write of `len` bytes at `gpa`: the end saturates, the
start is aligned down. -/
def granules (gpa len : Nat) : List Nat :=
  if len = 0 then []
  else granulesFrom (gpa - gpa % PAGE) (min (gpa + (len - 1)) (2 ^ 64 - 1))

/-- `DirtySink::mark_dirty`: mark every granule the write touches. -/
def markDirty (t : DirtyTracker) (gpa len : Nat) : DirtyTracker :=
  (granules gpa len).foldl mark t

theorem mem_granulesFrom {p last : Nat} (hp : p % PAGE = 0) {x : Nat} (hlo : p ≤ x)
    (hhi : x ≤ last) (h64 : last < 2 ^ 64) : x - x % PAGE ∈ granulesFrom p last := by
  have hpos := PAGE_pos
  have hx := Nat.div_add_mod x PAGE
  have hpd := Nat.div_add_mod p PAGE
  unfold granulesFrom
  rw [if_pos (by omega)]
  by_cases hsame : x < p + PAGE
  · -- `x` is in this granule
    have hq : x / PAGE = p / PAGE := by
      apply Nat.div_eq_of_lt_le
      · rw [Nat.mul_comm]; omega
      · rw [Nat.succ_mul, Nat.mul_comm]; omega
    have heq : x - x % PAGE = p := by rw [hq] at hx; omega
    rw [heq]
    split
    · exact mem_cons_self ..
    · exact mem_singleton.mpr rfl
  · rw [if_pos (by omega)]
    exact mem_cons_of_mem _
      (mem_granulesFrom (by rw [Nat.add_mod_right]; exact hp) (by omega) hhi h64)
termination_by last + 1 - p
decreasing_by
  have := PAGE_pos
  omega

theorem mem_granules {gpa len : Nat} (hlo : gpa ≤ x) (hhi : x < gpa + len)
    (h64 : gpa + len ≤ 2 ^ 64) : x - x % PAGE ∈ granules gpa len := by
  unfold granules
  rw [if_neg (by omega)]
  apply mem_granulesFrom
  · exact Nat.sub_mod_eq_zero_of_mod_eq (Nat.mod_mod gpa PAGE).symm
  · omega
  · omega
  · omega

theorem pageOf_granule (hb : t.base % PAGE = 0) (hx : t.base ≤ x) :
    (x - x % PAGE - t.base) / PAGE = (x - t.base) / PAGE ∧ t.base ≤ x - x % PAGE := by
  have hpos := PAGE_pos
  obtain ⟨k, hk⟩ := Nat.dvd_of_mod_eq_zero hb
  have hxd := Nat.div_add_mod x PAGE
  have hle : k ≤ x / PAGE := by
    apply (Nat.le_div_iff_mul_le hpos).mpr
    rw [Nat.mul_comm, ← hk]
    exact hx
  have hmul : PAGE * k ≤ PAGE * (x / PAGE) := Nat.mul_le_mul_left _ hle
  refine ⟨?_, by omega⟩
  have h1 : x - x % PAGE - t.base = PAGE * (x / PAGE - k) := by
    rw [Nat.mul_sub]
    omega
  have h2 : x - t.base = x % PAGE + PAGE * (x / PAGE - k) := by
    rw [Nat.mul_sub]
    omega
  rw [h1, h2, Nat.mul_div_cancel_left _ hpos, Nat.add_mul_div_left _ _ hpos,
    Nat.div_eq_of_lt (Nat.mod_lt _ hpos), Nat.zero_add]

end DirtyTracker

end Ignition.Vmm
