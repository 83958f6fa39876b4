import Mathlib.Data.Set.Basic
import Mathlib.Data.List.Basic

/-!
# Buffers and their pages

A buffer is a list; `slice` and `copyInto` are the two ways a program reads and
overwrites a range of one. Cutting a buffer into pages of `pg` elements turns
"the same bytes" into "the same pages" (`ext_pages`), so an argument about a
sparse update only has to look at the pages it touched.

`DiffersIn pg D a b` says the two buffers agree on every page outside `D`. It is
the relation every dirty-page scheme maintains: a write adds its own pages to
`D`, and copying back the pages of `D` closes the difference. The rules below
are the whole algebra:

* `differsIn_refl`, `DiffersIn.trans`, `DiffersIn.mono` compose steps;
* `differsIn_copyInto` is one write;
* `DiffersIn.copyPage` is copying one page across;
* `DiffersIn.eq_of_empty` ends the argument.
-/

namespace Paged

open List

variable {α : Type}

/-! ## Ranges of a buffer -/

/-- The range `[o, o + n)` of a buffer. -/
def slice (b : List α) (o n : Nat) : List α := (b.drop o).take n

/-- The buffer with `src` written over the range that starts at `o`. -/
def copyInto (b : List α) (o : Nat) (src : List α) : List α :=
  b.take o ++ src ++ b.drop (o + src.length)

theorem getElem?_slice (b : List α) (o n i : Nat) :
    (slice b o n)[i]? = if i < n then b[o + i]? else none := by
  unfold slice
  rw [getElem?_take]
  split
  · rw [getElem?_drop]
  · rfl

variable {b src a : List α} {o n pg i : Nat} {D : Set Nat}

theorem length_slice (h : o + n ≤ b.length) :
    (slice b o n).length = n := by
  unfold slice
  rw [length_take, length_drop]
  omega

theorem length_copyInto (h : o + src.length ≤ b.length) :
    (copyInto b o src).length = b.length := by
  unfold copyInto
  rw [length_append, length_append, length_take, length_drop]
  omega

theorem getElem?_copyInto (h : o + src.length ≤ b.length) (i : Nat) :
    (copyInto b o src)[i]? =
      if o ≤ i ∧ i < o + src.length then src[i - o]? else b[i]? := by
  have htake : (b.take o).length = o := by rw [length_take]; omega
  unfold copyInto
  by_cases hlo : i < o
  · rw [if_neg (by omega), append_assoc, getElem?_append_left (by omega),
      getElem?_take, if_pos hlo]
  by_cases hhi : i < o + src.length
  · rw [if_pos ⟨by omega, hhi⟩, getElem?_append_left (by
      rw [length_append, htake]; exact hhi),
      getElem?_append_right (by omega), htake]
  rw [if_neg (by omega), getElem?_append_right (by
    rw [length_append, htake]; omega), getElem?_drop, length_append, htake]
  congr 1
  omega

theorem copyInto_append {src' : List α} (h : o + src.length + src'.length ≤ b.length) :
    copyInto (copyInto b o src) (o + src.length) src' = copyInto b o (src ++ src') := by
  have hlen : (copyInto b o src).length = b.length := length_copyInto (by omega)
  apply ext_getElem?
  intro i
  rw [getElem?_copyInto (by omega), getElem?_copyInto (by omega),
    getElem?_copyInto (by rw [length_append]; omega), length_append]
  by_cases hlo : i < o + src.length
  · rw [if_neg (by omega)]
    by_cases ho : o ≤ i
    · rw [if_pos ⟨ho, hlo⟩, if_pos (by omega), getElem?_append_left (by omega)]
    · rw [if_neg (by omega), if_neg (by omega)]
  · by_cases hhi : i < o + src.length + src'.length
    · rw [if_pos (by omega), if_pos (by omega), getElem?_append_right (by omega)]
      congr 1
      omega
    · rw [if_neg (by omega), if_neg (by omega), if_neg (by omega)]

theorem slice_add (b : List α) (o n k : Nat) :
    slice b o (n + k) = slice b o n ++ slice b (o + n) k := by
  unfold slice
  rw [take_add, drop_drop]

/-! ## Pages -/

/-- Page `i` of a buffer, for pages of `pg` elements. -/
def pageAt (pg : Nat) (b : List α) (i : Nat) : List α := slice b (i * pg) pg

theorem getElem?_eq_pageAt (hpg : 0 < pg) (b : List α) (j : Nat) :
    b[j]? = (pageAt pg b (j / pg))[j % pg]? := by
  unfold pageAt
  rw [getElem?_slice, if_pos (Nat.mod_lt _ hpg)]
  congr 1
  rw [Nat.mul_comm]
  exact (Nat.div_add_mod j pg).symm

/-- **Equal pages, equal buffers.** -/
theorem ext_pages (hpg : 0 < pg) (h : ∀ i, pageAt pg a i = pageAt pg b i) : a = b := by
  apply ext_getElem?
  intro j
  rw [getElem?_eq_pageAt hpg a, getElem?_eq_pageAt hpg b, h]

theorem length_pageAt (h : i * pg + pg ≤ b.length) :
    (pageAt pg b i).length = pg := length_slice h

theorem page_fits (h : i < n) : i * pg + pg ≤ n * pg := by
  calc i * pg + pg = (i + 1) * pg := by rw [Nat.succ_mul]
    _ ≤ n * pg := Nat.mul_le_mul_right _ h

theorem pageAt_append_zero (ha : a.length = pg) :
    pageAt pg (a ++ b) 0 = a := by
  unfold pageAt slice
  rw [Nat.zero_mul, drop_zero, take_left' ha]

theorem pageAt_append_succ (ha : a.length = pg) (i : Nat) :
    pageAt pg (a ++ b) (i + 1) = pageAt pg b i := by
  unfold pageAt slice
  rw [Nat.succ_mul, Nat.add_comm, ← drop_drop, drop_left' ha]

theorem pageAt_eq_nil (h : b.length ≤ i * pg) :
    pageAt pg b i = [] := by
  unfold pageAt slice
  rw [drop_eq_nil_of_le h, take_nil]

theorem pageAt_copyInto_of_disjoint (h : o + src.length ≤ b.length)
    (hd : i * pg + pg ≤ o ∨ o + src.length ≤ i * pg) :
    pageAt pg (copyInto b o src) i = pageAt pg b i := by
  unfold pageAt
  apply ext_getElem?
  intro j
  rw [getElem?_slice, getElem?_slice]
  split
  next hj => rw [getElem?_copyInto h, if_neg (by omega)]
  · rfl

theorem pageAt_copyInto_self (hs : src.length = pg) (h : i * pg + pg ≤ b.length) :
    pageAt pg (copyInto b (i * pg) src) i = src := by
  unfold pageAt
  apply ext_getElem?
  intro j
  rw [getElem?_slice]
  split
  next hj =>
    rw [getElem?_copyInto (by omega), if_pos (by omega)]
    congr 1
    omega
  next hj => rw [getElem?_eq_none (by omega)]

theorem pageAt_copyInto_ne {j : Nat} (hs : src.length = pg) (h : i * pg + pg ≤ b.length)
    (hne : j ≠ i) :
    pageAt pg (copyInto b (i * pg) src) j = pageAt pg b j := by
  apply pageAt_copyInto_of_disjoint (by omega)
  rcases Nat.lt_or_gt_of_ne hne with hlt | hgt
  · exact .inl (page_fits hlt)
  · right
    rw [hs]
    exact page_fits hgt

/-! ## Differing in a set of pages -/

/-- The two buffers agree on every page outside `D`. -/
def DiffersIn (pg : Nat) (D : Set Nat) (a b : List α) : Prop :=
  ∀ i, i ∉ D → pageAt pg a i = pageAt pg b i

theorem differsIn_refl (pg : Nat) (D : Set Nat) (a : List α) : DiffersIn pg D a a :=
  fun _ _ => rfl

theorem DiffersIn.mono {E : Set Nat} (h : DiffersIn pg D a b) (hDE : D ⊆ E) : DiffersIn pg E a b :=
  fun i hi => h i (fun hD => hi (hDE hD))

theorem DiffersIn.trans {c : List α} (hab : DiffersIn pg D a b) (hbc : DiffersIn pg D b c) :
    DiffersIn pg D a c :=
  fun i hi => (hab i hi).trans (hbc i hi)

theorem DiffersIn.eq_of_empty (hpg : 0 < pg) (h : DiffersIn pg D a b) (hD : ∀ i, i ∉ D) : a = b :=
  ext_pages hpg fun i => h i (hD i)

/-- The pages a range of `n` elements at `o` meets, in ascending order. -/
def pagesOf (pg o n : Nat) : List Nat :=
  if n = 0 then [] else range' (o / pg) ((o + n - 1) / pg + 1 - o / pg)

theorem mem_pagesOf (hpg : 0 < pg) :
    i ∈ pagesOf pg o n ↔ n ≠ 0 ∧ i * pg < o + n ∧ o < i * pg + pg := by
  unfold pagesOf
  split
  next hz => exact ⟨fun h => (nomatch h), fun h => absurd hz h.1⟩
  rename_i hn
  have hlo : o / pg ≤ i ↔ o < i * pg + pg := by
    rw [← Nat.succ_mul, ← Nat.div_lt_iff_lt_mul hpg, Nat.lt_succ_iff]
  have hhi : i ≤ (o + n - 1) / pg ↔ i * pg < o + n := by
    rw [Nat.le_div_iff_mul_le hpg]
    omega
  rw [mem_range'_1, ← hlo, ← hhi]
  omega

theorem differsIn_copyInto (hpg : 0 < pg) (h : o + src.length ≤ b.length) :
    DiffersIn pg {i | i ∈ pagesOf pg o src.length} b (copyInto b o src) := by
  intro i hi
  have hi : ¬ i ∈ pagesOf pg o src.length := hi
  by_cases hz : src.length = 0
  · rw [length_eq_zero_iff.mp hz]
    unfold copyInto
    rw [append_nil, length_nil, Nat.add_zero, take_append_drop]
  rw [mem_pagesOf hpg] at hi
  refine (pageAt_copyInto_of_disjoint h ?_).symm
  by_cases hlt : o < i * pg + pg
  · exact .inr (by omega)
  · exact .inl (by omega)

theorem DiffersIn.copyPage (h : DiffersIn pg D a b) (ha : i * pg + pg ≤ a.length)
    (hb : i * pg + pg ≤ b.length) :
    DiffersIn pg {j | j ∈ D ∧ j ≠ i} (copyInto a (i * pg) (pageAt pg b i)) b := by
  intro j hj
  by_cases hji : j = i
  · subst hji
    exact pageAt_copyInto_self (length_pageAt hb) ha
  · rw [pageAt_copyInto_ne (length_pageAt hb) ha hji]
    exact h j (fun hD => hj ⟨hD, hji⟩)

end Paged
