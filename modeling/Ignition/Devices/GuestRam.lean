import Ignition.Vmm.DiffPages

/-!
# Device access to guest RAM

`GuestRam` of `crates/devices/src/virtio/guest_ram.rs` is the bounds-checked window
through which virtio devices reach guest RAM, and `Balloon::inflate` of `balloon.rs`
is the one caller of its `madvise_free`.

A device changes guest RAM in two ways. `write_slice` copies its bytes and then reports
the range to the dirty tracker. `madvise_free` hands whole host pages back to the
operating system, so that they read as zeros from then on, and reports nothing. The
balloon passes 4 KiB pages; the host page is 16 KiB, and releasing a range releases
every host page it touches.

`differsIn_inflate` bounds what an inflation can change: the released pages that were
not zero already.
-/

namespace Ignition.Devices

open Paged Ignition.Vmm List

/-! ## `GuestRam` -/

/-- `GuestRam::offset`: where `n` bytes at `gpa` lie in a RAM of `len` bytes at `base`. -/
def offset (base len gpa n : Nat) : Option Nat :=
  if base ≤ gpa ∧ gpa - base + n ≤ len then some (gpa - base) else none

theorem offset_eq_some {base len gpa n off : Nat} :
    offset base len gpa n = some off ↔ base ≤ gpa ∧ off = gpa - base ∧ off + n ≤ len := by
  unfold offset
  split
  next h =>
    rw [Option.some.injEq]
    exact ⟨fun he => ⟨h.1, he.symm, he ▸ h.2⟩, fun he => he.2.1.symm⟩
  next h => exact ⟨fun he => (nomatch he), fun he => absurd ⟨he.1, he.2.1 ▸ he.2.2⟩ h⟩

def readSlice (base : Nat) (ram : Bytes) (gpa n : Nat) : Option Bytes :=
  (offset base ram.length gpa n).map fun off => slice ram off n

/-- A released host page reads as zeros. -/
def zeroPage (ram : Bytes) (p : Nat) : Bytes :=
  copyInto ram (p * PAGE) (List.replicate (min PAGE (ram.length - p * PAGE)) 0)

/-- The host pages `madvise_free` hands back for `len` bytes at `gpa`, if the range is in RAM. -/
def freedPages (base size gpa len : Nat) : List Nat :=
  match offset base size gpa len with
  | some off => pagesOf PAGE off len
  | none => []

def madviseFree (base : Nat) (ram : Bytes) (gpa len : Nat) : Bytes :=
  (freedPages base ram.length gpa len).foldl zeroPage ram

/-! ## `Balloon::inflate` -/

structure Desc where
  addr : Nat
  len : Nat
  writable : Bool
  deriving DecidableEq

def PFN_SHIFT : Nat := 12

def BALLOON_PAGE : Nat := 4096

def pfnAddrs (chain : List Desc) : List Nat :=
  chain.flatMap fun d =>
    if d.writable then [] else (List.range (d.len / 4)).map fun i => (d.addr + i * 4) % 2 ^ 64

/-- The pages released for the page-frame number at `addr`. -/
def pfnPages (base : Nat) (ram : Bytes) (addr : Nat) : List Nat :=
  match readSlice base ram addr 4 with
  | some b => freedPages base ram.length (fromLeBytes b <<< PFN_SHIFT) BALLOON_PAGE
  | none => []

def inflateOne (base : Nat) (ram : Bytes) (addr : Nat) : Bytes :=
  match readSlice base ram addr 4 with
  | some b => madviseFree base ram (fromLeBytes b <<< PFN_SHIFT) BALLOON_PAGE
  | none => ram

theorem inflateOne_eq (base : Nat) (ram : Bytes) (addr : Nat) :
    inflateOne base ram addr = (pfnPages base ram addr).foldl zeroPage ram := by
  unfold inflateOne pfnPages madviseFree
  split <;> rfl

/-- `Balloon::inflate` for one descriptor chain. -/
def inflate (base : Nat) (ram : Bytes) (chain : List Desc) : Bytes :=
  (pfnAddrs chain).foldl (inflateOne base) ram

def releasedPages (base : Nat) : List Nat → Bytes → List Nat
  | [], _ => []
  | a :: as, ram => pfnPages base ram a ++ releasedPages base as (inflateOne base ram a)

/-! ## What is released -/

theorem length_zeroPage (ram : Bytes) (p : Nat) : (zeroPage ram p).length = ram.length := by
  unfold zeroPage
  by_cases h : p * PAGE ≤ ram.length
  · refine length_copyInto ?_
    rw [length_replicate]
    omega
  have hz : ram.length - p * PAGE = 0 := by omega
  rw [hz, Nat.min_zero, replicate_zero]
  unfold copyInto
  rw [append_nil, length_nil, Nat.add_zero, take_append_drop]

theorem length_foldl_zeroPage (ps : List Nat) : ∀ ram : Bytes,
    (ps.foldl zeroPage ram).length = ram.length := by
  induction ps with
  | nil => exact fun _ => rfl
  | cons p ps ih => exact fun ram => (ih _).trans (length_zeroPage ram p)

theorem length_inflateOne (base : Nat) (ram : Bytes) (a : Nat) :
    (inflateOne base ram a).length = ram.length := by
  rw [inflateOne_eq]
  exact length_foldl_zeroPage _ ram

theorem length_inflate (base : Nat) (ram : Bytes) (chain : List Desc) :
    (inflate base ram chain).length = ram.length := by
  unfold inflate
  generalize pfnAddrs chain = as
  induction as generalizing ram with
  | nil => rfl
  | cons a as ih => exact (ih _).trans (length_inflateOne base ram a)

def zeros : Bytes := List.replicate PAGE 0

theorem pageAt_zeroPage {ram : Bytes} {n : Nat} (hn : ram.length = n * PAGE) (p q : Nat) :
    pageAt PAGE (zeroPage ram p) q = pageAt PAGE ram q ∨
      (q = p ∧ pageAt PAGE (zeroPage ram p) q = zeros) := by
  unfold zeroPage
  by_cases hp : p < n
  · have hfit : p * PAGE + PAGE ≤ ram.length := by
      rw [hn]
      exact page_fits hp
    rw [Nat.min_eq_left (by omega)]
    by_cases hq : q = p
    · subst hq
      exact .inr ⟨rfl, pageAt_copyInto_self length_replicate hfit⟩
    · exact .inl (pageAt_copyInto_ne length_replicate hfit hq)
  · have hge : ram.length ≤ p * PAGE := by
      rw [hn]
      exact Nat.mul_le_mul_right _ (Nat.not_lt.mp hp)
    have hz : ram.length - p * PAGE = 0 := by omega
    rw [hz, Nat.min_zero, replicate_zero]
    unfold copyInto
    rw [append_nil, length_nil, Nat.add_zero, take_append_drop]
    exact .inl rfl

theorem pageAt_foldl_zeroPage {n : Nat} (q : Nat) : ∀ (ps : List Nat) {ram : Bytes},
    ram.length = n * PAGE →
    pageAt PAGE (ps.foldl zeroPage ram) q = pageAt PAGE ram q ∨
      (q ∈ ps ∧ pageAt PAGE (ps.foldl zeroPage ram) q = zeros)
  | [], _, _ => .inl rfl
  | p :: ps, ram, hn => by
    rw [foldl_cons]
    rcases pageAt_foldl_zeroPage q ps ((length_zeroPage ram p).trans hn) with h | ⟨hq, h⟩
    · rw [h]
      rcases pageAt_zeroPage hn p q with h' | ⟨rfl, h'⟩
      · exact .inl h'
      · exact .inr ⟨mem_cons_self .., h'⟩
    · exact .inr ⟨mem_cons_of_mem _ hq, h⟩

/-- **An inflation leaves each page alone or zeroes it, and zeroes only released pages.** -/
theorem pageAt_inflate {base n : Nat} (q : Nat) : ∀ (as : List Nat) {ram : Bytes},
    ram.length = n * PAGE →
    pageAt PAGE (as.foldl (inflateOne base) ram) q = pageAt PAGE ram q ∨
      (q ∈ releasedPages base as ram ∧ pageAt PAGE (as.foldl (inflateOne base) ram) q = zeros)
  | [], _, _ => .inl rfl
  | a :: as, ram, hn => by
    rw [foldl_cons, releasedPages]
    rcases pageAt_inflate q as ((length_inflateOne base ram a).trans hn) with h | ⟨hq, h⟩
    · rw [h, inflateOne_eq]
      rcases pageAt_foldl_zeroPage q (pfnPages base ram a) hn with h' | ⟨hq, h'⟩
      · exact .inl h'
      · exact .inr ⟨mem_append_left _ hq, h'⟩
    · exact .inr ⟨mem_append_right _ hq, h⟩

theorem differsIn_inflate {base n : Nat} {ram : Bytes} (hn : ram.length = n * PAGE)
    (chain : List Desc) :
    DiffersIn PAGE {p | p ∈ releasedPages base (pfnAddrs chain) ram ∧ pageAt PAGE ram p ≠ zeros}
      ram (inflate base ram chain) := by
  intro p hp
  rcases pageAt_inflate p (pfnAddrs chain) hn with h | ⟨hmem, h⟩
  · exact h.symm
  by_cases hz : pageAt PAGE ram p = zeros
  · rw [hz]
    exact h.symm
  · exact absurd ⟨hmem, hz⟩ hp

end Ignition.Devices
