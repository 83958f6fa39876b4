import Ignition.Devices.GuestRam
import Ignition.Vmm.Reset

/-!
# Guest memory under dirty tracking

Guest RAM together with its dirty tracker, as one value that cannot come apart: the
tracker starts where RAM starts and has one bit for each page of it. Every operation of
the virtual machine on guest RAM is one of those below. What each does to the pages and
to the dirty set is said here once.
-/

namespace Ignition.Vmm

open Paged

/-- `layout::RAM_BASE` -/
def RAM_BASE : Nat := 0x40000000

structure Memory where
  ram : Bytes
  tracker : DirtyTracker
  base_eq : tracker.base = RAM_BASE
  size_eq : ram.length = tracker.pageCount * PAGE
  fits : RAM_BASE + ram.length ≤ 2 ^ 64

namespace Memory

/-- Is page `p` in the dirty set? -/
def marked (m : Memory) (p : Nat) : Bool := m.tracker.marked p

theorem ramOk (m : Memory) : RamOk m.ram where
  whole := by rw [m.size_eq, Nat.mul_mod_left]
  fits := by
    have h := m.fits
    unfold RAM_BASE at h
    omega

def new (ram : Bytes) (n : Nat) (hlen : ram.length = n * PAGE)
    (hfits : RAM_BASE + ram.length ≤ 2 ^ 64) : Memory where
  ram := ram
  tracker := DirtyTracker.new RAM_BASE ram.length
  base_eq := rfl
  size_eq := by
    show ram.length = (ram.length + (PAGE - 1)) / PAGE * PAGE
    rw [hlen, Nat.add_comm, Nat.add_mul_div_right _ _ PAGE_pos]
    rw [Nat.div_eq_of_lt (Nat.sub_lt PAGE_pos Nat.one_pos), Nat.zero_add]
  fits := hfits

/-! ## The dirty set -/

def mark (m : Memory) (ipa : Nat) : Memory :=
  { m with
    tracker := m.tracker.mark ipa
    base_eq := by rw [DirtyTracker.mark_base]; exact m.base_eq
    size_eq := by rw [DirtyTracker.mark_pageCount]; exact m.size_eq }

def drain (m : Memory) : Memory :=
  { m with tracker := m.tracker.drain.2, base_eq := m.base_eq, size_eq := m.size_eq }

/-- One word of `DirtyTracker::drain`. -/
def swapWord (m : Memory) (wi : Nat) : List Nat × Memory :=
  ((m.tracker.swapWord wi).1,
    { m with tracker := (m.tracker.swapWord wi).2, base_eq := m.base_eq, size_eq := m.size_eq })

def pageOf (m : Memory) (ipa : Nat) : Option Nat := m.tracker.pageOf ipa

theorem marked_mark (m : Memory) (ipa q : Nat) :
    (m.mark ipa).marked q = true ↔ m.pageOf ipa = some q ∨ m.marked q = true := by
  unfold marked pageOf
  show (m.tracker.mark ipa).marked q = true ↔ _
  rw [DirtyTracker.marked_mark, Bool.or_eq_true, decide_eq_true_eq]

@[simp] theorem marked_drain (m : Memory) (q : Nat) : m.drain.marked q = false :=
  DirtyTracker.marked_drain m.tracker q

variable {m m' : Memory} {q gpa : Nat}

theorem mem_swapWord {wi : Nat} :
    q ∈ (m.swapWord wi).1 ↔ q / 64 = wi ∧ m.marked q = true := DirtyTracker.mem_swapWord

theorem marked_swapWord (m : Memory) (wi q : Nat) :
    (m.swapWord wi).2.marked q = true ↔ q / 64 ≠ wi ∧ m.marked q = true := by
  unfold marked
  show (m.tracker.swapWord wi).2.marked q = true ↔ _
  rw [DirtyTracker.marked_swapWord, Bool.and_eq_true, decide_eq_true_eq]

theorem pageCount_congr (h : m'.ram.length = m.ram.length) :
    m'.tracker.pageCount = m.tracker.pageCount := by
  rw [m.size_eq, m'.size_eq] at h
  exact Nat.eq_of_mul_eq_mul_right PAGE_pos h

theorem pageOf_congr (h : m'.ram.length = m.ram.length) (ipa : Nat) :
    m'.pageOf ipa = m.pageOf ipa := by
  unfold pageOf DirtyTracker.pageOf
  rw [m.base_eq, m'.base_eq, pageCount_congr h]

theorem words_congr (h : m'.ram.length = m.ram.length) :
    m'.tracker.bits.length = m.tracker.bits.length := by
  rw [m.tracker.words_eq, m'.tracker.words_eq, pageCount_congr h]

theorem word_lt_of_marked (h : m.marked q = true) :
    q / 64 < m.tracker.bits.length := DirtyTracker.word_lt (DirtyTracker.marked_lt h)

theorem word_lt_of_pageOf {ipa : Nat} (h : m.pageOf ipa = some q) :
    q / 64 < m.tracker.bits.length := by
  unfold pageOf DirtyTracker.pageOf at h
  split at h
  next hc =>
    cases h
    exact DirtyTracker.word_lt hc.2
  · cases h

/-! ## The bytes -/

def withRam (m : Memory) (ram : Bytes) (h : ram.length = m.ram.length) : Memory :=
  { m with ram := ram, size_eq := by rw [h]; exact m.size_eq, fits := by rw [h]; exact m.fits }

/-- Bytes copied to `gpa`, if the range is in RAM: the first half of `write_slice`, and what
a guest store does. -/
def copyIn (m : Memory) (gpa : Nat) (data : Bytes) : Option Memory :=
  match h : Devices.offset RAM_BASE m.ram.length gpa data.length with
  | some off => some (m.withRam (copyInto m.ram off data)
      (length_copyInto (Devices.offset_eq_some.mp h).2.2))
  | none => none

/-- The pages a range of `n` bytes at `gpa` meets. -/
def touched (gpa n : Nat) : List Nat := pagesOf PAGE (gpa - RAM_BASE) n

/-- One page of `rollback_pages`. -/
def rollback (m : Memory) (pristine : Bytes) (p : Nat) : Memory :=
  m.withRam (rollbackPage pristine PAGE m.ram p) (length_rollbackPage ..)

def inflate (m : Memory) (chain : List Devices.Desc) : Memory :=
  m.withRam (Devices.inflate RAM_BASE m.ram chain) (Devices.length_inflate ..)

def Releases (m : Memory) (chain : List Devices.Desc) (p : Nat) : Prop :=
  p ∈ Devices.releasedPages RAM_BASE (Devices.pfnAddrs chain) m.ram ∧
    pageAt PAGE m.ram p ≠ Devices.zeros

theorem copyIn_eq_some {data : Bytes} (h : m.copyIn gpa data = some m') :
    (RAM_BASE ≤ gpa ∧ gpa - RAM_BASE + data.length ≤ m.ram.length) ∧
      m'.tracker = m.tracker ∧ m'.ram.length = m.ram.length ∧
      DiffersIn PAGE {p | p ∈ touched gpa data.length} m.ram m'.ram := by
  unfold copyIn at h
  split at h
  next off hoff =>
    have hspec := Devices.offset_eq_some.mp hoff
    have hhi := hspec.2.2
    have hd := differsIn_copyInto PAGE_pos hhi
    cases h
    rw [hspec.2.1] at hhi hd
    refine ⟨⟨hspec.1, hhi⟩, rfl, length_copyInto hspec.2.2, ?_⟩
    show DiffersIn PAGE _ m.ram (copyInto m.ram off data)
    rw [hspec.2.1]
    exact hd
  · cases h

theorem copyIn_of_offset {off : Nat} {data : Bytes}
    (h : Devices.offset RAM_BASE m.ram.length gpa data.length = some off) :
    m.copyIn gpa data = some (m.withRam (copyInto m.ram off data)
      (length_copyInto (Devices.offset_eq_some.mp h).2.2)) := by
  unfold copyIn
  split
  next off' h' =>
    obtain rfl : off' = off := Option.some.inj (h'.symm.trans h)
    rfl
  next h' =>
    rw [h'] at h
    cases h

theorem pageAt_rollback {pristine : Bytes} (hp : pristine.length = m.ram.length) (p q : Nat) :
    pageAt PAGE (m.rollback pristine p).ram q =
      if q = p then pageAt PAGE pristine q else pageAt PAGE m.ram q :=
  pageAt_rollbackPage PAGE_pos m.size_eq hp p q

theorem differsIn_inflate (m : Memory) (chain : List Devices.Desc) :
    DiffersIn PAGE {p | m.Releases chain p} m.ram (m.inflate chain).ram :=
  Devices.differsIn_inflate m.size_eq chain

theorem pageOf_granules {n : Nat} (hlo : RAM_BASE ≤ gpa) (hhi : gpa - RAM_BASE + n ≤ m.ram.length)
    {p : Nat} (hp : p ∈ touched gpa n) :
    ∃ g ∈ DirtyTracker.granules gpa n, m.pageOf g = some p := by
  have hpos := PAGE_pos
  obtain ⟨hn, hplo, hphi⟩ := (mem_pagesOf hpos).mp hp
  have hfits := m.fits
  -- the first address of the range that lies in page `p`
  have hx : ∃ x, gpa ≤ x ∧ x < gpa + n ∧ (x - RAM_BASE) / PAGE = p := by
    by_cases hstart : gpa - RAM_BASE ≤ p * PAGE
    · refine ⟨RAM_BASE + p * PAGE, by omega, by omega, ?_⟩
      rw [Nat.add_sub_cancel_left, Nat.mul_div_cancel _ hpos]
    refine ⟨gpa, Nat.le_refl _, by omega, ?_⟩
    refine Nat.div_eq_of_lt_le (by omega) ?_
    rw [Nat.succ_mul]
    omega
  obtain ⟨x, hxlo, hxhi, hpage⟩ := hx
  refine ⟨x - x % PAGE, DirtyTracker.mem_granules hxlo hxhi (by omega), ?_⟩
  have hbase : m.tracker.base % PAGE = 0 := by
    rw [m.base_eq]
    decide
  obtain ⟨hg, hge⟩ := DirtyTracker.pageOf_granule hbase (x := x) (by rw [m.base_eq]; omega)
  unfold pageOf DirtyTracker.pageOf
  rw [m.base_eq] at hg hge ⊢
  have hcount : p < m.tracker.pageCount := by
    have hlt : p * PAGE < m.tracker.pageCount * PAGE := by
      rw [← m.size_eq]
      omega
    exact Nat.lt_of_mul_lt_mul_right hlt
  rw [hg, hpage, if_pos ⟨hge, hcount⟩]

end Memory

end Ignition.Vmm
