import Mathlib.Order.CompletePartialOrder
import Mathlib.Order.Interval.Set.Disjoint
import Ignition.Devices.Gpu
import Ignition.Vmm.Memory

/-!
# Where boot puts things

Guest RAM at start: `load_kernel` of `kernel.rs` copies the image to the offset its header asks for,
`fdt_addr` of `layout.rs` keeps two mebibytes for the device tree, and the fuzzing path has an
initramfs at 64 MiB. Each is checked on its own: the bytes of the image against the end of RAM, the
initramfs against the device tree. Nothing compares the kernel with the other two, and nobody looks
at the size the header claims, which covers the `.bss` behind the image.

So what `boot` accepts is in order exactly if the kernel, with the size it claims, lies in one of the
gaps that the others leave (`layout_sound_iff`).
-/

namespace Ignition.Boot

open Paged Ignition.Vmm Ignition.Devices

def ARM64_IMAGE_MAGIC : Nat := 0x644D5241
def ARM64_HEADER_LEN : Nat := 64
def LEGACY_TEXT_OFFSET : Nat := 0x80000
def FDT_MAX_SIZE : Nat := 0x200000
def DTB_EARLY_MAP_LIMIT : Nat := 0x20000000

inductive KernelError where
  | tooShort
  | badMagic
  | doesNotFit
  deriving DecidableEq

structure Arm64Header where
  textOffset : Nat
  imageSize : Nat

def headerOf (image : Bytes) : Arm64Header := ⟨le64 image 8, le64 image 16⟩

def parseArm64Header (image : Bytes) : Except KernelError Arm64Header :=
  if image.length < ARM64_HEADER_LEN then .error .tooShort
  else if le32 image 56 ≠ ARM64_IMAGE_MAGIC then .error .badMagic
  else .ok (headerOf image)

def Arm64Header.offset (h : Arm64Header) : Nat :=
  if h.imageSize = 0 then LEGACY_TEXT_OFFSET else h.textOffset

/-- `load_kernel` without the copy: the entry address. -/
def loadKernel (ramLen ramBase : Nat) (image : Bytes) : Except KernelError Nat :=
  match parseArm64Header image with
  | .error e => .error e
  | .ok header =>
    if 2 ^ 64 ≤ header.offset + image.length then .error .doesNotFit
    else if ramLen < header.offset + image.length then .error .doesNotFit
    else if 2 ^ 64 ≤ ramBase + header.offset then .error .doesNotFit
    else .ok (ramBase + header.offset)

def fdtAddr (ramSize : Nat) : Nat :=
  (RAM_BASE + min ramSize DTB_EARLY_MAP_LIMIT - FDT_MAX_SIZE) / 8 * 8

def fdtOff (ramSize : Nat) : Nat := (fdtAddr ramSize + 2 ^ 64 - RAM_BASE) % 2 ^ 64

def initrdOff : Nat := 0x4000000

/-- Why a placement is given up: an error, or an assertion or an index that is out of range. -/
inductive Refusal where
  | kernel (e : KernelError)
  | initramfs
  | dtb
  | panic
  deriving DecidableEq

/-- The first address of each and the one behind it. -/
structure Layout where
  kernel : Nat × Nat
  initramfs : Nat × Nat
  fdt : Nat × Nat

def kernelExtent (image : Bytes) : Nat := max image.length (headerOf image).imageSize

def regions (ramSize : Nat) (image : Bytes) (entry size : Nat) : Layout where
  kernel := (entry, entry + kernelExtent image)
  initramfs := (RAM_BASE + initrdOff, RAM_BASE + initrdOff + size)
  fdt := (fdtAddr ramSize, fdtAddr ramSize + FDT_MAX_SIZE)

/-- The placement in `main`, where there is no initramfs, and in `run_fuzz_mode`. -/
def place (ramSize : Nat) (image : Bytes) (initramfs : Option Bytes) (dtb : Bytes) :
    Except Refusal Layout :=
  match loadKernel ramSize RAM_BASE image with
  | .error e => .error (.kernel e)
  | .ok entry =>
    match initramfs with
    | none =>
      if ramSize < fdtOff ramSize + dtb.length then .error .panic
      else .ok (regions ramSize image entry 0)
    | some cpio =>
      if fdtOff ramSize < initrdOff + cpio.length then .error .initramfs
      else if ramSize < initrdOff + cpio.length then .error .panic
      else if ramSize < fdtOff ramSize + dtb.length then .error .dtb
      else .ok (regions ramSize image entry cpio.length)

def span (p : Nat × Nat) : Set Nat := Set.Ico p.1 p.2

def Layout.Sound (l : Layout) (ramSize : Nat) : Prop :=
  (span l.kernel ⊆ span (RAM_BASE, RAM_BASE + ramSize) ∧
    span l.initramfs ⊆ span (RAM_BASE, RAM_BASE + ramSize) ∧
    span l.fdt ⊆ span (RAM_BASE, RAM_BASE + ramSize)) ∧
  Disjoint (span l.kernel) (span l.initramfs) ∧ Disjoint (span l.kernel) (span l.fdt) ∧
    Disjoint (span l.initramfs) (span l.fdt)

def gaps (ramSize size : Nat) : List (Nat × Nat) :=
  if size = 0 then [(0, fdtOff ramSize), (fdtOff ramSize + FDT_MAX_SIZE, ramSize)]
  else [(0, initrdOff), (initrdOff + size, fdtOff ramSize),
    (fdtOff ramSize + FDT_MAX_SIZE, ramSize)]

theorem loadKernel_ok {ramLen ramBase entry : Nat} {image : Bytes}
    (h : loadKernel ramLen ramBase image = .ok entry) :
    64 ≤ image.length ∧ entry = ramBase + (headerOf image).offset := by
  unfold loadKernel parseArm64Header at h
  by_cases hlen : image.length < ARM64_HEADER_LEN
  · rw [if_pos hlen] at h
    cases h
  refine ⟨Nat.not_lt.mp hlen, ?_⟩
  rw [if_neg hlen] at h
  split at h
  · cases h
  next header heq =>
    split at heq
    · cases heq
    cases heq
    split at h
    · cases h
    split at h
    · cases h
    split at h
    · cases h
    cases h
    rfl

theorem fdt_inside {ramSize : Nat} (h : fdtOff ramSize ≤ ramSize) :
    fdtAddr ramSize = RAM_BASE + fdtOff ramSize ∧ fdtOff ramSize + FDT_MAX_SIZE ≤ ramSize := by
  unfold fdtOff fdtAddr RAM_BASE FDT_MAX_SIZE DTB_EARLY_MAP_LIMIT at *
  omega

theorem regions_sound_iff {ramSize size : Nat} {image : Bytes} (himage : 64 ≤ image.length)
    (hfdt : fdtOff ramSize ≤ ramSize) (hsize : size = 0 ∨ initrdOff + size ≤ fdtOff ramSize) :
    (regions ramSize image (RAM_BASE + (headerOf image).offset) size).Sound ramSize ↔
      ∃ gap ∈ gaps ramSize size, gap.1 ≤ (headerOf image).offset ∧
        (headerOf image).offset + kernelExtent image ≤ gap.2 := by
  obtain ⟨haddr, hin⟩ := fdt_inside hfdt
  have hkernel : 64 ≤ kernelExtent image := Nat.le_trans himage (Nat.le_max_left ..)
  have htree : 0 < FDT_MAX_SIZE := by decide
  unfold Layout.Sound span regions gaps
  rw [haddr, Set.Ico_subset_Ico_iff (Nat.lt_add_of_pos_right (by omega))]
  rcases Nat.eq_zero_or_pos size with rfl | hpos
  · rw [if_pos rfl, Nat.add_zero, Set.Ico_self,
      Set.Ico_subset_Ico_iff (Nat.lt_add_of_pos_right htree), Set.Ico_disjoint_Ico]
    simp only [Set.empty_subset, Set.disjoint_empty, Set.empty_disjoint, List.mem_cons,
      List.not_mem_nil, or_false, exists_eq_or_imp, exists_eq_left, true_and, and_true]
    omega
  · rw [if_neg (Nat.pos_iff_ne_zero.mp hpos),
      Set.Ico_subset_Ico_iff (Nat.lt_add_of_pos_right hpos),
      Set.Ico_subset_Ico_iff (Nat.lt_add_of_pos_right htree), Set.Ico_disjoint_Ico,
      Set.Ico_disjoint_Ico, Set.Ico_disjoint_Ico]
    simp only [List.mem_cons, List.not_mem_nil, or_false, exists_eq_or_imp, exists_eq_left]
    -- the kernel would unfold the addresses
    generalize RAM_BASE = base, initrdOff = start, FDT_MAX_SIZE = tree at *
    omega

/-- **What is accepted is in order if and only if the kernel lies in a gap**, with the size its
header claims. -/
theorem layout_sound_iff {ramSize : Nat} {image dtb : Bytes} {initramfs : Option Bytes}
    {l : Layout} (h : place ramSize image initramfs dtb = .ok l) :
    l.Sound ramSize ↔ ∃ gap ∈ gaps ramSize (initramfs.map List.length |>.getD 0),
      gap.1 ≤ (headerOf image).offset ∧
        (headerOf image).offset + kernelExtent image ≤ gap.2 := by
  unfold place at h
  split at h
  · cases h
  next entry hk =>
    obtain ⟨himage, rfl⟩ := loadKernel_ok hk
    split at h
    · split at h
      · cases h
      cases h
      exact regions_sound_iff himage (by omega) (.inl rfl)
    next cpio =>
      split at h
      · cases h
      split at h
      · cases h
      split at h
      · cases h
      cases h
      exact regions_sound_iff himage (by omega) (.inr (by omega))

def bareKernel (imageSize : Nat) : Bytes :=
  List.replicate 16 0 ++ leBytes 8 imageSize ++ List.replicate 32 0 ++ leBytes 4 ARM64_IMAGE_MAGIC ++
    List.replicate 4 0

theorem layout_sound_small : ∃ l, place (4 * 2 ^ 20) (bareKernel (2 ^ 20)) none [] = .ok l ∧
    l.Sound (4 * 2 ^ 20) := by
  have h : place (4 * 2 ^ 20) (bareKernel (2 ^ 20)) none [] =
      .ok (regions (4 * 2 ^ 20) (bareKernel (2 ^ 20)) RAM_BASE 0) := by rfl
  exact ⟨_, h, (layout_sound_iff h).mpr ⟨(0, 2 * 2 ^ 20), by decide, by decide⟩⟩

theorem fdt_overwritten : ∃ l, place (4 * 2 ^ 20) (bareKernel (3 * 2 ^ 20)) none [] = .ok l ∧
    ¬ l.Sound (4 * 2 ^ 20) := by
  have h : place (4 * 2 ^ 20) (bareKernel (3 * 2 ^ 20)) none [] =
      .ok (regions (4 * 2 ^ 20) (bareKernel (3 * 2 ^ 20)) RAM_BASE 0) := by rfl
  refine ⟨_, h, fun hs => ?_⟩
  have hkernel : RAM_BASE + 2 * 2 ^ 20 ∈ span (RAM_BASE, RAM_BASE + 3 * 2 ^ 20) := by
    exact ⟨by decide, by decide⟩
  have hfdt : RAM_BASE + 2 * 2 ^ 20 ∈ span (RAM_BASE + 2 * 2 ^ 20, RAM_BASE + 4 * 2 ^ 20) := by
    exact ⟨by decide, by decide⟩
  exact Set.disjoint_left.mp hs.2.2.1 hkernel hfdt

end Ignition.Boot
