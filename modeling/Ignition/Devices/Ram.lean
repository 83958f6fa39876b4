import Mathlib.Order.Interval.Set.Basic
import Ignition.Devices.GuestRam

/-!
# Guest RAM as the devices see it

`GuestRam` of `crates/devices/src/virtio/guest_ram.rs` with its base address, and the reads
and writes of little-endian words on it. The word accesses take their address as the `u64` the
devices compute, whose sums wrap around.

What a device does to RAM is bounded by the addresses it may write: `ChangesIn W m m'` says that
`m'` is `m` up to the bytes at the addresses of `W`. Writes give it (`changesIn_writeSlice`),
it composes, and reads outside `W` do not see it (`ChangesIn.readSlice`).
-/

namespace Ignition.Devices

open Paged Ignition.Vmm List Option

/-- RAM as a range of guest physical addresses, which are `u64`s. -/
@[ext] structure GuestRam where
  base : Nat
  ram : Bytes
  bounded : base + ram.length ≤ 2 ^ 64

namespace GuestRam

theorem bounded_blank : 0x40000000 + (replicate 64 0 : Bytes).length ≤ 2 ^ 64 := by
  rw [length_replicate]
  decide

def contains (m : GuestRam) (gpa n : Nat) : Bool := (offset m.base m.ram.length gpa n).isSome

def readSlice (m : GuestRam) (gpa n : Nat) : Option Bytes := Devices.readSlice m.base m.ram gpa n

def withRam (m : GuestRam) (ram : Bytes) (h : ram.length = m.ram.length) : GuestRam :=
  ⟨m.base, ram, h ▸ m.bounded⟩

/-- `GuestRam::write_slice`, with whether the range was in RAM. -/
def writeSlice (m : GuestRam) (gpa : Nat) (data : Bytes) : GuestRam × Bool :=
  match h : offset m.base m.ram.length gpa data.length with
  | some off =>
    (m.withRam (copyInto m.ram off data) (length_copyInto (offset_eq_some.mp h).2.2), true)
  | none => (m, false)

/-- `read_u16`, `read_u32` and `read_u64`, by the number of bytes. -/
def readWord (m : GuestRam) (n gpa : Nat) : Option Nat := (m.readSlice gpa n).map fromLeBytes

/-- `write_u16` and `write_u32`, by the number of bytes. -/
def writeWord (m : GuestRam) (n gpa v : Nat) : GuestRam × Bool := m.writeSlice gpa (leBytes n v)

def readU16 (m : GuestRam) (gpa : UInt64) : Option UInt16 :=
  (m.readWord 2 gpa.toNat).map UInt16.ofNat

def readU32 (m : GuestRam) (gpa : UInt64) : Option UInt32 :=
  (m.readWord 4 gpa.toNat).map UInt32.ofNat

def readU64 (m : GuestRam) (gpa : UInt64) : Option UInt64 :=
  (m.readWord 8 gpa.toNat).map UInt64.ofNat

def writeU16 (m : GuestRam) (gpa : UInt64) (v : UInt16) : GuestRam × Bool :=
  m.writeWord 2 gpa.toNat v.toNat

def writeU32 (m : GuestRam) (gpa : UInt64) (v : UInt32) : GuestRam × Bool :=
  m.writeWord 4 gpa.toNat v.toNat

/-! ## Ranges in RAM -/

section

variable {m m' m'' : GuestRam} {gpa n : Nat} {data : Bytes}

theorem contains_iff : m.contains gpa n = true ↔ m.base ≤ gpa ∧ gpa + n ≤ m.base + m.ram.length := by
  unfold contains
  rw [isSome_iff_exists]
  constructor
  · rintro ⟨off, hoff⟩
    obtain ⟨hle, rfl, hfit⟩ := offset_eq_some.mp hoff
    omega
  · rintro ⟨hle, hfit⟩
    exact ⟨gpa - m.base, offset_eq_some.mpr ⟨hle, rfl, by omega⟩⟩

theorem contains_mono (h : m.contains gpa n = true) {gpa' n' : Nat} (hlo : gpa ≤ gpa')
    (hhi : gpa' + n' ≤ gpa + n) : m.contains gpa' n' = true := by
  rw [contains_iff] at h ⊢
  omega

theorem readSlice_of_contains (h : m.contains gpa n = true) :
    m.readSlice gpa n = some (slice m.ram (gpa - m.base) n) := by
  obtain ⟨hle, hfit⟩ := contains_iff.mp h
  have hoff : offset m.base m.ram.length gpa n = some (gpa - m.base) :=
    offset_eq_some.mpr ⟨hle, rfl, by omega⟩
  simp only [readSlice, Devices.readSlice, hoff, map_some]

theorem readSlice_of_not_contains (h : m.contains gpa n = false) : m.readSlice gpa n = none := by
  simp only [contains, isSome_eq_false_iff, isNone_iff_eq_none] at h
  simp only [readSlice, Devices.readSlice, h, map_none]

theorem contains_of_readSlice {b : Bytes} (h : m.readSlice gpa n = some b) :
    m.contains gpa n = true := by
  by_contra hno
  rw [readSlice_of_not_contains (eq_false_of_ne_true hno)] at h
  cases h

theorem length_readSlice {b : Bytes} (h : m.readSlice gpa n = some b) : b.length = n := by
  have hin := contains_of_readSlice h
  rw [readSlice_of_contains hin] at h
  cases h
  obtain ⟨hle, hfit⟩ := contains_iff.mp hin
  exact length_slice (by omega)

theorem writeSlice_of_contains (h : m.contains gpa data.length = true) :
    ∃ hlen, m.writeSlice gpa data = (m.withRam (copyInto m.ram (gpa - m.base) data) hlen, true) := by
  unfold writeSlice
  split
  next off hoff =>
    obtain ⟨-, rfl, hfit⟩ := offset_eq_some.mp hoff
    exact ⟨length_copyInto hfit, rfl⟩
  rename_i hoff
  unfold contains at h
  rw [hoff] at h
  cases h

theorem writeSlice_of_not_contains (h : m.contains gpa data.length = false) :
    m.writeSlice gpa data = (m, false) := by
  unfold writeSlice
  split
  next off hoff =>
    unfold contains at h
    rw [hoff] at h
    cases h
  · rfl

theorem writeSlice_snd (m : GuestRam) (gpa : Nat) (data : Bytes) :
    (m.writeSlice gpa data).2 = m.contains gpa data.length := by
  cases h : m.contains gpa data.length with
  | true =>
    obtain ⟨hlen, hw⟩ := writeSlice_of_contains h
    rw [hw]
  | false => rw [writeSlice_of_not_contains h]

/-! ## What a write leaves alone -/

/-- RAM is the same up to the bytes at the addresses of `W`. -/
structure ChangesIn (W : Set Nat) (m m' : GuestRam) : Prop where
  base : m'.base = m.base
  length : m'.ram.length = m.ram.length
  bytes : ∀ i, m.base + i ∉ W → m'.ram[i]? = m.ram[i]?

variable {W W' : Set Nat}

theorem ChangesIn.refl (W : Set Nat) (m : GuestRam) : ChangesIn W m m :=
  ⟨rfl, rfl, fun _ _ => rfl⟩

theorem ChangesIn.mono (h : ChangesIn W m m') (hsub : W ⊆ W') : ChangesIn W' m m' :=
  ⟨h.base, h.length, fun i hi => h.bytes i fun hmem => hi (hsub hmem)⟩

theorem ChangesIn.trans (h : ChangesIn W m m') (h' : ChangesIn W m' m'') : ChangesIn W m m'' := by
  refine ⟨h'.base.trans h.base, h'.length.trans h.length, fun i hi => ?_⟩
  rw [h'.bytes i (by rw [h.base]; exact hi), h.bytes i hi]

theorem ChangesIn.contains (h : ChangesIn W m m') (gpa n : Nat) :
    m'.contains gpa n = m.contains gpa n := by
  simp only [GuestRam.contains, h.base, h.length]

theorem ChangesIn.readSlice (h : ChangesIn W m m') (hout : ∀ a, gpa ≤ a → a < gpa + n → a ∉ W) :
    m'.readSlice gpa n = m.readSlice gpa n := by
  have hsame := h.contains gpa n
  cases hin : m.contains gpa n with
  | false =>
    rw [readSlice_of_not_contains hin, readSlice_of_not_contains (hsame.trans hin)]
  | true =>
    rw [readSlice_of_contains hin, readSlice_of_contains (hsame.trans hin), h.base]
    obtain ⟨hle, -⟩ := contains_iff.mp hin
    congr 1
    apply ext_getElem?
    intro i
    rw [getElem?_slice, getElem?_slice]
    split
    next hi =>
      refine h.bytes _ (hout _ ?_ ?_) <;> omega
    · rfl

theorem ChangesIn.readWord (h : ChangesIn W m m') (hout : ∀ a, gpa ≤ a → a < gpa + n → a ∉ W) :
    m'.readWord n gpa = m.readWord n gpa := by
  unfold GuestRam.readWord
  rw [h.readSlice hout]

theorem ChangesIn.readU16 (h : ChangesIn W m m') {a : UInt64}
    (hout : ∀ x, a.toNat ≤ x → x < a.toNat + 2 → x ∉ W) : m'.readU16 a = m.readU16 a := by
  unfold GuestRam.readU16
  rw [h.readWord hout]

theorem ChangesIn.readU32 (h : ChangesIn W m m') {a : UInt64}
    (hout : ∀ x, a.toNat ≤ x → x < a.toNat + 4 → x ∉ W) : m'.readU32 a = m.readU32 a := by
  unfold GuestRam.readU32
  rw [h.readWord hout]

theorem ChangesIn.readU64 (h : ChangesIn W m m') {a : UInt64}
    (hout : ∀ x, a.toNat ≤ x → x < a.toNat + 8 → x ∉ W) : m'.readU64 a = m.readU64 a := by
  unfold GuestRam.readU64
  rw [h.readWord hout]

/-- **One write changes its own range.** -/
theorem changesIn_writeSlice (m : GuestRam) (gpa : Nat) (data : Bytes) :
    ChangesIn (Set.Ico gpa (gpa + data.length)) m (m.writeSlice gpa data).1 := by
  cases h : m.contains gpa data.length with
  | false =>
    rw [writeSlice_of_not_contains h]
    exact .refl _ m
  | true =>
    obtain ⟨hlen, hw⟩ := writeSlice_of_contains h
    rw [hw]
    obtain ⟨hle, hfit⟩ := contains_iff.mp h
    have hroom : gpa - m.base + data.length ≤ m.ram.length := by omega
    refine ⟨rfl, hlen, fun i hi => ?_⟩
    dsimp only [withRam]
    rw [getElem?_copyInto hroom, if_neg]
    rintro ⟨hlo, hhi⟩
    exact hi ⟨by omega, by omega⟩

theorem changesIn_writeWord (m : GuestRam) (n gpa v : Nat) :
    ChangesIn (Set.Ico gpa (gpa + n)) m (m.writeWord n gpa v).1 := by
  have h := changesIn_writeSlice m gpa (leBytes n v)
  rw [length_leBytes] at h
  exact h

theorem changesIn_writeU16 (m : GuestRam) (a : UInt64) (v : UInt16) :
    ChangesIn (Set.Ico a.toNat (a.toNat + 2)) m (m.writeU16 a v).1 :=
  changesIn_writeWord m 2 a.toNat v.toNat

theorem changesIn_writeU32 (m : GuestRam) (a : UInt64) (v : UInt32) :
    ChangesIn (Set.Ico a.toNat (a.toNat + 4)) m (m.writeU32 a v).1 :=
  changesIn_writeWord m 4 a.toNat v.toNat

theorem readSlice_writeSlice_self (h : m.contains gpa data.length = true) :
    (m.writeSlice gpa data).1.readSlice gpa data.length = some data := by
  have hin := (changesIn_writeSlice m gpa data).contains gpa data.length
  obtain ⟨hlen, hw⟩ := writeSlice_of_contains h
  rw [readSlice_of_contains (hin.trans h), hw]
  obtain ⟨hle, hfit⟩ := contains_iff.mp h
  have hroom : gpa - m.base + data.length ≤ m.ram.length := by omega
  dsimp only [withRam]
  congr 1
  apply ext_getElem?
  intro i
  rw [getElem?_slice]
  split
  next hi =>
    rw [getElem?_copyInto hroom, if_pos (by omega), Nat.add_sub_cancel_left]
  next hi => rw [getElem?_eq_none (by omega)]

theorem readWord_writeWord_self {v : Nat} (h : m.contains gpa n = true) :
    (m.writeWord n gpa v).1.readWord n gpa = some (v % 256 ^ n) := by
  have hlen := length_leBytes n v
  have hin : m.contains gpa (leBytes n v).length = true := by
    rw [hlen]
    exact h
  have hself := readSlice_writeSlice_self hin
  rw [hlen] at hself
  simp only [readWord, writeWord, hself, map_some, fromLeBytes_leBytes]

theorem readU16_writeU16_self {a : UInt64} {v : UInt16} (h : m.contains a.toNat 2 = true) :
    (m.writeU16 a v).1.readU16 a = some v := by
  have hv := v.toNat_lt
  unfold readU16 writeU16
  rw [readWord_writeWord_self h, map_some, Nat.mod_eq_of_lt (by omega), UInt16.ofNat_toNat]

theorem readU32_writeU32_self {a : UInt64} {v : UInt32} (h : m.contains a.toNat 4 = true) :
    (m.writeU32 a v).1.readU32 a = some v := by
  have hv := v.toNat_lt
  unfold readU32 writeU32
  rw [readWord_writeWord_self h, map_some, Nat.mod_eq_of_lt (by omega), UInt32.ofNat_toNat]

theorem contains_of_readWord {v : Nat} (h : m.readWord n gpa = some v) :
    m.contains gpa n = true := by
  obtain ⟨b, hb, -⟩ := map_eq_some_iff.mp h
  exact contains_of_readSlice hb

theorem contains_of_readU16 {a : UInt64} {v : UInt16} (h : m.readU16 a = some v) :
    m.contains a.toNat 2 = true := by
  obtain ⟨w, hw, -⟩ := map_eq_some_iff.mp h
  exact contains_of_readWord hw

theorem contains_of_readU64 {a v : UInt64} (h : m.readU64 a = some v) :
    m.contains a.toNat 8 = true := by
  obtain ⟨w, hw, -⟩ := map_eq_some_iff.mp h
  exact contains_of_readWord hw

end

end GuestRam

end Ignition.Devices
