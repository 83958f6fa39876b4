import Mathlib.Algebra.Group.Nat.Defs
import Ignition.Base.Run
import Ignition.Devices.Bus
import Ignition.Vmm.DeviceManager

/-!
# Placing devices

`DeviceManager` of `device_manager.rs`: every device gets a window on the bus and an interrupt. For
a new device both come from allocators that only go up; a device from a snapshot goes back to where
it was, and the allocators are moved past it; a device without a record is registered at a fixed
address and leaves the allocators alone. The bus has the last word: it refuses a window that
overlaps one that is there.

Windows end below `2 ^ 64` except that a fixed one may reach the last address. The test of the bus
adds with saturation, so it sees such a window end one short, and takes two of them
(`last_address_shared`). Without them the windows are disjoint and the interrupts distinct, in every
order of calls (`placed_apart`).
-/

namespace Ignition.Devices

open List

inductive BusError where
  | overlap (base len existingBase existingLen : Nat)
  deriving DecidableEq

/-- The test of `Bus::register`. -/
def Slot.overlaps (s : Slot) (base len : Nat) : Bool :=
  base < saturatingAdd64 s.base s.len && s.base < saturatingAdd64 base len

def Bus.register (devices : List Slot) (base len : Nat) (dev : BusDevice) :
    Except BusError (List Slot) :=
  match devices.find? (·.overlaps base len) with
  | some s => .error (.overlap base len s.base s.len)
  | none => .ok (devices ++ [⟨base, len, dev⟩])

def Slot.Apart (s s' : Slot) : Prop := ∀ addr, s.covers addr = true → s'.covers addr = false

theorem Slot.covers_iff {s : Slot} {addr : Nat} :
    s.covers addr = true ↔ s.base ≤ addr ∧ addr < s.base + s.len := by
  unfold Slot.covers
  rw [Bool.and_eq_true, decide_eq_true_eq, decide_eq_true_eq]
  omega

def Slot.Hides (s : Slot) (base len : Nat) : Prop :=
  s.base + s.len = 2 ^ 64 ∧ base + len = 2 ^ 64 ∧ (s.base = 2 ^ 64 - 1 ∨ base = 2 ^ 64 - 1)

instance (s : Slot) (base len : Nat) : Decidable (s.Hides base len) :=
  inferInstanceAs (Decidable (_ ∧ _ ∧ _))

def Slot.Shares (s : Slot) (base len : Nat) : Prop :=
  ∃ addr, s.covers addr = true ∧ base ≤ addr ∧ addr < base + len

theorem Slot.overlaps_iff {s : Slot} {base len : Nat} : s.overlaps base len = true ↔
    base < min (s.base + s.len) (2 ^ 64 - 1) ∧ s.base < min (base + len) (2 ^ 64 - 1) := by
  unfold Slot.overlaps saturatingAdd64
  rw [Bool.and_eq_true, decide_eq_true_eq, decide_eq_true_eq]

theorem Slot.overlaps_of_shares {s : Slot} {base len : Nat} (h : s.Shares base len)
    (hs : s.base + s.len ≤ 2 ^ 64) (hlen : base + len ≤ 2 ^ 64) (hsees : ¬ s.Hides base len) :
    s.overlaps base len = true := by
  obtain ⟨addr, hcov, hlow, hhigh⟩ := h
  rw [Slot.covers_iff] at hcov
  unfold Slot.Hides at hsees
  rw [Slot.overlaps_iff]
  omega

theorem Slot.shares_of_overlaps {s : Slot} {base len : Nat} (h : s.overlaps base len = true)
    (hs : 0 < s.len) (hlen : 0 < len) : s.Shares base len := by
  rw [Slot.overlaps_iff] at h
  refine ⟨max s.base base, Slot.covers_iff.mpr ?_, ?_⟩ <;> omega

theorem Slot.apart_of_not_shares {s : Slot} {base len : Nat} {dev : BusDevice}
    (h : ¬ s.Shares base len) : s.Apart ⟨base, len, dev⟩ := fun addr haddr =>
  Bool.eq_false_iff.mpr fun hcov => h ⟨addr, haddr, Slot.covers_iff.mp hcov⟩

theorem Bus.register_ok {devices devices' : List Slot} {base len : Nat} {dev : BusDevice}
    (h : register devices base len dev = .ok devices') :
    devices' = devices ++ [⟨base, len, dev⟩] ∧ ∀ s ∈ devices, s.overlaps base len = false := by
  unfold register at h
  split at h
  · cases h
  next hnone =>
    refine ⟨(Except.ok.inj h).symm, fun s hs => ?_⟩
    exact Bool.eq_false_iff.mpr (find?_eq_none.mp hnone s hs)

theorem Bus.register_error_iff {devices : List Slot} {base len : Nat} (dev : BusDevice) :
    (∃ e, register devices base len dev = .error e) ↔
      ∃ s ∈ devices, s.overlaps base len = true := by
  rw [← find?_isSome]
  unfold register
  cases devices.find? (·.overlaps base len) with
  | none => exact ⟨fun ⟨e, h⟩ => (nomatch h), fun h => (nomatch h)⟩
  | some s => exact ⟨fun _ => rfl, fun _ => ⟨_, rfl⟩⟩

theorem Bus.length_covering_le {ss : List Slot} (h : ss.Pairwise Slot.Apart) (addr : Nat) :
    (ss.filter (·.covers addr)).length ≤ 1 := by
  induction h with
  | nil => exact Nat.zero_le 1
  | @cons s ss hs _ ih =>
    rw [filter_cons]
    split
    next hcov =>
      have hnone : ss.filter (·.covers addr) = [] := by
        refine filter_eq_nil_iff.mpr fun s' hs' => ?_
        rw [hs s' hs' addr hcov]
        exact Bool.false_ne_true
      rw [hnone]
      exact Nat.le_refl 1
    · exact ih

/-! ## Sequences of registrations -/

namespace Bus

/-- A call of `Bus::register`. -/
structure Registration where
  base : UInt64
  len : UInt64
  dev : BusDevice

def registerStep (devices : List Slot) (c : Registration) : Option (List Slot) :=
  match register devices c.base.toNat c.len.toNat c.dev with
  | .error _ => some devices
  | .ok devices => some devices

def Registration.Valid (c : Registration) : Prop :=
  0 < c.len.toNat ∧ c.base.toNat + c.len.toNat ≤ 2 ^ 64

/-- The range hides in no registered one. -/
def Registration.Seen (devices : List Slot) (c : Registration) : Prop :=
  ∀ s ∈ devices, ¬ s.Hides c.base.toNat c.len.toNat

instance (devices : List Slot) (c : Registration) : Decidable (c.Valid ∧ c.Seen devices) :=
  inferInstanceAs (Decidable ((_ ∧ _) ∧ ∀ s ∈ devices, _))

/-- The registered ranges, each valid and no two with a common address. -/
structure Disjoint (devices : List Slot) : Prop where
  valid : ∀ s ∈ devices, 0 < s.len ∧ s.base + s.len ≤ 2 ^ 64
  apart : devices.Pairwise Slot.Apart

theorem Disjoint.step {devices devices' : List Slot} {c : Registration} (h : Disjoint devices)
    (hc : c.Valid ∧ c.Seen devices) (hs : registerStep devices c = some devices') :
    Disjoint devices' := by
  unfold registerStep at hs
  split at hs
  · cases hs
    exact h
  rename_i hr
  cases hs
  obtain ⟨rfl, hno⟩ := register_ok hr
  refine ⟨fun s hs => ?_, pairwise_append.mpr
    ⟨h.apart, pairwise_singleton .., fun s hs s' hs' => ?_⟩⟩
  · rcases mem_append.mp hs with hs | hs
    · exact h.valid s hs
    · obtain rfl := mem_singleton.mp hs
      exact hc.1
  · obtain rfl := mem_singleton.mp hs'
    refine Slot.apart_of_not_shares fun hshare => ?_
    have hover := Slot.overlaps_of_shares hshare (h.valid s hs).2 hc.1.2 (hc.2 s hs)
    rw [hno s hs] at hover
    cases hover

theorem Disjoint.find?_perm {devices devices' : List Slot} (h : Disjoint devices)
    (hp : devices.Perm devices') (addr : Nat) :
    devices'.find? (·.covers addr) = devices.find? (·.covers addr) := by
  have hone := length_covering_le h.apart addr
  have hperm := hp.filter (·.covers addr)
  rw [← head?_filter, ← head?_filter]
  cases hf : devices.filter (·.covers addr) with
  | nil =>
    rw [hf] at hperm
    rw [nil_perm.mp hperm]
  | cons s ss =>
    rw [hf] at hperm
    rw [hf, length_cons] at hone
    obtain rfl := eq_nil_of_length_eq_zero (Nat.le_zero.mp (Nat.le_of_succ_le_succ hone))
    rw [singleton_perm.mp hperm]

/-- **Registered ranges never overlap**, as long as no range hides in another one. In every state
that such calls lead to, a valid range is refused exactly if it shares an address with a registered
one; at most one device has an address, and `Bus::find` does not depend on the order. -/
theorem registered_disjoint {devices : List Slot} {cs : List Registration}
    (h : Runs.Run registerStep (fun devices c => c.Valid ∧ c.Seen devices) [] cs devices) :
    (∀ c : Registration, c.Valid → c.Seen devices →
      ((∃ e, register devices c.base.toNat c.len.toNat c.dev = .error e) ↔
        ∃ s ∈ devices, s.Shares c.base.toNat c.len.toNat)) ∧
    (∀ addr, (devices.filter (·.covers addr)).length ≤ 1) ∧
    ∀ devices' addr, devices.Perm devices' →
      devices'.find? (·.covers addr) = devices.find? (·.covers addr) := by
  have hd : Disjoint devices := h.invariant (fun _ _ _ hd hc hs => hd.step hc hs)
    ⟨fun s hs => absurd hs not_mem_nil, List.Pairwise.nil⟩
  refine ⟨fun c hvalid hseen => ?_, length_covering_le hd.apart,
    fun _ addr hp => hd.find?_perm hp addr⟩
  rw [register_error_iff]
  constructor
  · rintro ⟨s, hs, hover⟩
    exact ⟨s, hs, Slot.shares_of_overlaps hover (hd.valid s hs).1 hvalid.1⟩
  · rintro ⟨s, hs, hshares⟩
    exact ⟨s, hs, Slot.overlaps_of_shares hshares (hd.valid s hs).2 hvalid.2 (hseen s hs)⟩

theorem registered_disjoint_top : ∃ devices : List Slot,
    devices.map (·.base) = [2 ^ 64 - 4, 2 ^ 64 - 2] ∧
    (∃ e, register devices (2 ^ 64 - 3) 2 (.fuzz .new) = .error e) ∧
    ∀ addr, (devices.filter (·.covers addr)).length ≤ 1 := by
  let c : Registration := ⟨0xfffffffffffffffd, 2, .fuzz .new⟩
  obtain ⟨devices, hrun, hbases, hc, s, hs, hcov⟩ :
      ∃ devices, Runs.Run registerStep (fun devices c => c.Valid ∧ c.Seen devices) []
        [⟨0xfffffffffffffffc, 2, .fuzz .new⟩, ⟨0xfffffffffffffffe, 2, .bootTimer ⟨0, none⟩⟩] devices ∧
      devices.map (·.base) = [2 ^ 64 - 4, 2 ^ 64 - 2] ∧ (c.Valid ∧ c.Seen devices) ∧
        ∃ s ∈ devices, s.covers (2 ^ 64 - 3) = true := Runs.exists_run (by decide +kernel)
  obtain ⟨hrefused, hone, -⟩ := registered_disjoint hrun
  exact ⟨devices, hbases, (hrefused c hc.1 hc.2).mpr ⟨s, hs, _, hcov, by decide, by decide⟩, hone⟩

theorem last_address_hidden : ∃ devices devices' : List Slot,
    registerStep [] ⟨0xfffffffffffffffe, 2, .fuzz .new⟩ = some devices ∧
    register devices (2 ^ 64 - 1) 1 (.bootTimer ⟨0, none⟩) = .ok devices' ∧
    (∃ s ∈ devices, s.Shares (2 ^ 64 - 1) 1) ∧
    (devices'.filter (·.covers (2 ^ 64 - 1))).length = 2 ∧
    (devices'.find? (·.covers (2 ^ 64 - 1))).map (·.base) ≠
      (devices'.reverse.find? (·.covers (2 ^ 64 - 1))).map (·.base) :=
  ⟨[⟨2 ^ 64 - 2, 2, .fuzz .new⟩], _, rfl, rfl,
    ⟨_, mem_singleton.mpr rfl, 2 ^ 64 - 1, by decide, by decide⟩, by decide, by decide⟩

end Bus

end Ignition.Devices

namespace Ignition.Vmm

open Ignition.Devices Runs

inductive DeviceMgrError where
  | windowExhausted (need remaining : Nat)
  | spiExhausted
  | busOverlap (e : BusError)
  | stateInvalid (e : StateInvalid)

/-! ## The allocators -/

structure Resources where
  mmioNext : Nat
  mmioEnd : Nat
  spiNext : Nat
  spiEnd : Nat

def Resources.alloc (r : Resources) (size : Nat) :
    Except DeviceMgrError ((Nat × Nat) × Resources) :=
  if r.mmioEnd - r.mmioNext < size then
    .error (.windowExhausted size (r.mmioEnd - r.mmioNext))
  else if r.spiEnd ≤ r.spiNext then .error .spiExhausted
  else
    .ok ((r.mmioNext, r.spiNext),
      { r with mmioNext := r.mmioNext + size, spiNext := r.spiNext + 1 })

theorem Resources.alloc_ok {r next : Resources} {size base spi : Nat} :
    r.alloc size = .ok ((base, spi), next) ↔ size ≤ r.mmioEnd - r.mmioNext ∧ r.spiNext < r.spiEnd ∧
      r.mmioNext = base ∧ r.spiNext = spi ∧
      { r with mmioNext := r.mmioNext + size, spiNext := r.spiNext + 1 } = next := by
  unfold Resources.alloc
  split
  next hsize => exact ⟨fun h => (nomatch h), fun h => absurd h.1 (Nat.not_le.mpr hsize)⟩
  rename_i hsize
  split
  next hspi => exact ⟨fun h => (nomatch h), fun h => absurd h.2.1 (Nat.not_lt.mpr hspi)⟩
  rename_i hspi
  rw [Except.ok.injEq, Prod.mk.injEq, Prod.mk.injEq, and_assoc]
  exact ⟨fun h => ⟨Nat.not_lt.mp hsize, Nat.not_le.mp hspi, h⟩, fun h => h.2.2⟩

structure DeviceManager where
  bus : List Slot
  resources : Resources
  records : List DeviceManager.Record

/-- The ranges that a manager is given. -/
structure Ranges where
  mmioBase : Nat
  mmioLen : Nat
  spiBase : Nat
  spiCount : Nat

namespace Ranges

def mmioEnd (g : Ranges) : Nat := g.mmioBase + g.mmioLen

def spiEnd (g : Ranges) : Nat := g.spiBase + g.spiCount

/-- A window and an interrupt are inside. -/
structure Has (g : Ranges) (base size spi : Nat) : Prop where
  low : g.mmioBase ≤ base
  high : base + size ≤ g.mmioEnd
  spi_low : g.spiBase ≤ spi
  spi_high : spi < g.spiEnd

theorem has_iff {g : Ranges} {base size spi : Nat} : g.Has base size spi ↔
    (g.mmioBase ≤ base ∧ base + size ≤ g.mmioEnd) ∧ g.spiBase ≤ spi ∧ spi < g.spiEnd :=
  ⟨fun h => ⟨⟨h.low, h.high⟩, h.spi_low, h.spi_high⟩, fun h => ⟨h.1.1, h.1.2, h.2.1, h.2.2⟩⟩

instance (g : Ranges) (base size spi : Nat) : Decidable (g.Has base size spi) :=
  decidable_of_iff _ has_iff.symm

end Ranges

namespace DeviceManager

/-- `DeviceManager::new`, unless the ends of the ranges overflow. -/
def new (g : Ranges) : Option DeviceManager :=
  if g.mmioEnd < 2 ^ 64 ∧ g.spiEnd < 2 ^ 32 then
    some ⟨[], ⟨g.mmioBase, g.mmioEnd, g.spiBase, g.spiEnd⟩, []⟩
  else none

/-- `DeviceManager::irq_for`: the INTID, unless the sum overflows. -/
def irqFor (spi : Nat) : Option Nat := if spi + 32 < 2 ^ 32 then some (spi + 32) else none

def place (m : DeviceManager) (base size spi : Nat) (dev : MmioDevice) :
    Except DeviceMgrError DeviceManager :=
  match Bus.register m.bus base size (.mmio dev) with
  | .error e => .error (.busOverlap e)
  | .ok bus =>
    .ok { m with
      bus := bus
      records := m.records ++ [⟨dev.snapshotId, base, size, spi, dev.fdtKind, dev⟩] }

/-- `DeviceManager::add`, unless it panics. The allocators stay moved if the bus refuses. -/
def add (m : DeviceManager) (windowSize : Nat) (build : Nat → MmioDevice) :
    Option (Except DeviceMgrError MmioDevice × DeviceManager) :=
  match m.resources.alloc windowSize with
  | .error e => some (.error e, m)
  | .ok ((base, spi), resources) =>
    (irqFor spi).map fun intid =>
      let m := { m with resources := resources }
      match m.place base windowSize spi (build intid) with
      | .error e => (.error e, m)
      | .ok m => (.ok (build intid), m)

/-- `DeviceManager::add_restored`, unless it panics. -/
def addRestored (m : DeviceManager) (rec : DeviceRecord) (build : Nat → MmioDevice) :
    Option (Except DeviceMgrError MmioDevice × DeviceManager) :=
  (irqFor rec.spi).bind fun intid =>
    match (build intid).restore rec.state with
    | (_, some e) => some (.error (.stateInvalid e), m)
    | (dev, none) =>
      match m.place rec.base rec.size rec.spi dev with
      | .error e => some (.error e, m)
      | .ok m =>
        if rec.base + rec.size < 2 ^ 64 ∧ rec.spi + 1 < 2 ^ 32 then
          some (.ok dev, { m with resources := { m.resources with
            mmioNext := max m.resources.mmioNext (rec.base + rec.size)
            spiNext := max m.resources.spiNext (rec.spi + 1) } })
        else none

def addFixed (m : DeviceManager) (base len : UInt64) (dev : BusDevice) :
    Except DeviceMgrError Unit × DeviceManager :=
  match Bus.register m.bus base.toNat len.toNat dev with
  | .error e => (.error (.busOverlap e), m)
  | .ok bus => (.ok (), { m with bus := bus })

/-! ## Calls -/

inductive Action where
  | restored (rec : DeviceRecord) (build : Nat → MmioDevice)
  | fixed (base len : UInt64) (dev : BusDevice)
  | add (windowSize : Nat) (build : Nat → MmioDevice)

def step (m : DeviceManager) : Action → Option DeviceManager
  | .restored rec build => (m.addRestored rec build).map Prod.snd
  | .fixed base len dev => some (m.addFixed base len dev).2
  | .add windowSize build => (m.add windowSize build).map Prod.snd

def Fits (g : Ranges) (m : DeviceManager) : Action → Prop
  | .restored rec _ => g.Has rec.base rec.size rec.spi ∧ ∀ r ∈ m.records, r.spi ≠ rec.spi
  | .fixed base len _ => base.toNat + len.toNat < 2 ^ 64
  | .add _ _ => True

instance (g : Ranges) (m : DeviceManager) : (a : Action) → Decidable (Fits g m a)
  | .restored _ _ => inferInstanceAs (Decidable (_ ∧ ∀ r ∈ m.records, _))
  | .fixed _ _ _ => inferInstanceAs (Decidable (_ < _))
  | .add _ _ => .isTrue trivial

structure Inv (g : Ranges) (m : DeviceManager) : Prop where
  mmioEnd : m.resources.mmioEnd = g.mmioEnd
  spiEnd : m.resources.spiEnd = g.spiEnd
  bounded : g.mmioEnd < 2 ^ 64
  mmio_low : g.mmioBase ≤ m.resources.mmioNext
  mmio_high : m.resources.mmioNext ≤ g.mmioEnd
  spi_low : g.spiBase ≤ m.resources.spiNext
  spi_high : m.resources.spiNext ≤ g.spiEnd
  inside : ∀ r ∈ m.records, g.Has r.base r.size r.spi ∧ r.spi < m.resources.spiNext
  distinct : (m.records.map Record.spi).Nodup
  ends : ∀ s ∈ m.bus, s.base + s.len < 2 ^ 64
  apart : m.bus.Pairwise Slot.Apart

variable {g : Ranges} {m m' : DeviceManager}

theorem Inv.new (h : DeviceManager.new g = some m) : m.Inv g := by
  unfold DeviceManager.new at h
  split at h
  next hg =>
    cases h
    exact ⟨rfl, rfl, hg.1, Nat.le_refl _, Nat.le_add_right .., Nat.le_refl _, Nat.le_add_right ..,
      fun r hr => absurd hr List.not_mem_nil, List.nodup_nil,
      fun s hs => absurd hs List.not_mem_nil, List.Pairwise.nil⟩
  · cases h

/-! ### The bus -/

theorem Inv.registered (h : m.Inv g) {base len : Nat} {dev : BusDevice} {bus : List Slot}
    (hr : Bus.register m.bus base len dev = .ok bus) (hlen : base + len < 2 ^ 64) :
    bus = m.bus ++ [⟨base, len, dev⟩] ∧ (∀ s ∈ m.bus, s.Apart ⟨base, len, dev⟩) ∧
      (∀ s ∈ bus, s.base + s.len < 2 ^ 64) ∧ bus.Pairwise Slot.Apart := by
  obtain ⟨rfl, hno⟩ := Bus.register_ok hr
  have hapart : ∀ s ∈ m.bus, s.Apart ⟨base, len, dev⟩ := fun s hs =>
    Slot.apart_of_not_shares fun hshare => by
      have hover := Slot.overlaps_of_shares hshare (h.ends s hs).le hlen.le
        fun hhides => absurd hhides.2.1 hlen.ne
      rw [hno s hs] at hover
      cases hover
  refine ⟨rfl, hapart, fun s hs => ?_, ?_⟩
  · rcases List.mem_append.mp hs with hs | hs
    · exact h.ends s hs
    · obtain rfl := List.mem_singleton.mp hs
      exact hlen
  · refine List.pairwise_append.mpr ⟨h.apart, List.pairwise_singleton .., fun s hs s' hs' => ?_⟩
    obtain rfl := List.mem_singleton.mp hs'
    exact hapart s hs

theorem Inv.fixed (h : m.Inv g) {base len : UInt64} {dev : BusDevice}
    (hfits : base.toNat + len.toNat < 2 ^ 64) : (m.addFixed base len dev).2.Inv g := by
  unfold addFixed
  split
  · exact h
  rename_i bus hr
  obtain ⟨-, -, hends, hapart⟩ := h.registered hr hfits
  exact ⟨h.mmioEnd, h.spiEnd, h.bounded, h.mmio_low, h.mmio_high, h.spi_low, h.spi_high, h.inside,
    h.distinct, hends, hapart⟩

/-! ### Records -/

/-- The allocators have moved up, past an interrupt, and are still inside the ranges. -/
structure Advanced (g : Ranges) (r r' : Resources) (spi : Nat) : Prop where
  mmioEnd : r'.mmioEnd = r.mmioEnd
  spiEnd : r'.spiEnd = r.spiEnd
  mmio_le : r.mmioNext ≤ r'.mmioNext
  mmio_high : r'.mmioNext ≤ g.mmioEnd
  spi_le : r.spiNext ≤ r'.spiNext
  spi_high : r'.spiNext ≤ g.spiEnd
  past : spi < r'.spiNext

theorem Inv.placed (h : m.Inv g) {next : Resources} {r : Record} {bus : List Slot}
    (hr : Bus.register m.bus r.base r.size (.mmio r.dev) = .ok bus)
    (hhas : g.Has r.base r.size r.spi) (hnew : ∀ r' ∈ m.records, r'.spi ≠ r.spi)
    (hnext : Advanced g m.resources next r.spi) :
    Inv g ⟨bus, next, m.records ++ [r]⟩ := by
  obtain ⟨-, -, hends, hapart⟩ := h.registered hr (Nat.lt_of_le_of_lt hhas.high h.bounded)
  refine ⟨hnext.mmioEnd.trans h.mmioEnd, hnext.spiEnd.trans h.spiEnd, h.bounded,
    Nat.le_trans h.mmio_low hnext.mmio_le, hnext.mmio_high, Nat.le_trans h.spi_low hnext.spi_le,
    hnext.spi_high, fun r' hr' => ?_, ?_, hends, hapart⟩
  · rcases List.mem_append.mp hr' with hr' | hr'
    · exact ⟨(h.inside r' hr').1, Nat.lt_of_lt_of_le (h.inside r' hr').2 hnext.spi_le⟩
    · obtain rfl := List.mem_singleton.mp hr'
      exact ⟨hhas, hnext.past⟩
  · rw [List.map_append]
    refine List.nodup_append.mpr ⟨h.distinct, List.nodup_singleton _, fun x hx y hy => ?_⟩
    obtain ⟨r', hr', rfl⟩ := List.mem_map.mp hx
    obtain rfl := List.mem_singleton.mp hy
    exact hnew r' hr'

theorem Inv.restored (h : m.Inv g) {rec : DeviceRecord} {build : Nat → MmioDevice}
    (hhas : g.Has rec.base rec.size rec.spi) (hnew : ∀ r ∈ m.records, r.spi ≠ rec.spi)
    {res : Except DeviceMgrError MmioDevice × DeviceManager}
    (hs : m.addRestored rec build = some res) : res.2.Inv g := by
  obtain ⟨intid, -, hs⟩ := Option.bind_eq_some_iff.mp hs
  split at hs
  · cases hs
    exact h
  rename_i dev _
  unfold place at hs
  split at hs
  · cases hs
    exact h
  rename_i m' hm'
  split at hm'
  · cases hm'
  rename_i bus hr
  obtain rfl := Except.ok.inj hm'
  split at hs
  · cases hs
    refine h.placed (r := ⟨dev.snapshotId, rec.base, rec.size, rec.spi, dev.fdtKind, dev⟩) hr
      hhas hnew ⟨rfl, rfl, Nat.le_max_left .., ?_, Nat.le_max_left .., ?_, ?_⟩
    · exact Nat.max_le.mpr ⟨h.mmio_high, hhas.high⟩
    · exact Nat.max_le.mpr ⟨h.spi_high, hhas.spi_high⟩
    · exact Nat.le_max_right ..
  · cases hs

theorem Inv.alloc (h : m.Inv g) {size base spi : Nat} {next : Resources}
    (ha : m.resources.alloc size = .ok ((base, spi), next)) :
    g.Has base size spi ∧ (∀ r ∈ m.records, r.spi ≠ spi) ∧ Advanced g m.resources next spi := by
  obtain ⟨hsize, hspi, rfl, rfl, rfl⟩ := Resources.alloc_ok.mp ha
  have hmmio := h.mmioEnd
  have hspiEnd := h.spiEnd
  have hlow := h.mmio_low
  have hhigh := h.mmio_high
  refine ⟨⟨hlow, by omega, h.spi_low, by omega⟩, fun r hr => ?_,
    ⟨rfl, rfl, Nat.le_add_right .., ?_, Nat.le_succ _, ?_, Nat.lt_succ_self _⟩⟩
  · exact Nat.ne_of_lt (h.inside r hr).2
  · dsimp only
    omega
  · dsimp only
    omega

theorem Inv.added (h : m.Inv g) {windowSize : Nat} {build : Nat → MmioDevice} {dev : MmioDevice}
    (hs : m.add windowSize build = some (.ok dev, m')) :
    m'.Inv g ∧ ∃ r : Record, r.size = windowSize ∧ m'.records = m.records ++ [r] ∧
      m'.bus = m.bus ++ [⟨r.base, r.size, .mmio r.dev⟩] ∧ g.Has r.base r.size r.spi ∧
      (∀ s ∈ m.bus, s.Apart ⟨r.base, r.size, .mmio r.dev⟩) ∧ ∀ r' ∈ m.records, r'.spi ≠ r.spi := by
  unfold add at hs
  split at hs
  · cases hs
  rename_i base spi next ha
  obtain ⟨hhas, hnew, hnext⟩ := h.alloc ha
  obtain ⟨intid, -, hs⟩ := Option.map_eq_some_iff.mp hs
  unfold place at hs
  dsimp only at hs
  split at hs
  · cases hs
  rename_i m'' hm''
  split at hm''
  · cases hm''
  rename_i bus hr
  obtain rfl := Except.ok.inj hm''
  obtain ⟨-, rfl⟩ := Prod.mk.inj hs
  let r : Record := ⟨(build intid).snapshotId, base, windowSize, spi,
    (build intid).fdtKind, build intid⟩
  obtain ⟨hbus, hapart, -, -⟩ := h.registered hr (Nat.lt_of_le_of_lt hhas.high h.bounded)
  exact ⟨h.placed (r := r) hr hhas hnew hnext, r, rfl, rfl, hbus, hhas, hapart, hnew⟩

theorem Inv.refused (h : m.Inv g) {windowSize : Nat} {build : Nat → MmioDevice}
    {e : DeviceMgrError} (hs : m.add windowSize build = some (.error e, m')) : m'.Inv g := by
  unfold add at hs
  split at hs
  · obtain ⟨-, rfl⟩ := Prod.mk.inj (Option.some.inj hs)
    exact h
  rename_i base spi next ha
  obtain ⟨-, -, hnext⟩ := h.alloc ha
  obtain ⟨intid, -, hs⟩ := Option.map_eq_some_iff.mp hs
  dsimp only at hs
  split at hs
  · -- the window and the interrupt are lost
    obtain ⟨-, rfl⟩ := Prod.mk.inj hs
    exact ⟨hnext.mmioEnd.trans h.mmioEnd, hnext.spiEnd.trans h.spiEnd, h.bounded,
      Nat.le_trans h.mmio_low hnext.mmio_le, hnext.mmio_high,
      Nat.le_trans h.spi_low hnext.spi_le, hnext.spi_high,
      fun r hr => ⟨(h.inside r hr).1, Nat.lt_of_lt_of_le (h.inside r hr).2 hnext.spi_le⟩,
      h.distinct, h.ends, h.apart⟩
  · cases hs

theorem Inv.step (h : m.Inv g) {a : Action} (hfits : Fits g m a) (hs : m.step a = some m') :
    m'.Inv g := by
  cases a with
  | restored rec build =>
    obtain ⟨res, hres, rfl⟩ := Option.map_eq_some_iff.mp hs
    exact h.restored hfits.1 hfits.2 hres
  | fixed base len dev =>
    cases hs
    exact h.fixed hfits
  | add windowSize build =>
    obtain ⟨⟨res, m₁⟩, hres, rfl⟩ := Option.map_eq_some_iff.mp hs
    cases res with
    | ok dev => exact (h.added hres).1
    | error e => exact h.refused hres

/-- **Windows and interrupts are not given twice.** In every run of calls in which the records are
inside the ranges with distinct interrupts, and no fixed window reaches the last address, a call to
`add` that succeeds gets a window inside the range and disjoint from every window that is
registered, and an interrupt inside the range that no record has; the interrupts of the records are
distinct, and no address is in the windows of two devices. -/
theorem placed_apart {m₀ : DeviceManager} {as : List Action} (hnew : new g = some m₀)
    (h : Run step (Fits g) m₀ as m) :
    (∀ windowSize build dev m', m.add windowSize build = some (.ok dev, m') →
      ∃ r : Record, r.size = windowSize ∧ m'.records = m.records ++ [r] ∧
        m'.bus = m.bus ++ [⟨r.base, r.size, .mmio r.dev⟩] ∧ g.Has r.base r.size r.spi ∧
        (∀ s ∈ m.bus, s.Apart ⟨r.base, r.size, .mmio r.dev⟩) ∧
        ∀ r' ∈ m.records, r'.spi ≠ r.spi) ∧
    (m.records.map Record.spi).Nodup ∧
    ∀ addr, (m.bus.filter (·.covers addr)).length ≤ 1 := by
  have hstep : ∀ (m : DeviceManager) (a : Action) (m' : DeviceManager), m.Inv g → Fits g m a →
      m.step a = some m' → m'.Inv g := fun _ _ _ hi hf hs => hi.step hf hs
  have hinv := h.invariant hstep (.new hnew)
  exact ⟨fun _ _ _ _ hs => (hinv.added hs).2, hinv.distinct, Bus.length_covering_le hinv.apart⟩

/-! ## Calls that fail -/

def Refuses (m : DeviceManager) (windowSize : Nat) : Prop :=
  windowSize ≤ m.resources.mmioEnd - m.resources.mmioNext ∧
    m.resources.spiNext < m.resources.spiEnd ∧ m.resources.spiNext + 32 < 2 ^ 32 ∧
    ∃ s ∈ m.bus, s.overlaps m.resources.mmioNext windowSize = true

theorem addRestored_error {rec : DeviceRecord} {build : Nat → MmioDevice} {e : DeviceMgrError}
    (h : m.addRestored rec build = some (.error e, m')) : m' = m := by
  obtain ⟨intid, -, h⟩ := Option.bind_eq_some_iff.mp h
  split at h
  · cases h
    rfl
  split at h
  · cases h
    rfl
  split at h <;> cases h

theorem place_error_iff (m : DeviceManager) (base size spi : Nat) (dev : MmioDevice) :
    (∃ e, m.place base size spi dev = .error e) ↔ ∃ s ∈ m.bus, s.overlaps base size = true := by
  rw [← Bus.register_error_iff (.mmio dev)]
  unfold place
  cases Bus.register m.bus base size (.mmio dev) with
  | error e => exact ⟨fun _ => ⟨e, rfl⟩, fun _ => ⟨_, rfl⟩⟩
  | ok bus => exact ⟨fun ⟨_, h⟩ => (nomatch h), fun ⟨_, h⟩ => (nomatch h)⟩

/-- **A call that fails leaves the manager as it was, unless the bus refuses a window that the
allocators have given out.** This is an equivalence for `add`; `add_restored` moves the allocators
last and is never at fault. -/
theorem failed_unchanged_iff (m : DeviceManager) (windowSize : Nat) (build : Nat → MmioDevice) :
    (∀ rec build e m', m.addRestored rec build = some (.error e, m') → m' = m) ∧
    ((∀ e m', m.add windowSize build = some (.error e, m') → m' = m) ↔ ¬ m.Refuses windowSize) := by
  refine ⟨fun _ _ _ _ h => addRestored_error h, fun h hrefuses => ?_, fun h e m' hadd => ?_⟩
  · obtain ⟨hsize, hspi, hintid, hover⟩ := hrefuses
    let next : Resources := { m.resources with
      mmioNext := m.resources.mmioNext + windowSize, spiNext := m.resources.spiNext + 1 }
    have ha := Resources.alloc_ok.mpr ⟨hsize, hspi, rfl, rfl, rfl⟩
    obtain ⟨e, he⟩ := (place_error_iff { m with resources := next } m.resources.mmioNext windowSize
      m.resources.spiNext (build (m.resources.spiNext + 32))).mpr hover
    have hadd : m.add windowSize build = some (.error e, { m with resources := next }) := by
      unfold add
      rw [ha]
      dsimp only
      rw [irqFor, if_pos hintid, Option.map_some, he]
    have hkept := congrArg (·.resources.spiNext) (h e _ hadd)
    exact absurd hkept (Nat.succ_ne_self _)
  · unfold add at hadd
    split at hadd
    · cases hadd
      rfl
    rename_i base spi next ha
    obtain ⟨hsize, hspi, rfl, rfl, rfl⟩ := Resources.alloc_ok.mp ha
    obtain ⟨intid, hintid, hadd⟩ := Option.map_eq_some_iff.mp hadd
    dsimp only at hadd
    split at hadd
    next hplace =>
      have hover := (place_error_iff ..).mp ⟨_, hplace⟩
      unfold irqFor at hintid
      split at hintid
      next hlt => exact absurd ⟨hsize, hspi, hlt, hover⟩ h
      · cases hintid
    · cases hadd

/-! Sixteen windows of a page, and sixteen interrupts. -/

def sixteen : Ranges := ⟨0x1000, 0x10000, 0, 16⟩

def unplaced : DeviceManager := ⟨[], ⟨0x1000, 0x11000, 0, 16⟩, []⟩

def clock : Nat → MmioDevice := fun _ => .rtc .new

def savedClock : DeviceRecord := ⟨"rtc", 0x4000, 0x1000, 7, .pl031, .rtc 5⟩

theorem placed_apart_past_restored : ∃ (m m' : DeviceManager) (dev : MmioDevice),
    m.add 0x1000 clock = some (.ok dev, m') ∧
    m'.records.map (fun r => (r.base, r.spi)) = [(0x4000, 7), (0x5000, 8)] ∧
    (∀ r ∈ m.records, r.spi ≠ 8) ∧ ∀ addr, (m.bus.filter (·.covers addr)).length ≤ 1 := by
  obtain ⟨m, hrun, ⟨res, m'⟩, hadd, hok, hrecords⟩ : ∃ m, Run step (Fits sixteen) unplaced
      [.restored savedClock clock, .fixed 0x9000 0x1000 (.bootTimer ⟨0, none⟩)] m ∧
        ∃ r ∈ m.add 0x1000 clock, r.1.isOk = true ∧
          r.2.records.map (fun r => (r.base, r.spi)) = [(0x4000, 7), (0x5000, 8)] :=
    exists_run (by decide +kernel)
  cases res with
  | error e => cases hok
  | ok dev =>
    obtain ⟨hadded, -, hrouted⟩ := placed_apart (g := sixteen) rfl hrun
    obtain ⟨r, -, hr, -, -, -, hfresh⟩ := hadded 0x1000 clock dev m' hadd
    refine ⟨m, m', dev, hadd, hrecords, ?_, hrouted⟩
    have hlast : some (r.base, r.spi) = some (0x5000, 8) := by
      have hlast := congrArg List.getLast? hrecords
      rw [hr, List.map_append, List.map_singleton, List.getLast?_concat] at hlast
      exact hlast
    intro r' hr'
    rw [← (Prod.mk.inj (Option.some.inj hlast)).2]
    exact hfresh r' hr'

theorem failed_add_consumes : ∃ m m' : DeviceManager,
    Run step (fun _ _ => True) unplaced [.fixed 0x1000 0x1000 (.fuzz .new)] m ∧
    (∃ e, m.add 0x1000 clock = some (.error e, m')) ∧
    (m.resources.spiNext = 0 ∧ m'.resources.spiNext = 1) ∧
    (m'.add 0x1000 clock).map (fun r => r.2.records.map fun r => (r.base, r.spi)) =
      some [(0x2000, 1)] := by
  obtain ⟨m, hrun, ⟨res, m'⟩, hadd, herror, hlost⟩ :
      ∃ m, Run step (fun _ _ => True) unplaced [.fixed 0x1000 0x1000 (.fuzz .new)] m ∧
        ∃ r ∈ m.add 0x1000 clock, r.1.isOk = false ∧
          (m.resources.spiNext = 0 ∧ r.2.resources.spiNext = 1) ∧
          (r.2.add 0x1000 clock).map (fun r => r.2.records.map fun r => (r.base, r.spi)) =
            some [(0x2000, 1)] := exists_run (by decide +kernel)
  cases res with
  | ok dev => cases herror
  | error e => exact ⟨m, m', hrun, ⟨e, hadd⟩, hlost⟩

theorem last_address_shared : ∃ m : DeviceManager, new sixteen = some unplaced ∧
    Run step (fun _ _ => True) unplaced
      [.fixed 0xffffffffffffffff 1 (.fuzz .new),
        .fixed 0xffffffffffffffff 1 (.bootTimer ⟨0, none⟩)] m ∧
    (m.bus.filter (·.covers (2 ^ 64 - 1))).length = 2 :=
  exists_and_left.mpr ⟨rfl, exists_run (by decide +kernel)⟩

end DeviceManager

end Ignition.Vmm
