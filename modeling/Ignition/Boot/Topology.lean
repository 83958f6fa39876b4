import Mathlib.Data.List.Perm.Subperm
import Mathlib.Data.List.Range
import Ignition.Vmm.Memory
import Ignition.Vmm.VcpuManager

/-!
# The vCPUs and the interrupt controller of a restored machine

A booted machine derives the placement of its interrupt controller (`HvfGicV3::new`) and the
vCPUs it will bring up (`VcpuManager::new`) from `--smp`. The snapshot handler does not store
that number: it stores how many vCPUs it was given states of, and `run_restore` derives the same
two things from what is stored. So a restored machine is like the original exactly if every
configured vCPU was online (`restored_topology_iff`).
-/

namespace Ignition.Boot

open Ignition.Vmm List Option

/-- What `hv_gic_get_distributor_size` and `hv_gic_get_redistributor_size` report. -/
structure GicSizes where
  dist : Nat
  redistEach : Nat
  redist_pos : 0 < redistEach

structure HvfGicV3 where
  distBase : Nat
  distSize : Nat
  redistBase : Nat
  redistSize : Nat
  deriving DecidableEq

def checkedSub (a b : Nat) : Option Nat := if b ≤ a then some (a - b) else none

def HvfGicV3.new (sizes : GicSizes) (vcpuCount gicTop : Nat) : Option HvfGicV3 := do
  let redistSize := sizes.redistEach * vcpuCount
  let redistBase ← checkedSub gicTop redistSize
  let distBase ← checkedSub redistBase sizes.dist
  return ⟨distBase, sizes.dist, redistBase, redistSize⟩

def HvfGicV3.HasSlot (gic : HvfGicV3) (sizes : GicSizes) (mpidr : Nat) : Prop :=
  sizes.redistEach * (mpidr + 1) ≤ gic.redistSize

/-- The interrupt controller and what the vCPU manager goes by when it is asked for a vCPU. -/
structure Topology where
  gic : HvfGicV3
  mpidrs : List Nat
  running : List Nat

/-- A boot with `--smp` vCPUs, as far as the topology goes. -/
def bootTopology (sizes : GicSizes) (smp : Nat) : Option Topology := do
  let gic ← HvfGicV3.new sizes smp RAM_BASE
  return ⟨gic, (List.range smp).map mpidrFor, [mpidrFor 0]⟩

/-- The snapshot that `install_snapshot_handler` puts together. -/
def snapshotOf (memSize : Nat) (checkpoints : List VcpuCheckpoint) (devices : List DeviceRecord) :
    VmSnapshot :=
  .new ⟨memSize, checkpoints.length⟩ checkpoints devices

/-- `run_restore`, as far as the topology goes. -/
def restoreTopology (sizes : GicSizes) (snap : VmSnapshot) : Option Topology := do
  let gic ← HvfGicV3.new sizes snap.config.vcpuCount RAM_BASE
  return ⟨gic, (List.range snap.config.vcpuCount).map mpidrFor,
    snap.vcpus.map VcpuCheckpoint.mpidr⟩

def Topology.accepts (top : Topology) (mpidr : Nat) : Bool :=
  (claim top.mpidrs top.running false mpidr).1 = .claimed

/-- The restored machine is like the one the snapshot was taken of. -/
structure SameTopology (sizes : GicSizes) (booted restored : Topology) (online : List Nat) :
    Prop where
  distBase : restored.gic.distBase = booted.gic.distBase
  redistBase : restored.gic.redistBase = booted.gic.redistBase
  accepts : ∀ mpidr, restored.accepts mpidr = true ↔ mpidr ∈ booted.mpidrs ∧ mpidr ∉ online
  slots : ∀ mpidr ∈ online, restored.gic.HasSlot sizes mpidr

section

variable {sizes : GicSizes} {smp count gicTop : Nat} {gic : HvfGicV3} {booted : Topology}

/-! ## What each part comes from -/

theorem checkedSub_eq_some {a b c : Nat} (h : checkedSub a b = some c) : b ≤ a ∧ c = a - b := by
  unfold checkedSub at h
  split at h
  · rename_i hle
    exact ⟨hle, (some.inj h).symm⟩
  · cases h

theorem HvfGicV3.of_new (h : HvfGicV3.new sizes count gicTop = some gic) :
    gic.redistSize = sizes.redistEach * count ∧ gic.redistBase + gic.redistSize = gicTop ∧
      gic.distBase + sizes.dist = gic.redistBase := by
  obtain ⟨redistBase, hredist, h⟩ := bind_eq_some_iff.mp h
  obtain ⟨distBase, hdist, h⟩ := bind_eq_some_iff.mp h
  cases h
  obtain ⟨hle, rfl⟩ := checkedSub_eq_some hredist
  obtain ⟨hle', rfl⟩ := checkedSub_eq_some hdist
  refine ⟨rfl, ?_, ?_⟩ <;> dsimp only <;> omega

theorem HvfGicV3.hasSlot_iff (h : HvfGicV3.new sizes count gicTop = some gic) {mpidr : Nat} :
    gic.HasSlot sizes mpidr ↔ mpidr < count := by
  unfold HasSlot
  rw [(of_new h).1]
  exact Nat.mul_le_mul_left_iff sizes.redist_pos

theorem Topology.accepts_iff {top : Topology} {mpidr : Nat} :
    top.accepts mpidr = true ↔ mpidr ∈ top.mpidrs ∧ mpidr ∉ top.running := by
  simp only [accepts, claim]
  by_cases hmem : mpidr ∈ top.mpidrs <;> by_cases hrun : mpidr ∈ top.running <;>
    simp [hmem, hrun]

theorem mem_mpidrs {mpidr : Nat} : mpidr ∈ (range count).map mpidrFor ↔ mpidr < count := by
  simp [mpidrFor]

theorem mem_of_length_eq {online : List Nat} (hnd : online.Nodup) (hlt : ∀ t ∈ online, t < count)
    (hlen : online.length = count) {t : Nat} (ht : t < count) : t ∈ online := by
  have hsub : online.Subperm (range count) :=
    hnd.subperm fun t ht => mem_range.mpr (hlt t ht)
  have hperm := hsub.perm_of_length_le (by rw [length_range, hlen])
  exact hperm.mem_iff.mpr (mem_range.mpr ht)

/-! ## The restored machine -/

/-- **Restored topology.** A machine booted with `smp` vCPUs is snapshotted while the vCPUs
`online` are up and none is coming up. It can be restored to a machine with the same topology
exactly if all the configured vCPUs were online. -/
theorem restored_topology_iff (hboot : bootTopology sizes smp = some booted) {online : List Nat}
    (hnd : online.Nodup) (hsub : ∀ t ∈ online, t ∈ booted.mpidrs)
    {checkpoints : List VcpuCheckpoint} (hcps : Complete checkpoints online)
    {memSize : Nat} {devices : List DeviceRecord} :
    (∃ restored, restoreTopology sizes (snapshotOf memSize checkpoints devices) = some restored ∧
      SameTopology sizes booted restored online) ↔ ∀ t ∈ booted.mpidrs, t ∈ online := by
  obtain ⟨gic, hgic, hbooted⟩ := bind_eq_some_iff.mp hboot
  cases hbooted
  dsimp only at hsub ⊢
  have hlt : ∀ t ∈ online, t < smp := fun t ht => mem_mpidrs.mp (hsub t ht)
  have hlen : checkpoints.length = online.length := by
    rw [← hcps.perm.length_eq, length_map]
  have hle : online.length ≤ smp := by
    have hsubperm : online.Subperm (range smp) :=
      hnd.subperm fun t ht => mem_range.mpr (hlt t ht)
    simpa using hsubperm.length_le
  constructor
  · rintro ⟨restored, hrestored, hsame⟩ t ht
    obtain ⟨gic', hgic', heq⟩ := bind_eq_some_iff.mp hrestored
    cases heq
    have hslots : ∀ u ∈ online, u < checkpoints.length := fun u hu =>
      (HvfGicV3.hasSlot_iff hgic').mp (hsame.slots u hu)
    by_contra hnot
    -- the vCPU was offline, so the restored machine would have to accept it
    have haccepts := Topology.accepts_iff.mp ((hsame.accepts t).mpr ⟨ht, hnot⟩)
    have htlt : t < checkpoints.length := mem_mpidrs.mp haccepts.1
    exact hnot (mem_of_length_eq hnd hslots hlen.symm htlt)
  · intro hall
    have hcount : checkpoints.length = smp := by
      have hback : (range smp).Subperm online :=
        nodup_range.subperm fun t ht => hall t (mem_mpidrs.mpr (mem_range.mp ht))
      have := hback.length_le
      rw [length_range] at this
      omega
    refine ⟨⟨gic, (range smp).map mpidrFor, checkpoints.map VcpuCheckpoint.mpidr⟩, ?_, ?_⟩
    · simp only [restoreTopology, snapshotOf, VmSnapshot.new, hcount, hgic, Option.bind_eq_bind,
        Option.bind_some, Option.pure_def]
    · refine ⟨rfl, rfl, fun t => ?_, fun t ht => ?_⟩
      · rw [Topology.accepts_iff, hcps.perm.mem_iff]
      · exact (HvfGicV3.hasSlot_iff hgic).mpr (hlt t ht)

end

def gicSizes : GicSizes := ⟨0x10000, 0x20000, by decide⟩

def idleCheckpoint (mpidr : Nat) : VcpuCheckpoint := ⟨mpidr, (Hvf.Regs.new 0).saveState 0⟩

theorem restored_topology_iff_alone :
    ∃ booted restored, bootTopology gicSizes 1 = some booted ∧
      restoreTopology gicSizes (snapshotOf 0 [idleCheckpoint 0] []) = some restored ∧
      SameTopology gicSizes booted restored [0] := by
  have hboot : bootTopology gicSizes 1 = some ⟨⟨0x3ffd0000, 0x10000, 0x3ffe0000, 0x20000⟩, [0], [0]⟩ := by
    rfl
  have hcps : Complete [idleCheckpoint 0] [0] :=
    ⟨List.Perm.refl [0], pairwise_singleton _ _⟩
  obtain ⟨restored, hrestored, hsame⟩ :=
    (restored_topology_iff hboot (nodup_singleton 0) (fun _ ht => ht) hcps).mpr fun _ ht => ht
  exact ⟨_, restored, hboot, hrestored, hsame⟩

theorem offline_vcpus_forgotten :
    ∃ booted restored, bootTopology gicSizes 4 = some booted ∧
      restoreTopology gicSizes (snapshotOf 0 [idleCheckpoint 0, idleCheckpoint 3] []) =
        some restored ∧
      restored.gic.distBase ≠ booted.gic.distBase ∧
      (2 ∈ booted.mpidrs ∧ restored.accepts 2 = false) ∧
      ¬ restored.gic.HasSlot gicSizes 3 := by
  refine ⟨⟨⟨0x3ff70000, 0x10000, 0x3ff80000, 0x80000⟩, [0, 1, 2, 3], [0]⟩,
    ⟨⟨0x3ffb0000, 0x10000, 0x3ffc0000, 0x40000⟩, [0, 1], [0, 3]⟩, rfl, rfl, ?_, ?_, ?_⟩
  · decide
  · decide
  · unfold HvfGicV3.HasSlot
    decide

end Ignition.Boot
