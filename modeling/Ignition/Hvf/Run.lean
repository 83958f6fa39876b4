import Mathlib.Tactic.SplitIfs
import Ignition.Hvf.Vcpu

/-!
# One entry into the guest

`HvfVcpu::run` of `crates/hvf/src/lib.rs`. A trapped instruction is finished lazily: the
exit only notes that the program counter has to move on and, for a load, which register
the device's answer goes to. The next call of `run` does both before it enters the guest
(`enter`). In between the vCPU's registers are those of an instruction that has not
happened yet, although its effect on the device has.

What the hypervisor does between entry and exit is a parameter: a function on the
registers, and the reason it came back.
-/

namespace Ignition.Hvf

/-- `VcpuExit`; the buffers are part of the vCPU. -/
inductive VcpuExit where
  | breakpoint
  | canceled
  | cpuOn (mpidr entry contextId : Nat)
  | dirtyFault (pa : Nat)
  | mmioRead (pa len : Nat)
  | mmioWrite (pa : Nat) (data : List Nat)
  | psciHandled
  | shutdown
  | systemRegister
  | vtimerActivated
  | waitForEvent
  | waitForEventExpired
  | waitForEventTimeout (nanos : Nat)
  deriving DecidableEq

structure MmioRead where
  len : Nat
  srt : Nat
  deriving DecidableEq

/-- `HvfVcpu`, with the registers the hypervisor holds for it. -/
structure Vcpu where
  regs : Regs
  cntfrq : Nat
  mmioBuf : List Nat
  pendingMmioRead : Option MmioRead
  pendingAdvancePc : Bool
  vtimerMasked : Bool
  dirtyTracking : Bool
  ramBase : Nat
  ramSize : Nat

/-- Why `hv_vcpu_run` came back. -/
inductive HvExit where
  | canceled
  | vtimerActivated
  | exception (syndrome pa : Nat)
  | unexpected
  deriving DecidableEq

/-! ## The data buffer -/

def encodeMmioLe (buf : List Nat) (val len : Nat) : List Nat :=
  (List.range len).map (fun i => val / 256 ^ i % 256) ++ buf.drop len

def decodeMmioLe (buf : List Nat) (len : Nat) : Nat :=
  (buf.take len).foldr (fun byte rest => byte + 256 * rest) 0

/-! ## PSCI -/

def PSCI_VERSION : Nat := 0x84000000

def PSCI_MIGRATE_INFO_TYPE : Nat := 0x84000006

def PSCI_SYSTEM_OFF : Nat := 0x84000008

def PSCI_SYSTEM_RESET : Nat := 0x84000009

def PSCI_CPU_ON : Nat := 0xc4000003

def PSCI_NOT_SUPPORTED : Nat := 2 ^ 64 - 1

/-- `handle_psci_request`. The answer to CPU_ON is written here, before anybody has looked at
the target. -/
def Regs.handlePsciRequest (regs : Regs) : Regs × VcpuExit :=
  if regs.reg 0 = PSCI_VERSION then (regs.write (.reg 0 2), .psciHandled)
  else if regs.reg 0 = PSCI_MIGRATE_INFO_TYPE then (regs.write (.reg 0 2), .psciHandled)
  else if regs.reg 0 = PSCI_SYSTEM_OFF then (regs, .shutdown)
  else if regs.reg 0 = PSCI_SYSTEM_RESET then (regs, .shutdown)
  else if regs.reg 0 = PSCI_CPU_ON then
    (regs.write (.reg 0 0), .cpuOn (regs.reg 1) (regs.reg 2) (regs.reg 3))
  else (regs.write (.reg 0 PSCI_NOT_SUPPORTED), .psciHandled)

theorem Regs.handlePsciRequest_cpuOn {regs regs' : Regs} {target entry ctx : Nat}
    (h : regs.handlePsciRequest = (regs', .cpuOn target entry ctx)) : regs'.reg 0 = 0 := by
  unfold handlePsciRequest at h
  split_ifs at h with _ _ _ _ hon
  · cases (Prod.mk.inj h).2
  · cases (Prod.mk.inj h).2
  · cases (Prod.mk.inj h).2
  · cases (Prod.mk.inj h).2
  · rw [← (Prod.mk.inj h).1]
    rfl
  · cases (Prod.mk.inj h).2

/-! ## Entry and exit -/

namespace Vcpu

def new (mpidr cntfrq : Nat) : Vcpu where
  regs := Regs.new mpidr
  cntfrq := cntfrq
  mmioBuf := List.replicate 8 0
  pendingMmioRead := none
  pendingAdvancePc := false
  vtimerMasked := false
  dirtyTracking := false
  ramBase := 0
  ramSize := 0

def loaded (v : Vcpu) : Option (Nat × Nat) :=
  match v.pendingMmioRead with
  | some read => if read.srt < 31 then some (read.srt, decodeMmioLe v.mmioBuf read.len) else none
  | none => none

def completeLoad (v : Vcpu) : Regs :=
  match v.loaded with
  | some (srt, val) => v.regs.write (.reg srt val)
  | none => v.regs

/-- `run` up to the entry into the guest. -/
def enter (v : Vcpu) : Vcpu :=
  let regs := v.completeLoad
  { v with
    regs :=
      if v.pendingAdvancePc then
        regs.write (.reg HV_REG_PC ((regs.reg HV_REG_PC + 4) % 2 ^ 64))
      else regs
    pendingMmioRead := none
    pendingAdvancePc := false }

def CNTV_CTL_EL0 : Nat := 57113

def CNTV_CVAL_EL0 : Nat := 57114

/-- `hvf_sync_vtimer`: the timer is unmasked again once its interrupt is no longer asserted,
that is unless of ENABLE, IMASK and ISTATUS exactly the first and the last are set. -/
def syncVtimer (v : Vcpu) : Vcpu :=
  if v.vtimerMasked && v.regs.sysReg CNTV_CTL_EL0 % 8 != 5 then
    { v with regs := v.regs.write (.vtimerMask false), vtimerMasked := false }
  else v

def dataAbort (v : Vcpu) (syndrome pa : Nat) : Vcpu × VcpuExit :=
  let iswrite := syndrome / 2 ^ 6 % 2 = 1
  let len := 2 ^ (syndrome / 2 ^ 22 % 4)
  let srt := syndrome / 2 ^ 16 % 32
  -- a store to write-protected RAM: the store runs again, so the counter stays
  if v.dirtyTracking ∧ iswrite ∧ v.ramBase ≤ pa ∧ pa < v.ramBase + v.ramSize then
    (v, .dirtyFault pa)
  else if iswrite then
    let buf := encodeMmioLe v.mmioBuf (if srt < 31 then v.regs.reg srt else 0) len
    ({ v with pendingAdvancePc := true, mmioBuf := buf }, .mmioWrite pa (buf.take len))
  else
    ({ v with pendingAdvancePc := true, pendingMmioRead := some ⟨len, srt⟩ }, .mmioRead pa len)

/-- A system register access, answered as `NoIrqVcpus` does: reads are zero. -/
def systemRegister (v : Vcpu) (syndrome : Nat) : Vcpu × VcpuExit :=
  let rt := syndrome / 2 ^ 5 % 32
  let v := { v with pendingAdvancePc := true }
  if syndrome % 2 = 1 ∧ rt ≠ 31 then
    ({ v with regs := v.regs.write (.reg rt 0) }, .systemRegister)
  else (v, .systemRegister)

def timeoutNanos (cval count cntfrq : Nat) : Nat :=
  (cval - count) * (1000000000 / cntfrq) % 2 ^ 64

def waitForEvent (v : Vcpu) (machNow : Nat) : Vcpu × VcpuExit :=
  let ctl := v.regs.sysReg CNTV_CTL_EL0
  let cval := v.regs.sysReg CNTV_CVAL_EL0
  let count := cntvct machNow v.regs.vtimerOffset
  let v := { v with pendingAdvancePc := true }
  if ctl % 2 = 0 ∨ ctl / 2 % 2 = 1 then (v, .waitForEvent)
  else if cval ≤ count then (v, .waitForEventExpired)
  else (v, .waitForEventTimeout (timeoutNanos cval count v.cntfrq))

/-- The exception class decides; `none` is a panic. -/
def exception (v : Vcpu) (syndrome pa machNow : Nat) : Option (Vcpu × VcpuExit) :=
  let ec := syndrome / 2 ^ 26 % 64
  if ec = 0x3c then some (v, .breakpoint)
  else if ec = 0x24 then some (v.dataAbort syndrome pa)
  else if ec = 0x18 then some (v.systemRegister syndrome)
  else if ec = 0x01 then some (v.waitForEvent machNow)
  else if ec = 0x16 then
    some ({ v with regs := v.regs.handlePsciRequest.1 }, v.regs.handlePsciRequest.2)
  else if ec = 0x17 then
    some ({ v with regs := v.regs.handlePsciRequest.1, pendingAdvancePc := true },
      v.regs.handlePsciRequest.2)
  else none

/-- `run` from the entry on: `guest` is what the guest does to the registers, `reason` why it
stopped. -/
def exit (v : Vcpu) (guest : Regs → Regs) (reason : HvExit) (machNow : Nat) :
    Option (Vcpu × VcpuExit) :=
  let v := { v with regs := guest v.regs }
  match reason with
  | .canceled => some (v, .canceled)
  | .vtimerActivated => some ({ v with vtimerMasked := true }, .vtimerActivated)
  | .exception syndrome pa => v.syncVtimer.exception syndrome pa machNow
  | .unexpected => none

def run (v : Vcpu) (guest : Regs → Regs) (reason : HvExit) (machNow : Nat) :
    Option (Vcpu × VcpuExit) := v.enter.exit guest reason machNow

/-! ## Waiting -/

def MAX_PARK : Nat := 10000000

def parkNanos : VcpuExit → Nat
  | .waitForEventTimeout nanos => min nanos MAX_PARK
  | .waitForEvent => MAX_PARK
  | _ => 0

/-- **The park time is computed without overflow exactly if the comparator is not too far ahead.**
Waking up is never late, even then: a wrapped time is only shorter. -/
theorem park_exact_iff {v : Vcpu} {machNow cval count : Nat} (hpos : 1 ≤ v.cntfrq)
    (hfreq : v.cntfrq ≤ 1000000000)
    (hctl : v.regs.sysReg CNTV_CTL_EL0 % 2 = 1 ∧ v.regs.sysReg CNTV_CTL_EL0 / 2 % 2 = 0)
    (hcval : v.regs.sysReg CNTV_CVAL_EL0 = cval)
    (hcount : cntvct machNow v.regs.vtimerOffset = count) (hlt : count < cval) :
    ((v.waitForEvent machNow).2 =
        .waitForEventTimeout ((cval - count) * (1000000000 / v.cntfrq)) ↔
      cval - count ≤ (2 ^ 64 - 1) / (1000000000 / v.cntfrq)) ∧
    parkNanos (v.waitForEvent machNow).2 * v.cntfrq ≤ (cval - count) * 1000000000 := by
  have hexit : (v.waitForEvent machNow).2 =
      .waitForEventTimeout (timeoutNanos cval count v.cntfrq) := by
    unfold waitForEvent
    dsimp only
    rw [if_neg (by omega), hcval, hcount, if_neg (Nat.not_le.mpr hlt)]
  have hper : 0 < 1000000000 / v.cntfrq := Nat.div_pos hfreq hpos
  rw [hexit]
  unfold timeoutNanos
  refine ⟨?_, ?_⟩
  · rw [VcpuExit.waitForEventTimeout.injEq, Nat.le_div_iff_mul_le hper,
      Nat.mod_eq_iff_lt (by decide)]
    omega
  · calc parkNanos (.waitForEventTimeout _) * v.cntfrq
        ≤ (cval - count) * (1000000000 / v.cntfrq) * v.cntfrq :=
          Nat.mul_le_mul_right _ (Nat.le_trans (Nat.min_le_left ..) (Nat.mod_le ..))
      _ = (cval - count) * (1000000000 / v.cntfrq * v.cntfrq) := Nat.mul_assoc ..
      _ ≤ (cval - count) * 1000000000 := Nat.mul_le_mul_left _ (Nat.div_mul_le_self ..)

def ticking (cval : Nat) : Vcpu :=
  { new 0 24000000 with
    regs := [.sysReg CNTV_CTL_EL0 1, .sysReg CNTV_CVAL_EL0 cval].foldl Regs.write (Regs.new 0) }

theorem park_exact_second : ((ticking 24000000).waitForEvent 0).2 =
    .waitForEventTimeout (24000000 * 41) := by
  have hcount : cntvct 0 (ticking 24000000).regs.vtimerOffset = 0 := rfl
  exact (park_exact_iff (by decide) (by decide) (by decide) rfl hcount (by decide)).1.mpr
    (by decide)

theorem park_wraps : ((ticking (2 ^ 64 - 1)).waitForEvent 0).2 =
    .waitForEventTimeout (2 ^ 64 - 41) ∧ 2 ^ 64 < (2 ^ 64 - 1) * (1000000000 / 24000000) := by
  decide +kernel

end Vcpu

end Ignition.Hvf
