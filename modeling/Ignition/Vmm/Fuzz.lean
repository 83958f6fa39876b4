import Ignition.Base.Run
import Ignition.Devices.Bus
import Ignition.Hvf.Completion
import Ignition.Vmm.Memory

/-!
# The fuzzer

The fuzz loop of `vcpu_manager.rs` with the controller of `fuzz/controller.rs`. The guest sets
itself up and rings `SNAPSHOT_ME`: the controller keeps a copy of RAM and the registers. From then
on every iteration has an input in a window that host and guest share. The guest runs on it, counts
the edges it takes in a coverage map, and rings `DONE` or `CRASH`; the controller looks at the
coverage, puts the next input into the window, and rolls RAM and the registers back.

RAM is rolled back as a whole, or only the pages that the guest has written. For the latter RAM is
write-protected, a store to a protected page traps, and the fault handler marks the page and
grants the write. Window and coverage map are mapped outside RAM and are not rolled back.

The guest is arbitrary: it stores anywhere at any time, and runs to any exit with any registers. A
hypervisor call that fails ends the loop, and so does ringing `DONE` or `CRASH` before the
snapshot, which panics; these are no steps. The other devices on the bus, the statistics and the
log are left out. `Move` says what one step can do.
-/

namespace Ignition.Vmm

open Paged Ignition.Devices Ignition.Hvf Option

/-! ## Inputs -/

structure Rng where
  state : UInt64
  deriving DecidableEq

namespace Rng

def new (seed : UInt64) : Rng := ⟨if seed = 0 then 0x9E3779B97F4A7C15 else seed⟩

def nextU64 (rng : Rng) : UInt64 × Rng :=
  let x := rng.state
  let x := x ^^^ (x >>> 12)
  let x := x ^^^ (x <<< 25)
  let x := x ^^^ (x >>> 27)
  (x * 0x2545F4914F6CDD1D, ⟨x⟩)

def below (rng : Rng) (n : Nat) : Nat × Rng :=
  if n = 0 then (0, rng)
  else
    let (v, rng) := rng.nextU64
    (v.toNat % n, rng)

end Rng

/-- One round of `mutate`. -/
def mutateByte (out : Bytes) (rng : Rng) : Bytes × Rng :=
  let (i, rng) := rng.below out.length
  let (kind, rng) := rng.below 3
  match kind with
  | 0 =>
    let (v, rng) := rng.nextU64
    (out.set i v.toUInt8, rng)
  | 1 =>
    let (bit, rng) := rng.below 8
    (out.set i (out.getD i 0 ^^^ (1 <<< UInt8.ofNat bit)), rng)
  | _ => (out.set i (out.getD i 0 + 1), rng)

def mutateRounds : Nat → Bytes → Rng → Bytes × Rng
  | 0, out, rng => (out, rng)
  | rounds + 1, out, rng =>
    let (out, rng) := mutateByte out rng
    mutateRounds rounds out rng

def mutate (seed : Bytes) (rng : Rng) (maxLen : Nat) : Bytes × Rng :=
  let out := if seed = [] then [0] else seed
  let out := if maxLen < out.length then out.take (max maxLen 1) else out
  let (rounds, rng) := rng.below 8
  mutateRounds (1 + rounds) out rng

/-- The edges seen so far. -/
structure CoverageMap where
  seen : List Bool
  covered : Nat
  deriving DecidableEq

namespace CoverageMap

def new (len : Nat) : CoverageMap := ⟨List.replicate len false, 0⟩

/-- `CoverageMap::record`, with whether there is a new edge. -/
def record (m : CoverageMap) (cov : Bytes) : CoverageMap × Bool :=
  (List.range (min cov.length m.seen.length)).foldl
    (fun (m, new) i =>
      if cov.getD i 0 ≠ 0 ∧ m.seen.getD i true = false then
        (⟨m.seen.set i true, m.covered + 1⟩, true)
      else (m, new))
    (m, false)

end CoverageMap

/-! ## The controller -/

inductive ResetMode where
  | full
  | dirty
  deriving DecidableEq

structure FuzzController where
  baseRam : Bytes
  baseState : Option VcpuState
  coverage : CoverageMap
  corpus : List Bytes
  lastInput : Bytes
  resetMode : ResetMode
  rng : Rng
  replay : Option Bytes
  crashCount : Nat
  iterations : Nat
  captured : Bool
  deriving DecidableEq

def FuzzController.new (covLen : Nat) (resetMode : ResetMode) (seeds : List Bytes)
    (replay : Option Bytes) (seedRng : UInt64) : FuzzController where
  baseRam := []
  baseState := none
  coverage := .new covLen
  corpus := if seeds = [] then [[0]] else seeds
  lastInput := []
  resetMode := resetMode
  rng := .new seedRng
  replay := replay
  crashCount := 0
  iterations := 0
  captured := false

/-- The files of `write_solution` for one crash. What was injected is kept beside them. -/
structure Solution where
  index : Nat
  input : Bytes
  crashCode : UInt32
  injected : Bytes
  deriving DecidableEq

/-- The controller with everything it reaches. -/
structure Fuzzer where
  vcpu : Vcpu
  mem : Memory
  writable : Nat → Bool
  window : Bytes
  cov : Bytes
  dev : FuzzDevice
  ctl : FuzzController
  solutions : List Solution
  injected : Bytes

def FUZZ_CTRL_GPA : Nat := 0x09200000
def FUZZ_WIN_GPA : Nat := 0x09204000
def FUZZ_COV_GPA : Nat := 0x09404000

namespace Fuzzer

/-- The state in which `run_fuzz_mode` of `boot.rs` enters the loop: nothing of RAM is protected,
window and coverage map are fresh mappings. The loop arms the vCPU (`set_dirty_window`) if only
dirty pages are to be rolled back. -/
def boot (vcpu : Vcpu) (mem : Memory) (windowSize covSize : Nat) (resetMode : ResetMode)
    (seeds : List Bytes) (replay : Option Bytes) : Fuzzer where
  vcpu := { vcpu with
    dirtyTracking := resetMode == .dirty
    ramBase := RAM_BASE
    ramSize := mem.ram.length }
  mem := mem
  writable := fun _ => true
  window := List.replicate windowSize 0
  cov := List.replicate covSize 0
  dev := .new
  ctl := .new covSize resetMode seeds replay 0xF1FA5EED
  solutions := []
  injected := []

/-- What a step meets outside: the host counter at the exit and after it, what another device puts
into the buffer of a load, and whether a solution could be written. -/
structure Host where
  now : Nat
  later : Nat
  answer : Bytes
  written : Bool

def inject (f : Fuzzer) (input : Bytes) : Fuzzer × UInt32 :=
  let n := min input.length f.window.length
  ({ f with window := copyInto f.window 0 (input.take n), injected := input.take n },
    UInt32.ofNat n)

def prepareNextInput (f : Fuzzer) : Fuzzer × UInt32 :=
  let f := { f with cov := f.cov.map fun _ => 0 }
  match f.ctl.replay with
  | some fixed => { f with ctl := { f.ctl with lastInput := fixed } }.inject fixed
  | none =>
    let pick := f.ctl.rng.below f.ctl.corpus.length
    let input := mutate (f.ctl.corpus.getD pick.1 []) pick.2 f.window.length
    let last := input.1.take (min input.1.length f.window.length)
    { f with ctl := { f.ctl with rng := input.2, lastInput := last } }.inject input.1

def observeAndStats (f : Fuzzer) : Fuzzer :=
  let (coverage, new) := f.ctl.coverage.record f.cov
  let corpus :=
    if new && f.ctl.replay.isNone && f.ctl.corpus.length < 4096 then
      f.ctl.corpus ++ [f.ctl.lastInput]
    else f.ctl.corpus
  { f with ctl := { f.ctl with coverage := coverage, corpus := corpus } }

/-- The first part of `FuzzController::reset`: RAM. -/
def resetRam (f : Fuzzer) : Option Fuzzer :=
  match f.ctl.resetMode with
  | .full =>
    if h : f.ctl.baseRam.length = f.mem.ram.length then
      some { f with mem := f.mem.withRam f.ctl.baseRam h }
    else none
  | .dirty =>
    let pages := f.mem.tracker.drain.1
    let mem := f.mem.drain
    some { f with
      mem := mem.withRam (rollbackPages f.ctl.baseRam mem.ram pages PAGE)
        (length_rollbackPages _ _ _ _)
      writable := fun _ => false }

/-- The second part of `FuzzController::reset`: the registers. -/
def resetRegs (f : Fuzzer) (host : Host) (state : VcpuState) : Fuzzer :=
  let off := vtimerOffsetFrom host.later state.hostCounter
  { f with vcpu :=
    { f.vcpu with
      regs := (restoreWrites state off).foldl Regs.write f.vcpu.regs
      pendingAdvancePc := false } }

def reset (f : Fuzzer) (host : Host) : Option Fuzzer :=
  f.resetRam.bind fun f => f.ctl.baseState.map fun state => f.resetRegs host state

/-- `self.iterations += 1` -/
def countIteration (f : Fuzzer) : Fuzzer :=
  { f with ctl := { f.ctl with iterations := f.ctl.iterations + 1 } }

/-- `FuzzController::on_done`, and the length goes into its register. -/
def onDone (f : Fuzzer) (host : Host) : Option Fuzzer :=
  let (f, len) := f.countIteration.observeAndStats.prepareNextInput
  (f.reset host).map fun f => { f with dev := f.dev.setInputLen len }

/-- The solution of `FuzzController::on_crash`: what is in the window now, in the length the
register has now. -/
def solve (f : Fuzzer) (host : Host) : Fuzzer :=
  let n := min f.dev.inputLen.toNat f.window.length
  let sol := ⟨f.ctl.crashCount, f.window.take n, f.dev.crashCode, f.injected⟩
  { f with
    solutions := if host.written then f.solutions ++ [sol] else f.solutions
    ctl := { f.ctl with crashCount := f.ctl.crashCount + 1 } }

/-- `FuzzController::on_crash`, which goes on like `on_done`. -/
def onCrash (f : Fuzzer) (host : Host) : Option Fuzzer := (f.solve host).onDone host

/-- `HvfVcpu::advance_pc` and the first part of `FuzzController::capture`: RAM and registers. -/
def takeSnapshot (f : Fuzzer) (host : Host) : Fuzzer :=
  let regs := f.vcpu.regs.write (.reg HV_REG_PC ((f.vcpu.regs.reg HV_REG_PC + 4) % 2 ^ 64))
  { f with
    vcpu := { f.vcpu with regs := regs, pendingAdvancePc := false }
    ctl := { f.ctl with
      baseRam := f.mem.ram
      baseState := some (regs.saveState host.later)
      captured := true }
    writable := if f.ctl.resetMode = ResetMode.dirty then fun _ => false else f.writable }

/-- `FuzzController::capture`, and the length goes into its register. -/
def capture (f : Fuzzer) (host : Host) : Fuzzer :=
  let (f, len) := (f.takeSnapshot host).prepareNextInput
  { f with dev := f.dev.setInputLen len }

/-! ## The loop -/

/-- The commands of `fuzz::protocol::cmd`. -/
inductive Cmd where
  | snapshotMe
  | done
  | crash
  | unknown
  deriving DecidableEq

def command (data : Bytes) : Cmd :=
  let cmd := if 4 ≤ data.length then fromLeBytes (data.take 4) else 0
  if cmd = 1 then .snapshotMe else if cmd = 2 then .done else if cmd = 3 then .crash else .unknown

/-- The doorbell arm of `fuzz_loop`. -/
def doorbell (f : Fuzzer) (host : Host) : Cmd → Option Fuzzer
  | .snapshotMe => some (f.capture host)
  | .done => f.onDone host
  | .crash => f.onCrash host
  | .unknown => some f

def inControl (pa : Nat) : Prop := FUZZ_CTRL_GPA ≤ pa ∧ pa < FUZZ_CTRL_GPA + CONTROL_SIZE

instance (pa : Nat) : Decidable (inControl pa) := inferInstanceAs (Decidable (_ ∧ _))

/-- What `fuzz_loop` does about an exit. -/
def handle (f : Fuzzer) (host : Host) : VcpuExit → Option Fuzzer
  | .mmioWrite pa data =>
    let data := data.map UInt8.ofNat
    if pa = FUZZ_CTRL_GPA + reg.DOORBELL then f.doorbell host (command data)
    else if inControl pa then some { f with dev := f.dev.write (pa - FUZZ_CTRL_GPA) data }
    else some f
  | .mmioRead pa len =>
    let buf := (f.vcpu.mmioBuf.take len).map UInt8.ofNat
    let answer := if inControl pa then f.dev.read (pa - FUZZ_CTRL_GPA) buf else host.answer
    some { f with vcpu := f.vcpu.serviced (.mmioRead pa len) (answer.map UInt8.toNat) }
  | .dirtyFault pa =>
    if f.ctl.resetMode = .dirty then
      (f.mem.pageOf pa).map fun p =>
        { f with mem := f.mem.mark pa, writable := fun q => q == p || f.writable q }
    else some f
  | .shutdown => none
  | .canceled => none
  | _ => some f

inductive Action where
  | store (gpa : Nat) (data : Bytes)
  | window (off : Nat) (data : Bytes)
  | cov (off : Nat) (data : Bytes)
  | run (guest : Regs → Regs) (reason : HvExit) (host : Host)

def step (f : Fuzzer) : Action → Option Fuzzer
  | .store gpa data =>
    if (Memory.touched gpa data.length).all f.writable then
      (f.mem.copyIn gpa data).map fun mem => { f with mem := mem }
    else none
  | .window off data =>
    if off + data.length ≤ f.window.length then
      some { f with window := copyInto f.window off data }
    else none
  | .cov off data =>
    if off + data.length ≤ f.cov.length then some { f with cov := copyInto f.cov off data }
    else none
  | .run guest reason host =>
    (f.vcpu.run guest reason host.now).bind fun r => { f with vcpu := r.1 }.handle host r.2

def rung : VcpuExit → Option Cmd
  | .mmioWrite pa data =>
    if pa = FUZZ_CTRL_GPA + reg.DOORBELL then some (command (data.map UInt8.ofNat)) else none
  | _ => none

def rings (f : Fuzzer) : Action → Option Cmd
  | .run guest reason host =>
    (f.vcpu.run guest reason host.now).bind fun r => rung r.2
  | _ => none

/-! ## What a step can do -/

/-- What one step can do: the guest acts on one of its regions or on a register, a fault is
handled, or the doorbell rings. -/
inductive Move (f : Fuzzer) : Action → Fuzzer → Prop where
  | store {gpa : Nat} {data : Bytes} {mem : Memory} :
      (∀ p ∈ Memory.touched gpa data.length, f.writable p = true) →
      f.mem.copyIn gpa data = some mem → Move f (.store gpa data) { f with mem := mem }
  | window {off : Nat} {data : Bytes} : off + data.length ≤ f.window.length →
      Move f (.window off data) { f with window := copyInto f.window off data }
  | cov {off : Nat} {data : Bytes} : off + data.length ≤ f.cov.length →
      Move f (.cov off data) { f with cov := copyInto f.cov off data }
  | idle {guest : Regs → Regs} {reason : HvExit} {host : Host} (v : Vcpu) :
      f.rings (.run guest reason host) = none →
      Move f (.run guest reason host) { f with vcpu := v }
  | register {guest : Regs → Regs} {reason : HvExit} {host : Host} {v : Vcpu} {pa : Nat}
      {data : List Nat} : f.rings (.run guest reason host) = none → inControl pa →
      f.vcpu.run guest reason host.now = some (v, .mmioWrite pa data) →
      Move f (.run guest reason host)
        { f with vcpu := v, dev := f.dev.write (pa - FUZZ_CTRL_GPA) (data.map UInt8.ofNat) }
  | fault {guest : Regs → Regs} {reason : HvExit} {host : Host} {v : Vcpu} {pa p : Nat} :
      f.rings (.run guest reason host) = none → f.mem.pageOf pa = some p →
      Move f (.run guest reason host)
        { f with vcpu := v, mem := f.mem.mark pa, writable := fun q => q == p || f.writable q }
  | ring {guest : Regs → Regs} {reason : HvExit} {host : Host} {v : Vcpu} {cmd : Cmd}
      {f' : Fuzzer} : f.rings (.run guest reason host) = some cmd → v.pendingMmioRead = none →
      { f with vcpu := v }.doorbell host cmd = some f' → Move f (.run guest reason host) f'

theorem rings_run {f : Fuzzer} {guest : Regs → Regs} {reason : HvExit} {host : Host} {v : Vcpu}
    {e : VcpuExit} (h : f.vcpu.run guest reason host.now = some (v, e)) :
    f.rings (.run guest reason host) = rung e := by
  show (f.vcpu.run guest reason host.now).bind _ = _
  rw [h]
  rfl

theorem Move.of_handle {f f' : Fuzzer} {guest : Regs → Regs} {reason : HvExit} {host : Host}
    {v : Vcpu} {e : VcpuExit} (hrun : f.vcpu.run guest reason host.now = some (v, e))
    (h : { f with vcpu := v }.handle host e = some f') : Move f (.run guest reason host) f' := by
  have hrings := rings_run hrun
  cases e with
  | mmioWrite pa data =>
    dsimp only [rung] at hrings
    unfold handle at h
    dsimp only at h
    split at h
    next hbell =>
      rw [if_pos hbell] at hrings
      exact .ring hrings (Vcpu.run_leaves hrun).2 h
    rename_i hbell
    rw [if_neg hbell] at hrings
    split at h
    next hin =>
      cases h
      exact .register hrings hin hrun
    · cases h
      exact .idle v hrings
  | dirtyFault pa =>
    unfold handle at h
    dsimp only at h
    split at h
    · obtain ⟨p, hp, rfl⟩ := map_eq_some_iff.mp h
      exact .fault hrings hp
    · cases h
      exact .idle v hrings
  | shutdown | canceled => cases h
  -- a load changes the vCPU's buffer, the other exits nothing
  | _ =>
    cases h
    exact .idle _ hrings

/-- **What a step can do.** -/
theorem move {f f' : Fuzzer} {a : Action} (h : f.step a = some f') : Move f a f' := by
  cases a with
  | store gpa data =>
    unfold step at h
    dsimp only at h
    split at h
    next hw =>
      obtain ⟨mem, hmem, rfl⟩ := map_eq_some_iff.mp h
      exact .store (List.all_eq_true.mp hw) hmem
    · cases h
  | window off data =>
    unfold step at h
    obtain ⟨hin, rfl⟩ := ite_some_none_eq_some.mp h
    exact .window hin
  | cov off data =>
    unfold step at h
    obtain ⟨hin, rfl⟩ := ite_some_none_eq_some.mp h
    exact .cov hin
  | run guest reason host =>
    obtain ⟨⟨v, e⟩, hrun, hhandle⟩ := bind_eq_some_iff.mp h
    exact .of_handle hrun hhandle

end Fuzzer

end Ignition.Vmm
