import Mathlib.Logic.Function.Basic
import Ignition.Base.Barrier
import Ignition.Base.Run
import Ignition.Hvf.Run
import Ignition.Vmm.VcpuManager

/-!
# The vCPU manager as a concurrent machine

`crates/vmm/src/vstate/vcpu_manager.rs`: the threads of the vCPUs, the host threads that
request a snapshot, a checkpoint or a reset, and the thread that waits for them all. An
action is one access of one thread to what they share (a lock taken and released, an atomic
load or store, a barrier arrival) with the local work up to the next one, so a run of this
machine is an interleaving of the program.

A vCPU thread comes up (`StartPc`: fresh, by CPU_ON, or restored between two barriers),
goes round its run loop (`LoopPc`), and joins a rendezvous when it sees a request flag: it
pushes its state, meets the others at the barrier, one of them runs the handler
(`LeadPc`), and all meet again.

A requester freezes CPU_ON, latches the registered vCPUs, makes a barrier for as many, and
raises its flag. The barriers ever made are kept by number (`rounds`), because a thread
may still be leaving one when the next is in place. The host's vCPU ids stand for
themselves: the id of a vCPU is its MPIDR. The broadcast of cancels has no action of its
own, as a vCPU may leave the guest at any time anyway.
-/

namespace Ignition.Vmm

open Parties Runs Ignition.Hvf

namespace Rendezvous

/-- What is requested; each kind has its flag, its handler and its branch of
`try_rendezvous`. -/
inductive Kind where
  | snapshot
  | checkpoint
  | reset
  deriving DecidableEq

/-- The two waits at a barrier. -/
inductive Half where
  | first
  | second
  deriving DecidableEq

/-- How a vCPU thread was started. -/
inductive Start where
  | primary
  | secondary (entry ctx : Nat)
  | restored
  deriving DecidableEq

/-- What the run loop has to do about an exit: nothing that concerns the manager, a CPU_ON,
or a SYSTEM_OFF. -/
inductive Exit where
  | other
  | cpuOn (target entry ctx : Nat)
  | shutdown
  deriving DecidableEq

/-- Where a vCPU thread is before its run loop. -/
inductive StartPc where
  | creating (start : Start)
  | setting
  | arrive (half : Half) (created gicErr : Bool)
  | blocked (half : Half) (created gicErr : Bool) (gen : Nat)
  | lead (created : Bool)
  | gic (created : Bool)
  | check (created gicErr : Bool)
  | restore
  deriving DecidableEq

/-- Where a vCPU thread is in its run loop. -/
inductive LoopPc where
  | top
  | poll (kind : Kind)
  | guest
  | exit (e : Exit)
  | claiming (target entry ctx : Nat)
  | spawning (target entry ctx : Nat)
  deriving DecidableEq

/-- Where the leader is between the two barriers. -/
inductive LeadPc where
  | take
  | slot (cps : Option (List VcpuCheckpoint))
  | handler (cps : List VcpuCheckpoint) (slot : Option Nat)
  | clear (ok : Bool) (slot : Option Nat)
  | release (ok : Bool) (slot : Option Nat)
  | send (ok : Bool) (slot : Option Nat)
  deriving DecidableEq

/-- Where a vCPU thread is. `round` is the number of the barrier it holds. -/
inductive Pc where
  | absent
  | start (p : StartPc)
  | loop (p : LoopPc)
  | push (kind : Kind)
  | fetch (kind : Kind)
  | arrive (half : Half) (kind : Kind) (round : Nat)
  | blocked (half : Half) (kind : Kind) (round gen : Nat)
  | lead (kind : Kind) (round : Nat) (p : LeadPc)
  | restoring (round : Nat)
  | done (ok : Bool)
  | panicked
  deriving DecidableEq

/-- Where a requester is. -/
inductive ReqPc where
  | idle
  | begin (kind : Kind)
  | latch (kind : Kind)
  | unfreeze
  | install (kind : Kind) (ids : List Nat)
  | post (round : Nat)
  | clear (kind : Kind) (round : Nat)
  | raise (kind : Kind) (round : Nat)
  | await (round : Nat)
  deriving DecidableEq

/-- Where `join_all` is. -/
inductive MainPc where
  | popping (ok : Bool)
  | joining (thread : Nat) (ok : Bool)
  | returned (ok : Bool)
  deriving DecidableEq

/-- A barrier that `begin_rendezvous` made, and the channel of the request if it was for a
snapshot (`sent`). The rest is a record for the proofs: who was latched, the handler calls
with what they were given and how they ended, what the requester was told, and which vCPUs
have restored their registers. -/
structure Round where
  kind : Kind
  barrier : Barrier
  sent : Option Bool
  members : List Nat
  calls : List (List VcpuCheckpoint)
  outcome : Option Bool
  returned : Option Bool
  restores : List Nat
  deriving DecidableEq

def Round.new (kind : Kind) (ids : List Nat) : Round where
  kind := kind
  barrier := .new ids.length
  sent := none
  members := ids
  calls := []
  outcome := none
  returned := none
  restores := []

/-- A CPU_ON that has been decided: what the caller finds in X0, and whether a thread was
started for it. -/
structure Call where
  caller : Nat
  target : Nat
  entry : Nat
  ctx : Nat
  x0 : Nat
  started : Bool
  deriving DecidableEq

/-- `VcpuManager`, as far as its threads share it. -/
structure Shared where
  mpidrs : List Nat
  running : List Nat
  vcpuids : List Nat
  spawned : List (Nat × Start)
  threads : List Nat
  shutdown : Bool
  req : Kind → Bool
  snapshotRequest : Option Nat
  rendezvousActive : Bool
  snapBarrier : Option Nat
  collected : List (Nat × Option VcpuState)
  resetPoint : Option (List VcpuCheckpoint)
  rounds : Nat → Round
  roundCount : Nat
  startBarrier : Barrier
  gicBlob : Bool
  gicRestores : Nat
  startFailed : Bool
  x0 : Nat → Nat
  calls : List Call

/-- What an action leaves open: the result of a hypervisor call or of a handler, what the guest
does, what `save_state` returns. -/
inductive Pick where
  | go
  | result (ok : Bool)
  | fail
  | other
  | psci (regs : Regs)
  | saved (state : Option VcpuState)

def Shared.setRound (sh : Shared) (b : Nat) (r : Round) : Shared :=
  { sh with rounds := Function.update sh.rounds b r }

/-! ## Coming up -/

/-- `run_restored_one`, `run_primary`, `run_secondary` up to the run loop. -/
def startStep (sh : Shared) (t : Nat) : StartPc → Pick → Option (Shared × Pc)
  | .creating .restored, .result true =>
    some ({ sh with vcpuids := sh.vcpuids ++ [t] }, .start (.arrive .first true false))
  | .creating .restored, .result false =>
    some ({ sh with shutdown := true, startFailed := true }, .start (.arrive .first false false))
  | .creating _, .result true => some ({ sh with vcpuids := sh.vcpuids ++ [t] }, .start .setting)
  | .creating _, .result false => some (sh, .done false)
  | .setting, .result ok => some (sh, if ok then .loop .top else .done false)
  | .arrive half created gicErr, .go =>
    let (barrier, last) := sh.startBarrier.arrive
    some ({ sh with startBarrier := barrier },
      if last then
        match half with
        | .first => .start (.lead created)
        | .second => .start (.check created gicErr)
      else .start (.blocked half created gicErr sh.startBarrier.gen))
  | .blocked half created gicErr gen, .go =>
    if sh.startBarrier.gen = gen then none
    else some (sh,
      match half with
      | .first => .start (.arrive .second created gicErr)
      | .second => .start (.check created gicErr))
  | .lead created, .go =>
    some (sh,
      if sh.shutdown || !sh.gicBlob then .start (.arrive .second created false)
      else .start (.gic created))
  | .gic created, .result true =>
    some ({ sh with gicRestores := sh.gicRestores + 1 }, .start (.arrive .second created false))
  | .gic created, .result false =>
    some ({ sh with shutdown := true, startFailed := true },
      .start (.arrive .second created true))
  | .check created gicErr, .go =>
    some (sh,
      if sh.shutdown then .done (created && !gicErr)
      else if created then .start .restore
      else .panicked)
  | .restore, .result ok => some (sh, if ok then .loop .top else .done false)
  | _, _ => none

/-! ## The run loop -/

/-- The flags in the order `try_rendezvous` looks at them. -/
def Kind.next : Kind → LoopPc
  | .snapshot => .poll .checkpoint
  | .checkpoint => .poll .reset
  | .reset => .guest

/-- The branch of `try_rendezvous` for a flag that is set. -/
def Kind.join : Kind → Pc
  | .reset => .fetch .reset
  | k => .push k

def exitOf : VcpuExit → Exit
  | .cpuOn target entry ctx => .cpuOn target entry ctx
  | .shutdown => .shutdown
  | _ => .other

def Shared.decided (sh : Shared) (t target entry ctx : Nat) (started : Bool) : Shared :=
  { sh with calls := sh.calls ++ [⟨t, target, entry, ctx, sh.x0 t, started⟩] }

/-- `run_loop` and `spawn` -/
def loopStep (sh : Shared) (t : Nat) : LoopPc → Pick → Option (Shared × Pc)
  | .top, .go => some (sh, if sh.shutdown then .done true else .loop (.poll .snapshot))
  | .poll k, .go => some (sh, if sh.req k then k.join else .loop k.next)
  | .guest, .fail => some (sh, .done false)
  | .guest, .other => some (sh, .loop (.exit .other))
  | .guest, .psci regs =>
    some ({ sh with x0 := Function.update sh.x0 t (regs.handlePsciRequest.1.reg 0) },
      .loop (.exit (exitOf regs.handlePsciRequest.2)))
  | .exit .other, .go => some (sh, .loop .top)
  | .exit .shutdown, .go => some ({ sh with shutdown := true }, .done true)
  | .exit (.cpuOn target entry ctx), .go =>
    if sh.shutdown then some (sh.decided t target entry ctx false, .loop .top)
    else some (sh, .loop (.claiming target entry ctx))
  | .claiming target entry ctx, .go =>
    match claim sh.mpidrs sh.running sh.rendezvousActive target with
    | (.claimed, running) =>
      some ({ sh with running := running }, .loop (.spawning target entry ctx))
    | (_, _) => some (sh.decided t target entry ctx false, .loop .top)
  | .spawning target entry ctx, .go =>
    let sh := sh.decided t target entry ctx true
    some ({ sh with
      spawned := sh.spawned ++ [(target, .secondary entry ctx)]
      threads := sh.threads ++ [target] }, .loop .top)
  | _, _ => none

/-! ## The rendezvous -/

def leadOf (sh : Shared) (k : Kind) (b : Nat) : Shared × Pc :=
  match k with
  | .reset =>
    let r := sh.rounds b
    (sh.setRound b { r with calls := r.calls ++ [[]] }, .lead .reset b (.handler [] none))
  | k => (sh, .lead k b .take)

def afterSecond (k : Kind) (b : Nat) : Pc :=
  match k with
  | .reset => .restoring b
  | _ => .loop .top

def Shared.hasCheckpoint (sh : Shared) (t : Nat) : Bool :=
  sh.resetPoint.any fun cps => cps.any fun cp => cp.mpidr == t

/-- `try_rendezvous` on a vCPU thread that has seen a flag. -/
def meetStep (sh : Shared) (t : Nat) : Pc → Pick → Option (Shared × Pc)
  | .push k, .saved state => some ({ sh with collected := sh.collected ++ [(t, state)] }, .fetch k)
  | .fetch k, .go =>
    match sh.snapBarrier with
    | some b => some (sh, .arrive .first k b)
    | none => some (sh, .panicked)
  | .arrive half k b, .go =>
    let r := sh.rounds b
    let (barrier, last) := r.barrier.arrive
    let sh' := sh.setRound b { r with barrier := barrier }
    if last then
      match half with
      | .first => some (leadOf sh' k b)
      | .second => some (sh', afterSecond k b)
    else some (sh', .blocked half k b r.barrier.gen)
  | .blocked half k b gen, .go =>
    if (sh.rounds b).barrier.gen = gen then none
    else
      match half with
      | .first => some (sh, .arrive .second k b)
      | .second => some (sh, afterSecond k b)
  | .restoring b, .result _ =>
    let r := sh.rounds b
    some (sh.setRound b { r with
      restores := if sh.hasCheckpoint t then r.restores ++ [t] else r.restores }, .loop .top)
  | _, _ => none

/-- `run_collect_leader`, `run_reset_leader` -/
def leadStep (sh : Shared) (k : Kind) (b : Nat) : LeadPc → Pick → Option (Shared × Pc)
  | .take, .go => some ({ sh with collected := [] }, .lead k b (.slot (collect sh.collected)))
  | .slot (some cps), .go =>
    let r := sh.rounds b
    let sh' := sh.setRound b { r with calls := r.calls ++ [cps] }
    some ({ sh' with snapshotRequest := none }, .lead k b (.handler cps sh.snapshotRequest))
  | .slot none, .go =>
    some ({ sh with snapshotRequest := none }, .lead k b (.clear false sh.snapshotRequest))
  | .handler cps slot, .result ok =>
    let r := sh.rounds b
    let sh' := sh.setRound b { r with outcome := some ok }
    some ({ sh' with
      resetPoint := if k = .checkpoint ∧ ok = true then some cps else sh.resetPoint },
      .lead k b (.clear ok slot))
  | .clear ok slot, .go =>
    some ({ sh with req := Function.update sh.req k false }, .lead k b (.release ok slot))
  | .release ok slot, .go =>
    some ({ sh with rendezvousActive := false }, .lead k b (.send ok slot))
  | .send ok slot, .go =>
    match slot with
    | some c =>
      let r := sh.rounds c
      some (sh.setRound c { r with sent := some ok }, .arrive .second k b)
    | none => some (sh, .arrive .second k b)
  | _, _ => none

/-- One step of the thread of vCPU `t`. -/
def threadStep (sh : Shared) (t : Nat) : Pc → Pick → Option (Shared × Pc)
  | .absent, .go => (sh.spawned.lookup t).map fun start => (sh, .start (.creating start))
  | .start p, pick => startStep sh t p pick
  | .loop p, pick => loopStep sh t p pick
  | .lead k b p, pick => leadStep sh k b p pick
  | p, pick => meetStep sh t p pick

/-! ## Requests -/

/-- A requester calls `request_snapshot`, `request_checkpoint` or `request_reset`. -/
def requestCall (sh : Shared) (k : Kind) : ReqPc :=
  if k = .reset ∧ sh.resetPoint = none then .idle else .begin k

def Kind.prepare (k : Kind) (b : Nat) : ReqPc :=
  match k with
  | .snapshot => .post b
  | .checkpoint => .clear .checkpoint b
  | .reset => .raise .reset b

/-- `begin_rendezvous` and the rest of `request_snapshot`, `request_checkpoint`,
`request_reset`. -/
def requestStep (sh : Shared) : ReqPc → Option (Shared × ReqPc)
  | .idle => none
  | .begin k =>
    if sh.rendezvousActive then some (sh, .idle)
    else some ({ sh with rendezvousActive := true }, .latch k)
  | .latch k => some (sh, if sh.vcpuids = [] then .unfreeze else .install k sh.vcpuids)
  | .unfreeze => some ({ sh with rendezvousActive := false }, .idle)
  | .install k ids =>
    let b := sh.roundCount
    let sh' := sh.setRound b (.new k ids)
    some ({ sh' with roundCount := b + 1, snapBarrier := some b }, k.prepare b)
  | .post b => some ({ sh with snapshotRequest := some b }, .clear .snapshot b)
  | .clear k b => some ({ sh with collected := [] }, .raise k b)
  | .raise k b =>
    some ({ sh with req := Function.update sh.req k true },
      if k = .snapshot then .await b else .idle)
  | .await b =>
    let r := sh.rounds b
    r.sent.map fun ok => (sh.setRound b { r with returned := some ok }, .idle)

/-! ## The machine -/

structure State where
  sh : Shared
  pc : Nat → Pc
  rq : Nat → ReqPc
  main : MainPc

/-- `join_all` -/
def mainStep (s : State) : Option (Shared × MainPc) :=
  match s.main with
  | .popping ok =>
    match s.sh.threads.getLast? with
    | some t => some ({ s.sh with threads := s.sh.threads.dropLast }, .joining t ok)
    | none => some (s.sh, .returned ok)
  | .joining t ok =>
    match s.pc t with
    | .done res => some (s.sh, .popping (ok && res))
    | _ => none
  | .returned _ => none

inductive Act where
  | thread (t : Nat) (pick : Pick)
  | call (r : Nat) (k : Kind)
  | request (r : Nat)
  | join

def step (s : State) : Act → Option State
  | .thread t pick =>
    (threadStep s.sh t (s.pc t) pick).map fun x =>
      { s with sh := x.1, pc := Function.update s.pc t x.2 }
  | .call r k =>
    if s.rq r = .idle then some { s with rq := Function.update s.rq r (requestCall s.sh k) }
    else none
  | .request r =>
    (requestStep s.sh (s.rq r)).map fun x =>
      { s with sh := x.1, rq := Function.update s.rq r x.2 }
  | .join => (mainStep s).map fun x => { s with sh := x.1, main := x.2 }

/-! ## How it starts -/

def Shared.new (vcpuCount : Nat) : Shared where
  mpidrs := (List.range vcpuCount).map mpidrFor
  running := []
  vcpuids := []
  spawned := []
  threads := []
  shutdown := false
  req := fun _ => false
  snapshotRequest := none
  rendezvousActive := false
  snapBarrier := none
  collected := []
  resetPoint := none
  rounds := fun _ => .new .snapshot []
  roundCount := 0
  startBarrier := .new 0
  gicBlob := false
  gicRestores := 0
  startFailed := false
  x0 := fun _ => 0
  calls := []

/-- The threads of `ids` are started and nobody has run yet. -/
def starting (sh : Shared) (ids : List Nat) (start : Start) : State where
  sh := { sh with
    running := ids
    spawned := ids.map fun t => (t, start)
    threads := ids }
  pc := fun _ => .absent
  rq := fun _ => .idle
  main := .popping true

/-- `run`. The primary inserts itself into `running` before anything can look at it. -/
def boot (vcpuCount : Nat) : State := starting (.new vcpuCount) [mpidrFor 0] .primary

/-- `run_restored`: the restored vCPUs share a barrier and the blob of the interrupt
controller. A reset point may have been seeded. -/
def restored (vcpuCount : Nat) (checkpoints : List VcpuCheckpoint) (gicBlob : Bool)
    (point : Option (List VcpuCheckpoint)) : State :=
  starting { Shared.new vcpuCount with
    startBarrier := .new checkpoints.length
    gicBlob := gicBlob
    resetPoint := point } (checkpoints.map VcpuCheckpoint.mpidr) .restored

end Rendezvous

end Ignition.Vmm
