import Ignition.Devices.VirtioDevice

/-!
# The virtio-mmio transport

`VirtioMmio` of `mmio.rs`: the registers through which the guest drives a device, one group of
them for each queue, with the interrupt line. The queue object that a device works on is built
from the registers when `QueueReady` is written; what is written to the registers afterwards does
not reach it.

Notifies, injected frames, injected events and vsock polls go the same way: they look up a
queue that is ready, have the device work on it, and raise the interrupt if it used a buffer
(`serveQueue`). A device's loop need not end, so these take a bound on its rounds and may have no
result.
-/

namespace Ignition.Devices

open Paged Ignition.Vmm

def MAGIC : UInt32 := 0x74726976
def VERSION : UInt32 := 2
def VENDOR_ID : UInt32 := 0x4b4e5246
def QUEUE_SIZE_MAX : UInt32 := 256
def FEATURES_HI_VERSION_1 : UInt32 := 1
def INT_STATUS_USED : UInt32 := 1
def INT_STATUS_CONFIG : UInt32 := 2

/-! ## Queues as the driver programs them -/

structure QueueState where
  num : UInt16
  ready : UInt32
  descLo : UInt32
  descHi : UInt32
  driverLo : UInt32
  driverHi : UInt32
  deviceLo : UInt32
  deviceHi : UInt32
  vq : Option Virtqueue
  deriving DecidableEq

structure QueueSnapshot where
  num : UInt16
  ready : UInt32
  descLo : UInt32
  descHi : UInt32
  driverLo : UInt32
  driverHi : UInt32
  deviceLo : UInt32
  deviceHi : UInt32
  lastAvail : UInt16
  used : UInt16
  deriving DecidableEq

def addrOf (hi lo : UInt32) : UInt64 := (hi.toUInt64 <<< 32) ||| lo.toUInt64

namespace QueueState

def default : QueueState := ⟨0, 0, 0, 0, 0, 0, 0, 0, none⟩

def rings (q : QueueState) : Virtqueue :=
  .new q.num (addrOf q.descHi q.descLo) (addrOf q.driverHi q.driverLo) (addrOf q.deviceHi q.deviceLo)

/-- `VirtioMmio::set_queue_ready`, for the selected queue. -/
def setReady (val : UInt32) (q : QueueState) : QueueState :=
  if val ≠ 0 then { q with ready := 1, vq := some q.rings } else default

def positions (q : QueueState) : Option (UInt16 × UInt16) :=
  q.vq.map fun vq => (vq.lastAvailIdx, vq.usedIdx)

/-- One queue in `VirtioMmio::save_state`. -/
def save (q : QueueState) : QueueSnapshot :=
  let (lastAvail, used) := q.positions.getD (0, 0)
  ⟨q.num, q.ready, q.descLo, q.descHi, q.driverLo, q.driverHi, q.deviceLo, q.deviceHi, lastAvail,
    used⟩

end QueueState

/-- One queue in `VirtioMmio::restore_state`. -/
def QueueSnapshot.restored (s : QueueSnapshot) : QueueState :=
  let q : QueueState :=
    ⟨s.num, s.ready, s.descLo, s.descHi, s.driverLo, s.driverHi, s.deviceLo, s.deviceHi, none⟩
  if s.ready ≠ 0 then { q with vq := some (q.rings.setIndices s.lastAvail s.used) } else q

/-! ## The transport -/

structure VirtioMmioState where
  status : UInt32
  queueSel : UInt32
  deviceFeaturesSel : UInt32
  interruptStatus : UInt32
  queues : List QueueSnapshot
  dev : Blob
  deriving DecidableEq

structure VirtioMmio where
  id : String
  dev : VirtioDevice
  mem : GuestRam
  irq : Bool
  queues : List QueueState
  status : UInt32
  deviceFeaturesSel : UInt32
  queueSel : UInt32
  interruptStatus : UInt32

structure StateInvalid where
  id : String
  reason : String
  deriving DecidableEq

namespace VirtioMmio

/-- `VirtioMmio::new`, with its interrupt line low. -/
def new (id : String) (dev : VirtioDevice) (mem : GuestRam) : VirtioMmio where
  id := id
  dev := dev
  mem := mem
  irq := false
  queues := List.replicate dev.queueCount .default
  status := 0
  deviceFeaturesSel := 0
  queueSel := 0
  interruptStatus := 0

def raise (t : VirtioMmio) : VirtioMmio :=
  { t with interruptStatus := t.interruptStatus ||| INT_STATUS_USED, irq := true }

def signalConfigChange (t : VirtioMmio) : VirtioMmio :=
  { t with interruptStatus := t.interruptStatus ||| INT_STATUS_CONFIG, irq := true }

def reset (t : VirtioMmio) : VirtioMmio :=
  { t with queues := t.queues.map fun _ => .default, interruptStatus := 0, irq := false }

def modifySel (t : VirtioMmio) (f : QueueState → QueueState) : VirtioMmio :=
  { t with queues := t.queues.modify t.queueSel.toNat f }

def setAddr (t : VirtioMmio) (set : UInt32 → QueueState → QueueState) (val : UInt32) : VirtioMmio :=
  t.modifySel (set val)

def served (t : VirtioMmio) (idx : Nat) (l : Loop VirtioDevice) (used : Bool) : VirtioMmio :=
  let t' := { t with
    dev := l.dev
    mem := l.mem
    queues := t.queues.modify idx fun q => { q with vq := some l.vq } }
  if used then t'.raise else t'

/-- Work on a queue that is ready: the common part of `notify`, `inject_rx`, `inject_input` and
`poll_vsock_rx`. -/
def serveQueue (t : VirtioMmio) (idx : Nat)
    (work : Loop VirtioDevice → Option (Loop VirtioDevice × Bool)) : Option (VirtioMmio × Bool) :=
  match t.queues[idx]? with
  | none => some (t, false)
  | some q =>
    if q.ready = 0 then some (t, false)
    else
      match q.vq with
      | none => some (t, false)
      | some vq => (work ⟨t.dev, vq, t.mem⟩).map fun r => (t.served idx r.1 r.2, r.2)

def notify (fuel : Nat) (t : VirtioMmio) (idx : Nat) : Option VirtioMmio :=
  (t.serveQueue idx (VirtioDevice.handleNotify fuel idx)).map Prod.fst

def injectRx (t : VirtioMmio) (frame : Bytes) : Option (VirtioMmio × Bool) :=
  t.serveQueue 0 fun l => some (VirtioDevice.injectRx frame l)

def injectInput (t : VirtioMmio) (events : List InputEvent) : Option (VirtioMmio × Bool) :=
  t.serveQueue 0 fun l => some (VirtioDevice.injectInput events l)

def pollVsockRx (fuel : Nat) (t : VirtioMmio) : Option (VirtioMmio × Bool) :=
  t.serveQueue 0 (VirtioDevice.fillRx fuel)

def readReg (t : VirtioMmio) (off : Nat) : UInt32 :=
  match off with
  | 0x000 => MAGIC
  | 0x004 => VERSION
  | 0x008 => t.dev.deviceId
  | 0x00c => VENDOR_ID
  | 0x010 =>
    if t.deviceFeaturesSel = 1 then FEATURES_HI_VERSION_1 ||| t.dev.deviceFeatures 1
    else t.dev.deviceFeatures 0
  | 0x034 => QUEUE_SIZE_MAX
  | 0x044 => (t.queues[t.queueSel.toNat]?).elim 0 QueueState.ready
  | 0x060 => t.interruptStatus
  | 0x070 => t.status
  -- the length of a shared-memory region that is not there
  | 0x0b0 => 0xFFFFFFFF
  | 0x0b4 => 0xFFFFFFFF
  | _ => 0

/-- `InterruptACK` in `VirtioMmio::write_reg` -/
def acknowledge (t : VirtioMmio) (val : UInt32) : VirtioMmio :=
  let status := t.interruptStatus &&& ~~~val
  { t with interruptStatus := status, irq := if status = 0 then false else t.irq }

/-- `Status` in `VirtioMmio::write_reg` -/
def setStatus (t : VirtioMmio) (val : UInt32) : VirtioMmio :=
  let t' := { t with status := val }
  if val = 0 then t'.reset else t'

def writeReg (fuel : Nat) (t : VirtioMmio) (off : Nat) (val : UInt32) : Option VirtioMmio :=
  match off with
  | 0x014 => some { t with deviceFeaturesSel := val &&& 1 }
  | 0x030 => some { t with queueSel := val }
  | 0x038 => some (t.modifySel fun q => { q with num := val.toUInt16 })
  | 0x044 => some (t.modifySel (.setReady val))
  | 0x050 => t.notify fuel val.toNat
  | 0x064 => some (t.acknowledge val)
  | 0x070 => some (t.setStatus val)
  | 0x080 => some (t.setAddr (fun v q => { q with descLo := v }) val)
  | 0x084 => some (t.setAddr (fun v q => { q with descHi := v }) val)
  | 0x090 => some (t.setAddr (fun v q => { q with driverLo := v }) val)
  | 0x094 => some (t.setAddr (fun v q => { q with driverHi := v }) val)
  | 0x0a0 => some (t.setAddr (fun v q => { q with deviceLo := v }) val)
  | 0x0a4 => some (t.setAddr (fun v q => { q with deviceHi := v }) val)
  | _ => some t

/-- `VirtioMmio::read`: config space at any width, registers at 32 bits. -/
def read (t : VirtioMmio) (offset : Nat) (data : Bytes) : Bytes :=
  if 0x100 ≤ offset then t.dev.configRead (offset - 0x100) data
  else if data.length = 4 then leBytes 4 (t.readReg offset).toNat
  else data

def write (fuel : Nat) (t : VirtioMmio) (offset : Nat) (data : Bytes) : Option VirtioMmio :=
  if 0x100 ≤ offset then some { t with dev := t.dev.configWrite (offset - 0x100) data }
  else if data.length = 4 then t.writeReg fuel offset (UInt32.ofNat (fromLeBytes data))
  else some t

def netSetLink (t : VirtioMmio) (up : Bool) : VirtioMmio :=
  { t with dev := t.dev.setLink up }.signalConfigChange

/-- `VirtioMmio::display_set_mode` and `VirtioMmio::display_set_enabled`: a display that took the
setting signals it. -/
def displaySet (t : VirtioMmio) (set : VirtioDevice → VirtioDevice × Bool) : VirtioMmio :=
  let (dev, handled) := set t.dev
  let t' := { t with dev := dev }
  if handled then t'.signalConfigChange else t'

/-! ## Snapshots -/

def saveState (t : VirtioMmio) : VirtioMmioState where
  status := t.status
  queueSel := t.queueSel
  deviceFeaturesSel := t.deviceFeaturesSel
  interruptStatus := t.interruptStatus
  queues := t.queues.map QueueState.save
  dev := t.dev.save

/-- The loop over the queues in `VirtioMmio::restore_state`. -/
def restoreQueues : List QueueState → List QueueSnapshot → List QueueState
  | _ :: qs, s :: ss => s.restored :: restoreQueues qs ss
  | qs, _ => qs

def restoreState (t : VirtioMmio) (s : VirtioMmioState) : VirtioMmio :=
  { t with
    status := s.status
    queueSel := s.queueSel
    deviceFeaturesSel := s.deviceFeaturesSel
    interruptStatus := s.interruptStatus
    queues := restoreQueues t.queues s.queues }

/-- `VirtioMmio::restore`, with the error if there is one. A device that rejects its state leaves
the transport restored. -/
def restore (t : VirtioMmio) (s : VirtioMmioState) : VirtioMmio × Option StateInvalid :=
  if s.queues.length ≠ t.queues.length then
    (t, some ⟨t.id, "queue count " ++ toString s.queues.length ++ " != " ++
      toString t.queues.length⟩)
  else
    let t' := t.restoreState s
    match t'.dev.restore s.dev with
    | .error reason => (t', some ⟨t.id, reason⟩)
    | .ok dev => ({ t' with dev := dev }, none)

/-! ## Requests -/

/-- What the guest and the host can do to a transport. -/
inductive Action where
  | read (offset : Nat) (data : Bytes)
  | write (offset : Nat) (data : Bytes)
  | store (gpa : Nat) (data : Bytes)
  | injectRx (frame : Bytes)
  | injectInput (events : List InputEvent)
  | pollVsockRx
  | acceptControl (fd : Nat) (stream : HostStream)
  | signalConfigChange
  | netSetLink (up : Bool)
  | displaySetMode (w h : Nat)
  | displaySetEnabled (en : Bool)
  | presentScanout
  | restore (s : VirtioMmioState)

/-- What comes back. -/
inductive Answer where
  | data (bytes : Bytes)
  | used (b : Bool)
  | failed (e : Option StateInvalid)
  | done
  deriving DecidableEq

def respond (fuel : Nat) (t : VirtioMmio) : Action → Option (VirtioMmio × Answer)
  | .read offset data => some (t, .data (t.read offset data))
  | .write offset data => (t.write fuel offset data).map fun t' => (t', .done)
  | .store gpa data => some ({ t with mem := (t.mem.writeSlice gpa data).1 }, .done)
  | .injectRx frame => (t.injectRx frame).map fun r => (r.1, .used r.2)
  | .injectInput events => (t.injectInput events).map fun r => (r.1, .used r.2)
  | .pollVsockRx => (t.pollVsockRx fuel).map fun r => (r.1, .used r.2)
  | .acceptControl fd stream => some ({ t with dev := t.dev.acceptControl fd stream }, .done)
  | .signalConfigChange => some (t.signalConfigChange, .done)
  | .netSetLink up => some (t.netSetLink up, .done)
  | .displaySetMode w h => some (t.displaySet (VirtioDevice.setDisplayMode w h), .done)
  | .displaySetEnabled en => some (t.displaySet (VirtioDevice.setDisplayEnabled en), .done)
  | .presentScanout => some ({ t with dev := t.dev.presentScanout t.mem }, .done)
  | .restore s => some ((t.restore s).1, .failed (t.restore s).2)

def step (fuel : Nat) (t : VirtioMmio) (a : Action) : Option VirtioMmio :=
  (respond fuel t a).map Prod.fst

end VirtioMmio

end Ignition.Devices
