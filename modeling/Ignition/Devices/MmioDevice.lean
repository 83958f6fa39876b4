import Ignition.Devices.Mmio
import Ignition.Vmm.Snapshot

/-!
# The devices on the bus

The traits `BusDevice` and `MmioDevice`: a device that the guest reaches by loads and stores, and
that a snapshot has a record of. There are three: virtio transports, the serial port of `serial.rs`
and the clock of `rtc.rs`.

The registers of the serial port are those of `vm_superio`, a crate of its own. What they do is a
parameter here (`Uart`), over the state that the crate itself saves. The clock adds an offset to
the time of the host, which is passed in.

A transport holds guest RAM. On the bus there are several, with one RAM for all of them, so a
request to a device comes with RAM and gives it back.
-/

namespace Ignition.Devices

open Paged Ignition.Vmm

/-! ## The clock -/

structure Pl031 where
  offset : Int
  load : UInt32
  matchReg : UInt32
  imsc : UInt32
  deriving DecidableEq

namespace Pl031

def new : Pl031 := ⟨0, 0, 0, 0⟩

def rtcdr (rtc : Pl031) (now : Int) : UInt32 := UInt32.ofInt (now + rtc.offset)

def read (rtc : Pl031) (now : Int) (offset : Nat) (data : Bytes) : Bytes :=
  if data.length ≠ 4 then data.map fun _ => 0
  else
    let val : UInt32 := match offset with
      | 0x00 => rtc.rtcdr now
      | 0x04 => rtc.matchReg
      | 0x08 => rtc.load
      | 0x0C => 1
      | 0x10 => rtc.imsc
      -- the identification registers
      | 0xFE0 => 0x31
      | 0xFE4 => 0x10
      | 0xFE8 => 0x04
      | 0xFEC => 0x00
      | 0xFF0 => 0x0D
      | 0xFF4 => 0xF0
      | 0xFF8 => 0x05
      | 0xFFC => 0xB1
      | _ => 0
    leBytes 4 val.toNat

def write (rtc : Pl031) (now : Int) (offset : Nat) (data : Bytes) : Pl031 :=
  if data.length ≠ 4 then rtc
  else
    let v := UInt32.ofNat (fromLeBytes data)
    match offset with
    | 0x04 => { rtc with matchReg := v }
    | 0x08 => { rtc with load := v, offset := v.toNat - now }
    | 0x10 => { rtc with imsc := v }
    | _ => rtc

end Pl031

/-! ## The serial port -/

structure SerialSnapshot where
  baudDivisorLow : UInt8
  baudDivisorHigh : UInt8
  interruptEnable : UInt8
  interruptIdentification : UInt8
  lineControl : UInt8
  lineStatus : UInt8
  modemControl : UInt8
  modemStatus : UInt8
  scratch : UInt8
  deriving DecidableEq

/-- `vm_superio::serial::SerialState` -/
structure Serial where
  regs : SerialSnapshot
  inBuffer : Bytes
  deriving DecidableEq

/-- `vm_superio::serial::Error` -/
inductive SerialError where
  | trigger
  | ioError
  | fullFifo
  deriving DecidableEq

/-- `io::ErrorKind`, as far as `Serial::enqueue` uses it. -/
inductive ErrorKind where
  | wouldBlock
  | other
  deriving DecidableEq

/-- The registers of `vm_superio::Serial`. -/
structure Uart where
  read : Serial → UInt8 → Serial × UInt8
  write : Serial → UInt8 → UInt8 → Serial
  enqueueRawBytes : Serial → Bytes → Serial × Except SerialError Nat

namespace Serial

/-- `Serial::read`: one byte at an offset of one byte. -/
def read (uart : Uart) (s : Serial) (offset : Nat) (data : Bytes) : Serial × Bytes :=
  if offset < 256 ∧ data.length = 1 then
    let (s', b) := uart.read s (UInt8.ofNat offset)
    (s', [b])
  else (s, data)

def write (uart : Uart) (s : Serial) (offset : Nat) (data : Bytes) : Serial :=
  match data with
  | [b] => if offset < 256 then uart.write s (UInt8.ofNat offset) b else s
  | _ => s

def enqueue (uart : Uart) (s : Serial) (bytes : Bytes) : Serial × Except ErrorKind Nat :=
  let (s', r) := uart.enqueueRawBytes s bytes
  (s', r.mapError fun
    | .fullFifo => .wouldBlock
    | _ => .other)

def saveState (s : Serial) : SerialSnapshot := s.regs

def fromSnapshot (snap : SerialSnapshot) : Serial := ⟨snap, []⟩

end Serial

/-! ## The trait -/

inductive MmioDevice where
  | virtio (t : VirtioMmio)
  | serial (s : Serial)
  | rtc (clock : Pl031)

/-- The state of a device in its record. -/
inductive DeviceState where
  | virtio (s : VirtioMmioState)
  | serial (snap : SerialSnapshot)
  | rtc (offset : Int)
  deriving DecidableEq

/-- What is asked of a device: by the guest through the bus, by the host through its handle. -/
inductive DeviceRequest where
  | read (offset : Nat) (data : Bytes)
  | write (offset : Nat) (data : Bytes)
  | host (a : VirtioMmio.Action)
  | enqueue (bytes : Bytes)

inductive Reply where
  | bytes (data : Bytes)
  | host (answer : VirtioMmio.Answer)
  | accepted (r : Except ErrorKind Nat)
  | done
  deriving DecidableEq

def VirtioMmio.inRam (t : VirtioMmio) (mem : GuestRam) : VirtioMmio := { t with mem := mem }

namespace MmioDevice

def fdtKind : MmioDevice → FdtKind
  | .virtio _ => .virtioMmio
  | .serial _ => .ns16550a
  | .rtc _ => .pl031

def snapshotId : MmioDevice → String
  | .virtio t => t.id
  | .serial _ => "serial"
  | .rtc _ => "rtc"

def save : MmioDevice → DeviceState
  | .virtio t => .virtio t.saveState
  | .serial s => .serial s.saveState
  | .rtc clock => .rtc clock.offset

/-- `MmioDevice::restore`, with the error if there is one. A state of another shape misses the
first field that is looked for. -/
def restore : MmioDevice → DeviceState → MmioDevice × Option StateInvalid
  | .virtio t, .virtio s => (.virtio (t.restore s).1, (t.restore s).2)
  | .virtio t, _ => (.virtio t, some ⟨t.id, "missing field `status`"⟩)
  | .serial _, .serial snap => (.serial (.fromSnapshot snap), none)
  | .serial s, _ => (.serial s, some ⟨"serial", "missing field `baud_divisor_low`"⟩)
  | .rtc clock, .rtc offset => (.rtc { clock with offset := offset }, none)
  | .rtc clock, _ => (.rtc clock, some ⟨"rtc", "missing field `offset`"⟩)

def respond (uart : Uart) (fuel : Nat) (now : Int) (dev : MmioDevice) (mem : GuestRam) :
    DeviceRequest → Option ((MmioDevice × GuestRam) × Reply)
  | .read offset data =>
    match dev with
    | .virtio t => some ((dev, mem), .bytes (t.read offset data))
    | .serial s =>
      let (s', data') := s.read uart offset data
      some ((.serial s', mem), .bytes data')
    | .rtc clock => some ((dev, mem), .bytes (clock.read now offset data))
  | .write offset data =>
    match dev with
    | .virtio t =>
      ((t.inRam mem).write fuel offset data).map fun t' => ((.virtio t', t'.mem), .done)
    | .serial s => some ((.serial (s.write uart offset data), mem), .done)
    | .rtc clock => some ((.rtc (clock.write now offset data), mem), .done)
  | .host a =>
    match dev with
    | .virtio t =>
      ((t.inRam mem).respond fuel a).map fun r => ((.virtio r.1, r.1.mem), .host r.2)
    | _ => some ((dev, mem), .done)
  | .enqueue bytes =>
    match dev with
    | .serial s =>
      let (s', r) := s.enqueue uart bytes
      some ((.serial s', mem), .accepted r)
    | _ => some ((dev, mem), .done)

end MmioDevice

end Ignition.Devices
