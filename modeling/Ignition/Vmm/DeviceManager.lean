import Mathlib.Data.List.Nodup
import Ignition.Devices.MmioDevice

/-!
# The frozen devices of a virtual machine

`FrozenDevices` of `device_manager.rs`: the devices where they were placed, each with its window on
the bus. A snapshot has a record of every device; restoring in place gives the records back to
whatever device is now found at their base address, and passes over a device that rejects its
state.

A machine is the devices with the RAM they share and the time of the host. Requests come from the
guest over the bus, or from the host.
-/

namespace Ignition.Vmm.DeviceManager

open Paged Ignition.Devices

/-! ## Devices in their places -/

structure Record where
  id : String
  base : Nat
  size : Nat
  spi : Nat
  fdtKind : FdtKind
  dev : MmioDevice

/-- `DeviceRecord`, with its state decoded. -/
structure DeviceRecord where
  id : String
  base : Nat
  size : Nat
  spi : Nat
  fdtKind : FdtKind
  state : DeviceState
  deriving DecidableEq

namespace Record

/-- One record of `FrozenDevices::with_saved`. -/
def save (r : Record) : DeviceRecord := ⟨r.id, r.base, r.size, r.spi, r.fdtKind, r.dev.save⟩

def hold (r : Record) (dev : MmioDevice) : Record := { r with dev := dev }

/-- The place belongs to the address, `Bus::find`. -/
def covers (r : Record) (addr : Nat) : Bool := r.base ≤ addr && addr - r.base < r.size

end Record

/-- The devices of a machine. No two have the same base address, since the bus refuses overlapping
windows. -/
structure FrozenDevices where
  records : List Record
  distinct : (records.map Record.base).Nodup

namespace FrozenDevices

def save (d : FrozenDevices) : List DeviceRecord := d.records.map Record.save

def changed (rs : List Record) (base : Nat) (f : MmioDevice → MmioDevice) : List Record :=
  rs.map fun r => if r.base = base then r.hold (f r.dev) else r

theorem bases_changed (rs : List Record) (base : Nat) (f : MmioDevice → MmioDevice) :
    (changed rs base f).map Record.base = rs.map Record.base := by
  unfold changed
  rw [List.map_map]
  refine List.map_congr_left fun r _ => ?_
  dsimp only [Function.comp]
  split <;> rfl

def change (d : FrozenDevices) (base : Nat) (f : MmioDevice → MmioDevice) : FrozenDevices :=
  ⟨changed d.records base f, (bases_changed d.records base f).symm ▸ d.distinct⟩

/-- `FrozenDevices::restore`: a record without a device is passed over, and so is a device that
rejects its state. -/
def restore (d : FrozenDevices) : List DeviceRecord → FrozenDevices
  | [] => d
  | rec :: recs => (d.change rec.base fun dev => (dev.restore rec.state).1).restore recs

def find (d : FrozenDevices) (base : Nat) : Option MmioDevice :=
  (d.records.find? fun r => r.base = base).map Record.dev

/-- `Bus::find`: the base address of the window that an address is in. -/
def route (d : FrozenDevices) (addr : Nat) : Option Nat :=
  (d.records.find? fun r => r.covers addr).map Record.base

end FrozenDevices

/-! ## Machines -/

structure Machine where
  devices : FrozenDevices
  mem : GuestRam
  now : Int

inductive Request where
  | read (addr : Nat) (data : Bytes)
  | write (addr : Nat) (data : Bytes)
  | store (gpa : Nat) (data : Bytes)
  | host (base : Nat) (req : DeviceRequest)
  | wait (seconds : Nat)

namespace Machine

def ask (uart : Uart) (fuel : Nat) (m : Machine) (base : Nat) (req : DeviceRequest) :
    Option (Machine × Reply) :=
  match m.devices.find base with
  | none => some (m, .done)
  | some dev =>
    (dev.respond uart fuel m.now m.mem req).map fun r =>
      ({ m with devices := m.devices.change base fun _ => r.1.1, mem := r.1.2 }, r.2)

def respond (uart : Uart) (fuel : Nat) (m : Machine) : Request → Option (Machine × Reply)
  | .read addr data =>
    match m.devices.route addr with
    | none => some (m, .bytes data)
    | some base => m.ask uart fuel base (.read (addr - base) data)
  | .write addr data =>
    match m.devices.route addr with
    | none => some (m, .done)
    | some base => m.ask uart fuel base (.write (addr - base) data)
  | .store gpa data => some ({ m with mem := (m.mem.writeSlice gpa data).1 }, .done)
  | .host base req => m.ask uart fuel base req
  | .wait seconds => some ({ m with now := m.now + seconds }, .done)

def step (uart : Uart) (fuel : Nat) (m : Machine) (req : Request) : Option Machine :=
  (m.respond uart fuel req).map Prod.fst

def view (uart : Uart) (fuel : Nat) (m : Machine) (req : Request) :
    Option (Machine × Reply × GuestRam) :=
  (m.respond uart fuel req).map fun r => (r.1, r.2, r.1.mem)

def reset (m : Machine) (recs : List DeviceRecord) (pristine : GuestRam) : Machine :=
  { m with devices := m.devices.restore recs, mem := pristine }

end Machine

end Ignition.Vmm.DeviceManager
