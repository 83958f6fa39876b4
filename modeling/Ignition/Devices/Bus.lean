import Ignition.Devices.MmioDevice

/-!
# The bus

`Bus` of `bus.rs`, which hands a load or a store of the guest to the device whose window the address
is in. Besides the devices that a snapshot has a record of there are two without: the control
registers of the fuzzer (`fuzz/device.rs`) and the boot timer (`boot_timer.rs`).

A load comes with a buffer, which is the vCPU's own. A device may fill it, or fill a part of it, or
leave it alone; so does the bus where there is no device. `Answers` says which loads are filled. A
load that is not has a byte of the buffer for an answer, and there is a store of the same width to
the same address that changes nothing but the buffer (`exists_leak`).
-/

namespace Ignition.Devices

open Paged Ignition.Vmm List

/-! ## The control registers of the fuzzer -/

/-- The offsets of `fuzz::protocol::reg`. -/
def reg.DOORBELL : Nat := 0x00
def reg.INPUT_LEN : Nat := 0x04
def reg.CRASH_CODE : Nat := 0x08

def CONTROL_SIZE : Nat := 0x4000

structure FuzzDevice where
  inputLen : UInt32
  crashCode : UInt32
  deriving DecidableEq

namespace FuzzDevice

def new : FuzzDevice := ⟨0, 0⟩

def setInputLen (d : FuzzDevice) (len : UInt32) : FuzzDevice := { d with inputLen := len }

def value (d : FuzzDevice) (offset : Nat) : UInt32 :=
  if offset = reg.INPUT_LEN then d.inputLen
  else if offset = reg.CRASH_CODE then d.crashCode
  else 0

/-- `FuzzDevice::read`: four bytes at most, whatever the width. -/
def read (d : FuzzDevice) (offset : Nat) (data : Bytes) : Bytes :=
  copyInto data 0 ((leBytes 4 (d.value offset).toNat).take (min data.length 4))

theorem read_eq (d : FuzzDevice) (offset : Nat) (data : Bytes) :
    d.read offset data =
      (leBytes 4 (d.value offset).toNat).take (min data.length 4) ++ data.drop 4 := by
  have hlen : ((leBytes 4 (d.value offset).toNat).take (min data.length 4)).length =
      min data.length 4 := by
    rw [length_take, length_leBytes, Nat.min_eq_left (Nat.min_le_right ..)]
  have hdrop : data.drop (min data.length 4) = data.drop 4 := by
    rcases Nat.le_total data.length 4 with h | h
    · rw [Nat.min_eq_left h, drop_length, drop_of_length_le h]
    · rw [Nat.min_eq_right h]
  unfold read copyInto
  rw [hlen, Nat.zero_add, hdrop]
  rfl

/-- `FuzzDevice::write`: four bytes at least. -/
def write (d : FuzzDevice) (offset : Nat) (data : Bytes) : FuzzDevice :=
  if data.length < 4 then d
  else
    let val := UInt32.ofNat (fromLeBytes (data.take 4))
    if offset = reg.INPUT_LEN then { d with inputLen := val }
    else if offset = reg.CRASH_CODE then { d with crashCode := val }
    else d

end FuzzDevice

/-! ## The boot timer -/

structure BootTimer where
  start : Nat
  fired : Option Nat
  deriving DecidableEq

def MAGIC_BOOT_COMPLETE : UInt8 := 123

def BootTimer.write (t : BootTimer) (now offset : Nat) (data : Bytes) : BootTimer :=
  if offset ≠ 0 ∨ data ≠ [MAGIC_BOOT_COMPLETE] then t
  else if t.fired.isNone then { t with fired := some (now - t.start) }
  else t

/-! ## The trait -/

/-- The host's clocks: of the wall, in seconds, and one that only goes forward. -/
structure Clock where
  wall : Int
  instant : Nat

inductive BusDevice where
  | mmio (dev : MmioDevice)
  | fuzz (dev : FuzzDevice)
  | bootTimer (t : BootTimer)

namespace BusDevice

def read (uart : Uart) (clock : Clock) (offset : Nat) (data : Bytes) :
    BusDevice → BusDevice × Bytes
  | .mmio (.virtio t) => (.mmio (.virtio t), t.read offset data)
  | .mmio (.serial s) =>
    (.mmio (.serial (s.read uart offset data).1), (s.read uart offset data).2)
  | .mmio (.rtc rtc) => (.mmio (.rtc rtc), rtc.read clock.wall offset data)
  | .fuzz dev => (.fuzz dev, dev.read offset data)
  -- the boot timer has the read of the trait, which does nothing
  | .bootTimer t => (.bootTimer t, data)

/-- `BusDevice::write`, with guest RAM before and after it. -/
def write (uart : Uart) (fuel : Nat) (clock : Clock) (mem : GuestRam) (offset : Nat)
    (data : Bytes) : BusDevice → Option (BusDevice × GuestRam)
  | .mmio (.virtio t) =>
    ((t.inRam mem).write fuel offset data).map fun t' =>
      (.mmio (.virtio (t'.inRam t.mem)), t'.mem)
  | .mmio (.serial s) => some (.mmio (.serial (s.write uart offset data)), mem)
  | .mmio (.rtc rtc) => some (.mmio (.rtc (rtc.write clock.wall offset data)), mem)
  | .fuzz dev => some (.fuzz (dev.write offset data), mem)
  | .bootTimer t => some (.bootTimer (t.write clock.instant offset data), mem)

end BusDevice

/-! ## The bus -/

structure Slot where
  base : Nat
  len : Nat
  dev : BusDevice

/-- The test of `Bus::find`. -/
def Slot.covers (s : Slot) (addr : Nat) : Bool := s.base ≤ addr && addr - s.base < s.len

structure Bus where
  devices : List Slot
  mem : GuestRam

namespace Bus

def readAt (uart : Uart) (clock : Clock) (addr : Nat) (data : Bytes) :
    List Slot → List Slot × Bytes
  | [] => ([], data)
  | s :: ss =>
    if s.covers addr then
      let r := s.dev.read uart clock (addr - s.base) data
      ({ s with dev := r.1 } :: ss, r.2)
    else
      let r := readAt uart clock addr data ss
      (s :: r.1, r.2)

def read (uart : Uart) (clock : Clock) (bus : Bus) (addr : Nat) (data : Bytes) : Bus × Bytes :=
  let r := readAt uart clock addr data bus.devices
  ({ bus with devices := r.1 }, r.2)

def writeAt (uart : Uart) (fuel : Nat) (clock : Clock) (mem : GuestRam) (addr : Nat)
    (data : Bytes) : List Slot → Option (List Slot × GuestRam)
  | [] => some ([], mem)
  | s :: ss =>
    if s.covers addr then
      (s.dev.write uart fuel clock mem (addr - s.base) data).map fun r =>
        ({ s with dev := r.1 } :: ss, r.2)
    else (writeAt uart fuel clock mem addr data ss).map fun r => (s :: r.1, r.2)

/-- `Bus::write`, unless it does not return. -/
def write (uart : Uart) (fuel : Nat) (clock : Clock) (bus : Bus) (addr : Nat) (data : Bytes) :
    Option Bus :=
  (writeAt uart fuel clock bus.mem addr data bus.devices).map fun r => ⟨r.1, r.2⟩

end Bus

/-! ## Which loads are filled -/

def VirtioDevice.hasConfig : VirtioDevice → Bool
  | .rng _ => false
  | _ => true

def BusDevice.answers (offset len : Nat) : BusDevice → Bool
  | .mmio (.virtio t) => if 0x100 ≤ offset then t.dev.hasConfig else len == 4
  | .mmio (.serial _) => offset < 256 && len == 1
  | .mmio (.rtc _) => true
  | .fuzz _ => len ≤ 4
  | .bootTimer _ => false

def Bus.answersAt (addr len : Nat) : List Slot → Bool
  | [] => false
  | s :: ss =>
    if s.covers addr then s.dev.answers (addr - s.base) len else answersAt addr len ss

def Bus.answers (bus : Bus) (addr len : Nat) : Bool := answersAt addr len bus.devices

/-! ### Filled loads -/

variable {data data' : Bytes} {offset addr len : Nat}

theorem serveConfig_congr (image : Bytes) (offset : Nat) (hlen : data.length = data'.length) :
    serveConfig image offset data = serveConfig image offset data' := by
  refine ext_getElem? fun i => ?_
  unfold serveConfig
  rw [getElem?_mapIdx, getElem?_mapIdx]
  by_cases hi : i < data.length
  · rw [getElem?_eq_getElem hi, getElem?_eq_getElem (hlen ▸ hi)]
    rfl
  · rw [getElem?_eq_none (Nat.not_lt.mp hi),
      getElem?_eq_none (hlen ▸ Nat.not_lt.mp hi)]

theorem length_serveConfig (image : Bytes) (offset : Nat) (data : Bytes) :
    (serveConfig image offset data).length = data.length := length_mapIdx

theorem VirtioDevice.configRead_eq {dev : VirtioDevice} (h : dev.hasConfig = true) :
    ∃ image, ∀ offset data, dev.configRead offset data = serveConfig image offset data := by
  cases dev with
  | rng => cases h
  | _ => exact ⟨_, fun _ _ => rfl⟩

theorem VirtioDevice.configRead_of_none {dev : VirtioDevice} (h : dev.hasConfig = false)
    (offset : Nat) (data : Bytes) : dev.configRead offset data = data := by
  cases dev with
  | rng => rfl
  | _ => cases h

theorem BusDevice.read_congr {dev : BusDevice} (uart : Uart) (clock : Clock)
    (hlen : data.length = data'.length) (h : dev.answers offset data.length = true) :
    dev.read uart clock offset data = dev.read uart clock offset data' := by
  match dev, h with
  | .mmio (.virtio t), h =>
    dsimp only [answers] at h
    refine congrArg (Prod.mk _) ?_
    unfold VirtioMmio.read
    split
    next hoff =>
      rw [if_pos hoff] at h
      obtain ⟨image, himage⟩ := VirtioDevice.configRead_eq h
      rw [himage, himage]
      exact serveConfig_congr image _ hlen
    next hoff =>
      rw [if_neg hoff, beq_iff_eq] at h
      rw [if_pos h, if_pos (hlen.symm.trans h)]
  | .mmio (.serial s), h =>
    have hs : offset < 256 ∧ data.length = 1 := by
      simpa only [answers, Bool.and_eq_true, decide_eq_true_eq, beq_iff_eq] using h
    have hread : s.read uart offset data = s.read uart offset data' := by
      unfold Serial.read
      rw [if_pos hs, if_pos ⟨hs.1, hlen.symm.trans hs.2⟩]
    dsimp only [read]
    rw [hread]
  | .mmio (.rtc rtc), _ =>
    refine congrArg (Prod.mk _) ?_
    unfold Pl031.read
    rw [hlen]
    split
    · rw [map_const', map_const', hlen]
    · rfl
  | .fuzz dev, h =>
    have hle : data.length ≤ 4 := of_decide_eq_true h
    refine congrArg (Prod.mk _) ?_
    rw [FuzzDevice.read_eq, FuzzDevice.read_eq, drop_of_length_le hle,
      drop_of_length_le (hlen ▸ hle), hlen]

theorem BusDevice.length_read (dev : BusDevice) (uart : Uart) (clock : Clock) (offset : Nat)
    (data : Bytes) : (dev.read uart clock offset data).2.length = data.length := by
  match dev with
  | .mmio (.virtio t) =>
    show (t.read offset data).length = _
    unfold VirtioMmio.read
    split
    · cases hdev : t.dev.hasConfig with
      | true =>
        obtain ⟨image, himage⟩ := VirtioDevice.configRead_eq hdev
        rw [himage, length_serveConfig]
      | false => rw [VirtioDevice.configRead_of_none hdev]
    · split
      next h => rw [length_leBytes, h]
      · rfl
  | .mmio (.serial s) =>
    show (s.read uart offset data).2.length = _
    unfold Serial.read
    split
    next h => exact h.2.symm
    · rfl
  | .mmio (.rtc rtc) =>
    show (rtc.read clock.wall offset data).length = _
    unfold Pl031.read
    split
    · rw [length_map]
    next h => rw [length_leBytes, not_ne_iff.mp h]
  | .fuzz dev =>
    show (dev.read offset data).length = _
    rw [FuzzDevice.read_eq, length_append, length_take, length_leBytes, length_drop]
    omega
  | .bootTimer t => rfl

theorem Bus.readAt_congr (uart : Uart) (clock : Clock) (hlen : data.length = data'.length) :
    ∀ {ss : List Slot},
    answersAt addr data.length ss = true →
      readAt uart clock addr data ss = readAt uart clock addr data' ss
  | [], h => Bool.noConfusion h
  | s :: ss, h => by
    unfold answersAt at h
    unfold readAt
    split
    next hs =>
      rw [if_pos hs] at h
      rw [BusDevice.read_congr uart clock hlen h]
    next hs =>
      rw [if_neg hs] at h
      rw [readAt_congr uart clock hlen h]

theorem Bus.length_readAt (uart : Uart) (clock : Clock) (addr : Nat) (data : Bytes) :
    ∀ ss, (readAt uart clock addr data ss).2.length = data.length
  | [] => rfl
  | s :: ss => by
    unfold readAt
    split
    · exact BusDevice.length_read ..
    · exact length_readAt uart clock addr data ss

theorem Bus.length_read (uart : Uart) (clock : Clock) (bus : Bus) (addr : Nat) (data : Bytes) :
    (bus.read uart clock addr data).2.length = data.length :=
  length_readAt uart clock addr data bus.devices

theorem Bus.read_congr {bus : Bus} (uart : Uart) (clock : Clock) (hlen : data.length = data'.length)
    (h : bus.answers addr data.length = true) :
    bus.read uart clock addr data = bus.read uart clock addr data' := by
  unfold read
  rw [readAt_congr uart clock hlen h]

/-! ### Loads that are not filled -/

def storeBytes (val len : Nat) : Bytes :=
  (List.range len).map fun i => UInt8.ofNat (val / 256 ^ i % 256)

/-- Byte `k` of the buffer is left to a load of so many bytes, and a store of as many bytes that
sets it is ignored: what the store leaves in the buffer is there for the load. -/
structure Leak (len : Nat) (read : Bytes → Bytes) (ignores : Bytes → Prop) (val k : Nat) : Prop
    where
  lt : k < len
  byte_ne : val / 256 ^ k % 256 ≠ 0
  ignored : ignores (storeBytes val len)
  left : ∀ data : Bytes, data.length = len → (read data)[k]? = data[k]?

theorem leak_one (hpos : 0 < len) {read : Bytes → Bytes} {ignores : Bytes → Prop}
    (hread : ∀ data : Bytes, data.length = len → read data = data)
    (hignores : ignores (storeBytes 1 len)) : ∃ val k, Leak len read ignores val k :=
  ⟨1, 0, hpos, by decide, hignores, fun data hlen => by rw [hread data hlen]⟩

theorem length_storeBytes (val len : Nat) : (storeBytes val len).length = len := by
  rw [storeBytes, length_map, length_range]

theorem fromLeBytes_take_storeBytes {val : Nat} (hlen : 4 ≤ len) :
    fromLeBytes ((storeBytes val len).take 4) = val % 2 ^ 32 := by
  have htake : (storeBytes val len).take 4 = storeBytes val 4 := by
    unfold storeBytes
    rw [← map_take, take_range, Nat.min_eq_left hlen]
  rw [htake]
  simp [storeBytes, range_succ, fromLeBytes]
  omega

theorem getElem?_storeBytes {val k : Nat} (hk : k < len) :
    (storeBytes val len)[k]? = some (UInt8.ofNat (val / 256 ^ k % 256)) := by
  rw [storeBytes, getElem?_map, getElem?_range hk]
  rfl

theorem VirtioMmio.leak {t : VirtioMmio} (fuel : Nat) (mem : GuestRam) (hpos : 0 < len)
    (h : (if 0x100 ≤ offset then t.dev.hasConfig else len == 4) = false) :
    ∃ val k, Leak len (t.read offset)
      (fun data => (t.inRam mem).write fuel offset data = some (t.inRam mem)) val k := by
  split at h
  next hoff =>
    refine leak_one hpos (fun data _ => ?_) ?_
    · unfold VirtioMmio.read
      rw [if_pos hoff, VirtioDevice.configRead_of_none h]
    · unfold VirtioMmio.write
      rw [if_pos hoff]
      -- the entropy source has nothing to write either
      have hsame : ∀ dev : VirtioDevice, dev.hasConfig = false → ∀ off data,
          dev.configWrite off data = dev := by
        intro dev hdev off data
        cases dev with
        | rng => rfl
        | _ => cases hdev
      exact congrArg (fun dev => some { t.inRam mem with dev := dev }) (hsame t.dev h _ _)
  next hoff =>
    have hne : len ≠ 4 := by simpa only [beq_eq_false_iff_ne] using h
    refine leak_one hpos (fun data hlen => ?_) ?_
    · unfold VirtioMmio.read
      rw [if_neg hoff, if_neg (hlen ▸ hne)]
    · unfold VirtioMmio.write
      rw [if_neg hoff, length_storeBytes, if_neg hne]

theorem Serial.leak {s : Serial} (uart : Uart) (hpos : 0 < len) (h : ¬ (offset < 256 ∧ len = 1)) :
    ∃ val k, Leak len (fun data => (s.read uart offset data).2)
      (fun data => s.write uart offset data = s) val k := by
  refine leak_one hpos (fun data hlen => ?_) ?_
  · unfold Serial.read
    rw [if_neg (hlen ▸ h)]
  · have hlen := length_storeBytes 1 len
    unfold Serial.write
    split
    next b heq =>
      rw [heq] at hlen
      exact if_neg fun hoff => h ⟨hoff, hlen.symm⟩
    · rfl

theorem FuzzDevice.leak (d : FuzzDevice) (offset : Nat) (h : 4 < len) :
    ∃ val k, Leak len (d.read offset) (fun data => d.write offset data = d) val k := by
  have hlt : (d.value offset).toNat < 2 ^ 32 := (d.value offset).toNat_lt
  refine ⟨(d.value offset).toNat + 2 ^ 32, 4, h, ?_, ?_, fun data hlen => ?_⟩
  · have hbyte : ((d.value offset).toNat + 2 ^ 32) / 256 ^ 4 = 1 := by omega
    rw [hbyte]
    decide
  · -- the low half of the store is what the register has
    unfold FuzzDevice.write
    rw [length_storeBytes, if_neg (by omega), fromLeBytes_take_storeBytes (by omega),
      Nat.add_mod_right, Nat.mod_eq_of_lt hlt, UInt32.ofNat_toNat]
    unfold value
    split
    next hin => rfl
    next hin =>
      split <;> rfl
  · rw [read_eq, getElem?_append_right]
    · rw [length_take, length_leBytes, getElem?_drop]
      congr 1
      omega
    · rw [length_take]
      omega

theorem BootTimer.write_one (t : BootTimer) (now offset : Nat) (hpos : 0 < len) :
    t.write now offset (storeBytes 1 len) = t := by
  refine if_pos (.inr fun heq => ?_)
  have hbyte : (storeBytes 1 len)[0]? = _ := getElem?_storeBytes hpos
  rw [heq] at hbyte
  exact absurd hbyte (by decide)

/-- **A load that the device does not fill leaks.** -/
theorem BusDevice.exists_leak {dev : BusDevice} (uart : Uart) (fuel : Nat) (clock : Clock)
    (mem : GuestRam) (hpos : 0 < len) (h : dev.answers offset len = false) :
    ∃ val k, Leak len (fun data => (dev.read uart clock offset data).2)
      (fun data => dev.write uart fuel clock mem offset data = some (dev, mem)) val k := by
  match dev, h with
  | .mmio (.virtio t), h =>
    obtain ⟨val, k, hleak⟩ := VirtioMmio.leak fuel mem hpos h
    exact ⟨val, k, hleak.lt, hleak.byte_ne, congrArg (Option.map _) hleak.ignored, hleak.left⟩
  | .mmio (.serial s), h =>
    have hs : ¬ offset < 256 ∨ len ≠ 1 := by
      simpa only [answers, Bool.and_eq_false_iff, decide_eq_false_iff_not,
        beq_eq_false_iff_ne] using h
    obtain ⟨val, k, hleak⟩ := Serial.leak (s := s) uart hpos (not_and_or.mpr hs)
    refine ⟨val, k, hleak.lt, hleak.byte_ne, ?_, hleak.left⟩
    exact congrArg (fun s => some (BusDevice.mmio (.serial s), mem)) hleak.ignored
  | .mmio (.rtc rtc), h => cases h
  | .fuzz dev, h =>
    obtain ⟨val, k, hleak⟩ := dev.leak offset (Nat.not_le.mp (of_decide_eq_false h))
    refine ⟨val, k, hleak.lt, hleak.byte_ne, ?_, hleak.left⟩
    exact congrArg (fun d => some (BusDevice.fuzz d, mem)) hleak.ignored
  | .bootTimer t, _ =>
    refine leak_one hpos (fun _ _ => rfl) ?_
    exact congrArg (fun t => some (BusDevice.bootTimer t, mem)) (t.write_one _ offset hpos)

theorem Bus.exists_leak (uart : Uart) (fuel : Nat) (clock : Clock)
    (mem : GuestRam) (hpos : 0 < len) : ∀ {ss : List Slot}, answersAt addr len ss = false →
    ∃ val k, Leak len (fun data => (readAt uart clock addr data ss).2)
      (fun data => writeAt uart fuel clock mem addr data ss = some (ss, mem)) val k
  | [], _ => leak_one hpos (fun _ _ => rfl) rfl
  | s :: ss, h => by
    unfold answersAt at h
    unfold readAt writeAt
    split at h
    next hs =>
      obtain ⟨val, k, hleak⟩ := BusDevice.exists_leak uart fuel clock mem hpos h
      refine ⟨val, k, hleak.lt, hleak.byte_ne, ?_, fun data hlen => ?_⟩
      · rw [if_pos hs, hleak.ignored]
        rfl
      · rw [if_pos hs]
        exact hleak.left data hlen
    next hs =>
      obtain ⟨val, k, hleak⟩ := exists_leak uart fuel clock mem hpos h
      refine ⟨val, k, hleak.lt, hleak.byte_ne, ?_, fun data hlen => ?_⟩
      · rw [if_neg hs, hleak.ignored]
        rfl
      · rw [if_neg hs]
        exact hleak.left data hlen

end Ignition.Devices
