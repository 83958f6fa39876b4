import Ignition.Base.Lists
import Ignition.Devices.Twins
import Ignition.Vmm.DeviceManager

/-!
# What a reset in place forgets

A checkpoint has a record of every device. Some time later the records are given back to the same
devices, which have gone on in the meantime. What the guest sees after that depends on the records
and on what no record has (`leftOut`): the disk, the entropy of the host, the carrier, the host's
settings of the display, the streams of the host at the vsock device, and three registers of the
clock that can be written and read back. It depends on nothing else (`reset_forgets`), and on all
of these (`reset_remembers`).

- A transport is restored in full, but for its interrupt line: it keeps its name and the number of
  its queues all the time (`VirtioMmio.Evolves`), so that the record always fits.
- A device is restored up to what its record leaves out. No device rejects the record of a device
  of its kind (`VirtioGpu.Sane.restore_save`).
- The machines after the two resets are twins, and twins answer alike (`Machine.Twin.respond`).
-/

namespace Ignition.Devices

open Paged Ignition.Vmm Answers Runs

/-! ## What the records leave out -/

/-- A part of a device that is in no record. -/
inductive Remainder where
  | nothing
  | disk (blk : VirtioBlk)
  | carrier (mac : Bytes) (up : Bool)
  | streams (muxer : Muxer)
  | entropy (rng : VirtioRng)
  | display (width height : Nat) (eventsRead : UInt32) (enabled : Bool)
  | flavor (flavor : Flavor)
  | clock (load matchReg imsc : UInt32)

def VirtioDevice.leftOut : VirtioDevice → Remainder
  | .blk dev => .disk dev
  | .net dev => .carrier dev.mac dev.linkUp
  | .vsock dev => .streams { dev.muxer with pendingRst := [] }
  | .rng dev => .entropy dev
  | .gpu dev => .display dev.width dev.height dev.eventsRead dev.enabled
  | .balloon _ => .nothing
  | .input dev => .flavor dev.flavor

def MmioDevice.leftOut : MmioDevice → Remainder
  | .virtio t => t.dev.leftOut
  | .serial _ => .nothing
  | .rtc clock => .clock clock.load clock.matchReg clock.imsc

theorem VirtioDevice.restore_alike {dev₀ dev₁ dev₂ : VirtioDevice} (hsane : dev₀.Sane)
    (hid : dev₁.deviceId = dev₀.deviceId) (hleft : dev₁.leftOut = dev₂.leftOut) :
    ∃ d₁ d₂, dev₁.restore dev₀.save = .ok d₁ ∧ dev₂.restore dev₀.save = .ok d₂ ∧ Alike d₁ d₂ := by
  -- what they agree on says that they are of one kind
  rcases dev₁ with _ | ⟨⟨⟩⟩ | ⟨⟨⟨⟩⟩⟩ | _ | ⟨⟨⟩⟩ | _ | ⟨⟨⟩⟩ <;>
    rcases dev₂ with _ | ⟨⟨⟩⟩ | ⟨⟨⟨⟩⟩⟩ | _ | ⟨⟨⟩⟩ | _ | ⟨⟨⟩⟩ <;> cases hleft
  case blk.blk | rng.rng => exact ⟨_, _, rfl, rfl, .same _⟩
  case net.net => exact ⟨_, _, rfl, rfl, .net ⟨_, _, rfl⟩⟩
  all_goals cases dev₀ <;> try (simp [deviceId] at hid; done)
  case gpu =>
    obtain ⟨resources, hok⟩ := VirtioGpu.Sane.restore_save hsane
    exact ⟨_, _, congrArg (Except.map _) (hok _), congrArg (Except.map _) (hok _), .gpu ⟨_, rfl⟩⟩
  all_goals exact ⟨_, _, rfl, rfl, .same _⟩

namespace VirtioMmio

theorem restore_of_fits {t : VirtioMmio} {s : VirtioMmioState} {dev : VirtioDevice}
    (hlen : s.queues.length = t.queues.length) (hdev : t.dev.restore s.dev = .ok dev) :
    (t.restore s).1 =
      { t with
        status := s.status
        queueSel := s.queueSel
        deviceFeaturesSel := s.deviceFeaturesSel
        interruptStatus := s.interruptStatus
        queues := s.queues.map QueueSnapshot.restored
        dev := dev } := by
  unfold restore restoreState
  rw [if_neg (not_not.mpr hlen)]
  dsimp only
  rw [hdev, restoreQueues_eq_map hlen]

theorem restore_lookalike {t₀ t₁ t₂ : VirtioMmio} (hsane : t₀.dev.Sane) (h₁ : Evolves t₀ t₁)
    (h₂ : Evolves t₀ t₂) (hleft : t₁.dev.leftOut = t₂.dev.leftOut) (mem : GuestRam) :
    Lookalike ((t₁.restore t₀.saveState).1.inRam mem) ((t₂.restore t₀.saveState).1.inRam mem) := by
  obtain ⟨dev₁, dev₂, hd₁, hd₂, halike⟩ := VirtioDevice.restore_alike hsane h₁.dev.id hleft
  have hlen : t₀.saveState.queues.length = t₀.queues.length := List.length_map _
  rw [restore_of_fits (hlen.trans h₁.queues.symm) hd₁,
    restore_of_fits (hlen.trans h₂.queues.symm) hd₂]
  refine ⟨t₂.irq, dev₂, ?_, halike⟩
  unfold inRam
  rw [h₁.id, h₂.id]

end VirtioMmio

/-! ## Devices over time -/

namespace MmioDevice

def Sane : MmioDevice → Prop
  | .virtio t => t.dev.Sane
  | _ => True

/-- What becomes of a device. -/
inductive Evolves : MmioDevice → MmioDevice → Prop where
  | virtio {t t' : VirtioMmio} (h : t.Evolves t') : Evolves (.virtio t) (.virtio t')
  | serial (s s' : Serial) : Evolves (.serial s) (.serial s')
  | rtc (clock clock' : Pl031) : Evolves (.rtc clock) (.rtc clock')

variable {dev dev' dev'' : MmioDevice}

theorem Evolves.refl : ∀ dev : MmioDevice, Evolves dev dev
  | .virtio t => .virtio ⟨rfl, rfl, .refl t.dev⟩
  | .serial s => .serial s s
  | .rtc clock => .rtc clock clock

theorem Evolves.trans (h : Evolves dev dev') (h' : Evolves dev' dev'') : Evolves dev dev'' := by
  cases h with
  | virtio h =>
    cases h' with
    | virtio h' =>
      exact .virtio ⟨h'.id.trans h.id, h'.queues.trans h.queues, h'.dev.id.trans h.dev.id,
        fun hs => h'.dev.sane (h.dev.sane hs)⟩
  | serial | rtc =>
    cases h'
    constructor

theorem Evolves.sane (h : Evolves dev dev') (hs : dev.Sane) : dev'.Sane := by
  cases h with
  | virtio h => exact h.dev.sane hs
  | serial | rtc => trivial

variable {uart : Uart} {fuel : Nat} {now : Int} {mem : GuestRam} {req : DeviceRequest}

theorem respond_evolves {r : (MmioDevice × GuestRam) × Reply}
    (h : dev.respond uart fuel now mem req = some r) : Evolves dev r.1.1 := by
  cases dev with
  | virtio t =>
    have hvirtio : ∀ {a : VirtioMmio.Action} {t' : VirtioMmio}, (t.inRam mem).step fuel a = some t' →
        Evolves (.virtio t) (.virtio t') := by
      intro a t' hst
      obtain ⟨hid, hqueues, hdev⟩ := VirtioMmio.step_evolves hst
      exact .virtio ⟨hid, hqueues, hdev⟩
    cases req with
    | read offset data | enqueue bytes =>
      cases h
      exact .refl _
    | write offset data =>
      obtain ⟨t', ht', rfl⟩ := Option.map_eq_some_iff.mp h
      refine hvirtio (a := .write offset data) ?_
      dsimp only [VirtioMmio.step, VirtioMmio.respond]
      rw [ht']
      rfl
    | host a =>
      obtain ⟨r', hr', rfl⟩ := Option.map_eq_some_iff.mp h
      exact hvirtio (congrArg (Option.map Prod.fst) hr')
  | serial s | rtc clock => cases req <;> cases h <;> constructor

/-! ## Devices that look alike -/

/-- The guest cannot tell the devices from each other, in whatever RAM they are. -/
inductive Twin : MmioDevice → MmioDevice → Prop where
  | virtio {t t' : VirtioMmio} (h : ∀ mem, (t.inRam mem).Lookalike (t'.inRam mem)) :
      Twin (.virtio t) (.virtio t')
  | serial (s : Serial) : Twin (.serial s) (.serial s)
  | rtc (clock : Pl031) : Twin (.rtc clock) (.rtc clock)

def TwinIn (x x' : MmioDevice × GuestRam) : Prop := Twin x.1 x'.1 ∧ x'.2 = x.2

theorem twinIn_virtio {t t' : VirtioMmio} (h : t.Lookalike t') :
    TwinIn (.virtio t, t.mem) (.virtio t', t'.mem) := by
  obtain ⟨irq, dev, rfl, hdev⟩ := h
  exact ⟨.virtio fun mem => ⟨irq, dev, rfl, hdev⟩, rfl⟩

/-- **Twins answer alike.** -/
theorem Twin.respond (h : Twin dev dev') (uart : Uart) (fuel : Nat) (now : Int) (mem : GuestRam)
    (req : DeviceRequest) :
    Matched TwinIn (dev.respond uart fuel now mem req) (dev'.respond uart fuel now mem req) := by
  cases h with
  | virtio h =>
    rename_i t t'
    cases req with
    | read offset data =>
      have hread : t'.read offset data = t.read offset data := by
        obtain ⟨irq, dev, heq, hdev⟩ := h mem
        have htwin : ({ t.inRam mem with irq := irq } : VirtioMmio).Twin (t'.inRam mem) :=
          ⟨dev, heq, hdev⟩
        exact htwin.read offset data
      dsimp only [MmioDevice.respond]
      rw [hread]
      exact .both ⟨.virtio h, rfl⟩ _
    | write offset data =>
      have hwrite : Matched VirtioMmio.Lookalike ((t.inRam mem).respond fuel (.write offset data))
          ((t'.inRam mem).respond fuel (.write offset data)) := (h mem).respond _
      have hmatch := hwrite.map
        (f := fun t _ => (MmioDevice.virtio t, t.mem)) (k := fun t _ => (MmioDevice.virtio t, t.mem))
        (g := fun _ => Reply.done) (Q := TwinIn) fun _ _ _ hu => twinIn_virtio hu
      dsimp only [VirtioMmio.respond] at hmatch
      rw [Option.map_map, Option.map_map] at hmatch
      exact hmatch
    | host a =>
      exact ((h mem).respond a).map (f := fun t _ => (MmioDevice.virtio t, t.mem))
        (k := fun t _ => (MmioDevice.virtio t, t.mem)) fun _ _ _ hu => twinIn_virtio hu
    | enqueue bytes => exact .both ⟨.virtio h, rfl⟩ _
  | serial s =>
    -- the serial port is the same on both sides
    cases req <;> exact .both ⟨.serial _, rfl⟩ _
  | rtc clock => cases req <;> exact .both ⟨.rtc _, rfl⟩ _

/-- **The record of a device makes twins** of whatever has become of it, up to what the record
leaves out. -/
theorem restore_twin {dev₀ dev₁ dev₂ : MmioDevice} (hsane : dev₀.Sane) (h₁ : Evolves dev₀ dev₁)
    (h₂ : Evolves dev₀ dev₂) (hleft : dev₁.leftOut = dev₂.leftOut) :
    Twin (dev₁.restore dev₀.save).1 (dev₂.restore dev₀.save).1 := by
  cases h₁ with
  | virtio h₁ =>
    cases h₂ with
    | virtio h₂ => exact .virtio (VirtioMmio.restore_lookalike hsane h₁ h₂ hleft)
  | serial =>
    cases h₂ with
    | serial => exact .serial _
  | rtc clock₀ clock₁ =>
    cases h₂ with
    | rtc _ clock₂ =>
      obtain ⟨_, load₁, match₁, imsc₁⟩ := clock₁
      obtain ⟨_, load₂, match₂, imsc₂⟩ := clock₂
      obtain ⟨rfl, rfl, rfl⟩ : load₁ = load₂ ∧ match₁ = match₂ ∧ imsc₁ = imsc₂ :=
        Remainder.clock.inj hleft
      exact .rtc _

end MmioDevice

end Ignition.Devices

namespace Ignition.Vmm.DeviceManager

open Paged Ignition.Devices Answers Runs

/-! ## All devices of a machine -/

def Paired (D : MmioDevice → MmioDevice → Prop) : List Record → List Record → Prop :=
  List.Forall₂ fun r r' => ∃ dev, r' = r.hold dev ∧ D r.dev dev

namespace Paired

variable {D : MmioDevice → MmioDevice → Prop} {rs rs' rs'' : List Record}

theorem refl (hrefl : ∀ dev, D dev dev) (rs : List Record) : Paired D rs rs :=
  List.forall₂_same.mpr fun r _ => ⟨r.dev, rfl, hrefl r.dev⟩

theorem trans (htrans : ∀ {a b c}, D a b → D b c → D a c) (h : Paired D rs rs')
    (h' : Paired D rs' rs'') : Paired D rs rs'' := by
  induction h generalizing rs'' with
  | nil => exact h'
  | cons hr _ ih =>
    cases h' with
    | cons hr' htail =>
      refine .cons ?_ (ih htail)
      obtain ⟨dev, rfl, hdev⟩ := hr
      obtain ⟨dev', rfl, hdev'⟩ := hr'
      exact ⟨dev', rfl, htrans hdev hdev'⟩

theorem changed (h : Paired D rs rs') (base : Nat) {f f' : MmioDevice → MmioDevice}
    (hf : ∀ dev dev', D dev dev' → D (f dev) (f' dev')) :
    Paired D (FrozenDevices.changed rs base f) (FrozenDevices.changed rs' base f') := by
  refine Lists.forall₂_map h ?_
  rintro r r' ⟨dev, rfl, hdev⟩
  by_cases hbase : r.base = base
  · rw [if_pos hbase, if_pos (show (r.hold dev).base = base from hbase)]
    exact ⟨_, rfl, hf _ _ hdev⟩
  · rw [if_neg hbase, if_neg (show (r.hold dev).base ≠ base from hbase)]
    exact ⟨dev, rfl, hdev⟩

theorem forall_dev {P : MmioDevice → Prop} (h : Paired D rs rs')
    (hP : ∀ dev dev', D dev dev' → P dev → P dev') (hrs : ∀ r ∈ rs, P r.dev) :
    ∀ r ∈ rs', P r.dev := by
  induction h with
  | nil => exact fun r hr => nomatch hr
  | cons hr _ ih =>
    obtain ⟨dev, rfl, hdev⟩ := hr
    rw [List.forall_mem_cons] at hrs ⊢
    exact ⟨hP _ _ hdev hrs.1, ih hrs.2⟩

theorem find (h : Paired D rs rs') (p : Record → Bool) (hp : ∀ r dev, p (r.hold dev) = p r) :
    Option.Rel (fun r r' => ∃ dev, r' = r.hold dev ∧ D r.dev dev) (rs.find? p) (rs'.find? p) := by
  refine Lists.rel_find? ?_ h
  rintro r r' ⟨dev, rfl, -⟩
  exact hp r dev

end Paired

namespace FrozenDevices

variable {d d' : FrozenDevices}

theorem eq_of_find {base : Nat} {dev : MmioDevice} (h : d.find base = some dev) :
    ∀ r ∈ d.records, r.base = base → r.dev = dev := by
  rintro r hr rfl
  unfold find at h
  rw [Lists.find?_of_nodup Record.base d.distinct hr] at h
  exact Option.some.inj h

theorem change_evolves {base : Nat} {dev dev' : MmioDevice} (hfind : d.find base = some dev)
    (h : MmioDevice.Evolves dev dev') :
    Paired MmioDevice.Evolves d.records (d.change base fun _ => dev').records := by
  refine List.forall₂_map_right_iff.mpr (List.forall₂_same.mpr fun r hr => ?_)
  split
  next hbase => exact ⟨dev', rfl, eq_of_find hfind r hr hbase ▸ h⟩
  · exact ⟨r.dev, rfl, .refl r.dev⟩

def restored (recs : List DeviceRecord) (base : Nat) (dev : MmioDevice) : MmioDevice :=
  match recs.find? fun rec => rec.base = base with
  | none => dev
  | some rec => (dev.restore rec.state).1

theorem restore_records : ∀ {recs : List DeviceRecord} (d : FrozenDevices),
    (recs.map DeviceRecord.base).Nodup →
      (d.restore recs).records = d.records.map fun r => r.hold (restored recs r.base r.dev)
  | [], d, _ => (List.map_id' d.records).symm
  | rec :: recs, d, hnodup => by
    obtain ⟨hrec, hrecs⟩ := List.nodup_cons.mp hnodup
    rw [restore, restore_records _ hrecs]
    unfold change changed
    rw [List.map_map]
    refine List.map_congr_left fun r _ => ?_
    dsimp only [Function.comp]
    by_cases hbase : rec.base = r.base
    · -- no later record is about this device
      have hnone : (recs.find? fun rec => rec.base = r.base) = none := by
        refine List.find?_eq_none.mpr fun rec' hmem heq => hrec ?_
        rw [hbase, ← of_decide_eq_true heq]
        exact List.mem_map_of_mem hmem
      have hlater : ∀ dev, restored recs r.base dev = dev := by
        intro dev
        unfold restored
        rw [hnone]
      have hnow : restored (rec :: recs) r.base r.dev = (r.dev.restore rec.state).1 := by
        unfold restored
        rw [List.find?_cons, decide_eq_true hbase]
      rw [if_pos hbase.symm, hnow]
      exact congrArg r.hold (hlater _)
    · have hskip : restored (rec :: recs) r.base r.dev = restored recs r.base r.dev := by
        unfold restored
        rw [List.find?_cons, decide_eq_false hbase]
      rw [if_neg (Ne.symm hbase), hskip]

theorem find?_save {r : Record} (hr : r ∈ d.records) :
    (d.save.find? fun rec => rec.base = r.base) = some r.save := by
  unfold save
  rw [List.find?_map]
  exact congrArg (Option.map Record.save) (Lists.find?_of_nodup Record.base d.distinct hr)

theorem save_nodup (d : FrozenDevices) : (d.save.map DeviceRecord.base).Nodup := by
  unfold save
  rw [List.map_map]
  exact d.distinct

def leftOut (d : FrozenDevices) : List Remainder := d.records.map fun r => r.dev.leftOut

/-- **Records restored into two futures of their devices** give twins, if the futures agree on what
the records leave out. -/
theorem restore_twins {d₀ d₁ d₂ : FrozenDevices} (hsane : ∀ r ∈ d₀.records, r.dev.Sane)
    (h₁ : Paired MmioDevice.Evolves d₀.records d₁.records)
    (h₂ : Paired MmioDevice.Evolves d₀.records d₂.records) (hleft : d₁.leftOut = d₂.leftOut) :
    Paired MmioDevice.Twin (d₁.restore d₀.save).records (d₂.restore d₀.save).records := by
  rw [restore_records d₁ d₀.save_nodup, restore_records d₂ d₀.save_nodup]
  refine Lists.forall₂_map (Lists.forall₂_of_common h₁ h₂ hleft) ?_
  rintro _ _ ⟨r₀, hmem, ⟨dev₁, rfl, he₁⟩, ⟨dev₂, rfl, he₂⟩, heq⟩
  have hrestored : ∀ dev, restored d₀.save r₀.base dev = (dev.restore r₀.dev.save).1 := by
    intro dev
    unfold restored
    rw [find?_save hmem]
    rfl
  refine ⟨restored d₀.save r₀.base dev₂, rfl, ?_⟩
  show MmioDevice.Twin (restored d₀.save r₀.base dev₁) (restored d₀.save r₀.base dev₂)
  rw [hrestored, hrestored]
  exact MmioDevice.restore_twin (hsane r₀ hmem) he₁ he₂ heq

end FrozenDevices

/-! ## Machines -/

namespace Machine

variable {uart : Uart} {fuel : Nat} {m m' : Machine} {req : Request}

/-- Machines whose devices the guest cannot tell from each other. -/
structure Twin (m m' : Machine) : Prop where
  devices : Paired MmioDevice.Twin m.devices.records m'.devices.records
  mem : m'.mem = m.mem
  now : m'.now = m.now

theorem Twin.route (h : Twin m m') (addr : Nat) : m'.devices.route addr = m.devices.route addr := by
  have hfind := h.devices.find (fun r => r.covers addr) fun _ _ => rfl
  unfold FrozenDevices.route
  generalize (m.devices.records.find? fun r => r.covers addr) = o at hfind ⊢
  generalize (m'.devices.records.find? fun r => r.covers addr) = o' at hfind ⊢
  cases hfind with
  | none => rfl
  | some hr =>
    obtain ⟨dev, rfl, -⟩ := hr
    rfl

theorem Twin.ask (h : Twin m m') (base : Nat) (req : DeviceRequest) :
    Matched Twin (m.ask uart fuel base req) (m'.ask uart fuel base req) := by
  have hfind := h.devices.find (fun r => r.base = base) fun _ _ => rfl
  unfold Machine.ask FrozenDevices.find
  generalize (m.devices.records.find? fun r => r.base = base) = o at hfind ⊢
  generalize (m'.devices.records.find? fun r => r.base = base) = o' at hfind ⊢
  cases hfind with
  | none => exact .both h _
  | @some r _ hr =>
    obtain ⟨dev, rfl, htwin⟩ := hr
    dsimp only [Option.map_some, Record.hold]
    rw [h.mem, h.now]
    refine (htwin.respond uart fuel m.now m.mem req).map
      (f := fun x _ => (⟨m.devices.change base fun _ => x.1, x.2, m.now⟩ : Machine))
      (k := fun x _ => (⟨m'.devices.change base fun _ => x.1, x.2, m.now⟩ : Machine))
      (g := fun o => o) ?_
    rintro ⟨d, mem⟩ ⟨d', mem'⟩ o ⟨hd, hmem⟩
    exact ⟨h.devices.changed base fun _ _ _ => hd, hmem, rfl⟩

/-- **Twins answer every request alike.** -/
theorem Twin.respond (h : Twin m m') (req : Request) :
    Matched Twin (m.respond uart fuel req) (m'.respond uart fuel req) := by
  cases req with
  | read addr data | write addr data =>
    dsimp only [Machine.respond]
    rw [h.route]
    cases m.devices.route addr with
    | none => exact .both h _
    | some base => exact h.ask base _
  | store gpa data =>
    dsimp only [Machine.respond]
    rw [h.mem]
    exact .both ⟨h.devices, rfl, h.now⟩ _
  | host base req => exact h.ask base req
  | wait seconds =>
    dsimp only [Machine.respond]
    rw [h.now]
    exact .both ⟨h.devices, h.mem, rfl⟩ _

theorem ask_evolves {base : Nat} {req : DeviceRequest} {r : Machine × Reply}
    (h : m.ask uart fuel base req = some r) :
    Paired MmioDevice.Evolves m.devices.records r.1.devices.records := by
  unfold ask at h
  split at h
  · cases h
    exact .refl .refl _
  next dev hfind =>
    obtain ⟨r', hr', rfl⟩ := Option.map_eq_some_iff.mp h
    exact FrozenDevices.change_evolves hfind (MmioDevice.respond_evolves hr')

theorem step_evolves (h : m.step uart fuel req = some m') :
    Paired MmioDevice.Evolves m.devices.records m'.devices.records := by
  obtain ⟨r, hr, rfl⟩ := Option.map_eq_some_iff.mp h
  have hsame : Paired MmioDevice.Evolves m.devices.records m.devices.records := .refl .refl _
  cases req with
  | read addr data | write addr data =>
    dsimp only [respond] at hr
    split at hr
    · exact Option.some.inj hr ▸ hsame
    · exact ask_evolves hr
  | store gpa data | wait seconds => exact Option.some.inj hr ▸ hsame
  | host base req => exact ask_evolves hr

theorem run_evolves {ok : Machine → Request → Prop} {reqs : List Request}
    (hrun : Run (step uart fuel) ok m reqs m') :
    Paired MmioDevice.Evolves m.devices.records m'.devices.records := by
  induction hrun with
  | nil => exact .refl .refl _
  | cons _ hst _ ih => exact Paired.trans .trans (step_evolves hst) ih

def Fresh (m : Machine) : Prop :=
  ∀ r ∈ m.devices.records, ∀ t gpu, r.dev = .virtio t → t.dev = .gpu gpu →
    ∃ width height, gpu = .new width height

theorem Fresh.sane (h : m.Fresh) : ∀ r ∈ m.devices.records, r.dev.Sane := by
  intro r hr
  have hgpu := h r hr
  generalize r.dev = dev at hgpu
  cases dev with
  | virtio t =>
    show t.dev.Sane
    have hgpu := hgpu t
    generalize t.dev = dev at hgpu
    cases dev with
    | gpu gpu =>
      obtain ⟨width, height, rfl⟩ := hgpu gpu rfl rfl
      exact VirtioGpu.sane_new width height
    | _ => trivial
  | serial | rtc => trivial

theorem Twin.view (h : Twin m m') (req : Request) :
    Matched Twin (m.view uart fuel req) (m'.view uart fuel req) :=
  (h.respond req).observe Machine.mem fun _ _ hu => hu.mem.symm

/-- **A reset in place forgets the future.** Take a checkpoint `m` of a machine that was built and
has run, and two machines that it may become. If these agree on what the records of the checkpoint
leave out, and on the time, then after the records are restored in place over the same RAM every
further sequence of requests gets the same replies and has the same effect on RAM. -/
theorem reset_forgets {m₀ m₁ m₂ : Machine} {k k₁ k₂ : Nat} {reqs reqs₁ reqs₂ : List Request}
    (hfresh : m₀.Fresh) (hrun : Run (step uart k) (fun _ _ => True) m₀ reqs m)
    (h₁ : Run (step uart k₁) (fun _ _ => True) m reqs₁ m₁)
    (h₂ : Run (step uart k₂) (fun _ _ => True) m reqs₂ m₂)
    (hleft : m₁.devices.leftOut = m₂.devices.leftOut) (hnow : m₁.now = m₂.now)
    (pristine : GuestRam) (n : Nat) (later : List Request) :
    answers (view uart n) (m₁.reset m.devices.save pristine) later =
      answers (view uart n) (m₂.reset m.devices.save pristine) later := by
  have hsane : ∀ r ∈ m.devices.records, r.dev.Sane :=
    (run_evolves hrun).forall_dev (fun _ _ h => h.sane) hfresh.sane
  have htwin : Twin (m₁.reset m.devices.save pristine) (m₂.reset m.devices.save pristine) :=
    ⟨FrozenDevices.restore_twins hsane (run_evolves h₁) (run_evolves h₂) hleft, rfl, hnow.symm⟩
  exact answers_eq_of_bisim (fun _ _ req h => Twin.view h req) htwin later

def unplugged : Uart := ⟨fun s _ => (s, 0), fun s _ _ => s, fun s _ => (s, .ok 0)⟩

def small : Machine where
  devices :=
    ⟨[⟨"virtio-balloon", 0x9000000, 0x1000, 0, .virtioMmio,
        .virtio (.new "virtio-balloon" (.balloon ⟨0, 0⟩) ⟨0x40000000, [], by decide⟩)⟩,
      ⟨"rtc", 0x9001000, 0x1000, 1, .pl031, .rtc .new⟩], by decide⟩
  mem := ⟨0x40000000, [], by decide⟩
  now := 0

theorem small_fresh : small.Fresh := by
  intro r hr t gpu ht hgpu
  rcases List.mem_cons.mp hr with rfl | hr
  · obtain rfl := MmioDevice.virtio.inj ht
    cases hgpu
  · obtain rfl := List.mem_singleton.mp hr
    cases ht

theorem reset_forgets_balloon : ∃ m₁,
    Run (step unplugged 1) (fun _ _ => True) small [.write 0x9000104 [7, 0, 0, 0]] m₁ ∧
      ∀ pristine n later,
        answers (view unplugged n) (m₁.reset small.devices.save pristine) later =
          answers (view unplugged n) (small.reset small.devices.save pristine) later := by
  obtain ⟨m₁, hafter, hleft, hnow⟩ : ∃ m₁,
      after (step unplugged 1) small [.write 0x9000104 [7, 0, 0, 0]] = some m₁ ∧
        m₁.devices.leftOut = small.devices.leftOut ∧ m₁.now = small.now := ⟨_, rfl, rfl, rfl⟩
  have hstay : Run (step unplugged 1) (fun _ _ => True) small [] small := .nil small
  have hrun := run_of_after hafter
  exact ⟨m₁, hrun, reset_forgets small_fresh hstay hrun hstay hleft hnow⟩

/-! ### What is not forgotten -/

def workbench : Machine where
  devices :=
    ⟨[⟨"rtc", 0x9000000, 0x1000, 0, .pl031, .rtc .new⟩,
      ⟨"virtio-blk", 0x9001000, 0x1000, 1, .virtioMmio,
        .virtio (.new "virtio-blk" (.blk (.new ⟨[0, 0, 0, 0], []⟩)) ⟨0x40000000, [], by decide⟩)⟩,
      ⟨"virtio-rng", 0x9002000, 0x1000, 2, .virtioMmio,
        .virtio (.new "virtio-rng" (.rng ⟨UInt8.ofNat, 1⟩) ⟨0x40000000, [], by decide⟩)⟩,
      ⟨"virtio-vsock", 0x9003000, 0x1000, 3, .virtioMmio,
        .virtio (.new "virtio-vsock" (.vsock ⟨.new []⟩) ⟨0x40000000, [], by decide⟩)⟩,
      ⟨"virtio-net", 0x9004000, 0x1000, 4, .virtioMmio,
        .virtio (.new "virtio-net" (.net (.new [2, 0, 0, 0, 0, 1])) ⟨0x40000000, [], by decide⟩)⟩,
      ⟨"virtio-gpu", 0x9005000, 0x1000, 5, .virtioMmio,
        .virtio (.new "virtio-gpu" (.gpu (.new 1280 800)) ⟨0x40000000, [], by decide⟩)⟩], by decide⟩
  mem :=
    ⟨0x40000000,
      -- block: three descriptors, the available ring, the used ring, the header and the data
      leBytes 8 0x40000060 ++ leBytes 4 16 ++ [1, 0, 1, 0] ++
      leBytes 8 0x40000070 ++ leBytes 4 4 ++ [1, 0, 2, 0] ++
      leBytes 8 0x40000074 ++ leBytes 4 1 ++ [2, 0, 0, 0] ++
      [0, 0, 1, 0] ++ List.replicate 8 0 ++ List.replicate 36 0 ++
      leBytes 16 1 ++ [1, 2, 3, 4] ++ List.replicate 12 0 ++
      -- entropy: a descriptor, the rings and the buffer
      leBytes 8 0x400000b0 ++ leBytes 4 4 ++ [2, 0, 0, 0] ++
      [0, 0, 1, 0] ++ List.replicate 12 0 ++ List.replicate 16 0 ++ List.replicate 16 0 ++
      -- vsock: the same
      leBytes 8 0x400000f0 ++ leBytes 4 64 ++ [2, 0, 0, 0] ++
      [0, 0, 1, 0] ++ List.replicate 12 0 ++ List.replicate 16 0 ++ List.replicate 64 0,
      by decide +kernel⟩
  now := 0

def program (base size table driver device : Nat) : List Request :=
  [.write (base + 0x038) (leBytes 4 size), .write (base + 0x080) (leBytes 4 table),
    .write (base + 0x090) (leBytes 4 driver), .write (base + 0x0a0) (leBytes 4 device),
    .write (base + 0x044) (leBytes 4 1)]

def booted : List Request :=
  program 0x9001000 4 0x40000000 0x40000030 0x4000003c ++
    program 0x9002000 1 0x40000080 0x40000090 0x400000a0 ++
    program 0x9003000 1 0x400000c0 0x400000d0 0x400000e0

def futures : List (List Request × List Request) :=
  [ -- the guest writes the match register of the clock, and reads it
    ([.write 0x9000004 [5, 0, 0, 0]], [.read 0x9000004 [0, 0, 0, 0]]),
    -- the guest writes to the disk, and reads from it
    ([.write 0x9001050 [0, 0, 0, 0]],
      [.store 0x40000060 [0], .store 0x4000001c [3], .write 0x9001050 [0, 0, 0, 0]]),
    -- the guest takes entropy from the host, and takes more
    ([.write 0x9002050 [0, 0, 0, 0]], [.write 0x9002050 [0, 0, 0, 0]]),
    -- a program of the host asks to be connected to port 5
    ([.host 0x9003000 (.host (.acceptControl 7
        ⟨[], [], [], [.data [67, 79, 78, 78, 69, 67, 84, 32, 53, 10]]⟩))],
      [.host 0x9003000 (.host .pollVsockRx)]),
    -- the carrier goes down
    ([.host 0x9004000 (.host (.netSetLink false))], [.read 0x9004106 [0, 0]]),
    -- the window of the display is resized
    ([.host 0x9005000 (.host (.displaySetMode 800 600))], [.read 0x9005100 [0, 0, 0, 0]])]

/-- **What no record has is not forgotten**: with each of these done after the checkpoint, or not
done, the machine answers differently after the reset. -/
theorem reset_remembers : ∃ m, Run (step unplugged 3) (fun _ _ => True) workbench booted m ∧
    ∀ x ∈ futures, ∃ m₁, Run (step unplugged 3) (fun _ _ => True) m x.1 m₁ ∧
      answers (view unplugged 3) (m₁.reset m.devices.save m.mem) x.2 ≠
        answers (view unplugged 3) (m.reset m.devices.save m.mem) x.2 := by
  obtain ⟨m, hrun, hall⟩ : ∃ m, Run (step unplugged 3) (fun _ _ => True) workbench booted m ∧
      ∀ x ∈ futures, ∃ m₁ ∈ after (step unplugged 3) m x.1,
        (answers (view unplugged 3) (m₁.reset m.devices.save m.mem) x.2).map
            (Option.map fun o => (o.1, o.2.ram)) ≠
          (answers (view unplugged 3) (m.reset m.devices.save m.mem) x.2).map
            (Option.map fun o => (o.1, o.2.ram)) := exists_run (by decide +kernel)
  refine ⟨m, hrun, fun x hx => ?_⟩
  obtain ⟨m₁, hm₁, hne⟩ := hall x hx
  exact ⟨m₁, run_of_after hm₁, fun heq => hne (congrArg _ heq)⟩

end Machine

end Ignition.Vmm.DeviceManager
