import Ignition.Devices.Balloon
import Ignition.Devices.Blk
import Ignition.Devices.Gpu
import Ignition.Devices.Input
import Ignition.Devices.Net
import Ignition.Devices.Vsock

/-!
# Virtio devices

The trait `VirtioDevice` of `mmio.rs`: what the transport asks of the device it hosts. The trait
has seven implementers, and a boxed one is a value of the sum over them; a method that an
implementer does not have is the trait's default.

A device gets the queue it is to work on from the transport and moves it along its rings. It
cannot change where the rings are, since it sees nothing of a queue but `pop_avail` and
`push_used` (`handleNotify_kept` and its likes). Nor does it ever get into a state that it would
save and not take back: the GPU is the only one that checks what it is given, and it keeps to that
itself (`VirtioGpu.Sane`, `restore_save`).

The state that a device puts into a snapshot is a JSON value in the source. Here it has a
constructor for each shape that a device writes, and a device that is given another shape fails at
the first field it misses.
-/

namespace Ignition.Devices

open Paged Ignition.Vmm List Option

/-! ## Device state in a snapshot -/

/-- A resource of the GPU as the snapshot has it: everything but the pixels. -/
structure ResourceRecord where
  id : Nat
  format : Nat
  width : Nat
  height : Nat
  backing : List (Nat × Nat)
  deriving DecidableEq

/-- The state of a device as it is saved. -/
inductive Blob where
  | null
  | input (select subsel : UInt8)
  | balloon (numPages actual : UInt32)
  | vsock (conns : List ConnKey)
  | gpu (resources : List ResourceRecord) (scanoutRes : Nat)
  deriving DecidableEq

namespace VirtioInput

def save (input : VirtioInput) : Blob := .input input.select input.subsel

def restore (input : VirtioInput) : Blob → Except String VirtioInput
  | .input select subsel => .ok { input with select := select, subsel := subsel }
  | _ => .error "input: missing select"

end VirtioInput

namespace Balloon

def save (b : Balloon) : Blob := .balloon b.numPages b.actual

def restore : Blob → Except String Balloon
  | .balloon numPages actual => .ok ⟨numPages, actual⟩
  | _ => .error "balloon: missing num_pages"

end Balloon

def Muxer.saveConns (m : Muxer) : List ConnKey :=
  m.conns.keys.mergeSort fun a b => a.1 < b.1 || (a.1 = b.1 && a.2 ≤ b.2)

namespace VsockDevice

def save (dev : VsockDevice) : Blob := .vsock dev.muxer.saveConns

/-- `VsockDevice::restore`: the connections of the snapshot are to be reset. -/
def restore (dev : VsockDevice) : Blob → Except String VsockDevice
  | .vsock conns => .ok ⟨dev.muxer.seedRst conns⟩
  | _ => .error "vsock: missing conns array"

end VsockDevice

namespace VirtioGpu

def record (id : Nat) (r : Resource2D) : ResourceRecord := ⟨id, r.format, r.width, r.height, r.backing⟩

def save (gpu : VirtioGpu) : Blob :=
  .gpu (gpu.resources.entries.map fun e => record e.1 e.2) gpu.scanoutRes

def restoreResources : List ResourceRecord → AssocMap Nat Resource2D →
    Except String (AssocMap Nat Resource2D)
  | [], resources => .ok resources
  | e :: es, resources =>
    let size := e.width * e.height * 4
    if MAX_RESOURCE_BYTES < size then .error "gpu: restored resource size invalid"
    else
      restoreResources es
        (resources.insert e.id ⟨e.format, e.width, e.height, e.backing, List.replicate size 0⟩)

def restore (gpu : VirtioGpu) : Blob → Except String VirtioGpu
  | .gpu es scanoutRes =>
    match restoreResources es ∅ with
    | .error e => .error e
    | .ok resources =>
      if scanoutRes ≠ 0 ∧ (resources.lookup scanoutRes).isNone then
        .error "gpu: scanout_res names a missing resource"
      else .ok { gpu with resources := resources, scanoutRes := scanoutRes }
  | _ => .error "gpu: missing resources"

/-! A GPU keeps to what `restore` asks for. -/

/-- Every resource has a size that may be restored, and the scanout is one of them or none. -/
structure Sane (gpu : VirtioGpu) : Prop where
  size : ∀ id r, gpu.resource id = some r → r.width * r.height * 4 ≤ MAX_RESOURCE_BYTES
  scanout : gpu.scanoutRes = 0 ∨ (gpu.resource gpu.scanoutRes).isSome = true

theorem sane_new (width height : Nat) : (new width height).Sane :=
  ⟨fun _ _ h => (nomatch h), .inl rfl⟩

variable {gpu : VirtioGpu}

theorem Sane.insert (h : gpu.Sane) {id : Nat} {r : Resource2D}
    (hr : r.width * r.height * 4 ≤ MAX_RESOURCE_BYTES) : (gpu.insert id r).Sane := by
  constructor
  · intro id' r' hr'
    rw [resource_insert] at hr'
    split at hr'
    · exact some.inj hr' ▸ hr
    · exact h.size id' r' hr'
  · refine h.scanout.imp (fun h0 => h0) fun hsome => ?_
    rw [resource_insert]
    split
    · rfl
    · exact hsome

theorem Sane.update (h : gpu.Sane) {id : Nat} {r : Resource2D} (hr : gpu.resource id = some r)
    (backing : List (Nat × Nat)) (pixels : Bytes) :
    (gpu.insert id { r with backing := backing, pixels := pixels }).Sane :=
  h.insert (h.size id r hr)

theorem Sane.effect {gpu' : VirtioGpu} (h : gpu.Sane) (heffect : Effect gpu gpu') :
    gpu'.Sane := by
  cases heffect with
  | same => exact h
  | created _ _ _ hfits => exact h.insert hfits
  | removed id =>
    refine ⟨fun id' r hr => h.size id' r (resource_of_erase hr), ?_⟩
    -- a scanout that loses its resource is unbound
    by_cases hid : gpu.scanoutRes = id
    · exact .inl (if_pos hid)
    have hkeep : (if gpu.scanoutRes = id then 0 else gpu.scanoutRes) = gpu.scanoutRes :=
      if_neg hid
    unfold resource
    rw [hkeep, AssocMap.lookup_erase, if_neg hid]
    exact h.scanout
  | @backed id r sg hr _ => exact h.update hr sg r.pixels
  | bound hid => exact ⟨h.size, hid⟩
  | @drawn id r pixels presented hr _ =>
    obtain ⟨hsize, hscanout⟩ := h.update hr r.backing pixels
    exact ⟨hsize, hscanout⟩

theorem size_of_restoreResources : ∀ {es : List ResourceRecord}
    {resources resources' : AssocMap Nat Resource2D},
    restoreResources es resources = .ok resources' →
    (∀ id r, resources.lookup id = some r → r.width * r.height * 4 ≤ MAX_RESOURCE_BYTES) →
    ∀ id r, resources'.lookup id = some r → r.width * r.height * 4 ≤ MAX_RESOURCE_BYTES
  | [], resources, resources', h, hsize => Except.ok.inj h ▸ hsize
  | e :: es, resources, resources', h, hsize => by
    unfold restoreResources at h
    dsimp only at h
    split at h
    · cases h
    rename_i hfits
    refine size_of_restoreResources h fun id r hr => ?_
    rw [AssocMap.lookup_insert] at hr
    split at hr
    · exact some.inj hr ▸ Nat.not_lt.mp hfits
    · exact hsize id r hr

theorem Sane.of_restore {gpu' : VirtioGpu} {v : Blob} (h : gpu.restore v = .ok gpu') :
    gpu'.Sane := by
  cases v with
  | gpu es scanoutRes =>
    dsimp only [restore] at h
    split at h
    · cases h
    rename_i resources hes
    split at h
    · cases h
    rename_i hok
    obtain rfl := Except.ok.inj h
    refine ⟨size_of_restoreResources hes fun _ _ hr => (nomatch hr), ?_⟩
    rw [not_and_or, not_not, Bool.not_eq_true, isNone_eq_false_iff] at hok
    exact hok
  | null | input | balloon | vsock => cases h

theorem restoreResources_ok : ∀ {es : List ResourceRecord} (resources : AssocMap Nat Resource2D),
    (∀ e ∈ es, e.width * e.height * 4 ≤ MAX_RESOURCE_BYTES) →
    ∃ resources', restoreResources es resources = .ok resources' ∧
      ∀ id, (resources.lookup id).isSome = true ∨ id ∈ es.map ResourceRecord.id →
        (resources'.lookup id).isSome = true
  | [], resources, _ =>
    ⟨resources, rfl, fun _ h => h.elim (fun h => h) fun h => nomatch h⟩
  | e :: es, resources, hsize => by
    obtain ⟨resources', hok, hkeys⟩ := restoreResources_ok
      (resources.insert e.id ⟨e.format, e.width, e.height, e.backing,
        replicate (e.width * e.height * 4) 0⟩)
      fun e he => hsize e (mem_cons_of_mem _ he)
    refine ⟨resources', ?_, fun id hid => hkeys id ?_⟩
    · unfold restoreResources
      exact (if_neg (Nat.not_lt.mpr (hsize e mem_cons_self))).trans hok
    · rw [AssocMap.lookup_insert]
      split
      · exact .inl rfl
      rename_i hne
      refine hid.imp (fun h => h) fun hmem => ?_
      rcases mem_cons.mp hmem with heq | hmem
      · exact absurd heq hne
      · exact hmem

/-- **What a GPU saves, any GPU takes back.** -/
theorem Sane.restore_save {gpu₀ : VirtioGpu} (h : gpu₀.Sane) : ∃ resources, ∀ gpu : VirtioGpu,
    gpu.restore gpu₀.save =
      .ok { gpu with resources := resources, scanoutRes := gpu₀.scanoutRes } := by
  have hlookup : ∀ e ∈ gpu₀.resources.entries, gpu₀.resource e.1 = some e.2 :=
    fun e he => AList.mem_lookup_iff.mpr he
  obtain ⟨resources, hok, hkeys⟩ :=
    @restoreResources_ok (gpu₀.resources.entries.map fun e => record e.1 e.2) ∅ (by
      intro r hr
      obtain ⟨e, he, rfl⟩ := mem_map.mp hr
      exact h.size e.1 e.2 (hlookup e he))
  refine ⟨resources, fun gpu => ?_⟩
  dsimp only [VirtioGpu.restore, save]
  rw [hok]
  refine if_neg fun hmissing => ?_
  -- the scanout is among the resources, so among their records
  obtain ⟨r, hr⟩ := isSome_iff_exists.mp (h.scanout.resolve_left hmissing.1)
  have hsome := hkeys gpu₀.scanoutRes (.inr (mem_map.mpr
    ⟨record gpu₀.scanoutRes r, mem_map.mpr
      ⟨⟨gpu₀.scanoutRes, r⟩, AList.mem_lookup_iff.mp hr, rfl⟩, rfl⟩))
  rw [isNone_iff_eq_none.mp hmissing.2] at hsome
  cases hsome

end VirtioGpu

/-! ## The trait -/

inductive VirtioDevice where
  | blk (dev : VirtioBlk)
  | net (dev : VirtioNet)
  | vsock (dev : VsockDevice)
  | rng (dev : VirtioRng)
  | gpu (dev : VirtioGpu)
  | balloon (dev : Balloon)
  | input (dev : VirtioInput)

def Loop.over {δ ε : Type} (l : Loop δ) (dev : ε) : Loop ε := ⟨dev, l.vq, l.mem⟩

def drained {δ : Type} (service : Service δ) (fuel : Nat) (l : Loop δ) : Option (Loop δ × Bool) :=
  (drain service fuel l).map fun r => (r.2, !r.1.isEmpty)

namespace VirtioDevice

def boxed {δ : Type} (box : δ → VirtioDevice) (r : Loop δ × Bool) : Loop VirtioDevice × Bool :=
  (r.1.over (box r.1.dev), r.2)

def deviceId : VirtioDevice → UInt32
  | .blk _ => 2
  | .net _ => 1
  | .vsock _ => 19
  | .rng _ => 4
  | .gpu _ => 16
  | .balloon _ => 5
  | .input _ => 18

def deviceFeatures : VirtioDevice → UInt32 → UInt32
  | .net _, sel => VirtioNet.deviceFeatures sel
  | _, _ => 0

def configRead : VirtioDevice → Nat → Bytes → Bytes
  | .blk dev, offset, data => dev.configRead offset data
  | .net dev, offset, data => dev.configRead offset data
  | .vsock _, offset, data => VsockDevice.configRead offset data
  | .rng _, _, data => data
  | .gpu dev, offset, data => dev.configRead offset data
  | .balloon dev, offset, data => dev.configRead offset data
  | .input dev, offset, data => dev.configRead offset data

def configWrite : VirtioDevice → Nat → Bytes → VirtioDevice
  | .gpu dev, offset, data => .gpu (dev.configWrite offset data)
  | .balloon dev, offset, data => .balloon (dev.configWrite offset data)
  | .input dev, offset, data => .input (dev.configWrite offset data)
  | dev, _, _ => dev

def queueCount : VirtioDevice → Nat
  | .blk _ => 1
  | .net _ => 2
  | .vsock _ => 3
  | .rng _ => 1
  | .gpu _ => 2
  | .balloon _ => 2
  | .input _ => 2

/-- `handle_notify`, with the rounds it may take, and whether a buffer was used. -/
def handleNotify (fuel idx : Nat) (l : Loop VirtioDevice) : Option (Loop VirtioDevice × Bool) :=
  match l.dev with
  | .blk dev => (drained VirtioBlk.process fuel (l.over dev)).map (boxed .blk)
  | .net dev =>
    -- a notify of the receive queue only says that there are buffers
    if idx = 1 then (drained VirtioNet.transmit fuel (l.over dev)).map (boxed .net)
    else some (l, false)
  | .vsock dev =>
    if idx = 1 then (drained VsockDevice.transmit fuel (l.over dev)).map (boxed .vsock)
    else if idx = 0 then
      (VsockDevice.fillGuestRx fuel (l.over dev)).map fun r => boxed .vsock (r.2, r.1)
    else if idx = 2 then (drained acknowledge fuel (l.over dev)).map (boxed .vsock)
    else some (l, false)
  | .rng dev => (drained VirtioRng.fillRandom fuel (l.over dev)).map (boxed .rng)
  | .gpu dev =>
    if idx = 1 then (drained acknowledge fuel (l.over dev)).map (boxed .gpu)
    else (drained VirtioGpu.control fuel (l.over dev)).map (boxed .gpu)
  | .balloon dev =>
    if idx = 0 then (drained Balloon.inflateChain fuel (l.over dev)).map (boxed .balloon)
    else if idx = 1 then (drained acknowledge fuel (l.over dev)).map (boxed .balloon)
    else some (l, false)
  | .input dev =>
    -- buffers for events stay on their queue until there are events
    if idx = 1 then (drained acknowledge fuel (l.over dev)).map (boxed .input)
    else some (l, false)

def injectRx (frame : Bytes) (l : Loop VirtioDevice) : Loop VirtioDevice × Bool :=
  match l.dev with
  | .net dev => boxed .net (dev.injectRx l.vq l.mem frame)
  | _ => (l, false)

def injectInput (events : List InputEvent) (l : Loop VirtioDevice) : Loop VirtioDevice × Bool :=
  match l.dev with
  | .input dev => boxed .input (VirtioInput.fillEvents (l.over dev) events)
  | _ => (l, false)

/-- `fill_rx`, with the rounds it may take. -/
def fillRx (fuel : Nat) (l : Loop VirtioDevice) : Option (Loop VirtioDevice × Bool) :=
  match l.dev with
  | .vsock dev =>
    (VsockDevice.fillGuestRx fuel (l.over ⟨dev.muxer.pollControls.service⟩)).map fun r =>
      boxed .vsock (r.2, r.1)
  | _ => some (l, false)

def acceptControl (fd : Nat) (stream : HostStream) : VirtioDevice → VirtioDevice
  | .vsock dev => .vsock ⟨dev.muxer.acceptControl fd stream⟩
  | dev => dev

def setDisplayMode (w h : Nat) : VirtioDevice → VirtioDevice × Bool
  | .gpu dev => (.gpu (dev.setDisplayMode w h), true)
  | dev => (dev, false)

def setDisplayEnabled (en : Bool) : VirtioDevice → VirtioDevice × Bool
  | .gpu dev => (.gpu (dev.setDisplayEnabled en), true)
  | dev => (dev, false)

def setLink (up : Bool) : VirtioDevice → VirtioDevice
  | .net dev => .net (dev.setLink up)
  | dev => dev

def presentScanout (mem : GuestRam) : VirtioDevice → VirtioDevice
  | .gpu dev => .gpu (dev.presentScanout mem)
  | dev => dev

def save : VirtioDevice → Blob
  | .vsock dev => dev.save
  | .gpu dev => dev.save
  | .balloon dev => dev.save
  | .input dev => dev.save
  | _ => .null

def restore : VirtioDevice → Blob → Except String VirtioDevice
  | .vsock dev, v => (dev.restore v).map .vsock
  | .gpu dev, v => (dev.restore v).map .gpu
  | .balloon _, v => (Balloon.restore v).map .balloon
  | .input dev, v => (dev.restore v).map .input
  | dev, _ => .ok dev

end VirtioDevice

/-! ## A queue moves along its rings -/

def Virtqueue.Along (q q' : Virtqueue) : Prop := q' = q.setIndices q'.lastAvailIdx q'.usedIdx

namespace Virtqueue.Along

variable {q q' q'' : Virtqueue}

theorem refl (q : Virtqueue) : Along q q := rfl

theorem trans (h : Along q q') (h' : Along q' q'') : Along q q'' := by
  rw [h'] at ⊢
  generalize q''.lastAvailIdx = last
  generalize q''.usedIdx = used
  rw [h]
  rfl

theorem advance (q : Virtqueue) : Along q q.advance := rfl

theorem pop (q : Virtqueue) (mem : GuestRam) : Along q (q.popAvail mem).1 := by
  rcases popAvail_cases q mem with ⟨head, -, he⟩ | ⟨-, he⟩
  · rw [he]
    exact advance q
  · rw [he]
    exact refl q

variable {δ : Type}

theorem serve (service : Service δ) (l : Loop δ) (vq : Virtqueue) (chain : DescChain) :
    Along vq (Devices.serve service l vq chain).vq := by
  rw [serve_vq]
  rfl

theorem round (service : Service δ) (l : Loop δ) :
    Along l.vq (Devices.round service l).2.vq := by
  have hpop := pop l.vq l.mem
  unfold Devices.round
  split
  next vq heq =>
    rw [heq] at hpop
    exact hpop
  next vq chain heq =>
    rw [heq] at hpop
    exact hpop.trans (serve service l vq chain)

theorem drain {service : Service δ} {fuel : Nat} : ∀ {l : Loop δ}
    {r : List DescChain × Loop δ}, Devices.drain service fuel l = some r → Along l.vq r.2.vq := by
  induction fuel with
  | zero => exact fun h => nomatch h
  | succ fuel ih =>
    intro l r h
    have hround := round service l
    unfold Devices.drain at h
    split at h
    next l' heq =>
      cases h
      rw [heq] at hround
      exact hround
    next chain l' heq =>
      obtain ⟨r', hr', rfl⟩ := map_eq_some_iff.mp h
      rw [heq] at hround
      have htail := ih hr'
      exact hround.trans htail

theorem fillGuestRx {fuel : Nat} : ∀ {l : Loop VsockDevice} {r : Bool × Loop VsockDevice},
    VsockDevice.fillGuestRx fuel l = some r → Along l.vq r.2.vq := by
  induction fuel with
  | zero => exact fun h => nomatch h
  | succ fuel ih =>
    intro l r h
    have hpop := pop l.vq l.mem
    unfold VsockDevice.fillGuestRx at h
    split at h
    · cases h
      exact refl l.vq
    rename_i pkt rxq _
    split at h
    next vq heq =>
      cases h
      rw [heq] at hpop
      exact hpop
    next vq chain heq =>
      rw [heq] at hpop
      split at h
      · obtain ⟨r', hr', rfl⟩ := map_eq_some_iff.mp h
        have htail := ih hr'
        exact (hpop.trans (serve _ _ vq chain)).trans htail
      · exact (hpop.trans (serve _ _ vq chain)).trans (ih h)

theorem fillEvents : ∀ (events : List InputEvent) (l : Loop VirtioInput),
    Along l.vq (VirtioInput.fillEvents l events).1.vq
  | [], l => refl l.vq
  | ev :: evs, l => by
    have hpop := pop l.vq l.mem
    unfold VirtioInput.fillEvents
    split
    next vq heq =>
      rw [heq] at hpop
      exact hpop
    next vq chain heq =>
      rw [heq] at hpop
      exact (hpop.trans (serve _ _ vq chain)).trans (fillEvents evs _)

theorem injectRx (net : VirtioNet) (vq : Virtqueue) (mem : GuestRam) (frame : Bytes) :
    Along vq (net.injectRx vq mem frame).1.vq := by
  have hpop := pop vq mem
  unfold VirtioNet.injectRx
  split
  next vq' heq =>
    rw [heq] at hpop
    exact hpop
  next vq' chain heq =>
    rw [heq] at hpop
    exact hpop.trans (serve _ _ vq' chain)

end Virtqueue.Along

namespace VirtioDevice

open Virtqueue (Along)

def Sane : VirtioDevice → Prop
  | .gpu dev => dev.Sane
  | _ => True

/-- What becomes of a device: it stays of its kind and does not lose its sanity. -/
structure Evolves (dev dev' : VirtioDevice) : Prop where
  id : dev'.deviceId = dev.deviceId
  sane : dev.Sane → dev'.Sane

theorem Evolves.refl (dev : VirtioDevice) : Evolves dev dev := ⟨rfl, fun h => h⟩

theorem Evolves.count {dev dev' : VirtioDevice} (h : Evolves dev dev') :
    dev'.queueCount = dev.queueCount := by
  have hcount : ∀ d : VirtioDevice,
      d.queueCount = if d.deviceId = 2 ∨ d.deviceId = 4 then 1 else if d.deviceId = 19 then 3 else 2 := by
    intro d
    cases d <;> rfl
  rw [hcount, hcount, h.id]

/-- What a device leaves of the queue and of itself. -/
structure Kept (l l' : Loop VirtioDevice) : Prop where
  along : Along l.vq l'.vq
  evolves : Evolves l.dev l'.dev

theorem Kept.refl (l : Loop VirtioDevice) : Kept l l := ⟨Along.refl l.vq, .refl l.dev⟩

variable {l : Loop VirtioDevice} {r : Loop VirtioDevice × Bool} {fuel : Nat} {vq : Virtqueue}
  {mem : GuestRam}

theorem Kept.idle (h : some (l, false) = some r) : Kept l r.1 := by
  cases h
  exact Kept.refl l

theorem Kept.drained {δ : Type} {service : Service δ} {P : δ → Prop} {dev : δ}
    {box : δ → VirtioDevice} (hserv : ∀ d mem chain, P d → P (service d mem chain).dev)
    (hbox : ∀ d, (box d).deviceId = (box dev).deviceId) (hsane : ∀ d, (box d).Sane ↔ P d)
    (h : (Devices.drained service fuel ⟨dev, vq, mem⟩).map (boxed box) = some r) :
    Kept ⟨box dev, vq, mem⟩ r.1 := by
  obtain ⟨r₁, h₁, rfl⟩ := map_eq_some_iff.mp h
  obtain ⟨r₂, h₂, rfl⟩ := map_eq_some_iff.mp h₁
  refine ⟨Along.drain (l := ⟨dev, vq, mem⟩) h₂, hbox _, fun hs => ?_⟩
  exact (hsane _).mpr (drain_invariant hserv h₂ ((hsane dev).mp hs))

theorem Kept.plain {δ : Type} {service : Service δ} {dev : δ} {box : δ → VirtioDevice}
    (hbox : ∀ d, (box d).deviceId = (box dev).deviceId) (hsane : ∀ d, (box d).Sane)
    (h : (Devices.drained service fuel ⟨dev, vq, mem⟩).map (boxed box) = some r) :
    Kept ⟨box dev, vq, mem⟩ r.1 :=
  .drained (P := fun _ => True) (fun _ _ _ _ => trivial) hbox
    (fun d => iff_true_intro (hsane d)) h

theorem Kept.fillGuestRx {dev dev' : VsockDevice}
    (h : ((VsockDevice.fillGuestRx fuel ⟨dev', vq, mem⟩).map fun r => boxed .vsock (r.2, r.1)) =
      some r) : Kept ⟨.vsock dev, vq, mem⟩ r.1 := by
  obtain ⟨r₁, h₁, rfl⟩ := map_eq_some_iff.mp h
  exact ⟨Along.fillGuestRx (l := ⟨dev', vq, mem⟩) h₁, rfl, fun _ => trivial⟩

theorem handleNotify_kept {idx : Nat} (h : handleNotify fuel idx l = some r) : Kept l r.1 := by
  obtain ⟨dev, vq, mem⟩ := l
  cases dev with
  | blk dev | rng dev => exact .plain (fun _ => rfl) (fun _ => trivial) h
  | net dev | input dev =>
    dsimp only [handleNotify] at h
    split at h
    · exact .plain (fun _ => rfl) (fun _ => trivial) h
    · exact .idle h
  | vsock dev =>
    dsimp only [handleNotify] at h
    split at h
    · exact .plain (fun _ => rfl) (fun _ => trivial) h
    split at h
    · exact .fillGuestRx h
    split at h
    · exact .plain (fun _ => rfl) (fun _ => trivial) h
    · exact .idle h
  | gpu dev =>
    dsimp only [handleNotify] at h
    split at h
    · exact .drained (fun _ _ _ hs => hs) (fun _ => rfl) (fun _ => Iff.rfl) h
    exact .drained (fun gpu mem chain hs => hs.effect (VirtioGpu.control_effect gpu mem chain))
      (fun _ => rfl)
      (fun _ => Iff.rfl) h
  | balloon dev =>
    dsimp only [handleNotify] at h
    split at h
    · exact .plain (fun _ => rfl) (fun _ => trivial) h
    split at h
    · exact .plain (fun _ => rfl) (fun _ => trivial) h
    · exact .idle h

theorem injectRx_kept (frame : Bytes) (l : Loop VirtioDevice) : Kept l (injectRx frame l).1 := by
  obtain ⟨dev, vq, mem⟩ := l
  cases dev with
  | net dev => exact ⟨Along.injectRx dev vq mem frame, rfl, fun _ => trivial⟩
  | _ => exact Kept.refl _

theorem injectInput_kept (events : List InputEvent) (l : Loop VirtioDevice) :
    Kept l (injectInput events l).1 := by
  obtain ⟨dev, vq, mem⟩ := l
  cases dev with
  | input dev => exact ⟨Along.fillEvents events ⟨dev, vq, mem⟩, rfl, fun _ => trivial⟩
  | _ => exact Kept.refl _

theorem fillRx_kept (h : fillRx fuel l = some r) : Kept l r.1 := by
  obtain ⟨dev, vq, mem⟩ := l
  cases dev with
  | vsock dev => exact .fillGuestRx h
  | _ => exact .idle h

/-! What the guest and the host set and what a snapshot brings leaves the kind of the device alone,
too. -/

theorem configWrite_evolves (dev : VirtioDevice) (offset : Nat) (data : Bytes) :
    Evolves dev (dev.configWrite offset data) := by
  cases dev with
  | gpu dev =>
    refine ⟨rfl, fun h => ?_⟩
    dsimp only [configWrite, VirtioGpu.configWrite]
    split
    · exact ⟨h.size, h.scanout⟩
    · exact h
  | _ => exact ⟨rfl, fun h => h⟩

theorem acceptControl_evolves (dev : VirtioDevice) (fd : Nat) (stream : HostStream) :
    Evolves dev (dev.acceptControl fd stream) := by
  cases dev <;> exact ⟨rfl, fun h => h⟩

theorem setLink_evolves (dev : VirtioDevice) (up : Bool) : Evolves dev (dev.setLink up) := by
  cases dev <;> exact ⟨rfl, fun h => h⟩

theorem setDisplayMode_evolves (dev : VirtioDevice) (w h : Nat) :
    Evolves dev (dev.setDisplayMode w h).1 := by
  cases dev with
  | gpu dev => exact ⟨rfl, fun h => ⟨h.size, h.scanout⟩⟩
  | _ => exact ⟨rfl, fun h => h⟩

theorem setDisplayEnabled_evolves (dev : VirtioDevice) (en : Bool) :
    Evolves dev (dev.setDisplayEnabled en).1 := by
  cases dev with
  | gpu dev => exact ⟨rfl, fun h => ⟨h.size, h.scanout⟩⟩
  | _ => exact ⟨rfl, fun h => h⟩

theorem presentScanout_evolves (dev : VirtioDevice) (mem : GuestRam) :
    Evolves dev (dev.presentScanout mem) := by
  cases dev with
  | gpu dev => exact ⟨rfl, fun h => h.effect (VirtioGpu.presentScanout_effect dev mem)⟩
  | _ => exact ⟨rfl, fun h => h⟩

theorem restore_evolves {dev dev' : VirtioDevice} {v : Blob} (h : dev.restore v = .ok dev') :
    Evolves dev dev' := by
  have hmap : ∀ {δ : Type} {r : Except String δ} {box : δ → VirtioDevice},
      r.map box = .ok dev' → ∃ d, r = .ok d ∧ dev' = box d := by
    intro δ r box hr
    cases r with
    | error e => cases hr
    | ok d => exact ⟨d, rfl, (Except.ok.inj hr).symm⟩
  cases dev with
  | vsock dev | balloon dev | input dev =>
    obtain ⟨d, -, rfl⟩ := hmap h
    exact ⟨rfl, fun h => h⟩
  | gpu dev =>
    obtain ⟨d, hd, rfl⟩ := hmap h
    exact ⟨rfl, fun _ => .of_restore hd⟩
  | blk dev | net dev | rng dev => exact (Except.ok.inj h) ▸ .refl _

end VirtioDevice

end Ignition.Devices
