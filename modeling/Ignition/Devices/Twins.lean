import Ignition.Base.Answers
import Ignition.Devices.MmioRuns

/-!
# What the guest cannot see of a device

Some of what a device keeps goes to the host only: the network device counts the frames it
dropped and hands over those it sent, the GPU hands its frames to the sink. Nothing of it comes
back in a configuration space, in a response, or in the bytes of a used buffer. So two transports
that differ in nothing else answer alike, whatever is done to them (`Twin.respond`), and the
interrupt line may differ as well (`Lookalike.respond`).

The proof follows the code: what a service does to one chain is the same on both sides
(`Service.Respects`), hence what a draining loop does, hence what the transport does around it.
-/

namespace Ignition.Devices

open Paged Ignition.Vmm Answers

/-! ## Loops over devices that are alike -/

/-- Two loops at the same point of the same queue and RAM. -/
structure Loop.Like {δ : Type} (R : δ → δ → Prop) (l l' : Loop δ) : Prop where
  dev : R l.dev l'.dev
  vq : l'.vq = l.vq
  mem : l'.mem = l.mem

section

variable {δ : Type} {R : δ → δ → Prop} {service : Service δ}

/-- What a service does to RAM and reports does not depend on what `R` leaves open. -/
def Service.Respects (service : Service δ) (R : δ → δ → Prop) : Prop :=
  ∀ dev dev' mem chain, R dev dev' →
    R (service dev mem chain).dev (service dev' mem chain).dev ∧
      (service dev' mem chain).mem = (service dev mem chain).mem ∧
      (service dev' mem chain).len = (service dev mem chain).len

theorem acknowledge_respects (R : δ → δ → Prop) : Service.Respects acknowledge R :=
  fun _ _ _ _ h => ⟨h, rfl, rfl⟩

theorem Loop.Like.serve {l l' : Loop δ} (h : Loop.Like R l l') (hserv : Service.Respects service R)
    (vq : Virtqueue) (chain : DescChain) :
    Loop.Like R (Devices.serve service l vq chain) (Devices.serve service l' vq chain) := by
  obtain ⟨hdev, hmem, hlen⟩ := hserv l.dev l'.dev l.mem chain h.dev
  unfold Devices.serve
  dsimp only
  rw [h.mem, hmem, hlen]
  exact ⟨hdev, rfl, rfl⟩

theorem Loop.Like.drain (hserv : Service.Respects service R) (fuel : Nat) :
    ∀ {l l' : Loop δ}, Loop.Like R l l' →
      Matched (Loop.Like R) ((Devices.drain service fuel l).map Prod.swap)
        ((Devices.drain service fuel l').map Prod.swap) := by
  induction fuel with
  | zero => exact fun _ => .stuck
  | succ fuel ih =>
    intro l l' h
    have hpop : l'.vq.popAvail l'.mem = l.vq.popAvail l.mem := by rw [h.vq, h.mem]
    unfold Devices.drain Devices.round
    rw [hpop]
    -- the queue is the same on both sides, and with it the chain
    obtain ⟨vq, chain⟩ := l.vq.popAvail l.mem
    cases chain with
    | none => exact .both ⟨h.dev, rfl, h.mem⟩ []
    | some chain =>
      have hrest := (ih (h.serve hserv vq chain)).map (f := fun l _ => l) (k := fun l _ => l)
        (g := (chain :: ·)) fun _ _ _ hl => hl
      dsimp only
      rw [Option.map_map, Option.map_map] at hrest ⊢
      exact hrest

theorem Loop.Like.drained (hserv : Service.Respects service R) (fuel : Nat) {l l' : Loop δ}
    (h : Loop.Like R l l') :
    Matched (Loop.Like R) (Devices.drained service fuel l) (Devices.drained service fuel l') := by
  have hdrain := (h.drain hserv fuel).map (f := fun l _ => l) (k := fun l _ => l)
    (g := fun cs => !cs.isEmpty) fun _ _ _ hl => hl
  rw [Option.map_map, Option.map_map] at hdrain
  exact hdrain

end

/-! ## The network device -/

namespace VirtioNet

def Alike (net net' : VirtioNet) : Prop :=
  ∃ dropped sent, net' = { net with droppedRx := dropped, sent := sent }

theorem transmit_respects : Service.Respects transmit Alike := by
  rintro net _ mem chain ⟨dropped, sent, rfl⟩
  unfold transmit
  split
  · split
    · exact ⟨⟨_, _, rfl⟩, rfl, rfl⟩
    · exact ⟨⟨dropped, sent, rfl⟩, rfl, rfl⟩
  · exact ⟨⟨dropped, sent, rfl⟩, rfl, rfl⟩

theorem receive_respects (frame : Bytes) : Service.Respects (receive frame) Alike :=
  fun _ _ _ _ h => ⟨h, rfl, rfl⟩

theorem injectRx_alike {net net' : VirtioNet} (h : Alike net net') (vq : Virtqueue)
    (mem : GuestRam) (frame : Bytes) :
    Loop.Like Alike (net.injectRx vq mem frame).1 (net'.injectRx vq mem frame).1 ∧
      (net'.injectRx vq mem frame).2 = (net.injectRx vq mem frame).2 := by
  unfold injectRx
  split
  · obtain ⟨dropped, sent, rfl⟩ := h
    exact ⟨⟨⟨_, _, rfl⟩, rfl, rfl⟩, rfl⟩
  next vq' chain _ =>
    have hlike : Loop.Like Alike ⟨net, vq', mem⟩ ⟨net', vq', mem⟩ := ⟨h, rfl, rfl⟩
    exact ⟨hlike.serve (receive_respects frame) vq' chain, rfl⟩

end VirtioNet

/-! ## The GPU -/

namespace VirtioGpu

def Alike (gpu gpu' : VirtioGpu) : Prop := ∃ presented, gpu' = { gpu with presented := presented }

def Answers (r r' : VirtioGpu × Bytes) : Prop := Alike r.1 r'.1 ∧ r'.2 = r.2

section

variable {gpu gpu' : VirtioGpu} (h : Alike gpu gpu') (body : Bytes) (mem : GuestRam)
  (fence ctx : Nat)

include h

theorem command_answers (cmd : Nat) :
    Answers (gpu.command cmd body mem fence ctx) (gpu'.command cmd body mem fence ctx) := by
  obtain ⟨presented, rfl⟩ := h
  obtain ⟨f, hf, heq⟩ := command_handler body mem fence ctx cmd
  rw [heq, heq]
  cases hf with
  | displayInfo | unknown => exact ⟨⟨presented, rfl⟩, rfl⟩
  | setScanout =>
    unfold setScanout resource
    split
    · exact ⟨⟨presented, rfl⟩, rfl⟩
    dsimp only
    split <;> exact ⟨⟨presented, rfl⟩, rfl⟩
  | create2d | unref | attachBacking | detachBacking | transfer2d | flush =>
    dsimp only [create2d, unref, attachBacking, detachBacking, transfer2d, flush, resource]
    repeat' split
    all_goals exact ⟨⟨_, rfl⟩, rfl⟩

omit body fence ctx in
theorem dispatch_answers (req : Bytes) : Answers (gpu.dispatch req mem) (gpu'.dispatch req mem) := by
  unfold dispatch
  split
  · exact ⟨h, rfl⟩
  obtain ⟨hdev, hresp⟩ := command_answers h (req.drop CTRL_HDR_LEN) mem (le64 req 8)
    (le32 req 16) (le32 req 0)
  dsimp only
  rw [hresp]
  split <;> exact ⟨hdev, rfl⟩

omit body fence ctx in
theorem presentScanout_alike : Alike (gpu.presentScanout mem) (gpu'.presentScanout mem) := by
  obtain ⟨presented, rfl⟩ := h
  dsimp only [presentScanout, resource]
  repeat' split
  all_goals exact ⟨_, rfl⟩

end

theorem control_respects : Service.Respects control Alike := by
  intro gpu gpu' mem chain h
  unfold control
  cases chain.read mem MAX_REQUEST_BYTES with
  | none => exact ⟨h, rfl, rfl⟩
  | some req =>
    obtain ⟨hdev, hresp⟩ := dispatch_answers h mem req
    dsimp only
    rw [hresp]
    exact ⟨hdev, rfl, rfl⟩

end VirtioGpu

/-! ## All devices -/

namespace VirtioDevice

/-- The same device, but for what only the host sees. -/
inductive Alike : VirtioDevice → VirtioDevice → Prop where
  | same (dev : VirtioDevice) : Alike dev dev
  | net {net net' : VirtioNet} (h : net.Alike net') : Alike (.net net) (.net net')
  | gpu {gpu gpu' : VirtioGpu} (h : gpu.Alike gpu') : Alike (.gpu gpu) (.gpu gpu')

variable {dev dev' : VirtioDevice}

theorem Alike.deviceId (h : Alike dev dev') : dev'.deviceId = dev.deviceId := by
  cases h <;> rfl

theorem Alike.deviceFeatures (h : Alike dev dev') (sel : UInt32) :
    dev'.deviceFeatures sel = dev.deviceFeatures sel := by
  cases h <;> rfl

theorem Alike.configRead (h : Alike dev dev') (offset : Nat) (data : Bytes) :
    dev'.configRead offset data = dev.configRead offset data := by
  cases h with
  | same => rfl
  | net h =>
    obtain ⟨_, _, rfl⟩ := h
    rfl
  | gpu h =>
    obtain ⟨_, rfl⟩ := h
    rfl

theorem Alike.configWrite (h : Alike dev dev') (offset : Nat) (data : Bytes) :
    Alike (dev.configWrite offset data) (dev'.configWrite offset data) := by
  cases h with
  | same => exact .same _
  | net h => exact .net h
  | gpu h =>
    obtain ⟨presented, rfl⟩ := h
    refine .gpu ?_
    unfold VirtioGpu.configWrite
    split <;> exact ⟨presented, rfl⟩

theorem Alike.setLink (h : Alike dev dev') (up : Bool) : Alike (dev.setLink up) (dev'.setLink up) := by
  cases h with
  | same => exact .same _
  | net h =>
    obtain ⟨dropped, sent, rfl⟩ := h
    exact .net ⟨dropped, sent, rfl⟩
  | gpu h => exact .gpu h

theorem Alike.acceptControl (h : Alike dev dev') (fd : Nat) (stream : HostStream) :
    Alike (dev.acceptControl fd stream) (dev'.acceptControl fd stream) := by
  cases h with
  | same => exact .same _
  | net h => exact .net h
  | gpu h => exact .gpu h

theorem Alike.setDisplayMode (h : Alike dev dev') (width height : Nat) :
    Alike (dev.setDisplayMode width height).1 (dev'.setDisplayMode width height).1 ∧
      (dev'.setDisplayMode width height).2 = (dev.setDisplayMode width height).2 := by
  cases h with
  | same => exact ⟨.same _, rfl⟩
  | net h => exact ⟨.net h, rfl⟩
  | gpu h =>
    obtain ⟨presented, rfl⟩ := h
    exact ⟨.gpu ⟨presented, rfl⟩, rfl⟩

theorem Alike.setDisplayEnabled (h : Alike dev dev') (en : Bool) :
    Alike (dev.setDisplayEnabled en).1 (dev'.setDisplayEnabled en).1 ∧
      (dev'.setDisplayEnabled en).2 = (dev.setDisplayEnabled en).2 := by
  cases h with
  | same => exact ⟨.same _, rfl⟩
  | net h => exact ⟨.net h, rfl⟩
  | gpu h =>
    obtain ⟨presented, rfl⟩ := h
    exact ⟨.gpu ⟨presented, rfl⟩, rfl⟩

theorem Alike.presentScanout (h : Alike dev dev') (mem : GuestRam) :
    Alike (dev.presentScanout mem) (dev'.presentScanout mem) := by
  cases h with
  | same => exact .same _
  | net h => exact .net h
  | gpu h => exact .gpu (VirtioGpu.presentScanout_alike h mem)

theorem Alike.restore (h : Alike dev dev') (v : Blob) :
    (∃ e, dev.restore v = .error e ∧ dev'.restore v = .error e) ∨
      ∃ d d', dev.restore v = .ok d ∧ dev'.restore v = .ok d' ∧ Alike d d' := by
  cases h with
  | same =>
    cases hr : dev.restore v with
    | error e => exact .inl ⟨e, rfl, rfl⟩
    | ok d => exact .inr ⟨d, d, rfl, rfl, .same d⟩
  | net h => exact .inr ⟨_, _, rfl, rfl, .net h⟩
  | gpu h =>
    obtain ⟨presented, rfl⟩ := h
    cases v with
    | gpu es scanoutRes =>
      dsimp only [VirtioDevice.restore, VirtioGpu.restore]
      split
      next e _ => exact .inl ⟨e, rfl, rfl⟩
      split
      · exact .inl ⟨_, rfl, rfl⟩
      · exact .inr ⟨_, _, rfl, rfl, .gpu ⟨presented, rfl⟩⟩
    | null | input | balloon | vsock => exact .inl ⟨_, rfl, rfl⟩

theorem Alike.boxed {δ : Type} {R : δ → δ → Prop} {service : Service δ} {box : δ → VirtioDevice}
    (hserv : Service.Respects service R) (hbox : ∀ d d', R d d' → Alike (box d) (box d'))
    (fuel : Nat) {l l' : Loop δ} (h : Loop.Like R l l') :
    Matched (Loop.Like Alike) ((Devices.drained service fuel l).map (VirtioDevice.boxed box))
      ((Devices.drained service fuel l').map (VirtioDevice.boxed box)) :=
  (h.drained hserv fuel).map (f := fun l _ => l.over (box l.dev))
    (k := fun l _ => l.over (box l.dev)) (g := id)
    fun _ _ _ hm => ⟨hbox _ _ hm.dev, hm.vq, hm.mem⟩

theorem like_refl (l : Loop VirtioDevice) : Loop.Like Alike l l := ⟨.same l.dev, rfl, rfl⟩

variable {l l' : Loop VirtioDevice}

theorem like_cases (work : Loop VirtioDevice → Option (Loop VirtioDevice × Bool))
    (h : Loop.Like Alike l l')
    (hnet : ∀ net net' vq mem, VirtioNet.Alike net net' →
      Matched (Loop.Like Alike) (work ⟨.net net, vq, mem⟩) (work ⟨.net net', vq, mem⟩))
    (hgpu : ∀ gpu gpu' vq mem, VirtioGpu.Alike gpu gpu' →
      Matched (Loop.Like Alike) (work ⟨.gpu gpu, vq, mem⟩) (work ⟨.gpu gpu', vq, mem⟩)) :
    Matched (Loop.Like Alike) (work l) (work l') := by
  obtain ⟨dev, vq, mem⟩ := l
  obtain ⟨dev', vq', mem'⟩ := l'
  obtain ⟨hdev, rfl, rfl⟩ := h
  cases hdev with
  | same => exact .refl like_refl _
  | net h => exact hnet _ _ _ _ h
  | gpu h => exact hgpu _ _ _ _ h

theorem handleNotify_alike (h : Loop.Like Alike l l') (fuel idx : Nat) :
    Matched (Loop.Like Alike) (handleNotify fuel idx l) (handleNotify fuel idx l') := by
  refine like_cases (handleNotify fuel idx) h (fun _ _ _ _ h => ?_) fun _ _ _ _ h => ?_
  · dsimp only [handleNotify]
    split
    · exact Alike.boxed VirtioNet.transmit_respects (fun _ _ => .net) fuel ⟨h, rfl, rfl⟩
    · exact .both ⟨.net h, rfl, rfl⟩ false
  · dsimp only [handleNotify]
    split
    · exact Alike.boxed (acknowledge_respects VirtioGpu.Alike) (fun _ _ => .gpu) fuel ⟨h, rfl, rfl⟩
    · exact Alike.boxed VirtioGpu.control_respects (fun _ _ => .gpu) fuel ⟨h, rfl, rfl⟩

theorem injectRx_alike (h : Loop.Like Alike l l') (frame : Bytes) :
    Matched (Loop.Like Alike) (some (injectRx frame l)) (some (injectRx frame l')) := by
  refine like_cases (fun l => some (injectRx frame l)) h (fun _ _ vq mem h => ?_)
    fun _ _ _ _ h => .both ⟨.gpu h, rfl, rfl⟩ false
  obtain ⟨hlike, hused⟩ := VirtioNet.injectRx_alike h vq mem frame
  dsimp only [injectRx, VirtioDevice.boxed]
  rw [hused]
  exact .both ⟨.net hlike.dev, hlike.vq, hlike.mem⟩ _

theorem injectInput_alike (h : Loop.Like Alike l l') (events : List InputEvent) :
    Matched (Loop.Like Alike) (some (injectInput events l)) (some (injectInput events l')) :=
  like_cases (fun l => some (injectInput events l)) h
    (fun _ _ _ _ h => .both ⟨.net h, rfl, rfl⟩ false) fun _ _ _ _ h => .both ⟨.gpu h, rfl, rfl⟩ false

theorem fillRx_alike (h : Loop.Like Alike l l') (fuel : Nat) :
    Matched (Loop.Like Alike) (fillRx fuel l) (fillRx fuel l') :=
  like_cases (fillRx fuel) h (fun _ _ _ _ h => .both ⟨.net h, rfl, rfl⟩ false)
    fun _ _ _ _ h => .both ⟨.gpu h, rfl, rfl⟩ false

end VirtioDevice

/-! ## Transports -/

namespace VirtioMmio

def Twin (t t' : VirtioMmio) : Prop := ∃ dev, t' = { t with dev := dev } ∧ t.dev.Alike dev

variable {t t' : VirtioMmio} {fuel : Nat}

theorem Twin.serveQueue (h : Twin t t') (idx : Nat)
    {work : Loop VirtioDevice → Option (Loop VirtioDevice × Bool)}
    (hwork : ∀ l l', Loop.Like VirtioDevice.Alike l l' →
      Matched (Loop.Like VirtioDevice.Alike) (work l) (work l')) :
    Matched Twin (t.serveQueue idx work) (t'.serveQueue idx work) := by
  obtain ⟨dev, rfl, hdev⟩ := h
  unfold VirtioMmio.serveQueue
  dsimp only
  split
  · exact .both ⟨dev, rfl, hdev⟩ false
  split
  · exact .both ⟨dev, rfl, hdev⟩ false
  split
  · exact .both ⟨dev, rfl, hdev⟩ false
  rename_i vq _
  refine (hwork ⟨t.dev, vq, t.mem⟩ ⟨dev, vq, t.mem⟩ ⟨hdev, rfl, rfl⟩).map (g := fun b => b) ?_
  intro l l' used hl
  unfold VirtioMmio.served
  rw [hl.vq, hl.mem]
  cases used with
  | false | true => exact ⟨l'.dev, rfl, hl.dev⟩

theorem Twin.read (h : Twin t t') (off : Nat) (data : Bytes) : t'.read off data = t.read off data := by
  obtain ⟨dev, rfl, hdev⟩ := h
  have hreg : ({ t with dev := dev } : VirtioMmio).readReg off = t.readReg off := by
    unfold VirtioMmio.readReg
    split
    case h_3 => exact hdev.deviceId
    case h_5 =>
      rw [hdev.deviceFeatures, hdev.deviceFeatures]
    all_goals rfl
  unfold VirtioMmio.read
  rw [hreg, hdev.configRead]

theorem Twin.writeReg (h : Twin t t') (off : Nat) (val : UInt32) :
    Matched Twin ((t.writeReg fuel off val).map fun t => (t, Answer.done))
      ((t'.writeReg fuel off val).map fun t => (t, Answer.done)) := by
  unfold VirtioMmio.writeReg
  split
  case h_5 =>
    have hserved := h.serveQueue val.toNat fun _ _ hl =>
      VirtioDevice.handleNotify_alike hl fuel val.toNat
    unfold VirtioMmio.notify
    rw [Option.map_map, Option.map_map]
    exact hserved.map (f := fun t _ => t) (k := fun t _ => t) (g := fun _ => Answer.done)
      fun _ _ _ hu => hu
  all_goals obtain ⟨dev, rfl, hdev⟩ := h
  case h_7 =>
    refine .both ?_ _
    unfold VirtioMmio.setStatus
    split <;> exact ⟨dev, rfl, hdev⟩
  -- the other registers are no matter of the device
  all_goals exact .both ⟨dev, rfl, hdev⟩ _

theorem Twin.displaySet (h : Twin t t') {set : VirtioDevice → VirtioDevice × Bool}
    (hset : ∀ dev dev', VirtioDevice.Alike dev dev' →
      VirtioDevice.Alike (set dev).1 (set dev').1 ∧ (set dev').2 = (set dev).2) :
    Twin (t.displaySet set) (t'.displaySet set) := by
  obtain ⟨dev, rfl, hdev⟩ := h
  obtain ⟨halike, hhandled⟩ := hset _ _ hdev
  unfold VirtioMmio.displaySet
  dsimp only
  rw [hhandled]
  split <;> exact ⟨_, rfl, halike⟩

/-- **Transports around devices that are alike answer alike.** -/
theorem Twin.respond (h : Twin t t') (a : Action) :
    Matched Twin (t.respond fuel a) (t'.respond fuel a) := by
  cases a with
  | read offset data =>
    dsimp only [VirtioMmio.respond]
    rw [h.read]
    exact .both h _
  | write offset data =>
    dsimp only [VirtioMmio.respond, VirtioMmio.write]
    split
    · obtain ⟨dev, rfl, hdev⟩ := h
      exact .both ⟨_, rfl, hdev.configWrite _ data⟩ _
    split
    · exact h.writeReg offset _
    · exact .both h _
  | injectRx frame =>
    exact (h.serveQueue 0 fun _ _ hl => VirtioDevice.injectRx_alike hl frame).map fun _ _ _ hu => hu
  | injectInput events =>
    exact (h.serveQueue 0 fun _ _ hl => VirtioDevice.injectInput_alike hl events).map
      fun _ _ _ hu => hu
  | pollVsockRx =>
    exact (h.serveQueue 0 fun _ _ hl => VirtioDevice.fillRx_alike hl fuel).map fun _ _ _ hu => hu
  | store gpa data | signalConfigChange =>
    obtain ⟨dev, rfl, hdev⟩ := h
    exact .both ⟨dev, rfl, hdev⟩ _
  | acceptControl fd stream =>
    obtain ⟨dev, rfl, hdev⟩ := h
    exact .both ⟨_, rfl, hdev.acceptControl fd stream⟩ _
  | netSetLink up =>
    obtain ⟨dev, rfl, hdev⟩ := h
    exact .both ⟨_, rfl, hdev.setLink up⟩ _
  | displaySetMode width height =>
    exact .both (h.displaySet fun _ _ hd => hd.setDisplayMode width height) _
  | displaySetEnabled en =>
    exact .both (h.displaySet fun _ _ hd => hd.setDisplayEnabled en) _
  | presentScanout =>
    obtain ⟨dev, rfl, hdev⟩ := h
    exact .both ⟨_, rfl, hdev.presentScanout t.mem⟩ _
  | restore s =>
    obtain ⟨dev, rfl, hdev⟩ := h
    dsimp only [VirtioMmio.respond, VirtioMmio.restore, VirtioMmio.restoreState]
    split
    · exact .both ⟨dev, rfl, hdev⟩ _
    rcases hdev.restore s.dev with ⟨e, hd, hd'⟩ | ⟨d, d', hd, hd', halike⟩
    · rw [hd, hd']
      exact .both ⟨dev, rfl, hdev⟩ _
    · rw [hd, hd']
      exact .both ⟨d', rfl, halike⟩ _

def Lookalike (t t' : VirtioMmio) : Prop :=
  ∃ irq dev, t' = { t with irq := irq, dev := dev } ∧ t.dev.Alike dev

/-- **Nor does any answer depend on the line.** -/
theorem Lookalike.respond (h : Lookalike t t') (a : Action) :
    Matched Lookalike (t.respond fuel a) (t'.respond fuel a) := by
  obtain ⟨irq, dev, rfl, hdev⟩ := h
  -- first the line, then the device
  have hline : VirtioMmio.Alike ⟨false, true, true⟩ t { t with irq := irq } :=
    ⟨irq, t.queueSel, t.deviceFeaturesSel, rfl, fun h => (nomatch h), fun _ => rfl, fun _ => rfl⟩
  have htwin : Twin { t with irq := irq } { t with irq := irq, dev := dev } := ⟨dev, rfl, hdev⟩
  refine ((hline.respond ⟨fun _ => rfl, fun _ => rfl⟩).trans (htwin.respond a)).imp ?_
  rintro u u'' ⟨u', ⟨irq', q, f, rfl, -, hq, hf⟩, dev', rfl, hdev'⟩
  rw [hq rfl, hf rfl]
  exact ⟨irq', dev', rfl, hdev'⟩

end VirtioMmio

end Ignition.Devices
