import Ignition.Devices.GpuTable
import Ignition.Devices.MmioRuns

/-!
# A restore that fails

`VirtioMmio::restore` on any JSON value. The registers and the queues are decoded by serde, which is
a parameter here, and what is left for the device is a value it looks into itself. The transport
writes its registers before the device has seen that value, and an input device takes over `select`
before it looks for `subsel`, so that an error need not leave things as they were
(`failed_restore_keeps_iff`).
-/

namespace Ignition.Devices

open Json

/-- `VirtioInput::restore`, with the device as it leaves it. -/
def VirtioInput.restoreJson (input : VirtioInput) (v : Value) : VirtioInput × Except String Unit :=
  match v.u64Field "select" "input: missing select" with
  | .error msg => (input, .error msg)
  | .ok select =>
    let input' := { input with select := UInt8.ofNat select }
    match v.u64Field "subsel" "input: missing subsel" with
    | .error msg => (input', .error msg)
    | .ok subsel => ({ input' with subsel := UInt8.ofNat subsel }, .ok ())

def Balloon.restoreJson (b : Balloon) (v : Value) : Balloon × Except String Unit :=
  match v.u64Field "num_pages" "balloon: missing num_pages" with
  | .error msg => (b, .error msg)
  | .ok numPages =>
    match v.u64Field "actual" "balloon: missing actual" with
    | .error msg => (b, .error msg)
    | .ok actual => (⟨UInt32.ofNat numPages, UInt32.ofNat actual⟩, .ok ())

/-- One connection in `VsockDevice::restore`. -/
def connOf (pair : Value) : Except String ConnKey :=
  match pair.asArray with
  | some [g, h] =>
    match g.asU64 with
    | none => .error "vsock: bad guest_port"
    | some g =>
      match h.asU64 with
      | none => .error "vsock: bad host_port"
      | some h => .ok (UInt32.ofNat g, UInt32.ofNat h)
  | _ => .error "vsock: conn not a pair"

def VsockDevice.restoreJson (dev : VsockDevice) (v : Value) : VsockDevice × Except String Unit :=
  match v.arrayField "conns" "vsock: missing conns array" with
  | .error msg => (dev, .error msg)
  | .ok conns =>
    match conns.mapM connOf with
    | .error msg => (dev, .error msg)
    | .ok keys => (⟨dev.muxer.seedRst keys⟩, .ok ())

namespace VirtioDevice

def restoreJson (v : Value) : VirtioDevice → VirtioDevice × Except String Unit
  | .vsock dev => (dev.restoreJson v).map .vsock id
  | .gpu dev => (dev.restoreJson v).map .gpu id
  | .balloon dev => (dev.restoreJson v).map .balloon id
  | .input dev => (dev.restoreJson v).map .input id
  | dev => (dev, .ok ())

/-- The `select` of the value, if it has one, is the one that an input device is at. -/
def Selected (v : Value) : VirtioDevice → Prop
  | .input dev => ∀ n, (v.get "select").bind Value.asU64 = some n → UInt8.ofNat n = dev.select
  | _ => True

theorem kept_iff_selected {v : Value} {dev : VirtioDevice} {msg : String}
    (h : (dev.restoreJson v).2 = .error msg) : (dev.restoreJson v).1 = dev ↔ dev.Selected v := by
  cases dev with
  | input dev =>
    dsimp only [restoreJson, VirtioInput.restoreJson, Selected, Value.u64Field] at h ⊢
    cases hsel : (v.get "select").bind Value.asU64 with
    | none => exact ⟨fun _ _ hn => (nomatch hn), fun _ => rfl⟩
    | some n =>
      rw [hsel] at h
      cases hsub : (v.get "subsel").bind Value.asU64 with
      | some m =>
        rw [hsub] at h
        cases h
      | none =>
        refine ⟨fun hdev _ hn => ?_, fun hdev => ?_⟩
        · cases hn
          exact congrArg VirtioInput.select (VirtioDevice.input.inj hdev)
        · show VirtioDevice.input { dev with select := UInt8.ofNat n } = .input dev
          rw [hdev n rfl]
  | gpu dev =>
    refine iff_of_true ?_ trivial
    rcases dev.restoreJson_cases v with ⟨msg', hv⟩ | ⟨_, _, hv, -⟩
    · exact congrArg (fun r => VirtioDevice.gpu r.1) hv
    · have hok : (dev.restoreJson v).2 = .error msg := h
      rw [hv] at hok
      cases hok
  | balloon dev =>
    refine iff_of_true ?_ trivial
    dsimp only [restoreJson, Balloon.restoreJson] at h ⊢
    split
    · rfl
    next hpages =>
      split
      · rfl
      next hactual =>
        rw [hpages, hactual] at h
        cases h
  | vsock dev =>
    refine iff_of_true ?_ trivial
    dsimp only [restoreJson, VsockDevice.restoreJson] at h ⊢
    split
    · rfl
    next hconns =>
      split
      · rfl
      next hkeys =>
        rw [hconns] at h
        dsimp only at h
        rw [hkeys] at h
        cases h
  | _ => cases h

end VirtioDevice

/-- A `VirtioMmioState` as serde decodes it. The value of the device stands beside the record. -/
structure Decoded where
  transport : VirtioMmioState
  dev : Value

namespace VirtioMmio

/-- `VirtioMmio::restore`. -/
def restoreJson (decode : Value → Except String Decoded) (t : VirtioMmio) (v : Value) :
    VirtioMmio × Option StateInvalid :=
  match decode v with
  | .error reason => (t, some ⟨t.id, reason⟩)
  | .ok s =>
    if s.transport.queues.length ≠ t.queues.length then
      (t, some ⟨t.id, "queue count " ++ toString s.transport.queues.length ++ " != " ++
        toString t.queues.length⟩)
    else
      let t' := t.restoreState s.transport
      match t'.dev.restoreJson s.dev with
      | (dev, .error reason) => ({ t' with dev := dev }, some ⟨t.id, reason⟩)
      | (dev, .ok ()) => ({ t' with dev := dev }, none)

def Holds (t : VirtioMmio) (s : VirtioMmioState) : Prop :=
  s.queues.map QueueSnapshot.restored = t.queues ∧ s.status = t.status ∧
    s.deviceFeaturesSel = t.deviceFeaturesSel ∧ s.queueSel = t.queueSel ∧
      s.interruptStatus = t.interruptStatus

theorem restoreState_eq_iff {t : VirtioMmio} {s : VirtioMmioState} {dev : VirtioDevice}
    (h : s.queues.length = t.queues.length) :
    { t.restoreState s with dev := dev } = t ↔ t.Holds s ∧ dev = t.dev := by
  obtain ⟨id, dev', mem, irq, queues, status, features, sel, interrupt⟩ := t
  simp only [restoreState, Holds, restoreQueues_eq_map h, mk.injEq, true_and]
  exact and_comm

/-- **A restore that fails changes nothing if and only if** the value does not decode or has another
number of queues, or what is written before the device turns it down was there already. -/
theorem failed_restore_keeps_iff (decode : Value → Except String Decoded) (t : VirtioMmio)
    (v : Value) {e : StateInvalid} (h : (t.restoreJson decode v).2 = some e) :
    (t.restoreJson decode v).1 = t ↔
      ∀ s, decode v = .ok s → s.transport.queues.length = t.queues.length →
        t.Holds s.transport ∧ t.dev.Selected s.dev := by
  revert h
  unfold restoreJson
  cases decode v with
  | error reason => exact fun _ => ⟨fun _ _ hs => (nomatch hs), fun _ => rfl⟩
  | ok s =>
    intro h
    dsimp only at h ⊢
    by_cases hlen : s.transport.queues.length ≠ t.queues.length
    · rw [if_pos hlen]
      refine ⟨fun _ s' hs hlen' => absurd hlen' ?_, fun _ => rfl⟩
      cases hs
      exact hlen
    rw [if_neg hlen] at h ⊢
    have hdev : (t.restoreState s.transport).dev = t.dev := rfl
    rw [hdev] at h ⊢
    rcases hr : t.dev.restoreJson s.dev with ⟨dev, reason | ok⟩
    · have hkept := VirtioDevice.kept_iff_selected (congrArg Prod.snd hr)
      rw [hr] at hkept
      rw [restoreState_eq_iff (not_not.mp hlen), hkept]
      refine ⟨fun hs s' hs' _ => ?_, fun hs => hs s rfl (not_not.mp hlen)⟩
      cases hs'
      exact hs
    · rw [hr] at h
      cases h

def recordOf (status : UInt32) (dev : Value) : Decoded :=
  ⟨{ keyboard.saveState with status := status }, dev⟩

theorem failed_restore_keeps_keyboard :
    (keyboard.restoreJson (fun v => .ok (recordOf 0 v)) (.object [("select", .ofNat 0)])).1 =
      keyboard := by
  refine (failed_restore_keeps_iff _ _ _ rfl).mpr fun s hs _ => ?_
  cases hs
  refine ⟨⟨rfl, rfl, rfl, rfl, rfl⟩, fun n hn => ?_⟩
  cases hn
  rfl

theorem failed_restore_changes_status :
    (keyboard.restoreJson (fun v => .ok (recordOf 15 v)) .null).2 =
        some ⟨"virtio-input", "input: missing select"⟩ ∧
      keyboard.status = 0 ∧
      (keyboard.restoreJson (fun v => .ok (recordOf 15 v)) .null).1.status = 15 :=
  ⟨rfl, rfl, rfl⟩

end VirtioMmio

end Ignition.Devices
