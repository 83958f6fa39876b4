import Ignition.Base.Answers
import Ignition.Base.Run
import Ignition.Devices.Mmio

/-!
# Runs of the transport

What every action can do to a transport is said once (`Effect`, `step_effect`). From that:

- The interrupt line follows `InterruptStatus` along every run (`line_follows_status`), except
  that restoring a snapshot sets the status and not the line (`restore_leaves_line`).
- A queue that is ready is the one its registers describe, if these are left alone while it is
  (`Coherent`). Then a new transport that gets the saved state of another one answers like it
  (`restored_answers`). If they are not, the snapshot has other rings than the device works on
  (`restore_moves_rings`).

Resetting the device through `Status` gives back a new transport, up to the two selectors and with
the device inside as it is (`reset_answers`, `reset_keeps_device`).
-/

namespace Ignition.Devices.VirtioMmio

open Paged Ignition.Vmm Runs Answers List Option

/-! ## What an action does -/

def ringRegisters : List Nat := [0x038, 0x080, 0x084, 0x090, 0x094, 0x0a0, 0x0a4]

/-- What an action does to the transport. -/
inductive Effect (t : VirtioMmio) (a : Action) : VirtioMmio → Prop where
  | program {off : Nat} {data : Bytes} {f : QueueState → QueueState} (ha : a = .write off data)
      (hlen : data.length = 4) (hoff : off ∈ ringRegisters)
      (hf : ∀ q, (f q).ready = q.ready ∧ (f q).vq = q.vq) : Effect t a (t.modifySel f)
  | setReady (val : UInt32) : Effect t a (t.modifySel (.setReady val))
  | acknowledge (val : UInt32) : Effect t a (t.acknowledge val)
  | setStatus (val : UInt32) : Effect t a (t.setStatus val)
  | select (queueSel featuresSel : UInt32) :
      Effect t a { t with queueSel := queueSel, deviceFeaturesSel := featuresSel }
  | served {idx : Nat} {q : QueueState} {vq : Virtqueue} {l : Loop VirtioDevice} (used : Bool)
      (hq : t.queues[idx]? = some q) (hready : q.ready ≠ 0) (hvq : q.vq = some vq)
      (hkept : VirtioDevice.Kept ⟨t.dev, vq, t.mem⟩ l) : Effect t a (t.served idx l used)
  | host {dev : VirtioDevice} (mem : GuestRam) (hdev : t.dev.Evolves dev) :
      Effect t a { t with dev := dev, mem := mem }
  | signal {dev : VirtioDevice} (hdev : t.dev.Evolves dev) :
      Effect t a { t with dev := dev }.signalConfigChange
  | restore {s : VirtioMmioState} (ha : a = .restore s) : Effect t a (t.restore s).1

variable {t t' : VirtioMmio} {a : Action} {fuel : Nat}

theorem Effect.idle (t : VirtioMmio) (a : Action) : Effect t a t := .host t.mem (.refl t.dev)

theorem serveQueue_effect {idx : Nat} {work : Loop VirtioDevice → Option (Loop VirtioDevice × Bool)}
    (hwork : ∀ l r, work l = some r → VirtioDevice.Kept l r.1) {r : VirtioMmio × Bool}
    (h : t.serveQueue idx work = some r) (a : Action) : Effect t a r.1 := by
  unfold serveQueue at h
  split at h
  · cases h
    exact .idle t a
  rename_i q hq
  split at h
  · cases h
    exact .idle t a
  rename_i hready
  split at h
  · cases h
    exact .idle t a
  next vq hvq =>
    obtain ⟨r', hr', rfl⟩ := map_eq_some_iff.mp h
    exact .served r'.2 hq hready hvq (hwork _ _ hr')

variable {off : Nat} {data : Bytes} {k : Known}

theorem writeReg_effect {val : UInt32} (hlen : data.length = 4)
    (h : t.writeReg fuel off val = some t') : Effect t (.write off data) t' := by
  unfold writeReg at h
  split at h
  case h_5 =>
    obtain ⟨r, hr, rfl⟩ := map_eq_some_iff.mp h
    exact serveQueue_effect (fun _ _ => VirtioDevice.handleNotify_kept) hr _
  all_goals cases h
  case h_1 => exact .select t.queueSel (val &&& 1)
  case h_2 => exact .select val t.deviceFeaturesSel
  case h_4 => exact .setReady val
  case h_6 => exact .acknowledge val
  case h_7 => exact .setStatus val
  case h_14 => exact .idle t _
  -- the seven that are left write a ring register
  all_goals exact .program rfl hlen (by decide) fun _ => ⟨rfl, rfl⟩

theorem displaySet_effect {set : VirtioDevice → VirtioDevice × Bool}
    (hdev : t.dev.Evolves (set t.dev).1) (a : Action) : Effect t a (t.displaySet set) := by
  dsimp only [displaySet]
  split
  · exact .signal hdev
  · exact .host t.mem hdev

theorem step_effect (h : t.step fuel a = some t') : Effect t a t' := by
  obtain ⟨r, hr, rfl⟩ := map_eq_some_iff.mp h
  cases a with
  | read offset data =>
    cases hr
    exact .idle t _
  | write offset data =>
    obtain ⟨t', ht', rfl⟩ := map_eq_some_iff.mp hr
    unfold write at ht'
    split at ht'
    · obtain rfl := some.inj ht'
      exact .host t.mem (t.dev.configWrite_evolves _ _)
    split at ht'
    next hlen => exact writeReg_effect hlen ht'
    · obtain rfl := some.inj ht'
      exact .idle t _
  | store gpa data =>
    cases hr
    exact .host _ (.refl t.dev)
  | injectRx frame =>
    obtain ⟨r', hr', rfl⟩ := map_eq_some_iff.mp hr
    exact serveQueue_effect (fun l _ hr => some.inj hr ▸ VirtioDevice.injectRx_kept frame l) hr' _
  | injectInput events =>
    obtain ⟨r', hr', rfl⟩ := map_eq_some_iff.mp hr
    exact serveQueue_effect (fun l _ hr => some.inj hr ▸ VirtioDevice.injectInput_kept events l)
      hr' _
  | pollVsockRx =>
    obtain ⟨r', hr', rfl⟩ := map_eq_some_iff.mp hr
    exact serveQueue_effect (fun _ _ => VirtioDevice.fillRx_kept) hr' _
  | acceptControl fd stream =>
    cases hr
    exact .host t.mem (t.dev.acceptControl_evolves fd stream)
  | signalConfigChange =>
    cases hr
    exact .signal (.refl t.dev)
  | netSetLink up =>
    cases hr
    exact .signal (t.dev.setLink_evolves up)
  | displaySetMode width height =>
    cases hr
    exact displaySet_effect (t.dev.setDisplayMode_evolves width height) _
  | displaySetEnabled en =>
    cases hr
    exact displaySet_effect (t.dev.setDisplayEnabled_evolves en) _
  | presentScanout =>
    cases hr
    exact .host t.mem (t.dev.presentScanout_evolves t.mem)
  | restore s =>
    cases hr
    exact .restore rfl

theorem restore_cases (t : VirtioMmio) (s : VirtioMmioState) :
    (t.restore s).1 = t ∨ s.queues.length = t.queues.length ∧
      ∃ dev, t.dev.Evolves dev ∧
        (t.restore s).1 = { t.restoreState s with dev := dev } := by
  unfold restore
  split
  · exact .inl rfl
  rename_i hlen
  refine .inr ⟨not_not.mp hlen, ?_⟩
  dsimp only
  split
  · exact ⟨t.dev, .refl t.dev, rfl⟩
  next dev hdev => exact ⟨dev, VirtioDevice.restore_evolves hdev, rfl⟩

/-! ## The interrupt line -/

def Level (t : VirtioMmio) : Prop := t.irq = true ↔ t.interruptStatus ≠ 0

def KeepsLevel (t : VirtioMmio) : Action → Prop
  | .restore s => s.queues.length = t.queues.length →
      (s.interruptStatus = 0 ↔ t.interruptStatus = 0)
  | _ => True

theorem Level.high {status : UInt32} (hstatus : status ≠ 0) (hirq : t.irq = true)
    (h : t.interruptStatus = status) : t.Level := by
  unfold Level
  rw [h]
  exact iff_of_true hirq hstatus

theorem or_ne_zero {x bits : UInt32} (hbits : bits ≠ 0) : x ||| bits ≠ 0 :=
  fun h => hbits (UInt32.or_eq_zero_iff.mp h).2

theorem Level.step (h : t.Level) (hok : t.KeepsLevel a) (hst : t.step fuel a = some t') :
    t'.Level := by
  cases step_effect hst with
  | program | setReady | select | host => exact h
  | acknowledge val =>
    unfold Level VirtioMmio.acknowledge
    dsimp only
    by_cases h0 : t.interruptStatus &&& ~~~val = 0
    · rw [if_pos h0, h0]
      exact iff_of_false Bool.false_ne_true fun hne => hne rfl
    rw [if_neg h0]
    -- a bit that is left was there before
    have hwas : t.interruptStatus ≠ 0 := by
      intro hzero
      rw [hzero, UInt32.zero_and] at h0
      exact h0 rfl
    exact iff_of_true (h.mpr hwas) h0
  | setStatus val =>
    unfold VirtioMmio.setStatus
    split
    · exact iff_of_false Bool.false_ne_true fun hne => hne rfl
    · exact h
  | @served idx q vq l used =>
    cases used with
    | false => exact h
    | true => exact .high (or_ne_zero (by decide)) rfl rfl
  | signal => exact .high (or_ne_zero (by decide)) rfl rfl
  | @restore s ha =>
    subst ha
    rcases t.restore_cases s with heq | ⟨hlen, dev, -, heq⟩
    · rw [heq]
      exact h
    · rw [heq]
      exact h.trans (not_congr (hok hlen).symm)

/-- **The line follows the status** in every run that restores snapshots only where the line is as
they say. -/
theorem line_follows_status {id : String} {dev : VirtioDevice} {mem : GuestRam} {as : List Action}
    (hrun : Run (step fuel) KeepsLevel (.new id dev mem) as t) :
    t.irq = true ↔ t.interruptStatus ≠ 0 := by
  have hlevel : t.Level := by
    refine hrun.invariant (fun _ _ _ h hok hst => Level.step h hok hst) ?_
    exact iff_of_false Bool.false_ne_true fun hne => hne rfl
  exact hlevel

def keyboard : VirtioMmio :=
  .new "virtio-input" (.input (.new .keyboard))
    ⟨0x40000000, List.replicate 64 0, GuestRam.bounded_blank⟩

theorem line_follows_status_acknowledged : ∃ t, Run (step 0) KeepsLevel keyboard
    [.signalConfigChange, .write 0x064 (leBytes 4 2), .restore keyboard.saveState] t ∧
      (t.irq = true ↔ t.interruptStatus ≠ 0) := by
  have hrun : Run (step 0) KeepsLevel keyboard
      [.signalConfigChange, .write 0x064 (leBytes 4 2), .restore keyboard.saveState] _ :=
    .cons trivial rfl (.cons trivial rfl (.cons (fun _ => iff_of_true rfl (by decide +kernel)) rfl
      (.nil _)))
  exact ⟨_, hrun, line_follows_status hrun⟩

/-- **A restore leaves the line high with nothing to report.** -/
theorem restore_leaves_line : ∃ t, Run (step 0) (fun _ _ => True) keyboard
    [.signalConfigChange, .restore keyboard.saveState] t ∧ t.irq = true ∧ t.interruptStatus = 0 :=
  ⟨_, .cons trivial rfl (.cons trivial rfl (.nil _)), rfl, rfl⟩

/-! ## Snapshots of a transport -/

def Coherent (q : QueueState) : Prop :=
  (q.ready = 0 ∧ q.vq = none) ∨
    (q.ready ≠ 0 ∧ ∃ last used, q.vq = some (q.rings.setIndices last used))

def LeavesRings (t : VirtioMmio) : Action → Prop
  | .write off data => data.length = 4 → off ∈ ringRegisters →
      ∀ q ∈ t.queues[t.queueSel.toNat]?, q.ready = 0
  | _ => True

instance (t : VirtioMmio) (a : Action) : Decidable (t.LeavesRings a) := by
  cases a <;> unfold LeavesRings <;> infer_instance

def Settled (t : VirtioMmio) : Prop := ∀ q ∈ t.queues, Coherent q

def Counted (t : VirtioMmio) : Prop := t.queues.length = t.dev.queueCount

theorem coherent_default : Coherent .default := Or.inl ⟨rfl, rfl⟩

theorem coherent_restored (s : QueueSnapshot) : Coherent s.restored := by
  unfold QueueSnapshot.restored
  split
  next hready => exact .inr ⟨hready, s.lastAvail, s.used, rfl⟩
  next hready => exact .inl ⟨not_not.mp hready, rfl⟩

theorem coherent_setReady (val : UInt32) (q : QueueState) : Coherent (q.setReady val) := by
  unfold QueueState.setReady
  split
  · exact .inr ⟨show (1 : UInt32) ≠ 0 by decide, 0, 0, rfl⟩
  · exact coherent_default

/-- **The snapshot of a coherent queue is all of it.** -/
theorem Coherent.restored_save {q : QueueState} (h : Coherent q) : q.save.restored = q := by
  obtain ⟨num, ready, descLo, descHi, driverLo, driverHi, deviceLo, deviceHi, vq⟩ := q
  rcases h with ⟨hready, hvq⟩ | ⟨hready, last, used, hvq⟩
  · dsimp only at hready hvq
    subst hready hvq
    rfl
  dsimp only [QueueState.rings] at hready hvq
  subst hvq
  unfold QueueSnapshot.restored QueueState.save
  dsimp only [QueueState.positions, map_some, getD_some]
  rw [if_pos hready]
  rfl

theorem forall_mem_modify {P : QueueState → Prop} {qs : List QueueState} {i : Nat}
    {f : QueueState → QueueState} (h : ∀ q ∈ qs, P q) (hf : ∀ q, qs[i]? = some q → P (f q)) :
    ∀ q ∈ qs.modify i f, P q := by
  intro q hq
  obtain ⟨j, hj⟩ := mem_iff_getElem?.mp hq
  rw [getElem?_modify] at hj
  obtain ⟨q', hq', rfl⟩ := map_eq_some_iff.mp hj
  split
  next hij =>
    subst hij
    exact hf q' hq'
  · exact h q' (mem_of_getElem? hq')

theorem length_restoreQueues : ∀ (qs : List QueueState) (ss : List QueueSnapshot),
    (restoreQueues qs ss).length = qs.length
  | _ :: qs, _ :: ss => congrArg Nat.succ (length_restoreQueues qs ss)
  | [], [] | [], _ :: _ | _ :: _, [] => rfl

theorem restoreQueues_eq_map : ∀ {qs : List QueueState} {ss : List QueueSnapshot},
    ss.length = qs.length → restoreQueues qs ss = ss.map QueueSnapshot.restored
  | [], [], _ => rfl
  | _ :: _, _ :: _, h => congrArg (_ :: ·) (restoreQueues_eq_map (Nat.succ.inj h))

theorem coherent_restoreQueues : ∀ {qs : List QueueState} {ss : List QueueSnapshot},
    (∀ q ∈ qs, Coherent q) → ∀ q ∈ restoreQueues qs ss, Coherent q
  | _ :: qs, s :: ss, h => by
    intro q hq
    rcases mem_cons.mp hq with rfl | hq
    · exact coherent_restored s
    · exact coherent_restoreQueues (fun q hq => h q (mem_cons_of_mem _ hq)) q hq
  | [], [], h | [], _ :: _, h | _ :: _, [], h => h

theorem served_queues (t : VirtioMmio) (idx : Nat) (l : Loop VirtioDevice) (used : Bool) :
    (t.served idx l used).queues = t.queues.modify idx fun q => { q with vq := some l.vq } := by
  cases used <;> rfl

theorem served_dev (t : VirtioMmio) (idx : Nat) (l : Loop VirtioDevice) (used : Bool) :
    (t.served idx l used).dev = l.dev := by
  cases used <;> rfl

/-- What becomes of a transport: it keeps its name and its queues, and its device stays of its
kind. -/
structure Evolves (t t' : VirtioMmio) : Prop where
  id : t'.id = t.id
  queues : t'.queues.length = t.queues.length
  dev : t.dev.Evolves t'.dev

theorem step_evolves (hst : t.step fuel a = some t') : Evolves t t' := by
  have hsame := VirtioDevice.Evolves.refl t.dev
  cases step_effect hst with
  | program | setReady => exact ⟨rfl, length_modify _ _ _, hsame⟩
  | acknowledge | select => exact ⟨rfl, rfl, hsame⟩
  | setStatus val =>
    unfold VirtioMmio.setStatus
    split
    · exact ⟨rfl, length_map _, hsame⟩
    · exact ⟨rfl, rfl, hsame⟩
  | @served idx q vq l used hq hready hvq hkept =>
    refine ⟨?_, ?_, ?_⟩
    · unfold served
      cases used <;> rfl
    · rw [served_queues, length_modify]
    · rw [served_dev]
      exact hkept.evolves
  | host mem hdev | signal hdev => exact ⟨rfl, rfl, hdev⟩
  | @restore s ha =>
    rcases t.restore_cases s with heq | ⟨-, dev, hdev, heq⟩
    · rw [heq]
      exact ⟨rfl, rfl, hsame⟩
    · rw [heq]
      exact ⟨rfl, length_restoreQueues _ _, hdev⟩

theorem Counted.step (h : t.Counted) (hst : t.step fuel a = some t') : t'.Counted := by
  obtain ⟨-, hqueues, hdev⟩ := step_evolves hst
  exact hqueues.trans (h.trans hdev.count.symm)

theorem Settled.step (h : t.Settled) (hok : t.LeavesRings a) (hst : t.step fuel a = some t') :
    t'.Settled := by
  cases step_effect hst with
  | @program off data f ha hlen hoff hf =>
    subst ha
    refine forall_mem_modify h fun q hq => ?_
    -- the queue is not ready, so it has no rings yet
    have hready := hok hlen hoff q hq
    rcases h q (mem_of_getElem? hq) with ⟨-, hvq⟩ | ⟨hne, -⟩
    · exact .inl ⟨(hf q).1.trans hready, (hf q).2.trans hvq⟩
    · exact absurd hready hne
  | setReady val => exact forall_mem_modify h fun q _ => coherent_setReady val q
  | acknowledge | select | host | signal => exact h
  | setStatus val =>
    unfold VirtioMmio.setStatus
    split
    · intro q hq
      obtain ⟨_, -, rfl⟩ := mem_map.mp hq
      exact coherent_default
    · exact h
  | @served idx q vq l used hq hready hvq hkept =>
    unfold Settled
    rw [served_queues]
    refine forall_mem_modify h fun q' hq' => ?_
    obtain rfl : q = q' := some.inj (hq.symm.trans hq')
    rcases h q (mem_of_getElem? hq) with ⟨h0, -⟩ | ⟨-, last, used, hrings⟩
    · exact absurd h0 hready
    · -- the device has moved along the rings that the registers describe
      obtain rfl : vq = q.rings.setIndices last used := some.inj (hvq.symm.trans hrings)
      exact .inr ⟨hready, _, _, congrArg some hkept.along⟩
  | @restore s ha =>
    rcases t.restore_cases s with heq | ⟨-, dev, -, heq⟩
    · rw [heq]
      exact h
    · rw [heq]
      exact coherent_restoreQueues h

theorem counted_new (id : String) (dev : VirtioDevice) (mem : GuestRam) :
    (new id dev mem).Counted := length_replicate

theorem settled_new (id : String) (dev : VirtioDevice) (mem : GuestRam) :
    (new id dev mem).Settled := by
  intro q hq
  rw [eq_of_mem_replicate hq]
  exact coherent_default

theorem counted_of_run {ok : VirtioMmio → Action → Prop} {id : String} {dev : VirtioDevice}
    {mem : GuestRam} {as : List Action} (hrun : Run (step fuel) ok (.new id dev mem) as t) :
    t.Counted :=
  hrun.invariant (fun _ _ _ h _ hst => Counted.step h hst) (counted_new id dev mem)

theorem restoreQueues_save : ∀ {qs qs' : List QueueState}, qs'.length = qs.length →
    (∀ q ∈ qs, Coherent q) → restoreQueues qs' (qs.map QueueState.save) = qs
  | [], [], _, _ => rfl
  | q :: qs, q' :: qs', hlen, h => by
    rw [map_cons, restoreQueues, (h q mem_cons_self).restored_save,
      restoreQueues_save (Nat.succ.inj hlen) fun q hq => h q (mem_cons_of_mem _ hq)]

/-- **The saved state of a settled transport is all of it**, but for the interrupt line. -/
theorem restoreState_saveState (hs : t.Settled) (hc : t.Counted) :
    (new t.id t.dev t.mem).restoreState t.saveState = { t with irq := false } := by
  have hqueues : restoreQueues (replicate t.dev.queueCount .default)
      (t.queues.map QueueState.save) = t.queues :=
    restoreQueues_save (length_replicate.trans hc.symm) hs
  unfold restoreState saveState new
  rw [hqueues]

theorem restore_null {dev : VirtioDevice} (h : dev.save = .null) (v : Blob) :
    dev.restore v = .ok dev := by
  cases dev with
  | blk | net | rng => rfl
  | vsock | gpu | balloon | input => cases h

theorem restore_saveState (hs : t.Settled) (hc : t.Counted) (hdev : t.dev.save = .null) :
    ((new t.id t.dev t.mem).restore t.saveState).1 = { t with irq := false } := by
  have hlen : t.saveState.queues.length = (new t.id t.dev t.mem).queues.length :=
    (length_map _).trans (hc.trans (counted_new t.id t.dev t.mem).symm)
  unfold restore
  rw [if_neg (not_not.mpr hlen), restoreState_saveState hs hc]
  dsimp only
  rw [restore_null hdev]

/-! ## Transports that answer alike -/

/-- What two transports are known to agree on beside everything else. -/
structure Known where
  irq : Bool
  queueSel : Bool
  featuresSel : Bool

def Alike (k : Known) (t t' : VirtioMmio) : Prop :=
  ∃ irq queueSel featuresSel,
    t' = { t with irq := irq, queueSel := queueSel, deviceFeaturesSel := featuresSel } ∧
      (k.irq = true → irq = t.irq) ∧ (k.queueSel = true → queueSel = t.queueSel) ∧
      (k.featuresSel = true → featuresSel = t.deviceFeaturesSel)

namespace Action

def usesQueueSel : Action → Bool
  | .read off data => data.length = 4 && off = 0x044
  | .write off data => data.length = 4 && (off = 0x044 || off ∈ ringRegisters)
  | _ => false

def usesFeaturesSel : Action → Bool
  | .read off data => data.length = 4 && off = 0x010
  | _ => false

def selectsQueue : Action → Bool
  | .write off data => data.length = 4 && off = 0x030
  | _ => false

def selectsFeatures : Action → Bool
  | .write off data => data.length = 4 && off = 0x014
  | _ => false

theorem selectsQueue_write {off : Nat} {data : Bytes} (h : off ≠ 0x030) :
    (Action.write off data).selectsQueue = false := by
  dsimp only [selectsQueue]
  rw [decide_eq_false h, Bool.and_false]

theorem selectsFeatures_write {off : Nat} {data : Bytes} (h : off ≠ 0x014) :
    (Action.write off data).selectsFeatures = false := by
  dsimp only [selectsFeatures]
  rw [decide_eq_false h, Bool.and_false]

end Action

def Known.after (k : Known) (a : Action) : Known :=
  { k with
    queueSel := k.queueSel || a.selectsQueue
    featuresSel := k.featuresSel || a.selectsFeatures }

def Known.Covers (k : Known) (a : Action) : Prop :=
  (a.usesQueueSel = true → k.queueSel = true) ∧ (a.usesFeaturesSel = true → k.featuresSel = true)

theorem Known.after_eq (hq : a.selectsQueue = false) (hf : a.selectsFeatures = false) :
    k.after a = k := by
  unfold Known.after
  rw [hq, hf, Bool.or_false, Bool.or_false]

theorem Alike.serveQueue (h : Alike k t t') (idx : Nat)
    (work : Loop VirtioDevice → Option (Loop VirtioDevice × Bool)) :
    Matched (Alike k) (t.serveQueue idx work) (t'.serveQueue idx work) := by
  obtain ⟨irq, q, f, rfl, hirq, hq, hf⟩ := h
  unfold VirtioMmio.serveQueue
  dsimp only
  have hidle : Matched (Alike k) (some (t, false))
      (some ({ t with irq := irq, queueSel := q, deviceFeaturesSel := f }, false)) :=
    .both ⟨irq, q, f, rfl, hirq, hq, hf⟩ false
  split
  · exact hidle
  split
  · exact hidle
  split
  · exact hidle
  rename_i vq _
  cases work ⟨t.dev, vq, t.mem⟩ with
  | none => exact .stuck
  | some r =>
    obtain ⟨l, used⟩ := r
    refine .both ?_ used
    cases used with
    | false => exact ⟨irq, q, f, rfl, hirq, hq, hf⟩
    | true => exact ⟨true, q, f, rfl, fun _ => rfl, hq, hf⟩

theorem Alike.modifySel (h : Alike k t t') (hk : k.queueSel = true) (f : QueueState → QueueState) :
    Alike k (t.modifySel f) (t'.modifySel f) := by
  obtain ⟨irq, q, fs, rfl, hirq, hq, hf⟩ := h
  refine ⟨irq, q, fs, ?_, hirq, hq, hf⟩
  unfold VirtioMmio.modifySel
  rw [hq hk]

theorem Alike.plain {o : Answer} (h : Alike k t t') (hq : a.selectsQueue = false)
    (hf : a.selectsFeatures = false) :
    Matched (Alike (k.after a)) (some (t, o)) (some (t', o)) := by
  rw [Known.after_eq hq hf]
  exact .both h o

theorem Alike.writeReg (h : Alike k t t') {val : UInt32} (hlen : data.length = 4)
    (hok : k.Covers (.write off data)) :
    Matched (Alike (k.after (.write off data)))
      ((t.writeReg fuel off val).map fun t => (t, Answer.done))
      ((t'.writeReg fuel off val).map fun t => (t, Answer.done)) := by
  have hused : off = 0x044 ∨ off ∈ ringRegisters → k.queueSel = true := by
    intro hoff
    refine hok.1 ?_
    dsimp only [Action.usesQueueSel]
    rw [decide_eq_true hlen, Bool.true_and, Bool.or_eq_true, decide_eq_true_eq, decide_eq_true_eq]
    exact hoff
  have hplain : ∀ {u u' : VirtioMmio}, off ≠ 0x030 → off ≠ 0x014 → Alike k u u' →
      Matched (Alike (k.after (.write off data))) (some (u, Answer.done))
        (some (u', Answer.done)) := fun hne hne' hu =>
    hu.plain (Action.selectsQueue_write hne) (Action.selectsFeatures_write hne')
  unfold VirtioMmio.writeReg
  split
  case h_1 =>
    obtain ⟨irq, q, f, rfl, hirq, hq, -⟩ := h
    refine .both ⟨irq, q, val &&& 1, rfl, hirq, fun hk => hq ?_, fun _ => rfl⟩ _
    rw [← hk, Known.after, Action.selectsQueue_write (by decide), Bool.or_false]
  case h_2 =>
    obtain ⟨irq, q, f, rfl, hirq, -, hf⟩ := h
    refine .both ⟨irq, val, f, rfl, hirq, fun _ => rfl, fun hk => hf ?_⟩ _
    rw [← hk, Known.after, Action.selectsFeatures_write (by decide), Bool.or_false]
  case h_4 => exact hplain (by decide) (by decide) (h.modifySel (hused (.inl rfl)) _)
  case h_5 =>
    unfold VirtioMmio.notify
    rw [Option.map_map, Option.map_map, Known.after_eq (Action.selectsQueue_write (by decide))
      (Action.selectsFeatures_write (by decide))]
    exact (h.serveQueue val.toNat _).map (f := fun t _ => t) (k := fun t _ => t)
      (g := fun _ => Answer.done) fun _ _ _ hu => hu
  case h_6 =>
    refine hplain (by decide) (by decide) ?_
    obtain ⟨irq, q, f, rfl, hirq, hq, hf⟩ := h
    refine ⟨if t.interruptStatus &&& ~~~val = 0 then false else irq, q, f, rfl, fun hk => ?_, hq,
      hf⟩
    unfold VirtioMmio.acknowledge
    rw [hirq hk]
  case h_7 =>
    refine hplain (by decide) (by decide) ?_
    obtain ⟨irq, q, f, rfl, hirq, hq, hf⟩ := h
    unfold VirtioMmio.setStatus
    split
    · exact ⟨false, q, f, rfl, fun _ => rfl, hq, hf⟩
    · exact ⟨irq, q, f, rfl, hirq, hq, hf⟩
  case h_14 hne hne' _ _ _ _ _ _ _ _ _ _ _ => exact hplain hne' hne h
  -- the ring registers of the selected queue
  all_goals exact hplain (by decide) (by decide) (h.modifySel (hused (.inr (by decide))) _)

theorem Alike.read (h : Alike k t t') (hok : k.Covers (.read off data)) :
    t'.read off data = t.read off data := by
  obtain ⟨irq, q, f, rfl, hirq, hq, hf⟩ := h
  unfold VirtioMmio.read
  split
  · rfl
  split
  next hlen =>
    have hreg : ({ t with irq := irq, queueSel := q, deviceFeaturesSel := f }).readReg off =
        t.readReg off := by
      by_cases h44 : off = 0x044
      · subst h44
        have hk : k.queueSel = true := hok.1 (by
          dsimp only [Action.usesQueueSel]
          rw [decide_eq_true hlen]
          rfl)
        obtain rfl := hq hk
        rfl
      · by_cases h10 : off = 0x010
        · subst h10
          have hk : k.featuresSel = true := hok.2 (by
            dsimp only [Action.usesFeaturesSel]
            rw [decide_eq_true hlen]
            rfl)
          obtain rfl := hf hk
          rfl
        · unfold VirtioMmio.readReg
          split <;> first | rfl | exact absurd rfl h44 | exact absurd rfl h10
    rw [hreg]
  · rfl

/-- **Transports that differ in what is not known answer alike**, as long as nothing is asked that
depends on it. -/
theorem Alike.respond (h : Alike k t t') (hok : k.Covers a) :
    Matched (Alike (k.after a)) (t.respond fuel a) (t'.respond fuel a) := by
  have hserved : ∀ {idx : Nat} {work : Loop VirtioDevice → Option (Loop VirtioDevice × Bool)},
      a.selectsQueue = false → a.selectsFeatures = false →
      Matched (Alike (k.after a))
        ((t.serveQueue idx work).map fun r => (r.1, Answer.used r.2))
        ((t'.serveQueue idx work).map fun r => (r.1, Answer.used r.2)) := by
    intro idx work hq hf
    rw [Known.after_eq hq hf]
    exact (h.serveQueue idx work).map fun _ _ _ hu => hu
  cases a with
  | read offset data =>
    dsimp only [VirtioMmio.respond]
    rw [h.read hok]
    exact h.plain rfl rfl
  | write offset data =>
    dsimp only [VirtioMmio.respond, VirtioMmio.write]
    split
    next hconfig =>
      obtain ⟨irq, q, f, rfl, hirq, hq, hf⟩ := h
      exact Alike.plain ⟨irq, q, f, rfl, hirq, hq, hf⟩ (Action.selectsQueue_write (by omega))
        (Action.selectsFeatures_write (by omega))
    · split
      next hlen => exact h.writeReg hlen hok
      rename_i hlen
      refine h.plain ?_ ?_
      · dsimp only [Action.selectsQueue]
        rw [decide_eq_false hlen, Bool.false_and]
      · dsimp only [Action.selectsFeatures]
        rw [decide_eq_false hlen, Bool.false_and]
  | injectRx frame | injectInput events | pollVsockRx => exact hserved rfl rfl
  | store gpa data | acceptControl fd stream | presentScanout =>
    obtain ⟨irq, q, f, rfl, hirq, hq, hf⟩ := h
    exact Alike.plain ⟨irq, q, f, rfl, hirq, hq, hf⟩ rfl rfl
  | signalConfigChange | netSetLink up =>
    obtain ⟨irq, q, f, rfl, hirq, hq, hf⟩ := h
    exact Alike.plain ⟨true, q, f, rfl, fun _ => rfl, hq, hf⟩ rfl rfl
  | displaySetMode width height | displaySetEnabled en =>
    obtain ⟨irq, q, f, rfl, hirq, hq, hf⟩ := h
    refine Alike.plain ?_ rfl rfl
    unfold VirtioMmio.displaySet
    dsimp only
    split
    · exact ⟨true, q, f, rfl, fun _ => rfl, hq, hf⟩
    · exact ⟨irq, q, f, rfl, hirq, hq, hf⟩
  | restore s =>
    obtain ⟨irq, q, f, rfl, hirq, hq, hf⟩ := h
    dsimp only [VirtioMmio.respond, VirtioMmio.restore, VirtioMmio.restoreState]
    split
    · exact Alike.plain ⟨irq, q, f, rfl, hirq, hq, hf⟩ rfl rfl
    · split <;> exact Alike.plain ⟨irq, _, _, rfl, hirq, fun _ => rfl, fun _ => rfl⟩ rfl rfl

def positions (t : VirtioMmio) : List (Option (UInt16 × UInt16)) :=
  t.queues.map QueueState.positions

def view (fuel : Nat) (t : VirtioMmio) (a : Action) :
    Option (VirtioMmio × Answer × GuestRam × List (Option (UInt16 × UInt16))) :=
  (t.respond fuel a).map fun r => (r.1, r.2, r.1.mem, r.1.positions)

theorem Alike.view (h : Alike k t t') (hok : k.Covers a) :
    Matched (Alike (k.after a)) (t.view fuel a) (t'.view fuel a) := by
  refine (h.respond hok).observe (fun t => (t.mem, t.positions)) ?_
  rintro u u' ⟨_, _, _, rfl, -⟩
  rfl

/-- **Snapshots of a transport with a stateless device are faithful** in every run that leaves the
ring registers of ready queues alone: a new transport that gets the saved state answers every
further sequence of actions like the old one. -/
theorem restored_answers {id : String} {dev : VirtioDevice} {mem : GuestRam} {as : List Action}
    (hrun : Run (step fuel) LeavesRings (.new id dev mem) as t) (hdev : t.dev.save = .null)
    (n : Nat) (bs : List Action) :
    answers (view n) ((new t.id t.dev t.mem).restore t.saveState).1 bs = answers (view n) t bs := by
  have hsettled : t.Settled :=
    hrun.invariant (fun _ _ _ h hok hst => Settled.step h hok hst) (settled_new id dev mem)
  rw [restore_saveState hsettled (counted_of_run hrun) hdev]
  -- the line is all that may differ, and no answer depends on it
  have halike : Alike ⟨false, true, true⟩ t { t with irq := false } :=
    ⟨false, t.queueSel, t.deviceFeaturesSel, rfl, fun h => (nomatch h), fun _ => rfl, fun _ => rfl⟩
  refine (answers_eq_of_bisim (R := Alike ⟨false, true, true⟩) ?_ halike bs).symm
  intro u u' a hu
  exact Alike.view hu ⟨fun _ => rfl, fun _ => rfl⟩

def entropy : VirtioMmio :=
  .new "virtio-rng" (.rng ⟨fun _ => 0, 0⟩)
    ⟨0x40000000, List.replicate 18 0 ++ [1, 0] ++ List.replicate 44 0, by decide +kernel⟩

def setUp : List Action :=
  [.write 0x038 (leBytes 4 1), .write 0x080 (leBytes 4 0x40000000),
    .write 0x090 (leBytes 4 0x40000010), .write 0x0a0 (leBytes 4 0x40000020),
    .write 0x044 (leBytes 4 1)]

/-- **A queue whose rings are reprogrammed while it is ready is restored elsewhere**: the old
transport serves the entry on offer, the new one looks for it in the other ring. -/
theorem restore_moves_rings : ∃ t, Run (step 2) (fun _ _ => True) entropy
    (setUp ++ [.write 0x090 (leBytes 4 0x40000030)]) t ∧ t.dev.save = .null ∧
      answers (view 2) ((new t.id t.dev t.mem).restore t.saveState).1 [.write 0x050 (leBytes 4 0)] ≠
        answers (view 2) t [.write 0x050 (leBytes 4 0)] := by
  obtain ⟨t, hrun, hnull, hne⟩ : ∃ t, Run (step 2) (fun _ _ => True) entropy
      (setUp ++ [.write 0x090 (leBytes 4 0x40000030)]) t ∧ t.dev.save = .null ∧
        (answers (view 2) ((new t.id t.dev t.mem).restore t.saveState).1
          [.write 0x050 (leBytes 4 0)]).map (Option.map fun o => o.2.2) ≠
        (answers (view 2) t [.write 0x050 (leBytes 4 0)]).map (Option.map fun o => o.2.2) :=
    exists_run (by decide +kernel)
  exact ⟨t, hrun, hnull, fun h => hne (congrArg _ h)⟩

theorem restored_answers_entropy : ∃ t, Run (step 2) LeavesRings entropy setUp t ∧
    ∀ n bs, answers (view n) ((new t.id t.dev t.mem).restore t.saveState).1 bs =
      answers (view n) t bs := by
  obtain ⟨t, hrun, hnull⟩ : ∃ t, Run (step 2) LeavesRings entropy setUp t ∧ t.dev.save = .null :=
    exists_run (by decide +kernel)
  exact ⟨t, hrun, restored_answers hrun hnull⟩

/-! ## Resetting the device -/

def lineView (fuel : Nat) (t : VirtioMmio) (a : Action) :
    Option (VirtioMmio × Answer × GuestRam × List (Option (UInt16 × UInt16)) × Bool) :=
  (t.respond fuel a).map fun r => (r.1, r.2, r.1.mem, r.1.positions, r.1.irq)

theorem Alike.irq_eq (h : Alike k t t') (hk : k.irq = true) : t'.irq = t.irq := by
  obtain ⟨irq, q, f, rfl, hirq, -⟩ := h
  exact hirq hk

theorem Alike.lineView (h : Alike k t t') (hk : k.irq = true) (hok : k.Covers a) :
    Matched (Alike (k.after a)) (t.lineView fuel a) (t'.lineView fuel a) := by
  refine (h.respond hok).observe (fun t => (t.mem, t.positions, t.irq)) ?_
  intro u u' hu
  have hirq := hu.irq_eq (k := k.after a) hk
  obtain ⟨_, _, _, rfl, -⟩ := hu
  exact congrArg (fun irq => (u.mem, u.positions, irq)) hirq.symm

def resetKnown (t : VirtioMmio) : Known := ⟨true, t.queueSel = 0, t.deviceFeaturesSel = 0⟩

/-- **A reset through `Status` gives a new transport** around the device as it is: every further
sequence of actions that writes a selector before it depends on it is answered alike. -/
theorem reset_answers {ok : VirtioMmio → Action → Prop} {id : String} {dev : VirtioDevice}
    {mem : GuestRam} {as : List Action} (hrun : Run (step fuel) ok (.new id dev mem) as t) (n : Nat)
    {bs : List Action} (hbs : Allowed Known.Covers Known.after t.resetKnown bs) :
    ∃ t', t.write n 0x070 (leBytes 4 0) = some t' ∧
      answers (lineView n) t' bs = answers (lineView n) (new t.id t.dev t.mem) bs := by
  have hcount := counted_of_run hrun
  have hqueues : (t.queues.map fun _ => QueueState.default) =
      replicate t.dev.queueCount .default := by
    rw [map_const', hcount]
  refine ⟨{ new t.id t.dev t.mem with
    queueSel := t.queueSel
    deviceFeaturesSel := t.deviceFeaturesSel }, ?_, ?_⟩
  · have hreset : t.write n 0x070 (leBytes 4 0) = some (t.setStatus 0) := rfl
    rw [hreset]
    unfold setStatus reset new
    rw [if_pos rfl]
    rw [hqueues]
  · have halike : Alike t.resetKnown
        { new t.id t.dev t.mem with
          queueSel := t.queueSel
          deviceFeaturesSel := t.deviceFeaturesSel } (new t.id t.dev t.mem) :=
      ⟨false, 0, 0, rfl, fun _ => rfl, fun h => (of_decide_eq_true h).symm,
        fun h => (of_decide_eq_true h).symm⟩
    refine answers_eq (R := fun k t t' => k.irq = true ∧ Alike k t t') ?_ ⟨rfl, halike⟩ hbs
    intro k u u' a hu hok
    exact (hu.2.lineView hu.1 hok).imp fun _ _ h => ⟨hu.1, h⟩

theorem reset_answers_entropy : ∃ t, Run (step 2) (fun _ _ => True) entropy setUp t ∧
    ∃ t', t.write 2 0x070 (leBytes 4 0) = some t' ∧
      answers (lineView 2) t' (.write 0x030 (leBytes 4 0) :: setUp) =
        answers (lineView 2) (new t.id t.dev t.mem) (.write 0x030 (leBytes 4 0) :: setUp) := by
  obtain ⟨t, hrun, -⟩ : ∃ t, Run (step 2) (fun _ _ => True) entropy setUp t ∧ True :=
    exists_run (by decide +kernel)
  refine ⟨t, hrun, reset_answers hrun 2 ?_⟩
  -- once the queue is selected, every register of it may be written
  have hknown : ∀ a ∈ setUp, a.usesFeaturesSel = false := by decide +kernel
  have hrest : ∀ {as : List Action} {k : Known}, k.queueSel = true →
      (∀ a ∈ as, a.usesFeaturesSel = false) → Allowed Known.Covers Known.after k as := by
    intro as
    induction as with
    | nil => exact fun _ _ => trivial
    | cons a as ih =>
      intro k hk has
      refine ⟨⟨fun _ => hk, fun h => ?_⟩, ih ?_ fun b hb => has b (mem_cons_of_mem _ hb)⟩
      · rw [has a mem_cons_self] at h
        cases h
      · dsimp only [Known.after]
        rw [hk, Bool.true_or]
  refine ⟨⟨fun h => (nomatch h), fun h => (nomatch h)⟩, hrest ?_ hknown⟩
  exact Bool.or_true _

/-- **A reset forgets neither the selectors nor anything of the device.** After it a new keyboard
would answer both reads with zero. -/
theorem reset_keeps_device : ∃ t, Run (step 0) (fun _ _ => True) keyboard
    [.write 0x100 [CFG_ID_NAME], .write 0x014 (leBytes 4 1), .write 0x070 (leBytes 4 0)] t ∧
      t.read 0x100 [0] = [1] ∧ keyboard.read 0x100 [0] = [0] ∧
      t.read 0x010 (leBytes 4 0) = leBytes 4 1 ∧
      keyboard.read 0x010 (leBytes 4 0) = leBytes 4 0 := by
  refine ⟨_, .cons trivial rfl (.cons trivial rfl (.cons trivial rfl (.nil _))), ?_, ?_, ?_, ?_⟩ <;>
    decide +kernel

end Ignition.Devices.VirtioMmio
