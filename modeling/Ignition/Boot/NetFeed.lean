import Ignition.Base.Run
import Ignition.Devices.Mmio

/-!
# The network feed across resets

The reset handler of `boot.rs` as far as it concerns the network device. A thread feeds received
frames into the device unless `rx_stop` is set. A reset sets `rx_stop`, waits for the feeder to let
go of the device, rolls the machine back and takes the link down. It leaves it to a thread of its
own to bring the link up again after a second and a half, and to clear `rx_stop` half a second
later.

Every action is something that is done under the lock of the device, or to the atomic flag, so the
runs are the interleavings of the feeder, of the resets and of any number of link-up threads with
whatever the guest does to the device. Resets themselves exclude each other: the handler holds the
lock of the reset point throughout. A sleep takes at least its time.

While the link is down the feeder has to be stopped. A thread that brings the link up and only later
starts the feeder breaks that if another reset takes the link down in between
(`frame_injected_while_down`). Nothing else does: if no thread is at that point whenever a reset
takes the link down, and the feeder is stopped then, no frame is ever injected while the link is
down (`injected_only_while_up`).
-/

namespace Ignition.Devices

open Paged Ignition.Vmm Option

/-! ## The link state of a device -/

def VirtioDevice.Reports (up : Bool) (dev : VirtioDevice) : Prop :=
  ∃ net : VirtioNet, dev = .net net ∧ net.linkUp = up

namespace VirtioDevice.Reports

variable {up : Bool} {dev : VirtioDevice}

theorem injectRx {l : Loop VirtioDevice} (h : l.dev.Reports up) (frame : Bytes) :
    (VirtioDevice.injectRx frame l).1.dev.Reports up := by
  obtain ⟨dev, vq, mem⟩ := l
  obtain ⟨net, rfl, hup⟩ := h
  refine ⟨(net.injectRx vq mem frame).1.dev, rfl, ?_⟩
  unfold VirtioNet.injectRx
  split <;> exact hup

theorem handleNotify {fuel idx : Nat} {l : Loop VirtioDevice} (h : l.dev.Reports up)
    {r : Loop VirtioDevice × Bool} (hr : VirtioDevice.handleNotify fuel idx l = some r) :
    r.1.dev.Reports up := by
  obtain ⟨dev, vq, mem⟩ := l
  obtain ⟨net, rfl, hup⟩ := h
  dsimp only [VirtioDevice.handleNotify] at hr
  split at hr
  · obtain ⟨r₁, h₁, rfl⟩ := map_eq_some_iff.mp hr
    obtain ⟨r₂, h₂, rfl⟩ := map_eq_some_iff.mp h₁
    have hserv : ∀ (d : VirtioNet) (mem : GuestRam) (chain : DescChain), d.linkUp = up →
        (VirtioNet.transmit d mem chain).dev.linkUp = up := by
      intro d mem chain hd
      unfold VirtioNet.transmit
      repeat' split
      all_goals exact hd
    exact ⟨_, rfl, drain_invariant hserv h₂ hup⟩
  · cases hr
    exact ⟨net, rfl, hup⟩

end VirtioDevice.Reports

namespace VirtioMmio

/-- The device of the transport reports the link as up or down. -/
abbrev Reports (up : Bool) (t : VirtioMmio) : Prop := t.dev.Reports up

variable {t t' : VirtioMmio} {up : Bool} {fuel : Nat}

theorem Reports.serveQueue (h : t.Reports up) {idx : Nat}
    {work : Loop VirtioDevice → Option (Loop VirtioDevice × Bool)}
    (hwork : ∀ l r, l.dev.Reports up → work l = some r → r.1.dev.Reports up)
    {r : VirtioMmio × Bool} (hr : t.serveQueue idx work = some r) : r.1.Reports up := by
  unfold VirtioMmio.serveQueue at hr
  split at hr
  · cases hr
    exact h
  split at hr
  · cases hr
    exact h
  split at hr
  · cases hr
    exact h
  rename_i vq _
  obtain ⟨r₁, h₁, rfl⟩ := map_eq_some_iff.mp hr
  have hdev := hwork _ _ h h₁
  dsimp only [served]
  split <;> exact hdev

theorem Reports.writeReg (h : t.Reports up) {off : Nat} {val : UInt32}
    (hw : t.writeReg fuel off val = some t') : t'.Reports up := by
  unfold VirtioMmio.writeReg at hw
  split at hw
  case h_5 =>
    obtain ⟨r, hr, rfl⟩ := map_eq_some_iff.mp hw
    exact h.serveQueue (fun _ _ hl => hl.handleNotify) hr
  case h_7 =>
    cases hw
    unfold setStatus
    split <;> exact h
  all_goals
    cases hw
    exact h

theorem Reports.restore (h : t.Reports up) (s : VirtioMmioState) : (t.restore s).1.Reports up := by
  obtain ⟨net, hnet, hup⟩ := h
  unfold VirtioMmio.restore
  split
  · exact ⟨net, hnet, hup⟩
  -- a network device has no state of its own to restore
  have hdev : (t.restoreState s).dev = .net net := hnet
  dsimp only
  rw [hdev]
  exact ⟨net, rfl, hup⟩

theorem reports_netSetLink (h : t.Reports up) (up' : Bool) : (t.netSetLink up').Reports up' := by
  obtain ⟨net, hnet, -⟩ := h
  refine ⟨net.setLink up', ?_, rfl⟩
  show t.dev.setLink up' = _
  rw [hnet]
  rfl

theorem Reports.step (h : t.Reports up) {a : Action} (ha : ∀ up', a ≠ .netSetLink up')
    (hst : t.step fuel a = some t') : t'.Reports up := by
  obtain ⟨r, hr, rfl⟩ := map_eq_some_iff.mp hst
  have hkeep := h
  obtain ⟨net, hnet, hup⟩ := h
  cases a with
  | netSetLink up' => exact absurd rfl (ha up')
  | read offset data | store gpa data | signalConfigChange =>
    cases hr
    exact hkeep
  | write offset data =>
    obtain ⟨t', ht', rfl⟩ := map_eq_some_iff.mp hr
    unfold write at ht'
    split at ht'
    · obtain rfl := some.inj ht'
      refine ⟨net, ?_, hup⟩
      rw [hnet]
      rfl
    · split at ht'
      · exact hkeep.writeReg ht'
      · obtain rfl := some.inj ht'
        exact hkeep
  | injectRx frame =>
    obtain ⟨r', hr', rfl⟩ := map_eq_some_iff.mp hr
    refine hkeep.serveQueue (fun l r hl hwork => ?_) hr'
    cases hwork
    exact hl.injectRx frame
  | injectInput events =>
    obtain ⟨r', hr', rfl⟩ := map_eq_some_iff.mp hr
    refine hkeep.serveQueue (fun l r hl hwork => ?_) hr'
    cases hwork
    obtain ⟨dev, vq, mem⟩ := l
    obtain ⟨net, rfl, hup⟩ := hl
    exact ⟨net, rfl, hup⟩
  | pollVsockRx =>
    obtain ⟨r', hr', rfl⟩ := map_eq_some_iff.mp hr
    refine hkeep.serveQueue (fun l r hl hwork => ?_) hr'
    obtain ⟨dev, vq, mem⟩ := l
    obtain ⟨net, rfl, hup⟩ := hl
    cases hwork
    exact ⟨net, rfl, hup⟩
  | acceptControl fd stream | presentScanout =>
    cases hr
    refine ⟨net, ?_, hup⟩
    rw [hnet]
    rfl
  | displaySetMode w h | displaySetEnabled en =>
    cases hr
    refine ⟨net, ?_, hup⟩
    dsimp only [displaySet]
    rw [hnet]
    rfl
  | restore s =>
    cases hr
    exact hkeep.restore s

end VirtioMmio

end Ignition.Devices

namespace Ignition.Boot

open Runs Paged Ignition.Vmm Ignition.Devices

/-! ## The feeder, the resets and their threads -/

def LINK_DOWN_MS : Nat := 1500
def SETTLE_MS : Nat := 500

/-- What a reset under way does next. -/
inductive Stage where
  | drain
  | restore
  | lower
  | spawn
  deriving DecidableEq

/-- Where a link-up thread is, with the time until which it sleeps. -/
inductive LinkUp where
  | sleeping (wake : Nat)
  | raised (wake : Nat)
  | finished
  deriving DecidableEq

def LinkUp.isRaised : LinkUp → Bool
  | .raised _ => true
  | _ => false

structure NetFeed where
  net : VirtioMmio
  rxStop : Bool
  handler : Option Stage
  threads : List LinkUp
  now : Nat
  injected : List Bool

/-- What the machine goes back to: the state of the network device and the RAM of the checkpoint. -/
structure Pristine where
  state : VirtioMmioState
  mem : GuestRam

namespace NetFeed

inductive Action where
  | frame (data : Bytes)
  | device (a : VirtioMmio.Action)
  | reset
  | proceed (p : Pristine)
  | raise (i : Nat)
  | resume (i : Nat)
  | wait (d : Nat)

def new (mac : Bytes) (mem : GuestRam) : NetFeed :=
  ⟨.new "virtio-net" (.net (.new mac)) mem, false, none, [], 0, []⟩

def linkUp (s : NetFeed) : Bool :=
  match s.net.dev with
  | .net net => net.linkUp
  | _ => false

def rxShouldInject (rxStop : Bool) : Bool := !rxStop

def feed (s : NetFeed) (data : Bytes) : Option NetFeed :=
  if rxShouldInject s.rxStop then
    (s.net.injectRx data).map fun r => { s with net := r.1, injected := s.injected ++ [s.linkUp] }
  else some s

def proceed (s : NetFeed) (p : Pristine) : Stage → NetFeed
  -- taking the device once waits for an injection that is in progress
  | .drain => { s with handler := some .restore }
  | .restore =>
    { s with net := ({ s.net with mem := p.mem }.restore p.state).1, handler := some .lower }
  | .lower => { s with net := s.net.netSetLink false, handler := some .spawn }
  | .spawn =>
    { s with threads := s.threads ++ [.sleeping (s.now + LINK_DOWN_MS)], handler := none }

def step (fuel : Nat) (s : NetFeed) : Action → Option NetFeed
  | .frame data => s.feed data
  -- only resets set the link, and only the feeder injects
  | .device (.netSetLink _) => none
  | .device (.injectRx _) => none
  | .device a => (s.net.step fuel a).map fun net => { s with net := net }
  | .reset =>
    match s.handler with
    | some _ => none
    | none => some { s with rxStop := true, handler := some .drain }
  | .proceed p => s.handler.map (s.proceed p)
  | .raise i =>
    match s.threads[i]? with
    | some (.sleeping wake) =>
      if wake ≤ s.now then
        some { s with
          net := s.net.netSetLink true
          threads := s.threads.set i (.raised (s.now + SETTLE_MS)) }
      else none
    | _ => none
  | .resume i =>
    match s.threads[i]? with
    | some (.raised wake) =>
      if wake ≤ s.now then some { s with rxStop := false, threads := s.threads.set i .finished }
      else none
    | _ => none
  | .wait d => some { s with now := s.now + d }

/-! ## The feeder is stopped while the link is down -/

def Clear (s : NetFeed) : Action → Prop
  | .proceed _ => s.handler = some .lower → s.rxStop = true ∧ s.threads.all (!·.isRaised) = true
  | _ => True

instance (s : NetFeed) (a : Action) : Decidable (s.Clear a) :=
  match a with
  | .proceed _ =>
    inferInstanceAs (Decidable (_ = _ → _ = _ ∧ _ = _))
  | .frame _ => .isTrue trivial
  | .device _ => .isTrue trivial
  | .reset => .isTrue trivial
  | .raise _ => .isTrue trivial
  | .resume _ => .isTrue trivial
  | .wait _ => .isTrue trivial

/-- What every such step preserves. -/
structure Quiet (s : NetFeed) : Prop where
  reports : ∃ up, s.net.Reports up
  down : s.linkUp = false → s.rxStop = true ∧ s.threads.all (!·.isRaised) = true
  injected : ∀ up ∈ s.injected, up = true

theorem linkUp_of_reports {s : NetFeed} {up : Bool} (h : s.net.Reports up) : s.linkUp = up := by
  obtain ⟨net, hnet, hup⟩ := h
  unfold linkUp
  rw [hnet]
  exact hup

namespace Quiet

variable {s : NetFeed}

theorem new (mac : Bytes) (mem : GuestRam) : (NetFeed.new mac mem).Quiet :=
  ⟨⟨true, _, rfl, rfl⟩, fun h => Bool.noConfusion h, fun _ hup => absurd hup List.not_mem_nil⟩

theorem used (h : s.Quiet) {net : VirtioMmio} (hnet : ∀ up, s.net.Reports up → net.Reports up)
    {handler : Option Stage} : Quiet { s with net := net, handler := handler } := by
  obtain ⟨up, hup⟩ := h.reports
  refine ⟨⟨up, hnet up hup⟩, fun hdown => h.down ?_, h.injected⟩
  rw [linkUp_of_reports hup]
  rw [linkUp_of_reports (s := { s with net := net, handler := handler }) (hnet up hup)] at hdown
  exact hdown

theorem feed (h : s.Quiet) {data : Bytes} {s' : NetFeed} (hst : s.feed data = some s') :
    s'.Quiet := by
  unfold NetFeed.feed at hst
  split at hst
  next hrun =>
    obtain ⟨r, hr, rfl⟩ := Option.map_eq_some_iff.mp hst
    have hstep : s.net.step 0 (.injectRx data) = some r.1 := by
      unfold VirtioMmio.step
      dsimp only [VirtioMmio.respond]
      rw [hr]
      rfl
    have hused : Quiet { s with net := r.1, handler := s.handler } :=
      h.used fun up hup => hup.step (fun _ => VirtioMmio.Action.noConfusion) hstep
    refine ⟨hused.reports, hused.down, fun up hup => ?_⟩
    rcases List.mem_append.mp hup with hup | hup
    · exact h.injected up hup
    -- the feeder was not stopped, so the link was up
    obtain rfl := List.mem_singleton.mp hup
    by_contra hdown
    have hstop := (h.down (Bool.eq_false_of_not_eq_true hdown)).1
    rw [hstop] at hrun
    cases hrun
  · cases hst
    exact h

theorem proceed (h : s.Quiet) {p : Pristine} {stage : Stage} (hstage : s.handler = some stage)
    (hok : s.Clear (.proceed p)) : (s.proceed p stage).Quiet := by
  cases stage with
  | drain => exact h.used fun _ hup => hup
  | restore =>
    have hmem : ∀ up, s.net.Reports up → VirtioMmio.Reports up { s.net with mem := p.mem } :=
      fun _ hup => hup
    exact h.used fun up hup => (hmem up hup).restore p.state
  | lower =>
    obtain ⟨up, hup⟩ := h.reports
    exact ⟨⟨false, VirtioMmio.reports_netSetLink hup false⟩, fun _ => hok hstage, h.injected⟩
  | spawn =>
    refine ⟨h.reports, fun hdown => ?_, h.injected⟩
    obtain ⟨hstop, hthreads⟩ := h.down hdown
    refine ⟨hstop, ?_⟩
    show (s.threads ++ [LinkUp.sleeping _]).all _ = true
    rw [List.all_append, hthreads]
    rfl

theorem raise (h : s.Quiet) (i wake : Nat) :
    Quiet { s with net := s.net.netSetLink true, threads := s.threads.set i (.raised wake) } := by
  obtain ⟨up, hup⟩ := h.reports
  have hup' := VirtioMmio.reports_netSetLink hup true
  refine ⟨⟨true, hup'⟩, fun hdown => ?_, h.injected⟩
  rw [linkUp_of_reports (s := { s with
    net := s.net.netSetLink true, threads := s.threads.set i (.raised wake) }) hup'] at hdown
  cases hdown

theorem resume (h : s.Quiet) {i wake : Nat} (hi : s.threads[i]? = some (.raised wake)) :
    Quiet { s with rxStop := false, threads := s.threads.set i .finished } := by
  refine ⟨h.reports, fun hdown => ?_, h.injected⟩
  -- were the link down, no thread would be there
  have hnone := List.all_eq_true.mp (h.down hdown).2 _ (List.mem_of_getElem? hi)
  cases hnone

theorem step (h : s.Quiet) {fuel : Nat} {a : Action} {s' : NetFeed} (hok : s.Clear a)
    (hst : s.step fuel a = some s') : s'.Quiet := by
  cases a with
  | frame data => exact h.feed hst
  | device a =>
    have hdevice : (∀ up, a ≠ .netSetLink up) →
        ((s.net.step fuel a).map fun net => { s with net := net }) = some s' → s'.Quiet := by
      intro ha hmap
      obtain ⟨net, hnet, rfl⟩ := Option.map_eq_some_iff.mp hmap
      exact h.used fun up hup => hup.step ha hnet
    cases a with
    | netSetLink up | injectRx data => cases hst
    | _ => exact hdevice (fun _ => VirtioMmio.Action.noConfusion) hst
  | reset =>
    dsimp only [NetFeed.step] at hst
    split at hst
    · cases hst
    · cases hst
      exact ⟨h.reports, fun hdown => ⟨rfl, (h.down hdown).2⟩, h.injected⟩
  | proceed p =>
    obtain ⟨stage, hstage, rfl⟩ := Option.map_eq_some_iff.mp hst
    exact h.proceed hstage hok
  | raise i =>
    dsimp only [NetFeed.step] at hst
    split at hst
    · split at hst
      · cases hst
        exact h.raise i _
      · cases hst
    · cases hst
  | resume i =>
    dsimp only [NetFeed.step] at hst
    split at hst
    next wake hi =>
      split at hst
      · cases hst
        exact h.resume hi
      · cases hst
    · cases hst
  | wait d =>
    cases hst
    exact ⟨h.reports, h.down, h.injected⟩

end Quiet

/-- **Frames are injected only while the link is up,** and the feeder is stopped while it is down,
in every run in which, whenever a reset takes the link down, the feeder is stopped and no thread of
an earlier reset has brought the link up and has yet to start the feeder. -/
theorem injected_only_while_up {fuel : Nat} {mac : Bytes} {mem : GuestRam} {as : List Action}
    {s : NetFeed} (h : Run (step fuel) Clear (new mac mem) as s) :
    (s.linkUp = false → s.rxStop = true) ∧ ∀ up ∈ s.injected, up = true := by
  have hstep : ∀ (s : NetFeed) (a : Action) (s' : NetFeed), s.Quiet → s.Clear a →
      s.step fuel a = some s' → s'.Quiet := fun _ _ _ hq hok hst => hq.step hok hst
  have hq := h.invariant hstep (.new mac mem)
  exact ⟨fun hdown => (hq.down hdown).1, hq.injected⟩

def plain : NetFeed :=
  new (List.replicate 6 0) ⟨0x40000000, List.replicate 64 0, GuestRam.bounded_blank⟩

def plainPristine : Pristine := ⟨plain.net.saveState, plain.net.mem⟩

def resetOnce : List Action := .reset :: List.replicate 4 (.proceed plainPristine)

theorem injected_only_while_up_apart : ∃ s : NetFeed,
    s.injected = [true, true] ∧ (s.linkUp = false → s.rxStop = true) ∧
      ∀ up ∈ s.injected, up = true := by
  obtain ⟨s, hrun, hup⟩ : ∃ s, Run (step 0) Clear plain
      (resetOnce ++ [.frame [1], .wait 1500, .raise 0, .wait 500, .resume 0, .frame [2]] ++
        resetOnce ++ [.frame [3], .wait 1500, .raise 1, .wait 500, .resume 1, .frame [4]]) s ∧
      s.injected = [true, true] := exists_run (by decide +kernel)
  exact ⟨s, hup, injected_only_while_up hrun⟩

theorem frame_injected_while_down : ∃ s : NetFeed,
    Run (step 0) (fun _ _ => True) plain
      (resetOnce ++ [.wait 1500, .raise 0, .wait 100] ++ resetOnce ++
        [.wait 400, .resume 0, .frame [1]]) s ∧
      s.linkUp = false ∧ s.rxStop = false ∧ s.injected = [false] :=
  exists_run (by decide +kernel)

end NetFeed

end Ignition.Boot
