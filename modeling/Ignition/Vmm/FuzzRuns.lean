import Ignition.Vmm.Fuzz

/-!
# What a reset restores

Three questions about the fuzz loop. Does the dirty reset give the same RAM as the full one? Does
an iteration depend on those before it? Is a saved crash the input that was injected?

The first is an invariant of the guest's writes since the snapshot: a page that is not marked is
protected, and is as it was captured (`Tracked`). Every step keeps it, so a reset that rolls back
the marked pages rolls back all of RAM. The second is about the state in which an iteration starts
(`Fresh`): everything in it comes from the snapshot and from the input, but for the rest of the
window. The third fails: the controller reads the input back from memory that the guest writes. It
holds as long as the guest leaves the input and its length alone (`Spares`).
-/

namespace Ignition.Vmm.Fuzzer

open Paged Runs Ignition.Devices Ignition.Hvf List Option

/-! ## The parts of a doorbell -/

theorem take_copyInto_zero (b src : Bytes) : (copyInto b 0 src).take src.length = src := by
  simp [copyInto]

theorem inject_eq (f : Fuzzer) (input : Bytes) : ∃ window injected,
    f.inject input =
      ({ f with window := window, injected := injected }, UInt32.ofNat injected.length) ∧
    window.length = f.window.length ∧ window.take injected.length = injected := by
  have hlen : (input.take (min input.length f.window.length)).length =
      min input.length f.window.length := by
    rw [length_take, Nat.min_eq_left (Nat.min_le_left ..)]
  refine ⟨_, _, Prod.ext rfl (congrArg UInt32.ofNat hlen.symm), ?_, take_copyInto_zero _ _⟩
  refine length_copyInto ?_
  omega

theorem prepareNextInput_eq (f : Fuzzer) : ∃ window injected rng last,
    f.prepareNextInput =
      ({ f with
        window := window
        cov := f.cov.map fun _ => 0
        injected := injected
        ctl := { f.ctl with rng := rng, lastInput := last } }, UInt32.ofNat injected.length) ∧
    window.length = f.window.length ∧ window.take injected.length = injected := by
  unfold prepareNextInput
  dsimp only
  split
  next fixed _ =>
    obtain ⟨window, injected, heq, hlen, htake⟩ := inject_eq
      { f with cov := f.cov.map fun _ => 0, ctl := { f.ctl with lastInput := fixed } } fixed
    exact ⟨window, injected, f.ctl.rng, fixed, heq, hlen, htake⟩
  · generalize mutate _ _ _ = r
    generalize r.1.take _ = last
    obtain ⟨window, injected, heq, hlen, htake⟩ := inject_eq
      { f with
        cov := f.cov.map fun _ => 0
        ctl := { f.ctl with rng := r.2, lastInput := last } } r.1
    exact ⟨window, injected, r.2, last, heq, hlen, htake⟩

/-- There is a snapshot, a page that is not marked is as captured, and only marked pages can be
written. -/
structure Tracked (f : Fuzzer) : Prop where
  saved : ∃ regs : Regs, ∃ now, f.ctl.baseState = some (regs.saveState now)
  size : f.ctl.baseRam.length = f.mem.ram.length
  differs : f.ctl.resetMode = .dirty →
    DiffersIn PAGE {p | f.mem.marked p = true} f.ctl.baseRam f.mem.ram
  guarded : f.ctl.resetMode = .dirty → ∀ p, f.writable p = true → f.mem.marked p = true

def Rearmed (f : Fuzzer) : Prop :=
  f.ctl.resetMode = .dirty → (∀ p, f.writable p = false) ∧ ∀ p, f.mem.marked p = false

variable {f g f' c : Fuzzer} {a : Action} {acts : List Action}

theorem Tracked.resetRam (h : Tracked f) : ∃ mem writable,
    f.resetRam = some { f with mem := mem, writable := writable } ∧
      mem.ram = f.ctl.baseRam ∧ Rearmed { f with mem := mem, writable := writable } := by
  unfold Fuzzer.resetRam
  split
  next hmode =>
    rw [dif_pos h.size]
    exact ⟨_, _, rfl, rfl, fun hd => ResetMode.noConfusion (hmode.symm.trans hd)⟩
  rename_i hmode
  refine ⟨_, _, rfl, ?_, fun _ => ⟨fun _ => rfl, Memory.marked_drain f.mem⟩⟩
  refine rollbackPages_eq PAGE_pos f.mem.size_eq h.size ((h.differs hmode).mono fun p hp => ?_)
  exact DirtyTracker.mem_pages.mpr hp

theorem Tracked.reset (h : Tracked f) (host : Host) : ∃ v mem writable,
    f.reset host = some { f with vcpu := v, mem := mem, writable := writable } ∧
      mem.ram = f.ctl.baseRam ∧ Rearmed { f with mem := mem, writable := writable } ∧
      v.pendingAdvancePc = false ∧ v.pendingMmioRead = f.vcpu.pendingMmioRead ∧
      ∀ s ∈ f.ctl.baseState, ∀ now, (v.regs.saveState now).timeless = s.timeless := by
  obtain ⟨mem, writable, hram, hbase, harmed⟩ := h.resetRam
  obtain ⟨regs, now, hsaved⟩ := h.saved
  unfold Fuzzer.reset
  rw [hram]
  dsimp only [bind_some]
  rw [hsaved]
  refine ⟨_, _, _, rfl, hbase, harmed, rfl, rfl, ?_⟩
  intro s hs now'
  obtain rfl := mem_some.mp hs
  exact Regs.saveState_restored _ _ _ _ _

/-! ## How an iteration starts -/

/-- An iteration starts: RAM and registers are those of the snapshot, the input is in the window,
its length in the register, and no edge is covered. -/
structure Fresh (f : Fuzzer) : Prop where
  ram : f.mem.ram = f.ctl.baseRam
  regs : ∀ s ∈ f.ctl.baseState, ∀ now, (f.vcpu.enter.regs.saveState now).timeless = s.timeless
  cov : ∀ b ∈ f.cov, b = 0
  window : f.window.take f.injected.length = f.injected
  len : f.dev.inputLen = UInt32.ofNat f.injected.length

/-- The snapshot is the same, and the regions are as long. -/
structure SameBase (f f' : Fuzzer) : Prop where
  ram : f'.ctl.baseRam = f.ctl.baseRam
  state : f'.ctl.baseState = f.ctl.baseState
  mode : f'.ctl.resetMode = f.ctl.resetMode
  captured : f'.ctl.captured = f.ctl.captured
  window : f'.window.length = f.window.length
  cov : f'.cov.length = f.cov.length

theorem SameBase.of_ctl (hctl : g.ctl = f.ctl) (hwin : g.window.length = f.window.length)
    (hcov : g.cov.length = f.cov.length) :
    SameBase f g := by
  constructor
  all_goals first | rw [hctl] | assumption

theorem SameBase.refl (f : Fuzzer) : SameBase f f := .of_ctl rfl rfl rfl

theorem SameBase.trans {h : Fuzzer} (hfg : SameBase f g) (hgh : SameBase g h) :
    SameBase f h where
  ram := hgh.ram.trans hfg.ram
  state := hgh.state.trans hfg.state
  mode := hgh.mode.trans hfg.mode
  captured := hgh.captured.trans hfg.captured
  window := hgh.window.trans hfg.window
  cov := hgh.cov.trans hfg.cov

theorem Tracked.of_ram_eq
    (hsaved : ∃ regs : Regs, ∃ now, f.ctl.baseState = some (regs.saveState now))
    (hram : f.mem.ram = f.ctl.baseRam)
    (hsealed : f.ctl.resetMode = .dirty → ∀ p, f.writable p = false) : Tracked f where
  saved := hsaved
  size := by rw [hram]
  differs := fun _ => by
    rw [hram]
    exact differsIn_refl _ _ _
  guarded := fun hd p hp => by
    rw [hsealed hd p] at hp
    exact Bool.noConfusion hp

theorem saved_of_idle {v : Vcpu} {s : VcpuState} (hread : v.pendingMmioRead = none)
    (hpc : v.pendingAdvancePc = false) {now : Nat} (h : (v.regs.saveState now).timeless = s) :
    (v.enter.regs.saveState now).timeless = s := by
  rw [Vcpu.Tidy.enter_regs (fun _ => hread) hpc]
  exact h

theorem cov_zero {cov : Bytes} {b : UInt8} (h : b ∈ cov.map fun _ => (0 : UInt8)) : b = 0 := by
  obtain ⟨_, _, rfl⟩ := mem_map.mp h
  rfl

theorem takeSnapshot_spec (host : Host) (hread : f.vcpu.pendingMmioRead = none) :
    Tracked (f.takeSnapshot host) ∧ ∀ s ∈ (f.takeSnapshot host).ctl.baseState, ∀ now,
      ((f.takeSnapshot host).vcpu.enter.regs.saveState now).timeless = s.timeless := by
  refine ⟨.of_ram_eq ⟨_, _, rfl⟩ rfl fun hd p => congrFun (if_pos hd) p, ?_⟩
  intro s hs now
  obtain rfl := mem_some.mp hs
  refine saved_of_idle ?_ ?_ ?_
  · exact hread
  · rfl
  · rfl

theorem capture_spec (host : Host) (hread : f.vcpu.pendingMmioRead = none) :
    Fresh (f.capture host) ∧ Tracked (f.capture host) ∧ (f.capture host).ctl.baseRam = f.mem.ram ∧
      (f.capture host).ctl.resetMode = f.ctl.resetMode ∧ (f.capture host).ctl.captured = true ∧
      (f.capture host).solutions = f.solutions ∧
      (f.capture host).window.length = f.window.length := by
  obtain ⟨htracked, hregs⟩ := takeSnapshot_spec host hread
  obtain ⟨window, injected, rng, last, heq, hlen, htake⟩ :=
    prepareNextInput_eq (f.takeSnapshot host)
  unfold capture
  rw [heq]
  exact ⟨⟨rfl, hregs, fun b => cov_zero, htake, rfl⟩,
    ⟨htracked.saved, htracked.size, htracked.differs, htracked.guarded⟩, rfl, rfl, rfl, rfl, hlen⟩

theorem Tracked.congr (h : Tracked f) (hbase : SameBase f g) (hmem : g.mem = f.mem)
    (hwr : g.writable = f.writable) : Tracked g where
  saved := by
    rw [hbase.state]
    exact h.saved
  size := by
    rw [hbase.ram, hmem]
    exact h.size
  differs := by
    rw [hbase.mode, hbase.ram, hmem]
    exact h.differs
  guarded := by
    rw [hbase.mode, hmem, hwr]
    exact h.guarded

theorem Tracked.onDone (h : Tracked f) (host : Host) (hread : f.vcpu.pendingMmioRead = none) :
    ∃ f', f.onDone host = some f' ∧
      Fresh f' ∧ Tracked f' ∧ Rearmed f' ∧ SameBase f f' ∧ f'.solutions = f.solutions := by
  obtain ⟨window, injected, rng, last, heq, hlen, htake⟩ :=
    prepareNextInput_eq f.countIteration.observeAndStats
  unfold Fuzzer.onDone
  rw [heq]
  dsimp only
  generalize hg : ({ f.countIteration.observeAndStats with
    window := _, cov := _, ctl := _, injected := _ } : Fuzzer) = g
  have hbase : SameBase f g := by
    subst hg
    exact ⟨rfl, rfl, rfl, rfl, hlen, length_map ..⟩
  have hsame : g.mem = f.mem ∧ g.writable = f.writable ∧ g.vcpu = f.vcpu ∧
      g.solutions = f.solutions ∧ g.window = window ∧ g.injected = injected ∧
      ∀ b ∈ g.cov, b = 0 := by
    subst hg
    exact ⟨rfl, rfl, rfl, rfl, rfl, rfl, fun b => cov_zero⟩
  obtain ⟨hmem, hwr, hvcpu, hsol, rfl, rfl, hcov⟩ := hsame
  clear hg heq
  obtain ⟨v, mem, writable, hreset, hram, harmed, hpc, hpend, hregs⟩ :=
    (h.congr hbase hmem hwr).reset host
  rw [hreset]
  have hidle : v.pendingMmioRead = none := by rw [hpend, hvcpu, hread]
  refine ⟨_, rfl, ⟨hram, ?_, hcov, htake, rfl⟩, .of_ram_eq ?_ hram fun hd => (harmed hd).1, harmed,
    ?_, hsol⟩
  · exact fun s hs now => saved_of_idle hidle hpc (hregs s hs now)
  · exact (h.congr hbase hmem hwr).saved
  · exact ⟨hbase.ram, hbase.state, hbase.mode, hbase.captured, hbase.window, hbase.cov⟩

theorem onDone_eq_none (host : Host) (h : f.ctl.baseState = none) :
    f.onDone host = none := by
  obtain ⟨window, injected, rng, last, heq, -, -⟩ :=
    prepareNextInput_eq f.countIteration.observeAndStats
  have hreset : ∀ g : Fuzzer, g.ctl.baseState = none → g.reset host = none := by
    intro g hg
    unfold reset resetRam
    split
    · split
      · exact congrArg (Option.map _) hg
      · rfl
    · exact congrArg (Option.map _) hg
  unfold onDone
  rw [heq]
  refine congrArg (Option.map _) (hreset _ ?_)
  exact h

/-! ## Whole runs -/

def Ends (f : Fuzzer) (a : Action) : Prop := f.rings a = some .done ∨ f.rings a = some .crash

theorem Tracked.onCrash (h : Tracked f) (host : Host) (hread : f.vcpu.pendingMmioRead = none) :
    ∃ f', f.onCrash host = some f' ∧
      Fresh f' ∧ Tracked f' ∧ Rearmed f' ∧ SameBase f f' ∧
      f'.solutions = (f.solve host).solutions := by
  have hbase : SameBase f (f.solve host) := ⟨rfl, rfl, rfl, rfl, rfl, rfl⟩
  obtain ⟨f', hdone, hfresh, htracked, harmed, hbase', hsol⟩ :=
    (h.congr hbase rfl rfl).onDone host hread
  exact ⟨f', hdone, hfresh, htracked, harmed, hbase.trans hbase', hsol⟩

theorem step_of_rings {cmd : Cmd} (h : f.rings a = some cmd) :
    ∃ v host, v.pendingMmioRead = none ∧ f.step a = { f with vcpu := v }.doorbell host cmd := by
  cases a with
  | run guest reason host =>
    obtain ⟨⟨v, e⟩, hrun, hrung⟩ := bind_eq_some_iff.mp h
    have hstep : f.step (.run guest reason host) = { f with vcpu := v }.handle host e := by
      show (f.vcpu.run guest reason host.now).bind _ = _
      rw [hrun]
      rfl
    cases e with
    | mmioWrite pa data =>
      dsimp only [rung] at hrung
      obtain ⟨hbell, rfl⟩ := ite_some_none_eq_some.mp hrung
      exact ⟨v, host, (Vcpu.run_leaves hrun).2, hstep.trans (if_pos hbell)⟩
    | _ => cases hrung
  | _ => cases h

/-- **The end of an iteration** always succeeds, and starts the next. -/
theorem Tracked.ends (h : Tracked f) (ha : f.Ends a) :
    ∃ f', f.step a = some f' ∧ Fresh f' ∧ Tracked f' ∧ Rearmed f' ∧ SameBase f f' := by
  have hv : ∀ v, SameBase f { f with vcpu := v } := fun v => .of_ctl rfl rfl rfl
  rcases ha with ha | ha
  · obtain ⟨v, host, hread, hstep⟩ := step_of_rings ha
    obtain ⟨f', hdone, hfresh, htracked, harmed, hbase, -⟩ :=
      (h.congr (hv v) rfl rfl).onDone host hread
    exact ⟨f', hstep.trans hdone, hfresh, htracked, harmed, (hv v).trans hbase⟩
  · obtain ⟨v, host, hread, hstep⟩ := step_of_rings ha
    obtain ⟨f', hcrash, hfresh, htracked, harmed, hbase, -⟩ :=
      (h.congr (hv v) rfl rfl).onCrash host hread
    exact ⟨f', hstep.trans hcrash, hfresh, htracked, harmed, (hv v).trans hbase⟩

theorem capture_of_rings (ha : f.rings a = some .snapshotMe) (h : f.step a = some f') :
    Fresh f' ∧ Tracked f' ∧ f'.ctl.baseRam = f.mem.ram ∧
      f'.ctl.resetMode = f.ctl.resetMode := by
  obtain ⟨v, host, hread, hstep⟩ := step_of_rings ha
  rw [h] at hstep
  cases hstep
  obtain ⟨hfresh, htracked, hram, hmode, -⟩ :=
    capture_spec (f := { f with vcpu := v }) host hread
  exact ⟨hfresh, htracked, hram, hmode⟩

/-- **Every step keeps track**, and only a snapshot changes the base. -/
theorem Tracked.step (h : Tracked f) (hs : f.step a = some f') :
    Tracked f' ∧ (f.rings a ≠ some .snapshotMe → SameBase f f') := by
  have same : ∀ {g : Fuzzer}, SameBase f g → g.mem = f.mem → g.writable = f.writable →
      Tracked g ∧ (f.rings a ≠ some .snapshotMe → SameBase f g) :=
    fun hbase hmem hwr => ⟨h.congr hbase hmem hwr, fun _ => hbase⟩
  cases move hs with
  | store hw hmem =>
    obtain ⟨-, htracker, hlen, hd⟩ := Memory.copyIn_eq_some hmem
    have hmarked : ∀ p, Memory.marked _ p = f.mem.marked p :=
      fun p => congrArg (DirtyTracker.marked · p) htracker
    refine ⟨⟨h.saved, h.size.trans hlen.symm, fun hdirty => ?_, fun hdirty p hp => ?_⟩,
      fun _ => .of_ctl rfl rfl rfl⟩
    · -- the guest could write these pages, so they are marked
      have hstore := hd.mono fun p hp => h.guarded hdirty p (hw p hp)
      simp only [hmarked]
      exact (h.differs hdirty).trans hstore
    · exact (hmarked p).trans (h.guarded hdirty p hp)
  | window hin =>
    exact same (.of_ctl rfl (length_copyInto hin) rfl) rfl rfl
  | cov hin =>
    exact same (.of_ctl rfl rfl (length_copyInto hin)) rfl rfl
  | idle | register => exact same (.of_ctl rfl rfl rfl) rfl rfl
  | @fault _ _ _ _ pa p hquiet hp =>
    refine ⟨⟨h.saved, h.size, fun hdirty => ?_, fun hdirty q hq => ?_⟩,
      fun _ => .of_ctl rfl rfl rfl⟩
    · exact (h.differs hdirty).mono fun q hq => (Memory.marked_mark f.mem pa q).mpr (.inr hq)
    · refine (Memory.marked_mark f.mem pa q).mpr ?_
      rcases Bool.or_eq_true_iff.mp hq with heq | hold
      · left
        rw [hp, eq_of_beq heq]
      · exact .inr (h.guarded hdirty q hold)
  | @ring _ _ _ v cmd _ hring hread hbell =>
    cases cmd with
    | snapshotMe => exact ⟨(capture_of_rings hring hs).2.1, fun hne => absurd hring hne⟩
    | done =>
      obtain ⟨f'', hstep, -, htracked, -, hbase⟩ := h.ends (.inl hring)
      obtain rfl := some.inj (hs.symm.trans hstep)
      exact ⟨htracked, fun _ => hbase⟩
    | crash =>
      obtain ⟨f'', hstep, -, htracked, -, hbase⟩ := h.ends (.inr hring)
      obtain rfl := some.inj (hs.symm.trans hstep)
      exact ⟨htracked, fun _ => hbase⟩
    | unknown =>
      cases hbell
      exact same (.of_ctl rfl rfl rfl) rfl rfl

instance (f : Fuzzer) (a : Action) : Decidable (f.Ends a) := inferInstanceAs (Decidable (_ ∨ _))

/-- A run in which no snapshot is taken. -/
def Iterates (c : Fuzzer) (acts : List Action) (f : Fuzzer) : Prop :=
  Run step (fun f a => f.rings a ≠ some .snapshotMe) c acts f

theorem Tracked.iterates (h : Iterates c acts f) (hc : Tracked c) : Tracked f ∧ SameBase c f := by
  have hstep : ∀ s a s', Tracked s ∧ SameBase c s → s.rings a ≠ some .snapshotMe →
      s.step a = some s' → Tracked s' ∧ SameBase c s' := by
    intro s a s' hs hne hst
    obtain ⟨htracked, hbase⟩ := hs.1.step hst
    exact ⟨htracked, hs.2.trans (hbase hne)⟩
  exact Run.invariant hstep h ⟨hc, .refl c⟩

/-! ## The dirty reset is the full reset -/

/-- The guest took a snapshot with `base` in its RAM, and has run any number of iterations since. -/
def Since (mode : ResetMode) (base : Bytes) (f : Fuzzer) : Prop :=
  ∃ s : Fuzzer, ∃ a c acts, s.ctl.resetMode = mode ∧ s.mem.ram = base ∧
    s.rings a = some .snapshotMe ∧ s.step a = some c ∧ Iterates c acts f

theorem Since.of_exists (s : Fuzzer) (a : Action) (acts : List Action) {P : Fuzzer → Prop}
    (ha : s.rings a = some .snapshotMe)
    (h : ∃ c ∈ s.step a,
      ∃ f ∈ after (checked step fun f a => f.rings a ≠ some .snapshotMe) c acts, P f) :
    ∃ f, Since s.ctl.resetMode s.mem.ram f ∧ P f := by
  obtain ⟨c, hc, hrest⟩ := h
  obtain ⟨f, hrun, hP⟩ := exists_run hrest
  exact ⟨f, ⟨s, a, c, acts, rfl, rfl, ha, hc, hrun⟩, hP⟩

theorem Since.tracked {mode : ResetMode} {base : Bytes} (h : Since mode base f) :
    Tracked f ∧ f.ctl.baseRam = base ∧ f.ctl.resetMode = mode := by
  obtain ⟨s, a, c, acts, rfl, rfl, ha, hstep, hrun⟩ := h
  obtain ⟨-, hc, hram, hmode⟩ := capture_of_rings ha hstep
  obtain ⟨hf, hbase⟩ := hc.iterates hrun
  exact ⟨hf, hbase.ram.trans hram, hbase.mode.trans hmode⟩

/-- **The dirty reset gives the RAM of the full reset**: the captured one. -/
theorem dirty_reset_eq_full {base : Bytes} {d g : Fuzzer} {a b : Action}
    (hd : Since .dirty base d) (hg : Since .full base g) (ha : d.Ends a) (hb : g.Ends b) :
    ∃ d' g', d.step a = some d' ∧ g.step b = some g' ∧
      d'.mem.ram = g'.mem.ram ∧ d'.mem.ram = base ∧
      (∀ p, d'.writable p = false) ∧ ∀ p, d'.mem.marked p = false := by
  obtain ⟨htd, hrd, hmd⟩ := hd.tracked
  obtain ⟨htg, hrg, -⟩ := hg.tracked
  obtain ⟨d', hd', hfd, -, harmed, hbd⟩ := htd.ends ha
  obtain ⟨g', hg', hfg, -, -, hbg⟩ := htg.ends hb
  have hbase : d'.mem.ram = base := by rw [hfd.ram, hbd.ram, hrd]
  have hbase' : g'.mem.ram = base := by rw [hfg.ram, hbg.ram, hrg]
  obtain ⟨hsealed, hempty⟩ := harmed (hbd.mode.trans hmd)
  exact ⟨d', g', hd', hg', hbase.trans hbase'.symm, hbase, hsealed, hempty⟩

theorem page_fits : RAM_BASE + (replicate PAGE (0 : UInt8)).length ≤ 2 ^ 64 := by
  rw [length_replicate]
  decide

def page : Memory :=
  .new (List.replicate PAGE 0) 1 (by rw [length_replicate, Nat.one_mul]) page_fits

def small (mode : ResetMode) : Fuzzer := boot (Vcpu.new 0 24000000) page 8 4 mode [] (some [1])

def stores (pa val : Nat) : Action :=
  .run (Regs.write · (.reg 0 val)) (.exception (0x24 * 2 ^ 26 + 2 ^ 24 + 2 * 2 ^ 22 + 2 ^ 6) pa)
    ⟨0, 0, [], true⟩

def bell (cmd : Nat) : Action := stores (FUZZ_CTRL_GPA + reg.DOORBELL) cmd

theorem dirty_reset_eq_full_page : ∃ d g : Fuzzer,
    (Since .dirty page.ram d ∧ Since .full page.ram g ∧ d.Ends (bell 2) ∧ g.Ends (bell 2) ∧
      d.mem.ram.head? = some 7 ∧ g.mem.ram.head? = some 7) ∧
    ∃ d' g', d.step (bell 2) = some d' ∧ g.step (bell 2) = some g' ∧
      d'.mem.ram = g'.mem.ram ∧ d'.mem.ram = page.ram ∧
      (∀ p, d'.writable p = false) ∧ ∀ p, d'.mem.marked p = false := by
  obtain ⟨d, hd, hdone, hseven⟩ : ∃ d, Since .dirty page.ram d ∧ d.Ends (bell 2) ∧
      d.mem.ram.head? = some 7 :=
    Since.of_exists (small .dirty) (bell 1) [stores RAM_BASE 0, .store RAM_BASE [7]]
      (by decide +kernel) (by decide +kernel)
  obtain ⟨g, hg, hdone', hseven'⟩ : ∃ g, Since .full page.ram g ∧ g.Ends (bell 2) ∧
      g.mem.ram.head? = some 7 :=
    Since.of_exists (small .full) (bell 1) [.store RAM_BASE [7]]
      (by decide +kernel) (by decide +kernel)
  exact ⟨d, g, ⟨hd, hg, hdone, hdone', hseven, hseven'⟩, dirty_reset_eq_full hd hg hdone hdone'⟩

/-! ## An iteration does not depend on those before it -/

/-- An iteration starts in `f`, after a snapshot that left `c`: the first one, or any later one. -/
def Starts (c f : Fuzzer) : Prop :=
  f = c ∨ ∃ acts e a, Iterates c acts e ∧ e.Ends a ∧ e.step a = some f

theorem Starts.fresh {s : Fuzzer} (ha : s.rings a = some .snapshotMe) (hc : s.step a = some c)
    (h : Starts c f) : Fresh f ∧ SameBase c f := by
  obtain ⟨hfresh, htracked, -⟩ := capture_of_rings ha hc
  rcases h with rfl | ⟨acts, e, b, hrun, hends, hstep⟩
  · exact ⟨hfresh, .refl f⟩
  obtain ⟨he, hbase⟩ := htracked.iterates hrun
  obtain ⟨f', hf', hfresh', -, -, hbase'⟩ := he.ends hends
  obtain rfl := some.inj (hf'.symm.trans hstep)
  exact ⟨hfresh', hbase.trans hbase'⟩

theorem Fresh.take_window (h : Fresh f) :
    f.window.take f.dev.inputLen.toNat = f.injected.take f.dev.inputLen.toNat := by
  have hle : f.dev.inputLen.toNat ≤ f.injected.length := by
    rw [h.len, UInt32.toNat_ofNat']
    exact Nat.mod_le ..
  calc f.window.take f.dev.inputLen.toNat
      = (f.window.take f.injected.length).take f.dev.inputLen.toNat := by
        rw [take_take, Nat.min_eq_left hle]
    _ = f.injected.take f.dev.inputLen.toNat := by rw [h.window]

theorem Fresh.cov_eq (h : Fresh f) : f.cov = replicate f.cov.length 0 :=
  eq_replicate_iff.mpr ⟨rfl, h.cov⟩

/-- **An iteration depends on the snapshot and the input only**: in RAM, in the registers that a
snapshot has, in the input and its length, and in the coverage map. -/
theorem iteration_independent {s c f g : Fuzzer} {a : Action}
    (ha : s.rings a = some .snapshotMe) (hc : s.step a = some c) (hf : Starts c f)
    (hg : Starts c g) (hin : f.injected = g.injected) :
    f.mem.ram = g.mem.ram ∧
      (∀ now now', (f.vcpu.enter.regs.saveState now).timeless =
        (g.vcpu.enter.regs.saveState now').timeless) ∧
      f.window.take f.dev.inputLen.toNat = g.window.take g.dev.inputLen.toNat ∧
      f.cov = g.cov ∧
      ∀ offset data, offset ≠ reg.CRASH_CODE →
        f.dev.read offset data = g.dev.read offset data := by
  obtain ⟨hff, hbf⟩ := hf.fresh ha hc
  obtain ⟨hfg, hbg⟩ := hg.fresh ha hc
  have hlen : f.dev.inputLen = g.dev.inputLen := by rw [hff.len, hfg.len, hin]
  refine ⟨?_, ?_, ?_, ?_, ?_⟩
  · rw [hff.ram, hfg.ram, hbf.ram, hbg.ram]
  · intro now now'
    obtain ⟨regs, at₀, hsaved⟩ := (capture_of_rings ha hc).2.1.saved
    have hsf := hff.regs _ (mem_def.mpr (hbf.state.trans hsaved)) now
    have hsg := hfg.regs _ (mem_def.mpr (hbg.state.trans hsaved)) now'
    exact hsf.trans hsg.symm
  · rw [hff.take_window, hfg.take_window, hin, hlen]
  · rw [hff.cov_eq, hfg.cov_eq, hbf.cov, hbg.cov]
  · intro offset data hne
    unfold FuzzDevice.read FuzzDevice.value
    simp only [hlen, if_neg hne]

theorem Starts.of_exists {P : Fuzzer → Prop}
    (h : ∃ e ∈ after (checked step fun f a => f.rings a ≠ some .snapshotMe) c acts,
      e.Ends a ∧ ∃ f ∈ e.step a, P f) :
    ∃ f, Starts c f ∧ P f := by
  obtain ⟨e, hrun, hends, f, hf, hP⟩ := exists_run h
  exact ⟨f, .inr ⟨acts, e, a, hrun, hends, hf⟩, hP⟩

theorem iteration_independent_crash : ∃ s c f g : Fuzzer,
    (s.rings (bell 1) = some .snapshotMe ∧ s.step (bell 1) = some c ∧ Starts c f ∧ Starts c g ∧
      f.injected = g.injected ∧ f.window ≠ g.window) ∧
    f.mem.ram = g.mem.ram ∧
      (∀ now now', (f.vcpu.enter.regs.saveState now).timeless =
        (g.vcpu.enter.regs.saveState now').timeless) ∧
      f.window.take f.dev.inputLen.toNat = g.window.take g.dev.inputLen.toNat ∧
      f.cov = g.cov ∧
      ∀ offset data, offset ≠ reg.CRASH_CODE →
        f.dev.read offset data = g.dev.read offset data := by
  have hsnap : (small .dirty).rings (bell 1) = some .snapshotMe := by decide +kernel
  obtain ⟨c, hc, hrest⟩ : ∃ c ∈ (small .dirty).step (bell 1),
      ∃ e ∈ after (checked step fun f a => f.rings a ≠ some .snapshotMe) c [.window 5 [9]],
        e.Ends (bell 3) ∧ ∃ g ∈ e.step (bell 3), c.injected = g.injected ∧ c.window ≠ g.window := by
    decide +kernel
  obtain ⟨g, hg, htest⟩ := Starts.of_exists hrest
  exact ⟨_, c, c, g, ⟨hsnap, hc, .inl rfl, hg, htest⟩,
    iteration_independent hsnap hc (.inl rfl) hg htest.1⟩

def HV_SYS_REG_DBGBVR0_EL1 : Nat := 32772

def debugs : Action :=
  .run (Regs.write · (.sysReg HV_SYS_REG_DBGBVR0_EL1 1)) .vtimerActivated ⟨0, 0, [], true⟩

theorem window_tail_stale : ∃ s c f g : Fuzzer, s.rings (bell 1) = some .snapshotMe ∧
    s.step (bell 1) = some c ∧ Starts c f ∧ Starts c g ∧ f.injected = g.injected ∧
    f.window ≠ g.window ∧ f.dev.crashCode ≠ g.dev.crashCode ∧
    f.vcpu.enter.regs.sysReg HV_SYS_REG_DBGBVR0_EL1 ≠
      g.vcpu.enter.regs.sysReg HV_SYS_REG_DBGBVR0_EL1 := by
  have hsnap : (small .dirty).rings (bell 1) = some .snapshotMe := by decide +kernel
  obtain ⟨c, hc, hrest⟩ : ∃ c ∈ (small .dirty).step (bell 1),
      ∃ e ∈ after (checked step fun f a => f.rings a ≠ some .snapshotMe) c
          [.window 5 [9], stores (FUZZ_CTRL_GPA + reg.CRASH_CODE) 5, debugs],
        e.Ends (bell 2) ∧ ∃ g ∈ e.step (bell 2), c.injected = g.injected ∧ c.window ≠ g.window ∧
          c.dev.crashCode ≠ g.dev.crashCode ∧ c.vcpu.enter.regs.sysReg HV_SYS_REG_DBGBVR0_EL1 ≠
            g.vcpu.enter.regs.sysReg HV_SYS_REG_DBGBVR0_EL1 := by
    decide +kernel
  obtain ⟨g, hg, htest⟩ := Starts.of_exists hrest
  exact ⟨_, c, c, g, hsnap, hc, .inl rfl, hg, htest⟩

/-! ## The saved crashes -/

def sparesLen (f : Fuzzer) : VcpuExit → Prop
  | .mmioWrite pa data => pa = FUZZ_CTRL_GPA + reg.INPUT_LEN →
      (f.dev.write reg.INPUT_LEN (data.map UInt8.ofNat)).inputLen = f.dev.inputLen
  | _ => True

def Spares (f : Fuzzer) : Action → Prop
  | .window off data => f.ctl.captured = true →
      (copyInto f.window off data).take f.injected.length = f.window.take f.injected.length
  | .run guest reason host => f.ctl.captured = true →
      ∀ r ∈ f.vcpu.run guest reason host.now, f.sparesLen r.2
  | _ => True

instance (f : Fuzzer) : (e : VcpuExit) → Decidable (f.sparesLen e)
  | .mmioWrite pa data => inferInstanceAs (Decidable (pa = FUZZ_CTRL_GPA + reg.INPUT_LEN →
      (f.dev.write reg.INPUT_LEN (data.map UInt8.ofNat)).inputLen = f.dev.inputLen))
  | .mmioRead .. | .dirtyFault .. | .shutdown | .canceled | .cpuOn .. | .psciHandled
  | .systemRegister | .breakpoint | .waitForEvent | .waitForEventExpired
  | .waitForEventTimeout .. | .vtimerActivated => isTrue trivial

instance (f : Fuzzer) : (a : Action) → Decidable (f.Spares a)
  | .window off data => inferInstanceAs (Decidable (f.ctl.captured = true →
      (copyInto f.window off data).take f.injected.length = f.window.take f.injected.length))
  | .run guest reason host => inferInstanceAs (Decidable (f.ctl.captured = true →
      ∀ r ∈ f.vcpu.run guest reason host.now, f.sparesLen r.2))
  | .store .. | .cov .. => isTrue trivial

def Held (f : Fuzzer) : Prop :=
  f.window.take f.injected.length = f.injected ∧
    f.dev.inputLen = UInt32.ofNat f.injected.length

theorem Fresh.held (h : Fresh f) : Held f := ⟨h.window, h.len⟩

/-- What holds in every run that spares the input. -/
structure Honest (f : Fuzzer) : Prop where
  bound : f.window.length < 2 ^ 32
  held : f.ctl.captured = true → Tracked f ∧ Held f
  before : f.ctl.captured = false → f.ctl.baseState = none
  solved : ∀ sol ∈ f.solutions, sol.input = sol.injected

theorem Honest.congr (h : Honest f) (hctl : g.ctl = f.ctl) (hsol : g.solutions = f.solutions)
    (hlen : g.window.length = f.window.length)
    (hheld : f.ctl.captured = true → Tracked f → Held f → Tracked g ∧ Held g) : Honest g where
  bound := by
    rw [hlen]
    exact h.bound
  held := by
    rw [hctl]
    exact fun hc => hheld hc (h.held hc).1 (h.held hc).2
  before := by
    rw [hctl]
    exact h.before
  solved := by
    rw [hsol]
    exact h.solved

theorem Honest.of_fresh (h : Honest f) (hbase : SameBase f g) (ht : Tracked g) (hfresh : Fresh g)
    (hsolved : ∀ sol ∈ g.solutions, sol.input = sol.injected) : Honest g where
  bound := by
    rw [hbase.window]
    exact h.bound
  held := fun _ => ⟨ht, hfresh.held⟩
  before := by
    rw [hbase.captured, hbase.state]
    exact h.before
  solved := hsolved

theorem inputLen_write {d : FuzzDevice} {offset : Nat} {data : Bytes}
    (h : offset = reg.INPUT_LEN → (d.write reg.INPUT_LEN data).inputLen = d.inputLen) :
    (d.write offset data).inputLen = d.inputLen := by
  by_cases hoff : offset = reg.INPUT_LEN
  · rw [hoff]
    exact h hoff
  unfold FuzzDevice.write
  split
  · rfl
  · split <;> rfl

theorem Held.solve (h : Held f) (hbound : f.window.length < 2 ^ 32) (host : Host)
    (hsolved : ∀ sol ∈ f.solutions, sol.input = sol.injected) :
    ∀ sol ∈ (f.solve host).solutions, sol.input = sol.injected := by
  obtain ⟨hwin, hlen⟩ := h
  have hle : f.injected.length ≤ f.window.length := by
    have := congrArg List.length hwin
    rw [length_take] at this
    omega
  have hn : min f.dev.inputLen.toNat f.window.length = f.injected.length := by
    rw [hlen, UInt32.toNat_ofNat', Nat.mod_eq_of_lt (by omega)]
    omega
  unfold Fuzzer.solve
  intro sol hmem
  split at hmem
  · rcases mem_append.mp hmem with hold | hnew
    · exact hsolved sol hold
    · obtain rfl := mem_singleton.mp hnew
      rw [hn]
      exact hwin
  · exact hsolved sol hmem

theorem Honest.step (h : Honest f) (hok : f.Spares a) (hs : f.step a = some f') : Honest f' := by
  have htracked : f.ctl.captured = true → Tracked f → Tracked f' := fun _ ht => (ht.step hs).1
  cases move hs with
  | store | cov | idle | fault => exact h.congr rfl rfl rfl fun hc ht hh => ⟨htracked hc ht, hh⟩
  | window hin =>
    refine h.congr rfl rfl (length_copyInto hin) fun hc ht hh => ⟨htracked hc ht, ?_, hh.2⟩
    exact (hok hc).trans hh.1
  | @register _ _ _ v pa data _ hin hrun =>
    refine h.congr rfl rfl rfl fun hc ht hh => ⟨htracked hc ht, hh.1, ?_⟩
    have hspares : f.sparesLen (.mmioWrite pa data) := hok hc _ (mem_def.mpr hrun)
    refine Eq.trans (inputLen_write fun hoff => hspares ?_) hh.2
    have := hin.1
    omega
  | @ring _ _ host v cmd _ hring hread hbell =>
    have hv : ∀ v, SameBase f { f with vcpu := v } := fun v => .of_ctl rfl rfl rfl
    -- without a snapshot the reset panics
    have hcaptured : ∀ {r : Option Fuzzer}, (f.ctl.baseState = none → r = none) → r = some f' →
        Tracked f ∧ Held f := by
      intro r hnone hsome
      cases hc : f.ctl.captured with
      | true => exact h.held hc
      | false =>
        rw [hnone (h.before hc)] at hsome
        cases hsome
    cases cmd with
    | snapshotMe =>
      cases hbell
      obtain ⟨hfresh, ht, -, -, hcap, hsol, hlen⟩ :=
        capture_spec (f := { f with vcpu := v }) host hread
      refine ⟨?_, fun _ => ⟨ht, hfresh.held⟩, fun hc => ?_, ?_⟩
      · rw [hlen]
        exact h.bound
      · rw [hcap] at hc
        exact Bool.noConfusion hc
      · rw [hsol]
        exact h.solved
    | unknown =>
      cases hbell
      exact h.congr rfl rfl rfl fun hc ht hh => ⟨htracked hc ht, hh⟩
    | done =>
      obtain ⟨ht, -⟩ := hcaptured (onDone_eq_none (f := { f with vcpu := v }) host) hbell
      obtain ⟨f'', hdone, hfresh, ht', -, hbase, hsol⟩ :=
        (ht.congr (hv v) rfl rfl).onDone host hread
      obtain rfl := some.inj (hbell.symm.trans hdone)
      refine h.of_fresh ((hv v).trans hbase) ht' hfresh ?_
      rw [hsol]
      exact h.solved
    | crash =>
      obtain ⟨ht, hh⟩ :=
        hcaptured (onDone_eq_none (f := solve { f with vcpu := v } host) host) hbell
      obtain ⟨f'', hcrash, hfresh, ht', -, hbase, hsol⟩ :=
        (ht.congr (hv v) rfl rfl).onCrash host hread
      obtain rfl := some.inj (hbell.symm.trans hcrash)
      refine h.of_fresh ((hv v).trans hbase) ht' hfresh ?_
      rw [hsol]
      exact Held.solve hh h.bound host h.solved

/-- **A saved crash is the injected input**, in every run in which the guest leaves the input and
its length alone. -/
theorem solutions_injected {vcpu : Vcpu} {mem : Memory} {windowSize covSize : Nat}
    {resetMode : ResetMode} {seeds : List Bytes} {replay : Option Bytes} {acts : List Action}
    {f : Fuzzer} (hwin : FUZZ_WIN_GPA + windowSize ≤ FUZZ_COV_GPA)
    (h : Run step Spares (boot vcpu mem windowSize covSize resetMode seeds replay) acts f) :
    ∀ sol ∈ f.solutions, sol.input = sol.injected := by
  have hboot : Honest (boot vcpu mem windowSize covSize resetMode seeds replay) := by
    refine ⟨?_, fun hc => Bool.noConfusion hc, fun _ => rfl, fun sol hsol => ?_⟩
    · have hlen : (boot vcpu mem windowSize covSize resetMode seeds replay).window.length =
        windowSize := length_replicate
      rw [hlen]
      unfold FUZZ_WIN_GPA FUZZ_COV_GPA at hwin
      omega
    · cases hsol
  exact (Run.invariant (fun _ _ _ hs hok hstep => hs.step hok hstep) h hboot).solved

theorem solutions_injected_crash : ∃ f : Fuzzer,
    (FUZZ_WIN_GPA + 8 ≤ FUZZ_COV_GPA ∧
      Run step Spares (small .dirty) [bell 1, .window 5 [9], bell 3] f ∧
      f.solutions.map Solution.input = [[1]]) ∧
    ∀ sol ∈ f.solutions, sol.input = sol.injected := by
  obtain ⟨f, hrun, hsaved⟩ : ∃ f, Run step Spares (small .dirty) [bell 1, .window 5 [9], bell 3] f ∧
      f.solutions.map Solution.input = [[1]] := exists_run (by decide +kernel)
  exact ⟨f, ⟨by decide, hrun, hsaved⟩, solutions_injected (by decide) hrun⟩

theorem overwritten_input_saved : ∃ f : Fuzzer,
    Run step (fun _ _ => True) (small .dirty) [bell 1, .window 0 [9], bell 3] f ∧
      f.solutions.map (fun sol => (sol.input, sol.injected)) = [([9], [1])] :=
  exists_run (by decide +kernel)

end Ignition.Vmm.Fuzzer
