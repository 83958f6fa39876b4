import Ignition.Base.Run
import Ignition.Vmm.VcpuManager

/-!
# Does the guest's clock survive a restore?

A guest reads its virtual counter as the host counter minus the vCPU's timer offset. To
hide the time a snapshot lay on disk, a restore (and a reset) gives every vCPU one new
offset, chosen so that the guest reads the host counter the primary vCPU saved. That is
the counter the guest had at the capture only if the primary's offset was zero then, as
it is in the first generation. A snapshot or checkpoint taken after a restore or a reset
is captured under a nonzero offset, and restoring it makes the guest's clock jump forward
by that offset.

The machine here is a host that runs one virtual machine at a time, over any number of
generations: its counter, the vCPUs, the rendezvous' collection, the reset point, and the
snapshots on disk. Hypervisor calls may fail where the source can meet a failure.
`continuous_iff` says for every restore and reset in every run exactly when the clock
continues.
-/

namespace Ignition.Vmm

open Runs Ignition.Hvf List Option

/-- An online vCPU. -/
structure Core where
  mpidr : Nat
  regs : Regs

structure Host where
  now : Nat
  cores : List Core
  collected : List (Nat × Option VcpuState)
  point : Option (List VcpuCheckpoint)
  disk : List (List VcpuCheckpoint)

namespace Host

inductive Act where
  | tick (elapsed : Nat)
  | cpuOn (mpidr : Nat)
  | guest (mpidr : Nat) (w : Write)
  | save (mpidr : Nat) (ok : Bool)
  | snapshot (ok : Bool)
  | checkpoint (ok : Bool)
  | restore (i : Nat) (calls : Nat → Nat)
  | reset (calls : Nat → Nat)

def boot (now : Nat) : Host where
  now := now
  cores := [⟨mpidrFor 0, Regs.new (mpidrFor 0)⟩]
  collected := []
  point := none
  disk := []

def AllSaved (h : Host) : Prop := ∀ c ∈ h.cores, c.mpidr ∈ h.collected.map (·.1)

instance (h : Host) : Decidable h.AllSaved :=
  inferInstanceAs (Decidable (∀ c ∈ h.cores, c.mpidr ∈ h.collected.map (·.1)))

def captured (h : Host) (ok : Bool) : Option (List VcpuCheckpoint) :=
  if ok then collect h.collected else none

/-- `shared_vtimer_offset` of the primary's saved counter -/
def sharedOffset (h : Host) (cps : List VcpuCheckpoint) : Nat :=
  vtimerOffsetFrom h.now (primaryHc cps)

/-- One vCPU of `run_restored`: a new one, which runs only if its state goes in. -/
def restoreCore (off : Nat) (calls : Nat → Nat) (cp : VcpuCheckpoint) : Option Core :=
  match (Regs.new cp.mpidr).restoreState cp.state off (calls cp.mpidr) with
  | (regs, true) => some ⟨cp.mpidr, regs⟩
  | (_, false) => none

def resetCore (cps : List VcpuCheckpoint) (off : Nat) (calls : Nat → Nat) (c : Core) : Core :=
  match cps.find? fun cp => cp.mpidr == c.mpidr with
  | some cp =>
    { c with
      regs := (c.regs.restoreState cp.state off (calls c.mpidr)).1.write (.vtimerMask false) }
  | none => { c with regs := c.regs.write (.vtimerMask false) }

def step (h : Host) : Act → Option Host
  | .tick elapsed =>
    if h.now + elapsed < counterRange then some { h with now := h.now + elapsed } else none
  | .cpuOn mpidr =>
    if mpidr ∈ h.cores.map (·.mpidr) then none
    else some { h with cores := h.cores ++ [⟨mpidr, Regs.new mpidr⟩] }
  | .guest mpidr w =>
    if w.setsOffset then none
    else some { h with cores := h.cores.map fun c =>
      if c.mpidr = mpidr then { c with regs := c.regs.write w } else c }
  | .save mpidr ok =>
    if mpidr ∈ h.collected.map (·.1) then none
    else (h.cores.find? fun c => c.mpidr == mpidr).map fun c =>
      { h with collected := h.collected ++
        [(mpidr, if ok then some (c.regs.saveState h.now) else none)] }
  | .snapshot ok =>
    if h.AllSaved then
      some { h with collected := [], disk := h.disk ++ (h.captured ok).toList }
    else none
  | .checkpoint ok =>
    if h.AllSaved then some { h with collected := [], point := (h.captured ok).or h.point }
    else none
  | .restore i calls =>
    (h.disk[i]?).map fun cps =>
      { h with
        cores := cps.filterMap (restoreCore (h.sharedOffset cps) calls)
        collected := []
        point := some cps }
  | .reset calls =>
    h.point.map fun cps =>
      { h with cores := h.cores.map (resetCore cps (h.sharedOffset cps) calls) }

/-! ## The virtual counter -/

def counter (h : Host) (c : Core) : Nat := cntvct h.now c.regs.vtimerOffset

/-- What the guest read on the primary vCPU at the capture: `save_state` keeps both the host
counter and the offset of that moment. -/
def capturedCounter (cps : List VcpuCheckpoint) : Nat :=
  ((primary cps).map fun cp => cntvct cp.state.hostCounter cp.state.vtimerOffset).getD 0

def Unshifted (cps : List VcpuCheckpoint) : Prop :=
  ∀ cp, primary cps = some cp → cp.state.vtimerOffset = 0

/-- The saved state is of a time not after `now`. -/
structure Timed (now : Nat) (s : VcpuState) : Prop where
  offset_le : s.vtimerOffset ≤ s.hostCounter
  counter_le : s.hostCounter ≤ now

variable {now off : Nat} {cps : List VcpuCheckpoint} {h h' : Host} {calls : Nat → Nat} {c : Core}

theorem Timed.mono {now' : Nat} {s : VcpuState} (h : Timed now s) (hle : now ≤ now') :
    Timed now' s := ⟨h.offset_le, h.counter_le.trans hle⟩

theorem primaryHc_le (h : ∀ cp ∈ cps, Timed now cp.state) : primaryHc cps ≤ now := by
  unfold primaryHc
  cases hp : primary cps with
  | none => exact Nat.zero_le _
  | some cp => exact (h cp (mem_of_primary hp)).counter_le

theorem primaryHc_eq_iff (h : ∀ cp ∈ cps, Timed now cp.state) (hnow : now < counterRange) :
    primaryHc cps = capturedCounter cps ↔ Unshifted cps := by
  unfold primaryHc capturedCounter Unshifted
  cases hp : primary cps with
  | none =>
    rw [map_none, map_none]
    exact ⟨fun _ _ hcp => (nomatch hcp), fun _ => rfl⟩
  | some cp =>
    have ht := h cp (mem_of_primary hp)
    have hoff := ht.offset_le
    have hlt : cp.state.hostCounter < counterRange := lt_of_le_of_lt ht.counter_le hnow
    rw [map_some, map_some, getD_some, getD_some,
      cntvct_eq hoff hlt]
    constructor
    · intro heq cp' hcp'
      obtain rfl := some.inj hcp'
      omega
    · intro hz
      have := hz cp rfl
      omega

/-- The times in a host's state are in order. -/
structure Timely (h : Host) : Prop where
  now_lt : h.now < counterRange
  cores : ∀ c ∈ h.cores, c.regs.vtimerOffset ≤ h.now
  collected : ∀ m s, (m, some s) ∈ h.collected → Timed h.now s
  point : ∀ cps, h.point = some cps → ∀ cp ∈ cps, Timed h.now cp.state
  disk : ∀ cps ∈ h.disk, ∀ cp ∈ cps, Timed h.now cp.state

theorem boot_timely (h : now < counterRange) : (boot now).Timely where
  now_lt := h
  cores := by
    intro c hc
    obtain rfl := mem_singleton.mp hc
    exact Nat.zero_le _
  collected := fun _ _ hm => nomatch hm
  point := fun _ hp => nomatch hp
  disk := fun _ hd => nomatch hd

theorem Timely.cntvct_sharedOffset (ht : h.Timely) (hcps : ∀ cp ∈ cps, Timed h.now cp.state) :
    cntvct h.now (h.sharedOffset cps) = primaryHc cps :=
  cntvct_vtimerOffsetFrom (primaryHc_le hcps) ht.now_lt

theorem sharedOffset_le (h : Host) (cps : List VcpuCheckpoint) : h.sharedOffset cps ≤ h.now :=
  Nat.sub_le _ _

/-! ## One vCPU -/

/-- How many register calls a complete `restore_state` makes. -/
def restoreCalls (s : VcpuState) : Nat := (registerWrites s).length + 1 + (interfaceWrites s).length

theorem length_restoreWrites (s : VcpuState) (off : Nat) :
    (restoreWrites s off).length = restoreCalls s := by
  unfold restoreWrites restoreCalls
  rw [length_append, length_cons]
  omega

theorem restoreCore_eq_some {cp : VcpuCheckpoint} (h : restoreCore off calls cp = some c) :
    restoreCalls cp.state ≤ calls cp.mpidr ∧ c.regs.vtimerOffset = off := by
  unfold restoreCore at h
  split at h
  next regs hrs =>
    cases h
    have hok := congrArg Prod.snd hrs
    have hregs := congrArg Prod.fst hrs
    have hle : restoreCalls cp.state ≤ calls cp.mpidr := by
      have := of_decide_eq_true hok
      rwa [length_restoreWrites] at this
    refine ⟨hle, ?_⟩
    show regs.vtimerOffset = off
    rw [← show _ = regs from hregs, Regs.restoreState_vtimerOffset, if_pos]
    unfold restoreCalls at hle
    omega
  · cases h

theorem restoreCore_isSome {cp : VcpuCheckpoint} (h : restoreCalls cp.state ≤ calls cp.mpidr) :
    ∃ c, restoreCore off calls cp = some c := by
  unfold restoreCore
  have hok : ((Regs.new cp.mpidr).restoreState cp.state off (calls cp.mpidr)).2 = true := by
    unfold Regs.restoreState
    rw [length_restoreWrites]
    exact decide_eq_true h
  split
  next regs _ => exact ⟨_, rfl⟩
  next regs hrs =>
    rw [hrs] at hok
    cases hok

def Given (cps : List VcpuCheckpoint) (calls : Nat → Nat) (c : Core) : Prop :=
  ∃ cp, (cps.find? fun cp => cp.mpidr == c.mpidr) = some cp ∧
    (registerWrites cp.state).length < calls c.mpidr

theorem resetCore_given (h : Given cps calls c) :
    (resetCore cps off calls c).regs.vtimerOffset = off := by
  obtain ⟨cp, hfind, hlt⟩ := h
  unfold resetCore
  rw [hfind]
  show (c.regs.restoreState cp.state off (calls c.mpidr)).1.vtimerOffset = off
  rw [Regs.restoreState_vtimerOffset, if_pos hlt]

theorem resetCore_not_given (h : ¬ Given cps calls c) :
    (resetCore cps off calls c).regs.vtimerOffset = c.regs.vtimerOffset := by
  unfold resetCore
  split
  next cp hfind =>
    show (c.regs.restoreState cp.state off (calls c.mpidr)).1.vtimerOffset = _
    rw [Regs.restoreState_vtimerOffset, if_neg]
    exact fun hlt => h ⟨cp, hfind, hlt⟩
  · rfl

/-! ## Runs -/

theorem Timely.captured (ht : h.Timely) {ok : Bool} (hcps : h.captured ok = some cps) :
    ∀ cp ∈ cps, Timed h.now cp.state := by
  intro cp hcp
  unfold Host.captured at hcps
  split at hcps
  · exact ht.collected _ _ (mem_of_collect hcps hcp)
  · cases hcps

theorem Timely.step {a : Act} (ht : h.Timely) (hst : h.step a = some h') :
    h'.Timely := by
  cases a with
  | tick elapsed =>
    simp only [Host.step] at hst
    obtain ⟨hlt, rfl⟩ := ite_some_none_eq_some.mp hst
    have hle : h.now ≤ h.now + elapsed := Nat.le_add_right _ _
    exact ⟨hlt, fun c hc => (ht.cores c hc).trans hle,
      fun m s hm => (ht.collected m s hm).mono hle,
      fun cps hp cp hcp => (ht.point cps hp cp hcp).mono hle,
      fun cps hd cp hcp => (ht.disk cps hd cp hcp).mono hle⟩
  | cpuOn mpidr =>
    simp only [Host.step] at hst
    split at hst
    · cases hst
    cases hst
    refine { ht with cores := fun c hc => ?_ }
    rcases mem_append.mp hc with hc | hc
    · exact ht.cores c hc
    · obtain rfl := mem_singleton.mp hc
      exact Nat.zero_le _
  | guest mpidr w =>
    simp only [Host.step] at hst
    split at hst
    · cases hst
    rename_i hw
    cases hst
    refine { ht with cores := fun c' hc' => ?_ }
    obtain ⟨c, hc, rfl⟩ := mem_map.mp hc'
    split
    · show (c.regs.write w).vtimerOffset ≤ h.now
      rw [Regs.write_vtimerOffset (Bool.eq_false_iff.mpr hw)]
      exact ht.cores c hc
    · exact ht.cores c hc
  | save mpidr ok =>
    simp only [Host.step] at hst
    split at hst
    · cases hst
    obtain ⟨c, hfind, rfl⟩ := map_eq_some_iff.mp hst
    refine { ht with collected := fun m s hm => ?_ }
    rcases mem_append.mp hm with hm | hm
    · exact ht.collected m s hm
    -- the state saved now: its offset is the vCPU's, its counter the present one
    have hs := (Prod.ext_iff.mp (mem_singleton.mp hm)).2
    split at hs
    · cases hs
      exact ⟨ht.cores c (mem_of_find?_eq_some hfind), le_rfl⟩
    · cases hs
  | snapshot ok =>
    simp only [Host.step] at hst
    split at hst
    · cases hst
      refine { ht with collected := fun _ _ hm => (nomatch hm), disk := fun cps hd => ?_ }
      rcases mem_append.mp hd with hd | hd
      · exact ht.disk cps hd
      · exact ht.captured (mem_toList.mp hd)
    · cases hst
  | checkpoint ok =>
    simp only [Host.step] at hst
    split at hst
    · cases hst
      refine { ht with collected := fun _ _ hm => (nomatch hm), point := fun cps hp => ?_ }
      rcases or_eq_some_iff.mp hp with hp | ⟨-, hp⟩
      · exact ht.captured hp
      · exact ht.point cps hp
    · cases hst
  | restore i calls =>
    obtain ⟨cps, hcps, rfl⟩ := map_eq_some_iff.mp hst
    have hmem := mem_of_getElem? hcps
    refine ⟨ht.now_lt, fun c hc => ?_, fun _ _ hm => (nomatch hm), fun cps' hp => ?_, ht.disk⟩
    · obtain ⟨cp, -, hcore⟩ := mem_filterMap.mp hc
      rw [(restoreCore_eq_some hcore).2]
      exact sharedOffset_le h cps
    · cases hp
      exact ht.disk cps hmem
  | reset calls =>
    obtain ⟨cps, hcps, rfl⟩ := map_eq_some_iff.mp hst
    refine { ht with cores := fun c' hc' => ?_ }
    obtain ⟨c, hc, rfl⟩ := mem_map.mp hc'
    by_cases hg : Given cps calls c
    · rw [resetCore_given hg]
      exact sharedOffset_le h cps
    · rw [resetCore_not_given hg]
      exact ht.cores c hc

def Act.puts (h : Host) : Act → Option (List VcpuCheckpoint)
  | .restore i _ => h.disk[i]?
  | .reset _ => h.point
  | _ => none

def Act.Continues (h : Host) (cps : List VcpuCheckpoint) : Act → Prop
  | .restore _ calls => ∀ cp ∈ cps, restoreCalls cp.state ≤ calls cp.mpidr → Unshifted cps
  | .reset calls => ∀ c ∈ h.cores,
      (Given cps calls c → Unshifted cps) ∧
        (¬ Given cps calls c → h.counter c = capturedCounter cps)
  | _ => True

theorem continues_restore_iff {i : Nat} (ht : h.Timely) (hst : h.step (.restore i calls) = some h')
    (hcps : h.disk[i]? = some cps) :
    (∀ c ∈ h'.cores, h'.counter c = capturedCounter cps) ↔
      (Act.restore i calls).Continues h cps := by
  have htimed := ht.disk cps (mem_of_getElem? hcps)
  have hcount := ht.cntvct_sharedOffset htimed
  simp only [Host.step, hcps, map_some, some.injEq] at hst
  subst hst
  constructor
  · intro hall cp hcp hcalls
    obtain ⟨c, hc⟩ : ∃ c, restoreCore (h.sharedOffset cps) calls cp = some c :=
      restoreCore_isSome hcalls
    have := hall c (mem_filterMap.mpr ⟨cp, hcp, hc⟩)
    unfold counter at this
    rw [(restoreCore_eq_some hc).2] at this
    exact (primaryHc_eq_iff htimed ht.now_lt).mp (hcount.symm.trans this)
  · intro hok c hc
    obtain ⟨cp, hcp, hcore⟩ := mem_filterMap.mp hc
    obtain ⟨hcalls, hoff⟩ := restoreCore_eq_some hcore
    unfold counter
    rw [hoff]
    exact hcount.trans ((primaryHc_eq_iff htimed ht.now_lt).mpr (hok cp hcp hcalls))

theorem continues_reset_iff (ht : h.Timely) (hst : h.step (.reset calls) = some h')
    (hcps : h.point = some cps) :
    (∀ c ∈ h'.cores, h'.counter c = capturedCounter cps) ↔ (Act.reset calls).Continues h cps := by
  have htimed := ht.point cps hcps
  have hcount := ht.cntvct_sharedOffset htimed
  simp only [Host.step, hcps, Option.map_some, some.injEq] at hst
  subst hst
  show (∀ c' ∈ h.cores.map (resetCore cps (h.sharedOffset cps) calls),
    cntvct h.now c'.regs.vtimerOffset = capturedCounter cps) ↔ _
  rw [List.forall_mem_map]
  refine forall₂_congr fun c hc => ?_
  by_cases hg : Given cps calls c
  · rw [resetCore_given hg, hcount, primaryHc_eq_iff htimed ht.now_lt]
    exact ⟨fun hu => ⟨fun _ => hu, fun hn => absurd hg hn⟩, fun hu => hu.1 hg⟩
  · rw [resetCore_not_given hg]
    exact ⟨fun heq => ⟨fun hy => absurd hy hg, fun _ => heq⟩, fun hu => hu.2 hg⟩

/-- **When the guest's clock continues.** In every run from a fresh boot, right after a restore
or a reset every vCPU reads the counter the primary had at the capture, exactly if the state
was captured with the primary's offset zero and no vCPU is left out. -/
theorem continuous_iff {now : Nat} {as : List Act} {h h' : Host} {a : Act}
    {cps : List VcpuCheckpoint} (hnow : now < counterRange)
    (hr : Run step (fun _ _ => True) (boot now) as h) (hst : h.step a = some h')
    (hcps : a.puts h = some cps) :
    (∀ c ∈ h'.cores, h'.counter c = capturedCounter cps) ↔ a.Continues h cps := by
  have ht : h.Timely := hr.invariant (fun _ _ _ hs _ hs' => hs.step hs') (boot_timely hnow)
  cases a with
  | restore i calls => exact continues_restore_iff ht hst hcps
  | reset calls => exact continues_reset_iff ht hst hcps
  | _ => cases hcps

/-! ### Two generations -/

def allCalls : Nat → Nat := fun _ => 1000

def firstGeneration : List Act := [.tick 5, .save 0 true, .snapshot true, .tick 5]

theorem step_tick {elapsed : Nat} (hlt : h.now + elapsed < counterRange) :
    h.step (.tick elapsed) = some { h with now := h.now + elapsed } := if_pos hlt

def firstTaken : List VcpuCheckpoint := [⟨0, (Regs.new 0).saveState 5⟩]

def firstHost : Host where
  now := 10
  cores := [⟨0, Regs.new 0⟩]
  collected := []
  point := none
  disk := [firstTaken]

theorem run_firstGeneration :
    Run step (fun _ _ => True) (boot 0) firstGeneration firstHost :=
  .cons trivial (step_tick (by decide)) (.cons trivial rfl (.cons trivial rfl
    (.cons trivial (step_tick (by decide)) (.nil _))))

theorem continuous_first_restore :
    ∃ h', firstHost.step (.restore 0 allCalls) = some h' ∧ h'.cores.length = 1 ∧
      ∀ c ∈ h'.cores, h'.counter c = capturedCounter firstTaken := by
  obtain ⟨h', hh'⟩ : ∃ h', firstHost.step (.restore 0 allCalls) = some h' := ⟨_, rfl⟩
  have hz : Unshifted firstTaken := by
    intro cp hcp
    cases hcp
    rfl
  refine ⟨h', hh', ?_, (continuous_iff (by decide) run_firstGeneration hh' rfl).mpr
    fun _ _ _ => hz⟩
  obtain rfl := some.inj hh'
  decide +kernel

def secondGeneration : List Act := .restore 0 allCalls :: firstGeneration

theorem second_restore_jumps :
    ∃ h h' cps, Run step (fun _ _ => True) (boot 0) (firstGeneration ++ secondGeneration) h ∧
      h.step (.restore 1 allCalls) = some h' ∧ h.disk[1]? = some cps ∧
      capturedCounter cps = 10 ∧ ∃ c ∈ h'.cores, h'.counter c = 15 := by
  obtain ⟨h, hrun, h', hstep, cps, hcps, hjump⟩ :
      ∃ h, Run step (fun _ _ => True) (boot 0) (firstGeneration ++ secondGeneration) h ∧
        ∃ h' ∈ h.step (.restore 1 allCalls), ∃ cps ∈ h.disk[1]?,
          capturedCounter cps = 10 ∧ ∃ c ∈ h'.cores, h'.counter c = 15 :=
    exists_run (by decide +kernel)
  exact ⟨h, h', cps, hrun, hstep, hcps, hjump⟩

end Host

end Ignition.Vmm
