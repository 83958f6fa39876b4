import Ignition.Vmm.Online
import Ignition.Vmm.Progress

/-!
# Coming up from a snapshot

`run_restored` starts one thread per checkpoint. Each creates its vCPU, and they meet twice at
one barrier; between the two waits the elected thread restores the interrupt controller. A
failure on the way sets `shutdown`, which is looked at after the second wait only.

The generation of the barrier says how far they are: a restored thread can be at few places in
each (`Pc.earlyAt`). Until the second wait is over without a failure no vCPU has its registers
back, so nothing but these threads, the requesters and `join_all` takes a step (`Early`), and
`Comes` lists what such a thread can do. Afterwards nothing touches the barrier, the interrupt
controller or the record of the failure again (`Late`).
-/

namespace Ignition.Vmm.Rendezvous

open Parties Runs List Function

/-! ## Where a restored vCPU can be -/

/-- The thread waits at the barrier of `run_restored` in generation `gen`. -/
def Pc.startWaits (gen : Nat) : Pc → Bool
  | .start (.blocked _ _ _ n) => n == gen
  | _ => false

def Pc.startLeads : Pc → Bool
  | .start (.lead _) => true
  | .start (.gic _) => true
  | _ => false

def Pc.tried : Pc → Bool
  | .absent => false
  | .start (.creating _) => false
  | _ => true

def Pc.blames : Pc → Bool
  | .start (.arrive _ created gicErr) => !created || gicErr
  | .start (.blocked _ created gicErr _) => !created || gicErr
  | .start (.lead created) => !created
  | .start (.gic created) => !created
  | .start (.check created gicErr) => !created || gicErr
  | .done ok => !ok
  | _ => false

def Pc.earlyAt (gen : Nat) : Pc → Prop
  | .absent => gen = 0
  | .start (.creating how) => how = .restored ∧ gen = 0
  | .start (.arrive .first _ gicErr) => gicErr = false ∧ gen = 0
  | .start (.blocked .first _ gicErr n) => gicErr = false ∧ n = 0 ∧ gen ≤ 1
  | .start (.lead _) => gen = 1
  | .start (.gic _) => gen = 1
  | .start (.arrive .second _ _) => gen = 1
  | .start (.blocked .second _ _ n) => n = 1 ∧ 1 ≤ gen
  | .start (.check _ _) => gen = 2
  | .done _ => gen = 2
  | _ => False

def Pc.late : Pc → Bool
  | .start (.creating how) => how != .restored
  | .start (.arrive _ _ _) => false
  | .start (.blocked .first _ _ _) => false
  | .start (.blocked .second created gicErr n) => created && !gicErr && n == 1
  | .start (.lead _) => false
  | .start (.gic _) => false
  | .start (.check created gicErr) => created && !gicErr
  | _ => true

def Pc.resumed : Pc → Bool
  | .start .restore => true
  | p => p.online

/-- What a thread of `run_restored` does until the vCPUs may resume. -/
inductive Comes (sh : Shared) (t : Nat) : Pc → Shared → Pc → Prop where
  | begins : Comes sh t .absent sh (.start (.creating .restored))
  | creates : Comes sh t (.start (.creating .restored)) { sh with vcpuids := sh.vcpuids ++ [t] }
      (.start (.arrive .first true false))
  | fails : Comes sh t (.start (.creating .restored))
      { sh with shutdown := true, startFailed := true } (.start (.arrive .first false false))
  | waits (half : Half) (created gicErr : Bool)
      (hlt : sh.startBarrier.count + 1 < sh.startBarrier.size) :
      Comes sh t (.start (.arrive half created gicErr))
        { sh with startBarrier := { sh.startBarrier with count := sh.startBarrier.count + 1 } }
        (.start (.blocked half created gicErr sh.startBarrier.gen))
  | elected (created gicErr : Bool) (hlast : ¬ sh.startBarrier.count + 1 < sh.startBarrier.size) :
      Comes sh t (.start (.arrive .first created gicErr))
        { sh with startBarrier :=
          { sh.startBarrier with count := 0, gen := sh.startBarrier.gen + 1 } }
        (.start (.lead created))
  | opens (created gicErr : Bool) (hlast : ¬ sh.startBarrier.count + 1 < sh.startBarrier.size) :
      Comes sh t (.start (.arrive .second created gicErr))
        { sh with startBarrier :=
          { sh.startBarrier with count := 0, gen := sh.startBarrier.gen + 1 } }
        (.start (.check created gicErr))
  | passes (created gicErr : Bool) (n : Nat) (hne : sh.startBarrier.gen ≠ n) :
      Comes sh t (.start (.blocked .first created gicErr n)) sh
        (.start (.arrive .second created gicErr))
  | leaves (created gicErr : Bool) (n : Nat) (hne : sh.startBarrier.gen ≠ n) :
      Comes sh t (.start (.blocked .second created gicErr n)) sh (.start (.check created gicErr))
  | skips (created : Bool) (hnone : sh.shutdown = true ∨ sh.gicBlob = false) :
      Comes sh t (.start (.lead created)) sh (.start (.arrive .second created false))
  | takes (created : Bool) (hup : sh.shutdown = false) (hblob : sh.gicBlob = true) :
      Comes sh t (.start (.lead created)) sh (.start (.gic created))
  | restores (created : Bool) :
      Comes sh t (.start (.gic created)) { sh with gicRestores := sh.gicRestores + 1 }
        (.start (.arrive .second created false))
  | refuses (created : Bool) :
      Comes sh t (.start (.gic created)) { sh with shutdown := true, startFailed := true }
        (.start (.arrive .second created true))
  | bails (created gicErr : Bool) (hdown : sh.shutdown = true) :
      Comes sh t (.start (.check created gicErr)) sh (.done (created && !gicErr))

section

variable {sh : Shared} {t : Nat} {p : Pc} {pick : Pick} {x : Shared × Pc}

theorem Goes.comes (hm : Goes sh t p pick x) (hp : p.earlyAt sh.startBarrier.gen)
    (hstart : p = .absent → sh.spawned.lookup t = some .restored)
    (hdown : sh.startBarrier.gen = 2 → sh.shutdown = true) : Comes sh t p x.1 x.2 := by
  cases hm with
  | born start hlook =>
    cases hlook.symm.trans (hstart rfl)
    exact .begins
  | created => exact .creates
  | notCreated => exact .fails
  | registered start hne | notRegistered start hne => exact absurd hp.1 hne
  | startWaits half created gicErr hlt => exact .waits half created gicErr hlt
  | startLeads created gicErr hlt => exact .elected created gicErr hlt
  | startOpens created gicErr hlt => exact .opens created gicErr hlt
  | startWakes created gicErr n hne => exact .passes created gicErr n hne
  | startLeaves created gicErr n hne => exact .leaves created gicErr n hne
  | skipsGic created hskip =>
    refine .skips created ?_
    simpa using hskip
  | startsGic created hskip =>
    rw [Bool.or_eq_false_iff, Bool.not_eq_false'] at hskip
    exact .takes created hskip.1 hskip.2
  | gicRestored created => exact .restores created
  | gicFailed created => exact .refuses created
  | stops created gicErr hup => exact .bails created gicErr hup
  -- the second wait is over, so there has been a failure
  | goesOn gicErr hup => cases hup.symm.trans (hdown hp)
  | unwraps gicErr hup => cases hup.symm.trans (hdown hp)
  | _ => exact absurd hp id

end

/-! ## Until the vCPUs may resume -/

/-- The restored threads at their barrier. -/
structure Meeting (ids : List Nat) (s : State) : Prop where
  gen_le : s.sh.startBarrier.gen ≤ 2
  room : s.sh.startBarrier.Room
  tally : s.sh.startBarrier.gen < 2 →
    Tally s.sh.startBarrier ids fun t => (s.pc t).startWaits s.sh.startBarrier.gen
  spawned : s.sh.spawned = ids.map fun t => (t, .restored)
  outside : ∀ u, u ∉ ids → s.pc u = .absent
  place : ∀ t ∈ ids, (s.pc t).earlyAt s.sh.startBarrier.gen

/-- `shutdown` is up exactly if something has failed, and somebody will return the error. -/
structure Failing (ids : List Nat) (s : State) : Prop where
  down : s.sh.shutdown = s.sh.startFailed
  created : ∀ t ∈ ids, (s.pc t).tried = true → s.sh.startFailed = true ∨ t ∈ s.sh.vcpuids
  guilty : ∀ t, (s.pc t).blames = true → s.sh.startFailed = true
  blamed : s.sh.startFailed = true → ∃ t ∈ ids, (s.pc t).blames = true

/-- The interrupt controller is restored by the one elected thread, unless something has failed
or there is nothing to restore. -/
structure GicOnce (s : State) : Prop where
  leader : ∀ t u, (s.pc t).startLeads = true → (s.pc u).startLeads = true → t = u
  atGic : ∀ t created, s.pc t = .start (.gic created) →
    s.sh.startFailed = false ∧ s.sh.gicBlob = true
  none : s.sh.startBarrier.gen = 0 ∨ (∃ t, (s.pc t).startLeads = true) ∨ s.sh.startFailed = true ∨
    s.sh.gicBlob = false → s.sh.gicRestores = 0
  once : s.sh.startBarrier.gen ≠ 0 → (∀ t, (s.pc t).startLeads = false) →
    s.sh.startFailed = false → s.sh.gicBlob = true → s.sh.gicRestores = 1

def MainPc.ok : MainPc → Bool
  | .popping ok => ok
  | .joining _ ok => ok
  | .returned ok => ok

/-- `join_all` has the handles of the restored threads only, and passes their errors on. -/
structure Joining (ids : List Nat) (s : State) : Prop where
  handles : ∀ t ∈ s.sh.threads, t ∈ ids
  joining : ∀ t ok, s.main = .joining t ok → t ∈ ids
  joined : ∀ t ∈ ids, t ∈ s.sh.threads ∨ (∃ ok, s.main = .joining t ok) ∨
    ∃ res, s.pc t = .done res ∧ (res = false → s.main.ok = false)
  drained : ∀ ok, s.main = .returned ok → s.sh.threads = []

section

variable {ids : List Nat} {s : State} {sh' : Shared} {t : Nat} {p p' : Pc} {gen : Nat}

theorem Pc.startWaits_succ (h : p.startWaits gen = true) : p.startWaits (gen + 1) = false := by
  unfold startWaits at h ⊢
  split at h
  · have hn := eq_of_beq h
    exact beq_eq_false_iff_ne.mpr (by omega)
  · cases h

theorem Pc.earlyAt_succ (h : p.startWaits gen = true) (hp : p.earlyAt gen) (hlt : gen < 2) :
    p.earlyAt (gen + 1) := by
  unfold startWaits at h
  split at h
  · rename_i half created gicErr n
    obtain rfl := eq_of_beq h
    cases half with
    | first =>
      obtain ⟨he, hn, -⟩ := hp
      exact ⟨he, hn, by omega⟩
    | second => exact ⟨hp.1, by omega⟩
  · cases h

theorem Meeting.outside_update (h : Meeting ids s) (ht : t ∈ ids) (u : Nat) (hu : u ∉ ids) :
    update s.pc t p' u = .absent := by
  have hut : u ≠ t := fun hut => hu (hut ▸ ht)
  exact (update_of_ne hut _ _).trans (h.outside u hu)

theorem Meeting.go (h : Meeting ids s) (ht : t ∈ ids)
    (hbarrier : sh'.startBarrier = s.sh.startBarrier) (hspawned : sh'.spawned = s.sh.spawned)
    (hwaits : p'.startWaits s.sh.startBarrier.gen = (s.pc t).startWaits s.sh.startBarrier.gen)
    (hplace : p'.earlyAt s.sh.startBarrier.gen) :
    Meeting ids { s with sh := sh', pc := update s.pc t p' } := by
  constructor
  · dsimp only
    rw [hbarrier]
    exact h.gen_le
  · dsimp only
    rw [hbarrier]
    exact h.room
  · dsimp only
    rw [hbarrier]
    intro hlt
    refine (h.tally hlt).congr fun u _ => ?_
    by_cases hut : u = t
    · subst hut
      rw [update_self, hwaits]
    · rw [update_of_ne hut]
  · exact hspawned.trans h.spawned
  · exact h.outside_update ht
  · dsimp only
    rw [hbarrier]
    exact forall_update (P := fun u q => u ∈ ids → q.earlyAt _) h.place fun _ => hplace

theorem Meeting.wait (h : Meeting ids s) (ht : t ∈ ids) (hlt : s.sh.startBarrier.gen < 2)
    (hlast : s.sh.startBarrier.count + 1 < s.sh.startBarrier.size)
    (hnot : (s.pc t).startWaits s.sh.startBarrier.gen = false)
    (hwaits : p'.startWaits s.sh.startBarrier.gen = true)
    (hplace : p'.earlyAt s.sh.startBarrier.gen) :
    Meeting ids { s with
      sh := { s.sh with
        startBarrier := { s.sh.startBarrier with count := s.sh.startBarrier.count + 1 } }
      pc := update s.pc t p' } := by
  refine ⟨h.gen_le, hlast, fun _ => ?_, h.spawned, h.outside_update ht, ?_⟩
  · refine (h.tally hlt).stay ht hnot ?_ fun u _ hut => ?_
    · dsimp only
      rw [update_self]
      exact hwaits
    · dsimp only
      rw [update_of_ne hut]
  · exact forall_update (P := fun u q => u ∈ ids → q.earlyAt _) h.place fun _ => hplace

theorem Meeting.turn (h : Meeting ids s) (ht : t ∈ ids) (hlt : s.sh.startBarrier.gen < 2)
    (hlast : ¬ s.sh.startBarrier.count + 1 < s.sh.startBarrier.size)
    (hnot : (s.pc t).startWaits s.sh.startBarrier.gen = false)
    (hwaits : p'.startWaits (s.sh.startBarrier.gen + 1) = false)
    (hplace : p'.earlyAt (s.sh.startBarrier.gen + 1)) :
    Meeting ids { s with
      sh := { s.sh with
        startBarrier :=
          { s.sh.startBarrier with count := 0, gen := s.sh.startBarrier.gen + 1 } }
      pc := update s.pc t p' } := by
  have htally := h.tally hlt
  have hothers : ∀ u ∈ ids, u ≠ t → (s.pc u).startWaits s.sh.startBarrier.gen = true :=
    fun u hu hut => htally.last ht hnot hlast hu hut
  refine ⟨by dsimp only; omega, Nat.lt_of_le_of_lt (Nat.zero_le _) h.room, fun _ => ?_, h.spawned,
    h.outside_update ht, ?_⟩
  · refine htally.next ?_
    refine forall_update_ne (P := fun u q => u ∈ ids → q.startWaits _ = false) (fun _ => hwaits)
      fun u hut hu => ?_
    exact Pc.startWaits_succ (hothers u hu hut)
  · refine forall_update_ne (P := fun u q => u ∈ ids → q.earlyAt _) (fun _ => hplace)
      fun u hut hu => ?_
    exact Pc.earlyAt_succ (hothers u hu hut) (h.place u hu) hlt

/-- **The barrier, step by step.** -/
theorem Meeting.step (h : Meeting ids s) (ht : t ∈ ids) (hp : s.pc t = p)
    (hc : Comes s.sh t p sh' p') :
    Meeting ids { s with sh := sh', pc := update s.pc t p' } := by
  have hplace := h.place t ht
  rw [hp] at hplace
  cases hc with
  | begins => exact h.go ht rfl rfl (by rw [hp]; rfl) ⟨rfl, hplace⟩
  | creates | fails => exact h.go ht rfl rfl (by rw [hp]; rfl) ⟨rfl, hplace.2⟩
  | waits half created gicErr hlt =>
    refine h.wait ht ?_ hlt (by rw [hp]; rfl) (beq_self_eq_true _) ?_
    · cases half with
      | first =>
        have := hplace.2
        omega
      | second =>
        have : s.sh.startBarrier.gen = 1 := hplace
        omega
    · cases half with
      | first => exact ⟨hplace.1, hplace.2, hplace.2 ▸ Nat.zero_le 1⟩
      | second => exact ⟨hplace, Nat.le_of_eq hplace.symm⟩
  | elected created gicErr hlast =>
    have hzero := hplace.2
    exact h.turn ht (by omega) hlast (by rw [hp]; rfl) rfl (congrArg (· + 1) hzero)
  | opens created gicErr hlast =>
    have hone : s.sh.startBarrier.gen = 1 := hplace
    exact h.turn ht (by omega) hlast (by rw [hp]; rfl) rfl (congrArg (· + 1) hone)
  | passes created gicErr n hne =>
    obtain ⟨-, hn, hle⟩ := hplace
    refine h.go ht rfl rfl ?_ ?_
    · rw [hp]
      exact (beq_eq_false_iff_ne.mpr (Ne.symm hne)).symm
    · show s.sh.startBarrier.gen = 1
      omega
  | leaves created gicErr n hne =>
    obtain ⟨hn, hle⟩ := hplace
    have hle' := h.gen_le
    refine h.go ht rfl rfl ?_ ?_
    · rw [hp]
      exact (beq_eq_false_iff_ne.mpr (Ne.symm hne)).symm
    · show s.sh.startBarrier.gen = 2
      omega
  | skips created | takes created | restores created | refuses created | bails created gicErr =>
    exact h.go ht rfl rfl (by rw [hp]; rfl) hplace

theorem Failing.keep (h : Failing ids s) (hshutdown : sh'.shutdown = s.sh.shutdown)
    (hfailed : sh'.startFailed = s.sh.startFailed) (hsub : s.sh.vcpuids ⊆ sh'.vcpuids)
    (htried : t ∈ ids → p'.tried = true → s.sh.startFailed = true ∨ t ∈ sh'.vcpuids)
    (hblames : p'.blames = (s.pc t).blames) :
    Failing ids { s with sh := sh', pc := update s.pc t p' } := by
  have hsame : ∀ u, (update s.pc t p' u).blames = (s.pc u).blames := fun u =>
    forall_update_ne (P := fun u q => q.blames = (s.pc u).blames) hblames (fun _ _ => rfl) u
  refine ⟨?_, ?_, fun u hu => ?_, fun hfail => ?_⟩
  · exact hshutdown.trans (h.down.trans hfailed.symm)
  · dsimp only
    rw [hfailed]
    refine forall_update (P := fun u q => u ∈ ids → q.tried = true → _ ∨ u ∈ sh'.vcpuids)
      (fun u hu hq => ?_) htried
    exact (h.created u hu hq).imp_right fun hmem => hsub hmem
  · dsimp only at hu ⊢
    rw [hfailed]
    exact h.guilty u ((hsame u).symm.trans hu)
  · obtain ⟨u, hu, hb⟩ := h.blamed (hfailed.symm.trans hfail)
    exact ⟨u, hu, (hsame u).trans hb⟩

theorem Failing.fail (ht : t ∈ ids) (hblames : p'.blames = true) :
    Failing ids { s with
      sh := { s.sh with shutdown := true, startFailed := true }
      pc := update s.pc t p' } := by
  refine ⟨rfl, fun _ _ _ => .inl rfl, fun _ _ => rfl, fun _ => ⟨t, ht, ?_⟩⟩
  dsimp only
  rw [update_self]
  exact hblames

/-- **Failures, step by step.** -/
theorem Failing.step (h : Failing ids s) (ht : t ∈ ids) (hp : s.pc t = p)
    (hplace : p.earlyAt s.sh.startBarrier.gen) (hc : Comes s.sh t p sh' p') :
    Failing ids { s with sh := sh', pc := update s.pc t p' } := by
  have hmade : p.tried = true → s.sh.startFailed = true ∨ t ∈ s.sh.vcpuids := fun htried =>
    h.created t ht (by rw [hp]; exact htried)
  have hsub : s.sh.vcpuids ⊆ s.sh.vcpuids := fun _ hmem => hmem
  cases hc with
  | begins => exact h.keep rfl rfl hsub (fun _ hh => nomatch hh) (by rw [hp]; rfl)
  | creates =>
    refine h.keep rfl rfl (subset_append_left _ _) (fun _ _ => .inr ?_) (by rw [hp]; rfl)
    exact mem_append_right _ mem_cons_self
  | fails => exact .fail ht rfl
  | waits half created gicErr hlt | opens created gicErr hlast | passes created gicErr n hne
  | leaves created gicErr n hne | takes created =>
    exact h.keep rfl rfl hsub (fun _ _ => hmade rfl) (by rw [hp]; rfl)
  | elected created gicErr hlast =>
    -- the error of the interrupt controller is not there yet, so nothing is forgotten
    obtain ⟨rfl, -⟩ := hplace
    exact h.keep rfl rfl hsub (fun _ _ => hmade rfl) (by rw [hp]; cases created <;> rfl)
  | skips created | restores created =>
    exact h.keep rfl rfl hsub (fun _ _ => hmade rfl) (by rw [hp]; cases created <;> rfl)
  | refuses created => exact .fail ht (by cases created <;> rfl)
  | bails created gicErr =>
    exact h.keep rfl rfl hsub (fun _ _ => hmade rfl)
      (by rw [hp]; cases created <;> cases gicErr <;> rfl)

theorem Pc.gen_of_startLeads (hp : p.earlyAt gen) (h : p.startLeads = true) : gen = 1 := by
  unfold startLeads at h
  split at h
  · exact hp
  · exact hp
  · cases h

theorem Meeting.no_leader (h : Meeting ids s) (hgen : s.sh.startBarrier.gen ≠ 1) (u : Nat) :
    (s.pc u).startLeads = false := by
  by_cases hu : u ∈ ids
  · exact eq_false_of_ne_true fun hl => hgen (Pc.gen_of_startLeads (h.place u hu) hl)
  · rw [h.outside u hu]
    rfl

theorem GicOnce.keep (h : GicOnce s)
    (hgen : sh'.startBarrier.gen = 0 ↔ s.sh.startBarrier.gen = 0)
    (hblob : sh'.gicBlob = s.sh.gicBlob) (hrestores : sh'.gicRestores = s.sh.gicRestores)
    (hfailed : sh'.startFailed = s.sh.startFailed) (hnot : (s.pc t).startLeads = false)
    (hnot' : p'.startLeads = false) :
    GicOnce { s with sh := sh', pc := update s.pc t p' } := by
  have hsame : ∀ u, (update s.pc t p' u).startLeads = (s.pc u).startLeads := fun u =>
    forall_update_ne (P := fun u q => q.startLeads = (s.pc u).startLeads) (hnot'.trans hnot.symm)
      (fun _ _ => rfl) u
  constructor
  · intro u v hu hv
    exact h.leader u v ((hsame u).symm.trans hu) ((hsame v).symm.trans hv)
  · dsimp only
    rw [hfailed, hblob]
    refine forall_update (P := fun u q => ∀ c, q = .start (.gic c) → _ ∧ _) h.atGic fun c hc => ?_
    rw [hc] at hnot'
    cases hnot'
  · dsimp only
    rw [hgen, hfailed, hblob, hrestores]
    simp only [hsame]
    exact h.none
  · dsimp only
    rw [Ne, hgen, hfailed, hblob, hrestores]
    simp only [hsame]
    exact h.once

theorem GicOnce.no_leader (h : GicOnce s) (hleads : (s.pc t).startLeads = true)
    (hnot' : p'.startLeads = false) (u : Nat) :
    (update s.pc t p' u).startLeads = false := by
  refine forall_update_ne (P := fun _ q => q.startLeads = false) hnot' (fun v hv => ?_) u
  exact eq_false_of_ne_true fun hl => hv (h.leader v t hl hleads)

theorem GicOnce.of_no_leader (hno : ∀ u, (s.pc u).startLeads = false)
    (hnone : s.sh.startBarrier.gen = 0 ∨ s.sh.startFailed = true ∨ s.sh.gicBlob = false →
      s.sh.gicRestores = 0)
    (honce : s.sh.startBarrier.gen ≠ 0 → s.sh.startFailed = false → s.sh.gicBlob = true →
      s.sh.gicRestores = 1) : GicOnce s := by
  constructor
  · intro u _ hu _
    rw [hno u] at hu
    cases hu
  · intro u created hp
    have hu := hno u
    rw [hp] at hu
    cases hu
  · rintro (hzero | ⟨u, hu⟩ | hrest)
    · exact hnone (.inl hzero)
    · rw [hno u] at hu
      cases hu
    · exact hnone (.inr hrest)
  · exact fun hgen _ => honce hgen

theorem GicOnce.of_leader (hleads : (s.pc t).startLeads = true)
    (hno : ∀ u, u ≠ t → (s.pc u).startLeads = false)
    (hgic : ∀ created, s.pc t = .start (.gic created) →
      s.sh.startFailed = false ∧ s.sh.gicBlob = true)
    (hnone : s.sh.gicRestores = 0) : GicOnce s := by
  have honly : ∀ u, (s.pc u).startLeads = true → u = t := by
    intro u hu
    by_contra hut
    rw [hno u hut] at hu
    cases hu
  refine ⟨fun u v hu hv => (honly u hu).trans (honly v hv).symm, fun u created hp => ?_,
    fun _ => hnone, fun _ hall => ?_⟩
  · obtain rfl := honly u (by rw [hp]; rfl)
    exact hgic created hp
  · rw [hall t] at hleads
    cases hleads

/-- **The interrupt controller, step by step.** -/
theorem GicOnce.step (h : GicOnce s) (hm : Meeting ids s) (hdown : s.sh.shutdown = s.sh.startFailed)
    (ht : t ∈ ids) (hp : s.pc t = p) (hc : Comes s.sh t p sh' p') :
    GicOnce { s with sh := sh', pc := update s.pc t p' } := by
  have hplace := hm.place t ht
  rw [hp] at hplace
  have hleads : p.startLeads = true → (s.pc t).startLeads = true := (hp ▸ ·)
  cases hc with
  | begins | creates | waits half created gicErr hlt | passes created gicErr n hne
  | leaves created gicErr n hne | bails created gicErr =>
    exact h.keep Iff.rfl rfl rfl rfl (by rw [hp]; rfl) rfl
  | fails =>
    have hzero := hplace.2
    refine .of_no_leader ?_ (fun _ => h.none (.inl hzero)) fun hgen => absurd hzero hgen
    exact forall_update (P := fun _ q => q.startLeads = false) (hm.no_leader (by omega)) rfl
  | elected created gicErr hlast =>
    have hzero := hplace.2
    refine .of_leader (t := t) ?_ (fun u hut => ?_) (fun c hcu => ?_) (h.none (.inl hzero))
    · dsimp only
      rw [update_self]
      rfl
    · dsimp only
      rw [update_of_ne hut]
      exact hm.no_leader (by omega) u
    · dsimp only at hcu
      rw [update_self] at hcu
      cases hcu
  | opens created gicErr hlast =>
    have hone : s.sh.startBarrier.gen = 1 := hplace
    refine h.keep ?_ rfl rfl rfl (by rw [hp]; rfl) rfl
    dsimp only
    omega
  | skips created hnone =>
    refine .of_no_leader (h.no_leader (hleads rfl) rfl) (fun _ => h.none (.inr (.inl ⟨t, hleads rfl⟩)))
      fun _ hok hblob => ?_
    rcases hnone with hnone | hnone
    · cases hnone.symm.trans (hdown.trans hok)
    · cases hnone.symm.trans hblob
  | takes created hup hblob =>
    refine .of_leader (t := t) ?_ (fun u hut => ?_) (fun _ _ => ⟨hdown.symm.trans hup, hblob⟩)
      (h.none (.inr (.inl ⟨t, hleads rfl⟩)))
    · dsimp only
      rw [update_self]
      rfl
    · dsimp only
      rw [update_of_ne hut]
      exact eq_false_of_ne_true fun hu => hut (h.leader u t hu (hleads rfl))
  | restores created =>
    obtain ⟨hok, hblob⟩ := h.atGic t created hp
    have hgen : s.sh.startBarrier.gen = 1 := hplace
    have hzero := h.none (.inr (.inl ⟨t, hleads rfl⟩))
    refine .of_no_leader (h.no_leader (hleads rfl) rfl) ?_ fun _ _ _ => congrArg (· + 1) hzero
    rintro (hno | hno | hno)
    · exact absurd (hno.symm.trans hgen) (by omega)
    · cases hno.symm.trans hok
    · cases hno.symm.trans hblob
  | refuses created =>
    exact .of_no_leader (h.no_leader (hleads rfl) rfl)
      (fun _ => h.none (.inr (.inl ⟨t, hleads rfl⟩))) fun _ hok => nomatch hok

theorem Joining.step (h : Joining ids s) (hp : s.pc t = p) (hc : Comes s.sh t p sh' p') :
    Joining ids { s with sh := sh', pc := update s.pc t p' } := by
  have hthreads : sh'.threads = s.sh.threads := by cases hc <;> rfl
  have hnot : ∀ res, s.pc t ≠ .done res := by
    intro res hdone
    rw [hp] at hdone
    subst hdone
    cases hc
  refine ⟨?_, h.joining, fun u hu => ?_, fun ok hret => hthreads.trans (h.drained ok hret)⟩
  · dsimp only
    rw [hthreads]
    exact h.handles
  · dsimp only
    rw [hthreads]
    refine (h.joined u hu).imp_right (Or.imp_right ?_)
    rintro ⟨res, hdone, hres⟩
    have hut : u ≠ t := by
      rintro rfl
      exact hnot res hdone
    exact ⟨res, (update_of_ne hut _ _).trans hdone, hres⟩

end

/-- No vCPU may resume: the threads are not through both waits, or something has failed. -/
structure Early (ids : List Nat) (s : State) : Prop where
  stage : s.sh.startBarrier.gen < 2 ∨ s.sh.startFailed = true
  meeting : Meeting ids s
  failing : Failing ids s
  gic : GicOnce s
  joining : Joining ids s

/-- The threads are through both waits and nothing has failed. -/
structure Late (ids : List Nat) (s : State) : Prop where
  gen_eq : s.sh.startBarrier.gen = 2
  ok : s.sh.startFailed = false
  created : ∀ t ∈ ids, t ∈ s.sh.vcpuids
  gic : s.sh.gicRestores = if s.sh.gicBlob then 1 else 0
  late : ∀ u, (s.pc u).late = true
  fresh : ∀ u, s.pc u = .absent → (u, Start.restored) ∉ s.sh.spawned

section

variable {ids : List Nat} {s : State} {t : Nat} {p : Pc} {pick : Pick} {x : Shared × Pc}

theorem Pc.tried_of_earlyAt {gen : Nat} (hgen : gen ≠ 0) (h : p.earlyAt gen) : p.tried = true := by
  cases p with
  | absent => exact absurd h hgen
  | start q =>
    cases q with
    | creating how => exact absurd h.2 hgen
    | _ => rfl
  | _ => rfl

theorem Pc.late_of_earlyAt (h : p.earlyAt 2) (hblames : p.blames = false) : p.late = true := by
  cases p with
  | start q =>
    cases q with
    | creating how => cases h.2
    | arrive half created gicErr =>
      cases half with
      | first => cases h.2
      | second => cases h
    | blocked half created gicErr n =>
      cases half with
      | first => exact absurd h.2.2 (by omega)
      | second =>
        obtain ⟨rfl, -⟩ := h
        simpa [blames, late] using hblames
    | lead created | gic created => cases h
    | check created gicErr => simpa [blames, late] using hblames
    | _ => rfl
  | _ => rfl

theorem Late.of_meeting (hm : Meeting ids s) (hf : Failing ids s) (hg : GicOnce s)
    (hgen : s.sh.startBarrier.gen = 2) (hok : s.sh.startFailed = false) : Late ids s := by
  have hplace : ∀ t ∈ ids, (s.pc t).earlyAt 2 := hgen ▸ hm.place
  refine ⟨hgen, hok, fun t ht => ?_, ?_, fun u => ?_, fun u hu => ?_⟩
  · refine (hf.created t ht (Pc.tried_of_earlyAt (by decide) (hplace t ht))).resolve_left fun hfail => ?_
    cases hok.symm.trans hfail
  · cases hblob : s.sh.gicBlob with
    | false => exact hg.none (.inr (.inr (.inr hblob)))
    | true => exact hg.once (by omega) (hm.no_leader (by omega)) hok hblob
  · by_cases hu : u ∈ ids
    · refine Pc.late_of_earlyAt (hplace u hu) (eq_false_of_ne_true fun hb => ?_)
      cases hok.symm.trans (hf.guilty u hb)
    · rw [hm.outside u hu]
      rfl
  · rw [hm.spawned]
    intro hmem
    obtain ⟨v, hv, heq⟩ := mem_map.mp hmem
    obtain rfl : v = u := congrArg Prod.fst heq
    have := hplace v hv
    rw [hu] at this
    cases this

theorem Meeting.lookup (h : Meeting ids s) : s.sh.spawned.lookup t =
    if t ∈ ids then some .restored else none := by
  rw [h.spawned]
  clear h
  induction ids with
  | nil => rfl
  | cons i ids ih =>
    rw [map_cons, lookup_cons, ih]
    by_cases hti : t = i
    · subst hti
      rw [beq_self_eq_true, if_pos mem_cons_self]
    · simp only [beq_false_of_ne hti, mem_cons, hti, false_or]

theorem Early.comes (h : Early ids s) (hm : Goes s.sh t (s.pc t) pick x) :
    t ∈ ids ∧ Comes s.sh t (s.pc t) x.1 x.2 := by
  have ht : t ∈ ids := by
    by_contra hnot
    rw [h.meeting.outside t hnot] at hm
    cases hm with
    | born start hlook =>
      rw [h.meeting.lookup, if_neg hnot] at hlook
      cases hlook
  refine ⟨ht, hm.comes (h.meeting.place t ht) (fun _ => ?_) fun hgen => ?_⟩
  · rw [h.meeting.lookup, if_pos ht]
  · rw [h.failing.down]
    exact h.stage.resolve_left (by omega)

theorem Early.thread (h : Early ids s) (hmove : Goes s.sh t (s.pc t) pick x) :
    Early ids { s with sh := x.1, pc := update s.pc t x.2 } ∨
      Late ids { s with sh := x.1, pc := update s.pc t x.2 } := by
  obtain ⟨ht, hc⟩ := h.comes hmove
  have hm := h.meeting.step ht rfl hc
  have hf := h.failing.step ht rfl (h.meeting.place t ht) hc
  have hg := h.gic.step h.meeting h.failing.down ht rfl hc
  by_cases hstage : x.1.startBarrier.gen < 2 ∨ x.1.startFailed = true
  · exact .inl ⟨hstage, hm, hf, hg, h.joining.step rfl hc⟩
  rw [not_or] at hstage
  have hle := hm.gen_le
  dsimp only at hle
  exact .inr (.of_meeting hm hf hg (by dsimp only; omega) (eq_false_of_ne_true hstage.2))

end

end Ignition.Vmm.Rendezvous
