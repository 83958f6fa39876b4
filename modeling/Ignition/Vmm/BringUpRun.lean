import Ignition.Vmm.BringUp

/-!
# Every run that comes up from a snapshot

The requesters and `join_all` do not interfere with the restored threads, and once the vCPUs
have resumed nothing goes back to the bring-up (`UpLeft`), so every state of a run is `Early`
or `Late`. As long as it is `Early`, some restored thread can take a step and every step brings
it closer to the second wait, or to its end if something has failed (`Pc.toComeUp`); hence
nobody waits for ever, and after a failure `join_all` gets its error (`bring_up_exact`).
-/

namespace Ignition.Vmm.Rendezvous

open Parties Runs List

/-! ## Steps that leave the bring-up alone -/

/-- The bring-up is over: more vCPUs may come up, but not by a restore. -/
structure UpLeft (sh sh' : Shared) : Prop where
  startBarrier : sh'.startBarrier = sh.startBarrier
  gicBlob : sh'.gicBlob = sh.gicBlob
  gicRestores : sh'.gicRestores = sh.gicRestores
  startFailed : sh'.startFailed = sh.startFailed
  vcpuids : sh.vcpuids ⊆ sh'.vcpuids
  spawned : ∀ u, (u, Start.restored) ∈ sh'.spawned → (u, Start.restored) ∈ sh.spawned

section

variable {sh sh' : Shared} {t : Nat} {p : Pc} {pick : Pick} {x : Shared × Pc}

theorem UpLeft.refl (sh : Shared) : UpLeft sh sh :=
  ⟨rfl, rfl, rfl, rfl, fun _ hu => hu, fun _ hu => hu⟩

def Pc.pastStart (p : Pc) : Prop := p.late = true ∧ p ≠ .absent

theorem Goes.upLeft (hm : Goes sh t p pick x) (hlate : p.late = true)
    (hfresh : p = .absent → (t, Start.restored) ∉ sh.spawned) : UpLeft sh x.1 ∧ x.2.pastStart := by
  have hsame := UpLeft.refl sh
  cases hm with
  | born how hhow =>
    refine ⟨hsame, bne_iff_ne.mpr fun hr => hfresh rfl ?_, Pc.noConfusion⟩
    -- the restored threads are all there already
    obtain ⟨l₁, l₂, hl, -⟩ := lookup_eq_some_iff.mp hhow
    rw [hl, hr]
    exact mem_append_right _ mem_cons_self
  | registered =>
    exact ⟨⟨rfl, rfl, rfl, rfl, subset_append_left _ _, fun _ hu => hu⟩, rfl, Pc.noConfusion⟩
  | startLeaves created gicErr n =>
    refine ⟨hsame, ?_, Pc.noConfusion⟩
    simp only [Pc.late, Bool.and_eq_true] at hlate ⊢
    exact hlate.1
  | spawns =>
    refine ⟨⟨rfl, rfl, rfl, rfl, fun _ hu => hu, fun u hu => ?_⟩, rfl, Pc.noConfusion⟩
    -- a vCPU brought up by CPU_ON is not a restored one
    rcases mem_append.mp hu with hold | hnew
    · exact hold
    · cases congrArg Prod.snd (mem_singleton.mp hnew)
  | leads k | opens k =>
    cases k <;>
      exact ⟨⟨rfl, rfl, rfl, rfl, fun _ hu => hu, fun _ hu => hu⟩, rfl, Pc.noConfusion⟩
  | leaves k => cases k <;> exact ⟨hsame, rfl, Pc.noConfusion⟩
  | _ =>
    first
    | exact ⟨⟨rfl, rfl, rfl, rfl, fun _ hu => hu, fun _ hu => hu⟩, rfl, Pc.noConfusion⟩
    | cases hlate

end

/-! ## Every state is early or late -/

section

variable {ids : List Nat} {s s' : State} {t : Nat} {pick : Pick} {x : Shared × Pc}

/-- **`join_all`, step by step.** -/
theorem Joining.join (h : Joining ids s) {y : Shared × MainPc} (hst : mainStep s = some y) :
    Joining ids { s with sh := y.1, main := y.2 } := by
  unfold mainStep at hst
  split at hst
  · rename_i ok hmain
    have hjoined := h.joined
    rw [hmain] at hjoined
    split at hst
    · rename_i t hlast
      cases hst
      have hsplit : s.sh.threads.dropLast ++ [t] = s.sh.threads :=
        dropLast_append_getLast? t hlast
      refine ⟨fun u hu => h.handles u (dropLast_subset _ hu), fun u ok' hu => ?_,
        fun u hu => ?_, fun _ hret => nomatch hret⟩
      · obtain ⟨rfl, -⟩ := MainPc.joining.inj hu
        exact h.handles t (mem_of_getLast? hlast)
      · rcases hjoined u hu with hmem | ⟨_, hno⟩ | hdone
        · rw [← hsplit] at hmem
          refine (mem_append.mp hmem).imp_right fun hmem => .inl ⟨ok, ?_⟩
          rw [mem_singleton.mp hmem]
        · cases hno
        · exact .inr (.inr hdone)
    · rename_i hlast
      cases hst
      refine ⟨h.handles, fun _ _ hu => (nomatch hu), fun u hu => ?_,
        fun _ _ => getLast?_eq_none_iff.mp hlast⟩
      rcases hjoined u hu with hmem | ⟨_, hno⟩ | hdone
      · exact .inl hmem
      · cases hno
      · exact .inr (.inr hdone)
  · rename_i t ok hmain
    have hjoined := h.joined
    rw [hmain] at hjoined
    split at hst
    · rename_i res hres
      cases hst
      refine ⟨h.handles, fun _ _ hu => (nomatch hu), fun u hu => ?_, fun _ hret => nomatch hret⟩
      rcases hjoined u hu with hmem | ⟨ok', hjoin⟩ | ⟨res', hdone, hfail⟩
      · exact .inl hmem
      · obtain ⟨rfl, -⟩ := MainPc.joining.inj hjoin
        refine .inr (.inr ⟨res, hres, fun hfalse => ?_⟩)
        rw [hfalse]
        exact Bool.and_false ok
      · refine .inr (.inr ⟨res', hdone, fun hfalse => ?_⟩)
        have hok : ok = false := hfail hfalse
        rw [hok]
        exact Bool.false_and res
    · cases hst
  · cases hst

theorem Late.thread (h : Late ids s) (hm : Goes s.sh t (s.pc t) pick x) :
    Late ids { s with sh := x.1, pc := Function.update s.pc t x.2 } := by
  obtain ⟨e, hlate, hhere⟩ := hm.upLeft (h.late t) (h.fresh t)
  refine ⟨?_, e.startFailed.trans h.ok, fun u hu => e.vcpuids (h.created u hu), ?_, ?_, ?_⟩
  · dsimp only
    rw [e.startBarrier]
    exact h.gen_eq
  · dsimp only
    rw [e.gicRestores, e.gicBlob]
    exact h.gic
  · exact forall_update (P := fun _ q => q.late = true) h.late hlate
  · exact forall_update (P := fun u q => q = .absent → (u, Start.restored) ∉ x.1.spawned)
      (fun u hu hmem => h.fresh u hu (e.spawned u hmem)) (fun hx => absurd hx hhere)

theorem step_beside (ids : List Nat) {a : Act} (hst : step s a = some s')
    (ha : ∀ t, ¬ a.ofThread t) :
    s'.pc = s.pc ∧ s'.sh.gicBlob = s.sh.gicBlob ∧ s'.sh.startBarrier = s.sh.startBarrier ∧
      s'.sh.startFailed = s.sh.startFailed ∧ (Early ids s → Early ids s') ∧
      (Late ids s → Late ids s') := by
  cases a with
  | thread t pick => exact absurd ⟨pick, rfl⟩ (ha t)
  | call r k =>
    cases step_acts hst
    exact ⟨rfl, rfl, rfl, rfl, fun h => ⟨h.stage, { h.meeting with }, { h.failing with },
      { h.gic with }, { h.joining with }⟩, fun h => { h with }⟩
  | request r =>
    cases step_acts hst with
    | request _ y hq =>
      generalize s.rq r = q at hq
      cases hq <;> exact ⟨rfl, rfl, rfl, rfl, fun h => ⟨h.stage, { h.meeting with },
        { h.failing with }, { h.gic with }, { h.joining with }⟩, fun h => { h with }⟩
  | join =>
    obtain ⟨⟨_, main⟩, hx, rfl⟩ := Option.map_eq_some_iff.mp hst
    obtain ⟨threads, rfl⟩ := mainStep_sh hx
    exact ⟨rfl, rfl, rfl, rfl, fun h => ⟨h.stage, { h.meeting with }, { h.failing with },
      { h.gic with }, h.joining.join hx⟩, fun h => { h with }⟩

theorem Comes.mono {sh sh' : Shared} {p p' : Pc} (h : Comes sh t p sh' p') :
    sh'.gicBlob = sh.gicBlob ∧ sh.startBarrier.gen ≤ sh'.startBarrier.gen ∧
      (sh.startFailed = true → sh'.startFailed = true) := by
  cases h <;> simp

/-- **A step of the bring-up.** -/
theorem Early.step (h : Early ids s) {a : Act} (hst : Rendezvous.step s a = some s') :
    (Early ids s' ∨ Late ids s') ∧ s'.sh.gicBlob = s.sh.gicBlob ∧
      s.sh.startBarrier.gen ≤ s'.sh.startBarrier.gen ∧
      (s.sh.startFailed = true → s'.sh.startFailed = true) := by
  by_cases ha : ∃ t, a.ofThread t
  · obtain ⟨t, pick, rfl⟩ := ha
    cases step_acts hst with
    | thread _ _ x hm => exact ⟨h.thread hm, (h.comes hm).2.mono⟩
  obtain ⟨-, hblob, hbarrier, hfailed, hearly, -⟩ := step_beside ids hst (not_exists.mp ha)
  exact ⟨.inl (hearly h), hblob, by rw [hbarrier], hfailed.trans⟩

/-- **A step after the bring-up.** -/
theorem Late.step (h : Late ids s) {a : Act} (hst : Rendezvous.step s a = some s') :
    Late ids s' ∧ s'.sh.gicBlob = s.sh.gicBlob := by
  by_cases ha : ∃ t, a.ofThread t
  · obtain ⟨t, pick, rfl⟩ := ha
    cases step_acts hst with
    | thread _ _ x hm => exact ⟨h.thread hm, (hm.upLeft (h.late t) (h.fresh t)).1.gicBlob⟩
  · obtain ⟨-, hblob, -, -, -, hlate⟩ := step_beside ids hst (not_exists.mp ha)
    exact ⟨hlate h, hblob⟩

theorem Late.run (h : Late ids s) {acts : List Act}
    (hrun : Run Rendezvous.step (fun _ _ => True) s acts s') : Late ids s' :=
  hrun.invariant (fun _ _ _ hs _ hst => (hs.step hst).1) h

/-- Where a machine that comes up from a snapshot is: `blob` says whether there is an interrupt
controller to restore. -/
structure BringUp (ids : List Nat) (blob : Bool) (s : State) : Prop where
  blob_eq : s.sh.gicBlob = blob
  phase : Early ids s ∨ Late ids s

variable {blob : Bool}

theorem BringUp.step (h : BringUp ids blob s) {a : Act} (hst : Rendezvous.step s a = some s') :
    BringUp ids blob s' := by
  rcases h.phase with he | hl
  · obtain ⟨hphase, hblob, -⟩ := he.step hst
    exact ⟨hblob.trans h.blob_eq, hphase⟩
  · obtain ⟨hl', hblob⟩ := hl.step hst
    exact ⟨hblob.trans h.blob_eq, .inr hl'⟩

theorem BringUp.restored {vcpuCount : Nat} {checkpoints : List VcpuCheckpoint}
    {point : Option (List VcpuCheckpoint)} (hne : checkpoints ≠ [])
    (hnd : (checkpoints.map VcpuCheckpoint.mpidr).Nodup) :
    BringUp (checkpoints.map VcpuCheckpoint.mpidr) blob
      (restored vcpuCount checkpoints blob point) := by
  refine ⟨rfl, .inl ⟨.inl Nat.zero_lt_two, ?_, ?_, ?_, ?_⟩⟩
  · refine ⟨Nat.zero_le 2, length_pos_of_ne_nil hne, fun _ => ?_, rfl, fun _ _ => rfl,
      fun _ _ => rfl⟩
    have htally := Tally.new hnd (w := fun _ => false) fun _ _ => rfl
    rw [length_map] at htally
    exact htally
  · exact ⟨rfl, fun _ _ hh => (nomatch hh), fun _ hh => (nomatch hh), fun hh => nomatch hh⟩
  · exact ⟨fun _ _ hh => (nomatch hh), fun _ _ hh => (nomatch hh), fun _ => rfl,
      fun hh => absurd rfl hh⟩
  · exact ⟨fun _ hu => hu, fun _ _ hh => (nomatch hh), fun _ hu => .inl hu,
      fun _ hh => nomatch hh⟩

theorem BringUp.run (h : BringUp ids blob s) {acts : List Act}
    (hrun : Run Rendezvous.step (fun _ _ => True) s acts s') : BringUp ids blob s' :=
  hrun.invariant (fun _ _ _ hs _ hst => hs.step hst) h

/-! ## What the order is -/

/-- The interrupt controller is restored at most once, after every vCPU was created and before
the registers of any are restored. -/
structure InOrder (ids : List Nat) (blob : Bool) (s : State) : Prop where
  once : s.sh.gicRestores ≤ 1
  atGic : ∀ t created, s.pc t = .start (.gic created) →
    (∀ u ∈ ids, u ∈ s.sh.vcpuids) ∧ s.sh.gicRestores = 0 ∧ ∀ u, (s.pc u).resumed = false
  resumed : ∀ u, (s.pc u).resumed = true → s.sh.startFailed = false ∧
    (∀ t ∈ ids, t ∈ s.sh.vcpuids) ∧ s.sh.gicRestores = if blob then 1 else 0

theorem Pc.resumed_of_earlyAt {p : Pc} {gen : Nat} (h : p.earlyAt gen) : p.resumed = false := by
  cases p with
  | start q =>
    cases q with
    | restore => exact absurd h id
    | _ => rfl
  | absent | done ok => rfl
  | _ => exact absurd h id

theorem Early.not_resumed (h : Early ids s) (u : Nat) : (s.pc u).resumed = false := by
  by_cases hu : u ∈ ids
  · exact Pc.resumed_of_earlyAt (h.meeting.place u hu)
  · rw [h.meeting.outside u hu]
    rfl

theorem Early.created_of_gic (h : Early ids s) {created : Bool}
    (hp : s.pc t = .start (.gic created)) : ∀ u ∈ ids, u ∈ s.sh.vcpuids := by
  have hgen : s.sh.startBarrier.gen = 1 := by
    by_contra hne
    have hno := h.meeting.no_leader hne t
    rw [hp] at hno
    cases hno
  intro u hu
  have hplace := h.meeting.place u hu
  rw [hgen] at hplace
  have htried := Pc.tried_of_earlyAt (by decide) hplace
  refine (h.failing.created u hu htried).resolve_left fun hfail => ?_
  cases (h.gic.atGic t created hp).1.symm.trans hfail

theorem Early.gicRestores_le (h : Early ids s) : s.sh.gicRestores ≤ 1 := by
  by_cases hnone : s.sh.startBarrier.gen = 0 ∨ (∃ t, (s.pc t).startLeads = true) ∨
      s.sh.startFailed = true ∨ s.sh.gicBlob = false
  · rw [h.gic.none hnone]
    exact Nat.zero_le 1
  push Not at hnone
  obtain ⟨hgen, hno, hok, hblob⟩ := hnone
  refine Nat.le_of_eq (h.gic.once hgen (fun t => ?_) ?_ ?_)
  · exact eq_false_of_ne_true (hno t)
  · exact eq_false_of_ne_true hok
  · exact eq_true_of_ne_false hblob

theorem BringUp.inOrder (h : BringUp ids blob s) : InOrder ids blob s := by
  rcases h.phase with he | hl
  · refine ⟨he.gicRestores_le, fun t created hp => ?_, fun u hu => ?_⟩
    · refine ⟨he.created_of_gic hp, he.gic.none (.inr (.inl ⟨t, ?_⟩)), he.not_resumed⟩
      rw [hp]
      rfl
    · rw [he.not_resumed u] at hu
      cases hu
  · have hgic := hl.gic
    rw [h.blob_eq] at hgic
    refine ⟨?_, fun t created hp => ?_, fun u _ => ⟨hl.ok, hl.created, hgic⟩⟩
    · rw [hgic]
      cases blob <;> decide
    · have hlate := hl.late t
      rw [hp] at hlate
      cases hlate

theorem BringUp.not_resumed (h : BringUp ids blob s) {acts : List Act}
    (hrun : Run Rendezvous.step (fun _ _ => True) s acts s') (hfail : s'.sh.startFailed = true)
    (u : Nat) : (s.pc u).resumed = false := by
  rcases h.phase with he | hl
  · exact he.not_resumed u
  · cases (hl.run hrun).ok.symm.trans hfail

theorem BringUp.early (h : BringUp ids blob s) (hfail : s.sh.startFailed = true) :
    Early ids s :=
  h.phase.resolve_right fun hl => nomatch hl.ok.symm.trans hfail

theorem Early.returned (h : Early ids s) (hfail : s.sh.startFailed = true) {ok : Bool}
    (hmain : s.main = .returned ok) : ok = false := by
  obtain ⟨t, ht, hb⟩ := h.failing.blamed hfail
  have hjoined := h.joining.joined t ht
  rw [h.joining.drained ok hmain, hmain] at hjoined
  rcases hjoined with hmem | ⟨_, hno⟩ | ⟨res, hdone, hres⟩
  · cases hmem
  · cases hno
  · rw [hdone] at hb
    cases res with
    | false => exact hres rfl
    | true => cases hb

end

end Ignition.Vmm.Rendezvous
