import Ignition.Vmm.BringUpRun

/-!
# Every bring-up ends

Under weak fairness no restored thread waits for ever and `run_restored` returns an error if
there was one. Three phases, each by a rank:

* as long as the machine is `Early`, some restored thread can step (`Early.moves`), and each of
  its steps lowers `Pc.toComeUp`; so the second wait opens, or, after a failure, all threads end
  (`UpFair.ends`);
* a thread that still waits when the barrier has opened twice goes on by itself
  (`UpFair.wakes`);
* once all threads have ended, `join_all` has only its list to get through (`UpFair.joins`).
-/

namespace Ignition.Vmm.Rendezvous

open Parties Runs Ignition.Hvf List Option

section

variable {ids : List Nat} {s s' : State} {t : Nat} {p p' : Pc}

def Pc.toComeUp : Pc → Nat
  | .absent => 9
  | .start (.creating _) => 8
  | .start (.arrive .first _ _) => 7
  | .start (.blocked .first _ _ _) => 6
  | .start (.lead _) => 6
  | .start (.gic _) => 5
  | .start (.arrive .second _ _) => 4
  | .start (.blocked .second _ _ _) => 3
  | .start (.check _ _) => 2
  | _ => 0

/-- The thread waits at the barrier of `run_restored`. -/
def Pc.startBlocked : Pc → Bool
  | .start (.blocked _ _ _ _) => true
  | _ => false

theorem Comes.lower {sh sh' : Shared} (h : Comes sh t p sh' p') : p'.toComeUp < p.toComeUp := by
  cases h with
  | waits half created gicErr hlt => cases half <;> simp [Pc.toComeUp]
  | _ => simp [Pc.toComeUp]

def Ended (s : State) (t : Nat) : Prop := ∃ res, s.pc t = .done res

def Ready (s : State) (t : Nat) : Prop :=
  (s.pc t).startWaits s.sh.startBarrier.gen = false ∧ ¬ Ended s t

theorem moves_of_isSome (pick : Pick) (h : (threadStep s.sh t (s.pc t) pick).isSome = true) :
    Moves s t := by
  obtain ⟨x, hx⟩ := isSome_iff_exists.mp h
  exact moves_of_threadStep hx

theorem moves_of_startBlocked {half : Half} {created gicErr : Bool} {n : Nat}
    (hp : s.pc t = .start (.blocked half created gicErr n)) (hne : s.sh.startBarrier.gen ≠ n) :
    Moves s t := by
  refine moves_of_isSome .go ?_
  rw [hp]
  simp only [threadStep, startStep, if_neg hne, isSome_some]

theorem Early.moves (h : Early ids s) (ht : t ∈ ids) (hready : Ready s t) : Moves s t := by
  obtain ⟨hwaits, hnot⟩ := hready
  have hplace := h.meeting.place t ht
  cases hp : s.pc t with
  | absent =>
    refine moves_of_isSome .go ?_
    rw [hp]
    simp only [threadStep, h.meeting.lookup, if_pos ht, map_some, isSome_some]
  | start q =>
    rw [hp] at hplace hwaits
    cases q with
    | creating how =>
      obtain rfl := hplace.1
      exact moves_of_isSome (.result true) (by rw [hp]; rfl)
    | arrive half created gicErr | lead created | check created gicErr =>
      exact moves_of_isSome .go (by rw [hp]; rfl)
    | blocked half created gicErr n =>
      have hne : s.sh.startBarrier.gen ≠ n := fun heq => beq_eq_false_iff_ne.mp hwaits heq.symm
      exact moves_of_startBlocked hp hne
    | gic created => exact moves_of_isSome (.result true) (by rw [hp]; rfl)
    | setting | restore => exact absurd hplace id
  | done res => exact absurd ⟨res, hp⟩ hnot
  | _ =>
    rw [hp] at hplace
    exact absurd hplace id

theorem Early.ready (h : Early ids s) (hnot : ¬ ∀ t ∈ ids, Ended s t) : ∃ t ∈ ids, Ready s t := by
  by_cases hlt : s.sh.startBarrier.gen < 2
  · obtain ⟨t, ht, hw⟩ := (h.meeting.tally hlt).missing h.meeting.room
    refine ⟨t, ht, hw, fun ⟨res, hdone⟩ => ?_⟩
    have hplace := h.meeting.place t ht
    rw [hdone] at hplace
    have : s.sh.startBarrier.gen = 2 := hplace
    omega
  · -- the barrier has opened twice, so nobody waits at it any more
    have hle := h.meeting.gen_le
    have hgen : s.sh.startBarrier.gen = 2 := by omega
    push Not at hnot
    obtain ⟨t, ht, hended⟩ := hnot
    refine ⟨t, ht, ?_, hended⟩
    have hplace := h.meeting.place t ht
    rw [hgen] at hplace ⊢
    refine eq_false_of_ne_true fun hw => ?_
    unfold Pc.startWaits at hw
    split at hw
    · rename_i half created gicErr n hp
      rw [hp] at hplace
      obtain rfl := eq_of_beq hw
      cases half with
      | first => exact absurd hplace.2.1 (by omega)
      | second => exact absurd hplace.1 (by omega)
    · cases hw

theorem Pc.startWaits_mono {gen gen' : Nat} (hp : p.earlyAt gen)
    (h : p.startWaits gen = false) (hle : gen ≤ gen') : p.startWaits gen' = false := by
  cases p with
  | start q =>
    cases q with
    | blocked half created gicErr n =>
      have hne : n ≠ gen := beq_eq_false_iff_ne.mp h
      refine beq_eq_false_iff_ne.mpr ?_
      cases half with
      | first =>
        obtain ⟨-, hn, -⟩ := hp
        omega
      | second =>
        obtain ⟨hn, hge⟩ := hp
        omega
    | _ => rfl
  | _ => rfl

theorem Early.ready_stable (h : Early ids s) (ht : t ∈ ids) (hready : Ready s t) {a : Act}
    (hst : Rendezvous.step s a = some s') (ha : ¬ a.ofThread t) : Ready s' t := by
  obtain ⟨hw, hnot⟩ := hready
  have hpc := pc_of_not_ofThread hst ha
  obtain ⟨-, -, hle, -⟩ := h.step hst
  refine ⟨?_, fun ⟨res, hdone⟩ => hnot ⟨res, hpc.symm.trans hdone⟩⟩
  rw [hpc]
  exact Pc.startWaits_mono (h.meeting.place t ht) hw hle

end

/-! ## The phases end -/

section

variable {ids : List Nat} {blob : Bool} {t : Nat}

/-- No thread that could go on is held up for ever. -/
structure UpFair (ρ : Forever step fun _ _ => True) : Prop where
  vcpus : ∀ t, ρ.FairTo (Act.ofThread t)
  main : ρ.FairTo (· = .join)

variable {ρ : Forever Rendezvous.step fun _ _ => True}

variable {i : Nat} {s : State}

/-- **The second wait opens, or all threads end.** -/
theorem UpFair.ends (hfair : UpFair ρ) (he : Early ids (ρ.state i)) :
    ∃ j, i ≤ j ∧ (Late ids (ρ.state j) ∨
      Early ids (ρ.state j) ∧ ∀ t ∈ ids, Ended (ρ.state j) t) := by
  refine ρ.eventually (P := Early ids)
    (Q := fun s => Late ids s ∨ Early ids s ∧ ∀ t ∈ ids, Ended s t)
    (fun s => (ids.map fun t => (s.pc t).toComeUp).sum) (fun a => ∃ t, a.ofThread t) ?_ ?_ he
  · intro s a s' hs _ _ hst
    obtain ⟨hphase, -⟩ := hs.step hst
    rcases hphase with hs' | hl
    case inr => exact .inl (.inl hl)
    refine .inr ⟨hs', ?_⟩
    by_cases ha : ∃ t, a.ofThread t
    · obtain ⟨t, pick, rfl⟩ := ha
      obtain ⟨x, hx, rfl⟩ := map_eq_some_iff.mp hst
      obtain ⟨ht, hc⟩ := hs.comes (threadStep_goes hx)
      have hlt := sum_rank_lt (f := Pc.toComeUp) ht hc.lower
      exact ⟨hlt.le, fun _ => hlt⟩
    · obtain ⟨hpc, -⟩ := step_beside ids hst (not_exists.mp ha)
      rw [hpc]
      exact ⟨le_rfl, fun hh => absurd hh ha⟩
  · intro i hs hnot
    obtain ⟨t, ht, hready⟩ := hs.ready fun hall => hnot (.inr ⟨hs, hall⟩)
    by_contra hnever
    have hquiet : ∀ j, i ≤ j → ¬ (ρ.act j).ofThread t := fun j hij hact =>
      hnever ⟨j, hij, .inl ⟨t, hact⟩⟩
    -- while nothing happens the thread stays ready
    have hstays : ∀ j, i ≤ j → Early ids (ρ.state j) ∧ Ready (ρ.state j) t := by
      intro j hij
      induction hij with
      | refl => exact ⟨hs, hready⟩
      | step hij ih =>
        rename_i j
        obtain ⟨hj, hrj⟩ := ih
        have hnext := (hj.step (ρ.next j)).1
        refine ⟨hnext.resolve_right fun hl => ?_,
          hj.ready_stable ht hrj (ρ.next j) (hquiet j hij)⟩
        exact hnever ⟨j + 1, Nat.le_succ_of_le hij, .inr (.inl hl)⟩
    obtain ⟨j, hij, hact⟩ := hfair.vcpus t i fun j hij =>
      (hstays j hij).1.moves ht (hstays j hij).2
    exact hquiet j hij hact

theorem Goes.startBlocked {sh : Shared} {p : Pc} {pick : Pick} {x : Shared × Pc}
    (hm : Goes sh t p pick x) (hp : p.startBlocked = true) : x.2.startBlocked = false := by
  cases hm <;> first | rfl | cases hp

theorem Late.moves (h : Late ids s) (hp : (s.pc t).startBlocked = true) :
    Moves s t := by
  have hlate := h.late t
  unfold Pc.startBlocked at hp
  split at hp
  · rename_i half created gicErr n heq
    rw [heq] at hlate
    cases half with
    | first => cases hlate
    | second =>
      simp only [Pc.late, Bool.and_eq_true, beq_iff_eq] at hlate
      have hne : s.sh.startBarrier.gen ≠ n := by
        have := h.gen_eq
        omega
      exact moves_of_startBlocked heq hne
  · cases hp

theorem Late.forever (h : Late ids (ρ.state i)) {j : Nat} (hij : i ≤ j) :
    Late ids (ρ.state j) := by
  induction hij with
  | refl => exact h
  | step _ ih => exact (ih.step (ρ.next _)).1

/-- **Nobody waits for ever.** -/
theorem UpFair.wakes (hfair : UpFair ρ) (h : BringUp ids blob (ρ.state i)) :
    ∃ j, i ≤ j ∧ ((ρ.state j).pc t).startBlocked = false := by
  by_contra hnever
  have hblocked : ∀ j, i ≤ j → ((ρ.state j).pc t).startBlocked = true := fun j hij =>
    eq_true_of_ne_false fun hno => hnever ⟨j, hij, hno⟩
  have hquiet : ∀ j, i ≤ j → ¬ (ρ.act j).ofThread t := by
    rintro j hij ⟨pick, hact⟩
    have hst := ρ.next j
    rw [hact] at hst
    obtain ⟨x, hx, heq⟩ := map_eq_some_iff.mp hst
    have hself : (ρ.state (j + 1)).pc t = x.2 := by
      rw [← heq]
      exact Function.update_self _ _ _
    have hleft := (threadStep_goes hx).startBlocked (hblocked j hij)
    rw [← hself, hblocked (j + 1) (Nat.le_succ_of_le hij)] at hleft
    cases hleft
  have hlate : ∃ k, i ≤ k ∧ Late ids (ρ.state k) := by
    rcases h.phase with he | hl
    · obtain ⟨k, hik, hl | ⟨hk, hall⟩⟩ := hfair.ends he
      · exact ⟨k, hik, hl⟩
      · -- a thread that waits has not ended
        have hb := hblocked k hik
        by_cases ht : t ∈ ids
        · obtain ⟨res, hdone⟩ := hall t ht
          rw [hdone] at hb
          cases hb
        · rw [hk.meeting.outside t ht] at hb
          cases hb
    · exact ⟨i, Nat.le_refl i, hl⟩
  obtain ⟨k, hik, hl⟩ := hlate
  obtain ⟨j, hkj, hact⟩ := hfair.vcpus t k fun j hkj =>
    (hl.forever hkj).moves (hblocked j (Nat.le_trans hik hkj))
  exact hquiet j (Nat.le_trans hik hkj) hact

/-! ## The error is returned -/

/-- How far `join_all` is from returning. -/
def State.toReturn (s : State) : Nat :=
  2 * s.sh.threads.length +
    match s.main with
    | .popping _ => 1
    | .joining _ _ => 2
    | .returned _ => 0

/-- Something has failed and the restored threads have ended. -/
structure Over (ids : List Nat) (s : State) : Prop where
  early : Early ids s
  failed : s.sh.startFailed = true
  ended : ∀ t ∈ ids, Ended s t

theorem mainStep_toReturn {y : Shared × MainPc} (hst : mainStep s = some y) :
    State.toReturn { s with sh := y.1, main := y.2 } < s.toReturn := by
  unfold mainStep at hst
  split at hst
  · rename_i ok hmain
    split at hst
    · rename_i t hlast
      cases hst
      have hne : s.sh.threads ≠ [] := by
        intro hnil
        rw [hnil] at hlast
        cases hlast
      have hpos := length_pos_of_ne_nil hne
      simp only [State.toReturn, hmain, length_dropLast]
      omega
    · cases hst
      simp only [State.toReturn, hmain]
      omega
  · rename_i t ok hmain
    split at hst
    · cases hst
      simp only [State.toReturn, hmain]
      omega
    · cases hst
  · cases hst

theorem Over.joins (h : Over ids s) (hnot : ∀ ok, s.main ≠ .returned ok) :
    Enabled Rendezvous.step (· = .join) s := by
  have hstep : ∃ y, mainStep s = some y := by
    unfold mainStep
    cases hmain : s.main with
    | popping ok =>
      cases s.sh.threads.getLast? with
      | some t | none => exact ⟨_, rfl⟩
    | joining t ok =>
      obtain ⟨res, hdone⟩ := h.ended t (h.early.joining.joining t ok hmain)
      exact ⟨_, by simp only [hdone]; rfl⟩
    | returned ok => exact absurd hmain (hnot ok)
  obtain ⟨y, hy⟩ := hstep
  exact ⟨.join, _, rfl, by simp only [step, hy, map_some]; rfl⟩

theorem Over.step {s' : State} (h : Over ids s) {a : Act} (hst : Rendezvous.step s a = some s') :
    Over ids s' ∧ s'.toReturn ≤ s.toReturn ∧ (a = .join → s'.toReturn < s.toReturn) := by
  have hphase := h.early.step hst
  have hfailed := hphase.2.2.2 h.failed
  have hearly : Early ids s' := hphase.1.resolve_right fun hl =>
    nomatch hl.ok.symm.trans hfailed
  cases a with
  | thread t pick =>
    cases step_acts hst with
    | thread _ _ x hm =>
      obtain ⟨ht, hc⟩ := h.early.comes hm
      obtain ⟨res, hdone⟩ := h.ended t ht
      rw [hdone] at hc
      cases hc
  | call r k =>
    cases step_acts hst
    exact ⟨⟨hearly, hfailed, h.ended⟩, le_rfl, nofun⟩
  | request r =>
    cases step_acts hst with
    | request _ y hq =>
      generalize s.rq r = q at hq
      cases hq <;> exact ⟨⟨hearly, hfailed, h.ended⟩, le_rfl, nofun⟩
  | join =>
    obtain ⟨x, hx, rfl⟩ := map_eq_some_iff.mp hst
    have hlt := mainStep_toReturn hx
    exact ⟨⟨hearly, hfailed, h.ended⟩, hlt.le, fun _ => hlt⟩

theorem Early.failed_forever (h : Early ids (ρ.state i)) (hfail : (ρ.state i).sh.startFailed = true)
    {j : Nat} (hij : i ≤ j) :
    Early ids (ρ.state j) ∧ (ρ.state j).sh.startFailed = true := by
  induction hij with
  | refl => exact ⟨h, hfail⟩
  | step _ ih =>
    obtain ⟨hphase, -, -, hmono⟩ := ih.1.step (ρ.next _)
    have hfail' := hmono ih.2
    exact ⟨hphase.resolve_right fun hl => (nomatch hl.ok.symm.trans hfail'), hfail'⟩

/-- **After a failure `run_restored` returns an error.** -/
theorem UpFair.returns (hfair : UpFair ρ) (h : Early ids (ρ.state i))
    (hfail : (ρ.state i).sh.startFailed = true) :
    ∃ j, i ≤ j ∧ (ρ.state j).main = .returned false := by
  have hover : ∃ k, i ≤ k ∧ Over ids (ρ.state k) := by
    obtain ⟨k, hik, hl | ⟨hk, hall⟩⟩ := hfair.ends h
    · cases hl.ok.symm.trans (h.failed_forever hfail hik).2
    · exact ⟨k, hik, hk, (h.failed_forever hfail hik).2, hall⟩
  obtain ⟨k, hik, hk⟩ := hover
  obtain ⟨j, hkj, hj, ok, hmain⟩ := hfair.main.eventually (P := Over ids)
    (Q := fun s => Over ids s ∧ ∃ ok, s.main = .returned ok) State.toReturn
    (fun s hs hnot => hs.joins fun ok hmain => hnot ⟨hs, ok, hmain⟩)
    (fun s a s' hs _ _ hst => .inr (hs.step hst)) hk
  refine ⟨j, Nat.le_trans hik hkj, ?_⟩
  rw [hmain, hj.early.returned hj.failed hmain]

theorem UpFair.resumes (hfair : UpFair ρ) (hne : ids ≠ []) (h : Early ids (ρ.state 0))
    (hok : ∀ i, (ρ.state i).sh.startFailed = false) : ∃ j, Late ids (ρ.state j) := by
  obtain ⟨j, -, hl | ⟨hj, hall⟩⟩ := hfair.ends h
  · exact ⟨j, hl⟩
  -- the threads end early only after a failure
  obtain ⟨t, ht⟩ := exists_mem_of_ne_nil ids hne
  obtain ⟨res, hdone⟩ := hall t ht
  have hplace := hj.meeting.place t ht
  rw [hdone] at hplace
  have hgen : (ρ.state j).sh.startBarrier.gen = 2 := hplace
  rcases hj.stage with hlt | hfail
  · omega
  · cases (hok j).symm.trans hfail

end

/-! ## The protocol -/

/-- **Coming up from a snapshot.** One or more vCPUs, each with its own MPIDR, come up in any
interleaving, and creating a vCPU or restoring the interrupt controller may fail at will. In
every state the restore of the interrupt controller is in order (`InOrder`); if something fails,
no vCPU has resumed at any time, and if `run_restored` returns it returns an error. In every fair
run nobody waits for ever at the barrier; if nothing fails the interrupt controller is restored
once, where there is one; and if something fails `run_restored` does return. -/
theorem bring_up_exact {vcpuCount : Nat} {checkpoints : List VcpuCheckpoint} {blob : Bool}
    {point : Option (List VcpuCheckpoint)} (hne : checkpoints ≠ [])
    (hnd : (checkpoints.map VcpuCheckpoint.mpidr).Nodup) :
    (∀ acts s, Run step (fun _ _ => True) (restored vcpuCount checkpoints blob point) acts s →
      InOrder (checkpoints.map VcpuCheckpoint.mpidr) blob s ∧
      (∀ acts' s', Run step (fun _ _ => True) s acts' s' → s'.sh.startFailed = true →
        ∀ u, (s.pc u).resumed = false) ∧
      ∀ ok, s.sh.startFailed = true → s.main = .returned ok → ok = false) ∧
    ∀ ρ : Forever step fun _ _ => True,
      ρ.state 0 = restored vcpuCount checkpoints blob point → UpFair ρ →
        (∀ i t, ((ρ.state i).pc t).startBlocked = true →
          ∃ j, i ≤ j ∧ ((ρ.state j).pc t).startBlocked = false) ∧
        ((∀ i, (ρ.state i).sh.startFailed = false) →
          ∃ j, ∀ i, j ≤ i → (ρ.state i).sh.gicRestores = if blob then 1 else 0) ∧
        ∀ i, (ρ.state i).sh.startFailed = true →
          ∃ j, i ≤ j ∧ (ρ.state j).main = .returned false := by
  have hstart : BringUp (checkpoints.map VcpuCheckpoint.mpidr) blob
      (restored vcpuCount checkpoints blob point) := .restored hne hnd
  refine ⟨fun acts s hrun => ?_, fun ρ hzero hfair => ?_⟩
  · have hs := hstart.run hrun
    refine ⟨hs.inOrder, fun acts' s' hrun' hfail => hs.not_resumed hrun' hfail, ?_⟩
    exact fun ok hfail hmain => (hs.early hfail).returned hfail hmain
  · have hall : ∀ i, BringUp (checkpoints.map VcpuCheckpoint.mpidr) blob (ρ.state i) := by
      intro i
      have hrun := ρ.run i
      rw [hzero] at hrun
      exact hstart.run hrun
    refine ⟨fun i t _ => hfair.wakes (hall i), fun hok => ?_, fun i hfail => ?_⟩
    · have hlate : ∃ j, Late (checkpoints.map VcpuCheckpoint.mpidr) (ρ.state j) := by
        rcases (hall 0).phase with he | hl
        · exact hfair.resumes (by simpa using hne) he hok
        · exact ⟨0, hl⟩
      obtain ⟨j, hl⟩ := hlate
      refine ⟨j, fun i hji => ?_⟩
      rw [(hl.forever hji).gic, (hall i).blob_eq]
    · exact hfair.returns ((hall i).early hfail) hfail

def comesUpAlone : List Act :=
  [.thread 0 .go, .thread 0 (.result true), .thread 0 .go, .thread 0 .go,
    .thread 0 (.result true), .thread 0 .go, .thread 0 .go, .thread 0 (.result true)]

theorem bring_up_exact_alone :
    ∃ s, Run step (fun _ _ => True)
        (restored 1 [⟨0, (Regs.new 0).saveState 0⟩] true none) comesUpAlone s ∧
      (s.pc 0).resumed = true ∧ s.sh.gicRestores = 1 := by
  obtain ⟨s, hrun, hup⟩ : ∃ s, Run step (fun _ _ => True)
      (restored 1 [⟨0, (Regs.new 0).saveState 0⟩] true none) comesUpAlone s ∧
        (s.pc 0).resumed = true := exists_run (by decide +kernel)
  have hsafe := (@bring_up_exact 1 [⟨0, (Regs.new 0).saveState 0⟩] true none
    (cons_ne_nil _ _) (nodup_singleton 0)).1 _ _ hrun
  exact ⟨s, hrun, hup, (hsafe.1.resumed 0 hup).2.2⟩

end Ignition.Vmm.Rendezvous
