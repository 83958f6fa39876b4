import Ignition.Vmm.Calm
import Ignition.Vmm.StopWorld

/-!
# The vCPUs that are online after a reset

A reset rolls RAM, the GIC and the devices back, and every vCPU restores its own registers if
the reset point has a state for it. `running`, the set CPU_ON is decided by, and the threads are
left as they are. So the vCPUs that go on after a reset are those that were latched for it,
and they are the vCPUs of the checkpoint only if nobody has been brought up in between
(`Level`).
-/

namespace Ignition.Vmm.Rendezvous

open Parties Runs Ignition.Hvf Function Option

def Pc.online : Pc → Bool
  | .absent => false
  | .start _ => false
  | .done _ => false
  | .panicked => false
  | _ => true

/-- The vCPUs `ids` are those of the reset point, and no other has been claimed. -/
structure Matches (sh : Shared) (ids : List Nat) : Prop where
  covered : ∀ t ∈ ids, sh.hasCheckpoint t = true
  present : ∀ cps ∈ sh.resetPoint, ∀ cp ∈ cps, cp.mpidr ∈ ids
  running : ∀ t ∈ sh.running, t ∈ ids

instance (sh : Shared) (ids : List Nat) : Decidable (Matches sh ids) :=
  decidable_of_iff ((∀ t ∈ ids, sh.hasCheckpoint t = true) ∧
    (∀ cps ∈ sh.resetPoint, ∀ cp ∈ cps, cp.mpidr ∈ ids) ∧ ∀ t ∈ sh.running, t ∈ ids)
    ⟨fun h => ⟨h.1, h.2.1, h.2.2⟩, fun h => ⟨h.1, h.2, h.3⟩⟩

theorem Matches.point {sh : Shared} {ids : List Nat} (h : Matches sh ids) (t : Nat) :
    t ∈ ids ↔ sh.hasCheckpoint t = true := by
  refine ⟨h.covered t, fun ht => ?_⟩
  obtain ⟨cps, hcps, hany⟩ := (any_eq_true _ _).mp ht
  obtain ⟨cp, hcp, heq⟩ := List.any_eq_true.mp hany
  exact beq_iff_eq.mp heq ▸ h.present cps hcps cp hcp

def Level (s : State) (a : Act) : Prop :=
  LatchesSettled s a ∧
    match a with
    | .request r => s.rq r = .latch .reset → Matches s.sh s.sh.vcpuids
    | _ => True

instance (s : State) : (a : Act) → Decidable (Level s a)
  | .request r => inferInstanceAs (Decidable (LatchesSettled s (.request r) ∧
      (s.rq r = .latch .reset → Matches s.sh s.sh.vcpuids)))
  | .thread .. | .call .. | .join => isTrue ⟨trivial, trivial⟩

/-! ## What a thread does to the barriers and to the set -/

section

variable {sh : Shared} {t : Nat} {pick : Pick} {x : Shared × Pc}

/-- No barrier is made, and those there are go on. -/
structure Onward (sh sh' : Shared) : Prop where
  roundCount : sh'.roundCount = sh.roundCount
  kind : ∀ b, (sh'.rounds b).kind = (sh.rounds b).kind
  members : ∀ b, sh'.members b = sh.members b
  gen : ∀ b, sh'.gen b = sh.gen b ∨ sh'.gen b = sh.gen b + 1

theorem Kept.onward {sh' : Shared} (h : Kept sh sh') : Onward sh sh' :=
  ⟨h.roundCount, fun b => (h.rounds b).kind, fun b => (h.rounds b).members,
    fun b => .inl (h.gen b)⟩

theorem SameSet.onward {sh' : Shared} (h : SameSet sh sh') : Onward sh sh' :=
  ⟨h.roundCount, h.kind, h.members, h.gen⟩

variable {p : Pc}

theorem Goes.onward (hm : Goes sh t p pick x) : Onward sh x.1 := by
  by_cases hbusy : p.busy = true
  · exact (hm.away hbusy).1.onward
  obtain ⟨hin, hclaims⟩ : p.inRunLoop = true ∧ p.claims = none := by
    cases hm <;> first | exact ⟨rfl, rfl⟩ | exact absurd rfl hbusy
  refine (hm.sameSet hin ?_).1.onward
  rw [hclaims]
  exact fun _ hh => nomatch hh

theorem Goes.running (hm : Goes sh t p pick x) :
    x.1.running = sh.running ∨ ∃ target, p.claims = some target ∧
      sh.rendezvousActive = false ∧ x.1.running = target :: sh.running := by
  cases hm with
  | claims target entry ctx running heq =>
    obtain ⟨-, -, hactive, hrunning⟩ := claim_claimed heq
    exact .inr ⟨target, rfl, hactive, hrunning⟩
  | leads k => cases k <;> exact .inl rfl
  | _ => exact .inl rfl

end

/-! ## While a reset is under way -/

section

variable {s s' : State} {t : Nat} {pick : Pick} {x : Shared × Pc}

/-- A reset has latched its participants `ids`, and they have not all left its barrier. -/
def Resetting (s : State) (ids : List Nat) : Prop :=
  (∃ r, s.rq r = .install .reset ids) ∨
    ∃ b < s.sh.roundCount, (s.sh.rounds b).kind = .reset ∧ s.sh.gen b < 2 ∧ s.sh.members b = ids

variable {ids : List Nat}

theorem Inv.no_claim (h : Inv s) (hr : Resetting s ids) {target : Nat}
    (hp : (s.pc t).claims = some target) : s.sh.rendezvousActive = true := by
  have hok := h.threads t
  cases hpc : s.pc t with
  | loop q =>
    cases q with
    | claiming tgt entry ctx =>
      rw [hpc] at hok
      rcases hr with ⟨r, hrq⟩ | ⟨b, hb, -, hlt, -⟩
      · exact ((h.requests r).held (by rw [hrq]; trivial)).active
      have hne : s.sh.gen b ≠ 1 := by
        refine h.gen_ne_one hok ?_ ?_ hb
        · rw [hpc]
          trivial
        · rw [hpc]
          exact id
      exact ((h.rounds b hb).current (by omega)).2
    | _ =>
      rw [hpc] at hp
      cases hp
  | _ =>
    rw [hpc] at hp
    cases hp

theorem Inv.no_checkpoint (h : Inv s) (hr : Resetting s ids) {c : Nat} {cps : List VcpuCheckpoint}
    {slot : Option Nat} (hp : s.pc t = .lead .checkpoint c (.handler cps slot)) : False := by
  have hok := h.threads t
  rw [hp] at hok
  obtain ⟨hmet, hmem, hact, hcur, hflag⟩ := hok
  rcases hr with ⟨r, hrq⟩ | ⟨b, hb, hkind, hlt, -⟩
  · refine ((h.requests r).held (by rw [hrq]; trivial)).early t ?_
    rw [hp]
    exact rfl
  have hrb := h.rounds b hb
  have hcb : c = b := by
    by_cases hzero : s.sh.gen b = 0
    · exact some.inj (hcur.symm.trans (hrb.current hzero).1)
    have hrun := (h.rounds c hmet.lt).running t hmem
    rcases hrb.covers hlt t hrun with hm | hgone
    · have hbetween := hrb.between (by omega) t hm
      rw [hp] at hbetween
      exact hbetween
    · rw [hp] at hgone
      exact absurd hgone id
  subst hcb
  cases hkind.symm.trans hmet.kind_eq

theorem Inv.set_kept (h : Inv s) (hr : Resetting s ids) (hm : Goes s.sh t (s.pc t) pick x) :
    x.1.running = s.sh.running ∧ x.1.resetPoint = s.sh.resetPoint := by
  refine ⟨hm.running.resolve_right ?_, hm.point.resolve_right ?_⟩
  · rintro ⟨target, hclaims, hactive, -⟩
    rw [h.no_claim hr hclaims] at hactive
    cases hactive
  · rintro ⟨c, cps, slot, hp, -⟩
    exact h.no_checkpoint hr hp

theorem Matches.congr {sh sh' : Shared} (h : Matches sh ids) (hrun : sh'.running = sh.running)
    (hpoint : sh'.resetPoint = sh.resetPoint) :
    Matches sh' ids := by
  refine ⟨?_, ?_, ?_⟩
  · unfold Shared.hasCheckpoint
    rw [hpoint]
    exact h.covered
  · rw [hpoint]
    exact h.present
  · rw [hrun]
    exact h.running

theorem Asks.set {sh : Shared} {q : ReqPc} {y : Shared × ReqPc} (hq : Asks sh q y) :
    y.1.running = sh.running ∧ y.1.resetPoint = sh.resetPoint := by
  cases hq <;> exact ⟨rfl, rfl⟩

def ResetsMatch (s : State) : Prop := ∀ ids, Resetting s ids → Matches s.sh ids

theorem ResetsMatch.thread (hmatch : ResetsMatch s) (h : Inv s)
    (hm : Goes s.sh t (s.pc t) pick x) :
    ResetsMatch { s with sh := x.1, pc := update s.pc t x.2 } := by
  have e := hm.onward
  intro ids hr
  have hold : Resetting s ids := by
    refine hr.imp_right fun ⟨b, hb, hkind, hlt, hmem⟩ => ?_
    refine ⟨b, lt_of_lt_of_eq hb e.roundCount, (e.kind b).symm.trans hkind, ?_,
      (e.members b).symm.trans hmem⟩
    have hgen := e.gen b
    dsimp only at hlt
    omega
  obtain ⟨hrun, hpoint⟩ := h.set_kept hold hm
  exact (hmatch ids hold).congr hrun hpoint

theorem resetting_request {r : Nat} {y : Shared × ReqPc} (hask : Asks s.sh (s.rq r) y)
    (hr : Resetting { s with sh := y.1, rq := update s.rq r y.2 } ids) :
    Resetting s ids ∨ s.rq r = .latch .reset ∧ ids = s.sh.vcpuids := by
  obtain ⟨-, hold, -⟩ := hask.untouched
  rcases hr with ⟨r', hrq⟩ | ⟨b, hb, hkind, hlt, hmem⟩
  · by_cases hrr : r' = r
    · subst hrr
      replace hrq : y.2 = .install .reset ids := (update_self r' y.2 s.rq).symm.trans hrq
      refine .inr ?_
      generalize s.rq r' = q at hask
      cases hask with
      | latches k =>
        obtain ⟨rfl, rfl⟩ := ReqPc.install.inj hrq
        exact ⟨rfl, rfl⟩
      | installs k => cases k <;> cases hrq
      | raises => split at hrq <;> cases hrq
      | _ => cases hrq
    · exact .inl (.inl ⟨r', (update_of_ne hrr y.2 s.rq).symm.trans hrq⟩)
  · by_cases hb' : b < s.sh.roundCount
    · have e := hold b hb'
      refine .inl (.inr ⟨b, hb', e.kind.symm.trans hkind, ?_, e.members.symm.trans hmem⟩)
      exact lt_of_eq_of_lt e.gen.symm hlt
    · -- a new barrier: its requester has just installed it
      refine .inl (.inl ⟨r, ?_⟩)
      generalize s.rq r = q at hask
      cases hask with
      | installs k ids' =>
        obtain rfl : b = s.sh.roundCount :=
          Nat.le_antisymm (Nat.lt_succ_iff.mp hb) (Nat.le_of_not_lt hb')
        simp only [Shared.members, setRound_self] at hkind hmem
        obtain rfl : k = .reset := hkind
        obtain rfl : ids' = ids := hmem
        rfl
      | _ => exact absurd hb hb'

theorem ResetsMatch.step (hm : ResetsMatch s) (h : Inv s) {a : Act} (hlevel : Level s a)
    (hst : Rendezvous.step s a = some s') : ResetsMatch s' := by
  cases step_acts hst with
  | thread t pick x hmove => exact hm.thread h hmove
  | call r k =>
    intro ids hr
    refine hm ids (hr.imp_left fun ⟨r', hrq⟩ => ⟨r', ?_⟩)
    by_cases hrr : r' = r
    · subst hrr
      replace hrq : requestCall s.sh k = .install .reset ids :=
        (update_self r' _ s.rq).symm.trans hrq
      unfold requestCall at hrq
      split at hrq <;> cases hrq
    · exact (update_of_ne hrr _ s.rq).symm.trans hrq
  | request r y hq =>
    obtain ⟨hrun, hpoint⟩ := hq.set
    intro ids hr
    rcases resetting_request hq hr with hold | ⟨hlatch, rfl⟩
    · exact (hm ids hold).congr hrun hpoint
    · exact (hlevel.2 hlatch).congr hrun hpoint
  | join => exact fun ids hr => (hm ids hr).congr rfl rfl

theorem Starts.resetsMatch (h : Starts s) : ResetsMatch s := by
  rintro ids (⟨r, hrq⟩ | ⟨b, hb, -⟩)
  · cases h <;> cases hrq
  · cases h <;> exact absurd hb (Nat.not_lt_zero b)

theorem resetsMatch_run {s₀ : State} (hs : Starts s₀) {acts : List Act}
    (hr : Run step Level s₀ acts s) : Inv s ∧ ResetsMatch s := by
  have hstep : ∀ s a s', Inv s ∧ ResetsMatch s → Level s a → step s a = some s' →
      Inv s' ∧ ResetsMatch s' :=
    fun _ _ _ h hl hst => ⟨h.1.step hl.1 hst, h.2.step h.1 hl hst⟩
  exact hr.invariant hstep ⟨hs.inv, hs.resetsMatch⟩

end

/-! ## Who is online -/

section

variable {s s' : State} {t b : Nat} {pick : Pick} {x : Shared × Pc}

variable {p : Pc}

theorem Pc.online_of_between (h : p.Between b) : p.online = true := by
  cases p <;> first | rfl | exact absurd h id

theorem Inv.running_of_online (h : Inv s) (hon : (s.pc t).online = true) :
    t ∈ s.sh.running ∧ ¬ (s.pc t).Gone := by
  have hok := h.threads t
  cases hp : s.pc t with
  | loop q =>
    rw [hp] at hok
    cases q with
    | spawning target entry ctx => exact ⟨hok.1, id⟩
    | _ => exact ⟨hok, id⟩
  | push k | fetch k =>
    rw [hp] at hok
    obtain ⟨c, hg, hmem⟩ := hok
    exact ⟨(h.rounds c hg.lt).running t hmem, id⟩
  | arrive half k c =>
    rw [hp] at hok
    cases half <;> exact ⟨(h.rounds c hok.1.lt).running t hok.2, id⟩
  | blocked half k c g =>
    obtain ⟨hc, -⟩ := h.blocked_le hp
    rw [hp] at hok
    cases half <;> exact ⟨(h.rounds c hc).running t hok.2.1, id⟩
  | lead k c q =>
    rw [hp] at hok
    exact ⟨(h.rounds c hok.1.lt).running t hok.2.1, id⟩
  | restoring c =>
    rw [hp] at hok
    exact ⟨hok, id⟩
  | absent | start q | done ok | panicked =>
    rw [hp] at hon
    cases hon

theorem Inv.running_of_step (h : Inv s) (hm : Goes s.sh t (s.pc t) pick x) :
    t ∈ s.sh.running ∧ ¬ (s.pc t).Gone := by
  have hon := h.running_of_online (t := t)
  have hok := h.threads t
  generalize s.pc t = p at hm hok hon
  cases hm with
  | born start hstart => exact ⟨hok.2 start hstart, id⟩
  | _ => first | exact hon rfl | exact ⟨hok, id⟩ | exact ⟨hok.1, id⟩

theorem Goes.online {sh : Shared} (hm : Goes sh t p pick x) (hb : p.Between b) :
    x.2.online = true := by
  cases hm with
  | leads k | opens k | leaves k => cases k <;> rfl
  | _ => first | rfl | exact absurd hb id

theorem Inv.members_of_met (h : Inv s) (hb : b < s.sh.roundCount) (hone : s.sh.gen b = 1)
    (ht : t ∈ s.sh.running ∧ ¬ (s.pc t).Gone) : t ∈ s.sh.members b :=
  ((h.rounds b hb).covers (by omega) t ht.1).resolve_right ht.2

/-- No CPU_ON for `t` has got as far as the claim. -/
def FirstOn (t : Nat) (s : State) (a : Act) : Prop :=
  ∀ u pick, a = .thread u pick → (s.pc u).claims ≠ some t

theorem not_running_step {a : Act} (hfirst : FirstOn t s a) (hnot : t ∉ s.sh.running)
    (hst : step s a = some s') : t ∉ s'.sh.running := by
  cases step_acts hst with
  | thread u pick x hm =>
    rcases hm.running with heq | ⟨target, hclaims, -, heq⟩
    · rw [heq]
      exact hnot
    · rw [heq]
      refine fun hmem => (List.mem_cons.mp hmem).elim (fun htt => ?_) hnot
      exact hfirst u pick rfl (htt ▸ hclaims)
  | request r y hq =>
    rw [hq.set.1]
    exact hnot
  | _ => exact hnot

theorem spawning_starts {u entry ctx : Nat} (hp : s.pc u = .loop (.spawning t entry ctx)) :
    ∃ s', step s (.thread u .go) = some s' ∧
      s'.sh.spawned = s.sh.spawned ++ [(t, .secondary entry ctx)] := by
  simp only [step, hp, threadStep, loopStep, map_some]
  exact ⟨_, rfl, rfl⟩

theorem cpuOn_starts {u entry ctx : Nat} (hp : s.pc u = .loop (.claiming t entry ctx))
    (hmem : t ∈ s.sh.mpidrs) (hnot : t ∉ s.sh.running) (hactive : s.sh.rendezvousActive = false) :
    ∃ s', Run step (fun _ _ => True) s [.thread u .go, .thread u .go] s' ∧
      s'.sh.spawned = s.sh.spawned ++ [(t, .secondary entry ctx)] := by
  have hclaim : claim s.sh.mpidrs s.sh.running s.sh.rendezvousActive t =
      (.claimed, t :: s.sh.running) := by
    unfold claim
    rw [if_neg (not_not_intro hmem), hactive, if_neg Bool.false_ne_true, if_neg hnot]
  have hfirst : step s (.thread u .go) = some { s with
      sh := { s.sh with running := t :: s.sh.running }
      pc := update s.pc u (.loop (.spawning t entry ctx)) } := by
    simp only [step, hp, threadStep, loopStep, hclaim, map_some]
  obtain ⟨s', hst, hspawned⟩ := spawning_starts (s := { s with
    sh := { s.sh with running := t :: s.sh.running }
    pc := update s.pc u (.loop (.spawning t entry ctx)) }) (update_self u _ s.pc)
  exact ⟨s', .cons trivial hfirst (.cons trivial hst (.nil s')), hspawned⟩

/-- **A reset that finds the vCPUs of its checkpoint leaves exactly these online.** When its second
barrier opens, the vCPUs that go on are those the reset point has a state for, and the first
CPU_ON after it for any other configured vCPU starts that vCPU at the entry it asks for. -/
theorem reset_rolls_back_online {s₀ : State} (hs : Starts s₀) {acts : List Act}
    (hr : Run step Level s₀ acts s) {a : Act} (hst : step s a = some s')
    (hb : b < s.sh.roundCount) (hkind : (s.sh.rounds b).kind = .reset)
    (hone : s.sh.gen b = 1) (htwo : s'.sh.gen b = 2) :
    (∀ t, (s'.pc t).online = true ↔ s'.sh.hasCheckpoint t = true) ∧
      ∀ t acts' s'' u entry ctx, s'.sh.hasCheckpoint t = false → Run step (FirstOn t) s' acts' s'' →
        s''.pc u = .loop (.claiming t entry ctx) → t ∈ s''.sh.mpidrs →
        s''.sh.rendezvousActive = false →
        ∃ s₁, Run step (fun _ _ => True) s'' [.thread u .go, .thread u .go] s₁ ∧
          s₁.sh.spawned = s''.sh.spawned ++ [(t, .secondary entry ctx)] := by
  obtain ⟨hinv, hmatch⟩ := resetsMatch_run hs hr
  have hresetting : Resetting s (s.sh.members b) := Or.inr ⟨b, hb, hkind, by omega, rfl⟩
  have hm := hmatch _ hresetting
  have hsame : ∀ {sh' : Shared}, sh'.resetPoint = s.sh.resetPoint →
      ∀ t, sh'.hasCheckpoint t = s.sh.hasCheckpoint t := by
    intro sh' heq t
    unfold Shared.hasCheckpoint
    rw [heq]
  cases step_acts hst with
  | thread v pick x hmove =>
    obtain ⟨hrun, hpoint⟩ := hinv.set_kept hresetting hmove
    have hvmem := hinv.members_of_met hb hone (hinv.running_of_step hmove)
    have hbetween := (hinv.rounds b hb).between hone
    refine ⟨fun t => ?_, fun t acts' s'' u entry ctx hnone hrun' hp hmem hactive => ?_⟩
    · rw [hsame hpoint, ← hm.point t]
      dsimp only
      by_cases htv : t = v
      · subst htv
        rw [update_self]
        exact iff_of_true (hmove.online (hbetween t hvmem)) hvmem
      rw [update_of_ne htv]
      constructor
      · exact fun hon => hinv.members_of_met hb hone (hinv.running_of_online hon)
      · exact fun hmem => Pc.online_of_between (hbetween t hmem)
    · refine cpuOn_starts hp hmem ?_ hactive
      refine hrun'.invariant (fun _ _ _ hnot hfirst hst => not_running_step hfirst hnot hst) ?_
      -- at the reset whoever is running is in the checkpoint
      intro hmem
      rw [hsame hpoint] at hnone
      rw [hrun] at hmem
      rw [(hm.point t).mp (hm.running t hmem)] at hnone
      cases hnone
  | request r y hq =>
    obtain ⟨-, hold, -⟩ := hq.untouched
    exact absurd (hone.symm.trans ((hold b hb).gen.symm.trans htwo)) (by omega)
  | _ => exact absurd (hone.symm.trans htwo) (by omega)

def checkpointAlone : List Act :=
  [.call 0 .checkpoint, .request 0, .request 0, .request 0, .request 0, .request 0,
    .thread 0 .other, .thread 0 .go, .thread 0 .go, .thread 0 .go, .thread 0 .go,
    .thread 0 (.saved (some ((Regs.new 0).saveState 0))), .thread 0 .go, .thread 0 .go,
    .thread 0 .go, .thread 0 .go, .thread 0 (.result true), .thread 0 .go, .thread 0 .go,
    .thread 0 .go, .thread 0 .go, .thread 0 .go, .thread 0 .go, .thread 0 .go, .thread 0 .go]

def resetAlone : List Act :=
  [.call 0 .reset, .request 0, .request 0, .request 0, .request 0,
    .thread 0 .other, .thread 0 .go, .thread 0 .go, .thread 0 .go, .thread 0 .go, .thread 0 .go,
    .thread 0 .go, .thread 0 .go, .thread 0 (.result true), .thread 0 .go, .thread 0 .go,
    .thread 0 .go]

theorem reset_rolls_back_online_alone :
    ∃ s s', Run step Level (boot 2) (primaryUp ++ checkpointAlone ++ resetAlone) s ∧
      step s (.thread 0 .go) = some s' ∧ ∀ t, (s'.pc t).online = true ↔
        s'.sh.hasCheckpoint t = true := by
  obtain ⟨s, hr, hlt, hkind, hone, s', hst, htwo⟩ :
      ∃ s, Run step Level (boot 2) (primaryUp ++ checkpointAlone ++ resetAlone) s ∧
        1 < s.sh.roundCount ∧ (s.sh.rounds 1).kind = .reset ∧ s.sh.gen 1 = 1 ∧
        ∃ s' ∈ step s (.thread 0 .go), s'.sh.gen 1 = 2 := exists_run (by decide +kernel)
  exact ⟨s, s', hr, hst, (reset_rolls_back_online (.boot 2) hr hst hlt hkind hone htwo).1⟩

def bringUpThenReset : List Act :=
  primaryUp ++ checkpointAlone ++
    [.thread 0 (.psci (cpuOnRegs 1)), .thread 0 .go, .thread 0 .go, .thread 0 .go] ++ secondaryUp ++
    [.call 0 .reset, .request 0, .request 0, .request 0, .request 0,
      .thread 0 .go, .thread 0 .go, .thread 0 .go, .thread 0 .go, .thread 0 .go, .thread 0 .go,
      .thread 1 .other, .thread 1 .go, .thread 1 .go, .thread 1 .go, .thread 1 .go, .thread 1 .go,
      .thread 1 .go, .thread 1 .go, .thread 1 (.result true), .thread 1 .go, .thread 1 .go,
      .thread 1 .go, .thread 1 .go, .thread 0 .go, .thread 0 .go]

def rolledBackCpuOn : List Act :=
  [.thread 1 .go, .thread 1 (.result true), .thread 1 .go, .thread 1 .go, .thread 1 .go,
    .thread 1 .go, .thread 0 (.result true), .thread 0 .go, .thread 0 .go, .thread 0 .go,
    .thread 0 .go, .thread 0 (.psci (cpuOnRegs 1)), .thread 0 .go, .thread 0 .go]

theorem brought_up_stays_online :
    ∃ s, Run step LatchesSettled (boot 2) (bringUpThenReset ++ rolledBackCpuOn) s ∧
      s.sh.gen 1 = 2 ∧ (s.sh.rounds 1).kind = .reset ∧ s.sh.hasCheckpoint 0 = true ∧
      s.sh.hasCheckpoint 1 = false ∧ s.pc 1 = .loop .guest ∧ (s.sh.rounds 1).restores = [0] ∧
      s.sh.calls.getLast? = some ⟨0, 1, 0, 0, 0, false⟩ :=
  exists_run (by decide +kernel)

end

end Ignition.Vmm.Rendezvous
