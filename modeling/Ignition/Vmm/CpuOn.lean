import Ignition.Vmm.Online

/-!
# What CPU_ON answers and what it does

`handle_psci_request` answers every CPU_ON with success before the run loop hands the call to
`spawn`, which may still drop it. `calls` records each call when it is decided, with X0 as its
caller finds it and whether a thread was started. A call for a configured vCPU that is not
running is dropped only while a rendezvous is active, and no vCPU is started twice
(`cpuOn_answers`).
-/

namespace Ignition.Vmm.Rendezvous

open Parties Runs Ignition.Hvf List Function Option

def Pc.calling : Pc → Bool
  | .loop (.exit (.cpuOn _ _ _)) => true
  | .loop (.claiming _ _ _) => true
  | .loop (.spawning _ _ _) => true
  | _ => false

def Pc.spawns : Pc → Option Nat
  | .loop (.spawning target _ _) => some target
  | _ => none

theorem Pc.spawns_of_not_calling {p : Pc} (h : p.calling = false) : p.spawns = none := by
  cases p with
  | loop q =>
    cases q with
    | spawning target entry ctx => cases h
    | _ => rfl
  | _ => rfl

/-- The calls that have not been decided yet. -/
structure CallsOk (s : State) : Prop where
  answered : ∀ u, (s.pc u).calling = true → s.sh.x0 u = 0
  started : ∀ x ∈ s.sh.spawned, x.1 ∈ s.sh.running
  claimed : ∀ u target, (s.pc u).spawns = some target →
    target ∈ s.sh.running ∧ ∀ x ∈ s.sh.spawned, x.1 ≠ target
  alone : ∀ u v target, (s.pc u).spawns = some target → (s.pc v).spawns = some target → u = v

/-! ## Steps that decide nothing -/

section

variable {sh : Shared} {t : Nat} {pick : Pick} {x : Shared × Pc}

/-- The step has nothing to do with CPU_ON. -/
structure Unasked (sh : Shared) (x : Shared × Pc) : Prop where
  x0 : x.1.x0 = sh.x0
  spawned : x.1.spawned = sh.spawned
  running : x.1.running = sh.running
  calls : x.1.calls = sh.calls
  pc : x.2.calling = false

end

/-! ## The invariant -/

section

variable {s s' : State} {t : Nat} {pick : Pick} {x : Shared × Pc} {sh' : Shared} {p' : Pc}

theorem CallsOk.go (h : CallsOk s) (hx0 : ∀ u, u ≠ t → sh'.x0 u = s.sh.x0 u)
    (hcall : p'.calling = true → sh'.x0 t = 0) (hspawned : sh'.spawned = s.sh.spawned)
    (hrunning : sh'.running = s.sh.running) (hp' : p'.spawns = none) :
    CallsOk { s with sh := sh', pc := update s.pc t p' } := by
  have hspawns : ∀ u target, (update s.pc t p' u).spawns = some target →
      (s.pc u).spawns = some target := by
    refine forall_update (P := fun u p => ∀ target, p.spawns = some target →
      (s.pc u).spawns = some target) (fun _ _ => id) fun target hh => ?_
    rw [hp'] at hh
    cases hh
  refine ⟨fun u hu => ?_, ?_, fun u target hu => ?_, fun u v target hu hv => ?_⟩
  · dsimp only at hu ⊢
    by_cases hut : u = t
    · subst hut
      rw [update_self] at hu
      exact hcall hu
    · rw [update_of_ne hut] at hu
      rw [hx0 u hut]
      exact h.answered u hu
  · dsimp only
    rw [hspawned, hrunning]
    exact h.started
  · dsimp only
    rw [hspawned, hrunning]
    exact h.claimed u target (hspawns u target hu)
  · exact h.alone u v target (hspawns u target hu) (hspawns v target hv)

theorem CallsOk.unasked (h : CallsOk s) (e : Unasked s.sh x) :
    CallsOk { s with sh := x.1, pc := update s.pc t x.2 } := by
  refine h.go (fun u _ => ?_) (fun hh => ?_) e.spawned e.running (Pc.spawns_of_not_calling e.pc)
  · rw [e.x0]
  · rw [e.pc] at hh
    cases hh

theorem CallsOk.claim {target entry ctx : Nat} (h : CallsOk s)
    (hp : s.pc t = .loop (.claiming target entry ctx)) (hnot : target ∉ s.sh.running) :
    CallsOk { s with
      sh := { s.sh with running := target :: s.sh.running }
      pc := update s.pc t (.loop (.spawning target entry ctx)) } := by
  refine ⟨?_, fun x hx => mem_cons_of_mem _ (h.started x hx), ?_, ?_⟩
  · refine forall_update (P := fun u p => p.calling = true → s.sh.x0 u = 0) h.answered fun _ => ?_
    refine h.answered t ?_
    rw [hp]
    rfl
  · refine forall_update (P := fun _ p => ∀ tgt, p.spawns = some tgt →
      tgt ∈ target :: s.sh.running ∧ ∀ x ∈ s.sh.spawned, x.1 ≠ tgt) ?_ ?_
    · intro u tgt hu
      obtain ⟨hmem, hne⟩ := h.claimed u tgt hu
      exact ⟨mem_cons_of_mem _ hmem, hne⟩
    · rintro tgt hh
      cases hh
      refine ⟨mem_cons_self, fun x hx heq => hnot ?_⟩
      rw [← heq]
      exact h.started x hx
  · -- whoever is about to start a vCPU has it in `running`
    have hother : ∀ u tgt, u ≠ t → (s.pc u).spawns = some tgt → tgt ≠ target := by
      rintro u tgt - hu rfl
      exact hnot (h.claimed u tgt hu).1
    intro u v tgt hu hv
    dsimp only at hu hv
    by_cases hut : u = t <;> by_cases hvt : v = t
    · rw [hut, hvt]
    · subst hut
      rw [update_self] at hu
      rw [update_of_ne hvt] at hv
      exact absurd (some.inj hu).symm (hother v tgt hvt hv)
    · subst hvt
      rw [update_self] at hv
      rw [update_of_ne hut] at hu
      exact absurd (some.inj hv).symm (hother u tgt hut hu)
    · rw [update_of_ne hut] at hu
      rw [update_of_ne hvt] at hv
      exact h.alone u v tgt hu hv

theorem CallsOk.spawn {target entry ctx : Nat} (h : CallsOk s)
    (hp : s.pc t = .loop (.spawning target entry ctx)) (start : Start) {sh' : Shared}
    (hx0 : sh'.x0 = s.sh.x0) (hrunning : sh'.running = s.sh.running)
    (hspawned : sh'.spawned = s.sh.spawned ++ [(target, start)]) :
    CallsOk { s with sh := sh', pc := update s.pc t (.loop .top) } := by
  have hself : (s.pc t).spawns = some target := by
    rw [hp]
    rfl
  have hspawns : ∀ u tgt, (update s.pc t (.loop .top) u).spawns = some tgt →
      (s.pc u).spawns = some tgt ∧ u ≠ t := by
    intro u tgt hu
    by_cases hut : u = t
    · subst hut
      rw [update_self] at hu
      cases hu
    · rw [update_of_ne hut] at hu
      exact ⟨hu, hut⟩
  refine ⟨?_, fun x hx => ?_, fun u tgt hu => ?_, fun u v tgt hu hv => ?_⟩
  · dsimp only
    rw [hx0]
    exact forall_update (P := fun u p => p.calling = true → s.sh.x0 u = 0) h.answered
      fun hh => nomatch hh
  · dsimp only at hx ⊢
    rw [hspawned] at hx
    rw [hrunning]
    rcases mem_append.mp hx with hx | hx
    · exact h.started x hx
    · rw [mem_singleton.mp hx]
      exact (h.claimed t target hself).1
  · obtain ⟨hold, hut⟩ := hspawns u tgt hu
    obtain ⟨hmem, hne⟩ := h.claimed u tgt hold
    rw [hspawned, hrunning]
    refine ⟨hmem, fun x hx => (mem_append.mp hx).elim (hne x) fun hx heq => hut ?_⟩
    rw [mem_singleton.mp hx] at heq
    exact h.alone u t tgt hold (hself.trans (congrArg some heq))
  · exact h.alone u v tgt (hspawns u tgt hu).1 (hspawns v tgt hv).1

theorem CallsOk.goes (h : CallsOk s) (hm : Goes s.sh t (s.pc t) pick x) :
    CallsOk { s with sh := x.1, pc := update s.pc t x.2 } := by
  generalize hp : s.pc t = p at hm
  cases hm with
  | calls regs =>
    -- the guest makes a PSCI call, which is answered here
    refine h.go (fun u hut => update_of_ne hut _ _) (fun hcall => ?_) rfl rfl rfl
    dsimp only at hcall ⊢
    rw [update_self]
    cases hexit : regs.handlePsciRequest.2 with
    | cpuOn target entry ctx =>
      exact Regs.handlePsciRequest_cpuOn (Prod.ext rfl hexit)
    | _ =>
      rw [hexit] at hcall
      cases hcall
  | refuses | drops => exact h.go (fun _ _ => rfl) (fun hh => nomatch hh) rfl rfl rfl
  | tries =>
    refine h.go (fun _ _ => rfl) (fun _ => h.answered t ?_) rfl rfl rfl
    rw [hp]
    rfl
  | claims target entry ctx running heq =>
    obtain ⟨-, hnot, -, rfl⟩ := claim_claimed heq
    exact h.claim hp hnot
  | spawns => exact h.spawn hp _ rfl rfl rfl
  | leads k | opens k | leaves k => cases k <;> exact h.unasked ⟨rfl, rfl, rfl, rfl, rfl⟩
  | _ => exact h.unasked ⟨rfl, rfl, rfl, rfl, rfl⟩

theorem Asks.unasked {sh : Shared} {q : ReqPc} {y : Shared × ReqPc} (hq : Asks sh q y) :
    y.1.x0 = sh.x0 ∧ y.1.spawned = sh.spawned ∧ y.1.running = sh.running ∧
      y.1.calls = sh.calls := by
  cases hq <;> exact ⟨rfl, rfl, rfl, rfl⟩

theorem CallsOk.congr (h : CallsOk s) (hpc : s'.pc = s.pc) (hx0 : s'.sh.x0 = s.sh.x0)
    (hspawned : s'.sh.spawned = s.sh.spawned) (hrunning : s'.sh.running = s.sh.running) :
    CallsOk s' := by
  refine ⟨?_, ?_, ?_, ?_⟩ <;> simp only [hpc, hx0, hspawned, hrunning]
  · exact h.answered
  · exact h.started
  · exact h.claimed
  · exact h.alone

theorem CallsOk.step (h : CallsOk s) {a : Act} (hst : Rendezvous.step s a = some s') :
    CallsOk s' := by
  cases step_acts hst with
  | thread t pick x hm => exact h.goes hm
  | request r y hq =>
    obtain ⟨hx0, hspawned, hrunning, -⟩ := hq.unasked
    exact h.congr rfl hx0 hspawned hrunning
  | _ => exact h.congr rfl rfl rfl rfl

theorem CallsOk.starting (sh : Shared) (ids : List Nat) (start : Start) :
    CallsOk (starting sh ids start) := by
  refine ⟨fun _ hh => (nomatch hh), fun x hx => ?_, fun _ _ hh => (nomatch hh),
    fun _ _ _ hh => (nomatch hh)⟩
  obtain ⟨t, ht, rfl⟩ := mem_map.mp hx
  exact ht

theorem Starts.callsOk (h : Starts s) : CallsOk s := by
  cases h <;> exact .starting _ _ _

end

/-! ## Decisions -/

section

variable {s s' : State} {t : Nat} {pick : Pick} {x : Shared × Pc} {c : Call}

theorem step_decides {a : Act} (hst : step s a = some s') (hc : s'.sh.calls = s.sh.calls ++ [c]) :
    ∃ t p, s.pc t = .loop p ∧ (Pc.loop p).calling = true ∧ c.x0 = s.sh.x0 t ∧
      (c.started = true ∧ p = .spawning c.target c.entry c.ctx ∧
          s'.sh.spawned = s.sh.spawned ++ [(c.target, .secondary c.entry c.ctx)] ∨
        c.started = false ∧ s'.sh.spawned = s.sh.spawned ∧ (s.sh.shutdown = true ∨
          (claim s.sh.mpidrs s.sh.running s.sh.rendezvousActive c.target).1 ≠ .claimed)) := by
  have hnone : s'.sh.calls ≠ s.sh.calls := by
    intro heq
    rw [heq] at hc
    exact absurd hc.symm (by simp)
  have hone : ∀ {d : Call}, s.sh.calls ++ [d] = s.sh.calls ++ [c] → d = c :=
    fun hd => singleton_inj.mp (append_cancel_left hd)
  cases step_acts hst with
  | thread t pick x hm =>
    generalize hp : s.pc t = p at hm
    cases hm with
    | refuses target entry ctx hshut =>
      cases hone hc
      exact ⟨t, _, hp, rfl, rfl, .inr ⟨rfl, rfl, .inl hshut⟩⟩
    | drops target entry ctx hne =>
      cases hone hc
      exact ⟨t, _, hp, rfl, rfl, .inr ⟨rfl, rfl, .inr hne⟩⟩
    | spawns =>
      cases hone hc
      exact ⟨t, _, hp, rfl, rfl, .inl ⟨rfl, rfl, rfl⟩⟩
    | leads k => cases k <;> exact absurd rfl hnone
    | _ => exact absurd rfl hnone
  | request r y hq => exact absurd hq.unasked.2.2.2 hnone
  | _ => exact absurd rfl hnone

theorem frozen_of_claim {mpidrs running : List Nat} {active : Bool} {target : Nat}
    (h : (claim mpidrs running active target).1 ≠ .claimed) (hmem : target ∈ mpidrs)
    (hnot : target ∉ running) : active = true := by
  unfold claim at h
  rw [if_neg (not_not_intro hmem), if_neg hnot] at h
  by_contra hactive
  rw [if_neg hactive] at h
  exact h rfl

/-- **What CPU_ON answers and does.** Whenever a call is decided: if it starts its target, its
caller finds zero in X0 and no thread was started for the target before; if it does not, nothing
is started, and a target that was configured and not running was refused, before a shutdown,
because a rendezvous was active. -/
theorem cpuOn_answers {s₀ : State} (hs : Starts s₀) {acts : List Act}
    (hr : Run step (fun _ _ => True) s₀ acts s) {a : Act} (hst : step s a = some s')
    (hc : s'.sh.calls = s.sh.calls ++ [c]) :
    (c.started = true → c.x0 = 0 ∧ (∀ x ∈ s.sh.spawned, x.1 ≠ c.target) ∧
        s'.sh.spawned = s.sh.spawned ++ [(c.target, .secondary c.entry c.ctx)]) ∧
      (c.started = false → s'.sh.spawned = s.sh.spawned ∧
        (c.target ∈ s.sh.mpidrs → c.target ∉ s.sh.running → s.sh.shutdown = false →
          c.x0 = 0 ∧ s.sh.rendezvousActive = true)) := by
  have hok : CallsOk s := hr.invariant (fun _ _ _ h _ hst => CallsOk.step h hst) hs.callsOk
  obtain ⟨t, p, hp, hcalling, hx0, hcase⟩ := step_decides hst hc
  have hzero : c.x0 = 0 := by
    rw [hx0]
    refine hok.answered t ?_
    rw [hp]
    exact hcalling
  rcases hcase with ⟨hstarted, hspawning, hspawned⟩ | ⟨hstarted, hspawned, hwhy⟩
  · refine ⟨fun _ => ⟨hzero, ?_, hspawned⟩, fun hh => ?_⟩
    · refine (hok.claimed t c.target ?_).2
      rw [hp, hspawning]
      rfl
    · rw [hstarted] at hh
      cases hh
  · refine ⟨fun hh => ?_, fun _ => ⟨hspawned, fun hmem hnot hup => ⟨hzero, ?_⟩⟩⟩
    · rw [hstarted] at hh
      cases hh
    · rcases hwhy with hshut | hclaim
      · rw [hshut] at hup
        cases hup
      · exact frozen_of_claim hclaim hmem hnot

theorem cpuOn_answers_secondary :
    ∃ s s', Run step (fun _ _ => True) (boot 2)
        (primaryUp ++ [.thread 0 (.psci (cpuOnRegs 1)), .thread 0 .go, .thread 0 .go]) s ∧
      step s (.thread 0 .go) = some s' ∧ s'.sh.calls = s.sh.calls ++ [⟨0, 1, 0, 0, 0, true⟩] ∧
      s'.sh.spawned = s.sh.spawned ++ [(1, .secondary 0 0)] := by
  obtain ⟨s, hrun, s', hst, hc⟩ : ∃ s, Run step (fun _ _ => True) (boot 2)
      (primaryUp ++ [.thread 0 (.psci (cpuOnRegs 1)), .thread 0 .go, .thread 0 .go]) s ∧
      ∃ s' ∈ step s (.thread 0 .go), s'.sh.calls = s.sh.calls ++ [⟨0, 1, 0, 0, 0, true⟩] :=
    exists_run (by decide +kernel)
  exact ⟨s, s', hrun, hst, hc, ((cpuOn_answers (.boot 2) hrun hst hc).1 rfl).2.2⟩

theorem success_without_start :
    (∃ s, Run step (fun _ _ => True) (boot 2)
        (primaryUp ++ [.thread 0 (.psci (cpuOnRegs 1)), .call 0 .snapshot, .request 0,
          .thread 0 .go, .thread 0 .go]) s ∧
      s.sh.calls = [⟨0, 1, 0, 0, 0, false⟩] ∧ s.sh.spawned = [(0, .primary)] ∧
      1 ∈ s.sh.mpidrs ∧ 1 ∉ s.sh.running) ∧
    ∃ s, Run step (fun _ _ => True) (boot 2)
        (primaryUp ++ [.thread 0 (.psci (cpuOnRegs 7)), .thread 0 .go, .thread 0 .go]) s ∧
      s.sh.calls = [⟨0, 7, 0, 0, 0, false⟩] ∧ s.sh.spawned = [(0, .primary)] :=
  ⟨exists_run (by decide +kernel), exists_run (by decide +kernel)⟩

end

end Ignition.Vmm.Rendezvous
