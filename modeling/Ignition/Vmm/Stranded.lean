import Ignition.Vmm.FixedSet

/-!
# Who waits at a barrier and who is still to come

A barrier is made for all registered vCPUs, and none is ever taken off it. So those who wait
there, and the requester that waits for the result, depend on every other one to look at the
flag. `not_stranded` says that everyone does, in runs in which no vCPU leaves its loop for good
while a rendezvous is active and no rendezvous begins after one has (`Orderly`): a SYSTEM_OFF
and a failed `run` both end the thread without a look at the flags, and after a SYSTEM_OFF the
check for it comes first. Without the condition the others wait for ever
(`shutdown_strands_the_others`).
-/

namespace Ignition.Vmm.Rendezvous

open Parties Runs Ignition.Hvf

/-! ## The condition -/

def Pc.leaving : Pc → Bool
  | .loop (.exit .shutdown) => true
  | .done _ => true
  | .panicked => true
  | _ => false

def Pick.leaves : Pick → Bool
  | .fail => true
  | .psci regs => exitOf regs.handlePsciRequest.2 == .shutdown
  | _ => false

def ReqPc.begins : ReqPc → Bool
  | .begin _ => true
  | _ => false

def Orderly (s : State) : Act → Prop
  | .thread t pick => s.pc t = .loop .guest → pick.leaves = true → s.sh.rendezvousActive = false
  | .request r => (s.rq r).begins = true → s.sh.rendezvousActive = false →
      s.sh.shutdown = false ∧ ∀ t ∈ s.sh.vcpuids, (s.pc t).leaving = false
  | _ => True

instance (s : State) : (a : Act) → Decidable (Orderly s a)
  | .thread t pick => inferInstanceAs (Decidable
      (s.pc t = .loop .guest → pick.leaves = true → s.sh.rendezvousActive = false))
  | .request r => inferInstanceAs (Decidable ((s.rq r).begins = true →
      s.sh.rendezvousActive = false →
        s.sh.shutdown = false ∧ ∀ t ∈ s.sh.vcpuids, (s.pc t).leaving = false))
  | .call .. | .join => isTrue trivial

def Undisturbed (s : State) : Prop :=
  s.sh.rendezvousActive = true →
    s.sh.shutdown = false ∧ ∀ t ∈ s.sh.vcpuids, (s.pc t).leaving = false

/-! ## Steps -/

section

variable {sh : Shared} {t : Nat} {pick : Pick} {x : Shared × Pc}

theorem leaving_of_gone {p : Pc} (h : p.Gone) : p.leaving = true := by
  cases p with
  | done ok | panicked => rfl
  | _ => exact absurd h id

theorem Goes.stays {p : Pc} (hm : Goes sh t p pick x) (hin : p.inRunLoop = true)
    (hp : p.leaving = false) (hpick : p = .loop .guest → pick.leaves = false)
    (hfetch : ∀ k, p = .fetch k → sh.snapBarrier ≠ none) (hshut : sh.shutdown = false) :
    x.1.shutdown = false ∧ x.2.leaving = false := by
  cases hm with
  | ends hdown => cases hdown.symm.trans hshut
  | runFails => cases hpick rfl
  | calls regs =>
    refine ⟨hshut, ?_⟩
    have hne : exitOf regs.handlePsciRequest.2 ≠ .shutdown := beq_eq_false_iff_ne.mp (hpick rfl)
    cases he : exitOf regs.handlePsciRequest.2 with
    | shutdown => exact absurd he hne
    | _ => rfl
  | shutsDown => cases hp
  | misses k hnone => exact absurd hnone (hfetch k rfl)
  | leads k | opens k | leaves k => cases k <;> exact ⟨hshut, rfl⟩
  | _ => first | exact ⟨hshut, rfl⟩ | cases hin

theorem Goes.active {p : Pc} (hm : Goes sh t p pick x) (h : x.1.rendezvousActive = true) :
    sh.rendezvousActive = true := by
  cases hm with
  | leads k => cases k <;> exact h
  | releases => cases h
  | _ => exact h

theorem Asks.stays {q : ReqPc} {y : Shared × ReqPc} (hq : Asks sh q y) :
    y.1.shutdown = sh.shutdown ∧ y.1.vcpuids = sh.vcpuids ∧
      (y.1.rendezvousActive = true → sh.rendezvousActive = true ∨ q.begins = true) := by
  cases hq with
  | freezes => exact ⟨rfl, rfl, fun _ => .inr rfl⟩
  | unfreezes => exact ⟨rfl, rfl, fun h => (nomatch h)⟩
  | _ => exact ⟨rfl, rfl, .inl⟩

end

section

variable {ids : List Nat} {s s' : State}

theorem Inv.snapBarrier_ne_none (h : Inv s) {t : Nat} {k : Kind} (hp : s.pc t = .fetch k) :
    s.sh.snapBarrier ≠ none := by
  have hok := h.threads t
  rw [hp] at hok
  obtain ⟨b, hg, -⟩ := hok
  rw [((h.rounds b hg.lt).current hg.gen_eq).1]
  exact Option.some_ne_none b

theorem Undisturbed.thread (hu : Undisturbed s) (h : Steady False ids s) {t : Nat} {pick : Pick}
    (hpick : s.pc t = .loop .guest → pick.leaves = true → s.sh.rendezvousActive = false)
    {x : Shared × Pc} (hm : Goes s.sh t (s.pc t) pick x) (hact : x.1.rendezvousActive = true) :
    s.sh.rendezvousActive = true ∧ x.1.shutdown = false ∧ x.2.leaving = false := by
  obtain ⟨ht, hin⟩ := h.fixed.inRunLoop hm
  have hactive := hm.active hact
  obtain ⟨hshut, hleave⟩ := hu hactive
  refine ⟨hactive, hm.stays hin (hleave t (h.fixed.vcpuids ▸ ht)) (fun hguest => ?_)
    (fun k => h.inv.snapBarrier_ne_none) hshut⟩
  exact Bool.eq_false_of_not_eq_true fun hleaves =>
    absurd (hactive.symm.trans (hpick hguest hleaves)) (fun h => nomatch h)

theorem Undisturbed.step (hu : Undisturbed s) (h : Steady False ids s) {a : Act}
    (hfix : StaysFixed s a) (hok : Orderly s a) (hst : Rendezvous.step s a = some s') :
    Undisturbed s' := by
  have hfixed := h.fixed.step hfix hst
  cases step_acts hst with
  | thread t pick x hm =>
    intro hact
    obtain ⟨hactive, hshut, hleave⟩ := hu.thread h hok hm hact
    refine ⟨hshut, fun u hmem => ?_⟩
    show (Function.update s.pc t x.2 u).leaving = false
    rw [hfixed.vcpuids, ← h.fixed.vcpuids] at hmem
    exact forall_update (P := fun u p => u ∈ s.sh.vcpuids → p.leaving = false) (hu hactive).2
      (fun _ => hleave) u hmem
  | request r y hq =>
    obtain ⟨hshut, hids, hactive⟩ := hq.stays
    intro hact
    have hclean : s.sh.shutdown = false ∧ ∀ t ∈ s.sh.vcpuids, (s.pc t).leaving = false := by
      by_cases hold : s.sh.rendezvousActive = true
      · exact hu hold
      · exact hok ((hactive hact).resolve_left hold) (Bool.eq_false_of_not_eq_true hold)
    exact ⟨hshut.trans hclean.1, fun t ht => hclean.2 t (hids ▸ ht)⟩
  | _ => exact hu

end

def FixedOrderly (s : State) (a : Act) : Prop := StaysFixed s a ∧ Orderly s a

instance (s : State) (a : Act) : Decidable (FixedOrderly s a) := by
  unfold FixedOrderly
  infer_instance

theorem undisturbed_run {ids : List Nat} {s s' : State} {as : List Act}
    (hr : Run step FixedOrderly s as s') (h : Steady False ids s) (hu : Undisturbed s) :
    Steady False ids s' ∧ Undisturbed s' := by
  induction hr with
  | nil s => exact ⟨h, hu⟩
  | cons hok hst _ ih =>
    exact ih (h.step hok.1 (fun h => absurd h id) hst) (hu.step h hok.1 hok.2 hst)

/-! ## Nobody is stranded -/

def Awaited (s : State) (b : Nat) : Prop :=
  (∃ t half k, s.pc t = .blocked half k b (s.sh.gen b)) ∨
    ∃ r, s.rq r = .await b ∧ (s.sh.rounds b).sent = none

/-- The thread has seen the flag that was raised for barrier `b`. -/
def SeenFlag (s : State) (b t : Nat) : Prop :=
  match s.pc t with
  | .push _ => s.sh.snapBarrier = some b
  | .fetch _ => s.sh.snapBarrier = some b
  | .arrive _ _ c => c = b
  | .blocked _ _ c _ => c = b
  | .lead _ c _ => c = b
  | _ => False

section

variable {ids : List Nat} {s s' : State}

theorem seenFlag_of_between {b t : Nat} (h : (s.pc t).Between b) : SeenFlag s b t := by
  unfold SeenFlag
  cases hp : s.pc t with
  | blocked half k c g | lead k c q =>
    rw [hp] at h
    exact h
  | arrive half k c =>
    rw [hp] at h
    cases half with
    | first => exact absurd h id
    | second => exact h
  | _ =>
    rw [hp] at h
    exact absurd h id

theorem inRunLoop_of_between {p : Pc} {b : Nat} (h : p.Between b) : p.inRunLoop = true := by
  cases p with
  | blocked half k c g | lead k c q | arrive half k c => rfl
  | _ => exact absurd h id

theorem barrier_step {a : Act} (hfix : StaysFixed s a) (h : Fixed ids s)
    (hst : step s a = some s') {b : Nat} (hb : b < s.sh.roundCount) :
    b < s'.sh.roundCount ∧ (s'.sh.rounds b).kind = (s.sh.rounds b).kind ∧
      s'.sh.members b = s.sh.members b ∧
      (s'.sh.gen b = s.sh.gen b ∨ s'.sh.gen b = s.sh.gen b + 1) := by
  cases step_acts hst with
  | thread t pick x hm =>
    obtain ⟨e, -⟩ := hm.sameSet (h.inRunLoop hm).2 hfix
    exact ⟨e.roundCount ▸ hb, e.kind b, e.members b, e.gen b⟩
  | request r y hq =>
    generalize s.rq r = q at hq
    cases hq with
    | installs =>
      have hold : ∀ r, (s.sh.setRound _ r).rounds b = s.sh.rounds b :=
        setRound_ne (Nat.ne_of_lt hb)
      exact ⟨Nat.lt_succ_of_lt hb, congrArg Round.kind (hold _), congrArg Round.members (hold _),
        Or.inl (congrArg (fun r => r.barrier.gen) (hold _))⟩
    | hears c ok =>
      have e : SameSet s.sh (s.sh.setRound c { s.sh.rounds c with returned := some ok }) :=
        .setRound rfl rfl (.inl rfl) id
      exact ⟨hb, e.kind b, e.members b, e.gen b⟩
    | _ => exact ⟨hb, rfl, rfl, .inl rfl⟩
  | _ => exact ⟨hb, rfl, rfl, .inl rfl⟩

theorem Undisturbed.inRunLoop (hu : Undisturbed s) (h : Steady False ids s) {b t : Nat}
    (hb : b < s.sh.roundCount) (hzero : s.sh.gen b = 0) (ht : t ∈ s.sh.members b) :
    (s.pc t).inRunLoop = true := by
  have hactive := ((h.inv.rounds b hb).current hzero).2
  rw [h.fixed.members b hb] at ht
  have hnot := (hu hactive).2 t (h.fixed.vcpuids ▸ ht)
  refine (h.fixed.present t ht).resolve_right fun hgone => ?_
  exact absurd (hnot.symm.trans (leaving_of_gone hgone)) (fun h => nomatch h)

/-- **Before it can exit.** From a state in which members gather, a member that is over at the end
of an orderly run has seen the flag on the way. -/
theorem seenFlag_before_exit {as : List Act} (hr : Run step FixedOrderly s as s')
    (h : Steady False ids s) (hu : Undisturbed s) {b t : Nat} (hb : b < s.sh.roundCount)
    (hzero : s.sh.gen b = 0) (ht : t ∈ s.sh.members b) (hgone : (s'.pc t).Gone) :
    ∃ as₁ as₂ m, as = as₁ ++ as₂ ∧ Run step FixedOrderly s as₁ m ∧ SeenFlag m b t := by
  induction hr with
  | nil s =>
    have hin := hu.inRunLoop h hb hzero ht
    cases hp : s.pc t with
    | done ok | panicked =>
      rw [hp] at hin
      cases hin
    | _ =>
      rw [hp] at hgone
      exact absurd hgone id
  | @cons s s₁ s' a as hok hst hrest ih =>
    have h₁ := h.step hok.1 (fun h => absurd h id) hst
    have hu₁ := hu.step h hok.1 hok.2 hst
    obtain ⟨hb₁, -, hmem, hgen⟩ := barrier_step hok.1 h.fixed hst hb
    have ht₁ : t ∈ s₁.sh.members b := hmem ▸ ht
    rcases hgen with hgen | hgen
    · -- the members still gather
      obtain ⟨as₁, as₂, m, rfl, hrun, hseen⟩ := ih h₁ hu₁ hb₁ (hgen.trans hzero) ht₁ hgone
      exact ⟨a :: as₁, as₂, m, rfl, .cons hok hst hrun, hseen⟩
    -- they have met, so this one is among them
    have hone : s₁.sh.gen b = 1 := by omega
    exact ⟨[a], as, s₁, rfl, .cons hok hst (.nil s₁),
      seenFlag_of_between ((h₁.inv.rounds b hb₁).between hone t ht₁)⟩

/-- **Nobody is stranded.** In every orderly run over a fixed set of vCPUs, whenever somebody waits
at a barrier or for the result of a snapshot, each vCPU the barrier counts on is in its run
loop and has seen the flag or will see it before it can exit. -/
theorem not_stranded {vcpuCount : Nat} {point : Option (List VcpuCheckpoint)} (hnd : ids.Nodup)
    {as : List Act} (hr : Run step FixedOrderly (looping vcpuCount ids point) as s)
    {b : Nat} (hb : b < s.sh.roundCount) (hwait : Awaited s b) {t : Nat}
    (ht : t ∈ s.sh.members b) :
    (s.pc t).inRunLoop = true ∧
      (SeenFlag s b t ∨ ∀ bs s', Run step FixedOrderly s bs s' → (s'.pc t).Gone →
        ∃ bs₁ bs₂ m, bs = bs₁ ++ bs₂ ∧ Run step FixedOrderly s bs₁ m ∧ SeenFlag m b t) := by
  obtain ⟨h, hu⟩ := undisturbed_run hr (.looping hnd) fun hact => nomatch hact
  have hround := h.inv.rounds b hb
  have hle := hround.gen_le
  -- it is not over: the last to leave has told the requester and freed the others
  have htwo : s.sh.gen b ≠ 2 := by
    intro htwo
    rcases hwait with ⟨u, half, k, hp⟩ | ⟨r, hrq, hnone⟩
    · have hok := h.inv.threads u
      rw [hp] at hok
      cases half with
      | first | second => exact absurd (htwo.symm.trans hok.1) (by omega)
    · have hreq := h.serve.requests r
      rw [hrq] at hreq
      have hnolead : ∀ u, ¬ (s.pc u).Leads b := by
        intro u hl
        obtain ⟨⟨_, hm⟩, -⟩ := h.inv.met_of_leads hl
        exact absurd (htwo.symm.trans hm.gen_eq) (by omega)
      obtain ⟨ok, -, hsent⟩ := (h.serve.rounds b hb).served (by omega) hnolead
      rw [if_pos hreq.2, hnone] at hsent
      cases hsent
  by_cases hzero : s.sh.gen b = 0
  · exact ⟨hu.inRunLoop h hb hzero ht, .inr fun bs s' hbs hgone =>
      seenFlag_before_exit hbs h hu hb hzero ht hgone⟩
  · have hbetween := hround.between (by omega) t ht
    exact ⟨inRunLoop_of_between hbetween, .inl (seenFlag_of_between hbetween)⟩

/-! ## A shutdown during a snapshot -/

theorem not_stranded_alone :
    ∃ s, Run step FixedOrderly (looping 1 [0] none)
        [.call 0 .snapshot, .request 0, .request 0, .request 0, .request 0, .request 0,
          .request 0] s ∧ s.rq 0 = .await 0 ∧ (s.pc 0).inRunLoop = true := by
  obtain ⟨s, hr, hrq, hsent, hlt, hmem⟩ : ∃ s, Run step FixedOrderly (looping 1 [0] none)
      [.call 0 .snapshot, .request 0, .request 0, .request 0, .request 0, .request 0,
        .request 0] s ∧ s.rq 0 = .await 0 ∧ (s.sh.rounds 0).sent = none ∧
        0 < s.sh.roundCount ∧ 0 ∈ s.sh.members 0 := exists_run (by decide +kernel)
  exact ⟨s, hr, hrq,
    (not_stranded (List.nodup_singleton 0) hr hlt (.inr ⟨0, hrq, hsent⟩) hmem).1⟩

def systemOffRegs : Regs :=
  { Regs.new 0 with reg := fun r => if r = 0 then PSCI_SYSTEM_OFF else 0 }

def shutdownBeside : List Act :=
  [.thread 1 .go, .thread 1 .go, .thread 1 .go, .thread 1 .go, .call 0 .snapshot, .request 0,
    .request 0, .request 0, .request 0, .request 0, .request 0, .thread 0 .go, .thread 0 .go,
    .thread 0 (.saved (some ((Regs.new 0).saveState 0))), .thread 0 .go, .thread 0 .go,
    .thread 1 (.psci systemOffRegs), .thread 1 .go]

/-- **A shutdown strands the others.** vCPU 0 waits at a barrier that counts on vCPU 1, whose
thread is over, and the requester waits for the snapshot. -/
theorem shutdown_strands_the_others :
    ∃ s, Run step (fun _ _ => True) (looping 2 [0, 1] none) shutdownBeside s ∧
      s.pc 0 = .blocked .first .snapshot 0 (s.sh.gen 0) ∧ s.rq 0 = .await 0 ∧
      1 ∈ s.sh.members 0 ∧ (s.pc 1).Gone :=
  exists_run (by decide +kernel)

end

end Ignition.Vmm.Rendezvous
