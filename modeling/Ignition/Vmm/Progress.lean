import Mathlib.Algebra.Order.BigOperators.Group.List
import Mathlib.Algebra.Order.Group.Nat
import Mathlib.Algebra.GroupWithZero.Nat
import Ignition.Base.Fair
import Ignition.Vmm.Calm

/-!
# A rendezvous comes to its end

A flag that is up is seen: every vCPU that does not wait at the barrier already goes once
round its loop at most before it joins (`Pc.toGather`). Once the first barrier has opened,
the leader has its handler to call and flags to clear, the others only have to come to the
second barrier (`Pc.toLeave`). Both ranks are lowered by every step a vCPU takes, and as long
as a barrier is short of a member some vCPU can take one, so under weak fairness both phases
end.
-/

namespace Ignition.Vmm.Rendezvous

open Parties Runs Function Option

/-! ## Who can take a step -/

section

variable {ids : List Nat} {s s' : State} {t : Nat}

/-- A step of the thread of vCPU `t`. -/
def Act.ofThread (t : Nat) (a : Act) : Prop := ∃ pick, a = .thread t pick

/-- The thread of vCPU `t` can take a step. -/
def Moves (s : State) (t : Nat) : Prop := Enabled step (Act.ofThread t) s

def Free (s : State) (t : Nat) : Prop :=
  ∀ half k b g, s.pc t = .blocked half k b g → s.sh.gen b ≠ g

theorem moves_of_threadStep {pick : Pick} {x : Shared × Pc}
    (h : threadStep s.sh t (s.pc t) pick = some x) : Moves s t := by
  refine ⟨.thread t pick, { s with sh := x.1, pc := update s.pc t x.2 }, ⟨pick, rfl⟩, ?_⟩
  simp only [step, h, map_some]

theorem Serving.inRunLoop (h : Serving ids s) (ht : t ∈ ids) : (s.pc t).inRunLoop = true := by
  refine (h.steady.fixed.present t ht).resolve_right fun hgone => ?_
  have hleave := leaving_of_gone hgone
  rw [h.stays t ht] at hleave
  cases hleave

theorem Serving.moves (h : Serving ids s) (ht : t ∈ ids) (hfree : Free s t) :
    Moves s t := by
  have hin := h.inRunLoop ht
  have hgo : ∀ (pick : Pick) {p : Pc}, s.pc t = p → (threadStep s.sh t p pick).isSome = true →
      Moves s t := by
    intro pick p hp hsome
    obtain ⟨x, hx⟩ := isSome_iff_exists.mp hsome
    rw [← hp] at hx
    exact moves_of_threadStep hx
  cases hp : s.pc t with
  | loop q =>
    cases q with
    | top | poll k | spawning target entry ctx => exact hgo .go hp rfl
    | guest => exact hgo .other hp rfl
    | exit e =>
      cases e with
      | other | shutdown => exact hgo .go hp rfl
      | cpuOn target entry ctx =>
        refine hgo .go hp ?_
        simp only [threadStep, loopStep]
        split <;> rfl
    | claiming target entry ctx =>
      refine hgo .go hp ?_
      simp only [threadStep, loopStep]
      split <;> rfl
  | push k => exact hgo (.saved none) hp rfl
  | fetch k =>
    refine hgo .go hp ?_
    simp only [threadStep, meetStep]
    split <;> rfl
  | arrive half k b =>
    refine hgo .go hp ?_
    simp only [threadStep, meetStep]
    split
    · cases half <;> rfl
    · rfl
  | blocked half k b g =>
    refine hgo .go hp ?_
    simp only [threadStep, meetStep]
    rw [if_neg (hfree half k b g hp)]
    cases half <;> rfl
  | lead k b q =>
    cases q with
    | take | clear ok slot | release ok slot => exact hgo .go hp rfl
    | slot cps =>
      cases cps <;> exact hgo .go hp rfl
    | handler cps slot => exact hgo (.result true) hp rfl
    | send ok slot =>
      cases slot <;> exact hgo .go hp rfl
  | restoring b => exact hgo (.result true) hp rfl
  | absent | start q | done ok | panicked =>
    rw [hp] at hin
    cases hin

theorem free_of_moves (hmoves : Moves s t) : Free s t := by
  obtain ⟨_, s', ⟨pick, rfl⟩, hst⟩ := hmoves
  obtain ⟨x, hx, -⟩ := map_eq_some_iff.mp hst
  intro half k b g hp
  rw [hp] at hx
  cases threadStep_goes hx with
  | wakes _ _ _ hne | leaves _ _ _ hne => exact hne

theorem Serving.gen_mono (h : Serving ids s) {a : Act} (hcalm : Calm s a)
    (hst : Rendezvous.step s a = some s') {b : Nat} (hb : b < s.sh.roundCount) :
    s.sh.gen b ≤ s'.sh.gen b := by
  obtain ⟨-, -, -, hgen⟩ := barrier_step hcalm.1 h.steady.fixed hst hb
  omega

theorem pc_of_not_ofThread {a : Act} (hst : step s a = some s') (ha : ¬ a.ofThread t) :
    s'.pc t = s.pc t := by
  cases step_acts hst with
  | thread u pick x =>
    have hne : t ≠ u := by
      rintro rfl
      exact ha ⟨pick, rfl⟩
    exact update_of_ne hne _ _
  | _ => rfl

theorem Serving.moves_stable (h : Serving ids s) (ht : t ∈ ids) {a : Act} (hcalm : Calm s a)
    (hst : Rendezvous.step s a = some s') (hmoves : Moves s t)
    (ha : ¬ a.ofThread t) : Moves s' t := by
  refine (h.step hcalm hst).moves ht fun half k b g hp => ?_
  rw [pc_of_not_ofThread hst ha] at hp
  obtain ⟨hb, hle⟩ := h.steady.inv.blocked_le hp
  have hne := free_of_moves hmoves half k b g hp
  have hmono := h.gen_mono hcalm hst hb
  omega

end

/-! ## Some vCPU can -/

section

variable {ids : List Nat} {s : State} {k : Kind} {b : Nat}

theorem Serving.moves_of_met (h : Serving ids s) (hb : b < s.sh.roundCount)
    (hone : s.sh.gen b = 1) : ∃ t ∈ ids, Moves s t := by
  have hr := h.steady.inv.rounds b hb
  obtain ⟨t, ht, hnot⟩ := (hr.leaving hone).missing (h.steady.fixed.room b hb)
  have hbetween := hr.between hone t ht
  rw [h.steady.fixed.members b hb] at ht
  refine ⟨t, ht, h.moves ht fun half k c g hp hgen => ?_⟩
  rw [hp] at hbetween hnot
  obtain rfl : c = b := hbetween
  cases half with
  | first =>
    have hok := h.steady.inv.threads t
    rw [hp] at hok
    obtain ⟨rfl, -⟩ := hok
    omega
  | second => exact absurd hnot (by simp [Pc.waits])

theorem Serving.moves_of_gathers (h : Serving ids s) (hg : Gathers s.sh k b) :
    ∃ t ∈ ids, Moves s t := by
  have hr := h.steady.inv.rounds b hg.lt
  obtain ⟨t, ht, hnot⟩ := (hr.gathering hg.gen_eq).missing (h.steady.fixed.room b hg.lt)
  rw [h.steady.fixed.members b hg.lt] at ht
  by_cases hfree : Free s t
  · exact ⟨t, ht, h.moves ht hfree⟩
  unfold Free at hfree
  push Not at hfree
  obtain ⟨half, k', c, g, hp, hgen⟩ := hfree
  have hok := h.steady.inv.threads t
  rw [hp] at hok hnot
  cases half with
  | first =>
    obtain ⟨rfl, -, hgc | hm⟩ := hok
    · obtain ⟨-, rfl⟩ := h.steady.inv.gathers_unique hg hgc
      exact absurd hnot (by simp [Pc.waits])
    · have := hm.gen_eq
      omega
  | second =>
    obtain ⟨rfl, -, hl⟩ := hok
    exact h.moves_of_met hl.lt hgen

end

/-! ## Every step leads on -/

section

variable {ids : List Nat} {s : State} {t b : Nat} {k : Kind} {pick : Pick} {x : Shared × Pc}

@[simp]
def Kind.position : Kind → Nat
  | .snapshot => 0
  | .checkpoint => 1
  | .reset => 2

@[simp]
def LoopPc.position : LoopPc → Nat
  | .poll k => k.position
  | .guest => 3
  | .exit _ => 4
  | .claiming _ _ _ => 5
  | .spawning _ _ _ => 5
  | .top => 6

def LoopPc.toPoll (k : Kind) (p : LoopPc) : Nat := (k.position + 7 - p.position) % 7

/-- How far a vCPU is from waiting at the first barrier of round `b`. -/
def Pc.toGather (k : Kind) (b : Nat) : Pc → Nat
  | .lead _ _ _ => 14
  | .blocked .first _ c _ => if c = b then 0 else 14
  | .arrive .second _ _ => 13
  | .blocked .second _ _ _ => 12
  | .restoring _ => 11
  | .loop p => 4 + p.toPoll k
  | .push _ => 3
  | .fetch _ => 2
  | .arrive .first _ _ => 1
  | _ => 0

def Pc.toLeave : Pc → Nat
  | .lead _ _ .take => 8
  | .lead _ _ (.slot _) => 7
  | .lead _ _ (.handler _ _) => 6
  | .lead _ _ (.clear _ _) => 5
  | .lead _ _ (.release _ _) => 4
  | .lead _ _ (.send _ _) => 3
  | .blocked .first _ _ _ => 2
  | .arrive .second _ _ => 1
  | _ => 0

theorem toPoll_lt (k : Kind) (p : LoopPc) : p.toPoll k < 7 := Nat.mod_lt _ (by omega)

theorem Inv.eq_of_flag (h : Inv s) (hg : Gathers s.sh k b) {k' : Kind} (hk' : s.sh.req k' = true) :
    k' = k := by
  obtain ⟨-, c, hcur, -, hkind, -⟩ := h.flag k' hk'
  have hcur' := ((h.rounds b hg.lt).current hg.gen_eq).1
  obtain rfl : c = b := some.inj (hcur.symm.trans hcur')
  exact hkind.symm.trans hg.kind_eq

/-- **Gathering.** Every step a vCPU takes brings it closer to the barrier, or opens it. -/
theorem Serving.gather_step (h : Serving ids s) (hg : Gathers s.sh k b)
    (hcalm : Calm s (.thread t pick)) (hm : Goes s.sh t (s.pc t) pick x) :
    x.1.gen b = 1 ∨ x.2.toGather k b < (s.pc t).toGather k b := by
  have hinv := h.steady.inv
  have hok := hinv.threads t
  have hin := (h.steady.fixed.inRunLoop hm).2
  obtain ⟨-, hleave⟩ := h.stays_thread hcalm.2.2 hm
  have hlate := hinv.not_early_of_gathers hg t
  have htop := toPoll_lt k .top
  generalize hp : s.pc t = p at hm hok hin hlate
  cases hm with
  | ends hdown => cases hdown.symm.trans h.up
  | joins k' hk' =>
    obtain rfl := hinv.eq_of_flag hg hk'
    cases k' <;> simp [Pc.toGather, LoopPc.toPoll]
  | joinsReset hk' =>
    obtain rfl := hinv.eq_of_flag hg hk'
    simp [Pc.toGather, LoopPc.toPoll]
  | looksOn k' k'' hreq hk =>
    have hne : k' ≠ k := by
      rintro rfl
      cases hreq.symm.trans hg.flag
    cases k' <;> cases hk <;> cases k <;>
      first
        | exact absurd rfl hne
        | simp [Pc.toGather, LoopPc.toPoll]
  | enters hreq =>
    cases k with
    | reset => cases hreq.symm.trans hg.flag
    | _ => simp [Pc.toGather, LoopPc.toPoll]
  | runFails | shutsDown => cases hleave
  | claims target entry ctx running heq =>
    refine absurd (congrArg Prod.fst heq) (hcalm.1 target ?_)
    rw [hp]
    exact rfl
  | misses k' hnone => exact absurd hnone (hinv.snapBarrier_ne_none hp)
  | waits half k' c =>
    cases half with
    | first =>
      obtain ⟨-, rfl⟩ := hinv.gathers_unique hg hok.1
      simp [Pc.toGather]
    | second => simp [Pc.toGather]
  | leads k' c =>
    -- the last to arrive opens the barrier
    obtain ⟨-, rfl⟩ := hinv.gathers_unique hg hok.1
    have hopen := (leadOf_opened s.sh k' c).1.gen
    exact .inl (hopen.trans (congrArg (· + 1) hg.gen_eq))
  | opens k' | leaves k' => cases k' <;> simp only [Pc.toGather, afterSecond] <;> omega
  | wakes k' c gen hne =>
    obtain ⟨rfl, -⟩ := hok
    have hcb : c ≠ b := by
      rintro rfl
      exact hne hg.gen_eq
    simp [Pc.toGather, hcb]
  | restores =>
    simp only [Pc.toGather]
    omega
  | _ =>
    first
    | exact absurd hin Bool.false_ne_true
    | exact absurd rfl hlate
    | (cases k <;> simp [Pc.toGather, LoopPc.toPoll])

/-- **Leaving.** Between the barriers every step brings a vCPU closer to the second one, or opens
it. -/
theorem Serving.leave_step (h : Serving ids s) (hmet : Met s.sh k b) (ht : t ∈ ids)
    (hm : Goes s.sh t (s.pc t) pick x) :
    x.1.gen b = 2 ∨ x.2.toLeave < (s.pc t).toLeave := by
  have hbetween := (h.steady.inv.rounds b hmet.lt).between hmet.gen_eq t
    (by rw [h.steady.fixed.members b hmet.lt]; exact ht)
  have hok := h.steady.inv.threads t
  generalize s.pc t = p at hm hok hbetween
  cases hm with
  | waits half k' c =>
    cases half with
    | first => exact absurd hbetween id
    | second => simp [Pc.toLeave]
  | opens k' c =>
    obtain rfl : c = b := hbetween
    refine .inl ?_
    have hone : (s.sh.rounds c).barrier.gen = 1 := hmet.gen_eq
    simp only [Shared.gen, setRound_self, Round.flipped]
    omega
  | leaves k' c gen hne =>
    obtain rfl : c = b := hbetween
    obtain ⟨rfl, -⟩ := hok
    exact absurd hmet.gen_eq hne
  | _ => first | exact absurd hbetween id | simp [Pc.toLeave]

end

/-! ## Both phases end -/

section

variable {ids : List Nat} {s s' : State} {k : Kind} {b : Nat}

/-- Neither a vCPU that could go on nor a requester is held up for ever. -/
structure Fair (ids : List Nat) (ρ : Forever step Calm) : Prop where
  vcpus : ∀ t ∈ ids, ρ.FairTo (Act.ofThread t)
  requesters : ∀ r, ρ.FairTo (· = .request r)

theorem Asks.req {sh : Shared} {q : ReqPc} {y : Shared × ReqPc} (hq : Asks sh q y)
    (hk : sh.req k = true) : y.1.req k = true := by
  cases hq with
  | raises =>
    simp only [update_apply]
    split
    · rfl
    · exact hk
  | _ => exact hk

theorem Serving.gathers_step (h : Serving ids s) (hg : Gathers s.sh k b) {a : Act}
    (hcalm : Calm s a) (hst : Rendezvous.step s a = some s') :
    Met s'.sh k b ∨ Gathers s'.sh k b := by
  obtain ⟨hlt, hkind, -, hgen⟩ := barrier_step hcalm.1 h.steady.fixed hst hg.lt
  have hkind := hkind.trans hg.kind_eq
  rcases hgen with hgen | hgen
  · refine .inr ⟨hlt, hkind, hgen.trans hg.gen_eq, ?_⟩
    cases step_acts hst with
    | thread t pick x hm =>
      show x.1.req k = true
      rw [req_of_gathering h.steady.inv hg.lt hg.gen_eq hm]
      exact hg.flag
    | request r y hq => exact hq.req hg.flag
    | _ => exact hg.flag
  · exact .inl ⟨hlt, hkind, hgen.trans (congrArg (· + 1) hg.gen_eq)⟩

/-- Both waits of barrier `b` are over. -/
structure Left (sh : Shared) (k : Kind) (b : Nat) : Prop where
  lt : b < sh.roundCount
  kind_eq : (sh.rounds b).kind = k
  gen_eq : sh.gen b = 2

theorem Serving.met_step (h : Serving ids s) (hm : Met s.sh k b) {a : Act}
    (hcalm : Calm s a) (hst : Rendezvous.step s a = some s') :
    Left s'.sh k b ∨ Met s'.sh k b := by
  obtain ⟨hlt, hkind, -, hgen⟩ := barrier_step hcalm.1 h.steady.fixed hst hm.lt
  have hkind := hkind.trans hm.kind_eq
  rcases hgen with hgen | hgen
  · exact .inr ⟨hlt, hkind, hgen.trans hm.gen_eq⟩
  · exact .inl ⟨hlt, hkind, hgen.trans (congrArg (· + 1) hm.gen_eq)⟩

theorem sum_rank_lt {pc : Nat → Pc} {f : Pc → Nat} {t : Nat} {p' : Pc} (ht : t ∈ ids)
    (hlt : f p' < f (pc t)) :
    (ids.map fun u => f (update pc t p' u)).sum < (ids.map fun u => f (pc u)).sum := by
  apply List.sum_lt_sum
  · intro u _
    by_cases hut : u = t
    · subst hut
      rw [update_self]
      omega
    · rw [update_of_ne hut]
  · refine ⟨t, ht, ?_⟩
    rw [update_self]
    exact hlt

variable {ρ : Forever step Calm}

theorem Fair.acts (hfair : Fair ids ρ) (hserving : ∀ i, Serving ids (ρ.state i)) {t i : Nat}
    (ht : t ∈ ids) (hmoves : Moves (ρ.state i) t) : ∃ j, i ≤ j ∧ (ρ.act j).ofThread t :=
  (hfair.vcpus t ht).acts (fun j hj ha =>
    (hserving j).moves_stable ht (ρ.covered j) (ρ.next j) hj ha) hmoves

theorem Fair.phase (hfair : Fair ids ρ) (hserving : ∀ i, Serving ids (ρ.state i))
    {P Q : State → Prop} {f : Pc → Nat}
    (hmoves : ∀ s, Serving ids s → P s → ∃ t ∈ ids, Moves s t)
    (hkeep : ∀ s a s', Serving ids s → P s → Calm s a → step s a = some s' → Q s' ∨ P s')
    (hlower : ∀ s t pick x, Serving ids s → P s → t ∈ ids → Calm s (.thread t pick) →
      threadStep s.sh t (s.pc t) pick = some x →
      Q { s with sh := x.1, pc := update s.pc t x.2 } ∨ f x.2 < f (s.pc t))
    {i : Nat} (hP : P (ρ.state i)) : ∃ j, i ≤ j ∧ Q (ρ.state j) := by
  refine ρ.eventually (P := fun s => Serving ids s ∧ P s)
    (fun s => (ids.map fun t => f (s.pc t)).sum) (fun a => ∃ t, a.ofThread t) ?_ ?_
    ⟨hserving i, hP⟩
  · rintro s a s' ⟨hs, hPs⟩ - hcalm hst
    rcases hkeep s a s' hs hPs hcalm hst with hQ | hPs'
    · exact .inl hQ
    by_cases ha : ∃ t, a.ofThread t
    · obtain ⟨t, pick, rfl⟩ := ha
      obtain ⟨x, hx, rfl⟩ := map_eq_some_iff.mp hst
      obtain ⟨ht, -⟩ := hs.steady.fixed.inRunLoop (threadStep_goes hx)
      refine (hlower s t pick x hs hPs ht hcalm hx).imp_right fun hlt => ?_
      have hsum := sum_rank_lt ht hlt
      exact ⟨⟨hs.step hcalm hst, hPs'⟩, hsum.le, fun _ => hsum⟩
    · refine .inr ⟨⟨hs.step hcalm hst, hPs'⟩, ?_, fun hh => absurd hh ha⟩
      have hpc : s'.pc = s.pc :=
        funext fun t => pc_of_not_ofThread hst fun hh => ha ⟨t, hh⟩
      rw [hpc]
  · rintro j ⟨hs, hPj⟩ -
    obtain ⟨t, ht, hm⟩ := hmoves _ hs hPj
    obtain ⟨l, hl, hact⟩ := hfair.acts hserving ht hm
    exact ⟨l, hl, .inl ⟨t, hact⟩⟩

/-- **The members of a rendezvous meet.** -/
theorem Fair.meet (hfair : Fair ids ρ) (hserving : ∀ i, Serving ids (ρ.state i)) {i : Nat}
    (hg : Gathers (ρ.state i).sh k b) : ∃ j, i ≤ j ∧ Met (ρ.state j).sh k b := by
  refine hfair.phase hserving (f := Pc.toGather k b) (fun _ hs hg => hs.moves_of_gathers hg)
    (fun _ _ _ hs hg hcalm hst => hs.gathers_step hg hcalm hst) ?_ hg
  intro s t pick x hs hg ht hcalm hst
  refine (hs.gather_step hg hcalm (threadStep_goes hst)).imp_left fun hone => ?_
  refine (hs.gathers_step hg hcalm (map_eq_some_iff.mpr ⟨x, hst, rfl⟩)).resolve_right ?_
  intro hg'
  exact absurd (hg'.gen_eq.symm.trans hone) Nat.zero_ne_one

/-- **Everybody leaves a rendezvous.** -/
theorem Fair.leave (hfair : Fair ids ρ) (hserving : ∀ i, Serving ids (ρ.state i)) {i : Nat}
    (hm : Met (ρ.state i).sh k b) : ∃ j, i ≤ j ∧ Left (ρ.state j).sh k b := by
  refine hfair.phase hserving (f := Pc.toLeave) (fun _ hs hm => hs.moves_of_met hm.lt hm.gen_eq)
    (fun _ _ _ hs hm hcalm hst => hs.met_step hm hcalm hst) ?_ hm
  intro s t pick x hs hm ht hcalm hst
  refine (hs.leave_step hm ht (threadStep_goes hst)).imp_left fun htwo => ?_
  refine (hs.met_step hm hcalm (map_eq_some_iff.mpr ⟨x, hst, rfl⟩)).resolve_right ?_
  intro hm'
  exact absurd (hm'.gen_eq.symm.trans htwo) (by omega)

end

end Ignition.Vmm.Rendezvous
