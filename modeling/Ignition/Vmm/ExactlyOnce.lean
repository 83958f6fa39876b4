import Ignition.Vmm.Progress
import Ignition.Vmm.StopWorld

/-!
# Every accepted request is served exactly once

A request is accepted when it takes `rendezvous_active`. From then on its requester is the only
one that can make a barrier, so the next barrier is its own (`Fair.raised`); the members of
that barrier meet and leave it (`Fair.meet`, `Fair.leave`), and by then there has been one
handler call (`Once`). For a reset every vCPU then still has its registers to restore
(`Fair.restored`).
-/

namespace Ignition.Vmm.Rendezvous

open Parties Runs Ignition.Hvf List Function Option

/-! ## What has been done by the end -/

section

variable {ids : List Nat} {s : State} {b : Nat}

/-- What has been done for the request that barrier `b` was made for. -/
structure Once (ids : List Nat) (s : State) (b : Nat) : Prop where
  atMost : (s.sh.rounds b).calls.length ≤ 1
  atEnd : s.sh.gen b = 2 → (s.sh.rounds b).calls.length = 1
  whole : (s.sh.rounds b).kind ≠ .reset → ∀ cps ∈ (s.sh.rounds b).calls,
    (cps.map VcpuCheckpoint.mpidr).Perm ids ∧ (cps.map VcpuCheckpoint.mpidr).Pairwise (· < ·)
  restoresAtMost : ∀ t, (s.sh.rounds b).restores.count t ≤ 1
  restoresAtEnd : (s.sh.rounds b).kind = .reset → s.sh.gen b = 2 →
    ∀ t ∈ ids, (s.pc t).Restoring b ∨ (s.sh.rounds b).restores.count t = 1
  truthful : (s.sh.rounds b).returned = some true → (s.sh.rounds b).outcome = some true

theorem eq_of_leads {p : Pc} (h : p.Leads b) : ∃ k q, p = .lead k b q := by
  cases p with
  | lead k c q =>
    obtain rfl : c = b := h
    exact ⟨k, q, rfl⟩
  | _ => exact absurd h id

theorem Serving.fresh_or_served (h : Serving ids s) (hb : b < s.sh.roundCount) :
    (s.sh.rounds b).Fresh ∨ (s.sh.rounds b).Served True ∨ ∃ k t q, s.pc t = .lead k b q := by
  have hr := h.steady.serve.rounds b hb
  by_cases hzero : s.sh.gen b = 0
  · exact .inl (hr.fresh hzero)
  refine .inr ?_
  by_cases hlead : ∃ k t q, s.pc t = .lead k b q
  · exact .inr hlead
  · refine .inl (hr.served hzero fun t hl => ?_)
    obtain ⟨k, q, hp⟩ := eq_of_leads hl
    exact hlead ⟨k, t, q, hp⟩

theorem Serving.served (h : Serving ids s) (hb : b < s.sh.roundCount) (htwo : s.sh.gen b = 2) :
    (s.sh.rounds b).Served True := by
  refine (h.steady.serve.rounds b hb).served (by omega) fun t hl => ?_
  obtain ⟨k, q, hp⟩ := eq_of_leads hl
  have hok := h.steady.inv.threads t
  rw [hp] at hok
  have hone := hok.1.gen_eq
  omega

theorem Round.Ended.length_eq {r : Round} {ok : Bool} (h : r.Ended True ok) :
    r.calls.length = 1 := by
  rcases h with ⟨hlen, -⟩ | ⟨hnot, -⟩
  · exact hlen
  · exact absurd trivial hnot

theorem LeadServe.once {sh : Shared} {k : Kind} {q : LeadPc} (h : LeadServe True sh k b q) :
    (sh.rounds b).calls.length ≤ 1 ∧ (sh.rounds b).returned = none := by
  cases q with
  | take | slot res => simp [h.1.calls, h.1.returned]
  | handler cps slot => simp [h.2.2.1, h.2.2.2.2]
  | clear ok slot | release ok slot => exact ⟨h.2.2.1.length_eq.le, h.2.2.2.2⟩
  | send ok slot => exact ⟨h.2.1.length_eq.le, h.2.2.2⟩

theorem Serving.once (h : Serving ids s) (hb : b < s.sh.roundCount) : Once ids s b := by
  have hserve := h.steady.serve
  have hrestores := h.restores b hb
  have hmembers := h.steady.fixed.members b hb
  have hnd : ids.Nodup := hmembers ▸ (h.steady.inv.rounds b hb).nodup
  have hlead : ∀ {k t q}, s.pc t = .lead k b q → LeadServe True s.sh k b q := by
    intro k t q hp
    have := hserve.threads t
    rw [hp] at this
    exact this
  refine ⟨?_, fun htwo => ?_, fun hk cps hcps => ?_, ?_, ?_, fun hret => ?_⟩
  · rcases h.fresh_or_served hb with hf | ⟨ok, hended, -⟩ | ⟨k, t, q, hp⟩
    · simp [hf.calls]
    · exact hended.length_eq.le
    · exact (hlead hp).once.1
  · obtain ⟨ok, hended, -⟩ := h.served hb htwo
    exact hended.length_eq
  · obtain ⟨hperm, hsorted⟩ := (hserve.rounds b hb).whole hk cps hcps
    rw [hmembers] at hperm
    refine ⟨hperm, ?_⟩
    have hnd' := hperm.nodup_iff.mpr hnd
    exact (hsorted.and hnd').imp fun hle => lt_of_le_of_ne hle.1 hle.2
  · exact fun t => nodup_iff_count_le_one.mp hrestores.nodup t
  · intro hk htwo t ht
    rw [← hmembers] at ht
    refine (hrestores.all hk htwo t ht).symm.imp_right fun hmem => ?_
    exact count_eq_one_of_mem hrestores.nodup hmem
  · have hsent := (hserve.rounds b hb).returned true hret
    rcases h.fresh_or_served hb with hf | ⟨ok, hended, hs⟩ | ⟨k, t, q, hp⟩
    · exact absurd (hf.returned.symm.trans hret) (by simp)
    · rw [hsent] at hs
      split at hs
      · cases hs
        rcases hended with ⟨-, hout⟩ | ⟨hnot, -⟩
        · exact hout
        · exact absurd trivial hnot
      · cases hs
    · exact absurd ((hlead hp).once.2.symm.trans hret) (by simp)

end

/-! ## An accepted request raises its flag -/

section

variable {ids : List Nat} {s s' : State} {k : Kind} {n r : Nat}

/-- The requester has been accepted for a request of kind `k` when there were `n` barriers, and has
not raised its flag yet. -/
def ReqPc.Pending (k : Kind) (n count : Nat) : ReqPc → Prop
  | .latch k' => k' = k ∧ count = n
  | .install k' _ => k' = k ∧ count = n
  | .post c => .snapshot = k ∧ c = n
  | .clear k' c => k' = k ∧ c = n
  | .raise k' c => k' = k ∧ c = n
  | _ => False

def ReqPc.toRaise : ReqPc → Nat
  | .latch _ => 5
  | .install _ _ => 4
  | .post _ => 3
  | .clear _ _ => 2
  | .raise _ _ => 1
  | _ => 0

theorem ReqPc.Pending.inWindow {q : ReqPc} {count : Nat} (h : q.Pending k n count) :
    q.InWindow := by
  cases q <;> trivial

theorem Serving.request_step (h : Serving ids s) (hne : ids ≠ [])
    (hq : (s.rq r).Pending k n s.sh.roundCount) :
    ∃ x, requestStep s.sh (s.rq r) = some x ∧
      (Gathers x.1 k n ∨ x.2.Pending k n x.1.roundCount ∧ x.2.toRaise < (s.rq r).toRaise) := by
  have hreq := h.steady.inv.requests r
  cases hp : s.rq r with
  | latch k' =>
    rw [hp] at hq
    have hids : s.sh.vcpuids ≠ [] := by
      rw [h.steady.fixed.vcpuids]
      exact hne
    refine ⟨_, rfl, .inr ?_⟩
    simp only [if_neg hids]
    exact ⟨hq, by simp [ReqPc.toRaise]⟩
  | install k' ids' =>
    rw [hp] at hq
    obtain ⟨rfl, rfl⟩ := hq
    refine ⟨_, rfl, .inr ?_⟩
    cases k' <;> simp [ReqPc.Pending, ReqPc.toRaise, Kind.prepare]
  | post c | clear k' c =>
    rw [hp] at hq
    obtain ⟨rfl, rfl⟩ := hq
    refine ⟨_, rfl, .inr ?_⟩
    simp [ReqPc.Pending, ReqPc.toRaise]
  | raise k' c =>
    rw [hp] at hq hreq
    obtain ⟨rfl, rfl⟩ := hq
    exact ⟨_, rfl, .inl ⟨hreq.lt, hreq.kind_eq, hreq.gen_eq, update_self _ _ _⟩⟩
  | idle | begin k' | unfreeze | await c =>
    rw [hp] at hq
    exact absurd hq id

theorem Serving.pending_other (h : Serving ids s) (hq : (s.rq r).Pending k n s.sh.roundCount)
    {a : Act} (ha : a ≠ .request r) (hcalm : Calm s a) (hst : Rendezvous.step s a = some s') :
    s'.rq r = s.rq r ∧ s'.sh.roundCount = s.sh.roundCount := by
  cases step_acts hst with
  | thread t pick x hm =>
    obtain ⟨e, -⟩ := hm.sameSet (h.steady.fixed.inRunLoop hm).2 hcalm.1
    exact ⟨rfl, e.roundCount⟩
  | call r' k' hidle =>
    have hne : r ≠ r' := by
      rintro rfl
      rw [hidle] at hq
      exact hq
    exact ⟨update_of_ne hne _ _, rfl⟩
  | request r' y hask =>
    have hne : r ≠ r' := by
      rintro rfl
      exact ha rfl
    have hw : ¬ (s.rq r').InWindow := fun hw => hne (h.steady.inv.owner r r' hq.inWindow hw)
    refine ⟨update_of_ne hne _ _, ?_⟩
    generalize s.rq r' = q at hask hw
    cases hask with
    | installs => exact absurd trivial hw
    | _ => rfl
  | join => exact ⟨rfl, rfl⟩

variable {ρ : Forever step Calm}

/-- **An accepted request makes the next barrier and raises its flag for it.** -/
theorem Fair.raised (hfair : Fair ids ρ) (hserving : ∀ i, Serving ids (ρ.state i)) (hne : ids ≠ [])
    {i : Nat} (hq : (ρ.state i).rq r = .latch k) :
    ∃ j, i ≤ j ∧ Gathers (ρ.state j).sh k (ρ.state i).sh.roundCount := by
  refine (hfair.requesters r).eventually
    (P := fun s => Serving ids s ∧ (s.rq r).Pending k (ρ.state i).sh.roundCount s.sh.roundCount)
    (Q := fun s => Gathers s.sh k (ρ.state i).sh.roundCount) (fun s => (s.rq r).toRaise) ?_ ?_
    ⟨hserving i, ?_⟩
  · rintro s ⟨hs, hp⟩ -
    obtain ⟨x, hx, -⟩ := hs.request_step hne hp
    exact ⟨_, _, rfl, map_eq_some_iff.mpr ⟨x, hx, rfl⟩⟩
  · rintro s a s' ⟨hs, hp⟩ - hcalm hst
    by_cases ha : a = .request r
    · subst ha
      obtain ⟨x, hx, hgo⟩ := hs.request_step hne hp
      obtain ⟨x', hx', rfl⟩ := map_eq_some_iff.mp hst
      obtain rfl : x = x' := some.inj (hx.symm.trans hx')
      refine hgo.imp_right fun ⟨hp', hlt⟩ => ?_
      have hself : update s.rq r x.2 r = x.2 := update_self _ _ _
      dsimp only
      rw [hself]
      exact ⟨⟨hs.step hcalm hst, hp'⟩, hlt.le, fun _ => hlt⟩
    · obtain ⟨hrq, hcount⟩ := hs.pending_other hp ha hcalm hst
      rw [hrq, hcount]
      exact .inr ⟨⟨hs.step hcalm hst, hp⟩, le_rfl, fun hh => absurd hh ha⟩
  · rw [hq]
    exact ⟨rfl, rfl⟩

end

/-! ## Every vCPU restores -/

section

variable {ids : List Nat} {s s' : State} {t b : Nat}

def Pc.toRestore : Pc → Nat
  | .blocked .second _ _ _ => 2
  | .restoring _ => 1
  | _ => 0

theorem Serving.restore_step (h : Serving ids s) (hl : Left s.sh .reset b) (ht : t ∈ ids)
    (hp : (s.pc t).Restoring b) {pick : Pick} {x : Shared × Pc}
    (hm : Goes s.sh t (s.pc t) pick x) :
    t ∈ (x.1.rounds b).restores ∨ x.2.toRestore < (s.pc t).toRestore := by
  generalize s.pc t = p at hm hp
  cases hm with
  | leaves k => cases k <;> simp [afterSecond, Pc.toRestore]
  | restores c =>
    obtain rfl : c = b := hp
    rw [h.hasCheckpoint ht (h.point.rounds c hl.lt hl.kind_eq), if_pos rfl]
    simp
  | _ => exact absurd hp id

theorem Serving.left_step (h : Serving ids s) {k : Kind} (hl : Left s.sh k b) {a : Act}
    (hcalm : Calm s a) (hst : Rendezvous.step s a = some s') : Left s'.sh k b := by
  obtain ⟨hlt, hkind, -, hgen⟩ := barrier_step hcalm.1 h.steady.fixed hst hl.lt
  refine ⟨hlt, hkind.trans hl.kind_eq, ?_⟩
  have hle := ((h.step hcalm hst).steady.inv.rounds b hlt).gen_le
  have htwo := hl.gen_eq
  omega

theorem Serving.restoring_of_left (h : Serving ids s) (hl : Left s.sh .reset b) (ht : t ∈ ids)
    (hnot : t ∉ (s.sh.rounds b).restores) : (s.pc t).Restoring b := by
  refine ((h.restores b hl.lt).all hl.kind_eq hl.gen_eq t ?_).resolve_left hnot
  rw [h.steady.fixed.members b hl.lt]
  exact ht

variable {ρ : Forever step Calm}

/-- **After a reset every vCPU restores its registers.** -/
theorem Fair.restored (hfair : Fair ids ρ) (hserving : ∀ i, Serving ids (ρ.state i)) (ht : t ∈ ids)
    {i : Nat} (hl : Left (ρ.state i).sh .reset b) :
    ∃ j, i ≤ j ∧ Left (ρ.state j).sh .reset b ∧ t ∈ ((ρ.state j).sh.rounds b).restores := by
  refine (hfair.vcpus t ht).eventually (P := fun s => Serving ids s ∧ Left s.sh .reset b)
    (Q := fun s => Left s.sh .reset b ∧ t ∈ (s.sh.rounds b).restores)
    (fun s => (s.pc t).toRestore) ?_ ?_ ⟨hserving i, hl⟩
  · rintro s ⟨hs, hl⟩ hnot
    have hp := hs.restoring_of_left hl ht fun hh => hnot ⟨hl, hh⟩
    refine hs.moves ht fun half k c g hpc hgen => ?_
    have hok := hs.steady.inv.threads t
    rw [hpc] at hp hok
    cases half with
    | first => exact absurd hp id
    | second =>
      obtain rfl : c = b := hp
      have hone := hok.1
      have htwo := hl.gen_eq
      omega
  · rintro s a s' ⟨hs, hl⟩ hnot hcalm hst
    have hp := hs.restoring_of_left hl ht fun hh => hnot ⟨hl, hh⟩
    have hs' := hs.step hcalm hst
    have hl' := hs.left_step hl hcalm hst
    by_cases ha : a.ofThread t
    · obtain ⟨pick, rfl⟩ := ha
      obtain ⟨x, hx, rfl⟩ := map_eq_some_iff.mp hst
      refine (hs.restore_step hl ht hp (threadStep_goes hx)).imp (fun hmem => ⟨hl', hmem⟩) fun hlt => ?_
      have hself : update s.pc t x.2 t = x.2 := update_self _ _ _
      dsimp only
      rw [hself]
      exact ⟨⟨hs', hl'⟩, hlt.le, fun _ => hlt⟩
    · rw [pc_of_not_ofThread hst ha]
      exact .inr ⟨⟨hs', hl'⟩, le_rfl, fun hh => absurd hh ha⟩

/-- **Exactly-once service.** A fixed set of vCPUs is in its run loops, and any number of threads
asks for snapshots, checkpoints and resets. In every state handlers do not overlap and every
barrier has `Once`. In every fair run the barrier that an accepted request makes opens twice,
after one handler call, and if it was for a reset every vCPU restores its registers once. -/
theorem exactly_once {vcpuCount : Nat} {point : Option (List VcpuCheckpoint)} (hnd : ids.Nodup)
    (hne : ids ≠ []) (hpoint : ∀ cps, point = some cps → ∀ t ∈ ids, ∃ cp ∈ cps, cp.mpidr = t) :
    (∀ acts s, Run step Calm (looping vcpuCount ids point) acts s →
      (∀ t u, (s.pc t).handles = true → (s.pc u).handles = true → t = u) ∧
        ∀ b < s.sh.roundCount, Once ids s b) ∧
      ∀ ρ : Forever step Calm, ρ.state 0 = looping vcpuCount ids point → Fair ids ρ →
        ∀ i r k, (ρ.state i).rq r = .latch k →
          (∃ j, i ≤ j ∧ ((ρ.state j).sh.rounds (ρ.state i).sh.roundCount).kind = k ∧
            (ρ.state j).sh.gen (ρ.state i).sh.roundCount = 2 ∧
            ((ρ.state j).sh.rounds (ρ.state i).sh.roundCount).calls.length = 1) ∧
          (k = .reset → ∀ t ∈ ids, ∃ j, i ≤ j ∧
            ((ρ.state j).sh.rounds (ρ.state i).sh.roundCount).restores.count t = 1) := by
  have hlooping : Serving ids (looping vcpuCount ids point) := .looping hnd hpoint
  refine ⟨fun acts s hrun => ?_, fun ρ hstart hfair i r k hq => ?_⟩
  · have hs := hlooping.run hrun
    refine ⟨fun t u ht hu => ?_, fun b hb => hs.once hb⟩
    obtain ⟨k, b, cps, slot, hp⟩ := eq_of_handles hu
    obtain ⟨_, _, _, _, hpt⟩ := eq_of_handles ht
    have hok := hs.steady.inv.threads u
    rw [hp] at hok
    refine hs.steady.inv.early_unique hp hok.2.2.2.1 ?_
    rw [hpt]
    exact rfl
  · have hserving : ∀ i, Serving ids (ρ.state i) := by
      intro i
      have hrun := ρ.run i
      rw [hstart] at hrun
      exact hlooping.run hrun
    obtain ⟨i₁, hi₁, hg⟩ := hfair.raised hserving hne hq
    obtain ⟨i₂, hi₂, hm⟩ := hfair.meet hserving hg
    obtain ⟨i₃, hi₃, hl⟩ := hfair.leave hserving hm
    refine ⟨⟨i₃, by omega, hl.kind_eq, hl.gen_eq, ?_⟩, ?_⟩
    · exact ((hserving i₃).once hl.lt).atEnd hl.gen_eq
    · rintro rfl t ht
      obtain ⟨j, hj, hlj, hmem⟩ := hfair.restored hserving ht hl
      refine ⟨j, by omega, ?_⟩
      exact count_eq_one_of_mem ((hserving j).restores _ hlj.lt).nodup hmem

def snapshotAlone : List Act :=
  snapshotRaised 0 ++ [.thread 0 .go, .thread 0 .go,
    .thread 0 (.saved (some ((Regs.new 0).saveState 0))), .thread 0 .go, .thread 0 .go,
    .thread 0 .go, .thread 0 .go, .thread 0 (.result true), .thread 0 .go, .thread 0 .go,
    .thread 0 .go, .thread 0 .go]

theorem exactly_once_alone :
    ∃ s, Run step Calm (looping 1 [0] none) snapshotAlone s ∧ s.sh.gen 0 = 2 ∧ Once [0] s 0 := by
  obtain ⟨s, hr, htwo, hlt⟩ : ∃ s, Run step Calm (looping 1 [0] none) snapshotAlone s ∧
      s.sh.gen 0 = 2 ∧ 0 < s.sh.roundCount := exists_run (by decide +kernel)
  have hpoint : ∀ cps, (none : Option (List VcpuCheckpoint)) = some cps →
      ∀ t ∈ [0], ∃ cp ∈ cps, cp.mpidr = t := fun _ h => nomatch h
  have hsafe := (exactly_once (nodup_singleton 0) (cons_ne_nil 0 []) hpoint).1 _ _ hr
  exact ⟨s, hr, htwo, hsafe.2 0 hlt⟩

end

end Ignition.Vmm.Rendezvous
