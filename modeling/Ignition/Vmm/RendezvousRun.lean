import Ignition.Vmm.Steps

/-!
# Runs of the rendezvous

The steps of a requester, and `Inv` through every step and every run in which a request
latches only when each claimed vCPU is registered or over (`Settled`).

A requester's own step is taken in two: first it leaves its place, then what it stores is
stored, so that between the two nobody counts on the old value.
-/

namespace Ignition.Vmm.Rendezvous

open Parties Runs Ignition.Hvf Function

/-! ## Requests -/

section

variable {s : State} {r : Nat}

variable {s' : State} {k : Kind} {b : Nat} {q : ReqPc}

theorem RequestOk.beside (h : RequestOk s q) {rq : Nat → ReqPc} {main : MainPc} :
    RequestOk { s with rq := rq, main := main } q :=
  h.congr (fun hh => { hh with }) (fun _ _ hp => { hp with held := { hp.held with } }) id rfl
    fun _ => id

theorem Inv.request (h : Inv s) (hok : RequestOk s q)
    (howner : q.InWindow → ∀ r', (s.rq r').InWindow → r' = r) :
    Inv { s with rq := update s.rq r q } where
  nodup := h.nodup
  registered := h.registered
  rounds := fun b hb => { h.rounds b hb with }
  flag := h.flag
  threads := h.threads
  requests := by
    intro r'
    show RequestOk _ (update s.rq r q r')
    by_cases hr : r' = r
    · subst hr
      rw [update_self]
      exact hok.beside
    · rw [update_of_ne hr]
      exact (h.requests r').beside
  owner := by
    intro r₁ r₂ h₁ h₂
    replace h₁ : (update s.rq r q r₁).InWindow := h₁
    replace h₂ : (update s.rq r q r₂).InWindow := h₂
    -- either way the other one is the requester that moved, or neither is
    by_cases hr₁ : r₁ = r <;> by_cases hr₂ : r₂ = r
    · rw [hr₁, hr₂]
    · rw [hr₁, update_self] at h₁
      rw [update_of_ne hr₂] at h₂
      exact hr₁.trans (howner h₁ r₂ h₂).symm
    · rw [update_of_ne hr₁] at h₁
      rw [hr₂, update_self] at h₂
      exact (howner h₂ r₁ h₁).trans hr₂.symm
    · rw [update_of_ne hr₁] at h₁
      rw [update_of_ne hr₂] at h₂
      exact h.owner r₁ r₂ h₁ h₂

theorem Inv.requestGo (h : Inv s) {sh' : Shared} (e : Same s.sh sh')
    (hbar : ∀ b, (sh'.rounds b).barrier = (s.sh.rounds b).barrier) (hok : RequestOk s q)
    (howner : q.InWindow → ∀ r', (s.rq r').InWindow → r' = r) :
    Inv { s with sh := sh', rq := update s.rq r q } :=
  (h.same e hbar).request (hok.alike e.toAlike e.running) howner

theorem Inv.reopen (h : Inv s) (hwindow : ∀ r, ¬ (s.rq r).InWindow)
    (hgather : ∀ k c, ¬ Gathers s.sh k c) (hearly : ∀ u, ¬ (s.pc u).Early) {req : Kind → Bool}
    {active : Bool} {cur : Option Nat}
    (hcur : ∀ c < s.sh.roundCount, s.sh.gen c = 0 → cur = some c ∧ active = true)
    (hflag : ∀ k, req k = true → active = true ∧
      ∃ b, cur = some b ∧ b < s.sh.roundCount ∧ (s.sh.rounds b).kind = k ∧ s.sh.gen b = 0) :
    Inv { s with
      sh := { s.sh with req := req, rendezvousActive := active, snapBarrier := cur } } where
  nodup := h.nodup
  registered := h.registered
  rounds := fun c hc => { h.rounds c hc with current := hcur c hc }
  flag := by
    intro k hk
    obtain ⟨hact, b, hb, hlt, hkind, hgen⟩ := hflag k hk
    exact ⟨hact, b, hb, hlt, hkind, .inl hgen⟩
  threads := fun u => (h.threads u).quiet hgather (hearly u) _ _ _
  requests := fun r => .of_not_inWindow (hwindow r)
  owner := h.owner

theorem Held.not_gathers (h : Held s) (k : Kind) (c : Nat) : ¬ Gathers s.sh k c := by
  intro hg
  have := h.flags k
  rw [hg.flag] at this
  cases this

theorem Inv.free (h : Inv s) (hact : s.sh.rendezvousActive = false) :
    (∀ r, ¬ (s.rq r).InWindow) ∧ (∀ k, s.sh.req k = false) ∧ (∀ u, ¬ (s.pc u).Early) ∧
      ∀ c < s.sh.roundCount, s.sh.gen c ≠ 0 := by
  have habsurd : s.sh.rendezvousActive ≠ true := by
    rw [hact]
    exact Bool.false_ne_true
  refine ⟨fun r hw => habsurd ((h.requests r).held hw).active, fun k => ?_, fun u he => ?_,
    fun c hc hg => habsurd ((h.rounds c hc).current hg).2⟩
  · by_contra hk
    exact habsurd (h.flag k (Bool.eq_true_of_not_eq_false hk)).1
  · have hok := h.threads u
    cases hp : s.pc u with
    | lead k b q =>
      rw [hp] at hok he
      cases q with
      | send ok slot => cases he
      | _ => exact habsurd hok.2.2.1
    | _ =>
      rw [hp] at he
      exact he

theorem Inv.begin (h : Inv s) (k : Kind) (hact : s.sh.rendezvousActive = false) :
    Inv { s with
      sh := { s.sh with rendezvousActive := true }
      rq := update s.rq r (.latch k) } := by
  obtain ⟨hwindow, hflags, hearly, hgen⟩ := h.free hact
  have hgather : ∀ k c, ¬ Gathers s.sh k c := fun k c hg => hgen c hg.lt hg.gen_eq
  have hfrozen : Inv { s with sh := { s.sh with rendezvousActive := true } } :=
    h.reopen hwindow hgather hearly (fun c hc hg => absurd hg (hgen c hc)) fun k' hk' =>
      nomatch hk'.symm.trans (hflags k')
  exact hfrozen.request ⟨⟨rfl, hflags, hearly⟩, hgen⟩ fun _ r' hw => absurd hw (hwindow r')

theorem Inv.leave (h : Inv s) (hq : ¬ q.InWindow) :
    Inv { s with rq := update s.rq r q } :=
  h.request (.of_not_inWindow hq) fun hw => absurd hw hq

theorem Inv.window_empty (h : Inv s) (hw : (s.rq r).InWindow) (hq : ¬ q.InWindow) (r' : Nat) :
    ¬ (update s.rq r q r').InWindow := by
  by_cases hr : r' = r
  · subst hr
    rw [update_self]
    exact hq
  · rw [update_of_ne hr]
    exact fun hw' => hr (h.owner r' r hw' hw)

theorem Inv.unfreeze (h : Inv s) (hr : s.rq r = .unfreeze) :
    Inv { s with
      sh := { s.sh with rendezvousActive := false }
      rq := update s.rq r .idle } := by
  have hok := h.requests r
  rw [hr] at hok
  obtain ⟨hheld, hgen⟩ := hok
  have hw : (s.rq r).InWindow := by
    rw [hr]
    trivial
  exact (h.leave (r := r) (q := .idle) id).reopen (h.window_empty hw id) hheld.not_gathers
    hheld.early (fun c hc hg => absurd hg (hgen c hc)) fun k' hk' =>
      nomatch hk'.symm.trans (hheld.flags k')

theorem Inv.raise (h : Inv s) (hr : s.rq r = .raise k b) (hq : ¬ q.InWindow) :
    Inv { s with
      sh := { s.sh with req := update s.sh.req k true }
      rq := update s.rq r q } := by
  have hok := h.requests r
  rw [hr] at hok
  have hw : (s.rq r).InWindow := by
    rw [hr]
    trivial
  obtain ⟨hheld, hcur, hlt, hkind, hgen⟩ : Placed s k b := hok
  refine (h.leave (r := r) hq).reopen (h.window_empty hw hq) hheld.not_gathers hheld.early
    (fun c hc hg => (h.rounds c hc).current hg) fun k' hk' => ?_
  -- the only flag that can be up is its own
  have hkk : k' = k := by
    by_contra hne
    rw [update_of_ne hne, hheld.flags k'] at hk'
    cases hk'
  exact ⟨hheld.active, b, hcur, hlt, hkind.trans hkk.symm, hgen⟩

theorem ThreadOk.install {sh : Shared} {u : Nat} {p : Pc} (h : ThreadOk sh u p)
    (hgather : ∀ k c, ¬ Gathers sh k c) (hearly : ¬ p.Early) (r : Round) :
    ThreadOk { sh.setRound sh.roundCount r with
      roundCount := sh.roundCount + 1
      snapBarrier := some sh.roundCount } u p := by
  have hold : ∀ {c}, c < sh.roundCount →
      (sh.setRound sh.roundCount r).rounds c = sh.rounds c :=
    fun hc => setRound_ne (Nat.ne_of_lt hc) r
  refine h.congr (fun hp => ?_) (fun _ hp => ?_) (fun _ => id) (fun c hc hu => ?_)
    (fun k c hg => absurd hg (hgather k c))
    (fun k c hm _ => .inl (hm.of_round (hold hm.lt) (Nat.lt_succ_of_lt hm.lt)))
    (fun k c hl => hl.of_round (hold hl.lt) (Nat.lt_succ_of_lt hl.lt)) fun k c q hp _ => ?_
  · subst hp
    exact h
  · subst hp
    exact h
  · show u ∈ ((sh.setRound sh.roundCount r).rounds c).members
    rw [hold hc]
    exact hu
  · exact .of_not_early (hp ▸ hearly)

theorem RoundOk.new (h : Inv s) {ids : List Nat} (hact : s.sh.rendezvousActive = true)
    (hne : ids ≠ []) (hnodup : ids.Nodup) (hrun : ∀ t ∈ ids, t ∈ s.sh.running)
    (hcov : ∀ t ∈ s.sh.running, t ∈ ids ∨ (s.pc t).Gone) :
    RoundOk { s with sh := { s.sh.setRound s.sh.roundCount (.new k ids) with
      roundCount := s.sh.roundCount + 1
      snapBarrier := some s.sh.roundCount } } s.sh.roundCount := by
  -- nobody has heard of it
  have hwaits : ∀ u half, (s.pc u).waits half s.sh.roundCount = false := by
    intro u half
    by_contra hw
    obtain ⟨k', g, hp⟩ := eq_of_waits (Bool.eq_true_of_not_eq_false hw)
    have hok := h.threads u
    rw [hp] at hok
    cases half with
    | first =>
      rcases hok.2.2 with hg | hm
      · exact Nat.lt_irrefl _ hg.lt
      · exact Nat.lt_irrefl _ hm.lt
    | second => exact Nat.lt_irrefl _ hok.2.2.lt
  have hleads : ∀ u, ¬ (s.pc u).Leads s.sh.roundCount := by
    intro u hl
    obtain ⟨⟨_, hm⟩, -⟩ := h.met_of_leads hl
    exact Nat.lt_irrefl _ hm.lt
  refine ⟨?_, ?_, ?_, ?_, ?_, ?_, ?_, ?_, ?_, fun u _ hu => absurd hu (hleads u)⟩ <;>
    simp only [Shared.gen, Shared.members, setRound_self, Round.new, Barrier.new]
  · exact hnodup
  · exact hne
  · exact hrun
  · exact Nat.zero_le 2
  · intro _
    exact .new hnodup fun u _ => hwaits u .first
  · intro hone
    cases hone
  · intro hone
    cases hone
  · exact fun _ => hcov
  · exact fun _ => ⟨trivial, hact⟩

theorem Inv.install (h : Inv s) {ids : List Nat} (hr : s.rq r = .install k ids)
    (hq : ∀ {s'}, Placed s' k s.sh.roundCount → RequestOk s' q) :
    Inv { s with
      sh := { s.sh.setRound s.sh.roundCount (.new k ids) with
        roundCount := s.sh.roundCount + 1
        snapBarrier := some s.sh.roundCount }
      rq := update s.rq r q } := by
  have hok := h.requests r
  rw [hr] at hok
  obtain ⟨⟨hheld, hgen⟩, hne, hnodup, hrun, hcov⟩ := hok
  have hw : (s.rq r).InWindow := by
    rw [hr]
    trivial
  have hold : ∀ {c}, c < s.sh.roundCount →
      (s.sh.setRound s.sh.roundCount (.new k ids)).rounds c = s.sh.rounds c :=
    fun hc => setRound_ne (Nat.ne_of_lt hc) _
  have hplaced : Inv { s with
      sh := { s.sh.setRound s.sh.roundCount (.new k ids) with
        roundCount := s.sh.roundCount + 1
        snapBarrier := some s.sh.roundCount }
      rq := update s.rq r .idle } := by
    refine ⟨h.nodup, h.registered, fun c hc => ?_, fun k' hk' => ?_, fun u => ?_, fun r' => ?_,
      fun r₁ _ h₁ => absurd h₁ (h.window_empty hw id r₁)⟩
    · rcases Nat.lt_succ_iff_lt_or_eq.mp hc with hlt | rfl
      · have hro : RoundOk { s with sh := s.sh.setRound s.sh.roundCount (.new k ids) } c :=
          (h.rounds c hlt).congr (congrArg Round.barrier (hold hlt))
            (congrArg Round.members (hold hlt)) rfl rfl rfl
        exact { hro with
          current := fun hz => absurd
            ((congrArg (fun r => r.barrier.gen) (hold hlt)).symm.trans hz) (hgen c hlt) }
      · exact { RoundOk.new h hheld.active hne hnodup hrun hcov with }
    · cases hk'.symm.trans (hheld.flags k')
    · exact (h.threads u).install hheld.not_gathers (hheld.early u) _
    · exact .of_not_inWindow (h.window_empty hw id r')
  have hfin := hplaced.request (r := r) (q := q)
    (hq ⟨⟨hheld.active, hheld.flags, hheld.early⟩, rfl, Nat.lt_succ_self _, by
      rw [setRound_self]; rfl, by unfold Shared.gen; rw [setRound_self]; rfl⟩)
    fun _ r' hw' => absurd hw' (h.window_empty hw id r')
  have hidem : update (update s.rq r .idle) r q = update s.rq r q :=
    update_idem ..
  rw [← hidem]
  exact hfin

end

/-! ## The threads -/

section

variable {s : State} {t : Nat}

theorem same_local (sh : Shared) (threads : List Nat) (shutdown : Bool)
    (snapshotRequest : Option Nat) (collected : List (Nat × Option VcpuState))
    (resetPoint : Option (List VcpuCheckpoint)) (startBarrier : Barrier) (gicRestores : Nat)
    (startFailed : Bool) (x0 : Nat → Nat) (calls : List Call) :
    Same sh { sh with
      threads := threads, shutdown := shutdown, snapshotRequest := snapshotRequest
      collected := collected, resetPoint := resetPoint, startBarrier := startBarrier
      gicRestores := gicRestores, startFailed := startFailed, x0 := x0, calls := calls } :=
  ⟨⟨rfl, rfl, rfl, rfl, fun _ => rfl, fun _ => rfl, fun _ => rfl⟩, rfl, rfl, rfl⟩

theorem Inv.go (h : Inv s) {sh' : Shared} {p' : Pc} (hout : (s.pc t).Outside)
    (hgone : ¬ (s.pc t).Gone) (e : Same s.sh sh')
    (hbar : ∀ b, (sh'.rounds b).barrier = (s.sh.rounds b).barrier) (hout' : p'.Outside)
    (hok : ThreadOk s.sh t p') : Inv { s with sh := sh', pc := update s.pc t p' } :=
  (h.same e hbar).move (hok.same e) (.outside hout hout' hgone)

variable {pick : Pick} {x : Shared × Pc} {k : Kind} {sh : Shared} {b : Nat}

theorem Inv.registers (h : Inv s) {start : Start} {p' : StartPc}
    (hp : s.pc t = .start (.creating start))
    (hok : ∀ sh, ThreadOk sh t (.start p') ↔ t ∈ sh.running) :
    Inv { s with
      sh := { s.sh with vcpuids := s.sh.vcpuids ++ [t] }
      pc := update s.pc t (.start p') } := by
  have hnew := h.threads t
  rw [hp] at hnew
  refine (h.move ((hok _).mpr hnew.1) ?_).register hnew.1 hnew.2 ?_
  · rw [hp]
    exact .outside trivial trivial id
  · show ThreadOk _ t (update s.pc t (.start p') t)
    rw [update_self]
    exact (hok _).mpr hnew.1

theorem claim_claimed {mpidrs running running' : List Nat} {active : Bool} {target : Nat}
    (h : claim mpidrs running active target = (.claimed, running')) :
    target ∈ mpidrs ∧ target ∉ running ∧ active = false ∧ running' = target :: running := by
  unfold claim at h
  split at h
  · cases h
  split at h
  · cases h
  split at h
  · cases h
  · rename_i hmem hact hrun
    refine ⟨not_not.mp hmem, hrun, Bool.eq_false_of_not_eq_true hact, ?_⟩
    exact (congrArg Prod.snd h).symm

theorem Move.arrive {k' : Kind} :
    Move sh (.fetch k) (.arrive .first k' b) where
  at_ := fun _ => .other (fun _ => rfl) (fun _ => rfl) id id id
  raised := fun _ h => absurd h id
  early := fun h => absurd h id

theorem Move.wake {g : Nat} (hgen : sh.gen b = 1) :
    Move sh (.blocked .first k b g) (.arrive .second k b) where
  at_ := by
    intro c
    refine ⟨fun hz => ?_, fun _ => ?_, fun _ => id, fun h => absurd h id, fun h => absurd h id⟩
    · have hcb : c ≠ b := by
        rintro rfl
        omega
      exact (waits_blocked_ne hcb).symm
    · exact waits_second_blocked_first.symm
  raised := fun _ h => absurd h id
  early := fun h => absurd h id

theorem Move.leave {g : Nat} {p' : Pc} (hgen : sh.gen b = 2) (hout : p'.Outside) :
    Move sh (.blocked .second k b g) p' where
  at_ := by
    intro c
    by_cases hcb : c = b
    · subst hcb
      exact ⟨fun hz => by omega, fun hz => by omega, fun hz => by omega,
        fun h => absurd h (hout.not_leads c), fun h => absurd h id⟩
    · exact .other (fun _ => waits_blocked_ne hcb) (fun half => hout.waits half c)
        (fun h => hcb (Eq.symm h)) (hout.not_leads c) id
  raised := fun _ h => absurd h id
  early := fun h => absurd h hout.not_early

theorem afterSecond_outside (k : Kind) (b : Nat) : (afterSecond k b).Outside := by
  cases k <;> trivial

theorem Inv.lead (h : Inv s) (hp : s.pc t = .arrive .first k b)
    (hlast : ¬ (s.sh.rounds b).barrier.count + 1 < (s.sh.rounds b).barrier.size) :
    Inv { s with
      sh := (leadOf (s.sh.setRound b (s.sh.rounds b).flipped) k b).1
      pc := update s.pc t (leadOf (s.sh.setRound b (s.sh.rounds b).flipped) k b).2 } := by
  have hok := h.threads t
  rw [hp] at hok
  obtain ⟨hg, hmem⟩ := hok
  obtain ⟨hcur, hact⟩ := (h.rounds b hg.lt).current hg.gen_eq
  cases k with
  | snapshot | checkpoint => exact h.flip_first hp hg hmem hlast ⟨hact, hcur, hg.flag⟩ rfl
  | reset =>
    have hflip := h.flip_first hp hg hmem hlast (q := .handler [] none) ⟨hact, hcur, hg.flag⟩ rfl
    exact hflip.same (.setRound rfl rfl rfl) (barrier_setRound rfl)

theorem Move.lead {q q' : LeadPc} (hr : q'.raised = true) (he : q.early = true) :
    Move sh (.lead k b q) (.lead k b q') where
  at_ := MoveAt.lead
  raised := fun _ h => ⟨h.1, hr⟩
  early := fun _ => he

theorem Move.sent {ok : Bool} {slot : Option Nat} :
    Move sh (.lead k b (.send ok slot)) (.arrive .second k b) where
  at_ := fun _ => ⟨fun _ => rfl, fun _ => rfl, fun _ => id, fun h => absurd h id,
    fun h => absurd h id⟩
  raised := fun _ h => absurd h.2 Bool.false_ne_true
  early := fun h => absurd h id

theorem Inv.leadGo (h : Inv s) {q q' : LeadPc} {sh' : Shared} (hp : s.pc t = .lead k b q)
    (e : Same s.sh sh') (hbar : ∀ b, (sh'.rounds b).barrier = (s.sh.rounds b).barrier)
    (hq : LeadOk s.sh k b q') (hr : q'.raised = true) (he : q.early = true) :
    Inv { s with sh := sh', pc := update s.pc t (.lead k b q') } := by
  have hok := h.threads t
  rw [hp] at hok
  exact (h.same e hbar).move (ThreadOk.same (p := .lead k b q') ⟨hok.1, hok.2.1, hq⟩ e)
    (by rw [hp]; exact .lead hr he)

theorem Inv.goes (h : Inv s) (hm : Goes s.sh t (s.pc t) pick x) :
    Inv { s with sh := x.1, pc := update s.pc t x.2 } := by
  have hok := h.threads t
  generalize hp : s.pc t = p at hm hok
  have hgo : ∀ {sh' p'}, p.Outside → ¬ p.Gone → Same s.sh sh' →
      (∀ b, (sh'.rounds b).barrier = (s.sh.rounds b).barrier) → p'.Outside → ThreadOk s.sh t p' →
      Inv { s with sh := sh', pc := update s.pc t p' } := by
    rw [← hp]
    exact h.go
  have hgathers : ∀ {k}, p.Outside → ¬ p.Gone → t ∈ s.sh.running → s.sh.req k = true →
      ∃ b, Gathers s.sh k b ∧ t ∈ s.sh.members b := by
    rw [← hp]
    exact fun hout hgone hrun => h.gathers hrun hout hgone
  cases hm with
  | born start hlook =>
    exact hgo trivial id (same_local ..) (fun _ => rfl) trivial ⟨hok.2 start hlook, hok.1⟩
  | created | registered => exact h.registers hp fun _ => Iff.rfl
  | joins k hk | joinsReset hk =>
    exact hgo trivial id (same_local ..) (fun _ => rfl) trivial (hgathers trivial id hok hk)
  | claims target entry ctx running hcl =>
    obtain ⟨-, -, hact, rfl⟩ := claim_claimed hcl
    refine (h.claim target hok ?_ ?_ hact).move
      ⟨List.mem_cons_of_mem _ hok, List.mem_cons_self⟩ ?_
    · rw [hp]
      trivial
    · rw [hp]
      exact id
    · rw [hp]
      exact .outside trivial trivial id
  | spawns target entry ctx =>
    refine (h.spawn (.secondary entry ctx) hok.2).go ?_ ?_ (same_local ..) (fun _ => rfl) trivial
      hok.1
    · rw [hp]
      trivial
    · rw [hp]
      exact id
  | fetches k b hcur =>
    obtain ⟨c, hg, hmem⟩ := hok
    cases hcur.symm.trans ((h.rounds c hg.lt).current hg.gen_eq).1
    exact h.move ⟨hg, hmem⟩ (by rw [hp]; exact .arrive)
  | misses k hnone =>
    obtain ⟨c, hg, -⟩ := hok
    cases hnone.symm.trans ((h.rounds c hg.lt).current hg.gen_eq).1
  | waits half k b =>
    have hstay : s.sh.gen b = half.gen → b < s.sh.roundCount → t ∈ s.sh.members b →
        ThreadOk s.sh t (.blocked half k b half.gen) → Inv { s with
          sh := s.sh.setRound b (s.sh.rounds b).counted
          pc := update s.pc t (.blocked half k b (s.sh.gen b)) } := by
      intro hgen hb hmem hok'
      rw [hgen]
      exact h.stay hp hb hmem hgen hok'
    cases half with
    | first => exact hstay hok.1.gen_eq hok.1.lt hok.2 ⟨rfl, hok.2, .inl hok.1⟩
    | second =>
      exact hstay hok.1.gen_eq hok.1.lt hok.2
        ⟨rfl, hok.2, hok.1.lt, hok.1.kind_eq, Nat.le_of_eq hok.1.gen_eq.symm⟩
  | leads k b hlast => exact h.lead hp hlast
  | opens k b hlast => exact h.flip_second hp hok.1 hok.2 hlast
  | wakes k b gen hne =>
    obtain ⟨rfl, hmem, hg | hm⟩ := hok
    · exact absurd hg.gen_eq hne
    · exact h.move ⟨hm, hmem⟩ (by rw [hp]; exact .wake hm.gen_eq)
  | leaves k b gen hne =>
    obtain ⟨rfl, hmem, hl⟩ := hok
    have hr := h.rounds b hl.lt
    have hgen : s.sh.gen b = 2 := by
      have := hr.gen_le
      have := hl.gen_pos
      have : s.sh.gen b ≠ 1 := hne
      omega
    have hrun := hr.running t hmem
    refine h.move ?_ (by rw [hp]; exact .leave hgen (afterSecond_outside k b))
    cases k <;> exact hrun
  | restores b =>
    exact hgo trivial id (.setRound rfl rfl rfl) (barrier_setRound rfl) trivial hok
  | takes | givesUp => exact h.leadGo hp (same_local ..) (fun _ => rfl) hok.2.2 rfl rfl
  | begins k b cps =>
    have e : Same s.sh (s.sh.setRound b { s.sh.rounds b with
        calls := (s.sh.rounds b).calls ++ [cps] }) := .setRound rfl rfl rfl
    exact h.leadGo hp (e.trans (same_local ..)) (barrier_setRound rfl) hok.2.2 rfl rfl
  | handles k b cps slot ok =>
    have e : Same s.sh (s.sh.setRound b { s.sh.rounds b with outcome := some ok }) :=
      .setRound rfl rfl rfl
    exact h.leadGo hp (e.trans (same_local ..)) (barrier_setRound rfl) hok.2.2 rfl rfl
  | clears => exact h.clear hp
  | releases => exact h.release hp
  | sends k b =>
    have hmove := h.move (t := t) (show ThreadOk s.sh t (.arrive .second k b) from ⟨hok.1, hok.2.1⟩)
      (by rw [hp]; exact .sent)
    exact hmove.same (.setRound rfl rfl rfl) (barrier_setRound rfl)
  | tellsNobody => exact h.move ⟨hok.1, hok.2.1⟩ (by rw [hp]; exact .sent)
  | _ =>
    -- the thread goes on or is over
    first
    | exact hgo trivial id (same_local ..) (fun _ => rfl) trivial hok
    | exact hgo trivial id (same_local ..) (fun _ => rfl) trivial hok.1
    | exact hgo trivial id (same_local ..) (fun _ => rfl) trivial trivial

end

/-! ## Every step and every run -/

section

variable {s : State}

def Settled (s : State) : Prop :=
  ∀ t ∈ s.sh.running, t ∈ s.sh.vcpuids ∨ (s.pc t).Gone

def ReqPc.latches : ReqPc → Bool
  | .latch _ => true
  | _ => false

def LatchesSettled (s : State) : Act → Prop
  | .request r => (s.rq r).latches = true → Settled s
  | _ => True

instance : DecidablePred Pc.Gone := fun p => by
  cases p <;> unfold Pc.Gone <;> infer_instance

instance (s : State) : Decidable (Settled s) := by
  unfold Settled
  infer_instance

instance (s : State) : (a : Act) → Decidable (LatchesSettled s a)
  | .request r => inferInstanceAs (Decidable ((s.rq r).latches = true → Settled s))
  | .thread .. | .call .. | .join => isTrue trivial

theorem Inv.asks (h : Inv s) {r : Nat} (hlatch : (s.rq r).latches = true → Settled s)
    {y : Shared × ReqPc} (hq : Asks s.sh (s.rq r) y) :
    Inv { s with sh := y.1, rq := update s.rq r y.2 } := by
  have hok := h.requests r
  -- whoever else is in the window is this requester
  have howner : (s.rq r).InWindow → ∀ r', (s.rq r').InWindow → r' = r :=
    fun hw r' hw' => h.owner r' r hw' hw
  generalize hr : s.rq r = q at hq hok howner hlatch
  cases hq with
  | refused => exact h.leave id
  | freezes k hact => exact h.begin _ hact
  | finds k => exact h.request hok fun _ => howner trivial
  | latches k hne =>
    exact h.request ⟨hok, hne, h.nodup, h.registered, hlatch rfl⟩ fun _ => howner trivial
  | unfreezes => exact h.unfreeze hr
  | installs k ids =>
    refine h.install hr fun {s'} hp => ?_
    cases k <;> exact hp
  | posts | clears => exact h.requestGo (same_local ..) (fun _ => rfl) hok fun _ => howner trivial
  | raises k b =>
    refine h.raise hr ?_
    split <;> exact id
  | hears =>
    exact h.requestGo (.setRound rfl rfl rfl) (barrier_setRound rfl) (q := .idle) trivial
      fun hw => absurd hw id

theorem Inv.main (h : Inv s) {sh' : Shared} {main : MainPc} (e : Same s.sh sh')
    (hbar : ∀ b, (sh'.rounds b).barrier = (s.sh.rounds b).barrier) :
    Inv { s with sh := sh', main := main } := by
  have h' := h.same e hbar
  exact { h' with
    rounds := fun b hb => { h'.rounds b hb with }
    requests := fun r => (h'.requests r).beside }

variable {s' : State}

theorem Inv.step (h : Inv s) {a : Act} (hlatch : LatchesSettled s a) (hst : step s a = some s') :
    Inv s' := by
  cases step_acts hst with
  | thread t pick x hm => exact h.goes hm
  | call r k =>
    refine h.leave ?_
    unfold requestCall
    split <;> exact id
  | request r y hq => exact h.asks hlatch hq
  | join threads main => exact h.main (same_local ..) fun _ => rfl

theorem Inv.run (h : Inv s) {as : List Act} (hr : Run Rendezvous.step LatchesSettled s as s') :
    Inv s' :=
  hr.invariant (fun _ _ _ hs hok hst => hs.step hok hst) h

end

end Ignition.Vmm.Rendezvous
