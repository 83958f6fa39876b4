import Ignition.Vmm.RendezvousInv

/-!
# Meeting at a barrier

The steps of a rendezvous that the barriers do notice, and that `Inv` survives them: an
arrival that has to wait (`Inv.stay`), the last arrival at the first barrier, which makes a
leader (`Inv.flip_first`), the last at the second, which lets everybody go
(`Inv.flip_second`), and the two stores with which the leader gives the rendezvous up
(`Inv.clear`, `Inv.release`).
-/

namespace Ignition.Vmm.Rendezvous

open Parties Runs Function

/-! ## Arrivals -/

section

variable {s : State} {t b : Nat} {k : Kind}

variable {sh : Shared} {p : Pc} {c u : Nat} {half : Half} {q : LeadPc} {r : Round}

theorem MoveAt.other {p' : Pc} (hw : ∀ half, p.waits half c = false)
    (hw' : ∀ half, p'.waits half c = false) (hb : ¬ p.Between c) (hl : ¬ p'.Leads c)
    (hgone : ¬ p.Gone) : MoveAt sh c p p' where
  first := fun _ => (hw' _).trans (hw _).symm
  second := fun _ => (hw' _).trans (hw _).symm
  between := fun _ h => absurd h hb
  leads := fun h => absurd h hl
  gone := fun h => absurd h hgone

theorem not_between_arrive (hc : c ≠ b) :
    ¬ (Pc.arrive half k b).Between c := by
  cases half with
  | first => exact id
  | second => exact fun h => hc h.symm

theorem waits_blocked_ne {half' : Half} {g : Nat} (hc : c ≠ b) :
    (Pc.blocked half k b g).waits half' c = false :=
  decide_eq_false fun h => hc h.2.symm

theorem not_leads_lead_ne (hc : c ≠ b) : ¬ (Pc.lead k b q).Leads c :=
  fun hl => hc (Eq.symm hl)

theorem Inv.rounds_other (h : Inv s) {p' : Pc} (hp : s.pc t = .arrive half k b)
    (hw' : ∀ c, c ≠ b → ∀ half', p'.waits half' c = false) (hl : ∀ c, c ≠ b → ¬ p'.Leads c)
    (hc : c < s.sh.roundCount) (hcb : c ≠ b) :
    RoundOk { s with sh := s.sh.setRound b r, pc := update s.pc t p' } c := by
  have hm : MoveAt s.sh c (s.pc t) p' := by
    rw [hp]
    exact .other (fun _ => rfl) (hw' c hcb) (not_between_arrive hcb) (hl c hcb) id
  refine ((h.rounds c hc).move hm).congr ?_ ?_ rfl rfl rfl
  · exact congrArg Round.barrier (setRound_ne hcb r)
  · exact congrArg Round.members (setRound_ne hcb r)

def Half.gen : Half → Nat
  | .first => 0
  | .second => 1

def Round.counted (r : Round) : Round :=
  { r with barrier := { r.barrier with count := r.barrier.count + 1 } }

theorem RoundOk.stay (h : RoundOk s b) (hp : s.pc t = .arrive half k b) (hmem : t ∈ s.sh.members b)
    (hgen : s.sh.gen b = half.gen) :
    RoundOk { s with
      sh := s.sh.setRound b (s.sh.rounds b).counted
      pc := update s.pc t (.blocked half k b half.gen) } b := by
  have hgone : (s.pc t).Gone → (Pc.blocked half k b half.gen).Gone := by
    rw [hp]
    exact id
  have hbetween := update_rel (s := s) (t := t) (R := fun p q => p.Between b → q.Between b)
    (fun _ => id) (show (s.pc t).Between b → (Pc.blocked half k b half.gen).Between b from
      fun _ => rfl)
  have hleads := update_rel (s := s) (t := t) (R := fun p q => q.Leads b → p.Leads b)
    (fun _ => id) (show (Pc.blocked half k b half.gen).Leads b → (s.pc t).Leads b from
      fun hl => absurd hl id)
  have hw : ∀ half', (s.pc t).waits half' b = false := by
    rw [hp]
    exact fun _ => rfl
  refine ⟨?_, ?_, ?_, ?_, ?_, ?_, ?_, ?_, ?_, ?_⟩ <;>
    simp only [Shared.gen, Shared.members, setRound_self, Round.counted] at hgen hmem ⊢
  · exact h.nodup
  · exact h.nonempty
  · exact h.running
  · exact h.gen_le
  · intro hzero
    cases half with
    | first =>
      refine (h.gathering hzero).stay hmem (hw _) ?_ fun u _ hu => ?_
      · rw [update_self]
        exact decide_eq_true ⟨rfl, rfl⟩
      · rw [update_of_ne hu]
    | second => exact absurd (hzero.symm.trans hgen) Nat.zero_ne_one
  · intro hone
    cases half with
    | first => exact absurd (hone.symm.trans hgen) Nat.one_ne_zero
    | second =>
      refine (h.leaving hone).stay hmem (hw _) ?_ fun u _ hu => ?_
      · rw [update_self]
        exact decide_eq_true ⟨rfl, rfl⟩
      · rw [update_of_ne hu]
  · exact fun hone u hu => hbetween u (h.between hone u hu)
  · exact fun hlt u hu => (h.covers hlt u hu).imp_right (gone_update hgone u)
  · exact h.current
  · exact fun u v hu hv => h.leader u v (hleads u hu) (hleads v hv)

theorem Inv.stay (h : Inv s) (hp : s.pc t = .arrive half k b) (hlt : b < s.sh.roundCount)
    (hmem : t ∈ s.sh.members b) (hgen : s.sh.gen b = half.gen)
    (hok : ThreadOk s.sh t (.blocked half k b half.gen)) :
    Inv { s with
      sh := s.sh.setRound b (s.sh.rounds b).counted
      pc := update s.pc t (.blocked half k b half.gen) } := by
  have e : Same s.sh (s.sh.setRound b (s.sh.rounds b).counted) := .setRound rfl rfl rfl
  have hgone : (s.pc t).Gone → (Pc.blocked half k b half.gen).Gone := by
    rw [hp]
    exact id
  refine ⟨h.nodup, h.registered, fun c hc => ?_, fun k' hk' => ?_, ?_, fun r => ?_, h.owner⟩
  · by_cases hcb : c = b
    · subst hcb
      exact (h.rounds c hlt).stay hp hmem hgen
    · exact h.rounds_other hp (fun c hc half' => waits_blocked_ne hc) (fun c hc => id) hc hcb
  · obtain ⟨hact, c, hcur, hc, hkind, hgen⟩ := h.flag k' hk'
    refine ⟨hact, c, hcur, hc, (e.kind c).trans hkind, ?_⟩
    show (s.sh.setRound b _).gen c = 0 ∨ (s.sh.setRound b _).gen c = 1 ∧ _
    rw [e.gen c]
    refine hgen.imp_right fun hone => ⟨hone.1, raised_update (fun hr => ?_) hone.2⟩
    rw [hp] at hr
    exact absurd hr id
  · exact forall_update (fun u => (h.threads u).same e) (hok.same e)
  · exact ((h.requests r).move (fun he => absurd he id) hgone).alike e.toAlike rfl

def Round.flipped (r : Round) : Round :=
  { r with barrier := { r.barrier with count := 0, gen := r.barrier.gen + 1 } }

theorem eq_of_waits (h : p.waits half b = true) :
    ∃ k g, p = .blocked half k b g := by
  cases p with
  | blocked half' k b' g =>
    obtain ⟨rfl, rfl⟩ := of_decide_eq_true h
    exact ⟨k, g, rfl⟩
  | _ => cases h

theorem gen_flipped : (sh.setRound b (sh.rounds b).flipped).gen b = sh.gen b + 1 :=
  congrArg (fun r => r.barrier.gen) (setRound_self ..)

theorem kind_flipped :
    ((sh.setRound b (sh.rounds b).flipped).rounds b).kind = (sh.rounds b).kind := by
  rw [setRound_self]
  rfl

theorem gen_setRound_ne (hc : c ≠ b) : (sh.setRound b r).gen c = sh.gen c :=
  congrArg (fun r => r.barrier.gen) (setRound_ne hc r)

theorem mem_setRound (hr : r.members = sh.members b) (h : u ∈ sh.members c) :
    u ∈ (sh.setRound b r).members c := by
  unfold Shared.members
  by_cases hc : c = b
  · subst hc
    rw [setRound_self, hr]
    exact h
  · rw [setRound_ne hc]
    exact h

theorem LeadOk.setRound (h : LeadOk sh k c q) :
    LeadOk (sh.setRound b r) k c q := by
  cases q <;> exact h

theorem Gathers.flipped (h : Gathers sh k b) : Met (sh.setRound b (sh.rounds b).flipped) k b :=
  ⟨h.lt, kind_flipped.trans h.kind_eq, gen_flipped.trans (congrArg (· + 1) h.gen_eq)⟩

theorem ThreadOk.flip (h : ThreadOk sh u p) (half : Half) (hgen : sh.gen b = half.gen)
    (hwait : u ∈ sh.members b → p.waits half b = true) :
    ThreadOk (sh.setRound b (sh.rounds b).flipped) u p := by
  refine h.congr (fun hp => ?_) (fun _ hp => ?_) (fun _ => id) (fun c _ => mem_setRound rfl)
    (fun k c hg hu => ?_) (fun k c hm hu => ?_) (fun k c hl => ?_) fun _ _ _ _ hq => hq.setRound
  · subst hp
    exact h
  · subst hp
    exact h
  · by_cases hc : c = b
    · subst hc
      cases half with
      | first => exact .inr ⟨hwait hu, hg.flipped⟩
      | second => exact absurd (hg.gen_eq.symm.trans hgen) Nat.zero_ne_one
    · exact .inl ⟨hg.lt, (congrArg Round.kind (setRound_ne hc _)).trans hg.kind_eq,
        (gen_setRound_ne hc).trans hg.gen_eq, hg.flag⟩
  · by_cases hc : c = b
    · subst hc
      cases half with
      | first => exact absurd (hm.gen_eq.symm.trans hgen) Nat.one_ne_zero
      | second => exact .inr (hwait hu)
    · exact .inl (hm.of_round (setRound_ne hc _) hm.lt)
  · by_cases hc : c = b
    · subst hc
      exact ⟨hl.lt, kind_flipped.trans hl.kind_eq,
        le_of_le_of_eq (Nat.le_add_left ..) gen_flipped.symm⟩
    · exact hl.of_round (setRound_ne hc _) hl.lt

theorem Inv.met_of_leads (h : Inv s) (hu : (s.pc u).Leads b) :
    (∃ k, Met s.sh k b) ∧ u ∈ s.sh.members b := by
  have hok := h.threads u
  cases hpu : s.pc u with
  | lead k' c q' =>
    rw [hpu] at hu hok
    obtain rfl : c = b := hu
    exact ⟨⟨k', hok.1⟩, hok.2.1⟩
  | _ =>
    rw [hpu] at hu
    exact absurd hu id

theorem Inv.flip_first (h : Inv s) (hp : s.pc t = .arrive .first k b) (hg : Gathers s.sh k b)
    (hmem : t ∈ s.sh.members b)
    (hlast : ¬ (s.sh.rounds b).barrier.count + 1 < (s.sh.rounds b).barrier.size)
    (hq : LeadOk s.sh k b q) (hraised : q.raised = true) :
    Inv { s with
      sh := s.sh.setRound b (s.sh.rounds b).flipped
      pc := update s.pc t (.lead k b q) } := by
  have hr := h.rounds b hg.lt
  -- everybody else is at the first barrier
  have hwait : ∀ u, u ≠ t → u ∈ s.sh.members b → (s.pc u).waits .first b = true :=
    fun u hut hu => (hr.gathering hg.gen_eq).last hmem (by rw [hp]; rfl) hlast hu hut
  have hgone : (s.pc t).Gone → (Pc.lead k b q).Gone := by
    rw [hp]
    exact id
  refine ⟨h.nodup, h.registered, fun c hc => ?_, fun k' hk' => ?_, ?_, fun r => ?_, h.owner⟩
  · by_cases hcb : c = b
    · subst hcb
      refine ⟨?_, ?_, ?_, ?_, ?_, ?_, ?_, ?_, ?_, ?_⟩ <;>
        simp only [Shared.gen, Shared.members, setRound_self, Round.flipped]
      · exact hr.nodup
      · exact hr.nonempty
      · exact hr.running
      · have : (s.sh.rounds c).barrier.gen = 0 := hg.gen_eq
        omega
      · intro hzero
        cases hzero
      · refine fun _ => (hr.gathering hg.gen_eq).next ?_
        refine forall_update_ne (P := fun u p => u ∈ _ → p.waits .second c = false) (fun _ => rfl)
          fun u hut hu => ?_
        obtain ⟨k', g, heq⟩ := eq_of_waits (hwait u hut hu)
        rw [heq]
        exact waits_second_blocked_first
      · refine fun _ => forall_update_ne (P := fun u p => u ∈ _ → p.Between c) (fun _ => rfl)
          fun u hut hu => ?_
        obtain ⟨k', g, heq⟩ := eq_of_waits (hwait u hut hu)
        rw [heq]
        exact rfl
      · have hlt : s.sh.gen c < 2 := by
          rw [hg.gen_eq]
          omega
        exact fun _ u hu => (hr.covers hlt u hu).imp_right (gone_update hgone u)
      · intro hzero
        cases hzero
      · -- nobody led before, so the new leader is the only one
        have hno : ∀ u, (update s.pc t (.lead k c q) u).Leads c → u = t := by
          refine forall_update_ne (P := fun u p => p.Leads c → u = t) (fun _ => rfl) fun u _ hu => ?_
          obtain ⟨⟨_, hm⟩, -⟩ := h.met_of_leads hu
          exact absurd (hm.gen_eq.symm.trans hg.gen_eq) Nat.one_ne_zero
        exact fun u v hu hv => (hno u hu).trans (hno v hv).symm
    · exact h.rounds_other hp (fun _ _ _ => rfl) (fun _ hc => not_leads_lead_ne hc) hc hcb
  · obtain ⟨hact, c, hcur, hc, hkind, -⟩ := h.flag k' hk'
    obtain rfl : c = b :=
      Option.some.inj (hcur.symm.trans (hr.current hg.gen_eq).1)
    refine ⟨hact, c, hcur, hc, ?_, .inr ⟨hg.flipped.gen_eq, t, ?_⟩⟩
    · rw [setRound_self]
      exact hkind
    · show (update s.pc t (.lead k c q) t).Raised c
      rw [update_self]
      exact ⟨rfl, hraised⟩
  · exact forall_update_ne ⟨hg.flipped, mem_setRound rfl hmem, hq.setRound⟩
      fun u hut => (h.threads u).flip .first hg.gen_eq (hwait u hut)
  · exact .of_not_inWindow (h.not_inWindow_of_flag hg.flag r)

theorem Inv.flip_second (h : Inv s) (hp : s.pc t = .arrive .second k b) (hm : Met s.sh k b)
    (hmem : t ∈ s.sh.members b)
    (hlast : ¬ (s.sh.rounds b).barrier.count + 1 < (s.sh.rounds b).barrier.size) :
    Inv { s with
      sh := s.sh.setRound b (s.sh.rounds b).flipped
      pc := update s.pc t (afterSecond k b) } := by
  have hr := h.rounds b hm.lt
  have hrun : t ∈ s.sh.running := hr.running t hmem
  have hout : (afterSecond k b).Outside := by
    cases k <;> trivial
  have hgone : (s.pc t).Gone → (afterSecond k b).Gone := by
    rw [hp]
    exact fun hh => absurd hh id
  have hwait : ∀ u, u ≠ t → u ∈ s.sh.members b → (s.pc u).waits .second b = true :=
    fun u hut hu => (hr.leaving hm.gen_eq).last hmem (by rw [hp]; rfl) hlast hu hut
  have hgen : (s.sh.setRound b (s.sh.rounds b).flipped).gen b = 2 :=
    gen_flipped.trans (congrArg (· + 1) hm.gen_eq)
  -- the leader waits at the second barrier too, or is the one that has arrived
  have hlead : ∀ u, ¬ (s.pc u).Leads b := by
    intro u hu
    by_cases hut : u = t
    · rw [hut, hp] at hu
      exact hu
    obtain ⟨_, _, heq⟩ := eq_of_waits (hwait u hut (h.met_of_leads hu).2)
    rw [heq] at hu
    exact hu
  refine ⟨h.nodup, h.registered, fun c hc => ?_, fun k' hk' => ?_, ?_, fun r => ?_, h.owner⟩
  · by_cases hcb : c = b
    · subst hcb
      refine ⟨?_, ?_, ?_, ?_, ?_, ?_, ?_, ?_, ?_, ?_⟩
      · simp only [Shared.members, setRound_self]
        exact hr.nodup
      · simp only [Shared.members, setRound_self]
        exact hr.nonempty
      · simp only [Shared.members, setRound_self]
        exact hr.running
      · exact Nat.le_of_eq hgen
      · exact fun hz => absurd (hgen.symm.trans hz) (by omega)
      · exact fun hz => absurd (hgen.symm.trans hz) (by omega)
      · exact fun hz => absurd (hgen.symm.trans hz) (by omega)
      · exact fun hlt => absurd (lt_of_eq_of_lt hgen.symm hlt) (lt_irrefl 2)
      · exact fun hz => absurd (hgen.symm.trans hz) (by omega)
      · have hno := forall_update (t := t) (P := fun _ p => ¬ p.Leads c) hlead (hout.not_leads c)
        exact fun u v hu _ => absurd hu (hno u)
    · exact h.rounds_other hp (fun _ _ half => hout.waits half _) (fun c _ => hout.not_leads c)
        hc hcb
  · obtain ⟨hact, c, hcur, hc, hkind, hone⟩ := h.flag k' hk'
    -- the flag is not this barrier's: its leader is past taking it down
    have hcb : c ≠ b := by
      rintro rfl
      rcases hone with hz | ⟨-, u, hu⟩
      · exact absurd (hm.gen_eq.symm.trans hz) Nat.one_ne_zero
      · exact hlead u hu.leads
    refine ⟨hact, c, hcur, hc, ?_, ?_⟩
    · rw [setRound_ne hcb]
      exact hkind
    · show (s.sh.setRound b _).gen c = 0 ∨ (s.sh.setRound b _).gen c = 1 ∧ _
      rw [gen_setRound_ne hcb]
      refine hone.imp_right fun hone => ⟨hone.1, raised_update (fun hr => ?_) hone.2⟩
      rw [hp] at hr
      exact absurd hr id
  · refine forall_update_ne ?_ fun u hut => (h.threads u).flip .second hm.gen_eq (hwait u hut)
    cases k <;> exact hrun
  · have hreq := (h.requests r).move (fun he => absurd he hout.not_early) hgone
    refine hreq.congr (fun hh => ⟨hh.active, hh.flags, hh.early⟩) (fun k' c hpl => ?_)
      (fun hz c hc => ?_) rfl fun _ => id
    · have hcb : c ≠ b := by
        rintro rfl
        exact absurd (hm.gen_eq.symm.trans hpl.gen_eq) Nat.one_ne_zero
      exact ⟨⟨hpl.held.active, hpl.held.flags, hpl.held.early⟩, hpl.current, hpl.lt,
        (congrArg Round.kind (setRound_ne hcb _)).trans hpl.kind_eq,
        (gen_setRound_ne hcb).trans hpl.gen_eq⟩
    · show (s.sh.setRound b _).gen c ≠ 0
      by_cases hcb : c = b
      · rw [hcb, hgen]
        exact Nat.succ_ne_zero 1
      · rw [gen_setRound_ne hcb]
        exact hz c hc

end

/-! ## The leader lets go -/

section

variable {s : State} {t b : Nat} {k : Kind}

theorem ThreadOk.quiet {sh : Shared} {u : Nat} {p : Pc} (h : ThreadOk sh u p)
    (hgather : ∀ k c, ¬ Gathers sh k c) (hearly : ¬ p.Early) (req : Kind → Bool) (active : Bool)
    (cur : Option Nat) :
    ThreadOk { sh with req := req, rendezvousActive := active, snapBarrier := cur } u p := by
  refine h.congr (fun hp => ?_) (fun _ hp => ?_) (fun _ => id) (fun _ _ => id)
    (fun k c hg => absurd hg (hgather k c)) (fun k c hm _ => .inl (hm.of_round rfl hm.lt))
    (fun k c hl => hl.of_round rfl hl.lt) fun k c q hp _ => .of_not_early (hp ▸ hearly)
  · subst hp
    exact h
  · subst hp
    exact h

theorem Inv.leads_of_early (h : Inv s) {u : Nat} (hu : (s.pc u).Early) :
    ∃ c, s.sh.snapBarrier = some c ∧ (s.pc u).Leads c := by
  have hok := h.threads u
  cases hpu : s.pc u with
  | lead k' c q' =>
    rw [hpu] at hok hu
    refine ⟨c, ?_, rfl⟩
    cases q' with
    | send ok slot => cases hu
    | _ => exact hok.2.2.2.1
  | _ =>
    rw [hpu] at hu
    exact absurd hu id

theorem Inv.early_unique (h : Inv s) {q : LeadPc} (hp : s.pc t = .lead k b q)
    (hcur : s.sh.snapBarrier = some b) {u : Nat} (hu : (s.pc u).Early) : u = t := by
  obtain ⟨c, hc, hl⟩ := h.leads_of_early hu
  obtain rfl : c = b := Option.some.inj (hc.symm.trans hcur)
  obtain ⟨⟨_, hmet⟩, -⟩ := h.met_of_leads hl
  refine (h.rounds c hmet.lt).leader u t hl ?_
  rw [hp]
  exact rfl

theorem MoveAt.lead {sh : Shared} {q q' : LeadPc} (c : Nat) :
    MoveAt sh c (.lead k b q) (.lead k b q') where
  first := fun _ => rfl
  second := fun _ => rfl
  between := fun _ => id
  leads := id
  gone := fun h => absurd h id

theorem Inv.let_go (h : Inv s) {q q' : LeadPc} (hp : s.pc t = .lead k b q) (hearly : q.early = true)
    (hcur : s.sh.snapBarrier = some b) {req : Kind → Bool} (hflags : ∀ k', req k' = false)
    (active : Bool)
    (hq : LeadOk { s.sh with req := req, rendezvousActive := active } k b q') :
    Inv { s with
      sh := { s.sh with req := req, rendezvousActive := active }
      pc := update s.pc t (.lead k b q') } := by
  have hok := h.threads t
  rw [hp] at hok
  obtain ⟨hmet, hmem, -⟩ := hok
  have hzero : ∀ c < s.sh.roundCount, s.sh.gen c ≠ 0 := fun c hc =>
    h.not_gathering_of_current hcur hmet.gen_eq hc
  refine ⟨h.nodup, h.registered, fun c hc => ?_, fun k' hk' => ?_, ?_, fun r => ?_, h.owner⟩
  · have hm : MoveAt s.sh c (s.pc t) (.lead k b q') := by
      rw [hp]
      exact .lead c
    have hr := (h.rounds c hc).move hm
    exact { hr with current := fun hz => absurd hz (hzero c hc) }
  · cases hk'.symm.trans (hflags k')
  · exact forall_update_ne ⟨hmet.of_round rfl hmet.lt, hmem, hq⟩ fun u hut =>
      (h.threads u).quiet (fun k' c hg => hzero c hg.lt hg.gen_eq)
        (fun he => hut (h.early_unique hp hcur he)) _ _ _
  · refine .of_not_inWindow (h.not_inWindow_of_early (t := t) ?_ r)
    rw [hp]
    exact hearly

theorem Inv.clear (h : Inv s) {ok : Bool} {slot : Option Nat}
    (hp : s.pc t = .lead k b (.clear ok slot)) :
    Inv { s with
      sh := { s.sh with req := update s.sh.req k false }
      pc := update s.pc t (.lead k b (.release ok slot)) } := by
  have hok := h.threads t
  rw [hp] at hok
  obtain ⟨hmet, -, hact, hcur, -⟩ := hok
  -- no flag but its own was up
  have hflags : ∀ k', update s.sh.req k false k' = false := by
    intro k'
    by_cases hkk : k' = k
    · rw [hkk, update_self]
    rw [update_of_ne hkk]
    by_contra hne
    obtain ⟨-, c, hc, -, hkind, -⟩ := h.flag k' (Bool.eq_true_of_not_eq_false hne)
    obtain rfl : c = b := Option.some.inj (hc.symm.trans hcur)
    exact hkk (hkind.symm.trans hmet.kind_eq)
  exact h.let_go hp rfl hcur hflags _ ⟨hact, hcur, hflags⟩

theorem Inv.release (h : Inv s) {ok : Bool} {slot : Option Nat}
    (hp : s.pc t = .lead k b (.release ok slot)) :
    Inv { s with
      sh := { s.sh with rendezvousActive := false }
      pc := update s.pc t (.lead k b (.send ok slot)) } := by
  have hok := h.threads t
  rw [hp] at hok
  obtain ⟨-, -, -, hcur, hflags⟩ := hok
  exact h.let_go hp rfl hcur hflags false trivial

end

end Ignition.Vmm.Rendezvous
