import Ignition.Vmm.Rendezvous

/-!
# The state of a rendezvous

What holds of the threads, the requesters and the barriers in every run in which a request
latches only when no vCPU is between its claim and its registration.

A barrier goes through three generations. While its generation is zero the members gather:
its requester's flag is up, it is the current barrier, and nobody has run a handler for it.
When the last member arrives the generation is one: every member has met the others and
none has left, so the leader is alone (`RoundOk.between`). At two they may leave. As long as
a barrier is below two, every vCPU that has been claimed is a member of it or over
(`RoundOk.covers`): CPU_ON is frozen from before the latch until the leader releases it,
and from then on nobody is left to claim one.

`Inv` holds whatever else happens: exits, errors, shutdowns, requests that overtake each
other.
-/

namespace Ignition.Vmm.Rendezvous

open Parties Runs List Function

/-! ## Where a thread is -/

/-- The thread is counted at a barrier. -/
def Pc.waits (half : Half) (b : Nat) : Pc → Bool
  | .blocked h _ b' _ => decide (h = half ∧ b' = b)
  | _ => false

def Pc.Between (b : Nat) : Pc → Prop
  | .blocked _ _ b' _ => b' = b
  | .lead _ b' _ => b' = b
  | .arrive .second _ b' => b' = b
  | _ => False

def Pc.Leads (b : Nat) : Pc → Prop
  | .lead _ b' _ => b' = b
  | _ => False

def LeadPc.early : LeadPc → Bool
  | .send _ _ => false
  | _ => true

def LeadPc.raised : LeadPc → Bool
  | .send _ _ => false
  | .release _ _ => false
  | _ => true

def Pc.Raised (b : Nat) : Pc → Prop
  | .lead _ b' p => b' = b ∧ p.raised = true
  | _ => False

def Pc.Early : Pc → Prop
  | .lead _ _ p => p.early = true
  | _ => False

def Pc.Gone : Pc → Prop
  | .done _ => True
  | .panicked => True
  | _ => False

def Pc.Outside : Pc → Prop
  | .arrive _ _ _ => False
  | .blocked _ _ _ _ => False
  | .lead _ _ _ => False
  | _ => True

def ReqPc.InWindow : ReqPc → Prop
  | .latch _ | .unfreeze | .install _ _ | .post _ | .clear _ _ | .raise _ _ => True
  | _ => False

/-- The generation of a barrier: zero while the members gather, one while the leader is at
work, two when all may leave. -/
abbrev Shared.gen (sh : Shared) (b : Nat) : Nat := (sh.rounds b).barrier.gen

abbrev Shared.members (sh : Shared) (b : Nat) : List Nat := (sh.rounds b).members

/-! ## The invariant -/

/-- Members gather at barrier `b`. -/
structure Gathers (sh : Shared) (k : Kind) (b : Nat) : Prop where
  lt : b < sh.roundCount
  kind_eq : (sh.rounds b).kind = k
  gen_eq : sh.gen b = 0
  flag : sh.req k = true

/-- The members of barrier `b` have met. -/
structure Met (sh : Shared) (k : Kind) (b : Nat) : Prop where
  lt : b < sh.roundCount
  kind_eq : (sh.rounds b).kind = k
  gen_eq : sh.gen b = 1

/-- Members of barrier `b` leave, or are about to. -/
structure Leaves (sh : Shared) (k : Kind) (b : Nat) : Prop where
  lt : b < sh.roundCount
  kind_eq : (sh.rounds b).kind = k
  gen_pos : 1 ≤ sh.gen b

/-- What holds of a leader at each stage. -/
def LeadOk (sh : Shared) (k : Kind) (b : Nat) : LeadPc → Prop
  | .take | .slot _ | .handler _ _ | .clear _ _ =>
    sh.rendezvousActive = true ∧ sh.snapBarrier = some b ∧ sh.req k = true
  | .release _ _ =>
    sh.rendezvousActive = true ∧ sh.snapBarrier = some b ∧ ∀ k', sh.req k' = false
  | .send _ _ => True

/-- Where the thread of vCPU `u` can be. -/
def ThreadOk (sh : Shared) (u : Nat) : Pc → Prop
  | .absent => u ∉ sh.vcpuids ∧ ∀ start, sh.spawned.lookup u = some start → u ∈ sh.running
  | .start (.creating _) => u ∈ sh.running ∧ u ∉ sh.vcpuids
  | .start _ => u ∈ sh.running
  | .loop (.spawning target _ _) => u ∈ sh.running ∧ target ∈ sh.running
  | .loop _ => u ∈ sh.running
  | .push k => ∃ b, Gathers sh k b ∧ u ∈ sh.members b
  | .fetch k => ∃ b, Gathers sh k b ∧ u ∈ sh.members b
  | .arrive .first k b => Gathers sh k b ∧ u ∈ sh.members b
  | .blocked .first k b gen =>
    gen = 0 ∧ u ∈ sh.members b ∧ (Gathers sh k b ∨ Met sh k b)
  | .lead k b p => Met sh k b ∧ u ∈ sh.members b ∧ LeadOk sh k b p
  | .arrive .second k b => Met sh k b ∧ u ∈ sh.members b
  | .blocked .second k b gen => gen = 1 ∧ u ∈ sh.members b ∧ Leaves sh k b
  | .restoring _ => u ∈ sh.running
  | .done _ => True
  | .panicked => True

/-- The rendezvous belongs to a requester: nothing is raised and nobody leads. -/
structure Held (s : State) : Prop where
  active : s.sh.rendezvousActive = true
  flags : ∀ k, s.sh.req k = false
  early : ∀ u, ¬ (s.pc u).Early

/-- The requester's barrier is in place. -/
structure Placed (s : State) (k : Kind) (b : Nat) : Prop where
  held : Held s
  current : s.sh.snapBarrier = some b
  lt : b < s.sh.roundCount
  kind_eq : (s.sh.rounds b).kind = k
  gen_eq : s.sh.gen b = 0

def RequestOk (s : State) : ReqPc → Prop
  | .latch _ => Held s ∧ ∀ b < s.sh.roundCount, s.sh.gen b ≠ 0
  | .unfreeze => Held s ∧ ∀ b < s.sh.roundCount, s.sh.gen b ≠ 0
  | .install _ ids =>
    (Held s ∧ ∀ b < s.sh.roundCount, s.sh.gen b ≠ 0) ∧
      ids ≠ [] ∧ ids.Nodup ∧ (∀ t ∈ ids, t ∈ s.sh.running) ∧
      ∀ t ∈ s.sh.running, t ∈ ids ∨ (s.pc t).Gone
  | .post b => Placed s .snapshot b
  | .clear k b => Placed s k b
  | .raise k b => Placed s k b
  | _ => True

/-- The state of one barrier. -/
structure RoundOk (s : State) (b : Nat) : Prop where
  nodup : (s.sh.members b).Nodup
  nonempty : s.sh.members b ≠ []
  running : ∀ t ∈ s.sh.members b, t ∈ s.sh.running
  gen_le : s.sh.gen b ≤ 2
  gathering : s.sh.gen b = 0 →
    Tally (s.sh.rounds b).barrier (s.sh.members b) fun u => (s.pc u).waits .first b
  leaving : s.sh.gen b = 1 →
    Tally (s.sh.rounds b).barrier (s.sh.members b) fun u => (s.pc u).waits .second b
  between : s.sh.gen b = 1 → ∀ t ∈ s.sh.members b, (s.pc t).Between b
  covers : s.sh.gen b < 2 → ∀ t ∈ s.sh.running, t ∈ s.sh.members b ∨ (s.pc t).Gone
  current : s.sh.gen b = 0 → s.sh.snapBarrier = some b ∧ s.sh.rendezvousActive = true
  leader : ∀ u v, (s.pc u).Leads b → (s.pc v).Leads b → u = v

structure Inv (s : State) : Prop where
  nodup : s.sh.vcpuids.Nodup
  registered : ∀ t ∈ s.sh.vcpuids, t ∈ s.sh.running
  rounds : ∀ b < s.sh.roundCount, RoundOk s b
  flag : ∀ k, s.sh.req k = true → s.sh.rendezvousActive = true ∧
    ∃ b, s.sh.snapBarrier = some b ∧ b < s.sh.roundCount ∧ (s.sh.rounds b).kind = k ∧
      (s.sh.gen b = 0 ∨ s.sh.gen b = 1 ∧ ∃ u, (s.pc u).Raised b)
  threads : ∀ u, ThreadOk s.sh u (s.pc u)
  requests : ∀ r, RequestOk s (s.rq r)
  owner : ∀ r r', (s.rq r).InWindow → (s.rq r').InWindow → r = r'

/-! ## Steps that move one thread -/

/-- A change of a thread's place that barrier `b` does not notice. -/
structure MoveAt (sh : Shared) (b : Nat) (p p' : Pc) : Prop where
  first : sh.gen b = 0 → p'.waits .first b = p.waits .first b
  second : sh.gen b = 1 → p'.waits .second b = p.waits .second b
  between : sh.gen b = 1 → p.Between b → p'.Between b
  leads : p'.Leads b → p.Leads b
  gone : p.Gone → p'.Gone

/-- A change of a thread's place that no barrier notices. -/
structure Move (sh : Shared) (p p' : Pc) : Prop where
  at_ : ∀ b, MoveAt sh b p p'
  raised : ∀ b, p.Raised b → p'.Raised b
  early : p'.Early → p.Early

variable {sh : Shared} {p : Pc}

theorem Move.gone {p' : Pc} (h : Move sh p p') : p.Gone → p'.Gone :=
  (h.at_ 0).gone

theorem Pc.Outside.waits (h : p.Outside) (half : Half) (b : Nat) :
    p.waits half b = false := by
  cases p with
  | blocked h' k b' g => exact absurd h id
  | _ => rfl

theorem Pc.Outside.not_between (h : p.Outside) (b : Nat) : ¬ p.Between b := by
  cases p with
  | blocked h' k b' g | arrive h' k b' | lead k b' q => exact absurd h id
  | _ => exact id

theorem Pc.Outside.not_leads (h : p.Outside) (b : Nat) : ¬ p.Leads b := by
  cases p with
  | lead k b' q => exact absurd h id
  | _ => exact id

theorem Pc.Raised.leads {b : Nat} (h : p.Raised b) : p.Leads b := by
  cases p with
  | lead k b' q => exact h.1
  | _ => exact absurd h id

theorem Pc.Outside.not_early (h : p.Outside) : ¬ p.Early := by
  cases p with
  | lead k b' q => exact absurd h id
  | _ => exact id

theorem Move.outside {p' : Pc} (hp : p.Outside) (hp' : p'.Outside) (hgone : ¬ p.Gone) :
    Move sh p p' where
  at_ := fun b =>
    { first := fun _ => (hp'.waits _ b).trans (hp.waits _ b).symm
      second := fun _ => (hp'.waits _ b).trans (hp.waits _ b).symm
      between := fun _ h => absurd h (hp.not_between b)
      leads := fun h => absurd h (hp'.not_leads b)
      gone := fun h => absurd h hgone }
  raised := fun b h => absurd h.leads (hp.not_leads b)
  early := fun h => absurd h hp'.not_early

section

variable {s : State} {t : Nat} {p' : Pc}

theorem forall_update_ne {P : Nat → Pc → Prop} (ht : P t p') (h : ∀ u, u ≠ t → P u (s.pc u))
    (u : Nat) : P u (update s.pc t p' u) :=
  (forall_update_iff s.pc P).mpr ⟨ht, h⟩ u

theorem forall_update {P : Nat → Pc → Prop} (h : ∀ u, P u (s.pc u)) (ht : P t p') (u : Nat) :
    P u (update s.pc t p' u) :=
  forall_update_ne ht (fun u _ => h u) u

theorem update_rel {R : Pc → Pc → Prop} (hrefl : ∀ p, R p p) (ht : R (s.pc t) p') (u : Nat) :
    R (s.pc u) (update s.pc t p' u) :=
  forall_update (P := fun u p => R (s.pc u) p) (fun u => hrefl (s.pc u)) ht u

theorem Held.move (h : Held s) (hearly : p'.Early → (s.pc t).Early) :
    Held { s with pc := update s.pc t p' } where
  active := h.active
  flags := h.flags
  early := forall_update (P := fun _ p => ¬ p.Early) h.early fun he => h.early t (hearly he)

variable {b : Nat}

theorem Placed.move {k : Kind} (h : Placed s k b) (hearly : p'.Early → (s.pc t).Early) :
    Placed { s with pc := update s.pc t p' } k b :=
  ⟨h.held.move hearly, h.current, h.lt, h.kind_eq, h.gen_eq⟩

theorem raised_update (hraised : (s.pc t).Raised b → p'.Raised b) (h : ∃ u, (s.pc u).Raised b) :
    ∃ u, (update s.pc t p' u).Raised b := by
  obtain ⟨u, hu⟩ := h
  exact ⟨u, update_rel (R := fun p q => p.Raised b → q.Raised b) (fun _ => id) hraised u hu⟩

theorem leads_update (hleads : (s.pc t).Leads b → p'.Leads b) (u : Nat) (h : (s.pc u).Leads b) :
    (update s.pc t p' u).Leads b :=
  update_rel (R := fun p q => p.Leads b → q.Leads b) (fun _ => id) hleads u h

theorem gone_update (hgone : (s.pc t).Gone → p'.Gone) (u : Nat) (h : (s.pc u).Gone) :
    (update s.pc t p' u).Gone :=
  update_rel (R := fun p q => p.Gone → q.Gone) (fun _ => id) hgone u h

theorem RequestOk.congr {s' : State} {q : ReqPc} (h : RequestOk s q) (hheld : Held s → Held s')
    (hplaced : ∀ k c, Placed s k c → Placed s' k c)
    (hgen : (∀ c < s.sh.roundCount, s.sh.gen c ≠ 0) → ∀ c < s'.sh.roundCount, s'.sh.gen c ≠ 0)
    (hrun : s'.sh.running = s.sh.running) (hgone : ∀ u, (s.pc u).Gone → (s'.pc u).Gone) :
    RequestOk s' q := by
  cases q with
  | idle | begin k | await b => trivial
  | latch k | unfreeze => exact ⟨hheld h.1, hgen h.2⟩
  | install k ids =>
    refine ⟨⟨hheld h.1.1, hgen h.1.2⟩, h.2.1, h.2.2.1, ?_, ?_⟩ <;> rw [hrun]
    · exact h.2.2.2.1
    · exact fun u hu => (h.2.2.2.2 u hu).imp_right (hgone u)
  | post b => exact hplaced _ b h
  | clear k b | raise k b => exact hplaced k b h

theorem RequestOk.move {q : ReqPc} (h : RequestOk s q) (hearly : p'.Early → (s.pc t).Early)
    (hgone : (s.pc t).Gone → p'.Gone) :
    RequestOk { s with pc := update s.pc t p' } q :=
  h.congr (fun hh => hh.move hearly) (fun _ _ hp => hp.move hearly) id rfl (gone_update hgone)

theorem RoundOk.move (h : RoundOk s b) (hm : MoveAt s.sh b (s.pc t) p') :
    RoundOk { s with pc := update s.pc t p' } b where
  nodup := h.nodup
  nonempty := h.nonempty
  running := h.running
  gen_le := h.gen_le
  gathering := fun hg => (h.gathering hg).congr fun u _ =>
    update_rel (R := fun p q => q.waits .first b = p.waits .first b) (fun _ => rfl)
      (hm.first hg) u
  leaving := fun hg => (h.leaving hg).congr fun u _ =>
    update_rel (R := fun p q => q.waits .second b = p.waits .second b) (fun _ => rfl)
      (hm.second hg) u
  between := fun hg u hu =>
    update_rel (R := fun p q => p.Between b → q.Between b) (fun _ => id) (hm.between hg) u
      (h.between hg u hu)
  covers := fun hg u hu => (h.covers hg u hu).imp_right (gone_update hm.gone u)
  current := h.current
  leader := fun u v hu hv =>
    have hpc := update_rel (R := fun p q => q.Leads b → p.Leads b) (fun _ => id) hm.leads
    h.leader u v (hpc u hu) (hpc v hv)

theorem Inv.move (h : Inv s) (hok : ThreadOk s.sh t p') (hm : Move s.sh (s.pc t) p') :
    Inv { s with pc := update s.pc t p' } where
  nodup := h.nodup
  registered := h.registered
  rounds := fun b hb => (h.rounds b hb).move (hm.at_ b)
  flag := by
    intro k hk
    obtain ⟨hact, b, hcur, hlt, hkind, hgen⟩ := h.flag k hk
    exact ⟨hact, b, hcur, hlt, hkind,
      hgen.imp_right fun hone => ⟨hone.1, raised_update (hm.raised b) hone.2⟩⟩
  threads := forall_update h.threads hok
  requests := fun r => (h.requests r).move hm.early hm.gone
  owner := h.owner

end

/-! ## Steps the barriers do not depend on -/

/-- The two agree on the rendezvous. -/
structure Alike (sh sh' : Shared) : Prop where
  req : sh'.req = sh.req
  active : sh'.rendezvousActive = sh.rendezvousActive
  snapBarrier : sh'.snapBarrier = sh.snapBarrier
  roundCount : sh'.roundCount = sh.roundCount
  kind : ∀ b, (sh'.rounds b).kind = (sh.rounds b).kind
  members : ∀ b, sh'.members b = sh.members b
  gen : ∀ b, sh'.gen b = sh.gen b

/-- The two agree on all that says where threads and requesters can be. -/
structure Same (sh sh' : Shared) : Prop extends Alike sh sh' where
  running : sh'.running = sh.running
  vcpuids : sh'.vcpuids = sh.vcpuids
  spawned : sh'.spawned = sh.spawned

theorem Alike.trans {sh' sh'' : Shared} (h : Alike sh sh') (h' : Alike sh' sh'') :
    Alike sh sh'' :=
  ⟨h'.req.trans h.req, h'.active.trans h.active, h'.snapBarrier.trans h.snapBarrier,
    h'.roundCount.trans h.roundCount, fun b => (h'.kind b).trans (h.kind b),
    fun b => (h'.members b).trans (h.members b), fun b => (h'.gen b).trans (h.gen b)⟩

theorem Same.trans {sh' sh'' : Shared} (h : Same sh sh') (h' : Same sh' sh'') :
    Same sh sh'' :=
  ⟨h.toAlike.trans h'.toAlike, h'.running.trans h.running, h'.vcpuids.trans h.vcpuids,
    h'.spawned.trans h.spawned⟩

section

variable {sh sh' : Shared}

@[simp] theorem setRound_self (sh : Shared) (b : Nat) (r : Round) :
    (sh.setRound b r).rounds b = r :=
  update_self ..

variable {b : Nat} {k : Kind}

theorem setRound_ne {c : Nat} (h : c ≠ b) (r : Round) : (sh.setRound b r).rounds c = sh.rounds c :=
  update_of_ne h ..

theorem forall_setRound (sh : Shared) {P : Nat → Round → Prop} {r : Round} (hb : P b r)
    (h : ∀ c, c ≠ b → P c (sh.rounds c)) (c : Nat) : P c ((sh.setRound b r).rounds c) := by
  by_cases hc : c = b
  · subst hc
    rw [setRound_self]
    exact hb
  · rw [setRound_ne hc]
    exact h c hc

theorem Same.setRound {r : Round} (hk : r.kind = (sh.rounds b).kind) (hg : r.barrier.gen = sh.gen b)
    (hm : r.members = sh.members b) :
    Same sh (sh.setRound b r) := by
  have hr := forall_setRound sh (P := fun c r => r.kind = (sh.rounds c).kind ∧
    r.members = sh.members c ∧ r.barrier.gen = sh.gen c) ⟨hk, hm, hg⟩ fun c _ => ⟨rfl, rfl, rfl⟩
  exact ⟨⟨rfl, rfl, rfl, rfl, fun c => (hr c).1, fun c => (hr c).2.1, fun c => (hr c).2.2⟩,
    rfl, rfl, rfl⟩

theorem barrier_setRound {r : Round} (h : r.barrier = (sh.rounds b).barrier) (c : Nat) :
    ((sh.setRound b r).rounds c).barrier = (sh.rounds c).barrier := by
  by_cases hc : c = b
  · subst hc
    rw [setRound_self]
    exact h
  · rw [setRound_ne hc]

theorem Gathers.alike (h : Gathers sh k b) (e : Alike sh sh') :
    Gathers sh' k b :=
  ⟨e.roundCount ▸ h.lt, (e.kind b).trans h.kind_eq, (e.gen b).trans h.gen_eq, e.req ▸ h.flag⟩

theorem Met.alike (h : Met sh k b) (e : Alike sh sh') : Met sh' k b :=
  ⟨e.roundCount ▸ h.lt, (e.kind b).trans h.kind_eq, (e.gen b).trans h.gen_eq⟩

theorem Leaves.alike (h : Leaves sh k b) (e : Alike sh sh') :
    Leaves sh' k b :=
  ⟨e.roundCount ▸ h.lt, (e.kind b).trans h.kind_eq, e.gen b ▸ h.gen_pos⟩

theorem Met.of_round (h : Met sh k b) (hr : sh'.rounds b = sh.rounds b) (hb : b < sh'.roundCount) :
    Met sh' k b :=
  ⟨hb, (congrArg Round.kind hr).trans h.kind_eq,
    (congrArg (fun r => r.barrier.gen) hr).trans h.gen_eq⟩

theorem Leaves.of_round (h : Leaves sh k b) (hr : sh'.rounds b = sh.rounds b)
    (hb : b < sh'.roundCount) : Leaves sh' k b :=
  ⟨hb, (congrArg Round.kind hr).trans h.kind_eq,
    le_of_le_of_eq h.gen_pos (congrArg (fun r => r.barrier.gen) hr).symm⟩

theorem LeadOk.of_not_early {q : LeadPc} (h : ¬ (Pc.lead k b q).Early) : LeadOk sh k b q := by
  cases q with
  | send ok slot => trivial
  | _ => exact absurd rfl h

theorem LeadOk.alike {p : LeadPc} (h : LeadOk sh k b p) (e : Alike sh sh') :
    LeadOk sh' k b p := by
  cases p <;> simp only [LeadOk, e.active, e.snapBarrier, e.req] at h ⊢ <;> exact h

theorem waits_second_blocked_first {c g : Nat} :
    (Pc.blocked .first k b g).waits .second c = false := by
  unfold Pc.waits
  exact decide_eq_false fun h => nomatch h.1

theorem ThreadOk.congr {u : Nat} {p : Pc} (h : ThreadOk sh u p)
    (habsent : p = .absent → ThreadOk sh' u p)
    (hcreating : ∀ start, p = .start (.creating start) → ThreadOk sh' u p)
    (hrun : ∀ v ∈ sh.running, v ∈ sh'.running)
    (hmem : ∀ c < sh.roundCount, u ∈ sh.members c → u ∈ sh'.members c)
    (hg : ∀ k c, Gathers sh k c → u ∈ sh.members c →
      Gathers sh' k c ∨ p.waits .first c = true ∧ Met sh' k c)
    (hm : ∀ k c, Met sh k c → u ∈ sh.members c → Met sh' k c ∨ p.waits .second c = true)
    (hl : ∀ k c, Leaves sh k c → Leaves sh' k c)
    (hlead : ∀ k c q, p = .lead k c q → LeadOk sh k c q → LeadOk sh' k c q) :
    ThreadOk sh' u p := by
  cases p with
  | absent => exact habsent rfl
  | start p =>
    cases p with
    | creating start => exact hcreating start rfl
    | _ => exact hrun u h
  | loop p =>
    cases p with
    | spawning target entry ctx => exact ⟨hrun u h.1, hrun target h.2⟩
    | _ => exact hrun u h
  | push k | fetch k =>
    obtain ⟨b, hb, hu⟩ := h
    exact ⟨b, (hg k b hb hu).resolve_right fun hw => (nomatch hw.1), hmem b hb.lt hu⟩
  | arrive half k b =>
    cases half with
    | first =>
      exact ⟨(hg k b h.1 h.2).resolve_right fun hw => (nomatch hw.1), hmem b h.1.lt h.2⟩
    | second => exact ⟨(hm k b h.1 h.2).resolve_right fun hw => (nomatch hw), hmem b h.1.lt h.2⟩
  | blocked half k b gen =>
    cases half with
    | first =>
      rcases h.2.2 with hb | hb
      · exact ⟨h.1, hmem b hb.lt h.2.1, (hg k b hb h.2.1).imp_right And.right⟩
      · have hmet := (hm k b hb h.2.1).resolve_right
          (ne_true_of_eq_false waits_second_blocked_first)
        exact ⟨h.1, hmem b hb.lt h.2.1, .inr hmet⟩
    | second => exact ⟨h.1, hmem b h.2.2.lt h.2.1, hl k b h.2.2⟩
  | lead k b p =>
    exact ⟨(hm k b h.1 h.2.1).resolve_right fun hw => (nomatch hw), hmem b h.1.lt h.2.1,
      hlead k b p rfl h.2.2⟩
  | restoring b => exact hrun u h
  | done ok | panicked => trivial

theorem ThreadOk.alike {u : Nat} {p : Pc} (h : ThreadOk sh u p) (e : Alike sh sh')
    (hrun : ∀ v ∈ sh.running, v ∈ sh'.running) (habsent : p = .absent → ThreadOk sh' u p)
    (hcreating : ∀ start, p = .start (.creating start) → ThreadOk sh' u p) :
    ThreadOk sh' u p :=
  h.congr habsent hcreating hrun (fun c _ hu => e.members c ▸ hu)
    (fun _ _ hb _ => .inl (hb.alike e)) (fun _ _ hb _ => .inl (hb.alike e))
    (fun _ _ hb => hb.alike e) fun _ _ _ _ hq => hq.alike e

theorem ThreadOk.same {u : Nat} {p : Pc} (h : ThreadOk sh u p) (e : Same sh sh') :
    ThreadOk sh' u p := by
  refine h.alike e.toAlike (fun v hv => e.running ▸ hv) (fun hp => ?_) (fun start hp => ?_)
  · subst hp
    unfold ThreadOk at h ⊢
    rwa [e.vcpuids, e.spawned, e.running]
  · subst hp
    unfold ThreadOk at h ⊢
    rwa [e.vcpuids, e.running]

variable {s : State}

theorem Held.alike (h : Held s) (e : Alike s.sh sh') : Held { s with sh := sh' } :=
  ⟨e.active.trans h.active, fun k => (congrFun e.req k).trans (h.flags k), h.early⟩

theorem Placed.alike (h : Placed s k b) (e : Alike s.sh sh') :
    Placed { s with sh := sh' } k b :=
  ⟨h.held.alike e, e.snapBarrier.trans h.current, e.roundCount ▸ h.lt,
    (e.kind b).trans h.kind_eq, (e.gen b).trans h.gen_eq⟩

theorem RequestOk.alike {q : ReqPc} (h : RequestOk s q) (e : Alike s.sh sh')
    (hrun : sh'.running = s.sh.running) : RequestOk { s with sh := sh' } q := by
  refine h.congr (fun hh => hh.alike e) (fun _ _ hp => hp.alike e) (fun hz c hc => ?_) hrun
    fun _ => id
  show sh'.gen c ≠ 0
  rw [e.gen c]
  exact hz c (e.roundCount ▸ hc)

theorem RoundOk.congr (h : RoundOk s b) (hbar : (sh'.rounds b).barrier = (s.sh.rounds b).barrier)
    (hmem : sh'.members b = s.sh.members b) (hrun : sh'.running = s.sh.running)
    (hcur : sh'.snapBarrier = s.sh.snapBarrier)
    (hact : sh'.rendezvousActive = s.sh.rendezvousActive) : RoundOk { s with sh := sh' } b := by
  have hgen : sh'.gen b = s.sh.gen b := congrArg Barrier.gen hbar
  refine ⟨?_, ?_, ?_, ?_, ?_, ?_, ?_, ?_, ?_, h.leader⟩ <;>
    simp only [hgen, hbar, hmem, hrun, hcur, hact]
  · exact h.nodup
  · exact h.nonempty
  · exact h.running
  · exact h.gen_le
  · exact h.gathering
  · exact h.leaving
  · exact h.between
  · exact h.covers
  · exact h.current

theorem Inv.same (h : Inv s) (e : Same s.sh sh')
    (hbar : ∀ b, (sh'.rounds b).barrier = (s.sh.rounds b).barrier) : Inv { s with sh := sh' } where
  nodup := by
    show sh'.vcpuids.Nodup
    rw [e.vcpuids]
    exact h.nodup
  registered := by
    show ∀ t ∈ sh'.vcpuids, t ∈ sh'.running
    rw [e.vcpuids, e.running]
    exact h.registered
  rounds := fun b hb => (h.rounds b (e.roundCount ▸ hb)).congr (hbar b) (e.members b)
    e.running e.snapBarrier e.active
  flag := by
    intro k hk
    have hk' : s.sh.req k = true := (congrFun e.req k).symm.trans hk
    obtain ⟨hact, b, hcur, hlt, hkind, hgen⟩ := h.flag k hk'
    refine ⟨e.active.trans hact, b, e.snapBarrier.trans hcur, e.roundCount ▸ hlt,
      (e.kind b).trans hkind, ?_⟩
    show sh'.gen b = 0 ∨ sh'.gen b = 1 ∧ _
    rw [e.gen b]
    exact hgen
  threads := fun u => (h.threads u).same e
  requests := fun r => (h.requests r).alike e.toAlike e.running
  owner := h.owner

end

/-! ## What the invariant gives -/

section

variable {s : State}

theorem RequestOk.held {q : ReqPc} (h : RequestOk s q) (hw : q.InWindow) : Held s := by
  cases q with
  | latch k | unfreeze => exact h.1
  | install k ids => exact h.1.1
  | post b | clear k b | raise k b => exact Placed.held h
  | idle | begin k | await b => exact absurd hw id

theorem RequestOk.of_not_inWindow {q : ReqPc} (hw : ¬ q.InWindow) : RequestOk s q := by
  cases q with
  | idle | begin k | await b => trivial
  | _ => exact absurd trivial hw

variable {b t : Nat} {k : Kind}

theorem Inv.gathering_unique (h : Inv s) {c : Nat} (hb : b < s.sh.roundCount)
    (hc : c < s.sh.roundCount) (hgb : s.sh.gen b = 0) (hgc : s.sh.gen c = 0) : b = c := by
  have hcurb := ((h.rounds b hb).current hgb).1
  have hcurc := ((h.rounds c hc).current hgc).1
  exact Option.some.inj (hcurb.symm.trans hcurc)

theorem Inv.gen_ne_one (h : Inv s) (hrun : t ∈ s.sh.running) (hout : (s.pc t).Outside)
    (hgone : ¬ (s.pc t).Gone) (hb : b < s.sh.roundCount) : s.sh.gen b ≠ 1 := by
  intro hg
  have hr := h.rounds b hb
  rcases hr.covers (by omega) t hrun with hmem | hgo
  · exact hout.not_between b (hr.between hg t hmem)
  · exact hgone hgo

theorem Inv.blocked_le (h : Inv s) {half : Half} {g : Nat} (hp : s.pc t = .blocked half k b g) :
    b < s.sh.roundCount ∧ g ≤ s.sh.gen b := by
  have hok := h.threads t
  rw [hp] at hok
  cases half with
  | first =>
    obtain ⟨rfl, -, hg | hm⟩ := hok
    · exact ⟨hg.lt, Nat.zero_le _⟩
    · exact ⟨hm.lt, Nat.zero_le _⟩
  | second =>
    obtain ⟨rfl, -, hl⟩ := hok
    exact ⟨hl.lt, hl.gen_pos⟩

theorem Inv.gathers (h : Inv s) (hrun : t ∈ s.sh.running) (hout : (s.pc t).Outside)
    (hgone : ¬ (s.pc t).Gone) (hk : s.sh.req k = true) :
    ∃ b, Gathers s.sh k b ∧ t ∈ s.sh.members b := by
  obtain ⟨-, b, -, hlt, hkind, hgen⟩ := h.flag k hk
  have hne := h.gen_ne_one hrun hout hgone hlt
  have hzero : s.sh.gen b = 0 := hgen.resolve_right fun hone => hne hone.1
  refine ⟨b, ⟨hlt, hkind, hzero, hk⟩, ?_⟩
  exact ((h.rounds b hlt).covers (by omega) t hrun).resolve_right hgone

theorem Inv.not_gathering_of_current (h : Inv s) {c : Nat} (hcur : s.sh.snapBarrier = some b)
    (hgen : s.sh.gen b = 1) (hc : c < s.sh.roundCount) : s.sh.gen c ≠ 0 := by
  intro hg
  have hcc := ((h.rounds c hc).current hg).1
  have hbc : b = c := Option.some.inj (hcur.symm.trans hcc)
  rw [← hbc] at hg
  omega

theorem Inv.not_inWindow_of_flag (h : Inv s) (hk : s.sh.req k = true) (r : Nat) :
    ¬ (s.rq r).InWindow := by
  intro hw
  have := ((h.requests r).held hw).flags k
  rw [hk] at this
  cases this

theorem Inv.not_inWindow_of_early (h : Inv s) (he : (s.pc t).Early) (r : Nat) :
    ¬ (s.rq r).InWindow := fun hw => ((h.requests r).held hw).early t he

end

/-! ## Bring-up -/

section

variable {s : State} {t : Nat}

theorem alike_bringUp (sh : Shared) (running vcpuids : List Nat) (spawned : List (Nat × Start)) :
    Alike sh { sh with running := running, vcpuids := vcpuids, spawned := spawned } :=
  ⟨rfl, rfl, rfl, rfl, fun _ => rfl, fun _ => rfl, fun _ => rfl⟩

theorem Inv.register (h : Inv s) (hrun : t ∈ s.sh.running) (hnot : t ∉ s.sh.vcpuids)
    (hpc : ThreadOk { s.sh with vcpuids := s.sh.vcpuids ++ [t] } t (s.pc t)) :
    Inv { s with sh := { s.sh with vcpuids := s.sh.vcpuids ++ [t] } } where
  nodup := by
    refine nodup_append.mpr ⟨h.nodup, nodup_singleton t, fun u hu v hv huv => ?_⟩
    rw [mem_singleton.mp hv] at huv
    exact hnot (huv ▸ hu)
  registered := by
    intro u hu
    rcases mem_append.mp hu with hu | hu
    · exact h.registered u hu
    · rw [mem_singleton.mp hu]
      exact hrun
  rounds := fun b hb => (h.rounds b hb).congr rfl rfl rfl rfl rfl
  flag := h.flag
  threads := by
    intro u
    by_cases hut : u = t
    · subst hut
      exact hpc
    have hu := h.threads u
    -- the others are registered as before
    have hmem : u ∉ s.sh.vcpuids → u ∉ s.sh.vcpuids ++ [t] := fun hn hm =>
      (mem_append.mp hm).elim hn fun hm => hut (mem_singleton.mp hm)
    refine hu.alike (alike_bringUp ..) (fun _ => id) (fun hp => ?_) (fun start hp => ?_)
    · rw [hp] at hu ⊢
      exact ⟨hmem hu.1, hu.2⟩
    · rw [hp] at hu ⊢
      exact ⟨hu.1, hmem hu.2⟩
  requests := fun r => (h.requests r).alike (alike_bringUp ..) rfl
  owner := h.owner

theorem Inv.claim (h : Inv s) (target : Nat) (hrun : t ∈ s.sh.running)
    (hout : (s.pc t).Outside) (hgone : ¬ (s.pc t).Gone) (hact : s.sh.rendezvousActive = false) :
    Inv { s with sh := { s.sh with running := target :: s.sh.running } } where
  nodup := h.nodup
  registered := fun u hu => mem_cons_of_mem _ (h.registered u hu)
  rounds := by
    intro b hb
    have hr := h.rounds b hb
    have htwo : ¬ s.sh.gen b < 2 := by
      intro hlt
      have hne := h.gen_ne_one hrun hout hgone hb
      have hzero : s.sh.gen b = 0 := by omega
      have := (hr.current hzero).2
      rw [hact] at this
      cases this
    exact { hr with
      running := fun u hu => mem_cons_of_mem _ (hr.running u hu)
      covers := fun hlt => absurd hlt htwo }
  flag := h.flag
  threads := by
    intro u
    have hu := h.threads u
    have hgrow : ∀ v ∈ s.sh.running, v ∈ target :: s.sh.running :=
      fun v hv => mem_cons_of_mem _ hv
    refine hu.alike (alike_bringUp ..) hgrow (fun hp => ?_) (fun start hp => ?_)
    · rw [hp] at hu ⊢
      exact ⟨hu.1, fun start hs => hgrow u (hu.2 start hs)⟩
    · rw [hp] at hu ⊢
      exact ⟨hgrow u hu.1, hu.2⟩
  requests := by
    intro r
    by_cases hw : (s.rq r).InWindow
    · have := ((h.requests r).held hw).active
      rw [hact] at this
      cases this
    · exact .of_not_inWindow hw
  owner := h.owner

theorem Inv.spawn (h : Inv s) {target : Nat} (start : Start) (hrun : target ∈ s.sh.running) :
    Inv { s with sh := { s.sh with spawned := s.sh.spawned ++ [(target, start)] } } where
  nodup := h.nodup
  registered := h.registered
  rounds := fun b hb => (h.rounds b hb).congr rfl rfl rfl rfl rfl
  flag := h.flag
  threads := by
    intro u
    have hu := h.threads u
    refine hu.alike (alike_bringUp ..) (fun _ => id) (fun hp => ?_) (fun start hp => ?_)
    · rw [hp] at hu ⊢
      refine ⟨hu.1, fun start' hs => ?_⟩
      by_cases hut : u = target
      · rw [hut]
        exact hrun
      -- the new entry is not this vCPU's
      rw [lookup_append, lookup_cons, beq_false_of_ne hut, lookup_nil,
        Option.or_none] at hs
      exact hu.2 start' hs
    · rw [hp] at hu ⊢
      exact hu
  requests := fun r => (h.requests r).alike (alike_bringUp ..) rfl
  owner := h.owner

end

end Ignition.Vmm.Rendezvous
