import Ignition.Vmm.RendezvousRun

/-!
# What a rendezvous does for its request

`Inv` says where everybody is. `Serve` says what has been done by then: whose request is in
the slot the leader takes, who has pushed a state, which handler calls were made for a barrier
and with what, and what the requester was told. The slot and the collection are shared by all
requests, so each clause is about the one party that holds the rendezvous at the time: nobody
(`Serve.idle`), a requester (`RequestServe`), the members that gather (`Serve.gathering`), or
the leader (`LeadServe`); a barrier that has been through all of them keeps its record
(`RoundServe.served`).

With `strict` it is about runs in which no vCPU fails to save its state; then every barrier
that opens has had its one handler call.
-/

namespace Ignition.Vmm.Rendezvous

open Parties Runs Ignition.Hvf List Function

/-! ## The clauses -/

def Kind.slot (k : Kind) (b : Nat) : Option Nat :=
  match k with
  | .snapshot => some b
  | _ => none

/-- The thread has pushed its state for barrier `b`. -/
def Pc.pushed (b : Nat) : Pc → Bool
  | .fetch k => decide (k ≠ .reset)
  | .arrive .first k b' => decide (k ≠ .reset ∧ b' = b)
  | .blocked .first k b' _ => decide (k ≠ .reset ∧ b' = b)
  | _ => false

namespace Round

/-- Nothing has been done for the request. -/
structure Fresh (r : Round) : Prop where
  calls : r.calls = []
  outcome : r.outcome = none
  sent : r.sent = none
  returned : r.returned = none

/-- The leader has ended with `ok`: after one handler call or, if a save failed, after none. -/
def Ended (strict : Prop) (r : Round) (ok : Bool) : Prop :=
  r.calls.length = 1 ∧ r.outcome = some ok ∨ ¬ strict ∧ r.calls = [] ∧ ok = false

def Served (strict : Prop) (r : Round) : Prop :=
  ∃ ok, r.Ended strict ok ∧ r.sent = if r.kind = .snapshot then some ok else none

/-- The two differ at most in the state of the barrier and in who has restored. -/
structure Kin (r r' : Round) : Prop where
  kind : r'.kind = r.kind
  members : r'.members = r.members
  sent : r'.sent = r.sent
  calls : r'.calls = r.calls
  outcome : r'.outcome = r.outcome
  returned : r'.returned = r.returned

variable {strict : Prop} {r r' : Round}

theorem Kin.refl (r : Round) : Kin r r := ⟨rfl, rfl, rfl, rfl, rfl, rfl⟩

theorem Fresh.kin (h : r.Fresh) (e : Kin r r') : r'.Fresh :=
  ⟨e.calls.trans h.calls, e.outcome.trans h.outcome, e.sent.trans h.sent,
    e.returned.trans h.returned⟩

theorem Ended.kin {ok : Bool} (h : r.Ended strict ok) (e : Kin r r') : r'.Ended strict ok := by
  unfold Ended
  rw [e.calls, e.outcome]
  exact h

theorem Served.kin (h : r.Served strict) (e : Kin r r') : r'.Served strict := by
  obtain ⟨ok, hended, hsent⟩ := h
  refine ⟨ok, hended.kin e, ?_⟩
  rw [e.sent, e.kind]
  exact hsent

end Round

/-- What a leader has done at each stage. -/
def LeadServe (strict : Prop) (sh : Shared) (k : Kind) (b : Nat) : LeadPc → Prop
  | .take => (sh.rounds b).Fresh ∧ sh.snapshotRequest = k.slot b ∧ k ≠ .reset ∧
      (sh.collected.map Prod.fst).Perm (sh.members b) ∧
      (strict → ∀ item ∈ sh.collected, item.2 ≠ none)
  | .slot res => (sh.rounds b).Fresh ∧ sh.snapshotRequest = k.slot b ∧
      (∀ cps, res = some cps → Complete cps (sh.members b)) ∧ (strict → res ≠ none)
  | .handler cps slot => slot = k.slot b ∧ sh.snapshotRequest = none ∧
      (sh.rounds b).calls = [cps] ∧ (sh.rounds b).sent = none ∧ (sh.rounds b).returned = none
  | .clear ok slot => slot = k.slot b ∧ sh.snapshotRequest = none ∧
      (sh.rounds b).Ended strict ok ∧ (sh.rounds b).sent = none ∧ (sh.rounds b).returned = none
  | .release ok slot => slot = k.slot b ∧ sh.snapshotRequest = none ∧
      (sh.rounds b).Ended strict ok ∧ (sh.rounds b).sent = none ∧ (sh.rounds b).returned = none
  | .send ok slot => slot = k.slot b ∧
      (sh.rounds b).Ended strict ok ∧ (sh.rounds b).sent = none ∧ (sh.rounds b).returned = none

def PcServe (strict : Prop) (sh : Shared) : Pc → Prop
  | .lead k b q => LeadServe strict sh k b q
  | _ => True

def RequestServe (sh : Shared) : ReqPc → Prop
  | .latch _ | .unfreeze | .install _ _ | .post _ => sh.snapshotRequest = none
  | .clear k b => sh.snapshotRequest = k.slot b
  | .raise k b => sh.snapshotRequest = k.slot b ∧ (k ≠ .reset → sh.collected = [])
  | .await b => b < sh.roundCount ∧ (sh.rounds b).kind = .snapshot
  | _ => True

/-- Exactly the threads that have pushed are in the collection, each once. -/
structure Collects (strict : Prop) (s : State) (b : Nat) : Prop where
  nodup : (s.sh.collected.map Prod.fst).Nodup
  mem : ∀ t, t ∈ s.sh.collected.map Prod.fst ↔ (s.pc t).pushed b = true
  saved : strict → ∀ item ∈ s.sh.collected, item.2 ≠ none

/-- The record of one barrier. -/
structure RoundServe (strict : Prop) (s : State) (b : Nat) : Prop where
  fresh : s.sh.gen b = 0 → (s.sh.rounds b).Fresh
  served : s.sh.gen b ≠ 0 → (∀ t, ¬ (s.pc t).Leads b) → (s.sh.rounds b).Served strict
  whole : (s.sh.rounds b).kind ≠ .reset →
    ∀ cps ∈ (s.sh.rounds b).calls, Complete cps (s.sh.members b)
  returned : ∀ ok, (s.sh.rounds b).returned = some ok → (s.sh.rounds b).sent = some ok

structure Serve (strict : Prop) (s : State) : Prop where
  idle : s.sh.rendezvousActive = false → s.sh.snapshotRequest = none
  gathering : ∀ k b, Gathers s.sh k b →
    s.sh.snapshotRequest = k.slot b ∧ (k ≠ .reset → Collects strict s b)
  threads : ∀ t, PcServe strict s.sh (s.pc t)
  requests : ∀ r, RequestServe s.sh (s.rq r)
  rounds : ∀ b < s.sh.roundCount, RoundServe strict s b

/-! ## Steps that no clause depends on -/

/-- The two agree on what has been done. -/
structure Records (sh sh' : Shared) : Prop where
  roundCount : sh'.roundCount = sh.roundCount
  snapshotRequest : sh'.snapshotRequest = sh.snapshotRequest
  collected : sh'.collected = sh.collected
  rounds : ∀ b, (sh.rounds b).Kin (sh'.rounds b)

/-- The two agree on the rendezvous as well. -/
structure Kept (sh sh' : Shared) : Prop extends Records sh sh' where
  req : sh'.req = sh.req
  active : sh'.rendezvousActive = sh.rendezvousActive
  gen : ∀ b, sh'.gen b = sh.gen b

section

variable {strict : Prop} {sh sh' : Shared}

theorem kept_local (sh : Shared) (running vcpuids : List Nat) (spawned : List (Nat × Start))
    (threads : List Nat) (shutdown : Bool) (startBarrier : Barrier) (gicRestores : Nat)
    (startFailed : Bool) (x0 : Nat → Nat) (calls : List Call) :
    Kept sh { sh with
      running := running, vcpuids := vcpuids, spawned := spawned, threads := threads
      shutdown := shutdown, startBarrier := startBarrier, gicRestores := gicRestores
      startFailed := startFailed, x0 := x0, calls := calls } :=
  ⟨⟨rfl, rfl, rfl, fun _ => .refl _⟩, rfl, rfl, fun _ => rfl⟩

theorem Records.setRound {b : Nat} {r : Round} (h : (sh.rounds b).Kin r) :
    Records sh (sh.setRound b r) := by
  refine ⟨rfl, rfl, rfl, fun c => ?_⟩
  by_cases hc : c = b
  · subst hc
    rw [setRound_self]
    exact h
  · rw [setRound_ne hc]
    exact .refl _

theorem gen_setRound {b : Nat} {r : Round} (h : r.barrier.gen = sh.gen b) (c : Nat) :
    (sh.setRound b r).gen c = sh.gen c := by
  unfold Shared.gen
  by_cases hc : c = b
  · subst hc
    rw [setRound_self]
    exact h
  · rw [setRound_ne hc]

theorem setRound_rounds (sh : Shared) (b : Nat) : sh.setRound b (sh.rounds b) = sh := by
  unfold Shared.setRound
  rw [update_eq_self]

theorem Kept.setRound {b : Nat} {r : Round} (h : (sh.rounds b).Kin r)
    (hg : r.barrier.gen = sh.gen b) : Kept sh (sh.setRound b r) :=
  ⟨.setRound h, rfl, rfl, gen_setRound hg⟩

theorem Gathers.of_kept {k : Kind} {b : Nat} (h : Gathers sh' k b) (e : Kept sh sh') :
    Gathers sh k b :=
  ⟨e.roundCount ▸ h.lt, (e.rounds b).kind ▸ h.kind_eq, (e.gen b).symm.trans h.gen_eq,
    e.req ▸ h.flag⟩

theorem PcServe.congr {p : Pc} (h : PcServe strict sh p)
    (hrec : ∀ b, p.Leads b → (sh.rounds b).Kin (sh'.rounds b))
    (hearly : p.Early →
      sh'.snapshotRequest = sh.snapshotRequest ∧ sh'.collected = sh.collected) :
    PcServe strict sh' p := by
  cases p with
  | lead k b q =>
    have er : (sh.rounds b).Kin (sh'.rounds b) := hrec b rfl
    cases q with
    | take =>
      obtain ⟨hfresh, hslot, hk, hperm, hsaved⟩ := h
      obtain ⟨hreq, hcol⟩ := hearly rfl
      refine ⟨hfresh.kin er, hreq.trans hslot, hk, ?_, ?_⟩
      · show (sh'.collected.map Prod.fst).Perm (sh'.rounds b).members
        rw [hcol, er.members]
        exact hperm
      · rw [hcol]
        exact hsaved
    | slot res =>
      obtain ⟨hfresh, hslot, hcps, hres⟩ := h
      refine ⟨hfresh.kin er, (hearly rfl).1.trans hslot, fun cps hc => ?_, hres⟩
      show Complete cps (sh'.rounds b).members
      rw [er.members]
      exact hcps cps hc
    | handler cps slot =>
      obtain ⟨hslot, hreq, hcalls, hsent, hret⟩ := h
      exact ⟨hslot, (hearly rfl).1.trans hreq, er.calls.trans hcalls, er.sent.trans hsent,
        er.returned.trans hret⟩
    | clear ok slot | release ok slot =>
      obtain ⟨hslot, hreq, hended, hsent, hret⟩ := h
      exact ⟨hslot, (hearly rfl).1.trans hreq, hended.kin er, er.sent.trans hsent,
        er.returned.trans hret⟩
    | send ok slot =>
      obtain ⟨hslot, hended, hsent, hret⟩ := h
      exact ⟨hslot, hended.kin er, er.sent.trans hsent, er.returned.trans hret⟩
  | _ => trivial

theorem PcServe.records {p : Pc} (h : PcServe strict sh p) (e : Records sh sh') :
    PcServe strict sh' p :=
  h.congr (fun b _ => e.rounds b) fun _ => ⟨e.snapshotRequest, e.collected⟩

theorem RequestServe.records {q : ReqPc} (h : RequestServe sh q) (e : Records sh sh') :
    RequestServe sh' q := by
  cases q with
  | latch k | unfreeze | install k ids | post b | clear k b => exact e.snapshotRequest.trans h
  | raise k b => exact ⟨e.snapshotRequest.trans h.1, fun hk => e.collected.trans (h.2 hk)⟩
  | await b => exact ⟨e.roundCount ▸ h.1, (e.rounds b).kind.trans h.2⟩
  | idle | begin k => trivial

theorem RequestServe.late {q : ReqPc} (h : RequestServe sh q) (hw : ¬ q.InWindow)
    (hcount : sh.roundCount ≤ sh'.roundCount)
    (hkind : ∀ b < sh.roundCount, (sh'.rounds b).kind = (sh.rounds b).kind) :
    RequestServe sh' q := by
  cases q with
  | await b => exact ⟨Nat.lt_of_lt_of_le h.1 hcount, (hkind b h.1).trans h.2⟩
  | idle | begin k => trivial
  | _ => exact absurd trivial hw

end

section

variable {strict : Prop} {s : State} {t : Nat} {sh' : Shared} {p' : Pc}

theorem RoundServe.records {b : Nat} (h : RoundServe strict s b)
    (er : (s.sh.rounds b).Kin (sh'.rounds b)) (hgen : sh'.gen b = 0 ↔ s.sh.gen b = 0)
    {pc' : Nat → Pc} (hleads : ∀ u, (s.pc u).Leads b → (pc' u).Leads b) :
    RoundServe strict { s with sh := sh', pc := pc' } b where
  fresh := fun hg => (h.fresh (hgen.mp hg)).kin er
  served := fun hg hno =>
    (h.served (fun hz => hg (hgen.mpr hz)) fun u hu => hno u (hleads u hu)).kin er
  whole := by
    intro hk
    show ∀ cps ∈ (sh'.rounds b).calls, Complete cps (sh'.rounds b).members
    rw [er.calls, er.members]
    exact h.whole fun hh => hk (er.kind.trans hh)
  returned := fun ok hok => er.sent.trans (h.returned ok (er.returned.symm.trans hok))

theorem Collects.congr {b : Nat} {pc' : Nat → Pc} (h : Collects strict s b)
    (hcol : sh'.collected = s.sh.collected) (hpush : ∀ u, (pc' u).pushed b = (s.pc u).pushed b) :
    Collects strict { s with sh := sh', pc := pc' } b := by
  refine ⟨?_, fun u => ?_, ?_⟩
  · show (sh'.collected.map Prod.fst).Nodup
    rw [hcol]
    exact h.nodup
  · show u ∈ sh'.collected.map Prod.fst ↔ (pc' u).pushed b = true
    rw [hcol, hpush u]
    exact h.mem u
  · show strict → ∀ item ∈ sh'.collected, item.2 ≠ none
    rw [hcol]
    exact h.saved

theorem Serve.go (h : Serve strict s) (e : Kept s.sh sh')
    (hpush : ∀ k b, Gathers s.sh k b → k ≠ .reset → p'.pushed b = (s.pc t).pushed b)
    (hlead : ∀ b, (s.pc t).Leads b → p'.Leads b) (hserve : PcServe strict s.sh p') :
    Serve strict { s with sh := sh', pc := update s.pc t p' } where
  idle := fun hact => e.snapshotRequest.trans (h.idle (e.active ▸ hact))
  gathering := by
    intro k b hg
    have hg' : Gathers s.sh k b := Gathers.of_kept hg e
    obtain ⟨hslot, hcol⟩ := h.gathering k b hg'
    refine ⟨e.snapshotRequest.trans hslot, fun hk => (hcol hk).congr e.collected ?_⟩
    exact update_rel (R := fun p q => q.pushed b = p.pushed b) (fun _ => rfl) (hpush k b hg' hk)
  threads := forall_update (fun u => (h.threads u).records e.toRecords)
    (hserve.records e.toRecords)
  requests := fun r => (h.requests r).records e.toRecords
  rounds := fun b hb => (h.rounds b (e.roundCount ▸ hb)).records (e.rounds b)
    (by rw [e.gen b]) (leads_update (hlead b))

theorem Serve.outside (h : Serve strict s) (e : Kept s.sh sh') (hout : (s.pc t).Outside)
    (hout' : p'.Outside) (hpush : ∀ b, p'.pushed b = (s.pc t).pushed b) :
    Serve strict { s with sh := sh', pc := update s.pc t p' } := by
  refine h.go e (fun _ b _ _ => hpush b) (fun b hl => absurd hl (hout.not_leads b)) ?_
  cases p' with
  | lead k b q => exact absurd hout' id
  | _ => trivial

end

/-! ## Gathering -/

section

variable {strict : Prop} {s : State} {t b : Nat} {k : Kind}

theorem Inv.not_early_of_gathers (h : Inv s) (hg : Gathers s.sh k b) (u : Nat) :
    ¬ (s.pc u).Early := by
  intro he
  obtain ⟨c, hc, hl⟩ := h.leads_of_early he
  obtain rfl : c = b :=
    Option.some.inj (hc.symm.trans ((h.rounds b hg.lt).current hg.gen_eq).1)
  obtain ⟨⟨_, hm⟩, -⟩ := h.met_of_leads hl
  exact absurd (hm.gen_eq.symm.trans hg.gen_eq) Nat.one_ne_zero

theorem Inv.gathers_unique (h : Inv s) {k' : Kind} {c : Nat} (hg : Gathers s.sh k b)
    (hg' : Gathers s.sh k' c) : k' = k ∧ c = b := by
  obtain rfl := h.gathering_unique hg'.lt hg.lt hg'.gen_eq hg.gen_eq
  exact ⟨hg'.kind_eq.symm.trans hg.kind_eq, rfl⟩

theorem Serve.push (h : Serve strict s) (hinv : Inv s) (hp : s.pc t = .push k)
    {state : Option VcpuState} (hstate : strict → state ≠ none) :
    Serve strict { s with
      sh := { s.sh with collected := s.sh.collected ++ [(t, state)] }
      pc := update s.pc t (.fetch k) } := by
  have hok := hinv.threads t
  rw [hp] at hok
  obtain ⟨b, hg, hmem⟩ := hok
  have hleads : ∀ c, (s.pc t).Leads c → (Pc.fetch k).Leads c := by
    rw [hp]
    exact fun c => id
  refine ⟨h.idle, fun k' c hg' => ?_, ?_, fun r => ?_, fun c hc => ?_⟩
  · replace hg' : Gathers s.sh k' c := ⟨hg'.lt, hg'.kind_eq, hg'.gen_eq, hg'.flag⟩
    obtain ⟨rfl, rfl⟩ := hinv.gathers_unique hg hg'
    obtain ⟨hslot, hcol⟩ := h.gathering k' c hg'
    refine ⟨hslot, fun hk => ?_⟩
    have hcol := hcol hk
    have hnew : t ∉ s.sh.collected.map Prod.fst := by
      rw [hcol.mem t, hp]
      exact Bool.false_ne_true
    refine ⟨?_, fun u => ?_, fun hs item hitem => ?_⟩
    · show ((s.sh.collected ++ [(t, state)]).map Prod.fst).Nodup
      rw [map_append]
      refine nodup_append.mpr ⟨hcol.nodup, nodup_singleton t, fun u hu v hv huv => ?_⟩
      obtain rfl : u = t := huv.trans (mem_singleton.mp hv)
      exact hnew hu
    · show u ∈ (s.sh.collected ++ [(t, state)]).map Prod.fst ↔
        (update s.pc t (.fetch k') u).pushed c = true
      rw [map_append, mem_append, hcol.mem u]
      by_cases hut : u = t
      · subst hut
        rw [update_self]
        exact ⟨fun _ => decide_eq_true hk, fun _ => .inr mem_cons_self⟩
      · rw [update_of_ne hut]
        exact ⟨fun hh => hh.resolve_right fun hm => hut (mem_singleton.mp hm), .inl⟩
    · rcases mem_append.mp hitem with hitem | hitem
      · exact hcol.saved hs item hitem
      · rw [mem_singleton.mp hitem]
        exact hstate hs
  · exact forall_update (fun u => (h.threads u).congr (fun _ _ => .refl _)
      fun he => absurd he (hinv.not_early_of_gathers hg u)) trivial
  · exact (h.requests r).late (hinv.not_inWindow_of_flag hg.flag r) le_rfl fun _ _ => rfl
  · refine (h.rounds c hc).records ?_ ?_ ?_
    · exact .refl _
    · exact Iff.rfl
    · exact leads_update (hleads c)

theorem Collects.perm (h : Collects strict s b) (hinv : Inv s) (hg : Gathers s.sh k b)
    (hall : ∀ u ∈ s.sh.members b, (s.pc u).pushed b = true) :
    (s.sh.collected.map Prod.fst).Perm (s.sh.members b) := by
  refine (perm_ext_iff_of_nodup h.nodup (hinv.rounds b hg.lt).nodup).mpr fun u => ?_
  rw [h.mem u]
  refine ⟨fun hp => ?_, hall u⟩
  -- only members push
  have hok := hinv.threads u
  cases hpu : s.pc u with
  | fetch k' =>
    rw [hpu] at hok
    obtain ⟨c, hg', hmem⟩ := hok
    obtain ⟨-, rfl⟩ := hinv.gathers_unique hg hg'
    exact hmem
  | arrive half k' c =>
    rw [hpu] at hok hp
    cases half with
    | first =>
      obtain ⟨-, rfl⟩ := of_decide_eq_true hp
      exact hok.2
    | second => cases hp
  | blocked half k' c g =>
    rw [hpu] at hok hp
    cases half with
    | first =>
      obtain ⟨-, rfl⟩ := of_decide_eq_true hp
      exact hok.2.1
    | second => cases hp
  | _ =>
    rw [hpu] at hp
    cases hp

theorem kin_flipped (r : Round) : r.Kin r.flipped := ⟨rfl, rfl, rfl, rfl, rfl, rfl⟩

theorem Serve.flip_first (h : Serve strict s) (hinv : Inv s) (hp : s.pc t = .arrive .first k b)
    {r : Round} (hgen : r.barrier.gen = s.sh.gen b + 1) (hkind : r.kind = k) {q : LeadPc}
    (hq : LeadServe strict (s.sh.setRound b r) k b q) (hwhole : k ≠ .reset → r.calls = [])
    (hret : r.returned = none) :
    Serve strict { s with
      sh := s.sh.setRound b r
      pc := update s.pc t (.lead k b q) } := by
  have hok := hinv.threads t
  rw [hp] at hok
  obtain ⟨hg, hmem⟩ := hok
  have hsame : ∀ c, c ≠ b → (s.sh.setRound b r).rounds c = s.sh.rounds c :=
    fun c hc => setRound_ne hc r
  have hpos : (s.sh.setRound b r).gen b ≠ 0 := by
    unfold Shared.gen
    rw [setRound_self, hgen]
    exact Nat.succ_ne_zero _
  refine ⟨h.idle, fun k' c hg' => ?_, ?_, fun r' => ?_, fun c hc => ?_⟩
  · -- nobody gathers any more
    have hcb : c ≠ b := fun hcb => hpos (hcb ▸ hg'.gen_eq)
    have hold : Gathers s.sh k' c :=
      ⟨hg'.lt, hsame c hcb ▸ hg'.kind_eq, (gen_setRound_ne hcb).symm.trans hg'.gen_eq, hg'.flag⟩
    exact absurd (hinv.gathers_unique hg hold).2 hcb
  · refine forall_update_ne hq fun u _ => (h.threads u).congr (fun c hl => ?_) fun he =>
      absurd he (hinv.not_early_of_gathers hg u)
    have hcb : c ≠ b := by
      rintro rfl
      obtain ⟨⟨_, hm⟩, -⟩ := hinv.met_of_leads hl
      exact absurd (hm.gen_eq.symm.trans hg.gen_eq) Nat.one_ne_zero
    rw [hsame c hcb]
    exact .refl _
  · refine (h.requests r').late (hinv.not_inWindow_of_flag hg.flag r') le_rfl fun c _ => ?_
    by_cases hcb : c = b
    · rw [hcb, setRound_self]
      exact hkind.trans hg.kind_eq.symm
    · rw [hsame c hcb]
  · by_cases hcb : c = b
    · subst hcb
      refine ⟨fun hz => absurd hz hpos, fun _ hno => absurd ?_ (hno t), fun hk => ?_,
        fun ok hok => ?_⟩
      · show (update s.pc t (.lead k c q) t).Leads c
        rw [update_self]
        exact rfl
      · simp only [setRound_self] at hk ⊢
        rw [hwhole (hkind ▸ hk)]
        exact fun cps hcps => nomatch hcps
      · simp only [setRound_self, hret] at hok
        cases hok
    · refine (h.rounds c hc).records ?_ ?_ ?_
      · rw [hsame c hcb]
        exact .refl _
      · rw [gen_setRound_ne hcb]
      · refine leads_update ?_
        rw [hp]
        exact fun hl => absurd hl id

theorem Serve.lead (h : Serve strict s) (hinv : Inv s) (hp : s.pc t = .arrive .first k b)
    (hlast : ¬ (s.sh.rounds b).barrier.count + 1 < (s.sh.rounds b).barrier.size) :
    Serve strict { s with
      sh := (leadOf (s.sh.setRound b (s.sh.rounds b).flipped) k b).1
      pc := update s.pc t (leadOf (s.sh.setRound b (s.sh.rounds b).flipped) k b).2 } := by
  have hok := hinv.threads t
  rw [hp] at hok
  obtain ⟨hg, hmem⟩ := hok
  obtain ⟨hslot, hcol⟩ := h.gathering k b hg
  have hfresh := (h.rounds b hg.lt).fresh hg.gen_eq
  by_cases hk : k = .reset
  · subst hk
    have hround : (s.sh.setRound b (s.sh.rounds b).flipped).setRound b
        { (s.sh.setRound b (s.sh.rounds b).flipped).rounds b with
          calls := ((s.sh.setRound b (s.sh.rounds b).flipped).rounds b).calls ++ [[]] } =
        s.sh.setRound b { (s.sh.rounds b).flipped with
          calls := (s.sh.rounds b).calls ++ [[]] } := by
      rw [setRound_self]
      unfold Shared.setRound
      rw [update_idem]
      rfl
    have hcalls : (s.sh.rounds b).calls ++ [[]] = [([] : List VcpuCheckpoint)] := by
      rw [hfresh.calls, nil_append]
    unfold leadOf
    dsimp only
    rw [hround]
    refine h.flip_first hinv hp (r := { (s.sh.rounds b).flipped with
      calls := (s.sh.rounds b).calls ++ [[]] }) (q := .handler [] none) rfl hg.kind_eq
      ⟨rfl, hslot, ?_⟩ (fun hh => absurd rfl hh) hfresh.returned
    rw [setRound_self]
    exact ⟨hcalls, hfresh.sent, hfresh.returned⟩
  · have hlead : leadOf (s.sh.setRound b (s.sh.rounds b).flipped) k b =
        (s.sh.setRound b (s.sh.rounds b).flipped, .lead k b .take) := by
      cases k with
      | reset => exact absurd rfl hk
      | snapshot | checkpoint => rfl
    rw [hlead]
    have hcol := hcol hk
    -- all the others wait at the barrier, and the last one is there
    have hall : ∀ u ∈ s.sh.members b, (s.pc u).pushed b = true := by
      intro u hu
      by_cases hut : u = t
      · rw [hut, hp]
        exact decide_eq_true ⟨hk, rfl⟩
      have hw := ((hinv.rounds b hg.lt).gathering hg.gen_eq).last hmem (by rw [hp]; rfl) hlast
        hu hut
      obtain ⟨k', g, hpu⟩ := eq_of_waits hw
      have hoku := hinv.threads u
      rw [hpu] at hoku
      have hkk : k' = k := by
        rcases hoku.2.2 with hgu | hmu
        · exact hgu.kind_eq.symm.trans hg.kind_eq
        · exact hmu.kind_eq.symm.trans hg.kind_eq
      rw [hpu, hkk]
      exact decide_eq_true ⟨hk, rfl⟩
    refine h.flip_first hinv hp (r := (s.sh.rounds b).flipped) (q := .take) rfl hg.kind_eq
      ⟨?_, hslot, hk, ?_, hcol.saved⟩ (fun _ => hfresh.calls) hfresh.returned
    · rw [setRound_self]
      exact hfresh.kin (kin_flipped _)
    · unfold Shared.members
      rw [setRound_self]
      exact hcol.perm hinv hg hall

theorem Serve.flip_second (h : Serve strict s) (hinv : Inv s)
    (hp : s.pc t = .arrive .second k b) :
    Serve strict { s with
      sh := s.sh.setRound b (s.sh.rounds b).flipped
      pc := update s.pc t (afterSecond k b) } := by
  have hok := hinv.threads t
  rw [hp] at hok
  obtain ⟨hm, -⟩ := hok
  have e : Records s.sh (s.sh.setRound b (s.sh.rounds b).flipped) := .setRound (kin_flipped _)
  have hgen : ∀ c, (s.sh.setRound b (s.sh.rounds b).flipped).gen c = 0 ↔ s.sh.gen c = 0 := by
    intro c
    by_cases hcb : c = b
    · subst hcb
      have hone : (s.sh.rounds c).barrier.gen = 1 := hm.gen_eq
      unfold Shared.gen
      rw [setRound_self]
      simp only [Round.flipped]
      omega
    · rw [gen_setRound_ne hcb]
  have hpushed : ∀ c, (afterSecond k b).pushed c = (s.pc t).pushed c := by
    intro c
    rw [hp]
    cases k <;> rfl
  refine ⟨h.idle, fun k' c hg' => ?_, ?_, fun r => (h.requests r).records e, fun c hc => ?_⟩
  · have hold : Gathers s.sh k' c :=
      ⟨hg'.lt, (e.rounds c).kind.symm.trans hg'.kind_eq, (hgen c).mp hg'.gen_eq, hg'.flag⟩
    obtain ⟨hslot, hcol⟩ := h.gathering k' c hold
    refine ⟨hslot, fun hk => (hcol hk).congr rfl ?_⟩
    exact update_rel (R := fun p q => q.pushed c = p.pushed c) (fun _ => rfl) (hpushed c)
  · refine forall_update (fun u => (h.threads u).records e) ?_
    cases k <;> trivial
  · refine (h.rounds c hc).records (e.rounds c) (hgen c) ?_
    refine leads_update ?_
    rw [hp]
    exact fun hl => absurd hl id

end

/-! ## The leader -/

section

variable {strict : Prop} {s : State} {t b : Nat} {k : Kind}

theorem Serve.leadGo {sh' : Shared} {q q' : LeadPc} (h : Serve strict s) (hinv : Inv s)
    (hp : s.pc t = .lead k b q) (hearly : q.early = true)
    (hcount : sh'.roundCount = s.sh.roundCount) (hgen : ∀ c, sh'.gen c = s.sh.gen c)
    (hsame : ∀ c, c ≠ b → sh'.rounds c = s.sh.rounds c)
    (hkind : (sh'.rounds b).kind = (s.sh.rounds b).kind)
    (hidle : sh'.rendezvousActive = false → sh'.snapshotRequest = none)
    (hwhole : (sh'.rounds b).kind ≠ .reset →
      ∀ cps ∈ (sh'.rounds b).calls, Complete cps (sh'.members b))
    (hret : (sh'.rounds b).returned = none) (hq : LeadServe strict sh' k b q') :
    Serve strict { s with sh := sh', pc := update s.pc t (.lead k b q') } := by
  have hok := hinv.threads t
  rw [hp] at hok
  obtain ⟨hmet, hmem, -⟩ := hok
  have het : (s.pc t).Early := by
    rw [hp]
    exact hearly
  obtain ⟨c, hcur, hl⟩ := hinv.leads_of_early het
  rw [hp] at hl
  obtain rfl : b = c := hl
  refine ⟨hidle, fun k' c hg' => ?_, ?_, fun r => ?_, fun c hc => ?_⟩
  · exact absurd ((hgen c).symm.trans hg'.gen_eq)
      (hinv.not_gathering_of_current hcur hmet.gen_eq (hcount ▸ hg'.lt))
  · refine forall_update_ne hq fun u hut => (h.threads u).congr (fun c hl => ?_) fun he =>
      absurd (hinv.early_unique hp hcur he) hut
    have hcb : c ≠ b := by
      rintro rfl
      refine hut ((hinv.rounds c hmet.lt).leader u t hl ?_)
      rw [hp]
      exact rfl
    rw [hsame c hcb]
    exact .refl _
  · refine (h.requests r).late (hinv.not_inWindow_of_early het r) (Nat.le_of_eq hcount.symm)
      fun c _ => ?_
    by_cases hcb : c = b
    · rw [hcb]
      exact hkind
    · rw [hsame c hcb]
  · by_cases hcb : c = b
    · subst hcb
      refine ⟨fun hz => ?_, fun _ hno => absurd ?_ (hno t), hwhole, fun ok hok => ?_⟩
      · exact absurd (hmet.gen_eq.symm.trans ((hgen c).symm.trans hz)) Nat.one_ne_zero
      · show (update s.pc t (.lead k c q') t).Leads c
        rw [update_self]
        exact rfl
      · exact absurd (hret.symm.trans hok) (fun hh => nomatch hh)
    · refine (h.rounds c (hcount ▸ hc)).records ?_ ?_ ?_
      · rw [hsame c hcb]
        exact .refl _
      · rw [hgen c]
      · refine leads_update ?_
        rw [hp]
        exact id

theorem Round.Ended.told {r : Round} {ok : Bool} (h : r.Ended strict ok) :
    Round.Served strict { r with sent := if r.kind = .snapshot then some ok else none } :=
  ⟨ok, h, rfl⟩

theorem Serve.sent (h : Serve strict s) (hinv : Inv s) {ok : Bool} {slot : Option Nat}
    (hp : s.pc t = .lead k b (.send ok slot)) {r : Round}
    (hr : r = { s.sh.rounds b with sent := if k = .snapshot then some ok else none }) :
    Serve strict { s with
      sh := s.sh.setRound b r
      pc := update s.pc t (.arrive .second k b) } := by
  have hok := hinv.threads t
  have hserve := h.threads t
  rw [hp] at hok hserve
  obtain ⟨hmet, hmem, -⟩ := hok
  obtain ⟨-, hended, hsent, hret⟩ := hserve
  have hgen : ∀ c, (s.sh.setRound b r).gen c = s.sh.gen c :=
    gen_setRound (by rw [hr])
  have hsame : ∀ c, c ≠ b → (s.sh.setRound b r).rounds c = s.sh.rounds c :=
    fun c hc => setRound_ne hc r
  have hkind : ∀ c, ((s.sh.setRound b r).rounds c).kind = (s.sh.rounds c).kind := by
    intro c
    by_cases hcb : c = b
    · rw [hcb, setRound_self, hr]
    · rw [hsame c hcb]
  -- the only leader of this barrier is leaving
  have hlead : ∀ u, u ≠ t → ∀ c, (s.pc u).Leads c → c ≠ b := by
    rintro u hut c hl rfl
    refine hut ((hinv.rounds c hmet.lt).leader u t hl ?_)
    rw [hp]
    exact rfl
  refine ⟨h.idle, fun k' c hg' => ?_, ?_, fun r' => ?_, fun c hc => ?_⟩
  · have hold : Gathers s.sh k' c :=
      ⟨hg'.lt, (hkind c).symm.trans hg'.kind_eq, (hgen c).symm.trans hg'.gen_eq, hg'.flag⟩
    obtain ⟨hslot, hcol⟩ := h.gathering k' c hold
    refine ⟨hslot, fun hk => (hcol hk).congr rfl ?_⟩
    refine update_rel (R := fun p q => q.pushed c = p.pushed c) (fun _ => rfl) ?_
    rw [hp]
    rfl
  · refine forall_update_ne trivial fun u hut =>
      (h.threads u).congr (fun c hl => ?_) fun _ => ⟨rfl, rfl⟩
    rw [hsame c (hlead u hut c hl)]
    exact .refl _
  · have hreq := h.requests r'
    cases hq : s.rq r' with
    | await c =>
      rw [hq] at hreq
      exact ⟨hreq.1, (hkind c).trans hreq.2⟩
    | _ =>
      rw [hq] at hreq
      exact hreq
  · by_cases hcb : c = b
    · subst hcb
      have hone : s.sh.gen c = 1 := hmet.gen_eq
      refine ⟨fun hz => ?_, fun _ _ => ?_, ?_, fun ok' hok' => ?_⟩
      · exact absurd (hone.symm.trans ((hgen c).symm.trans hz)) Nat.one_ne_zero
      · show ((s.sh.setRound c r).rounds c).Served strict
        rw [setRound_self, hr, ← hmet.kind_eq]
        exact hended.told
      · simp only [Shared.members, setRound_self, hr]
        exact (h.rounds c hc).whole
      · simp only [setRound_self, hr, hret] at hok'
        cases hok'
    · refine (h.rounds c hc).records ?_ ?_ ?_
      · rw [hsame c hcb]
        exact .refl _
      · rw [hgen c]
      · refine leads_update ?_
        rw [hp]
        exact fun hl => absurd (Eq.symm hl) hcb

theorem Serve.leads (h : Serve strict s) (hinv : Inv s) {q : LeadPc}
    (hp : s.pc t = .lead k b q) {pick : Pick} {x : Shared × Pc}
    (hm : Goes s.sh t (.lead k b q) pick x) :
    Serve strict { s with sh := x.1, pc := update s.pc t x.2 } := by
  have hok := hinv.threads t
  have hserve := h.threads t
  rw [hp] at hok hserve
  obtain ⟨hmet, hmem, hlead⟩ := hok
  have hround := h.rounds b hmet.lt
  cases hm with
  | takes =>
    obtain ⟨hfresh, hslot, hk, hperm, hsaved⟩ := hserve
    refine h.leadGo hinv hp rfl rfl (fun _ => rfl) (fun _ _ => rfl) rfl h.idle hround.whole
      hfresh.returned ⟨hfresh, hslot, fun cps hcps => complete_of_collect hcps hperm,
        fun hs => collect_ne_none (hsaved hs)⟩
  | begins _ _ cps =>
    obtain ⟨hfresh, hslot, hcps, -⟩ := hserve
    have hcalls : (s.sh.rounds b).calls ++ [cps] = [cps] := by
      rw [hfresh.calls, nil_append]
    refine h.leadGo hinv hp rfl rfl (gen_setRound rfl) (fun c hc => setRound_ne hc _) ?_
      (fun _ => rfl) ?_ ?_ ⟨hslot, rfl, ?_⟩
    · rw [setRound_self]
    · simp only [Shared.members, setRound_self, hcalls]
      intro _ cps' hmem'
      rw [mem_singleton.mp hmem']
      exact hcps cps rfl
    · simp only [setRound_self]
      exact hfresh.returned
    · simp only [setRound_self]
      exact ⟨hcalls, hfresh.sent, hfresh.returned⟩
  | givesUp =>
    obtain ⟨hfresh, hslot, -, hsome⟩ := hserve
    exact h.leadGo hinv hp rfl rfl (fun _ => rfl) (fun _ _ => rfl) rfl (fun _ => rfl)
      hround.whole hfresh.returned ⟨hslot, rfl, .inr ⟨fun hs => hsome hs rfl, hfresh.calls, rfl⟩,
        hfresh.sent, hfresh.returned⟩
  | handles _ _ cps slot ok =>
    obtain ⟨hslot, hreq, hcalls, hsent, hret⟩ := hserve
    refine h.leadGo hinv hp rfl rfl (gen_setRound rfl) (fun c hc => setRound_ne hc _) ?_
      (fun _ => hreq) ?_ ?_ ⟨hslot, hreq, .inl ?_, ?_⟩
    · rw [setRound_self]
    · simp only [Shared.members, setRound_self]
      exact hround.whole
    · simp only [setRound_self]
      exact hret
    · rw [setRound_self]
      exact ⟨congrArg List.length hcalls, rfl⟩
    · rw [setRound_self]
      exact ⟨hsent, hret⟩
  | clears =>
    exact h.leadGo hinv hp rfl rfl (fun _ => rfl) (fun _ _ => rfl) rfl h.idle hround.whole
      hserve.2.2.2.2 hserve
  | releases =>
    obtain ⟨hslot, hreq, hended, hsent, hret⟩ := hserve
    exact h.leadGo hinv hp rfl rfl (fun _ => rfl) (fun _ _ => rfl) rfl (fun _ => hreq)
      hround.whole hret ⟨hslot, hended, hsent, hret⟩
  | sends _ _ ok c =>
    -- only a snapshot has somebody who waits
    cases k with
    | snapshot =>
      cases hserve.1
      exact h.sent hinv hp rfl
    | _ => cases hserve.1
  | tellsNobody _ _ ok =>
    obtain ⟨hslot, -, hsent, -⟩ := hserve
    have hs := h.sent hinv hp rfl
    rw [if_neg (by rintro rfl; cases hslot), ← hsent, setRound_rounds] at hs
    exact hs

end

end Ignition.Vmm.Rendezvous
