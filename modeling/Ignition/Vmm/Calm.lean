import Ignition.Vmm.Stranded

/-!
# Calm runs

Runs over a fixed set of vCPUs in which nothing goes wrong on the vCPUs' side: no SYSTEM_OFF, no
failing `run`, no failing `save_state` (`Calm`). Requests of every kind still come from any
number of threads at any time, and handlers may fail.

Beside `Steady` three things hold in them (`Serving`). Every vCPU stays in its loop. A barrier
that members are to gather at has its flag up, or a requester that is about to raise it. And
each vCPU restores its registers once per reset: until it has, it is between the second
barrier and its restore (`RestoresOk`).
-/

namespace Ignition.Vmm.Rendezvous

open Parties Runs Ignition.Hvf List Function

/-- No guest calls SYSTEM_OFF and no `run` fails. -/
def StaysIn : Act → Prop
  | .thread _ pick => pick.leaves = false
  | _ => True

instance : (a : Act) → Decidable (StaysIn a)
  | .thread _ pick => inferInstanceAs (Decidable (pick.leaves = false))
  | .call .. | .request _ | .join => isTrue trivial

def Calm (s : State) (a : Act) : Prop := StaysFixed s a ∧ SavesOk a ∧ StaysIn a

instance (s : State) (a : Act) : Decidable (Calm s a) := by
  unfold Calm
  infer_instance

/-- The requester has made barrier `b` and not raised its flag yet. -/
def ReqPc.owns (b : Nat) : ReqPc → Prop
  | .post c => c = b
  | .clear _ c => c = b
  | .raise _ c => c = b
  | _ => False

def ReqPc.wantsReset : ReqPc → Prop
  | .begin k => k = .reset
  | .latch k => k = .reset
  | .install k _ => k = .reset
  | _ => False

/-- Who has restored its registers for the reset that barrier `b` was made for. -/
structure RestoresOk (s : State) (b : Nat) : Prop where
  nodup : (s.sh.rounds b).restores.Nodup
  left : ∀ t ∈ (s.sh.rounds b).restores,
    t ∈ s.sh.members b ∧ s.sh.gen b = 2 ∧ ¬ (s.pc t).Restoring b
  all : (s.sh.rounds b).kind = .reset → s.sh.gen b = 2 →
    ∀ t ∈ s.sh.members b, t ∈ (s.sh.rounds b).restores ∨ (s.pc t).Restoring b

/-- The reset point has a state for every vCPU, and there is one once a reset is on its way. -/
structure PointOk (ids : List Nat) (s : State) : Prop where
  covers : ∀ cps, s.sh.resetPoint = some cps → ∀ t ∈ ids, ∃ cp ∈ cps, cp.mpidr = t
  wanted : ∀ r, (s.rq r).wantsReset → s.sh.resetPoint ≠ none
  rounds : ∀ b < s.sh.roundCount, (s.sh.rounds b).kind = .reset → s.sh.resetPoint ≠ none

/-- What holds in every state of a calm run. -/
structure Serving (ids : List Nat) (s : State) : Prop where
  steady : Steady True ids s
  up : s.sh.shutdown = false
  stays : ∀ t ∈ ids, (s.pc t).leaving = false
  owned : ∀ b < s.sh.roundCount, s.sh.gen b = 0 →
    s.sh.req (s.sh.rounds b).kind = true ∨ ∃ r, (s.rq r).owns b
  point : PointOk ids s
  restores : ∀ b < s.sh.roundCount, RestoresOk s b
  restoring : ∀ t b, s.pc t = .restoring b →
    b < s.sh.roundCount ∧ (s.sh.rounds b).kind = .reset ∧ s.sh.gen b = 2 ∧ t ∈ s.sh.members b

/-! ## Nobody leaves -/

section

variable {ids : List Nat} {s s' : State} {t : Nat} {pick : Pick} {x : Shared × Pc}

theorem Serving.stays_thread (h : Serving ids s) (hpick : pick.leaves = false)
    (hm : Goes s.sh t (s.pc t) pick x) : x.1.shutdown = false ∧ x.2.leaving = false := by
  obtain ⟨ht, hin⟩ := h.steady.fixed.inRunLoop hm
  exact hm.stays hin (h.stays t ht) (fun _ => hpick)
    (fun k => h.steady.inv.snapBarrier_ne_none) h.up

end

/-! ## The flag of a barrier -/

section

variable {ids : List Nat} {s s' : State}

theorem req_of_gathering (h : Inv s) {b : Nat} (hb : b < s.sh.roundCount) (hzero : s.sh.gen b = 0)
    {t : Nat} {pick : Pick} {x : Shared × Pc} (hm : Goes s.sh t (s.pc t) pick x) :
    x.1.req = s.sh.req := by
  have hok := h.threads t
  generalize s.pc t = p at hm hok
  cases hm with
  | leads k => cases k <;> rfl
  | clears =>
    -- a leader that has not released the rendezvous excludes gathering
    exact absurd hzero (h.not_gathering_of_current hok.2.2.2.1 hok.1.gen_eq hb)
  | _ => rfl

theorem Serving.owned_request (h : Serving ids s) {r : Nat} {x : Shared × ReqPc}
    (hq : Asks s.sh (s.rq r) x) {b : Nat} (hb : b < x.1.roundCount)
    (hzero : x.1.gen b = 0) :
    x.1.req (x.1.rounds b).kind = true ∨ ∃ r', (update s.rq r x.2 r').owns b := by
  have hinv := h.steady.inv
  -- a requester that leaves its place was not the owner, or hands the barrier on
  have hkeep : ∀ {q : ReqPc}, x.2 = q → x.1.req = s.sh.req → x.1.rounds = s.sh.rounds →
      x.1.roundCount = s.sh.roundCount → (∀ c, (s.rq r).owns c → q.owns c) →
      x.1.req (x.1.rounds b).kind = true ∨ ∃ r', (update s.rq r x.2 r').owns b := by
    intro q hx hreq hrounds hcount hown
    unfold Shared.gen at hzero
    rw [hrounds] at hzero
    rw [hreq, hrounds]
    rcases h.owned b (hcount ▸ hb) hzero with hflag | ⟨r', hr'⟩
    · exact .inl hflag
    refine .inr ⟨r', ?_⟩
    by_cases hrr : r' = r
    · subst hrr
      rw [update_self, hx]
      exact hown b hr'
    · rw [update_of_ne hrr]
      exact hr'
  have hok := hinv.requests r
  generalize hr : s.rq r = q at hq hok hkeep
  cases hq with
  | installs k ids' =>
    by_cases hbr : b = s.sh.roundCount
    · refine .inr ⟨r, ?_⟩
      rw [update_self, hbr]
      cases k <;> exact rfl
    have hlt : b < s.sh.roundCount := Nat.lt_of_le_of_ne (Nat.lt_succ_iff.mp hb) hbr
    have hold : s.sh.gen b = 0 :=
      (congrArg (fun r => r.barrier.gen) (setRound_ne hbr (.new k ids'))).symm.trans hzero
    exact absurd hold (hok.1.2 b hlt)
  | posts | clears => exact hkeep rfl rfl rfl rfl fun _ => id
  | raises k c =>
    obtain ⟨-, -, hlt, hkind, hgen⟩ : Placed s k c := hok
    obtain rfl : b = c := hinv.gathering_unique hb hlt hzero hgen
    refine .inl ?_
    show update s.sh.req k true (s.sh.rounds b).kind = true
    rw [hkind, update_self]
  | hears c ok =>
    have hgen : (s.sh.setRound c { s.sh.rounds c with returned := some ok }).gen b =
        s.sh.gen b := gen_setRound (by rfl) b
    have hkind := forall_setRound s.sh (b := c) (r := { s.sh.rounds c with
      returned := some ok }) (P := fun c r => r.kind = (s.sh.rounds c).kind) rfl (fun _ _ => rfl) b
    refine (h.owned b hb (hgen.symm.trans hzero)).imp (fun hflag => ?_) fun ⟨r', hr'⟩ => ⟨r', ?_⟩
    · show s.sh.req ((s.sh.setRound c _).rounds b).kind = true
      rw [hkind]
      exact hflag
    · have hrr : r' ≠ r := by
        rintro rfl
        rw [hr] at hr'
        exact hr'
      rw [update_of_ne hrr]
      exact hr'
  | _ => exact hkeep rfl rfl rfl rfl fun c hc => absurd hc id

end

/-! ## The reset point -/

section

variable {ids : List Nat} {s s' : State} {t : Nat} {pick : Pick} {x : Shared × Pc}

theorem Goes.point {sh : Shared} {p : Pc} (hm : Goes sh t p pick x) :
    x.1.resetPoint = sh.resetPoint ∨
      ∃ b cps slot, p = .lead .checkpoint b (.handler cps slot) ∧ x.1.resetPoint = some cps := by
  cases hm with
  | leads k => cases k <;> exact .inl rfl
  | handles k b cps slot ok =>
    by_cases hk : k = .checkpoint ∧ ok = true
    · obtain ⟨rfl, rfl⟩ := hk
      exact .inr ⟨b, cps, slot, rfl, rfl⟩
    · exact .inl (if_neg hk)
  | _ => exact .inl rfl

theorem covers_of_complete {cps : List VcpuCheckpoint} (h : Complete cps ids) {t : Nat}
    (ht : t ∈ ids) : ∃ cp ∈ cps, cp.mpidr = t := by
  have hmem := h.perm.mem_iff.mpr ht
  obtain ⟨cp, hcp, hmp⟩ := mem_map.mp hmem
  exact ⟨cp, hcp, hmp⟩

theorem Serving.point_thread (h : Serving ids s) (hm : Goes s.sh t (s.pc t) pick x) :
    (∀ cps, x.1.resetPoint = some cps → ∀ u ∈ ids, ∃ cp ∈ cps, cp.mpidr = u) ∧
      (s.sh.resetPoint ≠ none → x.1.resetPoint ≠ none) := by
  rcases hm.point with heq | ⟨b, cps, slot, hp, heq⟩
  · rw [heq]
    exact ⟨h.point.covers, id⟩
  rw [heq]
  refine ⟨fun cps' hcps u hu => ?_, fun _ => Option.some_ne_none cps⟩
  cases hcps
  have hserve := h.steady.serve.threads t
  have hok := h.steady.inv.threads t
  rw [hp] at hserve hok
  obtain ⟨-, -, hcalls, -⟩ := hserve
  have hlt := hok.1.lt
  have hkind : (s.sh.rounds b).kind ≠ .reset := by
    rw [hok.1.kind_eq]
    exact fun hh => nomatch hh
  have hwhole := (h.steady.serve.rounds b hlt).whole hkind cps
    (by rw [hcalls]; exact mem_cons_self)
  rw [h.steady.fixed.members b hlt] at hwhole
  exact covers_of_complete hwhole hu

theorem Serving.point_request (h : Serving ids s) {r : Nat} {x : Shared × ReqPc}
    (hq : Asks s.sh (s.rq r) x) :
    PointOk ids { s with sh := x.1, rq := update s.rq r x.2 } := by
  have hgo : ∀ {sh' : Shared} {q : ReqPc}, sh'.resetPoint = s.sh.resetPoint →
      (q.wantsReset → s.sh.resetPoint ≠ none) →
      (∀ b < sh'.roundCount, (sh'.rounds b).kind = .reset → s.sh.resetPoint ≠ none) →
      PointOk ids { s with sh := sh', rq := update s.rq r q } := by
    intro sh' q heq hq hrounds
    refine ⟨?_, ?_, ?_⟩
    · show ∀ cps, sh'.resetPoint = some cps → _
      rw [heq]
      exact h.point.covers
    · show ∀ r', (update s.rq r q r').wantsReset → sh'.resetPoint ≠ none
      rw [heq]
      exact forall_request (P := fun q => q.wantsReset → s.sh.resetPoint ≠ none) hq
        fun r' _ => h.point.wanted r'
    · show ∀ b < sh'.roundCount, (sh'.rounds b).kind = .reset → sh'.resetPoint ≠ none
      rw [heq]
      exact hrounds
  have hwanted := h.point.wanted r
  generalize s.rq r = q at hq hwanted
  cases hq with
  | freezes | latches => exact hgo rfl hwanted h.point.rounds
  | installs k ids' =>
    refine hgo rfl (fun hh => by cases k <;> exact absurd hh id) ?_
    exact forall_setRound _ (P := fun b r => b < s.sh.roundCount + 1 → r.kind = .reset →
      s.sh.resetPoint ≠ none) (fun _ hk => hwanted hk) fun b hbr hb =>
        h.point.rounds b (Nat.lt_of_le_of_ne (Nat.lt_succ_iff.mp hb) hbr)
  | raises =>
    refine hgo rfl (fun hh => ?_) h.point.rounds
    split at hh <;> exact absurd hh id
  | hears c ok =>
    refine hgo rfl (fun hh => absurd hh id) ?_
    exact forall_setRound _ (P := fun b r => b < s.sh.roundCount → r.kind = .reset →
      s.sh.resetPoint ≠ none) (h.point.rounds c) fun b _ => h.point.rounds b
  | _ => exact hgo rfl (fun hh => absurd hh id) h.point.rounds

end

/-! ## Restores -/

section

variable {ids : List Nat} {s : State} {t b : Nat} {sh' : Shared} {p' : Pc}

/-- The two agree on what the record of restores depends on. -/
structure Round.Untouched (r r' : Round) : Prop where
  kind : r'.kind = r.kind
  members : r'.members = r.members
  gen : r'.barrier.gen = r.barrier.gen
  restores : r'.restores = r.restores

theorem Round.Untouched.refl (r : Round) : r.Untouched r := ⟨rfl, rfl, rfl, rfl⟩

variable {sh : Shared} {c : Nat} {x : Shared × Pc} {pick : Pick} {k : Kind}

theorem untouched_setRound {r : Round} (h : (sh.rounds c).Untouched r) (b : Nat) :
    (sh.rounds b).Untouched ((sh.setRound c r).rounds b) :=
  forall_setRound sh (P := fun b r => (sh.rounds b).Untouched r) h (fun _ _ => .refl _) b

theorem RestoresOk.move (h : RestoresOk s b) (e : (s.sh.rounds b).Untouched (sh'.rounds b))
    (hin : p'.Restoring b → (s.pc t).Restoring b ∨ s.sh.gen b ≠ 2)
    (hout : (s.pc t).Restoring b → p'.Restoring b ∨ (s.sh.rounds b).kind ≠ .reset) :
    RestoresOk { s with sh := sh', pc := update s.pc t p' } b := by
  refine ⟨?_, ?_, ?_⟩ <;> simp only [Shared.gen, Shared.members, e.restores, e.members, e.gen, e.kind]
  · exact h.nodup
  · intro u hu
    obtain ⟨hmem, htwo, hnot⟩ := h.left u hu
    refine ⟨hmem, htwo, ?_⟩
    by_cases hut : u = t
    · subst hut
      rw [update_self]
      exact fun hh => (hin hh).elim hnot fun hne => hne htwo
    · rw [update_of_ne hut]
      exact hnot
  · intro hkind htwo u hu
    refine (h.all hkind htwo u hu).imp_right fun hold => ?_
    by_cases hut : u = t
    · subst hut
      rw [update_self]
      exact (hout hold).resolve_right fun hne => hne hkind
    · rw [update_of_ne hut]
      exact hold

theorem RestoresOk.idle (h : RestoresOk s b) (e : (s.sh.rounds b).Untouched (sh'.rounds b))
    (hp : ¬ (s.pc t).Restoring b) (hp' : ¬ p'.Restoring b) :
    RestoresOk { s with sh := sh', pc := update s.pc t p' } b :=
  h.move e (fun hh => absurd hh hp') fun hh => absurd hh hp

theorem RestoresOk.nil (h : RestoresOk s b) (hg : s.sh.gen b ≠ 2) :
    (s.sh.rounds b).restores = [] := by
  refine eq_nil_iff_forall_not_mem.mpr fun u hu => ?_
  exact hg (h.left u hu).2.1

theorem RestoresOk.restore (h : RestoresOk s b) (hp : s.pc t = .restoring b)
    (hmem : t ∈ s.sh.members b) (htwo : s.sh.gen b = 2) (hp' : ¬ p'.Restoring b) :
    RestoresOk { s with
      sh := s.sh.setRound b { s.sh.rounds b with
        restores := (s.sh.rounds b).restores ++ [t] }
      pc := update s.pc t p' } b := by
  have hnew : t ∉ (s.sh.rounds b).restores := by
    intro ht
    refine (h.left t ht).2.2 ?_
    rw [hp]
    exact rfl
  refine ⟨?_, ?_, ?_⟩ <;> simp only [Shared.gen, Shared.members, setRound_self]
  · refine nodup_append.mpr ⟨h.nodup, nodup_singleton t, fun u hu v hv huv => ?_⟩
    obtain rfl : u = t := huv.trans (mem_singleton.mp hv)
    exact hnew hu
  · intro u hu
    by_cases hut : u = t
    · subst hut
      rw [update_self]
      exact ⟨hmem, htwo, hp'⟩
    · rw [update_of_ne hut]
      have hold := (mem_append.mp hu).resolve_right fun hm => hut (mem_singleton.mp hm)
      exact h.left u hold
  · intro hkind htwo' u hu
    by_cases hut : u = t
    · exact .inl (mem_append_right _ (mem_singleton.mpr hut))
    · rw [update_of_ne hut]
      exact (h.all hkind htwo' u hu).imp_left fun hold => mem_append_left _ hold

/-- A thread takes a step: who has restored is still in order, and so is who is about to. -/
structure RestoresKept (s : State) (t : Nat) (x : Shared × Pc) : Prop where
  restores : ∀ b < s.sh.roundCount,
    RestoresOk { s with sh := x.1, pc := Function.update s.pc t x.2 } b
  restoring : ∀ b, x.2 = .restoring b →
    b < s.sh.roundCount ∧ (s.sh.rounds b).kind = .reset ∧ x.1.gen b = 2 ∧ t ∈ s.sh.members b

theorem Serving.restores_idle (h : Serving ids s)
    (e : ∀ b, (s.sh.rounds b).Untouched (x.1.rounds b)) (hp : ∀ b, ¬ (s.pc t).Restoring b)
    (hp' : ∀ b, ¬ x.2.Restoring b) : RestoresKept s t x := by
  refine ⟨fun b hb => (h.restores b hb).idle (e b) (hp b) (hp' b), fun b hx => ?_⟩
  refine absurd ?_ (hp' b)
  rw [hx]
  exact rfl

/-- The barrier has opened once more. -/
structure Round.Opened (r r' : Round) : Prop where
  kind : r'.kind = r.kind
  members : r'.members = r.members
  gen : r'.barrier.gen = r.barrier.gen + 1
  restores : r'.restores = r.restores

theorem Serving.restores_flip (h : Serving ids s) {half : Half}
    (hp : s.pc t = .arrive half k c) (hlt : s.sh.gen c < 2)
    (hopen : (s.sh.rounds c).Opened (x.1.rounds c))
    (e : ∀ b, b ≠ c → (s.sh.rounds b).Untouched (x.1.rounds b))
    (hin : ∀ b, x.2.Restoring b → b = c)
    (hall : (s.sh.rounds c).kind = .reset → s.sh.gen c + 1 = 2 → ∀ u ∈ s.sh.members c,
      (update s.pc t x.2 u).Restoring c) {b : Nat} (hb : b < s.sh.roundCount) :
    RestoresOk { s with sh := x.1, pc := update s.pc t x.2 } b := by
  by_cases hbc : b = c
  · subst hbc
    have hnil := (h.restores b hb).nil (by omega)
    refine ⟨?_, ?_, ?_⟩ <;>
      simp only [Shared.gen, Shared.members, hopen.restores, hnil, hopen.members, hopen.gen,
        hopen.kind]
    · exact nodup_nil
    · exact fun u hu => nomatch hu
    · exact fun hkind htwo u hu => .inr (hall hkind htwo u hu)
  · refine (h.restores b hb).idle (e b hbc) ?_ fun hh => hbc (hin b hh)
    rw [hp]
    exact id

theorem leadOf_opened (sh : Shared) (k : Kind) (c : Nat) :
    (sh.rounds c).Opened
        ((leadOf (sh.setRound c (sh.rounds c).flipped) k c).1.rounds c) ∧
      ∀ b, b ≠ c → (sh.rounds b).Untouched
        ((leadOf (sh.setRound c (sh.rounds c).flipped) k c).1.rounds b) := by
  cases k with
  | reset =>
    refine ⟨?_, fun b hb => ?_⟩ <;> simp only [leadOf]
    · rw [setRound_self, setRound_self]
      exact ⟨rfl, rfl, rfl, rfl⟩
    · rw [setRound_ne hb, setRound_ne hb]
      exact .refl _
  | _ =>
    refine ⟨?_, fun b hb => ?_⟩ <;> simp only [leadOf]
    · rw [setRound_self]
      exact ⟨rfl, rfl, rfl, rfl⟩
    · rw [setRound_ne hb]
      exact .refl _

theorem not_restoring_leadOf (sh : Shared) (k : Kind) (b c : Nat) :
    ¬ (leadOf sh k c).2.Restoring b := by
  cases k <;> exact id

theorem restoring_afterSecond (h : (afterSecond k c).Restoring b) : b = c := by
  cases k with
  | reset => exact Eq.symm h
  | _ => exact absurd h id

theorem eq_of_afterSecond (h : afterSecond k c = .restoring b) :
    k = .reset ∧ b = c := by
  cases k with
  | reset => exact ⟨rfl, (Pc.restoring.inj h).symm⟩
  | _ => cases h

theorem Serving.hasCheckpoint (h : Serving ids s) (ht : t ∈ ids) (hpoint : s.sh.resetPoint ≠ none) :
    s.sh.hasCheckpoint t = true := by
  unfold Shared.hasCheckpoint
  cases hcps : s.sh.resetPoint with
  | none => exact absurd hcps hpoint
  | some cps =>
    obtain ⟨cp, hcp, hmp⟩ := h.point.covers cps hcps t ht
    exact any_eq_true.mpr ⟨cp, hcp, beq_iff_eq.mpr hmp⟩

theorem Serving.restores_thread (h : Serving ids s) (hm : Goes s.sh t (s.pc t) pick x) :
    RestoresKept s t x := by
  have hinv := h.steady.inv
  have hok := hinv.threads t
  generalize hp : s.pc t = p at hm hok
  have hidle : ∀ {x : Shared × Pc}, (∀ b, (s.sh.rounds b).Untouched (x.1.rounds b)) →
      (∀ b, ¬ p.Restoring b) → (∀ b, ¬ x.2.Restoring b) → RestoresKept s t x :=
    fun e hout => h.restores_idle e (hp ▸ hout)
  cases hm with
  | waits half k c =>
    have e := untouched_setRound (show (s.sh.rounds c).Untouched (s.sh.rounds c).counted from
      ⟨rfl, rfl, rfl, rfl⟩)
    refine ⟨fun b hb => (h.restores b hb).move (e b) ?_ ?_, fun b hx => nomatch hx⟩
    · intro hh
      cases half with
      | first => exact absurd hh id
      | second =>
        -- it waits at a barrier that is not open yet
        obtain rfl : c = b := hh
        refine .inr fun htwo => ?_
        have hone := hok.1.gen_eq
        omega
    · rw [hp]
      exact fun hh => absurd hh id
  | leads k c =>
    have hzero : s.sh.gen c = 0 := hok.1.gen_eq
    obtain ⟨hopen, hother⟩ := leadOf_opened s.sh k c
    refine ⟨fun b hb => h.restores_flip hp (by omega) hopen hother ?_ ?_ hb, fun b hx => ?_⟩
    · exact fun b hh => absurd hh (not_restoring_leadOf _ k b c)
    · exact fun _ htwo => by omega
    · refine absurd ?_ (not_restoring_leadOf (s.sh.setRound c (s.sh.rounds c).flipped) k b c)
      exact hx ▸ rfl
  | opens k c hlt =>
    have hone : s.sh.gen c = 1 := hok.1.gen_eq
    have hr := hinv.rounds c hok.1.lt
    have hopen : (s.sh.rounds c).Opened ((s.sh.setRound c (s.sh.rounds c).flipped).rounds c) := by
      rw [setRound_self]
      exact ⟨rfl, rfl, rfl, rfl⟩
    refine ⟨fun b hb => h.restores_flip hp (by omega) hopen (fun b hbc => ?_)
      (fun b => restoring_afterSecond) (fun hkind _ u hu => ?_) hb, fun b hx => ?_⟩
    · show (s.sh.rounds b).Untouched ((s.sh.setRound c (s.sh.rounds c).flipped).rounds b)
      rw [setRound_ne hbc]
      exact .refl _
    · by_cases hut : u = t
      · subst hut
        obtain rfl : k = .reset := hok.1.kind_eq.symm.trans hkind
        rw [update_self]
        exact rfl
      · rw [update_of_ne hut]
        obtain ⟨_, _, hu'⟩ := eq_of_waits
          ((hr.leaving hone).last hok.2 (by rw [hp]; rfl) hlt hu hut)
        rw [hu']
        exact rfl
    · obtain ⟨rfl, rfl⟩ := eq_of_afterSecond hx
      refine ⟨hok.1.lt, hok.1.kind_eq, ?_, hok.2⟩
      exact hopen.gen.trans (congrArg (· + 1) hone)
  | leaves k c gen hne =>
    obtain ⟨rfl, hmem, hleaves⟩ := hok
    have htwo : s.sh.gen c = 2 := by
      have hle := (hinv.rounds c hleaves.lt).gen_le
      have hge := hleaves.gen_pos
      omega
    refine ⟨fun b hb => (h.restores b hb).move (.refl _) (fun hh => ?_) fun hh => ?_,
      fun b hx => ?_⟩
    · obtain rfl := restoring_afterSecond hh
      rw [hp]
      exact .inl rfl
    · rw [hp] at hh
      obtain rfl : c = b := hh
      by_cases hk : k = .reset
      · rw [hk]
        exact .inl rfl
      · exact .inr fun hkind => hk (hleaves.kind_eq.symm.trans hkind)
    · obtain ⟨rfl, rfl⟩ := eq_of_afterSecond hx
      exact ⟨hleaves.lt, hleaves.kind_eq, htwo, hmem⟩
  | restores c =>
    obtain ⟨hlt, hkind, htwo, hmem⟩ := h.restoring t c hp
    have hids : t ∈ ids := by
      rw [h.steady.fixed.members c hlt] at hmem
      exact hmem
    rw [h.hasCheckpoint hids (h.point.rounds c hlt hkind)]
    refine ⟨fun b hb => ?_, fun b hx => nomatch hx⟩
    by_cases hbc : b = c
    · subst hbc
      exact (h.restores b hb).restore hp hmem htwo id
    refine (h.restores b hb).idle ?_ ?_ id
    · rw [setRound_ne hbc]
      exact .refl _
    · rw [hp]
      exact fun hh => hbc (Eq.symm hh)
  | _ =>
    first
    | exact hidle (fun _ => .refl _) (fun _ => id) fun _ => id
    | exact hidle (untouched_setRound ⟨rfl, rfl, rfl, rfl⟩) (fun _ => id) fun _ => id

theorem Asks.untouched {q : ReqPc} {x : Shared × ReqPc} (hq : Asks sh q x) :
    sh.roundCount ≤ x.1.roundCount ∧
      (∀ b < sh.roundCount, (sh.rounds b).Untouched (x.1.rounds b)) ∧
      ∀ b < x.1.roundCount, b < sh.roundCount ∨
        (x.1.rounds b).restores = [] ∧ x.1.gen b = 0 := by
  have hsame : ∀ {sh' : Shared}, sh'.rounds = sh.rounds → sh'.roundCount = sh.roundCount →
      sh.roundCount ≤ sh'.roundCount ∧
        (∀ b < sh.roundCount, (sh.rounds b).Untouched (sh'.rounds b)) ∧
        ∀ b < sh'.roundCount, b < sh.roundCount ∨ (sh'.rounds b).restores = [] ∧ sh'.gen b = 0 := by
    intro sh' hrounds hcount
    rw [hrounds, hcount]
    exact ⟨le_rfl, fun _ _ => .refl _, fun _ hb => .inl hb⟩
  cases hq with
  | installs k ids' =>
    refine ⟨Nat.le_succ _, fun b hb => ?_, fun b hb => ?_⟩
    · show (sh.rounds b).Untouched ((sh.setRound sh.roundCount (.new k ids')).rounds b)
      rw [setRound_ne (Nat.ne_of_lt hb)]
      exact .refl _
    · refine (Nat.lt_succ_iff_lt_or_eq.mp hb).imp_right fun heq => ?_
      subst heq
      simp only [Shared.gen, setRound_self]
      exact ⟨rfl, rfl⟩
  | hears c ok =>
    have e : (sh.rounds c).Untouched { sh.rounds c with returned := some ok } := ⟨rfl, rfl, rfl, rfl⟩
    exact ⟨le_rfl, fun b _ => untouched_setRound e b, fun b hb => .inl hb⟩
  | _ => exact hsame rfl rfl

theorem RestoresOk.untouched {rq' : Nat → ReqPc} (h : RestoresOk s b)
    (e : (s.sh.rounds b).Untouched (sh'.rounds b)) :
    RestoresOk { s with sh := sh', rq := rq' } b := by
  refine ⟨?_, ?_, ?_⟩ <;>
    simp only [Shared.gen, Shared.members, e.restores, e.members, e.gen, e.kind]
  · exact h.nodup
  · exact h.left
  · exact h.all

theorem restoresOk_of_nil (hnil : (s.sh.rounds b).restores = []) (hzero : s.sh.gen b = 0) :
    RestoresOk s b := by
  refine ⟨?_, ?_, fun _ htwo => ?_⟩
  · rw [hnil]
    exact nodup_nil
  · rw [hnil]
    exact fun u hu => nomatch hu
  · omega

end

/-! ## Runs -/

section

variable {ids : List Nat} {s s' : State}

theorem Serving.thread (h : Serving ids s) {t : Nat} {pick : Pick} {x : Shared × Pc}
    (hcalm : Calm s (.thread t pick)) (hm : Goes s.sh t (s.pc t) pick x)
    (hsteady : Steady True ids { s with sh := x.1, pc := update s.pc t x.2 }) :
    Serving ids { s with sh := x.1, pc := update s.pc t x.2 } := by
  obtain ⟨e, -⟩ := hm.sameSet (h.steady.fixed.inRunLoop hm).2 hcalm.1
  obtain ⟨hup, hstay⟩ := h.stays_thread hcalm.2.2 hm
  obtain ⟨hcovers, hpoint⟩ := h.point_thread hm
  obtain ⟨hrestores, hrestoring⟩ := h.restores_thread hm
  refine ⟨hsteady, hup, fun u hu => ?_, fun b hb hzero => ?_, ⟨hcovers, ?_, ?_⟩, ?_, ?_⟩
  · exact forall_update (P := fun v p => v ∈ ids → p.leaving = false) h.stays (fun _ => hstay) u hu
  · have hb' : b < s.sh.roundCount := lt_of_lt_of_eq hb e.roundCount
    have hzero' : s.sh.gen b = 0 := by
      rcases e.gen b with heq | heq
      · exact heq.symm.trans hzero
      · exact absurd (heq.symm.trans hzero) (Nat.succ_ne_zero _)
    rw [req_of_gathering h.steady.inv hb' hzero' hm, e.kind b]
    exact h.owned b hb' hzero'
  · exact fun r hr => hpoint (h.point.wanted r hr)
  · intro b hb hkind
    exact hpoint (h.point.rounds b (lt_of_lt_of_eq hb e.roundCount) ((e.kind b).symm.trans hkind))
  · exact fun b hb => hrestores b (lt_of_lt_of_eq hb e.roundCount)
  · -- a barrier that has opened twice does not open again
    have htwo : ∀ b < s.sh.roundCount, s.sh.gen b = 2 → x.1.gen b = 2 := by
      intro b hb hgen
      have hle : x.1.gen b ≤ 2 := (hsteady.inv.rounds b (lt_of_lt_of_eq hb e.roundCount.symm)).gen_le
      have := e.gen b
      omega
    have hall : ∀ u b, update s.pc t x.2 u = .restoring b →
        b < s.sh.roundCount ∧ (s.sh.rounds b).kind = .reset ∧ x.1.gen b = 2 ∧
          u ∈ s.sh.members b := by
      refine forall_update (P := fun u p => ∀ b, p = .restoring b → b < s.sh.roundCount ∧
        (s.sh.rounds b).kind = .reset ∧ x.1.gen b = 2 ∧ u ∈ s.sh.members b) ?_ hrestoring
      intro u b hu
      obtain ⟨hlt, hkind, hgen, hmem⟩ := h.restoring u b hu
      exact ⟨hlt, hkind, htwo b hlt hgen, hmem⟩
    intro u b hu
    obtain ⟨hlt, hkind, hgen, hmem⟩ := hall u b hu
    refine ⟨lt_of_lt_of_eq hlt e.roundCount.symm, (e.kind b).trans hkind, hgen, ?_⟩
    rw [e.members b]
    exact hmem

theorem Serving.request (h : Serving ids s) {r : Nat} {x : Shared × ReqPc}
    (hq : Asks s.sh (s.rq r) x)
    (hsteady : Steady True ids { s with sh := x.1, rq := update s.rq r x.2 }) :
    Serving ids { s with sh := x.1, rq := update s.rq r x.2 } := by
  obtain ⟨hcount, hold, hnew⟩ := hq.untouched
  refine ⟨hsteady, hq.stays.1.trans h.up, h.stays,
    fun b hb hzero => h.owned_request hq hb hzero, h.point_request hq, fun b hb => ?_, ?_⟩
  · rcases hnew b hb with hb' | ⟨hnil, hzero⟩
    · exact (h.restores b hb').untouched (hold b hb')
    · exact restoresOk_of_nil hnil hzero
  · intro u b hu
    obtain ⟨hlt, hkind, hgen, hmem⟩ := h.restoring u b hu
    have e := hold b hlt
    refine ⟨lt_of_lt_of_le hlt hcount, e.kind.trans hkind, e.gen.trans hgen, ?_⟩
    show u ∈ (x.1.rounds b).members
    rw [e.members]
    exact hmem

theorem Serving.step (h : Serving ids s) {a : Act} (hcalm : Calm s a)
    (hst : Rendezvous.step s a = some s') : Serving ids s' := by
  have hsteady := h.steady.step hcalm.1 (fun _ => hcalm.2.1) hst
  cases step_acts hst with
  | thread t pick x hm => exact h.thread hcalm hm hsteady
  | call r k hidle =>
    refine ⟨hsteady, h.up, h.stays, fun b hb hzero => ?_, ⟨h.point.covers, ?_, h.point.rounds⟩,
      fun b hb => (h.restores b hb).untouched (.refl _), h.restoring⟩
    · refine (h.owned b hb hzero).imp_right fun ⟨r', hr'⟩ => ⟨r', ?_⟩
      have hne : r' ≠ r := by
        rintro rfl
        rw [hidle] at hr'
        exact hr'
      show (update s.rq r _ r').owns b
      rw [update_of_ne hne]
      exact hr'
    · refine forall_request (P := fun q => q.wantsReset → s.sh.resetPoint ≠ none) ?_
        fun r' _ => h.point.wanted r'
      unfold requestCall
      split
      · exact fun hh => absurd hh id
      · rename_i hnot
        exact fun hk hnone => hnot ⟨hk, hnone⟩
  | request r y hq => exact h.request hq hsteady
  | join =>
    exact ⟨hsteady, h.up, h.stays, h.owned, ⟨h.point.covers, h.point.wanted, h.point.rounds⟩,
      fun b hb => ⟨(h.restores b hb).nodup, (h.restores b hb).left, (h.restores b hb).all⟩, h.restoring⟩

theorem Serving.looping {vcpuCount : Nat} {point : Option (List VcpuCheckpoint)}
    (hnd : ids.Nodup) (hpoint : ∀ cps, point = some cps → ∀ t ∈ ids, ∃ cp ∈ cps, cp.mpidr = t) :
    Serving ids (looping vcpuCount ids point) := by
  have hpc : ∀ t, (Rendezvous.looping vcpuCount ids point).pc t = .loop .top ∨
      (Rendezvous.looping vcpuCount ids point).pc t = .absent := by
    intro t
    by_cases ht : t ∈ ids
    · exact .inl (if_pos ht)
    · exact .inr (if_neg ht)
  refine ⟨.looping hnd, rfl, fun t _ => ?_, fun b hb => absurd hb (Nat.not_lt_zero b),
    ⟨hpoint, fun _ hr => absurd hr id, fun b hb => absurd hb (Nat.not_lt_zero b)⟩,
    fun b hb => absurd hb (Nat.not_lt_zero b), fun t b ht => ?_⟩
  · rcases hpc t with h | h <;> rw [h] <;> rfl
  · rcases hpc t with h | h <;> cases h.symm.trans ht

/-- **Every state of a calm run keeps `Serving`.** -/
theorem Serving.run (h : Serving ids s) {acts : List Act}
    (hrun : Run Rendezvous.step Calm s acts s') : Serving ids s' :=
  hrun.invariant (fun _ _ _ h hcalm hst => h.step hcalm hst) h

end

end Ignition.Vmm.Rendezvous
