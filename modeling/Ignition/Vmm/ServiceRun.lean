import Ignition.Vmm.Service

/-!
# Service through every run

`Serve` through the steps of the threads and of the requesters. Threads that come up or go
round their run loop do nothing for a request (`Goes.away`); a requester in its window is alone with the slot and the collection (`Serve.window`).
-/

namespace Ignition.Vmm.Rendezvous

open Parties Runs Ignition.Hvf Function

/-! ## The threads -/

def Pc.Restoring (b : Nat) : Pc → Prop
  | .blocked .second _ c _ => c = b
  | .restoring c => c = b
  | _ => False

/-- The thread is away from the barriers, has pushed nothing and has nothing to restore. -/
structure Pc.Away (p : Pc) : Prop where
  outside : p.Outside
  pushed : ∀ b, p.pushed b = false
  settled : ∀ b, ¬ p.Restoring b

def Pc.busy : Pc → Bool
  | .absent => true
  | .start _ => true
  | .loop _ => true
  | _ => false

theorem Goes.away {sh : Shared} {t : Nat} {p : Pc} {pick : Pick} {x : Shared × Pc}
    (hm : Goes sh t p pick x) (hp : p.busy = true) : Kept sh x.1 ∧ p.Away ∧ x.2.Away := by
  cases hm <;> first
    | exact ⟨kept_local .., ⟨trivial, fun _ => rfl, fun _ => id⟩, trivial, fun _ => rfl, fun _ => id⟩
    | cases hp

section

variable {strict : Prop} {s : State} {t : Nat}

theorem Serve.away (h : Serve strict s) {x : Shared × Pc} (hp : (s.pc t).Away)
    (hx : Kept s.sh x.1 ∧ x.2.Away) :
    Serve strict { s with sh := x.1, pc := update s.pc t x.2 } :=
  h.outside hx.1 hp.outside hx.2.outside fun b => (hx.2.pushed b).trans (hp.pushed b).symm

def Pick.savesFail : Pick → Bool
  | .saved none => true
  | _ => false

theorem Serve.goes (h : Serve strict s) (hinv : Inv s) {pick : Pick}
    (hsave : strict → pick.savesFail = false) {x : Shared × Pc}
    (hm : Goes s.sh t (s.pc t) pick x) :
    Serve strict { s with sh := x.1, pc := update s.pc t x.2 } := by
  have hok := hinv.threads t
  generalize hp : s.pc t = p at hm hok
  cases p with
  | lead k b q => exact h.leads hinv hp hm
  | push k =>
    cases hm with
    | pushes _ state =>
      refine h.push hinv hp fun hs hnone => ?_
      rw [hnone] at hsave
      cases hsave hs
  | fetch k =>
    obtain ⟨b, hg, hmem⟩ := hok
    have hcur := ((hinv.rounds b hg.lt).current hg.gen_eq).1
    cases hm with
    | fetches _ c hc =>
      cases hc.symm.trans hcur
      refine h.go (kept_local ..) (fun k' c hg' hk' => ?_)
        (fun c hl => absurd (hp ▸ hl : (Pc.fetch k).Leads c) id) trivial
      obtain ⟨rfl, rfl⟩ := hinv.gathers_unique hg hg'
      rw [hp]
      exact (decide_eq_true ⟨hk', rfl⟩).trans (decide_eq_true hk').symm
    | misses _ hnone => cases hnone.symm.trans hcur
  | arrive half k b =>
    cases hm with
    | waits =>
      refine h.go (.setRound ⟨rfl, rfl, rfl, rfl, rfl, rfl⟩ rfl) (fun k' c _ _ => ?_)
        (fun c hl => absurd (hp ▸ hl : (Pc.arrive half k b).Leads c) id) trivial
      rw [hp]
      cases half <;> rfl
    | leads _ _ hlt => exact h.lead hinv hp hlt
    | opens => exact h.flip_second hinv hp
  | blocked half k b gen =>
    cases hm with
    | wakes _ _ _ hne =>
      obtain ⟨rfl, -, hg | hm⟩ := hok
      · exact absurd hg.gen_eq hne
      refine h.go (kept_local ..) (fun k' c hg' _ => ?_)
        (fun c hl => absurd (hp ▸ hl : (Pc.blocked .first k b 0).Leads c) id) trivial
      -- whoever gathers does so elsewhere
      have hcb : b ≠ c := by
        rintro rfl
        exact absurd (hm.gen_eq.symm.trans hg'.gen_eq) Nat.one_ne_zero
      rw [hp]
      exact (decide_eq_false fun hh => hcb hh.2).symm
    | leaves =>
      refine h.go (kept_local ..) (fun k' c _ _ => ?_)
        (fun c hl => absurd (hp ▸ hl : (Pc.blocked .second k b gen).Leads c) id) ?_
      · rw [hp]
        cases k <;> rfl
      · cases k <;> trivial
  | restoring b =>
    cases hm
    refine h.outside (.setRound ⟨rfl, rfl, rfl, rfl, rfl, rfl⟩ rfl) ?_ trivial fun c => ?_
    · rw [hp]
      trivial
    · rw [hp]
      rfl
  | done ok | panicked => cases hm
  | _ =>
    obtain ⟨e, hout, hx⟩ := hm.away rfl
    exact h.away (hp ▸ hout) ⟨e, hx⟩

end

/-! ## The requesters -/

section

variable {strict : Prop} {s : State} {r : Nat}

theorem forall_request {P : ReqPc → Prop} {q : ReqPc} (hr : P q)
    (h : ∀ r', r' ≠ r → P (s.rq r')) (r' : Nat) : P (update s.rq r q r') := by
  by_cases hrr : r' = r
  · subst hrr
    rw [update_self]
    exact hr
  · rw [update_of_ne hrr]
    exact h r' hrr

theorem Serve.request {sh' : Shared} {q : ReqPc} (h : Serve strict s) (e : Records s.sh sh')
    (hreq : sh'.req = s.sh.req) (hgen : ∀ b, sh'.gen b = s.sh.gen b)
    (hidle : sh'.rendezvousActive = false → s.sh.snapshotRequest = none)
    (hq : RequestServe s.sh q) :
    Serve strict { s with sh := sh', rq := update s.rq r q } where
  idle := fun hact => e.snapshotRequest.trans (hidle hact)
  gathering := by
    intro k b hg
    have hg' : Gathers s.sh k b := ⟨e.roundCount ▸ hg.lt, (e.rounds b).kind ▸ hg.kind_eq,
      (hgen b).symm.trans hg.gen_eq, hreq ▸ hg.flag⟩
    obtain ⟨hslot, hcol⟩ := h.gathering k b hg'
    refine ⟨e.snapshotRequest.trans hslot, fun hk => ?_⟩
    have hc : Collects strict { s with sh := sh' } b := (hcol hk).congr e.collected fun _ => rfl
    exact ⟨hc.nodup, hc.mem, hc.saved⟩
  threads := fun t => (h.threads t).records e
  requests := forall_request (hq.records e) fun r' _ => (h.requests r').records e
  rounds := by
    intro b hb
    have hr : RoundServe strict { s with sh := sh' } b :=
      (h.rounds b (e.roundCount ▸ hb)).records (e.rounds b) (by rw [hgen b]) fun _ => id
    exact ⟨hr.fresh, hr.served, hr.whole, hr.returned⟩

theorem Serve.window (h : Serve strict s) (sh' : Shared) (q : ReqPc) (hinv : Inv s)
    (hw : (s.rq r).InWindow) (hactive : sh'.rendezvousActive = true)
    (hcount : s.sh.roundCount ≤ sh'.roundCount)
    (hsame : ∀ b < s.sh.roundCount, sh'.rounds b = s.sh.rounds b)
    (hnew : ∀ b < sh'.roundCount, s.sh.roundCount ≤ b → (sh'.rounds b).Fresh ∧ sh'.gen b = 0)
    (hgather : ∀ k b, Gathers sh' k b →
      sh'.snapshotRequest = k.slot b ∧
        (k ≠ .reset → sh'.collected = [] ∧ ∀ t, (s.pc t).pushed b = false))
    (hq : RequestServe sh' q) :
    Serve strict { s with sh := sh', rq := update s.rq r q } where
  idle := fun hact => absurd (hactive.symm.trans hact) (fun h => nomatch h)
  gathering := by
    intro k b hg
    obtain ⟨hslot, hcol⟩ := hgather k b hg
    refine ⟨hslot, fun hk => ?_⟩
    obtain ⟨hnil, hnone⟩ := hcol hk
    refine ⟨?_, fun t => ?_, fun _ => ?_⟩
    · show (sh'.collected.map Prod.fst).Nodup
      rw [hnil]
      exact List.nodup_nil
    · show t ∈ sh'.collected.map Prod.fst ↔ (s.pc t).pushed b = true
      rw [hnil, hnone t]
      exact ⟨fun hh => (nomatch hh), fun hh => (nomatch hh)⟩
    · show ∀ item ∈ sh'.collected, item.2 ≠ none
      rw [hnil]
      exact fun item hitem => nomatch hitem
  threads := by
    intro t
    refine (h.threads t).congr (fun b hl => ?_) fun he =>
      absurd he (((hinv.requests r).held hw).early t)
    have hlt : b < s.sh.roundCount := by
      have hok := hinv.threads t
      cases hp : s.pc t with
      | lead k c q =>
        rw [hp] at hl hok
        obtain rfl : c = b := hl
        exact hok.1.lt
      | _ =>
        rw [hp] at hl
        exact absurd hl id
    rw [hsame b hlt]
    exact .refl _
  requests := forall_request hq fun r' hr => (h.requests r').late
    (fun hw' => hr (hinv.owner r' r hw' hw)) hcount fun b hb => congrArg Round.kind (hsame b hb)
  rounds := by
    intro b hb
    by_cases hlt : b < s.sh.roundCount
    · have hr : RoundServe strict { s with sh := sh' } b :=
        (h.rounds b hlt).records (by rw [hsame b hlt]; exact .refl _)
          (by unfold Shared.gen; rw [hsame b hlt]) fun _ => id
      exact ⟨hr.fresh, hr.served, hr.whole, hr.returned⟩
    · obtain ⟨hfresh, hzero⟩ := hnew b hb (Nat.le_of_not_lt hlt)
      refine ⟨fun _ => hfresh, fun hne => absurd hzero hne, fun _ cps hcps => ?_, fun ok hok => ?_⟩
      · rw [hfresh.calls] at hcps
        cases hcps
      · exact absurd (hfresh.returned.symm.trans hok) (fun h => nomatch h)

theorem Serve.told (h : Serve strict s) {b : Nat} (hr : s.rq r = .await b)
    {ok : Bool} (hsent : (s.sh.rounds b).sent = some ok) :
    Serve strict { s with
      sh := s.sh.setRound b { s.sh.rounds b with returned := some ok }
      rq := update s.rq r .idle } := by
  have hreq := h.requests r
  rw [hr] at hreq
  have hlt : b < s.sh.roundCount := hreq.1
  have hgen : ∀ c, (s.sh.setRound b { s.sh.rounds b with returned := some ok }).gen c =
      s.sh.gen c := gen_setRound rfl
  have hkind : ∀ c, ((s.sh.setRound b { s.sh.rounds b with
      returned := some ok }).rounds c).kind = (s.sh.rounds c).kind := by
    intro c
    by_cases hcb : c = b
    · rw [hcb, setRound_self]
    · rw [setRound_ne hcb]
  refine ⟨h.idle, fun k c hg => ?_, fun t => ?_, ?_, fun c hc => ?_⟩
  · have hg' : Gathers s.sh k c :=
      ⟨hg.lt, (hkind c).symm.trans hg.kind_eq, (hgen c).symm.trans hg.gen_eq, hg.flag⟩
    obtain ⟨hslot, hcol⟩ := h.gathering k c hg'
    refine ⟨hslot, fun hk => ?_⟩
    exact ⟨(hcol hk).nodup, (hcol hk).mem, (hcol hk).saved⟩
  · have hserve := h.threads t
    cases hp : s.pc t with
    | lead k c q =>
      rw [hp] at hserve
      -- a leader of this barrier would not have told yet
      have hcb : c ≠ b := by
        rintro rfl
        have hnone : (s.sh.rounds c).sent = none := by
          cases q with
          | take | slot res => exact hserve.1.sent
          | handler cps slot | clear ok slot | release ok slot => exact hserve.2.2.2.1
          | send ok slot => exact hserve.2.2.1
        exact absurd (hnone.symm.trans hsent) (fun h => nomatch h)
      refine PcServe.congr (p := .lead k c q) hserve (fun c' hl => ?_) fun _ => ⟨rfl, rfl⟩
      obtain rfl : c = c' := hl
      rw [setRound_ne hcb]
      exact .refl _
    | _ => trivial
  · refine forall_request trivial fun r' _ => ?_
    have hreq' := h.requests r'
    cases hq : s.rq r' with
    | await c =>
      rw [hq] at hreq'
      exact ⟨hreq'.1, (hkind c).trans hreq'.2⟩
    | _ =>
      rw [hq] at hreq'
      exact hreq'
  · by_cases hcb : c = b
    · subst hcb
      have hround := h.rounds c hlt
      refine ⟨fun hz => ?_, fun hz hno => ?_, ?_, ?_⟩
      · have hnone := (hround.fresh ((hgen c).symm.trans hz)).sent
        exact absurd (hnone.symm.trans hsent) (fun h => nomatch h)
      · simp only [setRound_self]
        exact hround.served (fun hh => hz ((hgen c).trans hh)) hno
      · simp only [Shared.members, setRound_self]
        exact hround.whole
      · simp only [setRound_self]
        exact fun ok' hok' => hsent.trans hok'
    · have hr' : RoundServe strict { s with
          sh := s.sh.setRound b { s.sh.rounds b with returned := some ok } } c :=
        (h.rounds c hc).records (by rw [setRound_ne hcb]; exact .refl _) (by rw [hgen c])
          fun _ => id
      exact ⟨hr'.fresh, hr'.served, hr'.whole, hr'.returned⟩

theorem Serve.asks (h : Serve strict s) (hinv : Inv s) {y : Shared × ReqPc}
    (hq : Asks s.sh (s.rq r) y) :
    Serve strict { s with sh := y.1, rq := update s.rq r y.2 } := by
  have hreq := h.requests r
  have hok := hinv.requests r
  have hwindow : (s.rq r).InWindow → s.sh.rendezvousActive = true ∧ ∀ k b, ¬ Gathers s.sh k b :=
    fun hw => ⟨(hok.held hw).active, (hok.held hw).not_gathers⟩
  have hkeep := fun (sh' : Shared) (q : ReqPc) (hw : (s.rq r).InWindow) =>
    h.window sh' q hinv hw
  have hrefl : Records s.sh s.sh := ⟨rfl, rfl, rfl, fun _ => .refl _⟩
  generalize hr : s.rq r = q at hq hreq hok hwindow hkeep
  cases hq with
  | refused => exact h.request hrefl rfl (fun _ => rfl) h.idle trivial
  | freezes k hact =>
    exact h.request ⟨rfl, rfl, rfl, fun _ => .refl _⟩ rfl (fun _ => rfl) (fun hh => nomatch hh)
      (h.idle hact)
  | finds | latches => exact h.request hrefl rfl (fun _ => rfl) h.idle hreq
  | unfreezes =>
    exact h.request ⟨rfl, rfl, rfl, fun _ => .refl _⟩ rfl (fun _ => rfl) (fun _ => hreq) trivial
  | installs k ids =>
    obtain ⟨hact, hng⟩ := hwindow trivial
    refine hkeep _ _ trivial hact (Nat.le_succ _) (fun b hb => setRound_ne (Nat.ne_of_lt hb) _)
      (fun b hb hge => ?_) (fun k' b hg => ?_) ?_
    · obtain rfl : b = s.sh.roundCount := Nat.le_antisymm (Nat.lt_succ_iff.mp hb) hge
      unfold Shared.gen
      rw [setRound_self]
      exact ⟨⟨rfl, rfl, rfl, rfl⟩, rfl⟩
    · have := (RequestOk.held hok trivial).flags k'
      exact absurd (hg.flag.symm.trans this) (fun h => nomatch h)
    · cases k with
      | reset => exact ⟨hreq, fun hh => absurd rfl hh⟩
      | _ => exact hreq
  | posts b =>
    obtain ⟨hact, hng⟩ := hwindow trivial
    refine hkeep _ _ trivial hact le_rfl (fun _ _ => rfl)
      (fun b hb hge => absurd hb (Nat.not_lt_of_le hge)) (fun k' c hg => ?_) rfl
    exact absurd ⟨hg.lt, hg.kind_eq, hg.gen_eq, hg.flag⟩ (hng k' c)
  | clears k b =>
    obtain ⟨hact, hng⟩ := hwindow trivial
    refine hkeep _ _ trivial hact le_rfl (fun _ _ => rfl)
      (fun b hb hge => absurd hb (Nat.not_lt_of_le hge)) (fun k' c hg => ?_) ⟨hreq, fun _ => rfl⟩
    exact absurd ⟨hg.lt, hg.kind_eq, hg.gen_eq, hg.flag⟩ (hng k' c)
  | raises k b =>
    obtain ⟨hact, hng⟩ := hwindow trivial
    obtain ⟨hheld, hcur, hlt, hkind, hgen⟩ : Placed s k b := hok
    refine hkeep _ _ trivial hact le_rfl (fun _ _ => rfl)
      (fun b hb hge => absurd hb (Nat.not_lt_of_le hge)) (fun k' c hg => ?_) ?_
    · -- what gathers now is this barrier, and nobody has been there
      have hzero : s.sh.gen c = 0 := hg.gen_eq
      obtain rfl : c = b := hinv.gathering_unique hg.lt hlt hzero hgen
      obtain rfl : k' = k := hg.kind_eq.symm.trans hkind
      refine ⟨hreq.1, fun hk => ⟨hreq.2 hk, fun t => ?_⟩⟩
      have hthr := hinv.threads t
      cases hp : s.pc t with
      | fetch k'' =>
        rw [hp] at hthr
        obtain ⟨c', hg', -⟩ := hthr
        exact absurd hg' (hng k'' c')
      | arrive half k'' c' =>
        rw [hp] at hthr
        cases half with
        | first => exact absurd hthr.1 (hng k'' c')
        | second => rfl
      | blocked half k'' c' g =>
        rw [hp] at hthr
        cases half with
        | first =>
          have hm := hthr.2.2.resolve_left (hng k'' c')
          refine decide_eq_false fun hh => ?_
          rw [hh.2] at hm
          exact absurd (hm.gen_eq.symm.trans hzero) Nat.one_ne_zero
        | second => rfl
      | _ => rfl
    · dsimp only
      split
      · rename_i hk
        exact ⟨hlt, hkind.trans hk⟩
      · trivial
  | hears b ok hsent => exact h.told hr hsent

/-! ## Every step and every run -/

def SavesOk : Act → Prop
  | .thread _ pick => pick.savesFail = false
  | _ => True

instance : (a : Act) → Decidable (SavesOk a)
  | .thread _ pick => inferInstanceAs (Decidable (pick.savesFail = false))
  | .call .. | .request _ | .join => isTrue trivial

theorem Serve.step (h : Serve strict s) (hinv : Inv s) {a : Act} (hsave : strict → SavesOk a)
    {s' : State} (hst : step s a = some s') : Serve strict s' := by
  cases step_acts hst with
  | thread t pick x hm => exact h.goes hinv hsave hm
  | call r k =>
    refine h.request ⟨rfl, rfl, rfl, fun _ => .refl _⟩ rfl (fun _ => rfl) h.idle ?_
    unfold requestCall
    split <;> trivial
  | request r y hq => exact h.asks hinv hq
  | join threads main =>
    have h' : Serve strict { s with
        sh := { s.sh with threads := threads }, rq := update s.rq 0 (s.rq 0) } := h.request
      ⟨rfl, rfl, rfl, fun _ => .refl _⟩ rfl (fun _ => rfl) h.idle (h.requests 0)
    rw [update_eq_self] at h'
    exact ⟨h'.idle, fun k b hg => ⟨(h'.gathering k b hg).1, fun hk =>
      have hc := (h'.gathering k b hg).2 hk
      ⟨hc.nodup, hc.mem, hc.saved⟩⟩, h'.threads, h'.requests, fun b hb =>
      have hr := h'.rounds b hb
      ⟨hr.fresh, hr.served, hr.whole, hr.returned⟩⟩

end

end Ignition.Vmm.Rendezvous
