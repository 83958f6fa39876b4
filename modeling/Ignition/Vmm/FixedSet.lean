import Ignition.Vmm.ServiceRun

/-!
# A fixed set of vCPUs

Runs that start with a set of registered vCPUs in their run loops (`looping`) and in which no
CPU_ON brings up another one (`StaysFixed`). Every request then latches the whole set, so
`Inv` needs no further condition: `Fixed.inv_run` and `Fixed.serve_run` are what the results
about such runs start from.
-/

namespace Ignition.Vmm.Rendezvous

open Parties Runs Ignition.Hvf

/-! ## The start -/

/-- The vCPUs `ids` are registered and at the top of their run loops. -/
def looping (vcpuCount : Nat) (ids : List Nat) (point : Option (List VcpuCheckpoint)) : State where
  sh := { Shared.new vcpuCount with
    running := ids
    vcpuids := ids
    threads := ids
    resetPoint := point }
  pc := fun t => if t ∈ ids then .loop .top else .absent
  rq := fun _ => .idle
  main := .popping true

/-- The thread is inside `run_loop`. -/
def Pc.inRunLoop : Pc → Bool
  | .loop (.spawning _ _ _) => false
  | .loop _ => true
  | .push _ => true
  | .fetch _ => true
  | .arrive _ _ _ => true
  | .blocked _ _ _ _ => true
  | .lead _ _ _ => true
  | .restoring _ => true
  | _ => false

def Pc.claims : Pc → Option Nat
  | .loop (.claiming target _ _) => some target
  | _ => none

def StaysFixed (s : State) : Act → Prop
  | .thread t _ => ∀ target ∈ (s.pc t).claims,
      (claim s.sh.mpidrs s.sh.running s.sh.rendezvousActive target).1 ≠ .claimed
  | _ => True

instance (s : State) : (a : Act) → Decidable (StaysFixed s a)
  | .thread t _ => inferInstanceAs (Decidable (∀ target ∈ (s.pc t).claims,
      (claim s.sh.mpidrs s.sh.running s.sh.rendezvousActive target).1 ≠ .claimed))
  | .call .. | .request _ | .join => isTrue trivial

/-- The vCPUs of a state, when they are fixed. -/
structure Fixed (ids : List Nat) (s : State) : Prop where
  running : s.sh.running = ids
  vcpuids : s.sh.vcpuids = ids
  spawned : s.sh.spawned = []
  absent : ∀ t, t ∉ ids → s.pc t = .absent
  present : ∀ t ∈ ids, (s.pc t).inRunLoop = true ∨ (s.pc t).Gone
  members : ∀ b < s.sh.roundCount, s.sh.members b = ids
  room : ∀ b < s.sh.roundCount, (s.sh.rounds b).barrier.Room
  latched : ∀ r k ids', s.rq r = .install k ids' → ids' = ids ∧ ids' ≠ []

theorem looping_pc {vcpuCount : Nat} {ids : List Nat} {point : Option (List VcpuCheckpoint)}
    {t : Nat} (ht : t ∈ ids) : (looping vcpuCount ids point).pc t = .loop .top := if_pos ht

theorem looping_absent {vcpuCount : Nat} {ids : List Nat} {point : Option (List VcpuCheckpoint)}
    {t : Nat} (ht : t ∉ ids) : (looping vcpuCount ids point).pc t = .absent := if_neg ht

section

variable {vcpuCount : Nat} {ids : List Nat} {point : Option (List VcpuCheckpoint)}

theorem Fixed.looping : Fixed ids (looping vcpuCount ids point) where
  running := rfl
  vcpuids := rfl
  spawned := rfl
  absent := fun _ ht => looping_absent ht
  present := by
    intro t ht
    rw [looping_pc ht]
    exact .inl rfl
  members := fun b hb => absurd hb (Nat.not_lt_zero b)
  room := fun b hb => absurd hb (Nat.not_lt_zero b)
  latched := fun _ _ _ h => nomatch h

theorem Inv.looping (hnd : ids.Nodup) : Inv (looping vcpuCount ids point) where
  nodup := hnd
  registered := fun _ ht => ht
  rounds := fun b hb => absurd hb (Nat.not_lt_zero b)
  flag := fun _ h => nomatch h
  threads := by
    intro t
    by_cases ht : t ∈ ids
    · rw [looping_pc ht]
      exact ht
    · rw [looping_absent ht]
      exact ⟨ht, fun _ h => nomatch h⟩
  requests := fun _ => trivial
  owner := fun _ _ h => absurd h id

theorem Serve.looping {strict : Prop} : Serve strict (looping vcpuCount ids point) where
  idle := fun _ => rfl
  gathering := fun _ b hg => absurd hg.lt (Nat.not_lt_zero b)
  threads := by
    intro t
    by_cases ht : t ∈ ids
    · rw [looping_pc ht]
      trivial
    · rw [looping_absent ht]
      trivial
  requests := fun _ => trivial
  rounds := fun b hb => absurd hb (Nat.not_lt_zero b)

end

/-! ## Steps -/

/-- The two have the same vCPUs, and no barrier has gone on by more than one generation. -/
structure SameSet (sh sh' : Shared) : Prop where
  running : sh'.running = sh.running
  vcpuids : sh'.vcpuids = sh.vcpuids
  spawned : sh'.spawned = sh.spawned
  roundCount : sh'.roundCount = sh.roundCount
  kind : ∀ b, (sh'.rounds b).kind = (sh.rounds b).kind
  members : ∀ b, sh'.members b = sh.members b
  gen : ∀ b, sh'.gen b = sh.gen b ∨ sh'.gen b = sh.gen b + 1
  room : ∀ b, (sh.rounds b).barrier.Room → (sh'.rounds b).barrier.Room

section

variable {sh : Shared} {t : Nat} {pick : Pick} {x : Shared × Pc}

theorem sameSet_local (sh : Shared) (threads : List Nat) (shutdown : Bool) (req : Kind → Bool)
    (snapshotRequest : Option Nat) (active : Bool) (cur : Option Nat)
    (collected : List (Nat × Option VcpuState)) (point : Option (List VcpuCheckpoint))
    (x0 : Nat → Nat) (calls : List Call) :
    SameSet sh { sh with
      threads := threads, shutdown := shutdown, req := req, snapshotRequest := snapshotRequest
      rendezvousActive := active, snapBarrier := cur, collected := collected
      resetPoint := point, x0 := x0, calls := calls } :=
  ⟨rfl, rfl, rfl, rfl, fun _ => rfl, fun _ => rfl, fun _ => .inl rfl, fun _ => id⟩

theorem SameSet.setRound {b : Nat} {r : Round} (hk : r.kind = (sh.rounds b).kind)
    (hm : r.members = sh.members b)
    (hg : r.barrier.gen = sh.gen b ∨ r.barrier.gen = sh.gen b + 1)
    (hroom : (sh.rounds b).barrier.Room → r.barrier.Room) : SameSet sh (sh.setRound b r) := by
  have hr := forall_setRound sh (P := fun c r => r.kind = (sh.rounds c).kind ∧
    r.members = sh.members c ∧ (r.barrier.gen = sh.gen c ∨ r.barrier.gen = sh.gen c + 1) ∧
      ((sh.rounds c).barrier.Room → r.barrier.Room))
    ⟨hk, hm, hg, hroom⟩ fun c _ => ⟨rfl, rfl, .inl rfl, id⟩
  exact ⟨rfl, rfl, rfl, rfl, fun c => (hr c).1, fun c => (hr c).2.1, fun c => (hr c).2.2.1,
    fun c => (hr c).2.2.2⟩

theorem SameSet.trans {sh' sh'' : Shared} (h : SameSet sh sh') (h' : SameSet sh' sh'')
    (hgen : ∀ b, sh''.gen b = sh'.gen b) : SameSet sh sh'' :=
  ⟨h'.running.trans h.running, h'.vcpuids.trans h.vcpuids, h'.spawned.trans h.spawned,
    h'.roundCount.trans h.roundCount, fun b => (h'.kind b).trans (h.kind b),
    fun b => (h'.members b).trans (h.members b), fun b => by
      rw [hgen b]
      exact h.gen b, fun b hb => h'.room b (h.room b hb)⟩

theorem Goes.sameSet {p : Pc} (hm : Goes sh t p pick x) (hp : p.inRunLoop = true)
    (hclaim : ∀ target ∈ p.claims,
      (claim sh.mpidrs sh.running sh.rendezvousActive target).1 ≠ .claimed) :
    SameSet sh x.1 ∧ (x.2.inRunLoop = true ∨ x.2.Gone) := by
  have hopen : ∀ b, SameSet sh (sh.setRound b (sh.rounds b).flipped) := fun b =>
    .setRound rfl rfl (.inr rfl) fun hroom => Nat.lt_of_le_of_lt (Nat.zero_le _) hroom
  cases hm with
  | claims target entry ctx running hcl =>
    exact absurd (congrArg Prod.fst hcl) (hclaim target rfl)
  | waits half k b hlt => exact ⟨.setRound rfl rfl (.inl rfl) fun _ => hlt, .inl rfl⟩
  | leads k b =>
    cases k with
    | reset =>
      exact ⟨(hopen b).trans (.setRound rfl rfl (.inl rfl) id) (gen_setRound rfl), .inl rfl⟩
    | _ => exact ⟨hopen b, .inl rfl⟩
  | opens k b => cases k <;> exact ⟨hopen b, .inl rfl⟩
  | leaves k => cases k <;> exact ⟨sameSet_local .., .inl rfl⟩
  | restores | sends => exact ⟨.setRound rfl rfl (.inl rfl) id, .inl rfl⟩
  | begins k b cps =>
    have hset : SameSet sh (sh.setRound b { sh.rounds b with
        calls := (sh.rounds b).calls ++ [cps] }) := .setRound rfl rfl (.inl rfl) id
    exact ⟨hset.trans (sameSet_local ..) fun _ => rfl, .inl rfl⟩
  | handles k b cps slot ok =>
    have hset : SameSet sh (sh.setRound b { sh.rounds b with outcome := some ok }) :=
      .setRound rfl rfl (.inl rfl) id
    exact ⟨hset.trans (sameSet_local ..) fun _ => rfl, .inl rfl⟩
  | _ =>
    first
    | exact ⟨sameSet_local .., .inl rfl⟩
    | exact ⟨sameSet_local .., .inr trivial⟩
    | cases hp

end

section

variable {ids : List Nat} {s s' : State}

theorem Fixed.inRunLoop (h : Fixed ids s) {t : Nat} {pick : Pick} {x : Shared × Pc}
    (hm : Goes s.sh t (s.pc t) pick x) : t ∈ ids ∧ (s.pc t).inRunLoop = true := by
  by_cases ht : t ∈ ids
  · refine ⟨ht, (h.present t ht).resolve_right fun hgone => ?_⟩
    generalize s.pc t = p at hm hgone
    cases hm <;> exact hgone
  rw [h.absent t ht] at hm
  cases hm with
  | born start hlook =>
    rw [h.spawned] at hlook
    cases hlook

theorem Fixed.thread (h : Fixed ids s) {t : Nat} (ht : t ∈ ids) {sh' : Shared} {p' : Pc}
    (e : SameSet s.sh sh') (hp' : p'.inRunLoop = true ∨ p'.Gone) :
    Fixed ids { s with sh := sh', pc := Function.update s.pc t p' } where
  running := e.running.trans h.running
  vcpuids := e.vcpuids.trans h.vcpuids
  spawned := e.spawned.trans h.spawned
  absent := by
    intro u hu
    show Function.update s.pc t p' u = .absent
    have hut : u ≠ t := fun hut => hu (hut ▸ ht)
    rw [Function.update_of_ne hut]
    exact h.absent u hu
  present := fun u hu => forall_update (P := fun u p => u ∈ ids → p.inRunLoop = true ∨ p.Gone)
    h.present (fun _ => hp') u hu
  members := fun b hb => (e.members b).trans (h.members b (e.roundCount ▸ hb))
  room := fun b hb => e.room b (h.room b (e.roundCount ▸ hb))
  latched := h.latched

theorem Fixed.request (h : Fixed ids s) {r : Nat} {y : Shared × ReqPc}
    (hq : Asks s.sh (s.rq r) y) :
    Fixed ids { s with sh := y.1, rq := Function.update s.rq r y.2 } := by
  have hgo : ∀ {sh' : Shared} {q : ReqPc}, SameSet s.sh sh' →
      (∀ k ids', q = .install k ids' → ids' = ids ∧ ids' ≠ []) →
      Fixed ids { s with sh := sh', rq := Function.update s.rq r q } := by
    intro sh' q e hq
    refine ⟨e.running.trans h.running, e.vcpuids.trans h.vcpuids, e.spawned.trans h.spawned,
      h.absent, h.present, fun b hb => (e.members b).trans (h.members b (e.roundCount ▸ hb)),
      fun b hb => e.room b (h.room b (e.roundCount ▸ hb)), ?_⟩
    exact forall_request (P := fun q => ∀ k ids', q = .install k ids' → ids' = ids ∧ ids' ≠ []) hq
      fun r' _ => h.latched r'
  generalize hr : s.rq r = q at hq
  cases hq with
  | latches k hne =>
    refine hgo (sameSet_local ..) fun k ids' hq => ?_
    obtain ⟨-, rfl⟩ := ReqPc.install.inj hq
    exact ⟨h.vcpuids, hne⟩
  | installs k ids' =>
    obtain ⟨hids, hne⟩ := h.latched r k ids' hr
    have hold : ∀ {b}, b < s.sh.roundCount + 1 → b ≠ s.sh.roundCount → b < s.sh.roundCount :=
      fun hb hne => Nat.lt_of_le_of_ne (Nat.lt_succ_iff.mp hb) hne
    refine ⟨h.running, h.vcpuids, h.spawned, h.absent, h.present, ?_, ?_, ?_⟩
    · exact forall_setRound _ (P := fun b r => b < s.sh.roundCount + 1 → r.members = ids)
        (fun _ => hids) fun b hne hb => h.members b (hold hb hne)
    · exact forall_setRound _ (P := fun b r => b < s.sh.roundCount + 1 → r.barrier.Room)
        (fun _ => List.length_pos_of_ne_nil hne) fun b hne hb => h.room b (hold hb hne)
    · refine forall_request (P := fun q => ∀ k ids', q = .install k ids' → ids' = ids ∧ ids' ≠ []) ?_
        fun r' _ => h.latched r'
      cases k <;> exact fun _ _ hq => nomatch hq
  | raises =>
    refine hgo (sameSet_local ..) fun _ _ hq => ?_
    split at hq <;> cases hq
  | hears => exact hgo (.setRound rfl rfl (.inl rfl) id) fun _ _ hq => nomatch hq
  | _ => exact hgo (sameSet_local ..) fun _ _ hq => nomatch hq

theorem Fixed.step (h : Fixed ids s) {a : Act} (hfix : StaysFixed s a)
    (hst : step s a = some s') : Fixed ids s' := by
  cases step_acts hst with
  | thread t pick x hm =>
    obtain ⟨ht, hin⟩ := h.inRunLoop hm
    obtain ⟨e, hp'⟩ := hm.sameSet hin hfix
    exact h.thread ht e hp'
  | call r k =>
    refine ⟨h.running, h.vcpuids, h.spawned, h.absent, h.present, h.members, h.room, ?_⟩
    refine forall_request (P := fun q => ∀ k ids', q = .install k ids' → ids' = ids ∧ ids' ≠ []) ?_
      fun r' _ => h.latched r'
    intro k' ids' hq
    unfold requestCall at hq
    split at hq <;> cases hq
  | request r y hq => exact h.request hq
  | join =>
    exact ⟨h.running, h.vcpuids, h.spawned, h.absent, h.present, h.members, h.room, h.latched⟩

theorem Fixed.settled (h : Fixed ids s) : Settled s := by
  intro t ht
  rw [h.running] at ht
  rw [h.vcpuids]
  exact .inl ht

theorem Fixed.latchesSettled (h : Fixed ids s) (a : Act) : LatchesSettled s a := by
  cases a with
  | request r => exact fun _ => h.settled
  | _ => trivial

end

/-! ## Runs -/

/-- What holds in every state of a run with a fixed set. -/
structure Steady (strict : Prop) (ids : List Nat) (s : State) : Prop where
  fixed : Fixed ids s
  inv : Inv s
  serve : Serve strict s

section

variable {strict : Prop} {ids : List Nat} {s s' : State}

theorem Steady.looping {vcpuCount : Nat} {point : Option (List VcpuCheckpoint)}
    (hnd : ids.Nodup) : Steady strict ids (looping vcpuCount ids point) :=
  ⟨.looping, .looping hnd, .looping⟩

theorem Steady.step (h : Steady strict ids s) {a : Act} (hfix : StaysFixed s a)
    (hsave : strict → SavesOk a) (hst : Rendezvous.step s a = some s') : Steady strict ids s' :=
  ⟨h.fixed.step hfix hst, h.inv.step (h.fixed.latchesSettled a) hst,
    h.serve.step h.inv hsave hst⟩

end

end Ignition.Vmm.Rendezvous
