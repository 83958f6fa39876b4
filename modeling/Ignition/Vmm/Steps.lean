import Ignition.Vmm.RendezvousMeet

/-!
# What a step can do

The steps of the threads, of the requesters and of the machine, once, as relations: a constructor
for each way a step can go, with what it found. `step_acts` says that there are no others. A proof
that something is kept names the moves that matter to it and has one line for the rest.
-/

namespace Ignition.Vmm.Rendezvous

open Parties Runs Ignition.Hvf Option

/-- The moves of the thread of vCPU `t`. -/
inductive Goes (sh : Shared) (t : Nat) : Pc → Pick → Shared × Pc → Prop where
  | born (start : Start) (h : sh.spawned.lookup t = some start) :
    Goes sh t .absent .go (sh, .start (.creating start))
  -- coming up
  | created :
    Goes sh t (.start (.creating .restored)) (.result true)
      ({ sh with vcpuids := sh.vcpuids ++ [t] }, .start (.arrive .first true false))
  | notCreated :
    Goes sh t (.start (.creating .restored)) (.result false)
      ({ sh with shutdown := true, startFailed := true }, .start (.arrive .first false false))
  | registered (start : Start) (h : start ≠ .restored) :
    Goes sh t (.start (.creating start)) (.result true)
      ({ sh with vcpuids := sh.vcpuids ++ [t] }, .start .setting)
  | notRegistered (start : Start) (h : start ≠ .restored) :
    Goes sh t (.start (.creating start)) (.result false) (sh, .done false)
  | set : Goes sh t (.start .setting) (.result true) (sh, .loop .top)
  | notSet : Goes sh t (.start .setting) (.result false) (sh, .done false)
  | startWaits (half : Half) (created gicErr : Bool)
    (h : sh.startBarrier.count + 1 < sh.startBarrier.size) :
    Goes sh t (.start (.arrive half created gicErr)) .go
      ({ sh with startBarrier := { sh.startBarrier with count := sh.startBarrier.count + 1 } },
        .start (.blocked half created gicErr sh.startBarrier.gen))
  | startLeads (created gicErr : Bool) (h : ¬ sh.startBarrier.count + 1 < sh.startBarrier.size) :
    Goes sh t (.start (.arrive .first created gicErr)) .go
      ({ sh with startBarrier := { sh.startBarrier with count := 0, gen := sh.startBarrier.gen + 1 } },
        .start (.lead created))
  | startOpens (created gicErr : Bool) (h : ¬ sh.startBarrier.count + 1 < sh.startBarrier.size) :
    Goes sh t (.start (.arrive .second created gicErr)) .go
      ({ sh with startBarrier := { sh.startBarrier with count := 0, gen := sh.startBarrier.gen + 1 } },
        .start (.check created gicErr))
  | startWakes (created gicErr : Bool) (gen : Nat) (h : sh.startBarrier.gen ≠ gen) :
    Goes sh t (.start (.blocked .first created gicErr gen)) .go
      (sh, .start (.arrive .second created gicErr))
  | startLeaves (created gicErr : Bool) (gen : Nat) (h : sh.startBarrier.gen ≠ gen) :
    Goes sh t (.start (.blocked .second created gicErr gen)) .go
      (sh, .start (.check created gicErr))
  | skipsGic (created : Bool) (h : (sh.shutdown || !sh.gicBlob) = true) :
    Goes sh t (.start (.lead created)) .go (sh, .start (.arrive .second created false))
  | startsGic (created : Bool) (h : (sh.shutdown || !sh.gicBlob) = false) :
    Goes sh t (.start (.lead created)) .go (sh, .start (.gic created))
  | gicRestored (created : Bool) :
    Goes sh t (.start (.gic created)) (.result true)
      ({ sh with gicRestores := sh.gicRestores + 1 }, .start (.arrive .second created false))
  | gicFailed (created : Bool) :
    Goes sh t (.start (.gic created)) (.result false)
      ({ sh with shutdown := true, startFailed := true }, .start (.arrive .second created true))
  | stops (created gicErr : Bool) (h : sh.shutdown = true) :
    Goes sh t (.start (.check created gicErr)) .go (sh, .done (created && !gicErr))
  | goesOn (gicErr : Bool) (h : sh.shutdown = false) :
    Goes sh t (.start (.check true gicErr)) .go (sh, .start .restore)
  | unwraps (gicErr : Bool) (h : sh.shutdown = false) :
    Goes sh t (.start (.check false gicErr)) .go (sh, .panicked)
  | restored : Goes sh t (.start .restore) (.result true) (sh, .loop .top)
  | notRestored : Goes sh t (.start .restore) (.result false) (sh, .done false)
  -- the run loop
  | ends (h : sh.shutdown = true) : Goes sh t (.loop .top) .go (sh, .done true)
  | looks (h : sh.shutdown = false) : Goes sh t (.loop .top) .go (sh, .loop (.poll .snapshot))
  | joins (k : Kind) (h : sh.req k = true) (hk : k ≠ .reset) :
    Goes sh t (.loop (.poll k)) .go (sh, .push k)
  | joinsReset (h : sh.req .reset = true) :
    Goes sh t (.loop (.poll .reset)) .go (sh, .fetch .reset)
  | looksOn (k k' : Kind) (h : sh.req k = false) (hk : k.next = .poll k') :
    Goes sh t (.loop (.poll k)) .go (sh, .loop (.poll k'))
  | enters (h : sh.req .reset = false) : Goes sh t (.loop (.poll .reset)) .go (sh, .loop .guest)
  | runFails : Goes sh t (.loop .guest) .fail (sh, .done false)
  | exits : Goes sh t (.loop .guest) .other (sh, .loop (.exit .other))
  | calls (regs : Regs) :
    Goes sh t (.loop .guest) (.psci regs)
      ({ sh with x0 := Function.update sh.x0 t (regs.handlePsciRequest.1.reg 0) },
        .loop (.exit (exitOf regs.handlePsciRequest.2)))
  | goesRound : Goes sh t (.loop (.exit .other)) .go (sh, .loop .top)
  | shutsDown : Goes sh t (.loop (.exit .shutdown)) .go ({ sh with shutdown := true }, .done true)
  | refuses (target entry ctx : Nat) (h : sh.shutdown = true) :
    Goes sh t (.loop (.exit (.cpuOn target entry ctx))) .go
      (sh.decided t target entry ctx false, .loop .top)
  | tries (target entry ctx : Nat) (h : sh.shutdown = false) :
    Goes sh t (.loop (.exit (.cpuOn target entry ctx))) .go (sh, .loop (.claiming target entry ctx))
  | claims (target entry ctx : Nat) (running : List Nat)
    (h : claim sh.mpidrs sh.running sh.rendezvousActive target = (.claimed, running)) :
    Goes sh t (.loop (.claiming target entry ctx)) .go
      ({ sh with running := running }, .loop (.spawning target entry ctx))
  | drops (target entry ctx : Nat)
    (h : (claim sh.mpidrs sh.running sh.rendezvousActive target).1 ≠ .claimed) :
    Goes sh t (.loop (.claiming target entry ctx)) .go
      (sh.decided t target entry ctx false, .loop .top)
  | spawns (target entry ctx : Nat) :
    Goes sh t (.loop (.spawning target entry ctx)) .go
      ({ sh.decided t target entry ctx true with
        spawned := sh.spawned ++ [(target, .secondary entry ctx)]
        threads := sh.threads ++ [target] }, .loop .top)
  -- the rendezvous
  | pushes (k : Kind) (state : Option VcpuState) :
    Goes sh t (.push k) (.saved state)
      ({ sh with collected := sh.collected ++ [(t, state)] }, .fetch k)
  | fetches (k : Kind) (b : Nat) (h : sh.snapBarrier = some b) :
    Goes sh t (.fetch k) .go (sh, .arrive .first k b)
  | misses (k : Kind) (h : sh.snapBarrier = none) : Goes sh t (.fetch k) .go (sh, .panicked)
  | waits (half : Half) (k : Kind) (b : Nat)
    (h : (sh.rounds b).barrier.count + 1 < (sh.rounds b).barrier.size) :
    Goes sh t (.arrive half k b) .go
      (sh.setRound b (sh.rounds b).counted, .blocked half k b (sh.gen b))
  | leads (k : Kind) (b : Nat)
    (h : ¬ (sh.rounds b).barrier.count + 1 < (sh.rounds b).barrier.size) :
    Goes sh t (.arrive .first k b) .go (leadOf (sh.setRound b (sh.rounds b).flipped) k b)
  | opens (k : Kind) (b : Nat)
    (h : ¬ (sh.rounds b).barrier.count + 1 < (sh.rounds b).barrier.size) :
    Goes sh t (.arrive .second k b) .go
      (sh.setRound b (sh.rounds b).flipped, afterSecond k b)
  | wakes (k : Kind) (b gen : Nat) (h : sh.gen b ≠ gen) :
    Goes sh t (.blocked .first k b gen) .go (sh, .arrive .second k b)
  | leaves (k : Kind) (b gen : Nat) (h : sh.gen b ≠ gen) :
    Goes sh t (.blocked .second k b gen) .go (sh, afterSecond k b)
  | restores (b : Nat) (ok : Bool) :
    Goes sh t (.restoring b) (.result ok) (sh.setRound b { sh.rounds b with
      restores := if sh.hasCheckpoint t then (sh.rounds b).restores ++ [t]
        else (sh.rounds b).restores }, .loop .top)
  -- the leader
  | takes (k : Kind) (b : Nat) :
    Goes sh t (.lead k b .take) .go
      ({ sh with collected := [] }, .lead k b (.slot (collect sh.collected)))
  | begins (k : Kind) (b : Nat) (cps : List VcpuCheckpoint) :
    Goes sh t (.lead k b (.slot (some cps))) .go
      ({ sh.setRound b { sh.rounds b with calls := (sh.rounds b).calls ++ [cps] } with
        snapshotRequest := none }, .lead k b (.handler cps sh.snapshotRequest))
  | givesUp (k : Kind) (b : Nat) :
    Goes sh t (.lead k b (.slot none)) .go
      ({ sh with snapshotRequest := none }, .lead k b (.clear false sh.snapshotRequest))
  | handles (k : Kind) (b : Nat) (cps : List VcpuCheckpoint) (slot : Option Nat) (ok : Bool) :
    Goes sh t (.lead k b (.handler cps slot)) (.result ok)
      ({ sh.setRound b { sh.rounds b with outcome := some ok } with
        resetPoint := if k = .checkpoint ∧ ok = true then some cps else sh.resetPoint },
        .lead k b (.clear ok slot))
  | clears (k : Kind) (b : Nat) (ok : Bool) (slot : Option Nat) :
    Goes sh t (.lead k b (.clear ok slot)) .go
      ({ sh with req := Function.update sh.req k false }, .lead k b (.release ok slot))
  | releases (k : Kind) (b : Nat) (ok : Bool) (slot : Option Nat) :
    Goes sh t (.lead k b (.release ok slot)) .go
      ({ sh with rendezvousActive := false }, .lead k b (.send ok slot))
  | sends (k : Kind) (b : Nat) (ok : Bool) (c : Nat) :
    Goes sh t (.lead k b (.send ok (some c))) .go
      (sh.setRound c { sh.rounds c with sent := some ok }, .arrive .second k b)
  | tellsNobody (k : Kind) (b : Nat) (ok : Bool) :
    Goes sh t (.lead k b (.send ok none)) .go (sh, .arrive .second k b)

/-- The moves of a requester. -/
inductive Asks (sh : Shared) : ReqPc → Shared × ReqPc → Prop where
  | refused (k : Kind) (h : sh.rendezvousActive = true) : Asks sh (.begin k) (sh, .idle)
  | freezes (k : Kind) (h : sh.rendezvousActive = false) :
    Asks sh (.begin k) ({ sh with rendezvousActive := true }, .latch k)
  | finds (k : Kind) (h : sh.vcpuids = []) : Asks sh (.latch k) (sh, .unfreeze)
  | latches (k : Kind) (h : sh.vcpuids ≠ []) : Asks sh (.latch k) (sh, .install k sh.vcpuids)
  | unfreezes : Asks sh .unfreeze ({ sh with rendezvousActive := false }, .idle)
  | installs (k : Kind) (ids : List Nat) :
    Asks sh (.install k ids) ({ sh.setRound sh.roundCount (.new k ids) with
      roundCount := sh.roundCount + 1
      snapBarrier := some sh.roundCount }, k.prepare sh.roundCount)
  | posts (b : Nat) : Asks sh (.post b) ({ sh with snapshotRequest := some b }, .clear .snapshot b)
  | clears (k : Kind) (b : Nat) : Asks sh (.clear k b) ({ sh with collected := [] }, .raise k b)
  | raises (k : Kind) (b : Nat) :
    Asks sh (.raise k b) ({ sh with req := Function.update sh.req k true },
      if k = .snapshot then .await b else .idle)
  | hears (b : Nat) (ok : Bool) (h : (sh.rounds b).sent = some ok) :
    Asks sh (.await b) (sh.setRound b { sh.rounds b with returned := some ok }, .idle)

/-- The steps of the machine. -/
inductive Acts (s : State) : Act → State → Prop where
  | thread (t : Nat) (pick : Pick) (x : Shared × Pc) (h : Goes s.sh t (s.pc t) pick x) :
    Acts s (.thread t pick) { s with sh := x.1, pc := Function.update s.pc t x.2 }
  | call (r : Nat) (k : Kind) (h : s.rq r = .idle) :
    Acts s (.call r k) { s with rq := Function.update s.rq r (requestCall s.sh k) }
  | request (r : Nat) (y : Shared × ReqPc) (h : Asks s.sh (s.rq r) y) :
    Acts s (.request r) { s with sh := y.1, rq := Function.update s.rq r y.2 }
  | join (threads : List Nat) (main : MainPc) :
    Acts s .join { s with sh := { s.sh with threads := threads }, main := main }

section

variable {sh : Shared} {t : Nat} {pick : Pick} {x : Shared × Pc}

theorem startStep_goes {p : StartPc} (hst : startStep sh t p pick = some x) :
    Goes sh t (.start p) pick x := by
  unfold startStep at hst
  split at hst <;> try (cases hst <;> constructor <;> assumption)
  · rename_i ok
    cases hst
    cases ok <;> constructor
  · rename_i half created gicErr
    by_cases hlt : sh.startBarrier.count + 1 < sh.startBarrier.size
    · rw [Barrier.arrive_of_lt hlt] at hst
      cases hst
      exact .startWaits half created gicErr hlt
    · rw [Barrier.arrive_of_not_lt hlt] at hst
      cases half <;> cases hst <;> constructor <;> exact hlt
  · rename_i half created gicErr gen
    split at hst <;> cases hst
    cases half <;> constructor <;> assumption
  · cases hst
    split <;> constructor
    · assumption
    · exact Bool.eq_false_of_not_eq_true ‹_›
  · rename_i created gicErr
    cases hst
    cases hdown : sh.shutdown with
    | true => exact .stops created gicErr hdown
    | false => cases created <;> constructor <;> exact hdown
  · rename_i ok
    cases hst
    cases ok <;> constructor

theorem loopStep_goes {p : LoopPc} (hst : loopStep sh t p pick = some x) :
    Goes sh t (.loop p) pick x := by
  unfold loopStep at hst
  split at hst <;> try (cases hst <;> constructor)
  · cases hst
    cases hdown : sh.shutdown <;> constructor <;> exact hdown
  · rename_i k
    cases hst
    cases hreq : sh.req k with
    | true =>
      cases k with
      | reset => exact .joinsReset hreq
      | _ => exact .joins _ hreq fun hh => Kind.noConfusion hh
    | false =>
      cases k with
      | reset => exact .enters hreq
      | _ => exact .looksOn _ _ hreq rfl
  · rename_i target entry ctx
    cases hdown : sh.shutdown <;> rw [hdown] at hst <;> cases hst <;> constructor <;> exact hdown
  · rename_i target entry ctx
    split at hst
    · rename_i running heq
      cases hst
      exact .claims target entry ctx running heq
    · rename_i result running hne heq
      cases hst
      exact .drops target entry ctx fun hh => hne ((congrArg Prod.fst heq).symm.trans hh)

theorem meetStep_goes {p : Pc} (hst : meetStep sh t p pick = some x) : Goes sh t p pick x := by
  unfold meetStep at hst
  split at hst <;> try (cases hst <;> constructor)
  · split at hst <;> cases hst <;> constructor <;> assumption
  · rename_i half k b
    dsimp only at hst
    by_cases hlt : (sh.rounds b).barrier.count + 1 < (sh.rounds b).barrier.size
    · rw [Barrier.arrive_of_lt hlt] at hst
      cases hst
      exact .waits half k b hlt
    · rw [Barrier.arrive_of_not_lt hlt] at hst
      cases half <;> cases hst <;> constructor <;> exact hlt
  · rename_i half k b gen
    split at hst
    · cases hst
    · cases half <;> cases hst <;> constructor <;> assumption

theorem leadStep_goes {k : Kind} {b : Nat} {q : LeadPc} (hst : leadStep sh k b q pick = some x) :
    Goes sh t (.lead k b q) pick x := by
  unfold leadStep at hst
  split at hst <;> try (cases hst <;> constructor)
  split at hst <;> cases hst <;> constructor

theorem threadStep_goes {p : Pc} (hst : threadStep sh t p pick = some x) :
    Goes sh t p pick x := by
  unfold threadStep at hst
  split at hst
  · obtain ⟨start, hlook, rfl⟩ := map_eq_some_iff.mp hst
    exact .born start hlook
  · exact startStep_goes hst
  · exact loopStep_goes hst
  · exact leadStep_goes hst
  · exact meetStep_goes hst

theorem requestStep_asks {q : ReqPc} {y : Shared × ReqPc} (hst : requestStep sh q = some y) :
    Asks sh q y := by
  unfold requestStep at hst
  split at hst <;> try (cases hst <;> constructor)
  · rename_i k
    cases hact : sh.rendezvousActive <;> rw [hact] at hst <;> cases hst <;> constructor <;> exact hact
  · cases hst
    split <;> constructor <;> assumption
  · obtain ⟨ok, hsent, rfl⟩ := map_eq_some_iff.mp hst
    exact .hears _ ok hsent

theorem mainStep_sh {s : State} {x : Shared × MainPc} (hst : mainStep s = some x) :
    ∃ threads, x.1 = { s.sh with threads := threads } := by
  unfold mainStep at hst
  split at hst
  · split at hst <;> cases hst <;> exact ⟨_, rfl⟩
  · split at hst
    · cases hst
      exact ⟨_, rfl⟩
    · cases hst
  · cases hst

theorem step_acts {s s' : State} {a : Act} (hst : step s a = some s') : Acts s a s' := by
  cases a with
  | thread t pick =>
    obtain ⟨x, hx, rfl⟩ := map_eq_some_iff.mp hst
    exact .thread t pick x (threadStep_goes hx)
  | call r k =>
    by_cases hidle : s.rq r = .idle
    · cases (if_pos hidle).symm.trans hst
      exact .call r k hidle
    · cases (if_neg hidle).symm.trans hst
  | request r =>
    obtain ⟨y, hy, rfl⟩ := map_eq_some_iff.mp hst
    exact .request r y (requestStep_asks hy)
  | join =>
    obtain ⟨⟨sh', main⟩, hx, rfl⟩ := map_eq_some_iff.mp hst
    obtain ⟨threads, heq⟩ := mainStep_sh hx
    obtain rfl : sh' = _ := heq
    exact .join threads main

end

end Ignition.Vmm.Rendezvous
