import Mathlib.Data.List.Sort
import Ignition.Vmm.Snapshot

/-!
# What the vCPU manager computes

The pure parts of `crates/vmm/src/vstate/vcpu_manager.rs`: the claim of a vCPU for a
bring-up, the collection of the saved states on the leader, and the choice of the vCPU
whose saved counter a restore goes by.
-/

namespace Ignition.Vmm

open Ignition.Hvf List Option

def mpidrFor (index : Nat) : Nat := index

inductive Claim where
  | claimed
  | alreadyRunning
  | unknown
  | frozen
  deriving DecidableEq

/-- `claim`, with the set of running vCPUs after it. -/
def claim (mpidrs running : List Nat) (rendezvousActive : Bool) (mpidr : Nat) :
    Claim × List Nat :=
  if mpidr ∉ mpidrs then (.unknown, running)
  else if rendezvousActive then (.frozen, running)
  else if mpidr ∈ running then (.alreadyRunning, running)
  else (.claimed, mpidr :: running)

/-- The loop of `run_collect_leader` over the pushed states; `none` if one of the vCPUs
failed to save. -/
def checkpointsOf : List (Nat × Option VcpuState) → Option (List VcpuCheckpoint)
  | [] => some []
  | (mpidr, some state) :: rest => (checkpointsOf rest).map (⟨mpidr, state⟩ :: ·)
  | (_, none) :: _ => none

/-- What `run_collect_leader` gives its handler. -/
def collect (items : List (Nat × Option VcpuState)) : Option (List VcpuCheckpoint) :=
  checkpointsOf (items.insertionSort fun a b => a.1 ≤ b.1)

variable {items : List (Nat × Option VcpuState)} {cps : List VcpuCheckpoint} {cp : VcpuCheckpoint}

theorem mem_of_checkpointsOf (h : checkpointsOf items = some cps) (hcp : cp ∈ cps) :
    (cp.mpidr, some cp.state) ∈ items := by
  fun_induction checkpointsOf items generalizing cps with
  | case1 =>
    cases h
    cases hcp
  | case2 mpidr state rest ih =>
    obtain ⟨cps', hcps', rfl⟩ := map_eq_some_iff.mp h
    rcases mem_cons.mp hcp with rfl | hcp
    · exact mem_cons_self
    · exact mem_cons_of_mem _ (ih hcps' hcp)
  | case3 => cases h

theorem mem_of_collect (h : collect items = some cps) (hcp : cp ∈ cps) :
    (cp.mpidr, some cp.state) ∈ items :=
  (mem_insertionSort _).mp (mem_of_checkpointsOf h hcp)

theorem mpidrs_of_checkpointsOf (h : checkpointsOf items = some cps) :
    cps.map VcpuCheckpoint.mpidr = items.map Prod.fst := by
  fun_induction checkpointsOf items generalizing cps with
  | case1 =>
    cases h
    rfl
  | case2 mpidr state rest ih =>
    obtain ⟨cps', hcps', rfl⟩ := map_eq_some_iff.mp h
    rw [map_cons, map_cons, ih hcps']
  | case3 => cases h

theorem checkpointsOf_ne_none (h : ∀ item ∈ items, item.2 ≠ none) : checkpointsOf items ≠ none := by
  fun_induction checkpointsOf items with
  | case1 => exact some_ne_none _
  | case2 mpidr state rest ih =>
    have hrest := ih fun item hitem => h item (mem_cons_of_mem _ hitem)
    exact fun hnone => hrest (map_eq_none_iff.mp hnone)
  | case3 mpidr rest => exact absurd rfl (h (mpidr, none) mem_cons_self)

/-- One state for each of the vCPUs, in the order of their MPIDRs. -/
structure Complete (cps : List VcpuCheckpoint) (ids : List Nat) : Prop where
  perm : (cps.map VcpuCheckpoint.mpidr).Perm ids
  sorted : (cps.map VcpuCheckpoint.mpidr).Pairwise (· ≤ ·)

theorem complete_of_collect {ids : List Nat} (h : collect items = some cps)
    (hids : (items.map Prod.fst).Perm ids) :
    Complete cps ids := by
  have hmap := mpidrs_of_checkpointsOf h
  refine ⟨?_, ?_⟩
  · rw [hmap]
    exact ((perm_insertionSort _ items).map Prod.fst).trans hids
  · rw [hmap, pairwise_map]
    exact pairwise_insertionSort (fun a b => a.1 ≤ b.1) items

theorem collect_ne_none (h : ∀ item ∈ items, item.2 ≠ none) : collect items ≠ none :=
  checkpointsOf_ne_none fun item hitem => h item ((mem_insertionSort _).mp hitem)

def primary (cps : List VcpuCheckpoint) : Option VcpuCheckpoint :=
  (cps.find? fun cp => cp.mpidr == mpidrFor 0).or cps.head?

/-- `primary_hc` of `run_restored` and `run_reset_leader` -/
def primaryHc (cps : List VcpuCheckpoint) : Nat :=
  ((primary cps).map (·.state.hostCounter)).getD 0

theorem mem_of_primary (h : primary cps = some cp) : cp ∈ cps := by
  rcases or_eq_some_iff.mp h with h | ⟨-, h⟩
  · exact mem_of_find?_eq_some h
  · exact mem_of_mem_head? h

end Ignition.Vmm
