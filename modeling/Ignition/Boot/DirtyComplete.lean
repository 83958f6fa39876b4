import Ignition.Boot.Machine

/-!
# Is the dirty set complete?

Between two drains the dirty set is meant to hold every page whose bytes changed. Guest
stores and device writes keep it so, in any interleaving: a store needs a page that has
been marked, a device write marks the pages it copied to. A balloon inflation does not.
It hands host pages back to the operating system, their bytes turn to zero, and nothing
is marked.

`dirty_complete` is the completeness of the dirty set over all runs in which every
inflation releases only pages that are dirty already or zero anyway.
-/

namespace Ignition.Boot

open Paged Runs Ignition.Vmm List

namespace Machine

/-- The state of a run in which nothing has been drained since RAM was `img`. -/
structure Since (img : Bytes) (m : Machine) : Prop where
  running : m.phase = .running
  armed : m.Armed
  tracks : Tracks img m

theorem Since.step {img : Bytes} {m m' : Machine} {a : Act} (h : Since img m)
    (hok : a.OnMemory ∧ a.Accounted m) (hst : m.step a = some m') : Since img m' := by
  have ht := touches_of_step hst hok.1 hok.2
  exact ⟨ht.phase_eq.trans h.running, ht.armed h.armed, ht.tracks img h.armed h.tracks⟩

/-- **Dirty completeness.** From a quiet machine whose RAM is write-protected, along every
run of stores, faults, device writes and accounted inflations: a page that differs from
its bytes at the start is in the dirty set, or a device write to it is still to mark it. -/
theorem dirty_complete {m m' : Machine} {as : List Act} (hq : m.Quiet) (ha : m.Armed)
    (h : Run step (fun m a => a.OnMemory ∧ a.Accounted m) m as m') {p : Nat}
    (hp : pageAt PAGE m'.mem.ram p ≠ pageAt PAGE m.mem.ram p) :
    p ∈ m'.mem.tracker.pages ∨ ∃ g ∈ m'.pending, m'.mem.pageOf g = some p := by
  have hinv : Since m.mem.ram m' :=
    h.invariant (fun _ _ _ hs hok hst => hs.step hok hst) ⟨hq.1, ha, differsIn_refl PAGE _ _⟩
  rw [DirtyTracker.mem_pages]
  by_contra hf
  refine hp (hinv.tracks p fun hs => ?_).symm
  rcases hs with hs | hs
  · exact hf hs
  · -- no reset is under way, so none has taken pages out of the bitmap
    rw [hinv.running] at hs
    cases hs

/-! ### A one-page machine -/

def tableRam : Bytes := [0, 0, 4, 0] ++ List.replicate (PAGE - 4) 0

theorem length_tableRam : tableRam.length = 1 * PAGE := by
  unfold tableRam
  rw [length_append, length_replicate]
  decide

def atRest (ram : Bytes) (h : ram.length = 1 * PAGE) : Machine where
  mem := .new ram 1 h (by rw [h]; decide)
  writable := fun _ => false
  pending := []
  session := Session.bootSession
  point := none
  captured := none
  phase := .running

theorem atRest_quiet {ram : Bytes} (h : ram.length = 1 * PAGE) : (atRest ram h).Quiet :=
  ⟨rfl, rfl⟩

theorem atRest_armed {ram : Bytes} (h : ram.length = 1 * PAGE) : (atRest ram h).Armed :=
  fun _ _ hw => nomatch hw

def tableMachine : Machine := atRest tableRam length_tableRam

def tableChain : List Devices.Desc := [⟨RAM_BASE, 4, false⟩]

def grantFirst (m : Machine) : Machine :=
  { m with mem := m.mem.mark RAM_BASE, writable := fun q => q == 0 || m.writable q }

theorem step_grantFirst {m : Machine} (hrun : m.phase = .running)
    (hpage : m.mem.pageOf RAM_BASE = some 0) :
    m.step (.fault RAM_BASE) = some (grantFirst m) := by
  simp only [step]
  rw [if_pos hrun, hpage]
  rfl

theorem pageOf_first {m : Machine} (hlen : m.mem.ram.length = 1 * PAGE) :
    m.mem.pageOf RAM_BASE = some 0 := by
  have hcount : m.mem.tracker.pageCount = 1 := by
    have hsize := m.mem.size_eq
    rw [hlen] at hsize
    exact (Nat.eq_of_mul_eq_mul_right PAGE_pos hsize).symm
  unfold Memory.pageOf DirtyTracker.pageOf
  rw [m.mem.base_eq, hcount]
  decide

def inflated (m : Machine) : Machine := { m with mem := m.mem.inflate tableChain }

theorem dirty_complete_inflated_dirty :
    pageAt PAGE (inflated (grantFirst tableMachine)).mem.ram 0 ≠
        pageAt PAGE tableMachine.mem.ram 0 ∧
      (0 ∈ (inflated (grantFirst tableMachine)).mem.tracker.pages ∨
        ∃ g ∈ (inflated (grantFirst tableMachine)).pending,
          (inflated (grantFirst tableMachine)).mem.pageOf g = some 0) := by
  have hne : pageAt PAGE (inflated (grantFirst tableMachine)).mem.ram 0 ≠
      pageAt PAGE tableMachine.mem.ram 0 := by decide +kernel
  have hacc : Act.Accounted (grantFirst tableMachine) (.inflate tableChain) := by
    intro p hp
    have hrel : Devices.releasedPages RAM_BASE (Devices.pfnAddrs tableChain)
        (grantFirst tableMachine).mem.ram = [0] := by decide +kernel
    have h0 : p = 0 := by
      have hmem := hp.1
      rw [hrel] at hmem
      exact mem_singleton.mp hmem
    rw [h0]
    exact .inl (by decide +kernel)
  have hrun : Run step (fun m a => a.OnMemory ∧ a.Accounted m) tableMachine
      [.fault RAM_BASE, .inflate tableChain] (inflated (grantFirst tableMachine)) :=
    .cons ⟨trivial, trivial⟩ (step_grantFirst rfl (pageOf_first length_tableRam))
      (.cons ⟨trivial, hacc⟩ rfl (.nil _))
  exact ⟨hne, dirty_complete (atRest_quiet _) (atRest_armed _) hrun hne⟩

theorem inflate_changes_clean_page :
    tableMachine.Quiet ∧ tableMachine.Armed ∧
      Run step (fun _ a => a.OnMemory) tableMachine [.inflate tableChain]
        (inflated tableMachine) ∧
      pageAt PAGE (inflated tableMachine).mem.ram 0 ≠ pageAt PAGE tableMachine.mem.ram 0 ∧
      (inflated tableMachine).pending = [] ∧ 0 ∉ (inflated tableMachine).mem.tracker.pages :=
  ⟨atRest_quiet _, atRest_armed _, .cons trivial rfl (.nil _), by decide +kernel, rfl,
    by decide +kernel⟩

end Machine

end Ignition.Boot
