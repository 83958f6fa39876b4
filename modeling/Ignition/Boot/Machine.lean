import Ignition.Vmm.Memory
import Ignition.Vmm.Writer

/-!
# The running machine and its three handlers

`spike/src/bin/boot.rs` installs a snapshot, a checkpoint and a reset handler over one
guest RAM with one dirty tracker. The machine below has these handlers, the guest's
stores and the devices' writes as actions, so that a run is an arbitrary interleaving of
them.

How fine the steps are follows what can overlap in the source.

- A guest store is one step. It needs write permission on its pages; without it the guest
  faults, and the fault handler marks the page and grants the permission.
- A device write (`write_slice`) copies its bytes and then marks its granules, one atomic
  operation each: `dma` and then one `mark` per granule in `pending`.
- The snapshot and checkpoint handlers hold every device lock (`with_saved`) while the
  vCPUs are parked, so they are one step, and none is taken while a write is in flight.
- The reset handler holds no device lock. It goes word by word through the bitmap
  (`drain`), page by page through the rollback, and then reprotects RAM and restores the
  devices; host threads can write before, between and after. `Phase` is where it is.
- Reprotecting RAM can fail. The snapshot and checkpoint handlers then report the error
  and leave the bitmap alone; the reset handler ignores it.

`session`'s records and `captured` are ghosts: what the snapshots written so far captured,
and the RAM at the last checkpoint.
-/

namespace Ignition.Boot

open Paged Runs Ignition.Vmm List Option

/-- Where the reset handler is. -/
inductive Phase where
  | running
  | draining (word : Nat) (pages : List Nat)
  | rolling (pages : List Nat)
  | restoring
  deriving DecidableEq

def Phase.pages : Phase → List Nat
  | .draining _ ps => ps
  | .rolling ps => ps
  | _ => []

structure Machine where
  mem : Memory
  writable : Nat → Bool
  pending : List Nat
  session : Session
  point : Option ResetPoint
  captured : Option Bytes
  phase : Phase

/-- What the snapshot handler is given and finds outside the machine. -/
structure SnapshotRequest where
  name : Option String
  checkpoints : List VcpuCheckpoint
  devices : List DeviceRecord
  gic : Option Bytes
  disk : Files.Path
  script : Files.Script

inductive Act where
  | store (gpa : Nat) (data : Bytes)
  | fault (pa : Nat)
  | dma (gpa : Nat) (data : Bytes)
  | mark (granule : Nat)
  | inflate (chain : List Devices.Desc)
  | snapshot (q : SnapshotRequest) (protects : Bool)
  | checkpoint (vcpus : List VcpuCheckpoint) (devices : List DeviceRecord) (protects : Bool)
  | reset
  | resetStep (protects : Bool)

namespace Machine

def Quiet (m : Machine) : Prop := m.phase = .running ∧ m.pending = []

instance (m : Machine) : Decidable m.Quiet := inferInstanceAs (Decidable (_ ∧ _))

def call (m : Machine) (q : SnapshotRequest) (gic : Bytes) : Call where
  requested := q.name
  cap :=
    { snap := .new ⟨m.mem.ram.length, q.checkpoints.length⟩ q.checkpoints q.devices
      ram := m.mem.ram
      gic := gic
      disk := q.disk
      dirty := some m.mem.tracker.pages }
  script := q.script

def Writes (m : Machine) (q : SnapshotRequest) : Prop :=
  ∃ gic, q.gic = some gic ∧ (m.session.result (m.call q gic)).1 = .done

def snapshot (m : Machine) (q : SnapshotRequest) (protects : Bool) : Machine :=
  match q.gic with
  | none => m
  | some gic =>
    if (m.session.result (m.call q gic)).1 = .done ∧ protects then
      { m with session := m.session.call (m.call q gic), mem := m.mem.drain,
               writable := fun _ => false }
    else { m with session := m.session.call (m.call q gic) }

def checkpoint (m : Machine) (vcpus : List VcpuCheckpoint) (devices : List DeviceRecord)
    (protects : Bool) : Machine :=
  if protects then
    { m with mem := m.mem.drain, writable := fun _ => false,
             point := some ⟨m.mem.ram, vcpus, devices⟩, captured := some m.mem.ram }
  else m

def resetStep (m : Machine) (protects : Bool) : Option Machine :=
  match m.phase, m.point with
  | .draining i ps, some _ =>
    if i < m.mem.tracker.bits.length then
      some { m with mem := (m.mem.swapWord i).2,
                    phase := .draining (i + 1) (ps ++ (m.mem.swapWord i).1) }
    else some { m with phase := .rolling ps }
  | .rolling (p :: ps), some rp =>
    some { m with mem := m.mem.rollback rp.pristine p, phase := .rolling ps }
  | .rolling [], some _ =>
    some { m with writable := if protects then fun _ => false else m.writable,
                  phase := .restoring }
  | .restoring, some _ => some { m with phase := .running }
  | _, _ => none

/-- One action, `none` where it cannot be taken. -/
def step (m : Machine) : Act → Option Machine
  | .store gpa data =>
    if m.phase = .running ∧ (Memory.touched gpa data.length).all m.writable then
      (m.mem.copyIn gpa data).map fun mem => { m with mem := mem }
    else none
  | .fault pa =>
    if m.phase = .running then
      (m.mem.pageOf pa).map fun p =>
        { m with mem := m.mem.mark pa, writable := fun q => q == p || m.writable q }
    else none
  | .dma gpa data =>
    (m.mem.copyIn gpa data).map fun mem =>
      { m with mem := mem, pending := m.pending ++ DirtyTracker.granules gpa data.length }
  | .mark g =>
    if g ∈ m.pending then some { m with mem := m.mem.mark g, pending := m.pending.erase g }
    else none
  | .inflate chain =>
    if m.phase = .running then some { m with mem := m.mem.inflate chain } else none
  | .snapshot q protects => if m.Quiet then some (m.snapshot q protects) else none
  | .checkpoint vcpus devices protects =>
    if m.Quiet then some (m.checkpoint vcpus devices protects) else none
  | .reset =>
    if m.phase = .running then
      -- without a reset point the handler returns at once
      some { m with phase := if m.point.isSome then .draining 0 [] else .running }
    else none
  | .resetStep protects => m.resetStep protects

/-! ## What the dirty set is good for -/

/-- Page `p` is marked, or about to be. -/
def Fresh (m : Machine) (p : Nat) : Prop :=
  m.mem.marked p = true ∨ ∃ g ∈ m.pending, m.mem.pageOf g = some p

def stale (m : Machine) : Set Nat := {p | m.Fresh p ∨ p ∈ m.phase.pages}

/-- RAM differs from `img` only where the dirty set accounts for it. -/
def Tracks (img : Bytes) (m : Machine) : Prop := DiffersIn PAGE m.stale img m.mem.ram

def Armed (m : Machine) : Prop :=
  m.phase = .running ∨ m.phase = .restoring → ∀ p, m.writable p = true → m.mem.marked p = true

theorem Tracks.step {img : Bytes} {m m' : Machine} (h : Tracks img m) {D : Set Nat}
    (hram : DiffersIn PAGE D m.mem.ram m'.mem.ram) (hD : D ⊆ m'.stale) (hs : m.stale ⊆ m'.stale) :
    Tracks img m' :=
  DiffersIn.trans (h.mono hs) (hram.mono hD)

end Machine

/-! ## The actions on memory -/

def Act.OnMemory : Act → Prop
  | .store .. | .fault _ | .dma .. | .mark _ | .inflate _ => True
  | _ => False

def Act.Accounted (m : Machine) : Act → Prop
  | .inflate chain => ∀ p, m.mem.Releases chain p → m.Fresh p
  | _ => True

namespace Machine

/-- What an action on memory can do: change RAM at stale pages, and add to the stale pages. -/
structure Touches (m m' : Machine) : Prop where
  session_eq : m'.session = m.session
  point_eq : m'.point = m.point
  captured_eq : m'.captured = m.captured
  phase_eq : m'.phase = m.phase
  length_eq : m'.mem.ram.length = m.mem.ram.length
  armed : m.Armed → m'.Armed
  tracks : ∀ img, m.Armed → Tracks img m → Tracks img m'

variable {m m' : Machine} {protects : Bool} {rp : ResetPoint}

theorem stale_copy (ht : m'.mem.tracker = m.mem.tracker) (hphase : m'.phase = m.phase)
    (hpend : ∀ g ∈ m.pending, g ∈ m'.pending) :
    m.stale ⊆ m'.stale := by
  intro p hp
  rcases hp with (hm | ⟨g, hg, hgp⟩) | hp
  · refine .inl (.inl ?_)
    unfold Memory.marked at hm ⊢
    rw [ht]
    exact hm
  · refine .inl (.inr ⟨g, hpend g hg, ?_⟩)
    unfold Memory.pageOf at hgp ⊢
    rw [ht]
    exact hgp
  · exact .inr (by rw [hphase]; exact hp)

theorem touches_store {gpa : Nat} {data : Bytes} {mem : Memory} (hrun : m.phase = .running)
    (hw : ∀ p ∈ Memory.touched gpa data.length, m.writable p = true)
    (hc : m.mem.copyIn gpa data = some mem) : Touches m { m with mem := mem } := by
  obtain ⟨-, ht, hlen, hd⟩ := Memory.copyIn_eq_some hc
  have hmark : ∀ p, mem.marked p = m.mem.marked p := fun p => by
    unfold Memory.marked
    rw [ht]
  refine ⟨rfl, rfl, rfl, rfl, hlen, fun ha hp p hwp => ?_, fun img ha htr => ?_⟩
  · show mem.marked p = true
    rw [hmark]
    exact ha hp p hwp
  · refine htr.step hd (fun p hp => .inl (.inl ?_)) (stale_copy ht rfl fun g hg => hg)
    -- the guest could write this page, so it was dirty
    show mem.marked p = true
    rw [hmark]
    exact ha (.inl hrun) p (hw p hp)

theorem stale_mark {ipa : Nat} (hmem : m'.mem = m.mem.mark ipa) (hphase : m'.phase = m.phase)
    (hpend : ∀ g ∈ m.pending, g = ipa ∨ g ∈ m'.pending) : m.stale ⊆ m'.stale := by
  have hmark : ∀ p, m.mem.pageOf ipa = some p ∨ m.mem.marked p = true →
      m'.mem.marked p = true := fun p hp => by
    rw [hmem]
    exact (m.mem.marked_mark ipa p).mpr hp
  have hpage : ∀ g, m'.mem.pageOf g = m.mem.pageOf g := fun g => by
    rw [hmem]
    have hlen : (m.mem.mark ipa).ram.length = m.mem.ram.length := rfl
    exact Memory.pageOf_congr hlen g
  intro p hp
  rcases hp with (hm | ⟨g, hg, hgp⟩) | hp
  · exact .inl (.inl (hmark p (.inr hm)))
  · rcases hpend g hg with rfl | hg'
    · exact .inl (.inl (hmark p (.inl hgp)))
    · exact .inl (.inr ⟨g, hg', (hpage g).trans hgp⟩)
  · exact .inr (by rw [hphase]; exact hp)

theorem touches_fault {pa p : Nat} (hp : m.mem.pageOf pa = some p) :
    Touches m { m with mem := m.mem.mark pa, writable := fun q => q == p || m.writable q } := by
  refine ⟨rfl, rfl, rfl, rfl, rfl, fun ha hphase q hq => ?_, fun img _ htr => ?_⟩
  · refine (m.mem.marked_mark pa q).mpr ?_
    rcases Bool.or_eq_true _ _ ▸ hq with hqp | hwq
    · exact .inl (by rw [hp, eq_of_beq hqp])
    · exact .inr (ha hphase q hwq)
  · refine DiffersIn.mono htr (stale_mark rfl rfl fun g hg => .inr hg)

theorem touches_mark {g : Nat} :
    Touches m { m with mem := m.mem.mark g, pending := m.pending.erase g } := by
  refine ⟨rfl, rfl, rfl, rfl, rfl, fun ha hphase q hq => ?_, fun img _ htr => ?_⟩
  · exact (m.mem.marked_mark g q).mpr (.inr (ha hphase q hq))
  · refine DiffersIn.mono htr (stale_mark rfl rfl fun k hk => ?_)
    by_cases hkg : k = g
    · exact .inl hkg
    · exact .inr ((mem_erase_of_ne hkg).mpr hk)

theorem touches_dma {gpa : Nat} {data : Bytes} {mem : Memory}
    (hc : m.mem.copyIn gpa data = some mem) :
    Touches m { m with mem := mem, pending := m.pending ++ DirtyTracker.granules gpa data.length }
    := by
  obtain ⟨⟨hlo, hhi⟩, ht, hlen, hd⟩ := Memory.copyIn_eq_some hc
  refine ⟨rfl, rfl, rfl, rfl, hlen, fun ha hp p hwp => ?_, fun img _ htr => ?_⟩
  · show mem.marked p = true
    unfold Memory.marked
    rw [ht]
    exact ha hp p hwp
  · refine htr.step hd (fun p hp => ?_) (stale_copy ht rfl fun g hg => mem_append_left _ hg)
    -- the bytes are there, the marks are still to come
    obtain ⟨g, hg, hgp⟩ := Memory.pageOf_granules hlo hhi hp
    refine .inl (.inr ⟨g, mem_append_right _ hg, ?_⟩)
    show mem.pageOf g = some p
    rw [Memory.pageOf_congr hlen, hgp]

theorem touches_inflate {chain : List Devices.Desc} (hk : ∀ p, m.mem.Releases chain p → m.Fresh p) :
    Touches m { m with mem := m.mem.inflate chain } := by
  refine ⟨rfl, rfl, rfl, rfl, Devices.length_inflate .., fun ha => ha, fun img _ htr => ?_⟩
  exact htr.step (m.mem.differsIn_inflate chain) (fun p hp => .inl (hk p hp))
    fun p hp => hp

/-- **Every action on memory keeps the tracking**, an inflation if it is accounted for. -/
theorem touches_of_step {a : Act} (h : m.step a = some m') (hm : a.OnMemory)
    (hacc : a.Accounted m) : Touches m m' := by
  cases a with
  | store gpa data =>
    simp only [step] at h
    split at h
    next hc =>
      obtain ⟨mem, hmem, rfl⟩ := map_eq_some_iff.mp h
      exact touches_store hc.1 (fun p hp => all_eq_true.mp hc.2 p hp) hmem
    · cases h
  | fault pa =>
    simp only [step] at h
    split at h
    · obtain ⟨p, hp, rfl⟩ := map_eq_some_iff.mp h
      exact touches_fault hp
    · cases h
  | dma gpa data =>
    obtain ⟨mem, hmem, rfl⟩ := map_eq_some_iff.mp h
    exact touches_dma hmem
  | mark g =>
    simp only [step] at h
    split at h
    · cases h
      exact touches_mark
    · cases h
  | inflate chain =>
    simp only [step] at h
    split at h
    · cases h
      exact touches_inflate hacc
    · cases h
  | snapshot q b | checkpoint vcpus devices b | reset | resetStep b => exact absurd hm id

/-! ## The reset handler -/

/-- The five kinds of step a reset takes. -/
inductive ResetMove (m : Machine) (rp : ResetPoint) (protects : Bool) : Machine → Prop where
  | word {i : Nat} {ps : List Nat} (hphase : m.phase = .draining i ps)
      (hi : i < m.mem.tracker.bits.length) :
      ResetMove m rp protects { m with
        mem := (m.mem.swapWord i).2
        phase := .draining (i + 1) (ps ++ (m.mem.swapWord i).1) }
  | drained {i : Nat} {ps : List Nat} (hphase : m.phase = .draining i ps)
      (hi : m.mem.tracker.bits.length ≤ i) :
      ResetMove m rp protects { m with phase := .rolling ps }
  | page {p : Nat} {ps : List Nat} (hphase : m.phase = .rolling (p :: ps)) :
      ResetMove m rp protects { m with
        mem := m.mem.rollback rp.pristine p
        phase := .rolling ps }
  | protect (hphase : m.phase = .rolling []) :
      ResetMove m rp protects { m with
        writable := if protects then fun _ => false else m.writable
        phase := .restoring }
  | finish (hphase : m.phase = .restoring) : ResetMove m rp protects { m with phase := .running }

theorem resetStep_eq_some (h : m.resetStep protects = some m') :
    ∃ rp, m.point = some rp ∧ ResetMove m rp protects m' := by
  unfold resetStep at h
  split at h
  next i ps rp hphase hpoint =>
    split at h
    next hi =>
      cases h
      exact ⟨rp, hpoint, .word hphase hi⟩
    next hi =>
      cases h
      exact ⟨rp, hpoint, .drained hphase (Nat.not_lt.mp hi)⟩
  next p ps rp hphase hpoint =>
    cases h
    exact ⟨rp, hpoint, .page hphase⟩
  next rp hphase hpoint =>
    cases h
    exact ⟨rp, hpoint, .protect hphase⟩
  next rp hphase hpoint =>
    cases h
    exact ⟨rp, hpoint, .finish hphase⟩
  · cases h

theorem Tracks.phase {img : Bytes} (h : Tracks img m) (hmem : m'.mem = m.mem)
    (hpend : m'.pending = m.pending) (hpages : m'.phase.pages = m.phase.pages) :
    Tracks img m' := by
  unfold Tracks stale Fresh at h ⊢
  rw [hmem, hpend, hpages]
  exact h

theorem stale_word {i : Nat} {ps : List Nat} (hphase : m.phase = .draining i ps) :
    m.stale ⊆ stale { m with
      mem := (m.mem.swapWord i).2
      phase := .draining (i + 1) (ps ++ (m.mem.swapWord i).1) } := by
  intro p hp
  rcases hp with (hm | ⟨g, hg, hgp⟩) | hp
  · by_cases hw : p / 64 = i
    · exact .inr (mem_append_right _ (Memory.mem_swapWord.mpr ⟨hw, hm⟩))
    · exact .inl (.inl ((m.mem.marked_swapWord i p).mpr ⟨hw, hm⟩))
  · have hlen : (m.mem.swapWord i).2.ram.length = m.mem.ram.length := rfl
    exact .inl (.inr ⟨g, hg, (Memory.pageOf_congr hlen g).trans hgp⟩)
  · rw [hphase] at hp
    exact .inr (mem_append_left _ hp)

/-- **A reset step keeps the tracking**, if the pages it rolls back are those of the image. -/
theorem ResetMove.tracks {img : Bytes}
    (h : ResetMove m rp protects m') (hlen : rp.pristine.length = m.mem.ram.length)
    (hroll : ∀ p ∈ m.phase.pages, pageAt PAGE rp.pristine p = pageAt PAGE img p)
    (ht : Tracks img m) : Tracks img m' := by
  cases h with
  | word hphase hi => exact DiffersIn.mono ht (stale_word hphase)
  | drained hphase hi | protect hphase | finish hphase =>
    refine ht.phase rfl rfl ?_
    rw [hphase]
    rfl
  | page hphase =>
    rename_i p ps
    intro q hq
    show pageAt PAGE img q = pageAt PAGE (m.mem.rollback rp.pristine p).ram q
    rw [Memory.pageAt_rollback hlen]
    split
    next hqp =>
      rw [hqp]
      exact (hroll p (by rw [hphase]; exact mem_cons_self ..)).symm
    rename_i hqp
    refine ht q fun hs => hq ?_
    have hl : (m.mem.rollback rp.pristine p).ram.length = m.mem.ram.length :=
      length_rollbackPage ..
    rcases hs with (hm | ⟨g, hg, hgp⟩) | hp
    · exact .inl (.inl hm)
    · exact .inl (.inr ⟨g, hg, (Memory.pageOf_congr hl g).trans hgp⟩)
    · rw [hphase] at hp
      rcases mem_cons.mp hp with rfl | hp
      · exact absurd rfl hqp
      · exact .inr hp

theorem ResetMove.armed (h : ResetMove m rp protects m')
    (hp : m.phase = .rolling [] → protects = true) (ha : m.Armed) : m'.Armed := by
  cases h with
  | word hphase hi | drained hphase hi | page hphase =>
    exact fun hc => hc.elim (fun hc => (nomatch hc)) fun hc => (nomatch hc)
  | protect hphase =>
    intro _ p hw
    have hw : (if protects then fun _ => false else m.writable) p = true := hw
    rw [hp hphase, if_pos rfl] at hw
    cases hw
  | finish hphase => exact fun _ => ha (.inr hphase)

theorem ResetMove.length_eq (h : ResetMove m rp protects m') :
    m'.mem.ram.length = m.mem.ram.length := by
  cases h with
  | page hphase => exact length_rollbackPage ..
  | word | drained | protect | finish => rfl

theorem ResetMove.frame (h : ResetMove m rp protects m') :
    m'.session = m.session ∧ m'.point = m.point ∧ m'.captured = m.captured := by
  cases h with
  | word | drained | page | protect | finish => exact ⟨rfl, rfl, rfl⟩

/-! ## Where runs start -/

/-- A machine that has just been booted or restored with dirty tracking: RAM is
write-protected and nothing is in flight. A restored machine's RAM is the image of the
chain it was restored from, and of its reset point. -/
structure Start (extra : List String) (m : Machine) : Prop where
  session : Session.Start extra m.session
  quiet : m.Quiet
  protected_ram : ∀ p, m.writable p = false
  image : m.session.writer.parent.isSome → m.session.ram = m.mem.ram
  point_eq : m.captured = m.point.map (·.pristine)
  restored : ∀ img, m.captured = some img → img = m.mem.ram

theorem Start.armed {extra : List String} (h : Start extra m) : m.Armed := by
  intro _ p hw
  rw [h.protected_ram p] at hw
  cases hw

theorem Quiet.pages_eq (h : m.Quiet) : m.phase.pages = [] := by
  rw [h.1]
  rfl

end Machine

end Ignition.Boot
