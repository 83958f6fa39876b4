import Ignition.Boot.DirtyComplete

/-!
# Do diff snapshots capture RAM exactly?

A diff snapshot stores the dirty pages and relies on its parent for the rest, so the
dirty set has to hold every page that changed since the parent was written. Three
handlers clear that one set. The snapshot handler clears it when a new layer is on disk.
The checkpoint and the reset handler clear it for their own purpose, and what they forget
was changed since the *parent layer*, which they know nothing about.

`snapshots_exact` is the exactness of every snapshot over all runs in which these two
clear the set only while nothing is lost by it (`Act.KeepsDiff`): a checkpoint, when RAM
is the parent's image; a reset, when the pages it forgets are rolled back to the bytes
they have in the parent's image, and RAM is reprotected at the end.
-/

namespace Ignition.Boot

open Paged Runs Ignition.Vmm List Option

def Act.KeepsDiff (extra : List String) (m : Machine) : Act → Prop
  | .inflate chain => ∀ p, m.mem.Releases chain p → m.Fresh p
  | .snapshot q _ => ∀ gic, q.gic = some gic → Session.Apart extra m.session (m.call q gic)
  | .checkpoint _ _ protects =>
    protects = true → m.session.writer.parent.isSome → m.mem.ram = m.session.ram
  | .resetStep protects =>
    match m.phase with
    | .draining i _ =>
      m.session.writer.parent.isSome → ∀ rp, m.point = some rp → ∀ p ∈ (m.mem.swapWord i).1,
        pageAt PAGE rp.pristine p = pageAt PAGE m.session.ram p
    | .rolling [] => protects = true
    | _ => True
  | _ => True

namespace Machine

/-- The dirty set accounts for every difference from the parent's image. -/
structure Exact (extra : List String) (m : Machine) : Prop where
  session : Session.Inv extra m.session
  armed : m.Armed
  pristine_length : ∀ rp, m.point = some rp → rp.pristine.length = m.mem.ram.length
  image_length : m.session.writer.parent.isSome → m.session.ram.length = m.mem.ram.length
  tracks : m.session.writer.parent.isSome → Tracks m.session.ram m
  rolled : m.session.writer.parent.isSome → ∀ rp, m.point = some rp → ∀ p ∈ m.phase.pages,
    pageAt PAGE rp.pristine p = pageAt PAGE m.session.ram p

variable {extra : List String} {m m' : Machine} {q : SnapshotRequest} {n : String}

theorem Start.exact (h : Start extra m) : Exact extra m := by
  refine ⟨h.session.inv, h.armed, fun rp hrp => ?_, fun hp => ?_, fun hp => ?_, fun _ _ _ p hp => ?_⟩
  · have hcap : m.captured = some rp.pristine := by
      rw [h.point_eq, hrp]
      rfl
    rw [h.restored _ hcap]
  · rw [h.image hp]
  · rw [h.image hp]
    exact differsIn_refl PAGE _ _
  · rw [h.quiet.pages_eq] at hp
    cases hp

/-! ## One action -/

theorem Exact.touch (h : Exact extra m) (ht : Touches m m') : Exact extra m' := by
  refine ⟨?_, ht.armed h.armed, fun rp hrp => ?_, fun hp => ?_, fun hp => ?_, fun hp rp hrp p => ?_⟩
  · rw [ht.session_eq]
    exact h.session
  · rw [ht.point_eq] at hrp
    rw [ht.length_eq]
    exact h.pristine_length rp hrp
  · rw [ht.session_eq] at hp ⊢
    rw [ht.length_eq]
    exact h.image_length hp
  · rw [ht.session_eq] at hp ⊢
    exact ht.tracks _ h.armed (h.tracks hp)
  · rw [ht.session_eq] at hp ⊢
    rw [ht.point_eq] at hrp
    rw [ht.phase_eq]
    exact h.rolled hp rp hrp p

theorem Exact.covered (h : Exact extra m) (hq : m.Quiet) (q : SnapshotRequest) (gic : Bytes) :
    Session.Covered m.session (m.call q gic) := by
  refine ⟨rfl, fun hp => ⟨m.mem.ramOk, h.image_length hp, m.mem.tracker.pages, rfl, ?_, ?_⟩⟩
  · intro p hmem
    show p * PAGE + PAGE ≤ m.mem.ram.length
    rw [m.mem.size_eq]
    exact page_fits (DirtyTracker.lt_of_mem_pages hmem)
  · refine DiffersIn.mono (h.tracks hp) fun p hs => ?_
    rcases hs with (hm | ⟨g, hg, -⟩) | hs
    · exact DirtyTracker.mem_pages.mpr hm
    · rw [hq.2] at hg
      cases hg
    · rw [hq.pages_eq] at hs
      cases hs

theorem call_ram {gic : Bytes} (hd : (m.session.result (m.call q gic)).1 = .done) :
    (m.session.call (m.call q gic)).ram = m.mem.ram := by
  rw [Session.call_of_done hd]
  rfl

theorem call_failed {gic : Bytes} (hd : (m.session.result (m.call q gic)).1 ≠ .done) :
    (m.session.call (m.call q gic)).ram = m.session.ram ∧
      (m.session.call (m.call q gic)).writer = m.session.writer := by
  rw [Session.call_of_failed hd]
  exact ⟨rfl, Session.result_writer_of_failed hd⟩

theorem Exact.snapshot (h : Exact extra m) (hq : m.Quiet) (protects : Bool)
    (ha : ∀ gic, q.gic = some gic → Session.Apart extra m.session (m.call q gic)) :
    Exact extra (m.snapshot q protects) := by
  unfold Machine.snapshot
  split
  · exact h
  rename_i gic hgic
  have hinv := Session.call_inv h.session (ha gic hgic) (h.covered hq q gic)
  have hpages : ∀ p, p ∉ m.phase.pages := fun p hp => by
    rw [hq.pages_eq] at hp
    cases hp
  by_cases hd : (m.session.result (m.call q gic)).1 = .done
  · have hram := call_ram hd
    have hsame : ∀ st, DiffersIn PAGE st (m.session.call (m.call q gic)).ram m.mem.ram := by
      rw [hram]
      exact fun _ => differsIn_refl PAGE _ _
    split
    · exact ⟨hinv, fun _ _ hw => (nomatch hw), h.pristine_length,
        fun _ => congrArg List.length hram, fun _ => hsame _,
        fun _ _ _ p hp => absurd hp (hpages p)⟩
    · -- the snapshot is on disk, but RAM could not be reprotected: the dirty set stays
      exact ⟨hinv, h.armed, h.pristine_length, fun _ => congrArg List.length hram,
        fun _ => hsame _, fun _ _ _ p hp => absurd hp (hpages p)⟩
  · rw [if_neg fun hc => hd hc.1]
    obtain ⟨hram, hwr⟩ := call_failed hd
    refine ⟨hinv, h.armed, h.pristine_length, fun hp => ?_, fun hp => ?_,
      fun _ _ _ p hp => absurd hp (hpages p)⟩
    · have hp : (m.session.call (m.call q gic)).writer.parent.isSome := hp
      show (m.session.call (m.call q gic)).ram.length = m.mem.ram.length
      rw [hwr] at hp
      rw [hram]
      exact h.image_length hp
    · have hp : (m.session.call (m.call q gic)).writer.parent.isSome := hp
      show DiffersIn PAGE m.stale (m.session.call (m.call q gic)).ram m.mem.ram
      rw [hwr] at hp
      rw [hram]
      exact h.tracks hp

theorem Exact.checkpoint (h : Exact extra m) (hq : m.Quiet) {vcpus : List VcpuCheckpoint}
    {devices : List DeviceRecord} {protects : Bool}
    (hc : protects = true → m.session.writer.parent.isSome → m.mem.ram = m.session.ram) :
    Exact extra (m.checkpoint vcpus devices protects) := by
  unfold Machine.checkpoint
  split
  next hp =>
    refine ⟨h.session, fun _ _ hw => (nomatch hw), fun rp hrp => ?_, h.image_length,
      fun hpar => ?_, fun _ _ _ p hpg => ?_⟩
    · cases hrp
      rfl
    · show DiffersIn PAGE _ m.session.ram m.mem.ram
      rw [hc hp hpar]
      exact differsIn_refl PAGE _ _
    · rw [show m.phase.pages = [] from hq.pages_eq] at hpg
      cases hpg
  · exact h

theorem Exact.resetStep {protects : Bool} (h : Exact extra m)
    (hok : (Act.resetStep protects).KeepsDiff extra m) (hst : m.resetStep protects = some m') :
    Exact extra m' := by
  obtain ⟨rp, hpoint, hmove⟩ := resetStep_eq_some hst
  obtain ⟨hses, hpt, -⟩ := hmove.frame
  have harmed : m.phase = .rolling [] → protects = true := fun hphase => by
    simp only [Act.KeepsDiff, hphase] at hok
    exact hok
  refine ⟨?_, hmove.armed harmed h.armed, fun rp' hrp => ?_, fun hp => ?_, fun hp => ?_,
    fun hp rp' hrp p hpg => ?_⟩
  · rw [hses]
    exact h.session
  · rw [hpt] at hrp
    rw [hmove.length_eq]
    exact h.pristine_length rp' hrp
  · rw [hses] at hp ⊢
    rw [hmove.length_eq]
    exact h.image_length hp
  · rw [hses] at hp ⊢
    exact hmove.tracks (h.pristine_length rp hpoint) (h.rolled hp rp hpoint) (h.tracks hp)
  · rw [hses] at hp ⊢
    rw [hpt] at hrp
    have hold := h.rolled hp rp' hrp p
    cases hmove with
    | word hphase hi =>
      rcases mem_append.mp hpg with hpg | hpg
      · exact hold (by rw [hphase]; exact hpg)
      · -- a page that is forgotten now
        simp only [Act.KeepsDiff, hphase] at hok
        exact hok hp rp' hrp p hpg
    | drained hphase hi => exact hold (by rw [hphase]; exact hpg)
    | page hphase => exact hold (by rw [hphase]; exact mem_cons_of_mem _ hpg)
    | protect hphase | finish hphase => cases hpg

/-- **One action keeps the dirty set exact.** -/
theorem Exact.step {a : Act} (h : Exact extra m) (hok : a.KeepsDiff extra m)
    (hst : m.step a = some m') : Exact extra m' := by
  cases a with
  | store gpa data | fault pa | dma gpa data | mark g =>
    exact h.touch (touches_of_step hst trivial trivial)
  | inflate chain => exact h.touch (touches_of_step hst trivial hok)
  | snapshot q protects =>
    simp only [Machine.step] at hst
    obtain ⟨hq, rfl⟩ := ite_some_none_eq_some.mp hst
    exact h.snapshot hq protects hok
  | checkpoint vcpus devices protects =>
    simp only [Machine.step] at hst
    obtain ⟨hq, rfl⟩ := ite_some_none_eq_some.mp hst
    exact h.checkpoint hq hok
  | reset =>
    simp only [Machine.step] at hst
    obtain ⟨hrun, rfl⟩ := ite_some_none_eq_some.mp hst
    have hpages : (if m.point.isSome then Phase.draining 0 [] else .running).pages = [] := by
      split <;> rfl
    refine ⟨h.session, fun hc p hw => ?_, h.pristine_length, h.image_length, fun hp => ?_,
      fun hp rp hrp p hpg => ?_⟩
    · exact h.armed (.inl hrun) p hw
    · refine (h.tracks hp).phase rfl rfl ?_
      rw [hrun]
      exact hpages
    · rw [show _ = [] from hpages] at hpg
      cases hpg
  | resetStep protects => exact h.resetStep hok hst

/-! ## Every run -/

/-- **Diff snapshots are exact.** Along every run from a booted or restored machine whose
actions keep the dirty set tied to the parent layer, every snapshot written so far
reassembles to the RAM it captured. -/
theorem snapshots_exact {extra : List String} {m m' : Machine} {as : List Act}
    (h0 : Start extra m) (h : Run step (fun m a => a.KeepsDiff extra m) m as m') {n : String}
    {r : Bytes} (hw : (n, r) ∈ m'.session.written) :
    Restores m'.session.tree m'.session.writer.store n r := by
  have hinv : Exact extra m' :=
    h.invariant (fun _ _ _ hs hok hst => hs.step hok hst) h0.exact
  obtain ⟨mf, tl, hc, -⟩ := hinv.session.written_chain n r hw
  exact restores_iff.mpr ⟨mf, tl, hc⟩

/-! ### A one-page machine -/

def zeroMachine : Machine := atRest Session.zeroPage (by decide +kernel)

theorem zeroMachine_start : Start [] zeroMachine where
  session := Session.bootSession_start
  quiet := ⟨rfl, rfl⟩
  protected_ram := fun _ => rfl
  image := fun hp => nomatch hp
  point_eq := rfl
  restored := fun _ himg => nomatch himg

def request (name : String) : SnapshotRequest :=
  ⟨some name, [], [], some [], [.name Session.diskName], []⟩

def storeFirst (m : Machine) : Machine :=
  { m with mem := m.mem.withRam (m.mem.ram.set 0 7) length_set }

theorem step_storeFirst (hrun : m.phase = .running) (hw : m.writable 0 = true)
    (hlen : m.mem.ram.length = 1 * PAGE) :
    m.step (.store RAM_BASE [7]) = some (storeFirst m) := by
  have hoff : Devices.offset RAM_BASE m.mem.ram.length RAM_BASE [(7 : UInt8)].length = some 0 := by
    rw [hlen]
    decide
  have hpages : Memory.touched RAM_BASE [(7 : UInt8)].length = [0] := by decide
  have hset : copyInto m.mem.ram 0 [7] = m.mem.ram.set 0 7 := by
    cases hr : m.mem.ram with
    | nil =>
      rw [hr] at hlen
      exact absurd hlen (by decide)
    | cons b bs => rfl
  simp only [step]
  rw [hpages, if_pos ⟨hrun, by rw [all_cons, hw, all_nil]; rfl⟩,
    Memory.copyIn_of_offset hoff, map_some]
  unfold storeFirst Memory.withRam
  simp only [hset]

theorem step_snapshot (hq : m.Quiet) (q : SnapshotRequest) (protects : Bool) :
    m.step (.snapshot q protects) = some (m.snapshot q protects) := if_pos hq

theorem step_checkpoint (hq : m.Quiet) :
    m.step (.checkpoint [] [] true) = some (m.checkpoint [] [] true) := if_pos hq

def taken : Machine := zeroMachine.snapshot (request "a") true

theorem step_taken : zeroMachine.step (.snapshot (request "a") true) = some taken :=
  step_snapshot ⟨rfl, rfl⟩ (request "a") true

theorem taken_quiet : taken.Quiet := by decide +kernel

theorem length_taken : taken.mem.ram.length = 1 * PAGE := by decide +kernel

def stored : Machine := storeFirst (grantFirst taken)

theorem step_granted : taken.step (.fault RAM_BASE) = some (grantFirst taken) :=
  step_grantFirst taken_quiet.1 (pageOf_first length_taken)

theorem step_stored : (grantFirst taken).step (.store RAM_BASE [7]) = some stored :=
  step_storeFirst taken_quiet.1 rfl length_taken

theorem stored_quiet : stored.Quiet := ⟨taken_quiet.1, taken_quiet.2⟩

theorem keepsDiff_request (h : Session.Apart [] m.session (m.call (request n) [])) :
    (Act.snapshot (request n) true).KeepsDiff [] m := by
  intro gic hgic
  cases hgic
  exact h

def layered : Machine := stored.snapshot (request "b") true

theorem snapshots_exact_second_layer :
    ("b", stored.mem.ram) ∈ layered.session.written ∧
      Restores layered.session.tree layered.session.writer.store "b" stored.mem.ram := by
  have hw : ("b", stored.mem.ram) ∈ layered.session.written := by decide +kernel
  have hapart : Session.Apart [] stored.session (stored.call (request "b") []) :=
    ⟨by decide +kernel, by decide +kernel⟩
  have hb : stored.step (.snapshot (request "b") true) = some layered :=
    step_snapshot stored_quiet (request "b") true
  have hrun : Run step (fun m a => a.KeepsDiff [] m) zeroMachine
      [.snapshot (request "a") true, .fault RAM_BASE, .store RAM_BASE [7],
        .snapshot (request "b") true] layered :=
    .cons (keepsDiff_request ⟨by decide +kernel, by decide +kernel⟩) step_taken
      (.cons trivial step_granted (.cons trivial step_stored
        (.cons (keepsDiff_request hapart) hb (.nil _))))
  exact ⟨hw, snapshots_exact zeroMachine_start hrun hw⟩

def FreshName (m : Machine) : Act → Prop
  | .snapshot q _ => ∀ gic, q.gic = some gic → Session.Fresh m.session (m.call q gic)
  | _ => True

theorem freshName_request (hw : n ∉ m.session.written.map Prod.fst)
    (hn : m.session.tree.node (baseDir m.session.writer.store n).loc = none) :
    FreshName m (.snapshot (request n) true) := by
  intro gic hgic
  cases hgic
  exact ⟨hw, hn⟩

def checkpointed : Machine := stored.checkpoint [] [] true

def lost : Machine := checkpointed.snapshot (request "b") true

theorem checkpoint_loses_store :
    Start [] zeroMachine ∧
      Run step FreshName zeroMachine
        [.snapshot (request "a") true, .fault RAM_BASE, .store RAM_BASE [7],
          .checkpoint [] [] true, .snapshot (request "b") true] lost ∧
      ("b", checkpointed.mem.ram) ∈ lost.session.written ∧
      ¬ Restores lost.session.tree lost.session.writer.store "b" checkpointed.mem.ram := by
  refine ⟨zeroMachine_start, ?_, by decide +kernel, fun h => ?_⟩
  · have ha : FreshName zeroMachine (.snapshot (request "a") true) :=
      freshName_request (by decide) (isNone_iff_eq_none.mp (by decide +kernel))
    have hc : stored.step (.checkpoint [] [] true) = some checkpointed :=
      step_checkpoint stored_quiet
    have hb : checkpointed.step (.snapshot (request "b") true) = some lost :=
      step_snapshot (by decide +kernel) (request "b") true
    have hfresh : FreshName checkpointed (.snapshot (request "b") true) :=
      freshName_request (by decide +kernel) (isNone_iff_eq_none.mp (by decide +kernel))
    exact .cons ha step_taken (.cons trivial step_granted (.cons trivial step_stored
      (.cons trivial hc (.cons hfresh hb (.nil _)))))
  · -- what comes back starts with the old byte
    obtain ⟨ms, hms, hram⟩ := h
    have hback : ((resolveChain lost.session.tree lost.session.writer.store "b" >>=
        reassemble lost.session.tree lost.session.writer.store).toOption.map head?) =
          some (some 0) := by decide +kernel
    have hback : some checkpointed.mem.ram.head? = some (some 0) := by
      rw [hms] at hback
      show (Except.ok checkpointed.mem.ram : Except String Bytes).toOption.map head? = _
      rw [← hram]
      exact hback
    exact absurd hback (by decide)

end Machine

end Ignition.Boot
