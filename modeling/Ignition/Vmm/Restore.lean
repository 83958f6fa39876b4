import Ignition.Vmm.Write

/-!
# What a restore reads

The reading half of `run_restore` in `spike/src/bin/boot.rs`: resolve the chain, check
its shape, read the leaf's machine state and GIC blob, map the root's memory and lay
the diff layers over it, and clone the leaf's disk if the machine had one.

`Restorable` lists the files this rests on, one field per check, and `runRestore_ok`
says that a restore succeeds exactly then. Whether an effect on the store leaves a
snapshot restorable can so be decided file by file.
-/

namespace Ignition.Vmm

open Files List

/-- `{:?}` of a snapshot type -/
def SnapshotType.debug : SnapshotType → String
  | .full => "Full"
  | .diff => "Diff"

/-- Everything a restore gets back. -/
structure Restored where
  snap : VmSnapshot
  gic : Bytes
  ram : Bytes
  disk : Option (List Datum)
  deriving DecidableEq

def VmSnapshot.hasDisk (s : VmSnapshot) : Bool := s.devices.any fun r => r.id == "virtio-blk"

def checkLayers (memSize : Nat) : List SnapshotManifest → Except String Unit
  | [] => .ok ()
  | m :: ms =>
    if m.snapshotType ≠ .diff then
      .error s!"non-root layer '{m.name}' is not a Diff snapshot (got {m.snapshotType.debug})"
    else if m.memSize ≠ memSize then
      .error s!"layer '{m.name}' mem_size {m.memSize} != root mem_size {memSize}"
    else checkLayers memSize ms

def restoreDisk (t : Files.Tree Datum) (leafDir : Path) (snap : VmSnapshot) :
    Except String (Option (List Datum)) :=
  if snap.hasDisk then
    match t.readFile (paths leafDir).disk with
    | some d => .ok (some d)
    | none => .error osError
  else .ok none

/-- The checks and reads of `run_restore` once the chain is resolved. -/
def restoreChain (t : Files.Tree Datum) (store : Loc) (root : SnapshotManifest)
    (layers : List SnapshotManifest) : Except String Restored :=
  if root.snapshotType ≠ .full then
    .error s!"chain root '{root.name}' is not a Full snapshot (got {root.snapshotType.debug})"
  else do
    checkLayers root.memSize layers
    let leafDir := baseDir store (layers.getLast?.getD root).name
    let (snap, gic) ← readSnapshot t leafDir
    if snap.config.memSize ≠ root.memSize then
      .error s!"leaf vmstate mem_size {snap.config.memSize} != chain mem_size {root.memSize}"
    else do
      let base ← readBytes t (paths (baseDir store root.name)).memory
      if base.length ≠ root.memSize then
        .error s!"root memory.bin length {base.length} != mem_size {root.memSize}"
      else do
        let ram ← overlay t store layers base
        let disk ← restoreDisk t leafDir snap
        return ⟨snap, gic, ram, disk⟩

/-- The reads of `run_restore`. -/
def runRestore (t : Files.Tree Datum) (store : Loc) (name : String) : Except String Restored := do
  match ← resolveChain t store name with
  | [] => .error osError
  | root :: layers => restoreChain t store root layers

/-! ## What has to be there -/

/-- The chain has a full root of `memSize` bytes under diffs of the same size. -/
def Shape (memSize : Nat) : List SnapshotManifest → Prop
  | [] => False
  | root :: layers => root.snapshotType = .full ∧ root.memSize = memSize ∧
      ∀ m ∈ layers, m.snapshotType = .diff ∧ m.memSize = memSize

theorem checkLayers_ok {memSize : Nat} : ∀ {ms : List SnapshotManifest},
    checkLayers memSize ms = .ok () ↔ ∀ m ∈ ms, m.snapshotType = .diff ∧ m.memSize = memSize
  | [] => ⟨fun _ _ hm => (nomatch hm), fun _ => rfl⟩
  | m :: ms => by
    unfold checkLayers
    by_cases h1 : m.snapshotType = .diff
    · by_cases h2 : m.memSize = memSize
      · rw [if_neg (not_not.mpr h1), if_neg (not_not.mpr h2), checkLayers_ok, forall_mem_cons]
        exact ⟨fun h => ⟨⟨h1, h2⟩, h⟩, fun h => h.2⟩
      · rw [if_neg (not_not.mpr h1), if_pos h2]
        exact ⟨fun h => (nomatch h), fun h => absurd (h m (mem_cons_self ..)).2 h2⟩
    · rw [if_pos h1]
      exact ⟨fun h => (nomatch h), fun h => absurd (h m (mem_cons_self ..)).1 h1⟩

/-- The files and checks behind a restore of `name`, whose manifest is `m`. -/
structure Restorable (t : Files.Tree Datum) (store : Loc) (name : String) (m : SnapshotManifest)
    (tl : List Layer) (r : Restored) : Prop where
  chain : Chain t store ((name, m) :: tl) r.ram
  shape : Shape r.ram.length (((name, m) :: tl).map Prod.snd).reverse
  state : t.readFile (paths (baseDir store m.name)).state = some [.state r.snap]
  version : checkVersion r.snap = .ok ()
  gic : t.readFile (paths (baseDir store m.name)).gic = some (raw r.gic)
  memSize : r.snap.config.memSize = r.ram.length
  disk : restoreDisk t (baseDir store m.name) r.snap = .ok r.disk

/-! ### Overlaying keeps the size -/

theorem length_applyLoop {packed : Bytes} (ps : List Nat) : ∀ {i : Nat} {target out : Bytes},
    (i + ps.length) * PAGE ≤ packed.length → applyLoop packed i ps target = .ok out →
    out.length = target.length := by
  induction ps with
  | nil =>
    intro i target out _ h
    rw [Except.ok.inj h]
  | cons p ps ih =>
    intro i target out hlen h
    rw [length_cons, Nat.add_comm ps.length 1, ← Nat.add_assoc] at hlen
    unfold applyLoop at h
    split at h
    · cases h
    rename_i hfit
    have hslice : (Paged.slice packed (i * PAGE) PAGE).length = PAGE := by
      refine Paged.length_slice ?_
      rw [← Nat.succ_mul]
      exact Nat.le_trans (Nat.mul_le_mul_right _ (Nat.le_add_right ..)) hlen
    rw [ih hlen h, Paged.length_copyInto (by rw [hslice]; exact Nat.not_lt.mp hfit)]

theorem length_applyDiff {target packed out : Bytes} {idx : List Nat}
    (h : applyDiff target idx packed = .ok out) : out.length = target.length := by
  unfold applyDiff at h
  split at h
  · cases h
  next hlen =>
    rw [ne_eq, not_not] at hlen
    exact length_applyLoop idx (by rw [hlen, Nat.zero_add]) h

variable {t : Files.Tree Datum} {store : Loc}

theorem length_overlay : ∀ {ms : List SnapshotManifest}
    {ram out : Bytes}, overlay t store ms ram = .ok out → out.length = ram.length
  | [], _, _, h => by rw [Except.ok.inj h]
  | m :: ms, ram, out, h => by
    rw [overlay] at h
    cases hd : readDiffPages t (baseDir store m.name) with
    | error e => rw [hd] at h; cases h
    | ok d =>
      rw [hd] at h
      have h1 : (applyDiff ram d.1 d.2 >>= fun r => overlay t store ms r) = .ok out := h
      cases ha : applyDiff ram d.1 d.2 with
      | error e => rw [ha] at h1; cases h1
      | ok ram' =>
        rw [ha] at h1
        rw [length_overlay h1, length_applyDiff ha]

/-! ### A restore succeeds exactly then -/

theorem bind_ok {ε α β : Type} {x : Except ε α} {f : α → Except ε β} {b : β} :
    (x >>= f) = .ok b ↔ ∃ a, x = .ok a ∧ f a = .ok b := by
  cases x with
  | error e => exact ⟨fun h => (nomatch h), fun ⟨_, h, _⟩ => (nomatch h)⟩
  | ok a =>
    refine ⟨fun h => ⟨a, rfl, h⟩, fun h => ?_⟩
    obtain ⟨a', ha, hf⟩ := h
    obtain rfl := Except.ok.inj ha
    exact hf

theorem ite_error_ok {ε α : Type} {c : Prop} [Decidable c] {e : ε} {x : Except ε α} {a : α} :
    (if c then .error e else x) = .ok a ↔ ¬ c ∧ x = .ok a := by
  by_cases hc : c
  · rw [if_pos hc]
    exact ⟨fun h => (nomatch h), fun h => absurd hc h.1⟩
  · rw [if_neg hc]
    exact ⟨fun h => ⟨hc, h⟩, fun h => h.2⟩

theorem readSnapshot_ok {dir : Path} {snap : VmSnapshot} {gic : Bytes} :
    readSnapshot t dir = .ok (snap, gic) ↔
      t.readFile (paths dir).state = some [.state snap] ∧ checkVersion snap = .ok () ∧
        t.readFile (paths dir).gic = some (raw gic) := by
  unfold readSnapshot
  split
  next s hs =>
    rw [hs, Option.some.injEq, List.cons.injEq, Datum.state.injEq]
    refine ⟨fun h => ?_, fun h => ?_⟩
    · obtain ⟨u, hv, h⟩ := bind_ok.mp h
      obtain ⟨g, hg, h⟩ := bind_ok.mp h
      obtain ⟨rfl, rfl⟩ := Prod.mk.inj (Except.ok.inj h)
      exact ⟨⟨rfl, rfl⟩, hv, readBytes_ok.mp hg⟩
    · obtain ⟨⟨rfl, -⟩, hv, hg⟩ := h
      rw [hv, readBytes_ok.mpr hg]
      rfl
  next hno => exact ⟨fun h => (nomatch h), fun h => absurd h.1 (hno snap)⟩

theorem restoreChain_ok {root : SnapshotManifest} {layers : List SnapshotManifest} {r : Restored} :
    restoreChain t store root layers = .ok r ↔
      reassemble t store (root :: layers) = .ok r.ram ∧ Shape r.ram.length (root :: layers) ∧
        readSnapshot t (baseDir store (layers.getLast?.getD root).name) = .ok (r.snap, r.gic) ∧
        r.snap.config.memSize = r.ram.length ∧
        restoreDisk t (baseDir store (layers.getLast?.getD root).name) r.snap = .ok r.disk := by
  unfold restoreChain
  rw [ite_error_ok]
  refine ⟨fun h => ?_, fun h => ?_⟩
  · obtain ⟨hfull, h⟩ := h
    obtain ⟨u, hlay, h⟩ := bind_ok.mp h
    obtain ⟨⟨snap, gic⟩, hsnap, h⟩ := bind_ok.mp h
    obtain ⟨hmem, h⟩ := ite_error_ok.mp h
    obtain ⟨base, hbase, h⟩ := bind_ok.mp h
    obtain ⟨hlen, h⟩ := ite_error_ok.mp h
    obtain ⟨ram, hram, h⟩ := bind_ok.mp h
    obtain ⟨disk, hdisk, h⟩ := bind_ok.mp h
    obtain rfl := Except.ok.inj h
    rw [ne_eq, not_not] at hfull hmem hlen
    have hsize : ram.length = root.memSize := (length_overlay hram).trans hlen
    refine ⟨bind_ok.mpr ⟨base, hbase, hram⟩, ⟨hfull, hsize.symm, fun m hm => ?_⟩, hsnap,
      hmem.trans hsize.symm, hdisk⟩
    show m.snapshotType = .diff ∧ m.memSize = ram.length
    rw [hsize]
    exact checkLayers_ok.mp hlay m hm
  · obtain ⟨hre, ⟨hfull, hsize, hlay⟩, hsnap, hmem, hdisk⟩ := h
    obtain ⟨base, hbase, hram⟩ := bind_ok.mp hre
    refine ⟨not_not.mpr hfull, bind_ok.mpr ⟨(), checkLayers_ok.mpr (hsize ▸ hlay), ?_⟩⟩
    refine bind_ok.mpr ⟨(r.snap, r.gic), hsnap, ite_error_ok.mpr ⟨not_not.mpr (hmem.trans hsize.symm),
      bind_ok.mpr ⟨base, hbase, ite_error_ok.mpr ⟨not_not.mpr ?_, ?_⟩⟩⟩⟩
    · rw [hsize, length_overlay hram]
    · exact bind_ok.mpr ⟨r.ram, hram, bind_ok.mpr ⟨r.disk, hdisk, rfl⟩⟩

theorem leaf_of_reverse {m root : SnapshotManifest} {ms layers : List SnapshotManifest}
    (h : root :: layers = (m :: ms).reverse) : layers.getLast?.getD root = m := by
  have hlast := congrArg getLast? h
  rw [getLast?_reverse, head?_cons, getLast?_cons, Option.some.injEq] at hlast
  exact hlast

/-- **A restore succeeds exactly if everything it reads is there.** -/
theorem runRestore_ok {name : String} {r : Restored} :
    runRestore t store name = .ok r ↔ ∃ m tl, Restorable t store name m tl r := by
  unfold runRestore
  rw [bind_ok]
  refine ⟨fun h => ?_, fun h => ?_⟩
  · obtain ⟨ms, hres, h⟩ := h
    obtain ⟨m, tl, hl, hms⟩ := resolveChain_ok.mp hres
    cases ms with
    | nil => cases h
    | cons root layers =>
      obtain ⟨hre, hshape, hsnap, hmem, hdisk⟩ := restoreChain_ok.mp h
      rw [leaf_of_reverse hms] at hsnap hdisk
      obtain ⟨hstate, hver, hgic⟩ := readSnapshot_ok.mp hsnap
      exact ⟨m, tl, ⟨hl, hms ▸ hre⟩, hms ▸ hshape, hstate, hver, hgic, hmem, hdisk⟩
  · obtain ⟨m, tl, hr⟩ := h
    refine ⟨_, resolveChain_ok.mpr ⟨m, tl, hr.chain.links, rfl⟩, ?_⟩
    cases hms : (((name, m) :: tl).map Prod.snd).reverse with
    | nil => exact absurd (congrArg List.length hms) (by simp)
    | cons root layers =>
      refine restoreChain_ok.mpr ⟨hms ▸ hr.chain.image, hms ▸ hr.shape, ?_, hr.memSize, ?_⟩
      · rw [leaf_of_reverse hms.symm]
        exact readSnapshot_ok.mpr ⟨hr.state, hr.version, hr.gic⟩
      · rw [leaf_of_reverse hms.symm]
        exact hr.disk

end Ignition.Vmm
