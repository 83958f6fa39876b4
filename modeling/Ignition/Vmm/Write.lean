import Ignition.Vmm.Chain

/-!
# What a write does to the store

Two facts about the programs of `SnapshotWriter::write`, both under an arbitrary
fault script. Whatever happens, the effect stays within the snapshot directory, its
staging sibling and the directories above the latter (`write_framed`). And if the
write reports success, the directory holds exactly what was captured
(`program_full_done`, `program_diff_done`); from this a written layer extends the
chain of its parent (`Chain.write`).

Both need nothing about the name, except that the staging directory is not the
directory itself: for a name such as `x.tmp` the two coincide.
-/

namespace Ignition.Vmm

open Files List

/-! ## Frame -/

/-- The two subtrees a write to `dir` works in. -/
def writeRoots (dir : Path) : List Loc := [dir.loc, (stagingDir dir).loc]

def stagedFiles (tmp : Path) : List Loc :=
  [memoryBin, gicBin, diskImg, vmstateJson, dirtyIdx].map fun f => tmp.loc ++ [f]

variable {tmp : Path} {roots : List Loc} {ram : Bytes} {rest : Prog} {sc : Script}
  {t t' : Files.Tree Datum} {files : List (Name × List Datum)}

theorem staged {f : Name} (hf : f ∈ [memoryBin, gicBin, diskImg, vmstateJson, dirtyIdx]) :
    ∃ r ∈ stagedFiles tmp, r <+: (tmp.child f).loc :=
  ⟨_, mem_map.mpr ⟨f, hf, rfl⟩, by rw [Path.loc_child]⟩

def Staging (tmp : Path) (c : Cmd Datum) : Prop :=
  c.op = .removeDirAll tmp ∨ c.op.Within (stagedFiles tmp) tmp.spots

theorem Staging.within {c : Cmd Datum} (h : Staging tmp c) (hr : tmp.loc ∈ roots) :
    c.op.Within roots tmp.spots := by
  rcases h with h | h
  · rw [h]
    exact ⟨_, hr, prefix_rfl⟩
  · refine h.mono fun r hmem => ⟨_, hr, ?_⟩
    obtain ⟨f, -, rfl⟩ := mem_map.mp hmem
    exact prefix_append ..

theorem within_writeChunks {made : List Loc} {p : Path} {chunks : List (List Datum)}
    (hp : ∃ r ∈ roots, r <+: p.loc) :
    ∀ c ∈ writeChunks p chunks, c.op.Within roots made := by
  intro c hc
  rcases mem_cons.mp hc with rfl | hc
  · exact hp
  · obtain ⟨d, -, rfl⟩ := mem_map.mp hc
    exact hp

theorem within_packCmds {made : List Loc} {p : Path} {all : List Nat}
    (hp : ∃ r ∈ roots, r <+: p.loc) : ∀ (ps : List Nat),
    ∀ c ∈ packCmds p all ram ps, c.op.Within roots made
  | [], c, hc => nomatch hc
  | q :: ps, c, hc => by
    unfold packCmds at hc
    split at hc
    · rcases mem_cons.mp hc with rfl | hc
      · exact hp
      · exact within_packCmds hp ps c hc
    · rw [mem_singleton.mp hc]
      trivial

theorem staging_openStaging (tmp : Path) : ∀ c ∈ openStaging tmp, Staging tmp c := by
  intro c hc
  rcases mem_cons.mp hc with rfl | hc
  · exact .inl rfl
  · rw [mem_singleton.mp hc]
    exact .inr fun s hs => hs

theorem staging_writeChunks {f : Name} {chunks : List (List Datum)}
    (hf : f ∈ [memoryBin, gicBin, diskImg, vmstateJson, dirtyIdx]) :
    ∀ c ∈ writeChunks (tmp.child f) chunks, Staging tmp c :=
  fun c hc => .inr (within_writeChunks (staged hf) c hc)

theorem staging_stageFull (tmp : Path) (snap : VmSnapshot) (ram gic : Bytes) (disk : Path) :
    ∀ c ∈ stageFull tmp snap ram gic disk, Staging tmp c := by
  simp only [stageFull, forall_mem_append, forall_mem_singleton]
  exact ⟨⟨⟨⟨staging_openStaging tmp, staging_writeChunks (by simp)⟩,
    staging_writeChunks (by simp)⟩, .inr (staged (by simp))⟩, staging_writeChunks (by simp)⟩

theorem within_writeDiffPages (tmp : Path) (dirty : List Nat) (ram : Bytes) :
    ∀ c ∈ writeDiffPages tmp dirty ram, c.op.Within (stagedFiles tmp) tmp.spots := by
  intro c hc
  rcases mem_append.mp hc with hc | hc
  · rcases mem_cons.mp hc with rfl | hc
    · exact staged (by simp)
    · exact within_packCmds (staged (by simp)) dirty c hc
  · exact within_writeChunks (staged (by simp)) c hc

theorem staging_stageDiff (tmp : Path) (snap : VmSnapshot) (dirty : List Nat) (ram gic : Bytes)
    (disk : Path) : ∀ c ∈ stageDiff tmp snap dirty ram gic disk, Staging tmp c := by
  simp only [stageDiff, forall_mem_append, forall_mem_singleton]
  exact ⟨⟨⟨⟨staging_openStaging tmp, staging_writeChunks (by simp)⟩, .inr (staged (by simp))⟩,
    staging_writeChunks (by simp)⟩, fun c hc => .inr (within_writeDiffPages tmp dirty ram c hc)⟩

/-! ### Staging and publishing -/

def SnapshotWriter.stage (w : SnapshotWriter) (name : String) (c : Capture) : Prog :=
  let tmp := stagingDir (baseDir w.store name)
  match w.parent with
  | some _ =>
    match c.dirty with
    | some pages => stageDiff tmp c.snap pages c.ram c.gic c.disk
    | none => [must (.refuse "dirty tracking is required for diffs")]
  | none => stageFull tmp c.snap c.ram c.gic c.disk

def finish (dir : Path) (m : SnapshotManifest) : Prog :=
  publish (stagingDir dir) dir ++ writeManifest dir m

theorem SnapshotWriter.program_eq (w : SnapshotWriter) (name : String) (c : Capture) :
    (w.program name c = w.stage name c ++ finish (baseDir w.store name) (w.manifest name c.snap)) ∨
      (w.program name c = w.stage name c ∧ ∃ msg, w.stage name c = [must (.refuse msg)]) := by
  unfold program stage finish writeDiffSnapshot writeSnapshot
  cases w.parent with
  | none => exact .inl (append_assoc ..)
  | some p =>
    cases c.dirty with
    | some pages => exact .inl (append_assoc ..)
    | none => exact .inr ⟨rfl, _, rfl⟩

theorem SnapshotWriter.exec_program (w : SnapshotWriter) (name : String) (c : Capture)
    (sc : Script) (t : Files.Tree Datum) : exec (w.program name c) sc t =
      if (exec (w.stage name c) sc t).1 = .done then
        exec (finish (baseDir w.store name) (w.manifest name c.snap))
          (sc.drop (w.stage name c).length) (exec (w.stage name c) sc t).2
      else exec (w.stage name c) sc t := by
  rcases w.program_eq name c with h | ⟨h, msg, hs⟩
  · rw [h, exec_append]
  rw [h, if_neg]
  intro hd
  have hend : exec [must (.refuse msg)] sc t = (.done, (exec (w.stage name c) sc t).2) := by
    rw [← hs, ← hd]
  obtain ⟨_, hstep, -⟩ := exec_cons_done hend
  obtain ⟨-, hrun⟩ := Cmd.step_done rfl hstep
  cases hrun

theorem SnapshotWriter.staging_stage (w : SnapshotWriter) (name : String) (c : Capture) :
    ∀ d ∈ w.stage name c, Staging (stagingDir (baseDir w.store name)) d := by
  intro d hd
  unfold stage at hd
  simp only at hd
  split at hd
  · split at hd
    · exact staging_stageDiff _ _ _ _ _ _ d hd
    · rw [mem_singleton.mp hd]
      exact .inr trivial
  · exact staging_stageFull _ _ _ _ _ d hd

theorem within_finish (dir : Path) (m : SnapshotManifest) : ∀ c ∈ finish dir m,
    c.op.Within (writeRoots dir) (stagingDir dir).spots := by
  intro c hc
  rcases mem_append.mp hc with hc | hc
  · rcases mem_cons.mp hc with rfl | hc
    · exact ⟨_, mem_cons_self .., prefix_rfl⟩
    · rw [mem_singleton.mp hc]
      exact ⟨⟨_, mem_cons_of_mem _ (mem_cons_self ..), prefix_rfl⟩,
        ⟨_, mem_cons_self .., prefix_rfl⟩⟩
  · refine within_writeChunks ⟨_, mem_cons_self .., ?_⟩ c hc
    show dir.loc <+: (dir.child manifestJson).loc
    rw [Path.loc_child]
    exact prefix_append ..

theorem within_program (w : SnapshotWriter) (name : String) (c : Capture) :
    ∀ d ∈ w.program name c, d.op.Within (writeRoots (baseDir w.store name))
      (stagingDir (baseDir w.store name)).spots := by
  intro d hd
  have hstage : d ∈ w.stage name c → d.op.Within (writeRoots (baseDir w.store name))
      (stagingDir (baseDir w.store name)).spots := fun h =>
    (w.staging_stage name c d h).within (mem_cons_of_mem _ (mem_cons_self ..))
  rcases w.program_eq name c with h | ⟨h, -⟩
  · rw [h] at hd
    rcases mem_append.mp hd with hd | hd
    · exact hstage hd
    · exact within_finish _ _ d hd
  · rw [h] at hd
    exact hstage hd

/-- **A write, however it ends, stays within its directory and its staging sibling.** -/
theorem program_framed (w : SnapshotWriter) (name : String) (c : Capture) (sc : Script)
    (t : Files.Tree Datum) : Tree.Framed (writeRoots (baseDir w.store name))
      (stagingDir (baseDir w.store name)).spots t (exec (w.program name c) sc t).2 :=
  exec_framed _ sc t (within_program w name c)

/-! ## A staging directory that was filled -/

theorem openStaging_done (h : exec (openStaging tmp ++ rest) sc t = (.done, t')) :
    ∃ t₁ sc₁, t₁.Holds tmp [] ∧ Tree.Framed [tmp.loc] tmp.spots t t₁ ∧
      exec rest sc₁ t₁ = (.done, t') := by
  obtain ⟨ta, hrm, h⟩ := exec_cons_done h
  obtain ⟨tb, hmk, h⟩ := exec_cons_done h
  have hfa : Tree.Framed [tmp.loc] tmp.spots t
      ((ignored (.removeDirAll tmp)).step sc.head?.join t).2 := by
    refine Cmd.step_framed ?_ _ t
    exact ⟨_, mem_singleton.mpr rfl, prefix_rfl⟩
  have hfb : Tree.Framed [tmp.loc] tmp.spots ta
      ((must (.createDirAll tmp)).step sc.tail.head?.join ta).2 := by
    refine Cmd.step_framed ?_ _ ta
    exact fun s hs => hs
  rw [hrm] at hfa
  rw [hmk] at hfb
  obtain ⟨-, hrun⟩ := Cmd.step_done rfl hmk
  obtain ⟨hres, hdir⟩ := run_createDirAll hrun
  exact ⟨tb, _, ⟨hres, hdir, fun _ _ hf => nomatch hf⟩, hfa.trans hfb, h⟩

def fullFiles (c : Capture) (disk : List Datum) : List (Name × List Datum) :=
  [(vmstateJson, [.state c.snap]), (diskImg, disk), (gicBin, raw c.gic), (memoryBin, raw c.ram)]

def diffFiles (c : Capture) (dirty : List Nat) (disk : List Datum) : List (Name × List Datum) :=
  [(dirtyIdx, raw (idxBytes dirty)), (memoryBin, raw (dirty.flatMap (packPage c.ram))),
    (vmstateJson, [.state c.snap]), (diskImg, disk), (gicBin, raw c.gic)]

def DiskRead (t : Files.Tree Datum) (tmp disk : Path) (data : List Datum) : Prop :=
  ∃ tm, Tree.Framed [tmp.loc] tmp.spots t tm ∧ tm.readFile disk = some data

theorem stageFull_done {c : Capture}
    (h : exec (stageFull tmp c.snap c.ram c.gic c.disk ++ rest) sc t = (.done, t')) :
    ∃ data t₁ sc₁, DiskRead t tmp c.disk data ∧ t₁.Holds tmp (fullFiles c data) ∧
      exec rest sc₁ t₁ = (.done, t') := by
  obtain ⟨ta, _, ha, hfa, h⟩ := openStaging_done h
  obtain ⟨tb, _, hb, hfb, h⟩ := ha.writeFile (show memoryBin ∉ [] by decide) h
  obtain ⟨tc, _, hc, hfc, h⟩ := hb.writeFile (show gicBin ∉ [memoryBin] by decide) h
  obtain ⟨td, _, data, hdisk, hd, h⟩ := hc.clone (show diskImg ∉ [gicBin, memoryBin] by decide) h
  obtain ⟨te, sce, he, -, h⟩ :=
    hd.writeFile (show vmstateJson ∉ [diskImg, gicBin, memoryBin] by decide) h
  exact ⟨data, te, sce, ⟨tc, (hfa.trans hfb).trans hfc, hdisk⟩, he, h⟩

theorem packCmds_done {mem : Path} {all : List Nat} : ∀ {ps : List Nat}
    {rest : Prog} {sc : Script} {t t' : Files.Tree Datum},
    exec (packCmds mem all ram ps ++ rest) sc t = (.done, t') →
    (∀ p ∈ ps, pageInRam ram p = true) ∧
      packCmds mem all ram ps = (ps.map fun p => raw (packPage ram p)).map fun d =>
        must (.append mem d)
  | [], _, _, _, _, _ => ⟨fun _ hp => (nomatch hp), rfl⟩
  | p :: ps, rest, sc, t, t', h => by
    unfold packCmds at h ⊢
    by_cases hp : pageInRam ram p = true
    · rw [if_pos hp] at h
      obtain ⟨_, -, h⟩ := exec_cons_done h
      obtain ⟨hin, heq⟩ := packCmds_done h
      refine ⟨fun q hq => ?_, ?_⟩
      · rcases mem_cons.mp hq with rfl | hq
        · exact hp
        · exact hin q hq
      · rw [if_pos hp, heq]
        rfl
    · -- the bounds error ends the program, it cannot have gone through
      rw [if_neg hp] at h
      obtain ⟨_, hstep, -⟩ := exec_cons_done h
      obtain ⟨-, hrun⟩ := Cmd.step_done rfl hstep
      cases hrun

theorem flatten_map_raw {β : Type} (f : β → Bytes) (l : List β) :
    (l.map fun x => raw (f x)).flatten = raw (l.flatMap f) := by
  induction l with
  | nil => rfl
  | cons x l ih =>
    rw [map_cons, flatten_cons, ih, flatMap_cons]
    unfold raw
    rw [map_append]

theorem writeDiffPages_done {dirty : List Nat} (hh : t.Holds tmp files)
    (hm : memoryBin ∉ files.map Prod.fst) (hi : dirtyIdx ∉ files.map Prod.fst)
    (h : exec (writeDiffPages tmp dirty ram ++ rest) sc t = (.done, t')) :
    (∀ p ∈ dirty, pageInRam ram p = true) ∧
    ∃ t₁ sc₁, t₁.Holds tmp ((dirtyIdx, raw (idxBytes dirty)) ::
      (memoryBin, raw (dirty.flatMap (packPage ram))) :: files) ∧
      exec rest sc₁ t₁ = (.done, t') := by
  unfold writeDiffPages at h
  rw [append_assoc] at h
  have hpack := h
  obtain ⟨_, -, hpack⟩ := exec_cons_done hpack
  obtain ⟨hin, heq⟩ := packCmds_done hpack
  rw [heq] at h
  obtain ⟨ta, _, ha, -, h⟩ := hh.writeChunks hm h
  obtain ⟨tb, scb, hb, -, h⟩ := ha.writeChunks (by
    rw [map_cons, mem_cons]
    exact fun hc => hc.elim (show dirtyIdx ≠ memoryBin by decide) hi) h
  rw [flatten_map_raw, flatten_map_raw] at hb
  exact ⟨hin, tb, scb, hb, h⟩

theorem stageDiff_done {c : Capture} {dirty : List Nat}
    (h : exec (stageDiff tmp c.snap dirty c.ram c.gic c.disk ++ rest) sc t = (.done, t')) :
    (∀ p ∈ dirty, pageInRam c.ram p = true) ∧
    ∃ data t₁ sc₁, DiskRead t tmp c.disk data ∧ t₁.Holds tmp (diffFiles c dirty data) ∧
      exec rest sc₁ t₁ = (.done, t') := by
  obtain ⟨ta, _, ha, hfa, h⟩ := openStaging_done h
  obtain ⟨tb, _, hb, hfb, h⟩ := ha.writeFile (show gicBin ∉ [] by decide) h
  obtain ⟨tc, _, data, hdisk, hc, h⟩ := hb.clone (show diskImg ∉ [gicBin] by decide) h
  obtain ⟨td, _, hd, -, h⟩ := hc.writeFile (show vmstateJson ∉ [diskImg, gicBin] by decide) h
  obtain ⟨hin, te, sce, he, h⟩ := writeDiffPages_done hd
    (show memoryBin ∉ [vmstateJson, diskImg, gicBin] by decide)
    (show dirtyIdx ∉ [vmstateJson, diskImg, gicBin] by decide) h
  exact ⟨hin, data, te, sce, ⟨tb, hfa.trans hfb, hdisk⟩, he, h⟩

/-! ## A directory that was published -/

theorem publish_done {dir : Path} (hne : (stagingDir dir).loc ≠ dir.loc)
    (hh : t.Holds (stagingDir dir) files)
    (h : exec (publish (stagingDir dir) dir ++ rest) sc t = (.done, t')) :
    ∃ t₁ sc₁, (∀ f data, (f, data) ∈ files → t₁.node (dir.loc ++ [f]) = some (.file data)) ∧
      exec rest sc₁ t₁ = (.done, t') := by
  obtain ⟨hts, hst⟩ := Path.withExtension_disjoint hne
  obtain ⟨ta, hrm, h⟩ := exec_cons_done h
  obtain ⟨tb, hmv, h⟩ := exec_cons_done h
  have hfa : Tree.Framed [dir.loc] [] t
      ((ignored (.removeDirAll dir)).step sc.head?.join t).2 := by
    refine Cmd.step_framed ?_ _ t
    exact ⟨_, mem_singleton.mpr rfl, prefix_rfl⟩
  rw [hrm] at hfa
  obtain ⟨-, hrun⟩ := Cmd.step_done rfl hmv
  obtain ⟨hcan, rfl⟩ := run_rename hne hrun
  refine ⟨_, _, fun f data hf => ?_, h⟩
  have hnode := hh.framed hfa (by rintro r hr; rw [mem_singleton.mp hr]; exact hst)
    (by rintro r hr; rw [mem_singleton.mp hr]; exact hts) hf
  rw [Tree.node_move hcan]
  unfold Tree.moved
  rw [if_pos (prefix_append ..), drop_left]
  exact hnode

theorem writeManifest_done {dir : Path} {m : SnapshotManifest}
    (hf : manifestJson ∉ files.map Prod.fst)
    (hh : ∀ f data, (f, data) ∈ files → t.node (dir.loc ++ [f]) = some (.file data))
    (h : exec (writeManifest dir m) sc t = (.done, t')) :
    t'.Holds dir ((manifestJson, [.manifest m]) :: files) := by
  have h' : exec (writeChunks (dir.child manifestJson) [[Datum.manifest m]] ++ []) sc t =
      (.done, t') := by
    rw [append_nil]
    exact h
  obtain ⟨t₁, sc₁, hres, hcan, hw, hend⟩ := exec_writeChunks_done h'
  rw [Path.loc_child] at hcan hres hw
  obtain ⟨hrd, hdir, -⟩ := Tree.resolve_child.mp hres
  have hheld : t.Holds dir files := ⟨hrd, hdir, hh⟩
  have hfin := hheld.put hf hcan _ hw
  obtain rfl := (Prod.mk.inj hend).2
  exact hfin

namespace SnapshotWriter

variable {w : SnapshotWriter} {name : String} {c : Capture} {sc : Script} {t t' : Files.Tree Datum}

/-- **A full snapshot that was written holds the capture.** -/
theorem program_full_done (hp : w.parent = none)
    (hne : (stagingDir (baseDir w.store name)).loc ≠ (baseDir w.store name).loc)
    (h : exec (w.program name c) sc t = (.done, t')) :
    ∃ disk, DiskRead t (stagingDir (baseDir w.store name)) c.disk disk ∧
      t'.Holds (baseDir w.store name)
        ((manifestJson, [.manifest (w.manifest name c.snap)]) :: fullFiles c disk) := by
  unfold program at h
  simp only [hp, writeSnapshot, append_assoc] at h
  obtain ⟨disk, ta, _, hdisk, ha, h⟩ := stageFull_done h
  obtain ⟨tb, _, hb, h⟩ := publish_done hne ha h
  refine ⟨disk, hdisk, writeManifest_done ?_ hb h⟩
  show manifestJson ∉ [vmstateJson, diskImg, gicBin, memoryBin]
  decide

/-- **A diff layer that was written holds the capture.** -/
theorem program_diff_done {parent : String} (hp : w.parent = some parent)
    (hne : (stagingDir (baseDir w.store name)).loc ≠ (baseDir w.store name).loc)
    (h : exec (w.program name c) sc t = (.done, t')) :
    ∃ dirty disk, c.dirty = some dirty ∧ (∀ p ∈ dirty, pageInRam c.ram p = true) ∧
      DiskRead t (stagingDir (baseDir w.store name)) c.disk disk ∧
      t'.Holds (baseDir w.store name)
        ((manifestJson, [.manifest (w.manifest name c.snap)]) :: diffFiles c dirty disk) := by
  unfold program at h
  simp only [hp, writeDiffSnapshot, append_assoc] at h
  cases hd : c.dirty with
  | none =>
    simp only [hd] at h
    obtain ⟨_, hstep, -⟩ := exec_cons_done h
    obtain ⟨-, hrun⟩ := Cmd.step_done rfl hstep
    cases hrun
  | some dirty =>
    simp only [hd] at h
    obtain ⟨hin, disk, ta, _, hdisk, ha, h⟩ := stageDiff_done h
    obtain ⟨tb, _, hb, h⟩ := publish_done hne ha h
    refine ⟨dirty, disk, rfl, hin, hdisk, writeManifest_done ?_ hb h⟩
    show manifestJson ∉ [dirtyIdx, memoryBin, vmstateJson, diskImg, gicBin]
    decide

/-! ## The layer in its chain -/

@[simp] theorem manifest_name (w : SnapshotWriter) (name : String) (snap : VmSnapshot) :
    (w.manifest name snap).name = name := by
  unfold manifest
  split <;> rfl

@[simp] theorem manifest_parent (w : SnapshotWriter) (name : String) (snap : VmSnapshot) :
    (w.manifest name snap).parent = w.parent := by
  unfold manifest
  split
  next p hp => rw [hp]; rfl
  next hp => rw [hp]; rfl

theorem full_chain (hp : w.parent = none)
    (hne : (stagingDir (baseDir w.store name)).loc ≠ (baseDir w.store name).loc)
    (h : exec (w.program name c) sc t = (.done, t')) :
    Chain t' w.store [(name, w.manifest name c.snap)] c.ram := by
  obtain ⟨disk, -, hh⟩ := program_full_done hp hne h
  refine ⟨.root ?_ (by rw [manifest_parent, hp]), ?_⟩
  · exact readManifest_of_readFile (hh.readFile (mem_cons_self ..))
  · have hmem : readBytes t' (paths (baseDir w.store (w.manifest name c.snap).name)).memory =
        .ok c.ram := by
      rw [manifest_name]
      exact readBytes_ok.mpr (hh.readFile (by simp [fullFiles]))
    show (readBytes t' _ >>= fun r => overlay t' w.store [] r) = _
    rw [hmem]
    rfl

/-- What a diff capture must bring: RAM of the same size as the image below, and a
dirty list within RAM that covers every page on which the two differ. -/
structure Covers (c : Capture) (base : Bytes) : Prop where
  ramOk : RamOk c.ram
  length_eq : base.length = c.ram.length
  tracked : ∃ dirty, c.dirty = some dirty ∧ (∀ p ∈ dirty, InRam c.ram p) ∧
    Paged.DiffersIn PAGE {p | p ∈ dirty} base c.ram

theorem diff_chain {p : String} {pm : SnapshotManifest}
    {es : List Layer} {base : Bytes}
    (hp : w.parent = some p)
    (hne : (stagingDir (baseDir w.store name)).loc ≠ (baseDir w.store name).loc)
    (hc : Chain t w.store ((p, pm) :: es) base)
    (ha : ∀ n ∈ chainNames ((p, pm) :: es),
      LayerAvoids (writeRoots (baseDir w.store name)) w.store n)
    (hn : name ∉ ((p, pm) :: es).map Prod.fst) (hcov : Covers c base)
    (h : exec (w.program name c) sc t = (.done, t')) :
    Chain t' w.store ((name, w.manifest name c.snap) :: (p, pm) :: es) c.ram := by
  obtain ⟨dirty, disk, hdirty, -, -, hh⟩ := program_diff_done hp hne h
  obtain ⟨dirty', hd', hin, hdiff⟩ := hcov.tracked
  obtain rfl : dirty' = dirty := Option.some.inj (hd'.symm.trans hdirty)
  have hframe := program_framed w name c sc t
  rw [h] at hframe
  have hc' := hc.framed hframe ha
  refine ⟨.layer hc'.links hn ?_ (by rw [manifest_parent, hp]), ?_⟩
  · exact readManifest_of_readFile (hh.readFile (mem_cons_self ..))
  · have hpages : readDiffPages t' (baseDir w.store (w.manifest name c.snap).name) =
        .ok (dirty', dirty'.flatMap (packPage c.ram)) := by
      have hidx := hh.readFile (mem_cons_of_mem _ (mem_cons_self ..))
      have hmem := hh.readFile
        (mem_cons_of_mem _ (mem_cons_of_mem _ (mem_cons_self ..)))
      rw [manifest_name, readDiffPages_ok hidx hmem,
        readIdx_idxBytes fun q hq => (hin q hq).lt hcov.ramOk]
    show reassemble t' w.store (w.manifest name c.snap :: ((p, pm) :: es).map Prod.snd).reverse = _
    rw [reverse_cons, reassemble_concat hc'.image, overlay, hpages]
    show (applyDiff base dirty' _ >>= fun r => overlay t' w.store [] r) = _
    rw [applyDiff_pack hcov.ramOk hcov.length_eq hin hdiff]
    rfl

end SnapshotWriter

end Ignition.Vmm
