import Mathlib.Tactic.IntervalCases
import Ignition.Vmm.Restore

/-!
# Replacing a snapshot

A write over an existing snapshot stages the new directory, deletes the old one,
renames the staging directory into place and then writes the manifest. A failure or a
crash can fall at any point, and inside any of these operations. `replaced_iff_survives` says
exactly at which points the name still restores afterwards, to its old content or to
the new one:

- anywhere before the old directory is touched;
- while it is being deleted, as long as no file a restore reads is gone yet;
- once the manifest is on disk.

In between the name restores to nothing: first the old files are missing, then the
manifest. The rename does not close the window, because the old directory is deleted
before it and the manifest is written after it.
-/

namespace Ignition.Vmm

open Files List

/-! ## Files reached by a plain path -/

variable {store : Loc} {n : String} {t : Files.Tree Datum} {c : Cmd Datum} {cs : Prog}
  {f : Option Fault} {sc : Script} {m : SnapshotManifest} {dir : Path}

theorem baseDir_child (h : IsName n) (f : Name) :
    (baseDir store n).child f = Path.ofLoc ((baseDir store n).loc ++ [f]) := by
  rw [loc_baseDir h]
  unfold baseDir
  rw [Path.join_name _ h]
  unfold Path.child Path.ofLoc
  simp

theorem readFile_own (h : IsName n) {f : Name} {d : List Datum} :
    t.readFile ((baseDir store n).child f) = some d ↔
      t.node ((baseDir store n).loc ++ [f]) = some (.file d) := by
  rw [baseDir_child h, Tree.readFile_ofLoc]
  split
  next d' hd => rw [hd, Option.some.injEq, Option.some.injEq, Node.file.injEq]
  next hno =>
    refine ⟨fun hf => (nomatch hf), fun hf => absurd hf (hno d)⟩

/-! ## The files a restore needs -/

def neededFiles (tl : List Layer) (r : Restored) : List Name :=
  [manifestJson, vmstateJson, gicBin, memoryBin] ++ (if tl.isEmpty then [] else [dirtyIdx]) ++
    if r.snap.hasDisk then [diskImg] else []

theorem mem_neededFiles {tl : List Layer} {r : Restored} {f : Name} :
    f ∈ neededFiles tl r ↔ f = manifestJson ∨ f = vmstateJson ∨ f = gicBin ∨ f = memoryBin ∨
      (tl ≠ [] ∧ f = dirtyIdx) ∨ (r.snap.hasDisk = true ∧ f = diskImg) := by
  unfold neededFiles
  cases tl <;> cases r.snap.hasDisk <;> simp

def LayerKeeps (t t' : Files.Tree Datum) (store : Loc) (n : String) : Prop :=
  ∀ f ∈ [manifestJson, memoryBin, dirtyIdx], t.Keeps t' ((baseDir store n).child f)

section Needed

variable {t' : Files.Tree Datum} {tl : List Layer} {r : Restored}

theorem restoreDisk_ok {dir : Path} {snap : VmSnapshot} {o : Option (List Datum)} :
    restoreDisk t dir snap = .ok o ↔
      if snap.hasDisk then ∃ d, t.readFile (dir.child diskImg) = some d ∧ o = some d
      else o = none := by
  unfold restoreDisk paths
  cases snap.hasDisk with
  | false => simp [eq_comm]
  | true => cases t.readFile (dir.child diskImg) <;> simp [eq_comm]

theorem Restorable.keeps (hr : Restorable t store n m tl r) (hm : m.name = n)
    (hanc : ∀ k ∈ chainNames tl, LayerKeeps t t' store k)
    (hown : ∀ f ∈ neededFiles tl r, t.Keeps t' ((baseDir store n).child f)) :
    Restorable t' store n m tl r := by
  have hneed := fun f hf => hown f (mem_neededFiles.mpr hf)
  have hanc' : ∀ e ∈ tl, LayerKeeps t t' store e.2.name := fun e he =>
    hanc _ (mem_append_right _ (mem_map.mpr ⟨e, he, rfl⟩))
  refine ⟨hr.chain.keeps (fun k hk => ?_) (fun e he => ?_) (fun e he => ?_), hr.shape, ?_,
    hr.version, ?_, hr.memSize, ?_⟩
  · rcases mem_cons.mp hk with rfl | hk
    · exact hneed manifestJson (.inl rfl)
    · exact hanc k (mem_append_left _ hk) manifestJson (by simp)
  · -- all but the root: the leaf is among them when there is something below it
    cases tl with
    | nil => cases he
    | cons e' tl =>
      rcases mem_cons.mp he with rfl | he
      · show t.Keeps t' ((baseDir store m.name).child dirtyIdx)
        rw [hm]
        exact hneed dirtyIdx (by simp)
      · exact hanc' e (mem_of_mem_dropLast he) dirtyIdx (by simp)
  · rcases mem_cons.mp he with rfl | he
    · show t.Keeps t' ((baseDir store m.name).child memoryBin)
      rw [hm]
      exact hneed memoryBin (by simp)
    · exact hanc' e he memoryBin (by simp)
  · have hstate := hr.state
    rw [hm] at hstate ⊢
    exact hneed vmstateJson (by simp) _ hstate
  · have hgic := hr.gic
    rw [hm] at hgic ⊢
    exact hneed gicBin (by simp) _ hgic
  · have hdisk := restoreDisk_ok.mp hr.disk
    rw [hm] at hdisk ⊢
    rw [restoreDisk_ok]
    split at hdisk
    next hd =>
      obtain ⟨d, hf, hdisk⟩ := hdisk
      rw [if_pos hd]
      exact ⟨d, hneed diskImg (by simp [hd]) d hf, hdisk⟩
    next hd => rw [if_neg hd, hdisk]

theorem Chain.leaf_files {ram : Bytes} (h : Chain t store ((n, m) :: tl) ram) :
    (∃ d, t.readFile ((baseDir store m.name).child memoryBin) = some d) ∧
      (tl ≠ [] → ∃ d, t.readFile ((baseDir store m.name).child dirtyIdx) = some d) := by
  have himg := h.image
  rw [map_cons, reverse_cons] at himg
  cases hms : (tl.map Prod.snd).reverse with
  | nil =>
    have htl : tl = [] := map_eq_nil_iff.mp (reverse_eq_nil_iff.mp hms)
    rw [hms] at himg
    obtain ⟨b, hb, -⟩ := bind_ok.mp himg
    exact ⟨⟨_, readBytes_ok.mp hb⟩, fun hne => absurd htl hne⟩
  | cons root ms =>
    rw [hms] at himg
    obtain ⟨b, -, hov⟩ := bind_ok.mp himg
    have hov : overlay t store (ms ++ [m]) b = .ok ram := hov
    rw [overlay_append] at hov
    obtain ⟨b', -, hov⟩ := bind_ok.mp hov
    obtain ⟨d, hd, -⟩ := bind_ok.mp hov
    obtain ⟨idx, hidx, hd⟩ := bind_ok.mp hd
    obtain ⟨packed, hpacked, -⟩ := bind_ok.mp hd
    exact ⟨⟨_, readBytes_ok.mp hpacked⟩, fun _ => ⟨_, readBytes_ok.mp hidx⟩⟩

theorem Restorable.needed (hr : Restorable t store n m tl r) (hm : m.name = n) :
    ∀ f ∈ neededFiles tl r, ∃ d, t.readFile ((baseDir store n).child f) = some d := by
  intro f hf
  obtain ⟨hmem, hidx⟩ := hr.chain.leaf_files
  have hstate := hr.state
  have hgic := hr.gic
  have hdisk := restoreDisk_ok.mp hr.disk
  rw [hm] at hmem hidx hstate hgic hdisk
  rcases mem_neededFiles.mp hf with rfl | rfl | rfl | rfl | ⟨htl, rfl⟩ | ⟨hd, rfl⟩
  · have hman := hr.chain.links.readManifest_eq (n, m) (mem_cons_self ..)
    exact ⟨_, readManifest_eq_some hman⟩
  · exact ⟨_, hstate⟩
  · exact ⟨_, hgic⟩
  · exact hmem
  · exact hidx htl
  · rw [if_pos hd] at hdisk
    exact ⟨hdisk.choose, hdisk.choose_spec.1⟩

theorem Links.tail_eq_nil {es : List Layer} (h : Links t store es) {e : Layer} {tl : List Layer}
    (hes : es = e :: tl) : tl = [] ↔ e.2.parent = none := by
  cases h with
  | root _ hp =>
    obtain ⟨rfl, rfl⟩ := cons.inj hes
    exact ⟨fun _ => hp, fun _ => rfl⟩
  | layer _ _ _ hp =>
    obtain ⟨rfl, rfl⟩ := cons.inj hes
    refine ⟨fun h => (nomatch h), fun h => ?_⟩
    rw [hp] at h
    cases h

end Needed

/-! ## The steps after staging -/

/-- How the last four operations can end, by the tree they leave. The slots of the script
are those of the delete, the rename, the opening of the manifest and its writing. -/
inductive Finished (dir : Path) (m : SnapshotManifest) (a b c d : Option Fault)
    (t t' : Files.Tree Datum) : Prop
  | cut (h : t' = ((ignored (.removeDirAll dir)).step a t).2)
  | bare (hcan : ((ignored (.removeDirAll dir)).step a t).2.canMove (stagingDir dir).loc dir.loc)
      (h : t'.node (dir.loc ++ [manifestJson]) = some (.file []) ∨
        t'.node (dir.loc ++ [manifestJson]) =
          ((ignored (.removeDirAll dir)).step a t).2.node ((stagingDir dir).loc ++ [manifestJson]))
  | whole (hcan : ((ignored (.removeDirAll dir)).step a t).2.canMove (stagingDir dir).loc dir.loc)
      (h : exec (finish dir m) [a, b, c] t = (.done, t')) (hp : ∀ f, d = some f → 0 < f.part)

theorem exec_cons_of_done {t₁ : Files.Tree Datum} (h : c.step f t = (.done, t₁)) :
    exec (c :: cs) (f :: sc) t = exec cs sc t₁ := by
  have hs : c.step (f :: sc).head?.join t = (.done, t₁) := h
  rw [exec_cons, hs, if_pos rfl]
  rfl

theorem exec_slot_done {t' : Files.Tree Datum} (h : exec (c :: cs) (f :: sc) t = (.done, t')) :
    ∃ t₁, c.step f t = (.done, t₁) ∧ exec cs sc t₁ = (.done, t') := exec_cons_done h

theorem exec_cons_of_not_done (h : (c.step f t).1 ≠ .done) :
    exec (c :: cs) (f :: sc) t = c.step f t := by
  rw [exec_cons]
  exact if_neg h

theorem step_rename {src dst : Path} (hne : src.loc ≠ dst.loc) (f : Option Fault)
    (t : Files.Tree Datum) :
    (t.canMove src.loc dst.loc = true ∧
        (must (.rename src dst)).step f t = (.done, t.move src.loc dst.loc)) ∨
      (((must (.rename src dst)).step f t).1 ≠ .done ∧
        ((must (.rename src dst)).step f t).2 = t) := by
  rcases Cmd.step_atomic (c := must (.rename src dst)) rfl run_rename_failed (fun _ => rfl) f
    with ⟨-, hrun, hs⟩ | h
  · obtain ⟨hcan, hmv⟩ := run_rename hne (Prod.ext hrun rfl)
    rw [hs]
    exact .inl ⟨hcan, Prod.ext rfl hmv⟩
  · exact .inr h

theorem step_create (p : Path) (f : Option Fault) (t : Files.Tree Datum) :
    (t.resolve p = some p.loc ∧ t.canPut p.loc = true ∧
        (must (.create p)).step f t = (.done, t.put p.loc (.file []))) ∨
      (((must (.create p)).step f t).1 ≠ .done ∧ ((must (.create p)).step f t).2 = t) := by
  rcases Cmd.step_atomic (c := must (.create p)) rfl run_create_failed (fun _ => rfl) f
    with ⟨-, hrun, hs⟩ | h
  · obtain ⟨hres, hcan, hput⟩ := run_create (Prod.ext hrun rfl)
    rw [hs]
    exact .inl ⟨hres, hcan, Prod.ext rfl hput⟩
  · exact .inr h

theorem step_manifest {p : Path} (hres : t.resolve p = some p.loc)
    (hnode : t.node p.loc = some (.file [])) :
    (must (.append p [Datum.manifest m])).step none t =
        (.done, t.put p.loc (.file [.manifest m])) ∧
      ∀ f, ((must (.append p [Datum.manifest m])).step (some f) t).2 =
        t.put p.loc (.file ([Datum.manifest m].take f.part)) := by
  unfold Cmd.step must
  simp only [Op.run, Op.torn, hres, hnode, nil_append, implies_true, and_self]

theorem finish_eq (dir : Path) (m : SnapshotManifest) : finish dir m =
    [ignored (.removeDirAll dir), must (.rename (stagingDir dir) dir),
      must (.create (dir.child manifestJson)),
      must (.append (dir.child manifestJson) [.manifest m])] := rfl

theorem exec_finish (hne : (stagingDir dir).loc ≠ dir.loc) (m : SnapshotManifest)
    (a b c d : Option Fault) (t : Files.Tree Datum) :
    Finished dir m a b c d t (exec (finish dir m) [a, b, c, d] t).2 := by
  by_cases h1 : ((ignored (.removeDirAll dir)).step a t).1 = .done
  · generalize htc : ((ignored (.removeDirAll dir)).step a t).2 = tc
    have hs1 : (ignored (.removeDirAll dir)).step a t = (.done, tc) := by rw [← htc, ← h1]
    rcases step_rename hne b tc with ⟨hcan, hs2⟩ | ⟨hnd, heq⟩
    · have hmoved : (tc.move (stagingDir dir).loc dir.loc).node (dir.loc ++ [manifestJson]) =
          tc.node ((stagingDir dir).loc ++ [manifestJson]) := by
        rw [Tree.node_move hcan]
        unfold Tree.moved
        rw [if_pos (prefix_append ..), drop_left]
      rcases step_create (dir.child manifestJson) c (tc.move (stagingDir dir).loc dir.loc)
        with ⟨hres, hput, hs3⟩ | ⟨hnd, heq⟩
      · have hnode := (Tree.node_put hput (.file [])) (dir.child manifestJson).loc
        rw [if_pos rfl] at hnode
        obtain ⟨hlast, htorn⟩ := step_manifest (m := m) (Tree.resolve_put hres) hnode
        have hpre : ∀ f, exec (finish dir m) [a, b, c, f] t =
            (must (.append (dir.child manifestJson) [Datum.manifest m])).step f
              ((tc.move (stagingDir dir).loc dir.loc).put (dir.child manifestJson).loc
                (.file [])) := by
          intro f
          rw [finish_eq, exec_cons_of_done hs1, exec_cons_of_done hs2, exec_cons_of_done hs3, exec_cons]
          split
          next hd => exact Prod.ext hd.symm rfl
          · rfl
        have hwhole : exec (finish dir m) [a, b, c] t = exec (finish dir m) [a, b, c, none] t :=
          exec_congr t fun i _ => by
            rcases i with _ | _ | _ | _ | i <;> rfl
        rw [hpre none, hlast] at hwhole
        rw [hpre d]
        cases d with
        | none =>
          rw [hlast]
          exact .whole (by rw [htc]; exact hcan) hwhole fun f hf => (nomatch hf)
        | some f =>
          rw [htorn f]
          cases hp : f.part with
          | zero =>
            refine .bare (by rw [htc]; exact hcan) (.inl ?_)
            rw [← Path.loc_child, Tree.node_put (Tree.canPut_of_file hnode), if_pos rfl]
            rfl
          | succ k =>
            refine .whole (by rw [htc]; exact hcan) ?_ fun g hg => ?_
            · rw [hwhole, take_of_length_le (Nat.succ_le_succ (Nat.zero_le k))]
            · rw [← Option.some.inj hg, hp]
              exact Nat.succ_pos k
      · rw [finish_eq, exec_cons_of_done hs1, exec_cons_of_done hs2, exec_cons_of_not_done hnd, heq]
        exact .bare (by rw [htc]; exact hcan) (.inr (by rw [hmoved, htc]))
    · rw [finish_eq, exec_cons_of_done hs1, exec_cons_of_not_done hnd, heq]
      exact .cut htc.symm
  · rw [finish_eq, exec_cons_of_not_done h1]
    exact .cut rfl

theorem finish_whole {a b c d : Option Fault} {t' : Files.Tree Datum}
    (h : exec (finish dir m) [a, b, c] t = (.done, t')) (hp : ∀ f, d = some f → 0 < f.part) :
    (exec (finish dir m) [a, b, c, d] t).2 = t' := by
  rw [finish_eq] at h ⊢
  obtain ⟨t₁, hs1, h⟩ := exec_slot_done h
  obtain ⟨t₂, hs2, h⟩ := exec_slot_done h
  obtain ⟨t₃, hs3, h⟩ := exec_slot_done h
  obtain ⟨t₄, hs4, h⟩ := exec_cons_done h
  obtain rfl := (Prod.mk.inj h).2
  obtain ⟨-, hrun⟩ := Cmd.step_done rfl hs3
  obtain ⟨hres, hput, rfl⟩ := run_create hrun
  have hnode := (Tree.node_put hput (.file [])) (dir.child manifestJson).loc
  rw [if_pos rfl] at hnode
  obtain ⟨hlast, htorn⟩ := step_manifest (m := m) (Tree.resolve_put hres) hnode
  have heq := (Prod.mk.inj (hlast.symm.trans hs4)).2
  rw [exec_cons_of_done hs1, exec_cons_of_done hs2, exec_cons_of_done hs3]
  cases d with
  | none => rw [exec_cons_of_done hlast, ← heq]; rfl
  | some f =>
    have htake : [Datum.manifest m].take f.part = [.manifest m] :=
      take_of_length_le (hp f rfl)
    have hlen := htorn f
    rw [htake, heq] at hlen
    rw [exec_cons]
    split <;> exact hlen

/-! ## A replacement -/

def newContent (c : Capture) (disk : List Datum) : Restored :=
  ⟨c.snap, c.gic, c.ram, if c.snap.hasDisk then some disk else none⟩

/-- A write of `n` over a restorable snapshot of that name, with a capture that is itself in
order. The layers below the old and the new snapshot lie elsewhere, and no manifest is
left in the staging directory from somewhere else. -/
structure Replaces (t : Files.Tree Datum) (w : SnapshotWriter) (n : String) (c : Capture)
    (m : SnapshotManifest) (tl : List Layer) (old : Restored) (disk : List Datum) : Prop where
  isName : IsName n
  apart : (stagingDir (baseDir w.store n)).loc ≠ (baseDir w.store n).loc
  old : Restorable t w.store n m tl old
  named : m.name = n
  below : ∀ k ∈ chainNames tl, LayerAvoids (writeRoots (baseDir w.store n)) w.store k
  unstaged : t.node ((stagingDir (baseDir w.store n)).loc ++ [manifestJson]) = none
  disk : t.readFile c.disk = some disk
  disk_clear : c.disk.Avoids [(stagingDir (baseDir w.store n)).loc]
  version : checkVersion c.snap = .ok ()
  memSize : c.snap.config.memSize = c.ram.length
  parent : ∀ p, w.parent = some p → ∃ pm es base, Chain t w.store ((p, pm) :: es) base ∧
    Shape c.ram.length (((p, pm) :: es).map Prod.snd).reverse ∧
    n ∉ ((p, pm) :: es).map Prod.fst ∧
    (∀ k ∈ chainNames ((p, pm) :: es),
      LayerAvoids (writeRoots (baseDir w.store n)) w.store k) ∧ SnapshotWriter.Covers c base

theorem Shape.concat {k : Nat} (hd : m.snapshotType = .diff) (hm : m.memSize = k) :
    ∀ {ms : List SnapshotManifest}, Shape k ms → Shape k (ms ++ [m])
  | [], h => nomatch h
  | root :: ms, h => by
    refine ⟨h.1, h.2.1, fun x hx => ?_⟩
    rcases mem_append.mp hx with hx | hx
    · exact h.2.2 x hx
    · rw [mem_singleton.mp hx]
      exact ⟨hd, hm⟩

theorem restoreDisk_holds {files : List (Name × List Datum)} {snap : VmSnapshot} {disk : List Datum}
    (h : t.Holds dir files) (hd : (diskImg, disk) ∈ files) :
    restoreDisk t dir snap = .ok (if snap.hasDisk then some disk else none) := by
  rw [restoreDisk_ok]
  split
  · exact ⟨disk, h.readFile hd, rfl⟩
  · rfl

theorem Restorable.of_holds {c : Capture} {tl : List Layer} {files : List (Name × List Datum)}
    {disk : List Datum} (hname : m.name = n) (hchain : Chain t store ((n, m) :: tl) c.ram)
    (hshape : Shape c.ram.length (((n, m) :: tl).map Prod.snd).reverse)
    (hh : t.Holds (baseDir store n) files)
    (hfiles : ∀ e ∈ [(vmstateJson, [.state c.snap]), (diskImg, disk), (gicBin, raw c.gic)],
      e ∈ files)
    (hversion : checkVersion c.snap = .ok ()) (hsize : c.snap.config.memSize = c.ram.length) :
    Restorable t store n m tl (newContent c disk) := by
  subst hname
  exact ⟨hchain, hshape, hh.readFile (hfiles _ (by simp [newContent])), hversion,
    hh.readFile (hfiles _ (by simp [newContent])), hsize, restoreDisk_holds hh (hfiles _ (by simp))⟩

namespace Replaces

variable {t : Files.Tree Datum} {w : SnapshotWriter} {n : String} {c : Capture}
  {m : SnapshotManifest}
  {tl : List Layer} {old : Restored} {disk : List Datum}

theorem diskRead (h : Replaces t w n c m tl old disk) {data : List Datum}
    (hd : DiskRead t (stagingDir (baseDir w.store n)) c.disk data) : data = disk := by
  obtain ⟨tm, hframe, hread⟩ := hd
  rw [hframe.keeps h.disk_clear disk h.disk] at hread
  exact (Option.some.inj hread).symm

/-- **A write that reports success restores to the new content.** -/
theorem done (h : Replaces t w n c m tl old disk) {sc : Script} {t' : Files.Tree Datum}
    (hx : exec (w.program n c) sc t = (.done, t')) :
    runRestore t' w.store n = .ok (newContent c disk) := by
  rw [runRestore_ok]
  cases hp : w.parent with
  | none =>
    obtain ⟨data, hread, hh⟩ := SnapshotWriter.program_full_done hp h.apart hx
    obtain rfl := h.diskRead hread
    refine ⟨_, [], .of_holds (w.manifest_name n c.snap) (SnapshotWriter.full_chain hp h.apart hx) ?_
      hh (by simp [fullFiles]) h.version h.memSize⟩
    unfold SnapshotWriter.manifest
    rw [hp]
    exact ⟨rfl, h.memSize, forall_mem_nil _⟩
  | some p =>
    obtain ⟨pm, es, base, hchain, hshape, hn, ha, hcov⟩ := h.parent p hp
    obtain ⟨dirty, data, -, -, hread, hh⟩ := SnapshotWriter.program_diff_done hp h.apart hx
    obtain rfl := h.diskRead hread
    refine ⟨_, _, .of_holds (w.manifest_name n c.snap) (SnapshotWriter.diff_chain hp h.apart hchain
      ha hn hcov hx) ?_ hh (by simp [diffFiles]) h.version h.memSize⟩
    rw [map_cons, reverse_cons]
    unfold SnapshotWriter.manifest
    rw [hp]
    exact hshape.concat rfl h.memSize

theorem staged (h : Replaces t w n c m tl old disk) (sc : Script) :
    Restorable (exec (w.stage n c) sc t).2 w.store n m tl old := by
  have hframe : Tree.Framed [(stagingDir (baseDir w.store n)).loc]
      (stagingDir (baseDir w.store n)).spots t (exec (w.stage n c) sc t).2 :=
    exec_framed _ sc t fun d hd => (w.staging_stage n c d hd).within (mem_singleton.mpr rfl)
  obtain ⟨hts, hst⟩ := Path.withExtension_disjoint h.apart
  refine h.old.keeps h.named (fun k hk f hf => hframe.keeps fun s hs r hr => ?_)
    fun f _ => hframe.keeps fun s hs r hr => ?_
  · rw [mem_singleton.mp hr]
    exact h.below k hk f hf s hs _ (mem_cons_of_mem _ (mem_cons_self ..))
  · rw [mem_singleton.mp hr]
    rw [baseDir_child h.isName, Path.mem_spots_ofLoc] at hs
    intro hpre
    rcases prefix_concat_iff.mp (hpre.trans hs) with heq | hp
    · exact hst ⟨_, heq.symm⟩
    · exact hts hp

theorem staged_unstaged (h : Replaces t w n c m tl old disk) (sc : Script) :
    (exec (w.stage n c) sc t).2.node ((stagingDir (baseDir w.store n)).loc ++ [manifestJson]) =
      none := by
  have hcs : ∀ d ∈ w.stage n c, (∃ p, d.op = .removeDirAll p) ∨
      d.op.Within (stagedFiles (stagingDir (baseDir w.store n)))
        (stagingDir (baseDir w.store n)).spots := fun d hd =>
    (w.staging_stage n c d hd).imp_left fun hrm => ⟨_, hrm⟩
  refine exec_absent (fun r hr hpre => ?_) (fun hmade => ?_) sc hcs h.unstaged
  · obtain ⟨f, hf, rfl⟩ := mem_map.mp hr
    rw [prefix_append_right_inj] at hpre
    have hfm : f = manifestJson := (cons.inj (hpre.eq_of_length rfl)).1
    rw [hfm] at hf
    exact absurd hf (by decide)
  · rw [stagingDir_name h.isName, Path.mem_spots_ofLoc, Path.loc_ofLoc] at hmade
    have hlen := hmade.length_le
    simp at hlen

/-! ### The old directory, cut down -/

variable {t₁ : Files.Tree Datum}

theorem cut_eq (h : Replaces t w n c m tl old disk) (h₁ : Restorable t₁ w.store n m tl old)
    (f : Option Fault) :
    ((ignored (.removeDirAll (baseDir w.store n))).step f t₁).2 =
      t₁.cut (baseDir w.store n).loc f := by
  obtain ⟨d, hd⟩ := h₁.needed h.named manifestJson (mem_neededFiles.mpr (.inl rfl))
  have hnode := (readFile_own h.isName).mp hd
  have hdir : t₁.isDir (baseDir w.store n).loc = true :=
    Tree.isDir_iff.mpr (t₁.parent_dir _ manifestJson (by rw [hnode]; rfl))
  have hpath : baseDir w.store n = Path.ofLoc (snapshotsDir w.store ++ [⟨n, h.isName⟩]) := by
    unfold baseDir
    rw [Path.join_name _ h.isName]
    unfold Path.child Path.ofLoc
    rw [map_append]
    rfl
  rw [loc_baseDir h.isName] at hdir ⊢
  show ((Cmd.mk (.removeDirAll (baseDir w.store n)) false).step f t₁).2 = _
  rw [hpath, Cmd.step_removeDirAll hdir]

theorem spared (h : Replaces t w n c m tl old disk) (h₁ : Restorable t₁ w.store n m tl old)
    {f : Fault} (hf : ∀ x ∈ neededFiles tl old, [x] ∉ f.gone) :
    Restorable (t₁.cut (baseDir w.store n).loc (some f)) w.store n m tl old := by
  have hne : (baseDir w.store n).loc ≠ [] := by
    rw [loc_baseDir h.isName]
    simp
  have hframe : Tree.Framed [(baseDir w.store n).loc] [] t₁
      (t₁.cut (baseDir w.store n).loc (some f)) :=
    Tree.framed_removeSome ⟨_, mem_singleton.mpr rfl, prefix_rfl⟩ f.gone t₁
  refine h₁.keeps h.named (fun k hk g hg => hframe.keeps fun s hs r hr => ?_) fun x hx d hd => ?_
  · rw [mem_singleton.mp hr]
    exact h.below k hk g hg s hs _ (mem_cons_self ..)
  · rw [readFile_own h.isName] at hd ⊢
    rw [Tree.node_cut hne, if_pos (by simpa using hf x hx)]
    exact hd

theorem spared_of_restores (h : Replaces t w n c m tl old disk)
    (h₁ : Restorable t₁ w.store n m tl old) {f : Option Fault} {r : Restored}
    (hr : runRestore (t₁.cut (baseDir w.store n).loc f) w.store n = .ok r) :
    ∃ g, f = some g ∧ ∀ x ∈ neededFiles tl old, [x] ∉ g.gone := by
  have hne : (baseDir w.store n).loc ≠ [] := by
    rw [loc_baseDir h.isName]
    simp
  have hsub : (t₁.cut (baseDir w.store n).loc f).Sub t₁ := by
    cases f with
    | none => exact t₁.sub_remove _
    | some f => exact Tree.sub_removeSome f.gone t₁
  obtain ⟨m', tl', hr'⟩ := runRestore_ok.mp hr
  have hm' := hsub.keeps _ _ (readManifest_eq_some
    (hr'.chain.links.readManifest_eq (n, m') (mem_cons_self ..)))
  have hm := readManifest_eq_some (h₁.chain.links.readManifest_eq (n, m) (mem_cons_self ..))
  obtain rfl : m' = m := by
    rw [hm', Option.some.injEq, List.cons.injEq, Datum.manifest.injEq] at hm
    exact hm.1
  have hlift : Restorable t₁ w.store n m' tl' r :=
    hr'.keeps h.named (fun k _ g _ => hsub.keeps _) fun x _ => hsub.keeps _
  have hrold : r = old := Except.ok.inj
    ((runRestore_ok.mpr ⟨_, _, hlift⟩).symm.trans (runRestore_ok.mpr ⟨_, _, h₁⟩))
  subst hrold
  have hneed : ∀ x ∈ neededFiles tl r, ∃ d,
      (t₁.cut (baseDir w.store n).loc f).readFile ((baseDir w.store n).child x) = some d := by
    intro x hx
    refine hr'.needed h.named x (mem_neededFiles.mpr ?_)
    have htl : tl' = [] ↔ tl = [] :=
      (hr'.chain.links.tail_eq_nil rfl).trans (h₁.chain.links.tail_eq_nil rfl).symm
    rw [ne_eq, htl]
    exact mem_neededFiles.mp hx
  have hspared : ∀ x ∈ neededFiles tl r, f.any (fun f => [x] ∉ f.gone) = true := by
    intro x hx
    obtain ⟨d, hd⟩ := hneed x hx
    rw [readFile_own h.isName, Tree.node_cut hne] at hd
    split at hd
    next hs => exact hs
    · cases hd
  cases f with
  | none => cases hspared manifestJson (mem_neededFiles.mpr (.inl rfl))
  | some g => exact ⟨g, rfl, fun x hx => by simpa using hspared x hx⟩

end Replaces

/-! ## The main result -/

def Survives (t : Files.Tree Datum) (w : SnapshotWriter) (n : String) (c : Capture)
    (tl : List Layer) (old : Restored) (sc : Script) : Prop :=
  let k := (w.stage n c).length
  w.refuses n = true ∨ (exec (w.stage n c) sc t).1 ≠ .done ∨
    (∃ f, sc[k]?.join = some f ∧ ∀ x ∈ neededFiles tl old, [x] ∉ f.gone) ∨
    ((exec (w.program n c) (sc.take (k + 3)) t).1 = .done ∧
      ∀ f, sc[k + 3]?.join = some f → 0 < f.part)

theorem exec_finish_slots (dir : Path) (m : SnapshotManifest) (sc : Script) (t : Files.Tree Datum) :
    exec (finish dir m) sc t =
      exec (finish dir m) [sc[0]?.join, sc[1]?.join, sc[2]?.join, sc[3]?.join] t := by
  refine exec_congr t fun i (hi : i < 4) => ?_
  interval_cases i <;> simp

theorem runRestore_manifest (hn : IsName n) {r : Restored} (h : runRestore t store n = .ok r) :
    ∃ m, t.node ((baseDir store n).loc ++ [manifestJson]) = some (.file [.manifest m]) := by
  obtain ⟨m, tl, hr⟩ := runRestore_ok.mp h
  have hm := readManifest_eq_some (hr.chain.links.readManifest_eq (n, m) (mem_cons_self ..))
  exact ⟨m, (readFile_own hn).mp hm⟩

section Main

variable {t : Files.Tree Datum} {w : SnapshotWriter} {n : String} {c : Capture}
  {m : SnapshotManifest}
  {tl : List Layer} {old : Restored} {disk : List Datum}

theorem exec_program_staged {sc : Script} (hst : (exec (w.stage n c) sc t).1 = .done) :
    exec (w.program n c) sc t = exec (finish (baseDir w.store n) (w.manifest n c.snap))
        [sc[(w.stage n c).length]?.join, sc[(w.stage n c).length + 1]?.join,
          sc[(w.stage n c).length + 2]?.join, sc[(w.stage n c).length + 3]?.join]
        (exec (w.stage n c) sc t).2 ∧
      exec (w.program n c) (sc.take ((w.stage n c).length + 3)) t =
        exec (finish (baseDir w.store n) (w.manifest n c.snap))
          [sc[(w.stage n c).length]?.join, sc[(w.stage n c).length + 1]?.join,
            sc[(w.stage n c).length + 2]?.join] (exec (w.stage n c) sc t).2 := by
  generalize hk : (w.stage n c).length = k
  have htake : exec (w.stage n c) (sc.take (k + 3)) t = exec (w.stage n c) sc t :=
    exec_congr t fun i hi => by rw [getElem?_take_of_lt (by omega)]
  refine ⟨?_, ?_⟩
  · rw [w.exec_program, if_pos hst, exec_finish_slots, hk]
    simp only [getElem?_drop, Nat.add_zero]
  · rw [w.exec_program, htake, if_pos hst, exec_finish_slots, hk]
    refine exec_congr _ fun i (hi : i < 4) => ?_
    interval_cases i <;> simp

/-- **The name still restores, to its old content or to the new one, exactly if the write
ended at one of the points of `Survives`.** -/
theorem replaced_iff_survives (h : Replaces t w n c m tl old disk) {r : Option String}
    (hr : w.target r = n) (sc : Script) :
    (runRestore (w.write r c sc t).2.2 w.store n = .ok old ∨
        runRestore (w.write r c sc t).2.2 w.store n = .ok (newContent c disk)) ↔
      Survives t w n c tl old sc := by
  unfold SnapshotWriter.write Survives
  simp only [hr]
  by_cases href : w.refuses n = true
  · rw [if_pos href]
    exact ⟨fun _ => .inl href, fun _ => .inl (runRestore_ok.mpr ⟨m, tl, h.old⟩)⟩
  rw [if_neg href]
  show runRestore (exec (w.program n c) sc t).2 w.store n = .ok old ∨
    runRestore (exec (w.program n c) sc t).2 w.store n = .ok (newContent c disk) ↔ _
  have h₁ := h.staged sc
  by_cases hst : (exec (w.stage n c) sc t).1 = .done
  · have hun := h.staged_unstaged sc
    obtain ⟨hall, htake⟩ := exec_program_staged hst
    rw [hall, htake]
    generalize (exec (w.stage n c) sc t).2 = t₁ at h₁ hun htake ⊢
    generalize sc[(w.stage n c).length]?.join = a at htake ⊢
    generalize sc[(w.stage n c).length + 1]?.join = b at htake ⊢
    generalize sc[(w.stage n c).length + 2]?.join = e at htake ⊢
    generalize sc[(w.stage n c).length + 3]?.join = d
    have hcut := h.cut_eq h₁ a
    -- the rename needs an empty target, so it never follows a delete that left the manifest
    have hfresh : t₁.cut (baseDir w.store n).loc a |>.canMove
        (stagingDir (baseDir w.store n)).loc (baseDir w.store n).loc → ∀ f, a = some f →
        ¬ ∀ x ∈ neededFiles tl old, [x] ∉ f.gone := by
      intro hcan f hf hspared
      have hold := h.spared h₁ hspared
      rw [← hf] at hold
      obtain ⟨m', hm'⟩ := runRestore_manifest h.isName (runRestore_ok.mpr ⟨m, tl, hold⟩)
      rw [Tree.canMove_fresh hcan] at hm'
      cases hm'
    refine ⟨fun hP => ?_, fun hS => ?_⟩
    · obtain ⟨res, hres⟩ : ∃ res, runRestore (exec (finish (baseDir w.store n)
          (w.manifest n c.snap)) [a, b, e, d] t₁).2 w.store n = .ok res :=
        hP.elim (fun h => ⟨_, h⟩) fun h => ⟨_, h⟩
      cases exec_finish h.apart (w.manifest n c.snap) a b e d t₁ with
      | cut heq =>
        rw [heq, hcut] at hres
        exact .inr (.inr (.inl (h.spared_of_restores h₁ hres)))
      | bare hcan hno =>
        obtain ⟨m', hm'⟩ := runRestore_manifest h.isName hres
        rcases hno with hno | hno
        · rw [hm', Option.some.injEq, Node.file.injEq] at hno
          cases hno
        · have habs := (Cmd.step_removeDirAll_sub (baseDir w.store n) false a t₁).absent hun
          rw [hm'] at hno
          cases hno.trans habs
      | whole hcan hdone hp => exact .inr (.inr (.inr ⟨by rw [hdone], hp⟩))
    · rcases hS with hS | hS | ⟨f, hf, hspared⟩ | ⟨hdone, hp⟩
      · exact absurd hS href
      · exact absurd hst hS
      · refine .inl (runRestore_ok.mpr ⟨m, tl, ?_⟩)
        cases exec_finish h.apart (w.manifest n c.snap) a b e d t₁ with
        | cut heq =>
          rw [heq, hcut, hf]
          exact h.spared h₁ hspared
        | bare hcan _ | whole hcan _ _ =>
          rw [hcut] at hcan
          exact absurd hspared (hfresh hcan f hf)
      · rw [finish_whole (Prod.ext hdone rfl) hp]
        exact .inr (h.done (htake.trans (Prod.ext hdone rfl)))
  · rw [w.exec_program, if_neg hst]
    exact ⟨fun _ => .inr (.inl hst), fun _ => .inl (runRestore_ok.mpr ⟨m, tl, h₁⟩)⟩

end Main

/-! A machine with one byte of memory and no disk device, in the store `/`. -/

def plainWriter : SnapshotWriter := ⟨[], "a", none, none, false⟩

def byteCapture (b : UInt8) : Capture :=
  ⟨.new ⟨1, 1⟩ [] [], [b], [], [.name diskImg], none⟩

def storeWithA : Files.Tree Datum :=
  (plainWriter.write none (byteCapture 1) [] (Tree.empty.put [diskImg] (.file []))).2.2

theorem storeWithA_restorable : Restorable storeWithA [] "a" (.newFull "a" 1 1) []
    (newContent (byteCapture 1) []) where
  chain := SnapshotWriter.full_chain (w := plainWriter) (c := byteCapture 1) (t := Tree.empty.put
    [diskImg] (.file [])) rfl (by decide +kernel) (Prod.ext (by decide +kernel) rfl)
  shape := ⟨rfl, rfl, fun _ hm => (nomatch hm)⟩
  state := by decide +kernel
  version := by decide +kernel
  gic := by decide +kernel
  memSize := rfl
  disk := by decide +kernel

theorem replaces_storeWithA : Replaces storeWithA plainWriter "a" (byteCapture 2)
    (.newFull "a" 1 1) [] (newContent (byteCapture 1) []) [] where
  isName := by decide
  apart := by decide +kernel
  old := storeWithA_restorable
  named := rfl
  below := fun _ hk => nomatch hk
  unstaged := Option.isNone_iff_eq_none.mp (by decide +kernel)
  disk := by decide +kernel
  disk_clear := by decide +kernel
  version := by decide +kernel
  memSize := rfl
  parent := fun _ hp => nomatch hp

def crashInStaging : Script := List.replicate 4 none ++ [some ⟨true, 0, []⟩]

theorem replaced_crash_in_staging :
    Survives storeWithA plainWriter "a" (byteCapture 2) [] (newContent (byteCapture 1) [])
        crashInStaging ∧
      (runRestore (plainWriter.write none (byteCapture 2) crashInStaging storeWithA).2.2 [] "a" =
          .ok (newContent (byteCapture 1) []) ∨
        runRestore (plainWriter.write none (byteCapture 2) crashInStaging storeWithA).2.2 [] "a" =
          .ok (newContent (byteCapture 2) [])) := by
  have hs : Survives storeWithA plainWriter "a" (byteCapture 2) []
      (newContent (byteCapture 1) []) crashInStaging := Or.inr (.inl (by decide +kernel))
  exact ⟨hs, (replaced_iff_survives replaces_storeWithA rfl crashInStaging).mpr hs⟩

def crashBeforeRename : Script := List.replicate 10 none ++ [some ⟨true, 0, []⟩]

theorem crash_before_rename_loses_snapshot :
    runRestore storeWithA [] "a" = .ok (newContent (byteCapture 1) []) ∧
      (plainWriter.write none (byteCapture 2) crashBeforeRename storeWithA).1 = .stopped ∧
      runRestore (plainWriter.write none (byteCapture 2) crashBeforeRename storeWithA).2.2 [] "a" =
        .error "missing layer a: os error" := by
  decide +kernel

end Ignition.Vmm
