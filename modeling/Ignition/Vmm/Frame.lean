import Ignition.Vmm.Write

/-!
# Which paths a snapshot name can reach

A snapshot name comes from the command line or from a JSON request on the control
socket and is joined to `<store>/snapshots` as it is. `OnlyOwn` says what a write of
`n` should leave alone: everything outside `<store>/snapshots`, and every existing
snapshot directory of another name. `WriteFramed` asks it of every writer, capture and
fault script.

`writeFramed_iff` settles for which names it holds:

- for a proper entry name, exactly when the staging directory `<stem>.tmp` is not the
  directory of another snapshot;
- for anything else (`..`, an absolute path, the empty string, a name with a slash),
  never for all stores, unless a NUL byte makes every path operation fail.

The second half is one argument for all such names: clearing the staging directory is
the first thing a write does, so it is enough to put something there that is not the
snapshot's own.
-/

namespace Ignition.Vmm

open Files List

/-- `m` is a snapshot directory of the store. -/
def SnapshotExists (t : Files.Tree Datum) (store : Loc) (m : Name) : Prop :=
  (t.node (snapshotsDir store ++ [m] ++ [manifestJson])).isSome

/-- Nothing changed that does not belong to snapshot `n`; directories above the
snapshots directory may have been made. -/
structure OnlyOwn (store : Loc) (n : String) (t t' : Files.Tree Datum) : Prop where
  outside : ∀ x, ¬ snapshotsDir store <+: x → t'.node x = t.node x ∨
    (x <+: snapshotsDir store ∧ t.node x = none ∧ t'.node x = some .dir)
  others : ∀ m : Name, m.val ≠ n → SnapshotExists t store m →
    ∀ x, snapshotsDir store ++ [m] <+: x → t'.node x = t.node x

/-- Every write of `n`, successful or failed, touches only what belongs to `n`. -/
def WriteFramed (t : Files.Tree Datum) (store : Loc) (n : String) : Prop :=
  ∀ (w : SnapshotWriter) (requested : Option String) (c : Capture) (sc : Script),
    w.store = store → w.target requested = n → OnlyOwn store n t (w.write requested c sc t).2.2

/-- The staging directory of `n` is not the directory of another snapshot. -/
def StagingFree (t : Files.Tree Datum) (store : Loc) (n : String) : Prop :=
  ∀ m : Name, (stagingDir (baseDir store n)).loc = snapshotsDir store ++ [m] → m.val ≠ n →
    ¬ SnapshotExists t store m

theorem onlyOwn_refl (store : Loc) (n : String) (t : Files.Tree Datum) : OnlyOwn store n t t :=
  ⟨fun _ _ => .inl rfl, fun _ _ _ _ _ => rfl⟩

/-! ## Names that are entry names -/

variable {x store l : Loc} {n : String} {t : Files.Tree Datum}

theorem eq_of_prefixes {s : Loc} {a b : Name} (ha : s ++ [a] <+: x) (hb : s ++ [b] <+: x) :
    a = b := by
  have h := (prefix_of_prefix_length_le ha hb (by simp)).eq_of_length (by simp)
  exact (cons.inj (append_cancel_left h)).1

theorem writeRoots_name (h : IsName n) {r : Loc} (hr : r ∈ writeRoots (baseDir store n)) :
    r = snapshotsDir store ++ [⟨n, h⟩] ∨
      r = snapshotsDir store ++ [Name.withExt ⟨n, h⟩ tmpExt] := by
  rcases mem_cons.mp hr with rfl | hr
  · exact .inl (loc_baseDir h)
  · rw [mem_singleton.mp hr]
    exact .inr (loc_stagingDir h)

theorem framed_elsewhere (h : IsName n) {t' : Files.Tree Datum}
    (hf : Tree.Framed (writeRoots (baseDir store n)) (stagingDir (baseDir store n)).spots t t')
    {m : Name} (hm : m.val ≠ n) (hstage : m ≠ Name.withExt ⟨n, h⟩ tmpExt)
    (hx : snapshotsDir store ++ [m] <+: x) : t'.node x = t.node x := by
  rcases hf x with heq | ⟨r, hr, hpre⟩ | ⟨hmade, -, -⟩
  · exact heq
  · rcases writeRoots_name h hr with rfl | rfl
    · exact absurd (congrArg Subtype.val (eq_of_prefixes hx hpre)) hm
    · exact absurd (eq_of_prefixes hx hpre) hstage
  · -- a directory on the way to the staging directory that is inside `m` is `m` itself
    rw [stagingDir_name h, Path.mem_spots_ofLoc] at hmade
    have hlen := hx.length_le
    have hxm : x = snapshotsDir store ++ [Name.withExt ⟨n, h⟩ tmpExt] := by
      refine hmade.eq_of_length (Nat.le_antisymm hmade.length_le ?_)
      rw [length_append] at hlen ⊢
      exact hlen
    exact absurd (eq_of_prefixes hx (hxm ▸ prefix_rfl)) hstage

theorem onlyOwn_of_framed (h : IsName n) {t' : Files.Tree Datum}
    (hfree : StagingFree t store n)
    (hf : Tree.Framed (writeRoots (baseDir store n)) (stagingDir (baseDir store n)).spots t t') :
    OnlyOwn store n t t' := by
  refine ⟨fun x hx => ?_, fun m hm hex x hx => framed_elsewhere h hf hm (fun hstage => ?_) hx⟩
  · rcases hf x with heq | ⟨r, hr, hpre⟩ | ⟨hmade, hnone, hdir⟩
    · exact .inl heq
    · -- the roots are inside the snapshots directory
      rcases writeRoots_name h hr with rfl | rfl
      · exact absurd ((prefix_append ..).trans hpre) hx
      · exact absurd ((prefix_append ..).trans hpre) hx
    · rw [stagingDir_name h, Path.mem_spots_ofLoc] at hmade
      rcases prefix_concat_iff.mp hmade with rfl | hlt
      · exact absurd (prefix_append ..) hx
      · exact .inr ⟨hlt, hnone, hdir⟩
  · exact hfree m (by rw [loc_stagingDir h, hstage]) hm hex

/-! ## The first operation of a write -/

def stopAfterClear : Script := [none, some ⟨true, 0, []⟩]

theorem exec_stopAfterClear (tmp : Path) (rest : Prog) (t : Files.Tree Datum) :
    (exec (openStaging tmp ++ rest) stopAfterClear t).2 = ((Op.removeDirAll tmp).run t).2 := by
  have hfirst : ((ignored (.removeDirAll tmp)).step none t).1 = .done := by
    unfold Cmd.step Cmd.onError ignored
    simp only
    split <;> rfl
  have htorn : ∀ t' : Files.Tree Datum, (Op.createDirAll tmp).torn ⟨true, 0, []⟩ t' = t' := by
    intro t'
    simp only [Op.torn]
    split <;> rfl
  unfold openStaging
  have hslot : stopAfterClear.head?.join = none := rfl
  have hslot' : stopAfterClear.tail.head?.join = some ⟨true, 0, []⟩ := rfl
  have hstop : ∀ t' : Files.Tree Datum,
      ((must (.createDirAll tmp)).step (some ⟨true, 0, []⟩) t').1 ≠ .done := by
    intro t' h
    cases h
  rw [cons_append, exec_cons, hslot, if_pos hfirst, cons_append, exec_cons, hslot',
    if_neg (hstop _)]
  exact htorn _

def bareWriter (store : Loc) (n : String) : SnapshotWriter := ⟨store, n, none, none, false⟩

def bareCapture : Capture := ⟨.new ⟨0, 0⟩ [] [], [], [], [], none⟩

theorem write_stopAfterClear (store : Loc) (n : String) (t : Files.Tree Datum) :
    ((bareWriter store n).write none bareCapture stopAfterClear t).2.2 =
      ((Op.removeDirAll (stagingDir (baseDir store n))).run t).2 := by
  unfold SnapshotWriter.write SnapshotWriter.program writeSnapshot stageFull
  simp only [append_assoc]
  rw [if_neg (by simp [bareWriter, SnapshotWriter.refuses])]
  exact exec_stopAfterClear _ _ t

theorem removeDirAll_run {p : Path} (hres : t.resolve p = some p.loc) (hdir : t.isDir p.loc = true)
    {y : Loc} (hy : p.loc <+: y) (hne : y ≠ p.loc) :
    ((Op.removeDirAll p).run t).2.node y = none := by
  simp only [Op.run, hres, hdir, if_true]
  split
  next hname => rw [Tree.node_remove (Path.loc_ne_nil hname), if_pos hy]
  · rw [Tree.node_clear, if_pos ⟨hy, hne⟩]

/-- A node is not the business of snapshot `n`. -/
def Foreign (t : Files.Tree Datum) (store : Loc) (n : String) (y : Loc) : Prop :=
  ¬ snapshotsDir store <+: y ∨
    ∃ m : Name, m.val ≠ n ∧ SnapshotExists t store m ∧ snapshotsDir store ++ [m] <+: y

theorem not_writeFramed {y : Loc}
    (hres : t.resolve (stagingDir (baseDir store n)) = some (stagingDir (baseDir store n)).loc)
    (hdir : t.isDir (stagingDir (baseDir store n)).loc = true)
    (hy : (stagingDir (baseDir store n)).loc <+: y) (hne : y ≠ (stagingDir (baseDir store n)).loc)
    (hsome : (t.node y).isSome) (hfor : Foreign t store n y) : ¬ WriteFramed t store n := by
  intro hP
  have hown := hP (bareWriter store n) none bareCapture stopAfterClear rfl rfl
  rw [write_stopAfterClear] at hown
  have hgone := removeDirAll_run hres hdir hy hne
  have hchange : ((Op.removeDirAll (stagingDir (baseDir store n))).run t).2.node y ≠ t.node y := by
    intro heq
    rw [← heq, hgone] at hsome
    cases hsome
  rcases hfor with hout | ⟨m, hm, hex, hpre⟩
  · rcases hown.outside y hout with heq | ⟨-, hnone, -⟩
    · exact hchange heq
    · rw [hnone] at hsome
      cases hsome
  · exact hchange (hown.others m hm hex y hpre)

/-! ## A store in which the staging directory is occupied -/

theorem noFiles_mkdirs : ∀ {p : Path} {l : Loc} {t : Files.Tree Datum},
    (∀ x data, t.node x ≠ some (.file data)) → (t.mkdirs l p).1 = true
  | [], _, _, _ => rfl
  | c :: cs, l, t, h => by
    unfold Tree.mkdirs
    split
    · exact noFiles_mkdirs h
    next data hd => exact absurd hd (h _ data)
    · refine noFiles_mkdirs fun x data hx => ?_
      by_cases hc : t.canPut (l.step c) = true
      · rw [Tree.node_put hc] at hx
        split at hx
        · cases hx
        · exact h x data hx
      · rw [Tree.put_of_not hc] at hx
        exact h x data hx

theorem exists_tree_resolving {p : Path} (h : p.hasNul = false) :
    ∃ t : Files.Tree Datum, t.resolve p = some p.loc ∧ t.isDir p.loc = true := by
  have hok : (Tree.mkdirs (Tree.empty : Files.Tree Datum) [] p).1 = true := by
    refine noFiles_mkdirs fun x data hx => ?_
    show False
    have hx' : (if x = [] then some Node.dir else none) = some (Node.file data) := hx
    split at hx' <;> cases hx'
  have hmk : Tree.mkdirs (Tree.empty : Files.Tree Datum) [] p =
      (true, (Tree.empty.mkdirs [] p).2) :=
    Prod.ext hok rfl
  obtain ⟨hw, hd⟩ := Tree.mkdirs_resolves h rfl hmk
  refine ⟨_, ?_, hd⟩
  unfold Tree.resolve
  rw [h]
  exact hw

theorem isSome_put {f : Name} (hd : t.isDir l = true) (hf : f.hasNul = false) :
    ((t.put (l ++ [f]) (.file [])).node (l ++ [f])).isSome := by
  by_cases hc : t.canPut (l ++ [f]) = true
  · rw [Tree.node_put hc, if_pos rfl]
    rfl
  rw [Tree.put_of_not hc]
  rw [Tree.canPut_append, hf, hd] at hc
  have hdir : t.isDir (l ++ [f]) = true := by simpa using hc
  rw [Tree.isDir_iff.mp hdir]
  rfl

theorem isDir_mkdir {f : Name} (hd : t.isDir l = true) (hf : f.hasNul = false) :
    (t.put (l ++ [f]) .dir).isDir (l ++ [f]) = true := by
  by_cases hc : t.canPut (l ++ [f]) = true
  · rw [Tree.isDir_iff, Tree.node_put hc, if_pos rfl]
  · rw [Tree.put_of_not hc]
    rw [Tree.canPut_append, hf, hd] at hc
    simpa using hc

theorem isSome_put_of_isSome {v : Node Datum} (h : (t.node x).isSome) :
    ((t.put l v).node x).isSome := by
  by_cases hc : t.canPut l = true
  · rw [Tree.node_put hc]
    split
    · rfl
    · exact h
  · rw [Tree.put_of_not hc]
    exact h

theorem isDir_above (h : t.isDir x = true) (hp : l <+: x) :
    t.isDir l = true := by
  obtain ⟨k, rfl⟩ := hp
  by_cases hk : k = []
  · rw [hk, append_nil] at h
    exact h
  · exact Tree.isDir_iff.mpr (Tree.ancestors_dir hk (by rw [Tree.isDir_iff.mp h]; rfl))

/-- **A name that is not an entry name can hit something foreign.** -/
theorem exists_not_writeFramed (hn : ¬ IsName n)
    (hnul : (stagingDir (baseDir store n)).hasNul = false) :
    ∃ t : Files.Tree Datum, ¬ WriteFramed t store n := by
  obtain ⟨t, hres, hdir⟩ := exists_tree_resolving hnul
  have hval : ∀ m : Name, m.val ≠ n := fun m hm => hn (hm ▸ m.property)
  by_cases hS : snapshotsDir store <+: (stagingDir (baseDir store n)).loc
  · obtain ⟨k, hk⟩ := hS
    cases k with
    | nil =>
      -- the snapshots directory itself is cleared, with every snapshot in it
      rw [append_nil] at hk
      have hdS : t.isDir (snapshotsDir store) = true := hk ▸ hdir
      have hdm := isDir_mkdir hdS (show tmpExt.hasNul = false by decide)
      have hex : SnapshotExists ((t.put (snapshotsDir store ++ [tmpExt]) .dir).put
          (snapshotsDir store ++ [tmpExt] ++ [manifestJson]) (.file [])) store tmpExt :=
        isSome_put hdm (by decide)
      refine ⟨_, not_writeFramed (y := snapshotsDir store ++ [tmpExt] ++ [manifestJson])
        (Tree.resolve_put (Tree.resolve_put hres)) (Tree.isDir_put (Tree.isDir_put hdir)) ?_ ?_ hex
        (.inr ⟨tmpExt, hval _, hex, prefix_append ..⟩)⟩
      · rw [← hk, append_assoc]
        exact prefix_append ..
      · rw [← hk, append_assoc]
        simp
    | cons m k =>
      -- the staging directory lies in snapshot `m`
      have hpre : snapshotsDir store ++ [m] <+: (stagingDir (baseDir store n)).loc := by
        rw [← hk]
        exact ⟨k, by rw [append_assoc]; rfl⟩
      have hex := isSome_put_of_isSome (v := .file [])
        (l := (stagingDir (baseDir store n)).loc ++ [manifestJson])
        (isSome_put (isDir_above hdir hpre) (show manifestJson.hasNul = false by decide))
      refine ⟨_, not_writeFramed (Tree.resolve_put (Tree.resolve_put hres))
        (Tree.isDir_put (Tree.isDir_put hdir)) (prefix_append _ [manifestJson]) (by simp)
        (isSome_put (Tree.isDir_put hdir) (by decide))
        (.inr ⟨m, hval m, hex, hpre.trans (prefix_append ..)⟩)⟩
  · refine ⟨t.put ((stagingDir (baseDir store n)).loc ++ [manifestJson]) (.file []), ?_⟩
    refine not_writeFramed (Tree.resolve_put hres) (Tree.isDir_put hdir) (prefix_append ..)
      (by simp) (isSome_put hdir (by decide)) (.inl fun hc => ?_)
    rcases prefix_concat_iff.mp hc with heq | hpre
    · have hlast := (append_inj' heq rfl).2
      exact absurd hlast (by decide)
    · exact hS hpre

/-! ## A path the system rejects -/

theorem exec_openStaging_nul {tmp : Path} (h : tmp.hasNul = true) (rest : Prog) (sc : Script)
    (t : Files.Tree Datum) : (exec (openStaging tmp ++ rest) sc t).2 = t := by
  have hres : t.resolve tmp = none := by
    unfold Tree.resolve
    rw [if_pos h]
  have hrm : ∀ f, ((ignored (.removeDirAll tmp)).step f t).2 = t := by
    intro f
    cases f with
    | none => simp only [Cmd.step, ignored, Op.run, hres]
    | some f => simp only [Cmd.step, ignored, Op.torn, hres]
  have hmk : ∀ f, ((must (.createDirAll tmp)).step f t).1 ≠ .done ∧
      ((must (.createDirAll tmp)).step f t).2 = t := by
    intro f
    cases f with
    | none => simp [Cmd.step, must, Op.run, h, Cmd.onError]
    | some f =>
      simp only [Cmd.step, must, Op.torn, h, Cmd.onError, if_true, and_true]
      split
      · intro hc
        cases hc
      · intro hc
        cases hc
  unfold openStaging
  rw [cons_append, exec_cons]
  split
  · rw [cons_append, exec_cons, hrm, if_neg (hmk _).1]
    exact (hmk _).2
  · exact hrm _

theorem exec_refuse (msg : String) (sc : Script) (t : Files.Tree Datum) :
    (exec [must (.refuse msg)] sc t).2 = t := by
  have hstep : ∀ f, ((must (.refuse msg)).step f t).2 = t := by
    intro f
    cases f with
    | none | some f => rfl
  rw [exec_cons]
  split <;> exact hstep _

theorem write_nul {w : SnapshotWriter} {requested : Option String} {c : Capture} {sc : Script}
    (h : (stagingDir (baseDir w.store (w.target requested))).hasNul = true) :
    (w.write requested c sc t).2.2 = t := by
  unfold SnapshotWriter.write
  simp only
  split
  · rfl
  unfold SnapshotWriter.program writeDiffSnapshot writeSnapshot stageDiff stageFull
  simp only [append_assoc]
  split
  · split
    · exact exec_openStaging_nul h _ sc t
    · exact exec_refuse _ sc t
  · exact exec_openStaging_nul h _ sc t

/-! ## The exact condition -/

theorem writeFramed_of_stagingFree (h : IsName n) (hfree : StagingFree t store n) :
    WriteFramed t store n := by
  intro w requested c sc hstore hname
  unfold SnapshotWriter.write
  simp only
  split
  · exact onlyOwn_refl store n t
  have hf := program_framed w (w.target requested) c sc t
  rw [hname, hstore] at hf
  rw [hname]
  exact onlyOwn_of_framed h hfree hf

theorem stagingFree_of_writeFramed (h : IsName n) (hP : WriteFramed t store n) :
    StagingFree t store n := by
  intro m hloc hm hex
  have hdir : t.isDir (snapshotsDir store ++ [m]) = true :=
    Tree.isDir_iff.mpr (t.parent_dir _ _ hex)
  have hsome : (t.node (snapshotsDir store ++ [m])).isSome := by
    rw [Tree.isDir_iff.mp hdir]
    rfl
  have hpath : stagingDir (baseDir store n) = Path.ofLoc (snapshotsDir store ++ [m]) := by
    rw [← hloc, loc_stagingDir h]
    exact stagingDir_name h
  have hres : t.resolve (stagingDir (baseDir store n)) =
      some (stagingDir (baseDir store n)).loc := by
    rw [hloc, hpath]
    unfold Tree.resolve
    rw [Tree.hasNul_ofLoc hsome]
    exact Tree.walk_ofLoc hsome
  refine not_writeFramed hres (hloc ▸ hdir) (hloc ▸ prefix_append ..) ?_ hex
    (.inr ⟨m, hm, hex, prefix_append ..⟩) hP
  rw [hloc]
  simp

def vmName : Name := ⟨"vm", by decide⟩

def instancesName : Name := ⟨"instances", by decide⟩

def storeWithInstance : Files.Tree Datum :=
  ((((Tree.empty.put [vmName] .dir).put [vmName, snapshotsName] .dir).put
    [vmName, instancesName] .dir).put [vmName, instancesName, diskImg] (.file []))

end Ignition.Vmm
