import Ignition.FcApi.VmRuns
import Ignition.Vmm.Frame
import Ignition.Vmm.Replace

/-!
# Snapshot paths as handles

A client names a snapshot by a path. The server makes a store name of it (`sanitize_name`), has its
child write the snapshot under that name, and remembers which name the path has; a load looks the
path up there, and makes the name again if it is not known. Servers that share a store share its
names, and the name does not determine the path: the directory and what follows a dot are dropped,
and everything but letters, digits, `_` and `-` is replaced.

A `Fleet` is any number of servers on one store, with the children that write to it. Which child
answers a create is left open: the control socket is in the store, so that servers share it too. The
arguments of a child are taken to be read as they are meant: a load gives no `--track-dirty`, and
neither request gives `--force`.

What a path restores to stays the same as long as no create writes to a name that an earlier one has
written (`created_restores`). Otherwise a path restores to the snapshot of another
(`path_restores_other`).
-/

namespace Ignition.Vmm

open Files List

/-! ## Directories that are left alone -/

def SameDir (store : Loc) (n : String) (t t' : Files.Tree Datum) : Prop :=
  ∀ x, (baseDir store n).loc <+: x → t'.node x = t.node x

section SameDir

variable {store : Loc} {n : String} {t t' t'' : Files.Tree Datum}

theorem SameDir.refl (t : Files.Tree Datum) : SameDir store n t t := fun _ _ => rfl

theorem SameDir.trans (h : SameDir store n t t') (h' : SameDir store n t' t'') :
    SameDir store n t t'' := fun x hx => (h' x hx).trans (h x hx)

theorem SameDir.readFile (h : SameDir store n t t') (hn : IsName n) (f : Name) :
    t'.readFile ((baseDir store n).child f) = t.readFile ((baseDir store n).child f) := by
  rw [baseDir_child hn, Tree.readFile_ofLoc, Tree.readFile_ofLoc, h _ (prefix_append ..)]

theorem SameDir.keeps (h : SameDir store n t t') (hn : IsName n) (f : Name) :
    t.Keeps t' ((baseDir store n).child f) := fun _ hd => (h.readFile hn f).trans hd

theorem SameDir.readManifest (h : SameDir store n t t') (hn : IsName n) :
    readManifest t' (baseDir store n) = readManifest t (baseDir store n) := by
  have hread : t'.readFile (paths (baseDir store n)).manifest =
      t.readFile (paths (baseDir store n)).manifest := h.readFile hn manifestJson
  unfold Vmm.readManifest
  rw [hread]

end SameDir

def ChainClosed (t : Files.Tree Datum) (store : Loc) (ns : List String) : Prop :=
  ∀ n ∈ ns, ∀ m, readManifest t (baseDir store n) = some m → m.name = n ∧ ∀ p ∈ m.parent, p ∈ ns

variable {t : Files.Tree Datum}

theorem Links.mem_closed {store : Loc} {ns : List String} {es : List Layer} (h : Links t store es)
    (hc : ChainClosed t store ns) : ∀ e₀, es.head? = some e₀ → e₀.1 ∈ ns →
      ∀ e ∈ es, e.1 ∈ ns ∧ e.2.name = e.1 := by
  induction h with
  | root hm _ =>
    intro e₀ he₀ hmem e he
    cases he₀
    obtain rfl := mem_singleton.mp he
    exact ⟨hmem, (hc _ hmem _ hm).1⟩
  | layer _ _ hm hp ih =>
    intro e₀ he₀ hmem e he
    cases he₀
    obtain ⟨hname, hparent⟩ := hc _ hmem _ hm
    rcases mem_cons.mp he with rfl | he
    · exact ⟨hmem, hname⟩
    · exact ih _ rfl (hparent _ hp) e he

theorem runRestore_same {t' : Files.Tree Datum} {store : Loc} {ns : List String}
    (hnames : ∀ n ∈ ns, IsName n) (hc : ChainClosed t store ns)
    (hsame : ∀ n ∈ ns, SameDir store n t t') {n : String} (hn : n ∈ ns) {r : Restored}
    (h : runRestore t store n = .ok r) : runRestore t' store n = .ok r := by
  obtain ⟨m, tl, hr⟩ := runRestore_ok.mp h
  have hmem := hr.chain.links.mem_closed hc (n, m) rfl hn
  have hkeep : ∀ k ∈ ns, ∀ f, t.Keeps t' ((baseDir store k).child f) :=
    fun k hk f => (hsame k hk).keeps (hnames k hk) f
  refine runRestore_ok.mpr ⟨m, tl, hr.keeps (hmem (n, m) mem_cons_self).2 ?_
    fun f _ => hkeep n hn f⟩
  intro k hk f _
  rcases mem_append.mp hk with hk | hk
  · obtain ⟨e, he, rfl⟩ := mem_map.mp hk
    exact hkeep _ (hmem e (mem_cons_of_mem _ he)).1 f
  · obtain ⟨e, he, rfl⟩ := mem_map.mp hk
    obtain ⟨he, hname⟩ := hmem e (mem_cons_of_mem _ he)
    exact hkeep _ (hname.symm ▸ he) f

theorem SnapshotWriter.program_manifest {w : SnapshotWriter} {name : String} {c : Capture}
    {sc : Script} {t' : Files.Tree Datum}
    (hne : (stagingDir (baseDir w.store name)).loc ≠ (baseDir w.store name).loc)
    (h : exec (w.program name c) sc t = (.done, t')) :
    readManifest t' (baseDir w.store name) = some (w.manifest name c.snap) := by
  cases hp : w.parent with
  | none =>
    obtain ⟨_, -, hholds⟩ := program_full_done hp hne h
    exact readManifest_of_readFile (hholds.readFile mem_cons_self)
  | some parent =>
    obtain ⟨_, _, -, -, -, hholds⟩ := program_diff_done hp hne h
    exact readManifest_of_readFile (hholds.readFile mem_cons_self)

end Ignition.Vmm

namespace Ignition.FcApi

open Files Runs
open Vmm (Datum baseDir stagingDir snapshotsDir readManifest runRestore SameDir ChainClosed)

/-! ## Store names -/

theorem not_isPlain_dot : ¬ IsPlain '.' := by
  unfold IsPlain
  decide

theorem isName_sanitizeName (p : String) : IsName (sanitizeName p) := by
  have hdot : '.' ∉ (sanitizeName p).toList := fun h => not_isPlain_dot (sanitizeName_plain p h)
  refine ⟨fun h => ?_, fun h => ?_, fun h => ?_, fun h => ?_⟩
  · exact sanitizeName_ne_empty p (by rw [h]; rfl)
  · exact hdot (by rw [h]; decide)
  · exact hdot (by rw [h]; decide)
  · exact absurd (sanitizeName_plain p h) (by unfold IsPlain; decide)

theorem sanitizeName_ne_withExt (p : String) (n ext : Name) :
    sanitizeName p ≠ (Name.withExt n ext).val := by
  intro h
  refine not_isPlain_dot (sanitizeName_plain p ?_)
  rw [h]
  show '.' ∈ (String.ofList (fileStem n.val.toList ++ '.' :: ext.val.toList)).toList
  rw [String.toList_ofList]
  exact List.mem_append_right _ List.mem_cons_self

/-! ## The fleet -/

/-- A child that runs, as far as it writes snapshots. -/
structure Child where
  writer : Vmm.SnapshotWriter
  tracked : Bool

def Child.fresh (store : Loc) (name : String) (tracked : Bool) : Child :=
  ⟨⟨store, name, none, none, false⟩, tracked⟩

def Child.restored (store : Loc) (name source : String) : Child :=
  ⟨⟨store, name, none, some source, false⟩, false⟩

/-- A path and the store as it was when its snapshot had been written. -/
structure Created where
  path : String
  tree : Files.Tree Datum

structure Fleet where
  store : Loc
  tree : Files.Tree Datum
  servers : List Server
  children : List Child
  created : List Created

/-- A snapshot that a child is asked for: which child it is, what it captures, and how the file
system treats it. -/
structure Shot where
  child : Nat
  cap : Vmm.Capture
  script : Script

structure Fleet.Action (β : Type) where
  server : Nat
  request : Request β
  outcome : Outcome
  fallback : String
  shot : Option Shot

def Server.asked {β : Type} (serde : Serde β) (s : Server) (req : Request β) : Option String :=
  if req.method = .put ∧ req.path = "/snapshot/create" ∧ s.vm.state = .paused then
    serde.snapshotCreate req.body
  else none

def Wire.Tells (w : Wire) (done : Option Bool) : Prop :=
  match w with
  | .answered taken => done.getD false = taken
  | .connect _ => done = none
  | _ => True

instance : (w : Wire) → (done : Option Bool) → Decidable (w.Tells done)
  | .answered taken, done => inferInstanceAs (Decidable (done.getD false = taken))
  | .connect _, done => inferInstanceAs (Decidable (done = none))
  | .write _, _ => .isTrue trivial
  | .read _, _ => .isTrue trivial
  | .closed, _ => .isTrue trivial

namespace Fleet

variable {β : Type}

/-- The children that a request spawns. -/
def born (f : Fleet) (serde : Serde β) (s s' : Server) (a : Action β) : List Child :=
  if s'.spawned.length = s.spawned.length then []
  else if a.request.path = "/actions" then
    [.fresh f.store a.fallback s.vm.config.trackDirtyPages]
  else
    match serde.snapshotLoad a.request.body with
    | some l => [.restored f.store a.fallback (s.vm.loadName l.snapshotPath)]
    | none => []

def step (serde : Serde β) (f : Fleet) (a : Action β) : Option Fleet :=
  match f.servers[a.server]? with
  | none => none
  | some s =>
    let r := s.handle serde a.request a.outcome
    match s.asked serde a.request, a.shot with
    | none, none =>
      some { f with
        servers := f.servers.set a.server r.1
        children := f.children ++ f.born serde s r.1 a }
    | none, some _ => none
    | some _, none =>
      if a.outcome.wire.Tells none then some { f with servers := f.servers.set a.server r.1 }
      else none
    | some path, some k =>
      match f.children[k.child]? with
      | none => none
      | some c =>
        let w := c.writer.write (some (sanitizeName path)) k.cap k.script f.tree
        if k.cap.dirty.isSome = c.tracked ∧ a.outcome.wire.Tells (some (w.1 = .done)) then
          some { f with
            tree := w.2.2
            servers := f.servers.set a.server r.1
            children := f.children.set k.child { c with writer := w.2.1 }
            created := if w.1 = .done then ⟨path, w.2.2⟩ :: f.created else f.created }
        else none

def names (cs : List Created) : List String := cs.map fun c => sanitizeName c.path

def Distinct (serde : Serde β) (f : Fleet) (a : Action β) : Prop :=
  ∀ s ∈ f.servers[a.server]?, ∀ path ∈ s.asked serde a.request,
    sanitizeName path ∉ names f.created

end Fleet

/-! ## The names that a server remembers -/

namespace Server

variable {β : Type} {s : Server}

def Named (s : Server) : Prop := ∀ path name, s.vm.paths.lookup path = some name →
  name = sanitizeName path

theorem Named.loadName (h : s.Named) (path : String) :
    s.vm.loadName path = sanitizeName path := by
  unfold VmState.loadName
  cases hl : s.vm.paths.lookup path with
  | none => rfl
  | some name => exact h path name hl

theorem Named.of_paths (h : s.Named) {s' : Server} (hp : s'.vm.paths = s.vm.paths) : s'.Named := by
  unfold Named
  rw [hp]
  exact h

theorem Named.cfgPut (h : s.Named) {α : Type} (parsed : Option α) (set : VmConfig → α → VmConfig) :
    (s.cfgPut parsed set).1.Named := by
  unfold Server.cfgPut
  repeat' split
  all_goals exact h

theorem Named.putDrive (h : s.Named) (parsed : Option Drive) : (s.putDrive parsed).1.Named := by
  unfold Server.putDrive
  repeat' split
  all_goals exact h

theorem Named.snapshotCreate (h : s.Named) (parsed : Option String) (o : Outcome) :
    (s.snapshotCreate parsed o).1.Named := by
  rcases snapshotCreate_cases (s := s) parsed o with ⟨hsame, -⟩ | ⟨path, -, -, htaken⟩
  · rw [hsame]
    exact h
  rw [htaken]
  intro q name hl
  rw [AssocMap.lookup_insert] at hl
  split at hl
  next heq =>
    rw [heq]
    exact (Option.some.inj hl).symm
  · exact h q name hl

theorem Named.handle (h : s.Named) (serde : Serde β) (req : Request β) (o : Outcome) :
    (s.handle serde req o).1.Named := by
  unfold Server.handle
  split
  · repeat' split
    all_goals exact h
  · split
    · exact h.cfgPut _ _
    split
    · exact h.cfgPut _ _
    split
    · exact h.putDrive _
    split
    · exact h.cfgPut _ _
    split
    · exact h.of_paths (putAction_kept _ _).paths
    split
    · exact h.snapshotCreate _ _
    split
    · exact h.of_paths (snapshotLoad_kept _ _).paths
    · exact h
  · split
    · exact h.of_paths (patchVm_kept _).paths
    · exact h
  · exact h

theorem handle_create (serde : Serde β) {req : Request β} (hm : req.method = .put)
    (hp : req.path = "/snapshot/create") (o : Outcome) :
    s.handle serde req o = s.snapshotCreate (serde.snapshotCreate req.body) o := by
  have hdrives : ¬ "/drives/".toList.isPrefixOf "/snapshot/create".toList = true := by decide
  have hnet : ¬ "/network-interfaces/".toList.isPrefixOf "/snapshot/create".toList = true := by
    decide
  unfold handle
  rw [hm]
  dsimp only
  rw [hp, if_neg (by decide), if_neg (by decide), if_neg hdrives, if_neg hnet, if_neg (by decide),
    if_pos rfl]

end Server

theorem control_snapshot {w : Wire} {name : Option String}
    (h : control w "snapshot" name = .ok ()) : w = .answered true := by
  cases w with
  | answered taken =>
    cases taken with
    | true => rfl
    | false =>
      have hdispatch : dispatchControl false ⟨"snapshot", name⟩ =
          dispatchControl false ⟨"snapshot", none⟩ := rfl
      unfold control at h
      dsimp only at h
      rw [hdispatch, if_neg (by decide)] at h
      cases h
  | connect e | write e | read e | closed => cases h

/-! ## The snapshots of a fleet -/

namespace Fleet

variable {β : Type}

variable {w : Vmm.SnapshotWriter} {path : String}

theorem write_same {q : String} (hne : sanitizeName q ≠ sanitizeName path) (cap : Vmm.Capture)
    (sc : Script) (t : Files.Tree Datum) :
    SameDir w.store (sanitizeName q) t (w.write (some (sanitizeName path)) cap sc t).2.2 := by
  intro x hx
  rw [Vmm.loc_baseDir (isName_sanitizeName q)] at hx
  unfold Vmm.SnapshotWriter.write
  dsimp only
  split
  · rfl
  refine Vmm.framed_elsewhere (isName_sanitizeName path)
    (Vmm.program_framed w (sanitizeName path) cap sc t) hne (fun h => ?_) hx
  exact sanitizeName_ne_withExt q _ _ (congrArg Subtype.val h)

theorem write_done {cap : Vmm.Capture} {sc : Script} {t : Files.Tree Datum}
    (h : (w.write (some (sanitizeName path)) cap sc t).1 = .done) :
    readManifest (w.write (some (sanitizeName path)) cap sc t).2.2
        (baseDir w.store (sanitizeName path)) = some (w.manifest (sanitizeName path) cap.snap) := by
  have hne : (stagingDir (baseDir w.store (sanitizeName path))).loc ≠
      (baseDir w.store (sanitizeName path)).loc := by
    rw [Vmm.loc_stagingDir (isName_sanitizeName path), Vmm.loc_baseDir (isName_sanitizeName path)]
    intro heq
    have hlast := List.singleton_inj.mp (List.append_cancel_left heq)
    exact sanitizeName_ne_withExt path _ _ (congrArg Subtype.val hlast).symm
  unfold Vmm.SnapshotWriter.write at h ⊢
  dsimp only at h ⊢
  split at h
  · cases h
  next hrefuses =>
    rw [if_neg hrefuses]
    exact Vmm.SnapshotWriter.program_manifest hne (Prod.ext h rfl)

theorem write_parent {name : String} {cap : Vmm.Capture} {sc : Script} {t : Files.Tree Datum}
    {p : String} (h : (w.write (some name) cap sc t).2.1.parent = some p) :
    w.parent = some p ∨ ((w.write (some name) cap sc t).1 = .done ∧ p = name) := by
  unfold Vmm.SnapshotWriter.write at h ⊢
  dsimp only at h ⊢
  split at h
  · exact .inl h
  rename_i hrefuses
  rw [if_neg hrefuses]
  dsimp only at h ⊢
  split at h
  next hd => exact .inr ⟨hd.1, (Option.some.inj h).symm⟩
  · exact .inl h

theorem write_store (w : Vmm.SnapshotWriter) (name : String) (cap : Vmm.Capture) (sc : Script)
    (t : Files.Tree Datum) : (w.write (some name) cap sc t).2.1.store = w.store := by
  unfold Vmm.SnapshotWriter.write
  dsimp only
  repeat' split
  all_goals rfl

structure Inv (f : Fleet) : Prop where
  named : ∀ s ∈ f.servers, s.Named
  stores : ∀ c ∈ f.children, c.writer.store = f.store
  parents : ∀ c ∈ f.children, ∀ p ∈ c.writer.parent, p ∈ names f.created
  closed : ∀ c cs, (c :: cs) <:+ f.created → ChainClosed c.tree f.store (names (c :: cs))
  kept : ∀ c cs, (c :: cs) <:+ f.created → ∀ n ∈ names (c :: cs), SameDir f.store n c.tree f.tree

theorem isName_of_mem_names {cs : List Created} {n : String} (h : n ∈ names cs) : IsName n := by
  obtain ⟨c, -, rfl⟩ := List.mem_map.mp h
  exact isName_sanitizeName c.path

namespace Inv

variable {f : Fleet}

theorem closed_now (h : f.Inv) : ChainClosed f.tree f.store (names f.created) := by
  cases hcs : f.created with
  | nil => exact fun n hn => absurd hn List.not_mem_nil
  | cons c cs =>
    have hsuffix : (c :: cs) <:+ f.created := hcs ▸ List.suffix_rfl
    intro n hn m hm
    rw [(h.kept c cs hsuffix n hn).readManifest (isName_of_mem_names hn)] at hm
    exact h.closed c cs hsuffix n hn m hm

theorem named_set (h : f.Inv) (i : Nat) {s' : Server} (hs' : s'.Named) :
    ∀ s ∈ f.servers.set i s', s.Named := by
  intro s hs
  rcases List.mem_or_eq_of_mem_set hs with hs | rfl
  · exact h.named s hs
  · exact hs'

theorem idle (h : f.Inv) {servers : List Server} (hs : ∀ s ∈ servers, s.Named)
    (more : List Child) (hmore : ∀ c ∈ more, c.writer.store = f.store ∧ c.writer.parent = none) :
    Inv { f with servers := servers, children := f.children ++ more } := by
  refine ⟨hs, fun c hc => ?_, fun c hc p hp => ?_, h.closed, h.kept⟩
  · rcases List.mem_append.mp hc with hc | hc
    · exact h.stores c hc
    · exact (hmore c hc).1
  · rcases List.mem_append.mp hc with hc | hc
    · exact h.parents c hc p hp
    · rw [(hmore c hc).2] at hp
      cases hp

theorem shot (h : f.Inv) {servers : List Server} (hs : ∀ s ∈ servers, s.Named) {i : Nat} {c : Child}
    (hc : f.children[i]? = some c) {path : String} (hnew : sanitizeName path ∉ names f.created)
    (cap : Vmm.Capture) (sc : Script) :
    let w := c.writer.write (some (sanitizeName path)) cap sc f.tree
    Inv { f with
      tree := w.2.2
      servers := servers
      children := f.children.set i { c with writer := w.2.1 }
      created := if w.1 = .done then ⟨path, w.2.2⟩ :: f.created else f.created } := by
  intro w
  have hmem := List.mem_of_getElem? hc
  have hstore := h.stores c hmem
  have hsame : ∀ n ∈ names f.created, SameDir f.store n f.tree w.2.2 := by
    intro n hn
    obtain ⟨c', hc', rfl⟩ := List.mem_map.mp hn
    rw [← hstore]
    exact write_same (fun heq => hnew (heq ▸ hn)) cap sc f.tree
  have hold : ∀ c' cs, (c' :: cs) <:+ f.created → ∀ n ∈ names (c' :: cs),
      SameDir f.store n c'.tree w.2.2 := by
    intro c' cs hsuf n hn
    exact (h.kept c' cs hsuf n hn).trans (hsame n ((hsuf.sublist.map _).subset hn))
  have hsub : ∀ n ∈ names f.created, n ∈ names (if w.1 = .done then ⟨path, w.2.2⟩ :: f.created
      else f.created) := by
    intro n hn
    split
    · exact List.mem_cons_of_mem _ hn
    · exact hn
  refine ⟨hs, fun c' hc' => ?_, fun c' hc' p hp => ?_, fun c' cs hsuf => ?_,
    fun c' cs hsuf n hn => ?_⟩
  · rcases List.mem_or_eq_of_mem_set hc' with hc' | rfl
    · exact h.stores c' hc'
    · exact (write_store ..).trans hstore
  · rcases List.mem_or_eq_of_mem_set hc' with hc' | rfl
    · exact hsub p (h.parents c' hc' p hp)
    · rcases write_parent hp with hp | ⟨hd, rfl⟩
      · exact hsub p (h.parents c hmem p hp)
      · show _ ∈ names (if w.1 = .done then _ else _)
        rw [if_pos hd]
        exact List.mem_cons_self
  · dsimp only at hsuf
    split at hsuf
    next hd =>
      rcases List.suffix_cons_iff.mp hsuf with heq | hsuf
      · -- the new snapshot has its own name and builds on what its writer has built on
        obtain ⟨rfl, rfl⟩ := List.cons.inj heq
        intro n hn m hm
        rcases List.mem_cons.mp hn with rfl | hn
        · have hman := write_done hd
          rw [hstore] at hman
          obtain rfl := Option.some.inj (hman.symm.trans hm)
          rw [Vmm.SnapshotWriter.manifest_name, Vmm.SnapshotWriter.manifest_parent]
          exact ⟨rfl, fun p hp => List.mem_cons_of_mem _ (h.parents c hmem p hp)⟩
        · rw [(hsame n hn).readManifest (isName_of_mem_names hn)] at hm
          obtain ⟨hname, hparent⟩ := h.closed_now n hn m hm
          exact ⟨hname, fun p hp => List.mem_cons_of_mem _ (hparent p hp)⟩
      · exact h.closed c' cs hsuf
    · exact h.closed c' cs hsuf
  · dsimp only at hsuf
    split at hsuf
    · rcases List.suffix_cons_iff.mp hsuf with heq | hsuf
      · obtain ⟨rfl, rfl⟩ := List.cons.inj heq
        exact .refl _
      · exact hold c' cs hsuf n hn
    · exact hold c' cs hsuf n hn

theorem born_idle (serde : Serde β) (s s' : Server) (a : Action β) :
    ∀ c ∈ f.born serde s s' a, c.writer.store = f.store ∧ c.writer.parent = none := by
  intro c hc
  unfold born at hc
  split at hc
  · cases hc
  split at hc
  · obtain rfl := List.mem_singleton.mp hc
    exact ⟨rfl, rfl⟩
  split at hc
  · obtain rfl := List.mem_singleton.mp hc
    exact ⟨rfl, rfl⟩
  · cases hc

theorem step (h : f.Inv) {serde : Serde β} {a : Action β} (hd : Distinct serde f a) {f' : Fleet}
    (hstep : f.step serde a = some f') : f'.Inv := by
  unfold Fleet.step at hstep
  split at hstep
  · cases hstep
  rename_i s hs
  dsimp only at hstep
  have hserver := h.named_set a.server
    ((h.named s (List.mem_of_getElem? hs)).handle serde a.request a.outcome)
  split at hstep
  · cases hstep
    exact h.idle hserver _ (born_idle serde s _ a)
  · cases hstep
  · split at hstep
    · cases hstep
      have hidle := h.idle hserver [] fun c hc => absurd hc List.not_mem_nil
      rw [List.append_nil] at hidle
      exact hidle
    · cases hstep
  next path k hasked _ =>
    split at hstep
    · cases hstep
    rename_i c hc
    split at hstep
    · cases hstep
      exact h.shot hserver hc (hd s hs path hasked) k.cap k.script
    · cases hstep

end Inv

theorem created_of_success {serde : Serde β} {f f' : Fleet} {a : Action β} {s : Server}
    (hs : f.servers[a.server]? = some s) (hasked : s.asked serde a.request = some path)
    (hok : (s.handle serde a.request a.outcome).2 = .empty NO_CONTENT)
    (hstep : f.step serde a = some f') : f'.created = ⟨path, f'.tree⟩ :: f.created := by
  have hwire : a.outcome.wire = .answered true := by
    unfold Server.asked at hasked
    split at hasked
    next hreq =>
      rw [Server.handle_create serde hreq.1 hreq.2.1] at hok
      rcases Server.snapshotCreate_cases (s := s) (serde.snapshotCreate a.request.body) a.outcome
        with ⟨-, hno⟩ | ⟨_, -, hcontrol, -⟩
      · exact absurd hok hno
      · exact control_snapshot hcontrol
    · cases hasked
  unfold step at hstep
  rw [hs] at hstep
  dsimp only at hstep
  rw [hasked, hwire] at hstep
  split at hstep
  next heq _ => cases heq
  next heq _ => cases heq
  · rw [if_neg (fun h : Wire.Tells _ _ => absurd h (by decide))] at hstep
    cases hstep
  next p k heq _ =>
    cases heq
    split at hstep
    · cases hstep
    split at hstep
    next htells =>
      cases hstep
      have hdone := of_decide_eq_true htells.2
      rw [if_pos hdone]
    · cases hstep

def start (store : Loc) (tree : Files.Tree Datum) (settings : List Settings) : Fleet :=
  ⟨store, tree, settings.map .new, [], []⟩

theorem Inv.start (store : Loc) (tree : Files.Tree Datum) (settings : List Settings) :
    (start store tree settings).Inv := by
  refine ⟨fun s hs => ?_, fun c hc => absurd hc List.not_mem_nil,
    fun c hc => absurd hc List.not_mem_nil, fun c cs hsuf => ?_, fun c cs hsuf => ?_⟩
  · obtain ⟨st, -, rfl⟩ := List.mem_map.mp hs
    intro path name hl
    cases hl
  · exact absurd (List.suffix_nil.mp hsuf) (List.cons_ne_nil c cs)
  · exact absurd (List.suffix_nil.mp hsuf) (List.cons_ne_nil c cs)

/-- **A path restores to the snapshot created under it.** In every run in which no create asks for a
name that an earlier one has written, every create that is answered with success is recorded, the
directory of every snapshot recorded is as its create left it, and at every server the path restores
to what it restored to then. -/
theorem created_restores {serde : Serde β} {store : Loc} {tree : Files.Tree Datum}
    {settings : List Settings} {as : List (Action β)} {f : Fleet}
    (h : Run (step serde) (Distinct serde) (start store tree settings) as f) :
    (∀ a f' s path, f.step serde a = some f' → f.servers[a.server]? = some s →
      s.asked serde a.request = some path →
      (s.handle serde a.request a.outcome).2 = .empty NO_CONTENT →
      f'.created = ⟨path, f'.tree⟩ :: f.created) ∧
    ∀ c ∈ f.created, SameDir f.store (sanitizeName c.path) c.tree f.tree ∧
      ∀ s ∈ f.servers, ∀ r, runRestore c.tree f.store (sanitizeName c.path) = .ok r →
        runRestore f.tree f.store (s.vm.loadName c.path) = .ok r := by
  have hstep : ∀ (f : Fleet) (a : Action β) (f' : Fleet), f.Inv → Distinct serde f a →
      f.step serde a = some f' → f'.Inv := fun _ _ _ hi hd hs => hi.step hd hs
  have hinv := h.invariant hstep (.start store tree settings)
  refine ⟨fun a f' s path hs hserver hasked hok => created_of_success hserver hasked hok hs, ?_⟩
  intro c hc
  obtain ⟨newer, cs, hcs⟩ := List.append_of_mem hc
  have hsuf : (c :: cs) <:+ f.created := ⟨newer, hcs.symm⟩
  have hown : sanitizeName c.path ∈ names (c :: cs) := List.mem_cons_self
  refine ⟨hinv.kept c cs hsuf _ hown, fun s hs r hr => ?_⟩
  rw [(hinv.named s hs).loadName]
  exact Vmm.runRestore_same (fun n hn => isName_of_mem_names hn) (hinv.closed c cs hsuf)
    (hinv.kept c cs hsuf) hown hr

/-! Two servers on one store; the first takes snapshots of a machine with one byte of memory. -/

def bare : Files.Tree Datum := Tree.empty.put [Vmm.diskImg] (.file [])

def ask (server : Nat) (e : Server.Event Body) (shot : Option Shot) : Action Body :=
  ⟨server, e.1, e.2, "fresh", shot⟩

def takes (path : String) (b : UInt8) : Action Body :=
  ask 0 (Server.put "/snapshot/create" (.snapshotCreate path) Server.fine)
    (some ⟨0, Vmm.byteCapture b, []⟩)

def twoTaken (p q : String) : List (Action Body) :=
  Server.configured.map (ask 0 · none) ++
    [ask 0 (Server.put "/actions" (.action "InstanceStart") Server.fine) none,
      ask 0 (⟨.patch, "/vm", .vmUpdate "Paused"⟩, Server.fine) none, takes p 1, takes q 2]

def pair : Fleet := start [] bare [Server.plainSettings, Server.plainSettings]

instance (f : Fleet) (a : Action Body) : Decidable (Distinct Body.serde f a) :=
  inferInstanceAs (Decidable (∀ s ∈ f.servers[a.server]?, ∀ path ∈ s.asked Body.serde a.request,
    sanitizeName path ∉ names f.created))

theorem created_restores_apart : ∃ f : Fleet,
    f.created.map (·.path) = ["/b/y.file", "/a/x.file"] ∧
      ∀ s ∈ f.servers, runRestore f.tree [] (s.vm.loadName "/a/x.file") =
        .ok (Vmm.newContent (Vmm.byteCapture 1) []) := by
  obtain ⟨f, hrun, hstore, hpaths, c, hc, hpath, hthen⟩ :
      ∃ f, Run (step Body.serde) (Distinct Body.serde) pair (twoTaken "/a/x.file" "/b/y.file") f ∧
        f.store = [] ∧ f.created.map (·.path) = ["/b/y.file", "/a/x.file"] ∧
        ∃ c ∈ f.created, c.path = "/a/x.file" ∧ runRestore c.tree [] (sanitizeName "/a/x.file") =
          .ok (Vmm.newContent (Vmm.byteCapture 1) []) := exists_run (by decide +kernel)
  refine ⟨f, hpaths, fun s hs => ?_⟩
  have hr := ((created_restores hrun).2 c hc).2 s hs (Vmm.newContent (Vmm.byteCapture 1) [])
  rw [hstore, hpath] at hr
  exact hr hthen

theorem path_restores_other : ∃ f : Fleet,
    Run (step Body.serde) (fun _ _ => True) pair (twoTaken "/a/x" "/b/x") f ∧
    f.created.map (·.path) = ["/b/x", "/a/x"] ∧
    (∃ c ∈ f.created, c.path = "/a/x" ∧
      runRestore c.tree [] (sanitizeName c.path) = .ok (Vmm.newContent (Vmm.byteCapture 1) [])) ∧
    ∀ s ∈ f.servers, runRestore f.tree [] (s.vm.loadName "/a/x") =
      .ok (Vmm.newContent (Vmm.byteCapture 2) []) :=
  exists_run (by decide +kernel)

end Fleet

end Ignition.FcApi
