import Ignition.Base.Program
import Ignition.Hvf.Vcpu
import Ignition.Vmm.DiffPages

/-!
# Snapshot directories

`crates/vmm/src/snapshot.rs`: a snapshot is a directory `<store>/snapshots/<name>`
holding the machine state, the GIC blob, the disk image, the guest memory and a
manifest. A full snapshot's `memory.bin` is the whole RAM; a diff layer's holds only
the dirty pages, next to their indices in `dirty.idx`, and its manifest names the
parent layer.

How the source is mirrored:

- A file holds a list of `Datum`. Raw files are lists of bytes; a JSON document is a
  single datum, so a document cut short is a file that does not parse and
  `serde_json` round trips are taken for granted.
- The write functions are the lists of file operations they perform
  (`writeSnapshot`, `writeDiffSnapshot`, `writeManifest`), run by `exec`. A command
  is `must` where the source has `?` and not where it has `let _ =`. `serde_json`'s
  own serialisation does not fail.
- The directory is staged in a sibling with the extension `tmp`
  (`dir.with_extension("tmp")`) and renamed into place. Nothing checks the name: it
  goes into `Path.join` as it is.
- `SnapshotWriter.write` is the guard, the program, and the parent update.
- `resolveChain` reads manifests from the leaf to the full root with the set of names
  seen so far. The loop is bounded by the number of nodes in the tree, which no chain
  without a repetition can exceed; see `Chain`.
- The store is a location: an absolute path without `.`, `..` or links.
-/

namespace Ignition.Vmm

open Files List

/-! ## Documents -/

/-- `FdtKind` of `crates/devices/src/device.rs` -/
inductive FdtKind where
  | ns16550a
  | virtioMmio
  | pl031
  | ignitionFuzz
  deriving DecidableEq

/-- `DeviceRecord`; `state` is the device's own JSON text. -/
structure DeviceRecord where
  id : String
  base : Nat
  size : Nat
  spi : Nat
  fdtKind : FdtKind
  state : String
  deriving DecidableEq

structure VcpuCheckpoint where
  mpidr : Nat
  state : Hvf.VcpuState
  deriving DecidableEq

structure VmConfig where
  memSize : Nat
  vcpuCount : Nat
  deriving DecidableEq

def SNAP_MAGIC : String := "ignition-snapshot-v3"

def SNAP_VERSION : Nat := 3

structure VmSnapshot where
  magic : String
  version : Nat
  config : VmConfig
  vcpus : List VcpuCheckpoint
  devices : List DeviceRecord
  deriving DecidableEq

def VmSnapshot.new (config : VmConfig) (vcpus : List VcpuCheckpoint)
    (devices : List DeviceRecord) : VmSnapshot where
  magic := SNAP_MAGIC
  version := SNAP_VERSION
  config := config
  vcpus := vcpus
  devices := devices

def checkVersion (s : VmSnapshot) : Except String Unit :=
  if s.magic ≠ SNAP_MAGIC ∨ s.version ≠ SNAP_VERSION then
    .error s!"unsupported snapshot {s.magic} v{s.version} (need {SNAP_MAGIC} v{SNAP_VERSION})"
  else .ok ()

inductive SnapshotType where
  | full
  | diff
  deriving DecidableEq

structure SnapshotManifest where
  name : String
  memSize : Nat
  vcpuCount : Nat
  snapshotType : SnapshotType
  parent : Option String
  deriving DecidableEq

def SnapshotManifest.newFull (name : String) (memSize vcpuCount : Nat) : SnapshotManifest :=
  ⟨name, memSize, vcpuCount, .full, none⟩

def SnapshotManifest.newDiff (name parent : String) (memSize vcpuCount : Nat) :
    SnapshotManifest :=
  ⟨name, memSize, vcpuCount, .diff, some parent⟩

/-- What a file is made of. -/
inductive Datum where
  | byte (b : UInt8)
  | state (s : VmSnapshot)
  | manifest (m : SnapshotManifest)
  deriving DecidableEq

def raw (b : Bytes) : List Datum := b.map .byte

def Datum.toByte? : Datum → Option UInt8
  | .byte b => some b
  | _ => none

def bytesOf (f : List Datum) : Option Bytes := f.mapM Datum.toByte?

@[simp] theorem bytesOf_raw (b : Bytes) : bytesOf (raw b) = some b := by
  unfold bytesOf raw
  induction b with
  | nil => rfl
  | cons x b ih =>
    rw [map_cons, mapM_cons, ih]
    rfl

/-! ## Paths -/

def snapshotsName : Name := ⟨"snapshots", by decide⟩
def memoryBin : Name := ⟨"memory.bin", by decide⟩
def gicBin : Name := ⟨"gic.bin", by decide⟩
def diskImg : Name := ⟨"disk.img", by decide⟩
def vmstateJson : Name := ⟨"vmstate.json", by decide⟩
def manifestJson : Name := ⟨"manifest.json", by decide⟩
def dirtyIdx : Name := ⟨"dirty.idx", by decide⟩
def tmpExt : Name := ⟨"tmp", by decide⟩

structure Paths where
  memory : Path
  gic : Path
  disk : Path
  state : Path
  manifest : Path

def paths (dir : Path) : Paths where
  memory := dir.child memoryBin
  gic := dir.child gicBin
  disk := dir.child diskImg
  state := dir.child vmstateJson
  manifest := dir.child manifestJson

/-- `<store>/snapshots` -/
def snapshotsDir (store : Loc) : Loc := store ++ [snapshotsName]

/-- `base_dir`: `<store>/snapshots/<name>` -/
def baseDir (store : Loc) (name : String) : Path := (Path.ofLoc (snapshotsDir store)).join name

/-- The staging directory of a write to `dir`. -/
def stagingDir (dir : Path) : Path := dir.withExtension tmpExt

/-! For an entry name both are plain paths. -/

theorem loc_baseDir {store : Loc} {n : String} (h : IsName n) :
    (baseDir store n).loc = snapshotsDir store ++ [⟨n, h⟩] := by
  unfold baseDir
  rw [Path.join_name _ h, Path.loc_child, Path.loc_ofLoc]

theorem stagingDir_name {store : Loc} {n : String} (h : IsName n) :
    stagingDir (baseDir store n) =
      Path.ofLoc (snapshotsDir store ++ [Name.withExt ⟨n, h⟩ tmpExt]) := by
  unfold stagingDir baseDir Path.ofLoc
  rw [Path.join_name _ h]
  unfold Path.child Path.withExtension
  rw [reverse_append, reverse_singleton, singleton_append,
    dropWhile_cons_of_neg (by simp)]
  show (Comp.name _ :: (List.map Comp.name (snapshotsDir store)).reverse).reverse = _
  rw [reverse_cons, reverse_reverse, map_append]
  rfl

theorem loc_stagingDir {store : Loc} {n : String} (h : IsName n) :
    (stagingDir (baseDir store n)).loc = snapshotsDir store ++ [Name.withExt ⟨n, h⟩ tmpExt] := by
  rw [stagingDir_name h, Path.loc_ofLoc]

/-! ## Writing -/

abbrev Prog := List (Cmd Datum)

/-- `op?` -/
def must (op : Op Datum) : Cmd Datum := ⟨op, true⟩

/-- `let _ = op` -/
def ignored (op : Op Datum) : Cmd Datum := ⟨op, false⟩

def writeManifest (dir : Path) (m : SnapshotManifest) : Prog :=
  writeFile (paths dir).manifest [.manifest m]

/-- The page loop of `write_diff_pages`: a page out of bounds ends it with an error. -/
def packCmds (mem : Path) (all : List Nat) (ram : Bytes) : List Nat → Prog
  | [] => []
  | p :: ps =>
    if pageInRam ram p then must (.append mem (raw (packPage ram p))) :: packCmds mem all ram ps
    else [must (.refuse (s!"dirty page {p} out of RAM bounds ({all.length} pages of {PAGE}B, " ++
      s!"ram {ram.length}B)"))]

def writeDiffPages (dir : Path) (dirty : List Nat) (ram : Bytes) : Prog :=
  must (.create (dir.child memoryBin)) :: packCmds (dir.child memoryBin) dirty ram dirty ++
    writeChunks (dir.child dirtyIdx) (dirty.map fun p => raw (toLeBytes p))

def openStaging (tmp : Path) : Prog :=
  [ignored (.removeDirAll tmp), must (.createDirAll tmp)]

/-- Replace `dir` by the staging directory. -/
def publish (tmp dir : Path) : Prog :=
  [ignored (.removeDirAll dir), must (.rename tmp dir)]

/-- Everything `write_snapshot` puts into the staging directory. -/
def stageFull (tmp : Path) (snap : VmSnapshot) (ram gic : Bytes) (disk : Path) : Prog :=
  openStaging tmp ++ writeFile (paths tmp).memory (raw ram) ++
    writeFile (paths tmp).gic (raw gic) ++ [must (.clone disk (paths tmp).disk)] ++
    writeFile (paths tmp).state [.state snap]

/-- Everything `write_diff_snapshot` puts into the staging directory. -/
def stageDiff (tmp : Path) (snap : VmSnapshot) (dirty : List Nat) (ram gic : Bytes)
    (disk : Path) : Prog :=
  openStaging tmp ++ writeFile (paths tmp).gic (raw gic) ++
    [must (.clone disk (paths tmp).disk)] ++ writeFile (paths tmp).state [.state snap] ++
    writeDiffPages tmp dirty ram

def writeSnapshot (dir : Path) (snap : VmSnapshot) (ram gic : Bytes) (disk : Path) : Prog :=
  stageFull (stagingDir dir) snap ram gic disk ++ publish (stagingDir dir) dir

def writeDiffSnapshot (dir : Path) (snap : VmSnapshot) (dirty : List Nat) (ram gic : Bytes)
    (disk : Path) : Prog :=
  stageDiff (stagingDir dir) snap dirty ram gic disk ++ publish (stagingDir dir) dir

structure SnapshotWriter where
  store : Loc
  name : String
  parent : Option String
  restoredFrom : Option String
  force : Bool
  deriving DecidableEq

/-- What one capture hands to the writer. -/
structure Capture where
  snap : VmSnapshot
  ram : Bytes
  gic : Bytes
  disk : Path
  dirty : Option (List Nat)

namespace SnapshotWriter

def target (w : SnapshotWriter) (requestedName : Option String) : String :=
  requestedName.getD w.name

def refuses (w : SnapshotWriter) (name : String) : Bool :=
  !w.force && (w.parent == some name || w.restoredFrom == some name)

def manifest (w : SnapshotWriter) (name : String) (snap : VmSnapshot) : SnapshotManifest :=
  match w.parent with
  | some parent => .newDiff name parent snap.config.memSize snap.config.vcpuCount
  | none => .newFull name snap.config.memSize snap.config.vcpuCount

def program (w : SnapshotWriter) (name : String) (c : Capture) : Prog :=
  let dir := baseDir w.store name
  match w.parent with
  | some _ =>
    match c.dirty with
    | some pages =>
      writeDiffSnapshot dir c.snap pages c.ram c.gic c.disk ++
        writeManifest dir (w.manifest name c.snap)
    | none => [must (.refuse "dirty tracking is required for diffs")]
  | none =>
    writeSnapshot dir c.snap c.ram c.gic c.disk ++ writeManifest dir (w.manifest name c.snap)

/-- `SnapshotWriter::write`, under a script of faults. -/
def write (w : SnapshotWriter) (requestedName : Option String) (c : Capture) (sc : Script)
    (t : Files.Tree Datum) : Outcome × SnapshotWriter × Files.Tree Datum :=
  let name := w.target requestedName
  if w.refuses name then
    (.failed (.raised "refusing to overwrite source/parent snapshot; use a different name"), w, t)
  else
    let r := exec (w.program name c) sc t
    -- without tracking, every capture is a self-contained full snapshot
    (r.1, if r.1 = .done ∧ c.dirty.isSome then { w with parent := some name } else w, r.2)

end SnapshotWriter

/-! ## Reading -/

def osError : String := "os error"

def readManifest (t : Files.Tree Datum) (dir : Path) : Option SnapshotManifest :=
  match t.readFile (paths dir).manifest with
  | some [.manifest m] => some m
  | _ => none

/-- The loop of `resolve_chain`: names seen, current name, manifests read so far with
the root-most first. -/
def resolveLoop (t : Files.Tree Datum) (store : Loc) :
    Nat → List String → String → List SnapshotManifest → Except String (List SnapshotManifest)
  | 0, _, cur, _ => .error s!"snapshot chain cycle at {cur}"
  | fuel + 1, seen, cur, chain =>
    if cur ∈ seen then .error s!"snapshot chain cycle at {cur}"
    else
      match readManifest t (baseDir store cur) with
      | none => .error s!"missing layer {cur}: {osError}"
      | some m =>
        match m.parent with
        | some p => resolveLoop t store fuel (cur :: seen) p (m :: chain)
        | none => .ok (m :: chain)

/-- `resolve_chain`, root first. -/
def resolveChain (t : Files.Tree Datum) (store : Loc) (leaf : String) :
    Except String (List SnapshotManifest) :=
  resolveLoop t store (t.support.length + 2) [] leaf []

/-- `fs::read` of a raw file. -/
def readBytes (t : Files.Tree Datum) (p : Path) : Except String Bytes :=
  match (t.readFile p).bind bytesOf with
  | some b => .ok b
  | none => .error osError

def readDiffPages (t : Files.Tree Datum) (dir : Path) : Except String (List Nat × Bytes) := do
  let raw ← readBytes t (dir.child dirtyIdx)
  let packed ← readBytes t (dir.child memoryBin)
  return (readIdx raw, packed)

def readSnapshot (t : Files.Tree Datum) (dir : Path) : Except String (VmSnapshot × Bytes) :=
  match t.readFile (paths dir).state with
  | some [.state snap] => do
    checkVersion snap
    let gic ← readBytes t (paths dir).gic
    return (snap, gic)
  | _ => .error osError

/-- The overlay loop of `run_restore` over the diff layers. -/
def overlay (t : Files.Tree Datum) (store : Loc) :
    List SnapshotManifest → Bytes → Except String Bytes
  | [], ram => .ok ram
  | m :: ms, ram => do
    let (idx, packed) ← readDiffPages t (baseDir store m.name)
    let ram' ← applyDiff ram idx packed
    overlay t store ms ram'

/-- Guest RAM of a resolved chain: the root's `memory.bin` with every layer laid over it. -/
def reassemble (t : Files.Tree Datum) (store : Loc) : List SnapshotManifest → Except String Bytes
  | [] => .error osError
  | root :: layers => do
    let ram ← readBytes t (paths (baseDir store root.name)).memory
    overlay t store layers ram

end Ignition.Vmm
