import Mathlib.Algebra.Group.Nat.Defs
import Ignition.Base.AssocMap

/-!
# The REST server

`ignition-fc-api` (`crates/fc-api`): a server that holds the configuration of one virtual machine,
spawns a `boot` child for it and passes commands on to the child's control socket. `handle` is the
router of `api.rs` with the handlers inlined as in the source; every request is handled under one
lock, so a run of the server is a sequence of requests.

How the source is mirrored:

- A body is deserialized by serde (`Serde`), which gives a value of the type asked for or nothing.
- Children are numbered in the order in which they are spawned; `spawned` has their arguments.
  Overwriting the handle of a child drops it, and dropping does not kill.
- How the host treats a request is an `Outcome`: whether the spawn succeeds, whether the control
  socket answers in time, what becomes of a control line. A line that gets through is answered by
  `dispatch_control` of `boot.rs`.
- A control line is put together without escaping. The names in it are sanitized and have nothing to
  escape (`sanitizeName_plain`), so it is taken to be read as what it was made from.
-/

namespace Ignition.FcApi

/-! ## Bodies -/

structure MachineConfig where
  vcpuCount : Nat
  memSizeMib : Nat
  trackDirtyPages : Bool
  deriving DecidableEq

structure BootSource where
  kernelImagePath : String
  bootArgs : Option String
  deriving DecidableEq

structure Drive where
  pathOnHost : String
  isRootDevice : Bool
  deriving DecidableEq

structure SnapshotLoad where
  snapshotPath : String
  resumeVm : Bool
  deriving DecidableEq

/-- `serde_json::from_slice` at the types of the bodies. Of a network interface only its presence is
used, and of the other bodies the one field that is. -/
structure Serde (β : Type) where
  machineConfig : β → Option MachineConfig
  bootSource : β → Option BootSource
  drive : β → Option Drive
  networkInterface : β → Option Unit
  actionType : β → Option String
  vmUpdate : β → Option String
  snapshotCreate : β → Option String
  snapshotLoad : β → Option SnapshotLoad
  word : ∀ b m, machineConfig b = some m → m.vcpuCount < 2 ^ 64 ∧ m.memSizeMib < 2 ^ 64

/-! ## The configuration -/

structure VmConfig where
  vcpuCount : Option Nat
  memSizeMib : Option Nat
  trackDirtyPages : Bool
  kernelImagePath : Option String
  bootArgs : Option String
  rootDrivePath : Option String
  hasRoot : Bool
  net : Bool
  deriving DecidableEq

namespace VmConfig

def default : VmConfig := ⟨none, none, false, none, none, none, false, false⟩

def setMachine (c : VmConfig) (m : MachineConfig) : VmConfig :=
  { c with
    vcpuCount := some m.vcpuCount
    memSizeMib := some m.memSizeMib
    trackDirtyPages := m.trackDirtyPages }

def setBootSource (c : VmConfig) (b : BootSource) : VmConfig :=
  { c with kernelImagePath := some b.kernelImagePath, bootArgs := b.bootArgs }

def setDrive (c : VmConfig) (d : Drive) : Except String VmConfig :=
  if d.isRootDevice then
    if c.hasRoot then .error "only one root device is supported"
    else .ok { c with hasRoot := true, rootDrivePath := some d.pathOnHost }
  else .ok c

def setNet (c : VmConfig) (_ : Unit) : VmConfig := { c with net := true }

def flag (name : String) : Option String → List String
  | none => []
  | some v => [name, v]

def switch (name : String) (on : Bool) : List String := if on then [name] else []

def toBootFlags (c : VmConfig) : Except String (List String) :=
  match c.kernelImagePath with
  | none => .error "no boot-source configured"
  | some kernel =>
    match c.rootDrivePath with
    | none => .error "no root drive configured"
    | some rootfs =>
      .ok (flag "--smp" (c.vcpuCount.map toString) ++ (flag "--mem" (c.memSizeMib.map toString) ++
        (switch "--track-dirty" c.trackDirtyPages ++ (flag "--append" c.bootArgs ++
          (switch "--net" c.net ++ [kernel, rootfs])))))

end VmConfig

/-! ## The state -/

inductive State where
  | notStarted
  | running
  | paused
  | stopped
  deriving DecidableEq

def State.asStr : State → String
  | .notStarted => "Not started"
  | .running => "Running"
  | .paused => "Paused"
  | .stopped => "Stopped"

structure Settings where
  store : String
  controlSock : String
  kernelDefault : String

structure VmState where
  state : State
  config : VmConfig
  child : Option Nat
  paths : AssocMap String String
  settings : Settings

def sanitizeName (snapshotPath : String) : String :=
  let base := (snapshotPath.toList.reverse.takeWhile (· ≠ '/')).reverse
  let stem := base.takeWhile (· ≠ '.')
  let s := stem.map fun c => if c.isAlphanum || c = '_' || c = '-' then c else '_'
  if s = [] then "snapshot" else String.ofList s

def IsPlain (c : Char) : Prop := c.isAlphanum ∨ c = '_' ∨ c = '-'

theorem sanitizeName_ne_empty (p : String) : (sanitizeName p).toList ≠ [] := by
  unfold sanitizeName
  dsimp only
  split
  · decide
  next hne =>
    rw [String.toList_ofList]
    exact hne

theorem sanitizeName_plain (p : String) {c : Char} (hc : c ∈ (sanitizeName p).toList) :
    IsPlain c := by
  unfold sanitizeName at hc
  dsimp only at hc
  split at hc
  · have hall : "snapshot".toList.all Char.isAlphanum = true := by decide
    exact .inl (List.all_eq_true.mp hall c hc)
  rw [String.toList_ofList] at hc
  obtain ⟨d, _, rfl⟩ := List.mem_map.mp hc
  split
  next hd =>
    rcases Bool.or_eq_true_iff.mp hd with hd | hd
    · rcases Bool.or_eq_true_iff.mp hd with hd | hd
      · exact .inl hd
      · exact .inr (.inl (of_decide_eq_true hd))
    · exact .inr (.inr (of_decide_eq_true hd))
  · exact .inr (.inl rfl)

namespace VmState

def new (settings : Settings) : VmState := ⟨.notStarted, .default, none, ∅, settings⟩

def ensureNotStarted (vm : VmState) : Except String Unit :=
  if vm.state = .notStarted then .ok () else .error "operation not allowed post-boot"

def vmUpdate (vm : VmState) (target : String) : Except String State :=
  if vm.state = .running ∧ target = "Paused" then .ok .paused
  else if vm.state = .paused ∧ target = "Resumed" then .ok .running
  else if vm.state = .paused ∧ target = "Paused" then .error "vm already paused"
  else if vm.state = .running ∧ target = "Resumed" then .error "vm already running"
  else .error ("cannot set state " ++ target ++ " from " ++ vm.state.asStr)

def ensurePausedForSnapshot (vm : VmState) : Except String Unit :=
  if vm.state = .paused then .ok () else .error "vm must be paused before snapshotting"

def loadName (vm : VmState) (path : String) : String :=
  (vm.paths.lookup path).getD (sanitizeName path)

end VmState

/-! ## The control socket -/

structure ControlLine where
  action : String
  name : Option String

/-- `dispatch_control` of `boot.rs`; `taken` is what a request for a snapshot comes to. -/
def dispatchControl (taken : Bool) (line : ControlLine) : String :=
  if line.action = "snapshot" then
    if taken then "\x7b\"ok\":true\x7d"
    else "\x7b\"ok\":false,\"error\":\"snapshot failed (capture/write error, no handler, or " ++
      "rendezvous busy)\"\x7d"
  else if line.action = "checkpoint" then "\x7b\"ok\":true\x7d"
  else if line.action = "reset" then "\x7b\"ok\":true\x7d"
  else "\x7b\"ok\":false,\"error\":\"unknown action: Some(\"" ++ line.action ++ "\")\"\x7d"

/-- The first text occurs in the second. -/
def occursIn (p : List Char) : List Char → Bool
  | [] => p.isEmpty
  | c :: cs => p.isPrefixOf (c :: cs) || occursIn p cs

/-- What becomes of a control line. -/
inductive Wire where
  | connect (e : String)
  | write (e : String)
  | read (e : String)
  | closed
  | answered (taken : Bool)

/-- `control`, with the answer trimmed. -/
def control (w : Wire) (action : String) (name : Option String) : Except String Unit :=
  match w with
  | .connect e => .error ("control connect: " ++ e)
  | .write e => .error ("control write: " ++ e)
  | .read e => .error ("control read: " ++ e)
  | .closed => .error "control error: "
  | .answered taken =>
    let resp := dispatchControl taken ⟨action, name⟩
    if occursIn "\"ok\":true".toList resp.toList then .ok () else .error ("control error: " ++ resp)

/-! ## Requests -/

structure Outcome where
  spawn : Option String
  ready : Bool
  wire : Wire

inductive Method where
  | get
  | put
  | patch
  | other
  deriving DecidableEq

structure Request (β : Type) where
  method : Method
  path : String
  body : β

structure InstanceInfo where
  id : String
  state : String
  vmmVersion : String
  appName : String
  deriving DecidableEq

inductive Response where
  | info (i : InstanceInfo)
  | machine (vcpuCount memSizeMib : Option Nat) (trackDirtyPages : Bool)
  | empty (status : Nat)
  | fault (message : String)
  deriving DecidableEq

def NO_CONTENT : Nat := 204
def NOT_FOUND : Nat := 404
def METHOD_NOT_ALLOWED : Nat := 405

structure Server where
  vm : VmState
  spawned : List (List String)
  killed : List Nat
  dropped : List Nat

namespace Server

variable {β : Type}

def new (settings : Settings) : Server := ⟨.new settings, [], [], []⟩

def withConfig (s : Server) (c : VmConfig) : Server := { s with vm := { s.vm with config := c } }

def withState (s : Server) (st : State) : Server := { s with vm := { s.vm with state := st } }

def argv (settings : Settings) (extra : List String) : List String :=
  ["--control-sock", settings.controlSock, "--store", settings.store] ++ extra

def spawnBoot (s : Server) (extra : List String) (o : Outcome) : Except String Unit × Server :=
  match o.spawn with
  | some e => (.error ("spawn boot: " ++ e), s)
  | none =>
    let child := s.spawned.length
    let s := { s with
      vm := { s.vm with child := some child }
      spawned := s.spawned ++ [argv s.vm.settings extra]
      dropped := s.vm.child.toList ++ s.dropped }
    if o.ready then (.ok (), s)
    else
      -- a child that does not become ready is taken back and killed
      (.error "vm did not become ready",
        { s with vm := { s.vm with child := none }, killed := child :: s.killed })

/-- `cfg_put!` -/
def cfgPut {α : Type} (s : Server) (parsed : Option α) (set : VmConfig → α → VmConfig) :
    Server × Response :=
  match s.vm.ensureNotStarted with
  | .error m => (s, .fault m)
  | .ok () =>
    match parsed with
    | none => (s, .fault "failed to parse body")
    | some v => (s.withConfig (set s.vm.config v), .empty NO_CONTENT)

/-- `PUT /drives/…` -/
def putDrive (s : Server) (parsed : Option Drive) : Server × Response :=
  match s.vm.ensureNotStarted with
  | .error m => (s, .fault m)
  | .ok () =>
    match parsed with
    | none => (s, .fault "failed to parse body")
    | some d =>
      match s.vm.config.setDrive d with
      | .error m => (s, .fault m)
      | .ok c => (s.withConfig c, .empty NO_CONTENT)

/-- `PUT /actions` -/
def putAction (s : Server) (parsed : Option String) (o : Outcome) : Server × Response :=
  match parsed with
  | none => (s, .fault "failed to parse body")
  | some actionType =>
    if actionType = "InstanceStart" then
      if s.vm.state ≠ .notStarted then (s, .fault "vm already started")
      else
        match s.vm.config.toBootFlags with
        | .error m => (s, .fault m)
        | .ok flags =>
          match s.spawnBoot flags o with
          | (.ok (), s) => (s.withState .running, .empty NO_CONTENT)
          | (.error m, s) => (s, .fault m)
    else (s, .fault ("unsupported action_type: " ++ actionType))

/-- `PATCH /vm` -/
def patchVm (s : Server) (parsed : Option String) : Server × Response :=
  match parsed with
  | none => (s, .fault "failed to parse body")
  | some target =>
    match s.vm.vmUpdate target with
    | .ok st => (s.withState st, .empty NO_CONTENT)
    | .error m => (s, .fault m)

/-- `PUT /snapshot/create` -/
def snapshotCreate (s : Server) (parsed : Option String) (o : Outcome) : Server × Response :=
  match s.vm.ensurePausedForSnapshot with
  | .error m => (s, .fault m)
  | .ok () =>
    match parsed with
    | none => (s, .fault "failed to parse body")
    | some path =>
      let name := sanitizeName path
      match control o.wire "snapshot" (some name) with
      | .error m => (s, .fault m)
      | .ok () =>
        ({ s with vm := { s.vm with paths := s.vm.paths.insert path name } }, .empty NO_CONTENT)

/-- `PUT /snapshot/load` -/
def snapshotLoad (s : Server) (parsed : Option SnapshotLoad) (o : Outcome) : Server × Response :=
  if s.vm.state ≠ .notStarted then (s, .fault "cannot load after boot")
  else
    match parsed with
    | none => (s, .fault "failed to parse body")
    | some l =>
      let name := s.vm.loadName l.snapshotPath
      let kernel := s.vm.config.kernelImagePath.getD s.vm.settings.kernelDefault
      let flags := ["--restore", name, kernel] ++ s.vm.config.rootDrivePath.toList
      match s.spawnBoot flags o with
      | (.error m, s) => (s, .fault m)
      | (.ok (), s) =>
        if l.resumeVm then (s.withState .running, .empty NO_CONTENT)
        else
          match control o.wire "pause" none with
          | .error m => (s, .fault m)
          | .ok () => (s.withState .paused, .empty NO_CONTENT)

def handle (serde : Serde β) (s : Server) (req : Request β) (o : Outcome) : Server × Response :=
  match req.method with
  | .get =>
    if req.path = "/" then
      (s, .info ⟨"ignition", s.vm.state.asStr, "0.1.0", "ignition-fc-api"⟩)
    else if req.path = "/machine-config" then
      (s, .machine s.vm.config.vcpuCount s.vm.config.memSizeMib s.vm.config.trackDirtyPages)
    else (s, .empty NOT_FOUND)
  | .put =>
    if req.path = "/machine-config" then
      s.cfgPut (serde.machineConfig req.body) VmConfig.setMachine
    else if req.path = "/boot-source" then
      s.cfgPut (serde.bootSource req.body) VmConfig.setBootSource
    else if "/drives/".toList.isPrefixOf req.path.toList then s.putDrive (serde.drive req.body)
    else if "/network-interfaces/".toList.isPrefixOf req.path.toList then
      s.cfgPut (serde.networkInterface req.body) VmConfig.setNet
    else if req.path = "/actions" then s.putAction (serde.actionType req.body) o
    else if req.path = "/snapshot/create" then
      s.snapshotCreate (serde.snapshotCreate req.body) o
    else if req.path = "/snapshot/load" then s.snapshotLoad (serde.snapshotLoad req.body) o
    else (s, .empty NOT_FOUND)
  | .patch =>
    if req.path = "/vm" then s.patchVm (serde.vmUpdate req.body) else (s, .empty NOT_FOUND)
  | .other => (s, .empty METHOD_NOT_ALLOWED)

/-- A request and how the host treats it. -/
abbrev Event (β : Type) := Request β × Outcome

def step (serde : Serde β) (s : Server) (e : Event β) : Option Server :=
  some (s.handle serde e.1 e.2).1

/-! ## What a request leaves alone -/

/-- The configuration and the names of snapshots are as before. -/
structure Kept (s s' : Server) : Prop where
  config : s'.vm.config = s.vm.config
  paths : s'.vm.paths = s.vm.paths

section Kept

variable {s : Server}

theorem Kept.refl (s : Server) : Kept s s := ⟨rfl, rfl⟩

theorem spawnBoot_kept (extra : List String) (o : Outcome) : Kept s (s.spawnBoot extra o).2 := by
  unfold spawnBoot
  split
  · exact .refl s
  · split <;> exact ⟨rfl, rfl⟩

theorem putAction_kept (parsed : Option String) (o : Outcome) :
    Kept s (s.putAction parsed o).1 := by
  unfold putAction
  split
  · exact .refl s
  split
  · split
    · exact .refl s
    split
    · exact .refl s
    rename_i flags _
    have hk := spawnBoot_kept (s := s) flags o
    split
    next hs =>
      rw [hs] at hk
      exact ⟨hk.config, hk.paths⟩
    next hs =>
      rw [hs] at hk
      exact hk
  · exact .refl s

theorem patchVm_kept (parsed : Option String) : Kept s (s.patchVm parsed).1 := by
  unfold patchVm
  split
  · exact .refl s
  split
  · exact ⟨rfl, rfl⟩
  · exact .refl s

theorem snapshotLoad_kept (parsed : Option SnapshotLoad) (o : Outcome) :
    Kept s (s.snapshotLoad parsed o).1 := by
  unfold snapshotLoad
  split
  · exact .refl s
  split
  · exact .refl s
  dsimp only
  split
  next hs =>
    have hk := hs ▸ spawnBoot_kept (s := s) _ o
    exact hk
  rename_i hs
  have hk := hs ▸ spawnBoot_kept (s := s) _ o
  split
  · exact ⟨hk.config, hk.paths⟩
  split
  · exact hk
  · exact ⟨hk.config, hk.paths⟩

theorem snapshotCreate_cases (parsed : Option String) (o : Outcome) :
    ((s.snapshotCreate parsed o).1 = s ∧ (s.snapshotCreate parsed o).2 ≠ .empty NO_CONTENT) ∨
      ∃ path, parsed = some path ∧ control o.wire "snapshot" (some (sanitizeName path)) = .ok () ∧
        s.snapshotCreate parsed o =
          ({ s with vm := { s.vm with paths := s.vm.paths.insert path (sanitizeName path) } },
            .empty NO_CONTENT) := by
  unfold snapshotCreate
  split
  · exact .inl ⟨rfl, Response.noConfusion⟩
  split
  · exact .inl ⟨rfl, Response.noConfusion⟩
  rename_i path
  dsimp only
  split
  · exact .inl ⟨rfl, Response.noConfusion⟩
  next hc => exact .inr ⟨path, rfl, hc, rfl⟩

end Kept

end Server

end Ignition.FcApi
