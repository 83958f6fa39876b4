import Ignition.Boot.Args
import Ignition.FcApi.VmRuns

/-!
# From the REST configuration to `boot`

What a client asks for (`Intent`) reaches `boot` as a list of arguments: the server keeps it in a
`VmConfig`, `to_boot_flags` writes that out as flags, and `boot` reads the flags back with a parser
of its own. The server asks for less than the parser: any number is accepted for the number of vCPUs
and for the size of the memory, any text for the paths of the kernel and of the root drive. The
round trip is exact for the configurations of `Intent.Bootable`, and for these only
(`launch_recovers_iff`).
-/

namespace Ignition.FcApi

open List Option

open Boot (Args Quit MAX_VCPUS)
open Runs

/-- What a client has asked for: the last machine configuration and boot source, the root drive, and
whether there is a network interface. -/
structure Intent where
  machine : Option MachineConfig
  boot : Option BootSource
  root : Option String
  net : Bool
  deriving DecidableEq

namespace Intent

variable {β : Type}

def none : Intent := ⟨.none, .none, .none, false⟩

def note (i : Intent) (serde : Serde β) (req : Request β) : Intent :=
  if req.method ≠ .put then i
  else if req.path = "/machine-config" then { i with machine := serde.machineConfig req.body }
  else if req.path = "/boot-source" then { i with boot := serde.bootSource req.body }
  else if "/drives/".toList.isPrefixOf req.path.toList then
    match serde.drive req.body with
    | some d => if d.isRootDevice then { i with root := some d.pathOnHost } else i
    | .none => i
  else if "/network-interfaces/".toList.isPrefixOf req.path.toList then { i with net := true }
  else i

/-- `boot` has understood what was asked for. -/
structure Recovered (i : Intent) (a : Args) : Prop where
  smp : a.smp = (i.machine.map (·.vcpuCount)).getD 1
  mem : a.memMib = i.machine.map (·.memSizeMib)
  trackDirty : a.trackDirty = (i.machine.map (·.trackDirtyPages)).getD false
  append : a.append = i.boot.bind (·.bootArgs)
  net : a.net = i.net
  fresh : ∃ b ∈ i.boot, ∃ rootfs ∈ i.root, ∀ program,
    a.mode program = .ok (.fresh b.kernelImagePath (some rootfs))

/-- The ranges and the form that the parser of `boot` asks for. -/
structure Bootable (i : Intent) : Prop where
  vcpus : ∀ m ∈ i.machine, 1 ≤ m.vcpuCount ∧ m.vcpuCount ≤ MAX_VCPUS
  mem : ∀ m ∈ i.machine, 1 ≤ m.memSizeMib ∧ m.memSizeMib ≤ 65536
  kernel : ∀ b ∈ i.boot, ¬ Args.Dashed b.kernelImagePath
  root : ∀ rootfs ∈ i.root, ¬ Args.Dashed rootfs

def config (i : Intent) : VmConfig where
  vcpuCount := i.machine.map (·.vcpuCount)
  memSizeMib := i.machine.map (·.memSizeMib)
  trackDirtyPages := (i.machine.map (·.trackDirtyPages)).getD false
  kernelImagePath := i.boot.map (·.kernelImagePath)
  bootArgs := i.boot.bind (·.bootArgs)
  rootDrivePath := i.root
  hasRoot := i.root.isSome
  net := i.net

/-- The numbers asked for are `u64`s. -/
def Word (i : Intent) : Prop := ∀ m ∈ i.machine, m.vcpuCount < 2 ^ 64 ∧ m.memSizeMib < 2 ^ 64

end Intent

/-! ## The flags -/

section Flags

open VmConfig (flag switch)

variable {a b : Args} {rest : List String}

theorem parse_smp_iff {n : Option Nat} (hn : ∀ m ∈ n, m < 2 ^ 64) (ha : a.smp = 1) :
    a.parse (flag "--smp" (n.map toString) ++ rest) = .ok b ↔
      (∀ m ∈ n, 1 ≤ m ∧ m ≤ MAX_VCPUS) ∧ Args.parse { a with smp := n.getD 1 } rest = .ok b := by
  cases n with
  | none =>
    have hsame : ({ a with smp := 1 } : Args) = a := by rw [← ha]
    show a.parse rest = .ok b ↔ _ ∧ Args.parse { a with smp := 1 } rest = .ok b
    rw [hsame]
    exact ⟨fun h => ⟨fun m hm => (by cases hm), h⟩, And.right⟩
  | some n =>
    refine (Args.parse_ranged_iff rfl rfl (hn n rfl)).trans (and_congr_left' ?_)
    exact ⟨fun h m hm => some.inj hm ▸ h, fun h => h n rfl⟩

theorem parse_mem_iff {n : Option Nat} (hn : ∀ m ∈ n, m < 2 ^ 64) (ha : a.memMib = none) :
    a.parse (flag "--mem" (n.map toString) ++ rest) = .ok b ↔
      (∀ m ∈ n, 1 ≤ m ∧ m ≤ 65536) ∧ Args.parse { a with memMib := n } rest = .ok b := by
  cases n with
  | none =>
    have hsame : ({ a with memMib := none } : Args) = a := by rw [← ha]
    rw [hsame]
    exact ⟨fun h => ⟨fun m hm => (by cases hm), h⟩, And.right⟩
  | some n =>
    refine (Args.parse_ranged_iff rfl rfl (hn n rfl)).trans (and_congr_left' ?_)
    exact ⟨fun h m hm => some.inj hm ▸ h, fun h => h n rfl⟩

theorem parse_trackDirty {on : Bool} (ha : a.trackDirty = false) :
    a.parse (switch "--track-dirty" on ++ rest) = Args.parse { a with trackDirty := on } rest := by
  cases on with
  | false =>
    have hsame : ({ a with trackDirty := false } : Args) = a := by rw [← ha]
    rw [hsame]
    rfl
  | true => exact Args.parse_switch rfl

theorem parse_append {text : Option String} (ha : a.append = none) :
    a.parse (flag "--append" text ++ rest) = Args.parse { a with append := text } rest := by
  cases text with
  | none =>
    have hsame : ({ a with append := none } : Args) = a := by rw [← ha]
    rw [hsame]
    rfl
  | some text => exact Args.parse_valued rfl rfl rfl

theorem parse_net {on : Bool} (ha : a.net = false) :
    a.parse (switch "--net" on ++ rest) = Args.parse { a with net := on } rest := by
  cases on with
  | false =>
    have hsame : ({ a with net := false } : Args) = a := by rw [← ha]
    rw [hsame]
    rfl
  | true => exact Args.parse_switch rfl

end Flags

/-- What `boot` reads from the arguments up to the kernel. -/
def Intent.flagged (i : Intent) (settings : Settings) : Args :=
  { Args.initial with
    controlSock := some settings.controlSock
    store := settings.store
    smp := (i.machine.map (·.vcpuCount)).getD 1
    memMib := i.machine.map (·.memSizeMib)
    trackDirty := (i.machine.map (·.trackDirtyPages)).getD false
    append := i.boot.bind (·.bootArgs)
    net := i.net }

theorem parse_argv_iff {i : Intent} (hw : i.Word) {kernel rootfs : String} {flags : List String}
    {settings : Settings} {b : Args}
    (hk : i.config.kernelImagePath = some kernel) (hr : i.config.rootDrivePath = some rootfs)
    (hflags : i.config.toBootFlags = .ok flags) :
    Args.initial.parse (Server.argv settings flags) = .ok b ↔
      (∀ m ∈ i.machine, 1 ≤ m.vcpuCount ∧ m.vcpuCount ≤ MAX_VCPUS) ∧
      (∀ m ∈ i.machine, 1 ≤ m.memSizeMib ∧ m.memSizeMib ≤ 65536) ∧
        (i.flagged settings).parse [kernel, rootfs] = .ok b := by
  unfold VmConfig.toBootFlags at hflags
  rw [hk, hr] at hflags
  obtain rfl := Except.ok.inj hflags
  have hvcpus : ∀ n ∈ i.config.vcpuCount, n < 2 ^ 64 := by
    intro n hn
    obtain ⟨m, hm, rfl⟩ := map_eq_some_iff.mp hn
    exact (hw m hm).1
  have hmem : ∀ n ∈ i.config.memSizeMib, n < 2 ^ 64 := by
    intro n hn
    obtain ⟨m, hm, rfl⟩ := map_eq_some_iff.mp hn
    exact (hw m hm).2
  -- the arguments are read from left to right
  let started : Args := { Args.initial with
    controlSock := some settings.controlSock, store := settings.store }
  have hstart : ∀ rest, Args.initial.parse (Server.argv settings rest) = started.parse rest :=
    fun rest => (Args.parse_valued rfl rfl rfl).trans (Args.parse_valued rfl rfl rfl)
  let counted : Args := { started with smp := i.config.vcpuCount.getD 1 }
  let sized : Args := { counted with memMib := i.config.memSizeMib }
  let tracked : Args := { sized with trackDirty := i.config.trackDirtyPages }
  let worded : Args := { tracked with append := i.config.bootArgs }
  have htail : ∀ rest, sized.parse (VmConfig.switch "--track-dirty" i.config.trackDirtyPages ++
      (VmConfig.flag "--append" i.config.bootArgs ++
        (VmConfig.switch "--net" i.config.net ++ rest))) = (i.flagged settings).parse rest :=
    fun rest => (parse_trackDirty (a := sized) rfl).trans
      ((parse_append (a := tracked) rfl).trans (parse_net (a := worded) rfl))
  rw [hstart]
  refine (parse_smp_iff (a := started) hvcpus rfl).trans
    (and_congr forall_mem_map ?_)
  refine (parse_mem_iff (a := counted) hmem rfl).trans (and_congr forall_mem_map ?_)
  rw [← htail]

theorem mem_of_mode_fresh {a : Args} {program kernel rootfs : String}
    (h : a.mode program = .ok (.fresh kernel (some rootfs))) :
    kernel ∈ a.positionals ∧ rootfs ∈ a.positionals := by
  unfold Args.mode at h
  split at h
  · repeat' split at h
    all_goals cases h
  split at h
  · cases h
  split at h
  · cases h
  rename_i k more hp
  rw [Except.ok.injEq, Args.Mode.fresh.injEq] at h
  rw [hp]
  exact ⟨h.1 ▸ mem_cons_self,
    mem_cons_of_mem _ (mem_of_mem_head? h.2)⟩

theorem recovered_iff {i : Intent} (hw : i.Word) {flags : List String} {settings : Settings}
    (hflags : i.config.toBootFlags = .ok flags) :
    (∃ a, Args.initial.parse (Server.argv settings flags) = .ok a ∧ i.Recovered a) ↔
      i.Bootable := by
  obtain ⟨b, hb, rootfs, hr⟩ : ∃ b, i.boot = some b ∧ ∃ rootfs, i.root = some rootfs := by
    unfold VmConfig.toBootFlags at hflags
    split at hflags
    · cases hflags
    rename_i kernel hk
    obtain ⟨b, hb, _⟩ := map_eq_some_iff.mp hk
    split at hflags
    · cases hflags
    next rootfs hr => exact ⟨b, hb, rootfs, hr⟩
  have hk : i.config.kernelImagePath = some b.kernelImagePath :=
    map_eq_some_iff.mpr ⟨b, hb, rfl⟩
  constructor
  · rintro ⟨a, hparse, hrec⟩
    obtain ⟨hvcpus, hmem, -⟩ := (parse_argv_iff hw hk hr hflags).mp hparse
    have hpos : ∀ p ∈ a.positionals, ¬ Args.Dashed p := fun p hp =>
      (Args.parse_positionals hparse p hp).resolve_left not_mem_nil
    obtain ⟨b', hb', rootfs', hr', hfresh⟩ := hrec.fresh
    obtain ⟨hkernel, hroot⟩ := mem_of_mode_fresh (hfresh "boot")
    refine ⟨hvcpus, hmem, fun c hc => ?_, fun r hr => ?_⟩
    · obtain rfl := mem_unique hb' hc
      exact hpos _ hkernel
    · obtain rfl := mem_unique hr' hr
      exact hpos _ hroot
  · intro hboot
    refine ⟨{ i.flagged settings with positionals := [b.kernelImagePath, rootfs] },
      (parse_argv_iff hw hk hr hflags).mpr ⟨hboot.vcpus, hboot.mem, ?_⟩, ?_⟩
    · rw [Args.parse_undashed (hboot.kernel b hb), Args.parse_undashed (hboot.root rootfs hr)]
      rfl
    · exact ⟨rfl, rfl, rfl, rfl, rfl, b, hb, rootfs, hr, fun _ => rfl⟩

/-! ## The requests -/

namespace Server

variable {β : Type} {s : Server}

def Answered (i i' : Intent) (r : Server × Response) : Prop :=
  r.1.vm.config = (if r.2 = .empty NO_CONTENT then i' else i).config

theorem Answered.same {i : Intent} {r : Server × Response} (h : r.1.vm.config = i.config) :
    Answered i i r := by
  unfold Answered
  rw [ite_self]
  exact h

theorem cfgPut_answered {α : Type} {parsed : Option α} {set : VmConfig → α → VmConfig}
    {i i' : Intent} (hi : s.vm.config = i.config)
    (hset : ∀ v, parsed = some v → set i.config v = i'.config) :
    Answered i i' (s.cfgPut parsed set) := by
  unfold cfgPut
  split
  · exact hi
  split
  · exact hi
  rename_i v
  show set s.vm.config v = i'.config
  rw [hi]
  exact hset v rfl

theorem putDrive_answered {parsed : Option Drive} {i i' : Intent} (hi : s.vm.config = i.config)
    (hset : ∀ d, parsed = some d → ∀ c, i.config.setDrive d = .ok c → c = i'.config) :
    Answered i i' (s.putDrive parsed) := by
  unfold putDrive
  split
  · exact hi
  split
  · exact hi
  rename_i d
  split
  · exact hi
  next c hc =>
    rw [hi] at hc
    exact hset d rfl c hc

theorem handle_answered {serde : Serde β} {i : Intent} (hi : s.vm.config = i.config)
    (req : Request β) (o : Outcome) :
    Answered i (i.note serde req) (s.handle serde req o) := by
  obtain ⟨method, path, body⟩ := req
  cases method with
  | get =>
    refine .same ?_
    unfold handle
    dsimp only
    repeat' split
    all_goals exact hi
  | patch =>
    refine .same ?_
    unfold handle
    dsimp only
    split
    · exact (patchVm_kept _).config.trans hi
    · exact hi
  | other => exact .same hi
  | put =>
    unfold handle Intent.note
    rw [if_neg (not_not.mpr rfl)]
    dsimp only
    by_cases hmachine : path = "/machine-config"
    · rw [if_pos hmachine, if_pos hmachine]
      refine cfgPut_answered hi fun m hm => ?_
      rw [hm]
      rfl
    rw [if_neg hmachine, if_neg hmachine]
    by_cases hboot : path = "/boot-source"
    · rw [if_pos hboot, if_pos hboot]
      refine cfgPut_answered hi fun b hb => ?_
      rw [hb]
      rfl
    rw [if_neg hboot, if_neg hboot]
    by_cases hdrive : "/drives/".toList.isPrefixOf path.toList = true
    · rw [if_pos hdrive, if_pos hdrive]
      refine putDrive_answered hi fun d hd c hc => ?_
      rw [hd]
      unfold VmConfig.setDrive at hc
      dsimp only
      by_cases hroot : d.isRootDevice = true
      · rw [if_pos hroot] at hc ⊢
        split at hc
        · cases hc
        · exact (Except.ok.inj hc).symm
      · rw [if_neg hroot] at hc ⊢
        exact (Except.ok.inj hc).symm
    rw [if_neg hdrive, if_neg hdrive]
    by_cases hnet : "/network-interfaces/".toList.isPrefixOf path.toList = true
    · rw [if_pos hnet, if_pos hnet]
      exact cfgPut_answered hi fun _ _ => rfl
    rw [if_neg hnet, if_neg hnet]
    refine .same (Eq.trans ?_ hi)
    split
    · exact (putAction_kept _ _).config
    split
    · rcases snapshotCreate_cases (s := s) (serde.snapshotCreate body) o with
        ⟨hsame, -⟩ | ⟨path, -, -, htaken⟩
      · rw [hsame]
      · rw [htaken]
    · split
      · exact (snapshotLoad_kept _ _).config
      · rfl

theorem handle_actions (serde : Serde β) (body : β) (o : Outcome) :
    s.handle serde ⟨.put, "/actions", body⟩ o = s.putAction (serde.actionType body) o := by
  have hdrives : ¬ "/drives/".toList.isPrefixOf "/actions".toList = true := by decide
  have hnet : ¬ "/network-interfaces/".toList.isPrefixOf "/actions".toList = true := by decide
  unfold handle
  dsimp only
  rw [if_neg (by decide), if_neg (by decide), if_neg hdrives, if_neg hnet, if_pos rfl]

theorem putAction_spawned {parsed : Option String} {o : Outcome} {args : List String}
    (h : (s.putAction parsed o).1.spawned = s.spawned ++ [args]) :
    ∃ flags, s.vm.config.toBootFlags = .ok flags ∧ args = argv s.vm.settings flags := by
  have hstay : s.spawned ≠ s.spawned ++ [args] := fun heq =>
    absurd (append_right_eq_self.mp heq.symm) (cons_ne_nil _ _)
  unfold putAction at h
  split at h
  · exact absurd h hstay
  split at h
  · split at h
    · exact absurd h hstay
    split at h
    · exact absurd h hstay
    rename_i flags hflags
    refine ⟨flags, hflags, ?_⟩
    have hspawned : (s.spawnBoot flags o).2.spawned = s.spawned ++ [args] := by
      split at h
      next hs =>
        rw [hs]
        exact h
      next hs =>
        rw [hs]
        exact h
    unfold spawnBoot at hspawned
    split at hspawned
    · exact absurd hspawned hstay
    split at hspawned <;> exact (singleton_inj.mp (append_cancel_left hspawned)).symm
  · exact absurd h hstay

end Server

/-! ## Runs -/

/-- A server with what it has been told. -/
structure Told where
  server : Server
  intent : Intent

namespace Told

variable {β : Type}

def new (settings : Settings) : Told := ⟨.new settings, .none⟩

def step (serde : Serde β) (t : Told) (e : Server.Event β) : Option Told :=
  let r := t.server.handle serde e.1 e.2
  some ⟨r.1, if r.2 = .empty NO_CONTENT then t.intent.note serde e.1 else t.intent⟩

structure Agrees (t : Told) : Prop where
  config : t.server.vm.config = t.intent.config
  word : t.intent.Word

theorem word_note {i : Intent} (hi : i.Word) (serde : Serde β) (req : Request β) :
    (i.note serde req).Word := by
  unfold Intent.note
  split
  · exact hi
  split
  · exact fun m hm => serde.word req.body m hm
  · repeat' split
    all_goals exact hi

theorem Agrees.step {serde : Serde β} {t t' : Told} {e : Server.Event β} (h : t.Agrees)
    (hs : t.step serde e = some t') : t'.Agrees := by
  cases hs
  refine ⟨Server.handle_answered h.config e.1 e.2, ?_⟩
  split
  · exact word_note h.word serde e.1
  · exact h.word

/-- **The configuration reaches `boot` intact.** After every run of requests, when `PUT /actions`
spawns `boot`, the parser of `boot` accepts the arguments and recovers what was asked for exactly if
the numbers are in the ranges of the parser and no path starts with `-`. -/
theorem launch_recovers_iff {serde : Serde β} {settings : Settings} {es : List (Server.Event β)}
    {t : Told} (h : Run (step serde) (fun _ _ => True) (.new settings) es t) {body : β}
    {o : Outcome} {args : List String}
    (hspawn : (t.server.handle serde ⟨.put, "/actions", body⟩ o).1.spawned =
      t.server.spawned ++ [args]) :
    (∃ a, Args.initial.parse args = .ok a ∧ t.intent.Recovered a) ↔ t.intent.Bootable := by
  have hstep : ∀ (t : Told) (e : Server.Event β) (t' : Told), t.Agrees → True →
      t.step serde e = some t' → t'.Agrees := fun _ _ _ ht _ hs => ht.step hs
  have hagrees := h.invariant hstep ⟨rfl, fun m hm => (by cases hm)⟩
  rw [Server.handle_actions] at hspawn
  obtain ⟨flags, hflags, rfl⟩ := Server.putAction_spawned hspawn
  rw [hagrees.config] at hflags
  exact recovered_iff hagrees.word hflags

def asked (m : MachineConfig) (kernel rootfs : String) : List (Server.Event Body) :=
  [Server.put "/machine-config" (.machineConfig m) Server.fine,
    Server.put "/boot-source" (.bootSource ⟨kernel, some "ro"⟩) Server.fine,
    Server.put "/drives/rootfs" (.drive ⟨rootfs, true⟩) Server.fine,
    Server.put "/network-interfaces/eth0" .networkInterface Server.fine]

theorem launch_recovers_iff_two : ∃ (t : Told) (a : Args),
    Run (step Body.serde) (fun _ _ => True) (.new Server.plainSettings)
      (asked ⟨2, 1024, true⟩ "/k/Image" "/r.ext4") t ∧
    t.intent.Bootable ∧ t.intent.Recovered a ∧ a.smp = 2 ∧ a.append = some "ro" := by
  let args := ["--control-sock", "store/control.sock", "--store", "store", "--smp", "2", "--mem",
    "1024", "--track-dirty", "--append", "ro", "--net", "/k/Image", "/r.ext4"]
  obtain ⟨t, hrun, hmachine, hbootSource, hroot, hspawn⟩ :
      ∃ t, Run (step Body.serde) (fun _ _ => True) (.new Server.plainSettings)
          (asked ⟨2, 1024, true⟩ "/k/Image" "/r.ext4") t ∧
        t.intent.machine = some ⟨2, 1024, true⟩ ∧ t.intent.boot = some ⟨"/k/Image", some "ro"⟩ ∧
        t.intent.root = some "/r.ext4" ∧
        (t.server.handle Body.serde ⟨.put, "/actions", .action "InstanceStart"⟩
          Server.fine).1.spawned = t.server.spawned ++ [args] := exists_run (by decide +kernel)
  have hboot : t.intent.Bootable := by
    refine ⟨fun m hm => ?_, fun m hm => ?_, fun b hb => ?_, fun r hr => ?_⟩
    · obtain rfl := mem_unique hmachine hm
      decide
    · obtain rfl := mem_unique hmachine hm
      decide
    · obtain rfl := mem_unique hbootSource hb
      decide
    · obtain rfl := mem_unique hroot hr
      decide
  obtain ⟨a, -, hrec⟩ := (launch_recovers_iff hrun hspawn).mpr hboot
  refine ⟨t, a, hrun, hboot, hrec, ?_, ?_⟩
  · rw [hrec.smp, hmachine]
    rfl
  · rw [hrec.append, hbootSource]
    rfl

def launched (m : MachineConfig) (kernel rootfs : String) : Option (Intent × Except Quit Args) :=
  (after (step Body.serde) (.new Server.plainSettings) (asked m kernel rootfs)).bind fun t =>
    let started := (t.server.handle Body.serde ⟨.put, "/actions", .action "InstanceStart"⟩
      Server.fine).1
    (started.spawned.drop t.server.spawned.length).head?.map fun args =>
      (t.intent, Args.initial.parse args)

theorem launch_refused :
    launched ⟨0, 1024, true⟩ "/k/Image" "/r.ext4" =
        some (⟨some ⟨0, 1024, true⟩, some ⟨"/k/Image", some "ro"⟩, some "/r.ext4", true⟩,
          .error (.panic "--smp must be 1..=8")) ∧
      launched ⟨2, 0, true⟩ "/k/Image" "/r.ext4" =
        some (⟨some ⟨2, 0, true⟩, some ⟨"/k/Image", some "ro"⟩, some "/r.ext4", true⟩,
          .error (.panic "--mem must be 1..=65536 MiB")) ∧
      launched ⟨2, 1024, true⟩ "-k" "/r.ext4" =
        some (⟨some ⟨2, 1024, true⟩, some ⟨"-k", some "ro"⟩, some "/r.ext4", true⟩,
          .error (.exit 2 "unknown flag: -k")) ∧
      launched ⟨2, 1024, true⟩ "/k/Image" "-r" =
        some (⟨some ⟨2, 1024, true⟩, some ⟨"/k/Image", some "ro"⟩, some "-r", true⟩,
          .error (.exit 2 "unknown flag: -r")) := by
  refine ⟨?_, ?_, ?_, ?_⟩ <;> decide +kernel

end Told

end Ignition.FcApi
