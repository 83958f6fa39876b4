import Ignition.Base.Run
import Ignition.FcApi.Vm

/-!
# The state of the REST server and its child

The state is `Not started` exactly while no child is held, unless a snapshot is loaded with
`resume_vm` off: `boot` does not know the `pause` it is sent then, the request fails, and the child
stays (`load_unresumed_orphans`). Apart from such requests the two agree in every run
(`state_matches_child`).
-/

namespace Ignition.FcApi

open Runs List

namespace Server

variable {β : Type}

/-! ## What a request does -/

/-- What a request does to the child and the state, unless it loads a snapshot without resuming. -/
inductive Move (s : Server) : Server → Prop where
  | settle (config : VmConfig) (paths : AssocMap String String) :
      Move s { s with vm := { s.vm with config := config, paths := paths } }
  | update {st : State} (hst : s.vm.state ≠ .notStarted) (hst' : st ≠ .notStarted) :
      Move s (s.withState st)
  | unready (hst : s.vm.state = .notStarted) {extra : List String} {o : Outcome} {e : String}
      {s' : Server} (hs : s.spawnBoot extra o = (.error e, s')) : Move s s'
  | started (hst : s.vm.state = .notStarted) {extra : List String} {o : Outcome} {st : State}
      {s' : Server} (hst' : st ≠ .notStarted) (hs : s.spawnBoot extra o = (.ok (), s')) :
      Move s (s'.withState st)

namespace Move

variable {s : Server}

theorem stay (s : Server) : Move s s := .settle s.vm.config s.vm.paths

theorem cfgPut {α : Type} (parsed : Option α) (set : VmConfig → α → VmConfig) :
    Move s (s.cfgPut parsed set).1 := by
  unfold Server.cfgPut
  split
  · exact .stay s
  split
  · exact .stay s
  next v => exact .settle (set s.vm.config v) s.vm.paths

theorem putDrive (parsed : Option Drive) : Move s (s.putDrive parsed).1 := by
  unfold Server.putDrive
  split
  · exact .stay s
  split
  · exact .stay s
  split
  · exact .stay s
  next c _ => exact .settle c s.vm.paths

theorem putAction (parsed : Option String) (o : Outcome) : Move s (s.putAction parsed o).1 := by
  unfold Server.putAction
  split
  · exact .stay s
  split
  · split
    · exact .stay s
    rename_i hst
    split
    · exact .stay s
    split
    next hs => exact .started (not_not.mp hst) State.noConfusion hs
    next hs => exact .unready (not_not.mp hst) hs
  · exact .stay s

theorem patchVm (parsed : Option String) : Move s (s.patchVm parsed).1 := by
  unfold Server.patchVm
  split
  · exact .stay s
  rename_i target
  split
  next st hok =>
    unfold VmState.vmUpdate at hok
    split at hok
    next h =>
      cases hok
      exact .update (by rw [h.1]; exact State.noConfusion) State.noConfusion
    split at hok
    next h =>
      cases hok
      exact .update (by rw [h.1]; exact State.noConfusion) State.noConfusion
    · repeat' split at hok
      all_goals cases hok
  · exact .stay s

theorem snapshotCreate (parsed : Option String) (o : Outcome) :
    Move s (s.snapshotCreate parsed o).1 := by
  unfold Server.snapshotCreate
  split
  · exact .stay s
  split
  · exact .stay s
  rename_i path
  dsimp only
  split
  · exact .stay s
  · exact .settle s.vm.config (s.vm.paths.insert path (sanitizeName path))

theorem snapshotLoad {parsed : Option SnapshotLoad}
    (hres : ∀ l, parsed = some l → l.resumeVm = true) (o : Outcome) :
    Move s (s.snapshotLoad parsed o).1 := by
  unfold Server.snapshotLoad
  split
  · exact .stay s
  rename_i hst
  split
  · exact .stay s
  rename_i l
  dsimp only
  split
  next hs => exact .unready (not_not.mp hst) hs
  next hs =>
    rw [if_pos (hres l rfl)]
    exact .started (not_not.mp hst) State.noConfusion hs

end Move

def Resumes (serde : Serde β) (_ : Server) (e : Event β) : Prop :=
  e.1.method = .put → e.1.path = "/snapshot/load" →
    ∀ l ∈ serde.snapshotLoad e.1.body, l.resumeVm = true

theorem handle_move {serde : Serde β} {s : Server} {e : Event β} (hok : Resumes serde s e) :
    Move s (s.handle serde e.1 e.2).1 := by
  unfold handle
  split
  · repeat' split
    all_goals exact .stay s
  next hput =>
    split
    · exact .cfgPut _ _
    split
    · exact .cfgPut _ _
    split
    · exact .putDrive _
    split
    · exact .cfgPut _ _
    split
    · exact .putAction _ _
    split
    · exact .snapshotCreate _ _
    split
    next hpath => exact .snapshotLoad (fun l hl => hok hput hpath l hl) _
    · exact .stay s
  · split
    · exact .patchVm _
    · exact .stay s
  · exact .stay s

/-! ## The state and the child -/

/-- The state and the child agree, and no child is lost. -/
structure Matched (s : Server) : Prop where
  state_iff : s.vm.state = .notStarted ↔ s.vm.child = none
  none_dropped : s.dropped = []
  held : ∀ c, s.vm.child = some c ↔ c < s.spawned.length ∧ c ∉ s.killed
  dead : ∀ c ∈ s.killed, c < s.spawned.length

namespace Matched

variable {s : Server}

theorem new (settings : Settings) : (Server.new settings).Matched where
  state_iff := ⟨fun _ => rfl, fun _ => rfl⟩
  none_dropped := rfl
  held c := ⟨fun h => (by cases h), fun h => absurd h.1 (Nat.not_lt_zero c)⟩
  dead _ hc := absurd hc not_mem_nil

theorem all_dead (h : s.Matched) (hst : s.vm.state = .notStarted) {c : Nat}
    (hc : c < s.spawned.length) : c ∈ s.killed := by
  by_contra hlive
  have hheld := (h.held c).mpr ⟨hc, hlive⟩
  rw [h.state_iff.mp hst] at hheld
  cases hheld

theorem unready (h : s.Matched) (hst : s.vm.state = .notStarted) {extra : List String}
    {o : Outcome} {e : String} {s' : Server} (hs : s.spawnBoot extra o = (.error e, s')) :
    s'.Matched := by
  unfold spawnBoot at hs
  split at hs
  · cases hs
    exact h
  split at hs
  · cases hs
  cases hs
  have hnone := h.state_iff.mp hst
  refine ⟨⟨fun _ => rfl, fun _ => hst⟩, ?_, fun c => ?_, fun c hc => ?_⟩
  · show s.vm.child.toList ++ s.dropped = []
    rw [hnone, h.none_dropped]
    rfl
  · refine ⟨fun hc => (by cases hc), fun ⟨hlt, hlive⟩ => absurd ?_ hlive⟩
    rw [length_append, length_singleton, Nat.lt_succ_iff_lt_or_eq] at hlt
    rcases hlt with hlt | rfl
    · exact mem_cons_of_mem _ (h.all_dead hst hlt)
    · exact mem_cons_self
  · rw [length_append, length_singleton]
    rcases mem_cons.mp hc with rfl | hc
    · exact Nat.lt_succ_self _
    · exact Nat.lt_succ_of_lt (h.dead c hc)

theorem started (h : s.Matched) (hst : s.vm.state = .notStarted) {extra : List String}
    {o : Outcome} {st : State} {s' : Server} (hst' : st ≠ .notStarted)
    (hs : s.spawnBoot extra o = (.ok (), s')) : (s'.withState st).Matched := by
  unfold spawnBoot at hs
  split at hs
  · cases hs
  split at hs
  · cases hs
    have hnone := h.state_iff.mp hst
    refine ⟨⟨fun hc => absurd hc hst', fun hc => (by cases hc)⟩, ?_, fun c => ?_, fun c hc => ?_⟩
    · show s.vm.child.toList ++ s.dropped = []
      rw [hnone, h.none_dropped]
      rfl
    · show some s.spawned.length = some c ↔ c < (s.spawned ++ [_]).length ∧ c ∉ s.killed
      rw [length_append, length_singleton, Nat.lt_succ_iff_lt_or_eq]
      constructor
      · intro hc
        cases hc
        exact ⟨.inr rfl, fun hk => Nat.lt_irrefl _ (h.dead _ hk)⟩
      · rintro ⟨hlt | rfl, hlive⟩
        · exact absurd (h.all_dead hst hlt) hlive
        · rfl
    · show c < (s.spawned ++ [_]).length
      rw [length_append, length_singleton]
      exact Nat.lt_succ_of_lt (h.dead c hc)
  · cases hs

theorem move (h : s.Matched) {s' : Server} (hm : Move s s') : s'.Matched := by
  cases hm with
  | settle => exact ⟨h.state_iff, h.none_dropped, h.held, h.dead⟩
  | update hst hst' =>
    refine ⟨⟨fun hc => absurd hc hst', fun hc => ?_⟩, h.none_dropped, h.held, h.dead⟩
    exact absurd (h.state_iff.mpr hc) hst
  | unready hst hs => exact h.unready hst hs
  | started hst hst' hs => exact h.started hst hst' hs

end Matched

/-- **The state matches the child.** In every run without a load that is not to be resumed, the
state is `Not started` exactly while no child is held, no child is dropped before it is killed, and
the one that is held is the only one. -/
theorem state_matches_child {serde : Serde β} {settings : Settings} {es : List (Event β)}
    {s : Server} (h : Run (step serde) (Resumes serde) (.new settings) es s) :
    (s.vm.state = .notStarted ↔ s.vm.child = none) ∧ s.dropped = [] ∧
      ∀ c < s.spawned.length, c ∉ s.killed → s.vm.child = some c := by
  have hstep : ∀ (s : Server) (e : Event β) (s' : Server), s.Matched → Resumes serde s e →
      s.step serde e = some s' → s'.Matched := by
    intro s e s' hm hok hst
    cases hst
    exact hm.move (handle_move hok)
  have hm := h.invariant hstep (.new settings)
  exact ⟨hm.state_iff, hm.none_dropped, fun c hlt hlive => (hm.held c).mpr ⟨hlt, hlive⟩⟩

end Server

/-! ## A run -/

/-- Bodies as they are meant. -/
inductive Body where
  | machineConfig (m : MachineConfig)
  | bootSource (b : BootSource)
  | drive (d : Drive)
  | networkInterface
  | action (actionType : String)
  | vmUpdate (state : String)
  | snapshotCreate (path : String)
  | snapshotLoad (l : SnapshotLoad)

def Body.serde : Serde Body where
  machineConfig
    | .machineConfig m => if m.vcpuCount < 2 ^ 64 ∧ m.memSizeMib < 2 ^ 64 then some m else none
    | _ => none
  bootSource
    | .bootSource b => some b
    | _ => none
  drive
    | .drive d => some d
    | _ => none
  networkInterface
    | .networkInterface => some ()
    | _ => none
  actionType
    | .action a => some a
    | _ => none
  vmUpdate
    | .vmUpdate st => some st
    | _ => none
  snapshotCreate
    | .snapshotCreate path => some path
    | _ => none
  snapshotLoad
    | .snapshotLoad l => some l
    | _ => none
  word b m h := by
    cases b with
    | machineConfig m' =>
      dsimp only at h
      split at h
      next hlt =>
        cases h
        exact hlt
      · cases h
    | _ => cases h

namespace Server

def put (path : String) (body : Body) (o : Outcome) : Event Body := (⟨.put, path, body⟩, o)

def fine : Outcome := ⟨none, true, .answered true⟩

def plainSettings : Settings := ⟨"store", "store/control.sock", "Image"⟩

def configured : List (Event Body) :=
  [put "/boot-source" (.bootSource ⟨"Image", none⟩) fine,
    put "/drives/rootfs" (.drive ⟨"rootfs.ext4", true⟩) fine]

instance (s : Server) (e : Event Body) : Decidable (Resumes Body.serde s e) :=
  inferInstanceAs (Decidable (_ = _ → _ = _ →
    ∀ l ∈ Body.serde.snapshotLoad e.1.body, l.resumeVm = true))

theorem state_matches_child_retried : ∃ s : Server,
    (s.vm.state = .paused ∧ s.vm.child = some 1 ∧ s.killed = [0]) ∧
    (s.vm.state = .notStarted ↔ s.vm.child = none) ∧ s.dropped = [] ∧
      ∀ c < s.spawned.length, c ∉ s.killed → s.vm.child = some c := by
  obtain ⟨s, hrun, htest⟩ : ∃ s, Run (step Body.serde) (Resumes Body.serde) (.new plainSettings)
      (configured ++ [put "/actions" (.action "InstanceStart") ⟨none, false, .closed⟩,
        put "/actions" (.action "InstanceStart") fine,
        (⟨.patch, "/vm", .vmUpdate "Paused"⟩, fine),
        put "/snapshot/create" (.snapshotCreate "/tmp/snap.file") fine]) s ∧
      s.vm.state = .paused ∧ s.vm.child = some 1 ∧ s.killed = [0] := exists_run (by decide +kernel)
  exact ⟨s, htest, state_matches_child hrun⟩

theorem load_unresumed_orphans : ∃ s₁ s₂ : Server,
    Run (step Body.serde) (fun _ _ => True) (.new plainSettings)
      [put "/snapshot/load" (.snapshotLoad ⟨"/tmp/snap.file", false⟩) fine] s₁ ∧
    Run (step Body.serde) (fun _ _ => True) s₁
      [put "/snapshot/load" (.snapshotLoad ⟨"/tmp/snap.file", true⟩) fine] s₂ ∧
    (s₁.vm.state = .notStarted ∧ s₁.vm.child = some 0) ∧
      s₂.dropped = [0] ∧ s₂.killed = [] ∧ s₂.vm.child = some 1 := by
  refine ⟨_, _, .cons trivial rfl (.nil _), .cons trivial rfl (.nil _), ?_, ?_⟩ <;> decide +kernel

end Server

end Ignition.FcApi
