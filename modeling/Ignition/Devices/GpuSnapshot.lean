import Ignition.Base.Answers
import Ignition.Base.Run
import Ignition.Devices.VirtioDevice

/-!
# A GPU out of a snapshot

A snapshot has the table of resources and the binding of the scanout. It has neither the mode of the
display, nor whether its connector is plugged in, nor the pending events, nor any pixel: the GPU
that it is restored into is in its first mode, plugged in, without events, and black. The pixels are
to come from the backing in guest memory, which a present of the scanout reads again.

What is not read again stays black. That is the part of the scanout's resource past the end of its
backing (`readBacking_zero`), and all of any other resource, since its backing may be detached
before it is shown. So the restored GPU can be told from the one that was saved, unless the display
is as it was built and what is not read again was black before (`restored_answers_iff`).
-/

namespace Ignition.Devices

open Paged Ignition.Vmm Runs Answers List Option

/-! ## Reading the backing -/

section

variable (mem : GuestRam)

def fetch : List (Nat × Nat) → Nat → Bytes
  | [], _ => []
  | (gpa, len) :: sg, room => chunk mem gpa (min room len) ++ fetch sg (room - min room len)

theorem fetch_zero : ∀ sg : List (Nat × Nat), fetch mem sg 0 = []
  | [] => rfl
  | (gpa, len) :: sg => by
    unfold fetch
    rw [Nat.zero_min, Nat.sub_zero, fetch_zero sg, append_nil]
    exact eq_nil_of_length_eq_zero (length_chunk mem gpa 0)

def covered (sg : List (Nat × Nat)) : Nat := (sg.map Prod.snd).sum

theorem readSegments_full (start : Nat) (sg : List (Nat × Nat)) (segBase : Nat) {outOff : Nat}
    {out : Bytes} (h : out.length ≤ outOff) :
    readSegments mem start sg segBase outOff out = out := by
  cases sg with
  | nil => rfl
  | cons seg sg => exact if_pos (.inl h)

theorem readSegments_zero : ∀ (sg : List (Nat × Nat)) {base : Nat} {out : Bytes},
    base ≤ out.length → out.length < 2 ^ 64 - 1 →
    readSegments mem 0 sg base base out =
      out.take base ++ fetch mem sg (out.length - base) ++ out.drop (base + covered sg)
  | [], base, out, _, _ => by
    show out = out.take base ++ [] ++ out.drop base
    rw [append_nil, take_append_drop]
  | (gpa, len) :: sg, base, out, hbase, hout => by
    have hcovered : base + covered ((gpa, len) :: sg) = base + len + covered sg :=
      (Nat.add_assoc base len (covered sg)).symm
    by_cases hfull : out.length ≤ base
    · rw [readSegments_full mem 0 _ base hfull, Nat.sub_eq_zero_of_le hfull, fetch_zero,
        append_nil, take_of_length_le hfull, drop_of_length_le (by omega),
        append_nil]
    unfold readSegments fetch
    rw [if_neg (by omega), hcovered]
    dsimp only
    rw [Nat.zero_add, Nat.sub_self, Nat.sub_zero, Nat.add_zero]
    by_cases hlen : len = 0
    · -- an empty segment
      subst hlen
      rw [if_neg (by omega), Nat.add_zero, Nat.min_zero, Nat.min_eq_left (by omega),
        readSegments_zero sg hbase hout, Nat.sub_zero,
        eq_nil_of_length_eq_zero (length_chunk mem gpa 0), nil_append]
    · rw [if_pos (by omega)]
      have hn := length_chunk mem gpa (min (out.length - base) len)
      show readSegments mem 0 sg _ _ (copyInto out base (chunk mem gpa _)) = _
      by_cases hroom : len ≤ out.length - base
      · rw [Nat.min_eq_right hroom] at hn ⊢
        have hlength : (copyInto out base (chunk mem gpa len)).length = out.length :=
          length_copyInto (by omega)
        rw [Nat.min_eq_left (by omega), readSegments_zero sg (by omega) (by omega), hlength]
        have htake : (copyInto out base (chunk mem gpa len)).take (base + len) =
            out.take base ++ chunk mem gpa len := by
          refine take_left' ?_
          rw [length_append, length_take, hn]
          omega
        have hdrop : (copyInto out base (chunk mem gpa len)).drop (base + len + covered sg) =
            out.drop (base + len + covered sg) := by
          unfold copyInto
          rw [← drop_drop, drop_left' (by
            rw [length_append, length_take, hn]
            omega), hn, drop_drop]
        rw [htake, hdrop, Nat.sub_sub, append_assoc (out.take base)]
      · -- the segment fills what is left
        have hmin : min (out.length - base) len = out.length - base := Nat.min_eq_left (by omega)
        rw [hmin] at hn ⊢
        have hlength : (copyInto out base (chunk mem gpa (out.length - base))).length =
            out.length := length_copyInto (by omega)
        rw [readSegments_full mem 0 sg _ (by omega), Nat.sub_self, fetch_zero, append_nil]
        unfold copyInto
        rw [hn, drop_of_length_le (by omega), drop_of_length_le (by omega)]

theorem readBacking_zero (sg : List (Nat × Nat)) {out : Bytes} (h : out.length < 2 ^ 64 - 1) :
    readBacking sg mem 0 out = fetch mem sg out.length ++ out.drop (covered sg) := by
  unfold readBacking
  rw [readSegments_zero mem sg (Nat.zero_le _) h, Nat.sub_zero, Nat.zero_add]
  rfl

end

namespace VirtioGpu

/-! ## What a GPU keeps to -/

/-- The numbers of a GPU are 32 bits wide, and a resource has the pixels that its size asks for. -/
structure Sized (gpu : VirtioGpu) : Prop where
  width : gpu.width < 2 ^ 32
  height : gpu.height < 2 ^ 32
  resource : ∀ id r, gpu.resource id = some r →
    id < 2 ^ 32 ∧ r.pixels.length = r.width * r.height * 4

section

variable {gpu gpu' : VirtioGpu} (h : gpu.Sized)

include h

theorem Sized.insert {id : Nat} {r : Resource2D} (hid : id < 2 ^ 32)
    (hr : r.pixels.length = r.width * r.height * 4) : (gpu.insert id r).Sized := by
  refine ⟨h.width, h.height, fun id' r' hr' => ?_⟩
  rw [resource_insert] at hr'
  split at hr'
  next heq =>
    obtain rfl := some.inj hr'
    exact ⟨heq ▸ hid, hr⟩
  · exact h.resource id' r' hr'

theorem Sized.update {id : Nat} {r : Resource2D} (hr : gpu.resource id = some r)
    (backing : List (Nat × Nat)) {pixels : Bytes} (hlen : pixels.length = r.pixels.length) :
    (gpu.insert id { r with backing := backing, pixels := pixels }).Sized :=
  h.insert (h.resource id r hr).1 (hlen.trans (h.resource id r hr).2)

theorem Sized.effect (heffect : Effect gpu gpu') : gpu'.Sized := by
  cases heffect with
  | same => exact h
  | created hid _ _ _ => exact h.insert hid length_replicate
  | removed id =>
    refine ⟨h.width, h.height, fun id' r hr => ?_⟩
    exact h.resource id' r (resource_of_erase hr)
  | backed sg hr _ => exact h.update hr sg rfl
  | bound _ => exact ⟨h.width, h.height, h.resource⟩
  | drawn presented hr hlen =>
    obtain ⟨hwidth, hheight, hresource⟩ := h.update hr _ hlen
    exact ⟨hwidth, hheight, hresource⟩

end

/-! ## The restored table -/

def blackened (r : Resource2D) : Resource2D :=
  { r with pixels := List.replicate (r.width * r.height * 4) 0 }

theorem lookup_restoreResources : ∀ {l : List (Sigma fun _ : Nat => Resource2D)}
    {resources resources' : AssocMap Nat Resource2D}, l.NodupKeys →
    restoreResources (l.map fun e => record e.1 e.2) resources = .ok resources' →
    ∀ id, resources'.lookup id = ((l.dlookup id).map blackened).or (resources.lookup id)
  | [], resources, resources', _, h, id => by
    obtain rfl := Except.ok.inj h
    rfl
  | e :: l, resources, resources', hnodup, h, id => by
    obtain ⟨hfresh, hnodup'⟩ := nodupKeys_cons.mp hnodup
    rw [map_cons] at h
    unfold restoreResources at h
    dsimp only at h
    split at h
    · cases h
    rw [lookup_restoreResources hnodup' h id, AssocMap.lookup_insert]
    by_cases hid : id = e.1
    · -- no later record has the id
      subst hid
      rw [dlookup_eq_none.mpr hfresh, dlookup_cons_eq]
      exact if_pos rfl
    · rw [dlookup_cons_ne l e hid]
      exact congrArg _ (if_neg hid)

variable {gpu gpu' : VirtioGpu} {r : Resource2D}

theorem Sane.restored (h : gpu.Sane) (width height : Nat) :
    ∃ resources : AssocMap Nat Resource2D,
      (new width height).restore gpu.save =
        .ok ⟨width, height, resources, gpu.scanoutRes, [], 0, true⟩ ∧
      ∀ id, resources.lookup id = (gpu.resource id).map blackened := by
  obtain ⟨resources, hok⟩ := h.restore_save
  refine ⟨resources, hok (new width height), fun id => ?_⟩
  have hnew := hok (new width height)
  dsimp only [VirtioGpu.restore, save] at hnew
  split at hnew
  · cases hnew
  rename_i resources' hes
  split at hnew
  · cases hnew
  have hsame : resources' = resources := congrArg VirtioGpu.resources (Except.ok.inj hnew)
  subst hsame
  rw [lookup_restoreResources gpu.resources.nodupKeys hes id]
  exact or_none

/-! ## Mirrored devices -/

def Mirrored (id : Nat) (r r' : Resource2D) : Prop :=
  ∃ pixels, r' = { r with pixels := pixels } ∧ (id ≠ 0 → pixels = r.pixels)

theorem Mirrored.refl (id : Nat) (r : Resource2D) : Mirrored id r r := ⟨r.pixels, rfl, fun _ => rfl⟩

/-- Two devices that show the same to the guest and to the sink from now on. -/
structure Mirrors (gpu gpu' : VirtioGpu) : Prop where
  width : gpu'.width = gpu.width
  height : gpu'.height = gpu.height
  scanoutRes : gpu'.scanoutRes = gpu.scanoutRes
  eventsRead : gpu'.eventsRead = gpu.eventsRead
  enabled : gpu'.enabled = gpu.enabled
  resource : ∀ id, Option.Rel (Mirrored id) (gpu.resource id) (gpu'.resource id)

/-- Mirrored devices after a request, with the same response and the same frames. -/
structure Echoes (gpu gpu' : VirtioGpu) (r r' : VirtioGpu × Bytes) : Prop where
  dev : Mirrors r.1 r'.1
  reply : r.2 = r'.2
  frames : ∃ fs, r.1.presented = gpu.presented ++ fs ∧ r'.1.presented = gpu'.presented ++ fs

theorem Echoes.quiet {r r' : VirtioGpu × Bytes} (hdev : Mirrors r.1 r'.1) (hreply : r.2 = r'.2)
    (hp : r.1.presented = gpu.presented) (hp' : r'.1.presented = gpu'.presented) :
    Echoes gpu gpu' r r' :=
  ⟨hdev, hreply, [], hp.trans (append_nil _).symm, hp'.trans (append_nil _).symm⟩

section

variable {gpu gpu' : VirtioGpu} (h : Mirrors gpu gpu') (body : Bytes) (mem : GuestRam)
  (fence ctx : Nat)

include h

omit body mem fence ctx in
theorem Mirrors.insert {id : Nat} {r r' : Resource2D} (hr : Mirrored id r r') :
    Mirrors (gpu.insert id r) (gpu'.insert id r') := by
  refine ⟨h.width, h.height, h.scanoutRes, h.eventsRead, h.enabled, fun id' => ?_⟩
  rw [resource_insert, resource_insert]
  split
  next heq => exact .some (heq ▸ hr)
  · exact h.resource id'

omit body mem fence ctx in
theorem Mirrors.cases (id : Nat) : (gpu.resource id = none ∧ gpu'.resource id = none) ∨
    ∃ r r', gpu.resource id = some r ∧ gpu'.resource id = some r' ∧ Mirrored id r r' := by
  have hrel := h.resource id
  generalize gpu.resource id = o at hrel
  generalize gpu'.resource id = o' at hrel
  cases hrel with
  | none => exact .inl ⟨rfl, rfl⟩
  | some hr => exact .inr ⟨_, _, rfl, rfl, hr⟩

theorem Mirrors.create2d :
    Echoes gpu gpu' (gpu.create2d body fence ctx) (gpu'.create2d body fence ctx) := by
  unfold VirtioGpu.create2d
  split
  · exact .quiet h rfl rfl rfl
  dsimp only
  split
  · exact .quiet h rfl rfl rfl
  · exact .quiet (h.insert (.refl _ _)) rfl rfl rfl

theorem Mirrors.unref : Echoes gpu gpu' (gpu.unref body fence ctx) (gpu'.unref body fence ctx) := by
  unfold VirtioGpu.unref
  split
  · exact .quiet h rfl rfl rfl
  refine .quiet ⟨h.width, h.height, ?_, h.eventsRead, h.enabled, fun id => ?_⟩ rfl rfl rfl
  · dsimp only
    rw [h.scanoutRes]
  · unfold VirtioGpu.resource
    rw [AssocMap.lookup_erase, AssocMap.lookup_erase]
    split
    · exact .none
    · exact h.resource id

theorem Mirrors.attachBacking :
    Echoes gpu gpu' (gpu.attachBacking body fence ctx) (gpu'.attachBacking body fence ctx) := by
  unfold VirtioGpu.attachBacking
  split
  · exact .quiet h rfl rfl rfl
  dsimp only
  rcases h.cases (le32 body 0) with ⟨hr, hr'⟩ | ⟨r, r', hr, hr', pixels, rfl, hsame⟩
  · rw [hr, hr']
    exact .quiet h rfl rfl rfl
  · rw [hr, hr']
    exact .quiet (h.insert ⟨pixels, rfl, hsame⟩) rfl rfl rfl

theorem Mirrors.detachBacking :
    Echoes gpu gpu' (gpu.detachBacking body fence ctx) (gpu'.detachBacking body fence ctx) := by
  unfold VirtioGpu.detachBacking
  split
  · exact .quiet h rfl rfl rfl
  rcases h.cases (le32 body 0) with ⟨hr, hr'⟩ | ⟨r, r', hr, hr', pixels, rfl, hsame⟩
  · rw [hr, hr']
    exact .quiet h rfl rfl rfl
  · rw [hr, hr']
    exact .quiet (h.insert ⟨pixels, rfl, hsame⟩) rfl rfl rfl

theorem Mirrors.setScanout :
    Echoes gpu gpu' (gpu.setScanout body fence ctx) (gpu'.setScanout body fence ctx) := by
  unfold VirtioGpu.setScanout
  split
  · exact .quiet h rfl rfl rfl
  have hnone : (gpu'.resource (le32 body 20)).isNone = (gpu.resource (le32 body 20)).isNone := by
    rcases h.cases (le32 body 20) with ⟨hr, hr'⟩ | ⟨r, r', hr, hr', -⟩
    · rw [hr, hr']
    · rw [hr, hr']
      rfl
  dsimp only
  rw [hnone]
  split
  · exact .quiet h rfl rfl rfl
  · exact .quiet ⟨h.width, h.height, rfl, h.eventsRead, h.enabled, h.resource⟩ rfl rfl rfl

theorem Mirrors.transfer2d :
    Echoes gpu gpu' (gpu.transfer2d body mem fence ctx) (gpu'.transfer2d body mem fence ctx) := by
  unfold VirtioGpu.transfer2d
  split
  · exact .quiet h rfl rfl rfl
  dsimp only
  rcases h.cases (le32 body 24) with ⟨hr, hr'⟩ | ⟨r, r', hr, hr', pixels, rfl, hsame⟩
  · rw [hr, hr']
    exact .quiet h rfl rfl rfl
  rw [hr, hr']
  dsimp only
  split
  · exact .quiet h rfl rfl rfl
  -- the rows are read alike, over what was there
  refine .quiet (h.insert ⟨_, rfl, fun hid => ?_⟩) rfl rfl rfl
  rw [hsame hid]

omit body fence ctx in
theorem Mirrors.present {id : Nat} {r r' : Resource2D} (hr : Mirrored id r r') (hid : id ≠ 0)
    (dirty : Nat × Nat × Nat × Nat) (reply : Bytes) :
    Echoes gpu gpu' (gpu.present mem id r dirty, reply) (gpu'.present mem id r' dirty, reply) := by
  obtain ⟨pixels, rfl, hsame⟩ := hr
  obtain rfl := hsame hid
  obtain ⟨hwidth, hheight, hscanout, hevents, henabled, hresource⟩ :=
    h.insert (.refl id { r with pixels := readBacking r.backing mem 0 r.pixels })
  exact ⟨⟨hwidth, hheight, hscanout, hevents, henabled, hresource⟩, rfl, _, rfl, rfl⟩

theorem Mirrors.flush :
    Echoes gpu gpu' (gpu.flush body mem fence ctx) (gpu'.flush body mem fence ctx) := by
  unfold VirtioGpu.flush
  split
  · exact .quiet h rfl rfl rfl
  dsimp only
  rw [h.scanoutRes]
  split
  next hbound =>
    rcases h.cases (le32 body 16) with ⟨hr, hr'⟩ | ⟨r, r', hr, hr', hsame⟩
    · rw [hr, hr']
      exact .quiet h rfl rfl rfl
    · rw [hr, hr']
      exact h.present mem hsame hbound.1 _ _
  · exact .quiet h rfl rfl rfl

omit body fence ctx in
theorem Mirrors.dispatch (req : Bytes) :
    Echoes gpu gpu' (gpu.dispatch req mem) (gpu'.dispatch req mem) := by
  have hcommand : ∀ cmd body fence ctx, Echoes gpu gpu' (gpu.command cmd body mem fence ctx)
      (gpu'.command cmd body mem fence ctx) := by
    intro cmd body fence ctx
    obtain ⟨f, hf, heq⟩ := command_handler body mem fence ctx cmd
    rw [heq, heq]
    cases hf with
    | displayInfo =>
      have hinfo : gpu.displayInfo fence ctx = gpu'.displayInfo fence ctx := by
        unfold displayInfo
        rw [h.width, h.height, h.enabled]
      exact .quiet h hinfo rfl rfl
    | create2d => exact h.create2d body fence ctx
    | unref => exact h.unref body fence ctx
    | attachBacking => exact h.attachBacking body fence ctx
    | detachBacking => exact h.detachBacking body fence ctx
    | setScanout => exact h.setScanout body fence ctx
    | transfer2d => exact h.transfer2d body mem fence ctx
    | flush => exact h.flush body mem fence ctx
    | unknown => exact .quiet h rfl rfl rfl
  unfold VirtioGpu.dispatch
  split
  · exact .quiet h rfl rfl rfl
  obtain ⟨hdev, hreply, hframes⟩ := hcommand (le32 req 0) (req.drop CTRL_HDR_LEN) (le64 req 8)
    (le32 req 16)
  dsimp only
  rw [← hreply]
  split <;> exact ⟨hdev, rfl, hframes⟩

omit body fence ctx in
theorem Mirrors.presentScanout :
    Echoes gpu gpu' (gpu.presentScanout mem, []) (gpu'.presentScanout mem, []) := by
  unfold VirtioGpu.presentScanout
  rw [h.scanoutRes]
  split
  · exact .quiet h rfl rfl rfl
  rename_i hbound
  rcases h.cases gpu.scanoutRes with ⟨hr, hr'⟩ | ⟨r, r', hr, hr', pixels, rfl, hsame⟩
  · rw [hr, hr']
    exact .quiet h rfl rfl rfl
  · rw [hr, hr']
    exact h.present mem ⟨pixels, rfl, hsame⟩ hbound _ _

end

/-! ## The console -/

/-- A GPU with the memory of its guest. -/
structure Console where
  gpu : VirtioGpu
  mem : GuestRam

namespace Console

inductive Action where
  | guest (mem : GuestRam)
  | request (req : Bytes)
  | configRead (offset : Nat) (data : Bytes)
  | configWrite (offset : Nat) (data : Bytes)
  | setDisplayMode (w h : UInt32)
  | setDisplayEnabled (en : Bool)
  | presentScanout

def act (s : Console) : Action → VirtioGpu × Bytes
  | .guest _ => (s.gpu, [])
  | .request req => s.gpu.dispatch req s.mem
  | .configRead offset data => (s.gpu, s.gpu.configRead offset data)
  | .configWrite offset data => (s.gpu.configWrite offset data, [])
  | .setDisplayMode w h => (s.gpu.setDisplayMode w.toNat h.toNat, [])
  | .setDisplayEnabled en => (s.gpu.setDisplayEnabled en, [])
  | .presentScanout => (s.gpu.presentScanout s.mem, [])

def memory (s : Console) : Action → GuestRam
  | .guest mem => mem
  | _ => s.mem

def respond (s : Console) (a : Action) : Option (Console × (Bytes × List Frame)) :=
  let r := s.act a
  some (⟨r.1, s.memory a⟩, (r.2, r.1.presented.drop s.gpu.presented.length))

def step (s : Console) (a : Action) : Option Console := (s.respond a).map Prod.fst

/-! ### What a console keeps to -/

variable {s : Console}

theorem act_sane (h : s.gpu.Sane) (a : Action) : (s.act a).1.Sane := by
  cases a with
  | guest mem | configRead offset data => exact h
  | request req => exact h.effect (dispatch_effect s.gpu s.mem req)
  | configWrite offset data =>
    dsimp only [act]
    unfold VirtioGpu.configWrite
    split
    · exact ⟨h.size, h.scanout⟩
    · exact h
  | setDisplayMode w h' | setDisplayEnabled en => exact ⟨h.size, h.scanout⟩
  | presentScanout => exact h.effect (presentScanout_effect s.gpu s.mem)

theorem act_sized (h : s.gpu.Sized) (a : Action) : (s.act a).1.Sized := by
  cases a with
  | guest mem | configRead offset data => exact h
  | request req => exact h.effect (dispatch_effect s.gpu s.mem req)
  | configWrite offset data =>
    dsimp only [act]
    unfold VirtioGpu.configWrite
    split
    · exact ⟨h.width, h.height, h.resource⟩
    · exact h
  | setDisplayMode w h' => exact ⟨w.toNat_lt, h'.toNat_lt, h.resource⟩
  | setDisplayEnabled en => exact ⟨h.width, h.height, h.resource⟩
  | presentScanout => exact h.effect (presentScanout_effect s.gpu s.mem)

theorem reached {width height : UInt32} {mem : GuestRam} {as : List Action}
    (h : Run step (fun _ _ => True) ⟨.new width.toNat height.toNat, mem⟩ as s) :
    s.gpu.Sane ∧ s.gpu.Sized := by
  have hstep : ∀ (s : Console) (a : Action) (s' : Console), (s.gpu.Sane ∧ s.gpu.Sized) → True →
      s.step a = some s' → s'.gpu.Sane ∧ s'.gpu.Sized := by
    rintro s a s' ⟨hsane, hsized⟩ - hs
    cases hs
    exact ⟨act_sane hsane a, act_sized hsized a⟩
  refine h.invariant hstep ⟨sane_new .., width.toNat_lt, height.toNat_lt, fun id r hr => ?_⟩
  cases hr

/-! ### Mirrored consoles -/

theorem echoes_act {gpu gpu' : VirtioGpu} (h : Mirrors gpu gpu') (mem : GuestRam) (a : Action) :
    Echoes gpu gpu' (act ⟨gpu, mem⟩ a) (act ⟨gpu', mem⟩ a) := by
  cases a with
  | guest mem => exact .quiet h rfl rfl rfl
  | request req => exact h.dispatch mem req
  | configRead offset data =>
    refine .quiet h ?_ rfl rfl
    dsimp only [Console.act]
    unfold VirtioGpu.configRead
    rw [h.eventsRead]
  | configWrite offset data =>
    dsimp only [Console.act]
    unfold VirtioGpu.configWrite
    rw [h.eventsRead]
    split
    · exact .quiet ⟨h.width, h.height, h.scanoutRes, rfl, h.enabled, h.resource⟩ rfl rfl rfl
    · exact .quiet h rfl rfl rfl
  | setDisplayMode w h' =>
    refine .quiet ⟨rfl, rfl, h.scanoutRes, ?_, rfl, h.resource⟩ rfl rfl rfl
    exact congrArg (· ||| VIRTIO_GPU_EVENT_DISPLAY) h.eventsRead
  | setDisplayEnabled en =>
    refine .quiet ⟨h.width, h.height, h.scanoutRes, ?_, rfl, h.resource⟩ rfl rfl rfl
    exact congrArg (· ||| VIRTIO_GPU_EVENT_DISPLAY) h.eventsRead
  | presentScanout => exact h.presentScanout mem

def Mirror (s s' : Console) : Prop := Mirrors s.gpu s'.gpu ∧ s'.mem = s.mem

theorem matched_of_echoes {gpu gpu' : VirtioGpu} {mem : GuestRam} {a : Action}
    (h : Echoes gpu gpu' (act ⟨gpu, mem⟩ a) (act ⟨gpu', mem⟩ a)) :
    Matched Mirror (respond ⟨gpu, mem⟩ a) (respond ⟨gpu', mem⟩ a) := by
  obtain ⟨hdev, hreply, fs, hfs, hfs'⟩ := h
  have hmem : memory ⟨gpu', mem⟩ a = memory ⟨gpu, mem⟩ a := by
    cases a <;> rfl
  unfold respond
  dsimp only
  rw [hfs, hfs', drop_left, drop_left, hreply, hmem]
  exact .both ⟨hdev, rfl⟩ _

theorem Mirror.answers {s' : Console} (h : Mirror s s') (as : List Action) :
    answers respond s as = answers respond s' as := by
  have hstep : ∀ (s s' : Console) (a : Action), Mirror s s' →
      Matched Mirror (respond s a) (respond s' a) := by
    rintro ⟨gpu, mem⟩ ⟨gpu', mem'⟩ a ⟨hgpu, hmem⟩
    dsimp only at hgpu hmem
    subst hmem
    exact matched_of_echoes (echoes_act hgpu mem' a)
  exact answers_eq_of_bisim hstep h as

end Console

/-! ## The restored device -/

def unread (gpu : VirtioGpu) (id : Nat) (r : Resource2D) : Bytes :=
  if id = gpu.scanoutRes then r.pixels.drop (covered r.backing) else r.pixels

/-- The display is as it was built, and what is not read again is black. -/
structure Recoverable (width height : Nat) (gpu : VirtioGpu) : Prop where
  mode : gpu.width = width ∧ gpu.height = height
  enabled : gpu.enabled = true
  eventsRead : gpu.eventsRead = 0
  pixels : ∀ id r, id ≠ 0 → gpu.resource id = some r → ∀ b ∈ unread gpu id r, b = 0

/-- The device that comes of restoring a snapshot. -/
structure Restored (width height : Nat) (gpu gpu' : VirtioGpu) : Prop where
  width : gpu'.width = width
  height : gpu'.height = height
  scanoutRes : gpu'.scanoutRes = gpu.scanoutRes
  eventsRead : gpu'.eventsRead = 0
  enabled : gpu'.enabled = true
  resource : ∀ id, gpu'.resource id = (gpu.resource id).map blackened

theorem readBacking_blackened (hsane : gpu.Sane) (hsized : gpu.Sized) {id : Nat}
    (hr : gpu.resource id = some r) (mem : GuestRam) :
    readBacking r.backing mem 0 r.pixels = readBacking r.backing mem 0 (blackened r).pixels ↔
      ∀ b ∈ r.pixels.drop (covered r.backing), b = 0 := by
  have hlen := (hsized.resource id r hr).2
  have hblack : (blackened r).pixels.length = r.pixels.length :=
    length_replicate.trans hlen.symm
  have hsmall : r.pixels.length < 2 ^ 64 - 1 := by
    have hmax := hsane.size id r hr
    unfold MAX_RESOURCE_BYTES at hmax
    omega
  rw [readBacking_zero mem r.backing hsmall, readBacking_zero mem r.backing (hblack ▸ hsmall),
    hblack, append_cancel_left_eq]
  unfold blackened
  rw [← hlen, drop_replicate, eq_replicate_iff, length_drop]
  exact and_iff_right rfl

theorem blackened_eq (hsized : gpu.Sized) {id : Nat} (hr : gpu.resource id = some r) :
    blackened r = r ↔ ∀ b ∈ r.pixels, b = 0 := by
  have hlen := (hsized.resource id r hr).2
  unfold blackened
  rw [← hlen]
  constructor
  · intro heq b hb
    rw [← congrArg Resource2D.pixels heq] at hb
    exact eq_of_mem_replicate hb
  · intro hblack
    rw [← eq_replicate_of_mem hblack]

theorem presentScanout_eq (h0 : gpu.scanoutRes ≠ 0) (hr : gpu.resource gpu.scanoutRes = some r)
    (mem : GuestRam) :
    gpu.presentScanout mem = gpu.present mem gpu.scanoutRes r (0, 0, r.width, r.height) := by
  unfold presentScanout
  rw [if_neg h0, hr]

theorem Recoverable.echoes {width height : Nat} (h : gpu.Recoverable width height)
    (hsane : gpu.Sane) (hsized : gpu.Sized) (hrestored : Restored width height gpu gpu')
    (mem : GuestRam) :
    Echoes gpu gpu' (gpu.presentScanout mem, []) (gpu'.presentScanout mem, []) := by
  have hscanout := hrestored.scanoutRes
  have hwidth : gpu'.width = gpu.width := hrestored.width.trans h.mode.1.symm
  have hheight : gpu'.height = gpu.height := hrestored.height.trans h.mode.2.symm
  have hevents : gpu'.eventsRead = gpu.eventsRead := hrestored.eventsRead.trans h.eventsRead.symm
  have henabled : gpu'.enabled = gpu.enabled := hrestored.enabled.trans h.enabled.symm
  -- a resource that is not bound is black, so it is restored as it was
  have hother : ∀ id, id ≠ gpu.scanoutRes →
      Option.Rel (Mirrored id) (gpu.resource id) (gpu'.resource id) := by
    intro id hid
    rw [hrestored.resource]
    cases hr : gpu.resource id with
    | none => exact .none
    | some r =>
      refine .some ⟨(blackened r).pixels, rfl, fun h0 => ?_⟩
      have hblack := h.pixels id r h0 hr
      unfold unread at hblack
      rw [if_neg hid] at hblack
      rw [(blackened_eq hsized hr).mpr hblack]
  by_cases h0 : gpu.scanoutRes = 0
  · unfold presentScanout
    rw [if_pos h0, if_pos (hscanout.trans h0)]
    refine .quiet ⟨hwidth, hheight, hscanout, hevents, henabled, fun id => ?_⟩ rfl rfl rfl
    by_cases hid : id = gpu.scanoutRes
    · -- resource 0 may keep pixels, for it is not shown
      rw [hrestored.resource]
      cases gpu.resource id with
      | none => exact .none
      | some r => exact .some ⟨_, rfl, fun hne => absurd (hid.trans h0) hne⟩
    · exact hother id hid
  · obtain ⟨r, hr⟩ := isSome_iff_exists.mp (hsane.scanout.resolve_left h0)
    have hr' : gpu'.resource gpu'.scanoutRes = some (blackened r) := by
      rw [hscanout, hrestored.resource, hr]
      rfl
    have hblack := h.pixels _ r h0 hr
    unfold unread at hblack
    rw [if_pos rfl] at hblack
    have hread := (readBacking_blackened hsane hsized hr mem).mpr hblack
    rw [presentScanout_eq h0 hr, presentScanout_eq (hscanout ▸ h0) hr', hscanout]
    unfold present
    rw [hread]
    refine ⟨⟨hwidth, hheight, hscanout, hevents, henabled, fun id => ?_⟩, rfl, _, rfl, rfl⟩
    show Option.Rel (Mirrored id) ((gpu.insert _ _).resource id) ((gpu'.insert _ _).resource id)
    rw [resource_insert, resource_insert]
    split
    · exact .some (.refl id _)
    next hid => exact hother id hid

/-! ### Telling the devices apart -/

def ask (cmd : Nat) (body : Bytes) : Bytes := leBytes 4 cmd ++ List.replicate 20 0 ++ body

theorem fromLeBytes_leBytes_four {n : Nat} (h : n < 2 ^ 32) : fromLeBytes (leBytes 4 n) = n := by
  rw [fromLeBytes_leBytes]
  exact Nat.mod_eq_of_lt h

theorem dispatch_ask (gpu : VirtioGpu) {cmd : Nat} (hcmd : cmd < 2 ^ 32) (body : Bytes)
    (mem : GuestRam) : gpu.dispatch (ask cmd body) mem = gpu.command cmd body mem 0 0 := by
  have hlen : ¬ (ask cmd body).length < CTRL_HDR_LEN := by
    unfold ask CTRL_HDR_LEN
    rw [length_append, length_append, length_leBytes, length_replicate]
    omega
  have hzero : le32 (ask cmd body) 4 = 0 := rfl
  have hid : le32 (ask cmd body) 0 = cmd := by
    have hslice : slice (ask cmd body) 0 4 = leBytes 4 cmd := rfl
    rw [le32, hslice, fromLeBytes_leBytes_four hcmd]
  have hfence : le64 (ask cmd body) 8 = 0 := rfl
  have hctx : le32 (ask cmd body) 16 = 0 := rfl
  have hbody : (ask cmd body).drop CTRL_HDR_LEN = body := rfl
  unfold dispatch
  rw [if_neg hlen, hid, hfence, hctx, hbody, hzero]
  rfl

theorem displayInfo_inj (hsized : gpu.Sized) (hsized' : gpu'.Sized)
    (h : gpu.displayInfo 0 0 = gpu'.displayInfo 0 0) :
    gpu.width = gpu'.width ∧ gpu.height = gpu'.height ∧ gpu.enabled = gpu'.enabled := by
  have hinfo := append_cancel_left (append_cancel_right h)
  have hfields := append_cancel_right hinfo
  obtain ⟨hsize, henabled⟩ := append_inj' hfields (by rw [length_leBytes, length_leBytes])
  obtain ⟨hleft, hheight⟩ := append_inj' hsize (by rw [length_leBytes, length_leBytes])
  have hwidth := append_cancel_left hleft
  refine ⟨?_, ?_, ?_⟩
  · rw [← fromLeBytes_leBytes_four hsized.width, hwidth, fromLeBytes_leBytes_four hsized'.width]
  · rw [← fromLeBytes_leBytes_four hsized.height, hheight, fromLeBytes_leBytes_four hsized'.height]
  · revert henabled
    cases gpu.enabled <;> cases gpu'.enabled <;> decide

namespace Console

def expose (id : Nat) : List Action :=
  [.request (ask RESOURCE_DETACH_BACKING (leBytes 4 id)),
    .request (ask SET_SCANOUT (List.replicate 20 0 ++ leBytes 4 id)),
    .request (ask RESOURCE_FLUSH (List.replicate 16 0 ++ leBytes 4 id))]

theorem answers_request {gpu gpu' : VirtioGpu} {mem : GuestRam} {req resp : Bytes}
    (h : gpu.dispatch req mem = (gpu', resp)) (as : List Action) :
    answers respond ⟨gpu, mem⟩ (.request req :: as) =
      some (resp, gpu'.presented.drop gpu.presented.length) :: answers respond ⟨gpu', mem⟩ as := by
  have hrespond : respond ⟨gpu, mem⟩ (.request req) =
      some (⟨gpu', mem⟩, (resp, gpu'.presented.drop gpu.presented.length)) := by
    unfold respond act memory
    dsimp only
    rw [h]
  rw [answers, hrespond]

theorem answers_expose {gpu : VirtioGpu} {id : Nat} {r : Resource2D} (h0 : id ≠ 0)
    (hid : id < 2 ^ 32) (hr : gpu.resource id = some r) (mem : GuestRam) :
    answers respond ⟨gpu, mem⟩ (expose id) =
      [some (respHdr RESP_OK_NODATA 0 0, []), some (respHdr RESP_OK_NODATA 0 0, []),
        some (respHdr RESP_OK_NODATA 0 0, [⟨r.width, r.height, (0, 0, 0, 0), r.pixels⟩])] := by
  have hid' := fromLeBytes_leBytes_four hid
  have hdetach : gpu.dispatch (ask RESOURCE_DETACH_BACKING (leBytes 4 id)) mem =
      (gpu.insert id { r with backing := [] }, respHdr RESP_OK_NODATA 0 0) := by
    have hbody : le32 (leBytes 4 id) 0 = id := hid'
    rw [dispatch_ask gpu (by decide)]
    refine Eq.trans (b := gpu.detachBacking (leBytes 4 id) 0 0) rfl ?_
    unfold detachBacking
    rw [if_neg (by rw [length_leBytes]; decide), hbody, hr]
  have hbound : ∀ gpu₁ : VirtioGpu, (gpu₁.resource id).isNone = false →
      gpu₁.dispatch (ask SET_SCANOUT (replicate 20 0 ++ leBytes 4 id)) mem =
        ({ gpu₁ with scanoutRes := id }, respHdr RESP_OK_NODATA 0 0) := by
    intro gpu₁ hsome
    have hbody : le32 (replicate 20 0 ++ leBytes 4 id) 20 = id := hid'
    rw [dispatch_ask gpu₁ (by decide)]
    refine Eq.trans (b := gpu₁.setScanout (replicate 20 0 ++ leBytes 4 id) 0 0) rfl ?_
    unfold setScanout
    rw [if_neg (by rw [length_append, length_leBytes]; decide), hbody]
    dsimp only
    rw [hsome, if_neg (fun h => Bool.false_ne_true h.2)]
  have hflush : ∀ (gpu₂ : VirtioGpu) (r₂ : Resource2D), gpu₂.scanoutRes = id →
      gpu₂.resource id = some r₂ →
      gpu₂.dispatch (ask RESOURCE_FLUSH (replicate 16 0 ++ leBytes 4 id)) mem =
        (gpu₂.present mem id r₂ (0, 0, 0, 0), respHdr RESP_OK_NODATA 0 0) := by
    intro gpu₂ r₂ hscanout hr₂
    have hbody : le32 (replicate 16 0 ++ leBytes 4 id) 16 = id := hid'
    rw [dispatch_ask gpu₂ (by decide)]
    refine Eq.trans (b := gpu₂.flush (replicate 16 0 ++ leBytes 4 id) mem 0 0) rfl ?_
    unfold flush
    rw [if_neg (by rw [length_append, length_leBytes]; decide), hbody,
      if_pos ⟨h0, hscanout.symm⟩, hr₂]
    rfl
  have hput : (gpu.insert id { r with backing := [] }).resource id =
      some { r with backing := [] } := by
    rw [resource_insert, if_pos rfl]
  have hput' : VirtioGpu.resource
      { gpu.insert id { r with backing := [] } with scanoutRes := id } id =
      some { r with backing := [] } := hput
  unfold expose
  rw [answers_request hdetach, answers_request (hbound _ (by rw [hput]; rfl)),
    answers_request (hflush _ _ rfl hput')]
  unfold present VirtioGpu.insert
  rw [drop_left, drop_length]
  rfl

end Console

theorem presentScanout_keeps (gpu : VirtioGpu) (mem : GuestRam) :
    (gpu.presentScanout mem).width = gpu.width ∧ (gpu.presentScanout mem).height = gpu.height ∧
      (gpu.presentScanout mem).enabled = gpu.enabled ∧
      (gpu.presentScanout mem).eventsRead = gpu.eventsRead ∧
      ∀ id, id ≠ gpu.scanoutRes → (gpu.presentScanout mem).resource id = gpu.resource id := by
  unfold presentScanout
  split
  · exact ⟨rfl, rfl, rfl, rfl, fun _ _ => rfl⟩
  split
  next r hr =>
    refine ⟨rfl, rfl, rfl, rfl, fun id hid => ?_⟩
    show (gpu.insert _ _).resource id = _
    rw [resource_insert, if_neg hid]
  · exact ⟨rfl, rfl, rfl, rfl, fun _ _ => rfl⟩

theorem Restored.sized {width height : UInt32} (h : Restored width.toNat height.toNat gpu gpu')
    (hsized : gpu.Sized) : gpu'.Sized := by
  refine ⟨h.width ▸ width.toNat_lt, h.height ▸ height.toNat_lt, fun id r hr => ?_⟩
  rw [h.resource] at hr
  obtain ⟨r₀, hr₀, rfl⟩ := map_eq_some_iff.mp hr
  exact ⟨(hsized.resource id r₀ hr₀).1, length_replicate⟩

def Indistinct (mem : GuestRam) (gpu gpu' : VirtioGpu) : Prop :=
  ∀ as : List Console.Action,
    answers Console.respond ⟨gpu, mem⟩ (.presentScanout :: as) =
      answers Console.respond ⟨gpu', mem⟩ (.presentScanout :: as)

section

open Console

variable {width height : UInt32} {gpu gpu' : VirtioGpu} {mem : GuestRam}
  (hrestored : Restored width.toNat height.toNat gpu gpu') (hsane : gpu.Sane) (hsized : gpu.Sized)
  (h : Indistinct mem gpu gpu')

include h

theorem Indistinct.tail (as : List Action) : answers respond ⟨gpu.presentScanout mem, mem⟩ as =
    answers respond ⟨gpu'.presentScanout mem, mem⟩ as :=
  (cons.inj (h as)).2

include hrestored hsized

theorem Indistinct.mode :
    gpu.width = width.toNat ∧ gpu.height = height.toNat ∧ gpu.enabled = true := by
  obtain ⟨hwidth, hheight, henabled, -⟩ := presentScanout_keeps gpu mem
  obtain ⟨hwidth', hheight', henabled', -⟩ := presentScanout_keeps gpu' mem
  have htail := h.tail [.request (ask GET_DISPLAY_INFO [])]
  have hsame := congrArg Prod.fst (some.inj (cons.inj htail).1)
  have hfields := displayInfo_inj (hsized.effect (presentScanout_effect _ mem))
    ((hrestored.sized hsized).effect (presentScanout_effect _ mem)) hsame
  rw [hwidth, hheight, henabled, hwidth', hheight', henabled', hrestored.width, hrestored.height,
    hrestored.enabled] at hfields
  exact hfields

omit hsized in
theorem Indistinct.eventsRead : gpu.eventsRead = 0 := by
  obtain ⟨-, -, -, hevents, -⟩ := presentScanout_keeps gpu mem
  obtain ⟨-, -, -, hevents', -⟩ := presentScanout_keeps gpu' mem
  have hsame := congrArg Prod.fst (some.inj
    (cons.inj (h.tail [.configRead 0 [0, 0, 0, 0]])).1)
  have hbytes : leBytes 4 (gpu.presentScanout mem).eventsRead.toNat =
      leBytes 4 (gpu'.presentScanout mem).eventsRead.toNat := hsame
  have hnat := congrArg fromLeBytes hbytes
  rw [fromLeBytes_leBytes_four (UInt32.toNat_lt _), fromLeBytes_leBytes_four (UInt32.toNat_lt _),
    hevents, hevents', hrestored.eventsRead] at hnat
  exact UInt32.toNat_inj.mp hnat

theorem Indistinct.other {id : Nat} {r : Resource2D} (h0 : id ≠ 0) (hid : id ≠ gpu.scanoutRes)
    (hr : gpu.resource id = some r) : ∀ b ∈ r.pixels, b = 0 := by
  obtain ⟨-, -, -, -, hkeep⟩ := presentScanout_keeps gpu mem
  obtain ⟨-, -, -, -, hkeep'⟩ := presentScanout_keeps gpu' mem
  have hlt := (hsized.resource id r hr).1
  have hr' : gpu'.resource id = some (blackened r) := by
    rw [hrestored.resource, hr]
    rfl
  have htail := h.tail (expose id)
  rw [answers_expose h0 hlt ((hkeep id hid).trans hr) mem,
    answers_expose h0 hlt ((hkeep' id (hrestored.scanoutRes ▸ hid)).trans hr') mem] at htail
  have hframes := congrArg (fun l : List (Option (Bytes × List Frame)) =>
    l.flatMap fun o => o.elim [] fun p => p.2.map Frame.pixels) htail
  have hpixels : r.pixels = (blackened r).pixels := (cons.inj hframes).1
  intro b hb
  rw [hpixels] at hb
  exact eq_of_mem_replicate hb

include hsane

theorem Indistinct.bound {r : Resource2D} (h0 : gpu.scanoutRes ≠ 0)
    (hr : gpu.resource gpu.scanoutRes = some r) :
    ∀ b ∈ r.pixels.drop (covered r.backing), b = 0 := by
  have hr' : gpu'.resource gpu'.scanoutRes = some (blackened r) := by
    rw [hrestored.scanoutRes, hrestored.resource, hr]
    rfl
  have hfirst : (gpu.presentScanout mem).presented.drop gpu.presented.length =
      (gpu'.presentScanout mem).presented.drop gpu'.presented.length :=
    congrArg Prod.snd (some.inj (cons.inj (h [])).1)
  rw [presentScanout_eq h0 hr, presentScanout_eq (hrestored.scanoutRes ▸ h0) hr'] at hfirst
  unfold present at hfirst
  rw [drop_left, drop_left] at hfirst
  have hpixels := congrArg Frame.pixels (cons.inj hfirst).1
  exact (readBacking_blackened hsane hsized hr mem).mp hpixels

theorem Indistinct.recoverable : gpu.Recoverable width.toNat height.toNat := by
  obtain ⟨hwidth, hheight, henabled⟩ := h.mode hrestored hsized
  refine ⟨⟨hwidth, hheight⟩, henabled, h.eventsRead hrestored, fun id r h0 hr => ?_⟩
  unfold unread
  split
  next hid =>
    subst hid
    exact h.bound hrestored hsane hsized h0 hr
  next hid => exact h.other hrestored hsized h0 hid hr

end

namespace Console

/-- **What a restored GPU shows.** Take any GPU that requests, configuration writes, mode changes
and toggles of the connector lead to. What it saves is restored by a GPU newly built at the same
size, and from a present of the scanout on the two answer every sequence of actions with the same
responses, the same configuration and the same frames, exactly if the display was in the mode it was
built with, plugged in, without a pending event, and the pixels that the present does not read again
were black. -/
theorem restored_answers_iff {width height : UInt32} {mem : GuestRam} {as : List Action}
    {s : Console} (h : Run step (fun _ _ => True) ⟨.new width.toNat height.toNat, mem⟩ as s) :
    ∃ gpu, (VirtioGpu.new width.toNat height.toNat).restore s.gpu.save = .ok gpu ∧
      (Indistinct s.mem s.gpu gpu ↔ s.gpu.Recoverable width.toNat height.toNat) := by
  obtain ⟨hsane, hsized⟩ := reached h
  obtain ⟨resources, hok, hresource⟩ := hsane.restored width.toNat height.toNat
  refine ⟨_, hok, ?_⟩
  have hrestored : Restored width.toNat height.toNat s.gpu
      ⟨width.toNat, height.toNat, resources, s.gpu.scanoutRes, [], 0, true⟩ :=
    ⟨rfl, rfl, rfl, rfl, rfl, hresource⟩
  constructor
  · intro hsame
    exact hsame.recoverable hrestored hsane hsized
  · intro hrec as
    exact answers_cons (matched_of_echoes (hrec.echoes hsane hsized hrestored s.mem))
      fun _ _ hmirror => hmirror.answers as

/-! A display of one pixel, the four bytes of which are in guest memory. -/

def lit : GuestRam :=
  ((⟨0x40000000, List.replicate 64 0, GuestRam.bounded_blank⟩ : GuestRam).writeSlice 0x40000000
    [1, 2, 3, 4]).1

def built : Console := ⟨.new (1280 : UInt32).toNat (800 : UInt32).toNat, lit⟩

def backed : List Action :=
  [.request (ask RESOURCE_CREATE_2D (leBytes 4 1 ++ leBytes 4 1 ++ leBytes 4 1 ++ leBytes 4 1)),
    .request (ask RESOURCE_ATTACH_BACKING
      (leBytes 4 1 ++ leBytes 4 1 ++ leBytes 8 0x40000000 ++ leBytes 4 4 ++ leBytes 4 0))]

def shown : List Action :=
  backed ++ [.request (ask SET_SCANOUT (List.replicate 20 0 ++ leBytes 4 1)),
    .request (ask RESOURCE_FLUSH (List.replicate 16 0 ++ leBytes 4 1))]

def filled : List Action :=
  backed ++ [.request (ask TRANSFER_TO_HOST_2D (List.replicate 8 0 ++ leBytes 4 1 ++ leBytes 4 1 ++
    List.replicate 8 0 ++ leBytes 4 1 ++ leBytes 4 0))]

def unlit (gpu : VirtioGpu) : Bool :=
  gpu.resources.entries.all fun e => (unread gpu e.1 e.2).all fun b => b = 0

theorem restored_answers_iff_shown : ∃ (s : Console) (gpu : VirtioGpu),
    s.gpu.presented = [⟨1, 1, (0, 0, 0, 0), [1, 2, 3, 4]⟩] ∧
      (VirtioGpu.new (1280 : UInt32).toNat (800 : UInt32).toNat).restore s.gpu.save = .ok gpu ∧
      Indistinct s.mem s.gpu gpu := by
  obtain ⟨s, hrun, hpresented, hmode, henabled, hevents, hblack⟩ :
      ∃ s, Run step (fun _ _ => True) built shown s ∧
        s.gpu.presented = [⟨1, 1, (0, 0, 0, 0), [1, 2, 3, 4]⟩] ∧
        (s.gpu.width = 1280 ∧ s.gpu.height = 800) ∧ s.gpu.enabled = true ∧
        s.gpu.eventsRead = 0 ∧ unlit s.gpu = true := exists_run (by decide +kernel)
  obtain ⟨gpu, hok, hiff⟩ := restored_answers_iff hrun
  refine ⟨s, gpu, hpresented, hok, hiff.mpr ⟨hmode, henabled, hevents, ?_⟩⟩
  intro id r _ hr b hb
  have hentry := all_eq_true.mp hblack ⟨id, r⟩ (AList.mem_lookup_iff.mp hr)
  exact of_decide_eq_true (all_eq_true.mp hentry b hb)

def tells (as bs : List Action) : Bool :=
  (after step built as).any fun s =>
    match built.gpu.restore s.gpu.save with
    | .ok gpu => answers respond s (.presentScanout :: bs) ≠
        answers respond ⟨gpu, s.mem⟩ (.presentScanout :: bs)
    | .error _ => false

theorem restored_forgets :
    tells [.setDisplayMode 640 480, .configWrite 4 [1, 0, 0, 0]]
        [.request (ask GET_DISPLAY_INFO [])] = true ∧
      tells [.setDisplayEnabled false, .configWrite 4 [1, 0, 0, 0]]
        [.request (ask GET_DISPLAY_INFO [])] = true ∧
      tells [.setDisplayMode 1280 800] [.configRead 0 [0, 0, 0, 0]] = true ∧
      tells (shown ++ [.request (ask RESOURCE_DETACH_BACKING (leBytes 4 1))]) [] = true ∧
      tells filled (expose 1) = true := by
  refine ⟨?_, ?_, ?_, ?_, ?_⟩ <;> decide +kernel

end Console

end VirtioGpu

end Ignition.Devices
