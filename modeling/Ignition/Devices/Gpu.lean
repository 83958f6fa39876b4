import Ignition.Base.AssocMap
import Ignition.Devices.Service

/-!
# virtio-gpu

`VirtioGpu` of `gpu.rs`: a table of two-dimensional resources, one of which may be bound to the
scanout. A request is read from the readable descriptors of a chain, dispatched on its command,
and answered in the writable ones. Pixels are copied from guest memory through a list of backing
segments, by transfers and again in full before a frame is presented.

A response is laid out by `write_response`, which is `scatter`: it keeps to the writable
descriptors and reports what it wrote (`control_sound`, `control_len`).
-/

namespace Ignition.Devices

open Paged Ignition.Vmm List

def GET_DISPLAY_INFO : Nat := 0x0100
def RESOURCE_CREATE_2D : Nat := 0x0101
def RESOURCE_UNREF : Nat := 0x0102
def SET_SCANOUT : Nat := 0x0103
def RESOURCE_FLUSH : Nat := 0x0104
def TRANSFER_TO_HOST_2D : Nat := 0x0105
def RESOURCE_ATTACH_BACKING : Nat := 0x0106
def RESOURCE_DETACH_BACKING : Nat := 0x0107

def RESP_OK_NODATA : Nat := 0x1100
def RESP_OK_DISPLAY_INFO : Nat := 0x1101
def RESP_ERR_UNSPEC : Nat := 0x1200

def CTRL_HDR_LEN : Nat := 24

def VIRTIO_GPU_EVENT_DISPLAY : UInt32 := 1

def MAX_RESOURCE_BYTES : Nat := 256 * 1024 * 1024

def MAX_REQUEST_BYTES : Nat := 2 * 1024 * 1024

structure Resource2D where
  format : Nat
  width : Nat
  height : Nat
  backing : List (Nat × Nat)
  pixels : Bytes
  deriving DecidableEq

structure Frame where
  width : Nat
  height : Nat
  dirty : Nat × Nat × Nat × Nat
  pixels : Bytes
  deriving DecidableEq

structure VirtioGpu where
  width : Nat
  height : Nat
  resources : AssocMap Nat Resource2D
  scanoutRes : Nat
  presented : List Frame
  eventsRead : UInt32
  enabled : Bool
  deriving DecidableEq

def le32 (b : Bytes) (off : Nat) : Nat := fromLeBytes (slice b off 4)

def le64 (b : Bytes) (off : Nat) : Nat := fromLeBytes (slice b off 8)

theorem fromLeBytes_lt : ∀ l : Bytes, fromLeBytes l < 256 ^ l.length
  | [] => Nat.one_pos
  | x :: l => by
    have hx := x.toNat_lt
    have ih := fromLeBytes_lt l
    rw [fromLeBytes, length_cons, Nat.pow_succ']
    omega

theorem fromLeBytes_slice_lt (b : Bytes) (off n : Nat) : fromLeBytes (slice b off n) < 256 ^ n := by
  have hlen : (slice b off n).length ≤ n := by
    unfold slice
    rw [length_take]
    exact Nat.min_le_left ..
  exact Nat.lt_of_lt_of_le (fromLeBytes_lt _) (Nat.pow_le_pow_right (by decide) hlen)

theorem le32_lt (b : Bytes) (off : Nat) : le32 b off < 2 ^ 32 := fromLeBytes_slice_lt b off 4

theorem le64_lt (b : Bytes) (off : Nat) : le64 b off < 2 ^ 64 := fromLeBytes_slice_lt b off 8

def respHdr (respType fence ctx : Nat) : Bytes :=
  leBytes 4 respType ++ List.replicate 4 0 ++ leBytes 8 fence ++ leBytes 4 ctx ++
    List.replicate 4 0

/-- The loop of `read_backing`, with the logical offset of the segment and what is filled. -/
def readSegments (mem : GuestRam) (start : Nat) :
    List (Nat × Nat) → Nat → Nat → Bytes → Bytes
  | [], _, _, out => out
  | (gpa, len) :: sg, segBase, outOff, out =>
    if out.length ≤ outOff ∨ 2 ^ 64 ≤ start + outOff then out
    else
      let segEnd := min (segBase + len) (2 ^ 64 - 1)
      let cur := start + outOff
      if segBase ≤ cur ∧ cur < segEnd then
        let inside := cur - segBase
        let n := min (out.length - outOff) (len - inside)
        -- a bad address gives black pixels, not stale ones
        let src := if gpa + inside < 2 ^ 64 then mem.readSlice (gpa + inside) n else none
        readSegments mem start sg segEnd (outOff + n)
          (copyInto out outOff (src.getD (List.replicate n 0)))
      else readSegments mem start sg segEnd outOff out

def readBacking (sg : List (Nat × Nat)) (mem : GuestRam) (start : Nat) (out : Bytes) : Bytes :=
  readSegments mem start sg 0 0 out

def chunk (mem : GuestRam) (gpa n : Nat) : Bytes :=
  (if gpa < 2 ^ 64 then mem.readSlice gpa n else none).getD (List.replicate n 0)

theorem length_chunk (mem : GuestRam) (gpa n : Nat) : (chunk mem gpa n).length = n := by
  unfold chunk
  split
  · cases h : mem.readSlice gpa n with
    | none => exact length_replicate
    | some b => exact GuestRam.length_readSlice h
  · exact length_replicate

theorem length_readSegments (mem : GuestRam) (start : Nat) : ∀ (sg : List (Nat × Nat)) (segBase outOff : Nat)
    (out : Bytes), (readSegments mem start sg segBase outOff out).length = out.length
  | [], _, _, _ => rfl
  | (gpa, len) :: sg, segBase, outOff, out => by
    unfold readSegments
    split
    · rfl
    rename_i hroom
    dsimp only
    split
    · rw [length_readSegments mem start sg]
      refine length_copyInto ?_
      show outOff + (chunk mem (gpa + (start + outOff - segBase)) _).length ≤ _
      rw [length_chunk]
      omega
    · exact length_readSegments mem start sg _ _ _

theorem length_readBacking (mem : GuestRam) (sg : List (Nat × Nat)) (start : Nat) (out : Bytes) :
    (readBacking sg mem start out).length = out.length :=
  length_readSegments mem start sg 0 0 out

namespace VirtioGpu

def new (width height : Nat) : VirtioGpu := ⟨width, height, ∅, 0, [], 0, true⟩

def insert (gpu : VirtioGpu) (id : Nat) (r : Resource2D) : VirtioGpu :=
  { gpu with resources := gpu.resources.insert id r }

def resource (gpu : VirtioGpu) (id : Nat) : Option Resource2D := gpu.resources.lookup id

def displayInfo (gpu : VirtioGpu) (fence ctx : Nat) : Bytes :=
  respHdr RESP_OK_DISPLAY_INFO fence ctx ++
    (List.replicate 8 0 ++ leBytes 4 gpu.width ++ leBytes 4 gpu.height ++
      leBytes 4 (if gpu.enabled then 1 else 0) ++ List.replicate 4 0) ++
    List.replicate (15 * 24) 0

def create2d (gpu : VirtioGpu) (body : Bytes) (fence ctx : Nat) : VirtioGpu × Bytes :=
  if body.length < 16 then (gpu, respHdr RESP_ERR_UNSPEC fence ctx)
  else
    let w := le32 body 8
    let h := le32 body 12
    if MAX_RESOURCE_BYTES < w * h * 4 then (gpu, respHdr RESP_ERR_UNSPEC fence ctx)
    else
      (gpu.insert (le32 body 0) ⟨le32 body 4, w, h, [], List.replicate (w * h * 4) 0⟩,
        respHdr RESP_OK_NODATA fence ctx)

def unref (gpu : VirtioGpu) (body : Bytes) (fence ctx : Nat) : VirtioGpu × Bytes :=
  if body.length < 4 then (gpu, respHdr RESP_ERR_UNSPEC fence ctx)
  else
    let id := le32 body 0
    ({ gpu with
        resources := gpu.resources.erase id
        scanoutRes := if gpu.scanoutRes = id then 0 else gpu.scanoutRes },
      respHdr RESP_OK_NODATA fence ctx)

def attachBacking (gpu : VirtioGpu) (body : Bytes) (fence ctx : Nat) : VirtioGpu × Bytes :=
  if body.length < 8 then (gpu, respHdr RESP_ERR_UNSPEC fence ctx)
  else
    let id := le32 body 0
    let nr := min (le32 body 4) ((body.length - 8) / 16)
    let sg := (List.range nr).map fun i => (le64 body (8 + i * 16), le32 body (8 + i * 16 + 8))
    match gpu.resource id with
    | some r => (gpu.insert id { r with backing := sg }, respHdr RESP_OK_NODATA fence ctx)
    | none => (gpu, respHdr RESP_ERR_UNSPEC fence ctx)

def detachBacking (gpu : VirtioGpu) (body : Bytes) (fence ctx : Nat) : VirtioGpu × Bytes :=
  if body.length < 4 then (gpu, respHdr RESP_ERR_UNSPEC fence ctx)
  else
    match gpu.resource (le32 body 0) with
    | some r =>
      (gpu.insert (le32 body 0) { r with backing := [] }, respHdr RESP_OK_NODATA fence ctx)
    | none => (gpu, respHdr RESP_OK_NODATA fence ctx)

def setScanout (gpu : VirtioGpu) (body : Bytes) (fence ctx : Nat) : VirtioGpu × Bytes :=
  if body.length < 24 then (gpu, respHdr RESP_ERR_UNSPEC fence ctx)
  else
    let id := le32 body 20
    if id ≠ 0 ∧ (gpu.resource id).isNone then (gpu, respHdr RESP_ERR_UNSPEC fence ctx)
    else ({ gpu with scanoutRes := id }, respHdr RESP_OK_NODATA fence ctx)

/-- One row of `VirtioGpu::transfer_2d`. -/
def transferRow (mem : GuestRam) (r : Resource2D) (offset rx rowW : Nat) (pixels : Bytes) (y : Nat) :
    Bytes :=
  let at_ := (y * r.width + rx) * 4
  if 2 ^ 64 ≤ offset + at_ then pixels
  else
    copyInto pixels at_ (readBacking r.backing mem (offset + at_) (slice pixels at_ (rowW * 4)))

def transfer2d (gpu : VirtioGpu) (body : Bytes) (mem : GuestRam) (fence ctx : Nat) :
    VirtioGpu × Bytes :=
  if body.length < 32 then (gpu, respHdr RESP_ERR_UNSPEC fence ctx)
  else
    let rx := le32 body 0
    let ry := le32 body 4
    let id := le32 body 24
    match gpu.resource id with
    | none => (gpu, respHdr RESP_ERR_UNSPEC fence ctx)
    | some r =>
      let xEnd := min (min (rx + le32 body 8) (2 ^ 32 - 1)) r.width
      let yEnd := min (min (ry + le32 body 12) (2 ^ 32 - 1)) r.height
      if r.width ≤ rx ∨ r.height ≤ ry then (gpu, respHdr RESP_OK_NODATA fence ctx)
      else
        let pixels := (range' ry (yEnd - ry)).foldl
          (transferRow mem r (le64 body 16) rx (xEnd - rx)) r.pixels
        (gpu.insert id { r with pixels := pixels }, respHdr RESP_OK_NODATA fence ctx)

def present (gpu : VirtioGpu) (mem : GuestRam) (id : Nat) (r : Resource2D)
    (dirty : Nat × Nat × Nat × Nat) : VirtioGpu :=
  let pixels := readBacking r.backing mem 0 r.pixels
  let gpu' := gpu.insert id { r with pixels := pixels }
  { gpu' with presented := gpu.presented ++ [⟨r.width, r.height, dirty, pixels⟩] }

def flush (gpu : VirtioGpu) (body : Bytes) (mem : GuestRam) (fence ctx : Nat) : VirtioGpu × Bytes :=
  if body.length < 20 then (gpu, respHdr RESP_ERR_UNSPEC fence ctx)
  else
    let id := le32 body 16
    if id ≠ 0 ∧ id = gpu.scanoutRes then
      match gpu.resource id with
      | some r =>
        (gpu.present mem id r (le32 body 0, le32 body 4, le32 body 8, le32 body 12),
          respHdr RESP_OK_NODATA fence ctx)
      | none => (gpu, respHdr RESP_OK_NODATA fence ctx)
    else (gpu, respHdr RESP_OK_NODATA fence ctx)

def presentScanout (gpu : VirtioGpu) (mem : GuestRam) : VirtioGpu :=
  if gpu.scanoutRes = 0 then gpu
  else
    match gpu.resource gpu.scanoutRes with
    | some r => gpu.present mem gpu.scanoutRes r (0, 0, r.width, r.height)
    | none => gpu

/-- The commands of `VirtioGpu::dispatch`. -/
def command (gpu : VirtioGpu) (cmd : Nat) (body : Bytes) (mem : GuestRam) (fence ctx : Nat) :
    VirtioGpu × Bytes :=
  if cmd = GET_DISPLAY_INFO then (gpu, gpu.displayInfo fence ctx)
  else if cmd = RESOURCE_CREATE_2D then gpu.create2d body fence ctx
  else if cmd = RESOURCE_UNREF then gpu.unref body fence ctx
  else if cmd = RESOURCE_ATTACH_BACKING then gpu.attachBacking body fence ctx
  else if cmd = RESOURCE_DETACH_BACKING then gpu.detachBacking body fence ctx
  else if cmd = SET_SCANOUT then gpu.setScanout body fence ctx
  else if cmd = TRANSFER_TO_HOST_2D then gpu.transfer2d body mem fence ctx
  else if cmd = RESOURCE_FLUSH then gpu.flush body mem fence ctx
  else (gpu, respHdr RESP_ERR_UNSPEC fence ctx)

section

variable (body : Bytes) (mem : GuestRam) (fence ctx : Nat)

/-- What a command may be handled by. -/
inductive Handler : (VirtioGpu → VirtioGpu × Bytes) → Prop where
  | displayInfo : Handler fun gpu => (gpu, gpu.displayInfo fence ctx)
  | create2d : Handler fun gpu => gpu.create2d body fence ctx
  | unref : Handler fun gpu => gpu.unref body fence ctx
  | attachBacking : Handler fun gpu => gpu.attachBacking body fence ctx
  | detachBacking : Handler fun gpu => gpu.detachBacking body fence ctx
  | setScanout : Handler fun gpu => gpu.setScanout body fence ctx
  | transfer2d : Handler fun gpu => gpu.transfer2d body mem fence ctx
  | flush : Handler fun gpu => gpu.flush body mem fence ctx
  | unknown : Handler fun gpu => (gpu, respHdr RESP_ERR_UNSPEC fence ctx)

theorem command_handler (cmd : Nat) : ∃ f, Handler body mem fence ctx f ∧
    ∀ gpu : VirtioGpu, gpu.command cmd body mem fence ctx = f gpu := by
  unfold command
  by_cases hinfo : cmd = GET_DISPLAY_INFO
  · exact ⟨_, .displayInfo, fun _ => if_pos hinfo⟩
  by_cases hcreate : cmd = RESOURCE_CREATE_2D
  · exact ⟨_, .create2d, fun _ => (if_neg hinfo).trans (if_pos hcreate)⟩
  by_cases hunref : cmd = RESOURCE_UNREF
  · refine ⟨_, .unref, fun _ => ?_⟩
    rw [if_neg hinfo, if_neg hcreate, if_pos hunref]
  by_cases hattach : cmd = RESOURCE_ATTACH_BACKING
  · refine ⟨_, .attachBacking, fun _ => ?_⟩
    rw [if_neg hinfo, if_neg hcreate, if_neg hunref, if_pos hattach]
  by_cases hdetach : cmd = RESOURCE_DETACH_BACKING
  · refine ⟨_, .detachBacking, fun _ => ?_⟩
    rw [if_neg hinfo, if_neg hcreate, if_neg hunref, if_neg hattach, if_pos hdetach]
  by_cases hscanout : cmd = SET_SCANOUT
  · refine ⟨_, .setScanout, fun _ => ?_⟩
    rw [if_neg hinfo, if_neg hcreate, if_neg hunref, if_neg hattach, if_neg hdetach,
      if_pos hscanout]
  by_cases htransfer : cmd = TRANSFER_TO_HOST_2D
  · refine ⟨_, .transfer2d, fun _ => ?_⟩
    rw [if_neg hinfo, if_neg hcreate, if_neg hunref, if_neg hattach, if_neg hdetach,
      if_neg hscanout, if_pos htransfer]
  by_cases hflush : cmd = RESOURCE_FLUSH
  · refine ⟨_, .flush, fun _ => ?_⟩
    rw [if_neg hinfo, if_neg hcreate, if_neg hunref, if_neg hattach, if_neg hdetach,
      if_neg hscanout, if_neg htransfer, if_pos hflush]
  refine ⟨_, .unknown, fun _ => ?_⟩
  rw [if_neg hinfo, if_neg hcreate, if_neg hunref, if_neg hattach, if_neg hdetach,
    if_neg hscanout, if_neg htransfer, if_neg hflush]

end

def dispatch (gpu : VirtioGpu) (req : Bytes) (mem : GuestRam) : VirtioGpu × Bytes :=
  if req.length < CTRL_HDR_LEN then (gpu, respHdr RESP_ERR_UNSPEC 0 0)
  else
    let (gpu', resp) := gpu.command (le32 req 0) (req.drop CTRL_HDR_LEN) mem (le64 req 8)
      (le32 req 16)
    -- a fenced request is answered with the fence flag set
    if le32 req 4 % 2 = 1 then (gpu', copyInto resp 4 (leBytes 4 1)) else (gpu', resp)

/-- One round of the control queue in `VirtioGpu::handle_notify`. -/
def control : Service VirtioGpu := fun gpu mem chain =>
  let (gpu', resp) := match chain.read mem MAX_REQUEST_BYTES with
    | some req => gpu.dispatch req mem
    | none => (gpu, respHdr RESP_ERR_UNSPEC 0 0)
  let r := scatter resp mem 0 chain.descriptors
  ⟨gpu', r.mem, r.len, r.log⟩

def configRead (gpu : VirtioGpu) (offset : Nat) (data : Bytes) : Bytes :=
  serveConfig (leBytes 4 gpu.eventsRead.toNat ++ List.replicate 4 0 ++ leBytes 4 1 ++
    List.replicate 4 0) offset data

def configWrite (gpu : VirtioGpu) (offset : Nat) (data : Bytes) : VirtioGpu :=
  if offset = 4 ∧ 4 ≤ data.length then
    { gpu with eventsRead := gpu.eventsRead &&& ~~~(UInt32.ofNat (le32 data 0)) }
  else gpu

def setDisplayMode (gpu : VirtioGpu) (w h : Nat) : VirtioGpu :=
  { gpu with
    width := w
    height := h
    enabled := true
    eventsRead := gpu.eventsRead ||| VIRTIO_GPU_EVENT_DISPLAY }

def setDisplayEnabled (gpu : VirtioGpu) (en : Bool) : VirtioGpu :=
  { gpu with enabled := en, eventsRead := gpu.eventsRead ||| VIRTIO_GPU_EVENT_DISPLAY }

/-! ## What becomes of the table -/

theorem resource_insert (gpu : VirtioGpu) (id : Nat) (r : Resource2D) (id' : Nat) :
    (gpu.insert id r).resource id' = if id' = id then some r else gpu.resource id' := by
  exact AssocMap.lookup_insert ..

theorem resource_of_erase {gpu : VirtioGpu} {id id' scanoutRes : Nat} {r : Resource2D}
    (h : VirtioGpu.resource
      { gpu with resources := gpu.resources.erase id, scanoutRes := scanoutRes } id' = some r) :
    gpu.resource id' = some r := by
  unfold resource at h
  rw [AssocMap.lookup_erase] at h
  split at h
  · cases h
  · exact h

theorem length_transferRow (mem : GuestRam) (r : Resource2D) (offset rx rowW : Nat) (pixels : Bytes) (y : Nat) :
    (transferRow mem r offset rx rowW pixels y).length = pixels.length := by
  unfold transferRow
  dsimp only
  split
  · rfl
  unfold copyInto
  rw [length_append, length_append, length_take, length_drop,
    length_readBacking]
  unfold slice
  rw [length_take, length_drop]
  omega

/-- What a request or a present may make of a GPU. -/
inductive Effect (gpu : VirtioGpu) : VirtioGpu → Prop where
  | same : Effect gpu gpu
  | created {id format width height : Nat} : id < 2 ^ 32 → width < 2 ^ 32 → height < 2 ^ 32 →
      width * height * 4 ≤ MAX_RESOURCE_BYTES →
      Effect gpu
        (gpu.insert id ⟨format, width, height, [], List.replicate (width * height * 4) 0⟩)
  | removed (id : Nat) : Effect gpu
      { gpu with
        resources := gpu.resources.erase id
        scanoutRes := if gpu.scanoutRes = id then 0 else gpu.scanoutRes }
  | backed {id : Nat} {r : Resource2D} (sg : List (Nat × Nat)) : gpu.resource id = some r →
      (∀ seg ∈ sg, seg.2 < 2 ^ 32) → Effect gpu (gpu.insert id { r with backing := sg })
  | bound {id : Nat} : id = 0 ∨ (gpu.resource id).isSome = true →
      Effect gpu { gpu with scanoutRes := id }
  | drawn {id : Nat} {r : Resource2D} {pixels : Bytes} (presented : List Frame) :
      gpu.resource id = some r → pixels.length = r.pixels.length →
      Effect gpu { gpu.insert id { r with pixels := pixels } with presented := presented }

section

variable (gpu : VirtioGpu) (body : Bytes) (mem : GuestRam) (fence ctx : Nat)

theorem create2d_effect : Effect gpu (gpu.create2d body fence ctx).1 := by
  unfold create2d
  split
  · exact .same
  dsimp only
  split
  · exact .same
  next hfits =>
    exact .created (le32_lt body 0) (le32_lt body 8) (le32_lt body 12) (Nat.not_lt.mp hfits)

theorem unref_effect : Effect gpu (gpu.unref body fence ctx).1 := by
  unfold unref
  split
  · exact .same
  · exact .removed _

theorem attachBacking_effect : Effect gpu (gpu.attachBacking body fence ctx).1 := by
  unfold attachBacking
  split
  · exact .same
  dsimp only
  split
  next r hr =>
    refine .backed _ hr fun seg hseg => ?_
    obtain ⟨i, -, rfl⟩ := mem_map.mp hseg
    exact le32_lt ..
  · exact .same

theorem detachBacking_effect : Effect gpu (gpu.detachBacking body fence ctx).1 := by
  unfold detachBacking
  split
  · exact .same
  split
  next r hr => exact .backed [] hr fun seg hseg => absurd hseg not_mem_nil
  · exact .same

theorem setScanout_effect : Effect gpu (gpu.setScanout body fence ctx).1 := by
  unfold setScanout
  split
  · exact .same
  dsimp only
  split
  · exact .same
  rename_i hok
  -- a scanout that names no resource was turned down
  rw [not_and_or, not_not, Bool.not_eq_true, Option.isNone_eq_false_iff] at hok
  exact .bound hok

theorem transfer2d_effect : Effect gpu (gpu.transfer2d body mem fence ctx).1 := by
  unfold transfer2d
  split
  · exact .same
  dsimp only
  split
  · exact .same
  rename_i r hr
  split
  · exact .same
  refine .drawn gpu.presented hr ?_
  refine foldlRecOn (motive := fun pixels : Bytes => pixels.length = r.pixels.length)
    _ _ rfl fun pixels hlen y _ => ?_
  rw [length_transferRow, hlen]

omit body fence ctx in
theorem present_effect {id : Nat} {r : Resource2D} (hr : gpu.resource id = some r)
    (dirty : Nat × Nat × Nat × Nat) : Effect gpu (gpu.present mem id r dirty) :=
  .drawn _ hr (length_readBacking mem r.backing 0 _)

theorem flush_effect : Effect gpu (gpu.flush body mem fence ctx).1 := by
  unfold flush
  split
  · exact .same
  dsimp only
  split
  · split
    next r hr => exact present_effect gpu mem hr _
    · exact .same
  · exact .same

omit body fence ctx in
theorem presentScanout_effect : Effect gpu (gpu.presentScanout mem) := by
  unfold presentScanout
  split
  · exact .same
  split
  next r hr => exact present_effect gpu mem hr _
  · exact .same

theorem command_effect (cmd : Nat) : Effect gpu (gpu.command cmd body mem fence ctx).1 := by
  obtain ⟨f, hf, heq⟩ := command_handler body mem fence ctx cmd
  rw [heq]
  cases hf with
  | displayInfo | unknown => exact .same
  | create2d => exact create2d_effect gpu body fence ctx
  | unref => exact unref_effect gpu body fence ctx
  | attachBacking => exact attachBacking_effect gpu body fence ctx
  | detachBacking => exact detachBacking_effect gpu body fence ctx
  | setScanout => exact setScanout_effect gpu body fence ctx
  | transfer2d => exact transfer2d_effect gpu body mem fence ctx
  | flush => exact flush_effect gpu body mem fence ctx

omit body fence ctx in
theorem dispatch_effect (req : Bytes) : Effect gpu (gpu.dispatch req mem).1 := by
  unfold dispatch
  split
  · exact .same
  have hcmd := command_effect gpu (req.drop CTRL_HDR_LEN) mem (le64 req 8) (le32 req 16)
    (le32 req 0)
  dsimp only
  split <;> exact hcmd

omit body fence ctx in
theorem control_effect (chain : DescChain) : Effect gpu (control gpu mem chain).dev := by
  unfold control
  cases chain.read mem MAX_REQUEST_BYTES with
  | none => exact .same
  | some req => exact dispatch_effect gpu mem req

end

/-! ## Responses -/

theorem control_sound (gpu : VirtioGpu) (mem : GuestRam) (chain : DescChain) :
    (control gpu mem chain).Sound mem chain.descriptors := by
  obtain ⟨⟨hcovered, hwithin⟩, -⟩ := scatter_spec _ chain.descriptors mem 0 (Nat.zero_le _)
  exact ⟨hcovered, hwithin⟩

theorem length_respHdr (t fence ctx : Nat) : (respHdr t fence ctx).length = CTRL_HDR_LEN := by
  unfold respHdr
  rw [length_append, length_append, length_append, length_append,
    length_replicate, length_leBytes, length_leBytes, length_leBytes]
  rfl

theorem length_displayInfo (gpu : VirtioGpu) (fence ctx : Nat) :
    (gpu.displayInfo fence ctx).length = CTRL_HDR_LEN + 16 * 24 := by
  unfold displayInfo
  rw [length_append, length_append, length_respHdr, length_append,
    length_append, length_append, length_append, length_replicate,
    length_replicate, length_replicate, length_leBytes, length_leBytes, length_leBytes]

def Bare (r : VirtioGpu × Bytes) (fence ctx : Nat) : Prop := ∃ t, r.2 = respHdr t fence ctx

section

variable (gpu : VirtioGpu) (body : Bytes) (mem : GuestRam) (fence ctx : Nat)

theorem create2d_bare : Bare (gpu.create2d body fence ctx) fence ctx := by
  unfold create2d
  split
  · exact ⟨_, rfl⟩
  · dsimp only
    split <;> exact ⟨_, rfl⟩

theorem unref_bare : Bare (gpu.unref body fence ctx) fence ctx := by
  unfold unref
  split <;> exact ⟨_, rfl⟩

theorem attachBacking_bare : Bare (gpu.attachBacking body fence ctx) fence ctx := by
  unfold attachBacking
  split
  · exact ⟨_, rfl⟩
  · dsimp only
    split <;> exact ⟨_, rfl⟩

theorem detachBacking_bare : Bare (gpu.detachBacking body fence ctx) fence ctx := by
  unfold detachBacking
  repeat' split
  all_goals exact ⟨_, rfl⟩

theorem setScanout_bare : Bare (gpu.setScanout body fence ctx) fence ctx := by
  unfold setScanout
  split
  · exact ⟨_, rfl⟩
  · dsimp only
    split <;> exact ⟨_, rfl⟩

theorem transfer2d_bare : Bare (gpu.transfer2d body mem fence ctx) fence ctx := by
  unfold transfer2d
  split
  · exact ⟨_, rfl⟩
  dsimp only
  repeat' split
  all_goals exact ⟨_, rfl⟩

theorem flush_bare : Bare (gpu.flush body mem fence ctx) fence ctx := by
  unfold flush
  split
  · exact ⟨_, rfl⟩
  dsimp only
  repeat' split
  all_goals exact ⟨_, rfl⟩

theorem command_bare (cmd : Nat) : Bare (gpu.command cmd body mem fence ctx) fence ctx ∨
    (gpu.command cmd body mem fence ctx).2 = gpu.displayInfo fence ctx := by
  obtain ⟨f, hf, heq⟩ := command_handler body mem fence ctx cmd
  rw [heq]
  cases hf with
  | displayInfo => exact .inr rfl
  | create2d => exact .inl (create2d_bare gpu body fence ctx)
  | unref => exact .inl (unref_bare gpu body fence ctx)
  | attachBacking => exact .inl (attachBacking_bare gpu body fence ctx)
  | detachBacking => exact .inl (detachBacking_bare gpu body fence ctx)
  | setScanout => exact .inl (setScanout_bare gpu body fence ctx)
  | transfer2d => exact .inl (transfer2d_bare gpu body mem fence ctx)
  | flush => exact .inl (flush_bare gpu body mem fence ctx)
  | unknown => exact .inl ⟨_, rfl⟩

theorem length_command (cmd : Nat) :
    (gpu.command cmd body mem fence ctx).2.length ≤ CTRL_HDR_LEN + 16 * 24 := by
  rcases command_bare gpu body mem fence ctx cmd with ⟨t, ht⟩ | hinfo
  · rw [ht, length_respHdr]
    exact Nat.le_add_right _ _
  · rw [hinfo]
    exact Nat.le_of_eq (length_displayInfo gpu fence ctx)

end

theorem length_dispatch (gpu : VirtioGpu) (req : Bytes) (mem : GuestRam) :
    (gpu.dispatch req mem).2.length ≤ CTRL_HDR_LEN + 16 * 24 := by
  unfold dispatch
  split
  · rw [length_respHdr]
    exact Nat.le_add_right _ _
  have hlen := length_command gpu (req.drop CTRL_HDR_LEN) mem (le64 req 8) (le32 req 16)
    (le32 req 0)
  dsimp only
  split
  · unfold copyInto
    rw [length_append, length_append, length_leBytes, length_take,
      length_drop]
    omega
  · exact hlen

/-- **The control queue reports what it wrote.** -/
theorem control_len (gpu : VirtioGpu) (mem : GuestRam) (chain : DescChain) :
    (control gpu mem chain).len = intoWritable (control gpu mem chain).log ∧
      (control gpu mem chain).len ≤ CTRL_HDR_LEN + 16 * 24 := by
  have hresp : ∀ resp : VirtioGpu × Bytes,
      resp = (match chain.read mem MAX_REQUEST_BYTES with
        | some req => gpu.dispatch req mem
        | none => (gpu, respHdr RESP_ERR_UNSPEC 0 0)) →
      resp.2.length ≤ CTRL_HDR_LEN + 16 * 24 := by
    rintro resp rfl
    split
    next req _ => exact length_dispatch gpu req mem
    · rw [length_respHdr]
      exact Nat.le_add_right _ _
  obtain ⟨-, hlen, hle⟩ := scatter_spec _ chain.descriptors mem 0 (Nat.zero_le _)
  refine ⟨?_, Nat.le_trans hle (hresp _ rfl)⟩
  rw [Nat.zero_add] at hlen
  exact hlen

end VirtioGpu

end Ignition.Devices
