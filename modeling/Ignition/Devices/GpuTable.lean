import Ignition.Base.Json
import Ignition.Devices.GpuTransfer

/-!
# The table of a GPU, and what a request computes

A GPU gets requests from the guest, byte strings of any kind, and states to restore, JSON values of
any kind. Its table of resources keeps an invariant: the scanout is bound to a resource or to none,
and a resource has the pixels that its dimensions ask for, not more than 256 MiB of them. A state
that does not keep to it is turned down, and the GPU stays what it was.

On the way a request adds, multiplies and takes slices. `Op` is one such operation with its exact
result, and `dispatchOps` lists those that a request comes to. Additions that the code does with
`checked_add` or `saturating_add` are not among them. By the
invariant every slice is in bounds (`table_invariant`). An operation on integers that does not fit
its type panics in a debug build and wraps around in a release build. There is one that need not fit:
the stride of a frame, four times a width, is computed in 32 bits. `create_2d` only bounds the product
of the dimensions, so that a width can be anything if the height is zero (`arithmetic_fits_iff`).
-/

namespace Ignition.Devices

open Paged Ignition.Vmm Runs Json List Option

namespace VirtioGpu

/-! ## Restoring a JSON value -/

/-- One segment in `VirtioGpu::restore`. -/
def segmentOf (b : Value) : Except String (Nat × Nat) := do
  let gpa ← b.u64Field "gpa" "gpu: backing missing gpa"
  let len ← b.u64Field "len" "gpu: backing missing len"
  return (gpa, len % 2 ^ 32)

/-- One resource in `VirtioGpu::restore`, with its id. -/
def resourceOf (e : Value) : Except String (Nat × Resource2D) := do
  let id ← e.u64Field "id" "gpu: resource missing id"
  let format ← e.u64Field "format" "gpu: resource missing format"
  let width ← e.u64Field "width" "gpu: resource missing width"
  let height ← e.u64Field "height" "gpu: resource missing height"
  let size := width % 2 ^ 32 * (height % 2 ^ 32) * 4
  if MAX_RESOURCE_BYTES < size then .error "gpu: restored resource size invalid"
  else
    let backingArr ← e.arrayField "backing" "gpu: resource missing backing"
    let backing ← backingArr.mapM segmentOf
    return (id % 2 ^ 32, ⟨format % 2 ^ 32, width % 2 ^ 32, height % 2 ^ 32, backing,
      List.replicate size 0⟩)

/-- The loop over the resources in `VirtioGpu::restore`. -/
def resourcesOf : List Value → AssocMap Nat Resource2D → Except String (AssocMap Nat Resource2D)
  | [], resources => .ok resources
  | e :: es, resources =>
    match resourceOf e with
    | .error msg => .error msg
    | .ok (id, r) => resourcesOf es (resources.insert id r)

/-- `VirtioGpu::restore`: what is in the way is reported and changes nothing. -/
def restoreJson (gpu : VirtioGpu) (v : Value) : VirtioGpu × Except String Unit :=
  match v.arrayField "resources" "gpu: missing resources" with
  | .error msg => (gpu, .error msg)
  | .ok arr =>
    match resourcesOf arr ∅ with
    | .error msg => (gpu, .error msg)
    | .ok resources =>
      match v.u64Field "scanout_res" "gpu: missing scanout_res" with
      | .error msg => (gpu, .error msg)
      | .ok scanoutRes =>
        if scanoutRes % 2 ^ 32 ≠ 0 ∧ (resources.lookup (scanoutRes % 2 ^ 32)).isNone then
          (gpu, .error "gpu: scanout_res names a missing resource")
        else ({ gpu with resources := resources, scanoutRes := scanoutRes % 2 ^ 32 }, .ok ())

/-! ### What comes out of it -/

/-- A resource as `create_2d` and `restore` make it. -/
structure Formed (id : Nat) (r : Resource2D) : Prop where
  id : id < 2 ^ 32
  width : r.width < 2 ^ 32
  height : r.height < 2 ^ 32
  backing : ∀ seg ∈ r.backing, seg.2 < 2 ^ 32
  pixels : r.pixels.length = r.width * r.height * 4
  size : r.width * r.height * 4 ≤ MAX_RESOURCE_BYTES

theorem segmentOf_ok {b : Value} {seg : Nat × Nat} (h : segmentOf b = .ok seg) : seg.2 < 2 ^ 32 := by
  obtain ⟨gpa, -, h⟩ := ok_of_bind h
  obtain ⟨len, -, h⟩ := ok_of_bind h
  obtain rfl := Except.ok.inj h
  exact Nat.mod_lt _ (by decide)

theorem resourceOf_ok {e : Value} {id : Nat} {r : Resource2D} (h : resourceOf e = .ok (id, r)) :
    Formed id r := by
  obtain ⟨id, -, h⟩ := ok_of_bind h
  obtain ⟨format, -, h⟩ := ok_of_bind h
  obtain ⟨width, -, h⟩ := ok_of_bind h
  obtain ⟨height, -, h⟩ := ok_of_bind h
  dsimp only at h
  split at h
  · cases h
  rename_i hfits
  obtain ⟨backingArr, -, h⟩ := ok_of_bind h
  obtain ⟨backing, hbacking, h⟩ := ok_of_bind h
  obtain ⟨rfl, rfl⟩ := Prod.mk.inj (Except.ok.inj h)
  have hword : ∀ n : Nat, n % 2 ^ 32 < 2 ^ 32 := fun n => Nat.mod_lt n (by decide)
  refine ⟨hword _, hword _, hword _, fun seg hseg => ?_, length_replicate,
    Nat.not_lt.mp hfits⟩
  obtain ⟨b, -, hb⟩ := ok_of_mapM hbacking seg hseg
  exact segmentOf_ok hb

theorem resourcesOf_ok : ∀ {es : List Value} {resources resources' : AssocMap Nat Resource2D},
    resourcesOf es resources = .ok resources' →
    (∀ id r, resources.lookup id = some r → Formed id r) →
    ∀ id r, resources'.lookup id = some r → Formed id r
  | [], resources, resources', h, hformed => Except.ok.inj h ▸ hformed
  | e :: es, resources, resources', h, hformed => by
    unfold resourcesOf at h
    split at h
    · cases h
    rename_i id r he
    refine resourcesOf_ok h fun id' r' hr' => ?_
    rw [AssocMap.lookup_insert] at hr'
    split at hr'
    next heq =>
      obtain rfl := some.inj hr'
      exact heq ▸ resourceOf_ok he
    · exact hformed id' r' hr'

/-- What the table keeps to. -/
structure Tabled (gpu : VirtioGpu) : Prop where
  resource : ∀ id r, gpu.resource id = some r → Formed id r
  scanout : gpu.scanoutRes = 0 ∨ (gpu.resource gpu.scanoutRes).isSome = true

theorem tabled_new (width height : Nat) : (new width height).Tabled := by
  refine ⟨fun id r hr => ?_, .inl rfl⟩
  cases hr

variable {gpu : VirtioGpu} {n off len : Nat}

theorem Tabled.sane (h : gpu.Tabled) : gpu.Sane :=
  ⟨fun id r hr => (h.resource id r hr).size, h.scanout⟩

theorem Tabled.insert (h : gpu.Tabled) {id : Nat} {r : Resource2D} (hr : Formed id r) :
    (gpu.insert id r).Tabled := by
  refine ⟨fun id' r' hr' => ?_, (h.sane.insert hr.size).scanout⟩
  rw [resource_insert] at hr'
  split at hr'
  next heq =>
    obtain rfl := some.inj hr'
    exact heq ▸ hr
  · exact h.resource id' r' hr'

theorem Tabled.effect {gpu' : VirtioGpu} (h : gpu.Tabled) (heffect : Effect gpu gpu') :
    gpu'.Tabled := by
  have hscanout := (h.sane.effect heffect).scanout
  cases heffect with
  | same => exact h
  | created hid hwidth hheight hsize =>
    exact h.insert ⟨hid, hwidth, hheight, fun _ hseg => absurd hseg not_mem_nil,
      length_replicate, hsize⟩
  | removed id => exact ⟨fun id' r hr => h.resource id' r (resource_of_erase hr), hscanout⟩
  | backed sg hr hsg =>
    obtain ⟨hid, hwidth, hheight, -, hpixels, hsize⟩ := h.resource _ _ hr
    exact h.insert ⟨hid, hwidth, hheight, hsg, hpixels, hsize⟩
  | bound _ => exact ⟨h.resource, hscanout⟩
  | @drawn id r pixels presented hr hlen =>
    obtain ⟨hid, hwidth, hheight, hbacking, hpixels, hsize⟩ := h.resource id r hr
    have hput : Formed id { r with pixels := pixels } :=
      ⟨hid, hwidth, hheight, hbacking, hlen.trans hpixels, hsize⟩
    obtain ⟨hresource, -⟩ := h.insert hput
    exact ⟨hresource, hscanout⟩

theorem restoreJson_cases (gpu : VirtioGpu) (v : Value) :
    (∃ msg, gpu.restoreJson v = (gpu, .error msg)) ∨
      ∃ resources scanoutRes,
        gpu.restoreJson v =
          ({ gpu with resources := resources, scanoutRes := scanoutRes }, .ok ()) ∧
        (∀ id r, resources.lookup id = some r → Formed id r) ∧
        (scanoutRes = 0 ∨ (resources.lookup scanoutRes).isSome = true) := by
  unfold restoreJson
  cases v.arrayField "resources" "gpu: missing resources" with
  | error msg => exact .inl ⟨msg, rfl⟩
  | ok arr =>
    dsimp only
    cases hes : resourcesOf arr ∅ with
    | error msg => exact .inl ⟨msg, rfl⟩
    | ok resources =>
      cases v.u64Field "scanout_res" "gpu: missing scanout_res" with
      | error msg => exact .inl ⟨msg, rfl⟩
      | ok scanoutRes =>
        by_cases hmissing : scanoutRes % 2 ^ 32 ≠ 0 ∧
            (resources.lookup (scanoutRes % 2 ^ 32)).isNone = true
        · exact .inl ⟨_, if_pos hmissing⟩
        refine .inr ⟨resources, scanoutRes % 2 ^ 32, if_neg hmissing,
          resourcesOf_ok hes fun id r hr => ?_, ?_⟩
        · cases hr
        · rw [not_and_or, not_not, Bool.not_eq_true, isNone_eq_false_iff] at hmissing
          exact hmissing

theorem Tabled.restoreJson (h : gpu.Tabled) (v : Value) :
    (gpu.restoreJson v).1.Tabled := by
  rcases restoreJson_cases gpu v with ⟨msg, hv⟩ | ⟨resources, scanoutRes, hv, hformed, hscanout⟩
  · rw [hv]
    exact h
  · rw [hv]
    exact ⟨hformed, hscanout⟩

/-! ### The values that a snapshot has

`restore` of the records of a snapshot is this one on the values that `save` writes for them. -/

def recordJson (e : ResourceRecord) : Value :=
  .object [("id", .ofNat e.id), ("format", .ofNat e.format), ("width", .ofNat e.width),
    ("height", .ofNat e.height),
    ("backing", .array (e.backing.map fun seg =>
      .object [("gpa", .ofNat seg.1), ("len", .ofNat seg.2)]))]

def stateJson (es : List ResourceRecord) (scanoutRes : Nat) : Value :=
  .object [("resources", .array (es.map recordJson)), ("scanout_res", .ofNat scanoutRes)]

/-- A record whose numbers fit the words that they are saved from. -/
structure Worded (e : ResourceRecord) : Prop where
  id : e.id < 2 ^ 32
  format : e.format < 2 ^ 32
  width : e.width < 2 ^ 32
  height : e.height < 2 ^ 32
  backing : ∀ seg ∈ e.backing, seg.1 < 2 ^ 64 ∧ seg.2 < 2 ^ 32

theorem resourceOf_recordJson {e : ResourceRecord} (h : Worded e) : resourceOf (recordJson e) =
    if MAX_RESOURCE_BYTES < e.width * e.height * 4 then
      .error "gpu: restored resource size invalid"
    else .ok (e.id, ⟨e.format, e.width, e.height, e.backing,
      replicate (e.width * e.height * 4) 0⟩) := by
  have hwide : ∀ {n : Nat}, n < 2 ^ 32 → n < 2 ^ 64 := fun hn => Nat.lt_trans hn (by decide)
  have hsegs : (e.backing.map fun seg : Nat × Nat =>
      Value.object [("gpa", .ofNat seg.1), ("len", .ofNat seg.2)]).mapM segmentOf =
        .ok e.backing := by
    rw [mapM_map]
    refine (mapM_ok fun seg hseg => ?_).trans (congrArg _ (map_id _))
    obtain ⟨hgpa, hlen⟩ := h.backing seg hseg
    show segmentOf (Value.object [("gpa", .ofNat seg.1), ("len", .ofNat seg.2)]) = .ok seg
    unfold segmentOf
    rw [Value.u64Field_of_get rfl hgpa, Value.u64Field_of_get rfl (hwide hlen)]
    show Except.ok (seg.1, seg.2 % 2 ^ 32) = Except.ok seg
    rw [Nat.mod_eq_of_lt hlen]
  unfold resourceOf
  rw [Value.u64Field_of_get (n := e.id) rfl (hwide h.id),
    Value.u64Field_of_get (n := e.format) rfl (hwide h.format),
    Value.u64Field_of_get (n := e.width) rfl (hwide h.width),
    Value.u64Field_of_get (n := e.height) rfl (hwide h.height), Value.arrayField_of_get rfl]
  dsimp only [bind, Except.bind]
  rw [hsegs, Nat.mod_eq_of_lt h.id, Nat.mod_eq_of_lt h.format, Nat.mod_eq_of_lt h.width,
    Nat.mod_eq_of_lt h.height]
  rfl

/-- **Of a snapshot's values, `restore` makes what it makes of the records.** -/
theorem restoreJson_stateJson (gpu : VirtioGpu) {es : List ResourceRecord} {scanoutRes : Nat}
    (hes : ∀ e ∈ es, Worded e) (hscanout : scanoutRes < 2 ^ 32) :
    gpu.restoreJson (stateJson es scanoutRes) =
      match gpu.restore (.gpu es scanoutRes) with
      | .ok gpu' => (gpu', .ok ())
      | .error msg => (gpu, .error msg) := by
  have htable : ∀ {es : List ResourceRecord} (resources : AssocMap Nat Resource2D),
      (∀ e ∈ es, Worded e) →
      resourcesOf (es.map recordJson) resources = restoreResources es resources := by
    intro es
    induction es with
    | nil => exact fun resources _ => rfl
    | cons e es ih =>
      intro resources hes
      rw [map_cons]
      unfold resourcesOf restoreResources
      rw [resourceOf_recordJson (hes e mem_cons_self)]
      by_cases hbig : MAX_RESOURCE_BYTES < e.width * e.height * 4
      · rw [if_pos hbig, if_pos hbig]
      · rw [if_neg hbig, if_neg hbig]
        exact ih _ fun e' he' => hes e' (mem_cons_of_mem _ he')
  have harr : (stateJson es scanoutRes).arrayField "resources" "gpu: missing resources" =
      .ok (es.map recordJson) := Value.arrayField_of_get rfl
  have hbound : (stateJson es scanoutRes).u64Field "scanout_res" "gpu: missing scanout_res" =
      .ok scanoutRes := Value.u64Field_of_get rfl (Nat.lt_trans hscanout (by decide))
  unfold restoreJson restore
  rw [harr, hbound]
  dsimp only
  rw [htable ∅ hes, Nat.mod_eq_of_lt hscanout]
  cases restoreResources es ∅ with
  | error msg => rfl
  | ok resources =>
    dsimp only
    split <;> rfl

theorem restoreJson_stateJson_one : ∃ gpu, (new 8 8).restoreJson
    (stateJson [⟨1, 1, 2, 2, [(0x40000000, 16)]⟩] 1) = (gpu, .ok ()) := by
  rw [restoreJson_stateJson (new 8 8) (forall_mem_singleton.mpr ⟨by decide, by decide, by decide,
    by decide, forall_mem_singleton.mpr (by decide)⟩) (by decide)]
  exact ⟨_, rfl⟩

/-! ## The operations of a request -/

/-- An operation with its exact result: on integers of a width (a `usize` is a `u64`), or a slice of
`n` bytes at `off` out of a buffer of `len`. -/
inductive Op where
  | u32 (v : Int)
  | u64 (v : Int)
  | slice (off n len : Nat)
  deriving DecidableEq

namespace Op

def Fits : Op → Prop
  | .u32 v => 0 ≤ v ∧ v < 2 ^ 32
  | .u64 v => 0 ≤ v ∧ v < 2 ^ 64
  | .slice .. => True

def InBounds : Op → Prop
  | .slice off n len => off + n ≤ len
  | _ => True

def Safe (op : Op) : Prop := op.Fits ∧ op.InBounds

end Op

/-- `le32` and `le64` in a buffer of `len` bytes: where each number is, and its size. -/
def fieldOps (len : Nat) (fields : List (Nat × Nat)) : List Op :=
  fields.flatMap fun field =>
    [.u64 ((field.1 + field.2 : Nat) : Int), .slice field.1 field.2 len]

/-- The loop of `read_backing` for an output of `len` bytes. -/
def backingOps (start len : Nat) : List (Nat × Nat) → Nat → Nat → List Op
  | [], _, _ => []
  | (_, segLen) :: sg, segBase, outOff =>
    if len ≤ outOff ∨ 2 ^ 64 ≤ start + outOff then []
    else
      let segEnd := min (segBase + segLen) (2 ^ 64 - 1)
      let cur := start + outOff
      if segBase ≤ cur ∧ cur < segEnd then
        let inside := cur - segBase
        let n := min (len - outOff) (segLen - inside)
        [.u64 (cur - segBase : Int), .u64 (segLen - inside : Int), .u64 (len - outOff : Int),
          .u64 (outOff + n), .slice outOff n len, .u64 (outOff + n)] ++
          backingOps start len sg segEnd (outOff + n)
      else backingOps start len sg segEnd outOff

/-- One row of `VirtioGpu::transfer_2d`. -/
def rowOps (r : Resource2D) (offset rx rowW y : Nat) : List Op :=
  let at_ := (y * r.width + rx) * 4
  [.u64 (y * r.width), .u64 (y * r.width + rx), .u64 at_] ++
    if 2 ^ 64 ≤ offset + at_ then []
    else
      [.u64 (y * r.width), .u64 (y * r.width + rx), .u64 at_, .u64 (rowW * 4),
        .u64 (at_ + rowW * 4), .slice at_ (rowW * 4) r.pixels.length] ++
        backingOps (offset + at_) (rowW * 4) r.backing 0 0

/-- `VirtioGpu::transfer_2d` -/
def transfer2dOps (gpu : VirtioGpu) (body : Bytes) : List Op :=
  if body.length < 32 then []
  else
    let rx := le32 body 0
    let ry := le32 body 4
    fieldOps body.length [(0, 4), (4, 4), (8, 4), (12, 4), (16, 8), (24, 4)] ++
      match gpu.resource (le32 body 24) with
      | none => []
      | some r =>
        let xEnd := min (min (rx + le32 body 8) (2 ^ 32 - 1)) r.width
        let yEnd := min (min (ry + le32 body 12) (2 ^ 32 - 1)) r.height
        if r.width ≤ rx ∨ r.height ≤ ry then []
        else
          .u32 (xEnd - rx : Int) ::
            (range' ry (yEnd - ry)).flatMap (rowOps r (le64 body 16) rx (xEnd - rx))

/-- `VirtioGpu::create_2d` -/
def create2dOps (body : Bytes) : List Op :=
  if body.length < 16 then []
  else
    fieldOps body.length [(0, 4), (4, 4), (8, 4), (12, 4)]

/-- `VirtioGpu::unref` and `VirtioGpu::detach_backing` -/
def idOps (body : Bytes) : List Op := if body.length < 4 then [] else fieldOps body.length [(0, 4)]

/-- `VirtioGpu::attach_backing` -/
def attachBackingOps (body : Bytes) : List Op :=
  if body.length < 8 then []
  else
    let nr := min (le32 body 4) ((body.length - 8) / 16)
    fieldOps body.length [(0, 4), (4, 4)] ++ (List.range nr).flatMap fun i =>
      let off := 8 + i * 16
      [.u64 (i * 16), .u64 off, .u64 (off + 16), .u64 (off + 8)] ++
        fieldOps body.length [(off, 8), (off + 8, 4)]

/-- `VirtioGpu::set_scanout` -/
def setScanoutOps (body : Bytes) : List Op :=
  if body.length < 24 then [] else fieldOps body.length [(20, 4)]

def rereadOps (r : Resource2D) : List Op :=
  .slice 0 r.pixels.length r.pixels.length :: backingOps 0 r.pixels.length r.backing 0 0

def presentOps (r : Resource2D) : List Op := rereadOps r ++ [.u32 (r.width * 4)]

/-- The resource that a flush presents. -/
def flushed (gpu : VirtioGpu) (body : Bytes) : Option Resource2D :=
  if le32 body 16 ≠ 0 ∧ le32 body 16 = gpu.scanoutRes then gpu.resource (le32 body 16) else none

/-- `VirtioGpu::flush` -/
def flushOps (gpu : VirtioGpu) (body : Bytes) : List Op :=
  if body.length < 20 then []
  else
    fieldOps body.length [(0, 4), (4, 4), (8, 4), (12, 4), (16, 4)] ++
      (gpu.flushed body).elim [] presentOps

/-- The commands of `VirtioGpu::dispatch`. -/
def commandOps (gpu : VirtioGpu) (cmd : Nat) (body : Bytes) : List Op :=
  if cmd = GET_DISPLAY_INFO then []
  else if cmd = RESOURCE_CREATE_2D then create2dOps body
  else if cmd = RESOURCE_UNREF then idOps body
  else if cmd = RESOURCE_ATTACH_BACKING then attachBackingOps body
  else if cmd = RESOURCE_DETACH_BACKING then idOps body
  else if cmd = SET_SCANOUT then setScanoutOps body
  else if cmd = TRANSFER_TO_HOST_2D then gpu.transfer2dOps body
  else if cmd = RESOURCE_FLUSH then gpu.flushOps body
  else []

/-- `VirtioGpu::dispatch` -/
def dispatchOps (gpu : VirtioGpu) (req : Bytes) (mem : GuestRam) : List Op :=
  if req.length < CTRL_HDR_LEN then []
  else
    let body := req.drop CTRL_HDR_LEN
    let resp := (gpu.command (le32 req 0) body mem (le64 req 8) (le32 req 16)).2
    fieldOps req.length [(0, 4), (4, 4), (8, 8), (16, 4)] ++
      [.slice CTRL_HDR_LEN (req.length - CTRL_HDR_LEN) req.length] ++
      gpu.commandOps (le32 req 0) body ++
      if le32 req 4 % 2 = 1 ∧ CTRL_HDR_LEN ≤ resp.length then [.slice 4 4 resp.length] else []

/-- `VirtioGpu::present_scanout` -/
def presentScanoutOps (gpu : VirtioGpu) : List Op :=
  if gpu.scanoutRes = 0 then [] else (gpu.resource gpu.scanoutRes).elim [] presentOps

/-! ### All but one are safe -/

def AllSafe (ops : List Op) : Prop := ∀ op ∈ ops, op.Safe

theorem allSafe_nil : AllSafe [] := fun _ h => absurd h not_mem_nil

theorem allSafe_cons {op : Op} {ops : List Op} : AllSafe (op :: ops) ↔ op.Safe ∧ AllSafe ops :=
  forall_mem_cons

theorem allSafe_append {ops ops' : List Op} :
    AllSafe (ops ++ ops') ↔ AllSafe ops ∧ AllSafe ops' := forall_mem_append

theorem allSafe_flatMap {α : Type} {l : List α} {f : α → List Op} :
    AllSafe (l.flatMap f) ↔ ∀ a ∈ l, AllSafe (f a) := by
  constructor
  · exact fun h a ha op hop => h op (mem_flatMap.mpr ⟨a, ha, hop⟩)
  · intro h op hop
    obtain ⟨a, ha, hop⟩ := mem_flatMap.mp hop
    exact h a ha op hop

theorem Op.safe_u64 (h : n < 2 ^ 64) : (Op.u64 n).Safe :=
  ⟨⟨Int.natCast_nonneg n, by omega⟩, trivial⟩

theorem Op.safe_slice (h : off + n ≤ len) : (Op.slice off n len).Safe :=
  ⟨trivial, h⟩

theorem fieldOps_safe {fields : List (Nat × Nat)} {n : Nat}
    (hfields : ∀ field ∈ fields, field.1 + field.2 ≤ n) (hn : n ≤ len) (hlen : len < 2 ^ 63) :
    AllSafe (fieldOps len fields) := by
  refine allSafe_flatMap.mpr fun field hfield => ?_
  have hle : field.1 + field.2 ≤ len := (hfields field hfield).trans hn
  refine allSafe_cons.mpr ⟨Op.safe_u64 (by omega), ?_⟩
  exact allSafe_cons.mpr ⟨Op.safe_slice hle, allSafe_nil⟩

theorem backingOps_safe {start : Nat} (hlen : len < 2 ^ 63) :
    ∀ {sg : List (Nat × Nat)} (segBase outOff : Nat), (∀ seg ∈ sg, seg.2 < 2 ^ 32) →
    AllSafe (backingOps start len sg segBase outOff)
  | [], _, _, _ => allSafe_nil
  | (gpa, segLen) :: sg, segBase, outOff, hsg => by
    have hseg : segLen < 2 ^ 32 := hsg _ mem_cons_self
    have htail : ∀ seg ∈ sg, seg.2 < 2 ^ 32 := fun seg h => hsg seg (mem_cons_of_mem _ h)
    unfold backingOps
    split
    · exact allSafe_nil
    rename_i hroom
    dsimp only
    split
    next hin =>
      refine allSafe_append.mpr ⟨?_, backingOps_safe hlen _ _ htail⟩
      simp only [allSafe_cons]
      refine ⟨⟨⟨by omega, by omega⟩, trivial⟩, ⟨⟨by omega, by omega⟩, trivial⟩,
        ⟨⟨by omega, by omega⟩, trivial⟩, ⟨⟨by omega, by omega⟩, trivial⟩,
        Op.safe_slice (by omega), ⟨⟨by omega, by omega⟩, trivial⟩, allSafe_nil⟩
    · exact backingOps_safe hlen _ _ htail

section

variable {id : Nat} {r : Resource2D} (h : Formed id r)

include h

theorem rowOps_safe {offset rx rowW y : Nat} (hx : rx + rowW ≤ r.width) (hy : y < r.height) :
    AllSafe (rowOps r offset rx rowW y) := by
  have hrow : y * r.width + r.width ≤ r.width * r.height := by
    rw [← Nat.succ_mul, Nat.mul_comm r.width]
    exact Nat.mul_le_mul_right r.width hy
  have hsize := h.size
  have hpixels := h.pixels
  have hcap : MAX_RESOURCE_BYTES = 268435456 := rfl
  refine allSafe_append.mpr ⟨?_, ?_⟩
  · simp only [allSafe_cons]
    exact ⟨Op.safe_u64 (by omega : y * r.width < 2 ^ 64),
      Op.safe_u64 (by omega : y * r.width + rx < 2 ^ 64), Op.safe_u64 (by omega), allSafe_nil⟩
  · split
    · exact allSafe_nil
    · refine allSafe_append.mpr ⟨?_, backingOps_safe (by omega) 0 0 h.backing⟩
      simp only [allSafe_cons]
      exact ⟨Op.safe_u64 (by omega : y * r.width < 2 ^ 64),
        Op.safe_u64 (by omega : y * r.width + rx < 2 ^ 64), Op.safe_u64 (by omega),
        Op.safe_u64 (by omega : rowW * 4 < 2 ^ 64),
        Op.safe_u64 (by omega : (y * r.width + rx) * 4 + rowW * 4 < 2 ^ 64),
        Op.safe_slice (by omega), allSafe_nil⟩

theorem rereadOps_safe : AllSafe (rereadOps r) := by
  have hsize := h.size
  have hpixels := h.pixels
  have hcap : MAX_RESOURCE_BYTES = 268435456 := rfl
  refine allSafe_cons.mpr ⟨Op.safe_slice (by omega), ?_⟩
  exact backingOps_safe (by omega) 0 0 h.backing

end

section

variable {gpu : VirtioGpu} {body : Bytes} (hlen : body.length < 2 ^ 63)

include hlen

theorem create2dOps_safe : AllSafe (create2dOps body) := by
  unfold create2dOps
  split
  · exact allSafe_nil
  · exact fieldOps_safe (n := 16) (by decide) (by omega) hlen

theorem idOps_safe : AllSafe (idOps body) := by
  unfold idOps
  split
  · exact allSafe_nil
  · exact fieldOps_safe (n := 4) (by decide) (by omega) hlen

theorem attachBackingOps_safe : AllSafe (attachBackingOps body) := by
  unfold attachBackingOps
  split
  · exact allSafe_nil
  simp only [allSafe_append, allSafe_flatMap]
  refine ⟨fieldOps_safe (n := 8) (by decide) (by omega) hlen, fun i hi => ?_⟩
  -- the body has room for every entry that is read
  have hroom : 8 + i * 16 + 16 ≤ body.length := by
    have := mem_range.mp hi
    omega
  simp only [allSafe_cons]
  refine ⟨⟨Op.safe_u64 (by omega : i * 16 < 2 ^ 64), Op.safe_u64 (by omega : 8 + i * 16 < 2 ^ 64),
    Op.safe_u64 (by omega : 8 + i * 16 + 16 < 2 ^ 64),
    Op.safe_u64 (by omega : 8 + i * 16 + 8 < 2 ^ 64), allSafe_nil⟩, ?_⟩
  refine fieldOps_safe (n := 8 + i * 16 + 16) (forall_mem_cons.mpr ⟨?_, ?_⟩) hroom hlen
  · exact Nat.add_le_add_left (by decide : 8 ≤ 16) _
  · exact forall_mem_singleton.mpr (by omega)

theorem setScanoutOps_safe : AllSafe (setScanoutOps body) := by
  unfold setScanoutOps
  split
  · exact allSafe_nil
  · exact fieldOps_safe (n := 24) (by decide) (by omega) hlen

theorem transfer2dOps_safe (h : gpu.Tabled) : AllSafe (gpu.transfer2dOps body) := by
  unfold transfer2dOps
  split
  · exact allSafe_nil
  refine allSafe_append.mpr ⟨fieldOps_safe (n := 32) (by decide) (by omega) hlen, ?_⟩
  split
  · exact allSafe_nil
  rename_i r hr
  have hr := h.resource _ _ hr
  split
  · exact allSafe_nil
  rename_i hin
  have hword := le32_lt body 0
  refine allSafe_cons.mpr ⟨⟨⟨by omega, by omega⟩, trivial⟩, ?_⟩
  rw [allSafe_flatMap]
  intro y hy
  obtain ⟨hlo, hhi⟩ := mem_range'_1.mp hy
  exact rowOps_safe hr (by omega) (by omega)

theorem flushOps_cases (h : gpu.Tabled) {op : Op} (hop : op ∈ gpu.flushOps body) :
    op.Safe ∨ 20 ≤ body.length ∧ ∃ r, gpu.flushed body = some r ∧ op = .u32 (r.width * 4) := by
  unfold flushOps at hop
  split at hop
  · exact absurd hop not_mem_nil
  rename_i hshort
  rcases mem_append.mp hop with hop | hop
  · exact .inl (fieldOps_safe (n := 20) (by decide) (by omega) hlen op hop)
  cases hflushed : gpu.flushed body with
  | none =>
    rw [hflushed] at hop
    exact absurd hop not_mem_nil
  | some r =>
    rw [hflushed] at hop
    rcases mem_append.mp hop with hop | hop
    · unfold flushed at hflushed
      split at hflushed
      · exact .inl (rereadOps_safe (h.resource _ _ hflushed) op hop)
      · cases hflushed
    · exact .inr ⟨Nat.not_lt.mp hshort, r, rfl, mem_singleton.mp hop⟩

end

/-- The resource that a request presents. -/
def shown (gpu : VirtioGpu) (req : Bytes) : Option Resource2D :=
  if CTRL_HDR_LEN + 20 ≤ req.length ∧ le32 req 0 = RESOURCE_FLUSH then
    gpu.flushed (req.drop CTRL_HDR_LEN)
  else none

def scanned (gpu : VirtioGpu) : Option Resource2D :=
  if gpu.scanoutRes = 0 then none else gpu.resource gpu.scanoutRes

section

variable {gpu : VirtioGpu} (h : gpu.Tabled)

theorem commandOps_flush (gpu : VirtioGpu) (body : Bytes) :
    gpu.commandOps RESOURCE_FLUSH body = gpu.flushOps body := rfl

include h

variable {op : Op}

theorem commandOps_cases {cmd : Nat} {body : Bytes} (hlen : body.length < 2 ^ 63)
    (hop : op ∈ gpu.commandOps cmd body) :
    op.Safe ∨ cmd = RESOURCE_FLUSH ∧ 20 ≤ body.length ∧
      ∃ r, gpu.flushed body = some r ∧ op = .u32 (r.width * 4) := by
  unfold commandOps at hop
  split_ifs at hop with _ _ _ _ _ _ _ hflush
  · exact absurd hop not_mem_nil
  · exact .inl (create2dOps_safe hlen op hop)
  · exact .inl (idOps_safe hlen op hop)
  · exact .inl (attachBackingOps_safe hlen op hop)
  · exact .inl (idOps_safe hlen op hop)
  · exact .inl (setScanoutOps_safe hlen op hop)
  · exact .inl (transfer2dOps_safe hlen h op hop)
  · exact (flushOps_cases hlen h hop).imp id fun hr => ⟨hflush, hr⟩
  · exact absurd hop not_mem_nil

/-- **Of the operations of a request, only the stride of a frame may fail.** -/
theorem dispatchOps_cases {req : Bytes} (hlen : req.length < 2 ^ 63) {mem : GuestRam}
    (hop : op ∈ gpu.dispatchOps req mem) :
    op.Safe ∨ ∃ r, gpu.shown req = some r ∧ op = .u32 (r.width * 4) := by
  unfold dispatchOps at hop
  split at hop
  · exact absurd hop not_mem_nil
  rename_i hshort
  have hcap : CTRL_HDR_LEN = 24 := rfl
  rcases mem_append.mp hop with hop | hop
  · rcases mem_append.mp hop with hop | hop
    · rcases mem_append.mp hop with hop | hop
      · exact .inl (fieldOps_safe (n := 20) (by decide) (by omega) hlen op hop)
      · obtain rfl := mem_singleton.mp hop
        exact .inl (Op.safe_slice (by omega))
    · have hbody := length_drop (i := CTRL_HDR_LEN) (l := req)
      rcases commandOps_cases h (by omega) hop with hsafe | ⟨hflush, hroom, r, hr, rfl⟩
      · exact .inl hsafe
      · refine .inr ⟨r, ?_, rfl⟩
        unfold shown
        rw [if_pos ⟨by omega, hflush⟩, hr]
  · split at hop
    next hguard =>
      obtain rfl := mem_singleton.mp hop
      exact .inl (Op.safe_slice (by omega))
    · exact absurd hop not_mem_nil

omit h in
theorem stride_mem_dispatchOps {req : Bytes} {r : Resource2D} (hr : gpu.shown req = some r)
    (mem : GuestRam) : Op.u32 (r.width * 4) ∈ gpu.dispatchOps req mem := by
  unfold shown at hr
  split at hr
  next hflush =>
    have hbody := length_drop (i := CTRL_HDR_LEN) (l := req)
    unfold dispatchOps
    rw [if_neg (by omega)]
    refine mem_append_left _ (mem_append_right _ ?_)
    rw [hflush.2, commandOps_flush]
    unfold flushOps
    rw [if_neg (by omega), hr]
    exact mem_append_right _ (mem_append_right _ mem_cons_self)
  · cases hr

theorem presentScanoutOps_cases (hop : op ∈ gpu.presentScanoutOps) :
    op.Safe ∨ ∃ r, gpu.scanned = some r ∧ op = .u32 (r.width * 4) := by
  unfold presentScanoutOps at hop
  unfold scanned
  split at hop
  · exact absurd hop not_mem_nil
  rename_i hbound
  rw [if_neg hbound]
  cases hr : gpu.resource gpu.scanoutRes with
  | none =>
    rw [hr] at hop
    exact absurd hop not_mem_nil
  | some r =>
    rw [hr] at hop
    rcases mem_append.mp hop with hop | hop
    · exact .inl (rereadOps_safe (h.resource _ _ hr) op hop)
    · exact .inr ⟨r, rfl, mem_singleton.mp hop⟩

omit h in
theorem stride_mem_presentScanoutOps {r : Resource2D} (hr : gpu.scanned = some r) :
    Op.u32 (r.width * 4) ∈ gpu.presentScanoutOps := by
  unfold scanned at hr
  unfold presentScanoutOps
  split at hr
  · cases hr
  next hbound =>
    rw [if_neg hbound, hr]
    exact mem_append_right _ mem_cons_self

end

/-! ## Runs -/

/-- A request is a slice, which is never longer than `isize::MAX` bytes. -/
structure Request where
  bytes : Bytes
  short : bytes.length < 2 ^ 63

inductive Event where
  | request (req : Request) (mem : GuestRam)
  | presentScanout (mem : GuestRam)
  | restore (v : Value)

/-- A GPU, with the operations of all its requests. -/
structure Watched where
  gpu : VirtioGpu
  log : List Op

namespace Watched

def start (width height : UInt32) : Watched := ⟨new width.toNat height.toNat, []⟩

def step (s : Watched) : Event → Option Watched
  | .request req mem =>
    some ⟨(s.gpu.dispatch req.bytes mem).1, s.log ++ s.gpu.dispatchOps req.bytes mem⟩
  | .presentScanout mem => some ⟨s.gpu.presentScanout mem, s.log ++ s.gpu.presentScanoutOps⟩
  | .restore v => some ⟨(s.gpu.restoreJson v).1, s.log⟩

def presents (s : Watched) : Event → Option Resource2D
  | .request req _ => s.gpu.shown req.bytes
  | .presentScanout _ => s.gpu.scanned
  | .restore _ => none

def Calm (s : Watched) (e : Event) : Prop := ∀ r ∈ s.presents e, r.width < 2 ^ 30

instance (s : Watched) (e : Event) : Decidable (s.Calm e) :=
  inferInstanceAs (Decidable (∀ r ∈ s.presents e, r.width < 2 ^ 30))

variable {s s' : Watched} {e : Event}

theorem step_spec (h : s.gpu.Tabled) (hs : s.step e = some s') :
    s'.gpu.Tabled ∧ ∃ ops, s'.log = s.log ++ ops ∧
      (∀ op ∈ ops, op.Safe ∨ ∃ r, s.presents e = some r ∧ op = .u32 (r.width * 4)) ∧
      ∀ r, s.presents e = some r → Op.u32 (r.width * 4) ∈ ops := by
  cases e with
  | request req mem =>
    cases hs
    exact ⟨h.effect (dispatch_effect s.gpu mem req.bytes), _, rfl,
      fun op hop => dispatchOps_cases h req.short hop, fun r hr => stride_mem_dispatchOps hr mem⟩
  | presentScanout mem =>
    cases hs
    exact ⟨h.effect (presentScanout_effect s.gpu mem), _, rfl,
      fun op hop => presentScanoutOps_cases h hop, fun r hr => stride_mem_presentScanoutOps hr⟩
  | restore v =>
    cases hs
    refine ⟨h.restoreJson v, [], (append_nil _).symm, fun op hop => ?_, fun r hr => ?_⟩
    · exact absurd hop not_mem_nil
    · cases hr

theorem log_subset {ok : Watched → Event → Prop} {es : List Event} (h : s.gpu.Tabled)
    (hrun : Run step ok s es s') : s.log ⊆ s'.log := by
  induction hrun with
  | nil s => exact fun op hop => hop
  | cons _ hs _ ih =>
    obtain ⟨htabled, ops, hlog, -⟩ := step_spec h hs
    intro op hop
    refine ih htabled ?_
    rw [hlog]
    exact mem_append_left _ hop

/-- **The table's invariant**: after any requests and any attempts to restore a state, the scanout is
none or a resource, the pixels of every resource are as many as its dimensions ask for and at most
256 MiB, no request has taken a slice out of bounds, and a state that is turned down changes
nothing. -/
theorem table_invariant (width height : UInt32) (es : List Event) (s : Watched)
    (h : Run step (fun _ _ => True) (start width height) es s) :
    (s.gpu.scanoutRes = 0 ∨ ∃ r, s.gpu.resource s.gpu.scanoutRes = some r) ∧
      (∀ id r, s.gpu.resource id = some r → r.pixels.length = r.width * r.height * 4 ∧
        r.pixels.length ≤ MAX_RESOURCE_BYTES) ∧
      (∀ op ∈ s.log, op.InBounds) ∧
      ∀ v msg, (s.gpu.restoreJson v).2 = .error msg → (s.gpu.restoreJson v).1 = s.gpu := by
  have hstep : ∀ (s : Watched) (e : Event) (s' : Watched),
      (s.gpu.Tabled ∧ ∀ op ∈ s.log, op.InBounds) → True → s.step e = some s' →
      s'.gpu.Tabled ∧ ∀ op ∈ s'.log, op.InBounds := by
    rintro s e s' ⟨htabled, hlog⟩ - hs
    obtain ⟨htabled', ops, hlog', hops, -⟩ := step_spec htabled hs
    refine ⟨htabled', fun op hop => ?_⟩
    rw [hlog'] at hop
    rcases mem_append.mp hop with hop | hop
    · exact hlog op hop
    · rcases hops op hop with hsafe | ⟨r, -, rfl⟩
      · exact hsafe.2
      · trivial
  have hstart : (start width height).gpu.Tabled ∧ ∀ op ∈ (start width height).log, op.InBounds :=
    ⟨tabled_new _ _, fun op hop => absurd hop not_mem_nil⟩
  obtain ⟨htabled, hlog⟩ := h.invariant hstep hstart
  refine ⟨htabled.scanout.imp id isSome_iff_exists.mp, fun id r hr => ?_, hlog,
    fun v msg hmsg => ?_⟩
  · have hformed := htabled.resource id r hr
    exact ⟨hformed.pixels, hformed.pixels ▸ hformed.size⟩
  · rcases restoreJson_cases s.gpu v with ⟨msg', hv⟩ | ⟨resources, scanoutRes, hv, -, -⟩
    · rw [hv]
    · rw [hv] at hmsg
      cases hmsg

theorem table_invariant_after_restore : ∃ es s, es ≠ [] ∧
    Run step (fun _ _ => True) (start 1280 800) es s ∧ s.gpu.scanoutRes = 1 ∧
    ∃ r, s.gpu.resource 1 = some r ∧ r.pixels.length = r.width * r.height * 4 := by
  obtain ⟨s, hrun, hscanout, hsome⟩ : ∃ s, Run step (fun _ _ => True) (start 1280 800)
      [.restore (stateJson [⟨1, 1, 2, 2, [(0x40000000, 16)]⟩] 1), .restore (stateJson [] 1)] s ∧
        s.gpu.scanoutRes = 1 ∧ (s.gpu.resource 1).isSome := exists_run (by decide +kernel)
  obtain ⟨r, hr⟩ := isSome_iff_exists.mp hsome
  exact ⟨_, s, cons_ne_nil _ _, hrun, hscanout, r, hr,
    ((table_invariant 1280 800 _ s hrun).2.1 1 r hr).1⟩

theorem calm_of_fits {es : List Event} (h : s.gpu.Tabled) (hrun : Run step (fun _ _ => True) s es s')
    (hfits : ∀ op ∈ s'.log, op.Fits) : Run step Calm s es s' := by
  induction hrun with
  | nil s => exact .nil s
  | @cons s s₁ s' e es _ hs hrest ih =>
    obtain ⟨h₁, ops, hlog, -, hstride⟩ := step_spec h hs
    refine .cons (fun r hr => ?_) hs (ih h₁ hfits)
    -- a stride that was computed is in the log
    have hmem : Op.u32 (r.width * 4) ∈ s₁.log := by
      rw [hlog]
      exact mem_append_right _ (hstride r hr)
    obtain ⟨-, hlt⟩ := hfits _ (log_subset h₁ hrest hmem)
    omega

/-- **No operation on integers overflows in a run if and only if every frame that is presented is
less than `2 ^ 30` pixels wide.** -/
theorem arithmetic_fits_iff (width height : UInt32) (es : List Event) (s : Watched)
    (h : Run step (fun _ _ => True) (start width height) es s) :
    (∀ op ∈ s.log, op.Fits) ↔ Run step Calm (start width height) es s := by
  refine ⟨calm_of_fits (tabled_new _ _) h, fun hrun => ?_⟩
  have hstep : ∀ (s : Watched) (e : Event) (s' : Watched),
      (s.gpu.Tabled ∧ ∀ op ∈ s.log, op.Fits) → s.Calm e → s.step e = some s' →
      s'.gpu.Tabled ∧ ∀ op ∈ s'.log, op.Fits := by
    rintro s e s' ⟨htabled, hlog⟩ hcalm hs
    obtain ⟨htabled', ops, hlog', hops, -⟩ := step_spec htabled hs
    refine ⟨htabled', fun op hop => ?_⟩
    rw [hlog'] at hop
    rcases mem_append.mp hop with hop | hop
    · exact hlog op hop
    rcases hops op hop with hsafe | ⟨r, hr, rfl⟩
    · exact hsafe.1
    · have hwidth := hcalm r hr
      exact ⟨by omega, by omega⟩
  exact (hrun.invariant hstep ⟨tabled_new _ _, fun op hop => absurd hop not_mem_nil⟩).2

def requests (bs : List Bytes) : List Event :=
  bs.filterMap fun b =>
    if h : b.length < 2 ^ 63 then
      some (.request ⟨b, h⟩ ⟨0x40000000, List.replicate 64 0, GuestRam.bounded_blank⟩)
    else none

def flushOf (width height : Nat) : List Event :=
  requests
    [ask RESOURCE_CREATE_2D (leBytes 4 1 ++ leBytes 4 1 ++ leBytes 4 width ++ leBytes 4 height),
      ask SET_SCANOUT (List.replicate 20 0 ++ leBytes 4 1),
      ask RESOURCE_FLUSH (List.replicate 16 0 ++ leBytes 4 1 ++ leBytes 4 0)]

theorem stride_overflows : ∃ s, Run step (fun _ _ => True) (start 1280 800) (flushOf (2 ^ 30) 0) s ∧
    ¬ ∀ op ∈ s.log, op.Fits := by
  obtain ⟨s, hrun, hop⟩ : ∃ s, Run step (fun _ _ => True) (start 1280 800) (flushOf (2 ^ 30) 0) s ∧
      Op.u32 4294967296 ∈ s.log := exists_run (by decide +kernel)
  exact ⟨s, hrun, fun hfits => absurd (hfits _ hop).2 (by decide)⟩

theorem stride_fits_two : ∃ s, Run step (fun _ _ => True) (start 1280 800) (flushOf 2 2) s ∧
    ∀ op ∈ s.log, op.Fits := by
  obtain ⟨s, hrun, -⟩ : ∃ s, Run step Calm (start 1280 800) (flushOf 2 2) s ∧
      Op.u32 8 ∈ s.log := exists_run (by decide +kernel)
  have hplain := hrun.mono fun _ _ _ => trivial
  exact ⟨s, hplain, (arithmetic_fits_iff 1280 800 _ s hplain).mpr hrun⟩

end Watched

end VirtioGpu

end Ignition.Devices
