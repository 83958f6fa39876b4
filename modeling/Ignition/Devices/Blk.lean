import Ignition.Devices.Service

/-!
# virtio-blk

`VirtioBlk` of `crates/devices/src/virtio/blk.rs`. A request is a chain of a header, data
descriptors and a status descriptor, told apart by their place in the chain. The device
processes it against a host file and always answers with a status byte.

The file is its bytes and a list of faults: whether each coming operation fails, and for a
write after how many bytes.

Nothing here looks at the `writable` flag of a descriptor. `process_covered` bounds what a
request changes by the log of its writes, `process_log` says which descriptors those go to, and
`process_len` what is reported for them.
-/

namespace Ignition.Devices

open Paged Ignition.Vmm List

/-! ## The host file -/

structure HostFile where
  data : Bytes
  faults : List (Option Nat)
  deriving DecidableEq

namespace HostFile

def fault (f : HostFile) : Option Nat × HostFile :=
  match f.faults with
  | [] => (none, f)
  | x :: xs => (x, { f with faults := xs })

/-- `seek` and `read_exact`. Offsets are signed in the host's file interface. -/
def readExact (f : HostFile) (off n : Nat) : Option Bytes × HostFile :=
  let (x, f') := f.fault
  if x.isSome || 2 ^ 63 ≤ off || (n != 0 && f.data.length < off + n) then (none, f')
  else (some (slice f.data off n), f')

def put (f : HostFile) (off : Nat) (buf : Bytes) : HostFile :=
  if buf = [] then f
  else
    { f with
      data := copyInto (f.data ++ List.replicate (off + buf.length - f.data.length) 0) off buf }

/-- `seek` and `write_all` -/
def writeAll (f : HostFile) (off : Nat) (buf : Bytes) : Bool × HostFile :=
  let (x, f') := f.fault
  if 2 ^ 63 ≤ off then (false, f')
  else
    match x with
    | none => (true, f'.put off buf)
    | some n => (false, f'.put off (buf.take n))

def syncAll (f : HostFile) : Bool × HostFile :=
  let (x, f') := f.fault
  (x.isNone, f')

theorem length_readExact {f f' : HostFile} {off n : Nat} {buf : Bytes}
    (h : f.readExact off n = (some buf, f')) : buf.length = n := by
  unfold readExact at h
  dsimp only at h
  split at h
  · cases congrArg Prod.fst h
  rename_i hok
  obtain rfl := Option.some.inj (congrArg Prod.fst h)
  simp only [Bool.or_eq_true, Bool.and_eq_true, bne_iff_ne, ne_eq, decide_eq_true_eq, not_or,
    not_and, Nat.not_lt] at hok
  by_cases hn : n = 0
  · subst hn
    unfold slice
    rw [take_zero]
    rfl
  · exact length_slice (hok.2 hn)

end HostFile

/-! ## Requests -/

def SECTOR_SIZE : Nat := 512

def VIRTIO_BLK_T_IN : Nat := 0
def VIRTIO_BLK_T_OUT : Nat := 1
def VIRTIO_BLK_T_FLUSH : Nat := 4
def VIRTIO_BLK_T_GET_ID : Nat := 8

def VIRTIO_BLK_S_OK : UInt8 := 0
def VIRTIO_BLK_S_IOERR : UInt8 := 1
def VIRTIO_BLK_S_UNSUPP : UInt8 := 2

def DEVICE_ID : Bytes := "ignition-vda".toUTF8.toList

def MAX_DESC_LEN : Nat := 2 ^ 20

def saturatingAdd32 (a b : Nat) : Nat := min (a + b) (2 ^ 32 - 1)

def saturatingAdd64 (a b : Nat) : Nat := min (a + b) (2 ^ 64 - 1)

structure VirtioBlk where
  file : HostFile
  capacitySectors : Nat

namespace VirtioBlk

def new (file : HostFile) : VirtioBlk := ⟨file, file.data.length / SECTOR_SIZE⟩

/-- What the data part of a request comes to. -/
structure Outcome where
  file : HostFile
  mem : GuestRam
  status : UInt8
  written : Nat
  log : List (Desc × Nat)

/-- The loop of `VirtioBlk::read_to_guest`. -/
def readLoop (file : HostFile) (mem : GuestRam) (off written : Nat) : List Desc → Outcome
  | [] => ⟨file, mem, VIRTIO_BLK_S_OK, written, []⟩
  | d :: ds =>
    if MAX_DESC_LEN < d.len then ⟨file, mem, VIRTIO_BLK_S_IOERR, written, []⟩
    else
      match file.readExact off d.len with
      | (none, file') => ⟨file', mem, VIRTIO_BLK_S_IOERR, written, []⟩
      | (some buf, file') =>
        match mem.writeSlice d.addr buf with
        | (_, false) => ⟨file', mem, VIRTIO_BLK_S_IOERR, written, []⟩
        | (mem', true) =>
          let r := readLoop file' mem' (saturatingAdd64 off d.len) (saturatingAdd32 written d.len) ds
          { r with log := (d, d.len) :: r.log }

def readToGuest (file : HostFile) (mem : GuestRam) (data : List Desc) (sector : Nat) : Outcome :=
  if 2 ^ 64 ≤ sector * SECTOR_SIZE then ⟨file, mem, VIRTIO_BLK_S_IOERR, 0, []⟩
  else readLoop file mem (sector * SECTOR_SIZE) 0 data

/-- The loop of `VirtioBlk::write_from_guest`. -/
def writeLoop (mem : GuestRam) : HostFile → Nat → List Desc → HostFile × UInt8
  | file, _, [] => (file, VIRTIO_BLK_S_OK)
  | file, off, d :: ds =>
    if MAX_DESC_LEN < d.len then (file, VIRTIO_BLK_S_IOERR)
    else
      match mem.readSlice d.addr d.len with
      | none => (file, VIRTIO_BLK_S_IOERR)
      | some buf =>
        match file.writeAll off buf with
        | (false, file') => (file', VIRTIO_BLK_S_IOERR)
        | (true, file') => writeLoop mem file' (saturatingAdd64 off d.len) ds

def writeFromGuest (file : HostFile) (mem : GuestRam) (data : List Desc) (sector : Nat) :
    HostFile × UInt8 :=
  if 2 ^ 64 ≤ sector * SECTOR_SIZE then (file, VIRTIO_BLK_S_IOERR)
  else writeLoop mem file (sector * SECTOR_SIZE) data

def idBytes (n : Nat) : Bytes :=
  DEVICE_ID.take n ++ List.replicate (n - DEVICE_ID.length) 0

def getId (file : HostFile) (mem : GuestRam) : List Desc → Outcome
  | [] => ⟨file, mem, VIRTIO_BLK_S_IOERR, 0, []⟩
  | d :: _ =>
    if MAX_DESC_LEN < d.len then ⟨file, mem, VIRTIO_BLK_S_IOERR, 0, []⟩
    else
      match mem.writeSlice d.addr (idBytes d.len) with
      | (mem', true) => ⟨file, mem', VIRTIO_BLK_S_OK, d.len, [(d, d.len)]⟩
      | (_, false) => ⟨file, mem, VIRTIO_BLK_S_IOERR, 0, []⟩

/-- The request types of `VirtioBlk::process`. -/
def request (file : HostFile) (mem : GuestRam) (data : List Desc) (hdr : Bytes) : Outcome :=
  let reqType := fromLeBytes (slice hdr 0 4)
  let sector := fromLeBytes (slice hdr 8 8)
  if reqType = VIRTIO_BLK_T_IN then readToGuest file mem data sector
  else if reqType = VIRTIO_BLK_T_OUT then
    let (file', status) := writeFromGuest file mem data sector
    ⟨file', mem, status, 0, []⟩
  else if reqType = VIRTIO_BLK_T_FLUSH then
    let (ok, file') := file.syncAll
    ⟨file', mem, if ok then VIRTIO_BLK_S_OK else VIRTIO_BLK_S_IOERR, 0, []⟩
  else if reqType = VIRTIO_BLK_T_GET_ID then getId file mem data
  else ⟨file, mem, VIRTIO_BLK_S_UNSUPP, 0, []⟩

/-- `VirtioBlk::set_status`, with what it adds to the log. -/
def setStatus (mem : GuestRam) (d : Desc) (status : UInt8) : GuestRam × List (Desc × Nat) :=
  match mem.writeSlice d.addr [status] with
  | (mem', true) => (mem', [(d, 1)])
  | (_, false) => (mem, [])

def readHeader (mem : GuestRam) (header : Desc) : Option Bytes :=
  if header.len < 16 then none else mem.readSlice header.addr 16

def process : Service VirtioBlk := fun blk mem chain =>
  match chain.descriptors with
  | header :: d :: ds =>
    let statusDesc := (d :: ds).getLast (cons_ne_nil d ds)
    let data := (d :: ds).dropLast
    match readHeader mem header with
    | none =>
      let (mem', log) := setStatus mem statusDesc VIRTIO_BLK_S_IOERR
      ⟨blk, mem', 1, log⟩
    | some hdr =>
      let o := request blk.file mem data hdr
      let (mem', log) := setStatus o.mem statusDesc o.status
      ⟨{ blk with file := o.file }, mem', o.written + 1, o.log ++ log⟩
  | _ => ⟨blk, mem, 0, []⟩

def configRead (blk : VirtioBlk) (offset : Nat) (data : Bytes) : Bytes :=
  serveConfig (leBytes 8 blk.capacitySectors) offset data

/-! ## What a request writes -/

theorem readLoop_covered (ds : List Desc) : ∀ (file : HostFile) (mem : GuestRam)
    (off written : Nat), GuestRam.ChangesIn (logged (readLoop file mem off written ds).log) mem
      (readLoop file mem off written ds).mem := by
  induction ds with
  | nil => exact fun _ mem _ _ => .refl _ mem
  | cons d ds ih =>
    intro file mem off written
    unfold readLoop
    split
    · exact .refl _ mem
    split
    · exact .refl _ mem
    rename_i buf file' hread
    have hw := GuestRam.changesIn_writeSlice mem d.addr buf
    rw [HostFile.length_readExact hread] at hw
    split
    · exact .refl _ mem
    next mem' heq =>
      rw [heq] at hw
      exact changesIn_logged_cons hw (ih _ _ _ _)

theorem length_idBytes (n : Nat) : (idBytes n).length = n := by
  unfold idBytes
  rw [length_append, length_take, length_replicate]
  omega

theorem getId_covered (file : HostFile) (mem : GuestRam) (ds : List Desc) :
    GuestRam.ChangesIn (logged (getId file mem ds).log) mem (getId file mem ds).mem := by
  cases ds with
  | nil => exact .refl _ mem
  | cons d ds =>
    dsimp only [getId]
    split
    · exact .refl _ mem
    have hw := GuestRam.changesIn_writeSlice mem d.addr (idBytes d.len)
    rw [length_idBytes] at hw
    split
    next mem' heq =>
      rw [heq] at hw
      exact changesIn_logged_cons hw (.refl _ mem')
    · exact .refl _ mem

theorem request_covered (file : HostFile) (mem : GuestRam) (data : List Desc) (hdr : Bytes) :
    GuestRam.ChangesIn (logged (request file mem data hdr).log) mem
      (request file mem data hdr).mem := by
  unfold request
  dsimp only
  split
  · unfold readToGuest
    split
    · exact .refl _ mem
    · exact readLoop_covered data _ _ _ _
  · split
    · exact .refl _ mem
    split
    · exact .refl _ mem
    split
    · exact getId_covered file mem data
    · exact .refl _ mem

theorem setStatus_covered (mem : GuestRam) (d : Desc) (status : UInt8) :
    GuestRam.ChangesIn (logged (setStatus mem d status).2) mem (setStatus mem d status).1 := by
  have hw := GuestRam.changesIn_writeSlice mem d.addr [status]
  unfold setStatus
  split
  next mem' heq =>
    rw [heq] at hw
    exact changesIn_logged_cons hw (.refl _ mem')
  · exact .refl _ mem

theorem logged_append (log log' : List (Desc × Nat)) :
    logged (log ++ log') = logged log ∪ logged log' := by
  ext x
  constructor
  · rintro ⟨w, hw, hx⟩
    rcases mem_append.mp hw with h | h
    · exact .inl ⟨w, h, hx⟩
    · exact .inr ⟨w, h, hx⟩
  · rintro (⟨w, hw, hx⟩ | ⟨w, hw, hx⟩)
    · exact ⟨w, mem_append_left _ hw, hx⟩
    · exact ⟨w, mem_append_right _ hw, hx⟩

/-- **The log of a request accounts for all it changes.** -/
theorem process_covered (blk : VirtioBlk) (mem : GuestRam) (chain : DescChain) :
    GuestRam.ChangesIn (logged (process blk mem chain).log) mem (process blk mem chain).mem := by
  unfold process
  split
  next header d ds _ =>
    split
    · exact setStatus_covered mem _ _
    rename_i hdr _
    rw [logged_append]
    exact ((request_covered blk.file mem _ hdr).mono Set.subset_union_left).trans
      ((setStatus_covered _ _ _).mono Set.subset_union_right)
  · exact .refl _ mem

/-! ## Which descriptors are filled -/

def fillable (mem : GuestRam) : HostFile → Nat → List Desc → List Desc
  | _, _, [] => []
  | file, off, d :: ds =>
    if d.len ≤ MAX_DESC_LEN ∧ (file.readExact off d.len).1.isSome = true ∧
        mem.contains d.addr d.len = true then
      d :: fillable mem (file.readExact off d.len).2 (saturatingAdd64 off d.len) ds
    else []

/-- The data descriptors a request fills. -/
def requestFills (file : HostFile) (mem : GuestRam) (data : List Desc) (hdr : Bytes) : List Desc :=
  let reqType := fromLeBytes (slice hdr 0 4)
  let sector := fromLeBytes (slice hdr 8 8)
  if reqType = VIRTIO_BLK_T_IN then
    if 2 ^ 64 ≤ sector * SECTOR_SIZE then [] else fillable mem file (sector * SECTOR_SIZE) data
  else if reqType = VIRTIO_BLK_T_GET_ID then
    data.head?.toList.filter fun d => d.len ≤ MAX_DESC_LEN && mem.contains d.addr d.len
  else []

def fills (blk : VirtioBlk) (mem : GuestRam) (chain : DescChain) : List Desc :=
  match chain.descriptors with
  | header :: d :: ds =>
    match readHeader mem header with
    | none => []
    | some hdr => requestFills blk.file mem (d :: ds).dropLast hdr
  | _ => []

def statusDesc (chain : DescChain) : Option Desc :=
  match chain.descriptors with
  | _ :: d :: ds => some ((d :: ds).getLast (cons_ne_nil d ds))
  | _ => none

def full (d : Desc) : Desc × Nat := (d, d.len)

theorem fillable_congr {W : Set Nat} {mem mem' : GuestRam} (hc : GuestRam.ChangesIn W mem mem')
    (ds : List Desc) : ∀ (file : HostFile) (off : Nat),
    fillable mem' file off ds = fillable mem file off ds := by
  induction ds with
  | nil => exact fun _ _ => rfl
  | cons d ds ih =>
    intro file off
    unfold fillable
    rw [hc.contains, ih]

theorem readLoop_eq (ds : List Desc) : ∀ (file : HostFile) (mem : GuestRam) (off written : Nat),
    written ≤ 2 ^ 32 - 1 →
    (readLoop file mem off written ds).log = (fillable mem file off ds).map full ∧
      (readLoop file mem off written ds).written =
        saturatingAdd32 written ((fillable mem file off ds).map Desc.len).sum := by
  induction ds with
  | nil =>
    intro file mem off written hw
    refine ⟨rfl, ?_⟩
    unfold readLoop fillable saturatingAdd32
    rw [map_nil, sum_nil]
    dsimp only
    omega
  | cons d ds ih =>
    intro file mem off written hw
    have hstop : (([] : List Desc).map full = []) ∧
        written = saturatingAdd32 written (([] : List Desc).map Desc.len).sum := by
      refine ⟨rfl, ?_⟩
      unfold saturatingAdd32
      rw [map_nil, sum_nil]
      omega
    unfold readLoop fillable
    split
    next hlong =>
      rw [if_neg (by omega)]
      exact ⟨hstop.1.symm, hstop.2⟩
    rename_i hshort
    split
    next file' hread =>
      rw [if_neg (by rw [hread]; exact fun h => nomatch h.2.1)]
      exact ⟨hstop.1.symm, hstop.2⟩
    rename_i buf file' hread
    have hlen := HostFile.length_readExact hread
    have hsnd := GuestRam.writeSlice_snd mem d.addr buf
    have hc := GuestRam.changesIn_writeSlice mem d.addr buf
    rw [hlen] at hsnd
    split
    next mem' heq =>
      rw [heq] at hsnd
      rw [if_neg (by rw [← hsnd]; exact fun h => nomatch h.2.2)]
      exact ⟨hstop.1.symm, hstop.2⟩
    next mem' heq =>
      rw [heq] at hsnd hc
      rw [if_pos ⟨by omega, by rw [hread]; rfl, hsnd.symm⟩, hread]
      obtain ⟨ihlog, ihwritten⟩ := ih file' mem' (saturatingAdd64 off d.len)
        (saturatingAdd32 written d.len) (Nat.min_le_right _ _)
      rw [fillable_congr hc] at ihlog ihwritten
      refine ⟨?_, ?_⟩
      · dsimp only
        rw [ihlog]
        rfl
      · dsimp only
        rw [ihwritten]
        unfold saturatingAdd32
        rw [map_cons, sum_cons]
        omega

theorem getId_eq (file : HostFile) (mem : GuestRam) (data : List Desc) :
    (getId file mem data).log =
        (data.head?.toList.filter fun d =>
          d.len ≤ MAX_DESC_LEN && mem.contains d.addr d.len).map full ∧
      (getId file mem data).written = saturatingAdd32 0
        ((data.head?.toList.filter fun d =>
          d.len ≤ MAX_DESC_LEN && mem.contains d.addr d.len).map Desc.len).sum := by
  cases data with
  | nil => exact ⟨rfl, rfl⟩
  | cons d ds =>
    have hsnd := GuestRam.writeSlice_snd mem d.addr (idBytes d.len)
    rw [length_idBytes] at hsnd
    dsimp only [getId, head?_cons, Option.toList_some]
    rw [filter_singleton]
    split
    next hlong =>
      rw [decide_eq_false (by omega), Bool.false_and]
      exact ⟨rfl, rfl⟩
    rename_i hshort
    rw [decide_eq_true (by omega), Bool.true_and, ← hsnd]
    split
    next mem' heq =>
      rw [heq]
      refine ⟨rfl, ?_⟩
      unfold MAX_DESC_LEN at hshort
      unfold saturatingAdd32
      dsimp only [cond_true]
      rw [map_singleton, sum_singleton]
      omega
    next mem' heq =>
      rw [heq]
      exact ⟨rfl, rfl⟩

theorem request_eq (file : HostFile) (mem : GuestRam) (data : List Desc) (hdr : Bytes) :
    (request file mem data hdr).log = (requestFills file mem data hdr).map full ∧
      (request file mem data hdr).written =
        saturatingAdd32 0 ((requestFills file mem data hdr).map Desc.len).sum := by
  unfold request requestFills
  dsimp only
  split
  · unfold readToGuest
    split
    · exact ⟨rfl, rfl⟩
    · exact readLoop_eq data file mem _ 0 (by decide)
  · split
    next hout =>
      have hne : fromLeBytes (slice hdr 0 4) ≠ VIRTIO_BLK_T_GET_ID := by rw [hout]; decide
      rw [if_neg hne]
      exact ⟨rfl, rfl⟩
    · split
      next hflush =>
        have hne : fromLeBytes (slice hdr 0 4) ≠ VIRTIO_BLK_T_GET_ID := by rw [hflush]; decide
        rw [if_neg hne]
        exact ⟨rfl, rfl⟩
      · split
        · exact getId_eq file mem data
        · exact ⟨rfl, rfl⟩

theorem setStatus_eq (mem : GuestRam) (d : Desc) (status : UInt8) :
    (setStatus mem d status).2 = if mem.contains d.addr 1 then [(d, 1)] else [] := by
  have hsnd : (mem.writeSlice d.addr [status]).2 = mem.contains d.addr 1 :=
    GuestRam.writeSlice_snd mem d.addr [status]
  unfold setStatus
  split
  next mem' heq =>
    rw [heq] at hsnd
    rw [if_pos hsnd.symm]
  next heq =>
    rw [heq] at hsnd
    rw [if_neg (by rw [← hsnd]; exact Bool.false_ne_true)]

def statusLog (mem : GuestRam) (chain : DescChain) : List (Desc × Nat) :=
  match statusDesc chain with
  | some d => if mem.contains d.addr 1 then [(d, 1)] else []
  | none => []

/-- **The log of a request**: the filled descriptors and the status byte. -/
theorem process_log (blk : VirtioBlk) (mem : GuestRam) (chain : DescChain) :
    (process blk mem chain).log = (fills blk mem chain).map full ++ statusLog mem chain := by
  unfold process fills statusLog statusDesc
  split
  next header d ds heq =>
    dsimp only
    split
    · exact setStatus_eq mem _ _
    next hdr _ =>
      rw [setStatus_eq, (request_covered blk.file mem _ hdr).contains, (request_eq _ _ _ _).1]
  · rfl

/-- **The length that is reported**: the filled descriptors, in saturating arithmetic, and one. -/
theorem process_len (blk : VirtioBlk) (mem : GuestRam) (chain : DescChain) :
    (process blk mem chain).len =
      if (statusDesc chain).isSome then
        saturatingAdd32 0 ((fills blk mem chain).map Desc.len).sum + 1
      else 0 := by
  unfold process fills statusDesc
  split
  next header d ds heq =>
    dsimp only
    split
    · rfl
    next hdr _ =>
      rw [(request_eq _ _ _ _).2]
      rfl
  · rfl

theorem mem_fillable {mem : GuestRam} : ∀ {ds : List Desc} {file : HostFile} {off : Nat} {d : Desc},
    d ∈ fillable mem file off ds → d ∈ ds
  | [], _, _, _, h => nomatch h
  | e :: ds, file, off, d, h => by
    unfold fillable at h
    split at h
    · rcases mem_cons.mp h with rfl | h'
      · exact mem_cons_self
      · exact mem_cons_of_mem _ (mem_fillable h')
    · cases h

theorem mem_fills {blk : VirtioBlk} {mem : GuestRam} {chain : DescChain} {d : Desc}
    (h : d ∈ fills blk mem chain) : d ∈ chain.descriptors := by
  unfold fills at h
  split at h
  next header d' ds heq =>
    rw [heq]
    have hdata : ∀ {e}, e ∈ (d' :: ds).dropLast → e ∈ header :: d' :: ds :=
      fun he => mem_cons_of_mem _ ((dropLast_sublist _).subset he)
    split at h
    · cases h
    rename_i hdr _
    unfold requestFills at h
    dsimp only at h
    split at h
    · split at h
      · cases h
      · exact hdata (mem_fillable h)
    · split at h
      · obtain ⟨hd, -⟩ := mem_filter.mp h
        exact hdata (mem_of_mem_head? (Option.mem_toList.mp hd))
      · cases h
  · cases h

theorem mem_of_statusDesc {chain : DescChain} {d : Desc} (h : statusDesc chain = some d) :
    d ∈ chain.descriptors := by
  unfold statusDesc at h
  split at h
  next header d' ds heq =>
    cases h
    rw [heq]
    exact mem_cons_of_mem _ (getLast_mem _)
  · cases h

end VirtioBlk

end Ignition.Devices
