import Ignition.Devices.BlkDisk

/-!
# The capacity of the block device

The device tells the guest a capacity, which is the length of the file in whole sectors, and does
not hold the guest to it. A read past the end of the file fails because the file does. A write past
the end makes the file longer, and succeeds (`write_grows_disk`). Where the file ends in a part of a
sector, a read gets at that part too.

So the length of the file and what is past the capacity are safe only from a guest that keeps its
writes within the capacity (`capacity_kept`). The host may report any errors here.
-/

namespace Ignition.Devices

open Paged Ignition.Vmm Runs List

/-! ## The file -/

namespace HostFile

theorem data_fault (f : HostFile) : f.fault.2.data = f.data := by
  unfold fault
  split <;> rfl

theorem data_readExact (f : HostFile) (off n : Nat) : (f.readExact off n).2.data = f.data := by
  unfold readExact
  dsimp only
  split <;> exact data_fault f

variable {f : HostFile} {off : Nat} {buf : Bytes}

theorem readExact_some {f' : HostFile} {n : Nat} (h : f.readExact off n = (some buf, f')) :
    off < 2 ^ 63 ∧ (n = 0 ∨ off + n ≤ f.data.length) := by
  unfold readExact at h
  dsimp only at h
  split at h
  · cases congrArg Prod.fst h
  rename_i hok
  simp only [Bool.or_eq_true, Bool.and_eq_true, bne_iff_ne, ne_eq, decide_eq_true_eq, not_or,
    not_and, Nat.not_lt, Nat.not_le] at hok
  exact ⟨hok.1.2, (Nat.eq_zero_or_pos n).imp_right fun hn => hok.2 (Nat.ne_of_gt hn)⟩

theorem length_put (h : buf = [] ∨ off + buf.length ≤ f.data.length) :
    (f.put off buf).data.length = f.data.length := by
  unfold put
  split
  · rfl
  rename_i hne
  have hfit := h.resolve_left hne
  have hgrow : off + buf.length - f.data.length = 0 := by omega
  rw [hgrow, replicate_zero, append_nil]
  exact length_copyInto hfit

theorem length_writeAll (h : buf = [] ∨ off + buf.length ≤ f.data.length) :
    (f.writeAll off buf).2.data.length = f.data.length := by
  have hdata := data_fault f
  unfold writeAll
  dsimp only
  split
  · rw [hdata]
  split
  · rw [length_put (by rw [hdata]; exact h), hdata]
  rename_i n _
  have hpart : buf.take n = [] ∨ off + (buf.take n).length ≤ f.data.length := by
    rcases h with rfl | h
    · exact .inl take_nil
    · rw [length_take]
      exact .inr (Nat.le_trans (Nat.add_le_add_left (Nat.min_le_right ..) off) h)
  rw [length_put (by rw [hdata]; exact hpart), hdata]

theorem writeAll_far (f : HostFile) (buf : Bytes) (h : 2 ^ 63 ≤ off) :
    (f.writeAll off buf).1 = false ∧ (f.writeAll off buf).2.data = f.data := by
  have hdata := data_fault f
  unfold writeAll
  dsimp only
  rw [if_pos h]
  exact ⟨rfl, hdata⟩

end HostFile

namespace VirtioBlk

/-! ## The loops -/

theorem data_readLoop (ds : List Desc) : ∀ (file : HostFile) (mem : GuestRam) (off written : Nat),
    (readLoop file mem off written ds).file.data = file.data := by
  induction ds with
  | nil => exact fun _ _ _ _ => rfl
  | cons d ds ih =>
    intro file mem off written
    have hread := file.data_readExact off d.len
    unfold readLoop
    split
    · rfl
    split
    next file' heq =>
      rw [heq] at hread
      exact hread
    rename_i buf file' heq
    rw [heq] at hread
    split
    · exact hread
    next mem' _ => exact (ih file' mem' _ _).trans hread

theorem readLoop_status (ds : List Desc) :
    ∀ (file : HostFile) (mem : GuestRam) (off written : Nat),
    ((readLoop file mem off written ds).status = VIRTIO_BLK_S_OK ∧
      (total ds = 0 ∨ off + total ds ≤ file.data.length)) ∨
    (readLoop file mem off written ds).status = VIRTIO_BLK_S_IOERR := by
  induction ds with
  | nil => exact fun _ _ _ _ => .inl ⟨rfl, .inl rfl⟩
  | cons d ds ih =>
    intro file mem off written
    have hdata := file.data_readExact off d.len
    rw [total_cons]
    unfold readLoop
    split
    · exact .inr rfl
    rename_i hshort
    split
    · exact .inr rfl
    rename_i buf file' heq
    obtain ⟨hoff, hfit⟩ := HostFile.readExact_some heq
    rw [heq] at hdata
    unfold MAX_DESC_LEN at hshort
    split
    · exact .inr rfl
    rename_i mem' _
    rw [saturatingAdd64_of_lt (by omega)]
    rcases ih file' mem' (off + d.len) (saturatingAdd32 written d.len) with
      ⟨hok, hrest⟩ | herr
    · rw [hdata] at hrest
      exact .inl ⟨hok, by omega⟩
    · exact .inr herr

variable {mem : GuestRam} {file : HostFile} {q : Addressed} {data : List Desc} {hdr : Bytes}
  {blk : VirtioBlk}

theorem length_writeLoop : ∀ {ds : List Desc} {file : HostFile} {off : Nat},
    total ds = 0 ∨ off + total ds ≤ file.data.length → file.data.length < 2 ^ 64 →
    (writeLoop mem file off ds).1.data.length = file.data.length
  | [], _, _, _, _ => rfl
  | d :: ds, file, off, h, hsize => by
    rw [total_cons] at h
    unfold writeLoop
    split
    · rfl
    split
    · rfl
    rename_i buf hbuf
    have hlen := GuestRam.length_readSlice hbuf
    have hfits : buf = [] ∨ off + buf.length ≤ file.data.length := by
      rcases h with h | h
      · exact .inl (eq_nil_of_length_eq_zero (by omega))
      · exact .inr (by omega)
    have hkept := HostFile.length_writeAll hfits
    split
    next file' heq =>
      rw [heq] at hkept
      exact hkept
    rename_i file' heq
    rw [heq] at hkept
    dsimp only at hkept
    refine (length_writeLoop ?_ (by omega)).trans hkept
    rcases h with h | h
    · exact .inl (by omega)
    · rw [saturatingAdd64_of_lt (by omega)]
      exact .inr (by omega)

theorem writeLoop_far {ds : List Desc} {off : Nat} (hoff : 2 ^ 63 ≤ off) (hne : ds ≠ []) :
    (writeLoop mem file off ds).2 = VIRTIO_BLK_S_IOERR ∧
      (writeLoop mem file off ds).1.data = file.data := by
  obtain ⟨d, ds, rfl⟩ := exists_cons_of_ne_nil hne
  unfold writeLoop
  split
  · exact ⟨rfl, rfl⟩
  split
  · exact ⟨rfl, rfl⟩
  rename_i buf _
  obtain ⟨hfail, hdata⟩ := HostFile.writeAll_far file buf hoff
  split
  next file' heq =>
    rw [heq] at hdata
    exact ⟨rfl, hdata⟩
  next file' heq =>
    rw [heq] at hfail
    cases hfail

/-! ## What a request addresses -/

/-- A range of the disk, to be read or to be written. -/
structure Addressed where
  out : Bool
  start : Nat
  len : Nat
  deriving DecidableEq

def addressed (mem : GuestRam) (chain : DescChain) : Option Addressed :=
  match chain.descriptors with
  | header :: d :: ds =>
    match readHeader mem header with
    | none => none
    | some hdr =>
      let start := fromLeBytes (slice hdr 8 8) * SECTOR_SIZE
      if fromLeBytes (slice hdr 0 4) = VIRTIO_BLK_T_IN then
        some ⟨false, start, total (d :: ds).dropLast⟩
      else if fromLeBytes (slice hdr 0 4) = VIRTIO_BLK_T_OUT then
        some ⟨true, start, total (d :: ds).dropLast⟩
      else none
  | _ => none

def Addressed.Beyond (q : Addressed) (blk : VirtioBlk) : Prop :=
  0 < q.len ∧ blk.capacitySectors * SECTOR_SIZE < q.start + q.len

instance (q : Addressed) (blk : VirtioBlk) : Decidable (q.Beyond blk) :=
  inferInstanceAs (Decidable (_ ∧ _))

/-- A write past the capacity is at an offset that the host cannot express, and a read past it is
past the end of the file, too: a file that ends inside a sector goes on after the capacity. -/
structure Stopped (blk : VirtioBlk) (q : Addressed) : Prop where
  write : q.out = true → q.Beyond blk → 2 ^ 63 ≤ q.start
  read : q.out = false → q.Beyond blk → blk.file.data.length < q.start + q.len

theorem addressed_parts {chain : DescChain} (h : addressed mem chain = some q) :
    ∃ header data status hdr,
      chain.descriptors = header :: (data ++ [status]) ∧ readHeader mem header = some hdr ∧
      statusDesc chain = some status ∧ q.len = total data ∧
      q.start = fromLeBytes (slice hdr 8 8) * SECTOR_SIZE ∧
      fromLeBytes (slice hdr 0 4) = if q.out then VIRTIO_BLK_T_OUT else VIRTIO_BLK_T_IN := by
  unfold addressed at h
  unfold statusDesc
  cases hchain : chain.descriptors with
  | nil =>
    rw [hchain] at h
    cases h
  | cons header rest =>
    cases rest with
    | nil =>
      rw [hchain] at h
      cases h
    | cons d ds =>
      rw [hchain] at h
      dsimp only at h
      cases hhdr : readHeader mem header with
      | none =>
        rw [hhdr] at h
        cases h
      | some hdr =>
        rw [hhdr] at h
        dsimp only at h
        refine ⟨header, (d :: ds).dropLast, _, hdr, ?_, hhdr, rfl, ?_⟩
        · rw [dropLast_append_getLast]
        · split at h
          next htype =>
            cases h
            exact ⟨rfl, rfl, htype⟩
          · split at h
            next htype =>
              cases h
              exact ⟨rfl, rfl, htype⟩
            · cases h

theorem request_read (htype : fromLeBytes (slice hdr 0 4) = VIRTIO_BLK_T_IN) :
    request file mem data hdr = readToGuest file mem data (fromLeBytes (slice hdr 8 8)) := by
  exact if_pos htype

theorem request_write (htype : fromLeBytes (slice hdr 0 4) = VIRTIO_BLK_T_OUT) :
    request file mem data hdr =
      ⟨(writeFromGuest file mem data (fromLeBytes (slice hdr 8 8))).1, mem,
        (writeFromGuest file mem data (fromLeBytes (slice hdr 8 8))).2, 0, []⟩ := by
  unfold request
  rw [htype]
  exact (if_neg (by decide)).trans (if_pos rfl)

theorem refused (mem : GuestRam)
    (hlen : q.len = total data) (hstart : q.start = fromLeBytes (slice hdr 8 8) * SECTOR_SIZE)
    (htype : fromLeBytes (slice hdr 0 4) = if q.out then VIRTIO_BLK_T_OUT else VIRTIO_BLK_T_IN)
    (hstop : Stopped blk q) (hbeyond : q.Beyond blk) :
    (request blk.file mem data hdr).status = VIRTIO_BLK_S_IOERR ∧
      (request blk.file mem data hdr).file.data = blk.file.data := by
  cases hout : q.out with
  | true =>
    rw [hout, if_pos rfl] at htype
    rw [request_write htype]
    unfold writeFromGuest
    have hne : data ≠ [] := by
      rintro rfl
      exact absurd hbeyond.1 (by rw [hlen]; exact Nat.lt_irrefl 0)
    have hfar := hstop.write hout hbeyond
    split
    · exact ⟨rfl, rfl⟩
    · rw [hstart] at hfar
      exact writeLoop_far hfar hne
  | false =>
    rw [hout, if_neg Bool.false_ne_true] at htype
    rw [request_read htype]
    unfold readToGuest
    have hend := hstop.read hout hbeyond
    have hpos := hbeyond.1
    split
    · exact ⟨rfl, rfl⟩
    refine ⟨?_, data_readLoop ..⟩
    rcases readLoop_status data blk.file mem (fromLeBytes (slice hdr 8 8) * SECTOR_SIZE) 0 with
      ⟨-, hfits⟩ | herr
    · omega
    · exact herr

theorem length_request (hlen : q.len = total data)
    (hstart : q.start = fromLeBytes (slice hdr 8 8) * SECTOR_SIZE)
    (htype : fromLeBytes (slice hdr 0 4) = if q.out then VIRTIO_BLK_T_OUT else VIRTIO_BLK_T_IN)
    (hcap : blk.capacitySectors * SECTOR_SIZE ≤ blk.file.data.length)
    (hsize : blk.file.data.length < 2 ^ 63) (hwithin : ¬ q.Beyond blk) :
    (request blk.file mem data hdr).file.data.length = blk.file.data.length := by
  cases hout : q.out with
  | true =>
    rw [hout, if_pos rfl] at htype
    rw [request_write htype]
    unfold writeFromGuest
    split
    · rfl
    refine length_writeLoop ?_ (by omega)
    unfold Addressed.Beyond at hwithin
    omega
  | false =>
    rw [hout, if_neg Bool.false_ne_true] at htype
    rw [request_read htype]
    unfold readToGuest
    split
    · rfl
    · rw [data_readLoop]

theorem data_request_other (hread : ¬ fromLeBytes (slice hdr 0 4) = VIRTIO_BLK_T_IN)
    (hwrite : ¬ fromLeBytes (slice hdr 0 4) = VIRTIO_BLK_T_OUT) :
    (request file mem data hdr).file.data = file.data := by
  unfold request
  rw [if_neg hread, if_neg hwrite]
  split
  · exact HostFile.data_fault file
  split
  · unfold getId
    repeat' split
    all_goals rfl
  · rfl

theorem data_process_of_none {chain : DescChain} (h : addressed mem chain = none) :
    (process blk mem chain).dev.file.data = blk.file.data := by
  unfold addressed at h
  cases hchain : chain.descriptors with
  | nil =>
    unfold process
    rw [hchain]
  | cons header rest =>
    cases rest with
    | nil =>
      unfold process
      rw [hchain]
    | cons d ds =>
      rw [hchain] at h
      dsimp only at h
      cases hhdr : readHeader mem header with
      | none =>
        unfold process
        rw [hchain]
        dsimp only
        rw [hhdr]
      | some hdr =>
        rw [hhdr] at h
        dsimp only at h
        split at h
        · cases h
        rename_i hread
        split at h
        · cases h
        rename_i hwrite
        have hparts : chain.descriptors = header :: ((d :: ds).dropLast ++
            [(d :: ds).getLast (cons_ne_nil d ds)]) := by
          rw [hchain, dropLast_append_getLast]
        rw [(process_eq blk hparts hhdr).1]
        exact data_request_other hread hwrite

theorem capacity_process (blk : VirtioBlk) (mem : GuestRam) (chain : DescChain) :
    (process blk mem chain).dev.capacitySectors = blk.capacitySectors := by
  unfold process
  repeat' split
  all_goals rfl

/-! ## Runs -/

/-- A device with the memory of its guest. -/
structure Attached where
  blk : VirtioBlk
  mem : GuestRam

namespace Attached

inductive Action where
  | guest (mem : GuestRam)
  | request (chain : DescChain)

def step (s : Attached) : Action → Option Attached
  | .guest mem => some { s with mem := mem }
  | .request chain =>
    let p := process s.blk s.mem chain
    some ⟨p.dev, p.mem⟩

def Confined (s : Attached) : Action → Prop
  | .guest _ => True
  | .request chain => ∀ q ∈ addressed s.mem chain, Stopped s.blk q

structure Whole (file : HostFile) (s : Attached) : Prop where
  capacity : s.blk.capacitySectors = file.data.length / SECTOR_SIZE
  length : s.blk.file.data.length = file.data.length

theorem Whole.step {file : HostFile} {s s' : Attached} {a : Action} (h : s.Whole file)
    (hsize : file.data.length < 2 ^ 63) (hok : Confined s a) (hs : s.step a = some s') :
    s'.Whole file := by
  cases a with
  | guest mem =>
    cases hs
    exact ⟨h.capacity, h.length⟩
  | request chain =>
    cases hs
    refine ⟨(capacity_process ..).trans h.capacity, Eq.trans ?_ h.length⟩
    show (process s.blk s.mem chain).dev.file.data.length = _
    cases haddr : addressed s.mem chain with
    | none => rw [data_process_of_none haddr]
    | some q =>
      obtain ⟨header, data, status, hdr, hchain, hhdr, -, hlen, hstart, htype⟩ :=
        addressed_parts haddr
      rw [(process_eq s.blk hchain hhdr).1]
      by_cases hbeyond : q.Beyond s.blk
      · rw [(refused s.mem hlen hstart htype (hok q haddr) hbeyond).2]
      · refine length_request hlen hstart htype ?_ (h.length ▸ hsize) hbeyond
        rw [h.capacity, h.length]
        exact Nat.div_mul_le_self ..

/-- **The capacity is kept** by a guest that keeps to it. In every run in which a write past the
capacity is at an offset that the host cannot express, and a read past it is past the end of the
file, the file keeps its length, and such a request fails with an error status and leaves the disk
alone. -/
theorem capacity_kept {file : HostFile} {mem : GuestRam} {as : List Action} {s : Attached}
    (hsize : file.data.length < 2 ^ 63)
    (h : Run step Confined ⟨.new file, mem⟩ as s) :
    s.blk.file.data.length = file.data.length ∧
      ∀ chain q, addressed s.mem chain = some q → q.Beyond s.blk → Stopped s.blk q →
        (process s.blk s.mem chain).dev.file.data = s.blk.file.data ∧
        ∀ d ∈ statusDesc chain, s.mem.contains d.addr 1 = true →
          (process s.blk s.mem chain).mem.readSlice d.addr 1 = some [VIRTIO_BLK_S_IOERR] := by
  have hstep : ∀ (s : Attached) (a : Action) (s' : Attached), s.Whole file → Confined s a →
      s.step a = some s' → s'.Whole file := fun _ _ _ hw hok hs => hw.step hsize hok hs
  have hwhole := h.invariant hstep ⟨rfl, rfl⟩
  refine ⟨hwhole.length, fun chain q haddr hbeyond hstop => ?_⟩
  obtain ⟨header, data, status, hdr, hchain, hhdr, hstatus, hlen, hstart, htype⟩ :=
    addressed_parts haddr
  obtain ⟨hfile, -, hmem⟩ := process_eq s.blk hchain hhdr
  obtain ⟨herr, hsame⟩ := refused s.mem hlen hstart htype hstop hbeyond
  refine ⟨by rw [hfile, hsame], fun d hd hin => ?_⟩
  obtain rfl := Option.some.inj (hstatus.symm.trans hd)
  rw [hmem, herr]
  refine (setStatus_spec ?_ _).1
  rw [(request_covered s.blk.file s.mem data hdr).contains]
  exact hin

/-! Guest memory with a header for sector 1, which a disk of one sector does not have, and a chain
with a buffer of one byte. -/

def after (out : Bool) : GuestRam :=
  let blank : GuestRam := ⟨0x40000000, List.replicate 64 0, GuestRam.bounded_blank⟩
  let typed := (blank.writeSlice 0x40000000 (leBytes 4 (if out then 1 else 0))).1
  ((typed.writeSlice 0x40000008 (leBytes 8 1)).1.writeSlice 0x40000010 [7]).1

def oneByte : DescChain :=
  ⟨0, [⟨0x40000000, 16, false⟩, ⟨0x40000010, 1, true⟩, ⟨0x40000020, 1, true⟩]⟩

def written : VirtioBlk :=
  (process (.new (calm Disk.sector)) (Disk.headed true) Disk.twoBuffers).dev

theorem capacity_kept_sector_after : written.file.data.length = 512 ∧
    (process written (after false) oneByte).dev.file.data = written.file.data ∧
    (process written (after false) oneByte).mem.readSlice 0x40000020 1 =
      some [VIRTIO_BLK_S_IOERR] := by
  have hwithin : Confined ⟨.new (calm Disk.sector), Disk.headed true⟩
      (.request Disk.twoBuffers) := by
    have haddr : addressed (Disk.headed true) Disk.twoBuffers = some ⟨true, 0, 3⟩ := by
      decide +kernel
    have hshort : ¬ (⟨true, 0, 3⟩ : Addressed).Beyond (.new (calm Disk.sector)) := by
      decide +kernel
    intro q hq
    obtain rfl := Option.some.inj (haddr.symm.trans hq)
    exact ⟨fun _ hbeyond => absurd hbeyond hshort, fun _ hbeyond => absurd hbeyond hshort⟩
  have hrun : Run step Confined ⟨.new (calm Disk.sector), Disk.headed true⟩
      [.request Disk.twoBuffers, .guest (after false)] ⟨written, after false⟩ :=
    .cons hwithin rfl (.cons trivial rfl (.nil _))
  have haddr : addressed (after false) oneByte = some ⟨false, 512, 1⟩ := by decide +kernel
  have hbeyond : (⟨false, 512, 1⟩ : Addressed).Beyond written := by decide +kernel
  obtain ⟨-, hrefused⟩ := capacity_kept (by decide +kernel) hrun
  obtain ⟨hsame, hstatus⟩ := hrefused oneByte _ haddr hbeyond
    ⟨fun h => absurd h Bool.false_ne_true, fun _ _ => by decide +kernel⟩
  dsimp only at hsame hstatus
  exact ⟨by decide +kernel, hsame, hstatus ⟨0x40000020, 1, true⟩ rfl (by decide +kernel)⟩

theorem write_grows_disk :
    addressed (after true) oneByte = some ⟨true, 512, 1⟩ ∧
      (⟨true, 512, 1⟩ : Addressed).Beyond (.new (calm Disk.sector)) ∧
      (process (.new (calm Disk.sector)) (after true) oneByte).mem.readSlice 0x40000020 1 =
        some [VIRTIO_BLK_S_OK] ∧
      (process (.new (calm Disk.sector)) (after true) oneByte).dev.file.data =
        Disk.sector ++ [7] := by
  refine ⟨?_, ?_, ?_, ?_⟩ <;> decide +kernel

end Attached

end VirtioBlk

end Ignition.Devices
