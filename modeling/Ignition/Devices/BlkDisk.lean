import Mathlib.Data.Set.Pairwise.Basic
import Ignition.Base.Run
import Ignition.Devices.Blk

/-!
# The block device as an array of bytes

The guest sets requests up in its memory and the device processes them one after another against
the host's file. A request for a range of the disk comes with any number of buffers, which the
device goes through with a running offset.

With requests in good form, inside the capacity and without errors of the host, the device is an
array of bytes (`refines_array`): a write puts the contents of its buffers, one after another, at
its sector, a read fills its buffers with what is there, and both succeed.
-/

namespace Ignition.Devices

open Paged Ignition.Vmm Runs List

namespace VirtioBlk

/-! ## Buffers -/

def total (ds : List Desc) : Nat := (ds.map Desc.len).sum

theorem total_cons (d : Desc) (ds : List Desc) : total (d :: ds) = d.len + total ds := sum_cons

def gather (mem : GuestRam) : List Desc → Option Bytes
  | [] => some []
  | d :: ds =>
    match mem.readSlice d.addr d.len, gather mem ds with
    | some b, some bs => some (b ++ bs)
    | _, _ => none

/-- The device takes every one of the buffers. -/
structure Buffers (mem : GuestRam) (ds : List Desc) : Prop where
  short : ∀ d ∈ ds, d.len ≤ MAX_DESC_LEN
  inRam : ∀ d ∈ ds, mem.contains d.addr d.len = true

section Buffers

variable {mem mem' : GuestRam} {d : Desc} {ds : List Desc}

theorem Buffers.tail (h : Buffers mem (d :: ds)) : Buffers mem ds :=
  ⟨fun e he => h.short e (mem_cons_of_mem _ he),
    fun e he => h.inRam e (mem_cons_of_mem _ he)⟩

theorem Buffers.congr {W : Set Nat} (h : Buffers mem ds) (hc : GuestRam.ChangesIn W mem mem') :
    Buffers mem' ds := ⟨h.short, fun d hd => (hc.contains d.addr d.len).trans (h.inRam d hd)⟩

theorem gather_cons {b bs : Bytes} (hb : mem.readSlice d.addr d.len = some b)
    (hbs : gather mem ds = some bs) : gather mem (d :: ds) = some (b ++ bs) := by
  unfold gather
  rw [hb, hbs]

theorem Buffers.exists_gather : ∀ {ds : List Desc}, Buffers mem ds →
    ∃ buf, gather mem ds = some buf ∧ buf.length = total ds
  | [], _ => ⟨[], rfl, rfl⟩
  | d :: ds, h => by
    obtain ⟨bs, hbs, hlen⟩ := h.tail.exists_gather
    have hb := GuestRam.readSlice_of_contains (h.inRam d mem_cons_self)
    refine ⟨_, gather_cons hb hbs, ?_⟩
    rw [length_append, GuestRam.length_readSlice hb, hlen, total_cons]

theorem gather_congr {W : Set Nat} (hc : GuestRam.ChangesIn W mem mem') : ∀ {ds : List Desc},
    (∀ d ∈ ds, ∀ x ∈ d.range, x ∉ W) → gather mem' ds = gather mem ds
  | [], _ => rfl
  | d :: ds, h => by
    have hd : mem'.readSlice d.addr d.len = mem.readSlice d.addr d.len :=
      hc.readSlice fun x hlo hhi => h d mem_cons_self x ⟨hlo, hhi⟩
    unfold gather
    rw [hd, gather_congr hc fun e he => h e (mem_cons_of_mem _ he)]

end Buffers

/-! ## The file without errors -/

/-- A file whose host reports no error. -/
def calm (data : Bytes) : HostFile := ⟨data, []⟩

theorem readExact_calm {data : Bytes} {off n : Nat} (hfit : off + n ≤ data.length)
    (hsize : data.length < 2 ^ 63) :
    (calm data).readExact off n = (some (slice data off n), calm data) := by
  have hoff : ¬ 2 ^ 63 ≤ off := by omega
  have hlen : ¬ data.length < off + n := by omega
  unfold HostFile.readExact HostFile.fault calm
  rw [decide_eq_false hoff, decide_eq_false hlen, Bool.and_false]
  rfl

theorem writeAll_calm {data buf : Bytes} {off : Nat} (hfit : off + buf.length ≤ data.length)
    (hsize : data.length < 2 ^ 63) :
    (calm data).writeAll off buf = (true, calm (copyInto data off buf)) := by
  have hoff : ¬ 2 ^ 63 ≤ off := by omega
  have hgrow : off + buf.length - data.length = 0 := by omega
  unfold HostFile.writeAll HostFile.fault calm
  dsimp only
  rw [if_neg hoff]
  unfold HostFile.put
  split
  next hnil =>
    rw [hnil]
    unfold copyInto
    rw [append_nil, length_nil, Nat.add_zero, take_append_drop]
  · rw [hgrow, replicate_zero, append_nil]

theorem saturatingAdd64_of_lt {off n : Nat} (h : off + n < 2 ^ 64) :
    saturatingAdd64 off n = off + n := Nat.min_eq_left (by omega)

theorem writeLoop_calm {mem : GuestRam} : ∀ {ds : List Desc} {data buf : Bytes} {off : Nat},
    Buffers mem ds → off + total ds ≤ data.length → data.length < 2 ^ 63 →
    gather mem ds = some buf →
    writeLoop mem (calm data) off ds = (calm (copyInto data off buf), VIRTIO_BLK_S_OK)
  | [], data, buf, off, _, _, _, hbuf => by
    cases hbuf
    unfold writeLoop copyInto
    rw [append_nil, length_nil, Nat.add_zero, take_append_drop]
  | d :: ds, data, buf, off, hb, hfit, hsize, hbuf => by
    rw [total_cons] at hfit
    obtain ⟨bs, hbs, hbslen⟩ := hb.tail.exists_gather
    have hread := GuestRam.readSlice_of_contains (hb.inRam d mem_cons_self)
    have hlen := GuestRam.length_readSlice hread
    generalize slice mem.ram (d.addr - mem.base) d.len = b at hread hlen
    obtain rfl := Option.some.inj ((gather_cons hread hbs).symm.trans hbuf)
    have hroom : off + b.length ≤ data.length := by omega
    unfold writeLoop
    rw [if_neg (Nat.not_lt.mpr (hb.short d mem_cons_self)), hread]
    dsimp only
    rw [writeAll_calm hroom hsize]
    dsimp only
    rw [saturatingAdd64_of_lt (by omega), ← hlen,
      writeLoop_calm hb.tail (by rw [length_copyInto hroom]; omega)
        (by rw [length_copyInto hroom]; exact hsize) hbs,
      copyInto_append (by omega)]

theorem readLoop_changes (ds : List Desc) (file : HostFile) (mem : GuestRam) (off : Nat)
    {written : Nat} (hw : written ≤ 2 ^ 32 - 1) :
    GuestRam.ChangesIn {x | ∃ d ∈ ds, x ∈ d.range} mem (readLoop file mem off written ds).mem := by
  refine (readLoop_covered ds file mem off written).mono ?_
  rintro x ⟨w, hlog, hx⟩
  rw [(readLoop_eq ds file mem off written hw).1] at hlog
  obtain ⟨d, hd, rfl⟩ := mem_map.mp hlog
  exact ⟨d, mem_fillable hd, hx⟩

theorem readLoop_calm : ∀ {ds : List Desc} {mem : GuestRam} {data : Bytes} {off written : Nat},
    Buffers mem ds → ds.Pairwise (fun d d' => ∀ x ∈ d.range, x ∉ d'.range) →
    off + total ds ≤ data.length → data.length < 2 ^ 63 → written ≤ 2 ^ 32 - 1 →
    (readLoop (calm data) mem off written ds).file = calm data ∧
      (readLoop (calm data) mem off written ds).status = VIRTIO_BLK_S_OK ∧
      gather (readLoop (calm data) mem off written ds).mem ds = some (slice data off (total ds))
  | [], _, _, _, _, _, _, _, _, _ => ⟨rfl, rfl, rfl⟩
  | d :: ds, mem, data, off, written, hb, hapart, hfit, hsize, hw => by
    rw [total_cons] at hfit ⊢
    have hlen : (slice data off d.len).length = d.len := length_slice (by omega)
    have hin : mem.contains d.addr (slice data off d.len).length = true := by
      rw [hlen]
      exact hb.inRam d mem_cons_self
    obtain ⟨hwlen, hwrite⟩ := GuestRam.writeSlice_of_contains hin
    have hchange := GuestRam.changesIn_writeSlice mem d.addr (slice data off d.len)
    have hself := GuestRam.readSlice_writeSlice_self hin
    rw [hlen] at hself
    rw [hwrite] at hchange hself
    dsimp only at hchange hself
    obtain ⟨hdisj, hapart⟩ := pairwise_cons.mp hapart
    generalize mem.withRam (copyInto mem.ram (d.addr - mem.base) (slice data off d.len)) hwlen =
      mem' at hwrite hchange hself
    have hw' : saturatingAdd32 written d.len ≤ 2 ^ 32 - 1 := Nat.min_le_right ..
    have hfit' : off + d.len + total ds ≤ data.length := by omega
    obtain ⟨hfile, hstatus, hgather⟩ :=
      readLoop_calm (hb.tail.congr hchange) hapart hfit' hsize hw'
    have hrest := readLoop_changes ds (calm data) mem' (off + d.len) hw'
    -- the buffer that was filled first is left alone by the others
    have hkept : (readLoop (calm data) mem' (off + d.len) (saturatingAdd32 written d.len)
        ds).mem.readSlice d.addr d.len = some (slice data off d.len) := by
      rw [hrest.readSlice fun x hlo hhi => ?_]
      · exact hself
      · rintro ⟨e, he, hx⟩
        exact hdisj e he x ⟨hlo, hhi⟩ hx
    have hloop : readLoop (calm data) mem off written (d :: ds) =
        let r := readLoop (calm data) mem' (off + d.len) (saturatingAdd32 written d.len) ds
        { r with log := (d, d.len) :: r.log } := by
      rw [readLoop, if_neg (Nat.not_lt.mpr (hb.short d mem_cons_self)),
        readExact_calm (by omega) hsize]
      dsimp only
      rw [hwrite]
      rw [saturatingAdd64_of_lt (by omega)]
    rw [hloop]
    refine ⟨hfile, hstatus, ?_⟩
    rw [gather_cons hkept hgather, slice_add]

/-! ## Requests in good form -/

/-- What a request asks for, and where its data and its status are. -/
structure Transfer where
  out : Bool
  sector : Nat
  data : List Desc
  status : Desc

namespace Transfer

def reqType (r : Transfer) : Nat := if r.out then VIRTIO_BLK_T_OUT else VIRTIO_BLK_T_IN

def start (r : Transfer) : Nat := r.sector * SECTOR_SIZE

/-- The chain is this request, with a header that can be read, a status in RAM, and buffers that are
taken, apart from each other and from the status, and inside the capacity. -/
structure Fits (r : Transfer) (capacity : Nat) (mem : GuestRam) (chain : DescChain) : Prop where
  chain_eq : ∃ header hdr, chain.descriptors = header :: (r.data ++ [r.status]) ∧
    readHeader mem header = some hdr ∧ fromLeBytes (slice hdr 0 4) = r.reqType ∧
    fromLeBytes (slice hdr 8 8) = r.sector
  status_inRam : mem.contains r.status.addr 1 = true
  buffers : Buffers mem r.data
  apart : r.data.Pairwise fun d d' => ∀ x ∈ d.range, x ∉ d'.range
  status_apart : ∀ d ∈ r.data, r.status.addr ∉ d.range
  within : r.start + total r.data ≤ capacity * SECTOR_SIZE

end Transfer

theorem process_eq (blk : VirtioBlk) {mem : GuestRam} {chain : DescChain} {header status : Desc}
    {data : List Desc} {hdr : Bytes} (hchain : chain.descriptors = header :: (data ++ [status]))
    (hhdr : readHeader mem header = some hdr) :
    (process blk mem chain).dev.file = (request blk.file mem data hdr).file ∧
      (process blk mem chain).dev.capacitySectors = blk.capacitySectors ∧
      (process blk mem chain).mem = (setStatus (request blk.file mem data hdr).mem status
        (request blk.file mem data hdr).status).1 := by
  obtain ⟨d, ds, hds⟩ := exists_cons_of_ne_nil (concat_ne_nil status data)
  have hlast : (d :: ds).getLast (cons_ne_nil d ds) = status := by
    have hlast : (d :: ds).getLast? = some status := by
      rw [← hds]
      exact getLast?_concat
    exact Option.some.inj hlast
  have hdata : (d :: ds).dropLast = data := by
    rw [← hds]
    exact dropLast_concat
  unfold process
  rw [hchain, hds]
  dsimp only
  rw [hhdr, hlast, hdata]
  exact ⟨rfl, rfl, rfl⟩

theorem setStatus_spec {mem : GuestRam} {d : Desc} (h : mem.contains d.addr 1 = true)
    (status : UInt8) : (setStatus mem d status).1.readSlice d.addr 1 = some [status] ∧
      GuestRam.ChangesIn {d.addr} mem (setStatus mem d status).1 := by
  have hone : mem.contains d.addr [status].length = true := h
  have hself := GuestRam.readSlice_writeSlice_self hone
  have hchange := GuestRam.changesIn_writeSlice mem d.addr [status]
  obtain ⟨_, hwrite⟩ := GuestRam.writeSlice_of_contains hone
  unfold setStatus
  rw [hwrite] at hself hchange ⊢
  refine ⟨hself, hchange.mono ?_⟩
  rintro x ⟨hlo, hhi⟩
  exact Nat.le_antisymm (Nat.lt_succ_iff.mp hhi) hlo

section Transfer

variable {r : Transfer} {blk : VirtioBlk} {mem : GuestRam} {chain : DescChain} {disk : Bytes}

/-- What the device has to do for a request. -/
structure Served (r : Transfer) (disk : Bytes) (mem : GuestRam) (p : Serviced VirtioBlk) :
    Prop where
  status : p.mem.readSlice r.status.addr 1 = some [VIRTIO_BLK_S_OK]
  written : r.out = true → ∃ buf, gather mem r.data = some buf ∧
    p.dev.file = calm (copyInto disk r.start buf)
  read : r.out = false → p.dev.file = calm disk ∧
    gather p.mem r.data = some (slice disk r.start (total r.data))

theorem Transfer.Fits.served (h : r.Fits blk.capacitySectors mem chain)
    (hfile : blk.file = calm disk) (hcap : blk.capacitySectors * SECTOR_SIZE ≤ disk.length)
    (hsize : disk.length < 2 ^ 63) :
    Served r disk mem (process blk mem chain) := by
  obtain ⟨header, hdr, hchain, hhdr, htype, hsector⟩ := h.chain_eq
  obtain ⟨hpfile, -, hpmem⟩ := process_eq blk hchain hhdr
  have hfit : r.start + total r.data ≤ disk.length := Nat.le_trans h.within hcap
  have hoff : ¬ 2 ^ 64 ≤ r.sector * SECTOR_SIZE := by
    have hstart : r.start = r.sector * SECTOR_SIZE := rfl
    omega
  cases hout : r.out with
  | true =>
    have hreq : request blk.file mem r.data hdr =
        ⟨(writeLoop mem (calm disk) r.start r.data).1, mem,
          (writeLoop mem (calm disk) r.start r.data).2, 0, []⟩ := by
      unfold request writeFromGuest
      rw [htype, hsector, hfile]
      unfold Transfer.reqType
      rw [hout, if_pos rfl, if_neg (by decide), if_pos rfl, if_neg hoff]
      rfl
    obtain ⟨buf, hbuf, -⟩ := h.buffers.exists_gather
    rw [writeLoop_calm h.buffers hfit hsize hbuf] at hreq
    rw [hreq] at hpfile hpmem
    refine ⟨?_, fun _ => ⟨buf, hbuf, hpfile⟩, fun hin => ?_⟩
    · rw [hpmem]
      exact (setStatus_spec h.status_inRam _).1
    · rw [hout] at hin
      cases hin
  | false =>
    have hreq : request blk.file mem r.data hdr = readLoop (calm disk) mem r.start 0 r.data := by
      unfold request readToGuest
      rw [htype, hsector, hfile]
      unfold Transfer.reqType
      rw [hout, if_neg Bool.false_ne_true, if_pos rfl, if_neg hoff]
      rfl
    rw [hreq] at hpfile hpmem
    obtain ⟨hsame, hok, hgather⟩ := readLoop_calm h.buffers h.apart hfit hsize (Nat.zero_le _)
    have hchanges := readLoop_changes r.data (calm disk) mem r.start (Nat.zero_le _)
    have hstatus := setStatus_spec ((hchanges.contains _ _).trans h.status_inRam) VIRTIO_BLK_S_OK
    rw [hok] at hpmem
    refine ⟨?_, fun hin => ?_, fun _ => ⟨hpfile.trans hsame, ?_⟩⟩
    · rw [hpmem]
      exact hstatus.1
    · rw [hout] at hin
      cases hin
    · -- the status byte is in none of the buffers
      rw [hpmem, gather_congr hstatus.2 fun d hd x hx hxs => ?_]
      · exact hgather
      · rw [Set.mem_singleton_iff.mp hxs] at hx
        exact h.status_apart d hd hx

end Transfer

/-! ## Runs -/

/-- A device with the memory of its guest, and the array that it should be. -/
structure Disk where
  blk : VirtioBlk
  mem : GuestRam
  array : Bytes

namespace Disk

inductive Action where
  | guest (mem : GuestRam)
  | transfer (r : Transfer) (chain : DescChain)

def transferred (array : Bytes) (mem : GuestRam) (r : Transfer) : Bytes :=
  if r.out then copyInto array r.start ((gather mem r.data).getD []) else array

def step (s : Disk) : Action → Option Disk
  | .guest mem => some { s with mem := mem }
  | .transfer r chain =>
    let p := process s.blk s.mem chain
    some ⟨p.dev, p.mem, transferred s.array s.mem r⟩

def Formed (s : Disk) : Action → Prop
  | .guest _ => True
  | .transfer r chain => r.Fits s.blk.capacitySectors s.mem chain

def start (disk : Bytes) (mem : GuestRam) : Disk := ⟨.new (calm disk), mem, disk⟩

structure Refines (s : Disk) : Prop where
  file : s.blk.file = calm s.array
  capacity : s.blk.capacitySectors * SECTOR_SIZE ≤ s.array.length
  size : s.array.length < 2 ^ 63

theorem Refines.step {s s' : Disk} {a : Action} (h : s.Refines) (hok : Formed s a)
    (hs : s.step a = some s') : s'.Refines := by
  cases a with
  | guest mem =>
    cases hs
    exact ⟨h.file, h.capacity, h.size⟩
  | transfer r chain =>
    cases hs
    have hserved := Transfer.Fits.served hok h.file h.capacity h.size
    obtain ⟨header, hdr, hchain, hhdr, -, -⟩ := hok.chain_eq
    have hcap : (process s.blk s.mem chain).dev.capacitySectors = s.blk.capacitySectors :=
      (process_eq _ hchain hhdr).2.1
    cases hout : r.out with
    | true =>
      obtain ⟨buf, hbuf, hfile⟩ := hserved.written hout
      obtain ⟨buf', hbuf', hlen⟩ := hok.buffers.exists_gather
      obtain rfl := Option.some.inj (hbuf'.symm.trans hbuf)
      have harray : transferred s.array s.mem r = copyInto s.array r.start buf' := by
        unfold transferred
        rw [hout, hbuf]
        rfl
      have hfits : (copyInto s.array r.start buf').length = s.array.length := by
        refine length_copyInto ?_
        rw [hlen]
        exact Nat.le_trans hok.within h.capacity
      refine ⟨?_, ?_, ?_⟩
      · dsimp only
        rw [hfile, harray]
      · dsimp only
        rw [hcap, harray, hfits]
        exact h.capacity
      · dsimp only
        rw [harray, hfits]
        exact h.size
    | false =>
      have harray : transferred s.array s.mem r = s.array := by
        unfold transferred
        rw [hout]
        rfl
      refine ⟨?_, ?_, ?_⟩
      · dsimp only
        rw [(hserved.read hout).1, harray]
      · dsimp only
        rw [hcap, harray]
        exact h.capacity
      · dsimp only
        rw [harray]
        exact h.size

/-- **The device is an array of bytes.** After every run of requests in good form, on a disk whose
size the host can express and with a host that reports no error, the file is the array that the
requests make, and a request in good form is served from it. -/
theorem refines_array {disk : Bytes} {mem : GuestRam} {as : List Action} {s : Disk}
    (hsize : disk.length < 2 ^ 63) (h : Run step Formed (start disk mem) as s) :
    s.blk.file = calm s.array ∧ ∀ r chain, r.Fits s.blk.capacitySectors s.mem chain →
      Served r s.array s.mem (process s.blk s.mem chain) := by
  have hstep : ∀ (s : Disk) (a : Action) (s' : Disk), s.Refines → Formed s a →
      s.step a = some s' → s'.Refines := fun _ _ _ hr hok hs => hr.step hok hs
  have hrefines := h.invariant hstep ⟨rfl, Nat.div_mul_le_self .., hsize⟩
  exact ⟨hrefines.file, fun r chain hr =>
    hr.served hrefines.file hrefines.capacity hrefines.size⟩

/-! A sector, and sixty-four bytes of guest memory with a header for sector 0, two buffers, and a
status byte. -/

def sector : Bytes := List.replicate 512 0xaa

def headed (out : Bool) : GuestRam :=
  let blank : GuestRam := ⟨0x40000000, List.replicate 64 0, GuestRam.bounded_blank⟩
  let typed := (blank.writeSlice 0x40000000 (leBytes 4 (if out then 1 else 0))).1
  (typed.writeSlice 0x40000010 [1, 2, 3]).1

def twoBuffers : DescChain :=
  ⟨0, [⟨0x40000000, 16, false⟩, ⟨0x40000010, 2, true⟩, ⟨0x40000012, 1, true⟩,
    ⟨0x40000020, 1, true⟩]⟩

def transfer (out : Bool) : Transfer :=
  ⟨out, 0, [⟨0x40000010, 2, true⟩, ⟨0x40000012, 1, true⟩], ⟨0x40000020, 1, true⟩⟩

theorem transfer_fits (out : Bool) : (transfer out).Fits 1 (headed out) twoBuffers where
  chain_eq := by
    refine ⟨⟨0x40000000, 16, false⟩, leBytes 4 (if out then 1 else 0) ++ replicate 12 0,
      rfl, ?_⟩
    cases out
    · decide +kernel
    · decide +kernel
  status_inRam := by
    cases out
    · decide +kernel
    · decide +kernel
  buffers := by
    refine ⟨?_, ?_⟩
    · cases out
      · decide
      · decide
    · cases out
      · decide +kernel
      · decide +kernel
  apart := by
    refine pairwise_pair.mpr ?_
    rintro x ⟨-, hx⟩ ⟨hx', -⟩
    exact absurd hx' (Nat.not_le.mpr hx)
  status_apart := by
    intro d hd hx
    have hlow : d.addr + d.len ≤ 0x40000020 := by
      rcases mem_cons.mp hd with rfl | hd
      · decide
      · obtain rfl := mem_singleton.mp hd
        decide
    exact absurd hx.2 (Nat.not_lt.mpr hlow)
  within := by
    cases out
    · decide
    · decide

theorem refines_array_read_back : ∃ s : Disk, s.array = [1, 2, 3] ++ List.replicate 509 0xaa ∧
    Served (transfer false) s.array s.mem (process s.blk s.mem twoBuffers) := by
  have hcap : (start sector (headed true)).blk.capacitySectors = 1 := by decide +kernel
  have hformed : Formed (start sector (headed true)) (.transfer (transfer true) twoBuffers) := by
    show (transfer true).Fits (start sector (headed true)).blk.capacitySectors (headed true)
      twoBuffers
    rw [hcap]
    exact transfer_fits true
  have hcap' : (process (start sector (headed true)).blk (headed true)
      twoBuffers).dev.capacitySectors = 1 := by decide +kernel
  have hrun : Run step Formed (start sector (headed true))
      [.transfer (transfer true) twoBuffers, .guest (headed false)]
      ⟨(process (start sector (headed true)).blk (headed true) twoBuffers).dev, headed false,
        transferred sector (headed true) (transfer true)⟩ :=
    .cons hformed rfl (.cons trivial rfl (.nil _))
  obtain ⟨-, hserved⟩ := refines_array (by decide +kernel) hrun
  refine ⟨_, by decide +kernel, hserved (transfer false) twoBuffers ?_⟩
  rw [hcap']
  exact transfer_fits false

end Disk

end VirtioBlk

end Ignition.Devices
