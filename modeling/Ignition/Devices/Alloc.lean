import Ignition.Devices.ChainRead
import Ignition.Devices.Dma

/-!
# What devices allocate

The buffers a device makes while it services one chain, on every path of `Handler`, each as large as
the source makes it. Most lengths are the guest's choice. They are checked first: against RAM and a
limit in `DescChain::read`, against `MAX_DESC_LEN` in the block device, against `MAX_RESOURCE_BYTES`
for the pixels of a GPU resource. The entries of a backing are those the request has room for.

The entropy device makes its buffer as long as the descriptor says and only then finds out whether
that is in RAM. So the buffers are bounded on all other paths, and on this one if the lengths are
(`allocations_bounded_iff`).
-/

namespace Ignition.Devices

open Paged Ignition.Vmm List

/-! ## The buffers -/

/-- The buffer of `DescChain::read`. -/
def DescChain.readBuffer (chain : DescChain) (mem : GuestRam) (maxLen : Nat) : List Nat :=
  (readLen mem maxLen 0 chain.readable).toList

namespace VirtioBlk

/-- The buffers of `read_to_guest`, one for each descriptor it comes to. -/
def readBuffers : HostFile → GuestRam → Nat → List Desc → List Nat
  | _, _, _, [] => []
  | file, mem, off, d :: ds =>
    if MAX_DESC_LEN < d.len then []
    else
      d.len ::
        match file.readExact off d.len with
        | (none, _) => []
        | (some buf, file') =>
          match mem.writeSlice d.addr buf with
          | (_, false) => []
          | (mem', true) => readBuffers file' mem' (saturatingAdd64 off d.len) ds

/-- The buffers of `write_from_guest`. -/
def writeBuffers (mem : GuestRam) : HostFile → Nat → List Desc → List Nat
  | _, _, [] => []
  | file, off, d :: ds =>
    if MAX_DESC_LEN < d.len then []
    else
      d.len ::
        match mem.readSlice d.addr d.len with
        | none => []
        | some buf =>
          match file.writeAll off buf with
          | (false, _) => []
          | (true, file') => writeBuffers mem file' (saturatingAdd64 off d.len) ds

/-- The buffer of `get_id`. -/
def idBuffers (data : List Desc) : List Nat :=
  ((data.take 1).filter fun d => d.len ≤ MAX_DESC_LEN).map (·.len)

def requestBuffers (file : HostFile) (mem : GuestRam) (data : List Desc) (hdr : Bytes) :
    List Nat :=
  let reqType := fromLeBytes (slice hdr 0 4)
  let sector := fromLeBytes (slice hdr 8 8)
  if reqType = VIRTIO_BLK_T_IN then
    if 2 ^ 64 ≤ sector * SECTOR_SIZE then [] else readBuffers file mem (sector * SECTOR_SIZE) data
  else if reqType = VIRTIO_BLK_T_OUT then
    if 2 ^ 64 ≤ sector * SECTOR_SIZE then [] else writeBuffers mem file (sector * SECTOR_SIZE) data
  else if reqType = VIRTIO_BLK_T_GET_ID then idBuffers data
  else []

def buffers (blk : VirtioBlk) (mem : GuestRam) (chain : DescChain) : List Nat :=
  match chain.descriptors with
  | header :: d :: ds =>
    match readHeader mem header with
    | none => []
    | some hdr => requestBuffers blk.file mem (d :: ds).dropLast hdr
  | _ => []

end VirtioBlk

namespace VirtioGpu

/-- The pixels of `create_2d`, or the entries of `attach_backing`. -/
def requestBuffers (req : Bytes) : List Nat :=
  let body := req.drop CTRL_HDR_LEN
  if req.length < CTRL_HDR_LEN then []
  else if le32 req 0 = RESOURCE_CREATE_2D then
    let size := le32 body 8 * le32 body 12 * 4
    if body.length < 16 ∨ MAX_RESOURCE_BYTES < size then [] else [size]
  else if le32 req 0 = RESOURCE_ATTACH_BACKING then
    if body.length < 8 then [] else [16 * min (le32 body 4) ((body.length - 8) / 16)]
  else []

def buffers (gpu : VirtioGpu) (mem : GuestRam) (chain : DescChain) : List Nat :=
  chain.readBuffer mem MAX_REQUEST_BYTES ++
    match chain.read mem MAX_REQUEST_BYTES with
    | some req => requestBuffers req ++ [(gpu.dispatch req mem).2.length]
    | none => [CTRL_HDR_LEN]

end VirtioGpu

namespace Handler

def buffers : Handler → GuestRam → DescChain → List Nat
  | .drain (.blk dev), mem, chain => dev.buffers mem chain
  | .drain (.netTx _), mem, chain => chain.readBuffer mem MAX_FRAME
  | .drain (.vsockTx _), mem, chain => chain.readBuffer mem (VSOCK_HDR_SIZE + BUF_ALLOC.toNat)
  | .drain (.rng _), _, chain => (chain.descriptors.filter (·.writable)).map (·.len)
  | .drain (.gpuControl dev), mem, chain => dev.buffers mem chain
  | .netRx _ frame, _, _ => [NET_HDR_LEN + frame.bytes.length]
  | .vsockRx _ pkt, _, chain =>
    if chain.descriptors.any (·.writable) then [VSOCK_HDR_SIZE + pkt.data.length] else []
  | _, _, _ => []

def limit : Handler → Nat
  | .drain (.blk _) => MAX_DESC_LEN
  | .drain (.netTx _) => MAX_FRAME
  | .drain (.vsockTx _) => VSOCK_HDR_SIZE + BUF_ALLOC.toNat
  | .drain (.gpuControl _) => MAX_RESOURCE_BYTES
  | .netRx _ _ => NET_HDR_LEN + MAX_FRAME
  | .vsockRx _ _ => VSOCK_HDR_SIZE + READ_CHUNK
  | _ => 0

end Handler

/-! ## Bounds -/

theorem DescChain.readBuffer_le {chain : DescChain} {mem : GuestRam} {maxLen n : Nat}
    (h : n ∈ chain.readBuffer mem maxLen) : n ≤ maxLen :=
  ((readLen_eq_some_iff (Nat.zero_le _)).mp (Option.mem_toList.mp h)).2.1

namespace VirtioBlk

theorem readBuffers_le : ∀ (ds : List Desc) (file : HostFile) (mem : GuestRam) (off : Nat),
    ∀ n ∈ readBuffers file mem off ds, n ≤ MAX_DESC_LEN
  | [], _, _, _ => forall_mem_nil _
  | d :: ds, file, mem, off => by
    unfold readBuffers
    split
    · exact forall_mem_nil _
    next hle =>
      refine forall_mem_cons.mpr ⟨Nat.not_lt.mp hle, ?_⟩
      split
      · exact forall_mem_nil _
      split
      · exact forall_mem_nil _
      · exact readBuffers_le ds _ _ _

theorem writeBuffers_le (mem : GuestRam) : ∀ (ds : List Desc) (file : HostFile) (off : Nat),
    ∀ n ∈ writeBuffers mem file off ds, n ≤ MAX_DESC_LEN
  | [], _, _ => forall_mem_nil _
  | d :: ds, file, off => by
    unfold writeBuffers
    split
    · exact forall_mem_nil _
    next hle =>
      refine forall_mem_cons.mpr ⟨Nat.not_lt.mp hle, ?_⟩
      split
      · exact forall_mem_nil _
      split
      · exact forall_mem_nil _
      · exact writeBuffers_le mem ds _ _

theorem requestBuffers_le (file : HostFile) (mem : GuestRam) (data : List Desc) (hdr : Bytes) :
    ∀ n ∈ requestBuffers file mem data hdr, n ≤ MAX_DESC_LEN := by
  unfold requestBuffers
  dsimp only
  split
  · split
    · exact forall_mem_nil _
    · exact readBuffers_le _ _ _ _
  split
  · split
    · exact forall_mem_nil _
    · exact writeBuffers_le _ _ _ _
  split
  · intro n hn
    obtain ⟨d, hd, rfl⟩ := mem_map.mp hn
    exact of_decide_eq_true (mem_filter.mp hd).2
  · exact forall_mem_nil _

theorem buffers_le (blk : VirtioBlk) (mem : GuestRam) (chain : DescChain) :
    ∀ n ∈ blk.buffers mem chain, n ≤ MAX_DESC_LEN := by
  unfold buffers
  split
  · split
    · exact forall_mem_nil _
    · exact requestBuffers_le _ _ _ _
  · exact forall_mem_nil _

end VirtioBlk

namespace VirtioGpu

theorem requestBuffers_le {req : Bytes} (hreq : req.length ≤ MAX_REQUEST_BYTES) :
    ∀ n ∈ requestBuffers req, n ≤ MAX_RESOURCE_BYTES := by
  unfold requestBuffers
  dsimp only
  split
  · exact forall_mem_nil _
  split
  · split
    · exact forall_mem_nil _
    next hle => exact forall_mem_singleton.mpr (by omega)
  split
  · split
    · exact forall_mem_nil _
    · refine forall_mem_singleton.mpr ?_
      unfold MAX_REQUEST_BYTES at hreq
      unfold MAX_RESOURCE_BYTES
      rw [length_drop]
      omega
  · exact forall_mem_nil _

theorem buffers_le (gpu : VirtioGpu) (mem : GuestRam) (chain : DescChain) :
    ∀ n ∈ gpu.buffers mem chain, n ≤ MAX_RESOURCE_BYTES := by
  refine forall_mem_append.mpr
    ⟨fun n hn => Nat.le_trans (DescChain.readBuffer_le hn) (by decide), ?_⟩
  cases hr : chain.read mem MAX_REQUEST_BYTES with
  | none => exact forall_mem_singleton.mpr (by decide)
  | some req =>
    refine forall_mem_append.mpr ⟨requestBuffers_le ?_,
      forall_mem_singleton.mpr (Nat.le_trans (length_dispatch ..) (by decide))⟩
    obtain ⟨hmax, hsrc⟩ := DescChain.read_eq_some_iff.mp hr
    exact le_of_eq_of_le (DescChain.length_gather hsrc) hmax

end VirtioGpu

/-- **Every buffer is within the stated limit or the size of RAM, except** for an entropy chain with
a writable descriptor longer than RAM. A packet of vsock holds what one `read_host` gives. -/
theorem allocations_bounded_iff {h : Handler} {mem : GuestRam} {chain : DescChain}
    (hpkt : ∀ dev pkt, h = .vsockRx dev pkt → pkt.data.length ≤ READ_CHUNK) :
    (∀ n ∈ h.buffers mem chain, n ≤ max h.limit mem.ram.length) ↔
      ∀ dev, h = .drain (.rng dev) →
        ∀ d ∈ chain.descriptors, d.writable = true → d.len ≤ mem.ram.length := by
  have hlimited : (∀ dev, h ≠ .drain (.rng dev)) → (∀ n ∈ h.buffers mem chain, n ≤ h.limit) →
      ((∀ n ∈ h.buffers mem chain, n ≤ max h.limit mem.ram.length) ↔
        ∀ dev, h = .drain (.rng dev) →
          ∀ d ∈ chain.descriptors, d.writable = true → d.len ≤ mem.ram.length) :=
    fun hne hle => ⟨fun _ dev hh => absurd hh (hne dev),
      fun _ n hn => Nat.le_trans (hle n hn) (Nat.le_max_left ..)⟩
  cases h with
  | drain queue =>
    cases queue with
    | blk dev => exact hlimited (fun _ hh => (nomatch hh)) (dev.buffers_le mem chain)
    | netTx dev | vsockTx dev =>
      exact hlimited (fun _ hh => (nomatch hh)) fun _ hn => DescChain.readBuffer_le hn
    | gpuControl dev => exact hlimited (fun _ hh => (nomatch hh)) (dev.buffers_le mem chain)
    | rng dev =>
      show (∀ n ∈ _, n ≤ max 0 _) ↔ _
      rw [Nat.zero_max]
      constructor
      · rintro hle _ - d hd hw
        exact hle d.len (mem_map_of_mem (mem_filter.mpr ⟨hd, hw⟩))
      · intro hle n hn
        obtain ⟨d, hd, rfl⟩ := mem_map.mp hn
        exact hle dev rfl d (mem_filter.mp hd).1 (mem_filter.mp hd).2
    | _ => exact hlimited (fun _ hh => (nomatch hh)) (forall_mem_nil _)
  | netRx dev frame =>
    exact hlimited (fun _ hh => (nomatch hh))
      (forall_mem_singleton.mpr (Nat.add_le_add_left frame.short _))
  | vsockRx dev pkt =>
    refine hlimited (fun _ hh => (nomatch hh)) ?_
    show ∀ n ∈ (if chain.descriptors.any (·.writable) then [VSOCK_HDR_SIZE + pkt.data.length]
      else []), n ≤ VSOCK_HDR_SIZE + READ_CHUNK
    split
    · exact forall_mem_singleton.mpr (Nat.add_le_add_left (hpkt dev pkt rfl) _)
    · exact forall_mem_nil _
  | inputEvent dev ev => exact hlimited (fun _ hh => (nomatch hh)) (forall_mem_nil _)

theorem allocations_bounded_transmit :
    (Handler.drain (.netTx (.new [0, 0, 0, 0, 0, 0]))).buffers scratchRam (bareRequest false) =
        [17] ∧ 17 ≤ max MAX_FRAME 64 := by
  have hbuffers : (Handler.drain (.netTx (.new [0, 0, 0, 0, 0, 0]))).buffers scratchRam
      (bareRequest false) = [17] := by decide +kernel
  have hall := (@allocations_bounded_iff (.drain (.netTx (.new [0, 0, 0, 0, 0, 0]))) scratchRam
    (bareRequest false) fun _ _ hh => nomatch hh).mpr fun _ hh => nomatch hh
  exact ⟨hbuffers, hall 17 (hbuffers ▸ mem_cons_self)⟩

theorem entropy_unbounded :
    ∃ n ∈ (Handler.drain (.rng ⟨fun _ => 0, 0⟩)).buffers scratchRam ⟨0, [⟨0, 2 ^ 32 - 1, true⟩]⟩,
      max (Handler.drain (.rng ⟨fun _ => 0, 0⟩)).limit scratchRam.ram.length < n :=
  ⟨2 ^ 32 - 1, mem_cons_self, by decide⟩

end Ignition.Devices
