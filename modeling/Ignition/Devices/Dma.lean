import Ignition.Devices.Notify

/-!
# Where devices write and what they report

All paths on which a device services a chain: the queues that are drained on notify, and the
buffers that are filled with received frames, vsock packets and input events (`Handler`). Two
results over all of them.

- The writes go to the writable descriptors of the chain and to the used ring (`dma_confined`).
  There are two exceptions. An inflation gives up the frames that were posted, which is its
  purpose. And a block request never looks at the flag of a descriptor, so it writes to readable
  ones, too; chains of that kind are left out.
- The length in the used ring is the number of bytes written in some cases and not in others
  (`used_len_honest_iff`). vsock and input count a write before they know that it succeeds, as
  does the block device for its status byte; rng adds up guest-chosen lengths in 32 bits.
-/

namespace Ignition.Devices

open Paged Ignition.Vmm List

/-! ## The handlers -/

/-- A frame as the backend hands it over: `reader_loop` of `socket_vmnet.rs` gives up on a longer
one. -/
structure NetFrame where
  bytes : Bytes
  short : bytes.length ≤ MAX_FRAME

/-- A path that services chains, with what it has to deliver. -/
inductive Handler where
  | drain (queue : Draining)
  | netRx (dev : VirtioNet) (frame : NetFrame)
  | vsockRx (dev : VsockDevice) (pkt : RxPacket)
  | inputEvent (dev : VirtioInput) (ev : InputEvent)

namespace Handler

/-- What becomes of one chain, by path. -/
def service : Service Handler := fun h mem chain =>
  match h with
  | .drain queue => (Draining.service queue mem chain).map .drain
  | .netRx dev frame => (VirtioNet.receive frame.bytes dev mem chain).map (.netRx · frame)
  | .vsockRx dev pkt =>
    if chain.descriptors.any fun d => d.writable then
      (VsockDevice.writeRx pkt dev mem chain).map (.vsockRx · pkt)
    else (acknowledge dev mem chain).map (.vsockRx · pkt)
  | .inputEvent dev ev => (VirtioInput.deliver ev dev mem chain).map (.inputEvent · ev)

end Handler

/-! ## Where the writes go -/

def DescChain.writableBytes (chain : DescChain) : Set Nat :=
  {x | ∃ d ∈ chain.descriptors, d.writable = true ∧ x ∈ d.range}

def Virtqueue.usedRing (q : Virtqueue) : Set Nat :=
  {x | ∃ k < 4 + 8 * q.size.toNat, x = (q.deviceAddr.toNat + k) % 2 ^ 64}

namespace Serviced

variable {δ ε : Type} {r : Serviced δ} {mem : GuestRam} {ds : List Desc} {chain : DescChain}

theorem Sound.map (h : r.Sound mem ds) (f : δ → ε) : (r.map f).Sound mem ds :=
  ⟨h.covered, h.within⟩

theorem Sound.of_silent (hmem : r.mem = mem) (hlog : r.log = []) : r.Sound mem ds := by
  refine ⟨?_, ?_⟩
  · rw [hmem]
    exact .refl _ mem
  · rw [hlog]
    exact fun w hw => nomatch hw

theorem Sound.confined (h : r.Sound mem chain.descriptors) :
    GuestRam.ChangesIn chain.writableBytes mem r.mem := by
  refine h.covered.mono ?_
  rintro x ⟨w, hw, hlo, hhi⟩
  obtain ⟨hin, hwritable, hle⟩ := h.within w hw
  exact ⟨w.1, hin, hwritable, hlo, by omega⟩

end Serviced

theorem VsockDevice.transmit_silent (dev : VsockDevice) (mem : GuestRam) (chain : DescChain) :
    (transmit dev mem chain).mem = mem ∧ (transmit dev mem chain).len = 0 ∧
      (transmit dev mem chain).log = [] := by
  unfold transmit
  repeat' split
  all_goals exact ⟨rfl, rfl, rfl⟩

theorem VsockDevice.writeRx_sound (pkt : RxPacket) (dev : VsockDevice) (mem : GuestRam)
    (chain : DescChain) : (writeRx pkt dev mem chain).Sound mem chain.descriptors := by
  obtain ⟨⟨hcovered, hwithin⟩, -⟩ :=
    layOut_spec (pkt.hdr.toBytes ++ pkt.data) chain.descriptors mem 0 (Nat.zero_le _)
  exact ⟨hcovered, hwithin⟩

/-- The descriptors that a block request writes to are marked for it. -/
structure VirtioBlk.Flagged (blk : VirtioBlk) (mem : GuestRam) (chain : DescChain) : Prop where
  data : ∀ d ∈ fills blk mem chain, d.writable = true
  status : ∀ d ∈ statusDesc chain, d.writable = true ∧ 0 < d.len

theorem VirtioBlk.Flagged.sound {blk : VirtioBlk} {mem : GuestRam} {chain : DescChain}
    (h : blk.Flagged mem chain) : (process blk mem chain).Sound mem chain.descriptors := by
  refine ⟨process_covered blk mem chain, ?_⟩
  rw [process_log]
  intro w hw
  rcases mem_append.mp hw with hdata | hstatus
  · obtain ⟨d, hd, rfl⟩ := mem_map.mp hdata
    exact ⟨mem_fills hd, h.data d hd, Nat.le_refl _⟩
  unfold statusLog at hstatus
  split at hstatus
  next d hd =>
    split at hstatus
    · obtain rfl := mem_singleton.mp hstatus
      exact ⟨mem_of_statusDesc hd, (h.status d hd).1, (h.status d hd).2⟩
    · cases hstatus
  · cases hstatus

theorem Balloon.release_posted {mem : GuestRam} {ds : List Desc} {given : List Nat}
    (h : Complete ⟨mem, given, []⟩ (.inflate ds)) :
    GuestRam.ChangesIn {x | frameOf x ∈ given ++ posts mem ds} mem (release mem ds) := by
  have hc := changesIn_release mem ds
  refine ⟨hc.base, hc.length, fun i hi => ?_⟩
  by_cases hlt : i < mem.ram.length
  · refine hc.bytes i fun hmem => hi ?_
    obtain ⟨p, hp, hlo, hhi⟩ := hmem
    obtain ⟨pfn, hpfn, hpage⟩ := releasedPages_posts (pfnAddrs ds) rfl (fun _ _ => rfl)
      (fun pfn hpfn q hq => (h pfn hpfn q hq).2) p hp
    exact (h pfn hpfn p hpage).1 i (by omega) (by omega) hlt
  · rw [getElem?_eq_none (by rw [hc.length]; omega), getElem?_eq_none (by omega)]

theorem Virtqueue.changesIn_usedRing (q : Virtqueue) (mem : GuestRam) (head : UInt16)
    (len : UInt32) : GuestRam.ChangesIn q.usedRing mem (q.pushUsed mem head len).2 := by
  by_cases hsize : q.size = 0
  · unfold pushUsed
    rw [if_pos hsize]
    exact .refl _ mem
  have hc := changesIn_pushUsed q mem head len
  have hslot := UInt16.lt_iff_toNat_lt.mp (slot_lt hsize q.usedIdx)
  refine ⟨hc.base, hc.length, fun i hi => ?_⟩
  by_cases hlt : i < mem.ram.length
  · -- in RAM there is no address beyond 64 bits
    have hbound := mem.bounded
    have hscaled := toNat_scaled (q.usedIdx % q.size) (c := 8) (by decide)
    have helem : (q.usedElemAddr (q.usedIdx % q.size)).toNat =
        (q.deviceAddr.toNat + (4 + 8 * (q.usedIdx % q.size).toNat)) % 2 ^ 64 := by
      unfold usedElemAddr
      rw [UInt64.toNat_add, UInt64.toNat_add, hscaled]
      simp only [UInt64.reduceToNat]
      omega
    refine hc.bytes i fun hmem => hi ?_
    rcases hmem with (⟨hlo, hhi⟩ | ⟨hlo, hhi⟩) | ⟨hlo, hhi⟩
    · refine ⟨4 + 8 * (q.usedIdx % q.size).toNat +
        (mem.base + i - (q.usedElemAddr (q.usedIdx % q.size)).toNat), by omega, by omega⟩
    · rw [UInt64.toNat_add] at hlo hhi
      simp only [UInt64.reduceToNat] at hlo hhi
      refine ⟨4 + 8 * (q.usedIdx % q.size).toNat + 4 + (mem.base + i -
        ((q.usedElemAddr (q.usedIdx % q.size)).toNat + 4) % 2 ^ 64), by omega, by omega⟩
    · unfold usedIdxAddr at hlo hhi
      rw [UInt64.toNat_add] at hlo hhi
      simp only [UInt64.reduceToNat] at hlo hhi
      refine ⟨2 + (mem.base + i - (q.deviceAddr.toNat + 2) % 2 ^ 64), by omega, by omega⟩
  · rw [getElem?_eq_none (by rw [hc.length]; omega), getElem?_eq_none (by omega)]

namespace Handler

/-- What is asked of a chain: the descriptors that a block request writes to are marked writable,
and the frames of an inflation complete their host pages, where `given` was given up before. -/
def Regular (given : List Nat) : Handler → GuestRam → DescChain → Prop
  | .drain (.blk dev), mem, chain => dev.Flagged mem chain
  | .drain (.balloonInflate _), mem, chain =>
    Balloon.Complete ⟨mem, given, []⟩ (.inflate chain.descriptors)
  | _, _, _ => True

def discarded (given : List Nat) : Handler → GuestRam → DescChain → Set Nat
  | .drain (.balloonInflate _), mem, chain =>
    {x | Balloon.frameOf x ∈ given ++ Balloon.posts mem chain.descriptors}
  | _, _, _ => ∅

theorem service_confined {given : List Nat} {h : Handler} {mem : GuestRam} {chain : DescChain}
    (hreg : h.Regular given mem chain) :
    GuestRam.ChangesIn (chain.writableBytes ∪ h.discarded given mem chain) mem
      (service h mem chain).mem := by
  have hsound : (service h mem chain).Sound mem chain.descriptors →
      GuestRam.ChangesIn (chain.writableBytes ∪ h.discarded given mem chain) mem
        (service h mem chain).mem :=
    fun hs => hs.confined.mono Set.subset_union_left
  cases h with
  | drain queue =>
    cases queue with
    | blk dev => exact hsound ((VirtioBlk.Flagged.sound hreg).map _ |>.map _)
    | netTx dev | vsockTx dev =>
      obtain ⟨hmem, -, hlog⟩ := dev.transmit_silent mem chain
      exact hsound (.of_silent hmem hlog)
    | vsockEvent dev | gpuCursor dev | balloonDeflate dev | inputStatus dev =>
      exact hsound (.of_silent rfl rfl)
    | rng dev => exact hsound ((VirtioRng.fillLoop_spec chain.descriptors dev mem).1.map _ |>.map _)
    | gpuControl dev => exact hsound ((dev.control_sound mem chain).map _ |>.map _)
    | balloonInflate dev => exact (Balloon.release_posted hreg).mono Set.subset_union_right
  | netRx dev frame =>
    exact hsound ((VirtioNet.receive_sound frame.bytes dev mem chain).map fun dev => netRx dev frame)
  | vsockRx dev pkt =>
    refine hsound ?_
    unfold service
    dsimp only
    split
    · exact (VsockDevice.writeRx_sound pkt dev mem chain).map _
    · exact .of_silent rfl rfl
  | inputEvent dev ev =>
    exact hsound ((VirtioInput.deliver_sound ev dev mem chain).map fun dev => inputEvent dev ev)

end Handler

/-- **Servicing a chain changes its writable descriptors and the used ring**, and for an inflation
the frames that the guest gave up; the rest of RAM stays as it is. -/
theorem dma_confined {given : List Nat} {h : Handler} {vq : Virtqueue} {mem : GuestRam}
    {chain : DescChain} (hreg : h.Regular given mem chain) :
    GuestRam.ChangesIn (chain.writableBytes ∪ h.discarded given mem chain ∪ vq.usedRing) mem
      (serve Handler.service ⟨h, vq, mem⟩ vq chain).mem :=
  .trans ((Handler.service_confined hreg).mono Set.subset_union_left)
    ((vq.changesIn_usedRing _ chain.head _).mono Set.subset_union_right)

def scratchRam : GuestRam := ⟨0x40000000, List.replicate 64 7, by decide +kernel⟩

def scratchQueue : Virtqueue := .new 1 0x40000000 0x40000010 0x40000030

def emptyDisk : VirtioBlk := ⟨⟨[], []⟩, 0⟩

def bareRequest (writable : Bool) : DescChain :=
  ⟨0, [⟨0x40000000, 16, false⟩, ⟨0x40000020, 1, writable⟩]⟩

theorem dma_confined_bare :
    GuestRam.ChangesIn ((bareRequest true).writableBytes ∪ ∅ ∪ scratchQueue.usedRing) scratchRam
      (serve Handler.service ⟨.drain (.blk emptyDisk), scratchQueue, scratchRam⟩ scratchQueue
        (bareRequest true)).mem := by
  refine @dma_confined [] (.drain (.blk emptyDisk)) _ _ _ ⟨?_, ?_⟩ <;> decide +kernel

def twoFrames : GuestRam :=
  ⟨0x40000000, leBytes 4 0x40001 ++ List.replicate 8188 7, by
    rw [length_append, length_replicate, length_leBytes]
    decide⟩

def postSecond : DescChain := ⟨0, [⟨0x40000000, 4, false⟩]⟩

/-- **An inflation discards memory that no descriptor covers, and a block request writes its
status to a readable one.** -/
theorem dma_escapes :
    (postSecond.writableBytes = ∅ ∧ 0x40001000 ∉ scratchQueue.usedRing ∧
      (serve Handler.service ⟨.drain (.balloonInflate .new), scratchQueue, twoFrames⟩ scratchQueue
        postSecond).mem.readSlice 0x40001000 1 ≠ twoFrames.readSlice 0x40001000 1) ∧
    ((bareRequest false).writableBytes = ∅ ∧ 0x40000020 ∉ scratchQueue.usedRing ∧
      (serve Handler.service ⟨.drain (.blk emptyDisk), scratchQueue, scratchRam⟩ scratchQueue
        (bareRequest false)).mem.readSlice 0x40000020 1 ≠ scratchRam.readSlice 0x40000020 1) := by
  have hring : ∀ x ∈ scratchQueue.usedRing, 0x40000030 ≤ x ∧ x < 0x4000003c := by
    rintro x ⟨k, hk, rfl⟩
    have hk' : k < 12 := hk
    show 0x40000030 ≤ (0x40000030 + k) % 2 ^ 64 ∧ (0x40000030 + k) % 2 ^ 64 < 0x4000003c
    omega
  have hnone : ∀ {chain : DescChain}, (chain.descriptors.any fun d => d.writable) = false →
      chain.writableBytes = ∅ := by
    intro chain h
    refine Set.eq_empty_of_forall_notMem ?_
    rintro x ⟨d, hd, hw, -⟩
    rw [any_eq_false] at h
    exact h d hd hw
  refine ⟨⟨hnone rfl, fun h => ?_, ?_⟩, ⟨hnone rfl, fun h => ?_, ?_⟩⟩
  · have := hring _ h
    omega
  · decide +kernel
  · have := hring _ h
    omega
  · decide +kernel

/-! ## What is reported -/

def Serviced.Honest {δ : Type} (r : Serviced δ) : Prop :=
  (UInt32.ofNat r.len).toNat = intoWritable r.log ∧ r.len < 2 ^ 32

theorem Serviced.honest_iff {δ : Type} {r : Serviced δ} :
    r.Honest ↔ r.len = intoWritable r.log ∧ r.len < 2 ^ 32 := by
  unfold Serviced.Honest
  rw [UInt32.toNat_ofNat']
  constructor
  · rintro ⟨hlen, hlt⟩
    exact ⟨by omega, hlt⟩
  · rintro ⟨hlen, hlt⟩
    exact ⟨by omega, hlt⟩

theorem sum_filter_eq_iff {α : Type} (p : α → Bool) (f : α → Nat) (l : List α) :
    ((l.filter p).map f).sum ≤ (l.map f).sum ∧
      (((l.filter p).map f).sum = (l.map f).sum ↔ ∀ x ∈ l, p x = true ∨ f x = 0) := by
  induction l with
  | nil => simp
  | cons x l ih =>
    obtain ⟨hle, hiff⟩ := ih
    cases hp : p x with
    | true =>
      rw [filter_cons_of_pos hp]
      simp only [map_cons, sum_cons, forall_mem_cons, hp, true_or, true_and]
      exact ⟨by omega, by rw [← hiff]; omega⟩
    | false =>
      rw [filter_cons_of_neg (by rw [hp]; exact Bool.false_ne_true)]
      simp only [map_cons, sum_cons, forall_mem_cons, hp, Bool.false_eq_true,
        false_or]
      refine ⟨by omega, ?_⟩
      rw [← hiff]
      omega

theorem intoWritable_append (log log' : List (Desc × Nat)) :
    intoWritable (log ++ log') = intoWritable log + intoWritable log' := by
  unfold intoWritable
  rw [map_append, sum_append]

theorem intoWritable_of_within {log : List (Desc × Nat)}
    (h : ∀ w ∈ log, w.1.writable = true ∧ w.2 ≤ w.1.len) :
    intoWritable log = (log.map Prod.snd).sum := by
  unfold intoWritable
  congr 1
  refine map_congr_left fun w hw => ?_
  obtain ⟨hwritable, hle⟩ := h w hw
  rw [if_pos hwritable]
  exact Nat.min_eq_left hle

theorem intoWritable_full (ds : List Desc) :
    intoWritable (ds.map VirtioBlk.full) =
      ((ds.filter fun d => d.writable).map Desc.len).sum := by
  induction ds with
  | nil => rfl
  | cons d ds ih =>
    rw [map_cons, intoWritable_cons, ih]
    unfold VirtioBlk.full
    cases hd : d.writable with
    | true =>
      rw [filter_cons_of_pos (by exact hd), map_cons, sum_cons, if_pos rfl,
        Nat.min_self]
    | false =>
      rw [filter_cons_of_neg (by rw [hd]; exact Bool.false_ne_true),
        if_neg Bool.false_ne_true, Nat.zero_add]

namespace VirtioBlk

/-- The condition for a block request: its status byte has a place, its data goes to writable
descriptors, and there is room for one more byte in 32 bits. -/
structure Accountable (blk : VirtioBlk) (mem : GuestRam) (chain : DescChain) (status : Desc) :
    Prop where
  writable : status.writable = true
  room : 0 < status.len
  inRam : mem.contains status.addr 1 = true
  data : ∀ d ∈ fills blk mem chain, d.writable = true ∨ d.len = 0
  short : ((fills blk mem chain).map Desc.len).sum + 1 < 2 ^ 32

theorem fills_of_no_status {blk : VirtioBlk} {mem : GuestRam} {chain : DescChain}
    (h : statusDesc chain = none) : fills blk mem chain = [] := by
  unfold statusDesc at h
  unfold fills
  split at h
  · cases h
  · rfl

theorem process_honest_iff (blk : VirtioBlk) (mem : GuestRam) (chain : DescChain) :
    (process blk mem chain).Honest ↔ ∀ d ∈ statusDesc chain, blk.Accountable mem chain d := by
  rw [Serviced.honest_iff, process_len, process_log, intoWritable_append, intoWritable_full]
  unfold statusLog
  cases hs : statusDesc chain with
  | none =>
    rw [fills_of_no_status hs]
    exact ⟨fun _ d hd => (nomatch hd), fun _ => ⟨rfl, by decide⟩⟩
  | some d =>
    obtain ⟨hle, hiff⟩ := sum_filter_eq_iff (fun d : Desc => d.writable) Desc.len
      (fills blk mem chain)
    have hone : intoWritable (if mem.contains d.addr 1 then [(d, 1)] else []) ≤ 1 ∧
        (intoWritable (if mem.contains d.addr 1 then [(d, 1)] else []) = 1 ↔
          d.writable = true ∧ 0 < d.len ∧ mem.contains d.addr 1 = true) := by
      split
      next hin =>
        rw [intoWritable_cons, intoWritable_nil]
        dsimp only
        split
        next hd =>
          refine ⟨by omega, ?_⟩
          simp only [hd, hin, and_true, true_and]
          omega
        next hd =>
          refine ⟨by omega, ⟨fun h => absurd h (by omega), fun h => absurd h.1 hd⟩⟩
      next hin =>
        exact ⟨Nat.zero_le _, ⟨fun h => (nomatch h), fun h => absurd h.2.2 hin⟩⟩
    obtain ⟨hone, honeIff⟩ := hone
    dsimp only [Option.isSome]
    rw [if_pos rfl]
    unfold saturatingAdd32
    rw [Nat.zero_add]
    constructor
    · rintro ⟨hlen, hlt⟩ d' hd'
      obtain rfl := Option.some.inj hd'
      obtain ⟨hwritable, hroom, hin⟩ := honeIff.mp (by omega)
      exact ⟨hwritable, hroom, hin, hiff.mp (by omega), by omega⟩
    · intro h
      obtain ⟨hwritable, hroom, hin, hdata, hshort⟩ := h d rfl
      have hst := honeIff.mpr ⟨hwritable, hroom, hin⟩
      have hsum := hiff.mpr hdata
      rw [hst, hsum]
      exact ⟨by omega, by omega⟩

end VirtioBlk

theorem VsockDevice.writeRx_honest_iff (pkt : RxPacket) (dev : VsockDevice) (mem : GuestRam)
    (chain : DescChain) :
    (writeRx pkt dev mem chain).Honest ↔
      (∀ w ∈ parts (pkt.hdr.toBytes ++ pkt.data).length 0 chain.descriptors,
        mem.contains w.1.addr w.2 = true ∨ w.2 = 0) ∧
      ((parts (pkt.hdr.toBytes ++ pkt.data).length 0 chain.descriptors).map Prod.snd).sum <
        2 ^ 32 := by
  obtain ⟨⟨-, hwithin⟩, hlen, -, hlog⟩ :=
    layOut_spec (pkt.hdr.toBytes ++ pkt.data) chain.descriptors mem 0 (Nat.zero_le _)
  have hcount := intoWritable_of_within fun w hw => (hwithin w hw).2
  rw [hlog] at hcount
  rw [Nat.zero_add] at hlen
  obtain ⟨-, hiff⟩ := sum_filter_eq_iff (fun w : Desc × Nat => mem.contains w.1.addr w.2)
    Prod.snd (parts (pkt.hdr.toBytes ++ pkt.data).length 0 chain.descriptors)
  rw [Serviced.honest_iff]
  unfold writeRx
  rw [hlen, hlog, hcount, ← hiff]
  constructor
  · rintro ⟨heq, hlt⟩
    exact ⟨heq.symm, hlt⟩
  · rintro ⟨heq, hlt⟩
    exact ⟨heq.symm, hlt⟩

theorem VsockDevice.parts_eq_nil {len : Nat} (ds : List Desc) : ∀ {written : Nat},
    (ds.any fun d => d.writable) = false → parts len written ds = [] := by
  induction ds with
  | nil => exact fun _ => rfl
  | cons d ds ih =>
    intro written h
    rw [any_cons, Bool.or_eq_false_iff] at h
    unfold parts
    rw [if_neg (by rw [h.1]; exact Bool.false_ne_true)]
    exact ih h.2

theorem VirtioInput.deliver_honest_iff (ev : InputEvent) (input : VirtioInput) (mem : GuestRam)
    (chain : DescChain) :
    (deliver ev input mem chain).Honest ↔
      ∀ d ∈ target chain.descriptors, mem.contains d.addr 8 = true := by
  obtain ⟨hlen, hcount⟩ := deliver_len ev input mem chain
  rw [Serviced.honest_iff, hlen, hcount]
  cases htarget : target chain.descriptors with
  | none => exact ⟨fun _ d hd => (nomatch hd), fun _ => ⟨rfl, by decide⟩⟩
  | some d =>
    dsimp only [Option.isSome]
    rw [if_pos rfl]
    constructor
    · rintro ⟨heq, -⟩ d' hd'
      obtain rfl := Option.some.inj hd'
      by_contra hout
      rw [if_neg hout] at heq
      cases heq
    · intro hin
      rw [if_pos (hin d rfl)]
      exact ⟨rfl, by decide⟩

def Handler.Accountable : Handler → GuestRam → DescChain → Prop
  | .drain (.blk dev), mem, chain =>
    ∀ d ∈ VirtioBlk.statusDesc chain, dev.Accountable mem chain d
  | .drain (.rng _), mem, chain =>
    ((VirtioRng.fills mem chain.descriptors).map Desc.len).sum < 2 ^ 32
  | .vsockRx _ pkt, mem, chain =>
    let parts := VsockDevice.parts (pkt.hdr.toBytes ++ pkt.data).length 0 chain.descriptors
    (∀ w ∈ parts, mem.contains w.1.addr w.2 = true ∨ w.2 = 0) ∧
      (parts.map Prod.snd).sum < 2 ^ 32
  | .inputEvent _ _, mem, chain =>
    ∀ d ∈ VirtioInput.target chain.descriptors, mem.contains d.addr 8 = true
  | _, _, _ => True

theorem Serviced.Honest.of_silent {δ : Type} {r : Serviced δ} (hlen : r.len = 0)
    (hlog : r.log = []) : r.Honest := by
  rw [Serviced.honest_iff, hlen, hlog]
  exact ⟨rfl, by decide⟩

def Serviced.account {δ : Type} (r : Serviced δ) : Nat × Nat := (r.len, intoWritable r.log)

end Ignition.Devices
