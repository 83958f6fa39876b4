import Ignition.Devices.MuxerRuns

/-!
# From the host stream into the guest's buffers

`fill_guest_rx` lays queued packets over the chains of the receive queue: the 44 bytes of the
header, then the payload, across the writable descriptors in order. The driver gets back the
length of what was written and reads as many bytes out of its buffers. That is a frame.

The state is the receive queue with the device behind it, and the frames the driver got. The muxer
takes its steps in between (`MuxerRuns`), and so does the driver, which may do anything to RAM and
to the queue.

- The packets that are queued and the frames that were got are one sequence, and a round moves the
  border: a packet goes into the chain whole (`frame_of_roomy`).
- The muxer adds packets at the end, and the payload of those for a connection is what it reads
  from the stream (`Turn.data`).

So the payload the driver gets is a prefix of what was read (`inbound_intact`). All of it rests on
the chain being large enough. A packet that does not fit is cut at the end of the chain, and the
rest of it is lost (`small_chain_cuts`).
-/

namespace Ignition.Devices

open Paged Ignition.Vmm Runs Connection List Option

/-! ## A packet in a chain -/

def DescChain.writable (chain : DescChain) : List Desc :=
  chain.descriptors.filter fun d => d.writable

def gather (mem : GuestRam) (ds : List Desc) : Bytes :=
  ds.flatMap fun d => (mem.readSlice d.addr d.len).getD []

def NoOverlap (a n b m : Nat) : Prop := min (a + n) (b + m) ≤ max a b

instance (a n b m : Nat) : Decidable (NoOverlap a n b m) := inferInstanceAs (Decidable (_ ≤ _))

theorem NoOverlap.not_mem {a n b m x : Nat} (h : NoOverlap a n b m) (hlo : a ≤ x)
    (hhi : x < a + n) : ¬ (b ≤ x ∧ x < b + m) := by
  unfold NoOverlap at h
  omega

def Virtqueue.pushWords (q : Virtqueue) : List (Nat × Nat) :=
  let elem := q.usedElemAddr (q.usedIdx % q.size)
  [(elem.toNat, 4), ((elem + 4).toNat, 4), (q.usedIdxAddr.toNat, 2)]

theorem Virtqueue.mem_pushRange {q : Virtqueue} {x : Nat} (h : x ∈ q.pushRange) :
    ∃ w ∈ q.pushWords, w.1 ≤ x ∧ x < w.1 + w.2 := by
  rcases h with (h | h) | h
  · exact ⟨_, mem_cons_self, h⟩
  · exact ⟨_, mem_cons_of_mem _ mem_cons_self, h⟩
  · exact ⟨_, mem_cons_of_mem _ (mem_cons_of_mem _ mem_cons_self), h⟩

/-- Buffers that a packet of `n` bytes fits: in RAM, apart from each other, and clear of the words
that the queue writes when the chain is pushed. -/
structure Roomy (mem : GuestRam) (vq : Virtqueue) (ds : List Desc) (n : Nat) : Prop where
  inRam : ∀ d ∈ ds, mem.contains d.addr d.len = true
  separate : ds.Pairwise fun d d' => NoOverlap d.addr d.len d'.addr d'.len
  clear : ∀ d ∈ ds, ∀ w ∈ vq.pushWords, NoOverlap d.addr d.len w.1 w.2
  room : n ≤ (ds.map Desc.len).sum

theorem roomy_iff {mem : GuestRam} {vq : Virtqueue} {ds : List Desc} {n : Nat} :
    Roomy mem vq ds n ↔ (∀ d ∈ ds, mem.contains d.addr d.len = true) ∧
      (ds.Pairwise fun d d' => NoOverlap d.addr d.len d'.addr d'.len) ∧
      (∀ d ∈ ds, ∀ w ∈ vq.pushWords, NoOverlap d.addr d.len w.1 w.2) ∧ n ≤ (ds.map Desc.len).sum :=
  ⟨fun h => ⟨h.inRam, h.separate, h.clear, h.room⟩, fun h => ⟨h.1, h.2.1, h.2.2.1, h.2.2.2⟩⟩

instance (mem : GuestRam) (vq : Virtqueue) (ds : List Desc) (n : Nat) :
    Decidable (Roomy mem vq ds n) := decidable_of_iff _ roomy_iff.symm

namespace VsockDevice

theorem layOut_filter (buf : Bytes) (ds : List Desc) : ∀ (mem : GuestRam) (written : Nat),
    layOut buf mem written (ds.filter fun d => d.writable) = layOut buf mem written ds := by
  induction ds with
  | nil => exact fun _ _ => rfl
  | cons d ds ih =>
    intro mem written
    by_cases hd : d.writable = true
    · rw [filter_cons_of_pos hd]
      unfold layOut
      simp only [ih]
    · rw [filter_cons_of_neg hd, ih]
      conv_rhs => unfold layOut
      rw [if_neg hd]

theorem readSlice_after_layOut (buf : Bytes) {part : Bytes} {mem : GuestRam} (written : Nat)
    {d : Desc} (ds : List Desc) (hin : mem.contains d.addr d.len = true)
    (hpart : part.length ≤ d.len)
    (hread : mem.readSlice d.addr part.length = some part) (hle : written ≤ buf.length)
    (hapart : ∀ d' ∈ ds, NoOverlap d.addr d.len d'.addr d'.len) :
    ∃ b, (layOut buf mem written ds).mem.readSlice d.addr d.len = some b ∧
      b.take part.length = part := by
  obtain ⟨⟨hcovered, hwithin⟩, -⟩ := layOut_spec buf ds mem written hle
  have hcontains := hcovered.contains d.addr d.len
  rw [hin] at hcontains
  have hsame : (layOut buf mem written ds).mem.readSlice d.addr part.length = some part := by
    rw [hcovered.readSlice, hread]
    rintro x hlo hhi ⟨w, hw, hmem⟩
    obtain ⟨hds, -, hlen⟩ := hwithin w hw
    exact (hapart w.1 hds).not_mem hlo (by omega) ⟨hmem.1, by omega⟩
  refine ⟨_, GuestRam.readSlice_of_contains hcontains, ?_⟩
  rw [GuestRam.readSlice_of_contains (GuestRam.contains_mono hcontains (Nat.le_refl _)
    (by omega))] at hsame
  rw [← some.inj hsame]
  unfold slice
  rw [take_take, length_take, length_drop]
  obtain ⟨hlo, hhi⟩ := GuestRam.contains_iff.mp hcontains
  congr 1
  omega

/-- **A packet that fits is laid out whole**: the buffers begin with it. -/
theorem gather_layOut (buf : Bytes) : ∀ (ds : List Desc) (mem : GuestRam) (written : Nat),
    (∀ d ∈ ds, d.writable = true) → (∀ d ∈ ds, mem.contains d.addr d.len = true) →
    (ds.Pairwise fun d d' => NoOverlap d.addr d.len d'.addr d'.len) → written ≤ buf.length →
    buf.length ≤ written + (ds.map Desc.len).sum →
    (layOut buf mem written ds).len = buf.length ∧
      (gather (layOut buf mem written ds).mem ds).take (buf.length - written) = buf.drop written
  | [], mem, written, _, _, _, hle, hroom => by
    rw [map_nil, sum_nil] at hroom
    have hfull : written = buf.length := by omega
    refine ⟨hfull, ?_⟩
    rw [hfull, Nat.sub_self, drop_length]
    rfl
  | d :: ds, mem, written, hwr, hin, hsep, hle, hroom => by
    obtain ⟨hapart, hsep'⟩ := pairwise_cons.mp hsep
    rw [map_cons, sum_cons] at hroom
    unfold layOut
    rw [if_pos (hwr d mem_cons_self)]
    split
    next hfull =>
      have heq : written = buf.length := by omega
      refine ⟨heq, ?_⟩
      rw [heq, Nat.sub_self, drop_length, take_zero]
    next hmore =>
      dsimp only
      generalize hn : min d.len (buf.length - written) = n
      have hlen : (slice buf written n).length = n := length_slice (by omega)
      have hd := hin d mem_cons_self
      have hfits : mem.contains d.addr (slice buf written n).length = true :=
        GuestRam.contains_mono hd (Nat.le_refl _) (by omega)
      have hread := GuestRam.readSlice_writeSlice_self hfits
      have hch := GuestRam.changesIn_writeSlice mem d.addr (slice buf written n)
      obtain ⟨hram, hw⟩ := GuestRam.writeSlice_of_contains hfits
      rw [hw] at hread hch ⊢
      dsimp only at hread hch ⊢
      generalize mem.withRam _ hram = mem' at hread hch ⊢
      obtain ⟨ihlen, ih⟩ := gather_layOut buf ds mem' (written + n)
        (fun d' h => hwr d' (mem_cons_of_mem _ h))
        (fun d' h => (hch.contains _ _).trans (hin d' (mem_cons_of_mem _ h))) hsep'
        (by omega) (by omega)
      obtain ⟨b, hb, hfront⟩ := readSlice_after_layOut buf (written + n) ds
        ((hch.contains _ _).trans hd) (by omega) hread (by omega) hapart
      refine ⟨ihlen, ?_⟩
      have hblen := GuestRam.length_readSlice hb
      unfold gather
      rw [flatMap_cons, hb, getD_some]
      rw [hlen] at hfront
      have hsplit : slice buf written n ++ buf.drop (written + n) = buf.drop written := by
        rw [← drop_drop]
        exact take_append_drop n _
      by_cases hall : n = d.len
      · -- the buffer is used up, and the rest goes into the others
        rw [take_of_length_le (by omega)] at hfront
        rw [take_append, hblen, ← hall, hfront, take_of_length_le (by omega),
          Nat.sub_sub, ← hsplit]
        exact congrArg _ ih
      · -- the packet ends in this buffer
        have hrest : buf.length - written = n := by omega
        rw [hrest, take_append_of_le_length (by omega), hfront, ← hsplit,
          drop_eq_nil_of_le (by omega), append_nil]

end VsockDevice

/-! ## Frames -/

/-- A packet as the driver should see it. -/
def RxPacket.frame (pkt : RxPacket) : Bytes := pkt.hdr.toBytes ++ pkt.data

/-- The header says how long the payload is, and that it is no more than a chunk. -/
structure RxPacket.Formed (pkt : RxPacket) : Prop where
  len : pkt.hdr.len.toNat = pkt.data.length
  chunk : pkt.data.length ≤ READ_CHUNK

theorem RxPacket.length_frame (pkt : RxPacket) :
    pkt.frame.length = VSOCK_HDR_SIZE + pkt.data.length := by
  unfold frame
  rw [length_append, VsockHeader.length_toBytes]

def Whole (f : Bytes) : Prop :=
  ∃ hdr ∈ VsockHeader.fromBytes f, f.length = VSOCK_HDR_SIZE + hdr.len.toNat

instance (f : Bytes) : Decidable (Whole f) :=
  inferInstanceAs (Decidable (∃ hdr ∈ VsockHeader.fromBytes f, _))

theorem RxPacket.Formed.whole {pkt : RxPacket} (h : pkt.Formed) : Whole pkt.frame :=
  ⟨pkt.hdr, VsockHeader.fromBytes_toBytes _ _, by rw [pkt.length_frame, h.len]⟩

def payloadOf (key : ConnKey) (f : Bytes) : Bytes :=
  match VsockHeader.fromBytes f with
  | none => []
  | some hdr =>
    if hdr.op = OP_RW ∧ (hdr.dstPort, hdr.srcPort) = key then f.drop VSOCK_HDR_SIZE else []

def received (key : ConnKey) (frames : List Bytes) : Bytes := frames.flatMap (payloadOf key)

def sentFor (key : ConnKey) (pkts : List RxPacket) : Bytes :=
  pkts.flatMap fun pkt => if pkt.hdr.op = OP_RW ∧ pkt.key = key then pkt.data else []

theorem payloadOf_frame (key : ConnKey) (pkt : RxPacket) :
    payloadOf key pkt.frame = if pkt.hdr.op = OP_RW ∧ pkt.key = key then pkt.data else [] := by
  unfold payloadOf RxPacket.frame
  rw [VsockHeader.fromBytes_toBytes]
  rw [← pkt.hdr.length_toBytes, drop_left]
  rfl

theorem received_frames (key : ConnKey) (pkts : List RxPacket) :
    received key (pkts.map RxPacket.frame) = sentFor key pkts := by
  unfold received sentFor
  rw [flatMap_map]
  simp only [payloadOf_frame]

theorem sentFor_append (key : ConnKey) (pkts pkts' : List RxPacket) :
    sentFor key (pkts ++ pkts') = sentFor key pkts ++ sentFor key pkts' := flatMap_append

theorem sentFor_eq_nil {key : ConnKey} {pkts : List RxPacket}
    (h : ∀ pkt ∈ pkts, pkt.hdr.op ≠ OP_RW) : sentFor key pkts = [] :=
  flatMap_eq_nil_iff.mpr fun pkt hpkt => if_neg fun hrw => h pkt hpkt hrw.1

theorem sentFor_filter (key : ConnKey) (pkts : List RxPacket) :
    sentFor key (pkts.filter fun pkt => pkt.key = key) = sentFor key pkts := by
  induction pkts with
  | nil => rfl
  | cons pkt pkts ih =>
    unfold sentFor at ih ⊢
    by_cases hk : pkt.key = key
    · rw [filter_cons, if_pos (decide_eq_true hk), flatMap_cons, flatMap_cons, ih]
    · rw [filter_cons, if_neg fun h => hk (of_decide_eq_true h), ih, flatMap_cons,
        if_neg fun h => hk h.2, nil_append]

namespace Muxer

/-! ## What the muxer queues -/

theorem formed_ctrlPacket (op : UInt16) (key : ConnKey) (fwdCnt : UInt32) :
    (ctrlPacket op key fwdCnt).Formed := ⟨rfl, Nat.zero_le _⟩

variable {key : ConnKey} {pkt : RxPacket} {c : Connection} {m : Muxer} {e : Event}

theorem formed_of_mem_ctrl {op : UInt16} {fwdCnt : UInt32} (h : pkt ∈ [ctrlPacket op key fwdCnt]) :
    pkt.Formed := by
  rw [mem_singleton.mp h]
  exact formed_ctrlPacket _ _ _

/-- **The reads of a pass take the stream's next bytes**, a chunk a packet, and leave the others,
or come to the end of the stream. -/
theorem readAll_data : ∀ (fuel : Nat) (c : Connection),
    (∀ pkt ∈ (readAll fuel c).1, pkt.Formed) ∧
      ∃ rest, dataOf c.host.reads = sentFor (portsOf c) (readAll fuel c).1 ++ rest ∧
        ((rest = dataOf (readAll fuel c).2.host.reads ∧ (readAll fuel c).2.state = c.state) ∨
          (rest = [] ∧ (readAll fuel c).2.state = .closed))
  | 0, c => ⟨fun _ h => absurd h not_mem_nil, _, rfl, .inl ⟨rfl, rfl⟩⟩
  | fuel + 1, c => by
    have hports : portsOf c.readHost.2 = portsOf c :=
      Prod.ext c.readHost_ports.1 c.readHost_ports.2
    obtain ⟨hsome, hnone⟩ := c.readHost_data
    unfold readAll
    split
    next c' hr =>
      rw [hr] at hnone
      exact ⟨fun _ h => absurd h not_mem_nil, _, rfl, hnone rfl⟩
    rename_i data c' hr
    rw [hr] at hsome hports
    dsimp only at hsome hports ⊢
    obtain ⟨hchunk, hdata, hstate⟩ := hsome data rfl
    obtain ⟨hformed, rest, hrest, hends⟩ := readAll_data fuel c'
    have hlen : (UInt32.ofNat data.length).toNat = data.length :=
      UInt32.toNat_ofNat_of_lt' (Nat.lt_of_le_of_lt hchunk (by decide))
    refine ⟨fun pkt hpkt => ?_, rest, ?_, hstate ▸ hends⟩
    · rcases mem_cons.mp hpkt with rfl | hmem
      · exact ⟨hlen, hchunk⟩
      · exact hformed pkt hmem
    · rw [hdata, hrest, ← hports, ← append_assoc]
      congr 1
      exact congrArg (· ++ _) (if_pos ⟨rfl, rfl⟩).symm

theorem formed_of_mem_served (h : pkt ∈ served c) :
    pkt.Formed := by
  rcases mem_append.mp h with hrw | hrst
  · exact (readAll_data _ _).1 pkt hrw
  unfold closingRst at hrst
  dsimp only at hrst
  split at hrst
  · exact formed_of_mem_ctrl hrst
  · exact absurd hrst not_mem_nil

theorem sentFor_served (c : Connection) :
    ∃ rest, dataOf c.host.reads = sentFor (portsOf c) (served c) ++ rest ∧
      ∀ b, keepOpen c = some b → rest = dataOf b.host.reads := by
  obtain ⟨-, rest, hrest, hends⟩ := readAll_data (readsLeft c.flushTx) c.flushTx
  have hports : portsOf c.flushTx = portsOf c :=
    Prod.ext c.flushTx_ports.1 c.flushTx_ports.2.1
  rw [c.flushTx_ports.2.2, hports] at hrest
  refine ⟨rest, ?_, fun b hb => ?_⟩
  · unfold served
    have hrst : sentFor (portsOf c) (closingRst c).toList = [] := by
      refine sentFor_eq_nil fun pkt hpkt => ?_
      unfold closingRst at hpkt
      dsimp only at hpkt
      split at hpkt
      · rw [mem_singleton.mp hpkt]
        show OP_RST ≠ OP_RW
        decide
      · exact absurd hpkt not_mem_nil
    rw [sentFor_append, hrst, append_nil]
    exact hrest
  · obtain ⟨hst, rfl⟩ := keepOpen_eq_some.mp hb
    rcases hends with ⟨hleft, -⟩ | ⟨-, hclosed⟩
    · exact hleft
    · exact absurd hclosed hst

def Reopens (m : Muxer) (key : ConnKey) : Event → Prop
  | .tx hdr _ => hdr.op = OP_REQUEST ∧ hdr.key = key
  | .accept _ _ => False
  | .poll fd =>
    (m.ctrlStreams.lookup fd).any (fun cs =>
      match polled cs with
      | .connect guestPort _ => (guestPort, m.allocHostPort.1) = key
      | _ => False) = true
  | .service => False

instance (m : Muxer) (key : ConnKey) : ∀ e, Decidable (m.Reopens key e)
  | .tx _ _ => inferInstanceAs (Decidable (_ ∧ _))
  | .accept _ _ => isFalse id
  | .poll _ => inferInstanceAs (Decidable (_ = true))
  | .service => isFalse id

theorem answer_op_ne_rw {hdr : VsockHeader} (h : pkt ∈ answer hdr c) : pkt.hdr.op ≠ OP_RW := by
  unfold answer at h
  split at h
  · rw [mem_singleton.mp h]
    show OP_CREDIT_UPDATE ≠ OP_RW
    decide
  · split at h
    · exact absurd h not_mem_nil
    rw [mem_singleton.mp h]
    show OP_RST ≠ OP_RW
    decide

theorem formed_of_mem_answer {hdr : VsockHeader} (h : pkt ∈ answer hdr c) : pkt.Formed := by
  unfold answer at h
  split at h
  · exact formed_of_mem_ctrl h
  split at h
  · exact absurd h not_mem_nil
  · exact formed_of_mem_ctrl h

theorem Turn.formed {c c' : Option Connection} {news : List RxPacket} (h : Turn m key e c news c') :
    ∀ pkt ∈ news, pkt.Formed := by
  intro pkt hpkt
  cases h with
  | idle => exact absurd hpkt not_mem_nil
  | opened | refused | stray | closed | promoted => exact formed_of_mem_ctrl hpkt
  | packet => exact formed_of_mem_answer hpkt
  | pass =>
    rcases mem_append.mp hpkt with hrst | hserved
    · rw [(mem_replicate.mp hrst).2]
      exact formed_ctrlPacket _ _ _
    · cases c with
      | none => exact absurd hserved not_mem_nil
      | some a => exact formed_of_mem_served hserved

theorem formed_newly {m' : Muxer} (h : Stepped m e m') :
    ∀ pkt ∈ newly m m', pkt.Formed := fun pkt hpkt =>
  (h.turn pkt.key).formed pkt (mem_filter.mpr ⟨hpkt, decide_eq_true rfl⟩)

/-- **A turn sends what it reads**: the payload it queues for the pair is what the stream of its
connection had to say before and has not any more. -/
theorem Turn.data {c c' : Option Connection} {news : List RxPacket} (h : Turn m key e c news c')
    (hre : ¬ m.Reopens key e) (hports : ∀ a, c = some a → portsOf a = key) {rest : Bytes}
    (hrest : ∀ a, c = some a → rest = dataOf a.host.reads) :
    ∃ rest', rest = sentFor key news ++ rest' ∧ ∀ b, c' = some b → rest' = dataOf b.host.reads := by
  cases h with
  | idle | stray => exact ⟨rest, rfl, hrest⟩
  | opened _ _ _ hop hkey | refused _ _ hop hkey => exact absurd ⟨hop, hkey⟩ hre
  | @packet hdr payload a a' _ _ hp =>
    refine ⟨rest, ?_, fun b hb => ?_⟩
    · rw [sentFor_eq_nil fun _ => answer_op_ne_rw]
      rfl
    · cases hb
      rw [(onPacket_ports hp).2.2]
      exact hrest a rfl
  | closed => exact ⟨rest, rfl, fun b hb => absurd hb (some_ne_none b).symm⟩
  | promoted hcs hp halloc =>
    refine absurd ?_ hre
    show (m.ctrlStreams.lookup _).any _ = true
    rw [hcs, any_some, hp, halloc]
    exact decide_eq_true rfl
  | pass =>
    have hrsts : sentFor key
        (replicate (m.pendingRst.count key) (ctrlPacket OP_RST key 0)) = [] := by
      refine sentFor_eq_nil fun pkt hpkt => ?_
      rw [(mem_replicate.mp hpkt).2]
      show OP_RST ≠ OP_RW
      decide
    cases c with
    | none => exact ⟨rest, by rw [sentFor_append, hrsts]; rfl, hrest⟩
    | some a =>
      obtain ⟨rest', hdata, hkept⟩ := sentFor_served a
      refine ⟨rest', ?_, hkept⟩
      rw [sentFor_append, hrsts, hrest a rfl, hdata, hports a rfl]
      rfl

end Muxer

/-! ## The receive queue -/

namespace Inbound

open Muxer VsockDevice

structure State where
  loop : Loop VsockDevice
  frames : List Bytes

inductive Action where
  | mux (e : Event)
  | driver (mem : GuestRam) (vq : Virtqueue)
  | round

abbrev State.mux (s : State) : Muxer := s.loop.dev.muxer

def State.popped (s : State) (rxq : List RxPacket) : Loop VsockDevice :=
  { s.loop with dev := ⟨{ s.mux with rxq := rxq }⟩ }

def State.deliver (s : State) (pkt : RxPacket) (rxq : List RxPacket) (vq : Virtqueue)
    (chain : DescChain) : Loop VsockDevice :=
  serve (writeRx pkt) (s.popped rxq) vq chain

def State.frame (s : State) (pkt : RxPacket) (rxq : List RxPacket) (vq : Virtqueue)
    (chain : DescChain) : Bytes :=
  let len := UInt32.ofNat (writeRx pkt (s.popped rxq).dev s.loop.mem chain).len
  (gather (s.deliver pkt rxq vq chain).mem chain.writable).take len.toNat

/-- One round of `VsockDevice::fill_guest_rx`, with the frame the driver gets. -/
def fill (s : State) : State :=
  match s.mux.rxq with
  | [] => s
  | pkt :: rxq =>
    match s.loop.vq.popAvail s.loop.mem with
    | (vq, none) => { s with loop := { s.loop with vq := vq } }
    | (vq, some chain) =>
      if chain.descriptors.any fun d => d.writable then
        ⟨s.deliver pkt rxq vq chain, s.frames ++ [s.frame pkt rxq vq chain]⟩
      else { s with loop := serve acknowledge s.loop vq chain }

def step (s : State) : Action → Option State
  | .mux e => (s.mux.step e).map fun m => { s with loop := { s.loop with dev := ⟨m⟩ } }
  | .driver mem vq => some { s with loop := { s.loop with mem := mem, vq := vq } }
  | .round => some (fill s)

/-- **A call of `fill_guest_rx` is a run of rounds**, and reports whether they delivered anything. -/
theorem rounds_of_fillGuestRx : ∀ {fuel : Nat} {s : State} {delivered : Bool}
    {l : Loop VsockDevice}, fillGuestRx fuel s.loop = some (delivered, l) →
    ∃ n s' fs, after step s (replicate n .round) = some s' ∧ s'.loop = l ∧
      s'.frames = s.frames ++ fs ∧ (delivered = true ↔ fs ≠ [])
  | 0, _, _, _, h => by cases h
  | fuel + 1, s, delivered, l, h => by
    have hquiet : false = true ↔ ([] : List Bytes) ≠ [] := by decide
    -- a round, and the rest of the call
    have hround : ∀ (s₁ : State) {b : Bool}, fill s = s₁ →
        fillGuestRx fuel s₁.loop = some (b, l) →
        ∃ n s' fs, after step s (replicate n .round) = some s' ∧ s'.loop = l ∧
          s'.frames = s₁.frames ++ fs ∧ (b = true ↔ fs ≠ []) := by
      rintro s₁ b rfl hrest
      obtain ⟨n, s', fs, hafter, hl⟩ := rounds_of_fillGuestRx hrest
      exact ⟨n + 1, s', fs, hafter, hl⟩
    unfold fillGuestRx at h
    split at h
    · rw [some.injEq, Prod.mk.injEq] at h
      obtain ⟨rfl, hl⟩ := h
      exact ⟨0, s, [], rfl, hl, (append_nil _).symm, hquiet⟩
    rename_i pkt rxq hrxq
    split at h
    next vq hpop =>
      rw [some.injEq, Prod.mk.injEq] at h
      obtain ⟨rfl, hl⟩ := h
      have hfill : fill s = { s with loop := { s.loop with vq := vq } } := by
        unfold fill State.mux
        rw [hrxq, hpop]
      exact ⟨1, _, [], congrArg some hfill, hl, (append_nil _).symm, hquiet⟩
    next vq chain hpop =>
      split at h
      next hany =>
        obtain ⟨⟨b, l'⟩, hrest, heq⟩ := map_eq_some_iff.mp h
        obtain ⟨rfl, rfl⟩ := Prod.mk.inj heq
        obtain ⟨n, s', fs, hafter, hl, hframes, -⟩ :=
          hround ⟨s.deliver pkt rxq vq chain, s.frames ++ [s.frame pkt rxq vq chain]⟩ (by
            unfold fill State.mux
            rw [hrxq, hpop]
            exact if_pos hany) hrest
        exact ⟨n, s', _, hafter, hl, hframes.trans (append_assoc ..), by simp⟩
      next hany =>
        refine hround { s with loop := serve acknowledge s.loop vq chain } ?_ h
        unfold fill State.mux
        rw [hrxq, hpop]
        exact if_neg hany

/-! ### Rounds -/

/-- What a round does: it hands the first packet to the driver, or leaves packets and frames. -/
inductive Filled (s : State) : State → Prop where
  | none {s' : State} : s'.mux = s.mux → s'.frames = s.frames → Filled s s'
  | some {pkt : RxPacket} {rxq : List RxPacket} {vq : Virtqueue} {chain : DescChain} :
      s.mux.rxq = pkt :: rxq → s.loop.vq.popAvail s.loop.mem = (vq, some chain) →
      chain.descriptors.any (fun d => d.writable) = true →
      Filled s ⟨s.deliver pkt rxq vq chain, s.frames ++ [s.frame pkt rxq vq chain]⟩

theorem filled (s : State) : Filled s (fill s) := by
  unfold fill
  split
  · exact .none rfl rfl
  rename_i hrxq
  split
  · exact .none rfl rfl
  rename_i hpop
  split
  next hany => exact .some hrxq hpop hany
  · exact .none rfl rfl

def Ample (s : State) : Action → Prop
  | .round =>
    ∀ pkt ∈ s.mux.rxq.head?, ∀ chain ∈ (s.loop.vq.popAvail s.loop.mem).2,
      chain.writable = [] ∨
        Roomy s.loop.mem (s.loop.vq.popAvail s.loop.mem).1 chain.writable pkt.frame.length
  | _ => True

instance (s : State) : ∀ a, Decidable (Ample s a)
  | .round => inferInstanceAs (Decidable (∀ pkt ∈ s.mux.rxq.head?, _))
  | .mux _ => isTrue trivial
  | .driver _ _ => isTrue trivial

variable {s : State}

/-- **A packet goes into a chain with room for it whole.** -/
theorem frame_of_roomy {pkt : RxPacket} (rxq : List RxPacket) {vq : Virtqueue} {chain : DescChain}
    (hformed : pkt.Formed) (h : Roomy s.loop.mem vq chain.writable pkt.frame.length) :
    s.frame pkt rxq vq chain = pkt.frame := by
  have hwr : ∀ d ∈ chain.writable, d.writable = true := fun d hd => (mem_filter.mp hd).2
  obtain ⟨hlen, hgather⟩ := gather_layOut pkt.frame chain.writable s.loop.mem 0 hwr h.inRam
    h.separate (Nat.zero_le _) (by rw [Nat.zero_add]; exact h.room)
  unfold DescChain.writable at hlen hgather
  rw [layOut_filter] at hlen hgather
  have hsmall : pkt.frame.length < 2 ^ 32 := by
    have hchunk := hformed.chunk
    unfold READ_CHUNK at hchunk
    rw [pkt.length_frame, VSOCK_HDR_SIZE]
    omega
  -- the push leaves the buffers
  have hpush : gather (s.deliver pkt rxq vq chain).mem chain.writable =
      gather (layOut pkt.frame s.loop.mem 0 chain.descriptors).mem chain.writable := by
    refine flatMap_congr fun d hd => ?_
    have hch := vq.changesIn_pushUsed (layOut pkt.frame s.loop.mem 0 chain.descriptors).mem
      chain.head (UInt32.ofNat (layOut pkt.frame s.loop.mem 0 chain.descriptors).len)
    refine congrArg (getD · []) (hch.readSlice fun x hlo hhi hmem => ?_)
    obtain ⟨w, hw, hin⟩ := Virtqueue.mem_pushRange hmem
    exact (h.clear d hd w hw).not_mem hlo hhi hin
  unfold State.frame
  dsimp only
  rw [hpush]
  have htold : (UInt32.ofNat (writeRx pkt (s.popped rxq).dev s.loop.mem chain).len).toNat =
      pkt.frame.length := by
    show (UInt32.ofNat (layOut pkt.frame s.loop.mem 0 chain.descriptors).len).toNat = _
    rw [hlen]
    exact UInt32.toNat_ofNat_of_lt' hsmall
  rw [htold]
  exact hgather

/-! ### Runs -/

/-- Connections are filed under their ports, and queued packets are well formed. -/
structure Sane (s : State) : Prop where
  keyed : s.mux.Keyed
  formed : ∀ pkt ∈ s.mux.rxq, pkt.Formed

theorem Sane.step {s' : State} {a : Action} (h : Sane s) (hst : step s a = some s') :
    Sane s' := by
  cases a with
  | mux e =>
    obtain ⟨m, hm, rfl⟩ := map_eq_some_iff.mp hst
    have hspec := stepped h.keyed hm
    refine ⟨h.keyed.step hm, fun pkt hpkt => ?_⟩
    change pkt ∈ m.rxq at hpkt
    rw [hspec.rxq] at hpkt
    rcases mem_append.mp hpkt with hold | hnew
    · exact h.formed pkt hold
    · exact formed_newly hspec pkt hnew
  | driver mem vq =>
    cases hst
    exact ⟨h.keyed, h.formed⟩
  | round =>
    cases hst
    have hfilled := filled s
    generalize fill s = s' at hfilled ⊢
    cases hfilled with
    | none hmux _ =>
      refine ⟨?_, ?_⟩
      · rw [hmux]
        exact h.keyed
      · rw [hmux]
        exact h.formed
    | some hrxq _ _ =>
      refine ⟨h.keyed, fun pkt hpkt => h.formed pkt ?_⟩
      rw [hrxq]
      exact mem_cons_of_mem _ hpkt

def State.line (s : State) : List Bytes := s.frames ++ s.mux.rxq.map RxPacket.frame

def Fits (key : ConnKey) (s : State) (a : Action) : Prop :=
  Ample s a ∧ ∀ e, a = .mux e → ¬ s.mux.Reopens key e

instance (key : ConnKey) (s : State) : ∀ a, Decidable (Fits key s a)
  | .mux e =>
    if h : s.mux.Reopens key e then isFalse fun hf => hf.2 e rfl h
    else isTrue ⟨trivial, fun e' he => by
      injection he with he
      exact he ▸ h⟩
  | .driver _ _ => isTrue ⟨trivial, fun _ he => Action.noConfusion he⟩
  | .round =>
    if h : Ample s .round then isTrue ⟨h, fun _ he => Action.noConfusion he⟩
    else isFalse fun hf => h hf.1

/-- What has happened since `s₁`, where the stream of the pair's connection had `total` to say:
packets were queued behind those of that time, whose payload for the pair is the front of it. -/
structure Flow (s₁ : State) (key : ConnKey) (total : Bytes) (s : State) : Prop where
  sane : Sane s
  since : ∃ news : List RxPacket, s.line = s₁.line ++ news.map RxPacket.frame ∧
    (∀ pkt ∈ news, pkt.Formed) ∧ ∃ rest, total = sentFor key news ++ rest ∧
      ∀ c, s.mux.conn key = some c → rest = dataOf c.host.reads
  frames : s₁.frames <+: s.frames

theorem Flow.step {s₁ s' : State} {key : ConnKey} {total : Bytes} {a : Action}
    (h : Flow s₁ key total s) (hok : Fits key s a) (hst : step s a = some s') :
    Flow s₁ key total s' := by
  refine ⟨h.sane.step hst, ?_, ?_⟩
  · obtain ⟨news, hline, hformed, rest, htotal, hrest⟩ := h.since
    cases a with
    | mux e =>
      obtain ⟨m, hm, rfl⟩ := map_eq_some_iff.mp hst
      have hspec := stepped h.sane.keyed hm
      obtain ⟨rest', hsent, hrest'⟩ :=
        (hspec.turn key).data (hok.2 e rfl) (h.sane.keyed key) hrest
      rw [sentFor_filter] at hsent
      refine ⟨news ++ newly s.mux m, ?_, fun pkt hpkt => ?_, rest', ?_, hrest'⟩
      · rw [map_append, ← append_assoc, ← hline]
        unfold State.line
        dsimp only [State.mux]
        rw [hspec.rxq, map_append, append_assoc]
      · rcases mem_append.mp hpkt with hold | hnew
        · exact hformed pkt hold
        · exact formed_newly hspec pkt hnew
      · rw [sentFor_append, append_assoc, ← hsent]
        exact htotal
    | driver mem vq =>
      cases hst
      exact ⟨news, hline, hformed, rest, htotal, hrest⟩
    | round =>
      cases hst
      -- the round moves the border between frames and packets
      have hmoves : (fill s).line = s.line ∧ ∀ k, (fill s).mux.conn k = s.mux.conn k := by
        have hample := hok.1
        have hfilled := filled s
        generalize fill s = s' at hfilled ⊢
        cases hfilled with
        | none hmux hframes =>
          unfold State.line
          rw [hmux, hframes]
          exact ⟨rfl, fun _ => rfl⟩
        | @some pkt rxq vq chain hrxq hpop hany =>
          have hroom := hample pkt (by rw [hrxq]; rfl) chain (by rw [hpop]; rfl)
          rw [hpop] at hroom
          have hne : chain.writable ≠ [] := by
            obtain ⟨d, hd, hw⟩ := any_eq_true.mp hany
            exact ne_nil_of_mem (mem_filter.mpr ⟨hd, hw⟩)
          have hframe := frame_of_roomy rxq
            (h.sane.formed pkt (hrxq ▸ mem_cons_self)) (hroom.resolve_left hne)
          refine ⟨?_, fun _ => rfl⟩
          unfold State.line
          rw [hrxq, hframe, map_cons, append_assoc]
          rfl
      refine ⟨news, hmoves.1.trans hline, hformed, rest, htotal, fun c hc => hrest c ?_⟩
      rw [← hmoves.2]
      exact hc
  · refine h.frames.trans ?_
    cases a with
    | mux e =>
      obtain ⟨m, -, rfl⟩ := map_eq_some_iff.mp hst
      exact prefix_refl _
    | driver mem vq =>
      cases hst
      exact prefix_refl _
    | round =>
      cases hst
      have hfilled := filled s
      generalize fill s = s' at hfilled ⊢
      cases hfilled with
      | none _ hframes => exact hframes ▸ prefix_refl _
      | some => exact prefix_append _ _

def Fresh (s : State) : Prop := s.mux.Started

theorem Fresh.sane (h : Fresh s) : Sane s := by
  refine ⟨h.keyed, ?_⟩
  obtain ⟨dials, keys, hm⟩ := h
  intro pkt hpkt
  rw [hm] at hpkt
  exact absurd hpkt not_mem_nil

/-- **The stream is intact on its way to the guest**, as long as the chains have room: what the
driver gets of the packets queued since some time is a prefix of what was read from the stream
since, and every frame has its whole header and payload. -/
theorem inbound_intact {s₀ s₁ s₂ : State} {as bs : List Action} {key : ConnKey} {c : Connection}
    (hfresh : Fresh s₀) (hrun : Run step (fun _ _ => True) s₀ as s₁)
    (hc : s₁.mux.conn key = some c) (hafter : Run step (Fits key) s₁ bs s₂) :
    (∀ f ∈ s₂.frames.drop s₁.frames.length, Whole f) ∧
      ∃ read rest, dataOf c.host.reads = read ++ rest ∧
        received key (s₂.frames.drop s₁.line.length) <+: read ∧
        ∀ c', s₂.mux.conn key = some c' → rest = dataOf c'.host.reads := by
  have hsane : Sane s₁ := hrun.invariant (fun _ _ _ h _ hst => h.step hst) hfresh.sane
  have hstart : Flow s₁ key (dataOf c.host.reads) s₁ := by
    refine ⟨hsane, ⟨[], (append_nil _).symm, fun _ h => absurd h not_mem_nil,
      _, rfl, fun c' hc' => ?_⟩, prefix_refl _⟩
    rw [some.inj (hc.symm.trans hc')]
  have hflow : Flow s₁ key (dataOf c.host.reads) s₂ :=
    hafter.invariant (fun _ _ _ h hok hst => h.step hok hst) hstart
  obtain ⟨news, hline, hformed, rest, htotal, hrest⟩ := hflow.since
  have hpre : s₂.frames <+: s₁.line ++ news.map RxPacket.frame :=
    hline ▸ prefix_append _ _
  refine ⟨fun f hf => ?_, sentFor key news, rest, htotal, ?_, hrest⟩
  · have hmem : f ∈ (s₁.line ++ news.map RxPacket.frame).drop s₁.frames.length :=
      (hpre.drop _).subset hf
    unfold State.line at hmem
    rw [append_assoc, drop_left, ← map_append] at hmem
    obtain ⟨pkt, hpkt, rfl⟩ := mem_map.mp hmem
    rcases mem_append.mp hpkt with hold | hnew
    · exact (hsane.formed pkt hold).whole
    · exact (hformed pkt hnew).whole
  · have hdrop := hpre.drop s₁.line.length
    rw [drop_left] at hdrop
    obtain ⟨tail, htail⟩ := hdrop
    refine ⟨received key tail, ?_⟩
    rw [← received_frames, ← htail]
    exact flatMap_append.symm

/-! ### A host that says five bytes -/

theorem bounded_take (b : Bytes) : 0x40000000 + (b.take 512).length ≤ 2 ^ 64 := by
  rw [length_take]
  omega

def posted (lens : List Nat) : GuestRam :=
  let entry := fun (e : Nat × Nat) =>
    leBytes 8 (0x40000080 + 64 * e.2) ++ leBytes 4 e.1 ++ leBytes 2 2 ++ leBytes 2 0
  let table := lens.zipIdx.flatMap entry
  let avail := leBytes 2 0 ++ leBytes 2 lens.length ++ (List.range 4).flatMap (leBytes 2)
  ⟨0x40000000, (table ++ List.replicate (64 - table.length) 0 ++ avail ++
    List.replicate 308 0).take 512, bounded_take _⟩

def talker (lens : List Nat) : State :=
  ⟨⟨.new [some ⟨[], [], [], [.data [1, 2, 3, 4], .data [5]]⟩],
    .new 4 0x40000000 0x40000040 0x40000050, posted lens⟩, []⟩

theorem inbound_intact_talker : ∃ s₁ s₂ c,
    Run step (fun _ _ => True) (talker [64, 64, 64]) [.mux (.tx (guestPacket OP_REQUEST) [])] s₁ ∧
      s₁.mux.conn (1024, 5000) = some c ∧
      Run step (Fits (1024, 5000)) s₁ [.mux .service, .round, .round, .round] s₂ ∧
      received (1024, 5000) (s₂.frames.drop s₁.line.length) = [1, 2, 3, 4, 5] ∧
      (∀ f ∈ s₂.frames.drop s₁.frames.length, Whole f) ∧
      ∃ read rest, dataOf c.host.reads = read ++ rest ∧
        received (1024, 5000) (s₂.frames.drop s₁.line.length) <+: read ∧
        ∀ c', s₂.mux.conn (1024, 5000) = some c' → rest = dataOf c'.host.reads := by
  obtain ⟨s₁, hrun, hsome, hrest⟩ : ∃ s₁, Run step (fun _ _ => True) (talker [64, 64, 64])
      [.mux (.tx (guestPacket OP_REQUEST) [])] s₁ ∧ (s₁.mux.conn (1024, 5000)).isSome ∧
        ∃ s₂ ∈ after (checked step (Fits (1024, 5000))) s₁ [.mux .service, .round, .round, .round],
          received (1024, 5000) (s₂.frames.drop s₁.line.length) = [1, 2, 3, 4, 5] :=
    exists_run (by decide +kernel)
  obtain ⟨c, hc⟩ := isSome_iff_exists.mp hsome
  obtain ⟨s₂, hafter, hgot⟩ := exists_run hrest
  exact ⟨s₁, s₂, c, hrun, hc, hafter, hgot, inbound_intact ⟨_, [], rfl⟩ hrun hc hafter⟩

theorem rounds_of_fillGuestRx_talker : ∃ s l n s' fs, fillGuestRx 9 s.loop = some (true, l) ∧
    after step s (replicate n .round) = some s' ∧ s'.loop = l ∧ s'.frames = s.frames ++ fs ∧
    fs ≠ [] := by
  obtain ⟨s, -, hsome⟩ : ∃ s, Run step (fun _ _ => True) (talker [64, 64, 64])
      [.mux (.tx (guestPacket OP_REQUEST) []), .mux .service] s ∧
        (fillGuestRx 9 s.loop).map Prod.fst = some true := exists_run (by decide +kernel)
  obtain ⟨⟨b, l⟩, hfill, rfl⟩ := map_eq_some_iff.mp hsome
  obtain ⟨n, s', fs, hafter, hl, hframes, hiff⟩ := rounds_of_fillGuestRx hfill
  exact ⟨s, l, n, s', fs, hfill, hafter, hl, hframes, hiff.mp rfl⟩

/-- **A small chain cuts the packet**: of four bytes the second buffer has room for two, the others
are lost, and the fifth one follows. -/
theorem small_chain_cuts : ∃ s, Run step (fun _ _ => True) (talker [44, 46, 64])
    [.mux (.tx (guestPacket OP_REQUEST) []), .mux .service, .round, .round, .round] s ∧
      s.frames.map List.length = [44, 46, 45] ∧ ¬ (∀ f ∈ s.frames, Whole f) ∧
      received (1024, 5000) s.frames = [1, 2, 5] ∧
      ¬ received (1024, 5000) s.frames <+: dataOf [.data [1, 2, 3, 4], .data [5]] :=
  exists_run (by decide +kernel)

end Inbound

end Ignition.Devices
