import Ignition.Devices.Service

/-!
# virtio-net and virtio-rng

`VirtioNet` of `net.rs` and `VirtioRng` of `rng.rs`. The network device sends what the guest
puts on its transmit queue and lays a received frame, behind a header, over one chain of the
receive queue. The entropy device fills every writable descriptor of a chain.

Both keep to the writable descriptors (`receive_sound`, `fillLoop_spec`). The network device
reports what it wrote (`receive_len`). The entropy device adds up the lengths it filled, which a
chain can make larger than the 32 bits they are reported in.
-/

namespace Ignition.Devices

open Paged Ignition.Vmm List

/-! ## virtio-net -/

def NET_HDR_LEN : Nat := 12

def MAX_FRAME : Nat := 65536

structure VirtioNet where
  mac : Bytes
  droppedRx : Nat
  linkUp : Bool
  sent : List Bytes

namespace VirtioNet

def new (mac : Bytes) : VirtioNet := ⟨mac, 0, true, []⟩

def setLink (net : VirtioNet) (up : Bool) : VirtioNet := { net with linkUp := up }

/-- One round of `VirtioNet::drain_tx`. -/
def transmit : Service VirtioNet := fun net mem chain =>
  match chain.read mem MAX_FRAME with
  | some buf =>
    if NET_HDR_LEN < buf.length then
      ⟨{ net with sent := net.sent ++ [buf.drop NET_HDR_LEN] }, mem, 0, []⟩
    else ⟨net, mem, 0, []⟩
  | none => ⟨net, mem, 0, []⟩

/-- A frame behind a `virtio_net_hdr` with `num_buffers` set to one. -/
def withHeader (frame : Bytes) : Bytes := List.replicate 10 0 ++ [1, 0] ++ frame

/-- `VirtioNet::inject_rx`, once a chain is popped. -/
def receive (frame : Bytes) : Service VirtioNet := fun net mem chain =>
  let r := scatter (withHeader frame) mem 0 chain.descriptors
  ⟨net, r.mem, r.len, r.log⟩

def injectRx (net : VirtioNet) (vq : Virtqueue) (mem : GuestRam) (frame : Bytes) :
    Loop VirtioNet × Bool :=
  match vq.popAvail mem with
  | (vq, none) => (⟨{ net with droppedRx := net.droppedRx + 1 }, vq, mem⟩, false)
  | (vq, some chain) =>
    (serve (receive frame) ⟨net, vq, mem⟩ vq chain, 0 < (receive frame net mem chain).len)

def VIRTIO_NET_F_MAC : UInt32 := 5

def VIRTIO_NET_F_STATUS : UInt32 := 16

def deviceFeatures (sel : UInt32) : UInt32 :=
  if sel = 0 then (1 <<< VIRTIO_NET_F_MAC) ||| (1 <<< VIRTIO_NET_F_STATUS) else 0

def configRead (net : VirtioNet) (offset : Nat) (data : Bytes) : Bytes :=
  serveConfig (net.mac ++ leBytes 2 (if net.linkUp then 1 else 0)) offset data

theorem transmit_silent (net : VirtioNet) (mem : GuestRam) (chain : DescChain) :
    (transmit net mem chain).mem = mem ∧ (transmit net mem chain).len = 0 ∧
      (transmit net mem chain).log = [] := by
  unfold transmit
  repeat' split
  all_goals exact ⟨rfl, rfl, rfl⟩

theorem receive_sound (frame : Bytes) (net : VirtioNet) (mem : GuestRam) (chain : DescChain) :
    (receive frame net mem chain).Sound mem chain.descriptors := by
  obtain ⟨⟨hcovered, hwithin⟩, -⟩ :=
    scatter_spec (withHeader frame) chain.descriptors mem 0 (Nat.zero_le _)
  exact ⟨hcovered, hwithin⟩

theorem receive_len (frame : Bytes) (net : VirtioNet) (mem : GuestRam) (chain : DescChain) :
    (receive frame net mem chain).len = intoWritable (receive frame net mem chain).log ∧
      (receive frame net mem chain).len ≤ frame.length + NET_HDR_LEN := by
  obtain ⟨-, hlen, hle⟩ := scatter_spec (withHeader frame) chain.descriptors mem 0 (Nat.zero_le _)
  rw [Nat.zero_add] at hlen
  exact ⟨hlen, hle⟩

end VirtioNet

/-! ## virtio-rng -/

/-- An entropy source: the bytes the host will give and how many are used up. -/
structure VirtioRng where
  pool : Nat → UInt8
  drawn : Nat

namespace VirtioRng

/-- `fill_random` -/
def random (rng : VirtioRng) (n : Nat) : Bytes := (List.range n).map fun i => rng.pool (rng.drawn + i)

/-- The loop over the descriptors in `VirtioRng::handle_notify`. -/
def fillLoop : VirtioRng → GuestRam → List Desc → Serviced VirtioRng
  | rng, mem, [] => ⟨rng, mem, 0, []⟩
  | rng, mem, d :: ds =>
    if d.writable then
      let rng' := { rng with drawn := rng.drawn + d.len }
      match mem.writeSlice d.addr (rng.random d.len) with
      | (mem', true) =>
        let r := fillLoop rng' mem' ds
        { r with len := d.len + r.len, log := (d, d.len) :: r.log }
      | (mem', false) => fillLoop rng' mem' ds
    else fillLoop rng mem ds

/-- One round of `VirtioRng::handle_notify`. -/
def fillRandom : Service VirtioRng := fun rng mem chain => fillLoop rng mem chain.descriptors

theorem length_random (rng : VirtioRng) (n : Nat) : (rng.random n).length = n := by
  unfold random
  rw [length_map, length_range]

/-- The descriptors that can be filled. -/
def fills (mem : GuestRam) (ds : List Desc) : List Desc :=
  ds.filter fun d => d.writable && mem.contains d.addr d.len

theorem fills_congr {W : Set Nat} {mem mem' : GuestRam} (hc : GuestRam.ChangesIn W mem mem')
    (ds : List Desc) : fills mem' ds = fills mem ds := by
  refine filter_congr fun d _ => ?_
  rw [hc.contains]

theorem fillLoop_spec (ds : List Desc) : ∀ (rng : VirtioRng) (mem : GuestRam),
    (fillLoop rng mem ds).Sound mem ds ∧
      (fillLoop rng mem ds).len = intoWritable (fillLoop rng mem ds).log ∧
      (fillLoop rng mem ds).len = ((fills mem ds).map Desc.len).sum := by
  induction ds with
  | nil => exact fun rng mem => ⟨.nil rng mem 0 [], rfl, rfl⟩
  | cons d ds ih =>
    intro rng mem
    unfold fillLoop
    split
    next hd =>
      have hw := GuestRam.changesIn_writeSlice mem d.addr (rng.random d.len)
      have hsnd := mem.writeSlice_snd d.addr (rng.random d.len)
      rw [length_random] at hw hsnd
      split
      next mem' heq =>
        rw [heq] at hw hsnd
        obtain ⟨hsound, hlen, hsum⟩ := ih { rng with drawn := rng.drawn + d.len } mem'
        have hfills : fills mem (d :: ds) = d :: fills mem' ds := by
          rw [fills_congr hw]
          unfold fills
          rw [filter_cons_of_pos (by rw [hd, ← hsnd]; rfl)]
        refine ⟨⟨changesIn_logged_cons hw hsound.covered, ?_⟩, ?_, ?_⟩
        · exact (Serviced.Sound.cons hw hd (Nat.le_refl _) hsound).within
        · dsimp only
          rw [intoWritable_cons, if_pos hd, ← hlen, Nat.min_self]
        · dsimp only
          rw [hfills, map_cons, sum_cons, hsum]
      next mem' heq =>
        obtain rfl := GuestRam.eq_of_writeSlice_false heq
        rw [heq] at hsnd
        obtain ⟨hsound, hlen, hsum⟩ := ih { rng with drawn := rng.drawn + d.len } mem'
        refine ⟨hsound.skip d, hlen, ?_⟩
        rw [hsum]
        unfold fills
        rw [filter_cons_of_neg (by rw [← hsnd, Bool.and_false]; exact Bool.false_ne_true)]
    next hd =>
      obtain ⟨hsound, hlen, hsum⟩ := ih rng mem
      refine ⟨hsound.skip d, hlen, ?_⟩
      rw [hsum]
      unfold fills
      rw [filter_cons_of_neg (by rw [Bool.eq_false_of_not_eq_true hd]; exact Bool.false_ne_true)]

end VirtioRng

end Ignition.Devices
