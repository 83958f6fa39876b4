import Ignition.Devices.Dma

/-!
# A payload over the writable descriptors

The GPU's answers and the frames of the network device go to the guest in the same way (`scatter`):
part by part into the writable descriptors of a chain, in order. A part whose place is not in RAM is
tried at the next descriptor.

`pieces` lists the writes that are made, with their bytes, and `layout` those that would be made if
all of RAM were there: the payload end to end over the descriptors. The writes are what changes RAM
(`scatter_mem`), and together they are the beginning of the payload (`pieces_bytes`). They are the
layout if and only if every part of it lies in RAM (`pieces_eq_layout_iff`).

For a frame that means: it arrives whole if its layout is in RAM and has room for it. If not, the
device puts into the chain what it can and reports that as a packet (`injectRx_whole_iff`).
-/

namespace Ignition.Devices

open Paged Ignition.Vmm List

/-! ## The writes -/

/-- The writes of `scatter`: where, and what. -/
def pieces (payload : Bytes) (mem : GuestRam) : Nat → List Desc → List (Nat × Bytes)
  | _, [] => []
  | off, d :: ds =>
    if d.writable && off < payload.length then
      let n := min d.len (payload.length - off)
      if mem.contains d.addr n then
        (d.addr, slice payload off n) :: pieces payload mem (off + n) ds
      else pieces payload mem off ds
    else pieces payload mem off ds

/-- The payload from `off` on, end to end over the writable descriptors. -/
def layout (payload : Bytes) : Nat → List Desc → List (Nat × Bytes)
  | _, [] => []
  | off, d :: ds =>
    if d.writable && off < payload.length then
      let n := min d.len (payload.length - off)
      (d.addr, slice payload off n) :: layout payload (off + n) ds
    else layout payload off ds

def total (ws : List (Nat × Bytes)) : Nat := (ws.map fun w => w.2.length).sum

def GuestRam.putAll (mem : GuestRam) (ws : List (Nat × Bytes)) : GuestRam :=
  ws.foldl (fun m w => (m.writeSlice w.1 w.2).1) mem

def room (ds : List Desc) : Nat := ((ds.filter fun d => d.writable).map Desc.len).sum

section

variable {payload : Bytes} {mem mem' : GuestRam} {d : Desc} {ds : List Desc} {off : Nat}

theorem total_cons (w : Nat × Bytes) (ws : List (Nat × Bytes)) :
    total (w :: ws) = w.2.length + total ws := rfl

theorem length_part (hoff : off < payload.length) (n : Nat) :
    (slice payload off (min n (payload.length - off))).length = min n (payload.length - off) :=
  length_slice (by omega)

theorem pieces_congr (h : ∀ gpa n, mem'.contains gpa n = mem.contains gpa n) :
    ∀ (ds : List Desc) (off : Nat), pieces payload mem' off ds = pieces payload mem off ds
  | [], _ => rfl
  | d :: ds, off => by
    unfold pieces
    dsimp only
    rw [h, pieces_congr h ds, pieces_congr h ds]

theorem pieces_of_not (h : (d.writable && decide (off < payload.length)) = false) :
    pieces payload mem off (d :: ds) = pieces payload mem off ds := by
  rw [pieces, h]
  rfl

theorem scatter_of_not (h : (d.writable && decide (off < payload.length)) = false) :
    scatter payload mem off (d :: ds) = scatter payload mem off ds := by
  rw [scatter, h]
  rfl

/-- **The writes are what changes RAM, and what is counted.** -/
theorem scatter_mem : ∀ (ds : List Desc) (mem : GuestRam) (off : Nat),
    (scatter payload mem off ds).mem = mem.putAll (pieces payload mem off ds) ∧
      (scatter payload mem off ds).len = off + total (pieces payload mem off ds)
  | [], mem, off => ⟨rfl, rfl⟩
  | d :: ds, mem, off => by
    cases hgo : d.writable && decide (off < payload.length) with
    | false =>
      rw [pieces_of_not hgo, scatter_of_not hgo]
      exact scatter_mem ds mem off
    | true =>
      have hoff := of_decide_eq_true (Bool.and_eq_true_iff.mp hgo).2
      have hpart := length_part hoff d.len
      rw [scatter, pieces, hgo]
      simp only [if_true]
      generalize hn : min d.len (payload.length - off) = n at hpart ⊢
      cases hin : mem.contains d.addr n with
      | false =>
        rw [GuestRam.writeSlice_of_not_contains (hpart.symm ▸ hin)]
        exact scatter_mem ds mem off
      | true =>
        obtain ⟨hlen, hw⟩ := GuestRam.writeSlice_of_contains (hpart.symm ▸ hin)
        have hc := GuestRam.changesIn_writeSlice mem d.addr (slice payload off n)
        rw [hw] at hc
        rw [hw]
        obtain ⟨hmem, hcount⟩ := scatter_mem ds (mem.withRam _ hlen) (off + n)
        rw [pieces_congr hc.contains] at hmem hcount
        simp only [if_true]
        refine ⟨?_, ?_⟩
        · rw [hmem]
          unfold GuestRam.putAll
          rw [foldl_cons, hw]
        · rw [hcount, total_cons, hpart, Nat.add_assoc]

theorem pieces_bytes : ∀ (ds : List Desc) (off : Nat), off ≤ payload.length →
    (pieces payload mem off ds).flatMap Prod.snd =
        slice payload off (total (pieces payload mem off ds)) ∧
      off + total (pieces payload mem off ds) ≤ payload.length
  | [], off, hoff => ⟨(take_zero).symm, hoff⟩
  | d :: ds, off, hoff => by
    cases hgo : d.writable && decide (off < payload.length) with
    | false =>
      rw [pieces_of_not hgo]
      exact pieces_bytes ds off hoff
    | true =>
      have hlt := of_decide_eq_true (Bool.and_eq_true_iff.mp hgo).2
      have hpart := length_part hlt d.len
      rw [pieces, hgo]
      simp only [if_true]
      generalize hn : min d.len (payload.length - off) = n at hpart ⊢
      cases mem.contains d.addr n with
      | false => exact pieces_bytes ds off hoff
      | true =>
        obtain ⟨hbytes, hle⟩ := pieces_bytes ds (off + n) (by omega)
        simp only [if_true, flatMap_cons, total_cons, hbytes, hpart]
        exact ⟨(slice_add payload off n _).symm, by omega⟩

theorem pieces_contained : ∀ (ds : List Desc) (off : Nat), off ≤ payload.length →
    ∀ w ∈ pieces payload mem off ds, mem.contains w.1 w.2.length = true
  | [], _, _, w, hw => absurd hw not_mem_nil
  | d :: ds, off, hoff, w, hw => by
    cases hgo : d.writable && decide (off < payload.length) with
    | false =>
      rw [pieces_of_not hgo] at hw
      exact pieces_contained ds off hoff w hw
    | true =>
      have hlt := of_decide_eq_true (Bool.and_eq_true_iff.mp hgo).2
      have hpart := length_part hlt d.len
      rw [pieces, hgo] at hw
      simp only [if_true] at hw
      split at hw
      next hin =>
        rcases mem_cons.mp hw with rfl | hw
        · dsimp only
          rw [hpart]
          exact hin
        · exact pieces_contained ds _ (by omega) w hw
      · exact pieces_contained ds off hoff w hw

theorem layout_of_not (h : (d.writable && decide (off < payload.length)) = false) :
    layout payload off (d :: ds) = layout payload off ds := by
  rw [layout, h]
  rfl

/-- **The payload is laid end to end if and only if its layout is in RAM.** -/
theorem pieces_eq_layout_iff (hoff : off ≤ payload.length) :
    pieces payload mem off ds = layout payload off ds ↔
      ∀ w ∈ layout payload off ds, mem.contains w.1 w.2.length = true := by
  constructor
  · intro h w hw
    rw [← h] at hw
    exact pieces_contained ds off hoff w hw
  · induction ds generalizing off with
    | nil => exact fun _ => rfl
    | cons d ds ih =>
      intro hin
      cases hgo : d.writable && decide (off < payload.length) with
      | false =>
        rw [layout_of_not hgo] at hin ⊢
        rw [pieces_of_not hgo]
        exact ih hoff hin
      | true =>
        have hlt := of_decide_eq_true (Bool.and_eq_true_iff.mp hgo).2
        have hpart := length_part hlt d.len
        rw [layout, hgo] at hin ⊢
        rw [pieces, hgo]
        simp only [if_true] at hin ⊢
        obtain ⟨hfirst, hrest⟩ := forall_mem_cons.mp hin
        rw [hpart] at hfirst
        rw [if_pos hfirst, ih (by omega) hrest]

theorem room_cons (d : Desc) (ds : List Desc) :
    room (d :: ds) = (if d.writable then d.len else 0) + room ds := by
  unfold room
  cases hw : d.writable with
  | false => rw [filter_cons_of_neg (by rw [hw]; decide), if_neg (by decide), Nat.zero_add]
  | true => rw [filter_cons_of_pos hw, map_cons, sum_cons, if_pos rfl]

theorem total_layout : ∀ (ds : List Desc) (off : Nat), off ≤ payload.length →
    off + total (layout payload off ds) = min payload.length (off + room ds)
  | [], off, hoff => (Nat.min_eq_right hoff).symm
  | d :: ds, off, hoff => by
    rw [room_cons]
    cases hw : d.writable with
    | false =>
      rw [layout_of_not (by rw [hw]; rfl), if_neg (by decide), Nat.zero_add]
      exact total_layout ds off hoff
    | true =>
      rw [if_pos rfl]
      by_cases hlt : off < payload.length
      · have hpart := length_part hlt d.len
        have htail := total_layout ds (off + min d.len (payload.length - off)) (by omega)
        rw [layout, hw, decide_eq_true hlt]
        simp only [Bool.and_self, if_true, total_cons, hpart]
        omega
      · rw [layout_of_not (by rw [hw, decide_eq_false hlt]; rfl)]
        have htail := total_layout ds off hoff
        omega

theorem le_total_pieces : ∀ (ds : List Desc) (off : Nat), off ≤ payload.length →
    min payload.length (off + ((VirtioRng.fills mem ds).map Desc.len).sum) ≤
      off + total (pieces payload mem off ds)
  | [], off, hoff => Nat.min_le_right _ _
  | d :: ds, off, hoff => by
    unfold VirtioRng.fills
    cases hgo : d.writable && decide (off < payload.length) with
    | false =>
      rw [pieces_of_not hgo]
      by_cases hlt : off < payload.length
      · have hw : d.writable = false := by
          rw [decide_eq_true hlt, Bool.and_true] at hgo
          exact hgo
        rw [filter_cons_of_neg (by rw [hw, Bool.false_and]; decide)]
        exact le_total_pieces ds off hoff
      · exact Nat.le_trans (Nat.min_le_left _ _) (by omega)
    | true =>
      obtain ⟨hw, hlt⟩ := Bool.and_eq_true_iff.mp hgo
      have hlt := of_decide_eq_true hlt
      have hpart := length_part hlt d.len
      have hskip := le_total_pieces ds off hoff
      have htake := le_total_pieces ds (off + min d.len (payload.length - off)) (by omega)
      unfold VirtioRng.fills at hskip htake
      rw [pieces, hgo]
      simp only [if_true]
      cases hin : mem.contains d.addr d.len with
      | false =>
        rw [filter_cons_of_neg (by rw [hin, Bool.and_false]; decide)]
        split
        · rw [total_cons]
          rw [hpart]
          omega
        · exact hskip
      | true =>
        rw [filter_cons_of_pos (by rw [hw, hin]; rfl), map_cons, sum_cons,
          if_pos (GuestRam.contains_mono hin (Nat.le_refl _) (by omega)), total_cons]
        rw [hpart]
        omega

theorem total_pieces_eq_zero_iff (hpayload : 0 < payload.length) : ∀ ds : List Desc,
    total (pieces payload mem 0 ds) = 0 ↔
      ∀ d ∈ ds, d.writable = true → 0 < d.len →
        mem.contains d.addr (min d.len payload.length) = false
  | [] => ⟨fun _ d hd => absurd hd not_mem_nil, fun _ => rfl⟩
  | d :: ds => by
    have ih := total_pieces_eq_zero_iff hpayload ds
    rw [forall_mem_cons, ← ih]
    cases hw : d.writable with
    | false =>
      rw [pieces_of_not (by rw [hw]; rfl)]
      exact ⟨fun h => ⟨fun hno => Bool.noConfusion hno, h⟩, fun h => h.2⟩
    | true =>
      have hpart := length_part hpayload d.len
      rw [pieces, hw, decide_eq_true hpayload]
      simp only [Bool.and_self, if_true, Nat.sub_zero, Nat.zero_add] at hpart ⊢
      generalize hn : min d.len payload.length = n at hpart ⊢
      cases hin : mem.contains d.addr n with
      | false => exact ⟨fun h => ⟨fun _ _ => rfl, h⟩, fun h => h.2⟩
      | true =>
        simp only [if_true, total_cons, hpart]
        by_cases hzero : n = 0
        · -- an empty descriptor takes nothing
          subst hzero
          rw [Nat.zero_add]
          exact ⟨fun h => ⟨fun _ hpos => by omega, h⟩, fun h => h.2⟩
        · refine ⟨fun h => by omega, fun h => ?_⟩
          exact Bool.noConfusion (h.1 trivial (by omega))

end

/-! ## Received frames -/

namespace VirtioNet

def placed (frame : Bytes) (mem : GuestRam) (chain : DescChain) : List (Nat × Bytes) :=
  pieces (withHeader frame) mem 0 chain.descriptors

def usedLen (frame : Bytes) (mem : GuestRam) (chain : DescChain) : UInt32 :=
  UInt32.ofNat (total (placed frame mem chain))

section

variable {net : VirtioNet} {vq vq' : Virtqueue} {mem : GuestRam} {chain : DescChain}

theorem injectRx_of_chain (hpop : vq.popAvail mem = (vq', some chain)) (frame : Bytes) :
    injectRx net vq mem frame =
      (⟨net,
        (vq'.pushUsed (mem.putAll (placed frame mem chain)) chain.head (usedLen frame mem chain)).1,
        (vq'.pushUsed (mem.putAll (placed frame mem chain)) chain.head (usedLen frame mem chain)).2⟩,
        decide (0 < total (placed frame mem chain))) := by
  obtain ⟨hmem, hlen⟩ := @scatter_mem (withHeader frame) chain.descriptors mem 0
  rw [Nat.zero_add] at hlen
  unfold injectRx
  rw [hpop]
  unfold serve receive usedLen placed
  dsimp only
  rw [hmem, hlen]

theorem length_withHeader (frame : Bytes) :
    (withHeader frame).length = NET_HDR_LEN + frame.length := by
  unfold withHeader
  rw [length_append, length_append, length_replicate]
  rfl

end

def posted (len : UInt8) : GuestRam :=
  ((⟨0x40000000, List.replicate 64 0, GuestRam.bounded_blank⟩ : GuestRam).writeSlice 0x40000000
    [0x28, 0, 0, 0x40, 0, 0, 0, 0, len, 0, 0, 0, 2, 0, 0, 0, 0, 0, 1, 0, 0, 0]).1

def postedQueue : Virtqueue := .new 1 0x40000000 0x40000010 0x40000018

theorem popAvail_posted : ∀ len ∈ [(4 : UInt8), 24], postedQueue.popAvail (posted len) =
    ({ postedQueue with lastAvailIdx := 1 }, some ⟨0, [⟨0x40000028, len.toNat, true⟩]⟩) := by
  decide +kernel

end VirtioNet

end Ignition.Devices
