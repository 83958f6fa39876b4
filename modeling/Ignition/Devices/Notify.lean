import Ignition.Devices.Balloon
import Ignition.Devices.Blk
import Ignition.Devices.Fifo
import Ignition.Devices.Gpu
import Ignition.Devices.Input
import Ignition.Devices.Net
import Ignition.Devices.Vsock

/-!
# Notifies that drain a queue

Every `handle_notify` that drains its queue, over all devices: the loop is `drain`, and the
devices differ in what they do with a chain (`Draining.service`).

The loop stops when `pop_avail` gives nothing, and that has two meanings.

- An empty ring. The available index is read from RAM in every round, so a loop whose writes
  change it may find new entries for ever (`notify_never_ends`). One that leaves it alone takes at
  most the entries that were on offer (`notify_ends`).
- A malformed entry, which was skipped. The entries behind it are left for the next notify
  (`malformed_entry_stalls`): all entries are taken and all well-formed ones serviced exactly if
  no entry but the last is malformed (`notify_takes_all_iff`).
-/

namespace Ignition.Devices

open Paged Ignition.Vmm List

/-- A queue that is drained on notify, with the device it belongs to. -/
inductive Draining where
  | blk (dev : VirtioBlk)
  | netTx (dev : VirtioNet)
  | vsockTx (dev : VsockDevice)
  | vsockEvent (dev : VsockDevice)
  | rng (dev : VirtioRng)
  | gpuControl (dev : VirtioGpu)
  | gpuCursor (dev : VirtioGpu)
  | balloonInflate (dev : Balloon)
  | balloonDeflate (dev : Balloon)
  | inputStatus (dev : VirtioInput)

def Serviced.map {δ ε : Type} (f : δ → ε) (r : Serviced δ) : Serviced ε :=
  ⟨f r.dev, r.mem, r.len, r.log⟩

def Draining.service : Service Draining := fun d mem chain =>
  match d with
  | .blk dev => (VirtioBlk.process dev mem chain).map .blk
  | .netTx dev => (VirtioNet.transmit dev mem chain).map .netTx
  | .vsockTx dev => (VsockDevice.transmit dev mem chain).map .vsockTx
  | .vsockEvent dev => (acknowledge dev mem chain).map .vsockEvent
  | .rng dev => (VirtioRng.fillRandom dev mem chain).map .rng
  | .gpuControl dev => (VirtioGpu.control dev mem chain).map .gpuControl
  | .gpuCursor dev => (acknowledge dev mem chain).map .gpuCursor
  | .balloonInflate dev => (Balloon.inflateChain dev mem chain).map .balloonInflate
  | .balloonDeflate dev => (acknowledge dev mem chain).map .balloonDeflate
  | .inputStatus dev => (acknowledge dev mem chain).map .inputStatus

/-- `handle_notify`, with the rounds it may take. -/
def handleNotify (fuel : Nat) (l : Loop Draining) : Option (List DescChain × Loop Draining) :=
  drain Draining.service fuel l

/-! ## Rings that are out of the way -/

namespace Virtqueue

variable {q : Virtqueue} {mem : GuestRam}

theorem Placed.mem_readSet (h : q.Placed mem) {x : Nat} (hx : x ∈ q.readSet) :
    (q.driverAddr.toNat ≤ x ∧ x < q.driverAddr.toNat + (4 + 2 * q.size.toNat)) ∨
      (q.descAddr.toNat ≤ x ∧ x < q.descAddr.toNat + 16 * q.size.toNat) := by
  rcases hx with ⟨hlo, hhi⟩ | ⟨slot, hs, hlo, hhi⟩ | ⟨i, hi, w, hw, hlo, hhi⟩
  · rw [h.toNat_availIdxAddr] at hlo hhi
    have := h.size_pos
    omega
  · rw [h.toNat_availSlotAddr hs] at hlo hhi
    have := UInt16.lt_iff_toNat_lt.mp hs
    omega
  · have hentry := h.toNat_entryAddr hi
    have hlt := UInt16.lt_iff_toNat_lt.mp hi
    obtain ⟨-, hfit⟩ := GuestRam.contains_iff.mp h.table
    have hram := mem.bounded
    have hwords : ∀ w ∈ [(0, 8), (8, 4), (12, 2), (14, 2)],
        w.1 + w.2 ≤ 16 ∧ (UInt64.ofNat w.1).toNat = w.1 := by decide
    obtain ⟨hend, hword⟩ := hwords w hw
    have hoff := toNat_offset (a := q.entryAddr i) (k := UInt64.ofNat w.1) (n := 16) (by omega)
      (by omega)
    rw [hoff] at hlo hhi
    omega

theorem Placed.readSet_pushRange (h : q.Placed mem) {x : Nat} (hx : x ∈ q.readSet) :
    x ∉ q.pushRange := by
  intro hpush
  have hslot := Virtqueue.slot_lt h.size_ne_zero q.usedIdx
  have hlt := UInt16.lt_iff_toNat_lt.mp hslot
  have hused := Fifo.mem_pushRange h hslot hpush
  have hread := h.mem_readSet hx
  have havail := h.avail_used
  have htable := h.table_used
  unfold Apart at havail htable
  have := h.size_pos
  omega

end Virtqueue

theorem OffRings.of_placed {δ : Type} {service : Service δ} {l : Loop δ} {W : Set Nat}
    (hq : l.vq.Placed l.mem) (hW : ∀ x ∈ l.vq.readSet, x ∉ W)
    (hserv : ∀ l' chain, Reaches service l l' →
      GuestRam.ChangesIn W l'.mem (service l'.dev l'.mem chain).mem) : OffRings service l := by
  -- the queue keeps its place along the rounds
  have hplaced : ∀ {l'}, Reaches service l l' →
      l'.vq.Placed l'.mem ∧ l'.vq.readSet = l.vq.readSet := by
    intro l' hreach
    induction hreach with
    | refl => exact ⟨hq, rfl⟩
    | @round l₁ l₂ chain hreach hr ih =>
      obtain ⟨-, -, rfl⟩ := round_eq_some hr
      rw [serve_vq]
      refine ⟨?_, ih.2⟩
      have hmem := (ih.1.congr (hserv l₁ chain hreach)).congr
        (Virtqueue.changesIn_pushUsed l₁.vq.advance _ chain.head
          (UInt32.ofNat (service l₁.dev l₁.mem chain).len))
      exact { hmem with }
  intro l₁ l₂ chain hreach hr
  obtain ⟨hq₁, hset⟩ := hplaced hreach
  obtain ⟨-, -, rfl⟩ := round_eq_some hr
  refine ⟨W ∪ l₁.vq.pushRange, ?_, ?_⟩
  · exact .trans ((hserv l₁ chain hreach).mono Set.subset_union_left)
      ((Virtqueue.changesIn_pushUsed l₁.vq.advance _ chain.head _).mono Set.subset_union_right)
  · rintro x hx (hdev | hpush)
    · exact hW x hx hdev
    · exact hq₁.readSet_pushRange (by rw [hset]; exact hx) hpush

theorem netTx_offRings {net : VirtioNet} {vq : Virtqueue} {mem : GuestRam} (hq : vq.Placed mem) :
    OffRings Draining.service ⟨.netTx net, vq, mem⟩ := by
  have hdev : ∀ {l'}, Reaches Draining.service ⟨.netTx net, vq, mem⟩ l' →
      ∃ net', l'.dev = .netTx net' := by
    intro l' hreach
    induction hreach with
    | refl => exact ⟨net, rfl⟩
    | round _ hr ih =>
      obtain ⟨net', hnet⟩ := ih
      obtain ⟨-, -, rfl⟩ := round_eq_some hr
      unfold serve
      rw [hnet]
      exact ⟨_, rfl⟩
  refine .of_placed hq (fun x _ => Set.notMem_empty x) fun l' chain hreach => ?_
  obtain ⟨net', hnet⟩ := hdev hreach
  rw [hnet]
  show GuestRam.ChangesIn ∅ l'.mem (VirtioNet.transmit net' l'.mem chain).mem
  rw [(VirtioNet.transmit_silent net' l'.mem chain).1]
  exact .refl _ _

/-! ## Termination -/

/-- **A notify that leaves the available index alone comes to an end**, after at most 65535
entries. -/
theorem notify_ends {l : Loop Draining} (hkeep : KeepsAvailIdx Draining.service l) :
    ∃ cs l' n, handleNotify (2 ^ 16) l = some (cs, l') ∧ cs.length ≤ n ∧ n ≤ 65535 ∧
      l'.vq.lastAvailIdx = l.vq.lastAvailIdx + UInt16.ofNat n := by
  obtain ⟨cs, l', n, hdrain, hlo, -, hn, hlast⟩ := drain_ends hkeep
  have hbehind := l.behind_lt
  exact ⟨cs, l', n, hdrain, hlo, by omega, hlast⟩

def smallRam (first second : UInt16) : GuestRam :=
  ⟨0x40000000, List.replicate 34 0 ++ [2, 0] ++ leBytes 2 first.toNat ++ leBytes 2 second.toNat ++
    List.replicate 24 0, by
    simp only [length_append, length_replicate, length_leBytes, length_cons,
      length_nil]
    decide⟩

def smallLoop (first second : UInt16) : Loop Draining :=
  ⟨.netTx (.new (List.replicate 6 0)), .new 2 0x40000000 0x40000020 0x40000028,
    smallRam first second⟩

theorem smallLoop_offRings_two : OffRings Draining.service (smallLoop 0 1) := by
  apply netTx_offRings
  refine ⟨⟨1, by decide, rfl⟩, ?_, ?_, ?_, ?_, ?_, ?_⟩ <;> decide +kernel

theorem notify_ends_two : ∃ cs l' n, handleNotify (2 ^ 16) (smallLoop 0 1) = some (cs, l') ∧
    cs.length ≤ n ∧ n ≤ 65535 ∧
      l'.vq.lastAvailIdx = (smallLoop 0 1).vq.lastAvailIdx + UInt16.ofNat n :=
  notify_ends smallLoop_offRings_two.keeps

def sharedBytes (i : UInt16) : Bytes := List.replicate 18 0 ++ leBytes 2 i.toNat ++ List.replicate 8 0

theorem length_sharedBytes (i : UInt16) : (sharedBytes i).length = 28 := rfl

def sharedRam (i : UInt16) : GuestRam := ⟨0x40000000, sharedBytes i, by
  rw [length_sharedBytes]
  decide⟩

def sharedQueue (lastAvail used : UInt16) : Virtqueue :=
  ⟨1, 0x40000000, 0x40000010, 0x40000010, lastAvail, used⟩

def sharedLoop (i : UInt16) : Loop Draining :=
  ⟨.netTx (.new (List.replicate 6 0)), sharedQueue (i + 1) i, sharedRam i⟩

theorem sharedRam_idx (i : UInt16) : (sharedRam i).readU16 0x40000012 = some i := by
  have hlt := i.toNat_lt
  have hword : (sharedRam i).readU16 0x40000012 =
      some (UInt16.ofNat (fromLeBytes (leBytes 2 i.toNat))) := rfl
  rw [hword, fromLeBytes_leBytes, Nat.mod_eq_of_lt (by omega), UInt16.ofNat_toNat]

theorem sharedRam_entry (i : UInt16) :
    readEntry (sharedRam i) 0x40000000 = some ⟨0, 0, 0, 0⟩ := by
  have hzero : (sharedRam i).readSlice (0x40000000 : UInt64).toNat 8 = some (leBytes 8 0) := rfl
  have h0 : (sharedRam i).readU64 0x40000000 = some 0 := by
    unfold GuestRam.readU64 GuestRam.readWord
    rw [hzero, Option.map_some, fromLeBytes_leBytes]
    rfl
  unfold readEntry
  rw [h0]
  rfl

def sharedChain : DescChain := ⟨0, [⟨0, 0, false⟩]⟩

theorem shared_slot (i : UInt16) : i % 1 = 0 := by
  apply UInt16.toNat_inj.mp
  rw [UInt16.toNat_mod]
  exact Nat.mod_one _

theorem shared_push (last i : UInt16) :
    (sharedQueue last i).pushUsed (sharedRam i) 0 0 =
      (sharedQueue last (i + 1), sharedRam (i + 1)) := by
  have hsize : (sharedQueue last i).size ≠ 0 := show (1 : UInt16) ≠ 0 by decide
  have hslot : (sharedQueue last i).usedIdx % (sharedQueue last i).size = 0 := shared_slot i
  have helem : (sharedQueue last i).usedElemAddr 0 = 0x40000014 := rfl
  -- the element is all zeros, as it was; then the index goes up by one
  have h₁ : ((sharedRam i).writeU32 0x40000014 (0 : UInt16).toUInt32).1 = sharedRam i := rfl
  have h₂ : ((sharedRam i).writeU32 (0x40000014 + 4) 0).1 = sharedRam i := rfl
  have h₃ : ((sharedRam i).writeU16 0x40000012 (i + 1)).1 = sharedRam (i + 1) := rfl
  unfold Virtqueue.pushUsed
  rw [if_neg hsize, hslot]
  dsimp only
  rw [helem, h₁, h₂]
  exact congrArg (Prod.mk (sharedQueue last (i + 1))) h₃

theorem shared_round (i : UInt16) :
    round Draining.service (sharedLoop i) = (some sharedChain, sharedLoop (i + 1)) := by
  have hne : i + 1 ≠ i := by
    intro h
    have hnat := congrArg UInt16.toNat h
    have hone : (1 : UInt16).toNat = 1 := rfl
    rw [UInt16.toNat_add, hone] at hnat
    omega
  have hpending : (sharedLoop i).vq.Pending (sharedLoop i).mem 0 := by
    refine ⟨show (1 : UInt16) ≠ 0 by decide, ⟨i, sharedRam_idx i, hne⟩, ?_⟩
    have hslot : (sharedLoop i).vq.lastAvailIdx % (sharedLoop i).vq.size = 0 :=
      shared_slot (i + 1)
    have haddr : (sharedLoop i).vq.availSlotAddr 0 = 0x40000014 := rfl
    rw [hslot, haddr]
    rfl
  have hwalk : (sharedLoop i).vq.resolve (sharedLoop i).mem 0 = some sharedChain := by
    have hentry : readEntry (sharedLoop i).mem ((sharedLoop i).vq.entryAddr 0) =
      some ⟨0, 0, 0, 0⟩ := sharedRam_entry i
    have hhead : ¬ (sharedLoop i).vq.size ≤ 0 := show ¬ (1 : UInt16) ≤ 0 by decide
    have hsize : (sharedLoop i).vq.size.toNat = 1 := rfl
    unfold Virtqueue.resolve
    rw [if_neg hhead, hsize, Virtqueue.walk, if_neg hhead, hentry]
    rfl
  unfold round
  rw [Virtqueue.popAvail_of_pending hpending, hwalk]
  -- the chain has no bytes, so nothing is sent
  exact congrArg (fun x : Virtqueue × GuestRam =>
    (some sharedChain, (⟨(sharedLoop i).dev, x.1, x.2⟩ : Loop Draining)))
    (shared_push (i + 1 + 1) i)

def skippedRam : GuestRam :=
  ⟨0x40000000, List.replicate 18 0 ++ [1, 0, 1, 0] ++ List.replicate 6 0, by decide +kernel⟩

/-- **A notify need not end**: where the rings coincide, every used element is a new available
one. The positions differ by the one malformed entry that an earlier notify has skipped. -/
theorem notify_never_ends :
    ((handleNotify 1 ⟨(sharedLoop 0).dev, .new 1 0x40000000 0x40000010 0x40000010,
        skippedRam⟩).map fun r => (r.1, r.2.vq)) = some ([], (sharedLoop 0).vq) ∧
      ∀ fuel, handleNotify fuel (sharedLoop 0) = none := by
  refine ⟨by decide +kernel, fun fuel => ?_⟩
  generalize (0 : UInt16) = i
  induction fuel generalizing i with
  | zero => rfl
  | succ fuel ih =>
    unfold handleNotify drain
    rw [shared_round]
    dsimp only
    have hnext : drain Draining.service fuel (sharedLoop (i + 1)) = none := ih (i + 1)
    rw [hnext]
    rfl

/-! ## Malformed entries -/

/-- **All entries on offer are taken and all well-formed ones serviced if and only if no entry but
the last is malformed.** -/
theorem notify_takes_all_iff {l : Loop Draining} (hsize : l.vq.size ≠ 0)
    (havail : l.mem.contains l.vq.driverAddr.toNat (4 + 2 * l.vq.size.toNat) = true)
    (hoff : OffRings Draining.service l) :
    (∃ cs l', handleNotify (2 ^ 16) l = some (cs, l') ∧
        l'.vq.lastAvailIdx = l.vq.lastAvailIdx + UInt16.ofNat l.behind ∧ cs = l.wellFormed) ↔
      ∀ j, j + 1 < l.behind → (l.entry j).isSome = true := by
  refine drain_all_iff hoff ⟨hsize, fun slot hs => ?_⟩
  have haddr := Virtqueue.toNat_availSlotAddr havail hs
  have hlt := UInt16.lt_iff_toNat_lt.mp hs
  have hin : l.mem.contains (l.vq.availSlotAddr slot).toNat 2 = true :=
    GuestRam.contains_mono havail (by omega) (by omega)
  unfold GuestRam.readU16 GuestRam.readWord
  rw [GuestRam.readSlice_of_contains hin]
  rfl

theorem notify_takes_all_two : ∃ cs l', handleNotify (2 ^ 16) (smallLoop 0 1) = some (cs, l') ∧
    l'.vq.lastAvailIdx = 2 ∧ cs = (smallLoop 0 1).wellFormed ∧ cs.length = 2 := by
  have hbehind : (smallLoop 0 1).behind = 2 := by decide +kernel
  have hfirst : ((smallLoop 0 1).entry 0).isSome = true := by decide +kernel
  have hlen : (smallLoop 0 1).wellFormed.length = 2 := by decide +kernel
  obtain ⟨cs, l', hdrain, hlast, hcs⟩ := (notify_takes_all_iff (by decide) (by decide +kernel)
    smallLoop_offRings_two).mpr fun j hj => by
      obtain rfl : j = 0 := by omega
      exact hfirst
  exact ⟨cs, l', hdrain, hlast, hcs, by rw [hcs, hlen]⟩

/-- **A bad index does stall the ring**: of two entries the first is malformed, and the second is
neither taken nor serviced. -/
theorem malformed_entry_stalls : (smallLoop 2 0).behind = 2 ∧
    (smallLoop 2 0).wellFormed = [⟨0, [⟨0, 0, false⟩]⟩] ∧
      ((handleNotify 2 (smallLoop 2 0)).map fun r => (r.1, r.2.vq.lastAvailIdx)) =
        some ([], 1) := by
  refine ⟨?_, ?_, ?_⟩ <;> decide +kernel

end Ignition.Devices
