import Ignition.Base.Ring
import Ignition.Base.Run
import Ignition.Devices.Virtqueue

/-!
# A virtqueue is a pair of queues

A driver and a device that share a virtqueue through guest RAM. The driver writes descriptors
and ring slots, publishes a chain by bumping the available index, and takes used elements when
the used index says there are some. The device calls `pop_avail` and `push_used`. All of it is
bytes in one RAM, and the counters wrap at sixteen bits.

The protocol is in the guards of `step`. A store of either side stays off the bytes the other
side still needs (`State.held`): the two indices, the used ring, and the slots and table entries
of chains that are published and not yet popped. The driver publishes a chain that is linked in
the table and named by its slot, with fewer than `size` chains published and not seen used. The
device pushes at most one element for each chain it popped. Nothing else is assumed: heads may
be pushed in any order, and descriptors of a popped chain may be rewritten at once.

The state carries what the two sides have done so far as unbounded lists. `Inv` relates them to
the bytes: between the reader's and the writer's position every ring slot holds its item.

- `virtqueue_refines_fifo`: after every run the popped chains are the first of the published
  ones, the next pop gives the next one, and what the driver has seen followed by what it can
  see is what was pushed.
-/

namespace Ignition.Devices

open Paged Ignition.Vmm Runs List Option

/-! ## Where the rings lie -/

def Apart (a n b m : Nat) : Prop := a + n ≤ b ∨ b + m ≤ a

instance (a n b m : Nat) : Decidable (Apart a n b m) := inferInstanceAs (Decidable (_ ∨ _))

namespace Virtqueue

/-- The queue has a power of two of entries, and its rings and table are in RAM and disjoint. -/
structure Placed (q : Virtqueue) (mem : GuestRam) : Prop where
  size : ∃ k ≤ 15, q.size.toNat = 2 ^ k
  table : mem.contains q.descAddr.toNat (16 * q.size.toNat) = true
  avail : mem.contains q.driverAddr.toNat (4 + 2 * q.size.toNat) = true
  used : mem.contains q.deviceAddr.toNat (4 + 8 * q.size.toNat) = true
  avail_used : Apart q.driverAddr.toNat (4 + 2 * q.size.toNat)
    q.deviceAddr.toNat (4 + 8 * q.size.toNat)
  table_used : Apart q.descAddr.toNat (16 * q.size.toNat) q.deviceAddr.toNat (4 + 8 * q.size.toNat)
  table_avail : Apart q.descAddr.toNat (16 * q.size.toNat) q.driverAddr.toNat
    (4 + 2 * q.size.toNat)

section

variable {q : Virtqueue} {mem mem' : GuestRam} {W : Set Nat}

theorem Placed.congr (h : q.Placed mem) (hc : GuestRam.ChangesIn W mem mem') : q.Placed mem' where
  size := h.size
  table := (hc.contains _ _).trans h.table
  avail := (hc.contains _ _).trans h.avail
  used := (hc.contains _ _).trans h.used
  avail_used := h.avail_used
  table_used := h.table_used
  table_avail := h.table_avail

theorem Placed.size_pos (h : q.Placed mem) : 0 < q.size.toNat := by
  obtain ⟨k, -, hk⟩ := h.size
  rw [hk]
  exact Nat.two_pow_pos k

theorem Placed.size_le (h : q.Placed mem) : q.size.toNat ≤ 2 ^ 15 := by
  obtain ⟨k, hle, hk⟩ := h.size
  rw [hk]
  exact Nat.pow_le_pow_right Nat.two_pos hle

theorem Placed.size_dvd (h : q.Placed mem) : q.size.toNat ∣ 2 ^ 16 := by
  obtain ⟨k, hle, hk⟩ := h.size
  rw [hk]
  exact Nat.pow_dvd_pow 2 (by omega)

theorem Placed.size_ne_zero (h : q.Placed mem) : q.size ≠ 0 := by
  intro h0
  have := h.size_pos
  rw [h0] at this
  exact absurd this (by decide)

theorem Placed.toNat_availIdxAddr (h : q.Placed mem) :
    q.availIdxAddr.toNat = q.driverAddr.toNat + 2 := by
  obtain ⟨-, hfit⟩ := GuestRam.contains_iff.mp h.avail
  have hram := mem.bounded
  exact toNat_offset (n := 4) (by omega) (by decide)

theorem Placed.toNat_usedIdxAddr (h : q.Placed mem) :
    q.usedIdxAddr.toNat = q.deviceAddr.toNat + 2 := by
  obtain ⟨-, hfit⟩ := GuestRam.contains_iff.mp h.used
  have hram := mem.bounded
  exact toNat_offset (n := 4) (by omega) (by decide)

theorem Placed.toNat_availSlotAddr (h : q.Placed mem) {slot : UInt16} (hs : slot < q.size) :
    (q.availSlotAddr slot).toNat = q.driverAddr.toNat + 4 + 2 * slot.toNat :=
  Virtqueue.toNat_availSlotAddr h.avail hs

theorem Placed.toNat_usedElemAddr (h : q.Placed mem) {slot : UInt16} (hs : slot < q.size) :
    (q.usedElemAddr slot).toNat = q.deviceAddr.toNat + 4 + 8 * slot.toNat := by
  obtain ⟨-, hfit⟩ := GuestRam.contains_iff.mp h.used
  have hram := mem.bounded
  have hlt := UInt16.lt_iff_toNat_lt.mp hs
  have hscaled := toNat_scaled slot (c := 8) (by decide)
  have hfour := toNat_offset (a := q.deviceAddr) (k := 4) (n := 5) (by omega) (by decide)
  simp only [UInt64.reduceToNat] at hscaled hfour
  unfold usedElemAddr
  rw [UInt64.toNat_add, hfour, hscaled]
  omega

theorem Placed.toNat_usedLenAddr (h : q.Placed mem) {slot : UInt16} (hs : slot < q.size) :
    (q.usedElemAddr slot + 4).toNat = q.deviceAddr.toNat + 4 + 8 * slot.toNat + 4 := by
  obtain ⟨-, hfit⟩ := GuestRam.contains_iff.mp h.used
  have hram := mem.bounded
  have hlt := UInt16.lt_iff_toNat_lt.mp hs
  have helem := h.toNat_usedElemAddr hs
  have hlen := toNat_offset (a := q.usedElemAddr slot) (k := 4) (n := 8) (by omega) (by decide)
  simp only [UInt64.reduceToNat] at hlen
  omega

theorem Placed.toNat_entryAddr (h : q.Placed mem) {i : UInt16} (hi : i < q.size) :
    (q.entryAddr i).toNat = q.descAddr.toNat + 16 * i.toNat := by
  obtain ⟨-, hfit⟩ := GuestRam.contains_iff.mp h.table
  have hram := mem.bounded
  have hlt := UInt16.lt_iff_toNat_lt.mp hi
  have hscaled := toNat_scaled i (c := DESC_SIZE) (by decide)
  simp only [DESC_SIZE, UInt64.reduceToNat] at hscaled
  unfold entryAddr
  rw [UInt64.toNat_add, DESC_SIZE, hscaled]
  omega

theorem Placed.slot_lt (h : q.Placed mem) (p : Nat) : UInt16.ofNat p % q.size < q.size := by
  rw [UInt16.lt_iff_toNat_lt, Ring.toNat_slot h.size_dvd]
  exact Nat.mod_lt p h.size_pos

end

end Virtqueue

/-! ## The machine -/

namespace Fifo

/-- A chain in the table: the entries it occupies and their descriptors. -/
abbrev Chain := List (UInt16 × Desc)

def Chain.resolved (c : Chain) : DescChain := ⟨Virtqueue.headOf c, c.map Prod.snd⟩

structure State where
  mem : GuestRam
  vq : Virtqueue
  published : List Chain
  popped : List DescChain
  pushed : List (UInt16 × UInt32)
  seen : List (UInt32 × UInt32)

def availCell (q : Virtqueue) (mem : GuestRam) (slot : UInt16) : Option UInt16 :=
  mem.readU16 (q.availSlotAddr slot)

def usedCell (q : Virtqueue) (mem : GuestRam) (slot : UInt16) : Option (UInt32 × UInt32) :=
  match mem.readU32 (q.usedElemAddr slot), mem.readU32 (q.usedElemAddr slot + 4) with
  | some id, some len => some (id, len)
  | _, _ => none

def element (e : UInt16 × UInt32) : UInt32 × UInt32 := (e.1.toUInt32, e.2)

namespace State

def slot (s : State) (p : Nat) : UInt16 := UInt16.ofNat p % s.vq.size

def waiting (s : State) : List (Chain × Nat) := s.published.zipIdx.drop s.popped.length

def occupied (s : State) (w : Chain × Nat) : List (Nat × Nat) :=
  ((s.vq.availSlotAddr (s.slot w.2)).toNat, 2) ::
    w.1.map fun e => ((s.vq.entryAddr e.1).toNat, 16)

def held (s : State) : List (Nat × Nat) :=
  (s.vq.availIdxAddr.toNat, 2) :: (s.vq.usedIdxAddr.toNat, 2 + 8 * s.vq.size.toNat) ::
    s.waiting.flatMap s.occupied

def visible (s : State) : List (Option (UInt32 × UInt32)) :=
  match s.mem.readU16 s.vq.usedIdxAddr with
  | none => []
  | some i =>
    (range' s.seen.length (i - UInt16.ofNat s.seen.length).toNat).map fun p =>
      usedCell s.vq s.mem (s.slot p)

end State

inductive Action where
  | store (gpa : Nat) (data : Bytes)
  | publish (c : Chain)
  | see
  | pop
  | push (head : UInt16) (len : UInt32)

def step (s : State) : Action → Option State
  | .store gpa data =>
    if ∀ r ∈ s.held, Apart gpa data.length r.1 r.2 then
      some { s with mem := (s.mem.writeSlice gpa data).1 }
    else none
  | .publish c =>
    if s.published.length < s.seen.length + s.vq.size.toNat ∧ c.length ≤ s.vq.size.toNat ∧
        s.vq.linked s.mem c = true ∧
        availCell s.vq s.mem (s.slot s.published.length) = some (Virtqueue.headOf c) then
      some { s with
        mem := (s.mem.writeU16 s.vq.availIdxAddr (UInt16.ofNat (s.published.length + 1))).1
        published := s.published ++ [c] }
    else none
  | .see =>
    match s.mem.readU16 s.vq.usedIdxAddr, usedCell s.vq s.mem (s.slot s.seen.length) with
    | some i, some e =>
      if i = UInt16.ofNat s.seen.length then none else some { s with seen := s.seen ++ [e] }
    | _, _ => none
  | .pop =>
    let (vq, chain) := s.vq.popAvail s.mem
    some { s with vq := vq, popped := s.popped ++ chain.toList }
  | .push head len =>
    if s.pushed.length < s.popped.length then
      let (vq, mem) := s.vq.pushUsed s.mem head len
      some { s with vq := vq, mem := mem, pushed := s.pushed ++ [(head, len)] }
    else none

/-- A queue as `QueueReady` builds it, over rings whose indices the driver has zeroed. -/
structure Fresh (s : State) : Prop where
  placed : s.vq.Placed s.mem
  lastAvail : s.vq.lastAvailIdx = 0
  used : s.vq.usedIdx = 0
  availIdx : s.mem.readU16 s.vq.availIdxAddr = some 0
  usedIdx : s.mem.readU16 s.vq.usedIdxAddr = some 0
  published : s.published = []
  popped : s.popped = []
  pushed : s.pushed = []
  seen : s.seen = []

/-! ## The bytes and the lists -/

/-- Both rings hold what lies between their reader and their writer. -/
structure Inv (s : State) : Prop where
  placed : s.vq.Placed s.mem
  seen_le : s.seen.length ≤ s.pushed.length
  pushed_le : s.pushed.length ≤ s.popped.length
  popped_le : s.popped.length ≤ s.published.length
  room : s.published.length ≤ s.seen.length + s.vq.size.toNat
  lastAvail : s.vq.lastAvailIdx = UInt16.ofNat s.popped.length
  availIdx : s.mem.readU16 s.vq.availIdxAddr = some (UInt16.ofNat s.published.length)
  slots : Ring.Holds (fun i => availCell s.vq s.mem (UInt16.ofNat i)) s.vq.size.toNat
    s.popped.length (s.published.map fun c => some (Virtqueue.headOf c))
  chains : ∀ p c, s.popped.length ≤ p → s.published[p]? = some c →
    s.vq.linked s.mem c = true ∧ c.length ≤ s.vq.size.toNat
  popped_eq : s.popped = (s.published.take s.popped.length).map Chain.resolved
  used : s.vq.usedIdx = UInt16.ofNat s.pushed.length
  usedIdx : s.mem.readU16 s.vq.usedIdxAddr = some (UInt16.ofNat s.pushed.length)
  elems : Ring.Holds (fun i => usedCell s.vq s.mem (UInt16.ofNat i)) s.vq.size.toNat
    s.seen.length (s.pushed.map fun e => some (element e))
  seen_eq : s.seen = (s.pushed.take s.seen.length).map element

theorem Inv.of_fresh {s : State} (h : Fresh s) : Inv s := by
  obtain ⟨hplaced, hlast, hused, havail, husedIdx, hpub, hpop, hpush, hseen⟩ := h
  refine
    { placed := hplaced, seen_le := ?_, pushed_le := ?_, popped_le := ?_, room := ?_,
      lastAvail := ?_, availIdx := ?_, slots := ?_, chains := ?_, popped_eq := ?_, used := ?_,
      usedIdx := ?_, elems := ?_, seen_eq := ?_ }
  all_goals simp only [hpub, hpop, hpush, hseen, map_nil, length_nil, Nat.le_refl,
    Nat.zero_le, take_nil]
  · exact hlast
  · exact havail
  · exact Ring.Holds.nil _ _ _
  · exact fun p c _ hc => nomatch hc
  · exact hused
  · exact husedIdx
  · exact Ring.Holds.nil _ _ _

section

variable {s : State} {mem' : GuestRam} {W : Set Nat}

theorem Inv.slot_eq (h : Inv s) (p : Nat) : s.slot p = UInt16.ofNat (p % s.vq.size.toNat) :=
  Ring.slot_eq h.placed.size_dvd p

theorem Inv.toNat_slot (h : Inv s) (p : Nat) : (s.slot p).toNat = p % s.vq.size.toNat :=
  Ring.toNat_slot h.placed.size_dvd p

theorem Inv.slot_lt (h : Inv s) (p : Nat) : s.slot p < s.vq.size := h.placed.slot_lt p

theorem Inv.slots_frame (h : Inv s) (hc : GuestRam.ChangesIn W s.mem mem')
    (hout : ∀ p, s.popped.length ≤ p → p < s.published.length → ∀ x,
      (s.vq.availSlotAddr (s.slot p)).toNat ≤ x → x < (s.vq.availSlotAddr (s.slot p)).toNat + 2 →
      x ∉ W) :
    Ring.Holds (fun i => availCell s.vq mem' (UInt16.ofNat i)) s.vq.size.toNat
      s.popped.length (s.published.map fun c => some (Virtqueue.headOf c)) := by
  refine h.slots.congr fun p hp hlt => ?_
  rw [length_map] at hlt
  rw [← h.slot_eq]
  exact hc.readU16 (hout p hp hlt)

theorem Inv.entry_fits (h : Inv s) {i : UInt16} (hi : i < s.vq.size) :
    (s.vq.entryAddr i).toNat + 16 ≤ 2 ^ 64 := by
  obtain ⟨-, hfit⟩ := GuestRam.contains_iff.mp h.placed.table
  have hram := s.mem.bounded
  have hlt := UInt16.lt_iff_toNat_lt.mp hi
  have haddr := h.placed.toNat_entryAddr hi
  omega

theorem Inv.chains_frame (h : Inv s) (hc : GuestRam.ChangesIn W s.mem mem')
    (hout : ∀ p c, s.popped.length ≤ p → s.published[p]? = some c → ∀ i ∈ c.map Prod.fst,
      i < s.vq.size → ∀ x, (s.vq.entryAddr i).toNat ≤ x → x < (s.vq.entryAddr i).toNat + 16 → x ∉ W)
    (p : Nat) (c : Chain) (hp : s.popped.length ≤ p) (hget : s.published[p]? = some c) :
    s.vq.linked mem' c = true ∧ c.length ≤ s.vq.size.toNat := by
  obtain ⟨hlinked, hlen⟩ := h.chains p c hp hget
  refine ⟨?_, hlen⟩
  rw [Virtqueue.linked_congr rfl fun i hi => ?_]
  · exact hlinked
  · have hlt := Virtqueue.mem_linked_lt hlinked hi
    exact readEntry_congr hc (h.entry_fits hlt) (hout p c hp hget i hi hlt)

theorem Inv.elems_frame (h : Inv s) (hc : GuestRam.ChangesIn W s.mem mem')
    (hout : ∀ p, s.seen.length ≤ p → p < s.pushed.length → ∀ x,
      (s.vq.usedElemAddr (s.slot p)).toNat ≤ x → x < (s.vq.usedElemAddr (s.slot p)).toNat + 8 →
      x ∉ W) :
    Ring.Holds (fun i => usedCell s.vq mem' (UInt16.ofNat i)) s.vq.size.toNat
      s.seen.length (s.pushed.map fun e => some (element e)) := by
  refine h.elems.congr fun p hp hlt => ?_
  rw [length_map] at hlt
  rw [← h.slot_eq]
  have helem := h.placed.toNat_usedElemAddr (h.slot_lt p)
  have hlen := h.placed.toNat_usedLenAddr (h.slot_lt p)
  have hp' := hout p hp hlt
  unfold usedCell
  rw [hc.readU32 fun x hlo hhi => hp' x hlo (by omega),
    hc.readU32 fun x hlo hhi => hp' x (by omega) (by omega)]

/-! ## One step -/

theorem mem_waiting {p : Nat} {c : Chain} (hp : s.popped.length ≤ p)
    (hget : s.published[p]? = some c) : (c, p) ∈ s.waiting := by
  have hidx : s.published.zipIdx[p]? = some (c, p) := by
    rw [getElem?_zipIdx, hget, map_some, Nat.zero_add]
  have hdrop : s.waiting[p - s.popped.length]? = some (c, p) := by
    unfold State.waiting
    rw [getElem?_drop, Nat.add_sub_cancel' hp]
    exact hidx
  exact mem_of_getElem? hdrop

theorem mem_held {p : Nat} {c : Chain} (hp : s.popped.length ≤ p)
    (hget : s.published[p]? = some c) {r : Nat × Nat} (hr : r ∈ s.occupied (c, p)) :
    r ∈ s.held :=
  mem_cons_of_mem _ (mem_cons_of_mem _
    (mem_flatMap.mpr ⟨(c, p), mem_waiting hp hget, hr⟩))

theorem not_mem_of_apart {gpa n a m x : Nat} (h : Apart gpa n a m) (hlo : a ≤ x)
    (hhi : x < a + m) : x ∉ Set.Ico gpa (gpa + n) := by
  rintro ⟨h₁, h₂⟩
  unfold Apart at h
  omega

theorem Inv.store {gpa : Nat} {data : Bytes} (h : Inv s)
    (hfree : ∀ r ∈ s.held, Apart gpa data.length r.1 r.2) :
    Inv { s with mem := (s.mem.writeSlice gpa data).1 } := by
  have hc := GuestRam.changesIn_writeSlice s.mem gpa data
  have hidx := hfree _ mem_cons_self
  have hused := hfree _ (mem_cons_of_mem _ mem_cons_self)
  refine { h with
    placed := h.placed.congr hc
    availIdx := (hc.readU16 fun x => not_mem_of_apart hidx).trans h.availIdx
    slots := h.slots_frame hc fun p hp hlt x => ?_
    chains := h.chains_frame hc fun p c hp hget i hi _ x => ?_
    usedIdx := (hc.readU16 fun x hlo hhi => not_mem_of_apart hused hlo (by omega)).trans h.usedIdx
    elems := h.elems_frame hc fun p hp hlt x hlo hhi => ?_ }
  · exact not_mem_of_apart
      (hfree _ (mem_held hp (getElem?_eq_getElem hlt) mem_cons_self))
  · obtain ⟨e, he, rfl⟩ := mem_map.mp hi
    exact not_mem_of_apart
      (hfree _ (mem_held hp hget (mem_cons_of_mem _ (mem_map_of_mem he))))
  · have helem := h.placed.toNat_usedElemAddr (h.slot_lt p)
    have hslot := UInt16.lt_iff_toNat_lt.mp (h.slot_lt p)
    have husedIdx := h.placed.toNat_usedIdxAddr
    exact not_mem_of_apart hused (by omega) (by omega)

theorem Inv.publish {c : Chain} (h : Inv s)
    (hroom : s.published.length < s.seen.length + s.vq.size.toNat)
    (hlen : c.length ≤ s.vq.size.toNat) (hlinked : s.vq.linked s.mem c = true)
    (hslot : availCell s.vq s.mem (s.slot s.published.length) = some (Virtqueue.headOf c)) :
    Inv { s with
      mem := (s.mem.writeU16 s.vq.availIdxAddr (UInt16.ofNat (s.published.length + 1))).1
      published := s.published ++ [c] } := by
  have hc := GuestRam.changesIn_writeU16 s.mem s.vq.availIdxAddr
    (UInt16.ofNat (s.published.length + 1))
  have hidx := h.placed.toNat_availIdxAddr
  have havail := h.placed.avail_used
  have htable := h.placed.table_avail
  have hin : s.mem.contains s.vq.availIdxAddr.toNat 2 = true :=
    GuestRam.contains_mono h.placed.avail (by omega) (by omega)
  -- the index word is none of the slots, entries and elements in use
  have hslots : ∀ p x, (s.vq.availSlotAddr (s.slot p)).toNat ≤ x →
      x < (s.vq.availSlotAddr (s.slot p)).toNat + 2 →
      x ∉ Set.Ico s.vq.availIdxAddr.toNat (s.vq.availIdxAddr.toNat + 2) := by
    intro p x hlo hhi
    have haddr := h.placed.toNat_availSlotAddr (h.slot_lt p)
    rintro ⟨h₁, h₂⟩
    omega
  have hentries : ∀ i, i < s.vq.size → ∀ x, (s.vq.entryAddr i).toNat ≤ x →
      x < (s.vq.entryAddr i).toNat + 16 →
      x ∉ Set.Ico s.vq.availIdxAddr.toNat (s.vq.availIdxAddr.toNat + 2) := by
    intro i hi x hlo hhi
    have haddr := h.placed.toNat_entryAddr hi
    have hlt := UInt16.lt_iff_toNat_lt.mp hi
    unfold Apart at htable
    rintro ⟨h₁, h₂⟩
    omega
  have hused : ∀ x, s.vq.deviceAddr.toNat ≤ x →
      x < s.vq.deviceAddr.toNat + (4 + 8 * s.vq.size.toNat) →
      x ∉ Set.Ico s.vq.availIdxAddr.toNat (s.vq.availIdxAddr.toNat + 2) := by
    intro x hlo hhi
    unfold Apart at havail
    rintro ⟨h₁, h₂⟩
    omega
  have hframe := h.chains_frame hc fun p c hp hget i _ hi => hentries i hi
  have husedIdx := h.placed.toNat_usedIdxAddr
  have husedRead := hc.readU16 (a := s.vq.usedIdxAddr) fun x hlo hhi =>
    hused x (by omega) (by omega)
  refine { h with
    placed := h.placed.congr hc
    popped_le := ?_
    room := ?_
    availIdx := ?_
    slots := ?_
    chains := ?_
    popped_eq := ?_
    usedIdx := husedRead.trans h.usedIdx
    elems := h.elems_frame hc fun p _ _ x hlo hhi => ?_ }
  · exact Nat.le_trans h.popped_le (by rw [length_append]; exact Nat.le_add_right _ _)
  · rw [length_append]
    exact hroom
  · rw [length_append]
    exact GuestRam.readU16_writeU16_self hin
  · rw [map_append, map_singleton]
    refine (h.slots_frame hc fun p _ _ => hslots p).append ?_
    rw [length_map, ← h.slot_eq]
    exact (hc.readU16 (hslots _)).trans hslot
  · intro p c' hp hget
    rcases Nat.lt_or_ge p s.published.length with hlt | hge
    · rw [getElem?_append_left hlt] at hget
      exact hframe p c' hp hget
    rw [getElem?_append_right hge] at hget
    obtain rfl := mem_singleton.mp (mem_of_getElem? hget)
    refine ⟨?_, hlen⟩
    rw [Virtqueue.linked_congr rfl fun i hi => ?_]
    · exact hlinked
    · have hi' := Virtqueue.mem_linked_lt hlinked hi
      exact readEntry_congr hc (h.entry_fits hi') (hentries i hi')
  · rw [take_append_of_le_length h.popped_le]
    exact h.popped_eq
  · have helem := h.placed.toNat_usedElemAddr (h.slot_lt p)
    have hslot := UInt16.lt_iff_toNat_lt.mp (h.slot_lt p)
    exact hused x (by omega) (by omega)

theorem Inv.popAvail_eq (h : Inv s) :
    s.vq.popAvail s.mem =
      match s.published[s.popped.length]? with
      | some c => (s.vq.advance, some c.resolved)
      | none => (s.vq, none) := by
  have hwin : s.published.length < s.popped.length + 2 ^ 16 := by
    have := h.room
    have := h.placed.size_le
    have := h.seen_le
    have := h.pushed_le
    omega
  split
  next c hget =>
    obtain ⟨hlt, -⟩ := List.getElem?_eq_some_iff.mp hget
    obtain ⟨hlinked, hlen⟩ := h.chains _ c (Nat.le_refl _) hget
    have hslot : availCell s.vq s.mem (s.slot s.popped.length) = some (Virtqueue.headOf c) := by
      rw [h.slot_eq]
      exact h.slots _ _ (Nat.le_refl _) (by rw [List.getElem?_map, hget]; rfl)
    have hpending : s.vq.Pending s.mem (Virtqueue.headOf c) := by
      refine ⟨h.placed.size_ne_zero, ⟨_, h.availIdx, ?_⟩, ?_⟩
      · rw [h.lastAvail]
        intro he
        have := Ring.ofNat_inj h.popped_le hwin he
        omega
      · rw [h.lastAvail]
        exact hslot
    rw [Virtqueue.popAvail_of_pending hpending, Virtqueue.resolve_of_linked hlinked hlen]
    rfl
  next hget =>
    have hge : s.published.length ≤ s.popped.length := by
      rw [List.getElem?_eq_none_iff] at hget
      exact hget
    refine Virtqueue.popAvail_of_idle fun head hp => ?_
    obtain ⟨-, ⟨i, hi, hne⟩, -⟩ := hp
    rw [h.availIdx, some.injEq] at hi
    rw [← hi, h.lastAvail, Nat.le_antisymm h.popped_le hge] at hne
    exact hne rfl

theorem Inv.pop (h : Inv s) :
    Inv { s with
      vq := (s.vq.popAvail s.mem).1
      popped := s.popped ++ (s.vq.popAvail s.mem).2.toList } := by
  rw [h.popAvail_eq]
  split
  next c hget =>
    obtain ⟨hlt, hc⟩ := List.getElem?_eq_some_iff.mp hget
    have hlen : (s.popped ++ [c.resolved]).length = s.popped.length + 1 := by
      rw [List.length_append, List.length_singleton]
    have hle := h.pushed_le
    refine { h with
      placed := ⟨h.placed.size, h.placed.table, h.placed.avail, h.placed.used,
        h.placed.avail_used, h.placed.table_used, h.placed.table_avail⟩
      pushed_le := ?_
      popped_le := ?_
      lastAvail := ?_
      slots := ?_
      chains := ?_
      popped_eq := ?_ }
    all_goals dsimp only [toList, Virtqueue.advance]
    · omega
    · omega
    · rw [hlen, h.lastAvail, Ring.counter_succ]
    · rw [hlen]
      exact h.slots.mono (Nat.le_succ _)
    · intro p c' hp hget'
      rw [hlen] at hp
      obtain ⟨hlinked, hshort⟩ := h.chains p c' (Nat.le_of_succ_le hp) hget'
      refine ⟨.trans (Virtqueue.linked_congr ?_ fun _ _ => ?_) hlinked, hshort⟩ <;> rfl
    · rw [hlen, take_add_one, hget, toList_some, map_append, map_singleton]
      exact congrArg (· ++ [c.resolved]) h.popped_eq
  · dsimp only [toList]
    rw [append_nil]
    exact h

theorem Inv.see {e : UInt32 × UInt32} {i : UInt16} (h : Inv s)
    (hi : s.mem.readU16 s.vq.usedIdxAddr = some i)
    (he : usedCell s.vq s.mem (s.slot s.seen.length) = some e)
    (hne : i ≠ UInt16.ofNat s.seen.length) : Inv { s with seen := s.seen ++ [e] } := by
  have hlt : s.seen.length < s.pushed.length := by
    refine Nat.lt_of_le_of_ne h.seen_le fun heq => hne ?_
    rw [h.usedIdx, some.injEq] at hi
    rw [← hi, heq]
  have hget := getElem?_eq_getElem hlt
  have hcell := h.elems s.seen.length (some (element s.pushed[s.seen.length])) (Nat.le_refl _)
    (by rw [getElem?_map, hget]; rfl)
  dsimp only at hcell
  rw [← h.slot_eq, he, some.injEq] at hcell
  have hroom := h.room
  have hlen : (s.seen ++ [e]).length = s.seen.length + 1 := by
    rw [length_append, length_singleton]
  refine { h with seen_le := ?_, room := ?_, elems := ?_, seen_eq := ?_ }
  all_goals dsimp only
  · omega
  · omega
  · rw [hlen]
    exact h.elems.mono (Nat.le_succ _)
  · rw [hlen, take_add_one, hget, toList_some, map_append, map_singleton, hcell]
    exact congrArg (· ++ [element s.pushed[s.seen.length]]) h.seen_eq

theorem mem_pushRange {q : Virtqueue} {mem : GuestRam} (h : q.Placed mem)
    (hslot : q.usedIdx % q.size < q.size) {x : Nat} (hx : x ∈ q.pushRange) :
    (q.deviceAddr.toNat + 2 ≤ x ∧ x < q.deviceAddr.toNat + 4) ∨
      (q.deviceAddr.toNat + 4 + 8 * (q.usedIdx % q.size).toNat ≤ x ∧
        x < q.deviceAddr.toNat + 4 + 8 * (q.usedIdx % q.size).toNat + 8) := by
  have helem := h.toNat_usedElemAddr hslot
  have hlen := h.toNat_usedLenAddr hslot
  have hidx := h.toNat_usedIdxAddr
  rcases hx with (⟨h₁, h₂⟩ | ⟨h₁, h₂⟩) | ⟨h₁, h₂⟩ <;> omega

theorem read_pushUsed {q : Virtqueue} {mem : GuestRam} (h : q.Placed mem)
    (hslot : q.usedIdx % q.size < q.size) (head : UInt16) (len : UInt32) :
    (q.pushUsed mem head len).2.readU16 q.usedIdxAddr = some (q.usedIdx + 1) ∧
      usedCell q (q.pushUsed mem head len).2 (q.usedIdx % q.size) = some (element (head, len)) := by
  have helem := h.toNat_usedElemAddr hslot
  have hlenAddr := h.toNat_usedLenAddr hslot
  have hidx := h.toNat_usedIdxAddr
  have hlt := UInt16.lt_iff_toNat_lt.mp hslot
  have hpush : (q.pushUsed mem head len).2 =
      (((mem.writeU32 (q.usedElemAddr (q.usedIdx % q.size)) head.toUInt32).1.writeU32
        (q.usedElemAddr (q.usedIdx % q.size) + 4) len).1.writeU16 q.usedIdxAddr
          (q.usedIdx + 1)).1 := by
    unfold Virtqueue.pushUsed
    rw [if_neg h.size_ne_zero]
    rfl
  have hroom : ∀ {a n : Nat}, q.deviceAddr.toNat ≤ a →
      a + n ≤ q.deviceAddr.toNat + (4 + 8 * q.size.toNat) → mem.contains a n = true :=
    fun hlo hhi => GuestRam.contains_mono h.used hlo hhi
  rw [hpush]
  unfold usedCell
  generalize q.usedElemAddr (q.usedIdx % q.size) = elem at helem hlenAddr
  -- the three writes, one after the other
  have h₁ := GuestRam.changesIn_writeU32 mem elem head.toUInt32
  have h₂ := GuestRam.changesIn_writeU32 (mem.writeU32 elem head.toUInt32).1 (elem + 4) len
  have h₃ := GuestRam.changesIn_writeU16 ((mem.writeU32 elem head.toUInt32).1.writeU32 (elem + 4)
    len).1 q.usedIdxAddr (q.usedIdx + 1)
  have hid := GuestRam.readU32_writeU32_self (v := head.toUInt32)
    (hroom (a := elem.toNat) (n := 4) (by omega) (by omega))
  have hlen := GuestRam.readU32_writeU32_self (v := len)
    ((h₁.contains _ _).trans (hroom (a := (elem + 4).toNat) (n := 4) (by omega) (by omega)))
  refine ⟨GuestRam.readU16_writeU16_self ((h₂.contains _ _).trans ((h₁.contains _ _).trans
    (hroom (by omega) (by omega)))), ?_⟩
  have hid' := (h₃.readU32 (a := elem) fun x hlo hhi => by rintro ⟨_, _⟩; omega).trans
    ((h₂.readU32 (a := elem) fun x hlo hhi => by rintro ⟨_, _⟩; omega).trans hid)
  have hlen' := (h₃.readU32 (a := elem + 4) fun x hlo hhi => by rintro ⟨_, _⟩; omega).trans hlen
  rw [hid', hlen']
  rfl

theorem Inv.push (h : Inv s) (head : UInt16) (len : UInt32)
    (hlt : s.pushed.length < s.popped.length) :
    Inv { s with
      vq := (s.vq.pushUsed s.mem head len).1
      mem := (s.vq.pushUsed s.mem head len).2
      pushed := s.pushed ++ [(head, len)] } := by
  have hc := s.vq.changesIn_pushUsed s.mem head len
  have hslotEq : s.vq.usedIdx % s.vq.size = s.slot s.pushed.length := by rw [h.used]; rfl
  have hslotLt : s.vq.usedIdx % s.vq.size < s.vq.size := by
    rw [hslotEq]
    exact h.slot_lt _
  obtain ⟨hidx, hcell⟩ := read_pushUsed h.placed hslotLt head len
  have hnat : (s.vq.usedIdx % s.vq.size).toNat = s.pushed.length % s.vq.size.toNat := by
    rw [hslotEq]
    exact h.toNat_slot _
  have hbound := UInt16.lt_iff_toNat_lt.mp hslotLt
  have havail := h.placed.avail_used
  have htable := h.placed.table_used
  unfold Apart at havail htable
  -- outside the used ring, and in its other slots, nothing changes
  have hout : ∀ x, x < s.vq.deviceAddr.toNat ∨
      s.vq.deviceAddr.toNat + (4 + 8 * s.vq.size.toNat) ≤ x → x ∉ s.vq.pushRange := by
    intro x hx hmem
    have := mem_pushRange h.placed hslotLt hmem
    omega
  have hslots := h.slots_frame hc fun p _ _ x hlo hhi => hout x (by
    have := h.placed.toNat_availSlotAddr (h.slot_lt p)
    have := UInt16.lt_iff_toNat_lt.mp (h.slot_lt p)
    omega)
  have hchains := h.chains_frame hc fun p c _ _ i _ hi x hlo hhi => hout x (by
    have := h.placed.toNat_entryAddr hi
    have := UInt16.lt_iff_toNat_lt.mp hi
    omega)
  have hroom : (s.pushed.map fun e => some (element e)).length < s.seen.length + s.vq.size.toNat := by
    have := h.popped_le
    have := h.room
    rw [length_map]
    omega
  have helems := h.elems_frame hc fun p hp hlt' x hlo hhi hmem => by
    have hne := Ring.next_slot_free hroom hp (by rw [length_map]; exact hlt')
    rw [length_map] at hne
    have := h.placed.toNat_usedElemAddr (h.slot_lt p)
    have := h.toNat_slot p
    have := mem_pushRange h.placed hslotLt hmem
    omega
  have havailIdx := hc.readU16 (a := s.vq.availIdxAddr) fun x hlo hhi => hout x (by
    have := h.placed.toNat_availIdxAddr
    omega)
  have hseen := h.seen_le
  rw [Virtqueue.pushUsed_fst h.placed.size_ne_zero]
  have hlen : (s.pushed ++ [(head, len)]).length = s.pushed.length + 1 := by
    rw [length_append, length_singleton]
  refine { h with
    placed := ?_
    seen_le := ?_
    pushed_le := ?_
    availIdx := havailIdx.trans h.availIdx
    slots := hslots
    chains := fun p c hp hget => ?_
    used := ?_
    usedIdx := ?_
    elems := ?_
    seen_eq := ?_ }
  all_goals dsimp only
  · have hplaced := h.placed.congr hc
    exact ⟨hplaced.size, hplaced.table, hplaced.avail, hplaced.used,
      hplaced.avail_used, hplaced.table_used, hplaced.table_avail⟩
  · omega
  · omega
  · obtain ⟨hlinked, hshort⟩ := hchains p c hp hget
    refine ⟨.trans (Virtqueue.linked_congr ?_ fun _ _ => ?_) hlinked, hshort⟩ <;> rfl
  · rw [hlen, h.used, Ring.counter_succ]
  · rw [hlen, ← Ring.counter_succ, ← h.used]
    exact hidx
  · rw [map_append, map_singleton]
    refine helems.append ?_
    rw [length_map, ← hnat, UInt16.ofNat_toNat]
    exact hcell
  · rw [take_append_of_le_length h.seen_le]
    exact h.seen_eq

end

/-! ## Whole runs -/

/-- **Every step keeps the rings.** -/
theorem Inv.step {s s' : State} {a : Action} (h : Inv s) (hst : Fifo.step s a = some s') :
    Inv s' := by
  unfold Fifo.step at hst
  cases a with
  | store gpa data =>
    obtain ⟨hfree, rfl⟩ := ite_some_none_eq_some.mp hst
    exact h.store hfree
  | publish c =>
    obtain ⟨⟨hroom, hlen, hlinked, hslot⟩, rfl⟩ := ite_some_none_eq_some.mp hst
    exact h.publish hroom hlen hlinked hslot
  | see =>
    dsimp only at hst
    split at hst
    next i e hi he =>
      split at hst
      · cases hst
      next hne =>
        cases hst
        exact h.see hi he hne
    · cases hst
  | pop =>
    cases hst
    exact h.pop
  | push head len =>
    obtain ⟨hlt, rfl⟩ := ite_some_none_eq_some.mp hst
    exact h.push head len hlt

theorem Inv.visible {s : State} (h : Inv s) :
    s.visible = (s.pushed.drop s.seen.length).map fun e => some (element e) := by
  have hroom : s.pushed.length < s.seen.length + 2 ^ 16 := by
    have := h.room
    have := h.placed.size_le
    have := h.pushed_le
    have := h.popped_le
    omega
  have hview := h.elems.view (by rw [length_map]; exact h.seen_le)
  rw [length_map, ← map_drop] at hview
  unfold State.visible
  rw [h.usedIdx]
  dsimp only
  rw [Ring.toNat_distance h.seen_le hroom, ← hview]
  refine map_congr_left fun p _ => ?_
  rw [h.slot_eq]

/-- **A virtqueue is a pair of queues.** After every run the popped chains are an initial part of
the published ones, the next pop returns the chain after them, or none if there is no further
one, and the used elements the driver has seen and those it can see make up what was pushed. -/
theorem virtqueue_refines_fifo {s₀ s : State} {as : List Action} (hfresh : Fresh s₀)
    (hrun : Run step (fun _ _ => True) s₀ as s) :
    s.popped <+: s.published.map Chain.resolved ∧
      (s.vq.popAvail s.mem).2 = (s.published.map Chain.resolved)[s.popped.length]? ∧
      s.seen.map some ++ s.visible = s.pushed.map fun e => some (element e) := by
  have h : Inv s := hrun.invariant (fun _ _ _ h _ hst => h.step hst) (.of_fresh hfresh)
  refine ⟨?_, ?_, ?_⟩
  · rw [h.popped_eq, map_take]
    exact take_prefix _ _
  · rw [h.popAvail_eq, getElem?_map]
    split <;> rename_i hget <;> rw [hget] <;> rfl
  · rw [h.visible]
    calc s.seen.map some ++ (s.pushed.drop s.seen.length).map (fun e => some (element e))
        = ((s.pushed.take s.seen.length).map element).map some ++
            (s.pushed.drop s.seen.length).map (fun e => some (element e)) := by rw [← h.seen_eq]
      _ = s.pushed.map (fun e => some (element e)) := by
        rw [List.map_map, Function.comp_def, ← List.map_append, List.take_append_drop]

def smallQueue : State where
  mem := ⟨0x40000000, List.replicate 64 0, GuestRam.bounded_blank⟩
  vq := .new 2 0x40000000 0x40000020 0x40000028
  published := []
  popped := []
  pushed := []
  seen := []

def oneChain : List Action :=
  [.publish [(0, ⟨0, 0, false⟩)], .pop, .push 0 7, .see]

theorem smallQueue_fresh : Fresh smallQueue where
  placed := by
    refine ⟨⟨1, by decide, rfl⟩, ?_, ?_, ?_, ?_, ?_, ?_⟩ <;> decide +kernel
  lastAvail := rfl
  used := rfl
  availIdx := by decide +kernel
  usedIdx := by decide +kernel
  published := rfl
  popped := rfl
  pushed := rfl
  seen := rfl

theorem virtqueue_refines_fifo_small : ∃ s, Run step (fun _ _ => True) smallQueue oneChain s ∧
    s.seen = [(0, 7)] ∧ s.popped <+: s.published.map Chain.resolved ∧
      (s.vq.popAvail s.mem).2 = (s.published.map Chain.resolved)[s.popped.length]? ∧
      s.seen.map some ++ s.visible = s.pushed.map fun e => some (element e) := by
  obtain ⟨s, hrun, hseen⟩ : ∃ s, Run step (fun _ _ => True) smallQueue oneChain s ∧
      s.seen = [(0, 7)] := exists_run (by decide +kernel)
  exact ⟨s, hrun, hseen, virtqueue_refines_fifo smallQueue_fresh hrun⟩

end Fifo

end Ignition.Devices
