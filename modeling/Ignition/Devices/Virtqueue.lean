import Ignition.Devices.Ram

/-!
# The split virtqueue

`Virtqueue` of `crates/devices/src/virtio/queue.rs`. The driver publishes descriptor chains on
the available ring at `driver_addr` (`flags`, `idx`, then one head per slot), the device returns
them on the used ring at `device_addr` (`flags`, `idx`, then one `(id, len)` per slot).
`pop_avail` takes the next entry and resolves its chain, `push_used` appends an element.

All three addresses and the size are what the guest programmed; nothing about them is checked
before they are used. Index and address arithmetic is that of the code's own machine words.

`pop_avail` gives no chain in four cases: the queue has no size, the ring cannot be read, there
is no new entry, and the entry or its chain is malformed. Only the last one moves the queue on.
`popAvail_cases` keeps them apart.
-/

namespace Ignition.Devices

open Paged Ignition.Vmm

def VIRTQ_DESC_F_NEXT : UInt16 := 1

def VIRTQ_DESC_F_WRITE : UInt16 := 2

def DESC_SIZE : UInt64 := 16

/-- A resolved descriptor chain. -/
structure DescChain where
  head : UInt16
  descriptors : List Desc
  deriving DecidableEq

structure Virtqueue where
  size : UInt16
  descAddr : UInt64
  driverAddr : UInt64
  deviceAddr : UInt64
  lastAvailIdx : UInt16
  usedIdx : UInt16
  deriving DecidableEq

/-- An entry of the descriptor table. -/
structure TableEntry where
  addr : UInt64
  len : UInt32
  flags : UInt16
  next : UInt16

def TableEntry.desc (e : TableEntry) : Desc where
  addr := e.addr.toNat
  len := e.len.toNat
  writable := e.flags &&& VIRTQ_DESC_F_WRITE != 0

def TableEntry.hasNext (e : TableEntry) : Bool := e.flags &&& VIRTQ_DESC_F_NEXT != 0

/-- The four reads of one round of `pop_avail`'s loop. -/
def readEntry (mem : GuestRam) (d : UInt64) : Option TableEntry := do
  let addr ← mem.readU64 d
  let len ← mem.readU32 (d + 8)
  let flags ← mem.readU16 (d + 12)
  let next ← mem.readU16 (d + 14)
  return { addr, len, flags, next }

theorem readEntry_congr {W : Set Nat} {mem mem' : GuestRam} (h : GuestRam.ChangesIn W mem mem')
    {d : UInt64} (hd : d.toNat + 16 ≤ 2 ^ 64)
    (hout : ∀ x, d.toNat ≤ x → x < d.toNat + 16 → x ∉ W) : readEntry mem' d = readEntry mem d := by
  have hadd : ∀ k : UInt64, k.toNat ≤ 14 → (d + k).toNat = d.toNat + k.toNat := by
    intro k hk
    rw [UInt64.toNat_add]
    omega
  have h8 := hadd 8 (by decide)
  have h12 := hadd 12 (by decide)
  have h14 := hadd 14 (by decide)
  simp only [UInt64.reduceToNat] at h8 h12 h14
  unfold readEntry
  rw [h.readU64 fun x hlo hhi => hout x hlo (by omega),
    h.readU32 fun x hlo hhi => hout x (by omega) (by omega),
    h.readU16 fun x hlo hhi => hout x (by omega) (by omega),
    h.readU16 fun x hlo hhi => hout x (by omega) (by omega)]

namespace DescChain

def readable (chain : DescChain) : List Desc := chain.descriptors.filter fun d => !d.writable

/-- The first loop of `DescChain::read`: the length of the readable payload, if it is in RAM and
not too long. -/
def readLen (mem : GuestRam) (maxLen : Nat) : Nat → List Desc → Option Nat
  | len, [] => some len
  | len, d :: ds =>
    if len + d.len > maxLen || !mem.contains d.addr d.len then none
    else readLen mem maxLen (len + d.len) ds

def read (chain : DescChain) (mem : GuestRam) (maxLen : Nat) : Option Bytes :=
  (readLen mem maxLen 0 chain.readable).map fun _ =>
    chain.readable.flatMap fun d => (mem.readSlice d.addr d.len).getD (List.replicate d.len 0)

end DescChain

namespace Virtqueue

def new (size : UInt16) (descAddr driverAddr deviceAddr : UInt64) : Virtqueue where
  size := size
  descAddr := descAddr
  driverAddr := driverAddr
  deviceAddr := deviceAddr
  lastAvailIdx := 0
  usedIdx := 0

def setIndices (q : Virtqueue) (lastAvail used : UInt16) : Virtqueue :=
  { q with lastAvailIdx := lastAvail, usedIdx := used }

def availIdxAddr (q : Virtqueue) : UInt64 := q.driverAddr + 2

def availSlotAddr (q : Virtqueue) (slot : UInt16) : UInt64 := q.driverAddr + 4 + slot.toUInt64 * 2

def entryAddr (q : Virtqueue) (idx : UInt16) : UInt64 := q.descAddr + idx.toUInt64 * DESC_SIZE

def usedIdxAddr (q : Virtqueue) : UInt64 := q.deviceAddr + 2

def usedElemAddr (q : Virtqueue) (slot : UInt16) : UInt64 := q.deviceAddr + 4 + slot.toUInt64 * 8

/-- The loop of `pop_avail`, with the rounds that are left. -/
def walk (q : Virtqueue) (mem : GuestRam) : Nat → UInt16 → Option (List Desc)
  | 0, _ => some []
  | n + 1, idx =>
    -- a next index beyond the table ends the chain
    if q.size ≤ idx then some []
    else
      match readEntry mem (q.entryAddr idx) with
      | none => none
      | some e =>
        if e.hasNext then (walk q mem n e.next).map (e.desc :: ·) else some [e.desc]

def popAvail (q : Virtqueue) (mem : GuestRam) : Virtqueue × Option DescChain :=
  if q.size = 0 then (q, none)
  else
    match mem.readU16 q.availIdxAddr with
    | none => (q, none)
    | some availIdx =>
      if q.lastAvailIdx = availIdx then (q, none)
      else
        match mem.readU16 (q.availSlotAddr (q.lastAvailIdx % q.size)) with
        | none => (q, none)
        | some head =>
          -- the entry counts as taken from here on, whatever it turns out to be
          let q' := { q with lastAvailIdx := q.lastAvailIdx + 1 }
          if q.size ≤ head then (q', none)
          else (q', (q.walk mem q.size.toNat head).map (DescChain.mk head))

def pushUsed (q : Virtqueue) (mem : GuestRam) (head : UInt16) (len : UInt32) :
    Virtqueue × GuestRam :=
  if q.size = 0 then (q, mem)
  else
    let elem := q.usedElemAddr (q.usedIdx % q.size)
    let mem := (mem.writeU32 elem head.toUInt32).1
    let mem := (mem.writeU32 (elem + 4) len).1
    let q := { q with usedIdx := q.usedIdx + 1 }
    (q, (mem.writeU16 q.usedIdxAddr q.usedIdx).1)

/-! ## What the two operations do to the queue -/

section

variable {q q' : Virtqueue} {mem mem' : GuestRam}

def Pending (q : Virtqueue) (mem : GuestRam) (head : UInt16) : Prop :=
  q.size ≠ 0 ∧ (∃ i, mem.readU16 q.availIdxAddr = some i ∧ q.lastAvailIdx ≠ i) ∧
    mem.readU16 (q.availSlotAddr (q.lastAvailIdx % q.size)) = some head

def resolve (q : Virtqueue) (mem : GuestRam) (head : UInt16) : Option DescChain :=
  if q.size ≤ head then none else (q.walk mem q.size.toNat head).map (DescChain.mk head)

/-- The queue with its next entry taken. -/
def advance (q : Virtqueue) : Virtqueue := { q with lastAvailIdx := q.lastAvailIdx + 1 }

theorem popAvail_of_pending {head : UInt16} (h : q.Pending mem head) :
    q.popAvail mem = (q.advance, q.resolve mem head) := by
  obtain ⟨hsize, ⟨i, hidx, hne⟩, hslot⟩ := h
  unfold popAvail
  rw [if_neg hsize, hidx]
  dsimp only
  rw [if_neg hne, hslot]
  dsimp only
  unfold resolve advance
  split <;> rfl

theorem popAvail_of_idle (h : ∀ head, ¬ q.Pending mem head) : q.popAvail mem = (q, none) := by
  unfold popAvail
  split
  · rfl
  rename_i hsize
  split
  · rfl
  rename_i i hidx
  split
  · rfl
  rename_i hne
  split
  · rfl
  next head hslot => exact absurd ⟨hsize, ⟨i, hidx, hne⟩, hslot⟩ (h head)

theorem popAvail_cases (q : Virtqueue) (mem : GuestRam) :
    (∃ head, q.Pending mem head ∧ q.popAvail mem = (q.advance, q.resolve mem head)) ∨
      (∀ head, ¬ q.Pending mem head) ∧ q.popAvail mem = (q, none) := by
  by_cases h : ∃ head, q.Pending mem head
  · obtain ⟨head, hp⟩ := h
    exact .inl ⟨head, hp, popAvail_of_pending hp⟩
  · have hnone : ∀ head, ¬ q.Pending mem head := fun head hp => h ⟨head, hp⟩
    exact .inr ⟨hnone, popAvail_of_idle hnone⟩

theorem popAvail_eq_some {chain : DescChain} (h : q.popAvail mem = (q', some chain)) :
    q' = q.advance ∧ q.Pending mem chain.head ∧ q.resolve mem chain.head = some chain := by
  rcases popAvail_cases q mem with ⟨head, hp, he⟩ | ⟨-, he⟩
  · rw [he, Prod.mk.injEq] at h
    obtain ⟨rfl, hres⟩ := h
    have hhead : chain.head = head := by
      unfold resolve at hres
      split at hres
      · cases hres
      · obtain ⟨ds, -, rfl⟩ := Option.map_eq_some_iff.mp hres
        rfl
    rw [hhead]
    exact ⟨rfl, hp, hres⟩
  · rw [he, Prod.mk.injEq] at h
    cases h.2

def pushRange (q : Virtqueue) : Set Nat :=
  let elem := q.usedElemAddr (q.usedIdx % q.size)
  Set.Ico elem.toNat (elem.toNat + 4) ∪ Set.Ico (elem + 4).toNat ((elem + 4).toNat + 4) ∪
    Set.Ico q.usedIdxAddr.toNat (q.usedIdxAddr.toNat + 2)

theorem changesIn_pushUsed (q : Virtqueue) (mem : GuestRam) (head : UInt16) (len : UInt32) :
    GuestRam.ChangesIn q.pushRange mem (q.pushUsed mem head len).2 := by
  unfold pushUsed
  split
  · exact .refl _ mem
  refine .trans (.trans ((GuestRam.changesIn_writeU32 _ _ _).mono ?_)
    ((GuestRam.changesIn_writeU32 _ _ _).mono ?_)) ((GuestRam.changesIn_writeU16 _ _ _).mono ?_)
  · exact Set.subset_union_left.trans Set.subset_union_left
  · exact Set.subset_union_right.trans Set.subset_union_left
  · exact Set.subset_union_right

theorem pushUsed_fst (hsize : q.size ≠ 0) (head : UInt16) (len : UInt32) :
    (q.pushUsed mem head len).1 = { q with usedIdx := q.usedIdx + 1 } := by
  unfold pushUsed
  rw [if_neg hsize]

theorem pushUsed_fst_eq (q : Virtqueue) (mem : GuestRam) (head : UInt16) (len : UInt32) :
    (q.pushUsed mem head len).1 = { q with usedIdx := (q.pushUsed mem head len).1.usedIdx } := by
  by_cases hsize : q.size = 0
  · unfold pushUsed
    rw [if_pos hsize]
  · rw [pushUsed_fst hsize]

end

/-! ## Addresses that do not wrap -/

section

variable {q : Virtqueue} {mem : GuestRam}

theorem toNat_offset {a k : UInt64} {n : Nat} (h : a.toNat + n ≤ 2 ^ 64) (hk : k.toNat < n) :
    (a + k).toNat = a.toNat + k.toNat := by
  rw [UInt64.toNat_add]
  omega

theorem toNat_scaled (slot : UInt16) {c : UInt64} (hc : c.toNat ≤ 16) :
    (slot.toUInt64 * c).toNat = slot.toNat * c.toNat := by
  have hslot := slot.toNat_lt
  rw [UInt64.toNat_mul, UInt16.toNat_toUInt64]
  have hle : slot.toNat * c.toNat ≤ 2 ^ 16 * 16 := Nat.mul_le_mul (by omega) hc
  omega

theorem toNat_availSlotAddr
    (h : mem.contains q.driverAddr.toNat (4 + 2 * q.size.toNat) = true) {slot : UInt16}
    (hs : slot < q.size) :
    (q.availSlotAddr slot).toNat = q.driverAddr.toNat + 4 + 2 * slot.toNat := by
  obtain ⟨-, hfit⟩ := GuestRam.contains_iff.mp h
  have hram := mem.bounded
  have hlt := UInt16.lt_iff_toNat_lt.mp hs
  have hscaled := toNat_scaled slot (c := 2) (by decide)
  have hfour := toNat_offset (a := q.driverAddr) (k := 4) (n := 5) (by omega) (by decide)
  simp only [UInt64.reduceToNat] at hscaled hfour
  unfold availSlotAddr
  rw [UInt64.toNat_add, hfour, hscaled]
  omega

end

/-! ## What a pop reads -/

section

variable {q : Virtqueue} {mem mem' : GuestRam} {W : Set Nat}

def entryBytes (q : Virtqueue) (i : UInt16) : Set Nat :=
  {x | ∃ w ∈ [(0, 8), (8, 4), (12, 2), (14, 2)],
    (q.entryAddr i + UInt64.ofNat w.1).toNat ≤ x ∧
      x < (q.entryAddr i + UInt64.ofNat w.1).toNat + w.2}

def readSet (q : Virtqueue) : Set Nat :=
  {x | (q.availIdxAddr.toNat ≤ x ∧ x < q.availIdxAddr.toNat + 2) ∨
    (∃ slot < q.size, (q.availSlotAddr slot).toNat ≤ x ∧ x < (q.availSlotAddr slot).toNat + 2) ∨
    ∃ i < q.size, x ∈ q.entryBytes i}

theorem slot_lt (hsize : q.size ≠ 0) (p : UInt16) : p % q.size < q.size := by
  rw [UInt16.lt_iff_toNat_lt, UInt16.toNat_mod]
  refine Nat.mod_lt _ (Nat.pos_of_ne_zero fun h0 => hsize ?_)
  exact UInt16.toNat_inj.mp h0

theorem readEntry_of_readSet (hc : GuestRam.ChangesIn W mem mem') (hW : ∀ x ∈ q.readSet, x ∉ W)
    {i : UInt16} (hi : i < q.size) :
    readEntry mem' (q.entryAddr i) = readEntry mem (q.entryAddr i) := by
  have hout : ∀ w ∈ [(0, 8), (8, 4), (12, 2), (14, 2)], ∀ x,
      (q.entryAddr i + UInt64.ofNat w.1).toNat ≤ x →
      x < (q.entryAddr i + UInt64.ofNat w.1).toNat + w.2 → x ∉ W :=
    fun w hw x hlo hhi => hW x (.inr (.inr ⟨i, hi, w, hw, hlo, hhi⟩))
  have h0 := hout (0, 8) (by simp)
  have h8 := hout (8, 4) (by simp)
  have h12 := hout (12, 2) (by simp)
  have h14 := hout (14, 2) (by simp)
  have hzero : q.entryAddr i + UInt64.ofNat 0 = q.entryAddr i := UInt64.add_zero _
  rw [hzero] at h0
  unfold readEntry
  rw [hc.readU64 h0, hc.readU32 (a := q.entryAddr i + 8) h8,
    hc.readU16 (a := q.entryAddr i + 12) h12, hc.readU16 (a := q.entryAddr i + 14) h14]

theorem walk_congr (hc : GuestRam.ChangesIn W mem mem') (hW : ∀ x ∈ q.readSet, x ∉ W) :
    ∀ (n : Nat) (i : UInt16), q.walk mem' n i = q.walk mem n i
  | 0, _ => rfl
  | n + 1, i => by
    unfold walk
    split
    · rfl
    rename_i hi
    rw [readEntry_of_readSet hc hW (UInt16.not_le.mp hi)]
    split
    · rfl
    next e _ => rw [walk_congr hc hW n e.next]

theorem resolve_congr (hc : GuestRam.ChangesIn W mem mem') (hW : ∀ x ∈ q.readSet, x ∉ W)
    (head : UInt16) : q.resolve mem' head = q.resolve mem head := by
  unfold resolve
  rw [walk_congr hc hW]

theorem walk_same {q' : Virtqueue} (hsize : q'.size = q.size) (hdesc : q'.descAddr = q.descAddr) :
    ∀ (n : Nat) (i : UInt16), q'.walk mem n i = q.walk mem n i
  | 0, _ => rfl
  | n + 1, i => by
    have haddr : q'.entryAddr i = q.entryAddr i := by
      unfold entryAddr
      rw [hdesc]
    unfold walk
    rw [hsize, haddr]
    split
    · rfl
    split
    · rfl
    next e _ => rw [walk_same hsize hdesc n e.next]

theorem resolve_same {q' : Virtqueue} (hsize : q'.size = q.size) (hdesc : q'.descAddr = q.descAddr)
    (head : UInt16) : q'.resolve mem head = q.resolve mem head := by
  unfold resolve
  rw [walk_same hsize hdesc, hsize]

theorem readU16_availIdx_congr (hc : GuestRam.ChangesIn W mem mem')
    (hW : ∀ x ∈ q.readSet, x ∉ W) : mem'.readU16 q.availIdxAddr = mem.readU16 q.availIdxAddr :=
  hc.readU16 fun x hlo hhi => hW x (.inl ⟨hlo, hhi⟩)

theorem readU16_availSlot_congr (hc : GuestRam.ChangesIn W mem mem')
    (hW : ∀ x ∈ q.readSet, x ∉ W) {slot : UInt16} (hs : slot < q.size) :
    mem'.readU16 (q.availSlotAddr slot) = mem.readU16 (q.availSlotAddr slot) :=
  hc.readU16 fun x hlo hhi => hW x (.inr (.inl ⟨slot, hs, hlo, hhi⟩))

end

/-! ## Linked chains -/

section

variable {q : Virtqueue} {mem mem' : GuestRam}

def linked (q : Virtqueue) (mem : GuestRam) : List (UInt16 × Desc) → Bool
  | [] => false
  | (i, d) :: rest =>
    i < q.size && (readEntry mem (q.entryAddr i)).any fun e =>
      e.desc = d &&
        match rest with
        | [] => !e.hasNext
        | (j, d') :: rest' => e.hasNext && e.next = j && linked q mem ((j, d') :: rest')

def headOf : List (UInt16 × Desc) → UInt16
  | [] => 0
  | (i, _) :: _ => i

theorem walk_of_linked : ∀ {n : Nat} {c : List (UInt16 × Desc)}, q.linked mem c = true →
    c.length ≤ n → q.walk mem n (headOf c) = some (c.map Prod.snd)
  | _, [], h, _ => nomatch h
  | 0, _ :: _, _, hn => by
    rw [List.length_cons] at hn
    omega
  | n + 1, (i, d) :: rest, h, hn => by
    rw [linked, Bool.and_eq_true, decide_eq_true_eq, Option.any_eq_true] at h
    obtain ⟨hi, e, he, hd⟩ := h
    rw [Bool.and_eq_true, decide_eq_true_eq] at hd
    obtain ⟨rfl, hrest⟩ := hd
    rw [headOf, walk, if_neg (UInt16.not_le.mpr hi), he]
    dsimp only
    match rest, hrest with
    | [], hlast =>
      rw [Bool.not_eq_true'] at hlast
      rw [hlast]
      rfl
    | (j, d') :: rest', hnext =>
      rw [Bool.and_eq_true, Bool.and_eq_true, decide_eq_true_eq] at hnext
      obtain ⟨⟨hflag, rfl⟩, hlinked⟩ := hnext
      have ih := walk_of_linked hlinked (Nat.le_of_succ_le_succ hn)
      rw [headOf] at ih
      rw [if_pos hflag, ih]
      rfl

theorem headOf_lt {c : List (UInt16 × Desc)} (h : q.linked mem c = true) : headOf c < q.size := by
  cases c with
  | nil => cases h
  | cons e rest =>
    rw [linked, Bool.and_eq_true, decide_eq_true_eq] at h
    exact h.1

theorem mem_linked_lt : ∀ {c : List (UInt16 × Desc)}, q.linked mem c = true →
    ∀ {i : UInt16}, i ∈ c.map Prod.fst → i < q.size
  | [], _, _, hi => nomatch hi
  | (j, d) :: rest, h, i, hi => by
    rw [linked, Bool.and_eq_true, decide_eq_true_eq, Option.any_eq_true] at h
    obtain ⟨hj, e, -, hd⟩ := h
    rcases List.mem_cons.mp hi with rfl | hi'
    · exact hj
    match rest, hd with
    | [], _ => cases hi'
    | (j', d') :: rest', hd =>
      rw [Bool.and_eq_true, Bool.and_eq_true] at hd
      exact mem_linked_lt hd.2.2 hi'

theorem resolve_of_linked {c : List (UInt16 × Desc)} (h : q.linked mem c = true)
    (hlen : c.length ≤ q.size.toNat) :
    q.resolve mem (headOf c) = some ⟨headOf c, c.map Prod.snd⟩ := by
  unfold resolve
  rw [if_neg (UInt16.not_le.mpr (headOf_lt h)), walk_of_linked h hlen]
  rfl

theorem linked_congr {q' : Virtqueue} (hsize : q'.size = q.size) : ∀ {c : List (UInt16 × Desc)},
    (∀ i ∈ c.map Prod.fst, readEntry mem' (q'.entryAddr i) = readEntry mem (q.entryAddr i)) →
    q'.linked mem' c = q.linked mem c
  | [], _ => rfl
  | (i, d) :: rest, h => by
    have ih := linked_congr hsize (c := rest) fun j hj => h j (List.mem_cons_of_mem _ hj)
    rw [linked, linked, h i List.mem_cons_self, hsize]
    match rest, ih with
    | [], _ => rfl
    | (j, d') :: rest', ih =>
      dsimp only
      rw [ih]

end

end Virtqueue

end Ignition.Devices
