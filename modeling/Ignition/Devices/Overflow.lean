import Ignition.Vmm.Memory
import Ignition.Devices.MmioRuns

/-!
# The sums behind the addresses of a queue

`pop_avail`, `push_used` and the loop of `Balloon::inflate` add offsets to addresses that come
from the guest: the ring addresses from the registers of the transport, the buffer addresses from
the descriptor table. The additions are plain `+` on `u64`, which panics in a debug build and
wraps around in a release build, and they are done before the range is looked up in RAM.

Here the sums are listed as natural numbers, in the order in which the code forms them and only
those it comes to: a failed read ends a pop, so later sums are not formed. A read that succeeds
bounds the address it was made at by the end of RAM, and with it everything that is a small
offset away. So the only sums that can pass `2 ^ 64` are those that come before the first read of
their ring or table (`address_sums_lt_iff`), and the registers let the guest choose them freely
(`avail_idx_sum_overflows`).
-/

namespace Ignition.Devices

open Paged Ignition.Vmm Runs List Option

namespace Virtqueue

/-- The sums of the four reads of a table entry at `d`. -/
def entrySums (mem : GuestRam) (d : UInt64) : List Nat :=
  match mem.readU64 d with
  | none => []
  | some _ =>
    (d.toNat + 8) ::
      match mem.readU32 (d + 8) with
      | none => []
      | some _ =>
        (d.toNat + 12) ::
          match mem.readU16 (d + 12) with
          | none => []
          | some _ => [d.toNat + 14]

/-- The sums of the loop of `pop_avail`, with the rounds that are left. -/
def walkSums (q : Virtqueue) (mem : GuestRam) : Nat → UInt16 → List Nat
  | 0, _ => []
  | n + 1, idx =>
    if q.size ≤ idx then []
    else
      (q.descAddr.toNat + idx.toNat * 16) :: (entrySums mem (q.entryAddr idx) ++
        match readEntry mem (q.entryAddr idx) with
        | none => []
        | some e => if e.hasNext then walkSums q mem n e.next else [])

/-- The sums of `pop_avail`. -/
def popSums (q : Virtqueue) (mem : GuestRam) : List Nat :=
  if q.size = 0 then []
  else
    (q.driverAddr.toNat + 2) ::
      match mem.readU16 q.availIdxAddr with
      | none => []
      | some availIdx =>
        if q.lastAvailIdx = availIdx then []
        else
          let slot := q.lastAvailIdx % q.size
          (q.driverAddr.toNat + 4) :: ((q.driverAddr + 4).toNat + slot.toNat * 2) ::
            match mem.readU16 (q.availSlotAddr slot) with
            | none => []
            | some head => if q.size ≤ head then [] else q.walkSums mem q.size.toNat head

/-- The sums of `push_used`. -/
def pushSums (q : Virtqueue) : List Nat :=
  if q.size = 0 then []
  else
    let slot := q.usedIdx % q.size
    [q.deviceAddr.toNat + 4, (q.deviceAddr + 4).toNat + slot.toNat * 8,
      (q.usedElemAddr slot).toNat + 4, q.deviceAddr.toNat + 2]

section

variable {q : Virtqueue} {mem : GuestRam}

def Roomy (mem : GuestRam) : Prop := mem.base + mem.ram.length + 2 ^ 21 ≤ 2 ^ 64

theorem roomy_of_layout (hbase : mem.base = RAM_BASE) (hlen : mem.ram.length < 2 ^ 63) :
    Roomy mem := by
  unfold Roomy
  rw [hbase]
  unfold RAM_BASE
  omega

theorem entrySums_lt (hroom : Roomy mem) (d : UInt64) : ∀ s ∈ entrySums mem d, s < 2 ^ 64 := by
  unfold entrySums
  unfold Roomy at hroom
  split
  · exact fun s hs => nomatch hs
  rename_i hread
  obtain ⟨-, hfit⟩ := GuestRam.contains_iff.mp (GuestRam.contains_of_readU64 hread)
  intro s hs
  have hle : s ≤ d.toNat + 14 := by
    split at hs
    · grind
    · split at hs <;> grind
  omega

theorem walkSums_lt (hroom : Roomy mem) (hdesc : q.descAddr.toNat ≤ mem.base + mem.ram.length)
    (n : Nat) (idx : UInt16) : ∀ s ∈ q.walkSums mem n idx, s < 2 ^ 64 := by
  -- one round for each constructor of the rounds left
  induction n generalizing idx with
  | zero => exact fun s hs => nomatch hs
  | succ n ih =>
    have hidx := idx.toNat_lt
    have hfirst : q.descAddr.toNat + idx.toNat * 16 < 2 ^ 64 := by
      unfold Roomy at hroom
      omega
    rw [walkSums]
    split
    · exact fun s hs => nomatch hs
    rw [forall_mem_cons, forall_mem_append]
    refine ⟨hfirst, entrySums_lt hroom _, ?_⟩
    split
    · exact fun s hs => nomatch hs
    rename_i e _
    split
    · exact ih e.next
    · exact fun s hs => nomatch hs

theorem walkSums_lt_iff (hroom : Roomy mem) {head : UInt16} (hhead : head < q.size) (n : Nat) :
    (∀ s ∈ q.walkSums mem (n + 1) head, s < 2 ^ 64) ↔
      q.descAddr.toNat + 16 * head.toNat < 2 ^ 64 := by
  constructor
  · intro h
    rw [walkSums, if_neg (UInt16.not_le.mpr hhead), forall_mem_cons] at h
    omega
  · intro h
    have haddr : (q.entryAddr head).toNat = q.descAddr.toNat + 16 * head.toNat := by
      have hscaled := toNat_scaled head (c := DESC_SIZE) (by decide)
      unfold entryAddr
      rw [UInt64.toNat_add, hscaled]
      unfold DESC_SIZE
      simp only [UInt64.reduceToNat]
      omega
    cases hread : mem.readU64 (q.entryAddr head) with
    | none =>
      -- the first read fails, and the sum before it is the only one
      rw [walkSums, if_neg (UInt16.not_le.mpr hhead), forall_mem_cons]
      unfold entrySums readEntry
      rw [hread]
      exact ⟨by omega, fun s hs => nomatch hs⟩
    | some v =>
      obtain ⟨-, hfit⟩ := GuestRam.contains_iff.mp (GuestRam.contains_of_readU64 hread)
      exact walkSums_lt hroom (by omega) (n + 1) head

theorem popSums_lt_iff (hroom : Roomy mem) (q : Virtqueue) :
    (∀ s ∈ q.popSums mem, s < 2 ^ 64) ↔
      q.size = 0 ∨ q.driverAddr.toNat + 2 < 2 ^ 64 ∧
        ∀ head, q.Pending mem head → head < q.size →
          q.descAddr.toNat + 16 * head.toNat < 2 ^ 64 := by
  by_cases hsize : q.size = 0
  · unfold popSums
    rw [if_pos hsize]
    exact ⟨fun _ => .inl hsize, fun _ s hs => nomatch hs⟩
  -- the loop makes at least one round
  obtain ⟨n, hn⟩ : ∃ n, q.size.toNat = n + 1 :=
    Nat.exists_eq_add_one_of_ne_zero fun h0 => hsize (UInt16.toNat_inj.mp h0)
  rw [or_iff_right hsize]
  unfold popSums
  rw [if_neg hsize, forall_mem_cons]
  refine and_congr_right fun hidxAddr => ?_
  split
  next hidx =>
    refine ⟨fun _ head hp _ => ?_, fun _ s hs => nomatch hs⟩
    obtain ⟨i, hi, -⟩ := hp.2.1
    rw [hidx] at hi
    cases hi
  next availIdx hidx =>
    split
    next hsame =>
      refine ⟨fun _ head hp _ => ?_, fun _ s hs => nomatch hs⟩
      obtain ⟨i, hi, hne⟩ := hp.2.1
      rw [hidx] at hi
      exact absurd (hsame.trans (some.inj hi)) hne
    next hne =>
      -- the index was read two bytes into the ring, so the slots are near RAM
      have hslot := (q.lastAvailIdx % q.size).toNat_lt
      have hring : q.driverAddr.toNat ≤ mem.base + mem.ram.length := by
        obtain ⟨-, hfit⟩ := GuestRam.contains_iff.mp (GuestRam.contains_of_readU16 hidx)
        unfold availIdxAddr at hfit
        rw [UInt64.toNat_add] at hfit
        simp only [UInt64.reduceToNat] at hfit
        omega
      have hfour : (q.driverAddr + 4).toNat = q.driverAddr.toNat + 4 := by
        unfold Roomy at hroom
        rw [UInt64.toNat_add]
        simp only [UInt64.reduceToNat]
        omega
      rw [forall_mem_cons, forall_mem_cons, hfour]
      have hnear : q.driverAddr.toNat + 4 < 2 ^ 64 ∧
          q.driverAddr.toNat + 4 + (q.lastAvailIdx % q.size).toNat * 2 < 2 ^ 64 := by
        unfold Roomy at hroom
        omega
      rw [← and_assoc, and_iff_right hnear]
      split
      next hread =>
        refine ⟨fun _ head hp _ => ?_, fun _ s hs => nomatch hs⟩
        have hhead := hp.2.2
        rw [hread] at hhead
        cases hhead
      next head hread =>
        have honly : ∀ head', q.Pending mem head' → head' = head := by
          intro head' hp
          have hhead := hp.2.2
          rw [hread] at hhead
          exact (some.inj hhead).symm
        split
        next hge =>
          refine ⟨fun _ head' hp hlt => ?_, fun _ s hs => nomatch hs⟩
          rw [honly head' hp] at hlt
          exact absurd hge (UInt16.not_le.mpr hlt)
        next hlt =>
          have hlt := UInt16.not_le.mp hlt
          rw [hn, walkSums_lt_iff hroom hlt]
          constructor
          · intro h head' hp _
            rw [honly head' hp]
            exact h
          · intro h
            exact h head ⟨hsize, ⟨availIdx, hidx, hne⟩, hread⟩ hlt

theorem pushSums_lt_iff (q : Virtqueue) :
    (∀ s ∈ q.pushSums, s < 2 ^ 64) ↔
      q.size = 0 ∨ q.deviceAddr.toNat + 8 + 8 * (q.usedIdx % q.size).toNat < 2 ^ 64 := by
  by_cases hsize : q.size = 0
  · unfold pushSums
    rw [if_pos hsize]
    exact ⟨fun _ => .inl hsize, fun _ s hs => nomatch hs⟩
  have hfour : (q.deviceAddr + 4).toNat = (q.deviceAddr.toNat + 4) % 2 ^ 64 := by
    rw [UInt64.toNat_add]
    simp only [UInt64.reduceToNat]
  have helem : (q.usedElemAddr (q.usedIdx % q.size)).toNat =
      ((q.deviceAddr + 4).toNat + (q.usedIdx % q.size).toNat * 8) % 2 ^ 64 := by
    have hscaled := toNat_scaled (q.usedIdx % q.size) (c := 8) (by decide)
    unfold usedElemAddr
    rw [UInt64.toNat_add, hscaled]
    simp only [UInt64.reduceToNat]
  unfold pushSums
  rw [if_neg hsize, or_iff_right hsize]
  simp only [forall_mem_cons, helem, hfour]
  constructor
  · rintro ⟨hbase, hslots, hlen, -⟩
    omega
  · intro h
    refine ⟨?_, ?_, ?_, ?_, fun s hs => nomatch hs⟩ <;> omega

end

end Virtqueue

/-- The sums of the loop of `Balloon::inflate` over the descriptors of one chain. -/
def pfnSums (chain : List Desc) : List Nat :=
  chain.flatMap fun d =>
    if d.writable then [] else (List.range (d.len / 4)).map fun i => d.addr + i * 4

theorem pfnAddrs_eq_pfnSums (chain : List Desc) :
    pfnAddrs chain = (pfnSums chain).map (· % 2 ^ 64) := by
  unfold pfnAddrs pfnSums
  rw [map_flatMap]
  congr 1
  funext d
  split
  · rfl
  · rw [List.map_map]; rfl

theorem pfnSums_lt_iff (chain : List Desc) :
    (∀ s ∈ pfnSums chain, s < 2 ^ 64) ↔
      ∀ d ∈ chain, d.writable = false → 4 ≤ d.len → d.addr + 4 * (d.len / 4 - 1) < 2 ^ 64 := by
  unfold pfnSums
  simp only [List.mem_flatMap, forall_exists_index, and_imp]
  constructor
  · intro h d hd hw hlen
    have hlast := h (d.addr + (d.len / 4 - 1) * 4) d hd
    rw [hw, if_neg Bool.false_ne_true, List.mem_map] at hlast
    have := hlast ⟨d.len / 4 - 1, List.mem_range.mpr (by omega), rfl⟩
    omega
  · intro h s d hd hs
    split at hs
    · cases hs
    rename_i hw
    obtain ⟨i, hi, rfl⟩ := mem_map.mp hs
    have hi := mem_range.mp hi
    have := h d hd (Bool.eq_false_of_not_eq_true hw) (by omega)
    omega

/-- **When the sums stay below `2 ^ 64`**, for every queue that register writes can set up and
every content of RAM: an address is trusted until the first read through it. -/
theorem address_sums_lt_iff {mem : GuestRam} (hbase : mem.base = RAM_BASE)
    (hlen : mem.ram.length < 2 ^ 63) (q : Virtqueue) (chain : List Desc) :
    ((∀ s ∈ q.popSums mem ++ q.pushSums ++ pfnSums chain, s < 2 ^ 64) ↔
      (q.size = 0 ∨ q.driverAddr.toNat + 2 < 2 ^ 64 ∧
        (∀ head, q.Pending mem head → head < q.size →
          q.descAddr.toNat + 16 * head.toNat < 2 ^ 64) ∧
        q.deviceAddr.toNat + 8 + 8 * (q.usedIdx % q.size).toNat < 2 ^ 64) ∧
      ∀ d ∈ chain, d.writable = false → 4 ≤ d.len →
        d.addr + 4 * (d.len / 4 - 1) < 2 ^ 64) := by
  have hroom := Virtqueue.roomy_of_layout hbase hlen
  rw [forall_mem_append, forall_mem_append, Virtqueue.popSums_lt_iff hroom,
    Virtqueue.pushSums_lt_iff, pfnSums_lt_iff, ← or_and_left, and_assoc]

namespace VirtioMmio

theorem address_sums_lt_small : entropy.mem.base = RAM_BASE ∧
    ∀ s ∈ (Virtqueue.new 1 0x40000000 0x40000010 0x40000020).popSums entropy.mem ++
      (Virtqueue.new 1 0x40000000 0x40000010 0x40000020).pushSums ++
        pfnSums [⟨0x40000030, 8, false⟩], s < 2 ^ 64 := by
  refine ⟨rfl, (address_sums_lt_iff rfl (by decide +kernel) _ _).mpr
    ⟨.inr ⟨by decide, ?_, by decide⟩, ?_⟩⟩
  · intro head _ _
    have hlt := head.toNat_lt
    show 0x40000000 + 16 * head.toNat < 2 ^ 64
    omega
  · decide

/-- **The guest can make a sum overflow**: it puts the available ring at the last even address and
makes the queue ready, and the first pop adds two to that. -/
theorem avail_idx_sum_overflows : ∃ t, Run (step 1) (fun _ _ => True) entropy
    [.write 0x038 (leBytes 4 1), .write 0x090 (leBytes 4 0xfffffffe),
      .write 0x094 (leBytes 4 0xffffffff), .write 0x044 (leBytes 4 1)] t ∧
    ∃ q vq, t.queues[0]? = some q ∧ q.ready ≠ 0 ∧ q.vq = some vq ∧
      ∃ s ∈ vq.popSums t.mem, 2 ^ 64 ≤ s := by
  obtain ⟨t, hrun, q, hq, hready, vq, hvq, hsum⟩ : ∃ t, Run (step 1) (fun _ _ => True) entropy
      [.write 0x038 (leBytes 4 1), .write 0x090 (leBytes 4 0xfffffffe),
        .write 0x094 (leBytes 4 0xffffffff), .write 0x044 (leBytes 4 1)] t ∧
      ∃ q ∈ t.queues[0]?, q.ready ≠ 0 ∧ ∃ vq ∈ q.vq, ∃ s ∈ vq.popSums t.mem, 2 ^ 64 ≤ s :=
    exists_run (by decide +kernel)
  exact ⟨t, hrun, q, vq, hq, hready, hvq, hsum⟩

end VirtioMmio

end Ignition.Devices
