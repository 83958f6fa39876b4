import Ignition.Devices.BlkDisk

/-!
# Reading a chain

`DescChain::read` of `queue.rs` goes through the readable descriptors twice. The first loop adds up
their lengths and checks each against RAM and the limit. Only then is a buffer made, and the second
loop copies descriptor after descriptor into it.

The devices use it in the form of `DescChain.read`. Here it is taken apart: the two loops as they
stand in the source, in 64-bit arithmetic and with the index that could panic, and the sizes of the
buffers that are made (`readTraced`). The first loop decides everything (`validate_eq`,
`readLen_eq_some_iff`); after it the second one stays inside the buffer and fills all of it
(`copy_eq`).
-/

namespace Ignition.Devices.DescChain

open Paged Ignition.Vmm List

/-! ## The two loops -/

/-- How a call ends: it returns, or an index is out of range. -/
inductive Outcome where
  | returned (bytes : Option Bytes)
  | panicked
  deriving DecidableEq

/-- The first loop of `DescChain::read`. -/
def validate (mem : GuestRam) (maxLen : Nat) : Nat → List Desc → Option Nat
  | len, [] => some len
  | len, d :: ds =>
    -- `checked_add` of two `usize`
    if 2 ^ 64 ≤ len + d.len then none
    else if len + d.len > maxLen || !mem.contains d.addr d.len then none
    else validate mem maxLen (len + d.len) ds

/-- The second loop, with the offset that is reached. It ends with `none` at an index that is out of
range. -/
def copy (mem : GuestRam) : Nat → Bytes → List Desc → Option Bytes
  | _, bytes, [] => some bytes
  | offset, bytes, d :: ds =>
    let stop := offset + d.len
    if bytes.length < stop then none
    else
      match mem.readSlice d.addr d.len with
      | some b => copy mem stop (copyInto bytes offset b) ds
      -- a read that fails leaves the buffer as it is
      | none => copy mem stop bytes ds

/-- `DescChain::read`, and the sizes of the buffers that it makes. -/
def readTraced (chain : DescChain) (mem : GuestRam) (maxLen : UInt64) : Outcome × List Nat :=
  match validate mem maxLen.toNat 0 chain.readable with
  | none => (.returned none, [])
  | some len =>
    match copy mem 0 (List.replicate len 0) chain.readable with
    | some bytes => (.returned (some bytes), [len])
    | none => (.panicked, [len])

/-! ## The first loop -/

section

variable {mem : GuestRam} {d : Desc} {ds : List Desc}

theorem validate_eq {maxLen : Nat} (hmax : maxLen < 2 ^ 64) : ∀ (ds : List Desc) (len : Nat),
    validate mem maxLen len ds = readLen mem maxLen len ds
  | [], _ => rfl
  | d :: ds, len => by
    unfold validate readLen
    by_cases hbig : 2 ^ 64 ≤ len + d.len
    · have hover : len + d.len > maxLen := by omega
      rw [if_pos hbig, decide_eq_true hover, Bool.true_or]
      rfl
    · rw [if_neg hbig, validate_eq hmax ds]

theorem readLen_eq_some_iff {maxLen n : Nat} : ∀ {ds : List Desc} {len : Nat}, len ≤ maxLen →
    (readLen mem maxLen len ds = some n ↔
      n = len + VirtioBlk.total ds ∧ n ≤ maxLen ∧ ∀ d ∈ ds, mem.contains d.addr d.len = true)
  | [], len, hlen => by
    refine ⟨fun h => ?_, fun h => congrArg some h.1.symm⟩
    cases h
    exact ⟨rfl, hlen, fun d hd => absurd hd not_mem_nil⟩
  | d :: ds, len, hlen => by
    rw [VirtioBlk.total_cons, forall_mem_cons, ← Nat.add_assoc]
    unfold readLen
    by_cases hover : len + d.len > maxLen
    · rw [decide_eq_true hover, Bool.true_or]
      constructor
      · intro h
        cases h
      · rintro ⟨hn, hmax, -⟩
        omega
    · rw [decide_eq_false hover, Bool.false_or]
      cases hin : mem.contains d.addr d.len with
      | false =>
        constructor
        · intro h
          cases h
        · rintro ⟨-, -, hno, -⟩
          cases hno
      | true =>
        have hle : len + d.len ≤ maxLen := by omega
        refine (readLen_eq_some_iff hle).trans ?_
        exact ⟨fun ⟨hn, hmax, hds⟩ => ⟨hn, hmax, rfl, hds⟩, fun ⟨hn, hmax, _, hds⟩ => ⟨hn, hmax, hds⟩⟩

/-! ## The second loop -/

theorem gather_cons_inv {src : Bytes} (h : VirtioBlk.gather mem (d :: ds) = some src) :
    ∃ b bs, mem.readSlice d.addr d.len = some b ∧ VirtioBlk.gather mem ds = some bs ∧
      src = b ++ bs := by
  unfold VirtioBlk.gather at h
  cases hb : mem.readSlice d.addr d.len with
  | none =>
    rw [hb] at h
    cases h
  | some b =>
    cases hbs : VirtioBlk.gather mem ds with
    | none =>
      rw [hb, hbs] at h
      cases h
    | some bs =>
      rw [hb, hbs] at h
      exact ⟨b, bs, rfl, rfl, (Option.some.inj h).symm⟩

theorem exists_gather_iff : ∀ {ds : List Desc}, (∃ src, VirtioBlk.gather mem ds = some src) ↔
    ∀ d ∈ ds, mem.contains d.addr d.len = true
  | [] => ⟨fun _ d hd => absurd hd not_mem_nil, fun _ => ⟨[], rfl⟩⟩
  | d :: ds => by
    rw [forall_mem_cons, ← exists_gather_iff]
    constructor
    · rintro ⟨src, h⟩
      obtain ⟨b, bs, hb, hbs, -⟩ := gather_cons_inv h
      exact ⟨GuestRam.contains_of_readSlice hb, bs, hbs⟩
    · rintro ⟨hin, bs, hbs⟩
      exact ⟨_, VirtioBlk.gather_cons (GuestRam.readSlice_of_contains hin) hbs⟩

theorem length_gather : ∀ {ds : List Desc} {src : Bytes}, VirtioBlk.gather mem ds = some src →
    src.length = VirtioBlk.total ds
  | [], src, h => by
    cases h
    rfl
  | d :: ds, src, h => by
    obtain ⟨b, bs, hb, hbs, rfl⟩ := gather_cons_inv h
    rw [length_append, GuestRam.length_readSlice hb, length_gather hbs, VirtioBlk.total_cons]

theorem payload_eq : ∀ {ds : List Desc} {src : Bytes}, VirtioBlk.gather mem ds = some src →
    (ds.flatMap fun d => (mem.readSlice d.addr d.len).getD (replicate d.len 0)) = src
  | [], src, h => Option.some.inj h
  | d :: ds, src, h => by
    obtain ⟨b, bs, hb, hbs, rfl⟩ := gather_cons_inv h
    rw [flatMap_cons, hb, payload_eq hbs]
    rfl

/-- **The loop copies the buffers one after another.** The invariant: what lies before `offset` is
done, and what is to come has room after it. -/
theorem copy_eq : ∀ {ds : List Desc} {src : Bytes} (offset : Nat) (bytes : Bytes),
    VirtioBlk.gather mem ds = some src → offset + src.length ≤ bytes.length →
    copy mem offset bytes ds = some (copyInto bytes offset src)
  | [], src, offset, bytes, hsrc, _ => by
    cases hsrc
    unfold copy copyInto
    rw [append_nil, length_nil, Nat.add_zero, take_append_drop]
  | d :: ds, src, offset, bytes, hsrc, hfit => by
    obtain ⟨b, bs, hb, hbs, rfl⟩ := gather_cons_inv hsrc
    have hlen := GuestRam.length_readSlice hb
    rw [length_append] at hfit
    have hin : ¬ bytes.length < offset + d.len := by omega
    unfold copy
    rw [if_neg hin, hb]
    dsimp only
    rw [copy_eq _ _ hbs (by rw [length_copyInto (by omega)]; omega), ← hlen,
      copyInto_append (by omega)]

theorem copyInto_all {bytes src : Bytes} (h : src.length = bytes.length) :
    copyInto bytes 0 src = src := by
  unfold copyInto
  rw [take_zero, nil_append, Nat.zero_add, h, drop_length, append_nil]

end

/-! ## The call -/

section

variable {chain : DescChain} {mem : GuestRam}

theorem read_eq_some_iff {maxLen : Nat} {bytes : Bytes} :
    chain.read mem maxLen = some bytes ↔
      VirtioBlk.total chain.readable ≤ maxLen ∧
        VirtioBlk.gather mem chain.readable = some bytes := by
  have hlen := fun n => @readLen_eq_some_iff mem maxLen n chain.readable 0 (Nat.zero_le _)
  unfold read
  rw [Option.map_eq_some_iff]
  constructor
  · rintro ⟨n, hn, hbytes⟩
    obtain ⟨hsum, hmax, hin⟩ := (hlen n).mp hn
    obtain ⟨src, hsrc⟩ := exists_gather_iff.mpr hin
    rw [payload_eq hsrc] at hbytes
    exact ⟨by omega, hbytes ▸ hsrc⟩
  · rintro ⟨hmax, hsrc⟩
    refine ⟨_, (hlen _).mpr ⟨rfl, by omega, exists_gather_iff.mp ⟨bytes, hsrc⟩⟩, payload_eq hsrc⟩

/-- **The loops compute what the devices use.** One buffer is made for a chain that is read, and none
for any other. -/
theorem readTraced_eq (chain : DescChain) (mem : GuestRam) (maxLen : UInt64) :
    chain.readTraced mem maxLen =
      (.returned (chain.read mem maxLen.toNat),
        ((chain.read mem maxLen.toNat).map List.length).toList) := by
  unfold readTraced
  rw [validate_eq maxLen.toNat_lt]
  cases hlen : readLen mem maxLen.toNat 0 chain.readable with
  | none =>
    unfold read
    rw [hlen]
    rfl
  | some n =>
    obtain ⟨hsum, hmax, hin⟩ := (readLen_eq_some_iff (Nat.zero_le _)).mp hlen
    obtain ⟨src, hsrc⟩ := exists_gather_iff.mpr hin
    have hread : chain.read mem maxLen.toNat = some src :=
      read_eq_some_iff.mpr ⟨by omega, hsrc⟩
    have hn : src.length = n := by
      rw [length_gather hsrc]
      omega
    have hcopy := copy_eq 0 (replicate n 0) hsrc (by rw [length_replicate]; omega)
    rw [copyInto_all (by rw [length_replicate, hn])] at hcopy
    rw [hread]
    dsimp only
    rw [hcopy, Option.map_some, hn]
    rfl

/-- **A chain is read if and only if its readable descriptors are in RAM and not too long together.**
What is returned is their contents one after another, and no buffer is larger than the limit. -/
theorem read_exact (chain : DescChain) (mem : GuestRam) (maxLen : UInt64) :
    ((∃ bytes, (chain.readTraced mem maxLen).1 = .returned (some bytes)) ↔
        (chain.readable.map Desc.len).sum ≤ maxLen.toNat ∧
          ∀ d ∈ chain.readable, mem.contains d.addr d.len = true) ∧
      (∀ bytes, (chain.readTraced mem maxLen).1 = .returned (some bytes) →
        VirtioBlk.gather mem chain.readable = some bytes) ∧
      ((∀ bytes, (chain.readTraced mem maxLen).1 ≠ .returned (some bytes)) →
        (chain.readTraced mem maxLen).1 = .returned none) ∧
      ∀ n ∈ (chain.readTraced mem maxLen).2, n ≤ maxLen.toNat := by
  have hsome : ∀ bytes, (chain.readTraced mem maxLen).1 = .returned (some bytes) ↔
      chain.read mem maxLen.toNat = some bytes := by
    intro bytes
    rw [readTraced_eq, Outcome.returned.injEq]
  refine ⟨?_, fun bytes h => (read_eq_some_iff.mp ((hsome bytes).mp h)).2, fun hnone => ?_,
    fun n hn => ?_⟩
  · rw [← exists_gather_iff]
    constructor
    · rintro ⟨bytes, h⟩
      obtain ⟨hmax, hsrc⟩ := read_eq_some_iff.mp ((hsome bytes).mp h)
      exact ⟨hmax, bytes, hsrc⟩
    · rintro ⟨hmax, bytes, hsrc⟩
      exact ⟨bytes, (hsome bytes).mpr (read_eq_some_iff.mpr ⟨hmax, hsrc⟩)⟩
  · rw [readTraced_eq]
    cases hread : chain.read mem maxLen.toNat with
    | none => rfl
    | some bytes => exact absurd ((hsome bytes).mpr hread) (hnone bytes)
  · rw [readTraced_eq] at hn
    cases hread : chain.read mem maxLen.toNat with
    | none =>
      rw [hread] at hn
      cases hn
    | some bytes =>
      rw [hread] at hn
      obtain ⟨hmax, hsrc⟩ := read_eq_some_iff.mp hread
      rw [mem_singleton.mp hn, length_gather hsrc]
      exact hmax

end

end Ignition.Devices.DescChain
