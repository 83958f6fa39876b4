import Ignition.Hvf.Run

/-!
# What an exit leaves to be done

An exit is *lazy* when the instruction it is for is finished at the next entry: loads and
stores of devices, system register accesses, waits and SMC calls. The others leave nothing
pending: the guest goes on where it was stopped, or runs the store again.
-/

namespace Ignition.Hvf

open List

namespace Vcpu

def serviced (v : Vcpu) (exit : VcpuExit) (answer : List Nat) : Vcpu :=
  match exit with
  | .mmioRead _ len =>
    { v with mmioBuf := answer.take len ++ v.mmioBuf.drop (answer.take len).length }
  | _ => v

def tracks (v : Vcpu) (syndrome pa : Nat) : Bool :=
  v.dirtyTracking && syndrome / 2 ^ 6 % 2 == 1 && v.ramBase ≤ pa && pa < v.ramBase + v.ramSize

def lazy (v : Vcpu) : HvExit → Bool
  | .exception syndrome pa =>
    let ec := syndrome / 2 ^ 26 % 64
    ec == 0x24 && !v.tracks syndrome pa || ec == 0x18 || ec == 0x01 || ec == 0x17
  | _ => false

def Tidy (v : Vcpu) : Prop := v.pendingAdvancePc = false → v.pendingMmioRead = none

section

variable {v v' : Vcpu} {guest : Regs → Regs} {reason : HvExit} {now : Nat} {e : VcpuExit}

theorem tracks_eq_true {syndrome pa : Nat} : v.tracks syndrome pa = true ↔
    v.dirtyTracking ∧ syndrome / 2 ^ 6 % 2 = 1 ∧ v.ramBase ≤ pa ∧ pa < v.ramBase + v.ramSize := by
  simp [tracks, and_assoc]

theorem dataAbort_pending {syndrome pa : Nat} (hnone : v.pendingMmioRead = none)
    (hoff : v.pendingAdvancePc = false) (h : v.dataAbort syndrome pa = (v', e)) :
    v'.pendingAdvancePc = !v.tracks syndrome pa ∧ v'.Tidy := by
  by_cases ht : v.tracks syndrome pa = true
  · unfold dataAbort at h
    rw [if_pos (tracks_eq_true.mp ht)] at h
    obtain ⟨rfl, -⟩ := Prod.mk.inj h
    rw [ht]
    exact ⟨hoff, fun _ => hnone⟩
  · unfold dataAbort at h
    rw [if_neg fun hh => ht (tracks_eq_true.mpr hh)] at h
    rw [eq_false_of_ne_true ht]
    split at h <;> obtain ⟨rfl, -⟩ := Prod.mk.inj h <;> exact ⟨rfl, fun hh => nomatch hh⟩

theorem exception_pending {syndrome pa : Nat} (hnone : v.pendingMmioRead = none)
    (hoff : v.pendingAdvancePc = false) (h : v.exception syndrome pa now = some (v', e)) :
    v'.pendingAdvancePc = v.lazy (.exception syndrome pa) ∧ v'.Tidy := by
  unfold exception at h
  unfold lazy
  dsimp only at h ⊢
  -- what matters of the syndrome is its exception class
  generalize syndrome / 2 ^ 26 % 64 = ec at h ⊢
  split at h
  next hec =>
    obtain ⟨rfl, -⟩ := Prod.mk.inj (Option.some.inj h)
    simp [hec, hoff, Tidy, hnone]
  next =>
  split at h
  next hec =>
    obtain ⟨hpend, htidy⟩ := dataAbort_pending hnone hoff (Option.some.inj h)
    simp [hec, hpend, htidy]
  next h24 =>
  split at h
  next hec =>
    unfold systemRegister at h
    dsimp only at h
    split at h <;> obtain ⟨rfl, -⟩ := Prod.mk.inj (Option.some.inj h) <;>
      simp [hec, Tidy]
  next h18 =>
  split at h
  next hec =>
    unfold waitForEvent at h
    dsimp only at h
    split at h
    · obtain ⟨rfl, -⟩ := Prod.mk.inj (Option.some.inj h)
      simp [hec, Tidy]
    · split at h <;> obtain ⟨rfl, -⟩ := Prod.mk.inj (Option.some.inj h) <;> simp [hec, Tidy]
  next h01 =>
  split at h
  next hec =>
    obtain ⟨rfl, -⟩ := Prod.mk.inj (Option.some.inj h)
    simp [hec, hoff, Tidy, hnone]
  next =>
  split at h
  next hec =>
    obtain ⟨rfl, -⟩ := Prod.mk.inj (Option.some.inj h)
    simp [hec, Tidy]
  · cases h

/-- **After an exit the program counter is to move on exactly if the exit is lazy**, and only then
can there be an answer to deliver. -/
theorem run_pending (h : v.run guest reason now = some (v', e)) :
    v'.pendingAdvancePc = v.lazy reason ∧ v'.Tidy := by
  cases reason with
  | canceled | vtimerActivated =>
    obtain ⟨rfl, -⟩ := Prod.mk.inj (Option.some.inj h)
    exact ⟨rfl, fun _ => rfl⟩
  | exception syndrome pa =>
    -- unmasking the timer changes neither what is pending nor the window
    have hsync : ∀ w : Vcpu, w.syncVtimer.pendingMmioRead = w.pendingMmioRead ∧
        w.syncVtimer.pendingAdvancePc = w.pendingAdvancePc ∧
        w.syncVtimer.lazy (.exception syndrome pa) = w.lazy (.exception syndrome pa) := by
      intro w
      unfold syncVtimer
      split <;> exact ⟨rfl, rfl, rfl⟩
    obtain ⟨hread, hadv, hlazy⟩ := hsync { v.enter with regs := guest v.enter.regs }
    obtain ⟨hpend, htidy⟩ := exception_pending (hread.trans rfl) (hadv.trans rfl) h
    exact ⟨hpend.trans hlazy, htidy⟩
  | unexpected => cases h

def Leaves (v : Vcpu) : VcpuExit → Prop
  | .mmioRead _ len => v.pendingAdvancePc = true ∧ ∃ srt, v.pendingMmioRead = some ⟨len, srt⟩
  | .mmioWrite _ _ => v.pendingAdvancePc = true ∧ v.pendingMmioRead = none
  | _ => v.pendingMmioRead = none

theorem leaves_handlePsciRequest (regs : Regs) (h : v.pendingMmioRead = none) :
    v.Leaves regs.handlePsciRequest.2 := by
  unfold Regs.handlePsciRequest
  split_ifs <;> exact h

theorem exception_leaves {syndrome pa : Nat} (hnone : v.pendingMmioRead = none)
    (h : v.exception syndrome pa now = some (v', e)) : v'.Leaves e := by
  unfold exception at h
  dsimp only at h
  split_ifs at h
  · obtain ⟨rfl, rfl⟩ := Prod.mk.inj (Option.some.inj h)
    exact hnone
  · unfold dataAbort at h
    dsimp only at h
    split at h
    · obtain ⟨rfl, rfl⟩ := Prod.mk.inj (Option.some.inj h)
      exact hnone
    · split at h <;> obtain ⟨rfl, rfl⟩ := Prod.mk.inj (Option.some.inj h)
      · exact ⟨rfl, hnone⟩
      · exact ⟨rfl, _, rfl⟩
  · unfold systemRegister at h
    dsimp only at h
    split_ifs at h <;> obtain ⟨rfl, rfl⟩ := Prod.mk.inj (Option.some.inj h) <;> exact hnone
  · unfold waitForEvent at h
    dsimp only at h
    split_ifs at h <;> obtain ⟨rfl, rfl⟩ := Prod.mk.inj (Option.some.inj h) <;> exact hnone
  · obtain ⟨rfl, rfl⟩ := Prod.mk.inj (Option.some.inj h)
    exact leaves_handlePsciRequest _ hnone
  · obtain ⟨rfl, rfl⟩ := Prod.mk.inj (Option.some.inj h)
    exact leaves_handlePsciRequest _ hnone

/-- **What is pending after an exit belongs to that exit.** -/
theorem run_leaves (h : v.run guest reason now = some (v', e)) : v'.Leaves e := by
  cases reason with
  | canceled | vtimerActivated =>
    obtain ⟨rfl, rfl⟩ := Prod.mk.inj (Option.some.inj h)
    exact rfl
  | exception syndrome pa =>
    refine exception_leaves ?_ h
    unfold syncVtimer
    split <;> rfl
  | unexpected => cases h

theorem Tidy.enter_regs (h : v.Tidy) (hoff : v.pendingAdvancePc = false) :
    v.enter.regs = v.regs := by
  simp [enter, completeLoad, loaded, h hoff, hoff]

theorem pc_ne (pc : Nat) : (pc + 4) % 2 ^ 64 ≠ pc := by
  omega

theorem completeLoad_pc (v : Vcpu) : v.completeLoad.reg HV_REG_PC = v.regs.reg HV_REG_PC := by
  unfold completeLoad loaded
  split
  next srt val hload =>
    split at hload
    next read _ =>
      split at hload
      next hlt =>
        obtain ⟨rfl, -⟩ := Prod.mk.inj (Option.some.inj hload)
        refine Regs.write_reg_of_ne fun x hx => ?_
        have heq : read.srt = 31 := (Write.reg.inj hx).1
        omega
      · cases hload
    · cases hload
  · rfl

theorem enter_pc (h : v.pendingAdvancePc = true) :
    v.enter.regs.reg HV_REG_PC = (v.regs.reg HV_REG_PC + 4) % 2 ^ 64 := by
  unfold enter
  dsimp only
  rw [if_pos h, completeLoad_pc]
  exact Regs.write_reg_self _ _ _

theorem enter_reg {len srt : Nat} (hread : v.pendingMmioRead = some ⟨len, srt⟩) (hsrt : srt < 31) :
    v.enter.regs.reg srt = decodeMmioLe v.mmioBuf len := by
  have hload : v.completeLoad.reg srt = decodeMmioLe v.mmioBuf len := by
    simp only [completeLoad, loaded, hread, if_pos hsrt]
    exact Regs.write_reg_self _ _ _
  unfold enter
  split
  · rw [Regs.write_reg_of_ne fun x hx => ?_]
    · exact hload
    · have heq : (31 : Nat) = srt := (Write.reg.inj hx).1
      omega
  · exact hload

/-! ## Loads -/

theorem enter_reg_of_ne {r len srt : Nat} (hread : v.pendingMmioRead = some ⟨len, srt⟩)
    (hr : r < 31) (hne : srt < 31 → r ≠ srt) : v.enter.regs.reg r = v.regs.reg r := by
  have hload : v.completeLoad.reg r = v.regs.reg r := by
    unfold completeLoad loaded
    rw [hread]
    split
    next srt' val hload =>
      dsimp only at hload
      split at hload
      next hlt =>
        obtain ⟨rfl, -⟩ := Prod.mk.inj (Option.some.inj hload)
        exact Regs.write_reg_of_ne fun x hx => hne hlt (Write.reg.inj hx).1.symm
      · cases hload
    · rfl
  unfold enter
  split
  · rw [Regs.write_reg_of_ne fun x hx => ?_]
    · exact hload
    · have heq : (31 : Nat) = r := (Write.reg.inj hx).1
      omega
  · exact hload

/-- What a load of `len` bytes leaves in its register: the value is extended to the width of the
register, with its sign if the syndrome has `SSE`. `SF` says that the register is 64 bits wide. -/
def extended (syndrome len val : Nat) : Nat :=
  let width := max (8 * len) (if syndrome / 2 ^ 15 % 2 = 1 then 64 else 32)
  let x := BitVec.ofNat (8 * len) val
  if syndrome / 2 ^ 21 % 2 = 1 then (x.signExtend width).toNat else (x.setWidth width).toNat

def Unsigned (syndrome len val : Nat) : Prop :=
  syndrome / 2 ^ 21 % 2 = 1 → 8 * len < (if syndrome / 2 ^ 15 % 2 = 1 then 64 else 32) →
    val < 2 ^ (8 * len - 1)

theorem extended_eq_iff {syndrome len val : Nat} (hval : val < 2 ^ (8 * len)) :
    extended syndrome len val = val ↔ Unsigned syndrome len val := by
  unfold extended Unsigned
  generalize (if syndrome / 2 ^ 15 % 2 = 1 then 64 else 32) = width
  have hpow : 2 ^ (8 * len) ≤ 2 ^ max (8 * len) width :=
    Nat.pow_le_pow_right (by decide) (Nat.le_max_left ..)
  have hzero : ((BitVec.ofNat (8 * len) val).setWidth (max (8 * len) width)).toNat = val := by
    rw [BitVec.toNat_setWidth, BitVec.toNat_ofNat, Nat.mod_eq_of_lt hval]
    exact Nat.mod_eq_of_lt (Nat.lt_of_lt_of_le hval hpow)
  dsimp only
  split
  next hsse =>
    rw [BitVec.toNat_signExtend, hzero, BitVec.msb_eq_decide, BitVec.toNat_ofNat,
      Nat.mod_eq_of_lt hval]
    by_cases hneg : 2 ^ (8 * len - 1) ≤ val
    · -- the sign is copied into the bits above, if there are any
      rw [decide_eq_true hneg, if_pos rfl]
      refine ⟨fun h _ hlt => ?_, fun h => ?_⟩
      · have hmore : 2 ^ (8 * len) < 2 ^ max (8 * len) width :=
          Nat.pow_lt_pow_right (by decide) (Nat.lt_of_lt_of_le hlt (Nat.le_max_right ..))
        omega
      · have hle : width ≤ 8 * len := Nat.not_lt.mp fun hlt => absurd (h hsse hlt) (by omega)
        rw [Nat.max_eq_left hle, Nat.sub_self, Nat.add_zero]
    · rw [decide_eq_false hneg]
      exact ⟨fun _ _ _ => Nat.not_le.mp hneg, fun _ => rfl⟩
  next hsse => exact ⟨fun _ h => absurd h hsse, fun _ => hzero⟩

theorem decodeMmioLe_lt {buf : List Nat} (h : ∀ b ∈ buf, b < 256) :
    ∀ len, decodeMmioLe buf len < 2 ^ (8 * len) := by
  induction buf with
  | nil =>
    intro len
    rw [decodeMmioLe, take_nil]
    exact Nat.two_pow_pos _
  | cons b buf ih =>
    intro len
    cases len with
    | zero => exact Nat.one_pos
    | succ len =>
      have hrest := ih (fun b hb => h b (mem_cons_of_mem _ hb)) len
      have hb := h b mem_cons_self
      show b + 256 * decodeMmioLe buf len < _
      rw [Nat.mul_succ, Nat.pow_add]
      omega

theorem decodeMmioLe_serviced {pa len : Nat} {answer : List Nat} (h : len ≤ answer.length) :
    decodeMmioLe (v.serviced (.mmioRead pa len) answer).mmioBuf len = decodeMmioLe answer len := by
  have hlen : (answer.take len).length = len := length_take_of_le h
  unfold decodeMmioLe serviced
  dsimp only
  rw [take_append_of_le_length (Nat.le_of_eq hlen.symm),
    take_of_length_le (Nat.le_of_eq hlen)]

theorem run_load {syndrome pa : Nat} (hec : syndrome / 2 ^ 26 % 64 = 0x24)
    (hload : syndrome / 2 ^ 6 % 2 = 0)
    (h : v.run guest (.exception syndrome pa) now = some (v', e)) :
    e = .mmioRead pa (2 ^ (syndrome / 2 ^ 22 % 4)) ∧ v'.pendingAdvancePc = true ∧
      v'.pendingMmioRead = some ⟨2 ^ (syndrome / 2 ^ 22 % 4), syndrome / 2 ^ 16 % 32⟩ := by
  have hread : ¬ syndrome / 2 ^ 6 % 2 = 1 := by omega
  unfold run exit exception dataAbort at h
  dsimp only at h
  rw [if_neg (by omega), if_pos hec, if_neg fun hh => hread hh.2.1, if_neg hread] at h
  obtain ⟨rfl, rfl⟩ := Prod.mk.inj (Option.some.inj h)
  exact ⟨rfl, rfl, rfl⟩

/-- **A load leaves the extended value in its register exactly if the sign does not matter**, or
there is no register; the other registers stay, and the program counter moves on by one
instruction. -/
theorem load_extended_iff {syndrome pa : Nat} {answer : List Nat}
    (hec : syndrome / 2 ^ 26 % 64 = 0x24) (hload : syndrome / 2 ^ 6 % 2 = 0)
    (hbytes : ∀ b ∈ answer, b < 256) (hlen : 2 ^ (syndrome / 2 ^ 22 % 4) ≤ answer.length)
    (h : v.run guest (.exception syndrome pa) now = some (v', e)) :
    let len := 2 ^ (syndrome / 2 ^ 22 % 4)
    let val := decodeMmioLe answer len
    let after := (v'.serviced e answer).enter
    ((∀ r < 31, after.regs.reg r =
        if r = syndrome / 2 ^ 16 % 32 then extended syndrome len val else v'.regs.reg r) ↔
      syndrome / 2 ^ 16 % 32 = 31 ∨ Unsigned syndrome len val) ∧
    after.regs.reg HV_REG_PC = (v'.regs.reg HV_REG_PC + 4) % 2 ^ 64 := by
  obtain ⟨rfl, hadv, hread⟩ := run_load hec hload h
  dsimp only
  have hext := @extended_eq_iff syndrome _ _
    (decodeMmioLe_lt hbytes (2 ^ (syndrome / 2 ^ 22 % 4)))
  generalize 2 ^ (syndrome / 2 ^ 22 % 4) = len at *
  have hsrt : syndrome / 2 ^ 16 % 32 < 31 ∨ syndrome / 2 ^ 16 % 32 = 31 := by omega
  generalize syndrome / 2 ^ 16 % 32 = srt at *
  have hpend : (v'.serviced (.mmioRead pa len) answer).pendingMmioRead = some ⟨len, srt⟩ := hread
  refine ⟨?_, enter_pc hadv⟩
  rw [← hext]
  rcases hsrt with hsrt | rfl
  · have hval := enter_reg hpend hsrt
    rw [decodeMmioLe_serviced hlen] at hval
    refine ⟨fun hall => .inr ?_, fun hext r hr => ?_⟩
    · have hr := hall srt hsrt
      rw [if_pos rfl, hval] at hr
      exact hr.symm
    · split
      next heq =>
        rw [heq, hval]
        exact (hext.resolve_left (Nat.ne_of_lt hsrt)).symm
      next hne => exact enter_reg_of_ne hpend hr fun _ => hne
  · refine ⟨fun _ => .inl rfl, fun _ r hr => ?_⟩
    rw [if_neg (Nat.ne_of_lt hr)]
    exact enter_reg_of_ne hpend hr fun hlt => absurd hlt (Nat.lt_irrefl _)

end

end Vcpu

def loadTrap : HvExit := .exception (0x24 * 2 ^ 26 + 2 ^ 24 + 2 * 2 ^ 22 + 2 ^ 16) 0x9000000

def signedLoad : Nat := 0x24 * 2 ^ 26 + 2 ^ 24 + 2 ^ 21 + 2 ^ 16 + 2 ^ 15

namespace Vcpu

theorem load_extended_small : ∃ v : Vcpu, ∃ e,
    (new 0 0).run id (.exception signedLoad 0x9000000) 0 = some (v, e) ∧
    (v.serviced e [0x7f]).enter.regs.reg 1 = 0x7f ∧
    (v.serviced e [0x7f]).enter.regs.reg HV_REG_PC = 4 := by
  have hrun : ∃ v e, (new 0 0).run id (.exception signedLoad 0x9000000) 0 = some (v, e) ∧
      v.regs.reg HV_REG_PC = 0 := ⟨_, _, rfl, rfl⟩
  obtain ⟨v, e, hrun, hstart⟩ := hrun
  have hbytes : ∀ b ∈ [0x7f], b < 256 := by decide
  obtain ⟨hregs, hpc⟩ := load_extended_iff (by decide) (by decide) hbytes (by decide) hrun
  rw [hstart] at hpc
  exact ⟨v, e, hrun, hregs.mpr (.inr fun _ _ => by decide) 1 (by decide), hpc⟩

theorem signed_load_zero_extended : ∃ v : Vcpu, ∃ e,
    (new 0 0).run id (.exception signedLoad 0x9000000) 0 = some (v, e) ∧
    (v.serviced e [0x80]).enter.regs.reg 1 = 0x80 ∧ extended signedLoad 1 0x80 = 2 ^ 64 - 128 :=
  ⟨_, _, rfl, rfl, by decide⟩

end Vcpu

end Ignition.Hvf
