import Mathlib.Algebra.Group.Nat.Defs

/-!
# vCPU register state

The part of `crates/hvf/src/lib.rs` that moves a vCPU's registers in and out: the record
`save_state` fills and `restore_state` reads, the register tables both go by, and the
counter arithmetic of a restore.

All words are host integers. Their widths matter only for the guest's virtual counter,
where the hardware subtraction wraps (`cntvct`).
-/

namespace Ignition.Hvf

open List Function

structure VcpuState where
  gp : List Nat
  sysregs : List (Nat × Nat)
  vtimerMask : Bool
  vtimerOffset : Nat
  simd : List Nat
  fpcr : Nat
  fpsr : Nat
  icc : List (Nat × Nat)
  hostCounter : Nat
  deriving DecidableEq

/-! ## The saved registers -/

def HV_REG_PC : Nat := 31

def HV_REG_FPCR : Nat := 32

def HV_REG_FPSR : Nat := 33

def HV_REG_CPSR : Nat := 34

def HV_SYS_REG_MPIDR_EL1 : Nat := 49157

/-- `SAVED_GP`: X0 to X30, PC, CPSR. -/
def SAVED_GP : List Nat := List.range 31 ++ [HV_REG_PC, HV_REG_CPSR]

/-- `SAVED_SYSREGS`, by the hypervisor's register numbers. -/
def SAVED_SYSREGS : List Nat :=
  [ -- SCTLR, TTBR0, TTBR1, TCR, MAIR, AMAIR, VBAR
    49280, 49408, 49409, 49410, 50448, 50456, 50688,
    -- SP_EL0, SP_EL1, ELR, SPSR, ESR, FAR, CONTEXTIDR
    49672, 57864, 49665, 49664, 49808, 49920, 50817,
    -- TPIDR_EL0, TPIDR_EL1, TPIDRRO_EL0, CPACR, CSSELR, AFSR0, AFSR1, PAR, MDSCR
    56962, 50820, 56963, 49282, 53248, 49800, 49801, 50080, 32786,
    -- CNTV_CTL, CNTV_CVAL, CNTKCTL, CNTP_CTL, CNTP_CVAL
    57113, 57114, 50952, 57105, 57106,
    -- the pointer-authentication keys
    49416, 49417, 49418, 49419, 49424, 49425, 49426, 49427, 49432, 49433]

/-- `SAVED_ICC`: SRE, CTLR, PMR, BPR0, BPR1, IGRPEN0, IGRPEN1, AP0R0, AP1R0. -/
def SAVED_ICC : List Nat := [50789, 50788, 49712, 50755, 50787, 50790, 50791, 50756, 50760]

/-- The registers of one vCPU as the hypervisor holds them. -/
structure Regs where
  reg : Nat → Nat
  sysReg : Nat → Nat
  simd : Nat → Nat
  icc : Nat → Nat
  vtimerMask : Bool
  vtimerOffset : Nat

/-- One call that sets a register. -/
inductive Write where
  | reg (r v : Nat)
  | sysReg (r v : Nat)
  | simd (q v : Nat)
  | icc (r v : Nat)
  | vtimerMask (b : Bool)
  | vtimerOffset (v : Nat)
  deriving DecidableEq

def Write.setsOffset : Write → Bool
  | .vtimerOffset _ => true
  | _ => false

namespace Regs

/-- A vCPU as `HvfVcpu::new` leaves it: counter offset zero, its own MPIDR. -/
def new (mpidr : Nat) : Regs where
  reg := fun _ => 0
  sysReg := fun r => if r = HV_SYS_REG_MPIDR_EL1 then mpidr else 0
  simd := fun _ => 0
  icc := fun _ => 0
  vtimerMask := false
  vtimerOffset := 0

def write (regs : Regs) : Write → Regs
  | .reg r v => { regs with reg := fun x => if x = r then v else regs.reg x }
  | .sysReg r v => { regs with sysReg := fun x => if x = r then v else regs.sysReg x }
  | .simd q v => { regs with simd := fun x => if x = q then v else regs.simd x }
  | .icc r v => { regs with icc := fun x => if x = r then v else regs.icc x }
  | .vtimerMask b => { regs with vtimerMask := b }
  | .vtimerOffset v => { regs with vtimerOffset := v }

theorem write_vtimerOffset {regs : Regs} {w : Write} (h : w.setsOffset = false) :
    (regs.write w).vtimerOffset = regs.vtimerOffset := by
  cases w with
  | vtimerOffset v => cases h
  | _ => rfl

theorem foldl_write_vtimerOffset {ws : List Write} (h : ∀ w ∈ ws, w.setsOffset = false)
    (regs : Regs) : (ws.foldl write regs).vtimerOffset = regs.vtimerOffset := by
  induction ws generalizing regs with
  | nil => rfl
  | cons w ws ih =>
    rw [foldl_cons, ih (fun x hx => h x (mem_cons_of_mem w hx)),
      write_vtimerOffset (h w mem_cons_self)]

/-- `save_state`, when every register can be read. -/
def saveState (regs : Regs) (machNow : Nat) : VcpuState where
  gp := SAVED_GP.map regs.reg
  sysregs := SAVED_SYSREGS.map fun r => (r, regs.sysReg r)
  vtimerMask := regs.vtimerMask
  vtimerOffset := regs.vtimerOffset
  simd := (List.range 32).map regs.simd
  fpcr := regs.reg HV_REG_FPCR
  fpsr := regs.reg HV_REG_FPSR
  icc := SAVED_ICC.map fun r => (r, regs.icc r)
  hostCounter := machNow

end Regs

/-- The calls of `restore_state` before it sets the counter offset. -/
def registerWrites (s : VcpuState) : List Write :=
  (SAVED_GP.zip s.gp).map (fun p => .reg p.1 p.2) ++
    s.sysregs.map fun p => .sysReg (p.1 % 2 ^ 16) p.2

/-- The calls of `restore_state` after it has set the counter offset. -/
def interfaceWrites (s : VcpuState) : List Write :=
  [.vtimerMask s.vtimerMask, .reg HV_REG_FPCR s.fpcr, .reg HV_REG_FPSR s.fpsr] ++
    s.simd.zipIdx.map (fun p => .simd p.2 p.1) ++ s.icc.map fun p => .icc p.1 p.2

/-- The calls of `restore_state`, in order. -/
def restoreWrites (s : VcpuState) (vtimerOffset : Nat) : List Write :=
  registerWrites s ++ .vtimerOffset vtimerOffset :: interfaceWrites s

variable {w : Write} {regs saved : Regs} {r now off : Nat}

theorem registerWrites_setsOffset {s : VcpuState} (h : w ∈ registerWrites s) :
    w.setsOffset = false := by
  rcases mem_append.mp h with h | h
  · obtain ⟨p, -, rfl⟩ := mem_map.mp h
    rfl
  · obtain ⟨p, -, rfl⟩ := mem_map.mp h
    rfl

theorem interfaceWrites_setsOffset {s : VcpuState} (h : w ∈ interfaceWrites s) :
    w.setsOffset = false := by
  rcases mem_append.mp h with h | h
  · rcases mem_append.mp h with h | h
    · simp only [mem_cons, not_mem_nil, or_false] at h
      rcases h with rfl | rfl | rfl <;> rfl
    · obtain ⟨p, -, rfl⟩ := mem_map.mp h
      rfl
  · obtain ⟨p, -, rfl⟩ := mem_map.mp h
    rfl

/-- `restore_state`, of which the first `calls` register calls go through and the next one
fails. The second component says whether it returned `Ok`. -/
def Regs.restoreState (regs : Regs) (s : VcpuState) (vtimerOffset calls : Nat) : Regs × Bool :=
  (((restoreWrites s vtimerOffset).take calls).foldl Regs.write regs,
    decide ((restoreWrites s vtimerOffset).length ≤ calls))

/-- **The counter offset after `restore_state`.** It is the given one as soon as the calls
get that far, whatever fails later. -/
theorem Regs.restoreState_vtimerOffset (regs : Regs) (s : VcpuState) (off calls : Nat) :
    (regs.restoreState s off calls).1.vtimerOffset =
      if (registerWrites s).length < calls then off else regs.vtimerOffset := by
  show ((List.take calls (registerWrites s ++ .vtimerOffset off :: interfaceWrites s)).foldl
    Regs.write regs).vtimerOffset = _
  split
  next h =>
    -- the calls before the offset, the offset, and some of the rest
    obtain ⟨k, hk⟩ : ∃ k, calls = (registerWrites s).length + (k + 1) :=
      ⟨calls - (registerWrites s).length - 1, by omega⟩
    rw [hk, take_length_add_append, take_succ_cons, foldl_append,
      foldl_cons]
    exact foldl_write_vtimerOffset
      (fun w hw => interfaceWrites_setsOffset (mem_of_mem_take hw)) _
  next h =>
    rw [take_append_of_le_length (Nat.le_of_not_lt h)]
    exact foldl_write_vtimerOffset
      (fun w hw => registerWrites_setsOffset (mem_of_mem_take hw)) _

/-! ## The saved registers come back -/

/-- As far as register `r` goes, the calls only set it to `v`. -/
def Sets (ws : List Write) (r v : Nat) : Prop := ∀ x, .reg r x ∈ ws → x = v

theorem Regs.write_reg_self (regs : Regs) (r v : Nat) : (regs.write (.reg r v)).reg r = v :=
  if_pos rfl

theorem Regs.write_reg_of_ne (h : ∀ x, w ≠ .reg r x) :
    (regs.write w).reg r = regs.reg r := by
  cases w with
  | reg r' x =>
    have hne : r ≠ r' := by
      rintro rfl
      exact h x rfl
    exact if_neg hne
  | _ => rfl

theorem Regs.foldl_write_reg {ws : List Write} {v : Nat} (hset : Sets ws r v)
    (hreg : regs.reg r = v ∨ .reg r v ∈ ws) : (ws.foldl Regs.write regs).reg r = v := by
  induction ws generalizing regs with
  | nil => exact hreg.resolve_right not_mem_nil
  | cons w ws ih =>
    refine ih (fun x hx => hset x (mem_cons_of_mem w hx)) ?_
    by_cases hw : ∃ x, w = .reg r x
    · obtain ⟨x, rfl⟩ := hw
      obtain rfl := hset x mem_cons_self
      exact .inl (if_pos rfl)
    · rw [write_reg_of_ne fun x hx => hw ⟨x, hx⟩]
      refine hreg.imp_right fun hmem => (mem_cons.mp hmem).resolve_left fun heq => ?_
      exact hw ⟨v, heq.symm⟩

theorem sets_restoreWrites (regs : Regs) (now off : Nat) (hr : r ∈ SAVED_GP) :
    Sets (restoreWrites (regs.saveState now) off) r (regs.reg r) := by
  intro x hx
  simp only [restoreWrites, registerWrites, interfaceWrites, Regs.saveState,
    ← map_prod_left_eq_zip, map_map, mem_append, mem_cons, mem_map,
    comp_apply, Write.reg.injEq, reduceCtorEq, and_false, exists_false, or_false,
    false_or, not_mem_nil] at hx
  -- FPCR and FPSR are set too, but they are not among the saved ones
  rcases hx with ⟨r', -, rfl, rfl⟩ | ⟨rfl, -⟩ | ⟨rfl, -⟩
  · rfl
  · exact absurd hr (by decide)
  · exact absurd hr (by decide)

/-- **A vCPU comes back with the general registers it was saved with.** -/
theorem Regs.restoreState_reg {calls : Nat}
    (hok : (regs.restoreState (saved.saveState now) off calls).2 = true) (hr : r ∈ SAVED_GP) :
    (regs.restoreState (saved.saveState now) off calls).1.reg r = saved.reg r := by
  have hall : (restoreWrites (saved.saveState now) off).take calls =
      restoreWrites (saved.saveState now) off :=
    take_of_length_le (of_decide_eq_true hok)
  unfold restoreState
  rw [hall]
  refine foldl_write_reg (sets_restoreWrites saved now off hr) (.inr ?_)
  simp only [restoreWrites, registerWrites, Regs.saveState, ← map_prod_left_eq_zip]
  refine mem_append_left _ (mem_append_left _ ?_)
  rw [map_map]
  exact mem_map.mpr ⟨r, hr, rfl⟩

def VcpuState.timeless (s : VcpuState) : VcpuState := { s with vtimerOffset := 0, hostCounter := 0 }

theorem Regs.foldl_write_get {α : Type} {get : Regs → α} {v : α} {ws : List Write}
    (hkeep : ∀ w ∈ ws, ∀ regs : Regs, get (regs.write w) = get regs ∨ get (regs.write w) = v)
    (h : get regs = v ∨ ∃ w ∈ ws, ∀ regs : Regs, get (regs.write w) = v) :
    get (ws.foldl Regs.write regs) = v := by
  induction ws generalizing regs with
  | nil => exact h.resolve_right fun ⟨w, hw, _⟩ => absurd hw not_mem_nil
  | cons w ws ih =>
    refine ih (fun x hx => hkeep x (mem_cons_of_mem w hx)) ?_
    rcases hkeep w mem_cons_self regs with hsame | hset
    · rcases h with h | ⟨x, hx, hv⟩
      · exact .inl (hsame.trans h)
      · rcases mem_cons.mp hx with rfl | hmem
        · exact .inl (hv regs)
        · exact .inr ⟨x, hmem, hv⟩
    · exact .inl hset

/-- The call sets a register to what `saved` has in it. The counter offset does not count. -/
def Write.Agrees (saved : Regs) : Write → Prop
  | .reg r v => v = saved.reg r
  | .sysReg r v => v = saved.sysReg r
  | .simd q v => v = saved.simd q
  | .icc r v => v = saved.icc r
  | .vtimerMask b => b = saved.vtimerMask
  | .vtimerOffset _ => True

theorem mem_restoreWrites :
    w ∈ restoreWrites (saved.saveState now) off ↔
      (∃ r ∈ SAVED_GP, w = .reg r (saved.reg r)) ∨
      (∃ r ∈ SAVED_SYSREGS, w = .sysReg r (saved.sysReg r)) ∨ w = .vtimerOffset off ∨
      w = .vtimerMask saved.vtimerMask ∨ w = .reg HV_REG_FPCR (saved.reg HV_REG_FPCR) ∨
      w = .reg HV_REG_FPSR (saved.reg HV_REG_FPSR) ∨
      (∃ q ∈ range 32, w = .simd q (saved.simd q)) ∨
      ∃ r ∈ SAVED_ICC, w = .icc r (saved.icc r) := by
  have hsys : ∀ r ∈ SAVED_SYSREGS, r % 2 ^ 16 = r := by decide
  have hsimd : ((range 32).map saved.simd).zipIdx.map (fun p => Write.simd p.2 p.1) =
      (range 32).map fun q => Write.simd q (saved.simd q) := rfl
  have hwrap : (∃ r ∈ SAVED_SYSREGS, Write.sysReg (r % 2 ^ 16) (saved.sysReg r) = w) ↔
      ∃ r ∈ SAVED_SYSREGS, w = .sysReg r (saved.sysReg r) :=
    exists_congr fun r => and_congr_right fun hr => by rw [hsys r hr]; exact eq_comm
  unfold restoreWrites registerWrites interfaceWrites Regs.saveState
  rw [hsimd]
  simp only [← map_prod_left_eq_zip, map_map, mem_append, mem_cons,
    mem_map, comp_apply, not_mem_nil, or_false, or_assoc]
  rw [hwrap]
  simp only [eq_comm (b := w)]

theorem agrees_of_mem_restoreWrites (h : w ∈ restoreWrites (saved.saveState now) off) :
    w.Agrees saved := by
  rcases mem_restoreWrites.mp h with ⟨_, -, rfl⟩ | ⟨_, -, rfl⟩ | rfl | rfl | rfl | rfl |
    ⟨_, -, rfl⟩ | ⟨_, -, rfl⟩
  case inr.inr.inl => exact trivial
  all_goals exact rfl

theorem Regs.restored {α : Type} (get : Regs → α)
    (hkeep : ∀ (w : Write) (regs : Regs), w.Agrees saved →
      get (regs.write w) = get regs ∨ get (regs.write w) = get saved) (hw : w ∈ restoreWrites (saved.saveState now) off)
    (hset : ∀ regs : Regs, get (regs.write w) = get saved) :
    get ((restoreWrites (saved.saveState now) off).foldl Regs.write regs) = get saved :=
  Regs.foldl_write_get
    (fun w hw regs => hkeep w regs (agrees_of_mem_restoreWrites hw)) (.inr ⟨w, hw, hset⟩)

theorem Write.Agrees.reg (h : w.Agrees saved) (regs : Regs) (r : Nat) :
    (regs.write w).reg r = regs.reg r ∨ (regs.write w).reg r = saved.reg r := by
  cases w with
  | reg r' v =>
    by_cases hr : r = r'
    · refine .inr ((if_pos hr).trans ?_)
      rw [hr]
      exact h
    · exact .inl (if_neg hr)
  | _ => exact .inl rfl

theorem Write.Agrees.sysReg (h : w.Agrees saved) (regs : Regs) (r : Nat) :
    (regs.write w).sysReg r = regs.sysReg r ∨ (regs.write w).sysReg r = saved.sysReg r := by
  cases w with
  | sysReg r' v =>
    by_cases hr : r = r'
    · refine .inr ((if_pos hr).trans ?_)
      rw [hr]
      exact h
    · exact .inl (if_neg hr)
  | _ => exact .inl rfl

theorem Write.Agrees.simd (h : w.Agrees saved) (regs : Regs) (q : Nat) :
    (regs.write w).simd q = regs.simd q ∨ (regs.write w).simd q = saved.simd q := by
  cases w with
  | simd q' v =>
    by_cases hq : q = q'
    · refine .inr ((if_pos hq).trans ?_)
      rw [hq]
      exact h
    · exact .inl (if_neg hq)
  | _ => exact .inl rfl

theorem Write.Agrees.icc (h : w.Agrees saved) (regs : Regs) (r : Nat) :
    (regs.write w).icc r = regs.icc r ∨ (regs.write w).icc r = saved.icc r := by
  cases w with
  | icc r' v =>
    by_cases hr : r = r'
    · refine .inr ((if_pos hr).trans ?_)
      rw [hr]
      exact h
    · exact .inl (if_neg hr)
  | _ => exact .inl rfl

theorem Write.Agrees.vtimerMask (h : w.Agrees saved) (regs : Regs) :
    (regs.write w).vtimerMask = regs.vtimerMask ∨
      (regs.write w).vtimerMask = saved.vtimerMask := by
  cases w with
  | vtimerMask b => exact .inr h
  | _ => exact .inl rfl

/-- **A vCPU comes back as it was saved**, but for the virtual counter. -/
theorem Regs.saveState_restored (regs saved : Regs) (now now' off : Nat) :
    (((restoreWrites (saved.saveState now) off).foldl Regs.write regs).saveState now').timeless =
      (saved.saveState now).timeless := by
  have hreg : ∀ r, .reg r (saved.reg r) ∈ restoreWrites (saved.saveState now) off →
      ((restoreWrites (saved.saveState now) off).foldl Regs.write regs).reg r = saved.reg r :=
    fun r hr => Regs.restored (Regs.reg · r) (fun w regs h => h.reg regs r) hr fun _ => if_pos rfl
  have hmask : ((restoreWrites (saved.saveState now) off).foldl Regs.write regs).vtimerMask =
      saved.vtimerMask :=
    Regs.restored Regs.vtimerMask (fun w regs h => h.vtimerMask regs)
      (mem_restoreWrites.mpr (.inr (.inr (.inr (.inl rfl))))) fun _ => rfl
  have hfpcr := hreg HV_REG_FPCR
    (mem_restoreWrites.mpr (.inr (.inr (.inr (.inr (.inl rfl))))))
  have hfpsr := hreg HV_REG_FPSR
    (mem_restoreWrites.mpr (.inr (.inr (.inr (.inr (.inr (.inl rfl)))))))
  have hgp : SAVED_GP.map
      ((restoreWrites (saved.saveState now) off).foldl Regs.write regs).reg =
        SAVED_GP.map saved.reg :=
    map_congr_left fun r hr => hreg r (mem_restoreWrites.mpr (.inl ⟨r, hr, rfl⟩))
  have hsysregs : SAVED_SYSREGS.map (fun r => (r,
      ((restoreWrites (saved.saveState now) off).foldl Regs.write regs).sysReg r)) =
        SAVED_SYSREGS.map fun r => (r, saved.sysReg r) := by
    refine map_congr_left fun r hr => congrArg (Prod.mk r) ?_
    exact Regs.restored (Regs.sysReg · r) (fun w regs h => h.sysReg regs r)
      (mem_restoreWrites.mpr (.inr (.inl ⟨r, hr, rfl⟩))) fun _ => if_pos rfl
  have hsimd : (range 32).map
      ((restoreWrites (saved.saveState now) off).foldl Regs.write regs).simd =
        (range 32).map saved.simd := by
    refine map_congr_left fun q hq => ?_
    exact Regs.restored (Regs.simd · q) (fun w regs h => h.simd regs q)
      (mem_restoreWrites.mpr (.inr (.inr (.inr (.inr (.inr (.inr (.inl
        ⟨q, hq, rfl⟩)))))))) fun _ => if_pos rfl
  have hicc : SAVED_ICC.map (fun r => (r,
      ((restoreWrites (saved.saveState now) off).foldl Regs.write regs).icc r)) =
        SAVED_ICC.map fun r => (r, saved.icc r) := by
    refine map_congr_left fun r hr => congrArg (Prod.mk r) ?_
    exact Regs.restored (Regs.icc · r) (fun w regs h => h.icc regs r)
      (mem_restoreWrites.mpr (.inr (.inr (.inr (.inr (.inr (.inr (.inr
        ⟨r, hr, rfl⟩)))))))) fun _ => if_pos rfl
  generalize (restoreWrites (saved.saveState now) off).foldl Regs.write regs = back at *
  unfold VcpuState.timeless Regs.saveState
  rw [hgp, hsysregs, hmask, hsimd, hfpcr, hfpsr, hicc]

/-! ## The virtual counter -/

/-- `vtimer_offset_from`; truncated subtraction is the source's `saturating_sub`. -/
def vtimerOffsetFrom (machNow hostCounter : Nat) : Nat := machNow - hostCounter

def counterRange : Nat := 2 ^ 64

/-- CNTVCT, what a guest reads when the host counter is `mach`. -/
def cntvct (mach vtimerOffset : Nat) : Nat :=
  (mach + counterRange - vtimerOffset) % counterRange

theorem cntvct_eq {mach : Nat} (hoff : off ≤ mach) (hmach : mach < counterRange) :
    cntvct mach off = mach - off := by
  unfold cntvct
  unfold counterRange at hmach ⊢
  omega

theorem cntvct_vtimerOffsetFrom {hc : Nat} (hhc : hc ≤ now) (hnow : now < counterRange) :
    cntvct now (vtimerOffsetFrom now hc) = hc := by
  unfold vtimerOffsetFrom
  rw [cntvct_eq (by omega) hnow]
  omega

end Ignition.Hvf
