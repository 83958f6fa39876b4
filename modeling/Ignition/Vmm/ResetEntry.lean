import Ignition.Hvf.Completion

/-!
# The first entry after a reset

The reset path of `try_rendezvous` writes the registers of the checkpoint back with
`restore_state`. What is pending from the last exit is kept outside the registers and is not
touched (the fuzz loop calls `clear_pending_advance` after its resets, this path does not), so
the next `run` finishes an instruction of the abandoned execution on top of the checkpoint:
the program counter moves on by four, and a register may receive the answer to an old load.
-/

namespace Ignition.Vmm

open Ignition.Hvf

/-- `try_rendezvous` after the second barrier of a reset: `restore_state`, of which `calls` calls
go through, and the timer unmasked. -/
def rollBack (v : Vcpu) (cp : VcpuState) (vtimerOffset calls : Nat) : Vcpu :=
  { v with regs := (v.regs.restoreState cp vtimerOffset calls).1.write (.vtimerMask false) }

section

variable {v v' : Vcpu} {guest : Regs → Regs} {reason : HvExit} {now : Nat} {e : VcpuExit}

theorem rollBack_reg {saved : Regs} {savedAt off calls r : Nat}
    (hok : (v.regs.restoreState (saved.saveState savedAt) off calls).2 = true) (hr : r ∈ SAVED_GP) :
    (rollBack v (saved.saveState savedAt) off calls).regs.reg r = saved.reg r :=
  Regs.restoreState_reg hok hr

theorem serviced_pending (answer : List Nat) :
    (v.serviced e answer).pendingAdvancePc = v.pendingAdvancePc ∧
      (v.serviced e answer).pendingMmioRead = v.pendingMmioRead := by
  cases e <;> exact ⟨rfl, rfl⟩

/-- **A reset resumes at the checkpoint exactly if the last exit was not a lazy one.** A vCPU
leaves the guest for any reason, its exit is handled, and the registers of a checkpoint are
restored: the next entry has the program counter and the general registers of the checkpoint if
and only if the instruction of that exit was not left to be finished. -/
theorem reset_entry_exact {saved : Regs} {savedAt off calls : Nat} {answer : List Nat}
    (hrun : v.run guest reason now = some (v', e))
    (hok : ((v'.serviced e answer).regs.restoreState (saved.saveState savedAt) off calls).2 = true) :
    (∀ r ∈ SAVED_GP,
      (rollBack (v'.serviced e answer) (saved.saveState savedAt) off calls).enter.regs.reg r =
        saved.reg r) ↔ v.lazy reason = false := by
  obtain ⟨hpend, htidy⟩ := Vcpu.run_pending hrun
  obtain ⟨hadv, hread⟩ := serviced_pending (v := v') (e := e) answer
  constructor
  · intro hall
    refine eq_false_of_ne_true fun hlazy => ?_
    have hon : v'.pendingAdvancePc = true := hpend.trans hlazy
    have hpc : HV_REG_PC ∈ SAVED_GP := by decide
    have hmoved := Vcpu.enter_pc
      (v := rollBack (v'.serviced e answer) (saved.saveState savedAt) off calls) (hadv.trans hon)
    rw [hall _ hpc, rollBack_reg hok hpc] at hmoved
    exact Vcpu.pc_ne _ hmoved.symm
  · intro hlazy r hr
    have hoff : v'.pendingAdvancePc = false := hpend.trans hlazy
    have hnone : Vcpu.Tidy (rollBack (v'.serviced e answer) (saved.saveState savedAt) off calls) :=
      fun _ => hread.trans (htidy hoff)
    rw [hnone.enter_regs (hadv.trans hoff)]
    exact rollBack_reg hok hr

theorem reset_entry_exact_canceled :
    ∃ v', (Vcpu.new 0 24000000).run (fun regs => regs.write (.reg HV_REG_PC 64)) .canceled 0 =
        some (v', .canceled) ∧
      ∀ r ∈ SAVED_GP, (rollBack (v'.serviced .canceled []) ((Regs.new 0).saveState 0) 0
        200).enter.regs.reg r = (Regs.new 0).reg r := by
  obtain ⟨v', hrun⟩ : ∃ v', (Vcpu.new 0 24000000).run
      (fun regs => regs.write (.reg HV_REG_PC 64)) .canceled 0 = some (v', .canceled) := ⟨_, rfl⟩
  have hlen : (restoreWrites ((Regs.new 0).saveState 0) 0).length ≤ 200 := by decide +kernel
  exact ⟨v', hrun, (reset_entry_exact hrun (decide_eq_true hlen)).mpr rfl⟩

theorem load_lands_on_checkpoint :
    ∃ v', (Vcpu.new 0 24000000).run id loadTrap 0 = some (v', .mmioRead 0x9000000 4) ∧
      ((Regs.new 0).saveState 0).gp = List.replicate 33 0 ∧
      let w := (rollBack (v'.serviced (.mmioRead 0x9000000 4) [42, 0, 0, 0])
        ((Regs.new 0).saveState 0) 0 200).enter
      w.regs.reg HV_REG_PC = 4 ∧ w.regs.reg 1 = 42 := by
  refine ⟨_, rfl, ?_, ?_⟩ <;> decide +kernel

end

end Ignition.Vmm
