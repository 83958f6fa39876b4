import Ignition.Base.Run
import Ignition.Devices.Bus
import Ignition.Hvf.Completion

/-!
# What a load from a device returns

A vCPU has one buffer of eight bytes for its loads and stores of devices. A store puts its bytes in
it; a load hands its first bytes to the bus, and what is in them afterwards goes to the register.
Nobody clears it in between. So a load returns what the device says if the device fills the buffer,
and otherwise what an earlier load or store has left there.

Two histories that leave the devices alike are told apart by a load exactly if the load is not
filled (`load_independent_iff`).
-/

namespace Ignition.Vmm.MmioLoad

open Paged Runs Ignition.Devices Ignition.Hvf List Option

/-- A vCPU and the bus. -/
structure Board where
  vcpu : Vcpu
  bus : Bus

inductive Action where
  | run (guest : Regs → Regs) (reason : HvExit) (mach : Nat) (clock : Clock)
  | other (devices : Bus → Bus) (regs : Regs → Regs)

namespace Board

def handle (uart : Uart) (fuel : Nat) (b : Board) (clock : Clock) : VcpuExit → Option Board
  | .mmioWrite pa data =>
    (b.bus.write uart fuel clock pa (data.map UInt8.ofNat)).map fun bus => { b with bus := bus }
  | .mmioRead pa len =>
    let r := b.bus.read uart clock pa ((b.vcpu.mmioBuf.take len).map UInt8.ofNat)
    some ⟨b.vcpu.serviced (.mmioRead pa len) (r.2.map UInt8.toNat), r.1⟩
  | _ => some b

def step (uart : Uart) (fuel : Nat) (b : Board) : Action → Option Board
  | .run guest reason mach clock =>
    (b.vcpu.run guest reason mach).bind fun r => { b with vcpu := r.1 }.handle uart fuel clock r.2
  | .other devices regs => some ⟨{ b.vcpu with regs := regs b.vcpu.regs }, devices b.bus⟩

def Reached (uart : Uart) (fuel : Nat) (b : Board) : Prop :=
  ∃ v bus acts, v.mmioBuf = List.replicate 8 0 ∧ v.pendingMmioRead = none ∧
    Run (step uart fuel) (fun _ _ => True) ⟨v, bus⟩ acts b

def IsLoad (syndrome : Nat) : Prop := syndrome / 2 ^ 26 % 64 = 0x24 ∧ syndrome / 2 ^ 6 % 2 = 0

def width (syndrome : Nat) : Nat := 2 ^ (syndrome / 2 ^ 22 % 4)

def target (syndrome : Nat) : Nat := syndrome / 2 ^ 16 % 32

def loads (uart : Uart) (fuel : Nat) (b : Board) (guest : Regs → Regs) (syndrome pa mach : Nat)
    (clock : Clock) : Option Nat :=
  (b.step uart fuel (.run guest (.exception syndrome pa) mach clock)).map fun b' =>
    b'.vcpu.enter.regs.reg (target syndrome)

/-! ## The buffer -/

theorem width_le (syndrome : Nat) : width syndrome ≤ 8 :=
  Nat.pow_le_pow_right (by decide) (Nat.le_of_lt_succ (Nat.mod_lt _ (by decide)) : _ ≤ 3)

theorem width_pos (syndrome : Nat) : 0 < width syndrome := Nat.two_pow_pos _

theorem length_encodeMmioLe {buf : List Nat} {val len : Nat} (h : len ≤ buf.length) :
    (encodeMmioLe buf val len).length = buf.length := by
  unfold encodeMmioLe
  rw [length_append, length_map, length_range, length_drop]
  omega

theorem dataAbort_mmioBuf {v : Vcpu} (syndrome pa : Nat) (h : v.mmioBuf.length = 8) :
    (v.dataAbort syndrome pa).1.mmioBuf.length = 8 := by
  unfold Vcpu.dataAbort
  dsimp only
  split
  · exact h
  split
  · refine Eq.trans (length_encodeMmioLe ?_) h
    rw [h]
    exact width_le syndrome
  · exact h

theorem syncVtimer_mmioBuf (v : Vcpu) : v.syncVtimer.mmioBuf = v.mmioBuf := by
  unfold Vcpu.syncVtimer
  split <;> rfl

theorem run_mmioBuf {v v' : Vcpu} {guest : Regs → Regs} {reason : HvExit} {mach : Nat}
    {e : VcpuExit} (h : v.run guest reason mach = some (v', e)) (hlen : v.mmioBuf.length = 8) :
    v'.mmioBuf.length = 8 := by
  cases reason with
  | canceled | vtimerActivated =>
    obtain ⟨rfl, -⟩ := Prod.mk.inj (some.inj h)
    exact hlen
  | unexpected => cases h
  | exception syndrome pa =>
    have hsync : ∀ w : Vcpu, w.mmioBuf.length = 8 → w.exception syndrome pa mach = some (v', e) →
        v'.mmioBuf.length = 8 := by
      intro w hw hexc
      unfold Vcpu.exception Vcpu.systemRegister Vcpu.waitForEvent at hexc
      dsimp only at hexc
      split_ifs at hexc
      all_goals try obtain ⟨rfl, -⟩ := Prod.mk.inj (some.inj hexc)
      all_goals first | exact hw | exact dataAbort_mmioBuf syndrome pa hw
    refine hsync _ ?_ h
    rw [syncVtimer_mmioBuf]
    exact hlen

theorem step_mmioBuf {uart : Uart} {fuel : Nat} {b b' : Board} {a : Action}
    (h : b.step uart fuel a = some b') (hlen : b.vcpu.mmioBuf.length = 8) :
    b'.vcpu.mmioBuf.length = 8 := by
  cases a with
  | other devices regs =>
    cases h
    exact hlen
  | run guest reason mach clock =>
    obtain ⟨⟨v, e⟩, hrun, hhandle⟩ := bind_eq_some_iff.mp h
    have hv := run_mmioBuf hrun hlen
    unfold handle at hhandle
    split at hhandle
    · obtain ⟨bus, -, rfl⟩ := map_eq_some_iff.mp hhandle
      exact hv
    next pa len =>
      cases hhandle
      unfold Vcpu.serviced
      dsimp only
      rw [length_append, length_take, length_drop, length_map, Bus.length_read,
        length_map, length_take]
      omega
    · cases hhandle
      exact hv

theorem Reached.length_mmioBuf {uart : Uart} {fuel : Nat} {b : Board} (h : Reached uart fuel b) :
    b.vcpu.mmioBuf.length = 8 := by
  obtain ⟨v, bus, acts, hbuf, -, hrun⟩ := h
  have hstart : (⟨v, bus⟩ : Board).vcpu.mmioBuf.length = 8 := by
    show v.mmioBuf.length = 8
    rw [hbuf, length_replicate]
  exact Run.invariant (fun _ _ _ hs _ hstep => step_mmioBuf hstep hs) hrun hstart

/-! ## What a load returns -/

theorem decodeMmioLe_eq : ∀ (bytes : Bytes) (rest : List Nat),
    decodeMmioLe (bytes.map UInt8.toNat ++ rest) bytes.length = fromLeBytes bytes
  | [], rest => rfl
  | b :: bs, rest => by
    have ih := decodeMmioLe_eq bs rest
    unfold decodeMmioLe at ih ⊢
    rw [map_cons, cons_append, length_cons, take_succ_cons, foldr_cons, ih]
    rfl

/-- **A load returns the buffer as the bus leaves it.** -/
theorem loads_eq {b : Board} (uart : Uart) (fuel : Nat) (guest : Regs → Regs)
    {syndrome : Nat} (pa mach : Nat) (clock : Clock) (hbuf : b.vcpu.mmioBuf.length = 8)
    (hload : IsLoad syndrome) (hreg : target syndrome < 31) :
    b.loads uart fuel guest syndrome pa mach clock =
      some (fromLeBytes (b.bus.read uart clock pa
        ((b.vcpu.mmioBuf.take (width syndrome)).map UInt8.ofNat)).2) := by
  -- the exit hands the buffer to the bus
  have hrun : ∃ v, b.vcpu.run guest (.exception syndrome pa) mach =
        some (v, .mmioRead pa (width syndrome)) ∧
      v.pendingMmioRead = some ⟨width syndrome, target syndrome⟩ ∧
      v.mmioBuf = b.vcpu.mmioBuf := by
    unfold Vcpu.run Vcpu.exit Vcpu.exception
    dsimp only
    rw [if_neg (by rw [hload.1]; decide), if_pos hload.1]
    unfold Vcpu.dataAbort
    rw [if_neg fun h => by have := h.2.1; have := hload.2; omega,
      if_neg fun h => by have := hload.2; omega]
    exact ⟨_, rfl, rfl, syncVtimer_mmioBuf _⟩
  obtain ⟨v, hrun, hpend, hmmio⟩ := hrun
  have hanswer := Bus.length_read uart clock b.bus pa
    ((b.vcpu.mmioBuf.take (width syndrome)).map UInt8.ofNat)
  generalize hr : b.bus.read uart clock pa
    ((b.vcpu.mmioBuf.take (width syndrome)).map UInt8.ofNat) = r at hanswer ⊢
  have hlen : r.2.length = width syndrome := by
    rw [hanswer, length_map, length_take, hbuf, Nat.min_eq_left (width_le syndrome)]
  have hstep : b.step uart fuel (.run guest (.exception syndrome pa) mach clock) =
      some ⟨v.serviced (.mmioRead pa (width syndrome)) (r.2.map UInt8.toNat), r.1⟩ := by
    show (b.vcpu.run guest (.exception syndrome pa) mach).bind _ = _
    rw [hrun]
    dsimp only [bind_some, handle]
    rw [hmmio, hr]
  unfold loads
  rw [hstep]
  refine congrArg some ?_
  have hleft : (v.serviced (.mmioRead pa (width syndrome)) (r.2.map UInt8.toNat)).mmioBuf =
      r.2.map UInt8.toNat ++ v.mmioBuf.drop (r.2.map UInt8.toNat).length := by
    unfold Vcpu.serviced
    dsimp only
    rw [take_of_length_le (by rw [length_map, hlen])]
  -- the next entry completes the load
  calc (v.serviced (.mmioRead pa (width syndrome)) (r.2.map UInt8.toNat)).enter.regs.reg
        (target syndrome)
      = decodeMmioLe (v.serviced (.mmioRead pa (width syndrome)) (r.2.map UInt8.toNat)).mmioBuf
          (width syndrome) := Vcpu.enter_reg hpend hreg
    _ = fromLeBytes r.2 := by
        rw [hleft, ← hlen]
        exact decodeMmioLe_eq _ _

/-! ## Two histories -/

theorem fromLeBytes_inj : ∀ {bytes bytes' : Bytes}, bytes.length = bytes'.length →
    fromLeBytes bytes = fromLeBytes bytes' → bytes = bytes'
  | [], [], _, _ => rfl
  | [], _ :: _, hlen, _ => by cases hlen
  | _ :: _, [], hlen, _ => by cases hlen
  | b :: bs, b' :: bs', hlen, h => by
    have hb := b.toNat_lt
    have hb' := b'.toNat_lt
    unfold fromLeBytes at h
    have hhead : b = b' := UInt8.toNat_inj.mp (by omega)
    have htail : bs = bs' := fromLeBytes_inj (Nat.succ.inj hlen) (by omega)
    rw [hhead, htail]

def blank (syndrome : Nat) : Bytes :=
  ((Vcpu.new 0 1).mmioBuf.take (width syndrome)).map UInt8.ofNat

theorem length_blank (syndrome : Nat) : (blank syndrome).length = width syndrome := by
  have hbuf : (Vcpu.new 0 1).mmioBuf.length = 8 := length_replicate
  unfold blank
  rw [length_map, length_take, hbuf, Nat.min_eq_left (width_le syndrome)]

theorem getElem?_blank {syndrome k : Nat} (hk : k < width syndrome) :
    (blank syndrome)[k]? = some 0 := by
  have hle := width_le syndrome
  unfold blank Vcpu.new
  rw [take_replicate, map_replicate, getElem?_replicate, if_pos (by omega)]
  rfl

def storeTrap (syndrome pa : Nat) : HvExit :=
  .exception (0x24 * 2 ^ 26 + syndrome / 2 ^ 22 % 4 * 2 ^ 22 + 2 ^ 6) pa

theorem store_run (syndrome pa val mach : Nat) : ∃ v,
    (Vcpu.new 0 1).run (Regs.write · (.reg 0 val)) (storeTrap syndrome pa) mach =
        some (v, .mmioWrite pa (v.mmioBuf.take (width syndrome))) ∧
      (v.mmioBuf.take (width syndrome)).map UInt8.ofNat = storeBytes val (width syndrome) ∧
      v.mmioBuf.length = 8 := by
  have hec : (0x24 * 2 ^ 26 + syndrome / 2 ^ 22 % 4 * 2 ^ 22 + 2 ^ 6) / 2 ^ 26 % 64 = 0x24 := by
    omega
  have hwr : (0x24 * 2 ^ 26 + syndrome / 2 ^ 22 % 4 * 2 ^ 22 + 2 ^ 6) / 2 ^ 6 % 2 = 1 := by omega
  have hsrt : (0x24 * 2 ^ 26 + syndrome / 2 ^ 22 % 4 * 2 ^ 22 + 2 ^ 6) / 2 ^ 16 % 32 = 0 := by omega
  have hwidth : (0x24 * 2 ^ 26 + syndrome / 2 ^ 22 % 4 * 2 ^ 22 + 2 ^ 6) / 2 ^ 22 % 4 =
      syndrome / 2 ^ 22 % 4 := by omega
  have hbytes : (encodeMmioLe (replicate 8 0) val (width syndrome)).take (width syndrome) =
      (range (width syndrome)).map fun i => val / 256 ^ i % 256 := by
    refine take_left' ?_
    rw [length_map, length_range]
  have hrun : (Vcpu.new 0 1).run (Regs.write · (.reg 0 val)) (storeTrap syndrome pa) mach =
      some ({ Vcpu.new 0 1 with
        regs := (Vcpu.new 0 1).regs.write (.reg 0 val)
        pendingAdvancePc := true
        mmioBuf := encodeMmioLe (replicate 8 0) val (width syndrome) },
        .mmioWrite pa ((encodeMmioLe (replicate 8 0) val (width syndrome)).take
          (width syndrome))) := by
    show Vcpu.exception _ _ _ _ = _
    unfold Vcpu.exception
    rw [if_neg (by rw [hec]; decide), if_pos hec]
    unfold Vcpu.dataAbort
    rw [hwr, hsrt, hwidth]
    rfl
  refine ⟨_, hrun, ?_, ?_⟩
  · dsimp only
    rw [hbytes, List.map_map]
    rfl
  · exact (length_encodeMmioLe (width_le syndrome)).trans List.length_replicate

theorem Reached.of_store (uart : Uart) (fuel : Nat) (bus : Bus) (syndrome pa val : Nat)
    {clock : Clock}
    (h : bus.write uart fuel clock pa (storeBytes val (width syndrome)) = some bus) :
    ∃ v, Reached uart fuel ⟨v, bus⟩ ∧
      (v.mmioBuf.take (width syndrome)).map UInt8.ofNat = storeBytes val (width syndrome) ∧
      v.mmioBuf.length = 8 := by
  obtain ⟨v, hrun, hbytes, hbuf⟩ := store_run syndrome pa val 0
  have hstep : step uart fuel ⟨Vcpu.new 0 1, bus⟩
      (.run (Regs.write · (.reg 0 val)) (storeTrap syndrome pa) 0 clock) = some ⟨v, bus⟩ := by
    show ((Vcpu.new 0 1).run _ _ _).bind _ = _
    rw [hrun]
    dsimp only [bind_some, handle]
    rw [hbytes, h]
    rfl
  exact ⟨v, ⟨_, bus, _, rfl, rfl, .cons trivial hstep (.nil _)⟩, hbytes, hbuf⟩

/-- **Loads that are filled, and only they, tell no two histories apart** that leave the devices in
the same state. -/
theorem load_independent_iff (uart : Uart) (fuel : Nat) (bus : Bus) {syndrome : Nat} (pa : Nat)
    (clock : Clock) (hload : IsLoad syndrome) (hreg : target syndrome < 31) :
    (∀ b b' : Board, Reached uart fuel b → Reached uart fuel b' → b.bus = bus → b'.bus = bus →
      ∀ guest guest' mach mach', b.loads uart fuel guest syndrome pa mach clock =
        b'.loads uart fuel guest' syndrome pa mach' clock) ↔
    bus.answers pa (width syndrome) = true := by
  constructor
  · intro hall
    by_contra hne
    obtain ⟨val, k, hleak⟩ := Bus.exists_leak uart fuel clock bus.mem (width_pos syndrome)
      (eq_false_of_ne_true hne)
    -- a new vCPU, and one that has stored
    have hnew : Reached uart fuel ⟨Vcpu.new 0 1, bus⟩ := ⟨_, bus, [], rfl, rfl, .nil _⟩
    obtain ⟨v, hstored, hbytes, hbuf⟩ := Reached.of_store uart fuel bus syndrome pa val (by
      unfold Bus.write
      rw [hleak.ignored]
      rfl)
    have heq := hall _ _ hnew hstored rfl rfl id id 0 0
    rw [loads_eq uart fuel id pa 0 clock length_replicate hload hreg,
      loads_eq uart fuel id pa 0 clock hbuf hload hreg, hbytes, some.injEq] at heq
    replace heq : fromLeBytes (bus.read uart clock pa (blank syndrome)).2 =
      fromLeBytes (bus.read uart clock pa (storeBytes val (width syndrome))).2 := heq
    have hlen := length_blank syndrome
    have hbytes' := fromLeBytes_inj (by
      rw [Bus.length_read, Bus.length_read, hlen, length_storeBytes]) heq
    -- byte `k` is the one of the buffer, in both
    have hk := congrArg (fun bytes : Bytes => bytes[k]?) hbytes'
    have hk' : (blank syndrome)[k]? = (storeBytes val (width syndrome))[k]? :=
      (hleak.left _ hlen).symm.trans (hk.trans (hleak.left _ (length_storeBytes _ _)))
    rw [getElem?_blank hleak.lt, getElem?_storeBytes hleak.lt, some.injEq] at hk'
    have hzero := congrArg UInt8.toNat hk'
    rw [UInt8.toNat_ofNat', Nat.mod_mod] at hzero
    exact hleak.byte_ne hzero.symm
  · intro hans b b' hb hb' hbus hbus' guest guest' mach mach'
    have hlen := hb.length_mmioBuf
    have hlen' := hb'.length_mmioBuf
    rw [loads_eq uart fuel guest pa mach clock hlen hload hreg,
      loads_eq uart fuel guest' pa mach' clock hlen' hload hreg, hbus, hbus']
    refine congrArg (fun r : Bus × Bytes => some (fromLeBytes r.2)) ?_
    refine Bus.read_congr uart clock ?_ ?_
    · rw [length_map, length_map, length_take, length_take, hlen, hlen']
    · rw [length_map, length_take, hlen, Nat.min_eq_left (width_le syndrome)]
      exact hans

def mute : Uart where
  read := fun s _ => (s, 0)
  write := fun s _ _ => s
  enqueueRawBytes := fun s bytes => (s, .ok bytes.length)

def clockBus : Bus :=
  ⟨[⟨0x9001000, 0x1000, .mmio (.rtc .new)⟩],
    ⟨0x40000000, List.replicate 64 0, GuestRam.bounded_blank⟩⟩

def load8 : Nat := 0x24 * 2 ^ 26 + 3 * 2 ^ 22 + 2 ^ 16

theorem load_independent_clock :
    (IsLoad load8 ∧ target load8 < 31 ∧ clockBus.answers 0x9001000 (width load8) = true) ∧
    ∀ b b' : Board, Reached mute 0 b → Reached mute 0 b' → b.bus = clockBus → b'.bus = clockBus →
      ∀ guest guest' mach mach', b.loads mute 0 guest load8 0x9001000 mach ⟨0, 0⟩ =
        b'.loads mute 0 guest' load8 0x9001000 mach' ⟨0, 0⟩ := by
  have hload : IsLoad load8 := by unfold IsLoad; decide
  have hans : clockBus.answers 0x9001000 (width load8) = true := by decide
  exact ⟨⟨hload, by decide, hans⟩,
    (load_independent_iff mute 0 clockBus 0x9001000 ⟨0, 0⟩ hload (by decide)).mpr hans⟩

theorem store_comes_back : ∃ b b' : Board, Reached mute 0 b ∧ Reached mute 0 b' ∧
    b.bus = clockBus ∧ b'.bus = clockBus ∧
    b.loads mute 0 id load8 0x8000000 0 ⟨0, 0⟩ = some 0 ∧
    b'.loads mute 0 id load8 0x8000000 0 ⟨0, 0⟩ = some 0x1122334455667788 := by
  have hload : IsLoad load8 := by unfold IsLoad; decide
  have hmiss : clockBus.write mute 0 ⟨0, 0⟩ 0x8000000
      (storeBytes 0x1122334455667788 (width load8)) = some clockBus := rfl
  obtain ⟨v, hstored, hbytes, hbuf⟩ := Reached.of_store mute 0 clockBus load8 _ _ hmiss
  refine ⟨_, _, ⟨Vcpu.new 0 1, clockBus, [], rfl, rfl, .nil _⟩, hstored, rfl, rfl, ?_, ?_⟩
  · rw [loads_eq mute 0 id 0x8000000 0 ⟨0, 0⟩ length_replicate hload (by decide)]
    decide +kernel
  · rw [loads_eq mute 0 id 0x8000000 0 ⟨0, 0⟩ hbuf hload (by decide), hbytes]
    show some (fromLeBytes (clockBus.read mute ⟨0, 0⟩ 0x8000000
      (storeBytes 0x1122334455667788 (width load8))).2) = _
    decide +kernel

end Board

end Ignition.Vmm.MmioLoad
