import Mathlib.Data.List.Induction
import Ignition.Base.Ring
import Ignition.Devices.Virtqueue

/-!
# Servicing a queue

Most devices serve a queue in the same way: pop a chain, do something with RAM and the host,
push the chain with the number of bytes written, and go on until `pop_avail` gives nothing. The
loop is `drain`, over a device state `δ` and a `Service` that says what happens to one chain.
The source's loops have no bound; `drain` has fuel, and gives no result if it runs out.

`pop_avail` reads the available index afresh in every round, and the loop writes to RAM. Each
round moves the queue one entry on, so as long as the index stays what it was, the loop comes to
an end (`drain_ends`). And as long as the rings and the table stay what they were, the rounds
follow the entries that were published when the loop began (`drain_entries`).
-/

namespace Ignition.Devices

open Paged Ignition.Vmm List Option

/-! ## One chain -/

/-- What came of servicing a chain: the device and RAM afterwards, the length that is reported,
before it is cut to 32 bits, and the successful writes, each with its descriptor and the number
of bytes. -/
structure Serviced (δ : Type) where
  dev : δ
  mem : GuestRam
  len : Nat
  log : List (Desc × Nat)

abbrev Service (δ : Type) := δ → GuestRam → DescChain → Serviced δ

def Desc.range (d : Desc) : Set Nat := Set.Ico d.addr (d.addr + d.len)

def intoWritable (log : List (Desc × Nat)) : Nat :=
  (log.map fun w => if w.1.writable then min w.2 w.1.len else 0).sum

@[simp] theorem intoWritable_nil : intoWritable [] = 0 := rfl

@[simp] theorem intoWritable_cons (w : Desc × Nat) (log : List (Desc × Nat)) :
    intoWritable (w :: log) = (if w.1.writable then min w.2 w.1.len else 0) + intoWritable log :=
  rfl

def logged (log : List (Desc × Nat)) : Set Nat :=
  {x | ∃ w ∈ log, w.1.addr ≤ x ∧ x < w.1.addr + w.2}

theorem changesIn_logged_cons {log : List (Desc × Nat)} {mem mem' mem'' : GuestRam} {d : Desc}
    {n : Nat} (h : GuestRam.ChangesIn (Set.Ico d.addr (d.addr + n)) mem mem')
    (h' : GuestRam.ChangesIn (logged log) mem' mem'') :
    GuestRam.ChangesIn (logged ((d, n) :: log)) mem mem'' := by
  refine (h.mono ?_).trans (h'.mono ?_)
  · exact fun x hx => ⟨(d, n), mem_cons_self, hx.1, hx.2⟩
  · rintro x ⟨w, hw, hx⟩
    exact ⟨w, mem_cons_of_mem _ hw, hx⟩

/-- The log accounts for every byte that changed, and has only descriptors of the chain that the
device may write, each at most to its end. -/
structure Serviced.Sound {δ : Type} (r : Serviced δ) (mem : GuestRam) (ds : List Desc) : Prop where
  covered : GuestRam.ChangesIn (logged r.log) mem r.mem
  within : ∀ w ∈ r.log, w.1 ∈ ds ∧ w.1.writable = true ∧ w.2 ≤ w.1.len

def acknowledge {δ : Type} : Service δ := fun dev mem _ => ⟨dev, mem, 0, []⟩

def serveConfig (image : Bytes) (offset : Nat) (data : Bytes) : Bytes :=
  data.mapIdx fun i _ => image.getD (offset + i) 0

def scatter (payload : Bytes) : GuestRam → Nat → List Desc → Serviced Unit
  | mem, off, [] => ⟨(), mem, off, []⟩
  | mem, off, d :: ds =>
    if d.writable && off < payload.length then
      let n := min d.len (payload.length - off)
      match mem.writeSlice d.addr (slice payload off n) with
      | (mem', true) =>
        let r := scatter payload mem' (off + n) ds
        { r with log := (d, n) :: r.log }
      | (mem', false) => scatter payload mem' off ds
    else scatter payload mem off ds

theorem Serviced.Sound.nil {δ : Type} (dev : δ) (mem : GuestRam) (len : Nat) (ds : List Desc) :
    Serviced.Sound ⟨dev, mem, len, []⟩ mem ds :=
  ⟨.refl _ mem, fun _ h => nomatch h⟩

theorem Serviced.Sound.cons {δ : Type} {r : Serviced δ} {mem mem' : GuestRam} {d : Desc} {n : Nat}
    {ds : List Desc} (hw : GuestRam.ChangesIn (Set.Ico d.addr (d.addr + n)) mem mem')
    (hd : d.writable = true) (hn : n ≤ d.len) (h : r.Sound mem' ds) :
    Serviced.Sound { r with log := (d, n) :: r.log } mem (d :: ds) := by
  refine ⟨changesIn_logged_cons hw h.covered, fun w hmem => ?_⟩
  rcases mem_cons.mp hmem with rfl | hmem'
  · exact ⟨mem_cons_self, hd, hn⟩
  · obtain ⟨hin, hrest⟩ := h.within w hmem'
    exact ⟨mem_cons_of_mem _ hin, hrest⟩

theorem Serviced.Sound.skip {δ : Type} {r : Serviced δ} {mem : GuestRam} {ds : List Desc}
    (h : r.Sound mem ds) (d : Desc) : r.Sound mem (d :: ds) :=
  ⟨h.covered, fun w hw => ⟨mem_cons_of_mem _ (h.within w hw).1, (h.within w hw).2⟩⟩

theorem GuestRam.eq_of_writeSlice_false {m m' : GuestRam} {gpa : Nat} {data : Bytes}
    (h : m.writeSlice gpa data = (m', false)) : m' = m := by
  have hno : m.contains gpa data.length = false := by
    rw [← m.writeSlice_snd, h]
  rw [writeSlice_of_not_contains hno] at h
  exact (congrArg Prod.fst h).symm

/-- **A scattered payload** stays within the writable descriptors, and what is through is what
was written. -/
theorem scatter_spec (payload : Bytes) (ds : List Desc) : ∀ (mem : GuestRam) (off : Nat),
    off ≤ payload.length →
    (scatter payload mem off ds).Sound mem ds ∧
      (scatter payload mem off ds).len = off + intoWritable (scatter payload mem off ds).log ∧
      (scatter payload mem off ds).len ≤ payload.length := by
  induction ds with
  | nil => exact fun mem off hoff => ⟨.nil () mem off [], rfl, hoff⟩
  | cons d ds ih =>
    intro mem off hoff
    unfold scatter
    split
    next hg =>
      rw [Bool.and_eq_true, decide_eq_true_eq] at hg
      dsimp only
      have hfits : off + min d.len (payload.length - off) ≤ payload.length := by omega
      have hlen := length_slice hfits
      have hw := GuestRam.changesIn_writeSlice mem d.addr
        (slice payload off (min d.len (payload.length - off)))
      rw [hlen] at hw
      split
      next mem' heq =>
        rw [heq] at hw
        obtain ⟨hsound, hthrough, hle⟩ := ih mem' _ hfits
        refine ⟨.cons hw hg.1 (Nat.min_le_left _ _) hsound, ?_, hle⟩
        rw [intoWritable_cons, if_pos hg.1, hthrough]
        dsimp only
        omega
      next mem' heq =>
        obtain rfl := GuestRam.eq_of_writeSlice_false heq
        obtain ⟨hsound, hrest⟩ := ih mem' off hoff
        exact ⟨hsound.skip d, hrest⟩
    · obtain ⟨hsound, hrest⟩ := ih mem off hoff
      exact ⟨hsound.skip d, hrest⟩

/-! ## The loop -/

section

variable {δ : Type}

structure Loop (δ : Type) where
  dev : δ
  vq : Virtqueue
  mem : GuestRam

def serve (service : Service δ) (l : Loop δ) (vq : Virtqueue) (chain : DescChain) : Loop δ :=
  let r := service l.dev l.mem chain
  let (vq, mem) := vq.pushUsed r.mem chain.head (UInt32.ofNat r.len)
  ⟨r.dev, vq, mem⟩

def round (service : Service δ) (l : Loop δ) : Option DescChain × Loop δ :=
  match l.vq.popAvail l.mem with
  | (vq, none) => (none, { l with vq := vq })
  | (vq, some chain) => (some chain, serve service l vq chain)

def drain (service : Service δ) : Nat → Loop δ → Option (List DescChain × Loop δ)
  | 0, _ => none
  | fuel + 1, l =>
    match round service l with
    | (none, l') => some ([], l')
    | (some chain, l') => (drain service fuel l').map fun r => (chain :: r.1, r.2)

variable {service : Service δ} {l l' : Loop δ} {chain : DescChain}

theorem round_eq_some (h : round service l = (some chain, l')) :
    l.vq.Pending l.mem chain.head ∧ l.vq.resolve l.mem chain.head = some chain ∧
      l' = serve service l l.vq.advance chain := by
  unfold round at h
  split at h
  · cases congrArg Prod.fst h
  rename_i vq c hpop
  obtain ⟨rfl, rfl⟩ := h
  obtain ⟨rfl, hpending, hres⟩ := Virtqueue.popAvail_eq_some hpop
  exact ⟨hpending, hres, rfl⟩

theorem round_eq_none (h : round service l = (none, l')) :
    ((∀ head, ¬ l.vq.Pending l.mem head) ∧ l' = l) ∨
      (∃ head, l.vq.Pending l.mem head ∧ l.vq.resolve l.mem head = none ∧
        l' = { l with vq := l.vq.advance }) := by
  unfold round at h
  rcases l.vq.popAvail_cases l.mem with ⟨head, hpending, hpop⟩ | ⟨hidle, hpop⟩
  · rw [hpop] at h
    cases hres : l.vq.resolve l.mem head with
    | none =>
      rw [hres] at h
      exact .inr ⟨head, hpending, hres, (congrArg Prod.snd h).symm⟩
    | some c =>
      rw [hres] at h
      cases congrArg Prod.fst h
  · rw [hpop] at h
    exact .inl ⟨hidle, (congrArg Prod.snd h).symm⟩

theorem serve_vq (service : Service δ) (l : Loop δ) (vq : Virtqueue) (chain : DescChain) :
    (serve service l vq chain).vq = { vq with usedIdx := (serve service l vq chain).vq.usedIdx } :=
  Virtqueue.pushUsed_fst_eq vq _ chain.head _

theorem round_lastAvailIdx (h : round service l = (some chain, l')) :
    l'.vq.lastAvailIdx = l.vq.lastAvailIdx + 1 := by
  obtain ⟨-, -, rfl⟩ := round_eq_some h
  rw [serve_vq]
  rfl

theorem drain_invariant {P : δ → Prop} (hserv : ∀ d mem chain, P d → P (service d mem chain).dev)
    {fuel : Nat} {r : List DescChain × Loop δ} (h : drain service fuel l = some r)
    (hP : P l.dev) : P r.2.dev := by
  induction fuel generalizing l r with
  | zero => cases h
  | succ fuel ih =>
    unfold drain at h
    split at h
    next l' hr =>
      cases h
      rcases round_eq_none hr with ⟨-, rfl⟩ | ⟨_, -, -, rfl⟩ <;> exact hP
    next c l' hr =>
      obtain ⟨r', hr', rfl⟩ := map_eq_some_iff.mp h
      obtain ⟨-, -, rfl⟩ := round_eq_some hr
      have hserved : P (serve service l l.vq.advance c).dev := hserv l.dev l.mem c hP
      have htail := ih hr' hserved
      exact htail

theorem drain_mono {n m : Nat} (hnm : n ≤ m) {r : List DescChain × Loop δ}
    (h : drain service n l = some r) : drain service m l = some r := by
  induction n generalizing l m r with
  | zero => cases h
  | succ n ih =>
    obtain ⟨m, rfl⟩ : ∃ k, m = k + 1 := ⟨m - 1, by omega⟩
    unfold drain at h ⊢
    split at h
    · exact h
    rename_i c l' hr
    obtain ⟨r', hr', rfl⟩ := map_eq_some_iff.mp h
    rw [ih (by omega) hr']
    rfl

/-! ## Termination -/

/-- The states in which the loop pops. -/
inductive Reaches (service : Service δ) (l : Loop δ) : Loop δ → Prop where
  | refl : Reaches service l l
  | round {l' l'' : Loop δ} {chain : DescChain} : Reaches service l l' →
      round service l' = (some chain, l'') → Reaches service l l''

/-- No round changes the available index. -/
def KeepsAvailIdx (service : Service δ) (l : Loop δ) : Prop :=
  ∀ l' l'' chain, Reaches service l l' → round service l' = (some chain, l'') →
    l''.mem.readU16 l''.vq.availIdxAddr = l'.mem.readU16 l'.vq.availIdxAddr

theorem Reaches.trans {l'' : Loop δ} (h : Reaches service l l') (h' : Reaches service l' l'') :
    Reaches service l l'' := by
  induction h' with
  | refl => exact h
  | round _ hr ih => exact .round ih hr

theorem KeepsAvailIdx.round (h : KeepsAvailIdx service l)
    (hr : round service l = (some chain, l')) : KeepsAvailIdx service l' :=
  fun _ _ _ hreach hr' => h _ _ _ (Reaches.trans (.round .refl hr) hreach) hr'

def Loop.behind (l : Loop δ) : Nat :=
  match l.mem.readU16 l.vq.availIdxAddr with
  | none => 0
  | some i => (i - l.vq.lastAvailIdx).toNat

theorem Loop.behind_lt (l : Loop δ) : l.behind < 2 ^ 16 := by
  unfold Loop.behind
  split
  · decide
  · exact UInt16.toNat_lt _

theorem Loop.behind_pos {head : UInt16} (h : l.vq.Pending l.mem head) : 0 < l.behind := by
  obtain ⟨-, ⟨i, hi, hne⟩, -⟩ := h
  unfold Loop.behind
  rw [hi]
  dsimp only
  refine Nat.pos_of_ne_zero fun h0 => hne ?_
  rw [UInt16.toNat_sub] at h0
  have := i.toNat_lt
  have := l.vq.lastAvailIdx.toNat_lt
  exact UInt16.toNat_inj.mp (by omega)

theorem Loop.behind_round (hkeep : KeepsAvailIdx service l)
    (hr : Devices.round service l = (some chain, l')) : l'.behind + 1 = l.behind := by
  obtain ⟨hpending, -, -⟩ := round_eq_some hr
  have hpos := Loop.behind_pos hpending
  have hidx := hkeep _ _ _ .refl hr
  have hlast := round_lastAvailIdx hr
  obtain ⟨-, ⟨i, hi, -⟩, -⟩ := hpending
  unfold Loop.behind at hpos ⊢
  rw [hidx, hi, hlast]
  rw [hi] at hpos
  dsimp only at hpos ⊢
  generalize l.vq.lastAvailIdx = last at hpos ⊢
  have hone : (1 : UInt16).toNat = 1 := rfl
  rw [UInt16.toNat_sub] at hpos
  rw [UInt16.toNat_sub, UInt16.toNat_sub, UInt16.toNat_add, hone]
  have := i.toNat_lt
  have := last.toNat_lt
  omega

/-- **A loop that leaves the available index alone ends**, after servicing no more entries than
were on offer. The last entry it takes may be malformed. -/
theorem drain_ends (hkeep : KeepsAvailIdx service l) :
    ∃ cs l' n, drain service (2 ^ 16) l = some (cs, l') ∧ cs.length ≤ n ∧ n ≤ cs.length + 1 ∧
      n ≤ l.behind ∧ l'.vq.lastAvailIdx = l.vq.lastAvailIdx + UInt16.ofNat n := by
  suffices h : ∀ k (l : Loop δ), KeepsAvailIdx service l → l.behind = k →
      ∃ cs l' n, drain service (k + 1) l = some (cs, l') ∧ cs.length ≤ n ∧ n ≤ cs.length + 1 ∧
        n ≤ k ∧ l'.vq.lastAvailIdx = l.vq.lastAvailIdx + UInt16.ofNat n by
    obtain ⟨cs, l', n, hdrain, hrest⟩ := h _ l hkeep rfl
    exact ⟨cs, l', n, drain_mono l.behind_lt hdrain, hrest⟩
  intro k
  -- the distance to the index is what goes down
  induction k with
  | zero =>
    intro l hkeep hk
    obtain ⟨l', hr⟩ : ∃ l', Devices.round service l = (none, l') := by
      cases hr : Devices.round service l with
      | mk c l' =>
        cases c with
        | none => exact ⟨l', rfl⟩
        | some c =>
          have := Loop.behind_pos (round_eq_some hr).1
          omega
    rcases round_eq_none hr with ⟨-, rfl⟩ | ⟨head, hpending, -, -⟩
    · refine ⟨[], l', 0, ?_, Nat.le_refl _, Nat.zero_le _, Nat.le_refl _, ?_⟩
      · unfold drain
        rw [hr]
      · exact (UInt16.add_zero _).symm
    · have := Loop.behind_pos hpending
      omega
  | succ k ih =>
    intro l hkeep hk
    cases hr : Devices.round service l with
    | mk c l' =>
      cases c with
      | none =>
        unfold drain
        rw [hr]
        rcases round_eq_none hr with ⟨-, rfl⟩ | ⟨head, -, -, rfl⟩
        · exact ⟨[], l', 0, rfl, Nat.le_refl _, Nat.zero_le _, Nat.zero_le _,
            (UInt16.add_zero _).symm⟩
        · exact ⟨[], _, 1, rfl, Nat.zero_le _, Nat.le_refl _, by omega, rfl⟩
      | some c =>
        have hbehind := Loop.behind_round hkeep hr
        obtain ⟨cs, l'', n, hdrain, hlo, hhi, hn, hlast⟩ := ih l' (hkeep.round hr) (by omega)
        refine ⟨c :: cs, l'', n + 1, ?_, ?_, ?_, by omega, ?_⟩
        · unfold drain
          rw [hr]
          dsimp only
          rw [hdrain]
          rfl
        · rw [length_cons]
          omega
        · rw [length_cons]
          omega
        · rw [hlast, round_lastAvailIdx hr, UInt16.ofNat_add, UInt16.add_assoc,
            UInt16.add_comm 1]
          rfl

/-! ## The published entries -/

def OffRings (service : Service δ) (l : Loop δ) : Prop :=
  ∀ l' l'' chain, Reaches service l l' → Devices.round service l' = (some chain, l'') →
    ∃ W, GuestRam.ChangesIn W l'.mem l''.mem ∧ ∀ x ∈ l.vq.readSet, x ∉ W

/-- The `j`-th of the entries on offer: its chain, if it is well formed. -/
def Loop.entry (l : Loop δ) (j : Nat) : Option DescChain :=
  (l.mem.readU16 (l.vq.availSlotAddr ((l.vq.lastAvailIdx + UInt16.ofNat j) % l.vq.size))).bind
    (l.vq.resolve l.mem)

/-- The available ring is there to be read. -/
structure Loop.Readable (l : Loop δ) : Prop where
  size : l.vq.size ≠ 0
  slots : ∀ slot < l.vq.size, (l.mem.readU16 (l.vq.availSlotAddr slot)).isSome = true

def Loop.wellFormed (l : Loop δ) : List DescChain := (List.range l.behind).filterMap l.entry

theorem OffRings.round (h : OffRings service l) (hr : Devices.round service l = (some chain, l')) :
    OffRings service l' := by
  intro l₁ l₂ c hreach hr'
  obtain ⟨-, -, rfl⟩ := round_eq_some hr
  have hset : (serve service l l.vq.advance chain).vq.readSet = l.vq.readSet := by
    rw [serve_vq]
    rfl
  rw [hset]
  exact h _ _ _ (Reaches.trans (.round .refl hr) hreach) hr'

theorem OffRings.keeps (h : OffRings service l) : KeepsAvailIdx service l := by
  intro l₁ l₂ c hreach hr
  have hvq : ∀ {l₁}, Reaches service l l₁ →
      l₁.vq.availIdxAddr = l.vq.availIdxAddr := by
    intro l₁ hreach
    induction hreach with
    | refl => rfl
    | round _ hr ih =>
      obtain ⟨-, -, rfl⟩ := round_eq_some hr
      rw [serve_vq]
      exact ih
  obtain ⟨W, hc, hW⟩ := h _ _ _ hreach hr
  rw [hvq hreach, hvq (.round hreach hr)]
  exact Virtqueue.readU16_availIdx_congr hc hW

theorem Loop.round_entry (h : OffRings service l) (hl : l.Readable)
    (hr : Devices.round service l = (some chain, l')) :
    l'.Readable ∧ ∀ j, l'.entry j = l.entry (j + 1) := by
  obtain ⟨W, hc, hW⟩ := h _ _ _ .refl hr
  obtain ⟨-, -, hl'⟩ := round_eq_some hr
  have hvq : l'.vq = { l.vq.advance with usedIdx := l'.vq.usedIdx } := by
    rw [hl']
    exact serve_vq service l l.vq.advance chain
  generalize l'.vq.usedIdx = u at hvq
  refine ⟨⟨?_, ?_⟩, fun j => ?_⟩
  · rw [hvq]
    exact hl.size
  · rw [hvq]
    intro slot hs
    have hsame := Virtqueue.readU16_availSlot_congr hc hW hs
    exact (congrArg Option.isSome hsame).trans (hl.slots slot hs)
  · have hslot := Virtqueue.slot_lt hl.size (l.vq.lastAvailIdx + 1 + UInt16.ofNat j)
    have hnext : l.vq.lastAvailIdx + UInt16.ofNat (j + 1) =
        l.vq.lastAvailIdx + 1 + UInt16.ofNat j := by
      rw [UInt16.ofNat_add, UInt16.add_assoc, UInt16.add_comm 1]
      rfl
    have hread := Virtqueue.readU16_availSlot_congr hc hW hslot
    have hwalk : ∀ head, l'.vq.resolve l'.mem head = l.vq.resolve l.mem head := by
      intro head
      rw [← Virtqueue.resolve_congr hc hW head]
      exact Virtqueue.resolve_same (by rw [hvq]; rfl) (by rw [hvq]; rfl) head
    unfold Loop.entry
    rw [hnext, ← hread, funext hwalk, hvq]
    rfl

theorem Loop.pending_of_behind (hl : l.Readable) (hpos : 0 < l.behind) :
    ∃ head, l.vq.Pending l.mem head ∧ l.vq.resolve l.mem head = l.entry 0 := by
  obtain ⟨head, hhead⟩ := isSome_iff_exists.mp
    (hl.slots _ (Virtqueue.slot_lt hl.size l.vq.lastAvailIdx))
  refine ⟨head, ⟨hl.size, ?_, hhead⟩, ?_⟩
  · unfold Loop.behind at hpos
    split at hpos
    · omega
    rename_i i hi
    refine ⟨i, hi, ?_⟩
    rintro rfl
    rw [UInt16.sub_self] at hpos
    exact absurd hpos (by decide)
  · unfold Loop.entry
    have hzero : l.vq.lastAvailIdx + UInt16.ofNat 0 = l.vq.lastAvailIdx := UInt16.add_zero _
    rw [hzero, hhead]
    rfl

/-- **The loop services the entries up to the first malformed one and takes that one, too.** -/
theorem drain_entries (h : OffRings service l) (hl : l.Readable) :
    ∃ cs l' n, drain service (2 ^ 16) l = some (cs, l') ∧ cs.length ≤ n ∧ n ≤ l.behind ∧
      (∀ j < cs.length, l.entry j = cs[j]?) ∧
      (cs.length = l.behind ∧ n = l.behind ∨ l.entry cs.length = none ∧ n = cs.length + 1) ∧
      l'.vq.lastAvailIdx = l.vq.lastAvailIdx + UInt16.ofNat n := by
  suffices hk : ∀ k (l : Loop δ), OffRings service l → l.Readable → l.behind = k →
      ∃ cs l' n, drain service (k + 1) l = some (cs, l') ∧ cs.length ≤ n ∧ n ≤ k ∧
        (∀ j < cs.length, l.entry j = cs[j]?) ∧
        (cs.length = k ∧ n = k ∨ l.entry cs.length = none ∧ n = cs.length + 1) ∧
        l'.vq.lastAvailIdx = l.vq.lastAvailIdx + UInt16.ofNat n by
    obtain ⟨cs, l', n, hdrain, hrest⟩ := hk _ l h hl rfl
    exact ⟨cs, l', n, drain_mono l.behind_lt hdrain, hrest⟩
  intro k
  induction k with
  | zero =>
    intro l h hl hk
    have hidle : ∀ head, ¬ l.vq.Pending l.mem head := by
      intro head hp
      have := Loop.behind_pos hp
      omega
    have hr : Devices.round service l = (none, l) := by
      unfold Devices.round
      rw [Virtqueue.popAvail_of_idle hidle]
    refine ⟨[], l, 0, ?_, Nat.le_refl _, Nat.le_refl _, ?_, .inl ⟨rfl, rfl⟩,
      (UInt16.add_zero _).symm⟩
    · unfold drain
      rw [hr]
    · exact fun j hj => absurd hj (Nat.not_lt_zero j)
  | succ k ih =>
    intro l h hl hk
    obtain ⟨head, hpending, hentry⟩ := l.pending_of_behind hl (by omega)
    cases he : l.entry 0 with
    | none =>
      -- a malformed entry: taken, and the loop is over
      have hr : Devices.round service l = (none, { l with vq := l.vq.advance }) := by
        unfold Devices.round
        rw [Virtqueue.popAvail_of_pending hpending, hentry, he]
      refine ⟨[], { l with vq := l.vq.advance }, 1, ?_, Nat.zero_le _, by omega, ?_,
        Or.inr ⟨he, rfl⟩, rfl⟩
      · unfold drain
        rw [hr]
      · exact fun j hj => absurd hj (Nat.not_lt_zero j)
    | some c =>
      have hr : Devices.round service l = (some c, serve service l l.vq.advance c) := by
        unfold Devices.round
        rw [Virtqueue.popAvail_of_pending hpending, hentry, he]
      have hbehind := Loop.behind_round h.keeps hr
      obtain ⟨hl', hnext⟩ := Loop.round_entry h hl hr
      obtain ⟨cs, l'', n, hdrain, hlo, hn, hcs, hend, hlast⟩ := ih _ (h.round hr) hl' (by omega)
      refine ⟨c :: cs, l'', n + 1, ?_, ?_, by omega, ?_, ?_, ?_⟩
      · unfold drain
        rw [hr]
        dsimp only
        rw [hdrain]
        rfl
      · rw [length_cons]
        omega
      · intro j hj
        cases j with
        | zero => exact he
        | succ j =>
          rw [← hnext j, getElem?_cons_succ]
          exact hcs j (by rw [length_cons] at hj; omega)
      · rw [length_cons, ← hnext]
        rcases hend with ⟨hall, hn'⟩ | ⟨hbad, hn'⟩
        · exact .inl ⟨by omega, by omega⟩
        · exact .inr ⟨hbad, by omega⟩
      · rw [hlast, round_lastAvailIdx hr, UInt16.ofNat_add, UInt16.add_assoc, UInt16.add_comm 1]
        rfl

theorem filterMap_range_eq {α : Type} {f : Nat → Option α} {cs : List α} {n : Nat}
    (hle : cs.length ≤ n) (hin : ∀ j < cs.length, f j = cs[j]?)
    (hout : ∀ j, cs.length ≤ j → j < n → f j = none) : (range n).filterMap f = cs := by
  obtain ⟨m, rfl⟩ := Nat.exists_eq_add_of_le hle
  rw [range_add, filterMap_append]
  have htail : ((range m).map (cs.length + ·)).filterMap f = [] := by
    rw [filterMap_eq_nil_iff]
    intro j hj
    obtain ⟨i, hi, rfl⟩ := mem_map.mp hj
    exact hout _ (Nat.le_add_right _ _) (by rw [mem_range] at hi; omega)
  rw [htail, append_nil]
  clear hout htail hle
  induction cs using reverseRecOn with
  | nil => rfl
  | append_singleton cs x ih =>
    rw [length_append, length_singleton] at hin ⊢
    rw [range_succ, filterMap_append, ih, filterMap_cons,
      hin _ (Nat.lt_succ_self _), getElem?_concat_length]
    · rfl
    · intro j hj
      rw [hin j (by omega), getElem?_append_left hj]

/-- **All entries are taken and the well-formed ones serviced if and only if no entry but the
last is malformed.** -/
theorem drain_all_iff (h : OffRings service l) (hl : l.Readable) :
    (∃ cs l', drain service (2 ^ 16) l = some (cs, l') ∧
        l'.vq.lastAvailIdx = l.vq.lastAvailIdx + UInt16.ofNat l.behind ∧ cs = l.wellFormed) ↔
      ∀ j, j + 1 < l.behind → (l.entry j).isSome = true := by
  obtain ⟨cs, l', n, hdrain, hlo, hn, hcs, hend, hlast⟩ := drain_entries h hl
  have hbehind := l.behind_lt
  constructor
  · rintro ⟨cs', l'', hdrain', hlast', -⟩ j hj
    rw [hdrain, some.injEq, Prod.mk.injEq] at hdrain'
    obtain ⟨rfl, rfl⟩ := hdrain'
    have hnb : n = l.behind := by
      rw [hlast] at hlast'
      exact Ring.ofNat_inj hn (by omega) ((UInt16.add_right_inj _).mp hlast')
    have hlt : j < cs.length := by
      rcases hend with ⟨hall, -⟩ | ⟨-, hn'⟩ <;> omega
    rw [hcs j hlt, getElem?_eq_getElem hlt]
    rfl
  · intro hgood
    have hnb : n = l.behind := by
      rcases hend with ⟨-, hn'⟩ | ⟨hbad, hn'⟩
      · exact hn'
      by_contra hne
      have hsome := hgood cs.length (by omega)
      rw [hbad] at hsome
      cases hsome
    refine ⟨cs, l', hdrain, by rw [hlast, hnb], ?_⟩
    symm
    refine filterMap_range_eq (by omega) hcs fun j hge hlt => ?_
    rcases hend with ⟨hall, -⟩ | ⟨hbad, hn'⟩
    · omega
    · obtain rfl : j = cs.length := by omega
      exact hbad

end

end Ignition.Devices
