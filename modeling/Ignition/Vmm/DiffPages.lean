import Mathlib.Data.List.TakeWhile
import Ignition.Base.Pages
import Ignition.Vmm.Dirty

/-!
# Packing and overlaying dirty pages

The two halves of a diff layer's memory, from `crates/vmm/src/snapshot.rs`. A
layer stores the dirty pages back to back in `memory.bin` and their indices as
little-endian 64-bit words in `dirty.idx` (`write_diff_pages`); a restore reads
both files (`read_diff_pages`) and copies each page to its place (`apply_diff`).

The main result is `applyDiff_pack`: overlaying a packed layer on *any* image
that agrees with the captured RAM outside the packed pages gives exactly the
captured RAM. The order of the pages and repetitions among them do not matter.

The byte offset `p as usize * page` is 64-bit arithmetic, hence `pageOffset`. What a layer that was
not written by this program does to RAM is the last section.
-/

namespace Ignition.Vmm

open Paged List

abbrev Bytes := List UInt8

/-! ## Little-endian words -/

/-- The `n` low bytes of `p`, least significant first. -/
def leBytes : Nat → Nat → Bytes
  | 0, _ => []
  | n + 1, p => UInt8.ofNat p :: leBytes n (p / 256)

def toLeBytes (p : Nat) : Bytes := leBytes 8 p

def fromLeBytes : Bytes → Nat
  | [] => 0
  | b :: bs => b.toNat + 256 * fromLeBytes bs

theorem length_leBytes : ∀ n p, (leBytes n p).length = n
  | 0, _ => rfl
  | n + 1, p => by rw [leBytes, length_cons, length_leBytes n]

theorem fromLeBytes_leBytes : ∀ n p, fromLeBytes (leBytes n p) = p % 256 ^ n
  | 0, p => by rw [Nat.pow_zero, Nat.mod_one]; rfl
  | n + 1, p => by
    rw [leBytes, fromLeBytes, fromLeBytes_leBytes n, Nat.pow_succ', Nat.mod_mul]
    show (UInt8.ofNat p).toNat + _ = _
    rw [UInt8.toNat_ofNat']

variable {p : Nat} {ram : Bytes}

theorem fromLeBytes_toLeBytes (h : p < 2 ^ 64) : fromLeBytes (toLeBytes p) = p := by
  rw [toLeBytes, fromLeBytes_leBytes]
  exact Nat.mod_eq_of_lt h

/-- `chunks_exact(k)`: an incomplete last chunk is dropped. -/
def chunksExact (k : Nat) (b : Bytes) : List Bytes :=
  if 0 < k ∧ k ≤ b.length then b.take k :: chunksExact k (b.drop k) else []
termination_by b.length
decreasing_by
  rw [length_drop]
  omega

theorem chunksExact_flatMap {k : Nat} (hk : 0 < k) {f : Nat → Bytes} (hf : ∀ p, (f p).length = k) :
    ∀ ps : List Nat, chunksExact k (ps.flatMap f) = ps.map f
  | [] => by
    unfold chunksExact
    rw [if_neg]
    · rfl
    · intro h
      have hlen := h.2
      rw [flatMap_nil, length_nil] at hlen
      omega
  | p :: ps => by
    have hlen : k ≤ (f p ++ ps.flatMap f).length := by
      rw [length_append, hf]
      omega
    rw [flatMap_cons, map_cons]
    unfold chunksExact
    rw [if_pos ⟨hk, hlen⟩, take_left' (hf p), drop_left' (hf p),
      chunksExact_flatMap hk hf ps]

/-! ## A layer's two files -/

/-- `dirty.idx` for the given page list. -/
def idxBytes (dirty : List Nat) : Bytes := dirty.flatMap toLeBytes

/-- The page list of a `dirty.idx`. -/
def readIdx (raw : Bytes) : List Nat := (chunksExact 8 raw).map fromLeBytes

theorem readIdx_idxBytes {dirty : List Nat} (h : ∀ p ∈ dirty, p < 2 ^ 64) :
    readIdx (idxBytes dirty) = dirty := by
  unfold readIdx idxBytes
  rw [chunksExact_flatMap (f := toLeBytes) (by decide) (fun p => length_leBytes 8 p), map_map]
  exact (map_congr_left fun p hp => fromLeBytes_toLeBytes (h p hp)).trans (map_id _)

/-- `p as usize * page` -/
def pageOffset (p : Nat) : Nat := p * PAGE % 2 ^ 64

/-- The bounds guard of the pack loop: is page `p` whole and inside `ram`? -/
def pageInRam (ram : Bytes) (p : Nat) : Bool := decide (pageOffset p + PAGE ≤ ram.length)

/-- What the pack loop writes for page `p`. -/
def packPage (ram : Bytes) (p : Nat) : Bytes := slice ram (pageOffset p) PAGE

/-- The overlay loop of `apply_diff` from entry `i` on. -/
def applyLoop (packed : Bytes) : Nat → List Nat → Bytes → Except String Bytes
  | _, [], target => .ok target
  | i, p :: ps, target =>
    if pageOffset p + PAGE > target.length then .error "diff page out of range"
    else applyLoop packed (i + 1) ps (copyInto target (pageOffset p) (slice packed (i * PAGE) PAGE))

def applyDiff (target : Bytes) (idx : List Nat) (packed : Bytes) : Except String Bytes :=
  if packed.length ≠ idx.length * PAGE then .error "diff packed size mismatch"
  else applyLoop packed 0 idx target

/-! ## Overlaying what was packed -/

/-- A guest RAM: a whole number of pages, within the address space. -/
structure RamOk (ram : Bytes) : Prop where
  whole : ram.length % PAGE = 0
  fits : ram.length < 2 ^ 64

/-- Page `p` lies in `ram`. -/
def InRam (ram : Bytes) (p : Nat) : Prop := p * PAGE + PAGE ≤ ram.length

theorem pageOffset_eq (hr : RamOk ram) (hp : InRam ram p) :
    pageOffset p = p * PAGE := by
  have h := hr.fits
  unfold InRam at hp
  exact Nat.mod_eq_of_lt (by omega)

theorem InRam.lt (hr : RamOk ram) (hp : InRam ram p) : p < 2 ^ 64 := by
  have h := hr.fits
  have hmul : p ≤ p * PAGE := Nat.le_mul_of_pos_right p PAGE_pos
  unfold InRam at hp
  omega

theorem packPage_eq (hr : RamOk ram) (hp : InRam ram p) :
    packPage ram p = pageAt PAGE ram p := by
  unfold packPage pageAt
  rw [pageOffset_eq hr hp]

theorem pageAt_packed (hr : RamOk ram) : ∀ {dirty : List Nat},
    (∀ p ∈ dirty, InRam ram p) → ∀ (i p : Nat), dirty[i]? = some p →
    pageAt PAGE (dirty.flatMap (packPage ram)) i = pageAt PAGE ram p
  | [], _, i, p, h => by
    cases h
  | q :: dirty, hd, i, p, h => by
    have hq := hd q (mem_cons_self ..)
    have hlen : (packPage ram q).length = PAGE := by
      rw [packPage_eq hr hq]
      exact length_pageAt hq
    rw [flatMap_cons]
    cases i with
    | zero =>
      rw [getElem?_cons_zero, Option.some.injEq] at h
      rw [pageAt_append_zero hlen, packPage_eq hr hq, h]
    | succ i =>
      rw [pageAt_append_succ hlen]
      exact pageAt_packed hr (fun p hp => hd p (mem_cons_of_mem _ hp)) i p h

theorem length_packed (hr : RamOk ram) : ∀ {dirty : List Nat},
    (∀ p ∈ dirty, InRam ram p) → (dirty.flatMap (packPage ram)).length = dirty.length * PAGE
  | [], _ => by rw [flatMap_nil, length_nil, length_nil, Nat.zero_mul]
  | q :: dirty, hd => by
    have hq := hd q (mem_cons_self ..)
    rw [flatMap_cons, length_append, packPage_eq hr hq, length_pageAt hq,
      length_packed hr (fun p hp => hd p (mem_cons_of_mem _ hp)), length_cons,
      Nat.succ_mul, Nat.add_comm]

theorem applyLoop_spec {packed : Bytes} (hr : RamOk ram) : ∀ {ps : List Nat} {i : Nat}
    {target : Bytes} {D : Set Nat}, target.length = ram.length → (∀ p ∈ ps, InRam ram p) →
    (∀ k p, ps[k]? = some p → pageAt PAGE packed (i + k) = pageAt PAGE ram p) →
    DiffersIn PAGE D target ram →
    ∃ out, applyLoop packed i ps target = .ok out ∧ out.length = ram.length ∧
      DiffersIn PAGE {j | j ∈ D ∧ j ∉ ps} out ram
  | [], i, target, D, hlen, _, _, hd =>
    ⟨target, rfl, hlen, hd.mono fun j hj => ⟨hj, not_mem_nil⟩⟩
  | p :: ps, i, target, D, hlen, hin, hpk, hd => by
    have hp := hin p (mem_cons_self ..)
    have hpt : InRam target p := by unfold InRam; rw [hlen]; exact hp
    have hpage : slice packed (i * PAGE) PAGE = pageAt PAGE ram p := by
      have h0 := hpk 0 p (getElem?_cons_zero ..)
      exact h0
    unfold applyLoop
    rw [pageOffset_eq hr hp, if_neg (Nat.not_lt.mpr hpt), hpage]
    have hlen' : (copyInto target (p * PAGE) (pageAt PAGE ram p)).length = ram.length := by
      rw [length_copyInto (by rw [length_pageAt hp]; exact hpt), hlen]
    obtain ⟨out, hout, hol, hod⟩ := applyLoop_spec (i := i + 1) hr hlen'
      (fun q hq => hin q (mem_cons_of_mem _ hq))
      (fun k q hq => by
        have h1 := hpk (k + 1) q (by rw [getElem?_cons_succ]; exact hq)
        rw [← h1]
        congr 1
        omega)
      (hd.copyPage hpt hp)
    refine ⟨out, hout, hol, hod.mono fun j hj => ?_⟩
    exact ⟨hj.1.1, fun hm => (mem_cons.mp hm).elim hj.1.2 hj.2⟩

/-- **Overlaying a packed layer.** Whatever the image below, as long as it agrees with
the captured RAM outside the packed pages. -/
theorem applyDiff_pack {base : Bytes} (hr : RamOk ram) {dirty : List Nat}
    (hlen : base.length = ram.length) (hin : ∀ p ∈ dirty, InRam ram p)
    (hcov : DiffersIn PAGE {p | p ∈ dirty} base ram) :
    applyDiff base dirty (dirty.flatMap (packPage ram)) = .ok ram := by
  unfold applyDiff
  rw [if_neg (fun h => h (length_packed hr hin))]
  obtain ⟨out, hout, -, hd⟩ := applyLoop_spec (i := 0) hr hlen hin
    (fun k p hk => by rw [Nat.zero_add]; exact pageAt_packed hr hin k p hk) hcov
  rw [hout, hd.eq_of_empty PAGE_pos (fun j hj => hj.2 hj.1)]

/-! ## Layers as they come -/

inductive Ended where
  | ok
  | error
  | panic
  deriving DecidableEq

/-- The loop of `apply_diff` on the RAM it writes to. The end of the page is a `u64` too: for the
last page of the address space it is zero, which passes the guard, and the slice panics. -/
def applyInPlace (packed : Bytes) : Nat → List Nat → Bytes → Ended × Bytes
  | _, [], target => (.ok, target)
  | i, p :: ps, target =>
    if (pageOffset p + PAGE) % 2 ^ 64 > target.length then (.error, target)
    else if pageOffset p + PAGE > target.length then (.panic, target)
    else
      applyInPlace packed (i + 1) ps
        (copyInto target (pageOffset p) (slice packed (i * PAGE) PAGE))

/-- `read_diff_pages` and `apply_diff`, with the RAM they leave. -/
def overlayLayer (raw packed target : Bytes) : Ended × Bytes :=
  if packed.length ≠ (readIdx raw).length * PAGE then (.error, target)
  else applyInPlace packed 0 (readIdx raw) target

/-- RAM with the pages replaced in order. -/
def overlaid (packed : Bytes) : Nat → List Nat → Bytes → Bytes
  | _, [], target => target
  | i, p :: ps, target =>
    overlaid packed (i + 1) ps (copyInto target (pageOffset p) (slice packed (i * PAGE) PAGE))

/-- `dirty.idx` is a whole number of indices, there is a page for each, and each is in RAM. -/
def WellFormed (raw packed target : Bytes) : Prop :=
  raw.length % 8 = 0 ∧ packed.length = (readIdx raw).length * PAGE ∧
    ∀ p ∈ readIdx raw, InRam target p

theorem pageInRam_of_inRam {target : Bytes} (hfits : target.length < 2 ^ 64) (h : InRam target p) :
    pageInRam target p = true := by
  unfold InRam at h
  unfold pageInRam pageOffset
  rw [Nat.mod_eq_of_lt (by omega)]
  exact decide_eq_true h

theorem applyInPlace_eq {packed : Bytes} : ∀ (ps : List Nat) {i : Nat} {target : Bytes},
    target.length < 2 ^ 64 →
    ((applyInPlace packed i ps target).1 = .ok ↔ ∀ p ∈ ps, pageInRam target p = true) ∧
      (applyInPlace packed i ps target).2 =
        overlaid packed i (ps.takeWhile (pageInRam target)) target
  | [], _, _, _ => ⟨⟨fun _ p hp => absurd hp not_mem_nil, fun _ => rfl⟩, rfl⟩
  | p :: ps, i, target, hfits => by
    unfold applyInPlace
    by_cases hp : pageInRam target p = true
    · have hle := of_decide_eq_true hp
      have hlen : (copyInto target (pageOffset p) (slice packed (i * PAGE) PAGE)).length =
          target.length :=
        length_copyInto (Nat.le_trans (Nat.add_le_add_left (length_take_le ..) _) hle)
      have hsame : pageInRam (copyInto target (pageOffset p) (slice packed (i * PAGE) PAGE)) =
          pageInRam target := by
        funext q
        rw [pageInRam, hlen, pageInRam]
      obtain ⟨hok, hram⟩ := applyInPlace_eq ps (i := i + 1) (hlen.symm ▸ hfits)
      rw [hsame] at hok hram
      rw [Nat.mod_eq_of_lt (by omega), if_neg (Nat.not_lt.mpr hle), if_neg (Nat.not_lt.mpr hle), hok,
        hram, takeWhile_cons_of_pos hp]
      refine ⟨?_, rfl⟩
      rw [forall_mem_cons, and_iff_right hp]
    · have hgt : pageOffset p + PAGE > target.length := Nat.not_le.mp (of_decide_eq_false
        (eq_false_of_ne_true hp))
      have hstop : ¬ ∀ q ∈ p :: ps, pageInRam target q = true := fun h =>
        hp (h p mem_cons_self)
      rw [if_pos hgt, takeWhile_cons_of_neg hp]
      split <;> exact ⟨⟨fun h => (nomatch h), fun h => absurd h hstop⟩, rfl⟩

/-- **A layer is validated before use exactly in these cases**: the packed pages do not match the
indices; the layer is well formed; or an index is refused and the pages before it were the same in
RAM. -/
theorem overlayLayer_exact_iff {raw packed target : Bytes} (hfits : target.length < 2 ^ 64) :
    (((overlayLayer raw packed target).1 = .ok ↔ WellFormed raw packed target) ∧
      ((overlayLayer raw packed target).1 = .ok →
        (overlayLayer raw packed target).2 = overlaid packed 0 (readIdx raw) target) ∧
      ((overlayLayer raw packed target).1 ≠ .ok → (overlayLayer raw packed target).2 = target)) ↔
    packed.length ≠ (readIdx raw).length * PAGE ∨ WellFormed raw packed target ∨
      (∃ p ∈ readIdx raw, pageInRam target p = false) ∧
        overlaid packed 0 ((readIdx raw).takeWhile (pageInRam target)) target = target := by
  unfold overlayLayer
  split
  next hsize =>
    exact ⟨fun _ => .inl hsize, fun _ => ⟨⟨fun h => (nomatch h), fun h => absurd h.2.1 hsize⟩,
      fun h => (nomatch h), fun _ => rfl⟩⟩
  rename_i hsize
  obtain ⟨hok, hram⟩ := @applyInPlace_eq packed (readIdx raw) 0 target hfits
  rw [ne_eq, hok, hram, or_iff_right hsize]
  by_cases hall : ∀ p ∈ readIdx raw, pageInRam target p = true
  · rw [takeWhile_eq_self_iff.mpr hall]
    refine ⟨fun h => .inl (h.1.mp hall), fun h => ⟨⟨fun _ => ?_, fun _ => hall⟩, fun _ => rfl,
      fun hno => absurd hall hno⟩⟩
    rcases h with h | ⟨⟨p, hp, hout⟩, -⟩
    · exact h
    · rw [hall p hp] at hout
      cases hout
  · have hbad : ¬ WellFormed raw packed target := fun h =>
      hall fun p hp => pageInRam_of_inRam hfits (h.2.2 p hp)
    refine ⟨fun h => .inr ⟨?_, h.2.2 hall⟩, fun h => ⟨⟨fun h => absurd h hall,
      fun h => absurd h hbad⟩, fun h => absurd h hall, fun _ => (h.resolve_left hbad).2⟩⟩
    obtain ⟨p, hp⟩ := not_forall.mp hall
    obtain ⟨hmem, hout⟩ := Classical.not_imp.mp hp
    exact ⟨p, hmem, eq_false_of_ne_true hout⟩

theorem overlayLayer_page :
    (overlayLayer (idxBytes [0]) (List.replicate PAGE 1) (List.replicate PAGE 0)).1 = .ok := by
  have hlen : ∀ b : UInt8, (replicate PAGE b).length = PAGE := fun _ => length_replicate
  have hidx : readIdx (idxBytes [0]) = [0] := readIdx_idxBytes (by decide)
  have hwf : WellFormed (idxBytes [0]) (replicate PAGE 1) (replicate PAGE 0) := by
    refine ⟨rfl, ?_, fun p hp => ?_⟩
    · rw [hidx, hlen]
      rfl
    · rw [hidx, mem_singleton] at hp
      rw [hp, InRam, hlen]
      decide
  exact ((overlayLayer_exact_iff (by rw [hlen]; decide)).mpr (.inr (.inl hwf))).1.mpr hwf

theorem refused_layer_written :
    (overlayLayer (idxBytes [0, 1]) (List.replicate (2 * PAGE) 1) (List.replicate PAGE 0)).1 ≠ .ok ∧
    (overlayLayer (idxBytes [0, 1]) (List.replicate (2 * PAGE) 1) (List.replicate PAGE 0)).2[0]? =
      some 1 ∧
    (overlayLayer [7] [] []).1 = .ok := by
  decide +kernel

end Ignition.Vmm
