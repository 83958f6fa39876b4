import Ignition.Devices.VsockConn

/-!
# Frames on a byte stream

The client of socket_vmnet (`crates/vmnet/src/socket_vmnet.rs`). Every ethernet frame goes over a
unix stream behind its length, four bytes big-endian, in both directions. `reader_loop` takes the
stream apart again and sends the frames on; it stops at the end of the stream, at a length that no
frame has, or when nobody takes the frames any more.

A stream is the list of what its coming reads find. `read_exact` reads until its buffer is full,
goes on after an interruption, and fails at the end and on an error; what a read finds beyond the
buffer is left for the next one. Only the bytes matter, not how they are cut up (`readExact_spec`).
-/

namespace Ignition.Devices.SocketVmnet

open Ignition.Vmm List

def MAX_FRAME : Nat := 65536

def toBeBytes (n : Nat) : Bytes := (leBytes 4 n).reverse

def fromBeBytes (b : Bytes) : Nat := fromLeBytes b.reverse

/-- `write_frame`, with everything written so far. -/
def writeFrame (sent frame : Bytes) : Bytes := sent ++ toBeBytes frame.length ++ frame

/-- `read_exact` for some bytes, with what the stream has then. -/
def readExact : Nat → List ReadResult → Option (Bytes × List ReadResult)
  | 0, rs => some ([], rs)
  | n + 1, .data b :: rs =>
    if b = [] then none
    else if b.length ≤ n + 1 then (readExact (n + 1 - b.length) rs).map fun r => (b ++ r.1, r.2)
    else some (b.take (n + 1), .data (b.drop (n + 1)) :: rs)
  | n + 1, .interrupted :: rs => readExact (n + 1) rs
  | _ + 1, _ => none

/-- The loop of `reader_loop`, with the frames it sends on. The receiver is dropped after `gone` of
them, if at all. -/
def loop : Nat → Option Nat → List ReadResult → List Bytes
  | 0, _, _ => []
  | fuel + 1, gone, rs =>
    match readExact 4 rs with
    | none => []
    | some (lenb, rs) =>
      let n := fromBeBytes lenb
      if n = 0 ∨ MAX_FRAME < n then []
      else
        match readExact n rs with
        | none => []
        | some (buf, rs) => if gone = some 0 then [] else buf :: loop fuel (gone.map (· - 1)) rs

def incoming : List ReadResult → Bytes
  | .data b :: rs => if b = [] then [] else b ++ incoming rs
  | .interrupted :: rs => incoming rs
  | _ => []

def readerLoop (gone : Option Nat) (rs : List ReadResult) : List Bytes :=
  loop (incoming rs).length gone rs

/-! ## Lengths -/

theorem leBytes_fromLeBytes : ∀ b : Bytes, leBytes b.length (fromLeBytes b) = b
  | [] => rfl
  | x :: b => by
    have hx := x.toNat_lt
    have hdiv : (x.toNat + 256 * fromLeBytes b) / 256 = fromLeBytes b := by omega
    rw [length_cons, leBytes, fromLeBytes, hdiv, leBytes_fromLeBytes b]
    refine congrArg (· :: b) (UInt8.toNat_inj.mp ?_)
    rw [UInt8.toNat_ofNat']
    omega

theorem toBeBytes_fromBeBytes {b : Bytes} (h : b.length = 4) : toBeBytes (fromBeBytes b) = b := by
  unfold toBeBytes fromBeBytes
  rw [← h, ← length_reverse, leBytes_fromLeBytes, reverse_reverse]

theorem fromBeBytes_toBeBytes {n : Nat} (h : n ≤ MAX_FRAME) : fromBeBytes (toBeBytes n) = n := by
  unfold fromBeBytes toBeBytes
  rw [reverse_reverse, fromLeBytes_leBytes]
  exact Nat.mod_eq_of_lt (Nat.lt_of_le_of_lt h (by decide))

theorem length_toBeBytes (n : Nat) : (toBeBytes n).length = 4 := by
  rw [toBeBytes, length_reverse, length_leBytes]

/-! ## Reading -/

theorem readExact_spec : ∀ (n : Nat) (rs : List ReadResult),
    (n ≤ (incoming rs).length ∧ ∃ rs', readExact n rs = some ((incoming rs).take n, rs') ∧
      incoming rs' = (incoming rs).drop n) ∨ (incoming rs).length < n ∧ readExact n rs = none
  | 0, rs => .inl ⟨Nat.zero_le _, rs, by rw [readExact, take_zero], rfl⟩
  | n + 1, .interrupted :: rs => readExact_spec (n + 1) rs
  | n + 1, .data b :: rs => by
    rw [readExact, incoming]
    by_cases hb : b = []
    · rw [if_pos hb, if_pos hb]
      exact .inr ⟨Nat.succ_pos n, rfl⟩
    rw [if_neg hb, if_neg hb, length_append]
    split
    next hle =>
      rw [take_append, take_of_length_le hle, drop_append, drop_of_length_le hle, nil_append]
      rcases readExact_spec (n + 1 - b.length) rs with ⟨hlen, rs', heq, hrest⟩ | ⟨hlen, heq⟩
      · rw [heq]
        exact .inl ⟨by omega, rs', rfl, hrest⟩
      · rw [heq]
        exact .inr ⟨by omega, rfl⟩
    next hlt =>
      have hle : n + 1 ≤ b.length := by omega
      have hmore : b.drop (n + 1) ≠ [] := fun h => hlt (drop_eq_nil_iff.mp h)
      rw [take_append_of_le_length hle, drop_append_of_le_length hle]
      exact .inl ⟨by omega, _, rfl, if_neg hmore⟩
  | n + 1, [] | n + 1, .eof :: _ | n + 1, .wouldBlock :: _ | n + 1, .error :: _ =>
    .inr ⟨Nat.succ_pos n, rfl⟩

/-! ## Frames -/

def Framed (f : Bytes) : Prop := 1 ≤ f.length ∧ f.length ≤ MAX_FRAME

def Stops (rest : Bytes) : Prop :=
  rest.length < 4 ∨ fromBeBytes (rest.take 4) = 0 ∨ MAX_FRAME < fromBeBytes (rest.take 4) ∨
    rest.length < 4 + fromBeBytes (rest.take 4)

theorem foldl_writeFrame : ∀ (fs : List Bytes) (sent : Bytes),
    fs.foldl writeFrame sent = sent ++ fs.flatMap (writeFrame [])
  | [], sent => (append_nil sent).symm
  | f :: fs, sent => by
    rw [foldl_cons, foldl_writeFrame fs, flatMap_cons, writeFrame, writeFrame, append_assoc,
      append_assoc]
    rfl

theorem not_stops {f : Bytes} (h : Framed f) (tail : Bytes) :
    ¬ Stops (writeFrame [] f ++ tail) := by
  have hlen := length_toBeBytes f.length
  unfold Stops writeFrame
  rw [nil_append, append_assoc, take_left' hlen, fromBeBytes_toBeBytes h.2, length_append, length_append, hlen]
  have hpos := h.1
  have hmax := h.2
  omega

/-- **A round takes one frame off, or the bytes stop.** -/
theorem loop_succ (fuel : Nat) (gone : Option Nat) (rs : List ReadResult) :
    (Stops (incoming rs) ∧ loop (fuel + 1) gone rs = []) ∨
    ∃ f rs', Framed f ∧ incoming rs = writeFrame [] f ++ incoming rs' ∧
      loop (fuel + 1) gone rs =
        if gone = some 0 then [] else f :: loop fuel (gone.map (· - 1)) rs' := by
  rw [loop]
  rcases readExact_spec 4 rs with ⟨hlen, rs₁, hread, hrest⟩ | ⟨hlen, hread⟩
  · rw [hread]
    dsimp only
    split
    next hbad => exact .inl ⟨hbad.elim (.inr <| .inl ·) (.inr <| .inr <| .inl ·), rfl⟩
    rename_i hgood
    rcases readExact_spec (fromBeBytes ((incoming rs).take 4)) rs₁ with
      ⟨hlen₁, rs₂, hread₁, hrest₁⟩ | ⟨hlen₁, hread₁⟩
    · rw [hread₁]
      have hf : ((incoming rs₁).take (fromBeBytes ((incoming rs).take 4))).length =
          fromBeBytes ((incoming rs).take 4) := length_take_of_le hlen₁
      refine .inr ⟨_, rs₂, ⟨by omega, Nat.le_of_not_lt fun h => hgood (.inr (hf ▸ h))⟩, ?_, rfl⟩
      rw [writeFrame, nil_append, hf, toBeBytes_fromBeBytes (length_take_of_le hlen), hrest₁, append_assoc,
        take_append_drop, hrest, take_append_drop]
    · rw [hread₁]
      rw [hrest, length_drop] at hlen₁
      exact .inl ⟨.inr (.inr (.inr (by omega))), rfl⟩
  · rw [hread]
    exact .inl ⟨.inl hlen, rfl⟩

theorem loop_spec : ∀ {fuel : Nat} {rs : List ReadResult}, (incoming rs).length ≤ fuel →
    ∃ rest, incoming rs = (loop fuel none rs).flatMap (writeFrame []) ++ rest ∧
      (∀ f ∈ loop fuel none rs, Framed f) ∧ Stops rest
  | 0, rs, h => by
    have hnil : incoming rs = [] := eq_nil_of_length_eq_zero (Nat.le_zero.mp h)
    exact ⟨[], hnil, fun _ hf => absurd hf not_mem_nil, .inl (by decide)⟩
  | fuel + 1, rs, h => by
    rcases loop_succ fuel none rs with ⟨hstops, hloop⟩ | ⟨f, rs', hf, hbytes, hloop⟩
    · rw [hloop]
      exact ⟨_, rfl, fun _ hf => absurd hf not_mem_nil, hstops⟩
    · rw [if_neg (by simp), Option.map_none] at hloop
      have hlen := congrArg length hbytes
      rw [length_append, writeFrame, length_append, length_append, length_toBeBytes] at hlen
      have hfuel : (incoming rs').length ≤ fuel := by omega
      obtain ⟨rest, heq, hall, hstops⟩ := loop_spec hfuel
      rw [hloop, flatMap_cons]
      refine ⟨rest, ?_, forall_mem_cons.mpr ⟨hf, hall⟩, hstops⟩
      rw [append_assoc, ← heq]
      exact hbytes

theorem frames_unique : ∀ {fs gs : List Bytes} {rest : Bytes}, (∀ f ∈ fs, Framed f) →
    (∀ g ∈ gs, Framed g) → Stops rest →
    fs.flatMap (writeFrame []) = gs.flatMap (writeFrame []) ++ rest → gs = fs
  | [], [], _, _, _, _, _ => rfl
  | [], g :: gs, rest, _, hg, _, h => by
    have hlen := congrArg length h
    rw [flatMap_cons, length_append, length_append, writeFrame, length_append, length_append,
      length_toBeBytes, flatMap_nil, length_nil] at hlen
    omega
  | f :: fs, [], rest, hf, _, hstops, h => by
    rw [flatMap_cons, flatMap_nil, nil_append] at h
    exact absurd (h ▸ hstops) (not_stops (hf f mem_cons_self) _)
  | f :: fs, g :: gs, rest, hf, hg, hstops, h => by
    rw [flatMap_cons, flatMap_cons, writeFrame, writeFrame, nil_append, nil_append, append_assoc,
      append_assoc, append_assoc] at h
    obtain ⟨hlen, h⟩ := append_inj h (by rw [length_toBeBytes, length_toBeBytes])
    have hlen := congrArg fromBeBytes hlen
    rw [fromBeBytes_toBeBytes (hf f mem_cons_self).2,
      fromBeBytes_toBeBytes (hg g mem_cons_self).2] at hlen
    obtain ⟨rfl, htail⟩ := append_inj h hlen
    rw [frames_unique (fun f h => hf f (mem_cons_of_mem _ h)) (fun g h => hg g (mem_cons_of_mem _ h))
      hstops htail]

theorem loop_gone : ∀ (fuel k : Nat) (rs : List ReadResult),
    loop fuel (some k) rs = (loop fuel none rs).take k
  | 0, k, _ => take_nil.symm
  | fuel + 1, k, rs => by
    unfold loop
    cases readExact 4 rs with
    | none => exact take_nil.symm
    | some r =>
      dsimp only
      split
      · exact take_nil.symm
      cases readExact (fromBeBytes r.1) r.2 with
      | none => exact take_nil.symm
      | some r' =>
        cases k with
        | zero => rfl
        | succ k => exact congrArg (r'.1 :: ·) (loop_gone fuel k r'.2)

/-- **Framing round trip.** However the stream is cut into reads, frames that were written come out
as they were; and whatever the stream is, what comes out are the frames in front of the first bad
length or the end, all of them if the receiver stays. -/
theorem framing_round_trip (rs : List ReadResult) :
    (∀ fs, (∀ f ∈ fs, Framed f) → incoming rs = fs.foldl writeFrame [] →
      readerLoop none rs = fs) ∧
    (∃ rest, incoming rs = (readerLoop none rs).foldl writeFrame [] ++ rest ∧
      (∀ f ∈ readerLoop none rs, Framed f) ∧ Stops rest) ∧
    ∀ k, readerLoop (some k) rs = (readerLoop none rs).take k := by
  have hspec := loop_spec (Nat.le_refl (incoming rs).length)
  simp only [foldl_writeFrame, nil_append]
  refine ⟨fun fs hfs hbytes => ?_, hspec, fun k => loop_gone _ k rs⟩
  obtain ⟨rest, heq, hall, hstops⟩ := hspec
  exact frames_unique hfs hall hstops (hbytes.symm.trans heq)

end Ignition.Devices.SocketVmnet
