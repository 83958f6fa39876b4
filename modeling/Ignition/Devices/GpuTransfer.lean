import Ignition.Devices.GpuSnapshot

/-!
# Transfers to the host

`read_backing` of `gpu.rs` walks over the segments of a backing with two cursors: where the segment
begins in the backing, and how much of the output is filled. They keep in step, because the output
is filled up to the segment's beginning whenever a segment is entered. So a read gives the bytes of
the segments, laid end to end, from its start on, and how the backing is cut into segments does not
matter (`readBacking_exact`).

`transfer_2d` reads a rectangle row by row. Row `y` of the host's buffer is read from the request's
offset plus the place of the row in the buffer. A driver names as the offset the place where the
rectangle begins in the backing. That place is then counted twice, and the rectangle gets pixels from
further down (`transfer_places_iff`). For a rectangle in the upper left corner the offset is zero,
and nothing is wrong.
-/

namespace Ignition.Devices

open Paged Ignition.Vmm List

/-! ## Reading from the middle of a backing -/

def Backed (mem : GuestRam) (sg : List (Nat × Nat)) : Prop :=
  ∀ seg ∈ sg, mem.contains seg.1 seg.2 = true

def contents (mem : GuestRam) (sg : List (Nat × Nat)) : Bytes :=
  sg.flatMap fun seg => (mem.readSlice seg.1 seg.2).getD []

section

variable {mem : GuestRam} {sg : List (Nat × Nat)} {gpa len : Nat}

theorem contents_cons (h : mem.contains gpa len = true) :
    contents mem ((gpa, len) :: sg) = slice mem.ram (gpa - mem.base) len ++ contents mem sg := by
  unfold contents
  rw [flatMap_cons, GuestRam.readSlice_of_contains h]
  rfl

theorem length_segment (h : mem.contains gpa len = true) :
    (slice mem.ram (gpa - mem.base) len).length = len := by
  obtain ⟨hle, hfit⟩ := GuestRam.contains_iff.mp h
  exact length_slice (by omega)

theorem getElem?_contents_cons (h : mem.contains gpa len = true) (i : Nat) :
    (contents mem ((gpa, len) :: sg))[i]? =
      if i < len then mem.ram[gpa - mem.base + i]? else (contents mem sg)[i - len]? := by
  rw [contents_cons h, getElem?_append, length_segment h]
  split
  next hi => rw [getElem?_slice, if_pos hi]
  · rfl

theorem length_contents : ∀ {sg : List (Nat × Nat)}, Backed mem sg →
    (contents mem sg).length = covered sg
  | [], _ => rfl
  | (gpa, len) :: sg, h => by
    have hseg := h _ mem_cons_self
    have htail := length_contents fun seg hmem => h seg (mem_cons_of_mem _ hmem)
    rw [contents_cons hseg, length_append, length_segment hseg, htail]
    rfl

theorem getElem?_chunk {n : Nat} (hn : 0 < n) (h : mem.contains gpa n = true) (k : Nat) :
    (chunk mem gpa n)[k]? = if k < n then mem.ram[gpa - mem.base + k]? else none := by
  obtain ⟨hle, hfit⟩ := GuestRam.contains_iff.mp h
  have hram := mem.bounded
  unfold chunk
  rw [if_pos (by omega), GuestRam.readSlice_of_contains h]
  exact getElem?_slice ..

/-- The bytes of one segment get to where they belong in the output. -/
theorem getElem?_fill {base start n : Nat} {out : Bytes} (hseg : mem.contains gpa len = true)
    (hroom : base - start < out.length) (hlen : start - base < len)
    (hn : n = min (out.length - (base - start)) (len - (start - base))) (i : Nat) :
    (copyInto out (base - start) (chunk mem (gpa + (start - base)) n))[i]? =
      out[i]?.map fun b => if base ≤ start + i ∧ start + i < base + len then
        (mem.ram[gpa - mem.base + (start + i - base)]?).getD b else b := by
  have hchunk := length_chunk mem (gpa + (start - base)) n
  obtain ⟨hle, hfit⟩ := GuestRam.contains_iff.mp hseg
  rw [getElem?_copyInto (by omega), hchunk]
  cases hi : out[i]? with
  | none =>
    have hge := getElem?_eq_none_iff.mp hi
    rw [if_neg (by omega)]
    rfl
  | some b =>
    have hlt := (List.getElem?_eq_some_iff.mp hi).1
    rw [Option.map_some]
    by_cases hin : base ≤ start + i ∧ start + i < base + len
    · have hidx : gpa + (start - base) - mem.base + (i - (base - start)) =
          gpa - mem.base + (start + i - base) := by omega
      rw [if_pos hin, if_pos (by omega),
        getElem?_chunk (by omega) (GuestRam.contains_mono hseg (by omega) (by omega)),
        if_pos (by omega), hidx, getElem?_eq_getElem (by omega)]
      rfl
    · rw [if_neg hin, if_neg (by omega)]

/-- After a segment the output is filled up to the beginning of the next one. -/
theorem readSegments_cons (sg : List (Nat × Nat)) {base start : Nat} {out : Bytes}
    (hseg : mem.contains gpa len = true)
    (hroom : base - start < out.length) (hcur : start + (base - start) < 2 ^ 64)
    (hbase : base ≤ 2 ^ 64 - 1) (hend : base + len ≤ 2 ^ 64 - 1 ∨ start + out.length ≤ 2 ^ 64 - 1) :
    ∃ out', out'.length = out.length ∧
      readSegments mem start ((gpa, len) :: sg) base (base - start) out =
        readSegments mem start sg (min (base + len) (2 ^ 64 - 1))
          (min (min (base + len) (2 ^ 64 - 1) - start) out'.length) out' ∧
      ∀ i, out'[i]? = out[i]?.map fun b => if base ≤ start + i ∧ start + i < base + len then
        (mem.ram[gpa - mem.base + (start + i - base)]?).getD b else b := by
  rw [readSegments, if_neg (by omega)]
  dsimp only
  by_cases htake : base ≤ start + (base - start) ∧
      start + (base - start) < min (base + len) (2 ^ 64 - 1)
  · have hinside : start + (base - start) - base = start - base := by omega
    rw [if_pos htake, hinside]
    generalize hn : min (out.length - (base - start)) (len - (start - base)) = n
    have hchunk := length_chunk mem (gpa + (start - base)) n
    have hkeep : (copyInto out (base - start) (chunk mem (gpa + (start - base)) n)).length =
        out.length := length_copyInto (by omega)
    have hnext : base - start + n = min (min (base + len) (2 ^ 64 - 1) - start) out.length := by
      omega
    refine ⟨_, hkeep, ?_, getElem?_fill hseg hroom (by omega) hn.symm⟩
    rw [hkeep, hnext]
    rfl
  · -- the read starts behind this segment, or the segment is empty
    have hnext : base - start = min (min (base + len) (2 ^ 64 - 1) - start) out.length := by omega
    refine ⟨out, rfl, by rw [if_neg htake, ← hnext], fun i => ?_⟩
    cases hi : out[i]? with
    | none => rfl
    | some b =>
      rw [Option.map_some, if_neg (by omega)]

theorem getElem?_readSegments (start : Nat) : ∀ (sg : List (Nat × Nat)) {base : Nat} {out : Bytes}
    (i : Nat), Backed mem sg → base ≤ 2 ^ 64 - 1 →
    base + covered sg ≤ 2 ^ 64 - 1 ∨ start + out.length ≤ 2 ^ 64 - 1 →
    (readSegments mem start sg base (min (base - start) out.length) out)[i]? =
      out[i]?.map fun b =>
        if base ≤ start + i then ((contents mem sg)[start + i - base]?).getD b else b
  | [], base, out, i, _, _, _ => by
    show out[i]? = out[i]?.map fun b => if base ≤ start + i then b else b
    simp only [ite_self, Option.map_id']
  | (gpa, len) :: sg, base, out, i, hin, hbase, hend => by
    have hseg : mem.contains gpa len = true := hin _ mem_cons_self
    have htail : Backed mem sg := fun seg hmem => hin seg (mem_cons_of_mem _ hmem)
    have hcovered : covered ((gpa, len) :: sg) = len + covered sg := rfl
    have hlength := length_contents hin
    rw [hcovered] at hend hlength
    by_cases hstop : out.length ≤ min (base - start) out.length ∨
        2 ^ 64 ≤ start + min (base - start) out.length
    · -- the output is full, or the rest of it lies past the end of any backing
      rw [readSegments, if_pos hstop]
      cases hi : out[i]? with
      | none => rfl
      | some b =>
        have hlt := (List.getElem?_eq_some_iff.mp hi).1
        rw [Option.map_some]
        split
        next hge =>
          rw [getElem?_eq_none (by omega)]
          rfl
        · rfl
    · have hoff : min (base - start) out.length = base - start := by omega
      rw [hoff]
      obtain ⟨out', hkeep, hstep, hout⟩ := readSegments_cons sg hseg
        (by omega : base - start < out.length) (by omega) hbase (by omega)
      rw [hstep, getElem?_readSegments start sg i htail (by omega) (by omega), hout]
      cases hi : out[i]? with
      | none => rfl
      | some b =>
        have hlt := (List.getElem?_eq_some_iff.mp hi).1
        simp only [Option.map_some]
        rw [getElem?_contents_cons hseg]
        refine congrArg some ?_
        by_cases hge : base ≤ start + i
        · rw [if_pos hge]
          by_cases hwithin : start + i < base + len
          · rw [if_neg (by omega), if_pos ⟨hge, hwithin⟩, if_pos (by omega)]
          · have hidx : start + i - base - len =
                start + i - min (base + len) (2 ^ 64 - 1) := by omega
            rw [if_pos (by omega), if_neg (fun h => hwithin h.2), if_neg (by omega), hidx]
        · rw [if_neg (by omega), if_neg (fun h => hge h.1), if_neg hge]

theorem getElem?_readBacking (h : Backed mem sg) {start : Nat} {out : Bytes}
    (hend : covered sg < 2 ^ 64 ∨ start + out.length < 2 ^ 64) (i : Nat) :
    (readBacking sg mem start out)[i]? =
      out[i]?.map fun b => ((contents mem sg)[start + i]?).getD b := by
  have hloop := @getElem?_readSegments mem start sg 0 out i h (Nat.zero_le _) (by omega)
  rw [Nat.zero_sub, Nat.zero_min] at hloop
  unfold readBacking
  rw [hloop]
  simp only [Nat.zero_le, if_true, Nat.sub_zero]

theorem contents_append (sg sg' : List (Nat × Nat)) :
    contents mem (sg ++ sg') = contents mem sg ++ contents mem sg' := flatMap_append

theorem contents_cut {n k : Nat} (h : mem.contains gpa (n + k) = true) :
    contents mem ((gpa, n) :: (gpa + n, k) :: sg) = contents mem ((gpa, n + k) :: sg) := by
  obtain ⟨hle, -⟩ := GuestRam.contains_iff.mp h
  have hfirst := GuestRam.contains_mono h (Nat.le_refl gpa) (by omega : gpa + n ≤ gpa + (n + k))
  have hsecond := GuestRam.contains_mono h (Nat.le_add_right gpa n)
    (by omega : gpa + n + k ≤ gpa + (n + k))
  have hidx : gpa + n - mem.base = gpa - mem.base + n := by omega
  rw [contents_cons hfirst, contents_cons hsecond, contents_cons h, slice_add, append_assoc,
    hidx]

/-- **A read of the backing gives the bytes of the segments, end to end.** What lies past their end
stays as it was, and cutting a segment in two makes no difference. -/
theorem readBacking_exact (mem : GuestRam) (sg : List (Nat × Nat)) (start : Nat) (out : Bytes)
    (h : ∀ seg ∈ sg, mem.contains seg.1 seg.2 = true) (htotal : covered sg < 2 ^ 64) :
    (∀ i, (readBacking sg mem start out)[i]? =
        out[i]?.map fun b => ((contents mem sg)[start + i]?).getD b) ∧
      ∀ front gpa n k back, sg = front ++ (gpa, n + k) :: back →
        readBacking (front ++ (gpa, n) :: (gpa + n, k) :: back) mem start out =
          readBacking sg mem start out := by
  refine ⟨getElem?_readBacking h (.inl htotal), ?_⟩
  rintro front gpa n k back rfl
  have hseg : mem.contains gpa (n + k) = true :=
    h (gpa, n + k) (mem_append_right _ mem_cons_self)
  have hcut : Backed mem (front ++ (gpa, n) :: (gpa + n, k) :: back) := by
    intro seg hmem
    rcases mem_append.mp hmem with hfront | hrest
    · exact h seg (mem_append_left _ hfront)
    rcases mem_cons.mp hrest with rfl | hrest
    · exact GuestRam.contains_mono hseg (Nat.le_refl _) (by dsimp only; omega)
    · rcases mem_cons.mp hrest with rfl | hback
      · exact GuestRam.contains_mono hseg (Nat.le_add_right _ _) (by dsimp only; omega)
      · exact h seg (mem_append_right _ (mem_cons_of_mem _ hback))
  have hcovered : covered (front ++ (gpa, n) :: (gpa + n, k) :: back) =
      covered (front ++ (gpa, n + k) :: back) := by
    unfold covered
    simp only [map_append, map_cons, sum_append, sum_cons]
    omega
  apply ext_getElem?
  intro i
  rw [getElem?_readBacking hcut (.inl (hcovered ▸ htotal)),
    getElem?_readBacking h (.inl htotal), contents_append, contents_cut hseg, ← contents_append]

theorem readBacking_exact_cut :
    readBacking [(0x40000000, 2), (0x40000010, 1), (0x40000011, 3)]
        ⟨0x40000000, List.replicate 64 0, GuestRam.bounded_blank⟩ 1 [7, 7, 7, 7, 7, 7] =
      readBacking [(0x40000000, 2), (0x40000010, 4)]
        ⟨0x40000000, List.replicate 64 0, GuestRam.bounded_blank⟩ 1 [7, 7, 7, 7, 7, 7] :=
  (readBacking_exact ⟨0x40000000, replicate 64 0, GuestRam.bounded_blank⟩
    [(0x40000000, 2), (0x40000010, 4)] 1 [7, 7, 7, 7, 7, 7] (by decide) (by decide)).2
      [(0x40000000, 2)] 0x40000010 1 3 [] rfl

end

/-! ## Rectangles -/

structure Rect where
  x : Nat
  y : Nat
  width : Nat
  height : Nat

namespace Rect

/-- The pixel at `(x, y)` is in the rectangle. -/
def Has (rect : Rect) (x y : Nat) : Prop :=
  (rect.x ≤ x ∧ x < rect.x + rect.width) ∧ rect.y ≤ y ∧ y < rect.y + rect.height

instance (rect : Rect) (x y : Nat) : Decidable (rect.Has x y) :=
  inferInstanceAs (Decidable (_ ∧ _ ∧ _))

def ofBody (body : Bytes) : Rect := ⟨le32 body 0, le32 body 4, le32 body 8, le32 body 12⟩

end Rect

/-- Where a channel of the pixel at `(x, y)` stands in a buffer. -/
def channelAt (width x y c : Nat) : Nat := (y * width + x) * 4 + c

theorem channelAt_lt {width height x y c : Nat} (hx : x < width) (hy : y < height) (hc : c < 4) :
    channelAt width x y c < width * height * 4 := by
  have hrow : y * width + width ≤ height * width := by
    rw [← Nat.succ_mul]
    exact Nat.mul_le_mul_right width hy
  rw [Nat.mul_comm height] at hrow
  unfold channelAt
  omega

theorem channelAt_inRow {width x y c left n row : Nat} (hx : x < width) (hc : c < 4)
    (hn : left + n ≤ width) :
    ((row * width + left) * 4 ≤ channelAt width x y c ∧
        channelAt width x y c < (row * width + left) * 4 + n * 4) ↔
      y = row ∧ left ≤ x ∧ x < left + n := by
  have hbelow : ∀ {a b : Nat}, a < b → a * width + width ≤ b * width := by
    intro a b hab
    rw [← Nat.succ_mul]
    exact Nat.mul_le_mul_right width hab
  unfold channelAt
  rcases Nat.lt_trichotomy y row with hlt | rfl | hgt
  · have := hbelow hlt
    omega
  · omega
  · have := hbelow hgt
    omega

namespace VirtioGpu

/-! ## A transfer -/

section

variable {mem : GuestRam} {r : Resource2D} {offset left n : Nat}

theorem getElem?_transferRow (h : Backed mem r.backing) {pixels : Bytes} {y : Nat}
    (hfit : (y * r.width + left) * 4 + n * 4 ≤ pixels.length)
    (hend : offset + pixels.length < 2 ^ 64) (j : Nat) :
    (transferRow mem r offset left n pixels y)[j]? =
      if (y * r.width + left) * 4 ≤ j ∧ j < (y * r.width + left) * 4 + n * 4 then
        pixels[j]?.map fun b => ((contents mem r.backing)[offset + j]?).getD b
      else pixels[j]? := by
  unfold transferRow
  generalize hat : (y * r.width + left) * 4 = place at hfit ⊢
  have hrow : (slice pixels place (n * 4)).length = n * 4 := length_slice hfit
  rw [if_neg (by omega), getElem?_copyInto (by rw [length_readBacking, hrow]; exact hfit),
    length_readBacking, hrow]
  split
  next hj =>
    have hidx : offset + place + (j - place) = offset + j := by omega
    have hback : place + (j - place) = j := by omega
    rw [getElem?_readBacking h (.inr (by rw [hrow]; omega)), getElem?_slice, if_pos (by omega),
      hidx, hback]
  · rfl

theorem getElem?_transferRows (h : Backed mem r.backing) (top : Nat)
    (hsize : r.pixels.length = r.width * r.height * 4) (hleft : left + n ≤ r.width)
    (hend : offset + r.pixels.length < 2 ^ 64) {x y c : Nat} (hx : x < r.width) (hc : c < 4) :
    ∀ rows, top + rows ≤ r.height →
    ((range' top rows).foldl (transferRow mem r offset left n) r.pixels)[
        channelAt r.width x y c]? =
      if Rect.Has ⟨left, top, n, rows⟩ x y then
        r.pixels[channelAt r.width x y c]?.map fun b =>
          ((contents mem r.backing)[offset + channelAt r.width x y c]?).getD b
      else r.pixels[channelAt r.width x y c]?
  | 0, _ => by
    rw [if_neg]
    · rfl
    · rintro ⟨-, hlo, hhi⟩
      exact absurd hhi (Nat.not_lt.mpr hlo)
  | rows + 1, hrows => by
    have hlength : ((range' top rows).foldl (transferRow mem r offset left n) r.pixels).length =
        r.pixels.length := by
      refine foldlRecOn (motive := fun pixels : Bytes => pixels.length = r.pixels.length)
        _ _ rfl fun pixels hlen _ _ => ?_
      rw [length_transferRow, hlen]
    have hlast : (top + rows) * r.width + r.width ≤ r.width * r.height := by
      rw [← Nat.succ_mul, Nat.mul_comm r.width]
      exact Nat.mul_le_mul_right r.width (by omega)
    rw [range'_1_concat, foldl_concat,
      getElem?_transferRow h (by rw [hlength, hsize]; omega) (by rw [hlength]; exact hend),
      getElem?_transferRows h top hsize hleft hend hx hc rows (by omega)]
    simp only [channelAt_inRow hx hc hleft]
    by_cases hrow : y = top + rows
    · -- the last row, which the others leave alone
      subst hrow
      rw [if_neg (fun hhas : Rect.Has ⟨left, top, n, rows⟩ x (top + rows) =>
        absurd hhas.2.2 (Nat.lt_irrefl _))]
      refine if_congr ?_ rfl rfl
      exact ⟨fun hcol => ⟨hcol.2, Nat.le_add_right .., Nat.lt_succ_self _⟩, fun hhas => ⟨rfl, hhas.1⟩⟩
    · rw [if_neg fun hcol => hrow hcol.1]
      refine if_congr (and_congr_right' (and_congr_right' ?_)) rfl rfl
      show y < top + rows ↔ y < top + (rows + 1)
      omega

end

section

variable {gpu : VirtioGpu} {mem : GuestRam} {body : Bytes} {r : Resource2D}

theorem transfer2d_resource (hsane : gpu.Sane) (hsized : gpu.Sized) (hlen : 32 ≤ body.length)
    (hr : gpu.resource (le32 body 24) = some r) (hin : Backed mem r.backing)
    (hx : (Rect.ofBody body).x + (Rect.ofBody body).width ≤ r.width)
    (hy : (Rect.ofBody body).y + (Rect.ofBody body).height ≤ r.height)
    (hoff : le64 body 16 < 2 ^ 40) (fence ctx : Nat) :
    ∃ pixels, (gpu.transfer2d body mem fence ctx).1.resource (le32 body 24) =
        some { r with pixels := pixels } ∧
      ∀ x < r.width, ∀ y < r.height, ∀ c < 4, pixels[channelAt r.width x y c]? =
        if (Rect.ofBody body).Has x y then
          r.pixels[channelAt r.width x y c]?.map fun b =>
            ((contents mem r.backing)[le64 body 16 + channelAt r.width x y c]?).getD b
        else r.pixels[channelAt r.width x y c]? := by
  have hpixels := (hsized.resource _ _ hr).2
  have hmax := hsane.size _ _ hr
  unfold transfer2d
  rw [if_neg (by omega)]
  dsimp only
  rw [hr]
  unfold Rect.ofBody at hx hy ⊢
  dsimp only at hx hy ⊢
  by_cases hempty : r.width ≤ le32 body 0 ∨ r.height ≤ le32 body 4
  · -- a rectangle on the edge has no pixel
    rw [if_pos hempty]
    refine ⟨r.pixels, hr, fun x hxw y hyh c _ => ?_⟩
    rw [if_neg]
    unfold Rect.Has
    dsimp only
    omega
  · rw [if_neg hempty]
    have hbound : r.width ≤ MAX_RESOURCE_BYTES ∧ r.height ≤ MAX_RESOURCE_BYTES := by
      have hw : r.width * 1 ≤ r.width * r.height := Nat.mul_le_mul_left _ (by omega)
      have hh : 1 * r.height ≤ r.width * r.height := Nat.mul_le_mul_right _ (by omega)
      omega
    have hcap : MAX_RESOURCE_BYTES = 268435456 := rfl
    have hxEnd : min (min (le32 body 0 + le32 body 8) (2 ^ 32 - 1)) r.width - le32 body 0 =
        le32 body 8 := by omega
    have hyEnd : min (min (le32 body 4 + le32 body 12) (2 ^ 32 - 1)) r.height - le32 body 4 =
        le32 body 12 := by omega
    rw [hxEnd, hyEnd]
    refine ⟨_, (resource_insert ..).trans (if_pos rfl), fun x hxw y _ c hc => ?_⟩
    exact getElem?_transferRows hin _ hpixels hx (by omega) hxw hc _ hy

def Placed (mem : GuestRam) (r : Resource2D) (rect : Rect) (pixels : Bytes) : Prop :=
  ∀ x < r.width, ∀ y < r.height, ∀ c < 4, pixels[channelAt r.width x y c]? =
    (if rect.Has x y then contents mem r.backing else r.pixels)[channelAt r.width x y c]?

/-- What stands in the backing as far as `offset` behind a pixel of the rectangle is that pixel
again; past the end of the backing, it is what the host has. -/
def Recurs (mem : GuestRam) (r : Resource2D) (rect : Rect) (offset : Nat) : Prop :=
  ∀ x y, rect.Has x y → ∀ c < 4,
    ((contents mem r.backing)[offset + channelAt r.width x y c]?).or
        r.pixels[channelAt r.width x y c]? =
      (contents mem r.backing)[channelAt r.width x y c]?

/-- **A transfer from where the rectangle begins in the backing gets the right pixels if and only if
they recur as far behind again.** In the upper left corner they do. Reading the whole backing, as a
flush does, gets the right pixels always. -/
theorem transfer_places_iff (gpu : VirtioGpu) (mem : GuestRam) (body : Bytes) (r : Resource2D)
    (fence ctx : Nat) (hsane : gpu.Sane) (hsized : gpu.Sized) (hlen : 32 ≤ body.length)
    (hr : gpu.resource (le32 body 24) = some r) (hin : Backed mem r.backing)
    (hcover : r.width * r.height * 4 ≤ covered r.backing)
    (hx : (Rect.ofBody body).x + (Rect.ofBody body).width ≤ r.width)
    (hy : (Rect.ofBody body).y + (Rect.ofBody body).height ≤ r.height)
    (hoff : le64 body 16 = ((Rect.ofBody body).y * r.width + (Rect.ofBody body).x) * 4) :
    ((∃ pixels, (gpu.transfer2d body mem fence ctx).1.resource (le32 body 24) =
          some { r with pixels := pixels } ∧ Placed mem r (Rect.ofBody body) pixels) ↔
        Recurs mem r (Rect.ofBody body) (le64 body 16)) ∧
      ((Rect.ofBody body).x = 0 → (Rect.ofBody body).y = 0 →
        Recurs mem r (Rect.ofBody body) (le64 body 16)) ∧
      ∀ x < r.width, ∀ y < r.height, ∀ c < 4,
        (readBacking r.backing mem 0 r.pixels)[channelAt r.width x y c]? =
          (contents mem r.backing)[channelAt r.width x y c]? := by
  have hpixels := (hsized.resource _ _ hr).2
  have hmax := hsane.size _ _ hr
  have hcap : MAX_RESOURCE_BYTES = 268435456 := rfl
  have hcontents := length_contents hin
  have hsmall : le64 body 16 < 2 ^ 40 := by
    have hrows : (Rect.ofBody body).y * r.width ≤ r.height * r.width :=
      Nat.mul_le_mul_right _ (by omega)
    have hleft : (Rect.ofBody body).x < 2 ^ 32 := le32_lt body 0
    rw [Nat.mul_comm r.height] at hrows
    omega
  -- the host has a byte for every channel
  have hold : ∀ {x y c}, x < r.width → y < r.height → c < 4 →
      ∃ b, r.pixels[channelAt r.width x y c]? = some b := fun hxw hyh hc =>
    ⟨_, getElem?_eq_getElem (hpixels ▸ channelAt_lt hxw hyh hc)⟩
  have hbounds : ∀ {x y}, (Rect.ofBody body).Has x y → x < r.width ∧ y < r.height := fun hhas =>
    ⟨Nat.lt_of_lt_of_le hhas.1.2 hx, Nat.lt_of_lt_of_le hhas.2.2 hy⟩
  obtain ⟨pixels, hafter, hbytes⟩ :=
    transfer2d_resource hsane hsized hlen hr hin hx hy hsmall fence ctx
  refine ⟨⟨?_, fun hrecurs => ⟨pixels, hafter, fun x hxw y hyh c hc => ?_⟩⟩, ?_, ?_⟩
  · rintro ⟨pixels', hafter', hplaced⟩ x y hhas c hc
    obtain ⟨hxw, hyh⟩ := hbounds hhas
    obtain ⟨b, hb⟩ := hold hxw hyh hc
    rw [hafter] at hafter'
    obtain rfl : pixels = pixels' := congrArg Resource2D.pixels (Option.some.inj hafter')
    have hright := hplaced x hxw y hyh c hc
    rw [hbytes x hxw y hyh c hc, if_pos hhas, if_pos hhas, hb] at hright
    rw [← hright, hb]
    exact Option.or_some
  · rw [hbytes x hxw y hyh c hc]
    by_cases hhas : (Rect.ofBody body).Has x y
    · obtain ⟨b, hb⟩ := hold hxw hyh hc
      have hright := hrecurs x y hhas c hc
      rw [if_pos hhas, if_pos hhas, ← hright, hb]
      exact Option.or_some.symm
    · rw [if_neg hhas, if_neg hhas]
  · intro hzero hzero' x y hhas c hc
    obtain ⟨hxw, hyh⟩ := hbounds hhas
    have hlt := channelAt_lt hxw hyh hc
    have hnone : le64 body 16 = 0 := by
      rw [hoff, hzero, hzero', Nat.zero_mul]
    rw [hnone, Nat.zero_add, getElem?_eq_getElem (by omega)]
    rfl
  · intro x hxw y hyh c hc
    have hlt := channelAt_lt hxw hyh hc
    obtain ⟨b, hb⟩ := hold hxw hyh hc
    rw [getElem?_readBacking hin (.inr (by omega)), hb, Nat.zero_add,
      getElem?_eq_getElem (by omega)]
    rfl

def transferBody (x y width height offset id : Nat) : Bytes :=
  leBytes 4 x ++ leBytes 4 y ++ leBytes 4 width ++ leBytes 4 height ++ leBytes 8 offset ++
    leBytes 4 id ++ leBytes 4 0

def twoByTwo : VirtioGpu :=
  let created := (new 1280 800).create2d
    (leBytes 4 1 ++ leBytes 4 1 ++ leBytes 4 2 ++ leBytes 4 2) 0 0
  (created.1.attachBacking
    (leBytes 4 1 ++ leBytes 4 1 ++ leBytes 8 0x40000000 ++ leBytes 4 16 ++ leBytes 4 0) 0 0).1

def numbered : GuestRam :=
  ((⟨0x40000000, List.replicate 64 0, GuestRam.bounded_blank⟩ : GuestRam).writeSlice 0x40000000
    [1, 2, 3, 4, 5, 6, 7, 8, 9, 10, 11, 12, 13, 14, 15, 16]).1

theorem twoByTwo_sane : twoByTwo.Sane :=
  ((sane_new 1280 800).effect (create2d_effect _ _ 0 0)).effect (attachBacking_effect _ _ 0 0)

theorem twoByTwo_sized : twoByTwo.Sized := by
  have hnew : (new 1280 800).Sized := by
    refine ⟨by decide, by decide, fun id r hr => ?_⟩
    cases hr
  exact (hnew.effect (create2d_effect _ _ 0 0)).effect (attachBacking_effect _ _ 0 0)

theorem twoByTwo_resource :
    twoByTwo.resource 1 = some ⟨1, 2, 2, [(0x40000000, 16)], replicate 16 0⟩ := by
  decide +kernel

theorem backed_numbered : Backed numbered [(0x40000000, 16)] := by
  intro seg hseg
  obtain rfl := mem_singleton.mp hseg
  decide +kernel

theorem second_row_misplaced : twoByTwo.Sane ∧ twoByTwo.Sized ∧
    twoByTwo.resource 1 = some ⟨1, 2, 2, [(0x40000000, 16)], List.replicate 16 0⟩ ∧
    Backed numbered [(0x40000000, 16)] ∧
    ¬ ∃ pixels, (twoByTwo.transfer2d (transferBody 0 1 2 1 8 1) numbered 0 0).1.resource 1 =
        some ⟨1, 2, 2, [(0x40000000, 16)], pixels⟩ ∧
      Placed numbered ⟨1, 2, 2, [(0x40000000, 16)], List.replicate 16 0⟩
        (Rect.ofBody (transferBody 0 1 2 1 8 1)) pixels := by
  refine ⟨twoByTwo_sane, twoByTwo_sized, twoByTwo_resource, backed_numbered, ?_⟩
  rintro ⟨pixels, hafter, hplaced⟩
  obtain rfl : replicate 16 0 = pixels :=
    congrArg Resource2D.pixels (Option.some.inj hafter)
  have hfirst := hplaced 0 (by decide) 1 (by decide) 0 (by decide)
  revert hfirst
  decide +kernel

theorem first_row_placed : ∃ pixels,
    (twoByTwo.transfer2d (transferBody 0 0 2 1 0 1) numbered 0 0).1.resource 1 =
        some ⟨1, 2, 2, [(0x40000000, 16)], pixels⟩ ∧
      Placed numbered ⟨1, 2, 2, [(0x40000000, 16)], List.replicate 16 0⟩
        (Rect.ofBody (transferBody 0 0 2 1 0 1)) pixels := by
  obtain ⟨hiff, hcorner, -⟩ := transfer_places_iff twoByTwo numbered (transferBody 0 0 2 1 0 1)
    ⟨1, 2, 2, [(0x40000000, 16)], replicate 16 0⟩ 0 0 twoByTwo_sane twoByTwo_sized
    (by decide +kernel) twoByTwo_resource backed_numbered (by decide) (by decide +kernel)
    (by decide +kernel) (by decide +kernel)
  exact hiff.mpr (hcorner (by decide +kernel) (by decide +kernel))

end

end VirtioGpu

end Ignition.Devices
