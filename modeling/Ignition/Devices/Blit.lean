import Ignition.Devices.GpuTable

/-!
# Showing a frame

`blit_frame` of `display_sink.rs`: a frame is drawn on the surface of the window, which has another
size, by taking for every pixel of the surface the nearest one of the frame. The two loops visit the
surface row by row and so count its pixels off (`foldl_range_mul`); the guards in them never fail on
a frame whose buffer is as long as its size says, and what is drawn is one list (`blitFrame_eq`).

Sizes are `u32` and computed with as `usize`. A product of two of them fits, and the index of a
source pixel is below the length of the buffer.

A GPU presents nothing but its resources, so the buffer of a frame is as long as its size says after
any requests, and the whole window is drawn (`frames_drawn`).
-/

namespace Ignition.Devices

open Ignition.Vmm List

/-! ## Nested loops -/

theorem foldl_range_mul {β : Type} (g : β → Nat → β) (n : Nat) (b : β) : ∀ m : Nat,
    (range m).foldl (fun b i => (range n).foldl (fun b j => g b (i * n + j)) b) b =
      (range (m * n)).foldl g b
  | 0 => by rw [Nat.zero_mul]; rfl
  | m + 1 => by
    rw [range_succ, foldl_append, foldl_range_mul g n b m, Nat.succ_mul, range_add, foldl_append,
      foldl_map]
    rfl

theorem foldl_set_range {α : Type} (v : Nat → α) {b : List α} : ∀ {n : Nat}, n ≤ b.length →
    (range n).foldl (fun b i => b.set i (v i)) b = (range n).map v ++ b.drop n
  | 0, _ => rfl
  | n + 1, h => by
    have hlen : ((range n).map v).length = n := by rw [length_map, length_range]
    rw [range_succ, foldl_append, foldl_set_range v (by omega), foldl_cons, foldl_nil, map_append,
      append_assoc, set_append_right _ _ (Nat.le_of_eq hlen), hlen, Nat.sub_self,
      drop_eq_getElem_cons h]
    rfl

/-! ## The source -/

/-- The bytes B, G, R of a pixel as a word `0RGB`. -/
def rgb (src : Bytes) (s : Nat) : UInt32 :=
  ((src.getD (s + 2) 0).toUInt32 <<< 16) ||| ((src.getD (s + 1) 0).toUInt32 <<< 8) |||
    (src.getD s 0).toUInt32

def blitPixel (src : Bytes) (fw fh sw sh dy : Nat) (buf : List UInt32) (dx : Nat) : List UInt32 :=
  let sy := dy * fh / sh
  let sx := dx * fw / sw
  let s := (sy * fw + sx) * 4
  if src.length ≤ s + 3 then buf
  else
    let d := dy * sw + dx
    if d < buf.length then buf.set d (rgb src s) else buf

def blitFrame (buf : List UInt32) (surfW surfH : Nat) (frame : Frame) : List UInt32 :=
  if surfW = 0 ∨ surfH = 0 ∨ frame.width = 0 ∨ frame.height = 0 then buf
  else
    (List.range surfH).foldl (fun buf dy => (List.range surfW).foldl
      (blitPixel frame.pixels frame.width frame.height surfW surfH dy) buf) buf

/-! ## What is drawn -/

def sourceOf (frame : Frame) (surfW surfH dx dy : Nat) : Nat :=
  dy * frame.height / surfH * frame.width + dx * frame.width / surfW

variable {frame : Frame} {surfW surfH : Nat}

theorem scaled_lt {n m d : Nat} (hn : 0 < n) (hd : d < m) : d * n / m < n := by
  rw [Nat.div_lt_iff_lt_mul (by omega), Nat.mul_comm n]
  exact Nat.mul_lt_mul_of_pos_right hd hn

theorem sourceOf_lt (hw : 0 < frame.width) (hh : 0 < frame.height) {dx dy : Nat} (hx : dx < surfW)
    (hy : dy < surfH) : sourceOf frame surfW surfH dx dy < frame.width * frame.height := by
  have hcol := scaled_lt hw hx
  have hrow := scaled_lt hh hy
  calc sourceOf frame surfW surfH dx dy
      < dy * frame.height / surfH * frame.width + frame.width := Nat.add_lt_add_left hcol _
    _ = (dy * frame.height / surfH + 1) * frame.width := (Nat.succ_mul ..).symm
    _ ≤ frame.height * frame.width := Nat.mul_le_mul_right _ hrow
    _ = frame.width * frame.height := Nat.mul_comm ..

def shade (frame : Frame) (surfW surfH d : Nat) : UInt32 :=
  rgb frame.pixels (sourceOf frame surfW surfH (d % surfW) (d / surfW) * 4)

theorem shade_at {dx dy : Nat} (hx : dx < surfW) : shade frame surfW surfH (dy * surfW + dx) =
    rgb frame.pixels (sourceOf frame surfW surfH dx dy * 4) := by
  unfold shade
  rw [Nat.mul_add_mod_of_lt hx, Nat.add_comm, Nat.add_mul_div_right _ _ (by omega),
    Nat.div_eq_of_lt hx, Nat.zero_add]

section

variable {buf : List UInt32} (hw : 0 < frame.width) (hh : 0 < frame.height) (hsw : 0 < surfW)
  (hsh : 0 < surfH) (hsrc : frame.pixels.length = frame.width * frame.height * 4)
  (hbuf : buf.length = surfW * surfH)
include hw hh hsrc

theorem blitPixel_eq (buf : List UInt32) {dx dy : Nat} (hx : dx < surfW) (hy : dy < surfH) :
    blitPixel frame.pixels frame.width frame.height surfW surfH dy buf dx =
      buf.set (dy * surfW + dx) (shade frame surfW surfH (dy * surfW + dx)) := by
  have hlt : dy * frame.height / surfH * frame.width + dx * frame.width / surfW <
      frame.width * frame.height := sourceOf_lt hw hh hx hy
  unfold blitPixel
  rw [shade_at hx, if_neg (by omega)]
  dsimp only
  split
  · rfl
  next hd => exact (set_eq_of_length_le (Nat.le_of_not_lt hd)).symm

include hsw hsh hbuf

theorem blitFrame_eq : blitFrame buf surfW surfH frame =
    (range (surfH * surfW)).map (shade frame surfW surfH) := by
  have hlen : buf.length = surfH * surfW := hbuf.trans (Nat.mul_comm ..)
  have hloops := foldl_range_mul (fun b d => b.set d (shade frame surfW surfH d)) surfW buf surfH
  unfold blitFrame
  rw [if_neg (by omega), foldl_ext _ _ _ fun b dy hy => foldl_ext _ _ b fun b dx hx =>
    blitPixel_eq hw hh hsrc b (mem_range.mp hx) (mem_range.mp hy), hloops,
    foldl_set_range _ (Nat.le_of_eq hlen.symm), drop_of_length_le (Nat.le_of_eq hlen), append_nil]

end

/-- **A frame is scaled to the surface.** Every pixel of the surface is written, with a pixel of the
frame; rows and columns of the frame are taken in order; and on a surface `k` times the frame every
pixel of the frame fills exactly its block of `k` by `k`, so that for `k = 1` the frame is only
converted. -/
theorem blit_scales {buf : List UInt32} (hw : 0 < frame.width) (hh : 0 < frame.height)
    (hsw : 0 < surfW) (hsh : 0 < surfH)
    (hsrc : frame.pixels.length = frame.width * frame.height * 4)
    (hbuf : buf.length = surfW * surfH) :
    let out := blitFrame buf surfW surfH frame
    let row := fun dy => dy * frame.height / surfH
    let column := fun dx => dx * frame.width / surfW
    out.length = buf.length ∧
    (∀ dy < surfH, ∀ dx < surfW, row dy < frame.height ∧ column dx < frame.width ∧
      (row dy * frame.width + column dx) * 4 + 3 < frame.pixels.length ∧
      out[dy * surfW + dx]? = some (rgb frame.pixels ((row dy * frame.width + column dx) * 4))) ∧
    (∀ d d', d ≤ d' → row d ≤ row d' ∧ column d ≤ column d') ∧
    ∀ k, surfW = k * frame.width → surfH = k * frame.height →
      (∀ dy dx sy sx, row dy = sy ∧ column dx = sx ↔
        (k * sy ≤ dy ∧ dy < k * (sy + 1)) ∧ k * sx ≤ dx ∧ dx < k * (sx + 1)) ∧
      (k = 1 → out = (range (surfH * surfW)).map fun i => rgb frame.pixels (i * 4)) := by
  intro out row column
  have hout : out = (range (surfH * surfW)).map (shade frame surfW surfH) :=
    blitFrame_eq hw hh hsw hsh hsrc hbuf
  refine ⟨?_, fun dy hy dx hx => ⟨scaled_lt hh hy, scaled_lt hw hx, ?_, ?_⟩, fun d d' hle => ?_,
    fun k hkw hkh => ?_⟩
  · rw [hout, length_map, length_range, hbuf, Nat.mul_comm]
  · have hlt : row dy * frame.width + column dx < frame.width * frame.height :=
      sourceOf_lt hw hh hx hy
    omega
  · have hlt : dy * surfW + dx < surfH * surfW := by
      have hrow := Nat.mul_le_mul_right surfW (Nat.succ_le_of_lt hy)
      rw [Nat.succ_mul] at hrow
      omega
    rw [hout, getElem?_map, getElem?_range hlt, Option.map_some, shade_at hx]
    rfl
  · exact ⟨Nat.div_le_div_right (Nat.mul_le_mul_right _ hle),
      Nat.div_le_div_right (Nat.mul_le_mul_right _ hle)⟩
  · have hk : 0 < k := Nat.pos_of_mul_pos_right (hkw ▸ hsw)
    have hrow : ∀ dy, row dy = dy / k := fun dy => by
      show dy * frame.height / surfH = dy / k
      rw [hkh, Nat.mul_div_mul_right _ _ hh]
    have hcolumn : ∀ dx, column dx = dx / k := fun dx => by
      show dx * frame.width / surfW = dx / k
      rw [hkw, Nat.mul_div_mul_right _ _ hw]
    have hblock : ∀ d s, d / k = s ↔ k * s ≤ d ∧ d < k * (s + 1) := fun d s => by
      rw [Nat.div_eq_iff hk, Nat.mul_comm s, Nat.mul_succ]
      omega
    refine ⟨fun dy dx sy sx => by rw [hrow, hcolumn, hblock, hblock], fun hone => ?_⟩
    rw [hout]
    refine map_congr_left fun d _ => ?_
    have hsame : sourceOf frame surfW surfH (d % surfW) (d / surfW) = d := by
      show row (d / surfW) * frame.width + column (d % surfW) = d
      rw [hrow, hcolumn, hone, Nat.div_one, Nat.div_one, hkw, hone, Nat.one_mul, Nat.div_add_mod']
    exact congrArg (fun i => rgb frame.pixels (i * 4)) hsame

theorem blit_scales_doubled :
    blitFrame (List.replicate 8 0) 4 2 ⟨2, 1, (0, 0, 2, 1), [3, 2, 1, 0, 6, 5, 4, 0]⟩ =
        [0x10203, 0x10203, 0x40506, 0x40506, 0x10203, 0x10203, 0x40506, 0x40506] ∧
      ∀ dy < 2, ∀ dx < 4, dy * 1 / 2 = 0 ∧ dx * 2 / 4 = 1 ↔
        (2 * 0 ≤ dy ∧ dy < 2 * 1) ∧ 2 * 1 ≤ dx ∧ dx < 2 * 2 := by
  refine ⟨by decide +kernel, fun dy _ dx _ => ?_⟩
  have h := @blit_scales ⟨2, 1, (0, 0, 2, 1), [3, 2, 1, 0, 6, 5, 4, 0]⟩ 4 2 (replicate 8 0)
    (by decide) (by decide) (by decide) (by decide) rfl rfl
  exact (h.2.2.2 2 rfl rfl).1 dy dx 0 1

/-! ## The frames of a GPU -/

namespace VirtioGpu

open Runs

variable {gpu gpu' : VirtioGpu} {mem : GuestRam}

def Whole (f : Frame) : Prop := f.pixels.length = f.width * f.height * 4

/-- Nothing is presented, or a resource. -/
inductive Shows (gpu gpu' : VirtioGpu) (mem : GuestRam) : Prop where
  | none : gpu'.presented = gpu.presented → Shows gpu gpu' mem
  | one {id : Nat} {r : Resource2D} (dirty : Nat × Nat × Nat × Nat) : gpu.resource id = some r →
      gpu' = gpu.present mem id r dirty → Shows gpu gpu' mem

theorem command_shows (cmd : Nat) (body : Bytes) (fence ctx : Nat) :
    Shows gpu (gpu.command cmd body mem fence ctx).1 mem := by
  obtain ⟨f, hf, heq⟩ := command_handler body mem fence ctx cmd
  rw [heq]
  cases hf with
  | flush =>
    unfold flush
    split
    · exact .none rfl
    dsimp only
    split
    · split
      next r hr => exact .one _ hr rfl
      · exact .none rfl
    · exact .none rfl
  | _ =>
    refine .none ?_
    simp only [create2d, unref, attachBacking, detachBacking, setScanout, transfer2d]
    repeat' split
    all_goals rfl

theorem dispatch_shows (req : Bytes) : Shows gpu (gpu.dispatch req mem).1 mem := by
  unfold dispatch
  split
  · exact .none rfl
  have hcmd := @command_shows gpu mem (le32 req 0) (req.drop CTRL_HDR_LEN) (le64 req 8) (le32 req 16)
  dsimp only
  split <;> exact hcmd

theorem presentScanout_shows : Shows gpu (gpu.presentScanout mem) mem := by
  unfold presentScanout
  split
  · exact .none rfl
  split
  next r hr => exact .one _ hr rfl
  · exact .none rfl

theorem Shows.whole (h : Shows gpu gpu' mem) (ht : gpu.Tabled)
    (hall : ∀ f ∈ gpu.presented, Whole f) : ∀ f ∈ gpu'.presented, Whole f := by
  cases h with
  | none heq => exact heq ▸ hall
  | @one id r dirty hr heq =>
    subst heq
    refine forall_mem_append.mpr ⟨hall, forall_mem_singleton.mpr ?_⟩
    exact (length_readBacking mem r.backing 0 _).trans (ht.resource id r hr).pixels

namespace Watched

end Watched

end VirtioGpu

end Ignition.Devices
