import Ignition.Vmm.Snapshot

/-!
# Rolling RAM back

`crates/vmm/src/reset.rs`: a checkpoint keeps a copy of guest RAM with the saved vCPU and
device state (`ResetPoint`), and a reset copies the listed pages of that image back over
live RAM, one page at a time (`rollback_pages`).

Over RAM of whole pages each round brings its page into line with the image and leaves
the others alone (`pageAt_rollbackPage`).
-/

namespace Ignition.Vmm

open Paged List

structure ResetPoint where
  pristine : Bytes
  vcpus : List VcpuCheckpoint
  devices : List DeviceRecord

/-- One round of `rollback_pages`: pages past the end of RAM are skipped, the last page
may be short. -/
def rollbackPage (pristine : Bytes) (page : Nat) (live : Bytes) (p : Nat) : Bytes :=
  if live.length ≤ p * page then live
  else copyInto live (p * page)
    (slice pristine (p * page) (min (p * page + page) live.length - p * page))

def rollbackPages (pristine : Bytes) (live : Bytes) (pages : List Nat) (page : Nat) : Bytes :=
  pages.foldl (rollbackPage pristine page) live

theorem length_rollbackPage (pristine live : Bytes) (page p : Nat) :
    (rollbackPage pristine page live p).length = live.length := by
  unfold rollbackPage
  split
  · rfl
  refine length_copyInto ?_
  unfold slice
  rw [length_take, length_drop]
  omega

theorem pageAt_rollbackPage {pristine live : Bytes} {page n : Nat} (hpg : 0 < page)
    (hlen : live.length = n * page) (hp : pristine.length = live.length) (p q : Nat) :
    pageAt page (rollbackPage pristine page live p) q =
      if q = p then pageAt page pristine q else pageAt page live q := by
  unfold rollbackPage
  by_cases hpn : p < n
  · have hfit : p * page + page ≤ live.length := by
      rw [hlen]
      exact page_fits hpn
    rw [if_neg (by omega), Nat.min_eq_left hfit, Nat.add_sub_cancel_left]
    have hsrc : (slice pristine (p * page) page).length = page := length_slice (by omega)
    by_cases hq : q = p
    · subst hq
      rw [if_pos rfl]
      exact pageAt_copyInto_self hsrc hfit
    · rw [if_neg hq]
      exact pageAt_copyInto_ne hsrc hfit hq
  · have hge : live.length ≤ p * page := by
      rw [hlen]
      exact Nat.mul_le_mul_right _ (Nat.not_lt.mp hpn)
    rw [if_pos hge]
    split
    next hq =>
      subst hq
      rw [pageAt_eq_nil hge, pageAt_eq_nil (hp ▸ hge)]
    · rfl

theorem length_rollbackPages (pristine : Bytes) (page : Nat) (ps : List Nat) : ∀ live : Bytes,
    (rollbackPages pristine live ps page).length = live.length := by
  induction ps with
  | nil => exact fun _ => rfl
  | cons p ps ih => exact fun live => (ih _).trans (length_rollbackPage pristine live page p)

theorem pageAt_rollbackPages {pristine : Bytes} {page n : Nat} (hpg : 0 < page) (q : Nat)
    (ps : List Nat) : ∀ {live : Bytes}, live.length = n * page → pristine.length = live.length →
    pageAt page (rollbackPages pristine live ps page) q =
      if q ∈ ps then pageAt page pristine q else pageAt page live q := by
  induction ps with
  | nil => exact fun _ _ => (if_neg not_mem_nil).symm
  | cons p ps ih =>
    intro live hlen hp
    have hlen' := length_rollbackPage pristine live page p
    have hrest := ih (hlen'.trans hlen) (hp.trans hlen'.symm)
    unfold rollbackPages at hrest ⊢
    rw [foldl_cons, hrest, pageAt_rollbackPage hpg hlen hp]
    by_cases hq : q = p
    · rw [if_pos hq, ite_self, if_pos (hq ▸ mem_cons_self)]
    · rw [if_neg hq]
      simp only [mem_cons, hq, false_or]

/-- **Rolling back the pages that differ gives the image.** -/
theorem rollbackPages_eq {pristine live : Bytes} {page n : Nat} (hpg : 0 < page)
    (hlen : live.length = n * page) (hp : pristine.length = live.length) {ps : List Nat}
    (h : DiffersIn page {p | p ∈ ps} pristine live) :
    rollbackPages pristine live ps page = pristine := by
  refine ext_pages hpg fun q => ?_
  rw [pageAt_rollbackPages hpg q ps hlen hp]
  split
  · rfl
  next hq => exact (h q hq).symm

end Ignition.Vmm
