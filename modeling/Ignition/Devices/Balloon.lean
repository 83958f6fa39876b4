import Ignition.Base.Run
import Ignition.Devices.Service

/-!
# virtio-balloon

`Balloon` of `balloon.rs`. The guest posts the numbers of 4 KiB page frames it gives up, and the
device hands them back to the host with `madvise_free`. The host's pages are four times as large,
so a posted frame takes the other three of its host page with it.

The machine here follows what the guest has posted and what was released, over any sequence of
inflations and guest stores. A release is sound if every frame of the released page was posted
(`Sound`). The balloon does not ask for that. It holds in every run whose inflations complete
the host pages they touch and keep off the list they are read from (`released_posted`), and a
single frame breaks it (`one_frame_releases_four`).
-/

namespace Ignition.Devices

open Paged Ignition.Vmm Runs List

structure Balloon where
  numPages : UInt32
  actual : UInt32
  deriving DecidableEq

namespace Balloon

def new : Balloon := ⟨0, 0⟩

def configBytes (b : Balloon) : Bytes := leBytes 4 b.numPages.toNat ++ leBytes 4 b.actual.toNat

def configRead (b : Balloon) (offset : Nat) (data : Bytes) : Bytes :=
  serveConfig b.configBytes offset data

def configWrite (b : Balloon) (offset : Nat) (data : Bytes) : Balloon :=
  if offset = 4 ∧ data.length = 4 then { b with actual := UInt32.ofNat (fromLeBytes data) } else b

def release (mem : GuestRam) (ds : List Desc) : GuestRam :=
  mem.withRam (inflate mem.base mem.ram ds) (length_inflate mem.base mem.ram ds)

/-- One round of `Balloon::inflate`. -/
def inflateChain : Service Balloon := fun b mem chain => ⟨b, release mem chain.descriptors, 0, []⟩

def releases (mem : GuestRam) (ds : List Desc) : List Nat :=
  releasedPages mem.base (pfnAddrs ds) mem.ram

def pageRange (base p : Nat) : Set Nat := Set.Ico (base + p * PAGE) (base + p * PAGE + PAGE)

/-! ## What a release changes -/

theorem getElem?_zeroPage {ram : Bytes} {p i : Nat} (h : i < p * PAGE ∨ p * PAGE + PAGE ≤ i) :
    (zeroPage ram p)[i]? = ram[i]? := by
  unfold zeroPage
  by_cases hp : p * PAGE ≤ ram.length
  · have hlen : (replicate (min PAGE (ram.length - p * PAGE)) (0 : UInt8)).length =
        min PAGE (ram.length - p * PAGE) := length_replicate
    rw [getElem?_copyInto (by rw [hlen]; omega), hlen, if_neg (by omega)]
  have hz : ram.length - p * PAGE = 0 := by omega
  rw [hz, Nat.min_zero, replicate_zero]
  unfold copyInto
  rw [append_nil, length_nil, Nat.add_zero, take_append_drop]

theorem getElem?_foldl_zeroPage {i : Nat} (ps : List Nat) : ∀ {ram : Bytes},
    (∀ p ∈ ps, i < p * PAGE ∨ p * PAGE + PAGE ≤ i) →
    (ps.foldl zeroPage ram)[i]? = ram[i]? := by
  induction ps with
  | nil => exact fun _ => rfl
  | cons p ps ih =>
    intro ram h
    rw [foldl_cons, ih fun q hq => h q (mem_cons_of_mem _ hq)]
    exact getElem?_zeroPage (h p mem_cons_self)

theorem getElem?_inflate {base i : Nat} (as : List Nat) : ∀ {ram : Bytes},
    (∀ p ∈ releasedPages base as ram, i < p * PAGE ∨ p * PAGE + PAGE ≤ i) →
    (as.foldl (inflateOne base) ram)[i]? = ram[i]? := by
  induction as with
  | nil => exact fun _ => rfl
  | cons a as ih =>
    intro ram h
    rw [foldl_cons, ih fun p hp => h p (mem_append_right _ hp), inflateOne_eq]
    exact getElem?_foldl_zeroPage _ fun p hp => h p (mem_append_left _ hp)

/-- **An inflation changes the released pages.** -/
theorem changesIn_release (mem : GuestRam) (ds : List Desc) :
    GuestRam.ChangesIn {x | ∃ p ∈ releases mem ds, x ∈ pageRange mem.base p} mem
      (release mem ds) := by
  refine ⟨rfl, length_inflate _ _ _, fun i hi => ?_⟩
  refine getElem?_inflate (pfnAddrs ds) fun p hp => ?_
  by_contra hin
  exact hi ⟨p, hp, by omega, by omega⟩

/-! ## What the guest has given up -/

def frameOf (gpa : Nat) : Nat := gpa / BALLOON_PAGE

def posts (mem : GuestRam) (ds : List Desc) : List Nat :=
  (pfnAddrs ds).filterMap fun a => (mem.readSlice a 4).map fromLeBytes

def pagesOfFrame (mem : GuestRam) (pfn : Nat) : List Nat :=
  freedPages mem.base mem.ram.length (pfn <<< PFN_SHIFT) BALLOON_PAGE

structure State where
  mem : GuestRam
  posted : List Nat
  released : List Nat

inductive Action where
  | store (gpa : Nat) (data : Bytes)
  | inflate (ds : List Desc)

def step (s : State) : Action → Option State
  | .store gpa data => some { s with mem := (s.mem.writeSlice gpa data).1 }
  | .inflate ds =>
    some {
      mem := release s.mem ds
      posted := s.posted ++ posts s.mem ds
      released := s.released ++ releases s.mem ds }

def Covered (mem : GuestRam) (posted : List Nat) (p : Nat) : Prop :=
  ∀ x, p * PAGE ≤ x → x < p * PAGE + PAGE → x < mem.ram.length → frameOf (mem.base + x) ∈ posted

def Sound (s : State) : Prop := ∀ p ∈ s.released, Covered s.mem s.posted p

def Complete (s : State) : Action → Prop
  | .store _ _ => True
  | .inflate ds =>
    ∀ pfn ∈ posts s.mem ds, ∀ p ∈ pagesOfFrame s.mem pfn,
      Covered s.mem (s.posted ++ posts s.mem ds) p ∧
        ∀ a ∈ pfnAddrs ds, ∀ x, a ≤ x → x < a + 4 → x ∉ pageRange s.mem.base p

theorem releasedPages_posts {mem : GuestRam} (as : List Nat) : ∀ {ram : Bytes},
    ram.length = mem.ram.length →
    (∀ a ∈ as, readSlice mem.base ram a 4 = mem.readSlice a 4) →
    (∀ pfn ∈ as.filterMap (fun a => (mem.readSlice a 4).map fromLeBytes),
      ∀ p ∈ pagesOfFrame mem pfn, ∀ a ∈ as, ∀ x, a ≤ x → x < a + 4 → x ∉ pageRange mem.base p) →
    ∀ p ∈ releasedPages mem.base as ram,
      ∃ pfn ∈ as.filterMap (fun a => (mem.readSlice a 4).map fromLeBytes),
        p ∈ pagesOfFrame mem pfn := by
  induction as with
  | nil => exact fun _ _ _ p hp => nomatch hp
  | cons a as ih =>
    intro ram hlen hread hoff p hp
    rw [releasedPages, mem_append] at hp
    have hpfn : ∀ q ∈ pfnPages mem.base ram a,
        ∃ pfn ∈ (a :: as).filterMap (fun a => (mem.readSlice a 4).map fromLeBytes),
          q ∈ pagesOfFrame mem pfn := by
      intro q hq
      unfold pfnPages at hq
      rw [hread a mem_cons_self, hlen] at hq
      split at hq
      next b hb =>
        refine ⟨fromLeBytes b, ?_, hq⟩
        exact mem_filterMap.mpr ⟨a, mem_cons_self, by rw [hb]; rfl⟩
      · cases hq
    rcases hp with hp | hp
    · exact hpfn p hp
    -- the pages this number releases hold none of the numbers that follow
    have hram : (inflateOne mem.base ram a).length = mem.ram.length :=
      (length_inflateOne mem.base ram a).trans hlen
    have hread' : ∀ a' ∈ as,
        readSlice mem.base (inflateOne mem.base ram a) a' 4 = mem.readSlice a' 4 := by
      intro a' ha'
      rw [← hread a' (mem_cons_of_mem _ ha'), inflateOne_eq]
      unfold readSlice
      rw [length_foldl_zeroPage]
      cases hoffset : offset mem.base ram.length a' 4 with
      | none => rfl
      | some o =>
        obtain ⟨hle, rfl, hfit⟩ := offset_eq_some.mp hoffset
        rw [Option.map_some, Option.map_some]
        congr 1
        apply ext_getElem?
        intro i
        rw [getElem?_slice, getElem?_slice]
        split
        next hi =>
          refine getElem?_foldl_zeroPage _ fun q hq => ?_
          obtain ⟨pfn, hmem, hpage⟩ := hpfn q hq
          by_contra hin
          refine hoff pfn hmem q hpage a' (mem_cons_of_mem _ ha') (a' + i) (by omega)
            (by omega) ⟨by omega, by omega⟩
        · rfl
    have hweaken : ∀ pfn ∈ as.filterMap (fun a => (mem.readSlice a 4).map fromLeBytes),
        pfn ∈ (a :: as).filterMap (fun a => (mem.readSlice a 4).map fromLeBytes) := by
      intro pfn h
      obtain ⟨a', ha', he⟩ := mem_filterMap.mp h
      exact mem_filterMap.mpr ⟨a', mem_cons_of_mem _ ha', he⟩
    obtain ⟨pfn, hmem, hpage⟩ := ih hram hread'
      (fun pfn h q hq a' ha' => hoff pfn (hweaken pfn h) q hq a' (mem_cons_of_mem _ ha'))
      p hp
    exact ⟨pfn, hweaken pfn hmem, hpage⟩

theorem Covered.mono {mem mem' : GuestRam} {posted posted' : List Nat} {p : Nat}
    (h : Covered mem posted p) (hbase : mem'.base = mem.base)
    (hlen : mem'.ram.length = mem.ram.length) (hsub : posted ⊆ posted') :
    Covered mem' posted' p := by
  intro x hlo hhi hin
  rw [hbase]
  rw [hlen] at hin
  exact hsub (h x hlo hhi hin)

theorem Sound.step {s s' : State} {a : Action} (h : Sound s) (hok : Complete s a)
    (hst : Balloon.step s a = some s') : Sound s' := by
  cases a with
  | store gpa data =>
    cases hst
    have hc := GuestRam.changesIn_writeSlice s.mem gpa data
    exact fun p hp => (h p hp).mono hc.base hc.length (List.Subset.refl _)
  | inflate ds =>
    cases hst
    have hc := changesIn_release s.mem ds
    intro p hp
    rcases mem_append.mp hp with hold | hnew
    · exact (h p hold).mono hc.base hc.length (subset_append_left _ _)
    · obtain ⟨pfn, hmem, hpage⟩ := releasedPages_posts (pfnAddrs ds) rfl (fun _ _ => rfl)
        (fun pfn hpfn q hq => (hok pfn hpfn q hq).2) p hnew
      exact (hok pfn hmem p hpage).1.mono hc.base hc.length (List.Subset.refl _)

/-- **Only ballooned memory is released**, in every run whose inflations complete the host pages
they touch. -/
theorem released_posted {mem : GuestRam} {as : List Action} {s : State}
    (hrun : Run step Complete ⟨mem, [], []⟩ as s) : Sound s :=
  hrun.invariant (fun _ _ _ h hok hst => h.step hok hst) fun _ hp => nomatch hp

/-! ## A RAM of two host pages -/

def frameList : Bytes := leBytes 4 0x40004 ++ leBytes 4 0x40005 ++ leBytes 4 0x40006 ++ leBytes 4 0x40007

theorem length_twoPages : (frameList ++ replicate (2 * PAGE - 16) 0).length = 2 * PAGE := by
  rw [length_append, length_replicate]
  decide

def twoPages : GuestRam where
  base := 0x40000000
  ram := frameList ++ List.replicate (2 * PAGE - 16) 0
  bounded := by
    rw [length_twoPages]
    decide

theorem twoPages_posts : posts twoPages [⟨0x40000000, 16, false⟩] =
    [0x40004, 0x40005, 0x40006, 0x40007] := by
  decide +kernel

theorem twoPages_page {pfn : Nat} (hlo : 0x40004 ≤ pfn) (hhi : pfn ≤ 0x40007) :
    pagesOfFrame twoPages pfn = [1] := by
  rcases (by omega : pfn = 0x40004 ∨ pfn = 0x40005 ∨ pfn = 0x40006 ∨ pfn = 0x40007) with
    rfl | rfl | rfl | rfl <;> decide +kernel

theorem released_posted_four : ∃ s, Run step Complete ⟨twoPages, [], []⟩
    [.inflate [⟨0x40000000, 16, false⟩]] s ∧ Sound s := by
  have hok : Complete ⟨twoPages, [], []⟩ (.inflate [⟨0x40000000, 16, false⟩]) := by
    intro pfn hpfn p hp
    dsimp only at hpfn hp ⊢
    rw [twoPages_posts] at hpfn ⊢
    have hrange : 0x40004 ≤ pfn ∧ pfn ≤ 0x40007 := by
      simp only [mem_cons, not_mem_nil, or_false] at hpfn
      omega
    rw [twoPages_page hrange.1 hrange.2] at hp
    obtain rfl := mem_singleton.mp hp
    refine ⟨fun x hlo hhi _ => ?_, fun a ha x hx hx' hmem => ?_⟩
    · have hframe : frameOf (twoPages.base + x) = 0x40000 + x / 4096 := by
        show (0x40000000 + x) / 4096 = 0x40000 + x / 4096
        omega
      have hlo' : 16384 ≤ x := hlo
      have hhi' : x < 32768 := hhi
      rw [hframe]
      simp only [nil_append, mem_cons, not_mem_nil, or_false]
      omega
    · have ha' : a ∈ [0x40000000, 0x40000004, 0x40000008, 0x4000000c] := ha
      obtain ⟨hlo, -⟩ := hmem
      have hlo' : 0x40000000 + 16384 ≤ x := hlo
      simp only [mem_cons, not_mem_nil, or_false] at ha'
      omega
  have hrun : Run step Complete ⟨twoPages, [], []⟩ [.inflate [⟨0x40000000, 16, false⟩]] _ :=
    .cons hok rfl (.nil _)
  exact ⟨_, hrun, released_posted hrun⟩

/-- **One posted frame releases four.** -/
theorem one_frame_releases_four : ∃ s, Run step (fun _ _ => True) ⟨twoPages, [], []⟩
    [.inflate [⟨0x40000000, 4, false⟩]] s ∧ s.posted = [0x40004] ∧ 1 ∈ s.released ∧ ¬ Sound s := by
  have hposts : posts twoPages [⟨0x40000000, 4, false⟩] = [0x40004] := by decide +kernel
  have hrel : releases twoPages [⟨0x40000000, 4, false⟩] = [1] := by decide +kernel
  refine ⟨_, .cons trivial rfl (.nil _), ?_, ?_, fun hsound => ?_⟩
  · dsimp only
    rw [hposts]
    rfl
  · dsimp only
    rw [hrel]
    exact mem_singleton_self 1
  · have hcovered := hsound 1 (by dsimp only; rw [hrel]; exact mem_singleton_self 1)
      (PAGE + 4096) (by decide) (by decide) (by
        rw [(changesIn_release twoPages _).length]
        have hlen : twoPages.ram.length = 2 * PAGE := length_twoPages
        rw [hlen]
        decide)
    rw [hposts] at hcovered
    exact absurd hcovered (by decide)

end Balloon

end Ignition.Devices
