import Ignition.Devices.Ram

/-!
# What the dirty bitmap holds

Between two drains the bitmap of `dirty.rs` is written by many threads: a vCPU marks the address of
a fault, and a device whose `GuestRam::write_slice` succeeded marks the granules of its range one
after the other. A mark is one atomic `fetch_or`, so what the threads do together is some
interleaving of their marks.

`pages_exact`: whatever the interleaving, `pages` and `drain` list exactly the pages that a marked
address or a written range meets, in ascending order, and nothing is left after a drain.
-/

namespace Ignition.Vmm

open Ignition.Devices List

/-- The actions of several threads, in an order that respects each of them. -/
inductive Interleaves {α : Type} : List (List α) → List α → Prop where
  | done {threads : List (List α)} : (∀ as ∈ threads, as = []) → Interleaves threads []
  | next (before after : List (List α)) {a : α} {as bs : List α} :
      Interleaves (before ++ as :: after) bs → Interleaves (before ++ (a :: as) :: after) (a :: bs)

theorem Interleaves.mem_iff {α : Type} {threads : List (List α)} {bs : List α}
    (h : Interleaves threads bs) (x : α) : x ∈ bs ↔ ∃ as ∈ threads, x ∈ as := by
  induction h with
  | done hnil =>
    refine ⟨fun hx => absurd hx not_mem_nil, ?_⟩
    rintro ⟨as, has, hx⟩
    rw [hnil as has] at hx
    exact absurd hx not_mem_nil
  | next _ _ _ ih =>
    rw [mem_cons, ih]
    simp only [mem_append, mem_cons, or_and_right, exists_or, exists_eq_left, or_assoc]
    exact or_left_comm

namespace DirtyTracker

variable {t : DirtyTracker}

/-! ## Marks -/

theorem marked_foldl_mark (calls : List Nat) (t : DirtyTracker) (q : Nat) :
    (calls.foldl mark t).marked q = true ↔
      t.marked q = true ∨ ∃ ipa ∈ calls, t.pageOf ipa = some q := by
  induction calls generalizing t with
  | nil => simp
  | cons ipa calls ih =>
    have hpage : ∀ x, (t.mark ipa).pageOf x = t.pageOf x := fun x => by
      rw [pageOf, pageOf, mark_base, mark_pageCount]
    rw [foldl_cons, ih, marked_mark]
    simp only [hpage, Bool.or_eq_true, decide_eq_true_eq, mem_cons, or_and_right, exists_or,
      exists_eq_left]
    tauto

theorem pageOf_eq_some {ipa q : Nat} : t.pageOf ipa = some q ↔
    q < t.pageCount ∧ t.base + q * PAGE ≤ ipa ∧ ipa < t.base + (q + 1) * PAGE := by
  unfold pageOf PAGE
  split
  next h =>
    rw [Option.some.injEq]
    omega
  next h =>
    refine ⟨fun hnone => (nomatch hnone), fun hq => absurd ?_ h⟩
    omega

theorem granulesFrom_bounds {p last g : Nat} (hp : p % PAGE = 0) (h : g ∈ granulesFrom p last) :
    g % PAGE = 0 ∧ p ≤ g ∧ g ≤ last := by
  unfold granulesFrom at h
  split at h
  next hle =>
    split at h
    · rcases mem_cons.mp h with rfl | h
      · exact ⟨hp, Nat.le_refl _, hle⟩
      · obtain ⟨hmod, hlo, hhi⟩ := granulesFrom_bounds (by rw [Nat.add_mod_right]; exact hp) h
        exact ⟨hmod, by omega, hhi⟩
    · obtain rfl := mem_singleton.mp h
      exact ⟨hp, Nat.le_refl _, hle⟩
  · exact absurd h not_mem_nil
termination_by last + 1 - p
decreasing_by
  have := PAGE_pos
  omega

theorem exists_of_mem_granules {gpa n g : Nat} (h : g ∈ granules gpa n) :
    ∃ x, gpa ≤ x ∧ x < gpa + n ∧ x - x % PAGE = g := by
  unfold granules at h
  split at h
  · exact absurd h not_mem_nil
  rename_i hn
  obtain ⟨hmod, hlo, hhi⟩ := granulesFrom_bounds
    (Nat.sub_mod_eq_zero_of_mod_eq (Nat.mod_mod gpa PAGE).symm) h
  unfold PAGE at hmod hlo ⊢
  exact ⟨max gpa g, by omega⟩

/-! ## Order -/

theorem pairwise_wordPages (wi : Nat) (v : BitVec 64) : (wordPages wi v).Pairwise (· < ·) := by
  unfold wordPages
  split
  · exact .nil
  · refine pairwise_map.mpr ((pairwise_lt_range.filter _).imp fun hlt => ?_)
    exact Nat.add_lt_add_left hlt _

theorem pairwise_pages (t : DirtyTracker) : t.pages.Pairwise (· < ·) := by
  refine pairwise_flatMap.mpr ⟨fun w _ => pairwise_wordPages w.2 w.1, ?_⟩
  have hidx : (t.bits.zipIdx.map Prod.snd).Pairwise (· < ·) := by
    rw [zipIdx_map_snd]
    exact pairwise_lt_range' 1
  refine (pairwise_map.mp hidx).imp fun hlt p hp q hq => ?_
  have hw := (mem_wordPages.mp hp).1
  have hw' := (mem_wordPages.mp hq).1
  omega

end DirtyTracker

/-! ## What the threads do -/

inductive Mark where
  | fault (ipa : Nat)
  | write (gpa n : Nat)

def Mark.calls (mem : GuestRam) : Mark → List Nat
  | .fault ipa => [ipa]
  | .write gpa n => if mem.contains gpa n then DirtyTracker.granules gpa n else []

def Mark.Meets (mem : GuestRam) (x : Nat) : Mark → Prop
  | .fault ipa => x = ipa
  | .write gpa n => mem.contains gpa n = true ∧ gpa ≤ x ∧ x < gpa + n

/-- Page `p` of RAM that starts at `base` has the address. -/
def InPage (base p x : Nat) : Prop := base + p * PAGE ≤ x ∧ x < base + (p + 1) * PAGE

theorem Mark.exists_call {mem : GuestRam} (hbase : mem.base % PAGE = 0) (m : Mark) (p : Nat) :
    (∃ ipa ∈ m.calls mem, InPage mem.base p ipa) ↔ ∃ x, m.Meets mem x ∧ InPage mem.base p x := by
  cases m with
  | fault ipa => simp only [calls, Meets, mem_singleton]
  | write gpa n =>
    dsimp only [calls, Meets]
    split
    next hin =>
      obtain ⟨hlo, hhi⟩ := GuestRam.contains_iff.mp hin
      have hbound := mem.bounded
      unfold InPage
      constructor
      · rintro ⟨g, hg, hpage⟩
        obtain ⟨x, hx, hx', rfl⟩ := DirtyTracker.exists_of_mem_granules hg
        refine ⟨x, ⟨hin, hx, hx'⟩, ?_⟩
        unfold PAGE at hbase hpage ⊢
        omega
      · rintro ⟨x, ⟨-, hx, hx'⟩, hpage⟩
        refine ⟨_, DirtyTracker.mem_granules hx hx' (by omega), ?_⟩
        unfold PAGE at hbase hpage ⊢
        omega
    next hout =>
      refine ⟨?_, ?_⟩
      · rintro ⟨g, hg, -⟩
        exact absurd hg not_mem_nil
      · rintro ⟨x, ⟨hin, -⟩, -⟩
        exact absurd hin hout

/-- **The bitmap is exact.** Whatever the threads have marked and written since it was empty, and in
whatever order: `pages` and `drain` are the ascending list of the pages that a marked address or a
written range meets, and the bitmap is empty after the drain. -/
theorem pages_exact {mem : GuestRam} {t : DirtyTracker} {threads : List (List Mark)}
    {calls : List Nat} (halign : mem.base % PAGE = 0) (hbase : t.base = mem.base)
    (hcount : t.pageCount = (mem.ram.length + (PAGE - 1)) / PAGE) (hempty : t.pages = [])
    (h : Interleaves (threads.map fun ms => ms.flatMap (Mark.calls mem)) calls) :
    let t' := calls.foldl DirtyTracker.mark t
    t'.pages.Pairwise (· < ·) ∧ t'.drain.1 = t'.pages ∧ t'.drain.2.pages = [] ∧
    ∀ p, p ∈ t'.pages ↔ p < (mem.ram.length + (PAGE - 1)) / PAGE ∧
      ∃ ms ∈ threads, ∃ m ∈ ms, ∃ x, m.Meets mem x ∧ InPage mem.base p x := by
  refine ⟨DirtyTracker.pairwise_pages _, rfl, ?_, fun p => ?_⟩
  · refine eq_nil_iff_forall_not_mem.mpr fun p hp => ?_
    rw [DirtyTracker.mem_pages, DirtyTracker.marked_drain] at hp
    cases hp
  have hclean : ¬ t.marked p = true := fun hp =>
    absurd (hempty ▸ DirtyTracker.mem_pages.mpr hp) not_mem_nil
  rw [DirtyTracker.mem_pages, DirtyTracker.marked_foldl_mark, or_iff_right hclean, ← hcount]
  -- a call is a call of one mark of one thread
  have hcalls : ∀ ipa, ipa ∈ calls ↔ ∃ ms ∈ threads, ∃ m ∈ ms, ipa ∈ Mark.calls mem m := by
    intro ipa
    rw [h.mem_iff]
    simp only [mem_map, exists_exists_and_eq_and, mem_flatMap]
  constructor
  · rintro ⟨ipa, hipa, hpage⟩
    obtain ⟨ms, hms, m, hm, hcall⟩ := (hcalls ipa).mp hipa
    obtain ⟨hp, hin⟩ := DirtyTracker.pageOf_eq_some.mp hpage
    rw [hbase] at hin
    exact ⟨hp, ms, hms, m, hm, (m.exists_call halign p).mp ⟨ipa, hcall, hin⟩⟩
  · rintro ⟨hp, ms, hms, m, hm, hmeets⟩
    obtain ⟨ipa, hcall, hin⟩ := (m.exists_call halign p).mpr hmeets
    refine ⟨ipa, (hcalls ipa).mpr ⟨ms, hms, m, hm, hcall⟩, DirtyTracker.pageOf_eq_some.mpr ⟨hp, ?_⟩⟩
    rw [hbase]
    exact hin

theorem pages_exact_page : ∃ calls : List Nat,
    Interleaves [[0x40000010], [0x40000020]] calls ∧
    0 ∈ (calls.foldl DirtyTracker.mark (.new 0x40000000 64)).pages ∧
    (calls.foldl DirtyTracker.mark (.new 0x40000000 64)).drain.2.pages = [] := by
  let mem : GuestRam := ⟨0x40000000, replicate 64 0, GuestRam.bounded_blank⟩
  have h : Interleaves ([[Mark.fault 0x40000010], [.write 0x50000000 4, .fault 0x40000020]].map
      fun ms => ms.flatMap (Mark.calls mem)) [0x40000020, 0x40000010] :=
    .next [_] [] (.next [] _ (.done (by decide)))
  obtain ⟨-, -, hdrained, hpages⟩ := pages_exact (t := .new 0x40000000 64) (by decide) rfl rfl
    (by decide) h
  refine ⟨_, h, (hpages 0).mpr ⟨by decide, ?_⟩, hdrained⟩
  exact ⟨_, mem_cons_self, _, mem_cons_self, 0x40000010, rfl, by decide, by decide⟩

end Ignition.Vmm
