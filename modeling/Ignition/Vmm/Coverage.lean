import Mathlib.Data.Finset.Card
import Mathlib.Dynamics.PeriodicPts.Lemmas
import Ignition.Vmm.FuzzRuns

/-!
# What the fuzzer learns and how it draws

`CoverageMap` counts edges one at a time, beside an array of those it has seen. What it stands for
is a set: the indices of the map at which some recorded buffer was not zero (`edges`). `Accounts`
ties the two, every round of the loop in `record` keeps it, and from it follow the count, when
`record` reports something new, and that the order of the buffers does not matter. In a run of the
fuzz loop the corpus follows: it grows when an iteration ends that reached a new edge, by the input
of that iteration, as long as it has fewer than 4096 entries (`coverage_accounts`).

The generator behind the inputs is a xorshift. Each of its three lines is `x ^= s(x)` for a shift
`s`, which distributes over `^` and sends everything to zero when repeated. Such a line is
injective, so the step of the state is a bijection that fixes zero: no seed ever gets there, and
every seed comes back to itself (`rng_never_collapses`).
-/

namespace Ignition.Vmm

open Paged Runs Ignition.Devices List Function

/-! ## Coverage -/

namespace CoverageMap

/-- The map after recording some buffers. -/
def recordAll (len : Nat) (bufs : List Bytes) : CoverageMap :=
  bufs.foldl (fun m cov => (m.record cov).1) (.new len)

def edges (len : Nat) (bufs : List Bytes) : Finset Nat :=
  (Finset.range len).filter fun i => ∃ cov ∈ bufs, cov.getD i 0 ≠ 0

theorem mem_edges {len : Nat} {bufs : List Bytes} {i : Nat} :
    i ∈ edges len bufs ↔ i < len ∧ ∃ cov ∈ bufs, cov.getD i 0 ≠ 0 := by
  rw [edges, Finset.mem_filter, Finset.mem_range]

/-- The map has seen exactly a set of edges, and counted it. -/
structure Accounts (m : CoverageMap) (len : Nat) (s : Finset Nat) : Prop where
  seen : m.seen = (range len).map fun i => decide (i ∈ s)
  covered : m.covered = s.card
  bound : ∀ i ∈ s, i < len

variable {m : CoverageMap} {len : Nat} {s : Finset Nat}

theorem Accounts.getD_seen (h : Accounts m len s) {i : Nat} (hi : i < len) :
    m.seen.getD i true = decide (i ∈ s) := by
  rw [h.seen, getD_eq_getElem?_getD, getElem?_map, getElem?_range hi]
  rfl

theorem Accounts.insert (h : Accounts m len s) {i : Nat} (hi : i < len) (hnew : i ∉ s) :
    Accounts ⟨m.seen.set i true, m.covered + 1⟩ len (insert i s) where
  seen := by
    rw [h.seen]
    refine ext_getElem (by simp) fun j _ hj => ?_
    rw [getElem_set, getElem_map, getElem_map, getElem_range]
    by_cases hij : i = j
    · simp [hij]
    · simp [hij, Ne.symm hij]
  covered := by rw [Finset.card_insert_of_notMem hnew, ← h.covered]
  bound := (Finset.forall_mem_insert ..).mpr ⟨hi, h.bound⟩

theorem Accounts.rounds {cov : Bytes} : ∀ {is : List Nat} {m : CoverageMap} {s : Finset Nat}
    (new : Bool), Accounts m len s → (∀ i ∈ is, i < len) →
    let added := is.toFinset.filter fun i => cov.getD i 0 ≠ 0
    let r := is.foldl (fun (m, new) i =>
      if cov.getD i 0 ≠ 0 ∧ m.seen.getD i true = false then
        (⟨m.seen.set i true, m.covered + 1⟩, true)
      else (m, new)) (m, new)
    Accounts r.1 len (s ∪ added) ∧ (r.2 = true ↔ new = true ∨ ¬ added ⊆ s)
  | [], m, s, new, h, _ => by simpa using h
  | i :: is, m, s, new, h, hlt => by
    obtain ⟨hi, hlt⟩ := forall_mem_cons.mp hlt
    have hseen := h.getD_seen hi
    dsimp only
    rw [foldl_cons, toFinset_cons, Finset.filter_insert]
    by_cases hcov : cov.getD i 0 ≠ 0
    · rw [if_pos hcov]
      by_cases hs : i ∈ s
      · rw [decide_eq_true hs] at hseen
        rw [if_neg fun hc => Bool.noConfusion (hc.2.symm.trans hseen), Finset.union_insert,
          Finset.insert_eq_of_mem (Finset.mem_union_left _ hs), Finset.insert_subset_iff,
          and_iff_right hs]
        exact rounds new h hlt
      · rw [if_pos ⟨hcov, hseen.trans (decide_eq_false hs)⟩, Finset.union_insert, ← Finset.insert_union]
        obtain ⟨hacc, hnew⟩ := rounds true (h.insert hi hs) hlt
        refine ⟨hacc, hnew.trans ?_⟩
        simp [Finset.insert_subset_iff, hs]
    · rw [if_neg hcov, if_neg fun hc => hcov hc.1]
      exact rounds new h hlt

theorem edges_append (len : Nat) (bufs bufs' : List Bytes) :
    edges len (bufs ++ bufs') = edges len bufs ∪ edges len bufs' := by
  ext i
  simp only [Finset.mem_union, mem_edges, mem_append, or_and_right, exists_or, and_or_left]

theorem Accounts.record (h : Accounts m len s) (cov : Bytes) :
    Accounts (m.record cov).1 len (s ∪ edges len [cov]) ∧
      ((m.record cov).2 = true ↔ ¬ edges len [cov] ⊆ s) := by
  have hlen : m.seen.length = len := by rw [h.seen, length_map, length_range]
  have hadded : (range (min cov.length len)).toFinset.filter (fun i => cov.getD i 0 ≠ 0) =
      edges len [cov] := by
    ext i
    rw [mem_edges, Finset.mem_filter, mem_toFinset, mem_range, Nat.lt_min, and_assoc]
    constructor
    · exact fun ⟨_, hi, hcov⟩ => ⟨hi, cov, mem_singleton_self cov, hcov⟩
    · rintro ⟨hi, c, hc, hcov⟩
      obtain rfl := mem_singleton.mp hc
      refine ⟨Nat.lt_of_not_le fun hle => hcov ?_, hi, hcov⟩
      rw [getD_eq_getElem?_getD, getElem?_eq_none hle, Option.getD_none]
  have hlt : ∀ i ∈ range (min cov.length len), i < len := fun i hi =>
    (Nat.lt_min.mp (mem_range.mp hi)).2
  obtain ⟨hacc, hnew⟩ := h.rounds false hlt
  rw [hadded] at hacc hnew
  unfold CoverageMap.record
  rw [hlen]
  exact ⟨hacc, hnew.trans (or_iff_right Bool.false_ne_true)⟩

theorem accounts_recordAll (len : Nat) (bufs : List Bytes) :
    Accounts (recordAll len bufs) len (edges len bufs) := by
  induction bufs using reverseRecOn with
  | nil =>
    have hnone : edges len [] = ∅ := by
      ext i
      simp [mem_edges]
    rw [hnone]
    exact ⟨by simp [recordAll, CoverageMap.new], rfl, by simp⟩
  | append_singleton bufs cov ih =>
    rw [edges_append, recordAll, foldl_append]
    exact (ih.record cov).1

theorem Accounts.unique {m' : CoverageMap} (h : Accounts m len s) (h' : Accounts m' len s) :
    m = m' := by
  cases m
  cases m'
  exact congrArg₂ CoverageMap.mk (h.seen.trans h'.seen.symm) (h.covered.trans h'.covered.symm)

theorem record_new_iff (len : Nat) (bufs : List Bytes) (cov : Bytes) :
    ((recordAll len bufs).record cov).2 = true ↔ edges len bufs ⊂ edges len (bufs ++ [cov]) := by
  rw [((accounts_recordAll len bufs).record cov).2, edges_append, Finset.ssubset_iff_subset_ne,
    and_iff_right Finset.subset_union_left, ne_eq, Finset.left_eq_union]

end CoverageMap

namespace Fuzzer

/-! ## The corpus -/

variable {f f' : Fuzzer} {a : Action}

theorem ctl_reset {host : Host} (h : f.reset host = some f') : f'.ctl = f.ctl := by
  obtain ⟨g, hg, h⟩ := Option.bind_eq_some_iff.mp h
  obtain ⟨state, -, rfl⟩ := Option.map_eq_some_iff.mp h
  unfold resetRam at hg
  split at hg
  · split at hg
    · cases hg
      rfl
    · cases hg
  · cases hg
    rfl

theorem onDone_feedback {host : Host} (h : f.onDone host = some f') :
    f'.ctl.coverage = (f.ctl.coverage.record f.cov).1 ∧
      f'.ctl.corpus = f.observeAndStats.ctl.corpus := by
  obtain ⟨window, injected, rng, last, heq, -⟩ :=
    prepareNextInput_eq f.countIteration.observeAndStats
  unfold onDone at h
  rw [heq] at h
  obtain ⟨g, hg, rfl⟩ := Option.map_eq_some_iff.mp h
  dsimp only
  rw [ctl_reset hg]
  exact ⟨rfl, rfl⟩

theorem step_feedback (h : f.step a = some f') :
    (f.Ends a ∧ f'.ctl.coverage = (f.ctl.coverage.record f.cov).1 ∧
        f'.ctl.corpus = f.observeAndStats.ctl.corpus) ∨
      (¬ f.Ends a ∧ f'.ctl.coverage = f.ctl.coverage ∧ f'.ctl.corpus = f.ctl.corpus) := by
  cases move h with
  | store | window | cov => exact .inr ⟨by simp [Ends, rings], rfl, rfl⟩
  | idle _ hrings | register hrings | fault hrings =>
    exact .inr ⟨by simp [Ends, hrings], rfl, rfl⟩
  | @ring _ _ host v cmd _ hrings _ hbell =>
    cases cmd with
    | done => exact .inl ⟨.inl hrings, onDone_feedback (f := { f with vcpu := v }) hbell⟩
    | crash =>
      exact .inl ⟨.inr hrings, onDone_feedback (f := solve { f with vcpu := v } host) hbell⟩
    | unknown =>
      cases hbell
      exact .inr ⟨by simp [Ends, hrings], rfl, rfl⟩
    | snapshotMe =>
      cases hbell
      obtain ⟨window, injected, rng, last, heq, -⟩ :=
        prepareNextInput_eq (takeSnapshot { f with vcpu := v } host)
      unfold capture
      rw [heq]
      exact .inr ⟨by simp [Ends, hrings], rfl, rfl⟩

def recorded (f : Fuzzer) : List Action → List Bytes
  | [] => []
  | a :: acts => (if f.Ends a then [f.cov] else []) ++ ((f.step a).map (recorded · acts)).getD []

theorem coverage_of_run {f₀ : Fuzzer} {acts : List Action}
    (h : Run step (fun _ _ => True) f₀ acts f) :
    f.ctl.coverage = (f₀.recorded acts).foldl (fun m cov => (m.record cov).1) f₀.ctl.coverage := by
  induction h with
  | nil s => rfl
  | cons _ hst _ ih =>
    unfold recorded
    rw [ih, hst, foldl_append]
    rcases step_feedback hst with ⟨hends, hcov, -⟩ | ⟨hends, hcov, -⟩
    · rw [if_pos hends, hcov]
      rfl
    · rw [if_neg hends, hcov]
      rfl

end Fuzzer

open CoverageMap Fuzzer in
/-- **The coverage map counts the edges reached so far, and the corpus grows with them.** For every
sequence of buffers the count is the size of the union, `record` reports exactly that the union
grows, and the order of the buffers does not matter. In every run of the fuzz loop, a step that
changes the corpus ends an iteration which reached a new edge; it adds the input of that iteration,
and leaves at most 4096. -/
theorem coverage_accounts (len : Nat) (bufs : List Bytes) :
    (recordAll len bufs).covered = (edges len bufs).card ∧
    (∀ cov, ((recordAll len bufs).record cov).2 = true ↔
      edges len bufs ⊂ edges len (bufs ++ [cov])) ∧
    (∀ bufs', bufs.Perm bufs' →
      edges len bufs' = edges len bufs ∧ recordAll len bufs' = recordAll len bufs) ∧
    ∀ vcpu mem windowSize mode seeds replay acts f a f',
      let f₀ := boot vcpu mem windowSize len mode seeds replay
      Run step (fun _ _ => True) f₀ acts f → f.step a = some f' →
      f.ctl.coverage = recordAll len (f₀.recorded acts) ∧
      (f'.ctl.corpus ≠ f.ctl.corpus → f.Ends a ∧
        edges len (f₀.recorded acts) ⊂ edges len (f₀.recorded acts ++ [f.cov]) ∧
        f'.ctl.corpus = f.ctl.corpus ++ [f.ctl.lastInput] ∧ f'.ctl.corpus.length ≤ 4096) := by
  refine ⟨(accounts_recordAll len bufs).covered, record_new_iff len bufs, fun bufs' hperm => ?_, ?_⟩
  · have hedges : edges len bufs' = edges len bufs := by
      ext i
      simp only [mem_edges, hperm.mem_iff]
    refine ⟨hedges, ?_⟩
    exact (accounts_recordAll len bufs').unique (hedges ▸ accounts_recordAll len bufs)
  · intro vcpu mem windowSize mode seeds replay acts f a f' f₀ hrun hst
    have hcov : f.ctl.coverage = recordAll len (f₀.recorded acts) := coverage_of_run hrun
    refine ⟨hcov, fun hne => ?_⟩
    rcases step_feedback hst with ⟨hends, -, hcorpus⟩ | ⟨-, -, hcorpus⟩
    · refine ⟨hends, ?_⟩
      unfold observeAndStats at hcorpus
      dsimp only at hcorpus
      split at hcorpus
      next hgrows =>
        simp only [Bool.and_eq_true, decide_eq_true_eq] at hgrows
        obtain ⟨⟨hnew, -⟩, hlt⟩ := hgrows
        rw [hcov, record_new_iff] at hnew
        refine ⟨hnew, hcorpus, ?_⟩
        rw [hcorpus, length_append]
        exact hlt
      · exact absurd hcorpus hne
    · exact absurd hcorpus hne

/-! ## The generator -/

namespace Rng

def draw (rng : Rng) : Rng := rng.nextU64.2

theorem xor_injective {s : UInt64 → UInt64} (hs : ∀ x y, s (x ^^^ y) = s x ^^^ s y) {n : Nat}
    (hzero : ∀ x, s^[n] x = 0) : Injective fun x => x ^^^ s x := by
  intro x y h
  dsimp only at h
  have hfix : s (x ^^^ y) = x ^^^ y := by
    have hxor : (x ^^^ y) ^^^ (s x ^^^ s y) = 0 := by
      rw [← UInt64.xor_eq_zero_iff.mpr h]
      ac_rfl
    rw [hs]
    exact (UInt64.xor_eq_zero_iff.mp hxor).symm
  have hz := hzero (x ^^^ y)
  rw [iterate_fixed hfix] at hz
  exact UInt64.xor_eq_zero_iff.mp hz

theorem shiftRight_vanishes {k : UInt64} {n : Nat} (hk : k.toNat < 64) (hn : 64 ≤ k.toNat * n)
    (x : UInt64) : (· >>> k)^[n] x = 0 := by
  have hdiv : ∀ n, ((· >>> k)^[n] x).toNat = x.toNat / 2 ^ (k.toNat * n) := by
    intro n
    induction n with
    | zero => simp
    | succ n ih =>
      rw [iterate_succ_apply', UInt64.toNat_shiftRight, ih, Nat.mod_eq_of_lt hk,
        Nat.shiftRight_eq_div_pow, Nat.div_div_eq_div_mul, ← Nat.pow_add, Nat.mul_succ]
  refine UInt64.toNat_inj.mp ((hdiv n).trans (Nat.div_eq_of_lt ?_))
  exact Nat.lt_of_lt_of_le x.toNat_lt (Nat.pow_le_pow_right Nat.two_pos hn)

theorem draw_injective : Injective draw := by
  have hleft : ∀ x : UInt64, (fun x => x <<< (25 : UInt64))^[3] x = 0 := by
    intro x
    refine UInt64.toNat_inj.mp ?_
    simp [UInt64.toNat_shiftLeft, Nat.shiftLeft_eq]
    omega
  have hline₁ : Injective fun x : UInt64 => x ^^^ (x >>> 12) :=
    xor_injective (fun _ _ => UInt64.shiftRight_xor)
      (shiftRight_vanishes (k := 12) (n := 6) (by decide) (by decide))
  have hline₂ : Injective fun x : UInt64 => x ^^^ (x <<< 25) :=
    xor_injective (fun _ _ => UInt64.shiftLeft_xor) hleft
  have hline₃ : Injective fun x : UInt64 => x ^^^ (x >>> 27) :=
    xor_injective (fun _ _ => UInt64.shiftRight_xor)
      (shiftRight_vanishes (k := 27) (n := 3) (by decide) (by decide))
  intro r r' h
  have hstate := congrArg state h
  dsimp only [draw, nextU64] at hstate
  cases r
  cases r'
  exact congrArg mk (hline₁ (hline₂ (hline₃ hstate)))

theorem finite : Finite Rng :=
  .of_injective (fun r => r.state.toFin) fun r r' h => by
    cases r
    cases r'
    exact congrArg mk (UInt64.toFin_inj.mp h)

/-- **The generator never collapses.** The step of the state is a bijection, so from every seed the
state is never zero, however many draws are made, and the sequence of states is periodic from the
start. -/
theorem rng_never_collapses :
    Bijective draw ∧ ∀ seed : UInt64, (∀ n, (draw^[n] (new seed)).state ≠ 0) ∧
      ∃ p > 0, ∀ n, draw^[n + p] (new seed) = draw^[n] (new seed) := by
  have := finite
  refine ⟨Finite.injective_iff_bijective.mp draw_injective, fun seed => ⟨fun n hn => ?_, ?_⟩⟩
  · -- zero is a fixed point, so it has no other state before it
    have hzero : draw^[n] (new seed) = draw^[n] ⟨0⟩ := by
      rw [iterate_fixed (rfl : draw ⟨0⟩ = ⟨0⟩)]
      exact congrArg mk hn
    have hseed := congrArg state (draw_injective.iterate n hzero)
    unfold new at hseed
    dsimp only at hseed
    split at hseed
    · exact absurd hseed (by decide)
    next hne => exact hne hseed
  · obtain ⟨p, hp, hper⟩ := mem_periodicPts.mp (draw_injective.mem_periodicPts (new seed))
    refine ⟨p, hp, fun n => ?_⟩
    rw [iterate_add_apply, hper]

end Rng

end Ignition.Vmm
