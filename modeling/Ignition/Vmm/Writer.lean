import Ignition.Base.Run
import Ignition.Vmm.Write

/-!
# A writer over its whole life

One `SnapshotWriter` takes a sequence of captures, some of which fail. A `Session` is
the writer and the store, with three ghosts that record what the calls did: the RAM of
the last successful capture, everything written so far, and the names the current
chain goes through.

The chain is only as good as the files of its layers. The writer's guard compares the
requested name with its parent and with the snapshot it was restored from, and nothing
else; and it compares *names*, while the file operations work on the directory a name
leads to and on a staging directory next to it. So a call can destroy a layer the
chain depends on: by repeating the name of an older ancestor, or by a fresh name whose
directory or staging directory contains a layer.

`Apart` is the missing condition: the call's two directories stay clear of the files of
every layer in use. Under it the chain invariant is kept by every call, successful or
not (`call_inv`), and so along every run.
-/

namespace Ignition.Vmm

open Files Runs List

structure Call where
  requested : Option String
  cap : Capture
  script : Script

structure Session where
  writer : SnapshotWriter
  tree : Files.Tree Datum
  ram : Bytes
  written : List (String × Bytes)
  chain : List String

namespace Session

def target (s : Session) (k : Call) : String := s.writer.target k.requested

def result (s : Session) (k : Call) : Outcome × SnapshotWriter × Files.Tree Datum :=
  s.writer.write k.requested k.cap k.script s.tree

/-- One `write` call. -/
def call (s : Session) (k : Call) : Session :=
  if (s.result k).1 = .done then
    { writer := (s.result k).2.1
      tree := (s.result k).2.2
      ram := k.cap.ram
      written := (s.target k, k.cap.ram) :: s.written
      chain := s.target k :: s.chain }
  else { s with writer := (s.result k).2.1, tree := (s.result k).2.2 }

def step (s : Session) (k : Call) : Option Session := some (s.call k)

/-- A session starts without a parent, or from a parent whose chain reassembles to the
initial RAM. `extra` are the names the manifests of that chain carry. -/
structure Start (extra : List String) (s : Session) : Prop where
  nothing_written : s.written = []
  parent_ok : (s.writer.parent = none ∧ s.chain = []) ∨
    ∃ p ms, s.writer.parent = some p ∧ resolveChain s.tree s.writer.store p = .ok ms ∧
      reassemble s.tree s.writer.store ms = .ok s.ram ∧
      s.chain = p :: ms.reverse.filterMap (·.parent) ∧ extra = ms.map (·.name)

/-- The call stays clear of every layer in use. -/
structure Apart (extra : List String) (s : Session) (k : Call) : Prop where
  staged_elsewhere : (stagingDir (baseDir s.writer.store (s.target k))).loc ≠
    (baseDir s.writer.store (s.target k)).loc
  layers_avoided : ∀ n ∈ s.chain ++ extra,
    LayerAvoids (writeRoots (baseDir s.writer.store (s.target k))) s.writer.store n

/-! ## One call -/

theorem result_eq (s : Session) (k : Call) :
    ((s.result k).1 ≠ .done ∧ (s.result k).2 = (s.writer, s.tree)) ∨
      s.result k = ((exec (s.writer.program (s.target k) k.cap) k.script s.tree).1,
        if (exec (s.writer.program (s.target k) k.cap) k.script s.tree).1 = .done ∧
          k.cap.dirty.isSome then { s.writer with parent := some (s.target k) } else s.writer,
        (exec (s.writer.program (s.target k) k.cap) k.script s.tree).2) := by
  unfold result SnapshotWriter.write target
  simp only
  split
  · exact .inl ⟨fun h => (nomatch h), rfl⟩
  · exact .inr rfl

theorem result_framed (s : Session) (k : Call) :
    Tree.Framed (writeRoots (baseDir s.writer.store (s.target k)))
      (stagingDir (baseDir s.writer.store (s.target k))).spots s.tree (s.result k).2.2 := by
  rcases s.result_eq k with ⟨-, h⟩ | h
  · rw [h]
    exact Tree.Framed.refl _
  · rw [h]
    exact program_framed s.writer (s.target k) k.cap k.script s.tree

variable {s : Session} {k : Call} {extra : List String}

/-- **A failed call leaves the writer as it was.** -/
theorem result_writer_of_failed (h : (s.result k).1 ≠ .done) :
    (s.result k).2.1 = s.writer := by
  rcases s.result_eq k with ⟨-, h2⟩ | h2
  · rw [h2]
  · rw [h2] at h ⊢
    exact if_neg fun hc => h hc.1

theorem program_of_done (h : (s.result k).1 = .done) :
    exec (s.writer.program (s.target k) k.cap) k.script s.tree = (.done, (s.result k).2.2) := by
  rcases s.result_eq k with ⟨h1, -⟩ | h2
  · exact absurd h h1
  · rw [h2] at h ⊢
    exact Prod.ext h rfl

theorem result_writer_of_done (h : (s.result k).1 = .done) (hd : k.cap.dirty.isSome) :
    (s.result k).2.1 = { s.writer with parent := some (s.target k) } := by
  rcases s.result_eq k with ⟨h1, -⟩ | h2
  · exact absurd h h1
  · rw [h2] at h ⊢
    exact if_pos ⟨h, hd⟩

theorem Apart.target_not_mem (h : Apart extra s k) : s.target k ∉ s.chain := by
  intro hmem
  have hav := h.layers_avoided _ (mem_append_left _ hmem) manifestJson (mem_cons_self ..)
  refine hav _ (Path.loc_mem_spots _) _ (mem_cons_self ..) ?_
  rw [Path.loc_child]
  exact prefix_append ..

/-! ## The invariant -/

structure Inv (extra : List String) (s : Session) : Prop where
  fresh : s.writer.parent = none → s.chain = []
  parent_chain : ∀ p, s.writer.parent = some p → ∃ m tl,
    Chain s.tree s.writer.store ((p, m) :: tl) s.ram ∧
      s.chain = ((p, m) :: tl).map Prod.fst ∧
      ∀ n ∈ chainNames ((p, m) :: tl), n ∈ s.chain ++ extra
  written_chain : ∀ n r, (n, r) ∈ s.written → ∃ m tl,
    Chain s.tree s.writer.store ((n, m) :: tl) r ∧
      ∀ n' ∈ chainNames ((n, m) :: tl), n' ∈ s.chain ++ extra

theorem Start.inv (h : Start extra s) : Inv extra s := by
  refine ⟨fun hp => ?_, fun p hp => ?_, fun n r hm => ?_⟩
  · rcases h.parent_ok with ⟨-, hc⟩ | ⟨p, _, hp', -⟩
    · exact hc
    · rw [hp] at hp'
      cases hp'
  · rcases h.parent_ok with ⟨hp', -⟩ | ⟨p', ms, hp', hres, hram, hchain, hextra⟩
    · rw [hp] at hp'
      cases hp'
    · obtain rfl : p = p' := Option.some.inj (hp.symm.trans hp')
      obtain ⟨m, tl, hl, hms⟩ := resolveChain_ok.mp hres
      have hnames : s.chain = ((p, m) :: tl).map Prod.fst := by
        rw [hchain, hms, reverse_reverse, hl.names_eq (p, m) rfl]
      refine ⟨m, tl, ⟨hl, hms ▸ hram⟩, hnames, fun n hn => ?_⟩
      rcases mem_append.mp hn with hn | hn
      · exact mem_append_left _ (hnames ▸ hn)
      obtain ⟨e, he, rfl⟩ := mem_map.mp hn
      rw [hextra, hms]
      exact mem_append_right _ (mem_map.mpr
        ⟨e.2, mem_reverse.mpr (mem_map.mpr ⟨e, he, rfl⟩), rfl⟩)
  · rw [h.nothing_written] at hm
    cases hm

theorem Apart.chain_framed (h : Apart extra s k) {es : List Layer} {r : Bytes}
    (hc : Chain s.tree s.writer.store es r) (hes : ∀ n ∈ chainNames es, n ∈ s.chain ++ extra) :
    Chain (s.result k).2.2 s.writer.store es r :=
  hc.framed (s.result_framed k) fun n hn => h.layers_avoided n (hes n hn)

theorem call_of_done (h : (s.result k).1 = .done) :
    s.call k =
      { writer := (s.result k).2.1
        tree := (s.result k).2.2
        ram := k.cap.ram
        written := (s.target k, k.cap.ram) :: s.written
        chain := s.target k :: s.chain } := if_pos h

theorem call_of_failed (h : (s.result k).1 ≠ .done) :
    s.call k = { s with writer := (s.result k).2.1, tree := (s.result k).2.2 } := if_neg h

/-- What a call has to bring: a dirty list, which covers the pages changed since the last
successful capture if there is one to build on. -/
structure Covered (s : Session) (k : Call) : Prop where
  tracked : k.cap.dirty.isSome
  covers : s.writer.parent.isSome → SnapshotWriter.Covers k.cap s.ram

theorem Inv.new_layer (h : Inv extra s) (ha : Apart extra s k) (hcov : Covered s k)
    (hd : (s.result k).1 = .done) : ∃ m tl,
      Chain (s.result k).2.2 s.writer.store ((s.target k, m) :: tl) k.cap.ram ∧
        tl.map Prod.fst = s.chain ∧
        ∀ n ∈ chainNames ((s.target k, m) :: tl), n ∈ (s.target k :: s.chain) ++ extra := by
  have hprog := program_of_done hd
  refine ⟨s.writer.manifest (s.target k) k.cap.snap, ?_⟩
  cases hp : s.writer.parent with
  | none =>
    refine ⟨[], SnapshotWriter.full_chain hp ha.staged_elsewhere hprog, ?_, fun n hn => ?_⟩
    · rw [h.fresh hp]
      rfl
    · simp only [chainNames, map_cons, map_nil, cons_append, nil_append,
        SnapshotWriter.manifest_name, mem_cons, not_mem_nil, or_false, or_self] at hn
      rw [hn]
      exact mem_cons_self ..
  | some p =>
    obtain ⟨pm, tl, hc, hchain, hnames⟩ := h.parent_chain p hp
    refine ⟨(p, pm) :: tl, ?_, hchain.symm, fun n hn => ?_⟩
    · exact SnapshotWriter.diff_chain hp ha.staged_elsewhere hc
        (fun n hn => ha.layers_avoided n (hnames n hn)) (hchain ▸ ha.target_not_mem)
        (hcov.covers (by rw [hp]; rfl)) hprog
    · -- the new names are the target's; the rest was in use before
      have hcases : n = s.target k ∨ n ∈ chainNames ((p, pm) :: tl) := by
        rcases mem_append.mp hn with hn | hn
        · rcases mem_cons.mp hn with rfl | hn
          · exact .inl rfl
          · exact .inr (mem_append_left _ hn)
        · rcases mem_cons.mp hn with rfl | hn
          · exact .inl (SnapshotWriter.manifest_name ..)
          · exact .inr (mem_append_right _ hn)
      rcases hcases with rfl | hn
      · exact mem_cons_self ..
      · exact mem_cons_of_mem _ (hnames n hn)

/-- **One call keeps the invariant.** -/
theorem call_inv (h : Inv extra s) (ha : Apart extra s k) (hcov : Covered s k) :
    Inv extra (s.call k) := by
  by_cases hd : (s.result k).1 = .done
  · have hw := result_writer_of_done hd hcov.tracked
    obtain ⟨m, tl, hc, htl, hnames⟩ := h.new_layer ha hcov hd
    rw [call_of_done hd, hw]
    refine ⟨fun hp => (nomatch hp), fun p hp => ?_, fun n r hm => ?_⟩
    · obtain rfl : s.target k = p := Option.some.inj hp
      refine ⟨m, tl, hc, ?_, hnames⟩
      rw [map_cons, htl]
    · rcases mem_cons.mp hm with heq | hm
      · obtain ⟨rfl, rfl⟩ := Prod.mk.inj heq
        exact ⟨m, tl, hc, hnames⟩
      · obtain ⟨m', tl', hc', hn'⟩ := h.written_chain n r hm
        exact ⟨m', tl', ha.chain_framed hc' hn', fun n' hn => mem_cons_of_mem _ (hn' n' hn)⟩
  · rw [call_of_failed hd, result_writer_of_failed hd]
    refine ⟨h.fresh, fun p hp => ?_, fun n r hm => ?_⟩
    · obtain ⟨m, tl, hc, hchain, hnames⟩ := h.parent_chain p hp
      exact ⟨m, tl, ha.chain_framed hc hnames, hchain, hnames⟩
    · obtain ⟨m, tl, hc, hnames⟩ := h.written_chain n r hm
      exact ⟨m, tl, ha.chain_framed hc hnames, hnames⟩

theorem run_inv {s' : Session} {ks : List Call} (h0 : Start extra s)
    (h : Run step (fun s k => Covered s k ∧ Apart extra s k) s ks s') : Inv extra s' :=
  h.invariant (fun _ _ _ hi hok hst => Option.some.inj hst ▸ call_inv hi hok.2 hok.1) h0.inv

/-! ## Everything written stays restorable -/

/-- **Writer correctness.** Along every run of covered calls that stay clear of the layers
in use, with failures anywhere in between, each name written reassembles to the RAM passed
to its call, and a failed call leaves the parent alone. -/
theorem written_restorable {extra : List String} {s s' : Session} {ks : List Call}
    (h0 : Start extra s) (h : Run step (fun s k => Covered s k ∧ Apart extra s k) s ks s') :
    (∀ n r, (n, r) ∈ s'.written → Restores s'.tree s'.writer.store n r) ∧
      ∀ k, (s'.result k).1 ≠ .done → (s'.call k).writer.parent = s'.writer.parent := by
  refine ⟨fun n r hm => ?_, fun k hk => ?_⟩
  · obtain ⟨m, tl, hc, -⟩ := (run_inv h0 h).written_chain n r hm
    exact restores_iff.mpr ⟨m, tl, hc⟩
  · rw [call_of_failed hk]
    show (s'.result k).2.1.parent = _
    rw [result_writer_of_failed hk]

/-! ### A one-page machine on an empty store -/

def diskName : Name := diskImg

def zeroPage : Bytes := List.replicate PAGE 0

theorem zeroPage_ok : RamOk zeroPage := by
  have hlen : zeroPage.length = PAGE := length_replicate
  exact ⟨by rw [hlen]; decide, by rw [hlen]; decide⟩

def idleCapture : Capture where
  snap := .new ⟨PAGE, 1⟩ [] []
  ram := zeroPage
  gic := []
  disk := [.name diskName]
  dirty := some []

theorem idleCapture_covers : SnapshotWriter.Covers idleCapture zeroPage where
  ramOk := zeroPage_ok
  length_eq := rfl
  tracked := ⟨[], rfl, fun _ hp => (nomatch hp), Paged.differsIn_refl PAGE _ zeroPage⟩

def idleCall (name : String) : Call := ⟨some name, idleCapture, []⟩

def bootSession : Session where
  writer := ⟨[], "base", none, none, false⟩
  tree := Tree.empty.put [diskName] (.file [])
  ram := zeroPage
  written := []
  chain := []

theorem bootSession_start : Start [] bootSession := ⟨rfl, .inl ⟨rfl, rfl⟩⟩

def afterIdle (names : List String) : Session :=
  names.foldl (fun s n => s.call (idleCall n)) bootSession

theorem ram_call_idle (h : s.ram = zeroPage) (n : String) :
    (s.call (idleCall n)).ram = zeroPage := by
  unfold call
  split
  · rfl
  · exact h

theorem ram_afterIdle (names : List String) : (afterIdle names).ram = zeroPage := by
  suffices hgen : ∀ s : Session, s.ram = zeroPage →
      (names.foldl (fun s n => s.call (idleCall n)) s).ram = zeroPage from hgen _ rfl
  induction names with
  | nil => exact fun s h => h
  | cons n names ih => exact fun s h => ih _ (ram_call_idle h n)

theorem covered_afterIdle (names : List String) (n : String) :
    Covered (afterIdle names) (idleCall n) := by
  refine ⟨rfl, fun _ => ?_⟩
  rw [ram_afterIdle]
  exact idleCapture_covers

theorem apart_a : Apart [] bootSession (idleCall "a") := ⟨by decide +kernel, by decide +kernel⟩

theorem apart_b_after_a : Apart [] (afterIdle ["a"]) (idleCall "b") :=
  ⟨by decide +kernel, by decide +kernel⟩

theorem run_a_b : Run step (fun s k => Covered s k ∧ Apart [] s k) bootSession
    [idleCall "a", idleCall "b"] (afterIdle ["a", "b"]) :=
  .cons ⟨covered_afterIdle [] "a", apart_a⟩ rfl
    (.cons ⟨covered_afterIdle ["a"] "b", apart_b_after_a⟩ rfl (.nil _))

theorem written_restorable_two_layers :
    (afterIdle ["a", "b"]).written.map Prod.fst = ["b", "a"] ∧
      ((∀ n r, (n, r) ∈ (afterIdle ["a", "b"]).written →
          Restores (afterIdle ["a", "b"]).tree (afterIdle ["a", "b"]).writer.store n r) ∧
        ∀ k, ((afterIdle ["a", "b"]).result k).1 ≠ .done →
          ((afterIdle ["a", "b"]).call k).writer.parent =
            (afterIdle ["a", "b"]).writer.parent) :=
  ⟨by decide +kernel, written_restorable bootSession_start run_a_b⟩

def Fresh (s : Session) (k : Call) : Prop :=
  s.target k ∉ s.written.map Prod.fst ∧
    s.tree.node (baseDir s.writer.store (s.target k)).loc = none

theorem staging_deletes_parent :
    Start [] bootSession ∧
      Run step (fun s k => Covered s k ∧ Fresh s k) bootSession
        [idleCall "x.tmp/y", idleCall "x"] (afterIdle ["x.tmp/y", "x"]) ∧
      ("x.tmp/y", zeroPage) ∈ (afterIdle ["x.tmp/y", "x"]).written ∧
      ¬ Restores (afterIdle ["x.tmp/y", "x"]).tree (afterIdle ["x.tmp/y", "x"]).writer.store
        "x.tmp/y" zeroPage := by
  have hres : resolveChain (afterIdle ["x.tmp/y", "x"]).tree
      (afterIdle ["x.tmp/y", "x"]).writer.store "x.tmp/y" =
        .error "missing layer x.tmp/y: os error" := by decide +kernel
  refine ⟨bootSession_start, ?_, by decide +kernel, fun ⟨ms, hms, _⟩ => ?_⟩
  · refine .cons ⟨covered_afterIdle [] _, by decide +kernel, ?_⟩ rfl
      (.cons ⟨covered_afterIdle ["x.tmp/y"] _, by decide +kernel, ?_⟩ rfl (.nil _))
    · exact Option.isNone_iff_eq_none.mp (by decide +kernel)
    · exact Option.isNone_iff_eq_none.mp (by decide +kernel)
  · rw [hres] at hms
    cases hms

/-! ## The chain a run builds on -/

end Session

theorem Links.resolves {t : Files.Tree Datum} {store : Loc} {es : List Layer}
    (h : Links t store es) :
    ∀ n ∈ es.map Prod.fst, ∃ ms, resolveChain t store n = .ok ms := by
  induction h with
  | root hm hp =>
    intro n hn
    rw [mem_singleton.mp hn]
    exact ⟨_, resolveChain_ok.mpr ⟨_, [], .root hm hp, rfl⟩⟩
  | layer hl hn hm hp ih =>
    intro n hmem
    rcases mem_cons.mp hmem with rfl | hmem
    · exact ⟨_, resolveChain_ok.mpr ⟨_, _, .layer hl hn hm hp, rfl⟩⟩
    · exact ih n hmem

namespace Session

/-- **Source protection.** Along every run of covered calls that stay clear of the layers
in use, every layer the current chain goes through still resolves, and the newest snapshot
reassembles to the RAM passed to its call. -/
theorem sources_protected {extra : List String} {s s' : Session} {ks : List Call}
    (h0 : Start extra s) (h : Run step (fun s k => Covered s k ∧ Apart extra s k) s ks s') :
    (∀ n ∈ s'.chain, ∃ ms, resolveChain s'.tree s'.writer.store n = .ok ms) ∧
      ∀ n r, s'.written.head? = some (n, r) → Restores s'.tree s'.writer.store n r := by
  have hinv := run_inv h0 h
  refine ⟨fun n hn => ?_, fun n r hhead => ?_⟩
  · cases hp : s'.writer.parent with
    | none =>
      rw [hinv.fresh hp] at hn
      cases hn
    | some p =>
      obtain ⟨m, tl, hc, hchain, -⟩ := hinv.parent_chain p hp
      exact hc.links.resolves n (hchain ▸ hn)
  · obtain ⟨m, tl, hc, -⟩ := hinv.written_chain n r (mem_of_mem_head? hhead)
    exact restores_iff.mpr ⟨m, tl, hc⟩

theorem sources_protected_two_layers :
    (afterIdle ["a", "b"]).chain = ["b", "a"] ∧
      ((∀ n ∈ (afterIdle ["a", "b"]).chain, ∃ ms,
          resolveChain (afterIdle ["a", "b"]).tree (afterIdle ["a", "b"]).writer.store n = .ok ms) ∧
        ∀ n r, (afterIdle ["a", "b"]).written.head? = some (n, r) →
          Restores (afterIdle ["a", "b"]).tree (afterIdle ["a", "b"]).writer.store n r) :=
  ⟨by decide +kernel, sources_protected bootSession_start run_a_b⟩

theorem ancestor_overwritten :
    Start [] bootSession ∧ bootSession.writer.force = false ∧
      Run step (fun s k => Covered s k ∧ (s.result k).1 = .done) bootSession
        [idleCall "a", idleCall "b", idleCall "a"] (afterIdle ["a", "b", "a"]) ∧
      "b" ∈ (afterIdle ["a", "b", "a"]).chain ∧
      ¬ ∃ ms, resolveChain (afterIdle ["a", "b", "a"]).tree
        (afterIdle ["a", "b", "a"]).writer.store "b" = .ok ms := by
  have hres : resolveChain (afterIdle ["a", "b", "a"]).tree
      (afterIdle ["a", "b", "a"]).writer.store "b" =
        .error "snapshot chain cycle at b" := by decide +kernel
  refine ⟨bootSession_start, rfl, ?_, by decide +kernel, fun h => ?_⟩
  · exact .cons ⟨covered_afterIdle [] _, by decide +kernel⟩ rfl
      (.cons ⟨covered_afterIdle ["a"] _, by decide +kernel⟩ rfl
        (.cons ⟨covered_afterIdle ["a", "b"] _, by decide +kernel⟩ rfl (.nil _)))
  · obtain ⟨ms, hms⟩ := h
    rw [hres] at hms
    cases hms

end Session

end Ignition.Vmm
