import Ignition.Vmm.Snapshot
import Mathlib.Data.List.Nodup
import Mathlib.Data.List.Perm.Subperm

/-!
# Layer chains on disk

What a diff chain is for. `Links t store es` says that the entries `es`, each the name
a layer is looked up under and the manifest found there, form a chain from a leaf down
to a full root without a repetition. `Chain t store es ram` adds that laying the layers
over one another gives `ram`. It is the abstract meaning of a snapshot, and
`resolve_chain` computes it:

- `resolveChain_ok`: the loop succeeds exactly on chains, and returns their manifests
  root first. In particular the bound on the loop is never reached on a chain: there
  are no more layers than files (`Links.length_le`).
- `resolveChain_exact`: nor is it reached anywhere else, so the loop of the source, which
  has no bound, always ends, with what `resolveChain` returns.
- `Chain.framed`: a chain survives any effect that stays clear of its layers' files.

A manifest carries its own name, and the restore path reads a layer's memory under
*that* name; nothing forces it to be the name the layer was looked up under, so an
entry keeps both.
-/

namespace Ignition.Vmm

open Files List

/-- A layer: the name it is looked up under, and its manifest. -/
abbrev Layer := String × SnapshotManifest

inductive Links (t : Files.Tree Datum) (store : Loc) : List Layer → Prop where
  | root {n : String} {m : SnapshotManifest} :
      readManifest t (baseDir store n) = some m → m.parent = none → Links t store [(n, m)]
  | layer {n p : String} {m pm : SnapshotManifest} {es : List Layer} :
      Links t store ((p, pm) :: es) → n ∉ ((p, pm) :: es).map Prod.fst →
      readManifest t (baseDir store n) = some m → m.parent = some p →
      Links t store ((n, m) :: (p, pm) :: es)

/-- The layers `es`, leaf first, are on disk and reassemble to `ram`. -/
structure Chain (t : Files.Tree Datum) (store : Loc) (es : List Layer) (ram : Bytes) : Prop where
  links : Links t store es
  image : reassemble t store (es.map Prod.snd).reverse = .ok ram

/-! ## Manifests -/

variable {t : Files.Tree Datum} {dir : Path} {m : SnapshotManifest} {store : Loc}

theorem readManifest_eq_some (h : readManifest t dir = some m) :
    t.readFile (paths dir).manifest = some [.manifest m] := by
  unfold readManifest at h
  split at h
  next m' hm =>
    rw [Option.some.injEq] at h
    rw [hm, h]
  · cases h

theorem readManifest_of_readFile (h : t.readFile (paths dir).manifest = some [.manifest m]) :
    readManifest t dir = some m := by
  unfold readManifest
  rw [h]

namespace Links

variable {t : Files.Tree Datum} {store : Loc}

variable {es : List Layer}

theorem names_nodup (h : Links t store es) : (es.map Prod.fst).Nodup := by
  induction h with
  | root _ _ => exact nodup_singleton _
  | layer _ hn _ _ ih => exact nodup_cons.mpr ⟨hn, ih⟩

theorem readManifest_eq (h : Links t store es) : ∀ e ∈ es,
    readManifest t (baseDir store e.1) = some e.2 := by
  induction h with
  | root hm _ =>
    intro e he
    rw [mem_singleton.mp he]
    exact hm
  | layer _ _ hm _ ih =>
    intro e he
    rcases mem_cons.mp he with rfl | he
    · exact hm
    · exact ih e he

theorem names_eq (h : Links t store es) : ∀ e, es.head? = some e →
    es.map Prod.fst = e.1 :: (es.map Prod.snd).filterMap (·.parent) := by
  induction h with
  | root _ hp =>
    intro e he
    cases he
    simp [hp]
  | @layer n p m pm es _ _ _ hp ih =>
    intro e he
    cases he
    have htail := ih (p, pm) rfl
    show n :: ((p, pm) :: es).map Prod.fst =
      n :: (m :: ((p, pm) :: es).map Prod.snd).filterMap (·.parent)
    rw [htail, filterMap_cons, hp]

theorem parent_ne (h : Links t store es) {e : Layer} {n : String} {m : SnapshotManifest}
    {tl : List Layer} (hes : es = (n, m) :: tl) (he : e ∈ es) :
    e.2.parent ≠ some n := by
  intro hp
  have hnames := h.names_eq (n, m) (by rw [hes]; rfl)
  have hnd := h.names_nodup
  rw [hnames] at hnd
  exact (nodup_cons.mp hnd).1
    (mem_filterMap.mpr ⟨e.2, mem_map.mpr ⟨e, he, rfl⟩, hp⟩)

theorem manifests_nodup (h : Links t store es) : (es.map Prod.snd).Nodup := by
  induction h with
  | root _ _ => exact nodup_singleton _
  | @layer n p m pm es hl _ _ hp ih =>
    refine nodup_cons.mpr ⟨fun hm => ?_, ih⟩
    obtain ⟨e, he, heq⟩ := mem_map.mp hm
    exact hl.parent_ne rfl he (heq ▸ hp)

theorem length_le (h : Links t store es) : es.length ≤ t.support.length := by
  let locOf : Layer → Loc := fun e => (paths (baseDir store e.1)).manifest.loc
  have hnode : ∀ e ∈ es, t.node (locOf e) = some (.file [.manifest e.2]) := fun e he =>
    (Tree.readFile_eq_some (readManifest_eq_some (h.readManifest_eq e he))).2
  have hinj : ∀ e ∈ es, ∀ e' ∈ es, locOf e = locOf e' → e = e' := by
    intro e he e' he' heq
    have h1 := hnode e he
    rw [heq, hnode e' he'] at h1
    simp only [Option.some.injEq, Node.file.injEq, List.cons.injEq, Datum.manifest.injEq,
      and_true] at h1
    exact inj_on_of_nodup_map h.manifests_nodup he he' h1.symm
  have hnd : (es.map locOf).Nodup := (h.names_nodup.of_map _).map_on hinj
  have hsub : es.map locOf ⊆ t.support := by
    intro l hl
    obtain ⟨e, he, rfl⟩ := mem_map.mp hl
    exact t.finite _ (by rw [hnode e he]; rfl)
  have hle := (subperm_of_subset hnd hsub).length_le
  rwa [length_map] at hle

/-! ## The loop -/

theorem resolveLoop_eq (h : Links t store es) : ∀ (e : Layer) (fuel : Nat)
    (seen : List String) (acc : List SnapshotManifest), es.head? = some e → es.length ≤ fuel →
    (∀ n ∈ es.map Prod.fst, n ∉ seen) →
    resolveLoop t store fuel seen e.1 acc = .ok ((es.map Prod.snd).reverse ++ acc) := by
  induction h with
  | @root n m hm hp =>
    intro e fuel seen acc he hfuel hseen
    cases he
    rw [length_singleton] at hfuel
    obtain ⟨fuel, rfl⟩ : ∃ k, fuel = k + 1 := ⟨fuel - 1, by omega⟩
    unfold resolveLoop
    rw [if_neg (hseen n (mem_cons_self ..)), hm]
    simp only [hp]
    rfl
  | @layer n p m pm es _ hn hm hp ih =>
    intro e fuel seen acc he hfuel hseen
    cases he
    rw [length_cons] at hfuel
    obtain ⟨fuel, rfl⟩ : ∃ k, fuel = k + 1 := ⟨fuel - 1, by omega⟩
    unfold resolveLoop
    rw [if_neg (hseen n (mem_cons_self ..)), hm]
    simp only [hp]
    rw [ih (p, pm) fuel (n :: seen) (m :: acc) rfl (by omega)]
    · show _ = Except.ok ((m :: ((p, pm) :: es).map Prod.snd).reverse ++ acc)
      rw [reverse_cons, append_assoc]
      rfl
    · -- the names below differ from this one and were not seen before
      intro k hk hc
      rcases mem_cons.mp hc with heq | hold
      · exact hn (heq ▸ hk)
      · exact hseen k (mem_cons_of_mem _ hk) hold

end Links

theorem resolveLoop_ok : ∀ {fuel : Nat} {seen : List String}
    {cur : String} {acc out : List SnapshotManifest},
    resolveLoop t store fuel seen cur acc = .ok out →
    ∃ m tl, Links t store ((cur, m) :: tl) ∧ (∀ n ∈ ((cur, m) :: tl).map Prod.fst, n ∉ seen) ∧
      out = (((cur, m) :: tl).map Prod.snd).reverse ++ acc
  | 0, _, _, _, _, h => nomatch h
  | fuel + 1, seen, cur, acc, out, h => by
    unfold resolveLoop at h
    split at h
    · cases h
    rename_i hcur
    split at h
    · cases h
    rename_i m hm
    split at h
    next p hp =>
      obtain ⟨pm, tl, hl, hns, hout⟩ := resolveLoop_ok h
      have hn : cur ∉ ((p, pm) :: tl).map Prod.fst :=
        fun hc => hns cur hc (mem_cons_self ..)
      refine ⟨m, (p, pm) :: tl, .layer hl hn hm hp, fun n hmem => ?_, ?_⟩
      · rcases mem_cons.mp hmem with rfl | hmem
        · exact hcur
        · exact fun hc => hns n hmem (mem_cons_of_mem _ hc)
      · rw [hout]
        simp
    next hp =>
      refine ⟨m, [], .root hm hp, fun n hmem => ?_, (Except.ok.inj h).symm⟩
      rw [mem_singleton.mp hmem]
      exact hcur

/-- **`resolve_chain` succeeds exactly on chains, and returns them root first.** -/
theorem resolveChain_ok {leaf : String} {ms : List SnapshotManifest} :
    resolveChain t store leaf = .ok ms ↔
      ∃ m tl, Links t store ((leaf, m) :: tl) ∧ ms = (((leaf, m) :: tl).map Prod.snd).reverse := by
  unfold resolveChain
  refine ⟨fun h => ?_, fun h => ?_⟩
  · obtain ⟨m, tl, hl, -, hout⟩ := resolveLoop_ok h
    rw [append_nil] at hout
    exact ⟨m, tl, hl, hout⟩
  · obtain ⟨m, tl, hl, hms⟩ := h
    have hlen := hl.length_le
    rw [hl.resolveLoop_eq (leaf, m) (t.support.length + 2) [] [] rfl (by omega)
      (fun _ _ hc => nomatch hc), append_nil, hms]

/-- The loop of `resolve_chain` without a bound: from these names seen, this current name and
these manifests it ends, with this result. -/
inductive ResolveReturns (t : Files.Tree Datum) (store : Loc) : List String → String →
    List SnapshotManifest → Except String (List SnapshotManifest) → Prop where
  | cycle {seen cur chain} : cur ∈ seen →
      ResolveReturns t store seen cur chain (.error s!"snapshot chain cycle at {cur}")
  | missing {seen cur chain} : cur ∉ seen → readManifest t (baseDir store cur) = none →
      ResolveReturns t store seen cur chain (.error s!"missing layer {cur}: {osError}")
  | root {seen cur chain m} : cur ∉ seen → readManifest t (baseDir store cur) = some m →
      m.parent = none → ResolveReturns t store seen cur chain (.ok (m :: chain))
  | next {seen cur chain m p r} : cur ∉ seen → readManifest t (baseDir store cur) = some m →
      m.parent = some p → ResolveReturns t store (cur :: seen) p (m :: chain) r →
      ResolveReturns t store seen cur chain r

def parentNames (t : Files.Tree Datum) : List String :=
  t.support.filterMap fun l =>
    match t.node l with
    | some (.file [.manifest m]) => m.parent
    | _ => none

theorem mem_parentNames {p : String} (h : readManifest t dir = some m) (hp : m.parent = some p) :
    p ∈ parentNames t := by
  have hnode := (Tree.readFile_eq_some (readManifest_eq_some h)).2
  refine mem_filterMap.mpr ⟨_, t.finite (paths dir).manifest.loc (by rw [hnode]; rfl), ?_⟩
  rw [hnode]
  exact hp

-- Only names from `names` are ever visited and none twice, so the names seen and the
-- iterations left together stay above their number, and the last iteration is never used up.
theorem resolveLoop_returns (names : List String) (hpar : parentNames t ⊆ names) :
    ∀ {fuel : Nat} {seen : List String} {cur : String} {chain : List SnapshotManifest},
      seen.Nodup → seen ⊆ names → cur ∈ names → names.length < fuel + seen.length →
      ResolveReturns t store seen cur chain (resolveLoop t store fuel seen cur chain)
  | 0, seen, _, _, hnd, hsub, _, hlt => by
    have hle := (subperm_of_subset hnd hsub).length_le
    omega
  | fuel + 1, seen, cur, chain, hnd, hsub, hcur, hlt => by
    unfold resolveLoop
    split
    next hmem => exact .cycle hmem
    rename_i hmem
    split
    next hm => exact .missing hmem hm
    rename_i m hm
    split
    next p hp =>
      refine .next hmem hm hp (resolveLoop_returns names hpar (nodup_cons.mpr ⟨hmem, hnd⟩)
        (cons_subset.mpr ⟨hcur, hsub⟩) (hpar (mem_parentNames hm hp)) ?_)
      rw [length_cons]
      omega
    next hp => exact .root hmem hm hp

/-- **`resolve_chain` ends on every store**, succeeds exactly if following the parents from
the leaf reaches a manifest without one, with no layer missing and no name repeated, and
then returns the manifests on that path, root first. -/
theorem resolveChain_exact (t : Files.Tree Datum) (store : Loc) (leaf : String) :
    ResolveReturns t store [] leaf [] (resolveChain t store leaf) ∧
      ∀ ms, resolveChain t store leaf = .ok ms ↔
        ∃ es, Links t store es ∧ (es.map Prod.fst).head? = some leaf ∧
          ms = (es.map Prod.snd).reverse := by
  refine ⟨?_, fun ms => ?_⟩
  · have hlen : (parentNames t).length ≤ t.support.length := length_filterMap_le ..
    refine resolveLoop_returns (leaf :: parentNames t) (subset_cons_self ..)
      nodup_nil (nil_subset _) (mem_cons_self ..) ?_
    rw [length_cons, length_nil]
    omega
  rw [resolveChain_ok]
  constructor
  · rintro ⟨m, tl, hl, hms⟩
    exact ⟨_, hl, rfl, hms⟩
  · rintro ⟨es, hl, hhead, hms⟩
    cases es with
    | nil => cases hl
    | cons e tl =>
      obtain rfl : e.1 = leaf := Option.some.inj hhead
      exact ⟨e.2, tl, hl, hms⟩

/-! ## Reassembly -/

theorem bytesOf_eq_some {f : List Datum} : ∀ {b : Bytes}, bytesOf f = some b → f = raw b := by
  unfold bytesOf raw
  induction f with
  | nil =>
    intro b h
    cases h
    rfl
  | cons d f ih =>
    intro b h
    rw [mapM_cons] at h
    cases d with
    | byte x =>
      cases hf : f.mapM Datum.toByte? with
      | none => rw [hf] at h; cases h
      | some bs =>
        rw [hf] at h
        cases h
        rw [map_cons, ← ih hf]
    | state _ | manifest _ => cases h

theorem readBytes_ok {p : Path} {b : Bytes} :
    readBytes t p = .ok b ↔ t.readFile p = some (raw b) := by
  unfold readBytes
  refine ⟨fun h => ?_, fun h => ?_⟩
  · cases hf : t.readFile p with
    | none => rw [hf] at h; cases h
    | some f =>
      rw [hf, Option.bind_some] at h
      cases hb : bytesOf f with
      | none => rw [hb] at h; cases h
      | some b' =>
        rw [hb] at h
        obtain rfl := Except.ok.inj h
        rw [bytesOf_eq_some hb]
  · rw [h, Option.bind_some, bytesOf_raw]

theorem readDiffPages_ok {idx packed : Bytes}
    (hi : t.readFile (dir.child dirtyIdx) = some (raw idx))
    (hm : t.readFile (dir.child memoryBin) = some (raw packed)) :
    readDiffPages t dir = .ok (readIdx idx, packed) := by
  unfold readDiffPages
  rw [readBytes_ok.mpr hi, readBytes_ok.mpr hm]
  rfl

theorem overlay_append (t : Files.Tree Datum) (store : Loc) (ms : List SnapshotManifest)
    (m : SnapshotManifest) : ∀ ram, overlay t store (ms ++ [m]) ram = (do
      let ram' ← overlay t store ms ram
      overlay t store [m] ram') := by
  induction ms with
  | nil => intro ram; rfl
  | cons k ms ih =>
    intro ram
    rw [cons_append, overlay, overlay]
    cases readDiffPages t (baseDir store k.name) with
    | error e => rfl
    | ok d =>
      show (applyDiff ram d.1 d.2 >>= _) = _
      cases hd : applyDiff ram d.1 d.2 with
      | error e => simp [hd, bind, Except.bind]
      | ok ram' =>
        simp only [hd, bind, Except.bind] at ih ⊢
        exact ih ram'

theorem reassemble_concat {ms : List SnapshotManifest} {base : Bytes}
    (h : reassemble t store ms = .ok base) :
    reassemble t store (ms ++ [m]) = overlay t store [m] base := by
  cases ms with
  | nil => cases h
  | cons r ms =>
    rw [reassemble] at h
    rw [cons_append, reassemble]
    cases hr : readBytes t (paths (baseDir store r.name)).memory with
    | error e => rw [hr] at h; cases h
    | ok ram =>
      rw [hr] at h
      have h' : overlay t store ms ram = .ok base := h
      show overlay t store (ms ++ [m]) ram = _
      rw [overlay_append, h']
      rfl

/-! ## Frame -/

section Keeps

variable {t t' : Files.Tree Datum} {store : Loc}

theorem readManifest_keeps {dir : Path} (hk : t.Keeps t' (paths dir).manifest)
    {m : SnapshotManifest} (h : readManifest t dir = some m) : readManifest t' dir = some m :=
  readManifest_of_readFile (hk _ (readManifest_eq_some h))

theorem readBytes_keeps {p : Path} (hk : t.Keeps t' p) {b : Bytes} (h : readBytes t p = .ok b) :
    readBytes t' p = .ok b :=
  readBytes_ok.mpr (hk _ (readBytes_ok.mp h))

theorem readDiffPages_keeps {dir : Path} (hi : t.Keeps t' (dir.child dirtyIdx))
    (hm : t.Keeps t' (dir.child memoryBin)) {d : List Nat × Bytes}
    (h : readDiffPages t dir = .ok d) : readDiffPages t' dir = .ok d := by
  unfold readDiffPages at h ⊢
  cases hri : readBytes t (dir.child dirtyIdx) with
  | error e => rw [hri] at h; cases h
  | ok idx =>
    cases hrm : readBytes t (dir.child memoryBin) with
    | error e => rw [hri, hrm] at h; cases h
    | ok packed =>
      rw [hri, hrm] at h
      rw [readBytes_keeps hi hri, readBytes_keeps hm hrm]
      exact h

theorem overlay_keeps : ∀ {ms : List SnapshotManifest} {ram out : Bytes},
    (∀ m ∈ ms, t.Keeps t' ((baseDir store m.name).child dirtyIdx)) →
    (∀ m ∈ ms, t.Keeps t' ((baseDir store m.name).child memoryBin)) →
    overlay t store ms ram = .ok out → overlay t' store ms ram = .ok out
  | [], _, _, _, _, h => h
  | m :: ms, ram, out, hi, hm, h => by
    rw [overlay] at h ⊢
    cases hd : readDiffPages t (baseDir store m.name) with
    | error e => rw [hd] at h; cases h
    | ok d =>
      rw [hd] at h
      rw [readDiffPages_keeps (hi m (mem_cons_self ..)) (hm m (mem_cons_self ..)) hd]
      have h1 : (applyDiff ram d.1 d.2 >>= fun r => overlay t store ms r) = .ok out := h
      show (applyDiff ram d.1 d.2 >>= fun r => overlay t' store ms r) = .ok out
      cases hr : applyDiff ram d.1 d.2 with
      | error e => rw [hr] at h1; cases h1
      | ok ram' =>
        rw [hr] at h1
        exact overlay_keeps (fun k hk => hi k (mem_cons_of_mem _ hk))
          (fun k hk => hm k (mem_cons_of_mem _ hk)) h1

theorem reassemble_keeps {ms : List SnapshotManifest} {ram : Bytes}
    (hi : ∀ m ∈ ms.tail, t.Keeps t' ((baseDir store m.name).child dirtyIdx))
    (hm : ∀ m ∈ ms, t.Keeps t' ((baseDir store m.name).child memoryBin))
    (h : reassemble t store ms = .ok ram) : reassemble t' store ms = .ok ram := by
  cases ms with
  | nil => cases h
  | cons r ms =>
    rw [reassemble] at h ⊢
    cases hr : readBytes t (paths (baseDir store r.name)).memory with
    | error e => rw [hr] at h; cases h
    | ok base =>
      rw [hr] at h
      have hr' : readBytes t' (paths (baseDir store r.name)).memory = .ok base :=
        readBytes_keeps (hm r (mem_cons_self ..)) hr
      rw [hr']
      exact overlay_keeps hi (fun k hk => hm k (mem_cons_of_mem _ hk)) h

theorem Links.keeps {es : List Layer} (h : Links t store es)
    (hk : ∀ n ∈ es.map Prod.fst, t.Keeps t' (paths (baseDir store n)).manifest) :
    Links t' store es := by
  induction h with
  | root hm hp => exact .root (readManifest_keeps (hk _ (mem_cons_self ..)) hm) hp
  | layer _ hn hm hp ih =>
    exact .layer (ih fun n hn => hk n (mem_cons_of_mem _ hn)) hn
      (readManifest_keeps (hk _ (mem_cons_self ..)) hm) hp

theorem Chain.keeps {es : List Layer} {ram : Bytes} (h : Chain t store es ram)
    (hn : ∀ n ∈ es.map Prod.fst, t.Keeps t' (paths (baseDir store n)).manifest)
    (hi : ∀ e ∈ es.dropLast, t.Keeps t' ((baseDir store e.2.name).child dirtyIdx))
    (hm : ∀ e ∈ es, t.Keeps t' ((baseDir store e.2.name).child memoryBin)) :
    Chain t' store es ram := by
  refine ⟨h.links.keeps hn, reassemble_keeps (fun m hmem => ?_) (fun m hmem => ?_) h.image⟩
  · rw [tail_reverse, mem_reverse, ← map_dropLast] at hmem
    obtain ⟨e, he, rfl⟩ := mem_map.mp hmem
    exact hi e he
  · obtain ⟨e, he, rfl⟩ := mem_map.mp (mem_reverse.mp hmem)
    exact hm e he

end Keeps

def LayerAvoids (roots : List Loc) (store : Loc) (name : String) : Prop :=
  ∀ f ∈ [manifestJson, memoryBin, dirtyIdx], ((baseDir store name).child f).Avoids roots

instance (roots : List Loc) (store : Loc) (name : String) :
    Decidable (LayerAvoids roots store name) :=
  inferInstanceAs (Decidable (∀ f ∈ [manifestJson, memoryBin, dirtyIdx], _))

def chainNames (es : List Layer) : List String := es.map Prod.fst ++ es.map (·.2.name)

theorem Chain.framed {roots made : List Loc} {t' : Files.Tree Datum}
    (hf : Tree.Framed roots made t t') {es : List Layer} {ram : Bytes} (h : Chain t store es ram)
    (ha : ∀ n ∈ chainNames es, LayerAvoids roots store n) :
    Chain t' store es ram := by
  have hname : ∀ e ∈ es, LayerAvoids roots store e.2.name := fun e he =>
    ha _ (mem_append_right _ (mem_map.mpr ⟨e, he, rfl⟩))
  refine h.keeps (fun n hn => ?_) (fun e he => ?_) (fun e he => ?_)
  · exact hf.keeps (ha n (mem_append_left _ hn) manifestJson (by simp))
  · exact hf.keeps (hname e (mem_of_mem_dropLast he) dirtyIdx (by simp))
  · exact hf.keeps (hname e he memoryBin (by simp))

/-! ## Restoring -/

/-- `name` resolves, and its chain reassembles to `ram`. -/
def Restores (t : Files.Tree Datum) (store : Loc) (name : String) (ram : Bytes) : Prop :=
  ∃ ms, resolveChain t store name = .ok ms ∧ reassemble t store ms = .ok ram

theorem restores_iff {name : String} {ram : Bytes} :
    Restores t store name ram ↔ ∃ m tl, Chain t store ((name, m) :: tl) ram := by
  refine ⟨fun h => ?_, fun h => ?_⟩
  · obtain ⟨ms, hres, hram⟩ := h
    obtain ⟨m, tl, hl, rfl⟩ := resolveChain_ok.mp hres
    exact ⟨m, tl, hl, hram⟩
  · obtain ⟨m, tl, hc⟩ := h
    exact ⟨_, resolveChain_ok.mpr ⟨m, tl, hc.links, rfl⟩, hc.image⟩

end Ignition.Vmm
