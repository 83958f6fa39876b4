import Ignition.Base.Path
import Mathlib.Data.List.Induction
import Mathlib.Data.List.Infix

/-!
# A tree of files

A file system as a finite partial map from locations to nodes. The structure
carries what makes it a tree: the root is a directory, whatever exists sits in
a directory that exists, only finitely many locations exist, and no entry name
has a NUL byte.

Four edits keep those facts by construction: `put` (a new or overwritten entry),
`remove` and `clear` (a subtree with or without its top) and `move`. Each is
guarded by the conditions under which it makes sense and is the identity
otherwise; `node_put`, `node_remove`, `node_clear`, `node_move` say what the
result holds, and no later proof looks at the other fields.

`resolve` walks a path: every location it passes must be a directory. So a path
through `..` needs the directory it backs out of to exist. There are no links,
hence a walk that succeeds ends at the path's `loc`.

`Framed roots made` is the effect of a run of edits: outside the subtrees at
`roots` nothing changed, except that directories listed in `made` may have
appeared. It composes, and it preserves what is read through a path that stays
clear of the roots (`Framed.keeps`).
-/

namespace Files

open List

inductive Node (α : Type) where
  | dir
  | file (data : List α)

def Name.hasNul (n : Name) : Bool := n.val.toList.contains '\x00'

structure Tree (α : Type) where
  node : Loc → Option (Node α)
  support : List Loc
  root_dir : node [] = some .dir
  parent_dir : ∀ l n, (node (l ++ [n])).isSome → node l = some .dir
  finite : ∀ l, (node l).isSome → l ∈ support
  nul_free : ∀ l n, (node (l ++ [n])).isSome → n.hasNul = false

namespace Tree

variable {α : Type}

/-- The root and nothing else. -/
def empty : Tree α where
  node l := if l = [] then some .dir else none
  support := [[]]
  root_dir := if_pos rfl
  parent_dir l n h := by
    rw [if_neg (by simp)] at h
    cases h
  finite l h := by
    split at h
    next hl => exact mem_singleton.mpr hl
    · cases h
  nul_free l n h := by
    rw [if_neg (by simp)] at h
    cases h

def isDir (t : Tree α) (l : Loc) : Bool :=
  match t.node l with
  | some .dir => true
  | _ => false

variable {t t' : Tree α} {l x src dst : Loc} {p : Path} {roots made : List Loc}

theorem isDir_iff : t.isDir l = true ↔ t.node l = some .dir := by
  unfold isDir
  split
  next h => exact ⟨fun _ => h, fun _ => rfl⟩
  next h => exact ⟨fun hf => absurd hf (by decide), fun hd => absurd hd h⟩

theorem ancestors_dir : ∀ {k : Loc}, k ≠ [] → (t.node (l ++ k)).isSome →
    t.node l = some .dir := by
  intro k
  induction k using reverseRecOn with
  | nil => intro h; exact absurd rfl h
  | append_singleton k n ih =>
    intro _ h
    rw [← append_assoc] at h
    have hp := t.parent_dir (l ++ k) n h
    by_cases hk : k = []
    · rw [hk, append_nil] at hp
      exact hp
    · exact ih hk (by rw [hp]; rfl)

/-! ## Walking a path -/

/-- Walk `p` from `l`; every location on the way must be a directory. -/
def walk (t : Tree α) (l : Loc) : Path → Option Loc
  | [] => some l
  | c :: cs => if t.isDir l then walk t (l.step c) cs else none

def resolve (t : Tree α) (p : Path) : Option Loc :=
  if p.hasNul then none else t.walk [] p

/-- `fs::read`. -/
def readFile (t : Tree α) (p : Path) : Option (List α) :=
  match t.resolve p with
  | none => none
  | some l =>
    match t.node l with
    | some (.file data) => some data
    | _ => none

theorem walk_eq_some : ∀ {p : Path} {l : Loc},
    t.walk l p = some x → x = Path.locFrom l p
  | [], l, h => by
    rw [walk, Option.some.injEq] at h
    exact h.symm
  | c :: cs, l, h => by
    unfold walk at h
    split at h
    · exact walk_eq_some (p := cs) h
    · cases h

theorem resolve_eq_some (h : t.resolve p = some x) :
    x = p.loc := by
  unfold resolve at h
  split at h
  · cases h
  · exact walk_eq_some h

theorem resolve_noNul (h : t.resolve p = some x) :
    p.hasNul = false := by
  unfold resolve at h
  split at h
  · cases h
  next hn => exact Bool.eq_false_iff.mpr hn

theorem walk_congr : ∀ {p : Path} {l : Loc},
    (∀ s ∈ Path.spotsFrom l p, t.isDir s = true → t'.isDir s = true) →
    t.walk l p = some x → t'.walk l p = some x
  | [], _, _, h => h
  | c :: cs, l, hd, h => by
    unfold walk at h ⊢
    split at h
    next hl =>
      rw [if_pos (hd l (mem_cons_self ..) hl)]
      exact walk_congr (fun s hs => hd s (mem_cons_of_mem _ hs)) h
    · cases h

theorem walk_append {q : Path} : ∀ {p : Path} {l : Loc},
    t.walk l (p ++ q) = (t.walk l p).bind fun x => t.walk x q
  | [], l => rfl
  | c :: cs, l => by
    show (if t.isDir l then t.walk (l.step c) (cs ++ q) else none) =
      (if t.isDir l then t.walk (l.step c) cs else none).bind _
    split
    · exact walk_append
    · rfl

theorem readFile_eq_some {data : List α} (h : t.readFile p = some data) :
    t.resolve p = some p.loc ∧ t.node p.loc = some (.file data) := by
  unfold readFile at h
  split at h
  · cases h
  rename_i l hl
  have hloc := resolve_eq_some hl
  split at h
  next d hd =>
    rw [Option.some.injEq] at h
    rw [← hloc, ← h]
    exact ⟨hl, hd⟩
  · cases h

theorem readFile_of_node {data : List α} (hr : t.resolve p = some p.loc)
    (hn : t.node p.loc = some (.file data)) :
    t.readFile p = some data := by
  unfold readFile
  rw [hr]
  show (match t.node p.loc with | some (.file d) => some d | _ => none) = _
  rw [hn]

theorem walk_ofLoc : ∀ {k l : Loc}, (t.node (l ++ k)).isSome →
    t.walk l (Path.ofLoc k) = some (l ++ k)
  | [], l, _ => by rw [append_nil]; rfl
  | n :: k, l, h => by
    have hd : t.isDir l = true := isDir_iff.mpr (ancestors_dir (cons_ne_nil n k) h)
    have hk : l ++ n :: k = (l ++ [n]) ++ k := by rw [append_assoc]; rfl
    show (if t.isDir l then t.walk (l ++ [n]) (Path.ofLoc k) else none) = _
    rw [if_pos hd, hk]
    exact walk_ofLoc (by rw [← hk]; exact h)

/-! ## Edits -/

/-- Can an entry be created or overwritten at `l`? -/
def canPut (t : Tree α) (l : Loc) : Bool :=
  match l.getLast? with
  | none => false
  | some n => !n.hasNul && t.isDir l.dropLast && !t.isDir l

theorem canPut_append {n : Name} :
    t.canPut (l ++ [n]) = (!n.hasNul && t.isDir l && !t.isDir (l ++ [n])) := by
  unfold canPut
  rw [getLast?_concat, dropLast_concat]

theorem canPut_spec (h : t.canPut l = true) :
    ∃ p n, l = p ++ [n] ∧ n.hasNul = false ∧ t.node p = some .dir ∧ t.node l ≠ some .dir := by
  rcases eq_nil_or_concat' l with rfl | ⟨p, n, rfl⟩
  · cases h
  rw [canPut_append] at h
  simp only [Bool.and_eq_true, Bool.not_eq_true'] at h
  refine ⟨p, n, rfl, h.1.1, isDir_iff.mp h.1.2, fun hd => ?_⟩
  rw [isDir_iff.mpr hd] at h
  cases h.2

/-- The entry at `l` becomes `v`. -/
def put (t : Tree α) (l : Loc) (v : Node α) : Tree α :=
  if h : t.canPut l = true then
    { node := fun x => if x = l then some v else t.node x
      support := l :: t.support
      root_dir := by
        obtain ⟨p, n, rfl, -, -, -⟩ := canPut_spec h
        rw [if_neg (by simp)]
        exact t.root_dir
      parent_dir := fun x m hx => by
        obtain ⟨p, n, hl, -, hp, hnd⟩ := canPut_spec h
        by_cases hxl : x ++ [m] = l
        · -- the new entry itself: its parent was checked
          have hxp : x = p := (append_inj' (hxl.trans hl) rfl).1
          have hne : p ≠ l := by rw [hl]; simp
          rw [hxp, if_neg hne]
          exact hp
        · rw [if_neg hxl] at hx
          have hd := t.parent_dir x m hx
          rw [if_neg (fun hc : x = l => hnd (hc ▸ hd))]
          exact hd
      finite := fun x hx => by
        by_cases hxl : x = l
        · rw [hxl]
          exact mem_cons_self ..
        · rw [if_neg hxl] at hx
          exact mem_cons_of_mem _ (t.finite x hx)
      nul_free := fun x m hx => by
        obtain ⟨p, n, hl, hn, -, -⟩ := canPut_spec h
        by_cases hxl : x ++ [m] = l
        · have hmn := (append_inj' (hxl.trans hl) rfl).2
          rw [List.cons.injEq] at hmn
          rw [hmn.1]
          exact hn
        · rw [if_neg hxl] at hx
          exact t.nul_free x m hx }
  else t

theorem node_put (h : t.canPut l = true) (v : Node α) (x : Loc) :
    (t.put l v).node x = if x = l then some v else t.node x := by
  unfold put
  rw [dif_pos h]

theorem put_of_not (h : ¬ t.canPut l = true) (v : Node α) :
    t.put l v = t := by
  unfold put
  rw [dif_neg h]

/-- The subtree at `l` is gone. The root cannot be removed. -/
def remove (t : Tree α) (l : Loc) : Tree α :=
  if h : l = [] then t
  else
    { node := fun x => if l <+: x then none else t.node x
      support := t.support
      root_dir := by
        rw [if_neg (fun hc => h (prefix_nil.mp hc))]
        exact t.root_dir
      parent_dir := fun x n hx => by
        by_cases hp : l <+: x ++ [n]
        · rw [if_pos hp] at hx
          cases hx
        · rw [if_neg hp] at hx
          rw [if_neg (fun hc => hp (hc.trans (prefix_append ..)))]
          exact t.parent_dir x n hx
      finite := fun x hx => by
        by_cases hp : l <+: x
        · rw [if_pos hp] at hx
          cases hx
        · rw [if_neg hp] at hx
          exact t.finite x hx
      nul_free := fun x n hx => by
        by_cases hp : l <+: x ++ [n]
        · rw [if_pos hp] at hx
          cases hx
        · rw [if_neg hp] at hx
          exact t.nul_free x n hx }

theorem node_remove (h : l ≠ []) (x : Loc) :
    (t.remove l).node x = if l <+: x then none else t.node x := by
  unfold remove
  rw [dif_neg h]

/-- Everything below `l` is gone; `l` itself stays. -/
def clear (t : Tree α) (l : Loc) : Tree α where
  node x := if l <+: x ∧ x ≠ l then none else t.node x
  support := t.support
  root_dir := by
    rw [if_neg (fun hc => hc.2 (prefix_nil.mp hc.1).symm)]
    exact t.root_dir
  parent_dir x n hx := by
    by_cases hp : l <+: x ++ [n] ∧ x ++ [n] ≠ l
    · rw [if_pos hp] at hx
      cases hx
    rw [if_neg hp] at hx
    rw [if_neg]
    · exact t.parent_dir x n hx
    · intro hc
      refine hp ⟨hc.1.trans (prefix_append ..), fun heq => ?_⟩
      have hlen := hc.1.length_le
      rw [← heq, length_append, length_singleton] at hlen
      omega
  finite x hx := by
    by_cases hp : l <+: x ∧ x ≠ l
    · rw [if_pos hp] at hx
      cases hx
    · rw [if_neg hp] at hx
      exact t.finite x hx
  nul_free x n hx := by
    by_cases hp : l <+: x ++ [n] ∧ x ++ [n] ≠ l
    · rw [if_pos hp] at hx
      cases hx
    · rw [if_neg hp] at hx
      exact t.nul_free x n hx

theorem node_clear (x : Loc) :
    (t.clear l).node x = if l <+: x ∧ x ≠ l then none else t.node x := rfl

/-- No node strictly below `l`. -/
def isEmpty (t : Tree α) (l : Loc) : Bool :=
  t.support.all fun x => !(decide (l <+: x ∧ x ≠ l)) || (t.node x).isNone

theorem isEmpty_iff :
    t.isEmpty l = true ↔ ∀ x, l <+: x → x ≠ l → t.node x = none := by
  unfold isEmpty
  rw [all_eq_true]
  refine ⟨fun h x hp hne => ?_, fun h x _ => ?_⟩
  · cases hn : t.node x with
    | none => rfl
    | some v =>
      have hx := h x (t.finite x (by rw [hn]; rfl))
      rw [hn, decide_eq_true (And.intro hp hne)] at hx
      exact absurd hx (by simp)
  · by_cases hp : l <+: x ∧ x ≠ l
    · rw [h x hp.1 hp.2, Option.isNone_none, Bool.or_true]
    · rw [decide_eq_false hp]
      rfl

/-- Can the node at `src` be renamed to `dst`? A directory may replace an empty
directory, a file may replace a file. -/
def canMove (t : Tree α) (src dst : Loc) : Bool :=
  !(decide (src <+: dst)) &&
  match dst.getLast?, t.node src, t.node dst with
  | some n, some _, none => !n.hasNul && t.isDir dst.dropLast
  | some n, some .dir, some .dir => !n.hasNul && t.isDir dst.dropLast && t.isEmpty dst
  | some n, some (.file _), some (.file _) => !n.hasNul && t.isDir dst.dropLast
  | _, _, _ => false

theorem canMove_spec (h : t.canMove src dst = true) :
    ¬ src <+: dst ∧ ∃ p n, dst = p ++ [n] ∧ n.hasNul = false ∧ t.node p = some .dir := by
  unfold canMove at h
  rw [Bool.and_eq_true, Bool.not_eq_true', decide_eq_false_iff_not] at h
  refine ⟨h.1, ?_⟩
  rcases eq_nil_or_concat' dst with rfl | ⟨p, n, rfl⟩
  · exact absurd h.2 (by simp)
  rw [getLast?_concat, dropLast_concat] at h
  refine ⟨p, n, rfl, ?_⟩
  obtain ⟨-, h⟩ := h
  split at h
  next heq _ _ =>
    rw [Option.some.injEq] at heq
    rw [Bool.and_eq_true, Bool.not_eq_true'] at h
    exact ⟨heq ▸ h.1, isDir_iff.mp h.2⟩
  next heq _ _ =>
    rw [Option.some.injEq] at heq
    rw [Bool.and_eq_true, Bool.and_eq_true, Bool.not_eq_true'] at h
    exact ⟨heq ▸ h.1.1, isDir_iff.mp h.1.2⟩
  next heq _ _ =>
    rw [Option.some.injEq] at heq
    rw [Bool.and_eq_true, Bool.not_eq_true'] at h
    exact ⟨heq ▸ h.1, isDir_iff.mp h.2⟩
  · cases h

theorem canMove_fresh (h : t.canMove src dst = true) (n : Name) :
    t.node (dst ++ [n]) = none := by
  cases hn : t.node (dst ++ [n]) with
  | none => rfl
  | some v =>
    have hdir := t.parent_dir dst n (by rw [hn]; rfl)
    unfold canMove at h
    rw [hdir, Bool.and_eq_true] at h
    obtain ⟨-, h⟩ := h
    split at h
    next hd => cases hd
    · rw [Bool.and_eq_true] at h
      have hne : dst ++ [n] ≠ dst := fun he => by simp at he
      rw [isEmpty_iff.mp h.2 _ (prefix_append ..) hne] at hn
      cases hn
    next hd => cases hd
    · cases h

/-- What `move` leaves at `x`: the source subtree under its new name, nothing at
the old one. -/
def moved (t : Tree α) (src dst x : Loc) : Option (Node α) :=
  if dst <+: x then t.node (src ++ x.drop dst.length)
  else if src <+: x then none
  else t.node x

theorem moved_parent (h : t.canMove src dst = true) (x : Loc) (n : Name)
    (hx : (t.moved src dst (x ++ [n])).isSome) :
    t.moved src dst x = some .dir := by
  obtain ⟨hsd, p, m, hdst, -, hp⟩ := canMove_spec h
  unfold moved at hx ⊢
  by_cases hd : dst <+: x
  · -- inside the moved subtree
    rw [if_pos (hd.trans (prefix_append ..)), drop_append_of_le_length hd.length_le,
      ← append_assoc] at hx
    rw [if_pos hd]
    exact t.parent_dir _ n hx
  · by_cases hd' : dst <+: x ++ [n]
    · -- its top: the parent of `dst` was checked
      have hxp : x = p := by
        rcases prefix_concat_iff.mp hd' with heq | hpre
        · exact (append_inj' (heq.symm.trans hdst) rfl).1
        · exact absurd hpre hd
      have hsp : ¬ src <+: x := fun hc => hsd (hc.trans (by rw [hxp, hdst]; exact prefix_append ..))
      rw [if_neg hd, if_neg hsp, hxp]
      exact hp
    · rw [if_neg hd'] at hx
      by_cases hs : src <+: x ++ [n]
      · rw [if_pos hs] at hx
        cases hx
      · rw [if_neg hs] at hx
        rw [if_neg hd, if_neg (fun hc => hs (hc.trans (prefix_append ..)))]
        exact t.parent_dir x n hx

theorem moved_nul_free (h : t.canMove src dst = true) (x : Loc) (n : Name)
    (hx : (t.moved src dst (x ++ [n])).isSome) : n.hasNul = false := by
  obtain ⟨-, p, m, hdst, hm, -⟩ := canMove_spec h
  unfold moved at hx
  by_cases hd : dst <+: x
  · rw [if_pos (hd.trans (prefix_append ..)), drop_append_of_le_length hd.length_le,
      ← append_assoc] at hx
    exact t.nul_free _ n hx
  by_cases hd' : dst <+: x ++ [n]
  · rcases prefix_concat_iff.mp hd' with heq | hpre
    · have hmn := (append_inj' (heq.symm.trans hdst) rfl).2
      rw [List.cons.injEq] at hmn
      rw [hmn.1]
      exact hm
    · exact absurd hpre hd
  · rw [if_neg hd'] at hx
    by_cases hs : src <+: x ++ [n]
    · rw [if_pos hs] at hx
      cases hx
    · rw [if_neg hs] at hx
      exact t.nul_free x n hx

theorem moved_finite (x : Loc) (hx : (t.moved src dst x).isSome) :
    x ∈ t.support ++ t.support.map fun y => dst ++ y.drop src.length := by
  unfold moved at hx
  rw [mem_append]
  by_cases hd : dst <+: x
  · rw [if_pos hd] at hx
    refine .inr (mem_map.mpr ⟨_, t.finite _ hx, ?_⟩)
    rw [drop_left]
    exact prefix_iff_eq_append.mp hd
  · rw [if_neg hd] at hx
    by_cases hs : src <+: x
    · rw [if_pos hs] at hx
      cases hx
    · rw [if_neg hs] at hx
      exact .inl (t.finite x hx)

/-- The subtree at `src` becomes the subtree at `dst`. -/
def move (t : Tree α) (src dst : Loc) : Tree α :=
  if h : t.canMove src dst = true then
    { node := t.moved src dst
      support := t.support ++ t.support.map fun y => dst ++ y.drop src.length
      root_dir := by
        obtain ⟨hsd, p, n, hdst, -, -⟩ := canMove_spec h
        have hd : ¬ dst <+: [] := fun hc => by
          rw [prefix_nil.mp hc] at hdst
          exact absurd hdst (by simp)
        have hs : ¬ src <+: [] := fun hc => hsd (hc.trans nil_prefix)
        unfold moved
        rw [if_neg hd, if_neg hs]
        exact t.root_dir
      parent_dir := moved_parent h
      finite := moved_finite
      nul_free := moved_nul_free h }
  else t

theorem node_move (h : t.canMove src dst = true) (x : Loc) :
    (t.move src dst).node x = t.moved src dst x := by
  unfold move
  rw [dif_pos h]

/-- Create the missing directories along a path. `false`: a file is in the way. -/
def mkdirs (t : Tree α) (l : Loc) : Path → Bool × Tree α
  | [] => (true, t)
  | c :: cs =>
    match t.node (l.step c) with
    | some .dir => mkdirs t (l.step c) cs
    | some (.file _) => (false, t)
    | none => mkdirs (t.put (l.step c) .dir) (l.step c) cs

/-! ## Pruning -/

/-- Every node of `t` is one of `t'`. -/
def Sub (t t' : Tree α) : Prop := ∀ x v, t.node x = some v → t'.node x = some v

theorem Sub.trans {t'' : Tree α} (h : t.Sub t') (h' : t'.Sub t'') : t.Sub t'' :=
  fun x v hx => h' x v (h x v hx)

theorem sub_remove (t : Tree α) (l : Loc) : (t.remove l).Sub t := by
  intro x v hx
  by_cases h : l = []
  · unfold remove at hx
    rw [dif_pos h] at hx
    exact hx
  rw [node_remove h] at hx
  split at hx
  · cases hx
  · exact hx

theorem sub_clear (t : Tree α) (l : Loc) : (t.clear l).Sub t := by
  intro x v hx
  rw [node_clear] at hx
  split at hx
  · cases hx
  · exact hx

/-! ## Frames -/

/-- Outside the subtrees at `roots` nothing changed, except that directories listed
in `made` may have appeared. -/
def Framed (roots made : List Loc) (t t' : Tree α) : Prop :=
  ∀ x, t'.node x = t.node x ∨ (∃ r ∈ roots, r <+: x) ∨
    (x ∈ made ∧ t.node x = none ∧ t'.node x = some .dir)

theorem Framed.refl (t : Tree α) : Framed roots made t t :=
  fun _ => .inl rfl

theorem Framed.trans {t'' : Tree α} (h : Framed roots made t t') (h' : Framed roots made t' t'') :
    Framed roots made t t'' := by
  intro x
  rcases h' x with h2 | h2 | ⟨hm, hn, hd⟩
  · rw [h2]
    exact h x
  · exact .inr (.inl h2)
  · -- new in the second run: it was missing before the first, or it sits under a root
    rcases h x with h1 | h1 | ⟨-, -, hd1⟩
    · exact .inr (.inr ⟨hm, h1 ▸ hn, hd⟩)
    · exact .inr (.inl h1)
    · rw [hd1] at hn
      cases hn

theorem Framed.node_eq (h : Framed roots made t t') (hx : ∀ r ∈ roots, ¬ r <+: x) {v : Node α}
    (hv : t.node x = some v) :
    t'.node x = some v := by
  rcases h x with h1 | ⟨r, hr, hp⟩ | ⟨-, hn, -⟩
  · rw [h1]
    exact hv
  · exact absurd hp (hx r hr)
  · rw [hv] at hn
    cases hn

theorem framed_put (t : Tree α) (l : Loc) (v : Node α) (hl : ∃ r ∈ roots, r <+: l) :
    Framed roots made t (t.put l v) := by
  intro x
  by_cases h : t.canPut l = true
  · rw [node_put h]
    split
    next hx => exact .inr (.inl (hx ▸ hl))
    · exact .inl rfl
  · rw [put_of_not h]
    exact .inl rfl

theorem framed_remove (t : Tree α) (l : Loc) (hl : ∃ r ∈ roots, r <+: l) :
    Framed roots made t (t.remove l) := by
  intro x
  obtain ⟨r, hr, hrl⟩ := hl
  by_cases h : l = []
  · unfold remove
    rw [dif_pos h]
    exact .inl rfl
  rw [node_remove h]
  split
  next hx => exact .inr (.inl ⟨r, hr, hrl.trans hx⟩)
  · exact .inl rfl

theorem framed_clear (t : Tree α) (l : Loc) (hl : ∃ r ∈ roots, r <+: l) :
    Framed roots made t (t.clear l) := by
  intro x
  obtain ⟨r, hr, hrl⟩ := hl
  rw [node_clear]
  split
  next hx => exact .inr (.inl ⟨r, hr, hrl.trans hx.1⟩)
  · exact .inl rfl

theorem framed_move (t : Tree α) (src dst : Loc) (hs : ∃ r ∈ roots, r <+: src)
    (hd : ∃ r ∈ roots, r <+: dst) :
    Framed roots made t (t.move src dst) := by
  intro x
  obtain ⟨r, hr, hrs⟩ := hs
  obtain ⟨q, hq, hqd⟩ := hd
  by_cases h : t.canMove src dst = true
  · rw [node_move h]
    unfold moved
    split
    next hx => exact .inr (.inl ⟨q, hq, hqd.trans hx⟩)
    split
    next hx => exact .inr (.inl ⟨r, hr, hrs.trans hx⟩)
    · exact .inl rfl
  · unfold move
    rw [dif_neg h]
    exact .inl rfl

theorem framed_mkdir (t : Tree α) (hn : t.node l = none) (hl : l ∈ made) :
    Framed roots made t (t.put l .dir) := by
  intro x
  by_cases h : t.canPut l = true
  · rw [node_put h]
    split
    next hx => exact .inr (.inr ⟨hx ▸ hl, hx ▸ hn, rfl⟩)
    · exact .inl rfl
  · rw [put_of_not h]
    exact .inl rfl

theorem framed_mkdirs : ∀ (p : Path) (l : Loc) (t : Tree α),
    (∀ s ∈ Path.spotsFrom l p, s ∈ made) → Framed roots made t (t.mkdirs l p).2
  | [], _, t, _ => Framed.refl t
  | c :: cs, l, t, hm => by
    have hstep : l.step c ∈ made :=
      hm _ (mem_cons_of_mem _ (by cases cs <;> exact mem_cons_self ..))
    have htail : ∀ s ∈ Path.spotsFrom (l.step c) cs, s ∈ made :=
      fun s hs => hm s (mem_cons_of_mem _ hs)
    unfold mkdirs
    split
    · exact framed_mkdirs cs _ t htail
    · exact Framed.refl t
    next hn => exact (framed_mkdir t hn hstep).trans (framed_mkdirs cs _ _ htail)

theorem mkdirs_resolves : ∀ {p : Path} {l : Loc} {t t' : Tree α}, p.hasNul = false →
    t.isDir l = true → t.mkdirs l p = (true, t') →
    t'.walk l p = some (Path.locFrom l p) ∧ t'.isDir (Path.locFrom l p) = true
  | [], l, t, t', _, hl, h => by
    rw [mkdirs, Prod.mk.injEq] at h
    rw [← h.2]
    exact ⟨rfl, hl⟩
  | c :: cs, l, t, t', hnul, hl, h => by
    have hframe : Framed [] (Path.spotsFrom l (c :: cs)) t (t.mkdirs l (c :: cs)).2 :=
      framed_mkdirs (c :: cs) l t (fun s hs => hs)
    rw [h] at hframe
    have hl' : t'.isDir l = true :=
      isDir_iff.mpr (hframe.node_eq (fun r hr => nomatch hr) (isDir_iff.mp hl))
    have hnul' : Path.hasNul cs = false := by
      unfold Path.hasNul at hnul ⊢
      rw [any_cons, Bool.or_eq_false_iff] at hnul
      exact hnul.2
    show (if t'.isDir l then t'.walk (l.step c) cs else none) = _ ∧ _
    rw [if_pos hl']
    unfold mkdirs at h
    split at h
    next hd => exact mkdirs_resolves hnul' (isDir_iff.mpr hd) h
    · cases h
    next hn =>
      refine mkdirs_resolves hnul' ?_ h
      -- only a fresh name can be missing: `.` and `..` lead to directories
      cases c with
      | cur =>
        rw [Loc.step, isDir_iff.mp hl] at hn
        cases hn
      | up =>
        rw [Loc.step] at hn
        rcases eq_nil_or_concat' l with rfl | ⟨p, n, rfl⟩
        · rw [dropLast_nil, t.root_dir] at hn
          cases hn
        · rw [dropLast_concat, t.parent_dir p n (by rw [isDir_iff.mp hl]; rfl)] at hn
          cases hn
      | name n =>
        have hn0 : n.hasNul = false := by
          unfold Path.hasNul at hnul
          rw [any_cons, Bool.or_eq_false_iff] at hnul
          exact hnul.1
        have hcan : t.canPut (l ++ [n]) = true := by
          have hnd : t.isDir (l ++ [n]) = false := by
            rw [Bool.eq_false_iff]
            intro hd
            rw [Loc.step, isDir_iff.mp hd] at hn
            cases hn
          rw [canPut_append, hn0, hl, hnd]
          rfl
        rw [isDir_iff, Loc.step, node_put hcan, if_pos rfl]

end Tree

/-- The walk along `p` stays clear of every subtree at `roots`. -/
def Path.Avoids (roots : List Loc) (p : Path) : Prop := ∀ s ∈ p.spots, ∀ r ∈ roots, ¬ r <+: s

instance (roots : List Loc) (p : Path) : Decidable (p.Avoids roots) :=
  inferInstanceAs (Decidable (∀ s ∈ p.spots, ∀ r ∈ roots, ¬ r <+: s))

/-- What was read at `p` in `t` is still read there in `t'`. -/
def Tree.Keeps {α : Type} (t t' : Tree α) (p : Path) : Prop :=
  ∀ data, t.readFile p = some data → t'.readFile p = some data

theorem Tree.Sub.keeps {α : Type} {t t' : Tree α} (h : t.Sub t') (p : Path) : t.Keeps t' p := by
  intro data hr
  obtain ⟨hres, hn⟩ := Tree.readFile_eq_some hr
  have hnul := Tree.resolve_noNul hres
  refine Tree.readFile_of_node ?_ (h _ _ hn)
  unfold Tree.resolve at hres ⊢
  rw [hnul] at hres ⊢
  exact Tree.walk_congr (fun s _ hd => Tree.isDir_iff.mpr (h _ _ (Tree.isDir_iff.mp hd))) hres

theorem Tree.Framed.keeps {α : Type} {roots made : List Loc} {t t' : Tree α}
    (h : Tree.Framed roots made t t') {p : Path} (hp : p.Avoids roots) : t.Keeps t' p := by
  intro data hr
  obtain ⟨hres, hn⟩ := Tree.readFile_eq_some hr
  have hnul := Tree.resolve_noNul hres
  refine Tree.readFile_of_node ?_ (h.node_eq (hp _ p.loc_mem_spots) hn)
  unfold Tree.resolve at hres ⊢
  rw [hnul] at hres ⊢
  refine Tree.walk_congr (fun s hs hd => ?_) hres
  exact Tree.isDir_iff.mpr (h.node_eq (hp s hs) (Tree.isDir_iff.mp hd))

end Files
