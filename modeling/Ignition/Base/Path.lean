/-!
# Paths as component lists

A path is what the operating system walks: a list of components, each `.`, `..`
or an entry name. Everything here is syntactic; which directories exist is the
business of `Tree`.

- `components` splits a string the way a Unix path is read: at every `/`, empty
  pieces ignored. A leading `.` and a `.` in the middle are kept as components,
  because the kernel walks through them.
- `join` is path concatenation, where an absolute right operand replaces the
  left one.
- `withExtension` replaces the extension of the *file name*, the last component
  once trailing `.` are ignored. A path whose last component is `..`, and the
  root, have no file name and come back unchanged.
- `loc` is where a path leads on a file system without links, and `spots` are
  all the locations the walk passes, the last one included.

A `Name` carries the proof that it is a proper entry name, so that a location
(a list of names) can never hold `..` or a slash.
-/

namespace Files

open List

def IsName (s : String) : Prop := s ≠ "" ∧ s ≠ "." ∧ s ≠ ".." ∧ '/' ∉ s.toList

instance : DecidablePred IsName :=
  fun _ => inferInstanceAs (Decidable (_ ∧ _ ∧ _ ∧ _))

/-- An entry name. -/
abbrev Name := { s : String // IsName s }

/-- Where a node sits: the entry names from the root. -/
abbrev Loc := List Name

inductive Comp where
  | cur
  | up
  | name (n : Name)
  deriving DecidableEq

/-- An absolute path. -/
abbrev Path := List Comp

/-! ## Reading a string -/

/-- One piece between slashes. -/
def Comp.ofPiece (s : String) : Option Comp :=
  if h : IsName s then some (.name ⟨s, h⟩)
  else if s = "." then some .cur
  else if s = ".." then some .up
  else none

/-- The components of a string, in order. -/
def components (s : String) : List Comp :=
  (s.toList.splitOn '/').filterMap fun piece => Comp.ofPiece (String.ofList piece)

def isAbsolute (s : String) : Bool := s.toList.head? == some '/'

namespace Path

/-- The path of a location. -/
def ofLoc (l : Loc) : Path := l.map .name

/-- `base.join(s)`. -/
def join (base : Path) (s : String) : Path :=
  if isAbsolute s then components s else base ++ components s

/-- `base.join(n)` for an entry name. -/
def child (base : Path) (n : Name) : Path := base ++ [.name n]

def hasNul (p : Path) : Bool :=
  p.any fun c => match c with
    | .name n => n.val.toList.contains '\x00'
    | _ => false

end Path

theorem components_name {s : String} (h : IsName s) : components s = [.name ⟨s, h⟩] := by
  have hsplit : s.toList.splitOn '/' = [s.toList] := by
    rw [splitOn_eq_singleton]
    exact h.2.2.2
  unfold components
  rw [hsplit]
  simp [Comp.ofPiece, String.ofList_toList, h]

theorem isAbsolute_name {s : String} (h : IsName s) : isAbsolute s = false := by
  unfold isAbsolute
  cases hs : s.toList with
  | nil => rfl
  | cons c cs =>
    have hc : c ≠ '/' := fun hc => h.2.2.2 (by rw [hs, hc]; exact mem_cons_self ..)
    simp [hc]

theorem Path.join_name (base : Path) {s : String} (h : IsName s) :
    base.join s = base.child ⟨s, h⟩ := by
  unfold Path.join Path.child
  rw [isAbsolute_name h, components_name h]
  rfl

/-! ## The extension -/

def fileStem (s : List Char) : List Char :=
  match s.reverse.dropWhile (· != '.') with
  | [] => s
  | _ :: before => if before.isEmpty then s else before.reverse

theorem fileStem_subset {s : List Char} : ∀ c ∈ fileStem s, c ∈ s := by
  intro c hc
  unfold fileStem at hc
  split at hc
  · exact hc
  rename_i d before heq
  split at hc
  · exact hc
  have hd : c ∈ s.reverse.dropWhile (· != '.') := by
    rw [heq]
    exact mem_cons_of_mem _ (mem_reverse.mp hc)
  exact mem_reverse.mp ((dropWhile_sublist _).subset hd)

theorem fileStem_ne_nil {s : List Char} (h : s ≠ []) : fileStem s ≠ [] := by
  unfold fileStem
  split
  · exact h
  split
  · exact h
  next hb => simpa using hb

theorem isName_withExt (n ext : Name) :
    IsName (String.ofList (fileStem n.val.toList ++ '.' :: ext.val.toList)) := by
  have hn : n.val.toList ≠ [] := fun h => n.property.1 (String.toList_inj.mp h)
  have he : ext.val.toList ≠ [] := fun h => ext.property.1 (String.toList_inj.mp h)
  have h1 := length_pos_iff.mpr (fileStem_ne_nil hn)
  have h2 := length_pos_iff.mpr he
  -- three characters or more: none of the reserved strings
  have hlen : ∀ s : String, s.toList.length < 3 →
      String.ofList (fileStem n.val.toList ++ '.' :: ext.val.toList) ≠ s := by
    intro s hs heq
    rw [← heq, String.toList_ofList, length_append, length_cons] at hs
    omega
  refine ⟨hlen "" (by decide), hlen "." (by decide), hlen ".." (by decide), ?_⟩
  rw [String.toList_ofList, mem_append, mem_cons]
  intro h
  rcases h with h | h | h
  · exact n.property.2.2.2 (fileStem_subset _ h)
  · exact absurd h (by decide)
  · exact ext.property.2.2.2 h

def Name.withExt (n ext : Name) : Name :=
  ⟨String.ofList (fileStem n.val.toList ++ '.' :: ext.val.toList), isName_withExt n ext⟩

/-- `path.with_extension(ext)`. -/
def Path.withExtension (p : Path) (ext : Name) : Path :=
  match p.reverse.dropWhile (· == .cur) with
  | .name n :: rest => (Comp.name (n.withExt ext) :: rest).reverse
  | _ => p

/-! ## Where a path leads -/

/-- One component of the walk. -/
def Loc.step (l : Loc) : Comp → Loc
  | .cur => l
  | .up => l.dropLast
  | .name n => l ++ [n]

namespace Path

def locFrom (l : Loc) (p : Path) : Loc := p.foldl Loc.step l

/-- The location a path leads to. -/
def loc (p : Path) : Loc := locFrom [] p

/-- Every location the walk from `l` passes, its end included. -/
def spotsFrom (l : Loc) : Path → List Loc
  | [] => [l]
  | c :: cs => l :: spotsFrom (l.step c) cs

def spots (p : Path) : List Loc := spotsFrom [] p

theorem locFrom_append (l : Loc) (p q : Path) : locFrom l (p ++ q) = locFrom (locFrom l p) q :=
  foldl_append

theorem loc_append (p q : Path) : (p ++ q).loc = locFrom p.loc q := locFrom_append [] p q

theorem loc_child (p : Path) (n : Name) : (p.child n).loc = p.loc ++ [n] := by
  unfold child
  rw [loc_append]
  rfl

theorem withExtension_cases (p : Path) (ext : Name) :
    p.withExtension ext = p ∨
      ∃ (q : Path) (n : Name) (k : Nat), p = q ++ .name n :: replicate k .cur ∧
        p.withExtension ext = q.child (n.withExt ext) := by
  unfold withExtension
  split
  next n rest heq =>
    have hrev : p.reverse = p.reverse.takeWhile (· == .cur) ++ .name n :: rest := by
      rw [← heq, takeWhile_append_dropWhile]
    have htw : p.reverse.takeWhile (· == .cur) =
        replicate (p.reverse.takeWhile (· == .cur)).length .cur := by
      apply eq_replicate_of_mem
      intro c hc
      exact beq_iff_eq.mp (all_eq_true.mp all_takeWhile c hc)
    refine .inr ⟨rest.reverse, n, (p.reverse.takeWhile (· == .cur)).length, ?_, ?_⟩
    · rw [← reverse_reverse p, hrev, htw, reverse_append, reverse_cons,
        append_assoc]
      simp
    · exact reverse_cons
  · exact .inl rfl

theorem locFrom_replicate_cur (k : Nat) (l : Loc) : locFrom l (replicate k .cur) = l := by
  induction k with
  | zero => rfl
  | succ k ih => exact ih

theorem withExtension_disjoint {p : Path} {ext : Name}
    (hne : (p.withExtension ext).loc ≠ p.loc) :
    ¬ (p.withExtension ext).loc <+: p.loc ∧ ¬ p.loc <+: (p.withExtension ext).loc := by
  rcases withExtension_cases p ext with h | ⟨q, n, k, hp, hx⟩
  · exact absurd (by rw [h]) hne
  have hlen : (p.withExtension ext).loc.length = p.loc.length := by
    rw [hx, loc_child]
    conv => rhs; rw [hp, loc_append]
    show _ = (locFrom (q.loc ++ [n]) (replicate k .cur)).length
    rw [locFrom_replicate_cur, length_append, length_append]
    rfl
  exact ⟨fun h => hne (h.eq_of_length hlen), fun h => hne (h.eq_of_length hlen.symm).symm⟩

theorem locFrom_ofLoc (k : Loc) : ∀ l : Loc, locFrom l (ofLoc k) = l ++ k := by
  induction k with
  | nil => intro l; exact (append_nil l).symm
  | cons n k ih =>
    intro l
    show locFrom (l ++ [n]) (ofLoc k) = l ++ n :: k
    rw [ih, append_assoc]
    rfl

theorem loc_ofLoc (l : Loc) : (ofLoc l).loc = l := locFrom_ofLoc l []

theorem locFrom_mem_spotsFrom (p : Path) : ∀ l : Loc, locFrom l p ∈ spotsFrom l p := by
  induction p with
  | nil => intro l; exact mem_singleton.mpr rfl
  | cons c p ih => intro l; exact mem_cons_of_mem _ (ih _)

theorem loc_mem_spots (p : Path) : p.loc ∈ p.spots := locFrom_mem_spotsFrom p []

theorem mem_spotsFrom_append {x : Loc} (p q : Path) : ∀ l : Loc,
    x ∈ spotsFrom l (p ++ q) ↔ x ∈ spotsFrom l p ∨ x ∈ spotsFrom (locFrom l p) q := by
  induction p with
  | nil =>
    intro l
    refine ⟨.inr, fun h => ?_⟩
    rcases h with h | h
    · rw [mem_singleton.mp h]
      cases q with
      | nil => exact mem_singleton.mpr rfl
      | cons c q => exact mem_cons_self ..
    · exact h
  | cons c p ih =>
    intro l
    show x ∈ l :: spotsFrom (l.step c) (p ++ q) ↔ x ∈ l :: spotsFrom (l.step c) p ∨ _
    rw [mem_cons, mem_cons, ih, or_assoc]
    rfl

theorem mem_spotsFrom_ofLoc {x : Loc} (k : Loc) : ∀ l : Loc,
    x ∈ spotsFrom l (ofLoc k) ↔ l <+: x ∧ x <+: l ++ k := by
  induction k with
  | nil =>
    intro l
    show x ∈ [l] ↔ _
    rw [mem_singleton, append_nil]
    refine ⟨fun h => h ▸ ⟨prefix_rfl, prefix_rfl⟩, fun h => ?_⟩
    exact h.2.eq_of_length_le h.1.length_le
  | cons n k ih =>
    intro l
    show x ∈ l :: spotsFrom (l ++ [n]) (ofLoc k) ↔ _
    rw [mem_cons, ih, append_assoc]
    show x = l ∨ (l ++ [n] <+: x ∧ x <+: l ++ n :: k) ↔ l <+: x ∧ x <+: l ++ n :: k
    refine ⟨fun h => ?_, fun h => ?_⟩
    · rcases h with rfl | ⟨h1, h2⟩
      · exact ⟨prefix_rfl, prefix_append ..⟩
      · exact ⟨(prefix_append ..).trans h1, h2⟩
    · obtain ⟨⟨r, rfl⟩, h2⟩ := h
      cases r with
      | nil => exact .inl (append_nil l)
      | cons m r =>
        have h3 : m :: r <+: n :: k := (prefix_append_right_inj l).mp h2
        obtain ⟨rfl, _⟩ := cons_prefix_cons.mp h3
        refine .inr ⟨?_, h2⟩
        exact (prefix_append_right_inj l).mpr (cons_prefix_cons.mpr ⟨rfl, nil_prefix⟩)

theorem mem_spots_ofLoc {x l : Loc} : x ∈ (ofLoc l).spots ↔ x <+: l := by
  unfold spots
  rw [mem_spotsFrom_ofLoc]
  exact ⟨fun h => h.2, fun h => ⟨ nil_prefix, h⟩⟩

end Path

end Files
