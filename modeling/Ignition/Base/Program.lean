import Ignition.Base.Tree

/-!
# Programs of file operations

The file operations a program performs, in order, as data. Each command says
whether its error ends the program (`must`, the `?` of the source language) or is
thrown away. `exec` runs a program against a `Tree` under a *script*: one optional
`Fault` per command. Without a fault an operation does what its contract says
(`Op.run`). With one it is cut short: it leaves part of its effect behind
(`Op.torn`) and then either reports an error or takes the whole process down.

What can be left behind:
- a recursive delete may have removed any of the nodes below its target;
- a recursive mkdir may have made the first few directories;
- a write may have appended any initial part of its data;
- a copy may have created its target with any initial part of the source.
Opening a file and renaming are atomic.

Two kinds of rule are proved about `exec`: whatever the script, the effect stays
within the operations' targets (`exec_framed`); and if the program got to its
end, every `must` command was carried out in full (`Cmd.step_done`, `exec_cons_done`).
-/

namespace Files

open List

variable {α : Type}

/-- Why an operation failed: the operating system said so, or the program did. -/
inductive Failure where
  | io
  | raised (msg : String)
  deriving DecidableEq

inductive Op (α : Type) where
  | removeDirAll (p : Path)
  | createDirAll (p : Path)
  | create (p : Path)
  | append (p : Path) (data : List α)
  | clone (src dst : Path)
  | rename (src dst : Path)
  | refuse (msg : String)

/-- An operation cut short. -/
structure Fault where
  stops : Bool
  part : Nat
  gone : List Loc

/-- Does the path end in an entry name (and not in `.`, `..` or the root)? -/
def Path.endsInName (p : Path) : Bool :=
  match p.getLast? with
  | some (.name _) => true
  | _ => false

theorem Path.loc_ne_nil {p : Path} (h : p.endsInName = true) : p.loc ≠ [] := by
  unfold Path.endsInName at h
  split at h
  next n hn =>
    obtain ⟨q, rfl⟩ := getLast?_eq_some_iff.mp hn
    rw [Path.loc_append]
    show Path.loc q ++ [n] ≠ []
    simp
  · cases h

/-! ## Operations -/

/-- The operation as its contract has it: `none` is success. -/
def Op.run (t : Tree α) : Op α → Option Failure × Tree α
  | .removeDirAll p =>
    match t.resolve p with
    | some l =>
      if t.isDir l then
        -- the entry `.` or `..` itself cannot be removed, but its contents are gone by then
        if p.endsInName then (none, t.remove l) else (some .io, t.clear l)
      else (some .io, t)
    | none => (some .io, t)
  | .createDirAll p =>
    if p.hasNul then (some .io, t)
    else (if (t.mkdirs [] p).1 then none else some .io, (t.mkdirs [] p).2)
  | .create p =>
    match t.resolve p with
    | some l => if t.canPut l then (none, t.put l (.file [])) else (some .io, t)
    | none => (some .io, t)
  | .append p data =>
    match t.resolve p with
    | some l =>
      match t.node l with
      | some (.file old) => (none, t.put l (.file (old ++ data)))
      | _ => (some .io, t)
    | none => (some .io, t)
  | .clone src dst =>
    match t.readFile src, t.resolve dst with
    | some data, some l =>
      if (t.node l).isNone && t.canPut l then (none, t.put l (.file data)) else (some .io, t)
    | _, _ => (some .io, t)
  | .rename src dst =>
    match t.resolve src, t.resolve dst with
    | some a, some b =>
      if src.endsInName && dst.endsInName then
        if a = b then (if (t.node a).isSome then none else some .io, t)
        else if t.canMove a b then (none, t.move a b)
        else (some .io, t)
      else (some .io, t)
    | _, _ => (some .io, t)
  | .refuse msg => (some (.raised msg), t)

/-- Remove some nodes below `l`. -/
def Tree.removeSome (t : Tree α) (l : Loc) (gone : List Loc) : Tree α :=
  gone.foldl (fun t g => if g = [] then t else t.remove (l ++ g)) t

def Op.torn (f : Fault) (t : Tree α) : Op α → Tree α
  | .removeDirAll p =>
    match t.resolve p with
    | some l => if t.isDir l then t.removeSome l f.gone else t
    | none => t
  | .createDirAll p => if p.hasNul then t else (t.mkdirs [] (p.take f.part)).2
  | .append p data =>
    match t.resolve p with
    | some l =>
      match t.node l with
      | some (.file old) => t.put l (.file (old ++ data.take f.part))
      | _ => t
    | none => t
  | .clone src dst =>
    match f.part, t.readFile src, t.resolve dst with
    | k + 1, some data, some l => if (t.node l).isNone then t.put l (.file (data.take k)) else t
    | _, _, _ => t
  | _ => t

def Op.failure : Op α → Failure
  | .refuse msg => .raised msg
  | _ => .io

/-! ## Programs -/

structure Cmd (α : Type) where
  op : Op α
  must : Bool

inductive Outcome where
  | done
  | failed (e : Failure)
  | stopped
  deriving DecidableEq

/-- One fault slot per command; a short script means no more faults. -/
abbrev Script := List (Option Fault)

def Cmd.onError (c : Cmd α) (e : Failure) : Outcome := if c.must then .failed e else .done

/-- One command. -/
def Cmd.step (c : Cmd α) (f : Option Fault) (t : Tree α) : Outcome × Tree α :=
  match f with
  | some f => (if f.stops then .stopped else c.onError c.op.failure, c.op.torn f t)
  | none =>
    ((match (c.op.run t).1 with
      | none => .done
      | some e => c.onError e), (c.op.run t).2)

def exec : List (Cmd α) → Script → Tree α → Outcome × Tree α
  | [], _, t => (.done, t)
  | c :: cs, sc, t =>
    match c.step sc.head?.join t with
    | (.done, t') => exec cs sc.tail t'
    | r => r

theorem exec_cons (c : Cmd α) (cs : List (Cmd α)) (sc : Script) (t : Tree α) :
    exec (c :: cs) sc t =
      if (c.step sc.head?.join t).1 = .done then exec cs sc.tail (c.step sc.head?.join t).2
      else c.step sc.head?.join t := by
  show (match c.step sc.head?.join t with
    | (.done, t') => exec cs sc.tail t'
    | r => r) = _
  split
  next t' h => rw [h, if_pos rfl]
  rename_i r h
  rw [if_neg]
  intro hd
  exact h (c.step sc.head?.join t).2 (by rw [← hd])

theorem exec_append (as bs : List (Cmd α)) : ∀ (sc : Script) (t : Tree α),
    exec (as ++ bs) sc t =
      if (exec as sc t).1 = .done then exec bs (sc.drop as.length) (exec as sc t).2
      else exec as sc t := by
  induction as with
  | nil => intro sc t; rfl
  | cons a as ih =>
    intro sc t
    rw [cons_append, exec_cons, exec_cons]
    by_cases h : (a.step sc.head?.join t).1 = .done
    · rw [if_pos h, if_pos h, ih, length_cons, ← drop_one, drop_drop,
        Nat.add_comm as.length 1]
    · rw [if_neg h, if_neg h, if_neg h]

theorem exec_cons_done {c : Cmd α} {cs : List (Cmd α)} {sc : Script} {t t' : Tree α}
    (h : exec (c :: cs) sc t = (.done, t')) :
    ∃ t₁, c.step sc.head?.join t = (.done, t₁) ∧ exec cs sc.tail t₁ = (.done, t') := by
  rw [exec_cons] at h
  split at h
  next hd => exact ⟨_, by rw [← hd], h⟩
  next hd =>
    rw [h] at hd
    exact absurd rfl hd

theorem exec_congr : ∀ {cs : List (Cmd α)} {sc sc' : Script} (t : Tree α),
    (∀ i, i < cs.length → sc[i]?.join = sc'[i]?.join) → exec cs sc t = exec cs sc' t
  | [], _, _, _, _ => rfl
  | c :: cs, sc, sc', t, h => by
    have h0 := h 0 (Nat.succ_pos _)
    rw [← head?_eq_getElem?, ← head?_eq_getElem?] at h0
    have ht : ∀ t₁ : Tree α, exec cs sc.tail t₁ = exec cs sc'.tail t₁ := fun t₁ =>
      exec_congr t₁ fun i hi => by
        rw [getElem?_tail, getElem?_tail]
        exact h (i + 1) (Nat.succ_lt_succ hi)
    rw [exec_cons, exec_cons, h0, ht]

theorem Cmd.step_done {c : Cmd α} (hm : c.must = true) {f : Option Fault} {t t₁ : Tree α}
    (h : c.step f t = (.done, t₁)) : f = none ∧ c.op.run t = (none, t₁) := by
  unfold Cmd.step Cmd.onError at h
  rw [hm] at h
  cases f with
  | some f =>
    simp only [if_true, Prod.mk.injEq] at h
    split at h <;> cases h.1
  | none =>
    refine ⟨rfl, ?_⟩
    cases hr : (c.op.run t).1 with
    | none =>
      simp only [hr, Prod.mk.injEq, true_and] at h
      rw [← h, ← hr]
    | some e =>
      simp only [hr, if_true, Prod.mk.injEq] at h
      cases h.1

theorem Cmd.step_atomic {c : Cmd α} (hm : c.must = true) {t : Tree α}
    (hrun : (c.op.run t).1 ≠ none → (c.op.run t).2 = t) (htorn : ∀ f, c.op.torn f t = t)
    (f : Option Fault) : (f = none ∧ (c.op.run t).1 = none ∧ c.step f t = (.done, (c.op.run t).2)) ∨
      ((c.step f t).1 ≠ .done ∧ (c.step f t).2 = t) := by
  by_cases hd : (c.step f t).1 = .done
  · obtain ⟨rfl, hok⟩ := Cmd.step_done hm (Prod.ext hd rfl)
    exact .inl ⟨rfl, congrArg Prod.fst hok, Prod.ext hd rfl⟩
  · refine .inr ⟨hd, ?_⟩
    cases f with
    | some f => exact htorn f
    | none =>
      refine hrun fun hr => hd ?_
      unfold Cmd.step
      rw [hr]

/-! ## Frame rules -/

/-- The operation's targets lie in the subtrees at `roots`, and the directories it may
make on the way are listed in `made`. -/
def Op.Within (roots made : List Loc) : Op α → Prop
  | .removeDirAll p => ∃ r ∈ roots, r <+: p.loc
  | .createDirAll p => ∀ s ∈ p.spots, s ∈ made
  | .create p => ∃ r ∈ roots, r <+: p.loc
  | .append p _ => ∃ r ∈ roots, r <+: p.loc
  | .clone _ dst => ∃ r ∈ roots, r <+: dst.loc
  | .rename src dst => (∃ r ∈ roots, r <+: src.loc) ∧ ∃ r ∈ roots, r <+: dst.loc
  | .refuse _ => True

section

variable {roots made : List Loc}

theorem Tree.root_of_resolve {t : Tree α} {p : Path} {l : Loc} (hl : t.resolve p = some l)
    (h : ∃ r ∈ roots, r <+: p.loc) : ∃ r ∈ roots, r <+: l := resolve_eq_some hl ▸ h

open Tree in
theorem Op.run_framed {op : Op α} (h : op.Within roots made) (t : Tree α) :
    Framed roots made t (op.run t).2 := by
  cases op with
  | removeDirAll p =>
    simp only [Op.run]
    repeat' split
    all_goals first
      | exact .refl t
      | exact framed_remove t _ (root_of_resolve ‹_› h)
      | exact framed_clear t _ (root_of_resolve ‹_› h)
  | createDirAll p =>
    simp only [Op.run]
    split
    · exact .refl t
    · exact framed_mkdirs p [] t h
  | create p | append p data | clone src dst =>
    simp only [Op.run]
    repeat' split
    all_goals first
      | exact .refl t
      | exact framed_put t _ _ (root_of_resolve ‹_› h)
  | rename src dst =>
    simp only [Op.run]
    repeat' split
    all_goals first
      | exact .refl t
      | exact framed_move t _ _ (root_of_resolve ‹_› h.1) (root_of_resolve ‹_› h.2)
  | refuse msg => exact .refl t

open Tree in
theorem Tree.framed_removeSome {l : Loc} (hl : ∃ r ∈ roots, r <+: l) :
    ∀ (gone : List Loc) (t : Tree α), Framed roots made t (t.removeSome l gone)
  | [], t => .refl t
  | g :: gone, t => by
    show Framed roots made t (Tree.removeSome (if g = [] then t else t.remove (l ++ g)) l gone)
    obtain ⟨r, hr, hrl⟩ := hl
    split
    · exact framed_removeSome ⟨r, hr, hrl⟩ gone t
    · exact (framed_remove t (l ++ g) ⟨r, hr, hrl.trans (prefix_append ..)⟩).trans
        (framed_removeSome ⟨r, hr, hrl⟩ gone _)

theorem Op.Within.mono {roots' : List Loc} (hr : ∀ r ∈ roots, ∃ r' ∈ roots', r' <+: r)
    {op : Op α} (h : op.Within roots made) : op.Within roots' made := by
  have hup : ∀ {l : Loc}, (∃ r ∈ roots, r <+: l) → ∃ r ∈ roots', r <+: l := by
    intro l hl
    obtain ⟨r, hmem, hpre⟩ := hl
    obtain ⟨r', hmem', hpre'⟩ := hr r hmem
    exact ⟨r', hmem', hpre'.trans hpre⟩
  cases op with
  | removeDirAll p | create p | append p data | clone src dst => exact hup h
  | createDirAll p | refuse msg => exact h
  | rename src dst => exact ⟨hup h.1, hup h.2⟩

theorem Path.mem_spotsFrom_take {x : Loc} (p : Path) (k : Nat) (l : Loc)
    (h : x ∈ Path.spotsFrom l (p.take k)) : x ∈ Path.spotsFrom l p := by
  have happ := (Path.mem_spotsFrom_append (p.take k) (p.drop k) l).mpr (.inl h)
  rw [take_append_drop] at happ
  exact happ

open Tree in
theorem Op.torn_framed {op : Op α} (h : op.Within roots made) (f : Fault) (t : Tree α) :
    Framed roots made t (op.torn f t) := by
  cases op with
  | removeDirAll p =>
    simp only [Op.torn]
    repeat' split
    all_goals first
      | exact .refl t
      | exact framed_removeSome (root_of_resolve ‹_› h) _ _
  | createDirAll p =>
    simp only [Op.torn]
    split
    · exact .refl t
    · exact framed_mkdirs _ [] t (fun s hs => h s (Path.mem_spotsFrom_take p _ [] hs))
  | append p data | clone src dst =>
    simp only [Op.torn]
    repeat' split
    all_goals first
      | exact .refl t
      | exact framed_put t _ _ (root_of_resolve ‹_› h)
  | create p | rename src dst | refuse msg => exact .refl t

theorem Cmd.step_framed {c : Cmd α} (h : c.op.Within roots made)
    (f : Option Fault) (t : Tree α) : Tree.Framed roots made t (c.step f t).2 := by
  cases f with
  | none => exact Op.run_framed h t
  | some f => exact Op.torn_framed h f t

theorem exec_framed : ∀ (cs : List (Cmd α)) (sc : Script) (t : Tree α),
    (∀ c ∈ cs, c.op.Within roots made) → Tree.Framed roots made t (exec cs sc t).2
  | [], _, t, _ => .refl t
  | c :: cs, sc, t, h => by
    have hstep := Cmd.step_framed (h c (mem_cons_self ..)) sc.head?.join t
    rw [exec_cons]
    split
    · exact hstep.trans (exec_framed cs sc.tail _ fun d hd => h d (mem_cons_of_mem _ hd))
    · exact hstep

end

/-! ## Absence -/

theorem Tree.sub_removeSome {l : Loc} : ∀ (gone : List Loc) (t : Tree α),
    (t.removeSome l gone).Sub t
  | [], _ => fun _ _ hx => hx
  | g :: gone, t => by
    show (Tree.removeSome (if g = [] then t else t.remove (l ++ g)) l gone).Sub t
    split
    · exact sub_removeSome gone t
    · exact (sub_removeSome gone _).trans (t.sub_remove _)

theorem Cmd.step_removeDirAll_sub (p : Path) (m : Bool) (f : Option Fault) (t : Tree α) :
    ((Cmd.mk (.removeDirAll p) m).step f t).2.Sub t := by
  have hsame : t.Sub t := fun _ _ hx => hx
  cases f with
  | none =>
    show ((Op.removeDirAll p).run t).2.Sub t
    simp only [Op.run]
    repeat' split
    all_goals first
      | exact hsame
      | exact t.sub_remove _
      | exact t.sub_clear _
  | some f =>
    show ((Op.removeDirAll p).torn f t).Sub t
    simp only [Op.torn]
    repeat' split
    all_goals first
      | exact hsame
      | exact Tree.sub_removeSome _ t

theorem Tree.Sub.absent {t t' : Tree α} (h : t.Sub t') {x : Loc} (hx : t'.node x = none) :
    t.node x = none := by
  cases hn : t.node x with
  | none => rfl
  | some v =>
    rw [h x v hn] at hx
    cases hx

theorem exec_absent {roots made : List Loc} {x : Loc} (hr : ∀ r ∈ roots, ¬ r <+: x)
    (hm : x ∉ made) : ∀ {cs : List (Cmd α)} (sc : Script) {t : Tree α},
    (∀ c ∈ cs, (∃ p, c.op = .removeDirAll p) ∨ c.op.Within roots made) → t.node x = none →
    (exec cs sc t).2.node x = none
  | [], _, _, _, hx => hx
  | c :: cs, sc, t, hcs, hx => by
    have hstep : (c.step sc.head?.join t).2.node x = none := by
      rcases hcs c (mem_cons_self ..) with ⟨p, hp⟩ | hw
      · obtain ⟨op, m⟩ := c
        obtain rfl : op = .removeDirAll p := hp
        exact (Cmd.step_removeDirAll_sub p m _ t).absent hx
      rcases Cmd.step_framed hw sc.head?.join t x with h | ⟨r, hmem, hpre⟩ | ⟨hmade, -, -⟩
      · rw [h]
        exact hx
      · exact absurd hpre (hr r hmem)
      · exact absurd hmade hm
    rw [exec_cons]
    split
    · exact exec_absent hr hm sc.tail (fun d hd => hcs d (mem_cons_of_mem _ hd)) hstep
    · exact hstep

/-! ## What a successful operation did -/

namespace Tree

theorem canPut_of_file {t : Tree α} {l : Loc} {data : List α} (h : t.node l = some (.file data)) :
    t.canPut l = true := by
  rcases eq_nil_or_concat' l with rfl | ⟨p, n, rfl⟩
  · rw [t.root_dir] at h
    cases h
  have hsome : (t.node (p ++ [n])).isSome := by rw [h]; rfl
  have hnd : t.isDir (p ++ [n]) = false := by
    unfold isDir
    rw [h]
  rw [canPut_append, t.nul_free p n hsome, isDir_iff.mpr (t.parent_dir p n hsome), hnd]
  rfl

theorem isDir_put {t : Tree α} {l s : Loc} {v : Node α} (h : t.isDir s = true) :
    (t.put l v).isDir s = true := by
  by_cases hc : t.canPut l = true
  · obtain ⟨_, _, _, _, _, hnd⟩ := canPut_spec hc
    rw [isDir_iff] at h ⊢
    rw [node_put hc, if_neg (fun he : s = l => hnd (he ▸ h))]
    exact h
  · rw [put_of_not hc]
    exact h

theorem resolve_put {t : Tree α} {l x : Loc} {v : Node α} {p : Path} (h : t.resolve p = some x) :
    (t.put l v).resolve p = some x := by
  have hnul := resolve_noNul h
  unfold resolve at h ⊢
  rw [hnul] at h ⊢
  exact walk_congr (fun s _ hs => isDir_put hs) h

theorem hasNul_child {p : Path} {n : Name} : (p.child n).hasNul = (p.hasNul || n.hasNul) := by
  unfold Path.hasNul Path.child
  rw [any_append]
  show (_ || (n.hasNul || false)) = _
  rw [Bool.or_false]

theorem resolve_child {t : Tree α} {p : Path} {n : Name} :
    t.resolve (p.child n) = some (p.loc ++ [n]) ↔
      t.resolve p = some p.loc ∧ t.isDir p.loc = true ∧ n.hasNul = false := by
  unfold resolve
  rw [hasNul_child]
  unfold Path.child
  rw [walk_append]
  cases hp : p.hasNul with
  | true => exact ⟨fun h => (nomatch h), fun h => (nomatch h.1)⟩
  | false =>
    cases hn : n.hasNul with
    | true => exact ⟨fun h => (nomatch h), fun h => (nomatch h.2.2)⟩
    | false =>
      show (t.walk [] p).bind _ = _ ↔ t.walk [] p = _ ∧ _ ∧ _
      cases hw : t.walk [] p with
      | none => exact ⟨fun h => (nomatch h), fun h => (nomatch h.1)⟩
      | some x =>
        have hx : x = p.loc := walk_eq_some hw
        subst hx
        show (if t.isDir p.loc then some (p.loc ++ [n]) else none) = _ ↔ _
        cases hd : t.isDir p.loc with
        | true => exact ⟨fun _ => ⟨rfl, rfl, rfl⟩, fun _ => rfl⟩
        | false => exact ⟨fun h => (nomatch h), fun h => (nomatch h.2.1)⟩

theorem hasNul_ofLoc {t : Tree α} {l : Loc} : (t.node l).isSome →
    (Path.ofLoc l).hasNul = false := by
  induction l using reverseRecOn with
  | nil => exact fun _ => rfl
  | append_singleton l n ih =>
    intro h
    have hp : (t.node l).isSome := by
      rw [t.parent_dir l n h]
      rfl
    have happ : Path.ofLoc (l ++ [n]) = (Path.ofLoc l).child n := map_append ..
    rw [happ, hasNul_child, ih hp, t.nul_free l n h]
    rfl

theorem resolve_ofLoc {t : Tree α} {l : Loc} (h : (t.node l).isSome) :
    t.resolve (Path.ofLoc l) = some l := by
  unfold resolve
  rw [hasNul_ofLoc h]
  exact walk_ofLoc h

theorem readFile_ofLoc (t : Tree α) (l : Loc) : t.readFile (Path.ofLoc l) =
    match t.node l with
    | some (.file d) => some d
    | _ => none := by
  unfold readFile
  cases hn : t.node l with
  | none =>
    cases hr : t.resolve (Path.ofLoc l) with
    | none => rfl
    | some x =>
      have hx := resolve_eq_some hr
      rw [Path.loc_ofLoc] at hx
      subst hx
      simp only [hn]
  | some v =>
    rw [resolve_ofLoc (by rw [hn]; rfl)]
    cases v with
    | dir | file d => simp only [hn]

end Tree

theorem run_create_failed {p : Path} {t : Tree α} :
    ((Op.create p).run t).1 ≠ none → ((Op.create p).run t).2 = t := by
  simp only [Op.run]
  repeat' split
  all_goals first
    | exact fun _ => rfl
    | exact fun h => absurd rfl h

theorem run_rename_failed {src dst : Path} {t : Tree α} :
    ((Op.rename src dst).run t).1 ≠ none → ((Op.rename src dst).run t).2 = t := by
  simp only [Op.run]
  repeat' split
  all_goals first
    | exact fun _ => rfl
    | exact fun h => absurd rfl h

/-! ### Deleting a directory by its plain path -/

/-- What is left of the directory `l`: nothing, or what an interrupted delete spared. -/
def Tree.cut (t : Tree α) (l : Loc) : Option Fault → Tree α
  | none => t.remove l
  | some f => t.removeSome l f.gone

theorem Cmd.step_removeDirAll {t : Tree α} {l : Loc} {n : Name} (hd : t.isDir (l ++ [n]) = true)
    (f : Option Fault) : (Cmd.mk (.removeDirAll (Path.ofLoc (l ++ [n]))) false).step f t =
      (if f.any Fault.stops then .stopped else .done, t.cut (l ++ [n]) f) := by
  have hres : t.resolve (Path.ofLoc (l ++ [n])) = some (l ++ [n]) :=
    Tree.resolve_ofLoc (by rw [Tree.isDir_iff.mp hd]; rfl)
  have hends : (Path.ofLoc (l ++ [n])).endsInName = true := by
    unfold Path.endsInName Path.ofLoc
    rw [map_append, map_singleton, getLast?_concat]
  cases f with
  | none =>
    unfold Cmd.step
    simp only [Op.run, hres, hd, hends, if_true]
    rfl
  | some f =>
    unfold Cmd.step
    simp only [Op.torn, hres, hd, if_true]
    rfl

theorem Tree.node_removeSome {l x : Loc} : ∀ (gone : List Loc) (t : Tree α),
    (t.removeSome l gone).node x =
      if ∃ g ∈ gone, g ≠ [] ∧ l ++ g <+: x then none else t.node x
  | [], t => by
    rw [if_neg fun ⟨_, h, _⟩ => (nomatch h)]
    rfl
  | g :: gone, t => by
    show (Tree.removeSome (if g = [] then t else t.remove (l ++ g)) l gone).node x = _
    rw [node_removeSome gone]
    by_cases hg : g = []
    · rw [if_pos hg]
      simp only [exists_mem_cons_iff, hg, ne_eq, not_true_eq_false, false_and, false_or]
    rw [if_neg hg, Tree.node_remove (by simp [hg])]
    simp only [exists_mem_cons_iff, hg, ne_eq, not_false_eq_true, true_and]
    by_cases hp : l ++ g <+: x <;> simp [hp]

theorem Tree.node_cut {t : Tree α} {l : Loc} (hl : l ≠ []) (x : Name) (f : Option Fault) :
    (t.cut l f).node (l ++ [x]) =
      if f.any (fun f => [x] ∉ f.gone) then t.node (l ++ [x]) else none := by
  cases f with
  | none =>
    show (t.remove l).node _ = none
    rw [Tree.node_remove hl, if_pos (prefix_append ..)]
  | some f =>
    show (t.removeSome l f.gone).node _ = _
    have hiff : (∃ g ∈ f.gone, g ≠ [] ∧ l ++ g <+: l ++ [x]) ↔ [x] ∈ f.gone := by
      refine ⟨fun h => ?_, fun h => ⟨[x], h, by simp, prefix_rfl⟩⟩
      obtain ⟨g, hg, hne, hpre⟩ := h
      rw [prefix_append_right_inj] at hpre
      rcases prefix_concat_iff.mp (show g <+: [] ++ [x] from hpre) with rfl | h
      · exact hg
      · exact absurd (prefix_nil.mp h) hne
    rw [Tree.node_removeSome, Option.any_some]
    by_cases h : [x] ∈ f.gone
    · rw [if_pos (hiff.mpr h), if_neg (by simp [h])]
    · rw [if_neg (mt hiff.mp h), if_pos (by simp [h])]

theorem run_createDirAll {p : Path} {t t₁ : Tree α}
    (h : (Op.createDirAll p).run t = (none, t₁)) :
    t₁.resolve p = some p.loc ∧ t₁.isDir p.loc = true := by
  simp only [Op.run] at h
  split at h
  · cases h
  rename_i hnul
  rw [Bool.not_eq_true] at hnul
  rw [Prod.mk.injEq] at h
  have hok : (t.mkdirs [] p).1 = true := by
    by_contra hc
    rw [if_neg hc] at h
    cases h.1
  have hmk : t.mkdirs [] p = (true, t₁) := Prod.ext hok h.2
  obtain ⟨hw, hd⟩ := Tree.mkdirs_resolves hnul (Tree.isDir_iff.mpr t.root_dir) hmk
  refine ⟨?_, hd⟩
  unfold Tree.resolve
  rw [hnul]
  exact hw

theorem run_create {p : Path} {t t₁ : Tree α} (h : (Op.create p).run t = (none, t₁)) :
    t.resolve p = some p.loc ∧ t.canPut p.loc = true ∧ t₁ = t.put p.loc (.file []) := by
  simp only [Op.run] at h
  split at h
  next l hl =>
    obtain rfl := Tree.resolve_eq_some hl
    split at h <;> cases h
    exact ⟨hl, ‹_›, rfl⟩
  · cases h

theorem run_append {p : Path} {data : List α} {t t₁ : Tree α}
    (h : (Op.append p data).run t = (none, t₁)) :
    t.resolve p = some p.loc ∧ ∃ old, t.node p.loc = some (.file old) ∧
      t₁ = t.put p.loc (.file (old ++ data)) := by
  simp only [Op.run] at h
  split at h
  next l hl =>
    obtain rfl := Tree.resolve_eq_some hl
    split at h <;> cases h
    exact ⟨hl, _, ‹_›, rfl⟩
  · cases h

theorem run_clone {src dst : Path} {t t₁ : Tree α} (h : (Op.clone src dst).run t = (none, t₁)) :
    t.resolve dst = some dst.loc ∧ t.canPut dst.loc = true ∧
      ∃ data, t.readFile src = some data ∧ t₁ = t.put dst.loc (.file data) := by
  simp only [Op.run] at h
  split at h
  next data l hs hl =>
    obtain rfl := Tree.resolve_eq_some hl
    split at h <;> cases h
    rename_i hc
    rw [Bool.and_eq_true] at hc
    exact ⟨hl, hc.2, data, hs, rfl⟩
  · cases h

theorem run_rename {src dst : Path} {t t₁ : Tree α} (hne : src.loc ≠ dst.loc)
    (h : (Op.rename src dst).run t = (none, t₁)) :
    t.canMove src.loc dst.loc = true ∧ t₁ = t.move src.loc dst.loc := by
  simp only [Op.run] at h
  split at h
  next a b ha hb =>
    obtain rfl := Tree.resolve_eq_some ha
    obtain rfl := Tree.resolve_eq_some hb
    rw [if_neg hne] at h
    split at h
    · split at h <;> cases h
      exact ⟨‹_›, rfl⟩
    · cases h
  · cases h

/-! ## Writing one file -/

/-- Open a file and write the chunks, one `write_all` each. -/
def writeChunks (p : Path) (chunks : List (List α)) : List (Cmd α) :=
  ⟨.create p, true⟩ :: chunks.map fun d => ⟨.append p d, true⟩

/-- `fs::write`, or `File::create(p)?.write_all(data)?`. -/
def writeFile (p : Path) (data : List α) : List (Cmd α) := writeChunks p [data]

/-- The tree differs from `t` in the one file at `l`. -/
def Tree.WithFile (t : Tree α) (l : Loc) (data : List α) (t' : Tree α) : Prop :=
  ∀ x, t'.node x = if x = l then some (.file data) else t.node x

theorem Tree.WithFile.framed {t t' : Tree α} {l : Loc} {data : List α}
    (h : t.WithFile l data t') {roots made : List Loc} (hl : ∃ r ∈ roots, r <+: l) :
    Tree.Framed roots made t t' := by
  intro x
  rw [h x]
  split
  next hx => exact .inr (.inl (hx ▸ hl))
  · exact .inl rfl

theorem exec_appends_done {p : Path} : ∀ {chunks : List (List α)} {rest : List (Cmd α)}
    {sc : Script} {t t' : Tree α} {old : List α}, t.node p.loc = some (.file old) →
    exec ((chunks.map fun d => ⟨.append p d, true⟩) ++ rest) sc t = (.done, t') →
    ∃ t₁ sc₁, t.WithFile p.loc (old ++ chunks.flatten) t₁ ∧ exec rest sc₁ t₁ = (.done, t')
  | [], rest, sc, t, t', old, ho, h => by
    refine ⟨t, sc, fun x => ?_, h⟩
    split
    next hx => rw [hx, ho, flatten_nil, append_nil]
    · rfl
  | d :: chunks, rest, sc, t, t', old, ho, h => by
    obtain ⟨t₁, hstep, hrest⟩ := exec_cons_done h
    obtain ⟨-, hrun⟩ := Cmd.step_done rfl hstep
    obtain ⟨-, old', ho', rfl⟩ := run_append hrun
    rw [ho, Option.some.injEq, Node.file.injEq] at ho'
    subst ho'
    have hcan := Tree.canPut_of_file ho
    have ho₁ : (t.put p.loc (.file (old ++ d))).node p.loc = some (.file (old ++ d)) := by
      rw [Tree.node_put hcan, if_pos rfl]
    obtain ⟨t₂, sc₂, hw, hend⟩ := exec_appends_done ho₁ hrest
    refine ⟨t₂, sc₂, fun x => ?_, hend⟩
    rw [hw x, flatten_cons, append_assoc]
    split
    · rfl
    next hx => rw [Tree.node_put hcan, if_neg hx]

theorem exec_writeChunks_done {p : Path} {chunks : List (List α)} {rest : List (Cmd α)}
    {sc : Script} {t t' : Tree α} (h : exec (writeChunks p chunks ++ rest) sc t = (.done, t')) :
    ∃ t₁ sc₁, t.resolve p = some p.loc ∧ t.canPut p.loc = true ∧
      t.WithFile p.loc chunks.flatten t₁ ∧ exec rest sc₁ t₁ = (.done, t') := by
  obtain ⟨t₁, hstep, hrest⟩ := exec_cons_done h
  obtain ⟨-, hrun⟩ := Cmd.step_done rfl hstep
  obtain ⟨hres, hcan, rfl⟩ := run_create hrun
  have ho : (t.put p.loc (.file [])).node p.loc = some (.file []) := by
    rw [Tree.node_put hcan, if_pos rfl]
  obtain ⟨t₂, sc₂, hw, hend⟩ := exec_appends_done ho hrest
  refine ⟨t₂, sc₂, hres, hcan, fun x => ?_, hend⟩
  rw [hw x, nil_append]
  split
  · rfl
  next hx => rw [Tree.node_put hcan, if_neg hx]

/-! ## Filling a directory -/

/-- The path leads to a directory that has these files. -/
structure Tree.Holds (t : Tree α) (d : Path) (files : List (Name × List α)) : Prop where
  reached : t.resolve d = some d.loc
  isDir : t.isDir d.loc = true
  files : ∀ f data, (f, data) ∈ files → t.node (d.loc ++ [f]) = some (.file data)

namespace Tree.Holds

variable {t t' : Tree α} {d : Path} {files : List (Name × List α)} {f : Name} {rest : List (Cmd α)}
  {sc : Script}

theorem readFile (h : t.Holds d files) {data : List α} (hf : (f, data) ∈ files) :
    t.readFile (d.child f) = some data := by
  have hn := h.files f data hf
  have hnul : f.hasNul = false := t.nul_free d.loc f (by rw [hn]; rfl)
  refine Tree.readFile_of_node ?_ (by rw [Path.loc_child]; exact hn)
  rw [Path.loc_child]
  exact Tree.resolve_child.mpr ⟨h.reached, h.isDir, hnul⟩

theorem put (h : t.Holds d files) (hf : f ∉ files.map Prod.fst)
    (hcan : t.canPut (d.loc ++ [f]) = true) (data : List α) {t₁ : Tree α}
    (ht : t.WithFile (d.loc ++ [f]) data t₁) : t₁.Holds d ((f, data) :: files) := by
  obtain ⟨_, _, _, _, _, hnd⟩ := Tree.canPut_spec hcan
  have hdir : ∀ s, t.isDir s = true → t₁.isDir s = true := by
    intro s hs
    rw [Tree.isDir_iff] at hs ⊢
    rw [ht s, if_neg (fun he : s = d.loc ++ [f] => hnd (he ▸ hs))]
    exact hs
  refine ⟨?_, hdir _ h.isDir, fun g data' hg => ?_⟩
  · have hnul := Tree.resolve_noNul h.reached
    have hr := h.reached
    unfold Tree.resolve at hr ⊢
    rw [hnul] at hr ⊢
    exact Tree.walk_congr (fun s _ hs => hdir s hs) hr
  · rw [ht]
    rcases mem_cons.mp hg with heq | hmem
    · cases heq
      rw [if_pos rfl]
    have hne : d.loc ++ [g] ≠ d.loc ++ [f] := by
      intro heq
      have hgf : g = f := (cons.inj (append_cancel_left heq)).1
      exact hf (hgf ▸ mem_map.mpr ⟨_, hmem, rfl⟩)
    rw [if_neg hne]
    exact h.files g data' hmem

theorem writeChunks (h : t.Holds d files) (hf : f ∉ files.map Prod.fst) {chunks : List (List α)}
    (hx : exec (Files.writeChunks (d.child f) chunks ++ rest) sc t = (.done, t')) :
    ∃ t₁ sc₁, t₁.Holds d ((f, chunks.flatten) :: files) ∧
      Tree.Framed [d.loc] d.spots t t₁ ∧ exec rest sc₁ t₁ = (.done, t') := by
  obtain ⟨t₁, sc₁, -, hcan, hw, hrest⟩ := exec_writeChunks_done hx
  rw [Path.loc_child] at hcan hw
  exact ⟨t₁, sc₁, h.put hf hcan _ hw,
    hw.framed ⟨_, mem_singleton.mpr rfl, prefix_append ..⟩, hrest⟩

theorem writeFile (h : t.Holds d files) (hf : f ∉ files.map Prod.fst) {data : List α}
    (hx : exec (Files.writeFile (d.child f) data ++ rest) sc t = (.done, t')) :
    ∃ t₁ sc₁, t₁.Holds d ((f, data) :: files) ∧ Tree.Framed [d.loc] d.spots t t₁ ∧
      exec rest sc₁ t₁ = (.done, t') := by
  obtain ⟨t₁, sc₁, hh, hfr, hrest⟩ := h.writeChunks hf hx
  rw [flatten_singleton] at hh
  exact ⟨t₁, sc₁, hh, hfr, hrest⟩

theorem clone {src : Path} (h : t.Holds d files) (hf : f ∉ files.map Prod.fst)
    (hx : exec (⟨.clone src (d.child f), true⟩ :: rest) sc t = (.done, t')) :
    ∃ t₁ sc₁ data, t.readFile src = some data ∧ t₁.Holds d ((f, data) :: files) ∧
      exec rest sc₁ t₁ = (.done, t') := by
  obtain ⟨t₁, hstep, hrest⟩ := exec_cons_done hx
  obtain ⟨-, hrun⟩ := Cmd.step_done rfl hstep
  obtain ⟨-, hcan, data, hsrc, rfl⟩ := run_clone hrun
  rw [Path.loc_child] at hcan hrest
  refine ⟨_, sc.tail, data, hsrc, h.put hf hcan data fun x => ?_, hrest⟩
  rw [Tree.node_put hcan]

theorem framed {roots made : List Loc} (h : t.Holds d files) (hfr : Tree.Framed roots made t t')
    (hd : ∀ r ∈ roots, ¬ r <+: d.loc) (hd' : ∀ r ∈ roots, ¬ d.loc <+: r) {data : List α}
    (hf : (f, data) ∈ files) :
    t'.node (d.loc ++ [f]) = some (.file data) := by
  refine hfr.node_eq (fun r hr hpre => ?_) (h.files f data hf)
  rcases prefix_concat_iff.mp hpre with heq | hlt
  · exact hd' r hr (heq ▸ prefix_append ..)
  · exact hd r hr hlt

end Tree.Holds

end Files
