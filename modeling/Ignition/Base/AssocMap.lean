import Mathlib.Data.List.AList

/-!
# Finite maps

Maps with decidable keys as association lists without repetition. Looking up, inserting and
erasing are those of `AList`; added here is the pass over all values that may drop some, as
`retain` and `iter_mut` make it.
-/

/-- A map from `κ` to `ν`. -/
abbrev AssocMap (κ ν : Type) := AList fun _ : κ => ν

namespace AssocMap

open List Option

variable {κ ν : Type}

/-- An entry with the value that `f` gives for it. -/
def entryOf (f : ν → Option ν) (e : Sigma fun _ : κ => ν) : Option (Sigma fun _ : κ => ν) :=
  (f e.2).map fun v => ⟨e.1, v⟩

theorem keys_filterMap_sublist (f : ν → Option ν) : ∀ l : List (Sigma fun _ : κ => ν),
    (l.filterMap (entryOf f)).keys.Sublist l.keys
  | [] => .slnil
  | e :: l => by
    rw [filterMap_cons]
    unfold entryOf
    cases h : f e.2 with
    | none => exact (keys_filterMap_sublist f l).cons _
    | some v => exact (keys_filterMap_sublist f l).cons_cons _

/-- Every value is replaced by what `f` gives, or dropped. -/
def filterMap (f : ν → Option ν) (s : AssocMap κ ν) : AssocMap κ ν where
  entries := s.entries.filterMap (entryOf f)
  nodupKeys := List.Nodup.sublist (keys_filterMap_sublist f s.entries) s.nodupKeys

variable [DecidableEq κ]

theorem lookup_filterMap (f : ν → Option ν) (s : AssocMap κ ν) (a : κ) :
    (filterMap f s).lookup a = (s.lookup a).bind f := by
  ext v
  rw [← mem_def, AList.mem_lookup_iff, bind_eq_some_iff]
  constructor
  · intro hmem
    obtain ⟨e, he, hv⟩ := mem_filterMap.mp hmem
    obtain ⟨w, hw, hsig⟩ := map_eq_some_iff.mp hv
    obtain ⟨rfl, hwv⟩ := Sigma.mk.inj hsig
    obtain rfl := eq_of_heq hwv
    exact ⟨e.2, AList.mem_lookup_iff.mpr he, hw⟩
  · rintro ⟨w, hw, hv⟩
    refine mem_filterMap.mpr ⟨⟨a, w⟩, AList.mem_lookup_iff.mp hw, ?_⟩
    unfold entryOf
    rw [hv]
    rfl

theorem lookup_insert (s : AssocMap κ ν) (a a' : κ) (v : ν) :
    (s.insert a v).lookup a' = if a' = a then some v else s.lookup a' := by
  split
  next h =>
    subst h
    exact AList.lookup_insert s
  next h => exact AList.lookup_insert_ne h

theorem lookup_erase (s : AssocMap κ ν) (a a' : κ) :
    (s.erase a).lookup a' = if a' = a then none else s.lookup a' := by
  split
  next h =>
    subst h
    exact AList.lookup_erase a' s
  next h => exact AList.lookup_erase_ne h

theorem dlookup_kreplace_ne {a a' : κ} (h : a' ≠ a) (v : ν) :
    ∀ l : List (Sigma fun _ : κ => ν), (l.kreplace a v).dlookup a' = l.dlookup a'
  | [] => rfl
  | e :: l => by
    unfold kreplace
    by_cases he : a = e.1
    · rw [lookmap_cons_some (fun s => if a = s.1 then some ⟨a, v⟩ else none) l (if_pos he),
        dlookup_cons_ne l ⟨a, v⟩ h, dlookup_cons_ne l e (he ▸ h)]
    rw [lookmap_cons_none (fun s => if a = s.1 then some ⟨a, v⟩ else none) l (if_neg he)]
    by_cases hb : a' = e.1
    · subst hb
      rw [dlookup_cons_eq, dlookup_cons_eq]
    · rw [dlookup_cons_ne _ e hb, dlookup_cons_ne _ e hb]
      exact dlookup_kreplace_ne h v l

theorem lookup_replace_ne {a a' : κ} (h : a' ≠ a) (s : AssocMap κ ν) (v : ν) :
    (s.replace a v).lookup a' = s.lookup a' :=
  dlookup_kreplace_ne h v s.entries

theorem dlookup_kreplace_self (a : κ) (v : ν) : ∀ l : List (Sigma fun _ : κ => ν),
    (l.kreplace a v).dlookup a = (l.dlookup a).map fun _ => v
  | [] => rfl
  | e :: l => by
    unfold kreplace
    by_cases he : a = e.1
    · subst he
      rw [lookmap_cons_some (fun s => if e.1 = s.1 then some ⟨e.1, v⟩ else none) l
        (if_pos rfl), dlookup_cons_eq, dlookup_cons_eq]
      rfl
    · rw [lookmap_cons_none (fun s => if a = s.1 then some ⟨a, v⟩ else none) l (if_neg he),
        dlookup_cons_ne _ e he, dlookup_cons_ne _ e he]
      exact dlookup_kreplace_self a v l

theorem lookup_replace (s : AssocMap κ ν) (a a' : κ) (v : ν) :
    (s.replace a v).lookup a' = if a' = a then (s.lookup a).map fun _ => v else s.lookup a' := by
  split
  next h =>
    subst h
    exact dlookup_kreplace_self a' v s.entries
  next h => exact lookup_replace_ne h s v

/-! The number of entries. -/

theorem length_replace (s : AssocMap κ ν) (a : κ) (v : ν) :
    (s.replace a v).entries.length = s.entries.length :=
  length_lookmap _ s.entries

theorem length_erase_le (s : AssocMap κ ν) (a : κ) :
    (s.erase a).entries.length ≤ s.entries.length :=
  (kerase_sublist a s.entries).length_le

theorem length_erase_of_lookup {s : AssocMap κ ν} {a : κ} {v : ν} (h : s.lookup a = some v) :
    (s.erase a).entries.length + 1 = s.entries.length := by
  have hmem : (⟨a, v⟩ : Sigma fun _ : κ => ν) ∈ s.entries := AList.mem_lookup_iff.mp h
  have hpos := length_pos_of_mem hmem
  have hlen : (s.erase a).entries.length = s.entries.length - 1 :=
    length_eraseP_of_mem hmem (decide_eq_true rfl)
  omega

theorem length_insert_of_lookup_none {s : AssocMap κ ν} {a : κ} (h : s.lookup a = none) (v : ν) :
    (s.insert a v).entries.length = s.entries.length + 1 := by
  rw [AList.insert_of_notMem (AList.lookup_eq_none.mp h)]
  rfl

theorem filter_flatMap_eq_nil {β : Type} (f : ν → List β) (tag : β → κ) (a : κ) :
    ∀ l : List (Sigma fun _ : κ => ν), (∀ e ∈ l, ∀ b ∈ f e.2, tag b = e.1) → a ∉ l.keys →
      (l.flatMap fun e => f e.2).filter (fun b => tag b = a) = [] := by
  intro l htag ha
  refine filter_eq_nil_iff.mpr fun b hb htb => ?_
  obtain ⟨e, he, hbe⟩ := mem_flatMap.mp hb
  have hkey : tag b = a := of_decide_eq_true htb
  exact ha (hkey ▸ htag e he b hbe ▸ mem_map_of_mem he)

theorem filter_flatMap_entries {β : Type} (f : ν → List β) (tag : β → κ) (s : AssocMap κ ν)
    (htag : ∀ e ∈ s.entries, ∀ b ∈ f e.2, tag b = e.1) (a : κ) :
    (s.entries.flatMap fun e => f e.2).filter (fun b => tag b = a) =
      ((s.lookup a).map f).getD [] := by
  obtain ⟨l, hnodup⟩ := s
  dsimp only [AList.lookup] at htag ⊢
  induction l with
  | nil => rfl
  | cons e l ih =>
    have hnodup' := nodupKeys_cons.mp hnodup
    have htl : ∀ e' ∈ l, ∀ b ∈ f e'.2, tag b = e'.1 :=
      fun e' he' => htag e' (mem_cons_of_mem _ he')
    have hhd := htag e mem_cons_self
    rw [flatMap_cons, filter_append]
    by_cases hkey : e.1 = a
    · subst hkey
      rw [dlookup_cons_eq, filter_flatMap_eq_nil f tag e.1 l htl hnodup'.1, append_nil]
      exact filter_eq_self.mpr fun b hb => decide_eq_true (hhd b hb)
    rw [dlookup_cons_ne l e (Ne.symm hkey), ih hnodup'.2 htl]
    have hnone : (f e.2).filter (fun b => tag b = a) = [] :=
      filter_eq_nil_iff.mpr fun b hb htb => hkey (hhd b hb ▸ of_decide_eq_true htb)
    rw [hnone, nil_append]

end AssocMap
