import Mathlib.Data.List.Basic

/-!
# Reading S-expressions

A reader of symbols, lists, comments and string literals, one character at a time. Inside a literal
a backslash takes the next character as it is. `Reads` is what a piece of text contributes wherever
it stands, so that a long text is read piece by piece.
-/

namespace Ignition

open List

inductive Sexp where
  | symbol (text : List Char)
  | literal (text : List Char)
  | list (items : List Sexp)

namespace Sexp

inductive Mode where
  | plain
  | comment
  | symbol (text : List Char)
  | literal (text : List Char)
  | escape (text : List Char)

/-- The expressions of the innermost open list, the last one first, and of the lists around it. -/
structure Reader where
  mode : Mode
  items : List Sexp
  outer : List (List Sexp)

namespace Reader

def add (r : Reader) (x : Sexp) : Reader := { r with mode := .plain, items := x :: r.items }

def plain (r : Reader) (c : Char) : Option Reader :=
  if c = '(' then some { r with items := [], outer := r.items :: r.outer }
  else if c = ')' then
    match r.outer with
    | [] => none
    | items :: outer => some ⟨r.mode, .list r.items.reverse :: items, outer⟩
  else if c = '"' then some { r with mode := .literal [] }
  else if c = ';' then some { r with mode := .comment }
  else if c.isWhitespace then some r
  else some { r with mode := .symbol [c] }

def step (r : Reader) (c : Char) : Option Reader :=
  match r.mode with
  | .plain => r.plain c
  | .comment => some (if c = '\n' then { r with mode := .plain } else r)
  | .symbol t =>
    if c ∈ ['(', ')', '"', ';'] ∨ c.isWhitespace then (r.add (.symbol t)).plain c
    else some { r with mode := .symbol (t ++ [c]) }
  | .literal t =>
    some (if c = '\\' then { r with mode := .escape t }
      else if c = '"' then r.add (.literal t)
      else { r with mode := .literal (t ++ [c]) })
  | .escape t => some { r with mode := .literal (t ++ [c]) }

theorem step_literal {c : Char} (hb : c ≠ '\\') (hq : c ≠ '"') (t : List Char) (items outer) :
    step ⟨.literal t, items, outer⟩ c = some ⟨.literal (t ++ [c]), items, outer⟩ :=
  congrArg some ((if_neg hb).trans (if_neg hq))

def text (r : Reader) (s : String) : Option Reader := s.toList.foldlM step r

theorem text_append (r : Reader) (a b : String) :
    r.text (a ++ b) = (r.text a).bind fun r => r.text b := by
  rw [text, String.toList_append, foldlM_append]
  rfl

end Reader

def read (s : String) : Option (List Sexp) :=
  (Reader.text ⟨.plain, [], []⟩ s).bind fun r =>
    match r with
    | ⟨.plain, items, []⟩ => some items.reverse
    | _ => none

def Reads (s : String) (xs : List Sexp) : Prop :=
  ∀ items outer, Reader.text ⟨.plain, items, outer⟩ s = some ⟨.plain, xs.reverse ++ items, outer⟩

/-- Blanks and comments. -/
def Blank (s : String) : Prop :=
  ∀ items outer, Reader.text ⟨.plain, items, outer⟩ s = some ⟨.plain, items, outer⟩

theorem Blank.reads {s : String} (h : Blank s) : Reads s [] := by
  intro items outer
  exact h items outer

theorem Reads.append {a b : String} {xs ys : List Sexp} (ha : Reads a xs) (hb : Reads b ys) :
    Reads (a ++ b) (xs ++ ys) := by
  intro items outer
  rw [Reader.text_append, ha, Option.bind_some, hb, reverse_append, append_assoc]

theorem Reads.blank {a b : String} {xs : List Sexp} (ha : Reads a xs) (hb : Blank b) :
    Reads (a ++ b) xs := by
  intro items outer
  rw [Reader.text_append, ha, Option.bind_some, hb]

theorem Reads.join {α : Type} {text : α → String} {x : α → Sexp}
    (h : ∀ a, Reads (text a) [x a]) :
    ∀ as : List α, Reads (String.join (as.map text)) (as.map x)
  | [] => Blank.reads fun _ _ => rfl
  | a :: as => by
    rw [map_cons, map_cons, String.join_cons]
    exact (h a).append (Reads.join h as)

theorem Reads.enclosed {a b c : String} (xs : List Sexp) {ys : List Sexp}
    (ha : ∀ items outer, Reader.text ⟨.plain, items, outer⟩ a =
      some ⟨.plain, xs.reverse, items :: outer⟩)
    (hb : Reads b ys)
    (hc : ∀ items zs outer, Reader.text ⟨.plain, zs, items :: outer⟩ c =
      some ⟨.plain, .list zs.reverse :: items, outer⟩) :
    Reads (a ++ b ++ c) [.list (xs ++ ys)] := by
  intro items outer
  rw [Reader.text_append, Reader.text_append, ha, Option.bind_some, hb, Option.bind_some, hc,
    reverse_append, reverse_reverse, reverse_reverse]
  rfl

theorem read_of_reads {s : String} {xs : List Sexp} (h : Reads s xs) : read s = some xs := by
  rw [read, h, append_nil]
  exact congrArg some (reverse_reverse xs)

end Sexp

end Ignition
