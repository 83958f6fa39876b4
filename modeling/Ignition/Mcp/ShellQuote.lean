import Mathlib.Data.List.TakeWhile

/-!
# Paths in a shell command

`write_file` of `crates/mcp/src/tools.rs` has the guest's shell run `base64 -d` with its output
redirected to a path that the caller chose. The path is put in single quotes; a single quote in it
is taken out of them.

The shell is the token recognition of POSIX with its quoting: words, operators, comments, single and
double quotes and the backslash. Where an expansion would begin, or a quote is not closed, the
reader gives up, so that a command it does read has none. Numbers in front of a redirection,
reserved words and here-documents are left out. A command reaches the shell as a C string.
-/

namespace Ignition.Mcp

open List

/-! ## The shell -/

namespace Shell

inductive Token where
  | word (text : List Char)
  | op (text : List Char)
  deriving DecidableEq

inductive Mode where
  | plain
  | escape
  | single
  | double
  | doubleEscape
  | comment
  deriving DecidableEq

structure Lexer where
  mode : Mode
  current : Option Token
  done : List Token
  deriving DecidableEq

namespace Lexer

def delimit (l : Lexer) : Lexer := { l with current := none, done := l.done ++ l.current.toList }

def add (l : Lexer) (cs : List Char) : Lexer :=
  match l.current with
  | some (.word w) => { l with current := some (.word (w ++ cs)) }
  | _ => { l.delimit with current := some (.word cs) }

def operators : List (List Char) :=
  ["&&", "||", ";;", "<<", ">>", "<&", ">&", "<>", "<<-", ">|"].map String.toList

def operator (l : Lexer) (c : Char) : Lexer :=
  match l.current with
  | some (.op o) =>
    if o ++ [c] ∈ operators then { l with current := some (.op (o ++ [c])) }
    else { l.delimit with current := some (.op [c]) }
  | _ => { l.delimit with current := some (.op [c]) }

def step (l : Lexer) (c : Char) : Option Lexer :=
  match l.mode with
  | .single => some (if c = '\'' then { l with mode := .plain } else l.add [c])
  | .double =>
    if c = '$' ∨ c = '\x60' then none
    else if c = '"' then some { l with mode := .plain }
    else if c = '\\' then some { l with mode := .doubleEscape }
    else some (l.add [c])
  | .doubleEscape =>
    let kept := if c = '\n' then [] else if c ∈ ['$', '\x60', '"', '\\'] then [c] else ['\\', c]
    some { l.add kept with mode := .double }
  | .escape => some { (if c = '\n' then l else l.add [c]) with mode := .plain }
  | .comment => some (if c = '\n' then { l.operator c with mode := .plain } else l)
  | .plain =>
    if c ∈ ['$', '\x60', '*', '?', '[', '~'] then none
    else if c = '\'' then some { l.add [] with mode := .single }
    else if c = '"' then some { l.add [] with mode := .double }
    else if c = '\\' then some { l with mode := .escape }
    else if c ∈ ['|', '&', ';', '<', '>', '(', ')', '\n'] then some (l.operator c)
    else if c = ' ' ∨ c = '\t' then some l.delimit
    else
      match l.current with
      | some (.word _) => some (l.add [c])
      | _ => if c = '#' then some { l.delimit with mode := .comment } else some (l.add [c])

def finish (l : Lexer) : Option (List Token) :=
  if l.mode = .plain ∨ l.mode = .comment then some l.delimit.done else none

end Lexer

def tokens (cmd : String) : Option (List Token) :=
  ((cmd.toList.takeWhile (· ≠ '\x00')).foldlM Lexer.step ⟨.plain, none, []⟩).bind Lexer.finish

/-- A simple command. -/
structure Command where
  words : List String
  redirects : List (String × String)
  deriving DecidableEq

def command : List Token → Option Command
  | [] => some ⟨[], []⟩
  | .word w :: ts => (command ts).map fun c => { c with words := String.ofList w :: c.words }
  | .op o :: .word w :: ts =>
    if o.head? = some '<' ∨ o.head? = some '>' then
      (command ts).map fun c =>
        { c with redirects := (String.ofList o, String.ofList w) :: c.redirects }
    else none
  | .op _ :: _ => none

end Shell

/-! ## The command -/

def shellQuote (s : String) : String :=
  "'" ++ String.ofList (s.toList.flatMap fun c => if c = '\'' then "'\\''".toList else [c]) ++ "'"

/-- The command of `write_file`. -/
def writeFileCmd (path : String) : String := "base64 -d > " ++ shellQuote path

open Shell

/-- **Through the quoted path**: every character is one of the word, and at the end the shell is
inside the quotes as before. -/
theorem read_quoted (done : List Token) : ∀ cs w : List Char,
    (cs.flatMap fun c => if c = '\'' then "'\\''".toList else [c]).foldlM Lexer.step
        ⟨.single, some (.word w), done⟩ =
      some ⟨.single, some (.word (w ++ cs)), done⟩
  | [], w => by rw [append_nil]; rfl
  | c :: cs, w => by
    have ih := read_quoted done cs (w ++ [c])
    rw [append_assoc] at ih
    rw [flatMap_cons, foldlM_append]
    by_cases hc : c = '\''
    · -- out of the quotes, one escaped quote, and into them again
      subst hc
      have hout : "'\\''".toList.foldlM Lexer.step ⟨.single, some (.word w), done⟩ =
          some ⟨.single, some (.word (w ++ ['\''] ++ [])), done⟩ := rfl
      rw [if_pos rfl, hout, append_nil]
      exact ih
    · have hin : [c].foldlM Lexer.step ⟨.single, some (.word w), done⟩ =
          some ⟨.single, some (.word (w ++ [c])), done⟩ := by
        rw [foldlM_cons, Lexer.step, if_neg hc]
        rfl
      rw [if_neg hc, hin]
      exact ih

theorem toList_writeFileCmd (path : String) :
    (writeFileCmd path).toList = "base64 -d > '".toList ++
      ((path.toList.flatMap fun c => if c = '\'' then "'\\''".toList else [c]) ++ ['\'']) := by
  simp [writeFileCmd, shellQuote]

theorem takeWhile_writeFileCmd {path : String} (h : '\x00' ∉ path.toList) :
    (writeFileCmd path).toList.takeWhile (· ≠ '\x00') = (writeFileCmd path).toList := by
  refine takeWhile_eq_self_iff.mpr fun c hc => decide_eq_true ?_
  rw [toList_writeFileCmd, mem_append, mem_append, mem_flatMap] at hc
  rintro rfl
  obtain hc | ⟨d, hd, hc⟩ | hc := hc
  · exact absurd hc (by decide)
  · split at hc
    · exact absurd hc (by decide)
    · exact h (eq_of_mem_singleton hc ▸ hd)
  · exact absurd hc (by decide)

/-- **`write_file` runs one command with one redirection**, to the path itself. -/
theorem write_file_one_redirect (path : String) (h : '\x00' ∉ path.toList) :
    (tokens (writeFileCmd path)).bind command = some ⟨["base64", "-d"], [(">", path)]⟩ := by
  let done : List Token := [.word "base64".toList, .word "-d".toList, .op ['>']]
  have hopen : "base64 -d > '".toList.foldlM Lexer.step ⟨.plain, none, []⟩ =
      some ⟨.single, some (.word []), done⟩ := rfl
  have hclose : ['\''].foldlM Lexer.step ⟨.single, some (.word path.toList), done⟩ =
      some ⟨.plain, some (.word path.toList), done⟩ := rfl
  have hread : (writeFileCmd path).toList.foldlM Lexer.step ⟨.plain, none, []⟩ =
      some ⟨.plain, some (.word path.toList), done⟩ := by
    rw [toList_writeFileCmd, foldlM_append, hopen, Option.bind_eq_bind, Option.bind_some,
      foldlM_append, read_quoted, Option.bind_eq_bind, Option.bind_some, nil_append, hclose]
  have hpath : String.ofList path.toList = path := String.ofList_toList
  rw [tokens, takeWhile_writeFileCmd h, hread]
  change some (Command.mk ["base64", "-d"] [(">", String.ofList path.toList)]) = _
  rw [hpath]

theorem write_file_one_redirect_hostile :
    (tokens (writeFileCmd "/tmp/it's; rm -rf $HOME # \n\\'\"*")).bind command =
      some ⟨["base64", "-d"], [(">", "/tmp/it's; rm -rf $HOME # \n\\'\"*")]⟩ :=
  write_file_one_redirect _ (by decide)

end Ignition.Mcp
