import Ignition.Base.Json

/-!
# The text of a JSON value

A parser that takes one character at a time and keeps the open arrays and objects on a stack, at
most 127 of them. Of two members with one key the later is found first. Which texts are numbers,
and which numbers they are, is `number`.
-/

namespace Json.Text

open List

/-! ## Strings -/

inductive Part where
  | plain
  | escape
  | hex (left n : Nat)

/-- A string so far, its last character first, with the leading surrogate that waits for its other
half. -/
structure Str where
  text : List Char
  part : Part
  high : Option Nat

def escapes : List (Char × Char) :=
  [('"', '"'), ('\\', '\\'), ('/', '/'), ('b', '\x08'), ('f', '\x0c'), ('n', '\n'), ('r', '\r'),
    ('t', '\t')]

def hexDigit (c : Char) : Option Nat :=
  if c.isDigit then some (c.toNat - '0'.toNat)
  else if 'a' ≤ c ∧ c ≤ 'f' then some (c.toNat - 'a'.toNat + 10)
  else if 'A' ≤ c ∧ c ≤ 'F' then some (c.toNat - 'A'.toNat + 10)
  else none

namespace Str

def codeUnit (s : Str) (n : Nat) : Option Str :=
  match s.high with
  | none =>
    if 0xd800 ≤ n ∧ n < 0xdc00 then some ⟨s.text, .plain, some n⟩
    else if 0xdc00 ≤ n ∧ n < 0xe000 then none
    else some ⟨Char.ofNat n :: s.text, .plain, none⟩
  | some m =>
    if 0xdc00 ≤ n ∧ n < 0xe000 then
      some ⟨Char.ofNat (0x10000 + (m - 0xd800) * 0x400 + (n - 0xdc00)) :: s.text, .plain, none⟩
    else none

def step (s : Str) (c : Char) : Option Str :=
  match s.part with
  | .plain =>
    if c = '\\' then some { s with part := .escape }
    else if s.high.isSome ∨ c.toNat < 32 then none
    else some { s with text := c :: s.text }
  | .escape =>
    if c = 'u' then some { s with part := .hex 4 0 }
    else if s.high.isSome then none
    else (escapes.lookup c).map fun d => ⟨d :: s.text, .plain, none⟩
  | .hex left n =>
    (hexDigit c).bind fun d =>
      if 1 < left then some { s with part := .hex (left - 1) (16 * n + d) }
      else s.codeUnit (16 * n + d)

end Str

/-! ## Values -/

inductive Frame where
  | array (vs : List Value)
  | object (fields : List (String × Value))
  | member (key : String) (fields : List (String × Value))

inductive Mode where
  | value (first : Bool)
  | key (first : Bool)
  | colon (key : String)
  | string (isKey : Bool) (s : Str)
  | ident (left : List Char) (v : Value)
  | number (text : List Char)
  | after
  | done (v : Value)

structure State where
  mode : Mode
  stack : List Frame

namespace State

def complete (v : Value) : List Frame → Option State
  | [] => some ⟨.done v, []⟩
  | .array vs :: stack => some ⟨.after, .array (v :: vs) :: stack⟩
  | .member key fields :: stack => some ⟨.after, .object ((key, v) :: fields) :: stack⟩
  | .object _ :: _ => none

def push (mode : Mode) (frame : Frame) (stack : List Frame) : Option State :=
  if stack.length < 127 then some ⟨mode, frame :: stack⟩ else none

def close (c : Char) : List Frame → Option State
  | .array vs :: stack => if c = ']' then complete (.array vs.reverse) stack else none
  | .object fields :: stack => if c = '\x7d' then complete (.object fields) stack else none
  | _ => none

def isWs (c : Char) : Bool := c = ' ' ∨ c = '\n' ∨ c = '\t' ∨ c = '\r'

/-- Behind a value. -/
def after (s : State) (c : Char) : Option State :=
  if isWs c then some s
  else
    match s.mode, s.stack with
    | .after, .array _ :: _ =>
      if c = ',' then some { s with mode := .value false } else close c s.stack
    | .after, .object _ :: _ =>
      if c = ',' then some { s with mode := .key false } else close c s.stack
    | _, _ => none

variable (number : List Char → Option Number)

def step (s : State) (c : Char) : Option State :=
  match s.mode with
  | .after | .done _ => s.after c
  | .value first =>
    if isWs c then some s
    else if c = '"' then some { s with mode := .string false ⟨[], .plain, none⟩ }
    else if c = '[' then push (.value true) (.array []) s.stack
    else if c = '\x7b' then push (.key true) (.object []) s.stack
    else if c = ']' ∧ first then close c s.stack
    else if c = 'n' then some { s with mode := .ident ['u', 'l', 'l'] .null }
    else if c = 't' then some { s with mode := .ident ['r', 'u', 'e'] (.bool true) }
    else if c = 'f' then some { s with mode := .ident ['a', 'l', 's', 'e'] (.bool false) }
    else if c = '-' ∨ c.isDigit then some { s with mode := .number [c] }
    else none
  | .key first =>
    if isWs c then some s
    else if c = '"' then some { s with mode := .string true ⟨[], .plain, none⟩ }
    else if first then close c s.stack
    else none
  | .colon key =>
    if isWs c then some s
    else
      match s.stack with
      | .object fields :: stack =>
        if c = ':' then some ⟨.value false, .member key fields :: stack⟩ else none
      | _ => none
  | .string isKey ⟨text, .plain, none⟩ =>
    if c = '"' then
      if isKey then some { s with mode := .colon (String.ofList text.reverse) }
      else complete (.string (String.ofList text.reverse)) s.stack
    else (Str.step ⟨text, .plain, none⟩ c).map fun t => { s with mode := .string isKey t }
  | .string isKey t => (t.step c).map fun t => { s with mode := .string isKey t }
  | .ident [d] v => if c = d then complete v s.stack else none
  | .ident (d :: left) v => if c = d then some { s with mode := .ident left v } else none
  | .ident [] _ => none
  | .number text =>
    if c.isDigit ∨ c ∈ ['+', '-', '.', 'e', 'E'] then some { s with mode := .number (c :: text) }
    else (number text.reverse).bind fun n => (complete (.number n) s.stack).bind (·.after c)

def finish : State → Option Value
  | ⟨.done v, _⟩ => some v
  | ⟨.number text, []⟩ => (number text.reverse).map .number
  | _ => none

end State

variable (number : List Char → Option Number)

def read (s : State) (text : List Char) : Option State := text.foldlM (State.step number) s

def parse (text : List Char) : Option Value :=
  (read number ⟨.value false, []⟩ text).bind (State.finish number)

theorem read_append (s : State) (a b : List Char) :
    read number s (a ++ b) = (read number s a).bind fun s => read number s b := by
  rw [read, foldlM_append]
  rfl

/-! ## Characters that stand for themselves -/

def Plain (c : Char) : Prop := 32 ≤ c.toNat ∧ c ≠ '"' ∧ c ≠ '\\'

instance (c : Char) : Decidable (Plain c) := inferInstanceAs (Decidable (_ ∧ _))

theorem read_plain (isKey : Bool) (stack : List Frame) : ∀ (cs t : List Char),
    (∀ c ∈ cs, Plain c) → read number ⟨.string isKey ⟨t, .plain, none⟩, stack⟩ cs =
      some ⟨.string isKey ⟨cs.reverse ++ t, .plain, none⟩, stack⟩
  | [], _, _ => rfl
  | c :: cs, t, h => by
    obtain ⟨⟨hlow, hquote, hesc⟩, h⟩ := forall_mem_cons.mp h
    have hstr : Str.step ⟨t, .plain, none⟩ c = some ⟨c :: t, .plain, none⟩ :=
      (if_neg hesc).trans (if_neg (by simpa using hlow))
    have hstep : State.step number ⟨.string isKey ⟨t, .plain, none⟩, stack⟩ c =
        some ⟨.string isKey ⟨c :: t, .plain, none⟩, stack⟩ :=
      (if_neg hquote).trans (congrArg (Option.map _) hstr)
    rw [read, foldlM_cons, hstep, reverse_cons, append_assoc]
    exact read_plain isKey stack cs (c :: t) h

end Json.Text
