import Ignition.Base.JsonText
import Ignition.FcApi.Handles

/-!
# Control lines and their replies

The API puts a control line together by hand (`control` of `crates/fc-api/src/api.rs`), `boot` parses
it, and puts its reply together by hand as well (`dispatch_control` of `boot.rs`). Which of the
parser's errors a text that is no JSON meets, and where, is a parameter, and so is which characters
the debug format prints as they are.
-/

namespace Ignition.Boot

open Json Json.Text List
open FcApi (sanitizeName IsPlain occursIn)

/-- The line of `control`. -/
def controlLine (action : String) (name : Option String) : String :=
  match name with
  | some n => "\x7b\"action\":\"" ++ action ++ "\",\"name\":\"" ++ n ++ "\"\x7d\n"
  | none => "\x7b\"action\":\"" ++ action ++ "\"\x7d\n"

/-! ## What a line asks for -/

def asStr : Value → Option String
  | .string s => some s
  | _ => none

def actionOf (v : Value) : Option String := (v.get "action").bind asStr

def nameOf (v : Value) : Option String := (v.get "name").bind asStr

/-- The requests of `VcpuManager`. -/
inductive Request where
  | snapshot (name : Option String)
  | checkpoint
  | reset
  deriving DecidableEq

def requestOf (v : Value) : Option Request :=
  match actionOf v with
  | some "snapshot" => some (.snapshot (nameOf v))
  | some "checkpoint" => some .checkpoint
  | some "reset" => some .reset
  | _ => none

/-! ## Messages -/

def syntaxErrors : List String :=
  ["control character (\\u0000-\\u001F) found while parsing a string",
    "EOF while parsing a list", "EOF while parsing an object", "EOF while parsing a string",
    "EOF while parsing a value", "expected `:`", "expected `,` or `]`", "expected `,` or `\x7d`",
    "expected ident", "expected value", "invalid escape", "invalid number", "number out of range",
    "invalid unicode code point", "key must be a string", "lone leading surrogate in hex escape",
    "trailing comma", "trailing characters", "unexpected end of hex escape",
    "recursion limit exceeded"]

structure SyntaxError where
  text : String
  known : text ∈ syntaxErrors
  line : Nat
  column : Nat

def SyntaxError.display (e : SyntaxError) : String :=
  e.text ++ " at line " ++ toString e.line ++ " column " ++ toString e.column

def debugChar (printable : Char → Bool) (c : Char) : List Char :=
  if c = '\x00' then ['\\', '0']
  else if c = '\t' then ['\\', 't']
  else if c = '\r' then ['\\', 'r']
  else if c = '\n' then ['\\', 'n']
  else if c = '"' ∨ c = '\\' then ['\\', c]
  else if printable c then [c]
  else '\\' :: 'u' :: '\x7b' :: Nat.toDigits 16 c.toNat ++ ['\x7d']

/-- The debug format of `Option<&str>`. -/
def debug (printable : Char → Bool) : Option String → String
  | none => "None"
  | some s => "Some(\"" ++ String.ofList (s.toList.flatMap (debugChar printable)) ++ "\")"

def okReply : String := "\x7b\"ok\":true\x7d"

def errorReply (text : String) : String := "\x7b\"ok\":false,\"error\":\"" ++ (text ++ "\"\x7d")

section Dispatch

variable (number : List Char → Option Number) (err : String → SyntaxError)
  (printable : Char → Bool) (taken : Bool)

/-- `dispatch_control`; `taken` is what a request for a snapshot comes to. -/
def dispatchControl (line : String) : String :=
  match parse number line.toList with
  | none => errorReply ("bad json: " ++ (err line).display)
  | some v =>
    match requestOf v with
    | some (.snapshot _) =>
      if taken then okReply
      else errorReply "snapshot failed (capture/write error, no handler, or rendezvous busy)"
    | some .checkpoint | some .reset => okReply
    | none => errorReply ("unknown action: " ++ debug printable (actionOf v))

/-! ## Names -/

theorem plain_of_isPlain {c : Char} (h : IsPlain c) : Plain c := by
  refine ⟨?_, ?_, ?_⟩
  · rcases h with h | rfl | rfl
    · refine Nat.le_of_not_lt fun hlt => ?_
      have hlow : ∀ n < 32, (Char.ofNat n).isAlphanum = false := by decide
      have hnot := hlow c.toNat hlt
      rw [Char.ofNat_toNat, h] at hnot
      cases hnot
    · decide
    · decide
  all_goals
    rintro rfl
    revert h
    unfold IsPlain
    decide

theorem plain_sanitizeName (path : String) : ∀ c ∈ (sanitizeName path).toList, Plain c :=
  fun _ hc => plain_of_isPlain (FcApi.sanitizeName_plain path hc)

/-- **The names of REST snapshots are safe end to end**: the line of the API is one line, `boot`
reads back the request with the name, and the snapshot goes right under the store's snapshots. -/
theorem snapshot_name_safe (path : String) (store : Files.Loc) :
    (∃ body, (controlLine "snapshot" (some (sanitizeName path))).toList = body ++ ['\n'] ∧
      '\n' ∉ body ∧ ∃ v, parse number body = some v ∧
        requestOf v = some (.snapshot (some (sanitizeName path)))) ∧
    sanitizeName path ≠ "" ∧ (∀ c ∈ (sanitizeName path).toList, IsPlain c) ∧
    ∃ n : Files.Name, n.val = sanitizeName path ∧
      (Vmm.baseDir store (sanitizeName path)).loc = Vmm.snapshotsDir store ++ [n] := by
  have hname := FcApi.isName_sanitizeName path
  have hplain := plain_sanitizeName path
  refine ⟨⟨"\x7b\"action\":\"snapshot\",\"name\":\"".toList ++ ((sanitizeName path).toList ++
    "\"\x7d".toList), ?_, ?_, .object [("name", .string (sanitizeName path)),
      ("action", .string "snapshot")], ?_, rfl⟩, hname.1, fun _ hc =>
    FcApi.sanitizeName_plain path hc, ⟨_, hname⟩, rfl, Vmm.loc_baseDir hname⟩
  · simp [controlLine]
  · rw [mem_append, mem_append]
    rintro (h | h | h)
    · exact absurd h (by decide)
    · exact absurd (hplain _ h) (by decide)
    · exact absurd h (by decide)
  · have hopen : read number ⟨.value false, []⟩ "\x7b\"action\":\"snapshot\",\"name\":\"".toList =
        some ⟨.string false ⟨[], .plain, none⟩, [.member "name" [("action", .string "snapshot")]]⟩ :=
      rfl
    rw [parse, read_append, hopen, Option.bind_some, read_append, read_plain number _ _ _ _ hplain,
      append_nil, Option.bind_some]
    change some (Value.object [("name", .string (String.ofList _)), _]) = _
    rw [reverse_reverse, String.ofList_toList]

/-! ## Replies -/

def WellFormed (resp : String) : Prop :=
  '\n' ∉ resp.toList ∧ ∃ v b, parse number resp.toList = some v ∧ v.get "ok" = some (.bool b) ∧
    occursIn "\"ok\":true".toList resp.toList = b

theorem okReply_wellFormed : WellFormed number okReply :=
  ⟨by decide, _, true, rfl, rfl, rfl⟩

def Body (t : List Char) : Prop :=
  '"' ∉ t ∧ '\n' ∉ t ∧ ∃ u, ∀ acc stack, read number ⟨.string false ⟨acc, .plain, none⟩, stack⟩ t =
    some ⟨.string false ⟨u ++ acc, .plain, none⟩, stack⟩

variable {number}

theorem Body.append {a b : List Char} (ha : Body number a) (hb : Body number b) :
    Body number (a ++ b) := by
  obtain ⟨hqa, hna, u, hua⟩ := ha
  obtain ⟨hqb, hnb, w, hwb⟩ := hb
  refine ⟨fun h => (mem_append.mp h).elim hqa hqb, fun h => (mem_append.mp h).elim hna hnb, w ++ u,
    fun acc stack => ?_⟩
  rw [read_append, hua, Option.bind_some, hwb, append_assoc]

theorem body_of_plain {t : List Char} (h : ∀ c ∈ t, Plain c) : Body number t :=
  ⟨fun hq => (h _ hq).2.1 rfl, fun hn => absurd (h _ hn) (by decide), t.reverse, fun acc stack =>
    read_plain number false stack t acc h⟩

theorem body_of_all {t : List Char} (h : (t.all fun c => decide (Plain c)) = true) :
    Body number t :=
  body_of_plain fun c hc => of_decide_eq_true (all_eq_true.mp h c hc)

theorem body_toString (n : Nat) : Body number (toString n).toList := by
  rw [Nat.toString_eq_ofList_toDigits, String.toList_ofList]
  refine body_of_plain fun c hc => plain_of_isPlain (.inl ?_)
  rw [Char.isAlphanum, Nat.isDigit_of_mem_toDigits (by decide) (by decide) hc, Bool.or_true]

theorem SyntaxError.body (e : SyntaxError) : Body number e.display.toList := by
  have htext : Body number e.text.toList := by
    rcases mem_cons.mp e.known with h | h
    · -- the one text with escapes in it
      have hesc : Body number "\\u0000-\\u001F".toList :=
        ⟨by decide +kernel, by decide +kernel, ['\x1f', '-', '\x00'], fun _ _ => rfl⟩
      rw [h]
      exact Body.append (a := "control character (".toList) (body_of_all rfl)
        (hesc.append (b := ") found while parsing a string".toList) (body_of_all rfl))
    · have hplain : ∀ s ∈ syntaxErrors.tail, (s.toList.all fun c => decide (Plain c)) = true := by
        decide
      exact body_of_all (hplain _ h)
  rw [display, String.toList_append, String.toList_append, String.toList_append,
    String.toList_append]
  exact Body.append (Body.append (Body.append (Body.append htext (body_of_all rfl))
    (body_toString e.line)) (body_of_all rfl)) (body_toString e.column)

theorem not_isPrefixOf_quoted {t : List Char} (h : '"' ∉ t) :
    "ok\":true".toList.isPrefixOf (t ++ ['"', '\x7d']) = false := by
  refine Bool.eq_false_iff.mpr fun hp => ?_
  obtain ⟨r, hr⟩ := isPrefixOf_iff_prefix.mp hp
  rcases t with _ | ⟨a, _ | ⟨b, _ | ⟨c, t⟩⟩⟩ <;> simp_all

theorem not_occursIn_quoted {t : List Char} (h : '"' ∉ t) :
    occursIn "\"ok\":true".toList (t ++ ['"', '\x7d']) = false := by
  induction t with
  | nil => rfl
  | cons c t ih =>
    obtain ⟨hc, ht⟩ := not_or.mp (mt mem_cons.mpr h)
    rw [cons_append, occursIn, ih ht, Bool.or_false]
    exact Bool.and_eq_false_imp.mpr fun h => absurd (of_decide_eq_true h) hc

theorem errorReply_wellFormed {text : String} (h : Body number text.toList) :
    WellFormed number (errorReply text) := by
  obtain ⟨hquote, hline, u, hread⟩ := h
  have htext : (errorReply text).toList =
      "\x7b\"ok\":false,\"error\":\"".toList ++ (text.toList ++ ['"', '\x7d']) := by
    have hend : "\"\x7d".toList = ['"', '\x7d'] := rfl
    rw [← hend, ← String.toList_append, ← String.toList_append]
    rfl
  have hopen : read number ⟨.value false, []⟩ "\x7b\"ok\":false,\"error\":\"".toList =
      some ⟨.string false ⟨[], .plain, none⟩, [.member "error" [("ok", .bool false)]]⟩ := rfl
  rw [WellFormed, htext]
  refine ⟨?_, .object [("error", .string (String.ofList u.reverse)), ("ok", .bool false)], false, ?_,
    rfl, ?_⟩
  · rw [mem_append, mem_append]
    rintro (h | h | h)
    · exact absurd h (by decide)
    · exact hline h
    · exact absurd h (by decide)
  · rw [parse, read_append, hopen, Option.bind_some, read_append, hread, append_nil]
    rfl
  · -- the last quote in front of the text, and then the text
    change ("ok\":true".toList.isPrefixOf (text.toList ++ ['"', '\x7d']) || _) = false
    rw [not_isPrefixOf_quoted hquote, Bool.false_or]
    exact not_occursIn_quoted hquote

/-! ## An unknown action -/

section Unknown

variable (number)

def tail (cs : List Char) : List Char := cs.flatMap (debugChar printable) ++
  ("\")".toList ++ "\"\x7d".toList)

def Stuck (s : State) : Prop :=
  ∀ cs, (read number s (tail printable cs)).bind (State.finish number) = none

variable {number}

theorem debugChar_cases (c : Char) :
    (∃ cs, debugChar printable c = '\\' :: cs) ∨ c ≠ '"' ∧ debugChar printable c = [c] := by
  unfold debugChar
  split_ifs with _ _ _ _ hesc _
  all_goals first | exact .inl ⟨_, rfl⟩ | exact .inr ⟨fun h => hesc (.inl h), rfl⟩

theorem stuck_of {s : State}
    (hend : (read number s (tail printable [])).bind (State.finish number) = none)
    (hesc : s.step number '\\' = none)
    (hstep : ∀ c, c ≠ '"' → s.step number c = none ∨ s.step number c = some s ∨
      ∃ s', s.step number c = some s' ∧ Stuck number printable s') : Stuck number printable s := by
  intro cs
  induction cs with
  | nil => exact hend
  | cons c cs ih =>
    rw [tail, flatMap_cons, append_assoc]
    obtain ⟨ds, hc⟩ | ⟨hq, hc⟩ := debugChar_cases printable c
    · rw [hc, cons_append, Text.read, foldlM_cons, hesc]
      rfl
    · rw [hc, cons_append, nil_append, Text.read, foldlM_cons]
      obtain h | h | ⟨s', h, hs'⟩ := hstep c hq
      · rw [h]; rfl
      · rw [h]; exact ih
      · rw [h]; exact hs' cs

theorem stuck_done (v : Value) : Stuck number printable ⟨.done v, []⟩ := by
  refine stuck_of printable rfl rfl fun c _ => ?_
  by_cases hws : State.isWs c
  · exact .inr (.inl (if_pos hws))
  · exact .inl (if_neg hws)

theorem stuck_key (fields : List (String × Value)) :
    Stuck number printable ⟨.key false, [.object fields]⟩ := by
  refine stuck_of printable rfl rfl fun c hc => ?_
  by_cases hws : State.isWs c
  · exact .inr (.inl (if_pos hws))
  · exact .inl ((if_neg hws).trans (if_neg hc))

theorem stuck_after (fields : List (String × Value)) :
    Stuck number printable ⟨.after, [.object fields]⟩ := by
  refine stuck_of printable rfl rfl fun c _ => ?_
  by_cases hws : State.isWs c
  · exact .inr (.inl (if_pos hws))
  by_cases hcomma : c = ','
  · exact .inr (.inr ⟨_, (if_neg hws).trans (if_pos hcomma), stuck_key printable fields⟩)
  by_cases hbrace : c = '\x7d'
  · exact .inr (.inr ⟨_, (if_neg hws).trans ((if_neg hcomma).trans (if_pos hbrace)),
      stuck_done printable (.object fields)⟩)
  · exact .inl ((if_neg hws).trans ((if_neg hcomma).trans (if_neg hbrace)))

theorem unknown_not_wellFormed (a : String) :
    ¬ WellFormed number (errorReply ("unknown action: " ++ debug printable (some a))) := by
  let front := "\x7b\"ok\":false,\"error\":\"".toList ++ ("unknown action: ".toList ++
    "Some(\"".toList)
  have htext : (errorReply ("unknown action: " ++ debug printable (some a))).toList =
      front ++ tail printable a.toList := by
    unfold errorReply debug
    simp only [tail, front, String.toList_append, String.toList_ofList, append_assoc]
  have hopen : read number ⟨.value false, []⟩ front = some ⟨.after,
      [.object [("error", .string "unknown action: Some("), ("ok", .bool false)]]⟩ := rfl
  rintro ⟨-, v, -, hparse, -⟩
  rw [htext, parse, read_append, hopen, Option.bind_some, stuck_after printable _ a.toList] at hparse
  cases hparse

end Unknown

/-- **When a control reply is well formed**: unless the line names an action that there is not. -/
theorem reply_wellFormed_iff (line : String) :
    WellFormed number (dispatchControl number err printable taken line) ↔
      ∀ v, parse number line.toList = some v → requestOf v = none → actionOf v = none := by
  unfold dispatchControl
  cases hparse : parse number line.toList with
  | none =>
    refine iff_of_true (errorReply_wellFormed ?_) fun v hv => by cases hv
    rw [String.toList_append]
    exact Body.append (body_of_all rfl) (err line).body
  | some v =>
    have hv : (∀ w, some v = some w → requestOf w = none → actionOf w = none) ↔
        (requestOf v = none → actionOf v = none) := by
      simp only [Option.some.injEq, forall_eq']
    rw [hv]
    dsimp only
    cases requestOf v with
    | some r =>
      refine iff_of_true ?_ fun h => by cases h
      cases r with
      | snapshot name =>
        dsimp only
        split
        · exact okReply_wellFormed number
        · exact errorReply_wellFormed (body_of_all rfl)
      | checkpoint | reset => exact okReply_wellFormed number
    | none =>
      dsimp only
      cases actionOf v with
      | none =>
        rw [debug]
        exact iff_of_true (errorReply_wellFormed (body_of_all rfl)) fun _ => rfl
      | some a => exact iff_of_false (unknown_not_wellFormed printable a) fun h => by cases h rfl

end Dispatch

theorem pause_reply_malformed :
    let number : List Char → Option Number := fun _ => none
    let err : String → SyntaxError := fun _ => ⟨"expected value", by decide, 1, 1⟩
    let resp := dispatchControl number err (fun _ => true) true "\x7b\"action\":\"pause\"\x7d"
    resp = "\x7b\"ok\":false,\"error\":\"unknown action: Some(\"pause\")\"\x7d" ∧
      ¬ WellFormed number resp := by
  refine ⟨rfl, ?_⟩
  rintro ⟨-, v, -, hparse, -⟩
  exact absurd hparse (by rintro ⟨⟩)

end Ignition.Boot
