import Mathlib.Algebra.Group.Nat.Defs
import Ignition.Vmm.Fuzz

/-!
# The command line of `boot`

The argument parser at the head of `main` in `boot.rs`. A flag is looked up by its whole text. One
that takes a value takes the next argument, whatever it looks like; any other argument is unknown if
it starts with `-`, and positional otherwise. The numbers of `--smp`, `--mem` and `--window-mib`
have their ranges asserted.

A path is the text it is made from. `expect` and `assert!` end the process by a panic, of which the
message given in the source is kept.
-/

namespace Ignition.Boot

open List

/-- How `boot` ends while it reads its arguments. -/
inductive Quit where
  | panic (message : String)
  | exit (code : Nat) (message : String)
  deriving DecidableEq

structure Args where
  smp : Nat
  memMib : Option Nat
  net : Bool
  netSocket : Option String
  vsockUds : Option String
  store : String
  name : Option String
  force : Bool
  noSandbox : Bool
  noReseed : Bool
  gui : Bool
  guiHidden : Bool
  trackDirty : Bool
  restoreName : Option String
  controlSock : Option String
  fuzz : Bool
  initramfs : Option String
  solutions : String
  seedPath : Option String
  replayPath : Option String
  windowMib : Nat
  resetMode : Vmm.ResetMode
  metricsPath : Option String
  append : Option String
  positionals : List String
  deriving DecidableEq

def MAX_VCPUS : Nat := 8

namespace Args

def initial : Args where
  smp := 1
  memMib := none
  net := false
  netSocket := none
  vsockUds := none
  store := "./vmstore"
  name := none
  force := false
  noSandbox := false
  noReseed := false
  gui := false
  guiHidden := false
  trackDirty := false
  restoreName := none
  controlSock := none
  fuzz := false
  initramfs := none
  solutions := "./fuzz-solutions"
  seedPath := none
  replayPath := none
  windowMib := 2
  resetMode := .dirty
  metricsPath := none
  append := none
  positionals := []

/-- `str::parse::<u64>`: decimal digits, with a `+` or without. -/
def parseU64 (s : String) : Option Nat :=
  let digits := match s.toList with
    | '+' :: digits => digits
    | digits => digits
  if digits ≠ [] ∧ digits.all Char.isDigit ∧ Nat.ofDigitChars 10 digits 0 < 2 ^ 64 then
    some (Nat.ofDigitChars 10 digits 0)
  else none

/-- A number with its range asserted, as `--smp`, `--mem` and `--window-mib` take it. -/
def ranged (notNumber outside : String) (most : Nat) (v : String) : Except Quit Nat :=
  match parseU64 v with
  | none => .error (.panic notNumber)
  | some n => if 1 ≤ n ∧ n ≤ most then .ok n else .error (.panic outside)

/-- `ResetMode::from_str`, as `--reset` uses it. -/
def resetModeOf (v : String) : Except Quit Vmm.ResetMode :=
  if v = "full" then .ok .full
  else if v = "dirty" then .ok .dirty
  else .error (.panic "--reset must be full|dirty")

def switch (a : Args) : String → Option Args
  | "--fuzz" => some { a with fuzz := true }
  | "--net" => some { a with net := true }
  | "--force" => some { a with force := true }
  | "--no-sandbox" => some { a with noSandbox := true }
  | "--no-reseed" => some { a with noReseed := true }
  | "--gui" => some { a with gui := true }
  | "--gui-hidden" => some { a with gui := true, guiHidden := true }
  | "--track-dirty" => some { a with trackDirty := true }
  | _ => none

def valued (a : Args) : String → Option (String × (String → Except Quit Args))
  | "--smp" => some ("--smp needs a value", fun v =>
      (ranged "--smp value must be a number" "--smp must be 1..=8" MAX_VCPUS v).map fun n =>
        { a with smp := n })
  | "--mem" => some ("--mem needs a value", fun v =>
      (ranged "--mem value must be a number (MiB)" "--mem must be 1..=65536 MiB" 65536 v).map
        fun n => { a with memMib := some n })
  | "--initramfs" => some ("--initramfs needs a path", fun v =>
      .ok { a with initramfs := some v })
  | "--solutions" => some ("--solutions needs a dir", fun v => .ok { a with solutions := v })
  | "--seed" => some ("--seed needs a path", fun v => .ok { a with seedPath := some v })
  | "--replay" => some ("--replay needs a path", fun v => .ok { a with replayPath := some v })
  | "--window-mib" => some ("--window-mib needs a value", fun v =>
      (ranged "--window-mib value must be a number (MiB)" "--window-mib must be 1..=64 MiB" 64
        v).map fun n => { a with windowMib := n })
  | "--reset" => some ("--reset needs full|dirty", fun v =>
      (resetModeOf v).map fun m => { a with resetMode := m })
  | "--metrics" => some ("--metrics needs a path", fun v => .ok { a with metricsPath := some v })
  | "--store" => some ("--store needs a path", fun v => .ok { a with store := v })
  | "--name" => some ("--name needs a value", fun v => .ok { a with name := some v })
  | "--net-socket" => some ("--net-socket needs a path", fun v =>
      .ok { a with netSocket := some v })
  | "--vsock-uds" => some ("--vsock-uds needs a path", fun v => .ok { a with vsockUds := some v })
  | "--control-sock" => some ("--control-sock needs a path", fun v =>
      .ok { a with controlSock := some v })
  | "--restore" => some ("--restore needs a snapshot name", fun v =>
      .ok { a with restoreName := some v })
  | "--append" => some ("--append needs a string", fun v => .ok { a with append := some v })
  | _ => none

/-- `starts_with('-')` -/
def Dashed (s : String) : Prop := s.toList.head? = some '-'

instance (s : String) : Decidable (Dashed s) := inferInstanceAs (Decidable (_ = _))

def parse (a : Args) : List String → Except Quit Args
  | [] => .ok a
  | arg :: rest =>
    match a.switch arg with
    | some a => parse a rest
    | none =>
      match a.valued arg with
      | some (missing, take) =>
        match rest with
        | [] => .error (.panic missing)
        | v :: rest =>
          match take v with
          | .error e => .error e
          | .ok a => parse a rest
      | none =>
        if Dashed arg then .error (.exit 2 ("unknown flag: " ++ arg))
        else parse { a with positionals := a.positionals ++ [arg] } rest

/-- What `boot` goes on to do. -/
inductive Mode where
  | fuzz (kernel initramfs : String)
  | restore (name : String)
  | fresh (kernel : String) (rootfs : Option String)
  deriving DecidableEq

def fuzzUsage (program : String) : String :=
  program ++ " --fuzz --initramfs <cpio> [--solutions <dir>] [--seed <path>] [--replay <file>]" ++
    " [--window-mib N] [--reset full|dirty]"

def usage (program : String) (fuzz : Bool) : String :=
  if fuzz then
    "usage: " ++ fuzzUsage program ++
      " [--metrics <path>] [--mem MiB] [--no-sandbox] <kernel-Image>"
  else
    "usage: " ++ program ++ " [--smp N] [--mem MiB] [--net] [--net-socket <path>]" ++
      " [--vsock-uds <path>] [--store <dir>] [--name <name>] [--force] [--track-dirty]" ++
      " [--restore <name>] [--no-sandbox] [--no-reseed] [--gui] <kernel-Image> [rootfs-disk]\n" ++
      "   or: " ++ fuzzUsage program ++ " [--mem MiB] [--no-sandbox] <kernel-Image>"

def mode (program : String) (a : Args) : Except Quit Mode :=
  if a.fuzz then
    match a.initramfs with
    | none => .error (.exit 2 "--fuzz requires --initramfs <path>")
    | some initramfs =>
      match a.positionals with
      | [] => .error (.exit 2 (usage program true))
      | kernel :: _ => .ok (.fuzz kernel initramfs)
  else
    match a.restoreName with
    | some name => .ok (.restore name)
    | none =>
      match a.positionals with
      | [] => .error (.exit 2 (usage program false))
      | kernel :: more => .ok (.fresh kernel more.head?)

/-! ## Numbers -/

theorem parseU64_toString {n : Nat} (hn : n < 2 ^ 64) : parseU64 (toString n) = some n := by
  have hdigits : (toString n).toList = Nat.toDigits 10 n := by
    rw [Nat.toString_eq_repr, Nat.toList_repr]
  have hall : (Nat.toDigits 10 n).all Char.isDigit = true :=
    all_eq_true.mpr fun c hc => Nat.isDigit_of_mem_toDigits (by decide) (by decide) hc
  have hne : Nat.toDigits 10 n ≠ [] := Nat.toDigits_ne_nil
  unfold parseU64
  rw [hdigits]
  -- the digits do not start with a sign
  have hbare : (match Nat.toDigits 10 n with
      | '+' :: digits => digits
      | digits => digits) = Nat.toDigits 10 n := by
    split
    next digits hsign =>
      rw [hsign] at hall
      exact absurd (all_eq_true.mp hall '+' mem_cons_self) (by decide)
    · rfl
  rw [hbare]
  dsimp only
  rw [Nat.ofDigitChars_ten_toDigits, if_pos ⟨hne, hall, hn⟩]

theorem ranged_toString {n : Nat} (hn : n < 2 ^ 64) (notNumber outside : String) (most : Nat) :
    ranged notNumber outside most (toString n)
      = if 1 ≤ n ∧ n ≤ most then .ok n else .error (.panic outside) := by
  unfold ranged
  rw [parseU64_toString hn]

/-! ## The loop -/

section Loop

variable {a b : Args} {arg v : String} {rest : List String}

theorem parse_switch (h : a.switch arg = some b) : parse a (arg :: rest) = parse b rest := by
  rw [parse, h]

variable {missing : String} {take : String → Except Quit Args}

theorem parse_valued (hs : a.switch arg = none) (hv : a.valued arg = some (missing, take))
    (ht : take v = .ok b) :
    parse a (arg :: v :: rest) = parse b rest := by
  rw [parse, hs, hv]
  dsimp only
  rw [ht]

theorem parse_valued_error {e : Quit} (hs : a.switch arg = none)
    (hv : a.valued arg = some (missing, take)) (ht : take v = .error e) :
    parse a (arg :: v :: rest) = .error e := by
  rw [parse, hs, hv]
  dsimp only
  rw [ht]

theorem parse_ranged_iff {notNumber outside : String} {most n : Nat} {set : Nat → Args}
    (hs : a.switch arg = none)
    (hv : a.valued arg = some (missing, fun v => (ranged notNumber outside most v).map set))
    (hn : n < 2 ^ 64) :
    parse a (arg :: toString n :: rest) = .ok b ↔
      (1 ≤ n ∧ n ≤ most) ∧ parse (set n) rest = .ok b := by
  by_cases hr : 1 ≤ n ∧ n ≤ most
  · rw [parse_valued hs hv (b := set n) (by rw [ranged_toString hn, if_pos hr]; rfl)]
    exact ⟨fun h => ⟨hr, h⟩, And.right⟩
  · rw [parse_valued_error hs hv (e := .panic outside)
      (by rw [ranged_toString hn, if_neg hr]; rfl)]
    exact ⟨fun h => (by cases h), fun h => absurd h.1 hr⟩

theorem parse_positional (hs : a.switch arg = none) (hv : a.valued arg = none)
    (hd : ¬ Dashed arg) :
    parse a (arg :: rest) = parse { a with positionals := a.positionals ++ [arg] } rest := by
  rw [parse, hs, hv]
  exact if_neg hd

theorem dashed_of_switch (h : a.switch arg = some b) : Dashed arg := by
  unfold switch at h
  split at h
  case h_9 => cases h
  all_goals decide

theorem dashed_of_valued {r : String × (String → Except Quit Args)} (h : a.valued arg = some r) :
    Dashed arg := by
  unfold valued at h
  split at h
  case h_17 => cases h
  all_goals decide

theorem parse_undashed (hd : ¬ Dashed arg) :
    parse a (arg :: rest) = parse { a with positionals := a.positionals ++ [arg] } rest := by
  refine parse_positional ?_ ?_ hd
  · cases hs : a.switch arg with
    | none => rfl
    | some b => exact absurd (dashed_of_switch hs) hd
  · cases hv : a.valued arg with
    | none => rfl
    | some r => exact absurd (dashed_of_valued hv) hd

theorem switch_positionals (h : a.switch arg = some b) : b.positionals = a.positionals := by
  unfold switch at h
  split at h
  case h_9 => cases h
  all_goals
    cases h
    rfl

theorem map_positionals {ι : Type} {set : ι → Args} {r : Except Quit ι} (h : r.map set = .ok b)
    (hset : ∀ n, (set n).positionals = a.positionals) : b.positionals = a.positionals := by
  cases r with
  | error e => cases h
  | ok n =>
    cases h
    exact hset n

theorem valued_positionals (h : a.valued arg = some (missing, take)) (ht : take v = .ok b) :
    b.positionals = a.positionals := by
  unfold valued at h
  split at h
  case h_17 => cases h
  all_goals
    cases h
  -- the three numbers and the reset mode
  case h_1 => exact map_positionals ht fun _ => rfl
  case h_2 => exact map_positionals ht fun _ => rfl
  case h_7 => exact map_positionals ht fun _ => rfl
  case h_8 => exact map_positionals ht fun _ => rfl
  all_goals
    cases ht
    rfl

theorem parse_positionals : ∀ {args : List String} {a b : Args}, parse a args = .ok b →
    ∀ p ∈ b.positionals, p ∈ a.positionals ∨ ¬ Dashed p := by
  intro args a b h
  fun_induction parse a args with
  | case1 a =>
    cases h
    exact fun p hp => .inl hp
  | case2 a arg rest a' hs ih =>
    rw [← switch_positionals hs]
    exact ih h
  | case3 => cases h
  | case4 => cases h
  | case5 a arg hs missing take hv v rest a' ht ih =>
    rw [← valued_positionals hv ht]
    exact ih h
  | case6 => cases h
  | case7 a arg rest hs hv hd ih =>
    intro p hp
    rcases ih h p hp with hp | hp
    · rcases mem_append.mp hp with hp | hp
      · exact .inl hp
      · obtain rfl := mem_singleton.mp hp
        exact .inr hd
    · exact .inr hp

end Loop

end Args

end Ignition.Boot
