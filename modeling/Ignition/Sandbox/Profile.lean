import Ignition.Base.Sexp

/-!
# The sandbox profile

`crates/sandbox/src/lib.rs` renders the rules that the VMM puts itself under as text, with the paths
of the command line in string literals. Under these rules the last match wins, which is why the
denial of the host's secrets comes last.
-/

namespace Ignition.Sandbox

open List

structure SandboxPaths where
  readable : List String
  writable : List String

def sbplEscape (s : String) : String :=
  String.ofList
    ((s.toList.flatMap fun c => if c = '\\' then ['\\', '\\'] else [c]).flatMap fun c =>
      if c = '"' then ['\\', '"'] else [c])

/-- `home` is the variable `HOME`, where it is set. -/
def secretSubpaths (home : Option String) : List String :=
  let home := home.getD "/var/empty"
  [home ++ "/.ssh", home ++ "/Library/Keychains", "/Library/Keychains", home ++ "/.aws",
    home ++ "/.gnupg"]

def buildProfile (home : Option String) (paths : SandboxPaths) : String :=
  "(version 1)\n"
  ++ "(allow default)\n\n"
  ++ ";; network egress: the VMM opens no IP sockets itself\n"
  ++ "(deny network-outbound (remote ip))\n"
  ++ "(deny network-inbound  (remote ip))\n\n"
  ++ ";; no spawning helpers out of a compromised VMM\n"
  ++ "(deny process-exec*)\n"
  ++ "(deny process-fork)\n\n"
  ++ (if paths.readable.isEmpty then "" else
    ";; declared readable paths (explicit; redundant under allow-default)\n"
    ++ String.join (paths.readable.map fun r =>
      "(allow file-read* (subpath \"" ++ sbplEscape r ++ "\"))\n")
    ++ "\n")
  ++ ";; writes only to the declared VM-state dirs\n"
  ++ "(deny file-write*)\n"
  ++ ("(allow file-write*\n"
    ++ "  (subpath \"/private/var/folders\")\n"
    ++ String.join (paths.writable.map fun w => "  (subpath \"" ++ sbplEscape w ++ "\")\n")
    ++ ")\n\n")
  ++ ";; host secrets: last block, denies read+write, wins over --store overlap\n"
  ++ ("(deny file-read* file-write*\n"
    ++ String.join ((secretSubpaths home).map fun sub =>
      "  (subpath \"" ++ sbplEscape sub ++ "\")\n")
    ++ ")\n")

/-! ## The rules -/

open Sexp

def sym (s : String) : Sexp := .symbol s.toList

def subpath (p : String) : Sexp := .list [sym "subpath", .literal p.toList]

def remoteIp : Sexp := .list [sym "remote", sym "ip"]

def secretDeny (home : Option String) : Sexp :=
  .list ([sym "deny", sym "file-read*", sym "file-write*"] ++ (secretSubpaths home).map subpath)

def rules (home : Option String) (paths : SandboxPaths) : List Sexp :=
  [.list [sym "version", sym "1"], .list [sym "allow", sym "default"],
    .list [sym "deny", sym "network-outbound", remoteIp],
    .list [sym "deny", sym "network-inbound", remoteIp],
    .list [sym "deny", sym "process-exec*"], .list [sym "deny", sym "process-fork"]]
  ++ paths.readable.map (fun r => .list [sym "allow", sym "file-read*", subpath r])
  ++ [.list [sym "deny", sym "file-write*"]]
  ++ [.list ([sym "allow", sym "file-write*", subpath "/private/var/folders"] ++
    paths.writable.map subpath)]
  ++ [secretDeny home]

/-! ## Reading the profile -/

theorem toList_sbplEscape (s : String) : (sbplEscape s).toList = s.toList.flatMap fun c =>
    if c = '\\' then ['\\', '\\'] else if c = '"' then ['\\', '"'] else [c] := by
  rw [sbplEscape, String.toList_ofList, flatMap_assoc]
  refine congrArg₂ flatMap ?_ rfl
  funext c
  split <;> simp

/-- **Through an escaped text**: every character is one of the literal, which stays open. -/
theorem text_sbplEscape (s : String) (t : List Char) (items : List Sexp) (outer) :
    Reader.text ⟨.literal t, items, outer⟩ (sbplEscape s) =
      some ⟨.literal (t ++ s.toList), items, outer⟩ := by
  rw [Reader.text, toList_sbplEscape]
  induction s.toList generalizing t with
  | nil => rw [append_nil]; rfl
  | cons c cs ih =>
    have ih := ih (t ++ [c])
    rw [append_assoc] at ih
    rw [flatMap_cons, foldlM_append]
    by_cases hb : c = '\\'
    · subst hb
      exact ih
    by_cases hq : c = '"'
    · subst hq
      exact ih
    · rw [if_neg hb, if_neg hq, foldlM_cons, Reader.step_literal hb hq]
      exact ih

theorem reads_subpath (p : String) : Reads ("  (subpath \"" ++ sbplEscape p ++ "\")\n")
    [subpath p] := by
  intro items outer
  have hopen : Reader.text ⟨.plain, items, outer⟩ "  (subpath \"" =
      some ⟨.literal [], [sym "subpath"], items :: outer⟩ := rfl
  rw [Reader.text_append, Reader.text_append, hopen, Option.bind_some, text_sbplEscape,
    Option.bind_some]
  rfl

theorem reads_readable (p : String) :
    Reads ("(allow file-read* (subpath \"" ++ sbplEscape p ++ "\"))\n")
      [.list [sym "allow", sym "file-read*", subpath p]] := by
  intro items outer
  have hopen : Reader.text ⟨.plain, items, outer⟩ "(allow file-read* (subpath \"" =
      some ⟨.literal [], [sym "subpath"], [sym "file-read*", sym "allow"] :: items :: outer⟩ := rfl
  rw [Reader.text_append, Reader.text_append, hopen, Option.bind_some, text_sbplEscape,
    Option.bind_some]
  rfl

theorem reads_readables (readable : List String) :
    Reads (if readable.isEmpty then "" else
        ";; declared readable paths (explicit; redundant under allow-default)\n"
        ++ String.join (readable.map fun r =>
          "(allow file-read* (subpath \"" ++ sbplEscape r ++ "\"))\n")
        ++ "\n")
      (readable.map fun r => .list [sym "allow", sym "file-read*", subpath r]) := by
  split
  · rename_i h
    rw [isEmpty_iff.mp h]
    exact Blank.reads fun _ _ => rfl
  · intro items outer
    rw [Reader.text_append, Reader.text_append]
    exact congrArg (Option.bind · _) (Reads.join reads_readable readable items outer)

theorem reads_buildProfile (home : Option String) (paths : SandboxPaths) :
    Reads (buildProfile home paths) (rules home paths) := by
  refine Reads.append (Reads.blank (Reads.append (Reads.append (Reads.blank (Reads.append ?_
    (reads_readables paths.readable)) ?_) ?_) ?writes) ?_) ?secrets
  case writes =>
    exact Reads.enclosed [sym "allow", sym "file-write*", subpath "/private/var/folders"]
      (fun _ _ => by rw [Reader.text_append]; rfl) (Reads.join reads_subpath paths.writable)
      fun _ _ _ => rfl
  case secrets =>
    exact Reads.enclosed [sym "deny", sym "file-read*", sym "file-write*"] (fun _ _ => rfl)
      (Reads.join reads_subpath (secretSubpaths home)) fun _ _ _ => rfl
  · intro items outer
    simp only [Reader.text_append]
    rfl
  all_goals exact fun _ _ => rfl

/-- **The profile is read as its rules**, each path one literal, and the denial of the secrets is
the last of them. -/
theorem profile_injection_free (home : Option String) (paths : SandboxPaths) :
    read (buildProfile home paths) = some (rules home paths) ∧
      (rules home paths).getLast? = some (secretDeny home) := by
  refine ⟨read_of_reads (reads_buildProfile home paths), ?_⟩
  rw [rules, getLast?_concat]

end Ignition.Sandbox
