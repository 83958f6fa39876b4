import Mathlib.Algebra.Group.Nat.Defs
import Ignition.Base.AssocMap
import Ignition.Base.Path

/-!
# Sandbox sessions

`SessionManager` of `crates/mcp/src/session.rs`: a table of sessions, each with a `boot` child of
its own.

How the source is mirrored:

- Children are numbered in the order in which they are spawned. `kill` stands for `kill` and `wait`,
  after which a child is gone. Whether a spawn succeeds is up to the host.
- Times are in nanoseconds on the host's monotonic clock. An operation takes no time.
- The counter of ids is a `u64`. Incrementing a full one panics, before anything is changed.
- The socket files are not modelled; nothing but the children uses them.
- Going over a hash map has no particular order; here it is that of the entries. The sessions that
  are closed on the way are the same in any order.

`Exact` is what every operation preserves: the sessions are the children that were spawned and not
killed, one each, and there are no more of them than are allowed. `Kept` is what the operations
other than opening leave alone.
-/

namespace Ignition.Mcp

open Files List

/-! ## The host -/

structure Host where
  now : Nat
  spawned : Nat
  killed : List Nat

namespace Host

/-- `spawn`, which the operating system may refuse. -/
def spawn (h : Host) : Option String → Except String Nat × Host
  | some e => (.error e, h)
  | none => (.ok h.spawned, { h with spawned := h.spawned + 1 })

/-- `kill` and `wait` -/
def kill (h : Host) (child : Nat) : Host := { h with killed := child :: h.killed }

end Host

/-! ## The table -/

structure SessionConfig where
  udsDir : Path
  maxSessions : Nat
  idle : Nat

inductive SessionError where
  | capReached (n : Nat)
  | unknown (id : String)
  | spawn (e : String)
  deriving DecidableEq

structure Session where
  uds : Path
  child : Nat
  lastUsed : Nat
  deriving DecidableEq

structure SessionManager where
  cfg : SessionConfig
  sessions : AssocMap String Session
  next : Nat

def elapsedIdle (now last idle : Nat) : Bool := idle < now - last

def sessionId (n : Nat) : String := "s" ++ toString n

def socketName (id : String) : String := "ign-mcp-" ++ id ++ ".sock"

def SessionConfig.socketPath (cfg : SessionConfig) (id : String) : Path :=
  cfg.udsDir.join (socketName id)

namespace SessionManager

def new (cfg : SessionConfig) : SessionManager := ⟨cfg, ∅, 0⟩

def getUds (m : SessionManager) (h : Host) (id : String) :
    Except SessionError Path × SessionManager :=
  match m.sessions.lookup id with
  | none => (.error (.unknown id), m)
  | some s => (.ok s.uds, { m with sessions := m.sessions.replace id { s with lastUsed := h.now } })

/-- `SessionManager::open`, unless it panics. -/
def openSession (m : SessionManager) (h : Host) (fail : Option String) :
    Option (Except SessionError String × SessionManager × Host) :=
  if m.cfg.maxSessions ≤ m.sessions.entries.length then
    some (.error (.capReached m.cfg.maxSessions), m, h)
  else if m.next + 1 = 2 ^ 64 then none
  else
    let id := sessionId m.next
    let m := { m with next := m.next + 1 }
    match h.spawn fail with
    | (.error e, h) => some (.error (.spawn e), m, h)
    | (.ok child, h) =>
      some (.ok id,
        { m with sessions := m.sessions.insert id ⟨m.cfg.socketPath id, child, h.now⟩ }, h)

def close (m : SessionManager) (h : Host) (id : String) :
    Except SessionError Unit × SessionManager × Host :=
  match m.sessions.lookup id with
  | none => (.error (.unknown id), m, h)
  | some s => (.ok (), { m with sessions := m.sessions.erase id }, h.kill s.child)

def reset (m : SessionManager) (h : Host) (id : String) (fail : Option String) :
    Except SessionError Unit × SessionManager × Host :=
  match m.sessions.lookup id with
  | none => (.error (.unknown id), m, h)
  | some s =>
    match (h.kill s.child).spawn fail with
    | (.error e, h) => (.error (.spawn e), { m with sessions := m.sessions.erase id }, h)
    | (.ok child, h) =>
      let s := { s with child := child, lastUsed := h.now }
      (.ok (), { m with sessions := m.sessions.replace id s }, h)

/-- The loop that closes some sessions, in `reap_idle` and `shutdown`. -/
def closeAll (m : SessionManager) (h : Host) : List String → SessionManager × Host
  | [] => (m, h)
  | id :: ids =>
    let r := m.close h id
    closeAll r.2.1 r.2.2 ids

/-- The sessions that `reap_idle` takes to be idle. -/
def stale (m : SessionManager) (h : Host) : List String :=
  (m.sessions.entries.filter fun e => elapsedIdle h.now e.2.lastUsed m.cfg.idle).map Sigma.fst

def reapIdle (m : SessionManager) (h : Host) : SessionManager × Host := m.closeAll h (m.stale h)

def shutdown (m : SessionManager) (h : Host) : SessionManager × Host :=
  m.closeAll h m.sessions.keys

end SessionManager

/-! ## Ids -/

theorem sessionId_injective {i j : Nat} (h : sessionId i = sessionId j) : i = j := by
  have hdigits : Nat.toDigits 10 i = Nat.toDigits 10 j := by
    have hchars := congrArg String.toList h
    unfold sessionId at hchars
    rw [String.toList_append, String.toList_append] at hchars
    rw [← Nat.toList_repr, ← Nat.toList_repr]
    exact append_cancel_left hchars
  rw [← Nat.ofDigitChars_ten_toDigits (n := i), hdigits, Nat.ofDigitChars_ten_toDigits]

theorem isName_socketName (n : Nat) : IsName (socketName (sessionId n)) := by
  have hchars : (socketName (sessionId n)).toList =
      "ign-mcp-s".toList ++ (Nat.toDigits 10 n ++ ".sock".toList) := by
    have hstem : "ign-mcp-s".toList = "ign-mcp-".toList ++ "s".toList := by decide
    unfold socketName sessionId
    rw [String.toList_append, String.toList_append, String.toList_append,
      Nat.toString_eq_repr, Nat.toList_repr, hstem, append_assoc, append_assoc,
      append_assoc]
  have hlen : 14 ≤ (socketName (sessionId n)).toList.length := by
    rw [hchars, length_append, length_append]
    show 14 ≤ 9 + ((Nat.toDigits 10 n).length + 5)
    omega
  have hne : ∀ s : String, s.toList.length < 14 → socketName (sessionId n) ≠ s := by
    rintro s hs rfl
    omega
  refine ⟨hne "" (by decide), hne "." (by decide), hne ".." (by decide), ?_⟩
  rw [hchars, mem_append, mem_append]
  rintro (h | h | h)
  · revert h
    decide
  · exact absurd (Nat.isDigit_of_mem_toDigits (by decide) (by decide) h) (by decide)
  · revert h
    decide

theorem socketPath_injective {cfg : SessionConfig} {i j : Nat}
    (h : cfg.socketPath (sessionId i) = cfg.socketPath (sessionId j)) : i = j := by
  unfold SessionConfig.socketPath at h
  rw [Path.join_name _ (isName_socketName i), Path.join_name _ (isName_socketName j)] at h
  obtain hname := congrArg Subtype.val (Comp.name.inj (singleton_inj.mp
    (append_cancel_left h)))
  have hchars := congrArg String.toList hname
  unfold socketName at hchars
  rw [String.toList_append, String.toList_append, String.toList_append, String.toList_append]
    at hchars
  exact sessionId_injective (String.toList_injective
    (append_cancel_left (append_cancel_right hchars)))

/-! ## The table and the children -/

/-- The table against the host. -/
structure Exact (m : SessionManager) (h : Host) : Prop where
  held : ∀ c, (∃ id s, m.sessions.lookup id = some s ∧ s.child = c) ↔
    c < h.spawned ∧ c ∉ h.killed
  single : ∀ {id id' : String} {s s' : Session}, m.sessions.lookup id = some s →
    m.sessions.lookup id' = some s' → s.child = s'.child → id = id'
  dead : ∀ c ∈ h.killed, c < h.spawned
  capped : m.sessions.entries.length ≤ m.cfg.maxSessions
  named : ∀ {id : String} {s : Session}, m.sessions.lookup id = some s →
    (∃ n < m.next, id = sessionId n) ∧ s.uds = m.cfg.socketPath id

namespace Exact

variable {m : SessionManager} {h : Host}

theorem new (cfg : SessionConfig) (now : Nat) : Exact (.new cfg) ⟨now, 0, []⟩ where
  held c := by
    refine ⟨?_, fun hc => absurd hc.1 (Nat.not_lt_zero c)⟩
    rintro ⟨_, _, hl, _⟩
    cases hl
  single hl := by cases hl
  dead _ hc := absurd hc not_mem_nil
  capped := Nat.zero_le _
  named hl := by cases hl

theorem wait (he : Exact m h) (now : Nat) : Exact m { h with now := now } :=
  ⟨he.held, he.single, he.dead, he.capped, he.named⟩

theorem getUds (he : Exact m h) (id : String) : Exact (m.getUds h id).2 h := by
  unfold SessionManager.getUds
  split
  · exact he
  rename_i s hs
  -- the entry keeps its child and its socket
  have hlook : ∀ {id' : String} {s' : Session},
      (m.sessions.replace id { s with lastUsed := h.now }).lookup id' = some s' →
      ∃ s₀, m.sessions.lookup id' = some s₀ ∧ s'.child = s₀.child ∧ s'.uds = s₀.uds := by
    intro id' s' hl
    rw [AssocMap.lookup_replace] at hl
    split at hl
    next hid =>
      subst hid
      rw [hs] at hl
      cases hl
      exact ⟨s, hs, rfl, rfl⟩
    · exact ⟨s', hl, rfl, rfl⟩
  refine ⟨fun c => ?_, ?_, he.dead, ?_, ?_⟩
  · rw [← he.held c]
    constructor
    · rintro ⟨id', s', hl, rfl⟩
      obtain ⟨s₀, hl₀, hchild, -⟩ := hlook hl
      exact ⟨id', s₀, hl₀, hchild.symm⟩
    · rintro ⟨id', s', hl, rfl⟩
      by_cases hid : id' = id
      · subst hid
        rw [hs] at hl
        cases hl
        refine ⟨id', { s with lastUsed := h.now }, ?_, rfl⟩
        show (m.sessions.replace id' _).lookup id' = _
        rw [AssocMap.lookup_replace, if_pos rfl, hs]
        rfl
      · exact ⟨id', s', by rw [AssocMap.lookup_replace, if_neg hid]; exact hl, rfl⟩
  · intro id₁ id₂ s₁ s₂ h₁ h₂ hc
    obtain ⟨t₁, ht₁, hc₁, -⟩ := hlook h₁
    obtain ⟨t₂, ht₂, hc₂, -⟩ := hlook h₂
    exact he.single ht₁ ht₂ (hc₁.symm.trans (hc.trans hc₂))
  · show (m.sessions.replace id _).entries.length ≤ _
    rw [AssocMap.length_replace]
    exact he.capped
  · intro id' s' hl
    obtain ⟨s₀, hl₀, -, huds⟩ := hlook hl
    exact ⟨(he.named hl₀).1, huds.trans (he.named hl₀).2⟩

theorem remove (he : Exact m h) {id : String} {s : Session} (hs : m.sessions.lookup id = some s) :
    Exact { m with sessions := m.sessions.erase id } (h.kill s.child) := by
  have hlook : ∀ {id' : String} {s' : Session}, (m.sessions.erase id).lookup id' = some s' →
      id' ≠ id ∧ m.sessions.lookup id' = some s' := by
    intro id' s' hl
    rw [AssocMap.lookup_erase] at hl
    split at hl
    · cases hl
    next hid => exact ⟨hid, hl⟩
  refine ⟨fun c => ?_, ?_, ?_, ?_, ?_⟩
  · constructor
    · rintro ⟨id', s', hl, rfl⟩
      obtain ⟨hid, hl⟩ := hlook hl
      obtain ⟨hlt, hlive⟩ := (he.held s'.child).mp ⟨id', s', hl, rfl⟩
      refine ⟨hlt, fun hk => ?_⟩
      rcases mem_cons.mp hk with hc | hk
      · exact hid (he.single hl hs hc)
      · exact hlive hk
    · rintro ⟨hlt, hlive⟩
      obtain ⟨id', s', hl, rfl⟩ :=
        (he.held c).mpr ⟨hlt, fun hk => hlive (mem_cons_of_mem _ hk)⟩
      refine ⟨id', s', ?_, rfl⟩
      have hid : id' ≠ id := by
        rintro rfl
        rw [hs] at hl
        cases hl
        exact hlive mem_cons_self
      show (m.sessions.erase id).lookup id' = some s'
      rw [AssocMap.lookup_erase, if_neg hid]
      exact hl
  · exact fun h₁ h₂ hc => he.single (hlook h₁).2 (hlook h₂).2 hc
  · intro c hc
    rcases mem_cons.mp hc with rfl | hc
    · exact ((he.held s.child).mp ⟨id, s, hs, rfl⟩).1
    · exact he.dead c hc
  · exact Nat.le_trans (AssocMap.length_erase_le m.sessions id) he.capped
  · exact fun hl => he.named (hlook hl).2

theorem add (he : Exact m h) {id : String} {s : Session} (hnone : m.sessions.lookup id = none)
    (hroom : m.sessions.entries.length < m.cfg.maxSessions) (hchild : s.child = h.spawned)
    (hname : (∃ n < m.next, id = sessionId n) ∧ s.uds = m.cfg.socketPath id) :
    Exact { m with sessions := m.sessions.insert id s } { h with spawned := h.spawned + 1 } := by
  have hlook : ∀ {id' : String} {s' : Session}, (m.sessions.insert id s).lookup id' = some s' →
      (id' = id ∧ s' = s) ∨ (m.sessions.lookup id' = some s' ∧ s'.child < h.spawned) := by
    intro id' s' hl
    rw [AssocMap.lookup_insert] at hl
    split at hl
    next hid => exact .inl ⟨hid, (Option.some.inj hl).symm⟩
    · exact .inr ⟨hl, ((he.held s'.child).mp ⟨id', s', hl, rfl⟩).1⟩
  refine ⟨fun c => ?_, ?_, fun c hc => Nat.lt_succ_of_lt (he.dead c hc), ?_, ?_⟩
  · constructor
    · rintro ⟨id', s', hl, rfl⟩
      rcases hlook hl with ⟨rfl, rfl⟩ | ⟨hl, hlt⟩
      · rw [hchild]
        exact ⟨Nat.lt_succ_self _, fun hk => Nat.lt_irrefl _ (he.dead _ hk)⟩
      · exact ⟨Nat.lt_succ_of_lt hlt, ((he.held s'.child).mp ⟨id', s', hl, rfl⟩).2⟩
    · rintro ⟨hlt, hlive⟩
      rcases Nat.lt_succ_iff_lt_or_eq.mp hlt with hlt | rfl
      · obtain ⟨id', s', hl, rfl⟩ := (he.held c).mpr ⟨hlt, hlive⟩
        refine ⟨id', s', ?_, rfl⟩
        show (m.sessions.insert id s).lookup id' = some s'
        rw [AssocMap.lookup_insert, if_neg (fun hid => by rw [hid, hnone] at hl; cases hl)]
        exact hl
      · refine ⟨id, s, ?_, hchild⟩
        show (m.sessions.insert id s).lookup id = some s
        rw [AssocMap.lookup_insert, if_pos rfl]
  · intro id₁ id₂ s₁ s₂ h₁ h₂ hc
    rcases hlook h₁ with ⟨rfl, rfl⟩ | ⟨hl₁, hlt₁⟩
    · rcases hlook h₂ with ⟨rfl, rfl⟩ | ⟨hl₂, hlt₂⟩
      · rfl
      · omega
    · rcases hlook h₂ with ⟨rfl, rfl⟩ | ⟨hl₂, hlt₂⟩
      · omega
      · exact he.single hl₁ hl₂ hc
  · show (m.sessions.insert id s).entries.length ≤ _
    rw [AssocMap.length_insert_of_lookup_none hnone]
    exact hroom
  · intro id' s' hl
    rcases hlook hl with ⟨rfl, rfl⟩ | ⟨hl, -⟩
    · exact hname
    · exact he.named hl

theorem of_lookup (he : Exact m h) {m' : SessionManager} (hcfg : m'.cfg = m.cfg)
    (hnext : m.next ≤ m'.next)
    (hlook : ∀ id, m'.sessions.lookup id = m.sessions.lookup id)
    (hlen : m'.sessions.entries.length = m.sessions.entries.length) : Exact m' h := by
  refine ⟨fun c => ?_, fun h₁ h₂ hc => ?_, he.dead, ?_, fun {id} s hs => ?_⟩
  · rw [← he.held c]
    constructor
    · rintro ⟨id, s, hs, hc⟩
      exact ⟨id, s, hlook id ▸ hs, hc⟩
    · rintro ⟨id, s, hs, hc⟩
      exact ⟨id, s, (hlook id).symm ▸ hs, hc⟩
  · rw [hlook] at h₁ h₂
    exact he.single h₁ h₂ hc
  · rw [hlen, hcfg]
    exact he.capped
  · rw [hlook] at hs
    obtain ⟨⟨n, hn, hid⟩, huds⟩ := he.named hs
    exact ⟨⟨n, Nat.lt_of_lt_of_le hn hnext, hid⟩, hcfg ▸ huds⟩

theorem close (he : Exact m h) (id : String) : Exact (m.close h id).2.1 (m.close h id).2.2 := by
  unfold SessionManager.close
  split
  · exact he
  next s hs => exact he.remove hs

theorem closeAll : ∀ {m : SessionManager} {h : Host} (ids : List String), Exact m h →
    Exact (m.closeAll h ids).1 (m.closeAll h ids).2
  | _, _, [], he => he
  | _, _, id :: ids, he => closeAll ids (he.close id)

theorem reset (he : Exact m h) (id : String) (fail : Option String) :
    Exact (m.reset h id fail).2.1 (m.reset h id fail).2.2 := by
  unfold SessionManager.reset
  split
  · exact he
  rename_i s hs
  cases fail with
  | some e => exact he.remove hs
  | none =>
    -- the entry is as if it had been removed and added again
    have hnone : (m.sessions.erase id).lookup id = none := by
      rw [AssocMap.lookup_erase, if_pos rfl]
    have hlen := AssocMap.length_erase_of_lookup hs
    have hcap := he.capped
    have hadd := (he.remove hs).add (s := { s with child := h.spawned, lastUsed := h.now }) hnone
      (by show (m.sessions.erase id).entries.length < m.cfg.maxSessions; omega) rfl
      ⟨(he.named hs).1, (he.named hs).2⟩
    refine hadd.of_lookup rfl (Nat.le_refl _) (fun id' => ?_) ?_
    · show (m.sessions.replace id _).lookup id' = ((m.sessions.erase id).insert id _).lookup id'
      rw [AssocMap.lookup_replace, AssocMap.lookup_insert, AssocMap.lookup_erase, hs]
      split <;> rfl
    · show (m.sessions.replace id _).entries.length =
        ((m.sessions.erase id).insert id _).entries.length
      rw [AssocMap.length_replace, AssocMap.length_insert_of_lookup_none hnone, hlen]

theorem lookup_next (he : Exact m h) : m.sessions.lookup (sessionId m.next) = none := by
  cases hs : m.sessions.lookup (sessionId m.next) with
  | none => rfl
  | some s =>
    obtain ⟨⟨n, hn, hid⟩, -⟩ := he.named hs
    exact absurd (sessionId_injective hid) (Nat.ne_of_gt hn)

theorem openSession (he : Exact m h) {fail : Option String}
    {r : Except SessionError String × SessionManager × Host}
    (hr : m.openSession h fail = some r) : Exact r.2.1 r.2.2 := by
  have hcounted : Exact { m with next := m.next + 1 } h :=
    he.of_lookup rfl (Nat.le_succ _) (fun _ => rfl) rfl
  unfold SessionManager.openSession at hr
  split at hr
  · cases hr
    exact he
  rename_i hroom
  split at hr
  · cases hr
  cases fail with
  | some e =>
    cases hr
    exact hcounted
  | none =>
    cases hr
    exact hcounted.add he.lookup_next (Nat.lt_of_not_le hroom) rfl
      ⟨⟨m.next, Nat.lt_succ_self _, rfl⟩, rfl⟩

theorem none_left (he : Exact m h) (hempty : ∀ id, m.sessions.lookup id = none) :
    ∀ c < h.spawned, c ∈ h.killed := by
  intro c hc
  by_contra hlive
  obtain ⟨id, s, hs, -⟩ := (he.held c).mpr ⟨hc, hlive⟩
  rw [hempty id] at hs
  cases hs

end Exact

/-! ## What an operation leaves alone -/

/-- No id is added, and a session was last used when it was before, or is now. -/
structure Kept (m : SessionManager) (h : Host) (m' : SessionManager) (h' : Host) : Prop where
  cfg : m'.cfg = m.cfg
  next : m'.next = m.next
  now : h'.now = h.now
  used : ∀ {id : String} {s' : Session}, m'.sessions.lookup id = some s' →
    ∃ s, m.sessions.lookup id = some s ∧ (s'.lastUsed = s.lastUsed ∨ s'.lastUsed = h.now)

namespace Kept

variable {m m' : SessionManager} {h h' : Host}

theorem refl (m : SessionManager) (h : Host) : Kept m h m h :=
  ⟨rfl, rfl, rfl, fun {_ s'} hs => ⟨s', hs, .inl rfl⟩⟩

theorem trans (hk : Kept m h m' h') {m'' : SessionManager} {h'' : Host}
    (hk' : Kept m' h' m'' h'') : Kept m h m'' h'' := by
  refine ⟨hk'.cfg.trans hk.cfg, hk'.next.trans hk.next, hk'.now.trans hk.now, fun hs'' => ?_⟩
  obtain ⟨s', hs', hused'⟩ := hk'.used hs''
  obtain ⟨s, hs, hused⟩ := hk.used hs'
  refine ⟨s, hs, ?_⟩
  rcases hused' with hu | hu
  · rw [hu]
    exact hused
  · exact .inr (hu.trans hk.now)

theorem erase (m : SessionManager) (id : String) {h h' : Host} (hnow : h'.now = h.now) :
    Kept m h { m with sessions := m.sessions.erase id } h' := by
  refine ⟨rfl, rfl, hnow, fun {id' s'} hs => ⟨s', ?_, .inl rfl⟩⟩
  have hs : (m.sessions.erase id).lookup id' = some s' := hs
  rw [AssocMap.lookup_erase] at hs
  split at hs
  · cases hs
  · exact hs

theorem replace {m : SessionManager} {h h' : Host} {id : String} {s s₁ : Session}
    (hs : m.sessions.lookup id = some s) (hused : s₁.lastUsed = h.now) (hnow : h'.now = h.now) :
    Kept m h { m with sessions := m.sessions.replace id s₁ } h' := by
  refine ⟨rfl, rfl, hnow, fun {id' s'} hs' => ?_⟩
  have hs' : (m.sessions.replace id s₁).lookup id' = some s' := hs'
  rw [AssocMap.lookup_replace] at hs'
  split at hs'
  next hid =>
    subst hid
    rw [hs] at hs'
    obtain rfl := Option.some.inj hs'
    exact ⟨s, hs, .inr hused⟩
  · exact ⟨s', hs', .inl rfl⟩

theorem getUds (m : SessionManager) (h : Host) (id : String) :
    Kept m h (m.getUds h id).2 h := by
  unfold SessionManager.getUds
  split
  · exact .refl m h
  next s hs => exact .replace hs rfl rfl

theorem close (m : SessionManager) (h : Host) (id : String) :
    Kept m h (m.close h id).2.1 (m.close h id).2.2 := by
  unfold SessionManager.close
  split
  · exact .refl m h
  next s hs => exact .erase m id rfl

theorem closeAll : ∀ (m : SessionManager) (h : Host) (ids : List String),
    Kept m h (m.closeAll h ids).1 (m.closeAll h ids).2
  | m, h, [] => .refl m h
  | m, h, id :: ids => (close m h id).trans (closeAll _ _ ids)

theorem reset (m : SessionManager) (h : Host) (id : String) (fail : Option String) :
    Kept m h (m.reset h id fail).2.1 (m.reset h id fail).2.2 := by
  unfold SessionManager.reset
  split
  · exact .refl m h
  rename_i s hs
  cases fail with
  | some e => exact .erase m id rfl
  | none => exact .replace hs rfl rfl

end Kept

theorem lookup_closeAll (id : String) : ∀ (m : SessionManager) (h : Host) (ids : List String),
    (m.closeAll h ids).1.sessions.lookup id =
      if id ∈ ids then none else m.sessions.lookup id
  | m, h, [] => by rw [if_neg not_mem_nil]; rfl
  | m, h, id' :: ids => by
    have hclose : (m.close h id').2.1.sessions.lookup id =
        if id = id' then none else m.sessions.lookup id := by
      unfold SessionManager.close
      split
      next hnone =>
        split
        next hid => rw [hid, hnone]
        · rfl
      · exact AssocMap.lookup_erase m.sessions id' id
    show ((m.close h id').2.1.closeAll (m.close h id').2.2 ids).1.sessions.lookup id = _
    rw [lookup_closeAll id _ _ ids, hclose]
    by_cases hid : id = id'
    · rw [if_pos hid, if_pos (mem_cons.mpr (.inl hid)), ite_self]
    rw [if_neg hid]
    by_cases hmem : id ∈ ids
    · rw [if_pos hmem, if_pos (mem_cons_of_mem _ hmem)]
    · rw [if_neg hmem, if_neg (fun h => (mem_cons.mp h).elim hid hmem)]

theorem openSession_ok {m m' : SessionManager} {h h' : Host} {fail : Option String} {id : String}
    (ho : m.openSession h fail = some (.ok id, m', h')) :
    id = sessionId m.next ∧ m'.cfg = m.cfg ∧ m'.next = m.next + 1 ∧ h'.now = h.now ∧
      ∃ s, s.lastUsed = h.now ∧ m'.sessions = m.sessions.insert id s := by
  unfold SessionManager.openSession at ho
  split at ho
  · cases ho
  split at ho
  · cases ho
  cases fail with
  | some e => cases ho
  | none =>
    cases ho
    exact ⟨rfl, rfl, rfl, rfl, _, rfl, rfl⟩

theorem openSession_error {m m' : SessionManager} {h h' : Host} {fail : Option String}
    {e : SessionError} (ho : m.openSession h fail = some (.error e, m', h')) :
    m'.cfg = m.cfg ∧ m.next ≤ m'.next ∧ h' = h ∧ m'.sessions = m.sessions := by
  unfold SessionManager.openSession at ho
  split at ho
  · cases ho
    exact ⟨rfl, Nat.le_refl _, rfl, rfl⟩
  split at ho
  · cases ho
  cases fail with
  | none => cases ho
  | some e =>
    cases ho
    exact ⟨rfl, Nat.le_succ _, rfl, rfl⟩

end Ignition.Mcp
