import Ignition.Base.Run
import Ignition.Mcp.Session

/-!
# The sandbox server

The tools of `crates/mcp/src/tools.rs` and the reaper of `main.rs` share one table of sessions
behind a lock. Opening, closing and resetting are done under the lock. A call of `run` or
`write_file` takes it only to look up the socket; what it does with the guest, for up to an hour and
more, is done outside. `Server` is the table on its host, with the calls that were made, the ids
that were given out and what the reaper closed.

In every run the table is exact and no id is given out twice (`sessions_exact`): an id is made from
the counter, which only goes up.

A session is marked as used when a call on it begins, not while it is in progress and not when it
ends. So the reaper closes a session under a call that outlasts the idle window
(`session_reaped_while_running`). It closes only idle ones if a call has begun recently on every
session that is busy when it comes (`reaped_idle`).
-/

namespace Ignition.Mcp

open Runs List

/-! ## The server -/

def SECOND : Nat := 1000000000

/-- A call of `run` or `write_file` that got as far as the guest. -/
structure Call where
  session : String
  start : Nat
  op : Nat
  finish : Option Nat
  deriving DecidableEq

/-- The timeout of `run` in seconds, 30 if none is given, clamped. -/
def clampTimeout (timeout : Option Int) : Nat := (min (max (timeout.getD 30) 0) 3600).toNat

/-- A session that the reaper closed, and whether a call on it was in progress or had finished
within the idle window. -/
structure Reaped where
  session : String
  busy : Bool
  deriving DecidableEq

structure Server where
  mgr : SessionManager
  host : Host
  calls : List Call
  issued : List String
  reaped : List Reaped

inductive Action where
  | openSession (fail : Option String)
  | close (id : String)
  | reset (id : String) (fail : Option String)
  | getUds (id : String)
  | run (id : String) (timeout : Option Int)
  | writeFile (id : String)
  | finish (i : Nat)
  | reap
  | shutdown
  | wait (d : Nat)

namespace Server

def new (cfg : SessionConfig) : Server := ⟨.new cfg, ⟨0, 0, []⟩, [], [], []⟩

/-- A call of `run` or `write_file`: the socket is looked up under the lock, the rest is done
outside it. -/
def begin (s : Server) (id : String) (op : Nat) : Server :=
  match s.mgr.getUds s.host id with
  | (.error _, m) => { s with mgr := m }
  | (.ok _, m) => { s with mgr := m, calls := s.calls ++ [⟨id, s.host.now, op, none⟩] }

def active (s : Server) (c : Call) : Bool :=
  match c.finish with
  | none => true
  | some f => s.host.now - f ≤ s.mgr.cfg.idle

def busy (s : Server) (id : String) : Bool :=
  s.calls.any fun c => c.session = id && s.active c

def gone (s : Server) (m : SessionManager) : List String :=
  s.mgr.sessions.keys.filter fun id => (m.sessions.lookup id).isNone

def reap (s : Server) : Server :=
  let r := s.mgr.reapIdle s.host
  { s with
    mgr := r.1
    host := r.2
    reaped := s.reaped ++ (s.gone r.1).map fun id => ⟨id, s.busy id⟩ }

def step (s : Server) : Action → Option Server
  | .openSession fail =>
    match s.mgr.openSession s.host fail with
    -- a panic ends the call and gives the lock back
    | none => some s
    | some (.error _, m, h) => some { s with mgr := m, host := h }
    | some (.ok id, m, h) => some { s with mgr := m, host := h, issued := id :: s.issued }
  | .close id =>
    let r := s.mgr.close s.host id
    some { s with mgr := r.2.1, host := r.2.2 }
  | .reset id fail =>
    let r := s.mgr.reset s.host id fail
    some { s with mgr := r.2.1, host := r.2.2 }
  | .getUds id => some { s with mgr := (s.mgr.getUds s.host id).2 }
  | .run id timeout => some (s.begin id ((clampTimeout timeout + 10) * SECOND))
  | .writeFile id => some (s.begin id (40 * SECOND))
  | .finish i =>
    match s.calls[i]? with
    | none => none
    | some c =>
      match c.finish with
      | some _ => none
      | none => some { s with calls := s.calls.set i { c with finish := some s.host.now } }
  | .reap => some s.reap
  | .shutdown =>
    let r := s.mgr.shutdown s.host
    some { s with mgr := r.1, host := r.2 }
  | .wait d => some { s with host := { s.host with now := s.host.now + d } }

end Server

/-! ## Runs of the server -/

/-- The table is exact, and the ids given out are those of earlier values of the counter. -/
structure Sound (cfg : SessionConfig) (s : Server) : Prop where
  cfg_eq : s.mgr.cfg = cfg
  exact : Exact s.mgr s.host
  counted : ∃ ns : List Nat, s.issued = ns.map sessionId ∧ ns.Nodup ∧ ∀ n ∈ ns, n < s.mgr.next
  given : ∀ {id : String} {se : Session}, s.mgr.sessions.lookup id = some se → id ∈ s.issued

namespace Sound

variable {cfg : SessionConfig} {s : Server}

theorem new (cfg : SessionConfig) : Sound cfg (.new cfg) :=
  ⟨rfl, .new cfg 0, ⟨[], rfl, nodup_nil, fun _ hn => absurd hn not_mem_nil⟩,
    fun hl => by cases hl⟩

variable {s' : Server}

theorem kept (hs : Sound cfg s) (he : Exact s'.mgr s'.host) (hk : Kept s.mgr s.host s'.mgr s'.host)
    (hi : s'.issued = s.issued) : Sound cfg s' := by
  refine ⟨hk.cfg.trans hs.cfg_eq, he, ?_, fun hl => ?_⟩
  · rw [hi, hk.next]
    exact hs.counted
  · obtain ⟨se, hse, -⟩ := hk.used hl
    rw [hi]
    exact hs.given hse

theorem begin (hs : Sound cfg s) (id : String) (op : Nat) : Sound cfg (s.begin id op) := by
  have he := hs.exact.getUds id
  have hk := Kept.getUds s.mgr s.host id
  unfold Server.begin
  split
  next m heq =>
    rw [heq] at he hk
    exact hs.kept he hk rfl
  next m heq =>
    rw [heq] at he hk
    exact hs.kept he hk rfl

theorem opened (hs : Sound cfg s) {fail : Option String}
    {r : Except SessionError String × SessionManager × Host}
    (ho : s.mgr.openSession s.host fail = some r) (hm : s'.mgr = r.2.1) (hh : s'.host = r.2.2)
    (hi : s'.issued = match r.1 with | .error _ => s.issued | .ok id => id :: s.issued) :
    Sound cfg s' := by
  have he := hs.exact.openSession ho
  obtain ⟨ns, hns, hnodup, hlt⟩ := hs.counted
  obtain ⟨res, m', h'⟩ := r
  dsimp only at hm hh hi
  subst hm hh
  cases res with
  | error e =>
    obtain ⟨hcfg, hnext, -, htable⟩ := openSession_error ho
    refine ⟨hcfg.trans hs.cfg_eq, he, ⟨ns, hi.trans hns, hnodup, ?_⟩, fun hl => ?_⟩
    · exact fun n hn => Nat.lt_of_lt_of_le (hlt n hn) hnext
    · rw [htable] at hl
      rw [hi]
      exact hs.given hl
  | ok id =>
    obtain ⟨rfl, hcfg, hnext, -, se, -, htable⟩ := openSession_ok ho
    refine ⟨hcfg.trans hs.cfg_eq, he, ⟨s.mgr.next :: ns, ?_, ?_, ?_⟩, fun hl => ?_⟩
    · rw [hi, hns]
      rfl
    · exact nodup_cons.mpr ⟨fun hmem => Nat.lt_irrefl _ (hlt _ hmem), hnodup⟩
    · intro n hn
      rw [hnext]
      rcases mem_cons.mp hn with rfl | hn
      · exact Nat.lt_succ_self _
      · exact Nat.lt_succ_of_lt (hlt n hn)
    · rw [htable, AssocMap.lookup_insert] at hl
      rw [hi]
      split at hl
      next hid => exact mem_cons.mpr (.inl hid)
      · exact mem_cons_of_mem _ (hs.given hl)

theorem step (hs : Sound cfg s) {a : Action} (h : s.step a = some s') :
    Sound cfg s' := by
  cases a with
  | openSession fail =>
    dsimp only [Server.step] at h
    split at h
    · cases h
      exact hs
    next ho =>
      cases h
      exact hs.opened ho rfl rfl rfl
    next ho =>
      cases h
      exact hs.opened ho rfl rfl rfl
  | close id =>
    cases h
    exact hs.kept (hs.exact.close id) (.close _ _ id) rfl
  | reset id fail =>
    cases h
    exact hs.kept (hs.exact.reset id fail) (.reset _ _ id fail) rfl
  | getUds id =>
    cases h
    exact hs.kept (hs.exact.getUds id) (.getUds _ _ id) rfl
  | run id timeout | writeFile id =>
    cases h
    exact hs.begin id _
  | finish i =>
    dsimp only [Server.step] at h
    split at h
    · cases h
    split at h
    · cases h
    · cases h
      exact hs.kept hs.exact (.refl _ _) rfl
  | reap | shutdown =>
    cases h
    exact hs.kept (hs.exact.closeAll _) (.closeAll _ _ _) rfl
  | wait d =>
    cases h
    exact ⟨hs.cfg_eq, hs.exact.wait _, hs.counted, hs.given⟩

theorem run {as : List Action} {ok : Server → Action → Prop}
    (h : Run Server.step ok (.new cfg) as s) : Sound cfg s := by
  have hstep : ∀ (s : Server) (a : Action) (s' : Server), Sound cfg s → ok s a →
      s.step a = some s' → Sound cfg s' := fun _ _ _ hs _ hst => hs.step hst
  exact h.invariant hstep (.new cfg)

end Sound

namespace Server

/-- **The sessions are the children that are alive.** In every run the table is exact, no id and no
socket path is given out twice, and shutting down leaves no child. -/
theorem sessions_exact {cfg : SessionConfig} {as : List Action} {s : Server}
    (h : Run step (fun _ _ => True) (.new cfg) as s) :
    s.mgr.cfg = cfg ∧ Exact s.mgr s.host ∧
      (s.issued.Nodup ∧ (s.issued.map cfg.socketPath).Nodup ∧
        ∀ id se, s.mgr.sessions.lookup id = some se → id ∈ s.issued) ∧
      ∀ c < (s.mgr.shutdown s.host).2.spawned, c ∈ (s.mgr.shutdown s.host).2.killed := by
  have hs := Sound.run h
  obtain ⟨ns, hns, hnodup, -⟩ := hs.counted
  refine ⟨hs.cfg_eq, hs.exact, ⟨?_, ?_, fun _ _ hl => hs.given hl⟩, ?_⟩
  · rw [hns]
    exact hnodup.map fun _ _ => sessionId_injective
  · rw [hns, map_map]
    exact hnodup.map fun _ _ => socketPath_injective
  · refine (hs.exact.closeAll s.mgr.sessions.keys).none_left fun id => ?_
    rw [lookup_closeAll]
    split
    · rfl
    next hid => exact AList.lookup_eq_none.mpr hid

def small : SessionConfig := ⟨[], 1, SECOND⟩

theorem sessions_exact_reopened : ∃ s : Server, (s.issued = ["s2", "s1"] ∧ s.host.killed = [1, 0]) ∧
    s.mgr.cfg = small ∧ Exact s.mgr s.host ∧
      (s.issued.Nodup ∧ (s.issued.map small.socketPath).Nodup ∧
        ∀ id se, s.mgr.sessions.lookup id = some se → id ∈ s.issued) ∧
      ∀ c < (s.mgr.shutdown s.host).2.spawned, c ∈ (s.mgr.shutdown s.host).2.killed := by
  obtain ⟨s, hrun, htest⟩ : ∃ s, Run step (fun _ _ => True) (.new small)
      [.openSession (some "os error"), .openSession none, .openSession none, .reset "s1" none,
        .close "s1", .openSession none] s ∧ s.issued = ["s2", "s1"] ∧ s.host.killed = [1, 0] :=
    exists_run (by decide +kernel)
  exact ⟨s, htest, sessions_exact hrun⟩

end Server

/-! ## The reaper and the calls -/

def Server.recent (s : Server) (id : String) : Bool :=
  s.calls.any fun c => c.session = id && s.host.now ≤ c.start + s.mgr.cfg.idle

def Server.Spaced (s : Server) : Action → Prop
  | .reap => ∀ id ∈ s.mgr.sessions.keys, s.busy id = true → s.recent id = true
  | _ => True

instance (s : Server) (a : Action) : Decidable (s.Spaced a) :=
  match a with
  | .reap => decidableBAll (fun id => s.busy id = true → s.recent id = true) _
  | .openSession _ => .isTrue trivial
  | .close _ => .isTrue trivial
  | .reset _ _ => .isTrue trivial
  | .getUds _ => .isTrue trivial
  | .run _ _ => .isTrue trivial
  | .writeFile _ => .isTrue trivial
  | .finish _ => .isTrue trivial
  | .shutdown => .isTrue trivial
  | .wait _ => .isTrue trivial

def Tracked (m : SessionManager) (h : Host) (calls : List Call) : Prop :=
  ∀ c ∈ calls, c.start ≤ h.now ∧
    ∀ se, m.sessions.lookup c.session = some se → c.start ≤ se.lastUsed

namespace Tracked

variable {m m' : SessionManager} {h h' : Host} {calls : List Call}

theorem kept (ht : Tracked m h calls) (hk : Kept m h m' h') : Tracked m' h' calls := by
  intro c hc
  obtain ⟨hnow, hused⟩ := ht c hc
  refine ⟨hk.now ▸ hnow, fun se' hse' => ?_⟩
  obtain ⟨se, hse, hlast | hlast⟩ := hk.used hse'
  · rw [hlast]
    exact hused se hse
  · rw [hlast]
    exact hnow

theorem wait (ht : Tracked m h calls) (d : Nat) :
    Tracked m { h with now := h.now + d } calls :=
  fun c hc => ⟨Nat.le_trans (ht c hc).1 (Nat.le_add_right _ _), (ht c hc).2⟩

theorem opened (ht : Tracked m h calls) {fail : Option String}
    {r : Except SessionError String × SessionManager × Host}
    (ho : m.openSession h fail = some r) : Tracked r.2.1 r.2.2 calls := by
  obtain ⟨res, m', h'⟩ := r
  cases res with
  | error e =>
    obtain ⟨-, -, rfl, htable⟩ := openSession_error ho
    intro c hc
    refine ⟨(ht c hc).1, fun se hse => (ht c hc).2 se ?_⟩
    rw [← htable]
    exact hse
  | ok id =>
    obtain ⟨-, -, -, hnow, s, hlast, htable⟩ := openSession_ok ho
    intro c hc
    refine ⟨Nat.le_trans (ht c hc).1 (Nat.le_of_eq hnow.symm), fun se hse => ?_⟩
    have hse : m'.sessions.lookup c.session = some se := hse
    rw [htable, AssocMap.lookup_insert] at hse
    split at hse
    · cases hse
      rw [hlast]
      exact (ht c hc).1
    · exact (ht c hc).2 se hse

end Tracked

theorem getUds_ok {m m' : SessionManager} {h : Host} {id : String} {p : Files.Path}
    (hg : m.getUds h id = (.ok p, m')) {se : Session} (hse : m'.sessions.lookup id = some se) :
    se.lastUsed = h.now := by
  unfold SessionManager.getUds at hg
  split at hg
  · cases hg
  rename_i s hs
  cases hg
  have hse : (m.sessions.replace id { s with lastUsed := h.now }).lookup id = some se := hse
  rw [AssocMap.lookup_replace, if_pos rfl, hs] at hse
  cases hse
  rfl

namespace Server

variable {s : Server}

theorem tracked_begin (ht : Tracked s.mgr s.host s.calls) (id : String) (op : Nat) :
    Tracked (s.begin id op).mgr (s.begin id op).host (s.begin id op).calls := by
  have hk := ht.kept (Kept.getUds s.mgr s.host id)
  unfold begin
  split
  next m heq =>
    rw [heq] at hk
    exact hk
  rename_i m heq
  rw [heq] at hk
  intro c hc
  rcases mem_append.mp hc with hc | hc
  · exact hk c hc
  · obtain rfl := mem_singleton.mp hc
    exact ⟨Nat.le_refl _, fun se hse => Nat.le_of_eq (getUds_ok heq hse).symm⟩

theorem elapsed_of_gone {id : String} (h : id ∈ s.gone (s.mgr.reapIdle s.host).1) :
    ∃ se, s.mgr.sessions.lookup id = some se ∧ s.mgr.cfg.idle < s.host.now - se.lastUsed := by
  obtain ⟨hkey, hnone⟩ := mem_filter.mp h
  rw [Option.isNone_iff_eq_none] at hnone
  unfold SessionManager.reapIdle at hnone
  rw [lookup_closeAll] at hnone
  split at hnone
  next hstale =>
    obtain ⟨e, he, rfl⟩ := mem_map.mp hstale
    obtain ⟨hmem, helapsed⟩ := mem_filter.mp he
    exact ⟨e.2, AList.mem_lookup_iff.mpr hmem, of_decide_eq_true helapsed⟩
  · exact absurd hkey (AList.lookup_eq_none.mp hnone)

theorem not_busy_of_gone (ht : Tracked s.mgr s.host s.calls) (hok : s.Spaced .reap) {id : String}
    (h : id ∈ s.gone (s.mgr.reapIdle s.host).1) : s.busy id = false := by
  obtain ⟨se, hse, helapsed⟩ := elapsed_of_gone h
  by_contra hbusy
  have hrecent := hok id (mem_filter.mp h).1 (Bool.not_eq_false _ ▸ hbusy)
  obtain ⟨c, hc, htest⟩ := any_eq_true.mp hrecent
  obtain ⟨hsession, hstart⟩ := Bool.and_eq_true_iff.mp htest
  obtain rfl := of_decide_eq_true hsession
  have hstart := of_decide_eq_true hstart
  have hused := (ht c hc).2 se hse
  omega

/-- What every step with spaced calls preserves. -/
structure Patient (s : Server) : Prop where
  tracked : Tracked s.mgr s.host s.calls
  idle : ∀ r ∈ s.reaped, r.busy = false

theorem Patient.begin (hp : s.Patient) (id : String) (op : Nat) :
    (s.begin id op).Patient := by
  refine ⟨tracked_begin hp.tracked id op, ?_⟩
  unfold Server.begin
  split <;> exact hp.idle

theorem Patient.step (hp : s.Patient) {a : Action} {s' : Server} (hok : s.Spaced a)
    (h : s.step a = some s') : s'.Patient := by
  have ht := hp.tracked
  have hidle := hp.idle
  cases a with
  | openSession fail =>
    dsimp only [Server.step] at h
    split at h
    · cases h
      exact ⟨ht, hidle⟩
    next ho =>
      cases h
      exact ⟨ht.opened ho, hidle⟩
    next ho =>
      cases h
      exact ⟨ht.opened ho, hidle⟩
  | close id =>
    cases h
    exact ⟨ht.kept (.close _ _ id), hidle⟩
  | reset id fail =>
    cases h
    exact ⟨ht.kept (.reset _ _ id fail), hidle⟩
  | getUds id =>
    cases h
    exact ⟨ht.kept (.getUds _ _ id), hidle⟩
  | run id timeout | writeFile id =>
    cases h
    exact hp.begin id _
  | finish i =>
    dsimp only [Server.step] at h
    split at h
    · cases h
    rename_i c hc
    split at h
    · cases h
    cases h
    refine ⟨fun c' hc' => ?_, hidle⟩
    -- the call keeps its start
    rcases mem_or_eq_of_mem_set hc' with hmem | rfl
    · exact ht c' hmem
    · exact ht c (mem_of_getElem? hc)
  | reap =>
    cases h
    refine ⟨ht.kept (.closeAll _ _ _), fun r hr => ?_⟩
    rcases mem_append.mp hr with hr | hr
    · exact hidle r hr
    · obtain ⟨id, hid, rfl⟩ := mem_map.mp hr
      exact not_busy_of_gone ht hok hid
  | shutdown =>
    cases h
    exact ⟨ht.kept (.closeAll _ _ _), hidle⟩
  | wait d =>
    cases h
    exact ⟨ht.wait d, hidle⟩

/-- **The reaper closes only what is idle,** in every run in which a call has begun within the idle
window on every session that is busy when it comes. -/
theorem reaped_idle {cfg : SessionConfig} {as : List Action} {s : Server}
    (h : Run step Spaced (.new cfg) as s) : ∀ r ∈ s.reaped, r.busy = false := by
  have hstep : ∀ (s : Server) (a : Action) (s' : Server), s.Patient → s.Spaced a →
      s.step a = some s' → s'.Patient := fun _ _ _ hp hok hst => hp.step hok hst
  exact (h.invariant hstep ⟨fun _ hc => absurd hc not_mem_nil,
    fun _ hr => absurd hr not_mem_nil⟩).idle

def standard : SessionConfig := ⟨[], 8, 600 * SECOND⟩

theorem reaped_idle_left_alone : ∃ s : Server, s.reaped = [⟨"s1", false⟩] ∧
    ∀ r ∈ s.reaped, r.busy = false := by
  obtain ⟨s, hrun, hreaped⟩ : ∃ s, Run step Spaced (.new standard)
      [.openSession none, .openSession none, .run "s0" (some 3600), .writeFile "s1", .finish 1,
        .wait (500 * SECOND), .run "s0" none, .wait (101 * SECOND), .reap] s ∧
      s.reaped = [⟨"s1", false⟩] := exists_run (by decide +kernel)
  exact ⟨s, hreaped, reaped_idle hrun⟩

theorem session_reaped_while_running : ∃ s : Server,
    Run step (fun _ _ => True) (.new standard)
      (.openSession none :: .run "s0" (some 3600) ::
        (List.replicate 11 [.wait (60 * SECOND), .reap]).flatten) s ∧
      (∃ c ∈ s.calls, c.session = "s0" ∧ c.finish = none ∧ s.host.now < c.start + c.op) ∧
      s.reaped = [⟨"s0", true⟩] :=
  exists_run (by decide +kernel)

end Server

end Ignition.Mcp
