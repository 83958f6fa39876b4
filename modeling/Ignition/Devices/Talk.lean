import Ignition.Devices.MuxerRuns
import Ignition.Devices.VirtioDevice

/-!
# What the guest hears of its connections

The muxer with the guest at the other end of its queue. Next to the muxer, the state keeps the
packets the guest got, how each pair of ports stands for it, and the snapshots that were taken: of
the muxer only the keys of its table are saved, while the guest is saved with everything it has
heard. A restore, in a new process or in place, leaves the saved keys as resets to be made up for.

Two things are followed.

- What is drained to a host socket is announced: the last packet queued for a connection carries
  its `fwd_cnt` (`drained_is_announced`). A pass drains without announcing unless it also has
  something to send (`pass_drains_silently`).
- A restored guest is told of every connection it had open (`restored_guest_told`). The snapshot
  knows only of those in the table: a reset that is still pending or queued at a snapshot is lost
  (`second_restore_forgets`). The invariant is `Covered`: whatever is not closed for the guest is
  in the table, or its reset is on the way.
-/

namespace Ignition.Devices.Talk

open Ignition.Vmm Muxer Runs List Option

/-- How a pair of ports stands for the guest. It has been asked to open the pair from the time it
gets a REQUEST until it answers. -/
inductive View where
  | closed
  | asked
  | opened
  deriving DecidableEq

namespace View

def gets (v : View) (op : UInt16) : View :=
  if op = OP_RESPONSE then .opened
  else if op = OP_REQUEST then if v = .opened then .opened else .asked
  else if op = OP_RST then .closed
  else v

def sends (v : View) (op : UInt16) : View :=
  if v = .asked then
    if op = OP_RESPONSE then .opened
    else if op = OP_SHUTDOWN ∨ op = OP_RST then .closed
    else .asked
  else v

theorem sends_closed (op : UInt16) : View.closed.sends op = .closed := rfl

end View

/-- A snapshot: the keys of the table, and the guest. -/
structure Saved where
  keys : List ConnKey
  view : ConnKey → View

structure State where
  mux : Muxer
  delivered : List RxPacket
  view : ConnKey → View
  saved : List Saved

inductive Action where
  | mux (e : Muxer.Event)
  | deliver
  | snapshot
  | restore (i : Nat) (process : Option (List (Option HostStream)))

def sending (view : ConnKey → View) : Muxer.Event → ConnKey → View
  | .tx hdr _, key => if key = hdr.key then (view key).sends hdr.op else view key
  | _, key => view key

def step (s : State) : Action → Option State
  | .mux e => (s.mux.step e).map fun m => { s with mux := m, view := sending s.view e }
  | .deliver =>
    match s.mux.rxq with
    | [] => none
    | pkt :: rxq =>
      some { s with
        mux := { s.mux with rxq := rxq }
        delivered := s.delivered ++ [pkt]
        view := fun key => if key = pkt.key then (s.view key).gets pkt.hdr.op else s.view key }
  | .snapshot => some { s with saved := s.saved ++ [⟨s.mux.saveConns, s.view⟩] }
  | .restore i process =>
    (s.saved[i]?).map fun snap =>
      { s with
        mux := ((process.map Muxer.new).getD s.mux).seedRst snap.keys
        view := snap.view }

def boot (dials : List (Option HostStream)) : State := ⟨.new dials, [], fun _ => .closed, []⟩

variable {s s' : State} {a : Action} {c c' : Connection} {key : ConnKey} {e : Muxer.Event}
  {news : List RxPacket} {m : Muxer}

theorem conn_restore {i : Nat} {process : Option (List (Option HostStream))}
    (h : step s (.restore i process) = some s') :
    (s'.mux.conns = s.mux.conns ∧ s'.mux.rxq = s.mux.rxq ∨ s'.mux.conns = ∅ ∧ s'.mux.rxq = []) ∧
      s'.delivered = s.delivered ∧ s'.saved = s.saved ∧
      ∃ snap, s.saved[i]? = some snap ∧ s'.view = snap.view ∧ s'.mux.pendingRst = snap.keys := by
  obtain ⟨snap, hsnap, rfl⟩ := map_eq_some_iff.mp h
  refine ⟨?_, rfl, rfl, snap, hsnap, rfl, rfl⟩
  cases process with
  | none => exact .inl ⟨rfl, rfl⟩
  | some dials => exact .inr ⟨rfl, rfl⟩

theorem Keyed.step (h : s.mux.Keyed) (hst : Talk.step s a = some s') :
    s'.mux.Keyed := by
  cases a with
  | mux e =>
    obtain ⟨m, hm, rfl⟩ := map_eq_some_iff.mp hst
    exact Muxer.Keyed.step h hm
  | deliver =>
    unfold Talk.step at hst
    dsimp only at hst
    split at hst
    · cases hst
    · cases hst
      exact h
  | snapshot =>
    cases hst
    exact h
  | restore i process =>
    obtain ⟨hconns, -⟩ := conn_restore hst
    rcases hconns with ⟨hconns, -⟩ | ⟨hconns, -⟩
    · intro key c hc
      unfold Muxer.conn at hc
      rw [hconns] at hc
      exact h key c hc
    · exact keyed_of_conns_eq_empty hconns

/-! ## Credit -/

def lastPut (pkts : List RxPacket) (key : ConnKey) : Option UInt32 :=
  (pkts.filter fun pkt => pkt.key = key).getLast?.map fun pkt => pkt.hdr.fwdCnt

def State.queued (s : State) : List RxPacket := s.delivered ++ s.mux.rxq

theorem queued_mux (h : Stepped s.mux e m) (view : ConnKey → View) :
    State.queued { s with mux := m, view := view } = s.queued ++ newly s.mux m := by
  unfold State.queued
  rw [h.rxq, ← append_assoc]

theorem queued_deliver {pkt : RxPacket} {rxq : List RxPacket} (h : s.mux.rxq = pkt :: rxq)
    (view : ConnKey → View) :
    State.queued { s with
      mux := { s.mux with rxq := rxq }
      delivered := s.delivered ++ [pkt]
      view := view } = s.queued := by
  unfold State.queued
  rw [h, append_assoc]
  rfl

theorem lastPut_append (l l' : List RxPacket) (key : ConnKey) :
    lastPut (l ++ l') key = (lastPut l' key).or (lastPut l key) := by
  unfold lastPut
  rw [filter_append, getLast?_append]
  cases (l'.filter fun pkt => pkt.key = key).getLast? with
  | none | some pkt => rfl

def takes : List WriteResult → Bool
  | [] => false
  | .interrupted :: ws => takes ws
  | .ok n :: _ => n != 0
  | _ :: _ => false

def Drains (c : Connection) : Prop :=
  c.state = .established ∧ c.txbuf ≠ [] ∧ takes c.host.writes = true

instance (c : Connection) : Decidable (Drains c) := inferInstanceAs (Decidable (_ ∧ _))

def Reads (c : Connection) : Prop :=
  c.peerFree ≠ 0 ∧ c.host.reads.head? ≠ none ∧ c.host.reads.head? ≠ some .wouldBlock ∧
    c.host.reads.head? ≠ some .interrupted

instance (c : Connection) : Decidable (Reads c) := inferInstanceAs (Decidable (_ ∧ _))

def Tells (s : State) : Action → Prop
  | .mux (.tx hdr _) =>
    s.mux.conn hdr.key ≠ none → Understood hdr.op ∨
      (hdr.op = OP_REQUEST ∧ (s.mux.dials.head?.join).isSome = true)
  | .mux .service =>
    (∀ key ∈ s.mux.pendingRst, s.mux.conn key = none) ∧
      ∀ e ∈ s.mux.conns.entries, Drains e.2 → Reads e.2
  | _ => True

instance : ∀ (s : State) (a : Action), Decidable (Tells s a)
  | _, .mux (.tx _ _) => inferInstanceAs (Decidable (_ → _))
  | s, .mux .service =>
    haveI := decidableBAll (fun key => s.mux.conn key = none) s.mux.pendingRst
    inferInstanceAs (Decidable (_ ∧ _))
  | _, .mux (.accept _ _) => isTrue trivial
  | _, .mux (.poll _) => isTrue trivial
  | _, .deliver => isTrue trivial
  | _, .snapshot => isTrue trivial
  | _, .restore _ _ => isTrue trivial

theorem fwdCnt_flushLoop (ws : List WriteResult) : ∀ c : Connection, takes ws = false →
    (Connection.flushLoop ws c).fwdCnt = c.fwdCnt := by
  induction ws with
  | nil => exact fun c _ => rfl
  | cons w ws ih =>
    intro c h
    unfold Connection.flushLoop
    split
    · rfl
    cases w with
    | ok n =>
      have hn : n = 0 := by simpa [takes] using h
      subst hn
      dsimp only
      rw [if_pos (Nat.zero_min _)]
    | wouldBlock | error => rfl
    | interrupted => exact ih c h

theorem fwdCnt_flushTx (h : ¬ Drains c) : c.flushTx.fwdCnt = c.fwdCnt := by
  unfold Connection.flushTx
  split
  next hstate =>
    by_cases htx : c.txbuf = []
    · cases hw : c.host.writes with
      | nil => rfl
      | cons w ws =>
        unfold Connection.flushLoop
        rw [if_pos htx]
    · refine fwdCnt_flushLoop _ c (Bool.eq_false_iff.mpr fun htakes => ?_)
      exact h ⟨hstate, htx, htakes⟩
  · rfl

theorem readHost_of_reads (hstate : c.state = .established) (h : Reads c) :
    c.readHost.1 ≠ none ∨ c.readHost.2.state = .closed := by
  obtain ⟨hfree, hne, hblock, hint⟩ := h
  unfold Connection.readHost
  rw [if_neg (fun hn => hn hstate)]
  have hpos : c.peerFree.toNat ≠ 0 := fun h0 => hfree (UInt32.toNat_inj.mp h0)
  have hbudget : min c.peerFree.toNat READ_CHUNK ≠ 0 := by
    unfold READ_CHUNK
    omega
  rw [if_neg hbudget]
  cases hreads : c.host.reads with
  | nil =>
    rw [hreads] at hne
    exact absurd rfl hne
  | cons r rs =>
    rw [hreads, head?_cons] at hblock hint
    cases r with
    | data b =>
      dsimp only
      by_cases hb : b = []
      · rw [if_pos hb]
        exact .inr rfl
      · rw [if_neg hb]
        exact .inl (some_ne_none _)
    | eof | error => exact .inr rfl
    | wouldBlock => exact absurd rfl hblock
    | interrupted => exact absurd rfl hint

theorem serviceConn_ne_nil (hdrains : Drains c) (hreads : Reads c) (hkeep : keepOpen c = some c') :
    (serviceConn c).1 ≠ [] := by
  intro hnil
  have hopen := (keepOpen_eq_some.mp hkeep).1
  obtain ⟨_, _, st, -, hst, heq⟩ := c.flushTx_eq
  have hreads' : Reads c.flushTx := by
    rw [heq]
    exact hreads
  have hstate : c.flushTx.state = .established ∨ c.flushTx.state = .closed := by
    rw [heq]
    exact hst.imp_left fun h => h.trans hdrains.1
  unfold serviceConn readsLeft at hnil hopen
  dsimp only at hnil hopen
  unfold readAll at hnil hopen
  rcases hstate with hstate | hstate
  · rcases readHost_of_reads hstate hreads' with hdata | hclosed
    · split at hnil
      next c'' hr =>
        rw [hr] at hdata
        exact hdata rfl
      · cases hnil
    · split at hopen
      next c'' hr =>
        rw [hr] at hclosed
        exact hopen hclosed
      next data c'' hr =>
        rw [hr] at hnil
        cases hnil
  · -- the flush has closed it: nothing is read, and the pass does not keep it
    have hread : c.flushTx.readHost = (none, c.flushTx) := by
      unfold Connection.readHost
      rw [hstate]
      rfl
    rw [hread] at hopen
    exact hopen hstate

theorem fwdCnt_onPacket {hdr : VsockHeader} {payload : Bytes} (h : c.onPacket hdr payload = some c')
    (hop : hdr.op ≠ OP_RW) : c'.fwdCnt = c.fwdCnt := by
  cases Connection.takes h with
  | payload hrw => exact absurd hrw hop
  | _ => rfl

theorem lastPut_answer {hdr : VsockHeader} {payload : Bytes} (h : c.onPacket hdr payload = some c')
    (hop : Understood hdr.op) :
    ((answer hdr c').getLast?.map fun pkt => pkt.hdr.fwdCnt) = some c'.fwdCnt ∨
      (answer hdr c' = [] ∧ c'.fwdCnt = c.fwdCnt) := by
  rcases hop with hop | hop | hop | hop | hop | hop
  · rw [answer_eq_credit c' (.inl hop)]
    exact .inl rfl
  · rw [answer_eq_credit c' (.inr hop)]
    exact .inl rfl
  · exact .inr ⟨answer_eq_nil c' (.inl hop), fwdCnt_onPacket h (by rw [hop]; decide)⟩
  · unfold Connection.onPacket at h
    rw [hop] at h
    cases h
  · unfold Connection.onPacket at h
    rw [hop] at h
    cases h
  · exact .inr ⟨answer_eq_nil c' (.inr hop), fwdCnt_onPacket h (by rw [hop]; decide)⟩

/-- Every connection has its count in the last packet queued for it. -/
structure Announced (s : State) : Prop where
  keyed : s.mux.Keyed
  put : ∀ key c, s.mux.conn key = some c → lastPut s.queued key = some c.fwdCnt

/-- **A turn announces what it drains**: with the packets it queues, the last one for the pair
carries the count. -/
theorem turn_announced {c c' : Option Connection} {old : Option UInt32}
    (h : Turn s.mux key e c news c') (hc : s.mux.conn key = c) (hok : Tells s (.mux e))
    (hold : ∀ a, c = some a → old = some a.fwdCnt) :
    ∀ b, c' = some b → (news.getLast?.map fun pkt => pkt.hdr.fwdCnt).or old = some b.fwdCnt := by
  intro b hb
  cases h with
  | idle => exact hold b hb
  | opened payload _ stream hop hkey hd | promoted =>
    cases hb
    rfl
  | refused payload _ hop hkey hd =>
    have hsome : s.mux.conn _ ≠ none := hkey ▸ hc ▸ hb ▸ some_ne_none b
    rcases hok hsome with hknown | ⟨-, hdial⟩
    · rw [hop] at hknown
      exact absurd hknown (by decide)
    cases hhead : s.mux.dials.head? with
    | none =>
      rw [hhead] at hdial
      cases hdial
    | some dial =>
      cases dial with
      | none =>
        rw [hhead] at hdial
        cases hdial
      | some stream => exact absurd hhead (hd stream)
  | stray | closed => cases hb
  | @packet hdr payload a a' hop hkey hp =>
    cases hb
    have hsome : s.mux.conn hdr.key ≠ none := hkey ▸ hc ▸ some_ne_none a
    have hknown : Understood hdr.op := (hok hsome).resolve_right fun h => hop h.1
    rcases lastPut_answer hp hknown with hput | ⟨hnil, hfwd⟩
    · rw [hput]
      rfl
    · rw [hnil, hfwd]
      exact hold a rfl
  | pass =>
    obtain ⟨hpending, hquiet⟩ := hok
    obtain ⟨a, rfl, hkeep⟩ := bind_eq_some_iff.mp hb
    have hcount : s.mux.pendingRst.count key = 0 := by
      refine count_eq_zero.mpr fun hmem => ?_
      rw [hpending key hmem] at hc
      cases hc
    obtain ⟨hopen, hb⟩ := keepOpen_eq_some.mp hkeep
    have hserved : served a = (serviceConn a).1 := by
      unfold served closingRst
      rw [if_neg hopen]
      exact append_nil _
    obtain ⟨-, hfwd, hpkts⟩ := serviceConn_spec a
    rw [hcount, replicate_zero, nil_append, map_some, getD_some, hserved,
      ← hb, hfwd]
    cases hlast : (serviceConn a).1.getLast? with
    | some pkt =>
      obtain ⟨data, rfl⟩ := hpkts pkt (mem_of_getLast? hlast)
      rfl
    | none =>
      have hnil : (serviceConn a).1 = [] := getLast?_eq_none_iff.mp hlast
      have hstill : ¬ Drains a := fun hdrains =>
        serviceConn_ne_nil hdrains (hquiet ⟨key, a⟩ (AList.mem_lookup_iff.mp hc) hdrains) hkeep hnil
      rw [fwdCnt_flushTx hstill]
      exact hold a rfl

theorem Announced.step (h : Announced s) (hok : Tells s a) (hst : Talk.step s a = some s') :
    Announced s' := by
  refine ⟨Keyed.step h.keyed hst, fun key c hc => ?_⟩
  cases a with
  | mux e =>
    obtain ⟨m, hm, rfl⟩ := map_eq_some_iff.mp hst
    have hspec := stepped h.keyed hm
    rw [queued_mux hspec, lastPut_append]
    exact turn_announced (hspec.turn key) rfl hok (h.put key) c hc
  | deliver =>
    unfold Talk.step at hst
    dsimp only at hst
    split at hst
    · cases hst
    rename_i pkt rxq hrxq
    cases hst
    rw [queued_deliver hrxq]
    exact h.put key c hc
  | snapshot =>
    cases hst
    exact h.put key c hc
  | restore i process =>
    obtain ⟨hconns, hdel, -⟩ := conn_restore hst
    unfold Muxer.conn at hc
    rcases hconns with ⟨hconns, hrxq⟩ | ⟨hconns, -⟩
    · rw [hconns] at hc
      unfold State.queued
      rw [hdel, hrxq]
      exact h.put key c hc
    · rw [hconns, AList.lookup_empty] at hc
      cases hc

theorem Announced.boot (dials : List (Option HostStream)) : Announced (boot dials) := by
  refine ⟨keyed_of_conns_eq_empty rfl, fun key c hc => ?_⟩
  cases hc

/-- **What is drained is announced**, in every run whose steps tell: a step after which a
connection has another count than the last packet queued for it queues one with that count. -/
theorem drained_is_announced {dials : List (Option HostStream)} {s s' : State} {as : List Action}
    {e : Muxer.Event} {key : ConnKey} {c : Connection} (hrun : Run step Tells (boot dials) as s)
    (hok : Tells s (.mux e)) (hst : step s (.mux e) = some s') (hc : s'.mux.conn key = some c)
    (hnew : lastPut s.queued key ≠ some c.fwdCnt) :
    ∃ pkt ∈ newly s.mux s'.mux, pkt.key = key ∧ pkt.hdr.fwdCnt = c.fwdCnt := by
  have hinv : Announced s :=
    hrun.invariant (fun _ _ _ h hok hst => h.step hok hst) (.boot dials)
  obtain ⟨m, hm, rfl⟩ := map_eq_some_iff.mp hst
  have hput := turn_announced ((stepped hinv.keyed hm).turn key) rfl hok (hinv.put key) c hc
  cases hlast : ((newly s.mux m).filter fun pkt => pkt.key = key).getLast? with
  | none =>
    rw [hlast] at hput
    exact absurd hput hnew
  | some pkt =>
    rw [hlast] at hput
    obtain ⟨hmem, hkey⟩ := mem_filter.mp (mem_of_getLast? hlast)
    exact ⟨pkt, hmem, of_decide_eq_true hkey, some.inj hput⟩

def slow (reads : List ReadResult) : HostStream := ⟨[], [], [.wouldBlock, .ok 9], reads⟩

def twoBytes : List Action :=
  [.mux (.tx (guestPacket OP_REQUEST) []), .mux (.tx (guestPacket OP_RW) [7, 8])]

theorem drained_is_announced_slow : ∃ s s' c,
    Run step Tells (boot [some (slow [.data [5]])]) twoBytes s ∧
      step s (.mux .service) = some s' ∧ s'.mux.conn (1024, 5000) = some c ∧ c.fwdCnt = 2 ∧
      ∃ pkt ∈ newly s.mux s'.mux, pkt.key = (1024, 5000) ∧ pkt.hdr.fwdCnt = c.fwdCnt := by
  obtain ⟨s, hrun, htells, ⟨c, hc, hfwd⟩, hput⟩ :
      ∃ s, Run step Tells (boot [some (slow [.data [5]])]) twoBytes s ∧ Tells s (.mux .service) ∧
        (∃ c ∈ s.mux.service.conn (1024, 5000), c.fwdCnt = 2) ∧
        lastPut s.queued (1024, 5000) = some 0 := exists_run (by decide +kernel)
  refine ⟨s, _, c, hrun, rfl, hc, hfwd, drained_is_announced hrun htells rfl hc ?_⟩
  rw [hput, hfwd]
  decide

/-- **A pass drains silently** when the host has nothing to say: two bytes are written, and the
guest still knows of none. -/
theorem pass_drains_silently : ∃ s s' c,
    Run step (fun _ _ => True) (boot [some (slow [])]) twoBytes s ∧
      step s (.mux .service) = some s' ∧ s'.mux.conn (1024, 5000) = some c ∧ c.fwdCnt = 2 ∧
      lastPut s.queued (1024, 5000) = some 0 ∧ newly s.mux s'.mux = [] := by
  obtain ⟨s, hrun, ⟨c, hc, hfwd⟩, hrest⟩ :
      ∃ s, Run step (fun _ _ => True) (boot [some (slow [])]) twoBytes s ∧
        (∃ c ∈ s.mux.service.conn (1024, 5000), c.fwdCnt = 2) ∧
        lastPut s.queued (1024, 5000) = some 0 ∧ newly s.mux s.mux.service = [] :=
    exists_run (by decide +kernel)
  exact ⟨s, _, c, hrun, rfl, hc, hfwd, hrest⟩

/-! ## Snapshots -/

theorem mem_saveConns : key ∈ m.saveConns ↔ m.conn key ≠ none := by
  unfold saveConns
  rw [mem_mergeSort, ← AList.mem_keys, ← AList.lookup_isSome, isSome_iff_ne_none]
  rfl

def State.waiting (s : State) : List ConnKey :=
  s.mux.pendingRst ++ (s.mux.rxq.filter fun pkt => pkt.hdr.op = OP_RST).map RxPacket.key

def Settled (s : State) : Action → Prop
  | .snapshot => ∀ key ∈ s.waiting, s.view key = .closed ∨ s.mux.conn key ≠ none
  | _ => True

instance : ∀ (s : State) (a : Action), Decidable (Settled s a)
  | s, .snapshot =>
    decidableBAll (fun key => s.view key = .closed ∨ s.mux.conn key ≠ none) s.waiting
  | _, .mux _ => isTrue trivial
  | _, .deliver => isTrue trivial
  | _, .restore _ _ => isTrue trivial

def Opens (pkt : RxPacket) : Prop := pkt.hdr.op = OP_RESPONSE ∨ pkt.hdr.op = OP_REQUEST

def Backed (m : Muxer) : List RxPacket → Prop
  | [] => True
  | pkt :: pkts => (Opens pkt → Resets pkts pkt.key ∨ m.conn pkt.key ≠ none) ∧ Backed m pkts

/-- The guest and the muxer at any time. -/
structure Covered (s : State) : Prop where
  keyed : s.mux.Keyed
  queue : Backed s.mux s.mux.rxq
  view : ∀ key, s.view key ≠ .closed →
    Resets s.mux.rxq key ∨ s.mux.conn key ≠ none ∨ key ∈ s.mux.pendingRst
  saved : ∀ snap ∈ s.saved, ∀ key, snap.view key ≠ .closed → key ∈ snap.keys

theorem Backed.append {m' : Muxer}
    (hkeep : ∀ key, m.conn key ≠ none → m'.conn key ≠ none ∨ Resets news key)
    (hnews : ∀ pkt ∈ news, Opens pkt → m'.conn pkt.key ≠ none) :
    ∀ {pkts : List RxPacket}, Backed m pkts → Backed m' (pkts ++ news)
  | [], _ => by
    rw [nil_append]
    clear hkeep
    induction news with
    | nil => trivial
    | cons pkt news ih =>
      exact ⟨fun hopen => .inr (hnews pkt mem_cons_self hopen),
        ih fun pkt' hpkt => hnews pkt' (mem_cons_of_mem _ hpkt)⟩
  | pkt :: pkts, h => by
    refine ⟨fun hopen => ?_, Backed.append hkeep hnews h.2⟩
    rcases h.1 hopen with hrst | hconn
    · exact .inl (hrst.append_left news)
    · rcases hkeep pkt.key hconn with hconn' | hrst
      · exact .inr hconn'
      · exact .inl (hrst.append_right pkts)

theorem Backed.congr {m' : Muxer} (h : m'.conns = m.conns) : ∀ {pkts : List RxPacket},
    Backed m pkts → Backed m' pkts
  | [], _ => trivial
  | pkt :: pkts, hb => by
    refine ⟨fun hopen => ?_, Backed.congr h hb.2⟩
    unfold Muxer.conn
    rw [h]
    exact hb.1 hopen

theorem not_opens_rst (key : ConnKey) : ¬ Opens (ctrlPacket OP_RST key 0) :=
  show ¬ (OP_RST = OP_RESPONSE ∨ OP_RST = OP_REQUEST) by decide

theorem turn_covers {c c' : Option Connection} (h : Turn m key e c news c') :
    (c ≠ none → c' ≠ none ∨ ∃ pkt ∈ news, pkt.hdr.op = OP_RST) ∧
      (∀ pkt ∈ news, Opens pkt → c' ≠ none) ∧
      (e = .service → key ∈ m.pendingRst → ∃ pkt ∈ news, pkt.hdr.op = OP_RST) := by
  cases h with
  | idle _ he =>
    exact ⟨.inl, fun pkt hpkt => absurd hpkt not_mem_nil, fun h => absurd h he⟩
  | opened | packet | promoted =>
    exact ⟨fun _ => .inl (some_ne_none _), fun _ _ _ => some_ne_none _,
      Event.noConfusion⟩
  | refused =>
    refine ⟨.inl, fun pkt hpkt hopen => ?_, Event.noConfusion⟩
    rw [mem_singleton.mp hpkt] at hopen
    exact absurd hopen (not_opens_rst key)
  | stray =>
    refine ⟨fun h => absurd rfl h, fun pkt hpkt hopen => ?_, Event.noConfusion⟩
    rw [mem_singleton.mp hpkt] at hopen
    exact absurd hopen (not_opens_rst key)
  | closed payload a hop hkey =>
    refine ⟨fun _ => .inr ⟨_, mem_singleton_self _, rfl⟩, fun pkt hpkt hopen => ?_,
      Event.noConfusion⟩
    rw [mem_singleton.mp hpkt] at hopen
    exact absurd hopen (not_opens_rst key)
  | pass =>
    refine ⟨fun hsome => ?_, fun pkt hpkt hopen => ?_, fun _ hmem => ?_⟩
    · obtain ⟨a, rfl⟩ := ne_none_iff_exists'.mp hsome
      rw [bind_some]
      cases hkeep : keepOpen a with
      | none => exact .inr ⟨_, mem_append_right _ (rst_mem_served hkeep), rfl⟩
      | some b => exact .inl (some_ne_none b)
    · rcases mem_append.mp hpkt with hpend | hserved
      · rw [(mem_replicate.mp hpend).2] at hopen
        exact absurd hopen (not_opens_rst key)
      · cases c with
        | none => exact absurd hserved not_mem_nil
        | some a =>
          rcases mem_served hserved with ⟨data, rfl⟩ | ⟨rfl, -⟩
          · exact absurd hopen (show ¬ (OP_RW = OP_RESPONSE ∨ OP_RW = OP_REQUEST) by decide)
          · exact absurd hopen (not_opens_rst _)
    · refine ⟨_, mem_append_left _ (mem_replicate.mpr ⟨?_, rfl⟩), rfl⟩
      exact Nat.ne_of_gt (count_pos_iff.mpr hmem)

theorem sending_ne_closed {view : ConnKey → View} (h : sending view e key ≠ .closed) :
    view key ≠ .closed := by
  intro hclosed
  cases e with
  | tx hdr payload =>
    unfold sending at h
    dsimp only at h
    split at h
    · rw [hclosed] at h
      exact h (View.sends_closed hdr.op)
    · exact h hclosed
  | accept fd stream | poll fd | service => exact h hclosed

theorem Covered.mux (h : Covered s) (hm : s.mux.step e = some m) :
    Covered { s with mux := m, view := sending s.view e } := by
  have hspec := stepped h.keyed hm
  have hturn := fun key => turn_covers (hspec.turn key)
  have hkeep : ∀ key, s.mux.conn key ≠ none →
      m.conn key ≠ none ∨ Resets (newly s.mux m) key := fun key hne =>
    ((hturn key).1 hne).imp_right resets_iff.mpr
  refine ⟨Muxer.Keyed.step h.keyed hm, ?_, fun key hview => ?_, h.saved⟩
  · dsimp only
    rw [hspec.rxq]
    refine Backed.append hkeep (fun pkt hpkt hopen => ?_) h.queue
    exact (hturn pkt.key).2.1 pkt (mem_filter.mpr ⟨hpkt, decide_eq_true rfl⟩) hopen
  · dsimp only
    rw [hspec.rxq]
    rcases h.view key (sending_ne_closed hview) with hrst | hconn | hpend
    · exact .inl (hrst.append_left _)
    · rcases hkeep key hconn with hconn' | hrst
      · exact .inr (.inl hconn')
      · exact .inl (hrst.append_right _)
    · rcases hspec.pending with hsame | ⟨hserv, -⟩
      · exact .inr (.inr (hsame ▸ hpend))
      · exact .inl ((resets_iff.mpr ((hturn key).2.2 hserv hpend)).append_right _)

theorem Covered.deliver {pkt : RxPacket} {rxq : List RxPacket} (h : Covered s)
    (hrxq : s.mux.rxq = pkt :: rxq) :
    Covered { s with
      mux := { s.mux with rxq := rxq }
      delivered := s.delivered ++ [pkt]
      view := fun key => if key = pkt.key then (s.view key).gets pkt.hdr.op else s.view key } := by
  have hqueue := h.queue
  rw [hrxq] at hqueue
  have hconns : Muxer.conns { s.mux with rxq := rxq } = s.mux.conns := rfl
  refine ⟨h.keyed, hqueue.2.congr hconns, fun key hview => ?_, h.saved⟩
  have hcov := h.view key
  rw [hrxq] at hcov
  -- what covered the pair still does, unless the reset of the pair is the packet itself
  have hstill : s.view key ≠ .closed → ¬ (pkt.key = key ∧ pkt.hdr.op = OP_RST) →
      Resets rxq key ∨ s.mux.conn key ≠ none ∨ key ∈ s.mux.pendingRst := fun hne hnot =>
    (hcov hne).imp_left fun hrst => hrst.of_cons hnot
  dsimp only at hview ⊢
  split at hview
  next hkey =>
    subst hkey
    unfold View.gets at hview
    split at hview
    next hop => exact (hqueue.1 (.inl hop)).imp_right Or.inl
    split at hview
    next hop => exact (hqueue.1 (.inr hop)).imp_right Or.inl
    split at hview
    · exact absurd rfl hview
    next hop => exact hstill hview fun h => hop h.2
  next hkey => exact hstill hview fun h => hkey h.1.symm

theorem Covered.step (h : Covered s) (hok : Settled s a) (hst : Talk.step s a = some s') :
    Covered s' := by
  cases a with
  | mux e =>
    obtain ⟨m, hm, rfl⟩ := map_eq_some_iff.mp hst
    exact h.mux hm
  | deliver =>
    unfold Talk.step at hst
    dsimp only at hst
    split at hst
    · cases hst
    next pkt rxq hrxq =>
      cases hst
      exact h.deliver hrxq
  | snapshot =>
    cases hst
    refine ⟨h.keyed, h.queue, h.view, fun snap hsnap key hview => ?_⟩
    rcases mem_append.mp hsnap with hold | hnew
    · exact h.saved snap hold key hview
    rw [mem_singleton.mp hnew] at hview ⊢
    refine mem_saveConns.mpr ?_
    have hwait : key ∈ s.waiting → s.mux.conn key ≠ none := fun hmem =>
      (hok key hmem).resolve_left hview
    rcases h.view key hview with ⟨pkt, hpkt, hkey, hop⟩ | hconn | hpend
    · refine hwait (mem_append_right _ ?_)
      rw [← hkey]
      exact mem_map_of_mem (mem_filter.mpr ⟨hpkt, decide_eq_true hop⟩)
    · exact hconn
    · exact hwait (mem_append_left _ hpend)
  | restore i process =>
    have hkeyed := Keyed.step h.keyed hst
    obtain ⟨hconns, -, hsaved, snap, hsnap, hview, hpending⟩ := conn_restore hst
    refine ⟨hkeyed, ?_, fun key hne => ?_, by rw [hsaved]; exact h.saved⟩
    · rcases hconns with ⟨hconns, hrxq⟩ | ⟨-, hrxq⟩
      · rw [hrxq]
        exact h.queue.congr hconns
      · rw [hrxq]
        trivial
    · rw [hview] at hne
      rw [hpending]
      exact .inr (.inr (h.saved snap (mem_of_getElem? hsnap) key hne))

theorem Covered.boot (dials : List (Option HostStream)) : Covered (boot dials) :=
  ⟨keyed_of_conns_eq_empty rfl, trivial, fun _ h => absurd rfl h,
    fun _ h => absurd h not_mem_nil⟩

def Onward (_ : State) : Action → Prop
  | .restore _ _ => False
  | _ => True

instance : ∀ (s : State) (a : Action), Decidable (Onward s a)
  | _, .mux _ => isTrue trivial
  | _, .deliver => isTrue trivial
  | _, .snapshot => isTrue trivial
  | _, .restore _ _ => isFalse id

theorem queued_step (hkeyed : s.mux.Keyed) (hok : Onward s a) (hst : Talk.step s a = some s') :
    ∃ news, s'.queued = s.queued ++ news ∧ ∀ key ∈ s.mux.pendingRst,
      Resets news key ∨ a ≠ .mux .service ∧ key ∈ s'.mux.pendingRst := by
  cases a with
  | mux e =>
    obtain ⟨m, hm, rfl⟩ := map_eq_some_iff.mp hst
    have hspec := stepped hkeyed hm
    refine ⟨_, queued_mux hspec _, fun key hmem => ?_⟩
    by_cases he : e = .service
    · exact .inl (resets_iff.mpr ((turn_covers (hspec.turn key)).2.2 he hmem))
    · have hsame := hspec.pending.resolve_right fun h => he h.1
      exact .inr ⟨fun h => he (Action.mux.inj h), hsame ▸ hmem⟩
  | deliver =>
    unfold Talk.step at hst
    dsimp only at hst
    split at hst
    · cases hst
    next pkt rxq hrxq =>
      cases hst
      exact ⟨[], (queued_deliver hrxq _).trans (append_nil _).symm,
        fun _ hmem => .inr ⟨Action.noConfusion, hmem⟩⟩
  | snapshot =>
    cases hst
    exact ⟨[], (append_nil _).symm, fun _ hmem => .inr ⟨Action.noConfusion, hmem⟩⟩
  | restore i process => exact absurd hok id

/-- **A pending reset gets on its way with the next pass**, and what is on its way stays so. -/
theorem queued_run {as : List Action} (hrun : Run step Onward s as s') : s.mux.Keyed →
    ∃ news, s'.queued = s.queued ++ news ∧
      (key ∈ s.mux.pendingRst → .mux .service ∈ as → Resets news key) := by
  induction hrun with
  | nil s => exact fun _ => ⟨[], (append_nil _).symm, fun _ h => absurd h not_mem_nil⟩
  | cons hok hst _ ih =>
    intro hkeyed
    obtain ⟨news, hqueued, hpend⟩ := queued_step hkeyed hok hst
    obtain ⟨rest, hrest, htold⟩ := ih (Keyed.step hkeyed hst)
    refine ⟨news ++ rest, by rw [hrest, hqueued, append_assoc], fun hmem hserv => ?_⟩
    rcases hpend key hmem with hrst | ⟨hne, hmem'⟩
    · exact hrst.append_left _
    · exact (htold hmem' ((mem_cons.mp hserv).resolve_left hne.symm)).append_right _

/-- **A restored guest is told about its connections**, in every run whose snapshots are settled:
a pair that was open for the guest at a snapshot is reset after the restore, once a pass is made
and the guest has got what is queued. -/
theorem restored_guest_told {dials : List (Option HostStream)} {s s₁ s₂ : State}
    {as bs : List Action} {i : Nat} {process : Option (List (Option HostStream))} {snap : Saved}
    {key : ConnKey} (hrun : Run step Settled (boot dials) as s) (hsnap : s.saved[i]? = some snap)
    (hopen : snap.view key = .opened) (hrestore : step s (.restore i process) = some s₁)
    (hafter : Run step Onward s₁ bs s₂) (hserv : .mux .service ∈ bs) (hempty : s₂.mux.rxq = []) :
    ∃ heard, s₂.delivered = s₁.delivered ++ heard ∧ Resets heard key := by
  have hcov : Covered s :=
    hrun.invariant (fun _ _ _ h hok hst => h.step hok hst) (.boot dials)
  have hcov₁ : Covered s₁ := hcov.step (a := .restore i process) trivial hrestore
  obtain ⟨-, -, -, snap', hsnap', -, hpending⟩ := conn_restore hrestore
  obtain rfl := some.inj (hsnap.symm.trans hsnap')
  have hmem : key ∈ s₁.mux.pendingRst := by
    rw [hpending]
    refine hcov.saved snap (mem_of_getElem? hsnap) key ?_
    rw [hopen]
    decide
  obtain ⟨news, hqueued, htold⟩ := queued_run hafter hcov₁.keyed
  refine ⟨s₁.mux.rxq ++ news, ?_, (htold hmem hserv).append_right _⟩
  unfold State.queued at hqueued
  rw [hempty, append_nil, append_assoc] at hqueued
  exact hqueued

def openedAndSaved : List Action :=
  [.mux (.tx (guestPacket OP_REQUEST) []), .deliver, .snapshot]

theorem restored_guest_told_silent : ∃ s snap s₁ s₂,
    Run step Settled (boot [some silent]) openedAndSaved s ∧ s.saved[0]? = some snap ∧
      snap.view (1024, 5000) = .opened ∧ step s (.restore 0 (some [])) = some s₁ ∧
      Run step Onward s₁ [.mux .service, .deliver] s₂ ∧
      ∃ heard, s₂.delivered = s₁.delivered ++ heard ∧ Resets heard (1024, 5000) := by
  obtain ⟨s, hrun, ⟨snap, hsnap, hopen⟩, s₁, hrestore, hrest⟩ :
      ∃ s, Run step Settled (boot [some silent]) openedAndSaved s ∧
        (∃ snap ∈ s.saved[0]?, snap.view (1024, 5000) = .opened) ∧
        ∃ s₁ ∈ step s (.restore 0 (some [])),
          ∃ s₂ ∈ after (checked step Onward) s₁ [.mux .service, .deliver], s₂.mux.rxq = [] :=
    exists_run (by decide +kernel)
  obtain ⟨s₂, hafter, hempty⟩ := exists_run hrest
  exact ⟨s, snap, s₁, s₂, hrun, hsnap, hopen, hrestore, hafter,
    restored_guest_told hrun hsnap hopen hrestore hafter mem_cons_self hempty⟩

/-- **A second restore forgets**: a snapshot right after a restore has no record of the resets
that are pending, and the guest that is restored from it waits for ever. -/
theorem second_restore_forgets : ∃ s snap s₁ s₂,
    Run step (fun _ _ => True) (boot [some silent])
        (openedAndSaved ++ [.restore 0 (some []), .snapshot]) s ∧
      s.saved[1]? = some snap ∧ snap.view (1024, 5000) = .opened ∧
      step s (.restore 1 (some [])) = some s₁ ∧ Run step Onward s₁ [.mux .service] s₂ ∧
      s₂.mux.rxq = [] ∧ s₂.delivered = s₁.delivered := by
  obtain ⟨s, hrun, ⟨snap, hsnap, hopen⟩, s₁, hrestore, hrest⟩ :
      ∃ s, Run step (fun _ _ => True) (boot [some silent])
          (openedAndSaved ++ [.restore 0 (some []), .snapshot]) s ∧
        (∃ snap ∈ s.saved[1]?, snap.view (1024, 5000) = .opened) ∧
        ∃ s₁ ∈ step s (.restore 1 (some [])),
          ∃ s₂ ∈ after (checked step Onward) s₁ [.mux .service],
            s₂.mux.rxq = [] ∧ s₂.delivered = s₁.delivered :=
    exists_run (by decide +kernel)
  obtain ⟨s₂, hafter, hend⟩ := exists_run hrest
  exact ⟨s, snap, s₁, s₂, hrun, hsnap, hopen, hrestore, hafter, hend⟩

end Ignition.Devices.Talk
