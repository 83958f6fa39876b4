import Ignition.Devices.Vsock

/-!
# Runs of the muxer

The muxer takes steps in any order: packets of the guest, host clients that connect, a turn of
`poll_controls` for one client, passes of the reactor. All of them only add to the queue of
packets for the guest, and what they do to the connection of one pair of ports is one of a few
things. `Turn` lists these, with the packets queued for the pair, and `stepped` says that every
step is such a turn for every pair. What is proved about the table is proved from that list.

The two ends agree on which connections there are (`ends_agree`) as long as

- the guest does not ask for a pair that is open, or send an operation nobody knows on it, and
- no reset is pending for a pair that is open.

A REQUEST for an open pair replaces the connection and the guest is not told
(`request_replaces_silently`).

`alloc_host_port` searches until it finds a free port. A turn that needs a port and finds all of
them taken never returns, and is not a step; with fewer host ports in use than there are it always
is one (`host_ports_fresh`).
-/

namespace Ignition.Devices

open Paged Ignition.Vmm Runs List

def RxPacket.key (pkt : RxPacket) : ConnKey := (pkt.hdr.dstPort, pkt.hdr.srcPort)

def VsockHeader.key (hdr : VsockHeader) : ConnKey := (hdr.srcPort, hdr.dstPort)

namespace Muxer

/-! ## Packets to the guest -/

def ctrlPacket (op : UInt16) (key : ConnKey) (fwdCnt : UInt32) : RxPacket :=
  ⟨ctrlHdr op key fwdCnt, []⟩

def rwPacket (key : ConnKey) (fwdCnt : UInt32) (data : Bytes) : RxPacket :=
  ⟨{ ctrlHdr OP_RW key fwdCnt with len := UInt32.ofNat data.length }, data⟩

@[simp] theorem key_ctrlPacket (op : UInt16) (key : ConnKey) (fwdCnt : UInt32) :
    (ctrlPacket op key fwdCnt).key = key := rfl

variable {key : ConnKey} {pkt : RxPacket} {c : Connection} {hdr : VsockHeader} {payload : Bytes}
  {m m' : Muxer} {news : List RxPacket} {e : Event} {fd : Nat}

theorem key_of_mem_ctrl {op : UInt16} {fwdCnt : UInt32} (h : pkt ∈ [ctrlPacket op key fwdCnt]) :
    pkt.key = key := by
  rw [mem_singleton.mp h, key_ctrlPacket]

@[simp] theorem key_rwPacket (key : ConnKey) (fwdCnt : UInt32) (data : Bytes) :
    (rwPacket key fwdCnt data).key = key := rfl

def portsOf (c : Connection) : ConnKey := (c.guestPort, c.hostPort)

theorem portsOf_onPacket {c' : Connection} (h : c.onPacket hdr payload = some c') :
    portsOf c' = portsOf c :=
  Prod.ext (Connection.onPacket_ports h).1 (Connection.onPacket_ports h).2.1

/-- **The reads of a pass** leave the ports and the count, and every packet carries both. -/
theorem readAll_spec : ∀ (fuel : Nat) (c : Connection),
    portsOf (readAll fuel c).2 = portsOf c ∧ (readAll fuel c).2.fwdCnt = c.fwdCnt ∧
      ∀ pkt ∈ (readAll fuel c).1, ∃ data, pkt = rwPacket (portsOf c) c.fwdCnt data
  | 0, c => ⟨rfl, rfl, fun _ h => absurd h not_mem_nil⟩
  | fuel + 1, c => by
    have hports : portsOf c.readHost.2 = portsOf c :=
      Prod.ext c.readHost_ports.1 c.readHost_ports.2
    have hfwd : c.readHost.2.fwdCnt = c.fwdCnt := c.readHost_frame.2.1
    unfold readAll
    split
    next c' hr =>
      rw [hr] at hports hfwd
      exact ⟨hports, hfwd, fun _ h => absurd h not_mem_nil⟩
    rename_i data c' hr
    rw [hr] at hports hfwd
    obtain ⟨hports', hfwd', hpkts⟩ := readAll_spec fuel c'
    refine ⟨hports'.trans hports, hfwd'.trans hfwd, fun pkt hpkt => ?_⟩
    rcases mem_cons.mp hpkt with rfl | hmem
    · exact ⟨data, by rw [← hports, ← hfwd]; rfl⟩
    · rw [← hports, ← hfwd]
      exact hpkts pkt hmem

/-- **A pass over a connection** leaves the ports and the count that its flush comes to. -/
theorem serviceConn_spec (c : Connection) :
    portsOf (serviceConn c).2 = portsOf c ∧ (serviceConn c).2.fwdCnt = c.flushTx.fwdCnt ∧
      ∀ pkt ∈ (serviceConn c).1, ∃ data, pkt = rwPacket (portsOf c) c.flushTx.fwdCnt data := by
  have hports : portsOf c.flushTx = portsOf c :=
    Prod.ext c.flushTx_ports.1 c.flushTx_ports.2.1
  rw [← hports]
  exact readAll_spec _ _

def served (c : Connection) : List RxPacket := (serviceConn c).1 ++ (closingRst c).toList

theorem mem_served (h : pkt ∈ served c) :
    (∃ data, pkt = rwPacket (portsOf c) c.flushTx.fwdCnt data) ∨
      (pkt = ctrlPacket OP_RST (portsOf c) 0 ∧ keepOpen c = none) := by
  obtain ⟨hports, -, hpkts⟩ := serviceConn_spec c
  rcases mem_append.mp h with hrw | hrst
  · exact .inl (hpkts pkt hrw)
  unfold closingRst at hrst
  dsimp only at hrst ⊢
  split at hrst
  next hclosed =>
    refine .inr ⟨?_, if_pos hclosed⟩
    rw [mem_singleton.mp hrst, ← hports]
    rfl
  · exact absurd hrst not_mem_nil

theorem key_of_mem_served (h : pkt ∈ served c) :
    pkt.key = portsOf c := by
  rcases mem_served h with ⟨data, rfl⟩ | ⟨rfl, -⟩
  · exact key_rwPacket _ _ _
  · exact key_ctrlPacket _ _ _

theorem rst_mem_served (h : keepOpen c = none) :
    ctrlPacket OP_RST (portsOf c) 0 ∈ served c := by
  refine mem_append_right _ ?_
  unfold keepOpen at h
  unfold closingRst
  dsimp only at h ⊢
  split at h
  next hclosed =>
    rw [if_pos hclosed, ← (serviceConn_spec c).1]
    exact mem_singleton_self _
  · cases h

/-! ## Steps -/

inductive Event where
  | tx (hdr : VsockHeader) (payload : Bytes)
  | accept (fd : Nat) (stream : HostStream)
  | poll (fd : Nat)
  | service

def hostPorts (m : Muxer) : List UInt32 := m.conns.keys.map Prod.snd

def SearchEnds (m : Muxer) : Prop := m.allocHostPort.1 ∉ m.hostPorts

instance (m : Muxer) : Decidable m.SearchEnds := inferInstanceAs (Decidable (¬ _))

/-- The client's turn needs a host port. -/
def Polled.promotes : Polled → Bool
  | .connect _ _ => true
  | _ => false

def step (m : Muxer) : Event → Option Muxer
  | .tx hdr payload => some (m.handleTx hdr payload)
  | .accept fd stream => some (m.acceptControl fd stream)
  | .poll fd =>
    match m.ctrlStreams.lookup fd with
    | none => none
    | some cs =>
      if (polled cs).promotes = true → m.SearchEnds then some (m.pollControl fd cs) else none
  | .service => some m.service

/-! ## What a step does for a pair of ports -/

def answer (hdr : VsockHeader) (c : Connection) : List RxPacket :=
  if hdr.op = OP_RW ∨ hdr.op = OP_CREDIT_REQUEST then
    [ctrlPacket OP_CREDIT_UPDATE hdr.key c.fwdCnt]
  else if hdr.op = OP_CREDIT_UPDATE ∨ hdr.op = OP_RESPONSE then []
  else [ctrlPacket OP_RST hdr.key 0]

/-- What a step does for a pair of ports: the connection before, the packets queued for the pair,
and the connection after. -/
inductive Turn (m : Muxer) (key : ConnKey) :
    Event → Option Connection → List RxPacket → Option Connection → Prop where
  | idle {e : Event} (c : Option Connection) : e ≠ .service → Turn m key e c [] c
  | opened {hdr : VsockHeader} (payload : Bytes) (c : Option Connection) (stream : HostStream) :
      hdr.op = OP_REQUEST → hdr.key = key → m.dials.head? = some (some stream) →
      Turn m key (.tx hdr payload) c [ctrlPacket OP_RESPONSE key 0]
        (some (.new key.1 key.2 stream hdr.bufAlloc hdr.fwdCnt))
  | refused {hdr : VsockHeader} (payload : Bytes) (c : Option Connection) :
      hdr.op = OP_REQUEST → hdr.key = key → (∀ stream, m.dials.head? ≠ some (some stream)) →
      Turn m key (.tx hdr payload) c [ctrlPacket OP_RST key 0] c
  | stray {hdr : VsockHeader} (payload : Bytes) : hdr.op = OP_RW → hdr.key = key →
      Turn m key (.tx hdr payload) none [ctrlPacket OP_RST key 0] none
  | packet {hdr : VsockHeader} {payload : Bytes} {c c' : Connection} : hdr.op ≠ OP_REQUEST →
      hdr.key = key → c.onPacket hdr payload = some c' →
      Turn m key (.tx hdr payload) (some c) (answer hdr c') (some c')
  | closed {hdr : VsockHeader} (payload : Bytes) (c : Connection) :
      hdr.op = OP_SHUTDOWN ∨ hdr.op = OP_RST → hdr.key = key →
      Turn m key (.tx hdr payload) (some c) [ctrlPacket OP_RST key 0] none
  | promoted {fd : Nat} {cs : ControlStream} {stream : HostStream} :
      m.ctrlStreams.lookup fd = some cs → polled cs = .connect key.1 stream →
      m.allocHostPort.1 = key.2 →
      Turn m key (.poll fd) none [ctrlPacket OP_REQUEST key 0]
        (some (.newLocalInit key.1 key.2 stream))
  | pass (c : Option Connection) :
      Turn m key .service c
        (replicate (m.pendingRst.count key) (ctrlPacket OP_RST key 0) ++
          (c.map served).getD [])
        (c.bind keepOpen)

def Keyed (m : Muxer) : Prop := ∀ key c, m.conn key = some c → portsOf c = key

/-- The packets a step queues, in order. -/
def newly (m m' : Muxer) : List RxPacket := m'.rxq.drop m.rxq.length

/-- What a step can do. -/
structure Stepped (m : Muxer) (e : Event) (m' : Muxer) : Prop where
  rxq : m'.rxq = m.rxq ++ newly m m'
  turn : ∀ key, Turn m key e (m.conn key) ((newly m m').filter fun pkt => pkt.key = key)
    (m'.conn key)
  pending : m'.pendingRst = m.pendingRst ∨ (e = .service ∧ m'.pendingRst = [])

theorem newly_eq (h : m'.rxq = m.rxq ++ news) :
    newly m m' = news := by
  unfold newly
  rw [h, drop_left]

/-! ### Packets of the guest -/

theorem answer_eq_credit (c : Connection) (h : hdr.op = OP_RW ∨ hdr.op = OP_CREDIT_REQUEST) :
    answer hdr c = [ctrlPacket OP_CREDIT_UPDATE hdr.key c.fwdCnt] := if_pos h

theorem answer_eq_nil (c : Connection) (h : hdr.op = OP_CREDIT_UPDATE ∨ hdr.op = OP_RESPONSE) :
    answer hdr c = [] := by
  unfold answer
  rw [if_neg, if_pos h]
  rcases h with h | h <;> rw [h] <;> decide

theorem answer_eq_rst (c : Connection) (h : ¬ (hdr.op = OP_RW ∨ hdr.op = OP_CREDIT_REQUEST))
    (h' : ¬ (hdr.op = OP_CREDIT_UPDATE ∨ hdr.op = OP_RESPONSE)) :
    answer hdr c = [ctrlPacket OP_RST hdr.key 0] := by
  unfold answer
  rw [if_neg h, if_neg h']

/-- What a step leaves under a pair of ports and adds to the queue; the other pairs are as they
were. -/
structure Acted (m m' : Muxer) (key : ConnKey) (c : Option Connection) (news : List RxPacket) :
    Prop where
  conn : ∀ key', m'.conn key' = if key' = key then c else m.conn key'
  rxq : m'.rxq = m.rxq ++ news
  pending : m'.pendingRst = m.pendingRst

theorem Acted.same {c : Option Connection} (h : m.conn key = c) : Acted m m key c [] := by
  refine ⟨fun key' => ?_, (append_nil _).symm, rfl⟩
  split
  next heq => rw [heq, h]
  · rfl

theorem Acted.set (m : Muxer) (key : ConnKey) (c : Connection) :
    Acted m (m.setConn key c) key (some c) [] :=
  ⟨fun key' => conn_setConn m key key' c, (append_nil _).symm, rfl⟩

theorem Acted.remove (m : Muxer) (key : ConnKey) : Acted m (m.removeConn key) key none [] :=
  ⟨fun key' => conn_removeConn m key key', (append_nil _).symm, rfl⟩

theorem Acted.queue {c : Option Connection} (h : Acted m m' key c []) (op : UInt16)
    (fwdCnt : UInt32) : Acted m (m'.queue op key fwdCnt) key c [ctrlPacket op key fwdCnt] := by
  have hrxq : m'.rxq = m.rxq := h.rxq.trans (append_nil _)
  exact ⟨h.conn, congrArg (· ++ [ctrlPacket op key fwdCnt]) hrxq, h.pending⟩

theorem handleTx_none (payload : Bytes) (hop : hdr.op ≠ OP_REQUEST) (hc : m.conn hdr.key = none) :
    Acted m (m.handleTx hdr payload) hdr.key none
      (if hdr.op = OP_RW then [ctrlPacket OP_RST hdr.key 0] else []) := by
  have hkey : m.conn (hdr.srcPort, hdr.dstPort) = none := hc
  unfold handleTx
  rw [if_neg hop, hkey]
  split
  · exact (Acted.same hc).queue OP_RST 0
  · split_ifs <;> exact .same hc

/-- **A packet acts on its own connection, as `onPacket` says, and on no other.** -/
theorem handleTx_some (payload : Bytes) (hop : hdr.op ≠ OP_REQUEST)
    (hc : m.conn hdr.key = some c) :
    Acted m (m.handleTx hdr payload) hdr.key (c.onPacket hdr payload)
      ((c.onPacket hdr payload).elim [ctrlPacket OP_RST hdr.key 0] (answer hdr)) := by
  have hkey : m.conn (hdr.srcPort, hdr.dstPort) = some c := hc
  unfold handleTx
  rw [if_neg hop, hkey]
  dsimp only
  generalize hr : c.onPacket hdr payload = r
  cases Connection.takes hr with
  | payload hrw =>
    rw [if_pos hrw, Option.elim_some, answer_eq_credit _ (.inl hrw)]
    exact (Acted.set m hdr.key _).queue OP_CREDIT_UPDATE _
  | credit hrw hcredit =>
    rw [if_neg hrw, Option.elim_some]
    by_cases hreq : hdr.op = OP_CREDIT_REQUEST
    · rw [if_pos hreq, answer_eq_credit _ (.inr hreq)]
      exact (Acted.set m hdr.key _).queue OP_CREDIT_UPDATE _
    · have hupd := hcredit.resolve_left hreq
      rw [if_neg hreq, if_pos hupd, answer_eq_nil _ (.inl hupd)]
      exact Acted.set m hdr.key _
  | closes hshut =>
    have hne : hdr.op ≠ OP_RW ∧ hdr.op ≠ OP_CREDIT_REQUEST ∧ hdr.op ≠ OP_CREDIT_UPDATE := by
      rcases hshut with h | h <;> rw [h] <;> decide
    rw [if_neg hne.1, if_neg hne.2.1, if_neg hne.2.2, if_pos hshut]
    exact (Acted.remove m hdr.key).queue OP_RST 0
  | confirms hresp hinit =>
    rw [Option.elim_some, answer_eq_nil _ (.inr hresp), hresp, if_pos hinit]
    exact Acted.set m hdr.key _
  | passes hrw hcredit hshut hinit =>
    rw [if_neg hrw, if_neg fun h => hcredit (.inl h), if_neg fun h => hcredit (.inr h),
      if_neg hshut, Option.elim_some]
    by_cases hresp : hdr.op = OP_RESPONSE
    · rw [if_pos hresp, if_neg (hinit hresp), answer_eq_nil _ (.inr hresp)]
      exact .same hc
    · rw [if_neg hresp, answer_eq_rst _ (fun h => h.elim hrw fun h => hcredit (.inl h))
        (fun h => h.elim (fun h => hcredit (.inr h)) hresp)]
      exact (Acted.same hc).queue OP_RST 0

theorem Stepped.of_pair {c c' : Option Connection} (hc : m.conn key = c) (h : Acted m m' key c' news)
    (hkey : ∀ pkt ∈ news, pkt.key = key) (hturn : Turn m key e c news c')
    (he : e ≠ .service) : Stepped m e m' := by
  subst hc
  have hnews := newly_eq h.rxq
  refine ⟨by rw [hnews]; exact h.rxq, fun key' => ?_, .inl h.pending⟩
  rw [hnews, h.conn]
  by_cases hk : key' = key
  · subst hk
    have hall : news.filter (fun pkt => pkt.key = key') = news :=
      filter_eq_self.mpr fun pkt hpkt => decide_eq_true (hkey pkt hpkt)
    rw [hall, if_pos rfl]
    exact hturn
  · have hnone : news.filter (fun pkt => pkt.key = key') = [] :=
      filter_eq_nil_iff.mpr fun pkt hpkt h =>
        hk ((of_decide_eq_true h).symm.trans (hkey pkt hpkt))
    rw [hnone, if_neg hk]
    exact .idle _ he

theorem Stepped.of_same (hrxq : m'.rxq = m.rxq) (hconns : m'.conns = m.conns)
    (hpending : m'.pendingRst = m.pendingRst) (he : e ≠ .service) : Stepped m e m' := by
  have hnews : newly m m' = [] := newly_eq (hrxq.trans (append_nil _).symm)
  refine ⟨by rw [hnews, append_nil, hrxq], fun key => ?_, .inl hpending⟩
  rw [hnews, show m'.conn key = m.conn key by unfold conn; rw [hconns]]
  exact .idle _ he

theorem key_of_mem_answer (h : pkt ∈ answer hdr c) : pkt.key = hdr.key := by
  unfold answer at h
  split at h
  · exact key_of_mem_ctrl h
  split at h
  · exact absurd h not_mem_nil
  · exact key_of_mem_ctrl h

theorem Stepped.request (payload : Bytes) (hop : hdr.op = OP_REQUEST) :
    Stepped m (.tx hdr payload) (m.handleTx hdr payload) := by
  have hrefused : (∀ stream, m.dials.head? ≠ some (some stream)) → ∀ dials,
      Stepped m (.tx hdr payload) ({ m with dials := dials }.queue OP_RST hdr.key 0) := by
    intro hdials dials
    exact .of_pair rfl ⟨(Acted.same rfl).conn, rfl, rfl⟩ (fun _ => key_of_mem_ctrl)
      (.refused payload _ hop rfl hdials) Event.noConfusion
  unfold handleTx
  rw [if_pos hop]
  split
  next stream dials hd =>
    exact .of_pair rfl ⟨(Acted.set m hdr.key _).conn, rfl, rfl⟩ (fun _ => key_of_mem_ctrl)
      (.opened payload _ stream hop rfl (by rw [hd]; rfl)) Event.noConfusion
  next dials hd =>
    refine hrefused (fun stream h => ?_) dials
    rw [hd] at h
    cases h
  next hd =>
    refine hrefused (fun stream h => ?_) m.dials
    rw [hd] at h
    cases h

theorem Stepped.tx (m : Muxer) (hdr : VsockHeader) (payload : Bytes) :
    Stepped m (.tx hdr payload) (m.handleTx hdr payload) := by
  by_cases hop : hdr.op = OP_REQUEST
  · exact .request payload hop
  have hne : Event.tx hdr payload ≠ .service := Event.noConfusion
  cases hc : m.conn hdr.key with
  | none =>
    have hacted := handleTx_none payload hop hc
    by_cases hrw : hdr.op = OP_RW
    · rw [if_pos hrw] at hacted
      exact .of_pair hc hacted (fun _ => key_of_mem_ctrl) (.stray payload hrw rfl) hne
    · rw [if_neg hrw] at hacted
      exact .of_pair hc hacted (fun _ h => absurd h not_mem_nil) (.idle none hne) hne
  | some c =>
    have hacted := handleTx_some payload hop hc
    cases hp : c.onPacket hdr payload with
    | none =>
      rw [hp] at hacted
      cases Connection.takes hp with
      | closes hshut =>
        exact .of_pair hc hacted (fun _ => key_of_mem_ctrl) (.closed payload c hshut rfl) hne
    | some c' =>
      rw [hp] at hacted
      exact .of_pair hc hacted (fun _ h => key_of_mem_answer h) (.packet hop rfl hp) hne

/-! ### Host clients -/

theorem mem_hostPorts (h : m.conn key = some c) :
    key.2 ∈ m.hostPorts :=
  mem_map_of_mem (AList.mem_keys.mp (AList.lookup_isSome.mp (by
    rw [show m.conns.lookup key = some c from h]
    rfl)))

theorem Stepped.promote {cs : ControlStream} {guestPort : UInt32} {stream : HostStream}
    (hcs : m.ctrlStreams.lookup fd = some cs) (hp : polled cs = .connect guestPort stream)
    (hends : m.SearchEnds) :
    Stepped m (.poll fd) (promote { m with ctrlStreams := m.ctrlStreams.erase fd } guestPort
      stream) := by
  have hfree : m.conn (guestPort, m.allocHostPort.1) = none := by
    cases hc : m.conn (guestPort, m.allocHostPort.1) with
    | none => rfl
    | some c => exact absurd (mem_hostPorts hc) hends
  exact .of_pair hfree ⟨(Acted.set m (guestPort, m.allocHostPort.1) _).conn, rfl, rfl⟩
    (fun _ => key_of_mem_ctrl) (.promoted hcs hp rfl) Event.noConfusion

theorem Stepped.poll {cs : ControlStream} (hcs : m.ctrlStreams.lookup fd = some cs)
    (hends : (polled cs).promotes = true → m.SearchEnds) :
    Stepped m (.poll fd) (m.pollControl fd cs) := by
  rw [pollControl_eq]
  cases hp : polled cs with
  | waiting cs' | dropped => exact .of_same rfl rfl rfl Event.noConfusion
  | connect guestPort stream =>
    rw [hp] at hends
    exact .promote hcs hp (hends rfl)

/-! ### The reactor -/

theorem entry_lookup {e : Sigma fun _ : ConnKey => Connection} (h : e ∈ m.conns.entries) :
    m.conn e.1 = some e.2 := AList.mem_lookup_iff.mpr h

theorem filter_pass (hkeyed : m.Keyed) (key : ConnKey) :
    ((m.pendingRst.map fun key => ctrlPacket OP_RST key 0) ++
      (m.conns.entries.map fun e => e.2).flatMap (fun c => (serviceConn c).1) ++
      (m.conns.entries.map fun e => e.2).filterMap closingRst).filter (fun pkt => pkt.key = key) =
    replicate (m.pendingRst.count key) (ctrlPacket OP_RST key 0) ++
      ((m.conn key).map served).getD [] := by
  have hports : ∀ e ∈ m.conns.entries, portsOf e.2 = e.1 :=
    fun e he => hkeyed e.1 e.2 (entry_lookup he)
  have hrsts : (m.pendingRst.map fun key => ctrlPacket OP_RST key 0).filter
      (fun pkt => pkt.key = key) =
        replicate (m.pendingRst.count key) (ctrlPacket OP_RST key 0) := by
    rw [filter_map]
    have hfun : ((fun pkt : RxPacket => decide (pkt.key = key)) ∘
        fun key => ctrlPacket OP_RST key 0) = fun key' => key' == key :=
      funext fun key' => Bool.eq_iff_iff.mpr (decide_eq_true_iff.trans beq_iff_eq.symm)
    rw [hfun, filter_beq, map_replicate]
  have hdata := AssocMap.filter_flatMap_entries (fun c => (serviceConn c).1) RxPacket.key m.conns
    (fun e he pkt hpkt => (key_of_mem_served (mem_append_left _ hpkt)).trans (hports e he)) key
  have hclosing := AssocMap.filter_flatMap_entries (fun c => (closingRst c).toList) RxPacket.key
    m.conns
    (fun e he pkt hpkt => (key_of_mem_served (mem_append_right _ hpkt)).trans (hports e he))
    key
  rw [filter_append, filter_append, append_assoc, flatMap_map,
    filterMap_map, filterMap_eq_flatMap_toList]
  congr 1
  refine (congrArg₂ (· ++ ·) hdata hclosing).trans ?_
  unfold conn
  cases m.conns.lookup key with
  | none | some c => rfl

theorem Stepped.service (hkeyed : m.Keyed) : Stepped m .service m.service := by
  have hrxq : m.service.rxq = m.rxq ++ ((m.pendingRst.map fun key => ctrlPacket OP_RST key 0) ++
      (m.conns.entries.map fun e => e.2).flatMap (fun c => (serviceConn c).1) ++
      (m.conns.entries.map fun e => e.2).filterMap closingRst) := by
    unfold Muxer.service
    dsimp only
    rw [append_assoc, append_assoc, append_assoc]
    rfl
  have hnews := newly_eq hrxq
  refine ⟨by rw [hnews]; exact hrxq, fun key => ?_, .inr ⟨rfl, rfl⟩⟩
  rw [hnews, filter_pass hkeyed, conn_service]
  exact .pass _

/-- **What a step can do**: for every pair of ports it takes one of the turns. -/
theorem stepped (hkeyed : m.Keyed) (h : m.step e = some m') :
    Stepped m e m' := by
  cases e with
  | tx hdr payload =>
    cases h
    exact .tx m hdr payload
  | accept fd stream =>
    cases h
    exact .of_same rfl rfl rfl Event.noConfusion
  | poll fd =>
    unfold step at h
    dsimp only at h
    split at h
    · cases h
    rename_i cs hcs
    split at h
    next hends =>
      cases h
      exact .poll hcs hends
    · cases h
  | service =>
    cases h
    exact .service hkeyed

/-! ## Connections under their ports -/

theorem keyed_of_conns_eq_empty (h : m.conns = ∅) : m.Keyed := by
  intro key c hc
  unfold conn at hc
  rw [h] at hc
  cases hc

theorem Turn.keyed {c c' : Option Connection} (h : Turn m key e c news c')
    (hc : ∀ a, c = some a → portsOf a = key) :
    ∀ b, c' = some b → portsOf b = key := by
  intro b hb
  cases h with
  | idle | refused => exact hc b hb
  | opened | promoted =>
    cases hb
    rfl
  | stray | closed => cases hb
  | packet _ _ hp =>
    cases hb
    exact (portsOf_onPacket hp).trans (hc _ rfl)
  | pass =>
    obtain ⟨a, ha, hkeep⟩ := Option.bind_eq_some_iff.mp hb
    obtain ⟨-, rfl⟩ := keepOpen_eq_some.mp hkeep
    exact (serviceConn_spec a).1.trans (hc a ha)

theorem Keyed.step (hkeyed : m.Keyed) (h : m.step e = some m') :
    m'.Keyed :=
  fun key => ((stepped hkeyed h).turn key).keyed (hkeyed key)

def Started (m : Muxer) : Prop := ∃ dials keys, m = (Muxer.new dials).seedRst keys

theorem Started.keyed (h : m.Started) : m.Keyed := by
  obtain ⟨dials, keys, rfl⟩ := h
  exact keyed_of_conns_eq_empty rfl

theorem keyed_of_run {m₀ : Muxer} {ok : Muxer → Event → Prop} {es : List Event}
    (hstart : m₀.Started) (hrun : Run step ok m₀ es m) : m.Keyed :=
  hrun.invariant (fun _ _ _ h _ hst => h.step hst) hstart.keyed

/-! ## A whole poll -/

theorem lookup_pollControl_ne (m : Muxer) {fd' : Nat} (h : fd' ≠ fd) (cs : ControlStream) :
    (m.pollControl fd cs).ctrlStreams.lookup fd' = m.ctrlStreams.lookup fd' := by
  rw [pollControl_eq]
  cases polled cs with
  | waiting cs' => exact AssocMap.lookup_replace_ne h m.ctrlStreams cs'
  | dropped | connect guestPort stream => exact AList.lookup_erase_ne h

theorem after_polls : ∀ {l : List (Sigma fun _ : Nat => ControlStream)} {m m' : Muxer},
    l.NodupKeys → (∀ e ∈ l, m.ctrlStreams.lookup e.1 = some e.2) →
      Runs.after step m (l.map fun e => .poll e.1) = some m' →
      l.foldl (fun m e => m.pollControl e.1 e.2) m = m'
  | [], m, m', _, _, h => Option.some.inj h
  | e :: l, m, m', hnodup, hmem, h => by
    obtain ⟨hfresh, hnodup'⟩ := nodupKeys_cons.mp hnodup
    rw [map_cons] at h
    unfold Runs.after step at h
    dsimp only at h
    rw [hmem e mem_cons_self] at h
    dsimp only at h
    split at h
    · rw [foldl_cons]
      refine after_polls hnodup' (fun e' he' => ?_) h
      have hne : e'.1 ≠ e.1 := fun heq => hfresh (heq ▸ mem_map_of_mem he')
      rw [lookup_pollControl_ne m hne]
      exact hmem e' (mem_cons_of_mem _ he')
    · cases h

/-- **`poll_controls` is a turn for each client**, if every search for a port ends. -/
theorem pollControls_eq_of_after
    (h : Runs.after step m (m.ctrlStreams.entries.map fun e => .poll e.1) = some m') :
    m.pollControls = m' :=
  after_polls m.ctrlStreams.nodupKeys (fun _ he => AList.mem_lookup_iff.mpr he) h

/-! ## The search for a port -/

def nextPort (p : UInt32) : UInt32 := if p = 0xFFFFFFFF then 1024 else p + 1

/-- How many ports the search goes round. -/
def portCount : Nat := 2 ^ 32 - 1024

theorem toNat_nextPort {p : UInt32} (h : 1024 ≤ p.toNat) :
    (nextPort p).toNat = 1024 + (p.toNat - 1024 + 1) % portCount := by
  have hlt := p.toNat_lt
  unfold nextPort portCount
  split
  next hp =>
    subst hp
    rfl
  rename_i hp
  have hne : p.toNat ≠ 4294967295 := fun h => hp (UInt32.toNat_inj.mp h)
  change (p.toNat + 1) % 4294967296 = _
  omega

theorem toNat_iterate_nextPort {p : UInt32} (h : 1024 ≤ p.toNat) (i : Nat) :
    (nextPort^[i] p).toNat = 1024 + (p.toNat - 1024 + i) % portCount := by
  induction i with
  | zero =>
    have hlt := p.toNat_lt
    change p.toNat = _
    unfold portCount
    omega
  | succ i ih =>
    rw [Function.iterate_succ_apply', toNat_nextPort (by rw [ih]; exact Nat.le_add_right _ _), ih]
    unfold portCount
    omega

/-- The loop of `alloc_host_port`, which has no bound, ends with this port and this position. -/
inductive AllocReturns (used : List UInt32) : UInt32 → UInt32 × UInt32 → Prop where
  | free {p : UInt32} : p ∉ used → AllocReturns used p (p, nextPort p)
  | taken {p : UInt32} {r : UInt32 × UInt32} :
      p ∈ used → AllocReturns used (nextPort p) r → AllocReturns used p r

theorem allocLoop_returns {used : List UInt32} : ∀ {fuel : Nat} {p : UInt32},
    (∃ i < fuel, nextPort^[i] p ∉ used) → AllocReturns used p (allocLoop used fuel p)
  | 0, _, ⟨_, hi, _⟩ => absurd hi (Nat.not_lt_zero _)
  | fuel + 1, p, ⟨i, hi, hfree⟩ => by
    unfold allocLoop
    dsimp only
    split
    next hp =>
      have hmem := contains_iff_mem.mp hp
      cases i with
      | zero => exact absurd hmem hfree
      | succ i => exact .taken hmem (allocLoop_returns ⟨i, Nat.lt_of_succ_lt_succ hi, hfree⟩)
    next hp => exact .free fun hmem => hp (contains_iff_mem.mpr hmem)

theorem AllocReturns.spec {used : List UInt32} {p : UInt32} {r : UInt32 × UInt32}
    (h : AllocReturns used p r) : r.1 ∉ used ∧ r.2 = nextPort r.1 ∧ ∃ i, r.1 = nextPort^[i] p := by
  induction h with
  | free hfree => exact ⟨hfree, rfl, 0, rfl⟩
  | taken _ _ ih =>
    obtain ⟨hfree, hnext, i, hi⟩ := ih
    exact ⟨hfree, hnext, i + 1, hi⟩

theorem exists_free {used : List UInt32} {p : UInt32} (hport : 1024 ≤ p.toNat)
    (hlen : used.dedup.length < portCount) : ∃ i < used.length + 1, nextPort^[i] p ∉ used := by
  by_contra hall
  -- one port more than there are in use, all different and all in use
  have hnodup : ((range (used.dedup.length + 1)).map fun i => nextPort^[i] p).Nodup := by
    refine List.Nodup.map_on (fun i hi j hj hij => ?_) nodup_range
    have hi' := mem_range.mp hi
    have hj' := mem_range.mp hj
    have heq := congrArg UInt32.toNat hij
    rw [toNat_iterate_nextPort hport, toNat_iterate_nextPort hport] at heq
    unfold portCount at hlen heq
    omega
  have hsub : ((range (used.dedup.length + 1)).map fun i => nextPort^[i] p) ⊆ used.dedup := by
    intro q hq
    obtain ⟨i, hi, rfl⟩ := mem_map.mp hq
    have hle : used.dedup.length ≤ used.length := (dedup_sublist used).length_le
    refine mem_dedup.mpr (Decidable.not_not.mp fun hfree => hall ⟨i, ?_, hfree⟩)
    exact Nat.lt_of_lt_of_le (mem_range.mp hi) (Nat.succ_le_succ hle)
  have hle := (hnodup.subperm hsub).length_le
  rw [length_map, length_range] at hle
  omega

def HasPort (m : Muxer) : Prop :=
  1024 ≤ m.nextHostPort.toNat ∧ m.hostPorts.dedup.length < portCount

theorem HasPort.returns (h : m.HasPort) : AllocReturns m.hostPorts m.nextHostPort
    (m.allocHostPort.1, m.allocHostPort.2.nextHostPort) := by
  obtain ⟨i, hi, hfree⟩ := exists_free h.1 h.2
  rw [hostPorts, length_map] at hi
  exact allocLoop_returns ⟨i, hi, hfree⟩

/-- **The search for a port ends, with a port that no connection uses.** Connections of the host
get different ports, as long as those before are still there when the next one is made. -/
theorem host_ports_fresh :
    (∀ m : Muxer, m.HasPort →
      AllocReturns m.hostPorts m.nextHostPort
        (m.allocHostPort.1, m.allocHostPort.2.nextHostPort) ∧
      1024 ≤ m.allocHostPort.1.toNat ∧ m.allocHostPort.1 ∉ m.hostPorts ∧
      1024 ≤ m.allocHostPort.2.nextHostPort.toNat ∧
      ∀ guestPort stream, m.allocHostPort.1 ∈ (m.promote guestPort stream).hostPorts) ∧
    ∀ ms : List Muxer, (∀ m ∈ ms, m.HasPort) →
      ms.Pairwise (fun m m' => m.allocHostPort.1 ∈ m'.hostPorts) →
      (ms.map fun m => m.allocHostPort.1).Nodup := by
  refine ⟨fun m h => ?_, fun ms hports hlive => ?_⟩
  · obtain ⟨hfree, hnext, i, hi⟩ := h.returns.spec
    dsimp only at hnext hi
    have hlow : 1024 ≤ m.allocHostPort.1.toNat := by
      rw [hi, toNat_iterate_nextPort h.1]
      exact Nat.le_add_right ..
    refine ⟨h.returns, hlow, hfree, ?_, fun guestPort stream => ?_⟩
    · rw [hnext, toNat_nextPort hlow]
      exact Nat.le_add_right ..
    · refine mem_map.mpr ⟨(guestPort, m.allocHostPort.1), ?_, rfl⟩
      exact AList.mem_keys.mp ((AList.mem_insert _).mpr (.inl rfl))
  · refine pairwise_map.mpr (hlive.imp_of_mem fun {m m'} _ hm' hmem heq => ?_)
    exact (hports m' hm').returns.spec.1 (heq ▸ hmem)

/-! ## Both ends agree -/

/-- The connection goes on as the same one. -/
inductive Continues (c : Connection) : Connection → Prop where
  | refl : Continues c c
  | packet {c' : Connection} (hdr : VsockHeader) (payload : Bytes) :
      c.onPacket hdr payload = some c' → Continues c c'
  | pass : Continues c (serviceConn c).2

def Resets (pkts : List RxPacket) (key : ConnKey) : Prop :=
  ∃ pkt ∈ pkts, pkt.key = key ∧ pkt.hdr.op = OP_RST

theorem Resets.append_left {l : List RxPacket} (h : Resets l key) (l' : List RxPacket) :
    Resets (l ++ l') key := by
  obtain ⟨pkt, hpkt, hrst⟩ := h
  exact ⟨pkt, mem_append_left _ hpkt, hrst⟩

theorem Resets.append_right {l' : List RxPacket} (h : Resets l' key) (l : List RxPacket) :
    Resets (l ++ l') key := by
  obtain ⟨pkt, hpkt, hrst⟩ := h
  exact ⟨pkt, mem_append_right _ hpkt, hrst⟩

theorem Resets.of_cons {l : List RxPacket} (h : Resets (pkt :: l) key)
    (hne : ¬ (pkt.key = key ∧ pkt.hdr.op = OP_RST)) : Resets l key := by
  obtain ⟨pkt', hpkt, hrst⟩ := h
  rcases mem_cons.mp hpkt with rfl | hmem
  · exact absurd hrst hne
  · exact ⟨pkt', hmem, hrst⟩

def Event.Closes (key : ConnKey) : Event → Prop
  | .tx hdr _ => hdr.key = key ∧ (hdr.op = OP_SHUTDOWN ∨ hdr.op = OP_RST)
  | _ => False

/-- The guest is told when a connection goes, and told so only of one that is gone. -/
structure Agreed (m : Muxer) (e : Event) (m' : Muxer) (key : ConnKey) : Prop where
  told : ∀ c, m.conn key = some c → (∃ c', m'.conn key = some c' ∧ Continues c c') ∨
    Resets (newly m m') key ∨ e.Closes key
  gone : Resets (newly m m') key → m'.conn key = none

def Understood (op : UInt16) : Prop :=
  op = OP_RW ∨ op = OP_CREDIT_REQUEST ∨ op = OP_CREDIT_UPDATE ∨ op = OP_SHUTDOWN ∨ op = OP_RST ∨
    op = OP_RESPONSE

instance (op : UInt16) : Decidable (Understood op) := inferInstanceAs (Decidable (_ ∨ _))

def Proper (m : Muxer) : Event → Prop
  | .tx hdr _ => m.conn hdr.key ≠ none → Understood hdr.op
  | .service => ∀ key ∈ m.pendingRst, m.conn key = none
  | _ => True

instance : ∀ (m : Muxer) (e : Event), Decidable (Proper m e)
  | _, .tx _ _ => inferInstanceAs (Decidable (_ → _))
  | m, .service => decidableBAll (fun key => m.conn key = none) m.pendingRst
  | _, .accept _ _ => isTrue trivial
  | _, .poll _ => isTrue trivial

theorem op_of_mem_answer {c' : Connection} (hop : Understood hdr.op)
    (hp : c.onPacket hdr payload = some c') (h : pkt ∈ answer hdr c') : pkt.hdr.op ≠ OP_RST := by
  rcases hop with hop | hop | hop | hop
  · rw [answer_eq_credit c' (.inl hop), mem_singleton] at h
    rw [h]
    show OP_CREDIT_UPDATE ≠ OP_RST
    decide
  · rw [answer_eq_credit c' (.inr hop), mem_singleton] at h
    rw [h]
    show OP_CREDIT_UPDATE ≠ OP_RST
    decide
  · rw [answer_eq_nil c' (.inl hop)] at h
    exact absurd h not_mem_nil
  · rcases hop with hop | hop | hop
    · unfold Connection.onPacket at hp
      rw [hop] at hp
      cases hp
    · unfold Connection.onPacket at hp
      rw [hop] at hp
      cases hp
    · rw [answer_eq_nil c' (.inr hop)] at h
      exact absurd h not_mem_nil

theorem Turn.agreed {c c' : Option Connection} (h : Turn m key e c news c') (hc : m.conn key = c)
    (hok : Proper m e) :
    (∀ a, c = some a → (∃ b, c' = some b ∧ Continues a b) ∨ (∃ pkt ∈ news, pkt.hdr.op = OP_RST) ∨
      e.Closes key) ∧
    ((∃ pkt ∈ news, pkt.hdr.op = OP_RST) → c' = none) := by
  -- a REQUEST finds the pair closed
  have hnone : ∀ {hdr : VsockHeader} {payload : Bytes}, e = .tx hdr payload →
      hdr.op = OP_REQUEST → hdr.key = key → c = none := by
    intro hdr payload he hop hkey
    subst he
    by_contra hsome
    have hknown : Understood hdr.op := hok (by rw [hkey, hc]; exact hsome)
    rw [hop] at hknown
    exact absurd hknown (by decide)
  cases h with
  | idle =>
    refine ⟨fun a ha => .inl ⟨a, ha, .refl⟩, ?_⟩
    rintro ⟨pkt, hpkt, -⟩
    exact absurd hpkt not_mem_nil
  | opened payload _ stream hop hkey hd =>
    obtain rfl := hnone rfl hop hkey
    refine ⟨fun a ha => (by cases ha), ?_⟩
    rintro ⟨pkt, hpkt, hrst⟩
    rw [mem_singleton.mp hpkt] at hrst
    exact absurd hrst (show OP_RESPONSE ≠ OP_RST by decide)
  | refused payload _ hop hkey hd =>
    obtain rfl := hnone rfl hop hkey
    exact ⟨fun a ha => (by cases ha), fun _ => rfl⟩
  | stray => exact ⟨fun a ha => (by cases ha), fun _ => rfl⟩
  | @packet hdr payload a b hop hkey hp =>
    refine ⟨fun a' ha => ?_, ?_⟩
    · cases ha
      exact .inl ⟨b, rfl, .packet hdr payload hp⟩
    · rintro ⟨pkt, hpkt, hrst⟩
      have hknown : Understood hdr.op := hok (by
        rw [hkey, hc]
        exact Option.some_ne_none a)
      exact absurd hrst (op_of_mem_answer hknown hp hpkt)
  | closed payload a hop hkey =>
    exact ⟨fun _ _ => .inr (.inr ⟨hkey, hop⟩), fun _ => rfl⟩
  | promoted =>
    refine ⟨fun a ha => (by cases ha), ?_⟩
    rintro ⟨pkt, hpkt, hrst⟩
    rw [mem_singleton.mp hpkt] at hrst
    exact absurd hrst (show OP_REQUEST ≠ OP_RST by decide)
  | pass =>
    refine ⟨fun a ha => ?_, ?_⟩
    · subst ha
      rw [Option.bind_some]
      cases hkeep : keepOpen a with
      | none =>
        exact .inr (.inl ⟨_, mem_append_right _ (rst_mem_served hkeep), rfl⟩)
      | some b =>
        obtain ⟨-, rfl⟩ := keepOpen_eq_some.mp hkeep
        exact .inl ⟨_, rfl, .pass⟩
    · rintro ⟨pkt, hpkt, hrst⟩
      rcases mem_append.mp hpkt with hpend | hserved
      · -- a pending reset, for a pair that is not open
        have hmem : key ∈ m.pendingRst :=
          count_pos_iff.mp (Nat.pos_of_ne_zero (mem_replicate.mp hpend).1)
        rw [← hc, hok key hmem]
        rfl
      · cases c with
        | none => exact absurd hserved not_mem_nil
        | some a =>
          rcases mem_served hserved with ⟨data, rfl⟩ | ⟨-, hkeep⟩
          · exact absurd hrst (show OP_RW ≠ OP_RST by decide)
          · exact hkeep

theorem resets_iff {pkts : List RxPacket} : Resets pkts key ↔
    ∃ pkt ∈ pkts.filter fun pkt => pkt.key = key, pkt.hdr.op = OP_RST := by
  constructor
  · rintro ⟨pkt, hpkt, hkey, hop⟩
    exact ⟨pkt, mem_filter.mpr ⟨hpkt, decide_eq_true hkey⟩, hop⟩
  · rintro ⟨pkt, hpkt, hop⟩
    obtain ⟨hmem, hkey⟩ := mem_filter.mp hpkt
    exact ⟨pkt, hmem, of_decide_eq_true hkey, hop⟩

/-- **Host and guest agree on connections**, in every run of proper steps: a connection that
leaves the table is reset towards the guest in the same step, unless the guest closed it, and a
pair that is reset has no connection afterwards. -/
theorem ends_agree {m₀ m m' : Muxer} {es : List Event} {e : Event} (hstart : m₀.Started)
    (hrun : Run step Proper m₀ es m) (hok : Proper m e) (hst : m.step e = some m')
    (key : ConnKey) : Agreed m e m' key := by
  have hturn := (stepped (keyed_of_run hstart hrun) hst).turn key
  obtain ⟨htold, hgone⟩ := hturn.agreed rfl hok
  exact ⟨fun c hc => by rw [resets_iff]; exact htold c hc,
    fun h => hgone (resets_iff.mp h)⟩

def guestPacket (op : UInt16) : VsockHeader :=
  ⟨VSOCK_GUEST_CID, VSOCK_CID_HOST, 1024, 5000, 0, VSOCK_TYPE_STREAM, op, 0, 65536, 0⟩

def silent : HostStream := ⟨[], [], [], []⟩

def greeter : HostStream := ⟨[], [], [], [.data [7]]⟩

theorem ends_agree_greeter : ∃ m m',
    Run step Proper (.new [some greeter]) [.tx (guestPacket OP_REQUEST) [], .service] m ∧
      m.step (.tx (guestPacket OP_SHUTDOWN) []) = some m' ∧ m'.conn (1024, 5000) = none ∧
      Agreed m (.tx (guestPacket OP_SHUTDOWN) []) m' (1024, 5000) := by
  obtain ⟨m, hrun, hproper, hgone⟩ :
      ∃ m, Run step Proper (.new [some greeter]) [.tx (guestPacket OP_REQUEST) [], .service] m ∧
        Proper m (.tx (guestPacket OP_SHUTDOWN) []) ∧
        (m.handleTx (guestPacket OP_SHUTDOWN) []).conn (1024, 5000) = none :=
    exists_run (by decide +kernel)
  exact ⟨m, _, hrun, rfl, hgone, ends_agree ⟨_, [], rfl⟩ hrun hproper rfl _⟩

/-- **A REQUEST for an open pair replaces its connection**, and the guest is not told. -/
theorem request_replaces_silently : ∃ m m',
    Run step (fun _ _ => True) (.new [some greeter, some silent])
        [.tx (guestPacket OP_REQUEST) []] m ∧
      m.step (.tx (guestPacket OP_REQUEST) []) = some m' ∧
      ¬ Agreed m (.tx (guestPacket OP_REQUEST) []) m' (1024, 5000) := by
  refine ⟨_, _, .cons trivial rfl (.nil _), rfl, fun h => ?_⟩
  rcases h.told _ rfl with ⟨c', hc', hcont⟩ | hreset | ⟨-, hop⟩
  · obtain rfl := Option.some.inj hc'.symm
    have hreads : ∀ {c'' : Connection}, Continues (.new 1024 5000 greeter 65536 0) c'' →
        c''.host.reads = [] → c''.rxCnt ≠ 0 := by
      intro c'' hcont hnil
      cases hcont with
      | refl => cases hnil
      | packet hdr payload hp =>
        rw [(Connection.onPacket_ports hp).2.2] at hnil
        cases hnil
      | pass => decide
    exact absurd rfl (hreads hcont rfl)
  · obtain ⟨pkt, hpkt, -, hrst⟩ := hreset
    rw [mem_singleton.mp hpkt] at hrst
    exact absurd hrst (by decide)
  · exact absurd hop (by decide)

end Muxer

end Ignition.Devices
