import Ignition.Devices.VsockConn

/-!
# Runs of a vsock connection

Machines over the same connection, one for each direction and one for the buffer between them.
Their steps are the packets of the guest and the device's own flushes and reads, in any order;
`Muxer::service` is a flush and then reads.

In `Credit` the state keeps, next to the 32-bit counters, how many bytes were ever sent to the
guest and acknowledged by it, and the buffer size it advertised last. The credit the device
computes is the true one while no more is in flight than the guest's buffer holds. A guest that
advertises a smaller buffer than that turns a negative credit into a huge one
(`shrunk_buffer_overrun`).

In `Stream` the state keeps the payloads the guest sent. What was written and what is buffered
make up those payloads; a SHUTDOWN drops what is still buffered (`shutdown_drops_buffer`).

In `Window` the state keeps also how much the guest was told to be written. Nothing but the guest
keeps the buffer within the window that the device advertises: a guest that sends no more than
that beyond what it was told does (`buffered_within_window`), another need not
(`window_overrun`).
-/

namespace Ignition.Devices

open Paged Ignition.Vmm Runs List Option

/-! ## Towards the guest -/

namespace Credit

structure State where
  conn : Connection
  sent : Nat
  acked : Nat
  alloc : Nat

def State.inFlight (s : State) : Nat := s.sent - s.acked

inductive Action where
  | packet (hdr : VsockHeader) (payload : Bytes) (ack : Nat)
  | flush
  | read

def step (s : State) : Action → Option State
  | .packet hdr payload ack =>
    if hdr.fwdCnt = UInt32.ofNat ack ∧ ack ≤ s.sent ∧ s.sent < ack + 2 ^ 32 then
      (s.conn.onPacket hdr payload).map fun c =>
        { s with conn := c, acked := ack, alloc := hdr.bufAlloc.toNat }
    else none
  | .flush => some { s with conn := s.conn.flushTx }
  | .read =>
    let (data, c) := s.conn.readHost
    some { s with conn := c, sent := s.sent + (data.map List.length).getD 0 }

/-- A connection at its start: requested by the guest, or by the host. -/
inductive Opened : State → Prop where
  | guest (guestPort hostPort : UInt32) (host : HostStream) (bufAlloc : UInt32) :
      Opened ⟨.new guestPort hostPort host bufAlloc 0, 0, 0, bufAlloc.toNat⟩
  | host (guestPort hostPort : UInt32) (host : HostStream) :
      Opened ⟨.newLocalInit guestPort hostPort host, 0, 0, 0⟩

def Absorbed (c : Connection) (hdr : VsockHeader) : Prop :=
  hdr.op = OP_RW ∨ hdr.op = OP_CREDIT_REQUEST ∨ hdr.op = OP_CREDIT_UPDATE ∨
    (hdr.op = OP_RESPONSE ∧ c.state = .localInit)

instance (c : Connection) (hdr : VsockHeader) : Decidable (Absorbed c hdr) := by
  unfold Absorbed
  infer_instance

def Roomy (s : State) : Action → Prop
  | .packet hdr _ ack => Absorbed s.conn hdr ∧ s.sent - ack ≤ hdr.bufAlloc.toNat
  | _ => True

instance : ∀ (s : State) (a : Action), Decidable (Roomy s a)
  | _, .packet _ _ _ => inferInstanceAs (Decidable (_ ∧ _))
  | _, .flush => inferInstanceAs (Decidable True)
  | _, .read => inferInstanceAs (Decidable True)

/-- The counters are the true ones modulo `2 ^ 32`, and the buffer holds what is in flight. -/
structure Inv (s : State) : Prop where
  alloc : s.conn.peerBufAlloc.toNat = s.alloc
  acked : s.conn.peerFwdCnt = UInt32.ofNat s.acked
  sent : s.conn.rxCnt = UInt32.ofNat s.sent
  acked_le : s.acked ≤ s.sent
  fits : s.sent ≤ s.acked + s.alloc

variable {s : State}

theorem Inv.of_opened (h : Opened s) : Inv s := by
  cases h with
  | guest | host => exact ⟨rfl, rfl, rfl, Nat.le_refl _, Nat.zero_le _⟩

/-- **The computed credit is the true one.** -/
theorem Inv.peerFree (h : Inv s) : s.conn.peerFree.toNat = s.alloc - s.inFlight := by
  obtain ⟨halloc, hacked, hsent, hle, hfits⟩ := h
  have hlt := s.conn.peerBufAlloc.toNat_lt
  have hofNat : ∀ n : Nat, (UInt32.ofNat n).toNat = n % 2 ^ 32 := fun n => UInt32.toNat_ofNat'
  unfold Connection.peerFree State.inFlight
  rw [UInt32.toNat_sub, UInt32.toNat_sub, hacked, hsent, halloc, hofNat, hofNat]
  omega

theorem onPacket_frame {c c' : Connection} {hdr : VsockHeader} {payload : Bytes}
    (h : c.onPacket hdr payload = some c') (habs : Absorbed c hdr) :
    c'.peerBufAlloc = hdr.bufAlloc ∧ c'.peerFwdCnt = hdr.fwdCnt ∧ c'.rxCnt = c.rxCnt := by
  cases Connection.takes h with
  | payload => exact Connection.flushTx_frame _
  | credit | confirms => exact ⟨rfl, rfl, rfl⟩
  | passes hrw hcredit _ hresp =>
    rcases habs with hop | hop | hop | ⟨hop, hinit⟩
    · exact absurd hop hrw
    · exact absurd (.inl hop) hcredit
    · exact absurd (.inr hop) hcredit
    · exact absurd hinit (hresp hop)

theorem Inv.step {s' : State} {a : Action} (h : Inv s) (hok : Roomy s a)
    (hst : Credit.step s a = some s') : Inv s' := by
  unfold Credit.step at hst
  cases a with
  | packet hdr payload ack =>
    dsimp only at hst
    split at hst
    next hg =>
      obtain ⟨hfwd, hack, -⟩ := hg
      obtain ⟨c, hc, rfl⟩ := map_eq_some_iff.mp hst
      obtain ⟨habs, hroom⟩ := hok
      obtain ⟨halloc, hacked, hrx⟩ := onPacket_frame hc habs
      refine ⟨congrArg UInt32.toNat halloc, hacked.trans hfwd, hrx.trans h.sent, hack, ?_⟩
      dsimp only
      omega
    · cases hst
  | flush =>
    cases hst
    obtain ⟨halloc, hacked, hrx⟩ := s.conn.flushTx_frame
    exact ⟨(congrArg UInt32.toNat halloc).trans h.alloc, hacked.trans h.acked, hrx.trans h.sent,
      h.acked_le, h.fits⟩
  | read =>
    obtain ⟨-, -, -, -, halloc, hacked, hnone⟩ := s.conn.readHost_frame
    cases hread : s.conn.readHost with
    | mk data c =>
      rw [hread] at hst halloc hacked hnone
      cases hst
      cases data with
      | none =>
        exact ⟨(congrArg UInt32.toNat halloc).trans h.alloc, hacked.trans h.acked,
          (hnone rfl).trans h.sent, h.acked_le, h.fits⟩
      | some data =>
        obtain ⟨hlen, -, -, hrx⟩ := Connection.readHost_eq_some hread
        rw [h.peerFree] at hlen
        have hle := h.acked_le
        have hfits := h.fits
        unfold State.inFlight at hlen
        refine ⟨(congrArg UInt32.toNat halloc).trans h.alloc, hacked.trans h.acked, ?_, ?_, ?_⟩
        · dsimp only [map_some, getD_some]
          rw [hrx, h.sent, UInt32.ofNat_add]
        · dsimp only [map_some, getD_some]
          omega
        · dsimp only [map_some, getD_some]
          omega

/-- **The guest's buffer is never overrun** in a run whose packets all advertise a buffer that
holds what is in flight: what is read next fits what is left of it. -/
theorem payload_within_credit {s₀ s : State} {as : List Action} {data : Bytes} {c : Connection}
    (hopen : Opened s₀) (hrun : Run step Roomy s₀ as s) (hread : s.conn.readHost = (some data, c)) :
    data.length ≤ s.alloc - s.inFlight := by
  have h : Inv s := hrun.invariant (fun _ _ _ h hok hst => h.step hok hst) (.of_opened hopen)
  rw [← h.peerFree]
  exact (Connection.readHost_eq_some hread).1

def talker : HostStream := ⟨[], [], [], [.data [1, 2, 3, 4], .data [5, 6, 7, 8]]⟩

def advertise (bufAlloc fwdCnt : UInt32) : VsockHeader :=
  ⟨VSOCK_GUEST_CID, VSOCK_CID_HOST, 1024, 5000, 0, VSOCK_TYPE_STREAM, OP_CREDIT_UPDATE, 0, bufAlloc,
    fwdCnt⟩

def opened : State := ⟨.new 1024 5000 talker 4 0, 0, 0, 4⟩

theorem payload_within_credit_talker : ∃ s data c,
    Run step Roomy opened [.read, .packet (advertise 6 4) [] 4] s ∧
      s.conn.readHost = (some data, c) ∧ data = [5, 6, 7, 8] ∧
      data.length ≤ s.alloc - s.inFlight := by
  obtain ⟨s, hrun, hdata⟩ : ∃ s, Run step Roomy opened [.read, .packet (advertise 6 4) [] 4] s ∧
      s.conn.readHost.1 = some [5, 6, 7, 8] := exists_run (by decide +kernel)
  have hread : s.conn.readHost = (some [5, 6, 7, 8], s.conn.readHost.2) := Prod.ext hdata rfl
  exact ⟨s, _, _, hrun, hread, rfl, payload_within_credit (.guest 1024 5000 talker 4) hrun hread⟩

/-- **A buffer that shrinks below what is in flight is overrun**: four bytes are in flight when
the guest advertises a buffer of two, and the next read takes four more. -/
theorem shrunk_buffer_overrun : ∃ s data c,
    Run step (fun _ _ => True) opened [.read, .packet (advertise 2 0) [] 0] s ∧
      s.conn.readHost = (some data, c) ∧ s.alloc - s.inFlight = 0 ∧ data.length = 4 := by
  obtain ⟨s, hrun, hdata, hfree⟩ :
      ∃ s, Run step (fun _ _ => True) opened [.read, .packet (advertise 2 0) [] 0] s ∧
        s.conn.readHost.1 = some [5, 6, 7, 8] ∧ s.alloc - s.inFlight = 0 :=
    exists_run (by decide +kernel)
  exact ⟨s, [5, 6, 7, 8], s.conn.readHost.2, hrun, Prod.ext hdata rfl, hfree, rfl⟩

end Credit

/-! ## Towards the host -/

namespace Stream

structure State where
  conn : Option Connection
  sent : Bytes
  closedWith : Option Bytes

inductive Action where
  | packet (hdr : VsockHeader) (payload : Bytes)
  | flush
  | read

def step (s : State) (a : Action) : Option State :=
  match s.conn with
  | none => none
  | some c =>
    if c.state = .closed then none
    else
      match a with
      | .packet hdr payload =>
        match c.onPacket hdr payload with
        | some c' =>
          some { s with
            conn := some c'
            sent := if hdr.op = OP_RW then s.sent ++ payload else s.sent }
        | none =>
          if hdr.op = OP_SHUTDOWN then
            some { s with conn := none, closedWith := some c.host.received }
          else none
      | .flush => some { s with conn := some c.flushTx }
      | .read => some { s with conn := some c.readHost.2 }

def Untouched (host : HostStream) : Prop := host.received = []

/-- A connection at its start: requested by the guest, or by the host. -/
inductive Opened : State → Prop where
  | guest (guestPort hostPort bufAlloc fwdCnt : UInt32) (host : HostStream) (h : Untouched host) :
      Opened ⟨some (.new guestPort hostPort host bufAlloc fwdCnt), [], none⟩
  | host (guestPort hostPort : UInt32) (host : HostStream) (h : Untouched host) :
      Opened ⟨some (.newLocalInit guestPort hostPort host), [], none⟩

def Drained (s : State) : Action → Prop
  | .packet hdr _ => hdr.op = OP_SHUTDOWN → ∀ c, s.conn = some c → c.txbuf = []
  | _ => True

instance : ∀ (s : State) (a : Action), Decidable (Drained s a)
  | ⟨none, _, _⟩, .packet _ _ => isTrue fun _ _ h => nomatch h
  | ⟨some c, _, _⟩, .packet hdr _ =>
    decidable_of_iff (hdr.op = OP_SHUTDOWN → c.txbuf = [])
      ⟨fun h hop _ hc => Option.some.inj hc ▸ h hop, fun h hop => h hop c rfl⟩
  | _, .flush => isTrue trivial
  | _, .read => isTrue trivial

/-- Written and buffered bytes are the payloads, and the count is that of the written ones. -/
structure Balanced (c : Connection) (sent : Bytes) : Prop where
  bytes : c.host.received ++ c.txbuf = sent
  count : c.fwdCnt = UInt32.ofNat c.host.received.length

/-- While the connection is open nothing is lost, and once it is closed everything has arrived. -/
structure Intact (s : State) : Prop where
  conn : ∀ c, s.conn = some c → Balanced c s.sent
  closed : ∀ b, s.closedWith = some b → b = s.sent
  either : s.conn = none ∨ s.closedWith = none

variable {c : Connection} {sent : Bytes}

theorem Balanced.start (hrec : c.host.received = []) (htx : c.txbuf = []) (hfwd : c.fwdCnt = 0) :
    Balanced c [] :=
  ⟨by rw [hrec, htx]; rfl, by rw [hrec, hfwd]; rfl⟩

theorem Intact.of_opened {s : State} (h : Opened s) : Intact s := by
  cases h with
  | guest guestPort hostPort bufAlloc fwdCnt host hhost | host guestPort hostPort host hhost =>
    refine ⟨fun c hc => ?_, fun b hb => (nomatch hb), .inr rfl⟩
    cases hc
    exact .start hhost rfl rfl

theorem Balanced.wrote (h : Balanced c sent) {n : Nat} (hn : n ≤ c.txbuf.length) :
    Balanced (c.wrote n) sent := by
  refine ⟨?_, ?_⟩
  · dsimp only [Connection.wrote]
    rw [append_assoc, take_append_drop]
    exact h.bytes
  · dsimp only [Connection.wrote]
    rw [h.count, length_append, length_take, Nat.min_eq_left hn, UInt32.ofNat_add]

theorem Balanced.flushTx (h : Balanced c sent) : Balanced c.flushTx sent := by
  obtain ⟨n, _, _, hn, -, heq⟩ := c.flushTx_eq
  rw [heq]
  exact { h.wrote hn with }

theorem Balanced.onPacket {c' : Connection} {hdr : VsockHeader} {payload : Bytes}
    (h : Balanced c sent) (hp : c.onPacket hdr payload = some c') :
    Balanced c' (if hdr.op = OP_RW then sent ++ payload else sent) := by
  cases Connection.takes hp with
  | payload hrw =>
    rw [if_pos hrw]
    refine Balanced.flushTx ⟨?_, h.count⟩
    dsimp only [Connection.updatePeerCredit]
    rw [← append_assoc, h.bytes]
  | credit hrw =>
    rw [if_neg hrw]
    exact ⟨h.bytes, h.count⟩
  | confirms hresp =>
    rw [if_neg (by rw [hresp]; decide)]
    exact ⟨h.bytes, h.count⟩
  | passes hrw =>
    rw [if_neg hrw]
    exact h

theorem Intact.step {s s' : State} {a : Action} (h : Intact s) (hok : Drained s a)
    (hst : Stream.step s a = some s') : Intact s' := by
  unfold Stream.step at hst
  split at hst
  · cases hst
  rename_i c hconn
  have hbal := h.conn c hconn
  have hnone : s.closedWith = none := by
    rcases h.either with hno | hno
    · rw [hconn] at hno
      cases hno
    · exact hno
  -- while the connection stays, there is nothing it was closed with
  have hstays : ∀ {c' : Connection} {sent : Bytes}, Balanced c' sent →
      Intact { s with conn := some c', sent := sent } := by
    intro c' sent hbal'
    refine ⟨fun c'' hc => ?_, fun b hb => ?_, .inr hnone⟩
    · cases hc
      exact hbal'
    · exact absurd (hnone.symm.trans hb) (some_ne_none b).symm
  split at hst
  · cases hst
  split at hst
  next hdr payload =>
    split at hst
    next c' hp =>
      cases hst
      exact hstays (hbal.onPacket hp)
    obtain ⟨hop, rfl⟩ := ite_some_none_eq_some.mp hst
    refine ⟨fun c'' hc => (nomatch hc), fun b hb => ?_, .inl rfl⟩
    cases hb
    have hempty := hok hop c hconn
    rw [← hbal.bytes, hempty, append_nil]
  · cases hst
    exact hstays hbal.flushTx
  · cases hst
    obtain ⟨htx, hfwd, hrec, -⟩ := c.readHost_frame
    exact hstays ⟨by rw [hrec, htx]; exact hbal.bytes, by rw [hfwd, hrec]; exact hbal.count⟩

/-- **The stream arrives intact** in every run whose SHUTDOWN finds the buffer empty: before it,
written and buffered bytes are the payloads sent, and at it everything is written. -/
theorem stream_intact {s₀ s : State} {as : List Action} (hopen : Opened s₀)
    (hrun : Run step Drained s₀ as s) : Intact s :=
  hrun.invariant (fun _ _ _ h hok hst => h.step hok hst) (.of_opened hopen)

def listener (writes : List WriteResult) : HostStream := ⟨[], [], writes, []⟩

def packet (op : UInt16) : VsockHeader :=
  ⟨VSOCK_GUEST_CID, VSOCK_CID_HOST, 1024, 5000, 0, VSOCK_TYPE_STREAM, op, 0, 65536, 0⟩

def opened (writes : List WriteResult) : State :=
  ⟨some (.new 1024 5000 (listener writes) 65536 0), [], none⟩

theorem stream_intact_listener : ∃ s, Run step Drained (opened [.ok 1, .interrupted, .wouldBlock, .ok 9])
    [.packet (packet OP_RW) [7, 8], .flush, .packet (packet OP_SHUTDOWN) []] s ∧
      s.closedWith = some [7, 8] ∧ Intact s := by
  obtain ⟨s, hrun, hclosed⟩ :
      ∃ s, Run step Drained (opened [.ok 1, .interrupted, .wouldBlock, .ok 9])
        [.packet (packet OP_RW) [7, 8], .flush, .packet (packet OP_SHUTDOWN) []] s ∧
          s.closedWith = some [7, 8] := exists_run (by decide +kernel)
  exact ⟨s, hrun, hclosed, stream_intact (.guest 1024 5000 65536 0 (listener _) rfl) hrun⟩

/-- **A SHUTDOWN drops what is buffered.** -/
theorem shutdown_drops_buffer : ∃ s, Run step (fun _ _ => True) (opened [.wouldBlock])
    [.packet (packet OP_RW) [7, 8], .packet (packet OP_SHUTDOWN) []] s ∧
      s.sent = [7, 8] ∧ s.closedWith = some [] :=
  exists_run (by decide +kernel)

end Stream

/-! ## The window towards the host -/

namespace Window

open Ignition.Devices.Stream (Balanced Untouched)

structure State where
  conn : Connection
  sent : Bytes
  told : Nat

inductive Action where
  | packet (hdr : VsockHeader) (payload : Bytes)
  | flush
  | read
  | tell (written : Nat)

def step (s : State) : Action → Option State
  | .packet hdr payload =>
    (s.conn.onPacket hdr payload).map fun c =>
      { s with conn := c, sent := if hdr.op = OP_RW then s.sent ++ payload else s.sent }
  | .flush => some { s with conn := s.conn.flushTx }
  | .read => some { s with conn := s.conn.readHost.2 }
  | .tell written =>
    if s.told ≤ written ∧ written ≤ s.conn.host.received.length then
      some { s with told := written }
    else none

/-- A connection at its start: requested by the guest, or by the host. -/
inductive Opened : State → Prop where
  | guest (guestPort hostPort bufAlloc fwdCnt : UInt32) (host : HostStream) (h : Untouched host) :
      Opened ⟨.new guestPort hostPort host bufAlloc fwdCnt, [], 0⟩
  | host (guestPort hostPort : UInt32) (host : HostStream) (h : Untouched host) :
      Opened ⟨.newLocalInit guestPort hostPort host, [], 0⟩

def Honours (s : State) : Action → Prop
  | .packet hdr payload =>
    hdr.op = OP_RW → s.sent.length + payload.length ≤ s.told + BUF_ALLOC.toNat
  | _ => True

instance : ∀ (s : State) (a : Action), Decidable (Honours s a)
  | _, .packet _ _ => inferInstanceAs (Decidable (_ → _))
  | _, .flush => isTrue trivial
  | _, .read => isTrue trivial
  | _, .tell _ => isTrue trivial

/-- What was sent is written or buffered, and the guest knows at most of what is written. -/
structure Inv (s : State) : Prop where
  balanced : Balanced s.conn s.sent
  told : s.told ≤ s.conn.host.received.length
  window : s.sent.length ≤ s.told + BUF_ALLOC.toNat

theorem Inv.of_opened {s : State} (h : Opened s) : Inv s := by
  cases h with
  | guest guestPort hostPort bufAlloc fwdCnt host hhost | host guestPort hostPort host hhost =>
    exact ⟨.start hhost rfl rfl, Nat.zero_le _, Nat.zero_le _⟩

theorem received_le_flushTx (c : Connection) :
    c.host.received.length ≤ c.flushTx.host.received.length := by
  obtain ⟨_, _, _, -, -, heq⟩ := c.flushTx_eq
  rw [heq]
  dsimp only [Connection.flushed, Connection.wrote]
  rw [length_append]
  exact Nat.le_add_right _ _

theorem received_le_onPacket {c c' : Connection} {hdr : VsockHeader} {payload : Bytes}
    (h : c.onPacket hdr payload = some c') :
    c.host.received.length ≤ c'.host.received.length := by
  cases Connection.takes h with
  | payload =>
    exact received_le_flushTx
      { c.updatePeerCredit hdr.bufAlloc hdr.fwdCnt with txbuf := c.txbuf ++ payload }
  | _ => exact Nat.le_refl _

theorem Inv.step {s s' : State} {a : Action} (h : Inv s) (hok : Honours s a)
    (hst : Window.step s a = some s') : Inv s' := by
  cases a with
  | packet hdr payload =>
    obtain ⟨c, hp, rfl⟩ := map_eq_some_iff.mp hst
    refine ⟨h.balanced.onPacket hp, Nat.le_trans h.told (received_le_onPacket hp), ?_⟩
    split
    next hop =>
      rw [length_append]
      exact hok hop
    · exact h.window
  | flush =>
    cases hst
    exact ⟨h.balanced.flushTx, Nat.le_trans h.told (received_le_flushTx s.conn), h.window⟩
  | read =>
    cases hst
    obtain ⟨htx, hfwd, hrec, -⟩ := s.conn.readHost_frame
    refine ⟨⟨?_, ?_⟩, ?_, h.window⟩
    · rw [hrec, htx]
      exact h.balanced.bytes
    · rw [hfwd, hrec]
      exact h.balanced.count
    · rw [hrec]
      exact h.told
  | tell written =>
    unfold Window.step at hst
    obtain ⟨hg, rfl⟩ := ite_some_none_eq_some.mp hst
    have hwindow := h.window
    refine ⟨h.balanced, hg.2, ?_⟩
    dsimp only
    omega

/-- **What is buffered stays within the window**, in every run in which the guest keeps to it. -/
theorem buffered_within_window {s₀ s : State} {as : List Action} (hopen : Opened s₀)
    (hrun : Run step Honours s₀ as s) : s.conn.txbuf.length ≤ BUF_ALLOC.toNat := by
  have h : Inv s := hrun.invariant (fun _ _ _ h hok hst => h.step hok hst) (.of_opened hopen)
  have hlen := congrArg List.length h.balanced.bytes
  have htold := h.told
  have hwindow := h.window
  rw [length_append] at hlen
  omega

def opened (writes : List WriteResult) : State :=
  ⟨.new 1024 5000 (Stream.listener writes) 65536 0, [], 0⟩

theorem buffered_within_window_listener : ∃ s, Run step Honours (opened [.ok 1, .wouldBlock])
    [.packet (Stream.packet OP_RW) [7, 8], .tell 1, .packet (Stream.packet OP_RW) [9]] s ∧
      s.conn.txbuf = [8, 9] ∧ s.conn.txbuf.length ≤ BUF_ALLOC.toNat := by
  obtain ⟨s, hrun, htx⟩ : ∃ s, Run step Honours (opened [.ok 1, .wouldBlock])
      [.packet (Stream.packet OP_RW) [7, 8], .tell 1, .packet (Stream.packet OP_RW) [9]] s ∧
        s.conn.txbuf = [8, 9] := exists_run (by decide +kernel)
  exact ⟨s, hrun, htx,
    buffered_within_window (.guest 1024 5000 65536 0 (Stream.listener _) rfl) hrun⟩

theorem run_blocked (p q : Bytes) : ∃ s, Run step (fun _ _ => True) (opened [])
    [.packet (Stream.packet OP_RW) p, .packet (Stream.packet OP_RW) q] s ∧
      s.conn.txbuf = p ++ q :=
  ⟨_, .cons trivial rfl (.cons trivial rfl (.nil _)), rfl⟩

/-- **A guest that ignores the window overruns it**: a window of payload to a stream that takes
nothing, and one byte more. -/
theorem window_overrun : ∃ s, Run step (fun _ _ => True) (opened [])
    [.packet (Stream.packet OP_RW) (List.replicate 65536 0), .packet (Stream.packet OP_RW) [0]] s ∧
      BUF_ALLOC.toNat < s.conn.txbuf.length := by
  obtain ⟨s, hrun, htx⟩ := run_blocked (replicate 65536 0) [0]
  refine ⟨s, hrun, ?_⟩
  rw [htx, length_append, length_replicate]
  decide

end Window

end Ignition.Devices
