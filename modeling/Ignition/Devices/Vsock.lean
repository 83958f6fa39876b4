import Ignition.Base.AssocMap
import Ignition.Devices.VsockRuns

/-!
# virtio-vsock

`Muxer` of `vsock/muxer.rs` and `VsockDevice` of `vsock/mod.rs`. The muxer keeps the connections
by their ports, connects to host sockets when the guest asks for one, promotes host clients that
send a `CONNECT` line, and queues the packets that go to the guest. The device takes packets off
the transmit queue and lays queued ones over chains of the receive queue.

The hash maps are finite maps with the order their iteration happens to have. Connecting to a host
socket gives the next of a list of outcomes; the socket's path is left out.

The muxer does to each connection what `VsockRuns` follows (`conn_service`, and `handleTx_some` of
`MuxerRuns`), so those results are about the connections of the device.
-/

namespace Ignition.Devices

open Paged Ignition.Vmm List

/-! ## The muxer -/

/-- The ports of a connection, the guest's first. -/
abbrev ConnKey := UInt32 × UInt32

structure RxPacket where
  hdr : VsockHeader
  data : Bytes
  deriving DecidableEq

/-- A host client whose `CONNECT` line may arrive in pieces. -/
structure ControlStream where
  stream : HostStream
  buf : Bytes
  deriving DecidableEq

structure Muxer where
  conns : AssocMap ConnKey Connection
  rxq : List RxPacket
  pendingRst : List ConnKey
  ctrlStreams : AssocMap Nat ControlStream
  nextHostPort : UInt32
  dials : List (Option HostStream)
  deriving DecidableEq

namespace Muxer

def new (dials : List (Option HostStream)) : Muxer := ⟨∅, [], [], ∅, 1024, dials⟩

def ctrlHdr (op : UInt16) (key : ConnKey) (fwdCnt : UInt32) : VsockHeader :=
  ⟨VSOCK_CID_HOST, VSOCK_GUEST_CID, key.2, key.1, 0, VSOCK_TYPE_STREAM, op, 0, BUF_ALLOC, fwdCnt⟩

def queue (m : Muxer) (op : UInt16) (key : ConnKey) (fwdCnt : UInt32) : Muxer :=
  { m with rxq := m.rxq ++ [⟨ctrlHdr op key fwdCnt, []⟩] }

def conn (m : Muxer) (key : ConnKey) : Option Connection := m.conns.lookup key

def setConn (m : Muxer) (key : ConnKey) (c : Connection) : Muxer :=
  { m with conns := m.conns.insert key c }

def removeConn (m : Muxer) (key : ConnKey) : Muxer := { m with conns := m.conns.erase key }

def seedRst (m : Muxer) (keys : List ConnKey) : Muxer := { m with pendingRst := keys }

def handleTx (m : Muxer) (hdr : VsockHeader) (payload : Bytes) : Muxer :=
  let key := (hdr.srcPort, hdr.dstPort)
  if hdr.op = OP_REQUEST then
    match m.dials with
    | some stream :: dials =>
      let conn := Connection.new hdr.srcPort hdr.dstPort stream hdr.bufAlloc hdr.fwdCnt
      ({ m with dials := dials }.setConn key conn).queue OP_RESPONSE key conn.fwdCnt
    | none :: dials => { m with dials := dials }.queue OP_RST key 0
    | [] => m.queue OP_RST key 0
  else if hdr.op = OP_RW then
    match m.conn key with
    | some conn =>
      let conn := (conn.updatePeerCredit hdr.bufAlloc hdr.fwdCnt).enqueueTx payload
      (m.setConn key conn).queue OP_CREDIT_UPDATE key conn.fwdCnt
    | none => m.queue OP_RST key 0
  else if hdr.op = OP_CREDIT_REQUEST then
    match m.conn key with
    | some conn =>
      (m.setConn key (conn.updatePeerCredit hdr.bufAlloc hdr.fwdCnt)).queue OP_CREDIT_UPDATE key
        conn.fwdCnt
    | none => m
  else if hdr.op = OP_CREDIT_UPDATE then
    match m.conn key with
    | some conn => m.setConn key (conn.updatePeerCredit hdr.bufAlloc hdr.fwdCnt)
    | none => m
  else if hdr.op = OP_SHUTDOWN ∨ hdr.op = OP_RST then
    match m.conn key with
    | some _ => (m.removeConn key).queue OP_RST key 0
    | none => m
  else if hdr.op = OP_RESPONSE then
    match m.conn key with
    | some conn =>
      if conn.state = .localInit then
        m.setConn key ((conn.confirmEstablished hdr.bufAlloc hdr.fwdCnt).writeHostRaw
          (Connection.okLine hdr.dstPort))
      else m
    | none => m
  else
    match m.conn key with
    | some _ => m.queue OP_RST key 0
    | none => m

/-! ### The reactor -/

def ReadResult.size : ReadResult → Nat
  | .data b => b.length + 1
  | _ => 1

/-- The reads of one connection in `Muxer::service`: `read_host` until it gives nothing. -/
def readAll : Nat → Connection → List RxPacket × Connection
  | 0, c => ([], c)
  | fuel + 1, c =>
    match c.readHost with
    | (none, c') => ([], c')
    | (some data, c') =>
      let hdr := ctrlHdr OP_RW (c'.guestPort, c'.hostPort) c'.fwdCnt
      let (pkts, c'') := readAll fuel c'
      (⟨{ hdr with len := UInt32.ofNat data.length }, data⟩ :: pkts, c'')

def readsLeft (c : Connection) : Nat := (c.host.reads.map ReadResult.size).sum + 1

/-- What `Muxer::service` does to one connection, with the packets it gives. -/
def serviceConn (c : Connection) : List RxPacket × Connection :=
  let c := c.flushTx
  readAll (readsLeft c) c

def keepOpen (c : Connection) : Option Connection :=
  let c' := (serviceConn c).2
  if c'.state = .closed then none else some c'

theorem keepOpen_eq_some {c c' : Connection} :
    keepOpen c = some c' ↔ (serviceConn c).2.state ≠ .closed ∧ (serviceConn c).2 = c' :=
  Option.ite_none_left_eq_some.trans (and_congr_right' (Option.some_inj))

def closingRst (c : Connection) : Option RxPacket :=
  let c' := (serviceConn c).2
  if c'.state = .closed then some ⟨ctrlHdr OP_RST (c'.guestPort, c'.hostPort) 0, []⟩ else none

def service (m : Muxer) : Muxer :=
  let rsts := m.pendingRst.map fun key => ⟨ctrlHdr OP_RST key 0, []⟩
  let cs := m.conns.entries.map fun e => e.2
  { m with
    pendingRst := []
    conns := AssocMap.filterMap keepOpen m.conns
    rxq := m.rxq ++ rsts ++ cs.flatMap (fun c => (serviceConn c).1) ++ cs.filterMap closingRst }

/-! ### Host clients -/

/-- `Muxer::alloc_host_port`, with the rounds it may take. -/
def allocLoop (used : List UInt32) : Nat → UInt32 → UInt32 × UInt32
  | 0, p => (p, p)
  | fuel + 1, p =>
    let next := if p = 0xFFFFFFFF then 1024 else p + 1
    if used.contains p then allocLoop used fuel next else (p, next)

/-- `Muxer::alloc_host_port`: the next port that no connection uses. -/
def allocHostPort (m : Muxer) : UInt32 × Muxer :=
  let (p, next) := allocLoop (m.conns.keys.map Prod.snd) (m.conns.keys.length + 1) m.nextHostPort
  (p, { m with nextHostPort := next })

def acceptControl (m : Muxer) (fd : Nat) (stream : HostStream) : Muxer :=
  { m with ctrlStreams := m.ctrlStreams.insert fd ⟨stream, []⟩ }

/-- The characters `str::trim` takes off, those with the property `White_Space`, in UTF-8. -/
def whiteSpace : List Bytes :=
  [[0x09], [0x0A], [0x0B], [0x0C], [0x0D], [0x20], [0xC2, 0x85], [0xC2, 0xA0], [0xE1, 0x9A, 0x80],
    [0xE2, 0x80, 0x80], [0xE2, 0x80, 0x81], [0xE2, 0x80, 0x82], [0xE2, 0x80, 0x83],
    [0xE2, 0x80, 0x84], [0xE2, 0x80, 0x85], [0xE2, 0x80, 0x86], [0xE2, 0x80, 0x87],
    [0xE2, 0x80, 0x88], [0xE2, 0x80, 0x89], [0xE2, 0x80, 0x8A], [0xE2, 0x80, 0xA8],
    [0xE2, 0x80, 0xA9], [0xE2, 0x80, 0xAF], [0xE2, 0x81, 0x9F], [0xE3, 0x80, 0x80]]

def stripFront (words : List Bytes) : Nat → Bytes → Bytes
  | 0, b => b
  | fuel + 1, b =>
    match words.find? fun w => w.isPrefixOf b with
    | some w => stripFront words fuel (b.drop w.length)
    | none => b

/-- `str::trim` of `String::from_utf8_lossy`. The encodings start with a byte that is never inside
a character, so they are found in the bytes themselves, whatever is around them. -/
def trim (b : Bytes) : Bytes :=
  let b := stripFront whiteSpace b.length b
  (stripFront (whiteSpace.map List.reverse) b.length b.reverse).reverse

def parsePort (b : Bytes) : Option UInt32 :=
  let digits := if b.head? = some 43 then b.tail else b
  if digits = [] ∨ digits.any (fun d => d < 48 || 57 < d) = true then none
  else
    let n := digits.foldl (fun n d => 10 * n + (d.toNat - 48)) 0
    if n < 2 ^ 32 then some (UInt32.ofNat n) else none

/-- The port of a `CONNECT` line. -/
def connectPort (line : Bytes) : Option UInt32 :=
  let line := trim line
  if line.take 8 = "CONNECT ".toUTF8.toList then parsePort (trim (line.drop 8)) else none

/-- The reads of one client in `Muxer::poll_controls`: whether it is done with, and what it has
sent. -/
def readControl : Nat → List ReadResult → Bytes → Bool × List ReadResult × Bytes
  | 0, rs, buf => (false, rs, buf)
  | _ + 1, [], buf => (false, [], buf)
  | fuel + 1, .data b :: rs, buf =>
    if b = [] then (true, rs, buf)
    else
      let rs := Connection.leftOver b 256 ++ rs
      let buf := buf ++ b.take 256
      if 512 < buf.length then (true, rs, buf) else readControl fuel rs buf
  | _ + 1, .wouldBlock :: rs, buf => (false, rs, buf)
  | fuel + 1, .interrupted :: rs, buf => readControl fuel rs buf
  | _ + 1, .eof :: rs, buf => (true, rs, buf)
  | _ + 1, .error :: rs, buf => (true, rs, buf)

/-- One client in `Muxer::poll_controls`. -/
def pollControl (m : Muxer) (fd : Nat) (cs : ControlStream) : Muxer :=
  let (dead, reads, buf) :=
    readControl ((cs.stream.reads.map ReadResult.size).sum + 1) cs.stream.reads cs.buf
  let cs := { stream := { cs.stream with reads := reads }, buf := buf : ControlStream }
  match buf.findIdx? (· = 10) with
  | none =>
    if dead then { m with ctrlStreams := m.ctrlStreams.erase fd }
    else { m with ctrlStreams := m.ctrlStreams.replace fd cs }
  | some pos =>
    let m := { m with ctrlStreams := m.ctrlStreams.erase fd }
    match connectPort (buf.take pos) with
    | none => m
    | some guestPort =>
      let (hostPort, m) := m.allocHostPort
      let m := m.setConn (guestPort, hostPort) (.newLocalInit guestPort hostPort cs.stream)
      { m with rxq := m.rxq ++ [⟨ctrlHdr OP_REQUEST (guestPort, hostPort) 0, []⟩] }

def pollControls (m : Muxer) : Muxer :=
  m.ctrlStreams.entries.foldl (fun m e => m.pollControl e.1 e.2) m

/-- What a poll finds out about a client. -/
inductive Polled where
  | waiting (cs : ControlStream)
  | dropped
  | connect (guestPort : UInt32) (stream : HostStream)
  deriving DecidableEq

/-- What `pollControl` finds out about a client, before the muxer acts on it. -/
def polled (cs : ControlStream) : Polled :=
  let (dead, reads, buf) :=
    readControl ((cs.stream.reads.map ReadResult.size).sum + 1) cs.stream.reads cs.buf
  let cs := { stream := { cs.stream with reads := reads }, buf := buf : ControlStream }
  match buf.findIdx? (· = 10) with
  | none => if dead then .dropped else .waiting cs
  | some pos =>
    match connectPort (buf.take pos) with
    | none => .dropped
    | some guestPort => .connect guestPort cs.stream

def promote (m : Muxer) (guestPort : UInt32) (stream : HostStream) : Muxer :=
  let (hostPort, m) := m.allocHostPort
  (m.setConn (guestPort, hostPort) (.newLocalInit guestPort hostPort stream)).queue OP_REQUEST
    (guestPort, hostPort) 0

theorem pollControl_eq (m : Muxer) (fd : Nat) (cs : ControlStream) :
    m.pollControl fd cs =
      match polled cs with
      | .waiting cs' => { m with ctrlStreams := m.ctrlStreams.replace fd cs' }
      | .dropped => { m with ctrlStreams := m.ctrlStreams.erase fd }
      | .connect guestPort stream =>
        promote { m with ctrlStreams := m.ctrlStreams.erase fd } guestPort stream := by
  unfold pollControl polled
  dsimp only
  cases hnl : (readControl ((cs.stream.reads.map ReadResult.size).sum + 1) cs.stream.reads
      cs.buf).2.2.findIdx? (· = 10) with
  | none =>
    dsimp only
    split <;> rfl
  | some pos =>
    dsimp only
    split <;> rfl

/-! ### The muxer and its connections -/

theorem conn_setConn (m : Muxer) (key key' : ConnKey) (c : Connection) :
    (m.setConn key c).conn key' = if key' = key then some c else m.conn key' :=
  AssocMap.lookup_insert m.conns key key' c

theorem conn_removeConn (m : Muxer) (key key' : ConnKey) :
    (m.removeConn key).conn key' = if key' = key then none else m.conn key' :=
  AssocMap.lookup_erase m.conns key key'

/-- **A reactor pass acts on each connection by itself**, and drops those it finds closed. -/
theorem conn_service (m : Muxer) (key : ConnKey) :
    m.service.conn key = (m.conn key).bind keepOpen :=
  AssocMap.lookup_filterMap keepOpen m.conns key

end Muxer

/-! ## The device -/

structure VsockDevice where
  muxer : Muxer
  deriving DecidableEq

namespace VsockDevice

def new (dials : List (Option HostStream)) : VsockDevice := ⟨.new dials⟩

/-- One round of `VsockDevice::handle_tx`. -/
def transmit : Service VsockDevice := fun dev mem chain =>
  match chain.read mem (VSOCK_HDR_SIZE + BUF_ALLOC.toNat) with
  | none => ⟨dev, mem, 0, []⟩
  | some bytes =>
    match VsockHeader.fromBytes bytes with
    | none => ⟨dev, mem, 0, []⟩
    | some hdr => ⟨⟨dev.muxer.handleTx hdr (bytes.drop VSOCK_HDR_SIZE)⟩, mem, 0, []⟩

/-- The loop of `VsockDevice::write_rx`. The result of a write is not looked at. -/
def layOut (buf : Bytes) : GuestRam → Nat → List Desc → Serviced Unit
  | mem, written, [] => ⟨(), mem, written, []⟩
  | mem, written, d :: ds =>
    if d.writable then
      if buf.length ≤ written then ⟨(), mem, written, []⟩
      else
        let take := min d.len (buf.length - written)
        match mem.writeSlice d.addr (slice buf written take) with
        | (mem', true) =>
          let r := layOut buf mem' (written + take) ds
          { r with log := (d, take) :: r.log }
        | (mem', false) => layOut buf mem' (written + take) ds
    else layOut buf mem written ds

def writeRx (pkt : RxPacket) : Service VsockDevice := fun dev mem chain =>
  let r := layOut (pkt.hdr.toBytes ++ pkt.data) mem 0 chain.descriptors
  ⟨dev, r.mem, r.len, r.log⟩

/-- `VsockDevice::fill_guest_rx`, with the rounds it may take. -/
def fillGuestRx : Nat → Loop VsockDevice → Option (Bool × Loop VsockDevice)
  | 0, _ => none
  | fuel + 1, l =>
    match l.dev.muxer.rxq with
    | [] => some (false, l)
    | pkt :: rxq =>
      match l.vq.popAvail l.mem with
      | (vq, none) => some (false, { l with vq := vq })
      | (vq, some chain) =>
        if chain.descriptors.any fun d => d.writable then
          let dev := ⟨{ l.dev.muxer with rxq := rxq }⟩
          (fillGuestRx fuel (serve (writeRx pkt) { l with dev := dev } vq chain)).map fun r =>
            (true, r.2)
        else fillGuestRx fuel (serve acknowledge l vq chain)

def configRead (offset : Nat) (data : Bytes) : Bytes :=
  serveConfig (leBytes 8 VSOCK_GUEST_CID.toNat) offset data

/-! ### What a packet writes -/

/-- The parts of a packet of `len` bytes that fall to each writable descriptor. -/
def parts (len : Nat) : Nat → List Desc → List (Desc × Nat)
  | _, [] => []
  | written, d :: ds =>
    if d.writable then
      if len ≤ written then []
      else (d, min d.len (len - written)) :: parts len (written + min d.len (len - written)) ds
    else parts len written ds

/-- **A packet is laid out in its parts**: those in RAM are written, all of them are counted. -/
theorem layOut_spec (buf : Bytes) (ds : List Desc) : ∀ (mem : GuestRam) (written : Nat),
    written ≤ buf.length →
    (layOut buf mem written ds).Sound mem ds ∧
      (layOut buf mem written ds).len = written + ((parts buf.length written ds).map Prod.snd).sum ∧
      (layOut buf mem written ds).len ≤ buf.length ∧
      (layOut buf mem written ds).log =
        (parts buf.length written ds).filter fun w => mem.contains w.1.addr w.2 := by
  induction ds with
  | nil => exact fun mem written h => ⟨.nil () mem written [], rfl, h, rfl⟩
  | cons d ds ih =>
    intro mem written hle
    unfold layOut parts
    split
    next hd =>
      split
      next hfull =>
        refine ⟨.nil () mem written _, rfl, hle, rfl⟩
      rename_i hmore
      dsimp only
      have hfits : written + min d.len (buf.length - written) ≤ buf.length := by omega
      have hlen := length_slice hfits
      have hw := GuestRam.changesIn_writeSlice mem d.addr
        (slice buf written (min d.len (buf.length - written)))
      have hsnd := mem.writeSlice_snd d.addr
        (slice buf written (min d.len (buf.length - written)))
      rw [hlen] at hw hsnd
      split
      next mem' heq =>
        rw [heq] at hw hsnd
        obtain ⟨hsound, hthrough, hle', hlog⟩ := ih mem' _ hfits
        refine ⟨.cons hw hd (Nat.min_le_left _ _) hsound, ?_, hle', ?_⟩
        · dsimp only
          rw [hthrough, map_cons, sum_cons]
          omega
        · dsimp only
          rw [hlog, filter_cons_of_pos
            (p := fun w : Desc × Nat => mem.contains w.1.addr w.2) hsnd.symm]
          simp only [hw.contains]
      next mem' heq =>
        obtain rfl := GuestRam.eq_of_writeSlice_false heq
        rw [heq] at hsnd
        obtain ⟨hsound, hthrough, hle', hlog⟩ := ih mem' _ hfits
        refine ⟨hsound.skip d, ?_, hle', ?_⟩
        · rw [hthrough, map_cons, sum_cons]
          omega
        · rw [hlog, filter_cons_of_neg (by rw [← hsnd]; exact Bool.false_ne_true)]
    · obtain ⟨hsound, hrest⟩ := ih mem written hle
      exact ⟨hsound.skip d, hrest⟩

end VsockDevice

end Ignition.Devices
