import Ignition.Devices.VsockRx

/-!
# The CONNECT line of a host client

A host client connects to the control socket, sends `CONNECT <port>` and a newline, and from then
on the same stream carries its payload. The muxer collects what the client sends over as many polls
as it takes. A poll reads until the stream would block, and then looks for the newline in everything
it has; more than 512 bytes end the poll and the client.

What a client sends may come in any pieces. Two splittings of the same bytes are compared by what
becomes of the client and, once the guest has accepted, by what the guest gets of the stream.
`settled` says where the reading stops, `outcome_eq` what follows from that: only the number of
bytes read by then (`reach`) tells one splitting from another. It does, since the bytes that were
read together with the newline stay in the line's buffer, which is thrown away
(`bytes_with_newline_lost`), and since the guard counts them as well. The outcome is the same, with
no byte lost, exactly if the line is no CONNECT line, or both splittings stop right behind the
newline, or both stop before it (`connect_independent_iff`).
-/

namespace Ignition.Devices.Handshake

open Ignition.Vmm Muxer Connection List

/-! ## What becomes of a client -/

inductive Outcome where
  | waiting
  | dropped
  | connected (guestPort : UInt32) (payload : Bytes)
  deriving DecidableEq

def fromGuest (guestPort hostPort : UInt32) (op : UInt16) (bufAlloc fwdCnt : UInt32) :
    VsockHeader :=
  ⟨VSOCK_GUEST_CID, VSOCK_CID_HOST, guestPort, hostPort, 0, VSOCK_TYPE_STREAM, op, 0, bufAlloc,
    fwdCnt⟩

def passes (bufAlloc : UInt32) : Nat → Option Connection → Bytes
  | 0, _ => []
  | _ + 1, none => []
  | n + 1, some c =>
    match c.onPacket (fromGuest c.guestPort c.hostPort OP_CREDIT_UPDATE bufAlloc c.rxCnt) [] with
    | none => []
    | some c => (serviceConn c).1.flatMap RxPacket.data ++ passes bufAlloc n (keepOpen c)

def accepted (bufAlloc guestPort hostPort : UInt32) (stream : HostStream) : Option Connection :=
  (newLocalInit guestPort hostPort stream).onPacket
    (fromGuest guestPort hostPort OP_RESPONSE bufAlloc 0) []

/-- The guest that accepts: how many passes there are, the size of its buffer, and the port that
the muxer chooses for the host. -/
structure Guest where
  passes : Nat
  bufAlloc : UInt32
  hostPort : UInt32

def outcome (g : Guest) : Nat → ControlStream → Outcome
  | 0, _ => .waiting
  | polls + 1, cs =>
    match polled cs with
    | .waiting cs' => outcome g polls cs'
    | .dropped => .dropped
    | .connect guestPort stream =>
      .connected guestPort
        (Handshake.passes g.bufAlloc g.passes (accepted g.bufAlloc guestPort g.hostPort stream))

def client (rs : List ReadResult) : ControlStream := ⟨⟨[], [], [], rs⟩, []⟩

/-! ## The guest gets the rest of the stream -/

def size (rs : List ReadResult) : Nat := (rs.map ReadResult.size).sum

@[simp] theorem size_cons (r : ReadResult) (rs : List ReadResult) :
    size (r :: rs) = ReadResult.size r + size rs := rfl

theorem size_leftOver (b : Bytes) (n : Nat) (rs : List ReadResult) :
    size (leftOver b n ++ rs) ≤ b.length - n + (if b.length ≤ n then 0 else 1) + size rs := by
  unfold leftOver
  split
  · exact Nat.le_add_left _ _
  · rw [singleton_append, size_cons, ReadResult.size, length_drop]

theorem size_readHost (c : Connection) :
    size c.readHost.2.host.reads ≤ size c.host.reads ∧
      (c.state = .established → c.peerFree ≠ 0 →
        size c.readHost.2.host.reads ≤ size c.host.reads - 1) := by
  unfold readHost
  split
  next hst => exact ⟨Nat.le_refl _, fun h => absurd h hst⟩
  dsimp only
  split
  next hbudget =>
    refine ⟨Nat.le_refl _, fun _ hfree => absurd ?_ hfree⟩
    unfold READ_CHUNK at hbudget
    exact UInt32.toNat_inj.mp (show c.peerFree.toNat = 0 by omega)
  next hbudget =>
    split
    next hreads =>
      rw [hreads]
      exact ⟨Nat.le_refl _, fun _ _ => Nat.le_refl _⟩
    next b rs hreads =>
      rw [hreads, size_cons, ReadResult.size]
      split
      · dsimp only
        exact ⟨by omega, fun _ _ => by omega⟩
      rename_i hb
      have hleft := size_leftOver b (min c.peerFree.toNat READ_CHUNK) rs
      dsimp only
      split at hleft <;> exact ⟨by omega, fun _ _ => by omega⟩
    all_goals
      rename_i hreads
      rw [hreads, size_cons]
      dsimp only [ReadResult.size]
      exact ⟨by omega, fun _ _ => by omega⟩

theorem size_readAll : ∀ (fuel : Nat) (c : Connection),
    size (readAll fuel c).2.host.reads ≤ size c.host.reads
  | 0, _ => Nat.le_refl _
  | fuel + 1, c => by
    have hle := (size_readHost c).1
    unfold readAll
    split
    next hr =>
      rw [hr] at hle
      exact hle
    next c' hr =>
      rw [hr] at hle
      exact (size_readAll fuel c').trans hle

theorem size_readAll_succ (fuel : Nat) {c : Connection} (hst : c.state = .established)
    (hfree : c.peerFree ≠ 0) :
    size (readAll (fuel + 1) c).2.host.reads ≤ size c.host.reads - 1 := by
  have hle := (size_readHost c).2 hst hfree
  unfold readAll
  split
  next hr =>
    rw [hr] at hle
    exact hle
  next c' hr =>
    rw [hr] at hle
    exact (size_readAll fuel c').trans hle

theorem txbuf_readAll : ∀ (fuel : Nat) (c : Connection), (readAll fuel c).2.txbuf = c.txbuf
  | 0, _ => rfl
  | fuel + 1, c => by
    have htx := c.readHost_frame.1
    unfold readAll
    split
    next hr =>
      rw [hr] at htx
      exact htx
    next c' hr =>
      rw [hr] at htx
      exact (txbuf_readAll fuel c').trans htx

theorem flushTx_idle {c : Connection} (htx : c.txbuf = []) :
    ∃ writes, c.flushTx = { c with host := { c.host with writes := writes } } := by
  unfold flushTx
  split
  · cases hw : c.host.writes with
    | nil => exact ⟨[], rfl⟩
    | cons w ws =>
      unfold flushLoop
      rw [if_pos htx]
      exact ⟨_, rfl⟩
  · exact ⟨c.host.writes, rfl⟩

theorem sentFor_readAll (fuel : Nat) (c : Connection) :
    sentFor (portsOf c) (readAll fuel c).1 = (readAll fuel c).1.flatMap RxPacket.data := by
  refine flatMap_congr fun pkt hpkt => ?_
  obtain ⟨data, rfl⟩ := (readAll_spec fuel c).2.2 pkt hpkt
  exact if_pos ⟨rfl, rfl⟩

/-- **A guest that takes what it gets, gets everything**: with room in its buffer and enough
passes, all the stream has to say. -/
theorem passes_eq {bufAlloc : UInt32} (hroom : bufAlloc ≠ 0) : ∀ (n : Nat) {c : Connection},
    c.state = .established → c.txbuf = [] → size c.host.reads ≤ n →
    passes bufAlloc n (some c) = dataOf c.host.reads
  | 0, c, _, _, hn => by
    have hreads : c.host.reads = [] := by
      cases h : c.host.reads with
      | nil => rfl
      | cons r rs =>
        rw [h, size_cons] at hn
        cases r <;> simp only [ReadResult.size] at hn <;> omega
    rw [hreads]
    rfl
  | n + 1, c, hst, htx, hn => by
    have hcredit : c.onPacket
        (fromGuest c.guestPort c.hostPort OP_CREDIT_UPDATE bufAlloc c.rxCnt) [] =
          some (c.updatePeerCredit bufAlloc c.rxCnt) := rfl
    unfold passes
    rw [hcredit]
    obtain ⟨writes, hflush⟩ := flushTx_idle (c := c.updatePeerCredit bufAlloc c.rxCnt) htx
    unfold keepOpen serviceConn
    dsimp only
    -- the connection the reads start from
    generalize (c.updatePeerCredit bufAlloc c.rxCnt).flushTx = a at hflush
    have hreads : a.host.reads = c.host.reads := by rw [hflush]; rfl
    have hfree : a.peerFree ≠ 0 := by
      have heq : a.peerFree = bufAlloc := by
        rw [hflush]
        show bufAlloc - (c.rxCnt - c.rxCnt) = bufAlloc
        rw [UInt32.sub_self, UInt32.sub_zero]
      rw [heq]
      exact hroom
    have hast : a.state = .established := by rw [hflush]; exact hst
    have hatx : a.txbuf = [] := by rw [hflush]; exact htx
    obtain ⟨-, rest, hdata, hends⟩ := readAll_data (readsLeft a) a
    rw [sentFor_readAll, hreads] at hdata
    rw [hdata]
    congr 1
    rcases hends with ⟨hrest, hopen⟩ | ⟨hrest, hclosed⟩
    · have hless : size (readAll (readsLeft a) a).2.host.reads ≤ size a.host.reads - 1 :=
        size_readAll_succ _ hast hfree
      rw [if_neg (by rw [hopen, hast]; decide), hrest]
      refine passes_eq hroom n (hopen.trans hast) ((txbuf_readAll _ _).trans hatx) ?_
      rw [hreads] at hless
      omega
    · rw [if_pos hclosed, hrest]
      cases n with
      | zero | succ n => rfl

theorem passes_accepted {bufAlloc : UInt32} (hroom : bufAlloc ≠ 0) (guestPort hostPort : UInt32)
    (stream : HostStream) {n : Nat} (hn : size stream.reads ≤ n) :
    passes bufAlloc n (accepted bufAlloc guestPort hostPort stream) = dataOf stream.reads :=
  passes_eq hroom n (c := ((newLocalInit guestPort hostPort stream).confirmEstablished bufAlloc
    0).writeHostRaw (okLine hostPort)) rfl rfl hn

/-! ## Where the reading stops -/

def Piece : ReadResult → Prop
  | .data b => b ≠ [] ∧ b.length ≤ 256
  | .wouldBlock => True
  | .interrupted => True
  | .eof => False
  | .error => False

instance : DecidablePred Piece
  | .data _ => inferInstanceAs (Decidable (_ ∧ _))
  | .wouldBlock => isTrue trivial
  | .interrupted => isTrue trivial
  | .eof => isFalse id
  | .error => isFalse id

def ending (closes : Bool) : List ReadResult := if closes then [.eof] else []

/-- The reads of one poll, item by item. -/
def pollReads : List ReadResult → Bytes → Bool × List ReadResult × Bytes
  | [], buf => (false, [], buf)
  | .data b :: rs, buf =>
    if 512 < (buf ++ b).length then (true, rs, buf ++ b) else pollReads rs (buf ++ b)
  | .wouldBlock :: rs, buf => (false, rs, buf)
  | .interrupted :: rs, buf => pollReads rs buf
  | .eof :: rs, buf => (true, rs, buf)
  | .error :: rs, buf => (true, rs, buf)

def settled : List ReadResult → Bytes → Option (List ReadResult × Bytes)
  | [], buf => if 10 ∈ buf then some ([], buf) else none
  | .data b :: rs, buf =>
    if 512 < (buf ++ b).length then some (rs, buf ++ b) else settled rs (buf ++ b)
  | .wouldBlock :: rs, buf => if 10 ∈ buf then some (rs, buf) else settled rs buf
  | .interrupted :: rs, buf => settled rs buf
  | .eof :: rs, buf => some (rs, buf)
  | .error :: rs, buf => some (rs, buf)

def newline (b : Bytes) : Option Nat := b.findIdx? (· = 10)

def judge (g : Guest) (rs : List ReadResult) (buf : Bytes) : Outcome :=
  match newline buf with
  | none => .dropped
  | some pos =>
    match connectPort (buf.take pos) with
    | none => .dropped
    | some guestPort => .connected guestPort (Handshake.passes g.bufAlloc g.passes
        (accepted g.bufAlloc guestPort g.hostPort ⟨[], [], [], rs⟩))

def Reads (rs : List ReadResult) : Prop := ∀ r ∈ rs, r = .eof ∨ Piece r

theorem Reads.tail {r : ReadResult} {rs : List ReadResult} (h : Reads (r :: rs)) : Reads rs :=
  fun r' hr' => h r' (mem_cons_of_mem _ hr')

theorem readControl_eq : ∀ (fuel : Nat) (rs : List ReadResult) (buf : Bytes), Reads rs →
    rs.length < fuel → readControl fuel rs buf = pollReads rs buf
  | 0, _, _, _, hfuel => by omega
  | fuel + 1, [], _, _, _ => rfl
  | fuel + 1, r :: rs, buf, h, hfuel => by
    rw [length_cons] at hfuel
    have ih := fun buf => readControl_eq fuel rs buf h.tail (by omega)
    cases r with
    | data b =>
      rcases h _ mem_cons_self with heof | ⟨hne, hsmall⟩
      · cases heof
      unfold readControl pollReads
      rw [if_neg hne, take_of_length_le hsmall]
      unfold leftOver
      rw [if_pos hsmall, nil_append]
      dsimp only
      rw [ih]
    | wouldBlock | eof | error => rfl
    | interrupted => exact ih buf

theorem length_le_size (rs : List ReadResult) : rs.length ≤ size rs := by
  induction rs with
  | nil => exact Nat.le_refl _
  | cons r rs ih =>
    rw [length_cons, size_cons]
    have hpos : 1 ≤ ReadResult.size r := by cases r <;> simp only [ReadResult.size] <;> omega
    omega

variable {b : Bytes} {nl : Nat} {ps : List ReadResult}

theorem newline_eq_none_iff : newline b = none ↔ 10 ∉ b := by
  unfold newline
  rw [findIdx?_eq_none_iff]
  constructor
  · exact fun h hmem => of_decide_eq_false (h 10 hmem) rfl
  · exact fun h x hx => decide_eq_false fun heq => h (heq ▸ hx)

theorem mem_of_newline (h : newline b = some nl) : 10 ∈ b := by
  by_contra hno
  rw [newline_eq_none_iff.mpr hno] at h
  cases h

theorem newline_take (h : newline b = some nl) (n : Nat) :
    newline (b.take n) = if nl < n then some nl else none := by
  unfold newline at h ⊢
  rw [List.findIdx?_take, h, Option.bind_some, Option.guard]
  simp only [decide_eq_true_eq]

theorem polled_eq {rs : List ReadResult} (h : Reads rs) (buf : Bytes) :
    polled ⟨⟨[], [], [], rs⟩, buf⟩ =
      match newline (pollReads rs buf).2.2 with
      | none =>
        if (pollReads rs buf).1 = true then .dropped
        else .waiting ⟨⟨[], [], [], (pollReads rs buf).2.1⟩, (pollReads rs buf).2.2⟩
      | some pos =>
        match connectPort ((pollReads rs buf).2.2.take pos) with
        | none => .dropped
        | some guestPort => .connect guestPort ⟨[], [], [], (pollReads rs buf).2.1⟩ := by
  have hfuel : rs.length < (rs.map ReadResult.size).sum + 1 :=
    Nat.lt_succ_of_le (length_le_size rs)
  unfold polled
  rw [readControl_eq _ rs buf h hfuel]
  rfl

/-- **A poll goes on where the last one stopped**: it is done with the client, or the rest of the
reads decides. -/
theorem settled_pollReads : ∀ (rs : List ReadResult) (buf : Bytes),
    settled rs buf =
      if (pollReads rs buf).1 = true ∨ 10 ∈ (pollReads rs buf).2.2 then some (pollReads rs buf).2
      else settled (pollReads rs buf).2.1 (pollReads rs buf).2.2
  | [], buf => by
    by_cases hmem : 10 ∈ buf
    · rw [settled, if_pos hmem, pollReads, if_pos (.inr hmem)]
    · rw [pollReads, if_neg fun h => h.elim Bool.false_ne_true hmem]
  | .data b :: rs, buf => by
    rw [settled, pollReads]
    split
    · rw [if_pos (.inl rfl)]
    · exact settled_pollReads rs (buf ++ b)
  | .wouldBlock :: rs, buf => by
    rw [settled, pollReads]
    by_cases hmem : 10 ∈ buf
    · rw [if_pos hmem, if_pos (.inr hmem)]
    · rw [if_neg hmem, if_neg fun h => h.elim Bool.false_ne_true hmem]
  | .interrupted :: rs, buf => settled_pollReads rs buf
  | .eof :: rs, buf => (if_pos (.inl rfl)).symm
  | .error :: rs, buf => (if_pos (.inl rfl)).symm

theorem pollReads_reads : ∀ (rs : List ReadResult) (buf : Bytes), Reads rs →
    Reads (pollReads rs buf).2.1 ∧ (pollReads rs buf).2.1.length ≤ rs.length - 1
  | [], _, h => ⟨h, Nat.le_refl _⟩
  | r :: rs, buf, h => by
    have hshort : ∀ {rs' : List ReadResult}, Reads rs' ∧ rs'.length ≤ rs.length - 1 →
        Reads rs' ∧ rs'.length ≤ (r :: rs).length - 1 := fun h' => by
      refine ⟨h'.1, ?_⟩
      rw [length_cons]
      omega
    cases r with
    | data b =>
      unfold pollReads
      split
      · exact ⟨h.tail, Nat.le_refl _⟩
      · exact hshort (pollReads_reads rs (buf ++ b) h.tail)
    | wouldBlock | eof | error => exact ⟨h.tail, Nat.le_refl _⟩
    | interrupted => exact hshort (pollReads_reads rs buf h.tail)

theorem outcome_silent (g : Guest) {buf : Bytes} (hbuf : 10 ∉ buf) : ∀ polls : Nat,
    outcome g polls ⟨⟨[], [], [], []⟩, buf⟩ = .waiting
  | 0 => rfl
  | polls + 1 => by
    have hidx := newline_eq_none_iff.mpr hbuf
    unfold outcome
    rw [polled_eq (fun r hr => absurd hr not_mem_nil)]
    show (match (match newline buf with
      | none => _
      | some pos => _ : Polled) with
      | .waiting cs' => _
      | .dropped => _
      | .connect guestPort stream => _) = _
    rw [hidx]
    exact outcome_silent g hbuf polls

/-- **Polls follow the reads to where they stop.** -/
theorem outcome_settled (g : Guest) : ∀ (polls : Nat) (rs : List ReadResult) (buf : Bytes),
    Reads rs → 10 ∉ buf → rs.length < polls →
    outcome g polls ⟨⟨[], [], [], rs⟩, buf⟩ =
      match settled rs buf with
      | none => .waiting
      | some (rs', buf') => judge g rs' buf'
  | 0, _, _, _, _, hpolls => by omega
  | polls + 1, rs, buf, h, hbuf, hpolls => by
    have hspec := settled_pollReads rs buf
    obtain ⟨hreads, hlen⟩ := pollReads_reads rs buf h
    unfold outcome
    rw [polled_eq h, hspec]
    cases hidx : newline (pollReads rs buf).2.2 with
    | some pos =>
      rw [if_pos (Or.inr (mem_of_newline hidx))]
      unfold judge
      dsimp only
      rw [hidx]
      dsimp only
      cases connectPort ((pollReads rs buf).2.2.take pos) with
      | none | some guestPort => rfl
    | none =>
      have hno := newline_eq_none_iff.mp hidx
      by_cases hdead : (pollReads rs buf).1 = true
      · rw [if_pos hdead, if_pos (.inl hdead)]
        unfold judge
        dsimp only
        rw [hidx]
      · rw [if_neg hdead, if_neg fun h' => h'.elim hdead hno]
        dsimp only
        cases rs with
        | nil =>
          rw [show (pollReads [] buf).2.1 = [] from rfl, outcome_silent g hno]
          unfold settled
          rw [if_neg hno]
        | cons r rs =>
          rw [length_cons] at hlen hpolls
          exact outcome_settled g polls _ _ hreads hno (by omega)

/-! ## Two splittings -/

/-- Pieces that make up the bytes. -/
structure Splits (b : Bytes) (ps : List ReadResult) : Prop where
  pieces : ∀ r ∈ ps, Piece r
  whole : dataOf ps = b

/-- How many bytes are read when the client is done with: those up to the end of the poll that has
the newline, at `nl`, unless the guard or the end of the stream comes first. -/
def reach (nl : Nat) : Nat → List ReadResult → Nat
  | n, [] => n
  | n, .data b :: rs => if 512 < n + b.length then n + b.length else reach nl (n + b.length) rs
  | n, .wouldBlock :: rs => if nl < n then n else reach nl n rs
  | n, .interrupted :: rs => reach nl n rs
  | n, .eof :: _ => n
  | n, .error :: _ => n

theorem dataOf_append (h : ∀ r ∈ ps, Piece r) (qs : List ReadResult) :
    dataOf (ps ++ qs) = dataOf ps ++ dataOf qs := by
  induction ps with
  | nil => rfl
  | cons r ps ih =>
    obtain ⟨hr, hps⟩ := forall_mem_cons.mp h
    cases r with
    | data b => rw [cons_append, dataOf, dataOf, if_neg hr.1, if_neg hr.1, ih hps, append_assoc]
    | wouldBlock | interrupted => exact ih hps
    | eof | error => exact absurd hr id

theorem dataOf_ending (h : ∀ r ∈ ps, Piece r) (closes : Bool) :
    dataOf (ps ++ ending closes) = dataOf ps := by
  rw [dataOf_append h]
  cases closes <;> exact append_nil _

theorem Reads.of_splits (h : ∀ r ∈ ps, Piece r) (closes : Bool) :
    Reads (ps ++ ending closes) := by
  intro r hr
  rcases mem_append.mp hr with hmem | hmem
  · exact .inr (h r hmem)
  · cases closes with
    | false => exact absurd hmem not_mem_nil
    | true => exact .inl (mem_singleton.mp hmem)

/-- **Where the reading stops, if there is a newline**: `reach` bytes are read, and the stream has
the others to say. -/
theorem settled_of_newline (hnl : newline b = some nl) (closes : Bool) :
    ∀ (ps : List ReadResult) (buf : Bytes), (∀ r ∈ ps, Piece r) → buf ++ dataOf ps = b →
    ∃ rs n, settled (ps ++ ending closes) buf = some (rs, b.take n) ∧ dataOf rs = b.drop n ∧
      size rs ≤ size (ps ++ ending closes) ∧ n = reach nl buf.length (ps ++ ending closes) ∧
      n ≤ b.length
  | [], buf, _, hb => by
    have hbuf : buf = b := by rw [← hb]; exact (append_nil _).symm
    subst hbuf
    refine ⟨[], buf.length, ?_, ?_, Nat.zero_le _, ?_, Nat.le_refl _⟩
    · rw [take_length]
      cases closes with
      | false => exact if_pos (mem_of_newline hnl)
      | true => rfl
    · rw [drop_length]
      rfl
    · cases closes <;> rfl
  | r :: ps, buf, h, hb => by
    have htail : ∀ r' ∈ ps, Piece r' := fun r' hr' => h r' (mem_cons_of_mem _ hr')
    have hr := h r mem_cons_self
    have hsmaller : ∀ {k : Nat}, k ≤ size (ps ++ ending closes) →
        k ≤ size (r :: ps ++ ending closes) := fun hk => by
      rw [cons_append, size_cons]
      omega
    -- the reading stops behind some bytes `front`
    have hstop : ∀ front : Bytes, front ++ dataOf ps = b →
        (some (ps ++ ending closes, front) : Option (List ReadResult × Bytes)) =
            some (ps ++ ending closes, b.take front.length) ∧
          dataOf (ps ++ ending closes) = b.drop front.length ∧ front.length ≤ b.length := by
      rintro front rfl
      rw [take_left, drop_left, dataOf_ending htail, length_append]
      exact ⟨rfl, rfl, Nat.le_add_right _ _⟩
    cases r with
    | data d =>
      have hb' : (buf ++ d) ++ dataOf ps = b := by
        rw [← hb, dataOf, if_neg hr.1, append_assoc]
      rw [cons_append, settled, reach, ← length_append]
      split
      · obtain ⟨hset, hrest, hle⟩ := hstop (buf ++ d) hb'
        exact ⟨_, _, hset, hrest, hsmaller (Nat.le_refl _), rfl, hle⟩
      obtain ⟨rs, n, hset, hrest, hsize, hn, hle⟩ :=
        settled_of_newline hnl closes ps (buf ++ d) htail hb'
      exact ⟨rs, n, hset, hrest, hsmaller hsize, hn, hle⟩
    | wouldBlock =>
      have hfront : 10 ∈ buf ↔ nl < buf.length := by
        have htake := newline_take hnl buf.length
        rw [← hb, take_left] at htake
        by_cases hlt : nl < buf.length
        · rw [if_pos hlt] at htake
          exact ⟨fun _ => hlt, fun _ => mem_of_newline htake⟩
        · rw [if_neg hlt] at htake
          exact ⟨fun hmem => absurd hmem (newline_eq_none_iff.mp htake), fun h' => absurd h' hlt⟩
      rw [cons_append, settled, reach]
      by_cases hmem : 10 ∈ buf
      · obtain ⟨hset, hrest, hle⟩ := hstop buf hb
        rw [if_pos hmem, if_pos (hfront.mp hmem)]
        exact ⟨_, _, hset, hrest, hsmaller (Nat.le_refl _), rfl, hle⟩
      obtain ⟨rs, n, hset, hrest, hsize, hn, hle⟩ :=
        settled_of_newline hnl closes ps buf htail hb
      rw [if_neg hmem, if_neg fun h' => hmem (hfront.mpr h')]
      exact ⟨rs, n, hset, hrest, hsmaller hsize, hn, hle⟩
    | interrupted =>
      obtain ⟨rs, n, hset, hrest, hsize, hn, hle⟩ :=
        settled_of_newline hnl closes ps buf htail hb
      exact ⟨rs, n, hset, hrest, hsmaller hsize, hn, hle⟩
    | eof | error => exact absurd hr id

theorem settled_of_no_newline (hno : 10 ∉ b) (closes : Bool) :
    ∀ (ps : List ReadResult) (buf : Bytes), (∀ r ∈ ps, Piece r) → buf ++ dataOf ps = b →
    buf.length ≤ 512 →
    (settled (ps ++ ending closes) buf = none ∧ ¬ (512 < b.length ∨ closes = true)) ∨
      ∃ rs buf', settled (ps ++ ending closes) buf = some (rs, buf') ∧ 10 ∉ buf' ∧
        (512 < b.length ∨ closes = true)
  | [], buf, _, hb, hbuf => by
    have hall : buf = b := by rw [← hb]; exact (append_nil _).symm
    subst hall
    cases closes with
    | false =>
      refine .inl ⟨if_neg hno, fun h => ?_⟩
      rcases h with h | h
      · omega
      · cases h
    | true => exact .inr ⟨[], buf, rfl, hno, .inr rfl⟩
  | r :: ps, buf, h, hb, hbuf => by
    have htail : ∀ r' ∈ ps, Piece r' := fun r' hr' => h r' (mem_cons_of_mem _ hr')
    have hr := h r mem_cons_self
    cases r with
    | data d =>
      have hb' : (buf ++ d) ++ dataOf ps = b := by
        rw [← hb, dataOf, if_neg hr.1, append_assoc]
      rw [cons_append, settled]
      split
      next hguard =>
        refine .inr ⟨_, _, rfl, fun hmem => hno ?_, .inl ?_⟩
        · rw [← hb']
          exact mem_append_left _ hmem
        · rw [← hb', length_append]
          omega
      next hguard =>
        exact settled_of_no_newline hno closes ps (buf ++ d) htail hb' (by omega)
    | wouldBlock =>
      have hnone : 10 ∉ buf := fun hmem => hno (by rw [← hb]; exact mem_append_left _ hmem)
      rw [cons_append, settled, if_neg hnone]
      exact settled_of_no_newline hno closes ps buf htail hb hbuf
    | interrupted => exact settled_of_no_newline hno closes ps buf htail hb hbuf
    | eof | error => exact absurd hr id

/-- **What becomes of a client**, from the bytes it sends and how far the reading reaches. -/
theorem outcome_eq {g : Guest} (hroom : g.bufAlloc ≠ 0) (hs : Splits b ps) (closes : Bool)
    (hpasses : size (ps ++ ending closes) ≤ g.passes) {polls : Nat}
    (hpolls : (ps ++ ending closes).length < polls) :
    outcome g polls (client (ps ++ ending closes)) =
      match newline b with
      | none => if 512 < b.length ∨ closes = true then .dropped else .waiting
      | some nl =>
        match connectPort (b.take nl) with
        | none => .dropped
        | some guestPort =>
          if nl < reach nl 0 (ps ++ ending closes) then
            .connected guestPort (b.drop (reach nl 0 (ps ++ ending closes)))
          else .dropped := by
  unfold client
  rw [outcome_settled g polls _ [] (.of_splits hs.pieces closes) not_mem_nil hpolls]
  cases hnl : newline b with
  | none =>
    rcases settled_of_no_newline (newline_eq_none_iff.mp hnl) closes ps [] hs.pieces hs.whole
      (Nat.zero_le _) with ⟨hset, hno⟩ | ⟨rs, buf, hset, hbuf, hyes⟩
    · rw [hset]
      exact (if_neg hno).symm
    · rw [hset]
      dsimp only
      unfold judge
      rw [newline_eq_none_iff.mpr hbuf]
      exact (if_pos hyes).symm
  | some nl =>
    obtain ⟨rs, n, hset, hrest, hsize, hn, -⟩ :=
      settled_of_newline hnl closes ps [] hs.pieces hs.whole
    rw [length_nil] at hn
    rw [hset]
    dsimp only
    rw [← hn]
    unfold judge
    rw [newline_take hnl]
    by_cases hlt : nl < n
    · rw [if_pos hlt]
      dsimp only
      rw [take_take, Nat.min_eq_left (Nat.le_of_lt hlt)]
      cases connectPort (b.take nl) with
      | none => rfl
      | some guestPort =>
        dsimp only
        rw [if_pos hlt, passes_accepted hroom guestPort g.hostPort _ (hsize.trans hpasses), hrest]
    · rw [if_neg hlt]
      cases connectPort (b.take nl) with
      | none => rfl
      | some guestPort => exact (if_neg hlt).symm

def Independent (b : Bytes) (o o' : Outcome) : Prop :=
  o = o' ∧ ∀ guestPort payload, o = .connected guestPort payload →
    ∀ nl ∈ newline b, payload = b.drop (nl + 1)

/-- **The handshake does not depend on how the bytes are split**, exactly if they are no CONNECT
line, or both splittings end a poll right behind the newline, or the guard comes before the newline
in both. -/
theorem connect_independent_iff {g : Guest} (hroom : g.bufAlloc ≠ 0) {b : Bytes}
    {ps ps' : List ReadResult} (hs : Splits b ps) (hs' : Splits b ps') (closes : Bool)
    (hpasses : size (ps ++ ending closes) ≤ g.passes)
    (hpasses' : size (ps' ++ ending closes) ≤ g.passes) {polls polls' : Nat}
    (hpolls : (ps ++ ending closes).length < polls)
    (hpolls' : (ps' ++ ending closes).length < polls') :
    Independent b (outcome g polls (client (ps ++ ending closes)))
        (outcome g polls' (client (ps' ++ ending closes))) ↔
      ∀ nl ∈ newline b, (connectPort (b.take nl)).isSome = true →
        (reach nl 0 (ps ++ ending closes) = nl + 1 ∧ reach nl 0 (ps' ++ ending closes) = nl + 1) ∨
        (reach nl 0 (ps ++ ending closes) ≤ nl ∧ reach nl 0 (ps' ++ ending closes) ≤ nl) := by
  rw [outcome_eq hroom hs closes hpasses hpolls, outcome_eq hroom hs' closes hpasses' hpolls']
  unfold Independent
  cases hnl : newline b with
  | none =>
    refine ⟨fun _ nl h => absurd h (Option.some_ne_none nl).symm, fun _ => ⟨rfl, ?_⟩⟩
    intro guestPort payload h nl hmem
    exact absurd hmem (Option.some_ne_none nl).symm
  | some nl =>
    have hat : ∀ {p : Nat → Prop}, (∀ k ∈ (some nl : Option Nat), p k) ↔ p nl :=
      ⟨fun h => h nl rfl, fun h k hk => Option.some.inj hk ▸ h⟩
    simp only [hat]
    cases connectPort (b.take nl) with
    | none =>
      refine ⟨fun _ h => absurd h Bool.false_ne_true, fun _ => ⟨rfl, ?_⟩⟩
      intro guestPort payload h
      cases h
    | some port =>
      obtain ⟨-, n, -, -, -, hn, hle⟩ := settled_of_newline hnl closes ps [] hs.pieces hs.whole
      obtain ⟨-, n', -, -, -, hn', hle'⟩ :=
        settled_of_newline hnl closes ps' [] hs'.pieces hs'.whole
      rw [length_nil] at hn hn'
      rw [← hn, ← hn']
      dsimp only
      -- the bytes behind two places are the same only if the places are
      have hdrop : ∀ {i j : Nat}, i ≤ b.length → j ≤ b.length → b.drop i = b.drop j → i = j := by
        intro i j hi hj heq
        have hlen := congrArg List.length heq
        rw [length_drop, length_drop] at hlen
        omega
      constructor
      · rintro ⟨hsame, hall⟩ -
        by_cases h : nl < n
        · rw [if_pos h] at hsame hall
          have hend := hdrop hle (by omega) (hall port _ rfl)
          by_cases h' : nl < n'
          · rw [if_pos h'] at hsame
            injection hsame with _ hpayload
            exact .inl ⟨hend, (hdrop hle hle' hpayload).symm.trans hend⟩
          · rw [if_neg h'] at hsame
            cases hsame
        · rw [if_neg h] at hsame
          by_cases h' : nl < n'
          · rw [if_pos h'] at hsame
            cases hsame
          · exact .inr ⟨by omega, by omega⟩
      · intro h
        rcases h rfl with ⟨rfl, rfl⟩ | ⟨hbefore, hbefore'⟩
        · refine ⟨rfl, fun guestPort payload heq => ?_⟩
          rw [if_pos (Nat.lt_succ_self nl)] at heq
          injection heq with _ hpayload
          exact hpayload.symm
        · rw [if_neg (by omega), if_neg (by omega)]
          refine ⟨rfl, fun guestPort payload heq => ?_⟩
          cases heq

def hello : Bytes := "CONNECT 80\n".toUTF8.toList ++ [1, 2]

def roomy : Guest := ⟨32, 65536, 1024⟩

theorem connect_independent_hello : ∃ ps ps', Splits hello ps ∧ Splits hello ps' ∧
    outcome roomy 9 (client (ps ++ ending true)) = .connected 80 [1, 2] ∧
    Independent hello (outcome roomy 9 (client (ps ++ ending true)))
      (outcome roomy 9 (client (ps' ++ ending true))) := by
  have hs : Splits hello [.data (hello.take 11), .wouldBlock, .data [1, 2]] :=
    ⟨by decide +kernel, by decide +kernel⟩
  have hs' : Splits hello [.data (hello.take 4), .wouldBlock, .interrupted,
      .data ((hello.drop 4).take 7), .wouldBlock, .data [1], .data [2]] :=
    ⟨by decide +kernel, by decide +kernel⟩
  exact ⟨_, _, hs, hs', by decide +kernel, (connect_independent_iff (by decide) hs hs' true
    (by decide +kernel) (by decide +kernel) (by decide) (by decide)).mpr (by decide +kernel)⟩

/-- **Bytes that are read together with the newline are lost**: the same bytes, in one piece and
with the payload in a poll of its own. -/
theorem bytes_with_newline_lost : ∃ ps ps', Splits hello ps ∧ Splits hello ps' ∧
    outcome roomy 9 (client (ps ++ ending true)) = .connected 80 [] ∧
    outcome roomy 9 (client (ps' ++ ending true)) = .connected 80 [1, 2] ∧
    ¬ Independent hello (outcome roomy 9 (client (ps ++ ending true)))
      (outcome roomy 9 (client (ps' ++ ending true))) := by
  have hs : Splits hello [.data hello] := ⟨by decide +kernel, by decide +kernel⟩
  have hs' : Splits hello [.data (hello.take 11), .wouldBlock, .data [1, 2]] :=
    ⟨by decide +kernel, by decide +kernel⟩
  have hlost : outcome roomy 9 (client ([.data hello] ++ ending true)) = .connected 80 [] := by
    decide +kernel
  have hgot : outcome roomy 9 (client ([.data (hello.take 11), .wouldBlock, .data [1, 2]] ++
      ending true)) = .connected 80 [1, 2] := by decide +kernel
  refine ⟨_, _, hs, hs', hlost, hgot, fun h => ?_⟩
  have heq := h.1
  rw [hlost, hgot] at heq
  cases heq

end Ignition.Devices.Handshake
