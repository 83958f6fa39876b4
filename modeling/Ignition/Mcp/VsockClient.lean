import Ignition.Devices.VsockConnect

/-!
# Clients of the guest's ports

`exec` of `vsock_client.rs` runs a command in the guest, and `try_push` of `boot.rs` gives a restored
guest new entropy. Both send their `CONNECT` line to the control socket and wait for the answer
before they write anything else. So however their bytes are cut into reads, the poll that finds the
newline finds nothing behind it, and the guest gets all they send.
-/

namespace Ignition.Mcp.VsockClient

open Ignition.Vmm Ignition.Devices Connection Handshake List

def EXEC_PORT : Nat := 7000

def VMID_PORT : Nat := 9000

def connectLine (port : Nat) : Bytes := ("CONNECT " ++ toString port ++ "\n").toUTF8.toList

/-- What the muxer gets to read from a client that waits: the line, nothing as long as there is no
answer, and the payload. -/
def reads (line payload : List ReadResult) : List ReadResult := line ++ .wouldBlock :: payload

variable {ps qs : List ReadResult}

theorem reach_line {nl : Nat} (hnl : nl < 512) (rest : List ReadResult) :
    ∀ {ps : List ReadResult} {n : Nat}, (∀ r ∈ ps, Piece r) → n + (dataOf ps).length = nl + 1 →
    reach nl n (ps ++ .wouldBlock :: rest) = nl + 1
  | [], n, _, h => (if_pos (Nat.lt_of_lt_of_eq (Nat.lt_succ_self nl) h.symm)).trans h
  | r :: ps, n, hps, h => by
    obtain ⟨hr, hps⟩ := forall_mem_cons.mp hps
    have ih := fun n => @reach_line nl hnl rest ps n hps
    cases r with
    | data b =>
      rw [dataOf, if_neg hr.1, length_append] at h
      rw [cons_append, reach, if_neg (by omega)]
      exact ih _ (by omega)
    | wouldBlock =>
      rw [dataOf] at h
      rw [cons_append, reach]
      split
      · omega
      · exact ih n h
    | interrupted => exact ih n h
    | eof | error => exact absurd hr id

/-- **A client that waits for its answer loses nothing**, however its line and its payload are cut
into reads. -/
theorem payload_delivered {g : Guest} {port : Nat} {payload : Bytes} {closes : Bool} {polls : Nat}
    (hport : port = EXEC_PORT ∨ port = VMID_PORT) (hroom : g.bufAlloc ≠ 0)
    (hline : Splits (connectLine port) ps) (hpayload : Splits payload qs)
    (hpasses : size (reads ps qs ++ ending closes) ≤ g.passes)
    (hpolls : (reads ps qs ++ ending closes).length < polls) :
    outcome g polls (client (reads ps qs ++ ending closes)) =
      .connected (UInt32.ofNat port) payload := by
  obtain ⟨nl, hnl, hlen, hshort, hnum⟩ : ∃ nl, newline (connectLine port) = some nl ∧
      (connectLine port).length = nl + 1 ∧ nl < 512 ∧
      Muxer.connectPort ((connectLine port).take nl) = some (UInt32.ofNat port) := by
    rcases hport with rfl | rfl <;> exact ⟨12, by decide +kernel⟩
  have hall : Splits (connectLine port ++ payload) (reads ps qs) := by
    refine ⟨fun r hr => ?_, ?_⟩
    · rcases mem_append.mp hr with hr | hr
      · exact hline.pieces r hr
      rcases mem_cons.mp hr with rfl | hr
      · trivial
      · exact hpayload.pieces r hr
    · rw [reads, dataOf_append hline.pieces, hline.whole, dataOf, hpayload.whole]
  have hfirst : newline (connectLine port ++ payload) = some nl := by
    unfold newline at hnl ⊢
    rw [findIdx?_append, hnl, Option.some_or]
  have hreach : reach nl 0 (reads ps qs ++ ending closes) = nl + 1 := by
    rw [reads, append_assoc, cons_append]
    refine reach_line hshort _ hline.pieces ?_
    rw [hline.whole, hlen, Nat.zero_add]
  rw [outcome_eq hroom hall closes hpasses hpolls, hfirst]
  dsimp only
  rw [take_append_of_le_length (by omega), hnum, hreach]
  dsimp only
  rw [if_pos (Nat.lt_succ_self nl), ← hlen, drop_left]

theorem payload_delivered_exec :
    outcome roomy 9 (client (reads [.data ((connectLine EXEC_PORT).take 4), .wouldBlock,
      .data ((connectLine EXEC_PORT).drop 4)] [.data [3, 0], .wouldBlock, .data [0, 0, 7, 8, 9]] ++
      ending false)) = .connected 7000 [3, 0, 0, 0, 7, 8, 9] :=
  payload_delivered (.inl rfl) (by decide) ⟨by decide +kernel, by decide +kernel⟩
    ⟨by decide, by decide⟩ (by decide +kernel) (by decide)

end Ignition.Mcp.VsockClient
