import Ignition.Devices.Service

/-!
# virtio-input

`VirtioInput` of `input.rs`, a keyboard or an absolute tablet. Events are written one to a chain,
into the first descriptor that is writable and long enough; what comes on the status queue is
acknowledged. The guest asks for names, event bits and axis ranges through a window of config
space that it steers by writing `select` and `subsel`.
-/

namespace Ignition.Devices

open Paged Ignition.Vmm List

def CFG_ID_NAME : UInt8 := 0x01
def CFG_EV_BITS : UInt8 := 0x11
def CFG_ABS_INFO : UInt8 := 0x12

def EV_KEY : UInt8 := 1
def EV_REL : UInt8 := 2
def EV_ABS : UInt8 := 3
def REL_WHEEL : Nat := 8
def ABS_X : Nat := 0
def ABS_Y : Nat := 1
def TABLET_ABS_MAX : Nat := 32767
def BTN_LEFT : Nat := 0x110
def BTN_RIGHT : Nat := 0x111
def BTN_MIDDLE : Nat := 0x112

/-- `set_bit`: nothing happens beyond the bitmap. -/
def setBit (bitmap : Bytes) (code : Nat) : Bytes :=
  bitmap.modify (code / 8) (· ||| UInt8.ofNat (2 ^ (code % 8)))

structure InputEvent where
  etype : Nat
  code : Nat
  value : Nat

def InputEvent.toLeBytes (ev : InputEvent) : Bytes :=
  leBytes 2 ev.etype ++ leBytes 2 ev.code ++ leBytes 4 ev.value

inductive Flavor where
  | keyboard
  | tablet
  deriving DecidableEq

structure VirtioInput where
  flavor : Flavor
  select : UInt8
  subsel : UInt8
  deriving DecidableEq

namespace VirtioInput

def new (flavor : Flavor) : VirtioInput := ⟨flavor, 0, 0⟩

def target (ds : List Desc) : Option Desc := ds.find? fun d => d.writable && 8 ≤ d.len

/-- One round of `VirtioInput::fill_events`. The result of the write is not looked at. -/
def deliver (ev : InputEvent) : Service VirtioInput := fun input mem chain =>
  match target chain.descriptors with
  | some d =>
    match mem.writeSlice d.addr ev.toLeBytes with
    | (mem', true) => ⟨input, mem', 8, [(d, 8)]⟩
    | (mem', false) => ⟨input, mem', 8, []⟩
  | none => ⟨input, mem, 0, []⟩

def fillEvents : Loop VirtioInput → List InputEvent → Loop VirtioInput × Bool
  | l, [] => (l, false)
  | l, ev :: evs =>
    match l.vq.popAvail l.mem with
    | (vq, none) => ({ l with vq := vq }, false)
    | (vq, some chain) =>
      let (l', any) := fillEvents (serve (deliver ev) l vq chain) evs
      (l', (target chain.descriptors).isSome || any)

def selected (input : VirtioInput) : Bytes × Nat :=
  let u := List.replicate 128 0
  if input.select = CFG_ID_NAME then
    let name := match input.flavor with
      | .keyboard => "ignition-keyboard".toUTF8.toList
      | .tablet => "ignition-tablet".toUTF8.toList
    (copyInto u 0 name, name.length)
  else if input.select = CFG_EV_BITS then
    match input.flavor with
    | .keyboard =>
      if input.subsel = EV_KEY then ((range' 1 127).foldl setBit u, 16) else (u, 0)
    | .tablet =>
      if input.subsel = EV_KEY then ([BTN_LEFT, BTN_RIGHT, BTN_MIDDLE].foldl setBit u, 35)
      else if input.subsel = EV_ABS then ([ABS_X, ABS_Y].foldl setBit u, 1)
      else if input.subsel = EV_REL then (setBit u REL_WHEEL, 2)
      else (u, 0)
  else if input.select = CFG_ABS_INFO then
    match input.flavor with
    | .tablet =>
      if input.subsel.toNat = ABS_X ∨ input.subsel.toNat = ABS_Y then
        (copyInto u 4 (leBytes 4 TABLET_ABS_MAX), 20)
      else (u, 0)
    | .keyboard => (u, 0)
  else (u, 0)

def configImage (input : VirtioInput) : Bytes :=
  let (u, size) := input.selected
  [input.select, input.subsel, UInt8.ofNat size, 0, 0, 0, 0, 0] ++ u

def configRead (input : VirtioInput) (offset : Nat) (data : Bytes) : Bytes :=
  serveConfig input.configImage offset data

def configWrite (input : VirtioInput) (offset : Nat) : Bytes → VirtioInput
  | [] => input
  | byte :: data =>
    let input' :=
      if offset = 0 then { input with select := byte }
      else if offset = 1 then { input with subsel := byte }
      else input
    configWrite input' (offset + 1) data

/-! ## What an event writes -/

theorem length_toLeBytes (ev : InputEvent) : ev.toLeBytes.length = 8 := by
  unfold InputEvent.toLeBytes
  rw [length_append, length_append, length_leBytes, length_leBytes, length_leBytes]

theorem target_spec {ds : List Desc} {d : Desc} (h : target ds = some d) :
    d ∈ ds ∧ d.writable = true ∧ 8 ≤ d.len := by
  have hd := find?_some h
  rw [Bool.and_eq_true, decide_eq_true_eq] at hd
  exact ⟨mem_of_find?_eq_some h, hd⟩

theorem deliver_sound (ev : InputEvent) (input : VirtioInput) (mem : GuestRam) (chain : DescChain) :
    (deliver ev input mem chain).Sound mem chain.descriptors := by
  unfold deliver
  split
  next d hd =>
    obtain ⟨hin, hwritable, hlen⟩ := target_spec hd
    have hw := GuestRam.changesIn_writeSlice mem d.addr ev.toLeBytes
    split
    next mem' heq =>
      rw [heq] at hw
      refine ⟨changesIn_logged_cons hw (.refl _ mem'), fun w hmem => ?_⟩
      obtain rfl := mem_singleton.mp hmem
      exact ⟨hin, hwritable, hlen⟩
    next mem' heq =>
      obtain rfl := GuestRam.eq_of_writeSlice_false heq
      exact .nil input mem' 8 _
  · exact .nil input mem 0 _

theorem deliver_len (ev : InputEvent) (input : VirtioInput) (mem : GuestRam) (chain : DescChain) :
    (deliver ev input mem chain).len = (if (target chain.descriptors).isSome then 8 else 0) ∧
      intoWritable (deliver ev input mem chain).log =
        match target chain.descriptors with
        | some d => if mem.contains d.addr 8 then 8 else 0
        | none => 0 := by
  unfold deliver
  split
  next d hd =>
    obtain ⟨-, hwritable, hlen⟩ := target_spec hd
    have hsnd := mem.writeSlice_snd d.addr ev.toLeBytes
    rw [length_toLeBytes] at hsnd
    rw [hd]
    split
    next mem' heq =>
      rw [heq] at hsnd
      refine ⟨rfl, ?_⟩
      rw [if_pos hsnd.symm, intoWritable_cons, if_pos hwritable, intoWritable_nil]
      exact Nat.min_eq_left hlen
    next mem' heq =>
      rw [heq] at hsnd
      refine ⟨rfl, ?_⟩
      rw [if_neg (by rw [← hsnd]; exact Bool.false_ne_true)]
      rfl
  next hnone =>
    rw [hnone]
    exact ⟨rfl, rfl⟩

/-! ## What the guest receives -/

/-- The chains the guest has posted, as `fill_events` comes to them. -/
def posted : Loop VirtioInput → List InputEvent → List DescChain
  | _, [] => []
  | l, ev :: evs =>
    match l.vq.popAvail l.mem with
    | (_, none) => []
    | (vq, some chain) => chain :: posted (serve (deliver ev) l vq chain) evs

/-- The used entries of length 8 in order, each with the number of the event that is in its
buffer. The first event has number `i`. -/
def received : Nat → Loop VirtioInput → List InputEvent → List (Option Nat)
  | _, _, [] => []
  | i, l, ev :: evs =>
    match l.vq.popAvail l.mem with
    | (_, none) => []
    | (vq, some chain) =>
      let r := deliver ev l.dev l.mem chain
      let rest := received (i + 1) (serve (deliver ev) l vq chain) evs
      if r.len = 8 then (if intoWritable r.log = 8 then some i else none) :: rest else rest

def room (mem : GuestRam) (chain : DescChain) : Option Bool :=
  (target chain.descriptors).map fun d => mem.contains d.addr 8

theorem room_serve (ev : InputEvent) (l : Loop VirtioInput) (vq : Virtqueue) (chain : DescChain) :
    room (serve (deliver ev) l vq chain).mem = room l.mem := by
  have hsame : ∀ a n, (serve (deliver ev) l vq chain).mem.contains a n = l.mem.contains a n :=
    fun a n => ((Virtqueue.changesIn_pushUsed ..).contains a n).trans
      ((deliver_sound ev l.dev l.mem chain).covered.contains a n)
  funext c
  unfold room
  simp only [hsame]

theorem length_posted_le : ∀ (evs : List InputEvent) (l : Loop VirtioInput),
    (posted l evs).length ≤ evs.length
  | [], _ => Nat.le_refl 0
  | ev :: evs, l => by
    unfold posted
    split
    · exact Nat.zero_le _
    · exact Nat.succ_le_succ (length_posted_le evs _)

def numbered : Nat → List (Option Bool) → List (Option Nat)
  | _, [] => []
  | i, none :: rooms => numbered (i + 1) rooms
  | i, some ok :: rooms => (if ok then some i else none) :: numbered (i + 1) rooms

theorem received_eq : ∀ (evs : List InputEvent) (i : Nat) (l : Loop VirtioInput),
    received i l evs = numbered i ((posted l evs).map (room l.mem))
  | [], _, _ => rfl
  | ev :: evs, i, l => by
    unfold received posted
    split
    · rfl
    next vq chain _ =>
      obtain ⟨hlen, hlog⟩ := deliver_len ev l.dev l.mem chain
      dsimp only
      rw [hlen, hlog, received_eq evs, room_serve, map_cons]
      cases hd : target chain.descriptors with
      | none => simp [room, hd, numbered]
      | some d => cases hin : l.mem.contains d.addr 8 <;> simp [room, hd, hin, numbered]

theorem numbered_eq_nil_iff : ∀ (rooms : List (Option Bool)) (i : Nat),
    numbered i rooms = [] ↔ ∀ o ∈ rooms, o = none
  | [], _ => iff_of_true rfl (forall_mem_nil _)
  | none :: rooms, i => by simp [numbered, numbered_eq_nil_iff rooms]
  | some ok :: rooms, i => by simp [numbered]

theorem le_of_mem_numbered {j : Nat} : ∀ {rooms : List (Option Bool)} {i : Nat},
    some j ∈ numbered i rooms → i ≤ j
  | none :: _, _, h => Nat.le_of_succ_le (le_of_mem_numbered h)
  | some ok :: _, i, h => by
    rcases mem_cons.mp h with heq | h
    · cases ok with
      | false => cases heq
      | true =>
        cases heq
        exact Nat.le_refl _
    · exact Nat.le_of_succ_le (le_of_mem_numbered h)

theorem numbered_prefix_iff : ∀ (rooms : List (Option Bool)) (i m : Nat), rooms.length ≤ m →
    (numbered i rooms <+: (range' i m).map some ↔
      ∀ o ∈ rooms.dropWhile (· == some true), o = none)
  | [], _, _, _ => iff_of_true nil_prefix (forall_mem_nil _)
  | none :: rooms, i, m + 1, _ => by
    -- the next number is larger, so it cannot come first
    have hnil : numbered (i + 1) rooms <+: (range' i (m + 1)).map some ↔
        numbered (i + 1) rooms = [] := by
      refine ⟨fun hpre => ?_, fun hnil => hnil ▸ nil_prefix⟩
      cases hn : numbered (i + 1) rooms with
      | nil => rfl
      | cons x xs =>
        rw [hn, range'_succ, map_cons, cons_prefix_cons] at hpre
        have hmem : some i ∈ numbered (i + 1) rooms := by
          rw [hn, hpre.1]
          exact mem_cons_self
        exact absurd (le_of_mem_numbered hmem) (Nat.not_succ_le_self i)
    rw [numbered, hnil, numbered_eq_nil_iff]
    simp
  | some false :: rooms, i, m + 1, _ => by simp [numbered, range'_succ]
  | some true :: rooms, i, m + 1, h => by
    rw [numbered, if_pos rfl, range'_succ, map_cons, cons_prefix_cons, and_iff_right rfl,
      numbered_prefix_iff rooms (i + 1) m (Nat.le_of_succ_le_succ h)]
    rfl

def twoBuffers (len : Nat) : Loop VirtioInput :=
  ⟨.new .keyboard, .new 2 0x40000000 0x40000020 0x40000028,
    ((⟨0x40000000, List.replicate 80 0, by decide +kernel⟩ : GuestRam).writeSlice 0x40000000
      (leBytes 8 0x40000040 ++ leBytes 4 len ++ leBytes 2 2 ++ leBytes 2 0 ++
        leBytes 8 0x40000048 ++ leBytes 4 8 ++ leBytes 2 2 ++ leBytes 2 0 ++
        [0, 0, 2, 0, 0, 0, 1, 0])).1⟩

end VirtioInput

end Ignition.Devices
