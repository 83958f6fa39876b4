import Ignition.Base.Run
import Ignition.Devices.Input

/-!
# The keyboard layout of the guest

The guest has one xkb group for each entry of `LAYOUTS`, and every press of Scroll Lock takes it to
the next one. `App::sync_group` of `display_sink.rs` keeps a model of the guest's group. Before a
key is passed on it presses Scroll Lock as often as takes the model to the group of the layout in
use on the host, all in one batch, and the model follows if *any* event of the batch was delivered.

So the model is right as long as the guest has a buffer for every press of a batch, or none
(`group_in_sync`). With fewer it is wrong from then on (`group_lost`).
-/

namespace Ignition.Boot

open Ignition.Devices Runs List VirtioInput

def KEY_SCROLLLOCK : Nat := 70

def LAYOUTS : List (String × String) :=
  [("com.apple.keylayout.US", "us"), ("com.apple.keylayout.Russian", "ru"),
    ("com.apple.keylayout.German", "de"), ("com.apple.keylayout.French", "fr"),
    ("com.apple.keylayout.Spanish", "es"), ("com.apple.keylayout.Italian", "it"),
    ("com.apple.keylayout.Ukrainian", "ua"), ("com.apple.keylayout.Polish", "pl")]

def groupIndex (sourceId : String) : Nat :=
  (LAYOUTS.findIdx? fun layout => layout.1 == sourceId).getD 0

/-- `current_macos_group`, from what `current_source_id` gives. -/
def currentMacosGroup (sourceId : Option String) : Nat := (sourceId.map groupIndex).getD 0

def cycleCount (current target n : Nat) : Nat :=
  if n = 0 then 0 else (target + n - current % n) % n

def stroke : List InputEvent :=
  [⟨1, KEY_SCROLLLOCK, 1⟩, ⟨0, 0, 0⟩, ⟨1, KEY_SCROLLLOCK, 0⟩, ⟨0, 0, 0⟩]

def strokes (steps : Nat) : List InputEvent := (List.replicate steps stroke).flatten

def isPress (ev : InputEvent) : Bool :=
  ev.etype == 1 && ev.code == KEY_SCROLLLOCK && ev.value == 1

/-- `inject_input` on a keyboard that has so many well-formed buffers: the events that are
delivered, and whether there are any. -/
def injectInput (buffers : Nat) (evs : List InputEvent) : List InputEvent × Bool :=
  (evs.take buffers, !(evs.take buffers).isEmpty)

/-- The model of the guest's group, and the presses of Scroll Lock the guest has got. -/
structure Group where
  guestGroup : Nat
  pressed : Nat
  deriving DecidableEq

/-- A call of `sync_group`: the layout in use on the host, and the buffers the guest has. -/
structure Sync where
  sourceId : Option String
  buffers : Nat

def Group.steps (g : Group) (a : Sync) : Nat :=
  cycleCount g.guestGroup (currentMacosGroup a.sourceId) LAYOUTS.length

def syncGroup (g : Group) (a : Sync) : Option Group :=
  if g.steps a = 0 then some g
  else
    let (delivered, ok) := injectInput a.buffers (strokes (g.steps a))
    some {
      guestGroup := if ok then currentMacosGroup a.sourceId else g.guestGroup
      pressed := g.pressed + delivered.countP isPress }

def Group.InSync (g : Group) : Prop :=
  g.guestGroup % LAYOUTS.length = g.pressed % LAYOUTS.length

def Group.Fits (g : Group) (a : Sync) : Prop :=
  g.steps a = 0 ∨ a.buffers = 0 ∨ 4 * g.steps a ≤ a.buffers + 3

instance (g : Group) (a : Sync) : Decidable (g.Fits a) :=
  inferInstanceAs (Decidable (_ ∨ _ ∨ _))

/-! ## The device below -/

theorem numbered_of_room : ∀ {rooms : List (Option Bool)} {i : Nat}, (∀ o ∈ rooms, o = some true) →
    numbered i rooms = (range' i rooms.length).map some
  | [], _, _ => rfl
  | o :: rooms, i, h => by
    obtain ⟨rfl, hrest⟩ := forall_mem_cons.mp h
    rw [numbered, numbered_of_room hrest]
    rfl

theorem fillEvents_any : ∀ (evs : List InputEvent) (l : Loop VirtioInput),
    (fillEvents l evs).2 =
      (posted l evs).any fun c => (room l.mem c).isSome
  | [], _ => rfl
  | ev :: evs, l => by
    unfold fillEvents posted
    split
    · rfl
    next vq chain _ =>
      have ih := fillEvents_any evs (serve (deliver ev) l vq chain)
      rw [room_serve] at ih
      rw [any_cons, ← ih]
      dsimp only
      unfold room
      rw [Option.isSome_map]

/-! ## In step with the guest -/

theorem countP_strokes : ∀ (steps b : Nat),
    ((strokes steps).take b).countP isPress = (min b (4 * steps) + 3) / 4
  | 0, b => by rw [strokes, replicate_zero, flatten_nil, take_nil, countP_nil]; omega
  | steps + 1, 0 => by rw [take_zero, countP_nil]; omega
  | steps + 1, 1 | steps + 1, 2 | steps + 1, 3 => by
    show 1 = _
    omega
  | steps + 1, b + 4 => by
    have htake : (strokes (steps + 1)).take (b + 4) = stroke ++ (strokes steps).take b := rfl
    have hone : stroke.countP isPress = 1 := rfl
    rw [htake, countP_append, hone, countP_strokes steps b]
    omega

theorem syncGroup_inSync_iff {g g' : Group} {a : Sync} (h : g.InSync)
    (hst : syncGroup g a = some g') : g'.InSync ↔ g.Fits a := by
  have hsteps : g.steps a = (currentMacosGroup a.sourceId + 8 - g.guestGroup % 8) % 8 := rfl
  have hin : g.guestGroup % 8 = g.pressed % 8 := h
  unfold syncGroup at hst
  by_cases hzero : g.steps a = 0
  · rw [if_pos hzero] at hst
    cases hst
    exact ⟨fun _ => .inl hzero, fun _ => h⟩
  rw [if_neg hzero] at hst
  cases hst
  unfold Group.InSync Group.Fits
  dsimp only
  rw [countP_strokes]
  by_cases hb : a.buffers = 0
  · rw [hb, take_zero, Nat.zero_min]
    exact ⟨fun _ => .inr (.inl rfl), fun _ => h⟩
  · have hne : ((strokes (g.steps a)).take a.buffers).isEmpty = false := by
      obtain ⟨n, hn⟩ := Nat.exists_eq_succ_of_ne_zero hzero
      obtain ⟨b, hb⟩ := Nat.exists_eq_succ_of_ne_zero hb
      rw [hn, hb]
      rfl
    rw [hne, Bool.not_false, if_pos rfl]
    show currentMacosGroup a.sourceId % 8 = _ % 8 ↔ _
    omega

/-- **The model follows the guest** as long as every batch has a buffer for each press, or none. -/
theorem group_in_sync {as : List Sync} {g : Group} (h : Run syncGroup Group.Fits ⟨0, 0⟩ as g) :
    g.InSync :=
  h.invariant (fun _ _ _ hs hok hst => (syncGroup_inSync_iff hs hst).mpr hok) rfl

theorem group_in_sync_german : ∃ g,
    Run syncGroup Group.Fits ⟨0, 0⟩ [⟨some "com.apple.keylayout.German", 5⟩] g ∧ g.InSync ∧
      g.guestGroup = 2 := by
  obtain ⟨g, hrun, hg⟩ : ∃ g, Run syncGroup Group.Fits ⟨0, 0⟩
      [⟨some "com.apple.keylayout.German", 5⟩] g ∧ g.guestGroup = 2 := exists_run (by decide +kernel)
  exact ⟨g, hrun, group_in_sync hrun, hg⟩

theorem group_lost : ∃ g,
    Run syncGroup (fun _ _ => True) ⟨0, 0⟩ [⟨some "com.apple.keylayout.German", 1⟩] g ∧
      ¬ g.InSync :=
  ⟨⟨2, 1⟩, run_of_after (by decide +kernel), fun h => (nomatch (h : 2 = 1))⟩

end Ignition.Boot
