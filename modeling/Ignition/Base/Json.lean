import Mathlib.Algebra.Group.Nat.Defs

/-!
# JSON values

Values as a parser hands them over, and the three ways to look into them that code which decodes by
hand uses: the value of a key, a number as an unsigned word, the elements of an array. Each of them
fails on a value of another kind.

`u64Field` and `arrayField` look up a key and report a text of the caller's if there is nothing fit.
-/

namespace Json

open List

inductive Number where
  | posInt (n : UInt64)
  | negInt (n : Int64)
  | float (bits : UInt64)

inductive Value where
  | null
  | bool (b : Bool)
  | number (n : Number)
  | string (s : String)
  | array (vs : List Value)
  | object (fields : List (String × Value))

namespace Value

def get (v : Value) (key : String) : Option Value :=
  match v with
  | .object fields => fields.lookup key
  | _ => none

def asU64 : Value → Option Nat
  | .number (.posInt n) => some n.toNat
  | _ => none

def asArray : Value → Option (List Value)
  | .array vs => some vs
  | _ => none

def u64Field (v : Value) (key : String) (missing : String) : Except String Nat :=
  match (v.get key).bind asU64 with
  | some n => .ok n
  | none => .error missing

def arrayField (v : Value) (key : String) (missing : String) : Except String (List Value) :=
  match (v.get key).bind asArray with
  | some vs => .ok vs
  | none => .error missing

def ofNat (n : Nat) : Value := .number (.posInt (UInt64.ofNat n))

theorem u64Field_of_get {v : Value} {key missing : String} {n : Nat} (h : v.get key = some (ofNat n))
    (hn : n < 2 ^ 64) : v.u64Field key missing = .ok n := by
  have hword : (UInt64.ofNat n).toNat = n := UInt64.toNat_ofNat_of_lt' hn
  unfold u64Field
  rw [h]
  exact congrArg Except.ok hword

theorem arrayField_of_get {v : Value} {key missing : String} {vs : List Value}
    (h : v.get key = some (.array vs)) : v.arrayField key missing = .ok vs := by
  unfold arrayField
  rw [h]
  rfl

end Value

/-! ## Decoding that succeeds -/

variable {α β : Type}

theorem ok_of_bind {x : Except String α} {f : α → Except String β} {b : β}
    (h : x >>= f = .ok b) : ∃ a, x = .ok a ∧ f a = .ok b := by
  cases x with
  | error msg => cases h
  | ok a => exact ⟨a, rfl, h⟩

theorem ok_of_mapM {f : α → Except String β} : ∀ {l : List α} {l' : List β}, l.mapM f = .ok l' →
    ∀ b ∈ l', ∃ a ∈ l, f a = .ok b
  | [], l', h, b, hb => by
    obtain rfl : [] = l' := Except.ok.inj h
    exact absurd hb not_mem_nil
  | a :: l, l', h, b, hb => by
    rw [mapM_cons] at h
    obtain ⟨b', hb', h⟩ := ok_of_bind h
    obtain ⟨bs, hbs, h⟩ := ok_of_bind h
    obtain rfl : b' :: bs = l' := Except.ok.inj h
    rcases mem_cons.mp hb with rfl | hb
    · exact ⟨a, mem_cons_self, hb'⟩
    · obtain ⟨a', ha', hok⟩ := ok_of_mapM hbs b hb
      exact ⟨a', mem_cons_of_mem _ ha', hok⟩

theorem mapM_ok {f : α → Except String β} {g : α → β} : ∀ {l : List α},
    (∀ a ∈ l, f a = .ok (g a)) → l.mapM f = .ok (l.map g)
  | [], _ => rfl
  | a :: l, h => by
    rw [mapM_cons, h a mem_cons_self, mapM_ok fun a' ha' => h a' (mem_cons_of_mem _ ha')]
    rfl

end Json
