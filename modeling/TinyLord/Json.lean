import Mathlib.Data.List.Basic

/-!
# JSON values, as `serde_json` holds them

An object is a `BTreeMap`, so its fields are a list in key order. A number is one of the
three forms of `serde_json::Number`; a float is the bit pattern of a finite `f64`.
-/

namespace TinyLord

inductive Number where
  | posInt (n : Nat)
  | negInt (n : Int)
  | float (bits : BitVec 64)
  deriving DecidableEq, Repr

inductive Json where
  | null
  | bool (b : Bool)
  | number (n : Number)
  | string (s : String)
  | array (items : List Json)
  | object (fields : List (String × Json))
  deriving Repr

/-- `==` on finite `f64`: the same bits, or two zeros of either sign. -/
def floatEq (a b : BitVec 64) : Bool := a == b || (a <<< 1 == 0 && b <<< 1 == 0)

/-- The three forms of a number are never equal to each other: `1` is not `1.0`. -/
def Number.eqv : Number → Number → Bool
  | .posInt a, .posInt b => a == b
  | .negInt a, .negInt b => a == b
  | .float a, .float b => floatEq a b
  | _, _ => false

/-! ## Equality of values (`serde_json`'s `PartialEq`) -/

mutual

def Json.eqv : Json → Json → Bool
  | .null, .null => true
  | .bool a, .bool b => a == b
  | .number a, .number b => a.eqv b
  | .string a, .string b => a == b
  | .array xs, .array ys => eqvItems xs ys
  | .object xs, .object ys => eqvFields xs ys
  | _, _ => false

def eqvItems : List Json → List Json → Bool
  | [], [] => true
  | x :: xs, y :: ys => x.eqv y && eqvItems xs ys
  | _, _ => false

def eqvFields : List (String × Json) → List (String × Json) → Bool
  | [], [] => true
  | (k, x) :: xs, (l, y) :: ys => k == l && x.eqv y && eqvFields xs ys
  | _, _ => false

end

/-! ## Text and back

A document is stored as text. What `serde_json` has printed it reads again, but its reader is not
exact on every float: `readFloat` is the float it makes of the text of a float. -/

section

variable (readFloat : BitVec 64 → BitVec 64)

mutual

def Json.reread : Json → Json
  | .number (.float bits) => .number (.float (readFloat bits))
  | .array items => .array (rereadItems items)
  | .object fields => .object (rereadFields fields)
  | v => v

def rereadItems : List Json → List Json
  | [] => []
  | x :: xs => x.reread :: rereadItems xs

def rereadFields : List (String × Json) → List (String × Json)
  | [] => []
  | (k, x) :: xs => (k, x.reread) :: rereadFields xs

end

mutual

/-- Every float in it reads back as itself. -/
def Json.survives : Json → Bool
  | .number (.float bits) => readFloat bits == bits
  | .array items => survivesItems items
  | .object fields => survivesFields fields
  | _ => true

def survivesItems : List Json → Bool
  | [] => true
  | x :: xs => x.survives && survivesItems xs

def survivesFields : List (String × Json) → Bool
  | [] => true
  | (_, x) :: xs => x.survives && survivesFields xs

end

variable {readFloat}

mutual

theorem Json.reread_of_survives : ∀ v : Json, v.survives readFloat = true → v.reread readFloat = v
  | .null, _ | .bool _, _ | .string _, _ => rfl
  | .number (.posInt _), _ | .number (.negInt _), _ => rfl
  | .number (.float _), h => by
    rw [Json.survives, beq_iff_eq] at h
    rw [Json.reread, h]
  | .array items, h => by rw [Json.reread, rereadItems_of_survives items h]
  | .object fields, h => by rw [Json.reread, rereadFields_of_survives fields h]

theorem rereadItems_of_survives :
    ∀ xs : List Json, survivesItems readFloat xs = true → rereadItems readFloat xs = xs
  | [], _ => rfl
  | x :: xs, h => by
    rw [survivesItems, Bool.and_eq_true] at h
    rw [rereadItems, x.reread_of_survives h.1, rereadItems_of_survives xs h.2]

theorem rereadFields_of_survives : ∀ xs : List (String × Json),
    survivesFields readFloat xs = true → rereadFields readFloat xs = xs
  | [], _ => rfl
  | (_, x) :: xs, h => by
    rw [survivesFields, Bool.and_eq_true] at h
    rw [rereadFields, x.reread_of_survives h.1, rereadFields_of_survives xs h.2]

end

end

/-- `Value::get`: the field of an object, nothing for any other value. -/
def Json.get (v : Json) (key : String) : Option Json :=
  match v with
  | .object fields => (fields.find? (·.1 == key)).map (·.2)
  | _ => none

end TinyLord
