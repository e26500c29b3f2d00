import Mathlib.Algebra.Order.Ring.Int
import TinyLord.Json
import TinyLord.Lib.Sql.Expr

/-!
# SQLite values

The four storage classes a bound parameter or `json_extract` can give. Numbers compare by their
exact values, also an integer with a float, and every number is less than every text.
-/

open Lib.Sql

namespace TinyLord

/-- A float is the bit pattern of a finite `f64`. -/
inductive Value where
  | null
  | integer (i : Int)
  | real (bits : BitVec 64)
  | text (s : String)
  deriving DecidableEq, Repr

/-! ## Floats -/

/-- The value of a finite float times `2 ^ 1074`, which is an integer. -/
def floatScaled (bits : BitVec 64) : Int :=
  let exponent := bits.toNat / 2 ^ 52 % 2 ^ 11
  let fraction := bits.toNat % 2 ^ 52
  let magnitude : Nat := if exponent = 0 then fraction else (2 ^ 52 + fraction) * 2 ^ (exponent - 1)
  if bits.msb then -(magnitude : Int) else magnitude

def intScaled (i : Int) : Int := i * 2 ^ 1074

/-- `n as f64`: to the nearest, and to the even one of two that are as near. -/
def floatOfNat (n : Nat) : BitVec 64 :=
  if n = 0 then 0
  else
    let e := n.log2
    let significand :=
      if e ≤ 52 then n * 2 ^ (52 - e)
      else
        let unit := 2 ^ (e - 52)
        let q := n / unit
        let r := n % unit
        if unit < 2 * r ∨ (2 * r = unit ∧ q % 2 = 1) then q + 1 else q
    -- A significand that rounds up to 2 ^ 53 carries into the exponent.
    BitVec.ofNat 64 ((e + 1022) * 2 ^ 52 + significand)

/-! ## Comparison -/

/-- Texts compare by code points, as their UTF-8 bytes do. -/
def Value.compare : Value → Value → Option Ordering
  | .null, _ | _, .null => none
  | .text a, .text b => some (Ord.compare a b)
  | .text _, _ => some .gt
  | _, .text _ => some .lt
  | .integer a, .integer b => some (Ord.compare a b)
  | .integer a, .real b => some (Ord.compare (intScaled a) (floatScaled b))
  | .real a, .integer b => some (Ord.compare (floatScaled a) (intScaled b))
  | .real a, .real b => some (Ord.compare (floatScaled a) (floatScaled b))

def Value.isNull : Value → Bool
  | .null => true
  | _ => false

/-- `textTruth` is how a text counts as a condition. -/
def Value.truth (textTruth : String → Bool) : Value → Truth
  | .null => none
  | .integer i => some (i != 0)
  | .real bits => some (floatScaled bits != 0)
  | .text s => some (textTruth s)

def Value.ofTruth : Truth → Value
  | none => .null
  | some b => .integer b.toNat

def sqlite (textTruth : String → Bool) : Engine Value where
  null := .null
  number n := .integer n
  text := .text
  isNull := Value.isNull
  compare := Value.compare
  truth := Value.truth textTruth
  ofTruth := Value.ofTruth
  truth_ofTruth t := by
    rcases t with _ | _ | _ <;> rfl

/-- What the statements read of a row: `id`, `doc`, and `json_extract` of `doc`. -/
def docRow (extract : Value → String → Value) (id : String) (doc : Value) : Row Value where
  column name := if name = "id" then .text id else if name = "doc" then doc else .null
  call f args :=
    match f, args with
    | "json_extract", [d, .text path] => extract d path
    | _, _ => .null

end TinyLord
