import Mathlib.Data.String.Basic
import TinyLord.Lib.Positional

/-!
# ULIDs

A millisecond and 80 random bits, written as one number in base 32. The texts are in the order of
the milliseconds, and within one of them in the order of the random bits.
-/

open Lib.Positional

namespace TinyLord

structure Ulid where
  /-- Unix time in milliseconds. -/
  time : Fin (2 ^ 48)
  random : Fin (2 ^ 80)
  deriving DecidableEq

/-- Crockford's digits. -/
def crockford (d : Fin 32) : Char := "0123456789ABCDEFGHJKMNPQRSTVWXYZ".toList.getD d '0'

def Ulid.value (u : Ulid) : ℕ := u.random + 2 ^ 80 * u.time

def Ulid.text (u : Ulid) : String := String.ofList (write crockford 26 u.value)

variable {u v : Ulid}

theorem crockford_strictMono : StrictMono crockford := by
  have h : ∀ a b : Fin 32, a < b → crockford a < crockford b := by decide
  exact fun a b => h a b

theorem value_lt (u : Ulid) : u.value < 32 ^ 26 := by
  have ht := u.time.isLt
  have hr := u.random.isLt
  unfold Ulid.value
  omega

theorem text_lt_text : u.text < v.text ↔ u.value < v.value := by
  rw [String.lt_iff_toList_lt, Ulid.text, Ulid.text, String.toList_ofList, String.toList_ofList,
    write_lt_write crockford_strictMono (value_lt u) (value_lt v)]

/-- The order of the texts is chronological down to the millisecond, and random below it. -/
theorem text_lt_iff :
    u.text < v.text ↔ u.time < v.time ∨ (u.time = v.time ∧ u.random < v.random) := by
  rw [text_lt_text, Ulid.value, Ulid.value, lt_by_digit u.random.isLt v.random.isLt, Fin.lt_def,
    Fin.lt_def, Fin.ext_iff]

end TinyLord
