import Mathlib.Algebra.Ring.Nat
import Mathlib.Data.List.Basic
import Mathlib.Data.List.Lex
import Mathlib.Order.Fin.Basic

/-!
# Numbers of a fixed width

A number is written with its most significant digit first and with leading zeros. Such texts are in
the order of the numbers, whatever symbols stand for the digits, as long as these rise too.
-/

namespace Lib.Positional

variable {b : ℕ} [NeZero b]

/-- The last `width` digits. -/
def digits (b : ℕ) [NeZero b] : ℕ → ℕ → List (Fin b)
  | 0, _ => []
  | width + 1, n => Fin.ofNat b (n / b ^ width) :: digits b width n

@[simp] theorem length_digits (width n : ℕ) : (digits b width n).length = width := by
  induction width with
  | zero => rfl
  | succ width ih => rw [digits, List.length_cons, ih]

theorem lt_by_digit {p q q' r r' : ℕ} (hr : r < p) (hr' : r' < p) :
    r + p * q < r' + p * q' ↔ q < q' ∨ (q = q' ∧ r < r') := by
  rcases Nat.lt_trichotomy q q' with hlt | rfl | hgt
  · have hle : p * q + p ≤ p * q' := by
      rw [← Nat.mul_succ]
      exact Nat.mul_le_mul_left p hlt
    exact iff_of_true (by omega) (Or.inl hlt)
  · simp
  · have hle : p * q' + p ≤ p * q := by
      rw [← Nat.mul_succ]
      exact Nat.mul_le_mul_left p hgt
    exact iff_of_false (by omega) (by omega)

theorem digits_lt_digits (width n m : ℕ) :
    digits b width n < digits b width m ↔ n % b ^ width < m % b ^ width := by
  induction width with
  | zero => simp [digits, Nat.mod_one]
  | succ width ih =>
    have hpos : 0 < b ^ width := Nat.pow_pos (Nat.pos_of_neZero b)
    rw [digits, digits, List.cons_lt_cons_iff, ih, Nat.pow_succ, Nat.mod_mul, Nat.mod_mul,
      lt_by_digit (Nat.mod_lt n hpos) (Nat.mod_lt m hpos), Fin.lt_def, Fin.ext_iff]
    rfl

/-! ## Symbols -/

section

variable {α : Type*} {symbol : Fin b → α}

/-- The text of a number. -/
def write (symbol : Fin b → α) (width n : ℕ) : List α := (digits b width n).map symbol

@[simp] theorem length_write (width n : ℕ) : (write symbol width n).length = width := by
  simp [write]

theorem mem_write {width n : ℕ} {x : α} (h : x ∈ write symbol width n) : ∃ d, symbol d = x := by
  obtain ⟨d, -, hd⟩ := List.mem_map.mp h
  exact ⟨d, hd⟩

variable [LinearOrder α]

theorem map_lt_map {β : Type*} [LinearOrder β] {f : β → α} (hf : StrictMono f) {xs ys : List β} :
    xs.map f < ys.map f ↔ xs < ys := by
  constructor
  · intro h
    by_contra hle
    rcases (not_lt.mp hle).eq_or_lt with rfl | hgt
    · exact lt_irrefl _ h
    · exact lt_asymm h (List.map_lt (fun _ _ hxy => hf hxy) hgt)
  · exact List.map_lt fun _ _ hxy => hf hxy

theorem write_lt_write (hsymbol : StrictMono symbol) {width n m : ℕ} (hn : n < b ^ width)
    (hm : m < b ^ width) : write symbol width n < write symbol width m ↔ n < m := by
  rw [write, write, map_lt_map hsymbol, digits_lt_digits, Nat.mod_eq_of_lt hn, Nat.mod_eq_of_lt hm]

end

end Lib.Positional
