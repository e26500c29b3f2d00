import Mathlib.Order.Lattice
import TinyLord.Lib.Sql.Parser

/-!
# ORDER BY

NULL comes before every other value. How rows are arranged that tie on every term is left open,
and may differ from statement to statement.
-/

namespace Lib.Sql

variable {ν ρ : Type*}

structure OrderTerm (ν : Type*) where
  expr : Expr ν
  descending : Bool

/-! ## The text -/

/-- Ascending when nothing is said. -/
def direction : List (Tok ν) → Bool × List (Tok ν)
  | .asc :: ts => (false, ts)
  | .desc :: ts => (true, ts)
  | ts => (false, ts)

/-- The terms between commas, up to the end. -/
def orderTerms : Nat → List (Tok ν) → Option (List (OrderTerm ν))
  | 0, _ => none
  | n + 1, ts =>
    match expression (ts.length + 1) ts with
    | none => none
    | some (expr, ts) =>
      match direction ts with
      | (descending, []) => some [{ expr, descending }]
      | (descending, .comma :: ts) => (orderTerms n ts).map ({ expr, descending } :: ·)
      | _ => none

def orderBy (sql : String) : Option (List (OrderTerm ν)) :=
  match lex sql with
  | some (.kwOrder :: .kwBy :: ts) => orderTerms ts.length ts
  | _ => none

/-! ## The order of rows -/

def Engine.order (eng : Engine ν) (a b : ν) : Ordering :=
  match eng.isNull a, eng.isNull b with
  | true, true => .eq
  | true, false => .lt
  | false, true => .gt
  | false, false => (eng.compare a b).getD .eq

def rowLe (eng : Engine ν) : List (OrderTerm ν) → Row ν → Row ν → Bool
  | [], _, _ => true
  | t :: ts, a, b =>
    let o := eng.order (t.expr.eval eng a) (t.expr.eval eng b)
    match if t.descending then o.swap else o with
    | .lt => true
    | .eq => rowLe eng ts a b
    | .gt => false

/-- One way to arrange rows in an order. -/
structure Sorter (ρ : Type*) where
  sort : (ρ → ρ → Bool) → List ρ → List ρ
  perm : ∀ le rows, (sort le rows).Perm rows
  sorted : ∀ le, (∀ a b, le a b || le b a) → (∀ a b c, le a b → le b c → le a c) →
    ∀ rows, (sort le rows).Pairwise fun a b => le a b

def mergeSorter : Sorter ρ where
  sort le rows := rows.mergeSort le
  perm le rows := List.mergeSort_perm rows le
  sorted _ htotal htrans rows := List.pairwise_mergeSort htrans htotal rows

/-- `ORDER BY`, then `LIMIT` and `OFFSET`. -/
def arrange (eng : Engine ν) (sorter : Sorter ρ) (row : ρ → Row ν) (terms : List (OrderTerm ν))
    (limit offset : Nat) (rows : List ρ) : List ρ :=
  ((sorter.sort (fun a b => rowLe eng terms (row a) (row b)) rows).drop offset).take limit

instance (eng : Engine ν) (row : Row ν) (e : Expr ν) : Decidable (e.Holds eng row) :=
  inferInstanceAs (Decidable (_ = _))

theorem sort_increasing {κ : Type*} [LinearOrder κ] (sorter : Sorter ρ) (key : ρ → κ)
    {le : ρ → ρ → Bool} (hle : ∀ a b, le a b = true ↔ key a ≤ key b) {rows : List ρ}
    (hnodup : (rows.map key).Nodup) : ((sorter.sort le rows).map key).Pairwise (· < ·) := by
  have htotal : ∀ a b, (le a b || le b a) = true := by
    intro a b
    rw [Bool.or_eq_true, hle, hle]
    exact le_total (key a) (key b)
  have htrans : ∀ a b c, le a b → le b c → le a c := by
    intro a b c hab hbc
    rw [hle] at hab hbc ⊢
    exact hab.trans hbc
  have hsorted : ((sorter.sort le rows).map key).Pairwise (· ≤ ·) := by
    rw [List.pairwise_map]
    exact (sorter.sorted le htotal htrans rows).imp fun h => (hle _ _).mp h
  have hdistinct : ((sorter.sort le rows).map key).Nodup :=
    ((sorter.perm le rows).map key).nodup_iff.mpr hnodup
  exact (hsorted.and hdistinct).imp fun h => lt_of_le_of_ne h.1 h.2

end Lib.Sql
