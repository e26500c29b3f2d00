import Mathlib.Data.List.Basic

/-!
# Expressions of SQL and their three-valued meaning

A comparison with NULL is unknown. AND and OR are the strong Kleene connectives, and a row
passes a condition when the condition is true, neither false nor unknown.
-/

namespace Lib.Sql

variable {ν : Type*}

/-! ## Truth values -/

/-- `none` is unknown. -/
abbrev Truth := Option Bool

def Truth.and : Truth → Truth → Truth
  | some false, _ | _, some false => some false
  | some true, some true => some true
  | _, _ => none

def Truth.or : Truth → Truth → Truth
  | some true, _ | _, some true => some true
  | some false, some false => some false
  | _, _ => none

@[simp] theorem Truth.and_eq_true {a b : Truth} :
    a.and b = some true ↔ a = some true ∧ b = some true := by
  rcases a with _ | _ | _ <;> rcases b with _ | _ | _ <;> decide

@[simp] theorem Truth.or_eq_true {a b : Truth} :
    a.or b = some true ↔ a = some true ∨ b = some true := by
  rcases a with _ | _ | _ <;> rcases b with _ | _ | _ <;> decide

def Truth.any (ts : List Truth) : Truth := ts.foldr Truth.or (some false)

@[simp] theorem Truth.any_eq_true {ts : List Truth} : Truth.any ts = some true ↔ some true ∈ ts := by
  unfold Truth.any
  induction ts with
  | nil => simp
  | cons t ts ih => rw [List.foldr_cons, Truth.or_eq_true, ih, List.mem_cons, eq_comm]

/-! ## Expressions -/

inductive Rel where
  | eq
  | lt
  | le
  | gt
  | ge

def Rel.holds : Rel → Ordering → Bool
  | .eq, o => o.isEq
  | .lt, o => o.isLT
  | .le, o => o.isLE
  | .gt, o => o.isGT
  | .ge, o => o.isGE

inductive Expr (ν : Type*) where
  | value (v : ν)
  | number (n : Nat)
  | text (s : String)
  | null
  | column (name : String)
  | call (f : String) (args : List (Expr ν))
  | rel (op : Rel) (a b : Expr ν)
  | is (a b : Expr ν)
  | isNot (a b : Expr ν)
  | isIn (a : Expr ν) (items : List (Expr ν))
  | and (a b : Expr ν)
  | or (a b : Expr ν)

/-- The values of a database engine. `compare` gives nothing when one of the two is NULL. -/
structure Engine (ν : Type*) where
  null : ν
  number : Nat → ν
  text : String → ν
  isNull : ν → Bool
  compare : ν → ν → Option Ordering
  truth : ν → Truth
  ofTruth : Truth → ν
  truth_ofTruth : ∀ t, truth (ofTruth t) = t

structure Row (ν : Type*) where
  column : String → ν
  call : String → List ν → ν

namespace Engine

variable (eng : Engine ν)

def rel (op : Rel) (a b : ν) : Truth := (eng.compare a b).map op.holds

/-- `IS` takes two NULLs for equal, and is never unknown. -/
def same (a b : ν) : Bool :=
  match eng.compare a b with
  | some o => o.isEq
  | none => eng.isNull a && eng.isNull b

def isIn (a : ν) (items : List ν) : Truth := Truth.any (items.map (eng.rel .eq a))

end Engine

mutual

def Expr.eval (eng : Engine ν) (row : Row ν) : Expr ν → ν
  | .value v => v
  | .number n => eng.number n
  | .text s => eng.text s
  | .null => eng.null
  | .column name => row.column name
  | .call f args => row.call f (evalAll eng row args)
  | .rel op a b => eng.ofTruth (eng.rel op (a.eval eng row) (b.eval eng row))
  | .is a b => eng.ofTruth (some (eng.same (a.eval eng row) (b.eval eng row)))
  | .isNot a b => eng.ofTruth (some (!eng.same (a.eval eng row) (b.eval eng row)))
  | .isIn a items => eng.ofTruth (eng.isIn (a.eval eng row) (evalAll eng row items))
  | .and a b => eng.ofTruth ((eng.truth (a.eval eng row)).and (eng.truth (b.eval eng row)))
  | .or a b => eng.ofTruth ((eng.truth (a.eval eng row)).or (eng.truth (b.eval eng row)))

def evalAll (eng : Engine ν) (row : Row ν) : List (Expr ν) → List ν
  | [] => []
  | e :: es => e.eval eng row :: evalAll eng row es

end

/-- The row passes the condition. -/
def Expr.Holds (eng : Engine ν) (row : Row ν) (e : Expr ν) : Prop :=
  eng.truth (e.eval eng row) = some true

variable {eng : Engine ν} {row : Row ν} {a b e : Expr ν} {es : List (Expr ν)}

theorem evalAll_eq_map : evalAll eng row es = es.map (Expr.eval eng row) := by
  induction es with
  | nil => rfl
  | cons e es ih => rw [evalAll, ih, List.map_cons]

@[simp] theorem Expr.holds_rel {op : Rel} : (Expr.rel op a b).Holds eng row ↔
    eng.rel op (a.eval eng row) (b.eval eng row) = some true := by
  simp [Expr.Holds, Expr.eval, eng.truth_ofTruth]

@[simp] theorem Expr.holds_is :
    (Expr.is a b).Holds eng row ↔ eng.same (a.eval eng row) (b.eval eng row) = true := by
  simp [Expr.Holds, Expr.eval, eng.truth_ofTruth]

@[simp] theorem Expr.holds_isNot :
    (Expr.isNot a b).Holds eng row ↔ eng.same (a.eval eng row) (b.eval eng row) = false := by
  simp [Expr.Holds, Expr.eval, eng.truth_ofTruth]

@[simp] theorem Expr.holds_isIn : (Expr.isIn a es).Holds eng row ↔
    ∃ e ∈ es, eng.rel .eq (a.eval eng row) (e.eval eng row) = some true := by
  simp [Expr.Holds, Expr.eval, eng.truth_ofTruth, Engine.isIn, evalAll_eq_map]

@[simp] theorem Expr.holds_and :
    (Expr.and a b).Holds eng row ↔ a.Holds eng row ∧ b.Holds eng row := by
  simp [Expr.Holds, Expr.eval, eng.truth_ofTruth]

@[simp] theorem Expr.holds_or :
    (Expr.or a b).Holds eng row ↔ a.Holds eng row ∨ b.Holds eng row := by
  simp [Expr.Holds, Expr.eval, eng.truth_ofTruth]

theorem Expr.holds_foldl_and : (es.foldl Expr.and a).Holds eng row ↔
    a.Holds eng row ∧ ∀ e ∈ es, e.Holds eng row := by
  induction es generalizing a with
  | nil => simp
  | cons e es ih => simp [ih, and_assoc]

theorem Expr.holds_foldl_or : (es.foldl Expr.or a).Holds eng row ↔
    a.Holds eng row ∨ ∃ e ∈ es, e.Holds eng row := by
  induction es generalizing a with
  | nil => simp
  | cons e es ih => simp [ih, or_assoc]

end Lib.Sql
