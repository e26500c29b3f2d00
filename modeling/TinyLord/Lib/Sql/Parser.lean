import TinyLord.Lib.Sql.Expr
import TinyLord.Lib.Sql.Lexer

/-!
# A parser for conditions

Recursive descent with the precedences of SQL: OR binds weakest, then AND, then equality with
IS and IN, then order, and parentheses and calls strongest. Placeholders are bound to the
parameters from left to right before the parse.
-/

namespace Lib.Sql

variable {ν : Type*}

/-! ## Parameters -/

/-- Every placeholder takes the next value, and none is left over. -/
def bindParams : List (Tok ν) → List ν → Option (List (Tok ν))
  | [], [] => some []
  | [], _ :: _ => none
  | .param :: ts, v :: vs => (bindParams ts vs).map (.value v :: ·)
  | .param :: _, [] => none
  | t :: ts, vs => (bindParams ts vs).map (t :: ·)

def Tok.isParam : Tok ν → Bool
  | .param => true
  | _ => false

/-! ## The parser -/

/-- What is read off the front, and the rest. -/
abbrev Parser (ν : Type*) := List (Tok ν) → Option (Expr ν × List (Tok ν))

/-- Expressions between commas, up to the closing parenthesis. -/
def arguments (sub : Parser ν) : Nat → List (Tok ν) → Option (List (Expr ν) × List (Tok ν))
  | 0, _ => none
  | n + 1, ts =>
    match sub ts with
    | some (e, .rpar :: ts) => some ([e], ts)
    | some (e, .comma :: ts) => (arguments sub n ts).map fun r => (e :: r.1, r.2)
    | _ => none

def primary (sub : Parser ν) : Parser ν
  | .number n :: ts => some (.number n, ts)
  | .text s :: ts => some (.text s, ts)
  | .value v :: ts => some (.value v, ts)
  | .null :: ts => some (.null, ts)
  | .lpar :: ts =>
    match sub ts with
    | some (e, .rpar :: ts) => some (e, ts)
    | _ => none
  | .name f :: .lpar :: ts => (arguments sub ts.length ts).map fun r => (.call f r.1, r.2)
  | .name c :: ts => some (.column c, ts)
  | _ => none

/-- What an operator of one level does after an operand: nothing when there is none, and no
parse when what follows it is ill-formed. -/
abbrev More (ν : Type*) := Expr ν → List (Tok ν) → Option (Option (Expr ν × List (Tok ν)))

def chain (more : More ν) : Nat → Expr ν → Parser ν
  | 0, _, _ => none
  | n + 1, e, ts =>
    match more e ts with
    | none => none
    | some none => some (e, ts)
    | some (some (e, ts)) => chain more n e ts

/-- Operators of one level associate to the left. -/
def level (operand : Parser ν) (more : More ν) : Parser ν := fun ts =>
  (operand ts).bind fun r => chain more (r.2.length + 1) r.1 r.2

def binary (operand : Parser ν) (f : Expr ν → Expr ν) (ts : List (Tok ν)) :
    Option (Option (Expr ν × List (Tok ν))) :=
  (operand ts).map fun r => some (f r.1, r.2)

def moreOrder (operand : Parser ν) : More ν
  | e, .lt :: ts => binary operand (.rel .lt e) ts
  | e, .le :: ts => binary operand (.rel .le e) ts
  | e, .gt :: ts => binary operand (.rel .gt e) ts
  | e, .ge :: ts => binary operand (.rel .ge e) ts
  | _, _ => some none

def moreEquality (sub operand : Parser ν) : More ν
  | e, .eq :: ts => binary operand (.rel .eq e) ts
  | e, .is :: .not :: ts => binary operand (.isNot e) ts
  | e, .is :: ts => binary operand (.is e) ts
  | e, .isIn :: .lpar :: ts =>
    (arguments sub ts.length ts).map fun r => some (.isIn e r.1, r.2)
  | _, .isIn :: _ => none
  | _, _ => some none

def moreAnd (operand : Parser ν) : More ν
  | e, .and :: ts => binary operand (.and e) ts
  | _, _ => some none

def moreOr (operand : Parser ν) : More ν
  | e, .or :: ts => binary operand (.or e) ts
  | _, _ => some none

inductive Level where
  | primary
  | order
  | equality
  | conjunction
  | disjunction

def Level.parser (sub : Parser ν) (k : Level) : Parser ν :=
  let order := level (Sql.primary sub) (moreOrder (Sql.primary sub))
  let equality := level order (moreEquality sub order)
  let conjunction := level equality (moreAnd equality)
  match k with
  | .primary => Sql.primary sub
  | .order => order
  | .equality => equality
  | .conjunction => conjunction
  | .disjunction => level conjunction (moreOr conjunction)

/-- The fuel bounds the depth of the parentheses. -/
def expression : Nat → Parser ν
  | 0 => fun _ => none
  | n + 1 => Level.parser (expression n) .disjunction

def parse (ts : List (Tok ν)) : Option (Expr ν) :=
  match expression (ts.length + 1) ts with
  | some (e, []) => some e
  | _ => none

/-- The condition a text stands for when the parameters are bound. -/
def condition (sql : String) (params : List ν) : Option (Expr ν) :=
  ((lex sql).bind fun ts => bindParams ts params).bind parse

end Lib.Sql
