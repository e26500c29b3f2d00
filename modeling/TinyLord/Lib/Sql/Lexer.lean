import Mathlib.Data.List.Basic

/-!
# Tokens of SQL

The lexer is a machine over characters. A text that ends where a token may end can be
followed by a blank, a comma or a closing parenthesis without a change to its own tokens.
-/

namespace Lib.Sql

variable {ν : Type*}

/-- A placeholder becomes a value when the parameters are bound. -/
inductive Tok (ν : Type*) where
  | number (n : Nat)
  | text (s : String)
  | name (s : String)
  | param
  | value (v : ν)
  | lpar
  | rpar
  | comma
  | eq
  | lt
  | le
  | gt
  | ge
  | and
  | or
  | is
  | not
  | isIn
  | null
  | kwOrder
  | kwBy
  | asc
  | desc

/-- Keywords are read in any letter case. -/
def wordTok (word : List Char) : Tok ν :=
  match String.ofList (word.map Char.toUpper) with
  | "AND" => .and
  | "OR" => .or
  | "IS" => .is
  | "NOT" => .not
  | "IN" => .isIn
  | "NULL" => .null
  | "ORDER" => .kwOrder
  | "BY" => .kwBy
  | "ASC" => .asc
  | "DESC" => .desc
  | _ => .name (String.ofList word)

inductive Mode where
  | start
  | word (read : List Char)
  | number (n : Nat)
  | text (read : List Char)
  /-- After a quote that ends the text unless another quote follows. -/
  | closed (read : List Char)
  | lt
  | gt

def isWordStart (c : Char) : Bool := c.isAlpha || c == '_'

def isWordChar (c : Char) : Bool := c.isAlphanum || c == '_'

def digit (c : Char) : Nat := c.toNat - '0'.toNat

def begin (c : Char) : Option (List (Tok ν) × Mode) :=
  if c = ' ' then some ([], .start)
  else if c = '(' then some ([.lpar], .start)
  else if c = ')' then some ([.rpar], .start)
  else if c = ',' then some ([.comma], .start)
  else if c = '?' then some ([.param], .start)
  else if c = '=' then some ([.eq], .start)
  else if c = '<' then some ([], .lt)
  else if c = '>' then some ([], .gt)
  else if c = '\'' then some ([], .text [])
  else if c.isDigit then some ([], .number (digit c))
  else if isWordStart c then some ([], .word [c])
  else none

/-- The token ends before the character. -/
def endBefore (t : Tok ν) (c : Char) : Option (List (Tok ν) × Mode) :=
  (begin c).map fun (ts, m) => (t :: ts, m)

def stepMode : Mode → Char → Option (List (Tok ν) × Mode)
  | .start, c => begin c
  | .word read, c =>
    if isWordChar c then some ([], .word (read ++ [c])) else endBefore (wordTok read) c
  | .number n, c =>
    if c.isDigit then some ([], .number (10 * n + digit c))
    else if isWordStart c || c == '.' then none
    else endBefore (.number n) c
  | .text read, c =>
    if c = '\'' then some ([], .closed read) else some ([], .text (read ++ [c]))
  | .closed read, c =>
    if c = '\'' then some ([], .text (read ++ [c])) else endBefore (.text (String.ofList read)) c
  | .lt, c =>
    if c = '=' then some ([.le], .start)
    else if c = '>' then none
    else endBefore .lt c
  | .gt, c => if c = '=' then some ([.ge], .start) else endBefore .gt c

def run (m : Mode) : List Char → Option (List (Tok ν) × Mode)
  | [] => some ([], m)
  | c :: cs => do
    let (ts, m) ← stepMode m c
    let (us, m) ← run m cs
    some (ts ++ us, m)

/-- What a text that ends in this mode has still to give. Nothing in the midst of a text. -/
def Mode.last : Mode → Option (List (Tok ν))
  | .start => some []
  | .word read => some [wordTok read]
  | .number n => some [.number n]
  | .text _ => none
  | .closed read => some [.text (String.ofList read)]
  | .lt => some [.lt]
  | .gt => some [.gt]

def lex (text : String) : Option (List (Tok ν)) := do
  let (ts, m) ← run .start text.toList
  let us ← m.last
  some (ts ++ us)

/-! ## Texts put together -/

variable {m m' : Mode} {a b : List Char} {ts us : List (Tok ν)} {c : Char}

theorem run_append (ha : run m a = some (ts, m')) :
    run m (a ++ b) = (run m' b).map fun r => (ts ++ r.1, r.2) := by
  induction a generalizing m ts with
  | nil =>
    cases ha
    simp
  | cons c a ih =>
    simp only [run, Option.bind_eq_bind, Option.bind_eq_some_iff] at ha
    obtain ⟨⟨us, m₁⟩, hstep, ⟨vs, m₂⟩, hrun, hts⟩ := ha
    cases hts
    simp only [List.cons_append, run, hstep, Option.bind_eq_bind, Option.bind_some, ih hrun]
    cases (run m₂ b : Option (List (Tok ν) × Mode)) <;> simp

/-- A character that ends a token wherever it stands, outside of a text. -/
def isBoundary (c : Char) : Bool := c == ' ' || c == ')' || c == ','

theorem stepMode_boundary (hc : isBoundary c = true) (hm : m.last = some ts) :
    stepMode m c = (begin c).map fun r => (ts ++ r.1, r.2) := by
  have hcases : c = ' ' ∨ c = ')' ∨ c = ',' := by
    simpa [isBoundary, or_assoc] using hc
  rcases hcases with rfl | rfl | rfl <;> cases m <;> cases hm <;> rfl

/-- The whole text has these tokens, and so it has before a boundary. -/
def Lexes (text : List Char) (ts : List (Tok ν)) : Prop :=
  ∃ us m vs, run .start text = some (us, m) ∧ m.last = some vs ∧ ts = us ++ vs

theorem Lexes.lex {text : String} (h : Lexes text.toList ts) : lex text = some ts := by
  obtain ⟨us, m, vs, hrun, hlast, rfl⟩ := h
  simp [Sql.lex, hrun, hlast]

theorem Lexes.append (ha : Lexes a ts) (hb : Lexes (c :: b) us) (hc : isBoundary c = true) :
    Lexes (a ++ c :: b) (ts ++ us) := by
  obtain ⟨ta, ma, la, hrun, hlast, rfl⟩ := ha
  obtain ⟨tb, mb, lb, hrunb, hlastb, rfl⟩ := hb
  refine ⟨ta ++ (la ++ tb), mb, lb, ?_, hlastb, by simp⟩
  simp only [run, stepMode, Option.bind_eq_bind, Option.bind_eq_some_iff] at hrunb
  obtain ⟨⟨t₁, m₁⟩, hbegin, ⟨t₂, m₂⟩, hrest, hout⟩ := hrunb
  cases hout
  have hstep := stepMode_boundary hc hlast
  rw [hbegin] at hstep
  simp [run_append hrun, run, hstep, hrest]

theorem Lexes.prepend (ha : run .start a = some (ts, .start)) (hb : Lexes b us) :
    Lexes (a ++ b) (ts ++ us) := by
  obtain ⟨tb, m, lb, hrun, hlast, rfl⟩ := hb
  exact ⟨ts ++ tb, m, lb, by simp [run_append ha, hrun], hlast, by simp⟩

theorem run_text {read : List Char} (h : ∀ c ∈ a, c ≠ '\'') :
    run (ν := ν) (.text read) a = some ([], .text (read ++ a)) := by
  induction a generalizing read with
  | nil => simp [run]
  | cons c a ih =>
    have hc : c ≠ '\'' := h c (List.mem_cons_self ..)
    simp [run, stepMode, hc, ih fun x hx => h x (List.mem_cons_of_mem _ hx)]

end Lib.Sql
