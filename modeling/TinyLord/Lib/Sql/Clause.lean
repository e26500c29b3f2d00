import Mathlib.Tactic.Simps.Basic
import TinyLord.Lib.Sql.Parser

/-!
# Clauses put together from clauses

A clause is a text with its parameters, and the expression that a parser of its level reads
from them whatever may follow. Clauses are closed under what a query builder does to texts:
parentheses, an operator behind an operand, and lists joined by AND or OR.
-/

namespace Lib.Sql

variable {ν : Type*}

/-! ## What may follow -/

/-- How weak the token binds when it stands behind an expression. -/
def Tok.rank : Tok ν → Nat
  | .lpar => 0
  | .lt | .le | .gt | .ge => 1
  | .eq | .is | .isIn => 2
  | .and => 3
  | .or => 4
  | _ => 5

def Level.rank : Level → Nat
  | .primary => 0
  | .order => 1
  | .equality => 2
  | .conjunction => 3
  | .disjunction => 4

/-- No expression of the level goes on here. -/
def Stops (k : Level) (rest : List (Tok ν)) : Prop := ∀ t ∈ rest.head?, k.rank < t.rank

def ParsesAt (n : Nat) (k : Level) (ts : List (Tok ν)) (e : Expr ν) : Prop :=
  ∀ rest, Stops k rest → k.parser (expression n) (ts ++ rest) = some (e, rest)

def Parses (k : Level) (ts : List (Tok ν)) (e : Expr ν) : Prop :=
  ∀ n, ts.length ≤ n → ParsesAt n k ts e

/-- As `ParsesAt` for the level above `k`, where an operator may still follow. -/
def Grows (n : Nat) (k : Level) (more : More ν) (ts : List (Tok ν)) (e : Expr ν) : Prop :=
  ∀ rest, Stops k rest → ∃ m, rest.length < m ∧
    level (k.parser (expression n)) more (ts ++ rest) = chain more m e rest

variable {n : Nat} {k : Level} {more : More ν} {ts us rest : List (Tok ν)} {e e' f : Expr ν}
  {t : Tok ν}

theorem Stops.mono {k' : Level} (h : Stops k' rest) (hk : k.rank ≤ k'.rank) : Stops k rest :=
  fun t ht => Nat.lt_of_le_of_lt hk (h t ht)

theorem stops_cons (h : k.rank < t.rank) : Stops k (t :: rest) := by
  rintro _ ⟨⟩
  exact h

theorem stops_nil : Stops k ([] : List (Tok ν)) := nofun

/-! ## Operators -/

theorem ParsesAt.grows (h : ParsesAt n k ts e) : Grows n k more ts e := by
  intro rest hrest
  exact ⟨rest.length + 1, Nat.lt_succ_self _, by simp [level, h rest hrest]⟩

theorem Grows.step (h : Grows n k more ts e) (ht : k.rank < t.rank)
    (hmore : ∀ rest, Stops k rest → more e (t :: us ++ rest) = some (some (e', rest))) :
    Grows n k more (ts ++ t :: us) e' := by
  intro rest hrest
  obtain ⟨m, hm, hlevel⟩ := h (t :: us ++ rest) (stops_cons ht)
  obtain ⟨m, rfl⟩ : ∃ m', m = m' + 1 := ⟨m - 1, by omega⟩
  refine ⟨m, ?_, ?_⟩
  · simp only [List.cons_append, List.length_cons, List.length_append] at hm
    omega
  · rw [List.append_assoc, hlevel, chain, hmore rest hrest]

theorem Grows.close (h : Grows n k more ts e) (hrest : Stops k rest)
    (hmore : more e rest = some none) :
    level (k.parser (expression n)) more (ts ++ rest) = some (e, rest) := by
  obtain ⟨m, hm, hlevel⟩ := h rest hrest
  obtain ⟨m, rfl⟩ : ∃ m', m = m' + 1 := ⟨m - 1, by omega⟩
  rw [hlevel, chain, hmore]

theorem binary_eq {g : Expr ν → Expr ν} (h : ParsesAt n k us f) (hrest : Stops k rest) :
    binary (k.parser (expression n)) g (us ++ rest) = some (some (g f, rest)) := by
  simp [binary, h rest hrest]

theorem more_stop (hnil : more e [] = some none)
    (hcons : ∀ (t : Tok ν) us, k.rank < t.rank → more e (t :: us) = some none) (h : Stops k rest) :
    more e rest = some none := by
  cases rest with
  | nil => exact hnil
  | cons t rest => exact hcons t rest (h t rfl)

theorem moreOrder_stop {operand : Parser ν} (h : Stops .order rest) :
    moreOrder operand e rest = some none := by
  refine more_stop rfl (fun t us ht => ?_) h
  cases t <;> first | rfl | (simp [Tok.rank, Level.rank] at ht)

theorem moreEquality_stop {sub operand : Parser ν} (h : Stops .equality rest) :
    moreEquality sub operand e rest = some none := by
  refine more_stop rfl (fun t us ht => ?_) h
  cases t <;> first | rfl | (simp [Tok.rank, Level.rank] at ht)

theorem moreAnd_stop {operand : Parser ν} (h : Stops .conjunction rest) :
    moreAnd operand e rest = some none := by
  refine more_stop rfl (fun t us ht => ?_) h
  cases t <;> first | rfl | (simp [Tok.rank, Level.rank] at ht)

theorem moreOr_stop {operand : Parser ν} (h : Stops .disjunction rest) :
    moreOr operand e rest = some none := by
  refine more_stop rfl (fun t us ht => ?_) h
  cases t <;> first | rfl | (simp [Tok.rank, Level.rank] at ht)

/-! ## Levels -/

theorem Grows.order (h : Grows n .primary (moreOrder (Level.parser (expression n) .primary)) ts e) :
    ParsesAt n .order ts e :=
  fun _ hrest => h.close (hrest.mono (by decide)) (moreOrder_stop hrest)

theorem Grows.equality (h : Grows n .order
    (moreEquality (expression n) (Level.parser (expression n) .order)) ts e) :
    ParsesAt n .equality ts e :=
  fun _ hrest => h.close (hrest.mono (by decide)) (moreEquality_stop hrest)

theorem Grows.conjunction
    (h : Grows n .equality (moreAnd (Level.parser (expression n) .equality)) ts e) :
    ParsesAt n .conjunction ts e :=
  fun _ hrest => h.close (hrest.mono (by decide)) (moreAnd_stop hrest)

theorem Grows.disjunction
    (h : Grows n .conjunction (moreOr (Level.parser (expression n) .conjunction)) ts e) :
    ParsesAt n .disjunction ts e :=
  fun _ hrest => h.close (hrest.mono (by decide)) (moreOr_stop hrest)

theorem Parses.order (h : Parses .primary ts e) : Parses .order ts e :=
  fun n hn => (h n hn).grows.order

theorem Parses.equality (h : Parses .order ts e) : Parses .equality ts e :=
  fun n hn => (h n hn).grows.equality

theorem Parses.conjunction (h : Parses .equality ts e) : Parses .conjunction ts e :=
  fun n hn => (h n hn).grows.conjunction

theorem Parses.disjunction (h : Parses .conjunction ts e) : Parses .disjunction ts e :=
  fun n hn => (h n hn).grows.disjunction

theorem Parses.expression (h : Parses .disjunction ts e) (rest : List (Tok ν))
    (hn : ts.length < n)
    (hrest : Stops .disjunction rest) : Sql.expression n (ts ++ rest) = some (e, rest) := by
  obtain ⟨n, rfl⟩ : ∃ n', n = n' + 1 := ⟨n - 1, by omega⟩
  exact h n (by omega) rest hrest

theorem Parses.paren (h : Parses .disjunction ts e) :
    Parses .primary (.lpar :: ts ++ [.rpar]) e := by
  intro n hn rest _
  simp only [List.cons_append, List.length_cons, List.length_append, List.length_nil] at hn
  have hsub := h.expression (.rpar :: rest) (show ts.length < n by omega)
    (stops_cons (Nat.lt_succ_self _))
  simp [Level.parser, primary, hsub]

/-! ## Lists of arguments -/

def commas : List (List (Tok ν)) → List (Tok ν)
  | [] => []
  | ts :: tss => ts ++ tss.flatMap fun us => .comma :: us

theorem arguments_commas (items : List (List (Tok ν) × Expr ν)) (rest : List (Tok ν)) (m : Nat)
    (hne : items ≠ []) (h : ∀ i ∈ items, Parses .disjunction i.1 i.2 ∧ i.1.length < n)
    (hm : items.length ≤ m) :
    arguments (Sql.expression n) m (commas (items.map (·.1)) ++ .rpar :: rest) =
      some (items.map (·.2), rest) := by
  induction items generalizing m with
  | nil => exact absurd rfl hne
  | cons i items ih =>
    obtain ⟨hi, hlen⟩ := h i (List.mem_cons_self ..)
    obtain ⟨m, rfl⟩ : ∃ m', m = m' + 1 := ⟨m - 1, by simp at hm; omega⟩
    cases items with
    | nil =>
      have hsub := hi.expression (.rpar :: rest) hlen (stops_cons (Nat.lt_succ_self _))
      simp [commas, arguments, hsub]
    | cons j items =>
      have hsub := hi.expression (.comma :: (commas ((j :: items).map (·.1)) ++
        .rpar :: rest)) hlen (stops_cons (Nat.lt_succ_self _))
      have hrest := ih m (List.cons_ne_nil _ _) (fun x hx => h x (List.mem_cons_of_mem _ hx))
        (by simpa using hm)
      have hsplit : commas ((i :: j :: items).map (·.1)) ++ .rpar :: rest =
          i.1 ++ .comma :: (commas ((j :: items).map (·.1)) ++ .rpar :: rest) := by
        simp [commas]
      rw [hsplit, arguments, hsub]
      exact congrArg (Option.map _) hrest

theorem length_le_commas (tss : List (List (Tok ν))) :
    tss.length ≤ (commas tss).length + 1 ∧ ∀ ts ∈ tss, ts.length ≤ (commas tss).length := by
  cases tss with
  | nil => simp
  | cons ts tss =>
    have hflat : tss.length ≤ (tss.flatMap fun us => Tok.comma :: us).length ∧
        ∀ us ∈ tss, us.length ≤ (tss.flatMap fun us => Tok.comma :: us).length := by
      induction tss with
      | nil => simp
      | cons us tss ih =>
        simp only [List.flatMap_cons, List.length_append, List.length_cons, List.forall_mem_cons]
        refine ⟨by omega, by omega, fun vs hvs => ?_⟩
        have := ih.2 vs hvs
        omega
    simp only [commas, List.length_append, List.length_cons, List.forall_mem_cons]
    refine ⟨by omega, by omega, fun us hus => ?_⟩
    have := hflat.2 us hus
    omega

theorem arguments_all (items : List (List (Tok ν) × Expr ν)) (rest : List (Tok ν))
    (hne : items ≠ []) (h : ∀ i ∈ items, Parses .disjunction i.1 i.2)
    (hn : (commas (items.map (·.1))).length < n) :
    arguments (Sql.expression n) (commas (items.map (·.1)) ++ .rpar :: rest).length
      (commas (items.map (·.1)) ++ .rpar :: rest) = some (items.map (·.2), rest) := by
  have hlen := length_le_commas (items.map (·.1))
  apply arguments_commas items rest _ hne
  · intro i hi
    exact ⟨h i hi, Nat.lt_of_le_of_lt (hlen.2 _ (List.mem_map_of_mem hi)) hn⟩
  · have := hlen.1
    simp only [List.length_map, List.length_append, List.length_cons] at this ⊢
    omega

theorem parses_column (s : String) : Parses (.primary) [Tok.name s] (Expr.column (ν := ν) s) := by
  intro n _ rest hrest
  cases rest with
  | nil => rfl
  | cons t rest =>
    have := hrest t rfl
    cases t <;> first | rfl | (simp [Tok.rank, Level.rank] at this)

theorem parses_call (f : String) (items : List (List (Tok ν) × Expr ν)) (hne : items ≠ [])
    (h : ∀ i ∈ items, Parses .disjunction i.1 i.2) :
    Parses .primary (.name f :: .lpar :: (commas (items.map (·.1)) ++ [.rpar]))
      (.call f (items.map (·.2))) := by
  intro n hn rest _
  simp only [List.length_cons, List.length_append] at hn
  have hargs := arguments_all (n := n) items rest hne h (by omega)
  simp only [List.cons_append, List.append_assoc, List.nil_append, Level.parser, primary, hargs,
    Option.map_some]

/-! ## Texts and parameters -/

/-- The text has these tokens when its placeholders take the values. -/
def Spells (text : List Char) (values : List ν) (ts : List (Tok ν)) : Prop :=
  ∃ us, Lexes text us ∧ bindParams us values = some ts

theorem intercalate_eq_foldl {sep t : String} {ts : List String} :
    String.intercalate sep (t :: ts) = ts.foldl (fun text t => text ++ sep ++ t) t := by
  induction ts generalizing t with
  | nil => exact String.intercalate_singleton
  | cons u ts ih =>
    rw [String.intercalate_cons_cons, List.foldl_cons, ← ih, String.intercalate_cons_append]

theorem bindParams_append {vs ws : List ν} {as bs : List (Tok ν)} (ha : bindParams ts vs = some as)
    (hb : bindParams us ws = some bs) : bindParams (ts ++ us) (vs ++ ws) = some (as ++ bs) := by
  induction ts generalizing vs as with
  | nil =>
    cases vs with
    | nil =>
      cases ha
      exact hb
    | cons v vs => cases ha
  | cons t ts ih =>
    by_cases ht : t = .param
    · subst ht
      cases vs with
      | nil => cases ha
      | cons v vs =>
        obtain ⟨as, has, rfl⟩ := Option.map_eq_some_iff.mp ha
        simp [bindParams, ih has]
    · have hother : ∀ (ts : List (Tok ν)) vs,
          bindParams (t :: ts) vs = (bindParams ts vs).map (t :: ·) := by
        intro ts vs
        cases t <;> first | rfl | exact absurd rfl ht
      rw [hother] at ha
      obtain ⟨as, has, rfl⟩ := Option.map_eq_some_iff.mp ha
      simp [hother, ih has]

theorem bindParams_count {vs : List ν} (h : bindParams ts vs = some us) :
    ts.countP Tok.isParam = vs.length := by
  induction ts generalizing vs us with
  | nil =>
    cases vs with
    | nil => rfl
    | cons v vs => cases h
  | cons t ts ih =>
    cases t with
    | param =>
      cases vs with
      | nil => cases h
      | cons v vs =>
        obtain ⟨us, hus, rfl⟩ := Option.map_eq_some_iff.mp h
        rw [List.countP_cons, ih hus]
        rfl
    | _ =>
      obtain ⟨us, hus, rfl⟩ := Option.map_eq_some_iff.mp h
      rw [List.countP_cons, ih hus]
      rfl

theorem bindParams_nil (h : bindParams ts [] = some us) : us = ts := by
  induction ts generalizing us with
  | nil => exact (Option.some.inj h).symm
  | cons t ts ih =>
    cases t with
    | param => cases h
    | _ =>
      obtain ⟨us, hus, rfl⟩ := Option.map_eq_some_iff.mp h
      rw [ih hus]

variable {a b : List Char} {vs ws : List ν} {c : Char}

theorem Spells.lexes (h : Spells a [] ts) : Lexes a ts := by
  obtain ⟨us, hlex, hbind⟩ := h
  exact bindParams_nil hbind ▸ hlex

theorem Spells.append (ha : Spells a vs ts) (hb : Spells (c :: b) ws us)
    (hc : isBoundary c = true) : Spells (a ++ c :: b) (vs ++ ws) (ts ++ us) := by
  obtain ⟨la, hlexa, hbinda⟩ := ha
  obtain ⟨lb, hlexb, hbindb⟩ := hb
  exact ⟨la ++ lb, hlexa.append hlexb hc, bindParams_append hbinda hbindb⟩

theorem Spells.prepend (ha : run .start a = some (ts, .start)) (hbind : bindParams ts [] = some ts)
    (hb : Spells b vs us) : Spells (a ++ b) vs (ts ++ us) := by
  obtain ⟨lb, hlexb, hbindb⟩ := hb
  exact ⟨ts ++ lb, hlexb.prepend ha, bindParams_append hbind hbindb⟩

theorem Spells.condition {sql : String} (h : Spells sql.toList vs ts)
    (hp : Parses .disjunction ts e) : condition sql vs = some e := by
  obtain ⟨us, hlex, hbind⟩ := h
  have hparse := hp.expression [] (Nat.lt_succ_self _) stops_nil
  rw [List.append_nil] at hparse
  simp [Sql.condition, hlex.lex, hbind, parse, hparse]

/-! ## Clauses -/

/-- The operators of the level `order`. -/
inductive Order where
  | lt
  | le
  | gt
  | ge

def Order.sql : Order → String
  | .lt => "<"
  | .le => "<="
  | .gt => ">"
  | .ge => ">="

def Order.tok : Order → Tok ν
  | .lt => .lt
  | .le => .le
  | .gt => .gt
  | .ge => .ge

def Order.rel : Order → Rel
  | .lt => .lt
  | .le => .le
  | .gt => .gt
  | .ge => .ge

structure Clause (k : Level) (ν : Type*) where
  text : String
  values : List ν
  expr : Expr ν
  toks : List (Tok ν)
  spells : Spells text.toList values toks
  parses : Parses k toks expr

namespace Clause

@[simps text values expr]
def lift {k' : Level} (c : Clause k ν) (h : Parses k c.toks c.expr → Parses k' c.toks c.expr) :
    Clause k' ν :=
  { c with parses := h c.parses }

/-- A literal of one digit. -/
@[simps text values expr]
def one : Clause .primary ν where
  text := "1"
  values := []
  expr := .number 1
  toks := [.number 1]
  spells := ⟨_, ⟨_, _, _, rfl, rfl, rfl⟩, rfl⟩
  parses _ _ _ _ := rfl

@[simps text values expr]
def zero : Clause .primary ν where
  text := "0"
  values := []
  expr := .number 0
  toks := [.number 0]
  spells := ⟨_, ⟨_, _, _, rfl, rfl, rfl⟩, rfl⟩
  parses _ _ _ _ := rfl

@[simps text values expr]
def paren (c : Clause .disjunction ν) : Clause .primary ν where
  text := "(" ++ c.text ++ ")"
  values := c.values
  expr := c.expr
  toks := .lpar :: c.toks ++ [.rpar]
  spells := by
    have hclose : Spells (ν := ν) [')'] [] [.rpar] := ⟨_, ⟨_, _, _, rfl, rfl, rfl⟩, rfl⟩
    have h := Spells.prepend (a := ['(']) rfl rfl (c.spells.append hclose rfl)
    simpa using h
  parses := c.parses.paren

/-- A placeholder. -/
@[simps text values expr]
def mark (v : ν) : Clause .primary ν where
  text := "?"
  values := [v]
  expr := .value v
  toks := [.value v]
  spells := ⟨_, ⟨_, _, _, rfl, rfl, rfl⟩, rfl⟩
  parses _ _ _ _ := rfl

/-! ### One operator behind an operand -/

theorem spells_behind (c : Clause k ν) {op : String} {b : List Char} (hop : op.toList = ' ' :: b)
    (h : Spells (' ' :: b) vs us) : Spells (c.text ++ op).toList (c.values ++ vs) (c.toks ++ us) := by
  rw [String.toList_append, hop]
  exact c.spells.append h rfl

theorem parses_order (c : Clause .primary ν) (t : Tok ν) (us : List (Tok ν))
    (ht : Level.primary.rank < t.rank)
    (hmore : ∀ n, us.length < n → ∀ rest, Stops .primary rest →
      moreOrder (Level.parser (Sql.expression n) .primary) c.expr (t :: us ++ rest) =
        some (some (e, rest))) : Parses .order (c.toks ++ t :: us) e := by
  intro n hn
  simp only [List.length_append, List.length_cons] at hn
  exact ((c.parses n (by omega)).grows.step ht (hmore n (by omega))).order

theorem parses_equality (c : Clause .order ν) (t : Tok ν) (us : List (Tok ν))
    (ht : Level.order.rank < t.rank)
    (hmore : ∀ n, us.length < n → ∀ rest, Stops .order rest →
      moreEquality (Sql.expression n) (Level.parser (Sql.expression n) .order) c.expr
        (t :: us ++ rest) = some (some (e, rest))) : Parses .equality (c.toks ++ t :: us) e := by
  intro n hn
  simp only [List.length_append, List.length_cons] at hn
  exact ((c.parses n (by omega)).grows.step ht (hmore n (by omega))).equality

@[simps text values expr]
def order (c : Clause .primary ν) (op : Order) (v : ν) : Clause .order ν where
  text := c.text ++ (" " ++ op.sql ++ " ?")
  values := c.values ++ [v]
  expr := .rel op.rel c.expr (.value v)
  toks := c.toks ++ [op.tok, .value v]
  spells := by
    cases op <;> exact c.spells_behind rfl ⟨_, ⟨_, _, _, rfl, rfl, rfl⟩, rfl⟩
  parses := by
    have hv : ∀ n, 1 < n → ParsesAt n .primary [.value v] (.value v) := fun n hn =>
      (mark v).parses n (Nat.le_of_lt hn)
    cases op <;>
      exact c.parses_order _ [.value v] (Nat.lt_succ_self _) fun n hn rest hrest =>
        binary_eq (hv n hn) hrest

@[simps text values expr]
def eq (c : Clause .order ν) (v : ν) : Clause .equality ν where
  text := c.text ++ " = ?"
  values := c.values ++ [v]
  expr := .rel .eq c.expr (.value v)
  toks := c.toks ++ [.eq, .value v]
  spells := c.spells_behind rfl ⟨_, ⟨_, _, _, rfl, rfl, rfl⟩, rfl⟩
  parses := c.parses_equality .eq [.value v] (Nat.lt_succ_self _) fun n hn _ hrest =>
    binary_eq ((mark v).parses.order n (Nat.le_of_lt hn)) hrest

@[simps text values expr]
def isNot (c : Clause .order ν) (v : ν) : Clause .equality ν where
  text := c.text ++ " IS NOT ?"
  values := c.values ++ [v]
  expr := .isNot c.expr (.value v)
  toks := c.toks ++ [.is, .not, .value v]
  spells := c.spells_behind rfl ⟨_, ⟨_, _, _, rfl, rfl, rfl⟩, rfl⟩
  parses := c.parses_equality .is [.not, .value v] (Nat.lt_succ_self _) fun n hn _ hrest =>
    binary_eq ((mark v).parses.order n (Nat.le_of_succ_le (Nat.le_of_lt hn))) hrest

theorem parses_null : Parses (ν := ν) .order [.null] .null := by
  have h : Parses (ν := ν) .primary [.null] .null := fun _ _ _ _ => rfl
  exact h.order

@[simps text values expr]
def isNull (c : Clause .order ν) : Clause .equality ν where
  text := c.text ++ " IS NULL"
  values := c.values
  expr := .is c.expr .null
  toks := c.toks ++ [.is, .null]
  spells := by
    rw [← List.append_nil c.values]
    exact c.spells_behind rfl ⟨_, ⟨_, _, _, rfl, rfl, rfl⟩, rfl⟩
  parses := c.parses_equality .is [.null] (Nat.lt_succ_self _) fun n hn _ hrest =>
    binary_eq (parses_null n (Nat.le_of_lt hn)) hrest

@[simps text values expr]
def isNotNull (c : Clause .order ν) : Clause .equality ν where
  text := c.text ++ " IS NOT NULL"
  values := c.values
  expr := .isNot c.expr .null
  toks := c.toks ++ [.is, .not, .null]
  spells := by
    rw [← List.append_nil c.values]
    exact c.spells_behind rfl ⟨_, ⟨_, _, _, rfl, rfl, rfl⟩, rfl⟩
  parses := c.parses_equality .is [.not, .null] (Nat.lt_succ_self _) fun n hn _ hrest =>
    binary_eq (parses_null n (Nat.le_of_succ_le (Nat.le_of_lt hn))) hrest

/-! ### Lists -/

theorem spells_foldl {sep : String} {s : List Char} (hsep : sep.toList = c :: s)
    (hc : isBoundary c = true) (hrun : run .start (c :: s) = some ([t], .start))
    (ht : bindParams [t] [] = some [t]) (ds : List (Clause k ν)) {text : String}
    (h : Spells text.toList vs ts) :
    Spells (ds.foldl (fun text d => text ++ sep ++ d.text) text).toList
      (vs ++ ds.flatMap (·.values)) (ts ++ ds.flatMap fun d => t :: d.toks) := by
  induction ds generalizing text vs ts with
  | nil => simpa using h
  | cons d ds ih =>
    have hd : Spells (text ++ sep ++ d.text).toList (vs ++ d.values) (ts ++ t :: d.toks) := by
      have := h.append (Spells.prepend hrun ht d.spells) hc
      simpa [hsep] using this
    simpa using ih hd

theorem intercalate_text {sep : String} (d : Clause k ν) (ds : List (Clause k ν)) :
    String.intercalate sep ((d :: ds).map (·.text)) =
      ds.foldl (fun text d => text ++ sep ++ d.text) d.text := by
  rw [List.map_cons, intercalate_eq_foldl, List.foldl_map]

theorem grows_all {ds : List (Clause .equality ν)}
    (h : Grows n .equality (moreAnd (Level.parser (Sql.expression n) .equality)) ts e)
    (hn : ∀ d ∈ ds, d.toks.length ≤ n) :
    Grows n .equality (moreAnd (Level.parser (Sql.expression n) .equality))
      (ts ++ ds.flatMap fun d => .and :: d.toks) (ds.foldl (fun e d => .and e d.expr) e) := by
  induction ds generalizing ts e with
  | nil => simpa using h
  | cons d ds ih =>
    have hd := h.step (t := .and) (Nat.lt_succ_self _) fun rest hrest =>
      binary_eq (d.parses n (hn d (List.mem_cons_self ..))) hrest
    simpa using ih hd fun x hx => hn x (List.mem_cons_of_mem _ hx)

theorem grows_any {ds : List (Clause .conjunction ν)}
    (h : Grows n .conjunction (moreOr (Level.parser (Sql.expression n) .conjunction)) ts e)
    (hn : ∀ d ∈ ds, d.toks.length ≤ n) :
    Grows n .conjunction (moreOr (Level.parser (Sql.expression n) .conjunction))
      (ts ++ ds.flatMap fun d => .or :: d.toks) (ds.foldl (fun e d => .or e d.expr) e) := by
  induction ds generalizing ts e with
  | nil => simpa using h
  | cons d ds ih =>
    have hd := h.step (t := .or) (Nat.lt_succ_self _) fun rest hrest =>
      binary_eq (d.parses n (hn d (List.mem_cons_self ..))) hrest
    simpa using ih hd fun x hx => hn x (List.mem_cons_of_mem _ hx)

theorem length_toks_le {ds : List (Clause k ν)} {d : Clause k ν} (hd : d ∈ ds) :
    d.toks.length ≤ (ds.flatMap fun d => t :: d.toks).length := by
  have hsub := List.sublist_flatten_of_mem (List.mem_map_of_mem (f := fun d => t :: d.toks) hd)
  exact Nat.le_of_succ_le hsub.length_le

@[simps text values expr]
def all (c : Clause .equality ν) (ds : List (Clause .equality ν)) : Clause .conjunction ν where
  text := String.intercalate " AND " ((c :: ds).map (·.text))
  values := c.values ++ ds.flatMap (·.values)
  expr := ds.foldl (fun e d => .and e d.expr) c.expr
  toks := c.toks ++ ds.flatMap fun d => .and :: d.toks
  spells := by
    rw [intercalate_text]
    exact spells_foldl rfl rfl rfl rfl ds c.spells
  parses := by
    intro n hn
    rw [List.length_append] at hn
    refine (grows_all (c.parses n (by omega)).grows ?_).conjunction
    intro d hd
    have := length_toks_le (t := .and) hd
    omega

@[simps text values expr]
def any (c : Clause .conjunction ν) (ds : List (Clause .conjunction ν)) :
    Clause .disjunction ν where
  text := String.intercalate " OR " ((c :: ds).map (·.text))
  values := c.values ++ ds.flatMap (·.values)
  expr := ds.foldl (fun e d => .or e d.expr) c.expr
  toks := c.toks ++ ds.flatMap fun d => .or :: d.toks
  spells := by
    rw [intercalate_text]
    exact spells_foldl rfl rfl rfl rfl ds c.spells
  parses := by
    intro n hn
    rw [List.length_append] at hn
    refine (grows_any (c.parses n (by omega)).grows ?_).disjunction
    intro d hd
    have := length_toks_le (t := .or) hd
    omega

@[simps text values expr]
def isIn (c : Clause .order ν) (v : ν) (vs : List ν) : Clause .equality ν where
  text := c.text ++ (" IN (" ++ String.intercalate ", " ((v :: vs).map fun _ => "?") ++ ")")
  values := c.values ++ (v :: vs)
  expr := .isIn c.expr ((v :: vs).map .value)
  toks := c.toks ++ .isIn :: (.lpar :: commas ((v :: vs).map fun v => [.value v]) ++ [.rpar])
  spells := by
    have hmarks : Spells (String.intercalate ", " ((mark v :: vs.map mark).map (·.text))).toList
        ([v] ++ (vs.map mark).flatMap (·.values))
        ([.value v] ++ (vs.map mark).flatMap fun d => .comma :: d.toks) := by
      rw [intercalate_text]
      exact spells_foldl rfl rfl rfl rfl (vs.map mark) (mark v).spells
    have hopen : run (ν := ν) .start [' ', 'I', 'N', ' ', '('] = some ([.isIn, .lpar], .start) :=
      rfl
    have hclose : Spells (ν := ν) [')'] [] [.rpar] := ⟨_, ⟨_, _, _, rfl, rfl, rfl⟩, rfl⟩
    have hall := c.spells.append (Spells.prepend hopen rfl (hmarks.append hclose rfl)) rfl
    simpa [commas, mark, List.flatMap_map, Function.comp_def] using hall
  parses := by
    refine c.parses_equality _ _ (Nat.lt_succ_self _) fun n hn rest _ => ?_
    let items := (v :: vs).map fun v => (([.value v] : List (Tok ν)), Expr.value v)
    have hitems : ∀ i ∈ items, Parses .disjunction i.1 i.2 := by
      intro i hi
      obtain ⟨w, -, rfl⟩ := List.mem_map.mp hi
      exact (mark w).parses.order.equality.conjunction.disjunction
    have htoks : items.map (·.1) = (v :: vs).map fun v => [.value v] := by simp [items]
    have hexprs : items.map (·.2) = (v :: vs).map .value := by simp [items]
    simp only [List.cons_append, List.length_cons, List.length_append, ← htoks] at hn
    have hargs := arguments_all (n := n) items rest (List.cons_ne_nil _ _) hitems (by omega)
    rw [htoks, hexprs] at hargs
    simp only [List.cons_append, moreEquality, List.append_assoc, List.nil_append, hargs,
      Option.map_some]

end Clause

end Lib.Sql
