import TinyLord.Lib.Sql.Clause
import TinyLord.Query.Filter

/-!
# What a filter means

The meaning of a JSON filter is stated on the filter itself. The text that the compiler makes
of it, read back with the precedences of SQL and with the placeholders bound from left to
right, is true for the same documents.
-/

open Lib Lib.Sql

namespace TinyLord

/-! ## Meaning of a filter -/

/-- What a scalar is compared as. -/
def argument : Json → Value
  | .null | .array _ | .object _ => .null
  | .bool b => .integer b.toNat
  | .number (.posInt n) => u64ToValue n
  | .number (.negInt i) => .integer i
  | .number (.float bits) => .real bits
  | .string s => .text s

/-- The comparison is true, neither false nor unknown. -/
def Compares (op : Rel) (x y : Value) : Prop := ∃ o ∈ x.compare y, op.holds o = true

/-- `$eq` with null is `IS NULL`. -/
def EqHolds (x : Value) : Json → Prop
  | .null => x.isNull = true
  | arg => Compares .eq x (argument arg)

/-- `$ne` with null is `IS NOT NULL`. A missing field differs from every value. -/
def NeHolds (x : Value) : Json → Prop
  | .null => x.isNull = false
  | arg => ¬Compares .eq x (argument arg)

def InHolds (x : Value) : Json → Prop
  | .array items => ∃ i ∈ items, Compares .eq x (argument i)
  | _ => False

def OperatorHolds (x : Value) (op : String) (arg : Json) : Prop :=
  match op with
  | "$eq" => EqHolds x arg
  | "$ne" => NeHolds x arg
  | "$gt" => Compares .gt x (argument arg)
  | "$gte" => Compares .ge x (argument arg)
  | "$lt" => Compares .lt x (argument arg)
  | "$lte" => Compares .le x (argument arg)
  | "$in" => InHolds x arg
  | _ => False

def FieldHolds (x : Value) : Json → Prop
  | .object ops => ∀ o ∈ ops, OperatorHolds x o.1 o.2
  | scalar => EqHolds x scalar

section

-- The value of a dotted path in the document.
variable (field : String → Value)

def EntryHolds : Json → Prop
  | .object fields => ∀ f ∈ fields, FieldHolds (field f.1) f.2
  | _ => False

def OrHolds : Json → Prop
  | .array entries => ∃ e ∈ entries, EntryHolds field e
  | _ => False

def KeyHolds (key : String) (val : Json) : Prop :=
  if key = "$or" then OrHolds field val else FieldHolds (field key) val

/-- No filter is as good as an empty one. -/
def Matches : Option Json → Prop
  | some (.object fields) => ∀ f ∈ fields, KeyHolds field f.1 f.2
  | _ => True

end

/-- The JSON path of a dotted field. -/
def dotted (field : String) : String := "$." ++ field

/-! ## Paths -/

theorem appendSegments_ok {field out path : String} {segs : List String}
    (h : appendSegments field segs out = .ok path) :
    path = segs.foldl (fun out seg => out ++ "." ++ seg) out ∧
      ∀ seg ∈ segs, seg.toList.all isFieldChar = true := by
  induction segs generalizing out with
  | nil =>
    cases h
    simp
  | cons seg segs ih =>
    simp only [appendSegments] at h
    split at h
    · cases h
    · split at h
      · cases h
      · next hchars =>
        obtain ⟨hpath, hsegs⟩ := ih h
        simp only [Bool.not_eq_true', Bool.not_eq_false] at hchars
        exact ⟨hpath, List.forall_mem_cons.mpr ⟨hchars, hsegs⟩⟩

theorem appendSegments_of_ok {field : String} {segs : List String} (out : String)
    (h : segs.all segmentOk = true) :
    appendSegments field segs out = .ok (segs.foldl (fun out seg => out ++ "." ++ seg) out) := by
  induction segs generalizing out with
  | nil => rfl
  | cons seg segs ih =>
    simp only [List.all_cons, Bool.and_eq_true, segmentOk, Bool.not_eq_true'] at h
    simp [appendSegments, h.1, ih _ h.2]

theorem toList_foldl_segments (segs : List (List Char)) (out : String) :
    ((segs.map String.ofList).foldl (fun out seg => out ++ "." ++ seg) out).toList =
      out.toList ++ segs.flatMap fun seg => '.' :: seg := by
  induction segs generalizing out with
  | nil => simp
  | cons seg segs ih => simp [ih]

theorem intercalate_dots (seg : List Char) (segs : List (List Char)) :
    ['.'].intercalate (seg :: segs) = seg ++ segs.flatMap fun seg => '.' :: seg := by
  induction segs generalizing seg with
  | nil => simp
  | cons next segs ih => simp [ih]

/-- Letters, digits, underscores and dots. -/
def isPathChar (c : Char) : Bool := isFieldChar c || c == '.'

theorem fieldToJsonPath_dotted {field path : String} (h : fieldToJsonPath field = .ok path) :
    path = dotted field ∧ ∀ c ∈ field.toList, isPathChar c = true := by
  unfold fieldToJsonPath at h
  split at h
  · cases h
  · obtain ⟨rfl, hchars⟩ := appendSegments_ok h
    have hpath : ((segments field).foldl (fun out seg => out ++ "." ++ seg) "$").toList =
        '$' :: (field.toList.splitOn '.').flatMap fun seg => '.' :: seg := by
      rw [segments, toList_foldl_segments]
      rfl
    have hjoin : ['.'].intercalate (field.toList.splitOn '.') = field.toList :=
      List.intercalate_splitOn '.'
    obtain ⟨seg, segs, hsplit⟩ := List.exists_cons_of_ne_nil (List.splitOn_ne_nil '.' field.toList)
    have hfield : '.' :: field.toList =
        (field.toList.splitOn '.').flatMap fun seg => '.' :: seg := by
      rw [hsplit, intercalate_dots] at hjoin
      simp [hsplit, hjoin]
    constructor
    · apply String.toList_injective
      rw [hpath, ← hfield, dotted, String.toList_append]
      rfl
    · intro c hc
      have hmem : c ∈ '.' :: field.toList := List.mem_cons_of_mem _ hc
      rw [hfield] at hmem
      obtain ⟨seg, hseg, hc⟩ := List.mem_flatMap.mp hmem
      rcases List.mem_cons.mp hc with rfl | hc
      · decide
      · have hall := hchars (String.ofList seg) (List.mem_map_of_mem hseg)
        rw [String.toList_ofList, List.all_eq_true] at hall
        rw [isPathChar, hall c hc, Bool.true_or]

theorem fieldToJsonPath_ok {field path : String} (h : fieldToJsonPath field = .ok path) :
    path = dotted field ∧ ∀ c ∈ path.toList, c ≠ '\'' := by
  obtain ⟨rfl, hchars⟩ := fieldToJsonPath_dotted h
  refine ⟨rfl, ?_⟩
  intro c hc
  rw [dotted, String.toList_append] at hc
  rcases List.mem_append.mp hc with hc | hc
  · rintro rfl
    exact absurd hc (by decide)
  · rintro rfl
    exact absurd (hchars _ hc) (by decide)

theorem startsWithDollar_field {field path : String} (h : fieldToJsonPath field = .ok path) :
    startsWithDollar field = false := by
  have hchars := (fieldToJsonPath_dotted h).2
  unfold startsWithDollar
  cases hlist : field.toList with
  | nil => rfl
  | cons c cs =>
    have hc : isPathChar c = true := hchars c (by rw [hlist]; exact List.mem_cons_self)
    rw [List.head?_cons, beq_eq_false_iff_ne]
    rintro ⟨⟩
    contradiction

/-! ## Clauses of the compiler -/

variable {field path op sql : String} {scalar arg spec val : Json}
  {params params' : List Value} {x y v : Value}

theorem spells_extract (h : ∀ c ∈ path.toList, c ≠ '\'') :
    Spells ("json_extract(doc, '" ++ path ++ "')").toList ([] : List Value)
      [.name "json_extract", .lpar, .name "doc", .comma, .text path, .rpar] := by
  have hopen : run (ν := Value) .start "json_extract(doc, '".toList =
      some ([.name "json_extract", .lpar, .name "doc", .comma], .text []) := rfl
  have hclose : run (ν := Value) (.text path.toList) "')".toList =
      some ([.text path, .rpar], .start) := by
    have hpath : String.ofList path.toList = path := String.ofList_toList
    conv_rhs => rw [← hpath]
    rfl
  have hrun : run (ν := Value) .start ("json_extract(doc, '" ++ path ++ "')").toList =
      some ([.name "json_extract", .lpar, .name "doc", .comma, .text path, .rpar], .start) := by
    rw [String.toList_append, String.toList_append, List.append_assoc, run_append hopen,
      run_append (run_text h), List.nil_append, hclose]
    rfl
  exact ⟨_, ⟨_, _, _, hrun, rfl, rfl⟩, rfl⟩

/-- `json_extract` of a path without quotes. -/
def extractClause (path : String) (h : ∀ c ∈ path.toList, c ≠ '\'') : Clause .primary Value where
  text := "json_extract(doc, '" ++ path ++ "')"
  values := []
  expr := .call "json_extract" [.column "doc", .text path]
  toks := [.name "json_extract", .lpar, .name "doc", .comma, .text path, .rpar]
  spells := spells_extract h
  parses := by
    have htext : Parses (ν := Value) .primary [.text path] (.text path) := fun _ _ _ _ => rfl
    refine parses_call "json_extract"
      [([.name "doc"], .column "doc"), ([.text path], .text path)] (List.cons_ne_nil _ _) ?_
    simp only [List.forall_mem_cons]
    exact ⟨(parses_column "doc").order.equality.conjunction.disjunction,
      htext.order.equality.conjunction.disjunction, nofun⟩

@[simp] theorem extractClause_text (h : ∀ c ∈ path.toList, c ≠ '\'') :
    (extractClause path h).text = "json_extract(doc, '" ++ path ++ "')" := rfl

@[simp] theorem extractClause_values (h : ∀ c ∈ path.toList, c ≠ '\'') :
    (extractClause path h).values = [] := rfl

theorem extractClause_eval {textTruth : String → Bool} {extract : Value → String → Value}
    {id : String} {doc : Value} (h : ∀ c ∈ path.toList, c ≠ '\'') :
    (extractClause path h).expr.eval (sqlite textTruth) (docRow extract id doc) =
      extract doc path := rfl

/-- The clause holds for a document just when the values of its fields satisfy `P`. -/
def Means {k : Level} (d : Clause k Value) (P : (String → Value) → Prop) : Prop :=
  ∀ textTruth extract id doc, d.expr.Holds (sqlite textTruth) (docRow extract id doc) ↔
    P fun field => extract doc (dotted field)

/-- The text and the new values are those of a clause with this meaning. -/
def Compiles (k : Level) (sql : String) (params params' : List Value)
    (P : (String → Value) → Prop) : Prop :=
  ∃ d : Clause k Value, d.text = sql ∧ params' = params ++ d.values ∧ Means d P

/-- The new texts and values are those of clauses with these meanings. -/
def CompilesAll (k : Level) (parts parts' : List String) (params params' : List Value)
    (Ps : List ((String → Value) → Prop)) : Prop :=
  ∃ ds : List (Clause k Value), parts' = parts ++ ds.map (·.text) ∧
    params' = params ++ ds.flatMap (·.values) ∧ List.Forall₂ Means ds Ps

theorem scalarToValue_ok (h : scalarToValue arg = .ok v) : v = argument arg := by
  unfold scalarToValue at h
  split at h <;> cases h <;> rfl

theorem eqHolds_of_ne_null (h : arg ≠ .null) : EqHolds x arg ↔ Compares .eq x (argument arg) := by
  cases arg <;> first | rfl | exact absurd rfl h

theorem neHolds_of_ne_null (h : arg ≠ .null) : NeHolds x arg ↔ ¬Compares .eq x (argument arg) := by
  cases arg <;> first | rfl | exact absurd rfl h

theorem rel_sqlite {textTruth : String → Bool} {rel : Rel} :
    (sqlite textTruth).rel rel x y = some true ↔ Compares rel x y := by
  simp [Engine.rel, sqlite, Compares]

theorem same_null {textTruth : String → Bool} : (sqlite textTruth).same x .null = x.isNull := by
  cases x <;> rfl

theorem same_sqlite {textTruth : String → Bool} (hy : y ≠ .null) :
    (sqlite textTruth).same x y = false ↔ ¬Compares .eq x y := by
  have hnull : y.isNull = false := by
    cases y <;> first | rfl | exact absurd rfl hy
  simp only [Engine.same, sqlite, Compares, hnull]
  cases x.compare y <;> simp [Rel.holds]

theorem argument_ne_null (h : arg ≠ .null) (hv : scalarToValue arg = .ok v) :
    argument arg ≠ .null := by
  cases arg with
  | null => exact absurd rfl h
  | number n =>
    cases n with
    | posInt n =>
      simp only [argument, u64ToValue]
      split <;> nofun
    | _ => nofun
  | array items => cases hv
  | object fields => cases hv
  | _ => nofun

theorem compileEq_compiles (hpath : fieldToJsonPath field = .ok path)
    (h : compileEq ("json_extract(doc, '" ++ path ++ "')") scalar params = .ok (sql, params')) :
    Compiles .equality sql params params' fun value => EqHolds (value field) scalar := by
  obtain ⟨rfl, hquote⟩ := fieldToJsonPath_ok hpath
  let c := (extractClause (dotted field) hquote).lift Parses.order
  unfold compileEq at h
  split at h
  · cases h
    refine ⟨c.isNull, rfl, (List.append_nil _).symm, ?_⟩
    intro textTruth extract id doc
    refine Expr.holds_is.trans ?_
    exact Bool.eq_iff_iff.mp same_null
  · next hnull =>
    have hne : scalar ≠ .null := fun heq => hnull heq
    split at h
    · cases h
    · next v hv =>
      cases h
      obtain rfl := scalarToValue_ok hv
      refine ⟨c.eq (argument scalar), rfl, rfl, ?_⟩
      intro textTruth extract id doc
      exact (Expr.holds_rel.trans rel_sqlite).trans (eqHolds_of_ne_null hne).symm

theorem compileNe_compiles (hpath : fieldToJsonPath field = .ok path)
    (h : compileNe ("json_extract(doc, '" ++ path ++ "')") arg params = .ok (sql, params')) :
    Compiles .equality sql params params' fun value => NeHolds (value field) arg := by
  obtain ⟨rfl, hquote⟩ := fieldToJsonPath_ok hpath
  let c := (extractClause (dotted field) hquote).lift Parses.order
  unfold compileNe at h
  split at h
  · cases h
    refine ⟨c.isNotNull, rfl, (List.append_nil _).symm, ?_⟩
    intro textTruth extract id doc
    refine Expr.holds_isNot.trans ?_
    exact Eq.congr_left same_null
  · next hnull =>
    have hne : arg ≠ .null := fun heq => hnull heq
    split at h
    · cases h
    · next v hv =>
      cases h
      have hvalue := argument_ne_null hne hv
      obtain rfl := scalarToValue_ok hv
      refine ⟨c.isNot (argument arg), rfl, rfl, ?_⟩
      intro textTruth extract id doc
      exact (Expr.holds_isNot.trans (same_sqlite (y := argument arg) hvalue)).trans
        (neHolds_of_ne_null hne).symm

theorem compileOrder_compiles {o : Order} (hpath : fieldToJsonPath field = .ok path)
    (h : compileOrder ("json_extract(doc, '" ++ path ++ "')") o.sql arg params =
      .ok (sql, params')) :
    Compiles .equality sql params params' fun value => Compares o.rel (value field) (argument arg) := by
  obtain ⟨rfl, hquote⟩ := fieldToJsonPath_ok hpath
  unfold compileOrder at h
  split at h
  · cases h
  · next v hv =>
    cases h
    obtain rfl := scalarToValue_ok hv
    refine ⟨((extractClause (dotted field) hquote).order o (argument arg)).lift
      fun h => h.equality, ?_, ?_, ?_⟩
    · simp only [Clause.lift_text, Clause.order_text, extractClause_text, String.append_assoc]
    · simp
    · intro textTruth extract id doc
      rw [Clause.lift_expr, Clause.order_expr, Expr.holds_rel, rel_sqlite, extractClause_eval,
        Expr.eval]

theorem pushItems_ok {items : List Json} (h : pushItems items params = .ok params') :
    params' = params ++ items.map argument := by
  induction items generalizing params with
  | nil =>
    cases h
    simp
  | cons item items ih =>
    simp only [pushItems] at h
    split at h
    · cases h
    · next v hv =>
      rw [ih h, scalarToValue_ok hv]
      simp

theorem compileIn_compiles (hpath : fieldToJsonPath field = .ok path)
    (h : compileIn ("json_extract(doc, '" ++ path ++ "')") arg params = .ok (sql, params')) :
    Compiles .equality sql params params' fun value => InHolds (value field) arg := by
  obtain ⟨rfl, hquote⟩ := fieldToJsonPath_ok hpath
  let c := (extractClause (dotted field) hquote).lift Parses.order
  unfold compileIn at h
  split at h
  · cases h
    refine ⟨Clause.zero.lift fun h => h.order.equality, rfl, (List.append_nil _).symm, ?_⟩
    intro textTruth extract id doc
    simp [Clause.lift, Clause.zero, Expr.Holds, Expr.eval, sqlite, Value.truth, InHolds]
  · next items hne =>
    split at h
    · cases h
    · next params' hpush =>
      cases h
      obtain ⟨item, items, rfl⟩ := List.exists_cons_of_ne_nil hne
      refine ⟨c.isIn (argument item) (items.map argument), ?_, ?_, ?_⟩
      · simp only [c, Clause.isIn_text, Clause.lift_text, extractClause_text, String.append_assoc,
          List.map_cons, List.map_map, Function.comp_def]
      · simpa [c] using pushItems_ok hpush
      · intro textTruth extract id doc
        rw [Clause.isIn_expr, Expr.holds_isIn, Clause.lift_expr, extractClause_eval]
        simp [rel_sqlite, InHolds, Expr.eval]
  · cases h

theorem compileOperator_compiles (hpath : fieldToJsonPath field = .ok path)
    (h : compileOperator ("json_extract(doc, '" ++ path ++ "')") op arg params = .ok (sql, params')) :
    Compiles .equality sql params params' fun value => OperatorHolds (value field) op arg := by
  unfold compileOperator at h
  split at h
  · exact compileEq_compiles hpath h
  · exact compileNe_compiles hpath h
  · exact compileOrder_compiles (o := .gt) hpath h
  · exact compileOrder_compiles (o := .ge) hpath h
  · exact compileOrder_compiles (o := .lt) hpath h
  · exact compileOrder_compiles (o := .le) hpath h
  · exact compileIn_compiles hpath h
  · cases h

/-! ## Lists of clauses -/

variable {k : Level} {parts parts' : List String} {d : Clause k Value} {ds : List (Clause k Value)}
  {P : (String → Value) → Prop} {Ps : List ((String → Value) → Prop)}

theorem compilesAll_nil : CompilesAll k parts parts params params [] :=
  ⟨[], by simp, by simp, .nil⟩

theorem CompilesAll.cons {params₁ : List Value} (hone : Compiles k sql params params₁ P)
    (hrest : CompilesAll k (parts ++ [sql]) parts' params₁ params' Ps) :
    CompilesAll k parts parts' params params' (P :: Ps) := by
  obtain ⟨d, rfl, rfl, hd⟩ := hone
  obtain ⟨ds, rfl, rfl, hds⟩ := hrest
  exact ⟨d :: ds, by simp, by simp, .cons hd hds⟩

section

variable {textTruth : String → Bool} {extract : Value → String → Value} {id : String} {doc : Value}

theorem forall_holds (h : List.Forall₂ Means ds Ps) :
    (∀ d ∈ ds, d.expr.Holds (sqlite textTruth) (docRow extract id doc)) ↔
      ∀ P ∈ Ps, P fun field => extract doc (dotted field) := by
  induction h with
  | nil => simp
  | cons hd _ ih => simp [ih, hd textTruth extract id doc]

theorem exists_holds (h : List.Forall₂ Means ds Ps) :
    (∃ d ∈ ds, d.expr.Holds (sqlite textTruth) (docRow extract id doc)) ↔
      ∃ P ∈ Ps, P fun field => extract doc (dotted field) := by
  induction h with
  | nil => simp
  | cons hd _ ih => simp [ih, hd textTruth extract id doc]

end

theorem holds_all {d : Clause .equality Value} {ds : List (Clause .equality Value)}
    {eng : Engine Value} {row : Row Value} :
    (d.all ds).expr.Holds eng row ↔ ∀ c ∈ d :: ds, c.expr.Holds eng row := by
  have h : ((ds.map (·.expr)).foldl Expr.and d.expr).Holds eng row ↔ _ := Expr.holds_foldl_and
  simpa [List.foldl_map] using h

theorem holds_any {d : Clause .conjunction Value} {ds : List (Clause .conjunction Value)}
    {eng : Engine Value} {row : Row Value} :
    (d.any ds).expr.Holds eng row ↔ ∃ c ∈ d :: ds, c.expr.Holds eng row := by
  have h : ((ds.map (·.expr)).foldl Expr.or d.expr).Holds eng row ↔ _ := Expr.holds_foldl_or
  simpa [List.foldl_map] using h

def oneMeans : Clause .equality Value := Clause.one.lift fun h => h.order.equality

theorem one_means : Means oneMeans fun _ => True := by
  intro textTruth extract id doc
  simp [oneMeans, Expr.Holds, Expr.eval, sqlite, Value.truth]

def zeroMeans : Clause .equality Value := Clause.zero.lift fun h => h.order.equality

theorem zero_means : Means zeroMeans fun _ => False := by
  intro textTruth extract id doc
  simp [zeroMeans, Expr.Holds, Expr.eval, sqlite, Value.truth]

theorem CompilesAll.joined (h : CompilesAll .equality [] parts params params' Ps) :
    ∃ (d : Clause .equality Value) (ds : List (Clause .equality Value)),
      (d.all ds).text = (if parts.isEmpty then "1" else String.intercalate " AND " parts) ∧
        params' = params ++ (d.all ds).values ∧
        Means (d.all ds) fun value => ∀ P ∈ Ps, P value := by
  obtain ⟨ds, rfl, rfl, hds⟩ := h
  cases hds with
  | nil =>
    refine ⟨oneMeans, [], rfl, by simp [oneMeans], ?_⟩
    intro textTruth extract id doc
    rw [holds_all, List.forall_mem_singleton, one_means textTruth extract id doc]
    simp
  | @cons d P ds Ps hd hds =>
    refine ⟨d, ds, by simp, by simp, ?_⟩
    intro textTruth extract id doc
    rw [holds_all, forall_holds (.cons hd hds)]

theorem Means.paren (h : Means d P) (hd : Parses k d.toks d.expr → Parses .disjunction d.toks d.expr) :
    Means ((d.lift hd).paren.lift fun h => h.order.equality) P := by
  intro textTruth extract id doc
  rw [Clause.lift_expr, Clause.paren_expr, Clause.lift_expr, h textTruth extract id doc]

theorem CompilesAll.paren (h : CompilesAll .equality [] parts params params' Ps) :
    Compiles .equality (if parts.isEmpty then "1" else "(" ++ String.intercalate " AND " parts ++ ")") params
      params' fun value => ∀ P ∈ Ps, P value := by
  obtain ⟨d, ds, htext, hvalues, hmeans⟩ := h.joined
  by_cases hparts : parts = []
  · obtain ⟨es, rfl, rfl, hes⟩ := h
    obtain rfl : es = [] := by simpa using hparts
    cases hes
    exact ⟨oneMeans, rfl, by simp [oneMeans], fun _ _ _ _ => by simp [one_means _ _ _ _]⟩
  · have hfull : parts.isEmpty = false := by simpa using hparts
    rw [hfull] at htext ⊢
    refine ⟨_, ?_, hvalues, hmeans.paren fun h => h.disjunction⟩
    simp only [Clause.lift_text, Clause.paren_text, htext, Bool.false_eq_true, if_false]

/-! ## Fields -/

theorem compileOperators_compiles {ops : List (String × Json)}
    (hpath : fieldToJsonPath field = .ok path)
    (h : compileOperators field ("json_extract(doc, '" ++ path ++ "')") ops parts params =
      .ok (parts', params')) :
    CompilesAll .equality parts parts' params params'
      (ops.map fun o value => OperatorHolds (value field) o.1 o.2) := by
  induction ops generalizing parts params with
  | nil =>
    cases h
    exact compilesAll_nil
  | cons o ops ih =>
    simp only [compileOperators] at h
    split at h
    · cases h
    · split at h
      · cases h
      · next part params₁ hone =>
        exact .cons (compileOperator_compiles hpath hone) (ih h)

theorem compileField_compiles (h : compileField field spec params = .ok (sql, params')) :
    Compiles .equality sql params params' fun value => FieldHolds (value field) spec := by
  unfold compileField at h
  split at h
  · cases h
  · next path hpath =>
    simp only at h
    split at h
    · next ops =>
      split at h
      · cases h
      · next parts params₁ hops =>
        obtain ⟨d, htext, hvalues, hd⟩ := (compileOperators_compiles hpath hops).paren
        have hmeans : Means d fun value => FieldHolds (value field) (.object ops) := by
          intro textTruth extract id doc
          exact (hd textTruth extract id doc).trans List.forall_mem_map
        split at h
        · next hempty =>
          cases h
          exact ⟨d, by rw [htext, if_pos hempty], hvalues, hmeans⟩
        · next hempty =>
          cases h
          exact ⟨d, by rw [htext, if_neg hempty], hvalues, hmeans⟩
    · cases h
    · next hobject harray =>
      obtain ⟨d, htext, hvalues, hd⟩ := compileEq_compiles hpath h
      refine ⟨d, htext, hvalues, ?_⟩
      intro textTruth extract id doc
      rw [hd textTruth extract id doc]
      cases spec with
      | object ops => exact absurd rfl (hobject ops)
      | _ => rfl

/-! ## The whole filter -/

theorem compileEntry_compiles {fields : List (String × Json)}
    (h : compileEntry fields parts params = .ok (parts', params')) :
    CompilesAll .equality parts parts' params params'
      (fields.map fun f value => FieldHolds (value f.1) f.2) := by
  induction fields generalizing parts params with
  | nil =>
    cases h
    exact compilesAll_nil
  | cons f fields ih =>
    simp only [compileEntry] at h
    split at h
    · cases h
    · split at h
      · cases h
      · split at h
        · cases h
        · next part params₁ hone => exact .cons (compileField_compiles hone) (ih h)

theorem compileEntries_compiles {entries : List Json}
    (h : compileEntries entries parts params = .ok (parts', params')) :
    CompilesAll .conjunction parts parts' params params'
      (entries.map fun e value => EntryHolds value e) := by
  induction entries generalizing parts params with
  | nil =>
    cases h
    exact compilesAll_nil
  | cons e entries ih =>
    cases e with
    | object fields =>
      simp only [compileEntries] at h
      split at h
      · cases h
      · next texts params₁ hentry =>
        obtain ⟨d, ds, htext, hvalues, hd⟩ := (compileEntry_compiles hentry).joined
        refine .cons ⟨((d.all ds).lift fun h => h.disjunction).paren.lift fun h =>
          h.order.equality.conjunction, ?_, hvalues, ?_⟩ (ih h)
        · simp only [Clause.lift_text, Clause.paren_text, htext]
        · intro textTruth extract id doc
          rw [Clause.lift_expr, Clause.paren_expr, Clause.lift_expr]
          exact (hd textTruth extract id doc).trans List.forall_mem_map
    | _ => cases h

theorem compileOr_compiles (h : compileOr val params = .ok (sql, params')) :
    Compiles .equality sql params params' fun value => OrHolds value val := by
  unfold compileOr at h
  split at h
  · next entries =>
    split at h
    · cases h
    · next subs params₁ hentries =>
      obtain ⟨ds, hsubs, hvalues, hds⟩ := compileEntries_compiles hentries
      rw [List.nil_append] at hsubs
      cases ds with
      | nil =>
        subst hsubs
        cases h
        have hnone : entries = [] := by
          cases entries with
          | nil => rfl
          | cons e entries => cases hds
        refine ⟨zeroMeans, rfl, by simpa [zeroMeans] using hvalues, ?_⟩
        intro textTruth extract id doc
        rw [zero_means textTruth extract id doc, hnone]
        simp [OrHolds]
      | cons d ds =>
        subst hsubs
        cases h
        refine ⟨(d.any ds).paren.lift fun h => h.order.equality, ?_, ?_, ?_⟩
        · simp
        · simpa using hvalues
        · intro textTruth extract id doc
          rw [Clause.lift_expr, Clause.paren_expr, holds_any, exists_holds hds]
          simp only [List.mem_map, exists_exists_and_eq_and, OrHolds]
  · cases h

theorem compileKeys_compiles {fields : List (String × Json)}
    (h : compileKeys fields parts params = .ok (parts', params')) :
    CompilesAll .equality parts parts' params params'
      (fields.map fun f value => KeyHolds value f.1 f.2) := by
  induction fields generalizing parts params with
  | nil =>
    cases h
    exact compilesAll_nil
  | cons f fields ih =>
    obtain ⟨key, val⟩ := f
    simp only [compileKeys] at h
    split at h
    · cases h
    · next part params₁ hone =>
      refine .cons ?_ (ih h)
      unfold KeyHolds
      split at hone
      · next hor =>
        simp only [hor, if_true]
        exact compileOr_compiles hone
      · next hor =>
        simp only [hor, if_false]
        split at hone
        · cases hone
        · split at hone
          · cases hone
          · exact compileField_compiles hone

/-- The text is that of clauses joined by AND, so a further condition can be appended. -/
theorem compileFilter_clauses {filter : Option Json} {w : WhereClause}
    (h : compileFilter filter = .ok w) :
    ∃ (d : Clause .equality Value) (ds : List (Clause .equality Value)),
      w.sql = (d.all ds).text ∧ w.params = (d.all ds).values ∧
        Means (d.all ds) fun value => Matches value filter := by
  have hall : Means (oneMeans.all []) fun _ => True := by
    intro textTruth extract id doc
    rw [holds_all, List.forall_mem_singleton]
    exact one_means textTruth extract id doc
  unfold compileFilter at h
  split at h
  · cases h
    exact ⟨oneMeans, [], rfl, rfl, hall⟩
  · cases h
    exact ⟨oneMeans, [], rfl, rfl, hall⟩
  · next fields =>
    split at h
    · cases h
    · next parts params hkeys =>
      cases h
      obtain ⟨d, ds, htext, hvalues, hd⟩ := (compileKeys_compiles hkeys).joined
      refine ⟨d, ds, htext.symm, hvalues, ?_⟩
      intro textTruth extract id doc
      exact (hd textTruth extract id doc).trans List.forall_mem_map
  · cases h

/-! ## Rejected filters -/

def operators : List String := ["$eq", "$ne", "$gt", "$gte", "$lt", "$lte", "$in"]

def isScalar : Json → Bool
  | .array _ | .object _ => false
  | _ => true

/-- An array or an object, be it a nested operator map, where a scalar has to stand. `$in` takes an
array of scalars. -/
def BadOperand (op : String) (arg : Json) : Prop :=
  if op = "$in" then ¬∃ items, arg = .array items ∧ ∀ v ∈ items, isScalar v = true
  else isScalar arg = false

/-- A bad path, an array equality, an operator that is none of the seven, or a bad operand. -/
def BadField (key : String) (spec : Json) : Prop :=
  (∃ seg ∈ segments key, segmentOk seg = false) ∨ (∃ items, spec = .array items) ∨
    ∃ ops, spec = .object ops ∧ ∃ o ∈ ops, o.1 ∉ operators ∨ BadOperand o.1 o.2

/-- In an entry of `$or`. -/
def BadEntry : Json → Prop
  | .object fields => ∃ f ∈ fields, startsWithDollar f.1 = true ∨ BadField f.1 f.2
  | _ => True

/-- An operator other than `$or` for a key, any operator for a key in an entry of `$or`, what is no
entry, or a bad field at either place. -/
def BadKey (key : String) (val : Json) : Prop :=
  if key = "$or" then ¬∃ entries, val = .array entries ∧ ∀ e ∈ entries, ¬BadEntry e
  else startsWithDollar key = true ∨ BadField key val

def Malformed : Option Json → Prop
  | none | some .null => False
  | some (.object fields) => ∃ f ∈ fields, BadKey f.1 f.2
  | some _ => True

theorem appendSegments_segmentOk {out : String} {segs : List String}
    (h : appendSegments field segs out = .ok path) : ∀ seg ∈ segs, segmentOk seg = true := by
  induction segs generalizing out with
  | nil => simp
  | cons seg segs ih =>
    simp only [appendSegments] at h
    split at h
    · cases h
    · next hempty =>
      split at h
      · cases h
      · next hchars =>
        refine List.forall_mem_cons.mpr ⟨?_, ih h⟩
        simp only [Bool.not_eq_true', Bool.not_eq_false] at hchars
        simp [segmentOk, hempty, hchars]

theorem scalarToValue_isScalar {v : Json} {value : Value} (h : scalarToValue v = .ok value) :
    isScalar v = true := by
  cases v with
  | array | object => cases h
  | null | bool | number | string => rfl

theorem compileEq_isScalar (h : compileEq sql arg params = .ok (path, params')) :
    isScalar arg = true := by
  unfold compileEq at h
  split at h
  · rfl
  · split at h
    · cases h
    · next hv => exact scalarToValue_isScalar hv

theorem compileNe_isScalar (h : compileNe sql arg params = .ok (path, params')) :
    isScalar arg = true := by
  unfold compileNe at h
  split at h
  · rfl
  · split at h
    · cases h
    · next hv => exact scalarToValue_isScalar hv

theorem compileOrder_isScalar {cmp : String}
    (h : compileOrder sql cmp arg params = .ok (path, params')) : isScalar arg = true := by
  unfold compileOrder at h
  split at h
  · cases h
  · next hv => exact scalarToValue_isScalar hv

theorem pushItems_isScalar {items : List Json} (h : pushItems items params = .ok params') :
    ∀ v ∈ items, isScalar v = true := by
  induction items generalizing params with
  | nil => simp
  | cons v vs ih =>
    simp only [pushItems] at h
    split at h
    · cases h
    · next hv => exact List.forall_mem_cons.mpr ⟨scalarToValue_isScalar hv, ih h⟩

theorem compileIn_isScalar (h : compileIn sql arg params = .ok (path, params')) :
    ∃ items, arg = .array items ∧ ∀ v ∈ items, isScalar v = true := by
  unfold compileIn at h
  split at h
  · exact ⟨[], rfl, by simp⟩
  · next items _ =>
    split at h
    · cases h
    · next hitems => exact ⟨items, rfl, pushItems_isScalar hitems⟩
  · cases h

theorem compileOperator_good
    (h : compileOperator sql op arg params = .ok (path, params')) :
    ¬(op ∉ operators ∨ BadOperand op arg) := by
  unfold compileOperator at h
  split at h
  all_goals rw [not_or, not_not, BadOperand]
  · exact ⟨by decide, by simpa using compileEq_isScalar h⟩
  · exact ⟨by decide, by simpa using compileNe_isScalar h⟩
  · exact ⟨by decide, by simpa using compileOrder_isScalar h⟩
  · exact ⟨by decide, by simpa using compileOrder_isScalar h⟩
  · exact ⟨by decide, by simpa using compileOrder_isScalar h⟩
  · exact ⟨by decide, by simpa using compileOrder_isScalar h⟩
  · exact ⟨by decide, by simpa using compileIn_isScalar h⟩
  · cases h

theorem compileOperators_good {ops : List (String × Json)}
    (h : compileOperators field sql ops parts params = .ok (parts', params')) :
    ∀ o ∈ ops, ¬(o.1 ∉ operators ∨ BadOperand o.1 o.2) := by
  induction ops generalizing parts params with
  | nil => simp
  | cons o ops ih =>
    simp only [compileOperators] at h
    split at h
    · cases h
    · split at h
      · cases h
      · next part params₁ hone =>
        exact List.forall_mem_cons.mpr ⟨compileOperator_good hone, ih h⟩

theorem compileField_good (h : compileField field spec params = .ok (sql, params')) :
    ¬BadField field spec := by
  unfold compileField at h
  split at h
  · cases h
  · next path hpath =>
    have hsegs : ∀ seg ∈ segments field, segmentOk seg = true := by
      unfold fieldToJsonPath at hpath
      split at hpath
      · cases hpath
      · exact appendSegments_segmentOk hpath
    rintro (⟨seg, hseg, hbad⟩ | ⟨items, rfl⟩ | ⟨ops, rfl, o, ho, hop⟩)
    · rw [hsegs seg hseg] at hbad
      cases hbad
    · cases h
    · simp only at h
      split at h
      · cases h
      · next parts params₁ hops => exact compileOperators_good hops o ho hop

theorem compileEntry_good {fields : List (String × Json)}
    (h : compileEntry fields parts params = .ok (parts', params')) :
    ∀ f ∈ fields, ¬(startsWithDollar f.1 = true ∨ BadField f.1 f.2) := by
  induction fields generalizing parts params with
  | nil => simp
  | cons f fields ih =>
    simp only [compileEntry] at h
    split at h
    · cases h
    · split at h
      · cases h
      · next hdollar =>
        split at h
        · cases h
        · next part params₁ hone =>
          refine List.forall_mem_cons.mpr ⟨?_, ih h⟩
          rintro (hd | hbad)
          · exact hdollar hd
          · exact compileField_good hone hbad

theorem compileEntries_good {entries : List Json}
    (h : compileEntries entries parts params = .ok (parts', params')) :
    ∀ e ∈ entries, ¬BadEntry e := by
  induction entries generalizing parts params with
  | nil => simp
  | cons e entries ih =>
    cases e with
    | object fields =>
      simp only [compileEntries] at h
      split at h
      · cases h
      · next texts params₁ hentry =>
        refine List.forall_mem_cons.mpr ⟨?_, ih h⟩
        rintro ⟨f, hf, hbad⟩
        exact compileEntry_good hentry f hf hbad
    | _ => cases h

theorem compileKeys_good {fields : List (String × Json)}
    (h : compileKeys fields parts params = .ok (parts', params')) :
    ∀ f ∈ fields, ¬BadKey f.1 f.2 := by
  induction fields generalizing parts params with
  | nil => simp
  | cons f fields ih =>
    obtain ⟨key, val⟩ := f
    simp only [compileKeys] at h
    split at h
    · cases h
    · next part params₁ hone =>
      refine List.forall_mem_cons.mpr ⟨?_, ih h⟩
      unfold BadKey
      split at hone
      · next hor =>
        simp only [hor, if_true]
        rw [not_not]
        unfold compileOr at hone
        split at hone
        · next entries =>
          split at hone
          · cases hone
          · next subs params₂ hentries => exact ⟨entries, rfl, compileEntries_good hentries⟩
        · cases hone
      · next hor =>
        simp only [hor, if_false]
        split at hone
        · cases hone
        · split at hone
          · cases hone
          · next hdollar =>
            rintro (hd | hbad)
            · exact hdollar hd
            · exact compileField_good hone hbad

theorem malformed_rejected {filter : Option Json} (h : Malformed filter) (w : WhereClause) :
    compileFilter filter ≠ .ok w := by
  intro hok
  unfold compileFilter at hok
  split at hok
  · exact h
  · exact h
  · next fields =>
    split at hok
    · cases hok
    · next parts params hkeys =>
      obtain ⟨f, hf, hbad⟩ := h
      exact compileKeys_good hkeys f hf hbad
  · cases hok

/-! ## Text and meaning -/

/-- `id > ?` with the cursor. -/
def cursorClause (cursor : String) : Clause .equality Value :=
  let idClause : Clause .primary Value :=
    { text := "id"
      values := []
      expr := .column "id"
      toks := [.name "id"]
      spells := ⟨_, ⟨_, _, _, rfl, rfl, rfl⟩, rfl⟩
      parses := parses_column "id" }
  (idClause.order .gt (.text cursor)).lift fun h => h.equality

theorem cursorClause_text (cursor : String) : (cursorClause cursor).text = "id > ?" := rfl

theorem cursorClause_holds {cursor id : String} {textTruth : String → Bool}
    {extract : Value → String → Value} {doc : Value} :
    (cursorClause cursor).expr.Holds (sqlite textTruth) (docRow extract id doc) ↔
      Compares .gt (.text id) (.text cursor) :=
  Expr.holds_rel.trans rel_sqlite

def placeholders (sql : String) : Option Nat :=
  (lex (ν := Value) sql).map (List.countP Tok.isParam)

/-- The text has a placeholder for each value, and reads as a condition that is true for just the
documents that satisfy `P`. -/
def Reads (sql : String) (params : List Value)
    (P : (id : String) → (field : String → Value) → Prop) : Prop :=
  placeholders sql = some params.length ∧
    ∃ e, condition sql params = some e ∧ ∀ textTruth extract id doc,
      e.Holds (sqlite textTruth) (docRow extract id doc) ↔
        P id fun field => extract doc (dotted field)

theorem clause_reads (d : Clause .conjunction Value)
    {P : (id : String) → (field : String → Value) → Prop}
    (h : ∀ textTruth extract id doc, d.expr.Holds (sqlite textTruth) (docRow extract id doc) ↔
      P id fun field => extract doc (dotted field)) : Reads d.text d.values P := by
  obtain ⟨us, hlex, hbind⟩ := d.spells
  refine ⟨?_, d.expr, d.spells.condition d.parses.disjunction, h⟩
  rw [placeholders, hlex.lex, Option.map_some, bindParams_count hbind]

theorem compileFilter_reads {filter : Option Json} {w : WhereClause}
    (h : compileFilter filter = .ok w) :
    Reads w.sql w.params fun _ field => Matches field filter := by
  obtain ⟨d, ds, hsql, hparams, hd⟩ := compileFilter_clauses h
  rw [hsql, hparams]
  exact clause_reads (d.all ds) hd

theorem all_concat_text (d c : Clause .equality Value) (ds : List (Clause .equality Value)) :
    (d.all (ds ++ [c])).text = (d.all ds).text ++ " AND " ++ c.text := by
  rw [Clause.all_text, ← List.cons_append, List.map_append, List.map_singleton,
    String.intercalate_append_of_ne_nil (by simp) (by simp), String.intercalate_singleton,
    Clause.all_text]

theorem compileFilter_reads_cursor {filter : Option Json} {w : WhereClause}
    (h : compileFilter filter = .ok w) (cursor : String) :
    Reads (w.sql ++ " AND id > ?") (w.params ++ [.text cursor]) fun id field =>
      Matches field filter ∧ Compares .gt (.text id) (.text cursor) := by
  obtain ⟨d, ds, hsql, hparams, hd⟩ := compileFilter_clauses h
  have htext : (d.all ds).text ++ " AND id > ?" =
      (d.all (ds ++ [cursorClause cursor])).text := by
    rw [all_concat_text, cursorClause_text, String.append_assoc]
    rfl
  have hvalues : (d.all ds).values ++ [.text cursor] =
      (d.all (ds ++ [cursorClause cursor])).values := by
    simp [cursorClause]
  rw [hsql, hparams, htext, hvalues]
  apply clause_reads
  intro textTruth extract id doc
  have hold := hd textTruth extract id doc
  rw [holds_all] at hold
  rw [holds_all, ← List.cons_append, List.forall_mem_append, hold, List.forall_mem_singleton,
    cursorClause_holds]

/-- What the filter compiler accepts it compiles to its meaning, also with the condition of a cursor
behind it, and it accepts no malformed filter. -/
theorem compile_filter_meaning (filter : Option Json) :
    (∀ w, compileFilter filter = .ok w →
      Reads w.sql w.params (fun _ field => Matches field filter) ∧
      ∀ cursor, Reads (w.sql ++ " AND id > ?") (w.params ++ [.text cursor]) fun id field =>
        Matches field filter ∧ Compares .gt (.text id) (.text cursor)) ∧
    (Malformed filter → ∀ w, compileFilter filter ≠ .ok w) :=
  ⟨fun _ h => ⟨compileFilter_reads h, compileFilter_reads_cursor h⟩, malformed_rejected⟩

def adultOrNew : Json :=
  .object [("$or", .array [.object [("user.age", .object [("$gte", .number (.posInt 18))])],
    .object [("new", .bool true)]]), ("status", .string "active")]

def regexFilter : Json := .object [("name", .object [("$regex", .string "x")])]

/-- An operator map as the operand of an operator. -/
def nestedFilter : Json :=
  .object [("age", .object [("$eq", .object [("$gt", .number (.posInt 1))])])]

theorem compile_filter_meaning_adultOrNew :
    Reads
      ("((" ++ "(json_extract(doc, '$.user.age') >= ?)) OR (json_extract(doc, '$.new') = ?))" ++
        " AND json_extract(doc, '$.status') = ?" ++ " AND id > ?")
      [.integer 18, .integer 1, .text "active", .text "01A"]
      (fun id field => Matches field (some adultOrNew) ∧ Compares .gt (.text id) (.text "01A")) ∧
    ∀ w, compileFilter (some regexFilter) ≠ .ok w ∧ compileFilter (some nestedFilter) ≠ .ok w := by
  have hregex : Malformed (some regexFilter) := by
    refine ⟨_, .head _, ?_⟩
    rw [BadKey, if_neg (by decide)]
    exact Or.inr (Or.inr (Or.inr ⟨_, rfl, _, .head _, Or.inl (by decide)⟩))
  have hnested : Malformed (some nestedFilter) := by
    refine ⟨_, .head _, ?_⟩
    rw [BadKey, if_neg (by decide)]
    exact Or.inr (Or.inr (Or.inr ⟨_, rfl, _, .head _, Or.inr rfl⟩))
  exact ⟨((compile_filter_meaning (some adultOrNew)).1 _ rfl).2 "01A", fun w =>
    ⟨(compile_filter_meaning (some regexFilter)).2 hregex w,
      (compile_filter_meaning (some nestedFilter)).2 hnested w⟩⟩

end TinyLord
