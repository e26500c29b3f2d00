import TinyLord.Query.Meaning
import TinyLord.Realtime.Subscribe

/-!
# Subscription filters beside query filters

A subscription compares JSON values, and a query compares what `json_extract` makes of them.
The two differ on a few pairs of values: null and a missing field, null in a `$in` list,
numbers of one value in two forms, booleans and 0 or 1, and a text that spells an array or
object. A filter with an array or object to compare with is accepted by the one only.
-/

open Lib.Sql

namespace TinyLord.Realtime

/-! ## `EqFilter::parse` -/

def splitField (key : String) : Except ApiError (List String) :=
  if key.isEmpty then .error (.badRequest "empty field in subscribe filter")
  else if (segments key).all segmentOk then .ok (segments key)
  else .error (.badRequest "invalid field in subscribe filter")

def parseMatch : Json → Except ApiError EqMatch
  | .object [("$eq", arg)] => .ok (.eq arg)
  | .object [("$in", .array items)] => .ok (.isIn items)
  | .object [("$in", _)] => .error (.badRequest "$in requires an array")
  | .object [_] => .error (.badRequest "subscribe filter supports only $eq and $in")
  | .object _ =>
    .error (.badRequest "subscribe filter operator map must have exactly one operator")
  | scalar => .ok (.eq scalar)

def parseClauses : List (String × Json) → Except ApiError (List (List String × EqMatch))
  | [] => .ok []
  | (key, val) :: fields =>
    if startsWithDollar key then
      .error (.badRequest "subscribe filter supports only field equality and $in")
    else
      match splitField key with
      | .error e => .error e
      | .ok path =>
        match parseMatch val with
        | .error e => .error e
        | .ok m =>
          match parseClauses fields with
          | .error e => .error e
          | .ok clauses => .ok ((path, m) :: clauses)

def EqFilter.parse : Json → Except ApiError EqFilter
  | .object fields =>
    match parseClauses fields with
    | .error e => .error e
    | .ok clauses => .ok { clauses }
  | _ => .error (.badRequest "subscribe filter must be a JSON object")

/-! ## What `json_extract` gives -/

section

-- The text of an array or object.
variable (jsonText : Json → String)

def sqlOf : Json → Value
  | .array items => .text (jsonText (.array items))
  | .object fields => .text (jsonText (.object fields))
  | scalar => argument scalar

/-- The path is `$` and dotted labels, as the compiler builds it. -/
def jsonExtract (doc : Json) (path : String) : Value :=
  match segments path with
  | "$" :: labels => (lookup doc labels).elim .null (sqlOf jsonText)
  | _ => .null

/-! ## Where the two differ -/

/-- The number SQLite has for a JSON value, scaled as in `floatScaled`. -/
def numeric : Json → Option Int
  | .bool b => some (intScaled b.toNat)
  | .number (.posInt n) =>
    some (if n < 2 ^ 63 then intScaled n else floatScaled (floatOfNat n))
  | .number (.negInt i) => some (intScaled i)
  | .number (.float bits) => some (floatScaled bits)
  | _ => none

def isContainer : Json → Bool
  | .array _ | .object _ => true
  | _ => false

/-- Equal as JSON values. -/
def EqualTo (v : Json) (actual : Option Json) : Prop := ∃ y ∈ actual, v.eqv y = true

/-- Taken for equal by SQLite only: null and no value, one number in two forms, or the text of an
array or object. -/
def Alias (v : Json) (actual : Option Json) : Prop :=
  (v = .null ∧ actual = none) ∨
  (∃ y ∈ actual, ∃ k, numeric v = some k ∧ numeric y = some k ∧ v.eqv y = false) ∨
  ∃ y ∈ actual, isContainer y = true ∧ v = .string (jsonText y)

/-- Only the query has the clause true. -/
def Looser : EqMatch → Option Json → Prop
  | .eq v, actual => Alias jsonText v actual
  | .isIn vs, actual =>
    (∃ v ∈ vs, v ≠ .null ∧ Alias jsonText v actual) ∧ ∀ v ∈ vs, ¬EqualTo v actual

/-- Only the subscription has the clause true. -/
def Stricter : EqMatch → Option Json → Prop
  | .eq _, _ => False
  | .isIn vs, actual => .null ∈ vs ∧ actual = some .null

/-- Neither has it true. -/
def Refused : EqMatch → Option Json → Prop
  | .eq v, actual => ¬EqualTo v actual ∧ ¬Alias jsonText v actual
  | .isIn vs, actual => ∀ v ∈ vs, ¬EqualTo v actual ∧ (v = .null ∨ ¬Alias jsonText v actual)

/-- Nothing to compare with is an array or object. -/
def ScalarMatch : EqMatch → Prop
  | .eq v => isContainer v = false
  | .isIn vs => ∀ v ∈ vs, isContainer v = false

/-- Scalars only, and for this document a clause that both refuse, or as many kinds of difference
one way as the other: none, or both. -/
def Agrees (f : EqFilter) (doc : Json) : Prop :=
  (∀ c ∈ f.clauses, ScalarMatch c.2) ∧
    ((∃ c ∈ f.clauses, Refused jsonText c.2 (lookup doc c.1)) ∨
      ((∃ c ∈ f.clauses, Looser jsonText c.2 (lookup doc c.1)) ↔
        ∃ c ∈ f.clauses, Stricter c.2 (lookup doc c.1)))

end

/-! ## Values -/

variable {jsonText : Json → String} {v y : Json} {x w : Value} {k l : Int} {m : EqMatch}
  {actual : Option Json}

theorem eqv_comm_number (a b : Number) : a.eqv b = b.eqv a := by
  cases a <;> cases b <;>
    simp [Number.eqv, floatEq, Bool.and_comm, BEq.comm]

theorem eqv_comm (hv : isContainer v = false) : y.eqv v = v.eqv y := by
  cases v <;> cases y <;> try first | rfl | cases hv
  · rw [Json.eqv, Json.eqv, BEq.comm]
  · rw [Json.eqv, Json.eqv, eqv_comm_number]
  · rw [Json.eqv, Json.eqv, BEq.comm]

theorem intScaled_inj {i j : Int} : intScaled i = intScaled j ↔ i = j := by
  have hpos : (2 : Int) ^ 1074 ≠ 0 := pow_ne_zero _ (by decide)
  unfold intScaled
  exact ⟨Int.eq_of_mul_eq_mul_right hpos, fun h => by rw [h]⟩

theorem floatScaled_zero {bits : BitVec 64} (h : bits <<< 1 = 0) : floatScaled bits = 0 := by
  have hshift : bits.toNat * 2 ^ 1 % 2 ^ 64 = 0 := by
    have := congrArg BitVec.toNat h
    rwa [BitVec.toNat_shiftLeft, Nat.shiftLeft_eq] at this
  have hlt := bits.isLt
  have hbits : bits.toNat = 0 ∨ bits.toNat = 2 ^ 63 := by omega
  have hmagnitude : bits.toNat / 2 ^ 52 % 2 ^ 11 = 0 ∧ bits.toNat % 2 ^ 52 = 0 := by omega
  unfold floatScaled
  rw [hmagnitude.1, hmagnitude.2]
  simp

theorem floatScaled_of_floatEq {a b : BitVec 64} (h : floatEq a b = true) :
    floatScaled a = floatScaled b := by
  simp only [floatEq, Bool.or_eq_true, Bool.and_eq_true, beq_iff_eq] at h
  rcases h with rfl | ⟨ha, hb⟩
  · rfl
  · rw [floatScaled_zero ha, floatScaled_zero hb]

def Value.scaled : Value → Option Int
  | .integer i => some (intScaled i)
  | .real bits => some (floatScaled bits)
  | _ => none

theorem numeric_eq : numeric v = Value.scaled (argument v) := by
  cases v with
  | number n =>
    cases n with
    | posInt n =>
      simp only [numeric, argument, u64ToValue]
      split <;> rfl
    | _ => rfl
  | _ => rfl

theorem compares_scaled (hx : Value.scaled x = some k) (hw : Value.scaled w = some l) :
    Compares .eq x w ↔ k = l := by
  cases x <;> cases hx <;> cases w <;> cases hw <;>
    simp [Compares, Value.compare, Rel.holds, intScaled_inj]

/-! ## One comparison -/

theorem scaled_sqlOf : Value.scaled (sqlOf jsonText y) = numeric y := by
  cases y <;> first | rfl | exact numeric_eq.symm

theorem numeric_of_eqv (hv : isContainer v = false) (h : v.eqv y = true) :
    numeric v = numeric y := by
  cases v <;> cases y <;> simp only [Json.eqv, Bool.false_eq_true] at h
  · rfl
  · rw [beq_iff_eq.mp h]
  · next a b =>
    cases a <;> cases b <;> simp only [Number.eqv, Bool.false_eq_true, beq_iff_eq] at h
    · rw [h]
    · rw [h]
    · simp only [numeric, floatScaled_of_floatEq h]
  · rfl
  · cases hv
  · cases hv

theorem not_compares_of_scaled (hx : Value.scaled x = none) (hw : Value.scaled w = some k) :
    ¬Compares .eq x w := by
  cases x <;> cases hx <;> cases w <;> cases hw <;>
    simp [Compares, Value.compare, Rel.holds]

theorem equalTo_some : EqualTo v (some y) ↔ v.eqv y = true := by
  simp [EqualTo]

theorem alias_some : Alias jsonText v (some y) ↔
    (∃ k, numeric v = some k ∧ numeric y = some k ∧ v.eqv y = false) ∨
      (isContainer y = true ∧ v = .string (jsonText y)) := by
  simp [Alias]

theorem compares_number (hv : isContainer v = false) (hk : numeric v = some k) :
    Compares .eq (sqlOf jsonText y) (argument v) ↔
      EqualTo v (some y) ∨ Alias jsonText v (some y) := by
  have hw : Value.scaled (argument v) = some k := numeric_eq ▸ hk
  have htext : ∀ s, v ≠ .string s := by
    rintro s rfl
    cases hk
  rw [equalTo_some, alias_some]
  cases hl : numeric y with
  | none =>
    have hx : Value.scaled (sqlOf jsonText y) = none := scaled_sqlOf.trans hl
    have hne : v.eqv y ≠ true := fun h => by
      rw [← numeric_of_eqv hv h, hk] at hl
      cases hl
    simp [not_compares_of_scaled hx hw, hne, htext]
  | some l =>
    rw [compares_scaled (scaled_sqlOf.trans hl) hw]
    have heqv : v.eqv y = true → l = k := fun h => by
      have := numeric_of_eqv hv h
      rw [hk, hl] at this
      exact (Option.some.inj this).symm
    cases hequal : v.eqv y with
    | true => simp [heqv hequal]
    | false => simp [hk, htext]

theorem compares_text {a b : String} : Compares .eq (.text a) (.text b) ↔ a = b := by
  simp [Compares, Value.compare, Rel.holds]

theorem not_compares_text {s : String} (hx : ∀ t, x ≠ .text t) : ¬Compares .eq x (.text s) := by
  cases x with
  | text t => exact absurd rfl (hx t)
  | _ => simp [Compares, Value.compare, Rel.holds]

theorem sqlOf_ne_text (hy : ∀ t, y ≠ .string t) (hc : isContainer y = false) (t : String) :
    sqlOf jsonText y ≠ .text t := by
  cases y with
  | string t => exact absurd rfl (hy t)
  | number n =>
    cases n with
    | posInt n =>
      simp only [sqlOf, argument, u64ToValue]
      split <;> simp
    | _ => simp [sqlOf, argument]
  | array => cases hc
  | object => cases hc
  | _ => simp [sqlOf, argument]

theorem compares_string {s : String} : Compares .eq (sqlOf jsonText y) (argument (.string s)) ↔
    EqualTo (.string s) (some y) ∨ Alias jsonText (.string s) (some y) := by
  have hnumeric : numeric (.string s) = none := rfl
  rw [equalTo_some, alias_some, hnumeric]
  cases y with
  | string t =>
    have hcompares : Compares .eq (.text t) (.text s) ↔ s = t := compares_text.trans eq_comm
    simpa [sqlOf, argument, Json.eqv, isContainer] using hcompares
  | array items =>
    have hcompares : Compares .eq (.text (jsonText (.array items))) (.text s) ↔
        s = jsonText (.array items) := compares_text.trans eq_comm
    simpa [sqlOf, argument, Json.eqv, isContainer] using hcompares
  | object fields =>
    have hcompares : Compares .eq (.text (jsonText (.object fields))) (.text s) ↔
        s = jsonText (.object fields) := compares_text.trans eq_comm
    simpa [sqlOf, argument, Json.eqv, isContainer] using hcompares
  | null =>
    exact iff_of_false (not_compares_text (sqlOf_ne_text (fun _ => Json.noConfusion) rfl))
      (by simp [Json.eqv, isContainer])
  | bool b =>
    exact iff_of_false (not_compares_text (sqlOf_ne_text (fun _ => Json.noConfusion) rfl))
      (by simp [Json.eqv, isContainer])
  | number n =>
    exact iff_of_false (not_compares_text (sqlOf_ne_text (fun _ => Json.noConfusion) rfl))
      (by simp [Json.eqv, isContainer])

theorem sqlOf_isNull : (sqlOf jsonText y).isNull = true ↔ y = .null := by
  cases y with
  | number n =>
    cases n with
    | posInt n =>
      simp only [sqlOf, argument, u64ToValue]
      split <;> simp [Value.isNull]
    | _ => simp [sqlOf, argument, Value.isNull]
  | _ => simp [sqlOf, argument, Value.isNull]

theorem compares_iff (hv : isContainer v = false) (hn : v ≠ .null) :
    Compares .eq (actual.elim .null (sqlOf jsonText)) (argument v) ↔
      EqualTo v actual ∨ Alias jsonText v actual := by
  cases actual with
  | none => simp [Compares, Value.compare, EqualTo, Alias, hn]
  | some y =>
    cases v with
    | null => exact absurd rfl hn
    | string s => exact compares_string
    | bool b => exact compares_number rfl rfl
    | number n =>
      have hk : ∃ k, numeric (.number n) = some k := by
        cases n <;> exact ⟨_, rfl⟩
      obtain ⟨k, hk⟩ := hk
      exact compares_number rfl hk
    | array => cases hv
    | object => cases hv

theorem not_compares_null : ¬Compares .eq x .null := by
  cases x <;> simp [Compares, Value.compare]

theorem eqHolds_iff (hv : isContainer v = false) :
    EqHolds (actual.elim .null (sqlOf jsonText)) v ↔
      EqualTo v actual ∨ Alias jsonText v actual := by
  by_cases hn : v = .null
  · subst hn
    cases actual with
    | none => simp [EqHolds, Value.isNull, Alias]
    | some y =>
      rw [equalTo_some, alias_some]
      cases y <;> simp [EqHolds, sqlOf_isNull, Json.eqv, numeric]
  · rw [eqHolds_of_ne_null hn, compares_iff hv hn]

/-! ## One clause -/

/-- What a query makes of the clause. -/
def QueryHolds (x : Value) : EqMatch → Prop
  | .eq v => EqHolds x v
  | .isIn vs => InHolds x (.array vs)

theorem alias_not_equal (h : Alias jsonText v actual) : ¬EqualTo v actual := by
  rintro ⟨y, hy, heqv⟩
  rcases h with ⟨rfl, hnone⟩ | ⟨z, hz, k, -, -, hne⟩ | ⟨z, hz, hcontainer, rfl⟩
  · rw [hnone] at hy
    cases hy
  · cases hy.symm.trans hz
    rw [heqv] at hne
    cases hne
  · cases hy.symm.trans hz
    cases y <;> simp [isContainer, Json.eqv] at hcontainer heqv

theorem test_eq_iff (hv : isContainer v = false) :
    actual.elim false (EqMatch.eq v).test = true ↔ EqualTo v actual := by
  cases actual with
  | none => simp [EqualTo]
  | some y => simp [EqMatch.test, EqualTo, eqv_comm hv]

theorem test_isIn_iff {vs : List Json} :
    actual.elim false (EqMatch.isIn vs).test = true ↔ ∃ v ∈ vs, EqualTo v actual := by
  cases actual with
  | none => simp [EqualTo]
  | some y => simp [EqMatch.test, EqualTo]

theorem inHolds_iff {vs : List Json} (hvs : ∀ v ∈ vs, isContainer v = false) :
    InHolds (actual.elim .null (sqlOf jsonText)) (.array vs) ↔
      ∃ v ∈ vs, v ≠ .null ∧ (EqualTo v actual ∨ Alias jsonText v actual) := by
  constructor
  · rintro ⟨v, hv, hcompares⟩
    by_cases hn : v = .null
    · subst hn
      exact absurd hcompares not_compares_null
    · exact ⟨v, hv, hn, (compares_iff (hvs v hv) hn).mp hcompares⟩
  · rintro ⟨v, hv, hn, h⟩
    exact ⟨v, hv, (compares_iff (hvs v hv) hn).mpr h⟩

theorem null_of_equalTo (h : EqualTo .null actual) : actual = some .null := by
  obtain ⟨y, rfl, heqv⟩ := h
  cases y <;> first | rfl | cases heqv

theorem null_of_known (hv : isContainer v = false)
    (h : EqualTo v (some .null) ∨ Alias jsonText v (some .null)) : v = .null := by
  rw [equalTo_some, alias_some] at h
  cases v <;> simp [Json.eqv, numeric, isContainer] at h hv ⊢

theorem test_iff (hm : ScalarMatch m) : actual.elim false m.test = true ↔
    ¬(Looser jsonText m actual ∨ Refused jsonText m actual) := by
  cases m with
  | eq v =>
    have hexclusive : Alias jsonText v actual → ¬EqualTo v actual := alias_not_equal
    rw [test_eq_iff hm]
    simp only [Looser, Refused]
    tauto
  | isIn vs =>
    rw [test_isIn_iff]
    simp only [Looser, Refused]
    constructor
    · rintro ⟨v, hv, hequal⟩ (⟨-, hnone⟩ | hnone)
      · exact hnone v hv hequal
      · exact (hnone v hv).1 hequal
    · intro h
      by_contra hno
      have hnone : ∀ v ∈ vs, ¬EqualTo v actual := fun v hv hequal => hno ⟨v, hv, hequal⟩
      apply h
      by_cases halias : ∃ v ∈ vs, v ≠ .null ∧ Alias jsonText v actual
      · exact Or.inl ⟨halias, hnone⟩
      · refine Or.inr fun v hv => ⟨hnone v hv, ?_⟩
        by_cases hn : v = .null
        · exact Or.inl hn
        · exact Or.inr fun ha => halias ⟨v, hv, hn, ha⟩

theorem query_iff (hm : ScalarMatch m) :
    QueryHolds (actual.elim .null (sqlOf jsonText)) m ↔
      ¬(Stricter m actual ∨ Refused jsonText m actual) := by
  cases m with
  | eq v =>
    rw [QueryHolds, eqHolds_iff hm]
    simp only [Stricter, Refused]
    rw [false_or, not_and_or, not_not, not_not]
  | isIn vs =>
    rw [QueryHolds, inHolds_iff hm]
    simp only [Stricter, Refused]
    constructor
    · rintro ⟨v, hv, hn, h⟩ (⟨-, rfl⟩ | hnone)
      · exact hn (null_of_known (hm v hv) h)
      · obtain ⟨hne, hor⟩ := hnone v hv
        rcases h with h | h
        · exact hne h
        · exact hor.elim hn fun ha => ha h
    · intro h
      by_contra hno
      apply h
      by_cases hequal : ∃ v ∈ vs, EqualTo v actual
      · obtain ⟨v, hv, hequal⟩ := hequal
        have hn : v = .null := by
          by_contra hn
          exact hno ⟨v, hv, hn, Or.inl hequal⟩
        subst hn
        exact Or.inl ⟨hv, null_of_equalTo hequal⟩
      · refine Or.inr fun v hv => ⟨fun he => hequal ⟨v, hv, he⟩, ?_⟩
        by_cases hn : v = .null
        · exact Or.inl hn
        · exact Or.inr fun ha => hno ⟨v, hv, hn, Or.inr ha⟩

/-! ## Parsed filters -/

/-- A field of the filter and the clause it is parsed to. -/
def ParsedAs (field : String × Json) (c : List String × EqMatch) : Prop :=
  startsWithDollar field.1 = false ∧ splitField field.1 = .ok c.1 ∧ parseMatch field.2 = .ok c.2

theorem parseClauses_ok {fields : List (String × Json)} {cs : List (List String × EqMatch)}
    (h : parseClauses fields = .ok cs) : List.Forall₂ ParsedAs fields cs := by
  induction fields generalizing cs with
  | nil =>
    cases h
    exact .nil
  | cons field fields ih =>
    obtain ⟨key, val⟩ := field
    simp only [parseClauses] at h
    split at h
    · cases h
    · next hdollar =>
      split at h
      · cases h
      · next path hpath =>
        split at h
        · cases h
        · next m hm =>
          split at h
          · cases h
          · next rest hrest =>
            cases h
            exact .cons ⟨by simpa using hdollar, hpath, hm⟩ (ih hrest)

theorem parse_ok {filter : Json} {f : EqFilter} (h : EqFilter.parse filter = .ok f) :
    ∃ fields, filter = .object fields ∧ List.Forall₂ ParsedAs fields f.clauses := by
  unfold EqFilter.parse at h
  split at h
  · next fields =>
    split at h
    · cases h
    · next cs hcs =>
      cases h
      exact ⟨fields, rfl, parseClauses_ok hcs⟩
  · cases h

theorem parseMatch_ok {spec : Json} (h : parseMatch spec = .ok m) :
    (∃ v, m = .eq v ∧ spec = .object [("$eq", v)]) ∨
    (∃ vs, m = .isIn vs ∧ spec = .object [("$in", .array vs)]) ∨
    (m = .eq spec ∧ ∀ fields, spec ≠ .object fields) := by
  unfold parseMatch at h
  split at h
  · cases h
    exact Or.inl ⟨_, rfl, rfl⟩
  · cases h
    exact Or.inr (Or.inl ⟨_, rfl, rfl⟩)
  · cases h
  · cases h
  · cases h
  · next hobject =>
    cases h
    exact Or.inr (Or.inr ⟨rfl, hobject⟩)

theorem fieldHolds_iff {spec : Json} (h : parseMatch spec = .ok m) :
    FieldHolds x spec ↔ QueryHolds x m := by
  rcases parseMatch_ok h with ⟨v, rfl, rfl⟩ | ⟨vs, rfl, rfl⟩ | ⟨rfl, hobject⟩
  · simp [FieldHolds, OperatorHolds, QueryHolds]
  · simp [FieldHolds, OperatorHolds, QueryHolds]
  · cases spec with
    | object fields => exact absurd rfl (hobject fields)
    | _ => rfl

theorem splitField_ok {key : String} {path : List String} (h : splitField key = .ok path) :
    path = segments key ∧ fieldToJsonPath key = .ok (dotted key) := by
  unfold splitField at h
  split at h
  · cases h
  · next hkey =>
    split at h
    · next hsegs =>
      cases h
      have hok : fieldToJsonPath key =
          .ok ((segments key).foldl (fun out seg => out ++ "." ++ seg) "$") := by
        rw [fieldToJsonPath, if_neg hkey, appendSegments_of_ok "$" hsegs]
      refine ⟨rfl, ?_⟩
      rw [hok, ← (fieldToJsonPath_ok hok).1]
    · cases h

/-- The compiler finds in the document what the subscription finds. -/
theorem jsonExtract_dotted {doc : Json} (key : String) :
    jsonExtract jsonText doc (dotted key) =
      (lookup doc (segments key)).elim .null (sqlOf jsonText) := by
  have hsegs : segments (dotted key) = "$" :: segments key := by
    have hlist : (dotted key).toList = ['$'] ++ '.' :: key.toList := by
      rw [dotted, String.toList_append]
      rfl
    rw [segments, hlist, List.splitOn_append_cons_self_of_not_mem (by decide)]
    rfl
  simp only [jsonExtract, hsegs]

/-! ## What the compiler accepts -/

variable {params : List Value} {parts : List String}

theorem scalarToValue_accepts : (∃ w, scalarToValue v = .ok w) ↔ isContainer v = false := by
  cases v with
  | number n => cases n <;> simp [scalarToValue, isContainer]
  | _ => simp [scalarToValue, isContainer]

theorem compileEq_accepts {extract : String} :
    (∃ r, compileEq extract v params = .ok r) ↔ isContainer v = false := by
  rw [← scalarToValue_accepts]
  unfold compileEq
  split
  · exact iff_of_true ⟨_, rfl⟩ ⟨_, rfl⟩
  · cases h : scalarToValue v <;> simp

theorem pushItems_accepts {vs : List Json} :
    (∃ r, pushItems vs params = .ok r) ↔ ∀ v ∈ vs, isContainer v = false := by
  induction vs generalizing params with
  | nil => simp [pushItems]
  | cons v vs ih =>
    rw [List.forall_mem_cons, ← scalarToValue_accepts]
    simp only [pushItems]
    cases h : scalarToValue v with
    | error e => simp
    | ok w => simp [ih]

theorem compileIn_accepts {extract : String} {vs : List Json} :
    (∃ r, compileIn extract (.array vs) params = .ok r) ↔ ∀ v ∈ vs, isContainer v = false := by
  cases vs with
  | nil => simp [compileIn]
  | cons v vs =>
    have hpush : (∃ r, pushItems (v :: vs) params = .ok r) ↔
        ∀ i ∈ v :: vs, isContainer i = false := pushItems_accepts
    rw [← hpush]
    simp only [compileIn]
    cases h : pushItems (v :: vs) params <;> simp

theorem compileOperators_one {field extract op : String} {arg : Json}
    (hop : startsWithDollar op = true) :
    (∃ r, compileOperators field extract [(op, arg)] [] params = .ok r) ↔
      ∃ r, compileOperator extract op arg params = .ok r := by
  simp only [compileOperators, hop]
  cases h : compileOperator extract op arg params <;> simp

theorem compileField_object {key path : String} {ops : List (String × Json)}
    (hpath : fieldToJsonPath key = .ok path) :
    (∃ r, compileField key (.object ops) params = .ok r) ↔
      ∃ r, compileOperators key ("json_extract(doc, '" ++ path ++ "')") ops [] params = .ok r := by
  simp only [compileField, hpath]
  cases h : compileOperators key ("json_extract(doc, '" ++ path ++ "')") ops [] params with
  | error e => simp
  | ok r =>
    simp only
    split <;> simp

theorem compileField_accepts {key : String} {path : List String} {spec : Json}
    (hpath : splitField key = .ok path) (hm : parseMatch spec = .ok m) :
    (∃ r, compileField key spec params = .ok r) ↔ ScalarMatch m := by
  obtain ⟨-, hpath⟩ := splitField_ok hpath
  rcases parseMatch_ok hm with ⟨v, rfl, rfl⟩ | ⟨vs, rfl, rfl⟩ | ⟨rfl, hobject⟩
  · rw [compileField_object hpath, compileOperators_one (by decide)]
    exact compileEq_accepts
  · rw [compileField_object hpath, compileOperators_one (by decide)]
    exact compileIn_accepts
  · simp only [compileField, hpath]
    cases spec with
    | object fields => exact absurd rfl (hobject fields)
    | array items => simp [ScalarMatch, isContainer]
    | _ => exact compileEq_accepts

theorem ne_of_dollar {key op : String} (hkey : startsWithDollar key = false)
    (hop : startsWithDollar op = true) : key ≠ op := by
  rintro rfl
  rw [hkey] at hop
  cases hop

theorem compileKeys_accepts {fields : List (String × Json)} {cs : List (List String × EqMatch)}
    (h : List.Forall₂ ParsedAs fields cs) :
    (∃ r, compileKeys fields parts params = .ok r) ↔ ∀ c ∈ cs, ScalarMatch c.2 := by
  induction h generalizing parts params with
  | nil => simp [compileKeys]
  | @cons field c fields cs hone _ ih =>
    obtain ⟨key, val⟩ := field
    obtain ⟨hdollar, hpath, hm⟩ := hone
    have hor : key ≠ "$or" := ne_of_dollar hdollar rfl
    have hand : key ≠ "$and" := ne_of_dollar hdollar rfl
    have hfirst : (∃ r, compileField key val params = .ok r) ↔ ScalarMatch c.2 :=
      compileField_accepts hpath hm
    rw [List.forall_mem_cons, ← hfirst]
    simp only [compileKeys, hor, hand, hdollar, if_false, Bool.false_eq_true]
    cases hfield : compileField key val params with
    | error e => simp
    | ok r => simp [ih]

/-! ## The two filters -/

theorem matches_iff {f : EqFilter} {doc : Json} (hscalar : ∀ c ∈ f.clauses, ScalarMatch c.2) :
    f.matches doc = true ↔ ¬∃ c ∈ f.clauses,
      Looser jsonText c.2 (lookup doc c.1) ∨ Refused jsonText c.2 (lookup doc c.1) := by
  simp only [EqFilter.matches, List.all_eq_true, not_exists, not_and]
  constructor
  · intro h c hc
    exact (test_iff (hscalar c hc)).mp (h c hc)
  · intro h c hc
    exact (test_iff (hscalar c hc)).mpr (h c hc)

theorem queryHolds_iff {f : EqFilter} {doc : Json} (hscalar : ∀ c ∈ f.clauses, ScalarMatch c.2) :
    (∀ c ∈ f.clauses, QueryHolds ((lookup doc c.1).elim .null (sqlOf jsonText)) c.2) ↔
      ¬∃ c ∈ f.clauses, Stricter c.2 (lookup doc c.1) ∨ Refused jsonText c.2 (lookup doc c.1) := by
  simp only [not_exists, not_and]
  constructor
  · intro h c hc
    exact (query_iff (hscalar c hc)).mp (h c hc)
  · intro h c hc
    exact (query_iff (hscalar c hc)).mpr (h c hc)

theorem agrees_iff {f : EqFilter} {doc : Json} (hscalar : ∀ c ∈ f.clauses, ScalarMatch c.2) :
    (f.matches doc = true ↔
      ∀ c ∈ f.clauses, QueryHolds ((lookup doc c.1).elim .null (sqlOf jsonText)) c.2) ↔
    Agrees jsonText f doc := by
  rw [@matches_iff jsonText _ _ hscalar, queryHolds_iff hscalar, not_iff_not]
  simp only [and_or_left, exists_or]
  unfold Agrees
  constructor
  · intro h
    refine ⟨hscalar, ?_⟩
    by_cases hrefused : ∃ c ∈ f.clauses, Refused jsonText c.2 (lookup doc c.1)
    · exact Or.inl hrefused
    · right
      simpa only [hrefused, or_false] using h
  · rintro ⟨-, hrefused | h⟩
    · exact iff_of_true (Or.inr hrefused) (Or.inr hrefused)
    · rw [h]

theorem matches_fields {fields : List (String × Json)} {cs : List (List String × EqMatch)}
    {doc : Json} (h : List.Forall₂ ParsedAs fields cs) :
    Matches (fun key => jsonExtract jsonText doc (dotted key)) (some (.object fields)) ↔
      ∀ c ∈ cs, QueryHolds ((lookup doc c.1).elim .null (sqlOf jsonText)) c.2 := by
  simp only [Matches]
  induction h with
  | nil => simp
  | @cons field c fields cs hone _ ih =>
    obtain ⟨key, val⟩ := field
    obtain ⟨path, m⟩ := c
    obtain ⟨hdollar, hpath, hm⟩ := hone
    have hor : key ≠ "$or" := ne_of_dollar hdollar rfl
    obtain ⟨rfl, -⟩ := splitField_ok hpath
    rw [List.forall_mem_cons, List.forall_mem_cons, ih]
    simp only [KeyHolds, hor, if_false, jsonExtract_dotted, fieldHolds_iff hm]

/-- The query compiler accepts the filter of a subscription, and a document that the subscription
lets through is one that the query finds, just when the filter is of scalars and the document
has no clause read in two ways that decides. -/
theorem filters_agree (jsonText : Json → String) (textTruth : String → Bool) (id : String)
    (stored : Value) (filter doc : Json) (f : EqFilter) (h : EqFilter.parse filter = .ok f) :
    (∃ w e, compileFilter (some filter) = .ok w ∧ condition w.sql w.params = some e ∧
      (f.matches doc = true ↔ e.Holds (sqlite textTruth)
        (docRow (fun _ path => jsonExtract jsonText doc path) id stored))) ↔
    Agrees jsonText f doc := by
  obtain ⟨fields, rfl, hfields⟩ := parse_ok h
  have hmeans : ∀ w, compileFilter (some (.object fields)) = .ok w → ∃ e,
      condition w.sql w.params = some e ∧ (e.Holds (sqlite textTruth)
        (docRow (fun _ path => jsonExtract jsonText doc path) id stored) ↔
          ∀ c ∈ f.clauses, QueryHolds ((lookup doc c.1).elim .null (sqlOf jsonText)) c.2) := by
    intro w hw
    obtain ⟨-, e, he, hholds⟩ := compileFilter_reads hw
    exact ⟨e, he, (hholds _ _ _ _).trans (matches_fields hfields)⟩
  have haccepts : (∃ w, compileFilter (some (.object fields)) = .ok w) ↔
      ∀ c ∈ f.clauses, ScalarMatch c.2 := by
    have hkeys : (∃ r, compileKeys fields [] [] = .ok r) ↔ ∀ c ∈ f.clauses, ScalarMatch c.2 :=
      compileKeys_accepts hfields
    rw [← hkeys]
    simp only [compileFilter]
    cases compileKeys fields [] [] <;> simp
  constructor
  · rintro ⟨w, e, hw, he, hagree⟩
    obtain ⟨e', he', hholds⟩ := hmeans w hw
    cases he.symm.trans he'
    exact (agrees_iff (haccepts.mp ⟨w, hw⟩)).mp (hagree.trans hholds)
  · intro hagrees
    obtain ⟨w, hw⟩ := haccepts.mpr hagrees.1
    obtain ⟨e, he, hholds⟩ := hmeans w hw
    exact ⟨w, e, hw, he, ((agrees_iff hagrees.1).mpr hagrees).trans hholds.symm⟩

/-! ## Filters on both sides -/

def activeFilter : Json := .object [("status", .string "active")]

def activeDoc : Json := .object [("status", .string "active"), ("visits", .number (.posInt 3))]

theorem filters_agree_active : ∃ f w e, EqFilter.parse activeFilter = .ok f ∧
    compileFilter (some activeFilter) = .ok w ∧ condition w.sql w.params = some e ∧
      (f.matches activeDoc = true ↔ e.Holds (sqlite fun _ => false)
        (docRow (fun _ path => jsonExtract (fun _ => "") activeDoc path) "01A" .null)) := by
  have hagrees : Agrees (fun _ => "") ⟨[(["status"], .eq (.string "active"))]⟩ activeDoc := by
    have hlookup : lookup activeDoc ["status"] = some (.string "active") := rfl
    simp [Agrees, ScalarMatch, isContainer, Looser, Stricter, hlookup, alias_some, numeric]
  obtain ⟨w, e, h⟩ := (filters_agree (fun _ => "") (fun _ => false) "01A" .null activeFilter
    activeDoc _ rfl).mpr hagrees
  exact ⟨_, w, e, rfl, h⟩

def tagsFilter : Json := .object [("tags", .array [.string "a"])]

def noOwnerFilter : Json := .object [("owner", .null)]

def doneFilter : Json := .object [("done", .bool true)]

def oneDoc : Json := .object [("done", .number (.posInt 1))]

/-- The subscription takes an array that the query rejects, and tells a document that the query
finds, without the field or with a number for a boolean, from one that matches. -/
theorem filters_differ :
    ((∃ f, EqFilter.parse tagsFilter = .ok f) ∧
      compileFilter (some tagsFilter) = .error
        (.validation "array equality is not supported for tags; use $in")) ∧
    (∃ f w e, EqFilter.parse noOwnerFilter = .ok f ∧ compileFilter (some noOwnerFilter) = .ok w ∧
      condition w.sql w.params = some e ∧ f.matches oneDoc = false ∧
        e.Holds (sqlite fun _ => false)
          (docRow (fun _ path => jsonExtract (fun _ => "") oneDoc path) "01A" .null)) ∧
    ∃ f w e, EqFilter.parse doneFilter = .ok f ∧ compileFilter (some doneFilter) = .ok w ∧
      condition w.sql w.params = some e ∧ f.matches oneDoc = false ∧
        e.Holds (sqlite fun _ => false)
          (docRow (fun _ path => jsonExtract (fun _ => "") oneDoc path) "01A" .null) := by
  have hfound : ∀ (filter : Json) w, compileFilter (some filter) = .ok w →
      Matches (fun key => jsonExtract (fun _ => "") oneDoc (dotted key)) (some filter) →
      ∃ e, condition w.sql w.params = some e ∧ e.Holds (sqlite fun _ => false)
        (docRow (fun _ path => jsonExtract (fun _ => "") oneDoc path) "01A" .null) := by
    intro filter w hw hmatches
    obtain ⟨-, e, he, hholds⟩ := compileFilter_reads hw
    exact ⟨e, he, (hholds _ _ _ _).mpr hmatches⟩
  have howner : lookup oneDoc (segments "owner") = none := rfl
  have hdone : lookup oneDoc (segments "done") = some (.number (.posInt 1)) := rfl
  refine ⟨⟨⟨_, rfl⟩, rfl⟩, ?_, ?_⟩
  · obtain ⟨e, he, hholds⟩ := hfound noOwnerFilter _ rfl (by
      simp [noOwnerFilter, Matches, KeyHolds, jsonExtract_dotted, howner, FieldHolds, EqHolds,
        Value.isNull])
    exact ⟨_, _, e, rfl, rfl, he, rfl, hholds⟩
  · obtain ⟨e, he, hholds⟩ := hfound doneFilter _ rfl (by
      simp [doneFilter, Matches, KeyHolds, jsonExtract_dotted, hdone, FieldHolds, EqHolds,
        Compares, sqlOf, argument, u64ToValue, Value.compare, Rel.holds])
    exact ⟨_, _, e, rfl, rfl, he, rfl, hholds⟩

end TinyLord.Realtime
