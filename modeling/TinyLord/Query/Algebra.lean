import TinyLord.Query.Agree

/-!
# How the operators relate

`$ne` is the negation of `$eq`, a bare scalar is `$eq`, and `$in` is `$eq` with one of the items.
The last has an exception: a null in the list is a bound NULL, which equals nothing, while `$eq`
with null is `IS NULL`.
-/

open Lib.Sql

namespace TinyLord

open Realtime

variable {jsonText : Json → String} {textTruth : String → Bool} {id field path : String}
  {stored x : Value} {doc spec v : Json} {vs : List Json}

/-- The clause of the filter is true for the document: not false, and not NULL. -/
def Finds (jsonText : Json → String) (textTruth : String → Bool) (id : String) (stored : Value)
    (doc filter : Json) : Prop :=
  ∃ w e, compileFilter (some filter) = .ok w ∧ condition w.sql w.params = some e ∧
    e.Holds (sqlite textTruth) (docRow (fun _ path => jsonExtract jsonText doc path) id stored)

/-- The document has null at the field, or nothing. -/
def Absent (doc : Json) (field : String) : Prop :=
  ∀ y ∈ lookup doc (segments field), y = .null

def one (field : String) (spec : Json) : Json := .object [(field, spec)]

theorem finds_iff (filter : Json) : Finds jsonText textTruth id stored doc filter ↔
    (∃ w, compileFilter (some filter) = .ok w) ∧
      Matches (fun field => jsonExtract jsonText doc (dotted field)) (some filter) := by
  let extract (_ : Value) (path : String) : Value := jsonExtract jsonText doc path
  constructor
  · rintro ⟨w, e, hw, he, hholds⟩
    obtain ⟨-, e', he', hmeans⟩ := compileFilter_reads hw
    cases he.symm.trans he'
    exact ⟨⟨w, hw⟩, (hmeans textTruth extract id stored).mp hholds⟩
  · rintro ⟨⟨w, hw⟩, hmatches⟩
    obtain ⟨-, e, he, hmeans⟩ := compileFilter_reads hw
    exact ⟨w, e, hw, he, (hmeans textTruth extract id stored).mpr hmatches⟩

/-! ## One field -/

theorem compileFilter_one (hpath : fieldToJsonPath field = .ok path) :
    (∃ w, compileFilter (some (one field spec)) = .ok w) ↔
      ∃ r, compileField field spec [] = .ok r := by
  have hdollar := startsWithDollar_field hpath
  have hor : field ≠ "$or" := ne_of_dollar hdollar rfl
  have hand : field ≠ "$and" := ne_of_dollar hdollar rfl
  simp only [one, compileFilter, compileKeys, hor, hand, hdollar, if_false, Bool.false_eq_true]
  cases compileField field spec [] with
  | error e => simp
  | ok r => simp

theorem finds_one (hpath : fieldToJsonPath field = .ok path)
    (hok : ∃ r, compileField field spec [] = .ok r) :
    Finds jsonText textTruth id stored doc (one field spec) ↔
      FieldHolds (jsonExtract jsonText doc (dotted field)) spec := by
  have hor : field ≠ "$or" := ne_of_dollar (startsWithDollar_field hpath) rfl
  rw [finds_iff, compileFilter_one hpath, and_iff_right hok]
  simp only [one, Matches, List.forall_mem_singleton, KeyHolds, hor, if_false]

theorem finds_operator {op : String} {arg : Json} (hpath : fieldToJsonPath field = .ok path)
    (hop : startsWithDollar op = true)
    (hok : ∃ r, compileOperator ("json_extract(doc, '" ++ path ++ "')") op arg [] = .ok r) :
    Finds jsonText textTruth id stored doc (one field (.object [(op, arg)])) ↔
      OperatorHolds (jsonExtract jsonText doc (dotted field)) op arg := by
  rw [finds_one hpath]
  · exact List.forall_mem_singleton
  · rw [compileField_object hpath, compileOperators_one hop]
    exact hok

theorem compileNe_accepts {extract : String} {params : List Value} (hv : isContainer v = false) :
    ∃ r, compileNe extract v params = .ok r := by
  obtain ⟨w, hw⟩ := scalarToValue_accepts.mpr hv
  unfold compileNe
  split
  · exact ⟨_, rfl⟩
  · rw [hw]
    exact ⟨_, rfl⟩

theorem compileField_scalar (hpath : fieldToJsonPath field = .ok path)
    (hv : isContainer v = false) : ∃ r, compileField field v [] = .ok r := by
  simp only [compileField, hpath]
  cases v with
  | array items => contradiction
  | object fields => contradiction
  | _ => exact compileEq_accepts.mpr rfl

/-! ## The algebra of the conditions -/

theorem fieldHolds_scalar (hv : isContainer v = false) : FieldHolds x v ↔ EqHolds x v := by
  unfold FieldHolds
  split
  · contradiction
  · rfl

theorem ne_iff_not_eq : NeHolds x v ↔ ¬EqHolds x v := by
  by_cases hnull : v = .null
  · subst hnull
    simp [NeHolds, EqHolds]
  · rw [neHolds_of_ne_null hnull, eqHolds_of_ne_null hnull]

theorem in_iff_some_eq : (InHolds x (.array vs) ↔ ∃ w ∈ vs, EqHolds x w) ↔
    ¬(.null ∈ vs ∧ x = .null) := by
  constructor
  · rintro h ⟨hnull, rfl⟩
    obtain ⟨w, -, o, ho, -⟩ := h.mpr ⟨.null, hnull, rfl⟩
    contradiction
  · intro h
    constructor
    · rintro ⟨w, hw, hcompares⟩
      have hne : w ≠ .null := by
        rintro rfl
        exact not_compares_null hcompares
      exact ⟨w, hw, (eqHolds_of_ne_null hne).mpr hcompares⟩
    · rintro ⟨w, hw, hholds⟩
      by_cases hnull : w = .null
      · subst hnull
        refine absurd ⟨hw, ?_⟩ h
        cases x with
        | null => rfl
        | _ => contradiction
      · exact ⟨w, hw, (eqHolds_of_ne_null hnull).mp hholds⟩

theorem extract_null : jsonExtract jsonText doc (dotted field) = .null ↔ Absent doc field := by
  rw [jsonExtract_dotted]
  unfold Absent
  cases lookup doc (segments field) with
  | none => simp
  | some y =>
    have hnull : sqlOf jsonText y = .null ↔ (sqlOf jsonText y).isNull = true := by
      cases sqlOf jsonText y <;> simp [Value.isNull]
    simp [hnull, sqlOf_isNull]

/-! ## The algebra of the operators -/

section

variable (hpath : fieldToJsonPath field = .ok path)

include hpath

theorem finds_eq (hv : isContainer v = false) :
    Finds jsonText textTruth id stored doc (one field (.object [("$eq", v)])) ↔
      EqHolds (jsonExtract jsonText doc (dotted field)) v :=
  finds_operator hpath rfl (compileEq_accepts.mpr hv)

theorem finds_ne (hv : isContainer v = false) :
    Finds jsonText textTruth id stored doc (one field (.object [("$ne", v)])) ↔
      NeHolds (jsonExtract jsonText doc (dotted field)) v :=
  finds_operator hpath rfl (compileNe_accepts hv)

theorem finds_in (hvs : ∀ w ∈ vs, isContainer w = false) :
    Finds jsonText textTruth id stored doc (one field (.object [("$in", .array vs)])) ↔
      InHolds (jsonExtract jsonText doc (dotted field)) (.array vs) :=
  finds_operator hpath rfl (compileIn_accepts.mpr hvs)

theorem finds_scalar (hv : isContainer v = false) :
    Finds jsonText textTruth id stored doc (one field v) ↔
      EqHolds (jsonExtract jsonText doc (dotted field)) v := by
  rw [finds_one hpath (compileField_scalar hpath hv), fieldHolds_scalar hv]

end

/-- The operators obey their algebra, except that a null in a list of `$in` does not find a document
that `$eq` with null finds. -/
theorem operators_obey_algebra (jsonText : Json → String) (textTruth : String → Bool) (id : String)
    (stored : Value) (doc : Json) (hpath : fieldToJsonPath field = .ok path)
    (hv : isContainer v = false) (hvs : ∀ w ∈ vs, isContainer w = false) :
    ((Finds jsonText textTruth id stored doc (one field (.object [("$ne", v)])) ↔
        ¬Finds jsonText textTruth id stored doc (one field (.object [("$eq", v)]))) ∧
      (Finds jsonText textTruth id stored doc (one field (.object [("$in", .array vs)])) ↔
        ∃ w ∈ vs, Finds jsonText textTruth id stored doc (one field (.object [("$eq", w)]))) ∧
      (Finds jsonText textTruth id stored doc (one field v) ↔
        Finds jsonText textTruth id stored doc (one field (.object [("$eq", v)])))) ↔
    ¬(.null ∈ vs ∧ Absent doc field) := by
  have hsome : (∃ w ∈ vs, Finds jsonText textTruth id stored doc
        (one field (.object [("$eq", w)]))) ↔
      ∃ w ∈ vs, EqHolds (jsonExtract jsonText doc (dotted field)) w :=
    exists_congr fun w => and_congr_right fun hw => finds_eq hpath (hvs w hw)
  rw [finds_ne hpath hv, finds_eq hpath hv, finds_in hpath hvs, hsome, finds_scalar hpath hv,
    ← @extract_null jsonText, ← in_iff_some_eq]
  exact ⟨fun h => h.2.1, fun h => ⟨ne_iff_not_eq, h, Iff.rfl⟩⟩

def ownedDoc : Json := .object [("owner", .string "ada")]

theorem operators_obey_algebra_owned :
    Finds (fun _ => "") (fun _ => false) "01A" .null ownedDoc
        (one "owner" (.object [("$in", .array [.null, .string "ada"])])) ↔
      ∃ w ∈ [.null, .string "ada"], Finds (fun _ => "") (fun _ => false) "01A" .null ownedDoc
        (one "owner" (.object [("$eq", w)])) := by
  have hpresent : ¬Absent ownedDoc "owner" := by
    intro h
    have hnull := h (.string "ada") rfl
    contradiction
  exact ((operators_obey_algebra (fun _ => "") (fun _ => false) "01A" .null ownedDoc
    (v := .string "ada") rfl rfl (by decide)).mpr fun h => hpresent h.2).2.1

/-- `$in` with null does not find a document without the field, and `$eq` with null does. -/
theorem in_null_finds_nothing :
    fieldToJsonPath "owner" = .ok "$.owner" ∧
    ¬Finds (fun _ => "") (fun _ => false) "01A" .null (.object [])
      (one "owner" (.object [("$in", .array [.null])])) ∧
    ∃ w ∈ [Json.null], Finds (fun _ => "") (fun _ => false) "01A" .null (.object [])
      (one "owner" (.object [("$eq", w)])) := by
  have hpath : fieldToJsonPath "owner" = .ok "$.owner" := rfl
  have hmissing : jsonExtract (fun _ => "") (.object []) (dotted "owner") = .null := rfl
  refine ⟨hpath, ?_, .null, List.mem_singleton_self _, ?_⟩
  · rw [finds_in hpath (by decide), hmissing]
    rintro ⟨w, -, o, ho, -⟩
    contradiction
  · rw [finds_eq hpath rfl, hmissing]
    rfl

end TinyLord
