import TinyLord.Lib.Sql.Template
import TinyLord.Query.Endpoint
import TinyLord.Query.Meaning

/-!
# The text of a query and its values

The text that the compiler writes depends on the shape of a filter alone: its keys, its operators,
the lengths of its lists and the places of null. It consists of fixed pieces and of field paths, and
a field path stays within the quotes that it is put in.
-/

open Lib Lib.Sql

namespace TinyLord

/-! ## Shape -/

/-- A boolean, a number or a string. -/
def Json.isPlain : Json → Bool
  | .bool _ | .number _ | .string _ => true
  | _ => false

mutual

/-- The two differ in scalars that are not null, if at all. -/
def sameShape : Json → Json → Bool
  | .null, .null => true
  | .array xs, .array ys => sameItems xs ys
  | .object xs, .object ys => sameFields xs ys
  | v, w => v.isPlain && w.isPlain

def sameItems : List Json → List Json → Bool
  | [], [] => true
  | x :: xs, y :: ys => sameShape x y && sameItems xs ys
  | _, _ => false

def sameFields : List (String × Json) → List (String × Json) → Bool
  | [], [] => true
  | (k, x) :: xs, (l, y) :: ys => k == l && sameShape x y && sameFields xs ys
  | _, _ => false

end

def sameFilter : Option Json → Option Json → Bool
  | none, none => true
  | some f, some g => sameShape f g
  | _, _ => false

/-! ## Two runs -/

/-- The result of a run of the compiler without its values. -/
def textOf {α : Type} (r : Except ApiError (α × List Value)) : Except ApiError α := r.map (·.1)

theorem textOf_cases {α : Type} {r r' : Except ApiError (α × List Value)}
    (h : textOf r = textOf r') :
    (∃ e, r = .error e ∧ r' = .error e) ∨
      ∃ a params params', r = .ok (a, params) ∧ r' = .ok (a, params') := by
  cases r with
  | error e =>
    cases r' with
    | error e' => exact Or.inl ⟨e, rfl, congrArg Except.error (Except.error.inj h).symm⟩
    | ok q => contradiction
  | ok p =>
    cases r' with
    | error e' => contradiction
    | ok q =>
      have htext : p.1 = q.1 := Except.ok.inj h
      exact Or.inr ⟨p.1, p.2, q.2, rfl, by rw [htext]⟩

variable {v w : Json} {params params' : List Value} {extract field : String}

theorem sameShape_cases (h : sameShape v w = true) :
    (v = .null ∧ w = .null) ∨
    (∃ xs ys, v = .array xs ∧ w = .array ys ∧ sameItems xs ys = true) ∨
    (∃ xs ys, v = .object xs ∧ w = .object ys ∧ sameFields xs ys = true) ∨
    (v.isPlain = true ∧ w.isPlain = true) := by
  unfold sameShape at h
  split at h
  · exact Or.inl ⟨rfl, rfl⟩
  · exact Or.inr (Or.inl ⟨_, _, rfl, rfl, h⟩)
  · exact Or.inr (Or.inr (Or.inl ⟨_, _, rfl, rfl, h⟩))
  · exact Or.inr (Or.inr (Or.inr (by simpa using h)))

theorem scalarToValue_plain (h : v.isPlain = true) : ∃ x, scalarToValue v = .ok x := by
  cases v with
  | number n => cases n <;> exact ⟨_, rfl⟩
  | bool b => exact ⟨_, rfl⟩
  | string s => exact ⟨_, rfl⟩
  | _ => contradiction

theorem compileEq_plain (h : v.isPlain = true) :
    textOf (compileEq extract v params) = .ok (extract ++ " = ?") := by
  obtain ⟨x, hx⟩ := scalarToValue_plain h
  unfold compileEq
  split
  · contradiction
  · rw [hx]
    rfl

theorem compileNe_plain (h : v.isPlain = true) :
    textOf (compileNe extract v params) = .ok (extract ++ " IS NOT ?") := by
  obtain ⟨x, hx⟩ := scalarToValue_plain h
  unfold compileNe
  split
  · contradiction
  · rw [hx]
    rfl

theorem compileOrder_plain {op : String} (h : v.isPlain = true) :
    textOf (compileOrder extract op v params) = .ok (extract ++ " " ++ op ++ " ?") := by
  obtain ⟨x, hx⟩ := scalarToValue_plain h
  rw [compileOrder, hx]
  rfl

theorem compileEq_shape (h : sameShape v w = true) :
    textOf (compileEq extract v params) = textOf (compileEq extract w params') := by
  obtain ⟨rfl, rfl⟩ | ⟨xs, ys, rfl, rfl, -⟩ | ⟨xs, ys, rfl, rfl, -⟩ | ⟨hv, hw⟩ := sameShape_cases h
  · rfl
  · rfl
  · rfl
  · rw [compileEq_plain hv, compileEq_plain hw]

theorem compileNe_shape (h : sameShape v w = true) :
    textOf (compileNe extract v params) = textOf (compileNe extract w params') := by
  obtain ⟨rfl, rfl⟩ | ⟨xs, ys, rfl, rfl, -⟩ | ⟨xs, ys, rfl, rfl, -⟩ | ⟨hv, hw⟩ := sameShape_cases h
  · rfl
  · rfl
  · rfl
  · rw [compileNe_plain hv, compileNe_plain hw]

theorem compileOrder_shape {op : String} (h : sameShape v w = true) :
    textOf (compileOrder extract op v params) = textOf (compileOrder extract op w params') := by
  obtain ⟨rfl, rfl⟩ | ⟨xs, ys, rfl, rfl, -⟩ | ⟨xs, ys, rfl, rfl, -⟩ | ⟨hv, hw⟩ := sameShape_cases h
  · rfl
  · rfl
  · rfl
  · rw [compileOrder_plain hv, compileOrder_plain hw]

theorem length_sameItems {xs ys : List Json} (h : sameItems xs ys = true) :
    xs.length = ys.length := by
  induction xs generalizing ys with
  | nil =>
    cases ys with
    | nil => rfl
    | cons y ys => contradiction
  | cons x xs ih =>
    cases ys with
    | nil => contradiction
    | cons y ys =>
      rw [sameItems, Bool.and_eq_true] at h
      rw [List.length_cons, List.length_cons, ih h.2]

theorem pushItems_shape {xs ys : List Json} (h : sameItems xs ys = true) :
    (pushItems xs params).map (fun _ => ()) = (pushItems ys params').map fun _ => () := by
  induction xs generalizing ys params params' with
  | nil =>
    cases ys with
    | nil => rfl
    | cons y ys => contradiction
  | cons x xs ih =>
    cases ys with
    | nil => contradiction
    | cons y ys =>
      rw [sameItems, Bool.and_eq_true] at h
      obtain ⟨hone, hrest⟩ := h
      simp only [pushItems]
      obtain ⟨rfl, rfl⟩ | ⟨_, _, rfl, rfl, -⟩ | ⟨_, _, rfl, rfl, -⟩ | ⟨hx, hy⟩ :=
        sameShape_cases hone
      · exact ih hrest
      · rfl
      · rfl
      · obtain ⟨a, ha⟩ := scalarToValue_plain hx
        obtain ⟨b, hb⟩ := scalarToValue_plain hy
        rw [ha, hb]
        exact ih hrest

theorem compileIn_shape (h : sameShape v w = true) :
    textOf (compileIn extract v params) = textOf (compileIn extract w params') := by
  obtain ⟨rfl, rfl⟩ | ⟨xs, ys, rfl, rfl, hitems⟩ | ⟨xs, ys, rfl, rfl, -⟩ | ⟨hv, hw⟩ :=
    sameShape_cases h
  · rfl
  · have hlength := length_sameItems hitems
    cases xs with
    | nil =>
      cases ys with
      | nil => rfl
      | cons y ys => contradiction
    | cons x xs =>
      cases ys with
      | nil => contradiction
      | cons y ys =>
        have hmarks : (x :: xs).map (fun _ => "?") = (y :: ys).map fun _ => "?" := by
          rw [List.map_const', List.map_const', hlength]
        have hpush := @pushItems_shape params params' _ _ hitems
        simp only [compileIn]
        rw [hmarks]
        cases hp : pushItems (x :: xs) params with
        | error e =>
          cases hq : pushItems (y :: ys) params' with
          | error e' =>
            rw [hp, hq] at hpush
            cases hpush
            rfl
          | ok q =>
            rw [hp, hq] at hpush
            contradiction
        | ok p =>
          cases hq : pushItems (y :: ys) params' with
          | error e' =>
            rw [hp, hq] at hpush
            contradiction
          | ok q => rfl
  · rfl
  · cases v <;> cases w <;> first | rfl | contradiction

theorem compileOperator_shape {op : String} (h : sameShape v w = true) :
    textOf (compileOperator extract op v params) =
      textOf (compileOperator extract op w params') := by
  unfold compileOperator
  split
  · exact compileEq_shape h
  · exact compileNe_shape h
  · exact compileOrder_shape h
  · exact compileOrder_shape h
  · exact compileOrder_shape h
  · exact compileOrder_shape h
  · exact compileIn_shape h
  · rfl

theorem sameFields_cons {k : String} {xs fields : List (String × Json)}
    (h : sameFields ((k, v) :: xs) fields = true) :
    ∃ w ys, fields = (k, w) :: ys ∧ sameShape v w = true ∧ sameFields xs ys = true := by
  cases fields with
  | nil => contradiction
  | cons y ys =>
    obtain ⟨l, w⟩ := y
    rw [sameFields, Bool.and_eq_true, Bool.and_eq_true, beq_iff_eq] at h
    obtain ⟨⟨rfl, hone⟩, hrest⟩ := h
    exact ⟨w, ys, rfl, hone, hrest⟩

theorem sameFields_nil {fields : List (String × Json)} (h : sameFields [] fields = true) :
    fields = [] := by
  cases fields with
  | nil => rfl
  | cons y ys => contradiction

theorem compileOperators_shape {xs ys : List (String × Json)} {parts : List String}
    (h : sameFields xs ys = true) :
    textOf (compileOperators field extract xs parts params) =
      textOf (compileOperators field extract ys parts params') := by
  induction xs generalizing ys parts params params' with
  | nil =>
    rw [sameFields_nil h]
    rfl
  | cons x xs ih =>
    obtain ⟨op, v⟩ := x
    obtain ⟨w, ys, rfl, hone, hrest⟩ := sameFields_cons h
    simp only [compileOperators]
    split
    · rfl
    · obtain ⟨e, hv, hw⟩ | ⟨part, _, _, hv, hw⟩ := textOf_cases (compileOperator_shape hone)
      · rw [hv, hw]
      · rw [hv, hw]
        exact ih hrest

theorem compileField_shape (h : sameShape v w = true) :
    textOf (compileField field v params) = textOf (compileField field w params') := by
  unfold compileField
  cases fieldToJsonPath field with
  | error e => rfl
  | ok path =>
    simp only
    obtain ⟨rfl, rfl⟩ | ⟨xs, ys, rfl, rfl, -⟩ | ⟨xs, ys, rfl, rfl, hfields⟩ | ⟨hv, hw⟩ :=
      sameShape_cases h
    · rfl
    · rfl
    · have hops := @compileOperators_shape params params' ("json_extract(doc, '" ++ path ++ "')")
        field xs ys [] hfields
      simp only
      obtain ⟨e, hv, hw⟩ | ⟨parts, _, _, hv, hw⟩ := textOf_cases hops
      · rw [hv, hw]
      · rw [hv, hw]
        simp only
        split <;> rfl
    · cases v <;> cases w <;> first | contradiction | exact compileEq_shape h

theorem compileEntry_shape {xs ys : List (String × Json)} {parts : List String}
    (h : sameFields xs ys = true) :
    textOf (compileEntry xs parts params) = textOf (compileEntry ys parts params') := by
  induction xs generalizing ys parts params params' with
  | nil =>
    rw [sameFields_nil h]
    rfl
  | cons x xs ih =>
    obtain ⟨k, v⟩ := x
    obtain ⟨w, ys, rfl, hone, hrest⟩ := sameFields_cons h
    simp only [compileEntry]
    split
    · rfl
    · split
      · rfl
      · obtain ⟨e, hv, hw⟩ | ⟨part, _, _, hv, hw⟩ := textOf_cases (compileField_shape hone)
        · rw [hv, hw]
        · rw [hv, hw]
          exact ih hrest

theorem compileEntries_shape {xs ys : List Json} {subs : List String}
    (h : sameItems xs ys = true) :
    textOf (compileEntries xs subs params) = textOf (compileEntries ys subs params') := by
  induction xs generalizing ys subs params params' with
  | nil =>
    cases ys with
    | nil => rfl
    | cons y ys => contradiction
  | cons x xs ih =>
    cases ys with
    | nil => contradiction
    | cons y ys =>
      rw [sameItems, Bool.and_eq_true] at h
      obtain ⟨hone, hrest⟩ := h
      obtain ⟨rfl, rfl⟩ | ⟨us, vs, rfl, rfl, -⟩ | ⟨us, vs, rfl, rfl, hfields⟩ | ⟨hx, hy⟩ :=
        sameShape_cases hone
      · rfl
      · rfl
      · simp only [compileEntries]
        obtain ⟨e, hx, hy⟩ | ⟨parts, _, _, hx, hy⟩ := textOf_cases (compileEntry_shape hfields)
        · rw [hx, hy]
        · rw [hx, hy]
          exact ih hrest
      · cases x <;> cases y <;> first | rfl | contradiction

theorem compileOr_shape (h : sameShape v w = true) :
    textOf (compileOr v params) = textOf (compileOr w params') := by
  obtain ⟨rfl, rfl⟩ | ⟨xs, ys, rfl, rfl, hitems⟩ | ⟨xs, ys, rfl, rfl, -⟩ | ⟨hv, hw⟩ :=
    sameShape_cases h
  · rfl
  · simp only [compileOr]
    obtain ⟨e, hx, hy⟩ | ⟨subs, _, _, hx, hy⟩ := textOf_cases (compileEntries_shape hitems)
    · rw [hx, hy]
    · rw [hx, hy]
      simp only
      split <;> rfl
  · rfl
  · cases v <;> cases w <;> first | rfl | contradiction

theorem compileKeys_shape {xs ys : List (String × Json)} {parts : List String}
    (h : sameFields xs ys = true) :
    textOf (compileKeys xs parts params) = textOf (compileKeys ys parts params') := by
  induction xs generalizing ys parts params params' with
  | nil =>
    rw [sameFields_nil h]
    rfl
  | cons x xs ih =>
    obtain ⟨key, v⟩ := x
    obtain ⟨w, ys, rfl, hone, hrest⟩ := sameFields_cons h
    have hcompiled : textOf (if key = "$or" then compileOr v params
        else if key = "$and" then
          .error (.validation
            "$and is not supported; multiple top-level keys are already ANDed")
        else if startsWithDollar key then
          .error (.validation ("unsupported top-level operator " ++ key))
        else compileField key v params) =
      textOf (if key = "$or" then compileOr w params'
        else if key = "$and" then
          .error (.validation
            "$and is not supported; multiple top-level keys are already ANDed")
        else if startsWithDollar key then
          .error (.validation ("unsupported top-level operator " ++ key))
        else compileField key w params') := by
      split_ifs
      · exact compileOr_shape hone
      · rfl
      · rfl
      · exact compileField_shape hone
    simp only [compileKeys]
    obtain ⟨e, hv, hw⟩ | ⟨part, _, _, hv, hw⟩ := textOf_cases hcompiled
    · rw [hv, hw]
    · rw [hv, hw]
      exact ih hrest

theorem compileFilter_shape {f g : Option Json} (h : sameFilter f g = true) :
    (compileFilter f).map (·.sql) = (compileFilter g).map (·.sql) := by
  cases f with
  | none =>
    cases g with
    | none => rfl
    | some g => contradiction
  | some f =>
    cases g with
    | none => contradiction
    | some g =>
      rw [sameFilter] at h
      obtain ⟨rfl, rfl⟩ | ⟨xs, ys, rfl, rfl, -⟩ | ⟨xs, ys, rfl, rfl, hfields⟩ | ⟨hf, hg⟩ :=
        sameShape_cases h
      · rfl
      · rfl
      · simp only [compileFilter]
        obtain ⟨e, hx, hy⟩ | ⟨parts, _, _, hx, hy⟩ := textOf_cases (compileKeys_shape hfields)
        · rw [hx, hy]
        · rw [hx, hy]
          rfl
      · cases f <;> cases g <;> first | rfl | contradiction

/-! ## Templates -/

/-- The pieces of text that the compilers write, whatever the client sends. -/
def fixedPieces : List String :=
  ["0", "1", "(", ")", "?", ", ", " ", " AND ", " OR ", " = ?", " IS NULL", " IS NOT ?",
    " IS NOT NULL", " IN (", " ?", ">", ">=", "<", "<=", "ORDER BY ", "ORDER BY id ASC", "id",
    "created_at", "updated_at", "ASC", "DESC"]

/-- The text is made of fixed pieces and of `json_extract` with a field path in quotes. The second
text is its template: no path stands in it. -/
inductive Templated : String → String → Prop
  | fixed {t : String} (h : t ∈ fixedPieces) : Templated t t
  | path {field : String} (h : ∀ c ∈ field.toList, isPathChar c = true) :
      Templated ("json_extract(doc, '" ++ dotted field ++ "')") "json_extract(doc, '')"
  | append {t t' u u' : String} :
      Templated t t' → Templated u u' → Templated (t ++ u) (t' ++ u')

def Safe (sql : String) : Prop := ∃ template, Templated sql template

variable {sql sep path op : String} {parts parts' : List String} {arg spec val : Json}

theorem Safe.fixed {t : String} (h : t ∈ fixedPieces) : Safe t := ⟨t, .fixed h⟩

theorem Safe.append {t u : String} (ht : Safe t) (hu : Safe u) : Safe (t ++ u) := by
  obtain ⟨t', ht⟩ := ht
  obtain ⟨u', hu⟩ := hu
  exact ⟨t' ++ u', .append ht hu⟩

theorem safe_extract (h : fieldToJsonPath field = .ok path) :
    Safe ("json_extract(doc, '" ++ path ++ "')") := by
  obtain ⟨rfl, hchars⟩ := fieldToJsonPath_dotted h
  exact ⟨_, .path hchars⟩

theorem Safe.intercalate (hsep : sep ∈ fixedPieces) (hne : parts ≠ []) (h : ∀ p ∈ parts, Safe p) :
    Safe (String.intercalate sep parts) := by
  induction parts using List.reverseRecOn with
  | nil => exact absurd rfl hne
  | append_singleton parts p ih =>
    rw [List.forall_mem_append, List.forall_mem_singleton] at h
    cases parts with
    | nil => exact h.2
    | cons q qs =>
      rw [String.intercalate_append_of_ne_nil (List.cons_ne_nil q qs) (List.cons_ne_nil p []),
        String.intercalate_singleton]
      exact ((ih (List.cons_ne_nil q qs) h.1).append (.fixed hsep)).append h.2

theorem Safe.paren (h : Safe sql) : Safe ("(" ++ sql ++ ")") :=
  ((Safe.fixed (by decide)).append h).append (.fixed (by decide))

theorem compileEq_safe (hex : Safe extract)
    (h : compileEq extract arg params = .ok (sql, params')) : Safe sql := by
  unfold compileEq at h
  split at h
  · cases h
    exact hex.append (.fixed (by decide))
  · split at h
    · contradiction
    · cases h
      exact hex.append (.fixed (by decide))

theorem compileNe_safe (hex : Safe extract)
    (h : compileNe extract arg params = .ok (sql, params')) : Safe sql := by
  unfold compileNe at h
  split at h
  · cases h
    exact hex.append (.fixed (by decide))
  · split at h
    · contradiction
    · cases h
      exact hex.append (.fixed (by decide))

theorem compileOrder_safe (hex : Safe extract) (hop : op ∈ fixedPieces)
    (h : compileOrder extract op arg params = .ok (sql, params')) : Safe sql := by
  unfold compileOrder at h
  split at h
  · contradiction
  · cases h
    exact ((hex.append (.fixed (by decide))).append (.fixed hop)).append (.fixed (by decide))

theorem compileIn_safe (hex : Safe extract)
    (h : compileIn extract arg params = .ok (sql, params')) : Safe sql := by
  unfold compileIn at h
  split at h
  · cases h
    exact .fixed (by decide)
  · next items hne =>
    split at h
    · contradiction
    · cases h
      have hmarks : Safe (String.intercalate ", " (items.map fun _ => "?")) := by
        refine Safe.intercalate (by decide) ?_ ?_
        · simpa using hne
        · intro p hp
          obtain ⟨_, -, rfl⟩ := List.mem_map.mp hp
          exact .fixed (by decide)
      exact ((hex.append (.fixed (by decide))).append hmarks).append (.fixed (by decide))
  · contradiction

theorem compileOperator_safe (hex : Safe extract)
    (h : compileOperator extract op arg params = .ok (sql, params')) : Safe sql := by
  unfold compileOperator at h
  split at h
  · exact compileEq_safe hex h
  · exact compileNe_safe hex h
  · exact compileOrder_safe hex (by decide) h
  · exact compileOrder_safe hex (by decide) h
  · exact compileOrder_safe hex (by decide) h
  · exact compileOrder_safe hex (by decide) h
  · exact compileIn_safe hex h
  · contradiction

theorem forall_safe_nil : ∀ p ∈ ([] : List String), Safe p :=
  fun _ hp => absurd hp List.not_mem_nil

theorem forall_safe_concat (h : ∀ p ∈ parts, Safe p) (hsql : Safe sql) :
    ∀ p ∈ parts ++ [sql], Safe p :=
  List.forall_mem_append.mpr ⟨h, List.forall_mem_singleton.mpr hsql⟩

theorem compileOperators_safe {ops : List (String × Json)} (hex : Safe extract)
    (hparts : ∀ p ∈ parts, Safe p)
    (h : compileOperators field extract ops parts params = .ok (parts', params')) :
    ∀ p ∈ parts', Safe p := by
  induction ops generalizing parts params with
  | nil =>
    cases h
    exact hparts
  | cons o ops ih =>
    simp only [compileOperators] at h
    split at h
    · contradiction
    · split at h
      · contradiction
      · next hop => exact ih (forall_safe_concat hparts (compileOperator_safe hex hop)) h

theorem safe_joined {none : String} (hsep : sep ∈ fixedPieces) (hnone : none ∈ fixedPieces)
    (h : ∀ p ∈ parts, Safe p) : Safe (if parts.isEmpty then none else String.intercalate sep parts) := by
  split
  · exact .fixed hnone
  · next hne => exact .intercalate hsep (by simpa using hne) h

theorem compileField_safe (h : compileField field spec params = .ok (sql, params')) : Safe sql := by
  unfold compileField at h
  split at h
  · contradiction
  · next path hpath =>
    have hex := safe_extract hpath
    simp only at h
    split at h
    · split at h
      · contradiction
      · next parts _ hops =>
        have hparts := compileOperators_safe hex forall_safe_nil hops
        split at h
        · cases h
          exact .fixed (by decide)
        · next hne =>
          cases h
          exact (Safe.intercalate (by decide) (by simpa using hne) hparts).paren
    · contradiction
    · exact compileEq_safe hex h

theorem compileEntry_safe {fields : List (String × Json)} (hparts : ∀ p ∈ parts, Safe p)
    (h : compileEntry fields parts params = .ok (parts', params')) : ∀ p ∈ parts', Safe p := by
  induction fields generalizing parts params with
  | nil =>
    cases h
    exact hparts
  | cons f fields ih =>
    simp only [compileEntry] at h
    split at h
    · contradiction
    · split at h
      · contradiction
      · split at h
        · contradiction
        · next hfield => exact ih (forall_safe_concat hparts (compileField_safe hfield)) h

theorem compileEntries_safe {entries : List Json} (hparts : ∀ p ∈ parts, Safe p)
    (h : compileEntries entries parts params = .ok (parts', params')) : ∀ p ∈ parts', Safe p := by
  induction entries generalizing parts params with
  | nil =>
    cases h
    exact hparts
  | cons e entries ih =>
    cases e with
    | object fields =>
      simp only [compileEntries] at h
      split at h
      · contradiction
      · next entry _ hentry =>
        have hjoined := safe_joined (by decide : " AND " ∈ fixedPieces)
          (by decide : "1" ∈ fixedPieces) (compileEntry_safe forall_safe_nil hentry)
        exact ih (forall_safe_concat hparts hjoined.paren) h
    | _ => contradiction

theorem compileOr_safe (h : compileOr val params = .ok (sql, params')) : Safe sql := by
  unfold compileOr at h
  split at h
  · split at h
    · contradiction
    · next hentries =>
      have hsubs := compileEntries_safe forall_safe_nil hentries
      split at h
      · cases h
        exact .fixed (by decide)
      · next hne =>
        cases h
        exact (Safe.intercalate (by decide) (by simpa using hne) hsubs).paren
  · contradiction

theorem compileKeys_safe {fields : List (String × Json)} (hparts : ∀ p ∈ parts, Safe p)
    (h : compileKeys fields parts params = .ok (parts', params')) : ∀ p ∈ parts', Safe p := by
  induction fields generalizing parts params with
  | nil =>
    cases h
    exact hparts
  | cons f fields ih =>
    simp only [compileKeys] at h
    split at h
    · contradiction
    · next part _ hone =>
      refine ih (forall_safe_concat hparts ?_) h
      split_ifs at hone
      · exact compileOr_safe hone
      · exact compileField_safe hone

theorem compileFilter_safe {f : Option Json} {w : WhereClause} (h : compileFilter f = .ok w) :
    Safe w.sql := by
  unfold compileFilter at h
  split at h
  · cases h
    exact .fixed (by decide)
  · cases h
    exact .fixed (by decide)
  · split at h
    · contradiction
    · next hkeys =>
      cases h
      exact safe_joined (by decide) (by decide) (compileKeys_safe forall_safe_nil hkeys)
  · contradiction

/-! ## The sort list -/

open QueryEp

theorem directionSql_safe {dir : String} (h : directionSql dir = .ok sql) : Safe sql := by
  unfold directionSql at h
  split_ifs at h
  · cases h
    exact .fixed (by decide)
  · cases h
    exact .fixed (by decide)

theorem sortExpr_safe (h : sortExpr field = .ok sql) : Safe sql := by
  unfold sortExpr at h
  split at h
  · next hmeta =>
    cases h
    unfold isMetaColumn at hmeta
    simp only [Bool.or_eq_true, beq_iff_eq] at hmeta
    rcases hmeta with (rfl | rfl) | rfl <;> exact .fixed (by decide)
  · split at h
    · contradiction
    · next hpath =>
      cases h
      exact safe_extract hpath

theorem compileTerms_safe {sort : List (String × String)} (hparts : ∀ p ∈ parts, Safe p)
    (h : compileTerms sort parts = .ok parts') :
    (∀ p ∈ parts', Safe p) ∧ parts.length + sort.length = parts'.length := by
  induction sort generalizing parts with
  | nil =>
    cases h
    exact ⟨hparts, rfl⟩
  | cons s sort ih =>
    obtain ⟨path, dir⟩ := s
    simp only [compileTerms] at h
    split at h
    · contradiction
    · next hdir =>
      split at h
      · contradiction
      · next hexpr =>
        have hterm := ((sortExpr_safe hexpr).append (.fixed (by decide : " " ∈ fixedPieces))).append
          (directionSql_safe hdir)
        obtain ⟨hall, hlength⟩ := ih (forall_safe_concat hparts hterm) h
        refine ⟨hall, ?_⟩
        rw [← hlength]
        simp only [List.length_append, List.length_cons, List.length_nil]
        omega

theorem compileSort_safe {sort : List (String × String)} (h : compileSort sort = .ok sql) :
    Safe sql := by
  unfold compileSort at h
  split at h
  · cases h
    exact .fixed (by decide)
  · next hne =>
    split at h
    · contradiction
    · next terms hterms =>
      cases h
      obtain ⟨hall, hlength⟩ := compileTerms_safe forall_safe_nil hterms
      have hterms : terms ≠ [] := by
        rintro rfl
        rw [List.length_nil, Nat.zero_add, List.length_eq_zero_iff] at hlength
        exact hne (by rw [hlength]; rfl)
      exact (Safe.fixed (by decide)).append (.intercalate (by decide) hterms hall)

/-! ## The result -/

theorem Templated.fills {t t' : String} (h : Templated t t') : Fills t.toList t'.toList := by
  induction h with
  | fixed h =>
    have hquotes : ∀ t ∈ fixedPieces, '\'' ∉ t.toList := by decide
    exact .unquoted (hquotes _ h)
  | @path field h =>
    have hquotes : ∀ c ∈ (dotted field).toList, c ≠ '\'' := by
      rw [dotted, String.toList_append, List.forall_mem_append]
      refine ⟨List.forall_mem_ne'.mpr (by decide), ?_⟩
      rintro c hc rfl
      exact absurd (h _ hc) (by decide)
    have htext : ("json_extract(doc, '" ++ dotted field ++ "')").toList =
        "json_extract(doc, ".toList ++ ('\'' :: (dotted field).toList ++ ['\'']) ++ ")".toList := by
      simp
    have htemplate : "json_extract(doc, '')".toList =
        "json_extract(doc, ".toList ++ ['\'', '\''] ++ ")".toList := rfl
    rw [htext, htemplate]
    exact ((Fills.unquoted (by decide)).append (.quoted hquotes)).append (.unquoted (by decide))
  | append _ _ iht ihu =>
    rw [String.toList_append, String.toList_append]
    exact iht.append ihu

/-- The text is a template filled with field paths, and these do not change its tokens. -/
def PathsOnly (sql : String) : Prop :=
  ∃ template, Templated sql template ∧
    (lex sql : Option (List (Tok Value))).map (List.map Tok.blank) =
      (lex template).map (List.map Tok.blank)

theorem Safe.pathsOnly (h : Safe sql) : PathsOnly sql := by
  obtain ⟨template, ht⟩ := h
  exact ⟨template, ht, lex_fills ht.fills⟩

/-- Filters of one shape are refused for the same reason or compile to the same text, and what the
client sends is in the text of a query as field paths only, each within its quotes. -/
theorem values_never_shape_sql :
    (∀ f g, sameFilter f g = true →
      (compileFilter f).map (·.sql) = (compileFilter g).map (·.sql)) ∧
    (∀ f w, compileFilter f = .ok w → PathsOnly w.sql) ∧
    ∀ sort sql, compileSort sort = .ok sql → PathsOnly sql :=
  ⟨fun _ _ => compileFilter_shape, fun _ _ h => (compileFilter_safe h).pathsOnly,
    fun _ _ h => (compileSort_safe h).pathsOnly⟩

def byName (name : Json) : Option Json :=
  some (.object [("$or", .array [.object [("name", name)], .object [("a.b", .object [("$in",
    .array [name, .null])])]])])

theorem values_never_shape_sql_name :
    (compileFilter (byName (.string "' OR 1=1 --"))).map (·.sql) =
      (compileFilter (byName (.number (.posInt 7)))).map (·.sql) ∧
    PathsOnly ("((json_extract(doc, '$.name') = ?) OR " ++
      "((json_extract(doc, '$.a.b') IN (?, ?))))") ∧
    PathsOnly "ORDER BY json_extract(doc, '$.name') DESC, id ASC" :=
  ⟨values_never_shape_sql.1 _ _ (by decide),
    values_never_shape_sql.2.1 (byName (.string "x")) ⟨_, [.text "x", .text "x", .null]⟩ rfl,
    values_never_shape_sql.2.2 [("name", "Desc"), ("id", "asc")] _ rfl⟩

end TinyLord
