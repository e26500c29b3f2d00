import Mathlib.Data.List.Basic
import Mathlib.Data.List.Nodup
import TinyLord.Lib.Run
import TinyLord.Lib.Script

/-!
# The schema of the control plane

`init_schema` runs at every start, and a version from before browser login had only its first
batch. Each statement is committed by itself, and the process may be stopped after any of them.
Whether a database is migrated is read off one column.
-/

open Lib.Run

namespace TinyLord.Migration

/-! ## Tables and indexes -/

inductive Value where
  | null
  | integer (n : Int)
  | text (s : String)
  deriving DecidableEq

/-- A column that a row does not give is NULL. -/
abbrev Row := List (String × Value)

def value (r : Row) (column : String) : Value := (r.lookup column).getD .null

def Fits (columns : List String) (rows : List Row) : Prop := ∀ r ∈ rows, ∀ p ∈ r, p.1 ∈ columns

instance (columns : List String) (rows : List Row) : Decidable (Fits columns rows) :=
  inferInstanceAs (Decidable (∀ r ∈ rows, ∀ p ∈ r, p.1 ∈ columns))

/-- The declared types and the keys are left out. -/
structure Table where
  columns : List String
  rows : List Row
  fits : Fits columns rows

/-- A unique index takes any number of NULLs, with its condition and without. -/
structure Index where
  name : String
  table : String
  column : String
  unique : Bool
  condition : Option String
  deriving DecidableEq

def Distinct (rows : List Row) (column : String) : Prop :=
  ((rows.map fun r => value r column).filter (· ≠ .null)).Nodup

instance (rows : List Row) (column : String) : Decidable (Distinct rows column) :=
  inferInstanceAs (Decidable (List.Nodup _))

structure Store where
  tables : String → Option Table
  indexes : List Index

def Store.hasIndex (d : Store) (name : String) : Bool := d.indexes.any fun i => i.name == name

/-! ## Statements -/

inductive Statement where
  /-- With IF NOT EXISTS. -/
  | createTable (name : String) (columns : List String)
  /-- With IF NOT EXISTS. -/
  | createIndex (i : Index)
  | addColumn (table column : String)

def Table.create (columns : List String) : Table := ⟨columns, [], nofun⟩

def Table.addColumn (t : Table) (column : String) : Table where
  columns := t.columns ++ [column]
  rows := t.rows
  fits r hr p hp := List.mem_append_left _ (t.fits r hr p hp)

def Store.put (d : Store) (name : String) (t : Table) : Store :=
  { d with tables := Function.update d.tables name (some t) }

def Store.addIndex (d : Store) (i : Index) : Store := { d with indexes := d.indexes ++ [i] }

def apply : Statement → Store → Option Store
  | .createTable name columns, d =>
    match d.tables name with
    | some _ => some d
    | none => some (d.put name (.create columns))
  | .createIndex i, d =>
    if d.hasIndex i.name then some d
    else
      match d.tables i.table with
      | none => none
      | some t =>
        if i.column ∈ t.columns ∧ (i.unique → Distinct t.rows i.column) then some (d.addIndex i)
        else none
  | .addColumn table column, d =>
    match d.tables table with
    | none => none
    | some t => if column ∈ t.columns then none else some (d.put table (t.addColumn column))

/-! ## `init_schema` -/

def principalsColumns : List String :=
  ["id", "name", "is_admin", "token_hash", "disabled", "created_at"]

def uxPrincipalsToken : Index := ⟨"ux_principals_token", "principals", "token_hash", true, none⟩

def uxPrincipalsUsername : Index :=
  ⟨"ux_principals_username", "principals", "username", true, some "username IS NOT NULL"⟩

def ixBrowserAccessExpiry : Index :=
  ⟨"ix_browser_access_expiry", "browser_access_tokens", "expires_at", false, none⟩

def ixBrowserSessionsExpiry : Index :=
  ⟨"ix_browser_sessions_expiry", "browser_sessions", "expires_at", false, none⟩

def createBase : List Statement :=
  [.createTable "databases" ["name", "created_at"],
    .createTable "principals" principalsColumns,
    .createIndex uxPrincipalsToken,
    .createTable "grants" ["principal_id", "database_name", "role"]]

def addBrowserLogin : List Statement :=
  [.addColumn "principals" "username", .addColumn "principals" "password_hash",
    .createIndex uxPrincipalsUsername]

def createBrowser : List Statement :=
  [.createTable "browser_access_tokens" ["token_hash", "principal_id", "expires_at"],
    .createIndex ixBrowserAccessExpiry,
    .createTable "browser_sessions"
      ["token_hash", "principal_id", "csrf_hash", "expires_at", "created_at"],
    .createIndex ixBrowserSessionsExpiry,
    .createTable "auth_settings" ["key", "value"]]

/-- `PRAGMA table_info(principals)` lists the column. -/
def hasUsername (d : Store) : Bool :=
  (d.tables "principals").any fun t => t.columns.contains "username"

inductive Version where
  | beforeLogin
  | current

/-- The statements of `init_schema`. The columns are looked at after the first batch. -/
def script (d : Store) : Version → List Statement
  | .beforeLogin => createBase
  | .current =>
    createBase ++
      ((if hasUsername (Lib.Script.run apply createBase d).1 then [] else addBrowserLogin) ++
        createBrowser)

def initSchema (d : Store) : Store × Bool := Lib.Script.run apply (script d .current) d

/-! ## Starts -/

inductive Act where
  /-- A start that is stopped after `n` statements of `init_schema`, if it gets that far. -/
  | start (v : Version) (n : Nat)
  /-- A running server leaves these rows in a table. -/
  | write (table : String) (rows : List Row)

/-- `opened` is whether the last start got through `init_schema`. -/
structure State where
  store : Store
  opened : Bool

def boot : State := { store := { tables := fun _ => none, indexes := [] }, opened := false }

/-- The rows of a table change, and its unique indexes hold. -/
def Store.write (d : Store) (name : String) (rows : List Row) : Option Store :=
  match d.tables name with
  | none => none
  | some t =>
    if h : Fits t.columns rows then
      if ∀ i ∈ d.indexes, i.table = name → i.unique = true → Distinct rows i.column then
        some (d.put name ⟨t.columns, rows, h⟩)
      else none
    else none

def step (s : State) : Act → Option State
  | .start v n =>
    let r := Lib.Script.run apply ((script s.store v).take n) s.store
    some { store := r.1, opened := r.2 && decide ((script s.store v).length ≤ n) }
  | .write name rows =>
    if s.opened then (s.store.write name rows).map fun store => { s with store } else none

/-! ## The whole schema -/

def Store.HasTable (d : Store) (name : String) (columns : List String) : Prop :=
  ∃ t, d.tables name = some t ∧ t.columns = columns

/-- All tables with all their columns, and all indexes. -/
structure Full (d : Store) : Prop where
  databases : d.HasTable "databases" ["name", "created_at"]
  principals : d.HasTable "principals" (principalsColumns ++ ["username", "password_hash"])
  grants : d.HasTable "grants" ["principal_id", "database_name", "role"]
  accessTokens : d.HasTable "browser_access_tokens" ["token_hash", "principal_id", "expires_at"]
  sessions : d.HasTable "browser_sessions"
    ["token_hash", "principal_id", "csrf_hash", "expires_at", "created_at"]
  settings : d.HasTable "auth_settings" ["key", "value"]
  token : uxPrincipalsToken ∈ d.indexes
  username : uxPrincipalsUsername ∈ d.indexes
  accessExpiry : ixBrowserAccessExpiry ∈ d.indexes
  sessionsExpiry : ixBrowserSessionsExpiry ∈ d.indexes

/-- Every row is still there. A table may have got more columns. -/
structure Kept (d d' : Store) : Prop where
  tables : ∀ name t, d.tables name = some t →
    ∃ t', d'.tables name = some t' ∧ t'.rows = t.rows ∧ t.columns <+: t'.columns
  indexes : d.indexes <+: d'.indexes

/-- The start migrates, and stops when it has added `username` and not yet created its index. -/
def splits (s : State) : Act → Bool
  | .start .current n => !hasUsername s.store && decide (createBase.length < n) &&
    decide (n < createBase.length + addBrowserLogin.length)
  | _ => false

def unsplit (s : State) (a : Act) : Prop := splits s a = false

instance (s : State) (a : Act) : Decidable (unsplit s a) := inferInstanceAs (Decidable (_ = _))

/-! ## What a statement does -/

variable {d d' : Store} {name column : String} {columns : List String} {t t' : Table} {i : Index}
  {a : Statement} {as : List Statement} {n : Nat}

@[simp] theorem put_self : (d.put name t).tables name = some t := Function.update_self _ _ _

theorem put_other {m : String} (h : m ≠ name) : (d.put name t).tables m = d.tables m :=
  Function.update_of_ne h _ _

@[simp] theorem put_indexes : (d.put name t).indexes = d.indexes := rfl

theorem createTable_cases (h : apply (.createTable name columns) d = some d') :
    (∃ t, d.tables name = some t) ∧ d' = d ∨
      d.tables name = none ∧ d' = d.put name (.create columns) := by
  simp only [apply] at h
  split at h
  · next t ht =>
    cases h
    exact Or.inl ⟨⟨t, ht⟩, rfl⟩
  · next ht =>
    cases h
    exact Or.inr ⟨ht, rfl⟩

theorem createIndex_cases (h : apply (.createIndex i) d = some d') :
    d.hasIndex i.name = true ∧ d' = d ∨
      ∃ t, d.tables i.table = some t ∧ i.column ∈ t.columns ∧ d' = d.addIndex i := by
  simp only [apply] at h
  split at h
  · next hthere =>
    cases h
    exact Or.inl ⟨hthere, rfl⟩
  · split at h
    · cases h
    · next t ht =>
      split at h
      · next hcolumn =>
        cases h
        exact Or.inr ⟨t, ht, hcolumn.1, rfl⟩
      · cases h

theorem addColumn_cases (h : apply (.addColumn name column) d = some d') :
    ∃ t, d.tables name = some t ∧ d' = d.put name (t.addColumn column) := by
  simp only [apply] at h
  split at h
  · cases h
  · next t ht =>
    split at h
    · cases h
    · cases h
      exact ⟨t, ht, rfl⟩

/-! ## Nothing is lost -/

theorem Kept.refl (d : Store) : Kept d d :=
  ⟨fun _ t ht => ⟨t, ht, rfl, List.prefix_refl _⟩, List.prefix_refl _⟩

theorem Kept.put
    (hold : ∀ t, d.tables name = some t → t'.rows = t.rows ∧ t.columns <+: t'.columns) :
    Kept d (d.put name t') where
  tables m t ht := by
    by_cases hm : m = name
    · subst hm
      exact ⟨t', put_self, hold t ht⟩
    · exact ⟨t, by rw [put_other hm, ht], rfl, List.prefix_refl _⟩
  indexes := List.prefix_refl _

theorem apply_kept (h : apply a d = some d') : Kept d d' := by
  cases a with
  | createTable name columns =>
    obtain ⟨-, rfl⟩ | ⟨hnone, rfl⟩ := createTable_cases h
    · exact .refl _
    · refine .put fun t ht => ?_
      rw [hnone] at ht
      cases ht
  | createIndex i =>
    obtain ⟨-, rfl⟩ | ⟨t, -, -, rfl⟩ := createIndex_cases h
    · exact .refl _
    · exact ⟨fun _ t ht => ⟨t, ht, rfl, List.prefix_refl _⟩, List.prefix_append _ _⟩
  | addColumn name column =>
    obtain ⟨t, ht, rfl⟩ := addColumn_cases h
    refine .put fun t₀ ht₀ => ?_
    rw [ht, Option.some.injEq] at ht₀
    subst ht₀
    exact ⟨rfl, List.prefix_append _ _⟩

theorem Kept.trans {d₁ : Store} (h : Kept d d₁) (h' : Kept d₁ d') : Kept d d' where
  tables name t ht := by
    obtain ⟨t₁, ht₁, hrows₁, hcolumns₁⟩ := h.tables name t ht
    obtain ⟨t', ht', hrows', hcolumns'⟩ := h'.tables name t₁ ht₁
    exact ⟨t', ht', hrows'.trans hrows₁, hcolumns₁.trans hcolumns'⟩
  indexes := h.indexes.trans h'.indexes

theorem run_kept (as : List Statement) (d : Store) : Kept d (Lib.Script.run apply as d).1 :=
  Lib.Script.run_inv (P := Kept d) (fun _ _ _ _ hkept h => hkept.trans (apply_kept h)) (.refl d)

/-! ## The databases there can be -/

def shapes : String → List (List String)
  | "databases" => [["name", "created_at"]]
  | "principals" => [principalsColumns, principalsColumns ++ ["username"],
      principalsColumns ++ ["username", "password_hash"]]
  | "grants" => [["principal_id", "database_name", "role"]]
  | "browser_access_tokens" => [["token_hash", "principal_id", "expires_at"]]
  | "browser_sessions" =>
    [["token_hash", "principal_id", "csrf_hash", "expires_at", "created_at"]]
  | "auth_settings" => [["key", "value"]]
  | _ => []

def schemaIndexes : List Index :=
  [uxPrincipalsToken, uxPrincipalsUsername, ixBrowserAccessExpiry, ixBrowserSessionsExpiry]

/-- Without the index on token hashes, nobody has written a principal. -/
structure Known (d : Store) : Prop where
  tables : ∀ name t, d.tables name = some t → t.columns ∈ shapes name
  indexes : ∀ i ∈ d.indexes, i ∈ schemaIndexes ∧
    ∃ t, d.tables i.table = some t ∧ i.column ∈ t.columns
  token : ∀ t, d.tables "principals" = some t → t.rows = [] ∨ uxPrincipalsToken ∈ d.indexes

theorem Known.put (hk : Known d) (hshape : t'.columns ∈ shapes name)
    (hcolumns : ∀ t, d.tables name = some t → t.columns ⊆ t'.columns)
    (htoken : name = "principals" → t'.rows = [] ∨ uxPrincipalsToken ∈ d.indexes) :
    Known (d.put name t') where
  tables m t ht := by
    by_cases hm : m = name
    · subst hm
      rw [put_self, Option.some.injEq] at ht
      exact ht ▸ hshape
    · rw [put_other hm] at ht
      exact hk.tables m t ht
  indexes i hi := by
    obtain ⟨hschema, t, ht, hcolumn⟩ := hk.indexes i hi
    refine ⟨hschema, ?_⟩
    by_cases htable : i.table = name
    · rw [htable] at ht ⊢
      exact ⟨t', put_self, hcolumns t ht hcolumn⟩
    · exact ⟨t, by rw [put_other htable, ht], hcolumn⟩
  token t ht := by
    by_cases hname : "principals" = name
    · subst hname
      rw [put_self, Option.some.injEq] at ht
      exact ht ▸ htoken rfl
    · rw [put_other hname] at ht
      exact hk.token t ht

/-- What `init_schema` may run on the database. -/
def Expected (d : Store) : Statement → Prop
  | .createTable name columns => columns ∈ shapes name
  | .createIndex i => i ∈ schemaIndexes
  | .addColumn name column => ∀ t, d.tables name = some t → t.columns ++ [column] ∈ shapes name

theorem Known.apply (hk : Known d) (ha : Expected d a) (h : apply a d = some d') : Known d' := by
  cases a with
  | createTable name columns =>
    obtain ⟨-, rfl⟩ | ⟨hnone, rfl⟩ := createTable_cases h
    · exact hk
    · refine hk.put ha (fun t ht => ?_) fun _ => Or.inl rfl
      rw [hnone] at ht
      cases ht
  | createIndex i =>
    obtain ⟨-, rfl⟩ | ⟨t, ht, hcolumn, rfl⟩ := createIndex_cases h
    · exact hk
    · refine ⟨hk.tables, ?_, fun t ht => (hk.token t ht).imp_right (List.mem_append_left _)⟩
      intro j hj
      rcases List.mem_append.mp hj with hj | hj
      · exact hk.indexes j hj
      · rw [List.mem_singleton] at hj
        subst hj
        exact ⟨ha, t, ht, hcolumn⟩
  | addColumn name column =>
    obtain ⟨t, ht, rfl⟩ := addColumn_cases h
    refine hk.put (ha t ht) (fun t₀ ht₀ => ?_) fun hname => ?_
    · rw [ht, Option.some.injEq] at ht₀
      subst ht₀
      exact List.subset_append_left _ _
    · subst hname
      exact hk.token t ht

/-! ## The columns of a browser login -/

/-- Both columns are there, and the index is. -/
def Migrated (d : Store) : Prop :=
  d.HasTable "principals" (principalsColumns ++ ["username", "password_hash"]) ∧
    uxPrincipalsUsername ∈ d.indexes

/-- Not stuck between the two: with `username`, all of it. -/
def Whole (d : Store) : Prop := hasUsername d = true → Migrated d

/-- Neither what the migration looks at has changed, nor what it makes. -/
structure Same (d d' : Store) : Prop where
  username : hasUsername d' = hasUsername d
  migrated : Migrated d' ↔ Migrated d

theorem Same.refl (d : Store) : Same d d := ⟨rfl, Iff.rfl⟩

theorem Same.trans {d₁ : Store} (h : Same d d₁) (h' : Same d₁ d') : Same d d' :=
  ⟨h'.username.trans h.username, h'.migrated.trans h.migrated⟩

theorem Same.whole (h : Same d d') : Whole d' ↔ Whole d := by
  rw [Whole, Whole, h.username, h.migrated]

theorem hasUsername_of_table (ht : d.tables "principals" = some t) :
    hasUsername d = true ↔ "username" ∈ t.columns := by
  rw [hasUsername, ht, Option.any_some, List.contains_iff_mem]

theorem hasUsername_of_none (ht : d.tables "principals" = none) : hasUsername d = false := by
  rw [hasUsername, ht, Option.any_none]

theorem Migrated.hasUsername (h : Migrated d) : hasUsername d = true := by
  obtain ⟨⟨t, ht, hcolumns⟩, -⟩ := h
  rw [hasUsername_of_table ht, hcolumns]
  decide

/-- A statement that is not of the migration. -/
def plain : Statement → Bool
  | .createTable _ columns => !columns.contains "username"
  | .createIndex i => i != uxPrincipalsUsername
  | .addColumn .. => false

theorem same_of_put (h : name = "principals" → d.tables name = none ∧ "username" ∉ t.columns) :
    Same d (d.put name t) := by
  by_cases hname : "principals" = name
  · subst hname
    obtain ⟨hnone, hno⟩ := h rfl
    have hbefore : hasUsername d = false := hasUsername_of_none hnone
    have hafter : hasUsername (d.put "principals" t) = false := by
      rw [← Bool.not_eq_true, hasUsername_of_table put_self]
      exact hno
    refine ⟨hafter.trans hbefore.symm, iff_of_false ?_ ?_⟩
    · intro hmigrated
      rw [hmigrated.hasUsername] at hafter
      cases hafter
    · intro hmigrated
      rw [hmigrated.hasUsername] at hbefore
      cases hbefore
  · constructor
    · rw [hasUsername, hasUsername, put_other hname]
    · rw [Migrated, Migrated, Store.HasTable, Store.HasTable, put_other hname, put_indexes]

theorem apply_plain (ha : plain a = true) (h : apply a d = some d') : Same d d' := by
  cases a with
  | createTable name columns =>
    obtain ⟨-, rfl⟩ | ⟨hnone, rfl⟩ := createTable_cases h
    · exact .refl _
    · have hno : "username" ∉ columns := by simpa [plain, List.contains_iff_mem] using ha
      exact same_of_put fun _ => ⟨hnone, hno⟩
  | createIndex i =>
    obtain ⟨-, rfl⟩ | ⟨t, -, -, rfl⟩ := createIndex_cases h
    · exact .refl _
    · have hne : uxPrincipalsUsername ≠ i := by
        rintro rfl
        simp [plain] at ha
      refine ⟨rfl, and_congr_right fun _ => ?_⟩
      simp [Store.addIndex, hne]
  | addColumn => cases ha

theorem run_plain (has : ∀ a ∈ as, plain a = true) (d : Store) :
    Same d (Lib.Script.run apply as d).1 :=
  Lib.Script.run_inv (P := Same d) (fun a ha _ _ hsame h => hsame.trans (apply_plain (has a ha) h))
    (.refl d)

theorem createBase_plain : ∀ a ∈ createBase, plain a = true := by decide

theorem createBrowser_plain : ∀ a ∈ createBrowser, plain a = true := by decide

/-! ## The batches run to their end -/

theorem run_known (has : ∀ a ∈ as, ∀ d, Expected d a) (hk : Known d) :
    Known (Lib.Script.run apply as d).1 :=
  Lib.Script.run_inv (P := Known) (fun a ha d _ hk h => hk.apply (has a ha d) h) hk

theorem createBase_expected : ∀ a ∈ createBase, ∀ d, Expected d a := by
  simp [createBase, Expected, shapes, schemaIndexes]

theorem createBrowser_expected : ∀ a ∈ createBrowser, ∀ d, Expected d a := by
  simp [createBrowser, Expected, shapes, schemaIndexes]

theorem createTable_runs (name : String) (columns : List String) (d : Store) :
    ∃ d' t, apply (.createTable name columns) d = some d' ∧ d'.tables name = some t := by
  simp only [apply]
  cases ht : d.tables name with
  | some t => exact ⟨d, t, rfl, ht⟩
  | none => exact ⟨_, _, rfl, put_self⟩

theorem createIndex_runs (ht : d.tables i.table = some t) (hcolumn : i.column ∈ t.columns)
    (hunique : d.hasIndex i.name = false → i.unique = true → Distinct t.rows i.column) :
    ∃ d', apply (.createIndex i) d = some d' := by
  simp only [apply]
  cases hthere : d.hasIndex i.name with
  | true => exact ⟨d, rfl⟩
  | false =>
    simp only [ht, Bool.false_eq_true, if_false]
    exact ⟨_, if_pos ⟨hcolumn, hunique hthere⟩⟩

theorem distinct_nil : Distinct [] column := List.nodup_nil

theorem hasIndex_of_mem (h : i ∈ d.indexes) : d.hasIndex i.name = true :=
  List.any_eq_true.mpr ⟨i, h, beq_self_eq_true _⟩

theorem createBase_runs (hk : Known d) : (Lib.Script.run apply createBase d).2 = true := by
  obtain ⟨d₁, -, h₁, -⟩ := createTable_runs "databases" ["name", "created_at"] d
  obtain ⟨d₂, t, h₂, ht⟩ := createTable_runs "principals" principalsColumns d₁
  have hk₁ : Known d₁ := hk.apply (createBase_expected _ (by simp [createBase]) d) h₁
  have hk₂ : Known d₂ := hk₁.apply (createBase_expected _ (by simp [createBase]) d₁) h₂
  have hcolumn : "token_hash" ∈ t.columns := by
    have hshapes : ∀ columns ∈ shapes "principals", "token_hash" ∈ columns := by decide
    exact hshapes _ (hk₂.tables _ t ht)
  obtain ⟨d₃, h₃⟩ : ∃ d₃, apply (.createIndex uxPrincipalsToken) d₂ = some d₃ := by
    refine createIndex_runs ht hcolumn fun hno _ => ?_
    rcases hk₂.token t ht with hrows | hmem
    · rw [hrows]
      exact distinct_nil
    · rw [hasIndex_of_mem hmem] at hno
      cases hno
  obtain ⟨d₄, -, h₄, -⟩ := createTable_runs "grants" ["principal_id", "database_name", "role"] d₃
  rw [createBase, Lib.Script.run_cons_of_some h₁, Lib.Script.run_cons_of_some h₂,
    Lib.Script.run_cons_of_some h₃, Lib.Script.run_cons_of_some h₄]
  rfl

theorem createBrowser_runs (hk : Known d) : (Lib.Script.run apply createBrowser d).2 = true := by
  obtain ⟨d₁, t₁, h₁, ht₁⟩ := createTable_runs "browser_access_tokens"
    ["token_hash", "principal_id", "expires_at"] d
  have hk₁ : Known d₁ := hk.apply (createBrowser_expected _ (by simp [createBrowser]) d) h₁
  have hcolumn₁ : "expires_at" ∈ t₁.columns := by
    have hshapes : ∀ columns ∈ shapes "browser_access_tokens", "expires_at" ∈ columns := by decide
    exact hshapes _ (hk₁.tables _ t₁ ht₁)
  obtain ⟨d₂, h₂⟩ : ∃ d₂, apply (.createIndex ixBrowserAccessExpiry) d₁ = some d₂ :=
    createIndex_runs ht₁ hcolumn₁ nofun
  have hk₂ : Known d₂ := hk₁.apply (createBrowser_expected _ (by simp [createBrowser]) d₁) h₂
  obtain ⟨d₃, t₃, h₃, ht₃⟩ := createTable_runs "browser_sessions"
    ["token_hash", "principal_id", "csrf_hash", "expires_at", "created_at"] d₂
  have hk₃ : Known d₃ := hk₂.apply (createBrowser_expected _ (by simp [createBrowser]) d₂) h₃
  have hcolumn₃ : "expires_at" ∈ t₃.columns := by
    have hshapes : ∀ columns ∈ shapes "browser_sessions", "expires_at" ∈ columns := by decide
    exact hshapes _ (hk₃.tables _ t₃ ht₃)
  obtain ⟨d₄, h₄⟩ : ∃ d₄, apply (.createIndex ixBrowserSessionsExpiry) d₃ = some d₄ :=
    createIndex_runs ht₃ hcolumn₃ nofun
  obtain ⟨d₅, -, h₅, -⟩ := createTable_runs "auth_settings" ["key", "value"] d₄
  rw [createBrowser, Lib.Script.run_cons_of_some h₁, Lib.Script.run_cons_of_some h₂,
    Lib.Script.run_cons_of_some h₃, Lib.Script.run_cons_of_some h₄,
    Lib.Script.run_cons_of_some h₅]
  rfl

/-! ## The migration -/

theorem columns_of_no_username (hk : Known d) (hno : hasUsername d = false)
    (ht : d.tables "principals" = some t) : t.columns = principalsColumns := by
  have hmem := hk.tables _ t ht
  rw [← Bool.not_eq_true, hasUsername_of_table ht] at hno
  simp only [shapes, List.mem_cons, List.not_mem_nil, or_false] at hmem
  rcases hmem with h | h | h
  · exact h
  · exact absurd (by rw [h]; decide) hno
  · exact absurd (by rw [h]; decide) hno

theorem no_username_index (hk : Known d) (hno : hasUsername d = false) :
    uxPrincipalsUsername ∉ d.indexes := by
  intro hmem
  obtain ⟨-, t, ht, hcolumn⟩ := hk.indexes _ hmem
  rw [← Bool.not_eq_true, hasUsername_of_table ht] at hno
  exact hno hcolumn

theorem distinct_undeclared (h : column ∉ t.columns) : Distinct t.rows column := by
  have hnull : ∀ r ∈ t.rows, value r column = .null := by
    intro r hr
    have hnone : r.lookup column = none := by
      rw [List.lookup_eq_none_iff]
      intro p hp
      rw [bne_iff_ne]
      rintro rfl
      exact h (t.fits r hr p hp)
    rw [value, hnone, Option.getD_none]
  have hempty : (t.rows.map fun r => value r column).filter (· ≠ .null) = [] := by
    rw [List.filter_eq_nil_iff]
    intro v hv
    obtain ⟨r, hr, rfl⟩ := List.mem_map.mp hv
    simp [hnull r hr]
  rw [Distinct, hempty]
  exact List.nodup_nil

theorem addColumn_runs (ht : d.tables name = some t) (h : column ∉ t.columns) :
    apply (.addColumn name column) d = some (d.put name (t.addColumn column)) := by
  simp only [apply, ht, h, if_false]

theorem schemaIndexes_names :
    ∀ i ∈ schemaIndexes, ∀ j ∈ schemaIndexes, j.name = i.name → j = i := by decide

theorem Known.index (hk : Known d) (hi : i ∈ schemaIndexes) (h : d.hasIndex i.name = true) :
    i ∈ d.indexes := by
  obtain ⟨j, hj, hname⟩ := List.any_eq_true.mp h
  exact schemaIndexes_names i hi j (hk.indexes j hj).1 (beq_iff_eq.mp hname) ▸ hj

theorem addUsername (hk : Known d) (ht : d.tables "principals" = some t)
    (hcolumns : t.columns = principalsColumns) :
    apply (.addColumn "principals" "username") d =
        some (d.put "principals" (t.addColumn "username")) ∧
      (t.addColumn "username").columns = principalsColumns ++ ["username"] ∧
      Known (d.put "principals" (t.addColumn "username")) := by
  have hno : "username" ∉ t.columns := by
    rw [hcolumns]
    decide
  have hrun := addColumn_runs ht hno
  have hexpected : Expected d (.addColumn "principals" "username") := by
    intro t₀ ht₀
    rw [ht, Option.some.injEq] at ht₀
    rw [← ht₀, hcolumns]
    simp [shapes]
  exact ⟨hrun, congrArg (· ++ ["username"]) hcolumns, hk.apply hexpected hrun⟩

theorem addPasswordHash (hk : Known d) (ht : d.tables "principals" = some t)
    (hcolumns : t.columns = principalsColumns ++ ["username"]) :
    apply (.addColumn "principals" "password_hash") d =
        some (d.put "principals" (t.addColumn "password_hash")) ∧
      (t.addColumn "password_hash").columns =
        principalsColumns ++ ["username", "password_hash"] ∧
      Known (d.put "principals" (t.addColumn "password_hash")) := by
  have hno : "password_hash" ∉ t.columns := by
    rw [hcolumns]
    decide
  have hrun := addColumn_runs ht hno
  have hexpected : Expected d (.addColumn "principals" "password_hash") := by
    intro t₀ ht₀
    rw [ht, Option.some.injEq] at ht₀
    rw [← ht₀, hcolumns]
    simp [shapes]
  exact ⟨hrun, congrArg (· ++ ["password_hash"]) hcolumns, hk.apply hexpected hrun⟩

theorem createUsernameIndex (hk : Known d) (ht : d.tables "principals" = some t)
    (hcolumn : "username" ∈ t.columns) (hindex : uxPrincipalsUsername ∉ d.indexes)
    (hdistinct : Distinct t.rows "username") :
    apply (.createIndex uxPrincipalsUsername) d = some (d.addIndex uxPrincipalsUsername) ∧
      Known (d.addIndex uxPrincipalsUsername) := by
  have hexpected : Expected d (.createIndex uxPrincipalsUsername) := by
    simp [Expected, schemaIndexes]
  have hnone : d.hasIndex uxPrincipalsUsername.name = false := by
    rw [← Bool.not_eq_true]
    exact fun hthere => hindex (hk.index hexpected hthere)
  have hrun : apply (.createIndex uxPrincipalsUsername) d =
      some (d.addIndex uxPrincipalsUsername) := by
    have ht' : d.tables uxPrincipalsUsername.table = some t := ht
    simp only [apply, hnone, ht', Bool.false_eq_true, if_false]
    exact if_pos ⟨hcolumn, fun _ => hdistinct⟩
  exact ⟨hrun, hk.apply hexpected hrun⟩

theorem migrated_addIndex (ht : d.tables "principals" = some t)
    (hcolumns : t.columns = principalsColumns ++ ["username", "password_hash"]) :
    Migrated (d.addIndex uxPrincipalsUsername) :=
  ⟨⟨t, ht, hcolumns⟩, by simp [Store.addIndex]⟩

/-- After `k` of its statements, the migration has not begun, is done, or is between the two. -/
theorem addBrowserLogin_stops (hk : Known d) (hno : hasUsername d = false)
    (ht : d.tables "principals" = some t) (k : Nat) :
    ∃ d', Lib.Script.run apply (addBrowserLogin.take k) d = (d', true) ∧ Known d' ∧
      (hasUsername d' = true ↔ 0 < k) ∧ (Migrated d' ↔ 3 ≤ k) := by
  have hbase := columns_of_no_username hk hno ht
  have hindex := no_username_index hk hno
  obtain ⟨h₁, hcolumns₁, hk₁⟩ := addUsername hk ht hbase
  obtain ⟨h₂, hcolumns₂, hk₂⟩ := addPasswordHash hk₁ put_self hcolumns₁
  have hmem : "username" ∈ ((t.addColumn "username").addColumn "password_hash").columns := by
    rw [hcolumns₂]
    decide
  -- The rows have no username, so the index can be created.
  have hdistinct : Distinct t.rows "username" := distinct_undeclared (by rw [hbase]; decide)
  obtain ⟨h₃, hk₃⟩ := createUsernameIndex hk₂ put_self hmem hindex hdistinct
  match k with
  | 0 =>
    refine ⟨d, rfl, hk, by simp [hno], ?_⟩
    exact iff_of_false (fun h => hindex h.2) (by decide)
  | 1 =>
    refine ⟨_, Lib.Script.run_singleton h₁, hk₁, ?_, ?_⟩
    · rw [hasUsername_of_table put_self, hcolumns₁]
      decide
    · exact iff_of_false (fun h => hindex h.2) (by decide)
  | 2 =>
    have hrun := (Lib.Script.run_cons_of_some h₁).trans (Lib.Script.run_singleton h₂)
    refine ⟨_, hrun, hk₂, ?_, ?_⟩
    · exact iff_of_true ((hasUsername_of_table put_self).mpr hmem) (by decide)
    · exact iff_of_false (fun h => hindex h.2) (by decide)
  | k + 3 =>
    have hrun := (Lib.Script.run_cons_of_some h₁).trans
      ((Lib.Script.run_cons_of_some h₂).trans (Lib.Script.run_singleton h₃))
    have hall : addBrowserLogin.take (k + 3) = addBrowserLogin :=
      List.take_of_length_le (by simp [addBrowserLogin])
    rw [hall]
    refine ⟨_, hrun, hk₃, ?_, ?_⟩
    · exact iff_of_true (migrated_addIndex put_self hcolumns₂).hasUsername (by omega)
    · exact iff_of_true (migrated_addIndex put_self hcolumns₂) (by omega)

/-! ## A start -/

theorem batch_stops (hplain : ∀ a ∈ as, plain a = true) (hexpected : ∀ a ∈ as, ∀ d, Expected d a)
    (hruns : (Lib.Script.run apply as d).2 = true) (hk : Known d) (k : Nat) :
    ∃ d', Lib.Script.run apply (as.take k) d = (d', true) ∧ Known d' ∧ Same d d' := by
  have hmem : ∀ a ∈ as.take k, a ∈ as := fun a ha => List.mem_of_mem_take ha
  exact ⟨_, Prod.ext rfl (Lib.Script.run_take k hruns),
    run_known (fun a ha => hexpected a (hmem a ha)) hk,
    run_plain (fun a ha => hplain a (hmem a ha)) d⟩

theorem createBase_stops (hk : Known d) (k : Nat) :
    ∃ d', Lib.Script.run apply (createBase.take k) d = (d', true) ∧ Known d' ∧ Same d d' :=
  batch_stops createBase_plain createBase_expected (createBase_runs hk) hk k

theorem createBrowser_stops (hk : Known d) (k : Nat) :
    ∃ d', Lib.Script.run apply (createBrowser.take k) d = (d', true) ∧ Known d' ∧ Same d d' :=
  batch_stops createBrowser_plain createBrowser_expected (createBrowser_runs hk) hk k

/-- What the statement makes is there. -/
def Done : Statement → Store → Prop
  | .createTable name _, d => ∃ t, d.tables name = some t
  | .createIndex i, d => d.hasIndex i.name = true
  | .addColumn .., _ => True

theorem apply_done (a : Statement) (d d' : Store) (h : apply a d = some d') : Done a d' := by
  cases a with
  | createTable name columns =>
    obtain ⟨hthere, rfl⟩ | ⟨-, rfl⟩ := createTable_cases h
    · exact hthere
    · exact ⟨_, put_self⟩
  | createIndex i =>
    obtain ⟨hthere, rfl⟩ | ⟨t, -, -, rfl⟩ := createIndex_cases h
    · exact hthere
    · exact hasIndex_of_mem (by simp [Store.addIndex])
  | addColumn => trivial

theorem done_kept (a b : Statement) (d d' : Store) (hdone : Done a d) (h : apply b d = some d') :
    Done a d' := by
  have hkept := apply_kept h
  cases a with
  | createTable name columns =>
    obtain ⟨t, ht⟩ := hdone
    obtain ⟨t', ht', -⟩ := hkept.tables name t ht
    exact ⟨t', ht'⟩
  | createIndex i =>
    obtain ⟨j, hj, hname⟩ := List.any_eq_true.mp hdone
    exact List.any_eq_true.mpr ⟨j, hkept.indexes.subset hj, hname⟩
  | addColumn => trivial

theorem run_done (h : Lib.Script.run apply as d = (d', true)) : ∀ a ∈ as, Done a d' := by
  have hdone : ∀ a ∈ as, Done a (Lib.Script.run apply as d).1 :=
    Lib.Script.run_established apply_done done_kept (by rw [h])
  rwa [h] at hdone

theorem script_current (hk : Known d) : script d .current =
    createBase ++ ((if hasUsername d then [] else addBrowserLogin) ++ createBrowser) := by
  obtain ⟨d₁, hrun₁, -, hsame₁⟩ := createBase_stops hk createBase.length
  rw [List.take_length] at hrun₁
  rw [script, hrun₁, hsame₁.username]

theorem current_stops (hk : Known d) (n : Nat) :
    ∃ d', Lib.Script.run apply ((script d .current).take n) d = (d', true) ∧ Known d' ∧
      (hasUsername d = true → Same d d') ∧
      (hasUsername d = false → (hasUsername d' = true ↔ 4 < n) ∧ (Migrated d' ↔ 7 ≤ n)) := by
  obtain ⟨d₁, hrun₁, hk₁, hsame₁⟩ := createBase_stops hk createBase.length
  rw [List.take_length] at hrun₁
  rw [script_current hk]
  by_cases hn : n ≤ 4
  · obtain ⟨d', hrun, hk', hsame⟩ := createBase_stops hk n
    rw [List.take_append_of_le_length hn]
    refine ⟨d', hrun, hk', fun _ => hsame, fun hno => ⟨?_, ?_⟩⟩
    · rw [hsame.username, hno]
      exact iff_of_false Bool.false_ne_true (by omega)
    · rw [hsame.migrated]
      exact iff_of_false (fun h => no_username_index hk hno h.2) (by omega)
  · have hbase : createBase.take n = createBase := List.take_of_length_le (by
      simp only [createBase, List.length_cons, List.length_nil]
      omega)
    have hskip : Lib.Script.run apply ((createBase ++
        ((if hasUsername d then [] else addBrowserLogin) ++ createBrowser)).take n) d =
        Lib.Script.run apply (((if hasUsername d then [] else addBrowserLogin) ++
          createBrowser).take (n - 4)) d₁ := by
      rw [List.take_append, hbase, Lib.Script.run_append (by rw [hrun₁]), hrun₁]
      rfl
    rw [hskip]
    cases hno : hasUsername d with
    | true =>
      obtain ⟨d', hrun, hk', hsame⟩ := createBrowser_stops hk₁ (n - 4)
      exact ⟨d', hrun, hk', fun _ => hsame₁.trans hsame, nofun⟩
    | false =>
      obtain ⟨t, ht⟩ : ∃ t, d₁.tables "principals" = some t :=
        run_done hrun₁ (.createTable "principals" principalsColumns) (by simp [createBase])
      obtain ⟨d₂, hrun₂, hk₂, husername, hmigrated⟩ :=
        addBrowserLogin_stops hk₁ (hsame₁.username.trans hno) ht (n - 4)
      obtain ⟨d', hrun, hk', hsame⟩ := createBrowser_stops hk₂ (n - 4 - addBrowserLogin.length)
      refine ⟨d', ?_, hk', nofun, fun _ => ⟨?_, ?_⟩⟩
      · simp only [Bool.false_eq_true, if_false]
        rw [List.take_append, Lib.Script.run_append (by rw [hrun₂]), hrun₂, hrun]
      · rw [hsame.username, husername]
        omega
      · rw [hsame.migrated, hmigrated]
        omega

/-! ## What runs leave -/

/-- A server that has opened the database has the index on token hashes. -/
structure Inv (s : State) : Prop where
  known : Known s.store
  opened : s.opened = true → uxPrincipalsToken ∈ s.store.indexes

theorem boot_inv : Inv boot := ⟨⟨nofun, nofun, nofun⟩, nofun⟩

theorem write_cases {rows : List Row} (h : d.write name rows = some d') :
    ∃ t hfits, d.tables name = some t ∧ d' = d.put name ⟨t.columns, rows, hfits⟩ := by
  simp only [Store.write] at h
  split at h
  · cases h
  · next t ht =>
    split at h
    · next hfits =>
      split at h
      · cases h
        exact ⟨t, hfits, ht, rfl⟩
      · cases h
    · cases h

theorem same_of_columns (ht : d.tables name = some t) (hcolumns : t'.columns = t.columns) :
    Same d (d.put name t') := by
  by_cases hname : "principals" = name
  · subst hname
    constructor
    · rw [Bool.eq_iff_iff, hasUsername_of_table put_self, hasUsername_of_table ht, hcolumns]
    · simp [Migrated, Store.HasTable, ht, hcolumns]
  · constructor
    · rw [hasUsername, hasUsername, put_other hname]
    · rw [Migrated, Migrated, Store.HasTable, Store.HasTable, put_other hname, put_indexes]

theorem write_spec {rows : List Row} (hk : Known d) (htoken : uxPrincipalsToken ∈ d.indexes)
    (h : d.write name rows = some d') : Known d' ∧ Same d d' ∧ d'.indexes = d.indexes := by
  obtain ⟨t, hfits, ht, rfl⟩ := write_cases h
  refine ⟨hk.put (hk.tables name t ht) (fun t₀ ht₀ => ?_) fun _ => Or.inr htoken,
    same_of_columns ht rfl, rfl⟩
  rw [ht, Option.some.injEq] at ht₀
  rw [← ht₀]
  exact List.Subset.refl _

theorem script_base (d : Store) (v : Version) : createBase ⊆ script d v := by
  cases v with
  | beforeLogin => exact List.Subset.refl _
  | current => exact List.subset_append_left _ _

/-- A start gets as far as it is let, whatever it finds. -/
theorem start_spec (hk : Known d) (v : Version) (n : Nat) :
    ∃ d', Lib.Script.run apply ((script d v).take n) d = (d', true) ∧ Known d' ∧
      (Whole d → (Whole d' ↔ splits ⟨d, false⟩ (.start v n) = false)) ∧
      (¬ Whole d → ¬ Whole d') := by
  cases v with
  | beforeLogin =>
    obtain ⟨d', hrun, hk', hsame⟩ := createBase_stops hk n
    exact ⟨d', hrun, hk', fun hw => iff_of_true (hsame.whole.mpr hw) rfl,
      fun hw => mt hsame.whole.mp hw⟩
  | current =>
    obtain ⟨d', hrun, hk', hyes, hno⟩ := current_stops hk n
    refine ⟨d', hrun, hk', ?_, ?_⟩
    · intro hw
      cases husername : hasUsername d with
      | true => exact iff_of_true ((hyes husername).whole.mpr hw) (by simp [splits, husername])
      | false =>
        obtain ⟨hcolumn, hall⟩ := hno husername
        rw [Whole, hcolumn, hall]
        have hbase : createBase.length = 4 := rfl
        have hlogin : addBrowserLogin.length = 3 := rfl
        simp only [splits, husername, Bool.not_false, Bool.true_and]
        rw [← Bool.not_eq_true, Bool.and_eq_true, decide_eq_true_eq, decide_eq_true_eq]
        omega
    · intro hw
      have husername : hasUsername d = true := by
        by_contra hnot
        exact hw fun h => absurd h hnot
      exact mt (hyes husername).whole.mp hw

theorem step_spec {s s' : State} {act : Act} (hs : Inv s) (h : step s act = some s') :
    Inv s' ∧ (Whole s.store → (Whole s'.store ↔ unsplit s act)) ∧
      (¬ Whole s.store → ¬ Whole s'.store) := by
  cases act with
  | start v n =>
    obtain ⟨d', hrun, hk', hwhole, hlost⟩ := start_spec hs.known v n
    simp only [step, hrun, Option.some.injEq] at h
    subst h
    refine ⟨⟨hk', ?_⟩, hwhole, hlost⟩
    intro hopened
    simp only [Bool.true_and, decide_eq_true_eq] at hopened
    rw [List.take_of_length_le hopened] at hrun
    have htoken := run_done hrun (.createIndex uxPrincipalsToken)
      (script_base s.store v (by simp [createBase]))
    exact hk'.index (by simp [schemaIndexes]) htoken
  | write name rows =>
    simp only [step] at h
    split at h
    · next hopened =>
      obtain ⟨d', hwrite, rfl⟩ := Option.map_eq_some_iff.mp h
      obtain ⟨hk', hsame, hindexes⟩ := write_spec hs.known (hs.opened hopened) hwrite
      refine ⟨⟨hk', fun _ => ?_⟩, fun hw => iff_of_true (hsame.whole.mpr hw) rfl,
        fun hw => mt hsame.whole.mp hw⟩
      rw [hindexes]
      exact hs.opened hopened
    · cases h

theorem full_iff (hk : Known d') (h : Lib.Script.run apply (script d .current) d = (d', true)) :
    Full d' ↔ Migrated d' := by
  refine ⟨fun hfull => ⟨hfull.principals, hfull.username⟩, fun hmigrated => ?_⟩
  have hdone : ∀ a ∈ createBase ++ createBrowser, Done a d' := by
    intro a ha
    refine run_done h a ?_
    simp only [script, List.mem_append] at ha ⊢
    tauto
  have htable : ∀ name columns, .createTable name columns ∈ createBase ++ createBrowser →
      shapes name = [columns] → d'.HasTable name columns := by
    intro name columns hmem hshape
    obtain ⟨t, ht⟩ := hdone _ hmem
    have hcolumns := hk.tables name t ht
    rw [hshape, List.mem_singleton] at hcolumns
    exact ⟨t, ht, hcolumns⟩
  have hindex : ∀ i ∈ schemaIndexes, .createIndex i ∈ createBase ++ createBrowser →
      i ∈ d'.indexes := fun i hi hmem => hk.index hi (hdone _ hmem)
  exact {
    databases := htable _ _ (by simp [createBase]) rfl
    principals := hmigrated.1
    grants := htable _ _ (by simp [createBase]) rfl
    accessTokens := htable _ _ (by simp [createBrowser]) rfl
    sessions := htable _ _ (by simp [createBrowser]) rfl
    settings := htable _ _ (by simp [createBrowser]) rfl
    token := hindex _ (by simp [schemaIndexes]) (by simp [createBase])
    username := hmigrated.2
    accessExpiry := hindex _ (by simp [schemaIndexes]) (by simp [createBrowser])
    sessionsExpiry := hindex _ (by simp [schemaIndexes]) (by simp [createBrowser]) }

/-- A start that is not stopped makes the schema whole, or finds it beyond repair. -/
theorem initSchema_spec (hk : Known d) :
    (initSchema d).2 = true ∧ (Full (initSchema d).1 ↔ Whole d) := by
  obtain ⟨d', hrun, hk', hyes, hno⟩ := current_stops hk (script d .current).length
  rw [List.take_length] at hrun
  rw [initSchema, hrun]
  refine ⟨rfl, ?_⟩
  rw [full_iff hk' hrun]
  cases husername : hasUsername d with
  | true =>
    rw [(hyes husername).migrated]
    exact ⟨fun h _ => h, fun h => h husername⟩
  | false =>
    have hlong : 7 ≤ (script d .current).length := by
      rw [script_current hk, husername]
      decide
    exact iff_of_true ((hno husername).2.mpr hlong) fun h => by rw [husername] at h; cases h

/-! ## Interrupted migrations -/

/-- A start that runs to its end loses no row, and makes the schema whole just when no start before
it was stopped between the new column and its index. -/
theorem migration_interrupted (actions : List Act) (s : State)
    (hrun : exec step boot actions = some s) :
    (initSchema s.store).2 = true ∧
      (Full (initSchema s.store).1 ∧ Kept s.store (initSchema s.store).1 ↔
        Allowed step unsplit boot actions) := by
  have hinv : ∀ s act s', Inv s → step s act = some s' → Inv s' :=
    fun _ _ _ hs h => (step_spec hs h).1
  have hwhole : Whole s.store ↔ Allowed step unsplit boot actions :=
    allowed_iff (I := fun s => Whole s.store) (J := Inv) actions hinv
      (fun _ _ _ hs hw h => (step_spec hs h).2.1 hw) (fun _ _ _ hs hw h => (step_spec hs h).2.2 hw)
      boot_inv nofun hrun
  have hs : Inv s := Reach.inv Inv boot_inv (fun s act s' hs _ h => hinv s act s' hs h)
    (.of_exec actions (.any _ _) hrun)
  obtain ⟨hend, hfull⟩ := initSchema_spec hs.known
  have hkept : Kept s.store (initSchema s.store).1 := run_kept _ _
  refine ⟨hend, ?_⟩
  rw [and_iff_left hkept, hfull]
  exact hwhole

/-! ## Runs -/

def principal (id name : String) : Row :=
  [("id", .text id), ("name", .text name), ("is_admin", .integer 0), ("token_hash", .text id),
    ("disabled", .integer 0), ("created_at", .integer 0)]

def browserUser (id name : String) : Row :=
  principal id name ++ [("username", .text name), ("password_hash", .text "hash")]

/-- The second start takes the schema for migrated. -/
def splitRun : List Act :=
  [.start .current 6, .start .current 9,
    .write "principals" [browserUser "1" "alice", browserUser "2" "alice"]]

/-- There is no index that would keep the second user of the name out. -/
theorem interrupted_migration_duplicates :
    ∃ s, exec step boot splitRun = some s ∧ (initSchema s.store).2 = true ∧
      ¬ Full (initSchema s.store).1 ∧ ((initSchema s.store).1.tables "principals").map (·.rows) =
        some [browserUser "1" "alice", browserUser "2" "alice"] := by
  have hrun : ∃ s, exec step boot splitRun = some s ∧ (initSchema s.store).2 = true ∧
      uxPrincipalsUsername ∉ (initSchema s.store).1.indexes ∧
      ((initSchema s.store).1.tables "principals").map (·.rows) =
        some [browserUser "1" "alice", browserUser "2" "alice"] :=
    ⟨_, rfl, rfl, by decide, rfl⟩
  obtain ⟨s, hexec, hend, hindex, hrows⟩ := hrun
  exact ⟨s, hexec, hend, fun hfull => hindex hfull.username, hrows⟩

/-- A database from before browser login, stopped twice at harmless points of its migration. -/
def oldRun : List Act :=
  [.start .beforeLogin 2, .start .beforeLogin 4, .write "principals" [principal "1" "admin"],
    .start .current 4, .start .current 8]

theorem migration_interrupted_old :
    ∃ s, exec step boot oldRun = some s ∧ Full (initSchema s.store).1 ∧
      Kept s.store (initSchema s.store).1 := by
  obtain ⟨s, hexec⟩ : ∃ s, exec step boot oldRun = some s := ⟨_, rfl⟩
  exact ⟨s, hexec, (migration_interrupted oldRun s hexec).2.mpr (by decide)⟩

end TinyLord.Migration
