import TinyLord.Db.Changelog
import TinyLord.Errors

/-!
# The tables of one database

A collection is a table `coll_<name>`. SQL finds a table by its name in any letter case, while
`collection_exists` compares the name byte by byte. Both lookups are here, and the single
statements that the writer issues.
-/

open Lib.Transaction

namespace TinyLord

structure DocRow where
  id : String
  doc : Json
  createdAt : Int
  updatedAt : Int

structure Collection where
  name : String
  rows : List DocRow

structure Database where
  collections : List Collection
  changelog : List ChangelogRow

def Database.empty : Database := { collections := [], changelog := [] }

/-- A table name the way SQLite compares it. -/
def fold (name : String) : List Char := name.toList.map Char.toLower

/-- The table that `coll_<name>` means in a statement. -/
def Database.table (db : Database) (name : String) : Option Collection :=
  db.collections.find? fun t => fold t.name = fold name

def Database.rows (db : Database) (name : String) : List DocRow :=
  match db.table name with
  | some t => t.rows
  | none => []

def Database.find (db : Database) (name id : String) : Option DocRow :=
  (db.rows name).find? fun r => r.id == id

/-- `CREATE TABLE IF NOT EXISTS coll_<name>`. -/
def ensureCollection (db : Database) (name : String) : Database :=
  match db.table name with
  | some _ => db
  | none => { db with collections := db.collections ++ [{ name, rows := [] }] }

/-- `SELECT count(*) FROM sqlite_master WHERE type='table' AND name=?1`, greater than 0. -/
def collectionExists (db : Database) (name : String) : Bool :=
  db.collections.any fun t => t.name == name

def Database.present (db : Database) (name id : String) : Bool :=
  collectionExists db name && (db.find name id).isSome

/-! ## Statements -/

def updateRows (name : String) (f : List DocRow → List DocRow) : List Collection → List Collection
  | [] => []
  | t :: ts =>
    if fold t.name = fold name then { t with rows := f t.rows } :: ts
    else t :: updateRows name f ts

def Database.updateTable (db : Database) (name : String) (f : List DocRow → List DocRow) :
    Database :=
  { db with collections := updateRows name f db.collections }

/-- `INSERT INTO coll_<name>`. The `id` column is `UNIQUE`. -/
def insertDoc (name : String) (row : DocRow) (db : Database) : Except SqlError (Unit × Database) :=
  match db.table name with
  | none => .error .failure
  | some t =>
    if t.rows.any (·.id == row.id) then .error .constraint
    else .ok ((), db.updateTable name (· ++ [row]))

/-- `UPDATE coll_<name> SET doc, updated_at WHERE id`. -/
def updateDoc (name id : String) (doc : Json) (now : Int) (db : Database) :
    Except SqlError (Unit × Database) :=
  match db.table name with
  | none => .error .failure
  | some _ => .ok ((), db.updateTable name fun rows =>
      rows.map fun r => if r.id == id then { r with doc, updatedAt := now } else r)

/-- `DELETE FROM coll_<name> WHERE id`, with the number of rows it deletes. -/
def deleteDoc (name id : String) (db : Database) : Except SqlError (Nat × Database) :=
  match db.table name with
  | none => .error .failure
  | some t => .ok (t.rows.countP (·.id == id), db.updateTable name fun rows =>
      rows.filter fun r => r.id != id)

/-- `SELECT created_at FROM coll_<name> WHERE id`. No row is an error here. -/
def selectCreatedAt (name id : String) (db : Database) : Except SqlError Int :=
  match db.table name, db.find name id with
  | none, _ => .error .failure
  | some _, none => .error .failure
  | some _, some r => .ok r.createdAt

/-- `INSERT INTO _changelog`, with the rowid of the new row. -/
def logChange (c : Change) (db : Database) : Except SqlError (Int × Database) :=
  .ok (nextSeq db.changelog, { db with changelog := insertChangelog db.changelog c })

/-! ## What the statements do to the rows -/

variable {db db' : Database} {name c id : String}

@[simp] theorem updateTable_changelog (db : Database) (name : String) (f) :
    (db.updateTable name f).changelog = db.changelog := rfl

theorem table_updateTable (db : Database) (name c : String) (f : List DocRow → List DocRow) :
    (db.updateTable name f).table c =
      (db.table c).map fun t => if fold c = fold name then { t with rows := f t.rows } else t := by
  unfold Database.table Database.updateTable
  simp only
  induction db.collections with
  | nil => rfl
  | cons t ts ih =>
    by_cases hn : fold t.name = fold name <;> by_cases hc : fold t.name = fold c
    · simp [updateRows, hn, ← hc]
    · have hne : fold name ≠ fold c := fun h => hc (hn.trans h)
      simp [updateRows, hn, hne, hne.symm]
    · have hne : fold c ≠ fold name := fun h => hn (hc.trans h)
      simp [updateRows, hc, hne]
    · simp [updateRows, hn, hc, ih]

theorem rows_updateTable (f : List DocRow → List DocRow) (h : (db.table name).isSome) :
    (db.updateTable name f).rows c = if fold c = fold name then f (db.rows c) else db.rows c := by
  unfold Database.rows
  rw [table_updateTable]
  cases hc : db.table c with
  | none =>
    have hne : fold c ≠ fold name := by
      intro heq
      rw [Database.table, ← heq] at h
      rw [Database.table] at hc
      simp [hc] at h
    simp [hne]
  | some t =>
    simp only [Option.map_some]
    split <;> rfl

theorem exists_updateTable (f : List DocRow → List DocRow) :
    collectionExists (db.updateTable name f) c = collectionExists db c := by
  unfold collectionExists Database.updateTable
  simp only
  induction db.collections with
  | nil => rfl
  | cons t ts ih =>
    rw [updateRows]
    split
    · rfl
    · rw [List.any_cons, List.any_cons, ih]

theorem updateTable_self {f : List DocRow → List DocRow} (h : (db.table name).isSome)
    (hf : f (db.rows name) = db.rows name) : db.updateTable name f = db := by
  obtain ⟨cs, log⟩ := db
  simp only [Database.updateTable, Database.mk.injEq, and_true]
  simp only [Database.rows, Database.table] at h hf
  induction cs with
  | nil => rfl
  | cons t ts ih =>
    rw [updateRows]
    by_cases hn : fold t.name = fold name
    · simp only [hn, decide_true, List.find?_cons_of_pos, if_true] at hf ⊢
      rw [hf]
    · simp only [hn, decide_false, Bool.false_eq_true, not_false_eq_true, List.find?_cons_of_neg,
        if_false] at h hf ⊢
      rw [ih h hf]

theorem table_ensureCollection (db : Database) (name : String) :
    ((ensureCollection db name).table name).isSome := by
  unfold ensureCollection
  cases ht : db.table name with
  | some t => simp [ht]
  | none =>
    rw [Database.table, List.find?_append]
    rw [Database.table] at ht
    simp [ht]

theorem rows_ensureCollection (db : Database) (name c : String) :
    (ensureCollection db name).rows c = db.rows c := by
  unfold ensureCollection
  cases ht : db.table name with
  | some t => rfl
  | none =>
    unfold Database.rows Database.table
    rw [List.find?_append]
    cases hc : db.collections.find? fun t => decide (fold t.name = fold c) with
    | some t => rfl
    | none => by_cases hn : fold name = fold c <;> simp [hn]

@[simp] theorem ensureCollection_changelog (db : Database) (name : String) :
    (ensureCollection db name).changelog = db.changelog := by
  unfold ensureCollection
  split <;> rfl

theorem insertDoc_ok {row : DocRow} {u : Unit} (h : insertDoc name row db = .ok (u, db')) :
    (db.table name).isSome ∧ (∀ r ∈ db.rows name, r.id ≠ row.id) ∧
      db' = db.updateTable name (· ++ [row]) := by
  unfold insertDoc at h
  cases ht : db.table name with
  | none => simp [ht] at h
  | some t =>
    simp only [ht] at h
    split_ifs at h with hdup
    refine ⟨rfl, ?_, ?_⟩
    · intro r hr heq
      rw [Database.rows, ht] at hr
      exact hdup (List.any_eq_true.mpr ⟨r, hr, by simp [heq]⟩)
    · simp only [Except.ok.injEq, Prod.mk.injEq] at h
      exact h.2.symm

theorem updateDoc_ok {doc : Json} {now : Int} {u : Unit}
    (h : updateDoc name id doc now db = .ok (u, db')) :
    (db.table name).isSome ∧ db' = db.updateTable name fun rows =>
      rows.map fun r => if r.id == id then { r with doc, updatedAt := now } else r := by
  unfold updateDoc at h
  cases ht : db.table name with
  | none => simp [ht] at h
  | some t =>
    simp only [ht, Except.ok.injEq, Prod.mk.injEq] at h
    exact ⟨rfl, h.2.symm⟩

theorem deleteDoc_ok {n : Nat} (h : deleteDoc name id db = .ok (n, db')) :
    (db.table name).isSome ∧ n = (db.rows name).countP (·.id == id) ∧
      db' = db.updateTable name fun rows => rows.filter fun r => r.id != id := by
  unfold deleteDoc at h
  cases ht : db.table name with
  | none => simp [ht] at h
  | some t =>
    simp only [ht, Except.ok.injEq, Prod.mk.injEq] at h
    exact ⟨rfl, by rw [Database.rows, ht, ← h.1], h.2.symm⟩

theorem selectCreatedAt_ok {n : Int} (h : selectCreatedAt name id db = .ok n) :
    ∃ r, db.find name id = some r ∧ r.createdAt = n := by
  unfold selectCreatedAt at h
  split at h
  · cases h
  · cases h
  · rename_i r _ hr
    exact ⟨r, hr, by simpa using h⟩

end TinyLord
