import TinyLord.Db.Schema
import TinyLord.Lib.Autocommit
import TinyLord.Lib.Run
import TinyLord.Lib.Table
import TinyLord.Query.Values

/-!
# Indexes of a database

SQLite has its own catalogue of indexes, and `_indexes` registers those that clients asked for.
The writer changes the two with statements of their own, outside any transaction.
-/

open Lib Lib.Transaction Lib.Run

namespace TinyLord

/-- A row of `_indexes`. -/
structure IndexRecord where
  name : String
  collection : String
  path : String
  isUnique : Bool
  deriving DecidableEq

/-- An index of SQLite, on a table `coll_<table>`. -/
structure SqlIndex where
  name : String
  table : String
  path : String
  isUnique : Bool

/-- SQLite finds an index in any letter case. -/
def SqlIndex.key (i : SqlIndex) : List Char := fold i.name

structure Catalog where
  tables : Database
  indexes : Table SqlIndex.key
  registry : Table IndexRecord.name

/-- What SQLite knows and the program does not: the value of a document at a path, and the words
that no statement takes as the name of an index. -/
structure IndexSql where
  extract : Json → String → Value
  keyword : String → Bool

variable (sql : IndexSql)

/-! ## Statements -/

/-- The name of a table, or one that SQLite keeps for itself. -/
def Catalog.reserves (c : Catalog) (name : String) : Bool :=
  "sqlite_".toList.isPrefixOf (fold name) ||
    fold name == fold "_changelog" || fold name == fold "_indexes" ||
    c.tables.collections.any fun t => fold ("coll_" ++ t.name) == fold name

/-- `CREATE TABLE IF NOT EXISTS coll_<name>`. An index of that name is in the way. -/
def ensureTable (name : String) (c : Catalog) : Except SqlError (Unit × Catalog) :=
  match c.tables.table name with
  | some _ => .ok ((), c)
  | none =>
    if c.indexes.any fun i => fold i.name == fold ("coll_" ++ name) then .error .failure
    else .ok ((), { c with tables := ensureCollection c.tables name })

/-- Two rows have the same value at the path. NULL is not the same as NULL. -/
def violatesUnique (path : String) (rows : List DocRow) : Bool :=
  !decide (rows.Pairwise fun r r' =>
    (sql.extract r.doc path).compare (sql.extract r'.doc path) ≠ some .eq)

/-- `CREATE [UNIQUE] INDEX <name> ON coll_<collection> (json_extract(doc, '<path>'))`. -/
def createIndex (r : IndexRecord) (c : Catalog) : Except SqlError (Unit × Catalog) :=
  match c.tables.table r.collection with
  | none => .error .failure
  | some t =>
    if sql.keyword r.name || c.reserves r.name then .error .failure
    else
      match c.indexes.insert ⟨r.name, t.name, r.path, r.isUnique⟩ with
      | none => .error .failure
      | some indexes =>
        if r.isUnique && violatesUnique sql r.path t.rows then .error .constraint
        else .ok ((), { c with indexes })

/-- `INSERT INTO _indexes`. The name is the primary key. -/
def insertIndexRow (r : IndexRecord) (c : Catalog) : Except SqlError (Unit × Catalog) :=
  match c.registry.insert r with
  | none => .error .constraint
  | some registry => .ok ((), { c with registry })

def registered (name : String) (c : Catalog) : Bool := c.registry.any fun r => r.name == name

/-- `DROP INDEX IF EXISTS <name>`. -/
def dropSqlIndex (name : String) (c : Catalog) : Except SqlError (Unit × Catalog) :=
  if sql.keyword name then .error .failure
  else .ok ((), { c with indexes := c.indexes.delete fun i => fold i.name == fold name })

/-- `DELETE FROM _indexes WHERE name = ?1`. -/
def deleteIndexRow (name : String) (c : Catalog) : Except SqlError (Unit × Catalog) :=
  .ok ((), { c with registry := c.registry.delete fun r => r.name == name })

/-! ## The two commands of the writer -/

def createIndexErr : SqlError → ApiError
  | .constraint => .conflict "index would violate uniqueness on existing data"
  | e => mapSqliteErr e

def doCreateIndex (r : IndexRecord) : Sql Catalog ApiError Unit := do
  (Sql.write (ensureTable r.collection)).mapErr mapSqliteErr
  (Sql.write (createIndex sql r)).mapErr createIndexErr
  (Sql.write (insertIndexRow r)).mapErr mapSqliteErr

def doDropIndex (name : String) : Sql Catalog ApiError Bool := do
  let existed ← (Sql.read fun c => .ok (registered name c)).mapErr mapSqliteErr
  if !existed then pure false
  else do
    (Sql.write (dropSqlIndex sql name)).mapErr mapSqliteErr
    (Sql.write (deleteIndexRow name)).mapErr mapSqliteErr
    pure true

/-! ## Calls, and what is left of one that stops -/

inductive IndexCall where
  | create (r : IndexRecord)
  | drop (name : String)

def IndexCall.run : IndexCall → Sql Catalog ApiError Bool
  | .create r => do
    doCreateIndex sql r
    pure true
  | .drop name => doDropIndex sql name

inductive IndexAct where
  /-- A call whose statements meet these fates. -/
  | call (c : IndexCall) (faults : List Fault)
  /-- The process stops when so many statements of the call have run. -/
  | stop (c : IndexCall) (ran : Nat)

def IndexAct.of : IndexAct → IndexCall
  | .call c _ | .stop c _ => c

def IndexAct.faults : IndexAct → List Fault
  | .call _ faults => faults
  | .stop _ ran => List.replicate ran .none ++ [.statement]

def IndexAct.result (a : IndexAct) (cat : Catalog) : Except ApiError Bool × Conn Catalog :=
  a.of.run sql (Conn.open cat a.faults)

def IndexAct.after (a : IndexAct) (cat : Catalog) : Catalog := (a.result sql cat).2.committed

/-- Nobody reads the answer of a process that has stopped. -/
def IndexAct.answer (a : IndexAct) (cat : Catalog) : Option (Except ApiError Bool) :=
  match a with
  | .call .. => some (a.result sql cat).1
  | .stop .. => none

def indexStep (cat : Catalog) (a : IndexAct) : Option Catalog := some (a.after sql cat)

/-! ## The registry and the catalogue -/

/-- The row is about this index. A table has one name in all letter cases. -/
def IndexRecord.describes (r : IndexRecord) (i : SqlIndex) : Prop :=
  r.name = i.name ∧ fold r.collection = fold i.table ∧ r.path = i.path ∧ r.isUnique = i.isUnique

structure Catalog.InStep (cat : Catalog) : Prop where
  exist : ∀ r ∈ cat.registry.rows, ∃ i ∈ cat.indexes.rows, r.describes i
  registered : ∀ i ∈ cat.indexes.rows, ∃ r ∈ cat.registry.rows, r.describes i

/-- Both sets of indexes are as they were. -/
def Catalog.SameIndexes (cat cat' : Catalog) : Prop :=
  cat'.indexes = cat.indexes ∧ cat'.registry = cat.registry

/-- What the database has the statement before the last do: build the index, or remove it. -/
def IndexCall.effective (cat : Catalog) : IndexCall → Bool
  | .create r =>
    match ensureTable r.collection cat with
    | .ok (_, cat₁) => (createIndex sql r cat₁).isOk
    | .error _ => false
  | .drop name => registered name cat && !sql.keyword name

/-- The last statement does not fail on its own, after the two before it have run and taken
effect. -/
def IndexAct.completes (a : IndexAct) (cat : Catalog) : Prop :=
  a.faults.getD 0 .none = .none → a.faults.getD 1 .none = .none →
    a.of.effective sql cat = true → a.faults.getD 2 .none = .none

instance (a : IndexAct) (cat : Catalog) : Decidable (a.completes sql cat) :=
  inferInstanceAs (Decidable (_ → _ → _ → _))

/-! ## What the statements do -/

variable {sql} {cat cat' : Catalog} {r : IndexRecord} {name : String} {u : Unit}
  {faults : List Fault}

theorem Catalog.SameIndexes.inStep (h : cat.SameIndexes cat') (hs : cat.InStep) : cat'.InStep := by
  obtain ⟨hindexes, hregistry⟩ := h
  refine ⟨?_, ?_⟩
  · rw [hindexes, hregistry]
    exact hs.exist
  · rw [hindexes, hregistry]
    exact hs.registered

theorem ensureTable_ok (h : ensureTable name cat = .ok (u, cat')) : cat.SameIndexes cat' := by
  unfold ensureTable at h
  split at h
  · cases h
    exact ⟨rfl, rfl⟩
  · split_ifs at h
    cases h
    exact ⟨rfl, rfl⟩

/-- An index as `r` describes it has come to those of `cat`, and no other had its name. -/
def Catalog.Built (cat : Catalog) (r : IndexRecord) (cat' : Catalog) : Prop :=
  ∃ i, r.describes i ∧ (∀ x ∈ cat.indexes.rows, x.name ≠ r.name) ∧
    (∀ x, x ∈ cat'.indexes.rows ↔ x ∈ cat.indexes.rows ∨ x = i) ∧ cat'.registry = cat.registry

theorem createIndex_ok (h : createIndex sql r cat = .ok (u, cat')) : cat.Built r cat' := by
  unfold createIndex at h
  cases ht : cat.tables.table r.collection with
  | none =>
    rw [ht] at h
    contradiction
  | some t =>
    cases hinsert : cat.indexes.insert ⟨r.name, t.name, r.path, r.isUnique⟩ with
    | none =>
      simp only [ht, hinsert] at h
      split_ifs at h
    | some indexes =>
      simp only [ht, hinsert] at h
      split_ifs at h
      cases h
      have htable : fold t.name = fold r.collection := by
        simpa using List.find?_some ht
      refine ⟨_, ⟨rfl, htable.symm, rfl, rfl⟩, ?_, fun x => Table.mem_insert hinsert, rfl⟩
      intro x hx hname
      refine Table.insert_fresh hinsert hx ?_
      unfold SqlIndex.key
      rw [hname]

theorem createIndex_taken {i : SqlIndex} (hi : i ∈ cat.indexes.rows)
    (hname : fold i.name = fold r.name) : createIndex sql r cat = .error .failure := by
  unfold createIndex
  split
  · rfl
  · split
    · rfl
    · split
      · rfl
      · next indexes hinsert =>
        have hkey : SqlIndex.key i ≠ SqlIndex.key _ := Table.insert_fresh hinsert hi
        exact absurd hname hkey

theorem insertIndexRow_ok (hs : cat.InStep) (hb : cat.Built r cat') :
    ∃ registry, insertIndexRow r cat' = .ok ((), { cat' with registry }) ∧
      ∀ x, x ∈ registry.rows ↔ x ∈ cat.registry.rows ∨ x = r := by
  obtain ⟨i, -, hfresh, -, hregistry⟩ := hb
  have hnew : ∀ x ∈ cat'.registry.rows, x.name ≠ r.name := by
    rw [hregistry]
    intro x hx
    obtain ⟨j, hj, hname, -⟩ := hs.exist x hx
    rw [hname]
    exact hfresh j hj
  obtain ⟨registry, hinsert⟩ := Table.exists_insert hnew
  refine ⟨registry, ?_, ?_⟩
  · rw [insertIndexRow, hinsert]
  · intro x
    rw [Table.mem_insert hinsert, hregistry]

theorem inStep_created (hs : cat.InStep) (hb : cat.Built r cat')
    {registry : Table IndexRecord.name}
    (hreg : ∀ x, x ∈ registry.rows ↔ x ∈ cat.registry.rows ∨ x = r) :
    ({ cat' with registry } : Catalog).InStep := by
  obtain ⟨i, hi, -, hmem, -⟩ := hb
  refine ⟨?_, ?_⟩
  · intro x hx
    rcases (hreg x).mp hx with hx | rfl
    · obtain ⟨j, hj, hd⟩ := hs.exist x hx
      exact ⟨j, (hmem j).mpr (Or.inl hj), hd⟩
    · exact ⟨i, (hmem i).mpr (Or.inr rfl), hi⟩
  · intro j hj
    rcases (hmem j).mp hj with hj | rfl
    · obtain ⟨x, hx, hd⟩ := hs.registered j hj
      exact ⟨x, (hreg x).mpr (Or.inl hx), hd⟩
    · exact ⟨r, (hreg r).mpr (Or.inr rfl), hi⟩

theorem not_inStep_built (hs : cat.InStep) (hb : cat.Built r cat') : ¬cat'.InStep := by
  obtain ⟨i, ⟨hname, -⟩, hfresh, hmem, hregistry⟩ := hb
  intro hs'
  obtain ⟨x, hx, hd, -⟩ := hs'.registered i ((hmem i).mpr (Or.inr rfl))
  rw [hregistry] at hx
  obtain ⟨j, hj, hj', -⟩ := hs.exist x hx
  exact hfresh j hj (by rw [← hj', hd, hname])

theorem registered_iff : registered name cat = true ↔ ∃ r ∈ cat.registry.rows, r.name = name := by
  rw [registered, Table.any_iff]
  simp

theorem inStep_dropped (hs : cat.InStep) (hname : registered name cat = true) :
    ({ cat with
        indexes := cat.indexes.delete fun i => fold i.name == fold name
        registry := cat.registry.delete fun r => r.name == name } : Catalog).InStep := by
  obtain ⟨r, hr, rfl⟩ := registered_iff.mp hname
  obtain ⟨i, hi, hri, -⟩ := hs.exist r hr
  -- The name that is dropped is that of `i` also byte by byte, as no other index has its key.
  have honly : ∀ j ∈ cat.indexes.rows, fold j.name = fold r.name → j.name = r.name := by
    intro j hj hfold
    rw [hri] at hfold
    rw [Table.eq_of_key hj hi hfold, hri]
  refine ⟨?_, ?_⟩
  · intro x hx
    obtain ⟨hx, hne⟩ := Table.mem_delete.mp hx
    obtain ⟨j, hj, hd⟩ := hs.exist x hx
    refine ⟨j, Table.mem_delete.mpr ⟨hj, ?_⟩, hd⟩
    rw [beq_eq_false_iff_ne] at hne ⊢
    intro hfold
    exact hne (hd.1.trans (honly j hj hfold))
  · intro j hj
    obtain ⟨hj, hne⟩ := Table.mem_delete.mp hj
    obtain ⟨x, hx, hd⟩ := hs.registered j hj
    refine ⟨x, Table.mem_delete.mpr ⟨hx, ?_⟩, hd⟩
    rw [beq_eq_false_iff_ne] at hne ⊢
    intro hxr
    exact hne (by rw [← hd.1, hxr])

theorem not_inStep_removed (hname : registered name cat = true) :
    ¬({ cat with indexes := cat.indexes.delete fun i => fold i.name == fold name } :
      Catalog).InStep := by
  obtain ⟨r, hr, rfl⟩ := registered_iff.mp hname
  intro hs
  obtain ⟨i, hi, hri, -⟩ := hs.exist r hr
  have hne := (Table.mem_delete.mp hi).2
  rw [beq_eq_false_iff_ne] at hne
  exact hne (by rw [hri])

/-! ## What a call does -/

/-- The call gets as far as its last statement. -/
def IndexCall.lasts (sql : IndexSql) (call : IndexCall) (c : Conn Catalog) : Prop :=
  c.faults.getD 0 .none = .none ∧ c.faults.getD 1 .none = .none ∧
    call.effective sql c.committed = true

/-- A call that stops early changes no index. One that gets to its last statement is answered and
keeps the two in step, unless that statement fails: then they are not. -/
def IndexCall.Outcome (sql : IndexSql) (call : IndexCall) (c : Conn Catalog) : Prop :=
  (¬call.lasts sql c ∧ c.committed.SameIndexes (call.run sql c).2.committed) ∨
  (call.lasts sql c ∧ c.faults.getD 2 .none = .none ∧ (call.run sql c).2.committed.InStep ∧
    ∃ x, (call.run sql c).1 = .ok x) ∨
  (call.lasts sql c ∧ c.faults.getD 2 .none ≠ .none ∧ ¬(call.run sql c).2.committed.InStep)

variable {c : Conn Catalog}

theorem effective_create : (IndexCall.create r).effective sql cat = true ↔
    ∃ p q, ensureTable r.collection cat = .ok p ∧ createIndex sql r p.2 = .ok q := by
  unfold IndexCall.effective
  cases hensure : ensureTable r.collection cat with
  | error e => simp [hensure]
  | ok p =>
    simp only [hensure, Except.ok.injEq, exists_and_left, exists_eq_left']
    cases createIndex sql r p.2 with
    | error e => simp [Except.isOk, Except.toBool]
    | ok q => simp [Except.isOk, Except.toBool]

theorem create_outcome (hc : c.txn = none) (hs : c.committed.InStep) (r : IndexRecord) :
    (IndexCall.create r).Outcome sql c := by
  unfold IndexCall.Outcome IndexCall.lasts
  rw [effective_create]
  obtain ⟨⟨hfate₀, -⟩, ⟨⟩, cat₁, c₁, hensure, hrun₁, h₁⟩ | ⟨hstop, e, c₁, hrun₁, h₁⟩ :=
    write_auto hc (ensureTable r.collection)
  · have hsame := ensureTable_ok hensure
    have hs₁ := hsame.inStep hs
    rw [← h₁.fate 0, ← h₁.fate 1]
    obtain ⟨⟨hfate₁, -⟩, ⟨⟩, cat₂, c₂, hcreate, hrun₂, h₂⟩ | ⟨hstop, e, c₂, hrun₂, h₂⟩ :=
      write_auto h₁.txn (createIndex sql r)
    · rw [h₁.committed] at hcreate
      have hbuilt := createIndex_ok hcreate
      obtain ⟨registry, hinsert, hmem⟩ := insertIndexRow_ok hs₁ hbuilt
      rw [← h₂.fate 0]
      obtain ⟨⟨hfate₂, -⟩, ⟨⟩, cat₃, c₃, hrow, hrun₃, h₃⟩ | ⟨hstop, e, c₃, hrun₃, h₃⟩ :=
        write_auto h₂.txn (insertIndexRow r)
      · have hrun : (IndexCall.create r).run sql c = (.ok true, c₃) := by
          simp only [IndexCall.run, doCreateIndex, bind_apply, Sql.mapErr, hrun₁, hrun₂, hrun₃]
          rfl
        rw [h₂.committed, hinsert] at hrow
        cases hrow
        rw [hrun, h₃.committed]
        exact Or.inr (Or.inl ⟨⟨hfate₀, hfate₁, _, _, hensure, hcreate⟩, hfate₂,
          inStep_created hs₁ hbuilt hmem, true, rfl⟩)
      · have hrun : ((IndexCall.create r).run sql c).2 = c₃ := by
          simp only [IndexCall.run, doCreateIndex, bind_apply, Sql.mapErr, hrun₁, hrun₂, hrun₃]
        rw [hrun, h₃.committed, h₂.committed]
        refine Or.inr (Or.inr ⟨⟨hfate₀, hfate₁, _, _, hensure, hcreate⟩, ?_,
          not_inStep_built hs₁ hbuilt⟩)
        intro hfate₂
        exact hstop ⟨hfate₂, _, by rw [h₂.committed]; exact hinsert⟩
    · have hrun : ((IndexCall.create r).run sql c).2 = c₂ := by
        simp only [IndexCall.run, doCreateIndex, bind_apply, Sql.mapErr, hrun₁, hrun₂]
      rw [hrun, h₂.committed, h₁.committed]
      refine Or.inl ⟨?_, hsame⟩
      rintro ⟨-, hfate₁, p, q, hp, hq⟩
      rw [hensure] at hp
      cases hp
      exact hstop ⟨hfate₁, q, by rw [h₁.committed]; exact hq⟩
  · have hrun : ((IndexCall.create r).run sql c).2 = c₁ := by
      simp only [IndexCall.run, doCreateIndex, bind_apply, Sql.mapErr, hrun₁]
    rw [hrun, h₁.committed]
    refine Or.inl ⟨?_, rfl, rfl⟩
    rintro ⟨hfate₀, -, p, q, hp, -⟩
    exact hstop ⟨hfate₀, p, hp⟩

theorem dropSqlIndex_ok (h : dropSqlIndex sql name cat = .ok (u, cat')) :
    sql.keyword name = false ∧
      cat' = { cat with indexes := cat.indexes.delete fun i => fold i.name == fold name } := by
  unfold dropSqlIndex at h
  split_ifs at h with hword
  cases h
  exact ⟨by simpa using hword, rfl⟩

theorem drop_outcome (hc : c.txn = none) (hs : c.committed.InStep) (name : String) :
    (IndexCall.drop name).Outcome sql c := by
  unfold IndexCall.Outcome IndexCall.lasts IndexCall.effective
  simp only [Bool.and_eq_true, Bool.not_eq_true']
  obtain ⟨⟨hfate₀, -⟩, existed, c₁, hexisted, hrun₁, h₁⟩ | ⟨hstop, e, c₁, hrun₁, h₁⟩ :=
    read_auto hc fun c => .ok (registered name c)
  · cases hexisted
    cases hreg : registered name c.committed with
    | false =>
      have hrun : ((IndexCall.drop name).run sql c).2 = c₁ := by
        simp only [IndexCall.run, doDropIndex, bind_apply, Sql.mapErr, hrun₁, hreg]
        rfl
      rw [hrun, h₁.committed]
      exact Or.inl ⟨by simp, rfl, rfl⟩
    | true =>
      rw [← h₁.fate 0, ← h₁.fate 1]
      obtain ⟨⟨hfate₁, -⟩, ⟨⟩, cat₂, c₂, hdrop, hrun₂, h₂⟩ | ⟨hstop, e, c₂, hrun₂, h₂⟩ :=
        write_auto h₁.txn (dropSqlIndex sql name)
      · rw [h₁.committed] at hdrop
        obtain ⟨hword, rfl⟩ := dropSqlIndex_ok hdrop
        rw [← h₂.fate 0]
        obtain ⟨⟨hfate₂, -⟩, ⟨⟩, cat₃, c₃, hrow, hrun₃, h₃⟩ | ⟨hstop, e, c₃, hrun₃, h₃⟩ :=
          write_auto h₂.txn (deleteIndexRow name)
        · have hrun : (IndexCall.drop name).run sql c = (.ok true, c₃) := by
            simp only [IndexCall.run, doDropIndex, bind_apply, Sql.mapErr, hrun₁, hreg,
              Bool.not_true, Bool.false_eq_true, if_false, hrun₂, hrun₃]
            rfl
          rw [h₂.committed] at hrow
          cases hrow
          rw [hrun, h₃.committed]
          exact Or.inr (Or.inl ⟨⟨hfate₀, hfate₁, rfl, hword⟩, hfate₂, inStep_dropped hs hreg,
            true, rfl⟩)
        · have hrun : ((IndexCall.drop name).run sql c).2 = c₃ := by
            simp only [IndexCall.run, doDropIndex, bind_apply, Sql.mapErr, hrun₁, hreg,
              Bool.not_true, Bool.false_eq_true, if_false, hrun₂, hrun₃]
          rw [hrun, h₃.committed, h₂.committed]
          refine Or.inr (Or.inr ⟨⟨hfate₀, hfate₁, rfl, hword⟩, ?_, not_inStep_removed hreg⟩)
          intro hfate₂
          exact hstop ⟨hfate₂, _, rfl⟩
      · have hrun : ((IndexCall.drop name).run sql c).2 = c₂ := by
          simp only [IndexCall.run, doDropIndex, bind_apply, Sql.mapErr, hrun₁, hreg,
            Bool.not_true, Bool.false_eq_true, if_false, hrun₂]
        rw [hrun, h₂.committed, h₁.committed]
        refine Or.inl ⟨?_, rfl, rfl⟩
        rintro ⟨-, hfate₁, -, hword⟩
        exact hstop ⟨hfate₁, _, by rw [dropSqlIndex, hword]; rfl⟩
  · have hrun : ((IndexCall.drop name).run sql c).2 = c₁ := by
      simp only [IndexCall.run, doDropIndex, bind_apply, Sql.mapErr, hrun₁]
    rw [hrun, h₁.committed]
    refine Or.inl ⟨?_, rfl, rfl⟩
    rintro ⟨hfate₀, -⟩
    exact hstop ⟨hfate₀, _, rfl⟩

theorem ensureTable_error {e : SqlError} (h : ensureTable name cat = .error e) : e = .failure := by
  unfold ensureTable at h
  split at h
  · cases h
  · split_ifs at h
    cases h
    rfl

theorem create_taken {i : SqlIndex} (hi : i ∈ cat.indexes.rows)
    (hname : fold i.name = fold r.name) :
    (IndexAct.call (.create r) []).answer sql cat = some (.error .internal) := by
  rw [IndexAct.answer, IndexAct.result, IndexAct.of, IndexAct.faults, IndexCall.run, doCreateIndex]
  have hfirst : Sql.write (ensureTable r.collection) (Conn.open cat []) = _ := write_healthy _ rfl
  have hcurrent : (Conn.open cat []).current = cat := rfl
  rw [hcurrent] at hfirst
  cases hensure : ensureTable r.collection cat with
  | error e =>
    rw [hensure] at hfirst
    simp only [bind_apply, Sql.mapErr, hfirst, ensureTable_error hensure]
    rfl
  | ok p =>
    obtain ⟨u, cat₁⟩ := p
    rw [hensure] at hfirst
    have hsecond : Sql.write (createIndex sql r) ((Conn.open cat []).put cat₁) = _ :=
      write_healthy _ rfl
    have hrefused : createIndex sql r ((Conn.open cat []).put cat₁).current = .error .failure :=
      createIndex_taken ((ensureTable_ok hensure).1 ▸ hi) hname
    rw [hrefused] at hsecond
    simp only [bind_apply, Sql.mapErr, hfirst, hsecond]
    rfl

/-! ## Runs -/

theorem call_outcome (sql : IndexSql) (hs : cat.InStep) (a : IndexAct) :
    a.of.Outcome sql (Conn.open cat a.faults) := by
  cases a.of with
  | create r => exact create_outcome rfl hs r
  | drop name => exact drop_outcome rfl hs name

/-- One step keeps the two in step, and changes no index when its call fails, exactly when the
last statement of the call is not the one that fails. -/
theorem step_inStep (hs : cat.InStep) (a : IndexAct) :
    a.completes sql cat ↔ (a.after sql cat).InStep ∧
      ∀ e, a.answer sql cat = some (.error e) → cat.SameIndexes (a.after sql cat) := by
  have hlasts : a.completes sql cat ↔ (a.of.lasts sql (Conn.open cat a.faults) →
      a.faults.getD 2 .none = .none) := by
    unfold IndexAct.completes IndexCall.lasts
    constructor
    · rintro h ⟨h₀, h₁, heffective⟩
      exact h h₀ h₁ heffective
    · intro h h₀ h₁ heffective
      exact h ⟨h₀, h₁, heffective⟩
  rw [hlasts]
  obtain ⟨hstop, hsame⟩ | ⟨-, hfate, hkeep, x, hx⟩ | ⟨hlast, hfate, hbroken⟩ :=
    call_outcome sql hs a
  · exact ⟨fun _ => ⟨hsame.inStep hs, fun _ _ => hsame⟩, fun _ h => absurd h hstop⟩
  · refine ⟨fun _ => ⟨hkeep, ?_⟩, fun _ _ => hfate⟩
    intro e he
    cases a with
    | stop call ran => contradiction
    | call call faults =>
      rw [IndexAct.answer, Option.some.injEq, IndexAct.result, hx] at he
      contradiction
  · refine ⟨fun h => absurd (h hlast) hfate, ?_⟩
    rintro ⟨hkeep, -⟩
    exact absurd hkeep hbroken

/-- Along any run of calls, and of stops within calls, in which the last statement of a call is
never the one that fails, the registry describes the indexes that exist, and a call that gives an
error changes neither. Any other step breaks this. -/
theorem registry_matches_indexes {start : Catalog} (hs : start.InStep)
    (h : Reach (indexStep sql) (fun t a => a.completes sql t) start cat) :
    cat.InStep ∧ ∀ a : IndexAct, a.completes sql cat ↔ (a.after sql cat).InStep ∧
      ∀ e, a.answer sql cat = some (.error e) → cat.SameIndexes (a.after sql cat) := by
  have hcat : cat.InStep := by
    refine h.inv Catalog.InStep hs ?_
    intro t a u ht hok hstep
    rw [indexStep, Option.some.injEq] at hstep
    exact hstep ▸ ((step_inStep ht a).mp hok).1
  exact ⟨hcat, step_inStep hcat⟩

def Catalog.empty : Catalog := ⟨Database.empty, Table.empty, Table.empty⟩

theorem inStep_empty : Catalog.empty.InStep := ⟨nofun, nofun⟩

/-- Created, created again under the same name, stopped in the middle, and dropped. -/
theorem registry_matches_indexes_recreated :
    let sql : IndexSql := ⟨fun _ _ => .null, fun _ => false⟩
    let acts : List IndexAct := [
      .call (.create ⟨"a", "users", "$.x", false⟩) [],
      .call (.create ⟨"b", "users", "$.y", true⟩) [],
      .call (.create ⟨"a", "users", "$.z", false⟩) [],
      .stop (.drop "a") 1,
      .call (.drop "a") [.none, .statement],
      .call (.drop "a") []]
    let cat := acts.foldl (fun cat a => a.after sql cat) .empty
    cat.InStep ∧ cat.registry.rows = [⟨"b", "users", "$.y", true⟩] := by
  intro sql acts cat
  have hok : Allowed (indexStep sql) (fun t a => a.completes sql t) .empty acts := by decide
  have hrun : exec (indexStep sql) .empty acts = some cat := exec_total _ _ acts
  exact ⟨(registry_matches_indexes inStep_empty (.of_exec acts hok hrun)).1, by decide⟩

/-- `CREATE INDEX` runs and the row is not inserted: the call gives an error, the index is there,
and the next call to drop it does not find it. -/
theorem registry_misses_index :
    let sql : IndexSql := ⟨fun _ _ => .null, fun _ => false⟩
    let act := IndexAct.call (.create ⟨"a", "users", "$.x", true⟩) [.none, .none, .statement]
    let cat := act.after sql .empty
    Catalog.empty.InStep ∧ act.answer sql .empty = some (.error .internal) ∧
      ¬cat.InStep ∧ ¬Catalog.empty.SameIndexes cat ∧ cat.registry.rows = [] ∧
      cat.indexes.rows.map SqlIndex.name = ["a"] ∧
      (IndexAct.call (.drop "a") []).answer sql cat = some (.ok false) := by
  intro sql act cat
  have hnames : cat.indexes.rows.map SqlIndex.name = ["a"] := by decide
  refine ⟨inStep_empty, rfl, ?_, ?_, rfl, hnames, rfl⟩
  · intro hs
    have hone : ∃ i, i ∈ cat.indexes.rows := by
      cases hrows : cat.indexes.rows with
      | nil =>
        rw [hrows] at hnames
        contradiction
      | cons i _ => exact ⟨i, List.mem_cons_self⟩
    obtain ⟨i, hi⟩ := hone
    obtain ⟨r, hr, -⟩ := hs.registered i hi
    have hnone : cat.registry.rows = [] := rfl
    rw [hnone] at hr
    contradiction
  · rintro ⟨hindexes, -⟩
    rw [hindexes] at hnames
    contradiction

end TinyLord
