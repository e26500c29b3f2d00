import TinyLord.Json
import TinyLord.Lib.Sequence

/-!
# The `_changelog` table

One row for each change, numbered by its rowid. The writer inserts a row inside the change's
own transaction and trims the table after the commit.
-/

open Lib.Sequence

namespace TinyLord

inductive Op where
  | insert
  | update
  | delete
  deriving DecidableEq, Repr

def Op.asStr : Op → String
  | .insert => "insert"
  | .update => "update"
  | .delete => "delete"

def parseOp (s : String) : Op :=
  if s = "insert" then .insert else if s = "update" then .update else .delete

@[simp] theorem parseOp_asStr (op : Op) : parseOp op.asStr = op := by cases op <;> decide

/-- A single change, broadcast after commit. `doc` is nothing for a delete. -/
structure ChangeEvent where
  seq : Int
  collection : String
  op : Op
  id : String
  doc : Option Json

structure ChangelogRow where
  seq : Int
  collection : String
  op : String
  docId : String
  doc : Option Json
  ts : Int

/-- The event of a row, as it was broadcast. -/
def ChangelogRow.toEvent (r : ChangelogRow) : ChangeEvent :=
  { seq := r.seq, collection := r.collection, op := parseOp r.op, id := r.docId, doc := r.doc }

/-- The event of a row, as the replay query reads it back. -/
def ChangelogRow.readBack (readFloat : BitVec 64 → BitVec 64) (r : ChangelogRow) : ChangeEvent :=
  { r.toEvent with doc := r.doc.map (·.reread readFloat) }

def ChangelogRow.survives (readFloat : BitVec 64 → BitVec 64) (r : ChangelogRow) : Bool :=
  r.doc.all (·.survives readFloat)

theorem readBack_of_survives {readFloat : BitVec 64 → BitVec 64} {r : ChangelogRow}
    (h : r.survives readFloat = true) : r.readBack readFloat = r.toEvent := by
  unfold ChangelogRow.survives at h
  unfold ChangelogRow.readBack
  cases hdoc : r.doc with
  | none => simp [ChangelogRow.toEvent, hdoc]
  | some doc =>
    rw [hdoc, Option.all_some] at h
    simp [ChangelogRow.toEvent, hdoc, doc.reread_of_survives h]

@[simp] theorem toEvent_seq (r : ChangelogRow) : r.toEvent.seq = r.seq := rfl
@[simp] theorem readBack_seq (readFloat : BitVec 64 → BitVec 64) (r : ChangelogRow) :
    (r.readBack readFloat).seq = r.seq := rfl

/-- What a change writes to the log, before it has a number. -/
structure Change where
  collection : String
  op : Op
  docId : String
  doc : Option Json
  ts : Int

def Change.row (c : Change) (seq : Int) : ChangelogRow :=
  { seq, collection := c.collection, op := c.op.asStr, docId := c.docId, doc := c.doc, ts := c.ts }

def Change.event (c : Change) (seq : Int) : ChangeEvent :=
  { seq, collection := c.collection, op := c.op, id := c.docId, doc := c.doc }

@[simp] theorem event_seq (c : Change) (n : Int) : (c.event n).seq = n := rfl
@[simp] theorem row_toEvent (c : Change) (n : Int) : (c.row n).toEvent = c.event n := by
  simp [Change.row, ChangelogRow.toEvent, Change.event]

/-! ## The three statements on the table -/

/-- `SELECT COALESCE(MAX(seq), 0) FROM _changelog`. -/
def maxSeq (log : List ChangelogRow) : Int := maxKey (·.seq) log

/-- `SELECT MIN(seq) FROM _changelog`. -/
def minSeq (log : List ChangelogRow) : Option Int := minKey (·.seq) log

/-- A new rowid is one more than the greatest, and 1 in an empty table (no `AUTOINCREMENT`). -/
def nextSeq (log : List ChangelogRow) : Int := maxSeq log + 1

def insertChangelog (log : List ChangelogRow) (c : Change) : List ChangelogRow :=
  log ++ [c.row (nextSeq log)]

/-- Keeps the last `retention` rows. A retention of 0 or less keeps them all. -/
def trimChangelog (retention : Int) (log : List ChangelogRow) : List ChangelogRow :=
  if retention ≤ 0 then log
  else log.filter fun r => ¬ r.seq ≤ maxSeq log - retention

theorem trimChangelog_eq (retention : Int) (log : List ChangelogRow) :
    trimChangelog retention log =
      if retention ≤ 0 then log else above (·.seq) (maxSeq log - retention) log := by
  unfold trimChangelog above
  simp only [Int.not_le]

theorem mem_trimChangelog {retention : Int} {log : List ChangelogRow} {r : ChangelogRow} :
    r ∈ trimChangelog retention log ↔
      r ∈ log ∧ (0 < retention → maxSeq log - retention < r.seq) := by
  rw [trimChangelog_eq]
  split
  · exact ⟨fun h => ⟨h, by omega⟩, And.left⟩
  · rw [mem_above]
    exact ⟨fun h => ⟨h.1, fun _ => h.2⟩, fun h => ⟨h.1, h.2 (by omega)⟩⟩

theorem lt_nextSeq {log : List ChangelogRow} {r : ChangelogRow} (h : r ∈ log) :
    r.seq < nextSeq log := by
  have : r.seq ≤ maxSeq log := le_maxKey (·.seq) h
  unfold nextSeq
  omega

theorem trimChangelog_ne_nil (retention : Int) (log : List ChangelogRow) (h : log ≠ []) :
    trimChangelog retention log ≠ [] := by
  rw [trimChangelog_eq]
  split
  · exact h
  · obtain ⟨r, hr, hmax⟩ := maxKey_mem (fun r : ChangelogRow => r.seq) h
    apply List.ne_nil_of_mem (a := r)
    rw [mem_above]
    refine ⟨hr, ?_⟩
    change r.seq = maxSeq log at hmax
    omega

end TinyLord
