import TinyLord.Db.Kept

/-!
# The `id` column is unique

An insert checks the constraint, and no other statement of the writer gives a row an id. So the
ids are unique in every state that a reader can see, whichever statements fail.
-/

open Lib.Transaction

namespace TinyLord

def UniqueIds (db : Database) : Prop := ∀ t ∈ db.collections, (t.rows.map (·.id)).Nodup

/-- The states of a database file that a reader can see: what a batch leaves, and what it has made
durable on the way. -/
inductive Seen : Database → Prop
  | empty : Seen .empty
  | batch {D : Database} (ctx : Ctx) (batch : List (Command × Env)) (faults : List Fault) :
      Seen D → Seen (processBatch ctx batch (.open D faults)).conn.committed
  | within {D D' : Database} (ctx : Ctx) (batch : List (Command × Env)) (faults : List Fault) :
      Seen D → D' ∈ (processBatch ctx batch (.open D faults)).conn.strays → Seen D'

variable {db db' : Database} {name id : String} {ctx : Ctx} {env : Env} {conn : Conn Database}

/-! ## The statements -/

theorem UniqueIds.ensureCollection (h : UniqueIds db) (name : String) :
    UniqueIds (ensureCollection db name) := by
  unfold TinyLord.ensureCollection
  split
  · exact h
  · exact List.forall_mem_append.mpr ⟨h, by simp⟩

theorem UniqueIds.insertDoc {row : DocRow} {u : Unit} (h : UniqueIds db)
    (hrun : insertDoc name row db = .ok (u, db')) : UniqueIds db' := by
  unfold TinyLord.insertDoc at hrun
  split at hrun
  · cases hrun
  · next t ht =>
    split at hrun
    · cases hrun
    · next hnew =>
      cases hrun
      refine forall_updateRows h ?_
      intro t' ht'
      cases ht.symm.trans ht'
      have hfresh : row.id ∉ t.rows.map (·.id) := by simpa using hnew
      have hids : ((t.rows ++ [row]).map (·.id)).Perm (row.id :: t.rows.map (·.id)) := by
        simp [List.perm_append_singleton]
      exact hids.nodup_iff.mpr (List.nodup_cons.mpr ⟨hfresh, h t (List.mem_of_find?_eq_some ht)⟩)

theorem UniqueIds.updateDoc {doc : Json} {now : Int} {u : Unit} (h : UniqueIds db)
    (hrun : updateDoc name id doc now db = .ok (u, db')) : UniqueIds db' := by
  unfold TinyLord.updateDoc at hrun
  split at hrun
  · cases hrun
  · cases hrun
    refine forall_updateRows h ?_
    intro t ht
    have hids : (t.rows.map fun r => if r.id == id then { r with doc, updatedAt := now } else r).map
        (·.id) = t.rows.map (·.id) := by
      rw [List.map_map]
      refine List.map_congr_left fun r _ => ?_
      simp only [Function.comp_apply]
      split <;> rfl
    rw [hids]
    exact h t (List.mem_of_find?_eq_some ht)

theorem UniqueIds.deleteDoc {n : Nat} (h : UniqueIds db)
    (hrun : deleteDoc name id db = .ok (n, db')) : UniqueIds db' := by
  unfold TinyLord.deleteDoc at hrun
  split at hrun
  · cases hrun
  · cases hrun
    refine forall_updateRows h ?_
    intro t ht
    exact (h t (List.mem_of_find?_eq_some ht)).sublist (List.filter_sublist.map _)

theorem uniqueIds_statements : Statements UniqueIds fun _ => True where
  log _ _ h := h
  ensure _ name h _ := h.ensureCollection name
  insert _ _ _ _ _ h := h.insertDoc
  update _ _ _ _ _ _ _ h := h.updateDoc
  delete _ _ _ _ _ h := h.deleteDoc

/-! ## The writer -/

theorem all_runBatch (batch : List (Command × Env)) (h : conn.All UniqueIds) :
    (runBatch ctx batch conn).conn.All UniqueIds :=
  uniqueIds_statements.all_runBatch batch (fun _ _ _ _ => trivial) h

theorem all_processBatch (batch : List (Command × Env)) (h : conn.All UniqueIds) :
    (processBatch ctx batch conn).conn.All UniqueIds :=
  uniqueIds_statements.all_processBatch batch (fun _ _ _ _ => trivial) h

/-! ## Every state seen -/

theorem Seen.uniqueIds (h : Seen db) : UniqueIds db := by
  induction h with
  | empty => exact nofun
  | batch ctx batch faults _ ih => exact (all_processBatch batch (all_open ih faults)).committed
  | within ctx batch faults _ hmem ih =>
    exact (all_processBatch batch (all_open ih faults)).strays _ hmem

theorem UniqueIds.nodup_rows (h : UniqueIds db) (coll : String) :
    ((db.rows coll).map (·.id)).Nodup := by
  unfold Database.rows
  cases ht : db.table coll with
  | none => exact List.nodup_nil
  | some t => exact h t (List.mem_of_find?_eq_some ht)

end TinyLord
