import TinyLord.Db.History
import TinyLord.Ids

/-!
# Which collection a document is in

A read looks for the collection byte by byte and then selects from the table that SQL finds,
and a write goes to the table that SQL finds. As long as the two lookups agree, each collection
is a list of documents of its own.
-/

open Lib.Transaction

namespace TinyLord

/-! ## Reads -/

/-- The row with its document as it reads back. -/
def DocRow.reread (readFloat : BitVec 64 → BitVec 64) (r : DocRow) : DocRow :=
  { r with doc := r.doc.reread readFloat }

/-- `fetch_document`. -/
def fetchDocument (readFloat : BitVec 64 → BitVec 64) (db : Database) (coll id : String) :
    Option DocRow :=
  if collectionExists db coll then (db.find coll id).map (·.reread readFloat) else none

/-- The query endpoint. `select` is what filter, order, cursor and limit make of the rows. -/
def query (db : Database) (coll : String) (select : List DocRow → List DocRow) : List DocRow :=
  if collectionExists db coll then select (db.rows coll) else []

/-- The count endpoint. `matching` is the compiled filter. -/
def count (db : Database) (coll : String) (matching : DocRow → Bool) : Nat :=
  if collectionExists db coll then (db.rows coll).countP matching else 0

def visible (db : Database) (coll : String) : List DocRow :=
  if collectionExists db coll then db.rows coll else []

theorem fetchDocument_eq (readFloat : BitVec 64 → BitVec 64) (db : Database) (coll id : String) :
    fetchDocument readFloat db coll id =
      ((visible db coll).find? fun r => r.id == id).map (·.reread readFloat) := by
  unfold fetchDocument visible
  split <;> rfl

theorem query_eq (db : Database) (coll : String) {select : List DocRow → List DocRow}
    (hempty : select [] = []) : query db coll select = select (visible db coll) := by
  unfold query visible
  split
  · rfl
  · exact hempty.symm

theorem count_eq (db : Database) (coll : String) (matching : DocRow → Bool) :
    count db coll matching = (visible db coll).countP matching := by
  unfold count visible
  split <;> rfl

/-! ## The store a client has in mind -/

/-- What an acknowledged write makes of the documents of its collection. -/
def applyWrite (rows : List DocRow) (w : Command × Env) : List DocRow :=
  match w with
  | (.create _ doc, env) => appendRow ⟨env.newId, doc, env.now, env.now⟩ rows
  | (.replace _ id doc, env) =>
    if rows.any fun r => r.id == id then updateRow id doc env.now rows
    else appendRow ⟨id, doc, env.now, env.now⟩ rows
  | (.delete _ id, _) => removeRow id rows

/-- The documents of a collection after the writes: those to other collections do not count. -/
def expected (writes : List (Command × Env)) (coll : String) : List DocRow :=
  (writes.filter fun w => w.1.collection == coll).foldl applyWrite []

/-- The database after the acknowledged writes of a run, all to valid names. Each write meets `ok`
in the state before it. A request without an acknowledgement changes nothing. -/
inductive Writes (ok : Database → Command → Prop) : List (Command × Env) → Database → Prop
  | empty : Writes ok [] .empty
  | write {writes D D' cmd env reply ev} : Writes ok writes D → validName cmd.collection = true →
      ok D cmd → Effect env cmd D reply ev D' → Writes ok (writes ++ [(cmd, env)]) D'
  | trim {writes D} (retention : Int) : Writes ok writes D →
      Writes ok writes { D with changelog := trimChangelog retention D.changelog }

/-- The three reads of every collection give what was written to it, and each document can be
deleted through it. -/
structure Separate (writes : List (Command × Env)) (db : Database) : Prop where
  get : ∀ readFloat c id, fetchDocument readFloat db c id =
    ((expected writes c).find? fun r => r.id == id).map (·.reread readFloat)
  query : ∀ c select, select [] = [] → query db c select = select (expected writes c)
  count : ∀ c matching, count db c matching = (expected writes c).countP matching
  delete : ∀ c, ∀ row ∈ expected writes c, ∀ ctx env,
    (runBatch ctx [(.delete c row.id, env)] (.open db [])).replies = [.deleted (.ok true)]

/-- A create or a put comes to no table whose name differs from its own only in letter case. -/
def apart (db : Database) (cmd : Command) : Prop :=
  match cmd with
  | .delete .. => True
  | _ => ∀ t ∈ db.collections, fold t.name = fold cmd.collection → t.name = cmd.collection

def anyWrite (_ : Database) (_ : Command) : Prop := True

def ackedOps (batch : List (Command × Env)) (replies : List Reply) : List (Command × Env) :=
  ((batch.zip replies).filter fun p => p.2.isAck).map (·.1)

/-! ## One write -/

variable {D D' : Database} {env : Env} {cmd : Command} {reply : Reply} {ev : ChangeEvent}
  {writes : List (Command × Env)} {ctx : Ctx} {coll id c : String}

theorem exists_iff : collectionExists D c = true ↔ ∃ t ∈ D.collections, t.name = c := by
  simp [collectionExists]

theorem table_none : D.table c = none ↔ ∀ t ∈ D.collections, fold t.name ≠ fold c := by
  simp [Database.table, List.find?_eq_none]

theorem rows_of_none (h : D.table c = none) : D.rows c = [] := by
  rw [Database.rows, h]

theorem exists_ensure_iff {n : String} :
    collectionExists (ensureCollection D c) n = true ↔
      collectionExists D n = true ∨ (n = c ∧ D.table c = none) := by
  unfold ensureCollection
  cases ht : D.table c with
  | some t => simp
  | none =>
    rw [exists_iff, exists_iff]
    simp only [List.mem_append, List.mem_singleton, or_and_right, exists_or, exists_eq_left,
      and_true]
    rw [eq_comm (a := n)]

def Named (db : Database) : Prop :=
  ∀ a b, collectionExists db a = true → collectionExists db b = true → fold a = fold b → a = b

theorem Named.ensure (h : Named D) (c : String) : Named (ensureCollection D c) := by
  intro a b ha hb hfold
  rw [exists_ensure_iff] at ha hb
  have hnew : ∀ n, D.table c = none → collectionExists D n = true → fold n ≠ fold c := by
    intro n hnone hn
    obtain ⟨t, ht, rfl⟩ := exists_iff.mp hn
    exact table_none.mp hnone t ht
  rcases ha with ha | ⟨rfl, hnone⟩ <;> rcases hb with hb | ⟨rfl, hnone'⟩
  · exact h a b ha hb hfold
  · exact absurd hfold (hnew a hnone' ha)
  · exact absurd hfold.symm (hnew b hnone hb)
  · rfl

theorem Effect.rows (h : Effect env cmd D reply ev D') (n : String) :
    D'.rows n = if fold n = fold cmd.collection then applyWrite (D.rows n) (cmd, env)
      else D.rows n := by
  cases cmd with
  | create coll doc =>
    obtain ⟨-, -, hw⟩ := h
    rw [hw.rows, rows_ensureCollection]
    rfl
  | replace coll id doc =>
    simp only [Effect] at h
    have hany : ∀ n, fold n = fold coll →
        ((D.rows n).any fun r => r.id == id) = (D.find coll id).isSome := by
      intro n hn
      rw [← find_congr D hn, Database.find, Bool.eq_iff_iff, List.find?_isSome, List.any_eq_true]
    simp only [Command.collection, applyWrite]
    cases hfind : D.find coll id with
    | none =>
      simp only [hfind] at h
      rw [h.2.rows, rows_ensureCollection]
      by_cases hn : fold n = fold coll
      · simp [hn, hany n hn, hfind]
      · simp [hn]
    | some old =>
      simp only [hfind] at h
      rw [h.2.rows, rows_ensureCollection]
      by_cases hn : fold n = fold coll
      · simp [hn, hany n hn, hfind]
      · simp [hn]
  | delete coll id =>
    obtain ⟨-, -, hw⟩ := h
    exact hw.rows n

theorem Effect.collections (h : Effect env cmd D reply ev D') :
    (∀ n, collectionExists D' n = collectionExists (ensureCollection D cmd.collection) n) ∧
      ((∃ coll id, cmd = .delete coll id) → collectionExists D cmd.collection = true) := by
  cases cmd with
  | create coll doc => exact ⟨h.2.2.collections, by simp⟩
  | replace coll id doc =>
    simp only [Effect] at h
    refine ⟨?_, by simp⟩
    split at h <;> exact h.2.collections
  | delete coll id =>
    obtain ⟨hp, -, hw⟩ := h
    rw [Database.present, Bool.and_eq_true] at hp
    refine ⟨?_, fun _ => hp.1⟩
    intro n
    have htable : ensureCollection D coll = D := by
      unfold ensureCollection
      cases ht : D.table coll with
      | some t => rfl
      | none =>
        rw [Database.find, rows_of_none ht] at hp
        simp at hp
    rw [hw.collections, Command.collection, htable]

theorem Named.effect (hn : Named D) (h : Effect env cmd D reply ev D') : Named D' := by
  intro a b ha hb hfold
  rw [h.collections.1] at ha hb
  exact hn.ensure _ a b ha hb hfold

theorem Effect.visible (h : Effect env cmd D reply ev D') (hn : Named D) (hapart : apart D cmd)
    (n : String) :
    visible D' n = if cmd.collection = n then applyWrite (visible D n) (cmd, env)
      else visible D n := by
  -- Any collection that the write's table could be mistaken for is the write's own.
  have hown : collectionExists D n = true → fold n = fold cmd.collection → cmd.collection = n := by
    intro hex hfold
    cases cmd with
    | delete coll id => exact hn _ _ (h.collections.2 ⟨coll, id, rfl⟩) hex hfold.symm
    | create coll doc | replace coll id doc =>
      obtain ⟨t, ht, rfl⟩ := exists_iff.mp hex
      exact (hapart t ht hfold).symm
  unfold TinyLord.visible
  by_cases heq : cmd.collection = n
  · subst heq
    have hnone : ¬ collectionExists D cmd.collection = true → D.table cmd.collection = none := by
      intro hex
      rw [table_none]
      intro t ht hfold
      cases cmd with
      | delete coll id => exact hex (h.collections.2 ⟨coll, id, rfl⟩)
      | create coll doc | replace coll id doc =>
        exact hex (exists_iff.mpr ⟨t, ht, hapart t ht hfold⟩)
    have hex' : collectionExists D' cmd.collection = true := by
      rw [h.collections.1, exists_ensure_iff]
      by_cases hex : collectionExists D cmd.collection = true
      · exact Or.inl hex
      · exact Or.inr ⟨rfl, hnone hex⟩
    rw [if_pos hex', h.rows, if_pos rfl, if_pos rfl]
    split
    · rfl
    · next hex => rw [rows_of_none (hnone hex)]
  · have hex' : collectionExists D' n = collectionExists D n := by
      rw [h.collections.1, Bool.eq_iff_iff, exists_ensure_iff]
      exact or_iff_left fun hnew => heq hnew.1.symm
    rw [if_neg heq, hex']
    split
    · next hex => rw [h.rows, if_neg fun hfold => heq (hown hex hfold)]
    · rfl

/-! ## All writes -/

theorem expected_append (writes : List (Command × Env)) (w : Command × Env) (n : String) :
    expected (writes ++ [w]) n =
      if w.1.collection = n then applyWrite (expected writes n) w else expected writes n := by
  unfold expected
  rw [List.filter_append]
  split
  · next h => simp [h]
  · next h => simp [h]

theorem Writes.visible (h : Writes apart writes D) :
    Named D ∧ ∀ n, visible D n = expected writes n := by
  induction h with
  | empty => exact ⟨by simp [Named, collectionExists, Database.empty], fun _ => rfl⟩
  | write _ _ hapart heff ih =>
    refine ⟨ih.1.effect heff, fun n => ?_⟩
    rw [heff.visible ih.1 hapart, expected_append, ih.2]
  | trim _ _ ih => exact ih

theorem doDelete_found {conn : Conn Database} {t : Txn Database} (htxn : conn.txn = some t)
    (hfaults : conn.faults = []) (hex : collectionExists t.work c = true) {row : DocRow}
    (hrow : row ∈ t.work.rows c) (env : Env) :
    ∃ ev w, doDelete env c row.id conn = (.ok (some ev), conn.inTxn t w []) := by
  cases htable : t.work.table c with
  | none => simp [rows_of_none htable] at hrow
  | some table =>
    rw [Database.rows, htable] at hrow
    have hcount : table.rows.countP (fun r => r.id == row.id) ≠ 0 := by
      rw [Ne, List.countP_eq_zero]
      exact fun hall => hall row hrow (by simp)
    simp [doDelete, bind_apply, Sql.mapErr, read_healthy, write_healthy, Conn.current, htxn, hfaults,
      hex, deleteDoc, htable, hcount, Conn.put, insertChange, logChange]
    exact ⟨_, _, rfl⟩

theorem delete_visible {row : DocRow} (h : row ∈ visible D c) (ctx : Ctx) (env : Env) :
    (runBatch ctx [(.delete c row.id, env)] (.open D [])).replies = [.deleted (.ok true)] := by
  unfold visible at h
  split at h
  · next hex =>
    -- The op's savepoint in the batch's transaction.
    let conn : Conn Database := { Conn.open D [] with txn := some ⟨D, [D], true⟩ }
    have hfound := doDelete_found (show conn.txn = some ⟨D, [D], true⟩ from rfl) rfl hex h env
    obtain ⟨ev, w, hdel⟩ := hfound
    have hop : perform ctx (.delete c row.id) env conn =
        (.ok (some (.deleted (.ok true), ev)), conn.inTxn ⟨D, [D], true⟩ w []) := by
      rw [perform, bind_apply, hdel]
      rfl
    simp only [conn, Conn.open] at hop
    simp [runBatch, Conn.open, Conn.begin, Conn.nextFault, runOps, runOp, Conn.savepoint, applyOp,
      hop, Conn.inTxn, closeOp, Conn.release, Conn.commit, onCommit]
  · simp at h

theorem separate_of_visible (h : ∀ n, visible D n = expected writes n) : Separate writes D where
  get readFloat c id := by rw [fetchDocument_eq, h]
  query c select hempty := by rw [query_eq D c hempty, h]
  count c matching := by rw [count_eq, h]
  delete c row hrow ctx env := delete_visible (h c ▸ hrow) ctx env

theorem expected_written (writes : List (Command × Env)) (cmd : Command) (env : Env)
    (hcmd : ∀ coll id, cmd ≠ .delete coll id) :
    ∃ id, ((expected (writes ++ [(cmd, env)]) cmd.collection).find? fun r => r.id == id).isSome := by
  rw [expected_append, if_pos rfl]
  cases cmd with
  | create coll doc =>
    refine ⟨env.newId, List.find?_isSome.mpr ⟨⟨env.newId, doc, env.now, env.now⟩, ?_, by simp⟩⟩
    simp [applyWrite, appendRow]
  | replace coll id doc =>
    refine ⟨id, List.find?_isSome.mpr ?_⟩
    unfold applyWrite
    simp only
    split
    · next hany =>
      obtain ⟨r, hr, hid⟩ := List.any_eq_true.mp hany
      refine ⟨{ r with doc, updatedAt := env.now }, ?_, hid⟩
      exact List.mem_map.mpr ⟨r, hr, by rw [if_pos hid]⟩
    · exact ⟨⟨id, doc, env.now, env.now⟩, by simp [appendRow], by simp⟩
  | delete coll id => exact absurd rfl (hcmd coll id)

theorem Effect.hidden (h : Effect env cmd D reply ev D') (hn : Named D) (hnot : ¬ apart D cmd)
    (readFloat : BitVec 64 → BitVec 64) (id : String) :
    fetchDocument readFloat D' cmd.collection id = none := by
  have hother : ∃ t ∈ D.collections, fold t.name = fold cmd.collection ∧ t.name ≠ cmd.collection := by
    cases cmd with
    | delete coll id => exact absurd trivial hnot
    | create coll doc | replace coll id doc => simpa [apart] using hnot
  obtain ⟨t, ht, hfold, hne⟩ := hother
  have hex : ¬ collectionExists D' cmd.collection = true := by
    rw [h.collections.1, exists_ensure_iff]
    rintro (hex | ⟨-, hnone⟩)
    · exact hne (hn _ _ (exists_iff.mpr ⟨t, ht, rfl⟩) hex hfold)
    · exact table_none.mp hnone t ht hfold
  rw [fetchDocument, if_neg hex]

/-! ## Batches as runs of writes -/

theorem Serial.toWrites {batch : List (Command × Env)} {replies : List Reply} {evs : List ChangeEvent}
    (h : Serial D batch replies evs D') (hw : Writes anyWrite writes D)
    (hvalid : ∀ op ∈ batch, validName op.1.collection = true) :
    Writes anyWrite (writes ++ ackedOps batch replies) D' := by
  induction h generalizing writes with
  | nil D => simpa [ackedOps] using hw
  | @failed _ _ cmd _ _ _ _ e _ ih =>
    have hack : (cmd.error e).isAck = false := by cases cmd <;> rfl
    simpa [ackedOps, hack] using ih hw (List.forall_mem_cons.mp hvalid).2
  | missed _ _ ih => simpa [ackedOps, Reply.isAck] using ih hw (List.forall_mem_cons.mp hvalid).2
  | acked heff _ ih =>
    obtain ⟨hop, hrest⟩ := List.forall_mem_cons.mp hvalid
    obtain ⟨_, -, -, -, hack⟩ := heff.changed
    simpa [ackedOps, hack] using ih (.write hw hop trivial heff) hrest

/-- A batch whose transaction no failure takes back is a run of its acknowledged writes. -/
theorem processBatch_writes (hw : Writes anyWrite writes D) (ctx : Ctx)
    (batch : List (Command × Env)) (faults : List Fault)
    (hvalid : ∀ op ∈ batch, validName op.1.collection = true)
    (hkeep : KeepsTransaction ctx batch (.open D faults)) :
    ∃ writes', Writes anyWrite (writes ++ writes')
      (processBatch ctx batch (.open D faults)).conn.committed := by
  have hbatch : ∃ writes', Writes anyWrite (writes ++ writes')
      (runBatch ctx batch (.open D faults)).conn.committed := by
    rcases runBatch_calm ctx batch D hkeep with htrue | ⟨hsame, -, -⟩
    · exact ⟨_, htrue.toWrites hw hvalid⟩
    · exact ⟨[], by rwa [hsame, List.append_nil]⟩
  obtain ⟨writes', hw'⟩ := hbatch
  refine ⟨writes', ?_⟩
  simp only [processBatch]
  split
  · rcases trim_committed ctx (runBatch ctx batch (.open D faults)).conn with h | h <;>
      simp only [h]
    · exact hw'
    · exact hw'.trim _
  · exact hw'

/-- The writes of a run are kept apart as long as each comes to no table of a collection that
differs in letter case, and the first that does not breaks it. -/
theorem documents_stay (h : Writes apart writes D) :
    Separate writes D ∧ ∀ cmd env reply ev D', validName cmd.collection = true →
      Effect env cmd D reply ev D' → (Separate (writes ++ [(cmd, env)]) D' ↔ apart D cmd) := by
  obtain ⟨hn, hvis⟩ := h.visible
  refine ⟨separate_of_visible hvis, ?_⟩
  intro cmd env reply ev D' hvalid heff
  constructor
  · intro hsep
    by_contra hnot
    have hcmd : ∀ coll id, cmd ≠ .delete coll id := by
      rintro coll id rfl
      exact hnot trivial
    obtain ⟨id, hid⟩ := expected_written writes cmd env hcmd
    have hget := hsep.get (fun bits => bits) cmd.collection id
    rw [heff.hidden hn hnot] at hget
    obtain ⟨row, hrow⟩ := Option.isSome_iff_exists.mp hid
    simp [hrow] at hget
  · intro hapart
    exact separate_of_visible (Writes.write h hvalid hapart heff).visible.2

def fooTwice : List (Command × Env) :=
  [(.replace "Foo" "x" .null, envAt "u" 1), (.replace "foo" "y" .null, envAt "v" 2)]

/-- Both puts are acknowledged. The second document is in the first collection, and not in the one
it was put to. -/
theorem variant_name_hides :
    ∃ D, Writes anyWrite fooTwice D ∧
      (∀ readFloat, fetchDocument readFloat D "foo" "y" = none ∧
        (fetchDocument readFloat D "Foo" "y").isSome) ∧ ¬ Separate fooTwice D := by
  let o := runBatch noLimits fooTwice (.open .empty [])
  have hrun : Truthful .empty fooTwice o := by
    have hkeeps := keeps_of_calm noLimits fooTwice .empty (List.not_mem_nil (a := Fault.rollback))
    rcases runBatch_calm noLimits fooTwice .empty hkeeps with h | h
    · exact h
    · exact nomatch h.2.2
  have hw : Writes anyWrite fooTwice o.conn.committed :=
    hrun.toWrites .empty (by decide)
  have hnone : ∀ readFloat, fetchDocument readFloat o.conn.committed "foo" "y" = none :=
    fun _ => by rfl
  refine ⟨_, hw, fun readFloat => ⟨hnone readFloat, by rfl⟩, ?_⟩
  intro h
  have hget := h.get (fun bits => bits) "foo" "y"
  rw [hnone] at hget
  exact nomatch hget

theorem put_foo : ∃ reply ev D,
    Effect (envAt "u" 1) (.replace "Foo" "x" .null) .empty reply ev D :=
  ⟨_, _, _, rfl, written_of_updateTable _ (table_ensureCollection _ _)⟩

theorem documents_stay_foo :
    ∃ D, Separate [(.replace "Foo" "x" .null, envAt "u" 1)] D ∧
      ∀ readFloat, (fetchDocument readFloat D "Foo" "x").isSome := by
  obtain ⟨reply, ev, D, heff⟩ := put_foo
  have hsep := ((documents_stay .empty).2 _ _ _ _ _ rfl heff).mpr (by simp [apart, Database.empty])
  refine ⟨D, hsep, fun readFloat => ?_⟩
  rw [hsep.get]
  rfl

end TinyLord
