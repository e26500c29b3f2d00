import TinyLord.Api.Reserved
import TinyLord.Db.Unique

/-!
# A database file is well formed

Whatever requests come, whichever statements fail and wherever the process stops: the tables have
good names, the documents are objects within the limit, and the log is numbered upwards. What reads
the tables relies on it, such as the filters, which take a document for an object.
-/

open Lib Lib.Run Lib.Sequence Lib.Transaction

namespace TinyLord.WellFormed

open Reserved

/-! ## The statement -/

/-- The body passes the checks of `create` and `put_doc`. -/
def Fits (limits : Limits) (doc : Json) : Prop :=
  requireObject doc = .ok () ∧ checkDocumentSize limits doc = .ok ()

/-- A row of the log. It has a document unless it is about a delete. -/
structure GoodRow (limits : Limits) (r : ChangelogRow) : Prop where
  collection : validName r.collection = true
  doc : ∀ doc ∈ r.doc, Fits limits doc
  op : r.doc = none ↔ r.op = Op.delete.asStr

structure Good (limits : Limits) (db : Database) : Prop where
  names : ∀ t ∈ db.collections, validName t.name = true
  /-- SQLite takes no two of the names for the same. -/
  distinct : (db.collections.map fun t => fold t.name).Nodup
  ids : UniqueIds db
  docs : ∀ t ∈ db.collections, ∀ r ∈ t.rows, Fits limits r.doc
  log : ∀ r ∈ db.changelog, GoodRow limits r
  numbered : Increasing (·.seq) db.changelog

/-! ## Statements -/

variable {limits : Limits} {db db' : Database} {name id coll : String} {ctx : Ctx} {env : Env}
  {cmd : Command} {u : Unit}

theorem map_updateRows (name : String) (f : List DocRow → List DocRow) (ts : List Collection) :
    (updateRows name f ts).map (·.name) = ts.map (·.name) := by
  induction ts with
  | nil => rfl
  | cons t ts ih =>
    rw [updateRows]
    split
    · rfl
    · rw [List.map_cons, List.map_cons, ih]

theorem Good.updateTable {f : List DocRow → List DocRow} (h : Good limits db)
    (hids : UniqueIds (db.updateTable name f))
    (hdocs : ∀ rows, (∀ r ∈ rows, Fits limits r.doc) → ∀ r ∈ f rows, Fits limits r.doc) :
    Good limits (db.updateTable name f) where
  names := forall_updateRows h.names fun t ht => h.names t (List.mem_of_find?_eq_some ht)
  distinct := by
    have hnames := congrArg (List.map fold) (map_updateRows name f db.collections)
    rw [List.map_map, List.map_map] at hnames
    exact hnames ▸ h.distinct
  ids := hids
  docs := forall_updateRows h.docs fun t ht =>
    hdocs t.rows (h.docs t (List.mem_of_find?_eq_some ht))
  log := h.log
  numbered := h.numbered

theorem Good.ensureCollection (h : Good limits db) (hname : validName name = true) :
    Good limits (ensureCollection db name) := by
  have hids := h.ids.ensureCollection name
  unfold TinyLord.ensureCollection at hids ⊢
  split at hids
  · exact h
  · next hnone =>
    refine ⟨?_, ?_, hids, ?_, h.log, h.numbered⟩
    · exact List.forall_mem_append.mpr ⟨h.names, List.forall_mem_singleton.mpr hname⟩
    · have hnew : fold name ∉ db.collections.map fun t => fold t.name := by
        intro hmem
        obtain ⟨t, ht, heq⟩ := List.mem_map.mp hmem
        have hfound := List.find?_eq_none.mp hnone t ht
        exact hfound (decide_eq_true heq)
      rw [List.map_append, List.map_singleton]
      exact List.nodup_append_comm.mp (List.nodup_cons.mpr ⟨hnew, h.distinct⟩)
    · exact List.forall_mem_append.mpr ⟨h.docs, List.forall_mem_singleton.mpr nofun⟩

theorem Good.insertDoc {row : DocRow} (h : Good limits db) (hrow : Fits limits row.doc)
    (hrun : insertDoc name row db = .ok (u, db')) : Good limits db' := by
  have hids := h.ids.insertDoc hrun
  obtain ⟨-, -, rfl⟩ := insertDoc_ok hrun
  refine h.updateTable hids fun rows hrows => ?_
  exact List.forall_mem_append.mpr ⟨hrows, List.forall_mem_singleton.mpr hrow⟩

theorem Good.updateDoc {doc : Json} {now : Int} (h : Good limits db) (hdoc : Fits limits doc)
    (hrun : updateDoc name id doc now db = .ok (u, db')) : Good limits db' := by
  have hids := h.ids.updateDoc hrun
  obtain ⟨-, rfl⟩ := updateDoc_ok hrun
  refine h.updateTable hids fun rows hrows r hr => ?_
  obtain ⟨r', hr', rfl⟩ := List.mem_map.mp hr
  split
  · exact hdoc
  · exact hrows r' hr'

theorem Good.deleteDoc {n : Nat} (h : Good limits db)
    (hrun : deleteDoc name id db = .ok (n, db')) : Good limits db' := by
  have hids := h.ids.deleteDoc hrun
  obtain ⟨-, -, rfl⟩ := deleteDoc_ok hrun
  exact h.updateTable hids fun rows hrows r hr => hrows r (List.mem_of_mem_filter hr)

/-- A change of a good document, or a delete. -/
structure GoodChange (limits : Limits) (c : Change) : Prop where
  collection : validName c.collection = true
  doc : ∀ doc ∈ c.doc, Fits limits doc
  op : c.doc = none ↔ c.op = .delete

theorem Good.logChange {c : Change} {seq : Int} (h : Good limits db) (hc : GoodChange limits c)
    (hrun : logChange c db = .ok (seq, db')) : Good limits db' := by
  cases hrun
  refine ⟨h.names, h.distinct, h.ids, h.docs, ?_, h.numbered.append fun r hr => lt_nextSeq hr⟩
  refine List.forall_mem_append.mpr ⟨h.log, List.forall_mem_singleton.mpr ?_⟩
  refine ⟨hc.collection, hc.doc, hc.op.trans ?_⟩
  simp only [Change.row]
  cases c.op <;> decide

theorem Good.trim (h : Good limits db) (retention : Int) :
    Good limits { db with changelog := trimChangelog retention db.changelog } where
  names := h.names
  distinct := h.distinct
  ids := h.ids
  docs := h.docs
  log r hr := h.log r (mem_trimChangelog.mp hr).1
  numbered := by
    rw [trimChangelog_eq]
    split
    · exact h.numbered
    · exact h.numbered.above

/-! ## Commands -/

/-- What the handlers let through. -/
def GoodCommand (limits : Limits) : Command → Prop
  | .create coll doc | .replace coll _ doc => validName coll = true ∧ Fits limits doc
  | .delete coll _ => validName coll = true

theorem preserves_prepare (hname : validName name = true) :
    Preserves (Good limits) (prepare ctx env name) := by
  refine preserves_checkDbSize.bind fun _ => (Preserves.write ?_).mapErr _
  rintro d u d' h hrun
  cases hrun
  exact h.ensureCollection hname

theorem preserves_insertChange {c : Change} (hc : GoodChange limits c) :
    Preserves (Good limits) (insertChange c) :=
  (Preserves.write fun _ _ _ h hrun => h.logChange hc hrun).mapErr _

theorem preserves_insertDoc {row : DocRow} (hrow : Fits limits row.doc) :
    Preserves (Good limits) ((Sql.write (insertDoc name row)).mapErr mapSqliteErr) :=
  (Preserves.write fun _ _ _ h hrun => h.insertDoc hrow hrun).mapErr _

theorem preserves_doCreate {doc : Json} (hname : validName name = true) (hdoc : Fits limits doc) :
    Preserves (Good limits) (doCreate ctx env name doc) := by
  refine (preserves_prepare hname).bind fun _ => ?_
  refine (preserves_insertDoc hdoc).bind fun _ => ?_
  refine Preserves.bind (preserves_insertChange ⟨hname, ?_, by simp⟩) fun seq => .pure _
  rintro _ ⟨⟩
  exact hdoc

theorem preserves_logReplace {doc : Json} {created : Bool} {createdAt : Int} {op : Op}
    (hname : validName name = true) (hdoc : Fits limits doc) (hop : op ≠ .delete) :
    Preserves (Good limits) (logReplace env name id doc created createdAt op) := by
  refine Preserves.bind (preserves_insertChange ⟨hname, ?_, by simpa using hop⟩) fun seq => .pure _
  rintro _ ⟨⟩
  exact hdoc

theorem preserves_doReplace {doc : Json} (hname : validName name = true) (hdoc : Fits limits doc) :
    Preserves (Good limits) (doReplace ctx env name id doc) := by
  refine (preserves_prepare hname).bind fun _ => ?_
  refine (Preserves.read _).toOption.bind fun existing => ?_
  cases existing with
  | none =>
    refine (preserves_insertDoc hdoc).bind fun _ => ?_
    exact preserves_logReplace hname hdoc nofun
  | some createdAt =>
    refine Preserves.bind ((Preserves.write fun _ _ _ h hrun => ?_).mapErr _) fun _ => ?_
    · exact h.updateDoc hdoc hrun
    · exact preserves_logReplace hname hdoc nofun

theorem preserves_doDelete (hname : validName name = true) :
    Preserves (Good limits) (doDelete env name id) := by
  refine ((Preserves.read _).mapErr _).bind fun there => ?_
  split
  · exact .pure _
  · refine Preserves.bind ((Preserves.write fun _ _ _ h hrun => ?_).mapErr _) fun changed => ?_
    · exact h.deleteDoc hrun
    · split
      · exact .pure _
      · refine Preserves.bind (preserves_insertChange ⟨hname, ?_, by simp⟩) fun seq => .pure _
        rintro _ ⟨⟩

theorem preserves_perform (hcmd : GoodCommand limits cmd) :
    Preserves (Good limits) (perform ctx cmd env) := by
  cases cmd with
  | create name doc => exact (preserves_doCreate hcmd.1 hcmd.2).bind fun r => .pure _
  | replace name id doc => exact (preserves_doReplace hcmd.1 hcmd.2).bind fun r => .pure _
  | delete name id => exact (preserves_doDelete hcmd).bind fun ev => .pure _

theorem runOps_good {batch : List (Command × Env)} {conn : Conn Database}
    (hbatch : ∀ op ∈ batch, GoodCommand limits op.1) (h : conn.All (Good limits)) :
    (runOps ctx batch conn).2.All (Good limits) := by
  induction batch generalizing conn with
  | nil => exact h
  | cons op rest ih =>
    obtain ⟨hop, hrest⟩ := List.forall_mem_cons.mp hbatch
    exact ih hrest (runOp_keeps (stable_all _) (preserves_perform hop) h)

theorem processBatch_good {batch : List (Command × Env)} {conn : Conn Database}
    (hbatch : ∀ op ∈ batch, GoodCommand limits op.1) (h : conn.All (Good limits)) :
    (processBatch ctx batch conn).conn.All (Good limits) := by
  have hrun : (runBatch ctx batch conn).conn.All (Good limits) :=
    runBatch_keeps (stable_all _) (stable_all _) (fun _ h => h)
      (fun _ h => runOps_good hbatch h) h
  unfold processBatch trim
  simp only
  split
  · split
    · exact hrun
    · refine Preserves.write ?_ _ hrun
      rintro d u d' hd hwrite
      cases hwrite
      exact hd.trim _
  · exact hrun

/-! ## Requests -/

theorem validName_of_require {kind : String} (h : requireValidName kind name = .ok u) :
    validName name = true := by
  unfold requireValidName at h
  split at h
  · assumption
  · cases h

theorem checkDocument_good {body : Json} (h : checkDocument limits coll body = .ok u) :
    validName coll = true ∧ Fits limits body := by
  unfold checkDocument at h
  obtain ⟨_, hname, h⟩ := bind_ok h
  split at h
  · cases h
  · obtain ⟨_, hobject, hsize⟩ := bind_ok h
    exact ⟨validName_of_require hname, hobject, hsize⟩

theorem command_good {rq : DocumentRequest} (h : rq.command limits = .ok cmd) :
    GoodCommand limits cmd := by
  cases rq with
  | create coll body | put coll id body =>
    obtain ⟨_, hcheck, hpure⟩ := bind_ok h
    cases hpure
    exact checkDocument_good hcheck
  | delete coll id =>
    obtain ⟨_, hname, hpure⟩ := bind_ok h
    cases hpure
    exact validName_of_require hname

theorem commands_good {batch : List (DocumentRequest × Env)} :
    ∀ op ∈ commands limits batch, GoodCommand limits op.1 := by
  intro op hop
  obtain ⟨⟨rq, env⟩, -, hmap⟩ := List.mem_filterMap.mp hop
  obtain ⟨cmd, hcmd, rfl⟩ := Option.map_eq_some_iff.mp hmap
  cases hrun : rq.command limits with
  | error e =>
    rw [hrun] at hcmd
    cases hcmd
  | ok c =>
    rw [hrun] at hcmd
    cases hcmd
    exact command_good hrun

/-! ## Indexes -/

variable {sql : IndexSql} {cat cat' : Catalog} {r : IndexRecord}

theorem ensureTable_good (hname : validName name = true) (h : Good limits cat.tables)
    (hrun : ensureTable name cat = .ok (u, cat')) : Good limits cat'.tables := by
  unfold ensureTable at hrun
  split at hrun
  · cases hrun
    exact h
  · split at hrun
    · cases hrun
    · cases hrun
      exact h.ensureCollection hname

theorem preserves_createIndex (hname : validName r.collection = true) :
    Preserves (fun cat : Catalog => Good limits cat.tables) (doCreateIndex sql r) := by
  refine Preserves.bind ((Preserves.write fun _ _ _ h => ensureTable_good hname h).mapErr _)
    fun _ => ?_
  refine Preserves.bind ((Preserves.write fun _ _ _ h hrun => ?_).mapErr _) fun _ => ?_
  · rw [createIndex_tables hrun]
    exact h
  · refine (Preserves.write fun _ _ _ h hrun => ?_).mapErr _
    rw [insertIndexRow_tables hrun]
    exact h

theorem preserves_dropIndex :
    Preserves (fun cat : Catalog => Good limits cat.tables) (doDropIndex sql name) := by
  refine ((Preserves.read _).mapErr _).bind fun existed => ?_
  split
  · exact .pure _
  · refine Preserves.bind ((Preserves.write fun _ _ _ h hrun => ?_).mapErr _) fun _ => ?_
    · obtain ⟨-, rfl⟩ := dropSqlIndex_ok hrun
      exact h
    · refine Preserves.bind ((Preserves.write ?_).mapErr _) fun _ => .pure _
      rintro d u d' h hrun
      cases hrun
      exact h

theorem call_good {rq : IndexRequest} {call : IndexCall} (h : rq.call = .ok call) :
    Preserves (fun cat : Catalog => Good limits cat.tables) (call.run sql) := by
  cases rq with
  | create coll path unique ulid =>
    obtain ⟨_, hname, hrest⟩ := bind_ok h
    split at hrest
    · cases hrest
    · cases hrest
      exact (preserves_createIndex (validName_of_require hname)).bind fun _ => .pure _
  | drop coll name =>
    obtain ⟨_, -, hrest⟩ := bind_ok h
    obtain ⟨_, -, hpure⟩ := bind_ok hrest
    cases hpure
    exact preserves_dropIndex

theorem after_good {a : IndexAct}
    (hcall : Preserves (fun cat : Catalog => Good limits cat.tables) (a.of.run sql))
    (h : Good limits cat.tables) : Good limits (a.after sql cat).tables := by
  have hopen := all_open (P := fun cat : Catalog => Good limits cat.tables) h a.faults
  exact (hcall _ hopen).committed

/-! ## Runs -/

theorem step_good {a : Act} (h : Good limits cat.tables)
    (hstep : Reserved.step limits sql cat a = some cat') : Good limits cat'.tables := by
  have hbatch (ctx : Ctx) (batch : List (DocumentRequest × Env)) (faults : List Fault) :
      (handle limits ctx batch faults cat).conn.All (Good limits) :=
    processBatch_good commands_good (all_open h faults)
  cases a with
  | documents ctx batch faults =>
    cases hstep
    exact (hbatch ctx batch faults).committed
  | documentsStop ctx batch faults k =>
    obtain ⟨tables, hk, rfl⟩ := Option.map_eq_some_iff.mp hstep
    exact (hbatch ctx batch faults).strays tables (List.mem_of_getElem? hk)
  | index rq faults | indexStop rq ran =>
    simp only [Reserved.step] at hstep
    split at hstep
    · cases hstep
      exact h
    · cases hstep
      exact after_good (call_good ‹_›) h

/-- A database that has only seen requests is well formed, whatever has failed on the way. -/
theorem stored_good (h : Reach (Reserved.step limits sql) anyStep .empty cat) :
    Good limits cat.tables := by
  refine h.inv (fun cat => Good limits cat.tables) ?_ fun _ _ _ ht _ hstep => step_good ht hstep
  exact ⟨nofun, List.nodup_nil, nofun, nofun, nofun, .nil⟩

theorem stored_good_notes :
    ∃ cat, exec (Reserved.step plainLimits plainSql) .empty
        [put "notes", put "Notes", index "Users"] = some cat ∧
      cat.tables.collections.map (·.name) = ["notes", "Users"] ∧
      Good plainLimits cat.tables := by
  obtain ⟨cat, hexec, hnames⟩ : ∃ cat, exec (Reserved.step plainLimits plainSql) .empty
      [put "notes", put "Notes", index "Users"] = some cat ∧
      cat.tables.collections.map (·.name) = ["notes", "Users"] := ⟨_, rfl, rfl⟩
  exact ⟨cat, hexec, hnames, stored_good (.of_exec _ (.any _ _) hexec)⟩

end TinyLord.WellFormed
