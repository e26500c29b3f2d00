import TinyLord.Api.Indexes
import TinyLord.Db.Kept
import TinyLord.JsonText

/-!
# Reserved collections

The handlers of documents refuse the reserved names, compared byte by byte. The writer makes the
tables, for documents and for indexes, under names that SQLite compares in any letter case.
-/

open Lib Lib.Run Lib.Transaction

namespace TinyLord.Reserved

/-! ## The handlers -/

structure Limits where
  printer : Printer
  maxDocumentBytes : Nat

def requireObject : Json → Except ApiError Unit
  | .object _ => .ok ()
  | _ => .error (.badRequest "document body must be a JSON object")

def checkDocumentSize (limits : Limits) (doc : Json) : Except ApiError Unit :=
  if limits.maxDocumentBytes = 0 then .ok ()
  else
    let bytes := (String.ofList (doc.compact limits.printer)).utf8ByteSize
    if limits.maxDocumentBytes < bytes then
      .error (.payloadTooLarge "document exceeds max_document_bytes")
    else .ok ()

/-- The checks of `create` and `put_doc`, in their order. -/
def checkDocument (limits : Limits) (coll : String) (body : Json) : Except ApiError Unit := do
  requireValidName "collection" coll
  if isReservedCollection coll then throw (.validation "collection name is reserved")
  requireObject body
  checkDocumentSize limits body

inductive DocumentRequest where
  | create (coll : String) (body : Json)
  | put (coll id : String) (body : Json)
  | delete (coll id : String)

inductive IndexRequest where
  | create (coll path : String) (unique : Bool) (ulid : String)
  | drop (coll name : String)

/-- What the handler sends to the writer. -/
def DocumentRequest.command (limits : Limits) : DocumentRequest → Except ApiError Command
  | .create coll body => do
    checkDocument limits coll body
    pure (.create coll body)
  | .put coll id body => do
    checkDocument limits coll body
    pure (.replace coll id body)
  | .delete coll id => do
    requireValidName "collection" coll
    pure (.delete coll id)

def IndexRequest.call : IndexRequest → Except ApiError IndexCall
  | .create coll path unique ulid => do
    requireValidName "collection" coll
    if !validJsonPath path then
      throw (.validation "path must be a JSON path like '$.email'")
    let name := generateIndexName coll path ulid
    pure (.create { name, collection := coll, path, isUnique := unique })
  | .drop coll name => do
    requireValidName "collection" coll
    requireValidName "index" name
    pure (.drop name)

/-! ## Runs -/

/-- Requests that only read have the pool of readers. -/
inductive Act where
  /-- The writer takes these requests into one batch, and the statements meet these fates. -/
  | documents (ctx : Ctx) (batch : List (DocumentRequest × Env)) (faults : List Fault)
  /-- The process stops in such a batch, with the `k`-th state that it has made durable. -/
  | documentsStop (ctx : Ctx) (batch : List (DocumentRequest × Env)) (faults : List Fault) (k : Nat)
  | index (rq : IndexRequest) (faults : List Fault)
  /-- The process stops when so many statements of the request have run. -/
  | indexStop (rq : IndexRequest) (ran : Nat)

/-- Those that pass their checks. -/
def commands (limits : Limits) (batch : List (DocumentRequest × Env)) : List (Command × Env) :=
  batch.filterMap fun op => (op.1.command limits).toOption.map fun cmd => (cmd, op.2)

def handle (limits : Limits) (ctx : Ctx) (batch : List (DocumentRequest × Env))
    (faults : List Fault) (cat : Catalog) : Outcome :=
  processBatch ctx (commands limits batch) (.open cat.tables faults)

def step (limits : Limits) (sql : IndexSql) (cat : Catalog) : Act → Option Catalog
  | .documents ctx batch faults =>
    some { cat with tables := (handle limits ctx batch faults cat).conn.committed }
  | .documentsStop ctx batch faults k =>
    ((handle limits ctx batch faults cat).conn.strays[k]?).map fun tables => { cat with tables }
  | .index rq faults =>
    match rq.call with
    | .error _ => some cat
    | .ok call => some ((IndexAct.call call faults).after sql cat)
  | .indexStop rq ran =>
    match rq.call with
    | .error _ => some cat
    | .ok call => some ((IndexAct.stop call ran).after sql cat)

/-! ## The handlers of indexes -/

theorem step_create (limits : Limits) (sql : IndexSql) (cat : Catalog) (coll path ulid : String)
    (unique : Bool) : step limits sql cat (.index (.create coll path unique ulid) []) =
      some (Indexes.create sql coll path unique ulid cat).2 := by
  simp only [step, IndexRequest.call, Indexes.create]
  cases requireValidName "collection" coll with
  | error e => rfl
  | ok u =>
    cases validJsonPath path with
    | false => rfl
    | true =>
      simp only [bind, Except.bind, Bool.not_true, Bool.false_eq_true, if_false, pure, Except.pure,
        IndexAct.after, IndexAct.result, IndexAct.of, IndexAct.faults, IndexCall.run]
      generalize doCreateIndex sql ⟨generateIndexName coll path ulid, coll, path, unique⟩
        (Conn.open cat []) = r
      obtain ⟨_ | _, conn⟩ := r
      · rfl
      · rfl

theorem step_drop (limits : Limits) (sql : IndexSql) (cat : Catalog) (coll name : String) :
    step limits sql cat (.index (.drop coll name) []) =
      some (Indexes.drop sql coll name cat).2 := by
  simp only [step, IndexRequest.call, Indexes.drop]
  cases requireValidName "collection" coll with
  | error e => rfl
  | ok u =>
    cases requireValidName "index" name with
    | error e => rfl
    | ok u' =>
      simp only [bind, Except.bind, pure, Except.pure,
        IndexAct.after, IndexAct.result, IndexAct.of, IndexAct.faults, IndexCall.run]
      generalize doDropIndex sql name (Conn.open cat []) = r
      obtain ⟨_ | _ | _, conn⟩ := r
      · rfl
      · rfl
      · rfl

/-! ## What is reserved -/

/-- SQLite takes the table for that of a reserved name. -/
def IsReserved (name : String) : Prop := ∃ r ∈ reservedCollections, fold name = fold r

instance (name : String) : Decidable (IsReserved name) :=
  inferInstanceAs (Decidable (∃ r ∈ reservedCollections, fold name = fold r))

def NoReserved (cat : Catalog) : Prop := ∀ t ∈ cat.tables.collections, ¬ IsReserved t.name

/-- A spelling of a reserved name that `is_reserved_collection` does not know. -/
def Respelled (name : String) : Prop := IsReserved name ∧ isReservedCollection name = false

instance (name : String) : Decidable (Respelled name) :=
  inferInstanceAs (Decidable (IsReserved name ∧ isReservedCollection name = false))

/-- A document with a good body is not for a reserved name in other letters. -/
def DocumentRequest.proper (limits : Limits) : DocumentRequest → Prop
  | .create coll body | .put coll _ body =>
    requireObject body = .ok () → checkDocumentSize limits body = .ok () → ¬ Respelled coll
  | .delete .. => True

/-- An index with a good path is not for a reserved name in any letters. -/
def IndexRequest.proper : IndexRequest → Prop
  | .create coll path _ _ => validJsonPath path = true → ¬ IsReserved coll
  | .drop .. => True

def Act.proper (limits : Limits) : Act → Prop
  | .documents _ batch _ | .documentsStop _ batch _ _ => ∀ op ∈ batch, op.1.proper limits
  | .index rq _ | .indexStop rq _ => rq.proper

/-! ## The names of the tables -/

variable {limits : Limits} {sql : IndexSql} {Q : String → Prop} {db : Database} {name coll : String}
  {r : IndexRecord} {cat cat' : Catalog} {u : Unit}

def Named (Q : String → Prop) (db : Database) : Prop := ∀ t ∈ db.collections, Q t.name

theorem Named.updateTable {f : List DocRow → List DocRow} (h : Named Q db) :
    Named Q (db.updateTable name f) :=
  forall_updateRows h fun t ht => h t (List.mem_of_find?_eq_some ht)

theorem Named.ensureCollection (h : Named Q db) (hname : Q name) :
    Named Q (ensureCollection db name) := by
  unfold TinyLord.ensureCollection
  split
  · exact h
  · exact List.forall_mem_append.mpr ⟨h, List.forall_mem_singleton.mpr hname⟩

theorem named_statements (Q : String → Prop) : Statements (Named Q) Q where
  log _ _ h := h
  ensure _ _ h hname := h.ensureCollection hname
  insert _ _ _ _ _ h hrun := by
    obtain ⟨-, -, rfl⟩ := insertDoc_ok hrun
    exact h.updateTable
  update _ _ _ _ _ _ _ h hrun := by
    obtain ⟨-, rfl⟩ := updateDoc_ok hrun
    exact h.updateTable
  delete _ _ _ _ _ h hrun := by
    obtain ⟨-, -, rfl⟩ := deleteDoc_ok hrun
    exact h.updateTable

/-! ## Documents -/

theorem bind_ok {ε α β : Type} {x : Except ε α} {f : α → Except ε β} {b : β}
    (h : x >>= f = .ok b) : ∃ a, x = .ok a ∧ f a = .ok b := by
  cases x with
  | error e => cases h
  | ok a => exact ⟨a, rfl, h⟩

theorem checkDocument_not_reserved (h : checkDocument limits coll body = .ok u)
    (hproper : requireObject body = .ok () → checkDocumentSize limits body = .ok () →
      ¬ Respelled coll) : ¬ IsReserved coll := by
  unfold checkDocument at h
  obtain ⟨-, -, h⟩ := bind_ok h
  cases hexact : isReservedCollection coll with
  | true =>
    rw [hexact] at h
    cases h
  | false =>
    rw [hexact] at h
    obtain ⟨u, hobject, hsize⟩ := bind_ok h
    exact fun hreserved => hproper hobject hsize ⟨hreserved, hexact⟩

theorem command_ensures {rq : DocumentRequest} (hrq : rq.proper limits)
    (hcmd : rq.command limits = .ok cmd) : ∀ coll ∈ cmd.ensures, ¬ IsReserved coll := by
  cases rq with
  | create coll body =>
    obtain ⟨u, hcheck, hpure⟩ := bind_ok hcmd
    cases hpure
    rintro name ⟨⟩
    exact checkDocument_not_reserved hcheck hrq
  | put coll id body =>
    obtain ⟨u, hcheck, hpure⟩ := bind_ok hcmd
    cases hpure
    rintro name ⟨⟩
    exact checkDocument_not_reserved hcheck hrq
  | delete coll id =>
    obtain ⟨u, -, hpure⟩ := bind_ok hcmd
    cases hpure
    exact nofun

theorem commands_ensures {batch : List (DocumentRequest × Env)}
    (hbatch : ∀ op ∈ batch, op.1.proper limits) :
    ∀ op ∈ commands limits batch, ∀ coll ∈ op.1.ensures, ¬ IsReserved coll := by
  intro op hop
  obtain ⟨⟨rq, env⟩, hrq, hmap⟩ := List.mem_filterMap.mp hop
  obtain ⟨cmd, hcmd, rfl⟩ := Option.map_eq_some_iff.mp hmap
  have hok : rq.command limits = .ok cmd := by
    cases hrun : rq.command limits with
    | error e =>
      rw [hrun] at hcmd
      cases hcmd
    | ok c =>
      rw [hrun] at hcmd
      cases hcmd
      rfl
  exact command_ensures (hbatch _ hrq) hok

theorem handle_named {ctx : Ctx} {batch : List (DocumentRequest × Env)} (faults : List Fault)
    (hbatch : ∀ op ∈ batch, op.1.proper limits) (h : NoReserved cat) :
    (handle limits ctx batch faults cat).conn.All (Named (¬ IsReserved ·)) := by
  have hopen : (Conn.open cat.tables faults).All (Named (¬ IsReserved ·)) :=
    all_open (P := Named (¬ IsReserved ·)) h faults
  exact (named_statements _).all_processBatch _ (commands_ensures hbatch) hopen

/-! ## Indexes -/

def IndexCall.ensures : IndexCall → Option String
  | .create r => some r.collection
  | .drop _ => none

theorem ensureTable_named (hname : Q name) (h : Named Q cat.tables)
    (hrun : ensureTable name cat = .ok (u, cat')) : Named Q cat'.tables := by
  unfold ensureTable at hrun
  split at hrun
  · cases hrun
    exact h
  · split at hrun
    · cases hrun
    · cases hrun
      exact h.ensureCollection hname

theorem createIndex_tables (hrun : createIndex sql r cat = .ok (u, cat')) :
    cat'.tables = cat.tables := by
  unfold createIndex at hrun
  split at hrun
  · cases hrun
  · split at hrun
    · cases hrun
    · split at hrun
      · cases hrun
      · split at hrun
        · cases hrun
        · cases hrun
          rfl

theorem insertIndexRow_tables (hrun : insertIndexRow r cat = .ok (u, cat')) :
    cat'.tables = cat.tables := by
  unfold insertIndexRow at hrun
  split at hrun
  · cases hrun
  · cases hrun
    rfl

theorem preserves_create (hname : Q r.collection) :
    Preserves (fun cat => Named Q cat.tables) (doCreateIndex sql r) := by
  refine Preserves.bind ((Preserves.write fun _ _ _ h => ensureTable_named hname h).mapErr _)
    fun _ => ?_
  refine Preserves.bind ((Preserves.write fun _ _ _ h hrun => ?_).mapErr _) fun _ => ?_
  · rw [createIndex_tables hrun]
    exact h
  · refine (Preserves.write fun _ _ _ h hrun => ?_).mapErr _
    rw [insertIndexRow_tables hrun]
    exact h

theorem preserves_drop (name : String) :
    Preserves (fun cat => Named Q cat.tables) (doDropIndex sql name) := by
  refine ((Preserves.read _).mapErr _).bind fun existed => ?_
  split
  · exact .pure _
  · refine Preserves.bind ((Preserves.write fun _ _ _ h hrun => ?_).mapErr _) fun _ => ?_
    · obtain ⟨-, rfl⟩ := dropSqlIndex_ok hrun
      exact h
    · refine Preserves.bind ((Preserves.write ?_).mapErr _) fun _ => .pure _
      rintro d u d' h hrun
      cases hrun
      exact h

theorem preserves_call {call : IndexCall} (hcall : ∀ coll ∈ IndexCall.ensures call, Q coll) :
    Preserves (fun cat => Named Q cat.tables) (call.run sql) := by
  cases call with
  | create r => exact (preserves_create (hcall r.collection rfl)).bind fun _ => .pure _
  | drop name => exact preserves_drop name

theorem call_ensures {rq : IndexRequest} {call : IndexCall} (hrq : rq.proper)
    (hcall : rq.call = .ok call) : ∀ coll ∈ IndexCall.ensures call, ¬ IsReserved coll := by
  cases rq with
  | create coll path unique ulid =>
    obtain ⟨u, -, hrest⟩ := bind_ok hcall
    cases hpath : validJsonPath path with
    | false =>
      rw [hpath] at hrest
      cases hrest
    | true =>
      rw [hpath] at hrest
      cases hrest
      rintro name ⟨⟩
      exact hrq hpath
  | drop coll name =>
    obtain ⟨u, -, hrest⟩ := bind_ok hcall
    obtain ⟨u', -, hpure⟩ := bind_ok hrest
    cases hpure
    exact nofun

theorem after_noReserved {a : IndexAct} (hcall : ∀ coll ∈ IndexCall.ensures a.of, ¬ IsReserved coll)
    (h : NoReserved cat) : NoReserved (a.after sql cat) := by
  have hopen : (Conn.open cat a.faults).All NoReserved := all_open h a.faults
  exact (preserves_call hcall _ hopen).committed

/-! ## Runs of requests -/

theorem step_noReserved {a : Act} (ha : a.proper limits) (h : NoReserved cat)
    (hstep : step limits sql cat a = some cat') : NoReserved cat' := by
  cases a with
  | documents ctx batch faults =>
    cases hstep
    exact (handle_named faults ha h).committed
  | documentsStop ctx batch faults k =>
    obtain ⟨tables, hk, rfl⟩ := Option.map_eq_some_iff.mp hstep
    exact (handle_named faults ha h).strays tables (List.mem_of_getElem? hk)
  | index rq faults =>
    simp only [step] at hstep
    split at hstep
    · cases hstep
      exact h
    · cases hstep
      exact after_noReserved (call_ensures ha ‹_›) h
  | indexStop rq ran =>
    simp only [step] at hstep
    split at hstep
    · cases hstep
      exact h
    · cases hstep
      exact after_noReserved (call_ensures ha ‹_›) h

/-- While no request names a reserved collection in a way that its handler lets through, there is
no table for one. -/
theorem reserved_never_created (limits : Limits) (sql : IndexSql) (cat : Catalog)
    (hrun : Reach (step limits sql) (fun _ a => a.proper limits) .empty cat) : NoReserved cat := by
  have hempty : NoReserved .empty := fun _ ht => absurd ht List.not_mem_nil
  exact hrun.inv NoReserved hempty fun _ _ _ h ha hstep => step_noReserved ha h hstep

theorem reserved_of_names {names : List String}
    (hnames : cat.tables.collections.map (·.name) = names)
    (h : ∃ name ∈ names, IsReserved name) : ¬ NoReserved cat := by
  obtain ⟨name, hmem, hreserved⟩ := h
  obtain ⟨t, ht, rfl⟩ := List.mem_map.mp (hnames ▸ hmem)
  exact fun hno => hno t ht hreserved

/-- No document below holds a float. -/
def plainLimits : Limits where
  printer := { float := fun _ => [], float_oneLine := fun _ => .nil }
  maxDocumentBytes := 64

def plainSql : IndexSql := { extract := fun _ _ => .null, keyword := fun _ => false }

def plainCtx : Ctx := { maxDatabaseBytes := 0, retention := 0 }

def plainEnv : Env := { newId := "id", now := 1, pageCount := 1, pageSize := 4096 }

def put (coll : String) : Act :=
  .documents plainCtx [(.put coll "a" (.object []), plainEnv)] []

def index (coll : String) : Act :=
  .index (.create coll "$.a" false "01ARZ3NDEKTSV4RRFFQ69G5FAV") []

/-- The reserved name is refused for a document, and other names are as they were. -/
theorem reserved_never_created_notes :
    ∃ cat, exec (step plainLimits plainSql) .empty
        [put "notes", put "changelog", index "Users"] = some cat ∧
      cat.tables.collections.map (·.name) = ["notes", "Users"] ∧ NoReserved cat := by
  obtain ⟨cat, hexec, hnames⟩ : ∃ cat, exec (step plainLimits plainSql) .empty
      [put "notes", put "changelog", index "Users"] = some cat ∧
      cat.tables.collections.map (·.name) = ["notes", "Users"] := ⟨_, rfl, rfl⟩
  have hnotes : (put "notes").proper plainLimits :=
    List.forall_mem_singleton.mpr fun _ _ => by decide
  have hchangelog : (put "changelog").proper plainLimits :=
    List.forall_mem_singleton.mpr fun _ _ => by decide
  have husers : (index "Users").proper plainLimits := fun _ => by decide
  have hallowed : Allowed (step plainLimits plainSql) (fun _ a => a.proper plainLimits) .empty
      [put "notes", put "changelog", index "Users"] :=
    ⟨hnotes, fun _ _ => ⟨hchangelog, fun _ _ => ⟨husers, fun _ _ => trivial⟩⟩⟩
  exact ⟨cat, hexec, hnames, reserved_never_created _ _ _ (.of_exec _ hallowed hexec)⟩

/-- An index takes a reserved name, and a document takes it in other letters. -/
theorem reserved_table_created :
    (∃ cat, step plainLimits plainSql .empty (index "changelog") = some cat ∧ ¬ NoReserved cat) ∧
      ∃ cat, step plainLimits plainSql .empty (put "Changelog") = some cat ∧
        ¬ NoReserved cat := by
  have hindex : ∃ cat, step plainLimits plainSql .empty (index "changelog") = some cat ∧
      cat.tables.collections.map (·.name) = ["changelog"] := ⟨_, rfl, rfl⟩
  have hput : ∃ cat, step plainLimits plainSql .empty (put "Changelog") = some cat ∧
      cat.tables.collections.map (·.name) = ["Changelog"] := ⟨_, rfl, rfl⟩
  obtain ⟨cat, hstep, hnames⟩ := hindex
  obtain ⟨cat', hstep', hnames'⟩ := hput
  exact ⟨⟨cat, hstep, reserved_of_names hnames (by decide)⟩,
    cat', hstep', reserved_of_names hnames' (by decide)⟩

end TinyLord.Reserved
