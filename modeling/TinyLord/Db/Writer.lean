import TinyLord.Db.Schema

/-!
# The writer: one batch of data ops

`process_batch` runs its ops in one transaction, each in a savepoint. An op's answer waits
until the transaction has resolved.
-/

open Lib.Transaction

namespace TinyLord

structure DocRecord where
  id : String
  createdAt : Int
  updatedAt : Int
  doc : Json

inductive Command where
  | create (collection : String) (doc : Json)
  | replace (collection id : String) (doc : Json)
  | delete (collection id : String)

/-- What an op reads from outside the tables. -/
structure Env where
  newId : String
  now : Int
  pageCount : Int
  pageSize : Int

structure Ctx where
  maxDatabaseBytes : Nat
  /-- `realtime.changelog_retention` -/
  retention : Int

inductive Reply where
  | created (r : Except ApiError DocRecord)
  | replaced (r : Except ApiError (DocRecord × Bool))
  | deleted (r : Except ApiError Bool)

/-- `reply_with_error`. -/
def Command.error : Command → ApiError → Reply
  | .create .., e => .created (.error e)
  | .replace .., e => .replaced (.error e)
  | .delete .., e => .deleted (.error e)

/-! ## The ops -/

def u64Max : Nat := 2 ^ 64 - 1

def checkDbSize (ctx : Ctx) (env : Env) : Sql Database ApiError Unit :=
  if ctx.maxDatabaseBytes = 0 then pure ()
  else do
    let pageCount ← (Sql.read fun _ => .ok env.pageCount).mapErr mapSqliteErr
    let pageSize ← (Sql.read fun _ => .ok env.pageSize).mapErr mapSqliteErr
    let size := min (pageCount.toNat * pageSize.toNat) u64Max
    if ctx.maxDatabaseBytes ≤ size then Sql.throw (.payloadTooLarge "database size limit reached")
    else pure ()

def insertChange (c : Change) : Sql Database ApiError Int :=
  (Sql.write (logChange c)).mapErr mapSqliteErr

def prepare (ctx : Ctx) (env : Env) (collection : String) : Sql Database ApiError Unit := do
  checkDbSize ctx env
  (Sql.write fun db => .ok ((), ensureCollection db collection)).mapErr mapSqliteErr

def doCreate (ctx : Ctx) (env : Env) (collection : String) (doc : Json) :
    Sql Database ApiError (DocRecord × ChangeEvent) := do
  prepare ctx env collection
  let id := env.newId
  let now := env.now
  (Sql.write (insertDoc collection { id, doc, createdAt := now, updatedAt := now })).mapErr
    mapSqliteErr
  let change : Change := { collection, op := .insert, docId := id, doc := some doc, ts := now }
  let seq ← insertChange change
  pure ({ id, createdAt := now, updatedAt := now, doc }, change.event seq)

/-- The end of a replace, with the triple `(created, created_at, op)`. -/
def logReplace (env : Env) (collection id : String) (doc : Json) (created : Bool) (createdAt : Int)
    (op : Op) : Sql Database ApiError (DocRecord × Bool × ChangeEvent) := do
  let change : Change := { collection, op, docId := id, doc := some doc, ts := env.now }
  let seq ← insertChange change
  pure ({ id, createdAt, updatedAt := env.now, doc }, created, change.event seq)

def upsert (env : Env) (collection id : String) (doc : Json) (existing : Option Int) :
    Sql Database ApiError (DocRecord × Bool × ChangeEvent) :=
  match existing with
  | some createdAt => do
    (Sql.write (updateDoc collection id doc env.now)).mapErr mapSqliteErr
    logReplace env collection id doc false createdAt .update
  | none => do
    let row : DocRow := { id, doc, createdAt := env.now, updatedAt := env.now }
    (Sql.write (insertDoc collection row)).mapErr mapSqliteErr
    logReplace env collection id doc true env.now .insert

def doReplace (ctx : Ctx) (env : Env) (collection id : String) (doc : Json) :
    Sql Database ApiError (DocRecord × Bool × ChangeEvent) := do
  prepare ctx env collection
  -- Any error of the lookup counts as "not there".
  let existing ← (Sql.read (selectCreatedAt collection id)).toOption
  upsert env collection id doc existing

def doDelete (env : Env) (collection id : String) : Sql Database ApiError (Option ChangeEvent) := do
  let there ← (Sql.read fun db => .ok (collectionExists db collection)).mapErr mapSqliteErr
  if !there then pure none
  else do
    let changed ← (Sql.write (deleteDoc collection id)).mapErr mapSqliteErr
    if changed = 0 then pure none
    else do
      let change : Change :=
        { collection, op := .delete, docId := id, doc := none, ts := env.now }
      let seq ← insertChange change
      pure (some (change.event seq))

/-! ## The batch -/

/-- The op's reply and the event to broadcast, once it is known whether the batch committed. -/
abbrev Finish := Bool → Reply × Option ChangeEvent

inductive OpResult where
  | success (finish : Finish)
  | failed (finish : Finish)

def onCommit (cmd : Command) (reply : Reply) (ev : ChangeEvent) : Finish := fun committed =>
  if committed then (reply, some ev) else (cmd.error .internal, none)

/-- The finisher of a delete that found nothing. It does not look at the commit. -/
def onMissed : Finish := fun _ => (.deleted (.ok false), none)

def onError (cmd : Command) (e : ApiError) : Finish := fun _ => (cmd.error e, none)

/-- The op of a command: its reply when it commits, and its event. Nothing for a delete that
found nothing. -/
def perform (ctx : Ctx) (cmd : Command) (env : Env) :
    Sql Database ApiError (Option (Reply × ChangeEvent)) :=
  match cmd with
  | .create collection doc => do
    let r ← doCreate ctx env collection doc
    pure (some (.created (.ok r.1), r.2))
  | .replace collection id doc => do
    let r ← doReplace ctx env collection id doc
    pure (some (.replaced (.ok (r.1, r.2.1)), r.2.2))
  | .delete collection id => do
    let ev ← doDelete env collection id
    pure (ev.map fun ev => (.deleted (.ok true), ev))

/-- The arms of the three commands differ only in what `perform` gives. -/
def applyOp (ctx : Ctx) (cmd : Command) (env : Env) (conn : Conn Database) :
    OpResult × Conn Database :=
  match perform ctx cmd env conn with
  | (.ok (some (reply, ev)), conn) => (.success (onCommit cmd reply ev), conn)
  | (.ok none, conn) => (.success onMissed, conn)
  | (.error e, conn) => (.failed (onError cmd e), conn)

/-- The end of an op: `RELEASE sp`, after `ROLLBACK TO sp` for one that failed. -/
def closeOp : OpResult × Conn Database → Finish × Conn Database
  | (.success finish, conn) => (finish, conn.release.2)
  | (.failed finish, conn) =>
    match conn.rollbackTo with
    | (true, conn) => (finish, conn.release.2)
    | (false, conn) => (finish, conn)

/-- One turn of the loop. A failed savepoint is answered at once, with the same reply. -/
def runOp (ctx : Ctx) (cmd : Command) (env : Env) (conn : Conn Database) : Finish × Conn Database :=
  match conn.savepoint with
  | (false, conn) => (onError cmd .internal, conn)
  | (true, conn) => closeOp (applyOp ctx cmd env conn)

def runOps (ctx : Ctx) : List (Command × Env) → Conn Database → List Finish × Conn Database
  | [], conn => ([], conn)
  | (cmd, env) :: rest, conn =>
    let (finish, conn) := runOp ctx cmd env conn
    let (finishes, conn) := runOps ctx rest conn
    (finish :: finishes, conn)

structure Outcome where
  replies : List Reply
  events : List ChangeEvent
  committed : Bool
  conn : Conn Database

/-- `process_batch` up to the broadcast. -/
def runBatch (ctx : Ctx) (batch : List (Command × Env)) (conn : Conn Database) : Outcome :=
  match conn.begin with
  | (false, conn) =>
    { replies := batch.map fun (cmd, _) => cmd.error .internal
      events := []
      committed := false
      conn }
  | (true, conn) =>
    let (finishes, conn) := runOps ctx batch conn
    match conn.commit with
    | (true, conn) =>
      { replies := finishes.map fun finish => (finish true).1
        events := finishes.filterMap fun finish => (finish true).2
        committed := true
        conn }
    | (false, conn) =>
      { replies := finishes.map fun finish => (finish false).1
        events := finishes.filterMap fun finish => (finish false).2
        committed := false
        conn := conn.rollback.2 }

/-- `trim_changelog`. A failure is only logged. -/
def trim (ctx : Ctx) (conn : Conn Database) : Conn Database :=
  if ctx.retention ≤ 0 then conn
  else (Sql.write (fun db : Database =>
    .ok ((), { db with changelog := trimChangelog ctx.retention db.changelog })) conn).2

def processBatch (ctx : Ctx) (batch : List (Command × Env)) (conn : Conn Database) : Outcome :=
  let outcome := runBatch ctx batch conn
  if outcome.committed && !outcome.events.isEmpty then
    { outcome with conn := trim ctx outcome.conn }
  else outcome

end TinyLord
