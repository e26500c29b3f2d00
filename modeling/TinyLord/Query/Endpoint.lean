import Mathlib.Data.String.Basic
import TinyLord.Api.Collections
import TinyLord.Lib.SortedMap
import TinyLord.Lib.Sql.Select
import TinyLord.Query.Filter

/-!
# The query and count endpoints

A page of documents, by an offset or, for the order by `id`, by the last `id` of the page before.
-/

open Lib Lib.Sql

namespace TinyLord.QueryEp

/-! ## The sort list -/

def toAsciiLowercase (s : String) : String := String.ofList (s.toList.map Char.toLower)

def isMetaColumn (field : String) : Bool :=
  field == "id" || field == "created_at" || field == "updated_at"

def directionSql (dir : String) : Except ApiError String :=
  if toAsciiLowercase dir = "asc" then .ok "ASC"
  else if toAsciiLowercase dir = "desc" then .ok "DESC"
  else .error (.validation "sort direction must be 'asc' or 'desc'")

def sortExpr (path : String) : Except ApiError String :=
  if isMetaColumn path then .ok path
  else
    match fieldToJsonPath path with
    | .error e => .error e
    | .ok jsonPath => .ok ("json_extract(doc, '" ++ jsonPath ++ "')")

/-- The loop over the sort list. -/
def compileTerms : List (String × String) → List String → Except ApiError (List String)
  | [], terms => .ok terms
  | (path, dir) :: sort, terms =>
    match directionSql dir with
    | .error e => .error e
    | .ok dirSql =>
      match sortExpr path with
      | .error e => .error e
      | .ok expr => compileTerms sort (terms ++ [expr ++ " " ++ dirSql])

def compileSort (sort : List (String × String)) : Except ApiError String :=
  if sort.isEmpty then .ok "ORDER BY id ASC"
  else
    match compileTerms sort [] with
    | .error e => .error e
    | .ok terms => .ok ("ORDER BY " ++ String.intercalate ", " terms)

def isCursorCompatible : List (String × String) → Bool
  | [] => true
  | [(path, dir)] => path == "id" && toAsciiLowercase dir == toAsciiLowercase "asc"
  | _ => false

/-! ## Projection -/

def lookup (doc : Json) (segs : List String) : Option Json :=
  segs.foldlM (fun cur s => cur.get s) doc

/-- An object's `Map` is in key order. -/
def insertNested (value : Json) : List String → List (String × Json) → List (String × Json)
  | [], out => out
  | [seg], out => SortedMap.insert seg value out
  | seg :: segs, out =>
    match (Json.object out).get seg with
    | none => SortedMap.insert seg (.object (insertNested value segs [])) out
    | some (.object map) => SortedMap.insert seg (.object (insertNested value segs map)) out
    | some _ => out

def applyProjection (doc : Json) (paths : List String) : Json :=
  .object (paths.foldl (fun out path =>
    if (segments path).any String.isEmpty then out
    else
      match lookup doc (segments path) with
      | none => out
      | some v => insertNested v (segments path) out) [])

/-! ## The requests -/

structure QueryRequest where
  filter : Option Json
  sort : List (String × String)
  limit : Option UInt32
  offset : Option UInt32
  cursor : Option String
  projection : Option (List String)

structure CountRequest where
  filter : Option Json

structure DocEnvelope where
  id : String
  createdAt : Int
  updatedAt : Int
  doc : Json

structure QueryPage where
  items : List DocEnvelope
  nextCursor : Option String

/-- What SQLite makes of a text as a condition, and of a stored document. -/
structure Sqlite where
  textTruth : String → Bool
  stored : Json → Value
  extract : Json → String → Value
  /-- How the text of a float in a stored document reads back. -/
  readFloat : BitVec 64 → BitVec 64

/-- What a condition reads. -/
def Sqlite.condRow (sq : Sqlite) (r : DocRow) : Row Value :=
  docRow (fun _ path => sq.extract r.doc path) r.id (sq.stored r.doc)

/-- What a sort term reads. -/
def Sqlite.sortRow (sq : Sqlite) (r : DocRow) : Row Value where
  column name :=
    if name = "created_at" then .integer r.createdAt
    else if name = "updated_at" then .integer r.updatedAt
    else (sq.condRow r).column name
  call := (sq.condRow r).call

def Sqlite.engine (sq : Sqlite) : Engine Value := sqlite sq.textTruth

def Sqlite.envelope (sq : Sqlite) (projection : Option (List String)) (r : DocRow) :
    DocEnvelope where
  id := r.id
  createdAt := r.createdAt
  updatedAt := r.updatedAt
  doc :=
    let doc := r.doc.reread sq.readFloat
    projection.elim doc (applyProjection doc)

/-- `max` is the configured `max_query_limit`. -/
def pageLimit (max : UInt32) (limit : Option UInt32) : UInt32 := Max.max (min (limit.getD 50) max) 1

/-- The rows of the statement, and an error when SQLite cannot prepare it. -/
def selectRows (sq : Sqlite) (sorter : Sorter DocRow) (rows : List DocRow) (sql : String)
    (params : List Value) (order : String) (limit offset : Nat) : Except ApiError (List DocRow) :=
  match condition sql params, orderBy order with
  | some e, some terms =>
    .ok (arrange sq.engine sorter sq.sortRow terms limit offset
      (rows.filter fun r => e.Holds sq.engine (sq.condRow r)))
  | _, _ => .error (mapSqliteErr .failure)

/-- What comes after the authorization. `sorter` is how SQLite arranges the rows this time. -/
def query (sq : Sqlite) (sorter : Sorter DocRow) (max : UInt32) (db : Database) (coll : String)
    (req : QueryRequest) : Except ApiError QueryPage := do
  requireValidName "collection" coll
  let w ← compileFilter req.filter
  let order ← compileSort req.sort
  let limit := pageLimit max req.limit
  let offset := req.offset.getD 0
  let compatible := isCursorCompatible req.sort
  if !collectionExists db coll then return { items := [], nextCursor := none }
  let rows ←
    match compatible, req.cursor with
    | true, some cursor =>
      selectRows sq sorter (db.rows coll) (w.sql ++ " AND id > ?") (w.params ++ [.text cursor])
        order limit.toNat 0
    | _, _ => selectRows sq sorter (db.rows coll) w.sql w.params order limit.toNat offset.toNat
  let items := rows.map (sq.envelope req.projection)
  return {
    items
    nextCursor :=
      if compatible && items.length.toUInt32 == limit then items.getLast?.map (·.id) else none }

/-- What comes after the authorization. -/
def count (sq : Sqlite) (db : Database) (coll : String) (req : CountRequest) :
    Except ApiError Nat := do
  requireValidName "collection" coll
  let w ← compileFilter req.filter
  if !collectionExists db coll then return 0
  match condition w.sql w.params with
  | some e => return (db.rows coll).countP fun r => e.Holds sq.engine (sq.condRow r)
  | none => throw (mapSqliteErr .failure)

end TinyLord.QueryEp
