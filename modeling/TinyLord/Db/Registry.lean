import TinyLord.Errors
import TinyLord.Lib.Inodes
import TinyLord.Lib.Threads

/-!
# Handles and files of a database

The record of a database, its cached handle and its files are three states, and the requests
change them in separate steps. This is about one name: data requests, creations and deletions
as threads over the three. The name is valid, so no request fails at that check. The connections
of a handle outlive it, and close when nobody keeps it.
-/

open Lib.Inodes Lib.Threads

namespace TinyLord.Registry

/-! ## Requests -/

inductive Request where
  | write (body : String)
  | read
  | create
  | delete
  deriving DecidableEq

/-- A document that was committed. `deletions` is for the statements only: how many deletions had
returned by then. -/
structure Doc where
  body : String
  deletions : Nat
  deriving DecidableEq

/-- The last two numbers of `created`, and that of `deleted`, are for the statements only: how
often a handle was dropped before the record was inserted, how many writes were acknowledged
before the reply, and which deletion in the order of their replies it is. -/
inductive Reply where
  | written
  | docs (docs : List Doc)
  | created (removals acked : Nat)
  | deleted (number : Nat)
  | error (e : ApiError)
  deriving DecidableEq

def missing : Reply := .error (.notFound "database not found")
def existing : Reply := .error (.conflict "database already exists")

/-! ## Handles and files -/

inductive Suffix where
  | main
  | wal
  | shm
  deriving DecidableEq

/-- The inodes that a `DbHandle` has open. `removals` is for the statements only: how often a
handle had been dropped when this one was opened. -/
structure Handle where
  main : Nat
  wal : Nat
  removals : Nat
  deriving DecidableEq

/-- Kept for the statements. Nothing in the code reads it. -/
structure Ledger where
  /-- How often a deletion has dropped the cached handle, or found none. -/
  removals : Nat
  /-- The deletions that have done so and have not returned. -/
  deleting : List Nat
  /-- How many deletions have returned without an error. -/
  deletions : Nat
  /-- The writes that were acknowledged, in order. -/
  acked : List Doc
  /-- The greatest `removals` of a creation that has returned. -/
  created : Nat

structure Host where
  registered : Bool
  /-- The cached handle. -/
  handle : Option Handle
  /-- The handles that are not in the map and whose connections are not closed. -/
  dropped : List Handle
  /-- The handles that requests keep, once for each. -/
  held : List Handle
  disk : Disk Suffix Doc
  ledger : Ledger

/-- What is in the file of the database, its WAL included. A WAL without the file is nothing. -/
def Host.docs (c : Host) : List Doc :=
  if (c.disk.path .main).isSome then c.disk.read .main ++ c.disk.read .wal else []

def Handle.docs (h : Handle) (disk : Disk Suffix Doc) : List Doc :=
  disk.content .main h.main ++ disk.content .wal h.wal

/-- A WAL beside a file that is to be created is from another file. -/
def dropStaleWal (disk : Disk Suffix Doc) : Disk Suffix Doc :=
  if (disk.path .main).isNone then disk.unlink .wal else disk

/-- `open_handle`. SQLite opens the files at their paths, and creates those that are not there. It
deletes a stale WAL. -/
def openHandle (disk : Disk Suffix Doc) (removals : Nat) : Disk Suffix Doc × Handle :=
  let (disk, main) := (dropStaleWal disk).create .main
  let (disk, wal) := disk.create .wal
  let (disk, _) := disk.create .shm
  (disk, { main, wal, removals })

/-- `get_or_open`, under the lock of the map. -/
def getOrOpen (c : Host) : Host × Handle :=
  match c.handle with
  | some h => (c, h)
  | none =>
    let (disk, h) := openHandle c.disk c.ledger.removals
    ({ c with disk, handle := some h }, h)

/-- A request gives its handle back. -/
def Host.release (c : Host) (h : Handle) : Host := { c with held := c.held.erase h }

/-! ## Threads -/

inductive Pc where
  | start
  /-- `get_or_open` of a data request. -/
  | openDb
  | use (h : Handle)
  /-- The write is committed, and its reply is sent next. -/
  | ack (h : Handle) (doc : Doc)
  /-- `get_or_open` of a creation. -/
  | initDatabase (removals : Nat)
  | reply (removals : Nat)
  | removeHandle
  | unlink (suffix : Suffix)
  | deleteRecord
  | deleteGrants

inductive Thread where
  | idle
  | running (rq : Request) (pc : Pc)
  | done (rq : Request) (reply : Reply)
  /-- A connection that closes: the last one to its file, it has put the WAL into the file and
  removes what is at this path next. -/
  | closing (suffix : Suffix)
  | closed

inductive Act where
  | arrive (rq : Request)
  | run
  | fail
  /-- `open_handle` fails after it has created the files. -/
  | openFailed
  /-- The connections of a dropped handle close, and remove the WAL or do not. -/
  | close (h : Handle) (cleans : Bool)

namespace Ledger

def remove (l : Ledger) (i : Nat) : Ledger :=
  { l with removals := l.removals + 1, deleting := i :: l.deleting }

def leave (l : Ledger) (i : Nat) : Ledger := { l with deleting := l.deleting.filter (· != i) }

def countDeletion (l : Ledger) : Ledger := { l with deletions := l.deletions + 1 }

def addAck (l : Ledger) (doc : Doc) : Ledger := { l with acked := l.acked ++ [doc] }

def addCreation (l : Ledger) (removals : Nat) : Ledger := { l with created := max l.created removals }

end Ledger

def start (c : Host) (rq : Request) : Host × Thread :=
  match rq with
  | .write _ | .read => if c.registered then (c, .running rq .openDb) else (c, .done rq missing)
  | .create =>
    if c.registered then (c, .done rq existing)
    else ({ c with registered := true }, .running rq (.initDatabase c.ledger.removals))
  | .delete => if c.registered then (c, .running rq .removeHandle) else (c, .done rq missing)

def afterUnlink : Suffix → Pc
  | .main => .unlink .wal
  | .wal => .unlink .shm
  | .shm => .deleteRecord

def use (c : Host) (h : Handle) : Request → Host × Thread
  | .write body =>
    let doc : Doc := { body, deletions := c.ledger.deletions }
    ({ c with disk := c.disk.append .wal h.wal doc }, .running (.write body) (.ack h doc))
  | rq => (c.release h, .done rq (.docs (h.docs c.disk)))

def statement (c : Host) (self : Nat) (rq : Request) : Pc → Host × Thread
  | .start => start c rq
  | .openDb =>
    let (c, h) := getOrOpen c
    ({ c with held := h :: c.held }, .running rq (.use h))
  | .use h => use c h rq
  | .ack h doc => ({ c.release h with ledger := c.ledger.addAck doc }, .done rq .written)
  | .initDatabase removals => ((getOrOpen c).1, .running rq (.reply removals))
  | .reply removals =>
    ({ c with ledger := c.ledger.addCreation removals },
      .done rq (.created removals c.ledger.acked.length))
  | .removeHandle =>
    ({ c with
        handle := none
        dropped := c.handle.toList ++ c.dropped
        ledger := c.ledger.remove self },
      .running rq (.unlink .main))
  | .unlink suffix => ({ c with disk := c.disk.unlink suffix }, .running rq (afterUnlink suffix))
  | .deleteRecord => ({ c with registered := false }, .running rq .deleteGrants)
  | .deleteGrants =>
    ({ c with ledger := (c.ledger.leave self).countDeletion },
      .done rq (.deleted (c.ledger.deletions + 1)))

/-- A file that cannot be removed is logged. A lookup in the map does not fail. -/
def failure (c : Host) (self : Nat) (rq : Request) : Pc → Option (Host × Thread)
  | .unlink suffix => some (c, .running rq (afterUnlink suffix))
  | .deleteRecord | .deleteGrants =>
    some ({ c with ledger := c.ledger.leave self }, .done rq (.error .internal))
  | .openDb | .initDatabase _ =>
    if c.handle.isNone then some (c, .done rq (.error .internal)) else none
  | .start => some (c, .done rq (.error .internal))
  | .use h | .ack h _ => some (c.release h, .done rq (.error .internal))
  | .reply _ | .removeHandle => none

/-- The writer has opened its connection, and no handle is made of it. -/
def openFailure (c : Host) (rq : Request) : Pc → Option (Host × Thread)
  | .openDb | .initDatabase _ =>
    if c.handle.isNone then
      let (disk, h) := openHandle c.disk c.ledger.removals
      some ({ c with disk, dropped := h :: c.dropped }, .done rq (.error .internal))
    else none
  | _ => none

/-- The connections of a handle close when nobody keeps it. If no other connection has the file
open, the last one puts the WAL into the file and then removes what is at the other two paths, or
it leaves all as it is, as when it sees that the file is not at its path. -/
def closeHandle (c : Host) (h : Handle) (cleans : Bool) : Option (Host × Thread) :=
  if h ∈ c.dropped ∧ h ∉ c.held then
    let c := { c with dropped := c.dropped.erase h }
    if cleans then
      if (c.handle.toList ++ c.dropped).all (·.main != h.main) then
        some ({ c with disk := c.disk.pour .wal h.wal .main h.main }, .closing .shm)
      else none
    else some (c, .closed)
  else none

def afterClosing : Suffix → Thread
  | .shm => .closing .wal
  | _ => .closed

def next (c : Host) (self : Nat) : Thread → Act → Option (Host × Thread)
  | .idle, .arrive rq => some (c, .running rq .start)
  | .running rq pc, .run => some (statement c self rq pc)
  | .running rq pc, .fail => failure c self rq pc
  | .running rq pc, .openFailed => openFailure c rq pc
  | .idle, .close h cleans => closeHandle c h cleans
  | .closing suffix, .run => some ({ c with disk := c.disk.unlink suffix }, afterClosing suffix)
  | .closing suffix, .fail => some (c, afterClosing suffix)
  | _, _ => none

abbrev System := Pool Host Thread

def System.boot (registered : Bool) (disk : Disk Suffix Doc) : System where
  shared :=
    { registered
      handle := none
      dropped := []
      held := []
      disk
      ledger := { removals := 0, deleting := [], deletions := 0, acked := [], created := 0 } }
  threads := fun _ => .idle

end TinyLord.Registry
