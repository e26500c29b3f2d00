import TinyLord.System.Browser

/-!
# Principals of the control plane

The statements that create, disable and look up principals, and the requests that run them
beside the requests on browser sessions. All are threads over one `_system.db`.
-/

open Lib Lib.Threads

namespace TinyLord

namespace SystemDb

/-! ## Statements -/

/-- Fails on a taken id, and on the unique indexes of token hashes and usernames. -/
def insertPrincipal (db : SystemDb) (row : PrincipalRow) : Option SystemDb :=
  let clash (p : PrincipalRow) :=
    p.tokenHash == row.tokenHash || (p.username.isSome && p.username == row.username)
  if db.principals.any clash then none
  else (db.principals.insert row).map fun t => { db with principals := t }

def lookupByToken (db : SystemDb) (hashToken : String → String) (token : String) :
    Option Principal := do
  let p ← db.principals.find? fun p => p.tokenHash == hashToken token
  if p.disabled then none else some { id := p.id, name := p.name, isAdmin := p.isAdmin }

/-- Whether a row was hit, as `disable_principal` returns it. -/
def disablePrincipal (db : SystemDb) (id : String) : SystemDb × Bool :=
  let set (p : PrincipalRow) := { p with disabled := true }
  ({ db with principals := db.principals.update (fun p => p.id == id) set fun _ => rfl },
    db.principals.any fun p => p.id == id)

def firstAdmin (db : SystemDb) : Option String :=
  let admins := db.principals.rows.filter (·.isAdmin)
  (admins.mergeSort fun p q => p.createdAt ≤ q.createdAt).head?.map (·.id)

/-- Fails when another principal has the token hash. -/
def setAdminToken (db : SystemDb) (id tokenHash : String) : Option SystemDb :=
  let set (p : PrincipalRow) := { p with tokenHash, disabled := false }
  if db.principals.any fun p => p.id != id && p.tokenHash == tokenHash then none
  else some { db with principals := db.principals.update (fun p => p.id == id) set fun _ => rfl }

end SystemDb

namespace Control

open Browser (AuthConfig Auth)

/-! ## Requests -/

inductive Request where
  | browser (rq : Browser.Request)
  | register (username password : String)
  | createPrincipal (name : String) (isAdmin : Bool) (password : Option String)
  | disable (id : String)
  | resetAdminToken

inductive Reply where
  | principal (id token : String)
  | user (id name : String)
  | noContent
  | adminToken (token : String)
  | error (e : ApiError)

/-- What the clock, the random generators and the registration policy give to a statement. -/
structure Draw extends Browser.Draw where
  id : String
  token : String
  salt : String
  registrationEnabled : Bool

def validUsername (username : String) : Bool :=
  3 ≤ username.utf8ByteSize && username.utf8ByteSize ≤ 64 &&
    username.toList.all fun c => c.isAlphanum || c == '_' || c == '-'

def hashPassword (argon2 : String → String → Option String) (salt password : String) :
    Except ApiError String :=
  if password.utf8ByteSize < 12 || password.utf8ByteSize > 1024 then
    .error (.validation "password must be 12 to 1024 characters")
  else
    match argon2 salt password with
    | some hash => .ok hash
    | none => .error .internal

/-- What `create_and_login` and `create_principal` both do: the checks and `create_browser_user`. -/
def createBrowserUser (hashToken : String → String) (argon2 : String → String → Option String)
    (db : SystemDb) (draw : Draw) (username password : String) : Except ApiError SystemDb :=
  if !validUsername username then
    .error (.validation "username must be 3 to 64 letters, numbers, '_' or '-'")
  else
    match hashPassword argon2 draw.salt password with
    | .error e => .error e
    | .ok hash =>
      match db.insertPrincipal
        { id := draw.id
          name := username
          isAdmin := false
          tokenHash := hashToken draw.token
          disabled := false
          createdAt := draw.now
          username := some username
          passwordHash := some hash } with
      | none => .error (.conflict "username already exists")
      | some db => .ok db

def createPrincipal (hashToken : String → String) (db : SystemDb) (draw : Draw) (name : String)
    (isAdmin : Bool) : Option SystemDb :=
  db.insertPrincipal
    { id := draw.id
      name
      isAdmin
      tokenHash := hashToken draw.token
      disabled := false
      createdAt := draw.now
      username := none
      passwordHash := none }

/-! ## Threads -/

inductive Pc where
  | start
  | createUser (username password : String)
  | setAdminToken (id : String)
  | createAdmin

/-- A registration that has created its user goes on as a login does. -/
inductive Thread where
  | idle
  | browser (t : Browser.Thread)
  | running (rq : Request) (pc : Pc)
  | done (rq : Request) (reply : Reply)

inductive Act where
  | arrive (rq : Request)
  | run (draw : Draw)
  | fail
  | noConnection

def start (hashToken : String → String) (argon2 : String → String → Option String) (c : Auth)
    (draw : Draw) (rq : Request) : Auth × Thread :=
  match rq with
  | .browser rq => (c, .browser (.running rq .start))
  | .register username password =>
    if draw.registrationEnabled then (c, .running rq (.createUser username password))
    else (c, .done rq (.error (.forbidden "public registration is disabled")))
  | .createPrincipal name isAdmin (some password) =>
    if isAdmin then
      (c, .done rq (.error (.validation "browser users cannot be global admins")))
    else
      match createBrowserUser hashToken argon2 c.db draw name password with
      | .error e => (c, .done rq (.error e))
      | .ok db => ({ c with db }, .done rq (.user draw.id name))
  | .createPrincipal name isAdmin none =>
    match createPrincipal hashToken c.db draw name isAdmin with
    | none => (c, .done rq (.error .internal))
    | some db => ({ c with db }, .done rq (.principal draw.id draw.token))
  | .disable id =>
    match c.db.disablePrincipal id with
    | (db, true) => ({ c with db }, .done rq .noContent)
    | (db, false) => ({ c with db }, .done rq (.error (.notFound "principal not found")))
  | .resetAdminToken =>
    match c.db.firstAdmin with
    | some id => (c, .running rq (.setAdminToken id))
    | none => (c, .running rq .createAdmin)

def statement (hashToken : String → String) (argon2 : String → String → Option String) (c : Auth)
    (self : Nat) (rq : Request) (draw : Draw) : Pc → Auth × Thread
  | .start => start hashToken argon2 c draw rq
  | .createUser username password =>
    match createBrowserUser hashToken argon2 c.db draw username password with
    | .error e => (c, .done rq (.error e))
    | .ok db =>
      ({ c with db }, .browser (.running (.login username password)
        (.purgeAccess ⟨draw.id, .login self, c.ledger.resets draw.id⟩)))
  | .setAdminToken id =>
    match c.db.setAdminToken id (hashToken draw.token) with
    | none => (c, .done rq (.error .internal))
    | some db => ({ c with db }, .done rq (.adminToken draw.token))
  | .createAdmin =>
    match createPrincipal hashToken c.db draw "admin" true with
    | none => (c, .done rq (.error .internal))
    | some db => ({ c with db }, .done rq (.adminToken draw.token))

/-- `.ok()` makes no admin of a failed SELECT, and one is created. -/
def failure : Request → Pc → Thread
  | rq@.resetAdminToken, .start => .running rq .createAdmin
  | rq, _ => .done rq (.error .internal)

def liftBrowser (r : Auth × Browser.Thread) : Auth × Thread := (r.1, .browser r.2)

def next (cfg : AuthConfig) (hashToken : String → String)
    (verifyPassword : String → String → Bool) (argon2 : String → String → Option String)
    (c : Auth) (self : Nat) : Thread → Act → Option (Auth × Thread)
  | .idle, .arrive (.browser rq) => some (c, .browser (.running rq .start))
  | .idle, .arrive rq => some (c, .running rq .start)
  | .browser t, .run draw =>
    (Browser.next cfg hashToken verifyPassword c self t (.run draw.toDraw)).map liftBrowser
  | .browser t, .fail =>
    (Browser.next cfg hashToken verifyPassword c self t .fail).map liftBrowser
  | .browser t, .noConnection =>
    (Browser.next cfg hashToken verifyPassword c self t .noConnection).map liftBrowser
  | .running rq pc, .run draw => some (statement hashToken argon2 c self rq draw pc)
  | .running rq pc, .fail => some (c, failure rq pc)
  | .running rq _, .noConnection => some (c, .done rq (.error .internal))
  | _, _ => none

abbrev System := Pool Auth Thread

def emptyDb : SystemDb where
  databases := .empty
  principals := .empty
  grants := .empty
  browserAccessTokens := .empty
  browserSessions := .empty

/-- The control plane right after `init_schema` has created its tables. -/
def System.boot : System where
  shared := (Browser.System.boot emptyDb).shared
  threads := fun _ => .idle

end Control

end TinyLord
