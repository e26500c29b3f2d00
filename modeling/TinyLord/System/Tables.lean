import TinyLord.Errors
import TinyLord.Lib.Table

/-!
# The control plane database

The tables of `_system.db` that the requests read, and the statements they run. No request
opens a transaction here, so each statement is atomic on its own and nothing larger is.
-/

open Lib

namespace TinyLord

/-! ## Roles -/

inductive Role where
  | read
  | write
  | admin
  deriving DecidableEq, Repr

def Role.asStr : Role → String
  | .read => "read"
  | .write => "write"
  | .admin => "admin"

def Role.parse : String → Option Role
  | "read" => some .read
  | "write" => some .write
  | "admin" => some .admin
  | _ => none

/-- The derived order follows the declaration. -/
def Role.rank : Role → Nat
  | .read => 0
  | .write => 1
  | .admin => 2

@[simp] theorem Role.parse_asStr (r : Role) : Role.parse r.asStr = some r := by cases r <;> rfl

/-! ## Rows -/

structure DatabaseRecord where
  name : String
  createdAt : Int

structure PrincipalRow where
  id : String
  name : String
  isAdmin : Bool
  tokenHash : String
  disabled : Bool
  createdAt : Int
  username : Option String
  passwordHash : Option String

structure GrantRow where
  principalId : String
  databaseName : String
  role : String

def GrantRow.key (g : GrantRow) : String × String := (g.principalId, g.databaseName)

structure AccessTokenRow where
  tokenHash : String
  principalId : String
  expiresAt : Int

structure SessionRow where
  tokenHash : String
  principalId : String
  csrfHash : String
  expiresAt : Int
  createdAt : Int

structure SystemDb where
  databases : Table DatabaseRecord.name
  principals : Table PrincipalRow.id
  grants : Table GrantRow.key
  browserAccessTokens : Table AccessTokenRow.tokenHash
  browserSessions : Table SessionRow.tokenHash

structure Principal where
  id : String
  name : String
  isAdmin : Bool

namespace SystemDb

/-! ## Statements on browser users and their sessions -/

/-- A user without a password is an error: the column is read as a string. -/
def browserUser (db : SystemDb) (username : String) : Except ApiError (Option (String × String)) :=
  match db.principals.find? fun p => p.username == some username && !p.disabled with
  | none => .ok none
  | some p => p.passwordHash.elim (.error .internal) fun hash => .ok (some (p.id, hash))

def resettableUser (db : SystemDb) (username : String) : Option String :=
  (db.principals.find? fun p => p.username == some username && !p.disabled && !p.isAdmin).map (·.id)

def setPasswordHash (db : SystemDb) (id passwordHash : String) : SystemDb :=
  let set (p : PrincipalRow) := { p with passwordHash := some passwordHash }
  { db with principals := db.principals.update (fun p => p.id == id) set fun _ => rfl }

def deleteAccessTokensOf (db : SystemDb) (id : String) : SystemDb :=
  { db with browserAccessTokens := db.browserAccessTokens.delete fun t => t.principalId == id }

def deleteSessionsOf (db : SystemDb) (id : String) : SystemDb :=
  { db with browserSessions := db.browserSessions.delete fun s => s.principalId == id }

def deleteExpiredAccessTokens (db : SystemDb) (now : Int) : SystemDb :=
  { db with browserAccessTokens := db.browserAccessTokens.delete fun t => t.expiresAt ≤ now }

def deleteExpiredSessions (db : SystemDb) (now : Int) : SystemDb :=
  { db with browserSessions := db.browserSessions.delete fun s => s.expiresAt ≤ now }

def insertAccessToken (db : SystemDb) (row : AccessTokenRow) : Option SystemDb :=
  (db.browserAccessTokens.insert row).map fun t => { db with browserAccessTokens := t }

def insertSession (db : SystemDb) (row : SessionRow) : Option SystemDb :=
  (db.browserSessions.insert row).map fun t => { db with browserSessions := t }

def selectSession (db : SystemDb) (tokenHash csrfHash : String) (now : Int) : Option String :=
  (db.browserSessions.find? fun s =>
    s.tokenHash == tokenHash && s.csrfHash == csrfHash && now < s.expiresAt).map (·.principalId)

/-- `rotate_browser_session` does not look at how many rows went. -/
def deleteSession (db : SystemDb) (tokenHash : String) : SystemDb :=
  { db with browserSessions := db.browserSessions.delete fun s => s.tokenHash == tokenHash }

/-- Whether a row went, as `revoke_browser_session` returns it. -/
def revokeSession (db : SystemDb) (tokenHash csrfHash : String) : SystemDb × Bool :=
  let hit (s : SessionRow) := s.tokenHash == tokenHash && s.csrfHash == csrfHash
  ({ db with browserSessions := db.browserSessions.delete hit }, db.browserSessions.any hit)

/-- Joins the token to its principal. The principal must not be disabled. -/
def lookupBrowserAccessToken (db : SystemDb) (hashToken : String → String) (token : String)
    (now : Int) : Option Principal := do
  let t ← db.browserAccessTokens.find? fun t => t.tokenHash == hashToken token && now < t.expiresAt
  let p ← db.principals.find? fun p => p.id == t.principalId
  if p.disabled then none else some { id := p.id, name := p.name, isAdmin := p.isAdmin }

/-! ## Statements on databases and grants -/

/-- `INSERT OR IGNORE`. The time of creation when the row is new. -/
def insertDatabase (db : SystemDb) (name : String) (now : Int) : SystemDb × Option Int :=
  match db.databases.insert { name, createdAt := now } with
  | some t => ({ db with databases := t }, some now)
  | none => (db, none)

def databaseExists (db : SystemDb) (name : String) : Bool :=
  db.databases.any fun d => d.name == name

/-- The first statement of `delete_database_record`. -/
def deleteDatabase (db : SystemDb) (name : String) : SystemDb :=
  { db with databases := db.databases.delete fun d => d.name == name }

/-- The second statement of `delete_database_record`. -/
def deleteGrantsOf (db : SystemDb) (name : String) : SystemDb :=
  { db with grants := db.grants.delete fun g => g.databaseName == name }

def upsertGrant (db : SystemDb) (principalId database : String) (role : Role) : SystemDb :=
  let row : GrantRow := { principalId, databaseName := database, role := role.asStr }
  { db with grants := db.grants.upsert row }

def deleteGrant (db : SystemDb) (principalId database : String) : SystemDb :=
  let hit (g : GrantRow) := g.principalId == principalId && g.databaseName == database
  { db with grants := db.grants.delete hit }

def grantRole (db : SystemDb) (principalId database : String) : Option Role :=
  (db.grants.find? fun g => g.principalId == principalId && g.databaseName == database).bind
    fun g => Role.parse g.role

/-! ## What the statements leave -/

variable {db db' : SystemDb} {tokenHash csrfHash : String} {now : Int} {id : String}

theorem selectSession_mem (h : db.selectSession tokenHash csrfHash now = some id) :
    ∃ s ∈ db.browserSessions.rows, s.tokenHash = tokenHash ∧ s.principalId = id := by
  obtain ⟨s, hfind, rfl⟩ := Option.map_eq_some_iff.mp h
  obtain ⟨hs, hp⟩ := Table.mem_of_find? hfind
  simp only [Bool.and_eq_true, beq_iff_eq] at hp
  exact ⟨s, hs, hp.1.1, rfl⟩

theorem lookupBrowserAccessToken_mem {hashToken : String → String} {token : String} {p : Principal}
    (h : db.lookupBrowserAccessToken hashToken token now = some p) :
    ∃ t ∈ db.browserAccessTokens.rows, t.tokenHash = hashToken token ∧ t.principalId = p.id := by
  simp only [lookupBrowserAccessToken, Option.bind_eq_bind, Option.bind_eq_some_iff] at h
  obtain ⟨t, htoken, q, hprincipal, hp⟩ := h
  obtain ⟨ht, hhit⟩ := Table.mem_of_find? htoken
  obtain ⟨-, hid⟩ := Table.mem_of_find? hprincipal
  simp only [Bool.and_eq_true, beq_iff_eq] at hhit hid
  split at hp
  · cases hp
  · cases hp
    exact ⟨t, ht, hhit.1, hid.symm⟩

theorem revokeSession_missed (h : (db.revokeSession tokenHash csrfHash).2 = false) :
    (db.revokeSession tokenHash csrfHash).1 = db := by
  simp only [revokeSession] at h ⊢
  rw [Table.delete_of_not_any h]

theorem revokeSession_hit (h : (db.revokeSession tokenHash csrfHash).2 = true) :
    (∃ s ∈ db.browserSessions.rows, s.tokenHash = tokenHash) ∧
      ∀ s ∈ (db.revokeSession tokenHash csrfHash).1.browserSessions.rows,
        s ∈ db.browserSessions.rows ∧ s.tokenHash ≠ tokenHash := by
  obtain ⟨r, hr, hhit⟩ := Table.any_iff.mp h
  simp only [Bool.and_eq_true, beq_iff_eq] at hhit
  refine ⟨⟨r, hr, hhit.1⟩, ?_⟩
  intro s hs
  simp only [revokeSession, Table.mem_delete] at hs
  refine ⟨hs.1, ?_⟩
  intro htoken
  -- The key is the token, so the row is the one that went.
  have hsame : s = r := Table.eq_of_key hs.1 hr (htoken.trans hhit.1.symm)
  simp [hsame, hhit] at hs

theorem deleteSession_mem {s : SessionRow}
    (h : s ∈ (db.deleteSession tokenHash).browserSessions.rows) :
    s ∈ db.browserSessions.rows ∧ s.tokenHash ≠ tokenHash := by
  simpa [deleteSession] using h

theorem databaseExists_iff {name : String} :
    db.databaseExists name = true ↔ ∃ d ∈ db.databases.rows, d.name = name := by
  simp [databaseExists, Table.any_iff]

theorem insertDatabase_cases {name : String} {created : Option Int}
    (h : db.insertDatabase name now = (db', created)) :
    (created = some now ∧ db.databaseExists name = false ∧ db'.grants = db.grants ∧
      ∀ n, db'.databaseExists n = true ↔ db.databaseExists n = true ∨ n = name) ∨
    (created = none ∧ db' = db) := by
  unfold insertDatabase at h
  split at h
  · next t ht =>
    cases h
    refine Or.inl ⟨rfl, ?_, rfl, ?_⟩
    · rw [Bool.eq_false_iff, Ne, databaseExists_iff]
      rintro ⟨d, hd, rfl⟩
      exact Table.insert_fresh ht hd rfl
    · intro n
      simp only [databaseExists_iff, Table.mem_insert ht]
      constructor
      · rintro ⟨d, hd | rfl, rfl⟩
        · exact Or.inl ⟨d, hd, rfl⟩
        · exact Or.inr rfl
      · rintro (⟨d, hd, rfl⟩ | rfl)
        · exact ⟨d, Or.inl hd, rfl⟩
        · exact ⟨_, Or.inr rfl, rfl⟩
  · cases h
    exact Or.inr ⟨rfl, rfl⟩

theorem databaseExists_deleteDatabase {name n : String} :
    (db.deleteDatabase name).databaseExists n = true ↔ db.databaseExists n = true ∧ n ≠ name := by
  simp only [databaseExists_iff, deleteDatabase, Table.mem_delete, beq_eq_false_iff_ne]
  constructor
  · rintro ⟨d, ⟨hd, hne⟩, rfl⟩
    exact ⟨⟨d, hd, rfl⟩, hne⟩
  · rintro ⟨⟨d, hd, rfl⟩, hne⟩
    exact ⟨d, ⟨hd, hne⟩, rfl⟩

theorem grantRole_mem {principalId database : String} {role : Role}
    (h : db.grantRole principalId database = some role) :
    ∃ g ∈ db.grants.rows, g.key = (principalId, database) ∧ Role.parse g.role = some role := by
  obtain ⟨g, hfind, hrole⟩ := Option.bind_eq_some_iff.mp h
  obtain ⟨hg, hhit⟩ := Table.mem_of_find? hfind
  simp only [Bool.and_eq_true, beq_iff_eq] at hhit
  exact ⟨g, hg, Prod.ext hhit.1 hhit.2, hrole⟩

theorem insertSession_cases {row : SessionRow} (h : db.insertSession row = some db') :
    ∃ t, db.browserSessions.insert row = some t ∧ db' = { db with browserSessions := t } := by
  obtain ⟨t, ht, rfl⟩ := Option.map_eq_some_iff.mp h
  exact ⟨t, ht, rfl⟩

theorem insertAccessToken_cases {row : AccessTokenRow} (h : db.insertAccessToken row = some db') :
    ∃ t, db.browserAccessTokens.insert row = some t ∧
      db' = { db with browserAccessTokens := t } := by
  obtain ⟨t, ht, rfl⟩ := Option.map_eq_some_iff.mp h
  exact ⟨t, ht, rfl⟩

end SystemDb

end TinyLord
