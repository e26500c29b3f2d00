import TinyLord.Lib.Threads
import TinyLord.System.Tables

/-!
# Browser sessions

Login, refresh, logout and password reset as threads over `_system.db`. A step of a thread
is one statement and what the request computes before the next one. Two requests interleave
in any way between their statements.
-/

open Lib Lib.Threads

namespace TinyLord.Browser

/-! ## Requests -/

structure AuthConfig where
  accessTokenTtlSecs : Int
  refreshTokenTtlSecs : Int

/-- The password of a reset is hashed before the first statement. -/
inductive Request where
  | login (username password : String)
  | refresh (refresh csrf : String)
  | logout (refresh csrf : String)
  | resetPassword (username passwordHash : String)
  deriving DecidableEq

inductive Reply where
  | tokens (access refresh csrf : String)
  | noContent
  | passwordReset (id : String)
  | error (e : ApiError)
  deriving DecidableEq

def badLogin : Reply := .error (.unauthorized "invalid username or password")
def badSession : Reply := .error (.unauthorized "invalid or expired refresh session")
def noUser : Reply := .error (.notFound "browser user not found")

/-- What the clock and `generate_token` give on the way to a statement. -/
structure Draw where
  now : Int
  access : String
  refresh : String
  csrf : String

/-! ## What a credential rests on -/

/-- The login that a session goes back to. -/
inductive Root where
  /-- The session was there when the run began. -/
  | before (tokenHash : String)
  | login (request : Nat)
  deriving DecidableEq

/-- `era` counts the password resets of the principal that had written their new hash when the
login read the old one. A rotation hands its origin on. -/
structure Origin where
  root : Root
  era : Nat

/-- Kept for the statements. Nothing in the code reads it. -/
structure Ledger where
  /-- By token hash. -/
  accessOrigin : String → Origin
  sessionOrigin : String → Origin
  /-- Sessions that were inserted, now or before the run. -/
  seen : String → Bool
  /-- The request whose DELETE took the session: a logout that found it, or a rotation. -/
  takenBy : String → Option Nat
  /-- By principal: the resets that have written their new hash. -/
  resets : String → Nat
  /-- By request: the number its reset has among those. -/
  resetNo : Nat → Nat
  /-- By principal: the newest reset that has deleted the access tokens, and the sessions. -/
  accessRevoked : String → Nat
  sessionsRevoked : String → Nat

namespace Ledger

def take (l : Ledger) (tokenHash : String) (request : Nat) : Ledger :=
  { l with takenBy := Function.update l.takenBy tokenHash (some request) }

def addAccess (l : Ledger) (tokenHash : String) (origin : Origin) : Ledger :=
  { l with accessOrigin := Function.update l.accessOrigin tokenHash origin }

def addSession (l : Ledger) (tokenHash : String) (origin : Origin) : Ledger :=
  { l with
    sessionOrigin := Function.update l.sessionOrigin tokenHash origin
    seen := Function.update l.seen tokenHash true }

def reset (l : Ledger) (id : String) (request : Nat) : Ledger :=
  { l with
    resets := Function.update l.resets id (l.resets id + 1)
    resetNo := Function.update l.resetNo request (l.resets id + 1) }

def revokeAccess (l : Ledger) (id : String) (request : Nat) : Ledger :=
  { l with accessRevoked :=
      Function.update l.accessRevoked id (max (l.accessRevoked id) (l.resetNo request)) }

def revokeSessions (l : Ledger) (id : String) (request : Nat) : Ledger :=
  { l with sessionsRevoked :=
      Function.update l.sessionsRevoked id (max (l.sessionsRevoked id) (l.resetNo request)) }

variable {l : Ledger} {tokenHash h id : String} {i : Nat} {origin : Origin}

@[simp] theorem take_takenBy_self : (l.take tokenHash i).takenBy tokenHash = some i := by
  simp [take]

theorem take_takenBy_of_ne (hne : h ≠ tokenHash) : (l.take tokenHash i).takenBy h = l.takenBy h := by
  simp [take, hne]

@[simp] theorem addSession_seen_self : (l.addSession tokenHash origin).seen tokenHash = true := by
  simp [addSession]

@[simp] theorem addSession_origin_self :
    (l.addSession tokenHash origin).sessionOrigin tokenHash = origin := by
  simp [addSession]

theorem revokeAccess_self : (l.revokeAccess id i).accessRevoked id =
    max (l.accessRevoked id) (l.resetNo i) := by
  simp [revokeAccess]

theorem revokeSessions_self : (l.revokeSessions id i).sessionsRevoked id =
    max (l.sessionsRevoked id) (l.resetNo i) := by
  simp [revokeSessions]

theorem addSession_seen_of_ne (hne : h ≠ tokenHash) :
    (l.addSession tokenHash origin).seen h = l.seen h := by
  simp [addSession, hne]

theorem addSession_origin_of_ne (hne : h ≠ tokenHash) :
    (l.addSession tokenHash origin).sessionOrigin h = l.sessionOrigin h := by
  simp [addSession, hne]

end Ledger

structure Auth where
  db : SystemDb
  ledger : Ledger

/-! ## Threads -/

structure Subject where
  principalId : String
  origin : Origin

inductive Pc where
  | start
  | deleteSession (tokenHash : String) (subject : Subject)
  | purgeAccess (subject : Subject)
  | purgeSessions (subject : Subject) (draw : Draw)
  | insertAccess (subject : Subject) (draw : Draw)
  | insertSession (subject : Subject) (draw : Draw)
  | setPassword (id passwordHash : String)
  | revokeAccess (id : String)
  | revokeSessions (id : String)

inductive Thread where
  | idle
  | running (rq : Request) (pc : Pc)
  | done (rq : Request) (reply : Reply)

inductive Act where
  | arrive (rq : Request)
  | run (draw : Draw)
  /-- The statement fails. -/
  | fail
  /-- The pool has no connection. -/
  | noConnection

def start (hashToken : String → String) (verifyPassword : String → String → Bool) (c : Auth)
    (self : Nat) (now : Int) (rq : Request) : Auth × Thread :=
  match rq with
  | .login username password =>
    match c.db.browserUser username with
    | .error e => (c, .done rq (.error e))
    | .ok none => (c, .done rq badLogin)
    | .ok (some (id, hash)) =>
      if verifyPassword hash password then
        (c, .running rq (.purgeAccess ⟨id, .login self, c.ledger.resets id⟩))
      else (c, .done rq badLogin)
  | .refresh refresh csrf =>
    match c.db.selectSession (hashToken refresh) (hashToken csrf) now with
    | none => (c, .done rq badSession)
    | some id =>
      (c, .running rq (.deleteSession (hashToken refresh)
        ⟨id, c.ledger.sessionOrigin (hashToken refresh)⟩))
  | .logout refresh csrf =>
    match c.db.revokeSession (hashToken refresh) (hashToken csrf) with
    | (db, true) => (⟨db, c.ledger.take (hashToken refresh) self⟩, .done rq .noContent)
    | (db, false) => ({ c with db }, .done rq badSession)
  | .resetPassword username passwordHash =>
    match c.db.resettableUser username with
    | none => (c, .done rq noUser)
    | some id => (c, .running rq (.setPassword id passwordHash))

def statement (cfg : AuthConfig) (hashToken : String → String)
    (verifyPassword : String → String → Bool) (c : Auth) (self : Nat) (rq : Request)
    (draw : Draw) : Pc → Auth × Thread
  | .start => start hashToken verifyPassword c self draw.now rq
  | .deleteSession tokenHash subject =>
    (⟨c.db.deleteSession tokenHash, c.ledger.take tokenHash self⟩,
      .running rq (.purgeAccess subject))
  | .purgeAccess subject =>
    ({ c with db := c.db.deleteExpiredAccessTokens draw.now },
      .running rq (.purgeSessions subject draw))
  | .purgeSessions subject drawn =>
    ({ c with db := c.db.deleteExpiredSessions drawn.now },
      .running rq (.insertAccess subject drawn))
  | .insertAccess subject drawn =>
    match c.db.insertAccessToken
      { tokenHash := hashToken drawn.access
        principalId := subject.principalId
        expiresAt := drawn.now + cfg.accessTokenTtlSecs * 1000 } with
    | none => (c, .done rq (.error .internal))
    | some db =>
      (⟨db, c.ledger.addAccess (hashToken drawn.access) subject.origin⟩,
        .running rq (.insertSession subject drawn))
  | .insertSession subject drawn =>
    match c.db.insertSession
      { tokenHash := hashToken drawn.refresh
        principalId := subject.principalId
        csrfHash := hashToken drawn.csrf
        expiresAt := drawn.now + cfg.refreshTokenTtlSecs * 1000
        createdAt := drawn.now } with
    | none => (c, .done rq (.error .internal))
    | some db =>
      (⟨db, c.ledger.addSession (hashToken drawn.refresh) subject.origin⟩,
        .done rq (.tokens drawn.access drawn.refresh drawn.csrf))
  | .setPassword id passwordHash =>
    (⟨c.db.setPasswordHash id passwordHash, c.ledger.reset id self⟩, .running rq (.revokeAccess id))
  | .revokeAccess id =>
    (⟨c.db.deleteAccessTokensOf id, c.ledger.revokeAccess id self⟩, .running rq (.revokeSessions id))
  | .revokeSessions id =>
    (⟨c.db.deleteSessionsOf id, c.ledger.revokeSessions id self⟩, .done rq (.passwordReset id))

/-- The reply when the statement fails. `.ok()` makes an absent row of the two SELECTs that look
up a session or a user to reset. -/
def failure : Request → Pc → Reply
  | .refresh .., .start => badSession
  | .resetPassword .., .start => noUser
  | _, _ => .error .internal

/-- Where a request takes a connection from the pool. -/
def Pc.takesConnection : Pc → Bool
  | .start | .purgeAccess _ => true
  | _ => false

def next (cfg : AuthConfig) (hashToken : String → String) (verifyPassword : String → String → Bool)
    (c : Auth) (self : Nat) : Thread → Act → Option (Auth × Thread)
  | .idle, .arrive rq => some (c, .running rq .start)
  | .running rq pc, .run draw => some (statement cfg hashToken verifyPassword c self rq draw pc)
  | .running rq pc, .fail => some (c, .done rq (failure rq pc))
  | .running rq pc, .noConnection =>
    if pc.takesConnection then some (c, .done rq (.error .internal)) else none
  | _, _ => none

/-! ## What a step can do -/

section

variable {cfg : AuthConfig} {hashToken : String → String}
  {verifyPassword : String → String → Bool} {c c' : Auth} {self : Nat} {rq : Request} {pc : Pc}
  {t t' : Thread} {a : Act} {now : Int}

theorem next_cases (h : next cfg hashToken verifyPassword c self t a = some (c', t')) :
    (∃ rq, t = .idle ∧ c' = c ∧ t' = .running rq .start) ∨
    (∃ rq pc draw, t = .running rq pc ∧ a = .run draw ∧
      statement cfg hashToken verifyPassword c self rq draw pc = (c', t')) ∨
    (∃ rq pc e, t = .running rq pc ∧ c' = c ∧ t' = .done rq (.error e)) := by
  match t, a with
  | .idle, .arrive rq =>
    cases h
    exact Or.inl ⟨rq, rfl, rfl, rfl⟩
  | .running rq pc, .run draw =>
    exact Or.inr (Or.inl ⟨rq, pc, draw, rfl, rfl, Option.some.inj h⟩)
  | .running rq pc, .fail =>
    cases h
    refine Or.inr (Or.inr ⟨rq, pc, ?_⟩)
    unfold failure
    split <;> exact ⟨_, rfl, rfl, rfl⟩
  | .running rq pc, .noConnection =>
    simp only [next] at h
    split at h
    · cases h
      exact Or.inr (Or.inr ⟨rq, pc, _, rfl, rfl, rfl⟩)
    · cases h
  | .idle, .run _ | .idle, .fail | .idle, .noConnection | .running _ _, .arrive _ | .done _ _, _ =>
    cases h

theorem start_cases (h : start hashToken verifyPassword c self now rq = (c', t')) :
    (∃ username password id hash, rq = .login username password ∧
      c.db.browserUser username = .ok (some (id, hash)) ∧ c' = c ∧
      t' = .running rq (.purgeAccess ⟨id, .login self, c.ledger.resets id⟩)) ∨
    (∃ refresh csrf id, rq = .refresh refresh csrf ∧
      c.db.selectSession (hashToken refresh) (hashToken csrf) now = some id ∧ c' = c ∧
      t' = .running rq (.deleteSession (hashToken refresh)
        ⟨id, c.ledger.sessionOrigin (hashToken refresh)⟩)) ∨
    (∃ refresh csrf, rq = .logout refresh csrf ∧
      (c.db.revokeSession (hashToken refresh) (hashToken csrf)).2 = true ∧
      c' = ⟨(c.db.revokeSession (hashToken refresh) (hashToken csrf)).1,
        c.ledger.take (hashToken refresh) self⟩ ∧
      t' = .done rq .noContent) ∨
    (∃ username passwordHash id, rq = .resetPassword username passwordHash ∧
      c.db.resettableUser username = some id ∧ c' = c ∧
      t' = .running rq (.setPassword id passwordHash)) ∨
    (∃ e, c' = c ∧ t' = .done rq (.error e)) := by
  cases rq with
  | login username password =>
    simp only [start] at h
    split at h
    · cases h
      simp
    · cases h
      simp [badLogin]
    · next id hash huser =>
      split at h
      · cases h
        exact Or.inl ⟨username, password, id, hash, rfl, huser, rfl, rfl⟩
      · cases h
        simp [badLogin]
  | refresh refresh csrf =>
    simp only [start] at h
    split at h
    · cases h
      simp [badSession]
    · next id hsel =>
      cases h
      exact Or.inr (Or.inl ⟨refresh, csrf, id, rfl, hsel, rfl, rfl⟩)
  | logout refresh csrf =>
    simp only [start] at h
    split at h
    · next db hrev =>
      cases h
      exact Or.inr (Or.inr (Or.inl ⟨refresh, csrf, rfl, by rw [hrev], by rw [hrev], rfl⟩))
    · next db hrev =>
      cases h
      have hmiss : (c.db.revokeSession (hashToken refresh) (hashToken csrf)).2 = false := by
        rw [hrev]
      have hdb : db = c.db := by
        rw [← SystemDb.revokeSession_missed hmiss, hrev]
      simp [badSession, hdb]
  | resetPassword username passwordHash =>
    simp only [start] at h
    split at h
    · cases h
      simp [noUser]
    · next id hid =>
      cases h
      exact Or.inr (Or.inr (Or.inr (Or.inl ⟨username, passwordHash, id, rfl, hid, rfl, rfl⟩)))

end

abbrev System := Pool Auth Thread

def System.boot (db : SystemDb) : System where
  shared :=
    { db
      ledger :=
        { accessOrigin := fun tokenHash => ⟨.before tokenHash, 0⟩
          sessionOrigin := fun tokenHash => ⟨.before tokenHash, 0⟩
          seen := fun tokenHash => db.browserSessions.any fun s => s.tokenHash == tokenHash
          takenBy := fun _ => none
          resets := fun _ => 0
          resetNo := fun _ => 0
          accessRevoked := fun _ => 0
          sessionsRevoked := fun _ => 0 } }
  threads := fun _ => .idle

end TinyLord.Browser
