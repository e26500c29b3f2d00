import TinyLord.Lib.Run
import TinyLord.System.Principals

/-!
# Calls of the control plane

Login, registration, refresh, logout, password reset and disable as calls that run one after the
other. Each is made of the statements that the threads run, with nothing in between.
-/

open Lib

namespace TinyLord.Calls

open Browser (AuthConfig Draw)

structure Tokens where
  access : String
  refresh : String
  csrf : String

section

variable (cfg : AuthConfig) (hashToken : String → String)

def issueBrowserTokens (db : SystemDb) (principalId : String) (draw : Draw) :
    SystemDb × Option Tokens :=
  let db := (db.deleteExpiredAccessTokens draw.now).deleteExpiredSessions draw.now
  match db.insertAccessToken
    { tokenHash := hashToken draw.access
      principalId
      expiresAt := draw.now + cfg.accessTokenTtlSecs * 1000 } with
  | none => (db, none)
  | some db =>
    match db.insertSession
      { tokenHash := hashToken draw.refresh
        principalId
        csrfHash := hashToken draw.csrf
        expiresAt := draw.now + cfg.refreshTokenTtlSecs * 1000
        createdAt := draw.now } with
    | none => (db, none)
    | some db => (db, some ⟨draw.access, draw.refresh, draw.csrf⟩)

/-- The clock is read for the SELECT, and again by the issue. -/
def rotateBrowserSession (db : SystemDb) (refresh csrf : String) (now : Int) (draw : Draw) :
    SystemDb × Except ApiError (Option (String × Tokens)) :=
  match db.selectSession (hashToken refresh) (hashToken csrf) now with
  | none => (db, .ok none)
  | some id =>
    match issueBrowserTokens cfg hashToken (db.deleteSession (hashToken refresh)) id draw with
    | (db, none) => (db, .error .internal)
    | (db, some tokens) => (db, .ok (some (id, tokens)))

def resetBrowserPassword (db : SystemDb) (username passwordHash : String) :
    SystemDb × Option String :=
  match db.resettableUser username with
  | none => (db, none)
  | some id =>
    (((db.setPasswordHash id passwordHash).deleteAccessTokensOf id).deleteSessionsOf id, some id)

end

/-! ## Calls and answers -/

/-- `user` is what the registration draws for the new principal. -/
inductive Call where
  | login (username password : String) (draw : Draw)
  | register (username password : String) (user : Control.Draw) (draw : Draw)
  | refresh (refresh csrf : String) (now : Int) (draw : Draw)
  | logout (refresh csrf : String)
  | resetPassword (username passwordHash : String)
  | disable (id : String)

inductive Answer where
  | tokens (id : String) (tokens : Tokens)
  | noContent
  | passwordReset (id : String)
  | error (e : ApiError)

def badLogin : Answer := .error (.unauthorized "invalid username or password")
def badSession : Answer := .error (.unauthorized "invalid or expired refresh session")

def loggedIn (id : String) : SystemDb × Option Tokens → SystemDb × Answer
  | (db, none) => (db, .error .internal)
  | (db, some tokens) => (db, .tokens id tokens)

def perform (cfg : AuthConfig) (hashToken : String → String)
    (verifyPassword : String → String → Bool) (argon2 : String → String → Option String)
    (db : SystemDb) : Call → SystemDb × Answer
  | .login username password draw =>
    match db.browserUser username with
    | .error e => (db, .error e)
    | .ok none => (db, badLogin)
    | .ok (some (id, hash)) =>
      if verifyPassword hash password then
        loggedIn id (issueBrowserTokens cfg hashToken db id draw)
      else (db, badLogin)
  | .register username password user draw =>
    if user.registrationEnabled then
      match Control.createBrowserUser hashToken argon2 db user username password with
      | .error e => (db, .error e)
      | .ok db => loggedIn user.id (issueBrowserTokens cfg hashToken db user.id draw)
    else (db, .error (.forbidden "public registration is disabled"))
  | .refresh refresh csrf now draw =>
    match rotateBrowserSession cfg hashToken db refresh csrf now draw with
    | (db, .error e) => (db, .error e)
    | (db, .ok none) => (db, badSession)
    | (db, .ok (some (id, tokens))) => (db, .tokens id tokens)
  | .logout refresh csrf =>
    match db.revokeSession (hashToken refresh) (hashToken csrf) with
    | (db, true) => (db, .noContent)
    | (db, false) => (db, badSession)
  | .resetPassword username passwordHash =>
    match resetBrowserPassword db username passwordHash with
    | (db, none) => (db, .error (.notFound "browser user not found"))
    | (db, some id) => (db, .passwordReset id)
  | .disable id =>
    match db.disablePrincipal id with
    | (db, true) => (db, .noContent)
    | (db, false) => (db, .error (.notFound "principal not found"))

/-! ## A thread on its own -/

section

open Browser Lib.Run

variable {cfg : AuthConfig} {hashToken : String → String}
  {verifyPassword : String → String → Bool} {argon2 : String → String → Option String}
  {c : Auth} {self : Nat} {draw : Draw} {db' : SystemDb} {tokens : Tokens} {id : String}

/-- No other request takes a step. -/
def solo (cfg : AuthConfig) (hashToken : String → String)
    (verifyPassword : String → String → Bool) (self : Nat) (p : Auth × Thread) (a : Act) :
    Option (Auth × Thread) :=
  next cfg hashToken verifyPassword p.1 self p.2 a

theorem issue_ok {db : SystemDb} {principalId : String}
    (h : issueBrowserTokens cfg hashToken db principalId draw = (db', some tokens)) :
    ∃ db₁, ((db.deleteExpiredAccessTokens draw.now).deleteExpiredSessions draw.now).insertAccessToken
        ⟨hashToken draw.access, principalId, draw.now + cfg.accessTokenTtlSecs * 1000⟩ = some db₁ ∧
      db₁.insertSession ⟨hashToken draw.refresh, principalId, hashToken draw.csrf,
        draw.now + cfg.refreshTokenTtlSecs * 1000, draw.now⟩ = some db' ∧
      tokens = ⟨draw.access, draw.refresh, draw.csrf⟩ := by
  simp only [issueBrowserTokens] at h
  split at h
  · cases h
  · next db₁ hdb₁ =>
    split at h
    · cases h
    · next db₂ hdb₂ =>
      cases h
      exact ⟨db₁, hdb₁, hdb₂, rfl⟩

theorem issue_alone {rq : Request} {subject : Subject}
    (h : issueBrowserTokens cfg hashToken c.db subject.principalId draw = (db', some tokens)) :
    ∃ c', exec (solo cfg hashToken verifyPassword self) (c, .running rq (.purgeAccess subject))
        (List.replicate 4 (.run draw)) =
          some (c', .done rq (.tokens tokens.access tokens.refresh tokens.csrf)) ∧ c'.db = db' := by
  obtain ⟨db₁, haccess, hsession, rfl⟩ := issue_ok h
  simp only [List.replicate, exec, solo, next, statement, haccess, hsession, Option.bind_some]
  exact ⟨_, rfl, rfl⟩

theorem login_alone {username password : String}
    (h : perform cfg hashToken verifyPassword argon2 c.db (.login username password draw) =
      (db', .tokens id tokens)) :
    ∃ c', exec (solo cfg hashToken verifyPassword self)
        (c, .running (.login username password) .start) (List.replicate 5 (.run draw)) =
          some (c', .done (.login username password)
            (.tokens tokens.access tokens.refresh tokens.csrf)) ∧ c'.db = db' := by
  simp only [perform] at h
  split at h
  · cases h
  · cases h
  · next id hash huser =>
    split at h
    · next hverified =>
      cases hissue : issueBrowserTokens cfg hashToken c.db id draw with
      | mk db o =>
        rw [hissue] at h
        cases o with
        | none => cases h
        | some tokens =>
          cases h
          rw [List.replicate_succ, exec]
          simp only [solo, next, statement, start, huser, hverified, if_true, Option.bind_some]
          exact issue_alone hissue
    · cases h

theorem refresh_alone {refresh csrf : String} {now : Int}
    (h : perform cfg hashToken verifyPassword argon2 c.db (.refresh refresh csrf now draw) =
      (db', .tokens id tokens)) :
    ∃ c', exec (solo cfg hashToken verifyPassword self)
        (c, .running (.refresh refresh csrf) .start)
        (.run { draw with now } :: List.replicate 5 (.run draw)) =
          some (c', .done (.refresh refresh csrf)
            (.tokens tokens.access tokens.refresh tokens.csrf)) ∧ c'.db = db' := by
  simp only [perform, rotateBrowserSession] at h
  cases hsel : c.db.selectSession (hashToken refresh) (hashToken csrf) now with
  | none =>
    rw [hsel] at h
    cases h
  | some id =>
    rw [hsel] at h
    cases hissue : issueBrowserTokens cfg hashToken (c.db.deleteSession (hashToken refresh)) id
      draw with
    | mk db o =>
      simp only [hissue] at h
      cases o with
      | none => cases h
      | some tokens =>
        cases h
        rw [List.replicate_succ, exec]
        simp only [exec, solo, next, statement, start, hsel, Option.bind_some]
        exact issue_alone hissue

end

/-! ## Runs -/

/-- What a call that succeeded did to credentials. A session goes by the hash of its token. -/
inductive Event where
  | issued (id : String) (tokens : Tokens) (time : Int)
  | taken (tokenHash : String)
  | reset (id : String)

def events (hashToken : String → String) : Call → Answer → List Event
  | .login _ _ draw, .tokens id tokens => [.issued id tokens draw.now]
  | .register _ _ _ draw, .tokens id tokens => [.issued id tokens draw.now]
  | .refresh refresh _ _ draw, .tokens id tokens =>
    [.taken (hashToken refresh), .issued id tokens draw.now]
  | .logout refresh _, .noContent => [.taken (hashToken refresh)]
  | .resetPassword _ _, .passwordReset id => [.reset id]
  | _, _ => []

structure State where
  db : SystemDb
  /-- The last reading. -/
  clock : Int
  log : List Event

/-- The readings of the clock, in order. -/
def Call.readings : Call → List Int
  | .login _ _ draw => [draw.now]
  | .register _ _ user draw => [user.now, draw.now]
  | .refresh _ _ now draw => [now, draw.now]
  | _ => []

def Call.draw : Call → Option Draw
  | .login _ _ draw | .register _ _ _ draw | .refresh _ _ _ draw => some draw
  | _ => none

def step (cfg : AuthConfig) (hashToken : String → String)
    (verifyPassword : String → String → Bool) (argon2 : String → String → Option String)
    (s : State) (call : Call) : Option State :=
  let r := perform cfg hashToken verifyPassword argon2 s.db call
  some
    { db := r.1
      clock := call.readings.getLast?.getD s.clock
      log := s.log ++ events hashToken call r.2 }

end TinyLord.Calls
