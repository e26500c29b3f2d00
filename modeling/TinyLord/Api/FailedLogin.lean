import TinyLord.Api.LoginGuard
import TinyLord.System.Disable

/-!
# What a failed login tells

Two servers whose control planes differ in one user only take the same login requests, in the same
order and at the same times. No request for that user has a correct password on either. Requests
interleave in any way between their steps.
-/

open Lib Lib.Run Lib.Threads

namespace TinyLord.FailedLogin

open Browser (Auth AuthConfig Draw)
open Login (LoginGuard Readings loginKey)

/-! ## `login` -/

structure Credentials where
  username : String
  password : String

/-- A login that succeeds answers with the tokens of the reply. -/
inductive Response where
  | ok (reply : Browser.Reply)
  | error (status : Nat) (code message : String) (retryAfter : Option Nat)
  deriving DecidableEq

def intoResponse (e : ApiError) (retryAfterSecs : Option Nat) : Response :=
  .error e.code.status e.code.asStr e.message retryAfterSecs

def tooMany : Response := intoResponse (.rateLimited "too many login attempts") (some 60)
def badLogin : Response := intoResponse (.unauthorized "invalid username or password") none
def internal : Response := intoResponse .internal none

def respond : Browser.Reply → Response
  | .error e => intoResponse e none
  | reply => .ok reply

/-- `PasswordHash::new` parses a hash, and may find that it is none. -/
structure Argon2 where
  PasswordHash : Type
  parse : String → Option PasswordHash
  verifyPassword : PasswordHash → String → Bool

def Argon2.verifies (argon : Argon2) (hash password : String) : Bool :=
  (argon.parse hash).any fun h => argon.verifyPassword h password

/-- The responses stand in the order they were sent, with the number of the request. -/
structure Server where
  auth : Auth
  guard : LoginGuard
  responses : List (Nat × Response)

def Server.answer (c : Server) (self : Nat) (r : Response) : Server :=
  { c with responses := c.responses ++ [(self, r)] }

inductive Stage where
  | idle
  /-- The guard has let the request through. -/
  | admitted (key : String) (body : Credentials)
  | rejected (key : String)
  | verified (key : String) (body : Credentials) (id : String)
  /-- `issue_browser_tokens`, for the user that was found. -/
  | issuing (t : Browser.Thread)
  | done

inductive Act where
  | arrive (ip : String) (body : Credentials) (now : Readings)
  | verify
  /-- The user cannot be looked up. -/
  | fault
  | fail (now : Nat)
  | success
  | issue (a : Browser.Act)

/-- The user is looked up, and the password is verified. -/
def verify (argon : Argon2) (c : Server) (self : Nat) (key : String) (body : Credentials) :
    Server × Stage :=
  match c.auth.db.browserUser body.username with
  | .error e => (c.answer self (intoResponse e none), .done)
  | .ok none => (c, .rejected key)
  | .ok (some (id, hash)) =>
    if argon.verifies hash body.password then (c, .verified key body id) else (c, .rejected key)

def Server.issued (c : Server) (self : Nat) : Auth × Browser.Thread → Server × Stage
  | (auth, .done _ reply) => ({ c with auth }.answer self (respond reply), .done)
  | (auth, t) => ({ c with auth }, .issuing t)

def next (cfg : AuthConfig) (hashToken : String → String) (argon : Argon2) (c : Server)
    (self : Nat) : Stage → Act → Option (Server × Stage)
  | .idle, .arrive ip body now =>
    let key := loginKey ip body.username
    match c.guard.check key now with
    | (false, guard) => some ({ c with guard }.answer self tooMany, .done)
    | (true, guard) => some ({ c with guard }, .admitted key body)
  | .admitted key body, .verify => some (verify argon c self key body)
  | .admitted _ _, .fault => some (c.answer self internal, .done)
  | .rejected key, .fail now =>
    some ({ c with guard := c.guard.fail key now }.answer self badLogin, .done)
  | .verified key body id, .success =>
    let subject : Browser.Subject := ⟨id, .login self, c.auth.ledger.resets id⟩
    some ({ c with guard := c.guard.success key },
      .issuing (.running (.login body.username body.password) (.purgeAccess subject)))
  | .issuing t, .issue a =>
    (Browser.next cfg hashToken argon.verifies c.auth self t a).map (c.issued self)
  | _, _ => none

abbrev System := Pool Server Stage

/-- No request is on its way. -/
def boot (db : SystemDb) (guard : LoginGuard) : System where
  shared := { auth := (Browser.System.boot db).shared, guard, responses := [] }
  threads := fun _ => .idle

/-! ## What may differ -/

def isUser (u : String) (p : PrincipalRow) : Bool := p.username == some u

/-- Every user has a password hash, which may be one that does not parse. -/
def Hashed (u : String) (db : SystemDb) : Prop :=
  ∀ p ∈ db.principals.rows, isUser u p = true → p.passwordHash.isSome = true

instance (u : String) (db : SystemDb) : Decidable (Hashed u db) :=
  inferInstanceAs (Decidable (∀ p ∈ db.principals.rows, _ → _))

/-- The user may be registered in one and not in the other, with another hash, and disabled. -/
structure DifferIn (u : String) (db db' : SystemDb) : Prop where
  databases : db'.databases = db.databases
  grants : db'.grants = db.grants
  accessTokens : db'.browserAccessTokens = db.browserAccessTokens
  sessions : db'.browserSessions = db.browserSessions
  others : (db'.principals.rows.filter fun p => !isUser u p) =
    db.principals.rows.filter fun p => !isUser u p

/-- The password is that of an enabled user of the name. -/
def Correct (argon : Argon2) (db : SystemDb) (u password : String) : Prop :=
  ∃ p ∈ db.principals.rows, isUser u p = true ∧ p.disabled = false ∧
    ∃ hash ∈ p.passwordHash, argon.verifies hash password = true

instance (argon : Argon2) (db : SystemDb) (u password : String) :
    Decidable (Correct argon db u password) :=
  inferInstanceAs (Decidable (∃ p ∈ db.principals.rows, _ ∧ _ ∧ ∃ hash ∈ p.passwordHash, _))

/-- The action is no request for the user with a correct password. -/
def Act.wrong (argon : Argon2) (db : SystemDb) (u : String) : Act → Prop
  | .arrive _ body _ => body.username = u → ¬ Correct argon db u body.password
  | _ => True

instance (argon : Argon2) (db : SystemDb) (u : String) (a : Act) : Decidable (a.wrong argon db u) :=
  match a with
  | .arrive _ body _ =>
    inferInstanceAs (Decidable (body.username = u → ¬ Correct argon db u body.password))
  | .verify | .fault | .fail _ | .success | .issue _ => isTrue trivial

/-! ## Looking up the user -/

section

variable {u v password : String} {db db' : SystemDb} {argon : Argon2}

theorem find_other (hv : v ≠ u) (rows : List PrincipalRow) :
    (rows.filter fun p => !isUser u p).find? (fun p => p.username == some v && !p.disabled) =
      rows.find? fun p => p.username == some v && !p.disabled := by
  rw [List.find?_filter]
  congr 1
  funext p
  have hname : p.username = some v → p.username ≠ some u := by
    intro hp hu
    exact hv (Option.some.inj (hp.symm.trans hu))
  simp only [isUser]
  grind

theorem browserUser_congr (h : db'.principals = db.principals) :
    db'.browserUser v = db.browserUser v := by
  rw [SystemDb.browserUser, SystemDb.browserUser, h]

theorem browserUser_other (h : DifferIn u db db') (hv : v ≠ u) :
    db'.browserUser v = db.browserUser v := by
  simp only [SystemDb.browserUser, Table.find?]
  rw [← find_other hv db.principals.rows, ← find_other hv db'.principals.rows, h.others]

theorem browserUser_wrong (hhashed : Hashed u db) (hwrong : ¬ Correct argon db u password) :
    db.browserUser u = .ok none ∨
      ∃ id hash, db.browserUser u = .ok (some (id, hash)) ∧
        argon.verifies hash password = false := by
  simp only [SystemDb.browserUser]
  split
  · exact Or.inl rfl
  · next p hfind =>
    obtain ⟨hp, hhit⟩ := Table.mem_of_find? hfind
    rw [Bool.and_eq_true, Bool.not_eq_true'] at hhit
    obtain ⟨hash, hhash⟩ := Option.isSome_iff_exists.mp (hhashed p hp hhit.1)
    refine Or.inr ⟨p.id, hash, by rw [hhash]; rfl, ?_⟩
    rw [Bool.eq_false_iff]
    intro hverifies
    exact hwrong ⟨p, hp, hhit.1, hhit.2, hash, hhash, hverifies⟩

end

/-! ## The statements of an issue -/

/-- The principals are `P` and `P'`, and nothing else that a login reads or writes differs. -/
structure AuthAlike (P P' : Table PrincipalRow.id) (c c' : Auth) : Prop where
  principals : c.db.principals = P
  principals' : c'.db.principals = P'
  accessTokens : c'.db.browserAccessTokens = c.db.browserAccessTokens
  sessions : c'.db.browserSessions = c.db.browserSessions
  ledger : c'.ledger = c.ledger

def issues : Browser.Pc → Bool
  | .purgeAccess _ | .purgeSessions .. | .insertAccess .. | .insertSession .. => true
  | _ => false

/-- The thread is at a statement of the issue, or past the last. -/
def OnIssue : Browser.Thread → Prop
  | .idle => False
  | .running _ pc => issues pc = true
  | .done .. => True

section

variable {P P' : Table PrincipalRow.id} {c c' : Auth} {cfg : AuthConfig}
  {hashToken : String → String} {verifies : String → String → Bool} {self : Nat}
  {rq : Browser.Request} {draw : Draw} {pc : Browser.Pc} {t : Browser.Thread}

theorem statement_alike (h : AuthAlike P P' c c') (hpc : issues pc = true) :
    AuthAlike P P' (Browser.statement cfg hashToken verifies c self rq draw pc).1
      (Browser.statement cfg hashToken verifies c' self rq draw pc).1 ∧
    (Browser.statement cfg hashToken verifies c' self rq draw pc).2 =
      (Browser.statement cfg hashToken verifies c self rq draw pc).2 ∧
    OnIssue (Browser.statement cfg hashToken verifies c self rq draw pc).2 := by
  cases pc with
  | purgeAccess subject =>
    refine ⟨⟨h.principals, h.principals', ?_, h.sessions, h.ledger⟩, rfl, rfl⟩
    exact congrArg (fun t => t.delete fun r => r.expiresAt ≤ draw.now) h.accessTokens
  | purgeSessions subject drawn =>
    refine ⟨⟨h.principals, h.principals', h.accessTokens, ?_, h.ledger⟩, rfl, rfl⟩
    exact congrArg (fun t => t.delete fun r => r.expiresAt ≤ drawn.now) h.sessions
  | insertAccess subject drawn =>
    simp only [Browser.statement, SystemDb.insertAccessToken, h.accessTokens]
    cases c.db.browserAccessTokens.insert _ with
    | none => exact ⟨h, rfl, trivial⟩
    | some tokens =>
      refine ⟨⟨h.principals, h.principals', rfl, h.sessions, ?_⟩, rfl, rfl⟩
      simp only [Option.map_some, h.ledger]
  | insertSession subject drawn =>
    simp only [Browser.statement, SystemDb.insertSession, h.sessions]
    cases c.db.browserSessions.insert _ with
    | none => exact ⟨h, rfl, trivial⟩
    | some sessions =>
      refine ⟨⟨h.principals, h.principals', h.accessTokens, rfl, ?_⟩, rfl, trivial⟩
      simp only [Option.map_some, h.ledger]
  | start | deleteSession | setPassword | revokeAccess | revokeSessions => cases hpc

theorem issue_alike (cfg : AuthConfig) (hashToken : String → String)
    (verifies : String → String → Bool) (self : Nat) (h : AuthAlike P P' c c') (ht : OnIssue t)
    (a : Browser.Act) :
    Option.Rel (fun r r' => AuthAlike P P' r.1 r'.1 ∧ r'.2 = r.2 ∧ OnIssue r.2)
      (Browser.next cfg hashToken verifies c self t a)
      (Browser.next cfg hashToken verifies c' self t a) := by
  match t, a with
  | .running rq pc, .run draw => exact .some (statement_alike h ht)
  | .running rq pc, .fail => exact .some ⟨h, rfl, trivial⟩
  | .running rq pc, .noConnection =>
    simp only [Browser.next]
    split
    · exact .some ⟨h, rfl, trivial⟩
    · exact .none
  | .running _ _, .arrive _ | .done _ _, _ => exact .none

end

/-! ## Two servers -/

structure Alike (P P' : Table PrincipalRow.id) (c c' : Server) : Prop where
  auth : AuthAlike P P' c.auth c'.auth
  guard : c'.guard = c.guard
  responses : c'.responses = c.responses

/-- A request for the user that the guard has let through has a wrong password. -/
def Wrong (argon : Argon2) (u : String) (db db' : SystemDb) : Stage → Prop
  | .admitted _ body => body.username = u →
    ¬ Correct argon db u body.password ∧ ¬ Correct argon db' u body.password
  | .issuing t => OnIssue t
  | _ => True

section

variable {argon : Argon2} {u : String} {db db' : SystemDb} {c c' : Server} {self : Nat}
  {r : Response}

theorem Alike.answer {P P' : Table PrincipalRow.id} (h : Alike P P' c c') :
    Alike P P' (c.answer self r) (c'.answer self r) :=
  ⟨h.auth, h.guard, congrArg (· ++ [(self, r)]) h.responses⟩

theorem issued_alike (h : Alike db.principals db'.principals c c') {x x' : Auth × Browser.Thread}
    (hx : AuthAlike db.principals db'.principals x.1 x'.1 ∧ x'.2 = x.2 ∧ OnIssue x.2) :
    Alike db.principals db'.principals (c.issued self x).1 (c'.issued self x').1 ∧
      (c'.issued self x').2 = (c.issued self x).2 ∧
      Wrong argon u db db' (c.issued self x).2 := by
  obtain ⟨auth, t⟩ := x
  obtain ⟨auth', t'⟩ := x'
  obtain ⟨hauth, rfl, ht⟩ := hx
  have hwith : Alike db.principals db'.principals { c with auth } { c' with auth := auth' } :=
    ⟨hauth, h.guard, h.responses⟩
  cases t' with
  | idle => cases ht
  | running rq pc => exact ⟨hwith, rfl, ht⟩
  | done rq reply => exact ⟨hwith.answer, rfl, trivial⟩

theorem verify_wrong {key : String} {body : Credentials}
    (hprincipals : c.auth.db.principals = db.principals) (hhashed : Hashed body.username db)
    (hwrong : ¬ Correct argon db body.username body.password) :
    verify argon c self key body = (c, .rejected key) := by
  rw [verify, browserUser_congr hprincipals]
  rcases browserUser_wrong hhashed hwrong with hnone | ⟨id, hash, hsome, hno⟩
  · rw [hnone]
  · rw [hsome]
    simp only [hno, Bool.false_eq_true, if_false]

theorem verify_alike (hdiffer : DifferIn u db db') (hhashed : Hashed u db) (hhashed' : Hashed u db')
    (h : Alike db.principals db'.principals c c') {key : String} {body : Credentials}
    (hwrong : Wrong argon u db db' (.admitted key body)) :
    Alike db.principals db'.principals (verify argon c self key body).1
      (verify argon c' self key body).1 ∧
    (verify argon c' self key body).2 = (verify argon c self key body).2 ∧
    Wrong argon u db db' (verify argon c self key body).2 := by
  by_cases hu : body.username = u
  · subst hu
    rw [verify_wrong h.auth.principals hhashed (hwrong rfl).1,
      verify_wrong h.auth.principals' hhashed' (hwrong rfl).2]
    exact ⟨h, rfl, trivial⟩
  · have hfound : c'.auth.db.browserUser body.username = c.auth.db.browserUser body.username := by
      rw [browserUser_congr h.auth.principals, browserUser_congr h.auth.principals',
        browserUser_other hdiffer hu]
    simp only [verify, hfound]
    split
    · exact ⟨h.answer, rfl, trivial⟩
    · exact ⟨h, rfl, trivial⟩
    · split
      · exact ⟨h, rfl, trivial⟩
      · exact ⟨h, rfl, trivial⟩

theorem next_mirrors (cfg : AuthConfig) (hashToken : String → String)
    (hdiffer : DifferIn u db db') (hhashed : Hashed u db) (hhashed' : Hashed u db') {a : Act}
    (ha : a.wrong argon db u) (ha' : a.wrong argon db' u) :
    Mirrors (next cfg hashToken argon) (Alike db.principals db'.principals)
      (Wrong argon u db db') a := by
  intro c c' i p h hp
  cases p with
  | idle =>
    cases a with
    | arrive ip body now =>
      simp only [next, h.guard]
      rcases c.guard.check (loginKey ip body.username) now with ⟨_ | _, guard⟩
      · exact .some ⟨Alike.answer ⟨h.auth, rfl, h.responses⟩, rfl, trivial⟩
      · exact .some ⟨⟨h.auth, rfl, h.responses⟩, rfl, fun hu => ⟨ha hu, ha' hu⟩⟩
    | _ => exact .none
  | admitted key body =>
    cases a with
    | verify => exact .some (verify_alike hdiffer hhashed hhashed' h hp)
    | fault => exact .some ⟨h.answer, rfl, trivial⟩
    | _ => exact .none
  | rejected key =>
    cases a with
    | fail now =>
      have hguard := congrArg (fun g => g.fail key now) h.guard
      exact .some ⟨Alike.answer ⟨h.auth, hguard, h.responses⟩, rfl, trivial⟩
    | _ => exact .none
  | verified key body id =>
    cases a with
    | success =>
      have hguard := congrArg (fun g => g.success key) h.guard
      refine .some ⟨⟨h.auth, hguard, h.responses⟩, ?_, rfl⟩
      simp only [h.auth.ledger]
    | _ => exact .none
  | issuing t =>
    cases a with
    | issue a =>
      have hissue := issue_alike cfg hashToken argon.verifies i h.auth hp a
      simp only [next]
      generalize Browser.next cfg hashToken argon.verifies c.auth i t a = o at hissue
      generalize Browser.next cfg hashToken argon.verifies c'.auth i t a = o' at hissue
      cases hissue with
      | none => exact .none
      | some hx => exact .some (issued_alike h hx)
    | _ => exact .none
  | done => exact .none

end

/-! ## Every user has a password hash -/

section

variable {u : String} {db db' : SystemDb} {cfg : AuthConfig} {hashToken : String → String}
  {verifyPassword : String → String → Bool} {argon2 : String → String → Option String}
  {c c' : Auth} {self : Nat}

theorem Hashed.of_eq (h : db'.principals = db.principals) (hashed : Hashed u db) :
    Hashed u db' := by
  rw [Hashed, h]
  exact hashed

theorem Hashed.insert {row : PrincipalRow} (h : db.insertPrincipal row = some db')
    (hrow : row.username.isSome = true → row.passwordHash.isSome = true) (hashed : Hashed u db) :
    Hashed u db' := by
  obtain ⟨⟨t, ht, rfl⟩, -⟩ := SystemDb.insertPrincipal_cases h
  intro p hp huser
  rcases (Table.mem_insert ht).mp hp with hold | rfl
  · exact hashed p hold huser
  · exact hrow (Option.isSome_iff_exists.mpr ⟨u, beq_iff_eq.mp huser⟩)

theorem Hashed.update {hit : PrincipalRow → Bool} {f : PrincipalRow → PrincipalRow}
    (h : db'.principals.rows = db.principals.rows.map fun p => if hit p then f p else p)
    (hname : ∀ p, (f p).username = p.username)
    (hhash : ∀ p, p.passwordHash.isSome = true → (f p).passwordHash.isSome = true)
    (hashed : Hashed u db) : Hashed u db' := by
  intro p hp huser
  rw [h] at hp
  obtain ⟨q, hq, rfl⟩ := List.mem_map.mp hp
  by_cases hhit : hit q = true
  · rw [if_pos hhit] at huser ⊢
    rw [isUser, hname] at huser
    exact hhash q (hashed q hq huser)
  · rw [if_neg hhit] at huser ⊢
    exact hashed q hq huser

theorem createBrowserUser_hashed {draw : Control.Draw} {username password : String}
    (h : Control.createBrowserUser hashToken argon2 db draw username password = .ok db')
    (hashed : Hashed u db) : Hashed u db' := by
  simp only [Control.createBrowserUser] at h
  split at h
  · cases h
  · split at h
    · cases h
    · split at h
      · cases h
      · next hinsert =>
        cases h
        exact hashed.insert hinsert fun _ => rfl

theorem createPrincipal_hashed {draw : Control.Draw} {name : String} {isAdmin : Bool}
    (h : Control.createPrincipal hashToken db draw name isAdmin = some db')
    (hashed : Hashed u db) : Hashed u db' :=
  hashed.insert h nofun

theorem browser_hashed {t t' : Browser.Thread} {a : Browser.Act}
    (h : Browser.next cfg hashToken verifyPassword c self t a = some (c', t'))
    (hashed : Hashed u c.db) : Hashed u c'.db := by
  rcases Browser.next_cases h with ⟨rq, -, rfl, -⟩ | ⟨rq, pc, draw, -, -, hstmt⟩ |
    ⟨rq, pc, e, -, rfl, -⟩
  · exact hashed
  · cases pc with
    | start =>
      rcases Browser.start_cases hstmt with ⟨username, password, id, hash, -, -, rfl, -⟩ |
        ⟨refresh, csrf, id, -, -, rfl, -⟩ | ⟨refresh, csrf, -, -, rfl, -⟩ |
        ⟨username, passwordHash, id, -, -, rfl, -⟩ | ⟨e, rfl, -⟩ <;>
        exact hashed.of_eq rfl
    | setPassword id passwordHash =>
      cases hstmt
      exact hashed.update rfl (fun _ => rfl) fun _ _ => rfl
    | insertAccess subject drawn =>
      simp only [Browser.statement] at hstmt
      split at hstmt
      · cases hstmt
        exact hashed
      · next db hdb =>
        cases hstmt
        obtain ⟨tokens, -, rfl⟩ := SystemDb.insertAccessToken_cases hdb
        exact hashed.of_eq rfl
    | insertSession subject drawn =>
      simp only [Browser.statement] at hstmt
      split at hstmt
      · cases hstmt
        exact hashed
      · next db hdb =>
        cases hstmt
        obtain ⟨sessions, -, rfl⟩ := SystemDb.insertSession_cases hdb
        exact hashed.of_eq rfl
    | deleteSession | purgeAccess | purgeSessions | revokeAccess | revokeSessions =>
      cases hstmt
      exact hashed.of_eq rfl
  · exact hashed

theorem start_hashed {rq : Control.Request} {draw : Control.Draw} {t' : Control.Thread}
    (h : Control.start hashToken argon2 c draw rq = (c', t')) (hashed : Hashed u c.db) :
    Hashed u c'.db := by
  unfold Control.start at h
  split at h
  · cases h
    exact hashed
  · split at h <;> cases h <;> exact hashed
  · split at h
    · cases h
      exact hashed
    · split at h
      · cases h
        exact hashed
      · next hdb =>
        cases h
        exact createBrowserUser_hashed hdb hashed
  · split at h
    · cases h
      exact hashed
    · next hdb =>
      cases h
      exact createPrincipal_hashed hdb hashed
  · next id =>
    have hdisabled : Hashed u (c.db.disablePrincipal id).1 :=
      hashed.update rfl (fun _ => rfl) fun _ hp => hp
    split at h <;> next db hdb => cases h; rwa [hdb] at hdisabled
  · split at h <;> cases h <;> exact hashed

theorem statement_hashed {rq : Control.Request} {draw : Control.Draw} {pc : Control.Pc}
    {t' : Control.Thread}
    (h : Control.statement hashToken argon2 c self rq draw pc = (c', t'))
    (hashed : Hashed u c.db) : Hashed u c'.db := by
  cases pc with
  | start => exact start_hashed h hashed
  | createUser username password =>
    simp only [Control.statement] at h
    split at h
    · cases h
      exact hashed
    · next hdb =>
      cases h
      exact createBrowserUser_hashed hdb hashed
  | setAdminToken id =>
    simp only [Control.statement, SystemDb.setAdminToken] at h
    split at h
    · cases h
      exact hashed
    · next hdb =>
      cases h
      split at hdb
      · cases hdb
      · cases hdb
        exact hashed.update rfl (fun _ => rfl) fun _ hp => hp
  | createAdmin =>
    simp only [Control.statement] at h
    split at h
    · cases h
      exact hashed
    · next hdb =>
      cases h
      exact createPrincipal_hashed hdb hashed

theorem control_hashed {t t' : Control.Thread} {a : Control.Act}
    (h : Control.next cfg hashToken verifyPassword argon2 c self t a = some (c', t'))
    (hashed : Hashed u c.db) : Hashed u c'.db := by
  have hlift : ∀ b act, (Browser.next cfg hashToken verifyPassword c self b act).map
      Control.liftBrowser = some (c', t') → Hashed u c'.db := by
    intro b act hmap
    obtain ⟨⟨c₁, b₁⟩, hnext, hpair⟩ := Option.map_eq_some_iff.mp hmap
    cases hpair
    exact browser_hashed hnext hashed
  unfold Control.next at h
  split at h
  · cases h
    exact hashed
  · cases h
    exact hashed
  · exact hlift _ _ h
  · exact hlift _ _ h
  · exact hlift _ _ h
  · exact statement_hashed (Option.some.inj h) hashed
  · cases h
    exact hashed
  · cases h
    exact hashed
  · cases h

theorem users_hashed (cfg : AuthConfig) (hashToken : String → String)
    (verifyPassword : String → String → Bool) (argon2 : String → String → Option String)
    (u : String) (s : Control.System)
    (hrun : Reach (Threads.step (Control.next cfg hashToken verifyPassword argon2)) anyStep
      Control.System.boot s) : Hashed u s.shared.db := by
  refine hrun.inv (fun s => Hashed u s.shared.db) (fun _ hp => absurd hp List.not_mem_nil) ?_
  intro s a s' hashed _ hstep
  obtain ⟨c, t, hnext, rfl⟩ := step_cases hstep
  exact control_hashed hnext hashed

end

/-! ## Failed logins -/

/-- The same actions can be taken on both servers, and from outside they look the same. -/
theorem failed_login_silent (cfg : AuthConfig) (hashToken : String → String) (argon : Argon2)
    (u : String) (db db' : SystemDb) (guard : LoginGuard) (actions : List (Nat × Act)) (s : System)
    (hdiffer : DifferIn u db db') (hhashed : Hashed u db) (hhashed' : Hashed u db')
    (hwrong : ∀ a ∈ actions, a.2.wrong argon db u ∧ a.2.wrong argon db' u)
    (hrun : exec (Threads.step (next cfg hashToken argon)) (boot db guard) actions = some s) :
    ∃ s', exec (Threads.step (next cfg hashToken argon)) (boot db' guard) actions = some s' ∧
      s'.shared.responses = s.shared.responses ∧ s'.shared.guard = s.shared.guard ∧
      s'.shared.auth.db.browserSessions = s.shared.auth.db.browserSessions ∧
      s'.shared.auth.db.browserAccessTokens = s.shared.auth.db.browserAccessTokens := by
  have hledger : (Browser.System.boot db').shared.ledger =
      (Browser.System.boot db).shared.ledger := by
    simp only [Browser.System.boot, hdiffer.sessions]
  have hboot : Twins (Alike db.principals db'.principals) (Wrong argon u db db')
      (boot db guard) (boot db' guard) :=
    ⟨⟨⟨rfl, rfl, hdiffer.accessTokens, hdiffer.sessions, hledger⟩, rfl, rfl⟩, rfl,
      fun _ => trivial⟩
  have hmirrors : ∀ a ∈ actions, Mirrors (next cfg hashToken argon)
      (Alike db.principals db'.principals) (Wrong argon u db db') a.2 := fun a ha =>
    next_mirrors cfg hashToken hdiffer hhashed hhashed' (hwrong a ha).1 (hwrong a ha).2
  have htwins := Twins.run hmirrors hboot
  rw [hrun] at htwins
  generalize exec (Threads.step (next cfg hashToken argon)) (boot db' guard) actions = o at htwins
  cases htwins with
  | some h =>
    exact ⟨_, rfl, h.shared.responses, h.shared.guard, h.shared.auth.sessions,
      h.shared.auth.accessTokens⟩

/-! ## A run -/

def user (name password : String) : PrincipalRow where
  id := name
  name
  isAdmin := false
  tokenHash := name
  disabled := false
  createdAt := 0
  username := some name
  passwordHash := some ("#" ++ password)

def argon : Argon2 where
  PasswordHash := String
  parse hash := if hash == "" then none else some hash
  verifyPassword hash password := hash == "#" ++ password

def bobDb : SystemDb :=
  { Control.emptyDb with principals := ⟨[user "bob" "bob's own one"], by decide⟩ }

def aliceBobDb : SystemDb :=
  { Control.emptyDb with
    principals := ⟨[user "alice" "correct horse", user "bob" "bob's own one"], by decide⟩ }

def arriveAt (t : Nat) (username password : String) : Act :=
  .arrive "10.0.0.1" ⟨username, password⟩ ⟨t, t, t⟩

def failing (i : Nat) : List (Nat × Act) :=
  [(i, arriveAt i "alice" "battery staple"), (i, .verify), (i, .fail i)]

/-- Alice is wrong six times, and Bob logs in between. -/
def mixedRun : List (Nat × Act) :=
  failing 0 ++ failing 1 ++ [(6, arriveAt 2 "bob" "bob's own one"), (6, .verify)] ++ failing 3 ++
    failing 4 ++ [(6, .success)] ++ List.replicate 4 (6, .issue (.run ⟨9, "a", "r", "c"⟩)) ++
    failing 5 ++ [(7, arriveAt 7 "alice" "battery staple")]

theorem failed_login_silent_alice :
    ∃ s s', exec (Threads.step (next ⟨900, 86400⟩ ("h" ++ ·) argon)) (boot bobDb fun _ => none)
        mixedRun = some s ∧
      exec (Threads.step (next ⟨900, 86400⟩ ("h" ++ ·) argon)) (boot aliceBobDb fun _ => none)
        mixedRun = some s' ∧
      s.shared.responses = [(0, badLogin), (1, badLogin), (3, badLogin), (4, badLogin),
        (6, .ok (.tokens "a" "r" "c")), (5, badLogin), (7, tooMany)] ∧
      s'.shared.responses = s.shared.responses := by
  obtain ⟨s, hrun, hresponses⟩ : ∃ s, exec (Threads.step (next ⟨900, 86400⟩ ("h" ++ ·) argon))
      (boot bobDb fun _ => none) mixedRun = some s ∧
      s.shared.responses = [(0, badLogin), (1, badLogin), (3, badLogin), (4, badLogin),
        (6, .ok (.tokens "a" "r" "c")), (5, badLogin), (7, tooMany)] := ⟨_, rfl, rfl⟩
  have hwrong : ∀ a ∈ mixedRun,
      a.2.wrong argon bobDb "alice" ∧ a.2.wrong argon aliceBobDb "alice" := by decide
  obtain ⟨s', hrun', hsame, -⟩ := failed_login_silent ⟨900, 86400⟩ ("h" ++ ·) argon "alice" bobDb
    aliceBobDb (fun _ => none) mixedRun s ⟨rfl, rfl, rfl, rfl, rfl⟩ (by decide) (by decide)
    hwrong hrun
  exact ⟨s, s', hrun, hrun', hresponses, hsame⟩

end TinyLord.FailedLogin
