import TinyLord.System.Disable
import TinyLord.System.Grants
import TinyLord.Text

/-!
# Who is let in

A request with a bearer token is resolved to a principal, counted by the rate limiter, and checked
for what its route needs. Each of these is a statement of its own, between the statements of all
other requests. What changes `_system.db` is a request too.
-/

open Lib Lib.Run Lib.Threads

namespace TinyLord.Server

open Browser (AuthConfig Auth)

/-! ## Requests -/

/-- The `Authorization` header. `to_str` does not read every header as a text. -/
inductive Header where
  | missing
  | unreadable
  | text (s : Text)

def stripPrefix (p s : Text) : Option Text :=
  if p.isPrefixOf s then some (s.drop p.length) else none

def bearerToken : Header → Except ApiError String
  | .missing => .error (.unauthorized "missing Authorization header")
  | .unreadable => .error (.unauthorized "malformed Authorization header")
  | .text s =>
    match (stripPrefix "Bearer ".toList s).or (stripPrefix "bearer ".toList s) with
    | none => .error (.unauthorized "expected 'Bearer <token>'")
    | some [] => .error (.unauthorized "empty bearer token")
    | some token => .ok (String.ofList token)

/-- The routes under `/v1/db/{db}`, and `snapshot`. -/
inductive DataOp where
  | createDocument
  | getDocument
  | putDocument
  | deleteDocument
  | query
  | count
  | createIndex
  | listIndexes
  | dropIndex
  | subscribe
  | publish
  | subscribeChannel
  | presence
  | snapshot
  deriving DecidableEq

inductive Need where
  | role (needed : Role)
  /-- A global admin, or `admin` on the database. -/
  | snapshot

def DataOp.need : DataOp → Need
  | .getDocument | .query | .count | .subscribe | .subscribeChannel | .presence => .role .read
  | .createDocument | .putDocument | .deleteDocument | .publish => .role .write
  | .createIndex | .listIndexes | .dropIndex => .role .admin
  | .snapshot => .snapshot

def DataOp.isPubsub : DataOp → Bool
  | .publish | .subscribeChannel | .presence => true
  | _ => false

/-- The routes under `/v1/admin`. `view` is what leaves the tables as they are: the lists, and the
registration policy. -/
inductive AdminRequest where
  | grants (rq : Grants.Request)
  | createPrincipal (name : String) (isAdmin : Bool) (password : Option String)
  | disable (id : String)
  | resetPassword (username password : String)
  | view

inductive Route where
  | data (db : String) (op : DataOp)
  | admin (rq : AdminRequest)
  | me

/-- The routes without a bearer token. -/
inductive Public where
  | register (username password : String)
  | login (username password : String)
  | refresh (refresh csrf : String)
  | logout (refresh csrf : String)

/-! ## Threads -/

inductive Pc where
  | lookupToken
  | lookupAccess
  | rateLimit (p : Principal)

/-- The statements of `authorize` and `open_db`. -/
inductive Place where
  | databaseExists
  | grantRole
  | openDb
  deriving DecidableEq

inductive Thread where
  | idle
  | checking (token : String) (route : Route) (pc : Pc)
  | authorizing (token db : String) (op : DataOp) (p : Principal) (place : Place)
  /-- Has the handle of the database. -/
  | admitted (token db : String) (op : DataOp) (p : Principal)
  | shown (p : Principal)
  | control (t : Control.Thread)
  | grants (t : Grants.Thread)
  | refused (e : ApiError)

inductive Act where
  | arrive (header : Header) (route : Route)
  | call (rq : Public)
  | run (draw : Control.Draw)
  /-- The rate limiter, or a check of the path or the body, says no. -/
  | reject (e : ApiError)
  | fail
  | noConnection

structure Shared where
  auth : Auth
  ledger : Grants.Ledger

structure Config where
  auth : AuthConfig
  pubsubEnabled : Bool

def Public.thread : Public → Control.Thread
  | .register username password => .running (.register username password) .start
  | .login username password => .browser (.running (.login username password) .start)
  | .refresh cookie csrf => .browser (.running (.refresh cookie csrf) .start)
  | .logout cookie csrf => .browser (.running (.logout cookie csrf) .start)

/-- The handler of an admin route, up to its first statement. -/
def AdminRequest.thread (argon2 : String → String → Option String) (salt : String) (p : Principal) :
    AdminRequest → Thread
  | .grants rq => .grants (.running rq .start)
  | .createPrincipal name isAdmin password =>
    .control (.running (.createPrincipal name isAdmin password) .start)
  | .disable id => .control (.running (.disable id) .start)
  | .resetPassword username password =>
    if !Control.validUsername username then
      .refused (.validation "username must be 3 to 64 letters, numbers, '_' or '-'")
    else
      match Control.hashPassword argon2 salt password with
      | .error e => .refused e
      | .ok hash => .control (.browser (.running (.resetPassword username hash) .start))
  | .view => .shown p

/-- `require_admin`, and `authorize` up to its first statement. -/
def enter (cfg : Config) (argon2 : String → String → Option String) (salt token : String)
    (p : Principal) : Route → Thread
  | .me => .shown p
  | .admin rq =>
    if p.isAdmin then rq.thread argon2 salt p
    else .refused (.forbidden "global admin required")
  | .data db op =>
    if op.isPubsub && !cfg.pubsubEnabled then .refused (.notFound "API route not found")
    else
      match requireValidName "database" db with
      | .error e => .refused e
      | .ok () => .authorizing token db op p .databaseExists

/-- `from_request_parts`, one statement at a time. -/
def check (cfg : Config) (hashToken : String → String) (argon2 : String → String → Option String)
    (tables : SystemDb) (draw : Control.Draw) (token : String) (route : Route) : Pc → Thread
  | .lookupToken =>
    match tables.lookupByToken hashToken token with
    | some p => .checking token route (.rateLimit p)
    | none => .checking token route .lookupAccess
  | .lookupAccess =>
    match tables.lookupBrowserAccessToken hashToken token draw.now with
    | some p => .checking token route (.rateLimit p)
    | none => .refused (.unauthorized "invalid or disabled token")
  | .rateLimit p => enter cfg argon2 draw.salt token p route

def forbidden (needed : Role) : ApiError :=
  .forbidden ("requires '" ++ needed.asStr ++ "' on database")

/-- `authorize` or `authorize_snapshot`, and then `open_db`. -/
def authorize (tables : SystemDb) (token db : String) (op : DataOp) (p : Principal) :
    Place → Thread
  | .databaseExists =>
    if !tables.databaseExists db then .refused (.notFound "database not found")
    else
      match op.need with
      | .role _ => .authorizing token db op p .grantRole
      | .snapshot => .authorizing token db op p (if p.isAdmin then .openDb else .grantRole)
  | .grantRole =>
    match op.need, tables.grantRole p.id db with
    | .role needed, some role =>
      if needed.rank ≤ role.rank then .authorizing token db op p .openDb
      else .refused (forbidden needed)
    | .role needed, none => .refused (forbidden needed)
    | .snapshot, role =>
      if role = some .admin then .authorizing token db op p .openDb
      else .refused (.forbidden "requires global admin or 'admin' on database")
  | .openDb =>
    if tables.databaseExists db then .admitted token db op p
    else .refused (.notFound "database not found")

def Act.control : Act → Option Control.Act
  | .run draw => some (.run draw)
  | .fail => some .fail
  | .noConnection => some .noConnection
  | _ => none

def Act.grants : Act → Option Grants.Act
  | .run draw => some (.run draw.now)
  | .fail | .noConnection => some .fail
  | _ => none

def next (cfg : Config) (hashToken : String → String) (verifyPassword : String → String → Bool)
    (argon2 : String → String → Option String) (c : Shared) (self : Nat) :
    Thread → Act → Option (Shared × Thread)
  | .idle, .arrive header route =>
    match bearerToken header with
    | .error e => some (c, .refused e)
    | .ok token => some (c, .checking token route .lookupToken)
  | .idle, .call rq => some (c, .control rq.thread)
  | .checking token route pc, .run draw =>
    some (c, check cfg hashToken argon2 c.auth.db draw token route pc)
  | .authorizing token db op p place, .run _ =>
    some (c, authorize c.auth.db token db op p place)
  | .checking .., .reject e | .authorizing .., .reject e => some (c, .refused e)
  | .checking .., .fail | .checking .., .noConnection | .authorizing .., .fail
  | .authorizing .., .noConnection => some (c, .refused .internal)
  | .control t, a => do
    let a ← a.control
    let (auth, t) ← Control.next cfg.auth hashToken verifyPassword argon2 c.auth self t a
    some ({ c with auth }, .control t)
  | .grants t, a => do
    let a ← a.grants
    let (admin, t) ← Grants.next ⟨c.auth.db, c.ledger⟩ self t a
    some ({ auth := { c.auth with db := admin.db }, ledger := admin.ledger }, .grants t)
  | _, _ => none

abbrev System := Pool Shared Thread

def System.boot (db : SystemDb) : System where
  shared :=
    { auth := (Browser.System.boot db).shared
      ledger := (Grants.System.boot db).shared.ledger }
  threads := fun _ => .idle

/-! ## What a request may do -/

/-- The principal has what the route needs. -/
def MayUse (tables : SystemDb) (p : Principal) (db : String) (op : DataOp) : Prop :=
  match op.need with
  | .role needed => ∃ role, tables.grantRole p.id db = some role ∧ needed.rank ≤ role.rank
  | .snapshot => p.isAdmin = true ∨ tables.grantRole p.id db = some .admin

/-- The principals that the token can stand for. -/
def Resolves (hashToken : String → String) (tables : SystemDb) (token : String) (p : Principal) :
    Prop :=
  tables.lookupByToken hashToken token = some p ∨
    ∃ now, tables.lookupBrowserAccessToken hashToken token now = some p

/-- The principal that the statement of a request finds for its token. -/
def Pc.found (hashToken : String → String) (tables : SystemDb) (now : Int) (token : String) :
    Pc → Option Principal
  | .lookupToken => tables.lookupByToken hashToken token
  | .lookupAccess => tables.lookupBrowserAccessToken hashToken token now
  | .rateLimit _ => none

def Act.draw : Act → Option Control.Draw
  | .run draw => some draw
  | _ => none

def Thread.found (hashToken : String → String) (tables : SystemDb) (now : Int) :
    Thread → Option Principal
  | .checking token _ pc => pc.found hashToken tables now token
  | _ => none

section

variable {cfg : Config} {hashToken : String → String} {verifyPassword : String → String → Bool}
  {argon2 : String → String → Option String} {c c' : Shared} {self i : Nat} {t t' : Thread} {a : Act}
  {tables : SystemDb} {draw : Control.Draw} {token db : String} {route : Route} {op : DataOp}
  {p : Principal} {pc : Pc} {place : Place}

theorem resolves_of_found {now : Int} (h : pc.found hashToken tables now token = some p) :
    Resolves hashToken tables token p := by
  cases pc with
  | lookupToken => exact Or.inl h
  | lookupAccess => exact Or.inr ⟨now, h⟩
  | rateLimit => cases h

theorem check_cases (h : check cfg hashToken argon2 tables draw token route pc = t') :
    (pc = .lookupToken ∧ t' = .checking token route .lookupAccess) ∨
    (∃ p, pc.found hashToken tables draw.now token = some p ∧
      t' = .checking token route (.rateLimit p)) ∨
    (∃ p, pc = .rateLimit p ∧ t' = enter cfg argon2 draw.salt token p route) ∨
    ∃ e, t' = .refused e := by
  cases pc with
  | lookupToken =>
    simp only [check] at h
    split at h
    · next p hp => exact Or.inr (Or.inl ⟨p, hp, h.symm⟩)
    · exact Or.inl ⟨rfl, h.symm⟩
  | lookupAccess =>
    simp only [check] at h
    split at h
    · next p hp => exact Or.inr (Or.inl ⟨p, hp, h.symm⟩)
    · exact Or.inr (Or.inr (Or.inr ⟨_, h.symm⟩))
  | rateLimit p => exact Or.inr (Or.inr (Or.inl ⟨p, rfl, h.symm⟩))

theorem enter_cases {salt : String} (h : enter cfg argon2 salt token p route = t') :
    (∃ db op, route = .data db op ∧ t' = .authorizing token db op p .databaseExists) ∨
    (p.isAdmin = true ∧ ((∃ u, t' = .control u) ∨ ∃ u, t' = .grants u)) ∨ t' = .shown p ∨
    ∃ e, t' = .refused e := by
  cases route with
  | me => exact Or.inr (Or.inr (Or.inl h.symm))
  | admin rq =>
    simp only [enter] at h
    split at h
    · next hadmin =>
      cases rq with
      | grants rq => exact Or.inr (Or.inl ⟨hadmin, Or.inr ⟨_, h.symm⟩⟩)
      | createPrincipal | disable => exact Or.inr (Or.inl ⟨hadmin, Or.inl ⟨_, h.symm⟩⟩)
      | resetPassword username password =>
        simp only [AdminRequest.thread] at h
        split at h
        · exact Or.inr (Or.inr (Or.inr ⟨_, h.symm⟩))
        · split at h
          · exact Or.inr (Or.inr (Or.inr ⟨_, h.symm⟩))
          · exact Or.inr (Or.inl ⟨hadmin, Or.inl ⟨_, h.symm⟩⟩)
      | view => exact Or.inr (Or.inr (Or.inl h.symm))
    · exact Or.inr (Or.inr (Or.inr ⟨_, h.symm⟩))
  | data db op =>
    simp only [enter] at h
    split at h
    · exact Or.inr (Or.inr (Or.inr ⟨_, h.symm⟩))
    · split at h
      · exact Or.inr (Or.inr (Or.inr ⟨_, h.symm⟩))
      · exact Or.inl ⟨db, op, rfl, h.symm⟩

theorem authorize_cases (h : authorize tables token db op p place = t') :
    (t' = .authorizing token db op p .grantRole) ∨
    (MayUse tables p db op ∧ t' = .authorizing token db op p .openDb) ∨
    (place = .openDb ∧ t' = .admitted token db op p) ∨
    ∃ e, t' = .refused e := by
  cases place with
  | databaseExists =>
    simp only [authorize] at h
    split at h
    · exact Or.inr (Or.inr (Or.inr ⟨_, h.symm⟩))
    · split at h
      · exact Or.inl h.symm
      · next hneed =>
        split at h
        · next hadmin =>
          refine Or.inr (Or.inl ⟨?_, h.symm⟩)
          rw [MayUse, hneed]
          exact Or.inl hadmin
        · exact Or.inl h.symm
  | grantRole =>
    simp only [authorize] at h
    split at h
    · next needed role hneed hrole =>
      split at h
      · next hle =>
        refine Or.inr (Or.inl ⟨?_, h.symm⟩)
        rw [MayUse, hneed]
        exact ⟨role, hrole, hle⟩
      · exact Or.inr (Or.inr (Or.inr ⟨_, h.symm⟩))
    · exact Or.inr (Or.inr (Or.inr ⟨_, h.symm⟩))
    · next role hneed =>
      split at h
      · next hrole =>
        refine Or.inr (Or.inl ⟨?_, h.symm⟩)
        rw [MayUse, hneed]
        exact Or.inr hrole
      · exact Or.inr (Or.inr (Or.inr ⟨_, h.symm⟩))
  | openDb =>
    simp only [authorize] at h
    split at h
    · exact Or.inr (Or.inr (Or.inl ⟨rfl, h.symm⟩))
    · exact Or.inr (Or.inr (Or.inr ⟨_, h.symm⟩))

theorem next_cases (h : next cfg hashToken verifyPassword argon2 c self t a = some (c', t')) :
    (∃ token route, t = .idle ∧ c' = c ∧ t' = .checking token route .lookupToken) ∨
    (∃ rq : Public, t = .idle ∧ c' = c ∧ t' = .control rq.thread) ∨
    (∃ token route pc draw, t = .checking token route pc ∧ a = .run draw ∧ c' = c ∧
      check cfg hashToken argon2 c.auth.db draw token route pc = t') ∨
    (∃ token db op p place draw, t = .authorizing token db op p place ∧ a = .run draw ∧ c' = c ∧
      authorize c.auth.db token db op p place = t') ∨
    (∃ e, c' = c ∧ t' = .refused e) ∨
    (∃ u u' b auth, t = .control u ∧ t' = .control u' ∧ a.control = some b ∧
      Control.next cfg.auth hashToken verifyPassword argon2 c.auth self u b = some (auth, u') ∧
      c' = { c with auth }) ∨
    (∃ u u' b admin, t = .grants u ∧ t' = .grants u' ∧
      Grants.next ⟨c.auth.db, c.ledger⟩ self u b = some (admin, u') ∧
      c' = { auth := { c.auth with db := admin.db }, ledger := admin.ledger }) := by
  unfold next at h
  split at h
  · split at h <;> cases h
    · exact Or.inr (Or.inr (Or.inr (Or.inr (Or.inl ⟨_, rfl, rfl⟩))))
    · exact Or.inl ⟨_, _, rfl, rfl, rfl⟩
  · cases h
    exact Or.inr (Or.inl ⟨_, rfl, rfl, rfl⟩)
  · cases h
    exact Or.inr (Or.inr (Or.inl ⟨_, _, _, _, rfl, rfl, rfl, rfl⟩))
  · cases h
    exact Or.inr (Or.inr (Or.inr (Or.inl ⟨_, _, _, _, _, _, rfl, rfl, rfl, rfl⟩)))
  iterate 6
    cases h
    exact Or.inr (Or.inr (Or.inr (Or.inr (Or.inl ⟨_, rfl, rfl⟩))))
  · obtain ⟨b, hb, h⟩ := Option.bind_eq_some_iff.mp h
    obtain ⟨⟨auth, u'⟩, hnext, h⟩ := Option.bind_eq_some_iff.mp h
    cases h
    exact Or.inr (Or.inr (Or.inr (Or.inr (Or.inr (Or.inl ⟨_, u', b, auth, rfl, rfl, hb, hnext,
      rfl⟩)))))
  · obtain ⟨b, -, h⟩ := Option.bind_eq_some_iff.mp h
    obtain ⟨⟨admin, u'⟩, hnext, h⟩ := Option.bind_eq_some_iff.mp h
    cases h
    exact Or.inr (Or.inr (Or.inr (Or.inr (Or.inr (Or.inr ⟨_, u', b, admin, rfl, rfl, hnext,
      rfl⟩)))))
  · cases h

/-! ## Nobody is let in who is barred -/

/-- The token stands for principals of the set only, and none of them may use the database so. -/
def barred (hashToken : String → String) (ps : Set Principal) (token db : String) (op : DataOp)
    (s : System) (_ : Nat × Act) : Prop :=
  (∀ p, Resolves hashToken s.shared.auth.db token p → p ∈ ps) ∧
    ∀ p ∈ ps, ¬ MayUse s.shared.auth.db p db op

/-- How far a request with the token for the database is, when it came after the bar. -/
def Outside (ps : Set Principal) (token db : String) (op : DataOp) : Thread → Prop
  | .checking token' _ (.rateLimit p) => token' = token → p ∈ ps
  | .authorizing token' db' op' p place =>
    token' = token → p ∈ ps ∧ (db' = db → op' = op → place ≠ .openDb)
  | .admitted token' db' op' _ => ¬(token' = token ∧ db' = db ∧ op' = op)
  | _ => True

theorem outside_next {ps : Set Principal}
    (hres : ∀ p, Resolves hashToken c.auth.db token p → p ∈ ps)
    (hnot : ∀ p ∈ ps, ¬ MayUse c.auth.db p db op) (ht : Outside ps token db op t)
    (h : next cfg hashToken verifyPassword argon2 c self t a = some (c', t')) :
    Outside ps token db op t' := by
  rcases next_cases h with ⟨_, _, -, -, rfl⟩ | ⟨_, -, -, rfl⟩ |
    ⟨tok, route, pc, draw, rfl, -, -, hcheck⟩ | ⟨tok, name, o, p, place, _, rfl, -, -, hauth⟩ |
    ⟨e, -, rfl⟩ | ⟨_, _, _, _, -, rfl, -⟩ | ⟨_, _, _, _, -, rfl, -⟩
  · trivial
  · trivial
  · rcases check_cases hcheck with ⟨-, rfl⟩ | ⟨p, hp, rfl⟩ | ⟨p, rfl, rfl⟩ | ⟨e, rfl⟩
    · trivial
    · rintro rfl
      exact hres p (resolves_of_found hp)
    · rcases enter_cases rfl with ⟨_, _, -, h⟩ | ⟨-, ⟨_, h⟩ | ⟨_, h⟩⟩ | h | ⟨_, h⟩ <;> rw [h]
      · exact fun htok => ⟨ht htok, fun _ _ => by decide⟩
      all_goals trivial
    · trivial
  · rcases authorize_cases hauth with rfl | ⟨hmay, rfl⟩ | ⟨rfl, rfl⟩ | ⟨e, rfl⟩
    · exact fun htok => ⟨(ht htok).1, fun _ _ => by decide⟩
    · refine fun htok => ⟨(ht htok).1, ?_⟩
      rintro rfl rfl -
      exact hnot p (ht htok).1 hmay
    · rintro ⟨htok, hname, ho⟩
      exact (ht htok).2 hname ho rfl
    · trivial
  all_goals trivial

/-- A request that comes when its token stands only for principals that may not use the database is
not let in, as long as that stays so. What is left of the run is any: grants and tokens may come and
go for others, and each request is between any statements of the others. -/
theorem barred_not_admitted {ps : Set Principal} {s₁ s₂ : System}
    (h : Reach (Threads.step (next cfg hashToken verifyPassword argon2))
      (barred hashToken ps token db op) s₁ s₂)
    (hidle : s₁.threads i = .idle) : ∀ p, s₂.threads i ≠ .admitted token db op p := by
  have hinv : Outside ps token db op (s₂.threads i) := by
    refine h.inv (fun s => Outside ps token db op (s.threads i)) ?_ ?_
    · rw [hidle]
      trivial
    · rintro s a s' hs ⟨hres, hnot⟩ hstep
      obtain ⟨c', t', hnext, rfl⟩ := Threads.step_cases hstep
      simp only [Function.update_apply]
      split
      · next heq =>
        subst heq
        exact outside_next hres hnot hs hnext
      · exact hs
  intro p hp
  rw [hp] at hinv
  exact hinv ⟨rfl, rfl, rfl⟩

/-! ## Without an admin nobody is given more -/

/-- Neither table of rights has changed, and the principals that have come are users without a
grant. -/
structure Registrations (tables tables' : SystemDb) : Prop where
  grants : tables'.grants = tables.grants
  databases : tables'.databases = tables.databases
  principals : ∃ users, tables'.principals.rows = tables.principals.rows ++ users ∧
    ∀ u ∈ users, u.isAdmin = false ∧ ∀ g ∈ tables.grants.rows, g.principalId ≠ u.id

/-- The token of no request stands for an admin, and the id of a new user is in no grant. -/
def ordinary (hashToken : String → String) (c : Shared) (_ : Nat) (t : Thread) (a : Act) : Prop :=
  ∀ draw ∈ a.draw, (∀ p ∈ t.found hashToken c.auth.db draw.now, p.isAdmin = false) ∧
    ∀ g ∈ c.auth.db.grants.rows, g.principalId ≠ draw.id

instance (hashToken : String → String) (c : Shared) (i : Nat) (t : Thread) (a : Act) :
    Decidable (ordinary hashToken c i t a) :=
  inferInstanceAs (Decidable (∀ draw ∈ a.draw, _ ∧ _))

/-- The principal as a row that is not disabled has it. -/
def Known (tables : SystemDb) (p : Principal) : Prop :=
  ∃ row ∈ tables.principals.rows, row.id = p.id ∧ row.isAdmin = p.isAdmin ∧ row.disabled = false

/-- The thread of a route without a token. -/
def browserPublic : Browser.Thread → Prop
  | .running (.resetPassword ..) _ | .running _ (.setPassword ..) | .running _ (.revokeAccess _)
  | .running _ (.revokeSessions _) => False
  | _ => True

def controlPublic : Control.Thread → Prop
  | .idle => False
  | .browser t => browserPublic t
  | .running (.register ..) .start | .running (.register ..) (.createUser ..) => True
  | .running .. => False
  | .done .. => True

/-- What a request rests on, when none of an admin is on its way. -/
def Modest (first tables : SystemDb) : Thread → Prop
  | .checking _ _ (.rateLimit p) => Known tables p ∧ p.isAdmin = false
  | .authorizing _ db op p place =>
    Known tables p ∧ p.isAdmin = false ∧ (place = .openDb → MayUse first p db op)
  | .admitted _ db op p => Known tables p ∧ p.isAdmin = false ∧ MayUse first p db op
  | .control t => controlPublic t
  | .grants _ => False
  | _ => True

theorem Registrations.refl (tables : SystemDb) : Registrations tables tables :=
  ⟨rfl, rfl, [], (List.append_nil _).symm, nofun⟩

theorem Registrations.of_eq {tables' : SystemDb} (hgrants : tables'.grants = tables.grants)
    (hdatabases : tables'.databases = tables.databases)
    (hprincipals : tables'.principals = tables.principals) : Registrations tables tables' :=
  ⟨hgrants, hdatabases, [], by rw [hprincipals, List.append_nil], nofun⟩

theorem Registrations.trans {tables₁ tables₂ tables₃ : SystemDb}
    (h : Registrations tables₁ tables₂) (h' : Registrations tables₂ tables₃) :
    Registrations tables₁ tables₃ := by
  obtain ⟨users, hrows, husers⟩ := h.principals
  obtain ⟨users', hrows', husers'⟩ := h'.principals
  refine ⟨h'.grants.trans h.grants, h'.databases.trans h.databases, users ++ users', ?_, ?_⟩
  · rw [hrows', hrows, List.append_assoc]
  · intro u hu
    rcases List.mem_append.mp hu with hu | hu
    · exact husers u hu
    · rw [h.grants] at husers'
      exact husers' u hu

theorem Known.mono {tables' : SystemDb} (h : Known tables p) (hreg : Registrations tables tables') :
    Known tables' p := by
  obtain ⟨row, hrow, hfacts⟩ := h
  obtain ⟨users, hrows, -⟩ := hreg.principals
  exact ⟨row, hrows ▸ List.mem_append_left users hrow, hfacts⟩

theorem Modest.mono {first tables' : SystemDb} (h : Modest first tables t)
    (hreg : Registrations tables tables') : Modest first tables' t := by
  match t with
  | .checking _ _ (.rateLimit p) | .authorizing _ _ _ p _ | .admitted _ _ _ p =>
    exact ⟨h.1.mono hreg, h.2⟩
  | .control _ => exact h
  | .checking _ _ .lookupToken | .checking _ _ .lookupAccess | .idle | .shown _ | .refused _ =>
    trivial

theorem mayUse_congr {tables' : SystemDb} (h : tables'.grants = tables.grants) :
    MayUse tables' p db op ↔ MayUse tables p db op := by
  unfold MayUse SystemDb.grantRole
  rw [h]

theorem known_of_resolves (h : Resolves hashToken tables token p) : Known tables p := by
  rcases h with h | ⟨now, h⟩
  · simp only [SystemDb.lookupByToken, Option.bind_eq_bind, Option.bind_eq_some_iff] at h
    obtain ⟨row, hfind, hp⟩ := h
    split at hp
    · cases hp
    · next hflag =>
      cases hp
      exact ⟨row, (Table.mem_of_find? hfind).1, rfl, rfl, by simpa using hflag⟩
  · simp only [SystemDb.lookupBrowserAccessToken, Option.bind_eq_bind, Option.bind_eq_some_iff] at h
    obtain ⟨t, -, row, hfind, hp⟩ := h
    split at hp
    · cases hp
    · next hflag =>
      cases hp
      exact ⟨row, (Table.mem_of_find? hfind).1, rfl, rfl, by simpa using hflag⟩

theorem Known.before {first tables : SystemDb} (h : Known tables p) (hreg : Registrations first tables)
    (hadmin : p.isAdmin = false) (hmay : MayUse first p db op) : Known first p := by
  obtain ⟨row, hrow, hid, hfacts⟩ := h
  obtain ⟨users, hrows, husers⟩ := hreg.principals
  have hgrant : ∃ role, first.grantRole p.id db = some role := by
    unfold MayUse at hmay
    split at hmay
    · exact ⟨_, hmay.choose_spec.1⟩
    · exact ⟨.admin, hmay.resolve_left (by simp [hadmin])⟩
  obtain ⟨role, hrole⟩ := hgrant
  obtain ⟨g, hg, hkey, -⟩ := SystemDb.grantRole_mem hrole
  rw [hrows] at hrow
  rcases List.mem_append.mp hrow with hrow | hrow
  · exact ⟨row, hrow, hid, hfacts⟩
  · exact absurd ((congrArg Prod.fst hkey).trans hid.symm) ((husers row hrow).2 g hg)

/-! ## The routes without a token -/

theorem start_public {b b' : Auth} {u' : Browser.Thread} {rq : Browser.Request} {now : Int}
    (hu : browserPublic (.running rq .start))
    (h : Browser.start hashToken verifyPassword b self now rq = (b', u')) :
    Registrations b.db b'.db ∧ browserPublic u' := by
  rcases Browser.start_cases h with ⟨_, _, _, _, rfl, -, rfl, rfl⟩ | ⟨_, _, _, rfl, -, rfl, rfl⟩ |
    ⟨_, _, rfl, -, rfl, rfl⟩ | ⟨_, _, _, rfl, -, -, -⟩ | ⟨_, rfl, rfl⟩
  · exact ⟨.refl _, trivial⟩
  · exact ⟨.refl _, trivial⟩
  · exact ⟨.of_eq rfl rfl rfl, trivial⟩
  · exact hu.elim
  · exact ⟨.refl _, trivial⟩

theorem browser_public {cfg : AuthConfig} {b b' : Auth} {u u' : Browser.Thread} {x : Browser.Act}
    (hu : browserPublic u) (harrive : ∀ rq, x ≠ .arrive rq)
    (h : Browser.next cfg hashToken verifyPassword b self u x = some (b', u')) :
    Registrations b.db b'.db ∧ browserPublic u' := by
  rcases Browser.next_cases h with ⟨rq, rfl, rfl, rfl⟩ | ⟨rq, pc, draw, rfl, rfl, hstmt⟩ |
    ⟨rq, pc, e, rfl, rfl, rfl⟩
  · cases x with
    | arrive rq => exact absurd rfl (harrive rq)
    | run | fail | noConnection => cases h
  · cases rq with
    | resetPassword => exact hu.elim
    | login | refresh | logout =>
      cases pc with
      | start =>
        simp only [Browser.statement] at hstmt
        exact start_public hu hstmt
      | deleteSession | purgeAccess | purgeSessions =>
        cases hstmt
        exact ⟨.of_eq rfl rfl rfl, trivial⟩
      | insertAccess subject drawn =>
        simp only [Browser.statement] at hstmt
        split at hstmt
        · cases hstmt
          exact ⟨.refl _, trivial⟩
        · next hinsert =>
          cases hstmt
          obtain ⟨_, -, rfl⟩ := SystemDb.insertAccessToken_cases hinsert
          exact ⟨.of_eq rfl rfl rfl, trivial⟩
      | insertSession subject drawn =>
        simp only [Browser.statement] at hstmt
        split at hstmt
        · cases hstmt
          exact ⟨.refl _, trivial⟩
        · next hinsert =>
          cases hstmt
          obtain ⟨_, -, rfl⟩ := SystemDb.insertSession_cases hinsert
          exact ⟨.of_eq rfl rfl rfl, trivial⟩
      | setPassword | revokeAccess | revokeSessions => exact hu.elim
  · exact ⟨.refl _, trivial⟩

theorem insert_rows {row : PrincipalRow} {tables' : SystemDb}
    (h : tables.insertPrincipal row = some tables') :
    tables'.grants = tables.grants ∧ tables'.databases = tables.databases ∧
      tables'.principals.rows = tables.principals.rows ++ [row] := by
  obtain ⟨⟨t, ht, rfl⟩, -⟩ := SystemDb.insertPrincipal_cases h
  refine ⟨rfl, rfl, ?_⟩
  unfold Table.insert at ht
  split at ht <;> cases ht
  rfl

theorem createBrowserUser_registrations {username password : String} {tables' : SystemDb}
    (hid : ∀ g ∈ tables.grants.rows, g.principalId ≠ draw.id)
    (h : Control.createBrowserUser hashToken argon2 tables draw username password = .ok tables') :
    Registrations tables tables' := by
  simp only [Control.createBrowserUser] at h
  split at h
  · cases h
  · split at h
    · cases h
    · split at h
      · cases h
      · next hinsert =>
        cases h
        obtain ⟨hgrants, hdatabases, hrows⟩ := insert_rows hinsert
        exact ⟨hgrants, hdatabases, _, hrows, List.forall_mem_singleton.mpr ⟨rfl, hid⟩⟩

theorem register_public {b b' : Auth} {u' : Control.Thread} {rq : Control.Request}
    {place : Control.Pc} (hu : controlPublic (.running rq place))
    (hid : ∀ g ∈ b.db.grants.rows, g.principalId ≠ draw.id)
    (h : Control.statement hashToken argon2 b self rq draw place = (b', u')) :
    Registrations b.db b'.db ∧ controlPublic u' := by
  cases rq with
  | browser | createPrincipal | disable | resetAdminToken => exact hu.elim
  | register username password =>
    cases place with
    | start =>
      simp only [Control.statement, Control.start] at h
      split at h <;> cases h <;> exact ⟨.refl _, trivial⟩
    | createUser username password =>
      simp only [Control.statement] at h
      split at h
      · cases h
        exact ⟨.refl _, trivial⟩
      · next huser =>
        cases h
        exact ⟨createBrowserUser_registrations hid huser, trivial⟩
    | setAdminToken | createAdmin => exact hu.elim

theorem control_public {cfg : AuthConfig} {b b' : Auth} {u u' : Control.Thread} {x : Control.Act}
    (hu : controlPublic u)
    (hid : ∀ draw, x = .run draw → ∀ g ∈ b.db.grants.rows, g.principalId ≠ draw.id)
    (h : Control.next cfg hashToken verifyPassword argon2 b self u x = some (b', u')) :
    Registrations b.db b'.db ∧ controlPublic u' := by
  unfold Control.next at h
  split at h
  · exact hu.elim
  · exact hu.elim
  iterate 3
    obtain ⟨r, hr, hlift⟩ := Option.map_eq_some_iff.mp h
    cases hlift
    refine browser_public hu ?_ hr
    rintro _ ⟨⟩
  · exact register_public hu (hid _ rfl) (Option.some.inj h)
  · next rq place =>
    cases h
    refine ⟨.refl _, ?_⟩
    cases rq with
    | browser | createPrincipal | disable | resetAdminToken => exact hu.elim
    | register => trivial
  · cases h
    exact ⟨.refl _, trivial⟩
  · cases h

/-! ## A run without an admin -/

theorem modest_next {first : SystemDb} (hreg : Registrations first c.auth.db)
    (ht : Modest first c.auth.db t) (hok : ordinary hashToken c self t a)
    (h : next cfg hashToken verifyPassword argon2 c self t a = some (c', t')) :
    Registrations c.auth.db c'.auth.db ∧ Modest first c'.auth.db t' := by
  have hfirst : ∀ p op db, MayUse c.auth.db p db op → MayUse first p db op :=
    fun p op db => (mayUse_congr hreg.grants).mp
  rcases next_cases h with ⟨_, _, -, rfl, rfl⟩ | ⟨rq, -, rfl, rfl⟩ |
    ⟨token, route, pc, draw, rfl, rfl, rfl, hcheck⟩ | ⟨token, db, op, p, place, _, rfl, -, rfl, hauth⟩ |
    ⟨e, rfl, rfl⟩ | ⟨u, u', b, auth, rfl, rfl, hb, hnext, rfl⟩ | ⟨_, _, _, _, rfl, -, -, -⟩
  · exact ⟨.refl _, trivial⟩
  · refine ⟨.refl _, ?_⟩
    cases rq <;> trivial
  · refine ⟨.refl _, ?_⟩
    rcases check_cases hcheck with ⟨-, rfl⟩ | ⟨p, hp, rfl⟩ | ⟨p, rfl, rfl⟩ | ⟨e, rfl⟩
    · trivial
    · exact ⟨known_of_resolves (resolves_of_found hp), (hok draw rfl).1 p hp⟩
    · rcases enter_cases rfl with ⟨_, _, -, h⟩ | ⟨hadmin, -⟩ | h | ⟨_, h⟩
      · rw [h]
        exact ⟨ht.1, ht.2, nofun⟩
      · exact absurd hadmin (by simp [ht.2])
      · rw [h]
        trivial
      · rw [h]
        trivial
    · trivial
  · refine ⟨.refl _, ?_⟩
    rcases authorize_cases hauth with rfl | ⟨hmay, rfl⟩ | ⟨rfl, rfl⟩ | ⟨e, rfl⟩
    · exact ⟨ht.1, ht.2.1, nofun⟩
    · exact ⟨ht.1, ht.2.1, fun _ => hfirst _ _ _ hmay⟩
    · exact ⟨ht.1, ht.2.1, ht.2.2 rfl⟩
    · trivial
  · exact ⟨.refl _, trivial⟩
  · refine control_public ht ?_ hnext
    rintro draw rfl
    refine (hok draw ?_).2
    cases a with
    | run d =>
      cases hb
      rfl
    | fail | noConnection | reject | arrive | call => cases hb
  · exact ht.elim

/-- In a run in which no token of an admin is used, no request changes who may do what: the tables
of databases and grants stay, every principal stays as it was, and who registers gets no right. Who
is let in is a principal from before the run with a grant from before the run. -/
theorem no_escalation (first : SystemDb) (s : System)
    (h : Reach (Threads.step (next cfg hashToken verifyPassword argon2))
      (moving (ordinary hashToken)) (System.boot first) s) :
    Registrations first s.shared.auth.db ∧
      ∀ i token db op p, s.threads i = .admitted token db op p →
        Known first p ∧ p.isAdmin = false ∧ MayUse first p db op := by
  have hinv : Asserted (fun (_ : Unit) c => Registrations first c.auth.db)
      (fun _ c _ t => Modest first c.auth.db t) s := by
    refine Asserted.run ?_ ?_ h
    rotate_left
    · exact ⟨(), .refl _, fun _ => trivial⟩
    rintro - c i t a c' t' hreg ht hok hnext
    obtain ⟨hstep, ht'⟩ := modest_next hreg ht hok hnext
    exact ⟨(), hreg.trans hstep, ht', fun j q _ hq => hq.mono hstep⟩
  obtain ⟨_, hreg, hthreads⟩ := hinv
  refine ⟨hreg, ?_⟩
  intro i token db op p hi
  have hmodest := hthreads i
  rw [hi] at hmodest
  obtain ⟨hknown, hadmin, hmay⟩ := hmodest
  exact ⟨hknown.before hreg hadmin hmay, hadmin, hmay⟩

end

/-! ## Runs -/

open Browser (ttls hashed verified)
open Control (argon2id drawn)

def served : Config where
  auth := ttls
  pubsubEnabled := true

def service (n : String) (isAdmin : Bool) : PrincipalRow where
  id := "01" ++ n
  name := n
  isAdmin
  tokenHash := hashed ("t" ++ n)
  disabled := false
  createdAt := 0
  username := none
  passwordHash := none

theorem services_nodup : ([service "O" true, service "A" false].map PrincipalRow.id).Nodup := by
  decide

def writerDb : SystemDb :=
  { Grants.grantedDb with principals := ⟨[service "O" true, service "A" false], services_nodup⟩ }

def runs (i k : Nat) (n : String) : List (Nat × Act) := List.replicate k (i, .run (drawn n))

def arrives (i : Nat) (token : String) (route : Route) : List (Nat × Act) :=
  [(i, .arrive (.text ("Bearer " ++ token).toList) route)]

/-- A user registers and asks for the database that the service writes to. -/
def registeredRun : List (Nat × Act) :=
  [(0, .call (.register "carol" "long enough 1"))] ++ runs 0 6 "C" ++
    arrives 1 "tA" (.data "notes" .putDocument) ++ runs 1 5 "D" ++
    arrives 2 "aC" (.data "notes" .getDocument) ++ runs 2 5 "E"

theorem no_escalation_registeredRun :
    ∃ s, exec (Threads.step (next served hashed verified argon2id)) (System.boot writerDb)
        registeredRun = some s ∧
      s.threads 1 = .admitted "tA" "notes" .putDocument ⟨"01A", "A", false⟩ ∧
      s.threads 2 = .refused (forbidden .read) ∧
      Registrations writerDb s.shared.auth.db := by
  have hrun : ∃ s, exec (Threads.step (next served hashed verified argon2id))
        (System.boot writerDb) registeredRun = some s ∧
      s.threads 1 = .admitted "tA" "notes" .putDocument ⟨"01A", "A", false⟩ ∧
      s.threads 2 = .refused (forbidden .read) := ⟨_, rfl, rfl, rfl⟩
  obtain ⟨s, hexec, hwriter, huser⟩ := hrun
  exact ⟨s, hexec, hwriter, huser, (no_escalation writerDb s
    (.of_exec registeredRun (by decide) hexec)).1⟩

/-- An admin takes the grant of the service back. -/
def revokedRun : List (Nat × Act) :=
  arrives 0 "tO" (.admin (.grants (.deleteGrant "01A" "notes"))) ++ runs 0 3 "B"

def lateRun : List (Nat × Act) := arrives 1 "tA" (.data "notes" .putDocument) ++ runs 1 4 "C"

theorem revoked_barred (s : System) (a : Nat × Act)
    (h : s.shared.auth.db = writerDb.deleteGrant "01A" "notes") :
    barred hashed {p | p.id = "01A"} "tA" "notes" .putDocument s a := by
  rw [barred, h]
  constructor
  · rintro p (hp | ⟨now, hp⟩)
    · cases hp
      rfl
    · cases hp
  · rintro p hid ⟨role, hrole, -⟩
    rw [hid] at hrole
    cases hrole

theorem barred_not_admitted_late :
    ∃ s₁ s₂, exec (Threads.step (next served hashed verified argon2id)) (System.boot writerDb)
        revokedRun = some s₁ ∧
      exec (Threads.step (next served hashed verified argon2id)) s₁ lateRun = some s₂ ∧
      s₂.threads 1 = .refused (forbidden .write) ∧
      ∀ p, s₂.threads 1 ≠ .admitted "tA" "notes" .putDocument p := by
  let act := Threads.step (next served hashed verified argon2id)
  obtain ⟨s₁, h₁, hidle, hallowed, s₂, h₂, hrefused⟩ :
      ∃ s₁, exec act (System.boot writerDb) revokedRun = some s₁ ∧ s₁.threads 1 = .idle ∧
        Allowed act (barred hashed {p | p.id = "01A"} "tA" "notes" .putDocument) s₁ lateRun ∧
        ∃ s₂, exec act s₁ lateRun = some s₂ ∧ s₂.threads 1 = .refused (forbidden .write) := by
    refine ⟨_, rfl, rfl, ?_, _, rfl, rfl⟩
    iterate 5
      refine ⟨revoked_barred _ _ rfl, ?_⟩
      rintro _ ⟨⟩
    trivial
  exact ⟨s₁, s₂, h₁, h₂, hrefused, barred_not_admitted (.of_exec lateRun hallowed h₂) hidle⟩

end TinyLord.Server
