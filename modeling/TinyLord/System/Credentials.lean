import TinyLord.System.Disable

/-!
# Where a credential comes from

Access tokens and sessions are handed on from session to session. Each goes back to a request that
showed the password of the principal, or that made the principal with a password.
-/

open Lib Lib.Run Lib.Threads

namespace TinyLord

open SystemDb
open Browser (AuthConfig Auth Subject)

/-- A request issues credentials to its subject only. The subject has proved who it is, or it has
shown a session. -/
structure Issues (c c' : Auth) (subject subject' : Option Subject) (proved : String → Prop) :
    Prop where
  access : ∀ r ∈ c'.db.browserAccessTokens.rows, r ∈ c.db.browserAccessTokens.rows ∨
    ∃ sub ∈ subject, sub.principalId = r.principalId
  sessions : ∀ r ∈ c'.db.browserSessions.rows, r ∈ c.db.browserSessions.rows ∨
    ∃ sub ∈ subject, sub.principalId = r.principalId
  subject : ∀ sub ∈ subject', sub ∈ subject ∨ proved sub.principalId ∨
    ∃ r ∈ c.db.browserSessions.rows, r.principalId = sub.principalId

section

variable {c c' : Auth} {subject subject' : Option Subject} {proved proved' : String → Prop}

theorem Issues.mono (himp : ∀ id, proved id → proved' id) (h : Issues c c' subject subject' proved) :
    Issues c c' subject subject' proved' where
  access := h.access
  sessions := h.sessions
  subject sub hsub := (h.subject sub hsub).imp_right (Or.imp_left (himp _))

theorem issues_of_same
    (haccess : ∀ r ∈ c'.db.browserAccessTokens.rows, r ∈ c.db.browserAccessTokens.rows)
    (hsessions : ∀ r ∈ c'.db.browserSessions.rows, r ∈ c.db.browserSessions.rows) :
    Issues c c' subject subject proved where
  access r hr := Or.inl (haccess r hr)
  sessions r hr := Or.inl (hsessions r hr)
  subject _ h := Or.inl h

theorem issues_none
    (haccess : ∀ r ∈ c'.db.browserAccessTokens.rows, r ∈ c.db.browserAccessTokens.rows)
    (hsessions : ∀ r ∈ c'.db.browserSessions.rows, r ∈ c.db.browserSessions.rows) :
    Issues c c' subject none proved where
  access r hr := Or.inl (haccess r hr)
  sessions r hr := Or.inl (hsessions r hr)
  subject := by rintro _ ⟨⟩

theorem issues_refl : Issues c c subject none proved := issues_none (fun _ h => h) fun _ h => h

end

/-! ## Requests on browser sessions -/

namespace Browser

variable {cfg : AuthConfig} {hashToken : String → String}
  {verifyPassword : String → String → Bool} {c c' : Auth} {i : Nat} {t t' : Thread} {a : Act}
  {rq : Request} {draw : Draw}

/-- The SELECT of a login finds the principal, and the password is right. -/
def Verified (verifyPassword : String → String → Bool) (c : Auth) (t : Thread) (a : Act)
    (id : String) : Prop :=
  ∃ username password hash draw, t = .running (.login username password) .start ∧ a = .run draw ∧
    c.db.browserUser username = .ok (some (id, hash)) ∧ verifyPassword hash password = true

theorem login_issues {username password : String}
    (h : start hashToken verifyPassword c i draw.now (.login username password) = (c', t')) :
    Issues c c' none t'.subject
      (Verified verifyPassword c (.running (.login username password) .start) (.run draw)) := by
  simp only [start] at h
  split at h
  · cases h
    exact issues_refl
  · cases h
    exact issues_refl
  · next id hash huser =>
    split at h
    · next hverified =>
      cases h
      refine ⟨fun _ hr => Or.inl hr, fun _ hr => Or.inl hr, ?_⟩
      rintro _ ⟨⟩
      exact Or.inr (Or.inl ⟨username, password, hash, draw, rfl, rfl, huser, hverified⟩)
    · cases h
      exact issues_refl

theorem start_issues (h : start hashToken verifyPassword c i draw.now rq = (c', t')) :
    Issues c c' none t'.subject (Verified verifyPassword c (.running rq .start) (.run draw)) := by
  rcases start_cases h with ⟨_, _, _, _, rfl, -, -, -⟩ | ⟨_, _, id, rfl, hsel, rfl, rfl⟩ |
    ⟨_, _, rfl, hrev, rfl, rfl⟩ | ⟨_, _, _, rfl, -, rfl, rfl⟩ | ⟨_, rfl, rfl⟩
  · exact login_issues h
  · obtain ⟨s, hs, -, hid⟩ := selectSession_mem hsel
    refine ⟨fun _ hr => Or.inl hr, fun _ hr => Or.inl hr, ?_⟩
    rintro _ ⟨⟩
    exact Or.inr (Or.inr ⟨s, hs, hid⟩)
  · obtain ⟨-, hrows⟩ := revokeSession_hit hrev
    exact issues_none (fun _ h => h) fun s hs => (hrows s hs).1
  · exact issues_refl
  · exact issues_refl

theorem next_issues (h : next cfg hashToken verifyPassword c i t a = some (c', t')) :
    Issues c c' t.subject t'.subject (Verified verifyPassword c t a) := by
  rcases next_cases h with ⟨rq, rfl, rfl, rfl⟩ | ⟨rq, pc, draw, rfl, rfl, hstmt⟩ |
    ⟨rq, pc, e, rfl, rfl, rfl⟩
  · exact issues_refl
  · cases pc with
    | start => exact start_issues hstmt
    | deleteSession tokenHash subject =>
      cases hstmt
      exact issues_of_same (fun _ h => h) fun _ hs => (deleteSession_mem hs).1
    | purgeAccess subject =>
      cases hstmt
      exact issues_of_same (fun _ h => (Table.mem_delete.mp h).1) fun _ h => h
    | purgeSessions subject drawn =>
      cases hstmt
      exact issues_of_same (fun _ h => h) fun _ h => (Table.mem_delete.mp h).1
    | insertAccess subject drawn =>
      simp only [statement] at hstmt
      split at hstmt
      · cases hstmt
        exact issues_refl
      · next db hdb =>
        cases hstmt
        obtain ⟨table, htable, rfl⟩ := insertAccessToken_cases hdb
        refine ⟨?_, fun _ h => Or.inl h, fun _ h => Or.inl h⟩
        intro r hr
        rcases (Table.mem_insert htable).mp hr with hr | rfl
        · exact Or.inl hr
        · exact Or.inr ⟨subject, rfl, rfl⟩
    | insertSession subject drawn =>
      simp only [statement] at hstmt
      split at hstmt
      · cases hstmt
        exact issues_refl
      · next db hdb =>
        cases hstmt
        obtain ⟨table, htable, rfl⟩ := insertSession_cases hdb
        refine ⟨fun _ h => Or.inl h, ?_, by rintro _ ⟨⟩⟩
        intro r hr
        rcases (Table.mem_insert htable).mp hr with hr | rfl
        · exact Or.inl hr
        · exact Or.inr ⟨subject, rfl, rfl⟩
    | setPassword id passwordHash =>
      cases hstmt
      exact issues_none (fun _ h => h) fun _ h => h
    | revokeAccess id =>
      cases hstmt
      exact issues_none (fun _ h => (Table.mem_delete.mp h).1) fun _ h => h
    | revokeSessions id =>
      cases hstmt
      exact issues_none (fun _ h => h) fun _ h => (Table.mem_delete.mp h).1
  · exact issues_refl

end Browser

/-! ## All requests -/

namespace Control

variable {cfg : AuthConfig} {hashToken : String → String}
  {verifyPassword : String → String → Bool} {argon2 : String → String → Option String}
  {c c' : Auth} {i : Nat} {t t' : Thread} {a : Act} {rq : Request} {draw : Draw} {id : String}
  {s s' : System}

/-- A registration makes the principal, with a password. -/
def Registers (hashToken : String → String) (argon2 : String → String → Option String) (c : Auth)
    (t : Thread) (a : Act) (id : String) : Prop :=
  ∃ rq username password draw db, t = .running rq (.createUser username password) ∧
    a = .run draw ∧ draw.id = id ∧
    createBrowserUser hashToken argon2 c.db draw username password = .ok db

/-- The client has the password of the principal. -/
def Proves (hashToken : String → String) (verifyPassword : String → String → Bool)
    (argon2 : String → String → Option String) (c : Auth) (t : Thread) (a : Act) (id : String) :
    Prop :=
  (∃ u draw, t = .browser u ∧ a = .run draw ∧
    Browser.Verified verifyPassword c u (.run draw.toDraw) id) ∨
  Registers hashToken argon2 c t a id

/-- The step of the run in which the client has the password. -/
def proves (hashToken : String → String) (verifyPassword : String → String → Bool)
    (argon2 : String → String → Option String) (id : String) (s : System) (a : Nat × Act) : Prop :=
  Proves hashToken verifyPassword argon2 s.shared (s.threads a.1) a.2 id

/-- The tables of the browser tokens are as before. -/
def SameTokens (db db' : SystemDb) : Prop :=
  db'.browserAccessTokens = db.browserAccessTokens ∧ db'.browserSessions = db.browserSessions

theorem insertPrincipal_same {row : PrincipalRow} {db db' : SystemDb}
    (h : db.insertPrincipal row = some db') : SameTokens db db' := by
  obtain ⟨⟨table, -, rfl⟩, -⟩ := insertPrincipal_cases h
  exact ⟨rfl, rfl⟩

theorem createBrowserUser_same {username password : String} {db : SystemDb}
    (h : createBrowserUser hashToken argon2 c.db draw username password = .ok db) :
    SameTokens c.db db := by
  obtain ⟨row, -, hinsert⟩ := createBrowserUser_ok h
  exact insertPrincipal_same hinsert

theorem disablePrincipal_same {db : SystemDb} : SameTokens db (db.disablePrincipal id).1 :=
  ⟨rfl, rfl⟩

theorem start_same (h : start hashToken argon2 c draw rq = (c', t')) :
    SameTokens c.db c'.db ∧ t'.subject = none := by
  cases rq with
  | browser rq =>
    cases h
    exact ⟨⟨rfl, rfl⟩, rfl⟩
  | register username password =>
    simp only [start] at h
    split at h <;> cases h <;> exact ⟨⟨rfl, rfl⟩, rfl⟩
  | createPrincipal name isAdmin password =>
    cases password with
    | some password =>
      simp only [start] at h
      split at h
      · cases h
        exact ⟨⟨rfl, rfl⟩, rfl⟩
      · split at h
        · cases h
          exact ⟨⟨rfl, rfl⟩, rfl⟩
        · next db hdb =>
          cases h
          exact ⟨createBrowserUser_same hdb, rfl⟩
    | none =>
      simp only [start] at h
      split at h
      · cases h
        exact ⟨⟨rfl, rfl⟩, rfl⟩
      · next db hdb =>
        cases h
        exact ⟨insertPrincipal_same hdb, rfl⟩
  | disable id =>
    have hsame : SameTokens c.db (c.db.disablePrincipal id).1 := disablePrincipal_same
    simp only [start] at h
    split at h
    all_goals
      next db hdb =>
      cases h
      rw [hdb] at hsame
      exact ⟨hsame, rfl⟩
  | resetAdminToken =>
    simp only [start] at h
    split at h <;> cases h <;> exact ⟨⟨rfl, rfl⟩, rfl⟩

theorem statement_same {pc : Pc} (h : statement hashToken argon2 c i rq draw pc = (c', t')) :
    SameTokens c.db c'.db ∧
      ∀ sub ∈ t'.subject, Registers hashToken argon2 c (.running rq pc) (.run draw)
        sub.principalId := by
  cases pc with
  | start =>
    obtain ⟨hsame, hnone⟩ := start_same h
    refine ⟨hsame, ?_⟩
    rw [hnone]
    rintro _ ⟨⟩
  | createUser username password =>
    simp only [statement] at h
    split at h
    · cases h
      exact ⟨⟨rfl, rfl⟩, by rintro _ ⟨⟩⟩
    · next db hdb =>
      cases h
      refine ⟨createBrowserUser_same hdb, ?_⟩
      rintro _ ⟨⟩
      exact ⟨rq, username, password, draw, db, rfl, rfl, rfl, hdb⟩
  | setAdminToken id =>
    simp only [statement] at h
    split at h
    · cases h
      exact ⟨⟨rfl, rfl⟩, by rintro _ ⟨⟩⟩
    · next db hdb =>
      cases h
      simp only [SystemDb.setAdminToken] at hdb
      split at hdb <;> cases hdb
      exact ⟨⟨rfl, rfl⟩, by rintro _ ⟨⟩⟩
  | createAdmin =>
    simp only [statement] at h
    split at h
    · cases h
      exact ⟨⟨rfl, rfl⟩, by rintro _ ⟨⟩⟩
    · next db hdb =>
      cases h
      exact ⟨insertPrincipal_same hdb, by rintro _ ⟨⟩⟩

theorem statement_issues {pc : Pc}
    (h : statement hashToken argon2 c i rq draw pc = (c', t')) :
    Issues c c' none t'.subject
      (Proves hashToken verifyPassword argon2 c (.running rq pc) (.run draw)) := by
  obtain ⟨⟨haccess, hsessions⟩, hsub⟩ := statement_same h
  refine ⟨?_, ?_, fun sub hmem => Or.inr (Or.inl (Or.inr (hsub sub hmem)))⟩
  · rw [haccess]
    exact fun _ hr => Or.inl hr
  · rw [hsessions]
    exact fun _ hr => Or.inl hr

theorem next_issues (h : next cfg hashToken verifyPassword argon2 c i t a = some (c', t')) :
    Issues c c' t.subject t'.subject (Proves hashToken verifyPassword argon2 c t a) := by
  unfold next at h
  split at h
  · cases h
    exact issues_refl
  · cases h
    exact issues_refl
  · next u draw =>
    obtain ⟨r, hr, hlift⟩ := Option.map_eq_some_iff.mp h
    cases hlift
    exact (Browser.next_issues hr).mono fun id hid => Or.inl ⟨u, draw, rfl, rfl, hid⟩
  · obtain ⟨r, hr, hlift⟩ := Option.map_eq_some_iff.mp h
    cases hlift
    refine (Browser.next_issues hr).mono ?_
    rintro id ⟨_, _, _, _, -, ⟨⟩, -⟩
  · obtain ⟨r, hr, hlift⟩ := Option.map_eq_some_iff.mp h
    cases hlift
    refine (Browser.next_issues hr).mono ?_
    rintro id ⟨_, _, _, _, -, ⟨⟩, -⟩
  · exact statement_issues (Option.some.inj h)
  · cases h
    unfold failure
    split <;> exact issues_refl
  · cases h
    exact issues_refl
  · cases h

/-! ## Runs -/

/-- Some step on the way here has shown that the client has the password of the principal. -/
abbrev Rooted (cfg : AuthConfig) (hashToken : String → String)
    (verifyPassword : String → String → Bool) (argon2 : String → String → Option String)
    (s : System) (id : String) : Prop :=
  Happened (Threads.step (next cfg hashToken verifyPassword argon2)) anyStep
    (proves hashToken verifyPassword argon2 id) System.boot s

/-- Whoever holds or is about to get a credential is rooted. -/
structure Sound (rooted : String → Prop) (s : System) : Prop where
  access : ∀ r ∈ s.shared.db.browserAccessTokens.rows, rooted r.principalId
  sessions : ∀ r ∈ s.shared.db.browserSessions.rows, rooted r.principalId
  threads : ∀ i, ∀ sub ∈ (s.threads i).subject, rooted sub.principalId

theorem sound_step {a : Nat × Act}
    (hreach : Reach (Threads.step (next cfg hashToken verifyPassword argon2)) anyStep System.boot s)
    (h : Sound (Rooted cfg hashToken verifyPassword argon2 s) s)
    (hstep : Threads.step (next cfg hashToken verifyPassword argon2) s a = some s') :
    Sound (Rooted cfg hashToken verifyPassword argon2 s') s' := by
  have hlater : ∀ id, Rooted cfg hashToken verifyPassword argon2 s id →
      Rooted cfg hashToken verifyPassword argon2 s' id :=
    fun id hid => hid.later a trivial hstep
  obtain ⟨c', t', hnext, rfl⟩ := step_cases hstep
  have hi := next_issues hnext
  refine ⟨?_, ?_, ?_⟩
  · intro r hr
    rcases hi.access r hr with hr | ⟨sub, hsub, hid⟩
    · exact hlater _ (h.access r hr)
    · exact hlater _ (hid ▸ h.threads a.1 sub hsub)
  · intro r hr
    rcases hi.sessions r hr with hr | ⟨sub, hsub, hid⟩
    · exact hlater _ (h.sessions r hr)
    · exact hlater _ (hid ▸ h.threads a.1 sub hsub)
  · intro j sub hsub
    by_cases hj : j = a.1
    · subst hj
      simp only [Function.update_self] at hsub
      rcases hi.subject sub hsub with hsub | hproved | ⟨r, hr, hid⟩
      · exact hlater _ (h.threads a.1 sub hsub)
      · exact .now a hreach trivial hstep hproved
      · exact hlater _ (hid ▸ h.sessions r hr)
    · simp only [Function.update_of_ne hj] at hsub
      exact hlater _ (h.threads j sub hsub)

/-- A browser credential is accepted for a principal only when somebody has shown its password
before, in a login or in the registration that made it. -/
theorem credentials_rooted
    (h : Reach (Threads.step (next cfg hashToken verifyPassword argon2)) anyStep System.boot s) :
    (∀ token now p, s.shared.db.lookupBrowserAccessToken hashToken token now = some p →
      Rooted cfg hashToken verifyPassword argon2 s p.id) ∧
    ∀ refresh csrf now id,
      s.shared.db.selectSession (hashToken refresh) (hashToken csrf) now = some id →
        Rooted cfg hashToken verifyPassword argon2 s id := by
  have hsound : Sound (Rooted cfg hashToken verifyPassword argon2 s) s := by
    induction h with
    | refl => exact ⟨by rintro _ ⟨⟩, by rintro _ ⟨⟩, by rintro _ _ ⟨⟩⟩
    | tail a hreach _ hstep ih => exact sound_step hreach ih hstep
  constructor
  · intro token now p hp
    obtain ⟨r, hr, -, hid⟩ := lookupBrowserAccessToken_mem hp
    exact hid ▸ hsound.access r hr
  · intro refresh csrf now id hid
    obtain ⟨r, hr, -, rfl⟩ := selectSession_mem hid
    exact hsound.sessions r hr

open Browser (ttls hashed verified)

/-- Alice registers and refreshes her session. -/
def refreshedRun : List (Nat × Act) :=
  registered ++ [(1, .arrive (.browser (.refresh "rA" "cA")))] ++ runs 1 6 "B"

theorem credentials_rooted_refreshedRun :
    ∃ s, exec (Threads.step (next ttls hashed verified argon2id)) System.boot refreshedRun =
        some s ∧
      s.shared.db.lookupBrowserAccessToken hashed "aB" 2000 = some ⟨"01A", "alice", false⟩ ∧
      Rooted ttls hashed verified argon2id s "01A" := by
  obtain ⟨s, hexec, htoken⟩ : ∃ s, exec (Threads.step (next ttls hashed verified argon2id))
        System.boot refreshedRun = some s ∧
      s.shared.db.lookupBrowserAccessToken hashed "aB" 2000 = some ⟨"01A", "alice", false⟩ :=
    ⟨_, rfl, rfl⟩
  have hrooted := credentials_rooted (.of_exec refreshedRun (.any _ _) hexec)
  exact ⟨s, hexec, htoken, hrooted.1 "aB" 2000 _ htoken⟩

end Control

end TinyLord
