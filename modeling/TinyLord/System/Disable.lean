import TinyLord.System.PasswordReset
import TinyLord.System.Principals

/-!
# A disabled principal

Disabling sets a flag on the principal and leaves its sessions. A bearer token, an access token
and a login all check the flag, and no request clears it for a principal that is no admin. A
refresh does not check it: a session that is left when its principal is disabled can be
refreshed, again and again.
-/

open Lib Lib.Run Lib.Threads

namespace TinyLord

namespace SystemDb

variable {db db' : SystemDb} {p q : PrincipalRow} {id username tokenHash csrfHash : String}
  {now : Int}

/-! ## Rows of principals -/

/-- The unique index on usernames. -/
def UsernamesUnique (db : SystemDb) : Prop :=
  ∀ p ∈ db.principals.rows, ∀ q ∈ db.principals.rows, ∀ u, p.username = some u →
    q.username = some u → p = q

def DisabledUser (db : SystemDb) (id : String) : Prop :=
  ∃ p ∈ db.principals.rows, p.id = id ∧ p.isAdmin = false ∧ p.disabled = true

def IsAdmin (db : SystemDb) (id : String) : Prop :=
  ∃ p ∈ db.principals.rows, p.id = id ∧ p.isAdmin = true

theorem DisabledUser.all (h : db.DisabledUser id) (hp : p ∈ db.principals.rows)
    (hid : p.id = id) : p.isAdmin = false ∧ p.disabled = true := by
  obtain ⟨q, hq, hqid, hadmin, hdisabled⟩ := h
  have hsame : p = q := Table.eq_of_key hp hq (hid.trans hqid.symm)
  rw [hsame]
  exact ⟨hadmin, hdisabled⟩

/-- What a statement does to the rows: it changes none but their token, password and flag, and
clears the flag of an admin only. -/
structure PrincipalsKept (db db' : SystemDb) : Prop where
  rows : ∀ p ∈ db.principals.rows, ∃ q ∈ db'.principals.rows, q.id = p.id ∧
    q.isAdmin = p.isAdmin ∧ (p.disabled = true → q.disabled = true ∨ db.IsAdmin p.id)
  usernames : db.UsernamesUnique → db'.UsernamesUnique

theorem PrincipalsKept.of_eq (h : db'.principals = db.principals) : PrincipalsKept db db' where
  rows p hp := ⟨p, h ▸ hp, rfl, rfl, Or.inl⟩
  usernames hu := by
    unfold UsernamesUnique
    rw [h]
    exact hu

theorem PrincipalsKept.update {hit : PrincipalRow → Bool} {f : PrincipalRow → PrincipalRow}
    (h : db'.principals.rows = db.principals.rows.map fun p => if hit p then f p else p)
    (hid : ∀ p, (f p).id = p.id) (hadmin : ∀ p, (f p).isAdmin = p.isAdmin)
    (hname : ∀ p, (f p).username = p.username)
    (hflag : ∀ p ∈ db.principals.rows, hit p = true → p.disabled = true →
      (f p).disabled = true ∨ db.IsAdmin p.id) : PrincipalsKept db db' where
  rows p hp := by
    refine ⟨if hit p then f p else p, ?_, ?_⟩
    · rw [h]
      exact List.mem_map_of_mem hp
    · split
      · next hhit => exact ⟨hid p, hadmin p, hflag p hp hhit⟩
      · exact ⟨rfl, rfl, Or.inl⟩
  usernames hu := by
    intro p hp q hq u hpu hqu
    rw [h] at hp hq
    obtain ⟨p₀, hp₀, rfl⟩ := List.mem_map.mp hp
    obtain ⟨q₀, hq₀, rfl⟩ := List.mem_map.mp hq
    have hold : ∀ r : PrincipalRow, (if hit r then f r else r).username = r.username := by
      intro r
      split
      · exact hname r
      · rfl
    rw [hold] at hpu hqu
    rw [hu p₀ hp₀ q₀ hq₀ u hpu hqu]

theorem insertPrincipal_cases {row : PrincipalRow} (h : db.insertPrincipal row = some db') :
    (∃ t, db.principals.insert row = some t ∧ db' = { db with principals := t }) ∧
      ∀ p ∈ db.principals.rows, ∀ u, p.username = some u → row.username ≠ some u := by
  simp only [insertPrincipal] at h
  split at h
  · cases h
  · next hclash =>
    obtain ⟨t, ht, rfl⟩ := Option.map_eq_some_iff.mp h
    refine ⟨⟨t, ht, rfl⟩, ?_⟩
    intro p hp u hpu hrow
    apply hclash
    refine Table.any_iff.mpr ⟨p, hp, ?_⟩
    simp [hpu, hrow]

theorem insertPrincipal_fresh {row : PrincipalRow} (h : db.insertPrincipal row = some db') :
    ∀ p ∈ db.principals.rows, p.id ≠ row.id := by
  obtain ⟨⟨t, ht, -⟩, -⟩ := insertPrincipal_cases h
  exact fun p hp => Table.insert_fresh ht hp

theorem insertPrincipal_kept {row : PrincipalRow} (h : db.insertPrincipal row = some db') :
    PrincipalsKept db db' := by
  obtain ⟨⟨t, ht, rfl⟩, hfresh⟩ := insertPrincipal_cases h
  constructor
  · intro p hp
    exact ⟨p, (Table.mem_insert ht).mpr (Or.inl hp), rfl, rfl, Or.inl⟩
  · intro hu p hp q hq u hpu hqu
    rcases (Table.mem_insert ht).mp hp with hp | rfl <;>
      rcases (Table.mem_insert ht).mp hq with hq | rfl
    · exact hu p hp q hq u hpu hqu
    · exact absurd hqu (hfresh p hp u hpu)
    · exact absurd hpu (hfresh q hq u hqu)
    · rfl

theorem setPasswordHash_kept {passwordHash : String} :
    PrincipalsKept db (db.setPasswordHash id passwordHash) :=
  .update rfl (fun _ => rfl) (fun _ => rfl) (fun _ => rfl) fun _ _ _ h => Or.inl h

theorem disablePrincipal_kept : PrincipalsKept db (db.disablePrincipal id).1 :=
  .update rfl (fun _ => rfl) (fun _ => rfl) (fun _ => rfl) fun _ _ _ _ => Or.inl rfl

theorem setAdminToken_cases (h : db.setAdminToken id tokenHash = some db')
    (hadmin : db.IsAdmin id) :
    PrincipalsKept db db' ∧ db'.browserSessions = db.browserSessions := by
  simp only [setAdminToken] at h
  split at h
  · cases h
  · cases h
    refine ⟨.update rfl (fun _ => rfl) (fun _ => rfl) (fun _ => rfl) ?_, rfl⟩
    intro p _ hhit _
    exact Or.inr (beq_iff_eq.mp hhit ▸ hadmin)

theorem firstAdmin_isAdmin (h : db.firstAdmin = some id) : db.IsAdmin id := by
  obtain ⟨p, hp, rfl⟩ := Option.map_eq_some_iff.mp h
  have hmem := List.mem_mergeSort.mp (List.mem_of_head? hp)
  exact ⟨p, (List.mem_filter.mp hmem).1, rfl, (List.mem_filter.mp hmem).2⟩

theorem IsAdmin.kept (h : db.IsAdmin id) (hkept : PrincipalsKept db db') : db'.IsAdmin id := by
  obtain ⟨p, hp, rfl, hadmin⟩ := h
  obtain ⟨q, hq, hid, hqadmin, -⟩ := hkept.rows p hp
  exact ⟨q, hq, hid, hqadmin.trans hadmin⟩

theorem DisabledUser.kept (h : db.DisabledUser id) (hkept : PrincipalsKept db db') :
    db'.DisabledUser id := by
  obtain ⟨p, hp, rfl, hadmin, hdisabled⟩ := h
  obtain ⟨q, hq, hid, hqadmin, hflag⟩ := hkept.rows p hp
  refine ⟨q, hq, hid, hqadmin.trans hadmin, ?_⟩
  rcases hflag hdisabled with hq | ⟨r, hr, hrid, hradmin⟩
  · exact hq
  · have hsame : r = p := Table.eq_of_key hr hp hrid
    rw [hsame, hadmin] at hradmin
    cases hradmin

/-! ## What checks the flag -/

theorem lookupByToken_not_disabled {hashToken : String → String} {token : String} {x : Principal}
    (h : db.DisabledUser id) (hx : db.lookupByToken hashToken token = some x) : x.id ≠ id := by
  simp only [lookupByToken, Option.bind_eq_bind, Option.bind_eq_some_iff] at hx
  obtain ⟨p, hfind, hp⟩ := hx
  obtain ⟨hmem, -⟩ := Table.mem_of_find? hfind
  split at hp
  · cases hp
  · next hflag =>
    cases hp
    intro hid
    exact hflag (h.all hmem hid).2

theorem lookupBrowserAccessToken_not_disabled {hashToken : String → String} {token : String}
    {x : Principal} (h : db.DisabledUser id)
    (hx : db.lookupBrowserAccessToken hashToken token now = some x) : x.id ≠ id := by
  simp only [lookupBrowserAccessToken, Option.bind_eq_bind, Option.bind_eq_some_iff] at hx
  obtain ⟨t, -, p, hfind, hp⟩ := hx
  obtain ⟨hmem, -⟩ := Table.mem_of_find? hfind
  split at hp
  · cases hp
  · next hflag =>
    cases hp
    intro hid
    exact hflag (h.all hmem hid).2

theorem browserUser_not_disabled {hash : String} (h : db.DisabledUser id) :
    db.browserUser username ≠ .ok (some (id, hash)) := by
  intro huser
  unfold browserUser at huser
  split at huser
  · cases huser
  · next p hfind =>
    obtain ⟨hmem, hhit⟩ := Table.mem_of_find? hfind
    cases hhash : p.passwordHash with
    | none =>
      rw [hhash] at huser
      cases huser
    | some hash =>
      simp only [hhash, Option.elim_some, Except.ok.injEq, Option.some.injEq, Prod.mk.injEq] at huser
      simp [(h.all hmem huser.1).2] at hhit

theorem browserUser_of_disabled (h : db.DisabledUser id) (hu : db.UsernamesUnique)
    (hp : p ∈ db.principals.rows) (hid : p.id = id) (hname : p.username = some username) :
    db.browserUser username = .ok none := by
  have hnone : db.principals.find? (fun q => q.username == some username && !q.disabled) = none := by
    refine List.find?_eq_none.mpr ?_
    intro q hq hhit
    simp only [Bool.and_eq_true, beq_iff_eq, Bool.not_eq_true'] at hhit
    have hsame : q = p := hu q hq p hp username hhit.1 hname
    rw [hsame, (h.all hp hid).2] at hhit
    cases hhit.2
  unfold browserUser
  rw [hnone]

theorem selectSession_live (h : db.selectSession tokenHash csrfHash now = some id) :
    ∃ s ∈ db.browserSessions.rows, s.tokenHash = tokenHash ∧ s.principalId = id ∧
      now < s.expiresAt := by
  obtain ⟨s, hfind, rfl⟩ := Option.map_eq_some_iff.mp h
  obtain ⟨hs, hhit⟩ := Table.mem_of_find? hfind
  simp only [Bool.and_eq_true, beq_iff_eq, decide_eq_true_eq] at hhit
  exact ⟨s, hs, hhit.1.1, rfl, hhit.2⟩

end SystemDb

open SystemDb

namespace Browser

variable {cfg : AuthConfig} {hashToken : String → String}
  {verifyPassword : String → String → Bool} {c c' : Auth} {i : Nat} {t t' : Thread} {a : Act}
  {rq : Request} {now : Int}

/-! ## What a request on browser sessions does to principals and sessions -/

def Act.clock : Act → Option Int
  | .run draw => some draw.now
  | _ => none

/-- A login finds the principal, or a session of it has not expired. -/
def Granted (c : Auth) (now : Option Int) (id : String) : Prop :=
  (∃ username hash, c.db.browserUser username = .ok (some (id, hash))) ∨
  ∃ n ∈ now, ∃ s ∈ c.db.browserSessions.rows, s.principalId = id ∧ n < s.expiresAt

structure Issue (c c' : Auth) (t : Thread) (a : Act) (t' : Thread) : Prop where
  principals : PrincipalsKept c.db c'.db
  sessions : ∀ s ∈ c'.db.browserSessions.rows, s ∈ c.db.browserSessions.rows ∨
    ∃ sub ∈ t.subject, sub.principalId = s.principalId
  subject : ∀ sub ∈ t'.subject, sub ∈ t.subject ∨ Granted c a.clock sub.principalId

theorem subject_of_none (h : t'.subject = none) :
    ∀ sub ∈ t'.subject, sub ∈ t.subject ∨ Granted c a.clock sub.principalId := by
  simp [h]

theorem issue_of_same (hp : c'.db.principals = c.db.principals)
    (hs : ∀ s ∈ c'.db.browserSessions.rows, s ∈ c.db.browserSessions.rows)
    (hsub : ∀ sub ∈ t'.subject, sub ∈ t.subject ∨ Granted c a.clock sub.principalId) :
    Issue c c' t a t' where
  principals := .of_eq hp
  sessions s h := Or.inl (hs s h)
  subject := hsub

theorem start_issue {draw : Draw}
    (h : start hashToken verifyPassword c i draw.now rq = (c', t')) :
    Issue c c' (.running rq .start) (.run draw) t' := by
  rcases start_cases h with ⟨username, password, id, hash, rfl, huser, rfl, rfl⟩ |
    ⟨refresh, csrf, id, rfl, hsel, rfl, rfl⟩ | ⟨refresh, csrf, rfl, hrev, rfl, rfl⟩ |
    ⟨username, passwordHash, id, rfl, -, rfl, rfl⟩ | ⟨e, rfl, rfl⟩
  · refine issue_of_same rfl (fun _ h => h) ?_
    rintro _ ⟨⟩
    exact Or.inr (Or.inl ⟨username, hash, huser⟩)
  · obtain ⟨s, hs, -, hid, hlive⟩ := selectSession_live hsel
    refine issue_of_same rfl (fun _ h => h) ?_
    rintro _ ⟨⟩
    exact Or.inr (Or.inr ⟨draw.now, rfl, s, hs, hid, hlive⟩)
  · obtain ⟨-, hrows⟩ := revokeSession_hit hrev
    exact issue_of_same rfl (fun s hs => (hrows s hs).1) (subject_of_none rfl)
  · exact issue_of_same rfl (fun _ h => h) (subject_of_none rfl)
  · exact issue_of_same rfl (fun _ h => h) (subject_of_none rfl)

theorem next_issue (h : next cfg hashToken verifyPassword c i t a = some (c', t')) :
    Issue c c' t a t' := by
  rcases next_cases h with ⟨rq, rfl, rfl, rfl⟩ | ⟨rq, pc, draw, rfl, rfl, hstmt⟩ |
    ⟨rq, pc, e, rfl, rfl, rfl⟩
  · exact issue_of_same rfl (fun _ h => h) (subject_of_none rfl)
  · cases pc with
    | start => exact start_issue hstmt
    | deleteSession tokenHash subject =>
      cases hstmt
      exact issue_of_same rfl (fun _ hs => (deleteSession_mem hs).1) fun _ h => Or.inl h
    | purgeAccess subject =>
      cases hstmt
      exact issue_of_same rfl (fun _ h => h) fun _ h => Or.inl h
    | purgeSessions subject drawn =>
      cases hstmt
      exact issue_of_same rfl (fun _ h => (Table.mem_delete.mp h).1) fun _ h => Or.inl h
    | insertAccess subject drawn =>
      simp only [statement] at hstmt
      split at hstmt
      · cases hstmt
        exact issue_of_same rfl (fun _ h => h) (subject_of_none rfl)
      · next db hdb =>
        cases hstmt
        obtain ⟨table, -, rfl⟩ := insertAccessToken_cases hdb
        exact issue_of_same rfl (fun _ h => h) fun _ h => Or.inl h
    | insertSession subject drawn =>
      simp only [statement] at hstmt
      split at hstmt
      · cases hstmt
        exact issue_of_same rfl (fun _ h => h) (subject_of_none rfl)
      · next db hdb =>
        cases hstmt
        obtain ⟨table, htable, rfl⟩ := insertSession_cases hdb
        refine ⟨.of_eq rfl, ?_, subject_of_none rfl⟩
        intro s hs
        rcases (Table.mem_insert htable).mp hs with hs | rfl
        · exact Or.inl hs
        · exact Or.inr ⟨subject, rfl, rfl⟩
    | setPassword id passwordHash =>
      cases hstmt
      exact ⟨setPasswordHash_kept, fun _ h => Or.inl h, subject_of_none rfl⟩
    | revokeAccess id =>
      cases hstmt
      exact issue_of_same rfl (fun _ h => h) (subject_of_none rfl)
    | revokeSessions id =>
      cases hstmt
      exact issue_of_same rfl (fun _ h => (Table.mem_delete.mp h).1) (subject_of_none rfl)
  · exact issue_of_same rfl (fun _ h => h) (subject_of_none rfl)

end Browser

namespace Control

open Browser (AuthConfig Auth Subject)

variable {cfg : AuthConfig} {hashToken : String → String}
  {verifyPassword : String → String → Bool} {argon2 : String → String → Option String}
  {c c' : Auth} {i j : Nat} {t t' : Thread} {a : Act} {rq : Request} {db : SystemDb} {draw : Draw}
  {id : String}

/-! ## What a step does -/

def Thread.subject : Thread → Option Subject
  | .browser t => t.subject
  | _ => none

/-- The admin whose token a reset is about to replace. -/
def Thread.admin : Thread → Option String
  | .running _ (.setAdminToken id) => some id
  | _ => none

def Act.clock : Act → Option Int
  | .run draw => some draw.now
  | _ => none

structure Effect (c c' : Auth) (t : Thread) (a : Act) (t' : Thread) : Prop where
  principals : (∀ id ∈ t.admin, c.db.IsAdmin id) → PrincipalsKept c.db c'.db
  sessions : ∀ s ∈ c'.db.browserSessions.rows, s ∈ c.db.browserSessions.rows ∨
    ∃ sub ∈ t.subject, sub.principalId = s.principalId
  /-- The third case is a user that has just been created. -/
  subject : ∀ sub ∈ t'.subject, sub ∈ t.subject ∨ Browser.Granted c a.clock sub.principalId ∨
    ∀ p ∈ c.db.principals.rows, p.id ≠ sub.principalId
  admin : ∀ id ∈ t'.admin, c.db.IsAdmin id

theorem effect_of_kept (hp : PrincipalsKept c.db c'.db)
    (hs : c'.db.browserSessions = c.db.browserSessions) (hsub : t'.subject = none)
    (hadmin : t'.admin = none) : Effect c c' t a t' where
  principals _ := hp
  sessions s h := Or.inl (hs ▸ h)
  subject sub h := by simp [hsub] at h
  admin id h := by simp [hadmin] at h

theorem effect_of_same (hsub : t'.subject = none) (hadmin : t'.admin = none) :
    Effect c c t a t' :=
  effect_of_kept (.of_eq rfl) rfl hsub hadmin

theorem effect_of_issue {b b' : Browser.Thread} {x : Browser.Act} (hclock : x.clock = a.clock)
    (h : Browser.Issue c c' b x b') : Effect c c' (.browser b) a (.browser b') where
  principals _ := h.principals
  sessions := h.sessions
  subject sub hsub := by
    rcases h.subject sub hsub with h | h
    · exact Or.inl h
    · exact Or.inr (Or.inl (hclock ▸ h))
  admin := nofun

theorem insertPrincipal_effect {row : PrincipalRow} (h : c.db.insertPrincipal row = some db)
    (hsub : t'.subject = none) (hadmin : t'.admin = none) : Effect c { c with db } t a t' := by
  obtain ⟨⟨table, -, rfl⟩, -⟩ := insertPrincipal_cases h
  exact effect_of_kept (insertPrincipal_kept h) rfl hsub hadmin

theorem createBrowserUser_ok {username password : String}
    (h : createBrowserUser hashToken argon2 c.db draw username password = .ok db) :
    ∃ row : PrincipalRow, row.id = draw.id ∧ c.db.insertPrincipal row = some db := by
  simp only [createBrowserUser] at h
  split at h
  · cases h
  · split at h
    · cases h
    · split at h
      · cases h
      · next hinsert =>
        cases h
        exact ⟨_, rfl, hinsert⟩

theorem start_effect (h : start hashToken argon2 c draw rq = (c', t')) :
    Effect c c' (.running rq .start) a t' := by
  cases rq with
  | browser rq =>
    cases h
    exact effect_of_same rfl rfl
  | register username password =>
    simp only [start] at h
    split at h <;> cases h <;> exact effect_of_same rfl rfl
  | createPrincipal name isAdmin password =>
    cases password with
    | some password =>
      simp only [start] at h
      split at h
      · cases h
        exact effect_of_same rfl rfl
      · split at h
        · cases h
          exact effect_of_same rfl rfl
        · next db hdb =>
          cases h
          obtain ⟨row, -, hinsert⟩ := createBrowserUser_ok hdb
          exact insertPrincipal_effect hinsert rfl rfl
    | none =>
      simp only [start] at h
      split at h
      · cases h
        exact effect_of_same rfl rfl
      · next db hdb =>
        cases h
        exact insertPrincipal_effect hdb rfl rfl
  | disable id =>
    have hkept : PrincipalsKept c.db (c.db.disablePrincipal id).1 := disablePrincipal_kept
    simp only [start] at h
    split at h
    · next db hdb =>
      cases h
      rw [hdb] at hkept
      refine effect_of_kept hkept ?_ rfl rfl
      exact congrArg (·.1.browserSessions) hdb.symm
    · next db hdb =>
      cases h
      rw [hdb] at hkept
      refine effect_of_kept hkept ?_ rfl rfl
      exact congrArg (·.1.browserSessions) hdb.symm
  | resetAdminToken =>
    simp only [start] at h
    split at h
    · next id hid =>
      cases h
      refine ⟨fun _ => .of_eq rfl, fun _ h => Or.inl h, nofun, ?_⟩
      rintro _ ⟨⟩
      exact firstAdmin_isAdmin hid
    · cases h
      exact effect_of_same rfl rfl

theorem statement_effect {pc : Pc} (h : statement hashToken argon2 c i rq draw pc = (c', t')) :
    Effect c c' (.running rq pc) a t' := by
  cases pc with
  | start => exact start_effect h
  | createUser username password =>
    simp only [statement] at h
    split at h
    · cases h
      exact effect_of_same rfl rfl
    · next db hdb =>
      cases h
      obtain ⟨row, hid, hinsert⟩ := createBrowserUser_ok hdb
      obtain ⟨⟨table, -, rfl⟩, -⟩ := insertPrincipal_cases hinsert
      refine ⟨fun _ => insertPrincipal_kept hinsert, fun _ h => Or.inl h, ?_, nofun⟩
      rintro _ ⟨⟩
      exact Or.inr (Or.inr (hid ▸ insertPrincipal_fresh hinsert))
  | setAdminToken id =>
    simp only [statement] at h
    split at h
    · cases h
      exact effect_of_same rfl rfl
    · next db hdb =>
      cases h
      refine ⟨fun hadmin => (setAdminToken_cases hdb (hadmin id rfl)).1, ?_, nofun, nofun⟩
      intro s hs
      simp only [SystemDb.setAdminToken] at hdb
      split at hdb
      · cases hdb
      · cases hdb
        exact Or.inl hs
  | createAdmin =>
    simp only [statement] at h
    split at h
    · cases h
      exact effect_of_same rfl rfl
    · next db hdb =>
      cases h
      exact insertPrincipal_effect hdb rfl rfl

theorem failure_effect {pc : Pc} : Effect c c t a (failure rq pc) := by
  unfold failure
  split <;> exact effect_of_same rfl rfl

theorem next_effect (h : next cfg hashToken verifyPassword argon2 c i t a = some (c', t')) :
    Effect c c' t a t' := by
  unfold next at h
  split at h
  · cases h
    exact effect_of_same rfl rfl
  · cases h
    exact effect_of_same rfl rfl
  · obtain ⟨r, hr, hlift⟩ := Option.map_eq_some_iff.mp h
    cases hlift
    exact effect_of_issue rfl (Browser.next_issue hr)
  · obtain ⟨r, hr, hlift⟩ := Option.map_eq_some_iff.mp h
    cases hlift
    exact effect_of_issue rfl (Browser.next_issue hr)
  · obtain ⟨r, hr, hlift⟩ := Option.map_eq_some_iff.mp h
    cases hlift
    exact effect_of_issue rfl (Browser.next_issue hr)
  · exact statement_effect (Option.some.inj h)
  · cases h
    exact failure_effect
  · cases h
    exact effect_of_same rfl rfl
  · cases h

/-! ## Invariants -/

def ResetsAdmin (c : Auth) (t : Thread) : Prop := ∀ id ∈ t.admin, c.db.IsAdmin id

theorem control_keeps (cfg : AuthConfig) (hashToken : String → String)
    (verifyPassword : String → String → Bool) (argon2 : String → String → Option String) :
    Keeps (next cfg hashToken verifyPassword argon2) (fun _ _ _ _ => True)
      (fun (_ : Unit) c => c.db.UsernamesUnique) (fun _ c _ t => ResetsAdmin c t) := by
  rintro - c i t a c' t' hu hown - hnext
  have he := next_effect hnext
  have hkept := he.principals hown
  refine ⟨(), hkept.usernames hu, ?_, ?_⟩
  · intro id hid
    exact (he.admin id hid).kept hkept
  · intro j q _ hq id hid
    exact (hq id hid).kept hkept

theorem boot_asserted : Asserted (fun (_ : Unit) (c : Auth) => c.db.UsernamesUnique)
    (fun _ c _ t => ResetsAdmin c t) System.boot :=
  ⟨(), nofun, fun _ => nofun⟩

/-- The principal is disabled, and none of its sessions lives on after `since`. -/
structure Out (id : String) (since : Int) (c : Auth) : Prop where
  usernames : c.db.UsernamesUnique
  disabled : c.db.DisabledUser id
  sessions : ∀ s ∈ c.db.browserSessions.rows, s.principalId = id → s.expiresAt ≤ since

structure OutAssertion (id : String) (c : Auth) (t : Thread) : Prop where
  admin : ResetsAdmin c t
  subject : ∀ sub ∈ t.subject, sub.principalId ≠ id

/-- The clock does not read an earlier time. -/
def clockFrom (since : Int) (_ : Auth) (_ : Nat) (_ : Thread) (a : Act) : Prop :=
  ∀ now ∈ a.clock, since ≤ now

theorem Out.not_granted {now : Option Int} {since : Int} (h : Out id since c)
    (hclock : ∀ n ∈ now, since ≤ n) : ¬Browser.Granted c now id := by
  rintro (⟨username, hash, huser⟩ | ⟨n, hn, s, hs, hid, hlive⟩)
  · exact browserUser_not_disabled h.disabled huser
  · have := h.sessions s hs hid
    have := hclock n hn
    omega

theorem out_keeps (cfg : AuthConfig) (hashToken : String → String)
    (verifyPassword : String → String → Bool) (argon2 : String → String → Option String)
    (id : String) (since : Int) :
    Keeps (next cfg hashToken verifyPassword argon2) (clockFrom since)
      (fun (_ : Unit) c => Out id since c) (fun _ c _ t => OutAssertion id c t) := by
  rintro - c i t a c' t' hout ⟨hadmin, hsubject⟩ hclock hnext
  have he := next_effect hnext
  have hkept := he.principals hadmin
  refine ⟨(), ⟨hkept.usernames hout.usernames, hout.disabled.kept hkept, ?_⟩, ⟨?_, ?_⟩, ?_⟩
  · rintro s hs rfl
    rcases he.sessions s hs with hs | ⟨sub, hsub, hid⟩
    · exact hout.sessions s hs rfl
    · exact absurd hid (hsubject sub hsub)
  · intro k hk
    exact (he.admin k hk).kept hkept
  · rintro sub hsub rfl
    rcases he.subject sub hsub with h | h | h
    · exact hsubject sub h rfl
    · exact hout.not_granted hclock h
    · obtain ⟨p, hp, hid, -⟩ := hout.disabled
      exact h p hp hid
  · rintro j q - ⟨hq, hqsub⟩
    exact ⟨fun k hk => (hq k hk).kept hkept, hqsub⟩

/-! ## After the disable -/

/-- No entry lets the principal in at a time from `since` on, and none of them changes a thing. -/
structure Refused (hashToken : String → String) (verifyPassword : String → String → Bool)
    (id : String) (since : Int) (c : Auth) : Prop where
  token : ∀ token p, c.db.lookupByToken hashToken token = some p → p.id ≠ id
  access : ∀ token now p, c.db.lookupBrowserAccessToken hashToken token now = some p → p.id ≠ id
  login : ∀ p ∈ c.db.principals.rows, p.id = id → ∀ username, p.username = some username →
    ∀ password self now, Browser.start hashToken verifyPassword c self now
      (.login username password) = (c, .done (.login username password) Browser.badLogin)
  refresh : ∀ s ∈ c.db.browserSessions.rows, s.principalId = id →
    ∀ refresh csrf self now, since ≤ now → hashToken refresh = s.tokenHash →
      Browser.start hashToken verifyPassword c self now (.refresh refresh csrf) =
        (c, .done (.refresh refresh csrf) Browser.badSession)

theorem Out.refused {since : Int} (h : Out id since c) :
    Refused hashToken verifyPassword id since c where
  token _ _ hp := lookupByToken_not_disabled h.disabled hp
  access _ _ _ hp := lookupBrowserAccessToken_not_disabled h.disabled hp
  login p hp hid username hname password self now := by
    simp only [Browser.start, browserUser_of_disabled h.disabled h.usernames hp hid hname]
  refresh s hs hid refresh csrf self now hnow htoken := by
    cases hsel : c.db.selectSession (hashToken refresh) (hashToken csrf) now with
    | none => simp only [Browser.start, hsel]
    | some k =>
      obtain ⟨r, hr, hrtoken, -, hlive⟩ := selectSession_live hsel
      have hsame : r = s := Table.eq_of_key hr hs (hrtoken.trans htoken)
      have := h.sessions s hs hid
      rw [hsame] at hlive
      omega

/-- No session of the principal lives on after `since`, and no request is about to give it one. -/
structure Quiet (id : String) (since : Int) (s : System) : Prop where
  sessions : ∀ r ∈ s.shared.db.browserSessions.rows, r.principalId = id → r.expiresAt ≤ since
  threads : ∀ j, ∀ sub ∈ (s.threads j).subject, sub.principalId ≠ id

theorem disable_out {since : Int} {s s' : System} (hquiet : Quiet id since s)
    (hb : Asserted (fun (_ : Unit) c => c.db.UsernamesUnique) (fun _ c _ t => ResetsAdmin c t) s)
    {p : PrincipalRow} (hp : p ∈ s.shared.db.principals.rows) (hid : p.id = id)
    (hadmin : p.isAdmin = false) (hi : s.threads i = .running (.disable id) .start)
    (hstep : Threads.step (next cfg hashToken verifyPassword argon2) s (i, .run draw) = some s')
    (hdone : s'.threads i = .done (.disable id) .noContent) :
    Asserted (fun (_ : Unit) c => Out id since c) (fun _ c _ t => OutAssertion id c t) s' := by
  obtain ⟨_, hu, ha⟩ := hb
  obtain ⟨c', t', hnext, rfl⟩ := step_cases hstep
  rw [hi] at hnext
  have hkept : PrincipalsKept s.shared.db (s.shared.db.disablePrincipal id).1 := disablePrincipal_kept
  have hflag : (s.shared.db.disablePrincipal id).1.DisabledUser id := by
    refine ⟨{ p with disabled := true }, ?_, hid, hadmin, rfl⟩
    exact List.mem_map.mpr ⟨p, hp, by simp [hid]⟩
  have hc : c' = { s.shared with db := (s.shared.db.disablePrincipal id).1 } ∧ t'.subject = none ∧
      t'.admin = none := by
    simp only [next, statement, start, Option.some.injEq] at hnext
    split at hnext
    · next db hdb =>
      cases hnext
      rw [hdb]
      exact ⟨rfl, rfl, rfl⟩
    · cases hnext
      simp at hdone
  obtain ⟨rfl, hsub, hnone⟩ := hc
  refine ⟨(), ⟨hkept.usernames hu, hflag, hquiet.sessions⟩, ?_⟩
  intro j
  by_cases hj : j = i
  · subst hj
    simp only [Function.update_self]
    exact ⟨fun k hk => by simp [hnone] at hk, fun sub h => by simp [hsub] at h⟩
  · simp only [Function.update_of_ne hj]
    exact ⟨fun k hk => (ha j k hk).kept hkept, hquiet.threads j⟩

/-- A disabled principal is refused everywhere, in every run after the disable, when no session of
it was left and none was on its way. -/
theorem disabled_refused (cfg : AuthConfig) (hashToken : String → String)
    (verifyPassword : String → String → Bool) (argon2 : String → String → Option String)
    (s₀ s₁ s : System) (i : Nat) (draw : Draw) (id : String) (p : PrincipalRow) (since : Int)
    (h₀ : Reach (Threads.step (next cfg hashToken verifyPassword argon2)) anyStep System.boot s₀)
    (hp : p ∈ s₀.shared.db.principals.rows) (hid : p.id = id) (hadmin : p.isAdmin = false)
    (hi : s₀.threads i = .running (.disable id) .start)
    (hstep : Threads.step (next cfg hashToken verifyPassword argon2) s₀ (i, .run draw) = some s₁)
    (hdone : s₁.threads i = .done (.disable id) .noContent) (hquiet : Quiet id since s₀)
    (h : Reach (Threads.step (next cfg hashToken verifyPassword argon2)) (moving (clockFrom since))
      s₁ s) :
    Refused hashToken verifyPassword id since s.shared := by
  have hb := Asserted.run (control_keeps cfg hashToken verifyPassword argon2) boot_asserted
    (h₀.mono fun _ _ _ => trivial)
  obtain ⟨_, hout, -⟩ := Asserted.run (out_keeps cfg hashToken verifyPassword argon2 id since)
    (disable_out hquiet hb hp hid hadmin hi hstep hdone) h
  exact hout.refused

/-! ## Runs -/

open Browser (ttls hashed verified)

def argon2id (_ password : String) : Option String := some (hashed password)

def drawn (n : String) : Draw where
  toDraw := Browser.drawn n
  id := "01" ++ n
  token := "t" ++ n
  salt := "s" ++ n
  registrationEnabled := true

def runs (i k : Nat) (n : String) : List (Nat × Act) := List.replicate k (i, .run (drawn n))

def registered : List (Nat × Act) :=
  (0, .arrive (.register "alice" "long enough 1")) :: runs 0 6 "A"

/-- Alice registers and is disabled, and her session is refreshed. The answer of the refresh is
refreshed in turn. -/
def disabledRun : List (Nat × Act) :=
  registered ++ [(1, .arrive (.disable "01A"))] ++ runs 1 1 "B" ++
    [(2, .arrive (.browser (.refresh "rA" "cA")))] ++ runs 2 6 "C" ++
    [(3, .arrive (.browser (.refresh "rC" "cC")))] ++ runs 3 6 "D"

theorem disabled_refreshes :
    ∃ s, exec (Threads.step (next ttls hashed verified argon2id)) System.boot disabledRun = some s ∧
      s.threads 1 = .done (.disable "01A") .noContent ∧
      s.shared.db.principals.rows.map (fun p => (p.id, p.isAdmin, p.disabled)) =
        [("01A", false, true)] ∧
      s.threads 2 = .browser (.done (.refresh "rA" "cA") (.tokens "aC" "rC" "cC")) ∧
      s.threads 3 = .browser (.done (.refresh "rC" "cC") (.tokens "aD" "rD" "cD")) ∧
      s.shared.db.browserSessions.rows.map (fun r => (r.tokenHash, r.principalId)) =
        [(hashed "rD", "01A")] :=
  ⟨_, rfl, rfl, rfl, rfl, rfl, rfl⟩

/-- Alice logs out before she is disabled. -/
def loggedOut : List (Nat × Act) :=
  registered ++ [(1, .arrive (.browser (.logout "rA" "cA")))] ++ runs 1 1 "B" ++
    [(2, .arrive (.disable "01A"))]

def loginAgain : List (Nat × Act) :=
  [(3, .arrive (.browser (.login "alice" "long enough 1"))), (3, .run (drawn "D"))]

theorem disabled_refused_loggedOut :
    ∃ s₀ s₁ s, exec (Threads.step (next ttls hashed verified argon2id)) System.boot loggedOut =
        some s₀ ∧
      Threads.step (next ttls hashed verified argon2id) s₀ (2, .run (drawn "C")) = some s₁ ∧
      exec (Threads.step (next ttls hashed verified argon2id)) s₁ loginAgain = some s ∧
      Refused hashed verified "01A" 0 s.shared := by
  let act := Threads.step (next ttls hashed verified argon2id)
  obtain ⟨s₀, h₀, hrow, hi, hquiet, s₁, h₁, hdone, s, h⟩ :
      ∃ s₀, exec act System.boot loggedOut = some s₀ ∧
        (∃ p ∈ s₀.shared.db.principals.rows, p.id = "01A" ∧ p.isAdmin = false) ∧
        s₀.threads 2 = .running (.disable "01A") .start ∧ Quiet "01A" 0 s₀ ∧
        ∃ s₁, act s₀ (2, .run (drawn "C")) = some s₁ ∧
          s₁.threads 2 = .done (.disable "01A") .noContent ∧
          ∃ s, exec act s₁ loginAgain = some s := by
    refine ⟨_, rfl, ⟨_, .head _, rfl, rfl⟩, rfl, ⟨nofun, ?_⟩, _, rfl, rfl, _, rfl⟩
    intro j
    match j with
    | 0 | 1 | 2 | j + 3 => nofun
  have hafter : Allowed act (moving (clockFrom 0)) s₁ loginAgain := by
    refine ⟨nofun, fun t _ => ⟨?_, fun _ _ => trivial⟩⟩
    rintro _ ⟨⟩
    decide
  obtain ⟨p, hp, hid, hadmin⟩ := hrow
  exact ⟨s₀, s₁, s, h₀, h₁, h, disabled_refused ttls hashed verified argon2id s₀ s₁ s 2 (drawn "C")
    "01A" p 0 (.of_exec loggedOut (.any _ _) h₀) hp hid hadmin hi h₁ hdone hquiet
    (.of_exec loginAgain hafter h)⟩

end Control

end TinyLord
