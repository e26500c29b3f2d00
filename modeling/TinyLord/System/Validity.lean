import TinyLord.Lib.History
import TinyLord.System.Calls
import TinyLord.System.Disable

/-!
# How long a browser credential is valid

A log of what the calls have granted and ended says which credentials are valid. The two tables
hold just these, and perhaps some that have expired.
-/

open Lib Lib.History Lib.Run

namespace TinyLord.Calls

open Browser (AuthConfig Draw)

/-! ## The statement -/

def generated (log : List Event) : List String :=
  log.flatMap fun e =>
    match e with
    | .issued _ tokens _ => [tokens.access, tokens.refresh, tokens.csrf]
    | _ => []

/-- All tokens generated so far, and the three of the draw, have different hashes. -/
def Fresh (hashToken : String → String) (log : List Event) (draw : Draw) : Prop :=
  (([draw.access, draw.refresh, draw.csrf] ++ generated log).map hashToken).Nodup

/-- The clock does not go backwards, and what is generated is fresh. -/
def orderly (hashToken : String → String) (s : State) (call : Call) : Prop :=
  (s.clock :: call.readings).Pairwise (· ≤ ·) ∧ ∀ draw ∈ call.draw, Fresh hashToken s.log draw

/-- The token has the hash of no other token. -/
def Unmistaken (hashToken : String → String) (log : List Event) (token : String) : Prop :=
  ∀ x ∈ generated log, hashToken x = hashToken token → x = token

instance {hashToken : String → String} {log : List Event} {draw : Draw} :
    Decidable (Fresh hashToken log draw) :=
  inferInstanceAs (Decidable (List.Nodup _))

instance {hashToken : String → String} {s : State} {call : Call} :
    Decidable (orderly hashToken s call) :=
  inferInstanceAs (Decidable (_ ∧ _))

instance {hashToken : String → String} {log : List Event} {token : String} :
    Decidable (Unmistaken hashToken log token) :=
  inferInstanceAs (Decidable (∀ x ∈ generated log, _))

def Enabled (db : SystemDb) (id : String) : Prop :=
  ∃ p ∈ db.principals.rows, p.id = id ∧ p.disabled = false

def AccessAccepted (hashToken : String → String) (db : SystemDb) (token : String) (t : Int)
    (id : String) : Prop :=
  ∃ p, db.lookupBrowserAccessToken hashToken token t = some p ∧ p.id = id

def Rotated (cfg : AuthConfig) (hashToken : String → String) (db : SystemDb)
    (refresh csrf : String) (t : Int) (draw : Draw) (id : String) : Prop :=
  ∃ tokens, (rotateBrowserSession cfg hashToken db refresh csrf t draw).2 = .ok (some (id, tokens))

/-- The two DELETEs that every issue begins with. -/
def purged (db : SystemDb) (now : Int) : SystemDb :=
  (db.deleteExpiredAccessTokens now).deleteExpiredSessions now

/-- A state with no credentials, and any principals. -/
def State.start (db : SystemDb) (clock : Int) : State where
  db := { db with browserAccessTokens := .empty, browserSessions := .empty }
  clock := clock
  log := []

/-! ## The tables and the log -/

section

variable (cfg : AuthConfig) (hashToken : String → String)

def accessOf : Event → Option AccessTokenRow
  | .issued id tokens time =>
    some
      { tokenHash := hashToken tokens.access
        principalId := id
        expiresAt := time + cfg.accessTokenTtlSecs * 1000 }
  | _ => none

def sessionOf : Event → Option SessionRow
  | .issued id tokens time =>
    some
      { tokenHash := hashToken tokens.refresh
        principalId := id
        csrfHash := hashToken tokens.csrf
        expiresAt := time + cfg.refreshTokenTtlSecs * 1000
        createdAt := time }
  | _ => none

def endsAccess (row : AccessTokenRow) (e : Event) : Prop := e = .reset row.principalId

def endsSession (row : SessionRow) (e : Event) : Prop :=
  e = .taken row.tokenHash ∨ e = .reset row.principalId

structure Inv (db : SystemDb) (log : List Event) (clock : Int) : Prop where
  access : Backed (accessOf cfg hashToken) endsAccess (·.expiresAt) log clock
    db.browserAccessTokens.rows
  session : Backed (sessionOf cfg hashToken) endsSession (·.expiresAt) log clock
    db.browserSessions.rows

end

variable {cfg : AuthConfig} {hashToken : String → String}
  {verifyPassword : String → String → Bool} {argon2 : String → String → Option String}
  {db db' : SystemDb} {log : List Event} {clock clock' now t : Int} {draw : Draw} {id : String}
  {s s' : State} {call : Call} {refresh csrf token : String}

theorem Inv.tick (h : Inv cfg hashToken db log clock) (hle : clock ≤ clock') :
    Inv cfg hashToken db log clock' :=
  ⟨h.access.tick hle, h.session.tick hle⟩

theorem Inv.same (h : Inv cfg hashToken db log clock)
    (haccess : db'.browserAccessTokens = db.browserAccessTokens)
    (hsession : db'.browserSessions = db.browserSessions) : Inv cfg hashToken db' log clock :=
  ⟨haccess ▸ h.access, hsession ▸ h.session⟩

/-! ## The issue -/

theorem Fresh.ne {x d : String} (h : Fresh hashToken log draw)
    (hd : d ∈ [draw.access, draw.refresh, draw.csrf]) (hx : x ∈ generated log) :
    hashToken x ≠ hashToken d := by
  rw [Fresh, List.map_append, List.nodup_append] at h
  exact (h.2.2 _ (List.mem_map_of_mem hd) _ (List.mem_map_of_mem hx)).symm

theorem accessOf_eq {e : Event} {row : AccessTokenRow} (h : accessOf cfg hashToken e = some row) :
    ∃ id tokens time, e = .issued id tokens time ∧ row =
      ⟨hashToken tokens.access, id, time + cfg.accessTokenTtlSecs * 1000⟩ := by
  cases e <;> cases h
  exact ⟨_, _, _, rfl, rfl⟩

theorem sessionOf_eq {e : Event} {row : SessionRow} (h : sessionOf cfg hashToken e = some row) :
    ∃ id tokens time, e = .issued id tokens time ∧ row =
      ⟨hashToken tokens.refresh, id, hashToken tokens.csrf,
        time + cfg.refreshTokenTtlSecs * 1000, time⟩ := by
  cases e <;> cases h
  exact ⟨_, _, _, rfl, rfl⟩

theorem issued_generated {tokens : Tokens} {time : Int} (h : .issued id tokens time ∈ log) :
    ∀ x ∈ [tokens.access, tokens.refresh, tokens.csrf], x ∈ generated log :=
  fun _ hx => List.mem_flatMap.mpr ⟨_, h, hx⟩

theorem access_fresh (h : Inv cfg hashToken db log clock) (hfresh : Fresh hashToken log draw) :
    ∀ row ∈ db.browserAccessTokens.rows, row.tokenHash ≠ hashToken draw.access := by
  intro row hrow
  obtain ⟨e, he, hsince⟩ := h.access.sound row hrow
  obtain ⟨id, tokens, time, rfl, rfl⟩ := accessOf_eq he
  exact hfresh.ne (by simp) (issued_generated hsince.mem _ (by simp))

theorem session_fresh (h : Inv cfg hashToken db log clock) (hfresh : Fresh hashToken log draw) :
    ∀ row ∈ db.browserSessions.rows, row.tokenHash ≠ hashToken draw.refresh := by
  intro row hrow
  obtain ⟨e, he, hsince⟩ := h.session.sound row hrow
  obtain ⟨id, tokens, time, rfl, rfl⟩ := sessionOf_eq he
  exact hfresh.ne (by simp) (issued_generated hsince.mem _ (by simp))

theorem Inv.purged (h : Inv cfg hashToken db log clock) (hle : now ≤ clock) :
    Inv cfg hashToken (purged db now) log clock := by
  constructor
  · refine h.access.purge hle ?_
    simp [Calls.purged, SystemDb.deleteExpiredAccessTokens, SystemDb.deleteExpiredSessions]
  · refine h.session.purge hle ?_
    simp [Calls.purged, SystemDb.deleteExpiredAccessTokens, SystemDb.deleteExpiredSessions]

theorem issue_spec (h : Inv cfg hashToken db log clock) (hclock : clock ≤ draw.now)
    (hfresh : Fresh hashToken log draw) (id : String) :
    ∃ db', issueBrowserTokens cfg hashToken db id draw =
        (db', some ⟨draw.access, draw.refresh, draw.csrf⟩) ∧
      Inv cfg hashToken db'
        (log ++ [.issued id ⟨draw.access, draw.refresh, draw.csrf⟩ draw.now]) draw.now := by
  have hpurged := (h.tick hclock).purged (le_refl draw.now)
  obtain ⟨accessTable, haccess⟩ := Table.exists_insert
    (t := (purged db draw.now).browserAccessTokens)
    (r := ⟨hashToken draw.access, id, draw.now + cfg.accessTokenTtlSecs * 1000⟩)
    (access_fresh hpurged hfresh)
  obtain ⟨sessionTable, hsession⟩ := Table.exists_insert (t := (purged db draw.now).browserSessions)
    (r := ⟨hashToken draw.refresh, id, hashToken draw.csrf,
      draw.now + cfg.refreshTokenTtlSecs * 1000, draw.now⟩)
    (session_fresh hpurged hfresh)
  refine ⟨{ purged db draw.now with
    browserAccessTokens := accessTable, browserSessions := sessionTable }, ?_, ?_, ?_⟩
  · simp only [issueBrowserTokens, SystemDb.insertAccessToken, SystemDb.insertSession]
    rw [← Calls.purged, haccess]
    simp only [Option.map_some]
    rw [hsession]
    rfl
  · refine hpurged.access.record ?_
    intro row
    rw [Table.mem_insert haccess]
    simp [accessOf, endsAccess, or_comm, eq_comm]
  · refine hpurged.session.record ?_
    intro row
    rw [Table.mem_insert hsession]
    simp [sessionOf, endsSession, or_comm, eq_comm]

/-! ## The other calls -/

theorem generated_taken {tokenHash : String} :
    generated (log ++ [.taken tokenHash]) = generated log := by
  simp [generated]

theorem taken_spec (h : Inv cfg hashToken db log clock) {tokenHash : String}
    (haccess : db'.browserAccessTokens = db.browserAccessTokens)
    (hmem : ∀ row, row ∈ db'.browserSessions.rows ↔
      row ∈ db.browserSessions.rows ∧ row.tokenHash ≠ tokenHash) :
    Inv cfg hashToken db' (log ++ [.taken tokenHash]) clock := by
  constructor
  · rw [haccess]
    refine h.access.record ?_
    simp [accessOf, endsAccess]
  · refine h.session.record ?_
    intro row
    rw [hmem]
    simp [sessionOf, endsSession, eq_comm]

theorem reset_spec (h : Inv cfg hashToken db log clock) (id passwordHash : String) :
    Inv cfg hashToken
      (((db.setPasswordHash id passwordHash).deleteAccessTokensOf id).deleteSessionsOf id)
      (log ++ [.reset id]) clock := by
  constructor
  · refine h.access.record ?_
    intro row
    have hends : endsAccess row (.reset id) ↔ row.principalId = id := by
      rw [endsAccess, Event.reset.injEq, eq_comm]
    simp [accessOf, hends, SystemDb.deleteAccessTokensOf, SystemDb.deleteSessionsOf,
      SystemDb.setPasswordHash]
  · refine h.session.record ?_
    intro row
    have hends : endsSession row (.reset id) ↔ row.principalId = id := by
      simp only [endsSession, reduceCtorEq, false_or, Event.reset.injEq]
      exact eq_comm
    simp [sessionOf, hends, SystemDb.deleteAccessTokensOf, SystemDb.deleteSessionsOf,
      SystemDb.setPasswordHash]

theorem mem_revokeSession {tokenHash csrfHash : String}
    (h : (db.revokeSession tokenHash csrfHash).2 = true) (row : SessionRow) :
    row ∈ (db.revokeSession tokenHash csrfHash).1.browserSessions.rows ↔
      row ∈ db.browserSessions.rows ∧ row.tokenHash ≠ tokenHash := by
  constructor
  · exact (SystemDb.revokeSession_hit h).2 row
  · rintro ⟨hrow, hne⟩
    simp [SystemDb.revokeSession, hrow, hne]

theorem rotate_cases (h : Inv cfg hashToken db log clock) (hnow : clock ≤ now)
    (hdraw : now ≤ draw.now) (hfresh : Fresh hashToken log draw) (refresh csrf : String) :
    (∃ id db' tokens, db.selectSession (hashToken refresh) (hashToken csrf) now = some id ∧
      rotateBrowserSession cfg hashToken db refresh csrf now draw = (db', .ok (some (id, tokens))) ∧
      Inv cfg hashToken db' (log ++ [.taken (hashToken refresh), .issued id tokens draw.now])
        draw.now) ∨
    (db.selectSession (hashToken refresh) (hashToken csrf) now = none ∧
      rotateBrowserSession cfg hashToken db refresh csrf now draw = (db, .ok none)) := by
  unfold rotateBrowserSession
  cases hsel : db.selectSession (hashToken refresh) (hashToken csrf) now with
  | none => exact Or.inr ⟨rfl, rfl⟩
  | some id =>
    have htaken : Inv cfg hashToken (db.deleteSession (hashToken refresh))
        (log ++ [.taken (hashToken refresh)]) clock := by
      refine taken_spec h rfl ?_
      simp [SystemDb.deleteSession]
    have hfresh' : Fresh hashToken (log ++ [.taken (hashToken refresh)]) draw := by
      rw [Fresh, generated_taken]
      exact hfresh
    obtain ⟨db', hissue, hinv⟩ := issue_spec htaken (hnow.trans hdraw) hfresh' id
    refine Or.inl ⟨id, db', ⟨draw.access, draw.refresh, draw.csrf⟩, rfl, by simp only [hissue], ?_⟩
    rw [List.append_assoc] at hinv
    exact hinv

theorem createBrowserUser_tables {user : Control.Draw} {username password : String}
    (h : Control.createBrowserUser hashToken argon2 db user username password = .ok db') :
    db'.browserAccessTokens = db.browserAccessTokens ∧
      db'.browserSessions = db.browserSessions := by
  obtain ⟨row, -, hrow⟩ := Control.createBrowserUser_ok (c := (Browser.System.boot db).shared) h
  obtain ⟨⟨table, -, rfl⟩, -⟩ := SystemDb.insertPrincipal_cases hrow
  exact ⟨rfl, rfl⟩

/-! ## Runs -/

theorem step_inv (h : Inv cfg hashToken s.db s.log s.clock) (hok : orderly hashToken s call)
    (hstep : step cfg hashToken verifyPassword argon2 s call = some s') :
    Inv cfg hashToken s'.db s'.log s'.clock := by
  cases hstep
  obtain ⟨hclock, hfresh⟩ := hok
  cases call with
  | login username password draw =>
    have hle : s.clock ≤ draw.now := by simpa [Call.readings] using hclock
    have hsame := h.tick hle
    simp only [perform, Call.readings]
    split
    · simpa [events] using hsame
    · simpa [events, badLogin] using hsame
    · next id hash _ =>
      split
      · obtain ⟨db', hissue, hinv⟩ := issue_spec h hle (hfresh draw rfl) id
        rw [hissue]
        exact hinv
      · simpa [events, badLogin] using hsame
  | register username password user draw =>
    have hle : s.clock ≤ draw.now := by
      simp only [Call.readings, List.pairwise_cons, List.mem_cons, List.not_mem_nil,
        or_false] at hclock
      exact hclock.1 _ (Or.inr rfl)
    have hsame := h.tick hle
    simp only [perform, Call.readings]
    split
    · split
      · simpa [events] using hsame
      · next db hdb =>
        obtain ⟨haccess, hsession⟩ := createBrowserUser_tables hdb
        obtain ⟨db', hissue, hinv⟩ :=
          issue_spec (h.same haccess hsession) hle (hfresh draw rfl) user.id
        rw [hissue]
        exact hinv
    · simpa [events] using hsame
  | refresh refresh csrf now draw =>
    simp only [Call.readings, List.pairwise_cons, List.mem_cons, List.not_mem_nil,
      or_false] at hclock
    have hnow : s.clock ≤ now := hclock.1 _ (Or.inl rfl)
    have hdraw : now ≤ draw.now := hclock.2.1 _ rfl
    simp only [perform, Call.readings]
    rcases rotate_cases h hnow hdraw (hfresh draw rfl) refresh csrf with
      ⟨id, db', tokens, -, hrotate, hinv⟩ | ⟨-, hrotate⟩
    · rw [hrotate]
      exact hinv
    · rw [hrotate]
      simpa [events, badSession] using h.tick (hnow.trans hdraw)
  | logout refresh csrf =>
    simp only [perform, Call.readings]
    split
    · next db hrevoke =>
      have hhit : (s.db.revokeSession (hashToken refresh) (hashToken csrf)).2 = true := by
        rw [hrevoke]
      have hmem := mem_revokeSession hhit
      rw [hrevoke] at hmem
      exact taken_spec h (congrArg (·.1.browserAccessTokens) hrevoke).symm hmem
    · next db hrevoke =>
      have hmiss := SystemDb.revokeSession_missed (congrArg (·.2) hrevoke)
      rw [hrevoke] at hmiss
      cases hmiss
      simpa [events, badSession] using h
  | resetPassword username passwordHash =>
    simp only [perform, Call.readings, resetBrowserPassword]
    cases s.db.resettableUser username with
    | none => simpa [events] using h
    | some id => exact reset_spec h id passwordHash
  | disable id =>
    have hnone : ∀ answer, events hashToken (.disable id) answer = [] := by
      intro answer
      cases answer <;> rfl
    simp only [perform, Call.readings, hnone, List.append_nil]
    split
    · next db hdisable =>
      exact h.same (congrArg (·.1.browserAccessTokens) hdisable).symm
        (congrArg (·.1.browserSessions) hdisable).symm
    · next db hdisable =>
      exact h.same (congrArg (·.1.browserAccessTokens) hdisable).symm
        (congrArg (·.1.browserSessions) hdisable).symm

theorem start_inv (db : SystemDb) (clock : Int) :
    Inv cfg hashToken (State.start db clock).db (State.start db clock).log clock :=
  ⟨.empty, .empty⟩

theorem run_inv {db : SystemDb} {clock : Int}
    (h : Reach (step cfg hashToken verifyPassword argon2) (orderly hashToken)
      (State.start db clock) s) : Inv cfg hashToken s.db s.log s.clock :=
  h.inv (fun s => Inv cfg hashToken s.db s.log s.clock) (start_inv db clock)
    fun _ _ _ hi hok hstep => step_inv hi hok hstep

/-! ## What is accepted -/

theorem accessAccepted_iff : AccessAccepted hashToken db token t id ↔
    Enabled db id ∧ ∃ row ∈ db.browserAccessTokens.rows, row.tokenHash = hashToken token ∧
      row.principalId = id ∧ t < row.expiresAt := by
  constructor
  · rintro ⟨x, hx, rfl⟩
    simp only [SystemDb.lookupBrowserAccessToken, Option.bind_eq_bind,
      Option.bind_eq_some_iff] at hx
    obtain ⟨row, htoken, p, hprincipal, hp⟩ := hx
    obtain ⟨hrow, hhit⟩ := Table.mem_of_find? htoken
    obtain ⟨hmem, hid⟩ := Table.mem_of_find? hprincipal
    simp only [Bool.and_eq_true, beq_iff_eq, decide_eq_true_eq] at hhit hid
    split at hp
    · cases hp
    · next hflag =>
      cases hp
      exact ⟨⟨p, hmem, rfl, Bool.eq_false_iff.mpr hflag⟩, row, hrow, hhit.1, hid.symm, hhit.2⟩
  · rintro ⟨⟨p, hp, hid, hflag⟩, row, hrow, hhash, hprincipal, hlt⟩
    have htoken : db.browserAccessTokens.find?
        (fun r => r.tokenHash == hashToken token && t < r.expiresAt) = some row := by
      refine Table.find?_of_only hrow (by simp [hhash, hlt]) ?_
      intro r hr hhit
      simp only [Bool.and_eq_true, beq_iff_eq] at hhit
      exact Table.eq_of_key hr hrow (hhit.1.trans hhash.symm)
    have hfind : db.principals.find? (fun q => q.id == row.principalId) = some p := by
      refine Table.find?_of_only hp (by simp [hid, hprincipal]) ?_
      intro q hq hhit
      exact Table.eq_of_key hq hp ((beq_iff_eq.mp hhit).trans (hprincipal.trans hid.symm))
    refine ⟨⟨p.id, p.name, p.isAdmin⟩, ?_, hid⟩
    simp only [SystemDb.lookupBrowserAccessToken, htoken, Option.bind_eq_bind, Option.bind_some,
      hfind, hflag, Bool.false_eq_true, if_false]

theorem selectSession_iff {tokenHash csrfHash : String} :
    db.selectSession tokenHash csrfHash t = some id ↔
      ∃ row ∈ db.browserSessions.rows, row.tokenHash = tokenHash ∧ row.csrfHash = csrfHash ∧
        row.principalId = id ∧ t < row.expiresAt := by
  constructor
  · intro h
    obtain ⟨row, hfind, rfl⟩ := Option.map_eq_some_iff.mp h
    obtain ⟨hrow, hhit⟩ := Table.mem_of_find? hfind
    simp only [Bool.and_eq_true, beq_iff_eq, decide_eq_true_eq] at hhit
    exact ⟨row, hrow, hhit.1.1, hhit.1.2, rfl, hhit.2⟩
  · rintro ⟨row, hrow, rfl, rfl, rfl, hlt⟩
    refine Option.map_eq_some_iff.mpr ⟨row, ?_, rfl⟩
    refine Table.find?_of_only hrow (by simp [hlt]) ?_
    intro r hr hhit
    simp only [Bool.and_eq_true, beq_iff_eq] at hhit
    exact Table.eq_of_key hr hrow hhit.1.1

theorem rotated_iff (h : Inv cfg hashToken db log clock) (hclock : clock ≤ t) (ht : t ≤ draw.now)
    (hfresh : Fresh hashToken log draw) : Rotated cfg hashToken db refresh csrf t draw id ↔
      db.selectSession (hashToken refresh) (hashToken csrf) t = some id := by
  rcases rotate_cases h hclock ht hfresh refresh csrf with
    ⟨id', db', tokens, hsel, hrotate, -⟩ | ⟨hsel, hrotate⟩
  · rw [hsel, Rotated, hrotate]
    constructor
    · rintro ⟨tokens', heq⟩
      cases heq
      rfl
    · rintro ⟨⟩
      exact ⟨tokens, rfl⟩
  · rw [hsel, Rotated, hrotate]
    simp

/-! ## Validity -/

theorem access_valid (h : Inv cfg hashToken db log clock) (ht : clock ≤ t)
    (htoken : Unmistaken hashToken log token) :
    AccessAccepted hashToken db token t id ↔
      Enabled db id ∧ ∃ tokens time, tokens.access = token ∧
        t < time + cfg.accessTokenTtlSecs * 1000 ∧
        Since log (.issued id tokens time) (· = .reset id) := by
  rw [accessAccepted_iff]
  refine and_congr_right fun _ => ?_
  constructor
  · rintro ⟨row, hrow, hhash, rfl, hlt⟩
    obtain ⟨⟨e, he, hsince⟩, -⟩ := (h.access.valid ht).mp ⟨hrow, hlt⟩
    obtain ⟨id, tokens, time, rfl, rfl⟩ := accessOf_eq he
    exact ⟨tokens, time, htoken _ (issued_generated hsince.mem _ (by simp)) hhash, hlt, hsince⟩
  · rintro ⟨tokens, time, rfl, hlt, hsince⟩
    let row : AccessTokenRow :=
      ⟨hashToken tokens.access, id, time + cfg.accessTokenTtlSecs * 1000⟩
    have hgranted : Granted (accessOf cfg hashToken) endsAccess log row := ⟨_, rfl, hsince⟩
    exact ⟨row, ((h.access.valid ht).mpr ⟨hgranted, hlt⟩).1, rfl, rfl, hlt⟩

theorem session_valid (h : Inv cfg hashToken db log clock) (ht : clock ≤ t)
    (hrefresh : Unmistaken hashToken log refresh) (hcsrf : Unmistaken hashToken log csrf) :
    db.selectSession (hashToken refresh) (hashToken csrf) t = some id ↔
      ∃ tokens time, tokens.refresh = refresh ∧ tokens.csrf = csrf ∧
        t < time + cfg.refreshTokenTtlSecs * 1000 ∧
        Since log (.issued id tokens time) fun e =>
          e = .taken (hashToken refresh) ∨ e = .reset id := by
  rw [selectSession_iff]
  constructor
  · rintro ⟨row, hrow, hhash, hcsrfHash, rfl, hlt⟩
    obtain ⟨⟨e, he, hsince⟩, -⟩ := (h.session.valid ht).mp ⟨hrow, hlt⟩
    obtain ⟨id, tokens, time, rfl, rfl⟩ := sessionOf_eq he
    have hmem := issued_generated hsince.mem
    refine ⟨tokens, time, hrefresh _ (hmem _ (by simp)) hhash, hcsrf _ (hmem _ (by simp)) hcsrfHash,
      hlt, ?_⟩
    rw [← hhash]
    exact hsince
  · rintro ⟨tokens, time, rfl, rfl, hlt, hsince⟩
    let row : SessionRow :=
      ⟨hashToken tokens.refresh, id, hashToken tokens.csrf,
        time + cfg.refreshTokenTtlSecs * 1000, time⟩
    have hgranted : Granted (sessionOf cfg hashToken) endsSession log row := ⟨_, rfl, hsince⟩
    exact ⟨row, ((h.session.valid ht).mpr ⟨hgranted, hlt⟩).1, rfl, rfl, rfl, hlt⟩

theorem purged_accepts (db : SystemDb) (hle : now ≤ t) :
    (∀ token id, AccessAccepted hashToken (purged db now) token t id ↔
      AccessAccepted hashToken db token t id) ∧
    ∀ tokenHash csrfHash, (purged db now).selectSession tokenHash csrfHash t =
      db.selectSession tokenHash csrfHash t := by
  have hlate : ∀ expiresAt : Int, t < expiresAt → now < expiresAt := fun _ h => hle.trans_lt h
  constructor
  · intro token id
    rw [accessAccepted_iff, accessAccepted_iff]
    refine and_congr_right fun _ => exists_congr fun row => ?_
    simp only [purged, SystemDb.deleteExpiredAccessTokens, SystemDb.deleteExpiredSessions,
      Table.mem_delete, decide_eq_false_iff_not, not_le]
    have := hlate row.expiresAt
    tauto
  · intro tokenHash csrfHash
    apply Option.ext
    intro id
    rw [selectSession_iff, selectSession_iff]
    refine exists_congr fun row => ?_
    simp only [purged, SystemDb.deleteExpiredAccessTokens, SystemDb.deleteExpiredSessions,
      Table.mem_delete, decide_eq_false_iff_not, not_le]
    have := hlate row.expiresAt
    tauto

/-- After any run, at any time from the last reading on, an access token and a session are accepted
just as long as the log says, and the clean-up of an issue takes none of them. -/
theorem credentials_valid (cfg : AuthConfig) (hashToken : String → String)
    (verifyPassword : String → String → Bool) (argon2 : String → String → Option String)
    (db : SystemDb) (clock t : Int) (s : State)
    (h : Reach (step cfg hashToken verifyPassword argon2) (orderly hashToken)
      (State.start db clock) s) (ht : s.clock ≤ t) :
    (∀ token id, Unmistaken hashToken s.log token →
      (AccessAccepted hashToken s.db token t id ↔
        Enabled s.db id ∧ ∃ tokens time, tokens.access = token ∧
          t < time + cfg.accessTokenTtlSecs * 1000 ∧
          Since s.log (.issued id tokens time) (· = .reset id))) ∧
    (∀ refresh csrf id draw, Unmistaken hashToken s.log refresh → Unmistaken hashToken s.log csrf →
      Fresh hashToken s.log draw → t ≤ draw.now →
      (Rotated cfg hashToken s.db refresh csrf t draw id ↔
        ∃ tokens time, tokens.refresh = refresh ∧ tokens.csrf = csrf ∧
          t < time + cfg.refreshTokenTtlSecs * 1000 ∧
          Since s.log (.issued id tokens time) fun e =>
            e = .taken (hashToken refresh) ∨ e = .reset id)) ∧
    ∀ now ≤ t,
      (∀ token id, AccessAccepted hashToken (purged s.db now) token t id ↔
        AccessAccepted hashToken s.db token t id) ∧
      ∀ tokenHash csrfHash, (purged s.db now).selectSession tokenHash csrfHash t =
        s.db.selectSession tokenHash csrfHash t := by
  have hi := run_inv h
  refine ⟨?_, ?_, ?_⟩
  · intro token id htoken
    exact access_valid hi ht htoken
  · intro refresh csrf id draw hrefresh hcsrf hfresh hdraw
    rw [rotated_iff hi ht hdraw hfresh]
    exact session_valid hi ht hrefresh hcsrf
  · intro now hle
    exact purged_accepts s.db hle

/-! ## A run -/

open Browser (ttls hashed verified drawn aliceDb)

/-- Alice logs in and refreshes. -/
def refreshed : List Call :=
  [.login "alice" "long enough" (drawn "1"), .refresh "r1" "c1" 1000 (drawn "2")]

/-- A millisecond before it expires, the access token of the login is still accepted. Its session
is not, as it was rotated, and the one of the refresh is. -/
theorem credentials_valid_refreshed :
    ∃ s, exec (step ttls hashed verified Control.argon2id) (State.start aliceDb 0) refreshed =
        some s ∧
      AccessAccepted hashed s.db "a1" 900999 "01A" ∧
      ¬Rotated ttls hashed s.db "r1" "c1" 900999 { drawn "3" with now := 900999 } "01A" ∧
      Rotated ttls hashed s.db "r2" "c2" 900999 { drawn "3" with now := 900999 } "01A" := by
  have hok : Allowed (step ttls hashed verified Control.argon2id) (orderly hashed)
      (State.start aliceDb 0) refreshed := by decide
  obtain ⟨s, hexec, hclock, henabled, hlog⟩ :
      ∃ s, exec (step ttls hashed verified Control.argon2id) (State.start aliceDb 0) refreshed =
        some s ∧ s.clock = 1000 ∧ Enabled s.db "01A" ∧ s.log =
          [.issued "01A" ⟨"a1", "r1", "c1"⟩ 1000, .taken (hashed "r1"),
            .issued "01A" ⟨"a2", "r2", "c2"⟩ 1000] :=
    ⟨_, rfl, rfl, ⟨_, .head _, rfl, rfl⟩, rfl⟩
  obtain ⟨haccess, hrotated, -⟩ := credentials_valid ttls hashed verified Control.argon2id aliceDb 0
    900999 s (.of_exec refreshed hok hexec) (by omega)
  rw [hlog] at haccess hrotated
  refine ⟨s, hexec, ?_, ?_, ?_⟩
  · refine (haccess "a1" "01A" (by decide)).mpr ⟨henabled, _, 1000, rfl, by decide, [], _, rfl, ?_⟩
    simp
  · intro hr
    obtain ⟨tokens, time, hrefresh, -, -, hsince⟩ :=
      (hrotated "r1" "c1" "01A" _ (by decide) (by decide) (by decide) (by decide)).mp hr
    change Since ([_] ++ [_] ++ [_]) _ _ at hsince
    rw [since_concat, since_concat] at hsince
    rcases hsince with heq | ⟨heq | ⟨-, hnot⟩, -⟩
    · cases heq
      exact absurd hrefresh (by decide)
    · cases heq
    · exact hnot (Or.inl rfl)
  · exact (hrotated "r2" "c2" "01A" _ (by decide) (by decide) (by decide) (by decide)).mpr
      ⟨_, 1000, rfl, rfl, by decide, [_, _], [], rfl, nofun⟩

end TinyLord.Calls
