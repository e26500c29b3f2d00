import TinyLord.System.Sessions

/-!
# A password reset revokes what came from the old password

The era of a credential is the number of resets that its login had behind it when it read
the password. A reset deletes the credentials of older eras, and no older one comes back as
long as no login or refresh inserts what it was granted before the reset.
-/

open Lib Lib.Run Lib.Threads

namespace TinyLord.Browser

/-! ## Credentials -/

def accessCreds (c : Auth) : List (String × Origin) :=
  c.db.browserAccessTokens.rows.map fun t => (t.principalId, c.ledger.accessOrigin t.tokenHash)

def sessionCreds (c : Auth) : List (String × Origin) :=
  c.db.browserSessions.rows.map fun s => (s.principalId, c.ledger.sessionOrigin s.tokenHash)

def Thread.subject : Thread → Option Subject
  | .running _ (.deleteSession _ subject) | .running _ (.purgeAccess subject)
  | .running _ (.purgeSessions subject _) | .running _ (.insertAccess subject _)
  | .running _ (.insertSession subject _) => some subject
  | _ => none

def Thread.accessSubject : Thread → Option Subject
  | .running _ (.insertAccess subject _) => some subject
  | _ => none

def Thread.sessionSubject : Thread → Option Subject
  | .running _ (.insertSession subject _) => some subject
  | _ => none

def Thread.revoking : Thread → Option String
  | .running _ (.revokeSessions id) => some id
  | _ => none

def Thread.wasReset : Thread → Option String
  | .done _ (.passwordReset id) => some id
  | _ => none

/-- No credential is inserted that was granted before a reset of its principal, after that reset
has deleted the credentials of its kind. -/
def notOutdated (c : Auth) (_ : Nat) (t : Thread) (a : Act) : Prop :=
  a.isRun → (∀ sub ∈ t.accessSubject, c.ledger.accessRevoked sub.principalId ≤ sub.origin.era) ∧
    ∀ sub ∈ t.sessionSubject, c.ledger.sessionsRevoked sub.principalId ≤ sub.origin.era

instance (c : Auth) (i : Nat) (t : Thread) (a : Act) : Decidable (notOutdated c i t a) :=
  inferInstanceAs (Decidable (_ → _ ∧ _))

variable {cfg : AuthConfig} {hashToken : String → String}
  {verifyPassword : String → String → Bool} {c c' : Auth} {i j : Nat} {t t' : Thread} {a : Act}
  {rq : Request} {now : Int}

theorem accessCreds_subset {x : String × Origin} (hx : x ∈ accessCreds c')
    (horigin : c'.ledger.accessOrigin = c.ledger.accessOrigin)
    (hrows : ∀ t ∈ c'.db.browserAccessTokens.rows, t ∈ c.db.browserAccessTokens.rows) :
    x ∈ accessCreds c := by
  obtain ⟨t, ht, rfl⟩ := List.mem_map.mp hx
  exact List.mem_map.mpr ⟨t, hrows t ht, by rw [horigin]⟩

theorem sessionCreds_subset {x : String × Origin} (hx : x ∈ sessionCreds c')
    (horigin : c'.ledger.sessionOrigin = c.ledger.sessionOrigin)
    (hrows : ∀ s ∈ c'.db.browserSessions.rows, s ∈ c.db.browserSessions.rows) :
    x ∈ sessionCreds c := by
  obtain ⟨s, hs, rfl⟩ := List.mem_map.mp hx
  exact List.mem_map.mpr ⟨s, hrows s hs, by rw [horigin]⟩

theorem accessCreds_insert {db : SystemDb} {row : AccessTokenRow} {origin : Origin}
    (h : c.db.insertAccessToken row = some db) :
    ∀ x ∈ accessCreds ⟨db, c.ledger.addAccess row.tokenHash origin⟩,
      x ∈ accessCreds c ∨ x = (row.principalId, origin) := by
  obtain ⟨table, htable, rfl⟩ := SystemDb.insertAccessToken_cases h
  intro x hx
  obtain ⟨t, ht, rfl⟩ := List.mem_map.mp hx
  rcases (Table.mem_insert htable).mp ht with ht | rfl
  · -- The keys differ, so the older token keeps its origin.
    left
    have hne : t.tokenHash ≠ row.tokenHash := Table.insert_fresh htable ht
    exact List.mem_map.mpr ⟨t, ht, by simp [Ledger.addAccess, hne]⟩
  · right
    simp [Ledger.addAccess]

theorem sessionCreds_insert {db : SystemDb} {row : SessionRow} {origin : Origin}
    (h : c.db.insertSession row = some db) :
    ∀ x ∈ sessionCreds ⟨db, c.ledger.addSession row.tokenHash origin⟩,
      x ∈ sessionCreds c ∨ x = (row.principalId, origin) := by
  obtain ⟨table, htable, rfl⟩ := SystemDb.insertSession_cases h
  intro x hx
  obtain ⟨s, hs, rfl⟩ := List.mem_map.mp hx
  rcases (Table.mem_insert htable).mp hs with hs | rfl
  · left
    have hne : s.tokenHash ≠ row.tokenHash := Table.insert_fresh htable hs
    exact List.mem_map.mpr ⟨s, hs, by rw [Ledger.addSession_origin_of_ne hne]⟩
  · right
    simp

/-! ## What a step does to credentials and resets -/

structure Effect (c c' : Auth) (i : Nat) (t : Thread) (a : Act) (t' : Thread) : Prop where
  access : ∀ x ∈ accessCreds c', x ∈ accessCreds c ∨
    a.isRun ∧ ∃ sub ∈ t.accessSubject, x = (sub.principalId, sub.origin)
  session : ∀ x ∈ sessionCreds c', x ∈ sessionCreds c ∨
    a.isRun ∧ ∃ sub ∈ t.sessionSubject, x = (sub.principalId, sub.origin)
  /-- A subject is handed on, read from a session, or granted by the password of today. -/
  subject : ∀ sub ∈ t'.subject, sub ∈ t.subject ∨ (sub.principalId, sub.origin) ∈ sessionCreds c ∨
    sub.origin.era = c.ledger.resets sub.principalId
  resets : ∀ id, c.ledger.resets id ≤ c'.ledger.resets id
  resetNo : ∀ j, j ≠ i → c'.ledger.resetNo j = c.ledger.resetNo j
  accessRevoked : ∀ id, c'.ledger.accessRevoked id = c.ledger.accessRevoked id ∨
    c.ledger.accessRevoked id ≤ c'.ledger.accessRevoked id ∧ ∀ x ∈ accessCreds c', x.1 ≠ id
  sessionsRevoked : ∀ id, c'.ledger.sessionsRevoked id = c.ledger.sessionsRevoked id ∨
    c.ledger.sessionsRevoked id ≤ c'.ledger.sessionsRevoked id ∧ ∀ x ∈ sessionCreds c', x.1 ≠ id
  revoking : ∀ id ∈ t'.revoking, c'.ledger.resetNo i ≤ c'.ledger.accessRevoked id
  wasReset : ∀ id ∈ t'.wasReset, t.revoking = some id ∧
    c'.ledger.resetNo i = c.ledger.resetNo i ∧
    c'.ledger.accessRevoked id = c.ledger.accessRevoked id ∧
    c'.ledger.resetNo i ≤ c'.ledger.sessionsRevoked id

theorem effect_of_same (hl : c'.ledger = { c.ledger with takenBy := c'.ledger.takenBy })
    (haccess : ∀ t ∈ c'.db.browserAccessTokens.rows, t ∈ c.db.browserAccessTokens.rows)
    (hsession : ∀ s ∈ c'.db.browserSessions.rows, s ∈ c.db.browserSessions.rows)
    (hsub : ∀ sub ∈ t'.subject, sub ∈ t.subject ∨ (sub.principalId, sub.origin) ∈ sessionCreds c ∨
      sub.origin.era = c.ledger.resets sub.principalId)
    (hrevoking : t'.revoking = none) (hreset : t'.wasReset = none) : Effect c c' i t a t' where
  access x hx := Or.inl (accessCreds_subset hx (by rw [hl]) haccess)
  session x hx := Or.inl (sessionCreds_subset hx (by rw [hl]) hsession)
  subject := hsub
  resets id := Nat.le_of_eq (by rw [hl])
  resetNo j _ := by rw [hl]
  accessRevoked id := Or.inl (by rw [hl])
  sessionsRevoked id := Or.inl (by rw [hl])
  revoking id h := by simp [hrevoking] at h
  wasReset id h := by simp [hreset] at h

theorem start_effect (h : start hashToken verifyPassword c i now rq = (c', t')) :
    Effect c c' i (.running rq .start) a t' := by
  rcases start_cases h with ⟨username, password, id, hash, rfl, -, rfl, rfl⟩ |
    ⟨refresh, csrf, id, rfl, hsel, rfl, rfl⟩ | ⟨refresh, csrf, rfl, hrev, rfl, rfl⟩ |
    ⟨username, passwordHash, id, rfl, -, rfl, rfl⟩ | ⟨e, rfl, rfl⟩
  · apply effect_of_same rfl (fun _ h => h) (fun _ h => h) _ rfl rfl
    rintro _ ⟨⟩
    exact Or.inr (Or.inr rfl)
  · obtain ⟨row, hrow, htoken, hid⟩ := SystemDb.selectSession_mem hsel
    apply effect_of_same rfl (fun _ h => h) (fun _ h => h) _ rfl rfl
    rintro _ ⟨⟩
    exact Or.inr (Or.inl (List.mem_map.mpr ⟨row, hrow, by rw [htoken, hid]⟩))
  · obtain ⟨-, hrows⟩ := SystemDb.revokeSession_hit hrev
    exact effect_of_same rfl (fun _ h => h) (fun s hs => (hrows s hs).1) nofun rfl rfl
  · exact effect_of_same rfl (fun _ h => h) (fun _ h => h) (fun _ h => by cases h) rfl rfl
  · exact effect_of_same rfl (fun _ h => h) (fun _ h => h) (fun _ h => by cases h) rfl rfl

theorem insertAccess_effect {subject : Subject} {drawn draw : Draw} {db : SystemDb}
    {row : AccessTokenRow} (hid : row.principalId = subject.principalId)
    (h : c.db.insertAccessToken row = some db) :
    Effect c ⟨db, c.ledger.addAccess row.tokenHash subject.origin⟩ i
      (.running rq (.insertAccess subject drawn)) (.run draw)
      (.running rq (.insertSession subject drawn)) where
  access x hx := by
    rcases accessCreds_insert h x hx with hx | rfl
    · exact Or.inl hx
    · exact Or.inr ⟨rfl, subject, rfl, by rw [hid]⟩
  session x hx := by
    obtain ⟨table, -, rfl⟩ := SystemDb.insertAccessToken_cases h
    exact Or.inl hx
  subject _ h := Or.inl h
  resets _ := Nat.le_refl _
  resetNo _ _ := rfl
  accessRevoked _ := Or.inl rfl
  sessionsRevoked _ := Or.inl rfl
  revoking := nofun
  wasReset := nofun

theorem insertSession_effect {subject : Subject} {drawn draw : Draw} {db : SystemDb}
    {row : SessionRow} {access refresh csrf : String} (hid : row.principalId = subject.principalId)
    (h : c.db.insertSession row = some db) :
    Effect c ⟨db, c.ledger.addSession row.tokenHash subject.origin⟩ i
      (.running rq (.insertSession subject drawn)) (.run draw)
      (.done rq (.tokens access refresh csrf)) where
  access x hx := by
    obtain ⟨table, -, rfl⟩ := SystemDb.insertSession_cases h
    exact Or.inl hx
  session x hx := by
    rcases sessionCreds_insert h x hx with hx | rfl
    · exact Or.inl hx
    · exact Or.inr ⟨rfl, subject, rfl, by rw [hid]⟩
  subject := nofun
  resets _ := Nat.le_refl _
  resetNo _ _ := rfl
  accessRevoked _ := Or.inl rfl
  sessionsRevoked _ := Or.inl rfl
  revoking := nofun
  wasReset := nofun

theorem setPassword_effect {id passwordHash : String} :
    Effect c ⟨c.db.setPasswordHash id passwordHash, c.ledger.reset id i⟩ i t a
      (.running rq (.revokeAccess id)) where
  access x hx := Or.inl hx
  session x hx := Or.inl hx
  subject := nofun
  resets k := by
    by_cases hk : k = id
    · subst hk
      simp [Ledger.reset]
    · simp [Ledger.reset, hk]
  resetNo j hj := by simp [Ledger.reset, hj]
  accessRevoked _ := Or.inl rfl
  sessionsRevoked _ := Or.inl rfl
  revoking := nofun
  wasReset := nofun

theorem revokeAccess_effect {id : String} :
    Effect c ⟨c.db.deleteAccessTokensOf id, c.ledger.revokeAccess id i⟩ i t a
      (.running rq (.revokeSessions id)) where
  access x hx := by
    refine Or.inl (accessCreds_subset hx rfl ?_)
    intro t ht
    exact (Table.mem_delete.mp ht).1
  session x hx := Or.inl hx
  subject := nofun
  resets _ := Nat.le_refl _
  resetNo _ _ := rfl
  accessRevoked k := by
    by_cases hk : k = id
    · subst hk
      refine Or.inr ⟨?_, ?_⟩
      · rw [Ledger.revokeAccess_self]
        exact Nat.le_max_left _ _
      · intro x hx
        obtain ⟨t, ht, rfl⟩ := List.mem_map.mp hx
        simpa using (Table.mem_delete.mp ht).2
    · exact Or.inl (by simp [Ledger.revokeAccess, hk])
  sessionsRevoked _ := Or.inl rfl
  revoking := by
    rintro _ ⟨⟩
    rw [Ledger.revokeAccess_self]
    exact Nat.le_max_right _ _
  wasReset := nofun

theorem revokeSessions_effect {id : String} :
    Effect c ⟨c.db.deleteSessionsOf id, c.ledger.revokeSessions id i⟩ i
      (.running rq (.revokeSessions id)) a (.done rq (.passwordReset id)) where
  access x hx := Or.inl hx
  session x hx := by
    refine Or.inl (sessionCreds_subset hx rfl ?_)
    intro s hs
    exact (Table.mem_delete.mp hs).1
  subject := nofun
  resets _ := Nat.le_refl _
  resetNo _ _ := rfl
  accessRevoked _ := Or.inl rfl
  sessionsRevoked k := by
    by_cases hk : k = id
    · subst hk
      refine Or.inr ⟨?_, ?_⟩
      · rw [Ledger.revokeSessions_self]
        exact Nat.le_max_left _ _
      · intro x hx
        obtain ⟨s, hs, rfl⟩ := List.mem_map.mp hx
        simpa using (Table.mem_delete.mp hs).2
    · exact Or.inl (by simp [Ledger.revokeSessions, hk])
  revoking := nofun
  wasReset := by
    rintro _ ⟨⟩
    refine ⟨rfl, rfl, rfl, ?_⟩
    rw [Ledger.revokeSessions_self]
    exact Nat.le_max_right _ _

theorem next_effect (h : next cfg hashToken verifyPassword c i t a = some (c', t')) :
    Effect c c' i t a t' := by
  rcases next_cases h with ⟨rq, rfl, rfl, rfl⟩ | ⟨rq, pc, draw, rfl, rfl, hstmt⟩ |
    ⟨rq, pc, e, rfl, rfl, rfl⟩
  · exact effect_of_same rfl (fun _ h => h) (fun _ h => h) (fun _ h => by cases h) rfl rfl
  · cases pc with
    | start => exact start_effect hstmt
    | deleteSession tokenHash subject =>
      cases hstmt
      exact effect_of_same rfl (fun _ h => h) (fun _ hs => (SystemDb.deleteSession_mem hs).1)
        (fun _ h => Or.inl h) rfl rfl
    | purgeAccess subject =>
      cases hstmt
      exact effect_of_same rfl (fun _ h => (Table.mem_delete.mp h).1) (fun _ h => h)
        (fun _ h => Or.inl h) rfl rfl
    | purgeSessions subject drawn =>
      cases hstmt
      exact effect_of_same rfl (fun _ h => h) (fun _ h => (Table.mem_delete.mp h).1)
        (fun _ h => Or.inl h) rfl rfl
    | insertAccess subject drawn =>
      simp only [statement] at hstmt
      split at hstmt
      · cases hstmt
        exact effect_of_same rfl (fun _ h => h) (fun _ h => h) (fun _ h => by cases h) rfl rfl
      · next db hdb =>
        cases hstmt
        exact insertAccess_effect rfl hdb
    | insertSession subject drawn =>
      simp only [statement] at hstmt
      split at hstmt
      · cases hstmt
        exact effect_of_same rfl (fun _ h => h) (fun _ h => h) (fun _ h => by cases h) rfl rfl
      · next db hdb =>
        cases hstmt
        exact insertSession_effect rfl hdb
    | setPassword id passwordHash =>
      cases hstmt
      exact setPassword_effect
    | revokeAccess id =>
      cases hstmt
      exact revokeAccess_effect
    | revokeSessions id =>
      cases hstmt
      exact revokeSessions_effect
  · exact effect_of_same rfl (fun _ h => h) (fun _ h => h) (fun _ h => by cases h) rfl rfl

/-! ## Eras -/

/-- No credential is of a later era than today's. -/
def EraInv (c : Auth) : Prop :=
  (∀ x ∈ accessCreds c, x.2.era ≤ c.ledger.resets x.1) ∧
  ∀ x ∈ sessionCreds c, x.2.era ≤ c.ledger.resets x.1

def EraAssertion (c : Auth) (t : Thread) : Prop :=
  ∀ sub ∈ t.subject, sub.origin.era ≤ c.ledger.resets sub.principalId

theorem accessSubject_mem {sub : Subject} (h : sub ∈ t.accessSubject) : sub ∈ t.subject := by
  unfold Thread.accessSubject at h
  split at h
  · exact h
  · cases h

theorem sessionSubject_mem {sub : Subject} (h : sub ∈ t.sessionSubject) : sub ∈ t.subject := by
  unfold Thread.sessionSubject at h
  split at h
  · exact h
  · cases h

theorem era_keeps (cfg : AuthConfig) (hashToken : String → String)
    (verifyPassword : String → String → Bool) :
    Keeps (next cfg hashToken verifyPassword) (fun _ _ _ _ => True) (fun (_ : Unit) c => EraInv c)
      (fun _ c _ t => EraAssertion c t) := by
  rintro - c i t a c' t' ⟨haccess, hsession⟩ hown - hnext
  have he := next_effect hnext
  refine ⟨(), ⟨?_, ?_⟩, ?_, ?_⟩
  · intro x hx
    rcases he.access x hx with hx | ⟨-, sub, hsub, rfl⟩
    · exact Nat.le_trans (haccess x hx) (he.resets _)
    · exact Nat.le_trans (hown sub (accessSubject_mem hsub)) (he.resets _)
  · intro x hx
    rcases he.session x hx with hx | ⟨-, sub, hsub, rfl⟩
    · exact Nat.le_trans (hsession x hx) (he.resets _)
    · exact Nat.le_trans (hown sub (sessionSubject_mem hsub)) (he.resets _)
  · intro sub hsub
    rcases he.subject sub hsub with h | h | h
    · exact Nat.le_trans (hown sub h) (he.resets _)
    · exact Nat.le_trans (hsession _ h) (he.resets _)
    · exact Nat.le_trans (Nat.le_of_eq h) (he.resets _)
  · intro j q _ hq sub hsub
    exact Nat.le_trans (hq sub hsub) (he.resets _)

/-! ## Revocation -/

/-- No credential is older than the newest reset that has deleted its kind. -/
def RevokedInv (c : Auth) : Prop :=
  (∀ x ∈ accessCreds c, c.ledger.accessRevoked x.1 ≤ x.2.era) ∧
  ∀ x ∈ sessionCreds c, c.ledger.sessionsRevoked x.1 ≤ x.2.era

def RevokedAssertion (c : Auth) (i : Nat) (t : Thread) : Prop :=
  (∀ id ∈ t.revoking, c.ledger.resetNo i ≤ c.ledger.accessRevoked id) ∧
  ∀ id ∈ t.wasReset, c.ledger.resetNo i ≤ c.ledger.accessRevoked id ∧
    c.ledger.resetNo i ≤ c.ledger.sessionsRevoked id

theorem Effect.accessRevoked_le (h : Effect c c' i t a t') (id : String) :
    c.ledger.accessRevoked id ≤ c'.ledger.accessRevoked id := by
  rcases h.accessRevoked id with heq | ⟨hle, -⟩
  · exact Nat.le_of_eq heq.symm
  · exact hle

theorem Effect.sessionsRevoked_le (h : Effect c c' i t a t') (id : String) :
    c.ledger.sessionsRevoked id ≤ c'.ledger.sessionsRevoked id := by
  rcases h.sessionsRevoked id with heq | ⟨hle, -⟩
  · exact Nat.le_of_eq heq.symm
  · exact hle

theorem RevokedInv.step (hi : RevokedInv c) (he : Effect c c' i t a t')
    (hok : notOutdated c i t a) : RevokedInv c' := by
  obtain ⟨haccess, hsession⟩ := hi
  constructor
  · intro x hx
    rcases he.accessRevoked x.1 with heq | ⟨-, hgone⟩
    · rw [heq]
      rcases he.access x hx with hold | ⟨hrun, sub, hsub, rfl⟩
      · exact haccess x hold
      · exact (hok hrun).1 sub hsub
    · exact absurd rfl (hgone x hx)
  · intro x hx
    rcases he.sessionsRevoked x.1 with heq | ⟨-, hgone⟩
    · rw [heq]
      rcases he.session x hx with hold | ⟨hrun, sub, hsub, rfl⟩
      · exact hsession x hold
      · exact (hok hrun).2 sub hsub
    · exact absurd rfl (hgone x hx)

theorem revoked_keeps (cfg : AuthConfig) (hashToken : String → String)
    (verifyPassword : String → String → Bool) :
    Keeps (next cfg hashToken verifyPassword) notOutdated (fun (_ : Unit) c => RevokedInv c)
      (fun _ c i t => RevokedAssertion c i t) := by
  rintro - c i t a c' t' hi ⟨hrevoking, -⟩ hok hnext
  have he := next_effect hnext
  refine ⟨(), hi.step he hok, ⟨he.revoking, ?_⟩, ?_⟩
  · intro id hid
    obtain ⟨ht, hno, hsame, hsessions⟩ := he.wasReset id hid
    refine ⟨?_, hsessions⟩
    rw [hno, hsame]
    exact hrevoking id ht
  · rintro j q hj ⟨hrev, hreset⟩
    constructor
    · intro id hid
      rw [he.resetNo j hj]
      exact Nat.le_trans (hrev id hid) (he.accessRevoked_le id)
    · intro id hid
      rw [he.resetNo j hj]
      exact ⟨Nat.le_trans (hreset id hid).1 (he.accessRevoked_le id),
        Nat.le_trans (hreset id hid).2 (he.sessionsRevoked_le id)⟩

/-! ## Any number of requests around a reset -/

theorem boot_era (db : SystemDb) : Asserted (fun (_ : Unit) c => EraInv c)
    (fun _ c _ t => EraAssertion c t) (System.boot db) := by
  refine ⟨(), ⟨?_, ?_⟩, fun _ => nofun⟩
  · intro x hx
    obtain ⟨t, -, rfl⟩ := List.mem_map.mp hx
    exact Nat.zero_le _
  · intro x hx
    obtain ⟨s, -, rfl⟩ := List.mem_map.mp hx
    exact Nat.zero_le _

theorem boot_revoked (db : SystemDb) : Asserted (fun (_ : Unit) c => RevokedInv c)
    (fun _ c i t => RevokedAssertion c i t) (System.boot db) :=
  ⟨(), ⟨fun _ _ => Nat.zero_le _, fun _ _ => Nat.zero_le _⟩, fun _ => ⟨nofun, nofun⟩⟩

/-- What is in the tables or granted to a request when a reset writes the new hash is of an era
before that reset. -/
theorem reset_outdates (cfg : AuthConfig) (hashToken : String → String)
    (verifyPassword : String → String → Bool) (db : SystemDb) (s s' : System)
    (h : Reach (Threads.step (next cfg hashToken verifyPassword)) anyStep (System.boot db) s)
    (i : Nat) (rq : Request) (id passwordHash : String) (draw : Draw)
    (hi : s.threads i = .running rq (.setPassword id passwordHash))
    (hstep : Threads.step (next cfg hashToken verifyPassword) s (i, .run draw) = some s') :
    (∀ x ∈ accessCreds s.shared, x.1 = id → x.2.era < s'.shared.ledger.resetNo i) ∧
    (∀ x ∈ sessionCreds s.shared, x.1 = id → x.2.era < s'.shared.ledger.resetNo i) ∧
    ∀ j, ∀ sub ∈ (s.threads j).subject, sub.principalId = id →
      sub.origin.era < s'.shared.ledger.resetNo i := by
  obtain ⟨_, ⟨haccess, hsession⟩, ha⟩ := Asserted.run (era_keeps cfg hashToken verifyPassword)
    (boot_era db) (h.mono fun _ _ _ => trivial)
  obtain ⟨c', t', hnext, rfl⟩ := step_cases hstep
  rw [hi] at hnext
  cases hnext
  have hno : (s.shared.ledger.reset id i).resetNo i = s.shared.ledger.resets id + 1 := by
    simp [Ledger.reset]
  refine ⟨?_, ?_, ?_⟩
  · rintro x hx rfl
    exact hno ▸ Nat.lt_succ_of_le (haccess x hx)
  · rintro x hx rfl
    exact hno ▸ Nat.lt_succ_of_le (hsession x hx)
  · rintro j sub hsub rfl
    exact hno ▸ Nat.lt_succ_of_le (ha j sub hsub)

/-- In a run where no request inserts what it was granted before a reset after that reset has
deleted, nothing of the old password or of an older session is accepted once the reset has
returned. -/
theorem reset_revokes (cfg : AuthConfig) (hashToken : String → String)
    (verifyPassword : String → String → Bool) (db : SystemDb) (s : System)
    (h : Reach (Threads.step (next cfg hashToken verifyPassword)) (moving notOutdated)
      (System.boot db) s)
    (i : Nat) (rq : Request) (id : String) (hdone : s.threads i = .done rq (.passwordReset id)) :
    (∀ token now p, s.shared.db.lookupBrowserAccessToken hashToken token now = some p → p.id = id →
      s.shared.ledger.resetNo i ≤ (s.shared.ledger.accessOrigin (hashToken token)).era) ∧
    ∀ refresh csrf now,
      s.shared.db.selectSession (hashToken refresh) (hashToken csrf) now = some id →
        s.shared.ledger.resetNo i ≤ (s.shared.ledger.sessionOrigin (hashToken refresh)).era := by
  obtain ⟨_, ⟨haccess, hsession⟩, ha⟩ := Asserted.run (revoked_keeps cfg hashToken verifyPassword)
    (boot_revoked db) h
  obtain ⟨hra, hrs⟩ := (ha i).2 id (by rw [hdone]; rfl)
  constructor
  · rintro token now p hp rfl
    obtain ⟨t, ht, htoken, hid⟩ := SystemDb.lookupBrowserAccessToken_mem hp
    have hle := haccess _ (List.mem_map_of_mem ht)
    rw [hid, htoken] at hle
    exact Nat.le_trans hra hle
  · intro refresh csrf now hsel
    obtain ⟨row, hrow, htoken, hid⟩ := SystemDb.selectSession_mem hsel
    have hle := hsession _ (List.mem_map_of_mem hrow)
    rw [hid, htoken] at hle
    exact Nat.le_trans hrs hle

/-! ## Runs -/

/-- A login has verified the old password when the whole reset runs. It issues its tokens then. -/
def slowLoginRun : List (Nat × Act) :=
  [(0, .arrive (.login "alice" "long enough"))] ++ runs 0 1 "1" ++
    [(1, .arrive (.resetPassword "alice" (hashed "replacement")))] ++ runs 1 4 "2" ++ runs 0 4 "1"

/-- The reset has returned, and tokens granted by the old password are accepted. -/
theorem old_password_outlives_reset :
    ∃ s, exec (Threads.step (next ttls hashed verified)) (System.boot aliceDb) slowLoginRun =
        some s ∧
      s.threads 1 = .done (.resetPassword "alice" (hashed "replacement")) (.passwordReset "01A") ∧
      s.shared.db.lookupBrowserAccessToken hashed "a1" 1000 = some ⟨"01A", "alice", false⟩ ∧
      (s.shared.ledger.accessOrigin (hashed "a1")).era < s.shared.ledger.resetNo 1 ∧
      s.shared.db.selectSession (hashed "r1") (hashed "c1") 1000 = some "01A" ∧
      (s.shared.ledger.sessionOrigin (hashed "r1")).era < s.shared.ledger.resetNo 1 :=
  ⟨_, rfl, rfl, rfl, by decide, rfl, by decide⟩

/-- A login, the reset, and a login with the new password. -/
def resetRun : List (Nat × Act) :=
  login 0 "1" ++ [(1, .arrive (.resetPassword "alice" (hashed "replacement")))] ++ runs 1 4 "2" ++
    [(3, .arrive (.login "alice" "replacement"))] ++ runs 3 5 "3"

theorem reset_revokes_resetRun :
    ∃ s, exec (Threads.step (next ttls hashed verified)) (System.boot aliceDb) resetRun = some s ∧
      s.shared.db.lookupBrowserAccessToken hashed "a1" 1000 = none ∧
      s.shared.db.lookupBrowserAccessToken hashed "a3" 1000 = some ⟨"01A", "alice", false⟩ ∧
      s.shared.ledger.resetNo 1 ≤ (s.shared.ledger.accessOrigin (hashed "a3")).era := by
  have hok : Allowed (Threads.step (next ttls hashed verified)) (moving notOutdated)
      (System.boot aliceDb) resetRun := by decide
  have hrun : ∃ s, exec (Threads.step (next ttls hashed verified)) (System.boot aliceDb)
      resetRun = some s ∧
      s.threads 1 = .done (.resetPassword "alice" (hashed "replacement")) (.passwordReset "01A") ∧
      s.shared.db.lookupBrowserAccessToken hashed "a1" 1000 = none ∧
      s.shared.db.lookupBrowserAccessToken hashed "a3" 1000 = some ⟨"01A", "alice", false⟩ :=
    ⟨_, rfl, rfl, rfl, rfl⟩
  obtain ⟨s, hexec, hdone, hold, hnew⟩ := hrun
  refine ⟨s, hexec, hold, hnew, ?_⟩
  exact (reset_revokes ttls hashed verified aliceDb s (.of_exec resetRun hok hexec) 1 _ "01A"
    hdone).1 "a3" 1000 _ hnew rfl

end TinyLord.Browser
