import TinyLord.System.Browser

/-!
# A refresh session is usable once

Every login has at most one bearer: the session in the table that it has led to, or the
request that is about to insert the next one. A rotation moves the bearer from the session
to itself and then to the new session, as long as its DELETE takes the session that its
SELECT has read.
-/

open Lib Lib.Run Lib.Threads

namespace TinyLord.Browser

/-! ## What the statements are about -/

def Request.session (hashToken : String → String) : Request → Option String
  | .refresh token _ | .logout token _ => some (hashToken token)
  | _ => none

def Reply.succeeded : Reply → Bool
  | .tokens .. | .noContent => true
  | _ => false

/-- Request `i` has returned, and its refresh or logout of the session was accepted. -/
def Succeeded (hashToken : String → String) (s : System) (i : Nat) (tokenHash : String) : Prop :=
  ∃ rq reply, s.threads i = .done rq reply ∧ rq.session hashToken = some tokenHash ∧
    reply.succeeded = true

def Act.isRun : Act → Bool
  | .run _ => true
  | _ => false

def Thread.deleting : Thread → Option String
  | .running _ (.deleteSession tokenHash _) => some tokenHash
  | _ => none

def Thread.inserting : Thread → Option String
  | .running _ (.insertSession _ drawn) => some drawn.refresh
  | _ => none

/-- `generate_token` gives a refresh token that no session has had before. -/
def freshToken (hashToken : String → String) (c : Auth) (t : Thread) (a : Act) : Prop :=
  a.isRun → ∀ refresh ∈ t.inserting, c.ledger.seen (hashToken refresh) = false

/-- A rotation deletes a session only when no other rotation or logout has taken it since the
rotation's SELECT. -/
def stillThere (c : Auth) (t : Thread) (a : Act) : Prop :=
  a.isRun → ∀ tokenHash ∈ t.deleting, c.ledger.takenBy tokenHash = none

def usedOnce (hashToken : String → String) (c : Auth) (_ : Nat) (t : Thread) (a : Act) : Prop :=
  freshToken hashToken c t a ∧ stillThere c t a

instance (hashToken : String → String) (c : Auth) (t : Thread) (a : Act) :
    Decidable (freshToken hashToken c t a) :=
  inferInstanceAs (Decidable (_ → _))

instance (hashToken : String → String) (c : Auth) (i : Nat) (t : Thread) (a : Act) :
    Decidable (usedOnce hashToken c i t a) :=
  inferInstanceAs (Decidable (_ ∧ (_ → _)))

/-! ## The bearer of a login -/

/-- Who can still get the next credentials of a login. -/
inductive Bearer where
  | session (tokenHash : String)
  | request (i : Nat)
  deriving DecidableEq

abbrev Bearers := Root → Option Bearer

/-- A session that was seen and not taken is the bearer of its login. -/
structure SessionsInv (b : Bearers) (rows : List SessionRow) (l : Ledger) : Prop where
  rows : ∀ s ∈ rows, l.seen s.tokenHash = true ∧ l.takenBy s.tokenHash = none
  bearer : ∀ h, l.seen h = true → l.takenBy h = none →
    b (l.sessionOrigin h).root = some (.session h)
  taken : ∀ h i, l.takenBy h = some i → l.seen h = true

def Took (hashToken : String → String) (l : Ledger) (i : Nat) (rq : Request) : Prop :=
  ∀ h ∈ rq.session hashToken, l.takenBy h = some i

def Issuing (hashToken : String → String) (b : Bearers) (l : Ledger) (i : Nat) (rq : Request)
    (subject : Subject) : Prop :=
  b subject.origin.root = some (.request i) ∧ Took hashToken l i rq

def Assertion (hashToken : String → String) (b : Bearers) (l : Ledger) (i : Nat) : Thread → Prop
  | .idle | .running _ .start => b (.login i) = none
  | .running rq (.deleteSession tokenHash subject) =>
    rq.session hashToken = some tokenHash ∧ l.seen tokenHash = true ∧
      subject.origin = l.sessionOrigin tokenHash
  | .running rq (.purgeAccess subject) | .running rq (.purgeSessions subject _)
  | .running rq (.insertAccess subject _) | .running rq (.insertSession subject _) =>
    Issuing hashToken b l i rq subject
  | .running _ (.setPassword ..) | .running _ (.revokeAccess ..)
  | .running _ (.revokeSessions ..) => True
  | .done rq reply => reply.succeeded = true → Took hashToken l i rq

/-- What a step of another request may change under request `j`. -/
structure Undisturbed (b b' : Bearers) (l l' : Ledger) (j : Nat) : Prop where
  login : b (.login j) = none → b' (.login j) = none
  request : ∀ root, b root = some (.request j) → b' root = some (.request j)
  seen : ∀ h, l.seen h = true → l'.seen h = true ∧ l'.sessionOrigin h = l.sessionOrigin h
  taken : ∀ h, l.takenBy h = some j → l'.takenBy h = some j

variable {hashToken : String → String} {b b' : Bearers} {rows rows' : List SessionRow}
  {l l' : Ledger} {i j : Nat} {t : Thread} {tokenHash : String}

theorem Assertion.undisturbed (h : Assertion hashToken b l j t) (hu : Undisturbed b b' l l' j) :
    Assertion hashToken b' l' j t := by
  have htook : ∀ rq, Took hashToken l j rq → Took hashToken l' j rq :=
    fun rq ht h hh => hu.taken h (ht h hh)
  match t with
  | .idle | .running _ .start => exact hu.login h
  | .running rq (.deleteSession tokenHash subject) =>
    obtain ⟨hs, hseen, horigin⟩ := h
    exact ⟨hs, (hu.seen _ hseen).1, horigin.trans (hu.seen _ hseen).2.symm⟩
  | .running rq (.purgeAccess _) | .running rq (.purgeSessions _ _)
  | .running rq (.insertAccess _ _) | .running rq (.insertSession _ _) =>
    exact ⟨hu.request _ h.1, htook rq h.2⟩
  | .running _ (.setPassword ..) | .running _ (.revokeAccess ..)
  | .running _ (.revokeSessions ..) => trivial
  | .done rq reply => exact fun hr => htook rq (h hr)

theorem SessionsInv.subset (hi : SessionsInv b rows l) (hrows : ∀ s ∈ rows', s ∈ rows) :
    SessionsInv b rows' l :=
  { hi with rows := fun s hs => hi.rows s (hrows s hs) }

/-! ## The steps that move a bearer -/

theorem undisturbed_bearer {root : Root} {bearer : Bearer}
    (hb : ∀ k, b root = some (.request k) → k = i) (hj : j ≠ i)
    (hlogin : b root = none → root ≠ .login j) :
    Undisturbed b (Function.update b root (some bearer)) l l j where
  login h := by
    rw [Function.update_of_ne]
    · exact h
    · rintro rfl
      exact hlogin h rfl
  request r h := by
    rw [Function.update_of_ne]
    · exact h
    · rintro rfl
      exact hj (hb j h)
  seen _ h := ⟨h, rfl⟩
  taken _ h := h

theorem Undisturbed.trans {b'' : Bearers} {l'' : Ledger} (h : Undisturbed b b' l l' j)
    (h' : Undisturbed b' b'' l' l'' j) : Undisturbed b b'' l l'' j where
  login hb := h'.login (h.login hb)
  request root hb := h'.request root (h.request root hb)
  seen k hk :=
    ⟨(h'.seen k (h.seen k hk).1).1, (h'.seen k (h.seen k hk).1).2.trans (h.seen k hk).2⟩
  taken k hk := h'.taken k (h.taken k hk)

theorem undisturbed_take (hfree : l.takenBy tokenHash = none) (i j : Nat) :
    Undisturbed b b l (l.take tokenHash i) j where
  login h := h
  request _ h := h
  seen _ h := ⟨h, rfl⟩
  taken h ht := by
    rw [Ledger.take_takenBy_of_ne]
    · exact ht
    · rintro rfl
      rw [hfree] at ht
      cases ht

theorem undisturbed_addSession (hfresh : l.seen tokenHash = false) (origin : Origin) (j : Nat) :
    Undisturbed b b l (l.addSession tokenHash origin) j where
  login h := h
  request _ h := h
  seen h hs := by
    have hh : h ≠ tokenHash := by
      rintro rfl
      rw [hfresh] at hs
      cases hs
    rw [Ledger.addSession_seen_of_ne hh, Ledger.addSession_origin_of_ne hh]
    exact ⟨hs, rfl⟩
  taken _ h := h

theorem SessionsInv.login (hi : SessionsInv b rows l) (hfree : b (.login i) = none) :
    SessionsInv (Function.update b (.login i) (some (.request i))) rows l where
  rows := hi.rows
  bearer h hs ht := by
    have hb := hi.bearer h hs ht
    rw [Function.update_of_ne]
    · exact hb
    · intro hroot
      rw [hroot, hfree] at hb
      cases hb
  taken := hi.taken

theorem SessionsInv.take (hi : SessionsInv b rows l) (hseen : l.seen tokenHash = true)
    (hrows : ∀ s ∈ rows', s ∈ rows ∧ s.tokenHash ≠ tokenHash) :
    SessionsInv b rows' (l.take tokenHash i) where
  rows s hs := by
    obtain ⟨hmem, hne⟩ := hrows s hs
    rw [Ledger.take_takenBy_of_ne hne]
    exact hi.rows s hmem
  bearer h hs ht := by
    have hne : h ≠ tokenHash := by
      rintro rfl
      simp at ht
    rw [Ledger.take_takenBy_of_ne hne] at ht
    exact hi.bearer h hs ht
  taken h k ht := by
    by_cases hh : h = tokenHash
    · exact hh ▸ hseen
    · rw [Ledger.take_takenBy_of_ne hh] at ht
      exact hi.taken h k ht

theorem SessionsInv.rotate (hi : SessionsInv b rows l) (hseen : l.seen tokenHash = true)
    (hfree : l.takenBy tokenHash = none)
    (hrows : ∀ s ∈ rows', s ∈ rows ∧ s.tokenHash ≠ tokenHash) :
    SessionsInv (Function.update b (l.sessionOrigin tokenHash).root (some (.request i)))
      rows' (l.take tokenHash i) where
  rows := (hi.take hseen hrows).rows
  bearer h hs ht := by
    have hb : b (l.sessionOrigin h).root = some (.session h) := (hi.take hseen hrows).bearer h hs ht
    rw [Function.update_of_ne]
    · exact hb
    · -- Two sessions of one login would both be its bearer.
      intro (hroot : (l.sessionOrigin h).root = _)
      rw [hroot, hi.bearer tokenHash hseen hfree] at hb
      cases hb
      simp at ht
  taken := (hi.take hseen hrows).taken

theorem SessionsInv.insert {origin : Origin} (hi : SessionsInv b rows l)
    (hfresh : l.seen tokenHash = false) (hb : b origin.root = some (.request i))
    (hrows : ∀ s ∈ rows', s ∈ rows ∨ s.tokenHash = tokenHash) :
    SessionsInv (Function.update b origin.root (some (.session tokenHash))) rows'
      (l.addSession tokenHash origin) where
  rows s hs := by
    by_cases hh : s.tokenHash = tokenHash
    · have hfree : l.takenBy tokenHash = none := by
        by_contra ht
        obtain ⟨k, hk⟩ := Option.ne_none_iff_exists'.mp ht
        simp [hi.taken _ k hk] at hfresh
      rw [hh, Ledger.addSession_seen_self]
      exact ⟨rfl, hfree⟩
    · rw [Ledger.addSession_seen_of_ne hh]
      exact hi.rows s ((hrows s hs).resolve_right hh)
  bearer h hs ht := by
    by_cases hh : h = tokenHash
    · simp [hh]
    · rw [Ledger.addSession_seen_of_ne hh] at hs
      have hold := hi.bearer h hs ht
      rw [Ledger.addSession_origin_of_ne hh, Function.update_of_ne]
      · exact hold
      · intro hroot
        rw [hroot, hb] at hold
        cases hold
  taken h k ht := by
    by_cases hh : h = tokenHash
    · simp [hh]
    · rw [Ledger.addSession_seen_of_ne hh]
      exact hi.taken h k ht

/-! ## Every step keeps the bearers -/

theorem undisturbed_of_same (hseen : l'.seen = l.seen) (horigin : l'.sessionOrigin = l.sessionOrigin)
    (htaken : l'.takenBy = l.takenBy) : Undisturbed b b l l' j where
  login h := h
  request _ h := h
  seen h hs := ⟨by rw [hseen, hs], by rw [horigin]⟩
  taken h ht := by rw [htaken, ht]

section

variable {cfg : AuthConfig} {verifyPassword : String → String → Bool} {c c' : Auth}
  {rq : Request} {pc : Pc} {t' : Thread} {now : Int} {draw : Draw}

def Kept (hashToken : String → String) (b : Bearers) (c c' : Auth) (i : Nat) (t' : Thread) : Prop :=
  ∃ b', SessionsInv b' c'.db.browserSessions.rows c'.ledger ∧
    Assertion hashToken b' c'.ledger i t' ∧
    ∀ j t, j ≠ i → Assertion hashToken b c.ledger j t → Assertion hashToken b' c'.ledger j t

theorem kept_of_same (hi : SessionsInv b c.db.browserSessions.rows c.ledger)
    (hseen : c'.ledger.seen = c.ledger.seen)
    (horigin : c'.ledger.sessionOrigin = c.ledger.sessionOrigin)
    (htaken : c'.ledger.takenBy = c.ledger.takenBy)
    (hrows : ∀ s ∈ c'.db.browserSessions.rows, s ∈ c.db.browserSessions.rows)
    (hown : Assertion hashToken b c'.ledger i t') : Kept hashToken b c c' i t' := by
  refine ⟨b, ?_, hown, ?_⟩
  · obtain ⟨hr, hb, ht⟩ := hi.subset hrows
    constructor <;> simpa only [hseen, horigin, htaken]
  · intro j t _ h
    exact h.undisturbed (undisturbed_of_same hseen horigin htaken)

theorem start_kept (hi : SessionsInv b c.db.browserSessions.rows c.ledger)
    (hfree : b (.login i) = none)
    (h : start hashToken verifyPassword c i now rq = (c', t')) : Kept hashToken b c c' i t' := by
  rcases start_cases h with ⟨username, password, id, hash, rfl, -, rfl, rfl⟩ |
    ⟨refresh, csrf, id, rfl, hsel, rfl, rfl⟩ | ⟨refresh, csrf, rfl, hrev, rfl, rfl⟩ |
    ⟨username, passwordHash, id, rfl, -, rfl, rfl⟩ | ⟨e, rfl, rfl⟩
  · -- A login becomes the bearer of its own root.
    refine ⟨_, hi.login hfree, ⟨by simp, by simp [Took, Request.session]⟩, ?_⟩
    intro j t hj ht
    apply ht.undisturbed
    apply undisturbed_bearer (i := i) _ hj
    · intro _ hroot
      exact hj (Root.login.inj hroot).symm
    · intro k hk
      rw [hfree] at hk
      cases hk
  · -- A refresh has read a row, so its session was seen.
    obtain ⟨r, hr, htoken, -⟩ := SystemDb.selectSession_mem hsel
    have hseen := (hi.rows r hr).1
    rw [htoken] at hseen
    exact kept_of_same hi rfl rfl rfl (fun _ hs => hs) ⟨rfl, hseen, rfl⟩
  · obtain ⟨⟨r, hr, htoken⟩, hrows⟩ := SystemDb.revokeSession_hit hrev
    obtain ⟨hseen, hfree⟩ := hi.rows r hr
    rw [htoken] at hseen hfree
    refine ⟨b, hi.take hseen hrows, ?_, ?_⟩
    · rintro - _ ⟨⟩
      exact Ledger.take_takenBy_self
    · intro j t _ ht
      exact ht.undisturbed (undisturbed_take hfree i j)
  · exact kept_of_same hi rfl rfl rfl (fun _ hs => hs) trivial
  · refine kept_of_same hi rfl rfl rfl (fun _ hs => hs) ?_
    intro hr
    cases hr

theorem deleteSession_kept {subject : Subject}
    (hi : SessionsInv b c.db.browserSessions.rows c.ledger)
    (hown : Assertion hashToken b c.ledger i (.running rq (.deleteSession tokenHash subject)))
    (hfree : c.ledger.takenBy tokenHash = none) :
    Kept hashToken b c ⟨c.db.deleteSession tokenHash, c.ledger.take tokenHash i⟩ i
      (.running rq (.purgeAccess subject)) := by
  obtain ⟨hsession, hseen, horigin⟩ := hown
  have hb := hi.bearer tokenHash hseen hfree
  rw [← horigin] at hb
  refine ⟨_, hi.rotate hseen hfree fun s hs => SystemDb.deleteSession_mem hs, ⟨?_, ?_⟩, ?_⟩
  · rw [horigin, Function.update_self]
  · intro h hh
    rw [hsession] at hh
    cases hh
    exact Ledger.take_takenBy_self
  · intro j t hj ht
    rw [← horigin]
    apply ht.undisturbed
    apply (undisturbed_bearer (i := i) _ hj _).trans (undisturbed_take hfree i j)
    · intro k hk
      rw [hb] at hk
      cases hk
    · intro hk
      rw [hb] at hk
      cases hk

theorem insertSession_kept {subject : Subject} {db : SystemDb} {row : SessionRow} {reply : Reply}
    (hi : SessionsInv b c.db.browserSessions.rows c.ledger)
    (hown : Issuing hashToken b c.ledger i rq subject)
    (hfresh : c.ledger.seen row.tokenHash = false) (hdb : c.db.insertSession row = some db) :
    Kept hashToken b c ⟨db, c.ledger.addSession row.tokenHash subject.origin⟩ i
      (.done rq reply) := by
  obtain ⟨t, ht, rfl⟩ := SystemDb.insertSession_cases hdb
  obtain ⟨hb, htook⟩ := hown
  refine ⟨_, hi.insert hfresh hb ?_, fun _ => htook, ?_⟩
  · intro s hs
    rcases (Table.mem_insert ht).mp hs with hs | rfl
    · exact Or.inl hs
    · exact Or.inr rfl
  · intro j t hj ha
    apply ha.undisturbed
    apply (undisturbed_bearer (i := i) _ hj _).trans
      (undisturbed_addSession hfresh subject.origin j)
    · intro k hk
      rw [hb] at hk
      cases hk
      rfl
    · intro hk
      rw [hb] at hk
      cases hk

theorem sessions_keeps (cfg : AuthConfig) (hashToken : String → String)
    (verifyPassword : String → String → Bool) :
    Keeps (next cfg hashToken verifyPassword) (usedOnce hashToken)
      (fun b c => SessionsInv b c.db.browserSessions.rows c.ledger)
      (fun b c i t => Assertion hashToken b c.ledger i t) := by
  intro b c i t a c' t' hi hown hok hnext
  rcases next_cases hnext with ⟨rq, rfl, rfl, rfl⟩ | ⟨rq, pc, draw, rfl, rfl, hstmt⟩ |
    ⟨rq, pc, e, rfl, rfl, rfl⟩
  · exact kept_of_same hi rfl rfl rfl (fun _ hs => hs) hown
  · obtain ⟨hfresh, hfree⟩ := hok
    cases pc with
    | start => exact start_kept hi hown hstmt
    | deleteSession tokenHash subject =>
      cases hstmt
      exact deleteSession_kept hi hown (hfree rfl tokenHash rfl)
    | purgeAccess subject =>
      cases hstmt
      exact kept_of_same hi rfl rfl rfl (fun _ hs => hs) hown
    | purgeSessions subject drawn =>
      cases hstmt
      exact kept_of_same hi rfl rfl rfl (fun _ hs => (Table.mem_delete.mp hs).1) hown
    | insertAccess subject drawn =>
      simp only [statement] at hstmt
      split at hstmt
      · cases hstmt
        exact kept_of_same hi rfl rfl rfl (fun _ hs => hs) nofun
      · next db hdb =>
        cases hstmt
        obtain ⟨_, -, rfl⟩ := SystemDb.insertAccessToken_cases hdb
        exact kept_of_same hi rfl rfl rfl (fun _ hs => hs) hown
    | insertSession subject drawn =>
      simp only [statement] at hstmt
      split at hstmt
      · cases hstmt
        exact kept_of_same hi rfl rfl rfl (fun _ hs => hs) nofun
      · next db hdb =>
        cases hstmt
        exact insertSession_kept hi hown (hfresh rfl drawn.refresh rfl) hdb
    | setPassword id passwordHash =>
      cases hstmt
      exact kept_of_same hi rfl rfl rfl (fun _ hs => hs) trivial
    | revokeAccess id =>
      cases hstmt
      exact kept_of_same hi rfl rfl rfl (fun _ hs => hs) trivial
    | revokeSessions id =>
      cases hstmt
      exact kept_of_same hi rfl rfl rfl (fun _ hs => (Table.mem_delete.mp hs).1) nofun
  · exact kept_of_same hi rfl rfl rfl (fun _ hs => hs) nofun

end

/-! ## Any number of requests on one session -/

/-- The bearers on a database that the server comes up on: each session is its own login. -/
def bootBearers : Bearers
  | .before tokenHash => some (.session tokenHash)
  | .login _ => none

theorem boot_inv (db : SystemDb) :
    SessionsInv bootBearers db.browserSessions.rows (System.boot db).shared.ledger where
  rows s hs := ⟨Table.any_iff.mpr ⟨s, hs, beq_self_eq_true _⟩, rfl⟩
  bearer _ _ _ := rfl
  taken _ _ h := by cases h

theorem boot_asserted (db : SystemDb) :
    Asserted (fun b (c : Auth) => SessionsInv b c.db.browserSessions.rows c.ledger)
      (fun b c i t => Assertion hashToken b c.ledger i t) (System.boot db) :=
  ⟨bootBearers, boot_inv db, fun _ => rfl⟩

/-- In a run where no rotation deletes a session that another request has taken since its SELECT,
at most one request on a session succeeds, none finds the session again afterwards, and no login
has two sessions. -/
theorem refresh_used_once (cfg : AuthConfig) (hashToken : String → String)
    (verifyPassword : String → String → Bool) (db : SystemDb) (s : System)
    (h : Reach (Threads.step (next cfg hashToken verifyPassword)) (moving (usedOnce hashToken))
      (System.boot db) s) :
    (∀ i j tokenHash, Succeeded hashToken s i tokenHash → Succeeded hashToken s j tokenHash →
      i = j) ∧
    (∀ i tokenHash, Succeeded hashToken s i tokenHash →
      ∀ row ∈ s.shared.db.browserSessions.rows, row.tokenHash ≠ tokenHash) ∧
    ∀ row ∈ s.shared.db.browserSessions.rows, ∀ row' ∈ s.shared.db.browserSessions.rows,
      (s.shared.ledger.sessionOrigin row.tokenHash).root =
        (s.shared.ledger.sessionOrigin row'.tokenHash).root → row = row' := by
  obtain ⟨b, hi, ha⟩ :=
    Asserted.run (sessions_keeps cfg hashToken verifyPassword) (boot_asserted db) h
  have htaken : ∀ i tokenHash, Succeeded hashToken s i tokenHash →
      s.shared.ledger.takenBy tokenHash = some i := by
    rintro i tokenHash ⟨rq, reply, hdone, hsession, hreply⟩
    have := ha i
    rw [hdone] at this
    exact this hreply tokenHash hsession
  refine ⟨?_, ?_, ?_⟩
  · intro i j tokenHash hi' hj'
    have := (htaken i tokenHash hi').symm.trans (htaken j tokenHash hj')
    exact Option.some.inj this
  · rintro i tokenHash hs row hrow rfl
    have := (hi.rows row hrow).2
    rw [htaken i _ hs] at this
    cases this
  · intro row hrow row' hrow' hroot
    have hb := hi.bearer _ (hi.rows row hrow).1 (hi.rows row hrow).2
    have hb' := hi.bearer _ (hi.rows row' hrow').1 (hi.rows row' hrow').2
    rw [hroot, hb'] at hb
    exact (Table.eq_of_key hrow' hrow (Bearer.session.inj (Option.some.inj hb))).symm

/-! ## Runs -/

def ttls : AuthConfig := { accessTokenTtlSecs := 900, refreshTokenTtlSecs := 2592000 }

def hashed (text : String) : String := "#" ++ text

def verified (hash password : String) : Bool := hash == hashed password

def alice : PrincipalRow where
  id := "01A"
  name := "alice"
  isAdmin := false
  tokenHash := "-"
  disabled := false
  createdAt := 0
  username := some "alice"
  passwordHash := some (hashed "long enough")

def aliceDb : SystemDb where
  databases := .empty
  principals := ⟨[alice], List.nodup_singleton _⟩
  grants := .empty
  browserAccessTokens := .empty
  browserSessions := .empty

def drawn (n : String) : Draw :=
  { now := 1000, access := "a" ++ n, refresh := "r" ++ n, csrf := "c" ++ n }

def runs (i k : Nat) (n : String) : List (Nat × Act) := List.replicate k (i, .run (drawn n))

def login (i : Nat) (n : String) : List (Nat × Act) :=
  (i, .arrive (.login "alice" "long enough")) :: runs i 5 n

/-- Two refresh requests read the session before either deletes it. -/
def twiceRun : List (Nat × Act) :=
  login 0 "1" ++ [(1, .arrive (.refresh "r1" "c1")), (2, .arrive (.refresh "r1" "c1"))] ++
    runs 1 1 "2" ++ runs 2 1 "3" ++ runs 1 5 "2" ++ runs 2 5 "3"

/-- Both succeed, and one login has two sessions. -/
theorem session_refreshed_twice :
    Allowed (Threads.step (next ttls hashed verified))
      (moving fun c _ t a => freshToken hashed c t a) (System.boot aliceDb) twiceRun ∧
    ∃ s, exec (Threads.step (next ttls hashed verified)) (System.boot aliceDb) twiceRun = some s ∧
      Succeeded hashed s 1 (hashed "r1") ∧ Succeeded hashed s 2 (hashed "r1") ∧
      s.shared.db.browserSessions.rows.map
        (fun row => (row.tokenHash, (s.shared.ledger.sessionOrigin row.tokenHash).root)) =
          [(hashed "r2", .login 0), (hashed "r3", .login 0)] :=
  ⟨by decide, _, rfl, ⟨_, _, rfl, rfl, rfl⟩, ⟨_, _, rfl, rfl, rfl⟩, rfl⟩

/-- A refresh, a second one on the old session, and a logout on the new one. -/
def onceRun : List (Nat × Act) :=
  login 0 "1" ++ [(1, .arrive (.refresh "r1" "c1"))] ++ runs 1 6 "2" ++
    [(2, .arrive (.refresh "r1" "c1"))] ++ runs 2 1 "3" ++
    [(3, .arrive (.logout "r2" "c2"))] ++ runs 3 1 "4"

theorem refresh_used_once_onceRun :
    ∃ s, exec (Threads.step (next ttls hashed verified)) (System.boot aliceDb) onceRun = some s ∧
      Succeeded hashed s 1 (hashed "r1") ∧ Succeeded hashed s 3 (hashed "r2") ∧
      ∀ j, Succeeded hashed s j (hashed "r1") → 1 = j := by
  have hok : Allowed (Threads.step (next ttls hashed verified)) (moving (usedOnce hashed))
      (System.boot aliceDb) onceRun := by decide
  have hrun : ∃ s, exec (Threads.step (next ttls hashed verified)) (System.boot aliceDb)
      onceRun = some s ∧ Succeeded hashed s 1 (hashed "r1") ∧ Succeeded hashed s 3 (hashed "r2") :=
    ⟨_, rfl, ⟨_, _, rfl, rfl, rfl⟩, ⟨_, _, rfl, rfl, rfl⟩⟩
  obtain ⟨s, hexec, h1, h3⟩ := hrun
  refine ⟨s, hexec, h1, h3, ?_⟩
  intro j hj
  exact (refresh_used_once ttls hashed verified aliceDb s (.of_exec onceRun hok hexec)).1 1 j _ h1 hj

end TinyLord.Browser
