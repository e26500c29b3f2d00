import TinyLord.Ids
import TinyLord.Lib.Threads
import TinyLord.System.Tables

/-!
# Grants and their databases

The admin requests on databases and grants as threads over `_system.db`. There is no foreign
key. `create_grant` checks that the database is registered in one statement and inserts in
another, and a deletion takes the record in one statement and the grants in another.
-/

open Lib Lib.Run Lib.Threads

namespace TinyLord.Grants

/-! ## Requests -/

inductive Request where
  | createDatabase (name : String)
  | deleteDatabase (name : String)
  | createGrant (principalId database role : String)
  | deleteGrant (principalId database : String)

inductive Reply where
  | created (name : String) (createdAt : Int)
  | granted (principalId database : String) (role : Role)
  | noContent
  | error (e : ApiError)

def missing : Reply := .error (.notFound "database not found")
def badRole : Reply := .error (.validation "role must be 'read', 'write', or 'admin'")

/-- Kept for the statements. Nothing in the code reads it. -/
structure Ledger where
  created : String → Nat
  /-- By principal and database: which creation of the database was the newest when the grant was
  accepted last. -/
  acceptedIn : String × String → Nat

structure Admin where
  db : SystemDb
  ledger : Ledger

inductive Pc where
  | start
  /-- `init_new_database` creates the file. -/
  | initDatabase (createdAt : Int)
  /-- `drop_database` closes the handle and removes the files. -/
  | dropDatabase
  | deleteRecord
  | deleteGrants
  | upsertGrant (role : Role)

inductive Thread where
  | idle
  | running (rq : Request) (pc : Pc)
  | done (rq : Request) (reply : Reply)

/-- A thread that does no more steps has been stopped with its process. -/
inductive Act where
  | arrive (rq : Request)
  | run (now : Int)
  | fail

/-- The name that a request checks before its first statement. -/
def Request.checkedName : Request → Option String
  | .createDatabase name | .deleteDatabase name | .createGrant _ name _ => some name
  | .deleteGrant _ _ => none

def check (rq : Request) : Except ApiError Unit :=
  rq.checkedName.elim (.ok ()) (requireValidName "database")

def start (c : Admin) (now : Int) (rq : Request) : Admin × Thread :=
  match rq with
  | .createDatabase name =>
    match c.db.insertDatabase name now with
    | (db, some createdAt) =>
      (⟨db, { c.ledger with
          created := Function.update c.ledger.created name (c.ledger.created name + 1) }⟩,
        .running rq (.initDatabase createdAt))
    | (db, none) => (⟨db, c.ledger⟩, .done rq (.error (.conflict "database already exists")))
  | .deleteDatabase name =>
    if c.db.databaseExists name then (c, .running rq .dropDatabase) else (c, .done rq missing)
  | .createGrant _ database role =>
    match Role.parse role with
    | none => (c, .done rq badRole)
    | some role =>
      if c.db.databaseExists database then (c, .running rq (.upsertGrant role))
      else (c, .done rq missing)
  | .deleteGrant principalId database =>
    (⟨c.db.deleteGrant principalId database, c.ledger⟩, .done rq .noContent)

/-- The step at a place of the request. A place that the request does not have is no step. -/
def statement (c : Admin) (now : Int) : Request → Pc → Option (Admin × Thread)
  | rq, .start =>
    match check rq with
    | .error e => some (c, .done rq (.error e))
    | .ok () => some (start c now rq)
  | .createDatabase name, .initDatabase createdAt =>
    some (c, .done (.createDatabase name) (.created name createdAt))
  | .deleteDatabase name, .dropDatabase =>
    some (c, .running (.deleteDatabase name) .deleteRecord)
  | .deleteDatabase name, .deleteRecord =>
    some (⟨c.db.deleteDatabase name, c.ledger⟩, .running (.deleteDatabase name) .deleteGrants)
  | .deleteDatabase name, .deleteGrants =>
    some (⟨c.db.deleteGrantsOf name, c.ledger⟩, .done (.deleteDatabase name) .noContent)
  | .createGrant principalId database text, .upsertGrant role =>
    some (⟨c.db.upsertGrant principalId database role, { c.ledger with
        acceptedIn := Function.update c.ledger.acceptedIn (principalId, database)
          (c.ledger.created database) }⟩,
      .done (.createGrant principalId database text) (.granted principalId database role))
  | _, _ => none

def next (c : Admin) (_ : Nat) : Thread → Act → Option (Admin × Thread)
  | .idle, .arrive rq => some (c, .running rq .start)
  | .running rq pc, .run now => statement c now rq pc
  | .running rq _, .fail => some (c, .done rq (.error .internal))
  | _, _ => none

/-- `AppState::authorize`. Its two statements see the tables at two times. -/
def authorize (db db' : SystemDb) (principalId database : String) (needed : Role) :
    Except ApiError Unit :=
  match requireValidName "database" database with
  | .error e => .error e
  | .ok () =>
    if !db.databaseExists database then .error (.notFound "database not found")
    else
      match db'.grantRole principalId database with
      | some role =>
        if needed.rank ≤ role.rank then .ok ()
        else .error (.forbidden ("requires '" ++ needed.asStr ++ "' on database"))
      | none => .error (.forbidden ("requires '" ++ needed.asStr ++ "' on database"))

abbrev System := Pool Admin Thread

def System.boot (db : SystemDb) : System where
  shared := ⟨db, { created := fun _ => 0, acceptedIn := fun _ => 0 }⟩
  threads := fun _ => .idle

/-! ## What the statements are about -/

def Act.isRun : Act → Bool
  | .run _ => true
  | _ => false

def Act.isFail : Act → Bool
  | .fail => true
  | _ => false

def Thread.deletingRecord : Thread → Option String
  | .running (.deleteDatabase name) .deleteRecord => some name
  | _ => none

/-- Between the two DELETEs of a deletion. -/
def Thread.midway : Thread → Option String
  | .running (.deleteDatabase name) .deleteGrants => some name
  | _ => none

/-- Between the check and the INSERT of a `create_grant`. -/
def Thread.granting : Thread → Option String
  | .running (.createGrant _ database _) (.upsertGrant _) => some database
  | _ => none

/-- Before the INSERT of a `create_database`. -/
def Thread.creating : Thread → Option String
  | .running (.createDatabase name) .start => some name
  | _ => none

/-- No deletion takes a record while a `create_grant` for it is between its check and its INSERT.
From the first DELETE of a deletion to the second it does not fail, and nobody creates the database.
A process that stops there is a deletion that stays between the two. -/
def orderly (s : System) (a : Nat × Act) : Prop :=
  (a.2.isFail → (s.threads a.1).midway = none) ∧
  (a.2.isRun → ∀ j, ∀ name ∈ (s.threads j).granting, (s.threads a.1).deletingRecord ≠ some name) ∧
  (a.2.isRun → ∀ j, ∀ name ∈ (s.threads j).midway, (s.threads a.1).creating ≠ some name)

/-- A record is deleted only when its database has no grants. -/
def ungranted (s : System) (a : Nat × Act) : Prop :=
  a.2.isRun → ∀ name ∈ (s.threads a.1).deletingRecord,
    ∀ g ∈ s.shared.db.grants.rows, g.databaseName ≠ name

def Registered (db : SystemDb) : Prop :=
  ∀ g ∈ db.grants.rows, db.databaseExists g.databaseName = true

instance (db : SystemDb) : Decidable (Registered db) :=
  inferInstanceAs (Decidable (∀ g ∈ db.grants.rows, _))

def Current (c : Admin) : Prop :=
  ∀ g ∈ c.db.grants.rows, c.ledger.acceptedIn g.key = c.ledger.created g.databaseName

/-! ## What a step does -/

variable {c c' : Admin} {i : Nat} {t t' : Thread} {a : Act} {rq : Request} {now : Int} {pc : Pc}

theorem start_cases (h : start c now rq = (c', t')) :
    (∃ name, rq = .createDatabase name ∧ c.db.databaseExists name = false ∧ c'.db.grants = c.db.grants ∧
      (∀ n, c'.db.databaseExists n = true ↔ c.db.databaseExists n = true ∨ n = name) ∧
      c'.ledger = { c.ledger with
        created := Function.update c.ledger.created name (c.ledger.created name + 1) }) ∨
    (∃ principalId database, c' = ⟨c.db.deleteGrant principalId database, c.ledger⟩) ∨ c' = c := by
  cases rq with
  | createDatabase name =>
    simp only [start] at h
    split at h
    · next db createdAt hins =>
      cases h
      rcases SystemDb.insertDatabase_cases hins with ⟨-, hnew, hgrants, hexists⟩ | ⟨hnone, -⟩
      · exact Or.inl ⟨name, rfl, hnew, hgrants, hexists, rfl⟩
      · cases hnone
    · next db hins =>
      cases h
      rcases SystemDb.insertDatabase_cases hins with ⟨hsome, -⟩ | ⟨-, rfl⟩
      · cases hsome
      · exact Or.inr (Or.inr rfl)
  | deleteDatabase name =>
    simp only [start] at h
    split at h <;> cases h <;> exact Or.inr (Or.inr rfl)
  | createGrant principalId database role =>
    simp only [start] at h
    split at h
    · cases h
      exact Or.inr (Or.inr rfl)
    · split at h <;> cases h <;> exact Or.inr (Or.inr rfl)
  | deleteGrant principalId database =>
    cases h
    exact Or.inr (Or.inl ⟨principalId, database, rfl⟩)

inductive Moved (c : Admin) (t : Thread) (a : Act) (c' : Admin) (t' : Thread) : Prop
  | created (name : String) (hrun : a.isRun) (hat : t.creating = some name)
      (hnew : c.db.databaseExists name = false) (hgrants : c'.db.grants = c.db.grants)
      (hexists : ∀ n, c'.db.databaseExists n = true ↔ c.db.databaseExists n = true ∨ n = name)
      (hledger : c'.ledger = { c.ledger with
        created := Function.update c.ledger.created name (c.ledger.created name + 1) })
  | recordDeleted (name : String) (hrun : a.isRun) (hat : t.deletingRecord = some name)
      (hmid : t'.midway = some name) (hc : c' = ⟨c.db.deleteDatabase name, c.ledger⟩)
  | grantsDeleted (name : String) (hat : t.midway = some name)
      (hc : c' = ⟨c.db.deleteGrantsOf name, c.ledger⟩)
  | granted (principalId database : String) (role : Role) (hat : t.granting = some database)
      (hc : c' = ⟨c.db.upsertGrant principalId database role, { c.ledger with
        acceptedIn := Function.update c.ledger.acceptedIn (principalId, database)
          (c.ledger.created database) }⟩)
  | other (hmid : t.midway = none ∨ a.isFail) (hledger : c'.ledger = c.ledger)
      (hdatabases : c'.db.databases = c.db.databases)
      (hsub : ∀ g ∈ c'.db.grants.rows, g ∈ c.db.grants.rows)

theorem midway_start (rq : Request) : (Thread.running rq .start).midway = none := by
  cases rq <;> rfl

theorem granting_start (rq : Request) : (Thread.running rq .start).granting = none := by
  cases rq <;> rfl

theorem start_moved (h : start c now rq = (c', t')) :
    Moved c (.running rq .start) (.run now) c' t' := by
  rcases start_cases h with ⟨name, hrq, hnew, hgrants, hexists, hledger⟩ |
    ⟨principalId, database, rfl⟩ | rfl
  · exact .created name rfl (by rw [hrq]; rfl) hnew hgrants hexists hledger
  · exact .other (Or.inl (midway_start _)) rfl rfl fun _ hg => (Table.mem_delete.mp hg).1
  · exact .other (Or.inl (midway_start _)) rfl rfl fun _ hg => hg

theorem next_moved (h : next c i t a = some (c', t')) : Moved c t a c' t' := by
  match t, a with
  | .idle, .arrive rq =>
    cases h
    exact .other (Or.inl rfl) rfl rfl fun _ hg => hg
  | .running rq _, .fail =>
    cases h
    exact .other (Or.inr rfl) rfl rfl fun _ hg => hg
  | .running rq pc, .run now =>
    simp only [next] at h
    unfold statement at h
    split at h
    · split at h
      · cases h
        exact .other (Or.inl (midway_start _)) rfl rfl fun _ hg => hg
      · exact start_moved (Option.some.inj h)
    · cases h
      exact .other (Or.inl rfl) rfl rfl fun _ hg => hg
    · cases h
      exact .other (Or.inl rfl) rfl rfl fun _ hg => hg
    · next name =>
      cases h
      exact .recordDeleted name rfl rfl rfl rfl
    · next name =>
      cases h
      exact .grantsDeleted name rfl rfl
    · next principalId database text role =>
      cases h
      exact .granted principalId database role rfl rfl
    · cases h
  | .idle, .run _ | .idle, .fail | .running _ _, .arrive _ | .done _ _, _ => cases h

theorem start_granting (h : start c now rq = (c', t')) :
    ∀ database ∈ t'.granting, c'.db.databaseExists database = true := by
  intro database hgrant
  cases rq with
  | createDatabase name =>
    simp only [start] at h
    split at h <;> cases h <;> cases hgrant
  | deleteDatabase name =>
    simp only [start] at h
    split at h <;> cases h <;> cases hgrant
  | createGrant principalId d role =>
    simp only [start] at h
    split at h
    · cases h
      cases hgrant
    · split at h
      · next hexists =>
        cases h
        cases hgrant
        exact hexists
      · cases h
        cases hgrant
  | deleteGrant principalId d =>
    cases h
    cases hgrant

theorem next_granting (h : next c i t a = some (c', t')) :
    ∀ database ∈ t'.granting, c'.db.databaseExists database = true := by
  match t, a with
  | .idle, .arrive rq =>
    cases h
    rw [granting_start]
    nofun
  | .running rq _, .fail =>
    cases h
    nofun
  | .running rq pc, .run now =>
    simp only [next] at h
    unfold statement at h
    split at h
    · split at h
      · cases h
        nofun
      · exact start_granting (Option.some.inj h)
    all_goals cases h
    all_goals nofun
  | .idle, .run _ | .idle, .fail | .running _ _, .arrive _ | .done _ _, _ => cases h

/-! ## Every grant has its database -/

/-- A grant names a registered database, or one whose deletion is between its two DELETEs. -/
def Named (s : System) : Prop :=
  ∀ g ∈ s.shared.db.grants.rows, s.shared.db.databaseExists g.databaseName = true ∨
    ∃ j, (s.threads j).midway = some g.databaseName

structure Inv (s : System) : Prop where
  named : Named s
  granting : ∀ j, ∀ d ∈ (s.threads j).granting, s.shared.db.databaseExists d = true
  current : Current s.shared

variable {s s' : System} {act : Nat × Act}

theorem midway_update {name : String} {p : Thread} (hown : (s.threads i).midway ≠ some name)
    (h : ∃ j, (s.threads j).midway = some name) :
    ∃ j, (Function.update s.threads i p j).midway = some name := by
  obtain ⟨j, hj⟩ := h
  refine ⟨j, ?_⟩
  have hne : j ≠ i := by
    rintro rfl
    exact hown hj
  rwa [Function.update_of_ne hne]

theorem creating_midway {name n : String} (h : t.creating = some name) : t.midway ≠ some n := by
  unfold Thread.creating at h
  split at h
  · simp [Thread.midway]
  · cases h

theorem deletingRecord_midway {name n : String} (h : t.deletingRecord = some name) :
    t.midway ≠ some n := by
  unfold Thread.deletingRecord at h
  split at h
  · simp [Thread.midway]
  · cases h

theorem granting_midway {name n : String} (h : t.granting = some name) : t.midway ≠ some n := by
  unfold Thread.granting at h
  split at h
  · simp [Thread.midway]
  · cases h

theorem named_step (hi : Inv s) (hok : orderly s act)
    (hm : Moved s.shared (s.threads act.1) act.2 c' t') :
    Named ⟨c', Function.update s.threads act.1 t'⟩ := by
  intro g hg
  cases hm with
  | created name hrun hat hnew hgrants hexists hledger =>
    rw [hgrants] at hg
    rcases hi.named g hg with hreg | hmid
    · exact Or.inl ((hexists _).mpr (Or.inl hreg))
    · exact Or.inr (midway_update (creating_midway hat) hmid)
  | recordDeleted name hrun hat hmid hc =>
    subst hc
    by_cases hname : g.databaseName = name
    · exact Or.inr ⟨act.1, by simpa [hname] using hmid⟩
    · rcases hi.named g hg with hreg | hother
      · exact Or.inl (SystemDb.databaseExists_deleteDatabase.mpr ⟨hreg, hname⟩)
      · exact Or.inr (midway_update (deletingRecord_midway hat) hother)
  | grantsDeleted name hat hc =>
    subst hc
    obtain ⟨hg, hne⟩ := Table.mem_delete.mp hg
    rcases hi.named g hg with hreg | hother
    · exact Or.inl hreg
    · refine Or.inr (midway_update ?_ hother)
      rw [hat]
      simpa using fun h : name = g.databaseName => by simp [h] at hne
  | granted principalId database role hat hc =>
    subst hc
    rcases Table.mem_upsert.mp hg with ⟨hg, -⟩ | rfl
    · rcases hi.named g hg with hreg | hother
      · exact Or.inl hreg
      · exact Or.inr (midway_update (granting_midway hat) hother)
    · exact Or.inl (hi.granting act.1 database hat)
  | other hmid hledger hdatabases hsub =>
    have hown : (s.threads act.1).midway = none := hmid.elim id hok.1
    rcases hi.named g (hsub g hg) with hreg | hother
    · refine Or.inl ?_
      simpa only [SystemDb.databaseExists, hdatabases] using hreg
    · exact Or.inr (midway_update (by simp [hown]) hother)

theorem granting_step (hi : Inv s) (hok : orderly s act)
    (hnext : next s.shared act.1 (s.threads act.1) act.2 = some (c', t')) (j : Nat) :
    ∀ d ∈ (Function.update s.threads act.1 t' j).granting, c'.db.databaseExists d = true := by
  by_cases hj : j = act.1
  · subst hj
    rw [Function.update_self]
    exact next_granting hnext
  · rw [Function.update_of_ne hj]
    intro d hd
    have hreg := hi.granting j d hd
    cases next_moved hnext with
    | created name hrun hat hnew hgrants hexists hledger => exact (hexists d).mpr (Or.inl hreg)
    | recordDeleted name hrun hat hmid hc =>
      subst hc
      refine SystemDb.databaseExists_deleteDatabase.mpr ⟨hreg, ?_⟩
      rintro rfl
      exact hok.2.1 hrun j d hd hat
    | grantsDeleted name hat hc => exact hc ▸ hreg
    | granted principalId database role hat hc => exact hc ▸ hreg
    | other hmid hledger hdatabases hsub =>
      simpa only [SystemDb.databaseExists, hdatabases] using hreg

theorem current_step (hi : Inv s) (hok : orderly s act)
    (hm : Moved s.shared (s.threads act.1) act.2 c' t') : Current c' := by
  intro g hg
  cases hm with
  | created name hrun hat hnew hgrants hexists hledger =>
    -- A database that is just created was not registered, nor is it being deleted: it has no grants.
    rw [hgrants] at hg
    have hne : g.databaseName ≠ name := by
      rintro rfl
      rcases hi.named g hg with hreg | ⟨j, hj⟩
      · rw [hnew] at hreg
        cases hreg
      · exact hok.2.2 hrun j _ hj hat
    rw [hledger]
    simp only [Function.update_of_ne hne]
    exact hi.current g hg
  | recordDeleted name hrun hat hmid hc =>
    subst hc
    exact hi.current g hg
  | grantsDeleted name hat hc =>
    subst hc
    exact hi.current g (Table.mem_delete.mp hg).1
  | granted principalId database role hat hc =>
    subst hc
    rcases Table.mem_upsert.mp hg with ⟨hg, hne⟩ | rfl
    · have hne' : g.key ≠ (principalId, database) := hne
      simp only [Function.update_of_ne hne']
      exact hi.current g hg
    · simp [GrantRow.key]
  | other hmid hledger hdatabases hsub =>
    rw [hledger]
    exact hi.current g (hsub g hg)

theorem inv_step (hi : Inv s) (hok : orderly s act) (h : Threads.step next s act = some s') :
    Inv s' := by
  obtain ⟨c', t', hnext, rfl⟩ := step_cases h
  have hm := next_moved hnext
  exact ⟨named_step hi hok hm, granting_step hi hok hnext, current_step hi hok hm⟩

theorem registered_step (hi : Inv s) (hr : Registered s.shared.db) (hnone : ungranted s act)
    (h : Threads.step next s act = some s') : Registered s'.shared.db := by
  obtain ⟨c', t', hnext, rfl⟩ := step_cases h
  intro g hg
  cases next_moved hnext with
  | created name hrun hat hnew hgrants hexists hledger =>
    rw [hgrants] at hg
    exact (hexists _).mpr (Or.inl (hr g hg))
  | recordDeleted name hrun hat hmid hc =>
    subst hc
    exact SystemDb.databaseExists_deleteDatabase.mpr ⟨hr g hg, hnone hrun name hat g hg⟩
  | grantsDeleted name hat hc =>
    subst hc
    exact hr g (Table.mem_delete.mp hg).1
  | granted principalId database role hat hc =>
    subst hc
    rcases Table.mem_upsert.mp hg with ⟨hg, -⟩ | rfl
    · exact hr g hg
    · exact hi.granting act.1 database hat
  | other hmid hledger hdatabases hsub =>
    have := hr g (hsub g hg)
    simpa only [SystemDb.databaseExists, hdatabases] using this

/-- The deletion of a record with grants leaves a grant without its database. -/
theorem unregistered_of_granted (hgranted : ¬ ungranted s act)
    (h : Threads.step next s act = some s') : ¬ Registered s'.shared.db := by
  obtain ⟨c', t', hnext, rfl⟩ := step_cases h
  intro hr
  apply hgranted
  intro hrun name hname g hg hdel
  unfold Thread.deletingRecord at hname
  split at hname
  · next heq =>
    cases hname
    rw [heq] at hnext
    match act, hrun with
    | (_, .run now), _ =>
      cases hnext
      exact (SystemDb.databaseExists_deleteDatabase.mp (hr g hg)).2 hdel
  · cases hname

theorem authorize_grantRole {db db' : SystemDb} {principalId database : String} {needed : Role}
    (h : authorize db db' principalId database needed = .ok ()) :
    ∃ role, db'.grantRole principalId database = some role := by
  unfold authorize at h
  split at h
  · cases h
  · split at h
    · cases h
    · split at h
      · next role hrole => exact ⟨role, hrole⟩
      · cases h

theorem Inv.authorize (hi : Inv s) {earlier : SystemDb} {principalId database : String}
    {needed : Role} (h : authorize earlier s.shared.db principalId database needed = .ok ()) :
    s.shared.ledger.acceptedIn (principalId, database) = s.shared.ledger.created database := by
  obtain ⟨role, hrole⟩ := authorize_grantRole h
  obtain ⟨g, hg, hkey, -⟩ := SystemDb.grantRole_mem hrole
  have hcur := hi.current g hg
  rw [hkey] at hcur
  rw [hcur, (Prod.mk.inj hkey).2]

theorem inv_boot {db : SystemDb} (hdb : Registered db) : Inv (System.boot db) :=
  ⟨fun g hg => Or.inl (hdb g hg), nofun, fun _ _ => rfl⟩

/-- In an orderly run a grant names a registered database, or one that is between the two DELETEs of
its deletion, and only a grant accepted after the newest creation of the database lets a principal
in. When moreover no database that has grants is deleted, every grant names a registered one. -/
theorem grants_registered (db : SystemDb) (hdb : Registered db) (s : System) :
    (Reach (Threads.step next) orderly (System.boot db) s →
      Named s ∧ ∀ earlier principalId database needed,
        authorize earlier s.shared.db principalId database needed = .ok () →
          s.shared.ledger.acceptedIn (principalId, database) = s.shared.ledger.created database) ∧
    (Reach (Threads.step next) (fun s a => orderly s a ∧ ungranted s a) (System.boot db) s →
      Registered s.shared.db) := by
  constructor
  · intro h
    have hi : Inv s := h.inv Inv (inv_boot hdb) fun _ _ _ ht hok hstep => inv_step ht hok hstep
    exact ⟨hi.named, fun _ _ _ _ hauth => hi.authorize hauth⟩
  · intro h
    have hboth : Inv s ∧ Registered s.shared.db := by
      apply h.inv fun s => Inv s ∧ Registered s.shared.db
      · exact ⟨inv_boot hdb, hdb⟩
      · rintro t a u ⟨hi, hr⟩ ⟨hok, hnone⟩ hstep
        exact ⟨inv_step hi hok hstep, registered_step hi hr hnone hstep⟩
    exact hboth.2

/-! ## Runs -/

def grantedDb : SystemDb where
  databases := ⟨[{ name := "notes", createdAt := 0 }], List.nodup_singleton _⟩
  principals := .empty
  grants := ⟨[{ principalId := "01A", databaseName := "notes", role := "write" }],
    List.nodup_singleton _⟩
  browserAccessTokens := .empty
  browserSessions := .empty

def runs (i k : Nat) : List (Nat × Act) := List.replicate k (i, .run 1000)

/-- The server stops between the two DELETEs, and the database is created again. -/
def stoppedRun : List (Nat × Act) :=
  [(0, .arrive (.deleteDatabase "notes"))] ++ runs 0 3 ++
    [(1, .arrive (.createDatabase "notes"))] ++ runs 1 2

/-- After the first DELETE the grant has no database, and it opens the new one. -/
theorem grant_outlives_database :
    Registered (System.boot grantedDb).shared.db ∧
      (∃ s, exec (Threads.step next) (System.boot grantedDb) (stoppedRun.take 4) = some s ∧
        ¬ Registered s.shared.db) ∧
      ∃ s, exec (Threads.step next) (System.boot grantedDb) stoppedRun = some s ∧
        authorize s.shared.db s.shared.db "01A" "notes" .write = .ok () ∧
        s.shared.ledger.acceptedIn ("01A", "notes") < s.shared.ledger.created "notes" :=
  ⟨by decide, ⟨_, rfl, by decide⟩, _, rfl, rfl, by decide⟩

/-- `orderly` as far as the first `n` threads go. -/
def orderlyBelow (n : Nat) (s : System) (a : Nat × Act) : Prop :=
  (a.2.isFail → (s.threads a.1).midway = none) ∧
  (a.2.isRun → ∀ j < n, ∀ name ∈ (s.threads j).granting,
    (s.threads a.1).deletingRecord ≠ some name) ∧
  (a.2.isRun → ∀ j < n, ∀ name ∈ (s.threads j).midway, (s.threads a.1).creating ≠ some name)

instance (n : Nat) (s : System) (a : Nat × Act) : Decidable (orderlyBelow n s a) :=
  inferInstanceAs (Decidable (_ ∧ _ ∧ _))

instance (s : System) (a : Nat × Act) : Decidable (ungranted s a) :=
  inferInstanceAs (Decidable (_ → _))

theorem orderly_of_below {n : Nat} (hidle : ∀ j, n ≤ j → s.threads j = .idle)
    (h : orderlyBelow n s act) : orderly s act := by
  obtain ⟨hfail, hgranting, hmidway⟩ := h
  refine ⟨hfail, fun hrun j name hname => ?_, fun hrun j name hname => ?_⟩ <;>
    rcases Nat.lt_or_ge j n with hj | hj
  · exact hgranting hrun j hj name hname
  · rw [hidle j hj] at hname
    cases hname
  · exact hmidway hrun j hj name hname
  · rw [hidle j hj] at hname
    cases hname

/-- A database is created and granted. One that has a grant is deleted and created again. -/
def recreatedRun : List (Nat × Act) :=
  [(0, .arrive (.createDatabase "tasks"))] ++ runs 0 2 ++
    [(1, .arrive (.createGrant "01A" "tasks" "read"))] ++ runs 1 2 ++
    [(2, .arrive (.deleteDatabase "notes"))] ++ runs 2 4 ++
    [(3, .arrive (.createDatabase "notes"))] ++ runs 3 2

/-- A database is deleted once its grant is gone. -/
def emptiedRun : List (Nat × Act) :=
  [(0, .arrive (.deleteGrant "01A" "notes"))] ++ runs 0 1 ++
    [(1, .arrive (.deleteDatabase "notes"))] ++ runs 1 4

theorem grants_registered_recreatedRun :
    (∃ s, exec (Threads.step next) (System.boot grantedDb) recreatedRun = some s ∧
      s.shared.db.databaseExists "notes" = true ∧
      authorize s.shared.db s.shared.db "01A" "tasks" .read = .ok () ∧ Named s ∧
      s.shared.ledger.acceptedIn ("01A", "tasks") = s.shared.ledger.created "tasks") ∧
    ∃ s, exec (Threads.step next) (System.boot grantedDb) emptiedRun = some s ∧
      s.shared.db.databaseExists "notes" = false ∧ Registered s.shared.db := by
  have hgranted : Registered (System.boot grantedDb).shared.db := by decide
  constructor
  · have hrun : ∃ s, exec (Threads.step next) (System.boot grantedDb) recreatedRun = some s ∧
        s.shared.db.databaseExists "notes" = true ∧
        authorize s.shared.db s.shared.db "01A" "tasks" .read = .ok () := ⟨_, rfl, rfl, rfl⟩
    obtain ⟨s, hexec, hback, hauth⟩ := hrun
    have hreach : Reach (Threads.step next) (fun s a => a.1 < 4 ∧ orderlyBelow 4 s a)
        (System.boot grantedDb) s := .of_exec recreatedRun (by decide) hexec
    obtain ⟨hnamed, hcurrent⟩ := (grants_registered grantedDb hgranted s).1
      (reach_below (fun _ _ hidle hok => orderly_of_below hidle hok) (fun _ _ => rfl) hreach)
    exact ⟨s, hexec, hback, hauth, hnamed, hcurrent _ _ _ _ hauth⟩
  · have hrun : ∃ s, exec (Threads.step next) (System.boot grantedDb) emptiedRun = some s ∧
        s.shared.db.databaseExists "notes" = false := ⟨_, rfl, rfl⟩
    obtain ⟨s, hexec, hgone⟩ := hrun
    have hreach : Reach (Threads.step next)
        (fun s a => a.1 < 2 ∧ orderlyBelow 2 s a ∧ ungranted s a) (System.boot grantedDb) s :=
      .of_exec emptiedRun (by decide) hexec
    exact ⟨s, hexec, hgone, (grants_registered grantedDb hgranted s).2 (reach_below
      (fun _ _ hidle hok => ⟨orderly_of_below hidle hok.1, hok.2⟩) (fun _ _ => rfl) hreach)⟩

end TinyLord.Grants
