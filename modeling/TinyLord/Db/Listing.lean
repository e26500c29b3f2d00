import TinyLord.Db.Registry
import TinyLord.Ids

/-!
# Which databases are listed

A creation inserts the record first, and then opens the file, keys it, sets up its schema and
builds the pool. Requests to the server and `db create` on the command line are threads over the
databases of all names.
-/

open Lib Lib.Inodes Lib.Run Lib.Threads

namespace TinyLord.Listing

open Registry (Doc Host Suffix existing getOrOpen openHandle)

/-! ## `db create` -/

inductive CliThread where
  | start
  | initDataDb
  | created
  | refused (message : String)
  | failed

def alreadyExists (name : String) : String := "database '" ++ name ++ "' already exists"

/-- The command has no cached handles. It opens the files at their paths. -/
def cliNext (name : String) (c : Host) : CliThread → Registry.Act → Option (Host × CliThread)
  | .start, .run =>
    if c.registered then some (c, .refused (alreadyExists name))
    else some ({ c with registered := true }, .initDataDb)
  | .start, .fail => some (c, .failed)
  | .initDataDb, .run =>
    some ({ c with disk := (openHandle c.disk c.ledger.removals).1 }, .created)
  | .initDataDb, .fail => some (c, .failed)
  | .initDataDb, .openFailed =>
    some ({ c with disk := (openHandle c.disk c.ledger.removals).1 }, .failed)
  | _, _ => none

/-! ## Threads -/

inductive Worker where
  | server (t : Registry.Thread)
  | cli (t : CliThread)

inductive Thread where
  | idle
  | working (name : String) (w : Worker)
  | invalid (e : ApiError)

inductive Act where
  | request (name : String) (rq : Registry.Request)
  | command (name : String)
  | step (a : Registry.Act)

structure Shared where
  hosts : String → Host
  /-- Kept for the statements: whose INSERT put the record there. -/
  creator : String → Option Nat

def workerNext (name : String) (c : Host) (self : Nat) :
    Worker → Registry.Act → Option (Host × Worker)
  | .server t, a => (Registry.next c self t a).map fun r => (r.1, .server r.2)
  | .cli t, a => (cliNext name c t a).map fun r => (r.1, .cli r.2)

def creatorAfter (self : Nat) (creator : Option Nat) (before after : Bool) : Option Nat :=
  match before, after with
  | _, false => none
  | false, true => some self
  | true, true => creator

def Shared.put (c : Shared) (name : String) (self : Nat) (host : Host) : Shared where
  hosts := Function.update c.hosts name host
  creator := Function.update c.creator name
    (creatorAfter self (c.creator name) (c.hosts name).registered host.registered)

def begin (name : String) (w : Worker) : Thread :=
  match requireValidName "database" name with
  | .error e => .invalid e
  | .ok () => .working name w

def next (c : Shared) (self : Nat) : Thread → Act → Option (Shared × Thread)
  | .idle, .request name rq => some (c, begin name (.server (.running rq .start)))
  | .idle, .command name => some (c, begin name (.cli .start))
  | .working name w, .step a =>
    (workerNext name (c.hosts name) self w a).map fun r => (c.put name self r.1, .working name r.2)
  | _, _ => none

abbrev System := Pool Shared Thread

/-- No database is listed, and no handle is open. -/
def boot (disks : String → Disk Suffix Doc) : System where
  shared :=
    { hosts := fun name => (Registry.System.boot false (disks name)).shared
      creator := fun _ => none }
  threads := fun _ => .idle

/-! ## The statement -/

/-- A creation that has inserted the record, and is in progress or has returned success. -/
def Worker.creating : Worker → Bool
  | .server (.running _ (.initDatabase _)) | .server (.running _ (.reply _))
  | .server (.done _ (.created ..)) | .cli .initDataDb | .cli .created => true
  | _ => false

def Live (name : String) (t : Thread) : Prop := ∃ w, t = .working name w ∧ w.creating = true

/-- The record is there just when its creation is in progress or has succeeded. A deletion since
would have taken the creator away. -/
def Listed (s : System) : Prop :=
  ∀ name, (s.shared.hosts name).registered = true ↔
    ∃ i, s.shared.creator name = some i ∧ Live name (s.threads i)

/-- A creation that would be refused finds one that is in progress or has succeeded. -/
def Retriable (s : System) : Prop :=
  ∀ name, (Registry.start (s.shared.hosts name) .create).2 = .done .create existing ∨
    cliNext name (s.shared.hosts name) .start .run =
      some (s.shared.hosts name, .refused (alreadyExists name)) →
    ∃ i, Live name (s.threads i)

/-- A creation fails while the record it has inserted is still there. -/
def strands (c : Shared) (self : Nat) : Thread → Act → Bool
  | .working name w, .step .fail | .working name w, .step .openFailed =>
    w.creating && c.creator name == some self
  | _, _ => false

def completes (c : Shared) (self : Nat) (t : Thread) (a : Act) : Prop := strands c self t a = false

instance (c : Shared) (self : Nat) (t : Thread) (a : Act) : Decidable (completes c self t a) :=
  inferInstanceAs (Decidable (_ = _))

/-! ## What a step of one creation does -/

variable {name : String} {c c' : Host} {i : Nat} {w w' : Worker} {a : Registry.Act}

structure Moved (c c' : Host) (w w' : Worker) (a : Registry.Act) : Prop where
  inserted : c.registered = false → c'.registered = true → w'.creating = true
  ahead : w.creating = true → c'.registered = c.registered
  goesOn : w.creating = true → a = .run ∧ w'.creating = true ∨
    (a = .fail ∨ a = .openFailed) ∧ w'.creating = false

theorem getOrOpen_registered : (getOrOpen c).1.registered = c.registered := by
  unfold getOrOpen
  split <;> rfl

theorem moved_of_registered (h : c'.registered = c.registered)
    (hgoes : w.creating = true → a = .run ∧ w'.creating = true ∨
      (a = .fail ∨ a = .openFailed) ∧ w'.creating = false) : Moved c c' w w' a where
  inserted h0 h1 := by rw [h, h0] at h1; cases h1
  ahead _ := h
  goesOn := hgoes

theorem moved_of_same (h : c'.registered = c.registered) (hw : w.creating = false) :
    Moved c c' w w' a :=
  moved_of_registered h fun hc => by rw [hw] at hc; cases hc

theorem moved_on (h : c'.registered = c.registered) (hw' : w'.creating = true) :
    Moved c c' w w' .run :=
  moved_of_registered h fun _ => Or.inl ⟨rfl, hw'⟩

theorem moved_out (h : c'.registered = c.registered) (ha : a = .fail ∨ a = .openFailed)
    (hw' : w'.creating = false) : Moved c c' w w' a :=
  moved_of_registered h fun _ => Or.inr ⟨ha, hw'⟩

theorem start_moved {rq : Registry.Request} {t' : Registry.Thread}
    (h : Registry.start c rq = (c', t')) :
    Moved c c' (.server (.running rq .start)) (.server t') a := by
  cases rq with
  | create =>
    simp only [Registry.start] at h
    split at h
    · cases h
      exact moved_of_same rfl rfl
    · cases h
      exact ⟨fun _ _ => rfl, nofun, nofun⟩
  | write _ | read | delete =>
    simp only [Registry.start] at h
    split at h <;> cases h <;> exact moved_of_same rfl rfl

theorem statement_moved {rq : Registry.Request} {pc : Registry.Pc} {t' : Registry.Thread}
    (h : Registry.statement c i rq pc = (c', t')) :
    Moved c c' (.server (.running rq pc)) (.server t') .run := by
  cases pc with
  | start => exact start_moved h
  | initDatabase removals =>
    cases h
    exact moved_on getOrOpen_registered rfl
  | reply removals =>
    cases h
    exact moved_on rfl rfl
  | openDb =>
    cases h
    exact moved_of_same getOrOpen_registered rfl
  | use hd =>
    cases rq <;> cases h <;> exact moved_of_same rfl rfl
  | deleteRecord =>
    cases h
    exact ⟨nofun, nofun, nofun⟩
  | ack | removeHandle | unlink | deleteGrants =>
    cases h
    exact moved_of_same rfl rfl

theorem failure_moved {rq : Registry.Request} {pc : Registry.Pc} {t' : Registry.Thread}
    (h : Registry.failure c i rq pc = some (c', t')) :
    Moved c c' (.server (.running rq pc)) (.server t') .fail := by
  cases pc with
  | initDatabase removals =>
    simp only [Registry.failure] at h
    split at h
    · cases h
      exact moved_out rfl (Or.inl rfl) rfl
    · cases h
  | openDb =>
    simp only [Registry.failure] at h
    split at h
    · cases h
      exact moved_of_same rfl rfl
    · cases h
  | reply | removeHandle => cases h
  | start | use | ack | unlink | deleteRecord | deleteGrants =>
    cases h
    exact moved_of_same rfl rfl

theorem openFailure_moved {rq : Registry.Request} {pc : Registry.Pc} {t' : Registry.Thread}
    (h : Registry.openFailure c rq pc = some (c', t')) :
    Moved c c' (.server (.running rq pc)) (.server t') .openFailed := by
  cases pc with
  | initDatabase removals =>
    simp only [Registry.openFailure] at h
    split at h
    · cases h
      exact moved_out rfl (Or.inr rfl) rfl
    · cases h
  | openDb =>
    simp only [Registry.openFailure] at h
    split at h
    · cases h
      exact moved_of_same rfl rfl
    · cases h
  | start | use | ack | reply | removeHandle | unlink | deleteRecord | deleteGrants => cases h

theorem closeHandle_registered {h : Registry.Handle} {cleans : Bool} {t' : Registry.Thread}
    (hs : Registry.closeHandle c h cleans = some (c', t')) : c'.registered = c.registered := by
  simp only [Registry.closeHandle] at hs
  split_ifs at hs <;> cases hs <;> rfl

theorem server_moved {t t' : Registry.Thread} (h : Registry.next c i t a = some (c', t')) :
    Moved c c' (.server t) (.server t') a := by
  match t, a with
  | .idle, .arrive rq =>
    cases h
    exact moved_of_same rfl rfl
  | .running rq pc, .run => exact statement_moved (Option.some.inj h)
  | .running rq pc, .fail => exact failure_moved h
  | .running rq pc, .openFailed => exact openFailure_moved h
  | .idle, .close _ _ => exact moved_of_same (closeHandle_registered h) rfl
  | .closing _, .run | .closing _, .fail =>
    cases h
    exact moved_of_same rfl rfl
  | .idle, .run | .idle, .fail | .idle, .openFailed | .running _ _, .arrive _
  | .running _ _, .close .. | .done _ _, _ | .closing _, .arrive _ | .closing _, .openFailed
  | .closing _, .close .. | .closed, _ =>
    cases h

theorem cli_moved {t t' : CliThread} (h : cliNext name c t a = some (c', t')) :
    Moved c c' (.cli t) (.cli t') a := by
  cases t with
  | start =>
    cases a with
    | run =>
      simp only [cliNext] at h
      split at h
      · cases h
        exact moved_of_same rfl rfl
      · cases h
        exact ⟨fun _ _ => rfl, nofun, nofun⟩
    | fail =>
      cases h
      exact moved_of_same rfl rfl
    | arrive | openFailed | close => cases h
  | initDataDb =>
    cases a with
    | run =>
      cases h
      exact moved_on rfl rfl
    | fail =>
      cases h
      exact moved_out rfl (Or.inl rfl) rfl
    | openFailed =>
      cases h
      exact moved_out rfl (Or.inr rfl) rfl
    | arrive | close => cases h
  | created | refused | failed => cases h

theorem workerNext_moved (h : workerNext name c i w a = some (c', w')) : Moved c c' w w' a := by
  cases w with
  | server t =>
    obtain ⟨r, hr, hpair⟩ := Option.map_eq_some_iff.mp h
    cases hpair
    exact server_moved hr
  | cli t =>
    obtain ⟨r, hr, hpair⟩ := Option.map_eq_some_iff.mp h
    cases hpair
    exact cli_moved hr

/-! ## The list along a run -/

variable {s s' : System} {act : Nat × Act}

/-- The creator is known just when the record is there. -/
def Tied (s : System) : Prop :=
  ∀ name, (s.shared.hosts name).registered = (s.shared.creator name).isSome

theorem listed_iff (hs : Tied s) : Listed s ↔
    ∀ name i, s.shared.creator name = some i → Live name (s.threads i) := by
  constructor
  · intro h name i hcreator
    obtain ⟨j, hj, hlive⟩ := (h name).mp (by rw [hs name, hcreator]; rfl)
    rw [hcreator, Option.some.injEq] at hj
    exact hj ▸ hlive
  · intro h name
    rw [hs name, Option.isSome_iff_exists]
    exact exists_congr fun i => ⟨fun hi => ⟨hi, h name i hi⟩, And.left⟩

theorem Live.name_eq {m : String} (h : Live m (.working name w)) :
    m = name ∧ w.creating = true := by
  obtain ⟨w, ⟨⟩, hw⟩ := h
  exact ⟨rfl, hw⟩

theorem begin_not_live {m : String} (hw : w.creating = false) : ¬ Live m (begin name w) := by
  unfold begin
  split
  · rintro ⟨_, ⟨⟩, -⟩
  · intro h
    have := h.name_eq.2
    rw [hw] at this
    cases this

theorem step_moves (h : Threads.step next s act = some s') :
    (s.threads act.1 = .idle ∧ ∃ t', (∀ m, ¬ Live m t') ∧
      s' = ⟨s.shared, Function.update s.threads act.1 t'⟩) ∨
    ∃ name w a host w', s.threads act.1 = .working name w ∧ act.2 = .step a ∧
      workerNext name (s.shared.hosts name) act.1 w a = some (host, w') ∧
      s' = ⟨s.shared.put name act.1 host, Function.update s.threads act.1 (.working name w')⟩ := by
  obtain ⟨i, a⟩ := act
  obtain ⟨c, t', hnext, rfl⟩ := step_cases h
  simp only at hnext ⊢
  match ht : s.threads i, a with
  | .idle, .request name rq =>
    rw [ht] at hnext
    cases hnext
    exact Or.inl ⟨rfl, _, fun m => begin_not_live rfl, rfl⟩
  | .idle, .command name =>
    rw [ht] at hnext
    cases hnext
    exact Or.inl ⟨rfl, _, fun m => begin_not_live rfl, rfl⟩
  | .working name w, .step a =>
    rw [ht] at hnext
    obtain ⟨⟨host, w'⟩, hworker, hpair⟩ := Option.map_eq_some_iff.mp hnext
    cases hpair
    exact Or.inr ⟨name, w, a, host, w', rfl, rfl, hworker, rfl⟩
  | .idle, .step _ | .working .., .request .. | .working .., .command _ | .invalid _, _ =>
    rw [ht] at hnext
    cases hnext

theorem put_other {c : Shared} {host : Host} {m : String} (hm : m ≠ name) :
    (c.put name i host).hosts m = c.hosts m ∧ (c.put name i host).creator m = c.creator m :=
  ⟨Function.update_of_ne hm _ _, Function.update_of_ne hm _ _⟩

theorem put_self {c : Shared} {host : Host} :
    (c.put name i host).hosts name = host ∧ (c.put name i host).creator name =
      creatorAfter i (c.creator name) (c.hosts name).registered host.registered :=
  ⟨Function.update_self _ _ _, Function.update_self _ _ _⟩

theorem Tied.step (hs : Tied s) (h : Threads.step next s act = some s') : Tied s' := by
  obtain ⟨-, t', -, rfl⟩ | ⟨name, w, a, host, w', -, -, -, rfl⟩ := step_moves h
  · exact hs
  · intro m
    by_cases hm : m = name
    · subst hm
      have hbefore := hs m
      simp only [put_self]
      generalize (s.shared.hosts m).registered = before at hbefore
      cases host.registered <;> cases before <;> simp_all [creatorAfter]
    · rw [(put_other hm).1, (put_other hm).2]
      exact hs m

theorem strands_iff {c : Shared} : strands c i (.working name w) (.step a) = true ↔
    (a = .fail ∨ a = .openFailed) ∧ w.creating = true ∧ c.creator name = some i := by
  cases a <;> simp [strands]

theorem creator_moves {c : Shared} {host : Host} {j : Nat}
    (hmoved : Moved (c.hosts name) host w w' a)
    (hlive : ∀ k, c.creator name = some k → k = i → w.creating = true)
    (hcompletes : strands c i (.working name w) (.step a) = false)
    (hj : (c.put name i host).creator name = some j) :
    j = i ∧ w'.creating = true ∨ j ≠ i ∧ c.creator name = some j := by
  rw [put_self.2] at hj
  cases hafter : host.registered with
  | false =>
    rw [hafter] at hj
    cases (c.hosts name).registered <;> cases hj
  | true =>
    cases hbefore : (c.hosts name).registered with
    | false =>
      rw [hbefore, hafter] at hj
      exact Or.inl ⟨(Option.some.inj hj).symm, hmoved.inserted hbefore hafter⟩
    | true =>
      rw [hbefore, hafter] at hj
      by_cases hji : j = i
      · refine Or.inl ⟨hji, ?_⟩
        have hcreating := hlive j hj hji
        rcases hmoved.goesOn hcreating with ⟨-, hgoes⟩ | ⟨hfail, -⟩
        · exact hgoes
        · rw [← Bool.not_eq_true, strands_iff] at hcompletes
          exact absurd ⟨hfail, hcreating, hji ▸ hj⟩ hcompletes
      · exact Or.inr ⟨hji, hj⟩

/-- The only step that breaks the list is the failure of a creation that has inserted. -/
theorem listed_step (hs : Tied s) (hl : Listed s) (h : Threads.step next s act = some s') :
    Listed s' ↔ moving completes s act := by
  have hcreators := (listed_iff hs).mp hl
  rw [listed_iff (hs.step h)]
  obtain ⟨hidle, t', hdead, rfl⟩ | ⟨name, w, a, host, w', ht, ha, hworker, rfl⟩ := step_moves h
  · have hcompletes : moving completes s act := by
      simp [moving, completes, hidle, strands]
    refine iff_of_true ?_ hcompletes
    intro m j hj
    have hlive := hcreators m j hj
    have hji : j ≠ act.1 := by
      rintro rfl
      rw [hidle] at hlive
      obtain ⟨_, ⟨⟩, -⟩ := hlive
    simpa only [Function.update_of_ne hji] using hlive
  · have hmoved := workerNext_moved hworker
    have hown : ∀ m k, s.shared.creator m = some k → k = act.1 → m = name ∧ w.creating = true := by
      rintro m k hk rfl
      have hlive := hcreators m _ hk
      rw [ht] at hlive
      exact hlive.name_eq
    rw [moving, completes, ht, ha]
    constructor
    · intro hafter
      rw [← Bool.not_eq_true, strands_iff]
      rintro ⟨hfail, hcreating, hcreator⟩
      have hbefore : (s.shared.hosts name).registered = true := by rw [hs name, hcreator]; rfl
      have hstill : (s.shared.put name act.1 host).creator name = some act.1 := by
        rw [put_self.2, hmoved.ahead hcreating, hbefore]
        exact hcreator
      have hlive := hafter name act.1 hstill
      simp only [Function.update_self] at hlive
      rcases hmoved.goesOn hcreating with ⟨rfl, -⟩ | ⟨-, hdead⟩
      · simp at hfail
      · rw [hlive.name_eq.2] at hdead
        cases hdead
    · intro hcompletes m j hj
      by_cases hm : m = name
      · subst hm
        rcases creator_moves hmoved (fun k hk hki => (hown m k hk hki).2) hcompletes hj with
          ⟨rfl, hcreating⟩ | ⟨hji, hcreator⟩
        · exact ⟨w', Function.update_self _ _ _, hcreating⟩
        · simpa only [Function.update_of_ne hji] using hcreators m j hcreator
      · rw [(put_other hm).2] at hj
        have hji : j ≠ act.1 := fun hji => hm (hown m j hj hji).1
        simpa only [Function.update_of_ne hji] using hcreators m j hj

theorem boot_tied (disks : String → Disk Suffix Doc) : Tied (boot disks) := fun _ => rfl

theorem boot_listed (disks : String → Disk Suffix Doc) : Listed (boot disks) :=
  (listed_iff (boot_tied disks)).mpr nofun

theorem listed_run {disks : String → Disk Suffix Doc}
    (h : Reach (Threads.step next) (moving completes) (boot disks) s) : Tied s ∧ Listed s :=
  h.inv (fun s => Tied s ∧ Listed s) ⟨boot_tied disks, boot_listed disks⟩
    fun _ _ _ ht hok hstep => ⟨ht.1.step hstep, (listed_step ht.1 ht.2 hstep).mpr hok⟩

/-- Only a record refuses a creation. -/
theorem Listed.retriable (h : Listed s) : Retriable s := by
  intro name hrefused
  have hregistered : (s.shared.hosts name).registered = true := by
    by_contra hnot
    rw [Bool.not_eq_true] at hnot
    simp [Registry.start, cliNext, hnot] at hrefused
  obtain ⟨i, -, hlive⟩ := (h name).mp hregistered
  exact ⟨i, hlive⟩

/-! ## Failed creations -/

/-- As long as no creation fails after its INSERT, with the record still there, the list is right.
The first that does leaves a record that no creation stands for. -/
theorem creation_listed (disks : String → Disk Suffix Doc) (s : System)
    (hrun : Reach (Threads.step next) (moving completes) (boot disks) s) :
    Listed s ∧ Retriable s ∧
      ∀ act s', Threads.step next s act = some s' → (Listed s' ↔ moving completes s act) := by
  obtain ⟨htied, hlisted⟩ := listed_run hrun
  exact ⟨hlisted, hlisted.retriable, fun _ _ hstep => listed_step htied hlisted hstep⟩

/-! ## A run -/

def emptyDisk : Disk Suffix Doc :=
  { path := fun _ => none, content := fun _ _ => [], fresh := 0, bounded := nofun }

/-- The files cannot be opened the first time, and the creation is tried again. -/
def retryRun : List (Nat × Act) :=
  [(0, .request "app" .create), (0, .step .run), (0, .step .openFailed),
    (1, .request "app" .create), (1, .step .run)]

/-- The record is left behind, and the second creation is refused. -/
theorem failed_creation_listed :
    ∃ s, Reach (Threads.step next) anyStep (boot fun _ => emptyDisk) s ∧
      s.threads 0 = .working "app" (.server (.done .create (.error .internal))) ∧
      s.threads 1 = .working "app" (.server (.done .create existing)) ∧
      ¬ Listed s ∧ ¬ Retriable s := by
  have hrun : ∃ s, exec (Threads.step next) (boot fun _ => emptyDisk) retryRun = some s ∧
      s.threads 0 = .working "app" (.server (.done .create (.error .internal))) ∧
      s.threads 1 = .working "app" (.server (.done .create existing)) ∧
      (s.shared.hosts "app").registered = true ∧
      (Registry.start (s.shared.hosts "app") .create).2 = .done .create existing ∧
      ∀ i, s.threads (i + 2) = .idle := ⟨_, rfl, rfl, rfl, rfl, rfl, fun _ => rfl⟩
  obtain ⟨s, hexec, h0, h1, hregistered, hrefused, hidle⟩ := hrun
  have hdead : ∀ i, ¬ Live "app" (s.threads i) := by
    rintro (_ | _ | i) ⟨w, hw, hcreating⟩
    · rw [h0] at hw
      cases hw
      cases hcreating
    · rw [h1] at hw
      cases hw
      cases hcreating
    · rw [hidle] at hw
      cases hw
  refine ⟨s, .of_exec retryRun (.any _ _) hexec, h0, h1, ?_, ?_⟩
  · intro hlisted
    obtain ⟨i, -, hlive⟩ := (hlisted "app").mp hregistered
    exact hdead i hlive
  · intro hretriable
    obtain ⟨i, hlive⟩ := hretriable "app" (Or.inl hrefused)
    exact hdead i hlive

def deleting (i : Nat) : List (Nat × Act) :=
  (i, .request "app" .delete) :: List.replicate 7 (i, .step .run)

/-- `db create` makes a database, and a request deletes it. The next creation fails too, when its
record has been deleted again. -/
def quietRun : List (Nat × Act) :=
  [(0, .command "app"), (0, .step .run), (0, .step .run)] ++ deleting 1 ++
    [(2, .request "app" .create), (2, .step .run)] ++ deleting 3 ++ [(2, .step .openFailed)]

theorem creation_listed_quiet :
    ∃ s, exec (Threads.step next) (boot fun _ => emptyDisk) quietRun = some s ∧ Listed s := by
  have hok : Allowed (Threads.step next) (moving completes) (boot fun _ => emptyDisk) quietRun := by
    decide
  obtain ⟨s, hexec⟩ : ∃ s, exec (Threads.step next) (boot fun _ => emptyDisk) quietRun = some s :=
    ⟨_, rfl⟩
  exact ⟨s, hexec, (creation_listed (fun _ => emptyDisk) s (.of_exec quietRun hok hexec)).1⟩

end TinyLord.Listing
