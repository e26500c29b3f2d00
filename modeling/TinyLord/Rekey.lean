import TinyLord.Lib.Run
import TinyLord.Encryption

/-!
# The offline rekey command

`admin rekey` copies every database, encrypts each one again under a fresh key and then
writes the key file. Each step is one call on a file. The call can succeed, fail, or be the one
at which the process stops, and what it leaves in the file it works on is up to the file system.
-/

open Lib.Run

namespace TinyLord.Rekey

/-! ## Database files -/

/-- What the pages of a file are encrypted under; `broken` is what no key opens. -/
inductive Content
  | key (k : Text)
  | broken
deriving DecidableEq, Repr

structure DbFile where
  main : Content
  wal : Option Content
deriving DecidableEq, Repr

/-- `open_data_conn`: the first query after `PRAGMA key` answers. It reads the WAL too. -/
def DbFile.opens (k : Text) (f : DbFile) : Bool :=
  f.main = .key k && (f.wal = none || f.wal = some (.key k))

structure Disk where
  /-- The `*.db` files in the data directory, in the order of `read_dir`. -/
  files : List String
  db : String → DbFile
  backup : String → Option Content
  keyFile : KeyFile

def Disk.setDb (d : Disk) (f : String) (x : DbFile) : Disk :=
  { d with db := Function.update d.db f x }

def Disk.setBackup (d : Disk) (f : String) (x : Option Content) : Disk :=
  { d with backup := Function.update d.backup f x }

def Disk.setKeyFile (d : Disk) (file : KeyFile) : Disk := { d with keyFile := file }

theorem Disk.setDb_self (d : Disk) (f : String) (x : DbFile) : (d.setDb f x).db f = x :=
  Function.update_self ..

theorem Disk.setDb_of_ne {f g : String} (h : g ≠ f) (d : Disk) (x : DbFile) :
    (d.setDb f x).db g = d.db g :=
  Function.update_of_ne h ..

theorem Disk.setBackup_self (d : Disk) (f : String) (x : Option Content) :
    (d.setBackup f x).backup f = x :=
  Function.update_self ..

theorem Disk.setBackup_of_ne {f g : String} (h : g ≠ f) (d : Disk) (x : Option Content) :
    (d.setBackup f x).backup g = d.backup g :=
  Function.update_of_ne h ..

/-! ## The command -/

structure Config where
  encryption : EncryptionConfig
  dataDir : String
  /-- The value of `TINYLORD_ENCRYPTION_KEY`. -/
  env : Option Text

/-- The call that `cmd_rekey` makes next. The list holds the files that its loop has still to
visit, the current one first. -/
inductive Stage
  | backup (todo : List String)
  | vacuum (f : String) (todo : List String)
  | rekey (todo : List String)
  | pragma (f : String) (todo : List String)
  | verify (f : String) (todo : List String)
  | restore (e : String) (todo : List String)
  | keyDir
  | keyOpen
  | keyWrite
  | keyPerms
deriving DecidableEq, Repr

/-- `old` is the key that the command resolved when it started. -/
inductive Phase
  | start
  | running (old : Text) (stage : Stage)
  | returned (r : Except String Unit)
  | stopped

structure State where
  disk : Disk
  phase : Phase

/-- What a call leaves in the file it works on. -/
structure Left where
  db : DbFile
  /-- The backup that was being written. -/
  backup : Option Content
  /-- How many characters of the new key are in the key file. -/
  written : Nat

inductive Act
  | succeeds (left : Left)
  | fails (e : String) (left : Left)
  | stops (left : Left)

/-- After the last file. Only a key file is written, the other sources are left to the user. -/
def persist (cfg : Config) (old : Text) : Phase :=
  match cfg.encryption.keySource with
  | .keyFile => .running old (if cfg.encryption.keyFile.parent = "" then .keyOpen else .keyDir)
  | _ => .returned (.ok ())

/-- The database as the restore loop leaves it. A WAL whose removal fails stays beside a file
that it does not belong to. -/
def restored (copy : Content) (before after : DbFile) : Bool :=
  after.main = copy && (after.wal = none || (before.wal ≠ none && after.wal = some .broken))

/-- `PRAGMA rekey` reports no error of its own: where it fails, the file stays under the old key. -/
def rekeyReports (old new : Text) (after : DbFile) : Bool := after.opens new || after.opens old

/-- The verifying query runs on the connection that has rekeyed the file, under the key that this
connection reads it with. -/
def verified (old new : Text) (before after : DbFile) : Bool :=
  before.opens new && after.opens new || before.opens old && after.opens old

def completed (cfg : Config) (fresh : KeyBytes) (old : Text) (d : Disk) (left : Left) :
    Stage → Option State
  | .backup [] => some ⟨d, .running old (.rekey d.files)⟩
  | .backup (f :: todo) =>
    if (d.db f).opens old then some ⟨d, .running old (.vacuum f todo)⟩ else none
  | .vacuum f todo =>
    if left.db.opens old then
      some ⟨(d.setDb f left.db).setBackup f (some (.key old)), .running old (.backup todo)⟩
    else none
  | .rekey [] => some ⟨d, persist cfg old⟩
  | .rekey (f :: todo) =>
    if (d.db f).opens old then some ⟨d, .running old (.pragma f todo)⟩ else none
  | .pragma f todo =>
    if rekeyReports old (generateHexKey fresh) left.db then
      some ⟨d.setDb f left.db, .running old (.verify f todo)⟩
    else none
  | .verify f todo =>
    if verified old (generateHexKey fresh) (d.db f) left.db then
      some ⟨d.setDb f left.db, .running old (.rekey todo)⟩
    else none
  | .restore e [] =>
    some ⟨d, .returned (.error s!"rekey aborted and databases restored: {e}")⟩
  | .restore e (f :: todo) =>
    match d.backup f with
    | none => none
    | some copy =>
      if restored copy (d.db f) left.db then
        some ⟨d.setDb f left.db, .running old (.restore e todo)⟩
      else none
  | .keyDir => some ⟨d, .running old .keyOpen⟩
  | .keyOpen =>
    some ⟨d.setKeyFile (d.keyFile.truncatedTo (generateHexKey fresh) 0), .running old .keyWrite⟩
  | .keyWrite =>
    some ⟨d.setKeyFile (d.keyFile.truncatedTo (generateHexKey fresh) 64), .running old .keyPerms⟩
  | .keyPerms => some ⟨d.setKeyFile { d.keyFile with mode := 0o600 }, .returned (.ok ())⟩

/-- The disk after the call of the stage failed or was cut off. Backing up only reads the
database; any other call on it can leave anything. -/
def interrupted (fresh : KeyBytes) (old : Text) (d : Disk) (left : Left) :
    Stage → Option Disk
  | .vacuum f _ =>
    if left.db.opens old then some ((d.setDb f left.db).setBackup f left.backup) else none
  | .pragma f _ | .verify f _ | .restore _ (f :: _) => some (d.setDb f left.db)
  | .keyWrite =>
    some (d.setKeyFile (d.keyFile.truncatedTo (generateHexKey fresh) left.written))
  | .backup _ | .rekey _ | .restore _ [] | .keyDir | .keyOpen | .keyPerms => some d

/-- Where the command goes on when the call fails with `e`; the texts are those of the
outermost context. At the end of a loop there is no call that could fail. -/
def onError (cfg : Config) (old : Text) (d : Disk) (e : String) : Stage → Option Phase
  | .backup [] | .rekey [] | .restore _ [] => none
  | .backup (_ :: _) => some (.returned (.error e))
  | .vacuum f _ => some (.returned (.error s!"backing up {f}"))
  | .rekey (_ :: _) => some (.running old (.restore e d.files))
  | .pragma f _ => some (.running old (.restore s!"rekeying {f}" d.files))
  | .verify f _ =>
    some (.running old (.restore s!"verification failed after rekey of {f}" d.files))
  | .restore _ (f :: _) => some (.returned (.error s!"restoring {f}"))
  | .keyDir =>
    some (.returned (.error s!"creating key directory {cfg.encryption.keyFile.parent}"))
  | .keyOpen | .keyWrite =>
    some (.returned (.error s!"writing key file {cfg.encryption.keyFile.display}"))
  | .keyPerms =>
    some (.returned (.error s!"setting 0600 on {cfg.encryption.keyFile.display}"))

/-- What `cmd_rekey` checks before it makes the backup directory. -/
def begin (cfg : Config) (d : Disk) : Phase :=
  match resolve cfg.encryption cfg.env d.keyFile true with
  | .error e => .returned (.error e)
  | .ok .disabled => .returned (.error "encryption is disabled; nothing to rekey")
  | .ok (.enabled old) =>
    if d.files = [] then
      .returned (.error s!"no database files found under {cfg.dataDir}")
    else .running old (.backup d.files)

def step (cfg : Config) (fresh : KeyBytes) (s : State) (a : Act) : Option State :=
  match s.phase, a with
  | .start, .succeeds _ => some ⟨s.disk, begin cfg s.disk⟩
  | .start, .fails e _ => some ⟨s.disk, .returned (.error e)⟩
  | .start, .stops _ => some ⟨s.disk, .stopped⟩
  | .running old stage, .succeeds left => completed cfg fresh old s.disk left stage
  | .running old stage, .fails e left =>
    (interrupted fresh old s.disk left stage).bind fun d =>
      (onError cfg old d e stage).map fun phase => ⟨d, phase⟩
  | .running old stage, .stops left =>
    (interrupted fresh old s.disk left stage).map fun d => ⟨d, .stopped⟩
  | .returned _, _ | .stopped, _ => none

/-! ## What the instance can be opened with -/

def Held (cfg : Config) (d : Disk) (k : Text) : Prop :=
  resolveKeyFile cfg.encryption.keyFile d.keyFile = .ok k

def OpenWith (k : Text) (d : Disk) (fs : List String) : Prop :=
  ∀ f ∈ fs, (d.db f).opens k = true

def BackedUp (k : Text) (d : Disk) (fs : List String) : Prop :=
  ∀ f ∈ fs, d.backup f = some (.key k)

def Openable (cfg : Config) (d : Disk) : Prop := ∃ k, Held cfg d k ∧ OpenWith k d d.files

/-- Every database or else its backup opens with the key in the key file. -/
def Recoverable (cfg : Config) (d : Disk) : Prop :=
  ∃ k, Held cfg d k ∧
    ∀ f ∈ d.files, (d.db f).opens k = true ∨ d.backup f = some (.key k)

def Phase.ended : Phase → Bool
  | .returned _ | .stopped => true
  | _ => false

/-- The write of the key file is not broken off before the last character. -/
def keyWritten (s : State) (a : Act) : Bool :=
  match s.phase, a with
  | .running _ .keyWrite, .fails _ left | .running _ .keyWrite, .stops left =>
    64 ≤ left.written
  | _, _ => true

/-- A `PRAGMA rekey` that reports no error has taken effect. -/
def rekeyed (fresh : KeyBytes) (s : State) (a : Act) : Bool :=
  match s.phase, a with
  | .running _ (.pragma _ _), .succeeds left => left.db.opens (generateHexKey fresh)
  | _, _ => true

/-- No copy back from a backup fails, and none leaves an old WAL beside the copy. -/
def restoreDone (s : State) (a : Act) : Bool :=
  match s.phase, a with
  | .running _ (.restore _ _), .fails _ _ => false
  | .running _ (.restore _ (_ :: _)), .succeeds left => left.db.wal = none
  | _, _ => true

def keyFileOpened (s : State) (a : Act) : Bool :=
  match s.phase, a with
  | .running _ .keyDir, .fails _ _ | .running _ .keyOpen, .fails _ _ => false
  | _, _ => true

/-! ## The stages -/

def AtStage (cfg : Config) (fresh : KeyBytes) (old : Text) (d : Disk) : Stage → Prop
  | .backup todo => Held cfg d old ∧ OpenWith old d d.files ∧
    ∃ done, d.files = done ++ todo ∧ BackedUp old d done
  | .vacuum f todo => Held cfg d old ∧ OpenWith old d d.files ∧
    ∃ done, d.files = done ++ f :: todo ∧ BackedUp old d done
  | .rekey todo => Held cfg d old ∧ BackedUp old d d.files ∧
    ∃ done, d.files = done ++ todo ∧ OpenWith (generateHexKey fresh) d done
  | .pragma f todo => Held cfg d old ∧ BackedUp old d d.files ∧
    ∃ done, d.files = done ++ f :: todo ∧
      OpenWith (generateHexKey fresh) d done
  | .verify f todo => Held cfg d old ∧ BackedUp old d d.files ∧
    ∃ done, d.files = done ++ f :: todo ∧
      OpenWith (generateHexKey fresh) d (done ++ [f])
  | .restore _ _ => Held cfg d old ∧ BackedUp old d d.files
  | .keyDir | .keyOpen => Held cfg d old ∧ BackedUp old d d.files ∧
    OpenWith (generateHexKey fresh) d d.files
  -- from here on no key is held until the new one is complete
  | .keyWrite => checkKeyFilePerms cfg.encryption.keyFile d.keyFile = .ok () ∧
    OpenWith (generateHexKey fresh) d d.files
  | .keyPerms => Held cfg d (generateHexKey fresh) ∧ OpenWith (generateHexKey fresh) d d.files

/-- Where the command is, it can go on, and where it has ended, there is a copy to open. -/
def Kept (cfg : Config) (fresh : KeyBytes) (s : State) : Prop :=
  match s.phase with
  | .start => Openable cfg s.disk
  | .running old stage => AtStage cfg fresh old s.disk stage
  | .returned _ | .stopped => Recoverable cfg s.disk

variable {cfg : Config} {fresh : KeyBytes} {old k : Text} {d d' : Disk} {left : Left}
  {stage : Stage} {s s' : State} {a : Act} {e : String}

theorem OpenWith.setDb {fs : List String} {f : String} {x : DbFile} (h : OpenWith k d fs)
    (hx : x.opens k = true) : OpenWith k (d.setDb f x) fs := by
  intro g hg
  by_cases hgf : g = f
  · rw [hgf, Disk.setDb_self]; exact hx
  · rw [Disk.setDb_of_ne hgf]; exact h g hg

theorem opens_inj {x : DbFile} {k k' : Text} (h : x.opens k = true) (h' : x.opens k' = true) :
    k = k' := by
  simp only [DbFile.opens, Bool.and_eq_true, decide_eq_true_iff] at h h'
  exact Content.key.inj (h.1.symm.trans h'.1)

theorem verified_new {new : Text} {x y : DbFile} (hv : verified old new x y = true)
    (hx : x.opens new = true) : y.opens new = true := by
  simp only [verified, Bool.or_eq_true, Bool.and_eq_true] at hv
  rcases hv with ⟨-, hy⟩ | ⟨hold, hy⟩
  · exact hy
  · rwa [← opens_inj hold hx]

theorem OpenWith.snoc {fs : List String} {f : String} {x : DbFile} (h : OpenWith k d fs)
    (hx : x.opens k = true) : OpenWith k (d.setDb f x) (fs ++ [f]) := by
  intro g hg
  rcases List.mem_append.mp hg with hg | hg
  · exact h.setDb hx g hg
  · rw [List.mem_singleton.mp hg, Disk.setDb_self]; exact hx

theorem BackedUp.snoc {fs : List String} {f : String} (h : BackedUp k d fs) :
    BackedUp k (d.setBackup f (some (.key k))) (fs ++ [f]) := by
  intro g hg
  by_cases hgf : g = f
  · rw [hgf, Disk.setBackup_self]
  · have hg : g ∈ fs := by simpa [hgf] using hg
    rw [Disk.setBackup_of_ne hgf]; exact h g hg

theorem Openable.recoverable (h : Openable cfg d) : Recoverable cfg d :=
  let ⟨k, hk, hopen⟩ := h
  ⟨k, hk, fun f hf => .inl (hopen f hf)⟩

theorem files_snoc {f : String} {done todo : List String} (h : d.files = done ++ f :: todo) :
    d.files = (done ++ [f]) ++ todo := by
  rw [h, List.append_assoc]; rfl

theorem held_setMode (h : Held cfg d k) :
    Held cfg (d.setKeyFile { d.keyFile with mode := 0o600 }) k :=
  resolveKeyFile_eq_ok_iff.mpr
    ⟨checkKeyFilePerms_ownerOnly _ _, (resolveKeyFile_eq_ok_iff.mp h).2⟩

theorem begin_kept (h : Openable cfg d) (hsrc : cfg.encryption.keySource = .keyFile) :
    Kept cfg fresh ⟨d, begin cfg d⟩ := by
  have hrec : Recoverable cfg d := h.recoverable
  obtain ⟨k, hk, hopen⟩ := h
  have hres : resolve cfg.encryption cfg.env d.keyFile true = _ := resolve_keyFile hsrc hk
  cases hon : cfg.encryption.enabled with
  | false =>
    simp only [begin, hres, hon]
    exact hrec
  | true =>
    by_cases hfiles : d.files = []
    · simp only [begin, hres, hon, if_pos hfiles]
      exact hrec
    · simp only [begin, hres, hon, if_neg hfiles]
      exact ⟨hk, hopen, [], rfl, nofun⟩

theorem completed_kept (hsrc : cfg.encryption.keySource = .keyFile)
    (h : AtStage cfg fresh old d stage)
    (hok : rekeyed fresh ⟨d, .running old stage⟩ (.succeeds left) = true)
    (hc : completed cfg fresh old d left stage = some s') :
    Kept cfg fresh s' := by
  cases stage with
  | backup todo =>
    obtain ⟨hk, hopen, done, hfiles, hback⟩ := h
    cases todo with
    | nil =>
      cases hc
      rw [List.append_nil] at hfiles
      exact ⟨hk, hfiles ▸ hback, [], rfl, nofun⟩
    | cons f todo =>
      obtain ⟨-, hs⟩ := Option.ite_none_right_eq_some.mp hc
      cases hs
      exact ⟨hk, hopen, done, hfiles, hback⟩
  | vacuum f todo =>
    obtain ⟨hk, hopen, done, hfiles, hback⟩ := h
    obtain ⟨hleft, hs⟩ := Option.ite_none_right_eq_some.mp hc
    cases hs
    exact ⟨hk, hopen.setDb hleft, done ++ [f], files_snoc hfiles, hback.snoc⟩
  | rekey todo =>
    obtain ⟨hk, hback, done, hfiles, hnew⟩ := h
    cases todo with
    | nil =>
      cases hc
      rw [List.append_nil] at hfiles
      rw [← hfiles] at hnew
      rw [persist, hsrc]
      by_cases hparent : cfg.encryption.keyFile.parent = ""
      · simp only [if_pos hparent]; exact ⟨hk, hback, hnew⟩
      · simp only [if_neg hparent]; exact ⟨hk, hback, hnew⟩
    | cons f todo =>
      obtain ⟨-, hs⟩ := Option.ite_none_right_eq_some.mp hc
      cases hs
      exact ⟨hk, hback, done, hfiles, hnew⟩
  | pragma f todo =>
    obtain ⟨hk, hback, done, hfiles, hnew⟩ := h
    obtain ⟨-, hs⟩ := Option.ite_none_right_eq_some.mp hc
    cases hs
    exact ⟨hk, hback, done, hfiles, hnew.snoc hok⟩
  | verify f todo =>
    obtain ⟨hk, hback, done, hfiles, hnew⟩ := h
    obtain ⟨hv, hs⟩ := Option.ite_none_right_eq_some.mp hc
    cases hs
    have hleft : left.db.opens (generateHexKey fresh) = true := verified_new hv (hnew f (by simp))
    exact ⟨hk, hback, done ++ [f], files_snoc hfiles, hnew.setDb hleft⟩
  | restore e todo =>
    obtain ⟨hk, hback⟩ := h
    cases todo with
    | nil =>
      cases hc
      exact ⟨old, hk, fun f hf => .inr (hback f hf)⟩
    | cons f todo =>
      simp only [completed] at hc
      split at hc
      · cases hc
      · obtain ⟨-, hs⟩ := Option.ite_none_right_eq_some.mp hc
        cases hs
        exact ⟨hk, hback⟩
  | keyDir =>
    cases hc
    exact h
  | keyOpen =>
    obtain ⟨hk, -, hnew⟩ := h
    have hperms := (resolveKeyFile_eq_ok_iff.mp hk).1
    cases hc
    exact ⟨hperms, hnew⟩
  | keyWrite =>
    obtain ⟨hperms, hnew⟩ := h
    cases hc
    exact ⟨resolveKeyFile_truncatedTo hperms (Nat.le_refl _), hnew⟩
  | keyPerms =>
    obtain ⟨hk, hnew⟩ := h
    cases hc
    exact ⟨_, held_setMode hk, fun f hf => .inl (hnew f hf)⟩

/-- The calls whose failure leaves the databases and the key file in step. -/
def Stage.inStep : Stage → Bool
  | .backup _ | .vacuum _ _ | .keyWrite | .keyPerms => true
  | _ => false

theorem interrupted_openable (h : AtStage cfg fresh old d stage)
    (hi : interrupted fresh old d left stage = some d') (hstage : stage.inStep = true)
    (hkey : stage = .keyWrite → 64 ≤ left.written) : Openable cfg d' := by
  cases stage with
  | backup todo =>
    cases hi
    exact ⟨old, h.1, h.2.1⟩
  | vacuum f todo =>
    obtain ⟨hk, hopen, -⟩ := h
    obtain ⟨hleft, hs⟩ := Option.ite_none_right_eq_some.mp hi
    cases hs
    exact ⟨old, hk, hopen.setDb hleft⟩
  | keyWrite =>
    cases hi
    exact ⟨_, resolveKeyFile_truncatedTo h.1 (hkey rfl), h.2⟩
  | keyPerms =>
    cases hi
    exact ⟨_, h⟩
  | rekey _ | pragma _ _ | verify _ _ | restore _ _ | keyDir | keyOpen =>
    exact absurd hstage Bool.false_ne_true

theorem interrupted_backedUp (h : AtStage cfg fresh old d stage)
    (hi : interrupted fresh old d left stage = some d') (hstage : stage.inStep = false) :
    Held cfg d' old ∧ BackedUp old d' d'.files := by
  cases stage with
  | rekey todo | keyDir | keyOpen => cases hi; exact ⟨h.1, h.2.1⟩
  | pragma f todo | verify f todo => cases hi; exact ⟨h.1, h.2.1⟩
  | restore e todo =>
    cases todo with
    | nil => cases hi; exact h
    | cons f todo => cases hi; exact h
  | backup _ | vacuum _ _ | keyWrite | keyPerms => exact absurd hstage.symm Bool.false_ne_true

theorem interrupted_recoverable (h : AtStage cfg fresh old d stage)
    (hi : interrupted fresh old d left stage = some d')
    (hkey : stage = .keyWrite → 64 ≤ left.written) : Recoverable cfg d' := by
  cases hstage : stage.inStep with
  | true => exact (interrupted_openable h hi hstage hkey).recoverable
  | false =>
    obtain ⟨hk, hback⟩ := interrupted_backedUp h hi hstage
    exact ⟨old, hk, fun f hf => .inr (hback f hf)⟩

/-! ## Runs -/

theorem onError_cases {phase : Phase} (h : onError cfg old d e stage = some phase) :
    (stage.inStep = false ∧ ∃ m, phase = .running old (.restore m d.files)) ∨
      ∃ m, phase = .returned (.error m) := by
  cases stage with
  | backup todo => cases todo <;> cases h; exact .inr ⟨_, rfl⟩
  | rekey todo => cases todo <;> cases h; exact .inl ⟨rfl, _, rfl⟩
  | restore m todo => cases todo <;> cases h; exact .inr ⟨_, rfl⟩
  | pragma f todo => cases h; exact .inl ⟨rfl, _, rfl⟩
  | verify f todo => cases h; exact .inl ⟨rfl, _, rfl⟩
  | vacuum _ _ | keyDir | keyOpen | keyWrite | keyPerms => cases h; exact .inr ⟨_, rfl⟩

/-- The new key is in the files and in the key file when it has to be. -/
def keyInPlace (fresh : KeyBytes) (s : State) (a : Act) : Bool :=
  keyWritten s a && rekeyed fresh s a

theorem step_kept (hsrc : cfg.encryption.keySource = .keyFile) (h : Kept cfg fresh s)
    (hok : keyInPlace fresh s a = true) (hs : step cfg fresh s a = some s') : Kept cfg fresh s' := by
  obtain ⟨hwritten, hrekeyed⟩ : keyWritten s a = true ∧ rekeyed fresh s a = true := by
    simpa [keyInPlace] using hok
  obtain ⟨d, phase⟩ := s
  cases phase with
  | start =>
    cases a with
    | succeeds left => cases hs; exact begin_kept h hsrc
    | fails e left => cases hs; exact Openable.recoverable h
    | stops left => cases hs; exact Openable.recoverable h
  | running old stage =>
    cases a with
    | succeeds left => exact completed_kept hsrc h hrekeyed hs
    | fails e left =>
      obtain ⟨d', hi, hs⟩ := Option.bind_eq_some_iff.mp hs
      obtain ⟨phase, hphase, rfl⟩ := Option.map_eq_some_iff.mp hs
      rcases onError_cases hphase with ⟨hstage, m, rfl⟩ | ⟨m, rfl⟩
      · exact interrupted_backedUp h hi hstage
      · refine interrupted_recoverable h hi ?_
        rintro rfl
        exact of_decide_eq_true hwritten
    | stops left =>
      obtain ⟨d', hi, rfl⟩ := Option.map_eq_some_iff.mp hs
      refine interrupted_recoverable h hi ?_
      rintro rfl
      exact of_decide_eq_true hwritten
  | returned r => cases hs
  | stopped => cases hs

/-- What the restore loop has visited opens with the old key, and so does everything once an
error is returned. -/
def Restored (cfg : Config) (s : State) : Prop :=
  match s.phase with
  | .running old (.restore _ todo) =>
    ∃ done, s.disk.files = done ++ todo ∧ OpenWith old s.disk done
  | .returned (.error _) => Openable cfg s.disk
  | _ => True

theorem begin_restored (h : Openable cfg d) : Restored cfg ⟨d, begin cfg d⟩ := by
  unfold begin
  split
  · exact h
  · exact h
  · split
    · exact h
    · trivial

theorem completed_restored (h : AtStage cfg fresh old d stage)
    (hr : Restored cfg ⟨d, .running old stage⟩)
    (hok : restoreDone ⟨d, .running old stage⟩ (.succeeds left) = true)
    (hc : completed cfg fresh old d left stage = some s') : Restored cfg s' := by
  cases stage with
  | restore e todo =>
    obtain ⟨done, hfiles, hopen⟩ : ∃ done, d.files = done ++ todo ∧ OpenWith old d done := hr
    cases todo with
    | nil =>
      cases hc
      rw [List.append_nil] at hfiles
      exact ⟨old, h.1, hfiles ▸ hopen⟩
    | cons f todo =>
      have hback : d.backup f = some (.key old) := h.2 f (by simp [hfiles])
      simp only [completed, hback] at hc
      obtain ⟨hcopy, hs⟩ := Option.ite_none_right_eq_some.mp hc
      cases hs
      have hmain : left.db.main = .key old := by simp [restored] at hcopy; exact hcopy.1
      have hwal : left.db.wal = none := of_decide_eq_true hok
      exact ⟨done ++ [f], files_snoc hfiles, hopen.snoc (by simp [DbFile.opens, hmain, hwal])⟩
  | rekey todo =>
    cases todo with
    | nil =>
      cases hc
      unfold persist
      split
      · split <;> trivial
      · trivial
    | cons f todo =>
      obtain ⟨-, hs⟩ := Option.ite_none_right_eq_some.mp hc
      cases hs
      trivial
  | backup todo =>
    cases todo with
    | nil => cases hc; trivial
    | cons f todo =>
      obtain ⟨-, hs⟩ := Option.ite_none_right_eq_some.mp hc
      cases hs
      trivial
  | vacuum _ _ | pragma _ _ | verify _ _ =>
    obtain ⟨-, hs⟩ := Option.ite_none_right_eq_some.mp hc
    cases hs
    trivial
  | keyDir | keyOpen | keyWrite | keyPerms => cases hc; trivial

def undamaged (fresh : KeyBytes) (s : State) (a : Act) : Bool :=
  keyInPlace fresh s a && restoreDone s a && keyFileOpened s a

theorem step_restored (h : Kept cfg fresh s) (hr : Restored cfg s)
    (hok : undamaged fresh s a = true) (hs : step cfg fresh s a = some s') : Restored cfg s' := by
  obtain ⟨⟨⟨hkey, -⟩, hrestore⟩, hopened⟩ :
      ((keyWritten s a = true ∧ rekeyed fresh s a = true) ∧ restoreDone s a = true) ∧
        keyFileOpened s a = true := by
    simpa [undamaged, keyInPlace] using hok
  obtain ⟨d, phase⟩ := s
  cases phase with
  | start =>
    cases a with
    | succeeds left => cases hs; exact begin_restored h
    | fails e left => cases hs; exact h
    | stops left => cases hs; trivial
  | running old stage =>
    cases a with
    | succeeds left => exact completed_restored h hr hrestore hs
    | fails e left =>
      obtain ⟨d', hi, hs⟩ := Option.bind_eq_some_iff.mp hs
      obtain ⟨phase, hphase, rfl⟩ := Option.map_eq_some_iff.mp hs
      rcases onError_cases hphase with ⟨-, m, rfl⟩ | ⟨m, rfl⟩
      · exact ⟨[], rfl, nofun⟩
      · refine interrupted_openable h hi ?_ ?_
        · cases stage with
          | backup _ | vacuum _ _ | keyWrite | keyPerms => rfl
          | rekey todo => cases todo <;> cases hphase
          | pragma _ _ | verify _ _ => cases hphase
          | restore _ _ => exact hrestore
          | keyDir | keyOpen => exact hopened
        · rintro rfl
          exact of_decide_eq_true hkey
    | stops left =>
      obtain ⟨d', hi, rfl⟩ := Option.map_eq_some_iff.mp hs
      trivial
  | returned r => cases hs
  | stopped => cases hs

/-- While a rekey that reports no error has taken effect and the key file is written whole, the end
of the command leaves a copy of every database to the key in it. When the restore loop and the
opening of the key file do not fail either, a returned error leaves the databases themselves. -/
theorem rekey_failure_openable (cfg : Config) (fresh : KeyBytes) (d : Disk)
    (hsrc : cfg.encryption.keySource = .keyFile) (hopen : Openable cfg d) :
    (∀ s, Reach (step cfg fresh) (keyInPlace fresh · ·) ⟨d, .start⟩ s → s.phase.ended →
      Recoverable cfg s.disk) ∧
    ∀ s e, Reach (step cfg fresh) (undamaged fresh · ·) ⟨d, .start⟩ s →
      s.phase = .returned (.error e) → Openable cfg s.disk := by
  have hstart : Kept cfg fresh ⟨d, .start⟩ := hopen
  constructor
  · intro s hreach hend
    have hkept : Kept cfg fresh s := hreach.inv (Kept cfg fresh) hstart
      fun _ _ _ h hok hs => step_kept hsrc h hok hs
    unfold Kept at hkept
    split at hkept
    · rename_i hphase; rw [hphase] at hend; cases hend
    · rename_i hphase; rw [hphase] at hend; cases hend
    · exact hkept
    · exact hkept
  · intro s e hreach hret
    have hinv : Kept cfg fresh s ∧ Restored cfg s :=
      hreach.inv (fun s => Kept cfg fresh s ∧ Restored cfg s) ⟨hstart, trivial⟩
        fun t a u h hok hs => by
          have hkey : keyInPlace fresh t a = true := by simp_all [undamaged]
          exact ⟨step_kept hsrc h.1 hkey hs, step_restored h.1 h.2 hok hs⟩
    have hrestored := hinv.2
    rw [Restored, hret] at hrestored
    exact hrestored

/-! ## Two databases -/

def oldKey : KeyBytes := ⟨List.replicate 32 0, rfl⟩

def newKey : KeyBytes := ⟨List.replicate 32 1, rfl⟩

def twoFilesConfig : Config := ⟨⟨true, .keyFile, ⟨"/etc/tinylord", "tinylord.key"⟩⟩, "data", none⟩

def twoFiles : Disk where
  files := ["_system.db", "notes.db"]
  db := fun _ => ⟨.key (generateHexKey oldKey), none⟩
  backup := fun _ => none
  keyFile := ⟨generateHexKey oldKey, 0o600⟩

def leaves (x : Content) (written : Nat) : Left := ⟨⟨x, none⟩, none, written⟩

def underOld : Left := leaves (.key (generateHexKey oldKey)) 0

def underNew : Left := leaves (.key (generateHexKey newKey)) 0

def firstRekeyed : List Act :=
  List.replicate 6 (.succeeds underOld) ++ List.replicate 3 (.succeeds underNew)

theorem twoFiles_held : Held twoFilesConfig twoFiles (generateHexKey oldKey) :=
  resolveKeyFile_eq_ok_iff.mpr
    ⟨checkKeyFilePerms_ownerOnly _ _, validateHexKey_generateHexKey oldKey⟩

theorem not_openable {f : String} (hk : Held cfg d k) (hf : f ∈ d.files)
    (hopens : (d.db f).opens k = false) : ¬ Openable cfg d := by
  rintro ⟨k', hk', hopen⟩
  obtain rfl : k = k' := Except.ok.inj (hk.symm.trans hk')
  exact Bool.false_ne_true (hopens.symm.trans (hopen f hf))

/-- The second database cannot be rekeyed, and then the first one cannot be copied back. -/
def restoreFailsRun : List Act :=
  firstRekeyed ++ [.fails "disk I/O error" underOld, .fails "permission denied" underNew]

def bothRekeyed : List Act := firstRekeyed ++ List.replicate 5 (.succeeds underNew)

def keyFileFailsRun : List Act := bothRekeyed ++ [.fails "read-only file system" underNew]

/-- The process stops when the key file has been truncated. -/
def truncatedRun : List Act := bothRekeyed ++ [.succeeds underNew, .stops underNew]

/-- The rekey of the second database does nothing and reports no error. -/
def silentRun : List Act :=
  firstRekeyed ++ List.replicate 3 (.succeeds underOld) ++ List.replicate 5 (.succeeds underNew)

theorem silentRun_locks_out :
    ∃ s, exec (step twoFilesConfig newKey) ⟨twoFiles, .start⟩ silentRun = some s ∧
      s.phase = .returned (.ok ()) ∧ ¬ Recoverable twoFilesConfig s.disk := by
  have hrun : ∃ s, exec (step twoFilesConfig newKey) ⟨twoFiles, .start⟩ silentRun = some s ∧
      s.phase = .returned (.ok ()) ∧ s.disk.keyFile = ⟨generateHexKey newKey, 0o600⟩ ∧
      s.disk.files = ["_system.db", "notes.db"] ∧
      (s.disk.db "notes.db").opens (generateHexKey newKey) = false ∧
      s.disk.backup "notes.db" = some (.key (generateHexKey oldKey)) :=
    ⟨_, rfl, rfl, rfl, rfl, rfl, rfl⟩
  obtain ⟨s, hexec, hphase, hkeyFile, hfiles, hdb, hbackup⟩ := hrun
  refine ⟨s, hexec, hphase, ?_⟩
  rintro ⟨k, hk, hall⟩
  rw [Held, hkeyFile] at hk
  have hnew : resolveKeyFile twoFilesConfig.encryption.keyFile ⟨generateHexKey newKey, 0o600⟩ =
      .ok (generateHexKey newKey) := resolveKeyFile_eq_ok_iff.mpr
    ⟨checkKeyFilePerms_ownerOnly _ _, validateHexKey_generateHexKey newKey⟩
  obtain rfl : generateHexKey newKey = k := Except.ok.inj (hnew.symm.trans hk)
  rcases hall "notes.db" (by simp [hfiles]) with hopens | hcopy
  · rw [hdb] at hopens
    cases hopens
  · rw [hbackup] at hcopy
    exact absurd hcopy (by decide)

/-- Two errors after which a database is under a key that no file holds, a stop after which no file
holds a key, and a rekey that fails in silence and leaves a database behind under the old key. -/
theorem rekey_failure_locks_out :
    (∃ s, exec (step twoFilesConfig newKey) ⟨twoFiles, .start⟩ restoreFailsRun = some s ∧
      s.phase = .returned (.error "restoring _system.db") ∧ ¬ Openable twoFilesConfig s.disk) ∧
    (∃ s, exec (step twoFilesConfig newKey) ⟨twoFiles, .start⟩ keyFileFailsRun = some s ∧
      s.phase = .returned (.error "writing key file /etc/tinylord/tinylord.key") ∧
      ¬ Openable twoFilesConfig s.disk) ∧
    (∃ s, exec (step twoFilesConfig newKey) ⟨twoFiles, .start⟩ truncatedRun = some s ∧
      s.phase = .stopped ∧ ¬ Recoverable twoFilesConfig s.disk) ∧
    ∃ s, exec (step twoFilesConfig newKey) ⟨twoFiles, .start⟩ silentRun = some s ∧
      s.phase = .returned (.ok ()) ∧ ¬ Recoverable twoFilesConfig s.disk := by
  refine ⟨⟨_, rfl, rfl, ?_⟩, ⟨_, rfl, rfl, ?_⟩, ⟨_, rfl, rfl, ?_⟩, silentRun_locks_out⟩
  · exact not_openable (f := "_system.db") twoFiles_held (by decide) rfl
  · exact not_openable (f := "_system.db") twoFiles_held (by decide) rfl
  · rintro ⟨k, hk, -⟩
    exact resolveKeyFile_truncatedTo_short (by decide) k hk

def restoredRun : List Act :=
  firstRekeyed ++ [.fails "disk I/O error" underOld] ++ List.replicate 3 (.succeeds underOld)

theorem rekey_failure_openable_restoredRun :
    ∃ s, exec (step twoFilesConfig newKey) ⟨twoFiles, .start⟩ restoredRun = some s ∧
      s.phase = .returned (.error "rekey aborted and databases restored: disk I/O error") ∧
      Openable twoFilesConfig s.disk ∧ Recoverable twoFilesConfig s.disk := by
  have hopen : Openable twoFilesConfig twoFiles := ⟨_, twoFiles_held, fun _ _ => rfl⟩
  obtain ⟨hrecoverable, hopenable⟩ :=
    rekey_failure_openable twoFilesConfig newKey twoFiles rfl hopen
  exact ⟨_, rfl, rfl, hopenable _ _ (.of_exec restoredRun (by decide) rfl) rfl,
    hrecoverable _ (.of_exec restoredRun (by decide) rfl) rfl⟩

end TinyLord.Rekey
