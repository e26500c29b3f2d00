import TinyLord.Encryption
import TinyLord.Lib.Threads

/-!
# One key for all databases

Every process finds the key in the key file when it starts. The first one finds none, makes a key
and writes it there. Looking for the file, making it, writing it and restricting it are calls of
their own, and a process can stop at any of them.
-/

open Lib Lib.Run Lib.Threads

namespace TinyLord.Startup

/-! ## Processes -/

inductive Command where
  /-- Any command that opens databases. -/
  | serve
  /-- `keygen --out`, on the key file of the server. -/
  | keygen

/-- The call that comes next. -/
inductive Pc where
  | lookup
  | perms
  | read
  | generate
  | createDir (key : Text)
  | create (key : Text)
  | write (key : Text)
  | setPerms (key : Text)

inductive Process where
  | idle
  | starting (cmd : Command) (pc : Pc)
  /-- Has resolved the key. -/
  | running (key : Text)
  | returned (r : Except String Unit)
  | stopped

structure Disk where
  keyFile : Option KeyFile
  /-- The key that a database file is encrypted under. -/
  dbs : String → Option Text

/-- What `OsRng` gives, and the mode of a new file. -/
structure Draw where
  buf : KeyBytes
  mode : Nat

inductive Act where
  | start (cmd : Command)
  | run (draw : Draw)
  /-- The call fails. A write may have written some of the key. -/
  | fail (e : String) (written : Nat)
  | stop (written : Nat)
  | open (name : String)
  /-- The operator sets the mode of the key file. -/
  | chmod (mode : Nat)

def Disk.setText (d : Disk) (text : Text) : Disk :=
  { d with keyFile := d.keyFile.map fun f => { f with text } }

def Disk.setMode (d : Disk) (mode : Nat) : Disk :=
  { d with keyFile := d.keyFile.map fun f => { f with mode } }

/-- `File::create`. A file that is there keeps its mode and loses its text. -/
def Disk.create (d : Disk) (mode : Nat) : Disk :=
  { d with keyFile := some ⟨[], (d.keyFile.map (·.mode)).getD mode⟩ }

def refuse (e : String) : Process := .returned (.error e)

/-- A call of `resolve_key_file` or `write_key_file` that succeeds. -/
def call (path : KeyPath) (d : Disk) (draw : Draw) (cmd : Command) : Pc → Disk × Process
  | .lookup => (d, .starting cmd (if d.keyFile.isSome then .perms else .generate))
  | .perms =>
    match d.keyFile with
    | none => (d, refuse s!"stat key file {path.display}")
    | some f =>
      match checkKeyFilePerms path f with
      | .error e => (d, refuse e)
      | .ok () => (d, .starting cmd .read)
  | .read =>
    match d.keyFile with
    | none => (d, refuse s!"reading key file {path.display}")
    | some f =>
      match validateHexKey f.text with
      | .ok key => (d, .running key)
      | .error _ => (d, refuse s!"key file {path.display} is malformed")
  | .generate => (d, .starting cmd (.createDir (generateHexKey draw.buf)))
  | .createDir key => (d, .starting cmd (.create key))
  | .create key => (d.create draw.mode, .starting cmd (.write key))
  | .write key => (d.setText key, .starting cmd (.setPerms key))
  | .setPerms key =>
    (d.setMode 0o600, match cmd with
      | .serve => .running key
      | .keygen => .returned (.ok ()))

/-- `Path::exists` takes an error for a no. -/
def failure (path : KeyPath) (d : Disk) (cmd : Command) (e : String) (written : Nat) :
    Pc → Option (Disk × Process)
  | .lookup => some (d, .starting cmd .generate)
  | .generate => none
  | .createDir _ => if path.parent = "" then none else some (d, refuse e)
  | .write key => some (d.setText (key.take written), refuse e)
  | _ => some (d, refuse e)

def halt (d : Disk) (written : Nat) : Pc → Disk
  | .write key => d.setText (key.take written)
  | _ => d

/-- A database that is new is encrypted under the key of the process. Another does not open when its
key is another. -/
def openDb (d : Disk) (key : Text) (name : String) : Disk :=
  match d.dbs name with
  | none => { d with dbs := Function.update d.dbs name (some key) }
  | some _ => d

def next (path : KeyPath) (d : Disk) (_ : Nat) : Process → Act → Option (Disk × Process)
  | .idle, .start .serve => some (d, .starting .serve .lookup)
  | .idle, .start .keygen => some (d, .starting .keygen .generate)
  | .idle, .chmod mode => some (d.setMode mode, .idle)
  | .starting cmd pc, .run draw => some (call path d draw cmd pc)
  | .starting cmd pc, .fail e written => failure path d cmd e written pc
  | .starting _ pc, .stop written => some (halt d written pc, .stopped)
  | .running key, .open name => some (openDb d key name, .running key)
  | .running _, .stop _ => some (d, .stopped)
  | _, _ => none

abbrev System := Pool Disk Process

def System.boot : System where
  shared := { keyFile := none, dbs := fun _ => none }
  threads := fun _ => .idle

/-! ## The statement -/

def Process.creating : Process → Bool
  | .starting _ (.create _) => true
  | _ => false

def Act.isRun : Act → Bool
  | .run _ => true
  | _ => false

/-- A key file is created only where there is none yet. -/
def createsOnce (d : Disk) (_ : Nat) (t : Process) (a : Act) : Prop :=
  a.isRun → t.creating → d.keyFile = none

instance (d : Disk) (i : Nat) (t : Process) (a : Act) : Decidable (createsOnce d i t a) :=
  inferInstanceAs (Decidable (_ → _ → _))

/-- A process works with the key, or a database is encrypted under it. -/
def Held (s : System) (key : Text) : Prop :=
  (∃ i, s.threads i = .running key) ∨ ∃ name, s.shared.dbs name = some key

/-! ## The life of the key file -/

inductive Progress where
  | none
  | writing (key : Text) (i : Nat)
  /-- Nobody writes to the file any more, and some of the key is in it. -/
  | written (key : Text)

def Generated (key : Text) : Prop := ∃ buf, key = generateHexKey buf

def OnDisk : Progress → Disk → Prop
  | .none, d => d.keyFile = none ∧ ∀ name, d.dbs name = none
  | .writing key _, d =>
    Generated key ∧ (∃ mode, d.keyFile = some ⟨[], mode⟩) ∧ ∀ name, d.dbs name = none
  | .written key, d => Generated key ∧ ∃ n mode, d.keyFile = some ⟨key.take n, mode⟩ ∧
      ∀ name k, d.dbs name = some k → k = key ∧ key.take n = key

/-- The file holds all of the key. -/
def Whole (d : Disk) (key : Text) : Prop := ∃ mode, d.keyFile = some ⟨key, mode⟩

def Assertion (g : Progress) (d : Disk) (i : Nat) : Process → Prop
  | .starting _ (.createDir key) | .starting _ (.create key) => Generated key
  | .starting _ (.write key) => g = .writing key i
  | .starting _ (.setPerms key) | .running key => g = .written key ∧ Whole d key
  | _ => True

section

variable {path : KeyPath} {d d' : Disk} {i j : Nat} {t t' : Process} {a : Act} {draw : Draw}
  {cmd : Command} {pc : Pc} {g g' : Progress} {key : Text} {s : System}

theorem take_of_validate {n : Nat} {k : Text} (hgen : Generated key)
    (h : validateHexKey (key.take n) = .ok k) : k = key ∧ key.take n = key := by
  obtain ⟨buf, rfl⟩ := hgen
  have hn : 64 ≤ n := by
    by_contra hlt
    refine validateHexKey_short ?_ k h
    rw [List.length_take]
    omega
  have htake : (generateHexKey buf).take n = generateHexKey buf :=
    List.take_of_length_le (by rwa [generateHexKey_length])
  rw [htake, validateHexKey_generateHexKey] at h
  cases h
  exact ⟨rfl, htake⟩

theorem OnDisk.setMode (h : OnDisk g d) (mode : Nat) : OnDisk g (d.setMode mode) := by
  cases g with
  | none => exact ⟨by rw [Disk.setMode, h.1]; rfl, h.2⟩
  | writing key i =>
    obtain ⟨hgen, ⟨_, hfile⟩, hdbs⟩ := h
    exact ⟨hgen, ⟨mode, by rw [Disk.setMode, hfile]; rfl⟩, hdbs⟩
  | written key =>
    obtain ⟨hgen, n, _, hfile, hdbs⟩ := h
    exact ⟨hgen, n, mode, by rw [Disk.setMode, hfile]; rfl, hdbs⟩

theorem Whole.setMode (h : Whole d key) (mode : Nat) : Whole (d.setMode mode) key := by
  obtain ⟨_, hfile⟩ := h
  exact ⟨mode, by rw [Disk.setMode, hfile]; rfl⟩

theorem Assertion.setMode (h : Assertion g d i t) (mode : Nat) :
    Assertion g (d.setMode mode) i t := by
  match t with
  | .starting _ (.createDir _) | .starting _ (.create _) | .starting _ (.write _) => exact h
  | .starting _ (.setPerms _) | .running _ => exact ⟨h.1, h.2.setMode mode⟩
  | .starting _ .lookup | .starting _ .perms | .starting _ .read | .starting _ .generate | .idle
  | .returned _ | .stopped => trivial

theorem Assertion.written (h : Assertion (.writing key i) d j t) (hj : j ≠ i) :
    Assertion g' d' j t := by
  match t with
  | .starting _ (.createDir _) | .starting _ (.create _) => exact h
  | .starting _ (.write _) =>
    cases h
    exact absurd rfl hj
  | .starting _ (.setPerms _) | .running _ => cases h.1
  | .starting _ .lookup | .starting _ .perms | .starting _ .read | .starting _ .generate | .idle
  | .returned _ | .stopped => trivial

theorem Assertion.created (h : Assertion .none d j t) : Assertion g' d' j t := by
  match t with
  | .starting _ (.createDir _) | .starting _ (.create _) => exact h
  | .starting _ (.write _) => cases h
  | .starting _ (.setPerms _) | .running _ => cases h.1
  | .starting _ .lookup | .starting _ .perms | .starting _ .read | .starting _ .generate | .idle
  | .returned _ | .stopped => trivial

/-- The step has kept everything: the disk, what its process asserts and what the others do. -/
def Kept (g : Progress) (d : Disk) (i : Nat) (d' : Disk) (t' : Process) : Prop :=
  ∃ g', OnDisk g' d' ∧ Assertion g' d' i t' ∧
    ∀ j q, j ≠ i → Assertion g d j q → Assertion g' d' j q

theorem kept_same (hd : OnDisk g d) (ht : Assertion g d i t') : Kept g d i d t' :=
  ⟨g, hd, ht, fun _ _ _ h => h⟩

theorem kept_setMode (hd : OnDisk g d) (mode : Nat) (ht : Assertion g d i t') :
    Kept g d i (d.setMode mode) t' :=
  ⟨g, hd.setMode mode, ht.setMode mode, fun _ _ _ h => h.setMode mode⟩

theorem kept_write (hd : OnDisk (.writing key i) d) (n : Nat)
    (ht : key.take n = key → Assertion (.written key) (d.setText key) i t')
    (hpart : key.take n ≠ key → ∀ g d, Assertion g d i t') :
    Kept (.writing key i) d i (d.setText (key.take n)) t' := by
  obtain ⟨hgen, ⟨mode, hfile⟩, hdbs⟩ := hd
  refine ⟨.written key, ⟨hgen, n, mode, by rw [Disk.setText, hfile]; rfl, ?_⟩, ?_,
    fun _ _ hj h => h.written hj⟩
  · intro name k hk
    have hnone : (d.setText (key.take n)).dbs name = none := hdbs name
    rw [hnone] at hk
    cases hk
  · by_cases hwhole : key.take n = key
    · rw [hwhole]
      exact ht hwhole
    · exact hpart hwhole _ _

theorem kept_create (hd : OnDisk .none d) (mode : Nat) (hgen : Generated key) :
    Kept .none d i (d.create mode) (.starting cmd (.write key)) := by
  obtain ⟨hfile, hdbs⟩ := hd
  refine ⟨.writing key i, ⟨hgen, ⟨mode, by rw [Disk.create, hfile]; rfl⟩, hdbs⟩, rfl, ?_⟩
  intro j q _ h
  exact h.created

theorem kept_openDb (hd : OnDisk (.written key) d) (hwhole : Whole d key) (name : String) :
    Kept (.written key) d i (openDb d key name) (.running key) := by
  cases hdb : d.dbs name with
  | some _ =>
    rw [openDb, hdb]
    exact kept_same hd ⟨rfl, hwhole⟩
  | none =>
    rw [openDb, hdb]
    obtain ⟨hgen, n, mode, hfile, hdbs⟩ := hd
    have htake : key.take n = key := by
      obtain ⟨_, hfile'⟩ := hwhole
      have heq := hfile'.symm.trans hfile
      simp only [Option.some.injEq, KeyFile.mk.injEq] at heq
      exact heq.1.symm
    refine ⟨.written key, ⟨hgen, n, mode, hfile, ?_⟩, ⟨rfl, hwhole⟩, ?_⟩
    · intro other k hk
      by_cases hname : other = name
      · subst hname
        simp only [Function.update_self, Option.some.injEq] at hk
        exact ⟨hk.symm, htake⟩
      · simp only [Function.update_of_ne hname] at hk
        exact hdbs other k hk
    · intro j q _ h
      match q with
      | .starting _ (.createDir _) | .starting _ (.create _) | .starting _ (.write _)
      | .starting _ (.setPerms _) | .running _ => exact h
      | .starting _ .lookup | .starting _ .perms | .starting _ .read | .starting _ .generate
      | .idle | .returned _ | .stopped => trivial

/-! ## Steps -/

theorem kept_call (hd : OnDisk g d) (ht : Assertion g d i (.starting cmd pc))
    (hok : createsOnce d i (.starting cmd pc) (.run draw)) :
    Kept g d i (call path d draw cmd pc).1 (call path d draw cmd pc).2 := by
  cases pc with
  | lookup =>
    simp only [call]
    split <;> exact kept_same hd trivial
  | perms =>
    simp only [call]
    split
    · exact kept_same hd trivial
    · split <;> exact kept_same hd trivial
  | read =>
    simp only [call]
    split
    · exact kept_same hd trivial
    · next f hf =>
      split
      · next k hk =>
        -- A text that parses as a key can only be the one that was generated, to its end.
        cases g with
        | none => cases hd.1.symm.trans hf
        | writing key j =>
          obtain ⟨_, hfile⟩ := hd.2.1
          cases hfile.symm.trans hf
          have hempty : validateHexKey [] ≠ .ok k := validateHexKey_short (by decide) k
          exact absurd hk hempty
        | written key =>
          obtain ⟨hgen, n, mode, hfile, hdbs⟩ := hd
          cases hfile.symm.trans hf
          obtain ⟨rfl, htake⟩ := take_of_validate hgen hk
          refine kept_same ⟨hgen, n, mode, hfile, hdbs⟩ ⟨rfl, mode, ?_⟩
          rw [hfile, htake]
      · exact kept_same hd trivial
  | generate => exact kept_same hd ⟨draw.buf, rfl⟩
  | createDir key => exact kept_same hd ht
  | create key =>
    have hnone : d.keyFile = none := hok rfl rfl
    cases g with
    | none => exact kept_create hd draw.mode ht
    | writing key' j =>
      obtain ⟨_, hfile⟩ := hd.2.1
      cases hfile.symm.trans hnone
    | written key' =>
      obtain ⟨_, _, _, hfile, _⟩ := hd
      cases hfile.symm.trans hnone
  | write key =>
    obtain rfl : g = .writing key i := ht
    obtain ⟨mode, hfile⟩ := hd.2.1
    have hwhole : Whole (d.setText key) key := ⟨mode, by rw [Disk.setText, hfile]; rfl⟩
    have hkept : Kept (.writing key i) d i (d.setText (key.take key.length))
        (.starting cmd (.setPerms key)) :=
      kept_write hd key.length (fun _ => ⟨rfl, hwhole⟩) fun hpart =>
        absurd List.take_length hpart
    rwa [List.take_length] at hkept
  | setPerms key =>
    cases cmd with
    | serve => exact kept_setMode hd 0o600 ht
    | keygen => exact kept_setMode hd 0o600 trivial

theorem kept_partial (hd : OnDisk (.writing key i) d) (n : Nat) (ht : ∀ g d, Assertion g d i t') :
    Kept (.writing key i) d i (d.setText (key.take n)) t' :=
  kept_write hd n (fun _ => ht _ _) (fun _ => ht)

theorem kept_failure {e : String} {written : Nat} (hd : OnDisk g d)
    (ht : Assertion g d i (.starting cmd pc))
    (h : failure path d cmd e written pc = some (d', t')) : Kept g d i d' t' := by
  cases pc with
  | lookup =>
    cases h
    exact kept_same hd trivial
  | generate => cases h
  | createDir _ =>
    rw [failure] at h
    split at h
    · cases h
    · cases h
      exact kept_same hd trivial
  | write key =>
    cases h
    obtain rfl : g = .writing key i := ht
    exact kept_partial hd written fun _ _ => trivial
  | perms | read | create _ | setPerms _ =>
    cases h
    exact kept_same hd trivial

theorem kept_halt (hd : OnDisk g d) (ht : Assertion g d i (.starting cmd pc)) (written : Nat) :
    Kept g d i (halt d written pc) .stopped := by
  cases pc with
  | write key =>
    obtain rfl : g = .writing key i := ht
    exact kept_partial hd written fun _ _ => trivial
  | lookup | perms | read | generate | createDir _ | create _ | setPerms _ =>
    exact kept_same hd trivial

theorem keeps : Keeps (next path) createsOnce OnDisk Assertion := by
  intro g d i t a d' t' hd ht hok hnext
  match t, a with
  | .idle, .start .serve | .idle, .start .keygen =>
    cases hnext
    exact kept_same hd trivial
  | .idle, .chmod mode =>
    cases hnext
    exact kept_setMode hd mode trivial
  | .starting cmd pc, .run draw =>
    obtain ⟨rfl, rfl⟩ := Prod.ext_iff.mp (Option.some.inj hnext)
    exact kept_call hd ht hok
  | .starting cmd pc, .fail e written => exact kept_failure hd ht hnext
  | .starting cmd pc, .stop written =>
    cases hnext
    exact kept_halt hd ht written
  | .running key, .open name =>
    cases hnext
    obtain ⟨rfl, hwhole⟩ := ht
    exact kept_openDb hd hwhole name
  | .running _, .stop _ =>
    cases hnext
    exact kept_same hd trivial

theorem asserted_boot : Asserted OnDisk Assertion System.boot :=
  ⟨.none, ⟨rfl, fun _ => rfl⟩, fun _ => trivial⟩

/-- As long as no key file is created where there is one, the key that a process works with, and the
key that a database is encrypted under, is the text of the key file: there is one key in all, and
the next start reads it back. That holds through every stop and every failed call. -/
theorem one_key (h : Reach (step (next path)) (moving createsOnce) System.boot s)
    (hheld : Held s key) :
    ∃ mode, s.shared.keyFile = some ⟨key, mode⟩ ∧ validateHexKey key = .ok key := by
  obtain ⟨g, hd, hA⟩ := asserted_boot.run keeps h
  cases hheld with
  | inl hrunning =>
    obtain ⟨i, hi⟩ := hrunning
    have ht := hA i
    rw [hi] at ht
    obtain ⟨rfl, mode, hfile⟩ := ht
    obtain ⟨buf, rfl⟩ := hd.1
    exact ⟨mode, hfile, validateHexKey_generateHexKey buf⟩
  | inr hdb =>
    obtain ⟨name, hname⟩ := hdb
    cases g with
    | none => cases (hd.2 name).symm.trans hname
    | writing key' j => cases (hd.2.2 name).symm.trans hname
    | written key' =>
      obtain ⟨⟨buf, rfl⟩, n, mode, hfile, hdbs⟩ := hd
      obtain ⟨rfl, htake⟩ := hdbs name key hname
      rw [htake] at hfile
      exact ⟨mode, hfile, validateHexKey_generateHexKey buf⟩

end

def keyPath : KeyPath := ⟨"/etc/tinylord", "key"⟩

theorem length_zeros : (List.replicate 32 (0 : UInt8)).length = 32 := rfl

def zeros : Draw := ⟨⟨_, length_zeros⟩, 0o644⟩

/-- The first start is stopped once it has opened a database. Another start reads the key. -/
def restarted : List (Nat × Act) :=
  (0, .start .serve) :: List.replicate 6 (0, .run zeros) ++ [(0, .open "app"), (0, .stop 0)] ++
    (1, .start .serve) :: List.replicate 3 (1, .run zeros)

theorem one_key_restarted :
    ∃ s, exec (step (next keyPath)) System.boot restarted = some s ∧
      ∃ mode, s.shared.keyFile = some ⟨generateHexKey zeros.buf, mode⟩ ∧
        validateHexKey (generateHexKey zeros.buf) = .ok (generateHexKey zeros.buf) := by
  obtain ⟨s, hexec, hrunning⟩ : ∃ s, exec (step (next keyPath)) System.boot restarted = some s ∧
      s.threads 1 = .running (generateHexKey zeros.buf) := ⟨_, rfl, rfl⟩
  have hallowed : Allowed (step (next keyPath)) (moving createsOnce) System.boot restarted := by
    decide
  exact ⟨s, hexec, one_key (.of_exec restarted hallowed hexec) (.inl ⟨1, hrunning⟩)⟩

end TinyLord.Startup
