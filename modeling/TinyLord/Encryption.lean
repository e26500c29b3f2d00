import TinyLord.Text

/-!
# The instance key

Where the key comes from (the environment, the OS keyring or a key file), what a key looks
like, and what a key file holds while it is written.
-/

namespace TinyLord

/-! ## Keys -/

/-- `u8::is_ascii_hexdigit`. A character of several bytes has none that passes. -/
def isHexDigit (c : Char) : Bool :=
  let n := c.toNat
  (48 ≤ n && n ≤ 57) || (65 ≤ n && n ≤ 70) || (97 ≤ n && n ≤ 102)

def validateHexKey (s : Text) : Except String Text :=
  let trimmed := Text.trim s
  if trimmed.length ≠ 64 ∨ ¬ trimmed.all isHexDigit then
    .error "encryption key must be exactly 64 hexadecimal characters (a 32-byte key)"
  else .ok (trimmed.map Char.toLower)

/-- What `OsRng` fills the buffer with. -/
abbrev KeyBytes := {buf : List UInt8 // buf.length = 32}

def generateHexKey (buf : KeyBytes) : Text :=
  buf.val.flatMap fun b => [Nat.digitChar (b.toNat / 16), Nat.digitChar (b.toNat % 16)]

theorem isHexDigit_digitChar : ∀ n < 16, isHexDigit (Nat.digitChar n) = true ∧
    isWhitespace (Nat.digitChar n) = false ∧ (Nat.digitChar n).toLower = Nat.digitChar n := by
  decide

theorem isHexDigit_of_mem {buf : KeyBytes} {c : Char} (h : c ∈ generateHexKey buf) :
    isHexDigit c = true ∧ isWhitespace c = false ∧ c.toLower = c := by
  obtain ⟨b, -, hb⟩ := List.mem_flatMap.mp h
  have := b.toNat_lt
  rcases List.mem_pair.mp hb with rfl | rfl
  · exact isHexDigit_digitChar _ (by omega)
  · exact isHexDigit_digitChar _ (by omega)

theorem generateHexKey_length (buf : KeyBytes) : (generateHexKey buf).length = 64 := by
  simp [generateHexKey, List.length_flatMap, buf.property]

/-- A generated key is read back as it was written. -/
theorem validateHexKey_generateHexKey (buf : KeyBytes) :
    validateHexKey (generateHexKey buf) = .ok (generateHexKey buf) := by
  have htrim : Text.trim (generateHexKey buf) = generateHexKey buf :=
    trim_eq_self fun c hc => (isHexDigit_of_mem hc).2.1
  have hall : (generateHexKey buf).all isHexDigit = true :=
    List.all_eq_true.mpr fun c hc => (isHexDigit_of_mem hc).1
  have hlower : (generateHexKey buf).map Char.toLower = generateHexKey buf :=
    (List.map_congr_left fun c hc => (isHexDigit_of_mem hc).2.2).trans (List.map_id _)
  simp [validateHexKey, htrim, generateHexKey_length, hall, hlower]

theorem validateHexKey_short {s : Text} (h : s.length < 64) (k : Text) :
    validateHexKey s ≠ .ok k := by
  have := length_trim_le s
  simp [validateHexKey, show (Text.trim s).length ≠ 64 by omega]

/-! ## Where the key comes from -/

inductive KeySource
  | env
  | keyring
  | keyFile
deriving DecidableEq, Repr

structure KeyPath where
  /-- `Path::parent`, empty for a bare file name. -/
  parent : String
  name : String
deriving Repr

def KeyPath.display (p : KeyPath) : String :=
  if p.parent = "" then p.name else s!"{p.parent}/{p.name}"

structure EncryptionConfig where
  enabled : Bool
  keySource : KeySource
  keyFile : KeyPath

/-- A key file that exists: its text and its permission bits. -/
structure KeyFile where
  text : Text
  mode : Nat
deriving DecidableEq, Repr

inductive Encryption
  | enabled (key : Text)
  | disabled
deriving DecidableEq, Repr

def octal (n : Nat) : String := String.ofList (Nat.toDigits 8 n)

/-- Refuse a key file that group or others can read. -/
def checkKeyFilePerms (path : KeyPath) (file : KeyFile) : Except String Unit :=
  if file.mode &&& 0o077 ≠ 0 then
    .error (s!"key file {path.display} has permissions {octal (file.mode &&& 0o7777)}; " ++
      s!"must be 0600 (owner-only). Fix with: chmod 600 {path.display}")
  else .ok ()

theorem checkKeyFilePerms_ownerOnly (path : KeyPath) (s : Text) :
    checkKeyFilePerms path ⟨s, 0o600⟩ = .ok () :=
  if_neg (show ¬ 0o600 &&& 0o077 ≠ 0 by decide)

/-- `resolve_key_file` where the file exists. -/
def resolveKeyFile (path : KeyPath) (file : KeyFile) : Except String Text := do
  checkKeyFilePerms path file
  match validateHexKey file.text with
  | .ok hex => .ok hex
  | .error _ => .error s!"key file {path.display} is malformed"

/-- `env` is `TINYLORD_ENCRYPTION_KEY`; the binary is built without keyring support. -/
def resolveKey (enc : EncryptionConfig) (env : Option Text) (file : KeyFile) :
    Except String Text :=
  match enc.keySource with
  | .env => match env with
    | none => .error
      "key_source = \"env\" but TINYLORD_ENCRYPTION_KEY is not set (64 hex chars)"
    | some raw => validateHexKey raw
  | .keyring => .error ("key_source = \"keyring\" requires building tinylord with " ++
      "`--features keyring`; this binary was built without OS keyring support")
  | .keyFile => resolveKeyFile enc.keyFile file

def resolve (enc : EncryptionConfig) (env : Option Text) (file : KeyFile)
    (allowUnencrypted : Bool) : Except String Encryption :=
  if ¬ enc.enabled then
    if ¬ allowUnencrypted then
      .error ("encryption is disabled in config but --allow-unencrypted was not passed; " ++
        "refusing to store data in plaintext without an explicit opt-out")
    else .ok .disabled
  else (resolveKey enc env file).map .enabled

def KeyFile.truncatedTo (file : KeyFile) (key : Text) (written : Nat) : KeyFile :=
  { file with text := key.take written }

theorem resolveKeyFile_eq_ok_iff {path : KeyPath} {file : KeyFile} {k : Text} :
    resolveKeyFile path file = .ok k ↔
      checkKeyFilePerms path file = .ok () ∧ validateHexKey file.text = .ok k := by
  cases hp : checkKeyFilePerms path file with
  | error e => simp [resolveKeyFile, hp, bind, Except.bind]
  | ok u =>
    cases hv : validateHexKey file.text with
    | error e => simp [resolveKeyFile, hp, hv, bind, Except.bind]
    | ok hex => simp [resolveKeyFile, hp, hv, bind, Except.bind]

theorem resolve_keyFile {enc : EncryptionConfig} {env : Option Text} {file : KeyFile} {k : Text}
    (hsrc : enc.keySource = .keyFile) (hk : resolveKeyFile enc.keyFile file = .ok k) :
    resolve enc env file true = .ok (if enc.enabled then .enabled k else .disabled) := by
  cases h : enc.enabled with
  | false => simp [resolve, h]
  | true => simp [resolve, resolveKey, h, hsrc, hk, Except.map]

/-- Once all 64 characters are there, the file holds the new key. -/
theorem resolveKeyFile_truncatedTo {path : KeyPath} {file : KeyFile} {buf : KeyBytes} {n : Nat}
    (hperms : checkKeyFilePerms path file = .ok ()) (hn : 64 ≤ n) :
    resolveKeyFile path (file.truncatedTo (generateHexKey buf) n) = .ok (generateHexKey buf) := by
  refine resolveKeyFile_eq_ok_iff.mpr ⟨hperms, ?_⟩
  rw [KeyFile.truncatedTo, List.take_of_length_le (by rw [generateHexKey_length]; exact hn)]
  exact validateHexKey_generateHexKey buf

theorem resolveKeyFile_truncatedTo_short {path : KeyPath} {file : KeyFile} {key : Text} {n : Nat}
    (hn : n < 64) (k : Text) : resolveKeyFile path (file.truncatedTo key n) ≠ .ok k := by
  have hshort : (key.take n).length < 64 := by rw [List.length_take]; omega
  exact fun h => validateHexKey_short hshort k (resolveKeyFile_eq_ok_iff.mp h).2

end TinyLord
