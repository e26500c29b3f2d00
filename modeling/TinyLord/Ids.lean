import TinyLord.Errors

/-!
# Names
-/

namespace TinyLord

/-- `^[a-zA-Z][a-zA-Z0-9_]{0,63}$` -/
def validName (name : String) : Bool :=
  match name.toList with
  | [] => false
  | c :: cs => name.utf8ByteSize ≤ 64 && c.isAlpha && cs.all fun c => c.isAlphanum || c == '_'

def requireValidName (kind name : String) : Except ApiError Unit :=
  if validName name then .ok ()
  else .error (.validation
    ("invalid " ++ kind ++ " name; must match ^[a-zA-Z][a-zA-Z0-9_]\x7b0,63\x7d$"))

theorem requireValidName_ok (kind : String) {name : String} (h : validName name = true) :
    requireValidName kind name = .ok () := by
  rw [requireValidName, if_pos h]

def reservedCollections : List String := ["changelog", "indexes"]

/-- The tables `_changelog` and `_indexes` are internal. -/
def isReservedCollection (name : String) : Bool := reservedCollections.contains name

/-! ## JSON paths -/

inductive PathState where
  | segment
  | ident (saw : Bool)
  | index (saw : Bool)

/-- What a segment starts with. -/
def segmentStart (c : Char) : Option PathState :=
  if c = '.' then some (.ident false) else if c = '[' then some (.index false) else none

/-- The loop behind the `$`: each segment is `.<ident>` or `[<index>]`. -/
def validSegments : PathState → List Char → Bool
  | .segment, [] => true
  | .ident saw, [] => saw
  | .index _, [] => false
  | .segment, c :: cs =>
    match segmentStart c with
    | some st => validSegments st cs
    | none => false
  | .ident saw, c :: cs =>
    if c.isAlphanum || c == '_' then validSegments (.ident true) cs
    else
      match segmentStart c with
      | some st => saw && validSegments st cs
      | none => false
  | .index saw, c :: cs =>
    if c.isDigit then validSegments (.index true) cs
    else if c = ']' then saw && validSegments .segment cs
    else false

/-- `$`, or `$` and some segments. -/
def validJsonPath (path : String) : Bool :=
  match path.toList with
  | '$' :: rest => rest.isEmpty || validSegments .segment rest
  | _ => false

example : validJsonPath "$.user[0].email" = true ∧ validJsonPath "$.user[]" = false := by decide

end TinyLord
