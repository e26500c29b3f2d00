import TinyLord.Errors
import TinyLord.Query.Values

/-!
# The filter compiler

A JSON filter becomes the text of a condition and the values of its placeholders. Each function
takes the values so far and hands them on with its own behind them.
-/

namespace TinyLord

structure WhereClause where
  sql : String
  params : List Value

def startsWithDollar (key : String) : Bool := key.toList.head? == some '$'

/-- `[A-Za-z0-9_]` -/
def isFieldChar (c : Char) : Bool := c.isAlphanum || c == '_'

/-- `field.split('.')` -/
def segments (field : String) : List String := (field.toList.splitOn '.').map String.ofList

def segmentOk (seg : String) : Bool := !seg.isEmpty && seg.toList.all isFieldChar

/-- The loop over the segments. -/
def appendSegments (field : String) : List String → String → Except ApiError String
  | [], out => .ok out
  | seg :: segs, out =>
    if seg.isEmpty then .error (.validation ("invalid field path: " ++ field))
    else if !seg.toList.all isFieldChar then
      .error (.validation ("invalid field path: " ++ field))
    else appendSegments field segs (out ++ "." ++ seg)

def fieldToJsonPath (field : String) : Except ApiError String :=
  if field.isEmpty then .error (.validation "empty field name in filter")
  else appendSegments field (segments field) "$"

def u64ToValue (n : Nat) : Value := if n < 2 ^ 63 then .integer n else .real (floatOfNat n)

def scalarToValue : Json → Except ApiError Value
  | .null => .ok .null
  | .bool b => .ok (.integer b.toNat)
  | .number (.posInt n) => .ok (u64ToValue n)
  | .number (.negInt i) => .ok (.integer i)
  | .number (.float bits) => .ok (.real bits)
  | .string s => .ok (.text s)
  | .array _ | .object _ =>
    .error (.validation "cannot compare against a JSON array or object")

/-! ## One field -/

def compileEq (extract : String) (scalar : Json) (params : List Value) :
    Except ApiError (String × List Value) :=
  match scalar with
  | .null => .ok (extract ++ " IS NULL", params)
  | _ =>
    match scalarToValue scalar with
    | .error e => .error e
    | .ok v => .ok (extract ++ " = ?", params ++ [v])

def compileNe (extract : String) (arg : Json) (params : List Value) :
    Except ApiError (String × List Value) :=
  match arg with
  | .null => .ok (extract ++ " IS NOT NULL", params)
  | _ =>
    match scalarToValue arg with
    | .error e => .error e
    | .ok v => .ok (extract ++ " IS NOT ?", params ++ [v])

def compileOrder (extract sqlOp : String) (arg : Json) (params : List Value) :
    Except ApiError (String × List Value) :=
  match scalarToValue arg with
  | .error e => .error e
  | .ok v => .ok (extract ++ " " ++ sqlOp ++ " ?", params ++ [v])

/-- The loop over the items of `$in`. -/
def pushItems : List Json → List Value → Except ApiError (List Value)
  | [], params => .ok params
  | v :: vs, params =>
    match scalarToValue v with
    | .error e => .error e
    | .ok value => pushItems vs (params ++ [value])

def compileIn (extract : String) (arg : Json) (params : List Value) :
    Except ApiError (String × List Value) :=
  match arg with
  | .array [] => .ok ("0", params)
  | .array items =>
    match pushItems items params with
    | .error e => .error e
    | .ok params =>
      .ok (extract ++ " IN (" ++ String.intercalate ", " (items.map fun _ => "?") ++ ")", params)
  | _ => .error (.validation "$in requires an array")

def compileOperator (extract op : String) (arg : Json) (params : List Value) :
    Except ApiError (String × List Value) :=
  match op with
  | "$eq" => compileEq extract arg params
  | "$ne" => compileNe extract arg params
  | "$gt" => compileOrder extract ">" arg params
  | "$gte" => compileOrder extract ">=" arg params
  | "$lt" => compileOrder extract "<" arg params
  | "$lte" => compileOrder extract "<=" arg params
  | "$in" => compileIn extract arg params
  | other => .error (.validation ("unsupported operator " ++ other))

/-- The loop over an operator map. -/
def compileOperators (field extract : String) :
    List (String × Json) → List String → List Value →
      Except ApiError (List String × List Value)
  | [], parts, params => .ok (parts, params)
  | (op, arg) :: ops, parts, params =>
    if !startsWithDollar op then
      .error (.validation
        ("operator map for " ++ field ++ " may only contain operators; got " ++ op))
    else
      match compileOperator extract op arg params with
      | .error e => .error e
      | .ok (part, params) => compileOperators field extract ops (parts ++ [part]) params

def compileField (field : String) (spec : Json) (params : List Value) :
    Except ApiError (String × List Value) :=
  match fieldToJsonPath field with
  | .error e => .error e
  | .ok path =>
    let extract := "json_extract(doc, '" ++ path ++ "')"
    match spec with
    | .object map =>
      match compileOperators field extract map [] params with
      | .error e => .error e
      | .ok (parts, params) =>
        if parts.isEmpty then .ok ("1", params)
        else .ok ("(" ++ String.intercalate " AND " parts ++ ")", params)
    | .array _ =>
      .error (.validation ("array equality is not supported for " ++ field ++ "; use $in"))
    | scalar => compileEq extract scalar params

/-! ## The whole filter -/

/-- The loop over the fields of one `$or` entry. -/
def compileEntry : List (String × Json) → List String → List Value →
    Except ApiError (List String × List Value)
  | [], parts, params => .ok (parts, params)
  | (k, v) :: fields, parts, params =>
    if k == "$or" || k == "$and" then
      .error (.validation "nested boolean operators are not allowed")
    else if startsWithDollar k then
      .error (.validation ("unexpected operator " ++ k ++ " inside $or entry"))
    else
      match compileField k v params with
      | .error e => .error e
      | .ok (part, params) => compileEntry fields (parts ++ [part]) params

/-- The loop over the entries of `$or`. -/
def compileEntries : List Json → List String → List Value →
    Except ApiError (List String × List Value)
  | [], subs, params => .ok (subs, params)
  | .object fields :: entries, subs, params =>
    match compileEntry fields [] params with
    | .error e => .error e
    | .ok (parts, params) =>
      let joined := if parts.isEmpty then "1" else String.intercalate " AND " parts
      compileEntries entries (subs ++ ["(" ++ joined ++ ")"]) params
  | _ :: _, _, _ => .error (.validation "$or entries must be objects")

def compileOr (val : Json) (params : List Value) : Except ApiError (String × List Value) :=
  match val with
  | .array entries =>
    match compileEntries entries [] params with
    | .error e => .error e
    | .ok (subs, params) =>
      if subs.isEmpty then .ok ("0", params) else .ok ("(" ++ String.intercalate " OR " subs ++ ")", params)
  | _ => .error (.validation "$or must be an array of sub-filters")

/-- The loop over the top-level keys. -/
def compileKeys : List (String × Json) → List String → List Value →
    Except ApiError (List String × List Value)
  | [], parts, params => .ok (parts, params)
  | (key, val) :: fields, parts, params =>
    let compiled :=
      if key = "$or" then compileOr val params
      else if key = "$and" then
        .error (.validation
          "$and is not supported; multiple top-level keys are already ANDed")
      else if startsWithDollar key then
        .error (.validation ("unsupported top-level operator " ++ key))
      else compileField key val params
    match compiled with
    | .error e => .error e
    | .ok (part, params) => compileKeys fields (parts ++ [part]) params

def compileFilter (filter : Option Json) : Except ApiError WhereClause :=
  match filter with
  | none | some .null => .ok { sql := "1", params := [] }
  | some (.object fields) =>
    match compileKeys fields [] [] with
    | .error e => .error e
    | .ok (parts, params) =>
      .ok { sql := if parts.isEmpty then "1" else String.intercalate " AND " parts, params }
  | some _ => .error (.validation "filter must be a JSON object")

end TinyLord
