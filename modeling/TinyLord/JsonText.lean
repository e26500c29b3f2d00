import TinyLord.Json

/-!
# Compact JSON

The text `serde_json` writes: no blanks, and no raw control characters in a string.
-/

namespace TinyLord

abbrev Chars := List Char

def OneLine (t : Chars) : Prop := ∀ c ∈ t, c ≠ '\n' ∧ c ≠ '\r'

theorem OneLine.nil : OneLine [] := nofun

theorem OneLine.append {t u : Chars} (ht : OneLine t) (hu : OneLine u) : OneLine (t ++ u) := by
  intro c hc
  rcases List.mem_append.mp hc with h | h
  · exact ht c h
  · exact hu c h

theorem OneLine.cons {c : Char} {t : Chars} (hc : c ≠ '\n' ∧ c ≠ '\r') (ht : OneLine t) :
    OneLine (c :: t) := by
  intro d hd
  rcases List.mem_cons.mp hd with rfl | h
  · exact hc
  · exact ht d h

instance (t : Chars) : Decidable (OneLine t) :=
  List.decidableBAll (fun c => c ≠ '\n' ∧ c ≠ '\r') t

/-! ## The printer -/

/-- How `serde_json` writes a finite `f64`. -/
structure Printer where
  float : BitVec 64 → Chars
  float_oneLine : ∀ bits, OneLine (float bits)

def hexDigit (n : Nat) : Char := Nat.digitChar (n % 16)

def escape (c : Char) : Chars :=
  if c = '"' then ['\\', '"']
  else if c = '\\' then ['\\', '\\']
  else if c = '\n' then ['\\', 'n']
  else if c = '\r' then ['\\', 'r']
  else if c = '\t' then ['\\', 't']
  else if c.toNat = 8 then ['\\', 'b']
  else if c.toNat = 12 then ['\\', 'f']
  else if c.toNat < 32 then ['\\', 'u', '0', '0', hexDigit (c.toNat / 16), hexDigit c.toNat]
  else [c]

def quote (s : String) : Chars := '"' :: (s.toList.flatMap escape ++ ['"'])

def decimal (n : Int) : Chars := (toString n).toList

def Number.compact (p : Printer) : Number → Chars
  | .posInt n => decimal n
  | .negInt n => decimal n
  | .float bits => p.float bits

mutual

def Json.compact (p : Printer) : Json → Chars
  | .null => "null".toList
  | .bool b => (if b then "true" else "false").toList
  | .number n => n.compact p
  | .string s => quote s
  | .array items => '[' :: (compactItems p items ++ [']'])
  | .object fields => '{' :: (compactFields p fields ++ ['}'])

def compactItems (p : Printer) : List Json → Chars
  | [] => []
  | [v] => v.compact p
  | v :: w :: vs => v.compact p ++ ',' :: compactItems p (w :: vs)

def compactFields (p : Printer) : List (String × Json) → Chars
  | [] => []
  | [(k, v)] => quote k ++ ':' :: v.compact p
  | (k, v) :: x :: fields => quote k ++ ':' :: (v.compact p ++ ',' :: compactFields p (x :: fields))

end

/-! ## One line -/

variable {t u : Chars} {c : Char} {p : Printer}

theorem hexDigit_oneLine (n : Nat) : hexDigit n ≠ '\n' ∧ hexDigit n ≠ '\r' := by
  have h : ∀ k < 16, Nat.digitChar k ≠ '\n' ∧ Nat.digitChar k ≠ '\r' := by decide
  exact h (n % 16) (Nat.mod_lt n (by decide))

theorem escape_oneLine : OneLine (escape c) := by
  unfold escape
  split_ifs with h1 h2 h3 h4
  iterate 7 · decide
  · iterate 4 apply OneLine.cons (by decide)
    exact OneLine.cons (hexDigit_oneLine _) (OneLine.cons (hexDigit_oneLine _) (by decide))
  · exact OneLine.cons ⟨h3, h4⟩ (by decide)

theorem quote_oneLine (s : String) : OneLine (quote s) := by
  apply OneLine.cons (by decide)
  apply OneLine.append _ (by decide)
  intro d hd
  obtain ⟨c, -, hc⟩ := List.mem_flatMap.mp hd
  exact escape_oneLine d hc

theorem decimal_char {n : Int} (h : c ∈ decimal n) : c.isDigit = true ∨ c = '-' := by
  cases n with
  | ofNat m =>
    have h' : c ∈ m.repr.toList := h
    rw [Nat.toList_repr] at h'
    exact .inl (Nat.isDigit_of_mem_toDigits (by decide) (by decide) h')
  | negSucc m =>
    have h' : c ∈ ("-" ++ (m + 1).repr).toList := h
    rw [String.toList_append, List.mem_append, Nat.toList_repr] at h'
    rcases h' with hsign | hdigit
    · exact .inr (by simpa using hsign)
    · exact .inl (Nat.isDigit_of_mem_toDigits (by decide) (by decide) hdigit)

theorem decimal_oneLine (n : Int) : OneLine (decimal n) := by
  intro c hc
  rcases decimal_char hc with h | rfl
  · constructor
    · rintro rfl
      exact absurd h (by decide)
    · rintro rfl
      exact absurd h (by decide)
  · decide

theorem Number.compact_oneLine (n : Number) : OneLine (n.compact p) := by
  cases n with
  | posInt n => exact decimal_oneLine n
  | negInt n => exact decimal_oneLine n
  | float bits => exact p.float_oneLine bits

mutual

/-- Compact JSON is one line. -/
theorem Json.compact_oneLine : ∀ v : Json, OneLine (v.compact p)
  | .null => (by decide : OneLine "null".toList)
  | .bool true => (by decide : OneLine "true".toList)
  | .bool false => (by decide : OneLine "false".toList)
  | .number n => n.compact_oneLine
  | .string s => quote_oneLine s
  | .array items => ((compactItems_oneLine items).append (by decide)).cons (by decide)
  | .object fields => ((compactFields_oneLine fields).append (by decide)).cons (by decide)

theorem compactItems_oneLine : ∀ vs : List Json, OneLine (compactItems p vs)
  | [] => (by decide : OneLine [])
  | [v] => v.compact_oneLine
  | v :: w :: vs => v.compact_oneLine.append ((compactItems_oneLine (w :: vs)).cons (by decide))

theorem compactFields_oneLine : ∀ fields : List (String × Json), OneLine (compactFields p fields)
  | [] => (by decide : OneLine [])
  | [(k, v)] => (quote_oneLine k).append (v.compact_oneLine.cons (by decide))
  | (k, v) :: x :: fields =>
    (quote_oneLine k).append
      ((v.compact_oneLine.append ((compactFields_oneLine (x :: fields)).cons (by decide))).cons
        (by decide))

end

end TinyLord
