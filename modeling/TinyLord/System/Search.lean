import TinyLord.Lib.Sql.Like
import TinyLord.Lib.Sql.Select
import TinyLord.System.Tables

/-!
# Searching the principals

The text that is searched for becomes a pattern of LIKE. Rust lowers its letters, all of Unicode,
while SQLite evens out ASCII letters only and takes two of its characters for wildcards.
-/

open Lib Lib.Sql

namespace TinyLord.Search

/-! ## The search -/

structure PrincipalRecord where
  id : String
  name : String
  /-- Present for browser users. -/
  username : Option String
  isAdmin : Bool
  disabled : Bool
  createdAt : Int

def rowToPrincipal (r : PrincipalRow) : PrincipalRecord where
  id := r.id
  name := r.name
  username := r.username
  isAdmin := r.isAdmin
  disabled := r.disabled
  createdAt := r.createdAt

def byName (a b : PrincipalRow) : Bool := decide (a.name ≤ b.name)

/-- The condition of the statement, for a parameter. -/
def passes (pattern : List Char) (p : PrincipalRow) : Bool :=
  like pattern (lower p.name.toList) || like pattern (lower (p.username.getD "").toList)

/-- `toLowercase` is that of Rust. -/
def findPrincipals (toLowercase : String → String) (sorter : Sorter PrincipalRow) (db : SystemDb)
    (nameFilter : Option String) : List PrincipalRecord :=
  match nameFilter with
  | some q =>
    let like := "%" ++ toLowercase q ++ "%"
    (sorter.sort byName (db.principals.rows.filter (passes like.toList))).map rowToPrincipal
  | none => (sorter.sort byName db.principals.rows).map rowToPrincipal

/-! ## What is searched for -/

/-- Which characters are the same letter. ASCII letters have their two cases, at least, and the
wildcards are no letters. -/
structure CaseFold (caseFold : Char → Char) : Prop where
  ascii : ∀ c d, c.toLower = d.toLower → caseFold c = caseFold d
  wildcard : ∀ c d, isWildcard c = true → caseFold c = caseFold d → c = d

section

variable (caseFold : Char → Char) (q : String)

/-- The text contains `q` as it stands, but for letter case. -/
def Contains (text : String) : Prop :=
  ∃ m, m <:+: text.toList ∧ m.map caseFold = q.toList.map caseFold

def Found (p : PrincipalRow) : Prop :=
  Contains caseFold q p.name ∨ ∃ username ∈ p.username, Contains caseFold q username

open Classical in
/-- Just the principals that contain `q`, each once and by name. -/
def IsSearch (db : SystemDb) (result : List PrincipalRecord) : Prop :=
  (result.map (·.name)).Pairwise (· ≤ ·) ∧
    result.Perm ((db.principals.rows.filter fun p => Found caseFold q p).map rowToPrincipal)

/-- No wildcard, no letter that Rust lowers and SQLite does not, and no letter with another case
than the ASCII one. -/
structure Plain (toLowercase : String → String) : Prop where
  literal : ∀ c ∈ q.toList, isWildcard c = false
  lowered : lower (toLowercase q).toList = lower q.toList
  ascii : ∀ c ∈ q.toList, ∀ d, caseFold d = caseFold c → d.toLower = c.toLower

end

/-! ## What the pattern finds -/

variable {caseFold : Char → Char} {toLowercase : String → String} {q text : String}
  {pattern : List Char} {p : PrincipalRow} {db : SystemDb} {sorter : Sorter PrincipalRow}

/-- Some part of the text matches the pattern. -/
def Selected (pattern : List Char) (text : String) : Prop :=
  ∃ m, m <:+: text.toList ∧ like pattern m = true

theorem passes_iff : passes ('%' :: (pattern ++ ['%'])) p = true ↔
    Selected pattern p.name ∨ ∃ username ∈ p.username, Selected pattern username := by
  rw [passes, Bool.or_eq_true, like_lower, like_lower, like_surround, like_surround]
  cases p.username with
  | some username => simp [Selected]
  | none =>
    -- What matches nothing is a part of every name.
    refine ⟨fun h => Or.inl (h.elim id ?_), fun h => Or.inl (h.resolve_right (by simp))⟩
    rintro ⟨m, hm, hlike⟩
    obtain rfl := List.infix_nil.mp hm
    exact ⟨[], List.nil_infix, hlike⟩

theorem pattern_toList :
    ("%" ++ toLowercase q ++ "%").toList = '%' :: ((toLowercase q).toList ++ ['%']) := by
  rw [String.toList_append, String.toList_append]
  rfl

theorem byName_sorted (rows : List PrincipalRow) :
    ((sorter.sort byName rows).map (·.name)).Pairwise (· ≤ ·) := by
  rw [List.pairwise_map]
  refine (sorter.sorted byName ?_ ?_ rows).imp fun h => of_decide_eq_true h
  · intro a b
    simpa [byName] using le_total a.name b.name
  · intro a b c hab hbc
    simp only [byName, decide_eq_true_eq] at hab hbc ⊢
    exact hab.trans hbc

theorem isSearch_of_passes (h : ∀ p ∈ db.principals.rows,
    passes ('%' :: ((toLowercase q).toList ++ ['%'])) p = true ↔ Found caseFold q p) :
    IsSearch caseFold q db (findPrincipals toLowercase sorter db (some q)) := by
  classical
  have hrows : db.principals.rows.filter (passes ('%' :: ((toLowercase q).toList ++ ['%']))) =
      db.principals.rows.filter fun p => Found caseFold q p := by
    refine List.filter_congr fun p hp => ?_
    rw [Bool.eq_iff_iff, decide_eq_true_eq]
    exact h p hp
  simp only [findPrincipals, pattern_toList, hrows]
  refine ⟨?_, (sorter.perm _ _).map rowToPrincipal⟩
  rw [List.map_map]
  exact byName_sorted _

/-- A control plane with one principal. -/
def only (p : PrincipalRow) : SystemDb where
  databases := .empty
  principals := ⟨[p], List.nodup_singleton _⟩
  grants := .empty
  browserAccessTokens := .empty
  browserSessions := .empty

theorem passes_of_isSearch
    (h : IsSearch caseFold q (only p) (findPrincipals toLowercase sorter (only p) (some q))) :
    passes ('%' :: ((toLowercase q).toList ++ ['%'])) p = true ↔ Found caseFold q p := by
  classical
  have hlength := h.2.length_eq
  simp only [findPrincipals, pattern_toList, List.length_map, (sorter.perm _ _).length_eq, only,
    List.filter_cons, List.filter_nil] at hlength
  by_cases hfound : Found caseFold q p
  · refine iff_of_true ?_ hfound
    by_contra hpass
    simp [hpass, hfound] at hlength
  · refine iff_of_false (fun hpass => ?_) hfound
    simp [hpass, hfound] at hlength

/-! ## When that is the search -/

/-- A token principal of the name. -/
def named (text : String) : PrincipalRow where
  id := "p"
  name := text
  isAdmin := false
  tokenHash := "h"
  disabled := false
  createdAt := 0
  username := none
  passwordHash := none

theorem not_isWildcard_lowercase
    (hwild : ∀ c ∈ (toLowercase q).toList, isWildcard c = true → c ∈ q.toList)
    (hliteral : ∀ c ∈ q.toList, isWildcard c = false) :
    ∀ c ∈ (toLowercase q).toList, isWildcard c = false := by
  intro c hc
  by_contra hw
  rw [Bool.not_eq_false] at hw
  rw [hliteral c (hwild c hc hw)] at hw
  cases hw

theorem plain_of_selected (hfold : CaseFold caseFold)
    (hwild : ∀ c ∈ (toLowercase q).toList, isWildcard c = true → c ∈ q.toList)
    (h : ∀ text, Selected (toLowercase q).toList text ↔ Contains caseFold q text) :
    Plain caseFold q toLowercase := by
  have hliteral : ∀ c ∈ q.toList, isWildcard c = false := by
    intro c hc
    by_contra hw
    rw [Bool.not_eq_false] at hw
    obtain ⟨m, hm, hmap⟩ := (h (String.ofList (fill (toLowercase q).toList))).mp
      ⟨_, List.infix_rfl, by rw [String.toList_ofList]; exact like_fill _⟩
    obtain ⟨d, hd, hdc⟩ := List.mem_map.mp (hmap ▸ List.mem_map_of_mem (f := caseFold) hc)
    obtain rfl := hfold.wildcard c d hw hdc.symm
    rw [String.toList_ofList] at hm
    rw [not_isWildcard_fill (hm.subset hd)] at hw
    cases hw
  have hlowered := not_isWildcard_lowercase hwild hliteral
  -- Each of the two texts is a part of the other, so they have the same length.
  obtain ⟨m, hm, hlike⟩ := (h q).mpr ⟨_, List.infix_rfl, rfl⟩
  have hlower : lower m = lower (toLowercase q).toList := (like_literal hlowered).mp hlike
  obtain ⟨m', hm', hmap⟩ := (h (toLowercase q)).mp
    ⟨_, List.infix_rfl, (like_literal hlowered).mpr rfl⟩
  have hlength : (toLowercase q).toList.length = q.toList.length := by
    have hle := hm.length_le
    have hle' := hm'.length_le
    have heq := congrArg List.length hlower
    have heq' := congrArg List.length hmap
    rw [lower, lower, List.length_map, List.length_map] at heq
    rw [List.length_map, List.length_map] at heq'
    omega
  have hsame : ∀ {m text}, m <:+: text → text.length = q.toList.length →
      lower m = lower (toLowercase q).toList → m = text := by
    intro m text hm htext hlower
    refine hm.eq_of_length ?_
    have heq := congrArg List.length hlower
    rw [lower, lower, List.length_map, List.length_map] at heq
    omega
  obtain rfl := hsame hm rfl hlower
  refine ⟨hliteral, hlower.symm, ?_⟩
  intro c hc d hdc
  obtain ⟨front, back, hq⟩ := List.append_of_mem hc
  have hfound : Contains caseFold q (String.ofList (front ++ d :: back)) :=
    ⟨_, List.infix_rfl, by rw [hq, String.toList_ofList]; simp [hdc]⟩
  obtain ⟨m, hm, hlike⟩ := (h _).mpr hfound
  have hlower' := (like_literal hlowered).mp hlike
  rw [String.toList_ofList] at hm
  rw [hsame hm (by rw [hq]; simp) hlower', ← hlower, hq, lower, lower] at hlower'
  simpa using hlower'

theorem map_eq_map_iff (hfold : CaseFold caseFold) {m q : List Char}
    (hascii : ∀ c ∈ q, ∀ d, caseFold d = caseFold c → d.toLower = c.toLower) :
    lower m = lower q ↔ m.map caseFold = q.map caseFold := by
  induction q generalizing m with
  | nil => simp [lower]
  | cons c q ih =>
    obtain ⟨hc, hq⟩ := List.forall_mem_cons.mp hascii
    cases m with
    | nil => simp [lower]
    | cons d m =>
      have hrest : m.map Char.toLower = q.map Char.toLower ↔ m.map caseFold = q.map caseFold :=
        ih hq
      rw [lower, lower, List.map_cons, List.map_cons, List.map_cons, List.map_cons,
        List.cons.injEq, List.cons.injEq, hrest]
      exact and_congr_left fun _ => ⟨hfold.ascii d c, hc d⟩

theorem selected_of_plain (hfold : CaseFold caseFold)
    (hwild : ∀ c ∈ (toLowercase q).toList, isWildcard c = true → c ∈ q.toList)
    (h : Plain caseFold q toLowercase) (text : String) :
    Selected (toLowercase q).toList text ↔ Contains caseFold q text := by
  have hlowered := not_isWildcard_lowercase hwild h.literal
  refine exists_congr fun m => and_congr_right fun _ => ?_
  rw [like_literal hlowered, h.lowered, map_eq_map_iff hfold h.ascii]

/-- The search for a query finds just the principals whose name or username contains it, for every
set of principals, just when the query is plain. `caseFold` says which characters are the same
letter, and `toLowercase` is that of Rust, of which only the wildcards matter. -/
theorem find_principals_search (toLowercase : String → String) (caseFold : Char → Char)
    (hfold : CaseFold caseFold)
    (hwild : ∀ q : String, ∀ c ∈ (toLowercase q).toList, isWildcard c = true → c ∈ q.toList)
    (q : String) :
    (∀ (sorter : Sorter PrincipalRow) (db : SystemDb),
      IsSearch caseFold q db (findPrincipals toLowercase sorter db (some q))) ↔
        Plain caseFold q toLowercase := by
  constructor
  · intro h
    refine plain_of_selected hfold (hwild q) fun text => ?_
    have hone := passes_of_isSearch (h mergeSorter (only (named text)))
    rw [passes_iff] at hone
    simpa [Found, named] using hone
  · intro h sorter db
    refine isSearch_of_passes fun p _ => ?_
    rw [passes_iff, Found, selected_of_plain hfold (hwild q) h]
    simp only [selected_of_plain hfold (hwild q) h]

/-! ## ASCII -/

theorem eq_of_toLower_wildcard {c d : Char} (hc : isWildcard c = true) (h : d.toLower = c) :
    d = c := by
  have hletter : c.isLower = false := by
    rw [isWildcard, Bool.or_eq_true, beq_iff_eq, beq_iff_eq] at hc
    rcases hc with rfl | rfl <;> rfl
  have halpha : d.isAlpha = false := by
    rw [← Char.isLower_toLower_eq_isAlpha, h, hletter]
  have hupper : ¬d.isUpper := by
    intro hupper
    rw [Char.isAlpha, hupper, Bool.true_or] at halpha
    cases halpha
  rw [← h, Char.toLower_eq_of_not_isUpper hupper]

theorem caseFold_ascii : CaseFold Char.toLower where
  ascii _ _ h := h
  wildcard c d hc h := by
    have hself : c.toLower = c := by
      rw [isWildcard, Bool.or_eq_true, beq_iff_eq, beq_iff_eq] at hc
      rcases hc with rfl | rfl <;> rfl
    rw [hself] at h
    exact (eq_of_toLower_wildcard hc h.symm).symm

def asciiLowercase (s : String) : String := String.ofList (lower s.toList)

theorem find_principals_search_ada : Plain Char.toLower "Ada" asciiLowercase ∧
    ∀ (sorter : Sorter PrincipalRow) (db : SystemDb),
      IsSearch Char.toLower "Ada" db (findPrincipals asciiLowercase sorter db (some "Ada")) := by
  have hall : "Ada".toList.all (fun c => !isWildcard c) = true := rfl
  have hplain : Plain Char.toLower "Ada" asciiLowercase :=
    ⟨by simpa using hall, rfl, fun _ _ _ h => h⟩
  refine ⟨hplain,
    (find_principals_search asciiLowercase Char.toLower caseFold_ascii ?_ "Ada").mpr hplain⟩
  intro q c hc hw
  rw [asciiLowercase, String.toList_ofList] at hc
  obtain ⟨d, hd, hdc⟩ := List.mem_map.mp hc
  rwa [eq_of_toLower_wildcard hw hdc] at hd

/-- The underscore of a username is taken for any character. -/
theorem underscore_finds_other_names :
    ¬IsSearch Char.toLower "a_a" (only (named "ada"))
      (findPrincipals asciiLowercase mergeSorter (only (named "ada")) (some "a_a")) := by
  intro h
  have hpass : passes ('%' :: ((asciiLowercase "a_a").toList ++ ['%'])) (named "ada") = true := rfl
  rcases (passes_of_isSearch h).mp hpass with ⟨m, hm, hmap⟩ | ⟨username, hnone, -⟩
  · have hmem : '_' ∈ m.map Char.toLower := by
      rw [hmap]
      exact List.elem_iff.mp rfl
    obtain ⟨d, hd, hlower⟩ := List.mem_map.mp hmem
    obtain rfl := eq_of_toLower_wildcard rfl hlower
    have hname : '_' ∈ "ada".toList := hm.subset hd
    exact absurd (List.elem_iff.mpr hname) (by decide)
  · cases hnone

end TinyLord.Search
