import Mathlib.Data.Prod.Lex
import TinyLord.Lib.Sql.Offset
import TinyLord.Query.Pages

/-!
# Reading a collection by offsets

Each page is a request of its own, and SQLite may arrange documents that tie on the whole sort list
differently each time.
-/

open Lib Lib.Sql

namespace TinyLord.QueryEp

/-! ## What a sort list asks for -/

def sortExprOf (path : String) : Expr Value :=
  if isMetaColumn path then .column path
  else .call "json_extract" [.column "doc", .text (dotted path)]

def sortTerm (term : String × String) : OrderTerm Value where
  expr := sortExprOf term.1
  descending := toAsciiLowercase term.2 = "desc"

def sortTerms (sort : List (String × String)) : List (OrderTerm Value) :=
  if sort.isEmpty then [⟨.column "id", false⟩] else sort.map sortTerm

/-- The first document may come before the second. Documents that tie may come in both orders. -/
def sortLe (sq : Sqlite) (sort : List (String × String)) (a b : DocRow) : Bool :=
  rowLe sq.engine (sortTerms sort) (sq.sortRow a) (sq.sortRow b)

/-! ## The compiled sort list -/

variable {path dir expr dirSql order : String} {sort : List (String × String)}
  {terms terms' : List String}

theorem directionSql_lexes (h : directionSql dir = .ok dirSql) :
    Lexes (' ' :: dirSql.toList) [directionTok (ν := Value) (toAsciiLowercase dir = "desc")] := by
  unfold directionSql at h
  split at h
  · next hasc =>
    cases h
    rw [hasc]
    exact ⟨_, _, _, rfl, rfl, rfl⟩
  · split at h
    · next hdesc =>
      cases h
      rw [hdesc]
      exact ⟨_, _, _, rfl, rfl, rfl⟩
    · cases h

theorem isMetaColumn_iff :
    isMetaColumn path = true ↔ path = "id" ∨ path = "created_at" ∨ path = "updated_at" := by
  simp [isMetaColumn, or_assoc]

theorem sortExpr_lexes (h : sortExpr path = .ok expr) :
    ∃ toks, Lexes expr.toList toks ∧ Parses .disjunction toks (sortExprOf path) := by
  unfold sortExpr at h
  unfold sortExprOf
  split at h
  · next hmeta =>
    cases h
    rw [if_pos hmeta]
    refine ⟨[.name path], ?_, (parses_column path).order.equality.conjunction.disjunction⟩
    rcases isMetaColumn_iff.mp hmeta with rfl | rfl | rfl <;> exact ⟨_, _, _, rfl, rfl, rfl⟩
  · next hmeta =>
    rw [if_neg hmeta]
    split at h
    · cases h
    · next jsonPath hpath =>
      cases h
      obtain ⟨rfl, hquote⟩ := fieldToJsonPath_ok hpath
      let c := extractClause (dotted path) hquote
      exact ⟨c.toks, c.spells.lexes, c.parses.order.equality.conjunction.disjunction⟩

theorem compileTerms_ok (h : compileTerms sort terms = .ok terms') :
    ∃ ds : List (OrderClause Value), terms' = terms ++ ds.map (·.text) ∧
      ds.map (·.term) = sort.map sortTerm := by
  induction sort generalizing terms with
  | nil =>
    cases h
    exact ⟨[], (List.append_nil _).symm, rfl⟩
  | cons term sort ih =>
    obtain ⟨path, dir⟩ := term
    simp only [compileTerms] at h
    split at h
    · cases h
    · next dirSql hdir =>
      split at h
      · cases h
      · next expr hexpr =>
        obtain ⟨toks, hlex, hparse⟩ := sortExpr_lexes hexpr
        obtain ⟨ds, rfl, hds⟩ := ih h
        let d : OrderClause Value :=
          { text := expr ++ " " ++ dirSql
            term := sortTerm (path, dir)
            toks
            lexes := by
              have := hlex.append (directionSql_lexes hdir) rfl
              simpa [sortTerm] using this
            parses := hparse }
        exact ⟨d :: ds, by simp [d], by rw [List.map_cons, List.map_cons, hds]⟩

theorem compileSort_orderBy (h : compileSort sort = .ok order) :
    orderBy order = some (sortTerms sort) := by
  unfold compileSort at h
  unfold sortTerms
  split at h
  · next hempty =>
    cases h
    rw [if_pos hempty]
    exact orderBy_id
  · next hempty =>
    rw [if_neg hempty]
    split at h
    · cases h
    · next terms hterms =>
      cases h
      obtain ⟨ds, rfl, hds⟩ := compileTerms_ok hterms
      rw [← hds]
      cases ds with
      | nil =>
        rw [List.map_nil, eq_comm, List.map_eq_nil_iff] at hds
        exact absurd (List.isEmpty_iff.mpr hds) hempty
      | cons d ds => exact orderBy_intercalate d ds

/-! ## The order of values -/

/-- NULL, then the numbers, then the texts. -/
def valueRank : Value → ℕ ×ₗ ℤ ×ₗ String
  | .null => toLex (0, toLex (0, ""))
  | .integer i => toLex (1, toLex (intScaled i, ""))
  | .real bits => toLex (1, toLex (floatScaled bits, ""))
  | .text s => toLex (2, toLex (0, s))

theorem compare_intScaled (i j : ℤ) : compare (intScaled i) (intScaled j) = compare i j := by
  have hpos : (0 : ℤ) < 2 ^ 1074 := Int.pow_pos (by decide)
  unfold intScaled
  generalize (2 : ℤ) ^ 1074 = unit at hpos
  rcases lt_trichotomy i j with h | rfl | h
  · rw [compare_lt_iff_lt.mpr h, compare_lt_iff_lt.mpr (Int.mul_lt_mul_of_pos_right h hpos)]
  · rw [compare_eq_iff_eq.mpr rfl, compare_eq_iff_eq.mpr rfl]
  · rw [compare_gt_iff_gt.mpr h, compare_gt_iff_gt.mpr (Int.mul_lt_mul_of_pos_right h hpos)]

theorem compare_toLex (m n : ℕ) (i j : ℤ) (s t : String) :
    compare (toLex (m, toLex (i, s)) : ℕ ×ₗ ℤ ×ₗ String) (toLex (n, toLex (j, t))) =
      (compare m n).then ((compare i j).then (compare s t)) := by
  rfl

theorem order_eq_compare (sq : Sqlite) (x y : Value) :
    sq.engine.order x y = compare (valueRank x) (valueRank y) := by
  have hsame : ∀ o : Ordering, o.then .eq = o := fun o => by cases o <;> rfl
  have hself : ∀ {α : Type} [LinearOrder α] (a : α), compare a a = .eq := fun a =>
    compare_eq_iff_eq.mpr rfl
  have hnumbers : ∀ i j : ℤ, compare (toLex (1, toLex (i, "")) : ℕ ×ₗ ℤ ×ₗ String)
      (toLex (1, toLex (j, ""))) = compare i j := by
    intro i j
    rw [compare_toLex, hself, hself, hsame]
    rfl
  have htexts : ∀ s t : String, compare (toLex (2, toLex (0, s)) : ℕ ×ₗ ℤ ×ₗ String)
      (toLex (2, toLex (0, t))) = compare s t := by
    intro s t
    rw [compare_toLex, hself, hself]
    rfl
  -- Values of two classes differ in the first component.
  cases x <;> cases y <;> simp only [valueRank]
  case integer.integer i j => exact ((hnumbers _ _).trans (compare_intScaled i j)).symm
  case integer.real => exact (hnumbers _ _).symm
  case real.integer => exact (hnumbers _ _).symm
  case real.real => exact (hnumbers _ _).symm
  case text.text => exact (htexts _ _).symm
  case null.null => exact (hself _).symm
  all_goals rfl

theorem sortLe_totalPreorder (sq : Sqlite) (sort : List (String × String)) :
    TotalPreorder (sortLe sq sort) :=
  rowLe_totalPreorder (order_eq_compare sq) (sortTerms sort) sq.sortRow

/-! ## Pages -/

open Classical in
/-- The documents that match, as rows. -/
noncomputable def matchingRows (sq : Sqlite) (filter : Option Json) (db : Database)
    (coll : String) : List DocRow :=
  (visible db coll).filter fun r => Matches (fun field => sq.extract r.doc (dotted field)) filter

def pageSize (max : UInt32) (req : QueryRequest) : ℕ := (pageLimit max req.limit).toNat

/-- The request for page `k`. -/
def pageRequest (max : UInt32) (req : QueryRequest) (k : ℕ) : QueryRequest :=
  { req with offset := some (k * pageSize max req).toUInt32, cursor := none }

/-- How many pages an offset of 32 bits reaches. -/
def reachablePages (limit : ℕ) : ℕ := (2 ^ 32 - 1) / limit + 1

/-- The pages together have every matching document once, and nothing else. `sorters k` is how
SQLite arranges the rows for page `k`. -/
def OffsetPartition (sq : Sqlite) (sorters : ℕ → Sorter DocRow) (max : UInt32) (db : Database)
    (coll : String) (req : QueryRequest) : Prop :=
  ∃ pages : ℕ → QueryPage,
    (∀ k < reachablePages (pageSize max req),
      query sq (sorters k) max db coll (pageRequest max req k) = .ok (pages k)) ∧
    let read := (List.range (reachablePages (pageSize max req))).flatMap fun k =>
      ids (pages k).items
    (∀ id ∈ matching sq req.filter db coll, read.count id = 1) ∧
      ∀ id ∈ read, id ∈ matching sq req.filter db coll

variable {sq : Sqlite} {sorter : Sorter DocRow} {sorters : ℕ → Sorter DocRow} {max : UInt32}
  {db : Database} {coll : String} {req : QueryRequest}

theorem offset_toNat {k : ℕ} (hk : k < reachablePages (pageSize max req)) :
    (k * pageSize max req).toUInt32.toNat = k * pageSize max req := by
  have hle : k * pageSize max req ≤ 2 ^ 32 - 1 :=
    (Nat.mul_le_mul_right _ (Nat.le_of_lt_succ hk)).trans (Nat.div_mul_le_self ..)
  rw [Nat.toUInt32_eq, UInt32.toNat_ofNat', Nat.mod_eq_of_lt]
  omega

theorem query_offset (sq : Sqlite) (sorter : Sorter DocRow) (db : Database)
    (hname : validName coll = true) (hfilter : ∃ w, compileFilter req.filter = .ok w)
    (hsort : ∃ order, compileSort req.sort = .ok order) {k : ℕ}
    (hk : k < reachablePages (pageSize max req)) :
    ∃ page, query sq sorter max db coll (pageRequest max req k) = .ok page ∧
      page.items = (offsetPage sorter (sortLe sq req.sort) (pageSize max req) k
        (matchingRows sq req.filter db coll)).map (sq.envelope req.projection) := by
  obtain ⟨w, hw⟩ := hfilter
  obtain ⟨order, hsort⟩ := hsort
  obtain ⟨-, e, he, hholds⟩ := compileFilter_reads hw
  have hvalid := requireValidName_ok "collection" hname
  have horder := compileSort_orderBy hsort
  have hrows : matchingRows sq req.filter db coll =
      (visible db coll).filter fun r => e.Holds sq.engine (sq.condRow r) := by
    refine List.filter_congr fun r _ => decide_eq_decide.mpr ?_
    exact (hholds sq.textTruth (fun _ path => sq.extract r.doc path) r.id (sq.stored r.doc)).symm
  cases hthere : collectionExists db coll with
  | false =>
    have hnone : matchingRows sq req.filter db coll = [] := by
      rw [hrows, visible, hthere]
      rfl
    refine ⟨{ items := [], nextCursor := none }, ?_, ?_⟩
    · simp only [query, pageRequest, hvalid, hw, hsort, hthere, bind, Except.bind]
      rfl
    · rw [hnone, offsetPage, (sorter.perm _ _).eq_nil]
      simp
  | true =>
    have hsel : selectRows sq sorter (db.rows coll) w.sql w.params order
        (pageLimit max req.limit).toNat (k * pageSize max req).toUInt32.toNat =
          .ok (offsetPage sorter (sortLe sq req.sort) (pageSize max req) k
            (matchingRows sq req.filter db coll)) := by
      rw [offset_toNat hk]
      simp only [selectRows, he, horder, hrows, visible, hthere, if_true]
      rfl
    -- Without a cursor both arms of the match read the same statement.
    cases hcompatible : isCursorCompatible req.sort <;>
      simp only [query, pageRequest, hvalid, hw, hsort, hthere, hcompatible, bind, Except.bind,
        Option.getD_some, hsel] <;>
      exact ⟨_, rfl, rfl⟩

/-! ## The pages together -/

theorem mem_matching_iff {id : String} : id ∈ matching sq req.filter db coll ↔
    id ∈ (matchingRows sq req.filter db coll).map (·.id) := by
  simp only [matching, matchingRows, Set.mem_ofPred_eq, List.mem_map, List.mem_filter,
    decide_eq_true_eq]
  constructor
  · rintro ⟨r, hr, rfl, hmatches⟩
    exact ⟨r, ⟨hr, hmatches⟩, rfl⟩
  · rintro ⟨r, ⟨hr, hmatches⟩, rfl⟩
    exact ⟨r, hr, rfl, hmatches⟩

theorem nodup_matchingRows (filter : Option Json)
    (hnodup : ((visible db coll).map (·.id)).Nodup) : (matchingRows sq filter db coll).Nodup :=
  List.Nodup.of_map _ (hnodup.sublist (List.filter_sublist.map _))

theorem offsetPartition_iff (hname : validName coll = true)
    (hfilter : ∃ w, compileFilter req.filter = .ok w)
    (hsort : ∃ order, compileSort req.sort = .ok order)
    (hnodup : ((visible db coll).map (·.id)).Nodup) :
    OffsetPartition sq sorters max db coll req ↔
      (offsetPages sorters (sortLe sq req.sort) (pageSize max req)
        (reachablePages (pageSize max req)) (matchingRows sq req.filter db coll)).Perm
          (matchingRows sq req.filter db coll) := by
  let rows := matchingRows sq req.filter db coll
  let n := reachablePages (pageSize max req)
  let page := fun k => offsetPage (sorters k) (sortLe sq req.sort) (pageSize max req) k rows
  have hids : (rows.map (·.id)).Nodup := hnodup.sublist (List.filter_sublist.map _)
  have hpages : ∀ k < n, ∃ p, query sq (sorters k) max db coll (pageRequest max req k) = .ok p ∧
      p.items = (page k).map (sq.envelope req.projection) := fun k hk =>
    query_offset sq (sorters k) db hname hfilter hsort hk
  have hread : ∀ pages : ℕ → QueryPage, (∀ k < n,
      query sq (sorters k) max db coll (pageRequest max req k) = .ok (pages k)) →
      ((List.range n).flatMap fun k => ids (pages k).items) =
        ((List.range n).flatMap page).map (·.id) := by
    intro pages hquery
    rw [List.map_flatMap]
    refine List.flatMap_congr fun k hk => ?_
    obtain ⟨p, hp, hitems⟩ := hpages k (List.mem_range.mp hk)
    rw [hquery k (List.mem_range.mp hk), Except.ok.injEq] at hp
    rw [hp, hitems, ids_envelope]
  have hsub : ∀ r ∈ (List.range n).flatMap page, r ∈ rows := by
    intro r hr
    obtain ⟨k, -, hk⟩ := List.mem_flatMap.mp hr
    exact offsetPage_subset hk
  refine Iff.trans ?_ (perm_iff_count hids hsub).symm
  constructor
  · rintro ⟨pages, hquery, honce, -⟩ id hid
    rw [← hread pages hquery]
    exact honce id (mem_matching_iff.mpr hid)
  · intro h
    have : Nonempty QueryPage := ⟨{ items := [], nextCursor := none }⟩
    choose! pages hquery hitems using hpages
    refine ⟨pages, hquery, ?_, ?_⟩
    · intro id hid
      rw [hread pages hquery]
      exact h id (mem_matching_iff.mp hid)
    · intro id hid
      rw [hread pages hquery] at hid
      obtain ⟨r, hr, rfl⟩ := List.mem_map.mp hid
      exact mem_matching_iff.mpr (List.mem_map_of_mem (hsub r hr))

/-- With no writes between the requests, the pages at the offsets `0, L, 2L, …` have each matching
document exactly once, however SQLite arranges documents that tie in each of its statements, just
when all documents that tie stand on one page, and the last offset can be asked for. The limits of
SQLite on parameters, on the depth of an expression and on the terms of ORDER BY are not modelled. -/
theorem offset_pagination (sq : Sqlite) (max : UInt32) (db : Database) (coll : String)
    (req : QueryRequest) (hname : validName coll = true)
    (hfilter : ∃ w, compileFilter req.filter = .ok w)
    (hsort : ∃ order, compileSort req.sort = .ok order)
    (hnodup : ((visible db coll).map (·.id)).Nodup) :
    (∀ sorters, OffsetPartition sq sorters max db coll req) ↔
      Unbroken (sortLe sq req.sort) (pageSize max req) (matchingRows sq req.filter db coll) ∧
      (matchingRows sq req.filter db coll).length ≤
        reachablePages (pageSize max req) * pageSize max req := by
  simp only [offsetPartition_iff hname hfilter hsort hnodup]
  exact offsetPages_perm_iff (sortLe_totalPreorder sq req.sort) (pageLimit_pos max req.limit)
    (nodup_matchingRows req.filter hnodup)

theorem matchingRows_twoNotes : matchingRows plainSqlite none twoNotes "notes" =
    [⟨"a", .null, 1, 1⟩, ⟨"b", .null, 2, 2⟩] := by
  classical
  exact List.filter_eq_self.mpr fun _ _ => decide_eq_true trivial

theorem offset_pagination_notes :
    Unbroken (sortLe plainSqlite oneByOne.sort) (pageSize 500 oneByOne)
      (matchingRows plainSqlite oneByOne.filter twoNotes "notes") ∧
    ∀ sorters, OffsetPartition plainSqlite sorters 500 twoNotes "notes" oneByOne := by
  have hsort : compileSort oneByOne.sort = .ok "ORDER BY id ASC" := compileSort_compatible rfl
  have hrows : matchingRows plainSqlite oneByOne.filter twoNotes "notes" =
      [⟨"a", .null, 1, 1⟩, ⟨"b", .null, 2, 2⟩] := matchingRows_twoNotes
  have hunbroken : Unbroken (sortLe plainSqlite oneByOne.sort) (pageSize 500 oneByOne)
      (matchingRows plainSqlite oneByOne.filter twoNotes "notes") := by
    rw [hrows]
    intro r hr
    rcases List.mem_pair.mp hr with rfl | rfl <;> rfl
  refine ⟨hunbroken, (offset_pagination plainSqlite 500 twoNotes "notes" oneByOne rfl ⟨_, rfl⟩
    ⟨_, hsort⟩ (by decide)).mpr ⟨hunbroken, ?_⟩⟩
  rw [hrows]
  decide

/-- Sorted by a field that no document has. -/
def byMissing : QueryRequest :=
  { filter := none, sort := [("x", "asc")], limit := some 1, offset := none, cursor := none,
    projection := none }

theorem offset_pages_overlap :
    validName "notes" = true ∧ (∃ w, compileFilter byMissing.filter = .ok w) ∧
    (∃ order, compileSort byMissing.sort = .ok order) ∧
    ((visible twoNotes "notes").map (·.id)).Nodup ∧
    ∃ sorters, ¬OffsetPartition plainSqlite sorters 500 twoNotes "notes" byMissing := by
  have hfilter : ∃ w, compileFilter byMissing.filter = .ok w := ⟨_, rfl⟩
  have hsort : ∃ order, compileSort byMissing.sort = .ok order := ⟨_, rfl⟩
  have hnodup : ((visible twoNotes "notes").map (·.id)).Nodup := by decide
  refine ⟨rfl, hfilter, hsort, hnodup, ?_⟩
  by_contra hall
  rw [not_exists_not] at hall
  have hunbroken := unbroken_of_offsetPages_perm (sortLe_totalPreorder plainSqlite byMissing.sort)
    (pageLimit_pos 500 byMissing.limit) (nodup_matchingRows byMissing.filter hnodup)
    fun sorters => (offsetPartition_iff rfl hfilter hsort hnodup).mp (hall sorters)
  rw [show byMissing.filter = none from rfl, matchingRows_twoNotes] at hunbroken
  have htie := hunbroken _ List.mem_cons_self
  exact absurd htie (by decide)

end TinyLord.QueryEp
