import Mathlib.Data.String.Basic
import TinyLord.Db.Unique
import TinyLord.Lib.Paging
import TinyLord.Query.Endpoint
import TinyLord.Query.Meaning

/-!
# Reading a collection page by page

A client that starts without a cursor and follows `next_cursor` reads the ids of the matching
documents in increasing order, whatever is written between two of its requests.
-/

open Lib Lib.Sql Lib.Paging

namespace TinyLord.QueryEp

/-! ## The statement -/

/-- The ids of the documents of the collection that match. -/
def matching (sq : Sqlite) (filter : Option Json) (db : Database) (coll : String) : Set String :=
  {id | ∃ r ∈ visible db coll, r.id = id ∧
    Matches (fun field => sq.extract r.doc (dotted field)) filter}

/-- The answer to request `n` of a client, read from `dbs n`. Nothing when it is refused. -/
def ask (sq : Sqlite) (sorters : ℕ → Sorter DocRow) (max : UInt32) (dbs : ℕ → Database)
    (coll : String) (req : QueryRequest) (n : ℕ) (cursor : Option String) :
    Option (List DocEnvelope × Option String) :=
  (query sq (sorters n) max (dbs n) coll { req with cursor }).toOption.map fun page =>
    (page.items, page.nextCursor)

/-- The pages of a client that asks without a cursor first, and then with each `next_cursor` it is
given, until it is given none. -/
def walk (sq : Sqlite) (sorters : ℕ → Sorter DocRow) (max : UInt32) (dbs : ℕ → Database)
    (coll : String) (req : QueryRequest) (fuel : ℕ) : Option (List (List DocEnvelope)) :=
  Paging.follow (ask sq sorters max dbs coll req) fuel 0 none

def ids (items : List DocEnvelope) : List String := items.map (·.id)

variable {sq : Sqlite} {sorter : Sorter DocRow} {max : UInt32} {db : Database} {coll : String}
  {req : QueryRequest} {rows : List DocRow} {sql : String} {params : List Value} {w : WhereClause}
  {P : String → (String → Value) → Prop}

/-! ## The order by `id` -/

theorem toAsciiLowercase_asc : toAsciiLowercase "asc" = "asc" := by decide

theorem isCursorCompatible_iff {sort : List (String × String)} : isCursorCompatible sort = true ↔
    sort = [] ∨ ∃ dir, sort = [("id", dir)] ∧ toAsciiLowercase dir = "asc" := by
  unfold isCursorCompatible
  split
  · simp
  · simp [toAsciiLowercase_asc]
  · next hnil hone =>
    refine iff_of_false (by simp) ?_
    rintro (rfl | ⟨dir, rfl, -⟩)
    · exact hnil rfl
    · exact hone _ _ rfl

theorem compileSort_compatible {sort : List (String × String)}
    (h : isCursorCompatible sort = true) : compileSort sort = .ok "ORDER BY id ASC" := by
  rcases isCursorCompatible_iff.mp h with rfl | ⟨dir, rfl, hdir⟩
  · rfl
  · simp only [compileSort, compileTerms, directionSql, hdir, if_true]
    rfl

theorem orderBy_id :
    orderBy (ν := Value) "ORDER BY id ASC" = some [⟨.column "id", false⟩] := by
  have hlex : lex (ν := Value) "ORDER BY id ASC" = some [.kwOrder, .kwBy, .name "id", .asc] :=
    Lexes.lex ⟨_, _, _, rfl, rfl, rfl⟩
  rw [orderBy, hlex]
  rfl

theorem rowLe_id (a b : DocRow) :
    rowLe sq.engine [⟨.column "id", false⟩] (sq.sortRow a) (sq.sortRow b) = true ↔
      a.id ≤ b.id := by
  have horder : sq.engine.order (.text a.id) (.text b.id) = compare a.id b.id := rfl
  have hcolumn : ∀ r : DocRow, (Expr.column "id").eval sq.engine (sq.sortRow r) = .text r.id :=
    fun _ => rfl
  rw [rowLe, hcolumn, hcolumn, horder, ← compare_le_iff_le]
  cases compare a.id b.id <;> simp [rowLe]

theorem compares_gt_text {a b : String} : Compares .gt (.text a) (.text b) ↔ b < a := by
  have hcompare : Value.compare (.text a) (.text b) = some (compare a b) := rfl
  rw [Compares, hcompare, ← compare_gt_iff_gt]
  cases compare a b <;> simp [Rel.holds]

/-! ## One statement -/

/-- The rows that pass the condition, by `id`, as many as the limit lets through. -/
def byId (sq : Sqlite) (sorter : Sorter DocRow) (e : Expr Value) (limit : ℕ)
    (rows : List DocRow) : List DocRow :=
  arrange sq.engine sorter sq.sortRow [⟨.column "id", false⟩] limit 0
    (rows.filter fun r => e.Holds sq.engine (sq.condRow r))

theorem byId_nil {e : Expr Value} {limit : ℕ} : byId sq sorter e limit [] = [] := by
  have hnil : ∀ le, sorter.sort le [] = [] := fun le => (sorter.perm le []).eq_nil
  simp [byId, arrange, hnil]

theorem length_byId_le (e : Expr Value) (limit : ℕ) :
    (byId sq sorter e limit rows).length ≤ limit :=
  List.length_take_le ..

theorem byId_ids (sq : Sqlite) (sorter : Sorter DocRow) {e : Expr Value}
    (hnodup : (rows.map (·.id)).Nodup)
    (hholds : ∀ textTruth extract id doc, e.Holds (sqlite textTruth) (docRow extract id doc) ↔
      P id fun field => extract doc (dotted field)) (limit : ℕ) :
    ∃ ks : List String, (byId sq sorter e limit rows).map (·.id) = ks.take limit ∧
      ks.Pairwise (· < ·) ∧ ∀ k, k ∈ ks ↔
        ∃ r ∈ rows, r.id = k ∧ P r.id fun field => sq.extract r.doc (dotted field) := by
  let found := rows.filter fun r => e.Holds sq.engine (sq.condRow r)
  let sorted := sorter.sort (fun a b =>
    rowLe sq.engine [⟨.column "id", false⟩] (sq.sortRow a) (sq.sortRow b)) found
  have hfound : (found.map (·.id)).Nodup := hnodup.sublist (List.filter_sublist.map _)
  refine ⟨sorted.map (·.id), List.map_take, ?_, ?_⟩
  · exact sort_increasing sorter (·.id) rowLe_id hfound
  · intro k
    have hmem : ∀ r, r ∈ sorted ↔ r ∈ found := fun r => (sorter.perm _ _).mem_iff
    simp only [List.mem_map, hmem, found, List.mem_filter, decide_eq_true_eq]
    constructor
    · rintro ⟨r, ⟨hr, hr'⟩, rfl⟩
      exact ⟨r, hr, rfl, (hholds _ _ _ _).mp hr'⟩
    · rintro ⟨r, hr, rfl, hr'⟩
      exact ⟨r, ⟨hr, (hholds _ _ _ _).mpr hr'⟩, rfl⟩

/-! ## One page -/

theorem pageLimit_pos (max : UInt32) (limit : Option UInt32) : 0 < (pageLimit max limit).toNat := by
  have hpos : ∀ x : UInt32, 0 < (Max.max x 1).toNat := by
    intro x
    unfold Max.max instMaxUInt32 maxOfLe
    dsimp only
    split
    · decide
    · next hle =>
      rw [UInt32.le_iff_toNat_le, not_le] at hle
      exact (show 0 < (1 : UInt32).toNat by decide).trans hle
  exact hpos _

theorem ids_envelope (sq : Sqlite) (projection : Option (List String)) (sel : List DocRow) :
    ids (sel.map (sq.envelope projection)) = sel.map (·.id) := by
  rw [ids, List.map_map]
  rfl

theorem nextCursor_eq {items : List DocEnvelope} {limit : UInt32}
    (hle : items.length ≤ limit.toNat) :
    (if (true && items.length.toUInt32 == limit) = true then items.getLast?.map (·.id) else none) =
      nextKey limit.toNat (ids items) := by
  have hlen : items.length.toUInt32 = limit ↔ items.length = limit.toNat := by
    rw [← UInt32.toNat_inj, Nat.toUInt32_eq, UInt32.toNat_ofNat', Nat.mod_eq_of_lt]
    exact hle.trans_lt limit.toNat_lt
  rw [nextKey, ids, List.length_map, List.getLast?_map, Bool.true_and]
  simp only [beq_iff_eq, hlen]

/-- The condition that a page is read with. -/
def condAfter (w : WhereClause) : Option String → WhereClause
  | none => w
  | some c => { sql := w.sql ++ " AND id > ?", params := w.params ++ [.text c] }

theorem reads_condAfter (hw : compileFilter req.filter = .ok w) (cursor : Option String) :
    Reads (condAfter w cursor).sql (condAfter w cursor).params fun id field =>
      Matches field req.filter ∧ After cursor id := by
  cases cursor with
  | none => simpa [condAfter, After] using compileFilter_reads hw
  | some c => simpa [condAfter, After, compares_gt_text] using compileFilter_reads_cursor hw c

theorem query_compiled {cursor : Option String} {e : Expr Value}
    (hname : validName coll = true) (hw : compileFilter req.filter = .ok w)
    (hsort : isCursorCompatible req.sort = true) (hoffset : req.offset.getD 0 = 0)
    (he : condition (condAfter w cursor).sql (condAfter w cursor).params = some e) :
    let limit := (pageLimit max req.limit).toNat
    let items := (TinyLord.query db coll (byId sq sorter e limit)).map (sq.envelope req.projection)
    query sq sorter max db coll { req with cursor } =
      .ok { items, nextCursor := nextKey limit (ids items) } := by
  have hvalid := requireValidName_ok "collection" hname
  have horder := compileSort_compatible hsort
  have hpos := pageLimit_pos max req.limit
  cases hthere : collectionExists db coll with
  | false =>
    simp only [query, TinyLord.query, hvalid, hw, horder, hthere, bind, Except.bind]
    simp only [Bool.false_eq_true, if_false, List.map_nil, nextKey, ids, List.length_nil, hpos.ne]
    rfl
  | true =>
    have hsel : selectRows sq sorter (db.rows coll) (condAfter w cursor).sql
        (condAfter w cursor).params "ORDER BY id ASC" (pageLimit max req.limit).toNat 0 =
          .ok (byId sq sorter e (pageLimit max req.limit).toNat (db.rows coll)) := by
      simp only [selectRows, he, orderBy_id]
      rfl
    have hitems : ((byId sq sorter e (pageLimit max req.limit).toNat (db.rows coll)).map
        (sq.envelope req.projection)).length ≤ (pageLimit max req.limit).toNat := by
      rw [List.length_map]
      exact length_byId_le e _
    simp only [TinyLord.query, hthere, if_true]
    rw [← nextCursor_eq hitems]
    cases cursor with
    | none =>
      have hzero : (req.offset.getD 0).toNat = 0 := congrArg UInt32.toNat hoffset
      simp only [condAfter] at hsel
      simp only [query, hvalid, hw, horder, hthere, hsort, hzero, bind, Except.bind, hsel]
      rfl
    | some c =>
      simp only [condAfter] at hsel
      simp only [query, hvalid, hw, horder, hthere, hsort, bind, Except.bind, hsel]
      rfl

theorem count_compiled {e : Expr Value} (hname : validName coll = true)
    (hw : compileFilter req.filter = .ok w) (he : condition w.sql w.params = some e) :
    count sq db coll { filter := req.filter } =
      .ok (TinyLord.count db coll fun r => e.Holds sq.engine (sq.condRow r)) := by
  have hvalid := requireValidName_ok "collection" hname
  simp only [count, TinyLord.count, hvalid, hw, he, bind, Except.bind]
  cases collectionExists db coll <;> rfl

theorem nodup_visible (hseen : Seen db) (coll : String) :
    ((visible db coll).map (·.id)).Nodup := by
  unfold visible
  split
  · exact hseen.uniqueIds.nodup_rows coll
  · exact List.nodup_nil

/-- The first ids of the matching documents after the cursor, in increasing order. -/
theorem query_ids (sq : Sqlite) (sorter : Sorter DocRow) (max : UInt32)
    (hname : validName coll = true) (hw : compileFilter req.filter = .ok w)
    (hsort : isCursorCompatible req.sort = true) (hoffset : req.offset.getD 0 = 0)
    (hnodup : ((visible db coll).map (·.id)).Nodup) (cursor : Option String) :
    let limit := (pageLimit max req.limit).toNat
    ∃ (page : QueryPage) (ks : List String),
      query sq sorter max db coll { req with cursor } = .ok page ∧
      ids page.items = ks.take limit ∧ page.nextCursor = nextKey limit (ks.take limit) ∧
      ks.Pairwise (· < ·) ∧
      ∀ k, k ∈ ks ↔ k ∈ matching sq req.filter db coll ∧ After cursor k := by
  obtain ⟨-, e, he, hholds⟩ := reads_condAfter hw cursor
  obtain ⟨ks, htake, hks, hmem⟩ := byId_ids
    (P := fun id field => Matches field req.filter ∧ After cursor id)
    sq sorter hnodup hholds (pageLimit max req.limit).toNat
  rw [← query_eq db coll byId_nil, ← ids_envelope sq req.projection] at htake
  refine ⟨_, ks, query_compiled hname hw hsort hoffset he, htake,
    congrArg (nextKey _) htake, hks, ?_⟩
  intro k
  rw [hmem]
  constructor
  · rintro ⟨r, hr, rfl, hmatches, hafter⟩
    exact ⟨⟨r, hr, rfl, hmatches⟩, hafter⟩
  · rintro ⟨⟨r, hr, rfl, hmatches⟩, hafter⟩
    exact ⟨r, hr, rfl, hmatches, hafter⟩

theorem query_page (sq : Sqlite) (sorter : Sorter DocRow) (max : UInt32)
    (hname : validName coll = true) (hw : compileFilter req.filter = .ok w)
    (hsort : isCursorCompatible req.sort = true) (hoffset : req.offset.getD 0 = 0)
    (hseen : Seen db) (cursor : Option String) :
    ∃ page, query sq sorter max db coll { req with cursor } = .ok page ∧
      IsPage (matching sq req.filter db coll) cursor (ids page.items) page.nextCursor := by
  obtain ⟨page, ks, hquery, hids, hnext, hks, hmem⟩ :=
    query_ids sq sorter max hname hw hsort hoffset (nodup_visible hseen coll) cursor
  refine ⟨page, hquery, ?_⟩
  rw [hids, hnext]
  exact isPage_take (pageLimit_pos max req.limit) hks hmem

theorem matching_finite (sq : Sqlite) (filter : Option Json) (db : Database) (coll : String) :
    (matching sq filter db coll).Finite := by
  refine ((visible db coll).map (·.id)).finite_toSet.subset ?_
  rintro id ⟨r, hr, rfl, -⟩
  exact List.mem_map_of_mem hr

/-- The count endpoint counts the same documents. -/
theorem count_eq_ncard (hname : validName coll = true) (hw : compileFilter req.filter = .ok w)
    (hseen : Seen db) :
    count sq db coll { filter := req.filter } = .ok (matching sq req.filter db coll).ncard := by
  obtain ⟨-, e, he, hholds⟩ := compileFilter_reads hw
  let found := (visible db coll).filter fun r => e.Holds sq.engine (sq.condRow r)
  have hnodup : (found.map (·.id)).Nodup :=
    (nodup_visible hseen coll).sublist (List.filter_sublist.map _)
  have hset : matching sq req.filter db coll = ((found.map (·.id)).toFinset : Set String) := by
    ext id
    rw [List.coe_toFinset, Set.mem_ofPred_eq, matching, Set.mem_ofPred_eq]
    simp only [found, List.mem_map, List.mem_filter, decide_eq_true_eq]
    constructor
    · rintro ⟨r, hr, rfl, hmatches⟩
      exact ⟨r, ⟨hr, (hholds _ _ _ _).mpr hmatches⟩, rfl⟩
    · rintro ⟨r, ⟨hr, htrue⟩, rfl⟩
      exact ⟨r, hr, rfl, (hholds _ _ _ _).mp htrue⟩
  rw [count_compiled hname hw he, count_eq, hset, Set.ncard_coe_finset,
    List.toFinset_card_of_nodup hnodup, List.length_map, ← List.countP_eq_length_filter]

/-! ## The walk -/

theorem ask_serves (sq : Sqlite) (sorters : ℕ → Sorter DocRow) (max : UInt32)
    {dbs : ℕ → Database} (hname : validName coll = true) (hw : compileFilter req.filter = .ok w)
    (hsort : isCursorCompatible req.sort = true) (hoffset : req.offset.getD 0 = 0)
    (hseen : ∀ n, Seen (dbs n)) :
    Serves (ask sq sorters max dbs coll req) ids fun n => matching sq req.filter (dbs n) coll := by
  intro n cursor
  obtain ⟨page, hquery, hpage⟩ :=
    query_page sq (sorters n) max hname hw hsort hoffset (hseen n) cursor
  refine ⟨page.items, page.nextCursor, ?_, hpage⟩
  rw [ask, hquery]
  rfl

theorem ids_flatten (pages : List (List DocEnvelope)) : ids pages.flatten = pages.flatMap ids := by
  rw [ids, List.map_flatten, List.flatMap_def]
  rfl

/-- A client that starts without a cursor and follows `next_cursor` comes to an end, has ids in
increasing order, and has each document once that matches whenever it asks. Documents may be
written, changed and deleted between its requests. When none is, it has as many as are counted. The
limits of SQLite on parameters and on the depth of an expression are not modelled: a filter above
them is an error at every page. -/
theorem cursor_pagination (sq : Sqlite) (sorters : ℕ → Sorter DocRow) (max : UInt32)
    (dbs : ℕ → Database) (coll : String) (req : QueryRequest) (hname : validName coll = true)
    (hfilter : ∃ w, compileFilter req.filter = .ok w)
    (hsort : req.sort = [] ∨ ∃ dir, req.sort = [("id", dir)] ∧ toAsciiLowercase dir = "asc")
    (hoffset : req.offset.getD 0 = 0) (hseen : ∀ n, Seen (dbs n))
    (hfinite : ∃ N, ∀ n ≥ N, dbs n = dbs N) :
    ∃ fuel pages, (∀ f ≥ fuel, walk sq sorters max dbs coll req f = some pages) ∧
      (ids pages.flatten).Pairwise (· < ·) ∧
      (∀ id, (∀ i < pages.length, id ∈ matching sq req.filter (dbs i) coll) →
        (ids pages.flatten).count id = 1) ∧
      ((∀ n, dbs n = dbs 0) →
        count sq (dbs 0) coll { filter := req.filter } = .ok pages.flatten.length) := by
  obtain ⟨w, hw⟩ := hfilter
  have hserves :=
    ask_serves sq sorters max hname hw (isCursorCompatible_iff.mpr hsort) hoffset hseen
  obtain ⟨N, hN⟩ := hfinite
  obtain ⟨fuel, pages, hpages⟩ := follow_ends hserves (fun n hn => by rw [hN n hn])
    (matching_finite sq req.filter (dbs N) coll)
  have hincreasing := (follow_increasing hserves hpages).1
  refine ⟨fuel, pages, fun f hf => follow_mono hpages hf, ?_, ?_, ?_⟩
  · rw [ids_flatten]
    exact hincreasing
  · intro id hid
    rw [ids_flatten]
    refine List.count_eq_one_of_mem (hincreasing.imp fun hlt => hlt.ne) ?_
    refine follow_complete hserves hpages (fun i hi => ?_) nofun
    rw [Nat.zero_add]
    exact hid i hi
  · intro hstill
    have hlength := follow_length hserves (fun n => by rw [hstill n]) hpages
    rw [count_eq_ncard hname hw (hseen 0), ← hlength, ← ids_flatten, ids, List.length_map]

def plainSqlite : Sqlite where
  textTruth _ := false
  stored _ := .null
  extract _ _ := .null
  readFloat := id

def oneByOne : QueryRequest :=
  { filter := none, sort := [("id", "Asc")], limit := some 0, offset := none, cursor := none,
    projection := none }

def twoNotes : Database := (processBatch noLimits twoCreates (.open .empty [])).conn.committed

def changedNote : Database :=
  (processBatch noLimits replaceAndDelete (.open twoNotes [])).conn.committed

/-- Two notes, of which only the first one is left, and changed, when the second page is read. -/
def notesAt (n : ℕ) : Database := if n = 0 then twoNotes else changedNote

theorem cursor_pagination_notes :
    ids ((visible twoNotes "notes").map (plainSqlite.envelope none)) = ["a", "b"] ∧
    ids ((visible changedNote "notes").map (plainSqlite.envelope none)) = ["a"] ∧
    ∃ fuel pages, (∀ f ≥ fuel,
        walk plainSqlite (fun _ => mergeSorter) 500 notesAt "notes" oneByOne f = some pages) ∧
      (ids pages.flatten).count "a" = 1 := by
  have hbefore : visible twoNotes "notes" = [⟨"a", .null, 1, 1⟩, ⟨"b", .null, 2, 2⟩] := rfl
  have hafter : visible changedNote "notes" = [⟨"a", .bool true, 1, 3⟩] := rfl
  have hseen : ∀ n, Seen (notesAt n) := by
    intro n
    unfold notesAt
    split
    · exact .batch noLimits twoCreates [] .empty
    · exact .batch noLimits replaceAndDelete [] (.batch noLimits twoCreates [] .empty)
  have hthere : ∀ n, "a" ∈ matching plainSqlite none (notesAt n) "notes" := by
    intro n
    unfold notesAt matching
    split
    · rw [hbefore]
      exact ⟨_, .head _, rfl, trivial⟩
    · rw [hafter]
      exact ⟨_, .head _, rfl, trivial⟩
  have hfinite : ∀ n ≥ 1, notesAt n = notesAt 1 := by
    intro n hn
    rw [notesAt, if_neg (by omega), notesAt, if_neg (by decide)]
  have hsort : toAsciiLowercase "Asc" = "asc" := by decide
  obtain ⟨fuel, pages, hwalk, -, honce, -⟩ := cursor_pagination plainSqlite
    (fun _ => mergeSorter) 500 notesAt "notes" oneByOne rfl ⟨_, rfl⟩
    (Or.inr ⟨"Asc", rfl, hsort⟩) rfl hseen ⟨1, hfinite⟩
  rw [hbefore, hafter]
  exact ⟨rfl, rfl, fuel, pages, hwalk, honce "a" fun i _ => hthere i⟩

end TinyLord.QueryEp
