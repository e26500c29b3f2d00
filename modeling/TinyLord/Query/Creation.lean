import TinyLord.Db.Creation
import TinyLord.Lib.Feed
import TinyLord.Query.Pages

/-!
# The default order and the order of creation

In a collection that is only created in, the order by `id` is that of the creation, down to the
millisecond. Below it the random bits decide.
-/

open Lib Lib.Sql Lib.Feed Lib.Transaction Lib.Sequence

namespace TinyLord.QueryEp

/-! ## The statement -/

/-- A request for all the documents by `id`. -/
structure DefaultOrder (req : QueryRequest) : Prop where
  filter : req.filter = none
  sort : isCursorCompatible req.sort = true
  offset : req.offset.getD 0 = 0

/-- The ids that request `n` of a client brings. It is answered from `reads n`. -/
def poll (sq : Sqlite) (sorters : ℕ → Sorter DocRow) (max : UInt32) (reads : ℕ → Database)
    (coll : String) (reqs : ℕ → QueryRequest) (n : ℕ) (cursor : Option String) : List String :=
  match query sq (sorters n) max (reads n) coll { reqs n with cursor } with
  | .ok page => ids page.items
  | .error _ => []

/-- Each request is answered from the state of the one before or from a later one. -/
def InOrder (states : List Database) (reads : ℕ → Database) : Prop :=
  ∃ pos : ℕ → ℕ, Monotone pos ∧ ∀ n, states[pos n]? = some (reads n)

/-- The order by `id` is the order of creation, in the log, on a page, and for a client that goes
on from the last `id` it has seen. -/
structure CreationOrder (coll : String) (states : List Database) : Prop where
  numbered : ∀ S ∈ states, ∀ S' ∈ states, ∀ l ∈ S.changelog, ∀ l' ∈ S'.changelog,
    l.collection = coll → l'.collection = coll → l.seq < l'.seq → l.docId < l'.docId
  listed : ∀ S ∈ states, ∀ sq sorter max req, DefaultOrder req →
    (∀ c ∈ req.cursor, c ∈ S.ids coll) → ∃ page, query sq sorter max S coll req = .ok page ∧
      ids page.items = (after req.cursor (S.ids coll)).take (pageLimit max req.limit).toNat
  followed : ∀ sq sorters max (reqs : ℕ → QueryRequest) reads start, (∀ n, DefaultOrder (reqs n)) →
    InOrder states reads → (∀ c ∈ start, c ∈ (reads 0).ids coll) →
    let got := fun n => (Feed.follow (poll sq sorters max reads coll reqs) start n).2
    (∀ n, got n <+: after start ((reads n).ids coll)) ∧
      ∀ m, ∃ N, ∀ n ≥ N, after start ((reads m).ids coll) <+: got n

variable {sq : Sqlite} {sorter : Sorter DocRow} {max : UInt32} {coll : String} {S D : Database}
  {req : QueryRequest} {states : List Database} {minted kept : List Ulid}

/-! ## One page -/

theorem visible_of_spelled (h : ∀ name ∈ S.names coll, name = coll) :
    visible S coll = S.rows coll := by
  unfold visible
  split
  · rfl
  · next hthere =>
    unfold Database.rows
    cases ht : S.table coll with
    | none => rfl
    | some t =>
      have hmem := List.mem_of_find?_eq_some ht
      have hfold : fold t.name = fold coll := by simpa using List.find?_some ht
      have hname : t.name = coll := h t.name
        (List.mem_filter.mpr ⟨List.mem_map_of_mem hmem, decide_eq_true hfold⟩)
      refine absurd ?_ hthere
      exact List.any_eq_true.mpr ⟨t, hmem, beq_iff_eq.mpr hname⟩

theorem matching_none (h : ∀ name ∈ S.names coll, name = coll) {k : String} :
    k ∈ matching sq none S coll ↔ k ∈ S.ids coll := by
  rw [matching, visible_of_spelled h, Database.ids, List.mem_map]
  exact exists_congr fun r => and_congr_right fun _ => and_iff_left trivial

theorem query_default (sq : Sqlite) (sorter : Sorter DocRow) (max : UInt32)
    (hname : validName coll = true) (hreq : DefaultOrder req)
    (hspelled : ∀ name ∈ S.names coll, name = coll) (hunique : UniqueIds S) :
    ∃ (page : QueryPage) (ks : List String), query sq sorter max S coll req = .ok page ∧
      ids page.items = ks.take (pageLimit max req.limit).toNat ∧ ks.Pairwise (· < ·) ∧
      ∀ k, k ∈ ks ↔ k ∈ S.ids coll ∧ ∀ c ∈ req.cursor, c < k := by
  have hw : compileFilter req.filter = .ok { sql := "1", params := [] } := by
    rw [hreq.filter]
    rfl
  have hnodup : ((visible S coll).map (·.id)).Nodup := by
    rw [visible_of_spelled hspelled]
    exact hunique.nodup_rows coll
  obtain ⟨page, ks, hquery, hids, -, hks, hmem⟩ :=
    query_ids sq sorter max hname hw hreq.sort hreq.offset hnodup req.cursor
  refine ⟨page, ks, hquery, hids, hks, fun k => ?_⟩
  rw [hmem, hreq.filter, matching_none hspelled]
  rfl

/-- When the ids increase, the ones after the cursor are those that came after it. -/
theorem listed_of_increasing (sq : Sqlite) (sorter : Sorter DocRow) (max : UInt32)
    (hname : validName coll = true) (hreq : DefaultOrder req)
    (hspelled : ∀ name ∈ S.names coll, name = coll) (hunique : UniqueIds S)
    (hids : (S.ids coll).Pairwise (· < ·)) (hcursor : ∀ c ∈ req.cursor, c ∈ S.ids coll) :
    ∃ page, query sq sorter max S coll req = .ok page ∧
      ids page.items = (after req.cursor (S.ids coll)).take (pageLimit max req.limit).toNat := by
  obtain ⟨page, ks, hquery, hpage, hks, hmem⟩ :=
    query_default sq sorter max hname hreq hspelled hunique
  have hafter : (after req.cursor (S.ids coll)).Pairwise (· < ·) :=
    hids.sublist (after_suffix _ _).sublist
  have heq : ks = after req.cursor (S.ids coll) :=
    hks.eq_of_mem_iff hafter fun k => (hmem k).trans (mem_after hids hcursor).symm
  exact ⟨page, hquery, heq ▸ hpage⟩

theorem increasing_of_listed (hname : validName coll = true)
    (hspelled : ∀ name ∈ S.names coll, name = coll) (hunique : UniqueIds S)
    (hlisted : ∀ sq sorter max req, DefaultOrder req → (∀ c ∈ req.cursor, c ∈ S.ids coll) →
      ∃ page, query sq sorter max S coll req = .ok page ∧
        ids page.items = (after req.cursor (S.ids coll)).take (pageLimit max req.limit).toNat) :
    (S.ids coll).Pairwise (· < ·) := by
  refine List.IsChain.pairwise (List.isChain_iff_forall_rel_of_append_cons_cons.mpr ?_)
  intro a b before rest hsplit
  let req : QueryRequest :=
    { filter := none, sort := [], limit := none, offset := none, cursor := some a,
      projection := none }
  have hreq : DefaultOrder req := ⟨rfl, rfl, rfl⟩
  have hmem : ∀ c ∈ req.cursor, c ∈ S.ids coll := by
    rintro _ ⟨⟩
    rw [hsplit]
    exact List.mem_append_right _ List.mem_cons_self
  have hnew : a ∉ before := by
    have hnodup : (S.ids coll).Nodup := hunique.nodup_rows coll
    rw [hsplit] at hnodup
    exact fun ha => (List.nodup_append.mp hnodup).2.2 a ha a List.mem_cons_self rfl
  obtain ⟨page, hquery, hpage⟩ := hlisted plainSqlite mergeSorter 1 req hreq hmem
  obtain ⟨page', ks, hquery', hpage', -, hks⟩ :=
    query_default plainSqlite mergeSorter 1 hname hreq hspelled hunique
  obtain rfl : page = page' := Except.ok.inj (hquery.symm.trans hquery')
  have hpos := pageLimit_pos 1 req.limit
  have hb : b ∈ ids page.items := by
    rw [hpage, hsplit, after_cons hnew, List.take_cons hpos]
    exact List.mem_cons_self
  rw [hpage'] at hb
  exact ((hks b).mp (List.mem_of_mem_take hb)).2 a rfl

/-! ## A client -/

theorem poll_served (sq : Sqlite) (sorters : ℕ → Sorter DocRow) (max : UInt32)
    {reads : ℕ → Database} {reqs : ℕ → QueryRequest} {start : Option String}
    (hname : validName coll = true) (hreqs : ∀ n, DefaultOrder (reqs n))
    (hspelled : ∀ n, ∀ name ∈ (reads n).names coll, name = coll)
    (hunique : ∀ n, UniqueIds (reads n))
    (hids : ∀ n, ((reads n).ids coll).Pairwise (· < ·))
    (hgrows : ∀ n, (reads n).ids coll <+: (reads (n + 1)).ids coll)
    (hstart : ∀ c ∈ start, c ∈ (reads 0).ids coll) :
    Served (poll sq sorters max reads coll reqs) (fun n => (reads n).ids coll) start where
  nodup n := (hunique n).nodup_rows coll
  grows := hgrows
  started := hstart
  answers n cursor hcursor := by
    have hreq : DefaultOrder { reqs n with cursor } :=
      ⟨(hreqs n).filter, (hreqs n).sort, (hreqs n).offset⟩
    obtain ⟨page, hquery, hpage⟩ := listed_of_increasing sq (sorters n) max hname hreq
      (hspelled n) (hunique n) (hids n) hcursor
    refine ⟨_, pageLimit_pos max (reqs n).limit, ?_⟩
    rw [poll, hquery]
    exact hpage

/-! ## Whole runs -/

theorem InOrder.mem {reads : ℕ → Database} (h : InOrder states reads) (n : ℕ) :
    reads n ∈ states := by
  obtain ⟨pos, -, hpos⟩ := h
  exact List.mem_of_getElem? (hpos n)

theorem InOrder.grows {reads : ℕ → Database} (h : InOrder states reads)
    (horder : states.Pairwise fun S S' => S.ids coll <+: S'.ids coll) (n : ℕ) :
    (reads n).ids coll <+: (reads (n + 1)).ids coll := by
  obtain ⟨pos, hmono, hpos⟩ := h
  obtain ⟨hn, hread⟩ := List.getElem?_eq_some_iff.mp (hpos n)
  obtain ⟨hn', hread'⟩ := List.getElem?_eq_some_iff.mp (hpos (n + 1))
  rcases (hmono (Nat.le_add_right n 1)).eq_or_lt with heq | hlt
  · have hsame : reads n = reads (n + 1) := by
      rw [← hread, ← hread']
      simp only [heq]
    rw [hsame]
  · rw [← hread, ← hread']
    exact List.pairwise_iff_getElem.mp horder _ _ hn hn' hlt

theorem CreateRun.creationOrder (hrun : CreateRun coll minted states D)
    (hname : validName coll = true) (hids : (D.ids coll).Pairwise (· < ·)) :
    CreationOrder coll states := by
  obtain ⟨all, h⟩ := hrun.chronicle
  have hincreasing : ∀ S ∈ states, (S.ids coll).Pairwise (· < ·) := fun S hS =>
    hids.sublist (h.past S hS).1.sublist
  refine ⟨?_, ?_, ?_⟩
  · intro S hS S' hS' l hl l' hl' hcoll hcoll' hlt
    exact hrun.logged_in_order hids hS hS' hl hl' (congrArg fold hcoll) (congrArg fold hcoll') hlt
  · intro S hS sq sorter max req hreq hcursor
    exact listed_of_increasing sq sorter max hname hreq (h.spelled S hS) (hrun.uniqueIds S hS)
      (hincreasing S hS) hcursor
  · intro sq sorters max reqs reads start hreqs hreads hstart
    have hserved := poll_served sq sorters max hname hreqs (fun n => h.spelled _ (hreads.mem n))
      (fun n => hrun.uniqueIds _ (hreads.mem n)) (fun n => hincreasing _ (hreads.mem n))
      (hreads.grows h.order) hstart
    exact ⟨hserved.got, hserved.complete⟩

/-- With a clock that does not go backwards, the texts increase when the random bits of each
millisecond do. -/
theorem texts_increasing (hclock : kept.Pairwise fun u v => u.time ≤ v.time) :
    (kept.map Ulid.text).Pairwise (· < ·) ↔
      kept.Pairwise fun u v => u.time = v.time → u.random < v.random := by
  rw [List.pairwise_map]
  constructor <;> refine fun h => List.Pairwise.imp₂ ?_ hclock h <;> intro u v hle
  · intro hlt hsame
    rcases text_lt_iff.mp hlt with hlt | ⟨-, hlt⟩
    · exact absurd hsame hlt.ne
    · exact hlt
  · intro hrandom
    rw [text_lt_iff]
    rcases hle.lt_or_eq with hlt | hsame
    · exact Or.inl hlt
    · exact Or.inr ⟨hsame, hrandom hsame⟩

/-- In every run in which the clock does not go backwards, the default order is that of the
creation exactly when the documents of each millisecond have drawn increasing random bits. -/
theorem creation_order (coll : String) (hname : validName coll = true) {minted : List Ulid}
    {states : List Database} {D : Database} (hrun : CreateRun coll minted states D)
    (hclock : minted.Pairwise fun u v => u.time ≤ v.time) :
    ∃ kept : List Ulid, kept.Sublist minted ∧ D.ids coll = kept.map Ulid.text ∧
      (CreationOrder coll states ↔
        kept.Pairwise fun u v => u.time = v.time → u.random < v.random) := by
  obtain ⟨all, h⟩ := hrun.chronicle
  obtain ⟨kept, hkept, hids⟩ := h.kept
  refine ⟨kept, hkept, hids, ?_⟩
  rw [← texts_increasing (hclock.sublist hkept), ← hids]
  constructor
  · intro horder
    exact increasing_of_listed hname (h.spelled D h.here) (hrun.uniqueIds D h.here)
      (horder.listed D h.here)
  · exact CreateRun.creationOrder hrun hname

def noteOf (u : Ulid) : Minting :=
  { cmd := .create "notes" .null, ulid := u, now := 1, pageCount := 0, pageSize := 0 }

def firstNote (u : Ulid) : Database :=
  (processBatch noLimits ([noteOf u].map (·.op)) (.open .empty [])).conn.committed

def secondNote (u v : Ulid) : Database :=
  (processBatch noLimits ([noteOf v].map (·.op)) (.open (firstNote u) [])).conn.committed

def noteStates (u v : Ulid) : List Database :=
  [.empty] ++ durableStates noLimits ([noteOf u].map (·.op)) (.open .empty []) ++
    durableStates noLimits ([noteOf v].map (·.op)) (.open (firstNote u) [])

theorem noteStates_run (u v : Ulid) :
    CreateRun "notes" [u, v] (noteStates u v) (secondNote u v) := by
  have hcreates : ∀ w, ∀ m ∈ [noteOf w], m.cmd.CreatesIn "notes" := by
    intro w m hm
    rw [List.mem_singleton.mp hm]
    exact fun _ => rfl
  have hfirst : CreateRun "notes" [u] _ (firstNote u) :=
    CreateRun.batch noLimits [noteOf u] [] .fresh (hcreates u)
  have hsecond := CreateRun.batch noLimits [noteOf v] [] hfirst (hcreates v)
  exact hsecond

/-- In one millisecond, with random bits that increase. -/
theorem creation_order_notes :
    (secondNote ⟨5, 7⟩ ⟨5, 9⟩).ids "notes" =
      ["00000000050000000000000007", "00000000050000000000000009"] ∧
    CreationOrder "notes" (noteStates ⟨5, 7⟩ ⟨5, 9⟩) := by
  obtain ⟨kept, hkept, -, hiff⟩ :=
    creation_order "notes" rfl (noteStates_run ⟨5, 7⟩ ⟨5, 9⟩) (by decide)
  have hrandom : [(⟨5, 7⟩ : Ulid), ⟨5, 9⟩].Pairwise fun u v =>
      u.time = v.time → u.random < v.random := by decide
  exact ⟨by decide +kernel, hiff.mpr (hrandom.sublist hkept)⟩

/-- In one millisecond, with random bits that decrease: the second note has the smaller id, and a
client that has seen the first one never sees it. -/
theorem later_note_smaller :
    CreateRun "notes" [⟨5, 9⟩, ⟨5, 7⟩] (noteStates ⟨5, 9⟩ ⟨5, 7⟩) (secondNote ⟨5, 9⟩ ⟨5, 7⟩) ∧
    (secondNote ⟨5, 9⟩ ⟨5, 7⟩).changelog.map (fun l => (l.seq, l.collection, l.docId)) =
      [(1, "notes", "00000000050000000000000009"), (2, "notes", "00000000050000000000000007")] ∧
    poll plainSqlite (fun _ => mergeSorter) 500 (fun _ => secondNote ⟨5, 9⟩ ⟨5, 7⟩) "notes"
      (fun _ => oneByOne) 0 (some "00000000050000000000000009") = [] ∧
    ¬CreationOrder "notes" (noteStates ⟨5, 9⟩ ⟨5, 7⟩) := by
  have hlog : (secondNote ⟨5, 9⟩ ⟨5, 7⟩).changelog.map (fun l => (l.seq, l.collection, l.docId)) =
      [(1, "notes", "00000000050000000000000009"), (2, "notes", "00000000050000000000000007")] := by
    decide +kernel
  refine ⟨noteStates_run _ _, hlog, ?_, fun h => ?_⟩
  · decide +kernel
  · obtain ⟨l, rest, hrest, hl, hlog'⟩ := List.map_eq_cons_iff.mp hlog
    obtain ⟨l', _, rfl, hl', -⟩ := List.map_eq_cons_iff.mp hlog'
    simp only [Prod.mk.injEq] at hl hl'
    have hmem : secondNote ⟨5, 9⟩ ⟨5, 7⟩ ∈ noteStates ⟨5, 9⟩ ⟨5, 7⟩ :=
      List.mem_append_right _ (List.mem_append_right _ (List.mem_singleton_self _))
    have hlt := h.numbered _ hmem _ hmem l (hrest ▸ List.mem_cons_self) l'
      (hrest ▸ List.mem_cons_of_mem _ List.mem_cons_self) hl.2.1 hl'.2.1 (by omega)
    rw [hl.2.2, hl'.2.2] at hlt
    exact absurd hlt (by decide)

end TinyLord.QueryEp
