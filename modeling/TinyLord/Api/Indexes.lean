import TinyLord.Api.IndexNames
import TinyLord.Lib.History

/-!
# Which collection an index is in

A client creates, lists and drops indexes under the URL of a collection. The list is read from the
rows of that collection, but the writer drops by the name alone. Requests are those of an
administrator of the database, and every statement runs.
-/

open Lib Lib.Run Lib.History Lib.Transaction

namespace TinyLord.Indexes

/-! ## The handlers -/

def create (sql : IndexSql) (coll path : String) (unique : Bool) (ulid : String) (cat : Catalog) :
    Except ApiError IndexRecord × Catalog :=
  match requireValidName "collection" coll with
  | .error e => (.error e, cat)
  | .ok () =>
    if !validJsonPath path then
      (.error (.validation "path must be a JSON path like '$.email'"), cat)
    else
      let r : IndexRecord :=
        { name := generateIndexName coll path ulid, collection := coll, path, isUnique := unique }
      match doCreateIndex sql r (Conn.open cat []) with
      | (.ok (), conn) => (.ok r, conn.committed)
      | (.error e, conn) => (.error e, conn.committed)

/-- `SELECT … FROM _indexes WHERE collection = ?1 ORDER BY name`. -/
def selectIndexes (coll : String) (cat : Catalog) : List IndexRecord :=
  (cat.registry.rows.filter fun r => r.collection == coll).mergeSort fun r r' => r.name ≤ r'.name

def list (coll : String) (cat : Catalog) : Except ApiError (List IndexRecord) :=
  match requireValidName "collection" coll with
  | .error e => .error e
  | .ok () => .ok (selectIndexes coll cat)

def drop (sql : IndexSql) (coll name : String) (cat : Catalog) : Except ApiError Unit × Catalog :=
  match requireValidName "collection" coll, requireValidName "index" name with
  | .error e, _ => (.error e, cat)
  | .ok (), .error e => (.error e, cat)
  | .ok (), .ok () =>
    match doDropIndex sql name (Conn.open cat []) with
    | (.ok true, conn) => (.ok (), conn.committed)
    | (.ok false, conn) => (.error (.notFound "index not found"), conn.committed)
    | (.error e, conn) => (.error e, conn.committed)

/-! ## Runs -/

inductive Request where
  | create (coll path : String) (unique : Bool) (ulid : Ulid)
  | list (coll : String)
  | drop (coll name : String)

/-- What a client is told to have done. -/
inductive Done where
  | created (r : IndexRecord)
  | dropped (coll name : String)

structure State where
  cat : Catalog
  log : List Done

def State.empty : State := { cat := .empty, log := [] }

def State.after (sql : IndexSql) (s : State) : Request → State
  | .create coll path unique ulid =>
    match create sql coll path unique ulid.text s.cat with
    | (.ok r, cat) => { cat, log := s.log ++ [.created r] }
    | (.error _, cat) => { s with cat }
  | .list _ => s
  | .drop coll name =>
    match drop sql coll name s.cat with
    | (.ok (), cat) => { cat, log := s.log ++ [.dropped coll name] }
    | (.error _, cat) => { s with cat }

def requestStep (sql : IndexSql) (s : State) (rq : Request) : Option State := some (s.after sql rq)

/-- The collection has created the index, and has not dropped it since. -/
def InPlace (log : List Done) (r : IndexRecord) : Prop :=
  Since log (.created r) (· = .dropped r.collection r.name)

/-- The list of each collection is that of its indexes in place, by name. -/
def Shown (s : State) : Prop :=
  ∀ coll, validName coll = true → ∃ rs, list coll s.cat = .ok rs ∧
    rs.Pairwise (fun r r' => r.name < r'.name) ∧
    ∀ r, r ∈ rs ↔ r.collection = coll ∧ InPlace s.log r

/-- A drop of a name that is none of the collection's is answered not found, and removes nothing. -/
def Spared (sql : IndexSql) (s : State) : Request → Prop
  | .drop coll name => validName coll = true → validName name = true →
      (∀ r ∈ selectIndexes coll s.cat, r.name ≠ name) →
      drop sql coll name s.cat = (.error (.notFound "index not found"), s.cat)
  | _ => True

/-- A drop names an index of its own collection, or none. -/
def Own (s : State) : Request → Prop
  | .drop coll name => validName coll = true → validName name = true →
      ∀ r ∈ s.cat.registry.rows, r.name = name → r.collection = coll
  | _ => True

/-! ## What a request does to the registry -/

variable {sql : IndexSql} {cat : Catalog} {s : State} {r : IndexRecord} {coll name : String}
  {rq : Request}

theorem createIndex_keyword {u : Unit} {cat' : Catalog}
    (h : createIndex sql r cat = .ok (u, cat')) :
    sql.keyword r.name = false := by
  unfold createIndex at h
  split at h
  · cases h
  · split at h
    · cases h
    · next hword =>
      rw [Bool.or_eq_true, not_or, Bool.not_eq_true] at hword
      exact hword.1

theorem mem_insertIndexRow {u : Unit} {cat' : Catalog} (h : insertIndexRow r cat = .ok (u, cat'))
    (x : IndexRecord) : x ∈ cat'.registry.rows ↔ x ∈ cat.registry.rows ∨ x = r := by
  unfold insertIndexRow at h
  split at h
  · cases h
  · next registry hinsert =>
    cases h
    exact Table.mem_insert hinsert

theorem doCreateIndex_registry (sql : IndexSql) (r : IndexRecord) (cat : Catalog) :
    (∃ conn, doCreateIndex sql r (Conn.open cat []) = (.ok (), conn) ∧ sql.keyword r.name = false ∧
      ∀ x, x ∈ conn.committed.registry.rows ↔ x ∈ cat.registry.rows ∨ x = r) ∨
    ∃ e conn, doCreateIndex sql r (Conn.open cat []) = (.error e, conn) ∧
      conn.committed.registry = cat.registry := by
  have hopen : (Conn.open cat []).committed = cat := rfl
  unfold doCreateIndex
  obtain ⟨-, ⟨⟩, cat₁, c₁, hensure, hrun₁, h₁⟩ | ⟨-, e, c₁, hrun₁, h₁⟩ :=
    write_auto (c := Conn.open cat []) rfl (ensureTable r.collection)
  · have hreg₁ : c₁.committed.registry = cat.registry := h₁.committed ▸ (ensureTable_ok hensure).2
    obtain ⟨-, ⟨⟩, cat₂, c₂, hcreate, hrun₂, h₂⟩ | ⟨-, e, c₂, hrun₂, h₂⟩ :=
      write_auto h₁.txn (createIndex sql r)
    · obtain ⟨_, _, _, _, hreg⟩ := createIndex_ok hcreate
      have hreg₂ : c₂.committed.registry = cat.registry := by rw [h₂.committed, hreg, hreg₁]
      obtain ⟨-, ⟨⟩, cat₃, c₃, hinsert, hrun₃, h₃⟩ | ⟨-, e, c₃, hrun₃, h₃⟩ :=
        write_auto h₂.txn (insertIndexRow r)
      · refine Or.inl ⟨c₃, ?_, createIndex_keyword hcreate, ?_⟩
        · simp only [bind_apply, Sql.mapErr, hrun₁, hrun₂, hrun₃]
        · intro x
          rw [h₃.committed, mem_insertIndexRow hinsert, hreg₂]
      · refine Or.inr ⟨mapSqliteErr e, c₃, ?_, by rw [h₃.committed, hreg₂]⟩
        simp only [bind_apply, Sql.mapErr, hrun₁, hrun₂, hrun₃]
    · refine Or.inr ⟨createIndexErr e, c₂, ?_, by rw [h₂.committed, hreg₁]⟩
      simp only [bind_apply, Sql.mapErr, hrun₁, hrun₂]
  · refine Or.inr ⟨mapSqliteErr e, c₁, ?_, by rw [h₁.committed, hopen]⟩
    simp only [bind_apply, Sql.mapErr, hrun₁]

theorem doDropIndex_unregistered (h : registered name cat = false) :
    doDropIndex sql name (Conn.open cat []) = (.ok false, Conn.open cat []) := by
  have hread : Sql.read (fun c => .ok (registered name c)) (Conn.open cat []) =
      (.ok (registered name cat), Conn.open cat []) := read_healthy _ rfl
  simp only [doDropIndex, bind_apply, Sql.mapErr, hread, h]
  rfl

theorem doDropIndex_registered (h : registered name cat = true) (hword : sql.keyword name = false) :
    ∃ conn, doDropIndex sql name (Conn.open cat []) = (.ok true, conn) ∧
      conn.committed.registry = cat.registry.delete fun r => r.name == name := by
  have hread : Sql.read (fun c => .ok (registered name c)) (Conn.open cat []) =
      (.ok (registered name cat), Conn.open cat []) := read_healthy _ rfl
  have hdrop : dropSqlIndex sql name cat = .ok ((), { cat with
      indexes := cat.indexes.delete fun i => fold i.name == fold name }) := by
    rw [dropSqlIndex, hword]
    rfl
  have hfirst : Sql.write (dropSqlIndex sql name) (Conn.open cat []) = _ := write_healthy _ rfl
  have hcurrent : (Conn.open cat []).current = cat := rfl
  rw [hcurrent, hdrop] at hfirst
  have hsecond : Sql.write (deleteIndexRow name) ((Conn.open cat []).put { cat with
      indexes := cat.indexes.delete fun i => fold i.name == fold name }) = _ := write_healthy _ rfl
  simp only [doDropIndex, bind_apply, Sql.mapErr, hread, h, Bool.not_true, Bool.false_eq_true,
    if_false, hfirst, hsecond]
  exact ⟨_, rfl, rfl⟩

theorem requireValidName_error (kind : String) (h : ¬validName name = true) :
    ∃ e, requireValidName kind name = .error e := by
  rw [requireValidName, if_neg h]
  exact ⟨_, rfl⟩

theorem create_cases (sql : IndexSql) (coll path : String) (unique : Bool) (ulid : String)
    (cat : Catalog) :
    (∃ r cat', create sql coll path unique ulid cat = (.ok r, cat') ∧ r.collection = coll ∧
      validName coll = true ∧ sql.keyword r.name = false ∧
      ∀ x, x ∈ cat'.registry.rows ↔ x ∈ cat.registry.rows ∨ x = r) ∨
    ∃ e cat', create sql coll path unique ulid cat = (.error e, cat') ∧
      cat'.registry = cat.registry := by
  unfold create
  by_cases hcoll : validName coll = true
  · rw [requireValidName_ok "collection" hcoll]
    by_cases hpath : validJsonPath path = true
    · simp only [hpath, Bool.not_true, Bool.false_eq_true, if_false]
      obtain ⟨conn, hrun, hword, hmem⟩ | ⟨e, conn, hrun, hsame⟩ := doCreateIndex_registry sql
        ⟨generateIndexName coll path ulid, coll, path, unique⟩ cat
      · rw [hrun]
        exact Or.inl ⟨_, _, rfl, rfl, hcoll, hword, hmem⟩
      · rw [hrun]
        exact Or.inr ⟨_, _, rfl, hsame⟩
    · simp only [hpath, Bool.not_false, if_true]
      exact Or.inr ⟨_, _, rfl, rfl⟩
  · obtain ⟨e, he⟩ := requireValidName_error "collection" hcoll
    rw [he]
    exact Or.inr ⟨_, _, rfl, rfl⟩

theorem drop_cases (hword : ∀ r ∈ cat.registry.rows, sql.keyword r.name = false)
    (coll name : String) :
    (¬(validName coll = true ∧ validName name = true) ∧
      ∃ e, drop sql coll name cat = (.error e, cat)) ∨
    (registered name cat = false ∧
      drop sql coll name cat = (.error (.notFound "index not found"), cat)) ∨
    (validName coll = true ∧ validName name = true ∧ registered name cat = true ∧
      ∃ cat', drop sql coll name cat = (.ok (), cat') ∧
        cat'.registry = cat.registry.delete fun r => r.name == name) := by
  unfold drop
  by_cases hcoll : validName coll = true
  · rw [requireValidName_ok "collection" hcoll]
    by_cases hname : validName name = true
    · rw [requireValidName_ok "index" hname]
      cases hreg : registered name cat with
      | false =>
        rw [doDropIndex_unregistered hreg]
        exact Or.inr (Or.inl ⟨rfl, rfl⟩)
      | true =>
        obtain ⟨r, hr, rfl⟩ := registered_iff.mp hreg
        obtain ⟨conn, hrun, hdelete⟩ := doDropIndex_registered hreg (hword r hr)
        rw [hrun]
        exact Or.inr (Or.inr ⟨hcoll, hname, rfl, _, rfl, hdelete⟩)
    · obtain ⟨e, he⟩ := requireValidName_error "index" hname
      rw [he]
      exact Or.inl ⟨fun h => hname h.2, _, rfl⟩
  · obtain ⟨e, he⟩ := requireValidName_error "collection" hcoll
    rw [he]
    exact Or.inl ⟨fun h => hcoll h.1, _, rfl⟩

/-! ## One request -/

/-- The registry holds the indexes in place. -/
structure Inv (sql : IndexSql) (s : State) : Prop where
  inPlace : ∀ r, r ∈ s.cat.registry.rows ↔ InPlace s.log r
  keyword : ∀ r ∈ s.cat.registry.rows, sql.keyword r.name = false
  collection : ∀ r ∈ s.cat.registry.rows, validName r.collection = true

theorem Inv.empty : Inv sql .empty where
  inPlace _ := iff_of_false List.not_mem_nil not_since_nil
  keyword := nofun
  collection := nofun

theorem mem_selectIndexes : r ∈ selectIndexes coll cat ↔
    r ∈ cat.registry.rows ∧ r.collection = coll := by
  rw [selectIndexes, List.mem_mergeSort, List.mem_filter, beq_iff_eq]

theorem selectIndexes_sorted :
    (selectIndexes coll cat).Pairwise fun r r' => r.name < r'.name := by
  have hsorted : (selectIndexes coll cat).Pairwise
      fun r r' => decide (r.name ≤ r'.name) = true := by
    apply List.pairwise_mergeSort
    · intro a b c hab hbc
      exact decide_eq_true ((of_decide_eq_true hab).trans (of_decide_eq_true hbc))
    · intro a b
      rw [Bool.or_eq_true, decide_eq_true_eq, decide_eq_true_eq]
      exact le_total a.name b.name
  have hnames : ((selectIndexes coll cat).map IndexRecord.name).Nodup := by
    rw [selectIndexes, ((List.mergeSort_perm _ _).map _).nodup_iff]
    exact cat.registry.keys.sublist (List.filter_sublist.map _)
  rw [List.Nodup, List.pairwise_map] at hnames
  refine (hsorted.and hnames).imp ?_
  rintro r r' ⟨hle, hne⟩
  exact lt_of_le_of_ne (of_decide_eq_true hle) hne

theorem Inv.shown (h : Inv sql s) : Shown s := by
  intro coll hcoll
  refine ⟨selectIndexes coll s.cat, ?_, selectIndexes_sorted, ?_⟩
  · rw [list, requireValidName_ok "collection" hcoll]
  · intro r
    rw [mem_selectIndexes, h.inPlace, and_comm]

theorem inPlace_created {log : List Done} {x : IndexRecord} :
    InPlace (log ++ [.created x]) r ↔ r = x ∨ InPlace log r := by
  unfold InPlace
  rw [since_concat]
  simp [eq_comm]

theorem inPlace_dropped {log : List Done} : InPlace (log ++ [.dropped coll name]) r ↔
    InPlace log r ∧ ¬(r.collection = coll ∧ r.name = name) := by
  unfold InPlace
  rw [since_concat]
  simp [eq_comm]

theorem Inv.create (h : Inv sql s) (coll path : String) (unique : Bool) (ulid : Ulid) :
    Inv sql (s.after sql (.create coll path unique ulid)) := by
  obtain ⟨r, cat', hrun, hcoll, hvalid, hword, hmem⟩ | ⟨e, cat', hrun, hsame⟩ :=
    create_cases sql coll path unique ulid.text s.cat
  · simp only [State.after, hrun]
    refine ⟨?_, ?_, ?_⟩
    · intro x
      rw [hmem, h.inPlace, inPlace_created, or_comm]
    · intro x hx
      rcases (hmem x).mp hx with hx | rfl
      · exact h.keyword x hx
      · exact hword
    · intro x hx
      rcases (hmem x).mp hx with hx | rfl
      · exact h.collection x hx
      · exact hcoll ▸ hvalid
  · simp only [State.after, hrun]
    refine ⟨?_, ?_, ?_⟩
    · simp only [hsame]
      exact h.inPlace
    · simp only [hsame]
      exact h.keyword
    · simp only [hsame]
      exact h.collection

theorem Inv.drop (h : Inv sql s) (coll name : String) (hown : Own s (.drop coll name)) :
    Inv sql (s.after sql (.drop coll name)) := by
  obtain ⟨-, e, hrun⟩ | ⟨-, hrun⟩ | ⟨hcoll, hname, -, cat', hrun, hdelete⟩ :=
    drop_cases h.keyword coll name
  · simp only [State.after, hrun]
    exact h
  · simp only [State.after, hrun]
    exact h
  · simp only [State.after, hrun]
    have hmem : ∀ x, x ∈ cat'.registry.rows ↔ x ∈ s.cat.registry.rows ∧ x.name ≠ name := by
      intro x
      rw [hdelete, Table.mem_delete, beq_eq_false_iff_ne]
    refine ⟨?_, fun x hx => h.keyword x ((hmem x).mp hx).1,
      fun x hx => h.collection x ((hmem x).mp hx).1⟩
    intro x
    rw [hmem, inPlace_dropped, ← h.inPlace]
    constructor
    · rintro ⟨hx, hne⟩
      exact ⟨hx, fun hboth => hne hboth.2⟩
    · rintro ⟨hx, hboth⟩
      exact ⟨hx, fun heq => hboth ⟨hown hcoll hname x hx heq, heq⟩⟩

theorem Inv.after (h : Inv sql s) (hown : Own s rq) : Inv sql (s.after sql rq) := by
  cases rq with
  | create coll path unique ulid => exact h.create coll path unique ulid
  | list coll => exact h
  | drop coll name => exact h.drop coll name hown

/-- A drop of another collection's index takes it from the list of that one. -/
theorem not_shown_of_stranger (h : Inv sql s) (hcoll : validName coll = true)
    (hname : validName r.name = true) (hr : r ∈ s.cat.registry.rows)
    (hother : r.collection ≠ coll) : ¬Shown (s.after sql (.drop coll r.name)) := by
  have hreg : registered r.name s.cat = true := registered_iff.mpr ⟨r, hr, rfl⟩
  obtain ⟨hbad, -⟩ | ⟨hnone, -⟩ | ⟨-, -, -, cat', hrun, hdelete⟩ :=
    drop_cases h.keyword coll r.name
  · exact absurd ⟨hcoll, hname⟩ hbad
  · rw [hreg] at hnone
    cases hnone
  · intro hshown
    obtain ⟨rs, hlist, -, hmem⟩ := hshown r.collection (h.collection r hr)
    simp only [State.after, hrun] at hlist hmem
    rw [list, requireValidName_ok "collection" (h.collection r hr), Except.ok.injEq] at hlist
    have hthere : r ∈ rs := by
      rw [hmem, inPlace_dropped]
      exact ⟨rfl, (h.inPlace r).mp hr, fun hboth => hother hboth.1⟩
    rw [← hlist, mem_selectIndexes, hdelete, Table.mem_delete] at hthere
    simp at hthere

/-- The lists stay right, and a drop spares the indexes of others, exactly when the drop is not of
another collection's index. -/
theorem own_iff (h : Inv sql s) (rq : Request) :
    Own s rq ↔ Shown (s.after sql rq) ∧ Spared sql s rq := by
  constructor
  · intro hown
    refine ⟨(h.after hown).shown, ?_⟩
    cases rq with
    | create coll path unique ulid => trivial
    | list coll => trivial
    | drop coll name =>
      intro hcoll hname hnone
      obtain ⟨hbad, -⟩ | ⟨-, hrun⟩ | ⟨-, -, hreg, -⟩ := drop_cases h.keyword coll name
      · exact absurd ⟨hcoll, hname⟩ hbad
      · exact hrun
      · obtain ⟨r, hr, hrname⟩ := registered_iff.mp hreg
        exact absurd hrname (hnone r (mem_selectIndexes.mpr ⟨hr, hown hcoll hname r hr hrname⟩))
  · rintro ⟨hshown, -⟩
    cases rq with
    | create coll path unique ulid => trivial
    | list coll => trivial
    | drop coll name =>
      rintro hcoll hname r hr rfl
      by_contra hother
      exact not_shown_of_stranger h hcoll hname hr hother hshown

/-! ## Runs -/

/-- In a run in which each drop names an index of its own collection or none, every list shows what
its collection has created and not dropped, and a drop of any other name is answered not found. Any
other request breaks one of the two. -/
theorem indexes_stay_inside (h : Reach (requestStep sql) Own .empty s) :
    Shown s ∧ ∀ rq, Own s rq ↔ Shown (s.after sql rq) ∧ Spared sql s rq := by
  have hinv : Inv sql s := by
    refine h.inv (Inv sql) .empty ?_
    intro t rq u ht hown hstep
    rw [requestStep, Option.some.injEq] at hstep
    exact hstep ▸ ht.after hown
  exact ⟨hinv.shown, own_iff hinv⟩

instance (s : State) : (rq : Request) → Decidable (Own s rq)
  | .drop coll name => inferInstanceAs (Decidable (validName coll = true → validName name = true →
      ∀ r ∈ s.cat.registry.rows, r.name = name → r.collection = coll))
  | .create .. => isTrue trivial
  | .list _ => isTrue trivial

def emailName : String := "ix_users_email_000000"

/-- An index of `users` is dropped through the URL of `orders`: the answer is no content, and the
index is gone from the list of `users`. -/
theorem drop_through_other_collection :
    let sql : IndexSql := ⟨fun _ _ => .null, fun _ => false⟩
    let r : IndexRecord := ⟨emailName, "users", "$.email", false⟩
    let s := State.empty.after sql (.create "users" "$.email" false firstUlid)
    let s' := s.after sql (.drop "orders" r.name)
    list "users" s.cat = .ok [r] ∧ (drop sql "orders" r.name s.cat).1 = .ok () ∧
      list "users" s'.cat = .ok [] ∧ ¬Spared sql s (.drop "orders" r.name) ∧ ¬Shown s' := by
  intro sql r s s'
  have hlist : selectIndexes "users" s.cat = [r] := by decide +kernel
  have hnone : selectIndexes "orders" s.cat = [] := by decide +kernel
  have hdrop : (drop sql "orders" r.name s.cat).1 = .ok () := by decide +kernel
  have hgone : selectIndexes "users" s'.cat = [] := by decide +kernel
  have husers : validName "users" = true := by decide
  have horders : validName "orders" = true := by decide
  have hname : validName r.name = true := by decide
  have hmem : r ∈ s.cat.registry.rows := by
    have hfound : r ∈ selectIndexes "users" s.cat := hlist ▸ List.mem_singleton_self r
    exact (mem_selectIndexes.mp hfound).1
  have hinv : Inv sql s := Inv.empty.create "users" "$.email" false firstUlid
  refine ⟨?_, hdrop, ?_, ?_, not_shown_of_stranger hinv horders hname hmem (by decide)⟩
  · rw [list, requireValidName_ok "collection" husers, hlist]
  · rw [list, requireValidName_ok "collection" husers, hgone]
  · intro hspared
    rw [hspared horders hname (by rw [hnone]; exact nofun)] at hdrop
    cases hdrop

/-- An index is created and dropped. -/
theorem indexes_stay_inside_users :
    let sql : IndexSql := ⟨fun _ _ => .null, fun _ => false⟩
    let requests := [Request.create "users" "$.email" false firstUlid, .drop "users" emailName]
    let s := requests.foldl (State.after sql) .empty
    Shown s ∧ selectIndexes "users" s.cat = [] := by
  intro sql requests s
  have hok : Allowed (requestStep sql) Own .empty requests := by decide +kernel
  have hrun : exec (requestStep sql) .empty requests = some s := exec_total _ _ requests
  have hnone : selectIndexes "users" s.cat = [] := by decide +kernel
  have hreach : Reach (requestStep sql) Own .empty s := .of_exec requests hok hrun
  exact ⟨(indexes_stay_inside hreach).1, hnone⟩

end TinyLord.Indexes
