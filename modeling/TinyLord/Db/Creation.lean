import TinyLord.Db.Grouping
import TinyLord.Db.Unique
import TinyLord.Lib.Durable
import TinyLord.Ulid

/-!
# Creating documents in one collection

Of the creates that the writer is asked for, some become documents, and some of these are in the
log. Both are in the order of the creates, in every state that a reader can see.
-/

open Lib.Transaction Lib.Sequence

namespace TinyLord

/-! ## The statement -/

/-- A data op, with the id that it mints if it is a create. -/
structure Minting where
  cmd : Command
  ulid : Ulid
  now : Int
  pageCount : Int
  pageSize : Int

def Minting.op (m : Minting) : Command × Env :=
  (m.cmd, { newId := m.ulid.text, now := m.now, pageCount := m.pageCount, pageSize := m.pageSize })

/-- In the collection the command does nothing but create, and spells its name as it is. -/
def Command.CreatesIn (coll : String) : Command → Prop
  | .create name _ => fold name = fold coll → name = coll
  | cmd => fold cmd.collection ≠ fold coll

/-- The ids of the rows, in the order in which the rows came. -/
def Database.ids (coll : String) (db : Database) : List String := (db.rows coll).map (·.id)

/-- The states that a batch makes durable, in their order. -/
def durableStates (ctx : Ctx) (batch : List (Command × Env)) (conn : Conn Database) :
    List Database :=
  (runBatch ctx batch conn).conn.strays ++ [(runBatch ctx batch conn).conn.committed] ++
    [(processBatch ctx batch conn).conn.committed]

/-- A run of the writer, with what it has minted, the states it has made durable, and the last of
them. In the collection it only creates. -/
inductive CreateRun (coll : String) : List Ulid → List Database → Database → Prop
  | fresh : CreateRun coll [] [.empty] .empty
  | batch {minted : List Ulid} {states : List Database} {D : Database} (ctx : Ctx)
      (batch : List Minting) (faults : List Fault) :
      CreateRun coll minted states D → (∀ m ∈ batch, m.cmd.CreatesIn coll) →
      CreateRun coll (minted ++ batch.map (·.ulid))
        (states ++ durableStates ctx (batch.map (·.op)) (.open D faults))
        (processBatch ctx (batch.map (·.op)) (.open D faults)).conn.committed

/-! ## What a reader sees of the creates -/

/-- The documents and the log, which only grow, and the names of the tables that SQL takes for the
collection's. -/
structure Ledger where
  ids : List String
  log : List ChangelogRow
  names : List String

instance : Preorder Ledger where
  le a b := a.ids <+: b.ids ∧ a.log <+: b.log
  le_refl _ := ⟨List.prefix_refl _, List.prefix_refl _⟩
  le_trans _ _ _ h h' := ⟨h.1.trans h'.1, h.2.trans h'.2⟩

def Database.names (coll : String) (db : Database) : List String :=
  (db.collections.map (·.name)).filter fun name => fold name = fold coll

def Database.ledger (coll : String) (db : Database) : Ledger :=
  ⟨db.ids coll, db.changelog, db.names coll⟩

/-- The documents of the collection in a log. -/
def docsOf (coll : String) (log : List ChangelogRow) : List String :=
  (log.filter fun r => fold r.collection = fold coll).map (·.docId)

/-- To `L` the new documents have come and the new rows of the log, which are of some of them. -/
structure Extends (coll : String) (L : Ledger) (new : List Ulid) (logged : List ChangelogRow)
    (L' : Ledger) : Prop where
  ids : L'.ids = L.ids ++ new.map Ulid.text
  log : L'.log = L.log ++ logged
  docs : (docsOf coll logged).Sublist (new.map Ulid.text)
  above : ∀ r ∈ logged, maxSeq L.log < r.seq
  increasing : Increasing (·.seq) logged

variable {coll : String} {L L' : Ledger} {new : List Ulid} {logged : List ChangelogRow} {u : Ulid}

theorem docsOf_append (coll : String) (log log' : List ChangelogRow) :
    docsOf coll (log ++ log') = docsOf coll log ++ docsOf coll log' := by
  rw [docsOf, List.filter_append, List.map_append]
  rfl

theorem Extends.refl (coll : String) (L : Ledger) : Extends coll L [] [] L :=
  ⟨(List.append_nil _).symm, (List.append_nil _).symm, List.Sublist.refl _, nofun, .nil⟩

theorem Extends.insert (h : Extends coll L new logged L') (u : Ulid) :
    Extends coll L (new ++ [u]) logged { L' with ids := L'.ids ++ [u.text] } where
  ids := by
    rw [h.ids, List.map_append, List.append_assoc]
    rfl
  log := h.log
  docs := by
    rw [List.map_append]
    exact h.docs.trans (List.sublist_append_left _ _)
  above := h.above
  increasing := h.increasing

theorem Extends.record (h : Extends coll L new logged L') (c : Change)
    (hdocs : (docsOf coll (logged ++ [c.row (nextSeq L'.log)])).Sublist (new.map Ulid.text)) :
    Extends coll L new (logged ++ [c.row (nextSeq L'.log)])
      { L' with log := insertChangelog L'.log c } where
  ids := h.ids
  log := by
    rw [← List.append_assoc, ← h.log]
    rfl
  docs := hdocs
  above := by
    rw [List.forall_mem_append, List.forall_mem_singleton]
    refine ⟨h.above, ?_⟩
    have hle : maxSeq L.log ≤ maxSeq L'.log := by
      rw [h.log]
      exact maxKey_le_append h.above
    change _ < nextSeq L'.log
    unfold nextSeq
    omega
  increasing := by
    refine h.increasing.append fun r hr => ?_
    have hmem : r ∈ L'.log := h.log ▸ List.mem_append_right _ hr
    exact lt_nextSeq hmem

/-- A create in the collection has put the document of `u` there, and has not logged it yet. -/
def Extends.Unlogged (coll : String) (L : Ledger) (us : List Ulid) (u : Ulid) (L' : Ledger) :
    Prop :=
  ∃ new logged, (new ++ [u]).Sublist us ∧ Extends coll L (new ++ [u]) logged L' ∧
    (docsOf coll logged).Sublist (new.map Ulid.text)

/-- Some of the ULIDs have become documents. -/
def Extended (coll : String) (L : Ledger) (us : List Ulid) (L' : Ledger) : Prop :=
  ∃ new logged, new.Sublist us ∧ Extends coll L new logged L'

theorem Extends.names (h : Extends coll L new logged L') (names : List String) :
    Extends coll L new logged { L' with names } :=
  ⟨h.ids, h.log, h.docs, h.above, h.increasing⟩

theorem Extended.mono {us us' : List Ulid} (h : Extended coll L us L') (hus : us.Sublist us') :
    Extended coll L us' L' := by
  obtain ⟨new, logged, hnew, hext⟩ := h
  exact ⟨new, logged, hnew.trans hus, hext⟩

/-! ## The statements -/

variable {d d' : Database} {name : String} {us : List Ulid}

theorem names_updateTable (f : List DocRow → List DocRow) (d : Database) (name coll : String) :
    (d.updateTable name f).names coll = d.names coll := by
  unfold Database.names Database.updateTable
  simp only
  congr 1
  induction d.collections with
  | nil => rfl
  | cons t ts ih =>
    rw [updateRows]
    split
    · rfl
    · rw [List.map_cons, List.map_cons, ih]

theorem ledger_ensureCollection (d : Database) (coll : String) :
    ∃ names, (ensureCollection d coll).ledger coll = { d.ledger coll with names } ∧
      ∀ n ∈ names, n ∈ d.names coll ∨ n = coll := by
  refine ⟨(ensureCollection d coll).names coll, ?_, ?_⟩
  · rw [Database.ledger, Database.ids, rows_ensureCollection, ensureCollection_changelog]
    rfl
  · intro n hn
    unfold ensureCollection at hn
    split at hn
    · exact Or.inl hn
    · rw [Database.names, List.map_append, List.filter_append, List.mem_append] at hn
      refine hn.imp_right fun hn => ?_
      exact List.mem_singleton.mp (List.mem_filter.mp hn).1

theorem ledger_ensureCollection_other (d : Database) (hother : fold name ≠ fold coll) :
    (ensureCollection d name).ledger coll = d.ledger coll := by
  have hnames : (ensureCollection d name).names coll = d.names coll := by
    unfold ensureCollection
    split
    · rfl
    · rw [Database.names, List.map_append, List.filter_append]
      simp [Database.names, hother]
  rw [Database.ledger, Database.ids, rows_ensureCollection, ensureCollection_changelog, hnames]
  rfl

theorem ledger_updateTable_other (f : List DocRow → List DocRow) (htable : (d.table name).isSome)
    (hother : fold name ≠ fold coll) : (d.updateTable name f).ledger coll = d.ledger coll := by
  rw [Database.ledger, Database.ids, rows_updateTable f htable, if_neg fun h => hother h.symm,
    names_updateTable]
  rfl

theorem insertDoc_ledger {row : DocRow} {a : Unit} (h : insertDoc coll row d = .ok (a, d')) :
    row.id ∉ d.ids coll ∧
      d'.ledger coll = { d.ledger coll with ids := d.ids coll ++ [row.id] } := by
  obtain ⟨htable, hfresh, rfl⟩ := insertDoc_ok h
  constructor
  · intro hmem
    obtain ⟨r, hr, hid⟩ := List.mem_map.mp hmem
    exact hfresh r hr hid
  · rw [Database.ledger, Database.ids, rows_updateTable _ htable, if_pos rfl,
      List.map_append, names_updateTable]
    rfl

theorem Extended.insert (h : Extended coll L (us ++ [u]) L') (hfresh : u.text ∉ L'.ids) :
    Extends.Unlogged coll L (us ++ [u]) u { L' with ids := L'.ids ++ [u.text] } := by
  obtain ⟨new, logged, hnew, hext⟩ := h
  have hnot : u ∉ new := by
    intro hmem
    apply hfresh
    rw [hext.ids]
    exact List.mem_append_right _ (List.mem_map_of_mem hmem)
  obtain ⟨before, after, rfl, hbefore, hafter⟩ := List.sublist_append_iff.mp hnew
  have hnil : after = [] := by
    rcases List.sublist_singleton.mp hafter with rfl | rfl
    · rfl
    · exact absurd (List.mem_append_right _ (List.mem_singleton_self u)) hnot
  subst hnil
  rw [List.append_nil] at hext
  exact ⟨before, logged, hbefore.append (List.Sublist.refl _), hext.insert u, hext.docs⟩

theorem Extends.Unlogged.extended (h : Extends.Unlogged coll L us u L') :
    Extended coll L us L' := by
  obtain ⟨new, logged, hnew, hext, -⟩ := h
  exact ⟨new ++ [u], logged, hnew, hext⟩

theorem Extends.Unlogged.record (h : Extends.Unlogged coll L us u L') (c : Change)
    (hc : c.docId = u.text) :
    Extended coll L us { L' with log := insertChangelog L'.log c } := by
  obtain ⟨new, logged, hnew, hext, hdocs⟩ := h
  refine ⟨new ++ [u], _, hnew, hext.record c ?_⟩
  rw [docsOf_append, List.map_append]
  refine hdocs.append ?_
  rw [List.map_singleton, ← hc]
  exact List.filter_sublist.map _

theorem Extended.record_other (h : Extended coll L us L') (c : Change)
    (hother : fold c.collection ≠ fold coll) :
    Extended coll L us { L' with log := insertChangelog L'.log c } := by
  obtain ⟨new, logged, hnew, hext⟩ := h
  refine ⟨new, _, hnew, hext.record c ?_⟩
  have hnone : docsOf coll [c.row (nextSeq L'.log)] = [] := by
    simp [docsOf, Change.row, hother]
  rw [docsOf_append, hnone, List.append_nil]
  exact hext.docs

theorem le_insert (L : Ledger) (id : String) : L ≤ { L with ids := L.ids ++ [id] } :=
  ⟨List.prefix_append _ _, List.prefix_refl _⟩

theorem le_record (L : Ledger) (c : Change) :
    L ≤ { L with log := insertChangelog L.log c } :=
  ⟨List.prefix_refl _, List.prefix_append _ _⟩

/-! ## The writer -/

/-- What holds of a state that comes from `L`, and of the names that lead to its table. -/
structure Extending (coll : String) (L : Ledger) (us : List Ulid) (db : Database) : Prop where
  extended : Extended coll L us (db.ledger coll)
  spelled : ∀ name ∈ (db.ledger coll).names, name = coll

variable {ctx : Ctx} {env : Env} {conn : Conn Database}

theorem Extending.mono {us' : List Ulid} (h : Extending coll L us d) (hus : us.Sublist us') :
    Extending coll L us' d :=
  ⟨h.extended.mono hus, h.spelled⟩

theorem climbs_checkDbSize {P : Database → Prop} {μ : Type*} [Preorder μ] {size : Database → μ} :
    Climbs P size (checkDbSize ctx env) := by
  unfold checkDbSize
  split
  · exact .pure ()
  · refine ((Climbs.read _).mapErr _).bind fun pageCount => ?_
    refine ((Climbs.read _).mapErr _).bind fun pageSize => ?_
    dsimp only
    split
    · exact .throw _
    · exact .pure ()

theorem climbs_other {α : Type} {f : Database → Except SqlError (α × Database)}
    (hf : ∀ d a d', f d = .ok (a, d') → d'.ledger coll = d.ledger coll) :
    Climbs (Extending coll L us) (Database.ledger coll) (Sql.write f) := by
  refine Keeps.write fun d a d' hd _ hrun => ?_
  have hsame := hf d a d' hrun
  exact ⟨⟨hsame ▸ hd.extended, hsame ▸ hd.spelled⟩, hsame.ge, trivial⟩

theorem climbs_prepare_other (hother : fold name ≠ fold coll) :
    Climbs (Extending coll L us) (Database.ledger coll) (prepare ctx env name) := by
  refine climbs_checkDbSize.bind fun _ => (climbs_other ?_).mapErr _
  rintro d a d' ⟨⟩
  exact ledger_ensureCollection_other d hother

theorem climbs_prepare :
    Climbs (Extending coll L us) (Database.ledger coll) (prepare ctx env coll) := by
  refine climbs_checkDbSize.bind fun _ => Climbs.mapErr (Keeps.write fun d a d' hd _ hrun => ?_) _
  cases hrun
  obtain ⟨names, hledger, hnames⟩ := ledger_ensureCollection d coll
  obtain ⟨new, logged, hnew, hext⟩ := hd.extended
  refine ⟨⟨?_, ?_⟩, ?_, trivial⟩ <;> rw [hledger]
  · exact ⟨new, logged, hnew, hext.names names⟩
  · exact fun n hn => (hnames n hn).elim (hd.spelled n) id
  · exact ⟨List.prefix_refl _, List.prefix_refl _⟩

theorem keeps_insertDoc {row : DocRow} (hrow : row.id = u.text) :
    Keeps (Extending coll L (us ++ [u])) (Database.ledger coll) (fun _ => True)
      (Sql.write (insertDoc coll row))
      fun _ d => Extends.Unlogged coll L (us ++ [u]) u (d.ledger coll) := by
  refine Keeps.write fun d a d' hd _ hrun => ?_
  obtain ⟨hfresh, hledger⟩ := insertDoc_ledger hrun
  rw [hrow] at hfresh hledger
  have hput := Extended.insert hd.extended hfresh
  refine ⟨⟨?_, ?_⟩, ?_, ?_⟩ <;> rw [hledger]
  · exact hput.extended
  · exact hd.spelled
  · exact le_insert _ _
  · exact hput

theorem keeps_record {c : Change} (hc : c.docId = u.text) :
    Keeps (Extending coll L us) (Database.ledger coll)
      (fun d => Extends.Unlogged coll L us u (d.ledger coll)) (insertChange c)
      fun _ _ => True := by
  refine (Keeps.write fun d a d' hd hpre hrun => ?_).mapErr _
  cases hrun
  exact ⟨⟨hpre.record c hc, hd.spelled⟩, le_record _ c, trivial⟩

theorem climbs_record_other {c : Change} (hother : fold c.collection ≠ fold coll) :
    Climbs (Extending coll L us) (Database.ledger coll) (insertChange c) := by
  refine (Keeps.write fun d a d' hd _ hrun => ?_).mapErr _
  cases hrun
  exact ⟨⟨hd.extended.record_other c hother, hd.spelled⟩, le_record _ c, trivial⟩

theorem climbs_insertDoc_other {row : DocRow} (hother : fold name ≠ fold coll) :
    Climbs (Extending coll L us) (Database.ledger coll) (Sql.write (insertDoc name row)) := by
  refine climbs_other fun d a d' hrun => ?_
  obtain ⟨htable, -, rfl⟩ := insertDoc_ok hrun
  exact ledger_updateTable_other _ htable hother

theorem climbs_doCreate (doc : Json) (henv : env.newId = u.text) :
    Climbs (Extending coll L (us ++ [u])) (Database.ledger coll) (doCreate ctx env coll doc) := by
  refine climbs_prepare.bind fun _ => ?_
  refine ((keeps_insertDoc henv).mapErr _).bind fun _ => ?_
  exact (keeps_record henv).bind fun seq => Climbs.pure _

theorem climbs_doCreate_other (doc : Json) (hother : fold name ≠ fold coll) :
    Climbs (Extending coll L us) (Database.ledger coll) (doCreate ctx env name doc) := by
  refine (climbs_prepare_other hother).bind fun _ => ?_
  refine ((climbs_insertDoc_other hother).mapErr _).bind fun _ => ?_
  exact (climbs_record_other hother).bind fun seq => Climbs.pure _

theorem climbs_doReplace (id : String) (doc : Json) (hother : fold name ≠ fold coll) :
    Climbs (Extending coll L us) (Database.ledger coll) (doReplace ctx env name id doc) := by
  refine (climbs_prepare_other hother).bind fun _ => ?_
  refine (Climbs.read _).toOption.bind fun existing => ?_
  cases existing with
  | none =>
    refine ((climbs_insertDoc_other hother).mapErr _).bind fun _ => ?_
    exact (climbs_record_other hother).bind fun seq => Climbs.pure _
  | some createdAt =>
    refine Climbs.bind ((climbs_other fun d a d' hrun => ?_).mapErr _) fun _ =>
      (climbs_record_other hother).bind fun seq => Climbs.pure _
    obtain ⟨htable, rfl⟩ := updateDoc_ok hrun
    exact ledger_updateTable_other _ htable hother

theorem climbs_doDelete (id : String) (hother : fold name ≠ fold coll) :
    Climbs (Extending coll L us) (Database.ledger coll) (doDelete env name id) := by
  refine ((Climbs.read _).mapErr _).bind fun there => ?_
  split
  · exact .pure _
  · refine Climbs.bind ((climbs_other fun d a d' hrun => ?_).mapErr _) fun changed => ?_
    · obtain ⟨htable, -, rfl⟩ := deleteDoc_ok hrun
      exact ledger_updateTable_other _ htable hother
    · split
      · exact .pure _
      · exact (climbs_record_other hother).bind fun seq => Climbs.pure _

theorem climbs_perform {cmd : Command} (hcmd : cmd.CreatesIn coll) (henv : env.newId = u.text) :
    Climbs (Extending coll L (us ++ [u])) (Database.ledger coll) (perform ctx cmd env) := by
  cases cmd with
  | create name doc =>
    by_cases hname : fold name = fold coll
    · obtain rfl := hcmd hname
      exact (climbs_doCreate doc henv).bind fun r => .pure _
    · exact (climbs_doCreate_other doc hname).bind fun r => .pure _
  | replace name id doc => exact (climbs_doReplace id doc hcmd).bind fun r => .pure _
  | delete name id => exact (climbs_doDelete id hcmd).bind fun ev => .pure _

theorem rises_runOps (us : List Ulid) {batch : List Minting}
    (hbatch : ∀ m ∈ batch, m.cmd.CreatesIn coll)
    (h : conn.Rises (Extending coll L us) (Database.ledger coll)) :
    (runOps ctx (batch.map (·.op)) conn).2.Rises (Extending coll L (us ++ batch.map (·.ulid)))
      (Database.ledger coll) := by
  induction batch generalizing conn us with
  | nil =>
    rw [List.map_nil, List.append_nil]
    exact h
  | cons m batch ih =>
    rw [List.forall_mem_cons] at hbatch
    have hmore : conn.Rises (Extending coll L (us ++ [m.ulid])) (Database.ledger coll) :=
      h.mono fun d hd => hd.mono (List.sublist_append_left _ _)
    have hop : (runOp ctx m.cmd m.op.2 conn).2.Rises (Extending coll L (us ++ [m.ulid]))
        (Database.ledger coll) :=
      runOp_keeps (stable_rises _ _)
        (fun c hc => (climbs_perform hbatch.1 rfl c hc trivial).1) hmore
    have hrest := ih _ hbatch.2 hop
    rw [List.append_assoc] at hrest
    exact hrest

theorem rises_runBatch (ctx : Ctx) {batch : List Minting}
    (hbatch : ∀ m ∈ batch, m.cmd.CreatesIn coll)
    (hspelled : ∀ name ∈ d.names coll, name = coll) (faults : List Fault) :
    (runBatch ctx (batch.map (·.op)) (.open d faults)).conn.Rises
      (Extending coll (d.ledger coll) (batch.map (·.ulid))) (Database.ledger coll) := by
  have hstart : Extending coll (d.ledger coll) [] d :=
    ⟨⟨[], [], List.Sublist.refl _, Extends.refl coll _⟩, hspelled⟩
  refine runBatch_keeps (stable_rises _ _) (stable_rises _ _) ?_
    (fun c hc => rises_runOps [] hbatch hc) (rises_open hstart faults)
  intro c hc
  exact hc.mono fun d hd => hd.mono (List.nil_sublist _)

theorem processBatch_trim (ctx : Ctx) (batch : List (Command × Env)) (conn : Conn Database) :
    let before := (runBatch ctx batch conn).conn.committed
    let after := (processBatch ctx batch conn).conn.committed
    after.collections = before.collections ∧ after.changelog ⊆ before.changelog ∧
      maxSeq after.changelog = maxSeq before.changelog := by
  simp only [processBatch]
  split
  · rcases trim_committed ctx (runBatch ctx batch conn).conn with htrim | htrim
    · rw [htrim]
      exact ⟨rfl, List.Subset.refl _, rfl⟩
    · rw [htrim]
      exact ⟨rfl, fun r hr => (mem_trimChangelog.mp hr).1, maxSeq_trim _ _⟩
  · exact ⟨rfl, List.Subset.refl _, rfl⟩

/-! ## Whole runs -/

/-- What the states of a run have in common: all the rows that the log has ever had, and the
documents, in the same order. -/
structure Chronicle (coll : String) (minted : List Ulid) (states : List Database) (D : Database)
    (all : List ChangelogRow) : Prop where
  here : D ∈ states
  kept : ∃ kept : List Ulid, kept.Sublist minted ∧ D.ids coll = kept.map Ulid.text
  order : states.Pairwise fun S S' => S.ids coll <+: S'.ids coll
  past : ∀ S ∈ states, S.ids coll <+: D.ids coll ∧ S.changelog ⊆ all
  spelled : ∀ S ∈ states, ∀ name ∈ S.names coll, name = coll
  below : ∀ r ∈ all, r.seq ≤ maxSeq D.changelog
  increasing : Increasing (·.seq) all
  docs : (docsOf coll all).Sublist (D.ids coll)

variable {minted : List Ulid} {states : List Database} {D : Database} {all : List ChangelogRow}

theorem Extended.le (h : Extended coll L us L') : L ≤ L' := by
  obtain ⟨new, logged, -, hext⟩ := h
  exact ⟨⟨_, hext.ids.symm⟩, ⟨_, hext.log.symm⟩⟩

theorem chronicle_fresh (coll : String) : Chronicle coll [] [.empty] .empty [] where
  here := List.mem_singleton_self _
  kept := ⟨[], List.Sublist.refl _, rfl⟩
  order := List.pairwise_singleton _ _
  past := by
    rintro S hS
    rw [List.mem_singleton.mp hS]
    exact ⟨List.prefix_refl _, List.Subset.refl _⟩
  spelled := by
    rw [List.forall_mem_singleton]
    exact nofun
  below := nofun
  increasing := .nil
  docs := List.Sublist.refl _

theorem Chronicle.batch (h : Chronicle coll minted states D all) (ctx : Ctx)
    {batch : List Minting} (hbatch : ∀ m ∈ batch, m.cmd.CreatesIn coll) (faults : List Fault) :
    ∃ all', Chronicle coll (minted ++ batch.map (·.ulid))
      (states ++ durableStates ctx (batch.map (·.op)) (.open D faults))
      (processBatch ctx (batch.map (·.op)) (.open D faults)).conn.committed all' := by
  have hrises := rises_runBatch ctx hbatch (h.spelled D h.here) faults
  obtain ⟨hcollections, hlog, hmax⟩ :=
    processBatch_trim ctx (batch.map (·.op)) (.open D faults)
  unfold durableStates
  generalize (processBatch ctx (batch.map (·.op)) (.open D faults)).conn.committed = T
    at hcollections hlog hmax ⊢
  generalize (runBatch ctx (batch.map (·.op)) (.open D faults)).conn = o
    at hrises hcollections hlog hmax ⊢
  obtain ⟨⟨new, logged, hnew, hext⟩, -⟩ := hrises.all.committed
  obtain ⟨kept, hkept, hids⟩ := h.kept
  have hidsF : o.committed.ids coll = D.ids coll ++ new.map Ulid.text := hext.ids
  have hlogF : o.committed.changelog = D.changelog ++ logged := hext.log
  have hidsT : T.ids coll = o.committed.ids coll := by
    rw [Database.ids, Database.rows, Database.table, hcollections]
    rfl
  -- What has become durable before the trim lies between the two ends of the batch.
  have hbetween : ∀ S ∈ o.strays ++ [o.committed],
      D.ledger coll ≤ S.ledger coll ∧ S.ledger coll ≤ o.committed.ledger coll := fun S hS =>
    ⟨(hrises.all.durable hS).extended.le, hrises.order.le_committed hS⟩
  have hmaxF : maxSeq D.changelog ≤ maxSeq o.committed.changelog := by
    rw [hlogF]
    exact maxKey_le_append hext.above
  refine ⟨all ++ logged, ?_, ⟨kept ++ new, hkept.append hnew, ?_⟩, ?_, ?_, ?_, ?_, ?_, ?_⟩
  · simp
  · rw [hidsT, hidsF, hids, List.map_append]
  · refine List.pairwise_append.mpr ⟨h.order, List.pairwise_append.mpr
      ⟨hrises.order.durable.imp And.left, List.pairwise_singleton _ _, ?_⟩, ?_⟩
    · intro S hS S' hS'
      rw [List.mem_singleton.mp hS', hidsT]
      exact (hbetween S hS).2.1
    · intro S hS S' hS'
      refine (h.past S hS).1.trans ?_
      rcases List.mem_append.mp hS' with hS' | hS'
      · exact (hbetween S' hS').1.1
      · rw [List.mem_singleton.mp hS', hidsT, hidsF]
        exact List.prefix_append _ _
  · have hall : o.committed.changelog ⊆ all ++ logged := by
      rw [hlogF, List.append_subset]
      exact ⟨List.subset_append_of_subset_left _ (h.past D h.here).2,
        List.subset_append_right _ _⟩
    rw [List.forall_mem_append, List.forall_mem_append, List.forall_mem_singleton, hidsT]
    refine ⟨fun S hS => ?_, fun S hS => ?_, List.prefix_refl _, List.Subset.trans hlog hall⟩
    · obtain ⟨hpast, hsub⟩ := h.past S hS
      rw [hidsF]
      exact ⟨hpast.trans (List.prefix_append _ _), List.subset_append_of_subset_left _ hsub⟩
    · exact ⟨(hbetween S hS).2.1, List.Subset.trans (hbetween S hS).2.2.subset hall⟩
  · have hnamesT : T.names coll = o.committed.names coll := by
      rw [Database.names, hcollections]
      rfl
    rw [List.forall_mem_append, List.forall_mem_append, List.forall_mem_singleton, hnamesT]
    exact ⟨h.spelled, fun S hS => (hrises.all.durable hS).spelled, hrises.all.committed.spelled⟩
  · rw [List.forall_mem_append, hmax]
    refine ⟨fun r hr => (h.below r hr).trans hmaxF, fun r hr => le_maxKey _ ?_⟩
    rw [hlogF]
    exact List.mem_append_right _ hr
  · refine List.pairwise_append.mpr ⟨h.increasing, hext.increasing, ?_⟩
    intro r hr x hx
    exact (h.below r hr).trans_lt (hext.above x hx)
  · rw [docsOf_append, hidsT, hidsF]
    exact h.docs.append hext.docs

theorem CreateRun.chronicle (h : CreateRun coll minted states D) :
    ∃ all, Chronicle coll minted states D all := by
  induction h with
  | fresh => exact ⟨[], chronicle_fresh coll⟩
  | batch ctx batch faults _ hbatch ih =>
    obtain ⟨all, hall⟩ := ih
    exact hall.batch ctx hbatch faults

theorem CreateRun.uniqueIds (h : CreateRun coll minted states D) : ∀ S ∈ states, UniqueIds S := by
  induction h with
  | fresh =>
    rw [List.forall_mem_singleton]
    exact nofun
  | batch ctx batch faults hrun _ ih =>
    obtain ⟨all, hall⟩ := hrun.chronicle
    have hstart := all_open (ih _ hall.here) faults
    have hbefore : (runBatch ctx (batch.map (·.op)) (.open _ faults)).conn.All UniqueIds :=
      all_runBatch _ hstart
    have hafter : (processBatch ctx (batch.map (·.op)) (.open _ faults)).conn.All UniqueIds :=
      all_processBatch _ hstart
    unfold durableStates
    rw [List.forall_mem_append, List.forall_mem_append, List.forall_mem_singleton]
    exact ⟨ih, fun S hS => hbefore.durable hS, hafter.committed⟩

theorem CreateRun.logged_in_order (h : CreateRun coll minted states D)
    {R : String → String → Prop} (hR : (D.ids coll).Pairwise R) {S S' : Database} (hS : S ∈ states)
    (hS' : S' ∈ states) {l l' : ChangelogRow} (hl : l ∈ S.changelog) (hl' : l' ∈ S'.changelog)
    (hcoll : fold l.collection = fold coll) (hcoll' : fold l'.collection = fold coll)
    (hlt : l.seq < l'.seq) : R l.docId l'.docId := by
  obtain ⟨all, hall⟩ := h.chronicle
  have hdocs := hR.sublist hall.docs
  rw [docsOf, List.pairwise_map] at hdocs
  have hincreasing : Increasing (·.seq) (all.filter fun r => fold r.collection = fold coll) :=
    hall.increasing.filter _
  refine hincreasing.pairwise hdocs (List.mem_filter.mpr ⟨(hall.past S hS).2 hl, ?_⟩)
    (List.mem_filter.mpr ⟨(hall.past S' hS').2 hl', ?_⟩) hlt
  · exact decide_eq_true hcoll
  · exact decide_eq_true hcoll'

end TinyLord
