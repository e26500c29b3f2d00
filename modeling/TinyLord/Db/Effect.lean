import TinyLord.Db.Writer

/-!
# What one op does

`Effect` says what an acknowledged command has done to the database, in terms of its rows and
its log. Each op of the writer has it, when it succeeds inside a transaction.
-/

open Lib.Transaction

namespace TinyLord

/-! ## The statement -/

/-- The rows of one collection of `D` have changed by `f`, and the log has grown by one change,
which is also the event. -/
structure Written (D D' : Database) (coll : String) (f : List DocRow → List DocRow) (c : Change)
    (ev : ChangeEvent) : Prop where
  rows : ∀ n, D'.rows n = if fold n = fold coll then f (D.rows n) else D.rows n
  collections : ∀ n, collectionExists D' n = collectionExists D n
  log : D'.changelog = insertChangelog D.changelog c
  event : ev = c.event (nextSeq D.changelog)

def appendRow (row : DocRow) (rows : List DocRow) : List DocRow := rows ++ [row]

def updateRow (id : String) (doc : Json) (now : Int) (rows : List DocRow) : List DocRow :=
  rows.map fun r => if r.id == id then { r with doc, updatedAt := now } else r

def removeRow (id : String) (rows : List DocRow) : List DocRow := rows.filter fun r => r.id != id

/-- The full effect of a command that was acknowledged with `reply`. -/
def Effect (env : Env) (cmd : Command) (D : Database) (reply : Reply) (ev : ChangeEvent)
    (D' : Database) : Prop :=
  match cmd with
  | .create coll doc =>
    D.find coll env.newId = none ∧
    reply = .created (.ok ⟨env.newId, env.now, env.now, doc⟩) ∧
    Written (ensureCollection D coll) D' coll (appendRow ⟨env.newId, doc, env.now, env.now⟩)
      ⟨coll, .insert, env.newId, some doc, env.now⟩ ev
  | .replace coll id doc =>
    match D.find coll id with
    | none =>
      reply = .replaced (.ok (⟨id, env.now, env.now, doc⟩, true)) ∧
      Written (ensureCollection D coll) D' coll (appendRow ⟨id, doc, env.now, env.now⟩)
        ⟨coll, .insert, id, some doc, env.now⟩ ev
    | some old =>
      reply = .replaced (.ok (⟨id, old.createdAt, env.now, doc⟩, false)) ∧
      Written (ensureCollection D coll) D' coll (updateRow id doc env.now)
        ⟨coll, .update, id, some doc, env.now⟩ ev
  | .delete coll id =>
    D.present coll id ∧ reply = .deleted (.ok true) ∧
    Written D D' coll (removeRow id) ⟨coll, .delete, id, none, env.now⟩ ev

/-! ## The rows and the document -/

variable {db db' : Database} {coll id : String} {env : Env} {ctx : Ctx}

theorem find_none : db.find coll id = none ↔ ∀ r ∈ db.rows coll, r.id ≠ id := by
  simp [Database.find, List.find?_eq_none]

@[simp] theorem find_ensureCollection (db : Database) (name c id : String) :
    (ensureCollection db name).find c id = db.find c id := by
  rw [Database.find, rows_ensureCollection, Database.find]

theorem rows_congr (db : Database) {c n : String} (h : fold c = fold n) : db.rows c = db.rows n := by
  rw [Database.rows, Database.rows, Database.table, Database.table, h]

theorem find_congr (db : Database) {c n : String} (h : fold c = fold n) (x : String) :
    db.find c x = db.find n x := by
  rw [Database.find, Database.find, rows_congr db h]

theorem find_appendRow {row : DocRow} {rows : List DocRow} (x : String)
    (hnew : ∀ r ∈ rows, r.id ≠ row.id) :
    (appendRow row rows).find? (fun r => r.id == x) =
      if x = row.id then some row else rows.find? fun r => r.id == x := by
  rw [appendRow, List.find?_append]
  split
  · subst_vars
    rw [List.find?_eq_none.mpr (by simpa using hnew)]
    simp
  · have hne : (row.id == x) = false := by
      rw [beq_eq_false_iff_ne]
      exact fun h => absurd h.symm (by assumption)
    simp [hne]

theorem find_updateRow (id x : String) (doc : Json) (now : Int) (rows : List DocRow) :
    (updateRow id doc now rows).find? (fun r => r.id == x) =
      if x = id then (rows.find? fun r => r.id == id).map fun r => { r with doc, updatedAt := now }
      else rows.find? fun r => r.id == x := by
  induction rows with
  | nil => simp [updateRow]
  | cons r rows ih =>
    rw [updateRow, List.map_cons, List.find?_cons, ← updateRow, ih, List.find?_cons, List.find?_cons]
    by_cases hx : x = id <;> by_cases hr : r.id = id
    · simp [hr, hx]
    · have hne : (r.id == id) = false := by simpa using hr
      simp [hne, hx]
    · have hne : (id == x) = false := by simpa using fun h : id = x => hx h.symm
      simp [hr, hx, hne]
    · simp [hr, hx]

theorem find_removeRow (id x : String) (rows : List DocRow) :
    (removeRow id rows).find? (fun r => r.id == x) =
      if x = id then none else rows.find? fun r => r.id == x := by
  rw [removeRow, List.find?_filter]
  split
  · subst_vars
    rw [List.find?_eq_none]
    simp
  · congr 1
    funext r
    by_cases hr : r.id = x <;> simp [*]

theorem Written.find {D D' : Database} {f : List DocRow → List DocRow} {c : Change}
    {ev : ChangeEvent} (h : Written D D' coll f c ev) (n x : String) :
    D'.find n x = if fold n = fold coll then (f (D.rows n)).find? (fun r => r.id == x)
      else D.find n x := by
  rw [Database.find, h.rows]
  split <;> rfl

theorem written_of_updateTable {f : List DocRow → List DocRow} (c : Change)
    (h : (db.table coll).isSome) :
    Written db { db.updateTable coll f with
        changelog := insertChangelog (db.updateTable coll f).changelog c } coll f c
      (c.event (nextSeq (db.updateTable coll f).changelog)) := by
  refine ⟨?_, ?_, rfl, rfl⟩
  · intro n
    exact rows_updateTable f h
  · intro n
    exact exists_updateTable f

/-! ## The ops inside a transaction -/

theorem checkDbSize_spec : Spec (checkDbSize ctx env) fun d _ d' => d' = d := by
  unfold checkDbSize
  split
  · exact (Spec.pure ()).mono fun _ _ _ h => h.2
  · have hcheck : ∀ n : Nat, Spec (if ctx.maxDatabaseBytes ≤ n then
        Sql.throw (ApiError.payloadTooLarge "database size limit reached") else pure ())
        fun (d : Database) (_ : Unit) d' => d' = d := by
      intro n
      split
      · exact Spec.throw _ _
      · exact (Spec.pure ()).mono fun _ _ _ h => h.2
    refine Spec.mono (Spec.bind ((Spec.read _).mapErr _) fun pageCount =>
      Spec.bind ((Spec.read _).mapErr _) fun pageSize => hcheck _) ?_
    rintro d _ d' ⟨_, m, ⟨-, rfl⟩, _, m', ⟨-, rfl⟩, rfl⟩
    rfl

theorem insertChange_spec (c : Change) :
    Spec (insertChange c) fun d seq d' =>
      seq = nextSeq d.changelog ∧ d' = { d with changelog := insertChangelog d.changelog c } := by
  refine ((Spec.write _).mapErr _).mono ?_
  intro d seq d' h
  simp only [logChange, Except.ok.injEq, Prod.mk.injEq] at h
  exact ⟨h.1.symm, h.2.symm⟩

theorem prepare_spec (coll : String) :
    Spec (prepare ctx env coll) fun d _ d' => d' = ensureCollection d coll := by
  refine Spec.mono (Spec.bind checkDbSize_spec fun _ => (Spec.write _).mapErr _) ?_
  rintro d _ d' ⟨_, m, rfl, h⟩
  simp only [Except.ok.injEq, Prod.mk.injEq, true_and] at h
  exact h.symm

theorem doCreate_spec (coll : String) (doc : Json) :
    Spec (doCreate ctx env coll doc) fun d r d' =>
      Effect env (.create coll doc) d (.created (.ok r.1)) r.2 d' := by
  refine Spec.mono (Spec.bind (prepare_spec coll) fun _ => Spec.bind ((Spec.write _).mapErr _)
    fun _ => Spec.bind (insertChange_spec _) fun seq => Spec.pure _) ?_
  rintro d r d' ⟨_, m, rfl, _, m', hins, seq, m'', ⟨rfl, rfl⟩, rfl, rfl⟩
  obtain ⟨htable, hnew, rfl⟩ := insertDoc_ok hins
  refine ⟨?_, rfl, written_of_updateTable _ htable⟩
  rw [← find_ensureCollection d coll, find_none]
  exact hnew

/-- What the rest of a replace does, by what the lookup has found. -/
def Upserted (env : Env) (coll id : String) (doc : Json) (existing : Option Int) (d : Database)
    (r : DocRecord × Bool × ChangeEvent) (d' : Database) : Prop :=
  match existing with
  | none =>
    d.find coll id = none ∧ r.1 = ⟨id, env.now, env.now, doc⟩ ∧ r.2.1 = true ∧
    Written d d' coll (appendRow ⟨id, doc, env.now, env.now⟩)
      ⟨coll, .insert, id, some doc, env.now⟩ r.2.2
  | some createdAt =>
    r.1 = ⟨id, createdAt, env.now, doc⟩ ∧ r.2.1 = false ∧
    Written d d' coll (updateRow id doc env.now) ⟨coll, .update, id, some doc, env.now⟩ r.2.2

theorem logReplace_spec (coll id : String) (doc : Json) (created : Bool) (createdAt : Int)
    (op : Op) : Spec (logReplace env coll id doc created createdAt op) fun d r d' =>
      let change : Change := ⟨coll, op, id, some doc, env.now⟩
      r = (⟨id, createdAt, env.now, doc⟩, created, change.event (nextSeq d.changelog)) ∧
        d' = { d with changelog := insertChangelog d.changelog change } := by
  refine Spec.mono (Spec.bind (insertChange_spec _) fun seq => Spec.pure _) ?_
  rintro d r d' ⟨_, m, ⟨rfl, rfl⟩, rfl, rfl⟩
  exact ⟨rfl, rfl⟩

theorem upsert_spec (coll id : String) (doc : Json) (existing : Option Int) :
    Spec (upsert env coll id doc existing) (Upserted env coll id doc existing) := by
  cases existing with
  | none =>
    refine Spec.mono (Spec.bind ((Spec.write _).mapErr _) fun _ => logReplace_spec _ _ _ _ _ _) ?_
    rintro d r d' ⟨_, m, hins, rfl, rfl⟩
    obtain ⟨htable, hnew, rfl⟩ := insertDoc_ok hins
    exact ⟨find_none.mpr hnew, rfl, rfl, written_of_updateTable _ htable⟩
  | some createdAt =>
    refine Spec.mono (Spec.bind ((Spec.write _).mapErr _) fun _ => logReplace_spec _ _ _ _ _ _) ?_
    rintro d r d' ⟨_, m, hupd, rfl, rfl⟩
    obtain ⟨htable, rfl⟩ := updateDoc_ok hupd
    exact ⟨rfl, rfl, written_of_updateTable _ htable⟩

theorem doDelete_spec (coll id : String) :
    Spec (doDelete env coll id) fun d r d' =>
      match r with
      | none => d.present coll id = false ∧ d' = d
      | some ev => Effect env (.delete coll id) d (.deleted (.ok true)) ev d' := by
  unfold doDelete
  refine Spec.mono (Spec.bind (P := fun d there d' => there = collectionExists d coll ∧ d' = d)
    (Q := fun there d r d' => match r with
      | none => (there = false ∨ d.find coll id = none) ∧ d' = d
      | some ev => there = true ∧ (d.find coll id).isSome ∧
        Written d d' coll (removeRow id) ⟨coll, .delete, id, none, env.now⟩ ev) ?_ ?_) ?_
  · refine ((Spec.read _).mapErr _).mono ?_
    rintro d there d' ⟨h, rfl⟩
    simp only [Except.ok.injEq] at h
    exact ⟨h.symm, rfl⟩
  · intro there
    cases there with
    | false =>
      refine (Spec.pure _).mono ?_
      rintro d r d' ⟨rfl, rfl⟩
      exact ⟨Or.inl rfl, rfl⟩
    | true =>
      refine Spec.mono (Spec.bind ((Spec.write _).mapErr _) fun changed =>
        (?_ : Spec _ fun d r d' => match r with
          | none => changed = 0 ∧ d' = d
          | some ev => changed ≠ 0 ∧ ev = (⟨coll, .delete, id, none, env.now⟩ : Change).event
              (nextSeq d.changelog) ∧ d' = { d with
                changelog := insertChangelog d.changelog ⟨coll, .delete, id, none, env.now⟩ })) ?_
      · split_ifs with hzero
        · refine (Spec.pure _).mono ?_
          rintro d r d' ⟨rfl, rfl⟩
          exact ⟨hzero, rfl⟩
        · refine Spec.mono (Spec.bind (insertChange_spec _) fun seq => Spec.pure _) ?_
          rintro d r d' ⟨_, m, ⟨rfl, rfl⟩, rfl, rfl⟩
          exact ⟨hzero, rfl, rfl⟩
      · rintro d r d' ⟨changed, m, hdel, hrest⟩
        obtain ⟨htable, rfl, rfl⟩ := deleteDoc_ok hdel
        have hfind : (d.rows coll).countP (·.id == id) = 0 ↔ d.find coll id = none := by
          rw [List.countP_eq_zero, find_none]
          simp
        cases r with
        | none =>
          obtain ⟨hzero, rfl⟩ := hrest
          refine ⟨Or.inr (hfind.mp hzero), updateTable_self htable ?_⟩
          rw [List.filter_eq_self]
          intro r hr
          have := find_none.mp (hfind.mp hzero) r hr
          simpa using this
        | some ev =>
          obtain ⟨hzero, rfl, rfl⟩ := hrest
          refine ⟨rfl, ?_, written_of_updateTable _ htable⟩
          rw [Option.isSome_iff_ne_none]
          exact fun h => hzero (hfind.mpr h)
  · rintro d r d' ⟨there, m, ⟨rfl, rfl⟩, h⟩
    cases r with
    | none =>
      obtain ⟨hnot, rfl⟩ := h
      refine ⟨?_, rfl⟩
      rcases hnot with hnot | hnot <;> simp [Database.present, hnot]
    | some ev =>
      obtain ⟨hthere, hfound, hwritten⟩ := h
      exact ⟨by simp [Database.present, hthere, hfound], rfl, hwritten⟩

/-! ## An op that has lost its transaction -/

def totalRows (db : Database) : Nat := (db.collections.map fun t => t.rows.length).sum

theorem totalRows_append (row : DocRow) (h : (db.table coll).isSome) :
    totalRows (db.updateTable coll (· ++ [row])) = totalRows db + 1 := by
  obtain ⟨cs, log⟩ := db
  simp only [totalRows, Database.updateTable]
  simp only [Database.table] at h
  induction cs with
  | nil => simp at h
  | cons t ts ih =>
    rw [updateRows]
    by_cases hn : fold t.name = fold coll
    · simp only [hn, if_true, List.map_cons, List.sum_cons, List.length_append,
        List.length_singleton]
      omega
    · simp only [hn, decide_false, Bool.false_eq_true, not_false_eq_true, List.find?_cons_of_neg,
        if_false, List.map_cons, List.sum_cons] at h ⊢
      rw [ih h]
      omega

/-- A document has come to a table, and no change to the log. -/
def Strayed (d d' : Database) : Prop :=
  ∃ coll row, (d.table coll).isSome ∧ (∀ r ∈ d.rows coll, r.id ≠ row.id) ∧
    d' = d.updateTable coll (appendRow row)

theorem Strayed.changelog {d d' : Database} (h : Strayed d d') : d'.changelog = d.changelog := by
  obtain ⟨coll, row, -, -, rfl⟩ := h
  exact updateTable_changelog ..

theorem Strayed.totalRows {d d' : Database} (h : Strayed d d') : totalRows d' = totalRows d + 1 := by
  obtain ⟨coll, row, htable, -, rfl⟩ := h
  exact totalRows_append row htable

theorem ensureCollection_of_table (h : (db.table coll).isSome) : ensureCollection db coll = db := by
  obtain ⟨t, ht⟩ := Option.isSome_iff_exists.mp h
  rw [ensureCollection, ht]

theorem upsert_autonomous (coll id : String) (doc : Json) :
    Autonomous (upsert env coll id doc none)
      (fun d r d' => Effect env (.replace coll id doc) d (.replaced (.ok (r.1, r.2.1))) r.2.2 d')
      fun d d' => d' = d ∨ Strayed d d' := by
  have hinsert : Autonomous ((Sql.write (insertDoc coll
      ⟨id, doc, env.now, env.now⟩)).mapErr mapSqliteErr) _ _ := (Autonomous.write _).mapErr _
  have hlog : ∀ c, Autonomous (insertChange c) _ _ := fun c => (Autonomous.write _).mapErr _
  refine Autonomous.mono (Autonomous.bind hinsert fun _ =>
    Autonomous.bind (hlog _) fun _ => Autonomous.pure _) ?_ ?_
  · rintro d r d' ⟨_, m, hins, seq, m', hseq, rfl, rfl⟩
    obtain ⟨htable, hnew, rfl⟩ := insertDoc_ok hins
    simp only [logChange, Except.ok.injEq, Prod.mk.injEq] at hseq
    obtain ⟨rfl, rfl⟩ := hseq
    simp only [Effect, find_none.mpr hnew, ensureCollection_of_table htable]
    exact ⟨trivial, written_of_updateTable _ htable⟩
  · rintro d d' (rfl | ⟨_, m, hins, rfl | ⟨_, _, _, h⟩⟩)
    · exact Or.inl rfl
    · obtain ⟨htable, hnew, rfl⟩ := insertDoc_ok hins
      exact Or.inr ⟨coll, _, htable, hnew, rfl⟩
    · exact h.elim

theorem doReplace_loose (coll id : String) (doc : Json) :
    Loose (doReplace ctx env coll id doc) fun d r d' =>
      Effect env (.replace coll id doc) d (.replaced (.ok (r.1, r.2.1))) r.2.2 d' := by
  refine Loose.mono (Loose.bind (prepare_spec coll) fun _ => Loose.read_toOption
    (fun o => (upsert_spec coll id doc o).loose) (upsert_autonomous coll id doc)) ?_
  rintro d ⟨rec, created, ev⟩ d' ⟨_, m, rfl, existing, hsome, hup⟩
  simp only [Effect]
  cases existing with
  | none =>
    obtain ⟨hnone, rfl, rfl, hwritten⟩ := hup
    rw [find_ensureCollection] at hnone
    rw [hnone]
    exact ⟨rfl, hwritten⟩
  | some createdAt =>
    obtain ⟨old, hfind, rfl⟩ := selectCreatedAt_ok (hsome createdAt rfl)
    obtain ⟨rfl, rfl, hwritten⟩ := hup
    rw [find_ensureCollection] at hfind
    rw [hfind]
    exact ⟨rfl, hwritten⟩

/-- What the op of a command does when it succeeds. -/
def Performed (env : Env) (cmd : Command) (d : Database) (r : Option (Reply × ChangeEvent))
    (d' : Database) : Prop :=
  match r with
  | some (reply, ev) => Effect env cmd d reply ev d'
  | none => ∃ coll id, cmd = .delete coll id ∧ d.present coll id = false ∧ d' = d

theorem perform_loose (ctx : Ctx) (env : Env) (cmd : Command) :
    Loose (perform ctx cmd env) (Performed env cmd) := by
  cases cmd with
  | create coll doc =>
    refine ((doCreate_spec coll doc).loose.map _).mono ?_
    rintro d _ d' ⟨r, rfl, h⟩
    exact h
  | replace coll id doc =>
    refine ((doReplace_loose coll id doc).map _).mono ?_
    rintro d _ d' ⟨r, rfl, h⟩
    exact h
  | delete coll id =>
    refine ((doDelete_spec coll id).loose.map _).mono ?_
    rintro d _ d' ⟨r, rfl, h⟩
    cases r with
    | none => exact ⟨coll, id, rfl, h⟩
    | some ev => exact h

/-- Only a replace goes on when its transaction is gone. -/
theorem perform_parted (ctx : Ctx) (env : Env) (cmd : Command) :
    Parted (perform ctx cmd env)
      (fun d r d' => ∃ reply ev, r = some (reply, ev) ∧ Effect env cmd d reply ev d')
      fun d d' => d' = d ∨ Strayed d d' := by
  cases cmd with
  | create coll doc =>
    refine ((((doCreate_spec coll doc).parted fun _ => Or.inl rfl :
      Parted _ (fun _ _ _ => False) _)).map _).mono ?_ fun _ _ h => h
    rintro d _ d' ⟨_, -, h⟩
    exact h.elim
  | replace coll id doc =>
    have hrest : ∀ o, Parted (upsert env coll id doc o)
        (fun d r d' => Effect env (.replace coll id doc) d (.replaced (.ok (r.1, r.2.1))) r.2.2 d')
        fun d d' => d' = d ∨ Strayed d d' :=
      fun o => (upsert_spec coll id doc o).parted fun _ => Or.inl rfl
    have hprepare : Spec (prepare ctx env coll) _ := prepare_spec coll
    have hreplace := Parted.bind hprepare
      (fun _ => Parted.read_toOption (f := selectCreatedAt coll id) hrest
        (upsert_autonomous coll id doc)) fun _ => Or.inl rfl
    refine (Parted.map hreplace _).mono ?_ fun _ _ h => h
    rintro d _ d' ⟨r, rfl, h⟩
    exact ⟨_, _, rfl, h⟩
  | delete coll id =>
    refine ((((doDelete_spec coll id).parted fun _ => Or.inl rfl :
      Parted _ (fun _ _ _ => False) _)).map _).mono ?_ fun _ _ h => h
    rintro d _ d' ⟨_, -, h⟩
    exact h.elim

/-! ## What an op sees -/

theorem insertChange_uniform (c : Change) : Uniform (insertChange c) :=
  (Uniform.write _).mapErr _

theorem checkDbSize_uniform : Uniform (checkDbSize ctx env) := by
  unfold checkDbSize
  split
  · exact Uniform.pure ()
  · refine Uniform.bind ((Uniform.read _).mapErr _) fun _ =>
      Uniform.bind ((Uniform.read _).mapErr _) fun _ => ?_
    dsimp only
    split
    · exact Uniform.throw _
    · exact Uniform.pure ()

theorem prepare_uniform (coll : String) : Uniform (prepare ctx env coll) :=
  checkDbSize_uniform.bind fun _ => (Uniform.write _).mapErr _

theorem doCreate_uniform (coll : String) (doc : Json) : Uniform (doCreate ctx env coll doc) :=
  (prepare_uniform coll).bind fun _ => ((Uniform.write _).mapErr _).bind fun _ =>
    (insertChange_uniform _).bind fun _ => Uniform.pure _

theorem logReplace_uniform (coll id : String) (doc : Json) (created : Bool) (createdAt : Int)
    (op : Op) : Uniform (logReplace env coll id doc created createdAt op) :=
  (insertChange_uniform _).bind fun _ => Uniform.pure _

theorem upsert_uniform (coll id : String) (doc : Json) (existing : Option Int) :
    Uniform (upsert env coll id doc existing) := by
  cases existing with
  | none | some createdAt =>
    exact ((Uniform.write _).mapErr _).bind fun _ => logReplace_uniform _ _ _ _ _ _

theorem doReplace_uniform (coll id : String) (doc : Json) :
    Uniform (doReplace ctx env coll id doc) :=
  (prepare_uniform coll).bind fun _ => (Uniform.read _).toOption.bind fun existing =>
    upsert_uniform coll id doc existing

theorem doDelete_uniform (coll id : String) : Uniform (doDelete env coll id) := by
  refine ((Uniform.read _).mapErr _).bind fun there => ?_
  split
  · exact Uniform.pure _
  · refine ((Uniform.write _).mapErr _).bind fun changed => ?_
    split
    · exact Uniform.pure _
    · exact (insertChange_uniform _).bind fun _ => Uniform.pure _

theorem perform_uniform (ctx : Ctx) (env : Env) (cmd : Command) :
    Uniform (perform ctx cmd env) := by
  cases cmd with
  | create coll doc => exact (doCreate_uniform coll doc).bind fun _ => Uniform.pure _
  | replace coll id doc => exact (doReplace_uniform coll id doc).bind fun _ => Uniform.pure _
  | delete coll id => exact (doDelete_uniform coll id).bind fun _ => Uniform.pure _

end TinyLord
