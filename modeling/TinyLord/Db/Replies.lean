import TinyLord.Db.Effect
import TinyLord.Lib.Savepoint

/-!
# Do the replies of a batch tell the truth

A batch tells the truth when its acknowledged ops, in order, lead from the database before it
to the database after it, one logged change and one event each, and every other op has done
nothing.
-/

open Lib.Transaction

namespace TinyLord

/-! ## The statement -/

/-- From `D`, the acknowledged ops of the batch take effect one after the other and reach the last
database, with one event each. An error has no effect. A document answered as not found is not
there at that point. -/
inductive Serial : Database → List (Command × Env) → List Reply → List ChangeEvent → Database → Prop
  | nil (D : Database) : Serial D [] [] [] D
  | failed {D D' cmd env rest replies evs} (e : ApiError) :
      Serial D rest replies evs D' →
      Serial D ((cmd, env) :: rest) (cmd.error e :: replies) evs D'
  | missed {D D' coll id env rest replies evs} :
      D.present coll id = false → Serial D rest replies evs D' →
      Serial D ((.delete coll id, env) :: rest) (.deleted (.ok false) :: replies) evs D'
  | acked {D D₁ D' cmd env rest reply replies ev evs} :
      Effect env cmd D reply ev D₁ → Serial D₁ rest replies evs D' →
      Serial D ((cmd, env) :: rest) (reply :: replies) (ev :: evs) D'

def Truthful (D : Database) (batch : List (Command × Env)) (o : Outcome) : Prop :=
  Serial D batch o.replies o.events o.conn.committed

/-! ## When the replies are right -/

/-- The document that a Delete has not found. -/
def missedBy {ε α : Type} (r : Except ε (Option α)) (cmd : Command) : List (String × String) :=
  match r, cmd with
  | .ok none, .delete coll id => [(coll, id)]
  | _, _ => []

def misses (ctx : Ctx) (cmd : Command) (env : Env) (conn : Conn Database) :
    List (String × String) :=
  match conn.savepoint with
  | (false, _) => []
  | (true, conn) => missedBy (perform ctx cmd env conn).1 cmd

def missed (ctx : Ctx) : List (Command × Env) → Conn Database → List (String × String)
  | [], _ => []
  | (cmd, env) :: rest, conn =>
    misses ctx cmd env conn ++ missed ctx rest (runOp ctx cmd env conn).2

/-! ## What a finisher answers -/

variable {ctx : Ctx} {cmd : Command} {env : Env} {conn conn' : Conn Database} {D D' : Database}
  {faults : List Fault} {batch : List (Command × Env)} {replies : List Reply} {evs : List ChangeEvent}

theorem perform_none (h : (perform ctx cmd env conn).1 = .ok none) :
    ∃ coll id, cmd = .delete coll id := by
  unfold perform at h
  cases cmd with
  | create coll doc =>
    simp only [bind_apply] at h
    split at h <;> simp [Pure.pure] at h
  | replace coll id doc =>
    simp only [bind_apply] at h
    split at h <;> simp [Pure.pure] at h
  | delete coll id => exact ⟨coll, id, rfl⟩

theorem runOp_finish (ctx : Ctx) (cmd : Command) (env : Env) (conn : Conn Database) :
    (misses ctx cmd env conn = [] ∧ ∃ e, (runOp ctx cmd env conn).1 false = (cmd.error e, none)) ∨
    (∃ coll id, cmd = .delete coll id ∧ misses ctx cmd env conn = [(coll, id)] ∧
      (runOp ctx cmd env conn).1 = onMissed) := by
  unfold runOp misses
  rcases hsp : conn.savepoint with ⟨_ | _, conn₁⟩
  · exact Or.inl ⟨rfl, _, rfl⟩
  · simp only [applyOp]
    rcases hp : perform ctx cmd env conn₁ with ⟨e | _ | ⟨reply, ev⟩, conn₂⟩
    · refine Or.inl ⟨rfl, e, ?_⟩
      simp only [closeOp]
      rcases conn₂.rollbackTo with ⟨_ | _, conn₃⟩ <;> rfl
    · obtain ⟨coll, id, rfl⟩ := perform_none
        (show (perform ctx cmd env conn₁).1 = .ok none by rw [hp])
      exact Or.inr ⟨coll, id, rfl, rfl, rfl⟩
    · exact Or.inl ⟨rfl, .internal, rfl⟩

theorem Command.error_ne_missed (cmd : Command) (e : ApiError) :
    cmd.error e ≠ .deleted (.ok false) := by
  cases cmd <;> simp [Command.error]

theorem Serial.eq_of_no_event (h : Serial D batch replies [] D') : D' = D := by
  generalize hevs : ([] : List ChangeEvent) = evs at h
  induction h with
  | nil D => rfl
  | failed e _ ih => exact ih hevs
  | missed _ _ ih => exact ih hevs
  | acked _ _ _ => simp at hevs

/-- The answers of a batch that is not committed are true exactly when the documents its Deletes
missed are not in the database. -/
theorem rolledBack_serial (ctx : Ctx) (batch : List (Command × Env)) (conn : Conn Database)
    (D : Database) :
    Serial D batch ((runOps ctx batch conn).1.map fun finish => (finish false).1) [] D ↔
      ∀ p ∈ missed ctx batch conn, D.present p.1 p.2 = false := by
  induction batch generalizing conn with
  | nil => simp [runOps, missed, Serial.nil]
  | cons op rest ih =>
    obtain ⟨cmd, env⟩ := op
    simp only [runOps, missed, List.map_cons]
    rcases runOp_finish ctx cmd env conn with ⟨hm, e, he⟩ | ⟨coll, id, rfl, hm, hf⟩
    · rw [hm, he, List.nil_append, ← ih]
      constructor
      · intro h
        generalize hr : cmd.error e = reply at h
        cases h with
        | failed _ h => exact h
        | missed _ _ => exact absurd hr (Command.error_ne_missed _ e)
      · exact .failed e
    · rw [hm, hf, List.singleton_append, List.forall_mem_cons, ← ih]
      constructor
      · intro h
        cases h with
        | missed hp h => exact ⟨hp, h⟩
      · rintro ⟨hp, h⟩
        exact .missed hp h

theorem rolledBack_events (ctx : Ctx) (batch : List (Command × Env)) (conn : Conn Database) :
    ((runOps ctx batch conn).1.filterMap fun finish => (finish false).2) = [] := by
  induction batch generalizing conn with
  | nil => rfl
  | cons op rest ih =>
    obtain ⟨cmd, env⟩ := op
    simp only [runOps]
    rcases runOp_finish ctx cmd env conn with ⟨-, e, he⟩ | ⟨coll, id, -, -, hf⟩
    · rw [List.filterMap_cons_none (by rw [he]), ih]
    · rw [List.filterMap_cons_none (by rw [hf]; rfl), ih]

/-! ## One op, by whether the batch's transaction is open -/

theorem closeOp_adrift {r : OpResult × Conn Database} (h : Adrift faults r.2) :
    Adrift faults (closeOp r).2 := by
  obtain ⟨outcome, conn⟩ := r
  cases outcome with
  | success finish => exact h.release
  | failed finish =>
    have hback := h.rollbackTo
    simp only [closeOp]
    rcases hr : conn.rollbackTo with ⟨_ | _, conn₁⟩ <;> rw [hr] at hback
    · exact hback
    · exact hback.release

theorem applyOp_conn (ctx : Ctx) (cmd : Command) (env : Env) (conn : Conn Database) :
    (applyOp ctx cmd env conn).2 = (perform ctx cmd env conn).2 := by
  unfold applyOp
  rcases perform ctx cmd env conn with ⟨e | _ | ⟨reply, ev⟩, conn₁⟩ <;> rfl

theorem runOp_anchored {t : Txn Database} (h : Anchored D faults conn t) (ctx : Ctx) (cmd : Command)
    (env : Env) :
    (∃ t', Anchored D faults (runOp ctx cmd env conn).2 t' ∧
      ∀ rest replies evs D', Serial t'.work rest replies evs D' →
        Serial t.work ((cmd, env) :: rest) (((runOp ctx cmd env conn).1 true).1 :: replies)
          (((runOp ctx cmd env conn).1 true).2.toList ++ evs) D') ∨
    Adrift faults (runOp ctx cmd env conn).2 := by
  unfold runOp
  rcases hsp : conn.savepoint with ⟨_ | _, conn₁⟩
  · have hcases := h.savepoint
    simp only [hsp, Bool.false_eq_true, false_and, true_and, false_or] at hcases
    rcases hcases with hanch | hadr
    · exact Or.inl ⟨t, hanch, fun _ _ _ _ hs => .failed _ hs⟩
    · exact Or.inr hadr
  · have hcases := h.savepoint
    simp only [hsp, Bool.true_eq_false, false_and, true_and, or_false] at hcases
    rcases perform_loose ctx env cmd conn₁ _ hcases.txn with
      ⟨fs, r, w, hfs, hrun, hpost⟩ | ⟨fs, e, w, hfs, hrun⟩ | ⟨hroll, hlost⟩
    · -- The op succeeds. Its savepoint is released, or stays as one more mark.
      simp only [applyOp, hrun]
      rcases r with _ | ⟨reply, ev⟩
      · obtain ⟨coll, id, rfl, hp, rfl⟩ := hpost
        rcases (hcases.inTxn t.work hfs).release with ⟨ms, hms⟩ | hadr
        · exact Or.inl ⟨_, hms, fun _ _ _ _ hs => .missed hp hs⟩
        · exact Or.inr hadr
      · rcases (hcases.inTxn w hfs).release with ⟨ms, hms⟩ | hadr
        · exact Or.inl ⟨_, hms, fun _ _ _ _ hs => .acked hpost hs⟩
        · exact Or.inr hadr
    · -- The op fails. Going back to its savepoint undoes what it has done.
      obtain ⟨conn₂, hback, hanch⟩ := (hcases.inTxn w hfs).rollbackTo rfl
      simp only [applyOp, hrun, closeOp, hback]
      rcases hanch.release with ⟨ms, hms⟩ | hadr
      · exact Or.inl ⟨_, hms, fun _ _ _ _ hs => .failed _ hs⟩
      · exact Or.inr hadr
    · -- The transaction is gone.
      refine Or.inr (closeOp_adrift (hcases.adrift hroll ?_))
      rw [applyOp_conn]
      exact hlost

theorem runOp_adrift (h : Adrift faults conn) (ctx : Ctx) (cmd : Command) (env : Env) :
    Adrift faults (runOp ctx cmd env conn).2 := by
  have hsave := h.savepoint
  unfold runOp
  rcases hsp : conn.savepoint with ⟨_ | _, conn₁⟩ <;> rw [hsp] at hsave
  · exact hsave
  · obtain ⟨t, ht⟩ := savepoint_txn hsp
    refine closeOp_adrift ?_
    rw [applyOp_conn]
    rcases perform_loose ctx env cmd conn₁ t ht with
      ⟨fs, r, w, -, hrun, -⟩ | ⟨fs, e, w, -, hrun⟩ | ⟨-, hlost⟩
    · rw [hrun]
      exact hsave.inTxn ht w fs
    · rw [hrun]
      exact hsave.inTxn ht w fs
    · exact hsave.lost hlost

/-! ## The whole batch -/

theorem runOps_adrift (h : Adrift faults conn) (ctx : Ctx)
    (batch : List (Command × Env)) :
    Adrift faults (runOps ctx batch conn).2 := by
  induction batch generalizing conn with
  | nil => exact h
  | cons op rest ih => exact ih (runOp_adrift h ctx op.1 op.2)

theorem runOps_anchored {t : Txn Database} (h : Anchored D faults conn t) (ctx : Ctx)
    (batch : List (Command × Env)) :
    (∃ t', Anchored D faults (runOps ctx batch conn).2 t' ∧
      Serial t.work batch ((runOps ctx batch conn).1.map fun finish => (finish true).1)
        ((runOps ctx batch conn).1.filterMap fun finish => (finish true).2) t'.work) ∨
    Adrift faults (runOps ctx batch conn).2 := by
  induction batch generalizing conn t with
  | nil => exact Or.inl ⟨t, h, .nil _⟩
  | cons op rest ih =>
    obtain ⟨cmd, env⟩ := op
    simp only [runOps]
    rcases runOp_anchored h ctx cmd env with ⟨t₁, h₁, hone⟩ | hadr
    · rcases ih h₁ with ⟨t', h', hrest⟩ | hadr
      · refine Or.inl ⟨t', h', ?_⟩
        have hone := hone _ _ _ _ hrest
        rw [List.map_cons, List.filterMap_cons]
        cases hev : ((runOp ctx cmd env conn).1 true).2 <;> rw [hev] at hone <;> exact hone
      · exact Or.inr hadr
    · exact Or.inr (runOps_adrift hadr ctx rest)

theorem runOps_append (ctx : Ctx) (before after : List (Command × Env)) (conn : Conn Database) :
    runOps ctx (before ++ after) conn =
      ((runOps ctx before conn).1 ++ (runOps ctx after (runOps ctx before conn).2).1,
        (runOps ctx after (runOps ctx before conn).2).2) := by
  induction before generalizing conn with
  | nil => rfl
  | cons op before ih => simp only [List.cons_append, runOps, ih]

theorem begin_failed_serial (D : Database) (batch : List (Command × Env)) :
    Serial D batch (batch.map fun op => op.1.error .internal) [] D := by
  induction batch with
  | nil => exact .nil D
  | cons op rest ih => exact .failed _ ih

/-- No failing statement has taken the batch's transaction back: it is still open when `COMMIT` is
issued. -/
def KeepsTransaction (ctx : Ctx) (batch : List (Command × Env)) (conn : Conn Database) : Prop :=
  match conn.begin with
  | (false, _) => True
  | (true, conn) => ∃ t, (runOps ctx batch conn).2.txn = some t ∧ t.begun = true

theorem keeps_of_calm (ctx : Ctx) (batch : List (Command × Env)) (D : Database)
    (hcalm : .rollback ∉ faults) : KeepsTransaction ctx batch (.open D faults) := by
  unfold KeepsTransaction
  rcases hb : (Conn.open D faults).begin with ⟨_ | _, conn₁⟩
  · trivial
  · rcases runOps_anchored (anchored_begin D faults hb) ctx batch with ⟨t, h, -⟩ | h
    · exact ⟨t, h.txn, h.begun⟩
    · exact absurd h.cause hcalm

/-- A batch that keeps its transaction commits it, or leaves the database and can only have told
what is true of an empty one. -/
theorem runBatch_cases (ctx : Ctx) (batch : List (Command × Env)) (D : Database)
    (hkeep : KeepsTransaction ctx batch (.open D faults)) :
    let o := runBatch ctx batch (.open D faults)
    (o.committed = true ∧ Truthful D batch o) ∨
    (o.committed = false ∧ o.conn.committed = D ∧ o.events = [] ∧
      Serial .empty batch o.replies [] .empty) := by
  unfold runBatch
  unfold KeepsTransaction at hkeep
  rcases hb : (Conn.open D faults).begin with ⟨_ | _, conn₁⟩
  · exact Or.inr ⟨rfl, begin_failed hb, rfl, begin_failed_serial .empty batch⟩
  · rw [hb] at hkeep
    have hevents := rolledBack_events ctx batch conn₁
    have hserial := (rolledBack_serial ctx batch conn₁ .empty).mpr fun p _ => rfl
    rcases runOps_anchored (anchored_begin D faults hb) ctx batch with ⟨t, h, htrue⟩ | h
    · have hdone := h.commit
      rcases hops : runOps ctx batch conn₁ with ⟨finishes, conn₂⟩
      rw [hops] at hevents hserial hdone htrue
      simp only [hops]
      rcases hcommit : conn₂.commit with ⟨_ | _, conn₃⟩
      · simp only [hcommit, Bool.false_eq_true, false_and, true_and, false_or] at hdone
        exact Or.inr ⟨rfl, hdone, hevents, hserial⟩
      · simp only [hcommit, Bool.true_eq_false, false_and, true_and, or_false] at hdone
        refine Or.inl ⟨rfl, ?_⟩
        rw [Truthful, hdone]
        exact htrue
    · exact absurd hkeep h.not_begun

/-! ## Two batches that lie -/

def noLimits : Ctx := { maxDatabaseBytes := 0, retention := 0 }

def envAt (newId : String) (now : Int) : Env := { newId, now, pageCount := 1, pageSize := 4096 }

def twoCreates : List (Command × Env) :=
  [(.create "notes" .null, envAt "a" 1), (.create "notes" .null, envAt "b" 2)]

def oneNote : Database :=
  { collections := [{ name := "notes", rows := [⟨"a", .null, 1, 1⟩] }], changelog := [] }

def twoDeletes : List (Command × Env) :=
  [(.delete "notes" "a", envAt "x" 2), (.delete "notes" "a", envAt "y" 3)]

end TinyLord
