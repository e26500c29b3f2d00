import TinyLord.Db.Replies

/-!
# When a batch tells the truth

What its statements meet decides what becomes of an op that has succeeded: it waits in an open
transaction for the `COMMIT`, it is made durable before, or a failure takes it back. `Course`
counts these, from the batch, the database and the fates of the statements alone.
-/

open Lib.Transaction

namespace TinyLord

/-! ## The course of a batch -/

/-- The fate of the next statement, and those after it. -/
def nextFate : List Fault → Fault × List Fault
  | [] => (.none, [])
  | fate :: fates => (fate, fates)

structure Course where
  durable : Database
  /-- What the open transaction sees. -/
  txn : Option Database
  /-- What the next statements meet. -/
  fates : List Fault
  /-- How many ops have succeeded in the open transaction. -/
  waiting : Nat
  /-- How many have succeeded and were made durable before the `COMMIT`. -/
  kept : Nat
  /-- How many have succeeded and were taken back. -/
  lost : Nat
  /-- An op that failed has left a document. -/
  stray : Bool
  /-- The documents that a Delete has not found. -/
  missed : List (String × String)

namespace Course

/-- After the `BEGIN` of a batch on `D`. -/
def start (D : Database) (fates : List Fault) : Course :=
  { durable := D, txn := some D, fates, waiting := 0, kept := 0, lost := 0, stray := false,
    missed := [] }

def view (c : Course) : Database := c.txn.getD c.durable

/-- The open transaction is taken back. -/
def rollBack (c : Course) : Course :=
  { c with txn := none, waiting := 0, lost := c.lost + c.waiting }

/-- `RELEASE` of the savepoint of an op that has led to `view`, with `n` for whether it succeeded.
If the savepoint has opened the transaction, its release commits. -/
def release (c : Course) (view : Database) (n : Nat) (fates : List Fault) : Course :=
  match nextFate fates, c.txn with
  | (.rollback, fates), _ => { c.rollBack with fates, lost := c.lost + c.waiting + n }
  | (.none, fates), none => { c with durable := view, fates, kept := c.kept + n }
  | (_, fates), _ => { c with txn := some view, fates, waiting := c.waiting + n }

end Course

/-- A connection in a transaction that sees `w`. -/
def inside (D w : Database) (fates : List Fault) : Conn Database :=
  { Conn.open D fates with txn := some { work := w, marks := [], begun := true } }

section

variable {ε α : Type}

/-- Whether an op has succeeded and done something. -/
def successes : Except ε (Option α) → Nat
  | .ok (some _) => 1
  | _ => 0

/-- What the transaction sees after an op: one that fails goes back to its savepoint. -/
def afterOp (r : Except ε α) (before after : Database) : Database :=
  match r with
  | .ok _ => after
  | .error _ => before

end

/-- An op whose `SAVEPOINT` has succeeded. -/
def Course.apply (ctx : Ctx) (c : Course) (op : Command × Env) (fates : List Fault) : Course :=
  let (r, conn) := perform ctx op.1 op.2 (inside c.durable c.view fates)
  let c := { c with missed := c.missed ++ missedBy r op.1 }
  match conn.txn with
  | some t => c.release (afterOp r c.view t.work) (successes r) conn.faults
  | none =>
    -- A statement has taken the transaction back. An op that goes on is made durable as it is.
    match r with
    | .ok _ =>
      { c.rollBack with
        durable := conn.committed
        fates := (nextFate conn.faults).2
        kept := c.kept + 1 }
    | .error _ =>
      { c.rollBack with
        durable := conn.committed
        fates := conn.faults
        stray := c.stray || totalRows c.durable < totalRows conn.committed }

/-- One turn of the loop. -/
def Course.turn (ctx : Ctx) (c : Course) (op : Command × Env) : Course :=
  match nextFate c.fates with
  | (.rollback, fates) => { c.rollBack with fates }
  | (.statement, fates) => { c with fates }
  | (.none, fates) => c.apply ctx op fates

/-- Up to the `COMMIT`. -/
def course (ctx : Ctx) (D : Database) (batch : List (Command × Env)) (fates : List Fault) : Course :=
  batch.foldl (Course.turn ctx) (.start D fates)

/-- A transaction is open at the `COMMIT`, which succeeds. -/
def Course.commits (c : Course) : Bool := c.txn.isSome && (nextFate c.fates).1 = .none

/-- The `BEGIN` fails, or no op that failed has left a document and one of two holds. The `COMMIT`
succeeds and no success was taken back before. Or it does not, no success was made durable before,
and each document that a Delete has not found is not in the database before the batch either. -/
def Contained (ctx : Ctx) (batch : List (Command × Env)) (D : Database) (faults : List Fault) :
    Prop :=
  (nextFate faults).1 = .none →
    let c := course ctx D batch (nextFate faults).2
    c.stray = false ∧
      if c.commits then c.lost = 0
      else c.kept = 0 ∧ ∀ p ∈ c.missed, D.present p.1 p.2 = false

instance (ctx : Ctx) (batch : List (Command × Env)) (D : Database) (faults : List Fault) :
    Decidable (Contained ctx batch D faults) :=
  inferInstanceAs (Decidable (_ = _ → _ = _ ∧ if _ = _ then _ = _ else _ = _ ∧ ∀ p ∈ _, _ = _))

/-! ## What a turn does -/

/-- The ways on from `c`, by whether the op has succeeded. -/
inductive Turn (cmd : Command) (env : Env) (c : Course) : Option (Reply × ChangeEvent) → Course → Prop
  | idle (fates missed) : Turn cmd env c none { c with fates, missed }
  | opened (fates missed) (h : c.txn = none) :
      Turn cmd env c none { c with txn := some c.durable, fates, missed }
  | gone (fates missed) : Turn cmd env c none { c.rollBack with fates, missed }
  | waits {reply ev w} (fates missed) (h : Effect env cmd c.view reply ev w) :
      Turn cmd env c (some (reply, ev))
        { c with txn := some w, waiting := c.waiting + 1, fates, missed }
  | kept {reply ev d} (fates missed) (h : Effect env cmd c.durable reply ev d) :
      Turn cmd env c (some (reply, ev))
        { c.rollBack with durable := d, kept := c.kept + 1, fates, missed }
  | lost {reply ev w} (fates missed) (h : Effect env cmd c.view reply ev w) :
      Turn cmd env c (some (reply, ev))
        { c.rollBack with lost := c.lost + c.waiting + 1, fates, missed }
  | strayed {d} (fates missed) (h : Strayed c.durable d) :
      Turn cmd env c none { c.rollBack with durable := d, stray := true, fates, missed }

/-- What the finisher of the op answers. -/
inductive Answers (cmd : Command) (c : Course) : Option (Reply × ChangeEvent) → Finish → Prop
  | failed (e : ApiError) : Answers cmd c none (onError cmd e)
  | missed {coll id} (hcmd : cmd = .delete coll id) (h : c.view.present coll id = false) :
      Answers cmd c none onMissed
  | success (reply : Reply) (ev : ChangeEvent) :
      Answers cmd c (some (reply, ev)) (onCommit cmd reply ev)

/-- The connection of the batch is where its course says. -/
structure Follows (c : Course) (conn : Conn Database) : Prop where
  durable : conn.committed = c.durable
  txn : conn.txn.map Txn.work = c.txn
  fates : conn.faults = c.fates
  marks : ∀ t, conn.txn = some t → (t.marks.isEmpty && !t.begun) = false
  closed : c.txn = none → c.waiting = 0

variable {ctx : Ctx} {cmd : Command} {env : Env} {op : Command × Env} {c c' : Course}
  {conn conn' : Conn Database} {D D' w : Database} {t : Txn Database} {faults fs : List Fault}
  {batch : List (Command × Env)} {out : Option (Reply × ChangeEvent)}

theorem nextFault_eq (conn : Conn Database) :
    conn.nextFault =
      ((nextFate conn.faults).1, { conn with faults := (nextFate conn.faults).2 }) := by
  unfold Conn.nextFault nextFate
  cases h : conn.faults with
  | nil => simp [← h]
  | cons fate fates => rfl

theorem view_of_none (h : c.txn = none) : c.view = c.durable := by simp [Course.view, h]

theorem view_of_some (h : c.txn = some w) : c.view = w := by simp [Course.view, h]

/-! ## The end of an op in a transaction -/

theorem release_idle (missed : List (String × String)) (fs : List Fault) :
    Turn cmd env c none ({ c with missed }.release c.view 0 fs) := by
  unfold Course.release
  rcases hn : nextFate fs with ⟨fate, fates⟩
  obtain ⟨durable, txn, cfates, waiting, kept, lost, stray, cmissed⟩ := c
  cases fate with
  | rollback => exact .gone fates missed
  | statement =>
    cases txn with
    | none => exact .opened fates missed rfl
    | some v => exact .idle fates missed
  | none =>
    cases txn with
    | none => exact .idle fates missed
    | some v => exact .idle fates missed

theorem release_success {reply : Reply} {ev : ChangeEvent} (missed : List (String × String))
    (fs : List Fault) (hclosed : c.txn = none → c.waiting = 0)
    (h : Effect env cmd c.view reply ev w) :
    Turn cmd env c (some (reply, ev)) ({ c with missed }.release w 1 fs) := by
  unfold Course.release
  rcases hn : nextFate fs with ⟨fate, fates⟩
  obtain ⟨durable, txn, cfates, waiting, kept, lost, stray, cmissed⟩ := c
  cases fate with
  | rollback => exact .lost fates missed h
  | statement => exact .waits fates missed h
  | none =>
    cases txn with
    | some v => exact .waits fates missed h
    | none =>
      obtain rfl : waiting = 0 := hclosed rfl
      exact .kept fates missed h

/-- The connection behind the `SAVEPOINT` of an op that has led to `w`. -/
structure Saved (c : Course) (conn : Conn Database) (t : Txn Database) : Prop where
  durable : conn.committed = c.durable
  txn : conn.txn = some t
  marks : ∃ ms, t.marks = c.view :: ms ∧ (ms.isEmpty && !t.begun) = c.txn.isNone

theorem release_follows (missed : List (String × String)) (n : Nat) (h : Saved c conn t)
    (hclosed : c.txn = none → c.waiting = 0) :
    Follows ({ c with missed }.release t.work n conn.faults) conn.release.2 := by
  obtain ⟨hdurable, ht, ms, hm, hms⟩ := h
  have hnext := nextFault_eq conn
  unfold Course.release
  rcases hn : nextFate conn.faults with ⟨fate, fates⟩
  rw [hn] at hnext
  cases fate with
  | rollback =>
    simp only [Conn.release, hnext, Conn.afterFailure]
    exact ⟨hdurable, rfl, rfl, by simp, fun _ => rfl⟩
  | statement =>
    simp only [Conn.release, hnext, Conn.afterFailure]
    refine ⟨hdurable, by simp [ht], rfl, ?_, by simp⟩
    intro t' ht'
    cases ht.symm.trans ht'
    simp [hm]
  | none =>
    simp only [Conn.release, hnext, ht, hm, hms]
    cases htxn : c.txn with
    | none => exact ⟨rfl, rfl, rfl, by simp, fun _ => hclosed htxn⟩
    | some v =>
      rw [htxn] at hms
      refine ⟨hdurable, rfl, rfl, ?_, by simp⟩
      rintro t' ⟨⟩
      exact hms

/-! ## One turn -/

theorem perform_inside (ctx : Ctx) (env : Env) (cmd : Command) (hD : conn.committed = D)
    (ht : conn.txn = some t) :
    (perform ctx cmd env conn).1 = (perform ctx cmd env (inside D t.work conn.faults)).1 ∧
      SameView (perform ctx cmd env conn).2
        (perform ctx cmd env (inside D t.work conn.faults)).2 := by
  refine perform_uniform ctx env cmd _ _ ⟨hD, ?_, rfl⟩
  rw [ht]
  rfl

theorem release_none (htxn : conn.txn = none) :
    conn.release.2 = { conn with faults := (nextFate conn.faults).2 } := by
  have hnext := nextFault_eq conn
  rcases hf : nextFate conn.faults with ⟨fate, fates⟩
  rw [hf] at hnext
  cases fate <;> simp [Conn.release, hnext, Conn.afterFailure, htxn]

theorem Follows.savepoint (h : Follows c conn) (hfate : nextFate c.fates = (.none, fs)) :
    ∃ t, conn.savepoint = (true, { conn with txn := some t, faults := fs }) ∧ t.work = c.view ∧
      ∃ ms, t.marks = c.view :: ms ∧ (ms.isEmpty && !t.begun) = c.txn.isNone := by
  have hnext := nextFault_eq conn
  rw [h.fates, hfate] at hnext
  unfold Conn.savepoint
  rw [hnext]
  cases ht : conn.txn with
  | none =>
    have htxn : c.txn = none := by rw [← h.txn, ht]; rfl
    rw [view_of_none htxn, htxn, ← h.durable]
    exact ⟨_, rfl, rfl, [], rfl, rfl⟩
  | some t =>
    have htxn : c.txn = some t.work := by rw [← h.txn, ht]; rfl
    rw [view_of_some htxn, htxn]
    exact ⟨_, rfl, rfl, t.marks, rfl, h.marks t ht⟩

theorem release_missed (c : Course) (w : Database) (n : Nat) (fs : List Fault) :
    (c.release w n fs).missed = c.missed := by
  unfold Course.release
  split <;> rfl

theorem Saved.inTxn (h : Saved c conn t) (w : Database) (fs : List Fault) :
    Saved c (conn.inTxn t w fs) { t with work := w } :=
  ⟨h.durable, rfl, h.marks⟩

theorem applyOp_course (ctx : Ctx) (cmd : Command) (env : Env) (h : Saved c conn t)
    (hwork : t.work = c.view) (hclosed : c.txn = none → c.waiting = 0) :
    ∃ out, Turn cmd env c out (c.apply ctx (cmd, env) conn.faults) ∧
      Answers cmd c out (closeOp (applyOp ctx cmd env conn)).1 ∧
      Follows (c.apply ctx (cmd, env) conn.faults) (closeOp (applyOp ctx cmd env conn)).2 ∧
      (c.apply ctx (cmd, env) conn.faults).missed =
        c.missed ++ missedBy (perform ctx cmd env conn).1 cmd := by
  obtain ⟨hres, hview⟩ := perform_inside ctx env cmd h.durable h.txn
  have hparted := perform_parted ctx env cmd conn t h.txn
  rw [hwork] at hres hview
  rw [hres, Course.apply]
  rcases hp : perform ctx cmd env (inside c.durable c.view conn.faults) with ⟨r, conn₂⟩
  rw [hp] at hres hview
  rcases perform_loose ctx env cmd conn t h.txn with
    ⟨fs, a, w, -, hrun, hpost⟩ | ⟨fs, e, w, -, hrun⟩ | ⟨-, hlost⟩
  · rw [hrun] at hres hview
    obtain rfl : .ok a = r := hres
    obtain ⟨t₂, ht₂, rfl⟩ : ∃ t₂, conn₂.txn = some t₂ ∧ t₂.work = w :=
      Option.map_eq_some_iff.mp hview.work.symm
    obtain rfl : conn₂.faults = fs := hview.faults.symm
    have hsaved := h.inTxn t₂.work conn₂.faults
    rw [hwork] at hpost
    simp only [ht₂, applyOp, hrun, release_missed]
    rcases a with _ | ⟨reply, ev⟩
    · -- A Delete has not found its document.
      obtain ⟨coll, id, rfl, habsent, hsame⟩ := hpost
      refine ⟨none, ?_, .missed rfl habsent, release_follows _ 0 hsaved hclosed, trivial⟩
      simp only [afterOp, hsame]
      exact release_idle _ _
    · exact ⟨some (reply, ev), release_success _ _ hclosed hpost, .success reply ev,
        release_follows _ 1 hsaved hclosed, trivial⟩
  · -- An op that fails goes back to its savepoint.
    rw [hrun] at hres hview
    obtain rfl : .error e = r := hres
    obtain ⟨t₂, ht₂, -⟩ : ∃ t₂, conn₂.txn = some t₂ ∧ t₂.work = w :=
      Option.map_eq_some_iff.mp hview.work.symm
    obtain rfl : conn₂.faults = fs := hview.faults.symm
    obtain ⟨ms, hm, -⟩ := h.marks
    have hback : (conn.inTxn t w conn₂.faults).rollbackTo =
        (true, conn.inTxn t c.view conn₂.faults) := by
      simp [Conn.rollbackTo, Conn.inTxn, hm]
    have hsaved := h.inTxn c.view conn₂.faults
    simp only [ht₂, applyOp, hrun, closeOp, hback, release_missed]
    exact ⟨none, release_idle _ _, .failed _, release_follows _ 0 hsaved hclosed, trivial⟩
  · -- The transaction is gone.
    rcases hrun : perform ctx cmd env conn with ⟨r', conn₃⟩
    rw [hrun] at hres hview hparted hlost
    obtain rfl : r' = r := hres
    have htxn : conn₃.txn = none := hlost
    have htxn₂ : conn₂.txn = none := by
      have hsame := hview.work
      rw [htxn] at hsame
      simpa using hsame.symm
    have hends := hparted htxn
    rw [h.durable, show conn₃.committed = conn₂.committed from hview.committed] at hends
    have hfaults : conn₃.faults = conn₂.faults := hview.faults
    have hcommitted : conn₃.committed = conn₂.committed := hview.committed
    cases r' with
    | ok a =>
      obtain ⟨reply, ev, rfl, heffect⟩ := hends
      simp only [htxn₂, applyOp, hrun, closeOp, release_none htxn]
      refine ⟨some (reply, ev), .kept _ _ heffect, .success reply ev, ?_, rfl⟩
      exact ⟨hcommitted, by simp [htxn, Course.rollBack], by rw [hfaults], by simp [htxn],
        fun _ => rfl⟩
    | error e =>
      simp only [htxn₂, applyOp, hrun, closeOp, Conn.rollbackTo, htxn]
      refine ⟨none, ?_, .failed _, ?_, rfl⟩
      · rcases hends with hsame | hstray
        · have hflag : decide (totalRows c.durable < totalRows conn₂.committed) = false := by
            simp [hsame]
          rw [hflag, Bool.or_false, hsame]
          exact .gone _ _
        · have hflag : decide (totalRows c.durable < totalRows conn₂.committed) = true := by
            simp [hstray.totalRows]
          rw [hflag, Bool.or_true]
          exact .strayed _ _ hstray
      · exact ⟨hcommitted, by simp [htxn, Course.rollBack], hfaults, by simp [htxn], fun _ => rfl⟩

/-- A turn of the batch is a turn of its course. -/
theorem runOp_turn (ctx : Ctx) (op : Command × Env) (h : Follows c conn) :
    ∃ out, Turn op.1 op.2 c out (c.turn ctx op) ∧
      Answers op.1 c out (runOp ctx op.1 op.2 conn).1 ∧
      Follows (c.turn ctx op) (runOp ctx op.1 op.2 conn).2 ∧
      (c.turn ctx op).missed = c.missed ++ misses ctx op.1 op.2 conn := by
  obtain ⟨cmd, env⟩ := op
  have hnext := nextFault_eq conn
  rw [h.fates] at hnext
  unfold Course.turn
  rcases hfate : nextFate c.fates with ⟨fate, fates⟩
  rw [hfate] at hnext
  cases fate with
  | statement =>
    have hsp : conn.savepoint = (false, { conn with faults := fates }) := by
      simp [Conn.savepoint, hnext, Conn.afterFailure]
    simp only [runOp, misses, hsp, List.append_nil]
    exact ⟨none, .idle fates c.missed, .failed _,
      ⟨h.durable, h.txn, rfl, h.marks, h.closed⟩, trivial⟩
  | rollback =>
    have hsp : conn.savepoint = (false, { conn with txn := none, faults := fates }) := by
      simp [Conn.savepoint, hnext, Conn.afterFailure]
    simp only [runOp, misses, hsp, List.append_nil]
    exact ⟨none, .gone fates c.missed, .failed _,
      ⟨h.durable, rfl, rfl, by simp, fun _ => rfl⟩, rfl⟩
  | none =>
    obtain ⟨t, hsp, hwork, hmarks⟩ := h.savepoint hfate
    have hsaved : Saved c { conn with txn := some t, faults := fates } t :=
      ⟨h.durable, rfl, hmarks⟩
    simp only [runOp, misses, hsp]
    exact applyOp_course ctx cmd env hsaved hwork h.closed

/-! ## Documents that the log does not account for -/

def sign (op : String) : Int :=
  if op = Op.insert.asStr then 1 else if op = Op.delete.asStr then -1 else 0

def indicator (b : Bool) : Int := if b then 1 else 0

/-- The inserts of the document in the log, less its deletes. -/
def logged (name id : String) (log : List ChangelogRow) : Int :=
  ((log.filter fun r => fold r.collection = fold name ∧ r.docId = id).map fun r => sign r.op).sum

/-- Whether the document is there, less what the log says of it. -/
def excess (db : Database) (name id : String) : Int :=
  indicator (db.find name id).isSome - logged name id db.changelog

theorem logged_insertChangelog (name id : String) (log : List ChangelogRow) (ch : Change) :
    logged name id (insertChangelog log ch) = logged name id log +
      if fold ch.collection = fold name ∧ ch.docId = id then sign ch.op.asStr else 0 := by
  unfold logged insertChangelog
  rw [List.filter_append, List.map_append, List.sum_append]
  congr 1
  by_cases h : fold ch.collection = fold name ∧ ch.docId = id
  · simp [Change.row, h]
  · rw [if_neg h, List.filter_eq_nil_iff.mpr (by simpa [Change.row] using h)]
    rfl

theorem Written.excess {coll : String} {f : List DocRow → List DocRow} {ch : Change}
    {ev : ChangeEvent} (h : Written D D' coll f ch ev) (hcoll : ch.collection = coll)
    (hown : indicator ((f (D.rows coll)).find? fun r => r.id == ch.docId).isSome =
      indicator (D.find coll ch.docId).isSome + sign ch.op.asStr)
    (hother : ∀ x, x ≠ ch.docId →
      ((f (D.rows coll)).find? fun r => r.id == x).isSome = (D.find coll x).isSome)
    (name id : String) : excess D' name id = excess D name id := by
  unfold TinyLord.excess
  rw [h.log, logged_insertChangelog, h.find, hcoll]
  by_cases hn : fold name = fold coll
  · rw [if_pos hn, rows_congr D hn, find_congr D hn]
    by_cases hid : id = ch.docId
    · rw [hid, hown, if_pos ⟨hn.symm, rfl⟩]
      omega
    · rw [hother id hid, if_neg fun hboth => hid hboth.2.symm]
      omega
  · rw [if_neg hn, if_neg fun hboth => hn hboth.1.symm]
    omega

theorem excess_ensureCollection (db : Database) (coll name id : String) :
    excess (ensureCollection db coll) name id = excess db name id := by
  rw [excess, find_ensureCollection, ensureCollection_changelog, excess]

theorem insert_excess {coll : String} {row : DocRow} {ch : Change} {ev : ChangeEvent}
    (h : Written (ensureCollection D coll) D' coll (appendRow row) ch ev)
    (hcoll : ch.collection = coll) (hop : ch.op = .insert) (hid : ch.docId = row.id)
    (hnew : D.find coll row.id = none) (name id : String) :
    excess D' name id = excess D name id := by
  have hfind : (ensureCollection D coll).find coll row.id = none := by
    rw [find_ensureCollection, hnew]
  have happ : ∀ x, (appendRow row _).find? (fun r => r.id == x) = _ :=
    fun x => find_appendRow x (find_none.mp hfind)
  rw [h.excess hcoll ?_ ?_ name id, excess_ensureCollection]
  · rw [hid, happ, if_pos rfl, hfind, hop]
    rfl
  · intro x hx
    rw [happ, if_neg (hid ▸ hx)]
    rfl

theorem Effect.excess {reply : Reply} {ev : ChangeEvent} (h : Effect env cmd D reply ev D')
    (name id : String) : excess D' name id = excess D name id := by
  cases cmd with
  | create coll doc =>
    obtain ⟨hnew, -, hwritten⟩ := h
    exact insert_excess hwritten rfl rfl rfl hnew name id
  | replace coll docId doc =>
    simp only [Effect] at h
    split at h
    · next hnew => exact insert_excess h.2 rfl rfl rfl hnew name id
    · next old hold =>
      rw [h.2.excess rfl ?_ ?_ name id, excess_ensureCollection]
      · have hsign : sign Op.update.asStr = 0 := by decide
        rw [find_updateRow, if_pos rfl, Option.isSome_map, ← Database.find, hsign, Int.add_zero]
      · intro x hx
        rw [find_updateRow, if_neg hx]
        rfl
  | delete coll docId =>
    obtain ⟨hpresent, -, hwritten⟩ := h
    rw [hwritten.excess rfl ?_ ?_ name id]
    · have hsome : (D.find coll docId).isSome = true := by
        simp only [Database.present, Bool.and_eq_true] at hpresent
        exact hpresent.2
      rw [find_removeRow, if_pos rfl, hsome]
      rfl
    · intro x hx
      rw [find_removeRow, if_neg hx]
      rfl

theorem Strayed.excess (h : Strayed D D') : (∀ name id, excess D name id ≤ excess D' name id) ∧
    ∃ name id, excess D name id < excess D' name id := by
  obtain ⟨coll, row, htable, hnew, rfl⟩ := h
  have hfind : ∀ name id, (D.updateTable coll (appendRow row)).find name id =
      if fold name = fold coll ∧ id = row.id then some row else D.find name id := by
    intro name id
    rw [Database.find, rows_updateTable _ htable]
    by_cases hn : fold name = fold coll
    · rw [if_pos hn, rows_congr D hn, find_appendRow id hnew, find_congr D hn]
      simp [hn, Database.find]
    · rw [if_neg hn, if_neg fun hboth => hn hboth.1]
      rfl
  have hnone : D.find coll row.id = none := find_none.mpr hnew
  refine ⟨fun name id => ?_, coll, row.id, ?_⟩
  · unfold TinyLord.excess
    rw [hfind, updateTable_changelog]
    by_cases hsame : fold name = fold coll ∧ id = row.id
    · rw [if_pos hsame, find_congr D hsame.1, hsame.2, hnone]
      simp [indicator]
    · rw [if_neg hsame]
  · unfold TinyLord.excess
    rw [hfind, updateTable_changelog, if_pos ⟨rfl, rfl⟩, hnone]
    simp [indicator]

theorem Effect.log {reply : Reply} {ev : ChangeEvent} (h : Effect env cmd D reply ev D') :
    D'.changelog.length = D.changelog.length + 1 := by
  cases cmd with
  | create coll doc => simp [h.2.2.log, insertChangelog]
  | replace coll id doc =>
    simp only [Effect] at h
    split at h <;> simp [h.2.log, insertChangelog]
  | delete coll id => simp [h.2.2.log, insertChangelog]

theorem Serial.log {replies : List Reply} {evs : List ChangeEvent}
    (h : Serial D batch replies evs D') :
    D'.changelog.length = D.changelog.length + evs.length := by
  induction h with
  | nil D => rfl
  | failed e _ ih => exact ih
  | missed _ _ ih => exact ih
  | acked heffect _ ih =>
    rw [ih, heffect.log, List.length_cons]
    omega

theorem Serial.excess {replies : List Reply} {evs : List ChangeEvent}
    (h : Serial D batch replies evs D') (name id : String) :
    excess D' name id = excess D name id := by
  induction h with
  | nil D => rfl
  | failed e _ ih => exact ih
  | missed _ _ ih => exact ih
  | acked heffect _ ih => rw [ih, heffect.excess]

/-! ## All turns of a batch -/

inductive Turns : Course → List (Command × Env) → List Finish → Course → Prop
  | nil (c : Course) : Turns c [] [] c
  | cons {c c₁ c' cmd env out rest finish finishes} (turn : Turn cmd env c out c₁)
      (answer : Answers cmd c out finish) (turns : Turns c₁ rest finishes c') :
      Turns c ((cmd, env) :: rest) (finish :: finishes) c'

theorem runOps_turns (ctx : Ctx) (batch : List (Command × Env)) (h : Follows c conn) :
    Turns c batch (runOps ctx batch conn).1 (batch.foldl (Course.turn ctx) c) ∧
      Follows (batch.foldl (Course.turn ctx) c) (runOps ctx batch conn).2 ∧
      (batch.foldl (Course.turn ctx) c).missed = c.missed ++ missed ctx batch conn := by
  induction batch generalizing c conn with
  | nil => exact ⟨.nil c, h, (List.append_nil _).symm⟩
  | cons op rest ih =>
    obtain ⟨out, hturn, hanswer, hfollows, hmissed⟩ := runOp_turn ctx op h
    obtain ⟨hturns, hlast, hall⟩ := ih hfollows
    refine ⟨.cons hturn hanswer hturns, hlast, ?_⟩
    rw [List.foldl_cons, hall, hmissed, List.append_assoc]
    rfl

/-- What has become of the batch, against the database before it. -/
structure Accounted (D : Database) (c : Course) : Prop where
  keptLog : c.durable.changelog.length = D.changelog.length + c.kept
  waitingLog : c.view.changelog.length = c.durable.changelog.length + c.waiting
  unchanged : c.kept = 0 → c.stray = false → c.durable = D
  still : c.waiting = 0 → c.view = c.durable
  excess : ∀ name id, excess D name id ≤ excess c.durable name id
  stray : c.stray = true → ∃ name id, TinyLord.excess D name id < TinyLord.excess c.durable name id
  viewExcess : ∀ name id, TinyLord.excess c.view name id = TinyLord.excess c.durable name id

theorem Turn.accounted (h : Turn cmd env c out c') (hacc : Accounted D c) : Accounted D c' := by
  cases h with
  | idle fates missed =>
    exact ⟨hacc.keptLog, hacc.waitingLog, hacc.unchanged, hacc.still, hacc.excess, hacc.stray,
      hacc.viewExcess⟩
  | opened fates missed hnone =>
    have hview := view_of_none hnone
    refine ⟨hacc.keptLog, ?_, hacc.unchanged, fun _ => rfl, hacc.excess, hacc.stray, fun _ _ => rfl⟩
    exact hview ▸ hacc.waitingLog
  | gone fates missed | lost fates missed _ =>
    exact ⟨hacc.keptLog, rfl, hacc.unchanged, fun _ => rfl, hacc.excess, hacc.stray, fun _ _ => rfl⟩
  | waits fates missed heffect =>
    refine ⟨hacc.keptLog, ?_, hacc.unchanged, nofun, hacc.excess, hacc.stray, ?_⟩
    · show _ = c.durable.changelog.length + (c.waiting + 1)
      rw [← Nat.add_assoc, ← hacc.waitingLog]
      exact heffect.log
    · intro name id
      exact (heffect.excess name id).trans (hacc.viewExcess name id)
  | kept fates missed heffect =>
    refine ⟨?_, rfl, nofun, fun _ => rfl, ?_, ?_, fun _ _ => rfl⟩
    · show _ = D.changelog.length + (c.kept + 1)
      rw [← Nat.add_assoc, ← hacc.keptLog]
      exact heffect.log
    · intro name id
      exact (hacc.excess name id).trans_eq (heffect.excess name id).symm
    · intro hstray
      obtain ⟨name, id, hlt⟩ := hacc.stray hstray
      exact ⟨name, id, hlt.trans_eq (heffect.excess name id).symm⟩
  | strayed fates missed hstrayed =>
    obtain ⟨hle, name, id, hlt⟩ := hstrayed.excess
    refine ⟨?_, rfl, nofun, fun _ => rfl, ?_, ?_, fun _ _ => rfl⟩
    · exact (congrArg List.length hstrayed.changelog).trans hacc.keptLog
    · exact fun name id => (hacc.excess name id).trans (hle name id)
    · exact fun _ => ⟨name, id, (hacc.excess name id).trans_lt hlt⟩

/-- Nothing that was taken back comes again, and no document that was left goes. -/
theorem Turn.mono (h : Turn cmd env c out c') :
    c.lost ≤ c'.lost ∧ (c'.stray = false → c.stray = false) := by
  cases h with
  | idle | opened | waits => exact ⟨Nat.le_refl _, id⟩
  | gone | kept => exact ⟨Nat.le_add_right _ _, id⟩
  | lost => exact ⟨Nat.le_trans (Nat.le_add_right _ _) (Nat.le_succ _), id⟩
  | strayed => exact ⟨Nat.le_add_right _ _, nofun⟩

theorem Turn.count (h : Turn cmd env c out c') :
    c'.waiting + c'.kept + c'.lost = c.waiting + c.kept + c.lost + out.toList.length := by
  cases h with
  | idle | opened => rfl
  | gone | strayed => simp [Course.rollBack]; omega
  | waits | kept | lost => simp [Course.rollBack]; omega

variable {finishes : List Finish}

theorem Turns.accounted (h : Turns c batch finishes c') (hacc : Accounted D c) : Accounted D c' := by
  induction h with
  | nil c => exact hacc
  | cons turn _ _ ih => exact ih (turn.accounted hacc)

theorem Turns.mono (h : Turns c batch finishes c') :
    c.lost ≤ c'.lost ∧ (c'.stray = false → c.stray = false) := by
  induction h with
  | nil c => exact ⟨Nat.le_refl _, id⟩
  | cons turn _ _ ih => exact ⟨Nat.le_trans turn.mono.1 ih.1, fun hs => turn.mono.2 (ih.2 hs)⟩

theorem Answers.events {finish : Finish} (h : Answers cmd c out finish) :
    (finish true).2 = out.map (·.2) := by
  cases h <;> rfl

theorem Turns.count (h : Turns c batch finishes c') :
    c'.waiting + c'.kept + c'.lost = c.waiting + c.kept + c.lost +
      (finishes.filterMap fun finish => (finish true).2).length := by
  induction h with
  | nil c => rfl
  | @cons c c₁ c' cmd env out rest finish finishes turn answer _ ih =>
    have hturn := turn.count
    have hevents := answer.events
    rw [List.filterMap_cons, hevents]
    cases out with
    | none =>
      simp only [Option.toList_none, List.length_nil] at hturn
      simp only [Option.map_none]
      omega
    | some r =>
      simp only [Option.toList_some, List.length_singleton] at hturn
      simp only [Option.map_some, List.length_cons]
      omega

/-- When nothing was taken back and no document was left, the ops that have succeeded lead from what
the batch saw to what it sees. -/
theorem Turns.serial (h : Turns c batch finishes c') (hacc : Accounted D c)
    (hlost : c'.lost ≤ c.lost) (hstray : c'.stray = false) :
    Serial c.view batch (finishes.map fun finish => (finish true).1)
      (finishes.filterMap fun finish => (finish true).2) c'.view := by
  induction h with
  | nil c => exact .nil _
  | @cons c c₁ c' cmd env out rest finish finishes turn answer turns ih =>
    obtain ⟨hmore, hleft⟩ := turns.mono
    have hfirst := turn.mono.1
    have hrest := ih (turn.accounted hacc) (by omega) hstray
    rw [List.map_cons, List.filterMap_cons, answer.events]
    -- An op that has not succeeded leaves what the batch sees.
    have hsilent : out = none → c₁.view = c.view →
        Serial c.view ((cmd, env) :: rest)
          ((finish true).1 :: finishes.map fun finish => (finish true).1)
          (finishes.filterMap fun finish => (finish true).2) c'.view := by
      intro hnone hview
      rw [hview] at hrest
      cases answer with
      | failed e => exact .failed e hrest
      | missed hcmd habsent =>
        subst hcmd
        exact .missed habsent hrest
      | success => cases hnone
    -- With nothing to take back, it sees what is durable.
    have hdurable : c₁.lost = c.lost + c.waiting → c.view = c.durable :=
      fun heq => hacc.still (by omega)
    cases turn with
    | idle => exact hsilent rfl rfl
    | opened _ _ hnone => exact hsilent rfl (view_of_none hnone).symm
    | gone => exact hsilent rfl (hdurable rfl).symm
    | waits _ _ heffect =>
      cases answer
      exact .acked heffect hrest
    | kept _ _ heffect =>
      cases answer
      rw [← hdurable rfl] at heffect
      exact .acked heffect hrest
    | lost =>
      have hless : c.lost + c.waiting + 1 ≤ c'.lost := hmore
      omega
    | strayed => cases hleft hstray

/-! ## The end of a batch -/

theorem begin_inside (D : Database) (h : (nextFate faults).1 = .none) :
    (Conn.open D faults).begin = (true, inside D D (nextFate faults).2) := by
  have hnone : (nextFate (Conn.open D faults).faults).1 = .none := h
  rw [Conn.begin, nextFault_eq, hnone]
  rfl

theorem begin_fails (D : Database) (h : (nextFate faults).1 ≠ .none) :
    ∃ conn, (Conn.open D faults).begin = (false, conn) := by
  have hfate : (nextFate (Conn.open D faults).faults).1 ≠ .none := h
  rw [Conn.begin, nextFault_eq]
  cases hf : (nextFate (Conn.open D faults).faults).1 with
  | none => exact absurd hf hfate
  | statement | rollback => exact ⟨_, rfl⟩

theorem follows_start (D : Database) (fates : List Fault) :
    Follows (.start D fates) (inside D D fates) := by
  refine ⟨rfl, rfl, rfl, ?_, nofun⟩
  rintro t ⟨⟩
  rfl

theorem accounted_start (D : Database) (fates : List Fault) : Accounted D (.start D fates) :=
  ⟨rfl, rfl, fun _ _ => rfl, fun _ => rfl, fun _ _ => le_rfl, nofun, fun _ _ => rfl⟩

theorem Follows.commit (h : Follows c conn) (hcommits : c.commits = true) :
    ∃ conn', conn.commit = (true, conn') ∧ conn'.committed = c.view := by
  simp only [Course.commits, Bool.and_eq_true, decide_eq_true_eq] at hcommits
  obtain ⟨hopen, hfate⟩ := hcommits
  obtain ⟨w, hw⟩ := Option.isSome_iff_exists.mp hopen
  obtain ⟨t, ht, rfl⟩ := Option.map_eq_some_iff.mp (h.txn.trans hw)
  rw [Conn.commit, nextFault_eq, h.fates, hfate]
  simp only [ht]
  exact ⟨_, rfl, (view_of_some hw).symm⟩

theorem Follows.no_commit (h : Follows c conn) (hcommits : c.commits = false) :
    ∃ conn', conn.commit = (false, conn') ∧ conn'.rollback.2.committed = c.durable := by
  have hback : ∀ fates : List Fault, ∀ txn, { conn with txn, faults := fates }.rollback.2.committed =
      c.durable := by
    intro fates txn
    unfold Conn.rollback
    split <;> exact h.durable
  rw [Conn.commit, nextFault_eq, h.fates]
  cases hfate : (nextFate c.fates).1 with
  | rollback => exact ⟨_, rfl, hback _ none⟩
  | statement => exact ⟨_, rfl, hback _ conn.txn⟩
  | none =>
    have hnone : c.txn = none := by simpa [Course.commits, hfate] using hcommits
    have htxn : conn.txn = none := by simpa [hnone] using h.txn
    simp only [htxn]
    exact ⟨_, rfl, hback _ none⟩

/-- Serial ops neither lose a row of the log nor leave a document that the log does not account for. -/
theorem committed_iff (h : Turns (.start D fs) batch finishes c) :
    Serial D batch (finishes.map fun finish => (finish true).1)
        (finishes.filterMap fun finish => (finish true).2) c.view ↔
      c.stray = false ∧ c.lost = 0 := by
  have hacc := h.accounted (accounted_start D fs)
  constructor
  · intro hserial
    constructor
    · cases hs : c.stray with
      | false => rfl
      | true =>
        obtain ⟨name, id, hlt⟩ := hacc.stray hs
        rw [← hacc.viewExcess, hserial.excess] at hlt
        exact absurd hlt (lt_irrefl _)
    · have hcount := h.count
      have hkept := hacc.keptLog
      have hwaiting := hacc.waitingLog
      rw [hserial.log] at hwaiting
      simp only [Course.start] at hcount
      omega
  · rintro ⟨hstray, hlost⟩
    exact h.serial (accounted_start D fs) (Nat.le_of_eq hlost) hstray

theorem durable_iff (h : Turns (.start D fs) batch finishes c) :
    c.durable = D ↔ c.stray = false ∧ c.kept = 0 := by
  have hacc := h.accounted (accounted_start D fs)
  constructor
  · intro hsame
    constructor
    · cases hs : c.stray with
      | false => rfl
      | true =>
        obtain ⟨name, id, hlt⟩ := hacc.stray hs
        rw [hsame] at hlt
        exact absurd hlt (lt_irrefl _)
    · have hkept := hacc.keptLog
      rw [hsame] at hkept
      omega
  · exact fun ⟨hstray, hkept⟩ => hacc.unchanged hkept hstray

theorem course_turns (ctx : Ctx) (batch : List (Command × Env)) (D : Database)
    (fates : List Fault) :
    let c := course ctx D batch fates
    Turns (.start D fates) batch (runOps ctx batch (inside D D fates)).1 c ∧
      Follows c (runOps ctx batch (inside D D fates)).2 ∧
      c.missed = missed ctx batch (inside D D fates) :=
  runOps_turns ctx batch (follows_start D fates)

theorem begun_truthful (ctx : Ctx) (batch : List (Command × Env)) (D : Database)
    (hbegin : (nextFate faults).1 = .none) :
    let c := course ctx D batch (nextFate faults).2
    Truthful D batch (runBatch ctx batch (.open D faults)) ↔
      c.stray = false ∧
        if c.commits then c.lost = 0
        else c.kept = 0 ∧ ∀ p ∈ c.missed, D.present p.1 p.2 = false := by
  obtain ⟨hturns, hfollows, hmissed⟩ := course_turns ctx batch D (nextFate faults).2
  have hserial := rolledBack_serial ctx batch (inside D D (nextFate faults).2) D
  have hevents := rolledBack_events ctx batch (inside D D (nextFate faults).2)
  rw [Truthful, runBatch, begin_inside D hbegin]
  generalize course ctx D batch (nextFate faults).2 = c at hturns hfollows hmissed
  rcases hrun : runOps ctx batch (inside D D (nextFate faults).2) with ⟨finishes, conn⟩
  rw [hrun] at hturns hfollows hserial hevents
  rw [← hmissed] at hserial
  cases hcommits : c.commits with
  | true =>
    obtain ⟨conn', hcommit, hview⟩ := hfollows.commit hcommits
    simp only [hrun, hcommit, hview, hcommits, if_true]
    exact committed_iff hturns
  | false =>
    obtain ⟨conn', hcommit, hdurable⟩ := hfollows.no_commit hcommits
    simp only [hrun, hcommit, hdurable, hevents, hcommits, Bool.false_eq_true, if_false]
    rw [← and_assoc, ← durable_iff hturns]
    constructor
    · intro htrue
      have hsame : c.durable = D := htrue.eq_of_no_event
      rw [hsame] at htrue
      exact ⟨hsame, hserial.mp htrue⟩
    · rintro ⟨hsame, hmiss⟩
      rw [hsame]
      exact hserial.mpr hmiss

theorem unbegun_truthful (ctx : Ctx) (batch : List (Command × Env)) (D : Database)
    (hbegin : (nextFate faults).1 ≠ .none) :
    Truthful D batch (runBatch ctx batch (.open D faults)) := by
  obtain ⟨conn, hconn⟩ := begin_fails D hbegin
  rw [Truthful, runBatch, hconn]
  simp only [begin_failed hconn]
  exact begin_failed_serial D batch

theorem truthful_of_contained (h : Contained ctx batch D faults) :
    Truthful D batch (runBatch ctx batch (.open D faults)) := by
  by_cases hbegin : (nextFate faults).1 = .none
  · exact (begun_truthful ctx batch D hbegin).mpr (h hbegin)
  · exact unbegun_truthful ctx batch D hbegin

/-- A batch may lose its transaction and still tell the truth. -/
example : Contained noLimits twoCreates .empty (List.replicate 6 .none ++ [.rollback]) := by decide

/-! ## A batch that meets no failure -/

theorem release_healthy (n : Nat) (hopen : c.txn.isSome) :
    c.release w n [] = { c with txn := some w, fates := [], waiting := c.waiting + n } := by
  obtain ⟨v, hv⟩ := Option.isSome_iff_exists.mp hopen
  simp [Course.release, nextFate, hv]

theorem turn_healthy (ctx : Ctx) (op : Command × Env) (hfates : c.fates = [])
    (hopen : c.txn.isSome) :
    (c.turn ctx op).fates = [] ∧ (c.turn ctx op).txn.isSome ∧ (c.turn ctx op).lost = c.lost ∧
      (c.turn ctx op).stray = c.stray := by
  have hstays : ∃ t, (perform ctx op.1 op.2 (inside c.durable c.view [])).2.txn = some t ∧
      (perform ctx op.1 op.2 (inside c.durable c.view [])).2.faults = [] := by
    rcases perform_loose ctx op.2 op.1 (inside c.durable c.view []) _ rfl with
      ⟨fs, a, w, hfs, hrun, -⟩ | ⟨fs, e, w, hfs, hrun⟩ | ⟨hroll, -⟩
    · exact ⟨_, by rw [hrun]; rfl, by rw [hrun]; exact List.suffix_nil.mp hfs⟩
    · exact ⟨_, by rw [hrun]; rfl, by rw [hrun]; exact List.suffix_nil.mp hfs⟩
    · cases hroll
  obtain ⟨t, ht, hfs⟩ := hstays
  rw [Course.turn, hfates]
  simp only [nextFate, Course.apply]
  rcases hp : perform ctx op.1 op.2 (inside c.durable c.view []) with ⟨r, conn⟩
  simp only [hp] at ht hfs
  simp only [ht, hfs]
  rw [release_healthy _ (by exact hopen)]
  exact ⟨rfl, rfl, rfl, rfl⟩

theorem course_healthy (ctx : Ctx) (batch : List (Command × Env)) (hfates : c.fates = [])
    (hopen : c.txn.isSome) :
    let c' := batch.foldl (Course.turn ctx) c
    c'.fates = [] ∧ c'.txn.isSome ∧ c'.lost = c.lost ∧ c'.stray = c.stray := by
  induction batch generalizing c with
  | nil => exact ⟨hfates, hopen, rfl, rfl⟩
  | cons op rest ih =>
    obtain ⟨hf, ho, hlost, hstray⟩ := turn_healthy ctx op hfates hopen
    obtain ⟨hf', ho', hlost', hstray'⟩ := ih hf ho
    exact ⟨hf', ho', hlost'.trans hlost, hstray'.trans hstray⟩

theorem contained_healthy (ctx : Ctx) (batch : List (Command × Env)) (D : Database) :
    Contained ctx batch D [] := by
  intro _
  obtain ⟨hf, ho, hlost, hstray⟩ :=
    course_healthy ctx batch (show (Course.start D []).fates = [] from rfl) rfl
  have hcommits : (course ctx D batch []).commits = true := by
    rw [Course.commits, show (course ctx D batch []).fates = [] from hf,
      show (course ctx D batch []).txn.isSome = true from ho]
    rfl
  simp only [nextFate, hcommits, if_true]
  exact ⟨hstray, hlost⟩

end TinyLord
