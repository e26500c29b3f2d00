import TinyLord.Db.Numbering
import TinyLord.Lib.Lockstep

/-!
# Group commit cannot be seen

However a list of ops is cut into batches, the replies, the events and the tables are the same. An
op sees only the tables and the number that comes next, and neither tells where a batch begins.
-/

open Lib.Transaction Lib.Sequence

namespace TinyLord

/-! ## The statement -/

/-- A data command as it is run, with the faults its own statements meet. -/
structure Issued where
  cmd : Command
  env : Env
  faults : List Fault

def Issued.op (op : Issued) : Command × Env := (op.cmd, op.env)

/-- A batch, and the fault its trim meets. -/
structure Group where
  ops : List Issued
  trim : Fault

/-- `BEGIN` and `COMMIT` succeed. -/
def Group.faults (g : Group) : List Fault :=
  .none :: (g.ops.flatMap (·.faults) ++ [.none, g.trim])

/-- One `process_batch` call for each group: the replies, the events and the last database. -/
def runGroups (ctx : Ctx) : List Group → Database → List Reply × List ChangeEvent × Database
  | [], D => ([], [], D)
  | g :: gs, D =>
    let o := processBatch ctx (g.ops.map Issued.op) (.open D g.faults)
    let (replies, events, D') := runGroups ctx gs o.conn.committed
    (o.replies ++ replies, o.events ++ events, D')

/-- A connection on which `BEGIN` was issued. -/
def begun (D : Database) (faults : List Fault) : Conn Database :=
  { Conn.open D faults with txn := some { work := D, marks := [], begun := true } }

/-- One op, with nothing but a `COMMIT` after it. -/
def solo (ctx : Ctx) (op : Issued) (D : Database) : Finish × Conn Database :=
  runOp ctx op.cmd op.env (begun D (op.faults ++ [.none]))

/-- One after the other, each op issues as many statements as it has faults. -/
def Fits (ctx : Ctx) : List Issued → Database → Prop
  | [], _ => True
  | op :: ops, D => (solo ctx op D).2.faults = [.none] ∧ Fits ctx ops (solo ctx op D).2.current

/-- A failing statement aborts its own savepoint, and nothing else. -/
def Calm (ops : List Issued) : Prop := ∀ op ∈ ops, .rollback ∉ op.faults

/-! ## What an op can see -/

/-- The same tables, and logs that a trim makes the same. -/
structure Alike (retention : Int) (D D' : Database) : Prop where
  collections : D.collections = D'.collections
  log : trimChangelog retention D.changelog = trimChangelog retention D'.changelog

variable {ctx : Ctx} {retention : Int} {D D' : Database} {log log' : List ChangelogRow}

theorem maxSeq_trim (retention : Int) (log : List ChangelogRow) :
    maxSeq (trimChangelog retention log) = maxSeq log := by
  by_cases hl : log = []
  · rw [hl, trimChangelog]
    simp
  · by_cases hr : retention ≤ 0
    · rw [trimChangelog, if_pos hr]
    · have hne := trimChangelog_ne_nil retention log hl
      rw [trimChangelog_eq, if_neg hr] at hne ⊢
      exact maxKey_above hne

theorem trim_insertChangelog (hr : 0 < retention) (log : List ChangelogRow) (c : Change) :
    trimChangelog retention (insertChangelog log c) =
      above (·.seq) (nextSeq log - retention) (trimChangelog retention log) ++
        [c.row (nextSeq log)] := by
  have hmax : maxSeq (insertChangelog log c) = nextSeq log := by
    apply maxKey_append (fun r : ChangelogRow => r.seq)
    exact fun r hr => le_of_lt (lt_nextSeq hr)
  have hcut : max (nextSeq log - retention) (maxSeq log - retention) = nextSeq log - retention := by
    unfold nextSeq
    omega
  have hrow : above (·.seq) (nextSeq log - retention) [c.row (nextSeq log)] =
      [c.row (nextSeq log)] := by
    have hlt : nextSeq log - retention < (c.row (nextSeq log)).seq := by
      simp [Change.row]
      omega
    simp [above, hlt]
  rw [trimChangelog_eq, trimChangelog_eq, if_neg (by omega), if_neg (by omega), hmax, above_above,
    hcut, insertChangelog, above_append, hrow]

theorem nextSeq_congr (h : trimChangelog retention log = trimChangelog retention log') :
    nextSeq log = nextSeq log' := by
  rw [nextSeq, nextSeq, ← maxSeq_trim retention log, h, maxSeq_trim]

theorem insert_congr (h : trimChangelog retention log = trimChangelog retention log') (c : Change) :
    trimChangelog retention (insertChangelog log c) =
      trimChangelog retention (insertChangelog log' c) := by
  by_cases hr : retention ≤ 0
  · rw [trimChangelog, trimChangelog, if_pos hr, if_pos hr] at h
    rw [h]
  · rw [trim_insertChangelog (by omega), trim_insertChangelog (by omega), h, nextSeq_congr h]

theorem trim_trim (retention : Int) (log : List ChangelogRow) :
    trimChangelog retention (trimChangelog retention log) = trimChangelog retention log := by
  by_cases hr : retention ≤ 0
  · simp [trimChangelog, hr]
  · rw [trimChangelog_eq retention (trimChangelog retention log), if_neg hr, maxSeq_trim,
      trimChangelog_eq, if_neg hr, above_above, max_self]

/-! ## Each op in lockstep -/

theorem respects_collections {α : Type} {f : Database → Except SqlError (α × Database)}
    (hf : ∀ cs log, f ⟨cs, log⟩ =
      (f ⟨cs, []⟩).map fun r => (r.1, { r.2 with changelog := log })) :
    Respects (Alike retention) f := by
  rintro ⟨cs, log⟩ ⟨cs', log'⟩ ⟨rfl, hlog⟩
  rw [hf cs log, hf cs log']
  cases f ⟨cs, []⟩ with
  | error e => exact Or.inl ⟨e, rfl, rfl⟩
  | ok r => exact Or.inr ⟨r.1, _, _, rfl, rfl, rfl, hlog⟩

theorem respects_ensure (name : String) :
    Respects (Alike retention) fun db => .ok ((), ensureCollection db name) := by
  apply respects_collections
  intro cs log
  simp only [ensureCollection, Database.table, Except.map]
  split <;> rfl

theorem respects_insertDoc (name : String) (row : DocRow) :
    Respects (Alike retention) (insertDoc name row) := by
  apply respects_collections
  intro cs log
  simp only [insertDoc, Database.table, Database.updateTable]
  split
  · rfl
  · split <;> rfl

theorem respects_updateDoc (name id : String) (doc : Json) (now : Int) :
    Respects (Alike retention) (updateDoc name id doc now) := by
  apply respects_collections
  intro cs log
  simp only [updateDoc, Database.table, Database.updateTable]
  split <;> rfl

theorem respects_deleteDoc (name id : String) :
    Respects (Alike retention) (deleteDoc name id) := by
  apply respects_collections
  intro cs log
  simp only [deleteDoc, Database.table, Database.updateTable]
  split <;> rfl

theorem respects_logChange (c : Change) : Respects (Alike retention) (logChange c) := by
  intro D D' h
  have hnext : logChange c D' = .ok (nextSeq D.changelog, { D' with
      changelog := insertChangelog D'.changelog c }) := by
    rw [logChange, nextSeq_congr h.log]
  exact Or.inr ⟨nextSeq D.changelog, _, _, rfl, hnext, h.collections, insert_congr h.log c⟩

theorem lockstep_insertChange (c : Change) : Lockstep (Alike retention) (insertChange c) :=
  (Lockstep.write (respects_logChange c)).mapErr _

theorem lockstep_prepare (hsize : ctx.maxDatabaseBytes = 0) (env : Env) (collection : String) :
    Lockstep (Alike retention) (prepare ctx env collection) := by
  unfold prepare checkDbSize
  rw [if_pos hsize]
  exact (Lockstep.pure ()).bind fun _ => (Lockstep.write (respects_ensure collection)).mapErr _

theorem lockstep_doCreate (hsize : ctx.maxDatabaseBytes = 0) (env : Env) (collection : String)
    (doc : Json) : Lockstep (Alike retention) (doCreate ctx env collection doc) :=
  (lockstep_prepare hsize env collection).bind fun _ =>
    ((Lockstep.write (respects_insertDoc _ _)).mapErr _).bind fun _ =>
      (lockstep_insertChange _).bind fun _ => Lockstep.pure _

theorem lockstep_logReplace (env : Env) (collection id : String) (doc : Json) (created : Bool)
    (createdAt : Int) (op : Op) :
    Lockstep (Alike retention) (logReplace env collection id doc created createdAt op) :=
  (lockstep_insertChange _).bind fun _ => Lockstep.pure _

theorem lockstep_doReplace (hsize : ctx.maxDatabaseBytes = 0) (env : Env)
    (collection id : String) (doc : Json) :
    Lockstep (Alike retention) (doReplace ctx env collection id doc) := by
  refine (lockstep_prepare hsize env collection).bind fun _ => Lockstep.bind (.toOption (.read ?_))
    fun existing => ?_
  · rintro ⟨cs, log⟩ ⟨cs', log'⟩ ⟨rfl, -⟩
    rfl
  · cases existing with
    | some createdAt =>
      exact ((Lockstep.write (respects_updateDoc _ _ _ _)).mapErr _).bind fun _ =>
        lockstep_logReplace _ _ _ _ _ _ _
    | none =>
      exact ((Lockstep.write (respects_insertDoc _ _)).mapErr _).bind fun _ =>
        lockstep_logReplace _ _ _ _ _ _ _

theorem lockstep_doDelete (env : Env) (collection id : String) :
    Lockstep (Alike retention) (doDelete env collection id) := by
  refine Lockstep.bind ((Lockstep.read ?_).mapErr _) fun there => ?_
  · rintro ⟨cs, log⟩ ⟨cs', log'⟩ ⟨rfl, -⟩
    rfl
  · cases there with
    | false => exact Lockstep.pure none
    | true =>
      refine Lockstep.bind ((Lockstep.write (respects_deleteDoc _ _)).mapErr _) fun changed => ?_
      split
      · exact Lockstep.pure none
      · exact (lockstep_insertChange _).bind fun _ => Lockstep.pure _

theorem lockstep_perform (hsize : ctx.maxDatabaseBytes = 0) (cmd : Command) (env : Env) :
    Lockstep (Alike retention) (perform ctx cmd env) := by
  cases cmd with
  | create collection doc =>
    exact (lockstep_doCreate hsize env collection doc).bind fun _ => Lockstep.pure _
  | replace collection id doc =>
    exact (lockstep_doReplace hsize env collection id doc).bind fun _ => Lockstep.pure _
  | delete collection id =>
    exact (lockstep_doDelete env collection id).bind fun _ => Lockstep.pure _

/-! ## One turn of the loop in lockstep -/

variable {cmd : Command} {env : Env} {fs rest rest' : List Fault} {c c' : Conn Database}
  {t t' : Txn Database}

/-- What is left to do for an op, from what it gave. -/
def opResult (cmd : Command) : Except ApiError (Option (Reply × ChangeEvent)) → OpResult
  | .ok (some (reply, ev)) => .success (onCommit cmd reply ev)
  | .ok none => .success onMissed
  | .error e => .failed (onError cmd e)

theorem applyOp_eq (ctx : Ctx) (cmd : Command) (env : Env) (c : Conn Database) :
    applyOp ctx cmd env c =
      (opResult cmd (perform ctx cmd env c).1, (perform ctx cmd env c).2) := by
  unfold applyOp
  rcases perform ctx cmd env c with ⟨e | _ | ⟨reply, ev⟩, c₁⟩ <;> rfl

theorem closeOp_faults (r : OpResult) (c : Conn Database) :
    (closeOp (r, c)).2.faults <:+ c.faults := by
  have hrelease : ∀ c : Conn Database, c.release.2.faults <:+ c.faults := by
    intro c
    rw [release_faults]
    exact nextFault_shrinks c
  cases r with
  | success finish => exact hrelease c
  | failed finish =>
    have hback := rollbackTo_faults c
    rw [closeOp]
    rcases hroll : c.rollbackTo with ⟨_ | _, c₁⟩ <;> rw [hroll] at hback
    · exact hback ▸ List.suffix_refl _
    · exact hback ▸ hrelease c₁

theorem closeOp_twins {R : Database → Database → Prop} {m m' : Database} {ms ms' : List Database}
    (r : OpResult) (h : Twins R fs rest rest' c c' t t') (hb : t.begun = true)
    (hb' : t'.begun = true) (hm : t.marks = m :: ms) (hm' : t'.marks = m' :: ms') (hR : R m m')
    (hrest : rest <:+ (closeOp (r, c)).2.faults) :
    (closeOp (r, c')).1 = (closeOp (r, c)).1 ∧ ∃ t₁ t₁' gs, t₁.begun = true ∧ t₁'.begun = true ∧
      Twins R gs rest rest' (closeOp (r, c)).2 (closeOp (r, c')).2 t₁ t₁' := by
  cases r with
  | success finish =>
    obtain ⟨n, n', gs, htwins⟩ := h.release hb hb' (by simp [hm]) (by simp [hm']) hrest
    exact ⟨rfl, { t with marks := n }, { t' with marks := n' }, gs, hb, hb', htwins⟩
  | failed finish =>
    obtain ⟨hok, hok', hback⟩ := h.rollbackTo hm hm' hR
    rcases hc : c.rollbackTo with ⟨ok, c₁⟩
    rcases hc' : c'.rollbackTo with ⟨ok', c₁'⟩
    rw [hc, hc'] at hback
    rw [hc] at hok
    rw [hc'] at hok'
    simp only at hok hok' hback
    subst hok hok'
    simp only [closeOp, hc, hc'] at hrest ⊢
    obtain ⟨n, n', gs, htwins⟩ := hback.release hb hb' (by simp [hm]) (by simp [hm']) hrest
    exact ⟨trivial, { t with work := m, marks := n }, { t' with work := m', marks := n' }, gs, hb,
      hb', htwins⟩

theorem runOp_of_savepoint (ctx : Ctx) (cmd : Command) (env : Env) (c : Conn Database) :
    runOp ctx cmd env c =
      if c.savepoint.1 then closeOp (applyOp ctx cmd env c.savepoint.2)
      else (onError cmd .internal, c.savepoint.2) := by
  unfold runOp
  rcases c.savepoint with ⟨_ | _, c₁⟩ <;> rfl

theorem runOp_faults (hsize : ctx.maxDatabaseBytes = 0) (cmd : Command) (env : Env)
    (c : Conn Database) : (runOp ctx cmd env c).2.faults <:+ c.savepoint.2.faults := by
  rw [runOp_of_savepoint]
  split
  · have hperform : Lockstep (Alike 0) (perform ctx cmd env) := lockstep_perform hsize cmd env
    rw [applyOp_eq]
    exact (closeOp_faults _ _).trans (hperform.shrinks c.savepoint.2)
  · exact List.suffix_refl _

theorem runOp_twins (hsize : ctx.maxDatabaseBytes = 0) (cmd : Command) (env : Env)
    (h : Twins (Alike retention) fs rest rest' c c' t t') (hb : t.begun = true)
    (hb' : t'.begun = true) (hrest : rest <:+ (runOp ctx cmd env c).2.faults) :
    (runOp ctx cmd env c').1 = (runOp ctx cmd env c).1 ∧
      ∃ t₁ t₁' gs, t₁.begun = true ∧ t₁'.begun = true ∧
        Twins (Alike retention) gs rest rest' (runOp ctx cmd env c).2 (runOp ctx cmd env c').2
          t₁ t₁' := by
  obtain ⟨gs, ⟨hsp, hsp', htwins⟩ | ⟨hsp, hsp', htwins⟩⟩ :=
    h.savepoint (hrest.trans (runOp_faults hsize cmd env c))
  · simp only [runOp_of_savepoint, hsp, hsp', Bool.false_eq_true, if_false]
    exact ⟨trivial, t, t', gs, hb, hb', htwins⟩
  · simp only [runOp_of_savepoint, hsp, hsp', if_true, applyOp_eq] at hrest ⊢
    obtain ⟨hres, w, w', gs', hwork⟩ := (lockstep_perform hsize cmd env).agree _ _ _ _ _ _ _
      htwins (hrest.trans (closeOp_faults _ _))
    rw [hres]
    exact closeOp_twins _ hwork hb hb' rfl rfl h.work hrest

/-! ## Any batch against one op after the other -/

/-- The finishers of the ops run alone, and the database they lead to. -/
def solos (ctx : Ctx) : List Issued → Database → List Finish × Database
  | [], D => ([], D)
  | op :: ops, D =>
    let r := solos ctx ops (solo ctx op D).2.current
    ((solo ctx op D).1 :: r.1, r.2)

theorem solos_append (ctx : Ctx) (ops ops' : List Issued) (D : Database) :
    solos ctx (ops ++ ops') D =
      ((solos ctx ops D).1 ++ (solos ctx ops' (solos ctx ops D).2).1,
        (solos ctx ops' (solos ctx ops D).2).2) := by
  induction ops generalizing D with
  | nil => rfl
  | cons op ops ih => simp only [List.cons_append, solos, ih]

theorem fits_append {ops ops' : List Issued} (h : Fits ctx (ops ++ ops') D) :
    Fits ctx ops D ∧ Fits ctx ops' (solos ctx ops D).2 := by
  induction ops generalizing D with
  | nil => exact ⟨trivial, h⟩
  | cons op ops ih =>
    obtain ⟨hrest, hrest'⟩ := ih h.2
    exact ⟨⟨h.1, hrest⟩, hrest'⟩

theorem exists_fits (hsize : ctx.maxDatabaseBytes = 0) (op : Issued)
    (hcalm : .rollback ∉ op.faults) (hleft : (solo ctx op D).2.faults ≠ []) :
    ∃ fs, fs <+: op.faults ∧ Fits ctx [{ op with faults := fs }] D ∧
      (solo ctx { op with faults := fs } D).1 = (solo ctx op D).1 := by
  have hused : (solo ctx op D).2.faults <:+ op.faults ++ [.none] := by
    refine (runOp_faults hsize op.cmd op.env _).trans ?_
    rw [savepoint_faults]
    exact nextFault_shrinks _
  obtain ⟨fs, hfs⟩ := hused
  have hfirst : fs <+: op.faults := by
    rcases List.append_eq_append_iff.mp hfs with ⟨as, hop, -⟩ | ⟨bs, hfs', hbs⟩
    · exact ⟨as, hop.symm⟩
    · rcases List.append_eq_singleton_iff.mp hbs.symm with ⟨rfl, -⟩ | ⟨-, hnil⟩
      · simp [hfs']
      · exact absurd hnil hleft
  have hstart : Twins (Alike 0) fs (solo ctx op D).2.faults [.none]
      (begun D (op.faults ++ [.none])) (begun D (fs ++ [.none]))
      { work := D, marks := [], begun := true } { work := D, marks := [], begun := true } :=
    ⟨rfl, rfl, ⟨rfl, rfl⟩, hfs.symm, rfl, hleft, fun h => hcalm (hfirst.mem h)⟩
  obtain ⟨hfinish, t₁, t₁', gs, -, -, htwins⟩ := runOp_twins hsize op.cmd op.env
    hstart rfl rfl (List.suffix_refl _)
  have hgs : gs = [] := by
    simpa [solo] using congrArg List.length htwins.faults
  subst hgs
  exact ⟨fs, hfirst, ⟨htwins.faults', trivial⟩, hfinish⟩

theorem runOps_solos (hsize : ctx.maxDatabaseBytes = 0) (ops : List Issued) (hfits : Fits ctx ops D)
    (hcalm : Calm ops) (htxn : c.txn = some t) (hb : t.begun = true)
    (hlike : Alike retention D t.work) (hfaults : c.faults = ops.flatMap (·.faults) ++ rest) :
    (runOps ctx (ops.map Issued.op) c).1 = (solos ctx ops D).1 ∧
      ∃ t₁, (runOps ctx (ops.map Issued.op) c).2.txn = some t₁ ∧ t₁.begun = true ∧
        Alike retention (solos ctx ops D).2 t₁.work ∧
        (runOps ctx (ops.map Issued.op) c).2.faults = rest := by
  induction ops generalizing D c t with
  | nil => exact ⟨rfl, t, htxn, hb, hlike, hfaults⟩
  | cons op ops ih =>
    obtain ⟨hused, hfits⟩ := hfits
    obtain ⟨hop, hops⟩ := List.forall_mem_cons.mp hcalm
    rw [List.flatMap_cons, List.append_assoc] at hfaults
    have hstart : Twins (Alike retention) op.faults [.none] (ops.flatMap (·.faults) ++ rest)
        (begun D (op.faults ++ [.none])) c { work := D, marks := [], begun := true } t :=
      ⟨rfl, htxn, hlike, rfl, hfaults, by simp, hop⟩
    obtain ⟨hfinish, t₁, t₁', gs, hb₁, hb₁', htwins⟩ := runOp_twins hsize op.cmd op.env
      hstart rfl hb (by rw [← solo, hused])
    -- All its faults are used up.
    have hgs : gs = [] := by
      have hleft := htwins.faults
      rw [← solo, hused] at hleft
      simpa using congrArg List.length hleft
    subst hgs
    have hcur : (solo ctx op D).2.current = t₁.work := by
      rw [solo, Conn.current, htwins.txn]
    obtain ⟨hfinishes, hend⟩ := ih hfits hops htwins.txn' hb₁' (hcur ▸ htwins.work) htwins.faults'
    refine ⟨?_, hend⟩
    simp only [List.map_cons, runOps, solos]
    rw [← hfinishes]
    exact congrArg (· :: _) hfinish

/-- A batch answers and broadcasts what its ops do alone. -/
theorem runBatch_solos (hsize : ctx.maxDatabaseBytes = 0) (g : Group) (hfits : Fits ctx g.ops D)
    (hcalm : Calm g.ops) (hlike : Alike ctx.retention D D') :
    let o := runBatch ctx (g.ops.map Issued.op) (.open D' g.faults)
    let r := solos ctx g.ops D
    o.replies = r.1.map (fun finish => (finish true).1) ∧
      o.events = r.1.filterMap (fun finish => (finish true).2) ∧ o.committed = true ∧
      Alike ctx.retention r.2 o.conn.committed ∧ o.conn.txn = none ∧ o.conn.faults = [g.trim] := by
  have hbegin : (Conn.open D' g.faults).begin =
      (true, begun D' (g.ops.flatMap (·.faults) ++ [.none, g.trim])) := rfl
  obtain ⟨hfinishes, t, htxn, hb, hend, hfaults⟩ := runOps_solos hsize g.ops hfits hcalm
    (c := begun D' (g.ops.flatMap (·.faults) ++ [.none, g.trim])) rfl rfl hlike rfl
  rcases hops : runOps ctx (g.ops.map Issued.op)
    (begun D' (g.ops.flatMap (·.faults) ++ [.none, g.trim])) with ⟨finishes, conn⟩
  rw [hops] at hfinishes htxn hfaults
  simp only at hfinishes htxn hfaults
  have hcommit : conn.commit.1 = true ∧ conn.commit.2.committed = t.work ∧
      conn.commit.2.txn = none ∧ conn.commit.2.faults = [g.trim] := by
    simp [Conn.commit, Conn.nextFault, hfaults, htxn]
  rcases hc : conn.commit with ⟨ok, conn'⟩
  rw [hc] at hcommit
  obtain ⟨hok, hwork, hclosed, hleft⟩ := hcommit
  simp only at hok hwork hclosed hleft
  subst hok
  simp only [runBatch, hbegin, hops, hc, ← hfinishes]
  exact ⟨trivial, trivial, trivial, hwork ▸ hend, hclosed, hleft⟩

theorem Alike.refl (D : Database) : Alike retention D D := ⟨rfl, rfl⟩

theorem Alike.trim (h : Alike ctx.retention D c.committed) :
    Alike ctx.retention D (trim ctx c).committed := by
  rcases trim_committed ctx c with htrim | htrim
  · rw [htrim]
    exact h
  · rw [htrim]
    exact ⟨h.collections, h.log.trans (trim_trim _ _).symm⟩

/-- Also after the trim, whether it runs or not. -/
theorem processBatch_solos (hsize : ctx.maxDatabaseBytes = 0) (g : Group)
    (hfits : Fits ctx g.ops D) (hcalm : Calm g.ops) (hlike : Alike ctx.retention D D') :
    let o := processBatch ctx (g.ops.map Issued.op) (.open D' g.faults)
    let r := solos ctx g.ops D
    o.replies = r.1.map (fun finish => (finish true).1) ∧
      o.events = r.1.filterMap (fun finish => (finish true).2) ∧
      Alike ctx.retention r.2 o.conn.committed := by
  obtain ⟨hreplies, hevents, -, hend, -, -⟩ := runBatch_solos hsize g hfits hcalm hlike
  simp only [processBatch]
  split
  · exact ⟨hreplies, hevents, hend.trim⟩
  · exact ⟨hreplies, hevents, hend⟩

theorem runGroups_solos (hsize : ctx.maxDatabaseBytes = 0) (gs : List Group)
    (hfits : Fits ctx (gs.flatMap (·.ops)) D) (hcalm : Calm (gs.flatMap (·.ops)))
    (hlike : Alike ctx.retention D D') :
    let o := runGroups ctx gs D'
    let r := solos ctx (gs.flatMap (·.ops)) D
    o.1 = r.1.map (fun finish => (finish true).1) ∧
      o.2.1 = r.1.filterMap (fun finish => (finish true).2) ∧
      Alike ctx.retention r.2 o.2.2 := by
  induction gs generalizing D D' with
  | nil => exact ⟨rfl, rfl, hlike⟩
  | cons g gs ih =>
    rw [List.flatMap_cons] at hfits hcalm ⊢
    obtain ⟨hfirst, hrest⟩ := fits_append hfits
    obtain ⟨hcalm₁, hcalm₂⟩ := List.forall_mem_append.mp hcalm
    obtain ⟨hreplies, hevents, hend⟩ := processBatch_solos hsize g hfirst hcalm₁ hlike
    obtain ⟨hreplies', hevents', hend'⟩ := ih hrest hcalm₂ hend
    simp only [runGroups, solos_append, List.map_append, List.filterMap_append, hreplies, hevents,
      hreplies', hevents']
    exact ⟨trivial, trivial, hend'⟩

/-! ## What the last trim leaves -/

theorem calm_keeps {g : Group} (hcalm : Calm g.ops) (htrim : g.trim = .none) (D : Database) :
    KeepsTransaction ctx (g.ops.map Issued.op) (.open D g.faults) := by
  apply keeps_of_calm
  intro hroll
  simp only [Group.faults, htrim, List.mem_cons, List.mem_append, List.mem_flatMap,
    reduceCtorEq, List.not_mem_nil, or_false, false_or] at hroll
  obtain ⟨op, hop, hmem⟩ := hroll
  exact hcalm op hop hmem

theorem processBatch_settled (hsize : ctx.maxDatabaseBytes = 0) (g : Group)
    (hfits : Fits ctx g.ops D) (hcalm : Calm g.ops) (hlike : Alike ctx.retention D D')
    (htrim : g.trim = .none) :
    let o := processBatch ctx (g.ops.map Issued.op) (.open D' g.faults)
    (o.events = [] → o.conn.committed = D') ∧
      (o.events ≠ [] → trimChangelog ctx.retention o.conn.committed.changelog =
        o.conn.committed.changelog) := by
  have hkeep : KeepsTransaction ctx (g.ops.map Issued.op) (.open D' g.faults) :=
    calm_keeps hcalm htrim D'
  obtain ⟨-, -, hcom, -, hclosed, hfaults⟩ := runBatch_solos hsize g hfits hcalm hlike
  simp only [processBatch_events]
  refine ⟨fun hnone => ?_, fun hsome => ?_⟩
  · simp only [processBatch, hnone, List.isEmpty_nil, Bool.not_true, Bool.and_false,
      Bool.false_eq_true, if_false]
    rcases runBatch_calm ctx _ D' hkeep with htrue | ⟨hsame, -, -⟩
    · rw [Truthful, hnone] at htrue
      exact htrue.eq_of_no_event
    · exact hsame
  · have hruns : TrimRuns ctx (g.ops.map Issued.op) (.open D' g.faults) := by
      simp [TrimRuns, Conn.nextFault, hfaults, htrim]
    rw [processBatch_trimmed hkeep hsome hruns]
    exact trim_trim _ _

theorem runGroups_settled (hsize : ctx.maxDatabaseBytes = 0) (gs : List Group)
    (hfits : Fits ctx (gs.flatMap (·.ops)) D) (hcalm : Calm (gs.flatMap (·.ops)))
    (hlike : Alike ctx.retention D D') (htrim : ∀ g ∈ gs, g.trim = .none) :
    let o := runGroups ctx gs D'
    (o.2.1 = [] → o.2.2 = D') ∧
      (o.2.1 ≠ [] → trimChangelog ctx.retention o.2.2.changelog = o.2.2.changelog) := by
  induction gs generalizing D D' with
  | nil => exact ⟨fun _ => rfl, fun h => absurd rfl h⟩
  | cons g gs ih =>
    rw [List.flatMap_cons] at hfits hcalm
    obtain ⟨hfirst, hrest⟩ := fits_append hfits
    obtain ⟨hcalm₁, hcalm₂⟩ := List.forall_mem_append.mp hcalm
    obtain ⟨htrim₁, htrim₂⟩ := List.forall_mem_cons.mp htrim
    obtain ⟨-, -, hend⟩ := processBatch_solos hsize g hfirst hcalm₁ hlike
    obtain ⟨hsame, htrimmed⟩ := processBatch_settled hsize g hfirst hcalm₁ hlike htrim₁
    obtain ⟨hsame', htrimmed'⟩ := ih hrest hcalm₂ hend htrim₂
    simp only [runGroups, ne_eq, List.append_eq_nil_iff]
    refine ⟨fun h => (hsame' h.2).trans (hsame h.1), ?_⟩
    intro h
    by_cases hlast : (runGroups ctx gs
        (processBatch ctx (g.ops.map Issued.op) (.open D' g.faults)).conn.committed).2.1 = []
    · rw [hsame' hlast]
      exact htrimmed fun hnone => h ⟨hnone, hlast⟩
    · exact htrimmed' hlast

/-- Two ways to cut the same ops into groups give the same replies, the same events with the same
numbers, the same tables, and logs that differ at most by a trim that has failed. -/
theorem group_commit (hsize : ctx.maxDatabaseBytes = 0) (gs gs' : List Group)
    (hops : gs.flatMap (·.ops) = gs'.flatMap (·.ops)) (hfits : Fits ctx (gs.flatMap (·.ops)) D)
    (hcalm : Calm (gs.flatMap (·.ops))) :
    let r := runGroups ctx gs D
    let r' := runGroups ctx gs' D
    r.1 = r'.1 ∧ r.2.1 = r'.2.1 ∧ r.2.2.collections = r'.2.2.collections ∧
      trimChangelog ctx.retention r.2.2.changelog =
        trimChangelog ctx.retention r'.2.2.changelog ∧
      ((∀ g ∈ gs ++ gs', g.trim = .none) → r.2.2.changelog = r'.2.2.changelog) := by
  have hfits' : Fits ctx (gs'.flatMap (·.ops)) D := hops ▸ hfits
  have hcalm' : Calm (gs'.flatMap (·.ops)) := hops ▸ hcalm
  obtain ⟨hreplies, hevents, hend⟩ := runGroups_solos hsize gs hfits hcalm (.refl D)
  obtain ⟨hreplies', hevents', hend'⟩ := runGroups_solos hsize gs' hfits' hcalm' (.refl D)
  rw [← hops] at hreplies' hevents' hend'
  have hlogs := hend.log.symm.trans hend'.log
  refine ⟨hreplies.trans hreplies'.symm, hevents.trans hevents'.symm,
    hend.collections.symm.trans hend'.collections, hlogs, ?_⟩
  intro htrim
  obtain ⟨htrim₁, htrim₂⟩ := List.forall_mem_append.mp htrim
  obtain ⟨hsame, htrimmed⟩ := runGroups_settled hsize gs hfits hcalm (.refl D) htrim₁
  obtain ⟨hsame', htrimmed'⟩ := runGroups_settled hsize gs' hfits' hcalm' (.refl D) htrim₂
  have hboth := hevents.trans hevents'.symm
  by_cases hnone : (runGroups ctx gs D).2.1 = []
  · rw [hsame hnone, hsame' (hboth ▸ hnone)]
  · rw [← htrimmed hnone, ← htrimmed' (hboth ▸ hnone), hlogs]

/-- Two creates, the second with a failing insert, then a delete. -/
def threeOps : List Issued :=
  [⟨.create "notes" .null, envAt "a" 1, [.none, .none, .none, .none, .none]⟩,
   ⟨.create "notes" .null, envAt "b" 2, [.none, .none, .statement, .none]⟩,
   ⟨.delete "notes" "a", envAt "x" 3, [.none, .none, .none, .none, .none]⟩]

theorem group_commit_threeOps :
    let r := runGroups keepOne [⟨threeOps, .none⟩] .empty
    let r' := runGroups keepOne (threeOps.map fun op => ⟨[op], .none⟩) .empty
    r.1 = r'.1 ∧ r.2.1 = r'.2.1 ∧ r.2.2.changelog = r'.2.2.changelog := by
  have hfits : Fits keepOne threeOps .empty := ⟨by decide, by decide, by decide, trivial⟩
  have hcalm : Calm threeOps := by
    intro op hop
    simp only [threeOps, List.mem_cons, List.not_mem_nil, or_false] at hop
    rcases hop with rfl | rfl | rfl <;> decide
  obtain ⟨hreplies, hevents, -, -, hlog⟩ := group_commit (D := .empty)
    (show keepOne.maxDatabaseBytes = 0 from rfl)
    [⟨threeOps, .none⟩] (threeOps.map fun op => ⟨[op], .none⟩) rfl hfits hcalm
  refine ⟨hreplies, hevents, hlog ?_⟩
  simp [threeOps]

end TinyLord
