import TinyLord.Db.Writer
import TinyLord.Lib.Invariant

/-!
# What a batch keeps

What every statement of the writer keeps, a batch keeps, whichever of its statements fail. Only a
create and a replace make a table, and each for its own collection.
-/

open Lib.Transaction

namespace TinyLord

variable {db db' : Database} {name id : String} {ctx : Ctx} {env : Env} {conn : Conn Database}
  {P : Database → Prop} {Q : String → Prop} {cmd : Command}

theorem forall_updateRows {Q : Collection → Prop} {f : List DocRow → List DocRow}
    {ts : List Collection} (hall : ∀ t ∈ ts, Q t)
    (hone : ∀ t, ts.find? (fun t => fold t.name = fold name) = some t →
      Q { t with rows := f t.rows }) : ∀ t ∈ updateRows name f ts, Q t := by
  induction ts with
  | nil => exact nofun
  | cons t ts ih =>
    rw [List.forall_mem_cons] at hall
    rw [updateRows]
    by_cases hname : fold t.name = fold name
    · rw [if_pos hname, List.forall_mem_cons]
      exact ⟨hone t (by simp [hname]), hall.2⟩
    · rw [if_neg hname, List.forall_mem_cons]
      refine ⟨hall.1, ih hall.2 fun u hu => hone u ?_⟩
      simpa [hname] using hu

/-! ## A batch keeps what its ops keep -/

section

variable {G G' : Conn Database → Prop}

theorem runOp_keeps (hG : Stable G) {cmd : Command}
    (hperform : ∀ c, G c → G (perform ctx cmd env c).2) (h : G conn) :
    G (runOp ctx cmd env conn).2 := by
  have hsave := hG.savepoint conn h
  unfold runOp
  generalize conn.savepoint = r at hsave ⊢
  obtain ⟨_ | _, conn₁⟩ := r
  · exact hsave
  · have hrun := hperform conn₁ hsave
    simp only [applyOp]
    generalize perform ctx cmd env conn₁ = r at hrun ⊢
    obtain ⟨e | _ | ⟨reply, ev⟩, conn₂⟩ := r
    · have hback := hG.rollbackTo conn₂ hrun
      simp only [closeOp]
      generalize conn₂.rollbackTo = r at hback ⊢
      obtain ⟨_ | _, conn₃⟩ := r
      · exact hback
      · exact hG.release conn₃ hback
    · exact hG.release conn₂ hrun
    · exact hG.release conn₂ hrun

theorem runBatch_keeps (hG : Stable G) (hG' : Stable G') (himp : ∀ c, G c → G' c)
    {batch : List (Command × Env)} (hops : ∀ c, G c → G' (runOps ctx batch c).2) (h : G conn) :
    G' (runBatch ctx batch conn).conn := by
  have hbegin := hG.begin conn h
  unfold runBatch
  generalize conn.begin = r at hbegin ⊢
  obtain ⟨_ | _, conn₁⟩ := r
  · exact himp _ hbegin
  · have hrun := hops conn₁ hbegin
    simp only
    generalize runOps ctx batch conn₁ = r at hrun ⊢
    have hcommit := hG'.commit r.2 hrun
    generalize r.2.commit = s at hcommit ⊢
    obtain ⟨_ | _, conn₂⟩ := s
    · exact hG'.rollback conn₂ hcommit
    · exact hcommit

end

/-! ## The writer -/

/-- The collection whose table the command makes when there is none. -/
def Command.ensures : Command → Option String
  | .create collection _ | .replace collection _ _ => some collection
  | .delete .. => none

/-- The statements of the writer keep `P`, when tables are made for collections with `Q` only. -/
structure Statements (P : Database → Prop) (Q : String → Prop) : Prop where
  log : ∀ db log, P db → P { db with changelog := log }
  ensure : ∀ db name, P db → Q name → P (ensureCollection db name)
  insert : ∀ db db' name row u, P db → insertDoc name row db = .ok (u, db') → P db'
  update : ∀ db db' name id doc now u, P db → updateDoc name id doc now db = .ok (u, db') → P db'
  delete : ∀ db db' name id n, P db → deleteDoc name id db = .ok (n, db') → P db'

theorem preserves_checkDbSize : Preserves P (checkDbSize ctx env) := by
  unfold checkDbSize
  split
  · exact .pure ()
  · refine ((Preserves.read _).mapErr _).bind fun pageCount => ?_
    refine ((Preserves.read _).mapErr _).bind fun pageSize => ?_
    dsimp only
    split
    · exact .throw _
    · exact .pure ()

namespace Statements

theorem insertChange (hP : Statements P Q) (c : Change) : Preserves P (insertChange c) := by
  refine (Preserves.write ?_).mapErr _
  rintro d seq d' h hrun
  cases hrun
  exact hP.log d _ h

theorem prepare (hP : Statements P Q) (hname : Q name) : Preserves P (prepare ctx env name) := by
  refine preserves_checkDbSize.bind fun _ => (Preserves.write ?_).mapErr _
  rintro d u d' h hrun
  cases hrun
  exact hP.ensure d name h hname

theorem insertDoc (hP : Statements P Q) (row : DocRow) :
    Preserves P ((Sql.write (insertDoc name row)).mapErr mapSqliteErr) :=
  (Preserves.write fun _ _ _ => hP.insert _ _ name row _).mapErr _

theorem doCreate (hP : Statements P Q) (hname : Q name) (doc : Json) :
    Preserves P (doCreate ctx env name doc) := by
  refine (hP.prepare hname).bind fun _ => ?_
  refine (hP.insertDoc _).bind fun _ => ?_
  exact (hP.insertChange _).bind fun seq => .pure _

theorem doReplace (hP : Statements P Q) (hname : Q name) (id : String) (doc : Json) :
    Preserves P (doReplace ctx env name id doc) := by
  refine (hP.prepare hname).bind fun _ => ?_
  refine (Preserves.read _).toOption.bind fun existing => ?_
  cases existing with
  | none =>
    refine (hP.insertDoc _).bind fun _ => ?_
    exact (hP.insertChange _).bind fun seq => .pure _
  | some createdAt =>
    refine Preserves.bind
      ((Preserves.write fun _ _ _ => hP.update _ _ name id doc env.now _).mapErr _) fun _ => ?_
    exact (hP.insertChange _).bind fun seq => .pure _

theorem doDelete (hP : Statements P Q) (name id : String) : Preserves P (doDelete env name id) := by
  refine ((Preserves.read _).mapErr _).bind fun there => ?_
  split
  · exact .pure _
  · refine Preserves.bind ((Preserves.write fun _ _ _ => hP.delete _ _ name id _).mapErr _)
      fun changed => ?_
    split
    · exact .pure _
    · exact (hP.insertChange _).bind fun seq => .pure _

theorem perform (hP : Statements P Q) (hcmd : ∀ name ∈ cmd.ensures, Q name) :
    Preserves P (perform ctx cmd env) := by
  cases cmd with
  | create name doc => exact (hP.doCreate (hcmd name rfl) doc).bind fun r => .pure _
  | replace name id doc => exact (hP.doReplace (hcmd name rfl) id doc).bind fun r => .pure _
  | delete name id => exact (hP.doDelete name id).bind fun ev => .pure _

theorem all_runOps (hP : Statements P Q) (batch : List (Command × Env))
    (hbatch : ∀ op ∈ batch, ∀ name ∈ op.1.ensures, Q name) (h : conn.All P) :
    (runOps ctx batch conn).2.All P := by
  induction batch generalizing conn with
  | nil => exact h
  | cons op rest ih =>
    obtain ⟨hop, hrest⟩ := List.forall_mem_cons.mp hbatch
    exact ih hrest (runOp_keeps (stable_all P) (hP.perform hop) h)

theorem all_runBatch (hP : Statements P Q) (batch : List (Command × Env))
    (hbatch : ∀ op ∈ batch, ∀ name ∈ op.1.ensures, Q name) (h : conn.All P) :
    (runBatch ctx batch conn).conn.All P :=
  runBatch_keeps (stable_all P) (stable_all P) (fun _ h => h)
    (fun _ h => hP.all_runOps batch hbatch h) h

theorem all_processBatch (hP : Statements P Q) (batch : List (Command × Env))
    (hbatch : ∀ op ∈ batch, ∀ name ∈ op.1.ensures, Q name) (h : conn.All P) :
    (processBatch ctx batch conn).conn.All P := by
  have hrun : (runBatch ctx batch conn).conn.All P := hP.all_runBatch batch hbatch h
  unfold processBatch
  simp only
  split
  · unfold trim
    split
    · exact hrun
    · refine Preserves.write ?_ _ hrun
      rintro d u d' hd hwrite
      cases hwrite
      exact hP.log d _ hd
  · exact hrun

end Statements

end TinyLord
