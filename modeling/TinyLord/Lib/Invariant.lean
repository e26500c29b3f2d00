import TinyLord.Lib.Transaction

/-!
# Invariants of a connection

What every statement keeps, a program keeps, whichever of its statements fail: of the durable
database, of the database in the transaction, of what the savepoints go back to, and of every
state that was made durable on the way.
-/

namespace Lib.Transaction

universe u

variable {δ ε ε' : Type*} {α β : Type u}

/-- All the databases that the connection holds. -/
structure Conn.All (P : δ → Prop) (c : Conn δ) : Prop where
  committed : P c.committed
  work : ∀ t, c.txn = some t → P t.work
  marks : ∀ t, c.txn = some t → ∀ d ∈ t.marks, P d
  strays : ∀ d ∈ c.strays, P d

/-- Neither the faults to come matter to it nor the loss of a transaction. -/
structure Robust (G : Conn δ → Prop) : Prop where
  faults : ∀ c fs, G c → G { c with faults := fs }
  gone : ∀ c, G c → G { c with txn := none }

/-- The transaction control statements keep it. -/
structure Stable (G : Conn δ → Prop) : Prop where
  begin : ∀ c, G c → G c.begin.2
  savepoint : ∀ c, G c → G c.savepoint.2
  release : ∀ c, G c → G c.release.2
  rollbackTo : ∀ c, G c → G c.rollbackTo.2
  commit : ∀ c, G c → G c.commit.2
  rollback : ∀ c, G c → G c.rollback.2

def Preserves (P : δ → Prop) (p : Sql δ ε α) : Prop := ∀ c, c.All P → (p c).2.All P

variable {P : δ → Prop} {c : Conn δ} {d : δ}

theorem all_open (h : P d) (faults : List Fault) : (Conn.open d faults).All P :=
  ⟨h, nofun, nofun, nofun⟩

/-! ## Faults -/

section

variable {G : Conn δ → Prop}

theorem Robust.nextFault (hG : Robust G) (h : G c) : G c.nextFault.2 := by
  unfold Conn.nextFault
  split
  · exact h
  · exact hG.faults c _ h

theorem Robust.afterFailure (hG : Robust G) (h : G c) (f : Fault) : G (c.afterFailure f) := by
  cases f with
  | rollback => exact hG.gone c h
  | _ => exact h

theorem Robust.step {β : Type*} {run : Conn δ → β × Conn δ} {failed : β} (hG : Robust G)
    (h : G c) (hrun : ∀ c₁ : Conn δ, G c₁ → G (run c₁).2) :
    G (match c.nextFault with
      | (.none, c) => run c
      | (fault, c) => (failed, c.afterFailure fault)).2 := by
  have hnext := hG.nextFault h
  generalize c.nextFault = r at hnext ⊢
  obtain ⟨fault, c₁⟩ := r
  cases fault with
  | none => exact hrun c₁ hnext
  | statement => exact hG.afterFailure hnext .statement
  | rollback => exact hG.afterFailure hnext .rollback

end

/-! ## One statement -/

theorem Conn.All.faults (h : c.All P) (fs : List Fault) : { c with faults := fs }.All P :=
  ⟨h.committed, h.work, h.marks, h.strays⟩

theorem Conn.All.gone (h : c.All P) : { c with txn := none }.All P :=
  ⟨h.committed, nofun, nofun, h.strays⟩

theorem robust_all (P : δ → Prop) : Robust (Conn.All P) :=
  ⟨fun _ fs h => h.faults fs, fun _ h => h.gone⟩

theorem Conn.All.current (h : c.All P) : P c.current := by
  unfold Conn.current
  cases ht : c.txn with
  | none => exact h.committed
  | some t => exact h.work t ht

theorem forall_mem_concat {ds : List δ} (h : ∀ x ∈ ds, P x) (hd : P d) : ∀ x ∈ ds ++ [d], P x :=
  List.forall_mem_append.mpr ⟨h, List.forall_mem_singleton.mpr hd⟩

theorem Conn.All.put (h : c.All P) (hd : P d) : (c.put d).All P := by
  unfold Conn.put
  cases ht : c.txn with
  | none => exact ⟨hd, nofun, nofun, forall_mem_concat h.strays hd⟩
  | some t =>
    refine ⟨h.committed, ?_, ?_, h.strays⟩
    · rintro _ ⟨⟩
      exact hd
    · rintro _ ⟨⟩
      exact h.marks t ht

/-! ## Programs -/

theorem Preserves.pure (a : α) : Preserves P (pure a : Sql δ ε α) := fun _ h => h

theorem Preserves.throw (e : ε) : Preserves P (Sql.throw e : Sql δ ε α) := fun _ h => h

theorem Preserves.mapErr {p : Sql δ ε α} (hp : Preserves P p) (f : ε → ε') :
    Preserves P (p.mapErr f) := by
  intro c h
  have hafter := hp c h
  unfold Sql.mapErr
  generalize p c = r at hafter ⊢
  obtain ⟨_ | _, c₁⟩ := r <;> exact hafter

theorem Preserves.toOption {p : Sql δ ε α} (hp : Preserves P p) :
    Preserves P (p.toOption : Sql δ ε' (Option α)) := by
  intro c h
  have hafter := hp c h
  unfold Sql.toOption
  generalize p c = r at hafter ⊢
  obtain ⟨_ | _, c₁⟩ := r <;> exact hafter

theorem Preserves.bind {p : Sql δ ε α} {k : α → Sql δ ε β} (hp : Preserves P p)
    (hk : ∀ a, Preserves P (k a)) : Preserves P (p >>= k) := by
  intro c h
  have hafter := hp c h
  rw [bind_apply]
  generalize p c = r at hafter ⊢
  obtain ⟨e | a, c₁⟩ := r
  · exact hafter
  · exact hk a c₁ hafter

theorem Preserves.read (f : δ → Except SqlError α) : Preserves P (Sql.read f) :=
  fun _ h => (robust_all P).step h fun _ h₁ => h₁

theorem Preserves.write {f : δ → Except SqlError (α × δ)}
    (hf : ∀ d a d', P d → f d = .ok (a, d') → P d') : Preserves P (Sql.write f) := by
  intro c h
  refine (robust_all P).step h fun c₁ h₁ => ?_
  cases hrun : f c₁.current with
  | error e => exact h₁
  | ok r => exact h₁.put (hf _ _ _ h₁.current hrun)

/-! ## Transaction control -/

theorem Conn.All.begin (h : c.All P) : c.begin.2.All P := by
  refine (robust_all P).step h fun c₁ h₁ => ?_
  split
  · refine ⟨h₁.committed, ?_, ?_, h₁.strays⟩
    · rintro _ ⟨⟩
      exact h₁.committed
    · rintro _ ⟨⟩
      exact nofun
  · exact h₁

theorem Conn.All.savepoint (h : c.All P) : c.savepoint.2.All P := by
  refine (robust_all P).step h fun c₁ h₁ => ?_
  split
  · refine ⟨h₁.committed, ?_, ?_, h₁.strays⟩
    · rintro _ ⟨⟩
      exact h₁.committed
    · rintro _ ⟨⟩
      exact List.forall_mem_singleton.mpr h₁.committed
  · next t ht =>
    refine ⟨h₁.committed, ?_, ?_, h₁.strays⟩
    · rintro _ ⟨⟩
      exact h₁.work t ht
    · rintro _ ⟨⟩
      exact List.forall_mem_cons.mpr ⟨h₁.work t ht, h₁.marks t ht⟩

theorem Conn.All.release (h : c.All P) : c.release.2.All P := by
  refine (robust_all P).step h fun c₁ h₁ => ?_
  split
  · exact h₁
  · next t ht =>
    split
    · exact h₁
    · next mark ms hms =>
      have hmarks : ∀ d ∈ ms, P d := fun d hd => h₁.marks t ht d (hms ▸ List.mem_cons_of_mem _ hd)
      split
      · exact ⟨h₁.work t ht, nofun, nofun, forall_mem_concat h₁.strays (h₁.work t ht)⟩
      · refine ⟨h₁.committed, ?_, ?_, h₁.strays⟩
        · rintro _ ⟨⟩
          exact h₁.work t ht
        · rintro _ ⟨⟩
          exact hmarks

theorem Conn.All.rollbackTo (h : c.All P) : c.rollbackTo.2.All P := by
  unfold Conn.rollbackTo
  split
  · exact h
  · next t ht =>
    split
    · exact h
    · next mark ms hms =>
      refine ⟨h.committed, ?_, ?_, h.strays⟩
      · rintro _ ⟨⟩
        exact h.marks t ht mark (hms ▸ List.mem_cons_self)
      · rintro _ ⟨⟩
        exact h.marks t ht

theorem Conn.All.commit (h : c.All P) : c.commit.2.All P := by
  refine (robust_all P).step h fun c₁ h₁ => ?_
  split
  · exact h₁
  · next t ht =>
    refine ⟨h₁.work t ht, nofun, nofun, ?_⟩
    dsimp only
    split
    · exact h₁.strays
    · exact forall_mem_concat h₁.strays (h₁.work t ht)

theorem Conn.All.rollback (h : c.All P) : c.rollback.2.All P := by
  unfold Conn.rollback
  split
  · exact h
  · exact h.gone

theorem stable_all (P : δ → Prop) : Stable (Conn.All P) where
  begin _ h := h.begin
  savepoint _ h := h.savepoint
  release _ h := h.release
  rollbackTo _ h := h.rollbackTo
  commit _ h := h.commit
  rollback _ h := h.rollback

end Lib.Transaction
