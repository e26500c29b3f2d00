import TinyLord.Lib.Transaction

/-!
# A batch of savepoints in one transaction

A connection on which a transaction was begun is either `Anchored`, with that transaction still
open, or `Adrift`: the transaction is gone, and each savepoint opens one of its own.
-/

namespace Lib.Transaction

variable {δ : Type*} {d₀ : δ} {fs₀ : List Fault} {c c' : Conn δ} {t : Txn δ}

/-- The transaction that was begun on `d₀` is open, and nothing was made durable since. `fs₀` are
the faults from there on. -/
structure Anchored (d₀ : δ) (fs₀ : List Fault) (c : Conn δ) (t : Txn δ) : Prop where
  faults : c.faults <:+ fs₀
  txn : c.txn = some t
  begun : t.begun = true
  committed : c.committed = d₀

/-- The transaction is gone, and an open one is a savepoint's. -/
structure Adrift (fs₀ : List Fault) (c : Conn δ) : Prop where
  cause : .rollback ∈ fs₀
  txn : ∀ t, c.txn = some t → t.begun = false

theorem savepoint_txn (h : c.savepoint = (true, c')) : ∃ t, c'.txn = some t := by
  obtain ⟨fault, fs, hnext, hfs, hroll⟩ := nextFault_cases c
  unfold Conn.savepoint at h
  rw [hnext] at h
  cases fault with
  | statement => simp at h
  | rollback => simp at h
  | none =>
    cases ht : c.txn <;> simp only [ht, Prod.mk.injEq, true_and] at h <;> subst h <;>
      exact ⟨_, rfl⟩

theorem commit_txn (h : c.commit = (true, c')) : c'.txn = none := by
  obtain ⟨fault, fs, hnext, -⟩ := nextFault_cases c
  unfold Conn.commit at h
  rw [hnext] at h
  cases fault with
  | statement => simp at h
  | rollback => simp at h
  | none =>
    cases ht : c.txn <;> simp only [ht, Prod.mk.injEq, true_and, Bool.false_eq_true,
      false_and] at h
    subst h
    rfl

/-! ## Adrift -/

theorem Adrift.faults (h : Adrift fs₀ c) (fs : List Fault) : Adrift fs₀ { c with faults := fs } :=
  ⟨h.cause, h.txn⟩

theorem Adrift.lost (h : Adrift fs₀ c) (htxn : c'.txn = none) : Adrift fs₀ c' :=
  ⟨h.cause, by simp [htxn]⟩

theorem Adrift.inTxn (h : Adrift fs₀ c) (ht : c.txn = some t) (w : δ) (fs : List Fault) :
    Adrift fs₀ (c.inTxn t w fs) := by
  refine ⟨h.cause, ?_⟩
  rintro t' ⟨⟩
  exact h.txn t ht

theorem Adrift.savepoint (h : Adrift fs₀ c) : Adrift fs₀ c.savepoint.2 := by
  obtain ⟨fault, fs, hnext, -⟩ := nextFault_cases c
  unfold Conn.savepoint
  rw [hnext]
  cases fault with
  | statement => exact h.faults fs
  | rollback => exact h.lost rfl
  | none =>
    cases ht : c.txn with
    | none =>
      refine ⟨h.cause, ?_⟩
      rintro t ⟨⟩
      rfl
    | some t =>
      refine ⟨h.cause, ?_⟩
      rintro t' ⟨⟩
      exact h.txn t ht

theorem Adrift.release (h : Adrift fs₀ c) : Adrift fs₀ c.release.2 := by
  obtain ⟨fault, fs, hnext, -⟩ := nextFault_cases c
  unfold Conn.release
  rw [hnext]
  cases fault with
  | statement => exact h.faults fs
  | rollback => exact h.lost rfl
  | none =>
    cases ht : c.txn with
    | none => exact h.lost rfl
    | some t =>
      have hb := h.txn t ht
      cases hm : t.marks with
      | nil => simpa only [hm, ht] using h.faults fs
      | cons m ms =>
        cases ms with
        | nil =>
          -- The outermost savepoint is released: its transaction is committed.
          simpa [hm, hb] using h.lost rfl
        | cons m' ms =>
          simp only [hm, List.isEmpty_cons, Bool.false_and, Bool.false_eq_true, if_false]
          refine ⟨h.cause, ?_⟩
          rintro t' ⟨⟩
          exact hb

theorem Adrift.rollbackTo (h : Adrift fs₀ c) : Adrift fs₀ c.rollbackTo.2 := by
  unfold Conn.rollbackTo
  cases ht : c.txn with
  | none => exact h
  | some t =>
    cases hm : t.marks with
    | nil => simpa only [hm] using h
    | cons m ms =>
      refine ⟨h.cause, ?_⟩
      simp only [hm]
      rintro t' ⟨⟩
      exact h.txn t ht

theorem Adrift.not_begun (h : Adrift fs₀ c) : ¬ ∃ t, c.txn = some t ∧ t.begun = true := by
  rintro ⟨t, ht, hb⟩
  simp [h.txn t ht] at hb

/-! ## Anchored -/

theorem Anchored.adrift (h : Anchored d₀ fs₀ c t) (hroll : .rollback ∈ c.faults)
    (htxn : c'.txn = none) : Adrift fs₀ c' :=
  ⟨h.faults.mem hroll, by simp [htxn]⟩

theorem Anchored.inTxn (h : Anchored d₀ fs₀ c t) (w : δ) {fs : List Fault} (hfs : fs <:+ c.faults) :
    Anchored d₀ fs₀ (c.inTxn t w fs) { t with work := w } :=
  ⟨hfs.trans h.faults, rfl, h.begun, h.committed⟩

theorem begin_failed {fs : List Fault} (h : (Conn.open d₀ fs).begin = (false, c)) :
    c.committed = d₀ := by
  obtain ⟨fault, fs', hnext, hfs, hroll⟩ := nextFault_cases (Conn.open d₀ fs)
  unfold Conn.begin at h
  rw [hnext] at h
  cases fault <;> simp only [Conn.open, Conn.afterFailure, Prod.mk.injEq, true_and, reduceCtorEq,
    false_and] at h <;> subst h <;> rfl

theorem anchored_begin (d₀ : δ) (fs : List Fault) {c : Conn δ}
    (h : (Conn.open d₀ fs).begin = (true, c)) :
    Anchored d₀ fs c { work := d₀, marks := [], begun := true } := by
  obtain ⟨fault, fs', hnext, hfs, hroll⟩ := nextFault_cases (Conn.open d₀ fs)
  unfold Conn.begin at h
  rw [hnext] at h
  cases fault with
  | statement => simp at h
  | rollback => simp at h
  | none =>
    simp only [Conn.open, Prod.mk.injEq, true_and] at h
    subst h
    exact ⟨hfs, rfl, rfl, rfl⟩

theorem Anchored.savepoint (h : Anchored d₀ fs₀ c t) :
    (c.savepoint.1 = true ∧ Anchored d₀ fs₀ c.savepoint.2 { t with marks := t.work :: t.marks }) ∨
    (c.savepoint.1 = false ∧
      (Anchored d₀ fs₀ c.savepoint.2 t ∨ Adrift fs₀ c.savepoint.2)) := by
  obtain ⟨fault, fs, hnext, hfs, hroll⟩ := nextFault_cases c
  unfold Conn.savepoint
  rw [hnext]
  cases fault with
  | statement =>
    refine Or.inr ⟨rfl, Or.inl ?_⟩
    exact ⟨hfs.trans h.faults, h.txn, h.begun, h.committed⟩
  | rollback => exact Or.inr ⟨rfl, Or.inr (h.adrift (hroll rfl) rfl)⟩
  | none =>
    simp only [h.txn]
    exact Or.inl ⟨trivial, hfs.trans h.faults, rfl, h.begun, h.committed⟩

theorem Anchored.release (h : Anchored d₀ fs₀ c t) :
    (∃ ms, Anchored d₀ fs₀ c.release.2 { t with marks := ms }) ∨ Adrift fs₀ c.release.2 := by
  obtain ⟨fault, fs, hnext, hfs, hroll⟩ := nextFault_cases c
  unfold Conn.release
  rw [hnext]
  cases fault with
  | statement =>
    refine Or.inl ⟨t.marks, ?_⟩
    exact ⟨hfs.trans h.faults, h.txn, h.begun, h.committed⟩
  | rollback => exact Or.inr (h.adrift (hroll rfl) rfl)
  | none =>
    simp only [h.txn]
    cases hm : t.marks with
    | nil =>
      refine Or.inl ⟨t.marks, ?_⟩
      exact ⟨hfs.trans h.faults, rfl, h.begun, h.committed⟩
    | cons m ms =>
      simp only [h.begun, Bool.not_true, Bool.and_false, Bool.false_eq_true, if_false]
      exact Or.inl ⟨ms, hfs.trans h.faults, rfl, rfl, h.committed⟩

theorem Anchored.rollbackTo {m : δ} {ms : List δ} (h : Anchored d₀ fs₀ c t) (hm : t.marks = m :: ms) :
    ∃ c', c.rollbackTo = (true, c') ∧ Anchored d₀ fs₀ c' { t with work := m } := by
  refine ⟨{ c with txn := some { t with work := m } }, by simp [Conn.rollbackTo, h.txn, hm], ?_⟩
  exact ⟨h.faults, rfl, h.begun, h.committed⟩

theorem Anchored.commit (h : Anchored d₀ fs₀ c t) :
    (c.commit.1 = true ∧ c.commit.2.committed = t.work) ∨
    (c.commit.1 = false ∧ c.commit.2.rollback.2.committed = d₀) := by
  obtain ⟨fault, fs, hnext, hfs, hroll⟩ := nextFault_cases c
  unfold Conn.commit
  rw [hnext]
  cases fault with
  | statement =>
    simp only [Conn.afterFailure, Conn.rollback, h.txn]
    exact Or.inr ⟨trivial, h.committed⟩
  | rollback => exact Or.inr ⟨rfl, h.committed⟩
  | none =>
    simp only [h.txn, h.begun]
    exact Or.inl ⟨trivial, trivial⟩

end Lib.Transaction
