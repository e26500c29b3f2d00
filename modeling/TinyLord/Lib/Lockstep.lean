import TinyLord.Lib.Transaction

/-!
# One program on two connections

Both connections are inside a transaction, on related databases, and the same faults come first.
As long as the program stays within these, it gives the same result on both, and leaves related
databases.
-/

namespace Lib.Transaction

universe u

variable {δ ε ε' : Type*} {α β : Type u} {R : δ → δ → Prop}

/-- On related databases a statement has the same outcome, and leaves related databases. -/
def Respects (R : δ → δ → Prop) (f : δ → Except SqlError (α × δ)) : Prop :=
  ∀ d d', R d d' → (∃ e, f d = .error e ∧ f d' = .error e) ∨
    ∃ a w w', f d = .ok (a, w) ∧ f d' = .ok (a, w') ∧ R w w'

/-- Two connections inside transactions on related databases, with the faults `fs` before what
may differ. -/
structure Twins (R : δ → δ → Prop) (fs rest rest' : List Fault) (c c' : Conn δ) (t t' : Txn δ) :
    Prop where
  txn : c.txn = some t
  txn' : c'.txn = some t'
  work : R t.work t'.work
  faults : c.faults = fs ++ rest
  faults' : c'.faults = fs ++ rest'
  more : rest ≠ []
  calm : .rollback ∉ fs

structure Lockstep (R : δ → δ → Prop) (p : Sql δ ε α) : Prop where
  shrinks : ∀ c, (p c).2.faults <:+ c.faults
  agree : ∀ c c' t t' fs rest rest', Twins R fs rest rest' c c' t t' → rest <:+ (p c).2.faults →
    (p c').1 = (p c).1 ∧ ∃ w w' gs,
      Twins R gs rest rest' (p c).2 (p c').2 { t with work := w } { t' with work := w' }

variable {fs rest rest' : List Fault} {c c' : Conn δ} {t t' : Txn δ} {w w' : δ}

/-! ## One fault -/

theorem nextFault_shrinks (c : Conn δ) : c.nextFault.2.faults <:+ c.faults := by
  obtain ⟨f, fs, hnext, hfs, -⟩ := nextFault_cases c
  rw [hnext]
  exact hfs

theorem Twins.nextFault (h : Twins R fs rest rest' c c' t t')
    (hrest : rest <:+ c.nextFault.2.faults) :
    ∃ f gs, f ≠ .rollback ∧ c.nextFault = (f, { c with faults := gs ++ rest }) ∧
      c'.nextFault = (f, { c' with faults := gs ++ rest' }) ∧
      Twins R gs rest rest' { c with faults := gs ++ rest } { c' with faults := gs ++ rest' } t t' := by
  cases fs with
  | nil =>
    -- The first fault that may differ would be gone.
    obtain ⟨f, rs, rfl⟩ := List.exists_cons_of_ne_nil h.more
    have hfaults : c.faults = f :: rs := h.faults
    unfold Conn.nextFault at hrest
    rw [hfaults] at hrest
    have hle : rs.length + 1 ≤ rs.length := hrest.length_le
    omega
  | cons f gs =>
    have hfaults : c.faults = f :: (gs ++ rest) := h.faults
    have hfaults' : c'.faults = f :: (gs ++ rest') := h.faults'
    refine ⟨f, gs, fun hf => h.calm (hf ▸ List.mem_cons_self), ?_, ?_, ?_⟩
    · simp [Conn.nextFault, hfaults]
    · simp [Conn.nextFault, hfaults']
    · exact ⟨h.txn, h.txn', h.work, rfl, rfl, h.more, fun hroll =>
        h.calm (List.mem_cons_of_mem _ hroll)⟩

theorem Twins.put (h : Twins R fs rest rest' c c' t t') (hw : R w w') :
    Twins R fs rest rest' (c.put w) (c'.put w') { t with work := w } { t' with work := w' } := by
  simp only [Conn.put, h.txn, h.txn']
  exact ⟨rfl, rfl, hw, h.faults, h.faults', h.more, h.calm⟩

/-! ## Rules -/

theorem Lockstep.pure (a : α) : Lockstep R (pure a : Sql δ ε α) :=
  ⟨fun _ => List.suffix_refl _, fun _ _ t t' fs _ _ h _ => ⟨rfl, t.work, t'.work, fs, h⟩⟩

theorem write_faults (f : δ → Except SqlError (α × δ)) (c : Conn δ) :
    (Sql.write f c).2.faults = c.nextFault.2.faults := by
  unfold Sql.write
  rcases c.nextFault with ⟨_ | _ | _, c₁⟩
  · simp only
    split
    · unfold Conn.put
      split <;> rfl
    · rfl
  · rfl
  · rfl

theorem Lockstep.write {f : δ → Except SqlError (α × δ)} (hf : Respects R f) :
    Lockstep R (Sql.write f) := by
  refine ⟨fun c => write_faults f c ▸ nextFault_shrinks c, ?_⟩
  intro c c' t t' fs rest rest' h hrest
  rw [write_faults] at hrest
  obtain ⟨fault, gs, hcalm, hnext, hnext', htwins⟩ := h.nextFault hrest
  have hcur : { c with faults := gs ++ rest }.current = t.work := by simp [Conn.current, h.txn]
  have hcur' : { c' with faults := gs ++ rest' }.current = t'.work := by
    simp [Conn.current, h.txn']
  unfold Sql.write
  rw [hnext, hnext']
  cases fault with
  | rollback => exact absurd rfl hcalm
  | statement => exact ⟨rfl, t.work, t'.work, gs, htwins⟩
  | none =>
    simp only [hcur, hcur']
    rcases hf _ _ h.work with ⟨e, he, he'⟩ | ⟨a, w, w', hw, hw', hR⟩
    · rw [he, he']
      exact ⟨rfl, t.work, t'.work, gs, htwins⟩
    · rw [hw, hw']
      exact ⟨rfl, w, w', gs, htwins.put hR⟩

theorem Lockstep.read {f : δ → Except SqlError α} (hf : ∀ d d', R d d' → f d = f d') :
    Lockstep R (Sql.read f) := by
  have hfaults : ∀ c, (Sql.read f c).2.faults = c.nextFault.2.faults := by
    intro c
    unfold Sql.read
    rcases c.nextFault with ⟨_ | _ | _, c₁⟩ <;> rfl
  refine ⟨fun c => hfaults c ▸ nextFault_shrinks c, ?_⟩
  intro c c' t t' fs rest rest' h hrest
  rw [hfaults] at hrest
  obtain ⟨fault, gs, hcalm, hnext, hnext', htwins⟩ := h.nextFault hrest
  unfold Sql.read
  rw [hnext, hnext']
  cases fault with
  | rollback => exact absurd rfl hcalm
  | statement => exact ⟨rfl, t.work, t'.work, gs, htwins⟩
  | none =>
    have hsame := hf _ _ h.work
    refine ⟨?_, t.work, t'.work, gs, htwins⟩
    simp [Conn.current, h.txn, h.txn', hsame]

theorem Lockstep.mapErr {p : Sql δ ε α} (hp : Lockstep R p) (f : ε → ε') :
    Lockstep R (p.mapErr f) := by
  have hrun : ∀ c, p.mapErr f c = ((p c).1.mapError f, (p c).2) := by
    intro c
    rw [Sql.mapErr]
    rcases p c with ⟨_ | _, c₁⟩ <;> rfl
  refine ⟨fun c => by rw [hrun]; exact hp.shrinks c, ?_⟩
  intro c c' t t' fs rest rest' h hrest
  rw [hrun] at hrest ⊢
  rw [hrun]
  obtain ⟨hres, hrest⟩ := hp.agree c c' t t' fs rest rest' h hrest
  exact ⟨congrArg (Except.mapError f) hres, hrest⟩

theorem Lockstep.toOption {p : Sql δ ε α} (hp : Lockstep R p) :
    Lockstep R (p.toOption : Sql δ ε' (Option α)) := by
  have hrun : ∀ c, (p.toOption : Sql δ ε' (Option α)) c = (.ok (p c).1.toOption, (p c).2) := by
    intro c
    rw [Sql.toOption]
    rcases p c with ⟨_ | _, c₁⟩ <;> rfl
  refine ⟨fun c => by rw [hrun]; exact hp.shrinks c, ?_⟩
  intro c c' t t' fs rest rest' h hrest
  rw [hrun] at hrest ⊢
  rw [hrun]
  obtain ⟨hres, hrest⟩ := hp.agree c c' t t' fs rest rest' h hrest
  exact ⟨by rw [hres], hrest⟩

theorem Lockstep.bind {p : Sql δ ε α} {k : α → Sql δ ε β} (hp : Lockstep R p)
    (hk : ∀ a, Lockstep R (k a)) : Lockstep R (p >>= k) := by
  have hrun : ∀ c, (p >>= k) c = match (p c).1 with
      | .ok a => k a (p c).2
      | .error e => (.error e, (p c).2) := by
    intro c
    rw [bind_apply]
    rcases p c with ⟨_ | _, c₁⟩ <;> rfl
  have hsecond : ∀ c, ((p >>= k) c).2.faults <:+ (p c).2.faults := by
    intro c
    rw [hrun]
    cases (p c).1 with
    | error e => exact List.suffix_refl _
    | ok a => exact (hk a).shrinks _
  refine ⟨fun c => (hsecond c).trans (hp.shrinks c), ?_⟩
  intro c c' t t' fs rest rest' h hrest
  obtain ⟨hres, w, w', gs, htwins⟩ :=
    hp.agree c c' t t' fs rest rest' h (hrest.trans (hsecond c))
  rw [hrun] at hrest ⊢
  rw [hrun, hres]
  cases hp : (p c).1 with
  | error e => exact ⟨rfl, w, w', gs, htwins⟩
  | ok a =>
    rw [hp] at hrest
    exact (hk a).agree _ _ { t with work := w } { t' with work := w' } gs rest rest' htwins hrest

/-! ## Savepoints -/

theorem savepoint_faults (c : Conn δ) : c.savepoint.2.faults = c.nextFault.2.faults := by
  unfold Conn.savepoint
  rcases c.nextFault with ⟨_ | _ | _, c₁⟩
  · simp only
    split <;> rfl
  · rfl
  · rfl

theorem release_faults (c : Conn δ) : c.release.2.faults = c.nextFault.2.faults := by
  unfold Conn.release
  rcases c.nextFault with ⟨_ | _ | _, c₁⟩
  · simp only
    split
    · rfl
    · split
      · rfl
      · split <;> rfl
  · rfl
  · rfl

theorem rollbackTo_faults (c : Conn δ) : c.rollbackTo.2.faults = c.faults := by
  unfold Conn.rollbackTo
  split
  · rfl
  · split <;> rfl

theorem Twins.savepoint (h : Twins R fs rest rest' c c' t t')
    (hrest : rest <:+ c.savepoint.2.faults) : ∃ gs,
    (c.savepoint.1 = false ∧ c'.savepoint.1 = false ∧
      Twins R gs rest rest' c.savepoint.2 c'.savepoint.2 t t') ∨
    (c.savepoint.1 = true ∧ c'.savepoint.1 = true ∧
      Twins R gs rest rest' c.savepoint.2 c'.savepoint.2
        { t with marks := t.work :: t.marks } { t' with marks := t'.work :: t'.marks }) := by
  rw [savepoint_faults] at hrest
  obtain ⟨fault, gs, hcalm, hnext, hnext', htwins⟩ := h.nextFault hrest
  refine ⟨gs, ?_⟩
  unfold Conn.savepoint
  rw [hnext, hnext']
  cases fault with
  | rollback => exact absurd rfl hcalm
  | statement => exact Or.inl ⟨rfl, rfl, htwins⟩
  | none =>
    simp only [h.txn, h.txn']
    exact Or.inr ⟨trivial, trivial, rfl, rfl, h.work, rfl, rfl, h.more, htwins.calm⟩

theorem Twins.release (h : Twins R fs rest rest' c c' t t') (hb : t.begun = true)
    (hb' : t'.begun = true) (hm : t.marks ≠ []) (hm' : t'.marks ≠ [])
    (hrest : rest <:+ c.release.2.faults) : ∃ ms ms' gs,
      Twins R gs rest rest' c.release.2 c'.release.2 { t with marks := ms }
        { t' with marks := ms' } := by
  rw [release_faults] at hrest
  obtain ⟨m, ms, hms⟩ := List.exists_cons_of_ne_nil hm
  obtain ⟨m', ms', hms'⟩ := List.exists_cons_of_ne_nil hm'
  obtain ⟨fault, gs, hcalm, hnext, hnext', htwins⟩ := h.nextFault hrest
  unfold Conn.release
  rw [hnext, hnext']
  cases fault with
  | rollback => exact absurd rfl hcalm
  | statement => exact ⟨t.marks, t'.marks, gs, htwins⟩
  | none =>
    simp only [h.txn, h.txn', hms, hms', hb, hb', Bool.not_true, Bool.and_false,
      Bool.false_eq_true, if_false]
    exact ⟨ms, ms', gs, rfl, rfl, h.work, rfl, rfl, h.more, htwins.calm⟩

theorem Twins.rollbackTo {m m' : δ} {ms ms' : List δ} (h : Twins R fs rest rest' c c' t t')
    (hm : t.marks = m :: ms) (hm' : t'.marks = m' :: ms') (hR : R m m') :
    c.rollbackTo.1 = true ∧ c'.rollbackTo.1 = true ∧
      Twins R fs rest rest' c.rollbackTo.2 c'.rollbackTo.2 { t with work := m }
        { t' with work := m' } := by
  simp only [Conn.rollbackTo, h.txn, h.txn', hm, hm']
  exact ⟨trivial, trivial, rfl, rfl, hR, h.faults, h.faults', h.more, h.calm⟩

end Lib.Transaction
