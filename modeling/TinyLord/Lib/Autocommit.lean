import TinyLord.Lib.Transaction

/-!
# Statements outside a transaction

Each is durable as soon as it has run, so a program that stops halfway leaves what its statements
before the stop have written.
-/

namespace Lib.Transaction

universe u

variable {δ ε : Type*} {α : Type u} {c c' : Conn δ}

/-- The next statement runs. -/
def Conn.healthy (c : Conn δ) : Prop := c.faults.getD 0 .none = .none

/-- What is left of the connection after one statement: its fate is used up, and the database is
`d`. -/
structure After (c : Conn δ) (d : δ) (c' : Conn δ) : Prop where
  txn : c'.txn = none
  faults : c'.faults = c.faults.tail
  committed : c'.committed = d

theorem After.fate {d : δ} (h : After c d c') (n : Nat) :
    c'.faults.getD n .none = c.faults.getD (n + 1) .none := by
  rw [h.faults, List.getD_eq_getElem?_getD, List.getElem?_tail, ← List.getD_eq_getElem?_getD]

theorem nextFault_auto (hc : c.txn = none) :
    (c.healthy ∧ ∃ c', c.nextFault = (.none, c') ∧ After c c.committed c') ∨
    (¬c.healthy ∧ ∃ f c', f ≠ .none ∧ c.nextFault = (f, c') ∧
      After c c.committed (c'.afterFailure f)) := by
  unfold Conn.healthy Conn.nextFault
  cases hfaults : c.faults with
  | nil => exact Or.inl ⟨rfl, c, rfl, hc, by rw [hfaults, List.tail_nil], rfl⟩
  | cons f fs =>
    have htail : fs = c.faults.tail := by rw [hfaults, List.tail_cons]
    cases f with
    | none => exact Or.inl ⟨rfl, { c with faults := fs }, rfl, hc, htail, rfl⟩
    | statement =>
      exact Or.inr ⟨by simp, .statement, { c with faults := fs }, by simp, rfl, hc, htail, rfl⟩
    | rollback =>
      exact Or.inr ⟨by simp, .rollback, { c with faults := fs }, by simp, rfl, rfl, htail, rfl⟩

/-- The next statement runs, and succeeds. -/
def Conn.takes (c : Conn δ) (f : δ → Except SqlError α) : Prop :=
  c.healthy ∧ ∃ a, f c.committed = .ok a

theorem write_auto (hc : c.txn = none) (f : δ → Except SqlError (α × δ)) :
    (c.takes f ∧ ∃ a d c', f c.committed = .ok (a, d) ∧ Sql.write f c = (.ok a, c') ∧
      After c d c') ∨
    (¬c.takes f ∧ ∃ e c', Sql.write f c = (.error e, c') ∧ After c c.committed c') := by
  unfold Sql.write
  obtain ⟨hhealthy, c', hnext, hafter⟩ | ⟨hfault, fault, c', hne, hnext, hafter⟩ :=
    nextFault_auto hc
  · have hcur : c'.current = c.committed := by
      rw [Conn.current, hafter.txn, hafter.committed]
    rw [hnext]
    simp only [hcur]
    cases hf : f c.committed with
    | ok r =>
      refine Or.inl ⟨⟨hhealthy, r, hf⟩, r.1, r.2, c'.put r.2, rfl, rfl, ?_⟩
      simp only [Conn.put, hafter.txn]
      exact ⟨rfl, hafter.faults, rfl⟩
    | error e =>
      refine Or.inr ⟨?_, e, c', rfl, hafter⟩
      rintro ⟨-, r, hr⟩
      rw [hf] at hr
      contradiction
  · refine Or.inr ⟨fun h => hfault h.1, .failure, c'.afterFailure fault, ?_, hafter⟩
    rw [hnext]
    cases fault with
    | none => exact absurd rfl hne
    | _ => rfl

theorem read_auto (hc : c.txn = none) (f : δ → Except SqlError α) :
    (c.takes f ∧ ∃ a c', f c.committed = .ok a ∧ Sql.read f c = (.ok a, c') ∧
      After c c.committed c') ∨
    (¬c.takes f ∧ ∃ e c', Sql.read f c = (.error e, c') ∧ After c c.committed c') := by
  unfold Sql.read
  obtain ⟨hhealthy, c', hnext, hafter⟩ | ⟨hfault, fault, c', hne, hnext, hafter⟩ :=
    nextFault_auto hc
  · have hcur : c'.current = c.committed := by
      rw [Conn.current, hafter.txn, hafter.committed]
    rw [hnext]
    simp only [hcur]
    cases hf : f c.committed with
    | ok a => exact Or.inl ⟨⟨hhealthy, a, hf⟩, a, c', rfl, rfl, hafter⟩
    | error e =>
      refine Or.inr ⟨?_, e, c', rfl, hafter⟩
      rintro ⟨-, a, ha⟩
      rw [hf] at ha
      contradiction
  · refine Or.inr ⟨fun h => hfault h.1, .failure, c'.afterFailure fault, ?_, hafter⟩
    rw [hnext]
    cases fault with
    | none => exact absurd rfl hne
    | _ => rfl

end Lib.Transaction
