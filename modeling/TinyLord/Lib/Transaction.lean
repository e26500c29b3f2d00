import Mathlib.Algebra.Order.Ring.Int
import Mathlib.Data.List.Basic

/-!
# Statements, savepoints and transactions

One connection to a database, on which any statement may fail. A failure may leave the
transaction as it was, or take all of it back. Outside a transaction a statement is made
durable on its own, and a savepoint opens a transaction of its own, which its release commits.
-/

namespace Lib.Transaction

/-- What becomes of a statement that is issued. -/
inductive Fault where
  /-- It runs. It may still fail by its own logic. -/
  | none
  /-- It fails, and nothing else changes. -/
  | statement
  /-- It fails, and the whole transaction is rolled back. -/
  | rollback
  deriving DecidableEq, Repr

structure Txn (δ : Type*) where
  /-- The database as the transaction sees it. -/
  work : δ
  /-- What each open savepoint goes back to, the innermost first. -/
  marks : List δ
  /-- Opened by `BEGIN`, not by a savepoint. -/
  begun : Bool

structure Conn (δ : Type*) where
  /-- The durable database. -/
  committed : δ
  txn : Option (Txn δ)
  /-- The fate of the next statements. After the last one, all run. -/
  faults : List Fault
  /-- For the statements only: each state that was made durable by something other than the
  `COMMIT` of a transaction that `BEGIN` opened. -/
  strays : List δ

universe u

variable {δ ε ε' : Type*} {α β : Type u}

def Conn.open (d : δ) (faults : List Fault) : Conn δ :=
  { committed := d, txn := none, faults, strays := [] }

def Conn.nextFault (c : Conn δ) : Fault × Conn δ :=
  match c.faults with
  | [] => (.none, c)
  | f :: fs => (f, { c with faults := fs })

def Conn.afterFailure (c : Conn δ) : Fault → Conn δ
  | .rollback => { c with txn := none }
  | _ => c

def Conn.current (c : Conn δ) : δ :=
  match c.txn with
  | some t => t.work
  | none => c.committed

def Conn.put (c : Conn δ) (d : δ) : Conn δ :=
  match c.txn with
  | some t => { c with txn := some { t with work := d } }
  | none => { c with committed := d, strays := c.strays ++ [d] }

/-! ## Programs -/

/-- A sequence of statements that stops at the first error. -/
def Sql (δ ε α : Type*) := Conn δ → Except ε α × Conn δ

instance : Monad (Sql δ ε) where
  pure a c := (.ok a, c)
  bind p k c :=
    match p c with
    | (.ok a, c) => k a c
    | (.error e, c) => (.error e, c)

inductive SqlError where
  | constraint
  | failure
  deriving DecidableEq, Repr

def Sql.throw (e : ε) : Sql δ ε α := fun c => (.error e, c)

def Sql.mapErr (f : ε → ε') (p : Sql δ ε α) : Sql δ ε' α := fun c =>
  match p c with
  | (.ok a, c) => (.ok a, c)
  | (.error e, c) => (.error (f e), c)

/-- `Result::ok`: an error becomes nothing, and the program goes on. -/
def Sql.toOption (p : Sql δ ε α) : Sql δ ε' (Option α) := fun c =>
  match p c with
  | (.ok a, c) => (.ok (some a), c)
  | (.error _, c) => (.ok none, c)

def Sql.read (f : δ → Except SqlError α) : Sql δ SqlError α := fun c =>
  match c.nextFault with
  | (.none, c) => (f c.current, c)
  | (fault, c) => (.error .failure, c.afterFailure fault)

def Sql.write (f : δ → Except SqlError (α × δ)) : Sql δ SqlError α := fun c =>
  match c.nextFault with
  | (.none, c) =>
    match f c.current with
    | .ok (a, d) => (.ok a, c.put d)
    | .error e => (.error e, c)
  | (fault, c) => (.error .failure, c.afterFailure fault)

/-! ## Transaction control

Each gives whether it succeeded. -/

def Conn.begin (c : Conn δ) : Bool × Conn δ :=
  match c.nextFault with
  | (.none, c) =>
    match c.txn with
    | none => (true, { c with txn := some { work := c.committed, marks := [], begun := true } })
    | some _ => (false, c)
  | (fault, c) => (false, c.afterFailure fault)

def Conn.savepoint (c : Conn δ) : Bool × Conn δ :=
  match c.nextFault with
  | (.none, c) =>
    match c.txn with
    | none =>
      (true, { c with
        txn := some { work := c.committed, marks := [c.committed], begun := false } })
    | some t => (true, { c with txn := some { t with marks := t.work :: t.marks } })
  | (fault, c) => (false, c.afterFailure fault)

def Conn.release (c : Conn δ) : Bool × Conn δ :=
  match c.nextFault with
  | (.none, c) =>
    match c.txn with
    | none => (false, c)
    | some t =>
      match t.marks with
      | [] => (false, c)
      | _ :: ms =>
        if ms.isEmpty && !t.begun then
          (true, { c with committed := t.work, txn := none, strays := c.strays ++ [t.work] })
        else (true, { c with txn := some { t with marks := ms } })
  | (fault, c) => (false, c.afterFailure fault)

/-- Going back needs no memory and no disk: it fails only when there is no savepoint. -/
def Conn.rollbackTo (c : Conn δ) : Bool × Conn δ :=
  match c.txn with
  | none => (false, c)
  | some t =>
    match t.marks with
    | [] => (false, c)
    | m :: _ => (true, { c with txn := some { t with work := m } })

def Conn.commit (c : Conn δ) : Bool × Conn δ :=
  match c.nextFault with
  | (.none, c) =>
    match c.txn with
    | none => (false, c)
    | some t =>
      (true, { c with
        committed := t.work
        txn := none
        strays := if t.begun then c.strays else c.strays ++ [t.work] })
  | (fault, c) => (false, c.afterFailure fault)

def Conn.rollback (c : Conn δ) : Bool × Conn δ :=
  match c.txn with
  | none => (false, c)
  | some _ => (true, { c with txn := none })

/-! ## Rules for a program inside a transaction -/

def Conn.inTxn (c : Conn δ) (t : Txn δ) (w : δ) (fs : List Fault) : Conn δ :=
  { c with txn := some { t with work := w }, faults := fs }

/-- Inside a transaction `p` succeeds as `post` says, or fails in the transaction, whose
savepoints stay, or fails with the transaction gone, which takes a fault that does that. -/
def Spec (p : Sql δ ε α) (post : δ → α → δ → Prop) : Prop :=
  ∀ c t, c.txn = some t → ∃ fs, fs <:+ c.faults ∧
    ((∃ a w, p c = (.ok a, c.inTxn t w fs) ∧ post t.work a w) ∨
    (∃ e w, p c = (.error e, c.inTxn t w fs)) ∨
    (.rollback ∈ c.faults ∧ ∃ e, p c = (.error e, { c with txn := none, faults := fs })))

theorem nextFault_cases (c : Conn δ) :
    ∃ f fs, c.nextFault = (f, { c with faults := fs }) ∧ fs <:+ c.faults ∧
      (f = .rollback → .rollback ∈ c.faults) := by
  unfold Conn.nextFault
  split
  · exact ⟨.none, c.faults, rfl, List.suffix_refl _, nofun⟩
  · rename_i f fs hfs
    rw [hfs]
    exact ⟨f, fs, rfl, List.suffix_cons f fs, fun h => h ▸ List.mem_cons_self⟩

theorem bind_apply (p : Sql δ ε α) (k : α → Sql δ ε β) (c : Conn δ) :
    (p >>= k) c = match p c with
      | (.ok a, c) => k a c
      | (.error e, c) => (.error e, c) := rfl

theorem Spec.pure (a : α) : Spec (pure a : Sql δ ε α) fun d b d' => b = a ∧ d' = d :=
  fun c t h => ⟨c.faults, List.suffix_refl _,
    Or.inl ⟨a, t.work, by rw [Conn.inTxn, ← h]; rfl, rfl, rfl⟩⟩

theorem Spec.throw (e : ε) (post : δ → α → δ → Prop) : Spec (Sql.throw e) post :=
  fun c t h => ⟨c.faults, List.suffix_refl _,
    Or.inr (Or.inl ⟨e, t.work, by rw [Conn.inTxn, ← h]; rfl⟩)⟩

theorem Spec.mono {p : Sql δ ε α} {P Q : δ → α → δ → Prop} (h : Spec p P)
    (himp : ∀ d a d', P d a d' → Q d a d') : Spec p Q := by
  intro c t ht
  obtain ⟨fs, hfs, ⟨a, w, hp, hpost⟩ | herr⟩ := h c t ht
  · exact ⟨fs, hfs, Or.inl ⟨a, w, hp, himp _ _ _ hpost⟩⟩
  · exact ⟨fs, hfs, Or.inr herr⟩

theorem Spec.mapErr {p : Sql δ ε α} {post : δ → α → δ → Prop} (h : Spec p post) (f : ε → ε') :
    Spec (p.mapErr f) post := by
  intro c t ht
  obtain ⟨fs, hfs, ⟨a, w, hp, hpost⟩ | ⟨e, w, hp⟩ | ⟨hroll, e, hp⟩⟩ := h c t ht <;>
    refine ⟨fs, hfs, ?_⟩ <;> rw [Sql.mapErr, hp]
  · exact Or.inl ⟨a, w, rfl, hpost⟩
  · exact Or.inr (Or.inl ⟨f e, w, rfl⟩)
  · exact Or.inr (Or.inr ⟨hroll, f e, rfl⟩)

theorem Spec.write (f : δ → Except SqlError (α × δ)) :
    Spec (Sql.write f) fun d a d' => f d = .ok (a, d') := by
  intro c t ht
  obtain ⟨fault, fs, hnext, hfs, hroll⟩ := nextFault_cases c
  refine ⟨fs, hfs, ?_⟩
  have hcur : { c with faults := fs }.current = t.work := by simp [Conn.current, ht]
  unfold Sql.write
  rw [hnext]
  cases fault with
  | none =>
    simp only [hcur]
    cases hf : f t.work with
    | ok r => exact Or.inl ⟨r.1, r.2, by simp [Conn.put, Conn.inTxn, ht], rfl⟩
    | error e => exact Or.inr (Or.inl ⟨e, t.work, by simp [Conn.inTxn, ← ht]⟩)
  | statement =>
    exact Or.inr (Or.inl ⟨.failure, t.work, by simp [Conn.afterFailure, Conn.inTxn, ← ht]⟩)
  | rollback => exact Or.inr (Or.inr ⟨hroll rfl, .failure, rfl⟩)

theorem Spec.read (f : δ → Except SqlError α) :
    Spec (Sql.read f) fun d a d' => f d = .ok a ∧ d' = d := by
  intro c t ht
  obtain ⟨fault, fs, hnext, hfs, hroll⟩ := nextFault_cases c
  refine ⟨fs, hfs, ?_⟩
  have hcur : { c with faults := fs }.current = t.work := by simp [Conn.current, ht]
  unfold Sql.read
  rw [hnext]
  cases fault with
  | none =>
    simp only [hcur]
    cases hf : f t.work with
    | ok a => exact Or.inl ⟨a, t.work, by simp [Conn.inTxn, ← ht], rfl, rfl⟩
    | error e => exact Or.inr (Or.inl ⟨e, t.work, by simp [Conn.inTxn, ← ht]⟩)
  | statement =>
    exact Or.inr (Or.inl ⟨.failure, t.work, by simp [Conn.afterFailure, Conn.inTxn, ← ht]⟩)
  | rollback => exact Or.inr (Or.inr ⟨hroll rfl, .failure, rfl⟩)

theorem Spec.bind {p : Sql δ ε α} {k : α → Sql δ ε β} {P : δ → α → δ → Prop}
    {Q : α → δ → β → δ → Prop} (hp : Spec p P) (hk : ∀ a, Spec (k a) (Q a)) :
    Spec (p >>= k) fun d b d' => ∃ a m, P d a m ∧ Q a m b d' := by
  intro c t ht
  obtain ⟨fs, hfs, ⟨a, w, hrun, hpost⟩ | ⟨e, w, hrun⟩ | ⟨hroll, e, hrun⟩⟩ := hp c t ht
  · obtain ⟨fs', hfs', hcases⟩ := hk a (c.inTxn t w fs) { t with work := w } rfl
    refine ⟨fs', hfs'.trans hfs, ?_⟩
    rw [bind_apply, hrun]
    rcases hcases with ⟨b, w', hrun', hpost'⟩ | herr | ⟨hroll, herr⟩
    · exact Or.inl ⟨b, w', hrun', a, w, hpost, hpost'⟩
    · exact Or.inr (Or.inl herr)
    · exact Or.inr (Or.inr ⟨hfs.mem hroll, herr⟩)
  · exact ⟨fs, hfs, Or.inr (Or.inl ⟨e, w, by rw [bind_apply, hrun]⟩)⟩
  · exact ⟨fs, hfs, Or.inr (Or.inr ⟨hroll, e, by rw [bind_apply, hrun]⟩)⟩

/-! ## With no faults to come -/

theorem read_healthy (f : δ → Except SqlError α) {c : Conn δ} (h : c.faults = []) :
    Sql.read f c = (f c.current, c) := by
  unfold Sql.read Conn.nextFault
  rw [h]

theorem write_healthy (f : δ → Except SqlError (α × δ)) {c : Conn δ} (h : c.faults = []) :
    Sql.write f c = match f c.current with
      | .ok (a, d) => (.ok a, c.put d)
      | .error e => (.error e, c) := by
  unfold Sql.write Conn.nextFault
  rw [h]

/-! ## A program that goes on after it has lost its transaction

A swallowed error may hide that the transaction is gone. What follows is then made durable
statement by statement. Here it is related to what the program gives: by `P` when it succeeds, and by
`E` when it fails. -/

def Ends (r : Except ε α) (P : α → Prop) (E : Prop) : Prop :=
  match r with
  | .error _ => E
  | .ok a => P a

theorem Ends.imp {r : Except ε α} {P Q : α → Prop} {E F : Prop} (h : Ends r P E)
    (hP : ∀ a, P a → Q a) (hE : E → F) : Ends r Q F := by
  cases r with
  | ok a => exact hP a h
  | error e => exact hE h

/-- From outside a transaction. -/
def Autonomous (p : Sql δ ε α) (P : δ → α → δ → Prop) (E : δ → δ → Prop) : Prop :=
  ∀ c, c.txn = none → (p c).2.txn = none ∧
    Ends (p c).1 (fun a => P c.committed a (p c).2.committed) (E c.committed (p c).2.committed)

/-- From inside a transaction, when it ends outside. -/
def Parted (p : Sql δ ε α) (P : δ → α → δ → Prop) (E : δ → δ → Prop) : Prop :=
  ∀ c t, c.txn = some t → (p c).2.txn = none →
    Ends (p c).1 (fun a => P c.committed a (p c).2.committed) (E c.committed (p c).2.committed)

/-- Like `Spec`, but with its transaction lost the program may have gone on. -/
def Loose (p : Sql δ ε α) (post : δ → α → δ → Prop) : Prop :=
  ∀ c t, c.txn = some t →
    (∃ fs a w, fs <:+ c.faults ∧ p c = (.ok a, c.inTxn t w fs) ∧ post t.work a w) ∨
    (∃ fs e w, fs <:+ c.faults ∧ p c = (.error e, c.inTxn t w fs)) ∨
    (.rollback ∈ c.faults ∧ (p c).2.txn = none)

section

variable {P Q : δ → α → δ → Prop} {E F : δ → δ → Prop}

theorem Autonomous.pure (a : α) :
    Autonomous (pure a : Sql δ ε α) (fun d b d' => b = a ∧ d' = d) fun _ _ => False :=
  fun _ hc => ⟨hc, rfl, rfl⟩

theorem Autonomous.mono {p : Sql δ ε α} (h : Autonomous p P E) (hP : ∀ d a d', P d a d' → Q d a d')
    (hE : ∀ d d', E d d' → F d d') : Autonomous p Q F :=
  fun c hc => ⟨(h c hc).1, (h c hc).2.imp (fun _ => hP _ _ _) (hE _ _)⟩

theorem Autonomous.mapErr {p : Sql δ ε α} (h : Autonomous p P E) (f : ε → ε') :
    Autonomous (p.mapErr f) P E := by
  intro c hc
  obtain ⟨htxn, hends⟩ := h c hc
  unfold Sql.mapErr
  rcases hr : p c with ⟨_ | _, c'⟩ <;> rw [hr] at htxn hends <;> exact ⟨htxn, hends⟩

theorem Autonomous.bind {p : Sql δ ε α} {k : α → Sql δ ε β} {Q : α → δ → β → δ → Prop}
    {F : α → δ → δ → Prop} (hp : Autonomous p P E) (hk : ∀ a, Autonomous (k a) (Q a) (F a)) :
    Autonomous (p >>= k) (fun d b d' => ∃ a m, P d a m ∧ Q a m b d')
      fun d d' => E d d' ∨ ∃ a m, P d a m ∧ F a m d' := by
  intro c hc
  obtain ⟨htxn, hends⟩ := hp c hc
  rw [bind_apply]
  rcases hr : p c with ⟨e | a, c'⟩ <;> rw [hr] at htxn hends
  · exact ⟨htxn, Or.inl hends⟩
  · obtain ⟨htxn', hends'⟩ := hk a c' htxn
    exact ⟨htxn', hends'.imp (fun b h => ⟨a, _, hends, h⟩) fun h => Or.inr ⟨a, _, hends, h⟩⟩

theorem Autonomous.write (f : δ → Except SqlError (α × δ)) :
    Autonomous (Sql.write f) (fun d a d' => f d = .ok (a, d')) fun d d' => d' = d := by
  intro c hc
  obtain ⟨fault, fs, hnext, -⟩ := nextFault_cases c
  have hcur : { c with faults := fs }.current = c.committed := by simp [Conn.current, hc]
  unfold Sql.write
  rw [hnext]
  cases fault with
  | none =>
    simp only [hcur]
    cases hrun : f c.committed with
    | ok r =>
      have hput : { c with faults := fs }.put r.2 =
          { c with faults := fs, committed := r.2, strays := c.strays ++ [r.2] } := by
        simp [Conn.put, hc]
      simp only [hput]
      exact ⟨hc, rfl⟩
    | error e => exact ⟨hc, rfl⟩
  | statement => exact ⟨hc, rfl⟩
  | rollback => exact ⟨rfl, rfl⟩

theorem Spec.loose {p : Sql δ ε α} (h : Spec p P) : Loose p P := by
  intro c t ht
  obtain ⟨fs, hfs, ⟨a, w, hrun, hpost⟩ | ⟨e, w, hrun⟩ | ⟨hroll, e, hrun⟩⟩ := h c t ht
  · exact Or.inl ⟨fs, a, w, hfs, hrun, hpost⟩
  · exact Or.inr (Or.inl ⟨fs, e, w, hfs, hrun⟩)
  · rw [hrun]
    exact Or.inr (Or.inr ⟨hroll, rfl⟩)

theorem Loose.mono {p : Sql δ ε α} (h : Loose p P) (himp : ∀ d a d', P d a d' → Q d a d') :
    Loose p Q := by
  intro c t ht
  rcases h c t ht with ⟨fs, a, w, hfs, hrun, hpost⟩ | hrest
  · exact Or.inl ⟨fs, a, w, hfs, hrun, himp _ _ _ hpost⟩
  · exact Or.inr hrest

theorem Loose.bind {p : Sql δ ε α} {k : α → Sql δ ε β} {Q : α → δ → β → δ → Prop} (hp : Spec p P)
    (hk : ∀ a, Loose (k a) (Q a)) :
    Loose (p >>= k) fun d b d' => ∃ a m, P d a m ∧ Q a m b d' := by
  intro c t ht
  rw [bind_apply]
  obtain ⟨fs, hfs, ⟨a, w, hrun, hpost⟩ | ⟨e, w, hrun⟩ | ⟨hroll, e, hrun⟩⟩ := hp c t ht <;>
    rw [hrun]
  · rcases hk a (c.inTxn t w fs) { t with work := w } rfl with
      ⟨fs', b, w', hfs', hrun', hpost'⟩ | ⟨fs', e, w', hfs', hrun'⟩ | ⟨hroll, htxn⟩
    · exact Or.inl ⟨fs', b, w', hfs'.trans hfs, hrun', a, w, hpost, hpost'⟩
    · exact Or.inr (Or.inl ⟨fs', e, w', hfs'.trans hfs, hrun'⟩)
    · exact Or.inr (Or.inr ⟨hfs.mem hroll, htxn⟩)
  · exact Or.inr (Or.inl ⟨fs, e, w, hfs, rfl⟩)
  · exact Or.inr (Or.inr ⟨hroll, rfl⟩)

theorem Loose.map {p : Sql δ ε α} (hp : Loose p P) (f : α → β) :
    Loose (p >>= fun a => Pure.pure (f a)) fun d b d' => ∃ a, b = f a ∧ P d a d' := by
  intro c t ht
  rw [bind_apply]
  rcases hp c t ht with ⟨fs, a, w, hfs, hrun, hpost⟩ | ⟨fs, e, w, hfs, hrun⟩ | ⟨hroll, hlost⟩
  · rw [hrun]
    exact Or.inl ⟨fs, f a, w, hfs, rfl, a, rfl, hpost⟩
  · rw [hrun]
    exact Or.inr (Or.inl ⟨fs, e, w, hfs, rfl⟩)
  · refine Or.inr (Or.inr ⟨hroll, ?_⟩)
    rcases hr : p c with ⟨e | a, c'⟩ <;> rw [hr] at hlost <;> exact hlost

theorem Loose.read_toOption {f : δ → Except SqlError α} {k : Option α → Sql δ ε β}
    {Q : Option α → δ → β → δ → Prop} {P : δ → β → δ → Prop} (hk : ∀ o, Loose (k o) (Q o))
    (halone : Autonomous (k none) P E) :
    Loose ((Sql.read f).toOption >>= k) fun d b d' =>
      ∃ o, (∀ a, o = some a → f d = .ok a) ∧ Q o d b d' := by
  intro c t ht
  obtain ⟨fault, fs, hnext, hfs, hroll⟩ := nextFault_cases c
  have hgo : ∀ o, (∀ a, o = some a → f t.work = .ok a) →
      (∃ fs' b w, fs' <:+ c.faults ∧ k o { c with faults := fs } = (.ok b, c.inTxn t w fs') ∧
        ∃ o, (∀ a, o = some a → f t.work = .ok a) ∧ Q o t.work b w) ∨
      (∃ fs' e w, fs' <:+ c.faults ∧ k o { c with faults := fs } = (.error e, c.inTxn t w fs')) ∨
      (.rollback ∈ c.faults ∧ (k o { c with faults := fs }).2.txn = none) := by
    intro o ho
    rcases hk o { c with faults := fs } t ht with
      ⟨fs', b, w', hfs', hrun, hpost⟩ | ⟨fs', e, w', hfs', hrun⟩ | ⟨hroll, htxn⟩
    · exact Or.inl ⟨fs', b, w', hfs'.trans hfs, hrun, o, ho, hpost⟩
    · exact Or.inr (Or.inl ⟨fs', e, w', hfs'.trans hfs, hrun⟩)
    · exact Or.inr (Or.inr ⟨hfs.mem hroll, htxn⟩)
  have hcur : { c with faults := fs }.current = t.work := by simp [Conn.current, ht]
  rw [bind_apply, Sql.toOption, Sql.read, hnext]
  cases fault with
  | none =>
    simp only [hcur]
    cases hf : f t.work with
    | ok a => simpa only [hf] using hgo (some a) (by simp [hf])
    | error e => simpa only [hf] using hgo none (by simp)
  | statement => exact hgo none (by simp)
  | rollback =>
    exact Or.inr (Or.inr ⟨hroll rfl, (halone { c with txn := none, faults := fs } rfl).1⟩)

theorem Parted.mono {p : Sql δ ε α} (h : Parted p P E) (hP : ∀ d a d', P d a d' → Q d a d')
    (hE : ∀ d d', E d d' → F d d') : Parted p Q F :=
  fun c t ht hgone => (h c t ht hgone).imp (fun _ => hP _ _ _) (hE _ _)

/-- A program that gives up on an error has done nothing when its transaction is gone. -/
theorem Spec.parted {p : Sql δ ε α} {post : δ → α → δ → Prop} (h : Spec p post) (hE : ∀ d, E d d) :
    Parted p P E := by
  intro c t ht hgone
  obtain ⟨fs, -, ⟨a, w, hrun, -⟩ | ⟨e, w, hrun⟩ | ⟨-, e, hrun⟩⟩ := h c t ht <;> rw [hrun] at hgone ⊢
  · cases hgone
  · cases hgone
  · exact hE _

theorem Parted.bind {p : Sql δ ε α} {k : α → Sql δ ε β} {post : δ → α → δ → Prop}
    {P : δ → β → δ → Prop} (hp : Spec p post) (hk : ∀ a, Parted (k a) P E) (hE : ∀ d, E d d) :
    Parted (p >>= k) P E := by
  intro c t ht hgone
  rw [bind_apply] at hgone ⊢
  obtain ⟨fs, -, ⟨a, w, hrun, -⟩ | ⟨e, w, hrun⟩ | ⟨-, e, hrun⟩⟩ := hp c t ht <;> rw [hrun] at hgone ⊢
  · exact hk a _ { t with work := w } rfl hgone
  · cases hgone
  · exact hE _

theorem Parted.map {p : Sql δ ε α} (hp : Parted p P E) (f : α → β) :
    Parted (p >>= fun a => Pure.pure (f a)) (fun d b d' => ∃ a, b = f a ∧ P d a d') E := by
  intro c t ht hgone
  have hends := hp c t ht
  rw [bind_apply] at hgone ⊢
  rcases hr : p c with ⟨e | a, c'⟩ <;> rw [hr] at hgone hends
  · exact hends hgone
  · exact ⟨a, rfl, hends hgone⟩

theorem Parted.read_toOption {f : δ → Except SqlError α} {k : Option α → Sql δ ε β}
    {P : δ → β → δ → Prop} (hk : ∀ o, Parted (k o) P E) (halone : Autonomous (k none) P E) :
    Parted ((Sql.read f).toOption >>= k) P E := by
  intro c t ht hgone
  obtain ⟨fault, fs, hnext, -⟩ := nextFault_cases c
  rw [bind_apply, Sql.toOption, Sql.read, hnext] at hgone ⊢
  cases fault with
  | none =>
    cases hf : f ({ c with faults := fs } : Conn δ).current <;> simp only [hf] at hgone ⊢ <;>
      exact hk _ { c with faults := fs } t ht hgone
  | statement => exact hk none { c with faults := fs } t ht hgone
  | rollback => exact (halone { c with txn := none, faults := fs } rfl).2

end

/-! ## What a program sees

Marks, and whether `BEGIN` or a savepoint opened the transaction, are nothing to a statement. -/

structure SameView (c c' : Conn δ) : Prop where
  committed : c.committed = c'.committed
  work : c.txn.map Txn.work = c'.txn.map Txn.work
  faults : c.faults = c'.faults

/-- On connections with the same view it gives the same, and leaves them with the same view. -/
def Uniform (p : Sql δ ε α) : Prop :=
  ∀ c c', SameView c c' → (p c).1 = (p c').1 ∧ SameView (p c).2 (p c').2

theorem SameView.nextFault {c c' : Conn δ} (h : SameView c c') :
    c.nextFault.1 = c'.nextFault.1 ∧ SameView c.nextFault.2 c'.nextFault.2 := by
  unfold Conn.nextFault
  rw [← h.faults]
  split
  · exact ⟨rfl, h⟩
  · exact ⟨rfl, h.committed, h.work, rfl⟩

theorem SameView.current {c c' : Conn δ} (h : SameView c c') : c.current = c'.current := by
  have hw := h.work
  unfold Conn.current
  cases ht : c.txn <;> cases ht' : c'.txn <;> simp [ht, ht'] at hw
  · exact h.committed
  · exact hw

theorem SameView.put {c c' : Conn δ} (h : SameView c c') (d : δ) :
    SameView (c.put d) (c'.put d) := by
  have hw := h.work
  unfold Conn.put
  cases ht : c.txn <;> cases ht' : c'.txn <;> simp [ht, ht'] at hw
  · exact ⟨rfl, rfl, h.faults⟩
  · exact ⟨h.committed, rfl, h.faults⟩

theorem SameView.afterFailure {c c' : Conn δ} (h : SameView c c') (fault : Fault) :
    SameView (c.afterFailure fault) (c'.afterFailure fault) := by
  cases fault with
  | rollback => exact ⟨h.committed, rfl, h.faults⟩
  | none | statement => exact h

theorem Uniform.pure (a : α) : Uniform (pure a : Sql δ ε α) := fun _ _ h => ⟨rfl, h⟩

theorem Uniform.throw (e : ε) : Uniform (Sql.throw e : Sql δ ε α) := fun _ _ h => ⟨rfl, h⟩

theorem Uniform.read (f : δ → Except SqlError α) : Uniform (Sql.read f) := by
  intro c c' h
  obtain ⟨hfault, hview⟩ := h.nextFault
  rcases hn : c.nextFault with ⟨fault, c₁⟩
  rcases hn' : c'.nextFault with ⟨fault', c₁'⟩
  rw [hn, hn'] at hfault hview
  obtain rfl : fault = fault' := hfault
  simp only [Sql.read, hn, hn']
  cases fault with
  | none => exact ⟨congrArg f hview.current, hview⟩
  | statement => exact ⟨rfl, hview.afterFailure .statement⟩
  | rollback => exact ⟨rfl, hview.afterFailure .rollback⟩

theorem Uniform.write (f : δ → Except SqlError (α × δ)) : Uniform (Sql.write f) := by
  intro c c' h
  obtain ⟨hfault, hview⟩ := h.nextFault
  rcases hn : c.nextFault with ⟨fault, c₁⟩
  rcases hn' : c'.nextFault with ⟨fault', c₁'⟩
  rw [hn, hn'] at hfault hview
  obtain rfl : fault = fault' := hfault
  simp only [Sql.write, hn, hn']
  cases fault with
  | none =>
    simp only [← hview.current]
    cases f c₁.current with
    | ok r => exact ⟨rfl, hview.put r.2⟩
    | error e => exact ⟨rfl, hview⟩
  | statement => exact ⟨rfl, hview.afterFailure .statement⟩
  | rollback => exact ⟨rfl, hview.afterFailure .rollback⟩

theorem Uniform.bind {p : Sql δ ε α} {k : α → Sql δ ε β} (hp : Uniform p)
    (hk : ∀ a, Uniform (k a)) : Uniform (p >>= k) := by
  intro c c' h
  obtain ⟨hres, hview⟩ := hp c c' h
  rw [bind_apply, bind_apply]
  rcases hr : p c with ⟨r, c₁⟩
  rcases hr' : p c' with ⟨r', c₁'⟩
  rw [hr, hr'] at hres hview
  obtain rfl : r = r' := hres
  cases r with
  | ok a => exact hk a _ _ hview
  | error e => exact ⟨rfl, hview⟩

theorem Uniform.mapErr {p : Sql δ ε α} (hp : Uniform p) (f : ε → ε') : Uniform (p.mapErr f) := by
  intro c c' h
  obtain ⟨hres, hview⟩ := hp c c' h
  unfold Sql.mapErr
  rcases hr : p c with ⟨r, c₁⟩
  rcases hr' : p c' with ⟨r', c₁'⟩
  rw [hr, hr'] at hres hview
  obtain rfl : r = r' := hres
  cases r <;> exact ⟨rfl, hview⟩

theorem Uniform.toOption {p : Sql δ ε α} (hp : Uniform p) :
    Uniform (p.toOption : Sql δ ε' (Option α)) := by
  intro c c' h
  obtain ⟨hres, hview⟩ := hp c c' h
  unfold Sql.toOption
  rcases hr : p c with ⟨r, c₁⟩
  rcases hr' : p c' with ⟨r', c₁'⟩
  rw [hr, hr'] at hres hview
  obtain rfl : r = r' := hres
  cases r <;> exact ⟨rfl, hview⟩

end Lib.Transaction
