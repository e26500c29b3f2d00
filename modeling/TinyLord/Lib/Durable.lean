import TinyLord.Lib.Invariant

/-!
# The durable states in their order

When each write of a program leads to a larger database, the states that it makes durable are in
order, whichever of its statements fail.
-/

namespace Lib.Transaction

universe u

variable {δ ε ε' μ : Type*} {α β : Type u} [Preorder μ]

/-- What has been made durable is in order, and what may still be is larger. -/
structure Conn.Ordered (size : δ → μ) (c : Conn δ) : Prop where
  durable : (c.strays ++ [c.committed]).Pairwise fun d d' => size d ≤ size d'
  work : ∀ t, c.txn = some t → size c.committed ≤ size t.work
  marks : ∀ t, c.txn = some t → ∀ d ∈ t.marks, size c.committed ≤ size d

structure Conn.Rises (P : δ → Prop) (size : δ → μ) (c : Conn δ) : Prop where
  all : c.All P
  order : c.Ordered size

/-- From a database with `pre` the program rises, and when it succeeds the database has `post`. -/
def Keeps (P : δ → Prop) (size : δ → μ) (pre : δ → Prop) (p : Sql δ ε α) (post : α → δ → Prop) :
    Prop :=
  ∀ c, c.Rises P size → pre c.current →
    (p c).2.Rises P size ∧ ∀ a, (p c).1 = .ok a → post a (p c).2.current

/-- The program rises from any database. -/
abbrev Climbs (P : δ → Prop) (size : δ → μ) (p : Sql δ ε α) : Prop :=
  Keeps P size (fun _ => True) p fun _ _ => True

variable {P : δ → Prop} {size : δ → μ} {c : Conn δ} {d : δ}

theorem ordered_open (d : δ) (faults : List Fault) : (Conn.open d faults).Ordered size :=
  ⟨List.pairwise_singleton _ _, nofun, nofun⟩

/-! ## One statement -/

theorem Conn.Ordered.faults (h : c.Ordered size) (fs : List Fault) :
    { c with faults := fs }.Ordered size :=
  ⟨h.durable, h.work, h.marks⟩

theorem Conn.Ordered.gone (h : c.Ordered size) : { c with txn := none }.Ordered size :=
  ⟨h.durable, nofun, nofun⟩

theorem robust_ordered : Robust (Conn.Ordered size) :=
  ⟨fun _ fs h => h.faults fs, fun _ h => h.gone⟩

theorem Conn.Ordered.current (h : c.Ordered size) : size c.committed ≤ size c.current := by
  unfold Conn.current
  cases ht : c.txn with
  | none => exact le_refl _
  | some t => exact h.work t ht

theorem Conn.Ordered.last (h : c.Ordered size) (hle : size c.committed ≤ size d) :
    (c.strays ++ [d]).Pairwise fun x y => size x ≤ size y := by
  obtain ⟨hstrays, -, hcommitted⟩ := List.pairwise_append.mp h.durable
  refine List.pairwise_append.mpr ⟨hstrays, List.pairwise_singleton _ _, ?_⟩
  intro x hx y hy
  rw [List.mem_singleton.mp hy]
  exact (hcommitted x hx c.committed (List.mem_singleton_self _)).trans hle

theorem Conn.Ordered.le_committed (h : c.Ordered size) (hd : d ∈ c.strays ++ [c.committed]) :
    size d ≤ size c.committed := by
  rcases List.mem_append.mp hd with hd | hd
  · exact (List.pairwise_append.mp h.durable).2.2 d hd _ (List.mem_singleton_self _)
  · rw [List.mem_singleton.mp hd]

theorem Conn.Ordered.lastTwice (h : c.Ordered size) (hle : size c.committed ≤ size d) :
    (c.strays ++ [d] ++ [d]).Pairwise fun x y => size x ≤ size y := by
  have hlast := h.last hle
  refine List.pairwise_append.mpr ⟨hlast, List.pairwise_singleton _ _, ?_⟩
  intro x hx y hy
  rw [List.mem_singleton.mp hy]
  rcases List.mem_append.mp hx with hx | hx
  · exact (List.pairwise_append.mp hlast).2.2 x hx d (List.mem_singleton_self d)
  · rw [List.mem_singleton.mp hx]

theorem Conn.All.durable (h : c.All P) (hd : d ∈ c.strays ++ [c.committed]) : P d := by
  rcases List.mem_append.mp hd with hd | hd
  · exact h.strays d hd
  · rw [List.mem_singleton.mp hd]
    exact h.committed

theorem current_put (c : Conn δ) (d : δ) : (c.put d).current = d := by
  unfold Conn.put
  cases c.txn <;> rfl

theorem Conn.Ordered.put (h : c.Ordered size) (hle : size c.current ≤ size d) :
    (c.put d).Ordered size := by
  have hle : size c.committed ≤ size d := h.current.trans hle
  unfold Conn.put
  cases ht : c.txn with
  | none =>
    refine ⟨h.lastTwice hle, ?_, ?_⟩ <;> rintro _ ⟨⟩
  | some t =>
    refine ⟨h.durable, ?_, ?_⟩
    · rintro _ ⟨⟩
      exact hle
    · rintro _ ⟨⟩
      exact h.marks t ht

theorem current_nextFault (c : Conn δ) : c.nextFault.2.current = c.current := by
  unfold Conn.nextFault
  split <;> rfl

/-! ## Transaction control -/

theorem Conn.Ordered.begin (h : c.Ordered size) : c.begin.2.Ordered size := by
  refine robust_ordered.step h fun c₁ h₁ => ?_
  split
  · refine ⟨h₁.durable, ?_, ?_⟩
    · rintro _ ⟨⟩
      exact le_refl _
    · rintro _ ⟨⟩
      exact nofun
  · exact h₁

theorem Conn.Ordered.savepoint (h : c.Ordered size) : c.savepoint.2.Ordered size := by
  refine robust_ordered.step h fun c₁ h₁ => ?_
  split
  · refine ⟨h₁.durable, ?_, ?_⟩
    · rintro _ ⟨⟩
      exact le_refl _
    · rintro _ ⟨⟩
      exact List.forall_mem_singleton.mpr (le_refl _)
  · next t ht =>
    refine ⟨h₁.durable, ?_, ?_⟩
    · rintro _ ⟨⟩
      exact h₁.work t ht
    · rintro _ ⟨⟩
      exact List.forall_mem_cons.mpr ⟨h₁.work t ht, h₁.marks t ht⟩

theorem Conn.Ordered.release (h : c.Ordered size) : c.release.2.Ordered size := by
  refine robust_ordered.step h fun c₁ h₁ => ?_
  split
  · exact h₁
  · next t ht =>
    split
    · exact h₁
    · next mark ms hms =>
      split
      · exact ⟨h₁.lastTwice (h₁.work t ht), nofun, nofun⟩
      · refine ⟨h₁.durable, ?_, ?_⟩
        · rintro _ ⟨⟩
          exact h₁.work t ht
        · rintro _ ⟨⟩ d hd
          exact h₁.marks t ht d (hms ▸ List.mem_cons_of_mem _ hd)

theorem Conn.Ordered.rollbackTo (h : c.Ordered size) : c.rollbackTo.2.Ordered size := by
  unfold Conn.rollbackTo
  split
  · exact h
  · next t ht =>
    split
    · exact h
    · next mark ms hms =>
      refine ⟨h.durable, ?_, ?_⟩
      · rintro _ ⟨⟩
        exact h.marks t ht mark (hms ▸ List.mem_cons_self)
      · rintro _ ⟨⟩
        exact h.marks t ht

theorem Conn.Ordered.commit (h : c.Ordered size) : c.commit.2.Ordered size := by
  refine robust_ordered.step h fun c₁ h₁ => ?_
  split
  · exact h₁
  · next t ht =>
    refine ⟨?_, nofun, nofun⟩
    dsimp only
    split
    · exact h₁.last (h₁.work t ht)
    · exact h₁.lastTwice (h₁.work t ht)

theorem Conn.Ordered.rollback (h : c.Ordered size) : c.rollback.2.Ordered size := by
  unfold Conn.rollback
  split
  · exact h
  · exact h.gone

/-! ## Both at once -/

theorem rises_open (h : P d) (faults : List Fault) : (Conn.open d faults).Rises P size :=
  ⟨all_open h faults, ordered_open d faults⟩

theorem Conn.Rises.mono {P' : δ → Prop} (h : c.Rises P size) (himp : ∀ d, P d → P' d) :
    c.Rises P' size :=
  ⟨⟨himp _ h.all.committed, fun t ht => himp _ (h.all.work t ht),
    fun t ht d hd => himp d (h.all.marks t ht d hd), fun d hd => himp d (h.all.strays d hd)⟩,
    h.order⟩

theorem Conn.Rises.put (h : c.Rises P size) (hd : P d) (hle : size c.current ≤ size d) :
    (c.put d).Rises P size :=
  ⟨h.all.put hd, h.order.put hle⟩

theorem robust_rises : Robust (Conn.Rises P size) where
  faults _ fs h := ⟨h.all.faults fs, h.order.faults fs⟩
  gone _ h := ⟨h.all.gone, h.order.gone⟩

theorem stable_rises (P : δ → Prop) (size : δ → μ) : Stable (Conn.Rises P size) where
  begin _ h := ⟨h.all.begin, h.order.begin⟩
  savepoint _ h := ⟨h.all.savepoint, h.order.savepoint⟩
  release _ h := ⟨h.all.release, h.order.release⟩
  rollbackTo _ h := ⟨h.all.rollbackTo, h.order.rollbackTo⟩
  commit _ h := ⟨h.all.commit, h.order.commit⟩
  rollback _ h := ⟨h.all.rollback, h.order.rollback⟩

/-! ## Programs -/

section

variable {pre : δ → Prop} {post : α → δ → Prop} {p : Sql δ ε α}

theorem Keeps.pure (a : α) (hpost : ∀ d, pre d → post a d) :
    Keeps P size pre (pure a : Sql δ ε α) post := by
  intro c h hc
  refine ⟨h, ?_⟩
  rintro _ ⟨⟩
  exact hpost _ hc

theorem Keeps.throw (e : ε) : Keeps P size pre (Sql.throw e : Sql δ ε α) post :=
  fun _ h _ => ⟨h, nofun⟩

theorem Keeps.mapErr (hp : Keeps P size pre p post) (f : ε → ε') :
    Keeps P size pre (p.mapErr f) post := by
  intro c h hc
  obtain ⟨hrises, hafter⟩ := hp c h hc
  unfold Sql.mapErr
  generalize p c = r at hrises hafter ⊢
  obtain ⟨e | a, c₁⟩ := r
  · exact ⟨hrises, nofun⟩
  · refine ⟨hrises, ?_⟩
    rintro _ ⟨⟩
    exact hafter a rfl

theorem Keeps.bind {mid : α → δ → Prop} {post : β → δ → Prop} {k : α → Sql δ ε β}
    (hp : Keeps P size pre p mid) (hk : ∀ a, Keeps P size (mid a) (k a) post) :
    Keeps P size pre (p >>= k) post := by
  intro c h hc
  obtain ⟨hrises, hafter⟩ := hp c h hc
  rw [bind_apply]
  generalize p c = r at hrises hafter ⊢
  obtain ⟨e | a, c₁⟩ := r
  · exact ⟨hrises, nofun⟩
  · exact hk a c₁ hrises (hafter a rfl)

theorem Keeps.write {f : δ → Except SqlError (α × δ)}
    (hf : ∀ d a d', P d → pre d → f d = .ok (a, d') → P d' ∧ size d ≤ size d' ∧ post a d') :
    Keeps P size pre (Sql.write f) post := by
  intro c h hc
  have hnext := robust_rises.nextFault h
  rw [← current_nextFault] at hc
  unfold Sql.write
  generalize c.nextFault = r at hnext hc ⊢
  obtain ⟨fault, c₁⟩ := r
  cases fault with
  | none =>
    dsimp only at hnext hc ⊢
    cases hrun : f c₁.current with
    | error e => exact ⟨hnext, nofun⟩
    | ok r =>
      obtain ⟨hd, hle, hpost⟩ := hf _ _ _ hnext.all.current hc hrun
      refine ⟨hnext.put hd hle, ?_⟩
      rintro _ ⟨⟩
      rw [current_put]
      exact hpost
  | statement => exact ⟨robust_rises.afterFailure hnext .statement, nofun⟩
  | rollback => exact ⟨robust_rises.afterFailure hnext .rollback, nofun⟩

/-! ## Programs that rise from anywhere -/

theorem Climbs.pure (a : α) : Climbs P size (Pure.pure a : Sql δ ε α) :=
  Keeps.pure a fun _ _ => trivial

theorem Climbs.throw (e : ε) : Climbs P size (Sql.throw e : Sql δ ε α) := Keeps.throw e

theorem Climbs.mapErr (hp : Climbs P size p) (f : ε → ε') : Climbs P size (p.mapErr f) :=
  Keeps.mapErr hp f

theorem Climbs.bind {k : α → Sql δ ε β} (hp : Climbs P size p) (hk : ∀ a, Climbs P size (k a)) :
    Climbs P size (p >>= k) :=
  Keeps.bind hp hk

theorem Climbs.toOption (hp : Climbs P size p) :
    Climbs P size (p.toOption : Sql δ ε' (Option α)) := by
  intro c h hc
  obtain ⟨hrises, -⟩ := hp c h hc
  unfold Sql.toOption
  generalize p c = r at hrises ⊢
  obtain ⟨e | a, c₁⟩ := r <;> exact ⟨hrises, fun _ _ => trivial⟩

theorem Climbs.read (f : δ → Except SqlError α) : Climbs P size (Sql.read f) := by
  intro c h _
  have hnext := robust_rises.nextFault h
  unfold Sql.read
  generalize c.nextFault = r at hnext ⊢
  obtain ⟨fault, c₁⟩ := r
  cases fault with
  | none => exact ⟨hnext, fun _ _ => trivial⟩
  | statement => exact ⟨robust_rises.afterFailure hnext .statement, nofun⟩
  | rollback => exact ⟨robust_rises.afterFailure hnext .rollback, nofun⟩

end

end Lib.Transaction
