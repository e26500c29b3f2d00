import TinyLord.Lib.Run

/-!
# Threads over a shared state

Each thread has a local state, and a step of one thread changes that state and the shared
one. A property of the whole is proved from the steps of single threads: each keeps the
shared part and its own assertion, and does not disturb what the other threads assert.
-/

open Lib.Run

namespace Lib.Threads

structure Pool (σ π : Type*) where
  shared : σ
  threads : Nat → π

variable {σ π α γ : Type*} {next : σ → Nat → π → α → Option (σ × π)}
  {ok : σ → Nat → π → α → Prop} {G : γ → σ → Prop} {A : γ → σ → Nat → π → Prop}
  {s s' : Pool σ π} {a : Nat × α}

def step (next : σ → Nat → π → α → Option (σ × π)) (s : Pool σ π) (a : Nat × α) :
    Option (Pool σ π) :=
  (next s.shared a.1 (s.threads a.1) a.2).map fun r =>
    ⟨r.1, Function.update s.threads a.1 r.2⟩

def moving (ok : σ → Nat → π → α → Prop) (s : Pool σ π) (a : Nat × α) : Prop :=
  ok s.shared a.1 (s.threads a.1) a.2

instance [∀ c i p a, Decidable (ok c i p a)] (s : Pool σ π) (a : Nat × α) :
    Decidable (moving ok s a) :=
  inferInstanceAs (Decidable (ok s.shared a.1 (s.threads a.1) a.2))

theorem step_cases (h : step next s a = some s') :
    ∃ c p, next s.shared a.1 (s.threads a.1) a.2 = some (c, p) ∧
      s' = ⟨c, Function.update s.threads a.1 p⟩ := by
  obtain ⟨⟨c, p⟩, hnext, rfl⟩ := Option.map_eq_some_iff.mp h
  exact ⟨c, p, hnext, rfl⟩

/-- The shared part and the assertion of every thread, for one value of the auxiliary `g`. -/
def Asserted (G : γ → σ → Prop) (A : γ → σ → Nat → π → Prop) (s : Pool σ π) : Prop :=
  ∃ g, G g s.shared ∧ ∀ i, A g s.shared i (s.threads i)

/-- A step of thread `i` keeps the shared part, its own assertion and those of all the
others. The auxiliary may change with it. -/
def Keeps (next : σ → Nat → π → α → Option (σ × π)) (ok : σ → Nat → π → α → Prop)
    (G : γ → σ → Prop) (A : γ → σ → Nat → π → Prop) : Prop :=
  ∀ g c i p a c' p', G g c → A g c i p → ok c i p a → next c i p a = some (c', p') →
    ∃ g', G g' c' ∧ A g' c' i p' ∧ ∀ j q, j ≠ i → A g c j q → A g' c' j q

theorem Asserted.step (hkeeps : Keeps next ok G A) (hs : Asserted G A s) (hok : moving ok s a)
    (h : Threads.step next s a = some s') : Asserted G A s' := by
  obtain ⟨c, p, hnext, rfl⟩ := step_cases h
  obtain ⟨g, hG, hA⟩ := hs
  obtain ⟨g', hG', hown, hothers⟩ := hkeeps g _ _ _ _ _ _ hG (hA a.1) hok hnext
  refine ⟨g', hG', ?_⟩
  intro j
  by_cases hj : j = a.1
  · subst hj
    simpa using hown
  · simpa only [Function.update_of_ne hj] using hothers j _ hj (hA j)

theorem Asserted.run (hkeeps : Keeps next ok G A) (hs : Asserted G A s)
    (h : Reach (Threads.step next) (moving ok) s s') : Asserted G A s' :=
  h.inv (Asserted G A) hs fun _ _ _ ht hok hstep => ht.step hkeeps hok hstep

/-! ## Finitely many threads

A condition on all threads is checked on those that a run moves: the others are as at the start. -/

theorem reach_below {ok ok' : Pool σ π → Nat × α → Prop} {n : Nat} {p₀ : π}
    (himp : ∀ s a, (∀ j, n ≤ j → s.threads j = p₀) → ok s a → ok' s a)
    (h₀ : ∀ j, n ≤ j → s.threads j = p₀)
    (h : Reach (Threads.step next) (fun s a => a.1 < n ∧ ok s a) s s') :
    Reach (Threads.step next) ok' s s' := by
  have hboth : Reach (Threads.step next) ok' s s' ∧ ∀ j, n ≤ j → s'.threads j = p₀ := by
    induction h with
    | refl => exact ⟨.refl, h₀⟩
    | tail a _ hok hstep ih =>
      obtain ⟨hreach, hrest⟩ := ih
      refine ⟨.tail a hreach (himp _ a hrest hok.2) hstep, ?_⟩
      obtain ⟨c, p, -, rfl⟩ := step_cases hstep
      intro j hj
      have hne : j ≠ a.1 := by
        have := hok.1
        omega
      simpa only [Function.update_of_ne hne] using hrest j hj
  exact hboth.1

/-! ## The same actions on two pools -/

/-- The shared parts are related, and the threads are the same. Each meets `P`. -/
structure Twins (R : σ → σ → Prop) (P : π → Prop) (s s' : Pool σ π) : Prop where
  shared : R s.shared s'.shared
  threads : s'.threads = s.threads
  each : ∀ i, P (s.threads i)

/-- The action does the same to a thread on either side, and keeps the shared parts related. -/
def Mirrors (next : σ → Nat → π → α → Option (σ × π)) (R : σ → σ → Prop) (P : π → Prop) (a : α) :
    Prop :=
  ∀ c c' i p, R c c' → P p →
    Option.Rel (fun r r' => R r.1 r'.1 ∧ r'.2 = r.2 ∧ P r.2) (next c i p a) (next c' i p a)

variable {R : σ → σ → Prop} {P : π → Prop}

theorem Twins.step (hmirrors : Mirrors next R P a.2) (h : Twins R P s s') :
    Option.Rel (Twins R P) (Threads.step next s a) (Threads.step next s' a) := by
  have hnext := hmirrors s.shared s'.shared a.1 (s.threads a.1) h.shared (h.each a.1)
  rw [Threads.step, Threads.step, h.threads]
  generalize next s.shared a.1 (s.threads a.1) a.2 = o at hnext
  generalize next s'.shared a.1 (s.threads a.1) a.2 = o' at hnext
  cases hnext with
  | none => exact .none
  | some hr =>
    obtain ⟨hshared, hthread, hP⟩ := hr
    refine .some ⟨hshared, congrArg (Function.update s.threads a.1) hthread, ?_⟩
    intro i
    by_cases hi : i = a.1
    · subst hi
      simpa using hP
    · simpa only [Function.update_of_ne hi] using h.each i

theorem Twins.run {as : List (Nat × α)} (hmirrors : ∀ a ∈ as, Mirrors next R P a.2)
    (h : Twins R P s s') :
    Option.Rel (Twins R P) (exec (Threads.step next) s as) (exec (Threads.step next) s' as) :=
  exec_rel as (fun _ _ hts a ha => hts.step (hmirrors a ha)) h

end Lib.Threads
